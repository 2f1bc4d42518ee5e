import OpenDirectory.SecondFactor

/-! How many guesses a name or an address has. The failures are counted when an attempt starts and the
attempt is written down when it has failed, so the count sees the attempts that are over. It sees all
of them where nobody tries while another attempt of the same name or address is under way. -/

namespace OpenDirectory.SignIn

open Totp (Library)

variable [Runtime]

section

variable (belongs : String → Option String → Bool)

/-- A failure from a time on. -/
def Event.failing (since : Nat) : Event → Bool
  | .failed _ username sourceIp at_ => belongs username sourceIp && since ≤ at_
  | .handed .. => false

/-- A failure in a stretch of time. -/
def Event.failingIn (since until_ : Nat) : Event → Bool
  | .failed _ username sourceIp at_ => belongs username sourceIp && (since ≤ at_ && at_ < until_)
  | .handed .. => false

def Event.isHanded : Event → Bool
  | .failed .. => false
  | .handed .. => true

def Attempt.failing (since : Nat) (row : Attempt) : Bool :=
  !row.succeeded && (belongs row.username row.sourceIp && since ≤ row.occurredAt)

/-- An attempt that belongs counts all failures that belong. -/
def Closed : Prop :=
  ∀ username username' sourceIp sourceIp', belongs username sourceIp = true →
    belongs username' sourceIp' = true →
      lower username' = lower username ∨ sourceIp.isSome = true ∧ sourceIp' = sourceIp

/-- A failure that is not written down yet. -/
def World.Owed (world : World) : Prop :=
  ∃ attempt request username, world.pending attempt = some (request, .owing username true) ∧
    belongs request.name request.sourceIp = true

end

/-- No attempt of the same name or address is under way when one starts. -/
def World.Alone (world : World) : Move → Prop
  | .check _ request => ∀ attempt other stage, world.pending attempt = some (other, stage) →
      lower other.name ≠ lower request.name ∧
        ¬ (request.sourceIp.isSome = true ∧ other.sourceIp = request.sourceIp)
  | _ => True

/-- What is known of the failures of a run: at most one is not written down yet, an attempt under way
was counted against all of them, and no window has more than are allowed. -/
structure Bounded (limits : Limits) (belongs : String → Option String → Bool) (world : World)
    (events : List Event) : Prop where
  past : ∀ event ∈ events, ∀ since, event.failing belongs since = true → since ≤ world.now
  named : ∀ attempt request username, world.pending attempt = some (request, .owing username true) →
    username = request.name
  one : ∀ attempt attempt' request request' stage stage', world.pending attempt = some (request, stage) →
    world.pending attempt' = some (request', stage') → belongs request.name request.sourceIp = true →
      belongs request'.name request'.sourceIp = true → attempt = attempt'
  checked : ∀ attempt request at_, world.pending attempt = some (request, .checked at_) →
    belongs request.name request.sourceIp = true → at_ ≤ world.now ∧
      events.countP (Event.failing belongs (at_ + 1 - limits.window)) < limits.maxFailures
  clear : ¬ world.Owed belongs → ∀ since,
    events.countP (Event.failing belongs since) ≤ world.attempts.countP (Attempt.failing belongs since)
  owed : ∀ since, events.countP (Event.failing belongs since) ≤
    world.attempts.countP (Attempt.failing belongs since) + 1
  window : ∀ since,
    events.countP (Event.failingIn belongs since (since + limits.window)) ≤ limits.maxFailures

variable {limits : Limits} {belongs : String → Option String → Bool} {world world' : World}
  {events : List Event}

omit [Runtime] in
theorem countP_append_handed {p : Event → Bool} {out : List Event} (h : ∀ event ∈ out, p event = false) :
    (events ++ out).countP p = events.countP p := by
  have hout : out.countP p = 0 := List.countP_eq_zero.mpr fun event hevent => by simp [h event hevent]
  rw [List.countP_append, hout, Nat.add_zero]

theorem Bounded.frame (h : Bounded limits belongs world events) (world' : World) (out : List Event)
    (hnow : world.now ≤ world'.now)
    (hnamed : ∀ attempt request username, world'.pending attempt = some (request, .owing username true) →
      username = request.name)
    (hpending : ∀ attempt request stage, world'.pending attempt = some (request, stage) →
      belongs request.name request.sourceIp = true → ∃ stage', world.pending attempt = some (request, stage') ∧
        (stage = stage' ∨ ∃ username, stage = .owing username false))
    (howed : world.Owed belongs → world'.Owed belongs)
    (hrows : ∀ since, world.attempts.countP (Attempt.failing belongs since) ≤
      world'.attempts.countP (Attempt.failing belongs since))
    (hout : ∀ event ∈ out, ∀ since, event.failing belongs since = false)
    (houtIn : ∀ event ∈ out, ∀ since until_, event.failingIn belongs since until_ = false) :
    Bounded limits belongs world' (events ++ out) := by
  have hcount : ∀ since, (events ++ out).countP (Event.failing belongs since) =
      events.countP (Event.failing belongs since) :=
    fun since => countP_append_handed fun event hevent => hout event hevent since
  have hcountIn : ∀ since until_, (events ++ out).countP (Event.failingIn belongs since until_) =
      events.countP (Event.failingIn belongs since until_) :=
    fun since until_ => countP_append_handed fun event hevent => houtIn event hevent since until_
  constructor
  · intro event hevent since hfailing
    rcases List.mem_append.mp hevent with hevent | hevent
    · exact (h.past event hevent since hfailing).trans hnow
    · exact absurd ((hout event hevent since).symm.trans hfailing) Bool.false_ne_true
  · exact hnamed
  · intro attempt attempt' request request' stage stage' hp hp' hb hb'
    obtain ⟨_, hp, _⟩ := hpending _ _ _ hp hb
    obtain ⟨_, hp', _⟩ := hpending _ _ _ hp' hb'
    exact h.one _ _ _ _ _ _ hp hp' hb hb'
  · intro attempt request at_ hp hb
    obtain ⟨stage', hp, rfl | ⟨_, hstage⟩⟩ := hpending _ _ _ hp hb
    · rw [hcount]
      exact ⟨(h.checked _ _ _ hp hb).1.trans hnow, (h.checked _ _ _ hp hb).2⟩
    · cases hstage
  · intro hclear since
    rw [hcount]
    exact (h.clear (fun howed' => hclear (howed howed')) since).trans (hrows since)
  · intro since
    rw [hcount]
    exact (h.owed since).trans (Nat.add_le_add_right (hrows since) 1)
  · intro since
    rw [hcountIn]
    exact h.window since

omit [Runtime] in
theorem settle_self (attempt : Nat) (stage : Option (Request × Stage)) :
    (world.settle attempt stage).pending attempt = stage := Function.update_self ..

variable {attempt at_ : Nat} {request : Request}

omit [Runtime] in
theorem settle_of_ne {i : Nat} (stage : Option (Request × Stage)) (h : i ≠ attempt) :
    (world.settle attempt stage).pending i = world.pending i := Function.update_of_ne h ..

omit [Runtime] in
theorem settle_cases {i : Nat} {stage : Option (Request × Stage)} {found : Request × Stage}
    (h : (world.settle attempt stage).pending i = some found) :
    i = attempt ∧ stage = some found ∨ i ≠ attempt ∧ world.pending i = some found := by
  by_cases heq : i = attempt
  · subst heq
    exact .inl ⟨rfl, (settle_self i stage).symm.trans h⟩
  · exact .inr ⟨heq, (settle_of_ne stage heq).symm.trans h⟩

theorem failing_le_recentFailures (hclosed : Closed belongs)
    (hbelongs : belongs request.name request.sourceIp = true) (attempts : List Attempt) (now : Nat) :
    attempts.countP (Attempt.failing belongs (now + 1 - limits.window)) ≤
      recentFailures limits attempts request now := by
  apply List.countP_mono_left
  intro row _ hfailing
  simp only [Attempt.failing, Bool.and_eq_true, decide_eq_true_eq] at hfailing
  obtain ⟨hfailed, hrow, hsince⟩ := hfailing
  simp only [counts, Bool.and_eq_true, Bool.or_eq_true, decide_eq_true_eq]
  refine ⟨⟨hfailed, by omega⟩, ?_⟩
  exact hclosed _ _ _ _ hbelongs hrow

theorem Bounded.check (h : Bounded limits belongs world events) (hclosed : Closed belongs)
      (hfree : world.pending attempt = none)
    (halone : world.Alone (.check attempt request))
    (hopen : recentFailures limits world.attempts request world.now < limits.maxFailures) :
    Bounded limits belongs (world.settle attempt (some (request, .checked world.now))) events := by
  have hold : ∀ i other stage, (world.settle attempt (some (request, .checked world.now))).pending i =
      some (other, stage) → i = attempt ∧ other = request ∧ stage = .checked world.now ∨
        i ≠ attempt ∧ world.pending i = some (other, stage) := by
    intro i other stage hi
    rcases settle_cases hi with ⟨heq, hstage⟩ | hi
    · cases hstage
      exact .inl ⟨heq, rfl, rfl⟩
    · exact .inr hi
  by_cases hbelongs : belongs request.name request.sourceIp = true
  · have hnone : ∀ i other stage, world.pending i = some (other, stage) →
        belongs other.name other.sourceIp = false := by
      intro i other stage hi
      by_contra hother
      obtain ⟨hname, haddress⟩ := halone i other stage hi
      rcases hclosed _ _ _ _ hbelongs (by simpa using hother) with heq | heq
      · exact hname heq
      · exact haddress heq
    have hclear : ¬ world.Owed belongs := by
      rintro ⟨i, other, username, hi, hother⟩
      exact Bool.false_ne_true ((hnone i other _ hi).symm.trans hother)
    constructor
    · exact h.past
    · intro i other username hi
      rcases hold _ _ _ hi with ⟨_, _, hstage⟩ | ⟨_, hi⟩
      · cases hstage
      · exact h.named _ _ _ hi
    · intro i j other other' stage stage' hi hj hother hother'
      rcases hold _ _ _ hi with ⟨rfl, _, _⟩ | ⟨_, hi⟩
      · rcases hold _ _ _ hj with ⟨rfl, _, _⟩ | ⟨_, hj⟩
        · rfl
        · exact absurd ((hnone _ _ _ hj).symm.trans hother') Bool.false_ne_true
      · exact absurd ((hnone _ _ _ hi).symm.trans hother) Bool.false_ne_true
    · intro i other at_ hi hother
      rcases hold _ _ _ hi with ⟨_, _, hstage⟩ | ⟨_, hi⟩
      · cases hstage
        refine ⟨le_rfl, (h.clear hclear _).trans_lt ?_⟩
        exact (failing_le_recentFailures hclosed hbelongs _ _).trans_lt hopen
      · exact absurd ((hnone _ _ _ hi).symm.trans hother) Bool.false_ne_true
    · exact fun _ => h.clear hclear
    · exact h.owed
    · exact h.window
  · have hframe := h.frame (world.settle attempt (some (request, .checked world.now))) [] le_rfl ?_ ?_ ?_ (fun _ => le_rfl) (fun _ => nofun) (fun _ => nofun)
    · rwa [List.append_nil] at hframe
    · intro i other username hi
      rcases hold _ _ _ hi with ⟨_, _, hstage⟩ | ⟨_, hi⟩
      · cases hstage
      · exact h.named _ _ _ hi
    · intro i other stage hi hother
      rcases hold _ _ _ hi with ⟨_, rfl, _⟩ | ⟨_, hi⟩
      · exact absurd hother hbelongs
      · exact ⟨stage, hi, .inl rfl⟩
    · rintro ⟨i, other, username, hi, hother⟩
      refine ⟨i, other, username, ?_, hother⟩
      have hne : i ≠ attempt := by
        rintro rfl
        cases hfree.symm.trans hi
      rw [settle_of_ne _ hne]
      exact hi

theorem Bounded.not_owed (h : Bounded limits belongs world events)
     (hpending : world.pending attempt = some (request, .checked at_))
    (hbelongs : belongs request.name request.sourceIp = true) : ¬ world.Owed belongs := by
  rintro ⟨i, other, username, hi, hother⟩
  cases h.one _ _ _ _ _ _ hi hpending hother hbelongs
  cases hi.symm.trans hpending

theorem Bounded.fail (h : Bounded limits belongs world events)
     (hpending : world.pending attempt = some (request, .checked at_)) (account : Option String) :
    Bounded limits belongs (world.settle attempt (some (request, .owing request.name true)))
      (events ++ [.failed account request.name request.sourceIp world.now]) := by
  by_cases hbelongs : belongs request.name request.sourceIp = true
  · obtain ⟨hat, hchecked⟩ := h.checked _ _ _ hpending hbelongs
    have honly : ∀ i other stage, (world.settle attempt (some (request, .owing request.name true))).pending i =
        some (other, stage) → belongs other.name other.sourceIp = true →
          i = attempt ∧ stage = .owing request.name true := by
      intro i other stage hi hother
      rcases settle_cases hi with ⟨heq, hstage⟩ | ⟨hne, hi⟩
      · cases hstage
        exact ⟨heq, rfl⟩
      · exact absurd (h.one _ _ _ _ _ _ hi hpending hother hbelongs) hne
    constructor
    · intro event hevent since hfailing
      rcases List.mem_append.mp hevent with hevent | hevent
      · exact h.past event hevent since hfailing
      · rw [List.mem_singleton] at hevent
        subst hevent
        simp only [Event.failing, Bool.and_eq_true, decide_eq_true_eq] at hfailing
        exact hfailing.2
    · intro i other username hi
      rcases settle_cases hi with ⟨_, hstage⟩ | ⟨_, hi⟩
      · cases hstage
        rfl
      · exact h.named _ _ _ hi
    · intro i j other other' stage stage' hi hj hother hother'
      exact (honly _ _ _ hi hother).1.trans (honly _ _ _ hj hother').1.symm
    · intro i other at_ hi hother
      cases (honly _ _ _ hi hother).2
    · intro hclear
      exact absurd ⟨attempt, request, request.name, settle_self .., hbelongs⟩ hclear
    · intro since
      have hone := List.countP_le_length (p := Event.failing belongs since)
        (l := [.failed account request.name request.sourceIp world.now])
      rw [List.length_singleton] at hone
      rw [List.countP_append]
      exact Nat.add_le_add (h.clear (h.not_owed hpending hbelongs) since) hone
    · intro since
      rw [List.countP_append]
      by_cases hin : since ≤ world.now ∧ world.now < since + limits.window
      · have hsub : events.countP (Event.failingIn belongs since (since + limits.window)) ≤
            events.countP (Event.failing belongs (at_ + 1 - limits.window)) := by
          apply List.countP_mono_left
          intro event _ hevent
          cases event with
          | handed => cases hevent
          | failed _ username sourceIp time =>
              simp only [Event.failingIn, Event.failing, Bool.and_eq_true, decide_eq_true_eq] at hevent ⊢
              refine ⟨hevent.1, ?_⟩
              omega
        have hone := List.countP_le_length (p := Event.failingIn belongs since (since + limits.window))
          (l := [.failed account request.name request.sourceIp world.now])
        rw [List.length_singleton] at hone
        omega
      · have hout : [Event.failed account request.name request.sourceIp world.now].countP
            (Event.failingIn belongs since (since + limits.window)) = 0 := by
          apply List.countP_eq_zero.mpr
          intro event hevent
          rw [List.mem_singleton] at hevent
          subst hevent
          simp only [Event.failingIn, Bool.and_eq_true, decide_eq_true_eq, not_and]
          exact fun _ hsince => fun huntil => hin ⟨hsince, huntil⟩
        rw [hout, Nat.add_zero]
        exact h.window since
  · rw [Bool.not_eq_true] at hbelongs
    apply h.frame (world.settle attempt (some (request, .owing request.name true))) _ le_rfl
    · intro i other username hi
      rcases settle_cases hi with ⟨_, hstage⟩ | ⟨_, hi⟩
      · cases hstage
        rfl
      · exact h.named _ _ _ hi
    · intro i other stage hi hother
      rcases settle_cases hi with ⟨_, hstage⟩ | ⟨_, hi⟩
      · cases hstage
        exact absurd (hbelongs.symm.trans hother) Bool.false_ne_true
      · exact ⟨stage, hi, .inl rfl⟩
    · rintro ⟨i, other, username, hi, hother⟩
      have hne : i ≠ attempt := by
        rintro rfl
        cases hi.symm.trans hpending
      exact ⟨i, other, username, (settle_of_ne _ hne).trans hi, hother⟩
    · exact fun _ => le_rfl
    · intro event hevent since
      rw [List.mem_singleton] at hevent
      rw [hevent, Event.failing, hbelongs, Bool.false_and]
    · intro event hevent since until_
      rw [List.mem_singleton] at hevent
      rw [hevent, Event.failingIn, hbelongs, Bool.false_and]

theorem Bounded.pass (h : Bounded limits belongs world events)
     (hpending : world.pending attempt = some (request, .checked at_))
    {stage : Option (Request × Stage)}
    (hstage : stage = none ∨ ∃ username, stage = some (request, .owing username false))
    (console : Console) (rows : List Attempt) (out : List Event)
    (hout : ∀ event ∈ out, event.isHanded = true) :
    Bounded limits belongs
      { world.settle attempt stage with console, attempts := world.attempts ++ rows } (events ++ out) := by
  have hcases : ∀ i other found, (world.settle attempt stage).pending i = some (other, found) →
      world.pending i = some (other, found) ∨
        i = attempt ∧ other = request ∧ ∃ username, found = .owing username false := by
    intro i other found hi
    rcases settle_cases hi with ⟨heq, hfound⟩ | ⟨_, hi⟩
    · rcases hstage with rfl | ⟨username, rfl⟩
      · cases hfound
      · cases hfound
        exact .inr ⟨heq, rfl, username, rfl⟩
    · exact .inl hi
  apply h.frame { world.settle attempt stage with console, attempts := world.attempts ++ rows } _ le_rfl
  · intro i other username hi
    rcases hcases _ _ _ hi with hi | ⟨_, _, _, hfound⟩
    · exact h.named _ _ _ hi
    · cases hfound
  · intro i other found hi hother
    rcases hcases _ _ _ hi with hi | ⟨rfl, rfl, username, rfl⟩
    · exact ⟨found, hi, .inl rfl⟩
    · exact ⟨_, hpending, .inr ⟨username, rfl⟩⟩
  · rintro ⟨i, other, username, hi, hother⟩
    have hne : i ≠ attempt := by
      rintro rfl
      cases hi.symm.trans hpending
    exact ⟨i, other, username, (settle_of_ne stage hne).trans hi, hother⟩
  · intro since
    rw [List.countP_append]
    exact Nat.le_add_right _ _
  · intro event hevent since
    cases event with
    | failed => cases hout _ hevent
    | handed => rfl
  · intro event hevent since until_
    cases event with
    | failed => cases hout _ hevent
    | handed => rfl

theorem Bounded.record (h : Bounded limits belongs world events)
    {username : String} {failed : Bool}
    (hpending : world.pending attempt = some (request, .owing username failed)) :
    Bounded limits belongs { world.settle attempt none with
      attempts := world.attempts ++ [⟨username, request.sourceIp, false, world.now⟩] } events := by
  have hold : ∀ i found, (world.settle attempt none).pending i = some found →
      i ≠ attempt ∧ world.pending i = some found := by
    intro i found hi
    rcases settle_cases hi with ⟨_, hstage⟩ | hi
    · cases hstage
    · exact hi
  have hrows : ∀ since, world.attempts.countP (Attempt.failing belongs since) ≤
      (world.attempts ++ [(⟨username, request.sourceIp, false, world.now⟩ : Attempt)]).countP
        (Attempt.failing belongs since) := by
    intro since
    rw [List.countP_append]
    exact Nat.le_add_right _ _
  by_cases hdue : failed = true ∧ belongs request.name request.sourceIp = true
  · obtain ⟨rfl, hbelongs⟩ := hdue
    have hname := h.named _ _ _ hpending
    have hpaid : ∀ since, events.countP (Event.failing belongs since) ≤
        (world.attempts ++ [(⟨username, request.sourceIp, false, world.now⟩ : Attempt)]).countP
          (Attempt.failing belongs since) := by
      intro since
      by_cases hsince : since ≤ world.now
      · have hrow : [(⟨username, request.sourceIp, false, world.now⟩ : Attempt)].countP
            (Attempt.failing belongs since) = 1 := by
          rw [List.countP_singleton, if_pos]
          simp only [Attempt.failing, Bool.not_false, Bool.true_and, Bool.and_eq_true, decide_eq_true_eq]
          exact ⟨hname ▸ hbelongs, hsince⟩
        rw [List.countP_append, hrow]
        exact h.owed since
      · have hnone : events.countP (Event.failing belongs since) = 0 :=
          List.countP_eq_zero.mpr fun event hevent hfailing => hsince (h.past event hevent since hfailing)
        rw [hnone]
        exact Nat.zero_le _
    constructor
    · exact h.past
    · exact fun i other username hi => h.named _ _ _ (hold _ _ hi).2
    · exact fun i j other other' stage stage' hi hj =>
        h.one _ _ _ _ _ _ (hold _ _ hi).2 (hold _ _ hj).2
    · exact fun i other at_ hi => h.checked _ _ _ (hold _ _ hi).2
    · exact fun _ => hpaid
    · exact fun since => (hpaid since).trans (Nat.le_succ _)
    · exact h.window
  · have hframe := h.frame { world.settle attempt none with
      attempts := world.attempts ++ [⟨username, request.sourceIp, false, world.now⟩] } [] le_rfl
      (fun i other username hi => h.named _ _ _ (hold _ _ hi).2)
      (fun i other stage hi _ => ⟨stage, (hold _ _ hi).2, .inl rfl⟩) ?_ hrows (fun _ => nofun)
      (fun _ => nofun)
    · rwa [List.append_nil] at hframe
    · rintro ⟨i, other, name, hi, hother⟩
      have hne : i ≠ attempt := by
        rintro rfl
        cases hi.symm.trans hpending
        exact hdue ⟨rfl, hother⟩
      exact ⟨i, other, name, (settle_of_ne none hne).trans hi, hother⟩

theorem Bounded.beside (h : Bounded limits belongs world events) (console : Console) (rows : List Attempt)
    (elapsed : Nat) (out : List Event)
    (hout : ∀ event ∈ out, event.isHanded = true) :
    Bounded limits belongs
      { world with console, attempts := world.attempts ++ rows, now := world.now + elapsed }
      (events ++ out) := by
  apply h.frame { world with console, attempts := world.attempts ++ rows, now := world.now + elapsed } _
    (Nat.le_add_right _ _) h.named
  · exact fun i other stage hi _ => ⟨stage, hi, .inl rfl⟩
  · exact id
  · intro since
    rw [List.countP_append]
    exact Nat.le_add_right _ _
  · intro event hevent since
    cases event with
    | failed => cases hout _ hevent
    | handed => rfl
  · intro event hevent since until_
    cases event with
    | failed => cases hout _ hevent
    | handed => rfl

variable [Library]

omit [Runtime] [Library] in
theorem handed_issue {sourceIp : Option String} {username : String} {route : Route} {account : Account}
    {factor : Option Totp.Answer} :
    ∀ event ∈ (world.issue sourceIp username route account factor).2, event.isHanded = true := by
  intro event hevent
  rw [List.mem_singleton.mp hevent]
  rfl

theorem Bounded.verify (h : Bounded limits belongs world events) {attempt : Nat} {request : Request}
    {at_ : Nat} (hpending : world.pending attempt = some (request, .checked at_)) :
    Bounded limits belongs (world.verify attempt request).1 (events ++ (world.verify attempt request).2) := by
  have hends : Bounded limits belongs (world.settle attempt none) (events ++ []) := by
    have hpass := h.pass hpending (.inl rfl) world.console [] [] nofun
    rwa [List.append_nil world.attempts] at hpass
  unfold World.verify
  cases world.outcome request with
  | failed => exact h.fail hpending _
  | notAdmitted account =>
      have hpass := h.pass hpending (.inr ⟨account.userPrincipalName, rfl⟩) world.console [] [] nofun
      rwa [List.append_nil world.attempts] at hpass
  | session account factor => exact h.pass hpending (.inl rfl) _ _ _ handed_issue
  | code account => exact h.pass hpending (.inl rfl) _ _ _ handed_issue
  | _ => exact hends

theorem Bounded.step (h : Bounded limits belongs world events) (hclosed : Closed belongs) {move : Move}
    (halone : world.Alone move) :
    Bounded limits belongs (world.step limits move).1 (events ++ (world.step limits move).2) := by
  have hsame : Bounded limits belongs world (events ++ []) := by rwa [List.append_nil]
  cases move with
  | check attempt request =>
      simp only [World.step]
      split
      · exact hsame
      · rename_i hopen
        simp only [Bool.or_eq_true, not_or, Bool.not_eq_true, Option.isSome_eq_false_iff,
          Option.isNone_iff_eq_none, shouldLock, decide_eq_false_iff_not, not_le] at hopen
        rw [List.append_nil]
        exact h.check hclosed hopen.1.1 halone hopen.2
  | verify attempt =>
      simp only [World.step]
      split
      · rename_i request at_ hpending
        exact h.verify hpending
      · exact hsame
  | record attempt =>
      simp only [World.step]
      split
      · rename_i request username failed hpending
        rw [List.append_nil]
        exact h.record hpending
      · exact hsame
  | ticket route principal sourceIp =>
      simp only [World.step, World.ticket]
      split
      · exact h.beside _ _ 0 _ handed_issue
      · rename_i account _
        have hbeside := h.beside world.console [] 0
          ([.handed .openid account (world.console.enrolled account) none]) (by simp [Event.isHanded])
        rwa [List.append_nil world.attempts] at hbeside
      · exact h.beside _ _ 0 [] (fun _ hevent => absurd hevent List.not_mem_nil)
      · exact hsame
  | change console =>
      have hbeside := h.beside console [] 0 [] (fun _ hevent => absurd hevent List.not_mem_nil)
      rwa [List.append_nil world.attempts] at hbeside
  | tick elapsed =>
      have hbeside := h.beside world.console [] elapsed [] (fun _ hevent => absurd hevent List.not_mem_nil)
      rwa [List.append_nil world.attempts] at hbeside

/-- The name of an attempt that stands for an account is the account's, up to case. -/
def World.Spelled (spelling : String → String) (world : World) : Move → Prop
  | .verify attempt => ∀ request at_ dn, world.pending attempt = some (request, .checked at_) →
      accountOf world.console.directory request.name = some dn → lower request.name = spelling dn
  | _ => True

/-- Attempts of one name or address come one after another, and an account is always called the same. -/
def Orderly (limits : Limits) (spelling : String → String) : World → List Move → Prop
  | _, [] => True
  | world, move :: moves => world.Alone move ∧ world.Spelled spelling move ∧
      Orderly limits spelling (world.step limits move).1 moves

def Event.against (dn : String) (since until_ : Nat) : Event → Bool
  | .failed account _ _ at_ => account = some dn && (since ≤ at_ && at_ < until_)
  | .handed .. => false

def Event.fromAddress (address : String) (since until_ : Nat) : Event → Bool
  | .failed _ _ sourceIp at_ => sourceIp = some address && (since ≤ at_ && at_ < until_)
  | .handed .. => false

/-- In no window have more passwords and codes failed for an account, or from an address, than the limit
allows. -/
structure GuessesBounded (limits : Limits) (events : List Event) : Prop where
  account : ∀ dn since, events.countP (Event.against dn since (since + limits.window)) ≤ limits.maxFailures
  address : ∀ address since,
    events.countP (Event.fromAddress address since (since + limits.window)) ≤ limits.maxFailures

variable {spelling : String → String}

omit [Library] in
theorem Bounded.start (hstart : ∀ attempt, world.pending attempt = none) :
    Bounded limits belongs world [] := by
  have hnone : ∀ {attempt found}, world.pending attempt ≠ some found := by
    intro attempt found h
    cases (hstart attempt).symm.trans h
  exact ⟨nofun, fun _ _ _ h => absurd h hnone, fun _ _ _ _ _ _ h => absurd h hnone,
    fun _ _ _ h => absurd h hnone, fun _ _ => Nat.zero_le _, fun _ => Nat.zero_le _,
    fun _ => Nat.zero_le _⟩

theorem Bounded.run (h : Bounded limits belongs world events) (hclosed : Closed belongs) {moves : List Move}
    (horderly : Orderly limits spelling world moves) :
    Bounded limits belongs (Steps.run (World.step limits) world moves).1
      (events ++ (Steps.run (World.step limits) world moves).2) := by
  induction moves generalizing world events with
  | nil =>
      rw [Steps.run_nil, List.append_nil]
      exact h
  | cons move moves ih =>
      obtain ⟨halone, _, hrest⟩ := horderly
      rw [Steps.run_cons, ← List.append_assoc]
      exact ih (h.step hclosed halone) hrest

theorem spelled_step {move : Move} (h : world.Spelled spelling move) {dn username : String}
    {sourceIp : Option String} {at_ : Nat}
    (hmem : .failed (some dn) username sourceIp at_ ∈ (world.step limits move).2) :
    lower username = spelling dn := by
  cases move with
  | check attempt request =>
      simp only [World.step] at hmem
      split at hmem <;> cases hmem
  | record attempt =>
      simp only [World.step] at hmem
      split at hmem <;> cases hmem
  | change console => cases hmem
  | tick elapsed => cases hmem
  | ticket route principal address =>
      simp only [World.step, World.ticket] at hmem
      split at hmem
      · cases handed_issue _ hmem
      · cases List.mem_singleton.mp hmem
      · cases hmem
      · cases hmem
  | verify attempt =>
      simp only [World.step] at hmem
      split at hmem
      · rename_i request at_ hpending
        unfold World.verify at hmem
        cases houtcome : world.outcome request with
        | failed =>
            rw [houtcome] at hmem
            obtain ⟨haccount, rfl, _⟩ := Event.failed.inj (List.mem_singleton.mp hmem)
            exact h request at_ dn hpending haccount.symm
        | session account factor =>
            rw [houtcome] at hmem
            cases handed_issue _ hmem
        | code account =>
            rw [houtcome] at hmem
            cases handed_issue _ hmem
        | _ =>
            rw [houtcome] at hmem
            cases hmem
      · cases hmem

theorem spelled_run {moves : List Move} (horderly : Orderly limits spelling world moves) {dn username : String}
    {sourceIp : Option String} {at_ : Nat}
    (hmem : .failed (some dn) username sourceIp at_ ∈ (Steps.run (World.step limits) world moves).2) :
    lower username = spelling dn := by
  induction moves generalizing world with
  | nil => cases hmem
  | cons move moves ih =>
      obtain ⟨_, hspelled, hrest⟩ := horderly
      rw [Steps.run_cons, List.mem_append] at hmem
      rcases hmem with hhere | hlater
      · exact spelled_step hspelled hhere
      · exact ih hrest hlater

/-- Guessing is bounded in every run whose attempts of one name or address come one after another and
call an account always the same. -/
theorem guesses_bounded (limits : Limits) (spelling : String → String) {start : World}
    (hstart : ∀ attempt, start.pending attempt = none) {moves : List Move}
    (horderly : Orderly limits spelling start moves) :
    GuessesBounded limits (Steps.run (World.step limits) start moves).2 := by
  constructor
  · intro dn since
    have hempty : Bounded limits (fun username _ => lower username = spelling dn) start [] := Bounded.start hstart
    have hbounded := hempty.run (fun _ _ _ _ h h' => .inl <|
      (of_decide_eq_true h').trans (of_decide_eq_true h).symm) horderly
    refine le_trans (List.countP_mono_left fun event hevent hagainst => ?_) (hbounded.window since)
    cases event with
    | handed => cases hagainst
    | failed account username sourceIp at_ =>
        simp only [Event.against, Bool.and_eq_true, decide_eq_true_eq] at hagainst
        obtain ⟨rfl, htime⟩ := hagainst
        have hspelled := spelled_run horderly hevent
        simp only [Event.failingIn, Bool.and_eq_true, decide_eq_true_eq]
        exact ⟨hspelled, htime⟩
  · intro address since
    have hempty : Bounded limits (fun _ sourceIp => sourceIp = some address) start [] := Bounded.start hstart
    have hbounded := hempty.run (fun _ _ _ _ h h' => .inr <| by
      rw [of_decide_eq_true h, of_decide_eq_true h']
      exact ⟨rfl, rfl⟩) horderly
    refine le_trans (List.countP_mono_left fun event hevent hagainst => ?_) (hbounded.window since)
    cases event with
    | handed => cases hagainst
    | failed account username sourceIp at_ =>
        simpa [Event.fromAddress, Event.failingIn] using hagainst

def guess (username address : String) : Request where
  route := .console
  username
  password := "wrong"
  sourceIp := some address

def onlyOne : Limits := ⟨1, 15 * 60 * 1000000⟩

omit [Runtime] [Library] in
theorem guesses_bounded_anna :
    letI := Runtime.latin
    letI := Totp.Library.firstSteps
    GuessesBounded onlyOne (Steps.run (World.step onlyOne) office
      [.check 0 (guess "Anna" "10.0.0.5"), .verify 0, .record 0]).2 := by
  let _ := Runtime.latin
  let _ := Totp.Library.firstSteps
  refine guesses_bounded onlyOne (fun _ => "anna") (fun _ => rfl)
    ⟨nofun, trivial, trivial, ?_, trivial, trivial, trivial⟩
  intro request at_ dn hpending _
  have hguess : (office.step onlyOne (.check 0 (guess "Anna" "10.0.0.5"))).1.pending 0 =
      some (guess "Anna" "10.0.0.5", .checked 0) := by decide +kernel
  cases hguess.symm.trans hpending
  show lower (guess "Anna" "10.0.0.5").name = "anna"
  decide +kernel

omit [Runtime] [Library] in
/-- Two spellings of a name from two addresses, and two attempts at the same time, make two guesses. -/
theorem guessed_twice :
    letI := Runtime.latin
    letI := Totp.Library.firstSteps
    ¬ GuessesBounded onlyOne (Steps.run (World.step onlyOne) office
        [.check 0 (guess "anna" "10.0.0.5"), .verify 0, .record 0,
          .check 1 (guess "anna@corp.lan" "10.0.0.6"), .verify 1, .record 1]).2 ∧
      ¬ GuessesBounded onlyOne (Steps.run (World.step onlyOne) office
        [.check 0 (guess "anna" "10.0.0.5"), .check 1 (guess "anna" "10.0.0.5"), .verify 0, .verify 1]).2 := by
  let _ := Runtime.latin
  let _ := Totp.Library.firstSteps
  constructor
  · intro h
    exact absurd (h.account anna.dn 0) (by decide +kernel)
  · intro h
    exact absurd (h.account anna.dn 0) (by decide +kernel)

end OpenDirectory.SignIn
