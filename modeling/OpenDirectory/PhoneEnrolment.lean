import OpenDirectory.Steps

/-! The setting up of a phone, for one account. Each request reads and writes the account's row in statements of
their own, with the others in between. A tap is an answer to a token; what it confirms is whatever row is there
when the request that read the answer writes. -/

namespace OpenDirectory.PhoneEnrolment

/-- The account's row. Topics and tokens that were made up are numbered. -/
structure Row where
  topic : Nat
  confirmToken : Option Nat
  confirmed : Bool
  deriving DecidableEq

/-- What a request has read so far. -/
inductive Phase where
  | idle
  | beginning
  | offering (topic token : Nat)
  | asking (token : Nat)
  | answered (token : Nat)

structure World where
  row : Option Row
  phases : Nat → Phase
  fresh : Nat
  /-- The topics and tokens that were issued together. -/
  starts : List (Nat × Nat)
  /-- The Confirm buttons that were sent to a topic. -/
  sent : List (Nat × Nat)
  tapped : List Nat

inductive Move where
  | begin (request : Nat)
  | enrol (request : Nat)
  | poll (request : Nat)
  /-- The next statement of a request; `reads` tells whether the notification server answers it. -/
  | proceed (request : Nat) (reads : Bool)
  | test
  | tap (token : Nat)
  | remove

def World.at (world : World) (request : Nat) (phase : Phase) : World :=
  { world with phases := Function.update world.phases request phase }

/-- An unconfirmed topic and its token are used again. -/
def enrol (world : World) (request : Nat) : World :=
  match world.row with
  | none =>
      { world.at request (.offering world.fresh (world.fresh + 1)) with
        fresh := world.fresh + 2
        starts := world.starts ++ [(world.fresh, world.fresh + 1)] }
  | some row =>
      if row.confirmed then world
      else
        match row.confirmToken with
        | some token => world.at request (.offering row.topic token)
        | none =>
            { world.at request (.offering row.topic world.fresh) with
              fresh := world.fresh + 1
              starts := world.starts ++ [(row.topic, world.fresh)] }

/-- The first statement of `settle_enrolment`. -/
def poll (world : World) (request : Nat) : World :=
  match world.row with
  | none => world
  | some row =>
      if row.confirmed then world
      else
        match row.confirmToken with
        | none => world
        | some token => world.at request (.asking token)

def proceed (world : World) (request : Nat) (reads : Bool) : World :=
  match world.phases request with
  | .idle => world
  | .beginning =>
      -- A topic and a token of its own, whatever row is there by now.
      { world.at request .idle with
        row := some ⟨world.fresh, some (world.fresh + 1), false⟩
        fresh := world.fresh + 2
        starts := world.starts ++ [(world.fresh, world.fresh + 1)] }
  | .offering topic token =>
      { world.at request .idle with
        row := some (match world.row with
          | none => ⟨topic, some token, false⟩
          | some row => { row with topic, confirmToken := some token })
        sent := world.sent ++ [(topic, token)] }
  | .asking token => world.at request (if reads && token ∈ world.tapped then .answered token else .idle)
  | .answered _ =>
      { world.at request .idle with
        row := world.row.map fun row => { row with confirmToken := none, confirmed := true } }

def test (world : World) : World :=
  match world.row with
  | none => world
  | some row =>
      if row.confirmed then world
      else
        match row.confirmToken with
        | none => world
        | some token => { world with sent := world.sent ++ [(row.topic, token)] }

def next (world : World) : Move → World
  | .begin request => if world.row.any fun row => row.confirmed then world else world.at request .beginning
  | .enrol request => enrol world request
  | .poll request => poll world request
  | .proceed request reads => proceed world request reads
  | .test => test world
  | .tap token =>
      if world.sent.any fun message => message.2 = token then { world with tapped := world.tapped ++ [token] }
      else world
  | .remove => { world with row := none }

def start : World := ⟨none, fun _ => .idle, 0, [], [], []⟩

/-- The token that was issued with the row's topic was tapped, and the row has no other. -/
def Proved (world : World) (row : Row) : Prop :=
  ∃ token ∈ world.tapped, (row.topic, token) ∈ world.starts ∧ ∀ token', row.confirmToken = some token' → token' = token

/-- A confirmed row is proved; it becomes confirmed by its own token, and stays what it is until it is removed. -/
structure Faithful (world : World) (move : Move) : Prop where
  proved : ∀ row, (next world move).row = some row → row.confirmed = true → Proved (next world move) row
  tapped : ∀ row row', world.row = some row → row.confirmed = false → (next world move).row = some row' →
    row'.confirmed = true → row'.topic = row.topic ∧ ∃ request reads token, move = .proceed request reads ∧
      world.phases request = .answered token ∧ row.confirmToken = some token
  stays : ∀ row row', world.row = some row → row.confirmed = true → (next world move).row = some row' →
    row'.confirmed = true ∧ row'.topic = row.topic

/-- What a request is about to write fits the row that is there by then. -/
def Timely (world : World) : Move → Prop
  | .proceed request _ =>
      match world.phases request with
      | .idle | .asking _ => True
      | .beginning => ∀ row, world.row = some row → row.confirmed = false
      | .offering topic _ => ∀ row, world.row = some row → row.confirmed = true → row.topic = topic
      | .answered token => ∀ row, world.row = some row → row.confirmed = false → row.confirmToken = some token
  | _ => True

/-- What holds of the tokens whatever is confirmed. -/
structure Issued (world : World) : Prop where
  /-- A topic is issued with one token. -/
  functional : ∀ topic token token', (topic, token) ∈ world.starts → (topic, token') ∈ world.starts → token = token'
  below : ∀ topic token, (topic, token) ∈ world.starts → topic < world.fresh
  offered : ∀ request topic token, world.phases request = .offering topic token → (topic, token) ∈ world.starts
  answered : ∀ request token, world.phases request = .answered token → token ∈ world.tapped
  pending : ∀ row, world.row = some row → row.confirmed = false →
    ∃ token, row.confirmToken = some token ∧ (row.topic, token) ∈ world.starts

structure Sound (world : World) : Prop extends Issued world where
  proved : ∀ row, world.row = some row → row.confirmed = true → Proved world row

theorem start_sound : Sound start where
  functional := fun _ _ _ h => absurd h List.not_mem_nil
  below := fun _ _ h => absurd h List.not_mem_nil
  offered := fun _ _ _ h => Phase.noConfusion h
  answered := fun _ _ h => Phase.noConfusion h
  pending := fun _ h => absurd h.symm (Option.some_ne_none _)
  proved := fun _ h => absurd h.symm (Option.some_ne_none _)

variable {world : World}

theorem phases_at (world : World) (request request' : Nat) (phase : Phase) :
    (world.at request phase).phases request' = if request' = request then phase else world.phases request' :=
  Function.update_apply _ _ _ _

theorem Issued.at (h : Issued world) (request : Nat) {phase : Phase}
    (hoffered : ∀ topic token, phase = .offering topic token → (topic, token) ∈ world.starts)
    (hanswered : ∀ token, phase = .answered token → token ∈ world.tapped) : Issued (world.at request phase) where
  functional := h.functional
  below := h.below
  offered := by
    intro request' topic token hphase
    rw [phases_at] at hphase
    by_cases hsame : request' = request
    · rw [if_pos hsame] at hphase
      exact hoffered topic token hphase
    · rw [if_neg hsame] at hphase
      exact h.offered request' topic token hphase
  answered := by
    intro request' token hphase
    rw [phases_at] at hphase
    by_cases hsame : request' = request
    · rw [if_pos hsame] at hphase
      exact hanswered token hphase
    · rw [if_neg hsame] at hphase
      exact h.answered request' token hphase
  pending := h.pending

/-- A topic and a token are made up. -/
def World.issue (world : World) : World :=
  { world with fresh := world.fresh + 2, starts := world.starts ++ [(world.fresh, world.fresh + 1)] }

theorem Issued.issue (h : Issued world) : Issued world.issue where
  functional := by
    intro topic token token' hstart hstart'
    rcases List.mem_append.mp hstart with hold | hnew
    · rcases List.mem_append.mp hstart' with hold' | hnew'
      · exact h.functional topic token token' hold hold'
      · obtain ⟨rfl, -⟩ := Prod.mk.inj (List.mem_singleton.mp hnew')
        exact absurd (h.below _ _ hold) (lt_irrefl _)
    · obtain ⟨rfl, rfl⟩ := Prod.mk.inj (List.mem_singleton.mp hnew)
      rcases List.mem_append.mp hstart' with hold' | hnew'
      · exact absurd (h.below _ _ hold') (lt_irrefl _)
      · exact (Prod.mk.inj (List.mem_singleton.mp hnew')).2.symm
  below := by
    intro topic token hstart
    rcases List.mem_append.mp hstart with hold | hnew
    · exact (h.below topic token hold).trans (Nat.lt_add_of_pos_right Nat.two_pos)
    · obtain ⟨rfl, -⟩ := Prod.mk.inj (List.mem_singleton.mp hnew)
      exact Nat.lt_add_of_pos_right Nat.two_pos
  offered := fun request topic token hphase => List.mem_append_left _ (h.offered request topic token hphase)
  answered := h.answered
  pending := by
    intro row hrow hconfirmed
    obtain ⟨token, htoken, hstart⟩ := h.pending row hrow hconfirmed
    exact ⟨token, htoken, List.mem_append_left _ hstart⟩

theorem mem_issue (world : World) : (world.fresh, world.fresh + 1) ∈ world.issue.starts :=
  List.mem_append_right _ List.mem_cons_self

theorem Issued.row (h : Issued world) {row : Option Row} (hpending : ∀ row', row = some row' →
    row'.confirmed = false → ∃ token, row'.confirmToken = some token ∧ (row'.topic, token) ∈ world.starts) :
    Issued { world with row } :=
  ⟨h.functional, h.below, h.offered, h.answered, hpending⟩

theorem Issued.sends (h : Issued world) (sent : List (Nat × Nat)) : Issued { world with sent } :=
  ⟨h.functional, h.below, h.offered, h.answered, h.pending⟩

theorem enrol_issued (h : Issued world) (request : Nat) : Issued (enrol world request) := by
  unfold enrol
  cases hrow : world.row with
  | none =>
      apply h.issue.at request
      · rintro topic token heq
        obtain ⟨rfl, rfl⟩ := Phase.offering.inj heq
        exact mem_issue world
      · exact fun _ heq => Phase.noConfusion heq
  | some row =>
      dsimp only
      cases hconfirmed : row.confirmed with
      | true => exact h
      | false =>
          obtain ⟨token, htoken, hstart⟩ := h.pending row hrow hconfirmed
          rw [if_neg Bool.false_ne_true, htoken]
          apply h.at request
          · rintro topic token' heq
            obtain ⟨rfl, rfl⟩ := Phase.offering.inj heq
            exact hstart
          · exact fun _ heq => Phase.noConfusion heq

theorem poll_issued (h : Issued world) (request : Nat) : Issued (poll world request) := by
  unfold poll
  cases world.row with
  | none => exact h
  | some row =>
      dsimp only
      cases row.confirmed with
      | true => exact h
      | false =>
          rw [if_neg Bool.false_ne_true]
          cases row.confirmToken with
          | none => exact h
          | some token => exact h.at request (fun _ _ heq => Phase.noConfusion heq) fun _ heq => Phase.noConfusion heq

theorem idle_issued (h : Issued world) (request : Nat) : Issued (world.at request .idle) :=
  h.at request (fun _ _ heq => Phase.noConfusion heq) fun _ heq => Phase.noConfusion heq

theorem proceed_issued (h : Issued world) (request : Nat) (reads : Bool) : Issued (proceed world request reads) := by
  unfold proceed
  cases hphase : world.phases request with
  | idle => exact h
  | beginning =>
      refine (idle_issued h.issue request).row fun row heq _ => ?_
      obtain rfl := Option.some.inj heq
      exact ⟨_, rfl, mem_issue world⟩
  | offering topic token =>
      have hstart := h.offered request topic token hphase
      refine ((idle_issued h request).row fun row heq _ => ?_).sends _
      obtain rfl := Option.some.inj heq
      cases world.row with
      | none => exact ⟨token, rfl, hstart⟩
      | some row => exact ⟨token, rfl, hstart⟩
  | asking token =>
      dsimp only
      by_cases htapped : (reads && token ∈ world.tapped) = true
      · rw [if_pos htapped]
        refine h.at request (fun _ _ heq => Phase.noConfusion heq) fun token' heq => ?_
        obtain rfl := Phase.answered.inj heq
        exact of_decide_eq_true (Bool.and_eq_true_iff.mp htapped).2
      · rw [if_neg htapped]
        exact idle_issued h request
  | answered token =>
      refine (idle_issued h request).row fun row heq hconfirmed => ?_
      obtain ⟨row', -, rfl⟩ := Option.map_eq_some_iff.mp heq
      exact absurd hconfirmed.symm Bool.false_ne_true

theorem test_eq (world : World) : ∃ sent, test world = { world with sent } := by
  obtain ⟨row, phases, fresh, starts, sent, tapped⟩ := world
  cases row with
  | none => exact ⟨sent, rfl⟩
  | some row =>
      obtain ⟨topic, confirmToken, confirmed⟩ := row
      cases confirmed with
      | true => exact ⟨sent, rfl⟩
      | false =>
          cases confirmToken with
          | none => exact ⟨sent, rfl⟩
          | some token => exact ⟨sent ++ [(topic, token)], rfl⟩

theorem next_issued (h : Issued world) (move : Move) : Issued (next world move) := by
  cases move with
  | begin request =>
      unfold next
      dsimp only
      by_cases hconfirmed : (world.row.any fun row => row.confirmed) = true
      · rw [if_pos hconfirmed]
        exact h
      · rw [if_neg hconfirmed]
        exact h.at request (fun _ _ heq => Phase.noConfusion heq) fun _ heq => Phase.noConfusion heq
  | enrol request => exact enrol_issued h request
  | poll request => exact poll_issued h request
  | proceed request reads => exact proceed_issued h request reads
  | test =>
      obtain ⟨sent, hsent⟩ := test_eq world
      change Issued (test world)
      rw [hsent]
      exact h.sends sent
  | tap token =>
      unfold next
      dsimp only
      by_cases hsent : (world.sent.any fun message => message.2 = token) = true
      · rw [if_pos hsent]
        refine ⟨h.functional, h.below, h.offered, fun request token' hphase => ?_, h.pending⟩
        exact List.mem_append_left _ (h.answered request token' hphase)
      · rw [if_neg hsent]
        exact h
  | remove => exact h.row fun _ heq => absurd heq.symm (Option.some_ne_none _)

theorem Proved.grows {row : Row} (h : Proved world row) {world' : World} (hstarts : world.starts ⊆ world'.starts)
    (htapped : world.tapped ⊆ world'.tapped) : Proved world' row := by
  obtain ⟨token, htap, hstart, hown⟩ := h
  exact ⟨token, htapped htap, hstarts hstart, hown⟩

theorem faithful_of_row (h : Sound world) {move : Move} (hrow : (next world move).row = world.row)
    (hstarts : world.starts ⊆ (next world move).starts) (htapped : world.tapped ⊆ (next world move).tapped) :
    Faithful world move where
  proved := fun row heq hconfirmed => (h.proved row (hrow ▸ heq) hconfirmed).grows hstarts htapped
  tapped := by
    intro row row' heq hpending heq' hconfirmed
    rw [hrow, heq] at heq'
    obtain rfl := Option.some.inj heq'
    exact absurd (hpending.symm.trans hconfirmed) Bool.false_ne_true
  stays := by
    intro row row' heq hconfirmed heq'
    rw [hrow, heq] at heq'
    obtain rfl := Option.some.inj heq'
    exact ⟨hconfirmed, rfl⟩

theorem enrol_row (world : World) (request : Nat) : (enrol world request).row = world.row ∧
    world.starts ⊆ (enrol world request).starts ∧ (enrol world request).tapped = world.tapped := by
  unfold enrol
  cases hrow : world.row with
  | none => exact ⟨hrow, List.subset_append_left _ _, rfl⟩
  | some row =>
      dsimp only
      cases row.confirmed with
      | true => exact ⟨hrow, List.Subset.refl _, rfl⟩
      | false =>
          rw [if_neg Bool.false_ne_true]
          cases row.confirmToken with
          | none => exact ⟨hrow, List.subset_append_left _ _, rfl⟩
          | some token => exact ⟨hrow, List.Subset.refl _, rfl⟩

theorem poll_row (world : World) (request : Nat) : (poll world request).row = world.row ∧
    (poll world request).starts = world.starts ∧ (poll world request).tapped = world.tapped := by
  unfold poll
  cases hrow : world.row with
  | none => exact ⟨hrow, rfl, rfl⟩
  | some row =>
      dsimp only
      cases row.confirmed with
      | true => exact ⟨hrow, rfl, rfl⟩
      | false =>
          rw [if_neg Bool.false_ne_true]
          cases row.confirmToken <;> exact ⟨hrow, rfl, rfl⟩

theorem proceed_iff (h : Sound world) (request : Nat) (reads : Bool) :
    Faithful world (.proceed request reads) ↔ Timely world (.proceed request reads) := by
  unfold Timely
  dsimp only
  cases hphase : world.phases request with
  | idle =>
      have hnext : next world (.proceed request reads) = world := by
        unfold next proceed
        dsimp only
        rw [hphase]
      refine iff_of_true (faithful_of_row h (by rw [hnext]) ?_ ?_) trivial
      · rw [hnext]
        exact List.Subset.refl _
      · rw [hnext]
        exact List.Subset.refl _
  | asking token =>
      have hnext : next world (.proceed request reads) =
          world.at request (if reads && token ∈ world.tapped then .answered token else .idle) := by
        unfold next proceed
        dsimp only
        rw [hphase]
      refine iff_of_true (faithful_of_row h (by rw [hnext]; rfl) ?_ ?_) trivial
      · rw [hnext]
        exact List.Subset.refl _
      · rw [hnext]
        exact List.Subset.refl _
  | beginning =>
      have hnext : (next world (.proceed request reads)).row = some ⟨world.fresh, some (world.fresh + 1), false⟩ := by
        unfold next proceed
        dsimp only
        rw [hphase]
      constructor
      · intro hfaithful row hrow
        by_contra hconfirmed
        have hstays := (hfaithful.stays row _ hrow (Bool.not_eq_false _ ▸ hconfirmed) hnext).1
        exact Bool.false_ne_true hstays
      · intro hpending
        have hnone : ∀ row', (next world (.proceed request reads)).row = some row' → row'.confirmed = false := by
          intro row' heq
          rw [hnext] at heq
          obtain rfl := Option.some.inj heq
          rfl
        refine ⟨fun row' heq hconfirmed => ?_, fun row row' _ _ heq hconfirmed => ?_, fun row row' hrow hconfirmed _ => ?_⟩
        · exact absurd ((hnone row' heq).symm.trans hconfirmed) Bool.false_ne_true
        · exact absurd ((hnone row' heq).symm.trans hconfirmed) Bool.false_ne_true
        · exact absurd ((hpending row hrow).symm.trans hconfirmed) Bool.false_ne_true
  | offering topic token =>
      have hstart := h.offered request topic token hphase
      have hnext : next world (.proceed request reads) = { world.at request .idle with
          row := some (match world.row with
            | none => ⟨topic, some token, false⟩
            | some row => { row with topic, confirmToken := some token })
          sent := world.sent ++ [(topic, token)] } := by
        unfold next proceed
        dsimp only
        rw [hphase]
      have hrow' : ∀ row, world.row = some row → (next world (.proceed request reads)).row =
          some { row with topic, confirmToken := some token } := by
        intro row hrow
        rw [hnext, hrow]
      have hnone : world.row = none → (next world (.proceed request reads)).row = some ⟨topic, some token, false⟩ := by
        intro hrow
        rw [hnext, hrow]
      constructor
      · intro hfaithful row hrow hconfirmed
        exact (hfaithful.stays row _ hrow hconfirmed (hrow' row hrow)).2.symm
      · intro hsame
        refine ⟨fun after heq hconfirmed => ?_, fun row after hrow hpending heq hconfirmed => ?_,
          fun row after hrow hconfirmed heq => ?_⟩
        · cases hrow : world.row with
          | none =>
              rw [hnone hrow] at heq
              obtain rfl := Option.some.inj heq
              exact absurd hconfirmed Bool.false_ne_true
          | some row =>
              rw [hrow' row hrow] at heq
              obtain rfl := Option.some.inj heq
              have htopic := hsame row hrow hconfirmed
              obtain ⟨proved, htapped, hproved, -⟩ := h.proved row hrow hconfirmed
              rw [htopic] at hproved
              obtain rfl := h.functional topic token proved hstart hproved
              rw [hnext]
              exact ⟨token, htapped, hstart, fun token' heq' => (Option.some.inj heq').symm⟩
        · rw [hrow' row hrow] at heq
          obtain rfl := Option.some.inj heq
          exact absurd (hpending.symm.trans hconfirmed) Bool.false_ne_true
        · rw [hrow' row hrow] at heq
          obtain rfl := Option.some.inj heq
          exact ⟨hconfirmed, (hsame row hrow hconfirmed).symm⟩
  | answered token =>
      have hnext : next world (.proceed request reads) = { world.at request .idle with
          row := world.row.map fun row => { row with confirmToken := none, confirmed := true } } := by
        unfold next proceed
        dsimp only
        rw [hphase]
      have hrow' : ∀ row, world.row = some row → (next world (.proceed request reads)).row =
          some { row with confirmToken := none, confirmed := true } := by
        intro row hrow
        rw [hnext, hrow]
        rfl
      constructor
      · intro hfaithful row hrow hpending
        obtain ⟨-, request', reads', token', heq, hphase', htoken⟩ :=
          hfaithful.tapped row _ hrow hpending (hrow' row hrow) rfl
        obtain ⟨rfl, -⟩ := Move.proceed.inj heq
        obtain rfl := Phase.answered.inj (hphase.symm.trans hphase')
        exact htoken
      · intro hown
        refine ⟨fun after heq _ => ?_, fun row after hrow hpending heq _ => ?_, fun row after hrow _ heq => ?_⟩
        · have hthere : world.row ≠ none := by
            intro hnone
            rw [hnext, hnone] at heq
            exact Option.some_ne_none _ heq.symm
          obtain ⟨row, hrow⟩ := Option.ne_none_iff_exists'.mp hthere
          rw [hrow' row hrow] at heq
          obtain rfl := Option.some.inj heq
          have hfree : ∀ starts, starts ∈ world.starts → starts ∈ (next world (.proceed request reads)).starts := by
            rw [hnext]
            exact fun _ hstart => hstart
          have hnone : ∀ known token' : Nat, (none : Option Nat) = some token' → token' = known :=
            fun _ _ heq' => absurd heq'.symm (Option.some_ne_none _)
          cases hconfirmed : row.confirmed with
          | true =>
              obtain ⟨proved, htapped, hproved, -⟩ := h.proved row hrow hconfirmed
              rw [hnext]
              exact ⟨proved, htapped, hproved, hnone proved⟩
          | false =>
              obtain ⟨pending, htoken, hstart⟩ := h.pending row hrow hconfirmed
              obtain rfl := Option.some.inj (htoken.symm.trans (hown row hrow hconfirmed))
              rw [hnext]
              exact ⟨pending, h.answered request pending hphase, hstart, hnone pending⟩
        · rw [hrow' row hrow] at heq
          obtain rfl := Option.some.inj heq
          exact ⟨rfl, request, reads, token, rfl, hphase, hown row hrow hpending⟩
        · rw [hrow' row hrow] at heq
          obtain rfl := Option.some.inj heq
          exact ⟨rfl, rfl⟩

theorem faithful_iff (h : Sound world) (move : Move) : Faithful world move ↔ Timely world move := by
  cases move with
  | begin request =>
      refine iff_of_true ?_ trivial
      by_cases hconfirmed : (world.row.any fun row => row.confirmed) = true
      · have hnext : next world (.begin request) = world := if_pos hconfirmed
        exact faithful_of_row h (by rw [hnext]) (by rw [hnext]; exact List.Subset.refl _)
          (by rw [hnext]; exact List.Subset.refl _)
      · have hnext : next world (.begin request) = world.at request .beginning := if_neg hconfirmed
        exact faithful_of_row h (by rw [hnext]; rfl) (by rw [hnext]; exact List.Subset.refl _)
          (by rw [hnext]; exact List.Subset.refl _)
  | enrol request =>
      obtain ⟨hrow, hstarts, htapped⟩ := enrol_row world request
      exact iff_of_true (faithful_of_row h hrow hstarts (htapped ▸ List.Subset.refl _)) trivial
  | poll request =>
      obtain ⟨hrow, hstarts, htapped⟩ := poll_row world request
      exact iff_of_true (faithful_of_row h hrow (hstarts ▸ List.Subset.refl _) (htapped ▸ List.Subset.refl _)) trivial
  | proceed request reads => exact proceed_iff h request reads
  | test =>
      obtain ⟨sent, hsent⟩ := test_eq world
      have hnext : next world .test = { world with sent } := hsent
      refine iff_of_true (faithful_of_row h (by rw [hnext]) ?_ ?_) trivial
      · rw [hnext]
        exact List.Subset.refl _
      · rw [hnext]
        exact List.Subset.refl _
  | tap token =>
      refine iff_of_true ?_ trivial
      by_cases hsent : (world.sent.any fun message => message.2 = token) = true
      · have hnext : next world (.tap token) = { world with tapped := world.tapped ++ [token] } := if_pos hsent
        exact faithful_of_row h (by rw [hnext]) (by rw [hnext]; exact List.Subset.refl _)
          (by rw [hnext]; exact List.subset_append_left _ _)
      · have hnext : next world (.tap token) = world := if_neg hsent
        exact faithful_of_row h (by rw [hnext]) (by rw [hnext]; exact List.Subset.refl _)
          (by rw [hnext]; exact List.Subset.refl _)
  | remove =>
      have hnone : ∀ row, (next world .remove).row ≠ some row := fun row heq => Option.some_ne_none row heq.symm
      refine iff_of_true ⟨fun row heq _ => ?_, fun _ row' _ _ heq _ => ?_, fun _ row' _ _ heq => ?_⟩ trivial
      · exact absurd heq (hnone row)
      · exact absurd heq (hnone row')
      · exact absurd heq (hnone row')

/-- What is enrolled is what was proved in just the runs in which no request writes over what has changed since it
read it. -/
theorem proved_is_enrolled_iff (moves : List Move) :
    Steps.Each next Faithful start moves ↔ Steps.Each next Timely start moves := by
  have hkeeps : ∀ world move, Sound world → Faithful world move → Sound (next world move) :=
    fun world move h hfaithful => ⟨next_issued h.toIssued move, hfaithful.proved⟩
  exact Steps.each_iff hkeeps (fun _ move h => faithful_iff h move) start_sound moves

/-- A phone's tap is read, then another phone is set up, and then what was read is written: the other phone is
confirmed, and nobody has tapped anything on it. -/
theorem other_phone_confirmed :
    let moves : List Move := [.begin 0, .proceed 0 true, .test, .poll 1, .tap 1, .proceed 1 true, .begin 2,
      .proceed 2 true, .proceed 1 true]
    (moves.foldl next start).row = some ⟨2, none, true⟩ ∧ ¬ Steps.Each next Faithful start moves := by
  refine ⟨by decide +kernel, ?_⟩
  rintro ⟨-, -, -, -, -, -, -, -, hlast, -⟩
  have hproved := hlast.proved ⟨2, none, true⟩ (by decide +kernel) rfl
  obtain ⟨token, htapped, hstart, -⟩ := hproved
  revert token
  decide +kernel

end OpenDirectory.PhoneEnrolment
