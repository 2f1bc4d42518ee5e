import OpenDirectory.Steps

/-! Sign-ins approved on a phone. A machine asks, the phone answers on the notification server, and polls carry
the answer over: each reads the challenge, then the answer, and then writes it down, with everything else in
between. -/

namespace OpenDirectory.SignInApproval

inductive Word where
  | approved
  | denied
  deriving DecidableEq

/-- What a poll is told. -/
inductive Answer where
  | missing
  | pending
  | expired
  | decided (word : Word)
  deriving DecidableEq

structure Challenge where
  machine : Nat
  expires : Nat
  /-- The decision, and when it was written down. -/
  decision : Option (Word × Nat) := none
  deriving DecidableEq

/-- A poll: the machine that makes it, the challenge it names, and the sign-in that waits for it, if one does. -/
structure Caller where
  machine : Nat
  challenge : Nat
  signIn : Option Nat
  deriving DecidableEq

/-- How far a poll is. -/
inductive Phase where
  | idle
  | owned (caller : Caller)
  /-- It was undecided and not expired. -/
  | asking (caller : Caller)
  | answered (caller : Caller) (word : Word)

inductive SignIn where
  | idle
  | waiting (machine challenge : Nat)
  | through (challenge : Nat)
  | ended
  deriving DecidableEq

/-- A challenge's number stands for its id and for the token of its buttons, which are made up together. -/
structure World where
  now : Nat
  challenges : Nat → Option Challenge
  /-- The taps on the buttons of a challenge, as the notification server keeps them. -/
  answers : Nat → List Word
  phases : Nat → Phase
  signIns : Nat → SignIn
  fresh : Nat
  /-- The challenges there have been, each with the machine that asked. -/
  asked : List (Nat × Nat)
  /-- Which machine was told what of which challenge. -/
  told : List (Nat × Nat × Answer)

def World.at (world : World) (request : Nat) (phase : Phase) : World :=
  { world with phases := Function.update world.phases request phase }

/-- `UPDATE … WHERE decision IS NULL` -/
def World.record (world : World) (challenge : Nat) (word : Word) : World :=
  { world with
    challenges := Function.update world.challenges challenge ((world.challenges challenge).map fun c =>
      if c.decision.isNone then { c with decision := some (word, world.now) } else c) }

/-- One statement of a poll, and what it is told if that was the last. `reads` tells whether the notification
server answers. -/
def proceed (world : World) (request : Nat) (reads : Bool) : World × Option (Caller × Answer) :=
  match world.phases request with
  | .idle => (world, none)
  | .owned caller =>
      match world.challenges caller.challenge with
      | none => (world.at request .idle, some (caller, .missing))
      | some challenge =>
          match challenge.decision with
          | some (word, _) => (world.at request .idle, some (caller, .decided word))
          | none =>
              if challenge.expires < world.now then (world.at request .idle, some (caller, .expired))
              else (world.at request (.asking caller), none)
  | .asking caller =>
      match if reads then (world.answers caller.challenge).head? else none with
      | none => (world.at request .idle, some (caller, .pending))
      | some word => (world.at request (.answered caller word), none)
  | .answered caller word => ((world.record caller.challenge word).at request .idle, some (caller, .decided word))

/-- The sign-in goes through when it hears that it is approved, and ends when it hears that it is not. -/
def hear (signIns : Nat → SignIn) (caller : Caller) (answer : Answer) : Nat → SignIn :=
  match caller.signIn with
  | none => signIns
  | some signIn =>
      if signIns signIn ≠ .waiting caller.machine caller.challenge then signIns
      else
        match answer with
        | .decided .approved => Function.update signIns signIn (.through caller.challenge)
        | .decided .denied | .expired => Function.update signIns signIn .ended
        | .pending | .missing => signIns

/-- `arrives` tells whether the machine gets the answer. -/
def World.tell (world : World) (caller : Caller) (answer : Answer) (arrives : Bool) : World :=
  { world with
    told := world.told ++ [(caller.machine, caller.challenge, answer)]
    signIns := if arrives then hear world.signIns caller answer else world.signIns }

inductive Move where
  | tick (seconds : Nat)
  | begin (signIn machine timeout : Nat) (sent : Bool)
  | giveUp (signIn : Nat)
  | tap (challenge : Nat) (word : Word)
  | poll (request : Nat) (caller : Caller)
  | proceed (request : Nat) (reads arrives : Bool)
  | sweep

def day : Nat := 24 * 60 * 60

def begin (world : World) (signIn machine timeout : Nat) (sent : Bool) : World :=
  if world.signIns signIn ≠ .idle then world
  else if !sent then
    { world with fresh := world.fresh + 1, signIns := Function.update world.signIns signIn .ended }
  else
    { world with
      challenges := Function.update world.challenges world.fresh (some ⟨machine, world.now + timeout, none⟩)
      signIns := Function.update world.signIns signIn (.waiting machine world.fresh)
      fresh := world.fresh + 1
      asked := world.asked ++ [(world.fresh, machine)] }

/-- What a step tells a poll. -/
def tells (world : World) : Move → Option (Caller × Answer)
  | .proceed request reads _ => (proceed world request reads).2
  | _ => none

def next (world : World) : Move → World
  | .tick seconds => { world with now := world.now + seconds }
  | .begin signIn machine timeout sent => begin world signIn machine timeout sent
  | .giveUp signIn =>
      match world.signIns signIn with
      | .waiting _ _ => { world with signIns := Function.update world.signIns signIn .ended }
      | _ => world
  | .tap challenge word =>
      if challenge < world.fresh then
        { world with answers := Function.update world.answers challenge (world.answers challenge ++ [word]) }
      else world
  | .poll request caller =>
      -- Only for a question this machine asked.
      if (world.challenges caller.challenge).map Challenge.machine = some caller.machine then
        world.at request (.owned caller)
      else world
  | .proceed request reads arrives =>
      match proceed world request reads with
      | (after, none) => after
      | (after, some (caller, answer)) => after.tell caller answer arrives
  | .sweep =>
      { world with challenges := fun id => (world.challenges id).filter fun c => world.now ≤ c.expires + day }

def start : World where
  now := 0
  challenges := fun _ => none
  answers := fun _ => []
  phases := fun _ => .idle
  signIns := fun _ => .idle
  fresh := 0
  asked := []
  told := []

structure Honest (world : World) (move : Move) : Prop where
  once : ∀ id c decision c', world.challenges id = some c → c.decision = some decision →
    (next world move).challenges id = some c' → c'.decision = some decision
  /-- A decision that is told stands, and an approval was there before its challenge expired. -/
  agrees : ∀ caller word, tells world move = some (caller, .decided word) → ∃ c time,
    (next world move).challenges caller.challenge = some c ∧ c.decision = some (word, time) ∧
      (word = .approved → time ≤ c.expires)
  /-- Of what was told to have expired there is no decision. -/
  final : ∀ machine id c, (machine, id, .expired) ∈ (next world move).told →
    (next world move).challenges id = some c → c.decision = none
  asker : ∀ caller answer, tells world move = some (caller, answer) →
    (caller.challenge, caller.machine) ∈ world.asked ∧
      ∀ machine, (caller.challenge, machine) ∈ world.asked → machine = caller.machine
  earned : ∀ signIn id, (next world move).signIns signIn = .through id → world.signIns signIn = .through id ∨
    ∃ caller, caller.challenge = id ∧ tells world move = some (caller, .decided .approved)
  single : ∀ signIn signIn' id, (next world move).signIns signIn = .through id →
    (next world move).signIns signIn' = .through id → signIn = signIn'

/-- Where an answer is written down, its challenge is there, and if it is undecided, no poll was told that it
expired, nor has it, if the answer is an approval. -/
def Timely (world : World) : Move → Prop
  | .proceed request _ _ =>
      match world.phases request with
      | .answered caller word => ∃ c, world.challenges caller.challenge = some c ∧ (c.decision = none →
          (word = .approved → world.now ≤ c.expires) ∧
            ∀ machine, (machine, caller.challenge, .expired) ∉ world.told)
      | _ => True
  | _ => True

def Phase.caller : Phase → Option Caller
  | .idle => none
  | .owned caller | .asking caller | .answered caller _ => some caller

/-- The challenge a sign-in waits for, or went through on. -/
def SignIn.challenge : SignIn → Option Nat
  | .waiting _ challenge | .through challenge => some challenge
  | .idle | .ended => none

structure Sound (world : World) : Prop where
  recent : ∀ id c, world.challenges id = some c → (id, c.machine) ∈ world.asked
  below : ∀ id machine, (id, machine) ∈ world.asked → id < world.fresh
  functional : ∀ id machine machine', (id, machine) ∈ world.asked → (id, machine') ∈ world.asked → machine = machine'
  callers : ∀ request caller, (world.phases request).caller = some caller →
    (caller.challenge, caller.machine) ∈ world.asked
  read : ∀ request caller word, world.phases request = .answered caller word →
    (world.answers caller.challenge).head? = some word
  /-- The decision is the first tap, and an approval was written down in time. -/
  decided : ∀ id c word time, world.challenges id = some c → c.decision = some (word, time) →
    (world.answers id).head? = some word ∧ (word = .approved → time ≤ c.expires)
  final : ∀ machine id c, (machine, id, .expired) ∈ world.told → world.challenges id = some c → c.decision = none
  reported : ∀ machine id answer, (machine, id, answer) ∈ world.told → id < world.fresh
  waits : ∀ signIn id, (world.signIns signIn).challenge = some id → id < world.fresh
  distinct : ∀ signIn signIn' id, (world.signIns signIn).challenge = some id →
    (world.signIns signIn').challenge = some id → signIn = signIn'

theorem start_sound : Sound start where
  recent := fun _ _ h => absurd h.symm (Option.some_ne_none _)
  below := fun _ _ h => absurd h List.not_mem_nil
  functional := fun _ _ _ h => absurd h List.not_mem_nil
  callers := fun _ _ h => absurd h.symm (Option.some_ne_none _)
  read := fun _ _ _ h => Phase.noConfusion h
  decided := fun _ _ _ _ h => absurd h.symm (Option.some_ne_none _)
  final := fun _ _ _ h => absurd h List.not_mem_nil
  reported := fun _ _ _ h => absurd h List.not_mem_nil
  waits := fun _ _ h => absurd h.symm (Option.some_ne_none _)
  distinct := fun _ _ _ h => absurd h.symm (Option.some_ne_none _)

variable {world : World}

theorem Sound.at (h : Sound world) (request : Nat) {phase : Phase}
    (hcaller : ∀ caller, phase.caller = some caller → (caller.challenge, caller.machine) ∈ world.asked)
    (hread : ∀ caller word, phase = .answered caller word → (world.answers caller.challenge).head? = some word) :
    Sound (world.at request phase) := by
  have hphases : ∀ request', (world.at request phase).phases request' =
      if request' = request then phase else world.phases request' := fun _ => Function.update_apply _ _ _ _
  refine { h with callers := fun request' caller heq => ?_, read := fun request' caller word heq => ?_ }
  · rw [hphases] at heq
    by_cases hsame : request' = request
    · rw [if_pos hsame] at heq
      exact hcaller caller heq
    · rw [if_neg hsame] at heq
      exact h.callers request' caller heq
  · rw [hphases] at heq
    by_cases hsame : request' = request
    · rw [if_pos hsame] at heq
      exact hread caller word heq
    · rw [if_neg hsame] at heq
      exact h.read request' caller word heq

theorem Sound.idle (h : Sound world) (request : Nat) : Sound (world.at request .idle) :=
  h.at request (fun _ heq => absurd heq.symm (Option.some_ne_none _)) fun _ _ heq => Phase.noConfusion heq

theorem record_challenges (world : World) (id id' : Nat) (word : Word) : (world.record id word).challenges id' =
    if id' = id then (world.challenges id).map fun c =>
      if c.decision.isNone then { c with decision := some (word, world.now) } else c
    else world.challenges id' := Function.update_apply _ _ _ _

theorem mem_record {id id' : Nat} {word : Word} {c' : Challenge}
    (hc : (world.record id word).challenges id' = some c') : ∃ c, world.challenges id' = some c ∧
      c'.machine = c.machine ∧ c'.expires = c.expires ∧
        (c'.decision = c.decision ∨ id' = id ∧ c.decision = none ∧ c'.decision = some (word, world.now)) := by
  rw [record_challenges] at hc
  by_cases hsame : id' = id
  · rw [if_pos hsame] at hc
    obtain ⟨c, hget, rfl⟩ := Option.map_eq_some_iff.mp hc
    refine ⟨c, hsame ▸ hget, ?_⟩
    cases hdecision : c.decision with
    | none => exact ⟨rfl, rfl, .inr ⟨hsame, rfl, rfl⟩⟩
    | some decision => exact ⟨rfl, rfl, .inl hdecision⟩
  · rw [if_neg hsame] at hc
    exact ⟨c', hc, rfl, rfl, .inl rfl⟩

theorem Sound.record (h : Sound world) {id : Nat} {word : Word} (hread : (world.answers id).head? = some word)
    (htimely : ∀ c, world.challenges id = some c → c.decision = none → (word = .approved → world.now ≤ c.expires) ∧
      ∀ machine, (machine, id, .expired) ∉ world.told) : Sound (world.record id word) := by
  refine { h with recent := fun id' c' hc => ?_, decided := fun id' c' word' time hc hdecision => ?_,
                  final := fun machine id' c' htold hc => ?_ }
  · obtain ⟨c, hget, hmachine, -⟩ := mem_record hc
    rw [hmachine]
    exact h.recent id' c hget
  · obtain ⟨c, hget, -, hexpires, hsame | ⟨rfl, hnone, hnew⟩⟩ := mem_record hc
    · rw [hexpires]
      exact h.decided id' c word' time hget (hsame ▸ hdecision)
    · obtain ⟨rfl, rfl⟩ := Prod.mk.inj (Option.some.inj (hnew.symm.trans hdecision))
      refine ⟨hread, fun happroved => ?_⟩
      rw [hexpires]
      exact (htimely c hget hnone).1 happroved
  · obtain ⟨c, hget, -, -, hsame | ⟨rfl, hnone, -⟩⟩ := mem_record hc
    · rw [hsame]
      exact h.final machine id' c htold hget
    · exact absurd htold ((htimely c hget hnone).2 machine)

theorem hear_spec (signIns : Nat → SignIn) (caller : Caller) (answer : Answer) (signIn : Nat) :
    hear signIns caller answer signIn = signIns signIn ∨ hear signIns caller answer signIn = .ended ∨
      hear signIns caller answer signIn = .through caller.challenge ∧ answer = .decided .approved ∧
        signIns signIn = .waiting caller.machine caller.challenge := by
  unfold hear
  cases caller.signIn with
  | none => exact .inl rfl
  | some waiting =>
      dsimp only
      by_cases hwaits : signIns waiting = .waiting caller.machine caller.challenge
      · rw [if_neg (not_not_intro hwaits)]
        by_cases hsame : signIn = waiting
        · subst hsame
          match answer with
          | .missing => exact .inl rfl
          | .pending => exact .inl rfl
          | .expired => exact .inr (.inl (Function.update_self _ _ _))
          | .decided .denied => exact .inr (.inl (Function.update_self _ _ _))
          | .decided .approved => exact .inr (.inr ⟨Function.update_self _ _ _, rfl, hwaits⟩)
        · match answer with
          | .missing => exact .inl rfl
          | .pending => exact .inl rfl
          | .expired => exact .inl (Function.update_of_ne hsame _ _)
          | .decided .denied => exact .inl (Function.update_of_ne hsame _ _)
          | .decided .approved => exact .inl (Function.update_of_ne hsame _ _)
      · rw [if_pos hwaits]
        exact .inl rfl

theorem hear_challenge {signIns : Nat → SignIn} {caller : Caller} {answer : Answer} {signIn id : Nat}
    (hid : (hear signIns caller answer signIn).challenge = some id) : (signIns signIn).challenge = some id := by
  rcases hear_spec signIns caller answer signIn with hsame | hended | ⟨hthrough, -, hwaits⟩
  · rwa [hsame] at hid
  · rw [hended] at hid
    exact absurd hid.symm (Option.some_ne_none _)
  · rw [hthrough] at hid
    rw [hwaits]
    exact hid

theorem Sound.tell (h : Sound world) {caller : Caller} {answer : Answer} (arrives : Bool)
    (hasked : (caller.challenge, caller.machine) ∈ world.asked)
    (hexpired : answer = .expired → ∀ c, world.challenges caller.challenge = some c → c.decision = none) :
    Sound (world.tell caller answer arrives) := by
  have hsignIn : ∀ signIn id, ((world.tell caller answer arrives).signIns signIn).challenge = some id →
      (world.signIns signIn).challenge = some id := by
    intro signIn id hid
    cases arrives with
    | false => exact hid
    | true => exact hear_challenge hid
  refine { h with final := fun machine id c htold hc => ?_, reported := fun machine id answer' htold => ?_,
                  waits := fun signIn id hid => h.waits signIn id (hsignIn signIn id hid),
                  distinct := fun signIn signIn' id hid hid' =>
                    h.distinct signIn signIn' id (hsignIn signIn id hid) (hsignIn signIn' id hid') }
  · rcases List.mem_append.mp htold with hold | hnew
    · exact h.final machine id c hold hc
    · obtain ⟨rfl, hrest⟩ := Prod.mk.inj (List.mem_singleton.mp hnew)
      obtain ⟨rfl, rfl⟩ := Prod.mk.inj hrest
      exact hexpired rfl c hc
  · rcases List.mem_append.mp htold with hold | hnew
    · exact h.reported machine id answer' hold
    · obtain ⟨rfl, hrest⟩ := Prod.mk.inj (List.mem_singleton.mp hnew)
      obtain ⟨rfl, rfl⟩ := Prod.mk.inj hrest
      exact h.below _ _ hasked

theorem Sound.ends (h : Sound world) (signIn fresh : Nat) (hfresh : world.fresh ≤ fresh) :
    Sound { world with fresh, signIns := Function.update world.signIns signIn .ended } := by
  have hsignIn : ∀ other id, (Function.update world.signIns signIn SignIn.ended other).challenge = some id →
      (world.signIns other).challenge = some id := by
    intro other id hid
    rw [Function.update_apply] at hid
    by_cases hsame : other = signIn
    · rw [if_pos hsame] at hid
      exact absurd hid.symm (Option.some_ne_none _)
    · rwa [if_neg hsame] at hid
  exact { h with below := fun id machine hid => (h.below id machine hid).trans_le hfresh,
                 reported := fun machine id answer htold => (h.reported machine id answer htold).trans_le hfresh,
                 waits := fun other id hid => (h.waits other id (hsignIn other id hid)).trans_le hfresh,
                 distinct := fun other other' id hid hid' =>
                   h.distinct other other' id (hsignIn other id hid) (hsignIn other' id hid') }

theorem begin_sound (h : Sound world) (signIn machine timeout : Nat) (sent : Bool) :
    Sound (begin world signIn machine timeout sent) := by
  unfold begin
  by_cases hidle : world.signIns signIn ≠ .idle
  · rw [if_pos hidle]
    exact h
  · rw [if_neg hidle]
    cases sent with
    | false => exact h.ends signIn (world.fresh + 1) (Nat.le_succ _)
    | true =>
        have hchallenges : ∀ id c, Function.update world.challenges world.fresh
            (some ⟨machine, world.now + timeout, none⟩) id = some c →
              id = world.fresh ∧ c = ⟨machine, world.now + timeout, none⟩ ∨ world.challenges id = some c := by
          intro id c hc
          rw [Function.update_apply] at hc
          by_cases hsame : id = world.fresh
          · rw [if_pos hsame] at hc
            exact .inl ⟨hsame, (Option.some.inj hc).symm⟩
          · rw [if_neg hsame] at hc
            exact .inr hc
        have hsignIn : ∀ other id, (Function.update world.signIns signIn (.waiting machine world.fresh) other).challenge =
            some id → other = signIn ∧ id = world.fresh ∨ (world.signIns other).challenge = some id := by
          intro other id hid
          rw [Function.update_apply] at hid
          by_cases hsame : other = signIn
          · rw [if_pos hsame] at hid
            exact .inl ⟨hsame, (Option.some.inj hid).symm⟩
          · rw [if_neg hsame] at hid
            exact .inr hid
        constructor
        · intro id c hc
          rcases hchallenges id c hc with ⟨rfl, rfl⟩ | hold
          · exact List.mem_append_right _ List.mem_cons_self
          · exact List.mem_append_left _ (h.recent id c hold)
        · intro id machine' hid
          rcases List.mem_append.mp hid with hold | hnew
          · exact (h.below id machine' hold).trans (Nat.lt_succ_self _)
          · obtain ⟨rfl, -⟩ := Prod.mk.inj (List.mem_singleton.mp hnew)
            exact Nat.lt_succ_self _
        · intro id machine' machine'' hid hid'
          rcases List.mem_append.mp hid with hold | hnew
          · rcases List.mem_append.mp hid' with hold' | hnew'
            · exact h.functional id machine' machine'' hold hold'
            · obtain ⟨rfl, -⟩ := Prod.mk.inj (List.mem_singleton.mp hnew')
              exact absurd (h.below _ _ hold) (lt_irrefl _)
          · obtain ⟨rfl, rfl⟩ := Prod.mk.inj (List.mem_singleton.mp hnew)
            rcases List.mem_append.mp hid' with hold' | hnew'
            · exact absurd (h.below _ _ hold') (lt_irrefl _)
            · exact (Prod.mk.inj (List.mem_singleton.mp hnew')).2.symm
        · exact fun request caller heq => List.mem_append_left _ (h.callers request caller heq)
        · exact h.read
        · intro id c word time hc hdecision
          rcases hchallenges id c hc with ⟨rfl, rfl⟩ | hold
          · exact absurd hdecision.symm (Option.some_ne_none _)
          · exact h.decided id c word time hold hdecision
        · intro machine' id c htold hc
          rcases hchallenges id c hc with ⟨rfl, rfl⟩ | hold
          · rfl
          · exact h.final machine' id c htold hold
        · exact fun machine' id answer htold => (h.reported machine' id answer htold).trans (Nat.lt_succ_self _)
        · intro other id hid
          rcases hsignIn other id hid with ⟨-, rfl⟩ | hold
          · exact Nat.lt_succ_self _
          · exact (h.waits other id hold).trans (Nat.lt_succ_self _)
        · intro other other' id hid hid'
          rcases hsignIn other id hid with ⟨rfl, rfl⟩ | hold
          · rcases hsignIn other' _ hid' with ⟨rfl, -⟩ | hold'
            · rfl
            · exact absurd (h.waits other' _ hold') (lt_irrefl _)
          · rcases hsignIn other' id hid' with ⟨rfl, rfl⟩ | hold'
            · exact absurd (h.waits other _ hold) (lt_irrefl _)
            · exact h.distinct other other' id hold hold'

theorem proceed_frame (world : World) (request : Nat) (reads : Bool) :
    let after := (proceed world request reads).1
    after.asked = world.asked ∧ after.signIns = world.signIns ∧ (after.challenges = world.challenges ∨
      ∃ id word, after.challenges = (world.record id word).challenges) := by
  unfold proceed
  cases world.phases request with
  | idle => exact ⟨rfl, rfl, .inl rfl⟩
  | owned caller =>
      dsimp only
      cases world.challenges caller.challenge with
      | none => exact ⟨rfl, rfl, .inl rfl⟩
      | some c =>
          dsimp only
          cases c.decision with
          | some decision => exact ⟨rfl, rfl, .inl rfl⟩
          | none =>
              dsimp only
              by_cases hexpired : c.expires < world.now
              · rw [if_pos hexpired]
                exact ⟨rfl, rfl, .inl rfl⟩
              · rw [if_neg hexpired]
                exact ⟨rfl, rfl, .inl rfl⟩
  | asking caller =>
      dsimp only
      cases if reads then (world.answers caller.challenge).head? else none <;> exact ⟨rfl, rfl, .inl rfl⟩
  | answered caller word => exact ⟨rfl, rfl, .inr ⟨caller.challenge, word, rfl⟩⟩

theorem proceed_sound (h : Sound world) {request : Nat} {reads : Bool}
    (htimely : ∀ arrives, Timely world (.proceed request reads arrives)) : Sound (proceed world request reads).1 ∧
      ∀ caller answer, (proceed world request reads).2 = some (caller, answer) →
        (caller.challenge, caller.machine) ∈ world.asked ∧
          (∀ word, answer = .decided word → ∃ c time,
            (proceed world request reads).1.challenges caller.challenge = some c ∧ c.decision = some (word, time) ∧
              (word = .approved → time ≤ c.expires)) ∧
          (answer = .expired → ∀ c, (proceed world request reads).1.challenges caller.challenge = some c →
            c.decision = none) := by
  have hwaits : ∀ caller, Phase.caller (world.phases request) = some caller →
      (caller.challenge, caller.machine) ∈ world.asked := fun caller => h.callers request caller
  have hread := h.read request
  unfold Timely at htimely
  unfold proceed
  cases hphase : world.phases request with
  | idle => exact ⟨h, fun _ _ heq => absurd heq.symm (Option.some_ne_none _)⟩
  | owned caller =>
      rw [hphase] at hwaits
      have hasked := hwaits caller rfl
      dsimp only
      cases hchallenge : world.challenges caller.challenge with
      | none =>
          refine ⟨h.idle request, fun caller' answer heq => ?_⟩
          obtain ⟨rfl, rfl⟩ := Prod.mk.inj (Option.some.inj heq)
          exact ⟨hasked, fun _ heq' => Answer.noConfusion heq', fun heq' => Answer.noConfusion heq'⟩
      | some c =>
          dsimp only
          cases hdecision : c.decision with
          | some decision =>
              refine ⟨h.idle request, fun caller' answer heq => ?_⟩
              obtain ⟨rfl, rfl⟩ := Prod.mk.inj (Option.some.inj heq)
              refine ⟨hasked, fun word heq' => ?_, fun heq' => Answer.noConfusion heq'⟩
              obtain rfl := Answer.decided.inj heq'
              exact ⟨c, decision.2, hchallenge, hdecision, (h.decided _ c _ _ hchallenge hdecision).2⟩
          | none =>
              dsimp only
              by_cases hexpired : c.expires < world.now
              · rw [if_pos hexpired]
                refine ⟨h.idle request, fun caller' answer heq => ?_⟩
                obtain ⟨rfl, rfl⟩ := Prod.mk.inj (Option.some.inj heq)
                refine ⟨hasked, fun _ heq' => Answer.noConfusion heq', fun _ c' hc' => ?_⟩
                obtain rfl := Option.some.inj (hchallenge.symm.trans hc')
                exact hdecision
              · rw [if_neg hexpired]
                refine ⟨h.at request (fun caller' heq => ?_) fun _ _ heq => Phase.noConfusion heq,
                  fun _ _ heq => absurd heq.symm (Option.some_ne_none _)⟩
                obtain rfl := Option.some.inj heq
                exact hasked
  | asking caller =>
      rw [hphase] at hwaits
      have hasked := hwaits caller rfl
      dsimp only
      cases hanswer : if reads then (world.answers caller.challenge).head? else none with
      | none =>
          refine ⟨h.idle request, fun caller' answer heq => ?_⟩
          obtain ⟨rfl, rfl⟩ := Prod.mk.inj (Option.some.inj heq)
          exact ⟨hasked, fun _ heq' => Answer.noConfusion heq', fun heq' => Answer.noConfusion heq'⟩
      | some word =>
          refine ⟨h.at request (fun caller' heq => ?_) fun caller' word' heq => ?_,
            fun _ _ heq => absurd heq.symm (Option.some_ne_none _)⟩
          · obtain rfl := Option.some.inj heq
            exact hasked
          · obtain ⟨rfl, rfl⟩ := Phase.answered.inj heq
            cases reads with
            | true => exact hanswer
            | false => exact absurd hanswer.symm (Option.some_ne_none _)
  | answered caller word =>
      rw [hphase] at hwaits
      have hasked := hwaits caller rfl
      have hfirst := hread caller word hphase
      have hwrites := htimely true
      dsimp only at hwrites
      rw [hphase] at hwrites
      obtain ⟨c, hchallenge, hundecided⟩ := hwrites
      have hrecord : Sound (world.record caller.challenge word) := by
        apply h.record hfirst
        intro c' hc' hnone
        obtain rfl := Option.some.inj (hchallenge.symm.trans hc')
        exact hundecided hnone
      refine ⟨hrecord.idle request, fun caller' answer heq => ?_⟩
      obtain ⟨rfl, rfl⟩ := Prod.mk.inj (Option.some.inj heq)
      refine ⟨hasked, fun word' heq' => ?_, fun heq' => Answer.noConfusion heq'⟩
      obtain rfl := Answer.decided.inj heq'
      have hthere : (world.record caller.challenge word).challenges caller.challenge =
          some (if c.decision.isNone then { c with decision := some (word, world.now) } else c) := by
        rw [record_challenges, if_pos rfl, hchallenge]
        rfl
      cases hdecision : c.decision with
      | none =>
          rw [hdecision] at hthere
          exact ⟨_, world.now, hthere, rfl, (hundecided hdecision).1⟩
      | some decision =>
          rw [hdecision] at hthere
          obtain ⟨hfirst', htime⟩ := h.decided _ c decision.1 decision.2 hchallenge hdecision
          obtain rfl : word = decision.1 := Option.some.inj (hfirst.symm.trans hfirst')
          exact ⟨c, decision.2, hthere, hdecision, htime⟩

theorem next_sound (h : Sound world) {move : Move} (htimely : Timely world move) : Sound (next world move) := by
  cases move with
  | tick seconds => exact { h with }
  | begin signIn machine timeout sent => exact begin_sound h signIn machine timeout sent
  | giveUp signIn =>
      unfold next
      dsimp only
      cases world.signIns signIn with
      | waiting machine challenge => exact h.ends signIn world.fresh (le_refl _)
      | idle => exact h
      | through challenge => exact h
      | ended => exact h
  | tap challenge word =>
      unfold next
      dsimp only
      by_cases hknown : challenge < world.fresh
      · rw [if_pos hknown]
        -- The first tap stays the first.
        have hfirst : ∀ id first, (world.answers id).head? = some first →
            (Function.update world.answers challenge (world.answers challenge ++ [word]) id).head? = some first := by
          intro id first hhead
          rw [Function.update_apply]
          by_cases hsame : id = challenge
          · rw [if_pos hsame, ← hsame, List.head?_append, hhead]
            rfl
          · rw [if_neg hsame]
            exact hhead
        exact { h with
          read := fun request caller first heq => hfirst _ _ (h.read request caller first heq)
          decided := fun id c first time hc hdecision =>
            (h.decided id c first time hc hdecision).imp_left (hfirst id first) }
      · rw [if_neg hknown]
        exact h
  | poll request caller =>
      unfold next
      dsimp only
      by_cases howned : (world.challenges caller.challenge).map Challenge.machine = some caller.machine
      · rw [if_pos howned]
        obtain ⟨c, hc, hmachine⟩ := Option.map_eq_some_iff.mp howned
        refine h.at request (fun caller' heq => ?_) fun _ _ heq => Phase.noConfusion heq
        obtain rfl := Option.some.inj heq
        rw [← hmachine]
        exact h.recent _ c hc
      · rw [if_neg howned]
        exact h
  | proceed request reads arrives =>
      obtain ⟨hafter, htold⟩ := @proceed_sound world h request reads fun _ => htimely
      unfold next
      dsimp only
      have hasked := (proceed_frame world request reads).1
      generalize proceed world request reads = result at hafter htold hasked ⊢
      obtain ⟨after, said⟩ := result
      cases said with
      | none => exact hafter
      | some told =>
          obtain ⟨caller, answer⟩ := told
          obtain ⟨hcaller, -, hexpired⟩ := htold caller answer rfl
          exact hafter.tell arrives (hasked ▸ hcaller) hexpired
  | sweep =>
      have hsweep : ∀ id c, (next world .sweep).challenges id = some c → world.challenges id = some c :=
        fun id c hc => (Option.filter_eq_some_iff.mp hc).1
      exact { h with
        recent := fun id c hc => h.recent id c (hsweep id c hc)
        decided := fun id c word time hc => h.decided id c word time (hsweep id c hc)
        final := fun machine id c htold hc => h.final machine id c htold (hsweep id c hc) }

theorem next_proceed (world : World) (request : Nat) (reads arrives : Bool) :
    (next world (.proceed request reads arrives)).challenges = (proceed world request reads).1.challenges ∧
      ((next world (.proceed request reads arrives)).signIns = world.signIns ∨
        ∃ caller answer, tells world (.proceed request reads arrives) = some (caller, answer) ∧
          (next world (.proceed request reads arrives)).signIns = hear world.signIns caller answer) := by
  have hframe := (proceed_frame world request reads).2.1
  unfold next tells
  dsimp only
  generalize proceed world request reads = result at hframe ⊢
  obtain ⟨after, said⟩ := result
  cases said with
  | none => exact ⟨rfl, .inl hframe⟩
  | some told =>
      obtain ⟨caller, answer⟩ := told
      refine ⟨rfl, ?_⟩
      cases arrives with
      | false => exact .inl hframe
      | true => exact .inr ⟨caller, answer, rfl, congrArg (fun signIns => hear signIns caller answer) hframe⟩

theorem next_once (h : Sound world) (move : Move) {id : Nat} {c c' : Challenge} {decision : Word × Nat}
    (hc : world.challenges id = some c) (hdecision : c.decision = some decision)
    (hc' : (next world move).challenges id = some c') : c'.decision = some decision := by
  have hsame : (next world move).challenges id = world.challenges id → c'.decision = some decision := by
    intro heq
    obtain rfl := Option.some.inj (hc.symm.trans (heq.symm.trans hc'))
    exact hdecision
  cases move with
  | tick seconds => exact hsame rfl
  | begin signIn machine timeout sent =>
      apply hsame
      unfold next begin
      dsimp only
      by_cases hidle : world.signIns signIn ≠ .idle
      · rw [if_pos hidle]
      · rw [if_neg hidle]
        cases sent with
        | false => rfl
        | true => exact Function.update_of_ne (h.below _ _ (h.recent id c hc)).ne _ _
  | giveUp signIn =>
      apply hsame
      unfold next
      dsimp only
      cases world.signIns signIn <;> rfl
  | tap challenge word =>
      apply hsame
      unfold next
      dsimp only
      by_cases hknown : challenge < world.fresh
      · rw [if_pos hknown]
      · rw [if_neg hknown]
  | poll request caller =>
      apply hsame
      unfold next
      dsimp only
      by_cases howned : (world.challenges caller.challenge).map Challenge.machine = some caller.machine
      · rw [if_pos howned]
        rfl
      · rw [if_neg howned]
  | proceed request reads arrives =>
      have hnext := (next_proceed world request reads arrives).1
      rcases (proceed_frame world request reads).2.2 with heq | ⟨recorded, word, heq⟩
      · exact hsame (by rw [hnext, heq])
      · rw [hnext, heq] at hc'
        obtain ⟨before, hbefore, -, -, hsays⟩ := mem_record hc'
        obtain rfl := Option.some.inj (hc.symm.trans hbefore)
        rcases hsays with hstays | ⟨-, hnone, -⟩
        · exact hstays.trans hdecision
        · exact absurd (hdecision.symm.trans hnone) (Option.some_ne_none _)
  | sweep =>
      have hold := (Option.filter_eq_some_iff.mp hc').1
      obtain rfl := Option.some.inj (hc.symm.trans hold)
      exact hdecision

theorem next_earned (move : Move) {signIn id : Nat} (hthrough : (next world move).signIns signIn = .through id) :
    world.signIns signIn = .through id ∨
      ∃ caller, caller.challenge = id ∧ tells world move = some (caller, .decided .approved) := by
  have hupdate : ∀ {other : Nat} {after : SignIn}, (∀ challenge, after ≠ .through challenge) →
      Function.update world.signIns other after signIn = .through id → world.signIns signIn = .through id := by
    intro other after hafter heq
    rw [Function.update_apply] at heq
    by_cases hsame : signIn = other
    · rw [if_pos hsame] at heq
      exact absurd heq (hafter id)
    · rwa [if_neg hsame] at heq
  cases move with
  | tick seconds => exact .inl hthrough
  | begin other machine timeout sent =>
      unfold next begin at hthrough
      dsimp only at hthrough
      by_cases hidle : world.signIns other ≠ .idle
      · rw [if_pos hidle] at hthrough
        exact .inl hthrough
      · rw [if_neg hidle] at hthrough
        cases sent with
        | false => exact .inl (hupdate (fun _ => SignIn.noConfusion) hthrough)
        | true => exact .inl (hupdate (fun _ => SignIn.noConfusion) hthrough)
  | giveUp other =>
      unfold next at hthrough
      dsimp only at hthrough
      cases hother : world.signIns other with
      | waiting machine challenge =>
          rw [hother] at hthrough
          exact .inl (hupdate (fun _ => SignIn.noConfusion) hthrough)
      | idle =>
          rw [hother] at hthrough
          exact .inl hthrough
      | through challenge =>
          rw [hother] at hthrough
          exact .inl hthrough
      | ended =>
          rw [hother] at hthrough
          exact .inl hthrough
  | tap challenge word =>
      unfold next at hthrough
      dsimp only at hthrough
      by_cases hknown : challenge < world.fresh
      · rw [if_pos hknown] at hthrough
        exact .inl hthrough
      · rw [if_neg hknown] at hthrough
        exact .inl hthrough
  | poll request caller =>
      unfold next at hthrough
      dsimp only at hthrough
      by_cases howned : (world.challenges caller.challenge).map Challenge.machine = some caller.machine
      · rw [if_pos howned] at hthrough
        exact .inl hthrough
      · rw [if_neg howned] at hthrough
        exact .inl hthrough
  | proceed request reads arrives =>
      rcases (next_proceed world request reads arrives).2 with hsame | ⟨caller, answer, htells, hheard⟩
      · rw [hsame] at hthrough
        exact .inl hthrough
      · rw [hheard] at hthrough
        rcases hear_spec world.signIns caller answer signIn with hsame | hended | ⟨hgoes, rfl, -⟩
        · exact .inl (hsame ▸ hthrough)
        · exact absurd (hended.symm.trans hthrough) SignIn.noConfusion
        · exact .inr ⟨caller, SignIn.through.inj (hgoes.symm.trans hthrough), htells⟩
  | sweep => exact .inl hthrough

theorem honest_of_timely (h : Sound world) {move : Move} (htimely : Timely world move) : Honest world move := by
  have hnext := next_sound h htimely
  have htells : ∀ caller answer, tells world move = some (caller, answer) →
      (caller.challenge, caller.machine) ∈ world.asked ∧ ∀ word, answer = .decided word → ∃ c time,
        (next world move).challenges caller.challenge = some c ∧ c.decision = some (word, time) ∧
          (word = .approved → time ≤ c.expires) := by
    intro caller answer heq
    cases move with
    | proceed request reads arrives =>
        obtain ⟨hasked, hdecided, -⟩ := (@proceed_sound world h request reads fun _ => htimely).2 caller answer heq
        rw [(next_proceed world request reads arrives).1]
        exact ⟨hasked, hdecided⟩
    | _ => exact absurd heq.symm (Option.some_ne_none _)
  constructor
  · exact fun id c decision c' hc hdecision hc' => next_once h move hc hdecision hc'
  · exact fun caller word heq => (htells caller _ heq).2 word rfl
  · exact hnext.final
  · intro caller answer heq
    have hasked := (htells caller answer heq).1
    exact ⟨hasked, fun machine hmachine => h.functional _ _ _ hmachine hasked⟩
  · exact fun signIn id hthrough => next_earned move hthrough
  · intro signIn signIn' id hthrough hthrough'
    exact hnext.distinct signIn signIn' id (by rw [hthrough]; rfl) (by rw [hthrough']; rfl)

theorem timely_of_honest {move : Move} (hhonest : Honest world move) : Timely world move := by
  cases move with
  | proceed request reads arrives =>
      unfold Timely
      dsimp only
      cases hphase : world.phases request with
      | answered caller word =>
          have htells : tells world (.proceed request reads arrives) = some (caller, .decided word) := by
            unfold tells proceed
            dsimp only
            rw [hphase]
          have hchallenges : (next world (.proceed request reads arrives)).challenges =
              (world.record caller.challenge word).challenges := by
            rw [(next_proceed world request reads arrives).1]
            unfold proceed
            rw [hphase]
            rfl
          obtain ⟨c', time, hc', hdecision', htime⟩ := hhonest.agrees caller word htells
          have hrecorded := hc'
          rw [hchallenges] at hrecorded
          obtain ⟨c, hc, -, hexpires, hsays⟩ := mem_record hrecorded
          refine ⟨c, hc, fun hnone => ⟨fun happroved => ?_, fun machine htold => ?_⟩⟩
          · rcases hsays with hsame | ⟨-, -, hnew⟩
            · exact absurd (hdecision'.symm.trans (hsame.trans hnone)) (Option.some_ne_none _)
            · obtain ⟨-, rfl⟩ := Prod.mk.inj (Option.some.inj (hnew.symm.trans hdecision'))
              exact hexpires ▸ htime happroved
          · have hstays : (machine, caller.challenge, .expired) ∈
                (next world (.proceed request reads arrives)).told := by
              unfold next proceed
              dsimp only
              rw [hphase]
              exact List.mem_append_left _ htold
            exact absurd (hdecision'.symm.trans (hhonest.final machine _ c' hstays hc')) (Option.some_ne_none _)
      | _ => trivial
  | _ => trivial

/-- Every answer is honest in just the runs in which none is written down late. -/
theorem approvals_honest_iff (moves : List Move) :
    Steps.Each next Honest start moves ↔ Steps.Each next Timely start moves := by
  have hkeeps : ∀ world move, Sound world → Honest world move → Sound (next world move) :=
    fun _ _ h hhonest => next_sound h (timely_of_honest hhonest)
  exact Steps.each_iff hkeeps (fun _ _ h => ⟨timely_of_honest, honest_of_timely h⟩) start_sound moves

/-- A poll finds a challenge undecided a moment before it expires. Another is then told that it has expired, and the
phone is tapped; the first poll reads the tap and is told that the sign-in is approved. -/
theorem expired_is_approved :
    let caller : Caller := ⟨7, 0, some 0⟩
    let moves : List Move := [.begin 0 7 60 true, .poll 0 caller, .proceed 0 true true, .tick 61,
      .poll 1 ⟨7, 0, none⟩, .proceed 1 true true, .tap 0 .approved, .proceed 0 true true, .proceed 0 true true]
    let last := moves.foldl next start
    last.told = [(7, 0, .expired), (7, 0, .decided .approved)] ∧ last.signIns 0 = .through 0 ∧
      ¬ Steps.Each next Honest start moves := by
  refine ⟨by decide +kernel, by decide +kernel, ?_⟩
  rintro ⟨-, -, -, -, -, -, -, -, hlast, -⟩
  obtain ⟨c, time, hc, hdecision, htime⟩ := hlast.agrees ⟨7, 0, some 0⟩ .approved (by decide +kernel)
  have hthere : c = ⟨7, 60, some (.approved, 61)⟩ := Option.some.inj (hc.symm.trans (by decide +kernel))
  subst hthere
  obtain ⟨-, rfl⟩ := Prod.mk.inj (Option.some.inj hdecision)
  exact absurd (htime rfl) (by decide)

end OpenDirectory.SignInApproval
