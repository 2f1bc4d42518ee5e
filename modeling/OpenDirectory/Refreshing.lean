import OpenDirectory.AgentPass
import OpenDirectory.NodeTasks

/-! Refreshes of the policy that are asked for, as one machine comes to them. An edit queues one unless one
waits or is out already, and so does a request of an operator. The agent collects its work between two passes
and once in each of them, and whether a pass applies a policy that has not changed is decided by what was
collected while it waited. -/

namespace OpenDirectory.Refreshing

open Agent (Applied Document lastSerial saveSerial unchanged)
open Tasks (State)

/-- One turn of the agent's loop: whether it is forced, and when it began. -/
structure Pass where
  force : Bool
  since : Nat
  deriving DecidableEq

/-- What a pass has come to before it collects its work: no policy, the same as before, or one that was
applied, with as many settings failed. -/
inductive Ending where
  | unfetched
  | unchanged
  | applied (document : Document) (failed : Nat)
  deriving DecidableEq

inductive Phase where
  | waiting
  | begun (pass : Pass)
  | fetched (pass : Pass) (fetchedAt : Nat) (document : Document)
  | tasksDue (pass : Pass) (ending : Ending)
  | closing (pass : Pass) (ending : Ending)
  deriving DecidableEq

def Phase.pass : Phase → Option Pass
  | .waiting => none
  | .begun pass | .fetched pass _ _ | .tasksDue pass _ | .closing pass _ => some pass

/-- What has happened, by the moments at which it did. -/
structure History where
  edits : List Nat := []
  collected : List (Nat × Nat) := []
  forced : List Nat := []
  failures : List Nat := []
  fetches : List Nat := []
  complete : List Nat := []

structure World where
  document : Document
  pushEnabled : Bool := true
  /-- The machine has reported, and is one of those a push goes to. -/
  reporting : Bool := true
  /-- The refreshes queued for this machine, in the order they were; a refresh is its place. -/
  rows : List State := []
  version : String
  applied : Option Applied := none
  phase : Phase := .waiting
  /-- A refresh was collected while the agent waited, and ends the wait. -/
  refresh : Bool := false
  /-- The refresh that is run and reported now. -/
  held : Option Nat := none
  now : Nat := 0
  past : History := {}

namespace World

variable (world : World)

/-- A refresh waits or is out. -/
def outstanding : Bool := world.rows.any fun state => state = .pending || state = .claimed

/-- `push_policy`, for this machine. -/
def pushPolicy : World :=
  if world.pushEnabled && world.reporting then
    { world with
      rows := if world.outstanding then world.rows else world.rows ++ [.pending]
      past := { world.past with edits := world.past.edits ++ [world.now] } }
  else world

/-- A poll takes one task, the oldest; where that is a refresh its answer may still be lost. -/
def claim (id : Nat) (arrives : Bool) : World :=
  if world.rows[id]? = some .pending then
    { world with
      rows := world.rows.set id .claimed
      held := if arrives then some id else none
      past := if arrives then { world.past with collected := world.past.collected ++ [(id, world.now)] }
        else world.past }
  else world

/-- The agent is told of a task in its wait. -/
def poll (id : Nat) (arrives : Bool) : World :=
  if world.phase = .waiting ∧ world.held = none ∧ world.refresh = false then
    { world.claim id arrives with refresh := arrives && world.rows[id]? = some .pending }
  else world

/-- The result of a task, which the console takes for one that is out. -/
def result (reaches : Bool) : World :=
  match world.held with
  | none => world
  | some id =>
      { world with
        held := none
        rows := if reaches && world.rows[id]? = some .claimed then world.rows.set id .done else world.rows }

def begin : World :=
  if world.phase = .waiting ∧ world.held = none then
    { world with
      phase := .begun ⟨world.refresh, world.now⟩
      refresh := false
      past := if world.refresh then { world.past with forced := world.past.forced ++ [world.now] }
        else world.past }
  else world

/-- A forced pass that ends in an error. -/
def fails (pass : Pass) : History :=
  if pass.force then { world.past with failures := world.past.failures ++ [world.now] } else world.past

end World

/-- How a pass comes by the policy: not even to the console, an error, or what it serves. -/
inductive Fetch where
  | unreachable
  | refused
  | served

namespace World

variable (world : World)

def fetch (got : Fetch) : World :=
  match world.phase with
  | .begun pass =>
      match got with
      | .unreachable => { world with phase := .waiting, past := world.fails pass }
      | .refused => { world with phase := .tasksDue pass .unfetched }
      | .served => { world with phase := .fetched pass world.now world.document }
  | _ => world

def apply (failed : Nat) : World :=
  match world.phase with
  | .fetched pass fetchedAt document =>
      if unchanged pass.force document world.applied world.version then
        { world with phase := .tasksDue pass .unchanged }
      else
        { world with
          phase := .tasksDue pass (.applied document failed)
          past := { world.past with fetches := world.past.fetches ++ [fetchedAt] } }
  | _ => world

/-- `_ = runTasks`: that a refresh was among the tasks is not heard of. -/
def runTasks (id : Option Nat) (arrives : Bool) : World :=
  match world.phase with
  | .tasksDue pass ending =>
      { id.elim world (world.claim · arrives) with phase := .closing pass ending }
  | _ => world

def close (reported saves : Bool) : World :=
  match world.phase, world.held with
  | .closing pass ending, none =>
      match ending with
      | .unfetched => { world with phase := .waiting, past := world.fails pass }
      | .unchanged => { world with phase := .waiting }
      | .applied document failed =>
          if reported ∧ failed = 0 then
            { world with
              phase := .waiting
              applied := saveSerial world.applied document.serial world.version saves
              past := if pass.force then { world.past with complete := world.past.complete ++ [pass.since] }
                else world.past }
          else { world with phase := .waiting, past := world.fails pass }
  | _, _ => world

end World

inductive Move where
  | edit (document : Document)
  | set (pushEnabled reporting : Bool)
  | request
  | reap (id : Nat)
  | poll (id : Nat) (arrives : Bool)
  | result (reaches : Bool)
  | begin
  | fetch (got : Fetch)
  | apply (failed : Nat)
  | runTasks (id : Option Nat) (arrives : Bool)
  | close (reported saves : Bool)
  | restart

def moved (world : World) : Move → World
  | .edit document => { world with document }.pushPolicy
  | .set pushEnabled reporting => { world with pushEnabled, reporting }
  | .request => { world with rows := world.rows ++ [.pending] }
  | .reap id =>
      if world.rows[id]? = some .pending ∨ world.rows[id]? = some .claimed then
        { world with rows := world.rows.set id .failed }
      else world
  | .poll id arrives => world.poll id arrives
  | .result reaches => world.result reaches
  | .begin => world.begin
  | .fetch got => world.fetch got
  | .apply failed => world.apply failed
  | .runTasks id arrives => world.runTasks id arrives
  | .close reported saves => world.close reported saves
  | .restart => { world with phase := .waiting, refresh := false, held := none }

/-- Every step takes a moment. -/
def next (world : World) (move : Move) : World := { moved world move with now := world.now + 1 }

/-- Nothing is on its way: the agent waits, and no refresh waits for it. -/
structure AtRest (world : World) : Prop where
  waits : world.phase = .waiting
  unasked : world.refresh = false
  free : world.held = none
  settled : world.outstanding = false

structure Honoured (world : World) : Prop where
  /-- A refresh reported done was followed by a complete forced application that began after it was
  collected. -/
  refreshed : ∀ entry ∈ world.past.collected, world.rows[entry.1]? = some .done →
    ∃ began ∈ world.past.complete, entry.2 < began
  /-- A forced pass that failed was followed by a forced one. -/
  retried : ∀ failed ∈ world.past.failures, ∃ began ∈ world.past.forced, failed < began
  /-- An edit was followed by an application whose document was fetched after it. -/
  applied : ∀ edit ∈ world.past.edits, ∃ fetched ∈ world.past.fetches, edit < fetched

def World.forced (world : World) : Prop := ∃ pass, world.phase.pass = some pass ∧ pass.force = true

/-- No refresh is collected in a pass, given up by the console, or lost on the way to the agent or back; and
a forced pass comes to a good end. -/
def Careful (world : World) : Move → Prop
  | .reap id => world.rows[id]? ≠ some .pending ∧ world.rows[id]? ≠ some .claimed
  | .poll id arrives => world.rows[id]? = some .pending → arrives = true
  | .result reaches => world.held.isSome → reaches = true
  | .fetch got => world.forced → got = .served
  | .apply failed => world.forced → failed = 0
  | .runTasks id _ => ∀ refresh ∈ id, world.rows[refresh]? ≠ some .pending
  | .close reported _ => world.forced → reported = true
  | .restart => world.refresh = false ∧ world.held = none ∧ ¬ world.forced
  | _ => True

/-- An edit is still to be fetched by the pass that is on its way. -/
def Phase.Covers (phase : Phase) (edit : Nat) : Prop :=
  match phase with
  | .begun pass => pass.force = true
  | .fetched pass fetchedAt _ => pass.force = true ∧ edit < fetchedAt
  | _ => False

/-- A forced pass that has come so far has applied the policy in full. -/
def Phase.Good : Phase → Prop
  | .tasksDue pass ending | .closing pass ending => pass.force = true → ∃ document, ending = .applied document 0
  | _ => True

structure Sound (world : World) : Prop where
  past : (∀ edit ∈ world.past.edits, edit < world.now) ∧ ∀ entry ∈ world.past.collected, entry.2 < world.now
  claimed : ∀ id, world.rows[id]? = some .claimed → world.held = some id
  free : world.held ≠ none → world.refresh = true
  waits : world.refresh = true → world.phase = .waiting
  good : world.phase.Good
  refreshed : ∀ entry ∈ world.past.collected, (∃ began ∈ world.past.complete, entry.2 < began) ∨
    world.refresh = true ∨ ∃ pass, world.phase.pass = some pass ∧ pass.force = true ∧ entry.2 < pass.since
  applied : ∀ edit ∈ world.past.edits, (∃ fetched ∈ world.past.fetches, edit < fetched) ∨
    world.outstanding = true ∨ world.refresh = true ∨ world.phase.Covers edit
  failures : world.past.failures = []

variable {world : World}

theorem Sound.honoured (h : Sound world) (hrest : AtRest world) : Honoured world where
  refreshed := by
    intro entry hentry _
    rcases h.refreshed entry hentry with hdone | hrefresh | ⟨pass, hpass, _⟩
    · exact hdone
    · rw [hrest.unasked] at hrefresh
      cases hrefresh
    · rw [hrest.waits] at hpass
      cases hpass
  retried := by
    rw [h.failures]
    exact fun failed hfailed => absurd hfailed List.not_mem_nil
  applied := by
    intro edit hedit
    rcases h.applied edit hedit with hdone | hout | hrefresh | hcovers
    · exact hdone
    · rw [hrest.settled] at hout
      cases hout
    · rw [hrest.unasked] at hrefresh
      cases hrefresh
    · rw [hrest.waits] at hcovers
      exact hcovers.elim

theorem outstanding_iff : world.outstanding = true ↔
    ∃ id : Nat, world.rows[id]? = some .pending ∨ world.rows[id]? = some .claimed := by
  simp only [World.outstanding, List.any_eq_true, Bool.or_eq_true, decide_eq_true_eq]
  constructor
  · rintro ⟨state, hmem, hstate⟩
    obtain ⟨id, hid⟩ := List.mem_iff_getElem?.mp hmem
    rcases hstate with rfl | rfl
    · exact ⟨id, .inl hid⟩
    · exact ⟨id, .inr hid⟩
  · rintro ⟨id, hid | hid⟩
    · exact ⟨_, List.mem_of_getElem? hid, .inl rfl⟩
    · exact ⟨_, List.mem_of_getElem? hid, .inr rfl⟩

theorem outstanding_append {after : World} (hrows : after.rows = world.rows ++ [.pending]) :
    after.outstanding = true := by
  rw [outstanding_iff, hrows]
  exact ⟨world.rows.length, .inl (by simp)⟩

theorem claimed_append {rows : List State} {id : Nat} (h : (rows ++ [State.pending])[id]? = some .claimed) :
    rows[id]? = some .claimed := by
  rw [List.getElem?_append] at h
  split at h
  · exact h
  · rw [List.getElem?_singleton] at h
    split at h
    · cases h
    · cases h

theorem Sound.frame (h : Sound world) {after : World} (hnow : after.now = world.now + 1)
    (hphase : after.phase = world.phase) (hrefresh : after.refresh = world.refresh) (hheld : after.held = world.held)
    (hrows : after.rows = world.rows ∨ after.rows = world.rows ++ [.pending]) (hpast : after.past = world.past) :
    Sound after where
  past := by
    rw [hpast, hnow]
    exact ⟨fun edit hedit => (h.past.1 edit hedit).trans (Nat.lt_succ_self _),
      fun entry hentry => (h.past.2 entry hentry).trans (Nat.lt_succ_self _)⟩
  claimed := by
    intro id hid
    rw [hheld]
    rcases hrows with hsame | hmore
    · exact h.claimed id (hsame ▸ hid)
    · exact h.claimed id (claimed_append (hmore ▸ hid))
  free := by
    rw [hheld, hrefresh]
    exact h.free
  waits := by
    rw [hrefresh, hphase]
    exact h.waits
  good := hphase ▸ h.good
  refreshed := by
    rw [hpast, hrefresh, hphase]
    exact h.refreshed
  applied := by
    rw [hpast, hrefresh, hphase]
    intro edit hedit
    rcases hrows with hsame | hmore
    · rw [World.outstanding, hsame]
      exact h.applied edit hedit
    · exact .inr (.inl (outstanding_append hmore))
  failures := by
    rw [hpast]
    exact h.failures

theorem Sound.edit (h : Sound world) (document : Document) : Sound (next world (.edit document)) := by
  simp only [next, moved, World.pushPolicy]
  split
  · have hframe := @Sound.frame world h { world with
        document, now := world.now + 1
        rows := if world.outstanding then world.rows else world.rows ++ [.pending] }
      rfl rfl rfl rfl (by dsimp only; split <;> simp) rfl
    have hout : (if world.outstanding then world.rows else world.rows ++ [State.pending]).any
        (fun state => state = .pending || state = .claimed) = true := by
      split
      · assumption
      · simp
    refine ⟨⟨?_, hframe.past.2⟩, hframe.claimed, hframe.free, hframe.waits, hframe.good, hframe.refreshed,
      fun _ _ => .inr (.inl hout), hframe.failures⟩
    intro edit hedit
    rcases List.mem_append.mp hedit with hold | hnew
    · exact hframe.past.1 edit hold
    · rw [List.mem_singleton.mp hnew]
      exact Nat.lt_succ_self _
  · exact h.frame rfl rfl rfl rfl (.inl rfl) rfl

theorem Sound.reap (h : Sound world) {id : Nat} (hcareful : Careful world (.reap id)) :
    Sound (next world (.reap id)) := by
  simp only [next, moved, if_neg (not_or.mpr hcareful)]
  exact h.frame rfl rfl rfl rfl (.inl rfl) rfl

theorem Sound.poll (h : Sound world) {id : Nat} {arrives : Bool} (hcareful : Careful world (.poll id arrives)) :
    Sound (next world (.poll id arrives)) := by
  simp only [next, moved, World.poll]
  split
  · rename_i hwaits
    obtain ⟨hphase, hheld, hrefresh⟩ := hwaits
    by_cases hpending : world.rows[id]? = some .pending
    · cases hcareful hpending
      simp only [World.claim, hpending, if_true, decide_true, Bool.and_self]
      constructor
      · refine ⟨fun edit hedit => (h.past.1 edit hedit).trans (Nat.lt_succ_self _), fun entry hentry => ?_⟩
        rcases List.mem_append.mp hentry with hold | hnew
        · exact (h.past.2 entry hold).trans (Nat.lt_succ_self _)
        · rw [List.mem_singleton.mp hnew]
          exact Nat.lt_succ_self _
      · intro other hother
        by_cases hsame : id = other
        · rw [hsame]
        · rw [List.getElem?_set_ne hsame] at hother
          have hout := h.claimed other hother
          rw [hheld] at hout
          cases hout
      · exact fun _ => rfl
      · exact fun _ => hphase
      · exact h.good
      · exact fun _ _ => .inr (.inl rfl)
      · exact fun _ _ => .inr (.inr (.inl rfl))
      · exact h.failures
    · simp only [World.claim, hpending, decide_false, Bool.and_false]
      exact h.frame rfl rfl hrefresh.symm rfl (.inl rfl) rfl
  · exact h.frame rfl rfl rfl rfl (.inl rfl) rfl

theorem Sound.result (h : Sound world) {reaches : Bool} (hcareful : Careful world (.result reaches)) :
    Sound (next world (.result reaches)) := by
  cases hheld : world.held with
  | none =>
      simp only [next, moved, World.result, hheld]
      exact h.frame rfl rfl rfl hheld.symm (.inl rfl) rfl
  | some id =>
      have hrefresh := h.free (by rw [hheld]; exact Option.some_ne_none id)
      cases hcareful (by rw [hheld]; rfl)
      simp only [next, moved, World.result, hheld, Bool.true_and, decide_eq_true_eq]
      constructor
      · exact ⟨fun edit hedit => (h.past.1 edit hedit).trans (Nat.lt_succ_self _),
          fun entry hentry => (h.past.2 entry hentry).trans (Nat.lt_succ_self _)⟩
      · intro other hother
        dsimp only at hother
        have hother' : world.rows[other]? = some .claimed ∧ other ≠ id := by
          split at hother
          · rw [List.getElem?_set] at hother
            split at hother
            · split at hother <;> cases hother
            · rename_i hne
              exact ⟨hother, fun heq => hne heq.symm⟩
          · rename_i hnot
            refine ⟨hother, ?_⟩
            rintro rfl
            exact hnot hother
        have hout := h.claimed other hother'.1
        rw [hheld] at hout
        exact absurd (Option.some.inj hout).symm hother'.2
      · exact fun hnone => absurd rfl hnone
      · exact fun _ => h.waits hrefresh
      · exact h.good
      · exact fun _ _ => .inr (.inl hrefresh)
      · exact fun _ _ => .inr (.inr (.inl hrefresh))
      · exact h.failures

theorem Sound.begin (h : Sound world) : Sound (next world .begin) := by
  simp only [next, moved, World.begin]
  split
  · rename_i hwaits
    obtain ⟨hphase, hheld⟩ := hwaits
    have hrest : ∀ {α : Type} (field : History → α),
        (∀ past forced, field { past with forced } = field past) →
          field (if world.refresh then { world.past with forced := world.past.forced ++ [world.now] }
            else world.past) = field world.past := by
      intro α field hfield
      split
      · exact hfield _ _
      · rfl
    constructor
    · dsimp only
      rw [hrest History.edits fun _ _ => rfl, hrest History.collected fun _ _ => rfl]
      exact ⟨fun edit hedit => (h.past.1 edit hedit).trans (Nat.lt_succ_self _),
        fun entry hentry => (h.past.2 entry hentry).trans (Nat.lt_succ_self _)⟩
    · exact h.claimed
    · exact fun hnone => absurd hheld hnone
    · exact fun hfalse => absurd hfalse Bool.false_ne_true
    · exact trivial
    · dsimp only
      rw [hrest History.collected fun _ _ => rfl, hrest History.complete fun _ _ => rfl]
      intro entry hentry
      rcases h.refreshed entry hentry with hdone | hrefresh | ⟨pass, hpass, _⟩
      · exact .inl hdone
      · exact .inr (.inr ⟨_, rfl, hrefresh, h.past.2 entry hentry⟩)
      · rw [hphase] at hpass
        cases hpass
    · dsimp only
      rw [hrest History.edits fun _ _ => rfl, hrest History.fetches fun _ _ => rfl]
      intro edit hedit
      rcases h.applied edit hedit with hdone | hout | hrefresh | hcovers
      · exact .inl hdone
      · exact .inr (.inl hout)
      · exact .inr (.inr (.inr hrefresh))
      · rw [hphase] at hcovers
        exact hcovers.elim
    · dsimp only
      rw [hrest History.failures fun _ _ => rfl]
      exact h.failures
  · exact h.frame rfl rfl rfl rfl (.inl rfl) rfl

theorem Sound.step (h : Sound world) (hin : world.phase ≠ .waiting) {after : World} (hnow : after.now = world.now + 1)
    (hrefresh : after.refresh = world.refresh) (hheld : after.held = world.held) (hrows : after.rows = world.rows)
    (hgood : after.phase.Good) (hpast : after.past.edits = world.past.edits ∧
      after.past.collected = world.past.collected ∧ after.past.failures = world.past.failures)
    (hrefreshed : ∀ entry ∈ world.past.collected,
      ((∃ began ∈ world.past.complete, entry.2 < began) ∨
        ∃ pass, world.phase.pass = some pass ∧ pass.force = true ∧ entry.2 < pass.since) →
      (∃ began ∈ after.past.complete, entry.2 < began) ∨
        ∃ pass, after.phase.pass = some pass ∧ pass.force = true ∧ entry.2 < pass.since)
    (happlied : ∀ edit ∈ world.past.edits,
      ((∃ fetched ∈ world.past.fetches, edit < fetched) ∨ world.phase.Covers edit) →
      (∃ fetched ∈ after.past.fetches, edit < fetched) ∨ after.phase.Covers edit) : Sound after := by
  have hunasked : world.refresh ≠ true := fun hrefresh => hin (h.waits hrefresh)
  constructor
  · rw [hpast.1, hpast.2.1, hnow]
    exact ⟨fun edit hedit => (h.past.1 edit hedit).trans (Nat.lt_succ_self _),
      fun entry hentry => (h.past.2 entry hentry).trans (Nat.lt_succ_self _)⟩
  · rw [hrows, hheld]
    exact h.claimed
  · rw [hheld, hrefresh]
    exact h.free
  · rw [hrefresh]
    exact fun hasked => absurd hasked hunasked
  · exact hgood
  · rw [hpast.2.1]
    intro entry hentry
    have hold := (h.refreshed entry hentry).imp_right fun hlater => hlater.resolve_left hunasked
    exact (hrefreshed entry hentry hold).imp_right .inr
  · rw [hpast.1, World.outstanding, hrows]
    intro edit hedit
    rcases h.applied edit hedit with hdone | hout | hasked | hcovers
    · exact (happlied edit hedit (.inl hdone)).imp_right fun h => .inr (.inr h)
    · exact .inr (.inl hout)
    · exact absurd hasked hunasked
    · exact (happlied edit hedit (.inr hcovers)).imp_right fun h => .inr (.inr h)
  · rw [hpast.2.2]
    exact h.failures

theorem fails_of_unforced {pass : Pass} (h : pass.force = false) : world.fails pass = world.past := by
  rw [World.fails, h]
  rfl

theorem forced_of_phase {pass : Pass} (hphase : world.phase.pass = some pass) (hforce : pass.force = true) :
    world.forced := ⟨pass, hphase, hforce⟩

theorem Sound.fetch (h : Sound world) {got : Fetch} (hcareful : Careful world (.fetch got)) :
    Sound (next world (.fetch got)) := by
  cases hphase : world.phase with
  | begun pass =>
      have hpass : world.phase.pass = some pass := by rw [hphase]; rfl
      have hin : world.phase ≠ .waiting := by rw [hphase]; exact Phase.noConfusion
      have hunforced : got ≠ .served → pass.force = false := by
        intro hnot
        cases hforce : pass.force with
        | false => rfl
        | true => exact absurd (hcareful (forced_of_phase hpass hforce)) hnot
      simp only [next, moved, World.fetch, hphase]
      cases got with
      | unreachable =>
          have hnot := hunforced Fetch.noConfusion
          refine h.step hin rfl rfl rfl rfl trivial ?_ ?_ ?_
          · simp only [fails_of_unforced hnot, and_self]
          · simp only [fails_of_unforced hnot, hphase, Phase.pass]
            rintro entry _ (hdone | ⟨_, hsome, hforce, _⟩)
            · exact .inl hdone
            · cases hsome
              rw [hnot] at hforce
              cases hforce
          · simp only [fails_of_unforced hnot, hphase, Phase.Covers, hnot]
            rintro edit _ (hdone | hfalse)
            · exact .inl hdone
            · cases hfalse
      | refused =>
          have hnot := hunforced Fetch.noConfusion
          refine h.step hin rfl rfl rfl rfl ?_ ⟨rfl, rfl, rfl⟩ ?_ ?_
          · exact fun hforce => absurd (hnot ▸ hforce) Bool.false_ne_true
          · rw [hphase]
            exact fun _ _ hold => hold
          · simp only [hphase, Phase.Covers, hnot]
            rintro edit _ (hdone | hfalse)
            · exact .inl hdone
            · cases hfalse
      | served =>
          refine h.step hin rfl rfl rfl rfl trivial ⟨rfl, rfl, rfl⟩ ?_ ?_
          · rw [hphase]
            exact fun _ _ hold => hold
          · rw [hphase]
            rintro edit hedit (hdone | hcovers)
            · exact .inl hdone
            · exact .inr ⟨hcovers, h.past.1 edit hedit⟩
  | waiting | fetched | tasksDue | closing =>
      simp only [next, moved, World.fetch, hphase]
      exact h.frame rfl hphase.symm rfl rfl (.inl rfl) rfl

theorem unchanged_forced {document : Document} {applied : Option Applied} {version : String} :
    unchanged true document applied version = false := rfl

theorem Sound.apply (h : Sound world) {failed : Nat} (hcareful : Careful world (.apply failed)) :
    Sound (next world (.apply failed)) := by
  cases hphase : world.phase with
  | fetched pass fetchedAt document =>
      have hpass : world.phase.pass = some pass := by rw [hphase]; rfl
      have hin : world.phase ≠ .waiting := by rw [hphase]; exact Phase.noConfusion
      simp only [next, moved, World.apply, hphase]
      split
      · rename_i hunchanged
        have hnot : pass.force = false := by
          cases hforce : pass.force with
          | false => rfl
          | true =>
              rw [hforce, unchanged_forced] at hunchanged
              cases hunchanged
        refine h.step hin rfl rfl rfl rfl ?_ ⟨rfl, rfl, rfl⟩ ?_ ?_
        · exact fun hforce => absurd (hnot ▸ hforce) Bool.false_ne_true
        · rw [hphase]
          exact fun _ _ hold => hold
        · simp only [hphase, Phase.Covers, hnot]
          rintro edit _ (hdone | ⟨hfalse, _⟩)
          · exact .inl hdone
          · cases hfalse
      · refine h.step hin rfl rfl rfl rfl ?_ ⟨rfl, rfl, rfl⟩ ?_ ?_
        · intro hforce
          rw [hcareful (forced_of_phase hpass hforce)]
          exact ⟨document, rfl⟩
        · rw [hphase]
          exact fun _ _ hold => hold
        · rw [hphase]
          rintro edit _ (⟨fetched, hmem, hlater⟩ | ⟨_, hlater⟩)
          · exact .inl ⟨fetched, List.mem_append_left _ hmem, hlater⟩
          · exact .inl ⟨fetchedAt, List.mem_append_right _ (List.mem_singleton_self _), hlater⟩
  | waiting | begun | tasksDue | closing =>
      simp only [next, moved, World.apply, hphase]
      exact h.frame rfl hphase.symm rfl rfl (.inl rfl) rfl

theorem Sound.runTasks (h : Sound world) {id : Option Nat} {arrives : Bool}
    (hcareful : Careful world (.runTasks id arrives)) : Sound (next world (.runTasks id arrives)) := by
  cases hphase : world.phase with
  | tasksDue pass ending =>
      have hin : world.phase ≠ .waiting := by rw [hphase]; exact Phase.noConfusion
      have hnone : id.elim world (world.claim · arrives) = world := by
        cases id with
        | none => rfl
        | some refresh => exact if_neg (hcareful refresh rfl)
      have hgood := h.good
      rw [hphase] at hgood
      simp only [next, moved, World.runTasks, hphase, hnone]
      refine h.step hin rfl rfl rfl rfl hgood ⟨rfl, rfl, rfl⟩ ?_ ?_
      · rw [hphase]
        exact fun _ _ hold => hold
      · rw [hphase]
        exact fun _ _ hold => hold
  | waiting | begun | fetched | closing =>
      simp only [next, moved, World.runTasks, hphase]
      exact h.frame rfl hphase.symm rfl rfl (.inl rfl) rfl

theorem Sound.close (h : Sound world) {reported saves : Bool} (hcareful : Careful world (.close reported saves)) :
    Sound (next world (.close reported saves)) := by
  cases hphase : world.phase with
  | closing pass ending =>
      cases hheld : world.held with
      | some id =>
          simp only [next, moved, World.close, hphase, hheld]
          exact h.frame rfl hphase.symm rfl hheld.symm (.inl rfl) rfl
      | none =>
          have hpass : world.phase.pass = some pass := by rw [hphase]; rfl
          have hin : world.phase ≠ .waiting := by rw [hphase]; exact Phase.noConfusion
          have hgood := h.good
          rw [hphase] at hgood
          simp only [next, moved, World.close, hphase, hheld]
          cases hforce : pass.force with
          | false =>
              have hrefreshed : ∀ entry ∈ world.past.collected,
                  ((∃ began ∈ world.past.complete, entry.2 < began) ∨
                    ∃ pass, world.phase.pass = some pass ∧ pass.force = true ∧ entry.2 < pass.since) →
                  ∃ began ∈ world.past.complete, entry.2 < began := by
                rw [hphase]
                rintro entry _ (hdone | ⟨_, hsome, hforced, _⟩)
                · exact hdone
                · cases hsome
                  rw [hforce] at hforced
                  cases hforced
              have happlied : ∀ edit ∈ world.past.edits,
                  ((∃ fetched ∈ world.past.fetches, edit < fetched) ∨ world.phase.Covers edit) →
                  ∃ fetched ∈ world.past.fetches, edit < fetched := by
                rw [hphase]
                rintro edit _ (hdone | hfalse)
                · exact hdone
                · exact hfalse.elim
              cases ending with
              | unfetched =>
                  simp only [fails_of_unforced hforce]
                  exact h.step hin rfl rfl hheld.symm rfl trivial ⟨rfl, rfl, rfl⟩
                    (fun entry hentry hold => .inl (hrefreshed entry hentry hold))
                    (fun edit hedit hold => .inl (happlied edit hedit hold))
              | unchanged =>
                  exact h.step hin rfl rfl hheld.symm rfl trivial ⟨rfl, rfl, rfl⟩
                    (fun entry hentry hold => .inl (hrefreshed entry hentry hold))
                    (fun edit hedit hold => .inl (happlied edit hedit hold))
              | applied document failed =>
                  simp only [fails_of_unforced hforce]
                  split <;>
                    exact h.step hin rfl rfl hheld.symm rfl trivial ⟨rfl, rfl, rfl⟩
                      (fun entry hentry hold => .inl (hrefreshed entry hentry hold))
                      (fun edit hedit hold => .inl (happlied edit hedit hold))
          | true =>
              obtain ⟨document, rfl⟩ := hgood hforce
              cases hcareful (forced_of_phase hpass hforce)
              simp only [and_self, if_true]
              refine h.step hin rfl rfl hheld.symm rfl trivial ⟨rfl, rfl, rfl⟩ ?_ ?_
              · rw [hphase]
                rintro entry _ (⟨began, hmem, hlater⟩ | ⟨_, hsome, _, hlater⟩)
                · exact .inl ⟨began, List.mem_append_left _ hmem, hlater⟩
                · cases hsome
                  exact .inl ⟨pass.since, List.mem_append_right _ (List.mem_singleton_self _), hlater⟩
              · rw [hphase]
                rintro edit _ (hdone | hfalse)
                · exact .inl hdone
                · exact hfalse.elim
  | waiting | begun | fetched | tasksDue =>
      simp only [next, moved, World.close, hphase]
      exact h.frame rfl hphase.symm rfl rfl (.inl rfl) rfl

theorem Sound.restart (h : Sound world) (hcareful : Careful world .restart) : Sound (next world .restart) := by
  obtain ⟨hrefresh, hheld, hunforced⟩ := hcareful
  simp only [next, moved]
  constructor
  · exact ⟨fun edit hedit => (h.past.1 edit hedit).trans (Nat.lt_succ_self _),
      fun entry hentry => (h.past.2 entry hentry).trans (Nat.lt_succ_self _)⟩
  · rw [← hheld]
    exact h.claimed
  · exact fun hnone => absurd rfl hnone
  · exact fun hfalse => absurd hfalse Bool.false_ne_true
  · exact trivial
  · intro entry hentry
    rcases h.refreshed entry hentry with hdone | hasked | ⟨pass, hpass, hforce, _⟩
    · exact .inl hdone
    · rw [hrefresh] at hasked
      cases hasked
    · exact absurd (forced_of_phase hpass hforce) hunforced
  · intro edit hedit
    rcases h.applied edit hedit with hdone | hout | hasked | hcovers
    · exact .inl hdone
    · exact .inr (.inl hout)
    · rw [hrefresh] at hasked
      cases hasked
    · refine absurd ?_ hunforced
      cases hphase : world.phase with
      | begun pass =>
          rw [hphase] at hcovers
          exact forced_of_phase (by rw [hphase]; rfl) hcovers
      | fetched pass fetchedAt document =>
          rw [hphase] at hcovers
          exact forced_of_phase (by rw [hphase]; rfl) hcovers.1
      | waiting | tasksDue | closing =>
          rw [hphase] at hcovers
          exact hcovers.elim
  · exact h.failures

theorem Sound.next (h : Sound world) {move : Move} (hcareful : Careful world move) : Sound (next world move) := by
  cases move with
  | edit document => exact h.edit document
  | set pushEnabled reporting => exact h.frame rfl rfl rfl rfl (.inl rfl) rfl
  | request => exact h.frame rfl rfl rfl rfl (.inr rfl) rfl
  | reap id => exact h.reap hcareful
  | poll id arrives => exact h.poll hcareful
  | result reaches => exact h.result hcareful
  | begin => exact h.begin
  | fetch got => exact h.fetch hcareful
  | apply failed => exact h.apply hcareful
  | runTasks id arrives => exact h.runTasks hcareful
  | close reported saves => exact h.close hcareful
  | restart => exact h.restart hcareful

/-- The agent before its first pass. -/
def fresh (document : Document) (version : String) (applied : Option Applied) : World :=
  { document, version, applied }

theorem sound_fresh (document : Document) (version : String) (applied : Option Applied) :
    Sound (fresh document version applied) where
  past := ⟨fun _ hedit => absurd hedit List.not_mem_nil, fun _ hentry => absurd hentry List.not_mem_nil⟩
  claimed _ h := absurd h (by simp [fresh])
  free h := absurd rfl h
  waits h := absurd h Bool.false_ne_true
  good := trivial
  refreshed _ hentry := absurd hentry List.not_mem_nil
  applied _ hedit := absurd hedit List.not_mem_nil
  failures := rfl

theorem honoured_at_rest {document : Document} {version : String} {applied : Option Applied} {moves : List Move}
    (h : Steps.Each next Careful (fresh document version applied) moves) :
    ∀ before, before <+: moves → AtRest (before.foldl next (fresh document version applied)) →
      Honoured (before.foldl next (fresh document version applied)) := by
  intro before hbefore hrest
  exact (Steps.each_keeps (fun _ _ hsound hcareful => hsound.next hcareful)
    (sound_fresh document version applied) h before hbefore).honoured hrest

/-- An edit is pushed, collected in the wait and applied. -/
def pushed : List Move := [
  .begin, .fetch .served, .apply 0, .runTasks none true, .close true true, .edit { serial := "2" },
  .poll 0 true, .result true, .begin, .fetch .served, .apply 0, .runTasks none true, .close true true]

theorem honoured_pushed : Honoured (pushed.foldl next (fresh { serial := "1" } "0.10" none)) := by
  have hcareful : Steps.Each next Careful (fresh { serial := "1" } "0.10" none) pushed :=
    ⟨trivial, fun _ => rfl, fun _ => rfl, fun _ h => absurd h (Option.not_mem_none _), fun _ => rfl, trivial,
    fun _ => rfl, fun _ => rfl, trivial, fun _ => rfl, fun _ => rfl, fun _ h => absurd h (Option.not_mem_none _),
    fun _ => rfl, trivial⟩
  exact honoured_at_rest hcareful pushed (List.prefix_refl _) ⟨rfl, rfl, rfl, by decide +kernel⟩

/-- A refresh that is collected in a pass, and the pass after it. -/
def collectedInPass : List Move := [
  .request, .begin, .fetch .served, .apply 0, .runTasks (some 0) true, .result true, .close true true,
  .begin, .fetch .served, .apply 0, .runTasks none true, .close true true]

theorem refresh_dropped : ¬ ∀ (document : Document) (version : String) (applied : Option Applied) (moves : List Move),
    AtRest (moves.foldl next (fresh document version applied)) →
      Honoured (moves.foldl next (fresh document version applied)) := by
  intro h
  have hhonoured := h { serial := "1" } "0.10" none collectedInPass ⟨rfl, rfl, rfl, by decide +kernel⟩
  obtain ⟨began, hbegan, _⟩ := hhonoured.refreshed (0, 4) (by decide +kernel) (by decide +kernel)
  have hnone : (collectedInPass.foldl next (fresh { serial := "1" } "0.10" none)).past.complete = [] := by
    decide +kernel
  rw [hnone] at hbegan
  exact absurd hbegan List.not_mem_nil

end OpenDirectory.Refreshing
