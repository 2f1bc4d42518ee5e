import OpenDirectory.Steps

/-! Which of the processes runs the scheduled work. Each asks for a lock of the database and starts its tasks once
it has it; the lock goes with the connection, the tasks go when the process gets to take them down. -/

namespace OpenDirectory.Leadership

/-- Where a process is in its loop. -/
inductive Phase where
  /-- It has no connection and is about to ask for the lock. -/
  | asking
  /-- Somebody else has the lock, or the database did not answer. -/
  | sleeping
  /-- The lock was given to it and its tasks are started. -/
  | leading
  /-- A check failed, and it sleeps before it takes its tasks down. -/
  | lost
  /-- The loop was cancelled, or the process is gone. -/
  | stopped
  deriving DecidableEq

/-- `lock` is the process whose connection holds the lock. -/
structure World where
  lock : Option Nat
  phases : Nat → Phase

def initial : World := ⟨none, fun _ => .asking⟩

/-- The tasks of a process run from `start()` until they are cancelled. -/
def World.Running (world : World) (process : Nat) : Prop :=
  world.phases process = .leading ∨ world.phases process = .lost

instance (world : World) (process : Nat) : Decidable (world.Running process) := inferInstanceAs (Decidable (_ ∨ _))

/-- What happens: to a process, or to its connection. Where the database does not answer, the call raises. -/
inductive Move where
  | ask (process : Nat) (answered : Bool)
  | check (process : Nat) (answered : Bool)
  | wake (process : Nat)
  | cancel (process : Nat)
  | disconnect (process : Nat)

def World.enter (world : World) (process : Nat) (phase : Phase) : World :=
  { world with phases := Function.update world.phases process phase }

/-- A connection that is closed or unlocked does not hold the lock. -/
def World.release (world : World) (process : Nat) : World :=
  { world with lock := if world.lock = some process then none else world.lock }

def next (world : World) : Move → World
  | .ask process answered =>
      if world.phases process ≠ .asking then world
      else if answered ∧ world.lock = none then { world with lock := some process }.enter process .leading
      else world.enter process .sleeping
  | .check process answered =>
      if world.phases process ≠ .leading then world
      -- `await conn.fetchval("SELECT 1")` raises on a connection that is gone
      else if answered ∧ world.lock = some process then world
      else world.enter process .lost
  | .wake process =>
      match world.phases process with
      | .sleeping => world.enter process .asking
      | .lost => (world.release process).enter process .asking
      | _ => world
  | .cancel process => (world.release process).enter process .stopped
  | .disconnect process => world.release process

/-- No tasks run on after the check of their process failed, and no two processes run tasks. -/
structure Alone (world : World) : Prop where
  checked : ∀ process, world.Running process → world.phases process ≠ .lost
  alone : ∀ process other, world.Running process → world.Running other → process = other

/-- No check of a process with tasks fails, and nobody is given the lock while tasks of another run on without
it. -/
def Held (world : World) : Move → Prop
  | .check process answered => world.phases process = .leading → answered = true ∧ world.lock = some process
  | .ask process answered => world.phases process = .asking → answered = true → world.lock = none →
      ∀ other, ¬ world.Running other
  | _ => True

/-- The lock is held by a process that runs tasks, and nobody else does. -/
structure Sound (world : World) : Prop extends Alone world where
  holder : ∀ process, world.lock = some process → world.Running process

theorem sound_initial : Sound initial where
  checked := fun _ hrunning => absurd hrunning (by simp [World.Running, initial])
  alone := fun _ _ hrunning => absurd hrunning (by simp [World.Running, initial])
  holder := nofun

variable {world : World} {process : Nat}

variable {phase : Phase}

theorem running_enter {other : Nat} : (world.enter process phase).Running other ↔
    if other = process then phase = .leading ∨ phase = .lost else world.Running other := by
  unfold World.Running World.enter
  by_cases hsame : other = process
  · subst hsame
    simp
  · simp [hsame]

theorem Alone.leave (h : Alone world) (hphase : phase ≠ .leading ∧ phase ≠ .lost) :
    Alone (world.enter process phase) := by
  have hothers : ∀ other, (world.enter process phase).Running other → other ≠ process ∧ world.Running other := by
    intro other hrunning
    rw [running_enter] at hrunning
    split at hrunning
    · exact absurd hrunning (not_or.mpr hphase)
    · exact ⟨‹_›, hrunning⟩
  constructor
  · intro other hrunning
    obtain ⟨hne, hbefore⟩ := hothers other hrunning
    simpa [World.enter, hne] using h.checked other hbefore
  · intro other another hother hanother
    exact h.alone other another (hothers other hother).2 (hothers another hanother).2

theorem Alone.release (h : Alone world) : Alone (world.release process) := ⟨h.checked, h.alone⟩

theorem lock_release {other : Nat} (h : (world.release process).lock = some other) :
    other ≠ process ∧ world.lock = some other := by
  unfold World.release at h
  dsimp only at h
  split at h
  · cases h
  · exact ⟨fun hsame => ‹¬ _› (hsame ▸ h), h⟩

theorem Sound.leave (h : Sound world) (hphase : phase ≠ .leading ∧ phase ≠ .lost)
    (hlock : world.lock ≠ some process) : Sound (world.enter process phase) where
  toAlone := h.toAlone.leave hphase
  holder := by
    intro other hother
    rw [running_enter, if_neg]
    · exact h.holder other hother
    · rintro rfl
      exact hlock hother

theorem Sound.release (h : Sound world) : Sound (world.release process) where
  toAlone := h.toAlone.release
  holder := fun other hother => h.holder other (lock_release hother).2

theorem Sound.end (h : Sound world) (hphase : phase ≠ .leading ∧ phase ≠ .lost) :
    Sound ((world.release process).enter process phase) :=
  h.release.leave hphase fun hlock => (lock_release hlock).1 rfl

theorem not_holder (h : Sound world) (hphase : world.phases process = phase)
    (hno : phase ≠ .leading ∧ phase ≠ .lost) : world.lock ≠ some process := by
  intro hlock
  have hrunning := h.holder process hlock
  rw [World.Running, hphase] at hrunning
  exact hrunning.elim hno.1 hno.2

theorem sound_next (h : Sound world) {move : Move} (hheld : Held world move) : Sound (next world move) := by
  cases move with
  | ask process answered =>
      dsimp only [next]
      split
      · exact h
      next hasking =>
        have hphase : world.phases process = .asking := not_not.mp hasking
        split
        next hgiven =>
          have hnobody := hheld hphase hgiven.1 hgiven.2
          have hrunning : ∀ other, World.Running ({ world with lock := some process }.enter process .leading) other →
              other = process := by
            intro other hother
            rw [running_enter] at hother
            split at hother
            · assumption
            · exact absurd hother (hnobody other)
          constructor
          · constructor
            · intro other hother
              obtain rfl := hrunning other hother
              simp [World.enter]
            · intro other another hother hanother
              rw [hrunning other hother, hrunning another hanother]
          · intro other hother
            obtain rfl : process = other := Option.some.inj hother
            rw [running_enter, if_pos rfl]
            exact .inl rfl
        · exact h.leave ⟨nofun, nofun⟩ (not_holder h hphase ⟨nofun, nofun⟩)
  | check process answered =>
      dsimp only [next]
      split
      · exact h
      next hleading =>
        rw [if_pos (hheld (not_not.mp hleading))]
        exact h
  | wake process =>
      dsimp only [next]
      cases hphase : world.phases process with
      | sleeping => exact h.leave ⟨nofun, nofun⟩ (not_holder h hphase ⟨nofun, nofun⟩)
      | lost => exact h.end ⟨nofun, nofun⟩
      | asking => exact h
      | leading => exact h
      | stopped => exact h
  | cancel process => exact h.end ⟨nofun, nofun⟩
  | disconnect process => exact h.release

theorem held_of_alone {move : Move} (halone : Alone (next world move)) : Held world move := by
  cases move with
  | ask process answered =>
      intro hasking hanswered hlock other hrunning
      dsimp only [next] at halone
      rw [if_neg (not_not.mpr hasking), if_pos ⟨hanswered, hlock⟩] at halone
      -- The process that is given the lock and the one that runs on are two.
      have hne : other ≠ process := by
        rintro rfl
        rw [World.Running, hasking] at hrunning
        exact hrunning.elim nofun nofun
      apply hne
      apply halone.alone other process
      · rw [running_enter, if_neg hne]
        exact hrunning
      · rw [running_enter, if_pos rfl]
        exact .inl rfl
  | check process answered =>
      intro hleading
      by_contra hfails
      dsimp only [next] at halone
      rw [if_neg (not_not.mpr hleading), if_neg hfails] at halone
      refine halone.checked process ?_ (Function.update_self _ _ _)
      rw [running_enter, if_pos rfl]
      exact .inr rfl
  | wake process => trivial
  | cancel process => trivial
  | disconnect process => trivial

/-- In every state of a run no tasks run on after the check of their process failed, and at most one process runs
tasks, exactly when no check of a process with tasks ever fails and nobody is given the lock before the tasks of
those who had it are taken down. -/
theorem alone_iff (moves : List Move) :
    (∀ before, before <+: moves → Alone (before.foldl next initial)) ↔ Steps.Each next Held initial moves := by
  rw [Steps.each_reached, and_iff_right sound_initial.toAlone]
  have hkeeps : ∀ (world : World) (move : Move), Sound world → Alone (next world move) → Sound (next world move) :=
    fun _ _ h halone => sound_next h (held_of_alone halone)
  have hstep : ∀ (world : World) (move : Move), Sound world → (Alone (next world move) ↔ Held world move) :=
    fun _ _ h => ⟨held_of_alone, fun hheld => (sound_next h hheld).toAlone⟩
  exact Steps.each_iff hkeeps hstep sound_initial moves

/-- The connection of the first process is lost, its check fails, and while it sleeps the second is given the
lock. -/
theorem two_controllers :
    ¬ ∀ before, before <+: [.ask 0 true, .disconnect 0, .check 0 true, .ask 1 true] →
      Alone (before.foldl next initial) := by
  intro h
  have hlast := h _ (List.prefix_refl _)
  exact absurd (hlast.alone 0 1 (.inr rfl) (.inl rfl)) (by decide)

end OpenDirectory.Leadership
