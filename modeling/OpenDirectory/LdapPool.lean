import OpenDirectory.Steps

/-! The bound connections to the directory, kept and used again: those that read or those that write, which have a
pool each. A request takes one or has one opened, works with it and gives it back. A pool is changed under its lock
alone, so that waiting for the lock is no move of its own; the clock is read before. Times are in microseconds. -/

namespace OpenDirectory.LdapPool

def poolSize : Nat := 8
def idleSeconds : Nat := 300 * 1000000
def lifetimeSeconds : Nat := 3600 * 1000000

/-- `born` is `_odm_born`, which the first request sets; `spoilt` if a request that had it raised. -/
structure Conn where
  born : Nat
  bound : Bool := true
  spoilt : Bool := false

structure Held where
  conn : Nat
  born : Nat
  used : Nat

/-- `idle` has those used last first, `inUse` what requests have. -/
structure World where
  now : Nat := 0
  made : Nat := 0
  conns : Nat → Conn := fun _ => ⟨0, true, false⟩
  idle : List Held := []
  inUse : List Nat := []

inductive Move where
  | take (asked : Nat)
  | opened
  | work (place : Nat) (bound : Bool)
  | giveBack (place : Nat) (raised : Bool) (asked : Nat)
  /-- The request is cancelled while it waits for the lock. -/
  | drop (place : Nat)
  | close
  | tick (passed : Nat)

/-- The loop of `take`: what it finds, and what is left. Those it passes over are closed. -/
def found (conns : Nat → Conn) (now : Nat) : List Held → Option Held × List Held
  | [] => (none, [])
  | candidate :: held =>
      if lifetimeSeconds < now - candidate.born ∨ idleSeconds < now - candidate.used then found conns now held
      else if (conns candidate.conn).bound then (some candidate, held)
      else found conns now held

def next (world : World) : Move → World
  | .take asked =>
      let (taken, left) := found world.conns asked world.idle
      { world with idle := left, inUse := (taken.map Held.conn).toList ++ world.inUse }
  | .opened => { world with
      made := world.made + 1
      conns := Function.update world.conns world.made { born := world.now }
      inUse := world.made :: world.inUse }
  | .work place bound =>
      match world.inUse[place]? with
      | some conn => { world with conns := Function.update world.conns conn { world.conns conn with bound } }
      | none => world
  | .giveBack place raised asked =>
      match world.inUse[place]? with
      | some conn =>
          let rest := { world with inUse := world.inUse.eraseIdx place }
          -- what is cancelled raises no `Exception`
          if raised then
            { rest with conns := Function.update world.conns conn { world.conns conn with spoilt := true } }
          else if !(world.conns conn).bound || poolSize ≤ world.idle.length then rest
          else { rest with idle := ⟨conn, (world.conns conn).born, asked⟩ :: world.idle }
      | none => world
  | .drop place => { world with inUse := world.inUse.eraseIdx place }
  | .close => { world with idle := [] }
  | .tick passed => { world with now := world.now + passed }

/-- A connection that the pool had, for a request that asked for one then. -/
structure Handed where
  conn : Conn
  asked : Nat
  used : Nat

def handed (world : World) : Move → List Handed
  | .take asked =>
      ((found world.conns asked world.idle).1.map fun held => ⟨world.conns held.conn, asked, held.used⟩).toList
  | _ => []

def step (world : World) (move : Move) : World × List Handed := (next world move, handed world move)

/-- What is in somebody's hands, those of the pool included. -/
def World.hands (world : World) : List Nat := world.inUse ++ world.idle.map Held.conn

/-- No connection is in two hands, none is spoilt that is in any, and the pool knows their ages. -/
structure Sound (world : World) : Prop where
  alone : world.hands.Nodup
  whole : ∀ conn ∈ world.hands, conn < world.made ∧ (world.conns conn).spoilt = false
  small : world.idle.length ≤ poolSize
  ages : ∀ held ∈ world.idle, held.born = (world.conns held.conn).born

theorem sound_initial : Sound {} := by
  constructor <;> simp [World.hands]

variable {world after : World} {conn place : Nat}

theorem found_cases (conns : Nat → Conn) (now : Nat) (idle : List Held) :
    ∃ passed, idle = passed ++ ((found conns now idle).1.toList ++ (found conns now idle).2) ∧
      ∀ held ∈ (found conns now idle).1, (conns held.conn).bound = true ∧ now - held.born ≤ lifetimeSeconds ∧
        now - held.used ≤ idleSeconds := by
  induction idle with
  | nil => exact ⟨[], rfl, nofun⟩
  | cons candidate rest ih =>
      obtain ⟨passed, hpassed, hfound⟩ := ih
      have hmore : candidate :: rest =
          candidate :: passed ++ ((found conns now rest).1.toList ++ (found conns now rest).2) := by
        rw [List.cons_append, ← hpassed]
      unfold found
      split
      · exact ⟨candidate :: passed, hmore, hfound⟩
      · rename_i hfresh
        split
        · rename_i hbound
          refine ⟨[], rfl, fun held hheld => ?_⟩
          obtain rfl := Option.some.inj hheld
          obtain ⟨hborn, hused⟩ := not_or.mp hfresh
          exact ⟨hbound, not_lt.mp hborn, not_lt.mp hused⟩
        · exact ⟨candidate :: passed, hmore, hfound⟩

/-- Connections change hands or are let go of, and none that is in any hands gets older or is spoilt. -/
theorem Sound.pass (h : Sound world) (hmade : after.made = world.made) (hhands : after.hands.Subperm world.hands)
    (hconns : ∀ conn ∈ after.hands, (after.conns conn).born = (world.conns conn).born ∧
      (after.conns conn).spoilt = (world.conns conn).spoilt) (hsmall : after.idle.length ≤ poolSize)
    (hages : ∀ held ∈ after.idle, held.born = (world.conns held.conn).born) : Sound after := by
  refine ⟨?_, fun conn hconn => ?_, hsmall, fun held hheld => ?_⟩
  · obtain ⟨others, hperm, hsub⟩ := hhands
    exact hperm.nodup_iff.mp (h.alone.sublist hsub)
  · rw [hmade, (hconns conn hconn).2]
    exact h.whole conn (hhands.subset hconn)
  · have hhand : held.conn ∈ after.hands := List.mem_append_right _ (List.mem_map_of_mem hheld)
    rw [(hconns held.conn hhand).1]
    exact hages held hheld

theorem Sound.next (h : Sound world) (move : Move) : Sound (next world move) := by
  cases move with
  | take asked =>
      obtain ⟨passed, hpassed, -⟩ := found_cases world.conns asked world.idle
      generalize htaken : (found world.conns asked world.idle).1 = taken at hpassed
      generalize hleft : (found world.conns asked world.idle).2 = left at hpassed
      have hnext : LdapPool.next world (.take asked) =
          { world with idle := left, inUse := (taken.map Held.conn).toList ++ world.inUse } := by
        rw [← htaken, ← hleft]
        rfl
      have hsub : (taken.toList ++ left).Sublist world.idle := hpassed ▸ List.sublist_append_right _ _
      have hmap : (taken.map Held.conn).toList = taken.toList.map Held.conn := by cases taken <;> rfl
      have hperm : ((taken.map Held.conn).toList ++ world.inUse ++ left.map Held.conn).Perm
          (world.inUse ++ (taken.toList ++ left).map Held.conn) := by
        rw [hmap, List.map_append, ← List.append_assoc]
        exact List.perm_append_comm.append_right _
      rw [hnext]
      refine h.pass rfl (hperm.subperm.trans ((hsub.map _).append_left _).subperm) (fun _ _ => ⟨rfl, rfl⟩) ?_ ?_
      · exact ((List.sublist_append_right _ _).trans hsub).length_le.trans h.small
      · exact fun held hheld => h.ages held (hsub.subset (List.mem_append_right _ hheld))
  | opened =>
      have hnew : world.made ∉ world.hands := fun hmem => lt_irrefl _ (h.whole _ hmem).1
      have hsame : ∀ conn ∈ world.hands,
          Function.update world.conns world.made { born := world.now } conn = world.conns conn :=
        fun conn hconn => Function.update_of_ne (fun heq => hnew (by rw [← heq]; exact hconn)) _ _
      refine ⟨List.nodup_cons.mpr ⟨hnew, h.alone⟩, fun conn hconn => ?_, h.small, fun held hheld => ?_⟩
      · rcases List.mem_cons.mp hconn with rfl | hconn
        · simp [LdapPool.next]
        · simp only [LdapPool.next, hsame conn hconn]
          exact ⟨(h.whole conn hconn).1.trans (Nat.lt_succ_self _), (h.whole conn hconn).2⟩
      · simp only [LdapPool.next, hsame held.conn (List.mem_append_right _ (List.mem_map_of_mem hheld))]
        exact h.ages held hheld
  | work place bound =>
      simp only [LdapPool.next]
      split
      · rename_i conn _
        refine h.pass rfl (.refl _) (fun other _ => ?_) h.small h.ages
        dsimp only
        rw [Function.update_apply]
        split
        · subst other
          exact ⟨rfl, rfl⟩
        · exact ⟨rfl, rfl⟩
      · exact h
  | giveBack place raised asked =>
      simp only [LdapPool.next]
      split
      · rename_i conn hplace
        obtain ⟨hlt, rfl⟩ := List.getElem?_eq_some_iff.mp hplace
        have hperm := (List.getElem_cons_eraseIdx_perm hlt).append_right (world.idle.map Held.conn)
        have hsub := (List.sublist_cons_self _ _).subperm.trans hperm.subperm
        split
        · refine h.pass rfl hsub (fun other hother => ?_) h.small h.ages
          have hnot : other ≠ world.inUse[place] := fun heq =>
            (List.nodup_cons.mp (hperm.nodup_iff.mpr h.alone)).1 (heq ▸ hother)
          simp only [Function.update_of_ne hnot]
          exact ⟨trivial, trivial⟩
        · split
          · exact h.pass rfl hsub (fun _ _ => ⟨rfl, rfl⟩) h.small h.ages
          · rename_i hroom
            simp only [Bool.or_eq_true, decide_eq_true_eq, not_or, not_le] at hroom
            refine h.pass rfl (List.perm_middle.subperm.trans hperm.subperm) (fun _ _ => ⟨rfl, rfl⟩) hroom.2 ?_
            intro held hheld
            rcases List.mem_cons.mp hheld with rfl | hheld
            · rfl
            · exact h.ages held hheld
      · exact h
  | drop place =>
      have hsub := (List.eraseIdx_sublist world.inUse place).append_right (world.idle.map Held.conn)
      exact h.pass rfl hsub.subperm (fun _ _ => ⟨rfl, rfl⟩) h.small h.ages
  | close =>
      have hsub := (List.nil_sublist (world.idle.map Held.conn)).append_left world.inUse
      exact h.pass rfl hsub.subperm (fun _ _ => ⟨rfl, rfl⟩) (Nat.zero_le _) nofun
  | tick passed => exact ⟨h.alone, h.whole, h.small, h.ages⟩

/-- A connection that was handed on is bound, young and used of late, and no request that had it raised. -/
structure Handed.Fit (handed : Handed) : Prop where
  bound : handed.conn.bound = true
  whole : handed.conn.spoilt = false
  young : handed.asked - handed.conn.born ≤ lifetimeSeconds
  recent : handed.asked - handed.used ≤ idleSeconds

theorem Sound.handed (h : Sound world) (move : Move) : ∀ given ∈ handed world move, given.Fit := by
  cases move with
  | take asked =>
      intro given hgiven
      obtain ⟨passed, hpassed, hfound⟩ := found_cases world.conns asked world.idle
      rw [LdapPool.handed, Option.mem_toList] at hgiven
      obtain ⟨held, htaken, rfl⟩ := Option.map_eq_some_iff.mp hgiven
      have hidle : held ∈ world.idle := by
        rw [hpassed, htaken]
        simp
      obtain ⟨hbound, hyoung, hrecent⟩ := hfound held htaken
      have hhand : held.conn ∈ world.hands := List.mem_append_right _ (List.mem_map_of_mem hidle)
      exact ⟨hbound, (h.whole held.conn hhand).2, h.ages held hidle ▸ hyoung, hrecent⟩
  | opened | work | giveBack | drop | close | tick => nofun

/-- Whatever the requests do, no connection is ever in two hands, the pool keeps few, and what it hands on is fit. -/
theorem pool_sound (moves : List Move) :
    (Steps.run step {} moves).1.hands.Nodup ∧ (Steps.run step {} moves).1.idle.length ≤ poolSize ∧
      ∀ given ∈ (Steps.run step {} moves).2, given.Fit := by
  have hkeeps : ∀ moves, Sound (Steps.run step {} moves).1 :=
    Steps.run_keeps (fun _ move h => h.next move) sound_initial
  refine ⟨(hkeeps moves).alone, (hkeeps moves).small, fun given hgiven => ?_⟩
  obtain ⟨before, move, _, _, hstep⟩ := Steps.mem_run.mp hgiven
  exact (hkeeps before).handed move given hstep

end OpenDirectory.LdapPool
