import OpenDirectory.Lists
import OpenDirectory.Steps
import OpenDirectory.Value

/-! Work queued for machines. Every request changes the table by single statements, and a statement
locks each row it changes and looks at it again once it has the lock, so statements are the steps:
those of polls, reports and the reaper come in any order. -/

namespace OpenDirectory.Tasks

def kinds : List String := [
  "role-install", "role-remove", "console-certificate", "share-apply", "share-remove",
  "update-check", "update-install", "package-install", "package-remove", "browse",
  "printer-discover", "domain-backup", "make-directory", "set-permissions", "disk-escrow",
  "rd-profile-list", "rd-profile-manage", "local-user-add", "local-user-remove",
  "local-user-password", "message", "passwords-apply", "policy-refresh", "restart", "shutdown",
  "printer-apply", "printer-remove", "printer-test", "vpn-apply", "radius-apply", "rd-host-apply",
  "rd-broker-apply", "agent-update", "shell-run", "shell-session", "remote-assist"]

inductive State where
  | pending
  | claimed
  | done
  | failed
  deriving DecidableEq

def State.Terminal (state : State) : Prop := state = .done ∨ state = .failed

instance (state : State) : Decidable state.Terminal :=
  inferInstanceAs (Decidable (state = .done ∨ state = .failed))

/-- A queued task. Times are in microseconds. -/
structure Task where
  id : String
  nodeFqdn : String
  kind : String
  payload : Value.Fields
  state : State := .pending
  output : Option String := none
  subject : Option String := none
  requestedBy : Option String := none
  createdAt : Nat
  claimedAt : Option Nat := none
  finishedAt : Option Nat := none

/-- The queue: `id` is its primary key. -/
structure Table where
  rows : List Task
  distinct : (rows.map Task.id).Nodup

namespace Table

variable (table : Table)

def empty : Table := ⟨[], List.nodup_nil⟩

/-- An `UPDATE`: the rows it picks are changed where they stand, their key apart. -/
def update (picks : Task → Bool) (change : Task → Task) : Table where
  rows := table.rows.map fun task => if picks task then { change task with id := task.id } else task
  distinct := by
    have hids : (Task.id ∘ fun task =>
        if picks task then { change task with id := task.id } else task) = Task.id := by
      funext task
      by_cases hpicks : picks task <;> simp [hpicks]
    rw [List.map_map, hids]
    exact table.distinct

def insert (task : Task) (hnew : task.id ∉ table.rows.map Task.id) : Table where
  rows := table.rows ++ [task]
  distinct := by
    rw [List.map_append, List.nodup_append]
    refine ⟨table.distinct, List.nodup_singleton _, fun id hid other hother heq => ?_⟩
    rw [List.map_singleton, List.mem_singleton] at hother
    exact hnew (hother ▸ heq ▸ hid)

variable {table}

theorem eq_of_id {task other : Task} (h : task ∈ table.rows) (h' : other ∈ table.rows)
    (hid : task.id = other.id) : task = other :=
  List.inj_on_of_nodup_map table.distinct h h' hid

theorem mem_update {picks : Task → Bool} {change : Task → Task} {task : Task} :
    task ∈ (table.update picks change).rows ↔ ∃ earlier ∈ table.rows,
      task = if picks earlier then { change earlier with id := earlier.id } else earlier := by
  simp only [update, List.mem_map]
  exact ⟨fun ⟨earlier, h, heq⟩ => ⟨earlier, h, heq.symm⟩,
    fun ⟨earlier, h, heq⟩ => ⟨earlier, h, heq.symm⟩⟩

end Table

section

variable [Runtime]

def enqueue (table : Table) (now : Nat) (id nodeFqdn kind : String) (payload : Value.Fields)
    (subject requestedBy : Option String) : Except Raised Table :=
  if kind ∉ kinds then .error .valueError
  else if hnew : id ∈ table.rows.map Task.id then .error .databaseError
  else .ok (table.insert
    { id, nodeFqdn, kind, payload, subject, requestedBy, createdAt := now } hnew)

structure Handed where
  id : String
  kind : String
  payload : Value.Fields

/-- The rows a poll may take: the machine's own, waiting, the oldest first; a row that another
statement holds is skipped. -/
def claimable (table : Table) (locked : String → Bool) (nodeFqdn : String) : List Task :=
  ((table.rows.filter fun task =>
      lower task.nodeFqdn = lower nodeFqdn && task.state = .pending).sortedBy Task.createdAt).filter
    fun task => !locked task.id

def claim (table : Table) (now : Nat) (locked : String → Bool) (nodeFqdn : String) (limit : Nat) :
    Table × List Handed :=
  let taken := (claimable table locked nodeFqdn).take limit
  (table.update (fun task => task.id ∈ taken.map Task.id)
      (fun task => { task with state := .claimed, claimedAt := some now }),
    taken.map fun task => ⟨task.id, task.kind, task.payload⟩)

structure Finished where
  id : String
  kind : String
  subject : Option String

/-- A payload that no longer carries a password. -/
def withoutPassword (payload : Value.Fields) : Value.Fields := Dict.erase payload "password"

def shortened (output : String) : String := String.ofList (output.toList.take 4000)

/-- The row a report is about, if it is the machine's own and still out. -/
def reportable (id nodeFqdn : String) (task : Task) : Bool :=
  task.id = id && lower task.nodeFqdn = lower nodeFqdn && task.state = .claimed

def finish (table : Table) (now : Nat) (taskId nodeFqdn : String) (ok : Bool) (output : String) :
    Except Raised (Table × Option Finished) :=
  match Runtime.uuid taskId with
  | none => .error .databaseError
  | some id => .ok
      (table.update (reportable id nodeFqdn)
          (fun task => { task with
            state := if ok then .done else .failed
            output := some (shortened output)
            finishedAt := some now
            payload := withoutPassword task.payload }),
        (table.rows.find? (reportable id nodeFqdn)).map fun task => ⟨task.id, task.kind, task.subject⟩)

def taskOutputLimit : Nat := 64000

/-- `output[-TASK_OUTPUT_LIMIT:]` -/
def latest (output : String) : String :=
  String.ofList (output.toList.drop (output.length - taskOutputLimit))

/-- What a long task has printed so far. -/
def taskProgress (table : Table) (taskId nodeFqdn output : String) : Except Raised Table :=
  match Runtime.uuid taskId with
  | none => .error .databaseError
  | some id => .ok (table.update (reportable id nodeFqdn)
      (fun task => { task with output := some (latest output) }))

def staleMinutes : Nat := 45

def stale (now : Nat) (task : Task) : Bool :=
  (task.state = .pending || task.state = .claimed) &&
    task.claimedAt.getD task.createdAt + staleMinutes * 60 * 1000000 < now

def unfinished (state : State) : String :=
  if state = .claimed then "The machine stopped reporting before this finished."
  else "No agent on this machine collected this. Is odm-agent installed and running there?"

structure Reaped where
  id : String
  kind : String
  subject : Option String
  output : String

/-- The reaper's statement on the queue. -/
def reap (table : Table) (now : Nat) : Table × List Reaped :=
  (table.update (stale now)
      (fun task => { task with
        state := .failed
        output := some (unfinished task.state)
        finishedAt := some now
        payload := withoutPassword task.payload }),
    (table.rows.filter (stale now)).map fun task =>
      ⟨task.id, task.kind, task.subject, unfinished task.state⟩)

/-- A computer that got another name takes along the tasks that are about it. -/
def renamed (table : Table) (newDn oldDn : String) : Table :=
  table.update (fun task => task.subject.map lower = some (lower oldDn))
    (fun task => { task with subject := some newDn })

end

/-- What a task may become: it stays the task it is, once taken it never waits again, and once it has
ended nothing about how it ended changes. -/
structure Later (task later : Task) : Prop where
  id : later.id = task.id
  nodeFqdn : later.nodeFqdn = task.nodeFqdn
  taken : task.state ≠ .pending → later.state ≠ .pending
  ended : task.state.Terminal → later.state = task.state ∧ later.output = task.output ∧
    later.finishedAt = task.finishedAt

theorem Later.refl (task : Task) : Later task task := ⟨rfl, rfl, fun h => h, fun _ => ⟨rfl, rfl, rfl⟩⟩

theorem Later.trans {task later last : Task} (h : Later task later) (h' : Later later last) :
    Later task last where
  id := h'.id.trans h.id
  nodeFqdn := h'.nodeFqdn.trans h.nodeFqdn
  taken hstate := h'.taken (h.taken hstate)
  ended hstate := by
    obtain ⟨hsame, houtput, hfinished⟩ := h.ended hstate
    obtain ⟨hsame', houtput', hfinished'⟩ := h'.ended (hsame ▸ hstate)
    exact ⟨hsame'.trans hsame, houtput'.trans houtput, hfinished'.trans hfinished⟩

/-- Every task is still there and came to be what it may. -/
def Grows (table next : Table) : Prop :=
  ∀ task ∈ table.rows, ∃ later ∈ next.rows, Later task later

theorem Grows.refl (table : Table) : Grows table table := fun task h => ⟨task, h, .refl task⟩

theorem Grows.trans {table next last : Table} (h : Grows table next) (h' : Grows next last) :
    Grows table last := by
  intro task htask
  obtain ⟨later, hlater, hgrew⟩ := h task htask
  obtain ⟨final, hfinal, hgrew'⟩ := h' later hlater
  exact ⟨final, hfinal, hgrew.trans hgrew'⟩

theorem grows_update {table : Table} {picks : Task → Bool} {change : Task → Task}
    (h : ∀ task ∈ table.rows, picks task = true → Later task { change task with id := task.id }) :
    Grows table (table.update picks change) := by
  intro task htask
  refine ⟨_, Table.mem_update.mpr ⟨task, htask, rfl⟩, ?_⟩
  by_cases hpicks : picks task = true
  · rw [if_pos hpicks]
    exact h task htask hpicks
  · rw [if_neg hpicks]
    exact .refl task

variable {table : Table}

theorem grows_enqueue {now : Nat} {id nodeFqdn kind : String} {payload : Value.Fields}
    {subject requestedBy : Option String} {next : Table}
    (h : enqueue table now id nodeFqdn kind payload subject requestedBy = .ok next) :
    Grows table next := by
  unfold enqueue at h
  split at h
  · cases h
  · split at h
    · cases h
    · cases h
      exact fun task htask => ⟨task, List.mem_append_left _ htask, .refl task⟩

theorem later_of_claimed {task later : Task} (hclaimed : task.state = .claimed)
    (hid : later.id = task.id) (hnode : later.nodeFqdn = task.nodeFqdn)
    (hstate : later.state ≠ .pending) : Later task later := by
  refine ⟨hid, hnode, fun _ => hstate, fun h => ?_⟩
  rw [hclaimed] at h
  exact absurd h (by decide)

theorem waiting_of_stale {now : Nat} {task : Task} (h : stale now task = true) :
    task.state = .pending ∨ task.state = .claimed := by
  simp only [stale, Bool.and_eq_true, Bool.or_eq_true, decide_eq_true_eq] at h
  exact h.1

theorem grows_reap (now : Nat) : Grows table (reap table now).1 := by
  refine grows_update fun task _ hpicks => ⟨rfl, rfl, fun _ => nofun, fun h => ?_⟩
  rcases waiting_of_stale hpicks with hstate | hstate
  all_goals
    rw [hstate] at h
    exact absurd h (by decide)

variable [Runtime]

variable {nodeFqdn id : String} {task : Task} {statement : Statement}

theorem mem_taken {locked : String → Bool} {limit : Nat}
    (h : task ∈ (claimable table locked nodeFqdn).take limit) :
    task ∈ table.rows ∧ lower task.nodeFqdn = lower nodeFqdn ∧ task.state = .pending := by
  have hclaimable := List.mem_of_mem_take h
  rw [claimable, List.mem_filter, (List.perm_sortedBy _ _).mem_iff, List.mem_filter] at hclaimable
  obtain ⟨⟨hrow, hown⟩, _⟩ := hclaimable
  simp only [Bool.and_eq_true, decide_eq_true_eq] at hown
  exact ⟨hrow, hown⟩

theorem taken_of_id {locked : String → Bool} {limit : Nat}
    (htask : task ∈ table.rows)
    (h : task.id ∈ ((claimable table locked nodeFqdn).take limit).map Task.id) :
    task ∈ (claimable table locked nodeFqdn).take limit := by
  obtain ⟨other, hother, hid⟩ := List.mem_map.mp h
  rwa [← Table.eq_of_id (mem_taken hother).1 htask hid]

theorem nodup_taken (locked : String → Bool) (nodeFqdn : String) (limit : Nat) :
    (((claimable table locked nodeFqdn).take limit).map Task.id).Nodup := by
  have hrows : ((table.rows.filter fun task =>
      lower task.nodeFqdn = lower nodeFqdn && task.state = .pending).map Task.id).Nodup :=
    table.distinct.sublist (List.filter_sublist.map _)
  have hsorted := (List.Perm.map Task.id (List.perm_sortedBy Task.createdAt _)).nodup_iff.mpr hrows
  exact hsorted.sublist (((List.take_sublist _ _).trans List.filter_sublist).map _)

theorem grows_claim (now : Nat) (locked : String → Bool) (nodeFqdn : String) (limit : Nat) :
    Grows table (claim table now locked nodeFqdn limit).1 := by
  refine grows_update fun task htask hpicks => ?_
  obtain ⟨_, _, hpending⟩ := mem_taken (taken_of_id htask (of_decide_eq_true hpicks))
  refine ⟨rfl, rfl, fun h => absurd hpending h, fun h => ?_⟩
  rw [hpending] at h
  exact absurd h (by decide)

theorem reportable_iff :
    reportable id nodeFqdn task = true ↔
      task.id = id ∧ lower task.nodeFqdn = lower nodeFqdn ∧ task.state = .claimed := by
  simp [reportable, and_assoc]

theorem grows_finish {now : Nat} {taskId : String} {ok : Bool} {output : String}
    {next : Table} {found : Option Finished}
    (h : finish table now taskId nodeFqdn ok output = .ok (next, found)) : Grows table next := by
  unfold finish at h
  split at h
  · cases h
  · cases h
    refine grows_update fun task _ hpicks => ?_
    refine later_of_claimed (reportable_iff.mp hpicks).2.2 rfl rfl ?_
    cases ok <;> simp

theorem grows_progress {taskId output : String} {next : Table}
    (h : taskProgress table taskId nodeFqdn output = .ok next) : Grows table next := by
  unfold taskProgress at h
  split at h
  · cases h
  · cases h
    refine grows_update fun task _ hpicks => ?_
    have hclaimed := (reportable_iff.mp hpicks).2.2
    exact later_of_claimed hclaimed rfl rfl (by simp [hclaimed])

theorem grows_renamed (newDn oldDn : String) : Grows table (renamed table newDn oldDn) :=
  grows_update fun _ _ _ => ⟨rfl, rfl, fun h => h, fun _ => ⟨rfl, rfl, rfl⟩⟩

inductive Statement where
  | enqueue (now : Nat) (id nodeFqdn kind : String) (payload : Value.Fields)
      (subject requestedBy : Option String)
  | claim (now : Nat) (locked : String → Bool) (nodeFqdn : String) (limit : Nat)
  | finish (now : Nat) (taskId nodeFqdn : String) (ok : Bool) (output : String)
  | progress (taskId nodeFqdn output : String)
  | reap (now : Nat)
  | renamed (newDn oldDn : String)

/-- What the outside learns: a poll is handed a task, a report is taken, the reaper gave up on one. -/
inductive Event where
  | handed (id nodeFqdn : String)
  | finished (id nodeFqdn : String) (ok : Bool)
  | reaped (id : String)

def Event.handedId : Event → Option String
  | .handed id _ => some id
  | _ => none

def Event.finishedId : Event → Option String
  | .finished id _ _ => some id
  | _ => none

/-- A refused statement changes nothing. -/
def step (table : Table) : Statement → Table × List Event
  | .enqueue now id nodeFqdn kind payload subject requestedBy =>
      match enqueue table now id nodeFqdn kind payload subject requestedBy with
      | .ok next => (next, [])
      | .error _ => (table, [])
  | .claim now locked nodeFqdn limit =>
      let (next, handed) := claim table now locked nodeFqdn limit
      (next, handed.map fun task => .handed task.id nodeFqdn)
  | .finish now taskId nodeFqdn ok output =>
      match finish table now taskId nodeFqdn ok output with
      | .ok (next, found) => (next, found.toList.map fun task => .finished task.id nodeFqdn ok)
      | .error _ => (table, [])
  | .progress taskId nodeFqdn output =>
      match taskProgress table taskId nodeFqdn output with
      | .ok next => (next, [])
      | .error _ => (table, [])
  | .reap now =>
      let (next, reaped) := reap table now
      (next, reaped.map fun task => .reaped task.id)
  | .renamed newDn oldDn => (renamed table newDn oldDn, [])

theorem grows_step (table : Table) (statement : Statement) :
    Grows table (step table statement).1 := by
  cases statement with
  | enqueue now id nodeFqdn kind payload subject requestedBy =>
      simp only [step]
      split
      · rename_i h
        exact grows_enqueue h
      · exact .refl table
  | claim now locked nodeFqdn limit => exact grows_claim now locked nodeFqdn limit
  | finish now taskId nodeFqdn ok output =>
      simp only [step]
      split
      · rename_i h
        exact grows_finish h
      · exact .refl table
  | progress taskId nodeFqdn output =>
      simp only [step]
      split
      · rename_i h
        exact grows_progress h
      · exact .refl table
  | reap now => exact grows_reap now
  | renamed newDn oldDn => exact grows_renamed newDn oldDn

theorem grows_run (start : Table) (statements : List Statement) :
    Grows start (Steps.run step start statements).1 :=
  @Steps.run_relates _ _ _ step (fun _ => True) Grows .refl .trans (fun _ _ _ => trivial)
    (fun table statement _ => grows_step table statement) start trivial statements

theorem grows_after (start : Table) (before : List Statement) (statement : Statement)
    (after : List Statement) :
    Grows (step (Steps.run step start before).1 statement).1
      (Steps.run step start (before ++ statement :: after)).1 := by
  rw [Steps.run_append, Steps.run_cons]
  exact grows_run _ after

theorem handedId_step (statement : Statement) :
    (step table statement).2.filterMap Event.handedId = match statement with
      | .claim _ locked nodeFqdn limit => ((claimable table locked nodeFqdn).take limit).map Task.id
      | _ => [] := by
  cases statement with
  | enqueue now id nodeFqdn kind payload subject requestedBy =>
      simp only [step]
      split <;> rfl
  | claim now locked nodeFqdn limit =>
      simp only [step, claim, List.map_map, List.filterMap_map]
      exact congrFun (List.filterMap_eq_map (f := Task.id)) _
  | finish now taskId nodeFqdn ok output =>
      simp only [step]
      split
      · simp [List.filterMap_map, Function.comp_def, Event.handedId]
      · rfl
  | progress taskId nodeFqdn output =>
      simp only [step]
      split <;> rfl
  | reap now => simp [step, List.filterMap_map, Function.comp_def, Event.handedId]
  | renamed newDn oldDn => rfl

/-- The task is there and no longer waiting. -/
def Table.Taken (table : Table) (id : String) : Prop :=
  ∃ task ∈ table.rows, task.id = id ∧ task.state ≠ .pending

theorem handed_spendsOnce :
    Steps.SpendsOnce step (fun _ => True) Event.handedId Table.Taken where
  once table statement _ := by
    rw [handedId_step]
    split
    · exact nodup_taken _ _ _
    · exact List.nodup_nil
  fresh table statement _ id hid := by
    rw [handedId_step] at hid
    split at hid
    · rintro ⟨other, hother, heq, hstate⟩
      obtain ⟨task, htask, rfl⟩ := List.mem_map.mp hid
      obtain ⟨hrow, _, hpending⟩ := mem_taken htask
      exact hstate (Table.eq_of_id hother hrow heq ▸ hpending)
    · exact absurd hid List.not_mem_nil
  spends table statement _ id hid := by
    rw [handedId_step] at hid
    split at hid
    · obtain ⟨task, htask, rfl⟩ := List.mem_map.mp hid
      refine ⟨_, Table.mem_update.mpr ⟨task, (mem_taken htask).1, rfl⟩, ?_⟩
      rw [if_pos (decide_eq_true hid)]
      exact ⟨rfl, nofun⟩
    · exact absurd hid List.not_mem_nil
  stays table statement _ id := by
    rintro ⟨task, htask, hid, hstate⟩
    obtain ⟨later, hlater, hgrew⟩ := grows_step table statement task htask
    exact ⟨later, hlater, hgrew.id.trans hid, hgrew.taken hstate⟩

theorem handed_own
    (h : .handed id nodeFqdn ∈ (step table statement).2) :
    ∃ task ∈ table.rows, task.id = id ∧ lower task.nodeFqdn = lower nodeFqdn := by
  cases statement with
  | enqueue =>
      simp only [step] at h
      split at h <;> exact absurd h List.not_mem_nil
  | claim now locked host limit =>
      simp only [step, claim, List.map_map, List.mem_map, Function.comp_apply] at h
      obtain ⟨task, htask, heq⟩ := h
      cases heq
      obtain ⟨hrow, hown, _⟩ := mem_taken htask
      exact ⟨task, hrow, rfl, hown⟩
  | finish =>
      simp only [step] at h
      split at h
      · simp at h
      · exact absurd h List.not_mem_nil
  | progress =>
      simp only [step] at h
      split at h <;> exact absurd h List.not_mem_nil
  | reap => simp [step] at h
  | renamed => exact absurd h List.not_mem_nil

theorem finished_step {ok : Bool}
    (h : .finished id nodeFqdn ok ∈ (step table statement).2) :
    (∃ task ∈ table.rows, task.id = id ∧ task.state = .claimed) ∧
      ∃ task ∈ (step table statement).1.rows, task.id = id ∧
        lower task.nodeFqdn = lower nodeFqdn ∧ task.state = if ok then .done else .failed := by
  cases statement with
  | enqueue =>
      simp only [step] at h
      split at h <;> exact absurd h List.not_mem_nil
  | claim => simp [step] at h
  | finish now taskId host okay output =>
      cases hfinish : finish table now taskId host okay output with
      | error raised =>
          simp only [step, hfinish] at h
          exact absurd h List.not_mem_nil
      | ok result =>
          obtain ⟨next, found⟩ := result
          simp only [step, hfinish, List.mem_map, Option.mem_toList] at h ⊢
          obtain ⟨report, hreport, heq⟩ := h
          cases heq
          unfold finish at hfinish
          split at hfinish
          · cases hfinish
          · cases hfinish
            obtain ⟨task, htask, rfl⟩ := Option.map_eq_some_iff.mp hreport
            have hpicked := List.find?_some htask
            obtain ⟨hid, hown, hclaimed⟩ := reportable_iff.mp hpicked
            have hrow := List.mem_of_find?_eq_some htask
            refine ⟨⟨task, hrow, rfl, hclaimed⟩,
              _, Table.mem_update.mpr ⟨task, hrow, rfl⟩, ?_⟩
            rw [if_pos hpicked]
            exact ⟨rfl, hown, rfl⟩
  | progress =>
      simp only [step] at h
      split at h <;> exact absurd h List.not_mem_nil
  | reap => simp [step] at h
  | renamed => exact absurd h List.not_mem_nil

theorem finishedId_step_nodup (statement : Statement) :
    ((step table statement).2.filterMap Event.finishedId).Nodup := by
  cases statement with
  | enqueue =>
      simp only [step]
      split <;> exact List.nodup_nil
  | claim => simp [step, List.filterMap_map, Function.comp_def, Event.finishedId]
  | finish =>
      simp only [step]
      split
      · rename_i found _
        cases found <;> simp [Event.finishedId]
      · exact List.nodup_nil
  | progress =>
      simp only [step]
      split <;> exact List.nodup_nil
  | reap => simp [step, List.filterMap_map, Function.comp_def, Event.finishedId]
  | renamed => exact List.nodup_nil

/-- The task is there and has ended. -/
def Table.Ended (table : Table) (id : String) : Prop :=
  ∃ task ∈ table.rows, task.id = id ∧ task.state.Terminal

omit [Runtime] in
theorem mem_finishedIds {events : List Event} :
    id ∈ events.filterMap Event.finishedId ↔ ∃ nodeFqdn ok, .finished id nodeFqdn ok ∈ events := by
  rw [List.mem_filterMap]
  constructor
  · rintro ⟨event, hevent, heq⟩
    cases event <;> cases heq
    exact ⟨_, _, hevent⟩
  · rintro ⟨nodeFqdn, ok, hevent⟩
    exact ⟨_, hevent, rfl⟩

theorem finished_spendsOnce :
    Steps.SpendsOnce step (fun _ => True) Event.finishedId Table.Ended where
  once table statement _ := finishedId_step_nodup statement
  fresh table statement _ id hid := by
    obtain ⟨nodeFqdn, ok, hevent⟩ := mem_finishedIds.mp hid
    obtain ⟨⟨task, htask, heq, hclaimed⟩, _⟩ := finished_step hevent
    rintro ⟨other, hother, heq', hended⟩
    rw [Table.eq_of_id hother htask (heq'.trans heq.symm), hclaimed] at hended
    exact absurd hended (by decide)
  spends table statement _ id hid := by
    obtain ⟨nodeFqdn, ok, hevent⟩ := mem_finishedIds.mp hid
    obtain ⟨_, task, htask, heq, _, hstate⟩ := finished_step hevent
    refine ⟨task, htask, heq, ?_⟩
    rw [hstate]
    cases ok <;> decide
  stays table statement _ id := by
    rintro ⟨task, htask, hid, hended⟩
    obtain ⟨later, hlater, hgrew⟩ := grows_step table statement task htask
    refine ⟨later, hlater, hgrew.id.trans hid, ?_⟩
    rw [(hgrew.ended hended).1]
    exact hended

omit [Runtime] in
theorem done_update {picks : Task → Bool} {change : Task → Task}
    (h : ∀ task, picks task = true → (change task).state = .done → task.state = .done)
    (htask : task ∈ (table.update picks change).rows) (hdone : task.state = .done) :
    ∃ earlier ∈ table.rows, earlier.id = task.id ∧ earlier.state = .done := by
  obtain ⟨earlier, hrow, rfl⟩ := Table.mem_update.mp htask
  by_cases hpicks : picks earlier = true
  · rw [if_pos hpicks] at hdone ⊢
    exact ⟨earlier, hrow, rfl, h earlier hpicks hdone⟩
  · rw [if_neg hpicks] at hdone ⊢
    exact ⟨earlier, hrow, rfl, hdone⟩

theorem done_step
    (htask : task ∈ (step table statement).1.rows) (hdone : task.state = .done) :
    (∃ earlier ∈ table.rows, earlier.id = task.id ∧ earlier.state = .done) ∨
      ∃ nodeFqdn, .finished task.id nodeFqdn true ∈ (step table statement).2 := by
  cases statement with
  | enqueue now id nodeFqdn kind payload subject requestedBy =>
      cases henqueue : enqueue table now id nodeFqdn kind payload subject requestedBy with
      | error raised =>
          simp only [step, henqueue] at htask
          exact .inl ⟨task, htask, rfl, hdone⟩
      | ok next =>
          simp only [step, henqueue] at htask
          unfold enqueue at henqueue
          split at henqueue
          · cases henqueue
          · split at henqueue
            · cases henqueue
            · cases henqueue
              rcases List.mem_append.mp htask with hrow | hnew
              · exact .inl ⟨task, hrow, rfl, hdone⟩
              · obtain rfl := List.mem_singleton.mp hnew
                cases hdone
  | claim now locked nodeFqdn limit =>
      refine .inl (done_update ?_ htask hdone)
      exact fun _ _ hstate => State.noConfusion hstate
  | finish now taskId nodeFqdn ok output =>
      cases huuid : Runtime.uuid taskId with
      | none =>
          simp only [step, finish, huuid] at htask
          exact .inl ⟨task, htask, rfl, hdone⟩
      | some id =>
          simp only [step, finish, huuid] at htask ⊢
          obtain ⟨earlier, hrow, rfl⟩ := Table.mem_update.mp htask
          by_cases hpicks : reportable id nodeFqdn earlier = true
          · rw [if_pos hpicks] at hdone ⊢
            cases ok with
            | false => cases hdone
            | true =>
                obtain ⟨found, hfound⟩ := Option.isSome_iff_exists.mp
                  (List.find?_isSome.mpr ⟨earlier, hrow, hpicks⟩)
                have hid := (reportable_iff.mp (List.find?_some hfound)).1
                refine .inr ⟨nodeFqdn, ?_⟩
                simp [hfound, hid, (reportable_iff.mp hpicks).1]
          · rw [if_neg hpicks] at hdone ⊢
            exact .inl ⟨earlier, hrow, rfl, hdone⟩
  | progress taskId nodeFqdn output =>
      cases huuid : Runtime.uuid taskId with
      | none =>
          simp only [step, taskProgress, huuid] at htask
          exact .inl ⟨task, htask, rfl, hdone⟩
      | some id =>
          simp only [step, taskProgress, huuid] at htask
          refine .inl (done_update ?_ htask hdone)
          exact fun _ _ hstate => hstate
  | reap now =>
      refine .inl (done_update ?_ htask hdone)
      exact fun _ _ hstate => State.noConfusion hstate
  | renamed newDn oldDn =>
      refine .inl (done_update ?_ htask hdone)
      exact fun _ _ hstate => hstate

theorem pending_step (htask : task ∈ (step table statement).1.rows)
    (hpending : task.state = .pending) :
    (∃ earlier ∈ table.rows, earlier.id = task.id ∧ earlier.state = .pending ∧ earlier.kind = task.kind ∧
        earlier.payload = task.payload) ∨
      ∃ now nodeFqdn subject requestedBy,
        statement = .enqueue now task.id nodeFqdn task.kind task.payload subject requestedBy := by
  have hupdate : ∀ {picks : Task → Bool} {change : Task → Task},
      (∀ earlier, picks earlier = true → (change earlier).state = .pending →
        earlier.state = .pending ∧ (change earlier).kind = earlier.kind ∧
          (change earlier).payload = earlier.payload) →
      task ∈ (table.update picks change).rows →
      ∃ earlier ∈ table.rows, earlier.id = task.id ∧ earlier.state = .pending ∧ earlier.kind = task.kind ∧
        earlier.payload = task.payload := by
    intro picks change hchange hmem
    obtain ⟨earlier, hearlier, rfl⟩ := Table.mem_update.mp hmem
    by_cases hpicks : picks earlier = true
    · rw [if_pos hpicks] at hpending ⊢
      obtain ⟨hstate, hkind, hpayload⟩ := hchange earlier hpicks hpending
      exact ⟨earlier, hearlier, rfl, hstate, hkind.symm, hpayload.symm⟩
    · rw [if_neg hpicks] at hpending ⊢
      exact ⟨earlier, hearlier, rfl, hpending, rfl, rfl⟩
  have hsame : task ∈ table.rows → ∃ earlier ∈ table.rows, earlier.id = task.id ∧ earlier.state = .pending ∧
      earlier.kind = task.kind ∧ earlier.payload = task.payload :=
    fun hrow => ⟨task, hrow, rfl, hpending, rfl, rfl⟩
  cases statement with
  | enqueue now id nodeFqdn kind payload subject requestedBy =>
      cases henqueue : enqueue table now id nodeFqdn kind payload subject requestedBy with
      | error raised =>
          simp only [step, henqueue] at htask
          exact .inl (hsame htask)
      | ok next =>
          simp only [step, henqueue] at htask
          unfold enqueue at henqueue
          split at henqueue
          · cases henqueue
          · split at henqueue
            · cases henqueue
            · cases henqueue
              rcases List.mem_append.mp htask with hrow | hnew
              · exact .inl (hsame hrow)
              · obtain rfl := List.mem_singleton.mp hnew
                exact .inr ⟨_, _, _, _, rfl⟩
  | claim now locked nodeFqdn limit =>
      exact .inl (hupdate (fun _ _ hstate => State.noConfusion hstate) htask)
  | finish now taskId nodeFqdn ok output =>
      cases huuid : Runtime.uuid taskId with
      | none =>
          simp only [step, finish, huuid] at htask
          exact .inl (hsame htask)
      | some id =>
          simp only [step, finish, huuid] at htask
          refine .inl (hupdate (fun earlier _ hstate => ?_) htask)
          cases ok <;> exact State.noConfusion hstate
  | progress taskId nodeFqdn output =>
      cases huuid : Runtime.uuid taskId with
      | none =>
          simp only [step, taskProgress, huuid] at htask
          exact .inl (hsame htask)
      | some id =>
          simp only [step, taskProgress, huuid] at htask
          refine .inl (hupdate ?_ htask)
          exact fun _ _ hstate => ⟨hstate, rfl, rfl⟩
  | reap now => exact .inl (hupdate (fun _ _ hstate => State.noConfusion hstate) htask)
  | renamed newDn oldDn =>
      refine .inl (hupdate ?_ htask)
      exact fun _ _ hstate => ⟨hstate, rfl, rfl⟩

theorem claimed_step (statement : Statement) (htask : task ∈ table.rows)
    (hclaimed : task.state = .claimed) :
    ∃ later ∈ (step table statement).1.rows, later.id = task.id ∧ (later.state = .claimed ∨
      (∃ now taskId nodeFqdn ok output, statement = .finish now taskId nodeFqdn ok output ∧
        Runtime.uuid taskId = some task.id ∧ later.state = (if ok then .done else .failed) ∧
        later.output = some (shortened output)) ∨
      ∃ now, statement = .reap now ∧ stale now task = true) := by
  have hsame : ∀ {next : Table}, task ∈ next.rows → ∃ later ∈ next.rows, later.id = task.id ∧
      later.state = .claimed := fun hrow => ⟨task, hrow, rfl, hclaimed⟩
  have hupdate : ∀ {picks : Task → Bool} {change : Task → Task}, (picks task = true →
      (change task).state = .claimed) →
      ∃ later ∈ (table.update picks change).rows, later.id = task.id ∧ later.state = .claimed := by
    intro picks change hchange
    refine ⟨_, Table.mem_update.mpr ⟨task, htask, rfl⟩, ?_⟩
    by_cases hpicks : picks task = true
    · rw [if_pos hpicks]
      exact ⟨rfl, hchange hpicks⟩
    · rw [if_neg hpicks]
      exact ⟨rfl, hclaimed⟩
  have hstays : ∀ {next : Table}, (∃ later ∈ next.rows, later.id = task.id ∧ later.state = .claimed) →
      ∃ later ∈ next.rows, later.id = task.id ∧ (later.state = .claimed ∨
        (∃ now taskId nodeFqdn ok output, statement = .finish now taskId nodeFqdn ok output ∧
          Runtime.uuid taskId = some task.id ∧ later.state = (if ok then .done else .failed) ∧
          later.output = some (shortened output)) ∨
        ∃ now, statement = .reap now ∧ stale now task = true) := by
    rintro next ⟨later, hlater, hid, hstate⟩
    exact ⟨later, hlater, hid, .inl hstate⟩
  cases statement with
  | enqueue now id nodeFqdn kind payload subject requestedBy =>
      refine hstays ?_
      simp only [step, enqueue]
      split
      · rename_i hnext
        split at hnext
        · cases hnext
        · split at hnext
          · cases hnext
          · cases hnext
            exact hsame (List.mem_append_left _ htask)
      · exact hsame htask
  | claim now locked nodeFqdn limit => exact hstays (hupdate fun _ => rfl)
  | finish now taskId nodeFqdn ok output =>
      cases huuid : Runtime.uuid taskId with
      | none =>
          simp only [step, finish, huuid]
          exact ⟨task, htask, rfl, .inl hclaimed⟩
      | some id =>
          simp only [step, finish, huuid]
          refine ⟨_, Table.mem_update.mpr ⟨task, htask, rfl⟩, ?_⟩
          by_cases hpicks : reportable id nodeFqdn task = true
          · rw [if_pos hpicks]
            refine ⟨rfl, .inr (.inl ⟨now, taskId, nodeFqdn, ok, output, rfl, ?_, rfl, rfl⟩)⟩
            rw [huuid, (reportable_iff.mp hpicks).1]
          · rw [if_neg hpicks]
            exact ⟨rfl, .inl hclaimed⟩
  | progress taskId nodeFqdn output =>
      refine hstays ?_
      cases huuid : Runtime.uuid taskId with
      | none =>
          simp only [step, taskProgress, huuid]
          exact hsame htask
      | some id =>
          simp only [step, taskProgress, huuid]
          exact hupdate fun _ => hclaimed
  | reap now =>
      by_cases hstale : stale now task = true
      · refine ⟨_, Table.mem_update.mpr ⟨task, htask, rfl⟩, ?_⟩
        rw [if_pos hstale]
        exact ⟨rfl, .inr (.inr ⟨now, rfl, hstale⟩)⟩
      · exact hstays (hupdate fun hpicks => absurd hpicks hstale)
  | renamed newDn oldDn => exact hstays (hupdate fun _ => hclaimed)

theorem done_run {start : Table} {statements : List Statement}
    (htask : task ∈ (Steps.run step start statements).1.rows) (hdone : task.state = .done) :
    (∃ earlier ∈ start.rows, earlier.id = task.id ∧ earlier.state = .done) ∨
      ∃ nodeFqdn, .finished task.id nodeFqdn true ∈ (Steps.run step start statements).2 := by
  induction statements generalizing start with
  | nil => exact .inl ⟨task, htask, rfl, hdone⟩
  | cons statement statements ih =>
      rw [Steps.run_cons] at htask ⊢
      rcases ih htask with ⟨middle, hmiddle, hid, hdone'⟩ | ⟨nodeFqdn, hlater⟩
      · rw [← hid]
        rcases done_step hmiddle hdone' with hearlier | ⟨nodeFqdn, hhere⟩
        · exact .inl hearlier
        · exact .inr ⟨nodeFqdn, List.mem_append_left _ hhere⟩
      · exact .inr ⟨nodeFqdn, List.mem_append_right _ hlater⟩

/-- In any interleaving a task is handed out at most once, to its own machine; a task that has ended
stays as it ended; and at most one report of a task is taken, from its own machine, without which no
task is done. -/
theorem handled_once (start : Table) (before after : List Statement) :
    let middle := Steps.run step start before
    let last := Steps.run step start (before ++ after)
    (last.2.filterMap Event.handedId).Nodup ∧
    (∀ id nodeFqdn, .handed id nodeFqdn ∈ last.2 →
      ∃ task ∈ last.1.rows, task.id = id ∧ lower task.nodeFqdn = lower nodeFqdn) ∧
    (∀ task ∈ middle.1.rows, task.state.Terminal → ∃ later ∈ last.1.rows, later.id = task.id ∧
      later.state = task.state ∧ later.output = task.output ∧
        later.finishedAt = task.finishedAt) ∧
    (last.2.filterMap Event.finishedId).Nodup ∧
    (∀ id nodeFqdn ok, .finished id nodeFqdn ok ∈ last.2 →
      ∃ task ∈ last.1.rows, task.id = id ∧ lower task.nodeFqdn = lower nodeFqdn ∧
        task.state = if ok then .done else .failed) ∧
    ∀ task ∈ last.1.rows, task.state = .done →
      (∃ earlier ∈ start.rows, earlier.id = task.id ∧ earlier.state = .done) ∨
        ∃ nodeFqdn, .finished task.id nodeFqdn true ∈ last.2 := by
  intro middle last
  refine ⟨(handed_spendsOnce.run (fun _ _ _ => trivial) trivial _).1, ?_, ?_,
    (finished_spendsOnce.run (fun _ _ _ => trivial) trivial _).1, ?_, fun _ => done_run⟩
  · intro id nodeFqdn hevent
    obtain ⟨earlier, statement, later, heq, hhere⟩ := Steps.mem_run.mp hevent
    obtain ⟨task, htask, hid, hown⟩ := handed_own hhere
    have hgrows := (grows_step _ statement).trans (grows_after start earlier statement later)
    obtain ⟨task', htask', hgrew⟩ := hgrows task htask
    rw [← heq] at htask'
    refine ⟨task', htask', hgrew.id.trans hid, ?_⟩
    rw [hgrew.nodeFqdn, hown]
  · intro task htask hended
    have hgrows : Grows middle.1 last.1 := by
      simp only [last, Steps.run_append]
      exact grows_run _ _
    obtain ⟨task', htask', hgrew⟩ := hgrows task htask
    exact ⟨task', htask', hgrew.id, hgrew.ended hended⟩
  · intro id nodeFqdn ok hevent
    obtain ⟨earlier, statement, later, heq, hhere⟩ := Steps.mem_run.mp hevent
    obtain ⟨_, task, htask, hid, hown, hstate⟩ := finished_step hhere
    obtain ⟨task', htask', hgrew⟩ := grows_after start earlier statement later task htask
    have hended : task.state.Terminal := by
      rw [hstate]
      cases ok <;> decide
    rw [← heq] at htask'
    refine ⟨task', htask', hgrew.id.trans hid, ?_, ?_⟩
    · rw [hgrew.nodeFqdn, hown]
    · rw [(hgrew.ended hended).1, hstate]

end OpenDirectory.Tasks
