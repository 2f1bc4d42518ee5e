import OpenDirectory.NodeTasks
import OpenDirectory.Text

/-! What waits on a task. A role, a share, a printer, a tunnel, a collection, a backup and the
password manager show a state of their own while a machine works on them. Two paths end a task and
move on what waited: the machine's report, and the reaper when nobody is coming for the task any
more. -/

namespace OpenDirectory.Tasks

inductive Store where
  | serverRole
  | fileShare
  | printer
  | vpnTunnel
  | rdCollection
  | domainBackup
  | passwordManager
  deriving DecidableEq

/-- What the table's check lets a state be. The password manager's is free text. -/
def Store.allows (store : Store) (state : String) : Bool :=
  match store with
  | .serverRole => state ∈ ["pending", "installing", "active", "failed", "removing", "removed"]
  | .domainBackup => state ∈ ["running", "complete", "failed", "removed"]
  | .passwordManager => true
  | _ => state ∈ ["pending", "applying", "active", "failed"]

structure Record (store : Store) where
  state : String
  allowed : store.allows state = true
  lastError : Option String := none
  deriving DecidableEq

/-- The rows of each table by their ids. -/
abbrev Records := (store : Store) → String → Option (Record store)

namespace Records

variable (records : Records) (store : Store) (key : String)

def put (record : Option (Record store)) : Records :=
  Function.update records store (Function.update (records store) key record)

/-- An `UPDATE` of the row with an id, if it is in a state that the statement asks for. -/
def set (picks : String → Bool) (state : String) (lastError : Option String) :
    Except Raised Records :=
  match records store key with
  | none => .ok records
  | some record =>
      if !picks record.state then .ok records
      else if hallowed : store.allows state = true then
        .ok (records.put store key (some ⟨state, hallowed, lastError⟩))
      else .error .databaseError

variable {records store key}

@[simp] theorem put_same (record : Option (Record store)) :
    records.put store key record store key = record := by
  simp [put]

theorem put_other {record : Option (Record store)} {other : Store} {key' : String}
    (h : ¬ (other = store ∧ key' = key)) :
    records.put store key record other key' = records other key' := by
  by_cases hstore : other = store
  · subst hstore
    simp [put, Function.update_of_ne fun hkey => h ⟨rfl, hkey⟩]
  · simp [put, Function.update_of_ne hstore]

end Records

/-- The tables of the kinds that say only whether applying something went well. -/
def finishedByTask : List (String × Store) := [
  ("share-apply", .fileShare), ("printer-apply", .printer), ("vpn-apply", .vpnTunnel),
  ("rd-broker-apply", .rdCollection), ("rd-host-apply", .rdCollection),
  ("passwords-apply", .passwordManager)]

def lineBreak (c : Char) : Bool :=
  c ∈ ['\n', '\r', '\x0b', '\x0c', '\x1c', '\x1d', '\x1e', '\u0085', '\u2028', '\u2029']

/-- `text.splitlines()` -/
def splitlines : List Char → List (List Char)
  | [] => []
  | '\r' :: '\n' :: rest => [] :: splitlines rest
  | c :: rest =>
      if lineBreak c then [] :: splitlines rest
      else match splitlines rest with
        | [] => [[c]]
        | line :: lines => (c :: line) :: lines

section

variable [Runtime]

/-- The tail of what a task printed, none when that is empty. -/
def detailOf (output : String) : Option String :=
  let lines := (splitlines (Text.strip Runtime.blank output).toList).map String.ofList
  let tail := Text.join "\n" (lines.drop (lines.length - 40))
  let kept := String.ofList (tail.toList.drop (tail.length - 4000))
  if kept = "" then none else some kept

/-- Where the UUID in a subject points: the database refuses a text that is none. -/
def setUuid (records : Records) (store : Store) (subject : String) (picks : String → Bool)
    (state : String) (lastError : Option String) : Except Raised Records :=
  match Runtime.uuid subject with
  | none => .error .databaseError
  | some key => records.set store key picks state lastError

/-- How what a task was for moves to its new state once its machine has reported. -/
def report (records : Records) (kind : String) (subject : Option String) (ok : Bool)
    (output : String) : Except Raised Records :=
  let detail := detailOf output
  let lastError := if ok then none else detail
  match subject with
  | none | some "" => .ok records
  | some subject =>
      if kind = "role-remove" then
        setUuid records .serverRole subject (fun _ => true) (if ok then "removed" else "active")
          lastError
      else if kind = "role-install" then
        setUuid records .serverRole subject (fun _ => true) (if ok then "active" else "failed")
          lastError
      else if kind = "domain-backup" then
        setUuid records .domainBackup subject (fun _ => true) (if ok then "complete" else "failed")
          lastError
      else match Dict.get finishedByTask kind with
        | none => .ok records
        | some .passwordManager =>
            if subject = "password-manager" then
              records.set .passwordManager "1" (fun _ => true)
                (if ok then "applied" else detail.getD "failed") none
            else .ok records
        | some store =>
            setUuid records store subject (fun _ => true) (if ok then "active" else "failed")
              lastError

def releaseRow (records : Records) (row : Reaped) : Except Raised Records :=
  match row.subject with
  | none | some "" => .ok records
  | some subject =>
      if row.kind = "role-install" then
        setUuid records .serverRole subject (· = "installing") "failed" (some row.output)
      else if row.kind = "share-apply" then
        setUuid records .fileShare subject (· = "installing") "failed" (some row.output)
      else .ok records

/-- The reaper's loop over the tasks it failed, and whether it came through: a statement the database
refuses ends it. -/
def release : Records → List Reaped → Records × Bool
  | records, [] => (records, true)
  | records, row :: rows =>
      match releaseRow records row with
      | .ok next => release next rows
      | .error _ => (records, false)

end

/-- The kinds that a record waits on, with the state the routes that queue one leave it in. -/
def waits : List (String × Store × String) := [
  ("role-install", .serverRole, "installing"), ("role-remove", .serverRole, "removing"),
  ("share-apply", .fileShare, "applying"), ("printer-apply", .printer, "applying"),
  ("vpn-apply", .vpnTunnel, "applying"), ("rd-host-apply", .rdCollection, "applying"),
  ("rd-broker-apply", .rdCollection, "applying"), ("domain-backup", .domainBackup, "running"),
  ("passwords-apply", .passwordManager, "applying")]

structure World where
  queue : Table
  records : Records

section

variable [Runtime]

/-- The record that a task is for. -/
def waitingKey (store : Store) (subject : Option String) : Option String :=
  match store, subject with
  | _, none | _, some "" => none
  | .passwordManager, some subject => if subject = "password-manager" then some "1" else none
  | _, some subject => Runtime.uuid subject

namespace World

inductive Move where
  | statement (statement : Statement)
  | write (store : Store) (key : String) (record : Option (Record store))
  | report (now : Nat) (taskId nodeFqdn : String) (ok : Bool) (output : String)
  | reap (now : Nat)

def reap (world : World) (now : Nat) : World × Bool :=
  let (queue, reaped) := Tasks.reap world.queue now
  let (records, through) := release world.records reaped
  (⟨queue, records⟩, through)

/-- What the console writes comes at any time, as do the statements of requests that get no
further. -/
def next (world : World) : Move → World
  | .statement statement => { world with queue := (step world.queue statement).1 }
  | .write store key record => { world with records := world.records.put store key record }
  | .report now taskId nodeFqdn ok output =>
      match finish world.queue now taskId nodeFqdn ok output with
      | .ok (queue, some task) =>
          ⟨queue, match report world.records task.kind task.subject ok output with
            | .ok records => records
            | .error _ => world.records⟩
      | .ok (_, none) | .error _ => world
  | .reap now => (world.reap now).1

end World

/-- A task in the queue, and the record that waits on it. -/
structure Waiting (world : World) (task : Task) (store : Store) (key pending : String) : Prop where
  queued : task ∈ world.queue.rows
  kind : (task.kind, store, pending) ∈ waits
  subject : waitingKey store task.subject = some key
  pending : ∃ record, world.records store key = some record ∧ record.state = pending

/-- The record waits no longer, and says what it would say had the machine reported failure. -/
def MovedOn (world after : World) (task : Task) (store : Store) (key pending : String) : Prop :=
  ∃ record, after.records store key = some record ∧ record.state ≠ pending ∧
    ∀ output, ∃ reported, report world.records task.kind task.subject false output = .ok reported ∧
      (reported store key).map Record.state = some record.state

variable {records next : Records} {store : Store} {key : String}

omit [Runtime] in
theorem set_cases {picks : String → Bool} {state : String} {lastError : Option String}
    (h : records.set store key picks state lastError = .ok next) :
    next = records ∨ ∃ record allowed, records store key = some record ∧
      picks record.state = true ∧ next = records.put store key (some ⟨state, allowed, lastError⟩) := by
  unfold Records.set at h
  split at h
  · cases h
    exact .inl rfl
  · rename_i record hrecord
    split at h
    · cases h
      exact .inl rfl
    · rename_i hpicks
      split at h
      · rename_i hallowed
        cases h
        exact .inr ⟨record, hallowed, hrecord, by simpa using hpicks, rfl⟩
      · cases h

theorem setUuid_ok {subject state : String} {picks : String → Bool} {lastError : Option String}
    (h : setUuid records store subject picks state lastError = .ok next) :
    ∃ key, Runtime.uuid subject = some key ∧
      records.set store key picks state lastError = .ok next := by
  unfold setUuid at h
  split at h
  · cases h
  · rename_i key hkey
    exact ⟨key, hkey, h⟩

theorem releaseRow_cases {row : Reaped} (h : releaseRow records row = .ok next) :
    next = records ∨ ∃ store key record allowed, (store = .serverRole ∨ store = .fileShare) ∧
      records store key = some record ∧ record.state = "installing" ∧
        next = records.put store key (some ⟨"failed", allowed, some row.output⟩) := by
  unfold releaseRow at h
  split at h
  · cases h
    exact .inl rfl
  · cases h
    exact .inl rfl
  · split at h
    · obtain ⟨key, _, hset⟩ := setUuid_ok h
      rcases set_cases hset with hsame | ⟨record, allowed, hrecord, hpicks, hnext⟩
      · exact .inl hsame
      · exact .inr ⟨_, key, record, allowed, .inl rfl, hrecord, of_decide_eq_true hpicks, hnext⟩
    · split at h
      · obtain ⟨key, _, hset⟩ := setUuid_ok h
        rcases set_cases hset with hsame | ⟨record, allowed, hrecord, hpicks, hnext⟩
        · exact .inl hsame
        · exact .inr ⟨_, key, record, allowed, .inr rfl, hrecord, of_decide_eq_true hpicks, hnext⟩
      · cases h
        exact .inl rfl

theorem releaseRow_keeps {row : Reaped} (h : releaseRow records row = .ok next)
    {record : Record store} (hrecord : records store key = some record)
    (hother : ¬ (store = .serverRole ∧ record.state = "installing")) :
    next store key = some record := by
  rcases releaseRow_cases h with rfl | ⟨store', key', record', allowed, hstore, hrow, hstate, rfl⟩
  · exact hrecord
  · by_cases hsame : store = store' ∧ key = key'
    · obtain ⟨rfl, rfl⟩ := hsame
      obtain rfl := Option.some.inj (hrecord.symm.trans hrow)
      rcases hstore with rfl | rfl
      · exact absurd ⟨rfl, hstate⟩ hother
      · have hallowed := record.allowed
        rw [hstate] at hallowed
        exact absurd hallowed (by decide)
    · rw [Records.put_other hsame]
      exact hrecord

theorem release_keeps (rows : List Reaped) {record : Record store}
    (hrecord : records store key = some record)
    (hother : ¬ (store = .serverRole ∧ record.state = "installing")) :
    (release records rows).1 store key = some record := by
  induction rows generalizing records with
  | nil => exact hrecord
  | cons row rows ih =>
      unfold release
      cases hrow : releaseRow records row with
      | error raised => exact hrecord
      | ok next => exact ih (releaseRow_keeps hrow hrecord hother)

theorem releaseRow_role {row : Reaped} (h : releaseRow records row = .ok next)
    {record : Record .serverRole} (hrecord : records .serverRole key = some record) :
    ∃ after, next .serverRole key = some after ∧
      (after = record ∨ after.state = "failed") ∧
      (row.kind = "role-install" → waitingKey .serverRole row.subject = some key →
        record.state = "installing" → after.state = "failed") := by
  by_cases hown : row.kind = "role-install" ∧ waitingKey .serverRole row.subject = some key ∧
      record.state = "installing"
  · obtain ⟨hkind, hkey, hstate⟩ := hown
    unfold releaseRow at h
    unfold waitingKey at hkey
    split at h
    · simp_all
    · simp_all
    · rename_i subject hne hsubject
      rw [if_pos hkind] at h
      have huuid : Runtime.uuid subject = some key := by simp_all
      obtain ⟨key', hkey', hset⟩ := setUuid_ok h
      obtain rfl := Option.some.inj (hkey'.symm.trans huuid)
      unfold Records.set at hset
      rw [hrecord] at hset
      simp only [hstate, decide_true, Bool.not_true, Bool.false_eq_true, if_false] at hset
      rw [dif_pos (by decide)] at hset
      cases hset
      exact ⟨_, Records.put_same _, .inr rfl, fun _ _ _ => rfl⟩
  · rcases releaseRow_cases h with rfl | ⟨store', key', record', allowed, hstore, hrow, hstate, rfl⟩
    · exact ⟨record, hrecord, .inl rfl, fun hkind hkey hstate => absurd ⟨hkind, hkey, hstate⟩ hown⟩
    · by_cases hsame : Store.serverRole = store' ∧ key = key'
      · obtain ⟨rfl, rfl⟩ := hsame
        exact ⟨_, Records.put_same _, .inr rfl, fun _ _ _ => rfl⟩
      · refine ⟨record, ?_, .inl rfl, fun hkind hkey hstate => absurd ⟨hkind, hkey, hstate⟩ hown⟩
        rw [Records.put_other hsame]
        exact hrecord

/-- The loop that comes through leaves a role failed if it was installing and a task of its own was
among those reaped. -/
theorem release_role {rows : List Reaped} (hthrough : (release records rows).2 = true)
    {record : Record .serverRole} (hrecord : records .serverRole key = some record)
    (h : record.state = "failed" ∨ record.state = "installing" ∧ ∃ row ∈ rows,
      row.kind = "role-install" ∧ waitingKey .serverRole row.subject = some key) :
    ∃ after, (release records rows).1 .serverRole key = some after ∧ after.state = "failed" := by
  induction rows generalizing records record with
  | nil =>
      rcases h with hfailed | ⟨_, row, hrow, _⟩
      · exact ⟨record, hrecord, hfailed⟩
      · exact absurd hrow List.not_mem_nil
  | cons row rows ih =>
      unfold release at hthrough ⊢
      cases hrow : releaseRow records row with
      | error raised =>
          rw [hrow] at hthrough
          cases hthrough
      | ok next =>
          rw [hrow] at hthrough
          obtain ⟨after, hafter, hstate, hown⟩ := releaseRow_role hrow hrecord
          refine ih hthrough hafter ?_
          rcases hstate with rfl | hfailed
          · rcases h with hfailed | ⟨hinstalling, other, hother, hkind, hkey⟩
            · exact .inl hfailed
            · rcases List.mem_cons.mp hother with rfl | hlater
              · exact .inl (hown hkind hkey hinstalling)
              · exact .inr ⟨hinstalling, other, hlater, hkind, hkey⟩
          · exact .inl hfailed

theorem report_role {subject : Option String} (hkey : waitingKey .serverRole subject = some key)
    {record : Record .serverRole} (hrecord : records .serverRole key = some record)
    (output : String) :
    ∃ reported, report records "role-install" subject false output = .ok reported ∧
      (reported .serverRole key).map Record.state = some "failed" := by
  unfold waitingKey at hkey
  split at hkey
  · cases hkey
  · cases hkey
  · contradiction
  · rename_i subject _ hne
    have hallowed : Store.serverRole.allows "failed" = true := by decide
    refine ⟨records.put .serverRole key (some ⟨"failed", hallowed, detailOf output⟩), ?_, ?_⟩
    · have hset : setUuid records .serverRole subject (fun _ => true) "failed" (detailOf output) =
          .ok (records.put .serverRole key (some ⟨"failed", hallowed, detailOf output⟩)) := by
        unfold setUuid
        rw [hkey]
        show records.set .serverRole key _ _ _ = _
        unfold Records.set
        rw [hrecord]
        simp [hallowed]
      simpa [report] using hset
    · rw [Records.put_same]
      rfl

/-- Whatever happened before, a record that waits on a task which the reaper then fails is moved on as
by the machine's own report of failure just when the task installs a role. -/
theorem movedOn_iff (start : World) (moves : List World.Move) (now : Nat) {task : Task}
    {store : Store} {key pending : String}
    (hwaiting : Waiting (moves.foldl World.next start) task store key pending)
    (hstale : stale now task = true)
    (hthrough : ((moves.foldl World.next start).reap now).2 = true) :
    MovedOn (moves.foldl World.next start) ((moves.foldl World.next start).reap now).1 task store
        key pending ↔
      task.kind = "role-install" := by
  generalize moves.foldl World.next start = world at *
  obtain ⟨record, hrecord, hpending⟩ := hwaiting.pending
  constructor
  · rintro ⟨after, hafter, hmoved, _⟩
    by_contra hkind
    have hother : ¬ (store = .serverRole ∧ record.state = "installing") := by
      rintro ⟨rfl, hstate⟩
      have hwaits := hwaiting.kind
      rw [← hpending, hstate] at hwaits
      simp [waits, hkind] at hwaits
    have hkept := release_keeps (Tasks.reap world.queue now).2 hrecord hother
    obtain rfl := Option.some.inj (hafter.symm.trans hkept)
    exact hmoved hpending
  · intro hkind
    have hwaits := hwaiting.kind
    rw [hkind] at hwaits
    obtain ⟨rfl, rfl⟩ : store = .serverRole ∧ pending = "installing" := by
      simpa [waits] using hwaits
    obtain ⟨after, hafter, hfailed⟩ := release_role hthrough hrecord (.inr ⟨hpending,
      ⟨task.id, task.kind, task.subject, unfinished task.state⟩,
      List.mem_map.mpr ⟨task, List.mem_filter.mpr ⟨hwaiting.queued, hstale⟩, rfl⟩, hkind,
      hwaiting.subject⟩)
    refine ⟨after, hafter, by rw [hfailed]; decide, fun output => ?_⟩
    rw [hkind, hfailed]
    exact report_role hwaiting.subject hrecord output

end

def subjectId : String := "5f3c1b52-9f1e-4a55-8a06-0c1d2e3f4a5b"

/-- A domain where one record waits on one task that its machine never collected. -/
def waitingWorld (kind : String) (store : Store) (record : Record store) : World where
  queue := Table.empty.insert
    { id := "t", nodeFqdn := "node.example.org", kind, payload := [], subject := some subjectId,
      createdAt := 0 } List.not_mem_nil
  records := Records.put (fun _ _ => none) store subjectId (some record)

def hourLater : Nat := 60 * 60 * 1000000

theorem waiting_waitingWorld (kind : String) {store : Store} (record : Record store)
    (hkind : (kind, store, record.state) ∈ waits) (hstore : store ≠ .passwordManager) :
    letI := Runtime.latin
    ∃ task, Waiting (waitingWorld kind store record) task store subjectId record.state ∧
      stale hourLater task = true ∧ task.kind = kind := by
  let _ := Runtime.latin
  refine ⟨_, ⟨List.mem_singleton_self _, hkind, ?_, record, ?_, rfl⟩, ?_, rfl⟩
  rotate_left
  · simp [waitingWorld]
  · simp [stale, hourLater, staleMinutes]
  have huuid : Runtime.uuid subjectId = some subjectId := by decide
  cases store <;> first | exact huuid | exact absurd rfl hstore

def installing : Record .serverRole := ⟨"installing", by decide, none⟩

def applying : Record .printer := ⟨"applying", by decide, none⟩

theorem movedOn_iff_role :
    letI := Runtime.latin
    ∃ task, MovedOn (waitingWorld "role-install" .serverRole installing)
      ((waitingWorld "role-install" .serverRole installing).reap hourLater).1 task .serverRole
      subjectId "installing" := by
  let _ := Runtime.latin
  obtain ⟨task, hwaiting, hstale, hkind⟩ := waiting_waitingWorld "role-install"
    installing (by decide) (by decide)
  exact ⟨task, (movedOn_iff (waitingWorld "role-install" .serverRole installing) [] hourLater
    hwaiting hstale (by decide)).mpr hkind⟩

/-- A printer whose machine never collects its task says it is applying for ever. -/
theorem printer_left_applying :
    letI := Runtime.latin
    let world := waitingWorld "printer-apply" .printer applying
    ∃ task, Waiting world task .printer subjectId "applying" ∧ stale hourLater task = true ∧
      (world.reap hourLater).2 = true ∧
      ((world.reap hourLater).1.queue.rows.map Task.state = [.failed]) ∧
      ¬ MovedOn world (world.reap hourLater).1 task .printer subjectId "applying" := by
  let _ := Runtime.latin
  obtain ⟨task, hwaiting, hstale, _⟩ := waiting_waitingWorld "printer-apply"
    applying (by decide) (by decide)
  refine ⟨task, hwaiting, hstale, by decide, by decide, ?_⟩
  rintro ⟨after, hafter, hmoved, _⟩
  have hkept : ((waitingWorld "printer-apply" .printer applying).reap hourLater).1.records .printer
      subjectId = some applying := by decide
  obtain rfl := Option.some.inj (hafter.symm.trans hkept)
  exact hmoved rfl

end OpenDirectory.Tasks
