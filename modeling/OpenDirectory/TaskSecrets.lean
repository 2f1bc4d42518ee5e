import OpenDirectory.TaskRelease

/-! What is left of the secrets that tasks carry. Two runs differ only in a secret: the payload a task is
queued with and what its machine answers are functions of it. Once a task has ended, its row and the
audit log are all there is to see. -/

namespace OpenDirectory.TaskSecrets

open Tasks

/-- A row of the audit log, as a report writes it. -/
structure Entry where
  actor : String
  kind : String
  ok : Bool
  subject : Option String
  detail : Option String
  deriving DecidableEq

structure Console where
  table : Table
  audit : List Entry

inductive Move where
  | enqueue (now : Nat) (id nodeFqdn kind : String) (payload : String → Value.Fields)
      (subject requestedBy : Option String)
  | report (now : Nat) (taskId nodeFqdn : String) (ok : Bool) (output : String → String) (recorded : Bool)
  | progress (taskId nodeFqdn : String) (output : String → String)
  | claim (now : Nat) (locked : String → Bool) (nodeFqdn : String) (limit : Nat)
  | reap (now : Nat)
  | renamed (newDn oldDn : String)
  | note (entry : Entry)

section

variable [Runtime] (secret : String)

def Move.statement : Move → Option Statement
  | enqueue now id nodeFqdn kind payload subject requestedBy =>
      some (.enqueue now id nodeFqdn kind (payload secret) subject requestedBy)
  | report now taskId nodeFqdn ok output _ => some (.finish now taskId nodeFqdn ok (output secret))
  | progress taskId nodeFqdn output => some (.progress taskId nodeFqdn (output secret))
  | claim now locked nodeFqdn limit => some (.claim now locked nodeFqdn limit)
  | reap now => some (.reap now)
  | renamed newDn oldDn => some (.renamed newDn oldDn)
  | note _ => none

/-- The row a report is taken for. -/
def reported (table : Table) (taskId nodeFqdn : String) : Option Task :=
  (Runtime.uuid taskId).bind fun id => table.rows.find? (reportable id nodeFqdn)

def Move.entries (table : Table) : Move → List Entry
  | report _ taskId nodeFqdn ok output recorded =>
      if recorded then (reported table taskId nodeFqdn).toList.map fun task =>
        ⟨nodeFqdn, task.kind, ok, task.subject, detailOf (output secret)⟩
      else []
  | note entry => [entry]
  | _ => []

def Console.next (console : Console) (move : Move) : Console where
  table := (move.statement secret).elim console.table fun statement => (step console.table statement).1
  audit := console.audit ++ move.entries secret console.table

end

/-- A task that is out still carries what it has to; of one that has ended all is seen. -/
def view (task : Task) : Task :=
  if task.state.Terminal then task else { task with payload := [], output := none }

@[simp] theorem view_id (task : Task) : (view task).id = task.id := by unfold view; split <;> rfl

@[simp] theorem view_nodeFqdn (task : Task) : (view task).nodeFqdn = task.nodeFqdn := by
  unfold view; split <;> rfl

@[simp] theorem view_kind (task : Task) : (view task).kind = task.kind := by unfold view; split <;> rfl

@[simp] theorem view_state (task : Task) : (view task).state = task.state := by unfold view; split <;> rfl

@[simp] theorem view_subject (task : Task) : (view task).subject = task.subject := by
  unfold view; split <;> rfl

@[simp] theorem view_requestedBy (task : Task) : (view task).requestedBy = task.requestedBy := by
  unfold view; split <;> rfl

@[simp] theorem view_createdAt (task : Task) : (view task).createdAt = task.createdAt := by
  unfold view; split <;> rfl

@[simp] theorem view_claimedAt (task : Task) : (view task).claimedAt = task.claimedAt := by
  unfold view; split <;> rfl

@[simp] theorem view_finishedAt (task : Task) : (view task).finishedAt = task.finishedAt := by
  unfold view; split <;> rfl

/-- What two rows that look the same have in common, whether they have ended or not. -/
structure Agree (task task' : Task) : Prop where
  id : task.id = task'.id
  nodeFqdn : task.nodeFqdn = task'.nodeFqdn
  kind : task.kind = task'.kind
  state : task.state = task'.state
  subject : task.subject = task'.subject
  requestedBy : task.requestedBy = task'.requestedBy
  createdAt : task.createdAt = task'.createdAt
  claimedAt : task.claimedAt = task'.claimedAt
  finishedAt : task.finishedAt = task'.finishedAt

variable {task task' : Task}

theorem agree_of_view (h : view task = view task') : Agree task task' where
  id := by simpa using congrArg Task.id h
  nodeFqdn := by simpa using congrArg Task.nodeFqdn h
  kind := by simpa using congrArg Task.kind h
  state := by simpa using congrArg Task.state h
  subject := by simpa using congrArg Task.subject h
  requestedBy := by simpa using congrArg Task.requestedBy h
  createdAt := by simpa using congrArg Task.createdAt h
  claimedAt := by simpa using congrArg Task.claimedAt h
  finishedAt := by simpa using congrArg Task.finishedAt h

theorem view_eq_iff : view task = view task' ↔
    Agree task task' ∧ (task.state.Terminal → task.payload = task'.payload ∧ task.output = task'.output) := by
  constructor
  · intro h
    have hagree := agree_of_view h
    refine ⟨hagree, fun hended => ?_⟩
    rw [view, if_pos hended, view, if_pos (hagree.state ▸ hended)] at h
    exact ⟨congrArg Task.payload h, congrArg Task.output h⟩
  · rintro ⟨hagree, hended⟩
    obtain ⟨_, _, _, payload, _, output, _, _, _, _, _⟩ := task
    obtain ⟨_, _, _, payload', _, output', _, _, _, _, _⟩ := task'
    obtain ⟨rfl, rfl, rfl, rfl, rfl, rfl, rfl, rfl, rfl⟩ := hagree
    unfold view
    split
    · rename_i h
      obtain ⟨rfl, rfl⟩ := hended h
      rfl
    · rfl

/-- Row by row, two queues look the same. -/
def Alike (table table' : Table) : Prop :=
  List.Forall₂ (fun task task' => view task = view task') table.rows table'.rows

variable {table table' : Table}

theorem alike_iff : Alike table table' ↔ table.rows.map view = table'.rows.map view := by
  rw [Alike, List.map_eq_map_iff_forall₂]

theorem Alike.refl (table : Table) : Alike table table := alike_iff.mpr rfl

theorem alike_update {picks picks' : Task → Bool} {change change' : Task → Task} (h : Alike table table')
    (hpicks : ∀ task task', view task = view task' → picks task = picks' task') :
    Alike (table.update picks change) (table'.update picks' change') ↔
      List.Forall₂ (fun task task' => picks task = true →
        view { change task with id := task.id } = view { change' task' with id := task'.id })
        table.rows table'.rows := by
  rw [Alike, Table.update, Table.update, List.forall₂_map_left_iff, List.forall₂_map_right_iff]
  unfold Alike at h
  generalize table.rows = rows, table'.rows = rows' at h ⊢
  induction h with
  | nil => simp
  | @cons task task' rows rows' hview _ ih =>
      rw [List.forall₂_cons, List.forall₂_cons, ih, ← hpicks task task' hview]
      refine and_congr_left fun _ => ?_
      cases picks task <;> simp [hview]

theorem alike_update_of {picks picks' : Task → Bool} {change change' : Task → Task} (h : Alike table table')
    (hpicks : ∀ task task', view task = view task' → picks task = picks' task')
    (hchange : ∀ task task', view task = view task' → picks task = true →
      view { change task with id := task.id } = view { change' task' with id := task'.id }) :
    Alike (table.update picks change) (table'.update picks' change') :=
  (alike_update h hpicks).mpr (List.Forall₂.imp (fun task task' => hchange task task') h)

theorem ids_view (rows : List Task) : (rows.map view).map Task.id = rows.map Task.id := by
  rw [List.map_map]
  exact List.map_congr_left fun task _ => view_id task

theorem alike_ids (h : Alike table table') : table.rows.map Task.id = table'.rows.map Task.id := by
  rw [← ids_view, alike_iff.mp h, ids_view]

theorem sortedBy_view (rows : List Task) :
    (rows.sortedBy Task.createdAt).map view = (rows.map view).sortedBy Task.createdAt := by
  unfold List.sortedBy
  apply List.map_insertionSort
  intro a _ b _
  rw [view_createdAt, view_createdAt]

variable [Runtime]

theorem reportable_view (id nodeFqdn : String) (h : view task = view task') :
    reportable id nodeFqdn task = reportable id nodeFqdn task' := by
  have hagree := agree_of_view h
  rw [reportable, reportable, hagree.id, hagree.nodeFqdn, hagree.state]

theorem claimable_view (table : Table) (locked : String → Bool) (nodeFqdn : String) :
    (claimable table locked nodeFqdn).map view =
      (((table.rows.map view).filter fun task =>
        lower task.nodeFqdn = lower nodeFqdn && task.state = .pending).sortedBy Task.createdAt).filter
          fun task => !locked task.id := by
  have hrows : ((fun task : Task => decide (lower task.nodeFqdn = lower nodeFqdn) &&
      decide (task.state = .pending)) ∘ view) = fun task : Task =>
        decide (lower task.nodeFqdn = lower nodeFqdn) && decide (task.state = .pending) := by
    funext task
    simp
  have hlocked : ((fun task : Task => !locked task.id) ∘ view) = fun task : Task => !locked task.id := by
    funext task
    simp
  rw [List.filter_map, hrows, ← sortedBy_view, List.filter_map, hlocked]
  rfl

theorem claimed_view (h : Alike table table') (locked : String → Bool) (nodeFqdn : String) (limit : Nat) :
    ((claimable table locked nodeFqdn).take limit).map Task.id =
      ((claimable table' locked nodeFqdn).take limit).map Task.id := by
  have hview : (claimable table locked nodeFqdn).map view = (claimable table' locked nodeFqdn).map view := by
    rw [claimable_view, claimable_view, alike_iff.mp h]
  rw [← ids_view, List.map_take, hview, ← List.map_take, ids_view]

theorem alike_claim (h : Alike table table') (now : Nat) (locked : String → Bool) (nodeFqdn : String)
    (limit : Nat) :
    Alike (claim table now locked nodeFqdn limit).1 (claim table' now locked nodeFqdn limit).1 := by
  refine alike_update_of h (fun task task' hview => ?_) fun task task' hview _ => ?_
  · rw [claimed_view h, (agree_of_view hview).id]
  · have hagree := agree_of_view hview
    refine view_eq_iff.mpr ⟨⟨hagree.id, hagree.nodeFqdn, hagree.kind, rfl, hagree.subject, hagree.requestedBy,
      hagree.createdAt, rfl, hagree.finishedAt⟩, fun hended => ?_⟩
    rcases hended with hended | hended <;> cases hended

omit [Runtime] in
theorem alike_insert (h : Alike table table') {row row' : Task} (hview : view row = view row')
    (hnew : row.id ∉ table.rows.map Task.id) (hnew' : row'.id ∉ table'.rows.map Task.id) :
    Alike (table.insert row hnew) (table'.insert row' hnew') := by
  rw [alike_iff, Table.insert, Table.insert, List.map_append, List.map_append, alike_iff.mp h,
    List.map_singleton, List.map_singleton, hview]

theorem alike_enqueue (h : Alike table table') (now : Nat) (id nodeFqdn kind : String)
    (payload payload' : Value.Fields) (subject requestedBy : Option String) :
    Alike (step table (.enqueue now id nodeFqdn kind payload subject requestedBy)).1
      (step table' (.enqueue now id nodeFqdn kind payload' subject requestedBy)).1 := by
  simp only [step, enqueue]
  by_cases hkind : kind ∈ kinds
  · rw [if_neg (not_not.mpr hkind), if_neg (not_not.mpr hkind)]
    by_cases hid : id ∈ table.rows.map Task.id
    · rw [dif_pos hid, dif_pos (alike_ids h ▸ hid)]
      exact h
    · rw [dif_neg hid, dif_neg (alike_ids h ▸ hid)]
      have hview : ∀ payload : Value.Fields, view
          { id, nodeFqdn, kind, payload, subject, requestedBy, createdAt := now } =
            { id, nodeFqdn, kind, payload := [], subject, requestedBy, createdAt := now } := fun _ => rfl
      exact alike_insert h ((hview payload).trans (hview payload').symm) hid (alike_ids h ▸ hid)
  · rw [if_pos hkind, if_pos hkind]
    exact h

theorem alike_renamed (h : Alike table table') (newDn oldDn : String) :
    Alike (renamed table newDn oldDn) (renamed table' newDn oldDn) := by
  refine alike_update_of h (fun task task' hview => ?_) fun task task' hview _ => ?_
  · rw [(agree_of_view hview).subject]
  · obtain ⟨hagree, hended⟩ := view_eq_iff.mp hview
    exact view_eq_iff.mpr ⟨⟨hagree.id, hagree.nodeFqdn, hagree.kind, hagree.state, rfl, hagree.requestedBy,
      hagree.createdAt, hagree.claimedAt, hagree.finishedAt⟩, hended⟩

theorem alike_progress (h : Alike table table') (taskId nodeFqdn output output' : String) :
    Alike (step table (.progress taskId nodeFqdn output)).1
      (step table' (.progress taskId nodeFqdn output')).1 := by
  simp only [step, taskProgress]
  cases Runtime.uuid taskId with
  | none => exact h
  | some id =>
      refine alike_update_of h (fun task task' => reportable_view id nodeFqdn) fun task task' hview hpicks => ?_
      obtain ⟨hagree, _⟩ := view_eq_iff.mp hview
      refine view_eq_iff.mpr ⟨⟨hagree.id, hagree.nodeFqdn, hagree.kind, hagree.state, hagree.subject,
        hagree.requestedBy, hagree.createdAt, hagree.claimedAt, hagree.finishedAt⟩, fun hended => ?_⟩
      have hclaimed := (reportable_iff.mp hpicks).2.2
      rcases hended with hended | hended <;> cases hclaimed.symm.trans hended

omit [Runtime] in
theorem view_ended_iff (h : view task = view task') {state : State} (hstate : state.Terminal)
    {output output' : Option String} {finishedAt : Option Nat} :
    view { task with state, output, finishedAt, payload := withoutPassword task.payload } =
        view { task' with state, output := output', finishedAt, payload := withoutPassword task'.payload } ↔
      withoutPassword task.payload = withoutPassword task'.payload ∧ output = output' := by
  obtain ⟨hagree, _⟩ := view_eq_iff.mp h
  rw [view_eq_iff]
  constructor
  · rintro ⟨_, hended⟩
    exact hended hstate
  · intro hsame
    exact ⟨⟨hagree.id, hagree.nodeFqdn, hagree.kind, rfl, hagree.subject, hagree.requestedBy,
      hagree.createdAt, hagree.claimedAt, rfl⟩, fun _ => hsame⟩

theorem reported_view (h : Alike table table') (taskId nodeFqdn : String) :
    (reported table taskId nodeFqdn).map view = (reported table' taskId nodeFqdn).map view := by
  unfold reported
  cases Runtime.uuid taskId with
  | none => rfl
  | some id =>
      have hpicks : reportable id nodeFqdn ∘ view = reportable id nodeFqdn := by
        funext task
        simp [reportable]
      have hfind : ∀ rows : List Task, (rows.find? (reportable id nodeFqdn)).map view =
          (rows.map view).find? (reportable id nodeFqdn) := by
        intro rows
        rw [List.find?_map, hpicks]
      rw [Option.bind_some, Option.bind_some, hfind, hfind, alike_iff.mp h]

section

variable (secret secret' : String)

def both (consoles : Console × Console) (move : Move) : Console × Console :=
  (consoles.1.next secret move, consoles.2.next secret' move)

/-- The queues look the same and the audit logs are the same. -/
structure Unseen (consoles : Console × Console) : Prop where
  table : Alike consoles.1.table consoles.2.table
  audit : consoles.1.audit = consoles.2.audit

def Good (consoles : Console × Console) (move : Move) : Prop :=
  Unseen (both secret secret' consoles move)

/-- What ends a task forgets the secret: it is in the payload under `password` alone, and neither the
part of an answer that is stored nor the part that is recorded shows it. -/
def Forgets (consoles : Console × Console) : Move → Prop
  | .report _ taskId nodeFqdn _ output recorded =>
      (∀ id, Runtime.uuid taskId = some id → List.Forall₂ (fun task task' =>
        reportable id nodeFqdn task = true → withoutPassword task.payload = withoutPassword task'.payload ∧
          shortened (output secret) = shortened (output secret')) consoles.1.table.rows consoles.2.table.rows) ∧
      (recorded = true → (reported consoles.1.table taskId nodeFqdn).isSome = true →
        detailOf (output secret) = detailOf (output secret'))
  | .reap now => List.Forall₂ (fun task task' =>
      stale now task = true → withoutPassword task.payload = withoutPassword task'.payload)
        consoles.1.table.rows consoles.2.table.rows
  | _ => True

variable {secret secret'} {consoles : Console × Console}

theorem alike_finish_iff (h : Alike table table') (now : Nat) (taskId nodeFqdn : String) (ok : Bool)
    (output output' : String) :
    Alike (step table (.finish now taskId nodeFqdn ok output)).1
        (step table' (.finish now taskId nodeFqdn ok output')).1 ↔
      ∀ id, Runtime.uuid taskId = some id → List.Forall₂ (fun task task' =>
        reportable id nodeFqdn task = true → withoutPassword task.payload = withoutPassword task'.payload ∧
          shortened output = shortened output') table.rows table'.rows := by
  simp only [step, finish]
  cases Runtime.uuid taskId with
  | none => exact iff_of_true h fun id hid => absurd hid.symm (Option.some_ne_none id)
  | some id =>
      have hstate : (if ok = true then State.done else State.failed).Terminal := by
        cases ok
        · exact .inr rfl
        · exact .inl rfl
      simp only [Option.some.injEq, forall_eq']
      refine (alike_update h fun task task' => reportable_view id nodeFqdn).trans ?_
      refine List.forall₂_congr_of h fun task task' hview => forall_congr' fun _ => ?_
      rw [← Option.some.injEq (shortened output)]
      exact view_ended_iff hview hstate

omit [Runtime] in
theorem alike_reap_iff (h : Alike table table') (now : Nat) :
    Alike (reap table now).1 (reap table' now).1 ↔ List.Forall₂ (fun task task' =>
      stale now task = true → withoutPassword task.payload = withoutPassword task'.payload)
        table.rows table'.rows := by
  have hpicks : ∀ task task', view task = view task' → stale now task = stale now task' := by
    intro task task' hview
    have hagree := agree_of_view hview
    rw [stale, stale, hagree.state, hagree.claimedAt, hagree.createdAt]
  refine (alike_update h hpicks).trans (List.forall₂_congr_of h fun task task' hview => forall_congr' fun _ => ?_)
  have hoff : ∀ P : Prop, P ∧ some (unfinished task.state) = some (unfinished task'.state) ↔ P := by
    intro P
    exact and_iff_left (by rw [(agree_of_view hview).state])
  rw [← hoff (withoutPassword task.payload = withoutPassword task'.payload)]
  exact view_ended_iff hview (.inr rfl)

theorem entries_report_iff (h : Alike table table') {now : Nat} {taskId nodeFqdn : String} {ok recorded : Bool}
    {output : String → String} :
    Move.entries secret table (.report now taskId nodeFqdn ok output recorded) =
        Move.entries secret' table' (.report now taskId nodeFqdn ok output recorded) ↔
      (recorded = true → (reported table taskId nodeFqdn).isSome = true →
        detailOf (output secret) = detailOf (output secret')) := by
  have hview := reported_view h taskId nodeFqdn
  unfold Move.entries
  cases recorded with
  | false => simp
  | true =>
      cases hfound : reported table taskId nodeFqdn with
      | none =>
          rw [hfound, Option.map_none, eq_comm, Option.map_eq_none_iff] at hview
          simp [hfound, hview]
      | some task =>
          rw [hfound, Option.map_some, eq_comm, Option.map_eq_some_iff] at hview
          obtain ⟨task', hfound', heq⟩ := hview
          have hagree := agree_of_view heq
          simp [hfound, hfound', hagree.kind, hagree.subject]

/-- In every step, both runs look the same afterwards exactly when a task that ends forgets the secret. -/
theorem good_iff (h : Unseen consoles) (move : Move) :
    Good secret secret' consoles move ↔ Forgets secret secret' consoles move := by
  have hgood : Good secret secret' consoles move ↔
      Alike (consoles.1.next secret move).table (consoles.2.next secret' move).table ∧
        move.entries secret consoles.1.table = move.entries secret' consoles.2.table := by
    constructor
    · rintro ⟨htable, haudit⟩
      have hentries : consoles.1.audit ++ move.entries secret consoles.1.table =
          consoles.1.audit ++ move.entries secret' consoles.2.table :=
        haudit.trans (congrArg (· ++ _) h.audit.symm)
      exact ⟨htable, List.append_cancel_left hentries⟩
    · rintro ⟨htable, hentries⟩
      exact ⟨htable, by rw [both, Console.next, Console.next, h.audit, hentries]⟩
  rw [hgood]
  cases move with
  | enqueue now id nodeFqdn kind payload subject requestedBy =>
      exact iff_of_true ⟨alike_enqueue h.table now id nodeFqdn kind _ _ subject requestedBy, rfl⟩ trivial
  | report now taskId nodeFqdn ok output recorded =>
      exact and_congr (alike_finish_iff h.table now taskId nodeFqdn ok _ _) (entries_report_iff h.table)
  | progress taskId nodeFqdn output =>
      exact iff_of_true ⟨alike_progress h.table taskId nodeFqdn _ _, rfl⟩ trivial
  | claim now locked nodeFqdn limit =>
      exact iff_of_true ⟨alike_claim h.table now locked nodeFqdn limit, rfl⟩ trivial
  | reap now => exact (and_iff_left rfl).trans (alike_reap_iff h.table now)
  | renamed newDn oldDn => exact iff_of_true ⟨alike_renamed h.table newDn oldDn, rfl⟩ trivial
  | note entry => exact iff_of_true ⟨h.table, rfl⟩ trivial

/-- Two runs that differ only in a secret look the same, in every state they reach, exactly when every
task they end forgets it. -/
theorem forgotten_iff (secret secret' : String) (start : Console) (moves : List Move) :
    Steps.Each (both secret secret') (Good secret secret') (start, start) moves ↔
      Steps.Each (both secret secret') (Forgets secret secret') (start, start) moves := by
  have hstart : Unseen (start, start) := ⟨.refl start.table, rfl⟩
  have hkeeps : ∀ consoles move, Unseen consoles → Good secret secret' consoles move →
      Unseen (both secret secret' consoles move) := fun _ _ _ hgood => hgood
  exact Steps.each_iff hkeeps (fun _ move h => good_iff h move) hstart moves

end

/-- What a disk is opened with to add a key to it. -/
def escrowPayload (device passphrase : String) : Value.Fields := [
  ("device", .str device), ("passphrase", .str passphrase)]

def assistPayload (username : String) (minutes : Int) (requestedBy session : String) : Value.Fields := [
  ("username", .str username), ("minutes", .int minutes), ("requested_by", .str requestedBy),
  ("session", .str session)]

/-- What a machine answers that shares a screen. -/
def assisted (password : String) (minutes : Nat) : String := s!"vnc 5900 - {password} {minutes}"

def quiet : Console := ⟨.empty, []⟩

def taskId : String := "5f3c1b52-9f1e-4a55-8a06-0c1d2e3f4a5b"

/-- The disk's passphrase is asked for, and nobody collects the task. -/
def uncollected : List Move := [
  .enqueue 0 taskId "ws1" "disk-escrow" (escrowPayload "/dev/sda3") none (some "anna"),
  .reap 3600000000]

/-- Somebody shares the screen. -/
def watched : List Move := [
  .enqueue 0 taskId "ws1" "remote-assist" (fun _ => assistPayload "bob" 30 "anna" "s1") none (some "anna"),
  .claim 1 (fun _ => false) "ws1" 1,
  .report 2 taskId "ws1" true (fun password => assisted password 30) true]

def payloadText (key : String) (task : Task) : Option String :=
  match Dict.get task.payload key with
  | some (.str text) => some text
  | _ => none

omit [Runtime] in
theorem secret_outlives :
    letI := Runtime.latin
    ¬ Steps.Each (both "open sesame" "mellon") (Good "open sesame" "mellon") (quiet, quiet) uncollected ∧
      ¬ Steps.Each (both "AbCdEfGhIjKl" "MnOpQrStUvWx") (Good "AbCdEfGhIjKl" "MnOpQrStUvWx") (quiet, quiet)
        watched := by
  let _ := Runtime.latin
  constructor
  · intro h
    have hrows := congrArg (List.map (payloadText "passphrase")) (alike_iff.mp h.2.1.table)
    exact absurd hrows (by decide +kernel)
  · intro h
    exact absurd h.2.2.1.audit (by decide +kernel)

end OpenDirectory.TaskSecrets
