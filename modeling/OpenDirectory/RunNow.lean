import OpenDirectory.NodeTasks
import OpenDirectory.Text

/-! Requests of the console that wait for a machine. A request queues a task and reads its row until it
has ended or the time is up; a poll takes the task, its answer travels to the machine, the machine does
the work and reports it, perhaps twice. What a machine does is left open. -/

namespace OpenDirectory.RunNow

open Tasks

/-- What a machine has done and can still report. -/
structure Result where
  nodeFqdn : String
  id : String
  ok : Bool
  output : String

/-- The last bytes of a text; of a character that is cut the rest is unreadable. -/
def lastBytes (limit : Nat) : List Char → List Char
  | [] => []
  | c :: rest =>
      if (String.ofList (c :: rest)).utf8ByteSize ≤ limit then c :: rest
      else if (String.ofList rest).utf8ByteSize ≤ limit then
        List.replicate (limit - (String.ofList rest).utf8ByteSize) '\ufffd' ++ rest
      else lastBytes limit rest

def lastLines (text : String) (count : Nat) : String :=
  let lines := Text.split '\n' (Text.stripEnd (· = '\n') text)
  String.ofList (lastBytes 2000 (Text.join "\n" (lines.drop (lines.length - count))).toList)

theorem lastBytes_of_le {limit : Nat} {text : List Char} (h : (String.ofList text).utf8ByteSize ≤ limit) :
    lastBytes limit text = text := by
  cases text with
  | nil => rfl
  | cons c rest => rw [lastBytes, if_pos h]

theorem lastLines_of_line {text : String} {count : Nat} (hcount : 0 < count) (hline : '\n' ∉ text.toList)
    (h : text.utf8ByteSize ≤ 2000) : lastLines text count = text := by
  have hend : Text.stripEnd (· = '\n') text = text := by
    refine Text.stripEnd_eq_self fun c hc => decide_eq_false ?_
    rintro rfl
    exact hline (List.mem_of_getLast? hc)
  have hjoin : Text.join "\n" [text] = text := rfl
  unfold lastLines
  rw [hend, Text.split_eq_self hline]
  simp only [List.length_singleton, Nat.sub_eq_zero_of_le hcount, List.drop_zero, hjoin]
  rw [lastBytes_of_le (by rwa [String.ofList_toList]), String.ofList_toList]

/-- What a request is told at the end. -/
inductive Told where
  | succeeded (output : String)
  | failed (reason : String)
  | unanswered

structure World (μ : Type) where
  table : Table
  /-- The tasks that requests wait for. -/
  waiting : List String
  /-- The tasks in answers to polls, on their way to the machine that polled. -/
  carried : List (String × Handed)
  results : List Result
  machine : String → μ
  /-- The tasks that machines have begun, in their order. -/
  begun : List String

inductive Move (δ : Type) where
  | runNow (now : Nat) (id nodeFqdn kind : String) (payload : Value.Fields) (requestedBy : Option String)
  | enqueue (now : Nat) (id nodeFqdn kind : String) (payload : Value.Fields)
      (subject requestedBy : Option String)
  | poll (now : Nat) (locked : String → Bool) (nodeFqdn : String) (limit : Nat)
  /-- The answer to a poll does not arrive, or the agent stops before it comes to the task. -/
  | lose (id : String)
  | start (id : String) (chance : δ)
  | report (now : Nat) (id : String) (brief : Bool)
  | drop (id : String)
  | progress (id nodeFqdn output : String)
  | reap (now : Nat)
  | renamed (newDn oldDn : String)
  | look (id : String)
  | giveUp (id : String)

inductive Event where
  | told (id : String) (answer : Told)

namespace World

variable {μ δ : Type} [Runtime] (work : String → μ → Handed → δ → μ × Bool × String)

def carriedIds (world : World μ) : List String := world.carried.map fun entry => entry.2.id

def finished (world : World μ) (id : String) (answer : Told) : World μ × List Event :=
  ({ world with waiting := world.waiting.filter (· ≠ id) }, [.told id answer])

/-- The database makes the key of a new row, in its one spelling. -/
def queued (world : World μ) (statement : Statement) (id : String) : World μ :=
  if Runtime.uuid id = some id ∧ id ∉ world.table.rows.map Task.id then
    { world with table := (step world.table statement).1 }
  else world

def next (world : World μ) : Move δ → World μ × List Event
  | .runNow now id nodeFqdn kind payload requestedBy =>
      let queued := world.queued (.enqueue now id nodeFqdn kind payload none requestedBy) id
      if id ∈ queued.table.rows.map Task.id ∧ id ∉ world.table.rows.map Task.id then
        ({ queued with waiting := id :: queued.waiting }, [])
      else (queued, [])
  | .enqueue now id nodeFqdn kind payload subject requestedBy =>
      (world.queued (.enqueue now id nodeFqdn kind payload subject requestedBy) id, [])
  | .poll now locked nodeFqdn limit =>
      let (table, handed) := claim world.table now locked nodeFqdn limit
      ({ world with table, carried := world.carried ++ handed.map fun task => (nodeFqdn, task) }, [])
  | .lose id => ({ world with carried := world.carried.filter fun entry => entry.2.id ≠ id }, [])
  | .start id chance =>
      match world.carried.find? fun entry => entry.2.id = id with
      | none => (world, [])
      | some (nodeFqdn, task) =>
          let (after, ok, output) := work nodeFqdn (world.machine nodeFqdn) task chance
          ({ world with
            carried := world.carried.filter fun entry => entry.2.id ≠ id
            results := world.results ++ [⟨nodeFqdn, id, ok, output⟩]
            machine := Function.update world.machine nodeFqdn after
            begun := world.begun ++ [id] }, [])
  | .report now id brief =>
      match world.results.find? fun result => result.id = id with
      | none => (world, [])
      | some result =>
          let output := if brief then lastLines result.output 20 else result.output
          ({ world with table := (step world.table (.finish now id result.nodeFqdn result.ok output)).1 }, [])
  | .drop id => ({ world with results := world.results.filter fun result => result.id ≠ id }, [])
  | .progress id nodeFqdn output =>
      ({ world with table := (step world.table (.progress id nodeFqdn output)).1 }, [])
  | .reap now => ({ world with table := (step world.table (.reap now)).1 }, [])
  | .renamed newDn oldDn => ({ world with table := (step world.table (.renamed newDn oldDn)).1 }, [])
  | .look id =>
      if id ∈ world.waiting then
        match world.table.rows.find? fun task => task.id = id with
        | none => (world, [])
        | some task => match task.state with
          | .pending | .claimed => (world, [])
          | .failed => world.finished id
              (.failed (if task.output.getD "" = "" then "the machine did not say why" else task.output.getD ""))
          | .done => world.finished id (.succeeded (task.output.getD ""))
      else (world, [])
  | .giveUp id => if id ∈ world.waiting then world.finished id .unanswered else (world, [])

/-- A machine begins a task that a poll handed it, and begins it once; what a task that is done was done
by is a machine that began it. -/
structure Sound (world : World μ) : Prop where
  canonical : ∀ task ∈ world.table.rows, Runtime.uuid task.id = some task.id
  waitingQueued : ∀ id ∈ world.waiting, id ∈ world.table.rows.map Task.id
  carriedOnce : world.carriedIds.Nodup
  carriedTaken : ∀ id ∈ world.carriedIds, world.table.Taken id
  carriedNew : ∀ id ∈ world.carriedIds, id ∉ world.begun
  begunOnce : world.begun.Nodup
  begunTaken : ∀ id ∈ world.begun, world.table.Taken id
  resultsBegun : ∀ result ∈ world.results, result.id ∈ world.begun
  doneBegun : ∀ task ∈ world.table.rows, task.state = .done → task.id ∈ world.begun

variable {work} {world : World μ}

theorem mem_step {table : Table} {statement : Statement} {task : Task}
    (h : task ∈ (step table statement).1.rows) :
    task.id ∈ table.rows.map Task.id ∨ ∃ now nodeFqdn kind payload subject requestedBy,
      statement = .enqueue now task.id nodeFqdn kind payload subject requestedBy := by
  have hupdate : ∀ {picks : Task → Bool} {change : Task → Task}, task ∈ (table.update picks change).rows →
      task.id ∈ table.rows.map Task.id := by
    intro picks change hmem
    obtain ⟨earlier, hearlier, rfl⟩ := Table.mem_update.mp hmem
    refine List.mem_map.mpr ⟨earlier, hearlier, ?_⟩
    split <;> rfl
  cases statement with
  | enqueue now id nodeFqdn kind payload subject requestedBy =>
      simp only [step, enqueue] at h
      by_cases hkind : kind ∈ kinds
      · rw [if_neg (not_not.mpr hkind)] at h
        by_cases hid : id ∈ table.rows.map Task.id
        · rw [dif_pos hid] at h
          exact .inl (List.mem_map_of_mem h)
        · rw [dif_neg hid] at h
          rcases List.mem_append.mp h with hold | hnew
          · exact .inl (List.mem_map_of_mem hold)
          · obtain rfl := List.mem_singleton.mp hnew
            exact .inr ⟨_, _, _, _, _, _, rfl⟩
      · rw [if_pos hkind] at h
        exact .inl (List.mem_map_of_mem h)
  | claim => exact .inl (hupdate h)
  | finish now taskId nodeFqdn ok output =>
      simp only [step, finish] at h
      cases huuid : Runtime.uuid taskId with
      | none =>
          rw [huuid] at h
          exact .inl (List.mem_map_of_mem h)
      | some id =>
          rw [huuid] at h
          exact .inl (hupdate h)
  | progress taskId nodeFqdn output =>
      simp only [step, taskProgress] at h
      cases huuid : Runtime.uuid taskId with
      | none =>
          rw [huuid] at h
          exact .inl (List.mem_map_of_mem h)
      | some id =>
          rw [huuid] at h
          exact .inl (hupdate h)
  | reap => exact .inl (hupdate h)
  | renamed => exact .inl (hupdate h)

theorem Sound.queue (h : Sound world) {statement : Statement}
    (hcanonical : ∀ now id nodeFqdn kind payload subject requestedBy,
      statement = .enqueue now id nodeFqdn kind payload subject requestedBy → Runtime.uuid id = some id)
    (hfinished : ∀ id nodeFqdn, .finished id nodeFqdn true ∈ (step world.table statement).2 →
      id ∈ world.begun) :
    Sound { world with table := (step world.table statement).1 } where
  canonical task htask := by
    rcases mem_step htask with hold | ⟨_, _, _, _, _, _, heq⟩
    · obtain ⟨earlier, hearlier, hid⟩ := List.mem_map.mp hold
      exact hid ▸ h.canonical earlier hearlier
    · exact hcanonical _ _ _ _ _ _ _ heq
  waitingQueued id hid := by
    obtain ⟨task, htask, rfl⟩ := List.mem_map.mp (h.waitingQueued id hid)
    obtain ⟨later, hlater, hgrew⟩ := grows_step world.table statement task htask
    exact List.mem_map.mpr ⟨later, hlater, hgrew.id⟩
  carriedOnce := h.carriedOnce
  carriedTaken id hid := handed_spendsOnce.stays world.table statement trivial id (h.carriedTaken id hid)
  carriedNew := h.carriedNew
  begunOnce := h.begunOnce
  begunTaken id hid := handed_spendsOnce.stays world.table statement trivial id (h.begunTaken id hid)
  resultsBegun := h.resultsBegun
  doneBegun task htask hdone := by
    rcases done_step htask hdone with ⟨earlier, hearlier, hid, hdone'⟩ | ⟨nodeFqdn, hevent⟩
    · exact hid ▸ h.doneBegun earlier hearlier hdone'
    · exact hfinished task.id nodeFqdn hevent

theorem Sound.queued (h : Sound world) {now : Nat} {id nodeFqdn kind : String} {payload : Value.Fields}
    {subject requestedBy : Option String} :
    Sound (world.queued (.enqueue now id nodeFqdn kind payload subject requestedBy) id) := by
  unfold World.queued
  split
  · rename_i hid
    refine h.queue (fun _ _ _ _ _ _ _ heq => by cases heq; exact hid.1) fun id nodeFqdn hevent => ?_
    simp only [step] at hevent
    split at hevent <;> exact absurd hevent List.not_mem_nil
  · exact h

theorem Sound.poll (h : Sound world) (now : Nat) (locked : String → Bool) (nodeFqdn : String) (limit : Nat) :
    Sound (world.next work (.poll now locked nodeFqdn limit : Move δ)).1 := by
  have hqueue : Sound { world with table := (step world.table (.claim now locked nodeFqdn limit)).1 } :=
    h.queue (fun _ _ _ _ _ _ _ => nofun) (fun id nodeFqdn hevent => by simp [step] at hevent)
  have hids : ((claim world.table now locked nodeFqdn limit).2.map fun task => (nodeFqdn, task)).map
      (fun entry => entry.2.id) = ((claimable world.table locked nodeFqdn).take limit).map Task.id := by
    simp [claim, List.map_map, Function.comp_def]
  have hpending : ∀ id ∈ ((claimable world.table locked nodeFqdn).take limit).map Task.id,
      ¬ world.table.Taken id := by
    intro id hid
    obtain ⟨task, htask, rfl⟩ := List.mem_map.mp hid
    obtain ⟨hrow, _, hstate⟩ := mem_taken htask
    rintro ⟨other, hother, heq, htaken⟩
    exact htaken (Table.eq_of_id hother hrow heq ▸ hstate)
  have hcarried : (world.next work (.poll now locked nodeFqdn limit : Move δ)).1.carriedIds =
      world.carriedIds ++ ((claimable world.table locked nodeFqdn).take limit).map Task.id := by
    rw [← hids]
    exact List.map_append
  refine { hqueue with
    carriedOnce := ?_
    carriedTaken := ?_
    carriedNew := ?_ }
  · rw [hcarried, List.nodup_append]
    refine ⟨h.carriedOnce, nodup_taken _ _ _, fun id hid other hother heq => ?_⟩
    exact hpending other hother (heq ▸ h.carriedTaken id hid)
  · intro id hid
    rw [hcarried, List.mem_append] at hid
    rcases hid with hold | hnew
    · exact hqueue.carriedTaken id hold
    · have hspends := handed_spendsOnce.spends world.table (.claim now locked nodeFqdn limit) trivial id
      rw [handedId_step] at hspends
      exact hspends hnew
  · intro id hid hbegun
    rw [hcarried, List.mem_append] at hid
    rcases hid with hold | hnew
    · exact h.carriedNew id hold hbegun
    · exact hpending id hnew (h.begunTaken id hbegun)

omit [Runtime] in
theorem mem_carriedIds {entry : String × Handed} (h : entry ∈ world.carried) : entry.2.id ∈ world.carriedIds :=
  List.mem_map_of_mem h

theorem Sound.start (h : Sound world) (id : String) (chance : δ) :
    Sound (world.next work (.start id chance)).1 := by
  simp only [next]
  split
  · exact h
  · rename_i nodeFqdn task hfound
    have hid : task.id = id := by simpa using List.find?_some hfound
    have hcarried : id ∈ world.carriedIds := hid ▸ mem_carriedIds (List.mem_of_find?_eq_some hfound)
    have hsublist : ((world.carried.filter fun entry => entry.2.id ≠ id).map fun entry => entry.2.id).Sublist
        world.carriedIds := List.filter_sublist.map _
    refine { h with
      carriedOnce := h.carriedOnce.sublist hsublist
      carriedTaken := fun other hother => h.carriedTaken other (hsublist.subset hother)
      carriedNew := fun other hother hbegun => ?_
      begunOnce := ?_
      begunTaken := fun other hother => ?_
      resultsBegun := fun result hresult => ?_
      doneBegun := fun task htask hdone => List.mem_append_left _ (h.doneBegun task htask hdone) }
    · rcases List.mem_append.mp hbegun with hold | hnew
      · exact h.carriedNew other (hsublist.subset hother) hold
      · obtain rfl := List.mem_singleton.mp hnew
        obtain ⟨entry, hentry, heq⟩ := List.mem_map.mp hother
        exact absurd heq (by simpa using (List.mem_filter.mp hentry).2)
    · rw [List.nodup_append]
      refine ⟨h.begunOnce, List.nodup_singleton _, fun other hother single hsingle heq => ?_⟩
      obtain rfl := List.mem_singleton.mp hsingle
      exact h.carriedNew single hcarried (heq ▸ hother)
    · rcases List.mem_append.mp hother with hold | hnew
      · exact h.begunTaken other hold
      · obtain rfl := List.mem_singleton.mp hnew
        exact h.carriedTaken other hcarried
    · rcases List.mem_append.mp hresult with hold | hnew
      · exact List.mem_append_left _ (h.resultsBegun result hold)
      · obtain rfl := List.mem_singleton.mp hnew
        exact List.mem_append_right _ (List.mem_singleton_self id)

theorem Sound.report (h : Sound world) (now : Nat) (id : String) (brief : Bool) :
    Sound (world.next work (.report now id brief : Move δ)).1 := by
  simp only [next]
  split
  · exact h
  · rename_i result hfound
    have hid : result.id = id := by simpa using List.find?_some hfound
    have hbegun : id ∈ world.begun := hid ▸ h.resultsBegun result (List.mem_of_find?_eq_some hfound)
    refine h.queue (fun _ _ _ _ _ _ _ => nofun) fun other nodeFqdn hevent => ?_
    obtain ⟨task, htask, heq, _⟩ := h.begunTaken id hbegun
    have huuid : Runtime.uuid id = some id := heq ▸ h.canonical task htask
    simp only [step, finish, huuid, List.mem_map, Option.mem_toList, Option.map_eq_some_iff] at hevent
    obtain ⟨_, ⟨row, hrow, rfl⟩, hfinished⟩ := hevent
    obtain ⟨rfl, _⟩ := Event.finished.injEq .. ▸ hfinished
    exact (reportable_iff.mp (List.find?_some hrow)).1 ▸ hbegun

theorem Sound.less (h : Sound world) {after : World μ} (htable : after.table = world.table)
    (hwaiting : ∀ id ∈ after.waiting, id ∈ world.table.rows.map Task.id)
    (hbegun : after.begun = world.begun) (hcarried : after.carried.Sublist world.carried)
    (hresults : after.results.Sublist world.results) : Sound after := by
  have hids : after.carriedIds.Sublist world.carriedIds := hcarried.map _
  constructor
  · rw [htable]; exact h.canonical
  · rw [htable]; exact hwaiting
  · exact h.carriedOnce.sublist hids
  · rw [htable]; exact fun id hid => h.carriedTaken id (hids.subset hid)
  · rw [hbegun]; exact fun id hid => h.carriedNew id (hids.subset hid)
  · rw [hbegun]; exact h.begunOnce
  · rw [htable, hbegun]; exact h.begunTaken
  · rw [hbegun]; exact fun result hresult => h.resultsBegun result (hresults.subset hresult)
  · rw [htable, hbegun]; exact h.doneBegun

theorem Sound.finished (h : Sound world) (id : String) (answer : Told) : Sound (world.finished id answer).1 :=
  h.less rfl (fun other hother => h.waitingQueued other (List.mem_of_mem_filter hother)) rfl
    (List.Sublist.refl _) (List.Sublist.refl _)

theorem sound_next (h : Sound world) (move : Move δ) : Sound (world.next work move).1 := by
  cases move with
  | runNow now id nodeFqdn kind payload requestedBy =>
      simp only [next]
      split
      · rename_i hnew
        refine h.queued.less rfl (List.forall_mem_cons.mpr ⟨hnew.1, h.queued.waitingQueued⟩) rfl
          (List.Sublist.refl _) (List.Sublist.refl _)
      · exact h.queued
  | enqueue => exact h.queued
  | poll now locked nodeFqdn limit => exact h.poll now locked nodeFqdn limit
  | lose => exact h.less rfl h.waitingQueued rfl List.filter_sublist (List.Sublist.refl _)
  | start id chance => exact h.start id chance
  | report now id brief => exact h.report now id brief
  | drop => exact h.less rfl h.waitingQueued rfl (List.Sublist.refl _) List.filter_sublist
  | progress id nodeFqdn output =>
      refine h.queue (fun _ _ _ _ _ _ _ heq => Statement.noConfusion heq) fun id nodeFqdn hevent => ?_
      simp only [step] at hevent
      split at hevent <;> exact absurd hevent List.not_mem_nil
  | reap => exact h.queue (fun _ _ _ _ _ _ _ heq => Statement.noConfusion heq) fun id nodeFqdn hevent => by simp [step] at hevent
  | renamed =>
      exact h.queue (fun _ _ _ _ _ _ _ heq => Statement.noConfusion heq) fun id nodeFqdn hevent => absurd hevent List.not_mem_nil
  | look id =>
      simp only [next]
      split
      · split
        · exact h
        · split
          · exact h
          · exact h
          · exact h.finished id _
          · exact h.finished id _
      · exact h
  | giveUp id =>
      simp only [next]
      split
      · exact h.finished id _
      · exact h

/-- A machine may still come to a task: it waits in the queue, or the answer to the poll that took it is
on its way. -/
def Startable (world : World μ) (id : String) : Prop :=
  (∃ task ∈ world.table.rows, task.id = id ∧ task.state = .pending) ∨ id ∈ world.carriedIds

/-- A task in the queue that no machine comes to any more. -/
def Settled (world : World μ) (id : String) : Prop := world.table.Taken id ∧ id ∉ world.carriedIds

theorem queued_table (statement : Statement) (id : String) :
    (world.queued statement id).table = world.table ∨
      (world.queued statement id).table = (step world.table statement).1 := by
  unfold queued
  split
  · exact .inr rfl
  · exact .inl rfl

theorem queued_same (statement : Statement) (id : String) :
    (world.queued statement id).carried = world.carried ∧ (world.queued statement id).begun = world.begun := by
  unfold queued
  split <;> exact ⟨rfl, rfl⟩

theorem queued_machine (statement : Statement) (id : String) :
    (world.queued statement id).machine = world.machine := by
  unfold queued
  split <;> rfl

theorem next_table (move : Move δ) : (world.next work move).1.table = world.table ∨
    ∃ statement, (world.next work move).1.table = (step world.table statement).1 := by
  cases move with
  | runNow now id nodeFqdn kind payload requestedBy =>
      simp only [next]
      split <;> exact (queued_table _ _).imp_right fun h => ⟨_, h⟩
  | enqueue now id nodeFqdn kind payload subject requestedBy =>
      exact (queued_table _ _).imp_right fun h => ⟨_, h⟩
  | poll now locked nodeFqdn limit => exact .inr ⟨.claim now locked nodeFqdn limit, rfl⟩
  | start =>
      simp only [next]
      split <;> exact .inl rfl
  | report now id brief =>
      simp only [next]
      split
      · exact .inl rfl
      · exact .inr ⟨_, rfl⟩
  | progress | reap | renamed => exact .inr ⟨_, rfl⟩
  | lose | drop => exact .inl rfl
  | look id =>
      simp only [next]
      split
      · split
        · exact .inl rfl
        · split <;> exact .inl rfl
      · exact .inl rfl
  | giveUp id =>
      simp only [next]
      split <;> exact .inl rfl

theorem taken_next (move : Move δ) {id : String} (h : world.table.Taken id) :
    (world.next work move).1.table.Taken id := by
  rcases @next_table _ _ _ work world move with hsame | ⟨statement, hstep⟩
  · exact hsame.symm ▸ h
  · exact hstep.symm ▸ handed_spendsOnce.stays world.table statement trivial id h

/-- Only a poll puts a task on its way, and only one that was waiting; only a task on its way is begun. -/
theorem next_carried (move : Move δ) : (∀ id ∈ (world.next work move).1.carriedIds,
      id ∈ world.carriedIds ∨ ∃ task ∈ world.table.rows, task.id = id ∧ task.state = .pending) ∧
    (∀ id ∈ (world.next work move).1.begun, id ∈ world.begun ∨ id ∈ world.carriedIds) ∧
    ∀ id ∈ world.begun, id ∈ (world.next work move).1.begun := by
  have hsame : ∀ after : World μ, after.carried.Sublist world.carried → after.begun = world.begun →
      (∀ id ∈ after.carriedIds,
        id ∈ world.carriedIds ∨ ∃ task ∈ world.table.rows, task.id = id ∧ task.state = .pending) ∧
      (∀ id ∈ after.begun, id ∈ world.begun ∨ id ∈ world.carriedIds) ∧
      ∀ id ∈ world.begun, id ∈ after.begun := by
    intro after hcarried hbegun
    exact ⟨fun id hid => .inl ((hcarried.map _).subset hid), fun id hid => .inl (hbegun ▸ hid),
      fun id hid => hbegun ▸ hid⟩
  have hqueued : ∀ statement id, (world.queued statement id).carried.Sublist world.carried := by
    intro statement id
    rw [(queued_same statement id).1]
  cases move with
  | runNow now id nodeFqdn kind payload requestedBy =>
      simp only [next]
      split <;> exact hsame _ (hqueued _ _) (queued_same _ _).2
  | enqueue => exact hsame _ (hqueued _ _) (queued_same _ _).2
  | poll now locked nodeFqdn limit =>
      refine ⟨fun id hid => ?_, fun id hid => .inl hid, fun id hid => hid⟩
      obtain ⟨entry, hentry, rfl⟩ := List.mem_map.mp hid
      rcases List.mem_append.mp hentry with hold | hnew
      · exact .inl (mem_carriedIds hold)
      · obtain ⟨handed, hhanded, rfl⟩ := List.mem_map.mp hnew
        obtain ⟨task, htask, rfl⟩ := List.mem_map.mp hhanded
        obtain ⟨hrow, _, hstate⟩ := mem_taken htask
        exact .inr ⟨task, hrow, rfl, hstate⟩
  | lose => exact hsame _ List.filter_sublist rfl
  | start id chance =>
      simp only [next]
      split
      · exact hsame _ (List.Sublist.refl _) rfl
      · rename_i nodeFqdn task hfound
        refine ⟨fun other hother => .inl ((List.filter_sublist.map _).subset hother), fun other hother => ?_,
          fun other hother => List.mem_append_left _ hother⟩
        rcases List.mem_append.mp hother with hold | hnew
        · exact .inl hold
        · obtain rfl := List.mem_singleton.mp hnew
          have hid : task.id = other := by simpa using List.find?_some hfound
          exact .inr (hid ▸ mem_carriedIds (List.mem_of_find?_eq_some hfound))
  | report now id brief =>
      simp only [next]
      split <;> exact hsame _ (List.Sublist.refl _) rfl
  | drop | progress | reap | renamed => exact hsame _ (List.Sublist.refl _) rfl
  | look id =>
      simp only [next]
      split
      · split
        · exact hsame _ (List.Sublist.refl _) rfl
        · split <;> exact hsame _ (List.Sublist.refl _) rfl
      · exact hsame _ (List.Sublist.refl _) rfl
  | giveUp id =>
      simp only [next]
      split <;> exact hsame _ (List.Sublist.refl _) rfl

theorem settled_next {id : String} (h : Settled world id) (move : Move δ) :
    Settled (world.next work move).1 id ∧ (id ∈ (world.next work move).1.begun → id ∈ world.begun) := by
  obtain ⟨hcarried, hbegun, _⟩ := @next_carried _ _ _ work world move
  refine ⟨⟨taken_next move h.1, fun hid => ?_⟩, fun hid => (hbegun id hid).resolve_right h.2⟩
  rcases hcarried id hid with hold | ⟨task, htask, heq, hpending⟩
  · exact h.2 hold
  · obtain ⟨other, hother, heq', htaken⟩ := h.1
    exact htaken (Table.eq_of_id hother htask (heq'.trans heq.symm) ▸ hpending)

theorem told_succeeded {move : Move δ} {id output : String}
    (h : .told id (.succeeded output) ∈ (world.next work move).2) :
    ∃ task ∈ world.table.rows, task.id = id ∧ task.state = .done := by
  cases move with
  | runNow =>
      simp only [next] at h
      split at h <;> exact absurd h List.not_mem_nil
  | start | report =>
      simp only [next] at h
      split at h <;> exact absurd h List.not_mem_nil
  | enqueue | poll | lose | drop | progress | reap | renamed => exact absurd h List.not_mem_nil
  | look other =>
      simp only [next] at h
      split at h
      · split at h
        · exact absurd h List.not_mem_nil
        · rename_i task hfound
          split at h
          · exact absurd h List.not_mem_nil
          · exact absurd h List.not_mem_nil
          · cases List.mem_singleton.mp h
          · rename_i hdone
            cases List.mem_singleton.mp h
            exact ⟨task, List.mem_of_find?_eq_some hfound, by simpa using List.find?_some hfound, hdone⟩
      · exact absurd h List.not_mem_nil
  | giveUp other =>
      simp only [next] at h
      split at h
      · cases List.mem_singleton.mp h
      · exact absurd h List.not_mem_nil

variable (work) in
def run (start : World μ) (moves : List (Move δ)) : World μ × List Event :=
  Steps.run (fun world move => world.next work move) start moves

def initial (machine : String → μ) : World μ := ⟨.empty, [], [], [], machine, []⟩

omit [Runtime] in
theorem sound_initial [Runtime] (machine : String → μ) : Sound (initial machine) := by
  constructor <;> first | exact List.nodup_nil | exact fun _ h => absurd h List.not_mem_nil

theorem sound_run {start : World μ} (h : Sound start) (moves : List (Move δ)) :
    Sound (run work start moves).1 := by
  have hkeeps : ∀ (world : World μ) (move : Move δ), Sound world → Sound (world.next work move).1 :=
    fun _ move hsound => sound_next hsound move
  exact Steps.run_keeps hkeeps h moves

theorem begun_run {start : World μ} {id : String} (h : id ∈ start.begun) (moves : List (Move δ)) :
    id ∈ (run work start moves).1.begun := by
  have hkeeps : ∀ (world : World μ) (move : Move δ), id ∈ world.begun →
      id ∈ (world.next work move).1.begun := fun _ move hid => (next_carried move).2.2 id hid
  exact Steps.run_keeps hkeeps h moves

theorem settled_run {start : World μ} {id : String} (h : Settled start id) (moves : List (Move δ)) :
    id ∈ (run work start moves).1.begun → id ∈ start.begun := by
  induction moves generalizing start with
  | nil => exact fun hid => hid
  | cons move moves ih =>
      obtain ⟨hsettled, hbegun⟩ := @settled_next _ _ _ work start id h move
      exact fun hid => hbegun (ih hsettled hid)

/-- What holds of the requests of a run: no task is begun twice; one that succeeded was begun; and one
left without an answer is begun later only if it was waiting or on its way then. -/
structure AnsweredOnce (work : String → μ → Handed → δ → μ × Bool × String) (start : World μ)
    (moves : List (Move δ)) : Prop where
  once : (run work start moves).1.begun.Nodup
  succeeded : ∀ id output, .told id (.succeeded output) ∈ (run work start moves).2 →
    (run work start moves).1.begun.count id = 1
  unanswered : ∀ before after id, moves = before ++ .giveUp id :: after →
    id ∈ (run work start before).1.waiting → id ∈ (run work start moves).1.begun →
      id ∈ (run work start before).1.begun ∨ Startable (run work start before).1 id

/-- A request left without an answer is not begun later. -/
structure StaysFailed (work : String → μ → Handed → δ → μ × Bool × String) (start : World μ)
    (moves : List (Move δ)) : Prop where
  succeeded : ∀ id output, .told id (.succeeded output) ∈ (run work start moves).2 →
    (run work start moves).1.begun.count id = 1
  unanswered : ∀ before after id, moves = before ++ .giveUp id :: after →
    id ∈ (run work start before).1.waiting → id ∈ (run work start moves).1.begun →
      id ∈ (run work start before).1.begun

theorem run_split {start : World μ} (before after : List (Move δ)) :
    (run work start (before ++ after)).1 = (run work (run work start before).1 after).1 := by
  rw [run, Steps.run_append]
  rfl

/-- Whatever machines do, in every order of requests, polls, reports and readings. -/
theorem answered_once (work : String → μ → Handed → δ → μ × Bool × String) (machine : String → μ)
    (moves : List (Move δ)) : AnsweredOnce work (initial machine) moves where
  once := (sound_run (sound_initial machine) moves).begunOnce
  succeeded id output htold := by
    obtain ⟨before, move, after, rfl, hevent⟩ := Steps.mem_run.mp htold
    obtain ⟨task, htask, rfl, hdone⟩ := told_succeeded hevent
    have hsound : Sound (run work (initial machine) before).1 := sound_run (sound_initial machine) before
    have hbegun : task.id ∈ (run work (run work (initial machine) before).1 (move :: after)).1.begun :=
      begun_run (hsound.doneBegun task htask hdone) (move :: after)
    rw [← run_split] at hbegun
    exact List.count_eq_one_of_mem (sound_run (sound_initial machine) _).begunOnce hbegun
  unanswered before after id heq hwaiting hbegun := by
    subst heq
    rw [run_split] at hbegun
    by_contra hnot
    rw [not_or] at hnot
    obtain ⟨task, htask, hid⟩ := List.mem_map.mp
      ((sound_run (sound_initial machine) before).waitingQueued id hwaiting)
    have hsettled : Settled (run work (initial machine) before).1 id := by
      refine ⟨⟨task, htask, hid, fun hpending => hnot.2 (.inl ⟨task, htask, hid, hpending⟩)⟩, ?_⟩
      exact fun hcarried => hnot.2 (.inr hcarried)
    exact hnot.1 (settled_run hsettled _ hbegun)

def commandId : String := "5f3c1b52-9f1e-4a55-8a06-0c1d2e3f4a5b"

def collectedLate : List (Move Unit) := [
  .runNow 0 commandId "ws1" "shell-run" [("command", .str "reboot")] (some "anna"),
  .giveUp commandId,
  .poll 60000000 (fun _ => false) "ws1" 1,
  .start commandId ()]

omit [Runtime] in
theorem begun_after_failure :
    letI := Runtime.latin
    ¬ StaysFailed (fun _ _ _ _ => ((), true, "")) (initial fun _ => ()) collectedLate := by
  let _ := Runtime.latin
  intro h
  have hbegun := h.unanswered [.runNow 0 commandId "ws1" "shell-run" [("command", .str "reboot")] (some "anna")]
    _ commandId rfl (by decide +kernel) (by decide +kernel)
  exact absurd hbegun (by decide +kernel)

end World

end OpenDirectory.RunNow
