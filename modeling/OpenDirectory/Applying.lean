import OpenDirectory.NodeTasks
import OpenDirectory.RemoteDesktop
import OpenDirectory.Tunnels

/-! What a share, a printer, a tunnel and a collection say about their own state. Every edit sets the record to
applying and queues tasks for the machines concerned; every report of such a task sets the record it is about. -/

namespace OpenDirectory.Applying

open Tasks (State)

/-- What a record is to make real. For a share and a printer, `settings` is what `as_task` makes of its columns. -/
inductive Definition where
  | share (nodeFqdn : String) (settings : Value.Fields)
  | printer (nodeFqdn : String) (settings : Value.Fields)
  | tunnel (row : Tunnels.Tunnel) (peers : List Tunnels.Peer)
  | collection (row : RemoteDesktop.Collection) (hosts : List RemoteDesktop.HostRow)
  deriving DecidableEq

inductive Table where
  | fileShare
  | printer
  | vpnTunnel
  | rdCollection
  deriving DecidableEq

def Definition.table : Definition → Table
  | .share .. => .fileShare
  | .printer .. => .printer
  | .tunnel .. => .vpnTunnel
  | .collection .. => .rdCollection

inductive Work where
  | shareApply (settings : Value.Fields)
  | shareRemove
  | printerApply (settings : Value.Fields)
  | printerRemove
  | vpnApply (payload : Tunnels.Payload)
  | rdHostApply (task : RemoteDesktop.HostTask)
  | rdBrokerApply (task : RemoteDesktop.BrokerTask)
  deriving DecidableEq

/-- `FINISHED_BY_TASK`: the table whose row learns how the work went. -/
def Work.finishes : Work → Option Table
  | .shareApply _ => some .fileShare
  | .printerApply _ => some .printer
  | .vpnApply _ => some .vpnTunnel
  | .rdHostApply _ => some .rdCollection
  | .rdBrokerApply _ => some .rdCollection
  | .shareRemove => none
  | .printerRemove => none

/-- Work for one machine. -/
structure Order where
  nodeFqdn : String
  work : Work
  deriving DecidableEq

def Order.ofRemoteDesktop : RemoteDesktop.Task → Order
  | .host nodeFqdn task => ⟨nodeFqdn, .rdHostApply task⟩
  | .broker nodeFqdn task => ⟨nodeFqdn, .rdBrokerApply task⟩

section
variable [Runtime]

/-- What the `_dispatch` of each kind queues. -/
def Definition.orders : Definition → List Order
  | .share nodeFqdn settings => [⟨nodeFqdn, .shareApply settings⟩]
  | .printer nodeFqdn settings => [⟨nodeFqdn, .printerApply settings⟩]
  | .tunnel row peers =>
      match Tunnels.asTask row peers with
      | .ok payload => [⟨row.nodeFqdn, .vpnApply payload⟩]
      | .error _ => []
  | .collection row hosts => (RemoteDesktop.dispatch ⟨[row], hosts⟩ row).map .ofRemoteDesktop

/-- What is queued when the record is deleted. -/
def Definition.withdrawal : Definition → List Order
  | .share nodeFqdn _ => [⟨nodeFqdn, .shareRemove⟩]
  | .printer nodeFqdn _ => [⟨nodeFqdn, .printerRemove⟩]
  | .tunnel row _ => [⟨row.nodeFqdn, .vpnApply (.remove row.name)⟩]
  | .collection row _ => (RemoteDesktop.brokers row).map fun broker =>
      ⟨broker, .rdBrokerApply (RemoteDesktop.brokerTask row [] [])⟩

inductive RecordState where
  | pending
  | applying
  | active
  | failed
  deriving DecidableEq

structure Record where
  id : Nat
  definition : Definition
  state : RecordState
  lastError : Option String
  deriving DecidableEq

structure Task where
  order : Order
  subject : Nat
  state : State

/-- A task is known by its place in the queue. -/
structure World where
  records : List Record
  tasks : List Task
  nextId : Nat

def initial : World := ⟨[], [], 0⟩

/-- The requests of the console, with the statements of one taken together, and those of the agents. -/
inductive Move where
  | create (definition : Definition)
  | edit (id : Nat) (definition : Definition)
  | delete (id : Nat)
  | claim (machine : String)
  | report (index : Nat) (machine : String) (ok : Bool) (detail : Option String)
  | reap (stale : List Nat)

def World.enqueue (world : World) (subject : Nat) (orders : List Order) : World :=
  { world with tasks := world.tasks ++ orders.map fun order => ⟨order, subject, .pending⟩ }

/-- The record an edit is about, which stays of its kind. -/
def Record.edited (id : Nat) (definition : Definition) (record : Record) : Bool :=
  record.id = id && record.definition.table = definition.table

/-- The record that learns how a task went. -/
def Record.finishedBy (task : Task) (record : Record) : Bool :=
  record.id = task.subject && some record.definition.table = task.order.work.finishes

def Record.finish (ok : Bool) (detail : Option String) (record : Record) : Record :=
  { record with
    state := if ok then .active else .failed
    lastError := if ok then none else detail }

/-- A task the machine may report on: its own, and not reported on before. -/
def Task.reportable (machine : String) (task : Task) : Bool :=
  Runtime.lower task.order.nodeFqdn = Runtime.lower machine && task.state = .claimed

def Task.unfinished (task : Task) : Bool := task.state = .pending || task.state = .claimed

def next (world : World) : Move → World
  | .create definition =>
      { world.enqueue world.nextId definition.orders with
        records := world.records ++ [⟨world.nextId, definition, .applying, none⟩]
        nextId := world.nextId + 1 }
  | .edit id definition =>
      if world.records.any (Record.edited id definition) then
        { world.enqueue id definition.orders with
          records := world.records.map fun record =>
            if record.edited id definition then { record with definition, state := .applying } else record }
      else world
  | .delete id =>
      match world.records.find? (·.id = id) with
      | none => world
      | some record =>
          { world.enqueue id record.definition.withdrawal with records := world.records.filter (·.id ≠ id) }
  | .claim machine =>
      -- the oldest of the machine's own that waits
      match world.tasks.findIdx? fun task =>
          Runtime.lower task.order.nodeFqdn = Runtime.lower machine && task.state = .pending with
      | none => world
      | some index => { world with tasks := world.tasks.modify index ({ · with state := .claimed }) }
  | .report index machine ok detail =>
      match world.tasks[index]?.filter (Task.reportable machine) with
      | none => world
      | some task =>
          { world with
            tasks := world.tasks.set index { task with state := if ok then .done else .failed }
            records := world.records.map fun record =>
              if record.finishedBy task then record.finish ok detail else record }
  | .reap stale =>
      -- the statements for what waited look for a state that none of these records is ever in
      { world with tasks := world.tasks.mapIdx fun index task =>
          if index ∈ stale ∧ task.unfinished then { task with state := .failed } else task }

/-- The machines concerned have reported success for all tasks of the record's definition. -/
def Applied (world : World) (record : Record) : Prop :=
  ∀ order ∈ record.definition.orders,
    ∃ task ∈ world.tasks, task.subject = record.id ∧ task.order = order ∧ task.state = .done

/-- Where a record says that it is active and without an error, its definition is applied. -/
def Right (world : World) : Prop :=
  ∀ record ∈ world.records, record.state = .active → record.lastError = none → Applied world record

/-- A success is reported only for a task of the definition the record has now, and after all other tasks of that
definition have succeeded. -/
def Timely (world : World) : Move → Prop
  | .report index machine ok _ => ok = true →
      ∀ task ∈ world.tasks[index]?.filter (Task.reportable machine), ∀ record ∈ world.records,
        record.finishedBy task = true → ∀ order ∈ record.definition.orders, order = task.order ∨
          ∃ other ∈ world.tasks, other.subject = record.id ∧ other.order = order ∧ other.state = .done
  | _ => True

variable {world world' : World}

theorem Applied.stay {record : Record} (h : Applied world record)
    (hstays : ∀ task ∈ world.tasks, task.state = .done → task ∈ world'.tasks) : Applied world' record := by
  intro order horder
  obtain ⟨task, htask, hsubject, hsame, hdone⟩ := h order horder
  exact ⟨task, hstays task htask hdone, hsubject, hsame, hdone⟩

variable {task : Task}

theorem Applied.enqueue {record : Record} (h : Applied world record) (subject : Nat) (orders : List Order) :
    Applied (world.enqueue subject orders) record :=
  h.stay fun _ htask _ => List.mem_append_left _ htask

end

end OpenDirectory.Applying
