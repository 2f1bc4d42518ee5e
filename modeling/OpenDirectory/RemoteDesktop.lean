import OpenDirectory.Lists
import OpenDirectory.Steps
import OpenDirectory.Text
import OpenDirectory.Value

/-! Collections of session hosts behind brokers. Every change of a collection tells its hosts on which port
their desktop is to listen and its brokers to which hosts they are to forward, as tasks that the agents of
those machines apply one after another. -/

namespace OpenDirectory.RemoteDesktop

variable [Runtime]

structure Collection where
  id : String
  name : String
  brokerFqdn : String
  brokerSecondaryFqdn : String := ""
  balanceMethod : String := "leastconn"
  idleMinutes : Nat := 60
  disconnectedMinutes : Nat := 120
  sharedState : Bool := true
  deriving DecidableEq

structure HostRow where
  collectionId : String
  nodeFqdn : String
  acceptsNew : Bool := true
  deriving DecidableEq

/-- The tables `rd_collection` and `rd_collection_host`. -/
structure Tables where
  collections : List Collection := []
  hosts : List HostRow := []

def Tables.rowsOf (tables : Tables) (id : String) : List HostRow :=
  (tables.hosts.filter fun row => row.collectionId = id).sortedBy HostRow.nodeFqdn

def Tables.hostsOf (tables : Tables) (id : String) : List String :=
  (tables.rowsOf id).map HostRow.nodeFqdn

/-- Every machine that fronts a collection, the primary first. -/
def brokers (row : Collection) : List String :=
  let primary := Text.strip Runtime.blank row.brokerFqdn
  let second := Text.strip Runtime.blank row.brokerSecondaryFqdn
  (if primary = "" then [] else [primary]) ++
    if second ≠ "" ∧ lower second ≠ lower primary then [second] else []

def defaultRdpPort : Nat := 3389

def hostBesideBrokerPort : Nat := 3390

def fronting (brokerFqdns : List String) : List String := (brokerFqdns.map lower).filter (· ≠ "")

def hostPort (nodeFqdn : String) (brokerFqdns : List String) : Nat :=
  if lower nodeFqdn ∈ fronting brokerFqdns then hostBesideBrokerPort else defaultRdpPort

/-- What a session host is told; what concerns the session and the profile is left out. -/
structure HostTask where
  collection : String
  rdpPort : Nat
  deriving DecidableEq

def hostTask (row : Collection) (nodeFqdn : String) : HostTask where
  collection := row.name
  rdpPort := hostPort nodeFqdn (brokers row)

structure Server where
  host : String
  port : Nat
  acceptsNew : Bool
  deriving DecidableEq

structure BrokerTask where
  collection : String
  hosts : List Server
  brokers : List String
  balanceMethod : String
  affinityMinutes : Nat
  deriving DecidableEq

def affinityMinutes (disconnected idle : Nat) : Nat :=
  if disconnected = 0 then 7 * 24 * 60 else disconnected + max idle 5 + 5

/-- Of several rows for one machine the last one says whether it is draining. -/
def draining (hostRows : List HostRow) (host : String) : Bool :=
  match (hostRows.filter fun row => lower row.nodeFqdn = lower host).getLast? with
  | some row => row.acceptsNew
  | none => true

def brokerTask (row : Collection) (hosts : List String) (hostRows : List HostRow) : BrokerTask where
  collection := row.name
  hosts := hosts.map fun host => ⟨host, hostPort host (brokers row), draining hostRows host⟩
  brokers := if row.sharedState then brokers row else []
  balanceMethod := if row.balanceMethod = "" then "leastconn" else row.balanceMethod
  affinityMinutes := affinityMinutes row.disconnectedMinutes row.idleMinutes

inductive Task where
  | host (nodeFqdn : String) (task : HostTask)
  | broker (nodeFqdn : String) (task : BrokerTask)

/-- The hosts first, then the brokers. -/
def dispatch (tables : Tables) (row : Collection) : List Task :=
  let hosts := tables.hostsOf row.id
  (hosts.map fun host => .host host (hostTask row host)) ++
    (brokers row).map fun broker => .broker broker (brokerTask row hosts (tables.rowsOf row.id))

/-- What the broker of a machine is configured with. -/
structure Routing where
  collection : String
  peers : List (String × String)
  balance : String
  affinity : Nat
  servers : List Server

/-- The port of the desktop service, where the machine has one, and the configuration of the broker. -/
structure Machine where
  desktop : Option Nat
  routing : Option Routing := none

/-- Where the broker sends people. Without servers it listens on no port. -/
def Machine.servers (machine : Machine) : List Server :=
  match machine.routing with
  | some routing => routing.servers
  | none => []

def brokerPort : Nat := 3389

def safeHostName (name : String) : Bool :=
  name ≠ "" && name.length ≤ 253 && name.toList.all fun c => c.isAlphanum || c ∈ ['.', '_', '-']

def validPort (port : Nat) : Bool := 1 ≤ port && port ≤ 65535

def brokerHosts (hosts : List Server) : Option (List Server) :=
  if hosts.all fun server => safeHostName server.host && validPort server.port then some hosts else none

def shortName (host : String) : String := String.ofList (host.toList.takeWhile (· ≠ '.'))

def peerNames (names : List String) : Option (List (String × String)) :=
  if names.all safeHostName then some (names.map fun host => (shortName host, host)) else none

def balanceMethod : String → String
  | "roundrobin" => "roundrobin"
  | "first" => "first"
  | _ => "leastconn"

def routingOf (task : BrokerTask) : Option Routing := do
  let hosts ← brokerHosts task.hosts
  let peers ← peerNames task.brokers
  return {
    collection := task.collection
    peers := if 1 < peers.length then peers else []
    balance := balanceMethod task.balanceMethod
    affinity := task.affinityMinutes
    servers := hosts }

def applyRemoteDesktopBroker (task : BrokerTask) (machine : Machine) : Machine :=
  match routingOf task with
  | some routing => { machine with routing := some routing }
  | none => machine

def setXrdpPort (port : Nat) (machine : Machine) : Machine :=
  { machine with desktop := machine.desktop.map fun _ => port }

def applyRemoteDesktopHost (task : HostTask) (machine : Machine) : Machine :=
  if validPort task.rdpPort then setXrdpPort task.rdpPort machine else machine

/-- The machines under their names. -/
abbrev Machines := String → Machine

def perform (machines : Machines) : Task → Machines
  | .host nodeFqdn task =>
      Function.update machines (lower nodeFqdn) (applyRemoteDesktopHost task (machines (lower nodeFqdn)))
  | .broker nodeFqdn task =>
      Function.update machines (lower nodeFqdn) (applyRemoteDesktopBroker task (machines (lower nodeFqdn)))

def nameChar (c : Char) : Bool := c.isAlphanum || c ∈ [' ', '.', '_', '-']

def validateName (value : String) : Option String :=
  let value := Text.strip Runtime.blank value
  match value.toList with
  | first :: rest => if first.isAlphanum && rest.length ≤ 62 && rest.all nameChar then some value else none
  | [] => none

def isLabel (label : String) : Bool :=
  label ≠ "" && label.length ≤ 63 && (label.toList.all fun c => c.isAlphanum || c = '-') &&
    !(label.toList.head? = some '-') && !(label.toList.getLast? = some '-')

/-- A pattern that ends at the end of the text also ends before a line end there. -/
def isFqdn (value : String) : Bool :=
  let text := if Text.endsWith value "\n" then String.ofList value.toList.dropLast else value
  let labels := Text.split '.' text
  text.length ≤ 253 && 2 ≤ labels.length && labels.all isLabel

def validateFqdn (value : String) : Option String :=
  let value := lower (Text.stripEnd (· = '.') (Text.strip Runtime.blank value))
  if value = "" then some "" else if isFqdn value then some value else none

structure CollectionIn where
  name : String
  brokerFqdn : String
  brokerSecondaryFqdn : String := ""
  balanceMethod : String := "leastconn"
  idleMinutes : Nat := 60
  disconnectedMinutes : Nat := 120

structure CollectionUpdate where
  id : String
  brokerFqdn : Option String := none
  brokerSecondaryFqdn : Option String := none
  balanceMethod : Option String := none
  idleMinutes : Option Nat := none
  disconnectedMinutes : Option Nat := none

/-- What is asked of the console. The rights and the checks of the fields that are left out are left open. -/
inductive Move where
  | createCollection (body : CollectionIn) (id : String) (allowed : Bool)
  | updateCollection (body : CollectionUpdate) (allowed : Bool)
  | deleteCollection (id : String) (allowed : Bool)
  | addHost (collectionId nodeFqdn : String) (allowed : Bool)
  | removeHost (collectionId nodeFqdn : String) (allowed : Bool)
  | drainHost (collectionId nodeFqdn : String) (acceptsNew allowed : Bool)

def Tables.collection (tables : Tables) (id : String) : Option Collection :=
  tables.collections.find? fun row => row.id = id

/-- The name of the collection that a machine serves. -/
def Tables.elsewhere (tables : Tables) (nodeFqdn : String) : Option String := do
  let host ← tables.hosts.find? fun row => lower row.nodeFqdn = lower nodeFqdn
  let row ← tables.collection host.collectionId
  return row.name

def createCollection (tables : Tables) (body : CollectionIn) (id : String) : Option (Tables × Collection) := do
  let name ← validateName body.name
  let secondary ← validateFqdn body.brokerSecondaryFqdn
  guard (∀ row ∈ tables.collections, lower row.name ≠ lower name ∧ row.name ≠ name ∧ row.id ≠ id)
  let row : Collection := {
    id, name
    brokerFqdn := body.brokerFqdn
    brokerSecondaryFqdn := secondary
    balanceMethod := body.balanceMethod
    idleMinutes := body.idleMinutes
    disconnectedMinutes := body.disconnectedMinutes }
  return ({ tables with collections := tables.collections ++ [row] }, row)

def updateCollection (tables : Tables) (body : CollectionUpdate) : Option (Tables × Collection) := do
  let row ← tables.collection body.id
  let secondary ← body.brokerSecondaryFqdn.mapM validateFqdn
  let updated : Collection := { row with
    brokerFqdn := body.brokerFqdn.getD row.brokerFqdn
    brokerSecondaryFqdn := secondary.getD row.brokerSecondaryFqdn
    balanceMethod := body.balanceMethod.getD row.balanceMethod
    idleMinutes := body.idleMinutes.getD row.idleMinutes
    disconnectedMinutes := body.disconnectedMinutes.getD row.disconnectedMinutes }
  return ({ tables with
    collections := tables.collections.map fun other => if other.id = body.id then updated else other }, updated)

def addHost (tables : Tables) (collectionId nodeFqdn : String) : Option (Tables × Collection) := do
  let row ← tables.collection collectionId
  guard (∀ name ∈ tables.elsewhere nodeFqdn, name = "" ∨ name = row.name)
  let hosts :=
    if ∃ other ∈ tables.hosts, other.nodeFqdn = nodeFqdn then tables.hosts
    else tables.hosts ++ [⟨collectionId, nodeFqdn, true⟩]
  return ({ tables with hosts }, row)

def removeHost (tables : Tables) (collectionId nodeFqdn : String) : Option (Tables × Collection) := do
  let row ← tables.collection collectionId
  let hosts := tables.hosts.filter fun other =>
    ¬ (other.collectionId = collectionId ∧ lower other.nodeFqdn = lower nodeFqdn)
  return ({ tables with hosts }, row)

def drainHost (tables : Tables) (collectionId nodeFqdn : String) (acceptsNew : Bool) :
    Option (Tables × Collection) := do
  let row ← tables.collection collectionId
  guard (∃ other ∈ tables.hosts, other.collectionId = collectionId ∧ lower other.nodeFqdn = lower nodeFqdn)
  let hosts := tables.hosts.map fun other =>
    if other.collectionId = collectionId ∧ lower other.nodeFqdn = lower nodeFqdn then { other with acceptsNew }
    else other
  return ({ tables with hosts }, row)

/-- What an edit that goes through leaves, and the collection that is dispatched. -/
def edited (tables : Tables) : Move → Option (Tables × Collection)
  | .createCollection body id allowed => do
      guard allowed
      createCollection tables body id
  | .updateCollection body allowed => do
      guard allowed
      updateCollection tables body
  | .addHost collectionId nodeFqdn allowed => do
      guard allowed
      addHost tables collectionId nodeFqdn
  | .removeHost collectionId nodeFqdn allowed => do
      guard allowed
      removeHost tables collectionId nodeFqdn
  | .drainHost collectionId nodeFqdn acceptsNew allowed => do
      guard allowed
      drainHost tables collectionId nodeFqdn acceptsNew
  | .deleteCollection _ _ => none

/-- The collection that is deleted, where the request goes through. -/
def deleted (tables : Tables) : Move → Option Collection
  | .deleteCollection id allowed => do
      guard allowed
      tables.collection id
  | _ => none

/-- A collection goes with its rows of hosts. -/
def Tables.without (tables : Tables) (id : String) : Tables where
  collections := tables.collections.filter fun row => row.id ≠ id
  hosts := tables.hosts.filter fun row => row.collectionId ≠ id

/-- One request, with the tasks it queues. -/
def step (tables : Tables) (move : Move) : Tables × List Task :=
  match edited tables move with
  | some (after, row) => (after, dispatch after row)
  | none =>
      match deleted tables move with
      | some row => (tables.without row.id, (brokers row).map fun broker => .broker broker (brokerTask row [] []))
      | none => (tables, [])

structure World where
  tables : Tables
  machines : Machines

/-- A request, once the tasks it queues have been applied. -/
def next (world : World) (move : Move) : World where
  tables := (step world.tables move).1
  machines := (step world.tables move).2.foldl perform world.machines

/-- No collection yet, and no machine forwards. -/
structure World.Fresh (world : World) : Prop where
  collections : world.tables.collections = []
  hosts : world.tables.hosts = []
  servers : ∀ name, (world.machines name).servers = []

def Collection.fronts (row : Collection) (name : String) : Prop := name ∈ (brokers row).map lower

instance (row : Collection) (name : String) : Decidable (row.fronts name) :=
  inferInstanceAs (Decidable (name ∈ (brokers row).map lower))

/-- A machine forwards to these hosts and no others, at the port of each host's own desktop. -/
def Forwards (machines : Machines) (name : String) (hosts : List String) : Prop :=
  (machines name).servers.map Server.host = hosts ∧
    ∀ server ∈ (machines name).servers, ∀ port ∈ (machines (lower server.host)).desktop, server.port = port

structure Right (world : World) : Prop where
  forwards : ∀ row ∈ world.tables.collections, ∀ name, row.fronts name →
    Forwards world.machines name (world.tables.hostsOf row.id)
  quiet : ∀ name, (∀ row ∈ world.tables.collections, ¬ row.fronts name) → (world.machines name).servers = []
  apart : ∀ name, (world.machines name).servers ≠ [] → (world.machines name).desktop ≠ some brokerPort

/-- The agent of a broker does not refuse the task. -/
def Taken (tables : Tables) (row : Collection) : Prop :=
  (routingOf (brokerTask row (tables.hostsOf row.id) (tables.rowsOf row.id))).isSome

/-- The desktop of a machine is on another port than a broker's once the hosts have been told. -/
def Aside (machines : Machines) (brokerFqdns hosts : List String) (name : String) : Prop :=
  if name ∈ hosts.map lower then name ∈ fronting brokerFqdns ∨ (machines name).desktop = none
  else (machines name).desktop ≠ some brokerPort

/-- The tables before an edit and after it, the machines before it, and the collection that is dispatched. -/
structure Clear (before after : Tables) (machines : Machines) (row : Collection) : Prop where
  /-- No broker is let go of while there are hosts. -/
  former : ∀ old ∈ before.collections, old.id = row.id → (∃ name, old.fronts name ∧ ¬ row.fronts name) →
    before.hostsOf row.id = []
  /-- No broker is shared, unless neither collection has hosts. -/
  alone : Taken after row → ∀ other ∈ after.collections, other.id ≠ row.id →
    (∃ name, row.fronts name ∧ other.fronts name) → after.hostsOf row.id = [] ∧ after.hostsOf other.id = []
  /-- With hosts, each broker is one of them or has its desktop on another port. -/
  moved : Taken after row → after.hostsOf row.id ≠ [] → ∀ name, row.fronts name →
    Aside machines (brokers row) (after.hostsOf row.id) name
  /-- No host forwards for another collection, unless it has no desktop to put on the broker's port. -/
  beside : ∀ host ∈ after.hostsOf row.id, (machines (lower host)).servers ≠ [] →
    (Taken after row → ¬ row.fronts (lower host)) → Aside machines (brokers row) (after.hostsOf row.id) (lower host)
  refused : ¬ Taken after row → ∀ name, row.fronts name →
    (machines name).servers.map Server.host = after.hostsOf row.id ∧
      ∀ server ∈ (machines name).servers, (machines (lower server.host)).desktop ≠ none →
        server.port = hostPort server.host (brokers row)

/-- What a request must find, so that it leaves every broker with its own collection. -/
structure Admitted (world : World) (move : Move) : Prop where
  edits : ∀ after row, edited world.tables move = some (after, row) → Clear world.tables after world.machines row
  deletes : ∀ row, deleted world.tables move = some row →
    (routingOf (brokerTask row [] [])).isSome ∨ world.tables.hostsOf row.id = []

structure Tables.Sound (tables : Tables) : Prop where
  ids : (tables.collections.map Collection.id).Nodup
  names : (tables.collections.map Collection.name).Nodup
  named : ∀ row ∈ tables.collections, row.name ≠ ""
  listed : ∀ host ∈ tables.hosts, ∃ row ∈ tables.collections, row.id = host.collectionId
  /-- A machine is a host of one collection. -/
  once : ∀ host ∈ tables.hosts, ∀ other ∈ tables.hosts, lower host.nodeFqdn = lower other.nodeFqdn →
    host.collectionId = other.collectionId

variable {tables before after : Tables} {row other : Collection} {machines : Machines}

omit [Runtime] in
theorem mem_hostsOf {id host : String} :
    host ∈ tables.hostsOf id ↔ ∃ entry ∈ tables.hosts, entry.collectionId = id ∧ entry.nodeFqdn = host := by
  unfold Tables.hostsOf Tables.rowsOf
  rw [List.mem_map]
  constructor
  · rintro ⟨entry, hentry, hname⟩
    rw [(List.perm_sortedBy _ _).mem_iff, List.mem_filter, decide_eq_true_eq] at hentry
    exact ⟨entry, hentry.1, hentry.2, hname⟩
  · rintro ⟨entry, hentry, hid, hname⟩
    refine ⟨entry, ?_, hname⟩
    rw [(List.perm_sortedBy _ _).mem_iff, List.mem_filter, decide_eq_true_eq]
    exact ⟨hentry, hid⟩

omit [Runtime] in
theorem mem_of_collection {id : String} (h : tables.collection id = some row) :
    row ∈ tables.collections ∧ row.id = id := by
  refine ⟨List.mem_of_find?_eq_some h, ?_⟩
  have hid := List.find?_some h
  rwa [decide_eq_true_eq] at hid

namespace Tables.Sound

theorem eq_of_id (h : tables.Sound) (hrow : row ∈ tables.collections) (hother : other ∈ tables.collections)
    (hid : row.id = other.id) : row = other :=
  List.inj_on_of_nodup_map h.ids hrow hother hid

theorem collection_of_mem (h : tables.Sound) (hrow : row ∈ tables.collections) :
    tables.collection row.id = some row := by
  cases hfound : tables.collection row.id with
  | none =>
      unfold Tables.collection at hfound
      rw [List.find?_eq_none] at hfound
      have hnot := hfound row hrow
      rw [decide_eq_true_eq] at hnot
      exact absurd rfl hnot
  | some found =>
      obtain ⟨hmem, hid⟩ := mem_of_collection hfound
      rw [h.eq_of_id hmem hrow hid]

theorem id_eq_of_host (h : tables.Sound) {id id' host host' : String} (hhost : host ∈ tables.hostsOf id)
    (hhost' : host' ∈ tables.hostsOf id') (hsame : lower host = lower host') : id = id' := by
  obtain ⟨entry, hentry, rfl, rfl⟩ := mem_hostsOf.mp hhost
  obtain ⟨entry', hentry', rfl, rfl⟩ := mem_hostsOf.mp hhost'
  exact h.once entry hentry entry' hentry' hsame

theorem hostsOf_eq_nil (h : tables.Sound) {id id' : String} (hne : id ≠ id')
    (hsame : tables.hostsOf id = tables.hostsOf id') : tables.hostsOf id = [] := by
  rw [List.eq_nil_iff_forall_not_mem]
  intro host hhost
  exact hne (h.id_eq_of_host hhost (hsame ▸ hhost) rfl)

end Tables.Sound

/-- What an edit of one collection leaves as it was. -/
structure Edited (before after : Tables) (row : Collection) : Prop where
  sound : after.Sound
  there : row ∈ after.collections
  others : ∀ other, other.id ≠ row.id → (other ∈ after.collections ↔ other ∈ before.collections)
  rows : ∀ id, id ≠ row.id → after.rowsOf id = before.rowsOf id

variable {id name nodeFqdn collectionId : String}

theorem Edited.hostsOf (h : Edited before after row) (hid : id ≠ row.id) :
    after.hostsOf id = before.hostsOf id := by
  unfold Tables.hostsOf
  rw [h.rows id hid]

theorem validateName_ne {value : String} (h : validateName value = some name) : name ≠ "" := by
  unfold validateName at h
  dsimp only at h
  split at h
  · rename_i first rest hchars
    split at h
    · cases h
      intro hempty
      rw [hempty] at hchars
      cases hchars
    · cases h
  · cases h

theorem edited_create {body : CollectionIn} (hsound : before.Sound)
    (h : createCollection before body id = some (after, row)) : Edited before after row := by
  unfold createCollection at h
  simp only [Option.bind_eq_bind, Option.bind_eq_some_iff] at h
  obtain ⟨name, hname, secondary, _, _, hfresh, hmade⟩ := h
  obtain ⟨hafter, hrow⟩ := Prod.mk.inj (Option.some.inj hmade)
  have hguard : ∀ row ∈ before.collections, lower row.name ≠ lower name ∧ row.name ≠ name ∧ row.id ≠ id := by
    by_contra hnot
    rw [guard, if_neg hnot] at hfresh
    cases hfresh
  have hid : row.id = id := by rw [← hrow]
  have hrowname : row.name = name := by rw [← hrow]
  rw [hrow] at hafter
  subst hafter
  constructor
  · constructor
    · rw [List.map_append, List.nodup_append]
      refine ⟨hsound.ids, List.nodup_singleton _, fun left hleft right hright heq => ?_⟩
      obtain ⟨old, hold, rfl⟩ := List.mem_map.mp hleft
      rw [List.map_singleton, List.mem_singleton, hid] at hright
      exact (hguard old hold).2.2 (heq.trans hright)
    · rw [List.map_append, List.nodup_append]
      refine ⟨hsound.names, List.nodup_singleton _, fun left hleft right hright heq => ?_⟩
      obtain ⟨old, hold, rfl⟩ := List.mem_map.mp hleft
      rw [List.map_singleton, List.mem_singleton, hrowname] at hright
      exact (hguard old hold).2.1 (heq.trans hright)
    · intro old hold
      rcases List.mem_append.mp hold with hold | hnew
      · exact hsound.named old hold
      · rw [List.mem_singleton.mp hnew, hrowname]
        exact validateName_ne hname
    · intro host hhost
      obtain ⟨old, hold, hsame⟩ := hsound.listed host hhost
      exact ⟨old, List.mem_append_left _ hold, hsame⟩
    · exact hsound.once
  · exact List.mem_append_right _ (List.mem_singleton_self row)
  · intro old hne
    rw [List.mem_append, List.mem_singleton, or_iff_left]
    rintro rfl
    exact hne rfl
  · exact fun _ _ => rfl

theorem edited_update {body : CollectionUpdate} (hsound : before.Sound)
    (h : updateCollection before body = some (after, row)) : Edited before after row := by
  unfold updateCollection at h
  simp only [Option.bind_eq_bind, Option.bind_eq_some_iff] at h
  obtain ⟨old, hold, secondary, _, hmade⟩ := h
  obtain ⟨hafter, hrow⟩ := Prod.mk.inj (Option.some.inj hmade)
  obtain ⟨hmem, hid⟩ := mem_of_collection hold
  have hrowid : row.id = body.id := by rw [← hrow, ← hid]
  have hrowname : row.name = old.name := by rw [← hrow]
  rw [hrow] at hafter
  have hcollections : after.collections = before.collections.map fun other =>
      if other.id = body.id then row else other := by rw [← hafter]
  have hhosts : after.hosts = before.hosts := by rw [← hafter]
  have hreplaced : ∀ other ∈ before.collections,
      (if other.id = body.id then row else other).id = other.id ∧
        (if other.id = body.id then row else other).name = other.name := by
    intro other hother
    split
    · rename_i hsame
      have := hsound.eq_of_id hother hmem (hsame.trans hid.symm)
      subst this
      exact ⟨hrowid.trans hsame.symm, hrowname⟩
    · exact ⟨rfl, rfl⟩
  constructor
  · constructor
    · have hsame : after.collections.map Collection.id = before.collections.map Collection.id := by
        rw [hcollections, List.map_map]
        exact List.map_congr_left fun other hother => (hreplaced other hother).1
      rw [hsame]
      exact hsound.ids
    · have hsame : after.collections.map Collection.name = before.collections.map Collection.name := by
        rw [hcollections, List.map_map]
        exact List.map_congr_left fun other hother => (hreplaced other hother).2
      rw [hsame]
      exact hsound.names
    · intro other hother
      rw [hcollections] at hother
      obtain ⟨was, hwas, rfl⟩ := List.mem_map.mp hother
      rw [(hreplaced was hwas).2]
      exact hsound.named was hwas
    · intro host hhost
      rw [hhosts] at hhost
      obtain ⟨was, hwas, hsame⟩ := hsound.listed host hhost
      rw [hcollections]
      exact ⟨_, List.mem_map_of_mem hwas, (hreplaced was hwas).1.trans hsame⟩
    · rw [hhosts]
      exact hsound.once
  · rw [hcollections]
    refine List.mem_map.mpr ⟨old, hmem, ?_⟩
    rw [if_pos hid]
  · intro other hne
    rw [hcollections, List.mem_map]
    constructor
    · rintro ⟨was, hwas, hmade⟩
      split at hmade
      · exact absurd (congrArg Collection.id hmade).symm hne
      · rwa [← hmade]
    · intro hother
      refine ⟨other, hother, if_neg ?_⟩
      rw [← hrowid]
      exact hne
  · intro id _
    unfold Tables.rowsOf
    rw [hhosts]

theorem edited_hosts {hosts : List HostRow} (hsound : before.Sound) (hrow : row ∈ before.collections)
    (hothers : ∀ id, id ≠ row.id → hosts.filter (fun host => host.collectionId = id) =
      before.hosts.filter fun host => host.collectionId = id)
    (hlisted : ∀ host ∈ hosts, ∃ row ∈ before.collections, row.id = host.collectionId)
    (honce : ∀ host ∈ hosts, ∀ other ∈ hosts, lower host.nodeFqdn = lower other.nodeFqdn →
      host.collectionId = other.collectionId) : Edited before { before with hosts } row where
  sound := ⟨hsound.ids, hsound.names, hsound.named, hlisted, honce⟩
  there := hrow
  others _ _ := Iff.rfl
  rows id hne := by
    unfold Tables.rowsOf
    rw [hothers id hne]

omit [Runtime] in
theorem filter_concat {hosts : List HostRow} {host : HostRow} (h : id ≠ host.collectionId) :
    (hosts ++ [host]).filter (fun other => other.collectionId = id) =
      hosts.filter fun other => other.collectionId = id := by
  rw [List.filter_append, List.filter_singleton, decide_eq_false h.symm, cond_false, List.append_nil]

theorem elsewhere_of_mem (hsound : before.Sound) {host : HostRow} (hhost : host ∈ before.hosts)
    (hsame : lower host.nodeFqdn = lower nodeFqdn) :
    ∃ row ∈ before.collections, row.id = host.collectionId ∧ before.elsewhere nodeFqdn = some row.name := by
  cases hfound : before.hosts.find? fun row => lower row.nodeFqdn = lower nodeFqdn with
  | none =>
      rw [List.find?_eq_none] at hfound
      exact absurd (decide_eq_true hsame) (hfound host hhost)
  | some found =>
      have hlower := List.find?_some hfound
      rw [decide_eq_true_eq] at hlower
      have hmem := List.mem_of_find?_eq_some hfound
      obtain ⟨row, hrow, hid⟩ := hsound.listed found hmem
      refine ⟨row, hrow, ?_, ?_⟩
      · rw [hid]
        exact hsound.once found hmem host hhost (hlower.trans hsame.symm)
      · simp only [Tables.elsewhere, hfound, Option.bind_eq_bind, Option.bind_some, ← hid,
          hsound.collection_of_mem hrow]
        rfl

theorem edited_addHost (hsound : before.Sound)
    (h : addHost before collectionId nodeFqdn = some (after, row)) : Edited before after row := by
  unfold addHost at h
  simp only [Option.bind_eq_bind, Option.bind_eq_some_iff] at h
  obtain ⟨found, hfound, _, hguard, hmade⟩ := h
  obtain ⟨hafter, hrow⟩ := Prod.mk.inj (Option.some.inj hmade)
  obtain ⟨hmem, hid⟩ := mem_of_collection hfound
  subst hrow hafter
  split
  · exact edited_hosts hsound hmem (fun _ _ => rfl) hsound.listed hsound.once
  · have helsewhere : ∀ name ∈ before.elsewhere nodeFqdn, name = "" ∨ name = found.name := by
      by_contra hnot
      rw [guard, if_neg hnot] at hguard
      cases hguard
    have hserves : ∀ host ∈ before.hosts, lower host.nodeFqdn = lower nodeFqdn → host.collectionId = collectionId := by
      intro host hhost hsame
      obtain ⟨row, hrow, hrowid, hname⟩ := elsewhere_of_mem hsound hhost hsame
      rcases helsewhere row.name hname with hempty | heq
      · exact absurd hempty (hsound.named row hrow)
      · rw [← hrowid, ← hid, List.inj_on_of_nodup_map hsound.names hrow hmem heq]
    apply edited_hosts hsound hmem
    · intro id hne
      exact filter_concat (hid ▸ hne)
    · intro host hhost
      rcases List.mem_append.mp hhost with hold | hnew
      · exact hsound.listed host hold
      · rw [List.mem_singleton.mp hnew]
        exact ⟨found, hmem, hid⟩
    · intro host hhost other hother hsame
      rcases List.mem_append.mp hhost with hold | hnew
      · rcases List.mem_append.mp hother with hold' | hnew'
        · exact hsound.once host hold other hold' hsame
        · rw [List.mem_singleton.mp hnew'] at hsame ⊢
          exact hserves host hold hsame
      · rw [List.mem_singleton.mp hnew] at hsame ⊢
        rcases List.mem_append.mp hother with hold' | hnew'
        · exact (hserves other hold' hsame.symm).symm
        · rw [List.mem_singleton.mp hnew']

theorem edited_removeHost (hsound : before.Sound)
    (h : removeHost before collectionId nodeFqdn = some (after, row)) : Edited before after row := by
  unfold removeHost at h
  simp only [Option.bind_eq_bind, Option.bind_eq_some_iff] at h
  obtain ⟨found, hfound, hmade⟩ := h
  obtain ⟨hafter, hrow⟩ := Prod.mk.inj (Option.some.inj hmade)
  obtain ⟨hmem, hid⟩ := mem_of_collection hfound
  subst hrow hafter
  apply edited_hosts hsound hmem
  · intro id hne
    rw [List.filter_filter]
    apply List.filter_congr
    intro host _
    by_cases hhost : host.collectionId = id
    · have hkept : ¬ (host.collectionId = collectionId ∧ lower host.nodeFqdn = lower nodeFqdn) :=
        fun heq => hne (hhost.symm.trans (heq.1.trans hid.symm))
      rw [decide_eq_true hkept, Bool.and_true]
    · rw [decide_eq_false hhost, Bool.false_and]
  · exact fun host hhost => hsound.listed host (List.mem_of_mem_filter hhost)
  · exact fun host hhost other hother => hsound.once host (List.mem_of_mem_filter hhost) other
      (List.mem_of_mem_filter hother)

theorem edited_drainHost {acceptsNew : Bool} (hsound : before.Sound)
    (h : drainHost before collectionId nodeFqdn acceptsNew = some (after, row)) : Edited before after row := by
  unfold drainHost at h
  simp only [Option.bind_eq_bind, Option.bind_eq_some_iff] at h
  obtain ⟨found, hfound, _, _, hmade⟩ := h
  obtain ⟨hafter, hrow⟩ := Prod.mk.inj (Option.some.inj hmade)
  obtain ⟨hmem, hid⟩ := mem_of_collection hfound
  subst hrow hafter
  have hkept : ∀ host ∈ before.hosts.map (fun other =>
      if other.collectionId = collectionId ∧ lower other.nodeFqdn = lower nodeFqdn then { other with acceptsNew }
      else other), ∃ was ∈ before.hosts, was.collectionId = host.collectionId ∧ was.nodeFqdn = host.nodeFqdn := by
    intro host hhost
    obtain ⟨was, hwas, rfl⟩ := List.mem_map.mp hhost
    refine ⟨was, hwas, ?_⟩
    split <;> exact ⟨rfl, rfl⟩
  apply edited_hosts hsound hmem
  · intro id hne
    induction before.hosts with
    | nil => rfl
    | cons host hosts ih =>
        rw [List.map_cons, List.filter_cons, List.filter_cons, ih]
        by_cases hhost : host.collectionId = collectionId ∧ lower host.nodeFqdn = lower nodeFqdn
        · have hnot : ¬ host.collectionId = id := fun heq => hne (heq.symm.trans (hhost.1.trans hid.symm))
          rw [if_pos hhost, decide_eq_false hnot]
          rfl
        · rw [if_neg hhost]
  · intro host hhost
    obtain ⟨was, hwas, hsame, _⟩ := hkept host hhost
    rw [← hsame]
    exact hsound.listed was hwas
  · intro host hhost other hother hsame
    obtain ⟨was, hwas, hid, hname⟩ := hkept host hhost
    obtain ⟨was', hwas', hid', hname'⟩ := hkept other hother
    rw [← hid, ← hid']
    apply hsound.once was hwas was' hwas'
    rw [hname, hname', hsame]

theorem edited_spec {move : Move} (hsound : before.Sound) (h : edited before move = some (after, row)) :
    Edited before after row := by
  cases move with
  | createCollection body id allowed =>
      obtain ⟨_, _, hcreate⟩ := Option.bind_eq_some_iff.mp h
      exact edited_create hsound hcreate
  | updateCollection body allowed =>
      obtain ⟨_, _, hupdate⟩ := Option.bind_eq_some_iff.mp h
      exact edited_update hsound hupdate
  | addHost collectionId nodeFqdn allowed =>
      obtain ⟨_, _, hadd⟩ := Option.bind_eq_some_iff.mp h
      exact edited_addHost hsound hadd
  | removeHost collectionId nodeFqdn allowed =>
      obtain ⟨_, _, hremove⟩ := Option.bind_eq_some_iff.mp h
      exact edited_removeHost hsound hremove
  | drainHost collectionId nodeFqdn acceptsNew allowed =>
      obtain ⟨_, _, hdrain⟩ := Option.bind_eq_some_iff.mp h
      exact edited_drainHost hsound hdrain
  | deleteCollection id allowed => cases h

omit [Runtime] in
theorem deleted_spec {move : Move} (h : deleted tables move = some row) : row ∈ tables.collections := by
  cases move with
  | deleteCollection id allowed =>
      obtain ⟨_, _, hfound⟩ := Option.bind_eq_some_iff.mp h
      exact (mem_of_collection hfound).1
  | createCollection _ _ _ => cases h
  | updateCollection _ _ => cases h
  | addHost _ _ _ => cases h
  | removeHost _ _ _ => cases h
  | drainHost _ _ _ _ => cases h

theorem foldl_update {act : String → Machine → Machine} (hagain : ∀ name machine, act name (act name machine) = act name machine)
    (names : List String) (machines : Machines) (name : String) :
    names.foldl (fun machines other =>
        Function.update machines (lower other) (act (lower other) (machines (lower other)))) machines name =
      if name ∈ names.map lower then act name (machines name) else machines name := by
  induction names generalizing machines with
  | nil => rfl
  | cons other names ih =>
      rw [List.foldl_cons, ih, List.map_cons]
      by_cases hsame : name = lower other
      · subst hsame
        rw [Function.update_self, hagain, ite_self, if_pos List.mem_cons_self]
      · rw [Function.update_of_ne hsame]
        simp only [List.mem_cons, hsame, false_or]

theorem validPort_hostPort (host : String) (names : List String) : validPort (hostPort host names) = true := by
  unfold hostPort
  split
  · decide
  · decide

/-- What a session host is left with. -/
def told (row : Collection) (name : String) (machine : Machine) : Machine :=
  setXrdpPort (if name ∈ fronting (brokers row) then hostBesideBrokerPort else defaultRdpPort) machine

theorem applyRemoteDesktopHost_eq (host : String) (machine : Machine) :
    applyRemoteDesktopHost (hostTask row host) machine = told row (lower host) machine := by
  rw [applyRemoteDesktopHost, hostTask, if_pos (validPort_hostPort host (brokers row)), hostPort, told]

omit [Runtime] in
theorem setXrdpPort_again (port : Nat) (machine : Machine) :
    setXrdpPort port (setXrdpPort port machine) = setXrdpPort port machine := by
  cases machine with
  | mk desktop routing => cases desktop <;> rfl

theorem told_told (name : String) (machine : Machine) : told row name (told row name machine) = told row name machine := by
  unfold told
  exact setXrdpPort_again _ machine

omit [Runtime] in
theorem applyBroker_again (task : BrokerTask) (machine : Machine) :
    applyRemoteDesktopBroker task (applyRemoteDesktopBroker task machine) = applyRemoteDesktopBroker task machine := by
  unfold applyRemoteDesktopBroker
  cases routingOf task <;> rfl

theorem perform_brokers (names : List String) (task : BrokerTask) (name : String) :
    (names.map fun broker => Task.broker broker task).foldl perform machines name =
      if name ∈ names.map lower then applyRemoteDesktopBroker task (machines name) else machines name := by
  rw [List.foldl_map]
  exact foldl_update (fun _ => applyBroker_again task) names machines name

theorem perform_hosts (names : List String) (name : String) :
    (names.map fun host => Task.host host (hostTask row host)).foldl perform machines name =
      if name ∈ names.map lower then told row name (machines name) else machines name := by
  rw [List.foldl_map, ← foldl_update told_told names machines name]
  simp only [perform, applyRemoteDesktopHost_eq]

omit [Runtime] in
theorem desktop_applyBroker (task : BrokerTask) (machine : Machine) :
    (applyRemoteDesktopBroker task machine).desktop = machine.desktop := by
  unfold applyRemoteDesktopBroker
  cases routingOf task <;> rfl

omit [Runtime] in
theorem servers_applyBroker (task : BrokerTask) (machine : Machine) :
    (applyRemoteDesktopBroker task machine).servers =
      if (routingOf task).isSome then task.hosts else machine.servers := by
  unfold applyRemoteDesktopBroker
  cases hrouting : routingOf task with
  | none => rfl
  | some routing =>
      unfold routingOf brokerHosts at hrouting
      simp only [Option.bind_eq_bind, Option.bind_eq_some_iff] at hrouting
      obtain ⟨hosts, hhosts, peers, _, hmade⟩ := hrouting
      split at hhosts
      · cases hhosts
        cases hmade
        rfl
      · cases hhosts

theorem desktop_dispatched (name : String) :
    ((dispatch tables row).foldl perform machines name).desktop =
      if name ∈ (tables.hostsOf row.id).map lower then (told row name (machines name)).desktop
      else (machines name).desktop := by
  unfold dispatch
  rw [List.foldl_append, perform_brokers, perform_hosts]
  split
  · rw [desktop_applyBroker]
    split <;> rfl
  · split <;> rfl

theorem servers_dispatched (name : String) :
    ((dispatch tables row).foldl perform machines name).servers =
      if name ∈ (brokers row).map lower then
        if (routingOf (brokerTask row (tables.hostsOf row.id) (tables.rowsOf row.id))).isSome then
          (brokerTask row (tables.hostsOf row.id) (tables.rowsOf row.id)).hosts
        else (machines name).servers
      else (machines name).servers := by
  have hkept : (if name ∈ (tables.hostsOf row.id).map lower then told row name (machines name)
      else machines name).servers = (machines name).servers := by
    split <;> rfl
  unfold dispatch
  rw [List.foldl_append, perform_brokers, perform_hosts]
  split
  · rw [servers_applyBroker, hkept]
  · exact hkept

theorem servers_of_taken (hfronts : row.fronts name) (htaken : Taken tables row) :
    ((dispatch tables row).foldl perform machines name).servers =
      (brokerTask row (tables.hostsOf row.id) (tables.rowsOf row.id)).hosts := by
  unfold Collection.fronts at hfronts
  unfold Taken at htaken
  rw [servers_dispatched, if_pos hfronts, if_pos htaken]

theorem servers_of_not (h : ¬ (row.fronts name ∧ Taken tables row)) :
    ((dispatch tables row).foldl perform machines name).servers = (machines name).servers := by
  rw [servers_dispatched]
  split
  · split
    · exact absurd ⟨‹_›, ‹_›⟩ h
    · rfl
  · rfl

theorem hosts_brokerTask (hosts : List String) (rows : List HostRow) :
    (brokerTask row hosts rows).hosts.map Server.host = hosts := by
  unfold brokerTask
  rw [List.map_map]
  exact List.map_id'' (fun _ => rfl) hosts

theorem desktop_told (name : String) (machine : Machine) :
    (told row name machine).desktop = machine.desktop.map fun _ =>
      if name ∈ fronting (brokers row) then hostBesideBrokerPort else defaultRdpPort := rfl

theorem desktop_of_host {host : String} (h : host ∈ tables.hostsOf row.id) :
    ((dispatch tables row).foldl perform machines (lower host)).desktop =
      (machines (lower host)).desktop.map fun _ => hostPort host (brokers row) := by
  rw [desktop_dispatched, if_pos (List.mem_map_of_mem h), desktop_told]
  rfl

theorem desktop_of_other (h : name ∉ (tables.hostsOf row.id).map lower) :
    ((dispatch tables row).foldl perform machines name).desktop = (machines name).desktop := by
  rw [desktop_dispatched, if_neg h]

theorem aside_iff (name : String) :
    ((dispatch tables row).foldl perform machines name).desktop ≠ some brokerPort ↔
      Aside machines (brokers row) (tables.hostsOf row.id) name := by
  have hports : hostBesideBrokerPort ≠ brokerPort := by decide
  unfold Aside
  rw [desktop_dispatched]
  split
  · rw [desktop_told]
    cases (machines name).desktop with
    | none => simp
    | some port =>
        by_cases hfronting : name ∈ fronting (brokers row)
        · simp only [hfronting, if_true, Option.map_some, ne_eq, Option.some.injEq, hports, not_false_eq_true, true_or]
        · simp only [hfronting, if_false, Option.map_some, defaultRdpPort, brokerPort, not_true_eq_false, ne_eq, reduceCtorEq,
            or_self]
  · exact Iff.rfl

/-- The desktop of each host listens where its collection has it. -/
structure Sound (world : World) : Prop where
  tables : world.tables.Sound
  told : ∀ row ∈ world.tables.collections, ∀ host ∈ world.tables.hostsOf row.id,
    ∀ port ∈ (world.machines (lower host)).desktop, port = hostPort host (brokers row)

section

variable {world : World} (hsound : Sound world) (hright : Right world) (hedited : Edited world.tables after row)

/-- The world an edit leaves. -/
def World.dispatched (world : World) (after : Tables) (row : Collection) : World where
  tables := after
  machines := (dispatch after row).foldl perform world.machines

theorem forwards_taken {name : String} (hfronts : row.fronts name) (htaken : Taken after row) :
    Forwards (world.dispatched after row).machines name (after.hostsOf row.id) := by
  unfold Forwards World.dispatched
  rw [servers_of_taken hfronts htaken, hosts_brokerTask]
  refine ⟨rfl, fun server hserver port hport => ?_⟩
  obtain ⟨host, hhost, rfl⟩ := List.mem_map.mp hserver
  dsimp only at hport ⊢
  rw [desktop_of_host hhost, Option.mem_def, Option.map_eq_some_iff] at hport
  obtain ⟨_, _, hsame⟩ := hport
  rw [hsame]

include hedited in
theorem desktop_elsewhere {id host : String} (hid : id ≠ row.id) (hhost : host ∈ after.hostsOf id) :
    ((world.dispatched after row).machines (lower host)).desktop = (world.machines (lower host)).desktop := by
  apply desktop_of_other
  intro hmem
  obtain ⟨host', hhost', hsame⟩ := List.mem_map.mp hmem
  exact hid (hedited.sound.id_eq_of_host hhost hhost' hsame.symm)

include hedited in
theorem forwards_elsewhere {id name : String} (hid : id ≠ row.id) (hnot : ¬ (row.fronts name ∧ Taken after row))
    (h : Forwards world.machines name (after.hostsOf id)) :
    Forwards (world.dispatched after row).machines name (after.hostsOf id) := by
  obtain ⟨hnames, hports⟩ := h
  have hservers : ((world.dispatched after row).machines name).servers = (world.machines name).servers :=
    servers_of_not hnot
  unfold Forwards
  rw [hservers]
  refine ⟨hnames, fun server hserver port hport => hports server hserver port ?_⟩
  have hhost : server.host ∈ after.hostsOf id := hnames ▸ List.mem_map_of_mem hserver
  rwa [desktop_elsewhere hedited hid hhost] at hport

include hsound hright hedited in
theorem clear_of_right (h : Right (world.dispatched after row)) : Clear world.tables after world.machines row := by
  constructor
  · rintro old hold hid ⟨name, hwas, hnot⟩
    have hnames := (hright.forwards old hold name hwas).1
    by_cases hother : ∃ other ∈ after.collections, other.fronts name
    · obtain ⟨other, hother, hfronts⟩ := hother
      have hne : other.id ≠ row.id := by
        intro heq
        rw [hedited.sound.eq_of_id hother hedited.there heq] at hfronts
        exact hnot hfronts
      have hnames' := (hright.forwards other ((hedited.others other hne).mp hother) name hfronts).1
      rw [← hid]
      exact hsound.tables.hostsOf_eq_nil (hid ▸ hne.symm) (hnames.symm.trans hnames')
    · have hquiet := h.quiet name fun other hmem hfronts => hother ⟨other, hmem, hfronts⟩
      have hsame : ((world.dispatched after row).machines name).servers = (world.machines name).servers :=
        servers_of_not fun hboth => hnot hboth.1
      rw [← hid, ← hnames, ← hsame, hquiet]
      rfl
  · rintro htaken other hother hne ⟨name, hfronts, hfronts'⟩
    have htaken' : Forwards (world.dispatched after row).machines name (after.hostsOf row.id) :=
      forwards_taken hfronts htaken
    have hrow := htaken'.1
    have hnames := hrow.symm.trans (h.forwards other hother name hfronts').1
    exact ⟨hedited.sound.hostsOf_eq_nil hne.symm hnames, hedited.sound.hostsOf_eq_nil hne hnames.symm⟩
  · intro htaken hhosts name hfronts
    refine (aside_iff name).mp (h.apart name fun hempty => hhosts ?_)
    have htaken' : Forwards (world.dispatched after row).machines name (after.hostsOf row.id) :=
      forwards_taken hfronts htaken
    have hnames := htaken'.1
    rw [hempty] at hnames
    exact hnames.symm
  · intro host _ hservers hfronts
    refine (aside_iff (lower host)).mp (h.apart (lower host) ?_)
    have hsame : ((world.dispatched after row).machines (lower host)).servers = (world.machines (lower host)).servers :=
      servers_of_not fun hboth => hfronts hboth.2 hboth.1
    rwa [hsame]
  · intro hrefused name hfronts
    obtain ⟨hnames, hports⟩ := h.forwards row hedited.there name hfronts
    have hsame : ((world.dispatched after row).machines name).servers = (world.machines name).servers :=
      servers_of_not fun hboth => hrefused hboth.2
    rw [hsame] at hnames hports
    refine ⟨hnames, fun server hserver hdesktop => hports server hserver _ ?_⟩
    have hhost : server.host ∈ after.hostsOf row.id := hnames ▸ List.mem_map_of_mem hserver
    unfold World.dispatched
    rw [desktop_of_host hhost, Option.mem_def]
    obtain ⟨port, hport⟩ := Option.ne_none_iff_exists'.mp hdesktop
    rw [hport]
    rfl

include hright hedited in
theorem right_of_clear (h : Clear world.tables after world.machines row) : Right (world.dispatched after row) := by
  constructor
  · intro other hother name hfronts
    by_cases hid : other.id = row.id
    · rw [hedited.sound.eq_of_id hother hedited.there hid] at hfronts ⊢
      by_cases htaken : Taken after row
      · exact forwards_taken hfronts htaken
      · obtain ⟨hnames, hports⟩ := h.refused htaken name hfronts
        have hsame : ((world.dispatched after row).machines name).servers = (world.machines name).servers :=
          servers_of_not fun hboth => htaken hboth.2
        unfold Forwards
        rw [hsame]
        refine ⟨hnames, fun server hserver port hport => ?_⟩
        have hhost : server.host ∈ after.hostsOf row.id := hnames ▸ List.mem_map_of_mem hserver
        unfold World.dispatched at hport
        rw [desktop_of_host hhost, Option.mem_def, Option.map_eq_some_iff] at hport
        obtain ⟨was, hwas, heq⟩ := hport
        rw [← heq]
        apply hports server hserver
        rw [hwas]
        exact Option.some_ne_none was
    · have hwas := hright.forwards other ((hedited.others other hid).mp hother) name hfronts
      rw [← hedited.hostsOf hid] at hwas
      by_cases hboth : row.fronts name ∧ Taken after row
      · obtain ⟨hrow, hnone⟩ := h.alone hboth.2 other hother hid ⟨name, hboth.1, hfronts⟩
        have hforwards : Forwards (world.dispatched after row).machines name (after.hostsOf row.id) :=
          forwards_taken hboth.1 hboth.2
        rw [hrow] at hforwards
        show Forwards _ name (after.hostsOf other.id)
        rwa [hnone]
      · exact forwards_elsewhere hedited hid hboth hwas
  · intro name hnone
    have hsame : ((world.dispatched after row).machines name).servers = (world.machines name).servers :=
      servers_of_not fun hboth => hnone row hedited.there hboth.1
    rw [hsame]
    by_cases hwas : ∃ old ∈ world.tables.collections, old.fronts name
    · obtain ⟨old, hold, hfronts⟩ := hwas
      by_cases hid : old.id = row.id
      · have hnames := (hright.forwards old hold name hfronts).1
        rw [hid, h.former old hold hid ⟨name, hfronts, hnone row hedited.there⟩, List.map_eq_nil_iff] at hnames
        exact hnames
      · exact absurd hfronts (hnone old ((hedited.others old hid).mpr hold))
    · exact hright.quiet name fun old hold hfronts => hwas ⟨old, hold, hfronts⟩
  · intro name hservers
    refine (aside_iff name).mpr ?_
    by_cases hboth : row.fronts name ∧ Taken after row
    · refine h.moved hboth.2 (fun hempty => hservers ?_) name hboth.1
      have htaken' : Forwards (world.dispatched after row).machines name (after.hostsOf row.id) :=
        forwards_taken hboth.1 hboth.2
      have hnames := htaken'.1
      rw [hempty, List.map_eq_nil_iff] at hnames
      exact hnames
    · have hsame : ((world.dispatched after row).machines name).servers = (world.machines name).servers :=
        servers_of_not hboth
      rw [hsame] at hservers
      by_cases hhost : name ∈ (after.hostsOf row.id).map lower
      · obtain ⟨host, hmem, rfl⟩ := List.mem_map.mp hhost
        exact h.beside host hmem hservers fun htaken hfronts => hboth ⟨hfronts, htaken⟩
      · unfold Aside
        rw [if_neg hhost]
        exact hright.apart name hservers

include hsound hedited in
theorem sound_dispatched : Sound (world.dispatched after row) := by
  refine ⟨hedited.sound, fun other hother host hhost port hport => ?_⟩
  by_cases hid : other.id = row.id
  · rw [hedited.sound.eq_of_id hother hedited.there hid] at hhost ⊢
    change host ∈ after.hostsOf row.id at hhost
    unfold World.dispatched at hport
    rw [desktop_of_host hhost, Option.mem_def, Option.map_eq_some_iff] at hport
    obtain ⟨_, _, heq⟩ := hport
    rw [heq]
  · rw [desktop_elsewhere hedited hid hhost] at hport
    apply hsound.told other ((hedited.others other hid).mp hother) host _ port hport
    rw [← hedited.hostsOf hid]
    exact hhost

end

/-- The world a deletion leaves. -/
def World.withdrawn (world : World) (row : Collection) : World where
  tables := world.tables.without row.id
  machines := ((brokers row).map fun broker => Task.broker broker (brokerTask row [] [])).foldl perform world.machines

section

variable {world : World}

theorem desktop_withdrawn (name : String) :
    ((world.withdrawn row).machines name).desktop = (world.machines name).desktop := by
  unfold World.withdrawn
  dsimp only
  rw [perform_brokers]
  split
  · exact desktop_applyBroker _ _
  · rfl

theorem servers_withdrawn (name : String) :
    ((world.withdrawn row).machines name).servers =
      if row.fronts name ∧ (routingOf (brokerTask row [] [])).isSome then [] else (world.machines name).servers := by
  unfold World.withdrawn
  dsimp only
  rw [perform_brokers]
  by_cases hfronts : name ∈ (brokers row).map lower
  · rw [if_pos hfronts, servers_applyBroker]
    by_cases htaken : (routingOf (brokerTask row [] [])).isSome = true
    · rw [if_pos htaken, if_pos ⟨hfronts, htaken⟩]
      rfl
    · rw [if_neg htaken, if_neg fun h => htaken h.2]
  · rw [if_neg hfronts, if_neg fun h => hfronts h.1]

theorem servers_withdrawn_or (name : String) :
    ((world.withdrawn row).machines name).servers = [] ∨
      ((world.withdrawn row).machines name).servers = (world.machines name).servers := by
  rw [servers_withdrawn]
  split
  · exact .inl rfl
  · exact .inr rfl

section
omit [Runtime]

theorem rowsOf_without {id : String} (h : id ≠ row.id) : (tables.without row.id).rowsOf id = tables.rowsOf id := by
  unfold Tables.rowsOf Tables.without
  rw [List.filter_filter]
  congr 1
  apply List.filter_congr
  intro host _
  by_cases hhost : host.collectionId = id
  · have hkept : host.collectionId ≠ row.id := fun heq => h (hhost.symm.trans heq)
    rw [decide_eq_true hkept, Bool.and_true]
  · rw [decide_eq_false hhost, Bool.false_and]

theorem mem_without {other : Collection} :
    other ∈ (tables.without row.id).collections ↔ other ∈ tables.collections ∧ other.id ≠ row.id := by
  unfold Tables.without
  rw [List.mem_filter, decide_eq_true_eq]

theorem hostsOf_without {id : String} (h : id ≠ row.id) : (tables.without row.id).hostsOf id = tables.hostsOf id := by
  unfold Tables.hostsOf
  rw [rowsOf_without h]

end

theorem fronts_of_refused (h : ¬ (routingOf (brokerTask row [] [])).isSome) : ∃ name, row.fronts name := by
  cases hbrokers : brokers row with
  | nil =>
      have htask : (brokerTask row [] []).brokers = [] := by
        unfold brokerTask
        dsimp only
        split
        · exact hbrokers
        · rfl
      refine absurd ?_ h
      unfold routingOf peerNames
      rw [htask]
      rfl
  | cons broker rest =>
      refine ⟨lower broker, ?_⟩
      unfold Collection.fronts
      rw [hbrokers]
      exact List.mem_cons_self

variable (hsound : Sound world) (hright : Right world) (hrow : row ∈ world.tables.collections)

include hsound hright hrow in
theorem servers_of_both {name : String} (hother : other ∈ world.tables.collections) (hne : other.id ≠ row.id)
    (hfronts : row.fronts name) (hfronts' : other.fronts name) : (world.machines name).servers = [] := by
  have hnames := (hright.forwards row hrow name hfronts).1
  have hnames' := (hright.forwards other hother name hfronts').1
  rw [← List.map_eq_nil_iff (f := Server.host), hnames]
  exact hsound.tables.hostsOf_eq_nil hne.symm (hnames.symm.trans hnames')

include hsound hright hrow in
theorem withdrawn_iff : Right (world.withdrawn row) ↔
    (routingOf (brokerTask row [] [])).isSome ∨ world.tables.hostsOf row.id = [] := by
  constructor
  · intro h
    by_contra hnot
    obtain ⟨hrefused, hhosts⟩ := not_or.mp hnot
    obtain ⟨name, hfronts⟩ := fronts_of_refused hrefused
    have hsame : ((world.withdrawn row).machines name).servers = (world.machines name).servers := by
      rw [servers_withdrawn, if_neg fun hboth => hrefused hboth.2]
    have hnone : (world.machines name).servers = [] := by
      by_cases hother : ∃ other ∈ (world.tables.without row.id).collections, other.fronts name
      · obtain ⟨other, hmem, hfronts'⟩ := hother
        obtain ⟨hthere, hne⟩ := mem_without.mp hmem
        exact servers_of_both hsound hright hrow hthere hne hfronts hfronts'
      · rw [← hsame]
        exact h.quiet name fun other hmem hfronts' => hother ⟨other, hmem, hfronts'⟩
    apply hhosts
    rw [← (hright.forwards row hrow name hfronts).1, hnone]
    rfl
  · intro h
    constructor
    · intro other hmem name hfronts'
      obtain ⟨hthere, hne⟩ := mem_without.mp hmem
      obtain ⟨hnames, hports⟩ := hright.forwards other hthere name hfronts'
      have hsame : ((world.withdrawn row).machines name).servers = (world.machines name).servers := by
        by_cases hfronts : row.fronts name
        · have hwithdrawn : ((world.withdrawn row).machines name).servers = [] ∨
              ((world.withdrawn row).machines name).servers = (world.machines name).servers := servers_withdrawn_or name
          rcases hwithdrawn with hnone | hsame
          · rw [hnone, servers_of_both hsound hright hrow hthere hne hfronts hfronts']
          · exact hsame
        · rw [servers_withdrawn, if_neg fun hboth => hfronts hboth.1]
      have hhosts : (world.withdrawn row).tables.hostsOf other.id = world.tables.hostsOf other.id := hostsOf_without hne
      unfold Forwards
      rw [hsame, hhosts]
      refine ⟨hnames, fun server hserver port hport => hports server hserver port ?_⟩
      rwa [desktop_withdrawn] at hport
    · intro name hnone
      have hnone' : ∀ other ∈ world.tables.collections, other.id ≠ row.id → ¬ other.fronts name :=
        fun other hother hne => hnone other (mem_without.mpr ⟨hother, hne⟩)
      by_cases hfronts : row.fronts name
      · rcases h with htaken | hhosts
        · rw [servers_withdrawn, if_pos ⟨hfronts, htaken⟩]
        · have hnames := (hright.forwards row hrow name hfronts).1
          rw [hhosts, List.map_eq_nil_iff] at hnames
          have hwithdrawn : ((world.withdrawn row).machines name).servers = [] ∨
              ((world.withdrawn row).machines name).servers = (world.machines name).servers := servers_withdrawn_or name
          rcases hwithdrawn with hempty | hsame
          · exact hempty
          · rw [hsame, hnames]
      · rw [servers_withdrawn, if_neg fun hboth => hfronts hboth.1]
        apply hright.quiet name
        intro other hother hfronts'
        by_cases hid : other.id = row.id
        · rw [hsound.tables.eq_of_id hother hrow hid] at hfronts'
          exact hfronts hfronts'
        · exact hnone' other hother hid hfronts'
    · intro name hservers
      rw [desktop_withdrawn]
      have hwithdrawn : ((world.withdrawn row).machines name).servers = [] ∨
          ((world.withdrawn row).machines name).servers = (world.machines name).servers := servers_withdrawn_or name
      rcases hwithdrawn with hempty | hsame
      · exact absurd hempty hservers
      · rw [hsame] at hservers
        exact hright.apart name hservers

include hsound in
theorem sound_withdrawn : Sound (world.withdrawn row) := by
  constructor
  · constructor
    · exact (List.filter_sublist.map Collection.id).nodup hsound.tables.ids
    · exact (List.filter_sublist.map Collection.name).nodup hsound.tables.names
    · exact fun other hother => hsound.tables.named other (mem_without.mp hother).1
    · intro host hhost
      change host ∈ (world.tables.without row.id).hosts at hhost
      unfold Tables.without at hhost
      rw [List.mem_filter, decide_eq_true_eq] at hhost
      obtain ⟨other, hother, hid⟩ := hsound.tables.listed host hhost.1
      exact ⟨other, mem_without.mpr ⟨hother, hid ▸ hhost.2⟩, hid⟩
    · intro host hhost other hother
      exact hsound.tables.once host (List.mem_of_mem_filter hhost) other (List.mem_of_mem_filter hother)
  · intro other hother host hhost port hport
    obtain ⟨hthere, hne⟩ := mem_without.mp hother
    rw [desktop_withdrawn] at hport
    change host ∈ (world.tables.without row.id).hostsOf other.id at hhost
    rw [hostsOf_without hne] at hhost
    exact hsound.told other hthere host hhost port hport

end

variable {world : World} {move : Move}

theorem next_edited (h : edited world.tables move = some (after, row)) : next world move = world.dispatched after row := by
  simp only [next, step, h]
  rfl

theorem next_deleted (hnot : edited world.tables move = none) (h : deleted world.tables move = some row) :
    next world move = world.withdrawn row := by
  simp only [next, step, hnot, h]
  rfl

theorem next_refused (hnot : edited world.tables move = none) (h : deleted world.tables move = none) :
    next world move = world := by
  simp only [next, step, hnot, h]
  rfl

theorem edited_of_deleted (h : deleted tables move = some row) : edited tables move = none := by
  cases move with
  | deleteCollection id allowed => rfl
  | createCollection _ _ _ => cases h
  | updateCollection _ _ => cases h
  | addHost _ _ _ => cases h
  | removeHost _ _ _ => cases h
  | drainHost _ _ _ _ => cases h

theorem sound_next (hsound : Sound world) : Sound (next world move) := by
  cases hedited : edited world.tables move with
  | some made =>
      rw [next_edited hedited]
      exact sound_dispatched hsound (edited_spec hsound.tables hedited)
  | none =>
      cases hdeleted : deleted world.tables move with
      | some row =>
          rw [next_deleted hedited hdeleted]
          exact sound_withdrawn hsound
      | none => rwa [next_refused hedited hdeleted]

theorem right_next_iff (hsound : Sound world) (hright : Right world) :
    Right (next world move) ↔ Admitted world move := by
  cases hedited : edited world.tables move with
  | some made =>
      obtain ⟨after, row⟩ := made
      have hspec := edited_spec hsound.tables hedited
      rw [next_edited hedited]
      constructor
      · intro h
        constructor
        · intro after' row' hsame
          rw [hedited] at hsame
          cases hsame
          exact clear_of_right hsound hright hspec h
        · intro row' hdeleted
          rw [edited_of_deleted hdeleted] at hedited
          cases hedited
      · exact fun h => right_of_clear hright hspec (h.edits after row hedited)
  | none =>
      cases hdeleted : deleted world.tables move with
      | some row =>
          rw [next_deleted hedited hdeleted, withdrawn_iff hsound hright (deleted_spec hdeleted)]
          constructor
          · intro h
            constructor
            · intro after row' hsome
              rw [hedited] at hsome
              cases hsome
            · intro row' hsame
              rw [hdeleted] at hsame
              cases hsame
              exact h
          · exact fun h => h.deletes row hdeleted
      | none =>
          rw [next_refused hedited hdeleted]
          refine iff_of_true hright ⟨fun after row hsome => ?_, fun row hsome => ?_⟩
          · rw [hedited] at hsome
            cases hsome
          · rw [hdeleted] at hsome
            cases hsome

theorem World.Fresh.sound (h : world.Fresh) : Sound world := by
  refine ⟨?_, fun row hrow => ?_⟩
  · constructor
    · rw [h.collections]
      exact List.nodup_nil
    · rw [h.collections]
      exact List.nodup_nil
    · rw [h.collections]
      exact fun row hrow => absurd hrow List.not_mem_nil
    · rw [h.hosts]
      exact fun host hhost => absurd hhost List.not_mem_nil
    · rw [h.hosts]
      exact fun host hhost => absurd hhost List.not_mem_nil
  · rw [h.collections] at hrow
    exact absurd hrow List.not_mem_nil

theorem World.Fresh.right (h : world.Fresh) : Right world := by
  refine ⟨fun row hrow => ?_, fun name _ => h.servers name, fun name hservers => absurd (h.servers name) hservers⟩
  rw [h.collections] at hrow
  exact absurd hrow List.not_mem_nil

theorem foldl_next (start : World) (moves : List Move) :
    moves.foldl next start =
      ⟨(Steps.run step start.tables moves).1, (Steps.run step start.tables moves).2.foldl perform start.machines⟩ := by
  induction moves generalizing start with
  | nil => rfl
  | cons move moves ih =>
      rw [List.foldl_cons, ih, Steps.run_cons, List.foldl_append]
      rfl

theorem routed_iff (start : World) (hfresh : start.Fresh) (moves : List Move) :
    (∀ before, before <+: moves → Right ⟨(Steps.run step start.tables before).1,
      (Steps.run step start.tables before).2.foldl perform start.machines⟩) ↔
      Steps.Each next Admitted start moves := by
  have hruns := @Steps.each_reached World Move next Right start moves
  simp only [foldl_next] at hruns
  rw [hruns, and_iff_right hfresh.right]
  have hsame := @Steps.each_iff World Move (fun world => Sound world ∧ Right world) next
    (fun world move => Right (next world move)) Admitted
    (fun world move hkeeps hgood => ⟨sound_next hkeeps.1, hgood⟩)
    (fun world move hkeeps => right_next_iff hkeeps.1 hkeeps.2) start ⟨hfresh.sound, hfresh.right⟩ moves
  exact hsame

/-- One machine has a desktop, and none forwards. -/
def bare : World := ⟨{}, fun name => ⟨if name = "desk.example.org" then some 3389 else none, none⟩⟩

/-- A collection with one host behind a broker, and another one that is given the same broker. -/
def shared : List Move := [
  .createCollection { name := "Office", brokerFqdn := "rd.example.org" } "1" true,
  .addHost "1" "desk.example.org" true,
  .createCollection { name := "Lab", brokerFqdn := "rd.example.org" } "2" true]

omit [Runtime] in
theorem routed_iff_shared :
    letI := Runtime.latin
    (∀ before, before <+: shared → Right ⟨(Steps.run step bare.tables before).1,
      (Steps.run step bare.tables before).2.foldl perform bare.machines⟩) ↔
      Steps.Each next Admitted bare shared :=
  @routed_iff Runtime.latin bare ⟨rfl, rfl, fun _ => rfl⟩ shared

omit [Runtime] in
theorem routing_overwritten :
    letI := Runtime.latin
    ∃ (start : World) (moves : List Move), start.Fresh ∧
      ¬ Right ⟨(Steps.run step start.tables moves).1,
        (Steps.run step start.tables moves).2.foldl perform start.machines⟩ := by
  let _ := Runtime.latin
  refine ⟨bare, shared, ⟨rfl, rfl, fun _ => rfl⟩, fun hright => ?_⟩
  have hforwards := (hright.forwards { id := "1", name := "Office", brokerFqdn := "rd.example.org" }
    (by decide +kernel) "rd.example.org" (by decide +kernel)).1
  exact absurd hforwards (by decide +kernel)

end OpenDirectory.RemoteDesktop
