import OpenDirectory.RemoteDesktop

/-! The external names of collections in the domain's DNS: the A records that creating, editing and deleting a collection
writes and takes away, among those that others keep in the same zones. -/

namespace OpenDirectory.ExternalNames

open RemoteDesktop (brokers validateFqdn validateName)

variable [Runtime]

structure Row extends RemoteDesktop.Collection where
  externalFqdn : String := ""
  externalDns : Bool := true

structure Record where
  zone : String
  name : String
  type : String
  data : String
  deriving DecidableEq

/-- What this machine and the name service of its own answer while a request is served. -/
structure Network where
  available : Bool := true
  lookup : String → List String

/-- The collections and the DNS, and which of the records that stand in it were written for which collection. -/
structure World where
  rows : List Row := []
  zones : List String := []
  records : List Record := []
  published : List (String × Record) := []

def isA (record : Record) : Bool := record.type.toUpper = "A"

/-- An A record of this name. -/
def isAt (label zone : String) (record : Record) : Bool :=
  lower record.zone = lower zone && lower record.name = lower label && isA record

def dnsPlacement (fqdn : String) : String × String := (Text.cut '.' fqdn).getD (fqdn, "")

def external (row : Row) : String := Text.strip Runtime.blank row.externalFqdn

/-- The addresses that are missing, and those that are stale. -/
def externalRecords (existing : List Record) (label : String) (addresses : List String) : List String × List String :=
  let wanted := addresses.eraseDups
  let found := (existing.filter fun record => lower record.name = lower label && isA record).map Record.data
  (wanted.filter fun address => address ∉ found, found.filter fun address => address ∉ wanted)

def addRecord (id label zone : String) (world : World) (address : String) : World :=
  let record : Record := ⟨zone, label, "A", address⟩
  { world with records := world.records ++ [record], published := world.published ++ [(id, record)] }

def deleteRecord (label zone : String) (world : World) (address : String) : World :=
  { world with
    records := world.records.filter fun record => !(isAt label zone record && record.data = address)
    published := world.published.filter fun entry => !(isAt label zone entry.2 && entry.2.data = address) }

def listRecords (world : World) (zone : String) : List Record :=
  world.records.filter fun record => lower record.zone = lower zone

def createZone (world : World) (zone : String) : World :=
  if lower zone ∈ world.zones.map lower then world else { world with zones := world.zones ++ [zone] }

def addressesOf (network : Network) (row : Row) : List String := (brokers row.toCollection).flatMap network.lookup

def publishExternalName (network : Network) (row : Row) (world : World) : World :=
  if external row = "" || !row.externalDns || !network.available then world
  else
    let (label, zone) := dnsPlacement (external row)
    let world := createZone world zone
    let addresses := addressesOf network row
    if addresses = [] then world
    else
      let (add, remove) := externalRecords (listRecords world zone) label addresses
      remove.foldl (deleteRecord label zone) (add.foldl (addRecord row.id label zone) world)

def retireExternalName (network : Network) (row : Row) (world : World) : World :=
  if external row = "" || !row.externalDns || !network.available then world
  else
    let (label, zone) := dnsPlacement (external row)
    let (_, remove) := externalRecords (listRecords world zone) label []
    remove.foldl (deleteRecord label zone) world

structure CollectionIn extends RemoteDesktop.CollectionIn where
  externalFqdn : String := ""
  externalDns : Bool := true

structure CollectionUpdate extends RemoteDesktop.CollectionUpdate where
  externalFqdn : Option String := none
  externalDns : Option Bool := none

/-- The rights and the checks of the fields that are left out are left open. Between two requests somebody may have made
the records other ones. -/
inductive Move where
  | create (body : CollectionIn) (id : String) (allowed : Bool) (network : Network)
  | update (body : CollectionUpdate) (allowed : Bool) (network : Network)
  | delete (id : String) (allowed : Bool) (network : Network)
  | records (records : List Record)

def createCollection (rows : List Row) (body : CollectionIn) (id : String) : Option (List Row × Row) := do
  let name ← validateName body.name
  let secondary ← validateFqdn body.brokerSecondaryFqdn
  let externalFqdn ← validateFqdn body.externalFqdn
  guard (∀ row ∈ rows, lower row.name ≠ lower name ∧ row.name ≠ name ∧ row.id ≠ id)
  let row : Row := {
    id, name, externalFqdn
    externalDns := body.externalDns
    brokerFqdn := body.brokerFqdn
    brokerSecondaryFqdn := secondary
    balanceMethod := body.balanceMethod
    idleMinutes := body.idleMinutes
    disconnectedMinutes := body.disconnectedMinutes }
  return (rows ++ [row], row)

def updateCollection (rows : List Row) (body : CollectionUpdate) : Option (List Row × Row) := do
  let row ← rows.find? fun row => row.id = body.id
  let secondary ← body.brokerSecondaryFqdn.mapM validateFqdn
  let externalFqdn ← body.externalFqdn.mapM validateFqdn
  let updated : Row := { row with
    externalFqdn := externalFqdn.getD row.externalFqdn
    externalDns := body.externalDns.getD row.externalDns
    brokerFqdn := body.brokerFqdn.getD row.brokerFqdn
    brokerSecondaryFqdn := secondary.getD row.brokerSecondaryFqdn
    balanceMethod := body.balanceMethod.getD row.balanceMethod
    idleMinutes := body.idleMinutes.getD row.idleMinutes
    disconnectedMinutes := body.disconnectedMinutes.getD row.disconnectedMinutes }
  return (rows.map fun other => if other.id = body.id then updated else other, updated)

/-- The collections after a request that saves one, and that one. -/
def saved (rows : List Row) : Move → Option ((List Row × Row) × Network)
  | .create body id allowed network => if allowed then (createCollection rows body id).map (·, network) else none
  | .update body allowed network => if allowed then (updateCollection rows body).map (·, network) else none
  | _ => none

/-- The collection a request deletes. -/
def deleted (rows : List Row) : Move → Option (Row × Network)
  | .delete id allowed network => if allowed then (rows.find? fun row => row.id = id).map (·, network) else none
  | _ => none

def next (world : World) (move : Move) : World :=
  match move with
  | .records records =>
      { world with records, published := world.published.filter fun entry => entry.2 ∈ records }
  | _ =>
      match saved world.rows move with
      | some ((rows, row), network) => publishExternalName network row { world with rows }
      | none =>
          match deleted world.rows move with
          | some (row, network) =>
              let world := retireExternalName network row world
              { world with rows := world.rows.filter fun other => other.id ≠ row.id }
          | none => world

/-- The name of a collection, where it has one. -/
def placeOf (row : Row) : Option (String × String) :=
  if external row = "" then none
  else some ((lower (dnsPlacement (external row)).1), (lower (dnsPlacement (external row)).2))

def Stands (row : Row) (record : Record) : Prop := placeOf row = some (lower record.name, lower record.zone)

instance (row : Row) (record : Record) : Decidable (Stands row record) := inferInstanceAs (Decidable (_ = _))

/-- The collection a request is about. -/
def subject (rows : List Row) (move : Move) : Option String :=
  ((saved rows move).map fun saved => saved.1.2.id) <|> ((deleted rows move).map fun deleted => deleted.1.id)

/-- A name that resolves to these addresses and no others. -/
def Resolves (records : List Record) (row : Row) (addresses : List String) : Prop :=
  ∀ address, (∃ record ∈ records, isA record = true ∧ Stands row record ∧ record.data = address) ↔ address ∈ addresses

structure Right (world : World) (move : Move) : Prop where
  own : ∀ id ∈ subject world.rows move, ∀ record ∈ world.records, record ∉ (next world move).records →
    isA record = true ∧ (id, record) ∈ world.published
  resolves : ∀ found ∈ saved world.rows move, external found.1.2 ≠ "" → found.1.2.externalDns = true →
    Resolves (next world move).records found.1.2 (addressesOf found.2 found.1.2)
  left : ∀ entry ∈ (next world move).published, ∃ row ∈ (next world move).rows, row.id = entry.1 ∧ Stands row entry.2

/-- The records at the name are the broker addresses and others that were written for this collection; or the name is not
published now, and resolves already. -/
def Clear (world : World) (row : Row) (network : Network) : Prop :=
  if network.available = true ∧ addressesOf network row ≠ [] then
    ∀ record ∈ world.records, isA record = true → Stands row record → record.data ∉ addressesOf network row →
      (row.id, record) ∈ world.published
  else Resolves world.records row (addressesOf network row)

/-- A save finds the name clear, and gives none up that records were written for; a deletion takes all there are. -/
structure Fits (world : World) (move : Move) : Prop where
  clear : ∀ found ∈ saved world.rows move, external found.1.2 ≠ "" → found.1.2.externalDns = true →
    Clear world found.1.2 found.2
  kept : ∀ found ∈ saved world.rows move, ∀ record, (found.1.2.id, record) ∈ world.published → Stands found.1.2 record
  retired : ∀ found ∈ deleted world.rows move,
    if external found.1 ≠ "" ∧ found.1.externalDns = true ∧ found.2.available = true then
      ∀ record ∈ world.records, isA record = true → Stands found.1 record → (found.1.id, record) ∈ world.published
    else ∀ record, (found.1.id, record) ∉ world.published

theorem isAt_iff {row : Row} (hrow : external row ≠ "") (record : Record) :
    isAt (dnsPlacement (external row)).1 (dnsPlacement (external row)).2 record = true ↔
      isA record = true ∧ Stands row record := by
  rw [isAt, Stands, placeOf, if_neg hrow, Option.some.injEq, Prod.mk.injEq, Bool.and_eq_true, Bool.and_eq_true,
    decide_eq_true_eq, decide_eq_true_eq]
  constructor
  · exact fun ⟨⟨hzone, hname⟩, ha⟩ => ⟨ha, hname.symm, hzone.symm⟩
  · exact fun ⟨ha, hname, hzone⟩ => ⟨⟨hzone.symm, hname.symm⟩, ha⟩

omit [Runtime] in
theorem foldl_addRecord (id label zone : String) (add : List String) (world : World) :
    add.foldl (addRecord id label zone) world = { world with
      records := world.records ++ add.map fun address => ⟨zone, label, "A", address⟩
      published := world.published ++ add.map fun address => (id, ⟨zone, label, "A", address⟩) } := by
  induction add generalizing world with
  | nil =>
      rw [List.foldl_nil, List.map_nil, List.append_nil, List.map_nil, List.append_nil]
  | cons address add ih =>
      rw [List.foldl_cons, ih]
      simp only [addRecord, List.append_assoc, List.singleton_append, List.map_cons]

theorem foldl_deleteRecord (label zone : String) (remove : List String) (world : World) :
    remove.foldl (deleteRecord label zone) world = { world with
      records := world.records.filter fun record => !(isAt label zone record && decide (record.data ∈ remove))
      published := world.published.filter fun entry => !(isAt label zone entry.2 && decide (entry.2.data ∈ remove)) } := by
  induction remove generalizing world with
  | nil => simp
  | cons address remove ih =>
      rw [List.foldl_cons, ih]
      have hfilter : ∀ record : Record, ((!(isAt label zone record && decide (record.data = address))) &&
          !(isAt label zone record && decide (record.data ∈ remove))) =
          !(isAt label zone record && decide (record.data ∈ address :: remove)) := by
        intro record
        rw [← Bool.not_or, ← Bool.and_or_distrib_left, ← Bool.decide_or, decide_eq_decide.mpr List.mem_cons]
      simp only [deleteRecord, List.filter_filter]
      congr 1
      · refine List.filter_congr fun record _ => ?_
        rw [Bool.and_comm, hfilter]
      · refine List.filter_congr fun entry _ => ?_
        rw [Bool.and_comm, hfilter]

theorem mem_stale {existing : List Record} {label address : String} {addresses : List String} :
    address ∈ (externalRecords existing label addresses).2 ↔
      (∃ record ∈ existing, lower record.name = lower label ∧ isA record = true ∧ record.data = address) ∧
        address ∉ addresses := by
  simp only [externalRecords, List.mem_filter, List.mem_map, Bool.and_eq_true, decide_eq_true_eq, List.mem_eraseDups]
  constructor
  · exact fun ⟨⟨record, ⟨hmem, hname, ha⟩, hdata⟩, hnot⟩ => ⟨⟨record, hmem, hname, ha, hdata⟩, hnot⟩
  · exact fun ⟨⟨record, hmem, hname, ha, hdata⟩, hnot⟩ => ⟨⟨record, ⟨hmem, hname, ha⟩, hdata⟩, hnot⟩

theorem mem_missing {existing : List Record} {label address : String} {addresses : List String} :
    address ∈ (externalRecords existing label addresses).1 ↔ address ∈ addresses ∧
      ∀ record ∈ existing, lower record.name = lower label → isA record = true → record.data ≠ address := by
  simp only [externalRecords, List.mem_filter, List.mem_map, Bool.and_eq_true, decide_eq_true_eq, List.mem_eraseDups]
  constructor
  · intro ⟨hmem, hnot⟩
    exact ⟨hmem, fun record hrecord hname ha hdata => hnot ⟨record, ⟨hrecord, hname, ha⟩, hdata⟩⟩
  · intro ⟨hmem, hnot⟩
    exact ⟨hmem, fun ⟨record, ⟨hrecord, hname, ha⟩, hdata⟩ => hnot record hrecord hname ha hdata⟩

theorem records_createZone (world : World) (zone : String) : (createZone world zone).records = world.records := by
  unfold createZone
  split_ifs
  · rfl
  · rfl

theorem published_createZone (world : World) (zone : String) : (createZone world zone).published = world.published := by
  unfold createZone
  split_ifs
  · rfl
  · rfl

theorem rows_createZone (world : World) (zone : String) : (createZone world zone).rows = world.rows := by
  unfold createZone
  split_ifs
  · rfl
  · rfl

/-- A save that writes: whether its name is published, this machine has the tool and a broker an address. -/
def Writes (network : Network) (row : Row) : Prop :=
  external row ≠ "" ∧ row.externalDns = true ∧ network.available = true ∧ addressesOf network row ≠ []

theorem publish_of_not {network : Network} {row : Row} (h : ¬ Writes network row) (world : World) :
    (publishExternalName network row world).records = world.records ∧
      (publishExternalName network row world).published = world.published ∧
        (publishExternalName network row world).rows = world.rows := by
  unfold publishExternalName
  split_ifs with hnone
  · exact ⟨rfl, rfl, rfl⟩
  · dsimp only
    rw [if_pos]
    · exact ⟨records_createZone _ _, published_createZone _ _, rows_createZone _ _⟩
    · by_contra haddresses
      rw [Bool.or_eq_true, Bool.or_eq_true, not_or, not_or, decide_eq_true_eq, Bool.not_eq_true', Bool.not_eq_false,
        Bool.not_eq_true', Bool.not_eq_false] at hnone
      exact h ⟨hnone.1.1, hnone.1.2, hnone.2, haddresses⟩

/-- The records at the name that are none of its addresses go, and the addresses that are missing come. -/
theorem publish_of_writes {network : Network} {row : Row} (h : Writes network row) (world : World) :
    (∀ record, record ∈ (publishExternalName network row world).records ↔
        record ∈ world.records ∧ (isA record = true → Stands row record → record.data ∈ addressesOf network row) ∨
        ∃ address ∈ addressesOf network row, (∀ other ∈ world.records, isA other = true → Stands row other →
          other.data ≠ address) ∧ record = ⟨(dnsPlacement (external row)).2, (dnsPlacement (external row)).1, "A", address⟩) ∧
      (∀ entry, entry ∈ (publishExternalName network row world).published →
        entry ∈ world.published ∨ entry.1 = row.id ∧ Stands row entry.2) ∧
      (∀ entry ∈ world.published, ¬ Stands row entry.2 → entry ∈ (publishExternalName network row world).published) ∧
        (publishExternalName network row world).rows = world.rows := by
  obtain ⟨hrow, hdns, havailable, haddresses⟩ := h
  have hlisted : ∀ record, (record ∈ listRecords (createZone world (dnsPlacement (external row)).2) (dnsPlacement (external row)).2 ∧
      lower record.name = lower (dnsPlacement (external row)).1 ∧ isA record = true) ↔
      record ∈ world.records ∧ isA record = true ∧ Stands row record := by
    intro record
    rw [listRecords, List.mem_filter, records_createZone, ← isAt_iff hrow, isAt, Bool.and_eq_true, Bool.and_eq_true,
      decide_eq_true_eq, decide_eq_true_eq]
    exact ⟨fun ⟨⟨hmem, hzone⟩, hname, ha⟩ => ⟨hmem, ⟨hzone, hname⟩, ha⟩,
      fun ⟨hmem, ⟨hzone, hname⟩, ha⟩ => ⟨⟨hmem, hzone⟩, hname, ha⟩⟩
  have hhave : ∀ address, (∃ record ∈ listRecords (createZone world (dnsPlacement (external row)).2)
      (dnsPlacement (external row)).2, lower record.name = lower (dnsPlacement (external row)).1 ∧
        isA record = true ∧ record.data = address) ↔
      ∃ record ∈ world.records, isA record = true ∧ Stands row record ∧ record.data = address := by
    intro address
    constructor
    · intro ⟨record, hmem, hname, ha, hdata⟩
      have hfound := (hlisted record).mp ⟨hmem, hname, ha⟩
      exact ⟨record, hfound.1, hfound.2.1, hfound.2.2, hdata⟩
    · intro ⟨record, hmem, ha, hstands, hdata⟩
      have hfound := (hlisted record).mpr ⟨hmem, ha, hstands⟩
      exact ⟨record, hfound.1, hfound.2.1, hfound.2.2, hdata⟩
  have hstale : ∀ record, (isAt (dnsPlacement (external row)).1 (dnsPlacement (external row)).2 record = true ∧
      record.data ∈ (externalRecords (listRecords (createZone world (dnsPlacement (external row)).2)
        (dnsPlacement (external row)).2) (dnsPlacement (external row)).1 (addressesOf network row)).2) ↔
      (isA record = true ∧ Stands row record) ∧ (∃ other ∈ world.records, isA other = true ∧ Stands row other ∧
        other.data = record.data) ∧ record.data ∉ addressesOf network row := by
    intro record
    rw [isAt_iff hrow, mem_stale, hhave]
  unfold publishExternalName
  rw [if_neg (by simp [hrow, hdns, havailable])]
  dsimp only
  rw [if_neg haddresses, foldl_addRecord, foldl_deleteRecord]
  refine ⟨fun record => ?_, fun entry hentry => ?_, fun entry hentry hnot => ?_, rows_createZone _ _⟩
  · rw [List.mem_filter, List.mem_append, List.mem_map, records_createZone, Bool.not_eq_true', Bool.and_eq_false_imp,
      decide_eq_false_iff_not]
    constructor
    · intro ⟨hmem, hkept⟩
      rcases hmem with hmem | ⟨address, hmissing, rfl⟩
      · refine .inl ⟨hmem, fun ha hstands => ?_⟩
        by_contra hnot
        have hgone := (hstale record).mpr ⟨⟨ha, hstands⟩, ⟨record, hmem, ha, hstands, rfl⟩, hnot⟩
        exact hkept hgone.1 hgone.2
      · obtain ⟨hwanted, hnone⟩ := mem_missing.mp hmissing
        refine .inr ⟨address, hwanted, fun other hmem ha hstands hdata => ?_, rfl⟩
        have hfound := (hlisted other).mpr ⟨hmem, ha, hstands⟩
        exact hnone other hfound.1 hfound.2.1 hfound.2.2 hdata
    · intro h
      rcases h with ⟨hmem, hwanted⟩ | ⟨address, hwanted, hnone, rfl⟩
      · refine ⟨.inl hmem, fun hisAt hdata => ?_⟩
        obtain ⟨⟨ha, hstands⟩, -, hnot⟩ := (hstale record).mp ⟨hisAt, hdata⟩
        exact hnot (hwanted ha hstands)
      · refine ⟨.inr ⟨address, mem_missing.mpr ⟨hwanted, fun other hmem hname ha => ?_⟩, rfl⟩, fun hisAt hdata => ?_⟩
        · have hfound := (hlisted other).mp ⟨hmem, hname, ha⟩
          exact hnone other hfound.1 hfound.2.1 hfound.2.2
        · exact ((hstale _).mp ⟨hisAt, hdata⟩).2.2 hwanted
  · rcases List.mem_append.mp (List.mem_filter.mp hentry).1 with hmem | hmem
    · exact .inl (published_createZone world _ ▸ hmem)
    · obtain ⟨address, -, rfl⟩ := List.mem_map.mp hmem
      refine .inr ⟨rfl, ?_⟩
      rw [Stands, placeOf, if_neg hrow]
  · refine List.mem_filter.mpr ⟨List.mem_append_left _ (published_createZone world _ ▸ hentry), ?_⟩
    rw [Bool.not_eq_true', Bool.and_eq_false_imp]
    exact fun hisAt => absurd ((isAt_iff hrow entry.2).mp hisAt).2 hnot

/-- A deletion that takes records away. -/
def Retires (network : Network) (row : Row) : Prop :=
  external row ≠ "" ∧ row.externalDns = true ∧ network.available = true

theorem retire_of_not {network : Network} {row : Row} (h : ¬ Retires network row) (world : World) :
    retireExternalName network row world = world := by
  unfold retireExternalName
  rw [if_pos]
  by_contra hnone
  rw [Bool.or_eq_true, Bool.or_eq_true, not_or, not_or, decide_eq_true_eq, Bool.not_eq_true', Bool.not_eq_false,
    Bool.not_eq_true', Bool.not_eq_false] at hnone
  exact h ⟨hnone.1.1, hnone.1.2, hnone.2⟩

theorem retire_of_retires {network : Network} {row : Row} (h : Retires network row) (world : World) :
    (∀ record, record ∈ (retireExternalName network row world).records ↔
        record ∈ world.records ∧ (isA record = true → ¬ Stands row record)) ∧
      (∀ entry, entry ∈ (retireExternalName network row world).published → entry ∈ world.published ∧
        (entry.2 ∈ world.records → isA entry.2 = true → ¬ Stands row entry.2)) ∧
      (∀ entry ∈ world.published, ¬ Stands row entry.2 →
        entry ∈ (retireExternalName network row world).published) ∧
      (retireExternalName network row world).rows = world.rows := by
  obtain ⟨hrow, hdns, havailable⟩ := h
  have hstale : ∀ record, isAt (dnsPlacement (external row)).1 (dnsPlacement (external row)).2 record = true →
      record ∈ world.records → record.data ∈ (externalRecords (listRecords world (dnsPlacement (external row)).2)
        (dnsPlacement (external row)).1 []).2 := by
    intro record hisAt hmem
    have hparts := hisAt
    rw [isAt, Bool.and_eq_true, Bool.and_eq_true, decide_eq_true_eq, decide_eq_true_eq] at hparts
    refine mem_stale.mpr ⟨⟨record, List.mem_filter.mpr ⟨hmem, ?_⟩, hparts.1.2, hparts.2, rfl⟩, List.not_mem_nil⟩
    exact decide_eq_true_eq.mpr hparts.1.1
  unfold retireExternalName
  rw [if_neg (by simp [hrow, hdns, havailable])]
  dsimp only
  rw [foldl_deleteRecord]
  refine ⟨fun record => ?_, fun entry hentry => ?_, fun entry hentry hnot => ?_, rfl⟩
  · rw [List.mem_filter, Bool.not_eq_true', Bool.and_eq_false_imp, decide_eq_false_iff_not, and_congr_right_iff]
    intro hmem
    constructor
    · intro hkept ha hstands
      have hisAt := (isAt_iff hrow record).mpr ⟨ha, hstands⟩
      exact hkept hisAt (hstale record hisAt hmem)
    · intro hnot hisAt
      have hparts := (isAt_iff hrow record).mp hisAt
      exact absurd hparts.2 (hnot hparts.1)
  · obtain ⟨hmem, hkept⟩ := List.mem_filter.mp hentry
    rw [Bool.not_eq_true', Bool.and_eq_false_imp, decide_eq_false_iff_not] at hkept
    refine ⟨hmem, fun hrecord ha hstands => ?_⟩
    have hisAt := (isAt_iff hrow entry.2).mpr ⟨ha, hstands⟩
    exact hkept hisAt (hstale entry.2 hisAt hrecord)
  · refine List.mem_filter.mpr ⟨hentry, ?_⟩
    rw [Bool.not_eq_true', Bool.and_eq_false_imp]
    exact fun hisAt => absurd ((isAt_iff hrow entry.2).mp hisAt).2 hnot

theorem created {rows : List Row} {body : CollectionIn} {id : String} {found : List Row × Row}
    (h : createCollection rows body id = some found) :
    found.1 = rows ++ [found.2] ∧ ∀ row ∈ rows, row.id ≠ found.2.id := by
  simp only [createCollection, Option.bind_eq_bind, Option.bind_eq_some_iff, Option.pure_def, Option.some.injEq,
    Option.guard_eq_some'] at h
  obtain ⟨name, -, secondary, -, externalFqdn, -, _, hnew, rfl⟩ := h
  exact ⟨rfl, fun row hrow => (hnew row hrow).2.2⟩

theorem updated {rows : List Row} {body : CollectionUpdate} {found : List Row × Row}
    (h : updateCollection rows body = some found) :
    found.1 = rows.map (fun row => if row.id = found.2.id then found.2 else row) ∧ ∃ row ∈ rows, row.id = found.2.id := by
  simp only [updateCollection, Option.bind_eq_bind, Option.bind_eq_some_iff, Option.pure_def, Option.some.injEq] at h
  obtain ⟨row, hfind, secondary, -, externalFqdn, -, rfl⟩ := h
  have hid : row.id = body.id := by simpa using List.find?_some hfind
  rw [← hid]
  exact ⟨rfl, row, List.mem_of_find?_eq_some hfind, rfl⟩

variable {found : (List Row × Row) × Network} {world : World}

theorem saved_rows {rows : List Row} {move : Move}
    (h : saved rows move = some found) :
    found.1.2 ∈ found.1.1 ∧ (∀ row ∈ found.1.1, row.id = found.1.2.id → row = found.1.2) ∧
      (∀ row, row.id ≠ found.1.2.id → (row ∈ found.1.1 ↔ row ∈ rows)) := by
  have hcases : (found.1.1 = rows ++ [found.1.2] ∧ ∀ row ∈ rows, row.id ≠ found.1.2.id) ∨
      found.1.1 = rows.map (fun row => if row.id = found.1.2.id then found.1.2 else row) ∧
        ∃ row ∈ rows, row.id = found.1.2.id := by
    cases move with
    | create body id allowed network =>
        simp only [saved, Option.ite_none_right_eq_some, Option.map_eq_some_iff] at h
        obtain ⟨-, both, hboth, rfl⟩ := h
        exact .inl (created hboth)
    | update body allowed network =>
        simp only [saved, Option.ite_none_right_eq_some, Option.map_eq_some_iff] at h
        obtain ⟨-, both, hboth, rfl⟩ := h
        exact .inr (updated hboth)
    | delete id allowed network => cases h
    | records records => cases h
  rcases hcases with ⟨hrows, hnew⟩ | ⟨hrows, old, hold, hid⟩
  · rw [hrows]
    refine ⟨List.mem_append_right _ List.mem_cons_self, fun row hrow hsame => ?_, fun row hother => ?_⟩
    · rcases List.mem_append.mp hrow with hrow | hrow
      · exact absurd hsame (hnew row hrow)
      · exact List.mem_singleton.mp hrow
    · rw [List.mem_append, List.mem_singleton]
      exact ⟨fun hrow => hrow.resolve_right fun heq => hother (heq ▸ rfl), .inl⟩
  · rw [hrows]
    refine ⟨List.mem_map.mpr ⟨old, hold, if_pos hid⟩, fun row hrow hsame => ?_, fun row hother => ?_⟩
    · obtain ⟨before, -, rfl⟩ := List.mem_map.mp hrow
      split_ifs at hsame ⊢ with hbefore
      · rfl
      · exact absurd hsame hbefore
    · constructor
      · intro hrow
        obtain ⟨before, hbefore, rfl⟩ := List.mem_map.mp hrow
        split_ifs at hother ⊢
        · exact absurd rfl hother
        · exact hbefore
      · exact fun hrow => List.mem_map.mpr ⟨row, hrow, if_neg hother⟩

theorem deleted_row {rows : List Row} {move : Move} {found : Row × Network} (h : deleted rows move = some found) :
    found.1 ∈ rows ∧ saved rows move = none := by
  cases move with
  | delete id allowed network =>
      simp only [deleted, Option.ite_none_right_eq_some, Option.map_eq_some_iff] at h
      obtain ⟨-, row, hrow, rfl⟩ := h
      exact ⟨List.mem_of_find?_eq_some hrow, rfl⟩
  | create body id allowed network => cases h
  | update body allowed network => cases h
  | records records => cases h

def Standing (world : World) : Prop := ∀ entry ∈ world.published, entry.2 ∈ world.records ∧ isA entry.2 = true

omit [Runtime] in
theorem Standing.add (h : Standing world) (id label zone address : String) :
    Standing (addRecord id label zone world address) := by
  intro entry hentry
  rcases List.mem_append.mp hentry with hentry | hentry
  · exact ⟨List.mem_append_left _ (h entry hentry).1, (h entry hentry).2⟩
  · rw [List.mem_singleton.mp hentry]
    have hupper : "A".toUpper = "A" := by decide +kernel
    exact ⟨List.mem_append_right _ List.mem_cons_self, decide_eq_true_eq.mpr hupper⟩

theorem Standing.delete (h : Standing world) (label zone address : String) :
    Standing (deleteRecord label zone world address) := by
  intro entry hentry
  obtain ⟨hentry, hkept⟩ := List.mem_filter.mp hentry
  exact ⟨List.mem_filter.mpr ⟨(h entry hentry).1, hkept⟩, (h entry hentry).2⟩

omit [Runtime] in
theorem Standing.foldl {step : World → String → World} (hstep : ∀ world address, Standing world →
    Standing (step world address)) (h : Standing world) (addresses : List String) :
    Standing (addresses.foldl step world) := by
  induction addresses generalizing world with
  | nil => exact h
  | cons address addresses ih => exact ih (hstep world address h)

theorem Standing.publish (h : Standing world) (network : Network) (row : Row) :
    Standing (publishExternalName network row world) := by
  have hzone : Standing (createZone world (dnsPlacement (external row)).2) := by
    rw [Standing, records_createZone, published_createZone]
    exact h
  unfold publishExternalName
  split_ifs
  · exact h
  · dsimp only
    split_ifs
    · exact hzone
    · exact Standing.foldl (fun _ address h => h.delete _ _ address) (Standing.foldl
        (fun _ address h => h.add _ _ _ address) hzone _) _

theorem Standing.retire (h : Standing world) (network : Network) (row : Row) :
    Standing (retireExternalName network row world) := by
  unfold retireExternalName
  split_ifs
  · exact h
  · exact Standing.foldl (fun _ address h => h.delete _ _ address) h _

omit [Runtime] in
theorem Standing.rows (h : Standing world) (rows : List Row) : Standing { world with rows } := h

/-- What is written for a collection stands at its name as an A record. -/
structure Tidy (world : World) : Prop where
  unique : ∀ row ∈ world.rows, ∀ other ∈ world.rows, row.id = other.id → row = other
  stand : Standing world
  placed : ∀ entry ∈ world.published, ∃ row ∈ world.rows, row.id = entry.1 ∧ Stands row entry.2

theorem next_saved {move : Move}
    (h : saved world.rows move = some found) :
    next world move = publishExternalName found.2 found.1.2 { world with rows := found.1.1 } := by
  cases move with
  | records records => cases h
  | create body id allowed network => rw [next, h]; simp
  | update body allowed network => rw [next, h]; simp
  | delete id allowed network => cases h

theorem next_deleted {move : Move} {found : Row × Network} (h : deleted world.rows move = some found) :
    next world move = { retireExternalName found.2 found.1 world with
      rows := (retireExternalName found.2 found.1 world).rows.filter fun other => other.id ≠ found.1.id } := by
  cases move with
  | records records => cases h
  | create body id allowed network => cases h
  | update body allowed network => cases h
  | delete id allowed network => simp only [next, h, saved]

theorem next_none {move : Move} (hsaved : saved world.rows move = none)
    (hdeleted : deleted world.rows move = none) (hrecords : ∀ records, move ≠ .records records) :
    next world move = world := by
  cases move with
  | records records => exact absurd rfl (hrecords records)
  | create body id allowed network => simp only [next, hsaved, hdeleted]
  | update body allowed network => simp only [next, hsaved, hdeleted]
  | delete id allowed network => simp only [next, hsaved, hdeleted]

theorem rows_publish (network : Network) (row : Row) (world : World) :
    (publishExternalName network row world).rows = world.rows := by
  by_cases hwrites : Writes network row
  · exact (publish_of_writes hwrites world).2.2.2
  · exact (publish_of_not hwrites world).2.2

theorem rows_retire (network : Network) (row : Row) (world : World) :
    (retireExternalName network row world).rows = world.rows := by
  by_cases hretires : Retires network row
  · exact (retire_of_retires hretires world).2.2.2
  · rw [retire_of_not hretires]

theorem published_publish (network : Network) (row : Row) (world : World) :
    (∀ entry ∈ (publishExternalName network row world).published,
        entry ∈ world.published ∨ entry.1 = row.id ∧ Stands row entry.2) ∧
      ∀ entry ∈ world.published, ¬ Stands row entry.2 →
        entry ∈ (publishExternalName network row world).published := by
  by_cases hwrites : Writes network row
  · exact ⟨(publish_of_writes hwrites world).2.1, (publish_of_writes hwrites world).2.2.1⟩
  · rw [(publish_of_not hwrites world).2.1]
    exact ⟨fun entry hentry => .inl hentry, fun entry hentry _ => hentry⟩

theorem Tidy.next (h : Tidy world) {move : Move} (hright : Right world move) :
    Tidy (ExternalNames.next world move) := by
  have hkeeps : (∀ row ∈ (ExternalNames.next world move).rows, ∀ other ∈ (ExternalNames.next world move).rows,
      row.id = other.id → row = other) ∧ Standing (ExternalNames.next world move) := by
    cases hsaved : saved world.rows move with
    | some found =>
        obtain ⟨-, hone, hothers⟩ := saved_rows hsaved
        rw [next_saved hsaved, rows_publish]
        refine ⟨fun row hrow other hother hsame => ?_, (h.stand.rows found.1.1).publish found.2 found.1.2⟩
        by_cases hid : row.id = found.1.2.id
        · rw [hone row hrow hid, hone other hother (hsame ▸ hid)]
        · exact h.unique row ((hothers row hid).mp hrow) other ((hothers other (hsame ▸ hid)).mp hother) hsame
    | none =>
        cases hdeleted : deleted world.rows move with
        | some found =>
            rw [next_deleted hdeleted]
            refine ⟨fun row hrow other hother => ?_, (h.stand.retire found.2 found.1).rows _⟩
            rw [rows_retire] at hrow hother
            exact h.unique row (List.mem_filter.mp hrow).1 other (List.mem_filter.mp hother).1
        | none =>
            by_cases hrecords : ∃ records, move = .records records
            · obtain ⟨records, rfl⟩ := hrecords
              refine ⟨h.unique, fun entry hentry => ?_⟩
              obtain ⟨hentry, hstill⟩ := List.mem_filter.mp hentry
              exact ⟨decide_eq_true_eq.mp hstill, (h.stand entry hentry).2⟩
            · rw [next_none hsaved hdeleted fun records heq => hrecords ⟨records, heq⟩]
              exact ⟨h.unique, h.stand⟩
  exact ⟨hkeeps.1, hkeeps.2, hright.left⟩

/-- Publishing takes only what was written for the collection, and the name resolves, when it finds the name clear. -/
theorem publish_iff (network : Network) (row : Row) (world : World) :
    ((∀ record ∈ world.records, record ∉ (publishExternalName network row world).records →
        isA record = true ∧ (row.id, record) ∈ world.published) ∧
      (external row ≠ "" → row.externalDns = true →
        Resolves (publishExternalName network row world).records row (addressesOf network row))) ↔
      (external row ≠ "" → row.externalDns = true → Clear world row network) := by
  by_cases hwrites : Writes network row
  · obtain ⟨hrecords, -, -, -⟩ := publish_of_writes hwrites world
    obtain ⟨hrow, hdns, havailable, haddresses⟩ := hwrites
    have hresolves : Resolves (publishExternalName network row world).records row (addressesOf network row) := by
      intro address
      constructor
      · intro ⟨record, hmem, ha, hstands, hdata⟩
        rcases (hrecords record).mp hmem with ⟨-, hwanted⟩ | ⟨other, hwanted, -, rfl⟩
        · exact hdata ▸ hwanted ha hstands
        · exact hdata ▸ hwanted
      · intro hwanted
        by_cases hstill : ∃ record ∈ world.records, isA record = true ∧ Stands row record ∧ record.data = address
        · obtain ⟨record, hmem, ha, hstands, hdata⟩ := hstill
          exact ⟨record, (hrecords record).mpr (.inl ⟨hmem, fun _ _ => hdata ▸ hwanted⟩), ha, hstands, hdata⟩
        · have hnone : ∀ other ∈ world.records, isA other = true → Stands row other → other.data ≠ address :=
            fun other hmem ha hstands hdata => hstill ⟨other, hmem, ha, hstands, hdata⟩
          have hupper : "A".toUpper = "A" := by decide +kernel
          refine ⟨_, (hrecords _).mpr (.inr ⟨address, hwanted, hnone, rfl⟩), decide_eq_true_eq.mpr hupper, ?_, rfl⟩
          rw [Stands, placeOf, if_neg hrow]
    rw [forall_prop_of_true hrow, forall_prop_of_true hdns, forall_prop_of_true hrow, forall_prop_of_true hdns,
      and_iff_left hresolves, Clear, if_pos ⟨havailable, haddresses⟩]
    constructor
    · intro hown record hmem ha hstands hnot
      refine (hown record hmem fun hstill => ?_).2
      rcases (hrecords record).mp hstill with ⟨-, hwanted⟩ | ⟨other, hwanted, -, rfl⟩
      · exact hnot (hwanted ha hstands)
      · exact hnot hwanted
    · intro hclear record hmem hgone
      have hstale : isA record = true ∧ Stands row record ∧ record.data ∉ addressesOf network row := by
        by_contra hkept
        refine hgone ((hrecords record).mpr (.inl ⟨hmem, fun ha hstands => ?_⟩))
        by_contra hnot
        exact hkept ⟨ha, hstands, hnot⟩
      exact ⟨hstale.1, hclear record hmem hstale.1 hstale.2.1 hstale.2.2⟩
  · rw [(publish_of_not hwrites world).1, and_iff_right fun record hmem hgone => absurd hmem hgone]
    refine forall_congr' fun hrow => forall_congr' fun hdns => ?_
    rw [Clear, if_neg fun ⟨havailable, haddresses⟩ => hwrites ⟨hrow, hdns, havailable, haddresses⟩]

theorem saved_iff (h : Tidy world) {move : Move}
    (hsaved : saved world.rows move = some found) : Right world move ↔ Fits world move := by
  obtain ⟨hin, hone, hothers⟩ := saved_rows hsaved
  have hdeleted : deleted world.rows move = none := by
    by_contra hsome
    obtain ⟨other, hother⟩ := Option.ne_none_iff_exists'.mp hsome
    exact Option.some_ne_none _ (hsaved.symm.trans (deleted_row hother).2)
  have hsubject : subject world.rows move = some found.1.2.id := by
    rw [subject, hsaved, hdeleted]
    rfl
  have hpublish := publish_iff found.2 found.1.2 { world with rows := found.1.1 }
  have hnext := next_saved hsaved
  have hrows : (next world move).rows = found.1.1 := by rw [hnext, rows_publish]
  rw [← hnext] at hpublish
  have hleft : (∀ entry ∈ (next world move).published, ∃ row ∈ (next world move).rows,
      row.id = entry.1 ∧ Stands row entry.2) ↔
      ∀ record, (found.1.2.id, record) ∈ world.published → Stands found.1.2 record := by
    obtain ⟨hnew, hstill⟩ := published_publish found.2 found.1.2 { world with rows := found.1.1 }
    rw [← hnext] at hnew hstill
    rw [hrows]
    constructor
    · intro hleft record hrecord
      by_contra hnot
      obtain ⟨row, hrow, hid, hstands⟩ := hleft _ (hstill _ hrecord hnot)
      rw [hone row hrow hid] at hstands
      exact hnot hstands
    · intro hkept entry hentry
      rcases hnew entry hentry with hbefore | ⟨hid, hstands⟩
      · by_cases hid : entry.1 = found.1.2.id
        · exact ⟨found.1.2, hin, hid.symm, hkept entry.2 (hid ▸ hbefore)⟩
        · obtain ⟨row, hrow, hsame, hstands⟩ := h.placed entry hbefore
          exact ⟨row, (hothers row (hsame ▸ hid)).mpr hrow, hsame, hstands⟩
      · exact ⟨found.1.2, hin, hid.symm, hstands⟩
  constructor
  · intro hright
    refine ⟨fun other hother => ?_, fun other hother => ?_, fun other hother => ?_⟩
    · rw [hsaved, Option.mem_some_iff] at hother
      subst hother
      refine hpublish.mp ⟨hright.own _ (hsubject ▸ rfl), hright.resolves _ hsaved⟩
    · rw [hsaved, Option.mem_some_iff] at hother
      subst hother
      exact hleft.mp hright.left
    · rw [hdeleted] at hother
      cases hother
  · intro hfits
    have hown := hpublish.mpr (hfits.clear found hsaved)
    refine ⟨fun id hid => ?_, fun other hother => ?_, hleft.mpr (hfits.kept found hsaved)⟩
    · rw [hsubject, Option.mem_some_iff] at hid
      subst hid
      exact hown.1
    · rw [hsaved, Option.mem_some_iff] at hother
      subst hother
      exact hown.2

theorem deleted_iff (h : Tidy world) {move : Move} {found : Row × Network}
    (hdeleted : deleted world.rows move = some found) : Right world move ↔ Fits world move := by
  obtain ⟨hin, hsaved⟩ := deleted_row hdeleted
  have hsubject : subject world.rows move = some found.1.id := by
    rw [subject, hsaved, hdeleted]
    rfl
  have hnext := next_deleted hdeleted
  have hrows : (next world move).rows = world.rows.filter fun other => other.id ≠ found.1.id := by
    rw [hnext, rows_retire]
  have hiff : ((∀ record ∈ world.records, record ∉ (next world move).records →
      isA record = true ∧ (found.1.id, record) ∈ world.published) ∧
      ∀ entry ∈ (next world move).published, ∃ row ∈ (next world move).rows, row.id = entry.1 ∧ Stands row entry.2) ↔
      if external found.1 ≠ "" ∧ found.1.externalDns = true ∧ found.2.available = true then
        ∀ record ∈ world.records, isA record = true → Stands found.1 record → (found.1.id, record) ∈ world.published
      else ∀ record, (found.1.id, record) ∉ world.published := by
    by_cases hretires : Retires found.2 found.1
    · obtain ⟨hrecords, hpublished, -, -⟩ := retire_of_retires hretires world
      have hleft : ∀ entry ∈ (retireExternalName found.2 found.1 world).published,
          ∃ row ∈ world.rows.filter (fun other => other.id ≠ found.1.id), row.id = entry.1 ∧ Stands row entry.2 := by
        intro entry hentry
        obtain ⟨hbefore, hnot⟩ := hpublished entry hentry
        obtain ⟨row, hrow, hsame, hstands⟩ := h.placed entry hbefore
        refine ⟨row, List.mem_filter.mpr ⟨hrow, decide_eq_true fun hid => ?_⟩, hsame, hstands⟩
        rw [h.unique row hrow found.1 hin hid] at hstands
        exact hnot (h.stand entry hbefore).1 (h.stand entry hbefore).2 hstands
      have hgate : external found.1 ≠ "" ∧ found.1.externalDns = true ∧ found.2.available = true := hretires
      rw [if_pos hgate, hrows, hnext, and_iff_left hleft]
      constructor
      · intro hown record hmem ha hstands
        exact (hown record hmem fun hstill => ((hrecords record).mp hstill).2 ha hstands).2
      · intro hall record hmem hgone
        have hstale : isA record = true ∧ Stands found.1 record := by
          by_contra hkept
          exact hgone ((hrecords record).mpr ⟨hmem, fun ha hstands => hkept ⟨ha, hstands⟩⟩)
        exact ⟨hstale.1, hall record hmem hstale.1 hstale.2⟩
    · have hgate : ¬ (external found.1 ≠ "" ∧ found.1.externalDns = true ∧ found.2.available = true) := hretires
      rw [if_neg hgate, hrows, hnext, retire_of_not hretires, and_iff_right fun record hmem hgone => absurd hmem hgone]
      constructor
      · intro hleft record hrecord
        obtain ⟨row, hrow, hsame, -⟩ := hleft (found.1.id, record) hrecord
        exact of_decide_eq_true (List.mem_filter.mp hrow).2 hsame
      · intro hnone entry hentry
        obtain ⟨row, hrow, hsame, hstands⟩ := h.placed entry hentry
        refine ⟨row, List.mem_filter.mpr ⟨hrow, decide_eq_true fun hid => ?_⟩, hsame, hstands⟩
        exact hnone entry.2 (hid ▸ hsame ▸ hentry)
  constructor
  · intro hright
    refine ⟨fun other hother => ?_, fun other hother => ?_, fun other hother => ?_⟩
    · rw [hsaved] at hother
      cases hother
    · rw [hsaved] at hother
      cases hother
    · rw [hdeleted, Option.mem_some_iff] at hother
      subst hother
      exact hiff.mp ⟨hright.own _ (hsubject ▸ rfl), hright.left⟩
  · intro hfits
    obtain ⟨hown, hleft⟩ := hiff.mpr (hfits.retired found hdeleted)
    refine ⟨fun id hid => ?_, fun other hother => ?_, hleft⟩
    · rw [hsubject, Option.mem_some_iff] at hid
      subst hid
      exact hown
    · rw [hsaved] at hother
      cases hother

theorem right_iff_fits {world : World} (h : Tidy world) (move : Move) : Right world move ↔ Fits world move := by
  cases hsaved : saved world.rows move with
  | some found => exact saved_iff h hsaved
  | none =>
      cases hdeleted : deleted world.rows move with
      | some found => exact deleted_iff h hdeleted
      | none =>
          have hright : Right world move := by
            refine ⟨fun id hid => ?_, fun other hother => ?_, fun entry hentry => ?_⟩
            · rw [subject, hsaved, hdeleted] at hid
              cases hid
            · rw [hsaved] at hother
              cases hother
            · by_cases hrecords : ∃ records, move = .records records
              · obtain ⟨records, rfl⟩ := hrecords
                exact h.placed entry (List.mem_filter.mp hentry).1
              · rw [next_none hsaved hdeleted fun records heq => hrecords ⟨records, heq⟩] at hentry ⊢
                exact h.placed entry hentry
          refine iff_of_true hright ⟨fun other hother => ?_, fun other hother => ?_, fun other hother => ?_⟩
          · rw [hsaved] at hother
            cases hother
          · rw [hsaved] at hother
            cases hother
          · rw [hdeleted] at hother
            cases hother

/-- In every run from an empty list of collections, each request takes away only what it wrote for the collection, lets
its name resolve and leaves no other behind exactly when each finds its name clear and gives none up. -/
theorem names_right_iff (zones : List String) (records : List Record) (moves : List Move) :
    Steps.Each next Right { zones, records } moves ↔ Steps.Each next Fits { zones, records } moves := by
  refine @Steps.each_iff World Move Tidy next Right Fits (fun world move h hright => h.next hright) (fun world move h => right_iff_fits h move)
    _ ⟨?_, ?_, ?_⟩ moves
  · exact fun row hrow => absurd hrow List.not_mem_nil
  · exact fun entry hentry => absurd hentry List.not_mem_nil
  · exact fun entry hentry => absurd hentry List.not_mem_nil

def office : CollectionIn :=
  { name := "Office", brokerFqdn := "rd.example.org", externalFqdn := "remote.example.org" }

def network : Network := { lookup := fun _ => ["10.0.0.1"] }

/-- An address that somebody else keeps at the name. -/
def gateway : Record := ⟨"example.org", "remote", "A", "10.0.0.9"⟩

omit [Runtime] in
theorem names_not_right :
    letI := Runtime.latin
    ¬ Steps.Each next Right { zones := ["example.org"], records := [gateway] } [.create office "1" true network] ∧
      ¬ Steps.Each next Right { zones := ["example.org"] } [.create office "1" true network,
        .update { id := "1", externalFqdn := some "desk.example.org" } true network] := by
  let _ := Runtime.latin
  constructor
  · intro ⟨hright, _⟩
    have hown := (hright.own "1" (by decide +kernel) gateway (by decide +kernel) (by decide +kernel)).2
    exact absurd hown (by decide +kernel)
  · intro ⟨_, hright, _⟩
    have hleft := hright.left ("1", ⟨"example.org", "remote", "A", "10.0.0.1"⟩) (by decide +kernel)
    exact absurd hleft (by decide +kernel +revert)

end OpenDirectory.ExternalNames
