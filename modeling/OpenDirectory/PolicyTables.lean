import OpenDirectory.Lists
import OpenDirectory.Value

/-! The tables of the policy objects and of their links, and the requests that change the links. A policy object
is linked to a container once, and of the links of a container, as it is spelled, no two have one order. -/

namespace OpenDirectory.PolicyTables

variable {D : Type}

/-- A row of the table of policy objects; `D` are the documents. -/
structure Gpo (D : Type) where
  displayName : String
  description : String
  enabled : Bool
  settings : D
  securityFilter : D
  targeting : D
  version : Nat := 0
  deriving DecidableEq

structure Link where
  id : Nat
  order : Int
  enforced : Bool
  enabled : Bool

/-- The links stand under their policy object and their container. -/
structure Tables (D : Type) where
  gpos : List (String × Gpo D)
  links : List ((String × String) × Link)
  /-- The id of the next link. -/
  nextLink : Nat

/-- How a request ends. -/
inductive Ending where
  | completed
  | refused
  /-- The database refused a link, for its container has one of that order. -/
  | taken
  deriving DecidableEq

def linksOf (links : List ((String × String) × Link)) (target : String) : List ((String × String) × Link) :=
  links.filter fun entry => entry.1.2 = target

def afterLast (links : List ((String × String) × Link)) (target : String) : Int :=
  (((linksOf links target).map fun entry => entry.2.order).max?).getD 0 + 1

def orderTaken (links : List ((String × String) × Link)) (key : String × String) (order : Int) : Bool :=
  links.any fun entry => entry.1.2 = key.2 && entry.1 ≠ key && entry.2.order = order

def Tables.insert (tables : Tables D) (key : String × String) (order : Int) (enforced enabled : Bool) : Tables D :=
  { tables with
    links := Dict.set tables.links key ⟨tables.nextLink, order, enforced, enabled⟩
    nextLink := tables.nextLink + 1 }

/-- What the directory answers, whether a container is there. -/
abbrev Containers := String → Bool

/-- The order after the last is free. -/
def createLink (containers : Containers) (guid target : String) (enforced enabled : Bool) (tables : Tables D) :
    Ending × Tables D :=
  if !containers target || (Dict.get tables.gpos guid).isNone || (Dict.get tables.links (guid, target)).isSome then
    (.refused, tables)
  else (.completed, tables.insert (guid, target) (afterLast tables.links target) enforced enabled)

def setOrder (links : List ((String × String) × Link)) (id : Nat) (order : Int) :
    List ((String × String) × Link) :=
  links.map fun entry => if entry.2.id = id then (entry.1, { entry.2 with order }) else entry

def setFlags (links : List ((String × String) × Link)) (id : Nat) (enforced enabled : Option Bool) :
    List ((String × String) × Link) :=
  links.map fun entry =>
    if entry.2.id = id then
      (entry.1, { entry.2 with
        enforced := enforced.getD entry.2.enforced, enabled := enabled.getD entry.2.enabled })
    else entry

/-- The links of these ids get the orders 1 to n. -/
def renumber (links : List ((String × String) × Link)) (ids : List Nat) : List ((String × String) × Link) :=
  (ids.zipIdx 1).foldl (fun links entry => setOrder links entry.1 entry.2) links

/-- The ids of the links of a container by their order. -/
def idsOf (links : List ((String × String) × Link)) (target : String) : List Nat :=
  ((linksOf links target).sortedBy fun entry => entry.2.order).map fun entry => entry.2.id

/-- Move one link and renumber the rest. -/
def reorder (links : List ((String × String) × Link)) (target : String) (id : Nat) (position : Int) :
    List ((String × String) × Link) :=
  let ids := (idsOf links target).filter fun other => other ≠ id
  renumber links (ids.insertIdx (max 0 (min (position - 1) ids.length)).toNat id)

def findLink (tables : Tables D) (id : Nat) : Option ((String × String) × Link) :=
  tables.links.find? fun entry => entry.2.id = id

def updateLink (id : Nat) (order : Option Int) (enforced enabled : Option Bool) (tables : Tables D) :
    Ending × Tables D :=
  match findLink tables id with
  | none => (.refused, tables)
  | some (key, before) =>
      let links := setFlags tables.links id enforced enabled
      match order with
      | none => (.completed, { tables with links })
      | some position =>
          if position = before.order then (.completed, { tables with links })
          else (.completed, { tables with links := reorder links key.2 id position })

def deleteLink (id : Nat) (tables : Tables D) : Ending × Tables D :=
  match findLink tables id with
  | none => (.refused, tables)
  | some (key, _) =>
      let links := tables.links.filter fun entry => entry.2.id ≠ id
      (.completed, { tables with links := renumber links (idsOf links key.2) })

/-- The links go with the object, and no other is renumbered. -/
def deleteGpo (guid : String) (tables : Tables D) : Ending × Tables D :=
  if (Dict.get tables.gpos guid).isNone then (.refused, tables)
  else
    (.completed, { tables with
      gpos := Dict.erase tables.gpos guid
      links := tables.links.filter fun entry => entry.1.1 ≠ guid })

/-- A link as the recycle bin keeps it; older ones have no order. -/
structure KeptLink where
  target : String
  order : Option Int := none
  enforced : Bool := false
  enabled : Bool := true

structure Snapshot (D : Type) where
  /-- None where the snapshot names no policy object. -/
  guid : Option String
  gpo : Gpo D
  links : List KeptLink

variable [Runtime]

def named (gpos : List (String × Gpo D)) (name : String) : Option String :=
  (gpos.find? fun row => lower row.2.displayName = lower name).map Prod.fst

omit [Runtime] in
def restoreLinks (containers : Containers) (guid : String) : List KeptLink → Tables D → Ending × Tables D
  | [], tables => (.completed, tables)
  | link :: links, tables =>
      if !containers link.target then restoreLinks containers guid links tables
      else
        let key := (guid, link.target)
        let order := link.order.getD (afterLast tables.links link.target)
        if (Dict.get tables.links key).isSome then restoreLinks containers guid links tables
        else if orderTaken tables.links key order then (.taken, tables)
        else restoreLinks containers guid links (tables.insert key order link.enforced link.enabled)

/-- `shared` tells whether the shared folder of the object can be made, where the domain has one. -/
def restoreGpo (containers : Containers) (shared : Bool) (snapshot : Snapshot D) (tables : Tables D) :
    Ending × Tables D :=
  match snapshot.guid with
  | none => (.refused, tables)
  | some guid =>
      if snapshot.gpo.displayName = "" || (Dict.get tables.gpos guid).isSome ||
          (named tables.gpos snapshot.gpo.displayName).isSome || !shared then
        (.refused, tables)
      else
        restoreLinks containers guid snapshot.links
          { tables with gpos := tables.gpos ++ [(guid, { snapshot.gpo with version := 0 })] }

inductive Conflict where
  | skip
  | replace
  | rename

/-- A link of a document: something else than a mapping, or its fields, where the order is none when it is not
a number. -/
inductive LinkDoc where
  | other
  | link (target : String) (order : Option Int) (enforced enabled : Bool)

structure Entry (D : Type) where
  name : String
  description : String
  enabled : Bool
  settings : D
  securityFilter : D
  targeting : D
  links : List LinkDoc
  /-- The identifier that is made up for the object if it is new. -/
  uuid : String

/-- What an import meets outside of the tables of policy objects. -/
structure Site (D : Type) where
  containers : Containers
  /-- Whether the links of a container can be written to the directory as well, where the domain has that. -/
  mirrored : String → Bool
  /-- Whether the shared folder of a new object can be made, where the domain has one. -/
  shared : String → Bool
  /-- The settings of the schema a document holds, if it holds any. -/
  validate : D → Option D
  /-- Whether the database takes the texts and documents of an entry. -/
  accepts : Entry D → Bool

structure Report where
  created : List String := []
  replaced : List String := []
  skipped : List String := []
  linked : Nat := 0
  unlinked : List String := []

structure Import (D : Type) where
  format : Int
  entries : List (Entry D)
  conflict : Conflict := .skip
  restoreLinks : Bool := false

def exportFormat : Int := 1

def freeName (gpos : List (String × Gpo D)) (name : String) : Option String :=
  ((List.range 98).map fun i => name ++ " (" ++ toString (i + 2) ++ ")").find? fun candidate =>
    (named gpos candidate).isNone

section
omit [Runtime]

def upsert (tables : Tables D) (key : String × String) (order : Int) (enforced enabled : Bool) : Tables D :=
  match Dict.get tables.links key with
  | none => tables.insert key order enforced enabled
  | some link => { tables with links := Dict.set tables.links key { link with order, enforced, enabled } }

def importLinks (site : Site D) (guid : String) :
    List LinkDoc → Tables D → Report → Ending × Tables D × Report
  | [], tables, report => (.completed, tables, report)
  | .other :: _, tables, report => (.refused, tables, report)
  | .link target order enforced enabled :: links, tables, report =>
      if target = "" then importLinks site guid links tables report
      else if !site.containers target then
        importLinks site guid links tables { report with unlinked := report.unlinked ++ [target] }
      else
        match order with
        | none => (.refused, tables, report)
        | some order =>
            if orderTaken tables.links (guid, target) order then (.taken, tables, report)
            else
              let tables := upsert tables (guid, target) order enforced enabled
              if !site.mirrored target then (.refused, tables, report)
              else importLinks site guid links tables { report with linked := report.linked + 1 }

/-- The row an entry makes of the one that was there. -/
def Entry.over (entry : Entry D) (row : Gpo D) : Gpo D :=
  { row with
    description := entry.description, enabled := entry.enabled, settings := entry.settings
    securityFilter := entry.securityFilter, targeting := entry.targeting, version := row.version + 1 }

def Entry.row (entry : Entry D) (name : String) : Gpo D where
  displayName := name
  description := entry.description
  enabled := entry.enabled
  settings := entry.settings
  securityFilter := entry.securityFilter
  targeting := entry.targeting

/-- The links of an entry, if the import is to restore them. -/
def Import.linksOf (request : Import D) (entry : Entry D) : List LinkDoc :=
  if request.restoreLinks then entry.links else []

end

def importEntry (site : Site D) (request : Import D) (entry : Entry D) (tables : Tables D) (report : Report) :
    Ending × Tables D × Report :=
  match named tables.gpos entry.name, request.conflict with
  | some _, .skip => (.completed, tables, { report with skipped := report.skipped ++ [entry.name] })
  | some guid, .replace =>
      if !site.accepts entry then (.refused, tables, report)
      else
        let gpos := tables.gpos.map fun row => if row.1 = guid then (guid, entry.over row.2) else row
        importLinks site guid (request.linksOf entry) { tables with gpos }
          { report with replaced := report.replaced ++ [entry.name] }
  | existing, _ =>
      match if existing.isSome then freeName tables.gpos entry.name else some entry.name with
      | none => (.refused, tables, report)
      | some name =>
          if !site.shared entry.uuid || !site.accepts entry || (Dict.get tables.gpos entry.uuid).isSome then
            (.refused, tables, report)
          else
            importLinks site entry.uuid (request.linksOf entry)
              { tables with gpos := tables.gpos ++ [(entry.uuid, entry.row name)] }
              { report with created := report.created ++ [name] }

def importEntries (site : Site D) (request : Import D) :
    List (Entry D) → Tables D → Report → Ending × Tables D × Report
  | [], tables, report => (.completed, tables, report)
  | entry :: entries, tables, report =>
      match importEntry site request entry tables report with
      | (.completed, tables, report) => importEntries site request entries tables report
      | stopped => stopped

omit [Runtime] in
/-- Names and settings are looked at before anything is written. -/
def prepared (site : Site D) (entries : List (Entry D)) : Option (List (Entry D)) :=
  entries.mapM fun entry =>
    if entry.name = "" then none else (site.validate entry.settings).map fun settings => { entry with settings }

def importGpos (site : Site D) (request : Import D) (tables : Tables D) : Ending × Tables D × Report :=
  if request.format ≠ exportFormat then (.refused, tables, {})
  else
    match prepared site request.entries with
    | none => (.refused, tables, {})
    | some entries => importEntries site request entries tables {}

end OpenDirectory.PolicyTables
