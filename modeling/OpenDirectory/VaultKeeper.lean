import OpenDirectory.VaultApi
import OpenDirectory.VaultSeats

/-! One pass of the console over the vault's organisation: seats, collections, groups, and the collections again,
now that there are groups to name. Collections are found by the id the console keeps or by the id it gave them,
groups by their names; what is left of what the console made is taken away. -/

namespace OpenDirectory.VaultKeeper

open VaultApi (Vault Member Server typeOwner typeUser statusAccepted statusConfirmed)
open VaultSeats (Directory Config membersOfGroups entitled findGroup InGroup)

variable [Runtime]

/-- A collection with the groups that see it, and whether for them it is read-only. -/
structure Row where
  id : String
  name : String
  /-- Empty until the vault has given it one. -/
  vaultId : String := ""
  access : List (String × Bool) := []
  deriving DecidableEq

/-- The collections in the order they are read in. -/
@[ext] structure Console where
  rows : List Row
  seatGroups : List String := []
  seatUsers : List String := []
  ownerAccount : String
  ids : (rows.map Row.id).Nodup

def Row.grants (row : Row) : List (String × Bool) :=
  (row.access.filter fun entry => entry.1 ≠ "").foldl (fun grants entry => Dict.set grants entry.1 entry.2) []

def Console.config (console : Console) : Config where
  seatGroups := console.seatGroups
  seatUsers := console.seatUsers
  accessGroups := console.rows.flatMap fun row => Dict.keys row.grants

def Console.owner (console : Console) : String := lower console.ownerAccount

/-- The row with the id the vault has for its collection. -/
def Row.stored (ids : List (String × String)) (row : Row) : Row :=
  { row with vaultId := (Dict.get ids row.id).getD row.vaultId }

omit [Runtime] in
theorem id_stored (ids : List (String × String)) (rows : List Row) :
    (rows.map (Row.stored ids)).map Row.id = rows.map Row.id := by
  rw [List.map_map]
  rfl

/-- The console with the ids the vault has for its collections. -/
def Console.store (console : Console) (ids : List (String × String)) : Console :=
  { console with
    rows := console.rows.map (Row.stored ids)
    ids := by
      rw [id_stored]
      exact console.ids }

def address (member : Member) : String := lower member.email

def byAddress (vault : Vault) : List (String × Member) := Dict.index address vault.members

/-- `int(field(member, "type", 2) or 2)` -/
def memberType (member : Member) : Nat := if member.type = 0 then 2 else member.type

variable (server : Server) (directory : Directory) (console : Console)

/-- What is done about one member. -/
def seat (entitled : List String) (vault : Vault) (entry : String × Member) : Vault :=
  if entry.1 = console.owner ∨ memberType entry.2 = typeOwner then vault
  else if entry.1 ∉ entitled then VaultApi.removeMember vault entry.2.id
  else if entry.2.status = statusAccepted ∧ server.publicKey entry.2.userId ≠ "" then
    VaultApi.confirm vault entry.2.id
  else vault

def missing (entitled : List String) (vault : Vault) : List String :=
  (entitled.dedup.filter fun address => address ∉ Dict.keys (byAddress vault) ∧ address ≠ console.owner).sortedBy id

def seats (entitled : List String) (vault : Vault) : Vault :=
  (byAddress vault).foldl (seat server console entitled)
    (VaultApi.invite server vault (missing console entitled vault))

def byExternal (collections : List VaultApi.Collection) : List (String × VaultApi.Collection) :=
  Dict.index VaultApi.Collection.externalId collections

/-- The collection that a row is found to have. -/
def matched (collections : List VaultApi.Collection) (row : Row) : Option VaultApi.Collection :=
  (Dict.get (Dict.index VaultApi.Collection.id collections) row.vaultId).or
    (Dict.get (byExternal collections) row.id)

def place (existing : List VaultApi.Collection) (state : Vault × List (String × String)) (row : Row) :
    Option (Vault × List (String × String)) :=
  match matched existing row with
  | some collection => some (state.1, state.2 ++ [(row.id, collection.id)])
  | none => do
      let (vault, id) ← VaultApi.saveCollection server state.1 "" row.name row.id []
      return (vault, state.2 ++ [(row.id, id)])

def isUuid (text : String) : Bool := (Runtime.uuid text).isSome

/-- Made by the console, and no longer listed. -/
def leftover (externalId : String) : Bool :=
  externalId ≠ "" && isUuid externalId && externalId ∉ console.rows.map Row.id

def sweepCollections (existing : List VaultApi.Collection) (vault : Vault) : Vault :=
  (byExternal existing).foldl (fun vault entry =>
    if leftover console entry.1 then VaultApi.deleteCollection vault entry.2.id else vault) vault

def byName (groups : List VaultApi.Group) : List (String × VaultApi.Group) :=
  Dict.index (fun group => lower group.name) groups

def groupExternalId (name : String) : String := "odm:" ++ name

/-- The ids of those of a group's members that have a place in the organisation. -/
def memberIds (vault : Vault) (perGroup : List (String × List String)) (name : String) : List String :=
  ((((Dict.get perGroup name).getD []).dedup).sortedBy id).filterMap fun address =>
    (Dict.get (byAddress vault) address).map Member.id

/-- What a group sees. -/
def seen (rows : List Row) (name : String) : List (String × Bool) :=
  rows.filterMap fun row =>
    match Dict.get row.grants name with
    | some readOnly => if row.vaultId = "" then none else some (row.vaultId, readOnly)
    | none => none

def saveOne (rows : List Row) (existing : List VaultApi.Group) (users : String → List String)
    (state : Vault × List (String × String)) (name : String) : Option (Vault × List (String × String)) := do
  let id := ((Dict.get (byName existing) (lower name)).map VaultApi.Group.id).getD ""
  let (vault, id) ← VaultApi.saveGroup server state.1 id name (groupExternalId name) (users name) (seen rows name)
  return (vault, state.2 ++ [(name, id)])

def madeHere (group : VaultApi.Group) : Bool := Text.startsWith group.externalId "odm:"

def sweepGroups (names : List String) (existing : List VaultApi.Group) (vault : Vault) : Vault :=
  (byName existing).foldl (fun vault entry =>
    if madeHere entry.2 && entry.1 ∉ names.map lower then VaultApi.deleteGroup vault entry.2.id else vault) vault

/-- The groups that see a collection, by their ids. -/
def viewers (groupIds : List (String × String)) (row : Row) : List (String × Bool) :=
  row.grants.filterMap fun entry => (Dict.get groupIds entry.1).map fun id => (id, entry.2)

def nameGroups (groupIds : List (String × String)) (vault : Vault) (row : Row) : Option Vault := do
  let (vault, _) ← VaultApi.saveCollection server vault row.vaultId row.name row.id (viewers groupIds row)
  return vault

/-- The pass once it is known who has a seat and who is in which group. -/
def pass (entitled : List String) (perGroup : List (String × List String)) (vault : Vault) :
    Option (Vault × Console) := do
  let seated := seats server console entitled vault
  let existing := seated.collections
  let (placed, ids) ← console.rows.foldlM (place server existing) (seated, [])
  let console := console.store ids
  let swept := sweepCollections console existing placed
  let groups := swept.groups
  let (grouped, groupIds) ←
    console.config.allGroups.foldlM (saveOne server console.rows groups (memberIds swept perGroup)) (swept, [])
  let tidied := sweepGroups console.config.allGroups groups grouped
  let vault ← console.rows.foldlM (nameGroups server groupIds) tidied
  return (vault, console)

def reconcile (vault : Vault) : Option (Vault × Console) :=
  match membersOfGroups directory console.config.allGroups console.config.seatUsers with
  | .error _ => none
  | .ok (people, perGroup) => pass server console (entitled console.config people perGroup) perGroup vault

/-- A collection is seen by the groups on record, each as it is written there. -/
def Carries (vault : Vault) (row : Row) (collection : VaultApi.Collection) : Prop :=
  ∀ group ∈ vault.groups, ∀ readOnly, vault.access collection.id group.id = some readOnly ↔
    ∃ name, (name, readOnly) ∈ row.grants ∧ lower name = lower group.name

/-- The group of a domain group has its members that have a seat. -/
def Holds (vault : Vault) (name : String) (group : VaultApi.Group) : Prop :=
  ∀ id, id ∈ group.users ↔ ∃ member ∈ vault.members, member.id = id ∧ InGroup directory name (address member)

/-- Groups with names of one domain group are one. -/
def Once (groups : List VaultApi.Group) : Prop :=
  ∀ name ∈ console.config.allGroups, ∀ other ∈ console.config.allGroups, ∀ found,
    findGroup directory name = .ok found → findGroup directory other = .ok found →
    ∀ group ∈ groups, ∀ group' ∈ groups, lower group.name = lower name → lower group'.name = lower other →
      group = group'

/-- A group's name as the directory is asked for it. -/
def asked (name : String) : String := String.ofList ((Text.strip Runtime.blank name).toList.dropWhile (· = '%'))

/-- Texts stay alike but for case when what is around a name is taken off, and a text in lower case is so
already. -/
structure Casing : Prop where
  twice : ∀ text, lower (lower text) = lower text
  names : ∀ text other, lower text = lower other → lower (asked text) = lower (asked other)

/-- No later row is found to have the collection of this one, and a collection with the row's id is found for
some row. -/
def Own (vault : Vault) (row : Row) : Prop :=
  (matched vault.collections row = none ∨ Dict.Latest (matched vault.collections) console.rows row) ∧
    ∀ collection ∈ vault.collections, collection.externalId = row.id →
      ∃ other ∈ console.rows, matched vault.collections other = some collection

/-- A later row takes the collection of this one, but there is another with the row's id that is found for none;
and nobody is to see it, or does. -/
def Spare (vault : Vault) (row : Row) : Prop :=
  (matched vault.collections row ≠ none ∧ ¬ Dict.Latest (matched vault.collections) console.rows row) ∧
    row.grants = [] ∧
    ∃ collection ∈ vault.collections, collection.externalId = row.id ∧
      (∀ row ∈ console.rows, matched vault.collections row ≠ some collection) ∧
      (∀ other ∈ vault.collections, other.externalId = row.id →
        (∀ row ∈ console.rows, matched vault.collections row ≠ some other) → other = collection) ∧
      ∀ group ∈ vault.groups, madeHere group = false → lower group.name ∉ console.config.allGroups.map lower →
        vault.access collection.id group.id = none

/-- The members of a seat group, and those of whom some group or account that was read has the address, where
the part before the first `@` is the name of an account that has a seat. -/
def HasSeat (address : String) : Prop :=
  (∃ group ∈ console.seatGroups, InGroup directory group address) ∨
    ((∃ group ∈ console.config.allGroups, InGroup directory group address) ∨
      ∃ user ∈ console.seatUsers, VaultSeats.Named directory user address) ∧
    VaultSeats.Looks console.config address

structure Orderly (vault : Vault) : Prop where
  rows : ∀ row ∈ console.rows, Own console vault row ∨ Spare console vault row
  /-- Names alike but for case have one flag. -/
  flags : ∀ row ∈ console.rows, ∀ grant ∈ row.grants, ∀ grant' ∈ row.grants,
    lower grant.1 = lower grant'.1 → grant.2 = grant'.2
  /-- Of the collections with one id that is not listed, only the last is not found for a row. -/
  leftovers : ∀ collection ∈ vault.collections, leftover console collection.externalId = true →
    (∀ row ∈ console.rows, matched vault.collections row ≠ some collection) →
      Dict.Latest VaultApi.Collection.externalId vault.collections collection
  /-- Names alike but for case have a group already. -/
  names : ∀ name ∈ console.config.allGroups, ∀ other ∈ console.config.allGroups, name ≠ other →
    lower name = lower other → ∃ group ∈ vault.groups, lower group.name = lower name
  /-- A domain group has one name, but for case. -/
  found : ∀ name ∈ console.config.allGroups, ∀ other ∈ console.config.allGroups, ∀ found,
    findGroup directory name = .ok found → findGroup directory other = .ok found → lower name = lower other
  /-- A group that is listed, or that the console made, has its name alone or is the last that has it. -/
  groups : ∀ group ∈ vault.groups,
    lower group.name ∈ console.config.allGroups.map lower ∨ madeHere group = true →
      Dict.Latest (fun group : VaultApi.Group => lower group.name) vault.groups group
  /-- Every other owner of the organisation has a seat. -/
  owners : ∀ member ∈ vault.members, member.type = typeOwner →
    address member = console.owner ∨ HasSeat directory console (address member)

end OpenDirectory.VaultKeeper
