import OpenDirectory.Dict

/-! The vault's organisation as its clients see it: members, groups, collections and which group sees which
collection, with the calls that change them. A call that names a record there is none of is refused. -/

namespace OpenDirectory.VaultApi

def typeOwner : Nat := 0
def typeUser : Nat := 2

def statusAccepted : Int := 1
def statusConfirmed : Int := 2

structure Member where
  id : String
  email : String
  type : Nat
  status : Int
  userId : String
  deriving DecidableEq

structure Group where
  id : String
  name : String
  externalId : String
  users : List String

/-- The name is the one that the organisation's key opens. -/
structure Collection where
  id : String
  name : String
  externalId : String
  deriving DecidableEq

@[ext] structure Vault where
  members : List Member
  groups : List Group
  collections : List Collection
  /-- Whether a collection is read-only for a group, where the group sees it. -/
  access : String → String → Option Bool

/-- The keys of the vault's own tables: an id is not empty and no two records have it, and no two members have
one address. -/
structure Vault.Sound (address : Member → String) (vault : Vault) : Prop where
  members : (vault.members.map Member.id).Nodup
  addresses : (vault.members.map address).Nodup
  groups : (vault.groups.map Group.id).Nodup
  collections : (vault.collections.map Collection.id).Nodup
  groupIds : ∀ group ∈ vault.groups, group.id ≠ ""
  collectionIds : ∀ collection ∈ vault.collections, collection.id ≠ ""

/-- What the server decides: the id of a new record, how the membership of somebody who is invited begins, and
the public keys of the accounts. -/
structure Server where
  freshId : List String → String
  invited : String → Int × String
  publicKey : String → String

/-- A new id is none of those there are, and not empty. -/
structure Server.Fresh (server : Server) : Prop where
  new : ∀ ids, server.freshId ids ∉ ids
  filled : ∀ ids, server.freshId ids ≠ ""

variable (server : Server)

def inviteOne (vault : Vault) (email : String) : Vault :=
  { vault with
    members := vault.members ++ [{
      id := server.freshId (vault.members.map Member.id)
      email, type := typeUser, status := (server.invited email).1, userId := (server.invited email).2 }] }

def invite (vault : Vault) (emails : List String) : Vault := emails.foldl (inviteOne server) vault

def confirm (vault : Vault) (id : String) : Vault :=
  { vault with members := vault.members.map fun member =>
      if member.id = id then { member with status := statusConfirmed } else member }

/-- A member goes with the places in the groups. -/
def removeMember (vault : Vault) (id : String) : Vault :=
  { vault with
    members := vault.members.filter fun member => member.id ≠ id
    groups := vault.groups.map fun group => { group with users := group.users.filter (· ≠ id) } }

/-- Of several lines for one record the last one counts. -/
def entryAt (entries : List (String × Bool)) (id : String) : Option Bool :=
  (Dict.last? Prod.fst entries id).map Prod.snd

/-- A group is written anew with all it sees, or made where no id is given. -/
def saveGroup (vault : Vault) (id name externalId : String) (users : List String)
    (collections : List (String × Bool)) : Option (Vault × String) :=
  if id = "" then
    let id := server.freshId (vault.groups.map Group.id)
    some ({ vault with
      groups := vault.groups ++ [{ id, name, externalId, users }]
      access := fun collection group =>
        if group = id then entryAt collections collection else vault.access collection group }, id)
  else if id ∈ vault.groups.map Group.id then
    some ({ vault with
      groups := vault.groups.map fun group =>
        if group.id = id then { id, name, externalId, users } else group
      access := fun collection group =>
        if group = id then entryAt collections collection else vault.access collection group }, id)
  else none

def deleteGroup (vault : Vault) (id : String) : Vault :=
  { vault with
    groups := vault.groups.filter fun group => group.id ≠ id
    access := fun collection group => if group = id then none else vault.access collection group }

def saveCollection (vault : Vault) (id name externalId : String) (groups : List (String × Bool)) :
    Option (Vault × String) :=
  if id = "" then
    let id := server.freshId (vault.collections.map Collection.id)
    some ({ vault with
      collections := vault.collections ++ [{ id, name, externalId }]
      access := fun collection group => if collection = id then entryAt groups group else vault.access collection group }, id)
  else if id ∈ vault.collections.map Collection.id then
    some ({ vault with
      collections := vault.collections.map fun collection =>
        if collection.id = id then { id, name, externalId } else collection
      access := fun collection group => if collection = id then entryAt groups group else vault.access collection group }, id)
  else none

def deleteCollection (vault : Vault) (id : String) : Vault :=
  { vault with
    collections := vault.collections.filter fun collection => collection.id ≠ id
    access := fun collection group => if collection = id then none else vault.access collection group }

end OpenDirectory.VaultApi
