import OpenDirectory.VaultKeeper
import OpenDirectory.Records

/-! What each stage of a pass leaves in the vault. -/

namespace OpenDirectory.VaultKeeper

open VaultApi (Vault Member Server typeOwner typeUser statusAccepted statusConfirmed)
open Records

variable [Runtime] {server : Server} {console : Console} {entitled : List String} {vault : Vault}

/-- What the groups go by in somebody who is a member. -/
def card (member : Member) : String × String := (member.id, address member)

/-- A group without some of the members. -/
def without (ids : List String) (group : VaultApi.Group) : VaultApi.Group :=
  { group with users := group.users.filter (· ∉ ids) }

/-- Some members are gone, and of the others some may have been confirmed. -/
structure Seated (gone : List String) (before after : Vault) : Prop where
  cards : after.members.map card = (before.members.map card).filter (·.1 ∉ gone)
  groups : after.groups = before.groups.map (without gone)
  collections : after.collections = before.collections
  access : after.access = before.access

omit [Runtime] in
theorem without_nil (groups : List VaultApi.Group) : groups.map (without []) = groups := by
  calc groups.map (without [])
      _ = groups.map id := by
        apply List.map_congr_left
        intro group _
        simp [without]
      _ = groups := List.map_id groups

omit [Runtime] in
theorem without_without (gone gone' : List String) (group : VaultApi.Group) :
    without gone' (without gone group) = without (gone ++ gone') group := by
  simp only [without, List.filter_filter, List.mem_append, not_or, Bool.decide_and, Bool.and_comm]

theorem Seated.refl (vault : Vault) : Seated [] vault vault where
  cards := by simp
  groups := (without_nil _).symm
  collections := rfl
  access := rfl

theorem Seated.trans {gone gone' : List String} {first second third : Vault} (h : Seated gone first second)
    (h' : Seated gone' second third) : Seated (gone ++ gone') first third where
  cards := by
    rw [h'.cards, h.cards, List.filter_filter]
    simp only [List.mem_append, not_or, Bool.decide_and, Bool.and_comm]
  groups := by
    rw [h'.groups, h.groups, List.map_map]
    apply List.map_congr_left
    intro group _
    exact without_without gone gone' group
  collections := h'.collections.trans h.collections
  access := h'.access.trans h.access

/-- The member has no place that the pass leaves. -/
def Struck (console : Console) (entitled : List String) (address : String) : Prop :=
  address ≠ console.owner ∧ address ∉ entitled

instance (address : String) : Decidable (Struck console entitled address) := inferInstanceAs (Decidable (_ ∧ _))

/-- Everyone who has a place is to have one, and the other way round. -/
structure Manned (console : Console) (entitled : List String) (vault : Vault) : Prop where
  ids : (vault.members.map Member.id).Nodup
  addresses : (vault.members.map address).Nodup
  right : ∀ member ∈ vault.members, ¬ Struck console entitled (address member)
  all : ∀ address' ∈ entitled, address' ≠ console.owner → address' ∈ vault.members.map address

theorem byAddress_eq (h : (vault.members.map address).Nodup) :
    byAddress vault = vault.members.map fun member => (address member, member) :=
  Dict.index_of_nodup h

theorem keys_byAddress (h : (vault.members.map address).Nodup) :
    Dict.keys (byAddress vault) = vault.members.map address := by
  rw [byAddress_eq h, Dict.keys, List.map_map]
  rfl

theorem mem_missing (h : (vault.members.map address).Nodup) {text : String} :
    text ∈ missing console entitled vault ↔
      text ∈ entitled ∧ text ∉ vault.members.map address ∧ text ≠ console.owner := by
  rw [missing, (List.perm_sortedBy id _).mem_iff, List.mem_filter, List.mem_dedup, keys_byAddress h,
    decide_eq_true_eq]

theorem mem_memberIds (h : (vault.members.map address).Nodup) {perGroup : List (String × List String)}
    {name user : String} : user ∈ memberIds vault perGroup name ↔
      ∃ member ∈ vault.members, member.id = user ∧ address member ∈ (Dict.get perGroup name).getD [] := by
  unfold memberIds
  rw [List.mem_filterMap]
  simp only [(List.perm_sortedBy id _).mem_iff, List.mem_dedup, Option.map_eq_some_iff]
  constructor
  · rintro ⟨text, htext, member, hget, rfl⟩
    rw [byAddress, Dict.get_index] at hget
    obtain ⟨rfl, hmember⟩ := Dict.last?_eq_some hget
    exact ⟨member, hmember, rfl, htext⟩
  · rintro ⟨member, hmember, rfl, htext⟩
    refine ⟨address member, htext, member, ?_, rfl⟩
    rw [byAddress, Dict.get_index]
    exact Dict.last?_of_nodup h hmember

def collectionOf (spot : Row → String) (row : Row) : VaultApi.Collection := ⟨spot row, row.name, row.id⟩

omit [Runtime] in
theorem id_collectionOf (spot : Row → String) (row : Row) : (collectionOf spot row).id = spot row := rfl

/-- The rows that are found to have no collection. -/
def placeless (existing : List VaultApi.Collection) (rows : List Row) : List Row :=
  rows.filter fun row => (matched existing row).isNone

variable {collection : VaultApi.Collection}

/-- The vault once every row has a place. -/
def placed (spot : Row → String) (rows : List Row) (vault : Vault) : Vault :=
  { vault with
    collections := vault.collections ++ (placeless vault.collections rows).map (collectionOf spot)
    access := fun collection group =>
      if collection ∈ (placeless vault.collections rows).map spot then none else vault.access collection group }

section
omit [Runtime]

end

/-- The row with the place of its collection. -/
def moved (spot : Row → String) (row : Row) : Row := { row with vaultId := spot row }

/-- The collections that are taken away, by their ids. -/
def sweptCollections (console : Console) (existing : List VaultApi.Collection) : List String :=
  ((byExternal existing).filter fun entry => leftover console entry.1).map fun entry => entry.2.id

/-- The groups that are taken away, by their ids. -/
def sweptGroups (names : List String) (existing : List VaultApi.Group) : List String :=
  ((byName existing).filter fun entry => madeHere entry.2 && entry.1 ∉ names.map lower).map fun entry => entry.2.id

theorem mem_sweptGroups {names : List String} {existing : List VaultApi.Group}
    (hids : (existing.map VaultApi.Group.id).Nodup) {group : VaultApi.Group} (hmem : group ∈ existing) :
    group.id ∈ sweptGroups names existing ↔
      (madeHere group = true ∧ lower group.name ∉ names.map lower) ∧
        Dict.Latest (fun group : VaultApi.Group => lower group.name) existing group := by
  rw [sweptGroups, List.mem_map]
  constructor
  · rintro ⟨⟨name, swept⟩, hswept, hid⟩
    obtain ⟨hentry, hleft⟩ := List.mem_filter.mp hswept
    have hlast := Dict.mem_index.mp hentry
    obtain ⟨rfl, hthere⟩ := Dict.last?_eq_some hlast
    rw [Bool.and_eq_true, decide_eq_true_eq] at hleft
    rw [← List.inj_on_of_nodup_map hids hthere hmem hid]
    exact ⟨hleft, hlast⟩
  · rintro ⟨hleft, hlatest⟩
    refine ⟨(lower group.name, group), List.mem_filter.mpr ⟨Dict.mem_index.mpr hlatest, ?_⟩, rfl⟩
    rw [Bool.and_eq_true, decide_eq_true_eq]
    exact hleft

def groupOf (gid : String → String) (users : String → List String) (name : String) : VaultApi.Group :=
  ⟨gid name, name, groupExternalId name, users name⟩

/-- The group that a name is found to have. -/
def named (existing : List VaultApi.Group) (name : String) : Option VaultApi.Group :=
  Dict.get (byName existing) (lower name)

theorem mem_of_named {existing : List VaultApi.Group} {name : String} {group : VaultApi.Group}
    (h : named existing name = some group) : group ∈ existing ∧ lower group.name = lower name := by
  rw [named, byName, Dict.get_index] at h
  exact (Dict.last?_eq_some h).symm

/-- The vault once every name has a group. -/
def grouped (gid : String → String) (rows : List Row) (users : String → List String) (names : List String)
    (vault : Vault) : Vault :=
  { vault with
    groups := settle VaultApi.Group.id (named vault.groups) gid (groupOf gid users) names vault.groups
    access := fun collection group =>
      match Dict.last? gid names group with
      | some name => VaultApi.entryAt (seen rows name) collection
      | none => vault.access collection group }

section

variable {gid gid' : String → String} {rows : List Row} {users : String → List String} {names : List String}
  {name : String}

end

section

variable {groupIds : List (String × String)} {rows : List Row} {row : Row}

/-- The vault once every collection names its groups. -/
def shown (groupIds : List (String × String)) (rows : List Row) (vault : Vault) : Vault :=
  { vault with
    collections := overwrite VaultApi.Collection.id Row.vaultId (collectionOf Row.vaultId) rows vault.collections
    access := fun collection group =>
      match Dict.last? Row.vaultId rows collection with
      | some row => VaultApi.entryAt (viewers groupIds row) group
      | none => vault.access collection group }

section
omit [Runtime]

end

end

/-- What a pass makes of the vault, where the rows have these places and the names these groups. -/
def outcome (console : Console) (perGroup : List (String × List String)) (spot : Row → String)
    (gid : String → String) (seated : Vault) : Vault :=
  let names := console.config.allGroups
  let rows := console.rows.map (moved spot)
  let swept := sweptCollections console seated.collections
  let groupIds := names.map fun name => (name, gid name)
  { members := seated.members
    groups := (settle VaultApi.Group.id (named seated.groups) gid (groupOf gid (memberIds seated perGroup)) names
      seated.groups).filter fun group => group.id ∉ sweptGroups names seated.groups
    collections := (settle VaultApi.Collection.id (matched seated.collections) spot (collectionOf spot) console.rows
      seated.collections).filter fun collection => collection.id ∉ swept
    access := fun collection group =>
      match Dict.last? Row.vaultId rows collection with
      | some row => VaultApi.entryAt (viewers groupIds row) group
      | none =>
          if group ∈ sweptGroups names seated.groups ∨ group ∈ names.map gid ∨ collection ∈ swept then none
          else seated.access collection group }

section
omit [Runtime]

end

/-- The vault once the collections that are not listed are gone. -/
def swept (console : Console) (spot : Row → String) (seated : Vault) : Vault :=
  { placed spot console.rows seated with
    collections := (placed spot console.rows seated).collections.filter fun collection =>
      collection.id ∉ sweptCollections console seated.collections
    access := fun collection group =>
      if collection ∈ sweptCollections console seated.collections then none
      else (placed spot console.rows seated).access collection group }

/-- The vault once the groups that are not listed are gone. -/
def tidied (console : Console) (perGroup : List (String × List String)) (spot : Row → String)
    (gid : String → String) (seated : Vault) : Vault :=
  let names := console.config.allGroups
  let full := grouped gid (console.rows.map (moved spot)) (memberIds seated perGroup) names (swept console spot seated)
  { full with
    groups := full.groups.filter fun group => group.id ∉ sweptGroups names seated.groups
    access := fun collection group =>
      if group ∈ sweptGroups names seated.groups then none else full.access collection group }

variable {perGroup : List (String × List String)} {spot : Row → String} {gid : String → String} {seated : Vault}

end OpenDirectory.VaultKeeper
