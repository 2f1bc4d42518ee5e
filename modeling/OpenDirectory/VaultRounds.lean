import OpenDirectory.VaultStages

/-! When a pass leaves the vault as the console has it, and the next one leaves it alone. -/

namespace OpenDirectory.VaultKeeper

open VaultApi (Vault Member Server typeOwner typeUser statusAccepted statusConfirmed)
open VaultSeats (Directory membersOfGroups InGroup findGroup)
open Records

variable [Runtime] {server : Server} {directory : Directory} {console console' : Console}
  {entitled : List String} {vault after seated : Vault} {perGroup : List (String × List String)}
  {spot : Row → String} {gid : String → String}

theorem findGroup_alike (hcasing : Casing) {name other : String} {found found' : VaultSeats.Group}
    (hlower : lower name = lower other) (hfound : findGroup directory name = .ok found)
    (hfound' : findGroup directory other = .ok found') : found = found' := by
  have hasked := hcasing.names name other hlower
  have hfilter : ∀ {name found}, findGroup directory name = .ok found →
      (directory.groups.filter fun group => lower group.samAccountName = lower (asked name) ||
        lower group.cn = lower (asked name)) = [found] := by
    intro name found h
    unfold findGroup at h
    simp only at h
    split at h
    · cases h
    · split at h
      · rename_i group heq
        cases h
        exact heq
      · cases h
  have hboth := hfilter hfound
  rw [hasked, hfilter hfound', List.cons.injEq] at hboth
  exact hboth.1.symm

section
omit [Runtime]

theorem mem_allGroups_of_grant {row : Row} (hrow : row ∈ console.rows) {grant : String × Bool}
    (hgrant : grant ∈ row.grants) : grant.1 ∈ console.config.allGroups := by
  apply VaultSeats.mem_allGroups.mpr
  right
  exact List.mem_flatMap.mpr ⟨row, hrow, List.mem_map_of_mem hgrant⟩

theorem nodup_allGroups (console : Console) : console.config.allGroups.Nodup :=
  (List.perm_sortedBy id _).nodup_iff.mpr (List.nodup_dedup _)

theorem viewers_eq {row : Row} (hrow : row ∈ console.rows) :
    viewers (console.config.allGroups.map fun name => (name, gid name)) (moved spot row) =
      row.grants.map fun grant => (gid grant.1, grant.2) := by
  have hget : ∀ grant ∈ row.grants,
      Dict.get (console.config.allGroups.map fun name => (name, gid name)) grant.1 = some (gid grant.1) := by
    intro grant hgrant
    apply Dict.get_of_mem
    · rw [Dict.keys, List.map_map]
      show (console.config.allGroups.map id).Nodup
      rw [List.map_id]
      exact nodup_allGroups console
    · exact List.mem_map.mpr ⟨grant.1, mem_allGroups_of_grant hrow hgrant, rfl⟩
  calc viewers (console.config.allGroups.map fun name => (name, gid name)) (moved spot row)
      _ = row.grants.filterMap (some ∘ fun grant => (gid grant.1, grant.2)) := by
        apply List.filterMap_congr
        intro grant hgrant
        rw [hget grant hgrant]
        rfl
      _ = row.grants.map fun grant => (gid grant.1, grant.2) := congrFun List.filterMap_eq_map row.grants

theorem last_moved (spot : Row → String) (rows : List Row) (collection : String) :
    Dict.last? Row.vaultId (rows.map (moved spot)) collection = (Dict.last? spot rows collection).map (moved spot) :=
  Dict.last?_map (fun _ => rfl) rows collection

end

theorem access_place {row : Row} (hrow : row ∈ console.rows) (hlatest : Dict.Latest spot console.rows row)
    (group : String) : (outcome console perGroup spot gid seated).access (spot row) group =
      (Dict.last? (fun grant => gid grant.1) row.grants group).map Prod.snd := by
  simp only [outcome, last_moved, show Dict.last? spot console.rows (spot row) = some row from hlatest,
    Option.map_some, viewers_eq hrow, VaultApi.entryAt]
  rw [Dict.last?_map (fun _ => rfl), Option.map_map]
  rfl

/-- What is known of a pass that came to its end. -/
structure Passed (directory : Directory) (console : Console) (entitled : List String)
    (perGroup : List (String × List String)) (vault seated : Vault) (spot : Row → String) (gid : String → String) :
    Prop where
  sound : vault.Sound address
  casing : Casing
  groups : ∃ gone, seated.groups = vault.groups.map (without gone)
  collections : seated.collections = vault.collections
  access : seated.access = vault.access
  manned : Manned console entitled seated
  stay : ∀ member ∈ vault.members, member.id ∈ seated.members.map Member.id ↔
    ¬ Struck console entitled (address member)
  spots : Spots VaultApi.Collection.id seated.collections (matched seated.collections) console.rows spot
  gids : Spots VaultApi.Group.id seated.groups (named seated.groups) console.config.allGroups gid
  spared : ∀ row ∈ console.rows, spot row ∉ sweptCollections console seated.collections
  filled : ∀ row ∈ console.rows, spot row ≠ ""
  filledGroups : ∀ name ∈ console.config.allGroups, gid name ≠ ""
  found : ∀ name ∈ console.config.allGroups, ∃ found, findGroup directory name = .ok found
  addresses : ∀ name ∈ console.config.allGroups, ∀ text,
    text ∈ (Dict.get perGroup name).getD [] ↔ InGroup directory name text

namespace Passed

variable (h : Passed directory console entitled perGroup vault seated spot gid)
include h

theorem ids_groups : (seated.groups.map VaultApi.Group.id).Nodup := by
  obtain ⟨gone, hgroups⟩ := h.groups
  rw [hgroups, List.map_map]
  exact h.sound.groups

variable {collection : VaultApi.Collection} {name : String} {group : VaultApi.Group}

theorem lower_of_gid {other : String} (hname : name ∈ console.config.allGroups)
    (hother : other ∈ console.config.allGroups) (heq : gid name = gid other) : lower name = lower other := by
  cases hnamed : named seated.groups name with
  | none => rw [h.gids.only hname hnamed hother heq]
  | some group =>
      cases hnamed' : named seated.groups other with
      | none => rw [h.gids.only hother hnamed' hname heq.symm]
      | some group' =>
          obtain ⟨hgroup, hlower⟩ := mem_of_named hnamed
          obtain ⟨hgroup', hlower'⟩ := mem_of_named hnamed'
          have hids : group.id = group'.id := by
            rw [← (h.gids.own name hname group hnamed).2, heq, (h.gids.own other hother group' hnamed').2]
          rw [← hlower, ← hlower', List.inj_on_of_nodup_map h.ids_groups hgroup hgroup' hids]

theorem gid_not_swept (hname : name ∈ console.config.allGroups) :
    gid name ∉ sweptGroups console.config.allGroups seated.groups := by
  intro hswept
  obtain ⟨entry, hentry, hid⟩ := List.mem_map.mp hswept
  obtain ⟨hindex, _⟩ := List.mem_filter.mp hentry
  have hmem : entry.2 ∈ seated.groups := (Dict.last?_eq_some (Dict.mem_index.mp hindex)).2
  cases hnamed : named seated.groups name with
  | none =>
      apply h.gids.new name hname hnamed
      rw [← hid]
      exact List.mem_map_of_mem hmem
  | some group =>
      obtain ⟨hgroup, hkey⟩ := h.gids.own name hname group hnamed
      rw [hkey] at hswept
      obtain ⟨⟨_, hunlisted⟩, _⟩ := (mem_sweptGroups h.ids_groups hgroup).mp hswept
      apply hunlisted
      rw [(mem_of_named hnamed).2]
      exact List.mem_map_of_mem hname

theorem mem_groups :
    group ∈ (outcome console perGroup spot gid seated).groups ↔
      (∃ name ∈ console.config.allGroups, Dict.Latest gid console.config.allGroups name ∧
        group = groupOf gid (memberIds seated perGroup) name) ∨
        group ∈ seated.groups ∧ group.id ∉ console.config.allGroups.map gid ∧
          group.id ∉ sweptGroups console.config.allGroups seated.groups := by
  rw [outcome, List.mem_filter, mem_settle h.gids, decide_eq_true_eq, or_and_right, and_assoc]
  apply or_congr _ Iff.rfl
  constructor
  · exact And.left
  · rintro ⟨name, hname, hlatest, rfl⟩
    exact ⟨⟨name, hname, hlatest, rfl⟩, h.gid_not_swept hname⟩

theorem group_of_name (hname : name ∈ console.config.allGroups) :
    ∃ last ∈ console.config.allGroups, gid last = gid name ∧ lower last = lower name ∧
      groupOf gid (memberIds seated perGroup) last ∈ (outcome console perGroup spot gid seated).groups := by
  obtain ⟨last, hlast⟩ := Dict.last?_isSome_of_mem gid hname
  obtain ⟨heq, hmem⟩ := Dict.last?_eq_some hlast
  refine ⟨last, hmem, heq, h.lower_of_gid hmem hname heq, ?_⟩
  apply h.mem_groups.mpr
  left
  refine ⟨last, hmem, ?_, rfl⟩
  rw [Dict.Latest, heq]
  exact hlast

theorem gid_of_latest (hname : name ∈ console.config.allGroups)
    (hlatest : Dict.Latest (fun group : VaultApi.Group => lower group.name) seated.groups group)
    (hlower : lower group.name = lower name) : gid name = group.id := by
  have hnamed : named seated.groups name = some group := by
    rw [named, byName, Dict.get_index, ← hlower]
    exact hlatest
  exact (h.gids.own name hname group hnamed).2

theorem name_of_group (hgroups : ∀ group ∈ seated.groups,
      lower group.name ∈ console.config.allGroups.map lower →
        Dict.Latest (fun group : VaultApi.Group => lower group.name) seated.groups group)
     (hgroup : group ∈ (outcome console perGroup spot gid seated).groups)
    (hlisted : lower group.name ∈ console.config.allGroups.map lower) :
    ∃ name ∈ console.config.allGroups, Dict.Latest gid console.config.allGroups name ∧
      group = groupOf gid (memberIds seated perGroup) name := by
  rcases h.mem_groups.mp hgroup with hmade | ⟨hmem, hnot, _⟩
  · exact hmade
  · obtain ⟨name, hname, hlower⟩ := List.mem_map.mp hlisted
    have hgid := h.gid_of_latest hname (hgroups group hmem hlisted) hlower.symm
    exact absurd (List.mem_map.mpr ⟨name, hname, hgid⟩) hnot

theorem once_iff : Once directory console (outcome console perGroup spot gid seated).groups ↔
    (∀ name ∈ console.config.allGroups, ∀ other ∈ console.config.allGroups, name ≠ other →
      lower name = lower other → ∃ group ∈ seated.groups, lower group.name = lower name) ∧
    (∀ name ∈ console.config.allGroups, ∀ other ∈ console.config.allGroups, ∀ found,
      findGroup directory name = .ok found → findGroup directory other = .ok found → lower name = lower other) ∧
    ∀ group ∈ seated.groups, lower group.name ∈ console.config.allGroups.map lower →
      Dict.Latest (fun group : VaultApi.Group => lower group.name) seated.groups group := by
  constructor
  · intro honce
    refine ⟨?_, ?_, ?_⟩
    · intro name hname other hother hne hlower
      by_contra hnone
      have hnew : ∀ text ∈ console.config.allGroups, lower text = lower name → named seated.groups text = none := by
        intro text _ heq
        rw [named, byName, Dict.get_index, Dict.last?_eq_none_iff]
        intro group hgroup hsame
        exact hnone ⟨group, hgroup, hsame.trans heq⟩
      have hthere : ∀ text ∈ console.config.allGroups, lower text = lower name →
          groupOf gid (memberIds seated perGroup) text ∈ (outcome console perGroup spot gid seated).groups := by
        intro text htext heq
        exact h.mem_groups.mpr (.inl ⟨text, htext, h.gids.latest_of_none htext (hnew text htext heq), rfl⟩)
      obtain ⟨found, hfound⟩ := h.found name hname
      obtain ⟨found', hfound'⟩ := h.found other hother
      rw [← findGroup_alike h.casing hlower hfound hfound'] at hfound'
      have hsame := honce name hname other hother found hfound hfound' _ (hthere name hname rfl) _
        (hthere other hother hlower.symm) rfl rfl
      exact hne (congrArg VaultApi.Group.name hsame)
    · intro name hname other hother found hfound hfound'
      obtain ⟨last, _, _, hlower, hthere⟩ := h.group_of_name hname
      obtain ⟨last', _, _, hlower', hthere'⟩ := h.group_of_name hother
      have hsame := honce name hname other hother found hfound hfound' _ hthere _ hthere' hlower hlower'
      calc lower name
          _ = lower last := hlower.symm
          _ = lower last' := congrArg (fun group => lower group.name) hsame
          _ = lower other := hlower'
    · intro group hgroup hlisted
      by_contra hlatest
      obtain ⟨name, hname, hlower⟩ := List.mem_map.mp hlisted
      have hnot : group.id ∉ console.config.allGroups.map gid := by
        apply (h.gids.not_mem_iff h.ids_groups hgroup).mpr
        intro text _ hnamed
        apply hlatest
        rw [named, byName, Dict.get_index] at hnamed
        rw [Dict.Latest, (Dict.last?_eq_some hnamed).1]
        exact hnamed
      have hthere : group ∈ (outcome console perGroup spot gid seated).groups := by
        apply h.mem_groups.mpr
        right
        exact ⟨hgroup, hnot, fun hswept => hlatest ((mem_sweptGroups h.ids_groups hgroup).mp hswept).2⟩
      obtain ⟨last, hlast, _, hlower', hthere'⟩ := h.group_of_name hname
      obtain ⟨found, hfound⟩ := h.found name hname
      have hsame := honce name hname name hname found hfound hfound _ hthere _ hthere' hlower.symm hlower'
      apply hnot
      rw [hsame]
      exact List.mem_map_of_mem hlast
  · rintro ⟨hnames, hfound, hgroups⟩ name hname other hother found hhere hthere group hgroup group' hgroup' hlower hlower'
    have hsame : lower name = lower other := hfound name hname other hother found hhere hthere
    have hlisted : lower group.name ∈ console.config.allGroups.map lower := hlower ▸ List.mem_map_of_mem hname
    have hlisted' : lower group'.name ∈ console.config.allGroups.map lower := hlower' ▸ List.mem_map_of_mem hother
    obtain ⟨first, hfirst, hlatest, rfl⟩ := h.name_of_group hgroups hgroup hlisted
    obtain ⟨second, hsecond, hlatest', rfl⟩ := h.name_of_group hgroups hgroup' hlisted'
    have halike : lower first = lower second := hlower.trans (hsame.trans hlower'.symm)
    by_cases hne : first = second
    · rw [hne]
    · obtain ⟨old, hold, heq⟩ := hnames first hfirst second hsecond hne halike
      have holdest : Dict.Latest (fun group : VaultApi.Group => lower group.name) seated.groups old :=
        hgroups old hold (heq ▸ List.mem_map_of_mem hfirst)
      have hgid : gid first = gid second := by
        rw [h.gid_of_latest hfirst holdest heq, h.gid_of_latest hsecond holdest (heq.trans halike)]
      rw [hlatest.eq hlatest' hgid]

theorem holds (hname : name ∈ console.config.allGroups) :
    ∃ group ∈ (outcome console perGroup spot gid seated).groups, lower group.name = lower name ∧
      Holds directory (outcome console perGroup spot gid seated) name group := by
  obtain ⟨last, hlast, _, hlower, hthere⟩ := h.group_of_name hname
  refine ⟨_, hthere, hlower, fun user => ?_⟩
  obtain ⟨found, hfound⟩ := h.found name hname
  obtain ⟨found', hfound'⟩ := h.found last hlast
  have hsame : found' = found := findGroup_alike h.casing hlower hfound' hfound
  have hin : ∀ text, InGroup directory last text ↔ InGroup directory name text := by
    intro text
    simp only [InGroup, hfound, hfound', hsame]
  show user ∈ memberIds seated perGroup last ↔ ∃ member ∈ seated.members, _
  rw [mem_memberIds h.manned.addresses]
  simp only [h.addresses last hlast, hin]

/-! #### Collections -/

theorem gid_iff (honce : Once directory console (outcome console perGroup spot gid seated).groups)
    (hname : name ∈ console.config.allGroups)
    (hgroup : group ∈ (outcome console perGroup spot gid seated).groups) :
    gid name = group.id ↔ lower name = lower group.name := by
  obtain ⟨last, hlast, hgid, hlower, hthere⟩ := h.group_of_name hname
  constructor
  · intro heq
    rcases h.mem_groups.mp hgroup with ⟨other, hother, _, rfl⟩ | ⟨_, hnot, _⟩
    · exact h.lower_of_gid hname hother heq
    · exact absurd (List.mem_map.mpr ⟨name, hname, heq⟩) hnot
  · intro heq
    obtain ⟨found, hfound⟩ := h.found name hname
    rw [← honce name hname name hname found hfound hfound _ hthere group hgroup hlower heq.symm]
    exact hgid.symm

/-- The collection of a row carries what is on record exactly where names alike but for case have one flag. -/
theorem carries_iff (honce : Once directory console (outcome console perGroup spot gid seated).groups) {row : Row}
    (hrow : row ∈ console.rows) (hlatest : Dict.Latest spot console.rows row) :
    Carries (outcome console perGroup spot gid seated) row (collectionOf spot row) ↔
      ∀ grant ∈ row.grants, ∀ grant' ∈ row.grants, lower grant.1 = lower grant'.1 → grant.2 = grant'.2 := by
  constructor
  · intro hcarries grant hgrant grant' hgrant' hlower
    obtain ⟨last, _, _, hsame, hthere⟩ := h.group_of_name (mem_allGroups_of_grant hrow hgrant)
    have hfirst := (hcarries _ hthere grant.2).mpr ⟨grant.1, hgrant, hsame.symm⟩
    have hsecond := (hcarries _ hthere grant'.2).mpr ⟨grant'.1, hgrant', hlower.symm.trans hsame.symm⟩
    exact Option.some.inj (hfirst.symm.trans hsecond)
  · intro hflags group hgroup readOnly
    rw [id_collectionOf, access_place hrow hlatest]
    constructor
    · intro haccess
      obtain ⟨grant, hlast, rfl⟩ := Option.map_eq_some_iff.mp haccess
      obtain ⟨hgid, hgrant⟩ := Dict.last?_eq_some hlast
      exact ⟨grant.1, hgrant, (h.gid_iff honce (mem_allGroups_of_grant hrow hgrant) hgroup).mp hgid⟩
    · rintro ⟨name, hgrant, hlower⟩
      have hgid : gid name = group.id := (h.gid_iff honce (mem_allGroups_of_grant hrow hgrant) hgroup).mpr hlower
      obtain ⟨grant, hlast⟩ := Dict.last?_isSome_of_mem (fun grant : String × Bool => gid grant.1) hgrant
      obtain ⟨hgid', hgrant'⟩ := Dict.last?_eq_some hlast
      have hsame : lower grant.1 = lower name := by
        rw [hlower]
        exact (h.gid_iff honce (mem_allGroups_of_grant hrow hgrant') hgroup).mp (hgid'.trans hgid)
      rw [← hgid, hlast, Option.map_some, hflags grant hgrant' (name, readOnly) hgrant hsame]

section

variable {members : List Member} {spot' : Row → String} {gid' : String → String}
  (hspots : Spots VaultApi.Collection.id (outcome console perGroup spot gid seated).collections
    (matched (outcome console perGroup spot gid seated).collections) (console.rows.map (moved spot)) spot')
  (hgids : Spots VaultApi.Group.id (outcome console perGroup spot gid seated).groups
    (named (outcome console perGroup spot gid seated).groups) console.config.allGroups gid')
include hspots

omit hspots
include hgids

end

end Passed

def keeper : Member := ⟨"m1", "Keeper@corp.lan", typeOwner, statusConfirmed, "u1"⟩

/-- Another owner, who has no seat. -/
def founder : Member := ⟨"m2", "founder@corp.lan", typeOwner, statusConfirmed, "u2"⟩

def worker : Member := ⟨"m3", "ada@corp.lan", typeUser, statusAccepted, "u3"⟩

def shared : Vault := ⟨[keeper, founder, worker], [], [], fun _ _ => none⟩

def corp : Directory where
  domain := "corp.lan"
  accounts := [{ samAccountName := "ada" }]
  groups := [⟨"CN=Staff,DC=corp,DC=lan", "Staff", "Staff"⟩]
  inChain _ dn := dn = "CN=Staff,DC=corp,DC=lan"

def desk : Console where
  rows := [{ id := "00000000-0000-0000-0000-000000000001", name := "General", access := [("Staff", true)] }]
  seatGroups := ["Staff"]
  ownerAccount := "keeper@corp.lan"
  ids := List.nodup_singleton _

section
omit [Runtime]

end

end OpenDirectory.VaultKeeper
