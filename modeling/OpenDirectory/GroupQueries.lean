import OpenDirectory.ContainerMoves
import OpenDirectory.DynamicGroups

/-! One run of a group's query. What the search brings is taken for the membership the group is to have, and the group
is edited by the difference; a search that brings less than there is takes people out. -/

namespace OpenDirectory.GroupQueries

open ContainerMoves (Ldap normalizeDn)
open DynamicGroups (Condition Escaping buildFilter)

/-- What a search finds, as the directory has it and as far as it sends it: after the last name it sends there is a
result code, or the library raises. -/
structure Answer where
  found : List String
  sent : List String
  code : Nat := 0
  raised : Bool := false

/-- An object with members, by their names as the directory prints them. -/
structure Group where
  members : List String
  isGroup : Bool := true

/-- The directory answers a search below a name, knows what object a name leads to, which it prints in its own way, and
allows members to be added and removed or not. -/
structure Directory extends Ldap where
  answer : String → String → Answer
  resolve : String → String
  allowsAdd : Bool := true
  allowsRemove : Bool := true

inductive Fault where
  | query
  | object
  | notFound
  | directory

structure Row where
  groupDn : String
  scopeDn : String := ""
  objectType : String
  conditions : List Condition
  matchAll : Bool
  enabled : Bool := true

/-- Names come until there are as many as asked for. A search that fails after some names have come ends with these. -/
def search (limit : Nat) (answer : Answer) : Except Fault (List String) :=
  if limit ≤ answer.sent.length then .ok (answer.sent.take limit)
  else if answer.raised then .error .directory
  else if answer.code = 32 then .ok []
  else if answer.sent = [] ∧ answer.code ∉ [0, 4] then .error .object
  else .ok answer.sent

def searchLimit : Nat := 5000

section
variable [Runtime]

/-- The names of one list that are not in another, each as last written. -/
def difference (wanted held : List String) : List String :=
  (((Dict.index lower wanted).filter fun entry =>
    entry.1 ∉ Dict.keys (Dict.index lower held)).map Prod.snd).sortedBy id

/-- Whom to add, and whom to remove. -/
def membershipChange (current wanted : List String) : List String × List String :=
  (difference wanted current, difference current wanted)

variable (directory : Directory)

def Group.joined (group : Group) (names : List String) : Group where
  members := group.members ++ names.map directory.resolve
  isGroup := group.isGroup

def Group.left (group : Group) (names : List String) : Group where
  members :=
    let leaving := names.map fun name => lower (directory.resolve name)
    group.members.filter fun member => lower member ∉ leaving
  isGroup := group.isGroup

def addMembers (group : Group) (names : List String) : Group × Option Fault :=
  if names = [] then (group, none)
  else if directory.allowsAdd then (group.joined directory names, none)
  else (group, some .object)

def removeMembers (group : Group) (names : List String) : Group × Option Fault :=
  if names = [] then (group, none)
  else if directory.allowsRemove then (group.left directory names, none)
  else (group, some .object)

/-- Names already there, or not there, are passed over. -/
def editMembers (group : Group) (add remove : List String) : Group × Option Fault :=
  if !group.isGroup then (group, some .object)
  else match add.mapM (normalizeDn directory.toLdap), remove.mapM (normalizeDn directory.toLdap) with
    | some toAdd, some toRemove =>
        let existing := group.members.map lower
        match addMembers directory group (toAdd.filter fun name => lower name ∉ existing) with
        | (group, some fault) => (group, some fault)
        | (group, none) => removeMembers directory group (toRemove.filter fun name => lower name ∈ existing)
    | _, _ => (group, some .notFound)

structure Change where
  added : List String
  removed : List String
  deriving DecidableEq

/-- The group edited by what tells it from what was found. -/
def bringTo (group : Group) (found : List String) : Group × Except Fault Change :=
  let (add, remove) := membershipChange group.members found
  if add = [] ∧ remove = [] then (group, .ok ⟨[], []⟩)
  else match editMembers directory group add remove with
    | (group, some fault) => (group, .error fault)
    | (group, none) => (group, .ok ⟨add, remove⟩)

variable [Escaping]

/-- Where a query is asked and what. -/
def Row.question (row : Row) : Except Fault (String × String) :=
  match buildFilter row.objectType row.conditions row.matchAll with
  | .error _ => .error .query
  | .ok text =>
      let base := if row.scopeDn = "" then directory.safeDn directory.baseDn else normalizeDn directory.toLdap row.scopeDn
      match base with
      | none => .error .notFound
      | some base => .ok (base, text)

def runGroupQuery (row : Row) (group : Group) : Group × Except Fault Change :=
  if !row.enabled then (group, .ok ⟨[], []⟩)
  else match row.question directory with
    | .error fault => (group, .error fault)
    | .ok (base, text) =>
        match search searchLimit (directory.answer base text) with
        | .error fault => (group, .error fault)
        | .ok found =>
            if normalizeDn directory.toLdap row.groupDn = none then (group, .error .notFound)
            else bringTo directory group found

/-- What the directory has for a query; nothing for one that cannot be asked. -/
def Row.answer (row : Row) : Answer :=
  match row.question directory with
  | .ok (base, text) => directory.answer base text
  | .error _ => ⟨[], [], 0, false⟩

def keys (names : List String) : List String := names.map lower

/-- The run leaves the objects the query matches as the members, having added each that was missing once and removed
each other once, and another run finds nothing to do. -/
structure Converges (row : Row) (group : Group) : Prop where
  same : ∀ key, key ∈ keys (runGroupQuery directory row group).1.members ↔ key ∈ keys (row.answer directory).found
  once : ∃ change, (runGroupQuery directory row group).2 = .ok change ∧
    (keys change.added).Nodup ∧ (keys change.removed).Nodup ∧
    (∀ key, key ∈ keys change.added ↔ key ∈ keys (row.answer directory).found ∧ key ∉ keys group.members) ∧
    ∀ key, key ∈ keys change.removed ↔ key ∈ keys group.members ∧ key ∉ keys (row.answer directory).found
  again : runGroupQuery directory row (runGroupQuery directory row group).1 =
    ((runGroupQuery directory row group).1, .ok ⟨[], []⟩)

/-- All that is found is sent, which is no more than asked for. -/
structure Answer.Complete (answer : Answer) : Prop where
  few : answer.found.length ≤ searchLimit
  sent : answer.sent.length = answer.found.length
  ended : answer.sent.length < searchLimit → answer.raised = false ∧ (answer.sent = [] → answer.code ∈ [0, 4, 32])

/-- A member that is not found goes when the library spells its name as the directory does. -/
structure Ready (row : Row) (group : Group) : Prop where
  asked : ∃ question, row.question directory = .ok question
  complete : (row.answer directory).Complete
  there : normalizeDn directory.toLdap row.groupDn ≠ none
  missing : ∀ dn ∈ (row.answer directory).found, lower dn ∉ keys group.members →
    group.isGroup = true ∧ directory.allowsAdd = true ∧ normalizeDn directory.toLdap dn ≠ none
  extra : ∀ dn ∈ group.members, lower dn ∉ keys (row.answer directory).found →
    group.isGroup = true ∧ directory.allowsRemove = true ∧
      ∃ canonical, normalizeDn directory.toLdap dn = some canonical ∧ lower canonical = lower dn

/-- What a directory keeps to: no two objects or members have one name, what is sent is the beginning of what is found,
and a name leads to an object whatever its case and its spelling. -/
structure Sound (row : Row) (group : Group) : Prop where
  found : (keys (row.answer directory).found).Nodup
  members : (keys group.members).Nodup
  sent : (row.answer directory).sent <+: (row.answer directory).found
  nowhere : (row.answer directory).code = 32 → (row.answer directory).found = []
  printed : ∀ dn ∈ group.members ++ (row.answer directory).found, lower (directory.resolve dn) = lower dn
  spelled : ∀ dn canonical, directory.safeDn dn = some canonical →
    lower (directory.resolve canonical) = lower (directory.resolve dn)
  cased : ∀ dn dn', lower dn = lower dn' → lower (directory.resolve dn) = lower (directory.resolve dn')

end

section
variable [Runtime]

variable {key name : String}

theorem mem_keys {names : List String} : key ∈ keys names ↔ ∃ name ∈ names, lower name = key :=
  List.mem_map

theorem lower_mem_keys {names : List String} (h : name ∈ names) : lower name ∈ keys names :=
  List.mem_map_of_mem h

theorem keys_index {names : List String} : key ∈ Dict.keys (Dict.index lower names) ↔ key ∈ keys names := by
  rw [← Dict.get_isSome_iff, Dict.get_index, mem_keys]
  constructor
  · intro h
    obtain ⟨name, hname⟩ := Option.isSome_iff_exists.mp h
    obtain ⟨hkey, hmem⟩ := Dict.last?_eq_some hname
    exact ⟨name, hmem, hkey⟩
  · rintro ⟨name, hmem, rfl⟩
    obtain ⟨latest, hlatest⟩ := Dict.last?_isSome_of_mem lower hmem
    rw [hlatest]
    rfl

theorem mem_difference {wanted held : List String} (h : name ∈ difference wanted held) :
    name ∈ wanted ∧ lower name ∉ keys held := by
  rw [difference, (List.perm_sortedBy id _).mem_iff, List.mem_map] at h
  obtain ⟨entry, hentry, rfl⟩ := h
  obtain ⟨hmem, hheld⟩ := List.mem_filter.mp hentry
  have hown := (Dict.keyed_index lower wanted).own entry hmem
  have hlatest := Dict.mem_values_index.mp (List.mem_map_of_mem hmem : entry.2 ∈ Dict.values (Dict.index lower wanted))
  refine ⟨(Dict.last?_eq_some hlatest).2, ?_⟩
  rw [hown, ← keys_index]
  simpa using hheld

theorem mem_keys_difference {wanted held : List String} :
    key ∈ keys (difference wanted held) ↔ key ∈ keys wanted ∧ key ∉ keys held := by
  constructor
  · intro h
    obtain ⟨name, hname, rfl⟩ := mem_keys.mp h
    obtain ⟨hwanted, hheld⟩ := mem_difference hname
    exact ⟨lower_mem_keys hwanted, hheld⟩
  · rintro ⟨hwanted, hheld⟩
    rw [← keys_index] at hwanted hheld
    obtain ⟨entry, hentry, rfl⟩ := List.mem_map.mp hwanted
    refine mem_keys.mpr ⟨entry.2, ?_, (Dict.keyed_index lower wanted).own entry hentry⟩
    rw [difference, (List.perm_sortedBy id _).mem_iff]
    exact List.mem_map_of_mem (List.mem_filter.mpr ⟨hentry, decide_eq_true hheld⟩)

theorem nodup_keys_difference (wanted held : List String) : (keys (difference wanted held)).Nodup := by
  have hkeyed := Dict.keyed_index lower wanted
  rw [keys, difference, ((List.perm_sortedBy id _).map lower).nodup_iff, List.map_map]
  have hsame : ((Dict.index lower wanted).filter fun entry => entry.1 ∉ Dict.keys (Dict.index lower held)).map
      (lower ∘ Prod.snd) = ((Dict.index lower wanted).filter fun entry =>
        entry.1 ∉ Dict.keys (Dict.index lower held)).map Prod.fst :=
    List.map_congr_left fun entry hentry => hkeyed.own entry (List.mem_filter.mp hentry).1
  rw [hsame]
  exact hkeyed.nodup.sublist (List.filter_sublist.map Prod.fst)

theorem difference_eq_nil {wanted held : List String} :
    difference wanted held = [] ↔ ∀ key ∈ keys wanted, key ∈ keys held := by
  rw [← List.map_eq_nil_iff (f := lower), List.eq_nil_iff_forall_not_mem]
  constructor
  · intro h key hkey
    by_contra hheld
    exact h key (mem_keys_difference.mpr ⟨hkey, hheld⟩)
  · intro h key hkey
    obtain ⟨hwanted, hheld⟩ := mem_keys_difference.mp hkey
    exact hheld (h key hwanted)

theorem mem_difference_of {wanted held : List String} (hnodup : (keys wanted).Nodup) (hname : name ∈ wanted)
    (hheld : lower name ∉ keys held) : name ∈ difference wanted held := by
  obtain ⟨other, hother, hkey⟩ := mem_keys.mp (mem_keys_difference.mpr ⟨lower_mem_keys hname, hheld⟩)
  rwa [← List.inj_on_of_nodup_map hnodup (mem_difference hother).1 hname hkey]

omit [Runtime] in
theorem mapM_eq_some_iff {α β : Type} {f : α → Option β} {items : List α} {values : List β} :
    items.mapM f = some values ↔ (∀ item ∈ items, f item ≠ none) ∧ values = items.filterMap f := by
  induction items generalizing values with
  | nil => simp [eq_comm]
  | cons item items ih =>
      rw [List.mapM_cons]
      cases hitem : f item with
      | none => simp [hitem]
      | some value =>
          have hne : f item ≠ none := by simp [hitem]
          rw [List.forall_mem_cons, List.filterMap_cons, hitem]
          rw [Option.bind_eq_bind, Option.bind_some]
          constructor
          · intro h
            obtain ⟨rest, hrest, h⟩ := Option.bind_eq_some_iff.mp h
            obtain ⟨hall, rfl⟩ := ih.mp hrest
            exact ⟨⟨by simp, hall⟩, (Option.some.inj h).symm⟩
          · rintro ⟨⟨-, hall⟩, rfl⟩
            exact Option.bind_eq_some_iff.mpr ⟨_, ih.mpr ⟨hall, rfl⟩, rfl⟩

variable (directory : Directory) (group : Group)

/-- The names sent to be added, and to be removed. -/
def toAdd (add : List String) : List String :=
  (add.filterMap (normalizeDn directory.toLdap)).filter fun name => lower name ∉ group.members.map lower

def toRemove (remove : List String) : List String :=
  (remove.filterMap (normalizeDn directory.toLdap)).filter fun name => lower name ∈ group.members.map lower

def edited (add remove : List String) : Group :=
  (group.joined directory (toAdd directory group add)).left directory (toRemove directory group remove)

omit [Runtime] in
theorem changed_eq {α : Type} {names : List α} {allowed : Bool} {group changed after : Group}
    (hnone : names = [] → changed = group) : (if names = [] then (group, none)
      else if allowed then (changed, none) else (group, some Fault.object)) = (after, none) ↔
        (names = [] ∨ allowed = true) ∧ after = changed := by
  by_cases hnames : names = []
  · rw [if_pos hnames, hnone hnames, Prod.mk.injEq]
    simp only [hnames, and_true, true_or, true_and]
    exact eq_comm
  · rw [if_neg hnames]
    cases allowed with
    | false => simp [hnames]
    | true =>
        rw [if_pos rfl, Prod.mk.injEq]
        simp only [and_true, or_true, true_and]
        exact eq_comm

omit [Runtime] in
theorem addMembers_eq {group after : Group} {names : List String} : addMembers directory group names = (after, none) ↔
    (names = [] ∨ directory.allowsAdd = true) ∧ after = group.joined directory names :=
  changed_eq fun hnames => by simp [hnames, Group.joined]

theorem removeMembers_eq {group after : Group} {names : List String} :
    removeMembers directory group names = (after, none) ↔
      (names = [] ∨ directory.allowsRemove = true) ∧ after = group.left directory names :=
  changed_eq fun hnames => by simp [hnames, Group.left]

theorem editMembers_eq {after : Group} {add remove : List String} :
    editMembers directory group add remove = (after, none) ↔ group.isGroup = true ∧
      (∀ dn ∈ add ++ remove, normalizeDn directory.toLdap dn ≠ none) ∧
      (toAdd directory group add = [] ∨ directory.allowsAdd = true) ∧
      (toRemove directory group remove = [] ∨ directory.allowsRemove = true) ∧
      after = edited directory group add remove := by
  unfold editMembers
  cases hgroup : group.isGroup with
  | false => simp
  | true =>
      rw [Bool.not_true, if_neg Bool.false_ne_true, List.forall_mem_append]
      cases hadd : add.mapM (normalizeDn directory.toLdap) with
      | none =>
          refine iff_of_false (by simp) fun h => ?_
          rw [mapM_eq_some_iff.mpr ⟨h.2.1.1, rfl⟩] at hadd
          cases hadd
      | some names =>
          cases hremove : remove.mapM (normalizeDn directory.toLdap) with
          | none =>
              refine iff_of_false (by simp) fun h => ?_
              rw [mapM_eq_some_iff.mpr ⟨h.2.1.2, rfl⟩] at hremove
              cases hremove
          | some others =>
              obtain ⟨hnames, rfl⟩ := mapM_eq_some_iff.mp hadd
              obtain ⟨hothers, rfl⟩ := mapM_eq_some_iff.mp hremove
              dsimp only
              cases hstep : addMembers directory group (toAdd directory group add) with
              | mk middle fault =>
                  have hstep' := hstep
                  unfold toAdd at hstep'
                  rw [hstep']
                  cases fault with
                  | some fault =>
                      refine iff_of_false (by simp) fun h => ?_
                      have hdone : addMembers directory group (toAdd directory group add) =
                          (group.joined directory (toAdd directory group add), none) :=
                        (addMembers_eq directory).mpr ⟨h.2.2.1, rfl⟩
                      rw [hstep] at hdone
                      cases hdone
                  | none =>
                      obtain ⟨hallowed, rfl⟩ := (addMembers_eq directory).mp hstep
                      dsimp only
                      rw [removeMembers_eq]
                      constructor
                      · rintro ⟨hremoved, rfl⟩
                        exact ⟨rfl, ⟨hnames, hothers⟩, hallowed, hremoved, rfl⟩
                      · rintro ⟨-, -, -, hremoved, rfl⟩
                        exact ⟨hremoved, rfl⟩

variable {directory group} [Escaping] {row : Row}

variable {dn canonical : String} {found : List String}

omit [Escaping] in
theorem safeDn_of_normalizeDn (h : normalizeDn directory.toLdap dn = some canonical) :
    directory.safeDn dn = some canonical := by
  simp only [normalizeDn, Option.bind_eq_bind, Option.bind_eq_some_iff, guard] at h
  obtain ⟨-, -, found, hfound, base, -, -, -, h⟩ := h
  rw [hfound]
  exact h

theorem resolve_canonical (hsound : Sound directory row group)
    (hdn : dn ∈ group.members ++ (row.answer directory).found)
    (h : normalizeDn directory.toLdap dn = some canonical) : lower (directory.resolve canonical) = lower dn :=
  (hsound.spelled dn canonical (safeDn_of_normalizeDn h)).trans (hsound.printed dn hdn)

theorem lower_of_canonical (hsound : Sound directory row group)
    (hdn : dn ∈ group.members ++ (row.answer directory).found)
    (h : normalizeDn directory.toLdap dn = some canonical) (hmember : lower canonical ∈ keys group.members) :
    lower canonical = lower dn := by
  obtain ⟨member, hmember, hkey⟩ := mem_keys.mp hmember
  calc lower canonical = lower member := hkey.symm
    _ = lower (directory.resolve member) := (hsound.printed member (List.mem_append_left _ hmember)).symm
    _ = lower (directory.resolve canonical) := hsound.cased _ _ hkey
    _ = lower dn := resolve_canonical hsound hdn h

theorem mem_toAdd (hsound : Sound directory row group) {add : List String}
    (hadd : ∀ dn ∈ add, dn ∈ (row.answer directory).found ∧ lower dn ∉ keys group.members) :
    canonical ∈ toAdd directory group add ↔ ∃ dn ∈ add, normalizeDn directory.toLdap dn = some canonical := by
  rw [toAdd, List.mem_filter, List.mem_filterMap, decide_eq_true_eq]
  constructor
  · exact fun h => h.1
  · rintro ⟨dn, hdn, hcanonical⟩
    obtain ⟨hfound, hmissing⟩ := hadd dn hdn
    refine ⟨⟨dn, hdn, hcanonical⟩, fun hmember => hmissing ?_⟩
    rwa [← lower_of_canonical hsound (List.mem_append_right _ hfound) hcanonical hmember]

theorem mem_toRemove (hsound : Sound directory row group) {remove : List String}
    (hremove : ∀ dn ∈ remove, dn ∈ group.members) :
    canonical ∈ toRemove directory group remove ↔
      ∃ dn ∈ remove, normalizeDn directory.toLdap dn = some canonical ∧ lower canonical = lower dn := by
  rw [toRemove, List.mem_filter, List.mem_filterMap, decide_eq_true_eq]
  constructor
  · rintro ⟨⟨dn, hdn, hcanonical⟩, hmember⟩
    exact ⟨dn, hdn, hcanonical, lower_of_canonical hsound (List.mem_append_left _ (hremove dn hdn)) hcanonical hmember⟩
  · rintro ⟨dn, hdn, hcanonical, hsame⟩
    refine ⟨⟨dn, hdn, hcanonical⟩, ?_⟩
    rw [hsame]
    exact lower_mem_keys (hremove dn hdn)

/-- Who is in the group after an edit: everybody added, and everybody who was in it, but those whose canonical
spelling is that of the directory. -/
theorem mem_keys_edited (hsound : Sound directory row group) {add remove : List String}
    (hadd : ∀ dn ∈ add, dn ∈ (row.answer directory).found ∧ lower dn ∉ keys group.members)
    (hremove : ∀ dn ∈ remove, dn ∈ group.members) (hnames : ∀ dn ∈ add, normalizeDn directory.toLdap dn ≠ none)
    {key : String} : key ∈ keys (edited directory group add remove).members ↔
      (key ∈ keys group.members ∨ key ∈ keys add) ∧ ¬ ∃ dn ∈ remove, lower dn = key ∧
        ∃ canonical, normalizeDn directory.toLdap dn = some canonical ∧ lower canonical = lower dn := by
  have hjoined : key ∈ keys (group.joined directory (toAdd directory group add)).members ↔
      key ∈ keys group.members ∨ key ∈ keys add := by
    rw [Group.joined, keys, List.map_append, List.mem_append, List.map_map]
    refine or_congr_right ?_
    constructor
    · intro h
      obtain ⟨canonical, hcanonical, rfl⟩ := List.mem_map.mp h
      obtain ⟨dn, hdn, hcanonical⟩ := (mem_toAdd hsound hadd).mp hcanonical
      rw [Function.comp_apply, resolve_canonical hsound (List.mem_append_right _ (hadd dn hdn).1) hcanonical]
      exact lower_mem_keys hdn
    · intro h
      obtain ⟨dn, hdn, rfl⟩ := mem_keys.mp h
      obtain ⟨canonical, hcanonical⟩ := Option.ne_none_iff_exists'.mp (hnames dn hdn)
      refine List.mem_map.mpr ⟨canonical, (mem_toAdd hsound hadd).mpr ⟨dn, hdn, hcanonical⟩, ?_⟩
      exact resolve_canonical hsound (List.mem_append_right _ (hadd dn hdn).1) hcanonical
  have hleaving : key ∈ (toRemove directory group remove).map (fun name => lower (directory.resolve name)) ↔
      ∃ dn ∈ remove, lower dn = key ∧
        ∃ canonical, normalizeDn directory.toLdap dn = some canonical ∧ lower canonical = lower dn := by
    constructor
    · intro h
      obtain ⟨canonical, hcanonical, rfl⟩ := List.mem_map.mp h
      obtain ⟨dn, hdn, hcanonical, hsame⟩ := (mem_toRemove hsound hremove).mp hcanonical
      exact ⟨dn, hdn, (resolve_canonical hsound (List.mem_append_left _ (hremove dn hdn)) hcanonical).symm,
        canonical, hcanonical, hsame⟩
    · rintro ⟨dn, hdn, rfl, canonical, hcanonical, hsame⟩
      refine List.mem_map.mpr ⟨canonical, (mem_toRemove hsound hremove).mpr ⟨dn, hdn, hcanonical, hsame⟩, ?_⟩
      exact resolve_canonical hsound (List.mem_append_left _ (hremove dn hdn)) hcanonical
  rw [← hjoined, ← hleaving, edited, Group.left, mem_keys]
  dsimp only
  constructor
  · rintro ⟨member, hmember, rfl⟩
    obtain ⟨hmember, hstays⟩ := List.mem_filter.mp hmember
    exact ⟨lower_mem_keys hmember, of_decide_eq_true hstays⟩
  · rintro ⟨hkey, hstays⟩
    obtain ⟨member, hmember, rfl⟩ := mem_keys.mp hkey
    exact ⟨member, List.mem_filter.mpr ⟨hmember, decide_eq_true hstays⟩, rfl⟩

omit [Runtime] [Escaping] in
theorem search_complete {answer : Answer} (hsent : answer.sent <+: answer.found) (h : answer.Complete)
    (hnowhere : answer.code = 32 → answer.found = []) : search searchLimit answer = .ok answer.found := by
  have hall : answer.sent = answer.found := hsent.eq_of_length h.sent
  unfold search
  split
  · rename_i hfull
    rw [hall, List.take_of_length_le h.few]
  · rename_i hfew
    obtain ⟨hraised, hcode⟩ := h.ended (Nat.lt_of_not_le hfew)
    rw [hraised, if_neg Bool.false_ne_true]
    split
    · rename_i hmissing
      rw [hnowhere hmissing]
    · rename_i hmissing
      have hno : ¬ (answer.sent = [] ∧ answer.code ∉ [0, 4]) := by
        rintro ⟨hempty, hout⟩
        have := hcode hempty
        simp_all
      rw [if_neg hno, hall]

omit [Escaping] in
theorem complete_of_search {answer : Answer} (hsent : answer.sent <+: answer.found)
    (hnodup : (keys answer.found).Nodup) (h : search searchLimit answer = .ok found)
    (hall : ∀ key ∈ keys answer.found, key ∈ keys found) : answer.Complete := by
  have hsame : ∀ {front : List String}, front <+: answer.found → (∀ key ∈ keys answer.found, key ∈ keys front) →
      front = answer.found := by
    rintro front ⟨rest, hrest⟩ hkeys
    cases rest with
    | nil => rw [← hrest, List.append_nil]
    | cons name rest =>
        rw [← hrest] at hnodup hkeys
        rw [keys, List.map_append] at hnodup
        have hname := hkeys (lower name) (lower_mem_keys (by simp))
        exact absurd rfl ((List.nodup_append.mp hnodup).2.2 _ hname _ (List.mem_map_of_mem List.mem_cons_self))
  unfold search at h
  split at h
  · rename_i hfull
    obtain rfl := Except.ok.inj h
    have htake := hsame ((List.take_prefix _ _).trans hsent) hall
    have hlength := congrArg List.length htake
    rw [List.length_take, min_eq_left hfull] at hlength
    have hle := hsent.length_le
    exact ⟨by omega, by omega, fun hfew => absurd hfew (Nat.not_lt.mpr hfull)⟩
  · rename_i hfew
    split at h
    · cases h
    · rename_i hraised
      rw [Bool.not_eq_true] at hraised
      split at h
      · rename_i hmissing
        obtain rfl := Except.ok.inj h
        have hempty := hsame (List.nil_prefix) hall
        rw [← hempty, List.prefix_nil] at hsent
        refine ⟨by rw [← hempty]; simp [searchLimit], by rw [hsent, ← hempty], fun _ => ⟨hraised, fun _ => ?_⟩⟩
        simp [hmissing]
      · split at h
        · cases h
        · rename_i hcode
          obtain rfl := Except.ok.inj h
          have heq := hsame hsent hall
          refine ⟨by rw [← heq]; omega, by rw [heq], fun _ => ⟨hraised, fun hempty => ?_⟩⟩
          by_contra hout
          refine hcode ⟨hempty, fun hmem => hout ?_⟩
          simp only [List.mem_cons, List.not_mem_nil, or_false] at hmem ⊢
          rcases hmem with h | h
          · exact .inl h
          · exact .inr (.inl h)

theorem run_enabled (henabled : row.enabled = true) {after : Group} {change : Change} :
    runGroupQuery directory row group = (after, .ok change) ↔ (∃ question, row.question directory = .ok question) ∧
      normalizeDn directory.toLdap row.groupDn ≠ none ∧
      ∃ found, search searchLimit (row.answer directory) = .ok found ∧
        bringTo directory group found = (after, .ok change) := by
  unfold runGroupQuery Row.answer
  rw [henabled, Bool.not_true, if_neg Bool.false_ne_true]
  cases hquestion : row.question directory with
  | error fault => simp
  | ok question =>
      dsimp only
      cases hsearch : search searchLimit (directory.answer question.1 question.2) with
      | error fault => simp
      | ok found =>
          dsimp only
          by_cases hthere : normalizeDn directory.toLdap row.groupDn = none
          · rw [if_pos hthere]
            simp [hthere]
          · rw [if_neg hthere]
            constructor
            · exact fun h => ⟨⟨question, rfl⟩, hthere, found, rfl, h⟩
            · rintro ⟨-, -, other, hother, h⟩
              obtain rfl := Except.ok.inj hother
              exact h

section
omit [Escaping]

theorem bringTo_eq {after : Group} {change : Change} :
    bringTo directory group found = (after, .ok change) ↔
      change = ⟨difference found group.members, difference group.members found⟩ ∧
        if change = ⟨[], []⟩ then after = group
        else editMembers directory group change.added change.removed = (after, none) := by
  unfold bringTo membershipChange
  dsimp only
  by_cases hnone : difference found group.members = [] ∧ difference group.members found = []
  · rw [if_pos hnone, hnone.1, hnone.2, Prod.mk.injEq, Except.ok.injEq]
    constructor
    · rintro ⟨rfl, rfl⟩
      exact ⟨rfl, by rw [if_pos rfl]⟩
    · rintro ⟨rfl, h⟩
      rw [if_pos rfl] at h
      exact ⟨h.symm, rfl⟩
  · rw [if_neg hnone]
    have hsome : (⟨difference found group.members, difference group.members found⟩ : Change) ≠ ⟨[], []⟩ :=
      fun heq => hnone ⟨congrArg Change.added heq, congrArg Change.removed heq⟩
    cases hedit : editMembers directory group (difference found group.members) (difference group.members found) with
    | mk edited fault =>
        cases fault with
        | some fault =>
            refine iff_of_false (by simp) ?_
            rintro ⟨rfl, h⟩
            rw [if_neg hsome, hedit] at h
            cases h
        | none =>
            rw [Prod.mk.injEq, Except.ok.injEq]
            constructor
            · rintro ⟨rfl, rfl⟩
              rw [if_neg hsome]
              exact ⟨rfl, hedit⟩
            · rintro ⟨rfl, h⟩
              rw [if_neg hsome, hedit] at h
              exact ⟨(Prod.mk.inj h).1, rfl⟩

theorem bringTo_settled (h : ∀ key, key ∈ keys group.members ↔ key ∈ keys found) :
    bringTo directory group found = (group, .ok ⟨[], []⟩) := by
  rw [bringTo_eq, if_pos rfl, difference_eq_nil.mpr fun key hkey => (h key).mpr hkey,
    difference_eq_nil.mpr fun key hkey => (h key).mp hkey]
  exact ⟨rfl, rfl⟩

theorem settled_of_bringTo {after : Group}
    (h : bringTo directory group found = (after, .ok ⟨[], []⟩)) :
    ∀ key, key ∈ keys group.members ↔ key ∈ keys found := by
  obtain ⟨hchange, -⟩ := bringTo_eq.mp h
  have hadd := difference_eq_nil.mp (congrArg Change.added hchange).symm
  have hremove := difference_eq_nil.mp (congrArg Change.removed hchange).symm
  exact fun key => ⟨hremove key, hadd key⟩

end

theorem bringTo_ready (hsound : Sound directory row group) (h : Ready directory row group) :
    ∃ after, bringTo directory group (row.answer directory).found =
        (after, .ok ⟨difference (row.answer directory).found group.members,
          difference group.members (row.answer directory).found⟩) ∧
      ∀ key, key ∈ keys after.members ↔ key ∈ keys (row.answer directory).found := by
  by_cases hnone : difference (row.answer directory).found group.members = [] ∧
      difference group.members (row.answer directory).found = []
  · have hsame : ∀ key, key ∈ keys group.members ↔ key ∈ keys (row.answer directory).found :=
      fun key => ⟨difference_eq_nil.mp hnone.2 key, difference_eq_nil.mp hnone.1 key⟩
    rw [hnone.1, hnone.2]
    exact ⟨group, bringTo_settled hsame, hsame⟩
  · have hadd : ∀ dn ∈ difference (row.answer directory).found group.members, group.isGroup = true ∧
        directory.allowsAdd = true ∧ normalizeDn directory.toLdap dn ≠ none := by
      intro dn hdn
      obtain ⟨hfound, hmissing⟩ := mem_difference hdn
      exact h.missing dn hfound hmissing
    have hremove : ∀ dn ∈ difference group.members (row.answer directory).found, group.isGroup = true ∧
        directory.allowsRemove = true ∧
          ∃ canonical, normalizeDn directory.toLdap dn = some canonical ∧ lower canonical = lower dn := by
      intro dn hdn
      obtain ⟨hmember, hextra⟩ := mem_difference hdn
      exact h.extra dn hmember hextra
    refine ⟨edited directory group (difference (row.answer directory).found group.members)
      (difference group.members (row.answer directory).found), bringTo_eq.mpr ⟨rfl, ?_⟩, fun key => ?_⟩
    · rw [if_neg fun heq => hnone ⟨congrArg Change.added heq, congrArg Change.removed heq⟩, editMembers_eq]
      refine ⟨?_, ?_, ?_, ?_, rfl⟩
      · rcases not_and_or.mp hnone with hsome | hsome
        · obtain ⟨dn, hdn⟩ := List.exists_mem_of_ne_nil _ hsome
          exact (hadd dn hdn).1
        · obtain ⟨dn, hdn⟩ := List.exists_mem_of_ne_nil _ hsome
          exact (hremove dn hdn).1
      · intro dn hdn
        rcases List.mem_append.mp hdn with hdn | hdn
        · exact (hadd dn hdn).2.2
        · obtain ⟨-, -, canonical, hcanonical, -⟩ := hremove dn hdn
          simp [hcanonical]
      · rcases List.eq_nil_or_concat (difference (row.answer directory).found group.members) with hempty | ⟨_, dn, hdn⟩
        · left
          rw [hempty]
          rfl
        · exact .inr (hadd dn (by rw [hdn]; simp)).2.1
      · rcases List.eq_nil_or_concat (difference group.members (row.answer directory).found) with hempty | ⟨_, dn, hdn⟩
        · left
          rw [hempty]
          rfl
        · exact .inr (hremove dn (by rw [hdn]; simp)).2.1
    · rw [mem_keys_edited hsound (fun dn hdn => mem_difference hdn) (fun dn hdn => (mem_difference hdn).1)
        fun dn hdn => (hadd dn hdn).2.2]
      have hgone : (∃ dn ∈ difference group.members (row.answer directory).found, lower dn = key ∧
          ∃ canonical, normalizeDn directory.toLdap dn = some canonical ∧ lower canonical = lower dn) ↔
            key ∈ keys group.members ∧ key ∉ keys (row.answer directory).found := by
        rw [← mem_keys_difference, mem_keys]
        constructor
        · rintro ⟨dn, hdn, hkey, -⟩
          exact ⟨dn, hdn, hkey⟩
        · rintro ⟨dn, hdn, hkey⟩
          exact ⟨dn, hdn, hkey, (hremove dn hdn).2.2⟩
      rw [hgone, mem_keys_difference]
      tauto

theorem converges_of_ready (henabled : row.enabled = true) (hsound : Sound directory row group)
    (h : Ready directory row group) : Converges directory row group := by
  obtain ⟨after, hbring, hsame⟩ := bringTo_ready hsound h
  have hsearch := search_complete hsound.sent h.complete hsound.nowhere
  have hrun := (run_enabled henabled).mpr ⟨h.asked, h.there, _, hsearch, hbring⟩
  have hagain := (run_enabled henabled).mpr ⟨h.asked, h.there, _, hsearch, bringTo_settled hsame⟩
  constructor
  · rw [hrun]
    exact hsame
  · refine ⟨_, by rw [hrun], nodup_keys_difference _ _, nodup_keys_difference _ _, fun key => mem_keys_difference,
      fun key => mem_keys_difference⟩
  · rw [hrun]
    exact hagain

theorem ready_of_converges (henabled : row.enabled = true) (hsound : Sound directory row group)
    (h : Converges directory row group) : Ready directory row group := by
  obtain ⟨change, hchange, -⟩ := h.once
  obtain ⟨hasked, hthere, found, hsearch, hbring⟩ := (run_enabled henabled).mp (Prod.ext rfl hchange)
  obtain ⟨-, -, found', hsearch', hbring'⟩ := (run_enabled henabled).mp h.again
  obtain rfl := Except.ok.inj (hsearch.symm.trans hsearch')
  have hfound : ∀ key, key ∈ keys found ↔ key ∈ keys (row.answer directory).found :=
    fun key => (settled_of_bringTo hbring' key).symm.trans (h.same key)
  have hcomplete := complete_of_search hsound.sent hsound.found hsearch fun key hkey => (hfound key).mpr hkey
  obtain rfl := Except.ok.inj (hsearch.symm.trans (search_complete hsound.sent hcomplete hsound.nowhere))
  obtain ⟨hdiffers, hedit⟩ := bringTo_eq.mp hbring
  -- what an edit that goes through says of the names in it
  have hdone : ∀ dn ∈ change.added ++ change.removed, editMembers directory group change.added change.removed =
      ((runGroupQuery directory row group).1, none) := by
    intro dn hdn
    have hsome : change ≠ ⟨[], []⟩ := by
      rintro rfl
      cases hdn
    rwa [if_neg hsome] at hedit
  have hadded : change.added = difference (row.answer directory).found group.members := congrArg Change.added hdiffers
  have hremoved : change.removed = difference group.members (row.answer directory).found :=
    congrArg Change.removed hdiffers
  refine ⟨hasked, hcomplete, hthere, fun dn hdn hmissing => ?_, fun dn hdn hextra => ?_⟩
  · have hmem : dn ∈ change.added := hadded ▸ mem_difference_of hsound.found hdn hmissing
    obtain ⟨hgroup, hnames, hallowed, -⟩ := (editMembers_eq directory group).mp (hdone dn (List.mem_append_left _ hmem))
    obtain ⟨canonical, hcanonical⟩ := Option.ne_none_iff_exists'.mp (hnames dn (List.mem_append_left _ hmem))
    have hsent := (mem_toAdd hsound (fun other hother => mem_difference (hadded ▸ hother))).mpr ⟨dn, hmem, hcanonical⟩
    exact ⟨hgroup, hallowed.resolve_left (List.ne_nil_of_mem hsent), by simp [hcanonical]⟩
  · have hmem : dn ∈ change.removed := hremoved ▸ mem_difference_of hsound.members hdn hextra
    obtain ⟨hgroup, hnames, -, hallowed, hafter⟩ :=
      (editMembers_eq directory group).mp (hdone dn (List.mem_append_right _ hmem))
    have hgone := mt (h.same (lower dn)).mp hextra
    rw [hafter, mem_keys_edited hsound (fun other hother => mem_difference (hadded ▸ hother))
      (fun other hother => (mem_difference (hremoved ▸ hother)).1)
      fun other hother => hnames other (List.mem_append_left _ hother)] at hgone
    have hleft : ∃ other ∈ change.removed, lower other = lower dn ∧
        ∃ canonical, normalizeDn directory.toLdap other = some canonical ∧ lower canonical = lower other := by
      by_contra hstays
      exact hgone ⟨.inl (lower_mem_keys hdn), hstays⟩
    obtain ⟨other, hother, hkey, canonical, hcanonical, hspelled⟩ := hleft
    obtain rfl := List.inj_on_of_nodup_map hsound.members (mem_difference (hremoved ▸ hother)).1 hdn hkey
    have hsent := (mem_toRemove hsound (fun other hother => (mem_difference (hremoved ▸ hother)).1)).mpr
      ⟨other, hother, hcanonical, hspelled⟩
    exact ⟨hgroup, hallowed.resolve_left (List.ne_nil_of_mem hsent), canonical, hcanonical, hspelled⟩

/-- A run makes the group what its query asks for, and the next changes nothing, exactly when the query is asked and its
answer comes whole, which it does not for more than five thousand objects, and the names in the difference are ones the
console can write as the directory does. -/
theorem converges_iff (hsound : Sound directory row group) : Converges directory row group ↔
    (row.enabled = true → Ready directory row group) ∧ (row.enabled = false →
      ∀ key, key ∈ keys group.members ↔ key ∈ keys (row.answer directory).found) := by
  cases henabled : row.enabled with
  | true =>
      simp only [forall_const, reduceCtorEq, IsEmpty.forall_iff, and_true]
      exact ⟨ready_of_converges henabled hsound, converges_of_ready henabled hsound⟩
  | false =>
      have hrun : ∀ group, runGroupQuery directory row group = (group, .ok ⟨[], []⟩) := by
        intro group
        simp [runGroupQuery, henabled]
      simp only [reduceCtorEq, IsEmpty.forall_iff, forall_const, true_and]
      constructor
      · intro h
        have hsame := h.same
        rwa [hrun] at hsame
      · intro h
        refine ⟨by rw [hrun]; exact h, ⟨⟨[], []⟩, by rw [hrun], List.nodup_nil, List.nodup_nil, ?_, ?_⟩, by rw [hrun, hrun]⟩
        · intro key
          exact ⟨nofun, fun hkey => absurd ((h key).mpr hkey.1) hkey.2⟩
        · intro key
          exact ⟨nofun, fun hkey => absurd ((h key).mp hkey.1) hkey.2⟩

end

/-- A directory that finds some people for any query, and whose names are all canonical. -/
def people (found : List String) : Directory where
  safeDn := some
  escapeRdn := id
  baseDn := "dc=x"
  answer _ _ := ⟨found, found, 0, false⟩
  resolve := id

def clerks : Row where
  groupDn := "cn=clerks,dc=x"
  objectType := "user"
  conditions := [⟨"title", "is", "Clerk"⟩]
  matchAll := true

section
variable [Runtime] [Escaping]

theorem answer_people (found : List String) : (clerks.answer (people found)).found = found ∧
    (clerks.answer (people found)).sent = found ∧ (clerks.answer (people found)).code = 0 := by
  unfold Row.answer
  split
  · exact ⟨rfl, rfl, rfl⟩
  · rename_i fault h
    exact absurd h (by simp [Row.question, buildFilter, clerks, people, DynamicGroups.objectFilter, DynamicGroups.part,
      DynamicGroups.attributes, Dict.keys, bind, Except.bind, pure, Except.pure])

theorem sound_people {found : List String} (hfound : (keys found).Nodup) {group : Group} (hmembers : (keys group.members).Nodup) :
    Sound (people found) clerks group := by
  obtain ⟨hanswer, hsent, hcode⟩ := answer_people found
  refine ⟨by rwa [hanswer], hmembers, by rw [hanswer, hsent], by rw [hcode]; nofun, fun _ _ => rfl, ?_, fun _ _ h => h⟩
  intro dn canonical h
  rw [← Option.some.inj h]

end

theorem converges_iff_clerk :
    letI := Runtime.latin
    letI := Escaping.hex
    Converges (people ["cn=ada,dc=x"]) clerks ⟨["cn=bob,dc=x"], true⟩ := by
  let _ := Runtime.latin
  let _ := Escaping.hex
  have hsound : Sound (people ["cn=ada,dc=x"]) clerks ⟨["cn=bob,dc=x"], true⟩ := sound_people (by decide) (by decide)
  refine (converges_iff hsound).mpr ⟨fun _ => ⟨⟨_, rfl⟩, ⟨by decide +kernel, by decide +kernel, ?_⟩, by decide +kernel,
    by decide +kernel, ?_⟩, nofun⟩
  · exact fun _ => ⟨by decide +kernel, by decide +kernel⟩
  · intro dn hdn _
    obtain rfl := List.mem_singleton.mp hdn
    exact ⟨rfl, rfl, "cn=bob,dc=x", by decide +kernel, rfl⟩

def clerkDn (number : Nat) : String := "cn=" ++ Nat.repr number ++ ",dc=x"

theorem lower_clerkDn (number : Nat) :
    letI := Runtime.latin
    lower (clerkDn number) = clerkDn number := by
  let _ := Runtime.latin
  have hplain : ∀ c ∈ (clerkDn number).toList, c.isUpper = false := by
    intro c hc
    simp only [clerkDn, String.toList_append, List.mem_append] at hc
    rcases hc with (hc | hc) | hc
    · simpa using List.all_eq_true.mp (by decide : "cn=".toList.all (fun c => !c.isUpper) = true) c hc
    · rw [Nat.repr_eq_ofList_toDigits, String.toList_ofList] at hc
      have hdigit := Nat.isDigit_of_mem_toDigits (by decide) (by decide) hc
      simp only [Char.isDigit, Bool.and_eq_true, decide_eq_true_eq] at hdigit
      have hhigh : c.toNat ≤ 57 := UInt32.le_iff_toNat_le.mp hdigit.2
      rw [Bool.eq_false_iff]
      intro hupper
      simp only [Char.isUpper, decide_eq_true_eq] at hupper
      have hlow : 65 ≤ c.toNat := UInt32.le_iff_toNat_le.mp hupper.1
      omega
    · simpa using List.all_eq_true.mp (by decide : ",dc=x".toList.all (fun c => !c.isUpper) = true) c hc
  apply String.toList_injective
  show (String.ofList ((clerkDn number).toList.map Char.toLower)).toList = _
  rw [String.toList_ofList]
  calc (clerkDn number).toList.map Char.toLower
      = (clerkDn number).toList.map id :=
        List.map_congr_left fun c hc => Char.toLower_eq_of_not_isUpper (by rw [hplain c hc]; decide)
    _ = (clerkDn number).toList := List.map_id _

theorem nodup_clerks (count : Nat) :
    letI := Runtime.latin
    (keys ((List.range count).map clerkDn)).Nodup := by
  let _ := Runtime.latin
  rw [keys, List.map_map]
  refine List.nodup_range.map fun number number' h => ?_
  simp only [Function.comp_apply, lower_clerkDn] at h
  rw [clerkDn, clerkDn, String.append_left_inj, String.append_right_inj] at h
  exact Nat.repr_injective h

/-- With five thousand and one people found, one of them never is in the group, or is taken out of it. -/
theorem clerks_never_whole :
    letI := Runtime.latin
    letI := Escaping.hex
    let found := (List.range 5001).map clerkDn
    Sound (people found) clerks ⟨found, true⟩ ∧ clerks.enabled = true ∧
      (clerks.answer (people found)).found = found ∧ ¬ Converges (people found) clerks ⟨found, true⟩ := by
  let _ := Runtime.latin
  let _ := Escaping.hex
  intro found
  have hnodup : (keys found).Nodup := nodup_clerks 5001
  have hlength : found.length = 5001 := by rw [List.length_map, List.length_range]
  clear_value found
  have hsound : Sound (people found) clerks ⟨found, true⟩ := sound_people hnodup hnodup
  have hanswer := (answer_people found).1
  refine ⟨hsound, rfl, hanswer, fun h => ?_⟩
  have hfew := (ready_of_converges rfl hsound h).complete.few
  rw [hanswer, hlength] at hfew
  exact absurd hfew (by decide)

end OpenDirectory.GroupQueries
