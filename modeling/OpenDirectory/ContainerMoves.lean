import OpenDirectory.Steps
import OpenDirectory.Text
import OpenDirectory.Value

/-! Containers of the directory that are moved, renamed and created, and what the console has set on them.
The directory knows a container by its name and takes everything below it along. The policy links, the
blocked inheritance and the roles are rows of the database, each with the text of the name it was set on. -/

namespace OpenDirectory.ContainerMoves

variable [Runtime]

structure Container where
  guid : String
  dn : String
  deriving DecidableEq

/-- No two containers have one name, or one identity. -/
structure Directory where
  containers : List Container
  guids : (containers.map Container.guid).Nodup
  names : (containers.map fun container => lower container.dn).Nodup

/-- What the directory's library makes of names: the canonical spelling of one that can be read, and a part
of one with its special characters marked. -/
structure Ldap where
  safeDn : String → Option String
  escapeRdn : String → String
  baseDn : String

def below (dn above : String) : Bool := Text.endsWith (lower dn) ("," ++ lower above)

variable (ldap : Ldap)

def normalizeDn (dn : String) : Option String := do
  guard (dn ≠ "" ∧ dn.length ≤ 1024)
  let canonical ← ldap.safeDn dn
  let base ← ldap.safeDn ldap.baseDn
  guard (lower canonical = lower base ∨ below canonical base)
  return canonical

def rdnValue (dn : String) : String :=
  let first := (Text.split ',' dn).headD ""
  ((Text.cut '=' first).map Prod.snd).getD first

/-- The name an object is to have, from its old one, the container it goes to and what it is to be called. -/
def movedDn (canonical destination : String) (newName : Option String) : String :=
  let kind := (Text.split '=' canonical).headD ""
  let name := match newName.filter (· ≠ "") with
    | some given => Text.strip Runtime.blank given
    | none => rdnValue canonical
  kind ++ "=" ++ ldap.escapeRdn name ++ "," ++ destination

/-- The directory renames an object and everything below it. -/
def renamed (canonical new : String) (container : Container) : Container :=
  if lower container.dn = lower canonical then { container with dn := new }
  else if below container.dn canonical then
    { container with
      dn := String.ofList (container.dn.toList.take (container.dn.length - canonical.length)) ++ new }
  else container

theorem guid_renamed (canonical new : String) (container : Container) :
    (renamed canonical new container).guid = container.guid := by
  unfold renamed
  split
  · rfl
  · split <;> rfl

theorem guids_renamed (canonical new : String) (containers : List Container) :
    (containers.map (renamed canonical new)).map Container.guid = containers.map Container.guid := by
  rw [List.map_map]
  exact List.map_congr_left fun container _ => guid_renamed canonical new container

def Directory.rename (directory : Directory) (canonical new : String) : Directory :=
  if h : ((directory.containers.map (renamed canonical new)).map fun container => lower container.dn).Nodup then
    { containers := directory.containers.map (renamed canonical new)
      guids := (guids_renamed canonical new directory.containers).symm ▸ directory.guids
      names := h }
  else directory

def Directory.add (directory : Directory) (container : Container) : Directory :=
  if h : ((directory.containers ++ [container]).map Container.guid).Nodup ∧
      ((directory.containers ++ [container]).map fun container => lower container.dn).Nodup then
    ⟨directory.containers ++ [container], h.1, h.2⟩
  else directory

structure Link where
  id : String
  gpoGuid : String
  targetDn : String
  linkOrder : Nat
  enforced : Bool := false
  enabled : Bool := true

structure PolicyState where
  ouDn : String
  blockInheritance : Bool

structure Assignment where
  id : String
  roleName : String
  principalSid : String
  scopeDn : String

/-- The tables `gpo_link`, `ou_policy_state` and `rbac_assignment` with their keys. -/
structure Tables where
  links : List Link
  states : List PolicyState
  assignments : List Assignment
  linkIds : (links.map Link.id).Nodup
  assignmentIds : (assignments.map Assignment.id).Nodup

/-- What is found for a container: the links and the roles, by their keys, and whether inheritance is
blocked. -/
structure Found where
  links : List String
  blocked : Bool
  scopes : List String
  deriving DecidableEq

def Tables.found (tables : Tables) (dn : String) : Found where
  links := (tables.links.filter fun link => lower link.targetDn = lower dn).map Link.id
  blocked := tables.states.any fun state => state.blockInheritance && lower state.ouDn = lower dn
  scopes := (tables.assignments.filter fun row => lower row.scopeDn = lower dn).map Assignment.id

def nothing : Found := ⟨[], false, []⟩

structure World where
  directory : Directory
  tables : Tables

/-- What the console is asked for. The rights, the objects that are protected and what the directory refuses
of its own are left open. -/
inductive Move where
  | moveObject (dn target : String) (newName : Option String) (allowed : Bool)
  | createOu (name container guid : String) (allowed : Bool)
  | set (tables : Tables)

/-- The old and the new name of what is moved, where the request goes through. -/
def moving (world : World) (dn target : String) (newName : Option String) (allowed : Bool) :
    Option (String × String) := do
  guard allowed
  let canonical ← normalizeDn ldap dn
  let destination ← normalizeDn ldap target
  guard (¬ (lower destination = lower canonical ∨ below destination canonical))
  let new := movedDn ldap canonical destination newName
  guard ((world.directory.containers.map (renamed canonical new)).map fun container =>
    lower container.dn).Nodup
  return (canonical, new)

/-- The name of a new container, where the request goes through. -/
def creating (world : World) (name container guid : String) (allowed : Bool) : Option String := do
  guard allowed
  let name := Text.strip Runtime.blank name
  guard (name ≠ "" ∧ name.length ≤ 64 ∧ name.toList.all fun c =>
    c ∉ ['\\', '/', '#', '+', '<', '>', ';', '"', '='])
  let container ← normalizeDn ldap container
  let dn := "OU=" ++ ldap.escapeRdn name ++ "," ++ container
  let added : List Container := world.directory.containers ++ [⟨guid, dn⟩]
  guard ((added.map Container.guid).Nodup ∧ (added.map fun other => lower other.dn).Nodup)
  return dn

def next (world : World) : Move → World
  | .moveObject dn target newName allowed =>
      match moving ldap world dn target newName allowed with
      | some (canonical, new) => { world with directory := world.directory.rename canonical new }
      | none => world
  | .createOu name container guid allowed =>
      match creating ldap world name container guid allowed with
      | some dn => { world with directory := world.directory.add ⟨guid, dn⟩ }
      | none => world
  | .set tables => { world with tables }

/-- The containers there were have on them what they had, and one that is new has nothing. -/
def Follows (world : World) : Move → Prop
  | .set _ => True
  | move =>
      (∀ container ∈ world.directory.containers, ∀ after ∈ (next ldap world move).directory.containers,
        after.guid = container.guid →
          (next ldap world move).tables.found after.dn = world.tables.found container.dn) ∧
      ∀ after ∈ (next ldap world move).directory.containers,
        (∀ container ∈ world.directory.containers, container.guid ≠ after.guid) →
          (next ldap world move).tables.found after.dn = nothing

/-- No link and no role has either name, and inheritance is blocked under both or under neither. -/
structure Bare (tables : Tables) (old new : String) : Prop where
  linksOld : (tables.found old).links = []
  linksNew : (tables.found new).links = []
  scopesOld : (tables.found old).scopes = []
  scopesNew : (tables.found new).scopes = []
  blocked : (tables.found new).blocked = (tables.found old).blocked

/-- What is moved, with everything below it, goes from a name without anything on it to another such name,
or keeps its name; and nothing is left over under the name of what is created. -/
def Unset (world : World) : Move → Prop
  | .moveObject dn target newName allowed =>
      ∀ canonical new, moving ldap world dn target newName allowed = some (canonical, new) →
        ∀ container ∈ world.directory.containers,
          lower (renamed canonical new container).dn = lower container.dn ∨
            Bare world.tables container.dn (renamed canonical new container).dn
  | .createOu name container guid allowed =>
      ∀ dn, creating ldap world name container guid allowed = some dn → world.tables.found dn = nothing
  | .set _ => True

variable {ldap} {tables : Tables} {world : World} {old new : String}

omit [Runtime] in
theorem keys_eq_iff {ρ : Type} {key : ρ → String} {rows : List ρ} (hkeys : (rows.map key).Nodup)
    {picks picks' : ρ → Bool} (h : ∀ row ∈ rows, picks row = true → picks' row = false) :
    (rows.filter picks).map key = (rows.filter picks').map key ↔
      (rows.filter picks).map key = [] ∧ (rows.filter picks').map key = [] := by
  constructor
  · intro heq
    have hnone : (rows.filter picks).map key = [] := by
      rw [List.map_eq_nil_iff, List.filter_eq_nil_iff]
      intro row hrow hpicks
      have hmem : key row ∈ (rows.filter picks').map key := by
        rw [← heq]
        exact List.mem_map_of_mem (List.mem_filter.mpr ⟨hrow, hpicks⟩)
      obtain ⟨other, hother, hsame⟩ := List.mem_map.mp hmem
      obtain ⟨hthere, hpicks'⟩ := List.mem_filter.mp hother
      rw [List.inj_on_of_nodup_map hkeys hthere hrow hsame, h row hrow hpicks] at hpicks'
      cases hpicks'
    exact ⟨hnone, heq ▸ hnone⟩
  · rintro ⟨hleft, hright⟩
    rw [hleft, hright]

theorem found_congr (h : lower new = lower old) : tables.found new = tables.found old := by
  simp only [Tables.found, h]

theorem found_eq_iff : tables.found new = tables.found old ↔ lower new = lower old ∨ Bare tables old new := by
  by_cases hname : lower new = lower old
  · exact iff_of_true (found_congr hname) (.inl hname)
  have hlinks := @keys_eq_iff Link Link.id tables.links tables.linkIds (fun link => lower link.targetDn = lower new)
    (fun link => lower link.targetDn = lower old) fun link _ hnew => by
      rw [decide_eq_true_eq] at hnew
      exact decide_eq_false fun hold => hname (hnew.symm.trans hold)
  have hscopes := @keys_eq_iff Assignment Assignment.id tables.assignments tables.assignmentIds
    (fun row => lower row.scopeDn = lower new) (fun row => lower row.scopeDn = lower old) fun row _ hnew => by
      rw [decide_eq_true_eq] at hnew
      exact decide_eq_false fun hold => hname (hnew.symm.trans hold)
  constructor
  · intro heq
    obtain ⟨hnew, hold⟩ := hlinks.mp (congrArg Found.links heq)
    obtain ⟨hnew', hold'⟩ := hscopes.mp (congrArg Found.scopes heq)
    exact .inr ⟨hold, hnew, hold', hnew', congrArg Found.blocked heq⟩
  · rintro (heq | hbare)
    · exact absurd heq hname
    · have hfirst := hlinks.mpr ⟨hbare.linksNew, hbare.linksOld⟩
      have hlast := hscopes.mpr ⟨hbare.scopesNew, hbare.scopesOld⟩
      calc tables.found new = ⟨(tables.found new).links, (tables.found new).blocked, (tables.found new).scopes⟩ := rfl
        _ = ⟨(tables.found old).links, (tables.found old).blocked, (tables.found old).scopes⟩ := by
          rw [hbare.blocked]
          exact congrArg₂ (fun links scopes => Found.mk links _ scopes) hfirst hlast
        _ = tables.found old := rfl

theorem containers_rename {directory : Directory} {canonical : String}
    (h : ((directory.containers.map (renamed canonical new)).map fun container => lower container.dn).Nodup) :
    (directory.rename canonical new).containers = directory.containers.map (renamed canonical new) := by
  rw [Directory.rename, dif_pos h]

theorem containers_moving {dn target canonical : String} {newName : Option String} {allowed : Bool}
    (h : moving ldap world dn target newName allowed = some (canonical, new)) :
    (world.directory.rename canonical new).containers = world.directory.containers.map (renamed canonical new) := by
  refine containers_rename ?_
  unfold moving at h
  simp only [Option.bind_eq_bind, Option.bind_eq_some_iff] at h
  obtain ⟨_, _, _, _, _, _, _, _, _, hnames, hmade⟩ := h
  cases hmade
  by_contra hnot
  rw [guard, if_neg hnot] at hnames
  cases hnames

theorem containers_creating {name container guid dn : String} {allowed : Bool}
    (h : creating ldap world name container guid allowed = some dn) :
    (world.directory.add ⟨guid, dn⟩).containers = world.directory.containers ++ [⟨guid, dn⟩] ∧
      ∀ other ∈ world.directory.containers, other.guid ≠ guid := by
  unfold creating at h
  simp only [Option.bind_eq_bind, Option.bind_eq_some_iff] at h
  obtain ⟨_, _, _, _, _, _, _, hnames, hmade⟩ := h
  rw [Option.some.inj hmade] at hnames
  by_cases hadded : ((world.directory.containers ++ [⟨guid, dn⟩] : List Container).map Container.guid).Nodup ∧
      ((world.directory.containers ++ [⟨guid, dn⟩] : List Container).map fun container => lower container.dn).Nodup
  · constructor
    · rw [Directory.add, dif_pos hadded]
    · intro other hother heq
      have hguids := hadded.1
      rw [List.map_append, List.nodup_append] at hguids
      exact hguids.2.2 _ (List.mem_map_of_mem hother) _ (List.mem_map_of_mem (List.mem_singleton_self _)) heq
  · rw [guard, if_neg hadded] at hnames
    cases hnames

theorem eq_of_guid {container other : Container} (hcontainer : container ∈ world.directory.containers)
    (hother : other ∈ world.directory.containers) (h : container.guid = other.guid) : container = other :=
  List.inj_on_of_nodup_map world.directory.guids hcontainer hother h

theorem follows_same {move : Move} (h : next ldap world move = world) : Follows ldap world move := by
  cases move with
  | set tables => trivial
  | moveObject dn target newName allowed =>
      simp only [Follows, h]
      refine ⟨fun container hcontainer after hafter hsame => ?_, fun after hafter hnew => absurd rfl (hnew after hafter)⟩
      rw [eq_of_guid hafter hcontainer hsame]
  | createOu name container guid allowed =>
      simp only [Follows, h]
      refine ⟨fun container hcontainer after hafter hsame => ?_, fun after hafter hnew => absurd rfl (hnew after hafter)⟩
      rw [eq_of_guid hafter hcontainer hsame]

theorem moved_iff {dn target : String} {newName : Option String} {allowed : Bool} :
    Follows ldap world (.moveObject dn target newName allowed) ↔
      Unset ldap world (.moveObject dn target newName allowed) := by
  cases hmoving : moving ldap world dn target newName allowed with
  | none =>
      refine iff_of_true (follows_same (by simp only [next, hmoving])) ?_
      intro canonical new hsome
      rw [hmoving] at hsome
      cases hsome
  | some names =>
      obtain ⟨canonical, new⟩ := names
      have hafter := containers_moving hmoving
      have hunset : Unset ldap world (.moveObject dn target newName allowed) ↔
          ∀ container ∈ world.directory.containers,
            world.tables.found (renamed canonical new container).dn = world.tables.found container.dn := by
        simp only [Unset, hmoving, Option.some.injEq, Prod.mk.injEq, found_eq_iff]
        constructor
        · exact fun h => h canonical new ⟨rfl, rfl⟩
        · rintro h _ _ ⟨rfl, rfl⟩
          exact h
      rw [hunset]
      simp only [Follows, next, hmoving, hafter]
      constructor
      · rintro ⟨hkept, _⟩ container hcontainer
        exact hkept container hcontainer _ (List.mem_map_of_mem hcontainer) (guid_renamed _ _ _)
      · intro h
        constructor
        · intro container hcontainer after hmem hsame
          obtain ⟨before, hbefore, rfl⟩ := List.mem_map.mp hmem
          rw [guid_renamed] at hsame
          rw [eq_of_guid hbefore hcontainer hsame]
          exact h container hcontainer
        · intro after hmem hnew
          obtain ⟨before, hbefore, rfl⟩ := List.mem_map.mp hmem
          exact absurd (guid_renamed canonical new before).symm (hnew before hbefore)

theorem created_iff {name container guid : String} {allowed : Bool} :
    Follows ldap world (.createOu name container guid allowed) ↔
      Unset ldap world (.createOu name container guid allowed) := by
  cases hcreating : creating ldap world name container guid allowed with
  | none =>
      refine iff_of_true (follows_same (by simp only [next, hcreating])) ?_
      intro dn hsome
      rw [hcreating] at hsome
      cases hsome
  | some dn =>
      obtain ⟨hafter, hfresh⟩ := containers_creating hcreating
      simp only [Unset, Follows, next, hcreating, hafter, Option.some.injEq, forall_eq']
      constructor
      · rintro ⟨_, hnew⟩
        exact hnew ⟨guid, dn⟩ (List.mem_append_right _ (List.mem_singleton_self _)) hfresh
      · intro hnothing
        constructor
        · intro other hother after hmem hsame
          rcases List.mem_append.mp hmem with hold | hnew
          · rw [eq_of_guid hold hother hsame]
          · rw [List.mem_singleton.mp hnew] at hsame
            exact absurd hsame.symm (hfresh other hother)
        · intro after hmem hnew
          rcases List.mem_append.mp hmem with hold | hthis
          · exact absurd rfl (hnew after hold)
          · rw [List.mem_singleton.mp hthis]
            exact hnothing

theorem follows_iff (ldap : Ldap) (start : World) (moves : List Move) :
    Steps.Each (next ldap) (Follows ldap) start moves ↔ Steps.Each (next ldap) (Unset ldap) start moves := by
  refine @Steps.each_iff World Move (fun _ => True) _ _ _ (fun _ _ _ _ => trivial) (fun world move _ => ?_) start
    trivial moves
  cases move with
  | moveObject dn target newName allowed => exact moved_iff
  | createOu name container guid allowed => exact created_iff
  | set tables => exact Iff.rfl

def corp : Ldap := ⟨some, id, "DC=corp,DC=example"⟩

def salesLinked : @World Runtime.latin :=
  letI := Runtime.latin
  { directory :=
      { containers := [⟨"7d1f", "OU=Sales,DC=corp,DC=example"⟩]
        guids := by decide
        names := List.nodup_singleton _ }
    tables :=
      { links := [{ id := "b21c", gpoGuid := "31b2", targetDn := "OU=Sales,DC=corp,DC=example", linkOrder := 1 }]
        states := []
        assignments := []
        linkIds := by decide
        assignmentIds := by decide } }

omit [Runtime] in
theorem link_left_behind : letI := Runtime.latin
    ¬ Steps.Each (next corp) (Follows corp) salesLinked
      [.moveObject "OU=Sales,DC=corp,DC=example" "DC=corp,DC=example" (some "Vertrieb") true] := by
  let _ := Runtime.latin
  rintro ⟨⟨hkept, _⟩, _⟩
  have hfound := hkept ⟨"7d1f", "OU=Sales,DC=corp,DC=example"⟩ (by decide +kernel)
    ⟨"7d1f", "OU=Vertrieb,DC=corp,DC=example"⟩ (by decide +kernel) rfl
  revert hfound
  decide +kernel

end OpenDirectory.ContainerMoves
