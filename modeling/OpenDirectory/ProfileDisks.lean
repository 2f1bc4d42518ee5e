import OpenDirectory.AgentEnv
import OpenDirectory.Steps
import OpenDirectory.Value

/-! Profile disks on a share that several session hosts mount. A session attaches the disk of its person to a
home on its own host, over the network; an operator lists the disks through one host, has one made bigger, or
has one put aside so that the next session makes another. -/

namespace OpenDirectory.ProfileDisks

open Agent (goSpace)

variable [Runtime]

/-- A file on the share, by what stays the same when it is renamed. -/
structure File where
  id : Nat
  size : Nat
  deriving DecidableEq

/-- The files by their paths within the share. -/
abbrev Store := AList fun _ : List String => File

/-- What a host has mounted at a path, and of which disk it is. -/
structure Mount where
  disk : Option Nat
  target : String
  deriving DecidableEq

structure World where
  store : Store
  hosts : String → List Mount
  /-- The next file that is made. -/
  made : Nat

/-- A disk is attached on some host. -/
def Attached (hosts : String → List Mount) (id : Nat) : Prop := ∃ host, ∃ mount ∈ hosts host, mount.disk = some id

/-- `filepath.Base`. -/
def base (path : String) : String := (((Text.split '/' path).filter (· ≠ "")).getLast?).getD "/"

/-- Whether somebody's disk is attached on a host, by the home it would be attached over. -/
def mountedProfiles (mounts : List Mount) (user : String) : Bool :=
  mounts.any fun mount => Text.startsWith mount.target "/home/" && lower (base mount.target) = user

structure ProfileDisk where
  user : String
  path : List String
  sizeBytes : Nat
  inUse : Bool

/-- `strings.TrimSuffix`. -/
def trimSuffix (s affix : String) : String :=
  if Text.endsWith s affix then String.ofList (s.toList.take (s.toList.length - affix.toList.length)) else s

def shown (name : String) : Bool := Text.startsWith name "UPD-" && Text.endsWith name ".img"

def shownUser (name : String) : String := trimSuffix (Text.removePrefix name "UPD-") ".img"

def profileDisk (mounts : List Mount) (path : List String) (file : File) : Option ProfileDisk := do
  let name ← path.getLast?
  guard (shown name)
  return { user := shownUser name, path, sizeBytes := file.size, inUse := mountedProfiles mounts (shownUser name) }

def listProfileDisks (mounts : List Mount) (store : Store) : List ProfileDisk :=
  (store.entries.filterMap fun entry => profileDisk mounts entry.1 entry.2).sortedBy ProfileDisk.user

inductive Action where
  | grow (gigabytes : Nat)
  | reset

def safeName (name : String) : Bool :=
  match name.toList with
  | first :: rest => first.isAlphanum && rest.length ≤ 62 && rest.all fun c => c.isAlphanum || c ∈ ['.', '_', ' ', '-']
  | [] => false

def userOf (text : String) : String := lower (Text.strip goSpace text)

def diskName (user : String) : String := "UPD-" ++ user ++ ".img"

/-- The disk that a request names. -/
def imageOf (text : String) : Option String := if safeName (userOf text) then some (diskName (userOf text)) else none

/-- The names a disk is put aside under, in the order they are tried. -/
def asideName (image : String) : Nat → String
  | 0 => image ++ ".broken"
  | index + 1 => image ++ ".broken." ++ Nat.repr (index + 1)

/-- The first of them that is free. As many files as there are cannot take one more than that. -/
def aside (store : Store) (image : String) : Option String :=
  ((List.range (store.keys.length + 1)).map (asideName image)).find? fun name => [name] ∉ store.keys

def gigabyte : Nat := 2 ^ 30

/-- `works` where the share can be reached, and the file truncated or renamed. -/
def manageProfileDisk (mounts : List Mount) (user : String) (action : Action) (works : Bool) (store : Store) :
    Option Store := do
  let image ← imageOf user
  let file ← store.lookup [image]
  guard (!mountedProfiles mounts (userOf user))
  guard works
  match action with
  | .grow gigabytes =>
      guard (1 ≤ gigabytes ∧ gigabytes ≤ 2048 ∧ file.size < gigabytes * gigabyte)
      return store.insert [image] { file with size := gigabytes * gigabyte }
  | .reset =>
      let name ← aside store image
      return (store.erase [image]).insert [name] file

inductive Move where
  /-- The path within the share is the one the collection or the policy gives; a disk that is not there is made,
  if that works, and then attached, if that does. -/
  | openSession (host user home : String) (sub : List String) (size : Nat) (makes attaches : Bool)
  | closeSession (host home : String) (works : Bool)
  | manage (host user : String) (action : Action) (works : Bool)

def attach (world : World) (host home : String) (id : Nat) (attaches : Bool) : World :=
  if attaches then { world with hosts := Function.update world.hosts host (⟨some id, home⟩ :: world.hosts host) }
  else world

def openSession (world : World) (host user home : String) (sub : List String) (size : Nat) (makes attaches : Bool) :
    World :=
  if ∃ mount ∈ world.hosts host, mount.target = home then world
  else
    let path := sub ++ [diskName (lower user)]
    match world.store.lookup path with
    | some file => attach world host home file.id attaches
    | none =>
        if makes then
          attach { world with store := world.store.insert path ⟨world.made, size⟩, made := world.made + 1 } host home
            world.made attaches
        else world

def closeSession (world : World) (host home : String) (works : Bool) : World :=
  if works then
    { world with
      hosts := Function.update world.hosts host ((world.hosts host).eraseP fun mount => mount.target = home) }
  else world

def next (world : World) : Move → World
  | .openSession host user home sub size makes attaches => openSession world host user home sub size makes attaches
  | .closeSession host home works => closeSession world host home works
  | .manage host user action works =>
      { world with store := (manageProfileDisk (world.hosts host) user action works world.store).getD world.store }

/-- The disk a request is about. -/
def Move.about : Move → Option (List String)
  | .manage _ user _ _ => (imageOf user).map fun image => [image]
  | _ => none

/-- Every disk that a list shows, a request can name by the user it is shown with. -/
def Nameable (world : World) : Prop :=
  ∀ host, ∀ disk ∈ listProfileDisks (world.hosts host) world.store,
    ∃ image, imageOf disk.user = some image ∧ disk.path = [image]

structure Right (world : World) (move : Move) : Prop where
  untouched : ∀ path file, world.store.lookup path = some file → Attached world.hosts file.id →
    (next world move).store.lookup path = some file
  others : ∀ path file, world.store.lookup path = some file → move.about ≠ some path →
    (next world move).store.lookup path = some file
  /-- No disk is lost. -/
  there : ∀ path file, world.store.lookup path = some file →
    ∃ path' file', (next world move).store.lookup path' = some file' ∧ file'.id = file.id
  nameable : Nameable (next world move)

/-- A request changes the disk, unless it is refused because of what is mounted. -/
def changes (action : Action) (works : Bool) (file : File) : Bool :=
  works && match action with
    | .grow gigabytes => 1 ≤ gigabytes && gigabytes ≤ 2048 && file.size < gigabytes * gigabyte
    | .reset => true

/-- A disk is made at the top of the share, under a name the requests come to; and a disk that is attached
anywhere is asked for on a host that has something mounted over a home with the name of its user. -/
def Careful (world : World) : Move → Prop
  | .openSession host user home sub _ makes _ =>
      (∀ mount ∈ world.hosts host, mount.target ≠ home) → world.store.lookup (sub ++ [diskName (lower user)]) = none →
        makes → sub = [] ∧ imageOf (lower user) = some (diskName (lower user))
  | .closeSession _ _ _ => True
  | .manage host user action works =>
      ∀ image file, imageOf user = some image → world.store.lookup [image] = some file → changes action works file →
        Attached world.hosts file.id → mountedProfiles (world.hosts host) (userOf user)

variable {world : World} {store : Store} {image name user : String}

section
omit [Runtime]

theorem exists_not_mem_of_injective {α : Type} {f : Nat → α} (hinj : Function.Injective f) (taken : List α) :
    ∃ index ≤ taken.length, f index ∉ taken := by
  by_contra hnone
  have hall : (List.range (taken.length + 1)).map f ⊆ taken := by
    intro value hvalue
    obtain ⟨index, hindex, rfl⟩ := List.mem_map.mp hvalue
    by_contra hfree
    exact hnone ⟨index, Nat.le_of_lt_succ (List.mem_range.mp hindex), hfree⟩
  have hlength := (List.subperm_of_subset (List.nodup_range.map hinj) hall).length_le
  rw [List.length_map, List.length_range] at hlength
  omega

theorem asideName_injective (image : String) : Function.Injective (asideName image) := by
  intro index index' hsame
  have hdotted : ∀ n, image ++ ".broken" ≠ image ++ ".broken." ++ Nat.repr n := by
    intro n heq
    have hlengths := congrArg (fun s : String => s.toList.length) heq
    simp only [String.toList_append, List.length_append] at hlengths
    have hlonger : ".broken.".toList.length = ".broken".toList.length + 1 := rfl
    omega
  cases index with
  | zero =>
      cases index' with
      | zero => rfl
      | succ index' => exact absurd hsame (hdotted _)
  | succ index =>
      cases index' with
      | zero => exact absurd hsame.symm (hdotted _)
      | succ index' => exact Nat.repr_injective (String.append_right_inj _ |>.mp hsame)

theorem aside_spec (store : Store) (image : String) :
    ∃ index, aside store image = some (asideName image index) ∧ store.lookup [asideName image index] = none := by
  have hfresh : ∃ index ≤ store.keys.length, [asideName image index] ∉ store.keys := by
    refine exists_not_mem_of_injective (fun index index' hsame => ?_) store.keys
    exact asideName_injective image (List.cons.inj hsame).1
  obtain ⟨index, hindex, hfree⟩ := hfresh
  unfold aside
  cases hfound : ((List.range (store.keys.length + 1)).map (asideName image)).find? fun name => [name] ∉ store.keys with
  | none =>
      rw [List.find?_eq_none] at hfound
      exact absurd (decide_eq_true hfree)
        (hfound _ (List.mem_map_of_mem (List.mem_range.mpr (Nat.lt_succ_of_le hindex))))
  | some name =>
      obtain ⟨index', _, rfl⟩ := List.mem_map.mp (List.mem_of_find?_eq_some hfound)
      have hnot := List.find?_some hfound
      rw [decide_eq_true_eq] at hnot
      exact ⟨index', rfl, AList.lookup_eq_none.mpr hnot⟩

theorem endsWith_iff {s affix : String} : Text.endsWith s affix = true ↔ ∃ front, s.toList = front ++ affix.toList := by
  unfold Text.endsWith
  rw [List.isSuffixOf_iff_suffix]
  exact ⟨fun ⟨front, h⟩ => ⟨front, h.symm⟩, fun ⟨front, h⟩ => ⟨front, h.symm⟩⟩

theorem shown_asideName (image : String) (index : Nat) : shown (asideName image index) = false := by
  cases hshown : shown (asideName image index) with
  | false => rfl
  | true =>
      unfold shown at hshown
      obtain ⟨front, hfront⟩ := endsWith_iff.mp (Bool.and_eq_true_iff.mp hshown).2
      have hlast := congrArg List.getLast? hfront
      rw [List.getLast?_append_of_ne_nil _ (by decide)] at hlast
      cases index with
      | zero =>
          rw [asideName, String.toList_append, List.getLast?_append_of_ne_nil _ (by decide)] at hlast
          exact absurd hlast (by decide)
      | succ index =>
          have hne : (Nat.repr (index + 1)).toList ≠ [] := by
            rw [Nat.toList_repr]
            exact Nat.toDigits_ne_nil
          rw [asideName, String.toList_append, List.getLast?_append_of_ne_nil _ hne] at hlast
          have hdigit : 'g'.isDigit = true := by
            have hmem : 'g' ∈ (Nat.repr (index + 1)).toList := List.mem_of_getLast? hlast
            rw [Nat.toList_repr] at hmem
            exact Nat.isDigit_of_mem_toDigits (by decide) (by decide) hmem
          exact absurd hdigit (by decide)

theorem shown_diskName (user : String) : shown (diskName user) = true := by
  unfold shown
  rw [Bool.and_eq_true]
  constructor
  · rw [Text.startsWith_iff]
    exact ⟨user.toList ++ ".img".toList, by simp only [diskName, String.toList_append, List.append_assoc]⟩
  · rw [endsWith_iff]
    exact ⟨"UPD-".toList ++ user.toList, by simp only [diskName, String.toList_append]⟩

theorem shownUser_diskName (user : String) : shownUser (diskName user) = user := by
  have hstart : Text.startsWith (diskName user) "UPD-" = true := (Bool.and_eq_true_iff.mp (shown_diskName user)).1
  have hchars : (diskName user).toList = "UPD-".toList ++ (user.toList ++ ".img".toList) := by
    simp only [diskName, String.toList_append, List.append_assoc]
  have hrest : Text.removePrefix (diskName user) "UPD-" = user ++ ".img" := by
    rw [Text.removePrefix, if_pos hstart, hchars]
    exact String.toList_inj.mp (by simp only [String.toList_ofList, String.toList_append]; rfl)
  have hend : Text.endsWith (user ++ ".img") ".img" = true := endsWith_iff.mpr ⟨user.toList, String.toList_append⟩
  unfold shownUser trimSuffix
  rw [hrest, if_pos hend, String.toList_append, List.length_append, Nat.add_sub_cancel, List.take_left, String.ofList_toList]

end

/-- A file that a list shows lies at the top of the share, and the requests make its name of its user's. -/
def Named (path : List String) : Prop :=
  ∀ name, path.getLast? = some name → shown name → path = [name] ∧ imageOf (shownUser name) = some name

theorem mem_listProfileDisks {mounts : List Mount} {disk : ProfileDisk} :
    disk ∈ listProfileDisks mounts store ↔
      ∃ path file, store.lookup path = some file ∧ profileDisk mounts path file = some disk := by
  unfold listProfileDisks
  rw [(List.perm_sortedBy _ _).mem_iff, List.mem_filterMap]
  constructor
  · rintro ⟨⟨path, file⟩, hentry, hdisk⟩
    exact ⟨path, file, AList.mem_lookup_iff.mpr hentry, hdisk⟩
  · rintro ⟨path, file, hlookup, hdisk⟩
    exact ⟨⟨path, file⟩, AList.mem_lookup_iff.mp hlookup, hdisk⟩

theorem profileDisk_eq_some {mounts : List Mount} {path : List String} {file : File} {disk : ProfileDisk} :
    profileDisk mounts path file = some disk ↔ ∃ name, path.getLast? = some name ∧ shown name ∧
      disk = { user := shownUser name, path, sizeBytes := file.size, inUse := mountedProfiles mounts (shownUser name) } := by
  unfold profileDisk
  simp only [Option.bind_eq_bind, Option.bind_eq_some_iff]
  constructor
  · rintro ⟨name, hname, _, hshown, hdisk⟩
    refine ⟨name, hname, ?_, (Option.some.inj hdisk).symm⟩
    by_contra hnot
    rw [guard, if_neg hnot] at hshown
    cases hshown
  · rintro ⟨name, hname, hshown, rfl⟩
    exact ⟨name, hname, (), by rw [guard, if_pos hshown]; rfl, rfl⟩

theorem nameable_iff : Nameable world ↔ ∀ path file, world.store.lookup path = some file → Named path := by
  constructor
  · intro h path file hlookup name hname hshown
    let disk : ProfileDisk := {
      user := shownUser name, path, sizeBytes := file.size
      inUse := mountedProfiles (world.hosts "") (shownUser name) }
    have hdisk : profileDisk (world.hosts "") path file = some disk :=
      profileDisk_eq_some.mpr ⟨name, hname, hshown, rfl⟩
    obtain ⟨image, himage, hpath⟩ := h "" disk (mem_listProfileDisks.mpr ⟨path, file, hlookup, hdisk⟩)
    have hpath' : path = [image] := hpath
    rw [hpath', List.getLast?_singleton] at hname
    cases hname
    exact ⟨hpath', himage⟩
  · intro h host disk hdisk
    obtain ⟨path, file, hlookup, hmade⟩ := mem_listProfileDisks.mp hdisk
    obtain ⟨name, hname, hshown, rfl⟩ := profileDisk_eq_some.mp hmade
    obtain ⟨hpath, himage⟩ := h path file hlookup name hname hshown
    exact ⟨name, himage, hpath⟩

theorem named_diskName {sub : List String} :
    Named (sub ++ [diskName user]) ↔ sub = [] ∧ imageOf user = some (diskName user) := by
  constructor
  · intro h
    obtain ⟨hpath, himage⟩ := h (diskName user) List.getLast?_concat (shown_diskName user)
    rw [shownUser_diskName] at himage
    cases sub with
    | nil => exact ⟨rfl, himage⟩
    | cons part sub =>
        have hlength := congrArg List.length hpath
        rw [List.cons_append, List.length_cons, List.length_append, List.length_singleton] at hlength
        omega
  · rintro ⟨rfl, himage⟩ name hname _
    rw [List.nil_append, List.getLast?_singleton] at hname
    cases hname
    rw [shownUser_diskName]
    exact ⟨rfl, himage⟩

theorem manage_spec {mounts : List Mount} {action : Action} {works : Bool} {after : Store}
    (h : manageProfileDisk mounts user action works store = some after) :
    ∃ image file, imageOf user = some image ∧ store.lookup [image] = some file ∧
      mountedProfiles mounts (userOf user) = false ∧ changes action works file ∧
      ((∃ size, file.size < size ∧ after = store.insert [image] { file with size }) ∨
        ∃ index, store.lookup [asideName image index] = none ∧
          after = (store.erase [image]).insert [asideName image index] file) := by
  unfold manageProfileDisk at h
  simp only [Option.bind_eq_bind, Option.bind_eq_some_iff] at h
  obtain ⟨image, himage, file, hlookup, _, hfree, _, hworks, h⟩ := h
  have hmounted : mountedProfiles mounts (userOf user) = false := by
    cases hmounted : mountedProfiles mounts (userOf user) with
    | false => rfl
    | true =>
        rw [hmounted] at hfree
        cases hfree
  have hworked : works = true := by
    cases works with
    | true => rfl
    | false => cases hworks
  refine ⟨image, file, himage, hlookup, hmounted, ?_⟩
  cases action with
  | grow gigabytes =>
      dsimp only at h
      simp only [Option.bind_eq_some_iff] at h
      obtain ⟨_, hguard, hmade⟩ := h
      by_cases hrange : 1 ≤ gigabytes ∧ gigabytes ≤ 2048 ∧ file.size < gigabytes * gigabyte
      · refine ⟨?_, .inl ⟨_, hrange.2.2, (Option.some.inj hmade).symm⟩⟩
        simp only [changes, hworked, hrange, decide_true, Bool.and_self]
      · rw [guard, if_neg hrange] at hguard
        cases hguard
  | reset =>
      dsimp only at h
      simp only [Option.bind_eq_some_iff] at h
      obtain ⟨name, hname, hmade⟩ := h
      obtain ⟨index, hindex, hnone⟩ := aside_spec store image
      rw [hindex] at hname
      cases hname
      refine ⟨?_, .inr ⟨index, hnone, (Option.some.inj hmade).symm⟩⟩
      rw [changes, hworked]
      rfl

theorem manage_isSome {mounts : List Mount} {action : Action} {works : Bool} {file : File}
    (himage : imageOf user = some image) (hlookup : store.lookup [image] = some file)
    (hmounted : mountedProfiles mounts (userOf user) = false) (hchanges : changes action works file) :
    (manageProfileDisk mounts user action works store).isSome := by
  unfold changes at hchanges
  rw [Bool.and_eq_true] at hchanges
  obtain ⟨hworks, hchanges⟩ := hchanges
  unfold manageProfileDisk
  simp only [himage, hlookup, hmounted, hworks, Option.bind_eq_bind, Option.bind_some, Bool.not_false, guard, if_true,
    Option.pure_def]
  cases action with
  | grow gigabytes =>
      simp only [Bool.and_eq_true, decide_eq_true_eq] at hchanges
      simp only [if_pos (And.intro hchanges.1.1 (And.intro hchanges.1.2 hchanges.2)), Option.bind_some, Option.isSome_some]
  | reset =>
      obtain ⟨index, hindex, _⟩ := aside_spec store image
      simp only [hindex, Option.bind_some, Option.isSome_some]

omit [Runtime] in
theorem asideName_ne (image : String) (index : Nat) : asideName image index ≠ image := by
  intro heq
  have hlengths := congrArg (fun s : String => s.toList.length) heq
  cases index with
  | zero =>
      simp only [asideName, String.toList_append, List.length_append] at hlengths
      have hlonger : ".broken".toList.length = 7 := rfl
      omega
  | succ index =>
      simp only [asideName, String.toList_append, List.length_append] at hlengths
      have hlonger : ".broken.".toList.length = 8 := rfl
      omega

variable {host home : String} {sub : List String} {action : Action} {works : Bool}

variable {mounts : List Mount} {path : List String} {file : File}

theorem lookup_manage_other
    (hlookup : store.lookup path = some file) (hother : (imageOf user).map (fun image => [image]) ≠ some path) :
    ((manageProfileDisk mounts user action works store).getD store).lookup path = some file := by
  cases hmanage : manageProfileDisk mounts user action works store with
  | none => exact hlookup
  | some after =>
      obtain ⟨image, _, himage, _, _, _, hafter⟩ := manage_spec hmanage
      rw [himage, Option.map_some, ne_eq, Option.some.injEq] at hother
      have hpath : path ≠ [image] := fun heq => hother heq.symm
      rw [Option.getD_some]
      rcases hafter with ⟨size, _, rfl⟩ | ⟨index, hfree, rfl⟩
      · rw [AList.lookup_insert_ne hpath, hlookup]
      · have haside : path ≠ [asideName image index] := by
          rintro rfl
          rw [hfree] at hlookup
          cases hlookup
        rw [AList.lookup_insert_ne haside, AList.lookup_erase_ne hpath, hlookup]

theorem there_manage
    (hlookup : store.lookup path = some file) :
    ∃ path' file', ((manageProfileDisk mounts user action works store).getD store).lookup path' = some file' ∧
      file'.id = file.id := by
  by_cases hother : (imageOf user).map (fun image => [image]) = some path
  · cases hmanage : manageProfileDisk mounts user action works store with
    | none => exact ⟨path, file, hlookup, rfl⟩
    | some after =>
        obtain ⟨image, found, himage, hfound, _, _, hafter⟩ := manage_spec hmanage
        rw [himage, Option.map_some, Option.some.injEq] at hother
        rw [hother] at hfound
        rw [hlookup] at hfound
        cases hfound
        rw [Option.getD_some]
        rcases hafter with ⟨size, _, rfl⟩ | ⟨index, _, rfl⟩
        · exact ⟨[image], _, AList.lookup_insert _, rfl⟩
        · exact ⟨[asideName image index], file, AList.lookup_insert _, rfl⟩
  · exact ⟨path, file, lookup_manage_other hlookup hother, rfl⟩

theorem named_manage (h : ∀ path file, store.lookup path = some file → Named path)

    (hlookup : ((manageProfileDisk mounts user action works store).getD store).lookup path = some file) : Named path := by
  cases hmanage : manageProfileDisk mounts user action works store with
  | none =>
      rw [hmanage] at hlookup
      exact h path file hlookup
  | some after =>
      rw [hmanage, Option.getD_some] at hlookup
      obtain ⟨image, found, _, hfound, _, _, hafter⟩ := manage_spec hmanage
      rcases hafter with ⟨size, _, rfl⟩ | ⟨index, _, rfl⟩
      · by_cases hpath : path = [image]
        · exact hpath ▸ h [image] found hfound
        · rw [AList.lookup_insert_ne hpath] at hlookup
          exact h path file hlookup
      · by_cases hpath : path = [asideName image index]
        · intro name hname hshown
          rw [hpath, List.getLast?_singleton] at hname
          cases hname
          rw [shown_asideName] at hshown
          cases hshown
        · rw [AList.lookup_insert_ne hpath] at hlookup
          by_cases himage : path = [image]
          · rw [himage, AList.lookup_erase] at hlookup
            cases hlookup
          · rw [AList.lookup_erase_ne himage] at hlookup
            exact h path file hlookup

theorem managed_iff (hnameable : Nameable world) :
    Right world (.manage host user action works) ↔ Careful world (.manage host user action works) := by
  constructor
  · intro h image file himage hlookup hchanges hattached
    cases hmounted : mountedProfiles (world.hosts host) (userOf user) with
    | true => rfl
    | false =>
        have hkept := h.untouched [image] file hlookup hattached
        obtain ⟨after, hafter⟩ := Option.isSome_iff_exists.mp (manage_isSome himage hlookup hmounted hchanges)
        obtain ⟨image', found, himage', hfound, _, _, hmade⟩ := manage_spec hafter
        rw [himage] at himage'
        cases himage'
        rw [hlookup] at hfound
        cases hfound
        simp only [next, hafter, Option.getD_some] at hkept
        rcases hmade with ⟨size, hsize, rfl⟩ | ⟨index, _, rfl⟩
        · rw [AList.lookup_insert] at hkept
          have hsame : size = file.size := congrArg File.size (Option.some.inj hkept)
          omega
        · have hne : [image] ≠ [asideName image index] := fun heq => asideName_ne image index (List.cons.inj heq).1.symm
          rw [AList.lookup_insert_ne hne, AList.lookup_erase] at hkept
          cases hkept
  · intro h
    constructor
    · intro path file hlookup hattached
      by_cases hother : (imageOf user).map (fun image => [image]) = some path
      · obtain ⟨image, himage, rfl⟩ := Option.map_eq_some_iff.mp hother
        cases hmanage : manageProfileDisk (world.hosts host) user action works world.store with
        | none =>
            simp only [next, hmanage, Option.getD_none]
            exact hlookup
        | some after =>
            obtain ⟨image', found, himage', hfound, hmounted, hchanges, _⟩ := manage_spec hmanage
            rw [himage] at himage'
            cases himage'
            rw [hlookup] at hfound
            cases hfound
            rw [h image file himage hlookup hchanges hattached] at hmounted
            cases hmounted
      · exact lookup_manage_other hlookup hother
    · exact fun path file hlookup hother => lookup_manage_other hlookup hother
    · exact fun path file hlookup => there_manage hlookup
    · rw [nameable_iff] at hnameable ⊢
      exact fun path file hlookup => named_manage hnameable hlookup

theorem right_of_kept {move : Move}
    (hkept : ∀ path file, world.store.lookup path = some file → (next world move).store.lookup path = some file)
    (hnameable : Nameable (next world move)) : Right world move where
  untouched path file hlookup _ := hkept path file hlookup
  others path file hlookup _ := hkept path file hlookup
  there path file hlookup := ⟨path, file, hkept path file hlookup, rfl⟩
  nameable := hnameable

omit [Runtime] in
theorem store_attach (id : Nat) (attaches : Bool) : (attach world host home id attaches).store = world.store := by
  unfold attach
  split <;> rfl

omit [Runtime] in
theorem store_closeSession : (closeSession world host home works).store = world.store := by
  unfold closeSession
  split <;> rfl

theorem nameable_of_store {world' : World} (hstore : world'.store = world.store) (h : Nameable world) : Nameable world' := by
  rw [nameable_iff] at h ⊢
  rwa [hstore]

theorem closed_iff (hnameable : Nameable world) :
    Right world (.closeSession host home works) ↔ Careful world (.closeSession host home works) := by
  refine iff_of_true (right_of_kept ?_ (nameable_of_store store_closeSession hnameable)) trivial
  intro path file hlookup
  rw [next, store_closeSession]
  exact hlookup

theorem store_openSession (size : Nat) (makes attaches : Bool) :
    (openSession world host user home sub size makes attaches).store =
      if (∀ mount ∈ world.hosts host, mount.target ≠ home) ∧
          world.store.lookup (sub ++ [diskName (lower user)]) = none ∧ makes then
        world.store.insert (sub ++ [diskName (lower user)]) ⟨world.made, size⟩
      else world.store := by
  unfold openSession
  by_cases hthere : ∃ mount ∈ world.hosts host, mount.target = home
  · obtain ⟨mount, hmount, htarget⟩ := hthere
    rw [if_pos ⟨mount, hmount, htarget⟩, if_neg fun h => h.1 mount hmount htarget]
  · have hfree : ∀ mount ∈ world.hosts host, mount.target ≠ home := fun mount hmount htarget => hthere ⟨mount, hmount, htarget⟩
    rw [if_neg hthere]
    dsimp only
    cases hlookup : world.store.lookup (sub ++ [diskName (lower user)]) with
    | some file =>
        dsimp only
        rw [if_neg fun h => Option.some_ne_none file h.2.1]
        exact store_attach file.id attaches
    | none =>
        cases makes with
        | false => rw [if_neg Bool.false_ne_true, if_neg fun h => Bool.false_ne_true h.2.2]
        | true =>
            rw [if_pos rfl, if_pos ⟨hfree, rfl, rfl⟩]
            exact store_attach world.made attaches

theorem opened_iff {size : Nat} {makes attaches : Bool} (hnameable : Nameable world) :
    Right world (.openSession host user home sub size makes attaches) ↔
      Careful world (.openSession host user home sub size makes attaches) := by
  have hstore : (next world (.openSession host user home sub size makes attaches)).store = _ :=
    store_openSession size makes attaches
  by_cases hmakes : (∀ mount ∈ world.hosts host, mount.target ≠ home) ∧
      world.store.lookup (sub ++ [diskName (lower user)]) = none ∧ makes = true
  · obtain ⟨hfree, hnone, hmade⟩ := hmakes
    rw [if_pos ⟨hfree, hnone, hmade⟩] at hstore
    constructor
    · intro h _ _ _
      have hnamed := nameable_iff.mp h.nameable
      rw [hstore] at hnamed
      exact named_diskName.mp (hnamed _ _ (AList.lookup_insert _))
    · intro h
      apply right_of_kept
      · intro path file hlookup
        have hne : path ≠ sub ++ [diskName (lower user)] := by
          rintro rfl
          rw [hnone] at hlookup
          cases hlookup
        rw [hstore, AList.lookup_insert_ne hne, hlookup]
      · rw [nameable_iff, hstore]
        intro path file hlookup
        by_cases hpath : path = sub ++ [diskName (lower user)]
        · rw [hpath]
          exact named_diskName.mpr (h hfree hnone hmade)
        · rw [AList.lookup_insert_ne hpath] at hlookup
          exact nameable_iff.mp hnameable path file hlookup
  · rw [if_neg hmakes] at hstore
    refine iff_of_true (right_of_kept (fun path file hlookup => ?_) (nameable_of_store hstore hnameable)) ?_
    · rw [hstore, hlookup]
    · exact fun hfree hnone hmade => absurd ⟨hfree, hnone, hmade⟩ hmakes

theorem disks_iff (start : World) (moves : List Move) :
    Nameable start ∧ Steps.Each next Right start moves ↔
      (∀ path file, start.store.lookup path = some file → Named path) ∧ Steps.Each next Careful start moves := by
  rw [← nameable_iff]
  apply and_congr_right
  intro hnameable
  refine @Steps.each_iff World Move Nameable next Right Careful (fun _ _ _ hright => hright.nameable)
    (fun world move hnameable => ?_) start hnameable moves
  cases move with
  | openSession host user home sub size makes attaches => exact opened_iff hnameable
  | closeSession host home works => exact closed_iff hnameable
  | manage host user action works => exact managed_iff hnameable

/-- A session is opened on one host, and an operator asks another one for its disk. -/
def askedElsewhere : List Move := [
  .openSession "desk1" "alice" "/home/alice" [] 10 true true,
  .manage "desk2" "alice" .reset true]

omit [Runtime] in
theorem disk_renamed_in_use :
    letI := Runtime.latin
    ¬ ∀ (start : World) (moves : List Move), Nameable start → Steps.Each next Right start moves := by
  let _ := Runtime.latin
  intro h
  have hempty : Nameable ⟨∅, fun _ => [], 0⟩ := by
    rw [nameable_iff]
    intro path file hlookup
    rw [AList.lookup_empty] at hlookup
    cases hlookup
  obtain ⟨_, hasked, _⟩ := h ⟨∅, fun _ => [], 0⟩ askedElsewhere hempty
  have hkept := hasked.untouched ["UPD-alice.img"] ⟨0, 10⟩ (by decide +kernel)
    ⟨"desk1", ⟨some 0, "/home/alice"⟩, by decide +kernel, rfl⟩
  exact absurd hkept (by decide +kernel)

end OpenDirectory.ProfileDisks
