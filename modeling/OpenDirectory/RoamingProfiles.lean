import OpenDirectory.DiskRecovery

/-! Roaming homes on one machine. The hook of a session's opening mounts the share with the profiles, where
nothing is mounted in its place, and the home out of it; the hook of a session's end takes the home off again
and then the share, where it finds no other home. -/

namespace OpenDirectory.RoamingProfiles

open DiskRecovery (replaceAll)

variable [Runtime]

/-- What is mounted: a share, a directory or a disk within the share that was mounted at the time, or
something that has nothing to do with profiles. -/
inductive Source where
  | share (unc : String)
  | profile (share : Option String) (sub : String) (image : Option String)
  | other
  deriving DecidableEq

/-- Where something is mounted, by the names from the root on. -/
structure Mount where
  source : Source
  target : List String
  deriving DecidableEq

def Mount.isProfile (mount : Mount) : Bool :=
  match mount.source with
  | .profile _ _ _ => true
  | _ => false

def Mount.path (mount : Mount) : String := "/" ++ Text.join "/" mount.target

/-- `filepath.Clean`, of a path from the root. -/
def clean (path : String) : List String :=
  (Text.split '/' path).foldl (fun parts part =>
    if part = "" ∨ part = "." then parts else if part = ".." then parts.dropLast else parts ++ [part]) []

def profileStore : String := "/run/odm/profiles"

/-- The latest mount comes first. -/
abbrev Table := List Mount

def mounted (mounts : Table) (path : String) : Bool := mounts.any fun mount => mount.target = clean path

def anyProfileMounted (mounts : Table) (except : String) : Bool :=
  mounts.any fun mount => mount.path ≠ except && Text.startsWith mount.path "/home/"

/-- What is seen at a path. -/
def top (mounts : Table) (path : String) : Option Mount := mounts.find? fun mount => mount.target = clean path

def without (mounts : Table) (path : String) : Table := mounts.eraseP fun mount => mount.target = clean path

/-- The share that is mounted in the profiles' place. -/
def shareAt (mounts : Table) : Option String :=
  match top mounts profileStore with
  | some ⟨.share unc, _⟩ => some unc
  | _ => none

/-- `umount`, which fails where nothing is mounted. -/
def umount (works : Bool) (path : String) (mounts : Table) : Option (Mount × Table) :=
  if works then (top mounts path).map fun mount => (mount, without mounts path) else none

/-- What `getent passwd` answers about a name. -/
structure Entry where
  uid : Nat
  home : String

abbrev Passwd := String → Option Entry

def lookupAccount (passwd : Passwd) (user : String) : Option Entry :=
  (passwd user).map fun entry => { entry with home := if entry.home = "" then "/home/" ++ user else entry.home }

structure RoamingProfile where
  path : String
  kind : String := "disk"

/-- The share to mount and the path within it. -/
def splitProfilePath (path user : String) : Option (String × String) := do
  let path := String.ofList (path.toList.map fun c => if c = '\\' then '/' else c)
  let path := String.ofList
    (replaceAll "%username%".toList (lower user).toList (path.length + 1) path.toList)
  guard (Text.startsWith path "//")
  match Text.split '/' (Text.strip (· = '/') (Text.removePrefix path "//")) with
  | server :: share :: parts =>
      guard (server ≠ "" ∧ share ≠ "" ∧ ∀ part ∈ parts, part ≠ "." ∧ part ≠ "..")
      return ("//" ++ server ++ "/" ++ share, Text.join "/" parts)
  | _ => none

/-- The greeter hands over `DOMAIN\name` or `name@domain`. -/
def accountName (pamUser : String) : String :=
  let name := match Text.cut '\\' pamUser with
    | some (_, rest) => rest
    | none => pamUser
  match Text.cut '@' name with
  | some (before, _) => before
  | none => name

/-- Which of the commands of an opening work: making the home, each try to mount the share, making the
directory on it, making the disk where there is none, and attaching. -/
structure Opening where
  home : Bool := true
  shares : List Bool := [true]
  target : Bool := true
  image : Bool := true
  attach : Bool := true

structure Place where
  home : String
  share : String
  sub : String
  kind : String

/-- What is to be attached, where anything is. -/
def placing (passwd : Passwd) (policy : Option RoamingProfile) (user : String) (commands : Opening)
    (mounts : Table) : Option Place := do
  let profile ← policy
  guard (profile.path ≠ "")
  let account ← lookupAccount passwd user
  guard (1000 ≤ account.uid)
  guard commands.home
  guard (!mounted mounts account.home)
  let (share, sub) ← splitProfilePath profile.path user
  return { home := account.home, share, sub, kind := profile.kind }

def mountShare (share : String) (commands : Opening) (mounts : Table) : Option Table :=
  if mounted mounts profileStore then some mounts
  else if (commands.shares.take 3).any id then some (⟨.share share, clean profileStore⟩ :: mounts)
  else none

def bindDirectory (place : Place) (commands : Opening) (mounts : Table) : Option Mount :=
  if commands.attach then some ⟨.profile (shareAt mounts) place.sub none, clean place.home⟩ else none

def attachDisk (place : Place) (user : String) (commands : Opening) (mounts : Table) : Option Mount :=
  if commands.image && commands.attach then
    some ⟨.profile (shareAt mounts) place.sub (some ("UPD-" ++ lower user ++ ".img")), clean place.home⟩
  else none

def attach (place : Place) (user : String) (commands : Opening) (mounts : Table) : Option Mount :=
  if commands.target then
    if place.kind = "directory" then bindDirectory place commands mounts else attachDisk place user commands mounts
  else none

def mountProfile (passwd : Passwd) (policy : Option RoamingProfile) (user : String) (commands : Opening)
    (mounts : Table) : Table :=
  match placing passwd policy user commands mounts with
  | none => mounts
  | some place =>
      match mountShare place.share commands mounts with
      | none => mounts
      | some shared =>
          match attach place user commands shared with
          | some mount => mount :: shared
          | none => shared

/-- Which of the commands of a closing work: each try to take the home off, taking it off lazily, and taking
off the share. -/
structure Closing where
  umounts : List Bool := [true]
  lazily : Bool := true
  store : Bool := true

/-- The table afterwards, and what was taken off the home and the profiles' place. -/
structure Released where
  mounts : Table
  detached : Option Mount := none
  unmounted : Option Mount := none

def releaseAttempts : Nat := 5

def detach (home : String) (commands : Closing) (mounts : Table) : Option (Mount × Table) :=
  ((commands.umounts.take releaseAttempts).findSome? fun works => umount works home mounts) <|>
    umount commands.lazily home mounts

def releaseStore (home : String) (commands : Closing) (mounts : Table) (detached : Option Mount) : Released :=
  if anyProfileMounted mounts home then { mounts, detached }
  else
    match umount commands.store profileStore mounts with
    | some (mount, rest) => { mounts := rest, detached, unmounted := some mount }
    | none => { mounts, detached }

def releaseProfile (passwd : Passwd) (user : String) (commands : Closing) (mounts : Table) : Released :=
  match lookupAccount passwd user with
  | none => { mounts }
  | some account =>
      if account.uid < 1000 then { mounts }
      else
        match detach account.home commands mounts with
        | some (mount, rest) => releaseStore account.home commands rest (some mount)
        | none => releaseStore account.home commands mounts none

structure World where
  mounts : Table
  /-- Whom the open sessions belong to, as the greeter hands them over. -/
  sessions : List String := []

/-- The policy is the one the session was given, and there is none where the console could not be asked. -/
inductive Move where
  | openSession (pamUser : String) (policy : Option RoamingProfile) (commands : Opening)
  | closeSession (pamUser : String) (commands : Closing)

variable (passwd : Passwd)

def opened (policy : Option RoamingProfile) (pamUser : String) (commands : Opening) (mounts : Table) : Table :=
  if accountName pamUser = "" then mounts else mountProfile passwd policy (accountName pamUser) commands mounts

def released (pamUser : String) (commands : Closing) (mounts : Table) : Released :=
  if accountName pamUser = "" then { mounts } else releaseProfile passwd (accountName pamUser) commands mounts

def next (world : World) : Move → World
  | .openSession pamUser policy commands =>
      { mounts := opened passwd policy pamUser commands world.mounts, sessions := pamUser :: world.sessions }
  | .closeSession pamUser commands =>
      if pamUser ∈ world.sessions then
        { mounts := (released passwd pamUser commands world.mounts).mounts, sessions := world.sessions.erase pamUser }
      else world

/-- The home of the person a session belongs to. -/
def homeOf (pamUser : String) : Option (List String) :=
  (lookupAccount passwd (accountName pamUser)).map fun account => clean account.home

/-- The share and the path within it that a policy names for a person. -/
def Names (policy : Option RoamingProfile) (pamUser : String) (share : Option String) (sub : String) : Prop :=
  ∃ profile ∈ policy, ∃ unc, splitProfilePath profile.path (accountName pamUser) = some (unc, sub) ∧ share = some unc

/-- A home is attached where the policy of its owner says; a home that a session takes off is none that another
session of the same person uses; and the share goes only where no home is left. -/
def Right (world : World) : Move → Prop
  | .openSession pamUser policy commands =>
      ∀ mount ∈ opened passwd policy pamUser commands world.mounts, ∀ share sub image,
        mount.source = .profile share sub image → mount ∈ world.mounts ∨ Names policy pamUser share sub
  | .closeSession pamUser commands =>
      pamUser ∈ world.sessions →
        (∀ mount ∈ (released passwd pamUser commands world.mounts).detached, mount.isProfile →
          ∀ other ∈ world.sessions.erase pamUser, homeOf passwd other ≠ homeOf passwd pamUser) ∧
        ∀ mount ∈ (released passwd pamUser commands world.mounts).unmounted,
          ∀ other ∈ mount :: (released passwd pamUser commands world.mounts).mounts, ¬ other.isProfile

/-- One of the commands that take a home off works. -/
def Closing.detaches (commands : Closing) : Bool :=
  (commands.umounts.take releaseAttempts).any id || commands.lazily

/-- The table without the home, where it can be taken off. -/
def left (home : String) (commands : Closing) (mounts : Table) : Table :=
  if commands.detaches then without mounts home else mounts

/-- Where something is attached, the share that is mounted is the one the policy names; a home is taken off
only when no other session of the same person is open; and as long as a home is left, something else is mounted
below `/home`, or the share is not there or cannot be taken off. -/
def Sole (world : World) : Move → Prop
  | .openSession pamUser policy commands =>
      accountName pamUser ≠ "" →
        ∀ place, placing passwd policy (accountName pamUser) commands world.mounts = some place →
          mounted world.mounts profileStore → (attach place (accountName pamUser) commands world.mounts).isSome →
            shareAt world.mounts = some place.share
  | .closeSession pamUser commands =>
      pamUser ∈ world.sessions → accountName pamUser ≠ "" →
        ∀ account, lookupAccount passwd (accountName pamUser) = some account → 1000 ≤ account.uid →
          ((∃ mount ∈ top world.mounts account.home, mount.isProfile) → commands.detaches →
            ∀ other ∈ world.sessions.erase pamUser, homeOf passwd other ≠ some (clean account.home)) ∧
          (commands.store → mounted (left account.home commands world.mounts) profileStore →
            (∃ mount ∈ left account.home commands world.mounts, mount.isProfile) →
              anyProfileMounted (left account.home commands world.mounts) account.home)

variable {passwd} {mounts rest : Table} {world : World} {pamUser path home : String}

section
omit [Runtime]

theorem mounted_eq : mounted mounts path = (top mounts path).isSome := by
  unfold mounted top
  rw [Bool.eq_iff_iff, List.find?_isSome, List.any_eq_true]

theorem findSome_umount (tries : List Bool) :
    tries.findSome? (fun works => umount works path mounts) = umount (tries.any id) path mounts := by
  induction tries with
  | nil => rfl
  | cons works tries ih =>
      rw [List.findSome?_cons, ih, List.any_cons, id_eq]
      cases works with
      | false => rfl
      | true =>
          unfold umount
          cases top mounts path with
          | none => simp
          | some mount => rfl

theorem detach_eq (commands : Closing) : detach home commands mounts = umount commands.detaches home mounts := by
  unfold detach Closing.detaches
  rw [findSome_umount]
  unfold umount
  cases (commands.umounts.take releaseAttempts).any id with
  | false => rfl
  | true =>
      cases top mounts home with
      | none => cases commands.lazily <;> rfl
      | some mount => rfl

theorem detached_eq (commands : Closing) :
    (detach home commands mounts).map Prod.fst = if commands.detaches then top mounts home else none := by
  rw [detach_eq]
  unfold umount
  split
  · rw [Option.map_map]
    exact Option.map_id'
  · rfl

theorem left_eq (commands : Closing) :
    ((detach home commands mounts).map Prod.snd).getD mounts = left home commands mounts := by
  rw [detach_eq]
  unfold umount left
  split
  · cases htop : top mounts home with
    | none =>
        unfold top at htop
        unfold without
        rw [List.find?_eq_none] at htop
        exact (List.eraseP_of_forall_not fun mount hmount => htop mount hmount).symm
    | some mount => rfl
  · rfl

end

variable {user : String} {mount : Mount} {commands : Opening}

section
omit [Runtime]

theorem releaseProfile_eq {account : Entry} (hlookup : lookupAccount passwd user = some account)
    (huid : 1000 ≤ account.uid) (commands : Closing) :
    releaseProfile passwd user commands mounts =
      releaseStore account.home commands (left account.home commands mounts)
        (if commands.detaches then top mounts account.home else none) := by
  rw [← left_eq, ← detached_eq]
  simp only [releaseProfile, hlookup, if_neg (Nat.not_lt.mpr huid)]
  cases detach account.home commands mounts with
  | none => rfl
  | some taken => rfl

theorem detached_releaseStore (commands : Closing) (detached : Option Mount) :
    (releaseStore home commands mounts detached).detached = detached := by
  unfold releaseStore
  split
  · rfl
  · split <;> rfl

theorem perm_without (h : top mounts path = some mount) :
    (mount :: without mounts path).Perm mounts := by
  unfold top at h
  unfold without
  induction mounts with
  | nil => cases h
  | cons first mounts ih =>
      rw [List.find?_cons] at h
      rw [List.eraseP_cons]
      cases hthere : decide (first.target = clean path) with
      | true =>
          rw [hthere] at h
          cases h
          exact List.Perm.refl _
      | false =>
          rw [hthere] at h
          exact (List.Perm.swap first mount _).trans ((ih h).cons first)

theorem unmounted_iff (commands : Closing) (detached : Option Mount) :
    (∀ mount ∈ (releaseStore home commands mounts detached).unmounted,
        ∀ other ∈ mount :: (releaseStore home commands mounts detached).mounts, ¬ other.isProfile) ↔
      (commands.store → mounted mounts profileStore → (∃ mount ∈ mounts, mount.isProfile) →
        anyProfileMounted mounts home) := by
  unfold releaseStore
  cases hany : anyProfileMounted mounts home with
  | true => simp
  | false =>
      rw [mounted_eq]
      unfold umount
      cases commands.store with
      | false => simp
      | true =>
          cases htop : top mounts profileStore with
          | none => simp
          | some mount =>
              simp only [Bool.false_eq_true, if_false, if_true, Option.map_some, Option.mem_def, Option.some.injEq, forall_eq',
                Option.isSome_some, forall_const, imp_false, not_exists, not_and, (perm_without htop).mem_iff]

end

theorem placing_spec {policy : Option RoamingProfile} {place : Place}
    (h : placing passwd policy user commands mounts = some place) :
    (∃ profile ∈ policy, splitProfilePath profile.path user = some (place.share, place.sub)) ∧
      mounted mounts place.home = false := by
  unfold placing at h
  simp only [Option.bind_eq_bind, Option.bind_eq_some_iff] at h
  obtain ⟨profile, hprofile, _, _, account, _, _, _, _, _, _, hfree, ⟨share, sub⟩, hsplit, hmade⟩ := h
  cases hmade
  refine ⟨⟨profile, hprofile, hsplit⟩, ?_⟩
  cases hmounted : mounted mounts account.home with
  | false => rfl
  | true =>
      rw [hmounted] at hfree
      cases hfree

theorem attach_spec {place : Place}
    (h : attach place user commands mounts = some mount) :
    mount.target = clean place.home ∧ ∃ image, mount.source = .profile (shareAt mounts) place.sub image := by
  unfold attach bindDirectory attachDisk at h
  split at h
  · split at h
    · split at h
      · cases h
        exact ⟨rfl, _, rfl⟩
      · cases h
    · split at h
      · cases h
        exact ⟨rfl, _, rfl⟩
      · cases h
  · cases h

theorem attach_fresh {place : Place}
    (h : attach place user commands mounts = some mount) (hfree : mounted mounts place.home = false) : mount ∉ mounts := by
  intro hmem
  unfold mounted at hfree
  rw [List.any_eq_false] at hfree
  exact hfree mount hmem (decide_eq_true (attach_spec h).1)

theorem opened_iff {policy : Option RoamingProfile} :
    Right passwd world (.openSession pamUser policy commands) ↔
      Sole passwd world (.openSession pamUser policy commands) := by
  simp only [Right, Sole, opened]
  by_cases hname : accountName pamUser = ""
  · rw [if_pos hname]
    exact iff_of_true (fun mount hmount _ _ _ _ => .inl hmount) fun h => absurd hname h
  rw [forall_prop_of_true hname, if_neg hname]
  unfold mountProfile
  cases hplacing : placing passwd policy (accountName pamUser) commands world.mounts with
  | none => exact iff_of_true (fun mount hmount _ _ _ _ => .inl hmount) fun place h => absurd h.symm (Option.some_ne_none place)
  | some place =>
      obtain ⟨⟨profile, hprofile, hsplit⟩, hfree⟩ := placing_spec hplacing
      simp only [Option.some.injEq, forall_eq']
      unfold mountShare
      cases hstore : mounted world.mounts profileStore with
      | true =>
          simp only [if_true, forall_const]
          cases hattach : attach place (accountName pamUser) commands world.mounts with
          | none => exact iff_of_true (fun mount hmount _ _ _ _ => .inl hmount) fun h => absurd h (by simp)
          | some mount =>
              obtain ⟨_, image, hsource⟩ := attach_spec hattach
              simp only [Option.isSome_some, forall_const]
              constructor
              · intro h
                rcases h mount List.mem_cons_self _ _ _ hsource with hold | ⟨profile', hprofile', unc, hsplit', hshare⟩
                · exact absurd hold (attach_fresh hattach hfree)
                · cases hprofile.symm.trans hprofile'
                  rw [hsplit] at hsplit'
                  cases hsplit'
                  exact hshare
              · intro h other hother share sub image' hsource'
                rcases List.mem_cons.mp hother with rfl | hold
                · rw [hsource] at hsource'
                  cases hsource'
                  exact .inr ⟨profile, hprofile, place.share, hsplit, h⟩
                · exact .inl hold
      | false =>
          refine iff_of_true ?_ fun h => absurd h Bool.false_ne_true
          rw [if_neg Bool.false_ne_true]
          split
          · exact fun mount hmount _ _ _ _ => .inl hmount
          · rename_i shared hshared
            split at hshared
            · cases hshared
              have hat : shareAt (⟨.share place.share, clean profileStore⟩ :: world.mounts) = some place.share := by
                simp [shareAt, top]
              intro other hother share sub image hsource
              split at hother
              · rename_i mount hattach
                obtain ⟨_, image', hsource'⟩ := attach_spec hattach
                rcases List.mem_cons.mp hother with rfl | hrest
                · rw [hsource', hat] at hsource
                  cases hsource
                  exact .inr ⟨profile, hprofile, place.share, hsplit, rfl⟩
                · rcases List.mem_cons.mp hrest with rfl | hold
                  · cases hsource
                  · exact .inl hold
              · rcases List.mem_cons.mp hother with rfl | hold
                · cases hsource
                · exact .inl hold
            · cases hshared

theorem closed_iff {commands : Closing} :
    Right passwd world (.closeSession pamUser commands) ↔ Sole passwd world (.closeSession pamUser commands) := by
  unfold Right Sole
  apply imp_congr_right
  intro _
  unfold released
  split
  · rename_i hname
    refine iff_of_true ⟨fun mount h => absurd h (Option.not_mem_none mount), fun mount h => absurd h (Option.not_mem_none mount)⟩
      fun h => absurd hname h
  · rename_i hname
    rw [forall_prop_of_true hname]
    cases hlookup : lookupAccount passwd (accountName pamUser) with
    | none =>
        simp [releaseProfile, hlookup]
    | some account =>
        simp only [Option.some.injEq, forall_eq']
        by_cases huid : 1000 ≤ account.uid
        · have hhome : homeOf passwd pamUser = some (clean account.home) := by
            unfold homeOf
            rw [hlookup]
            rfl
          rw [forall_prop_of_true huid, releaseProfile_eq hlookup huid, detached_releaseStore, hhome, unmounted_iff]
          apply and_congr_left'
          cases commands.detaches with
          | false => simp
          | true =>
              simp only [if_true, forall_const]
              constructor
              · rintro h ⟨mount, hmount, hprofile⟩
                exact h mount hmount hprofile
              · exact fun h mount hmount hprofile => h ⟨mount, hmount, hprofile⟩
        · rw [forall_prop_of_false huid]
          simp [releaseProfile, hlookup, if_pos (Nat.not_le.mp huid)]

theorem homes_right_iff (start : World) (moves : List Move) :
    Steps.Each (next passwd) (Right passwd) start moves ↔ Steps.Each (next passwd) (Sole passwd) start moves := by
  refine @Steps.each_iff World Move (fun _ => True) _ _ _ (fun _ _ _ _ => trivial) (fun world move _ => ?_) start
    trivial moves
  cases move with
  | openSession pamUser policy commands => exact opened_iff
  | closeSession pamUser commands => exact closed_iff

def onlyAlice : Passwd := fun user => if user = "alice" then some ⟨1000, "/home/alice"⟩ else none

/-- Two sessions are opened, and one of them is closed. -/
def twoSessions : List Move := [
  .openSession "alice" (some { path := "//fs01/profiles/%username%" }) {},
  .openSession "alice" (some { path := "//fs01/profiles/%username%" }) {},
  .closeSession "alice" {}]

/-- The home as the first session attached it. -/
def aliceHome : Mount := ⟨.profile (some "//fs01/profiles") "alice" (some "UPD-alice.img"), ["home", "alice"]⟩

omit [Runtime] in
theorem second_session_detached :
    letI := Runtime.latin
    ¬ ∀ (passwd : Passwd) (start : World) (moves : List Move),
      Steps.Each (next passwd) (Right passwd) start moves := by
  let _ := Runtime.latin
  intro h
  obtain ⟨_, _, hclosed, _⟩ := h onlyAlice ⟨[], []⟩ twoSessions
  obtain ⟨hdetached, _⟩ := hclosed (by decide +kernel)
  exact hdetached aliceHome (by decide +kernel) (by decide +kernel) "alice" (by decide +kernel) rfl

end OpenDirectory.RoamingProfiles
