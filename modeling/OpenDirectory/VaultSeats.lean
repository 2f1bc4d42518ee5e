import OpenDirectory.Lists
import OpenDirectory.SignIn

/-! Who holds a seat in the vault. The members of the groups of a pass and the accounts named one by one are
collected under their addresses, and those that have a seat are picked out of them again. -/

namespace OpenDirectory.VaultSeats

open SignIn (beforeAt validateUsername)

variable [Runtime]

structure Account where
  samAccountName : String
  mail : String := ""
  displayName : String := ""
  userAccountControl : Nat := 512
  deriving DecidableEq

structure Group where
  dn : String
  samAccountName : String
  cn : String

/-- The accounts of people and the groups, with who is in which, directly or through groups in it. -/
structure Directory where
  domain : String
  accounts : List Account
  groups : List Group
  inChain : Account → String → Bool

def Account.disabled (account : Account) : Bool := account.userAccountControl.testBit 1

inductive Refusal where
  | notFound
  | invalidCredentials
  deriving DecidableEq

variable (directory : Directory)

/-- The group with an account name or a common name; which of several is meant is never guessed. -/
def findGroup (name : String) : Except Refusal Group :=
  let name := String.ofList ((Text.strip Runtime.blank name).toList.dropWhile (· = '%'))
  if name = "" ∨ 64 < name.length then .error .notFound
  else
    match directory.groups.filter fun group =>
        lower group.samAccountName = lower name || lower group.cn = lower name with
    | [group] => .ok group
    | _ => .error .notFound

def findUser (name : String) : Except Refusal Account :=
  match validateUsername name with
  | none => .error .invalidCredentials
  | some username =>
      match directory.accounts.filter fun account =>
          lower account.samAccountName = lower (beforeAt username) with
      | [account] => .ok account
      | _ => .error .notFound

def addressOf (account : Account) : String :=
  lower (if account.mail = "" then account.samAccountName ++ "@" ++ directory.domain else account.mail)

def nameOf (account : Account) : String :=
  if account.displayName = "" then account.samAccountName else account.displayName

/-- `user.lstrip("%")` -/
def bare (user : String) : String := String.ofList (user.toList.dropWhile (· = '%'))

abbrev People := List (String × String)

def addPerson (people : People) (account : Account) : People :=
  Dict.set people (addressOf directory account) (nameOf account)

/-- The enabled members of a group. -/
def membersOf (group : String) : Except Refusal (List Account) := do
  let found ← findGroup directory group
  return directory.accounts.filter fun account => directory.inChain account found.dn && !account.disabled

def addGroup (state : People × List (String × List String)) (group : String) :
    Except Refusal (People × List (String × List String)) := do
  let members ← membersOf directory group
  return (members.foldl (addPerson directory) state.1,
    Dict.set state.2 group (members.map (addressOf directory)))

/-- The enabled account a name finds, if it finds one. -/
def account? (user : String) : Except Refusal (Option Account) :=
  match findUser directory (bare user) with
  | .ok account => .ok (if account.disabled then none else some account)
  | .error .notFound => .ok none
  | .error refusal => .error refusal

def addUser (people : People) (user : String) : Except Refusal People := do
  match ← account? directory user with
  | some account => return addPerson directory people account
  | none => return people

/-- Everyone entitled to a seat, by address, and each group's members by address. -/
def membersOfGroups (groups users : List String) : Except Refusal (People × List (String × List String)) := do
  let (people, perGroup) ← groups.foldlM (addGroup directory) ([], [])
  let people ← users.foldlM (addUser directory) people
  return (people, perGroup)

/-- The groups and accounts that have a seat, and the groups that see a collection. -/
structure Config where
  seatGroups : List String
  seatUsers : List String
  accessGroups : List String

variable (config : Config)

/-- `sorted(set(seat_groups) | set(access_groups))` -/
def Config.allGroups : List String := (config.seatGroups ++ config.accessGroups).dedup.sortedBy id

/-- The addresses of the seat groups, and of all those collected whose part before the first `@` is the
name of an account that has a seat. -/
def entitled (people : People) (perGroup : List (String × List String)) : List String :=
  config.seatGroups.flatMap (fun group => (Dict.get perGroup group).getD []) ++
    config.seatUsers.flatMap fun user =>
      (Dict.keys people).filter fun address => beforeAt address = lower (bare user)

/-- An enabled member of a group has the address. -/
def InGroup (group address : String) : Prop :=
  ∃ found, findGroup directory group = .ok found ∧ ∃ account ∈ directory.accounts,
    directory.inChain account found.dn = true ∧ account.disabled = false ∧ addressOf directory account = address

/-- The account of a name is enabled and has the address. -/
def Named (user address : String) : Prop :=
  ∃ account, findUser directory (bare user) = .ok account ∧ account.disabled = false ∧
    addressOf directory account = address

def Entitled (address : String) : Prop :=
  (∃ group ∈ config.seatGroups, InGroup directory group address) ∨
    ∃ user ∈ config.seatUsers, Named directory user address

/-- A pass that comes so far gives a seat to those who are to have one. -/
def Right : Prop :=
  ∀ people perGroup, membersOfGroups directory config.allGroups config.seatUsers = .ok (people, perGroup) →
    ∀ address, address ∈ entitled config people perGroup ↔ Entitled directory config address

/-- Every group is found, and every account has a name that is one. -/
structure Resolves : Prop where
  groups : ∀ group ∈ config.allGroups, ∃ found, findGroup directory group = .ok found
  users : ∀ user ∈ config.seatUsers, (validateUsername (bare user)).isSome

/-- The part of an address before the first `@` is the name of an account that has a seat. -/
def Looks (address : String) : Prop := ∃ user ∈ config.seatUsers, beforeAt address = lower (bare user)

/-- An account with a seat looks like one by its address, or is in a seat group; and a member of a group
that only sees collections looks like one only where it has a seat. -/
structure Exact : Prop where
  named : ∀ user ∈ config.seatUsers, ∀ address, Named directory user address →
    Looks config address ∨ ∃ group ∈ config.seatGroups, InGroup directory group address
  stranger : ∀ group ∈ config.accessGroups, ∀ address, InGroup directory group address →
    Looks config address → Entitled directory config address

variable {directory} {config} {people : People} {perGroup : List (String × List String)}
  {address group user : String}

variable {members : List Account}

theorem membersOf_iff : membersOf directory group = .ok members ↔
    ∃ found, findGroup directory group = .ok found ∧
      members = directory.accounts.filter fun account => directory.inChain account found.dn && !account.disabled := by
  unfold membersOf
  rw [Except.bind_eq_ok]
  simp only [pure, Except.pure, Except.ok.injEq, eq_comm]

theorem inGroup_iff (h : membersOf directory group = .ok members) :
    InGroup directory group address ↔ address ∈ members.map (addressOf directory) := by
  obtain ⟨found, hfound, rfl⟩ := membersOf_iff.mp h
  simp only [InGroup, hfound, Except.ok.injEq, List.mem_map, List.mem_filter, Bool.and_eq_true,
    Bool.not_eq_true', exists_eq_left', and_assoc]

theorem account_iff {account : Account} : account? directory user = .ok (some account) ↔
    findUser directory (bare user) = .ok account ∧ account.disabled = false := by
  unfold account?
  cases hfind : findUser directory (bare user) with
  | error refusal => cases refusal <;> simp
  | ok found =>
      cases hdisabled : found.disabled <;> simp [hdisabled]
      · rintro rfl
        exact hdisabled
      · rintro rfl
        rw [hdisabled]

theorem mem_keys_addPerson {account : Account} : address ∈ Dict.keys (addPerson directory people account) ↔
    address ∈ Dict.keys people ∨ addressOf directory account = address := by
  rw [addPerson, Dict.mem_keys_set, eq_comm]
  exact or_comm

theorem mem_keys_addPeople :
    address ∈ Dict.keys (members.foldl (addPerson directory) people) ↔
      address ∈ Dict.keys people ∨ address ∈ members.map (addressOf directory) := by
  induction members generalizing people with
  | nil => simp
  | cons account members ih =>
      rw [List.foldl_cons, ih, mem_keys_addPerson, List.map_cons, List.mem_cons, or_assoc, eq_comm (a := address)]

theorem grouped {groups : List String} (h : groups.foldlM (addGroup directory) ([], []) = .ok (people, perGroup)) :
    (∀ group ∈ groups, ∃ members, membersOf directory group = .ok members ∧
      Dict.get perGroup group = some (members.map (addressOf directory))) ∧
    ∀ address, address ∈ Dict.keys people ↔ ∃ group ∈ groups, InGroup directory group address := by
  induction groups using List.reverseRecOn generalizing people perGroup with
  | nil =>
      cases h
      simp [Dict.keys]
  | append_singleton groups group ih =>
      obtain ⟨⟨people', perGroup'⟩, hbefore, hstep⟩ := List.foldlM_concat_ok.mp h
      obtain ⟨hgroups, hpeople⟩ := ih hbefore
      obtain ⟨members, hmembers, hmade⟩ := Except.bind_eq_ok.mp hstep
      cases hmade
      constructor
      · intro other hother
        by_cases hsame : group = other
        · subst hsame
          exact ⟨members, hmembers, Dict.get_set_self _ _ _⟩
        · have hmem : other ∈ groups := by simpa [Ne.symm hsame] using hother
          rw [Dict.get_set_of_ne _ _ hsame]
          exact hgroups other hmem
      · intro address
        rw [mem_keys_addPeople, hpeople, ← inGroup_iff hmembers]
        simp [or_and_right, exists_or]

theorem named_of_addUsers {users : List String} {start : People}
    (h : users.foldlM (addUser directory) start = .ok people) :
    address ∈ Dict.keys people ↔ address ∈ Dict.keys start ∨ ∃ user ∈ users, Named directory user address := by
  induction users generalizing start with
  | nil =>
      cases h
      simp
  | cons user users ih =>
      rw [List.foldlM_cons] at h
      obtain ⟨next, hnext, hrest⟩ := Except.bind_eq_ok.mp h
      have hstep : address ∈ Dict.keys next ↔ address ∈ Dict.keys start ∨ Named directory user address := by
        obtain ⟨found, hfound, hmade⟩ := Except.bind_eq_ok.mp hnext
        cases found with
        | none =>
            cases hmade
            have hnot : ¬ Named directory user address := by
              rintro ⟨account, hfind, henabled, _⟩
              rw [account_iff.mpr ⟨hfind, henabled⟩] at hfound
              cases hfound
            simp [hnot]
        | some account =>
            cases hmade
            obtain ⟨hfind, henabled⟩ := account_iff.mp hfound
            rw [mem_keys_addPerson]
            simp [Named, hfind, henabled]
      rw [ih hrest, hstep, or_assoc]
      simp

theorem collected (h : membersOfGroups directory config.allGroups config.seatUsers = .ok (people, perGroup)) :
    (∀ group ∈ config.allGroups, ∃ members, membersOf directory group = .ok members ∧
      Dict.get perGroup group = some (members.map (addressOf directory))) ∧
    ∀ address, address ∈ Dict.keys people ↔ (∃ group ∈ config.allGroups, InGroup directory group address) ∨
      ∃ user ∈ config.seatUsers, Named directory user address := by
  obtain ⟨⟨people', perGroup'⟩, hgroups, h⟩ := Except.bind_eq_ok.mp h
  obtain ⟨last, husers, hlast⟩ := Except.bind_eq_ok.mp h
  cases hlast
  obtain ⟨hper, hpeople⟩ := grouped hgroups
  refine ⟨hper, fun address => ?_⟩
  rw [named_of_addUsers husers, hpeople]

omit [Runtime] in
theorem mem_allGroups : group ∈ config.allGroups ↔ group ∈ config.seatGroups ∨ group ∈ config.accessGroups := by
  rw [Config.allGroups, (List.perm_sortedBy id _).mem_iff, List.mem_dedup, List.mem_append]

theorem mem_entitled (h : membersOfGroups directory config.allGroups config.seatUsers = .ok (people, perGroup)) :
    address ∈ entitled config people perGroup ↔ (∃ group ∈ config.seatGroups, InGroup directory group address) ∨
      address ∈ Dict.keys people ∧ Looks config address := by
  obtain ⟨hper, _⟩ := collected h
  have hgroup : ∀ group ∈ config.seatGroups,
      (address ∈ (Dict.get perGroup group).getD [] ↔ InGroup directory group address) := by
    intro group hgroup
    obtain ⟨members, hmembers, hget⟩ := hper group (mem_allGroups.mpr (.inl hgroup))
    rw [hget, Option.getD_some, inGroup_iff hmembers]
  unfold entitled Looks
  rw [List.mem_append, List.mem_flatMap, List.mem_flatMap]
  refine or_congr (exists_congr fun group => and_congr_right (hgroup group)) ?_
  simp only [List.mem_filter, decide_eq_true_eq]
  tauto

theorem right_iff_of_collected
    (h : membersOfGroups directory config.allGroups config.seatUsers = .ok (people, perGroup)) :
    (∀ address, address ∈ entitled config people perGroup ↔ Entitled directory config address) ↔
      Exact directory config := by
  obtain ⟨_, hpeople⟩ := collected h
  constructor
  · intro hright
    constructor
    · intro user huser address hnamed
      rcases (mem_entitled h).mp ((hright address).mpr (.inr ⟨user, huser, hnamed⟩)) with hgroup | ⟨_, hlooks⟩
      · exact .inr hgroup
      · exact .inl hlooks
    · intro group hgroup address hin hlooks
      have hthere : address ∈ Dict.keys people :=
        (hpeople address).mpr (.inl ⟨group, mem_allGroups.mpr (.inr hgroup), hin⟩)
      exact (hright address).mp ((mem_entitled h).mpr (.inr ⟨hthere, hlooks⟩))
  · intro hexact address
    rw [mem_entitled h, hpeople]
    constructor
    · rintro (hgroup | ⟨⟨group, hgroup, hin⟩ | hnamed, hlooks⟩)
      · exact .inl hgroup
      · rcases mem_allGroups.mp hgroup with hseat | haccess
        · exact .inl ⟨group, hseat, hin⟩
        · exact hexact.stranger group haccess address hin hlooks
      · exact .inr hnamed
    · rintro (hgroup | ⟨user, huser, hnamed⟩)
      · exact .inl hgroup
      · rcases hexact.named user huser address hnamed with hlooks | hgroup
        · exact .inr ⟨.inr ⟨user, huser, hnamed⟩, hlooks⟩
        · exact .inl hgroup

theorem account_ok_iff : (∃ found, account? directory user = .ok found) ↔ (validateUsername (bare user)).isSome := by
  unfold account? findUser
  cases validateUsername (bare user) with
  | none => simp
  | some username =>
      simp only [Option.isSome_some, iff_true]
      split
      · exact ⟨_, rfl⟩
      · exact ⟨_, rfl⟩
      · rename_i refusal hnot heq
        split at heq
        · cases heq
        · cases heq
          exact absurd rfl hnot

theorem ok_of_addUsers {users : List String} {start : People}
    (h : users.foldlM (addUser directory) start = .ok people) :
    ∀ user ∈ users, ∃ found, account? directory user = .ok found := by
  induction users generalizing start with
  | nil => exact fun user huser => absurd huser List.not_mem_nil
  | cons first users ih =>
      rw [List.foldlM_cons] at h
      obtain ⟨next, hnext, hrest⟩ := Except.bind_eq_ok.mp h
      obtain ⟨found, hfound, _⟩ := Except.bind_eq_ok.mp hnext
      intro user huser
      rcases List.mem_cons.mp huser with rfl | huser
      · exact ⟨found, hfound⟩
      · exact ih hrest user huser

theorem resolves_iff : Resolves directory config ↔
    ∃ people perGroup, membersOfGroups directory config.allGroups config.seatUsers = .ok (people, perGroup) := by
  constructor
  · intro h
    have hgroups : ∃ state, config.allGroups.foldlM (addGroup directory) ([], []) = .ok state ∧ True := by
      refine List.foldlM_ok (fun _ => True) (fun state group hgroup _ => ?_) trivial
      obtain ⟨found, hfound⟩ := h.groups group hgroup
      rw [addGroup, membersOf, hfound]
      exact ⟨_, rfl, trivial⟩
    obtain ⟨state, hstate, _⟩ := hgroups
    have husers : ∃ people, config.seatUsers.foldlM (addUser directory) state.1 = .ok people ∧ True := by
      refine List.foldlM_ok (fun _ => True) (fun start user huser _ => ?_) trivial
      obtain ⟨found, hfound⟩ := account_ok_iff.mpr (h.users user huser)
      rw [addUser, hfound]
      cases found <;> exact ⟨_, rfl, trivial⟩
    obtain ⟨people, hpeople, _⟩ := husers
    refine ⟨people, state.2, ?_⟩
    exact Except.bind_eq_ok.mpr ⟨state, hstate, Except.bind_eq_ok.mpr ⟨people, hpeople, rfl⟩⟩
  · rintro ⟨people, perGroup, h⟩
    constructor
    · intro group hgroup
      obtain ⟨members, hmembers, _⟩ := (collected h).1 group hgroup
      obtain ⟨found, hfound, _⟩ := membersOf_iff.mp hmembers
      exact ⟨found, hfound⟩
    · intro user huser
      obtain ⟨_, _, h⟩ := Except.bind_eq_ok.mp h
      obtain ⟨_, husers, _⟩ := Except.bind_eq_ok.mp h
      exact account_ok_iff.mp (ok_of_addUsers husers user huser)

theorem right_iff (directory : Directory) (config : Config) :
    Right directory config ↔ (Resolves directory config → Exact directory config) := by
  rw [resolves_iff]
  constructor
  · rintro hright ⟨people, perGroup, h⟩
    exact (right_iff_of_collected h).mp (hright people perGroup h)
  · intro hexact people perGroup h
    exact (right_iff_of_collected h).mpr (hexact ⟨people, perGroup, h⟩)

def ada : Account := { samAccountName := "ada", mail := "ada.lovelace@corp.example" }

def office : Directory where
  domain := "corp.example"
  accounts := [ada]
  groups := []
  inChain _ _ := false

def onlyAda : Config := ⟨[], ["ada"], []⟩

omit [Runtime] in
theorem seat_not_given : letI := Runtime.latin; ¬ Right office onlyAda := by
  let _ := Runtime.latin
  intro h
  have hnamed : Named office "ada" "ada.lovelace@corp.example" := ⟨ada, by decide, rfl, by decide⟩
  have hthere := (h [("ada.lovelace@corp.example", "ada")] [] (by decide) "ada.lovelace@corp.example").mpr
    (.inr ⟨"ada", List.mem_singleton_self _, hnamed⟩)
  revert hthere
  decide

end OpenDirectory.VaultSeats
