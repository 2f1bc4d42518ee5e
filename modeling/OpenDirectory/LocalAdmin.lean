import OpenDirectory.AccessFile
import OpenDirectory.AgentEnv
import OpenDirectory.Steps

/-! The local administrator a policy gives a machine. The machine makes the account, or takes over one
that is there, sets a password of its own on it and remembers both in one file; when the policy names
another account or none, what the file names is taken off. Every command can fail, before or after it has
done its work. -/

namespace OpenDirectory.LocalAdmin

open Agent (Ends header goSpace)

structure LocalAdministrator where
  account : String
  rotateDays : Int := 30
  length : Int := 20
  administrator : Bool := true

structure LocalAdminState where
  account : String := ""
  rotated : Int := 0
  password : String := ""

/-- What the report that follows carries. -/
structure PendingLocalAdministrator where
  account : String
  password : String
  rotated : Int
  expiresAt : Int

inductive Status where
  | success
  | applied
  | unchanged
  | failed
  deriving DecidableEq

structure Result where
  setting : String
  status : Status
  reason : String

def result (status : Status) (reason : String) : Result := ⟨"local_administrator", status, reason⟩

/-- Whose a password is: somebody else's, or the agent's, which the console has accepted or has not. -/
inductive Standing where
  | theirs
  | owed
  | accepted
  deriving DecidableEq

structure Account where
  /-- None while the account is locked. -/
  password : Option String := none
  /-- What nothing on the machine says: the agent made the account; and whose its password is. -/
  made : Bool
  standing : Standing := .theirs
  deriving DecidableEq

structure Machine where
  /-- The accounts of the machine itself. -/
  accounts : String → Option Account
  sudoers : Option String := none
  /-- The state file, none while it is missing or unreadable. -/
  record : Option LocalAdminState := none
  pending : Option PendingLocalAdministrator := none

namespace Machine

def loadLocalAdminState (machine : Machine) : LocalAdminState := machine.record.getD {}

end Machine

/-- How writing the state file ends: a write that breaks off leaves it unreadable. -/
inductive Saved where
  | written
  | untouched (error : String)
  | spoiled (error : String)

def passwordAlphabet : List Char :=
  "ABCDEFGHJKLMNPQRSTUVWXYZabcdefghijkmnopqrstuvwxyz23456789-_=+.,@#%".toList

/-- What one run meets. -/
structure Chance where
  now : Int
  runner : Bool := true
  draw : Nat → Except String (Fin passwordAlphabet.length)
  asked : String → Bool := fun _ => true
  elsewhere : String → Bool := fun _ => false
  userdel : Ends := .done ""
  useradd : Ends := .done ""
  chpasswd : Ends := .done ""
  sudoersRemoved : Option String := none
  sudoersDropped : Bool := true
  sudoersWritten : Option String := none
  recordRemoved : Option String := none
  saved : Saved := .written

namespace Chance

/-- Whether `id -u` finds an account. -/
def finds (chance : Chance) (machine : Machine) (account : String) : Bool :=
  chance.asked account && ((machine.accounts account).isSome || chance.elsewhere account)

end Chance

def sudoersPath : String := "/etc/sudoers.d/odm-local-administrator"

def lastLine (out : String) : String := (Text.split '\n' (Text.strip goSpace out)).getLastD ""

def userdel (ends : Ends) (machine : Machine) (account : String) : Machine × Ends :=
  if (machine.accounts account).isSome then
    (if ends.did then { machine with accounts := Function.update machine.accounts account none } else machine,
      ends)
  else (machine, ends.refused)

/-- The account the state names is looked for and deleted, with everything that is in its home. -/
def deleteAccount (chance : Chance) (machine : Machine) (account : String) : Machine × List Result :=
  if chance.runner && chance.finds machine account then
    let (after, ends) := userdel chance.userdel machine account
    (after,
      match ends with
      | .done _ => []
      | .failed _ out error => [result .failed ("removing " ++ account ++ ": " ++ error ++ ": " ++
          Text.strip goSpace (lastLine out))])
  else (machine, [])

def removeLocalAdministrator (chance : Chance) (machine : Machine) (state : LocalAdminState) :
    Machine × List Result :=
  if state.account = "" then (machine, [])
  else
    let unprivileged := match chance.sudoersRemoved with
      | none => ({ machine with sudoers := none }, [])
      | some error => (machine, [result .failed error])
    let deleted := deleteAccount chance unprivileged.1 state.account
    let forgotten := match chance.recordRemoved with
      | none => ({ deleted.1 with record := none }, [])
      | some error => (deleted.1, [result .failed error])
    let results := unprivileged.2 ++ deleted.2 ++ forgotten.2
    (forgotten.1, if results = [] then [result .success (state.account ++ " removed: no longer in policy")]
      else results)

/-- A duration in nanoseconds, in a word of 64 bits that wraps. -/
def duration (days : Int) : Int := Int.bmod (days * 24 * (3600 * 10 ^ 9)) (2 ^ 64)

/-- The time since another; it is cut off where it does not fit. -/
def since (now earlier : Int) : Int := max (-2 ^ 63) (min (2 ^ 63 - 1) (now - earlier))

def generatePassword (length : Nat) (draw : Nat → Except String (Fin passwordAlphabet.length)) :
    Except String String :=
  match (List.range length).mapM draw with
  | .error error => .error ("generating a password: " ++ error)
  | .ok indices => .ok (String.ofList (indices.map passwordAlphabet.get))

def rotateDaysOf (wanted : LocalAdministrator) : Int := if wanted.rotateDays ≤ 0 then 30 else wanted.rotateDays

def lengthOf (wanted : LocalAdministrator) : Nat := if wanted.length < 12 then 20 else wanted.length.toNat

def due (now : Int) (wanted : LocalAdministrator) (state : LocalAdminState) : Bool :=
  state.account ≠ wanted.account || state.password = "" ||
    since now state.rotated ≥ duration (rotateDaysOf wanted)

def useradd (ends : Ends) (machine : Machine) (account : String) : Machine × Ends :=
  if (machine.accounts account).isSome then (machine, ends.refused)
  else
    (if ends.did then
        { machine with accounts := Function.update machine.accounts account (some { made := true }) }
      else machine,
      ends)

/-- Made if it is missing; and what went wrong. -/
def ensureAccount (chance : Chance) (machine : Machine) (account : String) : Machine × Option String :=
  if chance.finds machine account then (machine, none)
  else
    let (after, ends) := useradd chance.useradd machine account
    (after, if ends.isDone then none else some ("creating the account: " ++ ends.said))

def setPassword (ends : Ends) (machine : Machine) (account password : String) : Machine × Option String :=
  match machine.accounts account with
  | none => (machine, some ("setting the password: " ++ ends.refused.said))
  | some there =>
      (if ends.did then
          { machine with
            accounts := Function.update machine.accounts account
              (some { there with password := some password, standing := .owed }) }
        else machine,
        match ends with
        | .done _ => none
        | .failed _ _ error => some ("setting the password: " ++ error))

def privilege (chance : Chance) (machine : Machine) (wanted : LocalAdministrator) : Machine × Option String :=
  if wanted.administrator then
    match chance.sudoersWritten with
    | none => ({ machine with sudoers := some (header ++ wanted.account ++ " ALL=(ALL:ALL) ALL\n") }, none)
    | some error => (machine, some error)
  else ({ machine with sudoers := if chance.sudoersDropped then none else machine.sudoers }, none)

def saveLocalAdminState (saved : Saved) (machine : Machine) (state : LocalAdminState) : Machine × Option String :=
  match saved with
  | .written => ({ machine with record := some state }, none)
  | .untouched error => (machine, some error)
  | .spoiled error => ({ machine with record := none }, some error)

/-- One step after another, until one says what went wrong. -/
def andThen (stage : Machine × Option String) (next : Machine → Machine × Option String) :
    Machine × Option String :=
  match stage.2 with
  | none => next stage.1
  | some _ => stage

/-- Everything between the password drawn and the password remembered. -/
def setUp (chance : Chance) (machine : Machine) (wanted : LocalAdministrator) (password : String) :
    Machine × Option String :=
  andThen (andThen (andThen (ensureAccount chance machine wanted.account)
    fun machine => setPassword chance.chpasswd machine wanted.account password)
    fun machine => privilege chance machine wanted)
    fun machine => saveLocalAdminState chance.saved machine ⟨wanted.account, chance.now, password⟩

def rotate (chance : Chance) (machine : Machine) (wanted : LocalAdministrator) : Machine × List Result :=
  match generatePassword (lengthOf wanted) chance.draw with
  | .error error => (machine, [result .failed error])
  | .ok password =>
      if !chance.runner then (machine, [result .failed "no command runner"])
      else
        match setUp chance machine wanted password with
        | (after, some error) => (after, [result .failed error])
        | (after, none) =>
            ({ after with
                pending := some ⟨wanted.account, password, chance.now,
                  chance.now + duration (rotateDaysOf wanted)⟩ },
              [result .applied (wanted.account ++ " rotated, next in " ++
                toString (rotateDaysOf wanted) ++ " days")])

/-- What is left of the machine and its record once an account no longer named is gone. -/
def takeBack (chance : Chance) (machine : Machine) (wanted : LocalAdministrator) :
    Machine × LocalAdminState × List Result :=
  let state := machine.loadLocalAdminState
  if state.account ≠ "" ∧ state.account ≠ wanted.account then
    let (after, results) := removeLocalAdministrator chance machine state
    (after, {}, results)
  else (machine, state, [])

def applyLocalAdministrator (wanted : Option LocalAdministrator) (chance : Chance) (machine : Machine) :
    Machine × List Result :=
  match wanted with
  | none => removeLocalAdministrator chance machine machine.loadLocalAdminState
  | some wanted =>
      if wanted.account = "" then (machine, [result .failed "no account name"])
      else
        let (taken, state, results) := takeBack chance machine wanted
        if due chance.now wanted state then
          let (after, more) := rotate chance taken wanted
          (after, results ++ more)
        else
          (taken, results ++ [result .unchanged ("next rotation in " ++
            toString (rotateDaysOf wanted - Int.tdiv (since chance.now state.rotated) (24 * (3600 * 10 ^ 9))) ++
            " days")])

variable {chance : Chance} {machine : Machine} {wanted : LocalAdministrator} {account other : String}

/-- The account is looked for, found and deleted. -/
def Deletes (chance : Chance) (machine : Machine) (account : String) : Prop :=
  chance.runner ∧ chance.asked account ∧ (machine.accounts account).isSome ∧ chance.userdel.did

instance : Decidable (Deletes chance machine account) := inferInstanceAs (Decidable (_ ∧ _))

theorem finds_of_isSome (h : (machine.accounts account).isSome) :
    chance.finds machine account = chance.asked account := by
  simp [Chance.finds, h]

theorem userdel_accounts (ends : Ends) :
    (userdel ends machine account).1.accounts =
      if (machine.accounts account).isSome ∧ ends.did then Function.update machine.accounts account none
      else machine.accounts := by
  unfold userdel
  by_cases hthere : (machine.accounts account).isSome
  · by_cases hdid : ends.did
    · simp only [hthere, hdid, and_self, if_true]
    · simp only [hthere, hdid, if_true, and_false, if_false, Bool.false_eq_true]
  · simp only [hthere, false_and, if_false, Bool.false_eq_true]

theorem deleteAccount_accounts :
    (deleteAccount chance machine account).1.accounts =
      if Deletes chance machine account then Function.update machine.accounts account none
      else machine.accounts := by
  unfold deleteAccount
  by_cases hfinds : chance.runner && chance.finds machine account
  · rw [if_pos hfinds]
    rw [Bool.and_eq_true] at hfinds
    refine (userdel_accounts chance.userdel).trans ?_
    refine if_congr ?_ rfl rfl
    constructor
    · intro h
      exact ⟨hfinds.1, finds_of_isSome h.1 ▸ hfinds.2, h.1, h.2⟩
    · intro h
      exact ⟨h.2.2.1, h.2.2.2⟩
  · rw [if_neg hfinds, if_neg]
    intro h
    rw [finds_of_isSome h.2.2.1, Bool.and_eq_true] at hfinds
    exact hfinds ⟨h.1, h.2.1⟩

variable {state : LocalAdminState} {β : Type} {stage : Machine × Option String} {password : String}

theorem removeLocalAdministrator_accounts (h : state.account ≠ "") :
    (removeLocalAdministrator chance machine state).1.accounts =
      if Deletes chance machine state.account then Function.update machine.accounts state.account none
      else machine.accounts := by
  unfold removeLocalAdministrator
  rw [if_neg h]
  have hdeleted : ∀ machine' : Machine, machine'.accounts = machine.accounts →
      (deleteAccount chance machine' state.account).1.accounts =
        if Deletes chance machine state.account then Function.update machine.accounts state.account none
        else machine.accounts := by
    intro machine' haccounts
    rw [deleteAccount_accounts, haccounts]
    refine if_congr ?_ rfl rfl
    unfold Deletes
    rw [haccounts]
  cases chance.sudoersRemoved <;> cases chance.recordRemoved <;> exact hdeleted _ rfl

theorem deleteAccount_same (field : Machine → β)
    (h : ∀ (machine : Machine) (accounts : String → Option Account),
      field { machine with accounts } = field machine) :
    field (deleteAccount chance machine account).1 = field machine := by
  unfold deleteAccount userdel
  split_ifs <;> exact h _ _

theorem removeLocalAdministrator_record (h : state.account ≠ "") :
    (removeLocalAdministrator chance machine state).1.record =
      if chance.recordRemoved = none then none else machine.record := by
  unfold removeLocalAdministrator
  rw [if_neg h]
  cases chance.sudoersRemoved <;> cases chance.recordRemoved <;>
    simp [deleteAccount_same Machine.record fun _ _ => rfl]

theorem removeLocalAdministrator_pending :
    (removeLocalAdministrator chance machine state).1.pending = machine.pending := by
  unfold removeLocalAdministrator
  split_ifs
  · rfl
  · cases chance.sudoersRemoved <;> cases chance.recordRemoved <;>
      exact deleteAccount_same Machine.pending fun _ _ => rfl

theorem andThen_of_none {next : Machine → Machine × Option String}
    (h : stage.2 = none) : andThen stage next = next stage.1 := by
  unfold andThen
  rw [h]

theorem andThen_of_ne_none {next : Machine → Machine × Option String}
    (h : stage.2 ≠ none) : andThen stage next = stage := by
  obtain ⟨error, herror⟩ := Option.ne_none_iff_exists'.mp h
  unfold andThen
  rw [herror]

theorem andThen_same (field : Machine → β)
    {next : Machine → Machine × Option String} (h : ∀ machine, field (next machine).1 = field machine) :
    field (andThen stage next).1 = field stage.1 := by
  unfold andThen
  split
  · exact h stage.1
  · rfl

theorem andThen_eq_none {next : Machine → Machine × Option String} :
    (andThen stage next).2 = none ↔ stage.2 = none ∧ (next stage.1).2 = none := by
  unfold andThen
  cases hstage : stage.2 with
  | none => simp
  | some error => simp [hstage]

theorem privilege_same (field : Machine → β)
    (h : ∀ (machine : Machine) (sudoers : Option String), field { machine with sudoers } = field machine) :
    field (privilege chance machine wanted).1 = field machine := by
  unfold privilege
  split_ifs
  · split <;> exact h _ _
  · exact h _ _
  · exact h _ _

theorem saveLocalAdminState_same (field : Machine → β) {saved : Saved}
    (h : ∀ (machine : Machine) (record : Option LocalAdminState), field { machine with record } = field machine) :
    field (saveLocalAdminState saved machine state).1 = field machine := by
  unfold saveLocalAdminState
  split <;> exact h _ _

/-- The command that sets the password finds an account of the machine. -/
def Reaches (chance : Chance) (machine : Machine) (account : String) : Prop :=
  if (machine.accounts account).isSome then chance.asked account
  else ¬ chance.finds machine account ∧ chance.useradd.isDone

instance : Decidable (Reaches chance machine account) := by
  unfold Reaches
  infer_instance

theorem ensureAccount_other (h : other ≠ account) :
    (ensureAccount chance machine account).1.accounts other = machine.accounts other := by
  unfold ensureAccount useradd
  split_ifs <;> first | rfl | exact Function.update_of_ne h _ _

theorem ensureAccount_named :
    (ensureAccount chance machine account).1.accounts account = machine.accounts account ∨
      machine.accounts account = none ∧
        (ensureAccount chance machine account).1.accounts account = some { made := true } := by
  unfold ensureAccount useradd
  split_ifs with hfinds hthere hdid
  · exact .inl rfl
  · exact .inl rfl
  · exact .inr ⟨by simpa using hthere, Function.update_self _ _ _⟩
  · exact .inl rfl

theorem reaches_iff :
    Reaches chance machine account ↔ (ensureAccount chance machine account).2 = none ∧
      ((ensureAccount chance machine account).1.accounts account).isSome := by
  unfold Reaches ensureAccount useradd
  by_cases hthere : (machine.accounts account).isSome
  · rw [if_pos hthere, finds_of_isSome hthere]
    by_cases hasked : chance.asked account
    · simp [hasked, hthere]
    · simp only [hasked, hthere, if_true, Bool.false_eq_true, if_false]
      cases chance.useradd <;> simp [Ends.refused, Ends.isDone]
  · by_cases hfinds : chance.finds machine account
    · simp [hfinds, hthere]
    · simp only [hfinds, hthere, Bool.false_eq_true, if_false, not_false_eq_true, true_and]
      cases chance.useradd with
      | done out => simp [Ends.isDone, Ends.did]
      | failed did out error => simp [Ends.isDone]

theorem setPassword_other (h : other ≠ account) :
    (setPassword chance.chpasswd machine account password).1.accounts other = machine.accounts other := by
  unfold setPassword
  split
  · rfl
  · split_ifs
    · exact Function.update_of_ne h _ _
    · rfl

theorem setPassword_named {there : Account} (h : machine.accounts account = some there) :
    (setPassword chance.chpasswd machine account password).1.accounts account =
      some (if chance.chpasswd.did then { there with password := some password, standing := .owed } else there) := by
  unfold setPassword
  rw [h]
  by_cases hdid : chance.chpasswd.did
  · simp [hdid]
  · simp [hdid, h]

theorem setPassword_none (h : machine.accounts account = none) :
    setPassword chance.chpasswd machine account password =
      (machine, some ("setting the password: " ++ chance.chpasswd.refused.said)) := by
  unfold setPassword
  rw [h]

theorem setPassword_eq_none {there : Account} (h : machine.accounts account = some there) :
    (setPassword chance.chpasswd machine account password).2 = none ↔ chance.chpasswd.isDone := by
  unfold setPassword
  rw [h]
  cases chance.chpasswd <;> simp [Ends.isDone]

/-- The account as the steps up to its password leave it. -/
def credentialed (chance : Chance) (machine : Machine) (account password : String) : Machine × Option String :=
  andThen (ensureAccount chance machine account) fun machine =>
    setPassword chance.chpasswd machine account password

theorem setUp_accounts :
    (setUp chance machine wanted password).1.accounts =
      (credentialed chance machine wanted.account password).1.accounts := by
  unfold setUp
  rw [andThen_same Machine.accounts fun _ => saveLocalAdminState_same Machine.accounts fun _ _ => rfl]
  exact andThen_same Machine.accounts fun _ => privilege_same Machine.accounts fun _ _ => rfl

theorem credentialed_of_reaches (h : Reaches chance machine account) :
    credentialed chance machine account password =
      setPassword chance.chpasswd (ensureAccount chance machine account).1 account password := by
  exact andThen_of_none (reaches_iff.mp h).1

theorem credentialed_of_not_reaches (h : ¬ Reaches chance machine account) :
    (credentialed chance machine account password).1 = (ensureAccount chance machine account).1 ∧
      (credentialed chance machine account password).2 ≠ none := by
  unfold credentialed
  by_cases hensured : (ensureAccount chance machine account).2 = none
  · have hnone : (ensureAccount chance machine account).1.accounts account = none := by
      by_contra hthere
      exact h (reaches_iff.mpr ⟨hensured, Option.isSome_iff_ne_none.mpr hthere⟩)
    rw [andThen_of_none hensured, setPassword_none hnone]
    exact ⟨rfl, nofun⟩
  · rw [andThen_of_ne_none hensured]
    exact ⟨rfl, hensured⟩

theorem setUp_other (h : other ≠ wanted.account) :
    (setUp chance machine wanted password).1.accounts other = machine.accounts other := by
  rw [setUp_accounts]
  by_cases hreaches : Reaches chance machine wanted.account
  · rw [credentialed_of_reaches hreaches, setPassword_other h, ensureAccount_other h]
  · rw [(credentialed_of_not_reaches hreaches).1, ensureAccount_other h]

theorem setUp_set {password : String} (hreaches : Reaches chance machine wanted.account)
    (hdid : chance.chpasswd.did) :
    (setUp chance machine wanted password).1.accounts wanted.account =
      some { (machine.accounts wanted.account).getD { made := true } with
        password := some password, standing := .owed } := by
  obtain ⟨there, hthere⟩ := Option.isSome_iff_exists.mp (reaches_iff.mp hreaches).2
  have hfrom : there = (machine.accounts wanted.account).getD { made := true } := by
    rcases @ensureAccount_named chance machine wanted.account with hsame | ⟨hnone, hmade⟩
    · rw [← hsame, hthere]
      rfl
    · rw [hthere] at hmade
      rw [hnone]
      exact Option.some.inj hmade
  rw [setUp_accounts, credentialed_of_reaches hreaches, setPassword_named hthere, if_pos hdid, hfrom]

theorem setUp_unset {password : String} (h : ¬ (Reaches chance machine wanted.account ∧ chance.chpasswd.did)) :
    (setUp chance machine wanted password).1.accounts wanted.account = machine.accounts wanted.account ∨
      machine.accounts wanted.account = none ∧
        (setUp chance machine wanted password).1.accounts wanted.account = some { made := true } := by
  have hensured : (setUp chance machine wanted password).1.accounts wanted.account =
      (ensureAccount chance machine wanted.account).1.accounts wanted.account := by
    rw [setUp_accounts]
    by_cases hreaches : Reaches chance machine wanted.account
    · obtain ⟨there, hthere⟩ := Option.isSome_iff_exists.mp (reaches_iff.mp hreaches).2
      rw [credentialed_of_reaches hreaches, setPassword_named hthere, if_neg fun hdid => h ⟨hreaches, hdid⟩,
        hthere]
    · rw [(credentialed_of_not_reaches hreaches).1]
  rw [hensured]
  exact ensureAccount_named

/-- The step that writes the state file is come to. -/
def Saves (chance : Chance) (machine : Machine) (wanted : LocalAdministrator) : Prop :=
  Reaches chance machine wanted.account ∧ chance.chpasswd.isDone ∧
    (wanted.administrator → chance.sudoersWritten = none)

instance : Decidable (Saves chance machine wanted) := by
  unfold Saves
  infer_instance

theorem privilege_eq_none :
    (privilege chance machine wanted).2 = none ↔ (wanted.administrator → chance.sudoersWritten = none) := by
  unfold privilege
  cases wanted.administrator with
  | false => simp
  | true => cases chance.sudoersWritten <;> simp

theorem credentialed_eq_none :
    (credentialed chance machine account password).2 = none ↔
      Reaches chance machine account ∧ chance.chpasswd.isDone := by
  by_cases hreaches : Reaches chance machine account
  · obtain ⟨there, hthere⟩ := Option.isSome_iff_exists.mp (reaches_iff.mp hreaches).2
    rw [credentialed_of_reaches hreaches, setPassword_eq_none hthere]
    simp [hreaches]
  · simp [hreaches, (credentialed_of_not_reaches hreaches).2]

theorem credentialed_same (field : Machine → β)
    (h : ∀ (machine : Machine) (accounts : String → Option Account),
      field { machine with accounts } = field machine) :
    field (credentialed chance machine account password).1 = field machine := by
  have hensured : field (ensureAccount chance machine account).1 = field machine := by
    unfold ensureAccount useradd
    split_ifs <;> exact h _ _
  rw [← hensured]
  unfold credentialed
  refine andThen_same field fun machine => ?_
  unfold setPassword
  split
  · rfl
  · split_ifs <;> exact h _ _

/-- What the state file holds once a password has been set. -/
def savedRecord (saved : Saved) (machine : Machine) (state : LocalAdminState) : Option LocalAdminState :=
  match saved with
  | .written => some state
  | .untouched _ => machine.record
  | .spoiled _ => none

theorem setUp_record :
    (setUp chance machine wanted password).1.record =
      if Saves chance machine wanted then
        savedRecord chance.saved machine ⟨wanted.account, chance.now, password⟩
      else machine.record := by
  have hsaves : Saves chance machine wanted ↔
      (andThen (credentialed chance machine wanted.account password) fun machine =>
        privilege chance machine wanted).2 = none := by
    rw [andThen_eq_none, credentialed_eq_none, privilege_eq_none, and_assoc]
    rfl
  have hbefore : (andThen (credentialed chance machine wanted.account password) fun machine =>
      privilege chance machine wanted).1.record = machine.record := by
    rw [andThen_same Machine.record fun _ => privilege_same Machine.record fun _ _ => rfl]
    exact credentialed_same Machine.record fun _ _ => rfl
  change (andThen (andThen (credentialed chance machine wanted.account password) fun machine =>
    privilege chance machine wanted) _).1.record = _
  by_cases h : Saves chance machine wanted
  · rw [if_pos h, andThen_of_none (hsaves.mp h)]
    unfold saveLocalAdminState savedRecord
    cases chance.saved <;> first | rfl | exact hbefore
  · rw [if_neg h, andThen_of_ne_none fun hnone => h (hsaves.mpr hnone), hbefore]

theorem setUp_eq_none :
    (setUp chance machine wanted password).2 = none ↔
      Saves chance machine wanted ∧ chance.saved = .written := by
  change (andThen (andThen (credentialed chance machine wanted.account password) fun machine =>
    privilege chance machine wanted) _).2 = none ↔ _
  rw [andThen_eq_none, andThen_eq_none, credentialed_eq_none, privilege_eq_none]
  refine and_congr and_assoc ?_
  unfold saveLocalAdminState
  cases chance.saved <;> simp

/-- There is a password to set and something to set it with. -/
def Ready (chance : Chance) (wanted : LocalAdministrator) : Prop :=
  (∃ password, generatePassword (lengthOf wanted) chance.draw = .ok password) ∧ chance.runner

instance : Decidable (Ready chance wanted) :=
  match h : generatePassword (lengthOf wanted) chance.draw with
  | .ok password =>
      if hrunner : chance.runner then .isTrue ⟨⟨password, h⟩, hrunner⟩ else .isFalse fun hready => hrunner hready.2
  | .error _ => .isFalse fun hready => by
      obtain ⟨⟨password, hdrawn⟩, _⟩ := hready
      rw [h] at hdrawn
      cases hdrawn

theorem rotate_of_not_ready (h : ¬ Ready chance wanted) : (rotate chance machine wanted).1 = machine := by
  unfold rotate
  cases hdrawn : generatePassword (lengthOf wanted) chance.draw with
  | error error => rfl
  | ok password =>
      have hrunner : chance.runner = false := by
        by_contra hrunner
        exact h ⟨⟨password, hdrawn⟩, by simpa using hrunner⟩
      simp [hrunner]

theorem rotate_of_ready (hdrawn : generatePassword (lengthOf wanted) chance.draw = .ok password)
    (hrunner : chance.runner) :
    (rotate chance machine wanted).1 =
      if (setUp chance machine wanted password).2 = none then
        { (setUp chance machine wanted password).1 with
          pending := some ⟨wanted.account, password, chance.now,
            chance.now + duration (rotateDaysOf wanted)⟩ }
      else (setUp chance machine wanted password).1 := by
  unfold rotate
  rw [hdrawn]
  simp only [hrunner, Bool.not_true, Bool.false_eq_true, if_false]
  cases hended : (setUp chance machine wanted password).2 with
  | none =>
      rw [if_pos rfl, ← Prod.mk.eta (p := setUp chance machine wanted password), hended]
  | some error =>
      rw [if_neg nofun, ← Prod.mk.eta (p := setUp chance machine wanted password), hended]

theorem rotate_accounts_record :
    (rotate chance machine wanted).1.accounts = machine.accounts ∧
        (rotate chance machine wanted).1.record = machine.record ∧ ¬ Ready chance wanted ∨
      ∃ password, generatePassword (lengthOf wanted) chance.draw = .ok password ∧ chance.runner ∧
        (rotate chance machine wanted).1.accounts = (setUp chance machine wanted password).1.accounts ∧
        (rotate chance machine wanted).1.record = (setUp chance machine wanted password).1.record := by
  by_cases h : Ready chance wanted
  · obtain ⟨⟨password, hdrawn⟩, hrunner⟩ := h
    refine .inr ⟨password, hdrawn, hrunner, ?_⟩
    rw [rotate_of_ready hdrawn hrunner]
    split_ifs <;> exact ⟨rfl, rfl⟩
  · rw [rotate_of_not_ready h]
    exact .inl ⟨rfl, rfl, h⟩

def named (policy : Option LocalAdministrator) : Option String := policy.map LocalAdministrator.account

/-- The account that is remembered is not the one a policy names. -/
def TakesBack (machine : Machine) (policy : Option LocalAdministrator) : Prop :=
  machine.loadLocalAdminState.account ≠ "" ∧ named policy ≠ some "" ∧
    named policy ≠ some machine.loadLocalAdminState.account

instance {policy : Option LocalAdministrator} : Decidable (TakesBack machine policy) :=
  inferInstanceAs (Decidable (_ ∧ _))

def taken (chance : Chance) (machine : Machine) (policy : Option LocalAdministrator) : Machine :=
  if TakesBack machine policy then (removeLocalAdministrator chance machine machine.loadLocalAdminState).1
  else machine

/-- The run comes to set a password. -/
def Rotates (chance : Chance) (machine : Machine) (wanted : LocalAdministrator) : Prop :=
  wanted.account ≠ "" ∧ due chance.now wanted
    (if TakesBack machine (some wanted) then {} else machine.loadLocalAdminState)

instance : Decidable (Rotates chance machine wanted) := inferInstanceAs (Decidable (_ ∧ _))

theorem applyLocalAdministrator_none :
    (applyLocalAdministrator none chance machine).1 = taken chance machine none := by
  unfold applyLocalAdministrator taken removeLocalAdministrator
  by_cases hremembered : machine.loadLocalAdminState.account = ""
  · rw [if_pos hremembered, if_neg fun h => h.1 hremembered]
  · rw [if_neg hremembered, if_pos ⟨hremembered, nofun, nofun⟩]

theorem takeBack_eq (h : wanted.account ≠ "") :
    (takeBack chance machine wanted).1 = taken chance machine (some wanted) ∧
      (takeBack chance machine wanted).2.1 =
        if TakesBack machine (some wanted) then {} else machine.loadLocalAdminState := by
  have hiff : TakesBack machine (some wanted) ↔ machine.loadLocalAdminState.account ≠ "" ∧
      machine.loadLocalAdminState.account ≠ wanted.account := by
    unfold TakesBack named
    constructor
    · intro htakes
      exact ⟨htakes.1, fun heq => htakes.2.2 (congrArg some heq.symm)⟩
    · intro htakes
      exact ⟨htakes.1, fun heq => h (Option.some.inj heq), fun heq => htakes.2 (Option.some.inj heq).symm⟩
  unfold takeBack taken
  by_cases htakes : TakesBack machine (some wanted)
  · simp only [htakes, if_true, if_pos (hiff.mp htakes), and_self]
  · simp only [htakes, if_false, if_neg fun h => htakes (hiff.mpr h), and_self]

theorem applyLocalAdministrator_some :
    (applyLocalAdministrator (some wanted) chance machine).1 =
      if Rotates chance machine wanted then (rotate chance (taken chance machine (some wanted)) wanted).1
      else taken chance machine (some wanted) := by
  unfold applyLocalAdministrator Rotates
  by_cases hname : wanted.account = ""
  · simp [hname, taken, TakesBack, named]
  · obtain ⟨htaken, hstate⟩ := @takeBack_eq chance machine wanted hname
    simp only [hname, if_false, not_false_eq_true, true_and, ne_eq, ← hstate, ← htaken]
    split_ifs <;> rfl

/-- The account that is remembered is taken off the machine. -/
def Removes (chance : Chance) (machine : Machine) (policy : Option LocalAdministrator) : Prop :=
  TakesBack machine policy ∧ Deletes chance machine machine.loadLocalAdminState.account

instance {policy : Option LocalAdministrator} : Decidable (Removes chance machine policy) :=
  inferInstanceAs (Decidable (_ ∧ _))

theorem taken_accounts {policy : Option LocalAdministrator} (a : String) :
    (taken chance machine policy).accounts a = none ∧ Removes chance machine policy ∧
        a = machine.loadLocalAdminState.account ∨
      (taken chance machine policy).accounts a = machine.accounts a ∧
        ¬ (Removes chance machine policy ∧ a = machine.loadLocalAdminState.account) := by
  unfold taken Removes
  by_cases htakes : TakesBack machine policy
  · rw [if_pos htakes, removeLocalAdministrator_accounts htakes.1]
    by_cases hdeletes : Deletes chance machine machine.loadLocalAdminState.account
    · rw [if_pos hdeletes]
      by_cases ha : a = machine.loadLocalAdminState.account
      · subst ha
        exact .inl ⟨Function.update_self _ _ _, ⟨htakes, hdeletes⟩, rfl⟩
      · exact .inr ⟨Function.update_of_ne ha _ _, fun h => ha h.2⟩
    · rw [if_neg hdeletes]
      exact .inr ⟨rfl, fun h => hdeletes h.1.2⟩
  · rw [if_neg htakes]
    exact .inr ⟨rfl, fun h => htakes h.1.1⟩

theorem taken_named :
    (taken chance machine (some wanted)).accounts wanted.account = machine.accounts wanted.account := by
  rcases @taken_accounts chance machine (some wanted) wanted.account with ⟨_, hremoves, hold⟩ | ⟨hsame, _⟩
  · exact absurd (congrArg some hold) hremoves.1.2.2
  · exact hsame

/-- Whether an account that is there is one the agent made. -/
def Machine.made (machine : Machine) (a : String) : Option Bool := (machine.accounts a).map Account.made

theorem rotate_made_other (h : other ≠ wanted.account) :
    (rotate chance machine wanted).1.made other = machine.made other := by
  unfold Machine.made
  rcases @rotate_accounts_record chance machine wanted with ⟨hsame, _⟩ | ⟨password, _, _, hset, _⟩
  · rw [hsame]
  · rw [hset, setUp_other h]

theorem rotate_made_named :
    (rotate chance machine wanted).1.made wanted.account = machine.made wanted.account ∨
      machine.made wanted.account = none ∧
        (rotate chance machine wanted).1.made wanted.account = some true := by
  unfold Machine.made
  rcases @rotate_accounts_record chance machine wanted with ⟨hsame, _⟩ | ⟨password, _, _, hset, _⟩
  · exact .inl (by rw [hsame])
  · rw [hset]
    by_cases hreaches : Reaches chance machine wanted.account ∧ chance.chpasswd.did
    · rw [setUp_set hreaches.1 hreaches.2]
      cases machine.accounts wanted.account with
      | some earlier => exact .inl rfl
      | none => exact .inr ⟨rfl, rfl⟩
    · rcases @setUp_unset chance machine wanted password hreaches with hsame | ⟨hnone, hmade⟩
      · exact .inl (by rw [hsame])
      · exact .inr ⟨by rw [hnone]; rfl, by rw [hmade]; rfl⟩

variable {policy : Option LocalAdministrator}

theorem taken_made (a : String) :
    (taken chance machine policy).made a =
      if Removes chance machine policy ∧ a = machine.loadLocalAdminState.account then none
      else machine.made a := by
  unfold Machine.made
  rcases @taken_accounts chance machine policy a with ⟨hnone, hremoves⟩ | ⟨hsame, hstays⟩
  · rw [hnone, if_pos hremoves]
    rfl
  · rw [hsame, if_neg hstays]

theorem apply_made_other {a : String} (h : named policy ≠ some a) :
    (applyLocalAdministrator policy chance machine).1.made a =
      if Removes chance machine policy ∧ a = machine.loadLocalAdminState.account then none
      else machine.made a := by
  rw [← taken_made]
  cases policy with
  | none => rw [applyLocalAdministrator_none]
  | some wanted =>
      rw [applyLocalAdministrator_some]
      split_ifs
      · exact rotate_made_other fun heq => h (congrArg some heq.symm)
      · rfl

variable {a : String}

theorem apply_made_named (h : named policy = some a) :
    (applyLocalAdministrator policy chance machine).1.made a = machine.made a ∨
      machine.made a = none ∧ (applyLocalAdministrator policy chance machine).1.made a = some true := by
  cases policy with
  | none => cases h
  | some wanted =>
      obtain rfl : wanted.account = a := Option.some.inj h
      have htaken : (taken chance machine (some wanted)).made wanted.account = machine.made wanted.account := by
        unfold Machine.made
        rw [taken_named]
      rw [applyLocalAdministrator_some, ← htaken]
      split_ifs
      · exact rotate_made_named
      · exact .inl rfl

theorem taken_record :
    (taken chance machine policy).record =
      if TakesBack machine policy ∧ chance.recordRemoved = none then none else machine.record := by
  unfold taken
  by_cases htakes : TakesBack machine policy
  · rw [if_pos htakes, removeLocalAdministrator_record htakes.1]
    exact if_congr (and_iff_right htakes).symm rfl rfl
  · rw [if_neg htakes, if_neg fun h => htakes h.1]

theorem saves_taken : Saves chance (taken chance machine (some wanted)) wanted ↔ Saves chance machine wanted := by
  unfold Saves Reaches Chance.finds
  rw [taken_named]

/-- The account the state file names. -/
def Recorded (machine : Machine) (a : String) : Prop := a ≠ "" ∧ machine.loadLocalAdminState.account = a

/-- The state file is neither removed nor written over. -/
def StaysRecorded (chance : Chance) (machine : Machine) (policy : Option LocalAdministrator) : Prop :=
  (TakesBack machine policy → chance.recordRemoved ≠ none) ∧
    ∀ wanted ∈ policy, Rotates chance machine wanted → Ready chance wanted → Saves chance machine wanted →
      ∃ error, chance.saved = .untouched error

theorem taken_recorded :
    Recorded (taken chance machine policy) a ↔
      Recorded machine a ∧ (TakesBack machine policy → chance.recordRemoved ≠ none) := by
  unfold Recorded Machine.loadLocalAdminState
  rw [taken_record]
  by_cases hforgets : TakesBack machine policy ∧ chance.recordRemoved = none
  · rw [if_pos hforgets]
    constructor
    · exact fun h => absurd h.2.symm h.1
    · exact fun h => absurd hforgets.2 (h.2 hforgets.1)
  · rw [if_neg hforgets]
    exact (and_iff_left fun htakes hnone => hforgets ⟨htakes, hnone⟩).symm

theorem rotate_recorded_other (h : a ≠ wanted.account) :
    Recorded (rotate chance machine wanted).1 a ↔
      Recorded machine a ∧ (Ready chance wanted → Saves chance machine wanted →
        ∃ error, chance.saved = .untouched error) := by
  rcases @rotate_accounts_record chance machine wanted with ⟨_, hrecord, hready⟩ | ⟨password, hdrawn, hrunner, _, hrecord⟩
  · unfold Recorded Machine.loadLocalAdminState
    rw [hrecord]
    exact (and_iff_left fun hready' => absurd hready' hready).symm
  · have hready : Ready chance wanted := ⟨⟨password, hdrawn⟩, hrunner⟩
    rw [setUp_record] at hrecord
    unfold Recorded Machine.loadLocalAdminState
    rw [hrecord]
    by_cases hsaves : Saves chance machine wanted
    · rw [if_pos hsaves]
      cases hsaved : chance.saved with
      | written =>
          refine iff_of_false (fun hrecorded => h hrecorded.2.symm) fun hrecorded => ?_
          obtain ⟨_, huntouched⟩ := hrecorded.2 hready hsaves
          cases huntouched
      | spoiled error =>
          refine iff_of_false (fun hrecorded => hrecorded.1 hrecorded.2.symm) fun hrecorded => ?_
          obtain ⟨_, huntouched⟩ := hrecorded.2 hready hsaves
          cases huntouched
      | untouched error =>
          exact (and_iff_left fun _ _ => ⟨error, rfl⟩).symm
    · rw [if_neg hsaves]
      exact (and_iff_left fun _ hsaves' => absurd hsaves' hsaves).symm

theorem apply_recorded (h : named policy ≠ some a) :
    Recorded (applyLocalAdministrator policy chance machine).1 a ↔
      Recorded machine a ∧ StaysRecorded chance machine policy := by
  unfold StaysRecorded
  rw [← and_assoc, ← taken_recorded]
  cases policy with
  | none =>
      rw [applyLocalAdministrator_none]
      exact (and_iff_left fun _ hnone => by cases hnone).symm
  | some wanted =>
      rw [applyLocalAdministrator_some]
      have hall : (∀ other ∈ some wanted, Rotates chance machine other → Ready chance other →
          Saves chance machine other → ∃ error, chance.saved = .untouched error) ↔
          (Rotates chance machine wanted → Ready chance wanted → Saves chance machine wanted →
            ∃ error, chance.saved = .untouched error) := by
        simp
      rw [hall]
      split_ifs with hrotates
      · rw [rotate_recorded_other fun heq => h (congrArg some heq.symm), saves_taken]
        exact and_congr_right fun _ => ⟨fun hstays _ => hstays, fun hstays => hstays hrotates⟩
      · exact (and_iff_left fun hrotates' => absurd hrotates' hrotates).symm

structure World where
  machine : Machine
  /-- The account the policy names. -/
  managed : Option String

abbrev Run := Option LocalAdministrator × Chance

namespace World

def next (world : World) (run : Run) : World where
  machine := (applyLocalAdministrator run.1 run.2 world.machine).1
  managed := named run.1

/-- A machine with accounts of its own that no policy has come to. -/
def initial (passwords : String → Option (Option String)) : World where
  machine := { accounts := fun a => (passwords a).map fun password => { password, made := false } }
  managed := none

/-- No account that was there is gone, and one the agent made is the one the policy names or is still in
the state file. -/
structure OnlyMade (passwords : String → Option (Option String)) (world : World) : Prop where
  there : ∀ a, (passwords a).isSome → (world.machine.accounts a).isSome
  made : ∀ a, world.machine.made a = some true → world.managed = some a ∨ Recorded world.machine a

/-- An account that is taken off is one the agent made, and each that the agent made is the one the policy
names, or it is in the state file and either goes or stays in it. -/
structure Careful (world : World) (run : Run) : Prop where
  removed : Removes run.2 world.machine run.1 →
    world.machine.made world.machine.loadLocalAdminState.account = some true
  made : ∀ a, world.machine.made a = some true → named run.1 = some a ∨
    Recorded world.machine a ∧ (Removes run.2 world.machine run.1 ∨ StaysRecorded run.2 world.machine run.1)

/-- The accounts that were there are those the agent did not make. -/
def Apart (passwords : String → Option (Option String)) (world : World) : Prop :=
  ∀ a, (passwords a).isSome ↔ world.machine.made a = some false

variable {passwords : String → Option (Option String)} {world : World} {run : Run}

theorem isSome_made {a : String} : (world.machine.made a).isSome ↔ (world.machine.accounts a).isSome := by
  simp [Machine.made]

theorem next_made (h : Apart passwords world) (hcareful : Careful world run) {a : String}
    (hthere : (passwords a).isSome) : (world.next run).machine.made a = some false := by
  have hmade := (h a).mp hthere
  by_cases hnamed : named run.1 = some a
  · rcases apply_made_named hnamed with hsame | ⟨hnone, _⟩
    · exact hsame.trans hmade
    · rw [hmade] at hnone
      cases hnone
  · refine (apply_made_other hnamed).trans ?_
    rw [if_neg, hmade]
    rintro ⟨hremoves, rfl⟩
    rw [hcareful.removed hremoves] at hmade
    cases hmade

theorem careful_of_onlyMade (h : Apart passwords world) (hgood : OnlyMade passwords (world.next run)) :
    Careful world run where
  removed hremoves := by
    cases hmade : world.machine.made world.machine.loadLocalAdminState.account with
    | none =>
        have hthere := isSome_made.mpr hremoves.2.2.2.1
        rw [hmade] at hthere
        cases hthere
    | some made =>
        cases made with
        | true => rfl
        | false =>
            have hlater := isSome_made.mpr (hgood.there _ ((h _).mpr hmade))
            have hgone := @apply_made_other run.2 world.machine run.1 _ hremoves.1.2.2
            rw [if_pos ⟨hremoves, rfl⟩] at hgone
            rw [World.next, hgone] at hlater
            cases hlater
  made a hmade := by
    by_cases hnamed : named run.1 = some a
    · exact .inl hnamed
    · by_cases hremoved : Removes run.2 world.machine run.1 ∧ a = world.machine.loadLocalAdminState.account
      · exact .inr ⟨⟨hremoved.2 ▸ hremoved.1.1.1, hremoved.2.symm⟩, .inl hremoved.1⟩
      · have hlater : (world.next run).machine.made a = some true := by
          refine (apply_made_other hnamed).trans ?_
          rw [if_neg hremoved, hmade]
        have hrecorded := (hgood.made a hlater).resolve_left hnamed
        obtain ⟨hbefore, hstays⟩ := (apply_recorded hnamed).mp hrecorded
        exact .inr ⟨hbefore, .inr hstays⟩

theorem onlyMade_of_careful (h : Apart passwords world) (hcareful : Careful world run) :
    OnlyMade passwords (world.next run) where
  there a hthere := by
    rw [← isSome_made, next_made h hcareful hthere]
    rfl
  made a hmade := by
    by_cases hnamed : named run.1 = some a
    · exact .inl hnamed
    · have hbefore := (apply_made_other hnamed).symm.trans hmade
      split_ifs at hbefore with hremoved
      obtain ⟨hrecorded, hremoves | hstays⟩ := (hcareful.made a hbefore).resolve_left hnamed
      · exact absurd ⟨hremoves, hrecorded.2.symm⟩ hremoved
      · exact .inr ((apply_recorded hnamed).mpr ⟨hrecorded, hstays⟩)

theorem apart_next (h : Apart passwords world) (hcareful : Careful world run) :
    Apart passwords (world.next run) := by
  intro a
  refine ⟨next_made h hcareful, fun hmade => (h a).mpr ?_⟩
  by_cases hnamed : named run.1 = some a
  · rcases apply_made_named hnamed with hsame | ⟨_, htrue⟩
    · exact hsame.symm.trans hmade
    · rw [World.next, htrue] at hmade
      cases hmade
  · have hbefore := (apply_made_other hnamed).symm.trans hmade
    split_ifs at hbefore with hremoved
    exact hbefore

theorem apart_initial : Apart passwords (initial passwords) := by
  intro a
  cases h : passwords a <;> simp [initial, Machine.made, h]

theorem onlyMade_initial : OnlyMade passwords (initial passwords) where
  there a hthere := by
    rw [initial]
    simpa using hthere
  made a hmade := by
    have hfalse : (initial passwords).machine.made a ≠ some true := by
      cases h : passwords a <;> simp [initial, Machine.made, h]
    exact absurd hmade hfalse

/-- Whatever policies come, and wherever the commands of each run fail. -/
theorem onlyMade_iff (passwords : String → Option (Option String)) (runs : List Run) :
    (∀ before, before <+: runs → OnlyMade passwords (before.foldl next (initial passwords))) ↔
      Steps.Each next Careful (initial passwords) runs := by
  rw [Steps.each_reached, and_iff_right onlyMade_initial]
  have hkeeps : ∀ (world : World) (run : Run), Apart passwords world → OnlyMade passwords (world.next run) →
      Apart passwords (world.next run) :=
    fun world run hapart hgood => apart_next hapart (careful_of_onlyMade hapart hgood)
  have hstep : ∀ (world : World) (run : Run), Apart passwords world →
      (OnlyMade passwords (world.next run) ↔ Careful world run) :=
    fun world run hapart => ⟨careful_of_onlyMade hapart, onlyMade_of_careful hapart⟩
  exact Steps.each_iff hkeeps hstep apart_initial runs

def anna : LocalAdministrator := { account := "anna" }

def ordinary : Chance := { now := 0, draw := fun _ => .ok ⟨0, by decide⟩ }

/-- Busy when it should be deleted. -/
def userdelFails : Chance := { ordinary with userdel := .failed false "" "exit status 8" }

/-- A policy names somebody's own account and is taken away again; and an account that was made is not
deleted, and the state file goes all the same. -/
theorem anna_deleted :
    ¬ (∀ before, before <+: [(some anna, ordinary), (none, ordinary)] →
        OnlyMade (fun a => if a = "anna" then some (some "secret") else none)
          (before.foldl next (initial fun a => if a = "anna" then some (some "secret") else none))) ∧
      ¬ (∀ before, before <+: [(some anna, ordinary), (none, userdelFails)] →
        OnlyMade (fun _ => none) (before.foldl next (initial fun _ => none))) := by
  refine ⟨fun h => ?_, fun h => ?_⟩
  · have hthere := (h _ (List.prefix_refl _)).there "anna" (by decide)
    exact absurd hthere (by decide +kernel)
  · rcases (h _ (List.prefix_refl _)).made "anna" (by decide +kernel) with hmanaged | hrecorded
    · exact absurd hmanaged (by decide +kernel)
    · exact absurd hrecorded.2 (by decide +kernel)

end World

end OpenDirectory.LocalAdmin
