import OpenDirectory.Lines
import OpenDirectory.LocalAdmin

/-! The sudo rights of the local administrator, run after run and with somebody's own edits of the file in
between. A run writes or removes the file when it sets a password or takes an account off, and at no other
time: a change of what a policy grants waits for the password, and so does the repair of what was edited. -/

namespace OpenDirectory.LocalGrants

open LocalAdmin
open Agent (header)

def lower (c : Char) : Bool := 'a' ≤ c && c ≤ 'z'

/-- `[a-z_][a-z0-9_-]*`, of one to 32 characters. -/
def validAccount (value : String) : Bool :=
  match value.toList with
  | [] => false
  | first :: rest => (lower first || first = '_') && rest.all (fun c => lower c || c.isDigit || c = '_' || c = '-') &&
      rest.length < 32

/-- What a policy may say. -/
abbrev Accepted := {wanted : LocalAdministrator // validAccount wanted.account}

def said (policy : Option Accepted) : Option LocalAdministrator := policy.map Subtype.val

/-- The line that grants an account everything. -/
def grant (account : String) : String := account ++ " ALL=(ALL:ALL) ALL"

/-- How sudo reads a file: to whom it grants everything. The one line the agent writes grants it to the
account it names and to nobody else. -/
structure Sudo where
  grants : String → String → Prop
  written : ∀ {account other : String}, validAccount account → validAccount other →
    (grants (header ++ account ++ " ALL=(ALL:ALL) ALL\n") other ↔ other = account)

inductive Event where
  | edit (sudoers : Option String)
  | run (policy : Option Accepted) (chance : Chance)

structure World where
  machine : Machine
  /-- The accounts that policies have named. -/
  earlier : List String := []

namespace World

def next (world : World) : Event → World
  | .edit sudoers => { world with machine := { world.machine with sudoers } }
  | .run policy chance =>
      { machine := (applyLocalAdministrator (said policy) chance world.machine).1
        earlier := world.earlier ++ (named (said policy)).toList }

end World

def Grants (reading : Sudo) (machine : Machine) (account : String) : Prop :=
  ∃ text ∈ machine.sudoers, reading.grants text account

/-- The rights are those of the policy. -/
structure Right (reading : Sudo) (earlier : List String) (policy : Option Accepted) (machine : Machine) : Prop where
  managed : ∀ wanted ∈ policy, Grants reading machine wanted.1.account ↔ wanted.1.administrator
  earlier : ∀ account ∈ earlier, validAccount account → named (said policy) ≠ some account →
    ¬ Grants reading machine account

/-- The run removes the file because the policy grants nothing. -/
def Drops (machine : Machine) (policy : Option Accepted) (chance : Chance) : Prop :=
  ∃ wanted ∈ policy, Rotates chance machine wanted.1 ∧ wanted.1.administrator = false

/-- No step of the run failed, the one included whose failure nothing is said of. -/
def Succeeds (machine : Machine) (policy : Option Accepted) (chance : Chance) : Prop :=
  (∀ result ∈ (applyLocalAdministrator (said policy) chance machine).2, result.status ≠ .failed) ∧
    (Drops machine policy chance → chance.sudoersDropped)

/-- After a run all of whose steps succeeded. -/
def Follows (reading : Sudo) (world : World) : Event → Prop
  | .edit _ => True
  | .run policy chance => Succeeds world.machine policy chance →
      Right reading world.earlier policy (world.next (.run policy chance)).machine

/-- The run comes to write or remove the file. -/
def Reconciles (machine : Machine) (policy : Option Accepted) (chance : Chance) : Prop :=
  match policy with
  | none => machine.loadLocalAdminState.account ≠ ""
  | some wanted => Rotates chance machine wanted.1

/-- The password is due, or an account is taken off, or the file says what it should as it is. -/
def Timely (reading : Sudo) (world : World) : Event → Prop
  | .edit _ => True
  | .run policy chance => Succeeds world.machine policy chance →
      Reconciles world.machine policy chance ∨ Right reading world.earlier policy world.machine

section
variable {chance : Chance} {machine : Machine} {wanted : LocalAdministrator}

theorem removeLocalAdministrator_sudoers {state : LocalAdminState} (h : state.account ≠ "") :
    (removeLocalAdministrator chance machine state).1.sudoers =
      if chance.sudoersRemoved = none then none else machine.sudoers := by
  unfold removeLocalAdministrator
  rw [if_neg h]
  cases chance.sudoersRemoved <;> cases chance.recordRemoved <;>
    simp [deleteAccount_same Machine.sudoers fun _ _ => rfl]

theorem sudoersRemoved_of_success {state : LocalAdminState} (h : state.account ≠ "")
    (hsuccess : ∀ result ∈ (removeLocalAdministrator chance machine state).2, result.status ≠ .failed) :
    chance.sudoersRemoved = none := by
  by_contra hremoved
  obtain ⟨error, herror⟩ := Option.ne_none_iff_exists'.mp hremoved
  refine hsuccess (result .failed error) ?_ rfl
  unfold removeLocalAdministrator
  rw [if_neg h, herror]
  simp

/-- What the step that grants or revokes leaves in the file. -/
def granted (wanted : LocalAdministrator) : Option String :=
  if wanted.administrator then some (header ++ wanted.account ++ " ALL=(ALL:ALL) ALL\n") else none

theorem privilege_sudoers (h : (privilege chance machine wanted).2 = none)
    (hdropped : wanted.administrator = false → chance.sudoersDropped) :
    (privilege chance machine wanted).1.sudoers = granted wanted := by
  unfold privilege granted at *
  cases hadministrator : wanted.administrator with
  | true =>
      rw [hadministrator] at h
      cases hwritten : chance.sudoersWritten with
      | none => rfl
      | some error =>
          rw [hwritten] at h
          cases h
  | false => simp [hdropped hadministrator]

theorem setUp_sudoers {password : String} (h : (setUp chance machine wanted password).2 = none)
    (hdropped : wanted.administrator = false → chance.sudoersDropped) :
    (setUp chance machine wanted password).1.sudoers = granted wanted := by
  unfold setUp at *
  have hprivileged := (andThen_eq_none.mp h).1
  rw [andThen_of_none hprivileged, saveLocalAdminState_same Machine.sudoers fun _ _ => rfl]
  have hcredentialed := andThen_eq_none.mp hprivileged
  rw [andThen_of_none hcredentialed.1]
  exact privilege_sudoers hcredentialed.2 hdropped

theorem rotate_sudoers (h : ∀ result ∈ (rotate chance machine wanted).2, result.status ≠ .failed)
    (hdropped : wanted.administrator = false → chance.sudoersDropped) :
    (rotate chance machine wanted).1.sudoers = granted wanted := by
  unfold rotate at *
  cases hdrawn : generatePassword (lengthOf wanted) chance.draw with
  | error error =>
      rw [hdrawn] at h
      exact absurd rfl (h (result .failed error) List.mem_cons_self)
  | ok password =>
      rw [hdrawn] at h
      cases hrunner : chance.runner with
      | false =>
          rw [hrunner] at h
          exact absurd rfl (h (result .failed "no command runner") List.mem_cons_self)
      | true =>
          rw [hrunner] at h
          have hsudoers := @setUp_sudoers chance machine wanted password
          simp only [Bool.not_true, Bool.false_eq_true, if_false] at h ⊢
          rcases hset : setUp chance machine wanted password with ⟨after, ended⟩
          rw [hset] at h hsudoers
          cases ended with
          | some error => exact absurd rfl (h (result .failed error) List.mem_cons_self)
          | none => exact hsudoers rfl hdropped

theorem failed_of_run {policy : Option LocalAdministrator}
    (h : ∀ result ∈ (applyLocalAdministrator policy chance machine).2, result.status ≠ .failed) :
    (TakesBack machine policy → chance.sudoersRemoved = none) ∧
      ∀ wanted ∈ policy, wanted.account ≠ "" ∧ (Rotates chance machine wanted →
        ∀ result ∈ (rotate chance (taken chance machine (some wanted)) wanted).2, result.status ≠ .failed) := by
  cases policy with
  | none =>
      refine ⟨fun htakes => sudoersRemoved_of_success htakes.1 h, fun wanted hwanted => ?_⟩
      cases hwanted
  | some wanted =>
      have hname : wanted.account ≠ "" := by
        intro hname
        simp only [applyLocalAdministrator, if_pos hname] at h
        exact h (result .failed "no account name") List.mem_cons_self rfl
      obtain ⟨htaken, hstate⟩ := @takeBack_eq chance machine wanted hname
      simp only [applyLocalAdministrator, if_neg hname, hstate, htaken] at h
      constructor
      · intro htakes
        have hresults : (takeBack chance machine wanted).2.2 =
            (removeLocalAdministrator chance machine machine.loadLocalAdminState).2 := by
          unfold takeBack
          rw [if_pos ⟨htakes.1, fun heq => htakes.2.2 (congrArg some heq.symm)⟩]
        rw [hresults] at h
        refine @sudoersRemoved_of_success chance machine _ htakes.1 fun result hresult => h result ?_
        split_ifs <;> exact List.mem_append_left _ hresult
      · rintro _ ⟨⟩
        refine ⟨hname, fun hrotates result hresult => h result ?_⟩
        rw [if_pos hrotates.2]
        exact List.mem_append_right _ hresult

theorem takesBack_none : TakesBack machine none ↔ machine.loadLocalAdminState.account ≠ "" :=
  ⟨fun h => h.1, fun h => ⟨h, nofun, nofun⟩⟩

theorem rotates_of_takesBack (hname : wanted.account ≠ "") (h : TakesBack machine (some wanted)) :
    Rotates chance machine wanted := by
  unfold Rotates
  rw [if_pos h]
  refine ⟨hname, ?_⟩
  simp [due, hname.symm]

end

section
variable {reading : Sudo} {world : World} {machine machine' : Machine} {earlier : List String} {chance : Chance}
  {policy : Option Accepted} {wanted : Accepted}

theorem run_sudoers (h : Succeeds machine policy chance) (hreconciles : Reconciles machine policy chance) :
    (applyLocalAdministrator (said policy) chance machine).1.sudoers = (said policy).bind granted := by
  obtain ⟨hremoved, hrotated⟩ := failed_of_run h.1
  cases policy with
  | none =>
      have htakes : TakesBack machine none := takesBack_none.mpr hreconciles
      unfold said at *
      rw [Option.map_none] at *
      rw [applyLocalAdministrator_none, taken, if_pos htakes, removeLocalAdministrator_sudoers htakes.1,
        if_pos (hremoved htakes)]
      rfl
  | some wanted =>
      unfold said at *
      rw [Option.map_some] at *
      have hrotates : Rotates chance machine wanted.1 := hreconciles
      rw [applyLocalAdministrator_some, if_pos hrotates]
      refine rotate_sudoers ((hrotated wanted.1 rfl).2 hreconciles) fun hadministrator => ?_
      exact h.2 ⟨wanted, rfl, hreconciles, hadministrator⟩

theorem run_unchanged (h : Succeeds machine policy chance) (hreconciles : ¬ Reconciles machine policy chance) :
    (applyLocalAdministrator (said policy) chance machine).1 = machine := by
  obtain ⟨-, hrotated⟩ := failed_of_run h.1
  cases policy with
  | none =>
      unfold said
      rw [Option.map_none, applyLocalAdministrator_none, taken, if_neg]
      exact fun htakes => hreconciles (takesBack_none.mp htakes)
  | some wanted =>
      unfold said at *
      rw [Option.map_some] at *
      have hrotates : ¬ Rotates chance machine wanted.1 := hreconciles
      rw [applyLocalAdministrator_some, if_neg hrotates, taken, if_neg]
      exact fun htakes => hrotates (rotates_of_takesBack (hrotated wanted.1 rfl).1 htakes)

theorem grants_granted {account : String} (h : machine.sudoers = granted wanted.1) (haccount : validAccount account) :
    Grants reading machine account ↔ account = wanted.1.account ∧ wanted.1.administrator := by
  unfold Grants granted at *
  rw [h]
  cases hadministrator : wanted.1.administrator with
  | false => simp
  | true => simpa using reading.written wanted.2 haccount

theorem right_of_sudoers (h : machine.sudoers = (said policy).bind granted) : Right reading earlier policy machine := by
  cases policy with
  | none =>
      have hnone : machine.sudoers = none := h
      refine ⟨nofun, fun account _ _ _ hgrants => ?_⟩
      obtain ⟨text, htext, -⟩ := hgrants
      rw [hnone] at htext
      cases htext
  | some wanted =>
      constructor
      · rintro _ ⟨⟩
        rw [grants_granted h wanted.2]
        simp
      · intro account _ haccount hother hgrants
        have hsame := (grants_granted h haccount).mp hgrants
        exact hother (congrArg some hsame.1.symm)

theorem follows_iff_timely (world : World) (event : Event) :
    Follows reading world event ↔ Timely reading world event := by
  cases event with
  | edit sudoers => exact Iff.rfl
  | run policy chance =>
      refine imp_congr_right fun hsucceeds => ?_
      by_cases hreconciles : Reconciles world.machine policy chance
      · exact iff_of_true (right_of_sudoers (run_sudoers hsucceeds hreconciles)) (.inl hreconciles)
      · rw [World.next, run_unchanged hsucceeds hreconciles]
        exact (or_iff_right hreconciles).symm

/-- After every run the rights are those of the policy exactly when each run comes to the file or finds it
right. -/
theorem rights_follow_iff (reading : Sudo) (machine : Machine) (events : List Event) :
    Steps.Each World.next (Follows reading) { machine } events ↔
      Steps.Each World.next (Timely reading) { machine } events :=
  @Steps.each_iff World Event (fun _ => True) _ _ _ (fun _ _ _ _ => trivial)
    (fun world event _ => follows_iff_timely world event) _ trivial events

end

variable {account : String}

theorem letters (h : validAccount account) :
    ∃ first rest, account.toList = first :: rest ∧ (lower first ∨ first = '_') ∧
      ∀ c ∈ rest, lower c || c.isDigit || c = '_' || c = '-' := by
  unfold validAccount at h
  cases haccount : account.toList with
  | nil =>
      rw [haccount] at h
      cases h
  | cons first rest =>
      rw [haccount] at h
      simp only [Bool.and_eq_true, List.all_eq_true, Bool.or_eq_true, decide_eq_true_eq] at h
      exact ⟨first, rest, rfl, h.1.1, fun c hc => by simpa using h.1.2 c hc⟩

theorem newline_not_mem (h : validAccount account) : '\n' ∉ account.toList := by
  obtain ⟨first, rest, haccount, hfirst, hrest⟩ := letters h
  rw [haccount]
  intro hmem
  rcases List.mem_cons.mp hmem with rfl | hmem
  · exact absurd hfirst (by decide)
  · exact absurd (hrest _ hmem) (by decide)

theorem split_written (h : validAccount account) :
    Text.split '\n' (header ++ account ++ " ALL=(ALL:ALL) ALL\n") =
      ["# Managed by Open Directory Manager. Local edits are overwritten.", grant account, ""] := by
  have hlines : header ++ account ++ " ALL=(ALL:ALL) ALL\n" =
      "# Managed by Open Directory Manager. Local edits are overwritten." ++ "\n" ++ (grant account ++ "\n" ++ "") := by
    unfold header grant
    apply String.toList_inj.mp
    simp
  have hgrant : '\n' ∉ (grant account).toList := by
    unfold grant
    rw [String.toList_append, List.mem_append]
    exact fun hmem => hmem.elim (newline_not_mem h) (by decide)
  rw [hlines, Text.split_append, Text.split_append, Text.split_eq_self (by decide), Text.split_eq_self hgrant,
    Text.split_eq_self (by decide)]
  rfl

/-- A file read line by line, without anything but such grants. -/
def lineByLine : Sudo where
  grants text account := grant account ∈ Text.split '\n' text
  written {account other} haccount hother := by
    rw [split_written haccount, List.mem_cons, List.mem_cons, List.mem_singleton]
    constructor
    · rintro (hheading | hgrant | hempty)
      · obtain ⟨first, rest, hname, hfirst, -⟩ := letters hother
        have hhead := congrArg (fun s => s.toList.head?) hheading
        simp only [grant, String.toList_append, hname] at hhead
        cases hhead
        exact absurd hfirst (by decide)
      · unfold grant at hgrant
        exact String.append_left_inj _ |>.mp hgrant
      · exact absurd (congrArg String.length hempty) (by simp [grant])
    · rintro rfl
      exact .inr (.inl rfl)

def odmadmin (administrator : Bool) : Accepted :=
  ⟨{ account := "odmadmin", administrator }, (by decide : validAccount "odmadmin" = true)⟩

/-- The rights are taken back a minute after the account was made, and the account keeps them. -/
theorem right_stays :
    ¬ ∀ (reading : Sudo) (machine : Machine) (events : List Event),
      Steps.Each World.next (Follows reading) { machine } events := by
  intro h
  have hruns := h lineByLine { accounts := fun _ => none }
    [.run (some (odmadmin true)) LocalAdmin.World.ordinary,
      .run (some (odmadmin false)) { LocalAdmin.World.ordinary with now := 60 * 10 ^ 9 }]
  have hright := hruns.2.1 ⟨by decide +kernel, fun _ => rfl⟩
  have hgrants := (hright.managed (odmadmin false) rfl).mp
    ⟨header ++ (odmadmin false).1.account ++ " ALL=(ALL:ALL) ALL\n", by decide +kernel,
      (lineByLine.written (odmadmin false).2 (odmadmin false).2).mpr rfl⟩
  cases hgrants

end OpenDirectory.LocalGrants
