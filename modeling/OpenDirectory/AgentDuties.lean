import OpenDirectory.AgentPass
import OpenDirectory.LocalAdmin
import OpenDirectory.Naming

/-! What falls due with time: the password of the local administrator, and the certificates the policy has
the machine enrol for. A pass sees to both, after it has applied everything else; a pass that finds the
policy unchanged does neither. -/

namespace OpenDirectory.Duties

open Agent (Applied Document lastSerial unchanged saveSerial)
open LocalAdmin (LocalAdministrator Result Status duration since rotateDaysOf)

inductive Profile where
  | server
  | client
  deriving DecidableEq

def Profile.text : Profile → String
  | server => "server"
  | client => "client"

structure CertificateEnrolment where
  profile : Profile := .server
  path : String := "/etc/ssl/odm"
  validityDays : Int := 365
  renewBeforeDays : Int := 30
  /-- The console takes no longer renewal period than a year. -/
  bounded : renewBeforeDays ≤ 365

structure Certificate where
  serial : Nat
  /-- In nanoseconds. -/
  notAfter : Int

structure Request where
  profile : Profile
  validityDays : Int
  currentSerial : String

structure Response where
  unchanged : Bool := false
  serial : String := ""
  subject : String := ""
  certificatePem : String := ""
  privateKeyPem : String := ""
  caPem : String := ""

/-- What one certificate meets: the clock, the console's answer, and what goes wrong on the disk. -/
structure Issue where
  now : Int
  answer : Except String Response
  madeDirectory : Option String := none
  wroteKey : Option String := none
  wroteCertificate : Option String := none
  wroteCa : Option String := none

/-- By the names from the root on. -/
abbrev Files := List String → Option String

/-- A path without what `filepath.Join` takes out of it, where nothing leads upwards. -/
def components (path : String) : List String :=
  (Text.split '/' path).filter fun part => part ≠ "" && part ≠ "."

def validPath (path : String) : Bool := Text.startsWith path "/" && !Text.holds path ".."

namespace CertificateEnrolment

variable (wanted : CertificateEnrolment)

def certPath : List String := components wanted.path ++ [wanted.profile.text ++ ".crt"]

def keyPath : List String := components wanted.path ++ [wanted.profile.text ++ ".key"]

def caPath : List String := components wanted.path ++ ["ca.crt"]

def setting : String := "certificate:" ++ wanted.profile.text

def renewAfter : Int := if wanted.renewBeforeDays ≤ 0 then 30 else wanted.renewBeforeDays

def validity : Int := if wanted.validityDays ≤ 0 then 365 else wanted.validityDays

end CertificateEnrolment

/-- `%X` -/
def hexadecimal (n : Nat) : String := String.ofList ((Nat.toDigits 16 n).map Char.toUpper)

def dueForRenewal (certificate : Certificate) (beforeDays now : Int) : Bool :=
  if now > certificate.notAfter then true
  else since certificate.notAfter now ≤ duration beforeDays

/-- The day of a moment, as year, month and day. -/
def dateOnly (moment : Int) : String :=
  let day := moment / (24 * (3600 * 10 ^ 9)) + 719468
  let era := day / 146097
  let ofEra := (day % 146097).toNat
  let yearOfEra : Nat := (ofEra - ofEra / 1460 + ofEra / 36524 - ofEra / 146096) / 365
  let ofYear : Nat := ofEra - (365 * yearOfEra + yearOfEra / 4 - yearOfEra / 100)
  let shifted := (5 * ofYear + 2) / 153
  let month := if shifted < 10 then shifted + 3 else shifted - 9
  let year := (yearOfEra : Int) + era * 400 + if month ≤ 2 then 1 else 0
  String.ofList (Naming.zfill 4 year.toNat ++ '-' :: (Naming.zfill 2 month ++ '-' ::
    Naming.zfill 2 (ofYear - (153 * shifted + 2) / 5 + 1)))

/-- One file after another, until one cannot be written. -/
def writeAll (setting : String) : List (List String × String × Option String) → Files → Files × Option Result
  | [], files => (files, none)
  | (_, _, some error) :: _, files => (files, some ⟨setting, .failed, error⟩)
  | (path, content, none) :: rest, files =>
      writeAll setting rest (Function.update files path (some content))

variable (parse : String → Option Certificate)

/-- The certificate at a place, if there is one that can be read. -/
def existing (files : Files) (path : List String) : Option Certificate := (files path).bind parse

/-- The console asked for a certificate, and what it sends put in place. -/
def ask (files : Files) (wanted : CertificateEnrolment) (issue : Issue) (serial : String) :
    Files × Option Request × Result :=
  let request : Request := ⟨wanted.profile, wanted.validity, serial⟩
  match issue.answer with
  | .error error => (files, some request, ⟨wanted.setting, .failed, error⟩)
  | .ok response =>
      if response.unchanged then (files, some request, ⟨wanted.setting, .unchanged, "already current"⟩)
      else
        match issue.madeDirectory with
        | some error => (files, some request, ⟨wanted.setting, .failed, error⟩)
        | none =>
            let (files, failed) := writeAll wanted.setting
              ((wanted.keyPath, response.privateKeyPem, issue.wroteKey) ::
                (wanted.certPath, response.certificatePem, issue.wroteCertificate) ::
                if response.caPem ≠ "" then [(wanted.caPath, response.caPem, issue.wroteCa)] else []) files
            (files, some request, failed.getD
              ⟨wanted.setting, .applied, response.subject ++ ", serial " ++ response.serial⟩)

/-- One certificate brought up to date; and what the console was asked for. -/
def one (files : Files) (wanted : CertificateEnrolment) (issue : Issue) : Files × Option Request × Result :=
  if !validPath wanted.path then (files, none, ⟨wanted.setting, .failed, "invalid path"⟩)
  else
    match existing parse files wanted.certPath with
    | none => ask files wanted issue ""
    | some certificate =>
        if !dueForRenewal certificate wanted.renewAfter issue.now then
          (files, none, ⟨wanted.setting, .unchanged, "valid until " ++ dateOnly certificate.notAfter⟩)
        else ask files wanted issue (hexadecimal certificate.serial)

/-- All of them in their order; each meets its own. -/
def enrol (issue : Nat → Issue) : Nat → List CertificateEnrolment → Files →
    Files × List Request × List Result
  | _, [], files => (files, [], [])
  | n, wanted :: rest, files =>
      let (files, request, result) := one parse files wanted (issue n)
      let (files, requests, results) := enrol issue (n + 1) rest files
      (files, request.toList ++ requests, result :: results)

/-- What a policy says of all this, and the rest of what a pass reads of it. -/
structure Policy where
  serial : String
  updateMode : Option String := none
  localAdministrator : Option LocalAdministrator := none
  certificateEnrolment : List CertificateEnrolment := []

/-- What one pass meets. -/
structure Pass where
  force : Bool := false
  version : String
  /-- The policy is fetched, with the version of the agent that the console hands out, or something went wrong
  before that. -/
  fetched : Except String (Option String)
  administrator : LocalAdmin.Chance
  issue : Nat → Issue
  others : List Result := []
  enrolments : List Result := []
  /-- The console does not take the report. -/
  reported : Option String := none
  savesSerial : Bool := true

structure World where
  machine : LocalAdmin.Machine
  files : Files
  applied : Option Applied := none

structure Outcome where
  administrator : List Result := []
  certificates : List Result := []
  asked : List Request := []
  /-- What the pass ends with, which is printed. -/
  error : Option String := none

def Policy.document (policy : Policy) (available : Option String) : Document where
  serial := policy.serial
  agentAvailable := available
  updateMode := policy.updateMode

/-- The pass ends early: the policy is fetched and nothing of it is new. -/
def Pass.skips (pass : Pass) (policy : Policy) (world : World) : Bool :=
  match pass.fetched with
  | .error _ => false
  | .ok available => unchanged pass.force (policy.document available) world.applied pass.version

def applyOnce (policy : Policy) (world : World) (pass : Pass) : World × Outcome :=
  match pass.fetched with
  | .error error => (world, { error := some error })
  | .ok _ =>
      if pass.skips policy world then (world, {})
      else
        let (machine, administrator) :=
          LocalAdmin.applyLocalAdministrator policy.localAdministrator pass.administrator world.machine
        let (files, asked, certificates) := enrol parse pass.issue 0 policy.certificateEnrolment world.files
        let results := pass.others ++ administrator ++ certificates ++ pass.enrolments
        let failed := results.countP fun result => result.status = .failed
        let report : World × Option String := match pass.reported with
          | some error => ({ machine, files, applied := world.applied }, some ("reporting results: " ++ error))
          | none =>
              if failed = 0 then
                ({ machine, files, applied := saveSerial world.applied policy.serial pass.version pass.savesSerial },
                  none)
              else
                ({ machine, files, applied := world.applied },
                  some (toString failed ++ " of " ++ toString results.length ++ " settings failed"))
        (report.1, { administrator, certificates, asked, error := report.2 })

inductive Move where
  | pass (pass : Pass)
  /-- Something else changes the machine or the files of the certificates. -/
  | beside (machine : LocalAdmin.Machine) (files : Files)

def next (policy : Policy) (world : World) : Move → World
  | .pass pass => (applyOnce parse policy world pass).1
  | .beside machine files => { world with machine, files }

def day : Int := 24 * (3600 * 10 ^ 9)

/-- The password is past its rotation date. -/
def PastRotation (machine : LocalAdmin.Machine) (wanted : LocalAdministrator) (now : Int) : Prop :=
  machine.loadLocalAdminState.account = wanted.account ∧
    machine.loadLocalAdminState.rotated + rotateDaysOf wanted * day ≤ now

/-- The account has a new password, remembered with the moment it was set. -/
def Rotated (after : LocalAdmin.Machine) (wanted : LocalAdministrator) (now : Int) : Prop :=
  ∃ password account, after.record = some ⟨wanted.account, now, password⟩ ∧
    after.accounts wanted.account = some account ∧ account.password = some password

def InRenewal (files : Files) (wanted : CertificateEnrolment) (now : Int) : Prop :=
  ∃ certificate, existing parse files wanted.certPath = some certificate ∧
    certificate.notAfter - now ≤ wanted.renewAfter * day

def Failed (results : List Result) (setting : String) : Prop :=
  ∃ result ∈ results, result.setting = setting ∧ result.status = .failed

/-- What was due when the pass was made has been done, or has failed and was said to. -/
structure Done (policy : Policy) (world : World) (pass : Pass) : Prop where
  password : ∀ wanted ∈ policy.localAdministrator, PastRotation world.machine wanted pass.administrator.now →
    Rotated (applyOnce parse policy world pass).1.machine wanted pass.administrator.now ∨
      Failed (applyOnce parse policy world pass).2.administrator "local_administrator"
  certificates : ∀ n wanted, policy.certificateEnrolment[n]? = some wanted →
    InRenewal parse world.files wanted (pass.issue n).now →
      (∃ request ∈ (applyOnce parse policy world pass).2.asked, request.profile = wanted.profile) ∨
        Failed (applyOnce parse policy world pass).2.certificates wanted.setting

/-- Nothing is due. -/
structure Idle (policy : Policy) (world : World) (pass : Pass) : Prop where
  password : ∀ wanted ∈ policy.localAdministrator, ¬ PastRotation world.machine wanted pass.administrator.now
  certificates : ∀ n wanted, policy.certificateEnrolment[n]? = some wanted →
    ¬ InRenewal parse world.files wanted (pass.issue n).now

/-- After a completed pass. -/
def Good (policy : Policy) (world : World) : Move → Prop
  | .pass pass => (∃ available, pass.fetched = .ok available) → Done parse policy world pass
  | .beside .. => True

def Timely (policy : Policy) (world : World) : Move → Prop
  | .pass pass => pass.skips policy world → Idle parse policy world pass
  | .beside .. => True

variable {parse}

theorem rotateDaysOf_pos (wanted : LocalAdministrator) : 0 < rotateDaysOf wanted := by
  unfold rotateDaysOf
  split <;> omega

theorem duration_le {days : Int} (h : 0 < days) : duration days ≤ days * day ∧ duration days ≤ 2 ^ 63 - 1 := by
  unfold duration day
  rw [Int.bmod_def]
  norm_num
  split <;> omega

theorem due_of_pastRotation {machine : LocalAdmin.Machine} {wanted : LocalAdministrator} {now : Int}
    (h : PastRotation machine wanted now) : LocalAdmin.due now wanted machine.loadLocalAdminState = true := by
  obtain ⟨_, hpast⟩ := h
  obtain ⟨hle, hfits⟩ := duration_le (rotateDaysOf_pos wanted)
  have hsince : duration (rotateDaysOf wanted) ≤ since now machine.loadLocalAdminState.rotated := by
    unfold since
    refine le_max_of_le_right (le_min hfits ?_)
    omega
  simp only [LocalAdmin.due, Bool.or_eq_true, decide_eq_true_eq]
  exact .inr hsince

open LocalAdmin in
theorem rotate_done {chance : Chance} {machine : LocalAdmin.Machine} {wanted : LocalAdministrator} :
    Rotated (rotate chance machine wanted).1 wanted chance.now ∨
      Failed (rotate chance machine wanted).2 "local_administrator" := by
  have hfailed : ∀ error : String, Failed [result .failed error] "local_administrator" :=
    fun error => ⟨_, List.mem_singleton_self _, rfl, rfl⟩
  unfold rotate
  cases hdrawn : generatePassword (lengthOf wanted) chance.draw with
  | error error => exact .inr (hfailed error)
  | ok password =>
      cases hrunner : chance.runner with
      | false => exact .inr (hfailed _)
      | true =>
          simp only [Bool.not_true, Bool.false_eq_true, if_false]
          cases hended : (setUp chance machine wanted password).2 with
          | some error =>
              rw [← Prod.mk.eta (p := setUp chance machine wanted password), hended]
              exact .inr (hfailed error)
          | none =>
              rw [← Prod.mk.eta (p := setUp chance machine wanted password), hended]
              obtain ⟨hsaves, hwritten⟩ := setUp_eq_none.mp hended
              refine .inl ⟨password, _, ?_, setUp_set hsaves.1 (Agent.Ends.did_of_isDone hsaves.2.1), rfl⟩
              change (setUp chance machine wanted password).1.record = _
              rw [setUp_record, if_pos hsaves, hwritten]
              rfl

open LocalAdmin in
theorem password_done {chance : Chance} {machine : LocalAdmin.Machine} {wanted : LocalAdministrator}
    (h : PastRotation machine wanted chance.now) :
    Rotated (applyLocalAdministrator (some wanted) chance machine).1 wanted chance.now ∨
      Failed (applyLocalAdministrator (some wanted) chance machine).2 "local_administrator" := by
  unfold applyLocalAdministrator
  by_cases hname : wanted.account = ""
  · simp only [hname, if_true]
    exact .inr ⟨_, List.mem_singleton_self _, rfl, rfl⟩
  · have htaken : takeBack chance machine wanted = (machine, machine.loadLocalAdminState, []) := by
      unfold takeBack
      exact if_neg fun htakes => htakes.2 h.1
    simp only [hname, if_false, htaken, due_of_pastRotation h, if_true, List.nil_append]
    exact rotate_done

theorem dueForRenewal_of_inRenewal {wanted : CertificateEnrolment} {certificate : Certificate} {now : Int}
    (h : certificate.notAfter - now ≤ wanted.renewAfter * day) :
    dueForRenewal certificate wanted.renewAfter now = true := by
  have hpositive : 0 < wanted.renewAfter ∧ wanted.renewAfter ≤ 365 := by
    have hbounded := wanted.bounded
    unfold CertificateEnrolment.renewAfter
    split <;> omega
  have hfits : duration wanted.renewAfter = wanted.renewAfter * day := by
    unfold duration day
    rw [Int.bmod_def]
    norm_num
    split <;> omega
  unfold dueForRenewal
  split
  · rfl
  · rw [hfits, decide_eq_true_eq]
    unfold since
    unfold day at h ⊢
    omega

variable {files : Files} {wanted other : CertificateEnrolment} {issue : Issue}

theorem ask_asks {serial : String} : (ask files wanted issue serial).2.1 = some ⟨wanted.profile, wanted.validity, serial⟩ := by
  unfold ask
  split
  · rfl
  · split
    · rfl
    · split <;> rfl

theorem writeAll_other {setting : String} {writes : List (List String × String × Option String)} {path : List String}
    (h : ∀ write ∈ writes, path ≠ write.1) : (writeAll setting writes files).1 path = files path := by
  induction writes generalizing files with
  | nil => rfl
  | cons write writes ih =>
      obtain ⟨hpath, hrest⟩ := List.forall_mem_cons.mp h
      obtain ⟨place, content, error⟩ := write
      cases error with
      | some error => rfl
      | none =>
          rw [writeAll, ih hrest]
          exact Function.update_of_ne hpath _ _

theorem certPath_ne {name : String} (h : name ≠ wanted.profile.text ++ ".crt") (path : List String) :
    wanted.certPath ≠ path ++ [name] := by
  intro heq
  exact h (List.append_singleton_inj.mp heq).2.symm

theorem certPath_ne_keyPath : wanted.certPath ≠ other.keyPath := by
  refine certPath_ne ?_ _
  cases wanted.profile <;> cases other.profile <;> decide

theorem certPath_ne_caPath : wanted.certPath ≠ other.caPath := by
  refine certPath_ne ?_ _
  cases wanted.profile <;> decide

theorem profile_of_certPath (h : wanted.certPath = other.certPath) : other.profile = wanted.profile := by
  by_contra hne
  refine certPath_ne ?_ _ h
  revert hne
  cases wanted.profile <;> cases other.profile <;> decide

theorem one_other (h : (one parse files other issue).1 wanted.certPath ≠ files wanted.certPath) :
    ∃ serial, (one parse files other issue).2.1 = some ⟨wanted.profile, other.validity, serial⟩ := by
  have hask : ∀ serial, (ask files other issue serial).1 wanted.certPath ≠ files wanted.certPath →
      (ask files other issue serial).2.1 = some ⟨wanted.profile, other.validity, serial⟩ := by
    intro serial hchanged
    rw [ask_asks]
    have hsame : wanted.certPath = other.certPath := by
      by_contra hne
      apply hchanged
      unfold ask
      split
      · rfl
      · split
        · rfl
        · split
          · rfl
          · refine writeAll_other fun write hwrite => ?_
            rcases List.mem_cons.mp hwrite with rfl | hwrite
            · exact certPath_ne_keyPath
            · rcases List.mem_cons.mp hwrite with rfl | hwrite
              · exact hne
              · split at hwrite
                · obtain rfl := List.mem_singleton.mp hwrite
                  exact certPath_ne_caPath
                · exact absurd hwrite List.not_mem_nil
    rw [profile_of_certPath hsame]
  unfold one at h ⊢
  split at h
  · exact absurd rfl h
  · rename_i hvalid
    rw [if_neg hvalid]
    cases hexisting : existing parse files other.certPath with
    | none =>
        rw [hexisting] at h
        exact ⟨_, hask _ h⟩
    | some certificate =>
        rw [hexisting] at h
        dsimp only at h ⊢
        split at h
        · exact absurd rfl h
        · rename_i hdue
          rw [if_neg hdue]
          exact ⟨_, hask _ h⟩

theorem one_done (h : InRenewal parse files wanted issue.now) :
    (∃ serial, (one parse files wanted issue).2.1 = some ⟨wanted.profile, wanted.validity, serial⟩) ∨
      Failed [(one parse files wanted issue).2.2] wanted.setting := by
  obtain ⟨certificate, hexisting, hperiod⟩ := h
  unfold one
  split
  · exact .inr ⟨_, List.mem_singleton_self _, rfl, rfl⟩
  · rw [hexisting]
    simp only [dueForRenewal_of_inRenewal hperiod, Bool.not_true, Bool.false_eq_true, if_false]
    exact .inl ⟨_, ask_asks⟩

theorem enrol_done {issue : Nat → Issue} {enrolments : List CertificateEnrolment} {n i : Nat}
    (hwanted : enrolments[i]? = some wanted) (h : InRenewal parse files wanted (issue (n + i)).now) :
    (∃ request ∈ (enrol parse issue n enrolments files).2.1, request.profile = wanted.profile) ∨
      Failed (enrol parse issue n enrolments files).2.2 wanted.setting := by
  induction enrolments generalizing n i files with
  | nil => cases hwanted
  | cons first enrolments ih =>
      have hlater : ∀ asked failed, (enrol parse issue (n + 1) enrolments (one parse files first (issue n)).1).2.1 = asked →
          (enrol parse issue (n + 1) enrolments (one parse files first (issue n)).1).2.2 = failed →
          (∃ request ∈ asked, request.profile = wanted.profile) ∨ Failed failed wanted.setting →
          (∃ request ∈ (enrol parse issue n (first :: enrolments) files).2.1, request.profile = wanted.profile) ∨
            Failed (enrol parse issue n (first :: enrolments) files).2.2 wanted.setting := by
        rintro _ _ rfl rfl (⟨request, hrequest, hprofile⟩ | ⟨result, hresult, hfailed⟩)
        · exact .inl ⟨request, List.mem_append_right _ hrequest, hprofile⟩
        · exact .inr ⟨result, List.mem_cons_of_mem _ hresult, hfailed⟩
      have hasked : ∀ request, (one parse files first (issue n)).2.1 = some request →
          request ∈ (enrol parse issue n (first :: enrolments) files).2.1 := by
        intro request hrequest
        have hmem : request ∈ (one parse files first (issue n)).2.1.toList := Option.mem_toList.mpr hrequest
        exact List.mem_append_left _ hmem
      cases i with
      | zero =>
          obtain rfl := Option.some.inj hwanted
          rcases one_done h with ⟨serial, hone⟩ | ⟨result, hresult, hfailed⟩
          · exact .inl ⟨_, hasked _ hone, rfl⟩
          · obtain rfl := List.mem_singleton.mp hresult
            exact .inr ⟨_, List.mem_cons_self, hfailed⟩
      | succ i =>
          by_cases hsame : (one parse files first (issue n)).1 wanted.certPath = files wanted.certPath
          · have hperiod : InRenewal parse (one parse files first (issue n)).1 wanted (issue (n + 1 + i)).now := by
              obtain ⟨certificate, hexisting, hperiod⟩ := h
              refine ⟨certificate, ?_, ?_⟩
              · rw [existing, hsame]
                exact hexisting
              · rw [Nat.add_assoc, Nat.add_comm 1 i]
                exact hperiod
            exact hlater _ _ rfl rfl (ih hwanted hperiod)
          · obtain ⟨serial, hone⟩ := one_other hsame
            exact .inl ⟨_, hasked _ hone, rfl⟩

theorem applyOnce_applies {policy : Policy} {world : World} {pass : Pass} {available : Option String}
    (hfetched : pass.fetched = .ok available) (hskips : pass.skips policy world = false) :
    let administrator := LocalAdmin.applyLocalAdministrator policy.localAdministrator pass.administrator world.machine
    let certificates := enrol parse pass.issue 0 policy.certificateEnrolment world.files
    (applyOnce parse policy world pass).1.machine = administrator.1 ∧
      (applyOnce parse policy world pass).2.administrator = administrator.2 ∧
      (applyOnce parse policy world pass).2.asked = certificates.2.1 ∧
      (applyOnce parse policy world pass).2.certificates = certificates.2.2 := by
  simp only [applyOnce, hfetched, hskips, Bool.false_eq_true, if_false, and_true]
  split
  · rfl
  · split <;> rfl

theorem not_pastRotation_of_rotated {machine : LocalAdmin.Machine} {wanted : LocalAdministrator} {now : Int}
    (h : Rotated machine wanted now) : ¬ PastRotation machine wanted now := by
  rintro ⟨_, hpast⟩
  obtain ⟨password, account, hrecord, _⟩ := h
  have hrotated : machine.loadLocalAdminState.rotated = now := by
    rw [LocalAdmin.Machine.loadLocalAdminState, hrecord]
    rfl
  have hdays := rotateDaysOf_pos wanted
  have hday : 0 < rotateDaysOf wanted * day := mul_pos hdays (by decide)
  omega

theorem good_iff (policy : Policy) (world : World) (move : Move) :
    Good parse policy world move ↔ Timely parse policy world move := by
  cases move with
  | beside => exact Iff.rfl
  | pass pass =>
      simp only [Good, Timely]
      cases hfetched : pass.fetched with
      | error error => simp [Pass.skips, hfetched]
      | ok available =>
          cases hskips : pass.skips policy world with
          | true =>
              have hsame : applyOnce parse policy world pass = (world, {}) := by
                simp [applyOnce, hfetched, hskips]
              have hempty : ∀ setting, ¬ Failed [] setting := by
                rintro setting ⟨result, hresult, _⟩
                exact absurd hresult List.not_mem_nil
              constructor
              · intro hgood _
                obtain ⟨hpassword, hcertificates⟩ := hgood ⟨available, rfl⟩
                rw [hsame] at hpassword hcertificates
                constructor
                · intro wanted hwanted hpast
                  rcases hpassword wanted hwanted hpast with hrotated | hfailed
                  · exact not_pastRotation_of_rotated hrotated hpast
                  · exact hempty _ hfailed
                · intro n wanted hwanted hperiod
                  rcases hcertificates n wanted hwanted hperiod with ⟨request, hrequest, _⟩ | hfailed
                  · exact absurd hrequest List.not_mem_nil
                  · exact hempty _ hfailed
              · intro hidle _
                have hidle := hidle rfl
                exact ⟨fun wanted hwanted hpast => absurd hpast (hidle.password wanted hwanted),
                  fun n wanted hwanted hperiod => absurd hperiod (hidle.certificates n wanted hwanted)⟩
          | false =>
              refine iff_of_true (fun _ => ?_) fun h => absurd h Bool.false_ne_true
              obtain ⟨hmachine, hadministrator, hasked, hcertificates⟩ :=
                @applyOnce_applies parse policy world pass available hfetched hskips
              constructor
              · intro wanted hwanted hpast
                rw [hmachine, hadministrator, show policy.localAdministrator = some wanted from hwanted]
                exact password_done hpast
              · intro n wanted hwanted hperiod
                rw [hasked, hcertificates]
                refine enrol_done hwanted ?_
                rwa [Nat.zero_add]

/-- The policy was applied in full, with the first password. -/
def applied : World where
  machine := {
    accounts := Function.update (fun _ => none) "odmadmin" (some { password := some "first", made := true })
    record := some ⟨"odmadmin", 0, "first"⟩ }
  files _ := none
  applied := some ⟨"1", "0.10"⟩

/-- No certificate is read on this machine. -/
def unread : String → Option Certificate := fun _ => none

end OpenDirectory.Duties
