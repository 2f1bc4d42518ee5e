import OpenDirectory.LocalAdminReport

/-! The report of a run, from the agent to the console. The agent shortens the texts of each result to
what the console takes of them; how many results and policy objects there are it takes as they come. The
console refuses a report as a whole. -/

namespace OpenDirectory.AgentReport

open LocalAdmin (LocalAdministrator PendingLocalAdministrator LocalAdministratorCredential
  generatePassword lengthOf passwordAlphabet)

/-- A text as the agent has it, in bytes, which need not be those of characters. -/
abbrev Bytes := List UInt8

def utf8 (text : String) : Bytes := text.toList.flatMap String.utf8EncodeChar

/-- `RuneError` -/
def runeError : Nat := 0xFFFD

/-- The bits a byte adds to a character it is not the first of, if it is one that may be. -/
def continuation (least most byte : UInt8) : Option Nat :=
  if least ≤ byte ∧ byte ≤ most then some (byte.toNat - 0x80) else none

/-- `utf8.DecodeRune`: the first character, and how many bytes more than the first it takes. Bytes that
are no character's count as an error each. -/
def decodeRune (first : UInt8) (rest : Bytes) : Nat × Nat :=
  let second (least most : UInt8) := (rest[0]?).bind (continuation least most)
  let third := (rest[1]?).bind (continuation 0x80 0xBF)
  let fourth := (rest[2]?).bind (continuation 0x80 0xBF)
  if first < 0x80 then (first.toNat, 0)
  else if 0xC2 ≤ first ∧ first ≤ 0xDF then
    match second 0x80 0xBF with
    | some b => ((first.toNat - 0xC0) * 64 + b, 1)
    | none => (runeError, 0)
  else if 0xE0 ≤ first ∧ first ≤ 0xEF then
    match second (if first = 0xE0 then 0xA0 else 0x80) (if first = 0xED then 0x9F else 0xBF), third with
    | some b, some c => (((first.toNat - 0xE0) * 64 + b) * 64 + c, 2)
    | _, _ => (runeError, 0)
  else if 0xF0 ≤ first ∧ first ≤ 0xF4 then
    match second (if first = 0xF0 then 0x90 else 0x80) (if first = 0xF4 then 0x8F else 0xBF), third,
        fourth with
    | some b, some c, some d => ((((first.toNat - 0xF0) * 64 + b) * 64 + c) * 64 + d, 3)
    | _, _, _ => (runeError, 0)
  else (runeError, 0)

/-- The characters of a text as `json.Marshal` writes them and the console reads them. -/
def runes : Bytes → List Nat
  | [] => []
  | first :: rest => (decodeRune first rest).1 :: runes (rest.drop (decodeRune first rest).2)
termination_by bytes => bytes.length
decreasing_by simp only [List.length_drop, List.length_cons]; omega

theorem length_runes_le (bytes : Bytes) : (runes bytes).length ≤ bytes.length := by
  induction bytes using runes.induct with
  | case1 => simp [runes]
  | case2 first rest ih =>
      rw [runes, List.length_cons, List.length_cons]
      rw [List.length_drop] at ih
      omega

inductive Status where
  | success
  | applied
  | unchanged
  | failed
  | skipped
  deriving DecidableEq

structure Result where
  setting : Bytes
  status : Status
  reason : Bytes

def reasonLimit : Nat := 512

def settingLimit : Nat := 256

def reasonEllipsis : Bytes := utf8 " […] "

/-- Both ends of a reason that is too long. -/
def shortened (reason : Bytes) : Bytes :=
  if reason.length ≤ reasonLimit then reason
  else reason.take (reasonLimit * 2 / 3) ++ reasonEllipsis ++
    reason.drop (reason.length - (reasonLimit / 3 - reasonEllipsis.length))

def shortenedSetting (setting : Bytes) : Bytes :=
  if setting.length ≤ settingLimit then setting
  else setting.take (settingLimit - reasonEllipsis.length) ++ reasonEllipsis

def sanitizeForReport (results : List Result) : List Result :=
  results.map fun result => { result with
    setting := shortenedSetting result.setting
    reason := shortened result.reason }

structure GpoRef where
  guid : String
  name : String

structure Report where
  policySerial : String
  agentVersion : String
  username : String
  appliedGpos : List GpoRef
  results : List Result
  localAdministrator : Option LocalAdministratorCredential

/-- A password that this or an earlier run generated, for a policy the console has let be saved. -/
structure Rotation where
  wanted : LocalAdministrator
  valid : wanted.valid = true
  draw : Nat → Except String (Fin passwordAlphabet.length)
  password : String
  drawn : generatePassword (lengthOf wanted) draw = .ok password
  rotated : Int
  expiresAt : Int

def Rotation.credential (rotation : Rotation) : LocalAdministratorCredential :=
  (PendingLocalAdministrator.mk rotation.wanted.account rotation.password rotation.rotated
    rotation.expiresAt).credential

/-- What the console hands out, of which a report says something. -/
structure Document where
  /-- `hashlib.sha256(payload).hexdigest()` -/
  digest : String
  appliedGpos : List GpoRef

/-- The first 32 digits of the digest. -/
def Document.serial (document : Document) : String := String.ofList (document.digest.toList.take 32)

/-- What a run comes to: of one person's session, or of the machine. -/
structure Run where
  session : Bool
  applied : List Result
  certificates : List Result
  enrolments : List Result
  rotation : Option Rotation

def version : String := "0.17.8"

def Run.results (run : Run) : List Result :=
  if run.session then run.applied else run.applied ++ run.certificates ++ run.enrolments

/-- The report as it leaves the machine. -/
def sent (document : Document) (run : Run) : Report where
  policySerial := document.serial
  agentVersion := version
  username := ""
  appliedGpos := document.appliedGpos
  results := sanitizeForReport run.results
  localAdministrator := run.rotation.map Rotation.credential

def Result.accepted (result : Result) : Bool :=
  (runes result.setting).length ≤ 256 && (runes result.reason).length ≤ 512

/-- The console's model of a report. Every status is one of those it knows. -/
def Report.accepted (report : Report) : Bool :=
  report.policySerial.length ≤ 64 && report.username.length ≤ 104 &&
    report.agentVersion.length ≤ 32 && report.appliedGpos.length ≤ 200 &&
    report.results.length ≤ 1000 && report.results.all Result.accepted &&
    report.localAdministrator.all LocalAdministratorCredential.fits

/-- The database takes no zero in the text of a document. -/
def Result.storable (result : Result) : Bool :=
  0 ∉ runes result.setting && 0 ∉ runes result.reason

/-- The row of a report, where there is one. -/
def agentReport (report : Report) : Option Report :=
  if report.accepted && report.results.all Result.storable then some report else none

/-- What is left of a run: the console's row, and the serial that the machine remembers. -/
structure Outcome where
  recorded : Option Report
  saved : Option String

/-- The end of `applyOnce`. -/
def applyOnce (document : Document) (run : Run) : Outcome :=
  let failed := run.results.countP fun result => result.status = .failed
  match agentReport (sent document run) with
  | none => ⟨none, none⟩
  | some row => ⟨some row, if !run.session && failed = 0 then some document.serial else none⟩

/-- The console has a row of what the run reported, and a clean run of the machine is remembered. -/
structure Reported (document : Document) (run : Run) : Prop where
  recorded : (applyOnce document run).recorded = some (sent document run)
  saved : run.session = false → (∀ result ∈ run.results, result.status ≠ .failed) →
    (applyOnce document run).saved = some document.serial

/-- What is sent of a result holds no zero. -/
def Clean (result : Result) : Prop :=
  0 ∉ runes (shortenedSetting result.setting) ∧ 0 ∉ runes (shortened result.reason)

theorem length_reasonEllipsis : reasonEllipsis.length = 7 := by decide

theorem length_shortened_le (reason : Bytes) : (shortened reason).length ≤ 512 := by
  unfold shortened reasonLimit
  split
  · assumption
  · rw [List.length_append, List.length_append, List.length_take, List.length_drop,
      length_reasonEllipsis]
    omega

theorem length_shortenedSetting_le (setting : Bytes) : (shortenedSetting setting).length ≤ 256 := by
  unfold shortenedSetting settingLimit
  split
  · assumption
  · rw [List.length_append, List.length_take, length_reasonEllipsis]
    omega

theorem accepted_sanitized (results : List Result) :
    ∀ result ∈ sanitizeForReport results, result.accepted = true := by
  intro result hresult
  obtain ⟨made, _, rfl⟩ := List.mem_map.mp hresult
  have hsetting := (length_runes_le _).trans (length_shortenedSetting_le made.setting)
  have hreason := (length_runes_le _).trans (length_shortened_le made.reason)
  simpa [Result.accepted] using ⟨hsetting, hreason⟩

theorem length_serial_le (document : Document) : document.serial.length ≤ 64 := by
  unfold Document.serial
  rw [String.length_ofList, List.length_take]
  omega

theorem fits_credential (rotation : Rotation) : rotation.credential.fits = true :=
  LocalAdmin.fits_of_valid rotation.valid rotation.drawn rotation.rotated rotation.expiresAt

theorem accepted_sent_iff (document : Document) (run : Run) :
    (sent document run).accepted = true ↔
      document.appliedGpos.length ≤ 200 ∧ run.results.length ≤ 1000 := by
  have hall : (sent document run).results.all Result.accepted = true :=
    List.all_eq_true.mpr (accepted_sanitized run.results)
  have hserial : (sent document run).policySerial.length ≤ 64 := length_serial_le document
  have hfits : (sent document run).localAdministrator.all LocalAdministratorCredential.fits =
      true := by
    unfold sent
    cases run.rotation with
    | none => rfl
    | some rotation => exact fits_credential rotation
  have hcount : (sent document run).results.length = run.results.length := List.length_map _
  have husername : (sent document run).username.length ≤ 104 := Nat.zero_le 104
  have hversion : (sent document run).agentVersion.length ≤ 32 := by
    change version.length ≤ 32
    decide
  simp only [Report.accepted, hall, hfits, hcount, Bool.and_eq_true, decide_eq_true_eq, hserial,
    husername, hversion, true_and, and_true]
  rfl

theorem storable_sent_iff (document : Document) (run : Run) :
    (sent document run).results.all Result.storable = true ↔ ∀ result ∈ run.results, Clean result := by
  unfold sent sanitizeForReport
  simp [List.all_map, List.all_eq_true, Result.storable, Clean]

/-- A run is reported, and remembered if it is clean, exactly when it is of no more policy objects and
results than the console takes, and no text that is sent holds a zero. -/
theorem reported_iff (document : Document) (run : Run) :
    Reported document run ↔ document.appliedGpos.length ≤ 200 ∧ run.results.length ≤ 1000 ∧
      ∀ result ∈ run.results, Clean result := by
  rw [← and_assoc, ← accepted_sent_iff, ← storable_sent_iff document, ← Bool.and_eq_true]
  cases htaken : (sent document run).accepted && (sent document run).results.all Result.storable with
  | false =>
      have houtcome : applyOnce document run = ⟨none, none⟩ := by
        unfold applyOnce agentReport
        rw [htaken]
        rfl
      refine iff_of_false (fun h => ?_) Bool.false_ne_true
      have hrecorded := h.recorded
      rw [houtcome] at hrecorded
      cases hrecorded
  | true =>
      have houtcome : applyOnce document run = ⟨some (sent document run),
          if !run.session && (run.results.countP fun result => result.status = .failed) = 0 then
            some document.serial else none⟩ := by
        unfold applyOnce agentReport
        rw [htaken]
        rfl
      refine iff_of_true ⟨by rw [houtcome], fun hmachine hclean => ?_⟩ rfl
      have hfailed : (run.results.countP fun result => result.status = .failed) = 0 :=
        List.countP_eq_zero.mpr fun result hresult => by simpa using hclean result hresult
      rw [houtcome, hmachine, hfailed]
      rfl

/-- A clean run under more policy objects than the console takes is neither recorded nor remembered. -/
theorem many_gpos_refused :
    let document : Document := ⟨"", List.replicate 201 ⟨"guid", "name"⟩⟩
    let run : Run := ⟨false, [⟨utf8 "packages", .success, []⟩], [], [], none⟩
    ¬ Reported document run := by
  intro document run h
  have hrecorded := h.recorded
  have hrefused : agentReport (sent document run) = none := by
    have hcount : (sent document run).appliedGpos.length = 201 := List.length_replicate ..
    simp [agentReport, Report.accepted, hcount]
  unfold applyOnce at hrecorded
  rw [hrefused] at hrecorded
  cases hrecorded

end OpenDirectory.AgentReport
