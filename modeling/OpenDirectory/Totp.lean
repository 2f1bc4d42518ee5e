import OpenDirectory.Steps
import OpenDirectory.Text
import OpenDirectory.Value

/-! Codes at sign-in: time-based ones, and recovery codes for somebody who has lost the device. An
attempt reads the enrolment, judges the code by what it read, and writes what it used up; the two
statements are not one transaction, so other attempts come in between. -/

namespace OpenDirectory.Totp

/-- base32, HMAC-SHA-1 and which texts are digits, as the standard library has them. -/
class Library where
  b32decode : String → Option (List UInt8)
  hmacSha1 : List UInt8 → List UInt8 → Vector UInt8 20
  isdigit : String → Bool

/-- What ends a verification: a code or an enrolment that is not accepted, or an exception that nothing
catches. -/
inductive Fault where
  | totpError
  | structError
  | typeError
  deriving DecidableEq

def digits : Nat := 6

def period : Nat := 30

def driftSteps : Nat := 1

/-- `struct.pack(">Q", step)` -/
def pack (step : Int) : Except Fault (List UInt8) :=
  if 0 ≤ step ∧ step < 2 ^ 64 then
    .ok ((List.range 8).map fun i => UInt8.ofNat (step.toNat >>> (8 * (7 - i))))
  else .error .structError

/-- `struct.unpack(">I", bytes)` -/
def unpack (bytes : List UInt8) : Nat := bytes.foldl (fun n byte => n * 256 + byte.toNat) 0

def zfill (width : Nat) (s : String) : String :=
  String.ofList (List.replicate (width - s.length) '0' ++ s.toList)

def padded (secret : String) : String :=
  secret ++ String.ofList (List.replicate ((8 - secret.length % 8) % 8) '=')

section

variable [Library]

def codeFor (secret : String) (step : Int) : Except Fault String :=
  match Library.b32decode (padded secret) with
  | none => .error .totpError
  | some key =>
      (pack step).map fun message =>
        let digest := Library.hmacSha1 key message
        let offset := digest[19].toNat &&& 0x0F
        let truncated := unpack ((digest.toList.drop offset).take 4) &&& 0x7FFFFFFF
        zfill digits (toString (truncated % 10 ^ digits))

def ascii (s : String) : Bool := s.toList.all fun c => c.toNat < 128

/-- `hmac.compare_digest`, which takes texts only when they are plain. -/
def compareDigest (s s' : String) : Except Fault Bool :=
  if ascii s && ascii s' then .ok (s = s') else .error .typeError

/-- A step that is not accepted any more. -/
def lapsed (lastStep : Option Int) (step : Int) : Bool := lastStep.any (step ≤ ·)

def verifyFrom (secret code : String) (lastStep : Option Int) (current : Int) :
    List Int → Except Fault Int
  | [] => .error .totpError
  | offset :: offsets =>
      let step := current + offset
      if lapsed lastStep step then verifyFrom secret code lastStep current offsets
      else match codeFor secret step with
        | .error fault => .error fault
        | .ok expected => match compareDigest expected code with
          | .error fault => .error fault
          | .ok true => .ok step
          | .ok false => verifyFrom secret code lastStep current offsets

variable [Runtime]

/-- `code.strip().replace(" ", "")` -/
def typed (code : String) : String :=
  String.ofList ((Text.strip Runtime.blank code).toList.filter (· ≠ ' '))

/-- Check a code and return the step it matched. The time is in microseconds. -/
def verify (secret code : String) (lastStep : Option Int) (now : Nat) : Except Fault Int :=
  if !Library.isdigit (typed code) || (typed code).length ≠ digits then .error .totpError
  else verifyFrom secret (typed code) lastStep (now / (period * 1000000) : Nat)
    [-driftSteps, 0, driftSteps]

def matchesRecovery (codes : List String) (candidate : String) : Except Fault (Option String) :=
  let candidate := lower (Text.strip Runtime.blank candidate)
  codes.foldlM (fun found code =>
    (compareDigest code candidate).map fun same => if same then some code else found) none

end

/-- A row of the enrolments. -/
structure Enrolment where
  secret : String
  confirmed : Bool
  lastStep : Option Int
  recoveryCodes : List String

inductive Answer where
  | refused
  | step (step : Int)
  | recovery (code : String)
  deriving DecidableEq

section

variable [Library] [Runtime]

/-- A time-based code, or one of the recovery codes. -/
def judge (enrolment : Enrolment) (code : String) (now : Nat) : Except Fault Answer :=
  match verify enrolment.secret code enrolment.lastStep now with
  | .ok step => .ok (.step step)
  | .error .totpError =>
      (matchesRecovery enrolment.recoveryCodes code).map fun
        | none => .refused
        | some used => .recovery used
  | .error fault => .error fault

/-- An attempt without a code is asked for one. -/
def asked (enrolment : Enrolment) (code : String) (now : Nat) : Except Fault Answer :=
  if code = "" then .ok .refused else judge enrolment code now

/-- What an accepted answer writes: the step unconditionally, the recovery code taken out wherever it
stands. -/
def Answer.write (answer : Answer) (enrolment : Enrolment) : Enrolment :=
  match answer with
  | .refused => enrolment
  | .step last => { enrolment with lastStep := some last }
  | .recovery used =>
      { enrolment with recoveryCodes := enrolment.recoveryCodes.filter (· ≠ used) }

/-- The enrolments by account, and the row each attempt under way has read. -/
structure Console where
  enrolments : String → Option Enrolment
  reading : Nat → Option (String × Enrolment)

inductive Move where
  | read (attempt : Nat) (sid : String)
  | answer (attempt : Nat) (code : String) (now : Nat)

/-- An attempt was let in by a code. -/
structure Accepted where
  sid : String
  answer : Answer

def Accepted.step? : Accepted → Option (String × Int)
  | ⟨sid, .step step⟩ => some (sid, step)
  | _ => none

def Accepted.code? : Accepted → Option (String × String)
  | ⟨sid, .recovery code⟩ => some (sid, code)
  | _ => none

def Console.next (console : Console) : Move → Console × List Accepted
  | .read attempt sid =>
      let row := ((console.enrolments sid).filter Enrolment.confirmed).map fun row => (sid, row)
      ({ console with reading := Function.update console.reading attempt row }, [])
  | .answer attempt code now =>
      match console.reading attempt with
      | none => (console, [])
      | some (sid, enrolment) =>
          let others := Function.update console.reading attempt none
          match asked enrolment code now with
          | .error _ | .ok .refused => ({ console with reading := others }, [])
          | .ok answer =>
              let written := (console.enrolments sid).map answer.write
              (⟨Function.update console.enrolments sid written, others⟩, [⟨sid, answer⟩])

end

section

variable [Library] {secret code : String} {lastStep lastStep' : Option Int} {current : Int}
  {offsets : List Int}

/-- Not later in time, an enrolment that has accepted no step yet being the earliest. -/
def NotLater (lastStep lastStep' : Option Int) : Prop :=
  ∀ step, lapsed lastStep step = true → lapsed lastStep' step = true

omit [Library] in
theorem lapsed_some {last step : Int} : lapsed (some last) step = true ↔ step ≤ last := by
  simp [lapsed]

theorem verifyFrom_cons (offset : Int) (offsets : List Int) :
    verifyFrom secret code lastStep current (offset :: offsets) =
      if lapsed lastStep (current + offset) then verifyFrom secret code lastStep current offsets
      else match codeFor secret (current + offset) with
        | .error fault => .error fault
        | .ok expected => match compareDigest expected code with
          | .error fault => .error fault
          | .ok true => .ok (current + offset)
          | .ok false => verifyFrom secret code lastStep current offsets := rfl

theorem not_lapsed_of_verifyFrom {step : Int}
    (h : verifyFrom secret code lastStep current offsets = .ok step) :
    lapsed lastStep step = false := by
  induction offsets with
  | nil => cases h
  | cons offset offsets ih =>
      rw [verifyFrom_cons] at h
      split at h
      · exact ih h
      · rename_i hlapsed
        split at h
        · cases h
        · split at h
          · cases h
          · cases h
            simpa using hlapsed
          · exact ih h

theorem verifyFrom_of_notLater (hlater : NotLater lastStep lastStep') {step : Int}
    (h : verifyFrom secret code lastStep current offsets = .ok step)
    (hstill : lapsed lastStep' step = false) :
    verifyFrom secret code lastStep' current offsets = .ok step := by
  induction offsets with
  | nil => cases h
  | cons offset offsets ih =>
      rw [verifyFrom_cons] at h ⊢
      by_cases hlapsed : lapsed lastStep (current + offset) = true
      · rw [if_pos hlapsed] at h
        rw [if_pos (hlater _ hlapsed)]
        exact ih h
      · rw [if_neg hlapsed] at h
        by_cases hlapsed' : lapsed lastStep' (current + offset) = true
        · -- The step that has lapsed since is not the one that matched.
          rw [if_pos hlapsed']
          split at h
          · cases h
          · split at h
            · cases h
            · cases h
              rw [hlapsed'] at hstill
              cases hstill
            · exact ih h
        · rw [if_neg hlapsed']
          split at h
          · cases h
          · rename_i expected hexpected
            split at h
            · cases h
            · exact h
            · exact ih h

theorem codeFor_totpError {step : Int} (h : codeFor secret step = .error .totpError) (step' : Int) :
    codeFor secret step' = .error .totpError := by
  unfold codeFor at h ⊢
  split at h
  · rfl
  · unfold pack at h
    split at h <;> cases h

theorem verifyFrom_of_totpError (h : ∀ step, codeFor secret step = .error .totpError)
    (offsets : List Int) :
    verifyFrom secret code lastStep current offsets = .error .totpError := by
  induction offsets with
  | nil => rfl
  | cons offset offsets ih =>
      rw [verifyFrom_cons]
      split
      · exact ih
      · rw [h]

theorem verifyFrom_refused (hlater : NotLater lastStep lastStep')
    (h : verifyFrom secret code lastStep current offsets = .error .totpError) :
    verifyFrom secret code lastStep' current offsets = .error .totpError := by
  induction offsets with
  | nil => rfl
  | cons offset offsets ih =>
      rw [verifyFrom_cons] at h ⊢
      by_cases hlapsed : lapsed lastStep (current + offset) = true
      · rw [if_pos hlapsed] at h
        rw [if_pos (hlater _ hlapsed)]
        exact ih h
      · rw [if_neg hlapsed] at h
        split at h
        · rename_i fault hfault
          cases h
          split
          · exact verifyFrom_of_totpError (codeFor_totpError hfault) offsets
          · rfl
        · split at h
          · rename_i hcompare
            cases h
            unfold compareDigest at hcompare
            split at hcompare <;> cases hcompare
          · cases h
          · split
            · exact ih h
            · exact ih h

end

/-- The row of the same enrolment, at the same time or later: nothing lapsed or used comes back. -/
structure LaterRow (row row' : Enrolment) : Prop where
  secret : row'.secret = row.secret
  lastStep : NotLater row.lastStep row'.lastStep
  codes : ∀ code ∈ row'.recoveryCodes, code ∈ row.recoveryCodes

/-- What an answer uses up is still there. -/
def Answer.Unused (answer : Answer) (row : Enrolment) : Prop :=
  match answer with
  | .refused => False
  | .step last => lapsed row.lastStep last = false
  | .recovery used => used ∈ row.recoveryCodes

theorem LaterRow.refl (row : Enrolment) : LaterRow row row := ⟨rfl, fun _ h => h, fun _ h => h⟩

theorem LaterRow.trans {row row' row'' : Enrolment} (h : LaterRow row row')
    (h' : LaterRow row' row'') : LaterRow row row'' :=
  ⟨h'.secret.trans h.secret, fun step hstep => h'.lastStep step (h.lastStep step hstep),
    fun code hcode => h.codes code (h'.codes code hcode)⟩

theorem laterRow_write {row : Enrolment} {answer : Answer} (h : answer.Unused row) :
    LaterRow row (answer.write row) := by
  cases answer with
  | refused => exact h.elim
  | step last =>
      refine ⟨rfl, fun step hstep => ?_, fun _ hcode => hcode⟩
      have hlast : lapsed row.lastStep last = false := h
      cases hrow : row.lastStep with
      | none =>
          rw [hrow] at hstep
          cases hstep
      | some before =>
          rw [hrow, lapsed_some] at hstep
          have hnot : ¬ last ≤ before := by
            rw [← lapsed_some, ← hrow, hlast]
            exact Bool.false_ne_true
          exact lapsed_some.mpr (by omega)
  | recovery used =>
      exact ⟨rfl, fun _ hstep => hstep, fun code hcode => (List.mem_filter.mp hcode).1⟩

section

theorem foldlM_compare {codes : List String} {candidate : String} {found last : Option String} :
    codes.foldlM (fun found code =>
      (compareDigest code candidate).map fun same => if same then some code else found) found = .ok last ↔
        (∀ code ∈ codes, (ascii code && ascii candidate) = true) ∧
          last = if candidate ∈ codes then some candidate else found := by
  induction codes generalizing found with
  | nil => exact ⟨fun h => ⟨nofun, (Except.ok.inj h).symm⟩, fun h => h.2 ▸ rfl⟩
  | cons code codes ih =>
      rw [List.foldlM_cons, List.forall_mem_cons]
      by_cases hplain : (ascii code && ascii candidate) = true
      · have hcompare : compareDigest code candidate = .ok (code = candidate) := if_pos hplain
        rw [hcompare]
        refine ih.trans ?_
        by_cases heq : code = candidate
        · subst heq
          simp [(Bool.and_eq_true_iff.mp hplain).1]
        · simp [heq, Ne.symm heq, hplain]
      · have hcompare : compareDigest code candidate = .error .typeError := if_neg hplain
        rw [hcompare]
        exact ⟨nofun, fun h => absurd h.1.1 hplain⟩

variable [Library] [Runtime] {row row' : Enrolment} {code : String} {now : Nat} {answer : Answer}

theorem asked_step {step : Int} (h : asked row code now = .ok (.step step)) :
    code ≠ "" ∧ verify row.secret code row.lastStep now = .ok step := by
  unfold asked at h
  split at h
  · cases h
  · rename_i hne
    refine ⟨hne, ?_⟩
    unfold judge at h
    split at h
    · rename_i hverify
      cases h
      exact hverify
    · cases hmatch : matchesRecovery row.recoveryCodes code with
      | error fault =>
          rw [hmatch] at h
          cases h
      | ok found =>
          rw [hmatch] at h
          cases found <;> cases h
    · cases h

theorem asked_recovery {used : String} (h : asked row code now = .ok (.recovery used)) :
    code ≠ "" ∧ verify row.secret code row.lastStep now = .error .totpError ∧
      matchesRecovery row.recoveryCodes code = .ok (some used) := by
  unfold asked at h
  split at h
  · cases h
  · rename_i hne
    unfold judge at h
    split at h
    · cases h
    · rename_i hverify
      cases hmatch : matchesRecovery row.recoveryCodes code with
      | error fault =>
          rw [hmatch] at h
          cases h
      | ok found =>
          rw [hmatch] at h
          cases found with
          | none => cases h
          | some other =>
              cases h
              exact ⟨hne, hverify, rfl⟩
    · cases h

theorem unused_of_asked (h : asked row code now = .ok answer) (haccepted : answer ≠ .refused) :
    answer.Unused row := by
  cases answer with
  | refused => exact absurd rfl haccepted
  | step step =>
      obtain ⟨_, hverify⟩ := asked_step h
      unfold verify at hverify
      split at hverify
      · cases hverify
      · exact not_lapsed_of_verifyFrom hverify
  | recovery used =>
      obtain ⟨_, _, hmatch⟩ := asked_recovery h
      obtain ⟨_, hfound⟩ := foldlM_compare.mp hmatch
      split at hfound
      · rename_i hmem
        cases hfound
        exact hmem
      · cases hfound

theorem asked_of_unused (hlater : LaterRow row row') (h : asked row code now = .ok answer)
    (hunused : answer.Unused row') : asked row' code now = .ok answer := by
  cases answer with
  | refused => exact hunused.elim
  | step step =>
      obtain ⟨hne, hverify⟩ := asked_step h
      have hverify' : verify row'.secret code row'.lastStep now = .ok step := by
        rw [hlater.secret]
        unfold verify at hverify ⊢
        split at hverify
        · cases hverify
        · rename_i hform
          rw [if_neg hform]
          exact verifyFrom_of_notLater hlater.lastStep hverify hunused
      unfold asked judge
      rw [if_neg hne, hverify']
  | recovery used =>
      obtain ⟨hne, hverify, hmatch⟩ := asked_recovery h
      have hverify' : verify row'.secret code row'.lastStep now = .error .totpError := by
        rw [hlater.secret]
        unfold verify at hverify ⊢
        split at hverify
        · rename_i hform
          rw [if_pos hform]
        · rename_i hform
          rw [if_neg hform]
          exact verifyFrom_refused hlater.lastStep hverify
      obtain ⟨hplain, hfound⟩ := foldlM_compare.mp hmatch
      have hmatch' : matchesRecovery row'.recoveryCodes code = .ok (some used) := by
        unfold matchesRecovery
        rw [foldlM_compare.mpr ⟨fun code hcode => hplain code (hlater.codes code hcode), rfl⟩]
        split at hfound
        · cases hfound
          exact congrArg _ (if_pos hunused)
        · cases hfound
      unfold asked judge
      rw [if_neg hne, hverify', hmatch']
      rfl

end

section

variable [Library] [Runtime]

/-- An attempt that lets somebody in does so by what the enrolment still accepts when it writes. -/
def Console.Fresh (console : Console) : Move → Prop
  | .read .. => True
  | .answer attempt code now => ∀ sid row, console.reading attempt = some (sid, row) →
      ∀ answer, asked row code now = .ok answer → answer ≠ .refused →
        ∃ row', console.enrolments sid = some row' ∧ asked row' code now = .ok answer

/-- The console with no attempt under way. -/
def Console.idle (enrolments : String → Option Enrolment) : Console := ⟨enrolments, fun _ => none⟩

def Console.after (enrolments : String → Option Enrolment) (moves : List Move) :
    Console × List Accepted :=
  Steps.run Console.next (.idle enrolments) moves

/-- No step of an enrolment and no recovery code lets anybody in twice, and the last step never goes
back. -/
structure GoodOnce (enrolments : String → Option Enrolment) (moves : List Move) : Prop where
  steps : ((Console.after enrolments moves).2.filterMap Accepted.step?).Nodup
  codes : ((Console.after enrolments moves).2.filterMap Accepted.code?).Nodup
  forward : ∀ before between after, moves = before ++ between ++ after → ∀ sid row,
    (Console.after enrolments before).1.enrolments sid = some row →
      ∃ row', (Console.after enrolments (before ++ between)).1.enrolments sid = some row' ∧
        NotLater row.lastStep row'.lastStep

/-- Every attempt of a run answers by what the enrolment still accepts. -/
def AllFresh (enrolments : String → Option Enrolment) (moves : List Move) : Prop :=
  ∀ before move after, moves = before ++ move :: after →
    (Console.after enrolments before).1.Fresh move

variable {console : Console} {move : Move}

theorem next_answer {attempt : Nat} {code sid : String} {now : Nat} {row : Enrolment}
    {answer : Answer} (hreading : console.reading attempt = some (sid, row))
    (hasked : asked row code now = .ok answer) (haccepted : answer ≠ .refused) :
    (console.next (.answer attempt code now)).2 = [⟨sid, answer⟩] ∧
      (console.next (.answer attempt code now)).1.enrolments =
        Function.update console.enrolments sid ((console.enrolments sid).map answer.write) := by
  cases answer with
  | refused => exact absurd rfl haccepted
  | step last => simp [Console.next, hreading, hasked]
  | recovery used => simp [Console.next, hreading, hasked]

theorem next_cases (console : Console) (move : Move) :
    ((console.next move).1.enrolments = console.enrolments ∧ (console.next move).2 = []) ∨
      ∃ attempt code now sid row answer, move = .answer attempt code now ∧
        console.reading attempt = some (sid, row) ∧ asked row code now = .ok answer ∧
        answer ≠ .refused ∧ (console.next move).2 = [⟨sid, answer⟩] ∧
        (console.next move).1.enrolments =
          Function.update console.enrolments sid ((console.enrolments sid).map answer.write) := by
  cases move with
  | read attempt sid => exact .inl ⟨rfl, rfl⟩
  | answer attempt code now =>
      cases hreading : console.reading attempt with
      | none =>
          left
          simp [Console.next, hreading]
      | some read =>
          obtain ⟨sid, row⟩ := read
          cases hasked : asked row code now with
          | error fault =>
              left
              simp [Console.next, hreading, hasked]
          | ok answer =>
              by_cases hrefused : answer = .refused
              · subst hrefused
                left
                simp [Console.next, hreading, hasked]
              · exact .inr ⟨attempt, code, now, sid, row, answer, rfl, hreading, hasked, hrefused,
                  next_answer hreading hasked hrefused⟩

theorem reading_next {attempt : Nat} {sid : String} {row : Enrolment}
    (h : (console.next move).1.reading attempt = some (sid, row)) :
    console.reading attempt = some (sid, row) ∨
      (console.next move).1.enrolments = console.enrolments ∧ (console.next move).2 = [] ∧
        console.enrolments sid = some row := by
  cases move with
  | read other sid' =>
      by_cases hsame : attempt = other
      · subst hsame
        simp only [Console.next, Function.update_self, Option.map_eq_some_iff] at h
        obtain ⟨found, hfound, heq⟩ := h
        cases heq
        exact .inr ⟨rfl, rfl, (Option.filter_eq_some_iff.mp hfound).1⟩
      · simp only [Console.next, Function.update_of_ne hsame] at h
        exact .inl h
  | answer other code now =>
      have hcleared : ∀ console' : Console,
          console'.reading = Function.update console.reading other none →
          console'.reading attempt = some (sid, row) → console.reading attempt = some (sid, row) := by
        intro console' hreading hread
        by_cases hsame : attempt = other
        · rw [hreading, hsame, Function.update_self] at hread
          cases hread
        · rwa [hreading, Function.update_of_ne hsame] at hread
      left
      cases hreading : console.reading other with
      | none =>
          simp only [Console.next, hreading] at h
          exact h
      | some read =>
          simp only [Console.next, hreading] at h
          split at h
          · exact hcleared _ rfl h
          · exact hcleared _ rfl h
          · exact hcleared _ rfl h

open Classical in
/-- The console when an attempt that would not be let in any more is sent away. -/
noncomputable def Console.guarded (console : Console) (move : Move) : Console × List Accepted :=
  if console.Fresh move then console.next move else (console, [])

theorem guarded_cases (console : Console) (move : Move) :
    ((console.guarded move).1.enrolments = console.enrolments ∧ (console.guarded move).2 = []) ∨
      ∃ sid row answer, console.enrolments sid = some row ∧ answer.Unused row ∧
        (console.guarded move).2 = [⟨sid, answer⟩] ∧
        (console.guarded move).1.enrolments =
          Function.update console.enrolments sid (some (answer.write row)) := by
  unfold Console.guarded
  split
  · rename_i hfresh
    rcases next_cases console move with hsame | ⟨attempt, code, now, sid, row, answer, rfl, hreading,
      hasked, haccepted, hgiven, henrolments⟩
    · exact .inl hsame
    · obtain ⟨row', hrow', hasked'⟩ := hfresh sid row hreading answer hasked haccepted
      rw [hrow'] at henrolments
      exact .inr ⟨sid, row', answer, hrow', unused_of_asked hasked' haccepted, hgiven, henrolments⟩
  · exact .inl ⟨rfl, rfl⟩

/-- Every enrolment is still there, and later. -/
def Console.Moved (console console' : Console) : Prop :=
  ∀ sid row, console.enrolments sid = some row →
    ∃ row', console'.enrolments sid = some row' ∧ LaterRow row row'

theorem moved_guarded (console : Console) (move : Move) :
    console.Moved (console.guarded move).1 := by
  intro sid row hrow
  rcases guarded_cases console move with ⟨hsame, _⟩ | ⟨sid', row', answer, hrow', hunused, _, hwritten⟩
  · exact ⟨row, hsame ▸ hrow, .refl row⟩
  · by_cases hsid : sid = sid'
    · subst hsid
      obtain rfl := Option.some.inj (hrow.symm.trans hrow')
      exact ⟨_, by rw [hwritten, Function.update_self], laterRow_write hunused⟩
    · exact ⟨row, by rw [hwritten, Function.update_of_ne hsid, hrow], .refl row⟩

theorem moved_run (start : Console) (moves : List Move) :
    start.Moved (Steps.run Console.guarded start moves).1 :=
  @Steps.run_relates _ _ _ Console.guarded (fun _ => True) Console.Moved
    (fun _ _ row hrow => ⟨row, hrow, .refl row⟩)
    (fun h h' sid row hrow => by
      obtain ⟨row', hrow', hlater⟩ := h sid row hrow
      obtain ⟨row'', hrow'', hlater'⟩ := h' sid row' hrow'
      exact ⟨row'', hrow'', hlater.trans hlater'⟩)
    (fun _ _ _ => trivial) (fun console move _ => moved_guarded console move) start trivial moves

variable {moves : List Move} {enrolments : String → Option Enrolment}

theorem run_guarded {start : Console}
    (h : ∀ before move after, moves = before ++ move :: after →
      (Steps.run Console.next start before).1.Fresh move) :
    Steps.run Console.guarded start moves = Steps.run Console.next start moves := by
  induction moves generalizing start with
  | nil => rfl
  | cons move moves ih =>
      have hhere : start.guarded move = start.next move := if_pos (h [] move moves rfl)
      have hlater := ih fun before later after heq => by
        have := h (move :: before) later after (by rw [heq]; rfl)
        rwa [Steps.run_cons] at this
      rw [Steps.run_cons, Steps.run_cons, hhere, hlater]

section
omit [Library] [Runtime]

theorem nodup_filterMap_singleton {α β : Type} (f : α → Option β) (a : α) :
    ([a].filterMap f).Nodup := by
  cases h : f a <;> simp [h]

theorem mem_steps {sid : String} {answer : Answer} {key : String × Int} :
    key ∈ [Accepted.mk sid answer].filterMap Accepted.step? ↔
      ∃ last, answer = .step last ∧ key = (sid, last) := by
  cases answer <;> simp [Accepted.step?]

theorem mem_codes {sid : String} {answer : Answer} {key : String × String} :
    key ∈ [Accepted.mk sid answer].filterMap Accepted.code? ↔
      ∃ used, answer = .recovery used ∧ key = (sid, used) := by
  cases answer <;> simp [Accepted.code?]

end

/-- The step has lapsed. -/
def Console.Past (console : Console) (key : String × Int) : Prop :=
  ∃ row, console.enrolments key.1 = some row ∧ lapsed row.lastStep key.2 = true

theorem step_spendsOnce :
    Steps.SpendsOnce Console.guarded (fun _ => True) Accepted.step? Console.Past where
  once console move _ := by
    rcases guarded_cases console move with ⟨_, hnone⟩ | ⟨sid, row, answer, _, _, hgiven, _⟩
    · simp [hnone]
    · rw [hgiven]
      exact nodup_filterMap_singleton _ _
  fresh console move _ key hkey := by
    rcases guarded_cases console move with ⟨_, hnone⟩ | ⟨sid, row, answer, hrow, hunused, hgiven, _⟩
    · simp [hnone] at hkey
    · rw [hgiven] at hkey
      obtain ⟨last, rfl, rfl⟩ := mem_steps.mp hkey
      rintro ⟨row', hrow', hlapsed⟩
      obtain rfl := Option.some.inj (hrow.symm.trans hrow')
      rw [hunused] at hlapsed
      cases hlapsed
  spends console move _ key hkey := by
    rcases guarded_cases console move with ⟨_, hnone⟩ |
      ⟨sid, row, answer, hrow, hunused, hgiven, hwritten⟩
    · simp [hnone] at hkey
    · rw [hgiven] at hkey
      obtain ⟨last, rfl, rfl⟩ := mem_steps.mp hkey
      exact ⟨_, by rw [hwritten, Function.update_self], lapsed_some.mpr le_rfl⟩
  stays console move _ key := by
    rintro ⟨row, hrow, hlapsed⟩
    obtain ⟨row', hrow', hlater⟩ := moved_guarded console move key.1 row hrow
    exact ⟨row', hrow', hlater.lastStep _ hlapsed⟩

/-- The recovery code has been used. -/
def Console.Used (console : Console) (key : String × String) : Prop :=
  ∃ row, console.enrolments key.1 = some row ∧ key.2 ∉ row.recoveryCodes

theorem code_spendsOnce :
    Steps.SpendsOnce Console.guarded (fun _ => True) Accepted.code? Console.Used where
  once console move _ := by
    rcases guarded_cases console move with ⟨_, hnone⟩ | ⟨sid, row, answer, _, _, hgiven, _⟩
    · simp [hnone]
    · rw [hgiven]
      exact nodup_filterMap_singleton _ _
  fresh console move _ key hkey := by
    rcases guarded_cases console move with ⟨_, hnone⟩ | ⟨sid, row, answer, hrow, hunused, hgiven, _⟩
    · simp [hnone] at hkey
    · rw [hgiven] at hkey
      obtain ⟨used, rfl, rfl⟩ := mem_codes.mp hkey
      rintro ⟨row', hrow', hused⟩
      obtain rfl := Option.some.inj (hrow.symm.trans hrow')
      exact hused hunused
  spends console move _ key hkey := by
    rcases guarded_cases console move with ⟨_, hnone⟩ |
      ⟨sid, row, answer, hrow, hunused, hgiven, hwritten⟩
    · simp [hnone] at hkey
    · rw [hgiven] at hkey
      obtain ⟨used, rfl, rfl⟩ := mem_codes.mp hkey
      exact ⟨_, by rw [hwritten, Function.update_self], by simp [Answer.write]⟩
  stays console move _ key := by
    rintro ⟨row, hrow, hused⟩
    obtain ⟨row', hrow', hlater⟩ := moved_guarded console move key.1 row hrow
    exact ⟨row', hrow', fun hcode => hused (hlater.codes _ hcode)⟩

theorem goodOnce_of_allFresh
    (h : AllFresh enrolments moves) : GoodOnce enrolments moves := by
  have hrun := run_guarded h
  refine ⟨?_, ?_, ?_⟩
  · rw [Console.after, ← hrun]
    exact (step_spendsOnce.run (fun _ _ _ => trivial) trivial moves).1
  · rw [Console.after, ← hrun]
    exact (code_spendsOnce.run (fun _ _ _ => trivial) trivial moves).1
  · rintro before between after rfl sid row hrow
    have hbetween : Steps.run Console.guarded (Console.after enrolments before).1 between =
        Steps.run Console.next (Console.after enrolments before).1 between := by
      refine run_guarded fun earlier move later heq => ?_
      have := h (before ++ earlier) move (later ++ after) (by simp [heq])
      rwa [Console.after, Steps.run_append] at this
    obtain ⟨row', hrow', hlater⟩ := moved_run (Console.after enrolments before).1 between sid row hrow
    rw [hbetween] at hrow'
    refine ⟨row', ?_, hlater.lastStep⟩
    rwa [Console.after, Steps.run_append]

/-- What an attempt has read differs from the enrolment only by what others were let in by. -/
def Console.Known (console : Console) (accepted : List Accepted) : Prop :=
  ∀ attempt sid row, console.reading attempt = some (sid, row) →
    ∃ row', console.enrolments sid = some row' ∧ LaterRow row row' ∧
      (∀ step, lapsed row'.lastStep step = true → lapsed row.lastStep step = false →
        ∃ last, row'.lastStep = some last ∧ (sid, last) ∈ accepted.filterMap Accepted.step?) ∧
      ∀ code ∈ row.recoveryCodes, code ∉ row'.recoveryCodes →
        (sid, code) ∈ accepted.filterMap Accepted.code?

theorem known_next {accepted : List Accepted} (h : console.Known accepted)
    (hfresh : console.Fresh move) :
    (console.next move).1.Known (accepted ++ (console.next move).2) := by
  intro attempt sid row hreading
  rcases reading_next hreading with hread | ⟨hsame, _, hrow⟩
  · obtain ⟨row', hrow', hlater, hsteps, hcodes⟩ := h attempt sid row hread
    have hguarded : console.guarded move = console.next move := if_pos hfresh
    rcases guarded_cases console move with ⟨hsame, hnone⟩ |
      ⟨sid', current, answer, hcurrent, hunused, hgiven, hwritten⟩
    · rw [hguarded] at hsame hnone
      rw [hnone, List.append_nil]
      exact ⟨row', by rw [hsame, hrow'], hlater, hsteps, hcodes⟩
    · rw [hguarded] at hgiven hwritten
      rw [hgiven, List.filterMap_append, List.filterMap_append]
      by_cases hsid : sid = sid'
      · subst hsid
        obtain rfl := Option.some.inj (hrow'.symm.trans hcurrent)
        refine ⟨_, by rw [hwritten, Function.update_self], hlater.trans (laterRow_write hunused),
          fun step hpast hnot => ?_, fun code hcode hused => ?_⟩
        · cases answer with
          | refused => exact hunused.elim
          | step last =>
              exact ⟨last, rfl, List.mem_append_right _ (mem_steps.mpr ⟨last, rfl, rfl⟩)⟩
          | recovery used =>
              obtain ⟨last, hlast, hmem⟩ := hsteps step hpast hnot
              exact ⟨last, hlast, List.mem_append_left _ hmem⟩
        · by_cases hthere : code ∈ row'.recoveryCodes
          · cases answer with
            | refused => exact hunused.elim
            | step last => exact absurd hthere hused
            | recovery used =>
                have hcode : code = used := by
                  by_contra hne
                  exact hused (List.mem_filter.mpr ⟨hthere, decide_eq_true hne⟩)
                exact List.mem_append_right _ (mem_codes.mpr ⟨used, rfl, by rw [hcode]⟩)
          · exact List.mem_append_left _ (hcodes code hcode hthere)
      · refine ⟨row', by rw [hwritten, Function.update_of_ne hsid, hrow'], hlater,
          fun step hpast hnot => ?_, fun code hcode hused => ?_⟩
        · obtain ⟨last, hlast, hmem⟩ := hsteps step hpast hnot
          exact ⟨last, hlast, List.mem_append_left _ hmem⟩
        · exact List.mem_append_left _ (hcodes code hcode hused)
  · refine ⟨row, by rw [hsame, hrow], .refl row, fun step hpast hnot => ?_, fun code hcode hused => ?_⟩
    · rw [hpast] at hnot
      cases hnot
    · exact absurd hcode hused

theorem known_after
    (h : AllFresh enrolments moves) :
    (Console.after enrolments moves).1.Known (Console.after enrolments moves).2 := by
  induction moves using List.reverseRecOn with
  | nil => exact fun _ _ _ hreading => absurd hreading (by nofun)
  | append_singleton moves move ih =>
      have hbefore : AllFresh enrolments moves := fun before next after heq =>
        h before next (after ++ [move]) (by simp [heq])
      have hknown := known_next (ih hbefore) (h moves move [] rfl)
      rwa [Console.after, Steps.run_concat]

theorem after_append (enrolments : String → Option Enrolment) (before moves : List Move) :
    Console.after enrolments (before ++ moves) =
      ((Steps.run Console.next (Console.after enrolments before).1 moves).1,
        (Console.after enrolments before).2 ++
          (Steps.run Console.next (Console.after enrolments before).1 moves).2) :=
  Steps.run_append _ before moves

theorem after_concat (enrolments : String → Option Enrolment) (before : List Move) (move : Move) :
    Console.after enrolments (before ++ [move]) =
      (((Console.after enrolments before).1.next move).1,
        (Console.after enrolments before).2 ++ ((Console.after enrolments before).1.next move).2) :=
  Steps.run_concat _ before move

theorem not_goodOnce_of_stale {before after : List Move}
    (hfresh : AllFresh enrolments before)
    (hstale : ¬ (Console.after enrolments before).1.Fresh move) :
    ¬ GoodOnce enrolments (before ++ move :: after) := by
  intro hgood
  have hmoves : before ++ move :: after = before ++ [move] ++ after := by simp
  cases move with
  | read attempt sid => exact hstale trivial
  | answer attempt code now =>
      simp only [Console.Fresh, not_forall] at hstale
      obtain ⟨sid, row, hreading, answer, hasked, haccepted, hnot⟩ := hstale
      obtain ⟨row', hrow', hlater, hsteps, hcodes⟩ := known_after hfresh attempt sid row hreading
      have hused : ¬ answer.Unused row' := fun hunused =>
        hnot ⟨row', hrow', asked_of_unused hlater hasked hunused⟩
      have hunused := unused_of_asked hasked haccepted
      obtain ⟨hgiven, hwritten⟩ := next_answer hreading hasked haccepted
      have hconcat := after_concat enrolments before (.answer attempt code now)
      rw [hgiven] at hconcat
      -- Everything given out up to this answer is given out by the whole run.
      have hsublist : List.Sublist ((Console.after enrolments before).2 ++ [⟨sid, answer⟩])
          (Console.after enrolments (before ++ Move.answer attempt code now :: after)).2 := by
        rw [hmoves, after_append, hconcat]
        exact List.sublist_append_left _ _
      have hsteps' := hgood.steps.sublist (hsublist.filterMap _)
      have hcodes' := hgood.codes.sublist (hsublist.filterMap _)
      rw [List.filterMap_append, List.nodup_append] at hsteps' hcodes'
      cases answer with
      | refused => exact hunused
      | step last =>
          obtain ⟨current, hcurrent, hmem⟩ := hsteps last (by simpa [Answer.Unused] using hused) hunused
          have hle : last ≤ current := by
            rw [← lapsed_some, ← hcurrent]
            simpa [Answer.Unused] using hused
          by_cases hsame : last = current
          · exact hsteps'.2.2 (sid, current) hmem (sid, last) (mem_steps.mpr ⟨last, rfl, rfl⟩)
              (by rw [hsame])
          · obtain ⟨row'', hrow'', hforward⟩ := hgood.forward before [.answer attempt code now] after
              hmoves sid row' hrow'
            rw [hconcat, hwritten, Function.update_self, hrow'] at hrow''
            cases hrow''
            have := hforward current (by rw [hcurrent]; exact lapsed_some.mpr le_rfl)
            rw [show (Answer.write (.step last) row').lastStep = some last from rfl,
              lapsed_some] at this
            omega
      | recovery used =>
          exact hcodes'.2.2 (sid, used) (hcodes used hunused hused) (sid, used)
            (mem_codes.mpr ⟨used, rfl, rfl⟩) rfl

/-- In an interleaving of any attempts, every step and every recovery code lets somebody in at most
once and the last step never goes back just when every attempt that lets somebody in does so by what
the enrolment still accepts when the attempt writes. -/
theorem goodOnce_iff (enrolments : String → Option Enrolment) (moves : List Move) :
    GoodOnce enrolments moves ↔ AllFresh enrolments moves := by
  refine ⟨fun hgood => ?_, goodOnce_of_allFresh⟩
  have hfirst : ∀ n before move after, before.length = n → moves = before ++ move :: after →
      (Console.after enrolments before).1.Fresh move := by
    intro n
    induction n using Nat.strong_induction_on with
    | _ n ih =>
        intro before move after hlength heq
        by_contra hstale
        have hbefore : AllFresh enrolments before := fun earlier next later hsplit =>
          ih earlier.length (by rw [← hlength, hsplit]; simp) earlier next
            (later ++ move :: after) rfl (by rw [heq, hsplit]; simp)
        exact not_goodOnce_of_stale hbefore hstale (heq ▸ hgood)
  exact fun before move after heq => hfirst _ before move after rfl heq

end

def seed : String := "12345678901234567890"

/-- The standard library on one secret and the first three steps. -/
@[reducible] def Library.firstSteps : Library where
  b32decode secret :=
    if secret = "GEZDGNBVGY3TQOJQGEZDGNBVGY3TQOJQ" then
      some (seed.toList.map fun c => UInt8.ofNat c.toNat)
    else none
  hmacSha1 _ message := match message with
    | [0, 0, 0, 0, 0, 0, 0, 0] => #v[204, 147, 207, 24, 80, 141, 148, 147, 76, 100, 182, 93, 139, 167,
        102, 127, 183, 205, 228, 176]
    | [0, 0, 0, 0, 0, 0, 0, 1] => #v[117, 164, 138, 25, 212, 203, 225, 0, 100, 78, 138, 193, 57, 126,
        234, 116, 122, 45, 51, 171]
    | [0, 0, 0, 0, 0, 0, 0, 2] => #v[11, 172, 183, 250, 8, 47, 239, 48, 120, 34, 17, 147, 139, 193,
        197, 231, 4, 22, 255, 68]
    | _ => Vector.replicate 20 0
  isdigit s := s ≠ "" && s.toList.all Char.isDigit

def enrolled : Enrolment where
  secret := "GEZDGNBVGY3TQOJQGEZDGNBVGY3TQOJQ"
  confirmed := true
  lastStep := none
  recoveryCodes := ["0a1b-2c3d-4e5f"]

def anna (sid : String) : Option Enrolment := if sid = "S-1-5-21-1104" then some enrolled else none

def bothWith (code : String) : List Move := [
  .read 1 "S-1-5-21-1104", .read 2 "S-1-5-21-1104", .answer 1 code 59000000, .answer 2 code 59000000]

/-- Two attempts that read the enrolment before either writes are both let in by the same code. -/
theorem both_let_in :
    letI := Library.firstSteps
    letI := Runtime.latin
    ¬ GoodOnce anna (bothWith "287082") ∧ ¬ GoodOnce anna (bothWith "0a1b-2c3d-4e5f") := by
  let _ := Library.firstSteps
  let _ := Runtime.latin
  constructor
  · intro hgood
    have hsteps : (Console.after anna (bothWith "287082")).2.filterMap Accepted.step? =
        [("S-1-5-21-1104", 1), ("S-1-5-21-1104", 1)] := by decide +kernel
    have hnodup := hgood.steps
    rw [hsteps] at hnodup
    exact absurd hnodup (by decide)
  · intro hgood
    have hcodes : (Console.after anna (bothWith "0a1b-2c3d-4e5f")).2.filterMap Accepted.code? =
        [("S-1-5-21-1104", "0a1b-2c3d-4e5f"), ("S-1-5-21-1104", "0a1b-2c3d-4e5f")] := by
      decide +kernel
    have hnodup := hgood.codes
    rw [hcodes] at hnodup
    exact absurd hnodup (by decide)

end OpenDirectory.Totp
