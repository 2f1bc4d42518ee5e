import OpenDirectory.Totp

/-! Whatever is typed for a code. What counts as a digit goes by Unicode, and the comparison that follows takes plain
texts only. -/

namespace OpenDirectory.Totp

section
variable [Library]

/-- Six characters that are digits of some script. -/
def sixDigits (text : String) : Bool := Library.isdigit text && text.length = digits

/-- The steps that are tried, as distances from the current one. -/
def drifts : List Int := [-driftSteps, 0, driftSteps]

/-- A code is accepted for a step later than the last one accepted, or it is refused. -/
def Answered (secret text : String) (lastStep : Option Int) (result : Except Fault Int) : Prop :=
  (∃ step, result = .ok step ∧ lapsed lastStep step = false ∧ codeFor secret step = .ok text) ∨
    result = .error .totpError

/-- When a code is asked for at all, by a secret that can be read and a step that is left, it is a plain text, and the
clock has left the first thirty seconds of 1970 behind. -/
def Plain (secret text : String) (lastStep : Option Int) (current : Int) : Prop :=
  sixDigits text = true → (Library.b32decode (padded secret)).isSome = true →
    (∃ offset ∈ drifts, lapsed lastStep (current + offset) = false) →
      ascii text = true ∧ (current = 0 → lapsed lastStep (-1) = true)

variable {secret text : String} {lastStep : Option Int} {current : Int} {offsets : List Int}

theorem codeFor_undecodable (h : Library.b32decode (padded secret) = none) (step : Int) :
    codeFor secret step = .error .totpError := by
  rw [codeFor, h]

omit [Library] in
theorem ascii_zfill (width number : Nat) : ascii (zfill width (toString number)) = true := by
  rw [ascii, zfill, String.toList_ofList, List.all_append, Bool.and_eq_true]
  constructor
  · exact List.all_eq_true.mpr fun c hc => by rw [List.eq_of_mem_replicate hc]; rfl
  · refine List.all_eq_true.mpr fun c hc => ?_
    rw [Nat.toString_eq_ofList_toDigits, String.toList_ofList] at hc
    have hdigit := Nat.isDigit_of_mem_toDigits (by decide) (by decide) hc
    simp only [Char.isDigit, Bool.and_eq_true, decide_eq_true_eq] at hdigit
    have hhigh : c.toNat ≤ 57 := UInt32.le_iff_toNat_le.mp hdigit.2
    exact decide_eq_true (by omega)

variable {key : List UInt8}

/-- What a secret that can be read gives for a step: a plain text, or nothing outside the range of the counter. -/
theorem codeFor_decoded (h : Library.b32decode (padded secret) = some key) (step : Int) :
    (0 ≤ step ∧ step < 2 ^ 64 → ∃ code, codeFor secret step = .ok code ∧ ascii code = true) ∧
      (¬ (0 ≤ step ∧ step < 2 ^ 64) → codeFor secret step = .error .structError) := by
  unfold codeFor pack
  rw [h]
  constructor
  · intro hrange
    rw [if_pos hrange]
    exact ⟨_, rfl, ascii_zfill _ _⟩
  · intro hrange
    rw [if_neg hrange]
    rfl

theorem verifyFrom_lapsed (h : ∀ offset ∈ offsets, lapsed lastStep (current + offset) = true) :
    verifyFrom secret text lastStep current offsets = .error .totpError := by
  induction offsets with
  | nil => rfl
  | cons offset offsets ih =>
      rw [List.forall_mem_cons] at h
      rw [verifyFrom_cons, if_pos h.1]
      exact ih h.2

theorem verifyFrom_answered (h : Library.b32decode (padded secret) = some key)
    (htext : ascii text = true) (hrange : ∀ offset ∈ offsets, lapsed lastStep (current + offset) = false →
      0 ≤ current + offset ∧ current + offset < 2 ^ 64) :
    Answered secret text lastStep (verifyFrom secret text lastStep current offsets) := by
  induction offsets with
  | nil => exact .inr rfl
  | cons offset offsets ih =>
      rw [List.forall_mem_cons] at hrange
      rw [verifyFrom_cons]
      cases hlapsed : lapsed lastStep (current + offset) with
      | true =>
          rw [if_pos rfl]
          exact ih hrange.2
      | false =>
          obtain ⟨code, hcode, hplain⟩ := (codeFor_decoded h _).1 (hrange.1 hlapsed)
          have hcompare : compareDigest code text = .ok (code = text) := if_pos (by rw [hplain, htext]; rfl)
          rw [if_neg Bool.false_ne_true, hcode]
          dsimp only
          rw [hcompare]
          by_cases heq : code = text
          · rw [decide_eq_true heq]
            exact .inl ⟨_, rfl, hlapsed, heq ▸ hcode⟩
          · rw [decide_eq_false heq]
            exact ih hrange.2

theorem verifyFrom_raises (h : Library.b32decode (padded secret) = some key)
    (htext : ascii text = false) (hleft : ∃ offset ∈ offsets, lapsed lastStep (current + offset) = false) :
    verifyFrom secret text lastStep current offsets = .error .structError ∨
      verifyFrom secret text lastStep current offsets = .error .typeError := by
  induction offsets with
  | nil =>
      obtain ⟨_, hmem, -⟩ := hleft
      exact absurd hmem List.not_mem_nil
  | cons offset offsets ih =>
      rw [verifyFrom_cons]
      cases hlapsed : lapsed lastStep (current + offset) with
      | true =>
          rw [if_pos rfl]
          obtain ⟨other, hmem, hother⟩ := hleft
          rcases List.mem_cons.mp hmem with rfl | hmem
          · rw [hlapsed] at hother
            cases hother
          · exact ih ⟨other, hmem, hother⟩
      | false =>
          rw [if_neg Bool.false_ne_true]
          by_cases hrange : 0 ≤ current + offset ∧ current + offset < 2 ^ 64
          · obtain ⟨code, hcode, -⟩ := (codeFor_decoded h _).1 hrange
            have hcompare : compareDigest code text = .error .typeError :=
              if_neg (by rw [htext, Bool.and_false]; exact Bool.false_ne_true)
            rw [hcode]
            dsimp only
            rw [hcompare]
            exact .inr rfl
          · rw [(codeFor_decoded h _).2 hrange]
            exact .inl rfl

theorem not_answered {result : Except Fault Int} (h : result = .error .structError ∨ result = .error .typeError) :
    ¬ Answered secret text lastStep result := by
  rintro (⟨_, hok, -⟩ | herror)
  · rcases h with h | h <;> rw [h] at hok <;> cases hok
  · rcases h with h | h <;> rw [h] at herror <;> cases herror

theorem verifyFrom_answered_iff {key : List UInt8} (h : Library.b32decode (padded secret) = some key)
    {current : Nat} (hcurrent : current < 2 ^ 63) (hleft : ∃ offset ∈ drifts, lapsed lastStep (current + offset) = false) :
    Answered secret text lastStep (verifyFrom secret text lastStep current drifts) ↔
      ascii text = true ∧ ((current : Int) = 0 → lapsed lastStep (-1) = true) := by
  cases htext : ascii text with
  | false => exact iff_of_false (not_answered (verifyFrom_raises h htext hleft)) fun hboth => by cases hboth.1
  | true =>
      simp only [true_and]
      by_cases hfirst : (current : Int) = 0 ∧ lapsed lastStep (-1) = false
      · refine iff_of_false ?_ fun hall => ?_
        · have hstep : (current : Int) + -(driftSteps : Int) = -1 := by rw [hfirst.1]; rfl
          have hraises : verifyFrom secret text lastStep current drifts = .error .structError := by
            rw [drifts, verifyFrom_cons, hstep, hfirst.2, if_neg Bool.false_ne_true,
              (codeFor_decoded h (-1)).2 (by omega)]
          exact not_answered (.inl hraises)
        · rw [hall hfirst.1] at hfirst
          cases hfirst.2
      · have hlapsed : (current : Int) = 0 → lapsed lastStep (-1) = true := by
          intro hzero
          by_contra hnot
          exact hfirst ⟨hzero, by simpa using hnot⟩
        refine iff_of_true (verifyFrom_answered h htext fun offset hmem hnot => ?_) hlapsed
        simp only [drifts, driftSteps, List.mem_cons, List.not_mem_nil, or_false] at hmem
        rcases hmem with rfl | rfl | rfl
        · have hpositive : (current : Int) ≠ 0 := by
            intro hzero
            rw [hzero] at hnot
            have := hlapsed hzero
            rw [show (0 : Int) + -((1 : Nat) : Int) = -1 from rfl, this] at hnot
            cases hnot
          omega
        · omega
        · omega

end

section
variable [Library] [Runtime]

theorem verify_answered_iff (secret code : String) (lastStep : Option Int) (now : UInt64) :
    Answered secret (typed code) lastStep (verify secret code lastStep now.toNat) ↔
      Plain secret (typed code) lastStep (now.toNat / (period * 1000000) : Nat) := by
  have hnow : now.toNat / (period * 1000000) < 2 ^ 63 := by
    have hbound := now.toNat_lt
    have hperiod : period * 1000000 = 30000000 := rfl
    rw [hperiod]
    omega
  unfold verify
  by_cases hsix : sixDigits (typed code) = true
  · have hform : (!Library.isdigit (typed code) || decide ((typed code).length ≠ digits)) = false := by
      rw [sixDigits, Bool.and_eq_true, decide_eq_true_eq] at hsix
      rw [hsix.1, decide_eq_false (not_not_intro hsix.2)]
      rfl
    rw [hform, if_neg Bool.false_ne_true]
    cases hkey : Library.b32decode (padded secret) with
    | none =>
        refine iff_of_true (.inr (verifyFrom_of_totpError (codeFor_undecodable hkey) _)) fun _ hsome => ?_
        rw [hkey] at hsome
        cases hsome
    | some key =>
        by_cases hleft : ∃ offset ∈ drifts,
            lapsed lastStep ((now.toNat / (period * 1000000) : Nat) + offset) = false
        · have hiff := @verifyFrom_answered_iff _ secret (typed code) lastStep key hkey _ hnow hleft
          refine hiff.trans ⟨fun h _ _ _ => h, fun h => h hsix (by rw [hkey]; rfl) hleft⟩
        · refine iff_of_true (.inr (verifyFrom_lapsed fun offset hmem => ?_)) fun _ _ h => absurd h hleft
          by_contra hnot
          exact hleft ⟨offset, hmem, by simpa using hnot⟩
  · have hform : (!Library.isdigit (typed code) || decide ((typed code).length ≠ digits)) = true := by
      rw [sixDigits] at hsix
      cases hdigit : Library.isdigit (typed code) with
      | false => rfl
      | true =>
          rw [hdigit, Bool.true_and, decide_eq_true_eq] at hsix
          rw [decide_eq_true hsix]
          rfl
    rw [hform, if_pos rfl]
    exact iff_of_true (.inr rfl) fun h => absurd h hsix

omit [Library] in
theorem matchesRecovery_iff (codes : List String) (candidate : String) :
    (∃ found, matchesRecovery codes candidate = .ok found) ↔
      ∀ code ∈ codes, ascii code = true ∧ ascii (lower (Text.strip Runtime.blank candidate)) = true := by
  unfold matchesRecovery
  constructor
  · rintro ⟨found, h⟩ code hcode
    have hplain := (foldlM_compare.mp h).1 code hcode
    rwa [Bool.and_eq_true] at hplain
  · intro h
    exact ⟨_, foldlM_compare.mpr ⟨fun code hcode => by rw [(h code hcode).1, (h code hcode).2]; rfl, rfl⟩⟩

/-- Whatever is typed is answered, by a code or by an error that says so, exactly when it is a plain text where it
matters: for a time-based code when six characters count as digits, for a recovery code when there is one to compare. -/
theorem answered_iff (secret code : String) (lastStep : Option Int) (now : UInt64) (codes : List String) :
    (Answered secret (typed code) lastStep (verify secret code lastStep now.toNat) ↔
        Plain secret (typed code) lastStep (now.toNat / (period * 1000000) : Nat)) ∧
      ((∃ found, matchesRecovery codes code = .ok found) ↔
        ∀ recovery ∈ codes, ascii recovery = true ∧ ascii (lower (Text.strip Runtime.blank code)) = true) :=
  ⟨verify_answered_iff secret code lastStep now, matchesRecovery_iff codes code⟩

end

/-- The standard library where digits of the Arabic script are digits as well. -/
@[reducible] def Library.arabic : Library where
  b32decode := Library.firstSteps.b32decode
  hmacSha1 := Library.firstSteps.hmacSha1
  isdigit s := s ≠ "" && s.toList.all fun c => c.isDigit || ('\u0660' ≤ c && c ≤ '\u0669')

/-- Six digits of the Arabic script are digits, and the comparison raises what nothing catches. -/
theorem arabic_digits_raise :
    letI := Library.arabic
    letI := Runtime.latin
    ¬ Answered enrolled.secret (typed "\u0661\u0662\u0663\u0664\u0665\u0666") none
        (verify enrolled.secret "\u0661\u0662\u0663\u0664\u0665\u0666" none 60000000) ∧
      ¬ ∃ found, matchesRecovery enrolled.recoveryCodes "\u0661\u0662\u0663\u0664\u0665\u0666" = .ok found := by
  let _ := Library.arabic
  let _ := Runtime.latin
  constructor
  · have hraises : verify enrolled.secret "\u0661\u0662\u0663\u0664\u0665\u0666" none 60000000 =
        .error .typeError := by decide +kernel
    exact not_answered (.inr hraises)
  · rintro ⟨found, h⟩
    have hraises : matchesRecovery enrolled.recoveryCodes "\u0661\u0662\u0663\u0664\u0665\u0666" =
        .error .typeError := by decide +kernel
    rw [hraises] at h
    cases h

end OpenDirectory.Totp
