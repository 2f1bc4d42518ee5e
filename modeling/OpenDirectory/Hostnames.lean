import OpenDirectory.Naming

/-! The table of names handed out, over its whole life: which templates are accepted, what a filled-in
template reads back as, and when a machine is given a name that nobody else has. -/

namespace OpenDirectory.Naming

variable [Runtime]

/-- A letter, a digit or a dash. -/
def isPlain (c : Char) : Bool := c.isAlphanum || c == '-'

/-- What may follow the placeholder. The pattern's end also matches before a final line break. -/
def endsPlain (rest : List Char) : Bool :=
  rest.all isPlain || rest.getLast? = some '\n' && rest.dropLast.all isPlain

def matchesTemplate (chars : List Char) : Bool :=
  let rest := chars.dropWhile isPlain
  endsPlain rest || serialMark.isPrefixOf rest && endsPlain (rest.drop serialMark.length) ||
    (numberAt rest).any fun (_, after) => endsPlain after

def validateTemplate (template : String) : Except Raised String :=
  let template := Text.strip Runtime.blank template
  if template.isEmpty || template.length > 40 || !matchesTemplate template.toList then
    .error .valueError
  else if !Text.holds template "\x7bn" && !Text.holds template "\x7bserial\x7d" then
    .error .valueError
  else .ok template

/-- What Python and the database do to texts of the basic Latin alphabet: letters are put in lower
case one by one, and the ten digits are read as numbers. -/
structure ReadsLatin : Prop where
  lower : ∀ chars : List Char, (∀ c ∈ chars, c.toNat < 128) →
    lower (String.ofList chars) = String.ofList (chars.map Char.toLower)
  digit : ∀ c : Char, c.isDigit = true → Runtime.digit c = some (c.toNat - 48)

variable {c : Char} {width : Nat}

section
omit [Runtime]

theorem latin_of_plain (h : isPlain c = true) : c.toNat < 128 ∧ c ≠ '\x7b' := by
  simp only [isPlain, Char.isAlphanum, Char.isAlpha, Char.isUpper, Char.isLower, Char.isDigit,
    Bool.or_eq_true, Bool.and_eq_true, decide_eq_true_eq, beq_iff_eq, UInt32.le_iff_toNat_le] at h
  have hval : c.toNat = c.val.toNat := rfl
  constructor
  · rcases h with ((⟨_, h⟩ | ⟨_, h⟩) | ⟨_, h⟩) | rfl
    · exact hval ▸ lt_of_le_of_lt h (by decide)
    · exact hval ▸ lt_of_le_of_lt h (by decide)
    · exact hval ▸ lt_of_le_of_lt h (by decide)
    · decide
  · rintro rfl
    revert h
    decide

theorem latin_of_endsPlain {rest : List Char} (h : endsPlain rest = true) :
    ∀ c ∈ rest, c.toNat < 128 ∧ c ≠ '\x7b' := by
  simp only [endsPlain, Bool.or_eq_true, Bool.and_eq_true, List.all_eq_true, decide_eq_true_eq] at h
  intro c hc
  rcases h with hplain | ⟨hlast, hplain⟩
  · exact latin_of_plain (hplain c hc)
  · have hne : rest ≠ [] := List.ne_nil_of_mem hc
    rw [List.getLast?_eq_some_getLast hne, Option.some.injEq] at hlast
    rw [← List.dropLast_append_getLast hne, List.mem_append, hlast, List.mem_singleton] at hc
    rcases hc with hc | rfl
    · exact latin_of_plain (hplain c hc)
    · decide

theorem cutAt_append {m : Char} {before : List Char} (mark rest : List Char) (h : ∀ c ∈ before, c ≠ m) :
    Text.cutAt (m :: mark) (before ++ rest) =
      (Text.cutAt (m :: mark) rest).map fun parts => (before ++ parts.1, parts.2) := by
  induction before with
  | nil => simp
  | cons c before ih =>
      have hc : (m :: mark).isPrefixOf (c :: (before ++ rest)) = false := by
        rw [List.isPrefixOf_cons_cons, beq_false_of_ne (h c List.mem_cons_self).symm, Bool.false_and]
      rw [List.cons_append, Text.cutAt, if_neg (hc ▸ Bool.false_ne_true), ih fun d hd => h d (.tail _ hd),
        Option.map_map]
      rfl

theorem cutAt_absent {m : Char} {mark chars : List Char} (h : ∀ c ∈ chars, c ≠ m) :
    Text.cutAt (m :: mark) chars = none := by
  have := cutAt_append mark [] h
  rwa [List.append_nil] at this

end

theorem findNumber_append {before rest : List Char} (h : ∀ c ∈ before, c ≠ '\x7b') :
    findNumber (before ++ rest) = (findNumber rest).map fun template =>
      { template with before := before ++ template.before } := by
  induction before with
  | nil => simp
  | cons c before ih =>
      have hc : numberAt (c :: (before ++ rest)) = none := by
        unfold numberAt
        split
        · rename_i heq
          exact absurd (List.cons.inj heq).1 (h c List.mem_cons_self)
        · rename_i heq
          exact absurd (List.cons.inj heq).1 (h c List.mem_cons_self)
        · rfl
      rw [List.cons_append, findNumber, hc]
      dsimp only
      rw [ih fun d hd => h d (.tail _ hd), Option.map_map]
      rfl

/-- What stands before and after the placeholder is text of the basic Latin alphabet. -/
def Template.Latin (template : Template) : Prop :=
  (∀ c ∈ template.before, c.toNat < 128) ∧ ∀ c ∈ template.after, c.toNat < 128

theorem parse_serial {before after : List Char} (hbefore : ∀ c ∈ before, c ≠ '\x7b') :
    parse (String.ofList (before ++ (serialMark ++ after))) = some ⟨before, .serial, after⟩ := by
  have hcut : Text.cutAt serialMark (serialMark ++ after) = some ([], after) := rfl
  have hcut' := cutAt_append serialMark.tail (serialMark ++ after) hbefore
  have hmark : '\x7b' :: serialMark.tail = serialMark := rfl
  rw [hmark, hcut, Option.map_some, List.append_nil] at hcut'
  rw [parse, String.toList_ofList, hcut']

omit [Runtime] in
theorem serialMark_chars : serialMark = ['\x7b', 's', 'e', 'r', 'i', 'a', 'l', '\x7d'] := by decide

omit [Runtime] in
theorem cutAt_cons {mark rest : List Char} (h : mark.isPrefixOf (c :: rest) = false) :
    Text.cutAt mark (c :: rest) = (Text.cutAt mark rest).map fun parts => (c :: parts.1, parts.2) := by
  rw [Text.cutAt, h]
  rfl

theorem cutAt_number {rest after : List Char} (hnumber : numberAt rest = some (width, after))
    (hafter : ∀ c ∈ after, c ≠ '\x7b') : Text.cutAt serialMark rest = none := by
  have habsent : ∀ tail : List Char, (∀ c ∈ tail, c ≠ '\x7b') → Text.cutAt serialMark tail = none := by
    intro tail htail
    rw [serialMark_chars]
    exact cutAt_absent htail
  unfold numberAt at hnumber
  split at hnumber
  · cases hnumber
    rw [cutAt_cons (by rw [serialMark_chars]; rfl), habsent _ (by simpa using hafter)]
    rfl
  · rename_i d tail
    obtain ⟨_, _, heq⟩ := Option.map_eq_some_iff.mp hnumber
    cases heq
    have hd : serialMark.isPrefixOf (d :: '\x7d' :: after) = false := by
      rw [serialMark_chars, List.isPrefixOf_cons_cons]
      exact Bool.and_false _
    rw [cutAt_cons (by rw [serialMark_chars]; rfl), cutAt_cons (by rw [serialMark_chars]; rfl),
      cutAt_cons (by rw [serialMark_chars]; rfl), cutAt_cons hd, habsent _ (by simpa using hafter)]
    rfl
  · cases hnumber

theorem parse_number {before rest after : List Char} (hbefore : ∀ c ∈ before, c ≠ '\x7b')
    (hnumber : numberAt rest = some (width, after)) (hafter : ∀ c ∈ after, c ≠ '\x7b') :
    parse (String.ofList (before ++ rest)) = some ⟨before, .number width, after⟩ := by
  have hfind : findNumber rest = some ⟨[], .number width, after⟩ := by
    cases rest with
    | nil => cases hnumber
    | cons c rest => rw [findNumber, hnumber]
  have hcut' := cutAt_append serialMark.tail rest hbefore
  have hmark : '\x7b' :: serialMark.tail = serialMark := rfl
  rw [hmark, cutAt_number hnumber hafter, Option.map_none] at hcut'
  rw [parse, String.toList_ofList, hcut']
  dsimp only
  rw [findNumber_append hbefore, hfind, Option.map_some, List.append_nil]

theorem parse_of_accepted {raw text : String} (h : validateTemplate raw = .ok text) :
    ∃ template, parse text = some template ∧ template.Latin := by
  unfold validateTemplate at h
  dsimp only at h
  split at h
  · cases h
  rename_i hmatches
  split at h
  · cases h
  rename_i hholds
  cases h
  generalize Text.strip Runtime.blank raw = text at hmatches hholds ⊢
  have hbefore : ∀ c ∈ text.toList.takeWhile isPlain, c.toNat < 128 ∧ c ≠ '\x7b' :=
    fun c hc => latin_of_plain (List.mem_takeWhile_imp hc)
  have hchars : text = String.ofList (text.toList.takeWhile isPlain ++ text.toList.dropWhile isPlain) := by
    rw [List.takeWhile_append_dropWhile, String.ofList_toList]
  simp only [Bool.or_eq_true, not_or, Bool.not_eq_true', Bool.not_eq_false, matchesTemplate] at hmatches
  have hmatches := hmatches.2
  simp only [Bool.and_eq_true] at hmatches
  rcases hmatches with (hnone | ⟨hserial, hafter⟩) | hnumber
  · refine absurd ?_ hholds
    have habsent : ∀ c ∈ text.toList, c ≠ '\x7b' := by
      intro c hc
      rw [← List.takeWhile_append_dropWhile (p := isPlain) (l := text.toList), List.mem_append] at hc
      exact hc.elim (fun hc => (hbefore c hc).2) fun hc => (latin_of_endsPlain hnone c hc).2
    have hn : Text.holds text "\x7bn" = false := congrArg Option.isSome (cutAt_absent habsent)
    have hs : Text.holds text "\x7bserial\x7d" = false := congrArg Option.isSome (cutAt_absent habsent)
    rw [hn, hs]
    rfl
  · obtain ⟨after, hrest⟩ := List.isPrefixOf_iff_prefix.mp hserial
    rw [← hrest, List.drop_left] at hafter
    rw [hchars, ← hrest]
    exact ⟨_, parse_serial fun c hc => (hbefore c hc).2, fun c hc => (hbefore c hc).1,
      fun c hc => (latin_of_endsPlain hafter c hc).1⟩
  · obtain ⟨⟨width, after⟩, hat, hafter⟩ := (Option.any_eq_true _ _).mp hnumber
    rw [hchars]
    exact ⟨_, parse_number (fun c hc => (hbefore c hc).2) hat fun c hc =>
      (latin_of_endsPlain hafter c hc).2, fun c hc => (hbefore c hc).1,
      fun c hc => (latin_of_endsPlain hafter c hc).1⟩

omit [Runtime] in
theorem digits_of_zfill {n : Nat} : ∀ c ∈ zfill width n, c.isDigit = true := by
  intro c hc
  rcases List.mem_append.mp hc with hzero | hdigit
  · rw [List.eq_of_mem_replicate hzero]
    rfl
  · rw [Nat.toString_eq_ofList_toDigits, String.toList_ofList] at hdigit
    exact Nat.isDigit_of_mem_toDigits (by decide) (by decide) hdigit

theorem digits_zfill (hlatin : ReadsLatin) (width n : Nat) :
    (zfill width n).filterMap Runtime.digit = (zfill width n).map fun c => c.toNat - 48 := by
  rw [← List.filterMap_eq_map]
  apply List.filterMap_congr
  intro c hc
  exact hlatin.digit c (digits_of_zfill c hc)

theorem numberOf_zfill (hlatin : ReadsLatin) (width n : Nat) : numberOf (zfill width n) = n := by
  rw [numberOf, digits_zfill hlatin, List.foldl_map]
  calc (zfill width n).foldl (fun m c => 10 * m + (c.toNat - 48)) 0
      = Nat.ofDigitChars 10 (zfill width n) 0 := Nat.ofDigitChars_eq_foldl.symm
    _ = Nat.ofDigitChars 10 (Nat.toDigits 10 n) 0 := by
        rw [zfill, Nat.ofDigitChars_append, Nat.ofDigitChars_replicate_zero, Nat.mul_zero,
          Nat.toString_eq_ofList_toDigits, String.toList_ofList]
    _ = n := Nat.ofDigitChars_ten_toDigits

theorem middle_append (template : Template) (part : List Char) :
    middle template (template.before ++ part ++ template.after) = some part := by
  have hstop : (template.before ++ part ++ template.after).length - template.after.length =
      (template.before ++ part).length := by
    rw [List.length_append, Nat.add_sub_cancel]
  have htake : (template.before ++ part ++ template.after).take template.before.length =
      template.before := by
    rw [List.append_assoc, List.take_left]
  unfold middle
  dsimp only
  rw [hstop, htake, List.drop_left, List.take_left, List.drop_left, if_pos]
  refine ⟨?_, decide_eq_true rfl, decide_eq_true rfl⟩
  simp only [List.length_append]
  omega

theorem toList_render {template : Template}
    (hwidth : template.placeholder = .number width) (n : Nat) (serial : String) :
    (render template n serial).toList = template.before ++ zfill width n ++ template.after := by
  rw [render, hwidth, String.toList_ofList]

theorem filling_render (hlatin : ReadsLatin) {template : Template}
    (hwidth : template.placeholder = .number width) (n : Nat) (serial : String) :
    filling template (render template n serial) = some (zfill width n) := by
  have hfills : fills template.placeholder (zfill width n) = true := by
    have hne : zfill width n ≠ [] := by
      intro hnil
      have hdigits := (List.append_eq_nil_iff.mp hnil).2
      rw [Nat.toString_eq_ofList_toDigits, String.toList_ofList] at hdigits
      exact Nat.toDigits_ne_nil hdigits
    rw [hwidth, fills, Bool.and_eq_true, Bool.not_eq_true', List.isEmpty_eq_false_iff, List.all_eq_true]
    refine ⟨hne, fun c hc => ?_⟩
    rw [hlatin.digit c (digits_of_zfill c hc), Option.isSome_some]
  rw [filling, toList_render hwidth, List.findSome?_cons, middle_append, Option.filter_some, if_pos hfills]

omit [Runtime] in
theorem latin_of_isDigit (h : c.isDigit = true) : c.toNat < 128 := by
  have hplain : isPlain c = true := by
    rw [isPlain, Char.isAlphanum, h, Bool.or_true, Bool.true_or]
  exact (latin_of_plain hplain).1

omit [Runtime] in
theorem toLower_of_isDigit (h : c.isDigit = true) : c.toLower = c := by
  apply Char.toLower_eq_of_not_isUpper
  intro hupper
  simp only [Char.isDigit, Char.isUpper, Bool.and_eq_true, decide_eq_true_eq, ge_iff_le,
    UInt32.le_iff_toNat_le] at h hupper
  exact absurd (hupper.1.trans h.2) (by decide)

theorem render_inj (hlatin : ReadsLatin) {template : Template} (hends : template.Latin)
    (hwidth : template.placeholder = .number width) {n m : Nat} {serial serial' : String}
    (h : lower (render template n serial) = lower (render template m serial')) : n = m := by
  have hchars : ∀ n serial, (lower (render template n serial)).toList =
      template.before.map Char.toLower ++ (zfill width n).map Char.toLower ++
        template.after.map Char.toLower := by
    intro n serial
    rw [← String.ofList_toList (s := render template n serial), toList_render hwidth, hlatin.lower,
      String.toList_ofList, List.map_append, List.map_append]
    intro c hc
    rcases List.mem_append.mp hc with hc | hc
    · rcases List.mem_append.mp hc with hc | hc
      · exact hends.1 c hc
      · exact latin_of_isDigit (digits_of_zfill c hc)
    · exact hends.2 c hc
  have hlower : ∀ n, (zfill width n).map Char.toLower = zfill width n := by
    intro n
    rw [List.map_congr_left fun c hc => toLower_of_isDigit (digits_of_zfill c hc), List.map_id']
  have h := congrArg String.toList h
  rw [hchars, hchars, hlower, hlower] at h
  have hzfill := List.append_cancel_left (List.append_cancel_right h)
  rw [← numberOf_zfill hlatin width n, hzfill, numberOf_zfill hlatin]

theorem serial_of_clean (hlatin : ReadsLatin) (serial : String) :
    cleanSerial serial ≠ [] ∧ ∀ c ∈ cleanSerial serial, isSerialChar c = true := by
  have hserial : ∀ c : Char, c.isAlphanum = true → isSerialChar c.toLower = true := by
    intro c hc
    have hplain : ∀ d : Char, d.isAlphanum = true → d.toNat < 128 := by
      intro d hd
      exact (latin_of_plain (by rw [isPlain, hd, Bool.true_or])).1
    have hlower : c.toLower.isAlphanum = true := by
      rw [Char.isAlphanum, Bool.or_eq_true] at hc ⊢
      rcases hc with halpha | hdigit
      · exact .inl (by rw [Char.isAlpha_toLower_eq_isAlpha, halpha])
      · exact .inr (by rw [toLower_of_isDigit hdigit, hdigit])
    have hsame : c.toLower.toLower = c.toLower := Char.toLower_toLower_eq_toLower c
    have hneither : c.toLower.isUpper = false := by
      rw [Bool.eq_false_iff]
      exact fun hupper => absurd hupper (by rw [Char.isUpper_toLower_eq_false]; exact Bool.false_ne_true)
    unfold isSerialChar
    rw [show String.singleton c.toLower = String.ofList [c.toLower] from rfl,
      hlatin.lower _ (by simpa using hplain _ hlower), String.toList_ofList, List.map_singleton, hsame]
    rw [Char.isAlphanum, Char.isAlpha, hneither, Bool.false_or] at hlower
    simpa using hlower
  have hlatin' : ∀ c ∈ serial.toList.filter (fun c => c.isAlphanum), c.toNat < 128 := by
    intro c hc
    exact (latin_of_plain (by rw [isPlain, (List.mem_filter.mp hc).2, Bool.true_or])).1
  unfold cleanSerial
  dsimp only
  rw [hlatin.lower _ hlatin', String.toList_ofList]
  split_ifs with hempty
  · refine ⟨by decide, fun c hc => ?_⟩
    have hunknown : "unknown".toList.all (fun c => c.isAlphanum && c.toLower = c) = true := by decide
    obtain ⟨hplain, hsame⟩ := Bool.and_eq_true_iff.mp (List.all_eq_true.mp hunknown c hc)
    rw [← of_decide_eq_true hsame]
    exact hserial c hplain
  · refine ⟨fun hnil => hempty (by rw [hnil]; rfl), fun c hc => ?_⟩
    obtain ⟨d, hd, rfl⟩ := List.mem_map.mp (List.mem_of_mem_take hc)
    exact hserial d (List.mem_filter.mp hd).2

theorem fits_serial (hlatin : ReadsLatin) {template : Template} (hserial : template.placeholder = .serial) (n : Nat)
    (serial : String) : fits template (render template n serial) = true := by
  obtain ⟨hne, hclean⟩ := serial_of_clean hlatin serial
  have hfills : fills template.placeholder (cleanSerial serial) = true := by
    rw [hserial, fills, Bool.and_eq_true, Bool.not_eq_true', List.isEmpty_eq_false_iff]
    exact ⟨hne, List.all_eq_true.mpr hclean⟩
  have hrender : (render template n serial).toList = template.before ++ cleanSerial serial ++ template.after := by
    rw [render, hserial, String.toList_ofList]
  rw [fits, filling, hrender, List.findSome?_cons, middle_append, Option.filter_some, if_pos hfills]
  rfl

/-- A name made of an accepted template fits it, and the number is read back from it, however the pattern is matched. -/
theorem rendered_fits (hlatin : ReadsLatin) {raw text : String} (haccepted : validateTemplate raw = .ok text) :
    ∃ template, parse text = some template ∧ (∀ n serial, fits template (render template n serial) = true) ∧
      ∀ width, template.placeholder = .number width →
        (∀ n serial, (filling template (render template n serial)).map numberOf = some n) ∧
        (∀ n serial before part after, (render template n serial).toList = before ++ part ++ after →
          before.length = template.before.length → after.length = template.after.length → numberOf part = n) ∧
        ∀ n m serial serial', render template n serial = render template m serial' → n = m := by
  obtain ⟨template, hparse, hends⟩ := parse_of_accepted haccepted
  refine ⟨template, hparse, fun n serial => ?_, fun width hwidth => ⟨fun n serial => ?_, ?_, ?_⟩⟩
  · cases hplaceholder : template.placeholder with
    | serial => exact fits_serial hlatin hplaceholder n serial
    | number width =>
        rw [fits, filling_render hlatin hplaceholder]
        rfl
  · rw [filling_render hlatin hwidth, Option.map_some, numberOf_zfill hlatin]
  · intro n serial before part after hsplit hbefore hafter
    rw [toList_render hwidth] at hsplit
    obtain ⟨hfront, -⟩ := List.append_inj' hsplit hafter.symm
    obtain ⟨-, rfl⟩ := List.append_inj hfront hbefore.symm
    exact numberOf_zfill hlatin width n
  · intro n m serial serial' h
    exact render_inj hlatin hends hwidth (congrArg lower h)

structure Computer where
  dn : String
  cn : String
  deriving DecidableEq

/-- One past the highest number handed out under a template. -/
def nextHanded (rows : List Assignment) (text : String) (template : Template) : Nat :=
  ((rows.filter (·.template = text)).map fun row =>
    ((filling template row.name).map numberOf).getD 0).foldl max 0 + 1

/-- The name the next machine is given under a template. -/
def inLine (rows : List Assignment) (text : String) (template : Template) (serial : String) : String :=
  render template (nextHanded rows text template) serial

inductive Move where
  | assign (directory : List Computer) (dn current template serial : String)
  | rename (old new : String)

/-- The rows of a machine follow it to its new name, unless two rows would be one machine's. -/
def renamed (rows : List Assignment) (old new : String) : List Assignment :=
  let after := rows.map fun row =>
    if lower row.computerDn = lower old then { row with computerDn := new } else row
  if (after.map Assignment.computerDn).Nodup then after else rows

def step (rows : List Assignment) : Move → List Assignment
  | .assign directory dn current template serial =>
      match validateTemplate template with
      | .error _ => rows
      | .ok text =>
          match assign (directory.map Computer.cn) rows dn current text serial with
          | .error _ => rows
          | .ok (_, after) => after
  | .rename old new => renamed rows old new

theorem nextNumber_eq (computers : List String) (rows : List Assignment) (text : String)
    (template : Template) : nextNumber computers rows text template = nextHanded rows text template := by
  rw [nextNumber, nextHanded, search, List.take_zero, List.map_nil, List.nil_append, List.map_map]
  rfl

section Assign

variable {computers : List String} {rows after : List Assignment} {dn current text serial : String}
  {template : Template} {wanted : Option String}

theorem assign_recorded (hparse : parse text = some template) (hfits : fits template current = false)
    {row : Assignment} (hrow : recorded rows dn = some row) (htemplate : row.template = text) :
    assign computers rows dn current text serial = .ok (some row.name, rows) := by
  simp only [assign, hparse, hfits, hrow, htemplate, if_true]
  rfl

theorem assign_fresh (hparse : parse text = some template) (hfits : fits template current = false)
    (hrow : ∀ row, recorded rows dn = some row → row.template ≠ text) :
    assign computers rows dn current text serial =
      (upsert rows ⟨dn, inLine rows text template serial, text⟩).map fun after =>
        (some (inLine rows text template serial), after) := by
  unfold assign inLine
  cases hrecorded : recorded rows dn with
  | none =>
      simp only [hparse, hfits, nextNumber_eq]
      rfl
  | some row =>
      simp only [hparse, hfits, nextNumber_eq, if_neg (hrow row hrecorded)]
      rfl

theorem assign_cases (hparse : parse text = some template)
    (h : assign computers rows dn current text serial = .ok (wanted, after)) :
    after = rows ∨ upsert rows ⟨dn, inLine rows text template serial, text⟩ = .ok after := by
  cases hfits : fits template current with
  | true =>
      simp only [assign, hparse, hfits, if_true] at h
      cases h
      exact .inl rfl
  | false =>
      by_cases hrow : ∀ row, recorded rows dn = some row → row.template ≠ text
      · rw [assign_fresh hparse hfits hrow] at h
        obtain ⟨_, hupsert, heq⟩ := Except.map_eq_ok.mp h
        cases heq
        exact .inr hupsert
      · push Not at hrow
        obtain ⟨row, hrow, htemplate⟩ := hrow
        rw [assign_recorded hparse hfits hrow htemplate] at h
        cases h
        exact .inl rfl

theorem mem_upsert {row other : Assignment} (h : upsert rows row = .ok after) (hmem : other ∈ after) :
    other ∈ rows ∨ other = row := by
  unfold upsert at h
  dsimp only at h
  split at h
  · cases h
  · split at h
    · cases h
      exact (List.mem_append.mp hmem).imp_right List.mem_singleton.mp
    · cases h
      obtain ⟨before, hbefore, rfl⟩ := List.mem_map.mp hmem
      split
      · exact .inr rfl
      · exact .inl hbefore

theorem upsert_ok_iff (row : Assignment) : (∃ after, upsert rows row = .ok after) ↔
    ∀ other ∈ rows, other.computerDn ≠ row.computerDn → lower other.name ≠ lower row.name := by
  unfold upsert
  dsimp only
  have hany : ((rows.filter fun other => other.computerDn ≠ row.computerDn).any fun other =>
      lower other.name = lower row.name) = true ↔
        ¬ ∀ other ∈ rows, other.computerDn ≠ row.computerDn → lower other.name ≠ lower row.name := by
    simp [List.any_eq_true]
  split
  · rename_i hclash
    exact iff_of_false nofun (hany.mp hclash)
  · rename_i hclash
    refine iff_of_true ?_ (not_not.mp fun h => hclash (hany.mpr h))
    split
    · exact ⟨_, rfl⟩
    · exact ⟨_, rfl⟩

end Assign

/-- Every name in the table is its template filled in. -/
def Handed (rows : List Assignment) : Prop :=
  ∀ row ∈ rows, ∃ template n serial, parse row.template = some template ∧ template.Latin ∧
    row.name = render template n serial

theorem handed_step {rows : List Assignment} (h : Handed rows) (move : Move) : Handed (step rows move) := by
  cases move with
  | rename old new =>
      unfold step renamed
      dsimp only
      split
      · intro row hrow
        obtain ⟨before, hbefore, rfl⟩ := List.mem_map.mp hrow
        split
        · exact h before hbefore
        · exact h before hbefore
      · exact h
  | assign directory dn current raw serial =>
      simp only [step]
      cases haccepted : validateTemplate raw with
      | error _ => exact h
      | ok text =>
          obtain ⟨template, hparse, hlatin⟩ := parse_of_accepted haccepted
          dsimp only
          cases hassign : assign (directory.map Computer.cn) rows dn current text serial with
          | error _ => exact h
          | ok answer =>
              rcases assign_cases hparse hassign with heq | hupsert
              · exact heq ▸ h
              · intro row hrow
                rcases mem_upsert hupsert hrow with hrow | rfl
                · exact h row hrow
                · exact ⟨template, _, serial, hparse, hlatin, rfl⟩

theorem handed_run (moves : List Move) : Handed (moves.foldl step []) :=
  List.foldlRecOn moves step nofun fun _ h move _ => handed_step h move

section Unshared

variable (directory : List Computer) (rows : List Assignment) (dn name : String)

/-- No other computer of the directory is called so. -/
def Uncalled : Prop := ∀ computer ∈ directory, lower computer.dn ≠ lower dn →
  lower (short computer.cn) ≠ lower name

/-- No other machine was given the name. -/
def Ungiven : Prop := ∀ row ∈ rows, lower row.computerDn ≠ lower dn → lower row.name ≠ lower name

/-- A machine is told a name, and it is nobody else's or the one recorded for this machine. -/
def HandedOnce (current text serial : String) : Prop :=
  ∃ name after, assign (directory.map Computer.cn) rows dn current text serial = .ok (some name, after) ∧
    ((recorded rows dn).map Assignment.name = some name ∨
      Uncalled directory dn name ∧ Ungiven rows dn name)

/-- No row but the machine's own has the name next in line. Under a number's template the rows of the
same template have lower numbers. -/
def Unclaimed (text : String) (template : Template) (serial : String) : Prop :=
  ∀ row ∈ rows, row.computerDn ≠ dn → (row.template = text → template.placeholder = .serial) →
    lower row.name ≠ lower (inLine rows text template serial)

end Unshared

omit [Runtime] in
theorem le_foldl_max {ns : List Nat} {n m : Nat} (h : n ∈ ns ∨ n ≤ m) : n ≤ ns.foldl max m := by
  induction ns generalizing m with
  | nil => exact h.resolve_left List.not_mem_nil
  | cons k ns ih =>
      apply ih
      rcases h with h | h
      · rcases List.mem_cons.mp h with rfl | h
        · exact .inr (le_max_right m n)
        · exact .inl h
      · exact .inr (h.trans (le_max_left m k))

theorem lt_nextHanded (hlatin : ReadsLatin) {rows : List Assignment} {row : Assignment} {text : String}
    {template : Template} {width n : Nat} {serial : String} (hmem : row ∈ rows)
    (htemplate : row.template = text) (hwidth : template.placeholder = .number width)
    (hname : row.name = render template n serial) : n < nextHanded rows text template := by
  have hread : ((filling template row.name).map numberOf).getD 0 = n := by
    rw [hname, filling_render hlatin hwidth, Option.map_some, Option.getD_some, numberOf_zfill hlatin]
  have hin : n ∈ (rows.filter (·.template = text)).map fun row =>
      ((filling template row.name).map numberOf).getD 0 :=
    List.mem_map.mpr ⟨row, List.mem_filter.mpr ⟨hmem, decide_eq_true htemplate⟩, hread⟩
  exact Nat.lt_succ_of_le (le_foldl_max (.inl hin))

theorem unclaimed_iff (hlatin : ReadsLatin) {rows : List Assignment} (h : Handed rows) {text : String}
    {template : Template} (hparse : parse text = some template) (hends : template.Latin)
    (dn serial : String) : Unclaimed rows dn text template serial ↔
      ∀ row ∈ rows, row.computerDn ≠ dn → lower row.name ≠ lower (inLine rows text template serial) := by
  constructor
  · intro hunclaimed row hrow hdn hname
    refine hunclaimed row hrow hdn (fun htemplate => ?_) hname
    by_contra hserial
    obtain ⟨width, hwidth⟩ : ∃ width, template.placeholder = .number width := by
      cases hplaceholder : template.placeholder with
      | serial => exact absurd hplaceholder hserial
      | number width => exact ⟨width, rfl⟩
    obtain ⟨template', n, serial', hparse', _, hrendered⟩ := h row hrow
    rw [htemplate, hparse, Option.some.injEq] at hparse'
    subst hparse'
    have hlt := lt_nextHanded hlatin hrow htemplate hwidth hrendered
    rw [hrendered] at hname
    exact absurd (render_inj hlatin hends hwidth hname) hlt.ne
  · exact fun hall row hrow hdn _ => hall row hrow hdn

/-- A machine whose name does not fit is told a name of its own exactly when one is recorded for it
under this template, or when the name next in line is free: in the table, and in the directory unless
it was recorded for the machine before. -/
theorem handedOnce_iff (hlatin : ReadsLatin) (moves : List Move) (directory : List Computer)
    (dn current serial : String) {raw text : String} {template : Template}
    (haccepted : validateTemplate raw = .ok text) (hparse : parse text = some template)
    (hfits : fits template current = false) :
    let rows := moves.foldl step []
    HandedOnce directory rows dn current text serial ↔
      (∃ row, recorded rows dn = some row ∧ row.template = text) ∨
        Unclaimed rows dn text template serial ∧
          ((recorded rows dn).map Assignment.name = some (inLine rows text template serial) ∨
            Uncalled directory dn (inLine rows text template serial)) := by
  intro rows
  have hends : template.Latin := by
    obtain ⟨_, hparse', hends⟩ := parse_of_accepted haccepted
    exact Option.some.inj (hparse.symm.trans hparse') ▸ hends
  rw [unclaimed_iff hlatin (handed_run moves) hparse hends]
  by_cases hrow : ∃ row, recorded rows dn = some row ∧ row.template = text
  · obtain ⟨row, hrow, htemplate⟩ := hrow
    refine iff_of_true ⟨row.name, rows, assign_recorded hparse hfits hrow htemplate, .inl ?_⟩
      (.inl ⟨row, hrow, htemplate⟩)
    rw [hrow, Option.map_some]
  · rw [or_iff_right hrow]
    push Not at hrow
    unfold HandedOnce
    rw [assign_fresh hparse hfits hrow]
    constructor
    · rintro ⟨name, after, hassign, hname⟩
      obtain ⟨_, hupsert, heq⟩ := Except.map_eq_ok.mp hassign
      cases heq
      exact ⟨(upsert_ok_iff _).mp ⟨after, hupsert⟩, hname.imp_right And.left⟩
    · rintro ⟨hfree, hname⟩
      obtain ⟨after, hupsert⟩ :=
        (upsert_ok_iff ⟨dn, inLine rows text template serial, text⟩).mpr hfree
      refine ⟨_, after, congrArg _ hupsert, hname.imp_right fun huncalled => ⟨huncalled, ?_⟩⟩
      intro row hrow hdn
      exact hfree row hrow fun heq => hdn (congrArg lower heq)

omit [Runtime] in
theorem readsLatin_latin : @ReadsLatin Runtime.latin :=
  @ReadsLatin.mk Runtime.latin (fun _ _ => congrArg (String.ofList <| ·.map Char.toLower) String.toList_ofList)
    fun _ h => if_pos h

omit [Runtime] in
theorem rendered_fits_office :
    letI := Runtime.latin
    ∃ template, parse "PC7-\x7bn:4\x7d-2" = some template ∧ (∀ n serial, fits template (render template n serial) = true) ∧
      ∀ width, template.placeholder = .number width →
        (∀ n serial, (filling template (render template n serial)).map numberOf = some n) ∧
        (∀ n serial before part after, (render template n serial).toList = before ++ part ++ after →
          before.length = template.before.length → after.length = template.after.length → numberOf part = n) ∧
        ∀ n m serial serial', render template n serial = render template m serial' → n = m := by
  let _ := Runtime.latin
  have haccepted : validateTemplate "PC7-\x7bn:4\x7d-2" = .ok "PC7-\x7bn:4\x7d-2" := by decide +kernel
  exact rendered_fits readsLatin_latin haccepted

def desk : Computer := ⟨"CN=desk,OU=Office,DC=corp,DC=lan", "desk"⟩

/-- A machine that was given its name by hand. -/
def counter : Computer := ⟨"CN=WS-0001,OU=Office,DC=corp,DC=lan", "WS-0001"⟩

/-- The name the other machine was told under a template. -/
def counterNamed (template : String) : Move := .assign [desk] "CN=counter,OU=Office,DC=corp,DC=lan" "counter" template ""

omit [Runtime] in
theorem handedOnce_iff_desk :
    letI := Runtime.latin
    let rows := [counterNamed "WS-\x7bn:4\x7d"].foldl step []
    let template : Template := ⟨"WS-".toList, .number 4, []⟩
    HandedOnce [desk] rows desk.dn "desk" "WS-\x7bn:4\x7d" "" ↔
      (∃ row, recorded rows desk.dn = some row ∧ row.template = "WS-\x7bn:4\x7d") ∨
        Unclaimed rows desk.dn "WS-\x7bn:4\x7d" template "" ∧
          ((recorded rows desk.dn).map Assignment.name = some (inLine rows "WS-\x7bn:4\x7d" template "") ∨
            Uncalled [desk] desk.dn (inLine rows "WS-\x7bn:4\x7d" template "")) := by
  let _ := Runtime.latin
  have haccepted : validateTemplate "WS-\x7bn:4\x7d" = .ok "WS-\x7bn:4\x7d" := by decide +kernel
  exact handedOnce_iff readsLatin_latin [counterNamed "WS-\x7bn:4\x7d"] [desk] desk.dn "desk" "" haccepted
    (by decide +kernel) (by decide +kernel)

omit [Runtime] in
/-- The name of a machine named by hand is told to another, and two spellings of one template make a
machine's policy fail. -/
theorem name_handed_twice :
    letI := Runtime.latin
    ¬ HandedOnce [desk, counter] [] desk.dn "desk" "WS-\x7bn:4\x7d" "" ∧
      assign ["desk"] ([counterNamed "WS-\x7bn:4\x7d"].foldl step []) desk.dn "desk" "ws-\x7bn:4\x7d" "" =
        .error .databaseError := by
  let _ := Runtime.latin
  refine ⟨?_, by decide +kernel⟩
  rintro ⟨name, after, hassign, hname⟩
  have htold : assign ["desk", "WS-0001"] [] desk.dn "desk" "WS-\x7bn:4\x7d" "" =
      .ok (some "WS-0001", [⟨desk.dn, "WS-0001", "WS-\x7bn:4\x7d"⟩]) := by decide +kernel
  cases htold.symm.trans hassign
  rcases hname with hname | ⟨huncalled, _⟩
  · cases hname
  · exact huncalled counter (by decide) (by decide +kernel) (by decide +kernel)

end OpenDirectory.Naming
