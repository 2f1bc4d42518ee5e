import OpenDirectory.Dumps

/-! Reading the text of a JSON document. A writer chooses how it escapes a character, and leaves no blanks;
the reader takes blanks between tokens, every escape, and the last value of a key that is written twice.
What was written is read back. -/

namespace JsonText

open Value (Fields)

section Writing

variable (escape : Char → List Char)

def quoted (s : String) : List Char := '"' :: (s.toList.flatMap escape ++ ['"'])

mutual

def write : Value → List Char
  | .null => "null".toList
  | .bool true => "true".toList
  | .bool false => "false".toList
  | .int n => (toString n).toList
  | .float number => number.text.toList
  | .str s => quoted escape s
  | .arr [] => ['[', ']']
  | .arr (item :: items) => '[' :: (write item ++ writeItems items)
  | .obj [] => ['{', '}']
  | .obj ((key, value) :: fields) => '{' :: (quoted escape key ++ ':' :: (write value ++ writeFields fields))

def writeItems : List Value → List Char
  | [] => [']']
  | item :: items => ',' :: (write item ++ writeItems items)

def writeFields : Fields → List Char
  | [] => ['}']
  | (key, value) :: fields => ',' :: (quoted escape key ++ ':' :: (write value ++ writeFields fields))

end

end Writing

def hexDigit (c : Char) : Option Nat :=
  if c.isDigit then some (c.toNat - 48)
  else if 'a' ≤ c ∧ c ≤ 'f' then some (c.toNat - 87)
  else if 'A' ≤ c ∧ c ≤ 'F' then some (c.toNat - 55)
  else none

/-- Four hexadecimal digits. -/
def readUnit : List Char → Option (Nat × List Char)
  | a :: b :: c :: d :: rest => do
      let a ← hexDigit a
      let b ← hexDigit b
      let c ← hexDigit c
      let d ← hexDigit d
      some (4096 * a + 256 * b + 16 * c + d, rest)
  | _ => none

/-- A character by its number, or by two units; one unit of a pair alone is no character. -/
def readUnicode (input : List Char) : Option (Char × List Char) := do
  let (high, rest) ← readUnit input
  if 0xd800 ≤ high ∧ high < 0xdc00 then
    match rest with
    | '\\' :: 'u' :: rest =>
        let (low, rest) ← readUnit rest
        if 0xdc00 ≤ low ∧ low < 0xe000 then
          some (Char.ofNat (0x10000 + (high - 0xd800) * 0x400 + (low - 0xdc00)), rest)
        else none
    | _ => none
  else if 0xdc00 ≤ high ∧ high < 0xe000 then none
  else some (Char.ofNat high, rest)

def readEscape : List Char → Option (Char × List Char)
  | '"' :: rest => some ('"', rest)
  | '\\' :: rest => some ('\\', rest)
  | '/' :: rest => some ('/', rest)
  | 'b' :: rest => some ('\x08', rest)
  | 'f' :: rest => some ('\x0c', rest)
  | 'n' :: rest => some ('\n', rest)
  | 'r' :: rest => some ('\r', rest)
  | 't' :: rest => some ('\t', rest)
  | 'u' :: rest => readUnicode rest
  | _ => none

def readChar : List Char → Option (Char × List Char)
  | '\\' :: rest => readEscape rest
  | c :: rest => if c.toNat < 0x20 then none else some (c, rest)
  | [] => none

/-- A text after its opening quote. -/
def readText : Nat → List Char → Option (List Char × List Char)
  | 0, _ => none
  | _ + 1, '"' :: rest => some ([], rest)
  | fuel + 1, input => do
      let (c, rest) ← readChar input
      let (text, rest) ← readText fuel rest
      some (c :: text, rest)

def splitDigits (input : List Char) : List Char × List Char := (input.takeWhile Char.isDigit, input.dropWhile Char.isDigit)

/-- The digits before a point: a zero stands alone. -/
def readWhole : List Char → Option (List Char × List Char)
  | '0' :: rest => some (['0'], rest)
  | input =>
      let (digits, rest) := splitDigits input
      if digits.isEmpty then none else some (digits, rest)

def readFraction (input : List Char) : List Char × List Char :=
  match input with
  | '.' :: rest =>
      let (digits, after) := splitDigits rest
      if digits.isEmpty then ([], input) else ('.' :: digits, after)
  | _ => ([], input)

def readExponent (input : List Char) : List Char × List Char :=
  match input with
  | e :: rest =>
      if e = 'e' ∨ e = 'E' then
        let (sign, unsigned) := match rest with
          | '+' :: tail => (['+'], tail)
          | '-' :: tail => (['-'], tail)
          | _ => ([], rest)
        let (digits, after) := splitDigits unsigned
        if digits.isEmpty then ([], input) else ('e' :: (sign ++ digits), after)
      else ([], input)
  | [] => ([], [])

def signed (negative : Bool) (n : Nat) : Int := if negative then -(n : Int) else n

/-- A whole number by its value, another by its text. -/
def readNumber (input : List Char) : Option (Value × List Char) := do
  let (negative, unsigned) := match input with
    | '-' :: rest => (true, rest)
    | _ => (false, input)
  let (whole, rest) ← readWhole unsigned
  let (fraction, rest) := readFraction rest
  let (exponent, rest) := readExponent rest
  let token := String.ofList ((if negative then ['-'] else []) ++ whole ++ fraction ++ exponent)
  if hfloat : isFloatText token = true then some (.float ⟨token, hfloat⟩, rest)
  else some (.int (signed negative (Nat.ofDigitChars 10 whole 0)), rest)

def isBlank (c : Char) : Bool := c = ' ' || c = '\t' || c = '\n' || c = '\r'

def skip (input : List Char) : List Char := input.dropWhile isBlank

mutual

/-- One value, with no blanks before it. -/
def read : Nat → List Char → Option (Value × List Char)
  | 0, _ => none
  | fuel + 1, '"' :: rest => (readText fuel rest).map fun (text, rest) => (.str (String.ofList text), rest)
  | fuel + 1, '{' :: rest =>
      match skip rest with
      | '}' :: rest => some (.obj [], rest)
      | rest => (readFields fuel rest).map fun (fields, rest) => (.obj (Dict.update [] fields), rest)
  | fuel + 1, '[' :: rest =>
      match skip rest with
      | ']' :: rest => some (.arr [], rest)
      | rest => (readItems fuel rest).map fun (items, rest) => (.arr items, rest)
  | _ + 1, 'n' :: 'u' :: 'l' :: 'l' :: rest => some (.null, rest)
  | _ + 1, 't' :: 'r' :: 'u' :: 'e' :: rest => some (.bool true, rest)
  | _ + 1, 'f' :: 'a' :: 'l' :: 's' :: 'e' :: rest => some (.bool false, rest)
  | _ + 1, input => readNumber input

/-- The items of an array up to its end. -/
def readItems : Nat → List Char → Option (List Value × List Char)
  | 0, _ => none
  | fuel + 1, input => do
      let (item, rest) ← read fuel input
      match skip rest with
      | ']' :: rest => some ([item], rest)
      | ',' :: rest =>
          let (items, rest) ← readItems fuel (skip rest)
          some (item :: items, rest)
      | _ => none

/-- The fields of an object up to its end. -/
def readFields : Nat → List Char → Option (Fields × List Char)
  | 0, _ => none
  | fuel + 1, '"' :: rest => do
      let (key, rest) ← readText fuel rest
      match skip rest with
      | ':' :: rest =>
          let (value, rest) ← read fuel (skip rest)
          match skip rest with
          | '}' :: rest => some ([(String.ofList key, value)], rest)
          | ',' :: rest =>
              let (fields, rest) ← readFields fuel (skip rest)
              some ((String.ofList key, value) :: fields, rest)
          | _ => none
      | _ => none
  | _ + 1, _ => none

end

/-- The document a text is, with blanks around it and nothing else. -/
def loads (text : String) : Option Value :=
  match read (text.length + 1) (skip text.toList) with
  | none => none
  | some (value, rest) => if (skip rest).isEmpty then some value else none

example : loads " \x7b\"a\": [1, -2.5e3, \"\\u00e9\\/\"], \"a\" : null\x7d " = some (.obj [("a", .null)]) := by decide +kernel

example : loads "[01]" = none := by decide +kernel

/-- A writer's escapes are read back as the characters they stand for. -/
structure Escapes (escape : Char → List Char) : Prop where
  reads : ∀ c rest, readChar (escape c ++ rest) = some (c, rest)
  plain : ∀ c rest rest', escape c ++ rest ≠ '"' :: rest'

variable {escape : Char → List Char}

theorem Escapes.ne_nil (h : Escapes escape) (c : Char) : 1 ≤ (escape c).length := by
  rw [Nat.one_le_iff_ne_zero, ne_eq, List.length_eq_zero_iff]
  intro hnil
  exact h.plain c ['"'] [] (by rw [hnil]; rfl)

theorem Escapes.length_le (h : Escapes escape) (text : List Char) :
    text.length ≤ (text.flatMap escape).length := by
  induction text with
  | nil => exact Nat.zero_le _
  | cons c text ih =>
      rw [List.flatMap_cons, List.length_append, List.length_cons]
      have := h.ne_nil c
      omega

variable {fuel m : Nat}

theorem readText_succ {input : List Char} (h : ∀ rest, input ≠ '"' :: rest) :
    readText (fuel + 1) input = (do
      let (c, rest) ← readChar input
      let (text, rest) ← readText fuel rest
      some (c :: text, rest)) := by
  rw [readText.eq_def]
  split
  · contradiction
  · rename_i heq
    exact absurd rfl (h _)
  · rename_i heq _
    cases heq
    rfl

theorem readText_flatMap (h : Escapes escape) {text rest : List Char} (hfuel : text.length < fuel) :
    readText fuel (text.flatMap escape ++ '"' :: rest) = some (text, rest) := by
  induction text generalizing fuel with
  | nil =>
      cases fuel with
      | zero => contradiction
      | succ fuel => rfl
  | cons c text ih =>
      cases fuel with
      | zero => contradiction
      | succ fuel =>
          rw [List.length_cons, Nat.add_lt_add_iff_right] at hfuel
          rw [List.flatMap_cons, List.append_assoc, readText_succ (h.plain c _), h.reads]
          simp only [Option.bind_eq_bind, Option.bind_some, ih hfuel]

theorem readText_quoted (h : Escapes escape) {s : String} {rest : List Char}
    (hfuel : (quoted escape s).length ≤ fuel + 1) :
    readText fuel (s.toList.flatMap escape ++ ['"'] ++ rest) = some (s.toList, rest) := by
  have hlength := h.length_le s.toList
  rw [List.append_assoc]
  refine readText_flatMap h ?_
  simp only [quoted, List.length_cons, List.length_append, List.length_nil] at hfuel
  omega

theorem head_toDigits (hm : 0 < m) : ∃ c digits, Nat.toDigits 10 m = c :: digits ∧ c ≠ '0' := by
  induction m using Nat.strongRecOn with
  | ind m ih =>
      by_cases hsmall : m < 10
      · refine ⟨m.digitChar, [], Nat.toDigits_of_lt_base hsmall, ?_⟩
        rw [ne_eq, Nat.digitChar_eq_zero]
        omega
      · obtain ⟨c, digits, hdigits, hc⟩ := ih (m / 10) (by omega) (by omega)
        refine ⟨c, digits ++ [(m % 10).digitChar], ?_, hc⟩
        rw [Nat.toDigits_of_base_le (by decide) (by omega), hdigits]
        rfl

theorem splitDigits_append {digits rest : List Char} (hdigits : ∀ c ∈ digits, c.isDigit = true)
    (hrest : ∀ c ∈ rest.head?, c.isDigit = false) : splitDigits (digits ++ rest) = (digits, rest) := by
  unfold splitDigits
  induction digits with
  | nil =>
      cases rest with
      | nil => rfl
      | cons c rest => simp [hrest c rfl]
  | cons c digits ih =>
      have hc := hdigits c List.mem_cons_self
      have hsplit := Prod.mk.inj (ih fun d hd => hdigits d (List.mem_cons_of_mem _ hd))
      simp [hc, hsplit.1, hsplit.2]

theorem readWhole_toDigits {rest : List Char} (hrest : ∀ c ∈ rest.head?, c.isDigit = false) :
    readWhole (Nat.toDigits 10 m ++ rest) = some (Nat.toDigits 10 m, rest) := by
  rcases Nat.eq_zero_or_pos m with rfl | hm
  · rfl
  · obtain ⟨c, digits, hdigits, hc⟩ := head_toDigits hm
    have hall : ∀ d ∈ Nat.toDigits 10 m, d.isDigit = true := fun d hd =>
      Nat.isDigit_of_mem_toDigits (by decide) (by decide) hd
    have hsplit := splitDigits_append hall hrest
    unfold readWhole
    split
    · rename_i tail heq
      rw [hdigits, List.cons_append] at heq
      exact absurd (List.cons.inj heq).1 hc
    · rw [hsplit]
      simp [hdigits]

/-- What may follow a number. -/
def Stops (rest : List Char) : Prop :=
  ∀ c ∈ rest.head?, c.isDigit = false ∧ c ≠ '.' ∧ c ≠ 'e' ∧ c ≠ 'E'

theorem Stops.readFraction {rest : List Char} (h : Stops rest) : readFraction rest = ([], rest) := by
  unfold JsonText.readFraction
  split
  · exact absurd rfl (h _ rfl).2.1
  · rfl

theorem Stops.readExponent {rest : List Char} (h : Stops rest) : readExponent rest = ([], rest) := by
  unfold JsonText.readExponent
  cases rest with
  | nil => rfl
  | cons c rest =>
      obtain ⟨_, _, he, hE⟩ := h c rfl
      simp [he, hE]

theorem toList_int (n : Int) :
    (toString n).toList = (if n < 0 then ['-'] else []) ++ Nat.toDigits 10 n.natAbs := by
  cases n with
  | ofNat m =>
      rw [if_neg (by simp)]
      exact Nat.toList_repr
  | negSucc m =>
      rw [if_pos (Int.negSucc_lt_zero m)]
      change ("-" ++ (m + 1).repr).toList = _
      rw [String.toList_append, Nat.toList_repr]
      rfl

theorem not_float {negative : Bool} :
    isFloatText (String.ofList ((if negative then ['-'] else []) ++ Nat.toDigits 10 m ++ [] ++ [])) = false := by
  have hany : ∀ c ∈ (if negative then ['-'] else []) ++ Nat.toDigits 10 m, (c = '.' || c = 'e') = false := by
    intro c hc
    rcases List.mem_append.mp hc with hsign | hdigit
    · split_ifs at hsign
      · rw [List.mem_singleton.mp hsign]
        decide
      · cases hsign
    · have hdigit := Nat.isDigit_of_mem_toDigits (by decide) (by decide) hdigit
      rw [Bool.or_eq_false_iff, decide_eq_false_iff_not, decide_eq_false_iff_not]
      constructor <;> rintro rfl <;> exact absurd hdigit (by decide)
  unfold isFloatText
  rw [List.append_nil, List.append_nil, String.toList_ofList, Bool.and_eq_false_iff]
  exact .inr (List.any_eq_false.mpr fun c hc => by rw [hany c hc]; decide)

theorem readNumber_int (n : Int) {rest : List Char} (h : Stops rest) :
    readNumber ((toString n).toList ++ rest) = some (.int n, rest) := by
  have hwhole : readWhole (Nat.toDigits 10 n.natAbs ++ rest) = some (Nat.toDigits 10 n.natAbs, rest) :=
    readWhole_toDigits fun c hc => (h c hc).1
  have hsigned : signed (n < 0) n.natAbs = n := by
    unfold signed
    by_cases hneg : n < 0
    · rw [if_pos (decide_eq_true hneg)]
      omega
    · rw [if_neg (by simpa using hneg)]
      omega
  have hsplit : (match (toString n).toList ++ rest with
      | '-' :: rest => (true, rest)
      | _ => (false, (toString n).toList ++ rest)) =
      ((n < 0 : Bool), Nat.toDigits 10 n.natAbs ++ rest) := by
    rw [toList_int]
    by_cases hneg : n < 0
    · simp [hneg]
    · obtain ⟨c, digits, hdigits⟩ := List.exists_cons_of_ne_nil (@Nat.toDigits_ne_nil n.natAbs 10)
      have hc : c ≠ '-' := by
        rintro rfl
        have hmem : '-' ∈ Nat.toDigits 10 n.natAbs := by
          rw [hdigits]
          exact List.mem_cons_self
        have hdigit := Nat.isDigit_of_mem_toDigits (by decide) (by decide) hmem
        exact absurd hdigit (by decide)
      simp only [hneg, if_false, List.nil_append, hdigits, List.cons_append]
      split
      · rename_i heq
        exact absurd (List.cons.inj heq).1 hc
      · simp
  unfold readNumber
  rw [hsplit]
  simp only [hwhole, h.readFraction, h.readExponent, not_float, Option.bind_eq_bind, Option.bind_some,
    Bool.false_eq_true, dite_false, Nat.ofDigitChars_ten_toDigits, hsigned]

mutual

/-- A document whose numbers are whole. -/
def whole : Value → Bool
  | .float _ => false
  | .arr items => wholeItems items
  | .obj fields => wholeFields fields
  | _ => true

def wholeItems : List Value → Bool
  | [] => true
  | item :: items => whole item && wholeItems items

def wholeFields : Fields → Bool
  | [] => true
  | (_, value) :: fields => whole value && wholeFields fields

end

theorem wholeItems_iff {items : List Value} : wholeItems items = true ↔ ∀ item ∈ items, whole item = true := by
  induction items with
  | nil => simp [wholeItems]
  | cons item items ih => simp [wholeItems, ih]

theorem wholeFields_iff {fields : Fields} : wholeFields fields = true ↔ ∀ entry ∈ fields, whole entry.2 = true := by
  induction fields with
  | nil => simp [wholeFields]
  | cons entry fields ih => simp [wholeFields, ih]

theorem skip_cons {c : Char} {rest : List Char} (h : isBlank c = false) : skip (c :: rest) = c :: rest := by
  simp [skip, h]

theorem head_int (n : Int) : ∃ c tail, (toString n).toList = c :: tail ∧ (c.isDigit = true ∨ c = '-') := by
  obtain ⟨c, tail, hcons⟩ := List.exists_cons_of_ne_nil (Value.int_ne_nil n)
  exact ⟨c, tail, hcons, Value.int_chars n c (by rw [hcons]; exact List.mem_cons_self)⟩

variable {fuel : Nat}

theorem read_number {c : Char} {tail : List Char} (h : c.isDigit = true ∨ c = '-') :
    read (fuel + 1) (c :: tail) = readNumber (c :: tail) := by
  have hne : ∀ other : Char, other.isDigit = false → other ≠ '-' → c ≠ other := by
    rintro other hdigit hsign rfl
    rcases h with hdigit' | hsign'
    · rw [hdigit] at hdigit'
      cases hdigit'
    · exact hsign hsign'
  rw [read.eq_def]
  split
  · contradiction
  · rename_i heq
    exact absurd (List.cons.inj heq).1 (hne _ (by decide) (by decide))
  · rename_i heq
    exact absurd (List.cons.inj heq).1 (hne _ (by decide) (by decide))
  · rename_i heq
    exact absurd (List.cons.inj heq).1 (hne _ (by decide) (by decide))
  · rename_i heq
    exact absurd (List.cons.inj heq).1 (hne _ (by decide) (by decide))
  · rename_i heq
    exact absurd (List.cons.inj heq).1 (hne _ (by decide) (by decide))
  · rename_i heq
    exact absurd (List.cons.inj heq).1 (hne _ (by decide) (by decide))
  · rfl

theorem head_write {value : Value} (h : whole value = true) :
    ∃ c tail, write escape value = c :: tail ∧ isBlank c = false ∧ c ≠ ']' := by
  cases value with
  | null => exact ⟨'n', _, rfl, by decide, by decide⟩
  | bool b =>
      cases b with
      | true => exact ⟨'t', _, rfl, by decide, by decide⟩
      | false => exact ⟨'f', _, rfl, by decide, by decide⟩
  | int n =>
      obtain ⟨c, tail, hcons, hc⟩ := head_int n
      refine ⟨c, tail, by rw [write, hcons], ?_, ?_⟩
      · by_contra hblank
        simp only [isBlank, Bool.not_eq_false, Bool.or_eq_true, decide_eq_true_eq] at hblank
        rcases hblank with ((rfl | rfl) | rfl) | rfl <;> exact absurd hc (by decide)
      · rintro rfl
        exact absurd hc (by decide)
  | float number => cases h
  | str s => exact ⟨'"', _, rfl, by decide, by decide⟩
  | arr items =>
      cases items with
      | nil => exact ⟨'[', _, rfl, by decide, by decide⟩
      | cons item items => exact ⟨'[', _, by rw [write], by decide, by decide⟩
  | obj fields =>
      cases fields with
      | nil => exact ⟨'{', _, rfl, by decide, by decide⟩
      | cons entry fields => exact ⟨'{', _, by rw [write], by decide, by decide⟩

theorem skip_write {value : Value} (h : whole value = true) (rest : List Char) :
    skip (write escape value ++ rest) = write escape value ++ rest := by
  obtain ⟨c, tail, hcons, hblank, _⟩ := @head_write escape value h
  rw [hcons, List.cons_append, skip_cons hblank]

theorem stops_writeItems (items : List Value) (rest : List Char) : Stops (writeItems escape items ++ rest) := by
  intro c hc
  cases items with
  | nil =>
      obtain rfl : ']' = c := Option.some.inj hc
      decide
  | cons item items =>
      rw [writeItems] at hc
      obtain rfl : ',' = c := Option.some.inj hc
      decide

theorem stops_writeFields (fields : Fields) (rest : List Char) : Stops (writeFields escape fields ++ rest) := by
  intro c hc
  cases fields with
  | nil =>
      obtain rfl : '}' = c := Option.some.inj hc
      decide
  | cons entry fields =>
      rw [writeFields] at hc
      obtain rfl : ',' = c := Option.some.inj hc
      decide

/-- What a reader with so many steps left reads back. -/
structure Reads (escape : Char → List Char) (fuel : Nat) : Prop where
  value : ∀ value rest, whole value = true → Value.distinct value = true → Stops rest →
    (write escape value).length ≤ fuel → read fuel (write escape value ++ rest) = some (value, rest)
  items : ∀ item items rest, wholeItems (item :: items) = true → Value.distinctItems (item :: items) = true →
    (write escape item).length + (writeItems escape items).length ≤ fuel →
      readItems fuel (write escape item ++ (writeItems escape items ++ rest)) = some (item :: items, rest)
  fields : ∀ key value fields rest, wholeFields ((key, value) :: fields) = true →
    Value.distinctFields ((key, value) :: fields) = true →
      (quoted escape key).length + (write escape value).length + (writeFields escape fields).length < fuel →
        readFields fuel (quoted escape key ++ ':' :: (write escape value ++ (writeFields escape fields ++ rest))) =
          some ((key, value) :: fields, rest)

theorem length_writeItems (items : List Value) : 1 ≤ (writeItems escape items).length := by
  cases items with
  | nil => exact Nat.le_refl 1
  | cons item items =>
      rw [writeItems, List.length_cons]
      omega

theorem length_writeFields (fields : Fields) : 1 ≤ (writeFields escape fields).length := by
  cases fields with
  | nil => exact Nat.le_refl 1
  | cons entry fields =>
      rw [writeFields, List.length_cons]
      omega

theorem Reads.succ_value (h : Escapes escape) (ih : Reads escape fuel) (value : Value)
    (rest : List Char) (hwhole : whole value = true) (hdistinct : Value.distinct value = true)
    (hstops : Stops rest) (hfuel : (write escape value).length ≤ fuel + 1) :
    read (fuel + 1) (write escape value ++ rest) = some (value, rest) := by
  cases value with
  | null => rfl
  | bool b => cases b <;> rfl
  | int n =>
      obtain ⟨c, tail, hcons, hc⟩ := head_int n
      have hnumber := readNumber_int n hstops
      rw [hcons] at hnumber
      rw [write, hcons, List.cons_append, read_number hc]
      exact hnumber
  | float number => cases hwhole
  | str s =>
      rw [write] at hfuel ⊢
      rw [quoted, List.cons_append, read.eq_def]
      simp only [readText_quoted h hfuel, Option.map_some, String.ofList_toList]
  | arr items =>
      cases items with
      | nil => rfl
      | cons item items =>
          rw [write, List.length_cons, List.length_append] at hfuel
          have hitems := ih.items item items rest hwhole hdistinct (by omega)
          rw [whole, wholeItems, Bool.and_eq_true] at hwhole
          obtain ⟨c, tail, hcons, hblank, hclose⟩ := @head_write escape item hwhole.1
          have hskip := @skip_write escape item hwhole.1 (writeItems escape items ++ rest)
          rw [write, List.cons_append, List.append_assoc, read.eq_def]
          simp only [hskip]
          split
          · rename_i heq
            rw [hcons, List.cons_append] at heq
            exact absurd (List.cons.inj heq).1 hclose
          · rw [hitems]
            rfl
  | obj fields =>
      cases fields with
      | nil => rfl
      | cons entry fields =>
          obtain ⟨key, value⟩ := entry
          rw [write, List.length_cons, List.length_append, List.length_cons, List.length_append] at hfuel
          have hfields := ih.fields key value fields rest hwhole (Value.distinctFields_iff.mpr
            (Value.distinct_obj_iff.mp hdistinct).2) (by omega)
          have hkeys := (Value.distinct_obj_iff.mp hdistinct).1
          have hupdate : Dict.update [] ((key, value) :: fields) = (key, value) :: fields :=
            Dict.update_of_nodup hkeys
          rw [write, List.cons_append, List.append_assoc, List.cons_append, List.append_assoc, read.eq_def]
          rw [quoted] at hfields ⊢
          simp only [List.cons_append, skip_cons (show isBlank '"' = false by decide)] at hfields ⊢
          split
          · rename_i heq
            exact absurd (List.cons.inj heq).1 (by decide)
          · rw [hfields]
            simp only [Option.map_some, hupdate]

theorem Reads.succ_items (ih : Reads escape fuel) (item : Value) (items : List Value)
    (rest : List Char) (hwhole : wholeItems (item :: items) = true)
    (hdistinct : Value.distinctItems (item :: items) = true)
    (hfuel : (write escape item).length + (writeItems escape items).length ≤ fuel + 1) :
    readItems (fuel + 1) (write escape item ++ (writeItems escape items ++ rest)) = some (item :: items, rest) := by
  have hlength := @length_writeItems escape items
  rw [wholeItems, Bool.and_eq_true] at hwhole
  rw [Value.distinctItems, Bool.and_eq_true] at hdistinct
  rw [readItems, ih.value item _ hwhole.1 hdistinct.1 (stops_writeItems items rest) (by omega)]
  cases items with
  | nil => rfl
  | cons next items =>
      rw [writeItems, List.length_cons, List.length_append] at hfuel
      have hnext := ih.items next items rest hwhole.2 hdistinct.2 (by omega)
      have hfirst : whole next = true := by
        rw [wholeItems, Bool.and_eq_true] at hwhole
        exact hwhole.2.1
      simp only [writeItems, List.cons_append, List.append_assoc, Option.bind_eq_bind, Option.bind_some,
        skip_cons (show isBlank ',' = false by decide), skip_write hfirst, hnext]

theorem Reads.succ_fields (h : Escapes escape) (ih : Reads escape fuel) (key : String) (value : Value)
    (fields : Fields) (rest : List Char) (hwhole : wholeFields ((key, value) :: fields) = true)
    (hdistinct : Value.distinctFields ((key, value) :: fields) = true)
    (hfuel : (quoted escape key).length + (write escape value).length + (writeFields escape fields).length <
      fuel + 1) :
    readFields (fuel + 1)
        (quoted escape key ++ ':' :: (write escape value ++ (writeFields escape fields ++ rest))) =
      some ((key, value) :: fields, rest) := by
  have hlength := @length_writeFields escape fields
  rw [wholeFields, Bool.and_eq_true] at hwhole
  rw [Value.distinctFields, Bool.and_eq_true] at hdistinct
  have hvalue := ih.value value (writeFields escape fields ++ rest) hwhole.1 hdistinct.1
    (stops_writeFields fields rest) (by omega)
  have hkey : readText fuel (key.toList.flatMap escape ++ ['"'] ++
      ':' :: (write escape value ++ (writeFields escape fields ++ rest))) = _ :=
    readText_quoted h (by omega)
  rw [quoted, List.cons_append, readFields, hkey]
  simp only [Option.bind_eq_bind, Option.bind_some, skip_cons (show isBlank ':' = false by decide),
    skip_write hwhole.1, hvalue, String.ofList_toList]
  cases fields with
  | nil => rfl
  | cons entry fields =>
      obtain ⟨next, nextValue⟩ := entry
      rw [writeFields, List.length_cons, List.length_append, List.length_cons, List.length_append] at hfuel
      have hnext := ih.fields next nextValue fields rest hwhole.2 hdistinct.2 (by omega)
      have hquote : skip (quoted escape next ++ ':' :: (write escape nextValue ++
          (writeFields escape fields ++ rest))) = quoted escape next ++ ':' :: (write escape nextValue ++
            (writeFields escape fields ++ rest)) := skip_cons (by decide)
      simp only [writeFields, List.cons_append, List.append_assoc,
        skip_cons (show isBlank ',' = false by decide), hquote, hnext, Option.bind_some]

theorem reads (h : Escapes escape) (fuel : Nat) : Reads escape fuel := by
  induction fuel with
  | zero =>
      refine ⟨fun value rest hwhole _ _ hfuel => ?_, fun item items rest _ _ hfuel => ?_,
        fun key value fields rest _ _ hfuel => absurd hfuel (Nat.not_lt_zero _)⟩
      · obtain ⟨c, tail, hcons, _⟩ := @head_write escape value hwhole
        rw [hcons, List.length_cons] at hfuel
        omega
      · have := @length_writeItems escape items
        omega
  | succ fuel ih => exact ⟨ih.succ_value h, ih.succ_items, ih.succ_fields h⟩

def document (escape : Char → List Char) (value : Value) : String := String.ofList (write escape value)

theorem loads_document (h : Escapes escape) {value : Value} (hwhole : whole value = true)
    (hdistinct : Value.distinct value = true) : loads (document escape value) = some value := by
  have hread := (reads h ((document escape value).length + 1)).value value [] hwhole hdistinct nofun (by
    rw [document, String.length_ofList]
    omega)
  have hskip := @skip_write escape value hwhole []
  rw [List.append_nil] at hread hskip
  unfold loads
  rw [show (document escape value).toList = write escape value from String.toList_ofList, hskip, hread]
  rfl

theorem not_mem_quoted {mark : Char} (hescape : ∀ c, mark ∉ escape c) (hquote : mark ≠ '"') (s : String) :
    mark ∉ quoted escape s := by
  simp [quoted, hescape, hquote]

theorem not_mem_int {mark : Char} (hdigit : mark.isDigit = false) (hsign : mark ≠ '-') (n : Int) : mark ∉ (toString n).toList := by
  intro hmem
  rcases Value.int_chars n mark hmem with h | h
  · rw [hdigit] at h
    cases h
  · exact hsign h

mutual

theorem newline_write (hescape : ∀ c, '\n' ∉ escape c) : ∀ {value : Value}, whole value = true → '\n' ∉ write escape value
  | .null, _ => by simp [write]
  | .bool true, _ => by simp [write]
  | .bool false, _ => by simp [write]
  | .int n, _ => not_mem_int (by decide) (by decide) n
  | .float _, h => nomatch h
  | .str s, _ => not_mem_quoted hescape (by decide) s
  | .arr [], _ => by simp [write]
  | .arr (item :: items), h => by
      obtain ⟨hitem, hitems⟩ := Bool.and_eq_true_iff.mp h
      have hwrite := newline_write hescape hitem
      have hrest := newline_writeItems hescape hitems
      simp [write, hwrite, hrest]
  | .obj [], _ => by simp [write]
  | .obj ((key, value) :: fields), h => by
      obtain ⟨hvalue, hfields⟩ := Bool.and_eq_true_iff.mp h
      have hkey := @not_mem_quoted escape '\n' hescape (by decide) key
      have hwrite := newline_write hescape hvalue
      have hrest := newline_writeFields hescape hfields
      simp [write, hkey, hwrite, hrest]

theorem newline_writeItems (hescape : ∀ c, '\n' ∉ escape c) : ∀ {items : List Value}, wholeItems items = true →
    '\n' ∉ writeItems escape items
  | [], _ => by simp [writeItems]
  | item :: items, h => by
      obtain ⟨hitem, hitems⟩ := Bool.and_eq_true_iff.mp h
      have hwrite := newline_write hescape hitem
      have hrest := newline_writeItems hescape hitems
      simp [writeItems, hwrite, hrest]

theorem newline_writeFields (hescape : ∀ c, '\n' ∉ escape c) : ∀ {fields : Fields}, wholeFields fields = true →
    '\n' ∉ writeFields escape fields
  | [], _ => by simp [writeFields]
  | (key, value) :: fields, h => by
      obtain ⟨hvalue, hfields⟩ := Bool.and_eq_true_iff.mp h
      have hkey := @not_mem_quoted escape '\n' hescape (by decide) key
      have hwrite := newline_write hescape hvalue
      have hrest := newline_writeFields hescape hfields
      simp [writeFields, hkey, hwrite, hrest]

end

theorem exists_write_obj (fields : Fields) : ∃ middle, write escape (.obj fields) = '{' :: (middle ++ ['}']) := by
  have hfields : ∀ fields, ∃ front, writeFields escape fields = front ++ ['}'] := by
    intro fields
    induction fields with
    | nil => exact ⟨[], rfl⟩
    | cons field fields ih =>
        obtain ⟨front, hfront⟩ := ih
        refine ⟨',' :: (quoted escape field.1 ++ ':' :: (write escape field.2 ++ front)), ?_⟩
        simp [writeFields, hfront]
  cases fields with
  | nil => exact ⟨[], rfl⟩
  | cons field fields =>
      obtain ⟨front, hfront⟩ := hfields fields
      refine ⟨quoted escape field.1 ++ ':' :: (write escape field.2 ++ front), ?_⟩
      simp [write, hfront]

/-- `encoding/json` escapes what could close a text or a tag, and ends of lines; it leaves the rest as it is. -/
def goEscape (c : Char) : List Char :=
  if c = '"' then ['\\', '"']
  else if c = '\\' then ['\\', '\\']
  else if c = '\x08' then ['\\', 'b']
  else if c = '\x0c' then ['\\', 'f']
  else if c = '\n' then ['\\', 'n']
  else if c = '\r' then ['\\', 'r']
  else if c = '\t' then ['\\', 't']
  else if c.toNat < 0x20 ∨ c ∈ ['<', '>', '&', '\u2028', '\u2029'] then Value.hexUnit c.toNat
  else [c]

theorem hexDigit_digitChar {n : Nat} (h : n < 16) : hexDigit n.digitChar = some n := by
  revert n
  decide

theorem readUnicode_hexUnit {n : Nat} (h : n < 0x10000) (hpair : ¬ (0xd800 ≤ n ∧ n < 0xe000)) (rest : List Char) :
    readUnicode ((Value.hexUnit n).drop 2 ++ rest) = some (Char.ofNat n, rest) := by
  have hunit : readUnit ((Value.hexUnit n).drop 2 ++ rest) = some (n, rest) := by
    simp only [Value.hexUnit, List.drop_succ_cons, List.drop_zero, List.cons_append, List.nil_append, readUnit,
      hexDigit_digitChar (Nat.mod_lt _ (by decide : 0 < 16)), Option.bind_eq_bind, Option.bind_some,
      Option.some.injEq, Prod.mk.injEq, and_true]
    omega
  have hhigh : ¬ (0xd800 ≤ n ∧ n < 0xdc00) := by omega
  have hlow : ¬ (0xdc00 ≤ n ∧ n < 0xe000) := by omega
  unfold readUnicode
  rw [hunit]
  simp only [Option.bind_eq_bind, Option.bind_some, hhigh, hlow, if_false]

theorem escapes_go : Escapes goEscape where
  reads c rest := by
    unfold goEscape
    split_ifs with hquote hslash hb hf hn hr ht hunit
    · rw [hquote]; rfl
    · rw [hslash]; rfl
    · rw [hb]; rfl
    · rw [hf]; rfl
    · rw [hn]; rfl
    · rw [hr]; rfl
    · rw [ht]; rfl
    · have hbound : c.toNat < 0x3000 := by
        rcases hunit with hcontrol | hmem
        · omega
        · revert hmem
          simp only [List.mem_cons, List.not_mem_nil, or_false]
          rintro (rfl | rfl | rfl | rfl | rfl) <;> decide
      have hread := readUnicode_hexUnit (show c.toNat < 0x10000 by omega) (by omega) rest
      rw [Char.ofNat_toNat] at hread
      exact hread
    · have hcontrol : ¬ c.toNat < 0x20 := fun hcontrol => hunit (.inl hcontrol)
      change readChar (c :: rest) = _
      unfold readChar
      split
      · rename_i heq
        exact absurd (List.cons.inj heq).1 hslash
      · rename_i heq
        obtain ⟨rfl, rfl⟩ := List.cons.inj heq
        rw [if_neg hcontrol]
      · rename_i heq
        cases heq
  plain c rest rest' := by
    unfold goEscape Value.hexUnit
    split_ifs with hquote <;> intro heq
    all_goals first
      | exact hquote (List.cons.inj heq).1
      | exact absurd (List.cons.inj heq).1 (by decide)

theorem newline_goEscape (c : Char) : '\n' ∉ goEscape c := by
  have hdigit : ∀ n, (n % 16).digitChar ≠ '\n' := by
    intro n
    have hbound := Nat.mod_lt n (by decide : 0 < 16)
    interval_cases n % 16 <;> decide
  unfold goEscape
  split_ifs with hquote hslash hb hf hn hr ht hunit
  all_goals try decide
  · simp only [Value.hexUnit, List.mem_cons, List.not_mem_nil, or_false, not_or]
    exact ⟨by decide, by decide, (hdigit _).symm, (hdigit _).symm, (hdigit _).symm, (hdigit _).symm⟩
  · exact fun hmem => hn (List.mem_singleton.mp hmem).symm

end JsonText
