import OpenDirectory.Lists
import OpenDirectory.Text

/-! The text form of a directory search filter, with what it says. A value is octets: a character stands for its own
encoding, and a backslash before two hexadecimal digits for one octet. No text says two things. -/

namespace FilterText

/-- The octets of a text. -/
def octets (text : List Char) : List UInt8 := text.flatMap String.utf8EncodeChar

/-- Characters a value only holds escaped. -/
def special (c : Char) : Bool := c ∈ ['\x00', '(', ')', '*', '\\']

def hexDigit (c : Char) : Option Nat :=
  if c.isDigit then some (c.toNat - 48)
  else if 'a' ≤ c && c ≤ 'f' then some (c.toNat - 87)
  else if 'A' ≤ c && c ≤ 'F' then some (c.toNat - 55)
  else none

def hexOctet (high low : Char) : Option UInt8 := do
  return UInt8.ofNat (16 * (← hexDigit high) + (← hexDigit low))

/-- `valueencoding` -/
def decodeValue : List Char → Option (List UInt8)
  | [] => some []
  | '\\' :: high :: low :: rest => do return (← hexOctet high low) :: (← decodeValue rest)
  | c :: rest => if special c then none else do return String.utf8EncodeChar c ++ (← decodeValue rest)

def keyChar (c : Char) : Bool := c.isAlphanum || c = '-'

/-- A name of letters, digits and dashes that begins with a letter. -/
def descrText : List Char → Bool
  | [] => false
  | c :: rest => c.isAlpha && rest.all keyChar

def numberText (text : List Char) : Bool :=
  text ≠ [] && text.all Char.isDigit && (text.length = 1 || text.head? ≠ some '0')

def numericOid (text : List Char) : Bool :=
  let parts := text.splitOn '.'
  2 ≤ parts.length && parts.all numberText

def oidText (text : List Char) : Bool := descrText text || numericOid text

/-- `attributedescription`: a name, and options behind semicolons. -/
def attributeText (text : List Char) : Bool :=
  match text.splitOn ';' with
  | [] => false
  | name :: options => oidText name && options.all fun option => option ≠ [] && option.all keyChar

/-- What stands before `:=`: an attribute, `:dn` and a matching rule, of which some may be left out. -/
def matchHead (text : List Char) : Bool :=
  match text.splitOn ':' with
  | [name] => attributeText name
  | [name, rule] => (attributeText name && (rule = ['d', 'n'] || oidText rule)) || (name = [] && oidText rule)
  | [name, dn, rule] => (name = [] || attributeText name) && dn = ['d', 'n'] && oidText rule
  | _ => false

/-- One assertion. -/
inductive Item where
  | equal (attr : List Char) (value : List UInt8)
  | approx (attr : List Char) (value : List UInt8)
  | atLeast (attr : List Char) (value : List UInt8)
  | atMost (attr : List Char) (value : List UInt8)
  | present (attr : List Char)
  | substrings (attr : List Char) (start : List UInt8) (inside : List (List UInt8)) (stop : List UInt8)
  | extensible (head : List Char) (value : List UInt8)

/-- A star alone asks whether the attribute is there; any other stars stand between the parts of a value. -/
def readMatch (attr right : List Char) : Option Item :=
  match right.splitOn '*' with
  | [value] => (decodeValue value).map (Item.equal attr)
  | [[], []] => some (.present attr)
  | parts => do
      let values ← parts.mapM decodeValue
      return .substrings attr (values.headD []) values.tail.dropLast (values.getLastD [])

/-- `item`, by what stands on either side of the first equals sign. -/
def readItem (text : List Char) : Option Item :=
  let left := text.takeWhile (· ≠ '=')
  match text.dropWhile (· ≠ '=') with
  | [] => none
  | _ :: right =>
      match left.getLast? with
      | some '~' => if attributeText left.dropLast then (decodeValue right).map (Item.approx left.dropLast) else none
      | some '>' => if attributeText left.dropLast then (decodeValue right).map (Item.atLeast left.dropLast) else none
      | some '<' => if attributeText left.dropLast then (decodeValue right).map (Item.atMost left.dropLast) else none
      | some ':' => if matchHead left.dropLast then (decodeValue right).map (Item.extensible left.dropLast) else none
      | _ => if attributeText left then readMatch left right else none

inductive Filter where
  | and (filters : List Filter)
  | or (filters : List Filter)
  | not (filter : Filter)
  | item (item : Item)

mutual

/-- `filter`: a text says a filter. -/
inductive Reads : Filter → List Char → Prop
  | and {filters : List Filter} {text : List Char} (hne : filters ≠ []) (h : ReadsAll filters text) :
      Reads (.and filters) ('(' :: '&' :: (text ++ [')']))
  | or {filters : List Filter} {text : List Char} (hne : filters ≠ []) (h : ReadsAll filters text) :
      Reads (.or filters) ('(' :: '|' :: (text ++ [')']))
  | not {filter : Filter} {text : List Char} (h : Reads filter text) : Reads (.not filter) ('(' :: '!' :: (text ++ [')']))
  | item {item : Item} {text : List Char} (h : readItem text = some item) : Reads (.item item) ('(' :: (text ++ [')']))

/-- `filterlist` -/
inductive ReadsAll : List Filter → List Char → Prop
  | nil : ReadsAll [] []
  | cons {filter : Filter} {filters : List Filter} {text rest : List Char} (h : Reads filter text)
      (hrest : ReadsAll filters rest) : ReadsAll (filter :: filters) (text ++ rest)

end

/-- A character that ends or opens a filter. -/
def bracket (c : Char) : Bool := c = '(' || c = ')'

variable {c : Char}

theorem hexDigit_bracket {n : Nat} (h : hexDigit c = some n) : bracket c = false := by
  rw [Bool.eq_false_iff]
  intro hbracket
  simp only [bracket, Bool.or_eq_true, decide_eq_true_eq] at hbracket
  rcases hbracket with rfl | rfl
  · have hnone : hexDigit '(' = none := by decide
    rw [hnone] at h
    cases h
  · have hnone : hexDigit ')' = none := by decide
    rw [hnone] at h
    cases h

/-- What no value holds unless escaped. -/
def reserved (c : Char) : Bool := bracket c || c = '*'

theorem hexDigit_reserved {n : Nat} (h : hexDigit c = some n) : reserved c = false := by
  rw [reserved, hexDigit_bracket h, Bool.false_or, decide_eq_false_iff_not]
  rintro rfl
  have hnone : hexDigit '*' = none := by decide
  rw [hnone] at h
  cases h

theorem decodeValue_reserved {text : List Char} {value : List UInt8} (h : decodeValue text = some value) :
    ∀ c ∈ text, reserved c = false := by
  fun_induction decodeValue generalizing value with
  | case1 => simp
  | case2 high low rest ih =>
      simp only [Option.bind_eq_bind, Option.bind_eq_some_iff, hexOctet] at h
      obtain ⟨octet, ⟨n, hhigh, m, hlow, -⟩, values, hrest, -⟩ := h
      intro c hc
      simp only [List.mem_cons] at hc
      rcases hc with rfl | rfl | rfl | hc
      · decide
      · exact hexDigit_reserved hhigh
      · exact hexDigit_reserved hlow
      · exact ih hrest c hc
  | case3 => cases h
  | case4 c rest _ hplain ih =>
      simp only [Option.bind_eq_bind, Option.bind_eq_some_iff] at h
      obtain ⟨values, hrest, -⟩ := h
      intro d hd
      rcases List.mem_cons.mp hd with rfl | hd
      · rw [Bool.eq_false_iff]
        intro hreserved
        simp only [reserved, bracket, Bool.or_eq_true, decide_eq_true_eq] at hreserved
        rcases hreserved with (rfl | rfl) | rfl
        · exact hplain (by decide)
        · exact hplain (by decide)
        · exact hplain (by decide)
      · exact ih hrest d hd

theorem decodeValue_bracket {text : List Char} {value : List UInt8} (h : decodeValue text = some value) :
    ∀ c ∈ text, bracket c = false :=
  fun c hc => (Bool.or_eq_false_iff.mp (decodeValue_reserved h c hc)).1

theorem decodeValue_star {text : List Char} {value : List UInt8} (h : decodeValue text = some value) : '*' ∉ text :=
  fun hmem => absurd (decodeValue_reserved h _ hmem) (by decide)

theorem mem_splitOn (separator : Char) {text : List Char} (h : c ∈ text) :
    c = separator ∨ ∃ part ∈ text.splitOn separator, c ∈ part := by
  by_cases hc : c = separator
  · exact .inl hc
  · exact .inr (List.mem_splitOnP_of_mem h (beq_eq_false_iff_ne.mpr hc))

/-- The characters of what stands before an equals sign, apart from the one that says how to compare. -/
def headChar (c : Char) : Bool := keyChar c || c ∈ ['.', ';', ':']

theorem descrText_chars {text : List Char} (h : descrText text = true) : text ≠ [] ∧ ∀ c ∈ text, headChar c = true := by
  cases text with
  | nil => cases h
  | cons c rest =>
      simp only [descrText, Bool.and_eq_true, List.all_eq_true] at h
      refine ⟨List.cons_ne_nil _ _, fun d hd => ?_⟩
      rcases List.mem_cons.mp hd with rfl | hd
      · simp [headChar, keyChar, Char.isAlphanum, h.1]
      · simp [headChar, h.2 d hd]

theorem numericOid_chars {text : List Char} (h : numericOid text = true) : text ≠ [] ∧ ∀ c ∈ text, headChar c = true := by
  simp only [numericOid, Bool.and_eq_true, decide_eq_true_eq, List.all_eq_true] at h
  constructor
  · rintro rfl
    exact absurd h.1 (by decide)
  · intro c hc
    rcases mem_splitOn '.' hc with rfl | ⟨part, hpart, hc⟩
    · decide
    · have hnumber := h.2 part hpart
      simp only [numberText, Bool.and_eq_true, List.all_eq_true] at hnumber
      have hdigit := hnumber.1.2 c hc
      simp [headChar, keyChar, Char.isAlphanum, hdigit]

theorem oidText_chars {text : List Char} (h : oidText text = true) : text ≠ [] ∧ ∀ c ∈ text, headChar c = true := by
  rcases Bool.or_eq_true_iff.mp h with h | h
  · exact descrText_chars h
  · exact numericOid_chars h

theorem attributeText_chars {text : List Char} (h : attributeText text = true) :
    text ≠ [] ∧ ∀ c ∈ text, headChar c = true := by
  unfold attributeText at h
  split at h
  · cases h
  · rename_i name options hsplit
    simp only [Bool.and_eq_true, List.all_eq_true, decide_eq_true_eq] at h
    have hname := oidText_chars h.1
    constructor
    · rintro rfl
      obtain ⟨rfl, -⟩ := List.cons.inj hsplit
      exact hname.1 rfl
    · intro c hc
      rcases mem_splitOn ';' hc with rfl | ⟨part, hpart, hc⟩
      · decide
      · rw [hsplit] at hpart
        rcases List.mem_cons.mp hpart with rfl | hpart
        · exact hname.2 c hc
        · simp [headChar, (h.2 part hpart).2 c hc]

theorem matchHead_chars {text : List Char} (h : matchHead text = true) :
    text ≠ [] ∧ ∀ c ∈ text, headChar c = true := by
  have hparts : (∃ part ∈ text.splitOn ':', part ≠ []) ∧
      ∀ part ∈ text.splitOn ':', ∀ c ∈ part, headChar c = true := by
    unfold matchHead at h
    split at h
    · rename_i name hsplit
      rw [hsplit]
      have hname := attributeText_chars h
      exact ⟨⟨name, by simp, hname.1⟩, by simpa using hname.2⟩
    · rename_i name rule hsplit
      rw [hsplit]
      simp only [Bool.or_eq_true, Bool.and_eq_true, decide_eq_true_eq] at h
      have hdn : ∀ c ∈ ['d', 'n'], headChar c = true := List.all_eq_true.mp rfl
      rcases h with ⟨hname, hrule⟩ | ⟨rfl, hrule⟩
      · have hname := attributeText_chars hname
        have hrule : ∀ c ∈ rule, headChar c = true := by
          rcases hrule with rfl | hrule
          · exact hdn
          · exact (oidText_chars hrule).2
        exact ⟨⟨name, by simp, hname.1⟩, by simpa using ⟨hname.2, hrule⟩⟩
      · have hrule := oidText_chars hrule
        exact ⟨⟨rule, by simp, hrule.1⟩, by simpa using hrule.2⟩
    · rename_i name dn rule hsplit
      rw [hsplit]
      simp only [Bool.or_eq_true, Bool.and_eq_true, decide_eq_true_eq] at h
      obtain ⟨⟨hname, rfl⟩, hrule⟩ := h
      have hrule := oidText_chars hrule
      have hname : ∀ c ∈ name, headChar c = true := by
        rcases hname with rfl | hname
        · simp
        · exact (attributeText_chars hname).2
      exact ⟨⟨rule, by simp, hrule.1⟩, by
        intro part hpart
        simp only [List.mem_cons, List.not_mem_nil, or_false] at hpart
        rcases hpart with rfl | rfl | rfl
        · exact hname
        · exact List.all_eq_true.mp rfl
        · exact hrule.2⟩
    · cases h
  constructor
  · rintro rfl
    obtain ⟨part, hpart, hne⟩ := hparts.1
    rw [List.splitOn_nil, List.mem_singleton] at hpart
    exact hne hpart
  · intro c hc
    rcases mem_splitOn ':' hc with rfl | ⟨part, hpart, hc⟩
    · decide
    · exact hparts.2 part hpart c hc

theorem readMatch_bracket {attr right : List Char} {item : Item} (h : readMatch attr right = some item) :
    ∀ c ∈ right, bracket c = false := by
  have hparts : ∀ part ∈ right.splitOn '*', ∀ c ∈ part, bracket c = false := by
    unfold readMatch at h
    split at h
    · rename_i value hsplit
      rw [hsplit]
      obtain ⟨octets, hoctets, -⟩ := Option.map_eq_some_iff.mp h
      simpa using decodeValue_bracket hoctets
    · rename_i hsplit
      rw [hsplit]
      simp
    · simp only [Option.bind_eq_bind, Option.bind_eq_some_iff] at h
      obtain ⟨values, hvalues, -⟩ := h
      intro part hpart
      obtain ⟨value, -, hvalue⟩ := List.exists_of_forall₂ (List.mapM_eq_some_iff.mp hvalues) _ hpart
      exact decodeValue_bracket hvalue
  intro c hc
  rcases mem_splitOn '*' hc with rfl | ⟨part, hpart, hc⟩
  · decide
  · exact hparts part hpart c hc

theorem headChar_plain (h : headChar c = true) : bracket c = false ∧ c ≠ '&' ∧ c ≠ '|' ∧ c ≠ '!' := by
  have hout : ∀ d ∈ ['(', ')', '&', '|', '!'], headChar d = false := List.forall_mem_iff_forall_getElem.mpr (by decide)
  have hne : ∀ d ∈ ['(', ')', '&', '|', '!'], c ≠ d := by
    rintro d hd rfl
    rw [hout c hd] at h
    cases h
  refine ⟨?_, hne _ (by simp), hne _ (by simp), hne _ (by simp)⟩
  simp [bracket, hne '(' (by simp), hne ')' (by simp)]

/-- What stands around an equals sign. -/
def Sides (left right : List Char) : Prop :=
  (∀ c ∈ right, bracket c = false) ∧ ∃ head, head ≠ [] ∧ (∀ c ∈ head, headChar c = true) ∧
    (left = head ∨ ∃ c ∈ ['~', '>', '<', ':'], left = head ++ [c])

theorem sides_marked {left right : List Char} {item : Item} {p : List Char → Bool} {make : List UInt8 → Item}
    (hp : p left.dropLast = true → left.dropLast ≠ [] ∧ ∀ c ∈ left.dropLast, headChar c = true)
    (hc : c ∈ ['~', '>', '<', ':']) (hlast : left.getLast? = some c)
    (h : (if p left.dropLast = true then (decodeValue right).map make else none) = some item) : Sides left right := by
  split at h
  · rename_i hname
    obtain ⟨octets, hoctets, -⟩ := Option.map_eq_some_iff.mp h
    have hname := hp hname
    exact ⟨decodeValue_bracket hoctets, left.dropLast, hname.1, hname.2,
      .inr ⟨c, hc, (List.dropLast_append_getLast? _ hlast).symm⟩⟩
  · cases h

theorem readItem_sides {text : List Char} {item : Item} (h : readItem text = some item) :
    ∃ left right, text = left ++ '=' :: right ∧ Sides left right := by
  unfold readItem at h
  dsimp only at h
  split at h
  · cases h
  · rename_i c right hright
    have hc : c = '=' := by
      have hhead := List.head?_dropWhile_not (fun d : Char => decide (d ≠ '=')) text
      rw [hright] at hhead
      simpa using hhead
    have htext := List.takeWhile_append_dropWhile (p := fun d : Char => decide (d ≠ '=')) (l := text)
    rw [hright, hc] at htext
    refine ⟨_, right, htext.symm, ?_⟩
    generalize text.takeWhile (fun d => decide (d ≠ '=')) = left at h
    split at h
    · rename_i hlast
      exact sides_marked attributeText_chars (by simp) hlast h
    · rename_i hlast
      exact sides_marked attributeText_chars (by simp) hlast h
    · rename_i hlast
      exact sides_marked attributeText_chars (by simp) hlast h
    · rename_i hlast
      exact sides_marked matchHead_chars (by simp) hlast h
    · split at h
      · rename_i hname
        have hname := attributeText_chars hname
        exact ⟨readMatch_bracket h, left, hname.1, hname.2, .inl rfl⟩
      · cases h

theorem readItem_plain {text : List Char} {item : Item} (h : readItem text = some item) :
    (∀ c ∈ text, bracket c = false) ∧ ∃ c rest, text = c :: rest ∧ c ≠ '&' ∧ c ≠ '|' ∧ c ≠ '!' := by
  obtain ⟨left, right, rfl, hright, head, hne, hhead, hleft⟩ := readItem_sides h
  have hplain : ∀ c ∈ left, bracket c = false := by
    rcases hleft with rfl | ⟨mark, hmark, rfl⟩
    · exact fun c hc => (headChar_plain (hhead c hc)).1
    · intro c hc
      rcases List.mem_append.mp hc with hc | hc
      · exact (headChar_plain (hhead c hc)).1
      · rw [List.mem_singleton.mp hc]
        simp only [List.mem_cons, List.not_mem_nil, or_false] at hmark
        rcases hmark with rfl | rfl | rfl | rfl <;> rfl
  constructor
  · intro c hc
    rcases List.mem_append.mp hc with hc | hc
    · exact hplain c hc
    · rcases List.mem_cons.mp hc with rfl | hc
      · rfl
      · exact hright c hc
  · obtain ⟨c, rest, rfl⟩ := List.exists_cons_of_ne_nil hne
    obtain ⟨-, hfirst⟩ := headChar_plain (hhead c List.mem_cons_self)
    rcases hleft with rfl | ⟨mark, -, rfl⟩
    · exact ⟨c, _, rfl, hfirst⟩
    · exact ⟨c, _, rfl, hfirst⟩

section
variable {attr right value : List Char} {octets : List UInt8}

theorem readItem_eq (hattr : attributeText attr = true) (hplain : ∀ c ∈ attr, c ∉ ['=', '~', '>', '<', ':']) :
    readItem (attr ++ '=' :: right) = readMatch attr right := by
  have hne : ∀ c ∈ attr, decide (c ≠ '=') = true := fun c hc => decide_eq_true fun heq => hplain c hc (by simp [heq])
  have hlast : ∀ c, attr.getLast? = some c → c ∉ ['=', '~', '>', '<', ':'] :=
    fun c hc => hplain c (List.mem_of_getLast? hc)
  have hleft : (attr ++ '=' :: right).takeWhile (fun c => decide (c ≠ '=')) = attr := by
    rw [List.takeWhile_append_of_pos hne]
    simp
  have hright : (attr ++ '=' :: right).dropWhile (fun c => decide (c ≠ '=')) = '=' :: right := by
    rw [List.dropWhile_append_of_pos hne]
    simp
  unfold readItem
  dsimp only
  rw [hleft, hright]
  dsimp only
  split
  · rename_i h
    exact absurd (by simp) (hlast _ h)
  · rename_i h
    exact absurd (by simp) (hlast _ h)
  · rename_i h
    exact absurd (by simp) (hlast _ h)
  · rename_i h
    exact absurd (by simp) (hlast _ h)
  · rw [if_pos hattr]

theorem readMatch_equal (h : decodeValue value = some octets) : readMatch attr value = some (.equal attr octets) := by
  rw [readMatch, List.splitOn_eq_singleton (decodeValue_star h)]
  simp [h]

theorem readMatch_present : readMatch attr ['*'] = some (.present attr) := rfl

theorem splitOn_stop (h : '*' ∉ value) : (value ++ ['*']).splitOn '*' = [value, []] := by
  rw [List.splitOn_append_cons_self, List.splitOn_eq_singleton h]
  rfl

theorem readMatch_start (h : decodeValue value = some octets) (hne : value ≠ []) :
    readMatch attr (value ++ ['*']) = some (.substrings attr octets [] []) := by
  rw [readMatch, splitOn_stop (decodeValue_star h)]
  cases value with
  | nil => exact absurd rfl hne
  | cons c rest => simp [h, decodeValue]

theorem readMatch_inside (h : decodeValue value = some octets) :
    readMatch attr ('*' :: (value ++ ['*'])) = some (.substrings attr [] [octets] []) := by
  have hsplit : ('*' :: (value ++ ['*'])).splitOn '*' = [[], value, []] := by
    rw [← List.nil_append ('*' :: (value ++ ['*'])), List.splitOn_append_cons_self, splitOn_stop (decodeValue_star h)]
    rfl
  rw [readMatch, hsplit]
  simp [h, decodeValue]

end

theorem reads_open {filter : Filter} {text : List Char} (h : Reads filter text) : ∃ rest, text = '(' :: rest := by
  cases h with
  | and => exact ⟨_, rfl⟩
  | or => exact ⟨_, rfl⟩
  | not => exact ⟨_, rfl⟩
  | item => exact ⟨_, rfl⟩

theorem item_close {text text' rest rest' : List Char} {item item' : Item} (h : readItem text = some item)
    (h' : readItem text' = some item') (heq : text ++ ')' :: rest = text' ++ ')' :: rest') : text = text' := by
  have hout : ∀ {text : List Char} {item : Item}, readItem text = some item → ')' ∉ text := by
    intro text item hitem hmem
    have := (readItem_plain hitem).1 _ hmem
    cases this
  exact (Text.append_separator_inj (hout h) (hout h') heq).1

mutual

theorem reads_unique {filter : Filter} {text : List Char} (h : Reads filter text) {filter' : Filter}
    {text' rest rest' : List Char} (h' : Reads filter' text') (heq : text ++ rest = text' ++ rest') :
    filter = filter' ∧ text = text' := by
  cases h with
  | and hne hall =>
      cases h' with
      | and hne' hall' =>
          simp only [List.cons_append, List.append_assoc, List.cons.injEq, true_and] at heq
          obtain ⟨rfl, rfl⟩ := readsAll_unique hall hall' heq
          exact ⟨rfl, rfl⟩
      | or => simp at heq
      | not => simp at heq
      | item hitem =>
          obtain ⟨-, c, more, rfl, hand, -, -⟩ := readItem_plain hitem
          simp at heq
          exact absurd heq.1.symm hand
  | or hne hall =>
      cases h' with
      | and => simp at heq
      | or hne' hall' =>
          simp only [List.cons_append, List.append_assoc, List.cons.injEq, true_and] at heq
          obtain ⟨rfl, rfl⟩ := readsAll_unique hall hall' heq
          exact ⟨rfl, rfl⟩
      | not => simp at heq
      | item hitem =>
          obtain ⟨-, c, more, rfl, -, hor, -⟩ := readItem_plain hitem
          simp at heq
          exact absurd heq.1.symm hor
  | not hinner =>
      cases h' with
      | and => simp at heq
      | or => simp at heq
      | not hinner' =>
          simp only [List.cons_append, List.append_assoc, List.cons.injEq, true_and] at heq
          obtain ⟨rfl, rfl⟩ := reads_unique hinner hinner' heq
          exact ⟨rfl, rfl⟩
      | item hitem =>
          obtain ⟨-, c, more, rfl, -, -, hnot⟩ := readItem_plain hitem
          simp at heq
          exact absurd heq.1.symm hnot
  | item hitem =>
      have hplain := readItem_plain hitem
      cases h' with
      | and =>
          obtain ⟨-, c, more, rfl, hand, -, -⟩ := hplain
          simp at heq
          exact absurd heq.1 hand
      | or =>
          obtain ⟨-, c, more, rfl, -, hor, -⟩ := hplain
          simp at heq
          exact absurd heq.1 hor
      | not =>
          obtain ⟨-, c, more, rfl, -, -, hnot⟩ := hplain
          simp at heq
          exact absurd heq.1 hnot
      | item hitem' =>
          simp only [List.cons_append, List.append_assoc, List.cons.injEq, true_and] at heq
          obtain rfl := item_close hitem hitem' heq
          rw [hitem] at hitem'
          cases hitem'
          exact ⟨rfl, rfl⟩

theorem readsAll_unique {filters : List Filter} {text : List Char} (h : ReadsAll filters text) {filters' : List Filter}
    {text' rest rest' : List Char} (h' : ReadsAll filters' text') (heq : text ++ ')' :: rest = text' ++ ')' :: rest') :
    filters = filters' ∧ text = text' := by
  cases h with
  | nil =>
      cases h' with
      | nil => exact ⟨rfl, rfl⟩
      | cons hfirst _ =>
          obtain ⟨more, rfl⟩ := reads_open hfirst
          simp at heq
  | cons hfirst hmore =>
      cases h' with
      | nil =>
          obtain ⟨more, rfl⟩ := reads_open hfirst
          simp at heq
      | cons hfirst' hmore' =>
          rw [List.append_assoc, List.append_assoc] at heq
          obtain ⟨rfl, rfl⟩ := reads_unique hfirst hfirst' heq
          obtain ⟨rfl, rfl⟩ := readsAll_unique hmore hmore' (List.append_cancel_left heq)
          exact ⟨rfl, rfl⟩

end

end FilterText
