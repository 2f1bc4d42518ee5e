import OpenDirectory.Value
import OpenDirectory.Lists

/-! The text of a JSON value with its keys sorted and no blanks, in plain ASCII. Two values with the
same text are the same up to the order of the keys in their objects. -/

namespace Value

def hexUnit (n : Nat) : List Char :=
  ['\\', 'u', (n / 4096 % 16).digitChar, (n / 256 % 16).digitChar, (n / 16 % 16).digitChar,
    (n % 16).digitChar]

/-- A character beyond the basic plane is written as two units. -/
def escapeChar (c : Char) : List Char :=
  if c = '"' then ['\\', '"']
  else if c = '\\' then ['\\', '\\']
  else if c = '\n' then ['\\', 'n']
  else if c = '\r' then ['\\', 'r']
  else if c = '\t' then ['\\', 't']
  else if c = '\x08' then ['\\', 'b']
  else if c = '\x0c' then ['\\', 'f']
  else if 32 ≤ c.toNat ∧ c.toNat ≤ 126 then [c]
  else if c.toNat < 0x10000 then hexUnit c.toNat
  else hexUnit (0xd800 + (c.toNat - 0x10000) / 0x400) ++
    hexUnit (0xdc00 + (c.toNat - 0x10000) % 0x400)

def quote (s : String) : List Char := '"' :: (s.toList.flatMap escapeChar ++ ['"'])

mutual

/-- The text of a value, its fields in the order they stand. -/
def render : Value → List Char
  | .null => "null".toList
  | .bool true => "true".toList
  | .bool false => "false".toList
  | .int n => (toString n).toList
  | .float number => number.text.toList
  | .str s => quote s
  | .arr [] => ['[', ']']
  | .arr (item :: items) => '[' :: (render item ++ renderItems items)
  | .obj [] => ['{', '}']
  | .obj ((key, value) :: fields) =>
      '{' :: (quote key ++ ':' :: (render value ++ renderFields fields))

def renderItems : List Value → List Char
  | [] => [']']
  | item :: items => ',' :: (render item ++ renderItems items)

def renderFields : Fields → List Char
  | [] => ['}']
  | (key, value) :: fields => ',' :: (quote key ++ ':' :: (render value ++ renderFields fields))

end

mutual

/-- The value with the keys of every object in order. -/
def sorted : Value → Value
  | .arr items => .arr (sortedItems items)
  | .obj fields => .obj ((sortedFields fields).sortedBy Prod.fst)
  | value => value

def sortedItems : List Value → List Value
  | [] => []
  | item :: items => sorted item :: sortedItems items

def sortedFields : Fields → Fields
  | [] => []
  | (key, value) :: fields => (key, sorted value) :: sortedFields fields

end

/-- `json.dumps(value, sort_keys=True, separators=(",", ":"))`. -/
def dumps (value : Value) : String := String.ofList (render (sorted value))

example : dumps (.obj [("b", .arr [.int 1, .null]), ("a", .str "é\n")]) =
    "\x7b\"a\":\"\\u00e9\\n\",\"b\":[1,null]\x7d" := by decide

def hexValue (c : Char) : Nat := if c.isDigit then c.toNat - 48 else c.toNat - 87

def unitValue (a b c d : Char) : Nat :=
  4096 * hexValue a + 256 * hexValue b + 16 * hexValue c + hexValue d

def readPair (high : Nat) : List Char → Option (Char × List Char)
  | '\\' :: 'u' :: a :: b :: c :: d :: rest =>
      some (Char.ofNat (0x10000 + (high - 0xd800) * 0x400 + (unitValue a b c d - 0xdc00)), rest)
  | _ => none

def readChar : List Char → Option (Char × List Char)
  | '\\' :: '"' :: rest => some ('"', rest)
  | '\\' :: '\\' :: rest => some ('\\', rest)
  | '\\' :: 'n' :: rest => some ('\n', rest)
  | '\\' :: 'r' :: rest => some ('\r', rest)
  | '\\' :: 't' :: rest => some ('\t', rest)
  | '\\' :: 'b' :: rest => some ('\x08', rest)
  | '\\' :: 'f' :: rest => some ('\x0c', rest)
  | '\\' :: 'u' :: a :: b :: c :: d :: rest =>
      if 0xd800 ≤ unitValue a b c d ∧ unitValue a b c d < 0xdc00 then
        readPair (unitValue a b c d) rest
      else some (Char.ofNat (unitValue a b c d), rest)
  | c :: rest => some (c, rest)
  | [] => none

variable {n : Nat} {rest' : List Char}

theorem hexValue_digitChar (h : n < 16) : hexValue n.digitChar = n := by
  revert n
  decide

theorem unitValue_digits (h : n < 0x10000) :
    unitValue (n / 4096 % 16).digitChar (n / 256 % 16).digitChar (n / 16 % 16).digitChar
      (n % 16).digitChar = n := by
  unfold unitValue
  rw [hexValue_digitChar (by omega), hexValue_digitChar (by omega), hexValue_digitChar (by omega),
    hexValue_digitChar (by omega)]
  omega

theorem toNat_char (c : Char) : c.toNat < 0xd800 ∨ 0xdfff < c.toNat ∧ c.toNat < 0x110000 := c.valid

theorem readChar_hexUnit (h : n < 0x10000) (rest : List Char) :
    readChar (hexUnit n ++ rest) =
      if 0xd800 ≤ n ∧ n < 0xdc00 then readPair n rest else some (Char.ofNat n, rest) := by
  simp only [hexUnit, List.cons_append, List.nil_append, readChar, unitValue_digits h]

theorem readPair_hexUnit (h : n < 0x10000) (high : Nat) (rest : List Char) :
    readPair high (hexUnit n ++ rest) =
      some (Char.ofNat (0x10000 + (high - 0xd800) * 0x400 + (n - 0xdc00)), rest) := by
  simp only [hexUnit, List.cons_append, List.nil_append, readPair, unitValue_digits h]

theorem readChar_escapeChar (c : Char) (rest : List Char) :
    readChar (escapeChar c ++ rest) = some (c, rest) := by
  have hvalid := toNat_char c
  unfold escapeChar
  split_ifs with h1 h2 h3 h4 h5 h6 h7 h8 h9
  · rw [h1]; rfl
  · rw [h2]; rfl
  · rw [h3]; rfl
  · rw [h4]; rfl
  · rw [h5]; rfl
  · rw [h6]; rfl
  · rw [h7]; rfl
  · unfold readChar
    simp [h2]
  · rw [readChar_hexUnit h9, if_neg (by omega), Char.ofNat_toNat]
  · have hlt : (c.toNat - 0x10000) / 0x400 < 0x400 := by omega
    rw [List.append_assoc, readChar_hexUnit (by omega), if_pos (by omega),
      readPair_hexUnit (by omega)]
    have hvalue : 0x10000 + (0xd800 + (c.toNat - 0x10000) / 0x400 - 0xd800) * 0x400 +
        (0xdc00 + (c.toNat - 0x10000) % 0x400 - 0xdc00) = c.toNat := by omega
    rw [hvalue, Char.ofNat_toNat]

theorem escapeChar_ne_quote (c : Char) (rest rest' : List Char) :
    escapeChar c ++ rest ≠ '"' :: rest' := by
  unfold escapeChar hexUnit
  split_ifs with h1 <;> simp [h1]

theorem quote_inj {s s' : String} {rest : List Char}
    (h : quote s ++ rest = quote s' ++ rest') : s = s' ∧ rest = rest' := by
  have hgen : ∀ s s' : List Char, s.flatMap escapeChar ++ '"' :: rest =
      s'.flatMap escapeChar ++ '"' :: rest' → s = s' ∧ rest = rest' := by
    intro s
    induction s with
    | nil =>
        intro s' h
        cases s' with
        | nil => exact ⟨rfl, (List.cons.inj h).2⟩
        | cons c s' =>
            rw [List.flatMap_cons, List.append_assoc] at h
            exact absurd h.symm (escapeChar_ne_quote c _ _)
    | cons c s ih =>
        intro s' h
        cases s' with
        | nil =>
            rw [List.flatMap_cons, List.append_assoc] at h
            exact absurd h (escapeChar_ne_quote c _ _)
        | cons c' s' =>
            have hread := congrArg readChar h
            simp only [List.flatMap_cons, List.append_assoc, readChar_escapeChar] at hread
            obtain ⟨rfl, htail⟩ := Prod.mk.inj (Option.some.inj hread)
            obtain ⟨rfl, hrest⟩ := ih s' htail
            exact ⟨rfl, hrest⟩
  simp only [quote, List.cons_append, List.append_assoc, List.nil_append, List.cons.injEq,
    true_and] at h
  obtain ⟨hchars, hrest⟩ := hgen s.toList s'.toList h
  exact ⟨String.toList_inj.mp hchars, hrest⟩

theorem int_chars (n : Int) : ∀ c ∈ (toString n).toList, c.isDigit = true ∨ c = '-' := by
  intro c hc
  have hnat : ∀ m : Nat, c ∈ m.repr.toList → c.isDigit = true := by
    intro m hm
    rw [Nat.toList_repr] at hm
    exact Nat.isDigit_of_mem_toDigits (by decide) (by decide) hm
  cases n with
  | ofNat m => exact .inl (hnat m hc)
  | negSucc m =>
      have hc' : c ∈ ("-" ++ (m + 1).repr).toList := hc
      rw [String.toList_append] at hc'
      rcases List.mem_append.mp hc' with hsign | hdigits
      · exact .inr (by simpa using hsign)
      · exact .inl (hnat _ hdigits)

theorem int_ne_nil (n : Int) : (toString n).toList ≠ [] := by
  intro h
  have hempty : Int.repr n = "" := String.toList_inj.mp h
  cases n with
  | ofNat m => exact Nat.repr_ne_empty hempty
  | negSucc m =>
      have hsign : ("-" ++ (m + 1).repr).toList = [] := congrArg String.toList hempty
      rw [String.toList_append] at hsign
      exact absurd (List.append_eq_nil_iff.mp hsign).1 (by decide)

/-- What may follow a number. -/
def EndsNumber (rest : List Char) : Prop := ∀ c ∈ rest.head?, isNumberChar c = false

theorem number_inj {token token' rest : List Char} (hrest : EndsNumber rest)
    (hrest' : EndsNumber rest') (htoken : ∀ c ∈ token, isNumberChar c = true)
    (htoken' : ∀ c ∈ token', isNumberChar c = true) (h : token ++ rest = token' ++ rest') :
    token = token' ∧ rest = rest' := by
  induction token generalizing token' with
  | nil =>
      cases token' with
      | nil => exact ⟨rfl, h⟩
      | cons c token' =>
          have hnumber := htoken' c List.mem_cons_self
          rw [hrest c (by rw [show rest = c :: (token' ++ rest') from h]; rfl)] at hnumber
          cases hnumber
  | cons c token ih =>
      cases token' with
      | nil =>
          have hnumber := htoken c List.mem_cons_self
          rw [hrest' c (by rw [← show c :: (token ++ rest) = rest' from h]; rfl)] at hnumber
          cases hnumber
      | cons c' token' =>
          obtain ⟨hhead, htail⟩ := List.cons.inj h
          obtain ⟨htokens, hrests⟩ := ih (fun c hc => htoken c (.tail _ hc))
            (fun c hc => htoken' c (.tail _ hc)) htail
          exact ⟨by rw [hhead, htokens], hrests⟩

/-- The first character of a value's text says which kind of value it is. -/
inductive Kind where
  | null | yes | no | number | text | array | object | other
  deriving DecidableEq

def kind : Value → Kind
  | .null => .null
  | .bool true => .yes
  | .bool false => .no
  | .int _ => .number
  | .float _ => .number
  | .str _ => .text
  | .arr _ => .array
  | .obj _ => .object

def kindOf (c : Char) : Kind :=
  if c = 'n' then .null else if c = 't' then .yes else if c = 'f' then .no
  else if c = '"' then .text else if c = '[' then .array else if c = '{' then .object
  else if isNumberChar c then .number else .other

theorem kindOf_number {c : Char} (h : isNumberChar c = true) : kindOf c = .number := by
  unfold kindOf
  split_ifs with h1 h2 h3 h4 h5 h6
  all_goals first | rfl | (subst_vars; exact absurd h (by decide))

theorem kind_ne_other (value : Value) : kind value ≠ .other := by
  cases value with
  | bool b => cases b <;> decide
  | _ => simp [kind]

theorem exists_head (value : Value) :
    ∃ c rest, render value = c :: rest ∧ kindOf c = kind value := by
  cases value with
  | null => exact ⟨_, _, rfl, by decide⟩
  | bool b => cases b <;> exact ⟨_, _, rfl, by decide⟩
  | int n =>
      obtain ⟨c, rest, hcons⟩ := List.exists_cons_of_ne_nil (int_ne_nil n)
      refine ⟨c, rest, hcons, kindOf_number ?_⟩
      rcases int_chars n c (hcons ▸ List.mem_cons_self) with hdigit | rfl
      · simp [isNumberChar, hdigit]
      · decide
  | float number =>
      obtain ⟨c, rest, hcons⟩ := List.exists_cons_of_ne_nil number.text_ne_nil
      exact ⟨c, rest, hcons, kindOf_number (number.number_chars c (hcons ▸ List.mem_cons_self))⟩
  | str s => exact ⟨_, _, rfl, rfl⟩
  | arr items => cases items <;> exact ⟨_, _, rfl, rfl⟩
  | obj fields => cases fields <;> exact ⟨_, _, rfl, rfl⟩

theorem render_ne_close {value : Value} {tail rest : List Char} : (render value ++ tail) ++ rest ≠ ']' :: rest' := by
  intro h
  obtain ⟨c, _, hc, hkind⟩ := exists_head value
  rw [hc] at h
  rw [(List.cons.inj h).1] at hkind
  exact kind_ne_other value hkind.symm

theorem kind_eq_of_render {a b : Value} {rest : List Char}
    (h : render a ++ rest = render b ++ rest') : kind a = kind b := by
  obtain ⟨c, _, hc, hkind⟩ := exists_head a
  obtain ⟨c', _, hc', hkind'⟩ := exists_head b
  rw [hc, hc'] at h
  rw [← hkind, ← hkind', (List.cons.inj h).1]

theorem int_number_chars (n : Int) : ∀ c ∈ (toString n).toList, isNumberChar c = true := by
  intro c hc
  rcases int_chars n c hc with hdigit | rfl
  · simp [isNumberChar, hdigit]
  · decide

theorem int_ne_float {n : Int} {number : Printed} :
    (toString n).toList ≠ number.text.toList := by
  intro heq
  have h := number.isFloat
  simp only [isFloatText, Bool.and_eq_true, List.any_eq_true, Bool.or_eq_true,
    decide_eq_true_eq] at h
  obtain ⟨c, hc, hpoint⟩ := h.2
  rcases int_chars n c (heq ▸ hc) with hdigit | rfl
  · rcases hpoint with rfl | rfl <;> exact absurd hdigit (by decide)
  · exact absurd hpoint (by decide)

theorem endsNumber_cons {c : Char} (h : isNumberChar c = false) (rest : List Char) :
    EndsNumber (c :: rest) := by
  intro c' hc'
  obtain rfl : c = c' := by simpa using hc'
  exact h

theorem endsNumber_renderItems (items : List Value) (rest : List Char) :
    EndsNumber (renderItems items ++ rest) := by
  cases items <;> exact endsNumber_cons (by decide) _

theorem endsNumber_renderFields (fields : Fields) (rest : List Char) :
    EndsNumber (renderFields fields ++ rest) := by
  cases fields with
  | nil => exact endsNumber_cons (by decide) _
  | cons entry fields => exact endsNumber_cons (by decide) _

theorem render_number_inj {a b : Value} (hkind : kind a = .number) (hsame : kind a = kind b)
    {rest : List Char} (hrest : EndsNumber rest) (hrest' : EndsNumber rest')
    (h : render a ++ rest = render b ++ rest') : a = b ∧ rest = rest' := by
  have hchars : ∀ value : Value, kind value = .number →
      ∀ c ∈ render value, isNumberChar c = true := by
    intro value hvalue
    cases value with
    | int n => exact int_number_chars n
    | float number => exact number.number_chars
    | bool b => cases b <;> cases hvalue
    | _ => cases hvalue
  obtain ⟨htokens, hrests⟩ := number_inj hrest hrest' (hchars a hkind)
    (hchars b (hsame ▸ hkind)) h
  refine ⟨?_, hrests⟩
  have hkind' : kind b = .number := hsame ▸ hkind
  cases a with
  | int n =>
      cases b with
      | int m => exact congrArg Value.int (Int.repr_injective (String.toList_inj.mp htokens))
      | float number => exact absurd htokens int_ne_float
      | bool b => cases b <;> cases hkind'
      | _ => cases hkind'
  | float number =>
      cases b with
      | int m => exact absurd htokens.symm int_ne_float
      | float number' =>
          obtain ⟨text, _⟩ := number
          obtain ⟨text', _⟩ := number'
          obtain rfl : text = text' := String.toList_inj.mp htokens
          rfl
      | bool b => cases b <;> cases hkind'
      | _ => cases hkind'
  | bool b => cases b <;> cases hkind
  | _ => cases hkind

mutual

theorem render_inj : ∀ {a b : Value} {rest rest' : List Char}, EndsNumber rest → EndsNumber rest' →
      render a ++ rest = render b ++ rest' → a = b ∧ rest = rest'
  | .int n, b, rest, rest', hrest, hrest', h =>
      render_number_inj rfl (kind_eq_of_render h) hrest hrest' h
  | .float number, b, rest, rest', hrest, hrest', h =>
      render_number_inj rfl (kind_eq_of_render h) hrest hrest' h
  | .null, b, rest, rest', hrest, hrest', h => by
      have hkind := kind_eq_of_render h
      cases b with
      | null => exact ⟨rfl, List.append_cancel_left h⟩
      | bool b => cases b <;> cases hkind
      | _ => cases hkind
  | .bool true, b, rest, rest', hrest, hrest', h => by
      have hkind := kind_eq_of_render h
      cases b with
      | bool b =>
          cases b with
          | true => exact ⟨rfl, List.append_cancel_left h⟩
          | false => cases hkind
      | _ => cases hkind
  | .bool false, b, rest, rest', hrest, hrest', h => by
      have hkind := kind_eq_of_render h
      cases b with
      | bool b =>
          cases b with
          | true => cases hkind
          | false => exact ⟨rfl, List.append_cancel_left h⟩
      | _ => cases hkind
  | .str s, b, rest, rest', hrest, hrest', h => by
      have hkind := kind_eq_of_render h
      cases b with
      | str s' =>
          obtain ⟨rfl, hrests⟩ := quote_inj h
          exact ⟨rfl, hrests⟩
      | bool b => cases b <;> cases hkind
      | _ => cases hkind
  | .arr as, b, rest, rest', hrest, hrest', h => by
      have hkind := kind_eq_of_render h
      cases b with
      | arr bs =>
          cases as with
          | nil =>
              cases bs with
              | nil => exact ⟨rfl, List.append_cancel_left h⟩
              | cons item items => exact absurd (List.cons.inj h).2.symm render_ne_close
          | cons item items =>
              cases bs with
              | nil => exact absurd (List.cons.inj h).2 render_ne_close
              | cons item' items' =>
                  simp only [render, List.cons_append, List.append_assoc, List.cons.injEq,
                    true_and] at h
                  obtain ⟨rfl, htail⟩ := render_inj (endsNumber_renderItems _ _)
                    (endsNumber_renderItems _ _) h
                  obtain ⟨rfl, hrests⟩ := renderItems_inj htail
                  exact ⟨rfl, hrests⟩
      | bool b => cases b <;> cases hkind
      | _ => cases hkind
  | .obj as, b, rest, rest', hrest, hrest', h => by
      have hkind := kind_eq_of_render h
      cases b with
      | obj bs =>
          cases as with
          | nil =>
              cases bs with
              | nil => exact ⟨rfl, List.append_cancel_left h⟩
              | cons entry fields => simp [render, quote] at h
          | cons entry fields =>
              obtain ⟨key, value⟩ := entry
              cases bs with
              | nil => simp [render, quote] at h
              | cons entry' fields' =>
                  obtain ⟨key', value'⟩ := entry'
                  simp only [render, List.cons_append, List.append_assoc, List.cons.injEq,
                    true_and] at h
                  obtain ⟨rfl, htail⟩ := quote_inj h
                  obtain ⟨rfl, hfields⟩ := render_inj (endsNumber_renderFields _ _)
                    (endsNumber_renderFields _ _) (List.cons.inj htail).2
                  obtain ⟨rfl, hrests⟩ := renderFields_inj hfields
                  exact ⟨rfl, hrests⟩
      | bool b => cases b <;> cases hkind
      | _ => cases hkind

theorem renderItems_inj : ∀ {as bs : List Value} {rest rest' : List Char}, renderItems as ++ rest = renderItems bs ++ rest' →
      as = bs ∧ rest = rest'
  | [], bs, rest, rest', h => by
      cases bs with
      | nil => exact ⟨rfl, List.append_cancel_left h⟩
      | cons item items => simp [renderItems] at h
  | item :: items, bs, rest, rest', h => by
      cases bs with
      | nil => simp [renderItems] at h
      | cons item' items' =>
          simp only [renderItems, List.cons_append, List.append_assoc, List.cons.injEq,
            true_and] at h
          obtain ⟨rfl, htail⟩ := render_inj (endsNumber_renderItems _ _)
            (endsNumber_renderItems _ _) h
          obtain ⟨rfl, hrests⟩ := renderItems_inj htail
          exact ⟨rfl, hrests⟩

theorem renderFields_inj : ∀ {as bs : Fields} {rest rest' : List Char}, renderFields as ++ rest = renderFields bs ++ rest' →
      as = bs ∧ rest = rest'
  | [], bs, rest, rest', h => by
      cases bs with
      | nil => exact ⟨rfl, List.append_cancel_left h⟩
      | cons entry fields => simp [renderFields] at h
  | (key, value) :: fields, bs, rest, rest', h => by
      cases bs with
      | nil => simp [renderFields] at h
      | cons entry' fields' =>
          obtain ⟨key', value'⟩ := entry'
          simp only [renderFields, List.cons_append, List.append_assoc, List.cons.injEq,
            true_and] at h
          obtain ⟨rfl, htail⟩ := quote_inj h
          obtain ⟨rfl, hfields⟩ := render_inj (endsNumber_renderFields _ _)
            (endsNumber_renderFields _ _) (List.cons.inj htail).2
          obtain ⟨rfl, hrests⟩ := renderFields_inj hfields
          exact ⟨rfl, hrests⟩

end

theorem dumps_inj {a b : Value} : dumps a = dumps b ↔ sorted a = sorted b := by
  constructor
  · intro h
    have hchars : render (sorted a) ++ [] = render (sorted b) ++ [] := by
      have := congrArg String.toList h
      simpa [dumps] using this
    exact (render_inj (by simp [EndsNumber]) (by simp [EndsNumber]) hchars).1
  · intro h
    rw [dumps, dumps, h]

theorem keys_sortedFields (fields : Fields) :
    Dict.keys (sortedFields fields) = Dict.keys fields := by
  induction fields with
  | nil => rfl
  | cons entry fields ih => exact congrArg (entry.1 :: ·) ih

theorem get_sortedFields (fields : Fields) (key : String) :
    Dict.get (sortedFields fields) key = (Dict.get fields key).map sorted := by
  induction fields with
  | nil => rfl
  | cons entry fields ih =>
      obtain ⟨first, value⟩ := entry
      by_cases hkey : first = key <;> simp [sortedFields, Dict.get_cons, hkey, ih]

theorem sorted_obj_iff {fields fields' : Fields} (h : (Dict.keys fields).Nodup)
    (h' : (Dict.keys fields').Nodup) : sorted (.obj fields) = sorted (.obj fields') ↔
      ∀ key, (Dict.get fields key).map sorted = (Dict.get fields' key).map sorted := by
  have hnodup : (Dict.keys (sortedFields fields)).Nodup := keys_sortedFields fields ▸ h
  have hnodup' : (Dict.keys (sortedFields fields')).Nodup := keys_sortedFields fields' ▸ h'
  have hget : ∀ {fields : Fields}, (Dict.keys (sortedFields fields)).Nodup → ∀ key,
      Dict.get ((sortedFields fields).sortedBy Prod.fst) key = (Dict.get fields key).map sorted := by
    intro fields hnodup key
    rw [← get_sortedFields]
    exact (Dict.get_perm (List.perm_sortedBy Prod.fst _).symm hnodup key).symm
  constructor
  · intro heq key
    rw [← hget hnodup, ← hget hnodup', Value.obj.inj heq]
  · intro hall
    apply congrArg Value.obj
    refine List.sortedBy_eq_of_perm (Dict.perm_of_get hnodup hnodup' fun key => ?_) hnodup
    rw [get_sortedFields, get_sortedFields, hall]

end Value
