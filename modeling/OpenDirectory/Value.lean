import OpenDirectory.Dict

/-! Dynamically typed values: what a JSON document holds once it is read, and the operations a
dynamically typed program performs on them without knowing their shape. An operation that a value
does not support raises, so every such operation is fallible. Floating-point numbers are kept by
their printed form; nothing here computes with them. -/

/-- The exceptions a dynamically typed operation can end in. -/
inductive Raised where
  | typeError
  | attributeError
  | valueError
  | lookupError
  | assertionError
  | databaseError
  deriving DecidableEq

def isNumberChar (c : Char) : Bool := c.isDigit || c = '-' || c = '+' || c = '.' || c = 'e'

/-- A floating-point number prints as a number, with a point or an exponent in it. -/
def isFloatText (text : String) : Bool :=
  text.toList.all isNumberChar && text.toList.any (fun c => c = '.' || c = 'e')

/-- A floating-point number, by its printed form. -/
structure Printed where
  text : String
  isFloat : isFloatText text = true := by decide
  deriving DecidableEq

theorem Printed.number_chars (number : Printed) : ∀ c ∈ number.text.toList, isNumberChar c = true := by
  have h := number.isFloat
  simp only [isFloatText, Bool.and_eq_true, List.all_eq_true] at h
  exact h.1

theorem Printed.text_ne_nil (number : Printed) : number.text.toList ≠ [] := by
  have h := number.isFloat
  intro hnil
  simp [isFloatText, hnil] at h

inductive Value where
  | null
  | bool (b : Bool)
  | int (n : Int)
  | float (number : Printed)
  | str (s : String)
  | arr (items : List Value)
  | obj (fields : List (String × Value))
  deriving Inhabited

/-- What the runtime computes by its own tables and libraries: Unicode lower-casing, which
characters are blank or digits, the printed form of a container, the shortened digest of a text, and
the UUID a text is cast to, if the database does not refuse it. -/
class Runtime where
  lower : String → String
  blank : Char → Bool
  digit : Char → Option Nat
  repr : Value → String
  digest : String → String
  uuid : String → Option String

export Runtime (lower)

/-- The runtime on texts of the basic Latin alphabet, where no container is printed and no two texts
share a digest. -/
@[reducible] def Runtime.latin : Runtime where
  lower s := String.ofList (s.toList.map Char.toLower)
  blank c := c ∈ [' ', '\t', '\n', '\r', '\x0b', '\x0c']
  digit c := if c.isDigit then some (c.toNat - 48) else none
  repr _ := ""
  digest s := s
  uuid s :=
    if (s.toList.splitOn '-').map List.length = [8, 4, 4, 4, 12] &&
      s.toList.all (· ∈ "-0123456789abcdef".toList) then some s else none

namespace Value

abbrev Fields := List (String × Value)

mutual

def same : Value → Value → Bool
  | .null, .null => true
  | .bool a, .bool b => a == b
  | .int a, .int b => a == b
  | .float a, .float b => a == b
  | .str a, .str b => a == b
  | .arr a, .arr b => sameItems a b
  | .obj a, .obj b => sameFields a b
  | _, _ => false

def sameItems : List Value → List Value → Bool
  | [], [] => true
  | a :: as, b :: bs => same a b && sameItems as bs
  | _, _ => false

def sameFields : Fields → Fields → Bool
  | [], [] => true
  | (k, a) :: as, (l, b) :: bs => k == l && same a b && sameFields as bs
  | _, _ => false

end

mutual

theorem eq_of_same : ∀ {a b : Value}, same a b = true → a = b
  | .null, b, h => by cases b <;> simp_all [same]
  | .bool _, b, h => by cases b <;> simp_all [same]
  | .int _, b, h => by cases b <;> simp_all [same]
  | .float _, b, h => by cases b <;> simp_all [same]
  | .str _, b, h => by cases b <;> simp_all [same]
  | .arr as, b, h => by
      cases b with
      | arr bs => exact congrArg Value.arr (eq_of_sameItems (by simpa [same] using h))
      | _ => simp [same] at h
  | .obj as, b, h => by
      cases b with
      | obj bs => exact congrArg Value.obj (eq_of_sameFields (by simpa [same] using h))
      | _ => simp [same] at h

theorem eq_of_sameItems : ∀ {as bs : List Value}, sameItems as bs = true → as = bs
  | [], bs, h => by cases bs <;> simp_all [sameItems]
  | a :: as, [], h => by simp [sameItems] at h
  | a :: as, b :: bs, h => by
      simp only [sameItems, Bool.and_eq_true] at h
      rw [eq_of_same h.1, eq_of_sameItems h.2]

theorem eq_of_sameFields : ∀ {as bs : Fields}, sameFields as bs = true → as = bs
  | [], bs, h => by cases bs <;> simp_all [sameFields]
  | a :: as, [], h => by simp [sameFields] at h
  | (k, a) :: as, (l, b) :: bs, h => by
      simp only [sameFields, Bool.and_eq_true, beq_iff_eq] at h
      rw [h.1.1, eq_of_same h.1.2, eq_of_sameFields h.2]

end

mutual

theorem same_refl : ∀ a : Value, same a a = true
  | .null | .bool _ | .int _ | .float _ | .str _ => by simp [same]
  | .arr as => by simp [same, sameItems_refl as]
  | .obj as => by simp [same, sameFields_refl as]

theorem sameItems_refl : ∀ as : List Value, sameItems as as = true
  | [] => by simp [sameItems]
  | a :: as => by simp [sameItems, same_refl a, sameItems_refl as]

theorem sameFields_refl : ∀ as : Fields, sameFields as as = true
  | [] => by simp [sameFields]
  | (k, a) :: as => by simp [sameFields, same_refl a, sameFields_refl as]

end

theorem same_iff {a b : Value} : same a b = true ↔ a = b :=
  ⟨eq_of_same, fun h => h ▸ same_refl a⟩

instance : DecidableEq Value := fun _ _ => decidable_of_iff _ same_iff

mutual

/-- Every object inside has distinct keys, as every dictionary of a running program has. -/
def distinct : Value → Bool
  | .arr items => distinctItems items
  | .obj fields => decide (Dict.keys fields).Nodup && distinctFields fields
  | _ => true

def distinctItems : List Value → Bool
  | [] => true
  | item :: items => distinct item && distinctItems items

def distinctFields : Fields → Bool
  | [] => true
  | (_, value) :: fields => distinct value && distinctFields fields

end

theorem distinctItems_iff {items : List Value} :
    distinctItems items = true ↔ ∀ item ∈ items, distinct item = true := by
  induction items with
  | nil => simp [distinctItems]
  | cons item items ih => simp [distinctItems, ih]

theorem distinctFields_iff {fields : Fields} :
    distinctFields fields = true ↔ ∀ entry ∈ fields, distinct entry.2 = true := by
  induction fields with
  | nil => simp [distinctFields]
  | cons entry fields ih => simp [distinctFields, ih]

theorem distinct_obj_iff {fields : Fields} : distinct (.obj fields) = true ↔
    (Dict.keys fields).Nodup ∧ ∀ entry ∈ fields, distinct entry.2 = true := by
  simp [distinct, distinctFields_iff]

theorem distinct_arr_iff {items : List Value} :
    distinct (.arr items) = true ↔ ∀ item ∈ items, distinct item = true := by
  rw [distinct, distinctItems_iff]

theorem distinct_of_get {fields : Fields} (h : distinct (.obj fields) = true) {key : String}
    {value : Value} (hget : Dict.get fields key = some value) : distinct value = true :=
  (distinct_obj_iff.mp h).2 _ (Dict.mem_of_get hget)

def isObj : Value → Bool
  | .obj _ => true
  | _ => false

/-- A field of an object; nothing else has any. -/
def field : Value → String → Option Value
  | .obj fields, key => Dict.get fields key
  | _, _ => none

/-- Whether a condition on the value holds: nothing, zero and everything empty do not. -/
def truthy : Value → Bool
  | .null => false
  | .bool b => b
  | .int n => n ≠ 0
  | .float number => number.text ≠ "0.0" ∧ number.text ≠ "-0.0"
  | .str s => s ≠ ""
  | .arr items => !items.isEmpty
  | .obj fields => !fields.isEmpty

/-- `value.get(key)`. -/
def get : Value → String → Except Raised (Option Value)
  | .obj fields, key => .ok (Dict.get fields key)
  | _, _ => .error .attributeError

/-- `value.items()`. -/
def entries : Value → Except Raised Fields
  | .obj fields => .ok fields
  | _ => .error .attributeError

/-- `value[key]`. -/
def item : Value → String → Except Raised Value
  | .obj fields, key =>
      match Dict.get fields key with
      | some value => .ok value
      | none => .error .lookupError
  | _, _ => .error .typeError

/-- `{**value}`: the entries of a mapping, spread into another. -/
def spread : Value → Except Raised Fields
  | .obj fields => .ok fields
  | _ => .error .typeError

/-- `value.setdefault(key, default)`, as the value afterwards and what it holds under the key. -/
def setDefault : Value → String → Value → Except Raised (Value × Value)
  | .obj fields, key, default =>
      match Dict.get fields key with
      | some value => .ok (.obj fields, value)
      | none => .ok (.obj (Dict.set fields key default), default)
  | _, _, _ => .error .attributeError

/-- `value[key] = item`. -/
def setItem : Value → String → Value → Except Raised Value
  | .obj fields, key, item => .ok (.obj (Dict.set fields key item))
  | _, _, _ => .error .typeError

/-- `for item in value`. -/
def iterate : Value → Except Raised (List Value)
  | .arr items => .ok items
  | .obj fields => .ok ((Dict.keys fields).map .str)
  | .str s => .ok (s.toList.map fun c => .str (String.singleton c))
  | _ => .error .typeError

/-- `needle in value`, for a text. -/
def contains (needle : String) : Value → Except Raised Bool
  | .arr items => .ok (decide (Value.str needle ∈ items))
  | .obj fields => .ok (decide (needle ∈ Dict.keys fields))
  | .str s => .ok (decide (needle.toList <:+: s.toList))
  | _ => .error .typeError

section

variable [Runtime]

/-- `str(value)`. -/
def text : Value → String
  | .null => "None"
  | .bool true => "True"
  | .bool false => "False"
  | .int n => toString n
  | .float number => number.text
  | .str s => s
  | .arr items => Runtime.repr (Value.arr items)
  | .obj fields => Runtime.repr (Value.obj fields)

/-- `value.lower()`. -/
def lowered : Value → Except Raised String
  | .str s => .ok (lower s)
  | _ => .error .attributeError

@[simp] theorem text_str (s : String) : (Value.str s).text = s := rfl

end

end Value
