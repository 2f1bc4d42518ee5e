import OpenDirectory.FilterText
import OpenDirectory.Value

/-! Groups whose membership is a question. The question is put together out of named conditions, and the text it becomes
says these conditions and nothing else, whatever the values are. -/

namespace OpenDirectory.DynamicGroups

open FilterText

/-- The attributes a condition may be about, and what they are called. -/
def attributes : List (String × String) := [
  ("department", "Department"), ("title", "Title"), ("company", "Company"), ("physicalDeliveryOfficeName", "Office"),
  ("description", "Description"), ("userPrincipalName", "User principal name"), ("sAMAccountName", "Account name"),
  ("operatingSystem", "Operating system"), ("dNSHostName", "Host name")]

def operators : List String := ["is", "is not", "starts with", "contains", "is set", "is not set"]

structure Condition where
  name : String
  operator : String
  value : String
  deriving DecidableEq

inductive QueryError where
  | tooMany
  | notAnAttribute (name : String)
  | notAComparison (operator : String)
  | what (label operator : String)
  | tooLong
  | noCondition
  | objectType (objectType : String)
  deriving DecidableEq

section
variable [Runtime]

/-- `str(condition.get(key) or "")` -/
def given (condition : Value.Fields) (key : String) : String :=
  match Dict.get condition key with
  | some value => if value.truthy then value.text else ""
  | none => ""

/-- The presence of an attribute has no value to compare with. -/
def compared (operator value : String) : String :=
  if operator = "is set" ∨ operator = "is not set" then "" else value

def cleaned (condition : Value.Fields) : Except QueryError Condition :=
  let name := given condition "attribute"
  let operator := given condition "operator"
  let value := compared operator (given condition "value")
  match Dict.get attributes name with
  | none => .error (.notAnAttribute name)
  | some label =>
      if operator ∉ operators then .error (.notAComparison operator)
      else if operator ≠ "is set" ∧ operator ≠ "is not set" ∧ value = "" then .error (.what label operator)
      else if 256 < value.length then .error .tooLong
      else .ok ⟨name, operator, value⟩

def validate (conditions : List Value.Fields) : Except QueryError (List Condition) := do
  if 16 < conditions.length then throw .tooMany
  let result ← conditions.mapM cleaned
  if result.isEmpty then throw .noCondition
  return result

end

/-- The base of a query about one kind of object. -/
def objectFilter : String → Option String
  | "user" => some "(&(objectCategory=person)(objectClass=user))"
  | "computer" => some "(objectClass=computer)"
  | _ => none

/-- What escapes a text for a filter is not part of the program. -/
class Escaping where
  escape : String → String

section
variable [Escaping]

def part (condition : Condition) : Except QueryError String :=
  if condition.name ∉ Dict.keys attributes then .error (.notAnAttribute condition.name)
  else
    let value := Escaping.escape condition.value
    match condition.operator with
    | "is" => .ok ("(" ++ condition.name ++ "=" ++ value ++ ")")
    | "is not" => .ok ("(!(" ++ condition.name ++ "=" ++ value ++ "))")
    | "starts with" => .ok ("(" ++ condition.name ++ "=" ++ value ++ "*)")
    | "contains" => .ok ("(" ++ condition.name ++ "=*" ++ value ++ "*)")
    | "is set" => .ok ("(" ++ condition.name ++ "=*)")
    | "is not set" => .ok ("(!(" ++ condition.name ++ "=*))")
    | other => .error (.notAComparison other)

def buildFilter (objectType : String) (conditions : List Condition) (matchAll : Bool) : Except QueryError String :=
  match objectFilter objectType with
  | none => .error (.objectType objectType)
  | some base => do
      let parts ← conditions.mapM part
      let joined := Text.join "" parts
      let combined := if matchAll then "(&" ++ joined ++ ")" else "(|" ++ joined ++ ")"
      return "(&" ++ base ++ combined ++ ")"

end

def equalTo (name value : String) : Filter := .item (.equal name.toList (octets value.toList))

/-- The objects a query is about. -/
def aboutType : String → Filter
  | "user" => .and [equalTo "objectCategory" "person", equalTo "objectClass" "user"]
  | _ => equalTo "objectClass" "computer"

/-- One condition, with its value as given. -/
def Condition.meant (condition : Condition) : Filter :=
  let name := condition.name.toList
  let value := octets condition.value.toList
  match condition.operator with
  | "is" => .item (.equal name value)
  | "is not" => .not (.item (.equal name value))
  | "starts with" => .item (.substrings name value [] [])
  | "contains" => .item (.substrings name [] [value] [])
  | "is set" => .item (.present name)
  | _ => .not (.item (.present name))

def meant (objectType : String) (conditions : List Condition) (matchAll : Bool) : Filter :=
  let nodes := conditions.map Condition.meant
  .and [aboutType objectType, if matchAll then .and nodes else .or nodes]

/-- An escaped text is read as the octets of the text. -/
def Escapes (escape : String → String) : Prop :=
  ∀ text : String, decodeValue (escape text).toList = some (octets text.toList)

structure Condition.Accepted (condition : Condition) : Prop where
  name : condition.name ∈ Dict.keys attributes
  operator : condition.operator ∈ operators
  value : condition.operator ≠ "is set" → condition.operator ≠ "is not set" → condition.value ≠ ""

section
variable [Runtime]

theorem accepted_of_cleaned {raw : Value.Fields} {condition : Condition} (h : cleaned raw = .ok condition) :
    condition.Accepted := by
  unfold cleaned at h
  dsimp only at h
  split at h
  · cases h
  · rename_i label hlabel
    have hname := Dict.get_isSome_iff.mp (Option.isSome_of_mem hlabel)
    split at h
    · cases h
    · rename_i hoperator
      split at h
      · cases h
      · rename_i hvalue
        split at h
        · cases h
        · obtain rfl := Except.ok.inj h
          exact ⟨hname, not_not.mp hoperator, fun hset hunset hempty => hvalue ⟨hset, hunset, hempty⟩⟩

theorem accepted_of_validate {raw : List Value.Fields} {conditions : List Condition} (h : validate raw = .ok conditions) :
    conditions ≠ [] ∧ ∀ condition ∈ conditions, condition.Accepted := by
  unfold validate at h
  split at h
  · cases h
  · obtain ⟨result, hresult, h⟩ := Except.bind_eq_ok.mp h
    split at h
    · cases h
    · rename_i hempty
      obtain rfl := Except.ok.inj h
      refine ⟨fun hnil => hempty (by rw [hnil]; rfl), ?_⟩
      have hall := List.forall_mem_iff_of_forall₂ (P := fun _ => True) (Q := Condition.Accepted)
        (List.mapM_eq_ok_iff.mp hresult) fun _ _ _ hcleaned => iff_true_intro (accepted_of_cleaned hcleaned)
      exact hall.mpr fun _ _ => trivial

end

theorem attributes_plain : ∀ name ∈ Dict.keys attributes, attributeText name.toList = true ∧
    ∀ c ∈ name.toList, c ∉ ['=', '~', '>', '<', ':'] := by
  have hall : (Dict.keys attributes).all (fun name => attributeText name.toList &&
      name.toList.all fun c => c ∉ ['=', '~', '>', '<', ':']) = true := by decide +kernel
  intro name hname
  simpa using List.all_eq_true.mp hall name hname

theorem reads_item {name right : List Char} {item : Item} (hname : attributeText name = true)
    (hplain : ∀ c ∈ name, c ∉ ['=', '~', '>', '<', ':']) (h : readMatch name right = some item) :
    Reads (.item item) ('(' :: (name ++ '=' :: right ++ [')'])) :=
  .item ((readItem_eq hname hplain).trans h)

section
variable [Escaping]

theorem part_reads (hescape : Escapes Escaping.escape) {condition : Condition} (h : condition.Accepted) :
    ∃ text, part condition = .ok text ∧ Reads condition.meant text.toList := by
  obtain ⟨hattr, hplain⟩ := attributes_plain _ h.name
  have hdecode := hescape condition.value
  have hne : condition.value ≠ "" → (Escaping.escape condition.value).toList ≠ [] := by
    intro hvalue hnil
    rw [hnil] at hdecode
    have hoctets : octets condition.value.toList = [] := (Option.some.inj hdecode).symm
    rw [octets, List.flatMap_eq_nil_iff] at hoctets
    refine hvalue (String.toList_eq_nil_iff.mp (List.eq_nil_iff_forall_not_mem.mpr fun c hc => ?_))
    exact String.utf8EncodeChar_ne_nil (hoctets c hc)
  have hoperator := h.operator
  have hvalue := h.value
  obtain ⟨name, operator, value⟩ := condition
  dsimp only at *
  unfold part
  rw [if_neg (not_not.mpr h.name)]
  simp only [operators, List.mem_cons, List.not_mem_nil, or_false] at hoperator
  rcases hoperator with rfl | rfl | rfl | rfl | rfl | rfl
  · have hitem := reads_item hattr hplain (readMatch_equal hdecode)
    exact ⟨_, rfl, by simpa [Condition.meant, String.toList_append] using hitem⟩
  · have hitem := Reads.not (reads_item hattr hplain (readMatch_equal hdecode))
    exact ⟨_, rfl, by simpa [Condition.meant, String.toList_append] using hitem⟩
  · have hitem := reads_item hattr hplain (readMatch_start hdecode (hne (hvalue (by decide) (by decide))))
    exact ⟨_, rfl, by simpa [Condition.meant, String.toList_append] using hitem⟩
  · have hitem := reads_item hattr hplain (readMatch_inside hdecode)
    exact ⟨_, rfl, by simpa [Condition.meant, String.toList_append] using hitem⟩
  · have hitem := reads_item hattr hplain readMatch_present
    exact ⟨_, rfl, by simpa [Condition.meant, String.toList_append] using hitem⟩
  · have hitem := Reads.not (reads_item hattr hplain readMatch_present)
    exact ⟨_, rfl, by simpa [Condition.meant, String.toList_append] using hitem⟩

theorem parts_read (hescape : Escapes Escaping.escape) {conditions : List Condition}
    (h : ∀ condition ∈ conditions, condition.Accepted) :
    ∃ parts, conditions.mapM part = .ok parts ∧
      ReadsAll (conditions.map Condition.meant) (Text.join "" parts).toList := by
  induction conditions with
  | nil => exact ⟨[], rfl, .nil⟩
  | cons condition conditions ih =>
      obtain ⟨text, htext, hreads⟩ := part_reads hescape (h condition List.mem_cons_self)
      obtain ⟨parts, hparts, hall⟩ := ih fun other hother => h other (.tail _ hother)
      refine ⟨text :: parts, ?_, ?_⟩
      · rw [List.mapM_cons, htext, hparts]
        rfl
      · have hjoin : (Text.join "" (text :: parts)).toList = text.toList ++ (Text.join "" parts).toList := by
          cases parts <;> simp [Text.join, String.toList_intercalate, List.intercalate]
        rw [hjoin]
        exact .cons hreads hall

omit [Escaping] in
theorem base_reads {objectType base : String} (h : objectFilter objectType = some base) :
    Reads (aboutType objectType) base.toList := by
  have hitem : ∀ {name : String} (value : String), attributeText name.toList = true →
      (∀ c ∈ name.toList, c ∉ ['=', '~', '>', '<', ':']) → decodeValue value.toList = some (octets value.toList) →
        Reads (equalTo name value) ('(' :: (name.toList ++ '=' :: value.toList ++ [')'])) :=
    fun _ hname hplain hvalue => reads_item hname hplain (readMatch_equal hvalue)
  have hclass : attributeText "objectClass".toList = true ∧
      ∀ c ∈ "objectClass".toList, c ∉ ['=', '~', '>', '<', ':'] :=
    ⟨by decide, fun c hc => by simpa using List.all_eq_true.mp (by decide : "objectClass".toList.all
      (fun c => c ∉ ['=', '~', '>', '<', ':']) = true) c hc⟩
  unfold objectFilter at h
  split at h
  · obtain rfl := Option.some.inj h
    have hcategory : attributeText "objectCategory".toList = true ∧
        ∀ c ∈ "objectCategory".toList, c ∉ ['=', '~', '>', '<', ':'] :=
      ⟨by decide, fun c hc => by simpa using List.all_eq_true.mp (by decide : "objectCategory".toList.all
        (fun c => c ∉ ['=', '~', '>', '<', ':']) = true) c hc⟩
    have hperson := hitem "person" hcategory.1 hcategory.2 (by decide)
    have huser := hitem "user" hclass.1 hclass.2 (by decide)
    exact .and (by simp) (.cons hperson (.cons huser .nil))
  · obtain rfl := Option.some.inj h
    exact hitem "computer" hclass.1 hclass.2 (by decide)
  · cases h

/-- For conditions that were accepted, and whatever their values, the text is that of the conditions with these values
combined as asked, and of no other filter. -/
theorem buildFilter_reads [Runtime] (hescape : Escapes Escaping.escape) {raw : List Value.Fields}
    {conditions : List Condition} (hvalid : validate raw = .ok conditions) {objectType : String}
    (htype : (objectFilter objectType).isSome = true) (matchAll : Bool) :
    ∃ text, buildFilter objectType conditions matchAll = .ok text ∧
      ∀ filter, Reads filter text.toList ↔ filter = meant objectType conditions matchAll := by
  obtain ⟨hne, haccepted⟩ := accepted_of_validate hvalid
  obtain ⟨base, hbase⟩ := Option.isSome_iff_exists.mp htype
  obtain ⟨parts, hparts, hall⟩ := parts_read hescape haccepted
  have hnodes : conditions.map Condition.meant ≠ [] := by simpa using hne
  unfold buildFilter
  rw [hbase, hparts]
  refine ⟨_, rfl, fun filter => ?_⟩
  have hcombined : Reads (if matchAll then .and (conditions.map Condition.meant) else .or (conditions.map Condition.meant))
      (if matchAll then "(&" ++ Text.join "" parts ++ ")" else "(|" ++ Text.join "" parts ++ ")").toList := by
    cases matchAll with
    | true => simpa [String.toList_append] using Reads.and hnodes hall
    | false => simpa [String.toList_append] using Reads.or hnodes hall
  have hreads : Reads (meant objectType conditions matchAll) ("(&" ++ base ++
      (if matchAll then "(&" ++ Text.join "" parts ++ ")" else "(|" ++ Text.join "" parts ++ ")") ++ ")").toList := by
    have hlist := Reads.and (by simp) (.cons (base_reads hbase) (.cons hcombined .nil))
    simpa [String.toList_append, meant] using hlist
  constructor
  · intro hfilter
    exact (reads_unique hfilter hreads (congrArg (· ++ []) rfl)).1
  · rintro rfl
    exact hreads

end

def escapedChar (c : Char) : List Char :=
  if c = '\\' then "\\5c".toList
  else if c = '*' then "\\2a".toList
  else if c = '(' then "\\28".toList
  else if c = ')' then "\\29".toList
  else if c = '\x00' then "\\00".toList
  else [c]

/-- Each character that means something is replaced by its octet in hexadecimal digits. -/
@[reducible] def Escaping.hex : Escaping where
  escape text := String.ofList (text.toList.flatMap escapedChar)

theorem decodeValue_hex {c high low : Char} (h : (hexOctet high low).map (fun octet => [octet]) =
    some (String.utf8EncodeChar c)) (rest : List Char) :
    decodeValue ('\\' :: high :: low :: rest) = (decodeValue rest).map (String.utf8EncodeChar c ++ ·) := by
  obtain ⟨octet, hoctet, heq⟩ := Option.map_eq_some_iff.mp h
  rw [decodeValue, hoctet, ← heq]
  cases decodeValue rest <;> rfl

theorem decodeValue_escapedChar (c : Char) (rest : List Char) :
    decodeValue (escapedChar c ++ rest) = (decodeValue rest).map (String.utf8EncodeChar c ++ ·) := by
  unfold escapedChar
  by_cases hslash : c = '\\'
  · rw [if_pos hslash, hslash]
    exact decodeValue_hex (by decide) rest
  by_cases hstar : c = '*'
  · rw [if_neg hslash, if_pos hstar, hstar]
    exact decodeValue_hex (by decide) rest
  by_cases hopen : c = '('
  · rw [if_neg hslash, if_neg hstar, if_pos hopen, hopen]
    exact decodeValue_hex (by decide) rest
  by_cases hclose : c = ')'
  · rw [if_neg hslash, if_neg hstar, if_neg hopen, if_pos hclose, hclose]
    exact decodeValue_hex (by decide) rest
  by_cases hnull : c = '\x00'
  · rw [if_neg hslash, if_neg hstar, if_neg hopen, if_neg hclose, if_pos hnull, hnull]
    exact decodeValue_hex (by decide) rest
  · have hplain : special c = false := by simp [special, hslash, hstar, hopen, hclose, hnull]
    rw [if_neg hslash, if_neg hstar, if_neg hopen, if_neg hclose, if_neg hnull, List.singleton_append, decodeValue]
    · rw [hplain]
      cases decodeValue rest <;> rfl
    · intro high low more heq _
      exact hslash heq

theorem escapes_hex : Escapes Escaping.hex.escape := by
  intro text
  show decodeValue (String.ofList (text.toList.flatMap escapedChar)).toList = _
  rw [String.toList_ofList]
  induction text.toList with
  | nil => rfl
  | cons c rest ih =>
      rw [List.flatMap_cons, decodeValue_escapedChar, ih]
      rfl

/-- A department called as if it were the end of one condition and the start of another. -/
def department : Value.Fields :=
  [("attribute", .str "department"), ("operator", .str "is not"), ("value", .str "x)(objectClass=*")]

theorem buildFilter_reads_department :
    letI := Runtime.latin
    letI := Escaping.hex
    ∃ text, buildFilter "user" [⟨"department", "is not", "x)(objectClass=*"⟩] true = .ok text ∧ ∀ filter,
      Reads filter text.toList ↔ filter = meant "user" [⟨"department", "is not", "x)(objectClass=*"⟩] true := by
  let _ := Runtime.latin
  let _ := Escaping.hex
  have hvalid : validate [department] = .ok [⟨"department", "is not", "x)(objectClass=*"⟩] := by decide +kernel
  exact buildFilter_reads escapes_hex hvalid (by decide) true

end OpenDirectory.DynamicGroups
