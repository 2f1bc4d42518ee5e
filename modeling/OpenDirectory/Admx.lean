import OpenDirectory.Lists
import OpenDirectory.Text
import OpenDirectory.Value

/-! Expanding administrative-template selections into browser policy. An imported definition says
which registry key and values a policy stands for; where the key belongs to a browser, the values of
a selection are placed in that browser's document, and every selection that cannot be is noted. -/

namespace OpenDirectory.Admx

variable [Runtime]

structure Element where
  id : String
  type : String
  valueName : String := ""

structure Policy where
  id : String
  registryKey : String
  valueName : String
  enabledValue : Option Value := none
  disabledValue : Option Value := none
  elements : List Element := []

/-- Registry roots that a browser's own policy stands for. -/
def browserRoots : List (String × String) := [
  ("software\\policies\\google\\chrome", "chromium"),
  ("software\\policies\\chromium", "chromium"),
  ("software\\policies\\mozilla\\firefox", "firefox")]

/-- The browser a registry key belongs to, and the key below its root. -/
def targetOf (registryKey : String) : Option (String × String) :=
  let lowered := Text.strip (· = '\\')
    (lower (String.ofList (registryKey.toList.map fun c => if c = '/' then '\\' else c)))
  browserRoots.findSome? fun (root, browser) =>
    if lowered = root then some (browser, "")
    else if Text.startsWith lowered (root ++ "\\") then
      some (browser, String.ofList (registryKey.toList.drop (root.length + 1)))
    else none

def segments (subPath : String) : List String := (Text.split '\\' subPath).filter (· ≠ "")

def nestedAt (document : Value.Fields) (part : String) : Value.Fields :=
  match Dict.get document part with
  | some (.obj nested) => nested
  | _ => []

/-- A value under its name, nested below the parts of a path. -/
def place (document : Value.Fields) (name : String) (value : Value) : List String → Value.Fields
  | [] => Dict.set document name value
  | part :: rest => Dict.set document part (.obj (place (nestedAt document part) name value rest))

/-- The digits of a number, with single underscores between them. -/
def digits : List Char → Option (List Nat)
  | [] => none
  | [c] => (Runtime.digit c).map ([·])
  | c :: '_' :: rest => do return (← Runtime.digit c) :: (← digits rest)
  | c :: rest => do return (← Runtime.digit c) :: (← digits rest)

def natural (text : List Char) : Option Nat := do
  let ds ← digits text
  if ds.length ≤ 4300 then some (ds.foldl (fun n d => 10 * n + d) 0) else none

/-- `int(text)`, where it is a number. -/
def int (text : String) : Option Int :=
  match (Text.strip Runtime.blank text).toList with
  | '-' :: rest => (natural rest).map fun n => -(n : Int)
  | '+' :: rest => (natural rest).map fun n => (n : Int)
  | rest => (natural rest).map fun n => (n : Int)

abbrev Expansion := List (String × Value.Fields) × List Value

def note (policy reason : String) : Value :=
  .obj [("policy", .str policy), ("reason", .str reason)]

def elementValue (element : Element) (raw : Value) : Value :=
  if element.type = "list" then
    match raw with
    | .arr items => .arr items
    | _ => .arr [raw]
  else if element.type = "decimal" then .int ((int raw.text).getD 0)
  else if element.type = "boolean" then .bool raw.truthy
  else raw

def placeElement (path : List String) (values : Value) (document : Value.Fields)
    (element : Element) : Except Raised Value.Fields := do
  if !(← values.contains element.id) then return document
  let raw ← values.item element.id
  let name := if element.valueName = "" then element.id else element.valueName
  return place document name (elementValue element raw) path

/-- What an enabled selection places. -/
def expandEnabled (policy : Policy) (path : List String) (values : Value)
    (document : Value.Fields) : Except Raised Value.Fields :=
  if policy.elements.isEmpty then
    .ok (if policy.valueName = "" then document
      else place document policy.valueName (policy.enabledValue.getD (.bool true)) path)
  else policy.elements.foldlM (placeElement path values) document

def expandSelection (definitions : List (String × Policy)) (expansion : Expansion)
    (selection : Value) : Except Raised Expansion := do
  let (out, notes) := expansion
  let policyId := ((← selection.get "policy_id").getD (.str "")).text
  let some policy := Dict.get definitions policyId
    | return (out, notes ++ [note policyId "template not imported"])
  let some (browser, below) := targetOf policy.registryKey
    | return (out, notes ++ [note policy.id ("no Debian equivalent for " ++
        if policy.registryKey = "" then "this key" else policy.registryKey)])
  -- Chromium reads one flat object; only Firefox nests
  let path := if browser = "firefox" then segments below else []
  let out := Dict.setDefault out browser []
  let document := (Dict.get out browser).getD []
  if (← selection.get "state").getD (.str "enabled") = .str "disabled" then
    match policy.disabledValue with
    | some value =>
        if policy.valueName = "" then
          return (out, notes ++ [note policy.id "no disabled value defined"])
        else return (Dict.set out browser (place document policy.valueName value path), notes)
    | none => return (out, notes ++ [note policy.id "no disabled value defined"])
  else
    let values := (← selection.get "values").getD .null
    let values := if values.truthy then values else .obj []
    let document ← expandEnabled policy path values document
    return (Dict.set out browser document, notes)

/-- The browsers' documents that some selections make, and a note for each that could not be
placed. -/
def expand (selections : Value) (definitions : List (String × Policy)) : Except Raised Expansion := do
  (← selections.iterate).foldlM (expandSelection definitions) ([], [])

/-- A selection whose element values, if it has any, are an object. -/
def Selection (selection : Value) : Prop :=
  ∃ fields, selection = .obj fields ∧
    ∀ values, Dict.get fields "values" = some values → values.isObj = true

section

omit [Runtime]

theorem contains_obj (fields : Value.Fields) (key : String) :
    (Value.obj fields).contains key = .ok (decide (key ∈ Dict.keys fields)) := rfl

end

theorem placeElement_ok (path : List String) (values document : Value.Fields) (element : Element) :
    ∃ next, placeElement path (.obj values) document element = .ok next := by
  unfold placeElement
  rw [contains_obj]
  by_cases hmem : element.id ∈ Dict.keys values
  · obtain ⟨raw, hraw⟩ := Option.isSome_iff_exists.mp (Dict.get_isSome_iff.mpr hmem)
    simp [hmem, hraw, Value.item, bind, Except.bind, pure, Except.pure]
  · simp [hmem, bind, Except.bind, pure, Except.pure]

theorem expandEnabled_ok (policy : Policy) (path : List String) (values document : Value.Fields) :
    ∃ next, expandEnabled policy path (.obj values) document = .ok next := by
  unfold expandEnabled
  split
  · exact ⟨_, rfl⟩
  · have hstep := fun document element (_ : element ∈ policy.elements) (_ : True) =>
      (placeElement_ok path values document element).imp fun _ h => And.intro h trivial
    obtain ⟨last, hlast, _⟩ := List.foldlM_ok (fun _ => True) hstep  trivial
    exact ⟨last, hlast⟩

theorem expandSelection_ok (definitions : List (String × Policy)) {expansion : Expansion}
    (hnodup : (Dict.keys expansion.1).Nodup) {selection : Value} (h : Selection selection) :
    ∃ next, expandSelection definitions expansion selection = .ok next ∧
      (Dict.keys next.1).Nodup := by
  obtain ⟨fields, rfl, hvalues⟩ := h
  have hobj : ∃ values, (if ((Dict.get fields "values").getD .null).truthy then
      (Dict.get fields "values").getD .null else .obj []) = Value.obj values := by
    cases hget : Dict.get fields "values" with
    | none => exact ⟨[], by simp [Value.truthy]⟩
    | some value =>
        cases value with
        | obj values => by_cases hv : values = [] <;> simp [Value.truthy, hv]
        | _ => exact absurd (hvalues _ hget) (by simp [Value.isObj])
  obtain ⟨values, hobj⟩ := hobj
  have hdefault := fun browser => Dict.nodup_keys_setDefault hnodup browser ([] : Value.Fields)
  unfold expandSelection
  simp only [Value.get, bind, Except.bind, pure, Except.pure, hobj]
  split
  · split
    · rename_i browser _ _
      split
      · split
        · split
          · exact ⟨_, rfl, hdefault browser⟩
          · exact ⟨_, rfl, Dict.nodup_keys_set (hdefault browser) _ _⟩
        · exact ⟨_, rfl, hdefault browser⟩
      · rename_i policy _ _ below _ _
        obtain ⟨next, hnext⟩ := expandEnabled_ok policy
          (if browser = "firefox" then segments below else []) values
          ((Dict.get (Dict.setDefault expansion.1 browser []) browser).getD [])
        rw [hnext]
        exact ⟨_, rfl, Dict.nodup_keys_set (hdefault browser) _ _⟩
    · exact ⟨_, rfl, hnodup⟩
  · exact ⟨_, rfl, hnodup⟩

theorem expand_ok (definitions : List (String × Policy)) {selections : List Value}
    (h : ∀ selection ∈ selections, Selection selection) :
    ∃ expansion, expand (.arr selections) definitions = .ok expansion ∧
      (Dict.keys expansion.1).Nodup :=
  List.foldlM_ok (fun expansion : Expansion => (Dict.keys expansion.1).Nodup)
    (fun _ selection hmem hnodup => expandSelection_ok definitions hnodup (h selection hmem))
    List.nodup_nil

end OpenDirectory.Admx
