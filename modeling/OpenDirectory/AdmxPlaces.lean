import OpenDirectory.Admx

/-! What becomes of a selection of an administrative template. Its values are placed in a browser's document, where
what is placed above or below takes them away, or it is noted; a selection of which nothing is placed is not
always noted. -/

namespace OpenDirectory.Admx

/-- The value under a name below the parts of a path. -/
def lookup (document : Value.Fields) (name : String) : List String → Option Value
  | [] => Dict.get document name
  | part :: rest => lookup (nestedAt document part) name rest

/-- One of two places is the other, or is above it. -/
def Related (path other : List String) (name otherName : String) : Prop :=
  path ++ [name] <+: other ++ [otherName] ∨ other ++ [otherName] <+: path ++ [name]

instance (path other : List String) (name otherName : String) : Decidable (Related path other name otherName) :=
  inferInstanceAs (Decidable (_ ∨ _))

/-- There is no plain value. -/
def Lost (held : Option Value) : Prop := ∀ value, held = some value → value.isObj = true

@[simp] theorem nestedAt_set_self (document : Value.Fields) (part : String) (value : Value) :
    nestedAt (Dict.set document part value) part = match value with | .obj nested => nested | _ => [] := by
  rw [nestedAt, Dict.get_set_self]
  cases value <;> rfl

theorem nestedAt_set_of_ne (document : Value.Fields) {part other : String} (value : Value) (h : part ≠ other) :
    nestedAt (Dict.set document part value) other = nestedAt document other := by
  rw [nestedAt, Dict.get_set_of_ne _ _ h, nestedAt]

theorem lookup_nil (name : String) (path : List String) : lookup [] name path = none := by
  induction path with
  | nil => rfl
  | cons part path ih => exact ih

theorem lookup_place_self (document : Value.Fields) (name : String) (value : Value) (path : List String) :
    lookup (place document name value path) name path = some value := by
  induction path generalizing document with
  | nil => exact Dict.get_set_self _ _ _
  | cons part path ih =>
      rw [place, lookup, nestedAt_set_self]
      exact ih _

variable {path other : List String} {name otherName : String}

theorem related_cons {part part' : String} :
    Related (part :: path) (part' :: other) name otherName ↔ part = part' ∧ Related path other name otherName := by
  unfold Related
  rw [List.cons_append, List.cons_append, List.cons_prefix_cons, List.cons_prefix_cons, eq_comm (a := part')]
  exact and_or_left.symm

theorem lookup_place_of_not_related (document : Value.Fields)
    (value : Value) (h : ¬ Related path other name otherName) :
    lookup (place document otherName value other) name path = lookup document name path := by
  induction path generalizing document other with
  | nil =>
      cases other with
      | nil =>
          have hne : otherName ≠ name := by
            rintro rfl
            exact h (.inl List.prefix_rfl)
          exact Dict.get_set_of_ne _ _ hne
      | cons part other =>
          have hne : part ≠ name := by
            rintro rfl
            exact h (.inl ⟨other ++ [otherName], rfl⟩)
          exact Dict.get_set_of_ne _ _ hne
  | cons part path ih =>
      cases other with
      | nil =>
          have hne : otherName ≠ part := by
            rintro rfl
            exact h (.inr ⟨path ++ [name], rfl⟩)
          rw [place, lookup, lookup, nestedAt_set_of_ne _ _ hne]
      | cons part' other =>
          by_cases hpart : part' = part
          · subst hpart
            rw [place, lookup, lookup, nestedAt_set_self]
            exact ih _ fun hrelated => h (related_cons.mpr ⟨rfl, hrelated⟩)
          · rw [place, lookup, lookup, nestedAt_set_of_ne _ _ hpart]

theorem lost_place (document : Value.Fields) {value : Value}
    (hplain : value.isObj = false) (hrelated : Related path other name otherName)
    (hne : (path, name) ≠ (other, otherName)) : Lost (lookup (place document otherName value other) name path) := by
  induction path generalizing document other with
  | nil =>
      cases other with
      | nil =>
          exfalso
          apply hne
          rcases hrelated with hprefix | hprefix
          · rw [List.nil_append, List.nil_append, List.cons_prefix_cons] at hprefix
            rw [ hprefix.1]
          · rw [List.nil_append, List.nil_append, List.cons_prefix_cons] at hprefix
            rw [ hprefix.1]
      | cons part other =>
          have hname : name = part := by
            rcases hrelated with hprefix | hprefix
            · exact (List.cons_prefix_cons.mp hprefix).1
            · exact (List.cons_prefix_cons.mp hprefix).1.symm
          subst hname
          intro held hheld
          rw [place, lookup, Dict.get_set_self] at hheld
          rw [← Option.some.inj hheld]
          rfl
  | cons part path ih =>
      cases other with
      | nil =>
          have hname : otherName = part := by
            rcases hrelated with hprefix | hprefix
            · exact (List.cons_prefix_cons.mp hprefix).1.symm
            · exact (List.cons_prefix_cons.mp hprefix).1
          subst hname
          intro held hheld
          rw [place, lookup, nestedAt_set_self] at hheld
          cases value with
          | obj fields => cases hplain
          | _ =>
              dsimp only at hheld
              rw [lookup_nil] at hheld
              cases hheld
      | cons part' other =>
          obtain ⟨rfl, hrest⟩ := related_cons.mp hrelated
          rw [place, lookup, nestedAt_set_self]
          apply ih _ hrest
          intro heq
          apply hne
          rw [(Prod.mk.inj heq).1, (Prod.mk.inj heq).2]

structure Spot where
  browser : String
  path : List String
  name : String
  deriving DecidableEq

structure Placement where
  spot : Spot
  value : Value
  plain : value.isObj = false

/-- The places are in one document, and one of them is the other or is above it. -/
def Spot.Meets (spot other : Spot) : Prop :=
  spot.browser = other.browser ∧ Related spot.path other.path spot.name other.name

instance (spot other : Spot) : Decidable (spot.Meets other) := inferInstanceAs (Decidable (_ ∧ _))

abbrev Documents := String → Value.Fields

def Documents.put (documents : Documents) (p : Placement) : Documents :=
  Function.update documents p.spot.browser
    (place (documents p.spot.browser) p.spot.name p.value p.spot.path)

def Documents.held (documents : Documents) (spot : Spot) : Option Value :=
  lookup (documents spot.browser) spot.name spot.path

variable {documents : Documents}

theorem held_put_self (p : Placement) : (documents.put p).held p.spot = some p.value := by
  rw [Documents.held, Documents.put, Function.update_self]
  exact lookup_place_self _ _ _ _

variable {spot : Spot}

theorem held_put_of_not_meets {p : Placement} (h : ¬ spot.Meets p.spot) :
    (documents.put p).held spot = documents.held spot := by
  unfold Documents.held Documents.put
  by_cases hbrowser : spot.browser = p.spot.browser
  · rw [hbrowser, Function.update_self]
    exact lookup_place_of_not_related _ _ fun hrelated => h ⟨hbrowser, hrelated⟩
  · rw [Function.update_of_ne hbrowser]

theorem lost_put {p : Placement} (h : spot.Meets p.spot) (hne : p.spot ≠ spot) :
    Lost ((documents.put p).held spot) := by
  obtain ⟨hbrowser, hrelated⟩ := h
  unfold Documents.held Documents.put
  rw [hbrowser, Function.update_self]
  apply lost_place _ p.plain hrelated
  intro heq
  obtain ⟨hpath, hname⟩ := Prod.mk.inj heq
  apply hne
  obtain ⟨browser, path, name⟩ := spot
  cases hspot : p.spot with
  | mk browser' path' name' => simp_all

theorem Lost.foldl (h : Lost (documents.held spot)) {placements : List Placement}
    (hnone : ∀ p ∈ placements, p.spot ≠ spot) : Lost ((placements.foldl Documents.put documents).held spot) := by
  induction placements generalizing documents with
  | nil => exact h
  | cons p placements ih =>
      apply ih _ fun p hp => hnone p (.tail _ hp)
      by_cases hmeets : spot.Meets p.spot
      · exact lost_put hmeets (hnone p List.mem_cons_self)
      · rw [held_put_of_not_meets hmeets]
        exact h

theorem lost_foldl {placements : List Placement} (hnone : ∀ p ∈ placements, p.spot ≠ spot)
    (hmeets : ∃ p ∈ placements, spot.Meets p.spot) :
    Lost ((placements.foldl Documents.put documents).held spot) := by
  induction placements generalizing documents with
  | nil => exact absurd hmeets (by simp)
  | cons p placements ih =>
      by_cases hp : spot.Meets p.spot
      · exact (lost_put hp (hnone p List.mem_cons_self)).foldl fun p hp => hnone p (.tail _ hp)
      · apply ih fun p hp => hnone p (.tail _ hp)
        obtain ⟨other, hother, hmeets⟩ := hmeets
        rcases List.mem_cons.mp hother with rfl | hlater
        · exact absurd hmeets hp
        · exact ⟨other, hlater, hmeets⟩

theorem held_foldl {placements : List Placement} (h : ∀ p ∈ placements, ¬ spot.Meets p.spot) :
    (placements.foldl Documents.put documents).held spot = documents.held spot := by
  induction placements generalizing documents with
  | nil => rfl
  | cons p placements ih =>
      rw [List.foldl_cons, ih fun p hp => h p (.tail _ hp), held_put_of_not_meets (h p List.mem_cons_self)]

/-- Some of the placements is the last that meets its place. -/
def Lasts (placements later : List Placement) : Prop :=
  ∃ before p after, placements = before ++ p :: after ∧
    ((∃ q ∈ later, q.spot = p.spot) ∨ ∀ q ∈ after ++ later, ¬ p.spot.Meets q.spot)

/-- The value of one of the placements is there at the end, or its place was set later, exactly when one of them
lasts. -/
theorem held_iff_lasts (placements later : List Placement) :
    (∃ p ∈ placements, ((placements ++ later).foldl Documents.put documents).held p.spot = some p.value ∨
      ∃ q ∈ later, q.spot = p.spot) ↔ Lasts placements later := by
  constructor
  · rintro ⟨p, hp, hheld⟩
    by_cases hset : ∃ q ∈ later, q.spot = p.spot
    · obtain ⟨before, after, rfl⟩ := List.append_of_mem hp
      exact ⟨before, p, after, rfl, .inl hset⟩
    · -- The last of the placements at this place is the one that counts.
      have hvalue := hheld.resolve_right hset
      obtain ⟨before, last, after, rfl, hlast, hafter⟩ : ∃ before last after,
          placements = before ++ last :: after ∧ last.spot = p.spot ∧ ∀ q ∈ after, q.spot ≠ p.spot := by
        clear hheld hvalue
        induction placements using List.reverseRecOn with
        | nil => exact absurd hp List.not_mem_nil
        | append_singleton placements q ih =>
            by_cases hq : q.spot = p.spot
            · exact ⟨placements, q, [], rfl, hq, fun _ hmem => absurd hmem List.not_mem_nil⟩
            · have hold : p ∈ placements := by
                rcases List.mem_append.mp hp with hold | hnew
                · exact hold
                · exact absurd (List.mem_singleton.mp hnew ▸ rfl) hq
              obtain ⟨before, last, after, rfl, hlast, hafter⟩ := ih hold
              refine ⟨before, last, after ++ [q], by simp, hlast, fun other hother => ?_⟩
              rcases List.mem_append.mp hother with hother | hother
              · exact hafter other hother
              · rwa [List.mem_singleton.mp hother]
      refine ⟨before, last, after, rfl, .inr fun q hq hmeets => ?_⟩
      have hnone : ∀ q ∈ after ++ later, q.spot ≠ p.spot := by
        intro q hq
        rcases List.mem_append.mp hq with hq | hq
        · exact hafter q hq
        · exact fun heq => hset ⟨q, hq, heq⟩
      have hlost : Lost (((before ++ last :: after) ++ later).foldl Documents.put documents |>.held p.spot) := by
        rw [List.append_assoc, List.foldl_append, List.cons_append, List.foldl_cons]
        exact lost_foldl hnone ⟨q, hq, hlast ▸ hmeets⟩
      have hobj := hlost p.value hvalue
      rw [p.plain] at hobj
      cases hobj
  · rintro ⟨before, p, after, rfl, hset | hfree⟩
    · exact ⟨p, List.mem_append_right _ List.mem_cons_self, .inr hset⟩
    · refine ⟨p, List.mem_append_right _ List.mem_cons_self, .inl ?_⟩
      rw [List.append_assoc, List.foldl_append, List.cons_append, List.foldl_cons, held_foldl hfree]
      exact held_put_self p

variable [Runtime]

abbrev Plain : Type := { value : Value // value.isObj = false }

/-- An imported policy: its values are numbers and texts. -/
structure Definition where
  id : String
  registryKey : String
  valueName : String
  enabledValue : Option Plain
  disabledValue : Option Plain
  elements : List Element

def Definition.policy (definition : Definition) : Policy where
  id := definition.id
  registryKey := definition.registryKey
  valueName := definition.valueName
  enabledValue := definition.enabledValue.map Subtype.val
  disabledValue := definition.disabledValue.map Subtype.val
  elements := definition.elements

abbrev Definitions := List (String × Definition)

def Definitions.policies (definitions : Definitions) : List (String × Policy) :=
  definitions.map fun row => (row.1, row.2.policy)

/-- A selection as the schema has it, whose values are numbers, texts and lists. -/
structure Chosen where
  fields : Value.Fields
  values : List (String × Plain)
  given : Dict.get fields "values" = some (.obj (values.map fun entry => (entry.1, entry.2.val))) ∨
    Dict.get fields "values" = none ∧ values = []

def Chosen.policyId (selection : Chosen) : String := ((Dict.get selection.fields "policy_id").getD (.str "")).text

def Chosen.disabled (selection : Chosen) : Bool :=
  (Dict.get selection.fields "state").getD (.str "enabled") = .str "disabled"

omit [Runtime] in
theorem get_map_snd {α β : Type} (f : α → β) (d : List (String × α)) (k : String) :
    Dict.get (d.map fun entry => (entry.1, f entry.2)) k = (Dict.get d k).map f := by
  induction d with
  | nil => rfl
  | cons entry d ih =>
      obtain ⟨key, a⟩ := entry
      rw [List.map_cons, Dict.get, Dict.get]
      split_ifs
      · rfl
      · exact ih

theorem elementValue_plain (element : Element) (raw : Plain) : (elementValue element raw.val).isObj = false := by
  obtain ⟨raw, hraw⟩ := raw
  unfold elementValue
  split_ifs
  · cases raw <;> rfl
  · rfl
  · rfl
  · exact hraw

/-- Where the value of an element goes. -/
def elementName (element : Element) : String := if element.valueName = "" then element.id else element.valueName

def elementPlacement (browser : String) (path : List String) (values : List (String × Plain)) (element : Element) :
    Option Placement :=
  (Dict.get values element.id).map fun raw : Plain =>
    { spot := ⟨browser, path, elementName element⟩
      value := elementValue element raw.val
      plain := elementValue_plain element raw }

/-- The value a policy has for being enabled. -/
def Definition.enabled (definition : Definition) : Plain := definition.enabledValue.getD ⟨.bool true, rfl⟩

def Definition.own (definition : Definition) (browser : String) (path : List String) (value : Plain) :
    List Placement :=
  if definition.valueName = "" then [] else [⟨⟨browser, path, definition.valueName⟩, value.val, value.property⟩]

/-- Where the values of a policy go: the browser, and the path in its document. -/
def Definition.target (definition : Definition) : Option (String × List String) :=
  (targetOf definition.registryKey).map fun target =>
    (target.1, if target.1 = "firefox" then segments target.2 else [])

def placements (definitions : Definitions) (selection : Chosen) : List Placement :=
  match Dict.get definitions selection.policyId with
  | none => []
  | some definition =>
      match definition.target with
      | none => []
      | some (browser, path) =>
          if selection.disabled then
            match definition.disabledValue with
            | none => []
            | some value => definition.own browser path value
          else if definition.elements.isEmpty then definition.own browser path definition.enabled
          else definition.elements.filterMap (elementPlacement browser path selection.values)

/-- The policy and the reason of the note on a selection that is refused. -/
def refusal (definitions : Definitions) (selection : Chosen) : Option (String × String) :=
  match Dict.get definitions selection.policyId with
  | none => some (selection.policyId, "template not imported")
  | some definition =>
      match definition.target with
      | none => some (definition.id, "no Debian equivalent for " ++
          if definition.registryKey = "" then "this key" else definition.registryKey)
      | some _ =>
          if selection.disabled ∧ (definition.disabledValue = none ∨ definition.valueName = "") then
            some (definition.id, "no disabled value defined")
          else none

/-- The documents by their browsers. -/
def document (out : List (String × Value.Fields)) : Documents := fun browser => (Dict.get out browser).getD []

section
omit [Runtime]

theorem document_setDefault (out : List (String × Value.Fields)) (browser : String) :
    document (Dict.setDefault out browser []) = document out := by
  funext other
  unfold document
  rw [Dict.get_setDefault]
  split_ifs with hother
  · rw [hother]
    rfl
  · rfl

theorem document_set (out : List (String × Value.Fields)) (browser : String) (fields : Value.Fields) :
    document (Dict.set out browser fields) = Function.update (document out) browser fields := by
  funext other
  unfold document
  rw [Dict.get_set]
  by_cases hother : browser = other
  · subst hother
    simp
  · rw [if_neg hother, Function.update_of_ne (Ne.symm hother)]

theorem foldl_put {browser : String} {placements : List Placement} (documents : Documents)
    (h : ∀ p ∈ placements, p.spot.browser = browser) : placements.foldl Documents.put documents =
      Function.update documents browser
        (placements.foldl (fun fields p => place fields p.spot.name p.value p.spot.path) (documents browser)) := by
  induction placements generalizing documents with
  | nil => exact (Function.update_eq_self _ _).symm
  | cons p placements ih =>
      have hp := h p List.mem_cons_self
      rw [List.foldl_cons, ih _ fun p hp => h p (.tail _ hp), List.foldl_cons, Documents.put, hp,
        Function.update_self, Function.update_idem]

end

theorem placeElement_eq (browser : String) (path : List String) (values : List (String × Plain))
    (fields : Value.Fields) (element : Element) :
    placeElement path (.obj (values.map fun entry => (entry.1, entry.2.val))) fields element =
      .ok ((elementPlacement browser path values element).toList.foldl
        (fun fields p => place fields p.spot.name p.value p.spot.path) fields) := by
  unfold placeElement elementPlacement
  rw [contains_obj]
  have hget := get_map_snd Subtype.val values element.id
  cases hvalue : Dict.get values element.id with
  | none =>
      rw [hvalue] at hget
      have hnot : element.id ∉ Dict.keys (values.map fun entry => (entry.1, entry.2.val)) :=
        Dict.get_eq_none_iff.mp hget
      simp [hnot, bind, Except.bind, pure, Except.pure]
  | some raw =>
      rw [hvalue] at hget
      have hmem : element.id ∈ Dict.keys (values.map fun entry => (entry.1, entry.2.val)) :=
        Dict.get_isSome_iff.mp (by rw [hget]; rfl)
      have hitem : (Value.obj (values.map fun entry => (entry.1, entry.2.val))).item element.id = .ok raw.val := by
        simp [Value.item, hget]
      simp [hmem, hitem, bind, Except.bind, pure, Except.pure, elementName]

theorem foldlM_placeElement (browser : String) (path : List String) (values : List (String × Plain))
    (fields : Value.Fields) (elements : List Element) :
    elements.foldlM (placeElement path (.obj (values.map fun entry => (entry.1, entry.2.val)))) fields =
      .ok ((elements.filterMap (elementPlacement browser path values)).foldl
        (fun fields p => place fields p.spot.name p.value p.spot.path) fields) := by
  induction elements generalizing fields with
  | nil => rfl
  | cons element elements ih =>
      rw [List.foldlM_cons, placeElement_eq browser]
      change elements.foldlM _ _ = _
      rw [ih]
      cases hplacement : elementPlacement browser path values element with
      | none => rw [List.filterMap_cons_none hplacement]; rfl
      | some p => rw [List.filterMap_cons_some hplacement]; rfl

omit [Runtime] in
theorem own_browser {definition : Definition} {browser : String} {path : List String} {value : Plain} :
    ∀ p ∈ definition.own browser path value, p.spot.browser = browser := by
  intro p hp
  unfold Definition.own at hp
  split_ifs at hp with hname
  · cases hp
  · rw [List.mem_singleton.mp hp]

theorem expandEnabled_eq (definition : Definition) (browser : String) (path : List String)
    (values : List (String × Plain)) (fields : Value.Fields) :
    expandEnabled definition.policy path (.obj (values.map fun entry => (entry.1, entry.2.val))) fields =
      .ok ((if definition.elements.isEmpty then definition.own browser path definition.enabled
        else definition.elements.filterMap (elementPlacement browser path values)).foldl
          (fun fields p => place fields p.spot.name p.value p.spot.path) fields) := by
  unfold expandEnabled
  have helements : definition.policy.elements = definition.elements := rfl
  have hname : definition.policy.valueName = definition.valueName := rfl
  have hvalue : definition.policy.enabledValue.getD (.bool true) = definition.enabled.val := by
    unfold Definition.policy Definition.enabled
    cases definition.enabledValue <;> rfl
  rw [helements, hname, hvalue]
  split_ifs with hempty hnone
  · rw [Definition.own, if_pos hnone]
    rfl
  · rw [Definition.own, if_neg hnone]
    rfl
  · exact foldlM_placeElement browser path values fields definition.elements

theorem placements_browser {definitions : Definitions} {selection : Chosen} {definition : Definition}
    {browser : String} {path : List String} (hdefinition : Dict.get definitions selection.policyId = some definition)
    (htarget : definition.target = some (browser, path)) :
    ∀ p ∈ placements definitions selection, p.spot.browser = browser := by
  intro p hp
  unfold placements at hp
  rw [hdefinition] at hp
  dsimp only at hp
  rw [htarget] at hp
  dsimp only at hp
  split_ifs at hp with hdisabled hempty
  · cases hvalue : definition.disabledValue with
    | none =>
        rw [hvalue] at hp
        cases hp
    | some value =>
        rw [hvalue] at hp
        exact own_browser p hp
  · exact own_browser p hp
  · obtain ⟨element, -, helement⟩ := List.mem_filterMap.mp hp
    obtain ⟨raw, -, rfl⟩ := Option.map_eq_some_iff.mp helement
    rfl

theorem expandSelection_eq (definitions : Definitions) (selection : Chosen) (before : Expansion) :
    ∃ after, expandSelection definitions.policies before (.obj selection.fields) = .ok after ∧
      document after.1 = (placements definitions selection).foldl Documents.put (document before.1) ∧
      after.2 = before.2 ++ ((refusal definitions selection).map fun r => note r.1 r.2).toList := by
  obtain ⟨out, notes⟩ := before
  have hpolicy : Dict.get definitions.policies selection.policyId =
      (Dict.get definitions selection.policyId).map Definition.policy := get_map_snd _ _ _
  have hid : ((Dict.get selection.fields "policy_id").getD (.str "")).text = selection.policyId := rfl
  unfold expandSelection refusal
  simp only [Value.get, bind, Except.bind, pure, Except.pure, hid, hpolicy]
  cases hdefinition : Dict.get definitions selection.policyId with
  | none =>
      refine ⟨_, rfl, ?_, rfl⟩
      rw [placements, hdefinition]
      rfl
  | some definition =>
      dsimp only [Option.map_some]
      have hkey : definition.policy.registryKey = definition.registryKey := rfl
      have htarget : definition.target = (targetOf definition.registryKey).map fun target =>
        (target.1, if target.1 = "firefox" then segments target.2 else []) := rfl
      rw [hkey]
      cases hof : targetOf definition.registryKey with
      | none =>
          rw [hof] at htarget
          rw [htarget]
          refine ⟨_, rfl, ?_, rfl⟩
          rw [placements, hdefinition]
          dsimp only
          rw [htarget]
          rfl
      | some target =>
          obtain ⟨browser, below⟩ := target
          rw [hof, Option.map_some] at htarget
          have hplaced := placements_browser hdefinition htarget
          have hplacements : placements definitions selection = (if selection.disabled then
              match definition.disabledValue with
              | none => []
              | some value => definition.own browser (if browser = "firefox" then segments below else []) value
            else if definition.elements.isEmpty then
              definition.own browser (if browser = "firefox" then segments below else []) definition.enabled
            else definition.elements.filterMap
              (elementPlacement browser (if browser = "firefox" then segments below else []) selection.values)) := by
            rw [placements, hdefinition]
            dsimp only
            rw [htarget]
          have hstate : ((Dict.get selection.fields "state").getD (.str "enabled") = .str "disabled") ↔
              selection.disabled = true := decide_eq_true_iff.symm
          have hname : definition.policy.valueName = definition.valueName := rfl
          have hvalue : definition.policy.disabledValue = definition.disabledValue.map Subtype.val := rfl
          rw [htarget]
          have hpolicyId : definition.policy.id = definition.id := rfl
          simp only [hstate, hname, hvalue, hpolicyId]
          by_cases hdisabled : selection.disabled = true
          · rw [if_pos hdisabled] at hplacements
            rw [if_pos hdisabled]
            cases hof' : definition.disabledValue with
            | none =>
                rw [hof'] at hplacements
                refine ⟨_, rfl, ?_, ?_⟩
                · rw [hplacements]
                  exact document_setDefault _ _
                · simp [hdisabled]
            | some value =>
                rw [hof'] at hplacements
                dsimp only at hplacements
                rw [hplacements] at hplaced ⊢
                unfold Definition.own at hplaced ⊢
                dsimp only [Option.map_some]
                by_cases hempty : definition.valueName = ""
                · rw [if_pos hempty, if_pos hempty]
                  refine ⟨_, rfl, ?_, ?_⟩
                  · exact document_setDefault _ _
                  · simp [hdisabled, hempty]
                · rw [if_neg hempty, if_neg hempty]
                  refine ⟨_, rfl, ?_, ?_⟩
                  · rw [document_set]
                    change Function.update (document (Dict.setDefault out browser [])) browser
                      (place (document (Dict.setDefault out browser []) browser) _ _ _) = _
                    rw [document_setDefault]
                    rfl
                  · simp [hdisabled, hempty]
          · rw [if_neg hdisabled] at hplacements
            rw [if_neg hdisabled]
            have hvalues : (if ((Dict.get selection.fields "values").getD .null).truthy = true then
                (Dict.get selection.fields "values").getD .null else .obj []) =
                  .obj (selection.values.map fun entry => (entry.1, entry.2.val)) := by
              rcases selection.given with hgiven | ⟨hgiven, hnone⟩
              · rw [hgiven]
                cases hfields : selection.values with
                | nil => rfl
                | cons entry values => rfl
              · rw [hgiven, hnone]
                rfl
            have hexpand := expandEnabled_eq definition browser (if browser = "firefox" then segments below else [])
              selection.values (document (Dict.setDefault out browser []) browser)
            rw [← hplacements, document_setDefault] at hexpand
            have hdocument : (Dict.get (Dict.setDefault out browser []) browser).getD [] = document out browser :=
              congrFun (document_setDefault out browser) browser
            rw [hvalues, hdocument, hexpand]
            refine ⟨_, rfl, ?_, ?_⟩
            · rw [document_set, document_setDefault, foldl_put _ hplaced]
            · simp [hdisabled]

def Chosen.value (selection : Chosen) : Value := .obj selection.fields

def noteOf (refused : String × String) : Value := note refused.1 refused.2

theorem expand_eq (definitions : Definitions) (selections : List Chosen) :
    ∃ out notes, expand (.arr (selections.map Chosen.value)) definitions.policies = .ok (out, notes) ∧
      document out = (selections.flatMap (placements definitions)).foldl Documents.put (fun _ => []) ∧
      notes = (selections.filterMap (refusal definitions)).map noteOf := by
  have hall : ∀ (selections : List Chosen) (before : Expansion), ∃ after,
      (selections.map Chosen.value).foldlM (expandSelection definitions.policies) before = .ok after ∧
        document after.1 = (selections.flatMap (placements definitions)).foldl Documents.put (document before.1) ∧
        after.2 = before.2 ++ (selections.filterMap (refusal definitions)).map noteOf := by
    intro selections
    induction selections with
    | nil => exact fun before => ⟨before, rfl, rfl, (List.append_nil _).symm⟩
    | cons selection selections ih =>
        intro before
        obtain ⟨next, hnext, hdocument, hnotes⟩ := expandSelection_eq definitions selection before
        obtain ⟨after, hafter, hdocuments, hmore⟩ := ih next
        refine ⟨after, ?_, ?_, ?_⟩
        · rw [List.map_cons, List.foldlM_cons, Chosen.value, hnext]
          exact hafter
        · rw [hdocuments, hdocument, List.flatMap_cons, List.foldl_append]
        · rw [hmore, hnotes, List.append_assoc]
          cases hrefusal : refusal definitions selection with
          | none => rw [List.filterMap_cons_none hrefusal]; rfl
          | some refused => rw [List.filterMap_cons_some hrefusal]; rfl
  obtain ⟨⟨out, notes⟩, hexpand, hdocument, hnotes⟩ := hall selections ([], [])
  exact ⟨out, notes, hexpand, hdocument, hnotes⟩

/-- The selection leaves a note of its own, which names its policy. -/
def Noted (definitions : Definitions) (earlier : List Chosen) (selection : Chosen) : Prop :=
  ∃ before after, expand (.arr (earlier.map Chosen.value)) definitions.policies = .ok before ∧
    expand (.arr ((earlier ++ [selection]).map Chosen.value)) definitions.policies = .ok after ∧
    ∃ id reason, after.2 = before.2 ++ [note id reason] ∧
      (id = selection.policyId ∨
        ∃ definition, Dict.get definitions selection.policyId = some definition ∧ id = definition.id)

/-- Something the selection placed is there after all selections, or its place was set by a later one. -/
def Remains (definitions : Definitions) (earlier : List Chosen) (selection : Chosen) (later : List Chosen) : Prop :=
  ∃ out notes, expand (.arr ((earlier ++ selection :: later).map Chosen.value)) definitions.policies = .ok (out, notes) ∧
    ∃ p ∈ placements definitions selection, (document out).held p.spot = some p.value ∨
      ∃ other ∈ later, ∃ q ∈ placements definitions other, q.spot = p.spot

/-- The policy that is enabled places the value it has for that. -/
def PlacesOwn (definitions : Definitions) (selection : Chosen) : Prop :=
  ∀ definition browser path, Dict.get definitions selection.policyId = some definition →
    definition.target = some (browser, path) → selection.disabled = false → definition.valueName ≠ "" →
      ∃ p ∈ placements definitions selection, p.spot = ⟨browser, path, definition.valueName⟩ ∧
        p.value = definition.enabled.val

/-- The selection is not ignored. -/
def Heeded (definitions : Definitions) (earlier : List Chosen) (selection : Chosen) (later : List Chosen) : Prop :=
  (Remains definitions earlier selection later ∨ Noted definitions earlier selection) ∧
    PlacesOwn definitions selection

/-- The policy has no elements, or an element that is given writes the same. -/
def OwnWritten (definitions : Definitions) (selection : Chosen) : Prop :=
  ∀ definition browser path, Dict.get definitions selection.policyId = some definition →
    definition.target = some (browser, path) → selection.disabled = false → definition.valueName ≠ "" →
      definition.elements = [] ∨ ∃ element ∈ definition.elements, ∃ raw,
        Dict.get selection.values element.id = some raw ∧ elementName element = definition.valueName ∧
          elementValue element raw.val = definition.enabled.val

/-- It is refused, or of what it places something is not met again, or set again by a later selection; and the value
of an enabled policy is written. -/
def Placed (definitions : Definitions) (selection : Chosen) (later : List Chosen) : Prop :=
  ((refusal definitions selection).isSome ∨
      Lasts (placements definitions selection) (later.flatMap (placements definitions))) ∧
    OwnWritten definitions selection

theorem remains_iff (definitions : Definitions) (earlier : List Chosen) (selection : Chosen) (later : List Chosen) :
    Remains definitions earlier selection later ↔
      Lasts (placements definitions selection) (later.flatMap (placements definitions)) := by
  obtain ⟨out, notes, hexpand, hdocument, -⟩ := expand_eq definitions (earlier ++ selection :: later)
  rw [List.flatMap_append, List.flatMap_cons, List.foldl_append] at hdocument
  rw [← held_iff_lasts, ← hdocument]
  unfold Remains
  simp only [List.mem_flatMap, ← exists_and_right, and_assoc]
  constructor
  · rintro ⟨out', notes', hexpand', p, hp, hheld⟩
    obtain ⟨rfl, rfl⟩ := Prod.mk.inj (Except.ok.inj (hexpand.symm.trans hexpand'))
    refine ⟨p, hp, hheld.imp id ?_⟩
    rintro ⟨other, hother, q, hq, hspot⟩
    exact ⟨q, other, hother, hq, hspot⟩
  · rintro ⟨p, hp, hheld⟩
    refine ⟨out, notes, hexpand, p, hp, hheld.imp id ?_⟩
    rintro ⟨q, other, hother, hq, hspot⟩
    exact ⟨other, hother, q, hq, hspot⟩

theorem refusal_names {definitions : Definitions} {selection : Chosen} {refused : String × String}
    (h : refusal definitions selection = some refused) : refused.1 = selection.policyId ∨
      ∃ definition, Dict.get definitions selection.policyId = some definition ∧ refused.1 = definition.id := by
  unfold refusal at h
  cases hdefinition : Dict.get definitions selection.policyId with
  | none =>
      rw [hdefinition] at h
      exact .inl (by rw [← Option.some.inj h])
  | some definition =>
      rw [hdefinition] at h
      right
      refine ⟨definition, rfl, ?_⟩
      dsimp only at h
      cases htarget : definition.target with
      | none =>
          rw [htarget] at h
          rw [← Option.some.inj h]
      | some target =>
          rw [htarget] at h
          dsimp only at h
          split_ifs at h
          rw [← Option.some.inj h]

theorem noted_iff (definitions : Definitions) (earlier : List Chosen) (selection : Chosen) :
    Noted definitions earlier selection ↔ (refusal definitions selection).isSome = true := by
  obtain ⟨out, notes, hbefore, -, hnotes⟩ := expand_eq definitions earlier
  obtain ⟨out', notes', hafter, -, hnotes'⟩ := expand_eq definitions (earlier ++ [selection])
  have hmore : notes' = notes ++ ([selection].filterMap (refusal definitions)).map noteOf := by
    rw [hnotes', hnotes, List.filterMap_append, List.map_append]
  constructor
  · rintro ⟨before, after, hbefore', hafter', id, reason, hadded, -⟩
    obtain rfl := Except.ok.inj (hbefore.symm.trans hbefore')
    obtain rfl := Except.ok.inj (hafter.symm.trans hafter')
    rw [hmore] at hadded
    have hone := List.append_cancel_left hadded
    cases hrefusal : refusal definitions selection with
    | none =>
        rw [List.filterMap_cons_none hrefusal] at hone
        cases hone
    | some refused => rfl
  · intro hsome
    obtain ⟨refused, hrefused⟩ := Option.isSome_iff_exists.mp hsome
    refine ⟨_, _, hbefore, hafter, refused.1, refused.2, ?_, refusal_names hrefused⟩
    dsimp only
    rw [hmore, List.filterMap_cons_some hrefused]
    rfl

theorem placesOwn_iff (definitions : Definitions) (selection : Chosen) :
    PlacesOwn definitions selection ↔ OwnWritten definitions selection := by
  unfold PlacesOwn OwnWritten
  refine forall₃_congr fun definition browser path => forall₄_congr fun hdefinition htarget henabled hname => ?_
  have hplacements : placements definitions selection = (if definition.elements.isEmpty then
      definition.own browser path definition.enabled
      else definition.elements.filterMap (elementPlacement browser path selection.values)) := by
    rw [placements, hdefinition]
    dsimp only
    rw [htarget, henabled]
    rfl
  rw [hplacements]
  constructor
  · rintro ⟨p, hp, hspot, hvalue⟩
    by_cases hempty : definition.elements = []
    · exact .inl hempty
    · rw [if_neg (by simpa using hempty)] at hp
      obtain ⟨element, helement, hplacement⟩ := List.mem_filterMap.mp hp
      obtain ⟨raw, hraw, rfl⟩ := Option.map_eq_some_iff.mp hplacement
      exact .inr ⟨element, helement, raw, hraw, (Spot.mk.inj hspot).2.2, hvalue⟩
  · rintro (hempty | ⟨element, helement, raw, hraw, helementName, hvalue⟩)
    · rw [if_pos (by simp [hempty]), Definition.own, if_neg hname]
      exact ⟨_, List.mem_singleton_self _, rfl, rfl⟩
    · have hnot : ¬ definition.elements.isEmpty = true := by
        intro hempty
        rw [List.isEmpty_iff.mp hempty] at helement
        cases helement
      rw [if_neg hnot]
      refine ⟨⟨⟨browser, path, elementName element⟩, elementValue element raw.val, elementValue_plain element raw⟩,
        List.mem_filterMap.mpr ⟨element, helement, by rw [elementPlacement, hraw]; rfl⟩, ?_, hvalue⟩
      rw [helementName]

/-- A selection is not ignored exactly when it is refused or something it places is neither taken away by a later
placement nor by one of its own, and the value of an enabled policy is written. -/
theorem heeded_iff (definitions : Definitions) (earlier : List Chosen) (selection : Chosen) (later : List Chosen) :
    Heeded definitions earlier selection later ↔ Placed definitions selection later := by
  unfold Heeded Placed
  rw [remains_iff, noted_iff, placesOwn_iff, or_comm]

def homepage : Definition where
  id := "HomepageLocation"
  registryKey := "Software\\Policies\\Google\\Chrome"
  valueName := "HomepageEnabled"
  enabledValue := some ⟨.int 1, rfl⟩
  disabledValue := none
  elements := [{ id := "location", type := "text", valueName := "HomepageLocation" }]

/-- Enabled, with no text given. -/
def chosenHomepage : Chosen where
  fields := [("policy_id", .str "HomepageLocation"), ("state", .str "enabled"), ("values", .obj [])]
  values := []
  given := .inl rfl

omit [Runtime] in
theorem homepage_ignored : letI := Runtime.latin
    ¬ (Remains [("HomepageLocation", homepage)] [] chosenHomepage [] ∨
        Noted [("HomepageLocation", homepage)] [] chosenHomepage) ∧
      ¬ PlacesOwn [("HomepageLocation", homepage)] chosenHomepage := by
  let _ := Runtime.latin
  have hnothing : placements [("HomepageLocation", homepage)] chosenHomepage = [] := by decide +kernel
  constructor
  · rintro (hremains | hnoted)
    · obtain ⟨out, notes, -, p, hp, -⟩ := hremains
      rw [hnothing] at hp
      cases hp
    · rw [noted_iff] at hnoted
      revert hnoted
      decide +kernel
  · intro hown
    obtain ⟨p, hp, -⟩ := hown homepage "chromium" [] rfl (by decide +kernel) (by decide +kernel) (by decide)
    rw [hnothing] at hp
    cases hp

end OpenDirectory.Admx
