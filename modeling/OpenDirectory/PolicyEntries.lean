import OpenDirectory.PolicyMerge

/-! Which entries of a list category survive a merge. Entries are told apart by the joined text of
their key fields, so the last entry of every key survives exactly when no two keys join to the same
text. -/

namespace OpenDirectory.Policy

variable [Runtime]

/-- Settings as the schema writes them: lists and objects where the categories have them, and
targeting that can be evaluated. -/
structure Gpo.Shaped (gpo : Gpo) : Prop where
  lists : ∀ category ∈ Dict.keys listKeys, ∀ value, Dict.get gpo.settings category = some value →
    ListShaped value
  dicts : ∀ category ∈ dictCategories, ∀ value, Dict.get gpo.settings category = some value →
    value.isObj = true

/-- The values of the fields that identify an entry. -/
def keyTuple (category : String) (item : Value) : List (Option Value) :=
  ((Dict.get listKeys category).getD []).map item.field

variable {category : String} {gpos : List Gpo}

theorem identity_eq_of_keyTuple {item item' : Value}
    (h : keyTuple category item = keyTuple category item') :
    identity category item = identity category item' := by
  have htext : ∀ item : Value, identity category item =
      Text.join "|" ((keyTuple category item).map fun value => (value.getD (.str "")).text) := by
    intro item
    simp [identity, keyTuple, Function.comp_def]
  rw [htext, htext, h]

theorem entryApplies_untargeted (target : Option Target) {item : Value}
    (h : item.field "targeting" = none) : entryApplies target item = .ok true := by
  cases target with
  | none => rfl
  | some target => simp [entryApplies, h, whenSet, Value.truthy]

omit [Runtime] in
theorem mem_carried {value : Value} :
    value ∈ carried gpos category ↔ ∃ gpo ∈ gpos, Dict.get gpo.settings category = some value := by
  simp [carried]

theorem lists_of_shaped (h : ∀ gpo ∈ gpos, gpo.Shaped)
    (hcategory : category ∈ Dict.keys listKeys) :
    ∀ value ∈ carried gpos category, ListShaped value := by
  intro value hvalue
  obtain ⟨gpo, hgpo, hget⟩ := mem_carried.mp hvalue
  exact (h gpo hgpo).lists category hcategory value hget

theorem dicts_of_shaped (h : ∀ gpo ∈ gpos, gpo.Shaped)
    (hcategory : category ∈ dictCategories) :
    ∀ value ∈ carried gpos category, value.isObj = true := by
  intro value hvalue
  obtain ⟨gpo, hgpo, hget⟩ := mem_carried.mp hvalue
  exact (h gpo hgpo).dicts category hcategory value hget

theorem mergedCategory_other (target : Option Target)
    (hlist : category ∉ Dict.keys listKeys) (hdict : category ∉ dictCategories)
    (values : List Value) : mergedCategory target category values = .ok values.getLast? := by
  have hstep : ∀ current value, mergeCategory target category current value = .ok value := by
    intro current value
    cases value <;> simp [mergeCategory, hlist, hdict]
  have hgen : ∀ (values : List Value) (current : Option Value),
      values.foldlM (fun current value => some <$> mergeCategory target category current value)
        current = .ok (values.getLast?.or current) := by
    intro values
    induction values with
    | nil =>
        intro current
        rfl
    | cons value values ih =>
        intro current
        rw [List.foldlM_cons, hstep]
        refine (ih (some value)).trans ?_
        rw [List.getLast?_cons]
        cases values.getLast? <;> rfl
  simp [mergedCategory, mergeValues, hgen, hlist, bind, Except.bind, pure, Except.pure]

theorem mergeSettings_shaped (h : ∀ gpo ∈ gpos, gpo.Shaped)
    (target : Option Target) : ∃ merged, mergeSettings gpos target = .ok merged := by
  refine mergeSettings_ok fun category => ?_
  by_cases hlist : category ∈ Dict.keys listKeys
  · exact ⟨_, mergedCategory_list target hlist (lists_of_shaped h hlist)⟩
  · by_cases hdict : category ∈ dictCategories
    · exact ⟨_, mergedCategory_dict target hdict (dicts_of_shaped h hdict)⟩
    · exact ⟨_, mergedCategory_other target hlist hdict _⟩

theorem mergedList_eq (h : ∀ gpo ∈ gpos, gpo.Shaped) {target : Option Target}
    {merged : Value.Fields} (hmerged : mergeSettings gpos target = .ok merged)
    (hcategory : category ∈ Dict.keys listKeys) :
    mergedList merged category =
      Dict.values (Dict.index (identity category) (passingEntries gpos target category)) := by
  have hget := mergeSettings_get hmerged category
  rw [mergedCategory_list target hcategory (lists_of_shaped h hcategory)] at hget
  unfold mergedList
  rw [← Except.ok.inj hget, passingEntries]
  by_cases hvalues : carried gpos category = []
  · rw [if_pos hvalues, hvalues]
    rfl
  · rw [if_neg hvalues]
    rfl

/-- A merged list keeps the last passing entry of every key, and nothing else, exactly when no two
passing entries of different keys are identified by the same text. -/
theorem mergeSettings_keepsLatest_iff {gpos : List Gpo} (h : ∀ gpo ∈ gpos, gpo.Shaped)
    (target : Option Target) {category : String} (hcategory : category ∈ Dict.keys listKeys) :
    ∃ merged, mergeSettings gpos target = .ok merged ∧
      (Dict.KeepsLatest (keyTuple category) (passingEntries gpos target category)
          (mergedList merged category) ↔
        ∀ item ∈ passingEntries gpos target category,
          ∀ item' ∈ passingEntries gpos target category,
            identity category item = identity category item' →
              keyTuple category item = keyTuple category item') := by
  obtain ⟨merged, hmerged⟩ := mergeSettings_shaped h target
  refine ⟨merged, hmerged, ?_⟩
  rw [mergedList_eq h hmerged hcategory]
  exact Dict.keepsLatest_index_iff (fun item item' => identity_eq_of_keyTuple) _

/-- One object with a shortcut to each of two places, for two principals. -/
def twoShortcuts (name principal name' principal' : String) : Value :=
  .arr [.obj [("name", .str name), ("kind", .str "link"), ("target", .str "https://a.example.org"),
      ("icon", .str ""), ("where", .str "desktop"), ("for_principal", .str principal)],
    .obj [("name", .str name'), ("kind", .str "link"), ("target", .str "https://b.example.org"),
      ("icon", .str ""), ("where", .str "desktop"), ("for_principal", .str principal')]]

def shortcutsGpo (name principal name' principal' : String) : Gpo where
  guid := "g"
  displayName := "Shortcuts"
  enabled := true
  settings := [("shortcuts", twoShortcuts name principal name' principal')]
  settingsDistinct := by
    simp [twoShortcuts, Dict.keys, Value.distinct, Value.distinctItems, Value.distinctFields]

theorem shaped_shortcutsGpo (name principal name' principal' : String) :
    (shortcutsGpo name principal name' principal').Shaped := by
  refine ⟨fun category _ value hvalue => ?_, fun category hcategory value hvalue => ?_⟩
  · obtain ⟨rfl, rfl⟩ : category = "shortcuts" ∧ value =
        twoShortcuts name principal name' principal' := by
      have := Dict.mem_of_get hvalue
      simpa [shortcutsGpo] using this
    refine ⟨_, rfl, fun item hitem _ target => ⟨true, ?_⟩⟩
    apply entryApplies_untargeted
    rcases List.mem_pair.mp hitem with rfl | rfl <;> simp [Value.field, Dict.get_cons]
  · obtain ⟨rfl, rfl⟩ : category = "shortcuts" ∧ value =
        twoShortcuts name principal name' principal' := by
      have := Dict.mem_of_get hvalue
      simpa [shortcutsGpo] using this
    exact absurd hcategory (by decide)

omit [Runtime] in
theorem mergeSettings_keepsLatest_iff_shortcuts :
    letI := Runtime.latin
    let gpos := [shortcutsGpo "Reports" "staff" "Wiki" "staff"]
    ∃ merged, mergeSettings gpos none = .ok merged ∧
      (Dict.KeepsLatest (keyTuple "shortcuts") (passingEntries gpos none "shortcuts")
          (mergedList merged "shortcuts") ↔
        ∀ item ∈ passingEntries gpos none "shortcuts",
          ∀ item' ∈ passingEntries gpos none "shortcuts",
            identity "shortcuts" item = identity "shortcuts" item' →
              keyTuple "shortcuts" item = keyTuple "shortcuts" item') := by
  let _ := Runtime.latin
  exact mergeSettings_keepsLatest_iff (by simp [shaped_shortcutsGpo]) none (by decide)

omit [Runtime] in
/-- A name with a bar in it and a principal with a bar in it join to one text, and the first of the
two shortcuts is gone. -/
theorem shortcuts_replace_one_another :
    letI := Runtime.latin
    let gpos := [shortcutsGpo "Reports|Finance" "staff" "Reports" "Finance|staff"]
    (∀ gpo ∈ gpos, gpo.Shaped) ∧
      ∃ merged, mergeSettings gpos none = .ok merged ∧
        ¬ Dict.KeepsLatest (keyTuple "shortcuts") (passingEntries gpos none "shortcuts")
          (mergedList merged "shortcuts") := by
  let _ := Runtime.latin
  refine ⟨by simp [shaped_shortcutsGpo], _, rfl, ?_⟩
  rintro ⟨hkeeps, _⟩
  obtain ⟨latest, _, hfilter⟩ := hkeeps _ List.mem_cons_self
  have hlength := congrArg List.length hfilter
  rw [List.length_singleton] at hlength
  exact absurd hlength (by decide)

end OpenDirectory.Policy
