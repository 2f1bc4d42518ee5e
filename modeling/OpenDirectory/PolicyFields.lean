import OpenDirectory.PolicyDocument

/-! What a field of a merged dictionary category holds, out of what the objects in order hold in it:
the last of some plain values, and of some objects the one that answers every key with the last
object that has it. -/

namespace OpenDirectory.Policy

/-- Values written over one another. -/
def overlays (values : List Value) : Option Value :=
  values.foldl (fun current value => some (overlay current value)) none

/-- What the objects hold in a field of a dictionary category. -/
def fieldsAt (gpos : List Gpo) (category key : String) : List Value :=
  (carried gpos category).filterMap (·.field key)

theorem overlays_append (values : List Value) (value : Value) :
    overlays (values ++ [value]) = some (overlay (overlays values) value) := by
  simp [overlays]

theorem overlays_plain {values : List Value} (h : ∀ value ∈ values, value.isObj = false) :
    overlays values = values.getLast? := by
  induction values using List.reverseRecOn with
  | nil => rfl
  | append_singleton values value _ =>
      have hplain := h value (List.mem_append_right _ (List.mem_singleton_self value))
      rw [overlays_append, overlay_of_not_obj _ hplain, List.getLast?_concat]

theorem overlays_objects {values : List Value}
    (h : ∀ value ∈ values, ∃ fields, value = .obj fields ∧ (Dict.keys fields).Nodup) :
    (values = [] ∧ overlays values = none) ∨ ∃ fields, overlays values = some (.obj fields) ∧
      (Dict.keys fields).Nodup ∧
        ∀ key, Dict.get fields key = (values.filterMap (·.field key)).getLast? := by
  induction values using List.reverseRecOn with
  | nil => exact .inl ⟨rfl, rfl⟩
  | append_singleton values value ih =>
      obtain ⟨fields, rfl, hfields⟩ :=
        h value (List.mem_append_right _ (List.mem_singleton_self value))
      right
      rw [overlays_append]
      rcases ih fun value hvalue => h value (List.mem_append_left _ hvalue) with
        ⟨rfl, hnone⟩ | ⟨old, hold, hnodup, hget⟩
      · refine ⟨fields, by rw [hnone]; rfl, hfields, fun key => ?_⟩
        cases hkey : Dict.get fields key <;> simp [Value.field, hkey]
      · refine ⟨Dict.update old fields, by rw [hold]; rfl, Dict.nodup_keys_update hnodup,
          fun key => ?_⟩
        rw [Dict.get_update hfields, hget, List.filterMap_append]
        cases hkey : Dict.get fields key <;> simp [Value.field, hkey]

theorem get_mergeFields_foldl (fields bucket : Value.Fields) (key : String) :
    Dict.get (mergeFields bucket fields) key =
      ((fields.filter fun field => field.1 = key).map Prod.snd).foldl
        (fun current value => some (overlay current value)) (Dict.get bucket key) := by
  induction fields generalizing bucket with
  | nil => rfl
  | cons field fields ih =>
      have hcons : mergeFields bucket (field :: fields) = mergeFields
          (Dict.set bucket field.1 (overlay (Dict.get bucket field.1) field.2)) fields := rfl
      rw [hcons, ih, Dict.get_set]
      by_cases hkey : field.1 = key <;> simp [hkey]

theorem filter_fieldsOf {values : List Value} (h : ∀ value ∈ values, value.distinct = true)
    (key : String) :
    ((values.flatMap fieldsOf).filter fun field => field.1 = key).map Prod.snd =
      values.filterMap (·.field key) := by
  rw [List.filter_flatMap, List.map_flatMap, List.filterMap_eq_flatMap_toList]
  refine List.flatMap_congr fun value hvalue => ?_
  cases value with
  | obj fields =>
      have hnodup := (Value.distinct_obj_iff.mp (h _ hvalue)).1
      simp only [fieldsOf, Dict.filter_fst_eq_get hnodup, Value.field]
      cases Dict.get fields key <;> rfl
  | _ => rfl

theorem distinct_carried {gpos : List Gpo} {category : String} :
    ∀ value ∈ carried gpos category, value.distinct = true := by
  intro value hvalue
  obtain ⟨gpo, _, hget⟩ := mem_carried.mp hvalue
  exact Value.distinct_of_get gpo.settingsDistinct hget

variable [Runtime]

variable {gpos : List Gpo} {target : Option Target} {merged : Value.Fields} {category : String}

theorem get_merged_dict (h : ∀ gpo ∈ gpos, gpo.Shaped)
     (hmerged : mergeSettings gpos target = .ok merged)
    (hcategory : category ∈ dictCategories) :
    (carried gpos category = [] ∧ Dict.get merged category = none) ∨
      carried gpos category ≠ [] ∧ ∃ fields, Dict.get merged category = some (.obj fields) ∧
        ∀ key, Dict.get fields key = overlays (fieldsAt gpos category key) := by
  have hget := mergeSettings_get hmerged category
  rw [mergedCategory_dict target hcategory (dicts_of_shaped h hcategory)] at hget
  by_cases hvalues : carried gpos category = []
  · refine .inl ⟨hvalues, ?_⟩
    rw [← Except.ok.inj hget, if_pos hvalues]
  · refine .inr ⟨hvalues, _, (Except.ok.inj hget).symm.trans (if_neg hvalues), fun key => ?_⟩
    rw [get_mergeFields_foldl, filter_fieldsOf distinct_carried]
    rfl

theorem get_merged_list (h : ∀ gpo ∈ gpos, gpo.Shaped)
     (hmerged : mergeSettings gpos target = .ok merged)
    (hcategory : category ∈ Dict.keys listKeys) :
    Dict.get merged category = if carried gpos category = [] then none else
      some (.arr (Dict.values (Dict.index (identity category)
        (passingEntries gpos target category)))) := by
  have hget := mergeSettings_get hmerged category
  rw [mergedCategory_list target hcategory (lists_of_shaped h hcategory)] at hget
  exact (Except.ok.inj hget).symm

theorem get_merged_other
    (hmerged : mergeSettings gpos target = .ok merged)
    (hlist : category ∉ Dict.keys listKeys) (hdict : category ∉ dictCategories) :
    Dict.get merged category = (carried gpos category).getLast? := by
  have hget := mergeSettings_get hmerged category
  rw [mergedCategory_other target hlist hdict] at hget
  exact (Except.ok.inj hget).symm

end OpenDirectory.Policy
