import OpenDirectory.PolicyModel
import OpenDirectory.Lists

/-! Merging the settings of ordered policy objects into one document. A list category is merged by
the identity of its entries, a dictionary category one level deep, and anything else is replaced.
No category's merge looks at another, so what the document holds under a category is what that
category's own values make of it. -/

namespace OpenDirectory.Policy

variable [Runtime]

/-- The fields that identify an entry, as one text. -/
def identity (category : String) (item : Value) : String :=
  Text.join "|" (((Dict.get listKeys category).getD []).map fun key =>
    ((item.field key).getD (.str "")).text)

/-- Whether an entry's own targeting, if it has any, lets it through. -/
def entryApplies (target : Option Target) (item : Value) : Except Raised Bool :=
  match target with
  | none => .ok true
  | some target =>
      let targeting := (item.field "targeting").getD .null
      whenSet targeting (Prod.fst <$> targetingMatches targeting target)

def mergeEntry (target : Option Target) (category : String) (bucket item : Value) :
    Except Raised Value :=
  if item.isObj then do
    if ← entryApplies target item then bucket.setItem (identity category item) item
    else return bucket
  else .ok bucket

def mergeField (bucket : Value) (field : String × Value) : Except Raised Value :=
  match field.2 with
  | .obj sub => do
      match ← bucket.get field.1 with
      | some (.obj old) => bucket.setItem field.1 (.obj (Dict.update old sub))
      | _ => bucket.setItem field.1 (.obj sub)
  | value => bucket.setItem field.1 value

/-- What one object's value makes of the category so far. -/
def mergeCategory (target : Option Target) (category : String) (current : Option Value)
    (value : Value) : Except Raised Value :=
  match value with
  | .arr items =>
      if category ∈ Dict.keys listKeys then
        items.foldlM (mergeEntry target category) (current.getD (.obj []))
      else .ok value
  | .obj fields =>
      if category ∈ dictCategories then fields.foldlM mergeField (current.getD (.obj []))
      else .ok value
  | _ => .ok value

def mergeGpo (target : Option Target) (merged : Value.Fields) (gpo : Gpo) :
    Except Raised Value.Fields :=
  gpo.settings.foldlM (fun merged entry => do
    let value ← mergeCategory target entry.1 (Dict.get merged entry.1) entry.2
    return Dict.set merged entry.1 value) merged

/-- The entries of a merged list, out of the dictionary they were merged in. -/
def listOf (bucket : Value) : Except Raised Value :=
  (fun fields => .arr (Dict.values fields)) <$> bucket.entries

def finishList (merged : Value.Fields) (category : String) : Except Raised Value.Fields :=
  match Dict.get merged category with
  | none => .ok merged
  | some bucket => Dict.set merged category <$> listOf bucket

/-- One document out of the settings of ordered objects; later objects win. -/
def mergeSettings (gpos : List Gpo) (target : Option Target) : Except Raised Value.Fields := do
  (Dict.keys listKeys).foldlM finishList (← gpos.foldlM (mergeGpo target) [])

/-- The values the objects hold under a category. -/
def carried (gpos : List Gpo) (category : String) : List Value :=
  gpos.filterMap fun gpo => Dict.get gpo.settings category

def mergeValues (target : Option Target) (category : String) (values : List Value) :
    Except Raised (Option Value) :=
  values.foldlM (fun current value => some <$> mergeCategory target category current value) none

omit [Runtime] in
theorem nodup_settings (gpo : Gpo) : (Dict.keys gpo.settings).Nodup :=
  (Value.distinct_obj_iff.mp gpo.settingsDistinct).1

omit [Runtime] in
theorem filter_settings_eq (gpos : List Gpo) (category : String) :
    (gpos.flatMap Gpo.settings).filter (fun entry => entry.1 = category) =
      (carried gpos category).map (category, ·) := by
  induction gpos with
  | nil => rfl
  | cons gpo gpos ih =>
      rw [List.flatMap_cons, List.filter_append, ih, Dict.filter_fst_eq_get (nodup_settings gpo)]
      cases h : Dict.get gpo.settings category <;> simp [carried, h]

theorem foldlM_mergeGpo (gpos : List Gpo) (target : Option Target) (merged : Value.Fields) :
    gpos.foldlM (mergeGpo target) merged =
      (gpos.flatMap Gpo.settings).foldlM (fun merged entry => do
        let value ← mergeCategory target entry.1 (Dict.get merged entry.1) entry.2
        return Dict.set merged entry.1 value) merged := by
  rw [List.foldlM_flatMap]
  rfl

theorem foldlM_mergeGpo_get {gpos : List Gpo} {target : Option Target} {merged : Value.Fields}
    (h : gpos.foldlM (mergeGpo target) [] = .ok merged) (category : String) :
    mergeValues target category (carried gpos category) = .ok (Dict.get merged category) := by
  rw [foldlM_mergeGpo] at h
  have hget := Dict.foldlM_set_get (mergeCategory target) _ h category
  rw [filter_settings_eq, List.foldlM_map] at hget
  exact hget

theorem foldlM_mergeGpo_ok {gpos : List Gpo} {target : Option Target}
    (h : ∀ category, ∃ bucket, mergeValues target category (carried gpos category) = .ok bucket) :
    ∃ merged, gpos.foldlM (mergeGpo target) [] = .ok merged := by
  rw [foldlM_mergeGpo]
  refine Dict.foldlM_set_ok (mergeCategory target) _ fun category => ?_
  rw [filter_settings_eq, List.foldlM_map]
  exact h category

def listed : Option Value → Except Raised (Option Value)
  | none => .ok none
  | some bucket => some <$> listOf bucket

omit [Runtime] in
theorem finishList_get {merged next : Value.Fields} {first : String}
    (h : finishList merged first = .ok next) :
    listed (Dict.get merged first) = .ok (Dict.get next first) ∧
      ∀ category, first ≠ category → Dict.get next category = Dict.get merged category := by
  unfold finishList at h
  split at h
  · rename_i hnone
    cases h
    exact ⟨by rw [hnone]; rfl, fun _ _ => rfl⟩
  · rename_i bucket hbucket
    cases hlist : listOf bucket with
    | error raised => simp [hlist, Functor.map, Except.map] at h
    | ok items =>
        simp only [hlist, Functor.map, Except.map, Except.ok.injEq] at h
        subst h
        refine ⟨?_, fun category hne => Dict.get_set_of_ne _ _ hne⟩
        rw [hbucket, Dict.get_set_self]
        simp [listed, hlist, Functor.map, Except.map]

omit [Runtime] in
theorem foldlM_finishList_get {categories : List String} (hnodup : categories.Nodup)
    {merged merged' : Value.Fields} (h : categories.foldlM finishList merged = .ok merged')
    (category : String) :
    (if category ∈ categories then listed (Dict.get merged category)
      else .ok (Dict.get merged category)) = .ok (Dict.get merged' category) := by
  induction categories generalizing merged with
  | nil =>
      cases h
      rfl
  | cons first categories ih =>
      obtain ⟨hfirst, hnodup⟩ := List.nodup_cons.mp hnodup
      rw [List.foldlM_cons] at h
      cases hstep : finishList merged first with
      | error raised => simp [hstep, bind, Except.bind] at h
      | ok next =>
          have hrest := @ih hnodup next (by simpa [hstep, bind, Except.bind] using h)
          obtain ⟨hhere, hothers⟩ := finishList_get hstep
          by_cases hcategory : first = category
          · subst hcategory
            rw [if_neg hfirst] at hrest
            rw [if_pos List.mem_cons_self, hhere]
            exact hrest
          · rw [hothers category hcategory] at hrest
            simpa [Ne.symm hcategory] using hrest

omit [Runtime] in
theorem foldlM_finishList_ok {categories : List String} (hnodup : categories.Nodup)
    {merged : Value.Fields}
    (h : ∀ category ∈ categories, ∃ list, listed (Dict.get merged category) = .ok list) :
    ∃ merged', categories.foldlM finishList merged = .ok merged' := by
  induction categories generalizing merged with
  | nil => exact ⟨merged, rfl⟩
  | cons first categories ih =>
      obtain ⟨hfirst, hnodup⟩ := List.nodup_cons.mp hnodup
      obtain ⟨list, hlist⟩ := h first List.mem_cons_self
      have hstep : ∃ next, finishList merged first = .ok next := by
        unfold finishList
        cases hbucket : Dict.get merged first with
        | none => exact ⟨merged, rfl⟩
        | some bucket =>
            rw [hbucket] at hlist
            cases hitems : listOf bucket with
            | error raised => simp [listed, hitems, Functor.map, Except.map] at hlist
            | ok items => exact ⟨Dict.set merged first items, by simp [hitems, Functor.map, Except.map]⟩
      obtain ⟨next, hnext⟩ := hstep
      obtain ⟨_, hothers⟩ := finishList_get hnext
      have hrest : ∀ category ∈ categories, ∃ list, listed (Dict.get next category) = .ok list := by
        intro category hcategory
        have hne : first ≠ category := fun heq => hfirst (heq ▸ hcategory)
        rw [hothers category hne]
        exact h category (.tail _ hcategory)
      obtain ⟨merged', hmerged'⟩ := ih hnodup hrest
      exact ⟨merged', by simpa [hnext, bind, Except.bind] using hmerged'⟩

omit [Runtime] in
theorem nodup_listKeys : (Dict.keys listKeys).Nodup := by decide

/-- What a category of the merged document holds, from the category's own values. -/
def mergedCategory (target : Option Target) (category : String) (values : List Value) :
    Except Raised (Option Value) := do
  let bucket ← mergeValues target category values
  if category ∈ Dict.keys listKeys then listed bucket else return bucket

theorem mergeSettings_get {gpos : List Gpo} {target : Option Target} {merged : Value.Fields}
    (h : mergeSettings gpos target = .ok merged) (category : String) :
    mergedCategory target category (carried gpos category) = .ok (Dict.get merged category) := by
  unfold mergeSettings at h
  cases hmerge : gpos.foldlM (mergeGpo target) [] with
  | error raised => simp [hmerge, bind, Except.bind] at h
  | ok buckets =>
      have hlists := foldlM_finishList_get nodup_listKeys
        (by simpa [hmerge, bind, Except.bind] using h) category
      unfold mergedCategory
      rw [foldlM_mergeGpo_get hmerge category]
      exact hlists

theorem mergeSettings_ok {gpos : List Gpo} {target : Option Target}
    (h : ∀ category, ∃ value,
      mergedCategory target category (carried gpos category) = .ok value) :
    ∃ merged, mergeSettings gpos target = .ok merged := by
  have hvalues : ∀ category, ∃ bucket,
      mergeValues target category (carried gpos category) = .ok bucket := by
    intro category
    obtain ⟨value, hvalue⟩ := h category
    unfold mergedCategory at hvalue
    cases hbucket : mergeValues target category (carried gpos category) with
    | error raised => simp [hbucket, bind, Except.bind] at hvalue
    | ok bucket => exact ⟨bucket, rfl⟩
  obtain ⟨buckets, hbuckets⟩ := foldlM_mergeGpo_ok hvalues
  have hlists : ∀ category ∈ Dict.keys listKeys, ∃ list,
      listed (Dict.get buckets category) = .ok list := by
    intro category hcategory
    obtain ⟨value, hvalue⟩ := h category
    unfold mergedCategory at hvalue
    rw [foldlM_mergeGpo_get hbuckets category] at hvalue
    exact ⟨value, by simpa [bind, Except.bind, hcategory] using hvalue⟩
  obtain ⟨merged, hmerged⟩ := foldlM_finishList_ok nodup_listKeys hlists
  exact ⟨merged, by simpa [mergeSettings, hbuckets, bind, Except.bind] using hmerged⟩

/-- The entries in which a value says something: a list's own items. -/
def itemsOf : Value → List Value
  | .arr items => items
  | _ => []

def entryHolds (target : Option Target) (item : Value) : Bool :=
  match entryApplies target item with
  | .ok applies => applies
  | .error _ => false

/-- The entries that pass their own targeting. -/
def passing (target : Option Target) (items : List Value) : List Value :=
  items.filter fun item => item.isObj && entryHolds target item

/-- Every entry of a category that passes its own targeting, in application order. -/
def passingEntries (gpos : List Gpo) (target : Option Target) (category : String) : List Value :=
  passing target ((carried gpos category).flatMap itemsOf)

def mergedList (merged : Value.Fields) (category : String) : List Value :=
  itemsOf ((Dict.get merged category).getD .null)

theorem mergeEntry_eq (target : Option Target) (category : String) (bucket : Value.Fields)
    {item : Value} (h : item.isObj = true → ∃ applies, entryApplies target item = .ok applies) :
    mergeEntry target category (.obj bucket) item =
      .ok (.obj ((passing target [item]).foldl
        (fun bucket item => Dict.set bucket (identity category item) item) bucket)) := by
  unfold mergeEntry
  cases hobj : item.isObj with
  | false => simp [passing, hobj]
  | true =>
      obtain ⟨applies, happlies⟩ := h hobj
      cases applies <;>
        simp [passing, hobj, happlies, entryHolds, Value.setItem, bind, Except.bind, pure,
          Except.pure]

theorem foldlM_mergeEntry (target : Option Target) (category : String) {items : List Value}
    (h : ∀ item ∈ items, item.isObj = true → ∃ applies, entryApplies target item = .ok applies)
    (bucket : Value.Fields) :
    items.foldlM (mergeEntry target category) (.obj bucket) =
      .ok (.obj ((passing target items).foldl
        (fun bucket item => Dict.set bucket (identity category item) item) bucket)) := by
  induction items generalizing bucket with
  | nil => rfl
  | cons item items ih =>
      have hsplit : passing target (item :: items) =
          passing target [item] ++ passing target items := by
        simp [passing, ← List.filter_append]
      rw [List.foldlM_cons, mergeEntry_eq target category bucket (h item List.mem_cons_self),
        hsplit, List.foldl_append]
      exact ih (fun other hother => h other (.tail _ hother)) _

/-- What the schema makes of a list category: a list, the targeting of whose entries can be
evaluated. -/
def ListShaped (value : Value) : Prop :=
  ∃ items, value = .arr items ∧ ∀ item ∈ items, item.isObj = true →
    ∀ target, ∃ applies, entryApplies target item = .ok applies

theorem mergeValues_list (target : Option Target) {category : String}
    (hcategory : category ∈ Dict.keys listKeys) {values : List Value}
    (h : ∀ value ∈ values, ListShaped value) :
    mergeValues target category values = .ok (if values = [] then none else
      some (.obj (Dict.index (identity category)
        (passing target (values.flatMap itemsOf))))) := by
  have hgen : ∀ (values : List Value), (∀ value ∈ values, ListShaped value) →
      ∀ bucket : Value.Fields,
      values.foldlM (fun current value => some <$> mergeCategory target category current value)
          (some (.obj bucket)) =
        .ok (some (.obj ((passing target (values.flatMap itemsOf)).foldl
          (fun bucket item => Dict.set bucket (identity category item) item) bucket))) := by
    intro values
    induction values with
    | nil =>
        intro _ bucket
        rfl
    | cons value values ih =>
        intro h bucket
        obtain ⟨items, rfl, htargeting⟩ := h value List.mem_cons_self
        have hsplit : passing target ((Value.arr items :: values).flatMap itemsOf) =
            passing target items ++ passing target (values.flatMap itemsOf) := by
          simp [passing, itemsOf]
        rw [List.foldlM_cons, hsplit, List.foldl_append, mergeCategory, if_pos hcategory,
          Option.getD_some, foldlM_mergeEntry target category
            (fun item hitem hobj => htargeting item hitem hobj target)]
        exact ih (fun other hother => h other (.tail _ hother)) _
  unfold mergeValues
  cases values with
  | nil => rfl
  | cons value values =>
      obtain ⟨items, rfl, _⟩ := h value List.mem_cons_self
      -- a missing category starts from the empty dictionary, like an empty one
      have hstart := hgen (Value.arr items :: values) h []
      rw [List.foldlM_cons] at hstart ⊢
      rw [if_neg (List.cons_ne_nil _ _), Dict.index, ← hstart]
      simp only [mergeCategory, if_pos hcategory, Option.getD_some, Option.getD_none]

theorem mergedCategory_list (target : Option Target) {category : String}
    (hcategory : category ∈ Dict.keys listKeys) {values : List Value}
    (h : ∀ value ∈ values, ListShaped value) :
    mergedCategory target category values = .ok (if values = [] then none else
      some (.arr (Dict.values (Dict.index (identity category)
        (passing target (values.flatMap itemsOf)))))) := by
  unfold mergedCategory
  rw [mergeValues_list target hcategory h]
  by_cases hvalues : values = [] <;>
    simp [bind, Except.bind, hcategory, hvalues, listed, listOf, Value.entries, Functor.map,
      Except.map]

def fieldsOf : Value → Value.Fields
  | .obj fields => fields
  | _ => []

/-- What a field holds after it is written over: an object is merged into an object, anything else
is replaced. -/
def overlay (current : Option Value) (value : Value) : Value :=
  match current, value with
  | some (.obj old), .obj sub => .obj (Dict.update old sub)
  | _, value => value

omit [Runtime] in
theorem mergeField_eq (bucket : Value.Fields) (field : String × Value) :
    mergeField (.obj bucket) field =
      .ok (.obj (Dict.set bucket field.1 (overlay (Dict.get bucket field.1) field.2))) := by
  obtain ⟨key, value⟩ := field
  cases value with
  | obj sub =>
      cases hold : Dict.get bucket key with
      | none => simp [mergeField, Value.get, hold, overlay, Value.setItem, bind, Except.bind]
      | some old =>
          cases old <;>
            simp [mergeField, Value.get, hold, overlay, Value.setItem, bind, Except.bind]
  | _ => simp [mergeField, overlay, Value.setItem]

def mergeFields (bucket fields : Value.Fields) : Value.Fields :=
  fields.foldl (fun bucket field =>
    Dict.set bucket field.1 (overlay (Dict.get bucket field.1) field.2)) bucket

omit [Runtime] in
theorem foldlM_mergeField (fields bucket : Value.Fields) :
    fields.foldlM mergeField (.obj bucket) = .ok (.obj (mergeFields bucket fields)) := by
  induction fields generalizing bucket with
  | nil => rfl
  | cons field fields ih =>
      rw [List.foldlM_cons, mergeField_eq]
      exact ih _

omit [Runtime] in
theorem dictCategories_disjoint {category : String} (h : category ∈ dictCategories) :
    category ∉ Dict.keys listKeys := by
  revert category
  decide

theorem mergeValues_dict (target : Option Target) {category : String}
    (hcategory : category ∈ dictCategories) {values : List Value}
    (h : ∀ value ∈ values, value.isObj = true) :
    mergeValues target category values = .ok (if values = [] then none else
      some (.obj (mergeFields [] (values.flatMap fieldsOf)))) := by
  have hgen : ∀ (values : List Value), (∀ value ∈ values, value.isObj = true) →
      ∀ bucket : Value.Fields,
      values.foldlM (fun current value => some <$> mergeCategory target category current value)
          (some (.obj bucket)) =
        .ok (some (.obj (mergeFields bucket (values.flatMap fieldsOf)))) := by
    intro values
    induction values with
    | nil =>
        intro _ bucket
        rfl
    | cons value values ih =>
        intro h bucket
        cases value with
        | obj fields =>
            rw [List.foldlM_cons, List.flatMap_cons, mergeFields, List.foldl_append, mergeCategory,
              if_pos hcategory, Option.getD_some, foldlM_mergeField]
            exact ih (fun other hother => h other (.tail _ hother)) _
        | _ => exact absurd (h _ List.mem_cons_self) (by simp [Value.isObj])
  unfold mergeValues
  cases values with
  | nil => rfl
  | cons value values =>
      cases value with
      | obj fields =>
          have hstart := hgen (Value.obj fields :: values) h []
          rw [List.foldlM_cons] at hstart ⊢
          rw [if_neg (List.cons_ne_nil _ _), ← hstart]
          simp only [mergeCategory, if_pos hcategory, Option.getD_some, Option.getD_none]
      | _ => exact absurd (h _ List.mem_cons_self) (by simp [Value.isObj])

theorem mergedCategory_dict (target : Option Target) {category : String}
    (hcategory : category ∈ dictCategories) {values : List Value}
    (h : ∀ value ∈ values, value.isObj = true) :
    mergedCategory target category values = .ok (if values = [] then none else
      some (.obj (mergeFields [] (values.flatMap fieldsOf)))) := by
  unfold mergedCategory
  rw [mergeValues_dict target hcategory h]
  simp [bind, Except.bind, pure, Except.pure, dictCategories_disjoint hcategory]

end OpenDirectory.Policy
