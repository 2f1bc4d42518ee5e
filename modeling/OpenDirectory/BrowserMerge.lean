import OpenDirectory.BrowserSchema
import OpenDirectory.PolicyEntries

/-! Merging the browser settings of several policy objects. A row holds every field, so the merged
object is again what a row would hold: the last object's fields, with the native policies of all the
objects under `extra`. -/

namespace OpenDirectory.Policy

open Browser (Settings)

variable [Runtime]

def browserCategories : List String := ["firefox_policy", "chromium_policy"]

/-- Settings as the schema writes them, the browsers' field by field. -/
structure Gpo.Stored (gpo : Gpo) : Prop where
  shaped : gpo.Shaped
  browsers : ∀ category ∈ browserCategories, ∀ value, Dict.get gpo.settings category = some value →
    ∃ s : Settings, s.accepted = true ∧ value = .obj s.dump

section

variable {d e : Value.Fields}

omit [Runtime]

theorem set_append_of_not_mem {key : String} (h : key ∉ Dict.keys d)
    (value : Value) : Dict.set (d ++ e) key value = d ++ Dict.set e key value := by
  induction d with
  | nil => rfl
  | cons field d ih =>
      obtain ⟨first, old⟩ := field
      simp only [Dict.keys, List.map_cons, List.mem_cons, not_or] at h
      rw [List.cons_append, Dict.set, if_neg (Ne.symm h.1), ih h.2]
      rfl

theorem mergeFields_append (before : Value.Fields) (hkeys : Dict.keys d = Dict.keys e)
    (hnodup : (Dict.keys (before ++ e)).Nodup) :
    mergeFields (before ++ d) e =
      before ++ List.zipWith (fun old new => (new.1, overlay (some old.2) new.2)) d e := by
  induction e generalizing before d with
  | nil =>
      obtain rfl : d = [] := List.map_eq_nil_iff.mp hkeys
      rfl
  | cons new e ih =>
      obtain ⟨key, value⟩ := new
      cases d with
      | nil => cases hkeys
      | cons old d =>
          obtain ⟨key', old⟩ := old
          obtain ⟨rfl, hrest⟩ := List.cons.inj hkeys
          have hbefore : key' ∉ Dict.keys before := by
            intro hmem
            have := List.disjoint_of_nodup_append (by simpa [Dict.keys] using hnodup) hmem
            simp at this
          have hget : Dict.get (before ++ (key', old) :: d) key' = some old := by
            rw [Dict.get_append, Dict.get_eq_none_iff.mpr hbefore]
            simp [Dict.get_cons]
          have hset : Dict.set (before ++ (key', old) :: d) key' (overlay (some old) value) =
              (before ++ [(key', overlay (some old) value)]) ++ d := by
            rw [set_append_of_not_mem hbefore]
            simp [Dict.set]
          have hstep : mergeFields (before ++ (key', old) :: d) ((key', value) :: e) =
              mergeFields ((before ++ [(key', overlay (some old) value)]) ++ d) e := by
            rw [← hset, mergeFields, List.foldl_cons, hget]
            rfl
          rw [hstep, ih _ hrest (by simpa [Dict.keys] using hnodup)]
          simp

theorem mergeFields_of_keys (hkeys : Dict.keys d = Dict.keys e)
    (hnodup : (Dict.keys e).Nodup) :
    mergeFields d e = List.zipWith (fun old new => (new.1, overlay (some old.2) new.2)) d e :=
  mergeFields_append [] hkeys hnodup

theorem mergeFields_nil (hnodup : (Dict.keys e).Nodup) : mergeFields [] e = e := by
  have hgen : ∀ (before e : Value.Fields), (Dict.keys (before ++ e)).Nodup →
      mergeFields before e = before ++ e := by
    intro before e
    induction e generalizing before with
    | nil =>
        intro _
        exact (List.append_nil before).symm
    | cons field e ih =>
        intro hnodup
        obtain ⟨key, value⟩ := field
        have hbefore : key ∉ Dict.keys before := by
          intro hmem
          have := List.disjoint_of_nodup_append (by simpa [Dict.keys] using hnodup) hmem
          simp at this
        have hset : Dict.set before key (overlay none value) =
            before ++ [(key, overlay none value)] := by
          simpa [Dict.set] using set_append_of_not_mem (e := []) hbefore (overlay none value)
        have hstep : mergeFields before ((key, value) :: e) =
            mergeFields (before ++ [(key, value)]) e := by
          rw [mergeFields, List.foldl_cons, Dict.get_eq_none_iff.mpr hbefore, hset]
          rfl
        rw [hstep, ih _ (by simpa [Dict.keys] using hnodup)]
        simp
  exact hgen [] e hnodup

end

/-- What a later object's settings make of those so far: its own fields, and the native policies of
both. -/
def writeOver (s s' : Settings) : Settings := { s' with extra := Dict.update s.extra s'.extra }

omit [Runtime] in
theorem mergeFields_dump (s s' : Settings) : mergeFields s.dump s'.dump = (writeOver s s').dump := by
  rw [mergeFields_of_keys (show Dict.keys s.dump = Dict.keys s'.dump from rfl)
    (Browser.nodup_keys_dump s')]
  simp [Settings.dump, Settings.typed, writeOver, overlay, Browser.texts]

omit [Runtime] in
theorem mergeFields_dumps (s : Settings) (rest : List Settings) :
    mergeFields [] ((s :: rest).flatMap Settings.dump) = (rest.foldl writeOver s).dump := by
  have hgen : ∀ (rest : List Settings) (s : Settings),
      mergeFields s.dump (rest.flatMap Settings.dump) = (rest.foldl writeOver s).dump := by
    intro rest
    induction rest with
    | nil =>
        intro s
        rfl
    | cons s' rest ih =>
        intro s
        rw [List.flatMap_cons, mergeFields, List.foldl_append]
        exact (congrArg (mergeFields · (rest.flatMap Settings.dump)) (mergeFields_dump s s')).trans
          (ih (writeOver s s'))
  rw [List.flatMap_cons, mergeFields, List.foldl_append]
  exact (congrArg (mergeFields · (rest.flatMap Settings.dump))
    (mergeFields_nil (Browser.nodup_keys_dump s))).trans (hgen rest s)

theorem exists_dumps {values : List Value}
    (h : ∀ value ∈ values, ∃ s : Settings, s.accepted = true ∧ value = .obj s.dump) :
    ∃ ss : List Settings, (∀ s ∈ ss, s.accepted = true) ∧
      values = ss.map fun s => .obj s.dump := by
  induction values with
  | nil => exact ⟨[], by simp, rfl⟩
  | cons value values ih =>
      obtain ⟨s, hs, rfl⟩ := h value List.mem_cons_self
      obtain ⟨ss, hss, rfl⟩ := ih fun other hother => h other (.tail _ hother)
      exact ⟨s :: ss, by simpa using ⟨hs, hss⟩, rfl⟩

omit [Runtime] in
theorem browser_isDict {category : String} (h : category ∈ browserCategories) :
    category ∈ dictCategories := by
  revert category
  decide

/-- The merged object of a browser is what a row would hold for the settings written over one
another in order. -/
theorem get_merged_browser {gpos : List Gpo} (h : ∀ gpo ∈ gpos, gpo.Stored)
    {target : Option Target} {merged : Value.Fields}
    (hmerged : mergeSettings gpos target = .ok merged) {category : String}
    (hcategory : category ∈ browserCategories) :
    ∃ ss : List Settings, (∀ s ∈ ss, s.accepted = true) ∧
      carried gpos category = ss.map (fun s => .obj s.dump) ∧
      Dict.get merged category =
        match ss with
        | [] => none
        | s :: rest => some (.obj (rest.foldl writeOver s).dump) := by
  have hvalues : ∀ value ∈ carried gpos category,
      ∃ s : Settings, s.accepted = true ∧ value = .obj s.dump := by
    intro value hvalue
    obtain ⟨gpo, hgpo, hget⟩ := mem_carried.mp hvalue
    exact (h gpo hgpo).browsers category hcategory value hget
  obtain ⟨ss, haccepted, hss⟩ := exists_dumps hvalues
  refine ⟨ss, haccepted, hss, ?_⟩
  have hget := mergeSettings_get hmerged category
  rw [mergedCategory_dict target (browser_isDict hcategory)
    (dicts_of_shaped (fun gpo hgpo => (h gpo hgpo).shaped) (browser_isDict hcategory)), hss] at hget
  rw [← Except.ok.inj hget]
  cases ss with
  | nil => rfl
  | cons s rest =>
      have hflat : (((s :: rest).map fun s => Value.obj s.dump).flatMap fieldsOf) =
          (s :: rest).flatMap Settings.dump := by
        rw [List.flatMap_map]
        rfl
      rw [hflat, mergeFields_dumps]
      simp

def defaultOf (name : String) : Value := (Dict.get ({} : Settings).dump name).getD .null

/-- The default of a field leaves the browser alone, except that a locked home page is a choice. -/
def leavesAlone (name : String) (value : Value) : Bool :=
  name ≠ "homepage_locked" && value = defaultOf name

/-- What the objects hold in a field of a browser. -/
def fieldValues (gpos : List Gpo) (category name : String) : List Value :=
  (carried gpos category).filterMap (·.field name)

/-- The last value that does not leave the browser alone, and the default where there is none. -/
def lastSetting (name : String) (values : List Value) : Value :=
  (values.reverse.find? fun value => !leavesAlone name value).getD (defaultOf name)

def mergedField (merged : Value.Fields) (category name : String) : Value :=
  ((Dict.get merged category).bind (·.field name)).getD (defaultOf name)

/-- Equal as dictionaries, where both are. -/
def SameValue : Value → Value → Prop
  | .obj fields, .obj fields' => ∀ key, Dict.get fields key = Dict.get fields' key
  | value, value' => value = value'

/-- Nothing is lost: the last object that carries the browser's settings sets the field, or none
does. Of the native policies, which are merged by name, the last object that has any has all the
names the others have. -/
def KeepsSetting (name : String) (values : List Value) : Prop :=
  if name = "extra" then
    ∀ value ∈ values, ∀ key ∈ Dict.keys (fieldsOf value),
      key ∈ Dict.keys (fieldsOf (lastSetting name values))
  else (∀ value ∈ values, leavesAlone name value = true) ∨
    ∃ last, values.getLast? = some last ∧ leavesAlone name last = false

section

omit [Runtime]

theorem get_dump_of_ne (s s' : Settings) {name : String} (h : name ≠ "extra") :
    Dict.get (writeOver s s').dump name = Dict.get s'.dump name := by
  have hextra : ∀ s : Settings, Dict.get s.dump name = Dict.get s.typed name := by
    intro s
    rw [Settings.dump, Dict.get_append]
    simp [Dict.get_cons, Ne.symm h]
  rw [hextra, hextra]
  rfl

theorem get_foldl_writeOver {name : String} (h : name ≠ "extra") (s : Settings)
    (rest : List Settings) :
    Dict.get (rest.foldl writeOver s).dump name =
      Dict.get ((rest.getLast?).getD s).dump name := by
  induction rest generalizing s with
  | nil => rfl
  | cons s' rest ih =>
      rw [List.foldl_cons, ih, List.getLast?_cons]
      cases hlast : rest.getLast? with
      | none => simpa using get_dump_of_ne s s' h
      | some last => rfl

theorem lastSetting_append (name : String) (values : List Value) (value : Value) :
    lastSetting name (values ++ [value]) =
      if leavesAlone name value then lastSetting name values else value := by
  simp only [lastSetting, List.reverse_append, List.reverse_singleton, List.singleton_append,
    List.find?_cons]
  cases leavesAlone name value <;> simp

theorem eq_default_of_leavesAlone {name : String} {value : Value}
    (h : leavesAlone name value = true) : value = defaultOf name := by
  simp only [leavesAlone, Bool.and_eq_true, decide_eq_true_eq] at h
  exact h.2

theorem eq_lastSetting_iff (name : String) (values : List Value) (last : Value) :
    last = lastSetting name (values ++ [last]) ↔
      (∀ value ∈ values ++ [last], leavesAlone name value = true) ∨
        leavesAlone name last = false := by
  rw [lastSetting_append]
  cases hlast : leavesAlone name last with
  | false => simp
  | true =>
      have hdefault := eq_default_of_leavesAlone hlast
      simp only [if_true, Bool.true_eq_false, or_false]
      constructor
      · intro heq value hvalue
        by_contra hsets
        have hsome : ∃ found, values.reverse.find? (fun value => !leavesAlone name value) =
            some found := by
          rw [← Option.isSome_iff_exists, List.find?_isSome]
          refine ⟨value, ?_, by simpa using hsets⟩
          rcases List.mem_append.mp hvalue with hmem | hmem
          · exact List.mem_reverse.mpr hmem
          · exact absurd (List.mem_singleton.mp hmem ▸ hlast) hsets
        obtain ⟨found, hfound⟩ := hsome
        have hsets' := List.find?_some hfound
        rw [lastSetting, hfound, Option.getD_some] at heq
        rw [← heq, hlast] at hsets'
        cases hsets'
      · intro hall
        have hnone : values.reverse.find? (fun value => !leavesAlone name value) = none := by
          rw [List.find?_eq_none]
          intro value hvalue
          simpa using hall value (List.mem_append_left _ (List.mem_reverse.mp hvalue))
        rw [lastSetting, hnone, hdefault]
        rfl

/-- Native policies: the merged object has the names of all the objects, and the last object that
has any decides its own. -/
theorem extra_foldl_writeOver (s : Settings) {rest : List Settings}
    (hrest : ∀ t ∈ rest, (Dict.keys t.extra).Nodup) :
    ∃ last, lastSetting "extra" ((s :: rest).map fun t => .obj t.extra) = .obj last ∧
      (∀ key ∈ Dict.keys last,
        Dict.get (rest.foldl writeOver s).extra key = Dict.get last key) ∧
      ∀ key, key ∈ Dict.keys (rest.foldl writeOver s).extra ↔
        ∃ t ∈ s :: rest, key ∈ Dict.keys t.extra := by
  induction rest using List.reverseRecOn with
  | nil =>
      refine ⟨s.extra, ?_, fun _ _ => rfl, by simp⟩
      refine (lastSetting_append "extra" [] (.obj s.extra)).trans ?_
      split
      · rename_i halone
        exact (eq_default_of_leavesAlone halone).symm
      · rfl
  | append_singleton rest t ih =>
      obtain ⟨last, hlast, hdecides, hkeys⟩ := ih fun t ht => hrest t (List.mem_append_left _ ht)
      have hnodup := hrest t (List.mem_append_right _ (List.mem_singleton_self t))
      have hstep : ((rest ++ [t]).foldl writeOver s).extra =
          Dict.update (rest.foldl writeOver s).extra t.extra := by
        simp [writeOver]
      have hkeys' : ∀ key, key ∈ Dict.keys ((rest ++ [t]).foldl writeOver s).extra ↔
          ∃ u ∈ s :: (rest ++ [t]), key ∈ Dict.keys u.extra := by
        intro key
        rw [hstep, ← Dict.get_isSome_iff, Dict.get_update hnodup, Option.isSome_or, Bool.or_eq_true,
          Dict.get_isSome_iff, Dict.get_isSome_iff, hkeys]
        simp only [List.mem_cons, List.mem_append, List.not_mem_nil, or_false]
        constructor
        · intro h
          rcases h with ht | ⟨u, hu, hkey⟩
          · exact ⟨t, .inr (.inr rfl), ht⟩
          · exact ⟨u, hu.imp id .inl, hkey⟩
        · intro h
          obtain ⟨u, hu | hu | hu, hkey⟩ := h
          · exact .inr ⟨u, .inl hu, hkey⟩
          · exact .inr ⟨u, .inr hu, hkey⟩
          · exact .inl (hu ▸ hkey)
      have hsetting := lastSetting_append "extra" ((s :: rest).map fun t => Value.obj t.extra)
        (.obj t.extra)
      have hlist : (s :: (rest ++ [t])).map (fun t => Value.obj t.extra) =
          ((s :: rest).map fun t => Value.obj t.extra) ++ [.obj t.extra] := by simp
      by_cases hempty : t.extra = []
      · refine ⟨last, ?_, fun key hkey => ?_, hkeys'⟩
        · rw [hlist, hsetting, hempty, if_pos (by decide), hlast]
        · rw [hstep, hempty]
          exact hdecides key hkey
      · refine ⟨t.extra, ?_, fun key hkey => ?_, hkeys'⟩
        · rw [hlist, hsetting, if_neg]
          intro halone
          have := eq_default_of_leavesAlone halone
          exact hempty (Value.obj.inj (this.trans (by decide : defaultOf "extra" = .obj [])))
        · rw [hstep, Dict.get_update hnodup]
          obtain ⟨value, hvalue⟩ := Option.isSome_iff_exists.mp (Dict.get_isSome_iff.mpr hkey)
          rw [hvalue]
          rfl

end

section

omit [Runtime]

theorem sameValue_iff_eq {value value' : Value} (h : value.isObj = false) :
    SameValue value value' ↔ value = value' := by
  cases value with
  | obj fields => simp [Value.isObj] at h
  | _ => cases value' <;> simp [SameValue]

theorem sameValue_rfl (value : Value) : SameValue value value := by
  cases value <;> simp [SameValue]

theorem not_obj_typed (s : Settings) : ∀ field ∈ s.typed, field.2.isObj = false := by
  simp [Settings.typed, Value.isObj, Browser.texts]

theorem exists_get_dump (s : Settings) {name : String}
    (hname : name ∈ Dict.keys ({} : Settings).dump) (hextra : name ≠ "extra") :
    ∃ value, Dict.get s.dump name = some value ∧ value.isObj = false := by
  rw [← Browser.keys_dump s, ← Dict.get_isSome_iff] at hname
  obtain ⟨value, hvalue⟩ := Option.isSome_iff_exists.mp hname
  refine ⟨value, hvalue, ?_⟩
  rcases List.mem_append.mp (Dict.mem_of_get hvalue) with htyped | hlast
  · exact not_obj_typed s _ htyped
  · exact absurd (congrArg Prod.fst (List.mem_singleton.mp hlast)) hextra

theorem keepsSetting_extra_iff (s : Settings) {rest : List Settings}
    (hrest : ∀ t ∈ rest, (Dict.keys t.extra).Nodup) :
    SameValue (.obj (rest.foldl writeOver s).extra)
        (lastSetting "extra" ((s :: rest).map fun t => .obj t.extra)) ↔
      KeepsSetting "extra" ((s :: rest).map fun t => .obj t.extra) := by
  obtain ⟨last, hlast, hdecides, hkeys⟩ := extra_foldl_writeOver s hrest
  rw [KeepsSetting, if_pos rfl, hlast]
  constructor
  · intro hsame value hvalue key hkey
    obtain ⟨t, ht, rfl⟩ := List.mem_map.mp hvalue
    have hmerged := (hkeys key).mpr ⟨t, ht, hkey⟩
    rw [← Dict.get_isSome_iff, hsame key, Dict.get_isSome_iff] at hmerged
    exact hmerged
  · intro hall key
    by_cases hkey : key ∈ Dict.keys last
    · exact hdecides key hkey
    · have hnot : key ∉ Dict.keys (rest.foldl writeOver s).extra := by
        intro hmem
        obtain ⟨t, ht, hkey'⟩ := (hkeys key).mp hmem
        exact hkey (hall _ (List.mem_map_of_mem ht) key hkey')
      rw [Dict.get_eq_none_iff.mpr hnot, Dict.get_eq_none_iff.mpr hkey]

theorem keepsSetting_typed_iff (s : Settings) (rest : List Settings) {name : String}
    (hname : name ∈ Dict.keys ({} : Settings).dump) (hextra : name ≠ "extra") :
    SameValue ((Dict.get (rest.foldl writeOver s).dump name).getD (defaultOf name))
        (lastSetting name ((s :: rest).filterMap fun t => Dict.get t.dump name)) ↔
      KeepsSetting name ((s :: rest).filterMap fun t => Dict.get t.dump name) := by
  obtain ⟨before, hsplit⟩ : ∃ before, s :: rest = before ++ [(rest.getLast?).getD s] :=
    List.getLast?_eq_some_iff.mp (List.getLast?_cons ..)
  obtain ⟨value, hvalue, hscalar⟩ := exists_get_dump ((rest.getLast?).getD s) hname hextra
  have hvalues : (s :: rest).filterMap (fun t => Dict.get t.dump name) =
      before.filterMap (fun t => Dict.get t.dump name) ++ [value] := by
    rw [hsplit, List.filterMap_append]
    simp [hvalue]
  rw [get_foldl_writeOver hextra, hvalue, hvalues, Option.getD_some, sameValue_iff_eq hscalar,
    eq_lastSetting_iff, KeepsSetting, if_neg hextra]
  simp

end

omit [Runtime] in
theorem nodup_extra {gpos : List Gpo} {category : String} {ss : List Settings}
    (h : carried gpos category = ss.map fun s => .obj s.dump) :
    ∀ s ∈ ss, (Dict.keys s.extra).Nodup := by
  intro s hs
  have hmem : Value.obj s.dump ∈ carried gpos category := h ▸ List.mem_map_of_mem hs
  obtain ⟨gpo, _, hget⟩ := mem_carried.mp hmem
  have hdump := Value.distinct_of_get gpo.settingsDistinct hget
  have hextra : Dict.get s.dump "extra" = some (.obj s.extra) := rfl
  exact (Value.distinct_obj_iff.mp (Value.distinct_of_get hdump hextra)).1

/-- The merged value of a browser field is the one last set exactly when nothing is lost: a field
left unset in the last object that carries the browser hides what an earlier one set. -/
theorem mergedField_iff {gpos : List Gpo} (h : ∀ gpo ∈ gpos, gpo.Stored) (target : Option Target)
    {category : String} (hcategory : category ∈ browserCategories) {name : String}
    (hname : name ∈ Dict.keys ({} : Settings).dump) :
    ∃ merged, mergeSettings gpos target = .ok merged ∧
      (SameValue (mergedField merged category name)
          (lastSetting name (fieldValues gpos category name)) ↔
        KeepsSetting name (fieldValues gpos category name)) := by
  obtain ⟨merged, hmerged⟩ := mergeSettings_shaped (fun gpo hgpo => (h gpo hgpo).shaped) target
  refine ⟨merged, hmerged, ?_⟩
  obtain ⟨ss, _, hcarried, hget⟩ := get_merged_browser h hmerged hcategory
  have hvalues : fieldValues gpos category name =
      ss.filterMap fun s => Dict.get s.dump name := by
    rw [fieldValues, hcarried, List.filterMap_map]
    rfl
  rw [hvalues, mergedField, hget]
  cases ss with
  | nil =>
      refine iff_of_true (sameValue_rfl _) ?_
      unfold KeepsSetting
      split <;> simp
  | cons s rest =>
      by_cases hextra : name = "extra"
      · subst hextra
        have hextras : (s :: rest).filterMap (fun s => Dict.get s.dump "extra") =
            (s :: rest).map fun t => .obj t.extra := by
          rw [← List.filterMap_eq_map]
          rfl
        rw [hextras]
        exact keepsSetting_extra_iff s fun t ht => nodup_extra hcarried t (.tail _ ht)
      · exact keepsSetting_typed_iff s rest hname hextra

/-- An object with settings for Firefox and no native policies. -/
def firefoxGpo (guid : String) (s : Settings) (hextra : s.extra = []) : Gpo where
  guid
  displayName := "Firefox"
  enabled := true
  settings := [("firefox_policy", .obj s.dump)]
  settingsDistinct := by
    have hdump : (Value.obj s.dump).distinct = true := by
      refine Value.distinct_obj_iff.mpr ⟨Browser.nodup_keys_dump s, ?_⟩
      simp [Settings.dump, Settings.typed, Browser.texts, Value.distinct, Value.distinctItems_iff,
        Browser.Bookmark.dump, Value.distinctFields, Dict.keys, hextra]
    simp [Value.distinct_obj_iff, Dict.keys, hdump]

theorem stored_firefoxGpo {guid : String} {s : Settings} (hextra : s.extra = [])
    (h : s.accepted = true) : (firefoxGpo guid s hextra).Stored := by
  have hone : ∀ {category value},
      Dict.get (firefoxGpo guid s hextra).settings category = some value →
        category = "firefox_policy" ∧ value = .obj s.dump := by
    intro category value hget
    simpa [firefoxGpo] using Dict.mem_of_get hget
  refine ⟨⟨fun category hcategory value hget => ?_, fun category _ value hget => ?_⟩,
    fun category _ value hget => ⟨s, h, (hone hget).2⟩⟩
  · rw [(hone hget).1] at hcategory
    exact absurd hcategory (by decide)
  · rw [(hone hget).2]
    rfl

omit [Runtime] in
theorem mergedField_iff_homepage :
    letI := Runtime.latin
    let gpos := [firefoxGpo "a" { bookmarksBar := .always } rfl,
      firefoxGpo "b" { homepage := "https://intranet.example.org" } rfl]
    ∃ merged, mergeSettings gpos none = .ok merged ∧
      (SameValue (mergedField merged "firefox_policy" "homepage")
          (lastSetting "homepage" (fieldValues gpos "firefox_policy" "homepage")) ↔
        KeepsSetting "homepage" (fieldValues gpos "firefox_policy" "homepage")) := by
  let _ := Runtime.latin
  refine mergedField_iff ?_ none (by decide) (by decide)
  intro gpo hgpo
  rcases List.mem_pair.mp hgpo with rfl | rfl
  · exact stored_firefoxGpo rfl (by decide)
  · exact stored_firefoxGpo rfl (by decide)

omit [Runtime] in
/-- The object applied last only shows the bookmarks bar, and the home page of the other is gone. -/
theorem homepage_unset_by_bookmarks :
    letI := Runtime.latin
    let gpos := [firefoxGpo "a" { homepage := "https://intranet.example.org" } rfl,
      firefoxGpo "b" { bookmarksBar := .always } rfl]
    (∀ gpo ∈ gpos, gpo.Stored) ∧ ∃ merged, mergeSettings gpos none = .ok merged ∧
      mergedField merged "firefox_policy" "homepage" = .str "" ∧
      lastSetting "homepage" (fieldValues gpos "firefox_policy" "homepage") =
        .str "https://intranet.example.org" ∧
      ¬ SameValue (mergedField merged "firefox_policy" "homepage")
        (lastSetting "homepage" (fieldValues gpos "firefox_policy" "homepage")) := by
  let _ := Runtime.latin
  refine ⟨?_, _, rfl, by decide, by decide, ?_⟩
  · intro gpo hgpo
    rcases List.mem_pair.mp hgpo with rfl | rfl
    · exact stored_firefoxGpo rfl (by decide)
    · exact stored_firefoxGpo rfl (by decide)
  · rw [sameValue_iff_eq (by decide)]
    decide

end OpenDirectory.Policy
