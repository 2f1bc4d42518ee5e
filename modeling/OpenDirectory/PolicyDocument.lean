import OpenDirectory.Dumps
import OpenDirectory.PolicyEntries
import OpenDirectory.PolicyPrecedence

/-! The document handed to a machine: the merged settings, what was applied and what was skipped. The
object applied last has the last word in each category, and an enforced link at the top of the chain
makes its object the one applied last. -/

namespace OpenDirectory.Policy

variable [Runtime]

structure Document where
  target : Value
  appliedGpos : List Value
  skippedGpos : List Skip
  settings : Value.Fields
  serial : String

def appliedGpo (gpo : Gpo) : Value := .obj [("guid", .str gpo.guid), ("name", .str gpo.displayName)]

/-- The fingerprint by which a machine tells that its policy is unchanged. -/
def serial (appliedGpos : List Value) (settings : Value.Fields) : String :=
  Runtime.digest (Value.dumps (.obj [("applied", .arr appliedGpos), ("settings", .obj settings)]))

def effectivePolicy (chain : List String) (links : List Link) (gpos : List (String × Gpo))
    (blocked : List String) (target : Target) : Except Raised Document := do
  let (ordered, skipped) ← resolveOrder chain links gpos blocked target
  let settings ← mergeSettings ordered (some target)
  let applied := ordered.map appliedGpo
  return {
    target := .obj [("dn", .str target.dn), ("hostname", .str target.hostname),
      ("os", .str target.osId)]
    appliedGpos := applied
    skippedGpos := skipped
    settings
    serial := serial applied settings }

variable {chain : List String} {links : List Link} {gpos : List (String × Gpo)} {target : Option Target} {category : String} {value : Value}

theorem effectivePolicy_ok
    {blocked : List String} {target : Target} {document : Document}
    (h : effectivePolicy chain links gpos blocked target = .ok document) :
    mergeSettings ((ordered chain links gpos blocked target).map Placement.gpo) (some target) =
      .ok document.settings := by
  unfold effectivePolicy at h
  rcases resolveOrder_cases chain links gpos blocked target with ⟨hok, _⟩ |
    ⟨place, _, raised, _, _, herror⟩
  · rw [hok] at h
    cases hmerge : mergeSettings ((ordered chain links gpos blocked target).map Placement.gpo)
        (some target) with
    | error raised => simp [hmerge, bind, Except.bind] at h
    | ok settings =>
        simp only [hmerge, bind, Except.bind, pure, Except.pure, Except.ok.injEq] at h
        rw [← h]
  · simp [herror, bind, Except.bind] at h

/-- No object of these holds an object where the category has a list; no stored row does. -/
def NoObject (gpos : List Gpo) (category : String) : Prop :=
  ∀ gpo ∈ gpos, ∀ fields, Dict.get gpo.settings category ≠ some (.obj fields)

/-- The document merged from some objects says everywhere what these settings say. -/
structure Prevails (gpos : List Gpo) (target : Option Target) (settings merged : Value.Fields) :
    Prop where
  entries : ∀ category ∈ Dict.keys listKeys, ∀ items,
    Dict.get settings category = some (.arr items) →
      ∀ item, Dict.Latest (identity category) (passing target items) item →
        item ∈ mergedList merged category ∧ (NoObject gpos category →
          (mergedList merged category).filter
            (fun other => identity category other = identity category item) = [item])
  fields : ∀ category ∈ dictCategories, ∀ fields, Dict.get settings category = some (.obj fields) →
    ∀ key value, Dict.get fields key = some value →
      ∃ mergedFields, Dict.get merged category = some (.obj mergedFields) ∧
        (value.isObj = false → Dict.get mergedFields key = some value) ∧
        ∀ sub, value = .obj sub → ∃ mergedSub, Dict.get mergedFields key = some (.obj mergedSub) ∧
          ∀ subkey subvalue, Dict.get sub subkey = some subvalue →
            Dict.get mergedSub subkey = some subvalue
  whole : ∀ category ∉ Dict.keys listKeys, ∀ value, Dict.get settings category = some value →
    (category ∈ dictCategories → value.isObj = false) → Dict.get merged category = some value

theorem mergeEntry_obj {start item : Value}
    {fields : Value.Fields} (h : mergeEntry target category start item = .ok (.obj fields)) :
    ∃ bucket, start = .obj bucket ∧ fields = (passing target [item]).foldl
      (fun bucket item => Dict.set bucket (identity category item) item) bucket := by
  unfold mergeEntry at h
  split at h
  · rename_i hobj
    cases happlies : entryApplies target item with
    | error raised => simp [happlies, bind, Except.bind] at h
    | ok applies =>
        cases applies with
        | false =>
            obtain rfl : start = .obj fields := by
              simpa [happlies, bind, Except.bind, pure, Except.pure] using h
            exact ⟨fields, rfl, by simp [passing, entryHolds, happlies]⟩
        | true =>
            have hset : start.setItem (identity category item) item = .ok (.obj fields) := by
              simpa [happlies, bind, Except.bind] using h
            cases start with
            | obj bucket =>
                obtain rfl : Dict.set bucket (identity category item) item = fields := by
                  simpa [Value.setItem] using hset
                exact ⟨bucket, rfl, by simp [passing, entryHolds, happlies, hobj]⟩
            | _ => simp [Value.setItem] at hset
  · rename_i hobj
    obtain rfl : start = .obj fields := by simpa using h
    exact ⟨fields, rfl, by simp [passing, hobj]⟩

theorem foldlM_mergeEntry_obj
    {items : List Value} {start : Value} {fields : Value.Fields}
    (h : items.foldlM (mergeEntry target category) start = .ok (.obj fields)) :
    ∃ bucket, start = .obj bucket ∧ fields = (passing target items).foldl
      (fun bucket item => Dict.set bucket (identity category item) item) bucket := by
  induction items generalizing start with
  | nil =>
      cases h
      exact ⟨fields, rfl, rfl⟩
  | cons item items ih =>
      rw [List.foldlM_cons] at h
      cases hstep : mergeEntry target category start item with
      | error raised => simp [hstep, bind, Except.bind] at h
      | ok next =>
          obtain ⟨middle, rfl, hfields⟩ := ih (by simpa [hstep, bind, Except.bind] using h)
          obtain ⟨bucket, hstart, rfl⟩ := mergeEntry_obj hstep
          have hsplit : passing target (item :: items) =
              passing target [item] ++ passing target items := by
            simp [passing, ← List.filter_append]
          refine ⟨bucket, hstart, ?_⟩
          rw [hfields, hsplit, List.foldl_append]

section
omit [Runtime]

theorem foldlM_mergeField_obj {fields : Value.Fields} (hfields : fields ≠ []) {start : Value}
    (h : fields.foldlM mergeField start = .ok value) :
    ∃ bucket, start = .obj bucket ∧ value = .obj (mergeFields bucket fields) := by
  cases start with
  | obj bucket =>
      rw [foldlM_mergeField] at h
      exact ⟨bucket, rfl, (Except.ok.inj h).symm⟩
  | _ =>
      obtain ⟨⟨key, first⟩, rest, rfl⟩ := List.exists_cons_of_ne_nil hfields
      rw [List.foldlM_cons] at h
      cases first <;> simp [mergeField, Value.get, Value.setItem, bind, Except.bind] at h

theorem get_mergeFields (bucket : Value.Fields) {fields : Value.Fields}
    (hfields : (Dict.keys fields).Nodup) (key : String) :
    Dict.get (mergeFields bucket fields) key =
      match Dict.get fields key with
      | none => Dict.get bucket key
      | some value => some (overlay (Dict.get bucket key) value) := by
  induction fields generalizing bucket with
  | nil => rfl
  | cons field fields ih =>
      obtain ⟨first, value⟩ := field
      simp only [Dict.keys, List.map_cons, List.nodup_cons] at hfields
      have hcons : mergeFields bucket ((first, value) :: fields) =
          mergeFields (Dict.set bucket first (overlay (Dict.get bucket first) value)) fields := rfl
      rw [hcons, ih _ hfields.2, Dict.get_set, Dict.get_cons]
      by_cases hkey : first = key
      · subst hkey
        have hnone : Dict.get fields first = none := Dict.get_eq_none_iff.mpr hfields.1
        simp [hnone]
      · simp [hkey]

theorem overlay_of_not_obj (current : Option Value) (h : value.isObj = false) :
    overlay current value = value := by
  cases value with
  | obj sub => simp [Value.isObj] at h
  | _ => cases current <;> simp [overlay]

theorem get_overlay (current : Option Value) {sub : Value.Fields} (hsub : (Dict.keys sub).Nodup) :
    ∃ mergedSub, overlay current (.obj sub) = .obj mergedSub ∧
      ∀ subkey subvalue, Dict.get sub subkey = some subvalue →
        Dict.get mergedSub subkey = some subvalue := by
  have hplain : ∃ mergedSub, Value.obj sub = .obj mergedSub ∧
      ∀ subkey subvalue, Dict.get sub subkey = some subvalue →
        Dict.get mergedSub subkey = some subvalue := ⟨sub, rfl, fun _ _ hget => hget⟩
  cases current with
  | none => exact hplain
  | some old =>
      cases old with
      | obj fields =>
          refine ⟨_, rfl, fun subkey subvalue hget => ?_⟩
          rw [Dict.get_update hsub, hget]
          rfl
      | _ => exact hplain

end

theorem mergedCategory_append {values : List Value}
     {result : Option Value}
    (h : mergedCategory target category (values ++ [value]) = .ok result) :
    ∃ before last, mergeValues target category values = .ok before ∧
      mergeCategory target category before value = .ok last ∧
      (if category ∈ Dict.keys listKeys then listed (some last) else .ok (some last)) =
        .ok result := by
  unfold mergedCategory mergeValues at h
  obtain ⟨bucket, hvalues, hresult⟩ := Except.bind_eq_ok.mp h
  obtain ⟨before, hbefore, hstep⟩ := List.foldlM_concat_ok.mp hvalues
  obtain ⟨last, hlast, rfl⟩ := Except.map_eq_ok.mp hstep
  exact ⟨before, last, hbefore, hlast, hresult⟩

omit [Runtime] in
theorem listed_ok {bucket : Value} {result : Option Value} (h : listed (some bucket) = .ok result) :
    ∃ fields, bucket = .obj fields ∧ result = some (.arr (Dict.values fields)) := by
  cases bucket with
  | obj fields => exact ⟨fields, rfl, (Except.ok.inj h).symm⟩
  | _ => simp [listed, listOf, Value.entries, Functor.map, Except.map] at h

/-- Each entry of a category's dictionary is stored under its own identity. -/
def BucketKeyed (category : String) (bucket : Option Value) : Prop :=
  ∀ fields, bucket = some (.obj fields) → Dict.Keyed (identity category) fields

theorem keyed_mergeCategory
    (hcategory : category ∈ Dict.keys listKeys) {current : Option Value}
    (hvalue : value.isObj = false) (h : BucketKeyed category current) {fields : Value.Fields}
    (hmerge : mergeCategory target category current value = .ok (.obj fields)) :
    Dict.Keyed (identity category) fields := by
  cases value with
  | arr items =>
      rw [mergeCategory, if_pos hcategory] at hmerge
      obtain ⟨bucket, hstart, rfl⟩ := foldlM_mergeEntry_obj hmerge
      refine Dict.Keyed.foldl_set _ ?_
      cases current with
      | none =>
          obtain rfl : [] = bucket := by simpa using hstart
          exact ⟨List.nodup_nil, fun _ hmem => absurd hmem List.not_mem_nil⟩
      | some old => exact h bucket (congrArg some hstart)
  | obj fields => simp [Value.isObj] at hvalue
  | _ => simp [mergeCategory] at hmerge

theorem keyed_foldlM_mergeCategory
    (hcategory : category ∈ Dict.keys listKeys) {values : List Value}
    (hvalues : ∀ value ∈ values, value.isObj = false) {current bucket : Option Value}
    (hcurrent : BucketKeyed category current)
    (h : values.foldlM (fun current value =>
      some <$> mergeCategory target category current value) current = .ok bucket) :
    BucketKeyed category bucket := by
  induction values generalizing current with
  | nil => exact Except.ok.inj h ▸ hcurrent
  | cons value values ih =>
      obtain ⟨_, hstep, hrest⟩ := Except.bind_eq_ok.mp h
      obtain ⟨next, hnext, rfl⟩ := Except.map_eq_ok.mp hstep
      refine ih (fun other hother => hvalues other (.tail _ hother)) ?_ hrest
      intro fields hfields
      rw [Option.some.inj hfields] at hnext
      exact keyed_mergeCategory hcategory (hvalues value List.mem_cons_self) hcurrent hnext

omit [Runtime] in
theorem carried_concat (gpos : List Gpo) (gpo : Gpo)
    (h : Dict.get gpo.settings category = some value) :
    carried (gpos ++ [gpo]) category = carried gpos category ++ [value] := by
  simp [carried, h]

theorem prevails_last {gpos : List Gpo} {gpo : Gpo}
    {merged : Value.Fields} (h : mergeSettings (gpos ++ [gpo]) target = .ok merged) :
    Prevails (gpos ++ [gpo]) target gpo.settings merged := by
  refine ⟨fun category hcategory items hitems item hitem => ?_,
    fun category hcategory fields hfields key value hvalue => ?_,
    fun category hcategory value hvalue hshape => ?_⟩
  · have hget := mergeSettings_get h category
    rw [carried_concat gpos gpo hitems] at hget
    obtain ⟨before, last, hbefore, hlast, hresult⟩ := mergedCategory_append hget
    rw [if_pos hcategory] at hresult
    obtain ⟨bucket, rfl, hmerged⟩ := listed_ok hresult
    have hstored : Dict.get bucket (identity category item) = some item := by
      rw [mergeCategory, if_pos hcategory] at hlast
      obtain ⟨start, _, rfl⟩ := foldlM_mergeEntry_obj hlast
      rw [Dict.get_foldl_set, hitem]
      rfl
    rw [mergedList, hmerged]
    refine ⟨List.mem_map.mpr ⟨_, Dict.mem_of_get hstored, rfl⟩, fun hnone => ?_⟩
    have hvalues : ∀ value ∈ carried gpos category, value.isObj = false := by
      intro value hvalue
      obtain ⟨other, hother, hfields⟩ := mem_carried.mp hvalue
      have hnot := hnone other (List.mem_append_left _ hother)
      cases value with
      | obj fields => exact absurd hfields (hnot fields)
      | _ => rfl
    have hkeyed : Dict.Keyed (identity category) bucket :=
      keyed_mergeCategory hcategory rfl (keyed_foldlM_mergeCategory hcategory hvalues
        (fun _ hnone => by cases hnone) hbefore) hlast
    exact hkeyed.filter_values hstored
  · have hget := mergeSettings_get h category
    rw [carried_concat gpos gpo hfields] at hget
    obtain ⟨before, last, _, hlast, hresult⟩ := mergedCategory_append hget
    rw [if_neg (dictCategories_disjoint hcategory)] at hresult
    rw [mergeCategory, if_pos hcategory] at hlast
    have hne : fields ≠ [] := by
      intro hnil
      simp [hnil] at hvalue
    obtain ⟨bucket, _, rfl⟩ := foldlM_mergeField_obj hne hlast
    have hdistinct := Value.distinct_of_get gpo.settingsDistinct hfields
    have hoverlay : Dict.get (mergeFields bucket fields) key =
        some (overlay (Dict.get bucket key) value) := by
      rw [get_mergeFields bucket (Value.distinct_obj_iff.mp hdistinct).1, hvalue]
    refine ⟨_, (Except.ok.inj hresult).symm, fun hscalar => ?_, fun sub hsub => ?_⟩
    · rw [hoverlay, overlay_of_not_obj _ hscalar]
    · subst hsub
      have hsubDistinct := Value.distinct_of_get hdistinct hvalue
      obtain ⟨mergedSub, heq, hkeys⟩ :=
        get_overlay (Dict.get bucket key) (Value.distinct_obj_iff.mp hsubDistinct).1
      exact ⟨mergedSub, hoverlay.trans (congrArg some heq), hkeys⟩
  · have hget := mergeSettings_get h category
    rw [carried_concat gpos gpo hvalue] at hget
    obtain ⟨before, last, _, hlast, hresult⟩ := mergedCategory_append hget
    rw [if_neg hcategory] at hresult
    have hreplaced : mergeCategory target category before value = .ok value := by
      cases value with
      | arr items => simp [mergeCategory, hcategory]
      | obj fields =>
          have hdict : category ∉ dictCategories := fun hdict => by
            simpa [Value.isObj] using hshape hdict
          simp [mergeCategory, hdict]
      | _ => rfl
    rw [hreplaced] at hlast
    rw [← Except.ok.inj hresult, Except.ok.inj hlast]

/-- An enabled enforced link on the chain whose object is in scope. -/
structure Placement.Enforces (chain : List String) (links : List Link) (gpos : List (String × Gpo))
    (target : Target) (place : Placement) : Prop where
  listed : place.link ∈ links
  placed : Placed chain gpos place
  enabled : place.link.enabled = true
  enforced : place.link.enforced = true
  scope : InScope target place.gpo

/-- The enforcing link of the shallowest container that holds any, with the lowest link order among
those there. -/
structure Placement.Overrides (chain : List String) (links : List Link)
    (gpos : List (String × Gpo)) (target : Target) (place : Placement) : Prop where
  enforces : place.Enforces chain links gpos target
  highest : ∀ other : Placement, other.Enforces chain links gpos target → place.depth ≤ other.depth
  lowest : ∀ other : Placement, other.Enforces chain links gpos target →
    other.depth = place.depth → place.link.linkOrder ≤ other.link.linkOrder ∧
      (other.link.linkOrder = place.link.linkOrder → other.link.gpoGuid = place.link.gpoGuid)

theorem mem_enforcedPlaces
    {target : Target} {place : Placement} :
    place ∈ enforcedPlaces target (placements chain links gpos) ↔
      place.Enforces chain links gpos target := by
  rw [enforcedPlaces, (List.perm_sortedBy _ _).mem_iff, List.mem_filter, mem_placements,
    Bool.and_eq_true, admitted_iff]
  constructor
  · intro h
    exact ⟨h.1.1, h.1.2, h.2.1.1, h.2.2, h.2.1.2⟩
  · intro h
    exact ⟨⟨h.listed, h.placed⟩, ⟨h.enabled, h.scope⟩, h.enforced⟩

theorem ordered_overrides
    {target : Target} {place : Placement} (h : place.Overrides chain links gpos target)
    (blocked : List String) :
    ∃ before, (ordered chain links gpos blocked target).map Placement.gpo =
      before ++ [place.gpo] := by
  have hmem : place ∈ enforcedPlaces target (placements chain links gpos) :=
    mem_enforcedPlaces.mpr h.enforces
  obtain ⟨last, hlast⟩ : ∃ last,
      (enforcedPlaces target (placements chain links gpos)).getLast? = some last :=
    ⟨_, List.getLast?_eq_some_getLast (List.ne_nil_of_mem hmem)⟩
  have hlastEnforces : last.Enforces chain links gpos target :=
    mem_enforcedPlaces.mp (List.mem_of_getLast? hlast)
  have hup := pairwise_enforcedPlaces target (pairwise_placements chain links gpos)
  have hgpo : last.gpo = place.gpo := by
    rcases List.getLast?_of_pairwise hup hlast place hmem with heq | hdeeper | ⟨hdepth, horder⟩
    · rw [heq]
    · exact absurd hdeeper (not_lt.mpr (h.highest last hlastEnforces))
    · obtain ⟨hlowest, hsame⟩ := h.lowest last hlastEnforces hdepth.symm
      have hguid := hsame (le_antisymm horder hlowest)
      have hknown := hlastEnforces.placed.known
      rw [hguid, h.enforces.placed.known] at hknown
      exact (Option.some.inj hknown).symm
  obtain ⟨before, hbefore⟩ := List.getLast?_eq_some_iff.mp hlast
  refine ⟨(normalPlaces chain blocked target (placements chain links gpos) ++ before).map
    Placement.gpo, ?_⟩
  rw [ordered, hbefore, ← List.append_assoc, List.map_append, List.map_singleton, hgpo]

/-- Nothing another policy object says, wherever it is linked and whatever is blocked, changes what
the object of the overriding link says. -/
theorem effectivePolicy_prevails {chain : List String} {links : List Link}
    {gpos : List (String × Gpo)} {blocked : List String} {target : Target} (place : Placement)
    {document : Document} (h : place.Overrides chain links gpos target)
    (hdocument : effectivePolicy chain links gpos blocked target = .ok document) :
    Prevails (gpos.map Prod.snd) (some target) place.gpo.settings document.settings := by
  have hmerge := effectivePolicy_ok hdocument
  have hgpos : ∀ gpo ∈ (ordered chain links gpos blocked target).map Placement.gpo,
      gpo ∈ gpos.map Prod.snd := by
    intro gpo hgpo
    obtain ⟨other, hother, rfl⟩ := List.mem_map.mp hgpo
    have hmem : other ∈ placements chain links gpos := by
      rcases List.mem_append.mp hother with hnormal | henforced
      · exact List.mem_of_mem_filter hnormal
      · exact List.mem_of_mem_filter ((List.perm_sortedBy _ _).mem_iff.mp henforced)
    exact List.mem_map_of_mem (Dict.mem_of_get (mem_placements.mp hmem).2.known)
  obtain ⟨before, hbefore⟩ := ordered_overrides h blocked
  rw [hbefore] at hmerge hgpos
  have hprevails := prevails_last hmerge
  refine ⟨fun category hcategory items hitems item hitem => ?_, hprevails.fields, hprevails.whole⟩
  obtain ⟨hmem, halone⟩ := hprevails.entries category hcategory items hitems item hitem
  exact ⟨hmem, fun hnone => halone fun gpo hgpo => hnone gpo (hgpos gpo hgpo)⟩

omit [Runtime] in
/-- A wallpaper enforced at the domain head against one set in a unit that blocks inheritance. -/
theorem effectivePolicy_prevails_wallpaper :
    letI := Runtime.latin
    let domain : Gpo := ⟨"a", "Domain", true,
      [("wallpaper", .obj [("path", .str "/usr/share/a.png")])], .arr [], .obj [], by decide⟩
    let sales : Gpo := ⟨"b", "Sales", true,
      [("wallpaper", .obj [("path", .str "/usr/share/b.png")])], .arr [], .obj [], by decide⟩
    ∃ document, effectivePolicy ["DC=corp", "OU=Sales,DC=corp"]
        [⟨"a", "DC=corp", 1, true, true⟩, ⟨"b", "OU=Sales,DC=corp", 1, false, true⟩]
        [("a", domain), ("b", sales)] ["OU=Sales,DC=corp"]
        { dn := "CN=ws,OU=Sales,DC=corp" } = .ok document ∧
      Prevails [domain, sales] (some { dn := "CN=ws,OU=Sales,DC=corp" }) domain.settings
        document.settings := by
  let _ := Runtime.latin
  intro domain sales
  have hoverrides : Placement.Overrides ["DC=corp", "OU=Sales,DC=corp"]
      [⟨"a", "DC=corp", 1, true, true⟩, ⟨"b", "OU=Sales,DC=corp", 1, false, true⟩]
      [("a", domain), ("b", sales)] { dn := "CN=ws,OU=Sales,DC=corp" }
      ⟨0, ⟨"a", "DC=corp", 1, true, true⟩, domain⟩ := by
    refine ⟨⟨List.mem_cons_self, ⟨rfl, rfl⟩, rfl, rfl, ⟨"", rfl⟩⟩, fun _ _ => Nat.zero_le _, ?_⟩
    intro other hother _
    rcases List.mem_pair.mp hother.listed with heq | heq
    · simp [heq]
    · have hnormal := hother.enforced
      rw [heq] at hnormal
      cases hnormal
  obtain ⟨document, hdocument⟩ : ∃ document, effectivePolicy ["DC=corp", "OU=Sales,DC=corp"]
      [⟨"a", "DC=corp", 1, true, true⟩, ⟨"b", "OU=Sales,DC=corp", 1, false, true⟩]
      [("a", domain), ("b", sales)] ["OU=Sales,DC=corp"]
      { dn := "CN=ws,OU=Sales,DC=corp" } = .ok document := ⟨_, rfl⟩
  exact ⟨document, hdocument, effectivePolicy_prevails _ hoverrides hdocument⟩

end OpenDirectory.Policy
