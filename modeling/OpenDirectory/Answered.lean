import OpenDirectory.BrowserMerge
import OpenDirectory.PolicyFields
import OpenDirectory.RsopStages

/-! When a machine is answered. Settings that the schema accepted reach the machine except in three
cases: a policy object whose filter or targeting cannot be evaluated, an uploaded package named by a
text that is no UUID, and third-party browser policies that the password manager's extension cannot
be added to. -/

namespace OpenDirectory.Policy

open Browser (Settings)

variable [Runtime]

/-- Browser settings as a row holds them: every field there, and only native policies an object. -/
structure Complete (fields : Value.Fields) : Prop where
  keys : ∀ name, name ∈ Dict.keys fields ↔ name ∈ Dict.keys ({} : Settings).dump
  objects : ∀ name value, Dict.get fields name = some value → (value.isObj = true ↔ name = "extra")
  valid : ∃ s, Settings.validate fields = some s

/-- Settings the schema accepted, as far as answering a machine looks into them; nothing here
depends on the order in which a row keeps their keys. -/
structure Gpo.Accepted (gpo : Gpo) : Prop where
  shaped : gpo.Shaped
  entries : ∀ category ∈ Dict.keys listKeys, ∀ items,
    Dict.get gpo.settings category = some (.arr items) → ∀ item ∈ items, item.isObj = true
  selections : ∀ items, Dict.get gpo.settings "admx" = some (.arr items) →
    ∀ item ∈ items, Admx.Selection item
  browsers : ∀ category ∈ browserCategories, ∀ fields,
    Dict.get gpo.settings category = some (.obj fields) → Complete fields
  native : ∀ fields, Dict.get gpo.settings "browser" = some (.obj fields) →
    ∀ field ∈ fields, field.2.isObj = true
  manager : ∀ fields, Dict.get gpo.settings "password_manager" = some (.obj fields) →
    fields ≠ [] ∧ ∀ field ∈ fields, field.2.isObj = false
  tunnel : ∀ fields, Dict.get gpo.settings "always_on_vpn" = some (.obj fields) →
    ∀ tunnel, Dict.get fields "tunnel" = some tunnel → ∃ name, tunnel = .str name
  certificates : ∀ value, Dict.get gpo.settings "certificates" = some value → value.isObj = true

variable {gpos : List Gpo} {target : Option Target} {merged : Value.Fields} {category : String}

theorem shaped_of_accepted (h : ∀ gpo ∈ gpos, gpo.Accepted) :
    ∀ gpo ∈ gpos, gpo.Shaped := fun gpo hgpo => (h gpo hgpo).shaped

theorem getD_merged_list (h : ∀ gpo ∈ gpos, gpo.Shaped)
     (hmerged : mergeSettings gpos target = .ok merged)
    (hcategory : category ∈ Dict.keys listKeys) :
    (Dict.get merged category).getD (.arr []) = .arr (Dict.values (Dict.index (identity category)
      (passingEntries gpos target category))) := by
  rw [get_merged_list h hmerged hcategory]
  split
  · rename_i hnone
    rw [passingEntries, hnone]
    rfl
  · rfl

theorem mem_passingEntries
    {item : Value} (h : item ∈ passingEntries gpos target category) :
    ∃ gpo ∈ gpos, ∃ items, Dict.get gpo.settings category = some (.arr items) ∧ item ∈ items := by
  obtain ⟨value, hvalue, hitem⟩ := List.mem_flatMap.mp (List.mem_of_mem_filter h)
  obtain ⟨gpo, hgpo, hget⟩ := mem_carried.mp hvalue
  cases value with
  | arr items => exact ⟨gpo, hgpo, items, hget, hitem⟩
  | _ => simp [itemsOf] at hitem

theorem mem_merged_list
    {item : Value} (h : item ∈ Dict.values (Dict.index (identity category)
      (passingEntries gpos target category))) :
    ∃ gpo ∈ gpos, ∃ items, Dict.get gpo.settings category = some (.arr items) ∧ item ∈ items :=
  mem_passingEntries (Dict.mem_values_index.mp h).mem

theorem listedAt_merged (h : ∀ gpo ∈ gpos, gpo.Accepted)

    (hmerged : mergeSettings gpos target = .ok merged)
    (hcategory : category ∈ Dict.keys listKeys) : Rsop.ListedAt merged category := by
  refine ⟨_, getD_merged_list (shaped_of_accepted h) hmerged hcategory, fun item hitem => ?_⟩
  obtain ⟨gpo, hgpo, items, hget, hmem⟩ := mem_merged_list hitem
  exact (h gpo hgpo).entries category hcategory items hget item hmem

omit [Runtime] in
theorem mem_fieldsAt {key : String} {value : Value}
    (h : value ∈ fieldsAt gpos category key) :
    ∃ gpo ∈ gpos, ∃ fields, Dict.get gpo.settings category = some (.obj fields) ∧
      Dict.get fields key = some value := by
  obtain ⟨whole, hwhole, hfield⟩ := List.mem_filterMap.mp h
  obtain ⟨gpo, hgpo, hget⟩ := mem_carried.mp hwhole
  cases whole with
  | obj fields => exact ⟨gpo, hgpo, fields, hget, hfield⟩
  | _ => cases hfield

/-- The last object that has a field of a category. -/
def lastField (gpos : List Gpo) (category key : String) : Option Value :=
  (fieldsAt gpos category key).getLast?

/-- The last object that has a policy of a browser. -/
def lastPolicy (gpos : List Gpo) (name key : String) : Option Value :=
  ((fieldsAt gpos "browser" name).filterMap (·.field key)).getLast?

omit [Runtime] in
theorem fieldsAt_objects {key : String}
    (h : ∀ value ∈ fieldsAt gpos category key, value.isObj = true) :
    ∀ value ∈ fieldsAt gpos category key, ∃ fields, value = .obj fields ∧
      (Dict.keys fields).Nodup := by
  intro value hvalue
  obtain ⟨fields, rfl⟩ := Browser.eq_obj_of_isObj (h value hvalue)
  obtain ⟨gpo, _, whole, hwhole, hfield⟩ := mem_fieldsAt hvalue
  have hdistinct := Value.distinct_of_get
    (Value.distinct_of_get gpo.settingsDistinct hwhole) hfield
  exact ⟨fields, rfl, (Value.distinct_obj_iff.mp hdistinct).1⟩

theorem native_objects (h : ∀ gpo ∈ gpos, gpo.Accepted) (name : String) :
    ∀ value ∈ fieldsAt gpos "browser" name, value.isObj = true := by
  intro value hvalue
  obtain ⟨gpo, hgpo, fields, hget, hfield⟩ := mem_fieldsAt hvalue
  exact (h gpo hgpo).native fields hget _ (Dict.mem_of_get hfield)

theorem browser_merged (h : ∀ gpo ∈ gpos, gpo.Accepted)

    (hmerged : mergeSettings gpos target = .ok merged) :
    (∀ value, Dict.get merged "browser" = some value → Browser.Browsers value) ∧
      ∀ name, (Dict.keys (Browser.policies (Browser.browserOf merged) name)).Nodup ∧
        ∀ key, Dict.get (Browser.policies (Browser.browserOf merged) name) key =
          lastPolicy gpos name key := by
  rcases get_merged_dict (shaped_of_accepted h) hmerged
    (show "browser" ∈ dictCategories by decide) with ⟨hcarried, hnone⟩ | ⟨_, fields, hsome, hget⟩
  · refine ⟨fun value hvalue => absurd (hnone.symm.trans hvalue) (by simp), fun name => ?_⟩
    have hempty : Browser.policies (Browser.browserOf merged) name = [] := by
      rw [Browser.browserOf, hnone]
      rfl
    rw [hempty]
    exact ⟨List.nodup_nil, fun key => by simp [lastPolicy, fieldsAt, hcarried]⟩
  · have hobjects := fun name => overlays_objects (fieldsAt_objects (native_objects h name))
    have hbrowsers : ∀ value, Dict.get merged "browser" = some value → Browser.Browsers value := by
      intro value hvalue
      rw [hsome] at hvalue
      cases hvalue
      refine ⟨fields, rfl, fun name value hvalue => ?_⟩
      rw [hget] at hvalue
      rcases hobjects name with ⟨_, hnone⟩ | ⟨own, hown, _⟩
      · rw [hnone] at hvalue
        cases hvalue
      · rw [hown] at hvalue
        cases hvalue
        rfl
    refine ⟨hbrowsers, fun name => ?_⟩
    have hbrowserOf : Browser.browserOf merged = .obj fields := by
      rw [← Rsop.browserOf_eq hbrowsers, hsome, Option.getD_some]
    rw [hbrowserOf]
    rcases hobjects name with ⟨hnil, hnone⟩ | ⟨own, hown, hnodup, hkeys⟩
    · have hempty : Browser.policies (.obj fields) name = [] := by
        simp [Browser.policies, Value.field, hget, hnone]
      rw [hempty]
      exact ⟨List.nodup_nil, fun key => by simp [lastPolicy, hnil]⟩
    · have hpolicies : Browser.policies (.obj fields) name = own := by
        simp [Browser.policies, Value.field, hget, hown]
      rw [hpolicies]
      exact ⟨hnodup, hkeys⟩

theorem manager_merged (h : ∀ gpo ∈ gpos, gpo.Accepted)

    (hmerged : mergeSettings gpos target = .ok merged) :
    (carried gpos "password_manager" = [] ∧ Dict.get merged "password_manager" = none) ∨
      carried gpos "password_manager" ≠ [] ∧ ∃ fields, fields ≠ [] ∧
        Dict.get merged "password_manager" = some (.obj fields) ∧
        ∀ key, Dict.get fields key = lastField gpos "password_manager" key := by
  rcases get_merged_dict (shaped_of_accepted h) hmerged
    (show "password_manager" ∈ dictCategories by decide) with hnone | ⟨hcarried, fields, hsome, hget⟩
  · exact .inl hnone
  · have hplain : ∀ key, Dict.get fields key = lastField gpos "password_manager" key := by
      intro key
      rw [hget, overlays_plain, lastField]
      intro value hvalue
      obtain ⟨gpo, hgpo, whole, hwhole, hfield⟩ := mem_fieldsAt hvalue
      exact ((h gpo hgpo).manager whole hwhole).2 _ (Dict.mem_of_get hfield)
    refine .inr ⟨hcarried, fields, ?_, hsome, hplain⟩
    obtain ⟨value, hvalue⟩ := List.exists_mem_of_ne_nil _ hcarried
    obtain ⟨gpo, hgpo, hsetting⟩ := mem_carried.mp hvalue
    have hobj := (h gpo hgpo).shaped.dicts "password_manager" (by decide) value hsetting
    obtain ⟨whole, rfl⟩ := Browser.eq_obj_of_isObj hobj
    obtain ⟨⟨key, first⟩, rest, rfl⟩ :=
      List.exists_cons_of_ne_nil ((h gpo hgpo).manager whole hsetting).1
    have hmem : first ∈ fieldsAt gpos "password_manager" key :=
      List.mem_filterMap.mpr ⟨_, hvalue, by simp [Value.field, Dict.get_cons]⟩
    intro hempty
    have hnone := hplain key
    rw [hempty, Dict.get_nil, lastField, eq_comm, List.getLast?_eq_none_iff] at hnone
    rw [hnone] at hmem
    cases hmem

theorem typed_merged (h : ∀ gpo ∈ gpos, gpo.Accepted)

    (hmerged : mergeSettings gpos target = .ok merged)
    (hcategory : category ∈ browserCategories) : Browser.TypedAt merged category := by
  intro value hvalue _
  rcases get_merged_dict (shaped_of_accepted h) hmerged (browser_isDict hcategory) with
    ⟨_, hnone⟩ | ⟨hcarried, fields, hsome, hget⟩
  · rw [hnone] at hvalue
    cases hvalue
  · rw [hsome] at hvalue
    cases hvalue
    have hcomplete : ∀ value ∈ carried gpos category,
        ∃ fields, value = .obj fields ∧ Complete fields := by
      intro value hvalue
      obtain ⟨gpo, hgpo, hsetting⟩ := mem_carried.mp hvalue
      have hobj := (h gpo hgpo).shaped.dicts category (browser_isDict hcategory) value hsetting
      obtain ⟨fields, rfl⟩ := Browser.eq_obj_of_isObj hobj
      exact ⟨fields, rfl, (h gpo hgpo).browsers category hcategory fields hsetting⟩
    obtain ⟨before, last, hsplit⟩ :=
      (List.eq_nil_or_concat (carried gpos category)).resolve_left hcarried
    obtain ⟨lastFields, rfl, hlast⟩ := hcomplete last (by simp [hsplit])
    have hvalues : ∀ name, fieldsAt gpos category name =
        before.filterMap (·.field name) ++ (Dict.get lastFields name).toList := by
      intro name
      rw [fieldsAt, hsplit, List.concat_eq_append, List.filterMap_append]
      cases hfield : Dict.get lastFields name <;> simp [Value.field, hfield]
    have hfieldComplete : ∀ name, ∀ value ∈ fieldsAt gpos category name,
        (value.isObj = true ↔ name = "extra") ∧ name ∈ Dict.keys ({} : Settings).dump := by
      intro name value hvalue
      obtain ⟨whole, hwhole, hfield⟩ := List.mem_filterMap.mp hvalue
      obtain ⟨fields, rfl, hfields⟩ := hcomplete whole hwhole
      refine ⟨hfields.objects name value hfield, (hfields.keys name).mp ?_⟩
      exact Dict.get_isSome_iff.mp (Option.isSome_iff_exists.mpr ⟨value, hfield⟩)
    obtain ⟨s, hs⟩ := hlast.valid
    have hplain : ∀ name, name ≠ "extra" → Dict.get fields name = Dict.get lastFields name := by
      intro name hname
      have hnot : ∀ value ∈ fieldsAt gpos category name, value.isObj = false := by
        intro value hvalue
        rw [← Bool.not_eq_true, (hfieldComplete name value hvalue).1]
        exact hname
      rw [hget, overlays_plain hnot, hvalues]
      cases hfield : Dict.get lastFields name with
      | some value => simp
      | none =>
          have hempty : fieldsAt gpos category name = [] := by
            apply List.eq_nil_iff_forall_not_mem.mpr
            intro value hvalue
            have hmem := (hlast.keys name).mpr (hfieldComplete name value hvalue).2
            rw [← Dict.get_isSome_iff, hfield] at hmem
            cases hmem
          rw [hvalues, hfield] at hempty
          rw [hempty]
          rfl
    have hextra : ∃ extra, Dict.get fields "extra" = some (.obj extra) := by
      have hobjects : ∀ value ∈ fieldsAt gpos category "extra", value.isObj = true :=
        fun value hvalue => (hfieldComplete "extra" value hvalue).1.mpr rfl
      rcases overlays_objects (fieldsAt_objects hobjects) with ⟨hnil, _⟩ | ⟨extra, hextra, _⟩
      · have hmem := (hlast.keys "extra").mpr (by decide)
        obtain ⟨value, hvalue⟩ := Option.isSome_iff_exists.mp (Dict.get_isSome_iff.mpr hmem)
        rw [hvalues, hvalue] at hnil
        simp at hnil
      · exact ⟨extra, by rw [hget, hextra]⟩
    obtain ⟨extra, hextra⟩ := hextra
    refine ⟨_, Browser.validate_of_get hs (fun name hname => ?_) hplain hextra⟩
    by_cases hne : name = "extra"
    · rw [hne]
      decide
    · rw [← Dict.get_isSome_iff, hplain name hne, Dict.get_isSome_iff] at hname
      exact (hlast.keys name).mp hname

theorem tunnel_merged (h : ∀ gpo ∈ gpos, gpo.Accepted)

    (hmerged : mergeSettings gpos target = .ok merged) :
    ∀ value, Dict.get merged "always_on_vpn" = some value → ∃ fields, value = .obj fields ∧
      ∀ tunnel, Dict.get fields "tunnel" = some tunnel → ∃ name, tunnel = .str name := by
  intro value hvalue
  rcases get_merged_dict (shaped_of_accepted h) hmerged
    (show "always_on_vpn" ∈ dictCategories by decide) with ⟨_, hnone⟩ | ⟨_, fields, hsome, hget⟩
  · rw [hnone] at hvalue
    cases hvalue
  · rw [hsome] at hvalue
    cases hvalue
    refine ⟨fields, rfl, fun tunnel htunnel => ?_⟩
    have htext : ∀ value ∈ fieldsAt gpos "always_on_vpn" "tunnel", ∃ name, value = .str name := by
      intro value hvalue
      obtain ⟨gpo, hgpo, whole, hwhole, hfield⟩ := mem_fieldsAt hvalue
      exact (h gpo hgpo).tunnel whole hwhole value hfield
    rw [hget, overlays_plain fun value hvalue => by obtain ⟨_, rfl⟩ := htext value hvalue; rfl]
      at htunnel
    exact htext tunnel (List.mem_of_getLast? htunnel)

theorem certificates_merged (h : ∀ gpo ∈ gpos, gpo.Accepted)

    (hmerged : mergeSettings gpos target = .ok merged) :
    ∀ value, Dict.get merged "certificates" = some value → value.isObj = true := by
  intro value hvalue
  rw [get_merged_other hmerged (by decide) (by decide)] at hvalue
  obtain ⟨gpo, hgpo, hget⟩ := mem_carried.mp (List.mem_of_getLast? hvalue)
  exact (h gpo hgpo).certificates value hget

end OpenDirectory.Policy

namespace OpenDirectory.Rsop

open Policy (Gpo Link Target carried passingEntries identity lastField lastPolicy)

variable [Runtime]

/-- Policies of a kind can be added to what is under a browser's third-party policies. -/
def TakesKind (thirdParty : Option Value) (kind : String) : Prop :=
  ∀ kinds, thirdParty = some (.obj kinds) →
    ∀ value, Dict.get kinds kind = some value → value.isObj = true

/-- The vault a machine is pointed at unless its policy names another. -/
def domainVault (plane : Plane) : String :=
  if vaultNode plane.roles ≠ "" then vaultUrl plane else ""

/-- Whether a switch of the password manager is on, by the last object that sets it. -/
def managerOn (gpos : List Gpo) (name : String) : Bool :=
  ((lastField gpos "password_manager" name).getD (.bool true)).truthy

/-- The password manager's extension goes to a browser. -/
def ExtensionOffered (plane : Plane) (gpos : List Gpo) (name : String) : Prop :=
  carried gpos "password_manager" ≠ [] ∧ managerOn gpos "browser_extension" = true ∧
    (Browser.orElse ((lastField gpos "password_manager" "vault_url").getD .null)
      (.str (domainVault plane))).truthy = true ∧
    managerOn gpos name = true

/-- The selections that reach a machine, the last of each policy. -/
def selectionsOf (gpos : List Gpo) (target : Option Target) : Value :=
  .arr (Dict.values (Dict.index (identity "admx") (passingEntries gpos target "admx")))

/-- A browser's policy before the password manager is folded in: an object's own, or a template's. -/
def policyBefore (plane : Plane) (gpos : List Gpo) (target : Option Target) (name key : String) :
    Option Value :=
  (lastPolicy gpos name key).or (templated plane.templates (selectionsOf gpos target) name key)

/-- The objects that apply, in order. -/
def applied (plane : Plane) (target : Target) (links : List Link) : List Gpo :=
  (Policy.ordered (Policy.containerChain target.dn plane.baseDn) links plane.gpos plane.blocked
    target).map Policy.Placement.gpo

/-- Nothing takes the policy away from a machine. -/
structure Answerable (plane : Plane) (target : Target) (links : List Link) : Prop where
  scope : ∀ place ∈ Policy.placements (Policy.containerChain target.dn plane.baseDn) links plane.gpos,
    place.link.enabled = true → ∃ answer, Policy.inScope place.gpo target = .ok answer
  packages : ∀ item, Dict.Latest (identity "custom_packages")
    (passingEntries (applied plane target links) (some target) "custom_packages") item → Askable item
  firefox : ExtensionOffered plane (applied plane target links) "firefox" →
    TakesKind (policyBefore plane (applied plane target links) (some target) "firefox" "3rdparty")
      "Extensions"
  chromium : ExtensionOffered plane (applied plane target links) "chromium" →
    TakesKind (policyBefore plane (applied plane target links) (some target) "chromium" "3rdparty")
      "extensions"

/-- The extension can be added to the merged settings exactly when the last objects that have a say
let it in. -/
theorem managerLetIn_iff (plane : Plane) {gpos : List Gpo} (h : ∀ gpo ∈ gpos, gpo.Accepted)
    {target : Option Target} {merged settings : Value.Fields}
    (hmerged : Policy.mergeSettings gpos target = .ok merged)
    (hsame : Dict.get settings "password_manager" = Dict.get merged "password_manager")
    (hpolicies : ∀ name key, Dict.get (Browser.policies (Browser.browserOf settings) name) key =
      policyBefore plane gpos target name key) :
    Browser.ManagerLetIn settings (Browser.browserOf settings) (offeredVault plane settings) ↔
      (ExtensionOffered plane gpos "firefox" →
        TakesKind (policyBefore plane gpos target "firefox" "3rdparty") "Extensions") ∧
      (ExtensionOffered plane gpos "chromium" →
        TakesKind (policyBefore plane gpos target "chromium" "3rdparty") "extensions") := by
  unfold Browser.ManagerLetIn
  rcases Policy.manager_merged h hmerged with ⟨hcarried, hnone⟩ |
    ⟨hcarried, manager, hmanager, hsome, hget⟩
  · have hoffered : ∀ name, ¬ ExtensionOffered plane gpos name := fun _ hon => hon.1 hcarried
    refine iff_of_true (fun manager hmanager => ?_) ⟨fun hon => absurd hon (hoffered _),
      fun hon => absurd hon (hoffered _)⟩
    rw [hsame, hnone] at hmanager
    cases hmanager
  · have hvault : offeredVault plane settings = domainVault plane := by
      simp [offeredVault, domainVault, hsame, hsome]
    have hon : ∀ name, Browser.isOn manager name = managerOn gpos name := by
      intro name
      rw [Browser.isOn, hget, managerOn]
    have hoffers : ∀ name, Browser.offers manager (offeredVault plane settings) name = true ↔
        ExtensionOffered plane gpos name := by
      intro name
      rw [hvault, Browser.offers, hon, hon, Browser.managerVault, hget]
      simp [ExtensionOffered, hcarried, and_assoc]
    have hmergeable : ∀ name kind, Browser.Mergeable
        (Browser.policies (Browser.browserOf settings) name) kind ↔
          TakesKind (policyBefore plane gpos target name "3rdparty") kind := by
      intro name kind
      rw [Browser.Mergeable, hpolicies, TakesKind]
    rw [← hoffers, ← hoffers, ← hmergeable, ← hmergeable]
    constructor
    · intro hlet
      exact hlet manager (hsame.trans hsome) hmanager
    · intro hlet other hother _
      rw [hsame, hsome] at hother
      cases hother
      exact hlet

theorem resolve_ok_iff (plane : Plane) (dn : String) {gpos : List Gpo}
    (h : ∀ gpo ∈ gpos, gpo.Accepted) {target : Option Target} {merged : Value.Fields}
    (hmerged : Policy.mergeSettings gpos target = .ok merged) :
    (∃ resolved, resolve plane dn merged = .ok resolved) ↔
      (∀ item, Dict.Latest (identity "custom_packages")
        (passingEntries gpos target "custom_packages") item → Askable item) ∧
      (ExtensionOffered plane gpos "firefox" →
        TakesKind (policyBefore plane gpos target "firefox" "3rdparty") "Extensions") ∧
      (ExtensionOffered plane gpos "chromium" →
        TakesKind (policyBefore plane gpos target "chromium" "3rdparty") "extensions") := by
  have hshaped := Policy.shaped_of_accepted h
  obtain ⟨hbrowser, hpolicies⟩ := Policy.browser_merged h hmerged
  obtain ⟨settings, notes, hadmx, hbrowser', hframe, hpolicies'⟩ := applyAdmx_ok plane.templates
    (Policy.getD_merged_list hshaped hmerged (show "admx" ∈ Dict.keys Policy.listKeys by decide))
    (fun selection hselection => by
      obtain ⟨gpo, hgpo, items, hget, hmem⟩ := Policy.mem_merged_list hselection
      exact (h gpo hgpo).selections items hget selection hmem)
    hbrowser fun name => (hpolicies name).1
  have hmanager : ∀ value, Dict.get settings "password_manager" = some value →
      value.isObj = true := by
    intro value hvalue
    rw [hframe _ (by decide) (by decide)] at hvalue
    rcases Policy.manager_merged h hmerged with ⟨_, hnone⟩ | ⟨_, fields, _, hsome, _⟩
    · rw [hnone] at hvalue
      cases hvalue
    · rw [hsome] at hvalue
      cases hvalue
      rfl
  have htyped : ∀ category ∈ Policy.browserCategories, Browser.TypedAt settings category := by
    intro category hcategory
    have hne : category ≠ "admx" ∧ category ≠ "browser" := by
      revert category
      decide
    unfold Browser.TypedAt
    rw [hframe category hne.1 hne.2]
    exact Policy.typed_merged h hmerged hcategory
  have hlet := @managerLetIn_iff _ plane gpos h target merged settings hmerged
    (hframe _ (by decide) (by decide)) fun name key => by
      rw [hpolicies', (hpolicies name).2]
      rfl
  rw [← hlet]
  have hresolve : resolve plane dn merged =
      Browser.fold settings (offeredVault plane settings) plane.consoleUrl >>= fun settings =>
        attachVpn plane.peers dn settings >>= fun settings =>
        attachCustomPackages plane.packages settings >>= fun settings =>
        attachCertificates plane.rootPem settings >>= fun settings => .ok (settings, notes) := by
    rw [resolve, hadmx]
    rfl
  rw [hresolve]
  rcases Browser.fold_cases hbrowser' hmanager (htyped _ (by decide)) (htyped _ (by decide))
    (offeredVault plane settings) plane.consoleUrl with
    ⟨hfolded, folded, hfold, hbrowserF, hframeF⟩ | ⟨hnot, raised, hraised⟩
  · have hkept : ∀ key, key ∉ ["admx", "browser", "password_manager", "firefox_policy",
        "chromium_policy"] → Dict.get folded key = Dict.get merged key := by
      intro key hkey
      simp only [List.mem_cons, not_or] at hkey
      rw [hframeF key (by simp [hkey]), hframe key hkey.1 hkey.2.1]
    obtain ⟨withVpn, hvpn, hframeV⟩ := @attachVpn_ok _ plane.peers dn folded (by
      rw [hkept _ (by decide)]
      exact Policy.tunnel_merged h hmerged)
    have hlisted : ∀ category ∈ ["custom_packages", "trusted_certificates",
        "certificate_enrolment"], ∃ items, (Dict.get withVpn category).getD (.arr []) = .arr items ∧
          ∀ item ∈ items, item.isObj = true := by
      intro category hcategory
      have hnames : category ≠ "always_on_vpn" ∧ category ∉ ["admx", "browser", "password_manager",
          "firefox_policy", "chromium_policy"] ∧ category ∈ Dict.keys Policy.listKeys := by
        revert category
        decide
      rw [hframeV _ hnames.1, hkept _ hnames.2.1]
      exact Policy.listedAt_merged h hmerged hnames.2.2
    have hcustom : (Dict.get withVpn "custom_packages").getD (.arr []) =
        .arr (Dict.values (Dict.index (identity "custom_packages")
          (passingEntries gpos target "custom_packages"))) := by
      rw [hframeV _ (by decide), hkept _ (by decide)]
      exact Policy.getD_merged_list hshaped hmerged (by decide)
    have hentries : ∀ item ∈ Dict.values (Dict.index (identity "custom_packages")
        (passingEntries gpos target "custom_packages")), item.isObj = true := by
      obtain ⟨items, hitems, hobj⟩ := hlisted "custom_packages" (by decide)
      rw [hcustom] at hitems
      cases hitems
      exact hobj
    have hasked : (∀ item, Dict.Latest (identity "custom_packages")
        (passingEntries gpos target "custom_packages") item → Askable item) ↔
          ∀ item ∈ Dict.values (Dict.index (identity "custom_packages")
            (passingEntries gpos target "custom_packages")), Askable item :=
      forall_congr' fun item => by rw [Dict.mem_values_index]
    rw [hasked]
    simp only [hfold, hvpn, bind, Except.bind]
    rcases attachCustomPackages_cases plane.packages hcustom hentries with
      ⟨hall, withPackages, hpackages, hframeP⟩ | ⟨hnot, raised, hraised⟩
    · obtain ⟨answered, hanswered⟩ := @attachCertificates_ok plane.rootPem withPackages
        (by
          rw [hframeP _ (by decide), hframeV _ (by decide), hkept _ (by decide)]
          exact Policy.certificates_merged h hmerged)
        (by
          rw [ListedAt, hframeP _ (by decide)]
          exact hlisted _ (by decide))
        (by
          rw [ListedAt, hframeP _ (by decide)]
          exact hlisted _ (by decide))
        (by
          rw [hframeP _ (by decide), hframeV _ (by decide)]
          exact hbrowserF)
      refine iff_of_true ⟨(answered, notes), ?_⟩ ⟨hall, hfolded⟩
      simp only [hpackages, hanswered]
    · refine iff_of_false ?_ fun hboth => hnot hboth.1
      intro hok
      obtain ⟨resolved, hok⟩ := hok
      simp only [hraised] at hok
      cases hok
  · refine iff_of_false ?_ fun hboth => hnot hboth.2
    intro hok
    obtain ⟨resolved, hok⟩ := hok
    rw [hraised] at hok
    cases hok

theorem mem_values_of_applied {plane : Plane} {target : Target} {links : List Link} {gpo : Gpo}
    (h : gpo ∈ applied plane target links) : gpo ∈ Dict.values plane.gpos := by
  obtain ⟨place, hplace, rfl⟩ := List.mem_map.mp h
  have hmem : place ∈ Policy.placements (Policy.containerChain target.dn plane.baseDn) links
      plane.gpos := by
    rcases List.mem_append.mp hplace with hnormal | henforced
    · exact List.mem_of_mem_filter hnormal
    · exact List.mem_of_mem_filter ((List.perm_sortedBy _ _).mem_iff.mp henforced)
  obtain ⟨visit, _, hvisit⟩ := List.mem_filterMap.mp hmem
  obtain ⟨gpo, hget, rfl⟩ := Option.map_eq_some_iff.mp hvisit
  exact List.mem_map.mpr ⟨_, Dict.mem_of_get hget, rfl⟩

theorem accepted_applied {plane : Plane} (h : ∀ gpo ∈ Dict.values plane.gpos, gpo.Accepted)
    (target : Target) (links : List Link) : ∀ gpo ∈ applied plane target links, gpo.Accepted :=
  fun gpo hgpo => h gpo (mem_values_of_applied hgpo)

/-- A machine is answered exactly when its policy objects can be asked for their scope, its uploaded
packages are named by UUIDs, and its browsers' third-party policies let the password manager in. -/
theorem build_answers_iff {plane : Plane} (h : ∀ gpo ∈ Dict.values plane.gpos, gpo.Accepted)
    (entry : Entry) (osId : String) (ipAddresses : List String) (addLinks : List Link)
    (dropLinks : List (String × String)) :
    (∃ document, build plane entry osId ipAddresses addLinks dropLinks = .ok document) ↔
      Answerable plane (targetFacts plane entry osId ipAddresses)
        (changedLinks plane.links addLinks dropLinks) := by
  generalize htarget : targetFacts plane entry osId ipAddresses = target
  generalize hlinks : changedLinks plane.links addLinks dropLinks = links
  have haccepted := accepted_applied h target links
  rcases Policy.resolveOrder_cases (Policy.containerChain target.dn plane.baseDn) links plane.gpos
    plane.blocked target with ⟨hok, hasked⟩ | ⟨place, hplace, raised, henabled, hscope, herror⟩
  · obtain ⟨merged, hmerged⟩ := Policy.mergeSettings_shaped (Policy.shaped_of_accepted haccepted)
      (some target)
    have hbuild : (∃ document, build plane entry osId ipAddresses addLinks dropLinks =
        .ok document) ↔ ∃ resolved, resolve plane target.dn merged = .ok resolved := by
      have hmerged' := hmerged
      unfold applied at hmerged'
      simp only [build, htarget, hlinks, Policy.effectivePolicy, hok, hmerged', bind, Except.bind, pure,
        Except.pure]
      cases resolve plane target.dn merged <;> simp
    rw [hbuild, resolve_ok_iff plane target.dn haccepted hmerged]
    constructor
    · intro hall
      exact ⟨hasked, hall.1, hall.2.1, hall.2.2⟩
    · intro hanswerable
      exact ⟨hanswerable.packages, hanswerable.firefox, hanswerable.chromium⟩
  · refine iff_of_false (fun hok => ?_) fun hanswerable => ?_
    · obtain ⟨document, hok⟩ := hok
      simp only [build, htarget, hlinks, Policy.effectivePolicy, herror, bind, Except.bind] at hok
      cases hok
    · obtain ⟨answer, hanswer⟩ := hanswerable.scope place hplace henabled
      rw [hanswer] at hscope
      cases hscope

/-- An object that installs one uploaded package. -/
def packageGpo (packageId : String) : Gpo where
  guid := "p"
  displayName := "Packages"
  enabled := true
  settings := [("custom_packages", .arr [.obj [("name", .str "viewer"),
    ("package_id", .str packageId), ("state", .str "present"),
    ("keep_when_unlinked", .bool false)]])]
  settingsDistinct := by
    simp [Dict.keys, Value.distinct, Value.distinctItems, Value.distinctFields]

theorem accepted_packageGpo (packageId : String) : (packageGpo packageId).Accepted := by
  have hone : ∀ {category value}, Dict.get (packageGpo packageId).settings category = some value →
      category = "custom_packages" ∧ value = .arr [.obj [("name", .str "viewer"),
        ("package_id", .str packageId), ("state", .str "present"),
        ("keep_when_unlinked", .bool false)]] := by
    intro category value hget
    simpa [packageGpo] using Dict.mem_of_get hget
  have hother : ∀ {category value}, category ≠ "custom_packages" →
      Dict.get (packageGpo packageId).settings category ≠ some value :=
    fun hne hget => hne (hone hget).1
  have hnotObj : ∀ {category fields},
      Dict.get (packageGpo packageId).settings category ≠ some (.obj fields) := by
    intro category fields hget
    cases (hone hget).2
  refine ⟨⟨fun category _ value hget => ?_, fun category hcategory value hget => ?_⟩,
    fun category _ items hget item hitem => ?_, fun items hget => absurd hget (hother (by decide)),
    fun category _ fields hget => absurd hget hnotObj, fun fields hget => absurd hget hnotObj,
    fun fields hget => absurd hget hnotObj, fun fields hget => absurd hget hnotObj,
    fun value hget => absurd hget (hother (by decide))⟩
  · rw [(hone hget).2]
    refine ⟨_, rfl, fun item hitem _ target => ⟨true, ?_⟩⟩
    apply Policy.entryApplies_untargeted
    rw [List.mem_singleton.mp hitem]
    simp [Value.field, Dict.get_cons]
  · rw [(hone hget).1] at hcategory
    exact absurd hcategory (by decide)
  · rw [Value.arr.inj (hone hget).2] at hitem
    rw [List.mem_singleton.mp hitem]
    rfl

/-- A domain whose machines are all given one uploaded package. -/
def packagePlane (packageId : String) : Plane where
  gpos := [("p", packageGpo packageId)]
  links := [{ gpoGuid := "p", targetDn := "DC=corp,DC=lan", linkOrder := 1 }]
  baseDn := "DC=corp,DC=lan"

omit [Runtime] in
theorem build_answers_iff_package :
    letI := Runtime.latin
    let plane := packagePlane "0b1e77f2-64a8-4c21-9d3e-5f0c8a9b7d16"
    let entry : Entry := ⟨"CN=ws1,DC=corp,DC=lan", "ws1", "", []⟩
    (∃ document, build plane entry "" [] [] [] = .ok document) ↔
      Answerable plane (targetFacts plane entry "" []) (changedLinks plane.links [] []) := by
  let _ := Runtime.latin
  refine build_answers_iff ?_ ⟨"CN=ws1,DC=corp,DC=lan", "ws1", "", []⟩ "" [] [] []
  simp [packagePlane, Dict.values, accepted_packageGpo]

omit [Runtime] in
/-- A package named by a text that is no UUID takes the whole policy away from every machine. -/
theorem unanswered_package :
    letI := Runtime.latin
    (∀ gpo ∈ Dict.values (packagePlane "viewer-2024").gpos, gpo.Accepted) ∧
      build (packagePlane "viewer-2024") ⟨"CN=ws1,DC=corp,DC=lan", "ws1", "", []⟩ "" [] [] [] =
        .error .databaseError := by
  let _ := Runtime.latin
  refine ⟨by simp [packagePlane, Dict.values, accepted_packageGpo], ?_⟩
  rfl

end OpenDirectory.Rsop
