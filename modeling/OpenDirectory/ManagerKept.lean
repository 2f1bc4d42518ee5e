import OpenDirectory.BrowserFold

/-! What becomes of the password manager's extension when the browser settings are folded. It is
added beside what is there already, and the typed settings of a browser are then written over the
result policy by policy: one typed extension replaces the whole list it was added to. -/

namespace OpenDirectory.Browser

/-- What the browsers make of the policies that list extensions: an object has settings by
extension, a list has entries. Values of another shape they read in their own way. -/
structure Reading where
  entries : Value → Value.Fields
  entries_obj : ∀ fields, entries (.obj fields) = fields
  items : Value → List Value
  items_arr : ∀ values, items (.arr values) = values

namespace Reading

variable (reading : Reading)

/-- The extensions Firefox's policies have settings for. -/
def listed (policies : Value.Fields) : Value.Fields :=
  ((Dict.get policies "ExtensionSettings").map reading.entries).getD []

/-- The extensions Chromium's policies install. -/
def forced (policies : Value.Fields) : List Value :=
  ((Dict.get policies "ExtensionInstallForcelist").map reading.items).getD []

/-- Firefox installs the password manager's extension, whatever people do. -/
def ForceInstalled (policies : Value.Fields) : Prop :=
  (Dict.get (reading.listed policies) bitwardenFirefoxId).bind (·.field "installation_mode") =
    some (.str "force_installed")

/-- Chromium installs the password manager's extension, from wherever its entry says. -/
def ForceListed (policies : Value.Fields) : Prop :=
  ∃ text, .str text ∈ reading.forced policies ∧
    (Text.split ';' text).headD "" = bitwardenChromeId

end Reading

/-- The address that third-party policies give an extension. -/
def storageBase (policies : Value.Fields) (kind id : String) : Option Value := do
  let kinds ← Dict.get policies "3rdparty"
  let extensions ← kinds.field kind
  let storage ← extensions.field id
  let environment ← storage.field "environment"
  environment.field "base"

/-- Firefox keeps the extension, where it is offered, and every other one that the earlier policies
or the typed ones list; the typed ones decide what both list. -/
structure FirefoxKept (reading : Reading) (offered : Bool) (vault : Value)
    (before typed after : Value.Fields) : Prop where
  installed : offered = true → reading.ForceInstalled after
  storage : offered = true → storageBase after "Extensions" bitwardenFirefoxId = some vault
  entries : ∀ id value,
    (Dict.get (reading.listed typed) id).or (Dict.get (reading.listed before) id) = some value →
      (offered = true → id ≠ bitwardenFirefoxId) → Dict.get (reading.listed after) id = some value

/-- The typed policies leave Firefox's extensions alone, or list all of them. -/
structure FirefoxClear (reading : Reading) (offered : Bool) (vault : Value)
    (before typed : Value.Fields) : Prop where
  shape : offered = true → Dict.get typed "ExtensionSettings" = none → ∀ value,
    Dict.get before "ExtensionSettings" = some value → value.isObj = true ∨
      ∀ id ∈ Dict.keys (reading.entries value), id = bitwardenFirefoxId
  installed : offered = true → Dict.get typed "ExtensionSettings" ≠ none →
    reading.ForceInstalled typed
  entries : Dict.get typed "ExtensionSettings" ≠ none → ∀ id ∈ Dict.keys (reading.listed before),
    (offered = true → id ≠ bitwardenFirefoxId) → id ∈ Dict.keys (reading.listed typed)
  storage : offered = true → Dict.get typed "3rdparty" ≠ none →
    storageBase typed "Extensions" bitwardenFirefoxId = some vault

/-- Chromium keeps the extension, where it is offered, and every entry that the earlier policies or
the typed ones list. -/
structure ChromiumKept (reading : Reading) (offered : Bool) (vault : Value)
    (before typed after : Value.Fields) : Prop where
  installed : offered = true → reading.ForceListed after
  storage : offered = true → storageBase after "extensions" bitwardenChromeId = some vault
  entries : ∀ entry, entry ∈ reading.forced typed ∨ entry ∈ reading.forced before →
    entry ∈ reading.forced after

def bitwardenChromeEntry : Value :=
  .str (bitwardenChromeId ++ ";https://clients2.google.com/service/update2/crx")

/-- The typed policies leave Chromium's extensions alone, or list all of them. -/
structure ChromiumClear (reading : Reading) (offered : Bool) (vault : Value)
    (before typed : Value.Fields) : Prop where
  shape : offered = true → Dict.get typed "ExtensionInstallForcelist" = none → ∀ value,
    Dict.get before "ExtensionInstallForcelist" = some value → (∃ values, value = .arr values) ∨
      ∀ entry ∈ reading.items value, entry = bitwardenChromeEntry
  installed : offered = true → Dict.get typed "ExtensionInstallForcelist" ≠ none →
    reading.ForceListed typed
  entries : Dict.get typed "ExtensionInstallForcelist" ≠ none →
    ∀ entry ∈ reading.forced before, entry ∈ reading.forced typed
  storage : offered = true → Dict.get typed "3rdparty" ≠ none →
    storageBase typed "extensions" bitwardenChromeId = some vault

theorem mergePolicy_frame {target next : Value.Fields} {entry : String × Value}
    (h : mergePolicy target entry = .ok next) {key : String} (hkey : key ≠ entry.1) :
    Dict.get next key = Dict.get target key := by
  have hset : ∃ value, next = Dict.set target entry.1 value := by
    unfold mergePolicy at h
    split at h
    · split at h
      · obtain ⟨kinds, _, rfl⟩ := Except.map_eq_ok.mp h
        exact ⟨_, rfl⟩
      · exact ⟨_, (Except.ok.inj h).symm⟩
    · exact ⟨_, (Except.ok.inj h).symm⟩
    · exact ⟨_, (Except.ok.inj h).symm⟩
  obtain ⟨value, rfl⟩ := hset
  exact Dict.get_set_of_ne _ _ (Ne.symm hkey)

theorem foldlM_mergePolicy_frame {addition : Value.Fields} {target next : Value.Fields}
    (h : addition.foldlM mergePolicy target = .ok next) {key : String}
    (hkey : ∀ entry ∈ addition, entry.1 ≠ key) : Dict.get next key = Dict.get target key := by
  induction addition generalizing target with
  | nil =>
      obtain rfl : target = next := Except.ok.inj h
      rfl
  | cons entry addition ih =>
      rw [List.foldlM_cons] at h
      obtain ⟨middle, hmiddle, hrest⟩ := Except.bind_eq_ok.mp h
      rw [ih hrest fun other hother => hkey other (.tail _ hother),
        mergePolicy_frame hmiddle (Ne.symm (hkey entry (.head _)))]

theorem mergeKind_own {kinds next : Value.Fields} {kind id : String} {value : Value}
    (h : mergeKind kinds (kind, .obj [(id, value)]) = .ok next) :
    ∃ extensions, Dict.get next kind = some (.obj extensions) ∧
      Dict.get extensions id = some value := by
  unfold mergeKind at h
  split at h
  · rename_i old _
    obtain rfl : Dict.set kinds kind (.obj (Dict.set old id value)) = next := Except.ok.inj h
    exact ⟨_, Dict.get_set_self .., Dict.get_set_self ..⟩
  · cases h

theorem storageBase_mergePolicy {target next : Value.Fields} {kind id : String} {vault : Value}
    (h : mergePolicy target ("3rdparty", .obj [(kind, .obj [(id, environment vault)])]) =
      .ok next) : storageBase next kind id = some vault := by
  have hstored : ∃ kinds extensions, Dict.get next "3rdparty" = some (.obj kinds) ∧
      Dict.get kinds kind = some (.obj extensions) ∧
        Dict.get extensions id = some (environment vault) := by
    unfold mergePolicy at h
    split at h
    · rename_i added current hadded _
      obtain rfl : [(kind, Value.obj [(id, environment vault)])] = added := Value.obj.inj hadded
      rw [if_pos rfl] at h
      obtain ⟨kinds, hkinds, rfl⟩ := Except.map_eq_ok.mp h
      rw [List.foldlM_cons] at hkinds
      obtain ⟨merged, hmerged, hlast⟩ := Except.bind_eq_ok.mp hkinds
      obtain rfl : merged = kinds := Except.ok.inj hlast
      obtain ⟨extensions, hkind, hid⟩ := mergeKind_own hmerged
      exact ⟨merged, extensions, Dict.get_set_self .., hkind, hid⟩
    · rename_i hadded _
      cases hadded
    · obtain rfl := Except.ok.inj h
      exact ⟨[(kind, .obj [(id, environment vault)])], [(id, environment vault)],
        Dict.get_set_self .., by simp [Dict.get], by simp [Dict.get]⟩
  obtain ⟨kinds, extensions, hthird, hkind, hid⟩ := hstored
  simp [storageBase, hthird, Value.field, hkind, hid, environment, record, Dict.get]

/-- What an addition of the shape both browsers' have leaves: its first policy merged as it is
alone, and the extension's address. -/
theorem mergeExtension_own {before merged : Value.Fields} {first : String × Value}
    (hfirst : first.1 ≠ "3rdparty") {kind id : String} {vault : Value} {rest : Value.Fields}
    (hrest : ∀ key ∈ [first.1, "3rdparty"], ∀ entry ∈ rest, entry.1 ≠ key)
    (h : mergeExtension (.obj before)
      (first :: ("3rdparty", .obj [(kind, .obj [(id, environment vault)])]) :: rest) =
        .ok (.obj merged)) :
    (∃ middle, mergePolicy before first = .ok middle ∧
      Dict.get merged first.1 = Dict.get middle first.1) ∧
        storageBase merged kind id = some vault := by
  obtain ⟨fields, hfields, hmerged⟩ := Except.map_eq_ok.mp h
  obtain rfl : fields = merged := Value.obj.inj hmerged
  rw [List.foldlM_cons] at hfields
  obtain ⟨middle, hmiddle, hfields⟩ := Except.bind_eq_ok.mp hfields
  rw [List.foldlM_cons] at hfields
  obtain ⟨stored, hstored, hfields⟩ := Except.bind_eq_ok.mp hfields
  refine ⟨⟨middle, hmiddle, ?_⟩, ?_⟩
  · rw [foldlM_mergePolicy_frame hfields (hrest first.1 (by simp)),
      mergePolicy_frame hstored hfirst]
  · have hthird := foldlM_mergePolicy_frame hfields (hrest "3rdparty" (by simp))
    rw [← storageBase_mergePolicy hstored]
    simp only [storageBase, hthird]

theorem storageBase_update_iff {merged typed : Value.Fields} (htyped : (Dict.keys typed).Nodup)
    {kind id : String} {vault : Value} (h : storageBase merged kind id = some vault) :
    storageBase (Dict.update merged typed) kind id = some vault ↔
      (Dict.get typed "3rdparty" ≠ none → storageBase typed kind id = some vault) := by
  cases hthird : Dict.get typed "3rdparty" with
  | none =>
      have hsame : storageBase (Dict.update merged typed) kind id = storageBase merged kind id := by
        simp only [storageBase, Dict.get_update htyped, hthird, Option.none_or]
      rw [hsame]
      exact iff_of_true h fun hne => absurd rfl hne
  | some value =>
      have hsame : storageBase (Dict.update merged typed) kind id = storageBase typed kind id := by
        simp only [storageBase, Dict.get_update htyped, hthird, Option.some_or]
      rw [hsame]
      exact ⟨fun hstored _ => hstored, fun hstored => hstored (Option.some_ne_none value)⟩

variable (reading : Reading)

theorem listed_update {merged typed : Value.Fields} (htyped : (Dict.keys typed).Nodup) :
    reading.listed (Dict.update merged typed) =
      if Dict.get typed "ExtensionSettings" = none then reading.listed merged
        else reading.listed typed := by
  unfold Reading.listed
  rw [Dict.get_update htyped]
  cases Dict.get typed "ExtensionSettings" <;> rfl

/-- Firefox's extensions after the addition: the password manager's, and the others an object had
settings for. -/
theorem listed_firefoxAddition {before merged : Value.Fields} {vault : Value} {host : String}
    {alone : Bool}
    (h : mergeExtension (.obj before) (firefoxAddition vault host alone) = .ok (.obj merged)) :
    reading.ForceInstalled merged ∧
      storageBase merged "Extensions" bitwardenFirefoxId = some vault ∧
        ∀ id, id ≠ bitwardenFirefoxId → Dict.get (reading.listed merged) id =
          Dict.get (policies (.obj before) "ExtensionSettings") id := by
  have hrest : ∀ key ∈ ["ExtensionSettings", "3rdparty"], ∀ entry ∈ given alone
      [("PasswordManagerEnabled", .bool false)] ++ given (host ≠ "")
        [("Authentication", record [("SPNEGO", texts [host])])], entry.1 ≠ key := by
    intro key hkey
    rcases List.mem_pair.mp hkey with rfl | rfl
    · exact given_names alone host _ _ (by decide) (by decide)
    · exact given_names alone host _ _ (by decide) (by decide)
  obtain ⟨⟨middle, hmiddle, hown⟩, hstorage⟩ := mergeExtension_own (by decide) hrest h
  have hforced : ∀ others : Value.Fields, Dict.get middle "ExtensionSettings" =
      some (.obj (Dict.set others bitwardenFirefoxId
        (record [("installation_mode", .str "force_installed"),
          ("install_url", .str bitwardenFirefoxXpi)]))) →
      reading.ForceInstalled merged ∧ ∀ id, id ≠ bitwardenFirefoxId →
        Dict.get (reading.listed merged) id = Dict.get others id := by
    intro others hget
    have hlisted : reading.listed merged = Dict.set others bitwardenFirefoxId
        (record [("installation_mode", .str "force_installed"),
          ("install_url", .str bitwardenFirefoxXpi)]) := by
      simp [Reading.listed, hown, hget, reading.entries_obj]
    refine ⟨?_, fun id hid => ?_⟩
    · simp [Reading.ForceInstalled, hlisted, record, Value.field, Dict.get]
    · rw [hlisted, Dict.get_set_of_ne _ _ (Ne.symm hid)]
  unfold mergePolicy at hmiddle
  split at hmiddle
  · rename_i added current hadded hcurrent
    obtain rfl := Value.obj.inj hadded
    rw [if_neg (by decide)] at hmiddle
    obtain rfl := Except.ok.inj hmiddle
    obtain ⟨hinstalled, hothers⟩ := hforced current (Dict.get_set_self ..)
    refine ⟨hinstalled, hstorage, fun id hid => ?_⟩
    have hcurrent : Dict.get before "ExtensionSettings" = some (.obj current) := hcurrent
    rw [hothers id hid]
    simp [policies, Value.field, hcurrent]
  · rename_i hadded _
    cases hadded
  · rename_i hnone _
    obtain rfl := Except.ok.inj hmiddle
    obtain ⟨hinstalled, hothers⟩ := hforced [] (Dict.get_set_self ..)
    refine ⟨hinstalled, hstorage, fun id hid => ?_⟩
    have hempty : policies (.obj before) "ExtensionSettings" = [] := by
      unfold policies
      split
      · rename_i current hcurrent
        exact (hnone _ current rfl hcurrent).elim
      · rfl
    rw [hothers id hid, hempty]

theorem listed_alone_iff {first second : Value.Fields} (kept : String → Prop) :
    (∀ id value, (Dict.get first id).or (Dict.get second id) = some value → kept id →
        Dict.get first id = some value) ↔
      ∀ id ∈ Dict.keys second, kept id → id ∈ Dict.keys first := by
  constructor
  · intro h id hid hkept
    obtain ⟨value, hvalue⟩ := Option.isSome_iff_exists.mp (Dict.get_isSome_iff.mpr hid)
    by_contra hnot
    have hnone := Dict.get_eq_none_iff.mpr hnot
    have := h id value (by rw [hnone, Option.none_or, hvalue]) hkept
    rw [hnone] at this
    cases this
  · intro h id value hvalue hkept
    cases hfirst : Dict.get first id with
    | some own => rwa [hfirst, Option.some_or] at hvalue
    | none =>
        rw [hfirst, Option.none_or] at hvalue
        have hmem := h id (Dict.get_isSome_iff.mp (by rw [hvalue]; rfl)) hkept
        exact absurd hmem (Dict.get_eq_none_iff.mp hfirst)

/-- An addition keeps what Firefox reads in the earlier value, if that is an object or lists nothing
else. -/
theorem listed_before_iff (before : Value.Fields) :
    (∀ id value, Dict.get (reading.listed before) id = some value → id ≠ bitwardenFirefoxId →
        Dict.get (policies (.obj before) "ExtensionSettings") id = some value) ↔
      ∀ value, Dict.get before "ExtensionSettings" = some value → value.isObj = true ∨
        ∀ id ∈ Dict.keys (reading.entries value), id = bitwardenFirefoxId := by
  cases hget : Dict.get before "ExtensionSettings" with
  | none => simp [Reading.listed, hget]
  | some own =>
      have hlisted : reading.listed before = reading.entries own := by
        simp [Reading.listed, hget]
      rw [hlisted]
      cases own with
      | obj fields =>
          have hown : policies (.obj before) "ExtensionSettings" = fields := by
            simp [policies, Value.field, hget]
          rw [hown, reading.entries_obj]
          refine iff_of_true (fun _ _ hvalue _ => hvalue) fun value hvalue => .inl ?_
          rw [← Option.some.inj hvalue]
          rfl
      | _ =>
          have hown : policies (.obj before) "ExtensionSettings" = [] := by
            simp [policies, Value.field, hget]
          rw [hown]
          constructor
          · intro h value hvalue
            refine .inr fun id hid => ?_
            rw [← Option.some.inj hvalue] at hid
            obtain ⟨entry, hentry⟩ := Option.isSome_iff_exists.mp (Dict.get_isSome_iff.mpr hid)
            by_contra hne
            cases h id entry hentry hne
          · intro h id value hvalue hne
            rcases h _ rfl with hobj | hall
            · cases hobj
            · exact absurd (hall id (Dict.get_isSome_iff.mp (by rw [hvalue]; rfl))) hne

theorem firefoxKept_iff {offered : Bool} {before merged typed : Value.Fields} {vault : Value}
    {host : String} {alone : Bool} (htyped : (Dict.keys typed).Nodup)
    (h : mergeExtension (.obj before) (given offered (firefoxAddition vault host alone)) =
      .ok (.obj merged)) :
    FirefoxKept reading offered vault before typed (Dict.update merged typed) ↔
      FirefoxClear reading offered vault before typed := by
  have hnothing : Dict.get typed "ExtensionSettings" = none → reading.listed typed = [] := by
    intro hnone
    simp [Reading.listed, hnone]
  have hinstalled : reading.ForceInstalled (Dict.update merged typed) ↔
      if Dict.get typed "ExtensionSettings" = none then reading.ForceInstalled merged
        else reading.ForceInstalled typed := by
    unfold Reading.ForceInstalled
    rw [listed_update reading htyped]
    split <;> rfl
  cases offered with
  | false =>
      obtain rfl : before = merged := Value.obj.inj (Except.ok.inj h)
      constructor
      · intro kept
        refine ⟨by simp, by simp, fun hne => ?_, by simp⟩
        have hentries := kept.entries
        rw [listed_update reading htyped, if_neg hne] at hentries
        exact (listed_alone_iff _).mp hentries
      · intro clear
        refine ⟨by simp, by simp, ?_⟩
        rw [listed_update reading htyped]
        by_cases hnone : Dict.get typed "ExtensionSettings" = none
        · rw [if_pos hnone, hnothing hnone]
          intro id value hvalue _
          exact hvalue
        · rw [if_neg hnone]
          exact (listed_alone_iff _).mpr (clear.entries hnone)
  | true =>
      obtain ⟨hforced, hstored, hothers⟩ := listed_firefoxAddition reading h
      have hstorage := storageBase_update_iff htyped hstored
      constructor
      · intro kept
        have hentries := kept.entries
        rw [listed_update reading htyped] at hentries
        refine ⟨fun _ hnone => ?_, fun _ hne => ?_, fun hne => ?_, fun _ =>
          hstorage.mp (kept.storage rfl)⟩
        · rw [if_pos hnone, hnothing hnone] at hentries
          refine (listed_before_iff reading before).mp fun id value hvalue hid => ?_
          rw [← hothers id hid]
          exact hentries id value hvalue fun _ => hid
        · have := hinstalled.mp (kept.installed rfl)
          rwa [if_neg hne] at this
        · rw [if_neg hne] at hentries
          exact (listed_alone_iff _).mp hentries
      · intro clear
        by_cases hnone : Dict.get typed "ExtensionSettings" = none
        · refine ⟨fun _ => hinstalled.mpr ?_, fun _ => hstorage.mpr (clear.storage rfl),
            fun id value hvalue hid => ?_⟩
          · rwa [if_pos hnone]
          · rw [hnothing hnone] at hvalue
            rw [listed_update reading htyped, if_pos hnone, hothers id (hid rfl)]
            exact (listed_before_iff reading before).mpr (clear.shape rfl hnone) id value hvalue
              (hid rfl)
        · refine ⟨fun _ => hinstalled.mpr ?_, fun _ => hstorage.mpr (clear.storage rfl), ?_⟩
          · rw [if_neg hnone]
            exact clear.installed rfl hnone
          · rw [listed_update reading htyped, if_neg hnone]
            exact (listed_alone_iff _).mpr (clear.entries hnone)

theorem forced_update {merged typed : Value.Fields} (htyped : (Dict.keys typed).Nodup) :
    reading.forced (Dict.update merged typed) =
      if Dict.get typed "ExtensionInstallForcelist" = none then reading.forced merged
        else reading.forced typed := by
  unfold Reading.forced
  rw [Dict.get_update htyped]
  cases Dict.get typed "ExtensionInstallForcelist" <;> rfl

theorem forced_chromiumAddition {before merged : Value.Fields} {vault : Value} {host : String}
    {alone : Bool}
    (h : mergeExtension (.obj before) (chromiumAddition vault host alone) = .ok (.obj merged)) :
    storageBase merged "extensions" bitwardenChromeId = some vault ∧ ∀ entry,
      entry ∈ reading.forced merged ↔ entry = bitwardenChromeEntry ∨
        ∃ values, Dict.get before "ExtensionInstallForcelist" = some (.arr values) ∧
          entry ∈ values := by
  have hrest : ∀ key ∈ ["ExtensionInstallForcelist", "3rdparty"], ∀ entry ∈ given alone
      [("PasswordManagerEnabled", .bool false)] ++ given (host ≠ "")
        [("AuthServerAllowlist", .str host)], entry.1 ≠ key := by
    intro key hkey
    rcases List.mem_pair.mp hkey with rfl | rfl
    · exact given_names alone host _ _ (by decide) (by decide)
    · exact given_names alone host _ _ (by decide) (by decide)
  obtain ⟨⟨middle, hmiddle, hown⟩, hstorage⟩ := mergeExtension_own (by decide) hrest h
  have hforced : ∀ values, Dict.get middle "ExtensionInstallForcelist" = some (.arr values) →
      reading.forced merged = values := by
    intro values hget
    simp [Reading.forced, hown, hget, reading.items_arr]
  refine ⟨hstorage, fun entry => ?_⟩
  unfold mergePolicy at hmiddle
  split at hmiddle
  · rename_i hadded _
    cases hadded
  · rename_i added current hadded hcurrent
    obtain rfl : [bitwardenChromeEntry] = added := Value.arr.inj hadded
    obtain rfl := Except.ok.inj hmiddle
    have hcurrent : Dict.get before "ExtensionInstallForcelist" = some (.arr current) := hcurrent
    rw [hforced _ (Dict.get_set_self ..), hcurrent]
    simp only [List.mem_append, List.mem_filter, List.mem_singleton, decide_eq_true_eq,
      Option.some.injEq, Value.arr.injEq, exists_eq_left']
    by_cases hmem : entry ∈ current
    · simp [hmem]
    · simp [hmem]
  · rename_i _ hnone
    obtain rfl := Except.ok.inj hmiddle
    rw [hforced [bitwardenChromeEntry] (Dict.get_set_self ..), List.mem_singleton]
    refine ⟨.inl, ?_⟩
    rintro (hentry | ⟨values, hvalues, _⟩)
    · exact hentry
    · exact (hnone _ values rfl hvalues).elim

theorem forced_before_iff (before : Value.Fields) :
    (∀ entry ∈ reading.forced before, entry = bitwardenChromeEntry ∨
        ∃ values, Dict.get before "ExtensionInstallForcelist" = some (.arr values) ∧
          entry ∈ values) ↔
      ∀ value, Dict.get before "ExtensionInstallForcelist" = some value →
        (∃ values, value = .arr values) ∨
          ∀ entry ∈ reading.items value, entry = bitwardenChromeEntry := by
  cases hget : Dict.get before "ExtensionInstallForcelist" with
  | none => simp [Reading.forced, hget]
  | some own =>
      have hforced : reading.forced before = reading.items own := by simp [Reading.forced, hget]
      rw [hforced]
      constructor
      · intro h value hvalue
        obtain rfl := Option.some.inj hvalue
        by_cases harr : ∃ values, own = .arr values
        · exact .inl harr
        · refine .inr fun entry hentry => (h entry hentry).resolve_right ?_
          rintro ⟨values, hvalues, _⟩
          exact harr ⟨values, Option.some.inj hvalues⟩
      · intro h entry hentry
        rcases h own rfl with ⟨values, rfl⟩ | hall
        · rw [reading.items_arr] at hentry
          exact .inr ⟨values, rfl, hentry⟩
        · exact .inl (hall entry hentry)

theorem chromiumKept_iff {offered : Bool} {before merged typed : Value.Fields} {vault : Value}
    {host : String} {alone : Bool} (htyped : (Dict.keys typed).Nodup)
    (h : mergeExtension (.obj before) (given offered (chromiumAddition vault host alone)) =
      .ok (.obj merged)) :
    ChromiumKept reading offered vault before typed (Dict.update merged typed) ↔
      ChromiumClear reading offered vault before typed := by
  have hnothing : Dict.get typed "ExtensionInstallForcelist" = none →
      reading.forced typed = [] := by
    intro hnone
    simp [Reading.forced, hnone]
  cases offered with
  | false =>
      obtain rfl : before = merged := Value.obj.inj (Except.ok.inj h)
      constructor
      · intro kept
        refine ⟨by simp, by simp, fun hne entry hentry => ?_, by simp⟩
        have hmem := kept.entries entry (.inr hentry)
        rwa [forced_update reading htyped, if_neg hne] at hmem
      · intro clear
        refine ⟨by simp, by simp, fun entry hentry => ?_⟩
        rw [forced_update reading htyped]
        by_cases hnone : Dict.get typed "ExtensionInstallForcelist" = none
        · rw [hnothing hnone] at hentry
          rw [if_pos hnone]
          exact hentry.resolve_left (List.not_mem_nil)
        · rw [if_neg hnone]
          exact hentry.elim id (clear.entries hnone entry)
  | true =>
      obtain ⟨hstored, hforced⟩ := forced_chromiumAddition reading h
      have hstorage := storageBase_update_iff htyped hstored
      have hlisted : reading.ForceListed merged :=
        ⟨_, (hforced bitwardenChromeEntry).mpr (.inl rfl), by decide +kernel⟩
      constructor
      · intro kept
        refine ⟨fun _ hnone => ?_, fun _ hne => ?_, fun hne entry hentry => ?_, fun _ =>
          hstorage.mp (kept.storage rfl)⟩
        · refine (forced_before_iff reading before).mp fun entry hentry => ?_
          have hmem := kept.entries entry (.inr hentry)
          rw [forced_update reading htyped, if_pos hnone] at hmem
          exact (hforced entry).mp hmem
        · have := kept.installed rfl
          rwa [Reading.ForceListed, forced_update reading htyped, if_neg hne] at this
        · have hmem := kept.entries entry (.inr hentry)
          rwa [forced_update reading htyped, if_neg hne] at hmem
      · intro clear
        by_cases hnone : Dict.get typed "ExtensionInstallForcelist" = none
        · refine ⟨fun _ => ?_, fun _ => hstorage.mpr (clear.storage rfl), fun entry hentry => ?_⟩
          · rwa [Reading.ForceListed, forced_update reading htyped, if_pos hnone]
          · rw [hnothing hnone] at hentry
            rw [forced_update reading htyped, if_pos hnone, hforced entry]
            exact (forced_before_iff reading before).mpr (clear.shape rfl hnone) entry
              (hentry.resolve_left List.not_mem_nil)
        · refine ⟨fun _ => ?_, fun _ => hstorage.mpr (clear.storage rfl), fun entry hentry => ?_⟩
          · rw [Reading.ForceListed, forced_update reading htyped, if_neg hnone]
            exact clear.installed rfl hnone
          · rw [forced_update reading htyped, if_neg hnone]
            exact hentry.elim id (clear.entries hnone entry)

theorem keys_given (condition : Bool) (entries : Value.Fields) :
    (Dict.keys (given condition entries)).Sublist (Dict.keys entries) := by
  unfold given
  split
  · exact .refl _
  · exact List.nil_sublist _

theorem keys_chosen (choice : Choice) {entries : Bool → Value.Fields} {names : List String}
    (h : ∀ value, Dict.keys (entries value) = names) :
    (Dict.keys (chosen choice entries)).Sublist names := by
  unfold chosen
  split
  · exact List.nil_sublist _
  · rw [h]

theorem keys_append_sublist {first second : Value.Fields} {names names' : List String}
    (h : (Dict.keys first).Sublist names) (h' : (Dict.keys second).Sublist names') :
    (Dict.keys (first ++ second)).Sublist (names ++ names') := by
  unfold Dict.keys at h h' ⊢
  rw [List.map_append]
  exact h.append h'

def firefoxNames : List String :=
  ["Homepage"] ++ ["ManagedBookmarks"] ++ ["DisplayBookmarksToolbar"] ++ ["ExtensionSettings"] ++
    ["PasswordManagerEnabled"] ++ ["AutofillAddressEnabled", "AutofillCreditCardEnabled"] ++
    ["SanitizeOnShutdown", "Preferences", "DisableFormHistory"] ++ ["DisablePrivateBrowsing"] ++
    ["DisableDeveloperTools"] ++ ["DisableTelemetry"] ++ ["DisableFirefoxAccounts"] ++
    ["PopupBlocking"] ++ ["SearchEngines"] ++
    ["DefaultDownloadDirectory", "PromptForDownloadLocation"] ++ ["Proxy"] ++ ["WebsiteFilter"] ++
    ["OverrideFirstRunPage", "OverridePostUpdatePage", "NoDefaultBookmarks"] ++
    ["DontCheckDefaultBrowser"]

def chromiumNames : List String :=
  ["HomepageLocation", "HomepageIsNewTabPage", "ShowHomeButton"] ++
    ["RestoreOnStartup", "RestoreOnStartupURLs"] ++ ["ManagedBookmarks"] ++
    ["BookmarkBarEnabled"] ++ (["ExtensionInstallForcelist"] ++
      (["ExtensionInstallBlocklist"] ++ ["ExtensionInstallAllowlist"])) ++
    ["PasswordManagerEnabled"] ++ ["AutofillAddressEnabled", "AutofillCreditCardEnabled"] ++
    ["ClearBrowsingDataOnExitList", "SavingBrowserHistoryDisabled"] ++
    ["IncognitoModeAvailability"] ++ ["DeveloperToolsAvailability"] ++
    ["MetricsReportingEnabled"] ++ ["BrowserSignin", "SyncDisabled"] ++ ["DefaultPopupsSetting"] ++
    (["DefaultSearchProviderEnabled", "DefaultSearchProviderName"] ++
      ["DefaultSearchProviderSearchURL"]) ++
    ["DownloadDirectory", "PromptForDownloadLocation"] ++
    (["ProxyMode"] ++ ["ProxyServer"] ++ ["ProxyPacUrl"] ++ ["ProxyBypassList"]) ++
    ["URLBlocklist"] ++ ["URLAllowlist"] ++ ["PromotionalTabsEnabled"] ++
    ["DefaultBrowserSettingEnabled"]

theorem keys_firefoxHistory (s : Settings) : (Dict.keys (firefoxHistory s)).Sublist
    ["SanitizeOnShutdown", "Preferences", "DisableFormHistory"] := by
  unfold firefoxHistory
  split <;> decide

theorem keys_chromiumStart (s : Settings) : (Dict.keys (chromiumStart s)).Sublist
    ["RestoreOnStartup", "RestoreOnStartupURLs"] := by
  unfold chromiumStart
  split
  · exact keys_given ..
  · decide
  · decide
  · decide

theorem keys_chromiumHistory (s : Settings) : (Dict.keys (chromiumHistory s)).Sublist
    ["ClearBrowsingDataOnExitList", "SavingBrowserHistoryDisabled"] := by
  unfold chromiumHistory
  split <;> decide

theorem given_sublist {condition : Bool} {entries : Value.Fields} {names : List String}
    (h : (Dict.keys entries).Sublist names) :
    (Dict.keys (given condition entries)).Sublist names :=
  (keys_given condition entries).trans h

theorem keys_chromiumProxy (s : Settings) : (Dict.keys (chromiumProxy s)).Sublist
    (["ProxyMode"] ++ ["ProxyServer"] ++ ["ProxyPacUrl"] ++ ["ProxyBypassList"]) := by
  refine keys_append_sublist (keys_append_sublist (keys_append_sublist ?_ ?_) ?_) ?_
  · exact .refl _
  · exact keys_given ..
  · exact keys_given ..
  · exact keys_given ..

variable [Runtime]

theorem keys_chromiumExtensions (s : Settings) : (Dict.keys (chromiumExtensions s)).Sublist
    (["ExtensionInstallForcelist"] ++
      (["ExtensionInstallBlocklist"] ++ ["ExtensionInstallAllowlist"])) := by
  refine keys_append_sublist (keys_given ..) (given_sublist (keys_append_sublist ?_ ?_))
  · exact .refl _
  · exact keys_given ..

theorem nodup_keys_firefox (s : Settings) : (Dict.keys (firefox s)).Nodup := by
  refine Dict.nodup_keys_update (List.Nodup.sublist (?_ : List.Sublist _ firefoxNames) (by decide))
  unfold firefoxNames
  repeat' with_reducible apply keys_append_sublist
  all_goals first
    | exact keys_given ..
    | exact keys_chosen _ fun _ => rfl
    | exact keys_firefoxHistory s

theorem nodup_keys_chromium (s : Settings) : (Dict.keys (chromium s)).Nodup := by
  refine Dict.nodup_keys_update (List.Nodup.sublist (?_ : List.Sublist _ chromiumNames) (by decide))
  unfold chromiumNames
  repeat' with_reducible apply keys_append_sublist
  all_goals first
    | exact keys_given ..
    | exact keys_chosen _ fun _ => rfl
    | exact keys_chromiumStart s
    | exact keys_chromiumExtensions s
    | exact keys_chromiumHistory s
    | exact given_sublist (keys_chromiumProxy s)
    | exact given_sublist (keys_append_sublist (.refl _) (keys_given ..))

omit [Runtime] in
theorem addExtension_own {browser next : Value} (h : Browsers browser) {name : String}
    {addition : Value.Fields} (hadd : addExtension browser name addition = .ok next) :
    Browsers next ∧
      mergeExtension (.obj (policies browser name)) addition = .ok (.obj (policies next name)) ∧
      (∀ other, other ≠ name → policies next other = policies browser other) ∧
      (addition = [] → next = browser) := by
  by_cases hempty : addition = []
  · subst hempty
    obtain rfl : browser = next := Except.ok.inj hadd
    exact ⟨h, rfl, fun _ _ => rfl, fun _ => rfl⟩
  · obtain ⟨withDefault, hdefault, hbrowsers, hsame⟩ := h.setDefault name
    have hnot : ¬ addition.isEmpty = true := fun hnil => hempty (List.isEmpty_iff.mp hnil)
    simp only [addExtension, if_neg hnot, hdefault] at hadd
    obtain ⟨start, hstart, hmerge⟩ := Except.bind_eq_ok.mp hadd
    obtain rfl := Except.ok.inj hstart
    obtain ⟨value, hvalue, hset⟩ := Except.bind_eq_ok.mp hmerge
    obtain ⟨own, hown, rfl⟩ := Except.map_eq_ok.mp hvalue
    obtain ⟨last, hlast, hlastBrowsers, hlastOwn, hothers⟩ := hbrowsers.setItem name own
    obtain rfl : last = next := Except.ok.inj (hlast.symm.trans hset)
    refine ⟨hlastBrowsers, ?_, fun other hother => ?_, fun hnil => absurd hnil hempty⟩
    · rw [hvalue, hlastOwn]
    · rw [hothers other hother, hsame]

/-- A merged document as the schema leaves it: objects of browser policies, an object for the
password manager, and typed settings that read as such. -/
structure Document (settings : Value.Fields) : Prop where
  browser : ∀ value, Dict.get settings "browser" = some value → Browsers value
  manager : ∀ value, Dict.get settings "password_manager" = some value → value.isObj = true
  firefox : TypedAt settings "firefox_policy"
  chromium : TypedAt settings "chromium_policy"

omit [Runtime] in
theorem policies_orElse {browser : Value} (h : Browsers browser) (name : String) :
    policies (orElse browser (.obj [])) name = policies browser name := by
  unfold orElse
  split
  · rfl
  · rename_i hfalse
    by_contra hne
    exact hfalse (@Browsers.truthy _ h name fun hnil => hne hnil.symm)

theorem Document.browsers {settings : Value.Fields} (h : Document settings) :
    Browsers (browserOf settings) := by
  unfold browserOf orElse
  split
  · rename_i htruthy
    cases hget : Dict.get settings "browser" with
    | none => simp [hget, Value.truthy] at htruthy
    | some value => exact h.browser value hget
  · exact browsers_empty

/-- A folded document has, for each browser, the policies there were, the extension added to them,
and the typed policies over both. -/
theorem fold_native {settings manager next : Value.Fields} (h : Document settings)
    (hget : Dict.get settings "password_manager" = some (.obj manager)) (hmanager : manager ≠ [])
    {vaultUrl consoleUrl : String} (hfold : fold settings vaultUrl consoleUrl = .ok next) :
    ∃ forFirefox forChromium,
      mergeExtension (.obj (policies (browserOf settings) "firefox"))
        (given (offers manager vaultUrl "firefox") (firefoxAddition (managerVault manager vaultUrl)
          (consoleHost consoleUrl) (isOn manager "disable_browser_managers"))) =
            .ok (.obj forFirefox) ∧
      mergeExtension (.obj (policies (browserOf settings) "chromium"))
        (given (offers manager vaultUrl "chromium") (chromiumAddition
          (managerVault manager vaultUrl) (consoleHost consoleUrl)
            (isOn manager "disable_browser_managers"))) = .ok (.obj forChromium) ∧
      policies (browserOf next) "firefox" =
        Dict.update forFirefox (native settings "firefox_policy" firefox) ∧
      policies (browserOf next) "chromium" =
        Dict.update forChromium (native settings "chromium_policy" chromium) := by
  obtain ⟨part, hpart⟩ := foldManager_obj hget hmanager (browserOf settings) vaultUrl consoleUrl
  unfold fold at hfold
  obtain ⟨state, hstate, hrest⟩ := Except.bind_eq_ok.mp hfold
  obtain ⟨both, hboth, rfl⟩ := Except.map_eq_ok.mp (hpart.symm.trans hstate)
  obtain ⟨middle, hmiddle, hlast⟩ := Except.bind_eq_ok.mp hboth
  obtain ⟨hmiddleBrowsers, hforFirefox, hframe, hfirstNone⟩ := addExtension_own h.browsers hmiddle
  obtain ⟨hbothBrowsers, hforChromium, hframe', hsecondNone⟩ :=
    addExtension_own hmiddleBrowsers hlast
  rw [hframe "chromium" (by decide)] at hforChromium
  have hkept : ∀ key, key ≠ "password_manager" →
      Dict.get (Dict.set settings "password_manager" part) key = Dict.get settings key :=
    fun key hkey => Dict.get_set_of_ne _ _ (Ne.symm hkey)
  obtain ⟨fox, changed, hfox, hfoxBrowsers, hfoxOwn, hfoxFrame, hfoxUnchanged⟩ := foldBrowser_ok
    (by unfold TypedAt; rw [hkept "firefox_policy" (by decide)]; exact h.firefox) hbothBrowsers "firefox" firefox
      (offers manager vaultUrl "firefox" || offers manager vaultUrl "chromium")
  have hkeptLater : ∀ key, key ∉ ["password_manager", "firefox_policy"] →
      Dict.get (Dict.erase (Dict.set settings "password_manager" part) "firefox_policy") key =
        Dict.get settings key := by
    intro key hkey
    simp only [List.mem_cons, List.not_mem_nil, or_false, not_or] at hkey
    rw [Dict.get_erase, if_neg (Ne.symm hkey.2), hkept key hkey.1]
  obtain ⟨last, changed', hchrome, hlastBrowsers, hlastOwn, hlastFrame, hlastUnchanged⟩ :=
    foldBrowser_ok (by unfold TypedAt; rw [hkeptLater "chromium_policy" (by decide)]; exact h.chromium) hfoxBrowsers
      "chromium" chromium changed
  rw [hfox] at hrest
  simp only [bind, Except.bind, hchrome] at hrest
  have hnext := Except.ok.inj hrest
  have hpolicies : ∀ name, policies (browserOf next) name = policies last name := by
    intro name
    subst hnext
    cases changed' with
    | true =>
        simp only [if_true, browserOf, Dict.get_set_self, Option.getD_some]
        exact policies_orElse hlastBrowsers name
    | false =>
        obtain ⟨rfl, rfl⟩ := hlastUnchanged rfl
        obtain ⟨rfl, hoffers⟩ := hfoxUnchanged rfl
        rw [Bool.or_eq_false_iff] at hoffers
        rw [hsecondNone (by rw [hoffers.2]; rfl), hfirstNone (by rw [hoffers.1]; rfl)]
        simp only [Bool.false_eq_true, if_false, browserOf]
        rw [Dict.get_erase, if_neg (by decide), hkeptLater "browser" (by decide)]
  refine ⟨_, _, hforFirefox, hforChromium, ?_, ?_⟩
  · rw [hpolicies, hlastFrame "firefox" (by decide), hfoxOwn, hframe' "firefox" (by decide)]
    simp only [native, hkept _ (show "firefox_policy" ≠ "password_manager" by decide)]
  · rw [hpolicies, hlastOwn, hfoxFrame "chromium" (by decide)]
    simp only [native, hkeptLater "chromium_policy" (by decide)]

/-- A password-manager setting whose extension is wanted, with an address for the vault. -/
structure Wanted (settings manager : Value.Fields) (vaultUrl : String) : Prop where
  setting : Dict.get settings "password_manager" = some (.obj manager)
  something : manager ≠ []
  extension : isOn manager "browser_extension" = true
  vault : (managerVault manager vaultUrl).truthy = true

/-- Folding ends, and both browsers keep the extension and all the others. -/
def ManagerKept (reading : Reading) (settings manager : Value.Fields)
    (vaultUrl consoleUrl : String) : Prop :=
  ∃ next, fold settings vaultUrl consoleUrl = .ok next ∧
    FirefoxKept reading (isOn manager "firefox") (managerVault manager vaultUrl)
      (policies (browserOf settings) "firefox") (native settings "firefox_policy" firefox)
        (policies (browserOf next) "firefox") ∧
    ChromiumKept reading (isOn manager "chromium") (managerVault manager vaultUrl)
      (policies (browserOf settings) "chromium") (native settings "chromium_policy" chromium)
        (policies (browserOf next) "chromium")

omit [Runtime] in
theorem Wanted.offers {settings manager : Value.Fields} {vaultUrl : String}
    (h : Wanted settings manager vaultUrl) (name : String) :
    offers manager vaultUrl name = isOn manager name := by
  simp [Browser.offers, h.extension, h.vault]

theorem nodup_keys_native (settings : Value.Fields) (category : String)
    {translate : Settings → Value.Fields} (h : ∀ s, (Dict.keys (translate s)).Nodup) :
    (Dict.keys (native settings category translate)).Nodup := by
  unfold native
  simp only
  split
  · cases ((parseFields _).bind Settings.validate) with
    | none => exact List.nodup_nil
    | some s => exact h s
  · exact List.nodup_nil

/-- The password manager survives folding exactly where it could be added, and the typed settings of
each browser leave the lists it was added to alone or say everything those said. -/
theorem managerKept_iff (reading : Reading) {settings manager : Value.Fields} {vaultUrl : String}
    (h : Document settings) (hwanted : Wanted settings manager vaultUrl) (consoleUrl : String) :
    ManagerKept reading settings manager vaultUrl consoleUrl ↔
      LetsIn (browserOf settings) manager vaultUrl ∧
      FirefoxClear reading (isOn manager "firefox") (managerVault manager vaultUrl)
        (policies (browserOf settings) "firefox") (native settings "firefox_policy" firefox) ∧
      ChromiumClear reading (isOn manager "chromium") (managerVault manager vaultUrl)
        (policies (browserOf settings) "chromium")
          (native settings "chromium_policy" chromium) := by
  have hlets : ManagerLetIn settings (browserOf settings) vaultUrl ↔
      LetsIn (browserOf settings) manager vaultUrl := by
    constructor
    · intro hlet
      exact hlet manager hwanted.setting hwanted.something
    · intro hlet other hother _
      obtain rfl := Value.obj.inj (Option.some.inj (hwanted.setting.symm.trans hother))
      exact hlet
  have hfirefox := nodup_keys_native settings "firefox_policy" nodup_keys_firefox
  have hchromium := nodup_keys_native settings "chromium_policy" nodup_keys_chromium
  rw [← hlets]
  rcases fold_cases h.browser h.manager h.firefox h.chromium vaultUrl consoleUrl with
    ⟨hlet, next, hnext, _⟩ | ⟨hnot, raised, hraised⟩
  · obtain ⟨forFirefox, forChromium, hforFirefox, hforChromium, hfox, hchrome⟩ :=
      fold_native h hwanted.setting hwanted.something hnext
    rw [hwanted.offers] at hforFirefox hforChromium
    rw [← firefoxKept_iff reading hfirefox hforFirefox,
      ← chromiumKept_iff reading hchromium hforChromium, ← hfox, ← hchrome]
    constructor
    · rintro ⟨other, hother, hkept⟩
      obtain rfl := Except.ok.inj (hnext.symm.trans hother)
      exact ⟨hlet, hkept⟩
    · rintro ⟨_, hkept⟩
      exact ⟨next, hnext, hkept⟩
  · refine iff_of_false ?_ fun hall => hnot hall.1
    rintro ⟨next, hnext, _⟩
    rw [hraised] at hnext
    cases hnext

/-- Objects and lists as they are, and nothing in values of another shape. -/
def Reading.plain : Reading where
  entries
    | .obj fields => fields
    | _ => []
  entries_obj _ := rfl
  items
    | .arr values => values
    | _ => []
  items_arr _ := rfl

/-- Settings that deploy the password manager, over a template's policies for Firefox and under
typed ones. -/
def managed (template : Value.Fields) (typed : Settings) : Value.Fields :=
  [("browser", .obj [("firefox", .obj template)]),
    ("password_manager", .obj [("browser_extension", .bool true)]),
    ("firefox_policy", .obj typed.dump)]

theorem document_managed (template : Value.Fields) {typed : Settings} (h : typed.accepted = true) :
    Document (managed template typed) where
  browser := by
    intro value hvalue
    obtain rfl := Option.some.inj hvalue
    refine ⟨_, rfl, fun name own hown => ?_⟩
    obtain ⟨_, rfl⟩ : name = "firefox" ∧ own = .obj template := by simpa using Dict.mem_of_get hown
    rfl
  manager := by
    intro value hvalue
    obtain rfl := Option.some.inj hvalue
    rfl
  firefox := by
    intro value hvalue _
    obtain rfl := Option.some.inj hvalue
    exact ⟨typed, validate_dump h⟩
  chromium := by
    intro value hvalue
    cases hvalue

section
omit [Runtime]

theorem wanted_managed (template : Value.Fields) (typed : Settings) :
    Wanted (managed template typed) [("browser_extension", .bool true)]
      "https://vault.example.org" :=
  ⟨rfl, List.cons_ne_nil _ _, by decide, by decide⟩

theorem managerKept_iff_homepage :
    letI := Runtime.latin
    ManagerKept Reading.plain (managed [("ExtensionSettings",
        .obj [("other@example", .obj [("installation_mode", .str "allowed")])])]
          { homepage := "https://intranet.example.org" })
      [("browser_extension", .bool true)] "https://vault.example.org" "" := by
  let _ := Runtime.latin
  have hnative : native (managed [("ExtensionSettings",
      .obj [("other@example", .obj [("installation_mode", .str "allowed")])])]
        { homepage := "https://intranet.example.org" }) "firefox_policy" firefox =
      [("Homepage", .obj [("URL", .str "https://intranet.example.org"), ("Locked", .bool true)])] := by
    decide +kernel
  have hnothing : native (managed [("ExtensionSettings",
      .obj [("other@example", .obj [("installation_mode", .str "allowed")])])]
        { homepage := "https://intranet.example.org" }) "chromium_policy" chromium = [] := by
    decide +kernel
  refine (managerKept_iff Reading.plain (document_managed _ (by decide)) (wanted_managed _ _)
    "").mpr ⟨⟨fun _ kinds hkinds => ?_, fun _ kinds hkinds => ?_⟩, ?_, ?_⟩
  · cases hkinds
  · cases hkinds
  · rw [hnative]
    refine ⟨fun _ _ value hvalue => .inl ?_, fun _ hne => absurd rfl hne, fun hne => absurd rfl hne,
      fun _ hne => absurd rfl hne⟩
    obtain rfl := Option.some.inj hvalue
    rfl
  · rw [hnothing]
    refine ⟨fun _ _ value hvalue => ?_, fun _ hne => absurd rfl hne, fun hne => absurd rfl hne,
      fun _ hne => absurd rfl hne⟩
    cases hvalue

/-- One extension among the typed settings, and the password manager's is no longer installed. -/
theorem bitwarden_dropped :
    letI := Runtime.latin
    let typed : Settings := { extensionsInstall := ["ublock-origin"] }
    let manager : Value.Fields := [("browser_extension", .bool true)]
    Document (managed [] typed) ∧ Wanted (managed [] typed) manager "https://vault.example.org" ∧
      ¬ ManagerKept Reading.plain (managed [] typed) manager "https://vault.example.org" "" := by
  let _ := Runtime.latin
  refine ⟨document_managed [] (by decide), wanted_managed [] _, ?_⟩
  rintro ⟨next, hnext, kept, _⟩
  have hlost : ((fold (managed [] { extensionsInstall := ["ublock-origin"] })
      "https://vault.example.org" "").toOption.map fun next =>
        Dict.keys (Reading.plain.listed (policies (browserOf next) "firefox"))) =
          some ["ublock-origin"] := by
    decide +kernel
  rw [hnext] at hlost
  have hkeys : Dict.keys (Reading.plain.listed (policies (browserOf next) "firefox")) =
      ["ublock-origin"] := Option.some.inj hlost
  have hnone : Dict.get (Reading.plain.listed (policies (browserOf next) "firefox"))
      bitwardenFirefoxId = none := Dict.get_eq_none_iff.mpr (by rw [hkeys]; decide)
  have hinstalled := kept.installed rfl
  rw [Reading.ForceInstalled, hnone] at hinstalled
  cases hinstalled

end

end OpenDirectory.Browser
