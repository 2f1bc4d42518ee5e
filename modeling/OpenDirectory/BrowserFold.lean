import OpenDirectory.BrowserNative

/-! When folding the browser settings ends: the one thing that can be in the way is what another
setting left under a browser's third-party policies, where the password manager's extension has to
be added to an object. -/

namespace OpenDirectory.Browser

/-- Each browser has an object of policies, if it has anything. -/
def Browsers (browser : Value) : Prop :=
  ∃ fields, browser = .obj fields ∧ ∀ name value, Dict.get fields name = some value →
    value.isObj = true

/-- The policies a browser has. -/
def policies (browser : Value) (name : String) : Value.Fields :=
  match browser.field name with
  | some (.obj fields) => fields
  | _ => []

/-- Third-party policies of this kind can be added to a browser's. -/
def Mergeable (policies : Value.Fields) (kind : String) : Prop :=
  ∀ kinds, Dict.get policies "3rdparty" = some (.obj kinds) →
    ∀ value, Dict.get kinds kind = some value → value.isObj = true

theorem eq_obj_of_isObj {value : Value} (h : value.isObj = true) : ∃ fields, value = .obj fields := by
  cases value with
  | obj fields => exact ⟨fields, rfl⟩
  | _ => simp [Value.isObj] at h

theorem browsers_empty : Browsers (.obj []) := ⟨[], rfl, fun _ _ h => by simp at h⟩

variable {browser : Value}

theorem Browsers.get (h : Browsers browser) (name : String) :
    (∃ fields, browser = .obj fields ∧ Dict.get fields name = none ∧ policies browser name = []) ∨
      ∃ fields, browser = .obj fields ∧
        Dict.get fields name = some (.obj (policies browser name)) := by
  obtain ⟨fields, rfl, hobj⟩ := h
  cases hget : Dict.get fields name with
  | none => exact .inl ⟨fields, rfl, hget, by simp [policies, Value.field, hget]⟩
  | some value =>
      obtain ⟨own, rfl⟩ := eq_obj_of_isObj (hobj name value hget)
      exact .inr ⟨fields, rfl, by simp [policies, Value.field, hget]⟩

theorem Browsers.setItem (h : Browsers browser) (name : String)
    (own : Value.Fields) :
    ∃ next, browser.setItem name (.obj own) = .ok next ∧ Browsers next ∧
      policies next name = own ∧
      ∀ other, other ≠ name → policies next other = policies browser other := by
  obtain ⟨fields, rfl, hobj⟩ := h
  refine ⟨.obj (Dict.set fields name (.obj own)), rfl, ⟨_, rfl, fun other value hget => ?_⟩, ?_,
    fun other hother => ?_⟩
  · rw [Dict.get_set] at hget
    split at hget
    · rw [← Option.some.inj hget]
      rfl
    · exact hobj other value hget
  · simp [policies, Value.field]
  · simp [policies, Value.field, Dict.get_set_of_ne _ _ (Ne.symm hother)]

theorem Browsers.truthy {browser : Value} (h : Browsers browser) {name : String}
    (hpolicies : policies browser name ≠ []) : browser.truthy = true := by
  obtain ⟨fields, rfl, _⟩ := h
  cases fields with
  | nil => exact absurd rfl hpolicies
  | cons => rfl

theorem mergePolicy_ok (target : Value.Fields) {entry : String × Value}
    (h : entry.1 ≠ "3rdparty") :
    ∃ value, mergePolicy target entry = .ok (Dict.set target entry.1 value) := by
  unfold mergePolicy
  split
  · rw [if_neg h]
    exact ⟨_, rfl⟩
  · exact ⟨_, rfl⟩
  · exact ⟨_, rfl⟩

theorem mergePolicy_thirdParty (target : Value.Fields) (kind : String) (added : Value.Fields) :
    (Mergeable target kind ∧ ∃ value, mergePolicy target
        ("3rdparty", .obj [(kind, .obj added)]) = .ok (Dict.set target "3rdparty" value)) ∨
      ¬ Mergeable target kind ∧ ∃ raised, mergePolicy target
        ("3rdparty", .obj [(kind, .obj added)]) = .error raised := by
  have hreplaced : (∀ kinds, Dict.get target "3rdparty" ≠ some (.obj kinds)) →
      Mergeable target kind ∧ ∃ value, mergePolicy target
        ("3rdparty", .obj [(kind, .obj added)]) = .ok (Dict.set target "3rdparty" value) := by
    intro hnot
    refine ⟨fun kinds hkinds => absurd hkinds (hnot kinds), ?_⟩
    unfold mergePolicy
    split
    · rename_i hcurrent
      exact absurd hcurrent (hnot _)
    · exact ⟨_, rfl⟩
    · exact ⟨_, rfl⟩
  cases hcurrent : Dict.get target "3rdparty" with
  | none => exact .inl (hreplaced fun kinds h => by rw [hcurrent] at h; cases h)
  | some current =>
      cases current with
      | obj kinds =>
          cases hkind : Dict.get kinds kind with
          | none =>
              refine .inl ⟨fun kinds' hkinds value hvalue => ?_, ?_⟩
              · rw [hcurrent] at hkinds
                cases hkinds
                rw [hkind] at hvalue
                cases hvalue
              · simp [mergePolicy, mergeKind, hcurrent, hkind, Value.spread, bind, Except.bind, pure,
                  Except.pure, Functor.map, Except.map]
          | some value =>
              cases value with
              | obj old =>
                  refine .inl ⟨fun kinds' hkinds value hvalue => ?_, ?_⟩
                  · rw [hcurrent] at hkinds
                    cases hkinds
                    rw [hkind] at hvalue
                    cases hvalue
                    rfl
                  · simp [mergePolicy, mergeKind, hcurrent, hkind, Value.spread, bind, Except.bind,
                      pure, Except.pure, Functor.map, Except.map]
              | _ =>
                  refine .inr ⟨fun hmergeable => ?_, .attributeError, ?_⟩
                  · have := hmergeable kinds hcurrent _ hkind
                    simp [Value.isObj] at this
                  · simp [mergePolicy, mergeKind, hcurrent, hkind, bind, Except.bind, Functor.map,
                      Except.map]
      | _ => exact .inl (hreplaced fun kinds h => by rw [hcurrent] at h; cases h)

theorem foldlM_mergePolicy_ok {addition : Value.Fields}
    (h : ∀ entry ∈ addition, entry.1 ≠ "3rdparty") (target : Value.Fields) :
    ∃ next, addition.foldlM mergePolicy target = .ok next := by
  have hstep := fun (target : Value.Fields) entry (hentry : entry ∈ addition) (_ : True) =>
    (mergePolicy_ok target (h entry hentry)).elim fun _ hok =>
      (⟨_, hok, trivial⟩ : ∃ next, mergePolicy target entry = .ok next ∧ True)
  obtain ⟨next, hnext, _⟩ := @List.foldlM_ok _ _ _ (fun _ => True) _ addition hstep target trivial
  exact ⟨next, hnext⟩

theorem mergeExtension_cases (target : Value.Fields) {first : String × Value}
    (hfirst : first.1 ≠ "3rdparty") (kind : String) (added : Value.Fields) {rest : Value.Fields}
    (hrest : ∀ entry ∈ rest, entry.1 ≠ "3rdparty") :
    (Mergeable target kind ∧ ∃ next, mergeExtension (.obj target)
        (first :: ("3rdparty", .obj [(kind, .obj added)]) :: rest) = .ok (.obj next)) ∨
      ¬ Mergeable target kind ∧ ∃ raised, mergeExtension (.obj target)
        (first :: ("3rdparty", .obj [(kind, .obj added)]) :: rest) = .error raised := by
  obtain ⟨value, hvalue⟩ := mergePolicy_ok target hfirst
  have hkept : Mergeable (Dict.set target first.1 value) kind ↔ Mergeable target kind := by
    unfold Mergeable
    rw [Dict.get_set_of_ne _ _ hfirst]
  unfold mergeExtension
  simp only [List.foldlM_cons, hvalue]
  rcases mergePolicy_thirdParty (Dict.set target first.1 value) kind added with
    ⟨hmergeable, third, hthird⟩ | ⟨hnot, raised, hraised⟩
  · obtain ⟨next, hnext⟩ := foldlM_mergePolicy_ok hrest
      (Dict.set (Dict.set target first.1 value) "3rdparty" third)
    refine .inl ⟨hkept.mp hmergeable, next, ?_⟩
    simp [hthird, hnext, bind, Except.bind, Functor.map, Except.map]
  · refine .inr ⟨fun hmergeable => hnot (hkept.mpr hmergeable), raised, ?_⟩
    simp [hraised, bind, Except.bind, Functor.map, Except.map]

theorem Browsers.setDefault (h : Browsers browser) (name : String) :
    ∃ next, browser.setDefault name (.obj []) = .ok (next, .obj (policies browser name)) ∧
      Browsers next ∧ ∀ other, policies next other = policies browser other := by
  rcases h.get name with ⟨fields, rfl, hnone, hempty⟩ | ⟨fields, rfl, hsome⟩
  · obtain ⟨next, hnext, hbrowsers, hown, hothers⟩ := h.setItem name []
    refine ⟨next, ?_, hbrowsers, fun other => ?_⟩
    · obtain rfl : Value.obj (Dict.set fields name (.obj [])) = next := Except.ok.inj hnext
      simp [Value.setDefault, hnone, hempty]
    · by_cases hother : other = name
      · rw [hother, hown, hempty]
      · exact hothers other hother
  · exact ⟨_, by simp [Value.setDefault, hsome], h, fun _ => rfl⟩

theorem addExtension_cases (h : Browsers browser) (name kind : String)
    (first : String × Value) (hfirst : first.1 ≠ "3rdparty") (added : Value.Fields)
    {rest : Value.Fields} (hrest : ∀ entry ∈ rest, entry.1 ≠ "3rdparty") (offered : Bool) :
    ((offered = true → Mergeable (policies browser name) kind) ∧ ∃ next,
        addExtension browser name (given offered
          (first :: ("3rdparty", .obj [(kind, .obj added)]) :: rest)) = .ok next ∧
        Browsers next ∧ ∀ other, other ≠ name → policies next other = policies browser other) ∨
      (offered = true ∧ ¬ Mergeable (policies browser name) kind) ∧ ∃ raised,
        addExtension browser name (given offered
          (first :: ("3rdparty", .obj [(kind, .obj added)]) :: rest)) = .error raised := by
  cases offered with
  | false => exact .inl ⟨by simp, browser, rfl, h, fun _ _ => rfl⟩
  | true =>
      obtain ⟨withDefault, hdefault, hbrowsers, hsame⟩ := h.setDefault name
      rcases mergeExtension_cases (policies browser name) hfirst kind added hrest with
        ⟨hmergeable, own, hown⟩ | ⟨hnot, raised, hraised⟩
      · obtain ⟨next, hnext, hnextBrowsers, _, hothers⟩ := hbrowsers.setItem name own
        refine .inl ⟨fun _ => hmergeable, next, ?_, hnextBrowsers, fun other hother => ?_⟩
        · simp [addExtension, given, hdefault, hown, hnext, bind, Except.bind]
        · rw [hothers other hother, hsame]
      · refine .inr ⟨⟨rfl, hnot⟩, raised, ?_⟩
        simp [addExtension, given, hdefault, hraised, bind, Except.bind]

/-- Whether a switch of a setting is on, as it is unless the setting says otherwise. -/
def isOn (manager : Value.Fields) (name : String) : Bool :=
  ((Dict.get manager name).getD (.bool true)).truthy

theorem switchedOn_obj (manager : Value.Fields) (name : String) :
    switchedOn (.obj manager) name = .ok (isOn manager name) := rfl

def managerVault (manager : Value.Fields) (vaultUrl : String) : Value :=
  orElse ((Dict.get manager "vault_url").getD .null) (.str vaultUrl)

/-- Whether a setting gives a browser the extension. -/
def offers (manager : Value.Fields) (vaultUrl name : String) : Bool :=
  isOn manager "browser_extension" && (managerVault manager vaultUrl).truthy && isOn manager name

theorem passwordManagerExtension_obj (manager : Value.Fields) (vaultUrl consoleUrl : String) :
    passwordManagerExtension (.obj manager) (managerVault manager vaultUrl) consoleUrl =
      .ok (given (offers manager vaultUrl "firefox") (firefoxAddition
          (managerVault manager vaultUrl) (consoleHost consoleUrl)
            (isOn manager "disable_browser_managers")),
        given (offers manager vaultUrl "chromium") (chromiumAddition
          (managerVault manager vaultUrl) (consoleHost consoleUrl)
            (isOn manager "disable_browser_managers"))) := by
  simp only [passwordManagerExtension, switchedOn_obj, offers, given, bind, Except.bind, pure,
    Except.pure]
  by_cases hextension : isOn manager "browser_extension" = true <;>
    by_cases hvault : (managerVault manager vaultUrl).truthy = true <;> simp [hextension, hvault]

theorem isEmpty_given_cons (condition : Bool) (entry : String × Value) (entries : Value.Fields) :
    (given condition (entry :: entries)).isEmpty = !condition := by
  cases condition <;> rfl

theorem given_names (alone : Bool) (host key : String) (value : Value) {other : String}
    (halone : "PasswordManagerEnabled" ≠ other) (hkey : key ≠ other) :
    ∀ entry ∈ given alone [("PasswordManagerEnabled", .bool false)] ++
      given (host ≠ "") [(key, value)], entry.1 ≠ other := by
  intro entry hentry
  rcases List.mem_append.mp hentry with hmem | hmem
  · cases alone with
    | false => simp [given] at hmem
    | true =>
        obtain rfl : entry = ("PasswordManagerEnabled", .bool false) := by simpa [given] using hmem
        exact halone
  · unfold given at hmem
    split at hmem
    · rw [List.mem_singleton.mp hmem]
      exact hkey
    · cases hmem

/-- Third-party policies let the extension in wherever the setting offers it. -/
def LetsIn (browser : Value) (manager : Value.Fields) (vaultUrl : String) : Prop :=
  (offers manager vaultUrl "firefox" = true → Mergeable (policies browser "firefox") "Extensions") ∧
    (offers manager vaultUrl "chromium" = true →
      Mergeable (policies browser "chromium") "extensions")

/-- The extension added to both browsers. -/
def addBoth (browser : Value) (manager : Value.Fields) (vaultUrl consoleUrl : String) :
    Except Raised Value := do
  let vault := managerVault manager vaultUrl
  let host := consoleHost consoleUrl
  let alone := isOn manager "disable_browser_managers"
  let browser ← addExtension browser "firefox"
    (given (offers manager vaultUrl "firefox") (firefoxAddition vault host alone))
  addExtension browser "chromium"
    (given (offers manager vaultUrl "chromium") (chromiumAddition vault host alone))

theorem addBoth_cases (h : Browsers browser) (manager : Value.Fields)
    (vaultUrl consoleUrl : String) :
    (LetsIn browser manager vaultUrl ∧ ∃ last,
        addBoth browser manager vaultUrl consoleUrl = .ok last ∧ Browsers last) ∨
      ¬ LetsIn browser manager vaultUrl ∧ ∃ raised,
        addBoth browser manager vaultUrl consoleUrl = .error raised := by
  have hfirefox := addExtension_cases h "firefox" "Extensions"
    ("ExtensionSettings", record [(bitwardenFirefoxId,
      record [("installation_mode", .str "force_installed"),
        ("install_url", .str bitwardenFirefoxXpi)])]) (by decide)
    [(bitwardenFirefoxId, environment (managerVault manager vaultUrl))]
    (given_names (isOn manager "disable_browser_managers") (consoleHost consoleUrl)
      "Authentication" (record [("SPNEGO", texts [consoleHost consoleUrl])]) (by decide) (by decide))
    (offers manager vaultUrl "firefox")
  rcases hfirefox with ⟨hmergeable, next, hnext, hbrowsers, hothers⟩ | ⟨⟨hon, hnot⟩, raised, hraised⟩
  · have hchromium := addExtension_cases hbrowsers "chromium" "extensions"
      ("ExtensionInstallForcelist",
        texts [bitwardenChromeId ++ ";https://clients2.google.com/service/update2/crx"])
      (by decide) [(bitwardenChromeId, environment (managerVault manager vaultUrl))]
      (given_names (isOn manager "disable_browser_managers") (consoleHost consoleUrl)
        "AuthServerAllowlist" (.str (consoleHost consoleUrl)) (by decide) (by decide))
      (offers manager vaultUrl "chromium")
    rw [hothers "chromium" (by decide)] at hchromium
    rcases hchromium with ⟨hmergeable', last, hlast, hbrowsers', _⟩ |
      ⟨⟨hon, hnot⟩, raised, hraised⟩
    · exact .inl ⟨⟨hmergeable, hmergeable'⟩, last, (congrArg (· >>= _) hnext).trans hlast,
        hbrowsers'⟩
    · exact .inr ⟨fun hlets => hnot (hlets.2 hon), raised,
        (congrArg (· >>= _) hnext).trans hraised⟩
  · exact .inr ⟨fun hlets => hnot (hlets.1 hon), raised, congrArg (· >>= _) hraised⟩

theorem foldManager_obj {settings manager : Value.Fields}
    (hget : Dict.get settings "password_manager" = some (.obj manager)) (hmanager : manager ≠ [])
    (browser : Value) (vaultUrl consoleUrl : String) :
    ∃ part, foldManager settings browser vaultUrl consoleUrl =
      (fun last => (Dict.set settings "password_manager" part, last,
        offers manager vaultUrl "firefox" || offers manager vaultUrl "chromium")) <$>
        addBoth browser manager vaultUrl consoleUrl := by
  have htruthy : (Value.obj manager).truthy = true := by simpa [Value.truthy] using hmanager
  have hextension := passwordManagerExtension_obj manager vaultUrl consoleUrl
  refine ⟨record [("vault_url", managerVault manager vaultUrl),
    ("desktop_app", .bool ((Dict.get manager "desktop_app").getD .null).truthy)], ?_⟩
  unfold managerVault at hextension
  simp only [foldManager, hget, Option.getD_some, htruthy, Value.get, hextension, addBoth,
    managerVault, bind, Except.bind, pure, Except.pure, Bool.not_true, Bool.false_eq_true, if_false,
    Functor.map, Except.map, firefoxAddition, chromiumAddition, isEmpty_given_cons, Bool.not_not]
  split
  · rfl
  · split <;> rfl

/-- What the browsers of some settings have; a missing or empty document counts as none. -/
def browserOf (settings : Value.Fields) : Value :=
  orElse ((Dict.get settings "browser").getD .null) (.obj [])

/-- Nothing in the browsers' policies is in the way of a password-manager setting. -/
def ManagerLetIn (settings : Value.Fields) (browser : Value) (vaultUrl : String) : Prop :=
  ∀ manager, Dict.get settings "password_manager" = some (.obj manager) → manager ≠ [] →
    LetsIn browser manager vaultUrl

theorem foldManager_cases {settings : Value.Fields}
    (hmanager : ∀ value, Dict.get settings "password_manager" = some value → value.isObj = true)
     (h : Browsers browser) (vaultUrl consoleUrl : String) :
    (ManagerLetIn settings browser vaultUrl ∧ ∃ next last changed,
        foldManager settings browser vaultUrl consoleUrl = .ok (next, last, changed) ∧
        Browsers last ∧
        ∀ key, key ≠ "password_manager" → Dict.get next key = Dict.get settings key) ∨
      ¬ ManagerLetIn settings browser vaultUrl ∧ ∃ raised,
        foldManager settings browser vaultUrl consoleUrl = .error raised := by
  have hskip : ((Dict.get settings "password_manager").getD .null).truthy = false →
      foldManager settings browser vaultUrl consoleUrl = .ok (settings, browser, false) := by
    intro hfalse
    simp [foldManager, hfalse, pure, Except.pure]
  cases hget : Dict.get settings "password_manager" with
  | none =>
      refine .inl ⟨fun manager hsome => ?_, settings, browser, false, hskip (by rw [hget]; rfl), h,
        fun _ _ => rfl⟩
      rw [hget] at hsome
      cases hsome
  | some value =>
      obtain ⟨manager, rfl⟩ := eq_obj_of_isObj (hmanager value hget)
      by_cases hempty : manager = []
      · subst hempty
        refine .inl ⟨fun manager hsome hne => ?_, settings, browser, false,
          hskip (by rw [hget]; rfl), h, fun _ _ => rfl⟩
        rw [hget] at hsome
        exact absurd (Value.obj.inj (Option.some.inj hsome)).symm hne
      · have hiff : ManagerLetIn settings browser vaultUrl ↔ LetsIn browser manager vaultUrl := by
          constructor
          · intro hlet
            exact hlet manager hget hempty
          · intro hlet other hother _
            rw [hget] at hother
            cases hother
            exact hlet
        obtain ⟨part, hfold⟩ := foldManager_obj hget hempty browser vaultUrl consoleUrl
        rw [hiff, hfold]
        rcases addBoth_cases h manager vaultUrl consoleUrl with ⟨hlet, last, hlast, hbrowsers⟩ |
          ⟨hnot, raised, hraised⟩
        · refine .inl ⟨hlet, _, last, _, by rw [hlast]; rfl, hbrowsers, fun key hkey => ?_⟩
          exact Dict.get_set_of_ne _ _ (Ne.symm hkey)
        · exact .inr ⟨hnot, raised, by rw [hraised]; rfl⟩

variable [Runtime]

/-- The typed settings of a browser, if there are any, read as such. -/
def TypedAt (settings : Value.Fields) (category : String) : Prop :=
  ∀ value, Dict.get settings category = some value → value.truthy = true →
    ∃ s, (parseFields value).bind Settings.validate = some s

/-- The native policies of a browser's typed settings. -/
def native (settings : Value.Fields) (category : String) (translate : Settings → Value.Fields) :
    Value.Fields :=
  let raw := (Dict.get settings category).getD .null
  if raw.truthy then (((parseFields raw).bind Settings.validate).map translate).getD [] else []

theorem foldBrowser_ok {settings : Value.Fields} {key : String} (htyped : TypedAt settings key)
    {browser : Value} (h : Browsers browser) (name : String)
    (translate : Settings → Value.Fields) (changed : Bool) :
    ∃ last changed', foldBrowser key name translate (settings, browser, changed) =
        .ok (Dict.erase settings key, last, changed') ∧ Browsers last ∧
      policies last name = Dict.update (policies browser name) (native settings key translate) ∧
      (∀ other, other ≠ name → policies last other = policies browser other) ∧
      (changed' = false → last = browser ∧ changed = false) := by
  have hskip : native settings key translate = [] → policies browser name =
      Dict.update (policies browser name) (native settings key translate) := by
    intro hnil
    rw [hnil]
    rfl
  cases hget : Dict.get settings key with
  | none =>
      exact ⟨browser, changed, by simp [foldBrowser, hget, Value.truthy, pure, Except.pure], h,
        hskip (by simp [native, hget, Value.truthy]), fun _ _ => rfl, fun hfalse => ⟨rfl, hfalse⟩⟩
  | some value =>
      by_cases htruthy : value.truthy = true
      · obtain ⟨s, hs⟩ := htyped value hget htruthy
        have htranslated : native settings key translate = translate s := by
          simp [native, hget, htruthy, hs]
        by_cases hnative : (translate s).isEmpty = true
        · refine ⟨browser, changed, ?_, h, hskip ?_, fun _ _ => rfl, fun hfalse => ⟨rfl, hfalse⟩⟩
          · simp only [foldBrowser, hget, Option.getD_some, htruthy, hs, hnative, Bool.not_true,
              Bool.false_eq_true, if_false, if_true]
            rfl
          · rw [htranslated, List.isEmpty_iff.mp hnative]
        · obtain ⟨current, own, hcurrent, hown, hpolicies⟩ : ∃ current own,
              browser.get name = .ok current ∧ (current.getD (.obj [])).spread = .ok own ∧
                policies browser name = own := by
            rcases h.get name with ⟨fields, rfl, hnone, hempty⟩ | ⟨fields, hfields, hsome⟩
            · exact ⟨none, [], by rw [Value.get, hnone], rfl, hempty⟩
            · exact ⟨_, policies browser name, by rw [hfields, Value.get], by rw [hsome]; rfl, rfl⟩
          obtain ⟨last, hlast, hbrowsers, hlastOwn, hothers⟩ :=
            h.setItem name (Dict.update own (translate s))
          refine ⟨last, true, ?_, hbrowsers, ?_, hothers, fun hfalse => by cases hfalse⟩
          · simp only [foldBrowser, hget, Option.getD_some, htruthy, hs, hnative, hcurrent, hown,
              hlast, bind, Except.bind, pure, Except.pure, Bool.not_true, Bool.false_eq_true,
              if_false]
          · rw [hlastOwn, hpolicies, htranslated]
      · refine ⟨browser, changed, by simp [foldBrowser, hget, htruthy, pure, Except.pure], h,
          hskip ?_, fun _ _ => rfl, fun hfalse => ⟨rfl, hfalse⟩⟩
        simp [native, hget, htruthy]

theorem fold_cases {settings : Value.Fields}
    (hbrowser : ∀ value, Dict.get settings "browser" = some value → Browsers value)
    (hmanager : ∀ value, Dict.get settings "password_manager" = some value → value.isObj = true)
    (hfirefox : TypedAt settings "firefox_policy")
    (hchromium : TypedAt settings "chromium_policy") (vaultUrl consoleUrl : String) :
    (ManagerLetIn settings (browserOf settings) vaultUrl ∧ ∃ next,
        fold settings vaultUrl consoleUrl = .ok next ∧
        (∀ value, Dict.get next "browser" = some value → Browsers value) ∧
        ∀ key, key ∉ ["browser", "password_manager", "firefox_policy", "chromium_policy"] →
          Dict.get next key = Dict.get settings key) ∨
      ¬ ManagerLetIn settings (browserOf settings) vaultUrl ∧ ∃ raised,
        fold settings vaultUrl consoleUrl = .error raised := by
  have hbrowsers : Browsers (browserOf settings) := by
    unfold browserOf orElse
    split
    · rename_i htruthy
      cases hget : Dict.get settings "browser" with
      | none => simp [hget, Value.truthy] at htruthy
      | some value => exact hbrowser value hget
    · exact browsers_empty
  unfold fold
  rcases foldManager_cases hmanager hbrowsers vaultUrl consoleUrl with
    ⟨hlet, next, last, changed, hnext, hlast, hframe⟩ | ⟨hnot, raised, hraised⟩
  · have hfirefox' : TypedAt next "firefox_policy" := by
      unfold TypedAt
      rw [hframe _ (by decide)]
      exact hfirefox
    obtain ⟨last', changed', hnext', hlast', _⟩ :=
      foldBrowser_ok hfirefox' hlast "firefox" firefox changed
    have hchromium' : TypedAt (Dict.erase next "firefox_policy") "chromium_policy" := by
      unfold TypedAt
      rw [Dict.get_erase, if_neg (by decide), hframe _ (by decide)]
      exact hchromium
    obtain ⟨last'', changed'', hnext'', hlast'', _⟩ :=
      foldBrowser_ok hchromium' hlast' "chromium" chromium changed'
    have hkept : ∀ key, key ∉ ["password_manager", "firefox_policy", "chromium_policy"] →
        Dict.get (Dict.erase (Dict.erase next "firefox_policy") "chromium_policy") key =
          Dict.get settings key := by
      intro key hkey
      simp only [List.mem_cons, List.not_mem_nil, or_false, not_or] at hkey
      rw [Dict.get_erase, if_neg (Ne.symm hkey.2.2), Dict.get_erase, if_neg (Ne.symm hkey.2.1),
        hframe key hkey.1]
    refine .inl ⟨hlet, if changed'' then
        Dict.set (Dict.erase (Dict.erase next "firefox_policy") "chromium_policy") "browser" last''
      else Dict.erase (Dict.erase next "firefox_policy") "chromium_policy", ?_, ?_, ?_⟩
    · simp only [browserOf] at hnext
      simp only [hnext, hnext', hnext'', bind, Except.bind, pure, Except.pure]
    · intro value hvalue
      split at hvalue
      · rw [Dict.get_set_self] at hvalue
        exact Option.some.inj hvalue ▸ hlast''
      · rw [hkept _ (by decide)] at hvalue
        exact hbrowser value hvalue
    · intro key hkey
      obtain ⟨hne, hkey'⟩ := not_or.mp (mt List.mem_cons.mpr hkey)
      split
      · rw [Dict.get_set_of_ne _ _ (Ne.symm hne), hkept key hkey']
      · exact hkept key hkey'
  · refine .inr ⟨hnot, raised, ?_⟩
    simp only [browserOf] at hraised
    simp only [hraised, bind, Except.bind]

end OpenDirectory.Browser
