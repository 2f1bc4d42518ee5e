import OpenDirectory.BrowserFold
import OpenDirectory.Rsop

/-! What each step from the merged settings to the answered ones needs in order to end, and what it
leaves alone. -/

namespace OpenDirectory.Rsop

open Browser (Browsers policies browserOf eq_obj_of_isObj)

variable [Runtime]

section

omit [Runtime]

theorem browserOf_eq {settings : Value.Fields}
    (h : ∀ value, Dict.get settings "browser" = some value → Browsers value) :
    (Dict.get settings "browser").getD (.obj []) = browserOf settings := by
  unfold browserOf Browser.orElse
  cases hget : Dict.get settings "browser" with
  | none => rfl
  | some value =>
      obtain ⟨fields, rfl, _⟩ := h value hget
      cases fields <;> rfl

theorem browsers_browserOf {settings : Value.Fields}
    (h : ∀ value, Dict.get settings "browser" = some value → Browsers value) :
    Browsers (browserOf settings) := by
  rw [← browserOf_eq h]
  cases hget : Dict.get settings "browser" with
  | none => exact Browser.browsers_empty
  | some value => exact h value hget

theorem underlay_ok {browser : Value} (h : Browsers browser) (generated : String × Value.Fields)
    (hnodup : (Dict.keys (policies browser generated.1)).Nodup) :
    ∃ next, underlay browser generated = .ok next ∧ Browsers next ∧
      (∀ key, Dict.get (policies next generated.1) key =
        (Dict.get (policies browser generated.1) key).or (Dict.get generated.2 key)) ∧
      ∀ other, other ≠ generated.1 → policies next other = policies browser other := by
  obtain ⟨current, hcurrent, hspread⟩ : ∃ current, browser.get generated.1 = .ok current ∧
      (current.getD (.obj [])).spread = .ok (policies browser generated.1) := by
    rcases h.get generated.1 with ⟨fields, rfl, hnone, hempty⟩ | ⟨fields, hfields, hsome⟩
    · exact ⟨_, rfl, by rw [hnone, hempty]; rfl⟩
    · exact ⟨_, by rw [hfields, Value.get], by rw [hsome]; rfl⟩
  obtain ⟨next, hnext, hbrowsers, hown, hothers⟩ :=
    h.setItem generated.1 (Dict.update generated.2 (policies browser generated.1))
  refine ⟨next, ?_, hbrowsers, fun key => ?_, hothers⟩
  · simp only [underlay, hcurrent, hspread, bind, Except.bind]
    exact hnext
  · rw [hown, Dict.get_update hnodup]

theorem foldlM_underlay_ok {generated : List (String × Value.Fields)}
    (hgenerated : (Dict.keys generated).Nodup) {browser : Value} (h : Browsers browser)
    (hnodup : ∀ name, (Dict.keys (policies browser name)).Nodup) :
    ∃ next, generated.foldlM underlay browser = .ok next ∧ Browsers next ∧
      ∀ name key, Dict.get (policies next name) key = (Dict.get (policies browser name) key).or
        ((Dict.get generated name).bind (Dict.get · key)) := by
  suffices hgen : ∀ browser, Browsers browser →
      (∀ name ∈ Dict.keys generated, (Dict.keys (policies browser name)).Nodup) →
      ∃ next, generated.foldlM underlay browser = .ok next ∧ Browsers next ∧
        ∀ name key, Dict.get (policies next name) key = (Dict.get (policies browser name) key).or
          ((Dict.get generated name).bind (Dict.get · key)) from hgen browser h fun name _ => hnodup name
  clear h hnodup browser
  induction generated with
  | nil =>
      intro browser h _
      exact ⟨browser, rfl, h, fun name key => by simp⟩
  | cons first rest ih =>
      intro browser h hnodup
      simp only [Dict.keys, List.map_cons, List.nodup_cons] at hgenerated
      obtain ⟨middle, hmiddle, hbrowsers, hown, hothers⟩ :=
        underlay_ok h first (hnodup first.1 List.mem_cons_self)
      have hrest : ∀ name ∈ Dict.keys rest, name ≠ first.1 := by
        intro name hname heq
        exact hgenerated.1 (heq ▸ hname)
      obtain ⟨next, hnext, hbrowsers', hget⟩ := ih hgenerated.2 middle hbrowsers fun name hname => by
        rw [hothers name (hrest name hname)]
        exact hnodup name (.tail _ hname)
      refine ⟨next, by rw [List.foldlM_cons, hmiddle]; exact hnext, hbrowsers', fun name key => ?_⟩
      rw [hget, Dict.get_cons]
      by_cases hname : first.1 = name
      · subst hname
        have hnone : Dict.get rest first.1 = none := Dict.get_eq_none_iff.mpr hgenerated.1
        rw [hown, hnone]
        simp
      · rw [hothers name (Ne.symm hname), if_neg hname]

end

/-- What the templates make of a browser's policy. -/
def templated (definitions : List (String × Admx.Policy)) (selections : Value)
    (name key : String) : Option Value :=
  match Admx.expand selections definitions with
  | .ok expansion => (Dict.get expansion.1 name).bind (Dict.get · key)
  | .error _ => none

theorem applyAdmx_ok (definitions : List (String × Admx.Policy)) {settings : Value.Fields}
    {selections : List Value}
    (hselections : (Dict.get settings "admx").getD (.arr []) = .arr selections)
    (hselection : ∀ selection ∈ selections, Admx.Selection selection)
    (hbrowser : ∀ value, Dict.get settings "browser" = some value → Browsers value)
    (hnodup : ∀ name, (Dict.keys (policies (browserOf settings) name)).Nodup) :
    ∃ next notes, applyAdmx definitions settings = .ok (next, notes) ∧
      (∀ value, Dict.get next "browser" = some value → Browsers value) ∧
      (∀ key, key ≠ "admx" → key ≠ "browser" → Dict.get next key = Dict.get settings key) ∧
      ∀ name key, Dict.get (policies (browserOf next) name) key =
        (Dict.get (policies (browserOf settings) name) key).or
          (templated definitions (.arr selections) name key) := by
  have herased : ∀ key, key ≠ "admx" →
      Dict.get (Dict.erase settings "admx") key = Dict.get settings key := by
    intro key hkey
    rw [Dict.get_erase, if_neg (Ne.symm hkey)]
  have hsame := herased "browser" (by decide)
  obtain ⟨⟨generated, notes⟩, hexpand, hgenerated⟩ := Admx.expand_ok definitions hselection
  by_cases hempty : selections = []
  · subst hempty
    have hfalse : ((Dict.get settings "admx").getD .null).truthy = false := by
      cases hget : Dict.get settings "admx" with
      | none => rfl
      | some value =>
          rw [hget, Option.getD_some] at hselections
          rw [hselections]
          rfl
    refine ⟨Dict.erase settings "admx", [], ?_, ?_, fun key hkey _ => herased key hkey,
      fun name key => ?_⟩
    · simp [applyAdmx, hfalse, pure, Except.pure]
    · rw [hsame]
      exact hbrowser
    · have hnone : templated definitions (.arr []) name key = none := rfl
      rw [hnone, Option.or_none, browserOf, browserOf, hsame]
  · have hget : (Dict.get settings "admx").getD .null = .arr selections := by
      cases hget : Dict.get settings "admx" with
      | none =>
          rw [hget] at hselections
          exact absurd (Value.arr.inj hselections).symm hempty
      | some value =>
          rw [hget] at hselections
          exact hselections
    have htruthy : (Value.arr selections).truthy = true := by simpa [Value.truthy] using hempty
    obtain ⟨browser, hfold, hbrowsers, hpolicies⟩ :=
      foldlM_underlay_ok hgenerated (browsers_browserOf hbrowser) hnodup
    have hexpanded : ∀ name key, Dict.get (policies browser name) key =
        (Dict.get (policies (browserOf settings) name) key).or
          (templated definitions (.arr selections) name key) := by
      intro name key
      rw [hpolicies, templated, hexpand]
    have happly : applyAdmx definitions settings = .ok (if browser.truthy then
        Dict.set (Dict.erase settings "admx") "browser" browser
      else Dict.erase (Dict.erase settings "admx") "browser", notes) := by
      simp only [applyAdmx, hget, htruthy, hexpand, hsame, browserOf_eq hbrowser, hfold, bind,
        Except.bind, pure, Except.pure, Bool.not_true, Bool.false_eq_true, if_false]
      split <;> rfl
    refine ⟨_, notes, happly, fun value hvalue => ?_, fun key hkey hne => ?_,
      fun name key => ?_⟩
    · split at hvalue
      · rw [Dict.get_set_self] at hvalue
        exact Option.some.inj hvalue ▸ hbrowsers
      · rw [Dict.get_erase, if_pos rfl] at hvalue
        cases hvalue
    · split
      · rw [Dict.get_set_of_ne _ _ (Ne.symm hne), herased key hkey]
      · rw [Dict.get_erase, if_neg (Ne.symm hne), herased key hkey]
    · rw [← hexpanded]
      split
      · rename_i hbrowserTruthy
        rw [browserOf, Dict.get_set_self, Option.getD_some, Browser.orElse, if_pos hbrowserTruthy]
      · rename_i hbrowserFalse
        have hnone : policies browser name = [] := by
          by_contra hne
          exact hbrowserFalse (hbrowsers.truthy hne)
        rw [browserOf, Dict.get_erase, if_pos rfl, hnone]
        rfl

theorem attachVpn_ok (peers : List Peer) (dn : String) {settings : Value.Fields}
    (h : ∀ value, Dict.get settings "always_on_vpn" = some value → ∃ fields, value = .obj fields ∧
      ∀ tunnel, Dict.get fields "tunnel" = some tunnel → ∃ name, tunnel = .str name) :
    ∃ next, attachVpn peers dn settings = .ok next ∧
      ∀ key, key ≠ "always_on_vpn" → Dict.get next key = Dict.get settings key := by
  have hskip : ∃ next, Except.ok settings = (.ok next : Except Raised Value.Fields) ∧
      ∀ key, key ≠ "always_on_vpn" → Dict.get next key = Dict.get settings key :=
    ⟨settings, rfl, fun _ _ => rfl⟩
  unfold attachVpn
  cases hget : Dict.get settings "always_on_vpn" with
  | none => exact hskip
  | some value =>
      obtain ⟨fields, rfl, htunnel⟩ := h value hget
      cases hname : Dict.get fields "tunnel" with
      | none =>
          cases fields with
          | nil => exact hskip
          | cons => simp [Value.truthy, Value.get, hname, bind, Except.bind, pure, Except.pure]
      | some tunnel =>
          obtain ⟨name, rfl⟩ := htunnel tunnel hname
          have htruthy : (Value.obj fields).truthy = true := by
            cases fields with
            | nil => cases hname
            | cons => rfl
          by_cases hempty : name = ""
          · simp [hempty, Value.get, hname, Value.truthy, bind, Except.bind, pure,
              Except.pure]
          · have hset : ∀ key item, ∃ next, Except.ok (Dict.set settings "always_on_vpn"
                (.obj (Dict.set fields key item))) = (.ok next : Except Raised Value.Fields) ∧
                ∀ key, key ≠ "always_on_vpn" → Dict.get next key = Dict.get settings key :=
              fun key item => ⟨_, rfl, fun key hkey => Dict.get_set_of_ne _ _ (Ne.symm hkey)⟩
            have htunnelTruthy : (Value.str name).truthy = true := by simpa [Value.truthy]
            simp only [Option.getD_some, htruthy, Value.get, hname, htunnelTruthy, findPeer, bind,
              Except.bind, pure, Except.pure, Bool.not_true, Bool.false_eq_true, if_false]
            cases peers.find? fun peer => decide (peer.tunnel = name ∧
                lower peer.principalDn = lower dn) with
            | none => exact hset _ _
            | some peer =>
                dsimp only
                split <;> exact hset _ _

/-- The text under which the rows are asked for an entry's package. -/
def idText (item : Value) : String :=
  (Browser.orElse ((item.field "package_id").getD .null) (.str "")).text

/-- An entry's package can be asked for. -/
def Askable (item : Value) : Prop := idText item ≠ "" → (Runtime.uuid (idText item)).isSome

theorem packageId_obj {item : Value} (h : item.isObj = true) : packageId item = .ok (idText item) := by
  obtain ⟨fields, rfl⟩ := eq_obj_of_isObj h
  rfl

theorem fetchPackages_cases (packages : List Package) (ids : List String) :
    ((∀ id ∈ ids, (Runtime.uuid id).isSome) ∧ ∃ found, fetchPackages packages ids = .ok found) ∨
      (∃ id ∈ ids, ¬ (Runtime.uuid id).isSome) ∧
        ∃ raised, fetchPackages packages ids = .error raised := by
  unfold fetchPackages
  by_cases hall : ∀ id ∈ ids, (Runtime.uuid id).isSome
  · refine .inl ⟨hall, List.mapM_bind_ok fun id hid => ?_⟩
    obtain ⟨uuid, huuid⟩ := Option.isSome_iff_exists.mp (hall id hid)
    exact ⟨uuid, by rw [huuid]⟩
  · push Not at hall
    obtain ⟨id, hid, hnone⟩ := hall
    refine .inr ⟨⟨id, hid, hnone⟩, List.mapM_bind_error hid (e := .databaseError) ?_⟩
    rw [Option.not_isSome_iff_eq_none.mp hnone]

theorem describePackage_ok (found : List Package) {item : Value} (h : item.isObj = true) :
    ∃ described, describePackage found item = .ok described := by
  unfold describePackage
  rw [packageId_obj h]
  obtain ⟨fields, rfl⟩ := eq_obj_of_isObj h
  simp only [bind, Except.bind]
  split <;> exact ⟨_, rfl⟩

theorem attachCustomPackages_cases (packages : List Package) {settings : Value.Fields}
    {items : List Value} (hitems : (Dict.get settings "custom_packages").getD (.arr []) = .arr items)
    (h : ∀ item ∈ items, item.isObj = true) :
    ((∀ item ∈ items, Askable item) ∧ ∃ next, attachCustomPackages packages settings = .ok next ∧
        ∀ key, key ≠ "custom_packages" → Dict.get next key = Dict.get settings key) ∨
      ¬ (∀ item ∈ items, Askable item) ∧
        ∃ raised, attachCustomPackages packages settings = .error raised := by
  by_cases hempty : items = []
  · subst hempty
    have hfalse : ((Dict.get settings "custom_packages").getD .null).truthy = false := by
      cases hget : Dict.get settings "custom_packages" with
      | none => rfl
      | some value =>
          rw [hget, Option.getD_some] at hitems
          rw [hitems]
          rfl
    refine .inl ⟨by simp, settings, ?_, fun _ _ => rfl⟩
    simp [attachCustomPackages, hfalse, pure, Except.pure]
  · have hget : (Dict.get settings "custom_packages").getD .null = .arr items := by
      cases hget : Dict.get settings "custom_packages" with
      | none =>
          rw [hget] at hitems
          exact absurd (Value.arr.inj hitems).symm hempty
      | some value =>
          rw [hget] at hitems
          exact hitems
    have htruthy : (Value.arr items).truthy = true := by simpa [Value.truthy] using hempty
    have hids : items.mapM packageId = .ok (items.map idText) :=
      List.mapM_eq_ok_map fun item hitem => packageId_obj (h item hitem)
    have hrun : attachCustomPackages packages settings =
        if ((items.map idText).filter (· ≠ "")).isEmpty then .ok settings
        else fetchPackages packages ((items.map idText).filter (· ≠ "")) >>= fun found =>
          items.mapM (describePackage found) >>= fun described =>
            .ok (Dict.set settings "custom_packages" (.arr described)) := by
      simp only [attachCustomPackages, hget, htruthy, Value.iterate, hids, bind, Except.bind, pure,
        Except.pure, Bool.not_true, Bool.false_eq_true, if_false]
    have hasked : (∀ item ∈ items, Askable item) ↔
        ∀ id ∈ (items.map idText).filter (· ≠ ""), (Runtime.uuid id).isSome := by
      simp [Askable]
    rw [hrun, hasked]
    split
    · rename_i hnone
      refine .inl ⟨fun id hid => ?_, settings, rfl, fun _ _ => rfl⟩
      rw [List.isEmpty_iff.mp hnone] at hid
      cases hid
    · rcases fetchPackages_cases packages ((items.map idText).filter (· ≠ "")) with
        ⟨hall, found, hfound⟩ | ⟨⟨id, hid, hnone⟩, raised, hraised⟩
      · obtain ⟨described, hdescribed⟩ :=
          List.mapM_ok fun item hitem => describePackage_ok found (h item hitem)
        refine .inl ⟨hall, Dict.set settings "custom_packages" (.arr described), ?_,
          fun key hkey => Dict.get_set_of_ne _ _ (Ne.symm hkey)⟩
        simp only [hfound, hdescribed, bind, Except.bind]
      · refine .inr ⟨fun hall => hnone (hall id hid), raised, ?_⟩
        rw [hraised]
        rfl

/-- A list category that is missing or holds objects. -/
def ListedAt (settings : Value.Fields) (category : String) : Prop :=
  ∃ items, (Dict.get settings category).getD (.arr []) = .arr items ∧
    ∀ item ∈ items, item.isObj = true

section

omit [Runtime]

theorem anyM_ok {f : Value → Except Raised Bool} {items : List Value}
    (h : ∀ item ∈ items, ∃ found, f item = .ok found) : ∃ found, items.anyM f = .ok found := by
  induction items with
  | nil => exact ⟨false, rfl⟩
  | cons item items ih =>
      obtain ⟨found, hfound⟩ := h item List.mem_cons_self
      obtain ⟨rest, hrest⟩ := ih fun other hother => h other (.tail _ hother)
      cases found with
      | true => exact ⟨true, by simp [List.anyM, hfound, bind, Except.bind, pure, Except.pure]⟩
      | false => exact ⟨rest, by simp [List.anyM, hfound, hrest, bind, Except.bind]⟩

theorem addUnlessNamed_ok {settings : Value.Fields} {category : String}
    (h : ListedAt settings category) (key : String) (name entry : Value) :
    ∃ next, addUnlessNamed settings category key name entry = .ok next ∧
      ∀ other, other ≠ category → Dict.get next other = Dict.get settings other := by
  obtain ⟨items, hitems, hobj⟩ := h
  obtain ⟨found, hfound⟩ := @anyM_ok (fun item => do
    return decide ((← item.get key) = some name)) items fun item hitem => by
      obtain ⟨fields, rfl⟩ := eq_obj_of_isObj (hobj item hitem)
      exact ⟨_, rfl⟩
  have hkept : ∀ other, other ≠ category →
      Dict.get (Dict.setDefault settings category (.arr [])) other = Dict.get settings other := by
    intro other hother
    rw [Dict.get_setDefault, if_neg (Ne.symm hother)]
  unfold addUnlessNamed
  simp only [bind, Except.bind, pure, Except.pure] at hfound
  simp only [hitems, Value.iterate, hfound, append, bind, Except.bind, pure, Except.pure]
  cases found with
  | true => exact ⟨_, rfl, hkept⟩
  | false =>
      refine ⟨_, rfl, fun other hother => ?_⟩
      rw [Dict.get_set_of_ne _ _ (Ne.symm hother), hkept other hother]

theorem listRoot_ok (root : String) (own : Value.Fields) :
    ∃ own', listRoot root (.obj own) = .ok (.obj own') := by
  unfold listRoot
  cases hget : Dict.get own "CACertificates" with
  | none =>
      rw [Value.setDefault, hget]
      exact ⟨_, rfl⟩
  | some listed =>
      rw [Value.setDefault, hget]
      cases listed with
      | arr items =>
          by_cases hroot : Value.str root ∈ items
          · exact ⟨own, if_pos hroot⟩
          · exact ⟨_, if_neg hroot⟩
      | _ => exact ⟨own, rfl⟩

theorem trustInBrowsers_ok (root : String) {settings : Value.Fields}
    (h : ∀ value, Dict.get settings "browser" = some value → Browsers value) :
    ∃ next, trustInBrowsers root settings = .ok next ∧
      ∀ key, key ≠ "browser" → Dict.get next key = Dict.get settings key := by
  obtain ⟨browser, hbrowser, hbrowsers, _⟩ := (browsers_browserOf h).setDefault "chromium"
  obtain ⟨own, hown⟩ := listRoot_ok root (policies (browserOf settings) "chromium")
  obtain ⟨next, hnext, hnextBrowsers, _⟩ := hbrowsers.setItem "chromium" own
  obtain ⟨last, hlast, _⟩ := hnextBrowsers.setDefault "firefox"
  refine ⟨Dict.set settings "browser" last, ?_, fun key hkey => Dict.get_set_of_ne _ _ (Ne.symm hkey)⟩
  simp only [trustInBrowsers, browserOf_eq h, hbrowser, hown, hnext, hlast, bind, Except.bind, pure,
    Except.pure]

theorem trustAuthority_ok (root : String) (wanted : Value.Fields) {settings : Value.Fields}
    (hanchors : ListedAt settings "trusted_certificates")
    (hbrowser : ∀ value, Dict.get settings "browser" = some value → Browsers value) :
    ∃ next, trustAuthority root (.obj wanted) settings = .ok next ∧
      Dict.get next "certificate_enrolment" = Dict.get settings "certificate_enrolment" := by
  obtain ⟨trusted, htrusted, hframe⟩ := addUnlessNamed_ok hanchors "name" (.str "domain-authority")
    (.obj [("name", .str "domain-authority"), ("certificate_pem", .str root)])
  have hbrowser' : ∀ value, Dict.get trusted "browser" = some value → Browsers value := by
    rw [hframe "browser" (by decide)]
    exact hbrowser
  obtain ⟨next, hnext, hframe'⟩ := trustInBrowsers_ok root hbrowser'
  unfold trustAuthority
  simp only [htrusted, Browser.switchedOn_obj, bind, Except.bind, pure, Except.pure]
  split
  · exact ⟨next, hnext, by rw [hframe' _ (by decide), hframe _ (by decide)]⟩
  · exact ⟨trusted, rfl, hframe _ (by decide)⟩

theorem enrolMachine_ok (wanted : Value.Fields) {settings : Value.Fields}
    (h : ListedAt settings "certificate_enrolment") :
    ∃ next, enrolMachine (.obj wanted) settings = .ok next := by
  unfold enrolMachine
  simp only [Value.get, bind, Except.bind, pure, Except.pure]
  split
  · exact ⟨_, rfl⟩
  · obtain ⟨next, hnext, _⟩ := addUnlessNamed_ok h "profile" (.str "client") _
    exact ⟨next, hnext⟩

theorem attachCertificates_ok (rootPem : String) {settings : Value.Fields}
    (h : ∀ value, Dict.get settings "certificates" = some value → value.isObj = true)
    (hanchors : ListedAt settings "trusted_certificates")
    (henrolments : ListedAt settings "certificate_enrolment")
    (hbrowser : ∀ value, Dict.get settings "browser" = some value → Browsers value) :
    ∃ next, attachCertificates rootPem settings = .ok next := by
  unfold attachCertificates
  cases hget : Dict.get settings "certificates" with
  | none => exact ⟨settings, rfl⟩
  | some value =>
      obtain ⟨wanted, rfl⟩ := eq_obj_of_isObj (h value hget)
      simp only [Option.getD_some, Browser.switchedOn_obj, Value.setItem, bind, Except.bind, pure,
        Except.pure]
      split
      · exact ⟨settings, rfl⟩
      · split
        · apply enrolMachine_ok
          unfold ListedAt
          rw [Dict.get_set_of_ne _ _ (by decide)]
          exact henrolments
        · split
          · obtain ⟨trusted, htrusted, hsame⟩ := trustAuthority_ok rootPem wanted hanchors hbrowser
            rw [htrusted]
            apply enrolMachine_ok
            unfold ListedAt
            rw [hsame]
            exact henrolments
          · exact enrolMachine_ok wanted henrolments

end

end OpenDirectory.Rsop
