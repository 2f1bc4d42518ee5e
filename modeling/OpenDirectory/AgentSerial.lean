import OpenDirectory.AgentPolicy
import OpenDirectory.Answered

/-! What an equal serial promises. The serial is taken before the name a machine should take is
written into the settings, so equal serials mean equal settings exactly when the two answers assign
the same name. -/

namespace OpenDirectory.Rsop

variable [Runtime]

/-- The categories resolving may write or take out. -/
def resolved : List String := ["admx", "browser", "password_manager", "firefox_policy",
  "chromium_policy", "always_on_vpn", "custom_packages", "certificates", "trusted_certificates",
  "certificate_enrolment"]

section

omit [Runtime]

theorem frame_foldManager {settings next : Value.Fields} {browser last : Value}
    {vaultUrl consoleUrl : String} {changed : Bool}
    (h : Browser.foldManager settings browser vaultUrl consoleUrl = .ok (next, last, changed)) :
    Dict.Frame resolved settings next := by
  unfold Browser.foldManager at h
  dsimp only at h
  split at h
  · cases h
    exact Dict.Frame.refl _ _
  · obtain ⟨_, _, h⟩ := Except.bind_eq_ok.mp h
    obtain ⟨_, _, h⟩ := Except.bind_eq_ok.mp h
    obtain ⟨_, _, h⟩ := Except.bind_eq_ok.mp h
    obtain ⟨_, _, h⟩ := Except.bind_eq_ok.mp h
    obtain ⟨_, _, h⟩ := Except.bind_eq_ok.mp h
    cases h
    exact Dict.Frame.set _ (by decide) _

end

theorem frame_applyAdmx {definitions : List (String × Admx.Policy)} {settings next : Value.Fields}
    {notes : List Value} (h : applyAdmx definitions settings = .ok (next, notes)) :
    Dict.Frame resolved settings next := by
  have herase := Dict.Frame.erase settings (show "admx" ∈ resolved by decide)
  unfold applyAdmx at h
  dsimp only at h
  split at h
  · cases h
    exact herase
  · obtain ⟨_, _, h⟩ := Except.bind_eq_ok.mp h
    obtain ⟨_, _, h⟩ := Except.bind_eq_ok.mp h
    split at h
    · cases h
      exact herase.trans (Dict.Frame.set _ (by decide) _)
    · cases h
      exact herase.trans (Dict.Frame.erase _ (by decide))

theorem frame_foldBrowser {key name : String} (hkey : key ∈ resolved)
    {translate : Browser.Settings → Value.Fields} {settings next : Value.Fields}
    {browser last : Value} {changed changed' : Bool}
    (h : Browser.foldBrowser key name translate (settings, browser, changed) =
      .ok (next, last, changed')) : Dict.Frame resolved settings next := by
  have herase := Dict.Frame.erase settings hkey
  unfold Browser.foldBrowser at h
  dsimp only at h
  split at h
  · cases h
    exact herase
  · split at h
    · split at h
      · cases h
        exact herase
      · obtain ⟨_, _, h⟩ := Except.bind_eq_ok.mp h
        obtain ⟨_, _, h⟩ := Except.bind_eq_ok.mp h
        obtain ⟨_, _, h⟩ := Except.bind_eq_ok.mp h
        cases h
        exact herase
    · cases h

theorem frame_fold {settings next : Value.Fields} {vaultUrl consoleUrl : String}
    (h : Browser.fold settings vaultUrl consoleUrl = .ok next) :
    Dict.Frame resolved settings next := by
  unfold Browser.fold at h
  obtain ⟨⟨_, _, _⟩, hmanager, h⟩ := Except.bind_eq_ok.mp h
  obtain ⟨⟨_, _, _⟩, hfirefox, h⟩ := Except.bind_eq_ok.mp h
  obtain ⟨⟨settings', _, changed⟩, hchromium, h⟩ := Except.bind_eq_ok.mp h
  have hframe := (frame_foldManager hmanager).trans
    ((frame_foldBrowser (by decide) hfirefox).trans (frame_foldBrowser (by decide) hchromium))
  cases changed with
  | true =>
      cases h
      exact hframe.trans (Dict.Frame.set _ (by decide) _)
  | false =>
      cases h
      exact hframe

theorem frame_attachVpn {peers : List Peer} {dn : String} {settings next : Value.Fields}
    (h : attachVpn peers dn settings = .ok next) : Dict.Frame resolved settings next := by
  have hset : ∀ {item : Except Raised Value},
      (do let alwaysOn ← item; pure (Dict.set settings "always_on_vpn" alwaysOn)) = .ok next →
        Dict.Frame resolved settings next := by
    intro item hitem
    obtain ⟨_, _, hitem⟩ := Except.bind_eq_ok.mp hitem
    cases hitem
    exact Dict.Frame.set _ (by decide) _
  unfold attachVpn at h
  dsimp only at h
  split at h
  · cases h
    exact Dict.Frame.refl _ _
  · obtain ⟨_, _, h⟩ := Except.bind_eq_ok.mp h
    split at h
    · cases h
      exact Dict.Frame.refl _ _
    · obtain ⟨found, _, h⟩ := Except.bind_eq_ok.mp h
      split at h
      · split at h <;> exact hset h
      · exact hset h

theorem frame_attachCustomPackages {packages : List Package} {settings next : Value.Fields}
    (h : attachCustomPackages packages settings = .ok next) : Dict.Frame resolved settings next := by
  unfold attachCustomPackages at h
  dsimp only at h
  split at h
  · cases h
    exact Dict.Frame.refl _ _
  · obtain ⟨_, _, h⟩ := Except.bind_eq_ok.mp h
    obtain ⟨_, _, h⟩ := Except.bind_eq_ok.mp h
    split at h
    · cases h
      exact Dict.Frame.refl _ _
    · obtain ⟨_, _, h⟩ := Except.bind_eq_ok.mp h
      obtain ⟨_, _, h⟩ := Except.bind_eq_ok.mp h
      cases h
      exact Dict.Frame.set _ (by decide) _

section

omit [Runtime]

theorem frame_addUnlessNamed {settings next : Value.Fields} {category key : String}
    {name entry : Value} (hcategory : category ∈ resolved)
    (h : addUnlessNamed settings category key name entry = .ok next) :
    Dict.Frame resolved settings next := by
  have hdefault := Dict.Frame.setDefault settings hcategory (Value.arr [])
  unfold addUnlessNamed at h
  dsimp only at h
  obtain ⟨_, _, h⟩ := Except.bind_eq_ok.mp h
  obtain ⟨_, _, h⟩ := Except.bind_eq_ok.mp h
  split at h
  · cases h
    exact hdefault
  · obtain ⟨_, _, h⟩ := Except.bind_eq_ok.mp h
    cases h
    exact hdefault.trans (Dict.Frame.set _ hcategory _)

theorem frame_trustInBrowsers {root : String} {settings next : Value.Fields}
    (h : trustInBrowsers root settings = .ok next) : Dict.Frame resolved settings next := by
  unfold trustInBrowsers at h
  dsimp only at h
  obtain ⟨_, _, h⟩ := Except.bind_eq_ok.mp h
  obtain ⟨_, _, h⟩ := Except.bind_eq_ok.mp h
  obtain ⟨_, _, h⟩ := Except.bind_eq_ok.mp h
  obtain ⟨_, _, h⟩ := Except.bind_eq_ok.mp h
  cases h
  exact Dict.Frame.set _ (by decide) _

theorem frame_trustAuthority {root : String} {wanted : Value} {settings next : Value.Fields}
    (h : trustAuthority root wanted settings = .ok next) : Dict.Frame resolved settings next := by
  unfold trustAuthority at h
  obtain ⟨_, hadd, h⟩ := Except.bind_eq_ok.mp h
  have hframe := frame_addUnlessNamed (by decide) hadd
  obtain ⟨_, _, h⟩ := Except.bind_eq_ok.mp h
  split at h
  · exact hframe.trans (frame_trustInBrowsers h)
  · cases h
    exact hframe

theorem frame_enrolMachine {wanted : Value} {settings next : Value.Fields}
    (h : enrolMachine wanted settings = .ok next) : Dict.Frame resolved settings next := by
  unfold enrolMachine at h
  obtain ⟨_, _, h⟩ := Except.bind_eq_ok.mp h
  split at h
  · cases h
    exact Dict.Frame.refl _ _
  · obtain ⟨_, _, h⟩ := Except.bind_eq_ok.mp h
    exact frame_addUnlessNamed (by decide) h

theorem frame_attachCertificates {rootPem : String} {settings next : Value.Fields}
    (h : attachCertificates rootPem settings = .ok next) : Dict.Frame resolved settings next := by
  unfold attachCertificates at h
  dsimp only at h
  split at h
  · cases h
    exact Dict.Frame.refl _ _
  · split at h
    · obtain ⟨_, _, h⟩ := Except.bind_eq_ok.mp h
      exact (Dict.Frame.set _ (by decide) _).trans (frame_enrolMachine h)
    · obtain ⟨_, _, h⟩ := Except.bind_eq_ok.mp h
      split at h
      · obtain ⟨_, htrust, h⟩ := Except.bind_eq_ok.mp h
        exact (frame_trustAuthority htrust).trans (frame_enrolMachine h)
      · exact frame_enrolMachine h

end

theorem frame_resolve {plane : Plane} {dn : String} {merged settings : Value.Fields}
    {notes : List Value} (h : resolve plane dn merged = .ok (settings, notes)) :
    Dict.Frame resolved merged settings := by
  unfold resolve at h
  obtain ⟨⟨_, _⟩, hadmx, h⟩ := Except.bind_eq_ok.mp h
  obtain ⟨_, hfold, h⟩ := Except.bind_eq_ok.mp h
  obtain ⟨_, hvpn, h⟩ := Except.bind_eq_ok.mp h
  obtain ⟨_, hpackages, h⟩ := Except.bind_eq_ok.mp h
  obtain ⟨_, hcertificates, h⟩ := Except.bind_eq_ok.mp h
  cases h
  exact (frame_applyAdmx hadmx).trans ((frame_fold hfold).trans ((frame_attachVpn hvpn).trans
    ((frame_attachCustomPackages hpackages).trans (frame_attachCertificates hcertificates))))

end OpenDirectory.Rsop

namespace OpenDirectory.Policy

variable [Runtime]

/-- Settings the schema accepted, as far as naming a machine looks into them. -/
structure Gpo.Named (gpo : Gpo) : Prop where
  shaped : gpo.Shaped
  unnamed : Dict.get gpo.settings "hostname" = none
  template : ∀ value, Dict.get gpo.settings "computer_names" = some value →
    ∃ fields text, value = .obj fields ∧ Dict.get fields "template" = some (.str text)

variable {target : Option Target} {merged : Value.Fields} {gpos : List Gpo}

theorem nodup_mergeGpo {last : Value.Fields} {gpo : Gpo}
    (hmerged : (Dict.keys merged).Nodup) (h : mergeGpo target merged gpo = .ok last) :
    (Dict.keys last).Nodup := by
  refine List.foldlM_keeps (fun merged : Value.Fields => (Dict.keys merged).Nodup)
    (fun merged entry next _ hmerged hstep => ?_) hmerged h
  obtain ⟨value, _, hstep⟩ := Except.bind_eq_ok.mp hstep
  cases hstep
  exact Dict.nodup_keys_set hmerged _ _

theorem nodup_mergeSettings
    (h : mergeSettings gpos target = .ok merged) : (Dict.keys merged).Nodup := by
  obtain ⟨gathered, hgathered, h⟩ := Except.bind_eq_ok.mp h
  have hnodup : (Dict.keys gathered).Nodup :=
    List.foldlM_keeps (fun merged : Value.Fields => (Dict.keys merged).Nodup)
      (fun _ _ _ _ hmerged hstep => nodup_mergeGpo hmerged hstep)
      (show (Dict.keys ([] : Value.Fields)).Nodup from List.nodup_nil) hgathered
  refine List.foldlM_keeps (fun merged : Value.Fields => (Dict.keys merged).Nodup)
    (fun merged category next _ hmerged hstep => ?_) hnodup h
  unfold finishList at hstep
  split at hstep
  · cases hstep
    exact hmerged
  · obtain ⟨_, _, hstep⟩ := Except.map_eq_ok.mp hstep
    cases hstep
    exact Dict.nodup_keys_set hmerged _ _

theorem hostname_merged (h : ∀ gpo ∈ gpos, gpo.Named)
     (hmerged : mergeSettings gpos target = .ok merged) :
    Dict.get merged "hostname" = none := by
  have hnone : carried gpos "hostname" = [] := by
    apply List.eq_nil_iff_forall_not_mem.mpr
    intro value hvalue
    obtain ⟨gpo, hgpo, hget⟩ := mem_carried.mp hvalue
    rw [(h gpo hgpo).unnamed] at hget
    cases hget
  rw [get_merged_other hmerged (by decide) (by decide), hnone]
  rfl

/-- The template in force, none or the empty text where no object names machines. -/
def templateText (gpos : List Gpo) : String :=
  match lastField gpos "computer_names" "template" with
  | some (.str text) => text
  | _ => ""

theorem lastField_template (h : ∀ gpo ∈ gpos, gpo.Named) :
    (∃ text, lastField gpos "computer_names" "template" = some (.str text)) ∨
      lastField gpos "computer_names" "template" = none := by
  cases hlast : lastField gpos "computer_names" "template" with
  | none => exact .inr rfl
  | some value =>
      obtain ⟨gpo, hgpo, fields, hget, hfield⟩ := mem_fieldsAt (List.mem_of_getLast? hlast)
      obtain ⟨fields', text, heq, htext⟩ := (h gpo hgpo).template _ hget
      cases heq
      rw [htext] at hfield
      exact .inl ⟨text, congrArg some (Option.some.inj hfield).symm⟩

theorem nameTemplate_merged (h : ∀ gpo ∈ gpos, gpo.Named)
     {settings : Value.Fields}
    (hmerged : mergeSettings gpos target = .ok merged)
    (hsame : Dict.get settings "computer_names" = Dict.get merged "computer_names") :
    AgentPolicy.nameTemplate settings =
      .ok ((lastField gpos "computer_names" "template").getD .null) := by
  have hplain : ∀ value ∈ fieldsAt gpos "computer_names" "template", value.isObj = false := by
    intro value hvalue
    obtain ⟨gpo, hgpo, fields, hget, hfield⟩ := mem_fieldsAt hvalue
    obtain ⟨fields', text, heq, htext⟩ := (h gpo hgpo).template _ hget
    cases heq
    rw [htext] at hfield
    rw [← Option.some.inj hfield]
    rfl
  unfold AgentPolicy.nameTemplate
  rw [hsame]
  rcases get_merged_dict (fun gpo hgpo => (h gpo hgpo).shaped) hmerged
    (show "computer_names" ∈ dictCategories by decide) with ⟨hnone, hget⟩ | ⟨_, fields, hget, hfields⟩
  · rw [hget, lastField, fieldsAt, hnone]
    rfl
  · have htemplate := hfields "template"
    rw [overlays_plain hplain] at htemplate
    rw [hget, lastField, ← htemplate]
    cases fields <;> rfl

end OpenDirectory.Policy

namespace OpenDirectory.AgentPolicy

open Rsop (Entry)
open Policy (Gpo templateText)

variable [Runtime]

/-- The name a machine is told to take under a template, up to case, and the domain it is in. -/
def told (control : Control) (entry : Entry) (text : String) : Option (String × String) :=
  if carriesRole control entry.hostname then none
  else ((Naming.given control.computers control.assignments entry.dn (Naming.short entry.hostname)
    text ((hardwareSerial control entry.dn).toOption.getD "")).filter (· ≠ "")).map
      fun name => (lower name, control.domain)

theorem told_of_assignName {control : Control} {entry : Entry} {template : Option Value}
    {text : String} {wanted : Option String} {after : List Naming.Assignment}
    (htemplate : template = some (.str text) ∨ template = none ∧ text = "")
    (h : assignName control entry (template.getD .null) = .ok (wanted, after)) :
    told control entry text =
      (wanted.filter (· ≠ "")).map fun name => (lower name, control.domain) := by
  have hempty : told control entry "" = none := by
    unfold told
    split
    · rfl
    · rw [Naming.given_empty]
      rfl
  unfold assignName at h
  rcases htemplate with rfl | ⟨rfl, rfl⟩
  · split at h
    · rename_i hkeep
      cases h
      simp only [Option.getD_some, Bool.or_eq_true, Bool.not_eq_true'] at hkeep
      rcases hkeep with hfalsy | hcarries
      · rw [show text = "" by simpa [Value.truthy] using hfalsy, hempty]
        rfl
      · rw [told, if_pos hcarries]
        rfl
    · rename_i hkeep
      simp only [Bool.or_eq_true, not_or] at hkeep
      obtain ⟨serial, hserial, h⟩ := Except.bind_eq_ok.mp h
      have hgiven := Naming.given_of_assign h
      simp only [told, if_neg hkeep.2, hserial, Except.toOption, Option.getD_some, hgiven]
  · cases h
    exact hempty

theorem sorted_hostnameBlock {domain domain' name name' : String} :
    Value.sorted (hostnameBlock domain name) = Value.sorted (hostnameBlock domain' name') ↔
      (lower name, domain) = (lower name', domain') := by
  constructor
  · intro h
    have hget := (Value.sorted_obj_iff (by simp [Dict.keys]) (by simp [Dict.keys])).mp h
    have hwanted : lower name = lower name' := by
      have := hget "wanted"
      simpa [Dict.get_cons, Value.sorted] using this
    have hfqdn : lower name ++ "." ++ domain = lower name' ++ "." ++ domain' := by
      have := hget "fqdn"
      simpa [Dict.get_cons, Value.sorted] using this
    rw [hwanted] at hfqdn ⊢
    rw [String.append_right_inj] at hfqdn
    rw [hfqdn]
  · intro h
    obtain ⟨hwanted, rfl⟩ := Prod.mk.inj h
    rw [hostnameBlock, hostnameBlock, hwanted]

theorem nodup_withHostname {domain : String} {wanted : Option String} {settings : Value.Fields}
    (h : (Dict.keys settings).Nodup) : (Dict.keys (withHostname domain wanted settings)).Nodup := by
  unfold withHostname
  split
  · exact h
  · split
    · exact h
    · exact Dict.nodup_keys_set h _ _

theorem get_withHostname (domain : String) (wanted : Option String) {settings : Value.Fields}
    (h : Dict.get settings "hostname" = none) (key : String) :
    Dict.get (withHostname domain wanted settings) key =
      if key = "hostname" then (wanted.filter (· ≠ "")).map (hostnameBlock domain)
      else Dict.get settings key := by
  have hkeep : Dict.get settings key =
      if key = "hostname" then none else Dict.get settings key := by
    split
    · rename_i hkey
      rw [hkey, h]
    · rfl
  unfold withHostname
  cases wanted with
  | none => exact hkeep
  | some name =>
      by_cases hname : name = ""
      · simpa [hname, Option.filter] using hkeep
      · simp only [hname, if_false, Option.filter, ne_eq, not_false_eq_true, decide_true, if_true,
          Option.map_some, Dict.get_set, eq_comm (a := "hostname")]

/-- The template that reaches a machine. -/
def templateFor (control : Control) (entry : Entry) (osId : String) (ipAddresses : List String) :
    String :=
  templateText (Rsop.applied control.toPlane
    (Rsop.targetFacts control.toPlane entry osId ipAddresses) (Rsop.changedLinks control.links [] []))

theorem named_applied {plane : Rsop.Plane} (h : ∀ gpo ∈ Dict.values plane.gpos, gpo.Named)
    (target : Policy.Target) (links : List Policy.Link) :
    ∀ gpo ∈ Rsop.applied plane target links, gpo.Named :=
  fun gpo hgpo => h gpo (Rsop.mem_values_of_applied hgpo)

/-- What an answer is made of: the settings that were fingerprinted, which have no name to take in
them, and the name the machine is told. -/
theorem agentPolicy_ok {control after : Control}
    (hnamed : ∀ gpo ∈ Dict.values control.gpos, gpo.Named) {entry : Entry} {osId : String}
    {ipAddresses : List String} {answer : Answer}
    (h : agentPolicy control entry osId ipAddresses = .ok (answer, after)) :
    ∃ settings wanted, (Dict.keys settings).Nodup ∧ Dict.get settings "hostname" = none ∧
      answer.document.serial = Policy.serial answer.document.appliedGpos settings ∧
      answer.document.settings = withHostname control.domain wanted settings ∧
      told control entry (templateFor control entry osId ipAddresses) =
        (wanted.filter (· ≠ "")).map fun name => (lower name, control.domain) := by
  obtain ⟨document, hbuild, h⟩ := Except.bind_eq_ok.mp h
  obtain ⟨template, htemplate, h⟩ := Except.bind_eq_ok.mp h
  obtain ⟨⟨wanted, assignments⟩, hassign, h⟩ := Except.bind_eq_ok.mp h
  cases h
  obtain ⟨base, hbase, hbuild⟩ := Except.bind_eq_ok.mp hbuild
  obtain ⟨⟨settings, notes⟩, hresolve, hbuild⟩ := Except.bind_eq_ok.mp hbuild
  cases hbuild
  have hmerged := Policy.effectivePolicy_ok hbase
  have hframe := Rsop.frame_resolve hresolve
  have hgpos := named_applied hnamed (Rsop.targetFacts control.toPlane entry osId ipAddresses)
    (Rsop.changedLinks control.links [] [])
  refine ⟨settings, wanted, hframe.nodup (Policy.nodup_mergeSettings hmerged), ?_, rfl, rfl, ?_⟩
  · rw [hframe.same _ (by decide), Policy.hostname_merged hgpos hmerged]
  · rw [Policy.nameTemplate_merged hgpos hmerged (hframe.same _ (by decide))] at htemplate
    cases htemplate
    refine told_of_assignName ?_ hassign
    unfold templateFor templateText
    rcases Policy.lastField_template hgpos with ⟨text, htext⟩ | hnone
    · rw [htext]
      exact .inl rfl
    · rw [hnone]
      exact .inr ⟨rfl, rfl⟩

theorem sorted_of_serial_eq (hdigest : Function.Injective Runtime.digest)
    {applied applied' : List Value} {settings settings' : Value.Fields}
    (h : Policy.serial applied settings = Policy.serial applied' settings') :
    Value.sorted (.obj settings) = Value.sorted (.obj settings') := by
  have hsorted := Value.dumps_inj.mp (hdigest h)
  have hget := (Value.sorted_obj_iff (by simp [Dict.keys]) (by simp [Dict.keys])).mp hsorted "settings"
  simpa [Dict.get_cons] using hget

/-- Two answers with one serial carry the same settings exactly when the machine is told the same
name in both: the name is the one thing the serial does not see. -/
theorem settings_eq_iff_told_eq (hdigest : Function.Injective Runtime.digest)
    {control control' after after' : Control}
    (hnamed : ∀ gpo ∈ Dict.values control.gpos, gpo.Named)
    (hnamed' : ∀ gpo ∈ Dict.values control'.gpos, gpo.Named) {entry entry' : Entry}
    {osId osId' : String} {ipAddresses ipAddresses' : List String} {answer answer' : Answer}
    (h : agentPolicy control entry osId ipAddresses = .ok (answer, after))
    (h' : agentPolicy control' entry' osId' ipAddresses' = .ok (answer', after'))
    (hserial : answer.document.serial = answer'.document.serial) :
    Value.sorted (.obj answer.document.settings) = Value.sorted (.obj answer'.document.settings) ↔
      told control entry (templateFor control entry osId ipAddresses) =
        told control' entry' (templateFor control' entry' osId' ipAddresses') := by
  obtain ⟨settings, wanted, hnodup, hnone, hprint, hsettings, htold⟩ := agentPolicy_ok hnamed h
  obtain ⟨settings', wanted', hnodup', hnone', hprint', hsettings', htold'⟩ :=
    agentPolicy_ok hnamed' h'
  rw [hprint, hprint'] at hserial
  have hsame := (Value.sorted_obj_iff hnodup hnodup').mp (sorted_of_serial_eq hdigest hserial)
  have hblocks : ((wanted.filter (· ≠ "")).map (hostnameBlock control.domain)).map Value.sorted =
      ((wanted'.filter (· ≠ "")).map (hostnameBlock control'.domain)).map Value.sorted ↔
        (wanted.filter (· ≠ "")).map (fun name => (lower name, control.domain)) =
          (wanted'.filter (· ≠ "")).map fun name => (lower name, control'.domain) := by
    cases wanted.filter (· ≠ "") <;> cases wanted'.filter (· ≠ "") <;>
      simp [sorted_hostnameBlock]
  rw [hsettings, hsettings', htold, htold', ← hblocks,
    Value.sorted_obj_iff (nodup_withHostname hnodup) (nodup_withHostname hnodup')]
  simp only [get_withHostname _ _ hnone, get_withHostname _ _ hnone']
  constructor
  · intro hall
    simpa using hall "hostname"
  · intro hhost key
    split
    · exact hhost
    · exact hsame key

/-- An object that names machines. -/
def namingGpo : Gpo where
  guid := "n"
  displayName := "Names"
  enabled := true
  settings := [("computer_names", .obj [("template", .str "WS-\x7bn:4\x7d")])]
  settingsDistinct := by simp [Dict.keys, Value.distinct, Value.distinctFields]

theorem named_namingGpo : namingGpo.Named := by
  have hone : ∀ {category value}, Dict.get namingGpo.settings category = some value →
      category = "computer_names" ∧
        value = .obj [("template", .str "WS-\x7bn:4\x7d")] := by
    intro category value hget
    simpa [namingGpo] using Dict.mem_of_get hget
  refine ⟨⟨fun category hcategory value hget => ?_, fun category _ value hget => ?_⟩, rfl,
    fun value hget => ⟨_, _, (hone hget).2, rfl⟩⟩
  · rw [(hone hget).1] at hcategory
    exact absurd hcategory (by decide)
  · rw [(hone hget).2]
    rfl

/-- A domain that names its machines, with one that carries a role. -/
def namingControl (roleState : String) : Control where
  gpos := [("n", namingGpo)]
  links := [{ gpoGuid := "n", targetDn := "DC=corp,DC=lan", linkOrder := 1 }]
  baseDn := "DC=corp,DC=lan"
  domain := "corp.lan"
  roles := [⟨"file-server", "old.corp.lan", roleState⟩]
  computers := ["old"]

def namingEntry : Entry := ⟨"CN=old,DC=corp,DC=lan", "old.corp.lan", "", []⟩

/-- What the answers of that domain have in common, and what name they carry. -/
def namingAnswer (roleState : String) : Except Raised (String × List Value × Option Value) :=
  (fun answered => (answered.1.document.serial, answered.1.document.appliedGpos,
    Dict.get answered.1.document.settings "hostname")) <$>
      agentPolicy (namingControl roleState) namingEntry "" []

def namingSerial : String := Policy.serial [Policy.appliedGpo namingGpo] namingGpo.settings

section
omit [Runtime]

theorem namingAnswer_eq :
    letI := Runtime.latin
    namingAnswer "active" = .ok (namingSerial, [Policy.appliedGpo namingGpo], none) ∧
      namingAnswer "removed" = .ok (namingSerial, [Policy.appliedGpo namingGpo],
        some (hostnameBlock "corp.lan" "WS-0001")) :=
  ⟨by rfl, by rfl⟩

theorem settings_eq_iff_told_eq_role :
    letI := Runtime.latin
    ∃ answer answer' after after',
      agentPolicy (namingControl "active") namingEntry "" [] = .ok (answer, after) ∧
      agentPolicy (namingControl "removed") namingEntry "" [] = .ok (answer', after') ∧
      (Value.sorted (.obj answer.document.settings) = Value.sorted (.obj answer'.document.settings) ↔
        told (namingControl "active") namingEntry
            (templateFor (namingControl "active") namingEntry "" []) =
          told (namingControl "removed") namingEntry
            (templateFor (namingControl "removed") namingEntry "" [])) := by
  let _ := Runtime.latin
  have hnamed : ∀ roleState, ∀ gpo ∈ Dict.values (namingControl roleState).gpos, gpo.Named := by
    simp [namingControl, Dict.values, named_namingGpo]
  obtain ⟨⟨answer, after⟩, h, hserial⟩ := Except.map_eq_ok.mp namingAnswer_eq.1
  obtain ⟨⟨answer', after'⟩, h', hserial'⟩ := Except.map_eq_ok.mp namingAnswer_eq.2
  exact ⟨answer, answer', after, after', h, h',
    settings_eq_iff_told_eq Function.injective_id (hnamed "active") (hnamed "removed") h h'
      ((Prod.mk.inj hserial).1.trans (Prod.mk.inj hserial').1.symm)⟩

/-- A machine that stops carrying a role is told a name under the serial it already has. -/
theorem serial_eq_settings_ne_role :
    letI := Runtime.latin
    ∃ answer answer' after after',
      agentPolicy (namingControl "active") namingEntry "" [] = .ok (answer, after) ∧
      agentPolicy (namingControl "removed") namingEntry "" [] = .ok (answer', after') ∧
      answer.document.serial = answer'.document.serial ∧
      answer.document.appliedGpos = answer'.document.appliedGpos ∧
      Dict.get answer.document.settings "hostname" = none ∧
      Dict.get answer'.document.settings "hostname" = some (hostnameBlock "corp.lan" "WS-0001") := by
  let _ := Runtime.latin
  obtain ⟨⟨answer, after⟩, h, hread⟩ := Except.map_eq_ok.mp namingAnswer_eq.1
  obtain ⟨⟨answer', after'⟩, h', hread'⟩ := Except.map_eq_ok.mp namingAnswer_eq.2
  simp only [Prod.mk.injEq] at hread hread'
  obtain ⟨hserial, happlied, hname⟩ := hread
  obtain ⟨hserial', happlied', hname'⟩ := hread'
  exact ⟨answer, answer', after, after', h, h', hserial.trans hserial'.symm,
    happlied.trans happlied'.symm, hname, hname'⟩

end

end OpenDirectory.AgentPolicy
