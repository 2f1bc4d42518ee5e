import OpenDirectory.AgentSerial

/-! The second factor as the control plane reads it when a machine asks for its enrolments, starts an
enrolment or asks a phone. Each of these requests resolves the machine's policy again, without the
operating system and the addresses the machine sent with its policy request. -/

namespace OpenDirectory.Policy

variable [Runtime]

/-- What an accepted object holds of a second factor: switches, texts and lists of them. -/
structure Gpo.Asking (gpo : Gpo) : Prop where
  shaped : gpo.Shaped
  plain : ∀ fields, Dict.get gpo.settings "second_factor" = some (.obj fields) →
    ∀ field ∈ fields, field.2.isObj = false

theorem factor_merged {gpos : List Gpo} (h : ∀ gpo ∈ gpos, gpo.Asking) {target : Option Target}
    {merged : Value.Fields} (hmerged : mergeSettings gpos target = .ok merged) (key : String) :
    (Browser.orElse ((Dict.get merged "second_factor").getD .null) (.obj [])).field key =
      lastField gpos "second_factor" key := by
  have hplain : ∀ value ∈ fieldsAt gpos "second_factor" key, value.isObj = false := by
    intro value hvalue
    obtain ⟨gpo, hgpo, fields, hget, hfield⟩ := mem_fieldsAt hvalue
    exact (h gpo hgpo).plain fields hget _ (Dict.mem_of_get hfield)
  rcases get_merged_dict (fun gpo hgpo => (h gpo hgpo).shaped) hmerged
    (show "second_factor" ∈ dictCategories by decide) with ⟨hnone, hget⟩ | ⟨_, fields, hget, hfields⟩
  · rw [hget, lastField, fieldsAt, hnone]
    rfl
  · rw [hget, lastField, ← overlays_plain hplain, ← hfields key]
    cases fields <;> rfl

end OpenDirectory.Policy

namespace OpenDirectory.AgentPolicy

open Rsop (Entry Plane)
open Policy (Gpo lastField)

variable [Runtime]

/-- The second factor of some settings, an empty one where they have none. -/
def secondFactor (settings : Value.Fields) : Value :=
  Browser.orElse ((Dict.get settings "second_factor").getD .null) (.obj [])

/-- The second factor that answers a machine's requests. -/
def requestFactor (plane : Plane) (entry : Entry) : Except Raised Value :=
  (fun document => secondFactor document.settings) <$> Rsop.build plane entry "" [] [] []

def enabled (factor : Value) : Except Raised Bool :=
  (fun value => (value.getD .null).truthy) <$> factor.get "enabled"

/-- Whether the enrolment file names anybody. -/
def agentSecondFactor (plane : Plane) (entry : Entry) : Except Raised Bool := do
  enabled (← requestFactor plane entry)

/-- Whether a person may be walked through setting one up at the machine. -/
def mayEnrol (plane : Plane) (entry : Entry) : Except Raised Bool := do
  let factor ← requestFactor plane entry
  if !(← enabled factor) then return false
  return ((← factor.get "self_enrol").getD (.bool true)).truthy

/-- Whether a phone is asked for a sign-in on a service. -/
def agentBeginPush (plane : Plane) (entry : Entry) (service : String) : Except Raised Bool := do
  let factor ← requestFactor plane entry
  if !(← enabled factor) || (← factor.get "method") ≠ some (.str "push") then return false
  let services := Browser.orElse ((← factor.get "services").getD .null) (.arr [])
  services.contains service

/-- The objects that apply to a machine that is of an operating system and has some addresses. -/
def appliedFor (plane : Plane) (entry : Entry) (osId : String) (ipAddresses : List String) : List Gpo :=
  Rsop.applied plane (Rsop.targetFacts plane entry osId ipAddresses) (Rsop.changedLinks plane.links [] [])

theorem factor_build {plane : Plane} (hgpos : ∀ gpo ∈ Dict.values plane.gpos, gpo.Asking) {entry : Entry}
    {osId : String} {ipAddresses : List String} {document : Rsop.Document}
    (h : Rsop.build plane entry osId ipAddresses [] [] = .ok document) (key : String) :
    (secondFactor document.settings).field key =
      lastField (appliedFor plane entry osId ipAddresses) "second_factor" key := by
  obtain ⟨base, hbase, h⟩ := Except.bind_eq_ok.mp h
  obtain ⟨⟨settings, notes⟩, hresolve, h⟩ := Except.bind_eq_ok.mp h
  cases h
  have hmerged := Policy.effectivePolicy_ok hbase
  have happlied : ∀ gpo ∈ appliedFor plane entry osId ipAddresses, gpo.Asking :=
    fun gpo hgpo => hgpos gpo (Rsop.mem_values_of_applied hgpo)
  rw [secondFactor, (Rsop.frame_resolve hresolve).same _ (by decide)]
  exact Policy.factor_merged happlied hmerged key

theorem secondFactor_withHostname (domain : String) (wanted : Option String) (settings : Value.Fields) :
    secondFactor (withHostname domain wanted settings) = secondFactor settings := by
  unfold withHostname
  split
  · rfl
  · split
    · rfl
    · rw [secondFactor, secondFactor, Dict.get_set, if_neg (by decide)]

/-- The factor that answers a machine's requests is the one in the policy handed to it exactly when
each field of it is the same in the last object that applies to what the machine sent of itself and in
the last that applies to a machine of the remembered operating system without an address. -/
theorem requestFactor_eq_iff {control after : Control}
    (hgpos : ∀ gpo ∈ Dict.values control.gpos, gpo.Asking) {entry : Entry} {osId : String}
    {ipAddresses : List String} {answer : Answer} {factor : Value}
    (h : agentPolicy control entry osId ipAddresses = .ok (answer, after))
    (hrequest : requestFactor control.toPlane entry = .ok factor) :
    (∀ key, factor.field key = (secondFactor answer.document.settings).field key) ↔
      ∀ key, lastField (appliedFor control.toPlane entry "" []) "second_factor" key =
        lastField (appliedFor control.toPlane entry osId ipAddresses) "second_factor" key := by
  obtain ⟨document, hbuild, h⟩ := Except.bind_eq_ok.mp h
  obtain ⟨template, _, h⟩ := Except.bind_eq_ok.mp h
  obtain ⟨⟨wanted, assignments⟩, _, h⟩ := Except.bind_eq_ok.mp h
  cases h
  obtain ⟨asked, hasked, rfl⟩ := Except.map_eq_ok.mp hrequest
  apply forall_congr'
  intro key
  rw [secondFactor_withHostname, factor_build hgpos hasked, factor_build hgpos hbuild]

/-- An object that asks the machines of a network for a code. -/
def officeGpo : Gpo where
  guid := "o"
  displayName := "Office"
  enabled := true
  settings := [("second_factor", .obj [("enabled", .bool true)])]
  targeting := .obj [("ip_ranges", .arr [.str "10.0.0.0/8"])]
  settingsDistinct := by simp [Dict.keys, Value.distinct, Value.distinctFields]

theorem asking_officeGpo : officeGpo.Asking := by
  have hone : ∀ {category value}, Dict.get officeGpo.settings category = some value →
      category = "second_factor" ∧ value = .obj [("enabled", .bool true)] := by
    intro category value hget
    simpa [officeGpo] using Dict.mem_of_get hget
  refine ⟨⟨fun category hcategory value hget => ?_, fun category _ value hget => ?_⟩,
    fun fields hget => ?_⟩
  · rw [(hone hget).1] at hcategory
    exact absurd hcategory (by decide)
  · rw [(hone hget).2]
    rfl
  · cases (hone hget).2
    simp [Value.isObj]

def officeControl : Control where
  gpos := [("o", officeGpo)]
  links := [{ gpoGuid := "o", targetDn := "DC=corp,DC=lan", linkOrder := 1 }]
  baseDn := "DC=corp,DC=lan"

def officeEntry : Entry := ⟨"CN=ws01,DC=corp,DC=lan", "ws01.corp.lan", "", []⟩

/-- The second factor in the policy of a machine with some addresses. -/
def officeFactor (ipAddresses : List String) : Except Raised Value :=
  (fun answered => secondFactor answered.1.document.settings) <$>
    agentPolicy officeControl officeEntry "" ipAddresses

omit [Runtime] in
theorem officeFactor_eq :
    letI := Runtime.latin
    officeFactor ["10.0.0.5"] = .ok (.obj [("enabled", .bool true)]) ∧
      requestFactor officeControl.toPlane officeEntry = .ok (.obj []) :=
  ⟨by rfl, by rfl⟩

theorem asking_officeControl : ∀ gpo ∈ Dict.values officeControl.gpos, gpo.Asking := by
  simp [officeControl, Dict.values, asking_officeGpo]

omit [Runtime] in
theorem requestFactor_eq_iff_office :
    letI := Runtime.latin
    ∃ answer after factor, agentPolicy officeControl officeEntry "" ["10.0.0.5"] = .ok (answer, after) ∧
      requestFactor officeControl.toPlane officeEntry = .ok factor ∧
      ((∀ key, factor.field key = (secondFactor answer.document.settings).field key) ↔
        ∀ key, lastField (appliedFor officeControl.toPlane officeEntry "" []) "second_factor" key =
          lastField (appliedFor officeControl.toPlane officeEntry "" ["10.0.0.5"]) "second_factor" key) := by
  let _ := Runtime.latin
  obtain ⟨⟨answer, after⟩, h, _⟩ := Except.map_eq_ok.mp officeFactor_eq.1
  exact ⟨answer, after, .obj [], h, officeFactor_eq.2,
    requestFactor_eq_iff asking_officeControl h officeFactor_eq.2⟩

omit [Runtime] in
/-- The machine is told to ask for a code, and handed nobody's. -/
theorem code_asked_and_not_handed :
    letI := Runtime.latin
    ∃ answer after factor, agentPolicy officeControl officeEntry "" ["10.0.0.5"] = .ok (answer, after) ∧
      requestFactor officeControl.toPlane officeEntry = .ok factor ∧
      enabled (secondFactor answer.document.settings) = .ok true ∧
      factor.field "enabled" ≠ (secondFactor answer.document.settings).field "enabled" ∧
      agentSecondFactor officeControl.toPlane officeEntry = .ok false ∧
      mayEnrol officeControl.toPlane officeEntry = .ok false := by
  let _ := Runtime.latin
  obtain ⟨⟨answer, after⟩, h, hfactor⟩ := Except.map_eq_ok.mp officeFactor_eq.1
  refine ⟨answer, after, .obj [], h, officeFactor_eq.2, ?_, ?_, ?_, ?_⟩
  · rw [hfactor]
    rfl
  · rw [hfactor]
    nofun
  · rw [agentSecondFactor, officeFactor_eq.2]
    rfl
  · rw [mayEnrol, officeFactor_eq.2]
    rfl

end OpenDirectory.AgentPolicy
