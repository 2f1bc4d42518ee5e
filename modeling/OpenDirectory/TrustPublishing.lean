import OpenDirectory.EntryFiles
import OpenDirectory.Records
import OpenDirectory.Steps

/-! The trust of a domain: the root of its authority and the certificates added beside it, the policy object that
carries them once they are published, and the machine that applies the object. -/

namespace OpenDirectory.TrustPublishing

open Agent (TrustedCert EntryPass Machine anchorPath browserPath anchorBody trustAnchorFile undotted located
  beginCertificate bounded textAt)

variable [Runtime]

structure Anchor where
  id : String
  name : String
  certificatePem : String

/-- The order the database keeps texts in, and which texts are read as a certificate. -/
structure Services where
  collates : String → String → Bool
  inspectPem : String → Bool

/-- The authority is there with its root, the object with the certificates in its settings. -/
structure World where
  authority : Option String := none
  anchors : List Anchor := []
  object : Option (List TrustedCert) := none
  machine : Machine := ⟨fun _ => none, {}⟩

def nameChar (c : Char) : Bool := c.isAlphanum || c = '_'

/-- One label of a name, whose first character is one of these. -/
def hostLabel (first : Char → Bool) (label : String) : Bool :=
  label.length ≤ 64 && label.toList.head?.any first &&
    label.toList.tail.all (fun c => nameChar c || c = '-') && label.toList.tail.getLast?.all nameChar

/-- `HOST_RE` without the line break that its end lets through. -/
def hostName (text : String) : Bool :=
  text.length ≤ 253 && match Text.split '.' text with
    | [] => false
    | first :: labels => hostLabel (fun c => nameChar c || c = '*') first && labels.all (hostLabel nameChar)

def validateName (name : String) : Option String :=
  let name := Text.stripEnd (· = '.') (lower (Text.strip Runtime.blank name))
  let line := if Text.endsWith name "\n" then String.ofList name.toList.dropLast else name
  Option.guard (fun _ => hostName line) name

/-- A root as the authority writes it. -/
def rootPem (body : String) : String := beginCertificate ++ "\n" ++ body ++ "\n-----END CERTIFICATE-----\n"

def initialise (world : World) (body : String) : Option World :=
  if world.authority.isSome then none else some { world with authority := some (rootPem body) }

def addTrusted (services : Services) (world : World) (name certificatePem id : String) : Option World := do
  guard (bounded 1 64 name && bounded 1 32768 certificatePem)
  let name ← validateName name
  guard (services.inspectPem certificatePem)
  guard (∀ anchor ∈ world.anchors, lower anchor.name ≠ lower name ∧ anchor.name ≠ name ∧ anchor.id ≠ id)
  return { world with anchors := world.anchors ++ [{ id, name, certificatePem }] }

def removeTrusted (world : World) (id : String) : World :=
  { world with anchors := world.anchors.filter fun anchor => anchor.id ≠ id }

def root (world : World) : List TrustedCert := (world.authority.map fun pem => ⟨"odm-root-ca", pem⟩).toList

def certOf (anchor : Anchor) : TrustedCert := ⟨anchor.name, anchor.certificatePem⟩

def trusted (services : Services) (world : World) : List TrustedCert :=
  root world ++ (world.anchors.mergeSort fun anchor other => services.collates anchor.name other.name).map certOf

def publish (services : Services) (world : World) : Option World :=
  if trusted services world = [] then none else some { world with object := some (trusted services world) }

def item (cert : TrustedCert) : Value := .obj [("name", .str cert.name), ("certificate_pem", .str cert.certificatePem)]

omit [Runtime] in
theorem distinct_settings (certs : List TrustedCert) :
    (Value.obj [("trusted_certificates", .arr (certs.map item))]).distinct = true := by
  rw [Value.distinct_obj_iff]
  refine ⟨List.nodup_singleton _, fun entry hentry => ?_⟩
  rw [List.mem_singleton.mp hentry, Value.distinct_arr_iff]
  intro value hvalue
  obtain ⟨cert, -, rfl⟩ := List.mem_map.mp hvalue
  simp [item, Dict.keys, Value.distinct, Value.distinctFields]

def trustGpo (certs : List TrustedCert) : Policy.Gpo where
  guid := "trust"
  displayName := "ODM Certificate Trust"
  enabled := true
  settings := [("trusted_certificates", .arr (certs.map item))]
  settingsDistinct := distinct_settings certs

def received (item : Value) : Option TrustedCert := do
  return ⟨← textAt item "name", ← textAt item "certificate_pem"⟩

/-- A pass over nothing but certificates, every write of which goes through. -/
def certPass (certs : List TrustedCert) : EntryPass where
  settings := { trustedCerts := certs }

/-- The machine once it has applied what the object carries. -/
def applied (world : World) : Machine :=
  match Policy.mergeSettings (world.object.toList.map trustGpo) none with
  | .ok merged =>
      (certPass ((Policy.mergedList merged "trusted_certificates").filterMap received)).run.next world.machine
  | .error _ => world.machine

inductive Move where
  | initialise (body : String) (publishRoot allowed : Bool)
  | addTrusted (name certificatePem id : String) (allowed : Bool)
  | removeTrusted (id : String) (allowed : Bool)
  | publish (allowed : Bool)
  | apply

/-- What is there when a request comes to publish. -/
def asked (world : World) : Move → Option World
  | .initialise body publishRoot allowed => if allowed && publishRoot then initialise world body else none
  | .publish allowed => if allowed then some world else none
  | _ => none

/-- What is there after a request that published. -/
def published (services : Services) (world : World) (move : Move) : Option World :=
  (asked world move).bind (publish services)

def next (services : Services) (world : World) (move : Move) : World :=
  match move with
  | .initialise body _ allowed =>
      (published services world move).getD (if allowed then (initialise world body).getD world else world)
  | .addTrusted name certificatePem id allowed =>
      if allowed then (addTrusted services world name certificatePem id).getD world else world
  | .removeTrusted id allowed => if allowed then removeTrusted world id else world
  | .publish _ => (published services world move).getD world
  | .apply => { world with machine := applied world }

/-- The root and the certificates added beside it. -/
def held (world : World) : List TrustedCert := root world ++ world.anchors.map certOf

/-- Where a certificate is kept on a machine. -/
def places : List (TrustedCert → String) := [anchorPath, browserPath]

/-- The object carries what is held, each under a name and in a file of its own, and a machine that applies it keeps
that and nothing else where certificates are kept. -/
structure Exact (world : World) : Prop where
  carries : ∃ certs, world.object = some certs ∧ certs.Perm (held world)
  named : (held world).Pairwise fun cert other =>
    cert.name ≠ other.name ∧ trustAnchorFile cert.name ≠ trustAnchorFile other.name
  reaches : ∀ place ∈ places, ∀ anchor content, (applied world).files (located (place anchor)) = some content ↔
    ∃ cert ∈ held world, located (place cert) = located (place anchor) ∧ anchorBody cert = content

def Right (services : Services) (world : World) (move : Move) : Prop :=
  ∀ after ∈ published services world move, Exact after

/-- No two names are alike once their dots are dashes, and every text has the line certificates begin with. -/
structure Clear (certs : List TrustedCert) : Prop where
  named : certs.Pairwise fun cert other => undotted cert.name ≠ undotted other.name
  marked : ∀ cert ∈ certs, Text.holds cert.certificatePem beginCertificate = true

def Fits (world : World) (move : Move) : Prop := ∀ before ∈ asked world move, Clear (held before)

theorem shaped_trustGpo (certs : List TrustedCert) : (trustGpo certs).Shaped := by
  have honly : ∀ category value, Dict.get (trustGpo certs).settings category = some value →
      category = "trusted_certificates" ∧ value = .arr (certs.map item) := by
    intro category value hvalue
    simpa [trustGpo] using Dict.mem_of_get hvalue
  refine ⟨fun category _ value hvalue => ?_, fun category hcategory value hvalue => ?_⟩
  · obtain ⟨rfl, rfl⟩ := honly category value hvalue
    refine ⟨_, rfl, fun value hvalue _ target => ⟨true, ?_⟩⟩
    obtain ⟨cert, -, rfl⟩ := List.mem_map.mp hvalue
    apply Policy.entryApplies_untargeted
    simp [item, Value.field, Dict.get_cons]
  · obtain ⟨rfl, rfl⟩ := honly category value hvalue
    exact absurd hcategory (by decide)

theorem identity_item (cert : TrustedCert) : Policy.identity "trusted_certificates" (item cert) = cert.name := by
  have hkeys : Dict.get Policy.listKeys "trusted_certificates" = some ["name"] := by decide
  have hfield : (item cert).field "name" = some (.str cert.name) := rfl
  rw [Policy.identity, hkeys, Option.getD_some, List.map_singleton, hfield]
  exact String.intercalate_singleton

omit [Runtime] in
theorem received_item (cert : TrustedCert) : received (item cert) = some cert := by
  simp [received, item, textAt, Value.field, Dict.get_cons]

theorem merged_trustGpo {certs : List TrustedCert} (hnames : (certs.map TrustedCert.name).Nodup) :
    ∃ merged, Policy.mergeSettings [trustGpo certs] none = .ok merged ∧
      (Policy.mergedList merged "trusted_certificates").filterMap received = certs := by
  have hshaped : ∀ gpo ∈ [trustGpo certs], gpo.Shaped := by
    intro gpo hgpo
    rw [List.mem_singleton.mp hgpo]
    exact shaped_trustGpo certs
  obtain ⟨merged, hmerged⟩ := Policy.mergeSettings_shaped hshaped none
  refine ⟨merged, hmerged, ?_⟩
  have hpassing : Policy.passingEntries [trustGpo certs] none "trusted_certificates" = certs.map item := by
    have hall : ∀ value ∈ certs.map item, (value.isObj && Policy.entryHolds none value) = true := by
      intro value hvalue
      obtain ⟨cert, -, rfl⟩ := List.mem_map.mp hvalue
      rfl
    rw [Policy.passingEntries, Policy.passing, List.filter_eq_self.mpr]
    · simp [Policy.carried, trustGpo, Dict.get_cons, Policy.itemsOf]
    · simpa [Policy.carried, trustGpo, Dict.get_cons, Policy.itemsOf] using hall
  have hnodup : ((certs.map item).map (Policy.identity "trusted_certificates")).Nodup := by
    have hsame : certs.map (Policy.identity "trusted_certificates" ∘ item) = certs.map TrustedCert.name :=
      List.map_congr_left fun cert _ => identity_item cert
    rw [List.map_map, hsame]
    exact hnames
  rw [Policy.mergedList_eq hshaped hmerged (by decide), hpassing, Dict.index_of_nodup hnodup]
  simp [Dict.values, Function.comp_def, received_item]

section

variable {certs : List TrustedCert} {place : TrustedCert → String} {machine : Machine}

omit [Runtime]

theorem area_place (hplace : place ∈ places) (cert : TrustedCert) :
    Agent.area (located (place cert)) = "/usr/local/s".toList ∨ Agent.area (located (place cert)) = "/usr/lib/moz".toList := by
  rcases List.mem_pair.mp hplace with rfl | rfl
  · exact .inl (Agent.area_anchor cert)
  · exact .inr (Agent.area_browser cert)

theorem located_place_iff (hplace : place ∈ places) (cert other : TrustedCert) :
    located (place cert) = located (place other) ↔ EntryPass.fileName cert.name = EntryPass.fileName other.name := by
  rcases List.mem_pair.mp hplace with rfl | rfl
  · rw [Agent.located_anchorPath, Agent.located_anchorPath, String.append_right_inj, String.append_left_inj]
  · rw [Agent.located_browserPath, Agent.located_browserPath, String.append_right_inj, String.append_left_inj]

theorem mem_certWrites {entry : String × String} : entry ∈ (certPass certs).certWrites ↔
    ∃ cert ∈ certs, Text.holds cert.certificatePem beginCertificate = true ∧
      ∃ place ∈ places, entry = (place cert, anchorBody cert) := by
  have hone : ∀ cert, entry ∈ (certPass certs).anchorWrites cert ↔
      Text.holds cert.certificatePem beginCertificate = true ∧
        ∃ place ∈ places, entry = (place cert, anchorBody cert) := by
    intro cert
    unfold EntryPass.anchorWrites
    cases hmarked : Text.holds cert.certificatePem beginCertificate with
    | false => simp
    | true => simp [certPass, places]
  rw [EntryPass.certWrites, List.mem_flatMap]
  exact exists_congr fun cert => and_congr_right fun _ => hone cert

theorem calls_certPass : (certPass certs).run.calls =
    (certPass certs).puts ((certPass certs).certWrites ++ (certPass certs).nssdbWrites) := by
  simp [EntryPass.run, certPass, EntryPass.puts, EntryPass.scriptWrites, EntryPass.cronWrites]

theorem call_ne (hplace : place ∈ places) {anchor : TrustedCert} (hnone : ∀ cert ∈ certs,
    Text.holds cert.certificatePem beginCertificate = true → located (place cert) ≠ located (place anchor)) :
    ∀ call ∈ (certPass certs).run.calls, call.path ≠ located (place anchor) := by
  have hareas : "/usr/local/s".toList ≠ "/usr/lib/moz".toList := by decide
  intro call hcall hpath
  rw [calls_certPass] at hcall
  obtain ⟨entry, hentry, rfl⟩ := List.mem_map.mp hcall
  replace hpath : located entry.1 = located (place anchor) := hpath
  rcases List.mem_append.mp hentry with hentry | hentry
  · obtain ⟨cert, hcert, hmarked, place', hplace', rfl⟩ := mem_certWrites.mp hentry
    have hsame : place' = place := by
      have harea := congrArg Agent.area hpath
      rcases List.mem_pair.mp hplace with rfl | rfl
      · rcases List.mem_pair.mp hplace' with rfl | rfl
        · rfl
        · rw [Agent.area_anchor, Agent.area_browser] at harea
          exact absurd harea.symm hareas
      · rcases List.mem_pair.mp hplace' with rfl | rfl
        · rw [Agent.area_anchor, Agent.area_browser] at harea
          exact absurd harea hareas
        · rfl
    exact hnone cert hcert hmarked (hsame ▸ hpath)
  · rcases EntryPass.mem_nssdbWrites hentry with hlist | ⟨rfl, -, -⟩
    · rw [hlist, EntryPass.located_nssdbList] at hpath
      rcases List.mem_pair.mp hplace with rfl | rfl
      · exact EntryPass.anchorPath_ne_list anchor hpath.symm
      · have harea := congrArg Agent.area hpath
        rw [Agent.area_browser] at harea
        exact absurd harea (by decide)
    · rw [EntryPass.located_nssdbHook] at hpath
      rcases area_place hplace anchor with harea | harea
      · rw [← hpath] at harea
        exact absurd harea (by decide)
      · rw [← hpath] at harea
        exact absurd harea (by decide)

/-- What there is of certificates on the machine is on its record, whole. -/
structure Owned (machine : Machine) : Prop where
  owned : ∀ place ∈ places, ∀ anchor : TrustedCert, machine.files (located (place anchor)) ≠ none →
    located (place anchor) ∈ machine.saved.owned
  blocks : ∀ place ∈ places, ∀ anchor : TrustedCert, located (place anchor) ∉ machine.saved.blocks

theorem neverPrune_place (hplace : place ∈ places) (anchor : TrustedCert) :
    Agent.neverPrune (located (place anchor)) = false := by
  refine Agent.neverPrune_of_area ?_
  rcases area_place hplace anchor with harea | harea
  · rw [harea]
    simp
  · rw [harea]
    simp

theorem files_gone (h : Owned machine) (hplace : place ∈ places) {anchor : TrustedCert} (hnone : ∀ cert ∈ certs,
    Text.holds cert.certificatePem beginCertificate = true → located (place cert) ≠ located (place anchor)) :
    ((certPass certs).run.next machine).files (located (place anchor)) = none := by
  have hsame := Agent.foldl_other (call_ne hplace hnone) { files := machine.files }
  have hclaims : ¬ ((certPass certs).run.env machine).state.Claims (located (place anchor)) := by
    rw [Agent.Run.env, hsame.claims]
    simp [Agent.State.Claims]
  show (Agent.prune _ _ machine.saved ((certPass certs).run.env machine)).1.files (located (place anchor)) = none
  rw [Agent.prune_files]
  split_ifs with hdeleted hblock
  · rfl
  · exact absurd hblock.1 (h.blocks place hplace anchor)
  · by_contra hthere
    rw [Agent.Run.env, hsame.files] at hthere
    exact hdeleted ⟨h.owned place hplace anchor hthere, hclaims, neverPrune_place hplace anchor, rfl⟩

theorem blocks_certPass : ((certPass certs).run.env machine).state.blocks = [] := by
  have hall : ∀ (calls : List Agent.Call) (env : Agent.Env), (∀ call ∈ calls, ∃ path content goes,
      call = .writeFile path content goes) → (calls.foldl Agent.perform env).state.blocks = env.state.blocks := by
    intro calls
    induction calls with
    | nil => exact fun _ _ => rfl
    | cons call calls ih =>
        intro env hcalls
        obtain ⟨path, content, goes, rfl⟩ := hcalls call List.mem_cons_self
        rw [List.foldl_cons, ih _ fun other hother => hcalls other (.tail _ hother)]
        cases goes with
        | false => rfl
        | true =>
            simp only [Agent.perform, Agent.writeFile, if_true]
            split_ifs
            · rfl
            · rfl
  refine hall _ _ fun call hcall => ?_
  rw [calls_certPass] at hcall
  obtain ⟨entry, -, rfl⟩ := List.mem_map.mp hcall
  exact ⟨_, _, _, rfl⟩

theorem Owned.next (h : Owned machine) (certs : List TrustedCert) : Owned ((certPass certs).run.next machine) := by
  have hstate : ∀ path, (path ∈ ((certPass certs).run.next machine).saved.owned ↔
      path ∈ ((certPass certs).run.env machine).state.owned) ∧
      (path ∈ ((certPass certs).run.next machine).saved.blocks ↔
        path ∈ ((certPass certs).run.env machine).state.blocks) :=
    Agent.prune_state _ _ machine.saved ((certPass certs).run.env machine)
  refine ⟨fun place hplace anchor hthere => ?_, fun place hplace anchor hblock => ?_⟩
  · rw [(hstate _).1]
    have hwritten : ∃ cert ∈ certs, Text.holds cert.certificatePem beginCertificate = true ∧
        located (place cert) = located (place anchor) := by
      by_contra hnone
      exact hthere (files_gone h hplace fun cert hcert hmarked hpath => hnone ⟨cert, hcert, hmarked, hpath⟩)
    obtain ⟨cert, hcert, hmarked, hpath⟩ := hwritten
    have hentry : (place cert, anchorBody cert) ∈ (certPass certs).certWrites :=
      mem_certWrites.mpr ⟨cert, hcert, hmarked, place, hplace, rfl⟩
    obtain ⟨call, hcall, hat⟩ := EntryPass.mem_puts (certPass certs)
      (List.mem_append_left (certPass certs).nssdbWrites hentry)
    have hplain : ∀ call ∈ (certPass certs).run.calls, call.path = located (place anchor) → call.Plain := by
      intro call hcall _
      rw [calls_certPass] at hcall
      obtain ⟨entry, -, rfl⟩ := List.mem_map.mp hcall
      trivial
    have hclaims := (Agent.claims_foldl_plain (neverPrune_place hplace anchor) hplain { files := machine.files }).mpr
      (.inr ⟨call, calls_certPass ▸ hcall, hat.trans hpath, ?_⟩)
    · rcases hclaims with howned | hblock
      · exact howned
      · rw [← Agent.Run.env, blocks_certPass] at hblock
        exact absurd hblock List.not_mem_nil
    · obtain ⟨entry, -, rfl⟩ := List.mem_map.mp hcall
      rfl
  · rw [(hstate _).2, blocks_certPass] at hblock
    exact absurd hblock List.not_mem_nil

theorem files_kept (hfiles : ∀ cert ∈ certs, ∀ other ∈ certs,
      EntryPass.fileName cert.name = EntryPass.fileName other.name → cert = other)
    (hplace : place ∈ places) {cert : TrustedCert} (hcert : cert ∈ certs)
    (hmarked : Text.holds cert.certificatePem beginCertificate = true) (machine : Machine) :
    ((certPass certs).run.next machine).files (located (place cert)) = some (anchorBody cert) := by
  have htold : EntryPass.Told (certPass certs).settings := by
    refine ⟨nofun, nofun, nofun, fun anchor hanchor other hother hname => ?_, nofun⟩
    exact hfiles anchor hanchor other hother (congrArg _ hname)
  have hapart : (certPass certs).Apart := ⟨nofun, nofun, nofun, nofun⟩
  have hdistinct : EntryPass.Distinct TrustedCert.name (certPass certs).settings.trustedCerts := by
    intro anchor hanchor other hother hsame
    rw [hfiles anchor hanchor other hother hsame]
  exact EntryPass.kept_cert htold hapart hdistinct
    (mem_certWrites.mpr ⟨cert, hcert, hmarked, place, hplace, rfl⟩) rfl machine

end

section
omit [Runtime]

theorem trustAnchorFile_iff {name other : String} :
    trustAnchorFile name = trustAnchorFile other ↔ undotted name = undotted other := by
  rw [trustAnchorFile, trustAnchorFile, String.append_left_inj, String.append_right_inj]

theorem fileName_of_slash {name : String} (h : '/' ∉ name.toList) : EntryPass.fileName name = undotted name := by
  apply Agent.located_eq_self
  rw [undotted, String.toList_ofList, List.mem_map]
  intro ⟨c, hc, hslash⟩
  split_ifs at hslash
  · exact absurd hslash (by decide)
  · exact h (hslash ▸ hc)

theorem named_iff {certs : List TrustedCert} :
    (certs.Pairwise fun cert other => cert.name ≠ other.name ∧ trustAnchorFile cert.name ≠ trustAnchorFile other.name) ↔
      certs.Pairwise fun cert other => undotted cert.name ≠ undotted other.name := by
  constructor
  · exact List.Pairwise.imp fun hboth hsame => hboth.2 (trustAnchorFile_iff.mpr hsame)
  · refine List.Pairwise.imp fun hdiffer => ⟨fun hname => hdiffer (congrArg _ hname), fun hfile => ?_⟩
    exact hdiffer (trustAnchorFile_iff.mp hfile)

end

/-- What is held reaches a machine exactly when its names stay apart in the names of files and it is marked. -/
theorem exact_iff {world : World} {certs : List TrustedCert} (hobject : world.object = some certs)
    (hperm : certs.Perm (held world)) (howned : Owned world.machine)
    (hslash : ∀ cert ∈ held world, '/' ∉ cert.name.toList) : Exact world ↔ Clear (held world) := by
  have hwhole : ∀ hnamed : (held world).Pairwise fun cert other => undotted cert.name ≠ undotted other.name,
      (∀ place ∈ places, ∀ anchor content, (applied world).files (located (place anchor)) = some content ↔
        ∃ cert ∈ held world, located (place cert) = located (place anchor) ∧ anchorBody cert = content) ↔
      ∀ cert ∈ held world, Text.holds cert.certificatePem beginCertificate = true := by
    intro hnamed
    have hnodup : ((held world).map fun cert => undotted cert.name).Nodup := List.pairwise_map.mpr hnamed
    have hnames : (certs.map TrustedCert.name).Nodup := by
      have hboth : ((certs.map TrustedCert.name).map undotted).Nodup := by
        rw [List.map_map]
        exact (hperm.map _).nodup_iff.mpr hnodup
      exact hboth.of_map
    have hfiles : ∀ cert ∈ certs, ∀ other ∈ certs,
        EntryPass.fileName cert.name = EntryPass.fileName other.name → cert = other := by
      intro cert hcert other hother hsame
      rw [fileName_of_slash (hslash cert (hperm.mem_iff.mp hcert)),
        fileName_of_slash (hslash other (hperm.mem_iff.mp hother))] at hsame
      exact List.inj_on_of_nodup_map hnodup (hperm.mem_iff.mp hcert) (hperm.mem_iff.mp hother) hsame
    have happlied : applied world = (certPass certs).run.next world.machine := by
      obtain ⟨merged, hmerged, hreceived⟩ := merged_trustGpo hnames
      rw [applied, hobject, Option.toList_some, List.map_singleton, hmerged]
      dsimp only
      rw [hreceived]
    rw [happlied]
    constructor
    · intro hreaches cert hcert
      by_contra hmarked
      have hthere := (hreaches anchorPath List.mem_cons_self cert (anchorBody cert)).mpr ⟨cert, hcert, rfl, rfl⟩
      rw [files_gone howned List.mem_cons_self fun other hother hmarked' hpath => ?_] at hthere
      · cases hthere
      · rw [located_place_iff List.mem_cons_self] at hpath
        rw [hfiles other hother cert (hperm.mem_iff.mpr hcert) hpath] at hmarked'
        exact hmarked hmarked'
    · intro hmarked place hplace anchor content
      constructor
      · intro hthere
        by_cases hcert : ∃ cert ∈ certs, located (place cert) = located (place anchor)
        · obtain ⟨cert, hcert, hpath⟩ := hcert
          have hkept := files_kept hfiles hplace hcert (hmarked cert (hperm.mem_iff.mp hcert)) world.machine
          rw [hpath, hthere] at hkept
          exact ⟨cert, hperm.mem_iff.mp hcert, hpath, (Option.some.inj hkept).symm⟩
        · rw [files_gone howned hplace fun cert hmem _ hpath => hcert ⟨cert, hmem, hpath⟩] at hthere
          cases hthere
      · intro ⟨cert, hcert, hpath, hbody⟩
        rw [← hpath, ← hbody]
        exact files_kept hfiles hplace (hperm.mem_iff.mpr hcert) (hmarked cert hcert) world.machine
  constructor
  · intro h
    have hnamed := named_iff.mp h.named
    exact ⟨hnamed, (hwhole hnamed).mp h.reaches⟩
  · intro h
    exact ⟨⟨certs, hobject, hperm⟩, named_iff.mpr h.named, (hwhole h.named).mpr h.marked⟩

omit [Runtime] in
theorem slash_hostName {text : String} (h : hostName text = true) : '/' ∉ text.toList := by
  intro hmem
  obtain ⟨part, hpart, hin⟩ := @List.mem_splitOnP_of_mem Char (· == '.') text.toList '/' hmem rfl
  have hlabel : String.ofList part ∈ Text.split '.' text := List.mem_map.mpr ⟨part, hpart, rfl⟩
  have hslash : ∀ (first : Char → Bool) (label : String), first '/' = false → hostLabel first label = true →
      '/' ∉ label.toList := by
    intro first label hfirst h hmem
    simp only [hostLabel, Bool.and_eq_true, List.all_eq_true] at h
    obtain ⟨⟨⟨-, hhead⟩, hall⟩, -⟩ := h
    cases hchars : label.toList with
    | nil =>
        rw [hchars] at hmem
        cases hmem
    | cons c rest =>
        rw [hchars] at hmem hhead hall
        rcases List.mem_cons.mp hmem with rfl | hrest
        · exact absurd hhead (by simp [hfirst])
        · exact absurd (hall '/' hrest) (by decide)
  rw [hostName, Bool.and_eq_true] at h
  obtain ⟨-, h⟩ := h
  split at h
  · cases h
  · rename_i first labels hsplit
    rw [Bool.and_eq_true, List.all_eq_true] at h
    rw [hsplit] at hlabel
    rcases List.mem_cons.mp hlabel with rfl | hlater
    · exact hslash _ _ (by decide) h.1 (by simpa using hin)
    · exact hslash _ _ (by decide) (h.2 _ hlater) (by simpa using hin)

theorem slash_validateName {name valid : String} (h : validateName name = some valid) : '/' ∉ valid.toList := by
  unfold validateName at h
  dsimp only at h
  generalize Text.stripEnd (· = '.') (lower (Text.strip Runtime.blank name)) = text at h
  obtain ⟨hhost, rfl⟩ := (Option.guard_eq_some_iff.mp h).symm
  intro hmem
  split_ifs at hhost with hends
  · refine slash_hostName hhost ?_
    rw [Text.endsWith, List.isSuffixOf_iff_suffix] at hends
    obtain ⟨before, hbefore⟩ := hends
    have hnewline : "\n".toList = ['\n'] := rfl
    rw [← hbefore, hnewline, List.mem_append, List.mem_singleton] at hmem
    rw [String.toList_ofList, ← hbefore, hnewline, List.dropLast_concat]
    exact hmem.resolve_right (by decide)
  · exact slash_hostName hhost hmem

/-- No name of a certificate leads into another directory, and the machine knows what it has of them. -/
structure Tidy (world : World) : Prop where
  slash : ∀ anchor ∈ world.anchors, '/' ∉ anchor.name.toList
  machine : Owned world.machine

variable {services : Services} {world : World}

section
omit [Runtime]

theorem trusted_perm : (trusted services world).Perm (held world) :=
  List.Perm.append_left _ ((List.mergeSort_perm _ _).map _)

theorem asked_same {move : Move} {before : World} (h : asked world move = some before) :
    before.anchors = world.anchors ∧ before.machine = world.machine := by
  cases move with
  | initialise body publishRoot allowed =>
      simp only [asked, initialise, Option.ite_none_right_eq_some, Option.ite_none_left_eq_some, Option.some.injEq] at h
      obtain ⟨-, -, rfl⟩ := h
      exact ⟨rfl, rfl⟩
  | publish allowed =>
      simp only [asked, Option.ite_none_right_eq_some, Option.some.injEq] at h
      obtain ⟨-, rfl⟩ := h
      exact ⟨rfl, rfl⟩
  | addTrusted name certificatePem id allowed => cases h
  | removeTrusted id allowed => cases h
  | apply => cases h

theorem publish_eq_none : publish services world = none ↔ held world = [] := by
  have hempty : trusted services world = [] ↔ held world = [] := by
    rw [← List.length_eq_zero_iff, trusted_perm.length_eq, List.length_eq_zero_iff]
  unfold publish
  split_ifs with htrusted
  · exact iff_of_true rfl (hempty.mp htrusted)
  · exact iff_of_false id fun hnone => htrusted (hempty.mpr hnone)

end

theorem Tidy.right_iff_fits (h : Tidy world) (move : Move) : Right services world move ↔ Fits world move := by
  unfold Right published Fits
  cases hasked : asked world move with
  | none => simp
  | some before =>
      obtain ⟨hanchors, hmachine⟩ := asked_same hasked
      have hslash : ∀ cert ∈ held before, '/' ∉ cert.name.toList := by
        intro cert hcert
        rcases List.mem_append.mp hcert with hroot | hadded
        · obtain ⟨pem, -, rfl⟩ := Option.mem_map.mp (Option.mem_toList.mp hroot)
          have hname : '/' ∉ "odm-root-ca".toList := by decide
          exact hname
        · obtain ⟨anchor, hanchor, rfl⟩ := List.mem_map.mp hadded
          exact h.slash anchor (hanchors ▸ hanchor)
      rw [Option.bind_some]
      cases hpublish : publish services before with
      | none =>
          refine iff_of_true nofun fun other hother => ?_
          rw [← Option.mem_some_iff.mp hother, publish_eq_none.mp hpublish]
          exact ⟨List.Pairwise.nil, nofun⟩
      | some after =>
          unfold publish at hpublish
          split_ifs at hpublish
          have hafter := Option.some.inj hpublish
          have hexact := @exact_iff _ { before with object := some (trusted services before) } _ rfl trusted_perm
            (hmachine ▸ h.machine) hslash
          constructor
          · intro hright other hother
            rw [← Option.mem_some_iff.mp hother]
            exact hexact.mp (hafter ▸ hright after rfl)
          · intro hfits other hother
            rw [← Option.mem_some_iff.mp hother, ← hafter]
            exact hexact.mpr (hfits before rfl)

omit [Runtime] in
theorem published_same {move : Move} {after : World} (h : published services world move = some after) :
    after.anchors = world.anchors ∧ after.machine = world.machine := by
  obtain ⟨before, hasked, hpublish⟩ := Option.bind_eq_some_iff.mp h
  unfold publish at hpublish
  split_ifs at hpublish
  obtain rfl := Option.some.inj hpublish
  exact ⟨(asked_same hasked).1, (asked_same hasked).2⟩

omit [Runtime] in
theorem Tidy.same (h : Tidy world) {other : World} (hanchors : other.anchors = world.anchors)
    (hmachine : other.machine = world.machine) : Tidy other :=
  ⟨hanchors ▸ h.slash, hmachine ▸ h.machine⟩

theorem Tidy.next (h : Tidy world) (move : Move) : Tidy (TrustPublishing.next services world move) := by
  cases move with
  | initialise body publishRoot allowed =>
      cases hpublished : published services world (.initialise body publishRoot allowed) with
      | some after =>
          rw [TrustPublishing.next, hpublished]
          exact h.same (published_same hpublished).1 (published_same hpublished).2
      | none =>
          rw [TrustPublishing.next, hpublished, Option.getD_none]
          unfold initialise
          split_ifs
          · exact h
          · exact h.same rfl rfl
          · exact h
  | addTrusted name certificatePem id allowed =>
      rw [TrustPublishing.next]
      split_ifs
      · cases hadded : addTrusted services world name certificatePem id with
        | none => exact h
        | some after =>
            simp only [addTrusted, Option.bind_eq_bind, Option.bind_eq_some_iff, Option.guard_eq_some',
              Option.pure_def, Option.some.injEq] at hadded
            obtain ⟨_, -, valid, hvalid, _, -, _, -, rfl⟩ := hadded
            refine ⟨fun anchor hanchor => ?_, h.machine⟩
            rcases List.mem_append.mp hanchor with hanchor | hanchor
            · exact h.slash anchor hanchor
            · rw [List.mem_singleton.mp hanchor]
              exact slash_validateName hvalid
      · exact h
  | removeTrusted id allowed =>
      rw [TrustPublishing.next]
      split_ifs
      · exact ⟨fun anchor hanchor => h.slash anchor (List.mem_filter.mp hanchor).1, h.machine⟩
      · exact h
  | publish allowed =>
      cases hpublished : published services world (.publish allowed) with
      | some after =>
          rw [TrustPublishing.next, hpublished]
          exact h.same (published_same hpublished).1 (published_same hpublished).2
      | none =>
          rw [TrustPublishing.next, hpublished]
          exact h
  | apply =>
      refine ⟨h.slash, ?_⟩
      show Owned (applied world)
      unfold applied
      split
      · exact h.machine.next _
      · exact h.machine

/-- No certificate is added yet, and a machine has none. -/
structure World.Fresh (world : World) : Prop where
  anchors : world.anchors = []
  files : ∀ place ∈ places, ∀ anchor : TrustedCert, world.machine.files (located (place anchor)) = none
  saved : world.machine.saved = {}

omit [Runtime] in
theorem World.Fresh.tidy (h : world.Fresh) : Tidy world := by
  refine ⟨?_, ?_, ?_⟩
  · rw [h.anchors]
    exact fun anchor hanchor => absurd hanchor List.not_mem_nil
  · exact fun place hplace anchor hthere => absurd (h.files place hplace anchor) hthere
  · rw [h.saved]
    exact fun place hplace anchor => List.not_mem_nil

/-- In every run from there, each publish is exact precisely when no two names of what it publishes are alike once their
dots are dashes and every text has the line that certificates begin with. -/
theorem publishes_exact_iff (services : Services) (start : World) (hfresh : start.Fresh) (moves : List Move) :
    Steps.Each (next services) (Right services) start moves ↔ Steps.Each (next services) Fits start moves :=
  @Steps.each_iff World Move Tidy (next services) (Right services) Fits (fun _ move h _ => h.next move)
    (fun _ move h => h.right_iff_fits move) start hfresh.tidy moves

omit [Runtime] in
theorem fresh_empty : World.Fresh {} := ⟨rfl, fun _ _ _ => rfl, rfl⟩

/-- Every text is read as a certificate. -/
def lenient : Services := ⟨fun name other => decide (name ≤ other), fun _ => true⟩

def vendor : String := rootPem "vendor"

omit [Runtime] in
theorem publishes_exact_iff_fresh :
    letI := Runtime.latin
    Steps.Each (next lenient) (Right lenient) {} [.addTrusted "vendor" vendor "1" true, .publish true, .apply] ↔
      Steps.Each (next lenient) Fits {} [.addTrusted "vendor" vendor "1" true, .publish true, .apply] :=
  @publishes_exact_iff Runtime.latin lenient {} fresh_empty _

omit [Runtime] in
/-- A certificate added under the name the root is published under, and two whose names share a file. -/
theorem publishes_meet :
    letI := Runtime.latin
    ¬ Steps.Each (next lenient) (Right lenient) {} [.initialise "root" false true,
        .addTrusted "odm-root-ca" vendor "1" true, .publish true] ∧
      ¬ Steps.Each (next lenient) (Right lenient) {} [.addTrusted "web.example" vendor "1" true,
        .addTrusted "web-example" (rootPem "other") "2" true, .publish true] := by
  let _ := Runtime.latin
  have htidy : ∀ first second, Tidy (next lenient (next lenient {} first) second) :=
    fun first second => (fresh_empty.tidy.next first).next second
  constructor
  · intro ⟨_, _, hright, _⟩
    have hfits := ((htidy _ _).right_iff_fits _).mp hright _ rfl
    exact absurd hfits.named (by decide)
  · intro ⟨_, _, hright, _⟩
    have hfits := ((htidy _ _).right_iff_fits _).mp hright _ rfl
    exact absurd hfits.named (by decide +kernel)

end OpenDirectory.TrustPublishing
