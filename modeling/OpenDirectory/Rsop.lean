import OpenDirectory.Admx
import OpenDirectory.BrowserNative
import OpenDirectory.PolicyDocument

/-! The effective policy of one machine, as it is handed out: the merged document, the templates
expanded into it, the typed browser settings folded into native policy, and what only the control
plane knows attached. -/

namespace OpenDirectory.Rsop

open Policy (Gpo Link Target)

variable [Runtime]

structure Role where
  name : String
  node : String
  state : String

/-- What a machine has reported of itself. -/
structure Fact where
  computerDn : String
  hostname : String := ""
  operatingSystem : String := ""
  hardware : Value := .null

structure Package where
  id : String
  packageName : String
  version : String
  sha256 : String

/-- A peer of a tunnel, with what it needs of the tunnel. -/
structure Peer where
  principalDn : String
  address : String
  privateKey : String
  enabled : Bool
  tunnel : String
  endpoint : String
  listenPort : Nat
  publicKey : String
  routes : List String
  dnsServers : List String
  searchDomain : String
  network : String

structure Probe where
  id : String
  name : String
  kind : String
  target : String
  port : Nat
  intervalSeconds : Nat
  enabled : Bool

/-- The rows the effective policy is built from, those of `server_role` the most recently updated
first, and the settings of the domain. -/
structure Plane where
  gpos : List (String × Gpo) := []
  links : List Link := []
  blocked : List String := []
  templates : List (String × Admx.Policy) := []
  packages : List Package := []
  peers : List Peer := []
  roles : List Role := []
  facts : List Fact := []
  probes : List Probe := []
  /-- The root certificate, once the domain has an authority. -/
  rootPem : String := ""
  baseDn : String
  domain : String := ""
  consoleUrl : String := ""

/-- What the directory says of an object. -/
structure Entry where
  dn : String
  hostname : String := ""
  operatingSystem : String := ""
  groupDns : List String := []

structure Document extends Policy.Document where
  admxNotes : List Value := []
  monitoring : Option Value := none

/-- A browser's document with the template's policies under those set explicitly. -/
def underlay (browser : Value) (generated : String × Value.Fields) : Except Raised Value := do
  let explicit ← ((← browser.get generated.1).getD (.obj [])).spread
  browser.setItem generated.1 (.obj (Dict.update generated.2 explicit))

def applyAdmx (definitions : List (String × Admx.Policy)) (settings : Value.Fields) :
    Except Raised (Value.Fields × List Value) := do
  let selections := (Dict.get settings "admx").getD .null
  let settings := Dict.erase settings "admx"
  if !selections.truthy then return (settings, [])
  let (generated, notes) ← Admx.expand selections definitions
  let browser ← generated.foldlM underlay ((Dict.get settings "browser").getD (.obj []))
  if browser.truthy then return (Dict.set settings "browser" browser, notes)
  else return (Dict.erase settings "browser", notes)

/-- The machine that serves the vault, if one does. -/
def vaultNode (roles : List Role) : String :=
  match roles.find? fun role => role.name = "password-manager" ∧ role.state = "active" with
  | none => ""
  | some role => role.node

def vaultUrl (plane : Plane) : String := Text.stripEnd (· = '/') plane.consoleUrl ++ "/vault"

/-- The vault a password-manager setting without an address of its own is pointed at. -/
def offeredVault (plane : Plane) (settings : Value.Fields) : String :=
  if (Dict.get settings "password_manager").isSome && vaultNode plane.roles ≠ "" then vaultUrl plane
  else ""

def configuration (peer : Peer) : Value :=
  .obj [("name", .str peer.tunnel), ("address", .str peer.address),
    ("private_key", .str peer.privateKey), ("peer_public_key", .str peer.publicKey),
    ("endpoint", .str (peer.endpoint ++ ":" ++ toString peer.listenPort)),
    ("allowed_ips", Browser.texts (if peer.routes.isEmpty then [peer.network] else peer.routes)),
    ("dns", Browser.texts peer.dnsServers), ("search_domain", .str peer.searchDomain)]

def findPeer (peers : List Peer) (tunnel : Value) (dn : String) : Except Raised (Option Peer) :=
  match tunnel with
  | .str name =>
      .ok (peers.find? fun peer => peer.tunnel = name ∧ lower peer.principalDn = lower dn)
  | _ => .error .databaseError

/-- The tunnel's configuration for the machine told to hold it up. -/
def attachVpn (peers : List Peer) (dn : String) (settings : Value.Fields) :
    Except Raised Value.Fields := do
  let alwaysOn := (Dict.get settings "always_on_vpn").getD .null
  if !alwaysOn.truthy then return settings
  let tunnel := (← alwaysOn.get "tunnel").getD .null
  if !tunnel.truthy then return settings
  let alwaysOn ← match ← findPeer peers tunnel dn with
    | some peer =>
        if peer.enabled && peer.privateKey ≠ "" then
          alwaysOn.setItem "configuration" (configuration peer)
        else alwaysOn.setItem "unavailable" (.str "this machine has no peer on that tunnel")
    | none => alwaysOn.setItem "unavailable" (.str "this machine has no peer on that tunnel")
  return Dict.set settings "always_on_vpn" alwaysOn

/-- `str(item.get("package_id") or "")`. -/
def packageId (item : Value) : Except Raised String := do
  return (Browser.orElse ((← item.get "package_id").getD .null) (.str "")).text

/-- The rows of some ids, each cast to a UUID. -/
def fetchPackages (packages : List Package) (ids : List String) : Except Raised (List Package) := do
  let wanted ← ids.mapM fun id => match Runtime.uuid id with
    | some uuid => Except.ok uuid
    | none => .error Raised.databaseError
  return packages.filter (·.id ∈ wanted)

def describePackage (found : List Package) (item : Value) : Except Raised Value := do
  let id ← packageId item
  match found.find? (·.id = id) with
  | none => item.setItem "unavailable" (.str "this package was removed from the console")
  | some package =>
      let item ← item.setItem "package_name" (.str package.packageName)
      let item ← item.setItem "version" (.str package.version)
      item.setItem "sha256" (.str package.sha256)

/-- What the package tool needs to know of the uploaded packages, attached to their entries. -/
def attachCustomPackages (packages : List Package) (settings : Value.Fields) :
    Except Raised Value.Fields := do
  let custom := (Dict.get settings "custom_packages").getD .null
  if !custom.truthy then return settings
  let items ← custom.iterate
  let ids := (← items.mapM packageId).filter (· ≠ "")
  if ids.isEmpty then return settings
  let found ← fetchPackages packages ids
  return Dict.set settings "custom_packages" (.arr (← items.mapM (describePackage found)))

/-- `value.append(item)`. -/
def append (value item : Value) : Except Raised Value :=
  match value with
  | .arr items => .ok (.arr (items ++ [item]))
  | _ => .error .attributeError

/-- An entry added to a list category unless one there has the same value in a field. -/
def addUnlessNamed (settings : Value.Fields) (category key : String) (name entry : Value) :
    Except Raised Value.Fields := do
  let present := (Dict.get settings category).getD (.arr [])
  let settings := Dict.setDefault settings category (.arr [])
  if ← (← present.iterate).anyM fun item => do return (← item.get key) = some name then
    return settings
  else return Dict.set settings category (← append present entry)

/-- The root among the certificates Chromium is given, if those are a list. -/
def listRoot (root : String) (chromium : Value) : Except Raised Value := do
  let (chromium, listed) ← chromium.setDefault "CACertificates" (.arr [])
  match listed with
  | .arr items =>
      if Value.str root ∈ items then return chromium
      else chromium.setItem "CACertificates" (.arr (items ++ [.str root]))
  | _ => return chromium

/-- The authority's root handed to the browsers: Chromium is given the certificate itself. -/
def trustInBrowsers (root : String) (settings : Value.Fields) : Except Raised Value.Fields := do
  let browser := (Dict.get settings "browser").getD (.obj [])
  let (browser, chromium) ← browser.setDefault "chromium" (.obj [])
  let browser ← browser.setItem "chromium" (← listRoot root chromium)
  let (browser, _) ← browser.setDefault "firefox" (.obj [])
  return Dict.set settings "browser" browser

def trustAuthority (root : String) (wanted : Value) (settings : Value.Fields) :
    Except Raised Value.Fields := do
  let settings ← addUnlessNamed settings "trusted_certificates" "name" (.str "domain-authority")
    (.obj [("name", .str "domain-authority"), ("certificate_pem", .str root)])
  if ← Browser.switchedOn wanted "browsers" then trustInBrowsers root settings
  else return settings

def enrolMachine (wanted : Value) (settings : Value.Fields) : Except Raised Value.Fields := do
  if !((← wanted.get "machine_certificate").getD .null).truthy then return settings
  let path := Browser.orElse ((← wanted.get "machine_certificate_path").getD .null)
    (.str "/etc/ssl/odm")
  addUnlessNamed settings "certificate_enrolment" "profile" (.str "client")
    (.obj [("profile", .str "client"), ("path", path), ("validity_days", .int 365),
      ("renew_before_days", .int 30)])

/-- The certificates setting turned into the settings that exist for each of its parts. -/
def attachCertificates (rootPem : String) (settings : Value.Fields) :
    Except Raised Value.Fields := do
  let wanted := (Dict.get settings "certificates").getD .null
  if !wanted.truthy then return settings
  if rootPem = "" then
    let wanted ← wanted.setItem "unavailable"
      (.str "this domain has no certificate authority yet")
    enrolMachine wanted (Dict.set settings "certificates" wanted)
  else if ← Browser.switchedOn wanted "trust_domain_authority" then
    enrolMachine wanted (← trustAuthority rootPem wanted settings)
  else enrolMachine wanted settings

def probeBlock (probe : Probe) : Value :=
  .obj [("id", .str probe.id), ("name", .str probe.name), ("kind", .str probe.kind),
    ("target", .str probe.target), ("port", .int probe.port),
    ("interval_seconds", .int probe.intervalSeconds)]

/-- Whether the machine measures itself, and what it probes when it carries the role. -/
def monitoring (plane : Plane) (dn : String) : Option Value :=
  let monitors := plane.roles.filter (·.name = "monitoring")
  if monitors.all (·.state = "removed") then none
  else
    let hostname := ((plane.facts.find? fun fact => lower fact.computerDn = lower dn).map
      Fact.hostname).getD ""
    let probing := monitors.any fun role =>
      role.state = "active" && lower role.node = lower hostname
    some (.obj [("enabled", .bool true), ("interval_seconds", .int 60),
      ("probes", .arr (if probing then (plane.probes.filter Probe.enabled).map probeBlock else []))])

def firstPart (dn : String) : String := (Text.split ',' dn).headD ""

/-- The operating system a machine last said it runs, under its own name or, failing that, under
one with the same first part. -/
def remembered (facts : List Fact) (dn : String) : String :=
  let own := facts.find? fun fact => lower fact.computerDn = lower dn
  let alike := facts.find? fun fact => lower (firstPart fact.computerDn) = lower (firstPart dn)
  ((own.or alike).map Fact.operatingSystem).getD ""

def firstNonempty (s default : String) : String := if s = "" then default else s

def targetFacts (plane : Plane) (entry : Entry) (osId : String) (ipAddresses : List String) : Target where
  dn := entry.dn
  hostname := entry.hostname
  osId := firstNonempty (firstNonempty osId (remembered plane.facts entry.dn)) entry.operatingSystem
  ipAddresses
  groupDns := entry.groupDns

/-- The links as they would be after a change: without some, named by object and container, and
with others at the end. -/
def changedLinks (links addLinks : List Link) (dropLinks : List (String × String)) : List Link :=
  links.filter (fun link => (link.gpoGuid, lower link.targetDn) ∉ dropLinks) ++ addLinks

/-- Everything done to the merged settings. -/
def resolve (plane : Plane) (dn : String) (merged : Value.Fields) :
    Except Raised (Value.Fields × List Value) := do
  let (settings, notes) ← applyAdmx plane.templates merged
  let settings ← Browser.fold settings (offeredVault plane settings) plane.consoleUrl
  let settings ← attachVpn plane.peers dn settings
  let settings ← attachCustomPackages plane.packages settings
  let settings ← attachCertificates plane.rootPem settings
  return (settings, notes)

def build (plane : Plane) (entry : Entry) (osId : String) (ipAddresses : List String)
    (addLinks : List Link) (dropLinks : List (String × String)) : Except Raised Document := do
  let target := targetFacts plane entry osId ipAddresses
  let document ← Policy.effectivePolicy (Policy.containerChain target.dn plane.baseDn)
    (changedLinks plane.links addLinks dropLinks) plane.gpos plane.blocked target
  let (settings, notes) ← resolve plane target.dn document.settings
  return {
    toDocument := { document with
      settings
      serial := Policy.serial document.appliedGpos settings }
    admxNotes := notes
    monitoring := monitoring plane target.dn }

end OpenDirectory.Rsop
