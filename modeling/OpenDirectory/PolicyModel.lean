import OpenDirectory.Address
import OpenDirectory.Value

/-! The inputs of policy resolution and the question whether a policy object is for a target at all:
security filtering and item-level targeting. The filter, the targeting and the settings of an object
are what its database row holds, so their shapes are not trusted here; reading one of an unexpected
shape raises. -/

namespace OpenDirectory.Policy

variable [Runtime]

/-- The fields that identify one entry of each list category. -/
def listKeys : List (String × List String) := [
  ("files", ["path"]),
  ("scripts", ["trigger", "name"]),
  ("systemd_units", ["unit"]),
  ("cron", ["name"]),
  ("firewall", ["name"]),
  ("drive_maps", ["mount_point"]),
  ("sudo_rules", ["name"]),
  ("hbac_rules", ["principal", "service"]),
  ("trusted_certificates", ["name"]),
  ("packages", ["name"]),
  ("custom_packages", ["name"]),
  ("printers", ["name", "for_principal"]),
  ("remote_desktop_files", ["name", "for_principal"]),
  ("default_applications", ["mime_type"]),
  ("sysctl", ["key"]),
  ("shortcuts", ["name", "for_principal"]),
  ("fonts", ["name"]),
  ("dash", ["name", "for_principal"]),
  ("certificate_enrolment", ["profile", "path"]),
  ("admx", ["policy_id"]),
  ("wifi_networks", ["ssid"]),
  ("logon_hours", ["principal", "start", "end"]),
  ("web_apps", ["name"])]

def dictCategories : List String := [
  "browser", "firefox_policy", "chromium_policy", "wallpaper", "agent", "updates", "login_screen",
  "roaming_profile", "always_on_vpn", "local_password_policy", "power", "screen_lock",
  "removable_storage", "device_control", "computer_names", "password_manager", "desktop_theme",
  "second_factor", "first_run", "software_control", "regional", "firmware_updates"]

structure Gpo where
  guid : String
  displayName : String
  enabled : Bool
  settings : Value.Fields
  securityFilter : Value := .arr []
  targeting : Value := .obj []
  settingsDistinct : (Value.obj settings).distinct = true := by decide

structure Link where
  gpoGuid : String
  targetDn : String
  linkOrder : Int
  enforced : Bool := false
  enabled : Bool := true

/-- Everything a filtering or targeting decision can depend on. -/
structure Target where
  dn : String
  hostname : String := ""
  osId : String := ""
  ipAddresses : List String := []
  groupDns : List String := []

/-- Split on unescaped commas. -/
def splitDnChars (current : List Char) (escaped : Bool) : List Char → List (List Char)
  | [] => if current.isEmpty then [] else [current]
  | c :: rest =>
      if escaped then splitDnChars (current ++ [c]) false rest
      else if c = '\\' then splitDnChars (current ++ [c]) true rest
      else if c = ',' then current :: splitDnChars [] false rest
      else splitDnChars (current ++ [c]) false rest

def splitDn (dn : String) : List String := (splitDnChars [] false dn.toList).map String.ofList

/-- Domain head first, immediate parent last. -/
def containerChain (dn baseDn : String) : List String :=
  if (lower baseDn).toList.isSuffixOf (lower dn).toList then
    let relative := String.ofList (dn.toList.take (dn.length - (baseDn.length + 1)))
    let parts := (splitDn relative).drop 1
    baseDn :: (List.range parts.length).reverse.map fun index =>
      Text.join "," (parts.drop index ++ [baseDn])
  else []

/-- The first refusal among some checks made in order. -/
def firstRefusal : List (Except Raised Bool × String) → Except Raised (Bool × String)
  | [] => .ok (true, "")
  | (check, reason) :: rest => do
      if ← check then firstRefusal rest else return (false, reason)

def networkOf : Value → Option Address.Network
  | .str entry => Address.ipNetwork entry
  | .int n => Address.ipNetworkOfInt n
  | .bool b => Address.ipNetworkOfInt b.toNat
  | _ => none

/-- A malformed range or address matches nothing. -/
def ipMatches (addresses : List String) (ranges : Value) : Except Raised Bool := do
  let networks := (← ranges.iterate).filterMap networkOf
  return addresses.any fun address =>
    match Address.ipAddress address with
    | none => false
    | some host => networks.any (·.contains host)

/-- Whether two sets of names meet, ignoring case; the first is as a row holds it. -/
def namesMeet (names : Value) (known : List String) : Except Raised Bool := do
  let wanted ← (← names.iterate).mapM Value.lowered
  return wanted.any fun name => name ∈ known.map lower

/-- A condition left unset holds. -/
def whenSet (wanted : Value) (check : Except Raised Bool) : Except Raised Bool :=
  if wanted.truthy then check else .ok true

def targetingMatches (targeting : Value) (target : Target) : Except Raised (Bool × String) := do
  let wantedOs := (← targeting.get "os").getD .null
  let pattern := (← targeting.get "hostname_pattern").getD .null
  let wantedGroups := (← targeting.get "security_groups").getD .null
  let ranges := (← targeting.get "ip_ranges").getD .null
  firstRefusal [
    (whenSet wantedOs (wantedOs.contains target.osId), "os targeting"),
    (whenSet pattern (.ok (Text.fnmatch (lower target.hostname) (lower pattern.text))),
      "hostname targeting"),
    (whenSet wantedGroups (namesMeet wantedGroups target.groupDns), "group targeting"),
    (whenSet ranges (ipMatches target.ipAddresses ranges), "ip targeting")]

/-- Security filtering plus item-level targeting: whether the object applies, and why not. -/
def inScope (gpo : Gpo) (target : Target) : Except Raised (Bool × String) :=
  if !gpo.enabled then .ok (false, "gpo disabled")
  else do
    let filtered ← whenSet gpo.securityFilter
      (namesMeet gpo.securityFilter (target.dn :: target.groupDns))
    if !filtered then return (false, "security filtering")
    targetingMatches (if gpo.targeting.truthy then gpo.targeting else .obj []) target

end OpenDirectory.Policy
