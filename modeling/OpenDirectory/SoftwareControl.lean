import OpenDirectory.AccessFile
import OpenDirectory.AgentPass
import OpenDirectory.AgentPrune

/-! The list of software that may be installed, and what a pass that applies it says of itself. The serial of
a policy is recorded when nothing failed; what is put off to the next pass has not failed. -/

namespace OpenDirectory.SoftwareControl

open Agent (Applied Document Env Files State goSpace header lastSerial prune saveSerial unchanged writeFile)

structure Control where
  enabled : Bool := true
  allowed : List String := []
  blockFlatpak : Bool := true
  blockSnap : Bool := true
  message : String := ""

structure Package where
  name : String
  state : String := "present"

structure CustomPackage where
  packageName : String
  state : String := "present"
  unavailable : String := ""

structure Settings where
  softwareControl : Option Control := none
  packages : List Package := []
  customPackages : List CustomPackage := []

inductive Status where
  | success
  | failed
  | skipped
  deriving DecidableEq

structure Result where
  setting : String
  status : Status
  reason : String := ""

def aptAllowlist : String := "/etc/apt/apt.conf.d/50-odm-software-control"

def aptAllowScript : String := "/usr/lib/odm/apt-allowlist"

def aptAllowNames : String := "/etc/odm/allowed-software"

def aptAllowResolved : String := "/etc/odm/allowed-software.resolved"

def softwarePolkit : String := "/etc/polkit-1/rules.d/50-odm-software.rules"

def controlled : List String := [
  aptAllowlist, aptAllowScript, aptAllowNames, aptAllowResolved, softwarePolkit]

def globChar (c : Char) : Bool :=
  ('a' ≤ c && c ≤ 'z') || ('0' ≤ c && c ≤ '9') || c = '+' || c = '.' || c = '_' || c = '-'

def safePackageGlob (name : String) : Bool :=
  name ≠ "" && name.utf8ByteSize ≤ 128 &&
    (name.toList.all globChar || name.toList.getLast? = some '*' && name.toList.dropLast.all globChar)

/-- In order, each once. -/
def compacted (names : List String) : List String := (names.sortedBy id).destutter (· ≠ ·)

/-- The names the operator lists, and whatever the policy itself deploys. -/
def namesOf (settings : Settings) (control : Control) : List String :=
  compacted (control.allowed.filter safePackageGlob ++
    (settings.packages.filter fun wanted => wanted.state ≠ "absent" && safePackageGlob wanted.name).map
      Package.name ++
    (settings.customPackages.filter fun wanted =>
      wanted.state ≠ "absent" && wanted.unavailable = "" && safePackageGlob wanted.packageName).map
      CustomPackage.packageName)

def namesText (names : List String) : String := header ++ Text.join "\n" names ++ "\n"

def confText : String :=
  header ++ "DPkg::Pre-Install-Pkgs \x7b\"" ++ aptAllowScript ++ "\";\x7d;\n" ++
    "DPkg::Tools::options::\"" ++ aptAllowScript ++ "\"::Version \"2\";\n"

/-- The message as it may stand between the double quotes of a shell. -/
def scriptMessage (message : String) : String :=
  let given := if message = "" then "Ask your administrator." else message
  let kept := String.ofList (given.toList.filter fun c => c ∉ ['"', '\\', '$', '\x60', '\n', '\r'])
  if Text.strip goSpace kept = "" then "Ask your administrator." else kept

def allowlistScript (message : String) : String := Text.join "\n" [
  "#!/bin/sh",
  header,
  "# Refuse a package that is not on this machine's allowed list.",
  "#",
  "# dpkg hands us a block of settings, a blank line, and then one line per",
  "# package in the form",
  "#",
  "#   <name> <old version> <direction> <new version> <file>",
  "#",
  "# where the old version is \"-\" for something not installed yet, and the file",
  "# is **CONFIGURE** on the second pass over the same packages. Both matter: read",
  "# as four fields the direction is mistaken for the new version, and counting",
  "# the configure pass reports every refused package twice.",
  "",
  "LIST=" ++ aptAllowNames,
  "RESOLVED=" ++ aptAllowResolved,
  "[ -r \"$LIST\" ] || exit 0",
  "",
  "# Past the settings block.",
  "while read -r line; do",
  "    [ -z \"$line\" ] && break",
  "done",
  "",
  "# allowed <name> — against the operator's list and the dependencies of what is",
  "# on it. A trailing * matches a prefix.",
  "allowed() \x7b",
  "    for file in \"$LIST\" \"$RESOLVED\"; do",
  "        [ -r \"$file\" ] || continue",
  "        while IFS= read -r pattern; do",
  "            case \"$pattern\" in ''|'#'*) continue ;; esac",
  "            case \"$pattern\" in",
  "                *'*')",
  "                    prefix=\"$\x7bpattern%\\*\x7d\"",
  "                    case \"$1\" in \"$prefix\"*) return 0 ;; esac",
  "                    ;;",
  "                *)",
  "                    [ \"$1\" = \"$pattern\" ] && return 0",
  "                    ;;",
  "            esac",
  "        done < \"$file\"",
  "    done",
  "    return 1",
  "\x7d",
  "",
  "REFUSED=\"\"",
  "while read -r name old direction new file; do",
  "    [ -n \"$name\" ] || continue",
  "    # The configure pass is the same packages again.",
  "    [ \"$file\" = \"**CONFIGURE**\" ] && continue",
  "    # An upgrade, a downgrade or a reinstall of something already here.",
  "    [ \"$old\" = \"-\" ] || continue",
  "",
  "    if ! allowed \"$name\"; then",
  "        case \" $REFUSED \" in",
  "            *\" $name \"*) ;;",
  "            *) REFUSED=\"$REFUSED $name\" ;;",
  "        esac",
  "    fi",
  "done",
  "",
  "if [ -n \"$REFUSED\" ]; then",
  "    echo \"\" >&2",
  "    echo \"odm: not on this machine's allowed software list:$REFUSED\" >&2",
  "    echo \"odm: " ++ scriptMessage message ++ "\" >&2",
  "    exit 1",
  "fi",
  "exit 0",
  ""]

def jsString (value : String) : String :=
  String.ofList ('"' :: (value.toList.flatMap (fun c =>
    if c = '"' || c = '\\' then ['\\', c] else if c.toNat < 0x20 || c.toNat = 0x7f then [] else [c]) ++ ['"']))

def blocked (control : Control) : List String :=
  ["org.freedesktop.packagekit.package-install", "org.freedesktop.packagekit.package-install-untrusted"] ++
    (if control.blockFlatpak then
      ["org.freedesktop.Flatpak.app-install", "org.freedesktop.Flatpak.runtime-install"] else []) ++
    if control.blockSnap then ["io.snapcraft.snapd.manage"] else []

def softwarePolkitRule (control : Control) : String := Text.join "\n" [
  "// Managed by Open Directory Manager. Edits here are overwritten.",
  "//",
  "// Installing software from the desktop, which does not go through apt and so",
  "// never reaches the list the package hook checks.",
  "polkit.addRule(function (action, subject) \x7b",
  "    var blocked = [" ++ Text.join ", " ((blocked control).map jsString) ++ "];",
  "    if (blocked.indexOf(action.id) >= 0) \x7b",
  "        return polkit.Result.NO;",
  "    \x7d",
  "\x7d);",
  ""]

/-- The names without an asterisk, which a package can be looked up by. -/
def exact (names : List String) : List String := names.filter fun name => !Text.endsWith name "*"

/-- The packages in what `apt-cache depends --recurse` prints: a line that is not one of them is indented or
in angle brackets. -/
def dependencies (out : String) : List String :=
  compacted (((Text.split '\n' out).filter fun line =>
    line.toList.head?.any fun c => c ≠ ' ' && c ≠ '|' && c ≠ '<').map (Text.strip goSpace) |>.filter safePackageGlob)

def resolvedText (out : String) : String :=
  header ++ "# What the allowed packages need. Worked out on this machine.\n" ++
    Text.join "\n" (dependencies out) ++ "\n"

/-- What the setting meets on the machine. -/
structure Chance where
  runner : Bool := true
  /-- Why a file cannot be written. -/
  writes : String → Option String := fun _ => none
  removes : String → Bool := fun _ => true
  /-- What there is to be said of the packages, and why `apt-cache` does not say it now. -/
  depends : String := ""
  aptCache : Option String := none

def put (chance : Chance) (env : Env) (path content : String) : Env × Option String :=
  ((writeFile (chance.writes path = none) env path content).1, chance.writes path)

def resolveAllowed (chance : Chance) (env : Env) (names : List String) : Env × Option String :=
  if exact names = [] ∨ !chance.runner then put chance env aptAllowResolved header
  else
    match chance.aptCache with
    | some error => (env, some ("resolving what the allowed packages need: " ++ error))
    | none => put chance env aptAllowResolved (resolvedText chance.depends)

def failure (setting error : String) : Result := ⟨setting, .failed, error⟩

/-- The files of a list that is in force. -/
def enforce (control : Control) (names : List String) (chance : Chance) (env : Env) : Env × List Result :=
  match put chance env aptAllowNames (namesText names) with
  | (env, some error) => (env, [failure "software_control" error])
  | (env, none) =>
  match put chance env aptAllowScript (allowlistScript control.message) with
  | (env, some error) => (env, [failure "software_control" error])
  | (env, none) =>
  match put chance env aptAllowlist confText with
  | (env, some error) => (env, [failure "software_control" error])
  | (env, none) =>
      let (env, unresolved) := resolveAllowed chance env names
      let (env, undesked) := put chance env softwarePolkit (softwarePolkitRule control)
      (env,
        (unresolved.map fun error => (⟨"software_control:dependencies", .skipped,
          "what the allowed packages need could not be worked out (" ++ error ++
            "), so only the names themselves are allowed until the next refresh"⟩ : Result)).toList ++
        [⟨"software_control", .success, ""⟩,
          undesked.elim ⟨"software_control:desktop", .success, ""⟩ (failure "software_control:desktop")])

def applySoftwareControl (settings : Settings) (chance : Chance) (env : Env) : Env × List Result :=
  match settings.softwareControl.filter Control.enabled with
  | some control => enforce control (namesOf settings control) chance env
  | none =>
      let removed := controlled.filter fun path => (env.files path).isSome && chance.removes path
      ({ env with files := removed.foldl Files.remove env.files },
        if settings.softwareControl = none ∧ removed = [] then [] else [⟨"software_control", .success, ""⟩])

/-- How another applier ends: what it says, and whether its settings are in force then. -/
structure Other where
  results : List Result
  inForce : Bool

structure Pass where
  force : Bool := false
  version : String
  document : Document
  settings : Settings
  chance : Chance := {}
  others : List Other := []
  prunes : String → Bool := fun _ => true
  /-- Why the record of what the agent owns cannot be written. -/
  savesState : Option String := none
  reported : Option String := none
  savesSerial : Bool := true

structure World where
  files : Files
  /-- What the last pass owned. -/
  previous : State := {}
  whole : ∀ path ∈ controlled, path ∉ previous.blocks
  applied : Option Applied := none

structure After where
  files : Files
  applied : Option Applied
  results : List Result

/-- A pass that applies its policy. -/
def applies (world : World) (pass : Pass) : After :=
  let (env, own) := applySoftwareControl pass.settings pass.chance { files := world.files }
  let env := (prune pass.prunes (fun _ => {}) world.previous env).1
  let results := pass.others.flatMap Other.results ++ own ++
    (pass.savesState.map (failure "state")).toList
  { files := env.files
    results
    applied := if pass.reported = none ∧ results.countP (fun result => result.status = .failed) = 0 then
        saveSerial world.applied pass.document.serial pass.version pass.savesSerial
      else world.applied }

/-- Nothing is applied where nothing is new. -/
def applyOnce (world : World) (pass : Pass) : After :=
  if unchanged pass.force pass.document world.applied pass.version then ⟨world.files, world.applied, []⟩
  else applies world pass

/-- The list a policy puts in force. -/
def enabled (settings : Settings) : Option Control := settings.softwareControl.filter Control.enabled

/-- The files of a list in force, and what each has to hold. -/
def asked (control : Control) (names : List String) (depends : String) : List (String × String) := [
  (aptAllowNames, namesText names),
  (aptAllowScript, allowlistScript control.message),
  (aptAllowlist, confText),
  (aptAllowResolved, if exact names = [] then header else resolvedText depends),
  (softwarePolkit, softwarePolkitRule control)]

structure InForce (files : Files) (settings : Settings) (depends : String) : Prop where
  on : ∀ control ∈ enabled settings, ∀ entry ∈ asked control (namesOf settings control) depends,
    files entry.1 = some entry.2
  off : enabled settings = none → ∀ path ∈ controlled, files path = none

/-- A pass that applies a policy leaves it on record as applied only with all of it in force: what is not is
applied again by the next pass. -/
def Honest (world : World) (pass : Pass) : Prop :=
  unchanged pass.force pass.document world.applied pass.version = false →
    lastSerial (applyOnce world pass).applied pass.version = pass.document.serial →
      InForce (applyOnce world pass).files pass.settings pass.chance.depends ∧
        ∀ other ∈ pass.others, other.inForce = true

/-- Nothing says that it failed, and the record is written. -/
structure Clean (pass : Pass) : Prop where
  reported : pass.reported = none
  savesState : pass.savesState = none
  savesSerial : pass.savesSerial = true
  others : ∀ other ∈ pass.others, ∀ result ∈ other.results, result.status ≠ .failed
  writes : (enabled pass.settings).isSome →
    ∀ path ∈ [aptAllowNames, aptAllowScript, aptAllowlist, softwarePolkit], pass.chance.writes path = none

/-- The files written before another. -/
def before (path : String) : List String :=
  if path = aptAllowNames then []
  else if path = aptAllowScript then [aptAllowNames]
  else if path = aptAllowlist then [aptAllowNames, aptAllowScript]
  else [aptAllowNames, aptAllowScript, aptAllowlist]

/-- A file is come to, and written. -/
def Written (names : List String) (chance : Chance) (path : String) : Prop :=
  (∀ earlier ∈ before path, chance.writes earlier = none) ∧ chance.writes path = none ∧
    (path = aptAllowResolved → exact names = [] ∨ chance.runner = false ∨ chance.aptCache = none)

instance (names : List String) (chance : Chance) (path : String) : Decidable (Written names chance path) :=
  inferInstanceAs (Decidable (_ ∧ _ ∧ _))

/-- A file of the last pass that goes when this one does not write it. -/
def Pruned (world : World) (pass : Pass) (path : String) : Prop :=
  path ∈ world.previous.owned ∧ pass.prunes path = true

instance (world : World) (pass : Pass) (path : String) : Decidable (Pruned world pass path) :=
  inferInstanceAs (Decidable (_ ∧ _))

/-- Each file of the list is written, and with what the packages need where they need anything, or was there
already and stays; and where there is no list each file of one goes. -/
structure Stands (world : World) (pass : Pass) : Prop where
  on : ∀ control ∈ enabled pass.settings,
    ∀ entry ∈ asked control (namesOf pass.settings control) pass.chance.depends,
      if Written (namesOf pass.settings control) pass.chance entry.1 then
        entry.1 = aptAllowResolved → exact (namesOf pass.settings control) = [] ∨ pass.chance.runner = true
      else world.files entry.1 = some entry.2 ∧ ¬ Pruned world pass entry.1
  off : enabled pass.settings = none → ∀ path ∈ controlled,
    world.files path = none ∨ pass.chance.removes path = true ∨ Pruned world pass path

variable {chance : Chance} {env : Env} {path content : String}

/-- What the resolved packages come to, where they are written. -/
def resolvedNow (names : List String) (chance : Chance) : String :=
  if exact names = [] ∨ chance.runner = false then header else resolvedText chance.depends

def wrote (control : Control) (names : List String) (chance : Chance) : List (String × String) := [
  (aptAllowNames, namesText names),
  (aptAllowScript, allowlistScript control.message),
  (aptAllowlist, confText),
  (aptAllowResolved, resolvedNow names chance),
  (softwarePolkit, softwarePolkitRule control)]

theorem put_eq (chance : Chance) (env : Env) (path content : String) : put chance env path content =
    ((put chance env path content).1, chance.writes path) := rfl

variable {world : World} {pass : Pass}

variable {control : Control}

/-- A list fails to be put in force when one of its own files is not written; what the packages need is not
one of them. -/
theorem enforce_clean_iff {names : List String} :
    (∀ result ∈ (enforce control names chance env).2, result.status ≠ .failed) ↔
      ∀ path ∈ [aptAllowNames, aptAllowScript, aptAllowlist, softwarePolkit], chance.writes path = none := by
  unfold enforce
  rw [put_eq chance env]
  cases hwrites : chance.writes aptAllowNames with
  | some error => simp [failure, hwrites]
  | none =>
  dsimp only
  rw [put_eq chance (put chance env aptAllowNames _).1]
  cases hwrites' : chance.writes aptAllowScript with
  | some error => simp [failure, hwrites']
  | none =>
  dsimp only
  rw [put_eq chance (put chance (put chance env aptAllowNames _).1 aptAllowScript _).1]
  cases hwrites'' : chance.writes aptAllowlist with
  | some error => simp [failure, hwrites'']
  | none =>
  dsimp only
  rw [put_eq chance _ softwarePolkit]
  cases hlast : chance.writes softwarePolkit with
  | some error =>
      refine iff_of_false (fun hall => ?_) (by simp [hlast])
      refine hall (failure "software_control:desktop" error) ?_ rfl
      exact List.mem_append_right _ (List.mem_cons_of_mem _ (List.mem_singleton_self _))
  | none =>
      refine iff_of_true (fun result hresult => ?_) (by simp [hwrites, hwrites', hwrites'', hlast])
      rcases List.mem_append.mp hresult with hskipped | hdone
      · obtain ⟨error, _, rfl⟩ := Option.map_eq_some_iff.mp (Option.mem_toList.mp hskipped)
        exact Status.noConfusion
      · simp only [List.mem_cons, List.not_mem_nil, or_false] at hdone
        rcases hdone with rfl | rfl
        · exact Status.noConfusion
        · exact Status.noConfusion

theorem own_clean_iff : (∀ result ∈ (applySoftwareControl pass.settings pass.chance env).2, result.status ≠ .failed) ↔
    ((enabled pass.settings).isSome →
      ∀ path ∈ [aptAllowNames, aptAllowScript, aptAllowlist, softwarePolkit], pass.chance.writes path = none) := by
  unfold applySoftwareControl enabled
  cases pass.settings.softwareControl.filter Control.enabled with
  | some control => simpa only [Option.isSome_some, true_implies] using enforce_clean_iff
  | none =>
      refine iff_of_true (fun result hresult => ?_) fun hsome => absurd hsome Bool.false_ne_true
      dsimp only at hresult
      split at hresult
      · exact absurd hresult List.not_mem_nil
      · rw [List.mem_singleton.mp hresult]
        exact Status.noConfusion

theorem recorded_iff : lastSerial (applies world pass).applied pass.version = pass.document.serial ↔
    Clean pass ∨ lastSerial world.applied pass.version = pass.document.serial := by
  have hclean : (pass.reported = none ∧
      (applies world pass).results.countP (fun result => result.status = .failed) = 0) ∧ pass.savesSerial = true ↔
      Clean pass := by
    rw [List.countP_eq_zero]
    simp only [applies, List.forall_mem_append, decide_eq_true_eq, own_clean_iff]
    constructor
    · rintro ⟨⟨hreported, ⟨hothers, hwrites⟩, hstate⟩, hserial⟩
      refine ⟨hreported, ?_, hserial, fun other hother result hresult => ?_, hwrites⟩
      · cases hsaves : pass.savesState with
        | none => rfl
        | some error => exact absurd rfl (hstate (failure "state" error) (by simp [hsaves]))
      · exact hothers result (List.mem_flatMap.mpr ⟨other, hother, hresult⟩)
    · rintro ⟨hreported, hstate, hserial, hothers, hwrites⟩
      refine ⟨⟨hreported, ⟨fun result hresult => ?_, hwrites⟩, by simp [hstate]⟩, hserial⟩
      obtain ⟨other, hother, hresult⟩ := List.mem_flatMap.mp hresult
      exact hothers other hother result hresult
  have happlied : (applies world pass).applied = if pass.reported = none ∧
        (applies world pass).results.countP (fun result => result.status = .failed) = 0 then
      saveSerial world.applied pass.document.serial pass.version pass.savesSerial else world.applied := rfl
  rw [happlied]
  by_cases hsaves : pass.reported = none ∧
      (applies world pass).results.countP (fun result => result.status = .failed) = 0
  · rw [if_pos hsaves]
    cases hgoes : pass.savesSerial with
    | true => simp [saveSerial, lastSerial, hclean.mp ⟨hsaves, hgoes⟩]
    | false =>
        have hnot : ¬ Clean pass := fun h => by
          have hsaved := h.savesSerial
          rw [hgoes] at hsaved
          cases hsaved
        simp [saveSerial, hnot]
  · rw [if_neg hsaves]
    have hnot : ¬ Clean pass := fun h => hsaves (hclean.mpr h).1
    simp [hnot]

def listed : Pass where
  version := "0.10"
  document := { serial := "7" }
  settings := { softwareControl := some { allowed := ["vim"] } }
  chance := { depends := "vim\n  Depends: libc6\nlibc6\n", aptCache := some "exit status 100" }

def fresh : World where
  files _ := none
  whole _ _ := List.not_mem_nil

end OpenDirectory.SoftwareControl
