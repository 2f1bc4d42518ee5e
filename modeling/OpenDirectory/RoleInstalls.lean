import OpenDirectory.AgentEnv
import OpenDirectory.Patterns

/-! The roles of a server: the settings the console checks when a role is asked for, the arguments it builds from them,
and what the agent that runs the installer lets through. -/

namespace OpenDirectory.RoleInstalls

open Agent (goSpace)
open Pattern (run headed closed pySpace graphic)

inductive Kind where
  | text
  | choice
  | url
  | host
  | path
  | dn
  | hash
  | networks
  deriving DecidableEq

structure Argument where
  name : String
  label : String
  kind : Kind := .text
  choices : List String := []
  default : String := ""
  optional : Bool := false
  derived : String := ""
  deriving DecidableEq

structure Role where
  name : String
  arguments : List Argument := []
  core : Bool := false
  deriving DecidableEq

/-- `REGISTRY` -/
def registry : List Role := [
  { name := "core", core := true },
  { name := "dhcp", arguments := [
      { name := "ha_role", label := "Failover role", kind := .choice, choices := ["primary", "standby"],
        optional := true },
      { name := "this_url", label := "Failover address of this node", kind := .url, optional := true },
      { name := "peer_url", label := "Failover address of the other node", kind := .url, optional := true },
      { name := "realm", label := "Kerberos realm", optional := true, derived := "realm" },
      { name := "dns_server", label := "DNS server to update", kind := .host, optional := true, derived := "dc_host" }] },
  { name := "certificate-authority", arguments := [
      { name := "ca_dir", label := "Storage directory", kind := .path, default := "/var/lib/odm/ca", optional := true }] },
  { name := "pxe", arguments := [
      { name := "interface", label := "Network interface", optional := true },
      { name := "domain", label := "Domain to join", kind := .host, optional := true, derived := "domain" },
      { name := "enrolment_token", label := "Enrolment token", optional := true },
      { name := "suite", label := "Debian release", kind := .choice, choices := ["trixie", "bookworm"],
        default := "trixie", optional := true },
      { name := "mirror", label := "Mirror", kind := .url, default := "http://deb.debian.org/debian", optional := true },
      { name := "ou", label := "Container for installed machines", kind := .dn, optional := true },
      { name := "local_admin", label := "Local administrator account", default := "localadmin", optional := true },
      { name := "local_password_hash", label := "Local administrator password hash", kind := .hash, optional := true },
      { name := "scopes", label := "Networks to offer boot on", kind := .networks, optional := true },
      { name := "client_binary", label := "Client installer", kind := .path, default := "/usr/sbin/odm-client-install",
        optional := true }] },
  { name := "time", arguments := [
      { name := "upstream", label := "Where this machine gets the time", optional := true },
      { name := "allow", label := "Networks that may ask it for the time", optional := true }] },
  { name := "print-server" },
  { name := "radius" },
  { name := "vpn", arguments := [
      { name := "external_interface", label := "Interface facing the internet", optional := true }] },
  { name := "session-host", arguments := [
      { name := "desktop", label := "Desktop environment", kind := .choice, choices := ["xfce", "gnome", "plasma"],
        default := "xfce" }] },
  { name := "remote-desktop-broker" },
  { name := "monitoring" },
  { name := "password-manager" },
  { name := "file-server" }]

inductive RoleError where
  | invalidName
  | unknown (name : String)
  | core
  | needs (role label : String)
  | invalidValue (label : String)
  | notAmong (label : String) (choices : List String)

/-- `_ROLE_RE`, the agent's `safeRole` as well. -/
def roleText : List Char → Bool :=
  headed (fun c => c.isLower) (fun c => c.isLower || c.isDigit || c = '-') 1 31

def argChar (c : Char) : Bool := c.isAlphanum || c ∈ ['@', ':', '/', '.', '_', '-']

/-- The characters a value of some kind may hold. -/
def Kind.char : Kind → Char → Bool
  | .dn => fun c => c.isAlphanum || c ∈ ['=', ',', '.', '_', ' ', '-']
  | .hash => fun c => c.isAlphanum || c ∈ ['$', '.', '/', '=']
  | .networks => fun c => c.isDigit || c ∈ ['.', '/', ',']
  | _ => argChar

/-- `_ARG_PATTERNS.get(kind, _ARG_RE)` -/
def Kind.pattern (kind : Kind) : List Char → Bool :=
  match kind with
  | .dn => run kind.char 3 512
  | .hash => run kind.char 1 255
  | .networks => run kind.char 7 255
  | _ => run kind.char 1 253

def validateName (name : String) : Except RoleError String :=
  if closed roleText name then .ok name else .error .invalidName

def get (name : String) : Except RoleError Role :=
  match registry.find? (·.name = name) with
  | some role => .ok role
  | none => .error (.unknown name)

/-- A configuration. What it does not name counts as empty everywhere. -/
abbrev Config := String → String

/-- The value of an argument, its default where nothing is set. -/
def valueOf (config : Config) (argument : Argument) : String :=
  let value := Text.strip pySpace (config argument.name)
  if value = "" then argument.default else value

def flag (argument : Argument) : String :=
  "--" ++ String.ofList (argument.name.toList.map fun c => if c = '_' then '-' else c)

/-- What one argument adds to the command. -/
def argumentOf (role : Role) (config : Config) (argument : Argument) : Except RoleError (List String) :=
  let value := valueOf config argument
  if value = "" then
    if argument.optional then .ok [] else .error (.needs role.name argument.label)
  else if !closed argument.kind.pattern value then .error (.invalidValue argument.label)
  else if argument.choices ≠ [] ∧ value ∉ argument.choices then .error (.notAmong argument.label argument.choices)
  else .ok [flag argument, value]

/-- The flags of the role's installer, in declared order. -/
def installerArguments (role : Role) (config : Config) : Except RoleError (List String) := do
  let parts ← role.arguments.mapM (argumentOf role config)
  return parts.flatten

def buildCommand (role : Role) (config : Config) : Except RoleError (List String) :=
  if role.core then .error .core else installerArguments role config

/-- One argument the console can answer itself. What is set already wins. -/
def deriveOne (known filled : Config) (argument : Argument) : Config :=
  if argument.derived = "" ∨ filled argument.name ≠ "" ∨ known argument.derived = "" then filled
  else Function.update filled argument.name (known argument.derived)

def derive (role : Role) (config known : Config) : Config := role.arguments.foldl (deriveOne known) config

/-- The body of a request. Longer values are refused before anything reads them. -/
structure InstallRequest where
  role : String
  config : Config
  short : ∀ name, (config name).length ≤ 253

structure Payload where
  role : String
  arguments : List String

/-- The token network boot hands to installed machines, where the request brings none. -/
def withToken (role : Role) (config : Config) (token : String) : Config :=
  if role.name = "pxe" ∧ config "enrolment_token" = "" then Function.update config "enrolment_token" token else config

/-- The task of an installation. The console knows the realm, the domain and a controller, and can issue a token. -/
def install (request : InstallRequest) (known : Config) (token : String) : Except RoleError Payload := do
  let name ← validateName request.role
  let role ← get name
  let config := withToken role (derive role request.config known) token
  if role.core then .error .core
  else do
    let _ ← buildCommand role config
    return ⟨role.name, ← installerArguments role config⟩

def safeArgChar (c : Char) : Bool := c.isAlphanum || c ∈ ['@', ':', '/', '.', '_', '=', '-']

def safeArg : List Char → Bool := run safeArgChar 1 253

/-- Why a task ends before it has begun. -/
inductive Refusal where
  | invalid (what text : String)
  | port (number : Nat)
  | refusing (text : String)
  | system (path : String)
  | bare

/-- The texts of a list, trimmed, if every one of them is allowed. -/
def stringList (items : List String) (allowed : List Char → Bool) : Except Refusal (List String) :=
  items.mapM fun item =>
    let text := Text.strip goSpace item
    if allowed text.toList then .ok text else .error (.refusing text)

/-- What `installRole` runs the installer with. -/
def installRole (payload : Payload) : Except Refusal (List String) :=
  if roleText payload.role.toList then stringList payload.arguments safeArg else .error (.invalid "role name" payload.role)

/-- What a distinguished name, a hash or a list of networks may hold and an argument may not. -/
def special (c : Char) : Bool := c ∈ [',', ' ', '$']

/-- Nothing that is set for the role holds such a character, blanks at the ends aside. -/
def Plain (request : InstallRequest) : Prop :=
  ∀ role ∈ registry, role.name = request.role → ∀ argument ∈ role.arguments,
    ∀ c ∈ (Text.strip pySpace (request.config argument.name)).toList, special c = false

theorem pySpace_of_goSpace {c : Char} (h : goSpace c = true) : pySpace c = true := by
  simp only [goSpace, pySpace, Bool.or_eq_true, Bool.and_eq_true, decide_eq_true_eq] at h ⊢
  refine h.imp (fun hmem => ?_) id
  simp only [List.mem_cons, List.not_mem_nil, or_false] at hmem ⊢
  tauto

theorem special_of_alphanum {c : Char} (h : c.isAlphanum = true) : special c = false := by
  rw [Bool.eq_false_iff]
  intro hspecial
  simp only [special, decide_eq_true_eq, List.mem_cons, List.not_mem_nil, or_false] at hspecial
  rcases hspecial with rfl | rfl | rfl <;> cases h

theorem safeArgChar_iff {kind : Kind} {c : Char} (h : kind.char c = true) : safeArgChar c = true ↔ special c = false := by
  have halphanum (hc : c.isAlphanum = true) : safeArgChar c = true ↔ special c = false :=
    iff_of_true (by rw [safeArgChar, hc, Bool.true_or]) (special_of_alphanum hc)
  cases kind <;>
    simp only [Kind.char, argChar, Bool.or_eq_true, decide_eq_true_eq, List.mem_cons, List.not_mem_nil, or_false] at h
  case dn =>
    rcases h with h | rfl | rfl | rfl | rfl | rfl | rfl
    · exact halphanum h
    all_goals decide
  case hash =>
    rcases h with h | rfl | rfl | rfl | rfl
    · exact halphanum h
    all_goals decide
  case networks =>
    rcases h with h | rfl | rfl | rfl
    · exact halphanum (by rw [Char.isAlphanum, h, Bool.or_true])
    all_goals decide
  all_goals
    rcases h with h | rfl | rfl | rfl | rfl | rfl | rfl
    · exact halphanum h
    all_goals decide

theorem Kind.pattern_spec {kind : Kind} {text : List Char} (h : kind.pattern text = true) :
    1 ≤ text.length ∧ ∀ c ∈ text, kind.char c = true := by
  cases kind <;>
  · obtain ⟨hlow, -, hall⟩ := Pattern.run_iff.mp h
    exact ⟨by omega, hall⟩

theorem safeArg_iff {kind : Kind} {text : List Char} (h : kind.pattern text = true) (hlength : text.length ≤ 253) :
    safeArg text = true ↔ ∀ c ∈ text, special c = false := by
  obtain ⟨hlow, hall⟩ := Kind.pattern_spec h
  unfold safeArg
  rw [Pattern.run_iff]
  constructor
  · intro hsafe c hc
    exact (safeArgChar_iff (hall c hc)).mp (hsafe.2.2 c hc)
  · intro hplain
    exact ⟨hlow, hlength, fun c hc => (safeArgChar_iff (hall c hc)).mpr (hplain c hc)⟩

theorem safeArg_of_kind {kind : Kind} {text : List Char} (hkind : kind ∉ [.dn, .hash, .networks])
    (h : kind.pattern text = true) : safeArg text = true := by
  have hrun : run argChar 1 253 text = true := by
    cases kind
    case dn | hash | networks => exact absurd (by decide) hkind
    all_goals exact h
  obtain ⟨hlow, hhigh, hall⟩ := Pattern.run_iff.mp hrun
  refine Pattern.run_iff.mpr ⟨hlow, hhigh, fun c hc => ?_⟩
  have hchar := hall c hc
  unfold argChar at hchar
  unfold safeArgChar
  rw [Bool.or_eq_true, decide_eq_true_eq] at hchar ⊢
  refine hchar.imp_right fun hmem => ?_
  simp only [List.mem_cons, List.not_mem_nil, or_false] at hmem ⊢
  tauto

theorem argumentOf_eq_ok {role : Role} {config : Config} {argument : Argument} {items : List String}
    (h : argumentOf role config argument = .ok items) :
    valueOf config argument = "" ∧ items = [] ∨
      closed argument.kind.pattern (valueOf config argument) = true ∧ items = [flag argument, valueOf config argument] := by
  unfold argumentOf at h
  dsimp only at h
  split at h
  next hempty =>
    split at h
    · exact .inl ⟨hempty, (Except.ok.inj h).symm⟩
    · cases h
  · split at h
    · cases h
    next hpattern =>
      split at h
      · cases h
      · exact .inr ⟨by simpa using hpattern, (Except.ok.inj h).symm⟩

theorem stringList_iff {items : List String} {allowed : List Char → Bool} :
    (∃ texts, stringList items allowed = .ok texts) ↔
      ∀ item ∈ items, allowed (Text.strip goSpace item).toList = true := by
  unfold stringList
  constructor
  · rintro ⟨texts, h⟩
    refine (List.forall_mem_iff_of_forall₂ (List.mapM_eq_ok_iff.mp h) fun item _ text htext => ?_).mp fun _ _ => trivial
    refine iff_of_true trivial ?_
    by_contra hnot
    rw [if_neg hnot] at htext
    cases htext
  · intro h
    exact List.mapM_ok fun item hitem => ⟨_, if_pos (h item hitem)⟩

/-- What the registry says of an argument: its flag and its default are safe, and where its kind admits what the agent
refuses, only the request sets it. -/
abbrev Argument.Regular (role : Role) (argument : Argument) : Prop :=
  safeArg (flag argument).toList = true ∧ (flag argument).toList.all graphic = true ∧
    argument.default.toList.length ≤ 253 ∧ (argument.default.toList.all fun c => !special c && graphic c) = true ∧
    (argument.kind ∈ [.dn, .hash, .networks] →
      argument.name ≠ "enrolment_token" ∧ ∀ other ∈ role.arguments, other.derived ≠ "" → other.name ≠ argument.name)

theorem regular_of_registry : ∀ role ∈ registry, roleText role.name.toList = true ∧
    ∀ argument ∈ role.arguments, argument.Regular role := by decide +kernel

theorem registry_inj : ∀ role ∈ registry, ∀ other ∈ registry, role.name = other.name → role = other := by decide +kernel

theorem get_eq_ok {name : String} {role : Role} : get name = .ok role ↔ role ∈ registry ∧ role.name = name := by
  unfold get
  constructor
  · intro h
    split at h
    next found hfound =>
      cases h
      have hname := List.find?_some hfound
      exact ⟨List.mem_of_find?_eq_some hfound, by simpa using hname⟩
    · cases h
  · rintro ⟨hrole, hname⟩
    split
    next found hfound =>
      have hsame := List.find?_some hfound
      rw [registry_inj found (List.mem_of_find?_eq_some hfound) role hrole (by simpa [hname] using hsame)]
    next hnone => exact absurd (List.find?_eq_none.mp hnone role hrole) (by simp [hname])

theorem derive_eq (role : Role) (config known : Config) (name : String) :
    derive role config known name = config name ∨
      config name = "" ∧ ∃ argument ∈ role.arguments, argument.derived ≠ "" ∧ argument.name = name := by
  have hfold : ∀ (arguments : List Argument) (filled : Config), arguments ⊆ role.arguments →
      arguments.foldl (deriveOne known) filled name = filled name ∨
        filled name = "" ∧ ∃ argument ∈ role.arguments, argument.derived ≠ "" ∧ argument.name = name := by
    intro arguments
    induction arguments with
    | nil => exact fun _ _ => .inl rfl
    | cons argument arguments ih =>
        intro filled hsub
        rw [List.cons_subset] at hsub
        rw [List.foldl_cons]
        have hlater := ih (deriveOne known filled argument) hsub.2
        by_cases hkeep : argument.derived = "" ∨ filled argument.name ≠ "" ∨ known argument.derived = ""
        · rw [deriveOne, if_pos hkeep] at hlater ⊢
          exact hlater
        · rw [deriveOne, if_neg hkeep] at hlater ⊢
          push Not at hkeep
          by_cases hname : name = argument.name
          · exact .inr ⟨hname ▸ hkeep.2.1, argument, hsub.1, hkeep.1, hname.symm⟩
          · rw [Function.update_of_ne hname] at hlater
            exact hlater
  exact hfold role.arguments config (List.Subset.refl _)

section
variable {role : Role} {config known : Config} {token : String} {argument : Argument}

/-- The configuration an installation is built from says of an argument what the request says, or its kind is one
whose values are safe. -/
theorem settled (hrole : role ∈ registry) (hargument : argument ∈ role.arguments) :
    withToken role (derive role config known) token argument.name = config argument.name ∨
      config argument.name = "" ∧ argument.kind ∉ [.dn, .hash, .networks] := by
  obtain ⟨-, -, -, -, hset⟩ := (regular_of_registry role hrole).2 argument hargument
  have hderive := derive_eq role config known argument.name
  by_cases hname : argument.name = "enrolment_token"
  · have hkind : argument.kind ∉ [.dn, .hash, .networks] := fun hkind => (hset hkind).1 hname
    unfold withToken
    split
    next htoken =>
      rcases hderive with hsame | ⟨hempty, -⟩
      · exact .inr ⟨by rw [← hsame, hname]; exact htoken.2, hkind⟩
      · exact .inr ⟨hempty, hkind⟩
    · exact hderive.imp_right fun h => ⟨h.1, hkind⟩
  · have hwith : withToken role (derive role config known) token argument.name = derive role config known argument.name := by
      unfold withToken
      split
      · rw [Function.update_of_ne hname]
      · rfl
    rw [hwith]
    refine hderive.imp_right fun h => ⟨h.1, fun hkind => ?_⟩
    obtain ⟨other, hother, hderived, heq⟩ := h.2
    exact (hset hkind).2 other hother hderived heq

theorem strip_goSpace {text : String} (h : text.toList.all graphic = true) : Text.strip goSpace text = text := by
  have hout (c : Char) (hc : c ∈ text.toList) : goSpace c = false := by
    have hspace := Pattern.pySpace_of_graphic (List.all_eq_true.mp h c hc)
    rw [Bool.eq_false_iff] at hspace ⊢
    exact fun hgo => hspace (pySpace_of_goSpace hgo)
  exact Text.strip_eq_self (fun c hc => hout c (List.mem_of_mem_head? hc)) fun c hc => hout c (List.mem_of_mem_getLast? hc)

variable (hregular : argument.Regular role)
include hregular

theorem default_char {c : Char} (hc : c ∈ argument.default.toList) : special c = false ∧ graphic c = true := by
  simpa using List.all_eq_true.mp hregular.2.2.2.1 c hc

theorem strip_valueOf : Text.strip goSpace (valueOf config argument) = valueOf config argument := by
  unfold valueOf
  dsimp only
  split
  · exact strip_goSpace (List.all_eq_true.mpr fun c hc => (default_char hregular hc).2)
  · exact Pattern.strip_strip fun c hc => pySpace_of_goSpace hc

theorem last_valueOf : (valueOf config argument).toList.getLast? ≠ some '\n' := by
  unfold valueOf
  dsimp only
  intro hlast
  have hspace : pySpace '\n' = false := by
    split at hlast
    · exact Pattern.pySpace_of_graphic (default_char hregular (List.mem_of_mem_getLast? hlast)).2
    · exact Pattern.last_strip '\n' hlast
  cases hspace

theorem valueOf_safe (request : InstallRequest) (hsettled : config argument.name = request.config argument.name ∨
      request.config argument.name = "" ∧ argument.kind ∉ [.dn, .hash, .networks])
    (hpattern : argument.kind.pattern (valueOf config argument).toList = true) :
    safeArg (valueOf config argument).toList = true ↔
      ∀ c ∈ (Text.strip pySpace (request.config argument.name)).toList, special c = false := by
  rcases hsettled with hsame | ⟨hunset, hkind⟩
  · unfold valueOf at hpattern ⊢
    rw [hsame] at hpattern ⊢
    dsimp only at hpattern ⊢
    split at hpattern
    next hstrip =>
      rw [if_pos hstrip, safeArg_iff hpattern hregular.2.2.1, hstrip]
      exact iff_of_true (fun c hc => (default_char hregular hc).1) fun _ hc => absurd hc List.not_mem_nil
    next hstrip =>
      rw [if_neg hstrip]
      exact safeArg_iff hpattern (String.length_toList ▸ Pattern.length_strip.trans (request.short _))
  · rw [hunset]
    exact iff_of_true (safeArg_of_kind hkind hpattern) fun _ hc => absurd hc List.not_mem_nil

theorem argumentOf_safe (request : InstallRequest) (hsettled : config argument.name = request.config argument.name ∨
      request.config argument.name = "" ∧ argument.kind ∉ [.dn, .hash, .networks])
    {items : List String} (h : argumentOf role config argument = .ok items) :
    (∀ item ∈ items, safeArg (Text.strip goSpace item).toList = true) ↔
      ∀ c ∈ (Text.strip pySpace (request.config argument.name)).toList, special c = false := by
  have hflag := strip_goSpace hregular.2.1
  rcases argumentOf_eq_ok h with ⟨hempty, rfl⟩ | ⟨hpattern, rfl⟩
  · -- nothing is set, or white space only, and there is no default
    refine iff_of_true (fun _ hitem => absurd hitem List.not_mem_nil) ?_
    rcases hsettled with hsame | ⟨hunset, -⟩
    · unfold valueOf at hempty
      rw [hsame] at hempty
      dsimp only at hempty
      split at hempty
      next hstrip =>
        rw [hstrip]
        exact fun _ hc => absurd hc List.not_mem_nil
      next hstrip => exact absurd hempty hstrip
    · rw [hunset]
      exact fun _ hc => absurd hc List.not_mem_nil
  · rw [Pattern.closed_of_last (last_valueOf hregular)] at hpattern
    rw [List.forall_mem_cons, List.forall_mem_singleton, hflag, strip_valueOf hregular, and_iff_right hregular.1]
    exact valueOf_safe hregular request hsettled hpattern

end

/-- An installation the console accepts runs on the agent exactly when none of its settings holds a comma, a space or a
dollar sign. -/
theorem installRole_iff {request : InstallRequest} {known : Config} {token : String} {payload : Payload}
    (h : install request known token = .ok payload) :
    (∃ arguments, installRole payload = .ok arguments) ↔ Plain request := by
  unfold install at h
  obtain ⟨name, hname, h⟩ := Except.bind_eq_ok.mp h
  obtain ⟨role, hget, h⟩ := Except.bind_eq_ok.mp h
  dsimp only at h
  split at h
  · cases h
  obtain ⟨-, -, h⟩ := Except.bind_eq_ok.mp h
  obtain ⟨arguments, harguments, h⟩ := Except.bind_eq_ok.mp h
  obtain ⟨parts, hparts, hflat⟩ := Except.bind_eq_ok.mp harguments
  cases h
  cases hflat
  obtain ⟨hrole, hsame⟩ := get_eq_ok.mp hget
  have hrequest : name = request.role := by
    unfold validateName at hname
    split at hname
    · exact (Except.ok.inj hname).symm
    · cases hname
  have hplain : Plain request ↔ ∀ argument ∈ role.arguments,
      ∀ c ∈ (Text.strip pySpace (request.config argument.name)).toList, special c = false := by
    constructor
    · exact fun hall => hall role hrole (hsame.trans hrequest)
    · intro hall other hother heq
      rw [← registry_inj role hrole other hother (hsame.trans (hrequest.trans heq.symm))]
      exact hall
  unfold installRole
  dsimp only
  rw [if_pos (regular_of_registry role hrole).1, stringList_iff, hplain, List.forall_mem_flatten]
  exact List.forall_mem_iff_of_forall₂ (List.mapM_eq_ok_iff.mp hparts) fun argument hargument items hitems =>
    argumentOf_safe ((regular_of_registry role hrole).2 argument hargument) request (settled hrole hargument) hitems

end OpenDirectory.RoleInstalls
