import OpenDirectory.Totp

/-! Signing in: at the console with a password or a ticket, and through the console at an application.
An attempt with a password is counted against the failures before it, then verified, then written down
where it failed; these are statements of their own, so other attempts come in between. -/

namespace OpenDirectory.SignIn

open Totp (Enrolment Answer Library)

structure Account where
  dn : String
  samAccountName : String
  /-- Empty where the account has none. -/
  userPrincipalName : String := ""
  sid : Option String
  closed : Bool := false
  isDomainAdmin : Bool := false
  deriving DecidableEq

structure Directory where
  realm : String
  accounts : List Account
  /-- Whether a bind with a password succeeds. -/
  binds : String → String → Bool
  reachable : Bool := true

inductive Refusal where
  | invalidCredentials
  | notAuthorized
  | unavailable
  deriving DecidableEq

def isNameChar (c : Char) : Bool := c.isAlphanum || c ∈ ['.', '_', '-', ' ']

def isDomainChar (c : Char) : Bool := c.isAlphanum || c ∈ ['.', '-']

/-- Between one and a number of some characters, or these before a final line break. -/
def wholly (p : Char → Bool) (most : Nat) (s : String) : Bool :=
  let fits := fun chars : List Char => !chars.isEmpty && chars.length ≤ most && chars.all p
  fits s.toList || s.toList.getLast? = some '\n' && fits s.toList.dropLast

section

variable [Runtime]

/-- A logon name without a domain before a backslash, if it is one. -/
def validateUsername (username : String) : Option String :=
  let candidate := Text.strip Runtime.blank username
  if candidate = "" then none
  else
    let plain := match Text.cut '\\' candidate with
      | none => some candidate
      | some (domain, rest) => if wholly isDomainChar 253 domain then some rest else none
    plain.bind fun candidate =>
      match Text.cut '@' candidate with
      | none => if wholly isNameChar 104 candidate then some candidate else none
      | some (account, domain) =>
          if wholly isNameChar 104 account && wholly isDomainChar 253 domain then some candidate
          else none

def toUpn (username realm : String) : String :=
  if Text.contains username '@' then username else username ++ "@" ++ realm

def beforeAt (username : String) : String := ((Text.cut '@' username).map Prod.fst).getD username

/-- The one account with a name; which of several is meant is never guessed. -/
def lookupUser (directory : Directory) (upn username : String) : Except Refusal Account :=
  match directory.accounts.filter fun account =>
      account.userPrincipalName ≠ "" && lower account.userPrincipalName = lower upn ||
        lower account.samAccountName = lower (beforeAt username) with
  | [account] =>
      if account.closed then .error .notAuthorized
      else .ok { account with
        userPrincipalName := if account.userPrincipalName = "" then upn else account.userPrincipalName }
  | _ => .error .notAuthorized

/-- The account a text names, as far as the directory can tell. -/
def named (directory : Directory) (username : String) : Except Refusal Account :=
  match validateUsername username with
  | none => .error .invalidCredentials
  | some username =>
      if !directory.reachable then .error .unavailable
      else lookupUser directory (toUpn username directory.realm) username

/-- Bind as the user and resolve who they are. An empty password never reaches the directory. -/
def authenticate (directory : Directory) (username password : String) : Except Refusal Account :=
  if (validateUsername username).isSome && password = "" then .error .invalidCredentials
  else match named directory username with
    | .error refusal => .error refusal
    | .ok account =>
        if directory.binds account.dn password then .ok account else .error .invalidCredentials

/-- The account of a ticket's principal. -/
def authorizePrincipal (directory : Directory) (principal : String) : Except Refusal Account :=
  if (validateUsername principal).isNone then .error .invalidCredentials
  else if !directory.reachable then .error .unavailable
  else lookupUser directory principal (beforeAt principal)

end

/-- The directory, who holds a delegated assignment, and the second factors by account. -/
structure Console where
  directory : Directory
  delegated : String → Bool
  totp : String → Option Enrolment
  phone : String → Bool

inductive Route where
  | console
  | openid
  deriving DecidableEq

structure Request where
  route : Route
  username : String
  password : String
  code : String := ""
  sourceIp : Option String
  deriving DecidableEq

inductive Outcome where
  | unavailable
  | refused
  /-- Written down under the name that was given. -/
  | failed
  /-- Written down under the account's own name. -/
  | notAdmitted (account : Account)
  | codeAsked
  | fault
  | session (account : Account) (factor : Option Answer)
  | code (account : Account)

namespace Console

variable (console : Console)

def admissible (account : Account) : Bool := account.isDomainAdmin || console.delegated account.dn

/-- The authenticator of an account, once a code has been accepted for it. -/
def authenticator (account : Account) : Option Enrolment :=
  (account.sid.bind console.totp).filter Enrolment.confirmed

def hasPhone (account : Account) : Bool := account.sid.any console.phone

/-- An account with a confirmed second factor of any method. -/
def enrolled (account : Account) : Bool :=
  (console.authenticator account).isSome || console.hasPhone account

variable [Runtime] [Library]

def login (request : Request) (now : Nat) : Outcome :=
  match authenticate console.directory request.username request.password with
  | .error .unavailable => .unavailable
  | .error _ => .failed
  | .ok account =>
      if !console.admissible account then .notAdmitted account
      else match console.authenticator account with
        | none => .session account none
        | some enrolment =>
            if request.code = "" then .codeAsked
            else match Totp.judge enrolment request.code now with
              | .error _ => .fault
              | .ok .refused => .failed
              | .ok answer => .session account (some answer)

section
omit [Library]

def authorizeWithPassword (request : Request) : Outcome :=
  match authenticate console.directory (Text.strip Runtime.blank request.username) request.password with
  | .error .unavailable => .unavailable
  | .error _ => .failed
  | .ok account => .code account

/-- A ticket at the console, after the desktop's Kerberos library accepted it for a principal. -/
def negotiate (principal : String) : Outcome :=
  match authorizePrincipal console.directory principal with
  | .error .unavailable => .unavailable
  | .error .notAuthorized => .refused
  | .error .invalidCredentials => .fault
  | .ok account => if console.admissible account then .session account none else .notAdmitted account

def authorize (principal : String) : Outcome :=
  match authorizePrincipal console.directory principal with
  | .error .invalidCredentials => .fault
  | .error _ => .refused
  | .ok account => .code account

end

end Console

/-- The name a request gives: an application's form is stripped. -/
def Request.name [Runtime] (request : Request) : String :=
  match request.route with
  | .console => request.username
  | .openid => Text.strip Runtime.blank request.username

/-- A form with an empty field is shown again. -/
def Request.incomplete [Runtime] (request : Request) : Bool :=
  request.route = .openid && (request.name = "" || request.password = "")

/-- A row of the attempts. -/
structure Attempt where
  username : String
  sourceIp : Option String
  succeeded : Bool
  occurredAt : Nat

inductive Stage where
  /-- Counted and let through, when. -/
  | checked (at_ : Nat)
  /-- Refused, and not yet written down under a name. The flag says that a password or a code failed. -/
  | owing (username : String) (failed : Bool)
  deriving DecidableEq

structure World where
  console : Console
  attempts : List Attempt
  pending : Nat → Option (Request × Stage)
  now : Nat

inductive Move where
  | check (attempt : Nat) (request : Request)
  | verify (attempt : Nat)
  | record (attempt : Nat)
  | ticket (route : Route) (principal : String) (sourceIp : Option String)
  /-- What the directory and those who administer the console do meanwhile. -/
  | change (console : Console)
  | tick (elapsed : Nat)

inductive Event where
  | failed (account : Option String) (username : String) (sourceIp : Option String) (at_ : Nat)
  | handed (route : Route) (account : Account) (enrolled : Bool) (factor : Option Answer)

/-- How many failures end sign-in for how long. -/
structure Limits where
  maxFailures : Nat
  window : Nat

section

variable [Runtime]

/-- Whether a row counts against a request: it failed, for the same name or from the same address. -/
def counts (limits : Limits) (request : Request) (now : Nat) (row : Attempt) : Bool :=
  !row.succeeded && now < row.occurredAt + limits.window &&
    (lower row.username = lower request.name ||
      request.sourceIp.isSome && row.sourceIp = request.sourceIp)

def recentFailures (limits : Limits) (attempts : List Attempt) (request : Request) (now : Nat) : Nat :=
  attempts.countP (counts limits request now)

def shouldLock (limits : Limits) (failures : Nat) : Bool := limits.maxFailures ≤ failures

variable [Library]

def World.outcome (world : World) (request : Request) : Outcome :=
  match request.route with
  | .console => world.console.login request world.now
  | .openid => world.console.authorizeWithPassword request

/-- The enrolments after a code was used up. -/
def Console.used (console : Console) (account : Account) (answer : Answer) : Console :=
  match account.sid with
  | none => console
  | some sid =>
      { console with totp := Function.update console.totp sid ((console.totp sid).map answer.write) }

/-- What a sign-in that is not refused hands out. -/
def World.issue (world : World) (sourceIp : Option String) (username : String) (route : Route)
    (account : Account) (factor : Option Answer) : World × List Event :=
  ({ world with
      console := (factor.map (world.console.used account)).getD world.console
      attempts := world.attempts ++ [⟨username, sourceIp, true, world.now⟩] },
    [.handed route account (world.console.enrolled account) factor])

def World.settle (world : World) (attempt : Nat) (stage : Option (Request × Stage)) : World :=
  { world with pending := Function.update world.pending attempt stage }

def accountOf (directory : Directory) (username : String) : Option String :=
  (named directory username).toOption.map Account.dn

def World.verify (world : World) (attempt : Nat) (request : Request) : World × List Event :=
  match world.outcome request with
  | .failed => (world.settle attempt (some (request, .owing request.name true)),
      [.failed (accountOf world.console.directory request.name) request.name request.sourceIp world.now])
  | .notAdmitted account =>
      (world.settle attempt (some (request, .owing account.userPrincipalName false)), [])
  | .session account factor =>
      (world.settle attempt none).issue request.sourceIp account.userPrincipalName .console account factor
  | .code account => (world.settle attempt none).issue request.sourceIp request.name .openid account none
  | _ => (world.settle attempt none, [])

def World.ticket (world : World) (route : Route) (principal : String) (sourceIp : Option String) :
    World × List Event :=
  let outcome := match route with
    | .console => world.console.negotiate principal
    | .openid => world.console.authorize principal
  match outcome with
  | .session account _ => world.issue sourceIp account.userPrincipalName .console account none
  | .code account => (world, [.handed .openid account (world.console.enrolled account) none])
  | .notAdmitted account =>
      ({ world with
        attempts := world.attempts ++ [⟨account.userPrincipalName, sourceIp, false, world.now⟩] }, [])
  | _ => (world, [])

def World.step (limits : Limits) (world : World) : Move → World × List Event
  | .check attempt request =>
      if (world.pending attempt).isSome || request.incomplete ||
          shouldLock limits (recentFailures limits world.attempts request world.now) then (world, [])
      else (world.settle attempt (some (request, .checked world.now)), [])
  | .verify attempt =>
      match world.pending attempt with
      | some (request, .checked _) => world.verify attempt request
      | _ => (world, [])
  | .record attempt =>
      match world.pending attempt with
      | some (request, .owing username _) =>
          ({ world.settle attempt none with
            attempts := world.attempts ++ [⟨username, request.sourceIp, false, world.now⟩] }, [])
      | _ => (world, [])
  | .ticket route principal sourceIp => world.ticket route principal sourceIp
  | .change console => ({ world with console }, [])
  | .tick elapsed => ({ world with now := world.now + elapsed }, [])

end

end OpenDirectory.SignIn
