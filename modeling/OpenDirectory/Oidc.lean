import OpenDirectory.Steps
import OpenDirectory.Text
import OpenDirectory.Value

/-! The console as an OpenID Connect provider: the authorization-code flow with PKCE, and refresh
tokens. A request is served by several statements, and between any two of them other requests are. -/

namespace OpenDirectory.Oidc

/-- SHA-256, as the standard library has it. -/
class Library where
  sha256 : List UInt8 → Vector UInt8 32

def codeLifetime : Nat := 120

def tokenLifetime : Nat := 3600

def refreshLifetime : Nat := 30 * 24 * 3600

/-- Some seconds after a moment; times are in microseconds. -/
def expiry (now seconds : Nat) : Nat := now + seconds * 1000000

structure Client where
  clientId : String
  name : String
  secretHash : String
  redirectUris : List String
  deriving DecidableEq

structure CodeRow where
  code : String
  clientId : String
  redirectUri : String
  nonce : String
  codeChallenge : String
  claims : String
  expiresAt : Nat
  deriving DecidableEq

inductive Kind where
  | access
  | refresh
  deriving DecidableEq

structure TokenRow where
  token : String
  kind : Kind
  clientId : String
  claims : String
  nonce : String
  scope : String
  expiresAt : Nat
  deriving DecidableEq

/-- A decoded form, or the parameters of a query. -/
abbrev Form := List (String × String)

def field (form : Form) (key : String) : String := (Dict.get form key).getD ""

structure AuthRequest where
  clientId : String
  redirectUri : String
  state : String
  nonce : String
  scope : String
  codeChallenge : String
  method : String

/-- The parameters of one authorization request, checked once. -/
def authRequest [Runtime] (params : Form) (client : Client) : Except String AuthRequest :=
  let scope := (Dict.get params "scope").getD "openid"
  let req : AuthRequest := {
    clientId := field params "client_id"
    redirectUri := field params "redirect_uri"
    state := field params "state"
    nonce := field params "nonce"
    scope
    codeChallenge := field params "code_challenge"
    method := field params "code_challenge_method" }
  if Dict.get params "response_type" ≠ some "code" then .error "only the code flow is supported"
  else if req.redirectUri ∉ client.redirectUris then
    .error "that redirect address is not registered"
  else if "openid" ∉ Text.fields Runtime.blank scope then .error "the openid scope is required"
  else if req.codeChallenge ≠ "" ∧ req.method ≠ "S256" then
    .error "only S256 code challenges are supported"
  else if [req.state, req.nonce, req.codeChallenge, req.scope].any fun value => 512 < value.length then
    .error "a parameter is too long"
  else .ok req

/-- A request to the token endpoint: its form, and what its `Authorization` header says if that is of
the basic kind, none where it cannot be decoded. -/
structure TokenRequest where
  form : Form
  basic : Option (Option String)
  deriving DecidableEq

/-- Who a request says it is, and with which secret. -/
def TokenRequest.credentials (request : TokenRequest) : Option (String × String) :=
  match request.basic with
  | some none => none
  | some (some decoded) => some ((Text.cut ':' decoded).getD (decoded, ""))
  | none => some (field request.form "client_id", field request.form "client_secret")

structure Refused where
  error : String
  description : String
  status : Nat := 400
  deriving DecidableEq

section

variable [Library]

def utf8 (s : String) : List UInt8 := s.toList.flatMap String.utf8EncodeChar

def hexDigit (n : Nat) : Char := "0123456789abcdef".toList.getD n '0'

/-- `hashlib.sha256(secret.encode()).hexdigest()` -/
def hashSecret (secret : String) : String :=
  String.ofList ((Library.sha256 (utf8 secret)).toList.flatMap fun byte =>
    [hexDigit (byte.toNat / 16), hexDigit (byte.toNat % 16)])

def base64Digit (n : Nat) : Char :=
  "ABCDEFGHIJKLMNOPQRSTUVWXYZabcdefghijklmnopqrstuvwxyz0123456789-_".toList.getD n 'A'

/-- `base64.urlsafe_b64encode(raw).rstrip(b"=")` -/
def b64 : List UInt8 → List Char
  | [] => []
  | [a] => [base64Digit (a.toNat / 4), base64Digit (a.toNat % 4 * 16)]
  | [a, b] => [base64Digit (a.toNat / 4), base64Digit (a.toNat % 4 * 16 + b.toNat / 16),
      base64Digit (b.toNat % 16 * 4)]
  | a :: b :: c :: rest => base64Digit (a.toNat / 4) ::
      base64Digit (a.toNat % 4 * 16 + b.toNat / 16) ::
      base64Digit (b.toNat % 16 * 4 + c.toNat / 64) :: base64Digit (c.toNat % 64) :: b64 rest

/-- The challenge of a verifier. -/
def challengeOf (verifier : String) : String :=
  String.ofList (b64 (Library.sha256 (utf8 verifier)).toList)

def findClient (clients : List Client) (clientId : String) : Option Client :=
  if clientId = "" ∨ 128 < clientId.length then none
  else clients.find? fun client => client.clientId = clientId

def authenticateClient (clients : List Client) (request : TokenRequest) : Option Client := do
  let (clientId, secret) ← request.credentials
  let client ← findClient clients clientId
  if client.secretHash = hashSecret secret then some client else none

end

/-- What a client exchanges, as it stood when it was taken out, with the request and the moment that
decided. -/
inductive Grant where
  | code (row : CodeRow) (client : Client) (request : TokenRequest) (clock : Nat)
  | refresh (row : TokenRow) (client : Client) (request : TokenRequest) (now : Nat)
  deriving DecidableEq

def Grant.claims : Grant → String
  | .code row .. => row.claims
  | .refresh row .. => row.claims

def Grant.nonce : Grant → String
  | .code row .. => row.nonce
  | .refresh row .. => row.nonce

def Grant.scope : Grant → String
  | .code .. => "openid profile email"
  | .refresh row .. => row.scope

def Grant.client : Grant → Client
  | .code _ client .. => client
  | .refresh _ client .. => client

/-- How far a request has come. -/
inductive Phase where
  | authorizing (req : AuthRequest)
  | redeeming (client : Client) (request : TokenRequest)
  | issuing (grant : Grant)

structure Provider where
  clients : List Client := []
  codes : List CodeRow := []
  tokens : List TokenRow := []
  pending : List Phase := []

inductive Event where
  | coded (row : CodeRow)
  | issued (grant : Grant) (access refresh : TokenRow)
  | refused (answer : Refused)
  | unauthorized (detail : String)
  deriving DecidableEq

section

variable [Library]

/-- `secrets.compare_digest` raises on a challenge that is not plain text. -/
def comparable (row : CodeRow) (form : Form) : Bool :=
  field form "code_verifier" = "" || row.codeChallenge.toList.all fun c => c.toNat < 128

def verifierFits (row : CodeRow) (form : Form) : Bool :=
  row.codeChallenge = "" ||
    (field form "code_verifier" ≠ "" && challengeOf (field form "code_verifier") = row.codeChallenge)

namespace Provider

variable (provider : Provider)

/-- A code is taken out as it is read, so that a second exchange fails, and judged after that by the
clock of the process. -/
def redeemCode (client : Client) (request : TokenRequest) (clock : Nat) :
    Provider × Except Refused Grant :=
  let code := field request.form "code"
  if code = "" ∨ 128 < code.length then (provider, .error ⟨"invalid_grant", "no code", 400⟩)
  else
    let picks := fun row : CodeRow => row.code = code && row.clientId = client.clientId
    let others := { provider with codes := provider.codes.filter fun row => !picks row }
    match provider.codes.find? picks with
    | none => (others, .error ⟨"invalid_grant", "the code is unknown or expired", 400⟩)
    | some row =>
        if row.expiresAt < clock then
          (others, .error ⟨"invalid_grant", "the code is unknown or expired", 400⟩)
        else if field request.form "redirect_uri" ≠ row.redirectUri then
          (others, .error ⟨"invalid_grant", "redirect_uri does not match", 400⟩)
        else if !comparable row request.form then (others, .error ⟨"internal", "", 500⟩)
        else if !verifierFits row request.form then
          (others, .error ⟨"invalid_grant", "the code verifier does not match", 400⟩)
        else (others, .ok (.code row client request clock))

def redeemRefresh (client : Client) (request : TokenRequest) (now : Nat) :
    Provider × Except Refused Grant :=
  let refresh := field request.form "refresh_token"
  if refresh = "" ∨ 128 < refresh.length then
    (provider, .error ⟨"invalid_grant", "no refresh token", 400⟩)
  else
    let picks := fun row : TokenRow => row.token = refresh && row.kind = .refresh &&
      row.clientId = client.clientId && now < row.expiresAt
    let others := { provider with tokens := provider.tokens.filter fun row => !picks row }
    match provider.tokens.find? picks with
    | none => (others, .error ⟨"invalid_grant", "the refresh token is unknown or expired", 400⟩)
    | some row => (others, .ok (.refresh row client request now))

def redeem (client : Client) (request : TokenRequest) (now clock : Nat) :
    Provider × Except Refused Grant :=
  if field request.form "grant_type" = "authorization_code" then
    provider.redeemCode client request clock
  else if field request.form "grant_type" = "refresh_token" then
    provider.redeemRefresh client request now
  else (provider, .error
    ⟨"unsupported_grant_type", "only authorization_code and refresh_token", 400⟩)

/-- The pair of rows that an exchange puts in: refused by the database if a token is taken. -/
def give (grant : Grant) (now : Nat) (access refresh : String) :
    Provider × List Event :=
  let row := fun token kind lifetime => (⟨token, kind, grant.client.clientId, grant.claims,
    grant.nonce, grant.scope, expiry now lifetime⟩ : TokenRow)
  let accessRow := row access .access tokenLifetime
  let refreshRow := row refresh .refresh refreshLifetime
  let taken := provider.tokens.map TokenRow.token
  if access ∈ taken ∨ refresh ∈ taken ∨ access = refresh then (provider, [])
  else ({ provider with tokens := provider.tokens ++ [accessRow, refreshRow] },
    [.issued grant accessRow refreshRow])

def giveCode (req : AuthRequest) (claims : String) (now : Nat) (code : String) :
    Provider × List Event :=
  let row : CodeRow := ⟨code, req.clientId, req.redirectUri, req.nonce, req.codeChallenge, claims,
    expiry now codeLifetime⟩
  if code ∈ provider.codes.map CodeRow.code then (provider, [])
  else ({ provider with codes := provider.codes ++ [row] }, [.coded row])

end Provider

/-- The next statement of some request, or of the console on its clients. Requests under way are told
apart by where they stand in the list; one may end at any point. -/
inductive Move where
  | ask (params : Form)
  | giveCode (request : Nat) (claims : String) (now : Nat) (code : String)
  | askTokens (request : TokenRequest)
  | redeem (request now clock : Nat)
  | give (request now : Nat) (access refresh : String)
  | drop (request : Nat)
  | sweepCodes (now : Nat)
  | sweepTokens (now : Nat)
  | registerClient (client : Client)
  | updateRedirects (clientId : String) (redirectUris : List String)

namespace Provider

variable [Runtime] (provider : Provider)

/-- The provider without a request that was under way. -/
def without (request : Nat) : Provider :=
  { provider with pending := provider.pending.eraseIdx request }

/-- The provider with one more request under way. -/
def beside (phase : Phase) : Provider := { provider with pending := phase :: provider.pending }

def next : Move → Provider × List Event
  | .ask params =>
      match findClient provider.clients (field params "client_id") with
      | none => (provider, [.unauthorized "unknown client"])
      | some client => match authRequest params client with
        | .error detail => (provider, [.unauthorized detail])
        | .ok req => (provider.beside (.authorizing req), [])
  | .giveCode request claims now code =>
      match provider.pending[request]? with
      | some (.authorizing req) => (provider.without request).giveCode req claims now code
      | _ => (provider, [])
  | .askTokens request =>
      match authenticateClient provider.clients request with
      | none => (provider,
          [.refused ⟨"invalid_client", "client authentication failed", 401⟩])
      | some client => (provider.beside (.redeeming client request), [])
  | .redeem request now clock =>
      match provider.pending[request]? with
      | some (.redeeming client asked) =>
          match (provider.without request).redeem client asked now clock with
          | (others, .ok grant) => (others.beside (.issuing grant), [])
          | (others, .error answer) => (others, [.refused answer])
      | _ => (provider, [])
  | .give request now access refresh =>
      match provider.pending[request]? with
      | some (.issuing grant) => (provider.without request).give grant now access refresh
      | _ => (provider, [])
  | .drop request => (provider.without request, [])
  | .sweepCodes now =>
      ({ provider with codes := provider.codes.filter fun row => ¬ row.expiresAt < now }, [])
  | .sweepTokens now =>
      ({ provider with tokens := provider.tokens.filter fun row => ¬ row.expiresAt < now }, [])
  | .registerClient client =>
      let others := provider.clients.filter fun other => other.clientId ≠ client.clientId
      ({ provider with clients := client :: others }, [])
  | .updateRedirects clientId redirectUris =>
      let updated := provider.clients.map fun client =>
        if client.clientId = clientId then { client with redirectUris } else client
      ({ provider with clients := updated }, [])

end Provider

/-- The client whose secret the request carries. -/
def Authenticated (client : Client) (request : TokenRequest) : Prop :=
  ∃ secret, request.credentials = some (client.clientId, secret) ∧
    client.secretHash = hashSecret secret

/-- What a row was given for is what it is exchanged for. -/
def Grant.Sound : Grant → Prop
  | .code row client request clock =>
      Authenticated client request ∧ row.clientId = client.clientId ∧
        row.code = field request.form "code" ∧ clock ≤ row.expiresAt ∧
        field request.form "redirect_uri" = row.redirectUri ∧
        (row.codeChallenge ≠ "" → challengeOf (field request.form "code_verifier") = row.codeChallenge)
  | .refresh row client request now =>
      Authenticated client request ∧ row.clientId = client.clientId ∧
        row.token = field request.form "refresh_token" ∧ row.kind = .refresh ∧ now < row.expiresAt

def Phase.Sound : Phase → Prop
  | .authorizing _ => True
  | .redeeming client request => Authenticated client request
  | .issuing grant => grant.Sound

/-- Every request under way has come as far as it has by what it showed. -/
def Provider.Sound (provider : Provider) : Prop := ∀ phase ∈ provider.pending, phase.Sound

variable {provider : Provider}

variable {request : TokenRequest} {client : Client}

theorem authenticated_of_some {clients : List Client}
    (h : authenticateClient clients request = some client) : Authenticated client request := by
  simp only [authenticateClient, Option.bind_eq_bind, Option.bind_eq_some_iff] at h
  obtain ⟨⟨clientId, secret⟩, hcredentials, found, hfound, hsecret⟩ := h
  split at hsecret
  · rename_i hhash
    cases hsecret
    unfold findClient at hfound
    split at hfound
    · cases hfound
    · have hid := List.find?_some hfound
      simp only [decide_eq_true_eq] at hid
      exact ⟨secret, by rw [hcredentials, hid], hhash⟩
  · cases hsecret

def Grant.codeRow : Grant → Option CodeRow
  | .code row .. => some row
  | .refresh .. => none

def Grant.refreshRow : Grant → Option TokenRow
  | .code .. => none
  | .refresh row .. => some row

/-- What became of a request that redeems something: the rows left and the one taken out were there,
and a grant goes by what its row was given for. -/
structure Redeemed (provider others : Provider) (outcome : Except Refused Grant) : Prop where
  pending : others.pending = provider.pending
  codes : ((outcome.toOption.bind Grant.codeRow).toList : Multiset CodeRow) + others.codes ≤
    (provider.codes : Multiset CodeRow)
  tokens : ((outcome.toOption.bind Grant.refreshRow).toList : Multiset TokenRow) + others.tokens ≤
    (provider.tokens : Multiset TokenRow)
  sound : ∀ grant, outcome = .ok grant → grant.Sound

theorem redeemed_error {others : Provider} {answer : Refused}
    (hpending : others.pending = provider.pending)
    (hcodes : (others.codes : Multiset CodeRow) ≤ provider.codes)
    (htokens : (others.tokens : Multiset TokenRow) ≤ provider.tokens) :
    Redeemed provider others (.error answer) := by
  refine ⟨hpending, ?_, ?_, nofun⟩
  · simpa [Except.toOption] using hcodes
  · simpa [Except.toOption] using htokens

theorem verifierFits_iff {row : CodeRow} {form : Form} (h : verifierFits row form = true)
    (hchallenge : row.codeChallenge ≠ "") :
    challengeOf (field form "code_verifier") = row.codeChallenge := by
  simp only [verifierFits, Bool.or_eq_true, Bool.and_eq_true, decide_eq_true_eq] at h
  rcases h with hnone | ⟨_, hfits⟩
  · exact absurd hnone hchallenge
  · exact hfits

theorem redeemed_redeemCode {clock : Nat}
    (hclient : Authenticated client request) :
    Redeemed provider (provider.redeemCode client request clock).1
      (provider.redeemCode client request clock).2 := by
  unfold Provider.redeemCode
  dsimp only
  split
  · exact redeemed_error rfl le_rfl le_rfl
  · split
    · exact redeemed_error rfl (Steps.filter_le _ _) le_rfl
    · rename_i row hrow
      split
      · exact redeemed_error rfl (Steps.filter_le _ _) le_rfl
      · rename_i hclock
        split
        · exact redeemed_error rfl (Steps.filter_le _ _) le_rfl
        · rename_i hredirect
          split
          · exact redeemed_error rfl (Steps.filter_le _ _) le_rfl
          · split
            · exact redeemed_error rfl (Steps.filter_le _ _) le_rfl
            · rename_i hfits
              have hpicked := List.find?_some hrow
              simp only [Bool.and_eq_true, decide_eq_true_eq] at hpicked
              refine ⟨rfl, Steps.find_add_filter_le hrow, by simp [Except.toOption, Grant.refreshRow],
                fun grant hgrant => ?_⟩
              cases hgrant
              exact ⟨hclient, hpicked.2, hpicked.1, Nat.le_of_not_lt hclock,
                not_not.mp hredirect, verifierFits_iff (by simpa using hfits)⟩

theorem redeemed_redeemRefresh {now : Nat}
    (hclient : Authenticated client request) :
    Redeemed provider (provider.redeemRefresh client request now).1
      (provider.redeemRefresh client request now).2 := by
  unfold Provider.redeemRefresh
  dsimp only
  split
  · exact redeemed_error rfl le_rfl le_rfl
  · split
    · exact redeemed_error rfl le_rfl (Steps.filter_le _ _)
    · rename_i row hrow
      have hpicked := List.find?_some hrow
      simp only [Bool.and_eq_true, decide_eq_true_eq] at hpicked
      refine ⟨rfl, by simp [Except.toOption, Grant.codeRow], Steps.find_add_filter_le hrow,
        fun grant hgrant => ?_⟩
      cases hgrant
      obtain ⟨⟨⟨htoken, hkind⟩, hown⟩, hnow⟩ := hpicked
      exact ⟨hclient, hown, htoken, hkind, hnow⟩

theorem redeemed_redeem {client : Client} {request : TokenRequest} {now clock : Nat}
    (hclient : Authenticated client request) :
    Redeemed provider (provider.redeem client request now clock).1
      (provider.redeem client request now clock).2 := by
  unfold Provider.redeem
  split
  · exact redeemed_redeemCode hclient
  · split
    · exact redeemed_redeemRefresh hclient
    · exact redeemed_error rfl le_rfl le_rfl

end

def Phase.grant : Phase → Option Grant
  | .issuing grant => some grant
  | _ => none

def Event.givenCode : Event → Option CodeRow
  | .coded row => some row
  | _ => none

def Event.givenRefresh : Event → Option TokenRow
  | .issued _ _ refresh => some refresh
  | _ => none

def Event.exchanged : Event → Option Grant
  | .issued grant .. => some grant
  | _ => none

def Event.exchangedCode (event : Event) : Option CodeRow := event.exchanged.bind Grant.codeRow

def Event.exchangedRefresh (event : Event) : Option TokenRow :=
  event.exchanged.bind Grant.refreshRow

namespace Provider

variable {provider others : Provider}

/-- What requests have taken out and not yet been answered for. -/
def grants (provider : Provider) : Multiset Grant :=
  (provider.pending.filterMap Phase.grant : List Grant)

/-- The codes that may still be exchanged: those in the table, and those that a request has taken
out. -/
def codeStock (provider : Provider) : Multiset CodeRow :=
  provider.codes + provider.grants.filterMap Grant.codeRow

def refreshStock (provider : Provider) : Multiset TokenRow :=
  (provider.tokens.filter fun row => row.kind = .refresh : List TokenRow) +
    provider.grants.filterMap Grant.refreshRow

theorem grants_without_le (request : Nat) : (provider.without request).grants ≤ provider.grants :=
  Multiset.coe_le.mpr ((List.eraseIdx_sublist _ _).filterMap _).subperm

theorem grants_without {request : Nat} {grant : Grant}
    (h : provider.pending[request]? = some (.issuing grant)) :
    grant ::ₘ (provider.without request).grants = provider.grants := by
  obtain ⟨hlt, heq⟩ := List.getElem?_eq_some_iff.mp h
  have hperm := (List.getElem_cons_eraseIdx_perm hlt).filterMap Phase.grant
  rw [heq, List.filterMap_cons] at hperm
  exact Multiset.coe_eq_coe.mpr hperm

variable [Library]

/-- What one statement can do: nothing but take away, put a code in, take out what is exchanged, or
put in what it is exchanged for. -/
inductive Does (provider : Provider) : Provider → List Event → Prop where
  | less {left : Provider} {events : List Event} :
      (left.codes : Multiset CodeRow) ≤ provider.codes →
      (left.tokens : Multiset TokenRow) ≤ provider.tokens → left.grants ≤ provider.grants →
      (∀ event ∈ events, event.givenCode = none ∧ event.exchanged = none) →
      Does provider left events
  | codes {left : Provider} (row : CodeRow) :
      left.codes = provider.codes ++ [row] → left.tokens = provider.tokens →
      left.grants ≤ provider.grants → Does provider left [.coded row]
  | takes {left : Provider} (grant : Grant) : grant.Sound →
      (grant.codeRow.toList : Multiset CodeRow) + left.codes ≤ provider.codes →
      (grant.refreshRow.toList : Multiset TokenRow) + left.tokens ≤ provider.tokens →
      left.grants ≤ grant ::ₘ provider.grants → Does provider left []
  | issues {left : Provider} (grant : Grant) (access refresh : TokenRow) : grant.Sound →
      left.codes = provider.codes → left.tokens = provider.tokens ++ [access, refresh] →
      access.kind = .access ∧ refresh.kind = .refresh → grant ::ₘ left.grants ≤ provider.grants →
      Does provider left [.issued grant access refresh]

theorem does_nothing (provider : Provider) : provider.Does provider [] :=
  .less le_rfl le_rfl le_rfl fun _ h => absurd h List.not_mem_nil

theorem does_refuse (h : others.grants ≤ provider.grants)
    (hcodes : (others.codes : Multiset CodeRow) ≤ provider.codes)
    (htokens : (others.tokens : Multiset TokenRow) ≤ provider.tokens) {event : Event}
    (hevent : event.givenCode = none ∧ event.exchanged = none) : provider.Does others [event] := by
  refine .less hcodes htokens h fun other hother => ?_
  rw [List.mem_singleton.mp hother]
  exact hevent

variable [Runtime]

theorem next_does (hsound : provider.Sound) (move : Move) :
    provider.Does (provider.next move).1 (provider.next move).2 := by
  cases move with
  | ask params =>
      simp only [next]
      split
      · exact does_refuse le_rfl le_rfl le_rfl ⟨rfl, rfl⟩
      · split
        · exact does_refuse le_rfl le_rfl le_rfl ⟨rfl, rfl⟩
        · exact .less le_rfl le_rfl le_rfl fun _ h => absurd h List.not_mem_nil
  | giveCode request claims now code =>
      simp only [next]
      split
      · unfold giveCode
        dsimp only
        split
        · exact .less le_rfl le_rfl (grants_without_le request) fun _ h => absurd h List.not_mem_nil
        · exact .codes _ rfl rfl (grants_without_le request)
      · exact does_nothing provider
  | askTokens request =>
      simp only [next]
      split
      · exact does_refuse le_rfl le_rfl le_rfl ⟨rfl, rfl⟩
      · exact .less le_rfl le_rfl le_rfl fun _ h => absurd h List.not_mem_nil
  | redeem request now clock =>
      simp only [next]
      split
      · rename_i client asked hphase
        have hclient : Authenticated client asked := hsound _ (List.mem_of_getElem? hphase)
        have hredeemed := @redeemed_redeem _ (provider.without request) client asked now clock hclient
        split
        · rename_i others grant heq
          rw [heq] at hredeemed
          refine .takes grant (hredeemed.sound grant rfl) hredeemed.codes hredeemed.tokens ?_
          show (grant ::ₘ others.grants) ≤ _
          refine (Multiset.cons_le_cons_iff _).mpr ?_
          rw [grants, hredeemed.pending]
          exact grants_without_le request
        · rename_i others answer heq
          rw [heq] at hredeemed
          refine does_refuse ?_ (by simpa [Except.toOption, without] using hredeemed.codes)
            (by simpa [Except.toOption, without] using hredeemed.tokens) ⟨rfl, rfl⟩
          rw [grants, hredeemed.pending]
          exact grants_without_le request
      · exact does_nothing provider
  | give request now access refresh =>
      simp only [next]
      split
      · rename_i grant hphase
        unfold give
        dsimp only
        split
        · exact .less le_rfl le_rfl (grants_without_le request) fun _ h => absurd h List.not_mem_nil
        · exact .issues grant _ _ (hsound _ (List.mem_of_getElem? hphase)) rfl rfl ⟨rfl, rfl⟩ (grants_without hphase).le
      · exact does_nothing provider
  | drop request =>
      exact .less le_rfl le_rfl (grants_without_le request) fun _ h => absurd h List.not_mem_nil
  | sweepCodes now =>
      exact .less (Steps.filter_le _ _) le_rfl le_rfl fun _ h => absurd h List.not_mem_nil
  | sweepTokens now =>
      exact .less le_rfl (Steps.filter_le _ _) le_rfl fun _ h => absurd h List.not_mem_nil
  | registerClient client => exact .less le_rfl le_rfl le_rfl fun _ h => absurd h List.not_mem_nil
  | updateRedirects clientId redirectUris =>
      exact .less le_rfl le_rfl le_rfl fun _ h => absurd h List.not_mem_nil

variable {α : Type} {events : List Event}

section
omit [Library] [Runtime]

theorem tally_exchanged (f : Grant → Option α)
    (h : ∀ event ∈ events, event.givenCode = none ∧ event.exchanged = none) :
    Steps.tally (fun event => event.exchanged.bind f) events = 0 := by
  rw [Steps.tally, List.filterMap_eq_nil_iff.mpr fun event hevent => ?_, Multiset.coe_nil]
  rw [(h event hevent).2]
  rfl

theorem filterMap_cons_grant (f : Grant → Option α) (grant : Grant)
    (grants : Multiset Grant) :
    (grant ::ₘ grants).filterMap f = ((f grant).toList : Multiset α) + grants.filterMap f := by
  cases h : f grant with
  | none => simp [Multiset.filterMap_cons_none _ _ h]
  | some a => simp [Multiset.filterMap_cons_some _ _ _ h]

theorem stock_takes (f : Grant → Option α) {grant : Grant} {rows left : Multiset α}
    {grants grants' : Multiset Grant} (hrows : ((f grant).toList : Multiset α) + left ≤ rows)
    (hgrants : grants' ≤ grant ::ₘ grants) :
    left + grants'.filterMap f ≤ rows + grants.filterMap f := by
  have hle := Multiset.filterMap_le_filterMap f hgrants
  rw [filterMap_cons_grant] at hle
  calc
    _ ≤ left + (((f grant).toList : Multiset α) + grants.filterMap f) := add_le_add_right hle _
    _ = ((f grant).toList : Multiset α) + left + grants.filterMap f := by
      rw [← add_assoc, add_comm left]
    _ ≤ _ := add_le_add_left hrows _

theorem stock_issues (f : Grant → Option α) {grant : Grant} {rows left made : Multiset α}
    {grants grants' : Multiset Grant} (hrows : left ≤ rows + made)
    (hgrants : grant ::ₘ grants' ≤ grants) :
    ((f grant).toList : Multiset α) + (left + grants'.filterMap f) ≤
      rows + grants.filterMap f + made := by
  have hle := Multiset.filterMap_le_filterMap f hgrants
  rw [filterMap_cons_grant] at hle
  calc
    _ = left + (((f grant).toList : Multiset α) + grants'.filterMap f) := add_left_comm _ _ _
    _ ≤ rows + made + grants.filterMap f := add_le_add hrows hle
    _ = _ := add_right_comm _ _ _

theorem tally_issued (f : Grant → Option α) (grant : Grant) (access refresh : TokenRow) :
    Steps.tally (fun event => event.exchanged.bind f) [Event.issued grant access refresh] =
      (f grant).toList := by
  cases h : f grant <;> simp [Steps.tally, Event.exchanged, h]

end

section
omit [Runtime]

theorem Does.codeStock {left : Provider} (h : provider.Does left events) :
    Steps.tally Event.exchangedCode events + left.codeStock ≤
      provider.codeStock + Steps.tally Event.givenCode events := by
  cases h with
  | less hcodes htokens hgrants hevents =>
      rw [show Steps.tally Event.exchangedCode events = 0 from tally_exchanged _ hevents, zero_add]
      exact (add_le_add hcodes (Multiset.filterMap_le_filterMap _ hgrants)).trans
        (Multiset.le_add_right _ _)
  | codes row hcodes htokens hgrants =>
      calc
        _ = left.codeStock := zero_add _
        _ = (provider.codes : Multiset CodeRow) + ([row] : List CodeRow) +
              left.grants.filterMap Grant.codeRow := by
          rw [Provider.codeStock, hcodes, ← Multiset.coe_add]
        _ ≤ (provider.codes : Multiset CodeRow) + ([row] : List CodeRow) +
              provider.grants.filterMap Grant.codeRow :=
          add_le_add_right (Multiset.filterMap_le_filterMap _ hgrants) _
        _ = _ := add_right_comm _ _ _
  | takes grant hsound hcodes htokens hgrants =>
      calc
        _ = left.codeStock := zero_add _
        _ ≤ provider.codeStock := stock_takes Grant.codeRow hcodes hgrants
        _ = _ := (add_zero _).symm
  | issues grant access refresh hsound hcodes htokens hkinds hgrants =>
      rw [show Steps.tally Event.exchangedCode _ = _ from tally_issued Grant.codeRow grant access refresh]
      exact stock_issues Grant.codeRow (by rw [hcodes]; exact (add_zero _).ge) hgrants

theorem Does.refreshStock {left : Provider} (h : provider.Does left events) :
    Steps.tally Event.exchangedRefresh events + left.refreshStock ≤
      provider.refreshStock + Steps.tally Event.givenRefresh events := by
  have hfilter : ∀ {rows rows' : List TokenRow}, (rows : Multiset TokenRow) ≤ rows' →
      ((rows.filter fun row => row.kind = .refresh : List TokenRow) : Multiset TokenRow) ≤
        (rows'.filter fun row => row.kind = .refresh : List TokenRow) := by
    intro rows rows' hrows
    exact Multiset.filter_le_filter (fun row : TokenRow => row.kind = .refresh) hrows
  cases h with
  | less hcodes htokens hgrants hevents =>
      rw [show Steps.tally Event.exchangedRefresh events = 0 from tally_exchanged _ hevents, zero_add]
      exact (add_le_add (hfilter htokens) (Multiset.filterMap_le_filterMap _ hgrants)).trans
        (Multiset.le_add_right _ _)
  | codes row hcodes htokens hgrants =>
      calc
        _ = left.refreshStock := zero_add _
        _ ≤ provider.refreshStock :=
          add_le_add (hfilter (by rw [htokens])) (Multiset.filterMap_le_filterMap _ hgrants)
        _ = _ := (add_zero _).symm
  | takes grant hsound hcodes htokens hgrants =>
      have hkind : (grant.refreshRow.toList.filter fun row => row.kind = .refresh) =
          grant.refreshRow.toList := by
        cases grant with
        | code => rfl
        | refresh row client request now => simp [Grant.refreshRow, hsound.2.2.2.1]
      have hboth : ((grant.refreshRow.toList ++ left.tokens : List TokenRow) : Multiset TokenRow) ≤
          provider.tokens := htokens
      have htaken := hfilter hboth
      rw [List.filter_append, hkind, ← Multiset.coe_add] at htaken
      calc
        _ = left.refreshStock := zero_add _
        _ ≤ provider.refreshStock := stock_takes Grant.refreshRow htaken hgrants
        _ = _ := (add_zero _).symm
  | issues grant access refresh hsound hcodes htokens hkinds hgrants =>
      rw [show Steps.tally Event.exchangedRefresh _ = _ from
        tally_issued Grant.refreshRow grant access refresh]
      refine stock_issues Grant.refreshRow ?_ hgrants
      rw [htokens, List.filter_append, ← Multiset.coe_add]
      refine add_le_add_right (Multiset.coe_le.mpr ?_) _
      simp [hkinds.1, hkinds.2, Event.givenRefresh]

theorem sound_without (hsound : provider.Sound) (request : Nat) : (provider.without request).Sound :=
  fun phase hphase => hsound phase ((List.eraseIdx_sublist _ _).subset hphase)

theorem sound_beside (hsound : provider.Sound) {phase : Phase} (hphase : phase.Sound) :
    (provider.beside phase).Sound := by
  intro other hother
  rcases List.mem_cons.mp hother with rfl | hother
  · exact hphase
  · exact hsound other hother

end

theorem sound_next (hsound : provider.Sound) (move : Move) : (provider.next move).1.Sound := by
  cases move with
  | ask params =>
      simp only [next]
      split
      · exact hsound
      · split
        · exact hsound
        · exact sound_beside hsound trivial
  | giveCode request claims now code =>
      simp only [next]
      split
      · unfold giveCode
        dsimp only
        split <;> exact sound_without hsound request
      · exact hsound
  | askTokens request =>
      simp only [next]
      split
      · exact hsound
      · rename_i client hclient
        exact sound_beside hsound (authenticated_of_some hclient)
  | redeem request now clock =>
      simp only [next]
      split
      · rename_i client asked hphase
        have hclient : Authenticated client asked := hsound _ (List.mem_of_getElem? hphase)
        have hredeemed := @redeemed_redeem _ (provider.without request) client asked now clock hclient
        have hpending : ∀ others outcome,
            (provider.without request).redeem client asked now clock = (others, outcome) →
              others.Sound := by
          intro others outcome heq phase hphase
          rw [heq] at hredeemed
          rw [hredeemed.pending] at hphase
          exact sound_without hsound request phase hphase
        split
        · rename_i others grant heq
          refine sound_beside (hpending _ _ heq) ?_
          rw [heq] at hredeemed
          exact hredeemed.sound grant rfl
        · rename_i others answer heq
          exact hpending _ _ heq
      · exact hsound
  | give request now access refresh =>
      simp only [next]
      split
      · unfold give
        dsimp only
        split <;> exact sound_without hsound request
      · exact hsound
  | drop request => exact sound_without hsound request
  | sweepCodes now => exact hsound
  | sweepTokens now => exact hsound
  | registerClient client => exact hsound
  | updateRedirects clientId redirectUris => exact hsound

omit [Runtime] in
theorem Does.issued {left : Provider} (h : provider.Does left events)
    {grant : Grant} {access refresh : TokenRow} (hevent : .issued grant access refresh ∈ events) :
    grant.Sound := by
  cases h with
  | less hcodes htokens hgrants hevents => exact nomatch (hevents _ hevent).2
  | codes row hcodes htokens hgrants => exact nomatch List.mem_singleton.mp hevent
  | takes grant hsound hcodes htokens hgrants => exact absurd hevent List.not_mem_nil
  | issues grant' access' refresh' hsound hcodes htokens hkinds hgrants =>
      cases List.mem_singleton.mp hevent
      exact hsound

/-- A token that is there was there before, or is of the pair just given out. -/
def Explained (tokens : List TokenRow) (events : List Event) (row : TokenRow) : Prop :=
  row ∈ tokens ∨ ∃ grant access refresh, .issued grant access refresh ∈ events ∧
    (row = access ∨ row = refresh)

omit [Runtime] in
theorem Does.explained {left : Provider} (h : provider.Does left events) :
    ∀ row ∈ left.tokens, Explained provider.tokens events row := by
  intro row hrow
  cases h with
  | less hcodes htokens hgrants hevents => exact .inl (Multiset.mem_of_le htokens hrow)
  | codes code hcodes htokens hgrants => exact .inl (htokens ▸ hrow)
  | takes grant hsound hcodes htokens hgrants =>
      exact .inl (Multiset.mem_of_le htokens (Multiset.mem_add.mpr (.inr hrow)))
  | issues grant access refresh hsound hcodes htokens hkinds hgrants =>
      rw [htokens, List.mem_append] at hrow
      rcases hrow with hbefore | hnew
      · exact .inl hbefore
      · exact .inr ⟨grant, access, refresh, List.mem_singleton_self _, by simpa using hnew⟩

theorem explained_run (start : Provider) (hsound : start.Sound) (moves : List Move) :
    ∀ row ∈ (Steps.run next start moves).1.tokens,
      Explained start.tokens (Steps.run next start moves).2 row := by
  induction moves generalizing start with
  | nil => exact fun row hrow => .inl hrow
  | cons move moves ih =>
      intro row hrow
      rw [Steps.run_cons] at hrow ⊢
      rcases ih _ (sound_next hsound move) row hrow with hbefore | ⟨grant, access, refresh, hlater, hrow'⟩
      · rcases (next_does hsound move).explained row hbefore with hstart |
          ⟨grant, access, refresh, hhere, hrow'⟩
        · exact .inl hstart
        · exact .inr ⟨grant, access, refresh, List.mem_append_left _ hhere, hrow'⟩
      · exact .inr ⟨grant, access, refresh, List.mem_append_right _ hlater, hrow'⟩

/-- However the statements of any number of requests come, each code and each refresh token given out
is exchanged for at most one pair, by its client, in time and for what it was given for; and there is
no token that is not of such a pair. -/
theorem exchanged_once (clients : List Client) (moves : List Move) :
    let last := Steps.run next { clients } moves
    Steps.tally Event.exchangedCode last.2 ≤ Steps.tally Event.givenCode last.2 ∧
    Steps.tally Event.exchangedRefresh last.2 ≤ Steps.tally Event.givenRefresh last.2 ∧
    (∀ grant access refresh, .issued grant access refresh ∈ last.2 → grant.Sound) ∧
    ∀ row ∈ last.1.tokens, ∃ grant access refresh, .issued grant access refresh ∈ last.2 ∧
      (row = access ∨ row = refresh) := by
  intro last
  have hstart : Provider.Sound { clients } := fun phase hphase => absurd hphase List.not_mem_nil
  have hkeeps : ∀ (provider : Provider) (move : Move), provider.Sound →
      (provider.next move).1.Sound := fun _ move hsound => sound_next hsound move
  refine ⟨?_, ?_, ?_, fun row hrow => ?_⟩
  · have h := Steps.run_tally hkeeps (fun _ move hsound => (next_does hsound move).codeStock) hstart
      moves
    exact (Multiset.le_add_right _ _).trans (h.trans (zero_add _).le)
  · have h := Steps.run_tally hkeeps (fun _ move hsound => (next_does hsound move).refreshStock)
      hstart moves
    exact (Multiset.le_add_right _ _).trans (h.trans (zero_add _).le)
  · intro grant access refresh hevent
    obtain ⟨before, move, after, _, hhere⟩ := Steps.mem_run.mp hevent
    exact (next_does (Steps.run_keeps hkeeps hstart before) move).issued hhere
  · rcases explained_run _ hstart moves row hrow with hnone | hissued
    · exact absurd hnone List.not_mem_nil
    · exact hissued

end Provider

def verifier : String := "dBjftJeZ4CVP-mB92K27uhbUJU1p1r_wW1gFWFOEjXk"

/-- SHA-256 of one verifier and of one client's secret. -/
@[reducible] def Library.twoTexts : Library where
  sha256 bytes :=
    if bytes = utf8 verifier then
      #v[19, 211, 30, 150, 26, 26, 216, 236, 47, 22, 177, 12, 76, 152, 46, 8, 118, 168, 120, 173,
        109, 241, 68, 86, 110, 225, 137, 74, 203, 112, 249, 195]
    else if bytes = utf8 "odm-secret" then
      #v[246, 157, 233, 25, 137, 61, 232, 152, 53, 204, 0, 128, 59, 227, 185, 203, 235, 81, 221,
        56, 166, 174, 162, 235, 38, 193, 27, 196, 132, 182, 191, 237]
    else Vector.replicate 32 0

def vault : Client where
  clientId := "passwords"
  name := "Password manager"
  secretHash := "f69de919893de89835cc00803be3b9cbeb51dd38a6aea2eb26c11bc484b6bfed"
  redirectUris := ["https://vault.example.org/identity/connect/oidc-signin"]

def signingIn : Form := [
  ("client_id", "passwords"), ("response_type", "code"), ("scope", "openid"),
  ("redirect_uri", "https://vault.example.org/identity/connect/oidc-signin"),
  ("code_challenge", "E9Melhoa2OwvFrEMTJguCHaoeK1t8URWbuGJSstw-cM"), ("code_challenge_method", "S256")]

def exchanging : TokenRequest where
  form := [("grant_type", "authorization_code"), ("code", "c0de"),
    ("redirect_uri", "https://vault.example.org/identity/connect/oidc-signin"),
    ("code_verifier", verifier)]
  basic := some (some "passwords:odm-secret")

/-- A code is given out at the start of the clock and exchanged two minutes later to the
microsecond. -/
def lastMoment : List Move := [
  .ask signingIn, .giveCode 0 "sub" 0 "c0de", .askTokens exchanging,
  .redeem 0 120000000 120000000, .give 0 120000000 "access" "refresh"]

/-- At the moment it expires a code is still exchanged. -/
theorem exchanged_at_expiry :
    letI := Library.twoTexts
    letI := Runtime.latin
    ∃ row client request clock access refresh,
      .issued (.code row client request clock) access refresh ∈
          (Steps.run Provider.next { clients := [vault] } lastMoment).2 ∧
        ¬ clock < row.expiresAt := by
  let _ := Library.twoTexts
  let _ := Runtime.latin
  have hrun : (Steps.run Provider.next { clients := [vault] } lastMoment).2 = [
      .coded ⟨"c0de", "passwords", "https://vault.example.org/identity/connect/oidc-signin", "",
        "E9Melhoa2OwvFrEMTJguCHaoeK1t8URWbuGJSstw-cM", "sub", 120000000⟩,
      .issued (.code ⟨"c0de", "passwords",
          "https://vault.example.org/identity/connect/oidc-signin", "",
          "E9Melhoa2OwvFrEMTJguCHaoeK1t8URWbuGJSstw-cM", "sub", 120000000⟩ vault exchanging 120000000)
        ⟨"access", .access, "passwords", "sub", "", "openid profile email", 3720000000⟩
        ⟨"refresh", .refresh, "passwords", "sub", "", "openid profile email", 2592120000000⟩] := by
    decide +kernel
  rw [hrun]
  exact ⟨_, _, _, _, _, _, .tail _ (List.mem_singleton_self _), Nat.lt_irrefl _⟩

end OpenDirectory.Oidc
