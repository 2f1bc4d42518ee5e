import OpenDirectory.TrustPublishing

/-! Certificates out of the domain's authority: from a profile and a request for one, with a key made here or with the
key of a signing request. -/

namespace OpenDirectory.CertificateIssue

open Agent (bounded)
open TrustPublishing (validateName)

variable [Runtime]

def leafKeySize : Nat := 2048

def defaultValidityDays : Nat := 397

def maxValidityDays : Nat := 1825

/-- `PURPOSES`, with the identifiers the names stand for. -/
def purposeIds : List (String × String) := [
  ("server", "1.3.6.1.5.5.7.3.1"),
  ("client", "1.3.6.1.5.5.7.3.2"),
  ("email", "1.3.6.1.5.5.7.3.4"),
  ("code-signing", "1.3.6.1.5.5.7.3.3"),
  ("timestamping", "1.3.6.1.5.5.7.3.8"),
  ("ocsp-signing", "1.3.6.1.5.5.7.3.9"),
  ("smartcard-logon", "1.3.6.1.4.1.311.20.2.2"),
  ("kerberos-pkinit", "1.3.6.1.5.2.3.5")]

def builtInPurposes : List (String × List String) :=
  [("server", ["server"]), ("console", ["server"]), ("client", ["client"])]

structure Profile where
  name : String
  purposes : List String
  validityDays : Nat := defaultValidityDays
  keySize : Nat := leafKeySize

structure PublicKey where
  algorithm : String := "RSA"
  size : Nat

/-- What a signing request says: common names, and host names and addresses beside them. -/
structure SigningRequest where
  commonNames : List String
  san : Option (List String × List String) := none
  signatureValid : Bool := true
  publicKey : PublicKey

structure IssueRequest where
  commonName : String
  sans : List String := []
  profile : String := "server"
  validityDays : Nat := defaultValidityDays

structure SignRequest where
  csrPem : String
  profile : String := "server"
  validityDays : Nat := defaultValidityDays

inductive Request where
  | issue (body : IssueRequest)
  | sign (body : SignRequest)

/-- Times are in seconds, as a certificate has them. -/
structure Certificate where
  subject : String
  san : List String
  profile : String
  notBefore : Int
  notAfter : Int
  usage : List String
  publicKey : PublicKey

/-- The end of the authority's own certificate, where there is one, and the profiles of the operators. -/
structure World where
  authority : Option Int := none
  profiles : List Profile := []

def day : Int := 86400

def sanEntry (name : String) : Option String :=
  if (Address.ipAddress name).isSome then some name else validateName name

def issue (world : World) (now : Int) (commonName : String) (sans : List String) (profile : String) (validityDays : Nat)
    (purposes : Option (List String)) (keySize : Nat) (publicKey : Option PublicKey) : Option Certificate := do
  let purposes ← purposes <|> Dict.get builtInPurposes profile
  guard (purposes ≠ [])
  let usage ← purposes.mapM (Dict.get purposeIds)
  guard (keySize ∈ [2048, 3072, 4096])
  guard (1 ≤ validityDays ∧ validityDays ≤ maxValidityDays)
  let commonName ← validateName commonName
  let _ ← world.authority
  let san ← (commonName :: sans.filter (· ≠ "")).mapM sanEntry
  return {
    subject := commonName
    san, profile, usage
    notBefore := now - 300
    notAfter := now + day * validityDays
    publicKey := publicKey.getD { size := keySize } }

def namesOf (request : SigningRequest) : List String :=
  match request.san with
  | none => request.commonNames
  | some (hosts, addresses) => (request.commonNames ++ hosts ++ addresses).eraseDups

def issueFromRequest (world : World) (now : Int) (request : SigningRequest) (profile : String) (validityDays : Nat)
    (purposes : Option (List String)) : Option Certificate := do
  guard (request.signatureValid = true)
  let commonName ← (namesOf request).head?
  issue world now commonName (namesOf request).tail profile validityDays purposes leafKeySize (some request.publicKey)

def profileChar (c : Char) : Bool := c.isDigit || c.isLower

def profileName (name : String) : Bool :=
  bounded 2 31 name && name.toList.head?.any profileChar && name.toList.all (fun c => profileChar c || c = '-')

def validity (days : Nat) : Bool := 1 ≤ days && days ≤ maxValidityDays

/-- The purposes and the key size a profile of an operator has, and nothing to override for one that is built in. -/
def profileRow (world : World) (name : String) : Option (Option (List String) × Nat) :=
  if name ∈ Dict.keys builtInPurposes then some (none, leafKeySize)
  else (world.profiles.find? fun row => row.name = name).map fun row => (some row.purposes, row.keySize)

/-- The certificate a request is answered with. What is read of a signing request is left open. -/
def answer (loadRequest : String → Option SigningRequest) (world : World) (now : Int) : Request → Option Certificate
  | .issue body => do
      guard (bounded 1 253 body.commonName && body.sans.length ≤ 32 && body.sans.all (bounded 0 253) &&
        profileName body.profile && validity body.validityDays)
      let (purposes, keySize) ← profileRow world body.profile
      issue world now body.commonName body.sans body.profile body.validityDays purposes keySize none
  | .sign body => do
      guard (bounded 1 32768 body.csrPem && profileName body.profile && validity body.validityDays)
      let (purposes, _) ← profileRow world body.profile
      let request ← loadRequest body.csrPem
      issueFromRequest world now request body.profile body.validityDays purposes

def Request.profile : Request → String
  | .issue body => body.profile
  | .sign body => body.profile

def Request.validityDays : Request → Nat
  | .issue body => body.validityDays
  | .sign body => body.validityDays

/-- The key that comes with a request. -/
def Request.brought (loadRequest : String → Option SigningRequest) : Request → Option PublicKey
  | .issue _ => none
  | .sign body => (loadRequest body.csrPem).map SigningRequest.publicKey

/-- A profile as it is listed, built in or an operator's. -/
def profileOf (world : World) (name : String) : Option Profile :=
  match Dict.get builtInPurposes name with
  | some purposes => some { name, purposes }
  | none => world.profiles.find? fun row => row.name = name

/-- A certificate inside its authority and its profile. How long it lasts counts from when it is issued. -/
structure Inside (world : World) (now : Int) (profile : Profile) (cert : Certificate) : Prop where
  authority : ∀ ending ∈ world.authority, cert.notAfter ≤ ending
  lifetime : cert.notAfter - now ≤ day * profile.validityDays
  purposes : profile.purposes.mapM (Dict.get purposeIds) = some cert.usage
  key : profile.keySize ≤ cert.publicKey.size

/-- The days asked for end before the authority does and are no more than the profile's, and a key that is brought is as
large as the profile has it. -/
structure Within (loadRequest : String → Option SigningRequest) (world : World) (now : Int) (profile : Profile)
    (request : Request) : Prop where
  authority : ∀ ending ∈ world.authority, now + day * request.validityDays ≤ ending
  lifetime : request.validityDays ≤ profile.validityDays
  key : ∀ key ∈ request.brought loadRequest, profile.keySize ≤ key.size

theorem issue_eq {world : World} {now : Int} {commonName profile : String} {sans : List String} {validityDays keySize : Nat}
    {purposes : Option (List String)} {publicKey : Option PublicKey} {cert : Certificate}
    (h : issue world now commonName sans profile validityDays purposes keySize publicKey = some cert) :
    cert.notAfter = now + day * validityDays ∧ cert.publicKey = publicKey.getD { size := keySize } ∧
      ∃ given, (purposes <|> Dict.get builtInPurposes profile) = some given ∧
        given.mapM (Dict.get purposeIds) = some cert.usage := by
  simp only [issue, Option.bind_eq_bind, Option.bind_eq_some_iff, Option.guard_eq_some', Option.pure_def,
    Option.some.injEq] at h
  obtain ⟨given, hgiven, _, -, usage, husage, _, -, _, -, valid, -, ending, -, san, -, rfl⟩ := h
  exact ⟨rfl, rfl, given, hgiven, husage⟩

omit [Runtime] in
theorem profileRow_eq {world : World} {name : String} {purposes : Option (List String)} {keySize : Nat}
    (h : profileRow world name = some (purposes, keySize)) : ∃ profile, profileOf world name = some profile ∧
      (purposes <|> Dict.get builtInPurposes name) = some profile.purposes ∧ keySize = profile.keySize := by
  unfold profileRow at h
  split_ifs at h with hbuiltIn
  · obtain ⟨rfl, rfl⟩ := Prod.mk.inj (Option.some.inj h)
    obtain ⟨given, hgiven⟩ : ∃ given, Dict.get builtInPurposes name = some given := by
      by_contra hnone
      rw [not_exists] at hnone
      exact Dict.get_eq_none_iff.mp (Option.eq_none_iff_forall_ne_some.mpr hnone) hbuiltIn
    refine ⟨{ name, purposes := given }, ?_, ?_, rfl⟩
    · rw [profileOf, hgiven]
    · exact hgiven
  · obtain ⟨row, hrow, hboth⟩ := Option.map_eq_some_iff.mp h
    obtain ⟨rfl, rfl⟩ := Prod.mk.inj hboth
    refine ⟨row, ?_, rfl, rfl⟩
    rw [profileOf, Dict.get_eq_none_iff.mpr hbuiltIn]
    exact hrow

theorem answer_eq {loadRequest : String → Option SigningRequest} {world : World} {now : Int} {request : Request}
    {cert : Certificate} (h : answer loadRequest world now request = some cert) :
    ∃ profile, profileOf world request.profile = some profile ∧
      cert.notAfter = now + day * request.validityDays ∧ profile.purposes.mapM (Dict.get purposeIds) = some cert.usage ∧
        cert.publicKey = (request.brought loadRequest).getD { size := profile.keySize } := by
  cases request with
  | issue body =>
      simp only [answer, Option.bind_eq_bind, Option.bind_eq_some_iff] at h
      obtain ⟨_, -, ⟨purposes, keySize⟩, hrow, hissue⟩ := h
      obtain ⟨profile, hprofile, hpurposes, rfl⟩ := profileRow_eq hrow
      obtain ⟨hend, hkey, given, hgiven, husage⟩ := issue_eq hissue
      obtain rfl : given = profile.purposes := Option.some.inj (hgiven.symm.trans hpurposes)
      exact ⟨profile, hprofile, hend, husage, hkey⟩
  | sign body =>
      simp only [answer, Option.bind_eq_bind, Option.bind_eq_some_iff] at h
      obtain ⟨_, -, ⟨purposes, keySize⟩, hrow, request, hrequest, hissue⟩ := h
      simp only [issueFromRequest, Option.bind_eq_bind, Option.bind_eq_some_iff] at hissue
      obtain ⟨_, -, commonName, -, hissue⟩ := hissue
      obtain ⟨profile, hprofile, hpurposes, -⟩ := profileRow_eq hrow
      obtain ⟨hend, hkey, given, hgiven, husage⟩ := issue_eq hissue
      obtain rfl : given = profile.purposes := Option.some.inj (hgiven.symm.trans hpurposes)
      refine ⟨profile, hprofile, hend, husage, ?_⟩
      rw [hkey, Request.brought, hrequest]
      rfl

/-- An accepted request is answered with a certificate inside its authority and its profile exactly when the days asked
for and the key that is brought are. -/
theorem issued_inside_iff (loadRequest : String → Option SigningRequest) (world : World) (now : Int) (request : Request)
    (cert : Certificate) (h : answer loadRequest world now request = some cert) :
    (∃ profile ∈ profileOf world request.profile, Inside world now profile cert) ↔
      ∃ profile ∈ profileOf world request.profile, Within loadRequest world now profile request := by
  obtain ⟨profile, hprofile, hend, husage, hkey⟩ := answer_eq h
  have hlifetime : cert.notAfter - now ≤ day * profile.validityDays ↔ request.validityDays ≤ profile.validityDays := by
    rw [hend, day]
    omega
  have hsize : profile.keySize ≤ cert.publicKey.size ↔ ∀ key ∈ request.brought loadRequest, profile.keySize ≤ key.size := by
    rw [hkey]
    cases request.brought loadRequest with
    | none => simp
    | some key => simp
  have honly : ∀ other ∈ profileOf world request.profile, other = profile := by
    intro other hother
    exact (Option.some.inj (hprofile.symm.trans hother)).symm
  constructor
  · intro ⟨other, hother, hinside⟩
    obtain rfl := honly other hother
    exact ⟨other, hother, hend ▸ hinside.authority, hlifetime.mp hinside.lifetime, hsize.mp hinside.key⟩
  · intro ⟨other, hother, hwithin⟩
    obtain rfl := honly other hother
    exact ⟨other, hother, hend ▸ hwithin.authority, hlifetime.mpr hwithin.lifetime, husage, hsize.mpr hwithin.key⟩

/-- An authority with a hundred days left, and a profile for thirty with a large key. -/
def offices : World where
  authority := some (100 * 86400)
  profiles := [{ name := "mail", purposes := ["email"], validityDays := 30, keySize := 4096 }]

/-- Whatever is read as a signing request is one with a small key. -/
def small (_ : String) : Option SigningRequest := some { commonNames := ["mx.example.org"], publicKey := { size := 1024 } }

omit [Runtime] in
theorem issued_inside_iff_mail :
    letI := Runtime.latin
    ∃ cert, answer small offices 0 (.issue { commonName := "mx.example.org", profile := "mail", validityDays := 30 }) =
      some cert ∧ ∃ profile ∈ profileOf offices "mail", Inside offices 0 profile cert := by
  let _ := Runtime.latin
  obtain ⟨cert, hcert⟩ := Option.isSome_iff_exists.mp (show (answer small offices 0
    (.issue { commonName := "mx.example.org", profile := "mail", validityDays := 30 })).isSome = true by decide)
  refine ⟨cert, hcert, (issued_inside_iff small offices 0 _ cert hcert).mpr ⟨_, rfl, ?_, ?_, nofun⟩⟩
  · decide
  · decide

omit [Runtime] in
/-- Beyond the end of the authority, beyond the days of a profile, and for a key smaller than the profile's. -/
theorem issued_outside :
    letI := Runtime.latin
    (∃ cert, answer small offices 0 (.issue { commonName := "web.example.org" }) = some cert ∧
      ∀ profile ∈ profileOf offices "server", ¬ Inside offices 0 profile cert) ∧
    (∃ cert, answer small offices 0 (.issue { commonName := "mx.example.org", profile := "mail", validityDays := 90 }) =
      some cert ∧ ∀ profile ∈ profileOf offices "mail", ¬ Inside offices 0 profile cert) ∧
    ∃ cert, answer small offices 0 (.sign { csrPem := "request", profile := "mail", validityDays := 30 }) = some cert ∧
      ∀ profile ∈ profileOf offices "mail", ¬ Inside offices 0 profile cert := by
  let _ := Runtime.latin
  refine ⟨?_, ?_, ?_⟩
  · obtain ⟨cert, hcert⟩ := Option.isSome_iff_exists.mp (show (answer small offices 0
      (.issue { commonName := "web.example.org" })).isSome = true by decide)
    obtain ⟨_, _, hend, _, _⟩ := answer_eq hcert
    refine ⟨cert, hcert, fun profile _ hinside => ?_⟩
    have hending := hinside.authority (100 * 86400) rfl
    rw [hend] at hending
    exact absurd hending (by decide)
  · obtain ⟨cert, hcert⟩ := Option.isSome_iff_exists.mp (show (answer small offices 0
      (.issue { commonName := "mx.example.org", profile := "mail", validityDays := 90 })).isSome = true by decide)
    obtain ⟨_, _, hend, _, _⟩ := answer_eq hcert
    refine ⟨cert, hcert, fun profile hprofile hinside => ?_⟩
    obtain rfl : { name := "mail", purposes := ["email"], validityDays := 30, keySize := 4096 } = profile :=
      Option.some.inj hprofile
    have hlifetime := hinside.lifetime
    rw [hend] at hlifetime
    exact absurd hlifetime (by decide)
  · obtain ⟨cert, hcert⟩ := Option.isSome_iff_exists.mp (show (answer small offices 0
      (.sign { csrPem := "request", profile := "mail", validityDays := 30 })).isSome = true by decide)
    obtain ⟨_, _, _, _, hkey⟩ := answer_eq hcert
    refine ⟨cert, hcert, fun profile hprofile hinside => ?_⟩
    obtain rfl : { name := "mail", purposes := ["email"], validityDays := 30, keySize := 4096 } = profile :=
      Option.some.inj hprofile
    have hbrought : (Request.sign { csrPem := "request", profile := "mail", validityDays := 30 }).brought small =
      some { size := 1024 } := rfl
    have hsize := hinside.key
    rw [hkey, hbrought, Option.getD_some] at hsize
    exact absurd hsize (by decide)

end OpenDirectory.CertificateIssue
