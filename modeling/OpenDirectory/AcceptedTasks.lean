import OpenDirectory.FileShares
import OpenDirectory.Lines
import OpenDirectory.RemoteDesktop
import OpenDirectory.Revocation
import OpenDirectory.Tunnels

/-! What the console accepts and the agents refuse. Every definition of a role, a share, a collection or a tunnel becomes
tasks, and the agent that runs a task checks it once more with patterns of its own. -/

namespace OpenDirectory.AcceptedTasks

open Agent (goSpace)
open FileShares (pathText nameText principalChar nameChar)
open Pattern (run headed closed pySpace graphic)
open RoleInstalls (Refusal stringList)

inductive RdError where
  | share
  | dots
  | app

inductive Kind where
  | desktop
  | remoteapp
  deriving DecidableEq

/-- The columns of a collection that say what its sessions are. -/
structure Session where
  kind : Kind := .desktop
  appPath : String := ""
  profileShare : String := ""

structure SessionUpdate where
  kind : Option Kind := none
  appPath : Option String := none
  profileShare : Option String := none

def hostChar (c : Char) : Bool := c.isAlphanum || c ∈ ['.', '_', '-']

/-- `_SHARE_RE`, the agent's `safeShare` as well. -/
def shareText (text : List Char) : Bool :=
  match text.splitOn '/' with
  | [] :: [] :: server :: share :: rest =>
      (server ≠ [] && server.all hostChar) && run principalChar 1 64 share &&
        rest.all (run (fun c => principalChar c || c = '%') 1 64)
  | _ => false

def dotted (value : String) : Bool := (Text.split '/' value).any fun part => part = "." || part = ".."

def validateShare (value : String) : Except RdError String :=
  let stripped := Text.strip pySpace value
  let value := Text.stripEnd (· = '/') (String.ofList (stripped.toList.map fun c => if c = '\\' then '/' else c))
  if value = "" then .ok ""
  else if !closed shareText value then .error .share
  else if dotted value then .error .dots
  else .ok value

def validateApp (kind : Kind) (path : String) : Except RdError String :=
  if kind ≠ .remoteapp then .ok ""
  else
    let path := Text.strip pySpace path
    if closed pathText path then .ok path else .error .app

def createSession (body : Session) : Except RdError Session := do
  let profileShare ← validateShare body.profileShare
  let appPath ← validateApp body.kind body.appPath
  return { body with profileShare, appPath }

/-- The program is checked again whenever it or the kind is given. -/
def updatedApp (kind : Kind) (body : SessionUpdate) : Except RdError (Option String) :=
  if body.appPath.isSome || body.kind.isSome then some <$> validateApp kind (body.appPath.getD "") else .ok none

def updateSession (row : Session) (body : SessionUpdate) : Except RdError Session := do
  let profileShare ← body.profileShare.mapM validateShare
  let kind := body.kind.getD row.kind
  let appPath ← updatedApp kind body
  return { kind, appPath := appPath.getD row.appPath, profileShare := profileShare.getD row.profileShare }

/-- The sessions that come about. -/
inductive Stored : Session → Prop
  | create {body session : Session} (h : createSession body = .ok session) : Stored session
  | update {session session' : Session} {body : SessionUpdate} (hsession : Stored session)
      (h : updateSession session body = .ok session') : Stored session'

structure HostPayload where
  task : RemoteDesktop.HostTask
  session : Session

/-- What `applyRemoteDesktopHost` checks. -/
def applyHost (payload : HostPayload) : Except Refusal Unit :=
  let share := Text.stripEnd (· = '/') payload.session.profileShare
  if share ≠ "" && !shareText share.toList then .error (.invalid "profile share" share)
  else if dotted share then .error (.invalid "profile share" share)
  else if payload.session.kind = .remoteapp && !pathText payload.session.appPath.toList then
    .error (.invalid "published application" payload.session.appPath)
  else if !RemoteDesktop.validPort payload.task.rdpPort then .error (.port payload.task.rdpPort)
  else .ok ()

def brokerHosts (hosts : List RemoteDesktop.Server) : Except Refusal (List RemoteDesktop.Server) :=
  hosts.mapM fun server =>
    let name := Text.strip goSpace server.host
    if !RemoteDesktop.safeHostName name then .error (.invalid "host name" name)
    else if !RemoteDesktop.validPort server.port then .error (.port server.port)
    else .ok { server with host := name }

def peerNames (names : List String) : Except Refusal (List (String × String)) :=
  names.mapM fun item =>
    let host := Text.strip goSpace item
    if RemoteDesktop.safeHostName host then .ok (RemoteDesktop.shortName host, host)
    else .error (.invalid "broker name" host)

/-- The servers and the peers that `applyRemoteDesktopBroker` writes. -/
def applyBroker (task : RemoteDesktop.BrokerTask) :
    Except Refusal (List RemoteDesktop.Server × List (String × String)) := do
  return (← brokerHosts task.hosts, ← peerNames task.brokers)

def addressChar (c : Char) : Bool := (Address.hexDigit c).isSome || c ∈ ['.', ':']

def safeCidr (text : List Char) : Bool :=
  run addressChar 2 45 (text.takeWhile addressChar) &&
    match text.dropWhile addressChar with
    | [] => true
    | '/' :: bits => run (fun c => c.isDigit) 1 3 bits
    | _ => false

def networkText (network : Address.Network) : String :=
  Address.Host.text ⟨network.version, network.number⟩ ++ "/" ++ toString network.prefixLength

/-- A peer as it is written. One without a key or with an address that is refused is left out. -/
def writtenPeer (peer : Tunnels.TaskPeer) : Option (String × String × List String) :=
  let key := Text.strip goSpace peer.publicKey
  match stringList (peer.allowedIps.map networkText) safeCidr with
  | .error _ => none
  | .ok allowed => if key = "" || allowed = [] then none else some (Text.strip goSpace peer.name, key, allowed)

/-- The peers that `applyTunnel` writes. -/
def applyTunnel (payload : Tunnels.Payload) : Except Refusal (List (String × String × List String)) :=
  match payload with
  | .remove given =>
      let name := Text.strip goSpace given
      if nameText name.toList then .ok [] else .error (.invalid "tunnel name" name)
  | .apply given address prefixLength _ privateKey peers =>
      let name := Text.strip goSpace given
      if !nameText name.toList then .error (.invalid "tunnel name" name)
      else if Text.strip goSpace (networkText ⟨address.version, address.number, prefixLength⟩) = "" ∨
          Text.strip goSpace privateKey = "" then .error .bare
      else .ok (peers.filterMap writtenPeer)

theorem addressChar_of_mem_toDigits {base number : Nat} (hbase : base = 10 ∨ base = 16) {c : Char}
    (hc : c ∈ Nat.toDigits base number) : addressChar c = true := by
  rcases hbase with rfl | rfl
  · have hdigit := Nat.isDigit_of_mem_toDigits (by decide) (by decide) hc
    simp only [Char.isDigit, Bool.and_eq_true, decide_eq_true_eq] at hdigit
    have hhex : Address.hexDigit c = some (c.toNat - '0'.toNat) := if_pos hdigit
    rw [addressChar, hhex, Option.isSome_some, Bool.true_or]
  · obtain ⟨digits, -, hdigits, heq, -⟩ := Revocation.toDigits_eq number
    rw [heq] at hc
    obtain ⟨digit, hdigit, rfl⟩ := List.mem_map.mp hc
    rw [addressChar, Revocation.hexDigit_digitChar (hdigits digit hdigit), Option.isSome_some, Bool.true_or]

theorem graphic_of_addressChar {c : Char} (h : addressChar c = true) : graphic c = true := by
  rw [addressChar, Bool.or_eq_true, decide_eq_true_eq] at h
  rcases h with h | h
  · have hrange : '0' ≤ c ∧ c ≤ '9' ∨ 'a' ≤ c ∧ c ≤ 'f' ∨ 'A' ≤ c ∧ c ≤ 'F' := by
      by_contra hnot
      push Not at hnot
      unfold Address.hexDigit at h
      rw [if_neg fun hc => absurd hc.2 (not_le.mpr (hnot.1 hc.1)), if_neg fun hc => absurd hc.2 (not_le.mpr (hnot.2.1 hc.1)),
        if_neg fun hc => absurd hc.2 (not_le.mpr (hnot.2.2 hc.1))] at h
      cases h
    unfold graphic
    rw [Bool.and_eq_true, decide_eq_true_eq, decide_eq_true_eq]
    rcases hrange with ⟨hlow, hhigh⟩ | ⟨hlow, hhigh⟩ | ⟨hlow, hhigh⟩
    all_goals exact ⟨le_trans (by decide) hlow, le_trans hhigh (by decide)⟩
  · rcases List.mem_pair.mp h with rfl | rfl <;> decide

theorem length_join {separator : Char} {parts : List String} (hne : parts ≠ []) :
    (Text.join (String.singleton separator) parts).toList.length + 1 =
      (parts.map fun part => part.toList.length).sum + parts.length := by
  induction parts with
  | nil => exact absurd rfl hne
  | cons part parts ih =>
      cases parts with
      | nil => simp [Text.join]
      | cons next parts =>
          have hrest := ih (List.cons_ne_nil _ _)
          rw [Text.toList_join_cons, List.length_append, List.length_cons, List.map_cons, List.sum_cons, List.length_cons]
          omega

theorem sum_length_le {parts : List String} {bound : Nat} (h : ∀ part ∈ parts, part.toList.length ≤ bound) :
    (parts.map fun part => part.toList.length).sum ≤ parts.length * bound := by
  have hsum := List.sum_le_card_nsmul (parts.map fun part => part.toList.length) bound
    (by simpa using h)
  simpa using hsum

theorem longestZeros_le (hextets : List Nat) :
    (Address.longestZeros hextets).1 + (Address.longestZeros hextets).2 ≤ hextets.length := by
  unfold Address.longestZeros
  refine List.foldlRecOn (motive := fun best : Nat × Nat => best.1 + best.2 ≤ hextets.length) _ _ (Nat.zero_le _)
    fun best hbest start hstart => ?_
  dsimp only
  split
  · have hshort := (List.takeWhile_sublist (fun hextet => decide (hextet = 0)) (l := hextets.drop start)).length_le
    have hinside := List.mem_range.mp hstart
    rw [List.length_drop] at hshort
    dsimp only
    omega
  · exact hbest

/-- Of the eight parts of an address in the sixth version, whether compressed or not, at least three remain. -/
theorem compressHextets_spec (hextets : List Nat) (hlength : hextets.length = 8) (hextent : ∀ hextet ∈ hextets, hextet < 65536) :
    3 ≤ (Address.compressHextets hextets).length ∧
      ((Address.compressHextets hextets).map fun part => part.toList.length).sum +
        (Address.compressHextets hextets).length ≤ 46 ∧
      ∀ part ∈ Address.compressHextets hextets, ∀ c ∈ part.toList, addressChar c = true := by
  obtain ⟨texts, htexts⟩ : ∃ texts, texts = hextets.map fun hextet => String.ofList (Nat.toDigits 16 hextet) := ⟨_, rfl⟩
  have hcount : texts.length = 8 := by rw [htexts, List.length_map, hlength]
  have hchars : ∀ part ∈ texts, ∀ c ∈ part.toList, addressChar c = true := by
    intro part hpart c hc
    rw [htexts] at hpart
    obtain ⟨hextet, -, rfl⟩ := List.mem_map.mp hpart
    rw [String.toList_ofList] at hc
    exact addressChar_of_mem_toDigits (.inr rfl) hc
  have hshort : ∀ part ∈ texts, part.toList.length ≤ 4 := by
    intro part hpart
    rw [htexts] at hpart
    obtain ⟨hextet, hmem, rfl⟩ := List.mem_map.mp hpart
    rw [String.toList_ofList]
    exact Nat.toDigits_length 16 hextet 4 (by decide) (hextent hextet hmem)
  have hinside := longestZeros_le hextets
  unfold Address.compressHextets
  rw [← htexts]
  generalize Address.longestZeros hextets = zeros at hinside ⊢
  obtain ⟨start, length⟩ := zeros
  dsimp only at hinside ⊢
  split
  · have hsum := sum_length_le hshort
    exact ⟨by omega, by omega, hchars⟩
  next hlong =>
    have htake := sum_length_le fun part hpart => hshort part (List.mem_of_mem_take (i := start) hpart)
    have hdrop := sum_length_le fun part hpart => hshort part (List.mem_of_mem_drop (i := start + length) hpart)
    rw [List.length_take, hcount] at htake
    rw [List.length_drop, hcount] at hdrop
    have hnothing : "".toList.length = 0 := rfl
    refine ⟨?_, ?_, ?_⟩
    · simp only [List.length_append, List.length_take, List.length_drop, hcount, List.length_singleton]
      split <;> split <;> simp only [List.length_singleton, List.length_nil] <;> omega
    · simp only [List.map_append, List.sum_append, List.length_append, List.length_take, List.length_drop, hcount,
        List.length_singleton, List.map_singleton, List.sum_singleton, hnothing]
      split <;> split <;>
        simp only [List.map_singleton, List.map_nil, List.sum_singleton, List.sum_nil, List.length_singleton,
          List.length_nil, hnothing] <;>
        omega
    · intro part hpart
      simp only [List.mem_append, List.mem_singleton] at hpart
      have hempty {c : Char} : c ∈ "".toList → addressChar c = true := fun hc => absurd hc List.not_mem_nil
      rcases hpart with (((hpart | hpart) | rfl) | hpart) | hpart
      · split at hpart
        · rw [List.mem_singleton.mp hpart]
          exact fun c hc => hempty hc
        · cases hpart
      · exact hchars part (List.mem_of_mem_take hpart)
      · exact fun c hc => hempty hc
      · exact hchars part (List.mem_of_mem_drop hpart)
      · split at hpart
        · rw [List.mem_singleton.mp hpart]
          exact fun c hc => hempty hc
        · cases hpart

theorem hostText_spec (host : Address.Host) : run addressChar 2 45 host.text.toList = true := by
  have hjoin (separator : Char) {parts : List String} (hseparator : addressChar separator = true) (hcount : 3 ≤ parts.length)
      (hshort : (parts.map fun part => part.toList.length).sum + parts.length ≤ 46)
      (hchars : ∀ part ∈ parts, ∀ c ∈ part.toList, addressChar c = true) :
      run addressChar 2 45 (Text.join (String.singleton separator) parts).toList = true := by
    have hlength := @length_join separator parts (by rintro rfl; simp at hcount)
    refine Pattern.run_iff.mpr ⟨by omega, by omega, fun c hc => ?_⟩
    rcases Text.mem_join hc with hc | ⟨part, hpart, hc⟩
    · rw [String.toList_singleton, List.mem_singleton] at hc
      rw [hc]
      exact hseparator
    · exact hchars part hpart c hc
  obtain ⟨version, number⟩ := host
  cases version with
  | v4 =>
      have hparts : ∀ part ∈ [24, 16, 8, 0].map fun shift => toString (number >>> shift % 256),
          part.toList.length ≤ 3 ∧ ∀ c ∈ part.toList, addressChar c = true := by
        intro part hpart
        obtain ⟨shift, -, rfl⟩ := List.mem_map.mp hpart
        rw [Nat.toString_eq_ofList_toDigits, String.toList_ofList]
        have hlength := Nat.toDigits_length 10 (number >>> shift % 256) 3 (by decide)
          (lt_of_lt_of_le (Nat.mod_lt _ (by decide)) (by decide))
        exact ⟨hlength, fun c hc => addressChar_of_mem_toDigits (.inl rfl) hc⟩
      have hsum := sum_length_le fun part hpart => (hparts part hpart).1
      rw [List.length_map] at hsum
      exact hjoin '.' (by decide) (by simp) (by rw [List.length_map]; simp at hsum ⊢; omega)
        fun part hpart => (hparts part hpart).2
  | v6 =>
      obtain ⟨hcount, hshort, hchars⟩ := compressHextets_spec
        ([112, 96, 80, 64, 48, 32, 16, 0].map fun shift => number >>> shift % 65536) rfl
        (by
          intro hextet hhextet
          obtain ⟨shift, -, rfl⟩ := List.mem_map.mp hhextet
          exact Nat.mod_lt _ (by decide))
      exact hjoin ':' (by decide) hcount hshort hchars

theorem newline_shareText {text : List Char} (h : shareText text = true) : '\n' ∉ text := by
  have hparts : ∀ part ∈ text.splitOn '/', '\n' ∉ part := by
    unfold shareText at h
    split at h
    next server share rest heq =>
      rw [heq]
      simp only [Bool.and_eq_true, List.all_eq_true] at h
      obtain ⟨⟨⟨-, hserver⟩, hshare⟩, hrest⟩ := h
      intro part hpart hnewline
      simp only [List.mem_cons] at hpart
      rcases hpart with rfl | rfl | rfl | rfl | hpart
      · cases hnewline
      · cases hnewline
      · exact absurd (hserver _ hnewline) (by decide)
      · exact absurd ((Pattern.run_iff.mp hshare).2.2 _ hnewline) (by decide)
      · exact absurd ((Pattern.run_iff.mp (hrest part hpart)).2.2 _ hnewline) (by decide)
    · cases h
  have hjoin : (Text.join (String.singleton '/') ((text.splitOn '/').map String.ofList)).toList = text := by
    rw [Text.join, String.toList_intercalate, List.map_map]
    simp [Function.comp_def]
  intro hnewline
  rw [← hjoin] at hnewline
  rcases Text.mem_join hnewline with hslash | ⟨part, hpart, hc⟩
  · exact absurd hslash (by decide)
  · obtain ⟨chars, hchars, rfl⟩ := List.mem_map.mp hpart
    rw [String.toList_ofList] at hc
    exact hparts chars hchars hc

theorem validateShare_ok {value share : String} (h : validateShare value = .ok share) : share = "" ∨
    closed shareText share = true ∧ dotted share = false ∧ ∀ c ∈ share.toList.getLast?, decide (c = '/') = false := by
  unfold validateShare at h
  dsimp only at h
  split at h
  · exact .inl (Except.ok.inj h).symm
  split at h
  · cases h
  next hclosed =>
    split at h
    · cases h
    next hdotted =>
      rw [← Except.ok.inj h]
      exact .inr ⟨by simpa using hclosed, by simpa using hdotted, Pattern.last_stripEnd⟩

theorem validateApp_ok {kind : Kind} {path app : String} (h : validateApp kind path = .ok app) :
    kind = .remoteapp → pathText app.toList = true := by
  intro hkind
  unfold validateApp at h
  rw [if_neg (not_not_intro hkind)] at h
  dsimp only at h
  split at h
  next hclosed =>
    rw [← Except.ok.inj h]
    rwa [Pattern.closed_strip (by decide)] at hclosed
  · cases h

/-- What every stored session keeps: its share came out of the check, and so did the program of a published
application. -/
structure Session.Checked (session : Session) : Prop where
  share : ∃ value, validateShare value = .ok session.profileShare
  app : session.kind = .remoteapp → pathText session.appPath.toList = true

theorem checked_of_stored {session : Session} (h : Stored session) : session.Checked := by
  induction h with
  | create h =>
      obtain ⟨share, hshare, h⟩ := Except.bind_eq_ok.mp h
      obtain ⟨app, happ, h⟩ := Except.bind_eq_ok.mp h
      cases h
      exact ⟨⟨_, hshare⟩, validateApp_ok happ⟩
  | @update session session' body _ h ih =>
      obtain ⟨share, hshare, h⟩ := Except.bind_eq_ok.mp h
      obtain ⟨app, happ, h⟩ := Except.bind_eq_ok.mp h
      cases h
      unfold updatedApp at happ
      refine ⟨?_, ?_⟩
      · cases hgiven : body.profileShare with
        | none =>
            rw [hgiven] at hshare
            cases hshare
            exact ih.share
        | some value =>
            rw [hgiven] at hshare
            obtain ⟨checked, hchecked, hshare⟩ := Except.map_eq_ok.mp hshare
            rw [← hshare]
            exact ⟨value, hchecked⟩
      · by_cases hsome : (body.appPath.isSome || body.kind.isSome) = true
        · rw [if_pos hsome] at happ
          obtain ⟨checked, hchecked, happ⟩ := Except.map_eq_ok.mp happ
          rw [← happ]
          exact validateApp_ok hchecked
        · rw [if_neg hsome] at happ
          cases happ
          rw [Bool.not_eq_true, Bool.or_eq_false_iff] at hsome
          have hkind : body.kind = none := by simpa using hsome.2
          rw [hkind]
          exact ih.app

section
variable [Runtime]

theorem applyHost_iff {session : Session} (h : session.Checked) (row : RemoteDesktop.Collection) (host : String) :
    (∃ done, applyHost ⟨RemoteDesktop.hostTask row host, session⟩ = .ok done) ↔
      session.profileShare.toList.getLast? ≠ some '\n' := by
  obtain ⟨⟨value, hvalue⟩, happ⟩ := h
  have hport : RemoteDesktop.validPort (RemoteDesktop.hostTask row host).rdpPort = true := by
    simp only [RemoteDesktop.hostTask, RemoteDesktop.validPort_hostPort]
  have happ : (session.kind = .remoteapp && !pathText session.appPath.toList) = false := by
    cases hkind : session.kind with
    | desktop => rfl
    | remoteapp =>
        rw [happ hkind]
        rfl
  unfold applyHost
  dsimp only
  rw [happ, hport, Bool.not_true, if_neg Bool.false_ne_true, if_neg Bool.false_ne_true]
  rcases validateShare_ok hvalue with hempty | ⟨hclosed, hdotted, hlast⟩
  · have hstrip : Text.stripEnd (fun c => decide (c = '/')) "" = "" := by decide
    have hdotted : dotted "" = false := by decide
    rw [hempty, hstrip, decide_eq_false (not_not_intro rfl), Bool.false_and, hdotted, if_neg Bool.false_ne_true,
      if_neg Bool.false_ne_true]
    exact iff_of_true ⟨(), rfl⟩ (by decide)
  · rw [Text.stripEnd_eq_self hlast, hdotted, if_neg Bool.false_ne_true]
    have hne : session.profileShare ≠ "" := by
      intro hempty
      rw [hempty] at hclosed
      revert hclosed
      decide
    rw [decide_eq_true hne, Bool.true_and]
    constructor
    · rintro ⟨done, hdone⟩ hnewline
      have hshare : shareText session.profileShare.toList = true := by
        by_contra hnot
        rw [Bool.not_eq_true] at hnot
        rw [hnot, Bool.not_false, if_pos rfl] at hdone
        cases hdone
      exact newline_shareText hshare (List.mem_of_mem_getLast? hnewline)
    · intro hnewline
      rw [Pattern.closed_of_last hnewline] at hclosed
      rw [hclosed, Bool.not_true, if_neg Bool.false_ne_true]
      exact ⟨(), rfl⟩

end

theorem brokerHosts_iff {hosts : List RemoteDesktop.Server} (hports : ∀ server ∈ hosts, RemoteDesktop.validPort server.port = true) :
    (∃ written, brokerHosts hosts = .ok written) ↔
      ∀ server ∈ hosts, RemoteDesktop.safeHostName (Text.strip goSpace server.host) = true := by
  unfold brokerHosts
  constructor
  · rintro ⟨written, h⟩
    refine (List.forall_mem_iff_of_forall₂ (List.mapM_eq_ok_iff.mp h) fun server _ result hresult => ?_).mp
      fun _ _ => trivial
    refine iff_of_true trivial ?_
    by_contra hnot
    rw [Bool.not_eq_true] at hnot
    dsimp only at hresult
    rw [hnot, Bool.not_false, if_pos rfl] at hresult
    cases hresult
  · intro h
    refine List.mapM_ok fun server hserver => ⟨{ server with host := Text.strip goSpace server.host }, ?_⟩
    dsimp only
    rw [h server hserver, hports server hserver, Bool.not_true, if_neg Bool.false_ne_true, if_neg Bool.false_ne_true]

theorem peerNames_iff {names : List String} : (∃ written, peerNames names = .ok written) ↔
    ∀ name ∈ names, RemoteDesktop.safeHostName (Text.strip goSpace name) = true := by
  unfold peerNames
  constructor
  · rintro ⟨written, h⟩
    refine (List.forall_mem_iff_of_forall₂ (List.mapM_eq_ok_iff.mp h) fun name _ result hresult => ?_).mp
      fun _ _ => trivial
    refine iff_of_true trivial ?_
    by_contra hnot
    rw [if_neg hnot] at hresult
    cases hresult
  · intro h
    exact List.mapM_ok fun name hname => ⟨_, if_pos (h name hname)⟩

theorem applyBroker_iff [Runtime] (row : RemoteDesktop.Collection) (rows : List RemoteDesktop.HostRow) :
    (∃ written, applyBroker (RemoteDesktop.brokerTask row (rows.map (·.nodeFqdn)) rows) = .ok written) ↔
      (∀ host ∈ rows, RemoteDesktop.safeHostName (Text.strip goSpace host.nodeFqdn) = true) ∧
        (row.sharedState = true →
          ∀ name ∈ RemoteDesktop.brokers row, RemoteDesktop.safeHostName (Text.strip goSpace name) = true) := by
  have hhosts := @brokerHosts_iff (RemoteDesktop.brokerTask row (rows.map (·.nodeFqdn)) rows).hosts (by
    intro server hserver
    simp only [RemoteDesktop.brokerTask, List.mem_map] at hserver
    obtain ⟨host, -, rfl⟩ := hserver
    simp only [RemoteDesktop.validPort_hostPort])
  have hnames : (∀ server ∈ (RemoteDesktop.brokerTask row (rows.map (·.nodeFqdn)) rows).hosts,
      RemoteDesktop.safeHostName (Text.strip goSpace server.host) = true) ↔
        ∀ host ∈ rows, RemoteDesktop.safeHostName (Text.strip goSpace host.nodeFqdn) = true := by
    simp [RemoteDesktop.brokerTask]
  have hpeers := @peerNames_iff (RemoteDesktop.brokerTask row (rows.map (·.nodeFqdn)) rows).brokers
  have hfronts : (∀ name ∈ (RemoteDesktop.brokerTask row (rows.map (·.nodeFqdn)) rows).brokers,
      RemoteDesktop.safeHostName (Text.strip goSpace name) = true) ↔ (row.sharedState = true →
        ∀ name ∈ RemoteDesktop.brokers row, RemoteDesktop.safeHostName (Text.strip goSpace name) = true) := by
    cases hshared : row.sharedState <;> simp [RemoteDesktop.brokerTask, hshared]
  rw [← hnames, ← hhosts, ← hfronts, ← hpeers]
  unfold applyBroker
  constructor
  · rintro ⟨written, h⟩
    obtain ⟨servers, hservers, h⟩ := Except.bind_eq_ok.mp h
    obtain ⟨peers, hpeers, h⟩ := Except.bind_eq_ok.mp h
    exact ⟨⟨servers, hservers⟩, peers, hpeers⟩
  · rintro ⟨⟨servers, hservers⟩, peers, hpeers⟩
    exact ⟨(servers, peers), Except.bind_eq_ok.mpr ⟨servers, hservers, Except.bind_eq_ok.mpr ⟨peers, hpeers, rfl⟩⟩⟩

/-- The base64 form of a key of 32 bytes. -/
def isKey (text : String) : Bool :=
  text.length = 44 && text.toList.all fun c => c.isAlphanum || c ∈ ['+', '/', '=']

/-- A tunnel and its peers, with keys as they are generated. -/
structure TunnelDefinition where
  tunnel : Tunnels.Tunnel
  peers : List Tunnels.Peer
  key : isKey tunnel.privateKey = true
  keys : ∀ peer ∈ peers, isKey peer.publicKey = true

theorem strip_key {text : String} (h : isKey text = true) : Text.strip goSpace text = text ∧ text ≠ "" := by
  rw [isKey, Bool.and_eq_true, decide_eq_true_eq] at h
  refine ⟨RoleInstalls.strip_goSpace (List.all_eq_true.mpr fun c hc => ?_), ?_⟩
  · have hchar := List.all_eq_true.mp h.2 c hc
    rw [Bool.or_eq_true, decide_eq_true_eq] at hchar
    rcases hchar with hchar | hchar
    · exact FileShares.graphic_of_alphanum hchar
    · simp only [List.mem_cons, List.not_mem_nil, or_false] at hchar
      rcases hchar with rfl | rfl | rfl <;> decide
  · rintro rfl
    exact absurd h.1 (by decide)

theorem networkText_spec (network : Address.Network) : (networkText network).toList =
    (Address.Host.text ⟨network.version, network.number⟩).toList ++ '/' :: Nat.toDigits 10 network.prefixLength := by
  rw [networkText, String.toList_append, String.toList_append, Nat.toString_eq_ofList_toDigits, String.toList_ofList]
  simp

theorem strip_networkText (network : Address.Network) :
    Text.strip goSpace (networkText network) = networkText network ∧ networkText network ≠ "" := by
  have hlist := networkText_spec network
  constructor
  · refine RoleInstalls.strip_goSpace (List.all_eq_true.mpr fun c hc => ?_)
    rw [hlist, List.mem_append, List.mem_cons] at hc
    rcases hc with hc | rfl | hc
    · exact graphic_of_addressChar ((Pattern.run_iff.mp (hostText_spec _)).2.2 c hc)
    · decide
    · exact graphic_of_addressChar (addressChar_of_mem_toDigits (.inl rfl) hc)
  · intro hempty
    rw [hempty] at hlist
    exact absurd hlist.symm (by simp)

theorem safeCidr_allowed (host : Address.Host) : safeCidr (networkText (Tunnels.allowed host)).toList = true := by
  have hrun := hostText_spec host
  have hall := (Pattern.run_iff.mp hrun).2.2
  have htext : (networkText (Tunnels.allowed host)).toList = host.text.toList ++ '/' :: ['3', '2'] := by
    have hdigits : Nat.toDigits 10 32 = ['3', '2'] := by decide +kernel
    rw [networkText_spec, Tunnels.allowed]
    dsimp only
    rw [hdigits]
  rw [htext]
  unfold safeCidr
  rw [List.takeWhile_append_of_pos hall, List.dropWhile_append_of_pos hall, List.takeWhile_cons, if_neg (by decide),
    List.dropWhile_cons, if_neg (by decide), List.append_nil, hrun]
  decide

theorem nameText_of_validName {name : List Char} (h : Tunnels.validName name = true) :
    nameText name = true ∧ ∀ c ∈ name, graphic c = true := by
  cases name with
  | nil => cases h
  | cons first rest =>
      simp only [Tunnels.validName, Bool.and_eq_true, decide_eq_true_eq, List.all_eq_true, Bool.or_eq_true] at h
      obtain ⟨⟨hfirst, hlength⟩, hrest⟩ := h
      have hchar (c : Char) (hc : c ∈ rest) : nameChar c = true ∧ graphic c = true := by
        rcases hrest c hc with halphanum | hmem
        · have halphanum : c.isAlphanum = true := halphanum
          exact ⟨by rw [nameChar, halphanum, Bool.true_or], FileShares.graphic_of_alphanum halphanum⟩
        · simp only [List.mem_cons, List.not_mem_nil, or_false] at hmem
          rcases hmem with rfl | rfl | rfl <;> decide
      refine ⟨Pattern.headed_iff.mpr ⟨first, rest, rfl, hfirst, Pattern.run_iff.mpr ⟨Nat.zero_le _, by omega,
        fun c hc => (hchar c hc).1⟩⟩, List.forall_mem_cons.mpr ⟨FileShares.graphic_of_alphanum hfirst,
          fun c hc => (hchar c hc).2⟩⟩

theorem writtenPeer_spec {peer : Tunnels.Peer} (h : isKey peer.publicKey = true) :
    writtenPeer ⟨peer.name, peer.publicKey, [Tunnels.allowed peer.address]⟩ =
      some (Text.strip goSpace peer.name, peer.publicKey, [networkText (Tunnels.allowed peer.address)]) := by
  obtain ⟨hpublic, hpublicNe⟩ := strip_key h
  have hallowed : stringList [networkText (Tunnels.allowed peer.address)] safeCidr =
      .ok [networkText (Tunnels.allowed peer.address)] := by
    refine List.mapM_eq_ok_iff.mpr (.cons ?_ .nil)
    rw [(strip_networkText _).1, if_pos (safeCidr_allowed peer.address)]
  unfold writtenPeer
  rw [List.map_singleton, hallowed, hpublic]
  simp [hpublicNe]

theorem tunnelName_ok [Runtime] {given name : String} (h : Tunnels.validateName given = .ok name) :
    nameText (Text.strip goSpace name).toList = true := by
  unfold Tunnels.validateName at h
  dsimp only at h
  split at h
  next hpattern =>
    obtain ⟨htext, hgraphic⟩ := nameText_of_validName hpattern
    rw [Except.ok.inj h] at htext hgraphic
    rwa [RoleInstalls.strip_goSpace (List.all_eq_true.mpr hgraphic)]
  · cases h

theorem applyTunnel_apply {name privateKey : String} {address : Address.Host} {prefixLength listenPort : Nat}
    {peers : List Tunnels.TaskPeer} (hname : nameText (Text.strip goSpace name).toList = true)
    (hkey : isKey privateKey = true) :
    applyTunnel (.apply name address prefixLength listenPort privateKey peers) = .ok (peers.filterMap writtenPeer) := by
  obtain ⟨hstrip, hne⟩ := strip_key hkey
  unfold applyTunnel
  dsimp only
  rw [hname, Bool.not_true, if_neg Bool.false_ne_true, (strip_networkText _).1, hstrip,
    if_neg (not_or.mpr ⟨(strip_networkText _).2, hne⟩)]

theorem filterMap_writtenPeer {peers : List Tunnels.Peer} (h : ∀ peer ∈ peers, isKey peer.publicKey = true) :
    (peers.map fun peer => (⟨peer.name, peer.publicKey, [Tunnels.allowed peer.address]⟩ : Tunnels.TaskPeer)).filterMap
      writtenPeer = peers.map fun peer =>
        (Text.strip goSpace peer.name, peer.publicKey, [networkText (Tunnels.allowed peer.address)]) := by
  induction peers with
  | nil => rfl
  | cons peer peers ih =>
      rw [List.map_cons, List.filterMap_cons_some (writtenPeer_spec (h peer List.mem_cons_self)), List.map_cons,
        ih fun other hother => h other (List.mem_cons_of_mem _ hother)]

theorem applyTunnel_ok [Runtime] (definition : TunnelDefinition) {payload : Tunnels.Payload}
    (h : Tunnels.asTask definition.tunnel definition.peers = .ok payload) :
    applyTunnel payload = .ok ((definition.peers.filter (·.enabled)).map fun peer =>
      (Text.strip goSpace peer.name, peer.publicKey, [networkText (Tunnels.allowed peer.address)])) := by
  unfold Tunnels.asTask at h
  obtain ⟨name, hname, h⟩ := Except.bind_eq_ok.mp h
  rw [← Except.ok.inj h, applyTunnel_apply (tunnelName_ok hname) definition.key,
    filterMap_writtenPeer fun peer hpeer => definition.keys peer (List.mem_of_mem_filter hpeer)]

section
variable [Runtime]

inductive Definition where
  | role (request : RoleInstalls.InstallRequest) (known : RoleInstalls.Config) (token : String)
  | share (row : FileShares.Row) (stored : FileShares.Stored row)
  | collection (row : RemoteDesktop.Collection) (session : Session) (stored : Stored session)
      (hosts : List RemoteDesktop.HostRow)
  | tunnel (definition : TunnelDefinition)

inductive Task where
  | role (payload : RoleInstalls.Payload)
  | share (payload : FileShares.Payload)
  | host (payload : HostPayload)
  | broker (payload : RemoteDesktop.BrokerTask)
  | tunnel (payload : Tunnels.Payload)

inductive NotAccepted where
  | role (error : RoleInstalls.RoleError)
  | share (error : FileShares.ShareError)
  | tunnel (error : Tunnels.VpnError)

/-- A definition that becomes one task. -/
def one {ε α : Type} (result : Except ε α) (failed : ε → NotAccepted) (task : α → Task) : Except NotAccepted (List Task) :=
  match result with
  | .ok payload => .ok [task payload]
  | .error error => .error (failed error)

/-- The tasks a definition becomes, or why the console does not accept it. A collection has one for each of its hosts
and one for each machine that fronts it. -/
def Definition.tasks : Definition → Except NotAccepted (List Task)
  | .role request known token => one (RoleInstalls.install request known token) .role .role
  | .share row _ => one (FileShares.asTask row) .share .share
  | .collection row session _ hosts =>
      .ok ((hosts.map fun host => .host ⟨RemoteDesktop.hostTask row host.nodeFqdn, session⟩) ++
        (RemoteDesktop.brokers row).map fun _ =>
          .broker (RemoteDesktop.brokerTask row (hosts.map (·.nodeFqdn)) hosts))
  | .tunnel definition => one (Tunnels.asTask definition.tunnel definition.peers) .tunnel .tunnel

def peersOf : Tunnels.Payload → List Tunnels.TaskPeer
  | .apply _ _ _ _ _ peers => peers
  | .remove _ => []

/-- The agent's checks let a task through; of a tunnel, every peer as well. -/
def Task.Taken : Task → Prop
  | .role payload => ∃ arguments, RoleInstalls.installRole payload = .ok arguments
  | .share payload => ∃ share, FileShares.parseShare payload = .ok share
  | .host payload => ∃ done, applyHost payload = .ok done
  | .broker payload => ∃ written, applyBroker payload = .ok written
  | .tunnel payload => ∃ written, applyTunnel payload = .ok written ∧ written.length = (peersOf payload).length

/-- Which definitions the agents have no quarrel with: roles whose settings hold no comma, space or dollar sign, shares
outside the directories that only the agent keeps, collections whose share does not end in a newline and whose hosts and
brokers have names of plain characters, and every tunnel. -/
def Definition.Fits : Definition → Prop
  | .role request _ _ => RoleInstalls.Plain request
  | .share row _ => ¬ FileShares.Within FileShares.agentOnly (FileShares.cleaned row.path)
  | .collection row session _ hosts =>
      (hosts ≠ [] → session.profileShare.toList.getLast? ≠ some '\n') ∧
        (RemoteDesktop.brokers row ≠ [] →
          (∀ host ∈ hosts, RemoteDesktop.safeHostName (Text.strip goSpace host.nodeFqdn) = true) ∧
            (row.sharedState = true → ∀ name ∈ RemoteDesktop.brokers row,
              RemoteDesktop.safeHostName (Text.strip goSpace name) = true))
  | .tunnel _ => True

theorem peersOf_asTask {tunnel : Tunnels.Tunnel} {peers : List Tunnels.Peer} {payload : Tunnels.Payload}
    (h : Tunnels.asTask tunnel peers = .ok payload) : peersOf payload =
      (peers.filter (·.enabled)).map fun peer => ⟨peer.name, peer.publicKey, [Tunnels.allowed peer.address]⟩ := by
  unfold Tunnels.asTask at h
  obtain ⟨name, -, h⟩ := Except.bind_eq_ok.mp h
  rw [← Except.ok.inj h, peersOf]

omit [Runtime] in
theorem forall_mem_map_const {α β : Type} {items : List α} {b : β} {P : β → Prop} :
    (∀ c ∈ items.map fun _ => b, P c) ↔ (items ≠ [] → P b) := by
  cases items with
  | nil => simp
  | cons item items =>
      refine ⟨fun h _ => h b List.mem_cons_self, fun h c hc => ?_⟩
      obtain ⟨_, -, rfl⟩ := List.mem_map.mp hc
      exact h (List.cons_ne_nil _ _)

omit [Runtime] in
theorem one_eq_ok {ε α : Type} {result : Except ε α} {failed : ε → NotAccepted} {task : α → Task} {tasks : List Task}
    (h : one result failed task = .ok tasks) : ∃ payload, result = .ok payload ∧ tasks = [task payload] := by
  cases result with
  | error error => cases h
  | ok payload => exact ⟨payload, rfl, (Except.ok.inj h).symm⟩

/-- The agents take the tasks of an accepted definition exactly when it fits. -/
theorem taken_iff (definition : Definition) {tasks : List Task} (h : definition.tasks = .ok tasks) :
    (∀ task ∈ tasks, task.Taken) ↔ definition.Fits := by
  cases definition with
  | role request known token =>
      have h : one (RoleInstalls.install request known token) .role .role = .ok tasks := h
      obtain ⟨payload, hinstall, rfl⟩ := one_eq_ok h
      rw [List.forall_mem_singleton]
      exact RoleInstalls.installRole_iff hinstall
  | share row stored =>
      have h : one (FileShares.asTask row) .share .share = .ok tasks := h
      obtain ⟨payload, htask, rfl⟩ := one_eq_ok h
      rw [List.forall_mem_singleton]
      exact FileShares.parseShare_iff stored htask
  | collection row session stored hosts =>
      rw [← Except.ok.inj h, List.forall_mem_append, List.forall_mem_map, forall_mem_map_const]
      refine and_congr ?_ (imp_congr_right fun _ => applyBroker_iff row hosts)
      have hhost (host : RemoteDesktop.HostRow) := applyHost_iff (checked_of_stored stored) row host.nodeFqdn
      constructor
      · intro hall hne
        obtain ⟨host, hmem⟩ := List.exists_mem_of_ne_nil hosts hne
        exact (hhost host).mp (hall host hmem)
      · exact fun hlast host hmem => (hhost host).mpr (hlast (List.ne_nil_of_mem hmem))
  | tunnel definition =>
      have h : one (Tunnels.asTask definition.tunnel definition.peers) .tunnel .tunnel = .ok tasks := h
      obtain ⟨payload, htask, rfl⟩ := one_eq_ok h
      rw [List.forall_mem_singleton]
      refine iff_of_true ⟨_, applyTunnel_ok definition htask, ?_⟩ trivial
      rw [List.length_map, peersOf_asTask htask, List.length_map]

end

/-- A time server for one network. -/
def timeServer : RoleInstalls.InstallRequest where
  role := "time"
  config name := if name = "allow" then " 10.0.0.0/8" else ""
  short name := by
    split
    · decide
    · decide

theorem taken_iff_time :
    letI := Runtime.latin
    let payload : RoleInstalls.Payload := ⟨"time", ["--allow", "10.0.0.0/8"]⟩
    (∀ task ∈ [Task.role payload], task.Taken) ↔ (Definition.role timeServer (fun _ => "") "").Fits := by
  let _ := Runtime.latin
  exact taken_iff (.role timeServer (fun _ => "") "") (by rfl)

/-- Network boot offered in two networks. -/
def twoNetworks : RoleInstalls.InstallRequest where
  role := "pxe"
  config name := if name = "scopes" then "10.10.0.0,10.20.0.0" else ""
  short name := by
    split
    · decide
    · decide

/-- A directory of documentation that the console lets be shared. -/
def manuals : FileShares.Row := { nodeFqdn := "fs1.example.org", name := "manuals", path := "/usr/share/doc" }

/-- Two networks in one setting and a share below `/usr` are accepted, and no agent ever takes their tasks. -/
theorem accepted_not_taken :
    letI := Runtime.latin
    (∃ tasks, (Definition.role twoNetworks (fun _ => "") "token").tasks = .ok tasks ∧ ¬ ∀ task ∈ tasks, task.Taken) ∧
      ∃ stored : FileShares.Stored manuals,
        ∃ tasks, (Definition.share manuals stored).tasks = .ok tasks ∧ ¬ ∀ task ∈ tasks, task.Taken := by
  let _ := Runtime.latin
  refine ⟨?_, @FileShares.Stored.create _ manuals _ (by rfl), ?_⟩
  · refine ⟨[.role ⟨"pxe", ["--enrolment-token", "token", "--suite", "trixie", "--mirror", "http://deb.debian.org/debian",
      "--local-admin", "localadmin", "--scopes", "10.10.0.0,10.20.0.0", "--client-binary",
      "/usr/sbin/odm-client-install"]⟩], by rfl, fun hall => ?_⟩
    obtain ⟨arguments, h⟩ := hall _ List.mem_cons_self
    cases h
  · refine ⟨[.share ⟨"manuals", "/usr/share/doc", "", "root", "Domain Admins", true, false, [], "---"⟩], by rfl,
      fun hall => ?_⟩
    obtain ⟨share, h⟩ := hall _ List.mem_cons_self
    cases h

end OpenDirectory.AcceptedTasks
