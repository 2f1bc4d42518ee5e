import OpenDirectory.AcceptedTasks
import OpenDirectory.WgQuick

/-! The configuration a peer of a tunnel is handed: the rows the requests leave, the text made of them, and what
`wg-quick` reads from it. -/

namespace OpenDirectory.TunnelConfig

open Tunnels (VpnError validateName validateEndpoint nextPeerAddress addressText alphanumeric)
open WgQuick (Plain Config)

/-- What the text of an address keeps of its scope, which may be anything without a percent sign or a slash. -/
def scopeText (address : List Char) : String :=
  match address.splitOn '%' with
  | [_, scope] => "%" ++ String.ofList scope
  | _ => ""

/-- `str(ipaddress.ip_address(text))` -/
def ipAddressText (text : String) : Option String :=
  (Address.ipAddress text).map fun host => host.text ++ scopeText text.toList

/-- `str(ipaddress.ip_network(text, strict=False))`: the scope goes where bits of hosts are taken away. -/
def networkText (text : String) (network : Address.Network) : String :=
  Address.Host.text ⟨network.version, network.first⟩ ++
    (if network.number = network.first then scopeText (text.toList.takeWhile (· ≠ '/')) else "") ++ "/" ++
      toString network.prefixLength

example : ((ipAddressText "fe80:0::1%eth0"), (Address.ipNetwork "fe80::%a b/64").map (networkText "fe80::%a b/64"),
    (Address.ipNetwork "fe80::1%a/64").map (networkText "fe80::1%a/64")) =
    (some "fe80::1%eth0", some "fe80::%a b/64", some "fe80::/64") := by decide

inductive Refusal where
  | body
  | vpn (error : VpnError)
  | notAddress (address : String)
  | taken (name : String)
  | notFound
  | unique
  | noKey
  | network (text : String)

section
variable [Runtime]

def validateNetwork (network : String) : Except Refusal String :=
  let text := Text.strip Runtime.blank network
  match Address.ipNetwork text with
  | none => .error (.vpn (.notNetwork network))
  | some parsed => if parsed.numAddresses < 4 then .error (.vpn .noRoom) else .ok (networkText text parsed)

def validateRoutes (routes : List String) : Except Refusal (List String) :=
  routes.mapM fun route =>
    let text := Text.strip Runtime.blank route
    match Address.ipNetwork text with
    | none => .error (.vpn (.notNetwork route))
    | some parsed => .ok (networkText text parsed)

def validateAddresses (addresses : List String) : Except Refusal (List String) :=
  addresses.mapM fun address =>
    match ipAddressText (Text.strip Runtime.blank address) with
    | none => .error (.notAddress address)
    | some text => .ok text

end

/-- A key as base64 writes it. -/
structure Key where
  text : String
  length : text.length = 44
  chars : (text.toList.all fun c => alphanumeric c || c ∈ ['+', '/', '=']) = true

structure Tunnel where
  id : Nat
  name : String
  endpoint : String
  listenPort : Nat
  network : String
  routes : List String
  dnsServers : List String
  searchDomain : String
  publicKey : String
  deriving DecidableEq

structure Peer where
  id : Nat
  tunnelId : Nat
  name : String
  address : String
  privateKey : Option String
  deriving DecidableEq

structure TunnelIn where
  name : String
  endpoint : String
  listenPort : Nat := 51820
  network : String
  routes : List String := []
  dnsServers : List String := []
  searchDomain : String := ""

structure TunnelUpdate where
  id : Nat
  endpoint : Option String := none
  listenPort : Option Nat := none
  routes : Option (List String) := none
  dnsServers : Option (List String) := none
  searchDomain : Option String := none

structure PeerIn where
  tunnelId : Nat
  name : String

def between (low high : Nat) (text : String) : Bool := low ≤ text.length && text.length ≤ high

def portOk (port : Nat) : Bool := 1 ≤ port && port ≤ 65535

def TunnelIn.fits (body : TunnelIn) : Bool :=
  between 1 31 body.name && between 1 253 body.endpoint && portOk body.listenPort && between 9 64 body.network &&
    body.routes.all (between 0 64) && body.dnsServers.all (between 0 64) && between 0 253 body.searchDomain

def TunnelUpdate.fits (body : TunnelUpdate) : Bool :=
  body.endpoint.all (between 0 253) && body.listenPort.all portOk && body.routes.all (·.all (between 0 64)) &&
    body.dnsServers.all (·.all (between 0 64)) && body.searchDomain.all (between 0 253)

def PeerIn.fits (body : PeerIn) : Bool := between 1 63 body.name

/-- The tunnels and their peers, and a number above those of all rows there ever were. -/
structure World where
  tunnels : List Tunnel
  peers : List Peer
  nextId : Nat

def initial : World := ⟨[], [], 0⟩

inductive Request where
  | createTunnel (body : TunnelIn) (publicKey : Key)
  | updateTunnel (body : TunnelUpdate)
  | deleteTunnel (id : Nat)
  | createPeer (body : PeerIn) (privateKey : Key)
  | deletePeer (id : Nat)

section
variable [Runtime]

def refuseIf (bad : Bool) (refusal : Refusal) : Except Refusal Unit := if bad then .error refusal else .ok ()

def checked {α : Type} (result : Except VpnError α) : Except Refusal α := result.mapError .vpn

def createTunnel (world : World) (body : TunnelIn) (publicKey : Key) : Except Refusal World := do
  refuseIf (!body.fits) .body
  let name ← checked (validateName body.name)
  let network ← validateNetwork body.network
  refuseIf (world.tunnels.any fun tunnel => Runtime.lower tunnel.name = Runtime.lower name) (.taken name)
  let endpoint ← checked (validateEndpoint body.endpoint)
  let routes ← validateRoutes body.routes
  let dnsServers ← validateAddresses body.dnsServers
  refuseIf (world.tunnels.any (·.name = name)) .unique
  return { world with
    tunnels := world.tunnels ++ [⟨world.nextId, name, endpoint, body.listenPort, network, routes, dnsServers,
      body.searchDomain, publicKey.text⟩]
    nextId := world.nextId + 1 }

/-- `COALESCE($n, column)` for each of the columns. -/
def Tunnel.update (tunnel : Tunnel) (endpoint : Option String) (listenPort : Option Nat)
    (routes dnsServers : Option (List String)) (searchDomain : Option String) : Tunnel :=
  { tunnel with
    endpoint := endpoint.getD tunnel.endpoint
    listenPort := listenPort.getD tunnel.listenPort
    routes := routes.getD tunnel.routes
    dnsServers := dnsServers.getD tunnel.dnsServers
    searchDomain := searchDomain.getD tunnel.searchDomain }

def updateTunnel (world : World) (body : TunnelUpdate) : Except Refusal World := do
  refuseIf (!body.fits) .body
  refuseIf (world.tunnels.all (·.id ≠ body.id)) .notFound
  -- an empty endpoint is not given
  let endpoint ← (body.endpoint.filter (· ≠ "")).mapM fun endpoint => checked (validateEndpoint endpoint)
  let routes ← body.routes.mapM validateRoutes
  let dnsServers ← body.dnsServers.mapM validateAddresses
  return { world with tunnels := world.tunnels.map fun tunnel =>
    if tunnel.id = body.id then tunnel.update endpoint body.listenPort routes dnsServers body.searchDomain else tunnel }

/-- A tunnel goes with its peers. -/
def deleteTunnel (world : World) (id : Nat) : Except Refusal World := do
  refuseIf (world.tunnels.all (·.id ≠ id)) .notFound
  return { world with
    tunnels := world.tunnels.filter (·.id ≠ id)
    peers := world.peers.filter (·.tunnelId ≠ id) }

/-- The name of a peer: one of more than 31 characters is cut, and not looked at. -/
def peerName (name : String) : Except Refusal String :=
  if name.length ≤ 31 then checked (validateName name) else .ok (String.ofList (name.toList.take 31))

def createPeer (world : World) (body : PeerIn) (privateKey : Key) : Except Refusal World := do
  refuseIf (!body.fits) .body
  let tunnel ← (world.tunnels.find? (·.id = body.tunnelId)).elim (.error .notFound) .ok
  let network ← (Address.ipNetwork tunnel.network).elim (.error (.network tunnel.network)) .ok
  let taken := (world.peers.filter (·.tunnelId = body.tunnelId)).map (·.address)
  let address ← checked (nextPeerAddress network taken)
  let name ← peerName body.name
  refuseIf (world.peers.any fun other => other.tunnelId = body.tunnelId ∧
    (other.name = name ∨ other.address = addressText address)) .unique
  return { world with
    peers := world.peers ++ [⟨world.nextId, body.tunnelId, name, addressText address, some privateKey.text⟩]
    nextId := world.nextId + 1 }

def deletePeer (world : World) (id : Nat) : Except Refusal World := do
  refuseIf (world.peers.all (·.id ≠ id)) .notFound
  return { world with peers := world.peers.filter (·.id ≠ id) }

def answer (world : World) : Request → Except Refusal World
  | .createTunnel body publicKey => createTunnel world body publicKey
  | .updateTunnel body => updateTunnel world body
  | .deleteTunnel id => deleteTunnel world id
  | .createPeer body privateKey => createPeer world body privateKey
  | .deletePeer id => deletePeer world id

def next (world : World) (request : Request) : World :=
  match answer world request with
  | .ok world' => world'
  | .error _ => world

def run (requests : List Request) : World := requests.foldl next initial

end

/-- The name servers, and the domain to search where there is one. -/
def Tunnel.dns (tunnel : Tunnel) : List String :=
  tunnel.dnsServers ++ if tunnel.searchDomain = "" then [] else [tunnel.searchDomain]

def Tunnel.allowed (tunnel : Tunnel) : List String :=
  if tunnel.routes = [] then [tunnel.network] else tunnel.routes

def configLines (tunnel : Tunnel) (peer : Peer) (privateKey : String) : List String :=
  ["# " ++ tunnel.name ++ " — " ++ peer.name,
    "[Interface]",
    "Address = " ++ peer.address,
    "PrivateKey = " ++ privateKey] ++
  (if tunnel.dns = [] then [] else ["DNS = " ++ Text.join ", " tunnel.dns]) ++
  ["",
    "[Peer]",
    "PublicKey = " ++ tunnel.publicKey,
    "Endpoint = " ++ tunnel.endpoint ++ ":" ++ toString tunnel.listenPort,
    "AllowedIPs = " ++ Text.join ", " tunnel.allowed,
    "PersistentKeepalive = 25",
    ""]

def clientConfig (tunnel : Tunnel) (peer : Peer) : Except Refusal String :=
  match peer.privateKey.filter (· ≠ "") with
  | none => .error .noKey
  | some privateKey => .ok (Text.join "\n" (configLines tunnel peer privateKey))

/-- The two sections of a peer, with more settings of the second. -/
def twoSections (tunnel : Tunnel) (peer : Peer) (privateKey : String) (more : List (String × List String)) : Config :=
  ⟨[], [⟨"[interface]", [("address", [peer.address]), ("privatekey", [privateKey])] ++
      if tunnel.dns = [] then [] else [("dns", tunnel.dns)]⟩,
    ⟨"[peer]", [("publickey", [tunnel.publicKey]),
      ("endpoint", [tunnel.endpoint ++ ":" ++ toString tunnel.listenPort]), ("allowedips", tunnel.allowed)] ++ more⟩]⟩

/-- The text has the lines of its settings and no others, and is read as the two sections with what a keepalive asks for. -/
structure Right (tunnel : Tunnel) (peer : Peer) (privateKey text : String) : Prop where
  lines : (Text.split '\n' text).length = if tunnel.dns = [] then 11 else 12
  config : WgQuick.read text = twoSections tunnel peer privateKey [("persistentkeepalive", ["25"])]

/-- What the routes take without a look at it adds nothing: a name that was cut has no line break, and the name servers, the
domain and the networks stand for themselves. -/
structure Fits (tunnel : Tunnel) (peer : Peer) : Prop where
  name : '\n' ∉ peer.name.toList
  dns : ∀ text ∈ tunnel.dns, Plain text
  allowed : ∀ text ∈ tunnel.allowed, Plain text

theorem plain_of_alphanumeric {c : Char} (h : alphanumeric c = true) : WgQuick.separates c = false ∧ c ≠ '#' := by
  have hvisible : '!' ≤ c := by
    rcases Bool.or_eq_true _ _ |>.mp h with hletter | hdigit
    · exact WgQuick.visible_of_isAlpha hletter
    · simp only [Char.isDigit, Bool.and_eq_true, decide_eq_true_eq] at hdigit
      exact UInt32.le_trans (by decide : '!'.val ≤ '0'.val) hdigit.1
  refine WgQuick.plain_char hvisible ?_ ?_
  · rintro rfl
    exact absurd h (by decide)
  · rintro rfl
    exact absurd h (by decide)

theorem plain_key (key : Key) : Plain key.text := by
  have hne : key.text ≠ "" := by
    intro hempty
    have hlength := key.length
    rw [hempty] at hlength
    cases hlength
  refine ⟨hne, fun c hc => ?_⟩
  rcases Bool.or_eq_true _ _ |>.mp (List.all_eq_true.mp key.chars c hc) with hc | hc
  · exact plain_of_alphanumeric hc
  · simp only [List.mem_cons, List.not_mem_nil, or_false, decide_eq_true_eq] at hc
    rcases hc with rfl | rfl | rfl
    all_goals exact WgQuick.plain_char (by decide) (by decide) (by decide)

theorem plain_of_addressChar {c : Char} (h : AcceptedTasks.addressChar c = true) :
    WgQuick.separates c = false ∧ c ≠ '#' := by
  have hgraphic := AcceptedTasks.graphic_of_addressChar h
  rw [Pattern.graphic, Bool.and_eq_true, decide_eq_true_eq] at hgraphic
  refine WgQuick.plain_char hgraphic.1 ?_ ?_
  · rintro rfl
    exact absurd h (by decide)
  · rintro rfl
    exact absurd h (by decide)

theorem plain_hostText (host : Address.Host) : Plain host.text := by
  obtain ⟨hlow, -, hchars⟩ := Pattern.run_iff.mp (AcceptedTasks.hostText_spec host)
  refine ⟨fun hempty => ?_, fun c hc => plain_of_addressChar (hchars c hc)⟩
  rw [hempty] at hlow
  exact absurd hlow (by decide)

theorem plain_addressText (host : Address.Host) : Plain (addressText host) := by
  refine (plain_hostText host).append ⟨by decide, fun c hc => ?_⟩
  have hchars : "/32".toList = ['/', '3', '2'] := rfl
  rw [hchars] at hc
  simp only [List.mem_cons, List.not_mem_nil, or_false] at hc
  rcases hc with rfl | rfl | rfl
  all_goals exact WgQuick.plain_char (by decide) (by decide) (by decide)

theorem plain_port (port : Nat) : Plain (":" ++ toString port) := by
  have hdigits : (toString port).toList = Nat.toDigits 10 port := by
    rw [Nat.toString_eq_ofList_toDigits, String.toList_ofList]
  refine ⟨fun hempty => ?_, fun c hc => ?_⟩
  · have hchars := congrArg String.toList hempty
    rw [String.toList_append] at hchars
    cases hchars
  · rw [String.toList_append, hdigits] at hc
    rcases List.mem_append.mp hc with hc | hc
    · obtain rfl : c = ':' := by simpa using hc
      exact WgQuick.plain_char (by decide) (by decide) (by decide)
    · exact plain_of_addressChar (AcceptedTasks.addressChar_of_mem_toDigits (.inl rfl) hc)

/-- The name of a tunnel is one line, its endpoint and its key stand for themselves. -/
structure Tunnel.Sound (tunnel : Tunnel) : Prop where
  name : '\n' ∉ tunnel.name.toList
  endpoint : Plain tunnel.endpoint
  publicKey : Plain tunnel.publicKey

structure Peer.Sound (peer : Peer) : Prop where
  address : Plain peer.address
  privateKey : ∀ key ∈ peer.privateKey, Plain key

structure Sound (world : World) : Prop where
  tunnels : ∀ tunnel ∈ world.tunnels, tunnel.Sound
  peers : ∀ peer ∈ world.peers, peer.Sound

section
variable [Runtime]

theorem validateEndpoint_ok {endpoint text : String} (h : validateEndpoint endpoint = .ok text) : Plain text := by
  unfold Tunnels.validateEndpoint at h
  dsimp only at h
  split at h
  next hvalid =>
    cases h
    simp only [Tunnels.validHost, Bool.and_eq_true, List.all_eq_true] at hvalid
    obtain ⟨⟨⟨-, hfirst⟩, -⟩, hchars⟩ := hvalid
    refine ⟨fun hempty => ?_, fun c hc => ?_⟩
    · rw [hempty] at hfirst
      cases hfirst
    · rcases Bool.or_eq_true _ _ |>.mp (hchars c hc) with hletter | hmark
      · exact plain_of_alphanumeric hletter
      · rcases List.mem_pair.mp (of_decide_eq_true hmark) with rfl | rfl
        all_goals exact WgQuick.plain_char (by decide) (by decide) (by decide)
  · cases h

theorem validateName_ok {name text : String} (h : validateName name = .ok text) : '\n' ∉ text.toList := by
  unfold Tunnels.validateName at h
  dsimp only at h
  split at h
  next hvalid =>
    cases h
    intro hmem
    cases hchars : (Text.strip Runtime.blank name).toList with
    | nil =>
        rw [hchars] at hmem
        cases hmem
    | cons c rest =>
        rw [hchars] at hmem hvalid
        simp only [Tunnels.validName, Bool.and_eq_true, List.all_eq_true] at hvalid
        rcases List.mem_cons.mp hmem with rfl | hmem
        · exact absurd hvalid.1.1 (by decide)
        · exact absurd (hvalid.2 '\n' hmem) (by decide)
  · cases h

omit [Runtime] in
theorem checked_ok {α : Type} {result : Except VpnError α} {value : α} (h : checked result = .ok value) :
    result = .ok value := by
  cases result with
  | error error => cases h
  | ok other => exact congrArg Except.ok (Except.ok.inj h)

variable {world world' : World}

theorem createTunnel_ok {body : TunnelIn} {publicKey : Key}
    (h : createTunnel world body publicKey = .ok world') : ∃ tunnel : Tunnel, tunnel.Sound ∧
      world' = { world with tunnels := world.tunnels ++ [tunnel], nextId := world.nextId + 1 } := by
  unfold createTunnel at h
  obtain ⟨_, -, h⟩ := Except.bind_eq_ok.mp h
  obtain ⟨name, hname, h⟩ := Except.bind_eq_ok.mp h
  obtain ⟨network, -, h⟩ := Except.bind_eq_ok.mp h
  obtain ⟨_, -, h⟩ := Except.bind_eq_ok.mp h
  obtain ⟨endpoint, hendpoint, h⟩ := Except.bind_eq_ok.mp h
  obtain ⟨routes, -, h⟩ := Except.bind_eq_ok.mp h
  obtain ⟨dnsServers, -, h⟩ := Except.bind_eq_ok.mp h
  obtain ⟨_, -, h⟩ := Except.bind_eq_ok.mp h
  exact ⟨_, ⟨validateName_ok (checked_ok hname), validateEndpoint_ok (checked_ok hendpoint), plain_key publicKey⟩,
    (Except.ok.inj h).symm⟩

theorem updateTunnel_ok {body : TunnelUpdate} (h : updateTunnel world body = .ok world') :
    ∃ endpoint routes dnsServers, (∀ text ∈ endpoint, Plain text) ∧
      world' = { world with tunnels := world.tunnels.map fun tunnel =>
        if tunnel.id = body.id then tunnel.update endpoint body.listenPort routes dnsServers body.searchDomain
        else tunnel } := by
  unfold updateTunnel at h
  obtain ⟨_, -, h⟩ := Except.bind_eq_ok.mp h
  obtain ⟨_, -, h⟩ := Except.bind_eq_ok.mp h
  obtain ⟨endpoint, hendpoint, h⟩ := Except.bind_eq_ok.mp h
  obtain ⟨routes, -, h⟩ := Except.bind_eq_ok.mp h
  obtain ⟨dnsServers, -, h⟩ := Except.bind_eq_ok.mp h
  refine ⟨endpoint, routes, dnsServers, fun text htext => ?_, (Except.ok.inj h).symm⟩
  cases hgiven : body.endpoint.filter (· ≠ "") with
  | none =>
      rw [hgiven] at hendpoint
      cases hendpoint
      cases htext
  | some given =>
      rw [hgiven] at hendpoint
      obtain ⟨value, hvalue, hsome⟩ := Except.map_eq_ok.mp hendpoint
      rw [← hsome] at htext
      cases htext
      exact validateEndpoint_ok (checked_ok hvalue)

omit [Runtime] in
theorem Tunnel.Sound.update {tunnel : Tunnel} (h : tunnel.Sound) {endpoint : Option String}
    (hendpoint : ∀ text ∈ endpoint, Plain text) (listenPort : Option Nat) (routes dnsServers : Option (List String))
    (searchDomain : Option String) : (tunnel.update endpoint listenPort routes dnsServers searchDomain).Sound := by
  refine ⟨h.name, ?_, h.publicKey⟩
  cases endpoint with
  | none => exact h.endpoint
  | some text => exact hendpoint text rfl

theorem createPeer_ok {body : PeerIn} {privateKey : Key}
    (h : createPeer world body privateKey = .ok world') : ∃ peer : Peer, peer.Sound ∧
      world' = { world with peers := world.peers ++ [peer], nextId := world.nextId + 1 } := by
  unfold createPeer at h
  obtain ⟨_, -, h⟩ := Except.bind_eq_ok.mp h
  obtain ⟨tunnel, -, h⟩ := Except.bind_eq_ok.mp h
  obtain ⟨network, -, h⟩ := Except.bind_eq_ok.mp h
  obtain ⟨address, -, h⟩ := Except.bind_eq_ok.mp h
  obtain ⟨name, -, h⟩ := Except.bind_eq_ok.mp h
  obtain ⟨_, -, h⟩ := Except.bind_eq_ok.mp h
  refine ⟨_, ⟨plain_addressText address, fun key hkey => ?_⟩, (Except.ok.inj h).symm⟩
  cases hkey
  exact plain_key privateKey

theorem Sound.next (h : Sound world) (request : Request) : Sound (next world request) := by
  unfold TunnelConfig.next
  cases hanswer : answer world request with
  | error refusal => exact h
  | ok world' =>
      show Sound world'
      cases request with
      | createTunnel body publicKey =>
          obtain ⟨tunnel, htunnel, rfl⟩ := createTunnel_ok hanswer
          exact ⟨List.forall_mem_append.mpr ⟨h.tunnels, List.forall_mem_singleton.mpr htunnel⟩, h.peers⟩
      | updateTunnel body =>
          obtain ⟨endpoint, routes, dnsServers, hendpoint, rfl⟩ := updateTunnel_ok hanswer
          refine ⟨List.forall_mem_map.mpr fun tunnel htunnel => ?_, h.peers⟩
          split
          · exact (h.tunnels tunnel htunnel).update hendpoint _ _ _ _
          · exact h.tunnels tunnel htunnel
      | deleteTunnel id =>
          obtain ⟨_, -, hworld⟩ := Except.bind_eq_ok.mp hanswer
          obtain rfl := Except.ok.inj hworld
          exact ⟨fun tunnel htunnel => h.tunnels tunnel (List.mem_filter.mp htunnel).1,
            fun peer hpeer => h.peers peer (List.mem_filter.mp hpeer).1⟩
      | createPeer body privateKey =>
          obtain ⟨peer, hpeer, rfl⟩ := createPeer_ok hanswer
          exact ⟨h.tunnels, List.forall_mem_append.mpr ⟨h.peers, List.forall_mem_singleton.mpr hpeer⟩⟩
      | deletePeer id =>
          obtain ⟨_, -, hworld⟩ := Except.bind_eq_ok.mp hanswer
          obtain rfl := Except.ok.inj hworld
          exact ⟨h.tunnels, fun peer hpeer => h.peers peer (List.mem_filter.mp hpeer).1⟩

theorem run_sound (requests : List Request) : Sound (run requests) := by
  have hinitial : Sound initial :=
    ⟨fun tunnel htunnel => absurd htunnel List.not_mem_nil, fun peer hpeer => absurd hpeer List.not_mem_nil⟩
  exact List.foldlRecOn (motive := Sound) requests next hinitial fun world hworld request _ => hworld.next request

end

section
variable {tunnel : Tunnel} {peer : Peer} {privateKey : String}

def aboveDns (tunnel : Tunnel) (peer : Peer) (privateKey : String) : List String :=
  ["# " ++ tunnel.name ++ " — " ++ peer.name, "[Interface]", "Address = " ++ peer.address, "PrivateKey = " ++ privateKey]

def belowDns (tunnel : Tunnel) : List String :=
  ["", "[Peer]", "PublicKey = " ++ tunnel.publicKey,
    "Endpoint = " ++ tunnel.endpoint ++ ":" ++ toString tunnel.listenPort,
    "AllowedIPs = " ++ Text.join ", " tunnel.allowed, "PersistentKeepalive = 25", ""]

theorem length_configLines : (configLines tunnel peer privateKey).length = if tunnel.dns = [] then 11 else 12 := by
  unfold configLines
  split <;> rfl

theorem configLines_ne_nil : configLines tunnel peer privateKey ≠ [] := List.cons_ne_nil _ _

theorem newline_append {before after : String} (h : '\n' ∉ before.toList) :
    '\n' ∉ (before ++ after).toList ↔ '\n' ∉ after.toList := by
  rw [String.toList_append, List.mem_append, not_or, and_iff_right h]

theorem configLines_whole_iff (htunnel : tunnel.Sound) (hpeer : peer.Sound) (hkey : Plain privateKey) :
    (∀ line ∈ configLines tunnel peer privateKey, '\n' ∉ line.toList) ↔ '\n' ∉ peer.name.toList ∧
      (tunnel.dns ≠ [] → '\n' ∉ (Text.join ", " tunnel.dns).toList) ∧
      '\n' ∉ (Text.join ", " tunnel.allowed).toList := by
  have hname : '\n' ∉ ("# " ++ tunnel.name ++ " — ").toList := by
    rw [String.append_assoc, newline_append (by decide), String.toList_append, List.mem_append, not_or]
    exact ⟨htunnel.name, by decide⟩
  have hendpoint : '\n' ∉ ("Endpoint = " ++ tunnel.endpoint ++ ":" ++ toString tunnel.listenPort).toList := by
    rw [String.append_assoc, String.append_assoc, newline_append (by decide)]
    exact (htunnel.endpoint.append (plain_port tunnel.listenPort)).newline
  have hdns : (∀ line ∈ (if tunnel.dns = [] then [] else ["DNS = " ++ Text.join ", " tunnel.dns]), '\n' ∉ line.toList) ↔
      (tunnel.dns ≠ [] → '\n' ∉ (Text.join ", " tunnel.dns).toList) := by
    by_cases hnone : tunnel.dns = []
    · simp [hnone]
    · rw [if_neg hnone, List.forall_mem_singleton, newline_append (by decide)]
      exact ⟨fun h _ => h, fun h => h hnone⟩
  unfold configLines
  rw [List.forall_mem_append, List.forall_mem_append, hdns]
  simp only [List.forall_mem_cons, newline_append hname, newline_append (show '\n' ∉ "Address = ".toList by decide),
    newline_append (show '\n' ∉ "PrivateKey = ".toList by decide), newline_append (show '\n' ∉ "PublicKey = ".toList by decide),
    newline_append (show '\n' ∉ "AllowedIPs = ".toList by decide), hpeer.address.newline, hkey.newline,
    htunnel.publicKey.newline, hendpoint]
  have hinterface : '\n' ∉ "[Interface]".toList := by decide
  have hpeers : '\n' ∉ "[Peer]".toList := by decide
  have halive : '\n' ∉ "PersistentKeepalive = 25".toList := by decide
  have hempty : '\n' ∉ "".toList := by decide
  simp only [hinterface, hpeers, halive, hempty, not_false_eq_true, List.not_mem_nil, false_implies, implies_true, and_true,
    true_and, and_assoc]

theorem item_line {line key name value : String} (hkey : WgQuick.Key key) (hline : line = key ++ " = ")
    (hname : Ini.fold key = name) : WgQuick.item (line ++ value) = some (.setting name (WgQuick.values value)) := by
  rw [WgQuick.item_setting hkey (by rw [hline, String.append_assoc, String.toList_append]), hname]

theorem key_address : WgQuick.Key "Address" :=
  WgQuick.key_of_letters (by decide) (by decide) (by decide)

theorem key_privateKey : WgQuick.Key "PrivateKey" :=
  WgQuick.key_of_letters (by decide) (by decide) (by decide)

theorem key_dns : WgQuick.Key "DNS" :=
  WgQuick.key_of_letters (by decide) (by decide) (by decide)

theorem key_publicKey : WgQuick.Key "PublicKey" :=
  WgQuick.key_of_letters (by decide) (by decide) (by decide)

theorem key_endpoint : WgQuick.Key "Endpoint" :=
  WgQuick.key_of_letters (by decide) (by decide) (by decide)

theorem key_allowedIPs : WgQuick.Key "AllowedIPs" :=
  WgQuick.key_of_letters (by decide) (by decide) (by decide)

theorem read_lines (htunnel : tunnel.Sound) (hpeer : peer.Sound) (hkey : Plain privateKey) {middle : List String}
    {settings : List (String × List String)} (hmiddle : middle.filterMap WgQuick.item = settings.map WgQuick.asItem)
    (hwhole : ∀ line ∈ aboveDns tunnel peer privateKey ++ middle ++ belowDns tunnel, '\n' ∉ line.toList) :
    WgQuick.read (Text.join "\n" (aboveDns tunnel peer privateKey ++ middle ++ belowDns tunnel)) =
      ⟨[], [⟨"[interface]", [("address", [peer.address]), ("privatekey", [privateKey])] ++ settings⟩,
        ⟨"[peer]", [("publickey", [tunnel.publicKey]),
          ("endpoint", [tunnel.endpoint ++ ":" ++ toString tunnel.listenPort]),
          ("allowedips", WgQuick.values (Text.join ", " tunnel.allowed)), ("persistentkeepalive", ["25"])]⟩]⟩ := by
  have hcomment : WgQuick.item ("# " ++ tunnel.name ++ " — " ++ peer.name) = none :=
    WgQuick.item_comment (by simp [String.toList_append])
  have hinterface : WgQuick.item "[Interface]" = some (.header "[interface]") := by decide
  have hpeers : WgQuick.item "[Peer]" = some (.header "[peer]") := by decide
  have hempty : WgQuick.item "" = none := by decide
  have halive : WgQuick.item "PersistentKeepalive = 25" = some (.setting "persistentkeepalive" ["25"]) := by decide
  have haddress (value : String) : WgQuick.item ("Address = " ++ value) = some (.setting "address" (WgQuick.values value)) :=
    item_line key_address rfl (by decide)
  have hprivate (value : String) :
      WgQuick.item ("PrivateKey = " ++ value) = some (.setting "privatekey" (WgQuick.values value)) :=
    item_line key_privateKey rfl (by decide)
  have hpublic (value : String) :
      WgQuick.item ("PublicKey = " ++ value) = some (.setting "publickey" (WgQuick.values value)) :=
    item_line key_publicKey rfl (by decide)
  have hallowed (value : String) :
      WgQuick.item ("AllowedIPs = " ++ value) = some (.setting "allowedips" (WgQuick.values value)) :=
    item_line key_allowedIPs rfl (by decide)
  have hendpoint : WgQuick.item ("Endpoint = " ++ tunnel.endpoint ++ ":" ++ toString tunnel.listenPort) =
      some (.setting "endpoint" [tunnel.endpoint ++ ":" ++ toString tunnel.listenPort]) := by
    have hplain := htunnel.endpoint.append (plain_port tunnel.listenPort)
    have hline := @item_line "Endpoint = " "Endpoint" "endpoint" (tunnel.endpoint ++ (":" ++ toString tunnel.listenPort))
      key_endpoint rfl (by decide)
    rw [WgQuick.values_plain hplain] at hline
    rw [String.append_assoc, String.append_assoc, hline, ← String.append_assoc]
  have habove : (aboveDns tunnel peer privateKey).filterMap WgQuick.item = [.header "[interface]",
      .setting "address" [peer.address], .setting "privatekey" [privateKey]] := by
    simp only [aboveDns, List.filterMap_cons, List.filterMap_nil, hcomment, hinterface, haddress, hprivate,
      WgQuick.values_plain hpeer.address, WgQuick.values_plain hkey]
  have hbelow : (belowDns tunnel).filterMap WgQuick.item = [.header "[peer]", .setting "publickey" [tunnel.publicKey],
      .setting "endpoint" [tunnel.endpoint ++ ":" ++ toString tunnel.listenPort],
      .setting "allowedips" (WgQuick.values (Text.join ", " tunnel.allowed)), .setting "persistentkeepalive" ["25"]] := by
    simp only [belowDns, List.filterMap_cons, List.filterMap_nil, hempty, hpeers, hpublic, hendpoint, hallowed, halive,
      WgQuick.values_plain htunnel.publicKey]
  unfold WgQuick.read
  rw [Text.split_join (by simp [aboveDns]) hwhole, List.filterMap_append, List.filterMap_append, habove, hbelow, hmiddle,
    List.append_assoc]
  simp only [List.cons_append, List.nil_append, WgQuick.leading, WgQuick.sectionsOf, WgQuick.leading_append,
    WgQuick.sectionsOf_append, List.append_nil]

theorem read_configLines (htunnel : tunnel.Sound) (hpeer : peer.Sound) (hkey : Plain privateKey)
    (hwhole : ∀ line ∈ configLines tunnel peer privateKey, '\n' ∉ line.toList) :
    WgQuick.read (Text.join "\n" (configLines tunnel peer privateKey)) =
      ⟨[], [⟨"[interface]", [("address", [peer.address]), ("privatekey", [privateKey])] ++
          if tunnel.dns = [] then [] else [("dns", WgQuick.values (Text.join ", " tunnel.dns))]⟩,
        ⟨"[peer]", [("publickey", [tunnel.publicKey]),
          ("endpoint", [tunnel.endpoint ++ ":" ++ toString tunnel.listenPort]),
          ("allowedips", WgQuick.values (Text.join ", " tunnel.allowed)), ("persistentkeepalive", ["25"])]⟩]⟩ := by
  refine read_lines htunnel hpeer hkey ?_ hwhole
  split
  · rfl
  · have hdns := @item_line "DNS = " "DNS" "dns" (Text.join ", " tunnel.dns) key_dns rfl (by decide)
    simp only [List.filterMap_cons, hdns, List.filterMap_nil, List.map_cons, List.map_nil, WgQuick.asItem]

theorem right_iff_read (htunnel : tunnel.Sound) (hpeer : peer.Sound) (hkey : Plain privateKey) :
    Right tunnel peer privateKey (Text.join "\n" (configLines tunnel peer privateKey)) ↔ Fits tunnel peer := by
  have hlines : (Text.split '\n' (Text.join "\n" (configLines tunnel peer privateKey))).length =
      (if tunnel.dns = [] then 11 else 12) ↔ ∀ line ∈ configLines tunnel peer privateKey, '\n' ∉ line.toList := by
    rw [← length_configLines, Text.length_split_join_iff configLines_ne_nil]
  constructor
  · intro h
    have hwhole := hlines.mp h.lines
    have hconfig := h.config
    rw [read_configLines htunnel hpeer hkey hwhole, twoSections] at hconfig
    simp only [Config.mk.injEq, true_and, List.cons.injEq, WgQuick.Section.mk.injEq, and_true,
      List.cons_append, List.nil_append, Prod.mk.injEq] at hconfig
    obtain ⟨hdns, hallowed⟩ := hconfig
    refine ⟨((configLines_whole_iff htunnel hpeer hkey).mp hwhole).1, ?_, WgQuick.values_join_iff.mp hallowed⟩
    by_cases hnone : tunnel.dns = []
    · rw [hnone]
      exact fun text htext => absurd htext List.not_mem_nil
    · rw [if_neg hnone, if_neg hnone] at hdns
      simp only [List.cons.injEq, Prod.mk.injEq, true_and, and_true] at hdns
      exact WgQuick.values_join_iff.mp hdns
  · intro h
    have hfree : ∀ {parts : List String}, (∀ part ∈ parts, Plain part) → '\n' ∉ (Text.join ", " parts).toList := by
      intro parts hparts hmem
      rcases Text.mem_join hmem with hmem | ⟨part, hpart, hmem⟩
      · exact absurd hmem (by decide)
      · exact (hparts part hpart).newline hmem
    have hwhole := (configLines_whole_iff htunnel hpeer hkey).mpr ⟨h.name, fun _ => hfree h.dns, hfree h.allowed⟩
    refine ⟨hlines.mpr hwhole, ?_⟩
    rw [read_configLines htunnel hpeer hkey hwhole, WgQuick.values_join_iff.mpr h.dns, WgQuick.values_join_iff.mpr h.allowed]
    rfl

end

/-- Whatever requests came before, the configuration of a peer has the lines of its settings only, and is read as the two
sections with these and the keepalive, exactly when the texts that are taken without a look at them add nothing. -/
theorem config_read_iff [Runtime] (requests : List Request) {tunnel : Tunnel} {peer : Peer} {text : String}
    (htunnel : tunnel ∈ (run requests).tunnels) (hpeer : peer ∈ (run requests).peers)
    (htext : clientConfig tunnel peer = .ok text) :
    (∃ privateKey ∈ peer.privateKey, Right tunnel peer privateKey text) ↔ Fits tunnel peer := by
  have hsound := run_sound requests
  unfold clientConfig at htext
  cases hkey : peer.privateKey with
  | none =>
      rw [hkey] at htext
      cases htext
  | some privateKey =>
      have hplain := (hsound.peers peer hpeer).privateKey privateKey hkey
      rw [hkey, Option.filter_some, if_pos (decide_eq_true hplain.1)] at htext
      obtain rfl := Except.ok.inj htext
      rw [← right_iff_read (hsound.tunnels tunnel htunnel) (hsound.peers peer hpeer) hplain]
      constructor
      · intro ⟨key, hsome, hright⟩
        obtain rfl := Option.some.inj hsome
        exact hright
      · intro hright
        exact ⟨privateKey, rfl, hright⟩

def someKey : Key := ⟨"mJX8rQw0k1c2ZP5V7n3uT9bH4dL6sYfA0eKgWiRtU3E=", by decide, by decide⟩

/-- A tunnel with a search domain, and its first peer. -/
def homeOffice (searchDomain : String) : List Request :=
  [.createTunnel ⟨"home", "vpn.example.internal", 51820, "10.99.0.0/24", [], ["10.10.0.10"], searchDomain⟩ someKey,
    .createPeer ⟨0, "ada"⟩ someKey]

def homeTunnel (searchDomain : String) : Tunnel :=
  ⟨0, "home", "vpn.example.internal", 51820, "10.99.0.0/24", [], ["10.10.0.10"], searchDomain, someKey.text⟩

def adaPeer : Peer := ⟨1, 0, "ada", "10.99.0.2/32", some someKey.text⟩

theorem config_read_iff_home : let _ := Runtime.latin
    (homeTunnel "corp" ∈ (run (homeOffice "corp")).tunnels ∧ adaPeer ∈ (run (homeOffice "corp")).peers) ∧
      ∃ text, clientConfig (homeTunnel "corp") adaPeer = .ok text ∧
        ((∃ privateKey ∈ adaPeer.privateKey, Right (homeTunnel "corp") adaPeer privateKey text) ↔
          Fits (homeTunnel "corp") adaPeer) := by
  let _ := Runtime.latin
  have htunnel : homeTunnel "corp" ∈ (run (homeOffice "corp")).tunnels := by decide +kernel +revert
  have hpeer : adaPeer ∈ (run (homeOffice "corp")).peers := by decide +kernel +revert
  exact ⟨⟨htunnel, hpeer⟩, _, rfl, config_read_iff (homeOffice "corp") htunnel hpeer rfl⟩

/-- Every configuration holds the keepalive, and a search domain of two lines runs a command. -/
theorem config_not_read : let _ := Runtime.latin
    (homeTunnel "corp" ∈ (run (homeOffice "corp")).tunnels ∧ adaPeer ∈ (run (homeOffice "corp")).peers ∧
      (clientConfig (homeTunnel "corp") adaPeer).toOption.map WgQuick.read =
        some (twoSections (homeTunnel "corp") adaPeer someKey.text [("persistentkeepalive", ["25"])]) ∧
      twoSections (homeTunnel "corp") adaPeer someKey.text [("persistentkeepalive", ["25"])] ≠
        twoSections (homeTunnel "corp") adaPeer someKey.text []) ∧
    homeTunnel "corp\nPostUp = reboot" ∈ (run (homeOffice "corp\nPostUp = reboot")).tunnels ∧
      adaPeer ∈ (run (homeOffice "corp\nPostUp = reboot")).peers ∧
      (clientConfig (homeTunnel "corp\nPostUp = reboot") adaPeer).toOption.map WgQuick.read = some ⟨[],
        [⟨"[interface]", [("address", ["10.99.0.2/32"]), ("privatekey", [someKey.text]), ("dns", ["10.10.0.10", "corp"]),
          ("postup", ["reboot"])]⟩,
        ⟨"[peer]", [("publickey", [someKey.text]), ("endpoint", ["vpn.example.internal:51820"]),
          ("allowedips", ["10.99.0.0/24"]), ("persistentkeepalive", ["25"])]⟩]⟩ := by
  let _ := Runtime.latin
  have htunnel : homeTunnel "corp" ∈ (run (homeOffice "corp")).tunnels := by decide +kernel +revert
  have hpeer : adaPeer ∈ (run (homeOffice "corp")).peers := by decide +kernel +revert
  have hbroken : homeTunnel "corp\nPostUp = reboot" ∈ (run (homeOffice "corp\nPostUp = reboot")).tunnels := by
    decide +kernel +revert
  have hpeer' : adaPeer ∈ (run (homeOffice "corp\nPostUp = reboot")).peers := by decide +kernel +revert
  have hsound := run_sound (homeOffice "corp")
  have hkey := plain_key someKey
  have hfits : Fits (homeTunnel "corp") adaPeer := by
    refine ⟨by decide, fun text htext => ?_, fun text htext => ?_⟩
    · rcases List.mem_pair.mp htext with rfl | rfl
      all_goals exact WgQuick.plain_of_all (by decide) (by decide)
    · rw [List.mem_singleton.mp htext]
      exact WgQuick.plain_of_all (by decide) (by decide)
  have hright := (right_iff_read (hsound.tunnels _ htunnel) (hsound.peers _ hpeer) hkey).mpr hfits
  have hlines : Text.join "\n" (configLines (homeTunnel "corp\nPostUp = reboot") adaPeer someKey.text) =
      Text.join "\n" (aboveDns (homeTunnel "corp\nPostUp = reboot") adaPeer someKey.text ++
        ["DNS = 10.10.0.10, corp", "PostUp = reboot"] ++ belowDns (homeTunnel "corp\nPostUp = reboot")) := by
    have hdns : "DNS = " ++ Text.join ", " (homeTunnel "corp\nPostUp = reboot").dns =
        Text.join "\n" ["DNS = 10.10.0.10, corp", "PostUp = reboot"] := by decide
    rw [← Text.join_join (List.cons_ne_nil _ _), ← hdns]
    rfl
  have hmiddle : ["DNS = 10.10.0.10, corp", "PostUp = reboot"].filterMap WgQuick.item =
      [("dns", ["10.10.0.10", "corp"]), ("postup", ["reboot"])].map WgQuick.asItem := by decide
  have hwhole : ∀ line ∈ aboveDns (homeTunnel "corp\nPostUp = reboot") adaPeer someKey.text ++
      ["DNS = 10.10.0.10, corp", "PostUp = reboot"] ++ belowDns (homeTunnel "corp\nPostUp = reboot"),
      '\n' ∉ line.toList := by decide
  have hread := read_lines ((run_sound _).tunnels _ hbroken) (hsound.peers _ hpeer) hkey hmiddle hwhole
  have hallowed : WgQuick.values (Text.join ", " (homeTunnel "corp\nPostUp = reboot").allowed) = ["10.99.0.0/24"] := by
    decide
  have hport : (homeTunnel "corp\nPostUp = reboot").endpoint ++ ":" ++
      toString (homeTunnel "corp\nPostUp = reboot").listenPort = "vpn.example.internal:51820" := by decide
  refine ⟨⟨htunnel, hpeer, congrArg some hright.config, by decide⟩, hbroken, hpeer', ?_⟩
  rw [← hlines, hallowed, hport] at hread
  exact congrArg some hread

end OpenDirectory.TunnelConfig
