import OpenDirectory.AddressText
import OpenDirectory.Lists
import OpenDirectory.Steps
import OpenDirectory.Value

/-! WireGuard tunnels and the addresses of their peers. A request is one statement after another on one connection,
without a transaction around them, so the statements of different requests come in any order. -/

namespace OpenDirectory.Tunnels

open Address (Host Network)

inductive VpnError where
  | invalidName (name : String)
  | endpoint
  | notNetwork (network : String)
  | noRoom
  | full (network : Network)
  deriving DecidableEq

section
variable [Runtime]

def alphanumeric (c : Char) : Bool := c.isAlpha || c.isDigit

/-- `_NAME_RE`: one letter or digit, then up to thirty of these and of dots, underscores and dashes. -/
def validName (name : List Char) : Bool :=
  match name with
  | [] => false
  | c :: rest => alphanumeric c && rest.length ≤ 30 && rest.all fun d => alphanumeric d || d ∈ ['.', '_', '-']

def validateName (name : String) : Except VpnError String :=
  let name := Text.strip Runtime.blank name
  if validName name.toList then .ok name else .error (.invalidName name)

/-- `_HOST_RE`: letters, digits, dots and dashes, the first and the last of them a letter or a digit. -/
def validHost (name : List Char) : Bool :=
  name.length ≤ 253 && name.head?.any alphanumeric && name.getLast?.any alphanumeric &&
    name.all fun c => alphanumeric c || c ∈ ['.', '-']

def validateEndpoint (endpoint : String) : Except VpnError String :=
  let endpoint := Text.strip Runtime.blank endpoint
  if validHost endpoint.toList then .ok endpoint else .error .endpoint

def validateNetwork (network : String) : Except VpnError Network :=
  match Address.ipNetwork (Text.strip Runtime.blank network) with
  | none => .error (.notNetwork network)
  | some parsed => if parsed.numAddresses < 4 then .error .noRoom else .ok parsed

end

/-- The tunnel's own address: the first usable one in its network. -/
def serverAddress (network : Network) : Host := ⟨network.version, network.first + 1⟩

/-- The first of so many addresses whose text is not used. -/
def firstFree (version : Address.Version) (used : List String) : Nat → Nat → Option Host
  | 0, _ => none
  | left + 1, number =>
      if Host.text ⟨version, number⟩ ∈ used then firstFree version used left (number + 1) else some ⟨version, number⟩

/-- The text of a peer's address, `f"{candidate}/32"` in both versions. -/
def addressText (host : Host) : String := host.text ++ "/32"

/-- The network that text reads as. -/
def allowed (host : Host) : Network := ⟨host.version, host.number, 32⟩

example : (Address.ipNetwork (addressText ⟨.v4, 0x0a630002⟩), Address.ipNetwork (addressText ⟨.v6, 0xfd00 * 2 ^ 112 + 2⟩)) =
    (some (allowed ⟨.v4, 0x0a630002⟩), some (allowed ⟨.v6, 0xfd00 * 2 ^ 112 + 2⟩)) := by decide

/-- The next free address in the tunnel's network, after the server's. -/
def nextPeerAddress (network : Network) (taken : List String) : Except VpnError Host :=
  let used := taken.map fun address => (Text.split '/' address).headD ""
  match firstFree network.version used (network.hostCount - 1) (network.first + 2) with
  | some candidate => .ok candidate
  | none => .error (.full network)

example : let _ := Runtime.latin
    (validateNetwork " fd00::/64").bind (nextPeerAddress · ["fd00::2/32"]) = .ok ⟨.v6, 0xfd00 * 2 ^ 112 + 3⟩ := by
  decide

theorem firstFree_bounds {version : Address.Version} {used : List String} {left number : Nat} {host : Host}
    (h : firstFree version used left number = some host) :
    host.version = version ∧ number ≤ host.number ∧ host.number < number + left := by
  induction left generalizing number with
  | zero => cases h
  | succ left ih =>
      unfold firstFree at h
      split at h
      · obtain ⟨hversion, hlow, hhigh⟩ := ih h
        exact ⟨hversion, by omega, by omega⟩
      · cases h
        exact ⟨rfl, Nat.le_refl _, by show number < _; omega⟩

theorem nextPeerAddress_bounds {network : Network} {taken : List String} {host : Host}
    (h : nextPeerAddress network taken = .ok host) : network.contains host = true ∧ host ≠ serverAddress network := by
  unfold nextPeerAddress at h
  dsimp only at h
  split at h
  next candidate hfree =>
    cases h
    obtain ⟨hversion, hlow, hhigh⟩ := firstFree_bounds hfree
    have hcount : network.hostCount ≤ network.numAddresses - 1 := by
      unfold Network.hostCount
      split <;> omega
    have hhost : host = ⟨network.version, network.first + (host.number - network.first)⟩ := by
      rw [Nat.add_sub_cancel' (by omega), ← hversion]
    constructor
    · rw [hhost]
      exact Network.contains_first (by omega)
    · intro hserver
      have hnumber : host.number = network.first + 1 := congrArg Host.number hserver
      omega
  · cases h

theorem allowed_apart {left right : Host} (hleft : left.version = .v4) (hright : right.version = .v4)
    (hne : left ≠ right) : (allowed left).Apart (allowed right) := by
  intro host hinleft hinright
  rw [Network.contains_iff] at hinleft hinright
  have hone : ∀ other : Host, other.version = .v4 → (allowed other).numAddresses = 1 := by
    intro other hversion
    unfold Network.numAddresses allowed
    rw [hversion]
    rfl
  rw [hone left hleft, Nat.div_one, Nat.div_one] at hinleft
  rw [hone right hright, Nat.div_one, Nat.div_one] at hinright
  apply hne
  calc left = ⟨left.version, left.number⟩ := rfl
    _ = ⟨right.version, right.number⟩ := by
      rw [hleft, hright, show left.number = right.number from hinleft.2.symm.trans hinright.2]

inductive TunnelState where
  | pending
  | applying
  deriving DecidableEq

/-- A row of `vpn_tunnel`. Its network is what the text in its column reads as. -/
structure Tunnel where
  id : Nat
  nodeFqdn : String
  name : String
  endpoint : String
  listenPort : Nat
  network : Network
  privateKey : String
  state : TunnelState
  deriving DecidableEq

/-- A row of `vpn_peer`, with the address its text begins with. -/
structure Peer where
  id : Nat
  tunnelId : Nat
  name : String
  address : Host
  publicKey : String
  enabled : Bool
  deriving DecidableEq

structure TaskPeer where
  name : String
  publicKey : String
  allowedIps : List Network
  deriving DecidableEq

inductive Payload where
  | apply (name : String) (address : Host) (prefixLength listenPort : Nat) (privateKey : String)
      (peers : List TaskPeer)
  | remove (name : String)
  deriving DecidableEq

/-- What the node terminating the tunnel needs to bring it up. -/
def asTask [Runtime] (tunnel : Tunnel) (peers : List Peer) : Except VpnError Payload := do
  let name ← validateName tunnel.name
  return .apply name (serverAddress tunnel.network) tunnel.network.prefixLength tunnel.listenPort tunnel.privateKey
    ((peers.filter (·.enabled)).map fun peer => ⟨peer.name, peer.publicKey, [allowed peer.address]⟩)

structure Task where
  nodeFqdn : String
  payload : Payload
  subject : Nat

structure TunnelIn where
  nodeFqdn : String
  name : String
  endpoint : String
  listenPort : Nat
  network : String
  deriving DecidableEq

structure TunnelUpdate where
  id : Nat
  endpoint : Option String
  listenPort : Option Nat
  deriving DecidableEq

structure PeerIn where
  tunnelId : Nat
  name : String
  deriving DecidableEq

/-- The next statement of a request, with what it has read so far. -/
inductive Statement where
  | findTunnelName (body : TunnelIn) (name : String) (network : Network) (privateKey : String)
  | insertTunnel (body : TunnelIn) (name : String) (network : Network) (privateKey : String)
  | findTunnel (body : TunnelUpdate)
  | updateTunnel (body : TunnelUpdate)
  | readTunnelToDelete (id : Nat)
  | queueRemoval (tunnel : Tunnel)
  | deleteTunnel (id : Nat)
  | readTunnel (body : PeerIn) (publicKey : String)
  | readTaken (body : PeerIn) (publicKey : String) (tunnel : Tunnel)
  | insertPeer (row : Peer)
  | readPeerToDelete (id : Nat)
  | deletePeer (row : Peer)
  | dispatchTunnel (id : Nat)
  | dispatchPeers (tunnel : Tunnel)
  | dispatchState (tunnel : Tunnel) (payload : Payload)
  | enqueue (task : Task)
  /-- The request is answered, with a result or an error. -/
  | answered

structure World where
  tunnels : List Tunnel
  peers : List Peer
  tasks : List Task
  requests : List Statement
  /-- A number above those of all rows there ever were. -/
  nextId : Nat

def initial : World := ⟨[], [], [], [], 0⟩

def World.tunnel (world : World) (id : Nat) : Option Tunnel := world.tunnels.find? (·.id = id)

/-- `SELECT * FROM vpn_peer WHERE tunnel_id = $1 ORDER BY name` -/
def World.peersOf (world : World) (tunnelId : Nat) : List Peer :=
  (world.peers.filter (·.tunnelId = tunnelId)).sortedBy (·.name)

section
variable [Runtime]

/-- The insertion of a tunnel, which the unique name can refuse. -/
def World.addTunnel (world : World) (body : TunnelIn) (name : String) (network : Network) (endpoint privateKey : String) :
    Option World :=
  if world.tunnels.any (·.name = name) then none
  else some { world with
    tunnels := world.tunnels ++
      [⟨world.nextId, body.nodeFqdn, name, endpoint, body.listenPort, network, privateKey, .pending⟩]
    nextId := world.nextId + 1 }

/-- The insertion of a peer, which the reference to the tunnel and the two unique pairs can refuse. -/
def World.addPeer (world : World) (row : Peer) : Option World :=
  if world.tunnels.all (·.id ≠ row.tunnelId) then none
  else if world.peers.any fun other => other.tunnelId = row.tunnelId ∧
      (other.name = row.name ∨ addressText other.address = addressText row.address) then none
  else some { world with
    peers := world.peers ++ [{ row with id := world.nextId }]
    nextId := world.nextId + 1 }

/-- `COALESCE($n, column)` for the columns that are given. -/
def Tunnel.update (tunnel : Tunnel) (endpoint : Option String) (listenPort : Option Nat) : Tunnel :=
  { tunnel with
    endpoint := endpoint.getD tunnel.endpoint
    listenPort := listenPort.getD tunnel.listenPort }

def World.mapTunnel (world : World) (id : Nat) (f : Tunnel → Tunnel) : World :=
  { world with tunnels := world.tunnels.map fun tunnel => if tunnel.id = id then f tunnel else tunnel }

/-- One statement, and the one after it. -/
def execute (world : World) : Statement → World × Statement
  | .findTunnelName body name network privateKey =>
      if world.tunnels.any fun tunnel => Runtime.lower tunnel.name = Runtime.lower name then (world, .answered)
      else (world, .insertTunnel body name network privateKey)
  | .insertTunnel body name network privateKey =>
      match validateEndpoint body.endpoint with
      | .error _ => (world, .answered)
      | .ok endpoint =>
          match world.addTunnel body name network endpoint privateKey with
          | none => (world, .answered)
          | some world' => (world', .dispatchTunnel world.nextId)
  | .findTunnel body => (world, if (world.tunnel body.id).isSome then .updateTunnel body else .answered)
  | .updateTunnel body =>
      -- an empty endpoint is not given
      match (body.endpoint.filter (· ≠ "")).mapM validateEndpoint with
      | .error _ => (world, .answered)
      | .ok endpoint => (world.mapTunnel body.id (·.update endpoint body.listenPort), .dispatchTunnel body.id)
  | .readTunnelToDelete id =>
      match world.tunnel id with
      | none => (world, .answered)
      | some tunnel => (world, .queueRemoval tunnel)
  | .queueRemoval tunnel =>
      ({ world with tasks := world.tasks ++ [⟨tunnel.nodeFqdn, .remove tunnel.name, tunnel.id⟩] }, .deleteTunnel tunnel.id)
  | .deleteTunnel id =>
      -- `ON DELETE CASCADE`
      ({ world with
        tunnels := world.tunnels.filter (·.id ≠ id)
        peers := world.peers.filter (·.tunnelId ≠ id) }, .answered)
  | .readTunnel body publicKey =>
      match world.tunnel body.tunnelId with
      | none => (world, .answered)
      | some tunnel => (world, .readTaken body publicKey tunnel)
  | .readTaken body publicKey tunnel =>
      let taken := (world.peers.filter (·.tunnelId = body.tunnelId)).map (addressText ·.address)
      match nextPeerAddress tunnel.network taken with
      | .error _ => (world, .answered)
      | .ok address =>
          match if body.name.length ≤ 31 then validateName body.name else .ok (body.name.take 31).toString with
          | .error _ => (world, .answered)
          | .ok name => (world, .insertPeer ⟨0, body.tunnelId, name, address, publicKey, true⟩)
  | .insertPeer row =>
      match world.addPeer row with
      | none => (world, .answered)
      | some world' => (world', .dispatchTunnel row.tunnelId)
  | .readPeerToDelete id =>
      match world.peers.find? (·.id = id) with
      | none => (world, .answered)
      | some row => (world, .deletePeer row)
  | .deletePeer row => ({ world with peers := world.peers.filter (·.id ≠ row.id) }, .dispatchTunnel row.tunnelId)
  | .dispatchTunnel id =>
      match world.tunnel id with
      | none => (world, .answered)
      | some tunnel => (world, .dispatchPeers tunnel)
  | .dispatchPeers tunnel =>
      match asTask tunnel (world.peersOf tunnel.id) with
      | .error _ => (world, .answered)
      | .ok payload => (world, .dispatchState tunnel payload)
  | .dispatchState tunnel payload =>
      (world.mapTunnel tunnel.id ({ · with state := .applying }), .enqueue ⟨tunnel.nodeFqdn, payload, tunnel.id⟩)
  | .enqueue task => ({ world with tasks := world.tasks ++ [task] }, .answered)
  | .answered => (world, .answered)

inductive Request where
  | createTunnel (body : TunnelIn) (privateKey : String)
  | updateTunnel (body : TunnelUpdate)
  | deleteTunnel (id : Nat)
  | createPeer (body : PeerIn) (publicKey : String)
  | deletePeer (id : Nat)

/-- The first statement of a request, with the keys made for it. -/
def Request.start : Request → Statement
  | .createTunnel body privateKey =>
      match validateName body.name, validateNetwork body.network with
      | .ok name, .ok network => .findTunnelName body name network privateKey
      | _, _ => .answered
  | .updateTunnel body => .findTunnel body
  | .deleteTunnel id => .readTunnelToDelete id
  | .createPeer body publicKey => .readTunnel body publicKey
  | .deletePeer id => .readPeerToDelete id

/-- A request comes in, the next statement of one is executed, or one is cut off. -/
inductive Move where
  | receive (request : Request)
  | advance (index : Nat)
  | cutOff (index : Nat)

def next (world : World) : Move → World
  | .receive request => { world with requests := world.requests ++ [request.start] }
  | .advance index =>
      match world.requests[index]? with
      | none => world
      | some statement =>
          let (world', following) := execute world statement
          { world' with requests := world.requests.set index following }
  | .cutOff index => { world with requests := world.requests.set index .answered }

end

/-- No two peers of the task have an allowed address in common. -/
def Payload.Disjoint : Payload → Prop
  | .apply _ _ _ _ _ peers =>
      peers.Pairwise fun left right => ∀ m ∈ left.allowedIps, ∀ n ∈ right.allowedIps, m.Apart n
  | .remove _ => True

/-- Inside the tunnel's network, and not the server's own address. -/
def Placed (network : Network) (address : Host) : Prop :=
  network.contains address = true ∧ address ≠ serverAddress network

/-- The peers of every tunnel have addresses of their own, and the networks written for them, now or in a task that
is queued, have nothing in common. -/
structure Addressed [Runtime] (world : World) : Prop where
  placed : ∀ tunnel ∈ world.tunnels, ∀ peer ∈ world.peersOf tunnel.id, Placed tunnel.network peer.address
  distinct : ∀ tunnel ∈ world.tunnels, (world.peersOf tunnel.id).Pairwise fun left right => left.address ≠ right.address
  disjoint : ∀ tunnel ∈ world.tunnels, ∀ payload, asTask tunnel (world.peersOf tunnel.id) = .ok payload → payload.Disjoint
  queued : ∀ task ∈ world.tasks, task.payload.Disjoint

/-- A peer is inserted only into a tunnel of the fourth version, or where the tunnel has no other. -/
def Statement.Fits (world : World) : Statement → Prop
  | .insertPeer row => (world.addPeer row).isSome →
      (∀ tunnel ∈ world.tunnels, tunnel.id = row.tunnelId → tunnel.network.version = .v4) ∨
        ∀ other ∈ world.peers, other.tunnelId ≠ row.tunnelId
  | _ => True

def Fits (world : World) : Move → Prop
  | .advance index => ∀ statement ∈ world.requests[index]?, statement.Fits world
  | _ => True

/-- Two peers of one tunnel have different addresses and are allowed nothing in common. -/
def Split (left right : Peer) : Prop :=
  left.tunnelId = right.tunnelId → left.address ≠ right.address ∧ (allowed left.address).Apart (allowed right.address)

structure Rows (world : World) : Prop where
  split : world.peers.Pairwise Split
  placed : ∀ peer ∈ world.peers, ∀ tunnel ∈ world.tunnels, tunnel.id = peer.tunnelId →
    Placed tunnel.network peer.address
  same : ∀ tunnel ∈ world.tunnels, ∀ other ∈ world.tunnels, tunnel.id = other.id → tunnel.network = other.network
  old : ∀ tunnel ∈ world.tunnels, tunnel.id < world.nextId
  peersOld : ∀ peer ∈ world.peers, peer.tunnelId < world.nextId
  queued : ∀ task ∈ world.tasks, task.payload.Disjoint

/-- What a request has read still holds of the tunnels there are. -/
def Ready (world : World) : Statement → Prop
  | .readTaken body _ tunnel => body.tunnelId < world.nextId ∧
      ∀ other ∈ world.tunnels, other.id = body.tunnelId → other.network = tunnel.network
  | .insertPeer row => row.tunnelId < world.nextId ∧
      ∀ tunnel ∈ world.tunnels, tunnel.id = row.tunnelId → Placed tunnel.network row.address
  | .dispatchState _ payload => payload.Disjoint
  | .enqueue task => task.payload.Disjoint
  | _ => True

structure Sound (world : World) : Prop extends Rows world where
  ready : ∀ statement ∈ world.requests, Ready world statement

theorem sound_initial : Sound initial where
  split := .nil
  placed := by simp [initial]
  same := by simp [initial]
  old := by simp [initial]
  peersOld := by simp [initial]
  queued := by simp [initial]
  ready := by simp [initial]

variable {world world' : World}

theorem Split.symm {left right : Peer} (h : Split left right) : Split right left := by
  intro htunnel
  obtain ⟨hne, hapart⟩ := h htunnel.symm
  exact ⟨hne.symm, hapart.symm⟩

theorem Rows.split_peersOf (h : Rows world) (tunnelId : Nat) : (world.peersOf tunnelId).Pairwise fun left right =>
    left.address ≠ right.address ∧ (allowed left.address).Apart (allowed right.address) := by
  have hsplit : (world.peersOf tunnelId).Pairwise Split := by
    apply (List.perm_sortedBy _ _).symm.pairwise (h.split.filter _)
    exact Split.symm
  have hin : ∀ peer ∈ world.peersOf tunnelId, peer.tunnelId = tunnelId := by
    intro peer hpeer
    have hmem := (List.perm_sortedBy _ _).mem_iff.mp hpeer
    exact of_decide_eq_true (List.mem_filter.mp hmem).2
  refine hsplit.imp_of_mem ?_
  intro left right hleft hright hboth
  exact hboth ((hin left hleft).trans (hin right hright).symm)

variable {tunnel : Tunnel} {id : Nat}

theorem disjoint_asTask [Runtime] {peers : List Peer} {payload : Payload}
    (hpeers : peers.Pairwise fun left right => (allowed left.address).Apart (allowed right.address))
    (h : asTask tunnel peers = .ok payload) : payload.Disjoint := by
  unfold asTask at h
  obtain ⟨name, _, hpayload⟩ := Except.bind_eq_ok.mp h
  cases hpayload
  show List.Pairwise _ _
  rw [List.pairwise_map]
  refine (hpeers.filter _).imp ?_
  intro left right hapart m hm n hn
  rw [List.mem_singleton.mp hm, List.mem_singleton.mp hn]
  exact hapart

theorem Rows.disjoint [Runtime] (h : Rows world) {payload : Payload}
    (htask : asTask tunnel (world.peersOf tunnel.id) = .ok payload) : payload.Disjoint :=
  disjoint_asTask ((h.split_peersOf tunnel.id).imp And.right) htask

theorem Rows.addressed [Runtime] (h : Rows world) : Addressed world where
  placed := by
    intro tunnel htunnel peer hpeer
    have hmem := List.mem_filter.mp ((List.perm_sortedBy _ _).mem_iff.mp hpeer)
    exact h.placed peer hmem.1 tunnel htunnel (of_decide_eq_true hmem.2).symm
  distinct := fun tunnel _ => (h.split_peersOf tunnel.id).imp And.left
  disjoint := fun _ _ _ htask => h.disjoint htask
  queued := h.queued

/-- No tunnel there was has another network, and a new one has a new number. -/
structure Follows (world world' : World) : Prop where
  counted : world.nextId ≤ world'.nextId
  kept : ∀ tunnel ∈ world'.tunnels, tunnel.id < world.nextId →
    ∃ before ∈ world.tunnels, before.id = tunnel.id ∧ before.network = tunnel.network

theorem Follows.same (htunnels : world'.tunnels = world.tunnels) (hid : world'.nextId = world.nextId) :
    Follows world world' := ⟨hid.ge, fun tunnel htunnel _ => ⟨tunnel, htunnels ▸ htunnel, rfl, rfl⟩⟩

theorem Ready.follow {statement : Statement} (h : Ready world statement) (hfollows : Follows world world') :
    Ready world' statement := by
  cases statement with
  | readTaken body key tunnel =>
      obtain ⟨hold, hnetwork⟩ := h
      refine ⟨hold.trans_le hfollows.counted, ?_⟩
      intro other hother hid
      obtain ⟨before, hbefore, hsame, heq⟩ := hfollows.kept other hother (hid ▸ hold)
      exact heq ▸ hnetwork before hbefore (hsame.trans hid)
  | insertPeer row =>
      obtain ⟨hold, hplaced⟩ := h
      refine ⟨hold.trans_le hfollows.counted, ?_⟩
      intro other hother hid
      obtain ⟨before, hbefore, hsame, heq⟩ := hfollows.kept other hother (hid ▸ hold)
      exact heq ▸ hplaced before hbefore (hsame.trans hid)
  | dispatchState tunnel payload => exact h
  | enqueue task => exact h
  | _ => trivial

theorem Follows.mapTunnel {f : Tunnel → Tunnel} (hid : ∀ tunnel, (f tunnel).id = tunnel.id)
    (hnetwork : ∀ tunnel, (f tunnel).network = tunnel.network) : Follows world (world.mapTunnel id f) where
  counted := Nat.le_refl _
  kept := by
    intro tunnel htunnel _
    obtain ⟨before, hbefore, heq⟩ := List.mem_map.mp htunnel
    refine ⟨before, hbefore, ?_⟩
    split at heq <;> subst heq
    · exact ⟨(hid before).symm, (hnetwork before).symm⟩
    · exact ⟨rfl, rfl⟩

theorem Rows.follow (h : Rows world) (hfollows : Follows world world') (hid : world'.nextId = world.nextId)
    (hpeers : world'.peers.Sublist world.peers) (htunnels : ∀ tunnel ∈ world'.tunnels, tunnel.id < world.nextId)
    (hqueued : ∀ task ∈ world'.tasks, task.payload.Disjoint) : Rows world' where
  split := h.split.sublist hpeers
  placed := by
    intro peer hpeer tunnel htunnel hsame
    obtain ⟨before, hbefore, hbeforeId, hnetwork⟩ := hfollows.kept tunnel htunnel (htunnels tunnel htunnel)
    exact hnetwork ▸ h.placed peer (hpeers.mem hpeer) before hbefore (hbeforeId.trans hsame)
  same := by
    intro tunnel htunnel other hother hsame
    obtain ⟨first, hfirst, hfirstId, hnetwork⟩ := hfollows.kept tunnel htunnel (htunnels tunnel htunnel)
    obtain ⟨second, hsecond, hsecondId, hnetwork'⟩ := hfollows.kept other hother (htunnels other hother)
    rw [← hnetwork, ← hnetwork']
    exact h.same first hfirst second hsecond (by rw [hfirstId, hsecondId, hsame])
  old := fun tunnel htunnel => (htunnels tunnel htunnel).trans_eq hid.symm
  peersOld := fun peer hpeer => (h.peersOld peer (hpeers.mem hpeer)).trans_eq hid.symm
  queued := hqueued

theorem Rows.mapTunnel (h : Rows world) {f : Tunnel → Tunnel} (hid : ∀ tunnel, (f tunnel).id = tunnel.id)
    (hnetwork : ∀ tunnel, (f tunnel).network = tunnel.network) : Rows (world.mapTunnel id f) := by
  refine h.follow (Follows.mapTunnel hid hnetwork) rfl (List.Sublist.refl _) ?_ h.queued
  intro tunnel htunnel
  obtain ⟨before, hbefore, heq⟩ := List.mem_map.mp htunnel
  rw [← heq]
  split
  · exact (hid before).trans_lt (h.old before hbefore)
  · exact h.old before hbefore

theorem Rows.addTunnel (h : Rows world) {body : TunnelIn} {name endpoint privateKey : String} {network : Network}
    (hadd : world.addTunnel body name network endpoint privateKey = some world') :
    Rows world' ∧ Follows world world' := by
  unfold World.addTunnel at hadd
  split at hadd
  · cases hadd
  cases hadd
  refine ⟨⟨h.split, ?_, ?_, ?_, fun peer hpeer => (h.peersOld peer hpeer).trans (Nat.lt_succ_self _), h.queued⟩,
    Nat.le_succ _, ?_⟩
  · intro peer hpeer tunnel htunnel hsame
    rcases List.mem_append.mp htunnel with hbefore | hnew
    · exact h.placed peer hpeer tunnel hbefore hsame
    · obtain rfl := List.mem_singleton.mp hnew
      exact absurd hsame (h.peersOld peer hpeer).ne'
  · intro tunnel htunnel other hother hsame
    rcases List.mem_append.mp htunnel with hbefore | hnew <;> rcases List.mem_append.mp hother with hbefore' | hnew'
    · exact h.same tunnel hbefore other hbefore' hsame
    · obtain rfl := List.mem_singleton.mp hnew'
      exact absurd hsame (h.old tunnel hbefore).ne
    · obtain rfl := List.mem_singleton.mp hnew
      exact absurd hsame (h.old other hbefore').ne'
    · rw [List.mem_singleton.mp hnew, List.mem_singleton.mp hnew']
  · intro tunnel htunnel
    rcases List.mem_append.mp htunnel with hbefore | hnew
    · exact (h.old tunnel hbefore).trans (Nat.lt_succ_self _)
    · rw [List.mem_singleton.mp hnew]
      exact Nat.lt_succ_self _
  · intro tunnel htunnel hold
    rcases List.mem_append.mp htunnel with hbefore | hnew
    · exact ⟨tunnel, hbefore, rfl, rfl⟩
    · obtain rfl := List.mem_singleton.mp hnew
      exact absurd hold (Nat.lt_irrefl _)

/-- A peer that is inserted has an address no other peer of the tunnel has; and in the fourth version, or alone,
nothing is allowed to it that is allowed to another. -/
theorem Rows.addPeer (h : Rows world) {row : Peer} (hready : Ready world (.insertPeer row))
    (hfits : (∀ tunnel ∈ world.tunnels, tunnel.id = row.tunnelId → tunnel.network.version = .v4) ∨
      ∀ other ∈ world.peers, other.tunnelId ≠ row.tunnelId)
    (hadd : world.addPeer row = some world') : Rows world' ∧ Follows world world' := by
  obtain ⟨hold, hplaced⟩ := hready
  unfold World.addPeer at hadd
  split at hadd
  · cases hadd
  next hreference =>
    split at hadd
    · cases hadd
    next hunique =>
      cases hadd
      refine ⟨⟨?_, ?_, h.same, fun tunnel htunnel => (h.old tunnel htunnel).trans (Nat.lt_succ_self _), ?_, h.queued⟩,
        Nat.le_succ _, fun tunnel htunnel _ => ⟨tunnel, htunnel, rfl, rfl⟩⟩
      · rw [List.pairwise_append]
        refine ⟨h.split, List.pairwise_singleton _ _, ?_⟩
        intro other hother new hnew hsame
        obtain rfl := List.mem_singleton.mp hnew
        have hne : other.address ≠ row.address := by
          intro heq
          apply hunique
          rw [List.any_eq_true]
          exact ⟨other, hother, decide_eq_true ⟨hsame, .inr (by rw [heq])⟩⟩
        refine ⟨hne, ?_⟩
        rcases hfits with hfourth | halone
        · -- both addresses lie in the network of the tunnel the row refers to
          simp only [List.all_eq_true, decide_eq_true_eq, not_forall, not_not] at hreference
          obtain ⟨tunnel, htunnel, hid⟩ := hreference
          have hversion := hfourth tunnel htunnel hid
          have hother4 := (Address.Network.contains_iff.mp (h.placed other hother tunnel htunnel (hid.trans hsame.symm)).1).1
          have hrow4 := (Address.Network.contains_iff.mp (hplaced tunnel htunnel hid).1).1
          exact allowed_apart (hother4.trans hversion) (hrow4.trans hversion) hne
        · exact absurd hsame (halone other hother)
      · intro peer hpeer tunnel htunnel hsame
        rcases List.mem_append.mp hpeer with hbefore | hnew
        · exact h.placed peer hbefore tunnel htunnel hsame
        · obtain rfl := List.mem_singleton.mp hnew
          exact hplaced tunnel htunnel hsame
      · intro peer hpeer
        rcases List.mem_append.mp hpeer with hbefore | hnew
        · exact (h.peersOld peer hbefore).trans (Nat.lt_succ_self _)
        · rw [List.mem_singleton.mp hnew]
          exact hold.trans (Nat.lt_succ_self _)

theorem tunnel_eq_some (h : world.tunnel id = some tunnel) :
    tunnel ∈ world.tunnels ∧ tunnel.id = id := by
  unfold World.tunnel at h
  exact ⟨List.mem_of_find?_eq_some h, by simpa using List.find?_some h⟩

section
variable [Runtime]

/-- What a statement leaves: rows in order, tunnels that follow those there were, and a statement to go on with. -/
def Kept (world : World) (result : World × Statement) : Prop :=
  Rows result.1 ∧ Follows world result.1 ∧ Ready result.1 result.2

omit [Runtime] in
theorem Rows.kept (h : Rows world) {statement : Statement} (hready : Ready world statement) :
    Kept world (world, statement) := ⟨h, .same rfl rfl, hready⟩

theorem execute_kept (h : Rows world) {statement : Statement} (hready : Ready world statement)
    (hfits : statement.Fits world) : Kept world (execute world statement) := by
  cases statement with
  | findTunnelName body name network privateKey =>
      dsimp only [execute]
      split
      · exact h.kept trivial
      · exact h.kept trivial
  | insertTunnel body name network privateKey =>
      dsimp only [execute]
      split
      · exact h.kept trivial
      · split
        · exact h.kept trivial
        next hadd => exact ⟨(h.addTunnel hadd).1, (h.addTunnel hadd).2, trivial⟩
  | findTunnel body =>
      dsimp only [execute]
      split
      · exact h.kept trivial
      · exact h.kept trivial
  | updateTunnel body =>
      dsimp only [execute]
      split
      · exact h.kept trivial
      · exact ⟨h.mapTunnel (fun _ => rfl) (fun _ => rfl), .mapTunnel (fun _ => rfl) (fun _ => rfl), trivial⟩
  | readTunnelToDelete id =>
      dsimp only [execute]
      split
      · exact h.kept trivial
      · exact h.kept trivial
  | queueRemoval tunnel =>
      refine ⟨⟨h.split, h.placed, h.same, h.old, h.peersOld, ?_⟩, .same rfl rfl, trivial⟩
      intro task htask
      rcases List.mem_append.mp htask with hbefore | hnew
      · exact h.queued task hbefore
      · rw [List.mem_singleton.mp hnew]
        trivial
  | deleteTunnel id =>
      have hfollows : Follows world (execute world (.deleteTunnel id)).1 :=
        ⟨Nat.le_refl _, fun tunnel htunnel _ => ⟨tunnel, (List.mem_filter.mp htunnel).1, rfl, rfl⟩⟩
      refine ⟨h.follow hfollows rfl List.filter_sublist ?_ h.queued, hfollows, trivial⟩
      exact fun tunnel htunnel => h.old tunnel (List.mem_filter.mp htunnel).1
  | readTunnel body publicKey =>
      dsimp only [execute]
      split
      · exact h.kept trivial
      next tunnel hfound =>
        obtain ⟨hmem, hid⟩ := tunnel_eq_some hfound
        refine h.kept ⟨hid ▸ h.old tunnel hmem, ?_⟩
        intro other hother hsame
        exact h.same other hother tunnel hmem (hsame.trans hid.symm)
  | readTaken body publicKey tunnel =>
      dsimp only [execute]
      split
      · exact h.kept trivial
      next address haddress =>
        split
        · exact h.kept trivial
        · refine h.kept ⟨hready.1, ?_⟩
          intro other hother hid
          rw [hready.2 other hother hid]
          exact nextPeerAddress_bounds haddress
  | insertPeer row =>
      dsimp only [execute]
      split
      · exact h.kept trivial
      next hadd =>
        obtain ⟨hrows, hfollows⟩ := h.addPeer hready (hfits (Option.isSome_of_eq_some hadd)) hadd
        exact ⟨hrows, hfollows, trivial⟩
  | readPeerToDelete id =>
      dsimp only [execute]
      split
      · exact h.kept trivial
      · exact h.kept trivial
  | deletePeer row => exact ⟨h.follow (.same rfl rfl) rfl List.filter_sublist h.old h.queued, .same rfl rfl, trivial⟩
  | dispatchTunnel id =>
      dsimp only [execute]
      split
      · exact h.kept trivial
      · exact h.kept trivial
  | dispatchPeers tunnel =>
      dsimp only [execute]
      split
      · exact h.kept trivial
      next htask => exact h.kept (h.disjoint htask)
  | dispatchState tunnel payload =>
      exact ⟨h.mapTunnel (fun _ => rfl) (fun _ => rfl), .mapTunnel (fun _ => rfl) (fun _ => rfl), hready⟩
  | enqueue task =>
      refine ⟨⟨h.split, h.placed, h.same, h.old, h.peersOld, ?_⟩, .same rfl rfl, trivial⟩
      intro other hother
      rcases List.mem_append.mp hother with hbefore | hnew
      · exact h.queued other hbefore
      · exact List.mem_singleton.mp hnew ▸ hready
  | answered => exact h.kept trivial

theorem ready_start (request : Request) : Ready world request.start := by
  cases request with
  | createTunnel body privateKey =>
      dsimp only [Request.start]
      split
      · trivial
      · trivial
  | _ => trivial

theorem sound_next (h : Sound world) {move : Move} (hfits : Fits world move) : Sound (next world move) := by
  cases move with
  | receive request =>
      refine ⟨⟨h.split, h.placed, h.same, h.old, h.peersOld, h.queued⟩, ?_⟩
      intro statement hstatement
      rcases List.mem_append.mp hstatement with hbefore | hnew
      · exact (h.ready statement hbefore).follow (.same rfl rfl)
      · rw [List.mem_singleton.mp hnew]
        exact ready_start request
  | advance index =>
      dsimp only [next]
      split
      · exact h
      next statement hstatement =>
        have hready := h.ready statement (List.mem_of_getElem? hstatement)
        obtain ⟨hrows, hfollows, hfollowing⟩ := execute_kept h.toRows hready (hfits statement hstatement)
        refine ⟨⟨hrows.split, hrows.placed, hrows.same, hrows.old, hrows.peersOld, hrows.queued⟩, ?_⟩
        intro other hother
        rcases List.mem_or_eq_of_mem_set hother with hbefore | rfl
        · exact (h.ready other hbefore).follow ⟨hfollows.counted, hfollows.kept⟩
        · exact hfollowing.follow (.same rfl rfl)
  | cutOff index =>
      refine ⟨⟨h.split, h.placed, h.same, h.old, h.peersOld, h.queued⟩, ?_⟩
      intro statement hstatement
      rcases List.mem_or_eq_of_mem_set hstatement with hbefore | rfl
      · exact (h.ready statement hbefore).follow (.same rfl rfl)
      · trivial

/-- In a run in which every peer is inserted into a tunnel of the fourth version, or into one without another peer,
the addresses of a tunnel's peers are at every moment different, inside the network and not the server's, and no
address is allowed to two of them. -/
theorem peers_addressed (moves : List Move) (hfits : Steps.Each next Fits initial moves) :
    ∀ before, before <+: moves → Addressed (before.foldl next initial) := by
  have hkeeps : ∀ (world : World) (move : Move), Sound world → Fits world move → Sound (next world move) :=
    fun _ _ h hfit => sound_next h hfit
  intro before hbefore
  exact (Steps.each_keeps hkeeps sound_initial hfits before hbefore).addressed

omit [Runtime]

instance (world : World) (statement : Statement) : Decidable (statement.Fits world) :=
  match statement with
  | .insertPeer _ => inferInstanceAs (Decidable (_ → _ ∨ _))
  | .findTunnelName .. | .insertTunnel .. | .findTunnel _ | .updateTunnel _ | .readTunnelToDelete _ | .queueRemoval _
  | .deleteTunnel _ | .readTunnel .. | .readTaken .. | .readPeerToDelete _ | .deletePeer _ | .dispatchTunnel _
  | .dispatchPeers _ | .dispatchState .. | .enqueue _ | .answered => inferInstanceAs (Decidable True)

instance (world : World) (move : Move) : Decidable (Fits world move) :=
  match move with
  | .advance _ => inferInstanceAs (Decidable (∀ _ ∈ _, _))
  | .receive _ | .cutOff _ => inferInstanceAs (Decidable True)

/-- A tunnel is set up, and two peers are created one after the other. -/
def twoPeers (network : String) : List Move :=
  [.receive (.createTunnel ⟨"gate", "home", "gate.example", 51820, network⟩ "s")] ++ List.replicate 6 (.advance 0) ++
    [.receive (.createPeer ⟨0, "laptop"⟩ "l")] ++ List.replicate 3 (.advance 1) ++
    [.receive (.createPeer ⟨0, "phone"⟩ "p")] ++ List.replicate 3 (.advance 2)

theorem peers_addressed_fourth :
    letI := Runtime.latin
    Addressed ((twoPeers "10.99.0.0/24").foldl next initial) := by
  let _ := Runtime.latin
  exact peers_addressed (twoPeers "10.99.0.0/24") (by decide) _ (List.prefix_refl _)

/-- In `fd00::/64`, the first peer's `fd00::2/32` and the second's `fd00::3/32` are the same network. -/
theorem sixth_version_overlaps :
    letI := Runtime.latin
    ¬ ∀ before, before <+: twoPeers "fd00::/64" → Addressed (before.foldl next initial) := by
  let _ := Runtime.latin
  intro h
  have hlast := h _ (List.prefix_refl _)
  let tunnel : Tunnel :=
    ⟨0, "gate", "home", "gate.example", 51820, ⟨.v6, 0xfd00 * 2 ^ 112, 64⟩, "s", .applying⟩
  let address (host : Nat) : Host := ⟨.v6, 0xfd00 * 2 ^ 112 + host⟩
  have htunnel : tunnel ∈ ((twoPeers "fd00::/64").foldl next initial).tunnels := by decide
  have htask : asTask tunnel (((twoPeers "fd00::/64").foldl next initial).peersOf 0) =
      .ok (.apply "home" (address 1) 64 51820 "s" [⟨"laptop", "l", [allowed (address 2)]⟩,
        ⟨"phone", "p", [allowed (address 3)]⟩]) := by decide
  have hdisjoint := hlast.disjoint tunnel htunnel _ htask
  have hapart : (allowed (address 2)).Apart (allowed (address 3)) := by
    have hfirst := (List.pairwise_cons.mp hdisjoint).1 _ (List.mem_singleton_self _)
    exact hfirst _ (List.mem_singleton_self _) _ (List.mem_singleton_self _)
  exact hapart (address 2) (by decide) (by decide)

end

end OpenDirectory.Tunnels
