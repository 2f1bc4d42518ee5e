import OpenDirectory.AcceptedTasks
import OpenDirectory.AgentApply

/-! Configurations that the service they are for can check: the sign-ins sshd refuses, the rules of the RADIUS server, and
the routing of a remote desktop broker. Each is written where the service reads it, and checked there. -/

namespace OpenDirectory.CheckedConfigs

open Agent (Files HbacRule header sshdDropIn sshdRules)

/-- What the RADIUS server is told. The rules and its clients are rendered by the console. -/
structure RadiusTask where
  clients : String
  policies : String
  caPem : String := ""
  serverCertificate : Bool := false

/-- The parts of an agent that are not its files: how certificates are read and had. -/
structure Authority where
  issuedBy : String → String → Bool
  /-- Nothing where certificates cannot be asked for, an error where none is issued. -/
  certificate : Option (Except String (String × String))

def radiusClientsPath : String := "/etc/freeradius/3.0/odm/clients.conf"

def radiusPoliciesPath : String := "/etc/freeradius/3.0/odm/policy.conf"

def radiusCAPath : String := "/etc/freeradius/3.0/odm/tls/ca.pem"

def radiusServerCertPath : String := "/etc/freeradius/3.0/odm/tls/server.pem"

def radiusServerKeyPath : String := "/etc/freeradius/3.0/odm/tls/server.key"

def rdBrokerConfig : String := "/etc/haproxy/conf.d/odm-remote-desktop.cfg"

/-- A certificate of the server's own, where one is wanted and the one there is of another authority. -/
def serverWrites (authority : Authority) (files : Files) (task : RadiusTask) : List (String × String) :=
  if task.serverCertificate && !authority.issuedBy ((files radiusServerCertPath).getD "") task.caPem then
    match authority.certificate with
    | some (.ok (certPem, keyPem)) => [(radiusServerKeyPath, keyPem), (radiusServerCertPath, certPem)]
    | _ => []
  else []

def radiusWrites (authority : Authority) (files : Files) (task : RadiusTask) : List (String × String) :=
  [(radiusClientsPath, task.clients), (radiusPoliciesPath, task.policies)] ++
    if task.caPem ≠ "" then (radiusCAPath, task.caPem) :: serverWrites authority files task else []

def peerPort : Nat := 10389

def frontend (balance : String) (affinity : Nat) (shared : String) : String :=
  "frontend odm_rd
    bind *:3389
    mode tcp
    option tcplog
    timeout client 1h
    default_backend odm_rd_hosts

backend odm_rd_hosts
    mode tcp
    # Where somebody with no session yet goes. They can land on any host in
    # the collection because their profile is a disk on the share rather than
    # files on one machine.
    balance " ++ balance ++ "
    timeout server 1h
    # And where somebody who already has one goes: back to the same host. An
    # RDP client sends the user name in its first packet, and keeping that
    # against the host it went to is what makes a reconnect resume the session
    # somebody left rather than open a second one beside it.
    #
    # The window is the collection's own disconnected timeout. An entry that
    # expired first would send somebody to a host that cannot mount their
    # profile, because the host still holding the session still has it.
    stick-table type string len 64 size 10k expire " ++ toString affinity ++ "m" ++ shared ++ "
    stick on req.rdp_cookie(mstshash)
    tcp-request inspect-delay 5s
    tcp-request content accept if RDP_COOKIE
"

def serverLine (index : Nat) (server : RemoteDesktop.Server) : String :=
  "    server host" ++ toString (index + 1) ++ " " ++ server.host ++ ":" ++ toString server.port ++ " check inter 10s" ++
    (if server.acceptsNew then "" else " weight 0") ++ "\n"

def peerLine (peer : String × String) : String :=
  "    peer " ++ peer.1 ++ " " ++ peer.2 ++ ":" ++ toString peerPort ++ "\n"

/-- Two brokers keep one table between them. -/
def brokerConfig (task : RemoteDesktop.BrokerTask) (hosts : List RemoteDesktop.Server) (peers : List (String × String)) :
    String :=
  header ++ "# Collection: " ++ task.collection ++ "\n\n" ++
    (if 1 < peers.length then "peers odm_rd\n" ++ String.join (peers.map peerLine) ++ "\n" else "") ++
    if hosts = [] then "# No session hosts in this collection; nothing is served.\n"
    else frontend (RemoteDesktop.balanceMethod task.balanceMethod) task.affinityMinutes
        (if 1 < peers.length then " peers odm_rd" else "") ++
      String.join (hosts.mapIdx serverLine)

inductive Config where
  | sshd (rules : List HbacRule)
  | radius (task : RadiusTask)
  | broker (task : RemoteDesktop.BrokerTask)

/-- Why a configuration is not in use. -/
inductive Problem where
  | refused
  | writing (path : String)
  | rejected
  | reload

/-- A policy without rules for signing in asks for nothing. -/
def Config.asks : Config → Bool
  | .sshd rules => rules ≠ []
  | _ => true

/-- What is written, each path with its text and in order. Nothing is where the request is refused. -/
def writesOf (authority : Authority) (files : Files) : Config → Option (List (String × String))
  | .sshd rules => if rules = [] then none else some [(sshdDropIn, sshdRules rules)]
  | .radius task =>
      if task.clients = "" ∧ task.policies = "" then none else some (radiusWrites authority files task)
  | .broker task =>
      match AcceptedTasks.applyBroker task with
      | .error _ => none
      | .ok (hosts, peers) => some [(rdBrokerConfig, brokerConfig task hosts peers)]

/-- The machine around the files: which writes fail, what the service's own check says of the files, and whether it can be
loaded again. -/
structure Service where
  fails : String → Bool
  accepts : Files → Bool
  reloads : Bool

def put (files : Files) (writes : List (String × String)) : Files :=
  writes.foldl (fun files write => Function.update files write.1 (some write.2)) files

def writeAll (service : Service) : Files → List (String × String) → Files × Option Problem
  | files, [] => (files, none)
  | files, (path, body) :: writes =>
      if service.fails path then (files, some (.writing path))
      else writeAll service (Function.update files path (some body)) writes

/-- `sshd -t`, `freeradius -CX` or `haproxy -c` comes after the last write. -/
def install (authority : Authority) (service : Service) (files : Files) (config : Config) : Files × Option Problem :=
  match writesOf authority files config with
  | none => (files, if config.asks then some .refused else none)
  | some writes =>
      match writeAll service files writes with
      | (after, some problem) => (after, some problem)
      | (after, none) =>
          if !service.accepts after then (after, some .rejected)
          else if !service.reloads then (after, some .reload)
          else (after, none)

/-- The check is come to, and the service does not take what was written. -/
def Rejects (authority : Authority) (service : Service) (files : Files) (config : Config) : Prop :=
  ∃ writes, writesOf authority files config = some writes ∧ (∀ write ∈ writes, service.fails write.1 = false) ∧
    service.accepts (put files writes) = false

/-- What is rejected is not left there, and is reported. -/
def Restores (authority : Authority) (service : Service) (files : Files) (config : Config) : Prop :=
  Rejects authority service files config →
    (install authority service files config).1 = files ∧ (install authority service files config).2 ≠ none

/-- Every file holds what is written into it already. -/
def InPlace (authority : Authority) (files : Files) (config : Config) : Prop :=
  ∀ writes, writesOf authority files config = some writes → ∀ write ∈ writes, files write.1 = some write.2

variable {authority : Authority} {service : Service} {files : Files} {config : Config}

theorem nodup_radiusWrites (authority : Authority) (files : Files) (task : RadiusTask) :
    ((radiusWrites authority files task).map Prod.fst).Nodup := by
  have hserver : (serverWrites authority files task).map Prod.fst = [] ∨
      (serverWrites authority files task).map Prod.fst = [radiusServerKeyPath, radiusServerCertPath] := by
    unfold serverWrites
    split
    · split
      · exact .inr rfl
      · exact .inl rfl
    · exact .inl rfl
  have hpaths : (radiusWrites authority files task).map Prod.fst = [radiusClientsPath, radiusPoliciesPath] ++
      if task.caPem ≠ "" then radiusCAPath :: (serverWrites authority files task).map Prod.fst else [] := by
    unfold radiusWrites
    split <;> rfl
  rw [hpaths]
  split
  · rcases hserver with h | h
    · rw [h]
      decide +kernel
    · rw [h]
      decide +kernel
  · decide +kernel

variable {writes : List (String × String)}

theorem nodup_writes (h : writesOf authority files config = some writes) :
    (writes.map Prod.fst).Nodup := by
  cases config with
  | sshd rules =>
      dsimp only [writesOf] at h
      split at h
      · cases h
      · rw [← Option.some.inj h]
        exact List.nodup_singleton _
  | radius task =>
      dsimp only [writesOf] at h
      split at h
      · cases h
      · rw [← Option.some.inj h]
        exact nodup_radiusWrites authority files task
  | broker task =>
      dsimp only [writesOf] at h
      split at h
      · cases h
      · rw [← Option.some.inj h]
        exact List.nodup_singleton _

theorem put_of_ne {path : String} (h : path ∉ writes.map Prod.fst) (files : Files) :
    put files writes path = files path := by
  induction writes generalizing files with
  | nil => rfl
  | cons write writes ih =>
      rw [List.map_cons, List.mem_cons, not_or] at h
      have hcons : put files (write :: writes) = put (Function.update files write.1 (some write.2)) writes := rfl
      rw [hcons, ih h.2, Function.update_of_ne h.1]

theorem put_eq_iff (h : (writes.map Prod.fst).Nodup) (files : Files) :
    put files writes = files ↔ ∀ write ∈ writes, files write.1 = some write.2 := by
  induction writes generalizing files with
  | nil => simp [put]
  | cons write writes ih =>
      obtain ⟨hfresh, hrest⟩ := List.nodup_cons.mp h
      have hcons : put files (write :: writes) = put (Function.update files write.1 (some write.2)) writes := rfl
      rw [hcons, List.forall_mem_cons]
      constructor
      · intro heq
        have hhere : files write.1 = some write.2 := by
          rw [← heq, put_of_ne hfresh, Function.update_self]
        rw [← hhere, Function.update_eq_self] at heq
        exact ⟨hhere, (ih hrest files).mp heq⟩
      · intro hall
        rw [← hall.1, Function.update_eq_self]
        exact (ih hrest files).mpr hall.2

theorem writeAll_eq (h : ∀ write ∈ writes, service.fails write.1 = false)
    (files : Files) : writeAll service files writes = (put files writes, none) := by
  induction writes generalizing files with
  | nil => rfl
  | cons write writes ih =>
      obtain ⟨hwrite, hrest⟩ := List.forall_mem_cons.mp h
      rw [writeAll, hwrite, if_neg Bool.false_ne_true, ih hrest]
      rfl

theorem install_of_rejects (hwrites : writesOf authority files config = some writes)
    (hfails : ∀ write ∈ writes, service.fails write.1 = false) (haccepts : service.accepts (put files writes) = false) :
    install authority service files config = (put files writes, some .rejected) := by
  unfold install
  rw [hwrites]
  dsimp only
  rw [writeAll_eq hfails]
  dsimp only
  rw [haccepts]
  rfl

/-- A configuration the service does not take stays where it was written. -/
theorem restores_iff (authority : Authority) (service : Service) (files : Files) (config : Config) :
    Restores authority service files config ↔
      ¬ Rejects authority service files config ∨ InPlace authority files config := by
  constructor
  · intro h
    by_cases hrejects : Rejects authority service files config
    · right
      intro writes hwrites
      obtain ⟨writes', hwrites', hfails, haccepts⟩ := hrejects
      obtain rfl := Option.some.inj (hwrites.symm.trans hwrites')
      have hrestored := (h ⟨_, hwrites, hfails, haccepts⟩).1
      rw [install_of_rejects hwrites hfails haccepts] at hrestored
      exact (put_eq_iff (nodup_writes hwrites) files).mp hrestored
    · exact .inl hrejects
  · intro h hrejects
    have hplace := h.resolve_left (not_not.mpr hrejects)
    obtain ⟨writes, hwrites, hfails, haccepts⟩ := hrejects
    rw [install_of_rejects hwrites hfails haccepts]
    exact ⟨(put_eq_iff (nodup_writes hwrites) files).mpr (hplace writes hwrites), Option.some_ne_none _⟩

/-- Where sshd has no host keys its check fails, and the rules stay there all the same. -/
theorem rejected_stays : ¬ Restores ⟨fun _ _ => false, none⟩ ⟨fun _ => false, fun _ => false, true⟩ (fun _ => none)
    (.sshd [{ principal := "ada", access := "deny" }]) := by
  intro h
  have hrestored := (h ⟨_, rfl, fun _ _ => rfl, rfl⟩).1
  exact absurd (congrFun hrestored sshdDropIn) (by decide +kernel)

end OpenDirectory.CheckedConfigs
