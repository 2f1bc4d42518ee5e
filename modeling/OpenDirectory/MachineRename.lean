import OpenDirectory.Text
import OpenDirectory.Value

/-! The console's half of a renamed machine: the account in the directory, its keys, and the records of the control
plane that name the machine by its distinguished name or by its host name. -/

namespace OpenDirectory.MachineRename

variable [Runtime]

/-- A computer object. `key` counts how often the account's keys were replaced. -/
structure Computer where
  dn : String
  samAccountName : String
  dnsHostName : String
  servicePrincipalNames : List String
  key : Nat
  deriving DecidableEq

structure Keytab where
  principals : List String
  key : Nat
  deriving DecidableEq

/-- The tables in which machines are named. -/
inductive Table where
  | computerFact
  | computerEvent
  | agentReport
  | computerLog
  | localAdministrator
  | diskRecoveryKey
  | enrolledCertificate
  | hostnameAssignment
  | nodeTask
  | gpo
  | vpnPeer
  | vpnTunnel
  | rbacAssignment
  | serverRole
  | fileShare
  | printer
  | radiusClient
  | rdCollection
  | rdCollectionHost
  | rdSession
  | passwordManager
  | pushChallenge
  | siteController
  deriving DecidableEq

/-- What can fail, from the first statement of the request to the last. -/
inductive Fault where
  | assignment
  | bind
  | lookup
  | move
  | attributes
  | computerList
  | setPassword
  | exportKeytab
  | connection
  | addresses
  | rewrite (table : Table)
  | factHostname
  | taskSubject
  | audit

inductive Failure where
  | forbidden
  | directory
  | enrolment
  | database
  deriving DecidableEq

def shortName (host : String) : String := ((Text.cut '.' host).map Prod.fst).getD host

/-- The name in its place: the same attribute and the same parent. -/
def newDn (dn newShort : String) : String :=
  let kind := ((Text.cut '=' dn).map Prod.fst).getD dn
  let parent := ((Text.cut ',' dn).map Prod.snd).getD ""
  kind ++ "=" ++ newShort ++ "," ++ parent

def principalNames (short fqdn : String) : List String :=
  ["host/" ++ short, "host/" ++ fqdn, "cifs/" ++ short, "cifs/" ++ fqdn]

/-- Gives the object a new name, and then what else names it. -/
def renameMachine (fails : Fault → Bool) (domain : String) (computer : Computer) (newShort : String) :
    Except Failure String × Computer :=
  if fails .lookup ∨ fails .move then (.error .directory, computer)
  else
    let moved := { computer with dn := newDn computer.dn newShort }
    let fqdn := lower (newShort ++ "." ++ domain)
    if fails .attributes then (.error .enrolment, moved)
    else (.ok moved.dn, { moved with
      samAccountName := newShort ++ "$"
      dnsHostName := fqdn
      servicePrincipalNames := principalNames newShort fqdn })

/-- Replaces the account's keys, and hands them out. -/
def provisionMachine (fails : Fault → Bool) (computer : Computer) (fqdn : String) : Except Failure Keytab × Computer :=
  if fails .computerList ∨ fails .setPassword then (.error .enrolment, computer)
  else
    let reset := { computer with key := computer.key + 1 }
    if fails .exportKeytab then (.error .enrolment, reset)
    else (.ok ⟨(shortName fqdn ++ "$") :: principalNames (shortName fqdn) fqdn, reset.key⟩, reset)

/-- A row, with the distinguished names and the host names of machines in it. A policy has those of its security
filter, a collection those of its brokers; of an assignment the name is the one that was assigned. -/
structure Row where
  table : Table
  dns : List String := []
  names : List String := []
  deriving DecidableEq

structure World where
  computer : Computer
  rows : List Row
  deriving DecidableEq

/-- The tables whose `computer_dn` is rewritten. -/
def Table.rewritten : Table → Bool
  | .computerFact | .computerEvent | .agentReport | .computerLog | .localAdministrator | .diskRecoveryKey
  | .enrolledCertificate | .hostnameAssignment => true
  | _ => false

def replaced (old new value : String) : String := if lower value = lower old then new else value

def Row.NamesDn (row : Row) (dn : String) : Prop := ∃ value ∈ row.dns, lower value = lower dn

def Row.NamesHost (row : Row) (host : String) : Prop := ∃ value ∈ row.names, lower value = lower host

instance (row : Row) (dn : String) : Decidable (row.NamesDn dn) := inferInstanceAs (Decidable (∃ _ ∈ _, _))

instance (row : Row) (host : String) : Decidable (row.NamesHost host) := inferInstanceAs (Decidable (∃ _ ∈ _, _))

/-- `UPDATE {table} SET computer_dn = $1 WHERE lower(computer_dn) = lower($2)`, for all eight tables. A statement that
fails is passed over. -/
def rewriteDn (fails : Fault → Bool) (oldDn newDn : String) (row : Row) : Row :=
  if row.table.rewritten ∧ ¬ fails (.rewrite row.table) then { row with dns := row.dns.map (replaced oldDn newDn) }
  else row

/-- The host name in the inventory, and after it the subject of the tasks: where the first fails, the second is not
tried. -/
def rewriteNames (fails : Fault → Bool) (oldDn newDn fqdn : String) (row : Row) : Row :=
  if fails .factHostname then row
  else if row.table = .computerFact ∧ row.NamesDn newDn then { row with names := row.names.map fun _ => fqdn }
  else if row.table = .nodeTask ∧ ¬ fails .taskSubject then { row with dns := row.dns.map (replaced oldDn newDn) }
  else row

def rewriteRow (fails : Fault → Bool) (oldDn newDn fqdn : String) (row : Row) : Row :=
  rewriteNames fails oldDn newDn fqdn (rewriteDn fails oldDn newDn row)

/-- The name the policy assigned to the machine. -/
def assigned (world : World) (wanted : String) : Bool :=
  world.rows.any fun row => row.table = .hostnameAssignment && row.NamesDn world.computer.dn && row.NamesHost wanted

structure Answer where
  hostname : String
  dn : String
  keytab : Keytab
  deriving DecidableEq

def agentRename (fails : Fault → Bool) (domain : String) (world : World) (hostname : String) :
    Except Failure Answer × World :=
  let wanted := lower hostname
  let fqdn := wanted ++ "." ++ domain
  if fails .assignment then (.error .database, world)
  else if !assigned world wanted then (.error .forbidden, world)
  else if fails .bind then (.error .directory, world)
  else match renameMachine fails domain world.computer wanted with
    | (.error failure, computer) => (.error failure, { world with computer })
    | (.ok dn, computer) => match provisionMachine fails computer fqdn with
        | (.error failure, computer) => (.error failure, { world with computer })
        | (.ok keytab, computer) =>
            let before := { world with computer }
            let after := { before with rows := world.rows.map (rewriteRow fails world.computer.dn dn fqdn) }
            if fails .connection ∨ fails .addresses then (.error .database, before)
            else if fails .audit then (.error .database, after)
            else (.ok ⟨fqdn, dn, keytab⟩, after)

/-- What names the machine in a row names it anew, and nothing names it as before. -/
structure Follows (oldDn oldHost newDn newHost : String) (row row' : Row) : Prop where
  dn : ¬ row'.NamesDn oldDn
  dnKept : row.NamesDn oldDn → row'.NamesDn newDn
  host : ¬ row'.NamesHost oldHost
  hostKept : row.NamesHost oldHost → row'.NamesHost newHost

/-- Either an error is returned and nothing is changed, or the object and every record follow. -/
def Whole (domain : String) (world : World) (hostname : String) : Except Failure Answer × World → Prop
  | (.error _, world') => world' = world
  | (.ok _, world') =>
      let wanted := lower hostname
      let fqdn := wanted ++ "." ++ domain
      let dn := newDn world.computer.dn wanted
      (world'.computer.dn = dn ∧ world'.computer.samAccountName = wanted ++ "$" ∧
        world'.computer.dnsHostName = lower fqdn) ∧
      List.Forall₂ (Follows world.computer.dn world.computer.dnsHostName dn fqdn) world.rows world'.rows

/-- Something fails before the object is given its new name, or there is no such name. -/
def Early (fails : Fault → Bool) (world : World) (hostname : String) : Prop :=
  fails .assignment ∨ ¬ assigned world (lower hostname) ∨ fails .bind ∨ fails .lookup ∨ fails .move

/-- Something fails after it that is not passed over. -/
def Late (fails : Fault → Bool) : Prop :=
  fails .attributes ∨ fails .computerList ∨ fails .setPassword ∨ fails .exportKeytab ∨ fails .connection ∨
    fails .addresses ∨ fails .audit

/-- A row that names the machine by its distinguished name is one of a table that is rewritten, and the statement does
not fail; one that names it by its host name is the machine's in the inventory. -/
def Covered (fails : Fault → Bool) (oldDn oldHost newDn : String) (row : Row) : Prop :=
  (row.NamesDn oldDn → (row.table.rewritten ∧ ¬ fails (.rewrite row.table)) ∨
    (row.table = .nodeTask ∧ ¬ fails .factHostname ∧ ¬ fails .taskSubject)) ∧
  (row.NamesHost oldHost → row.table = .computerFact ∧ ¬ fails .factHostname ∧
    (row.NamesDn oldDn ∨ row.NamesDn newDn))

variable {fails : Fault → Bool} {oldDn oldHost newDn newHost : String}

theorem mem_replaced (hchange : lower newDn ≠ lower oldDn) {values : List String} :
    (∀ value ∈ values.map (replaced oldDn newDn), lower value ≠ lower oldDn) ∧
      ((∃ value ∈ values, lower value = lower oldDn) →
        ∃ value ∈ values.map (replaced oldDn newDn), lower value = lower newDn) := by
  constructor
  · intro value hvalue
    obtain ⟨before, _, rfl⟩ := List.mem_map.mp hvalue
    unfold replaced
    split
    · exact hchange
    · assumption
  · rintro ⟨value, hvalue, hsame⟩
    exact ⟨newDn, List.mem_map.mpr ⟨value, hvalue, if_pos hsame⟩, rfl⟩

/-- Where the distinguished names of a row are rewritten. -/
def Rewrites (fails : Fault → Bool) (row : Row) : Prop :=
  (row.table.rewritten ∧ ¬ fails (.rewrite row.table)) ∨
    (row.table = .nodeTask ∧ ¬ fails .factHostname ∧ ¬ fails .taskSubject)

theorem dns_rewriteRow (row : Row) : (Rewrites fails row →
      (rewriteRow fails oldDn newDn newHost row).dns = row.dns.map (replaced oldDn newDn)) ∧
    (¬ Rewrites fails row → (rewriteRow fails oldDn newDn newHost row).dns = row.dns) := by
  unfold Rewrites rewriteRow rewriteDn rewriteNames
  cases htable : row.table <;> simp only [Table.rewritten] <;> grind

/-- The row of the machine in the inventory, when its host name is rewritten. -/
def Renames (fails : Fault → Bool) (oldDn newDn : String) (row : Row) : Prop :=
  row.table = .computerFact ∧ ¬ fails .factHostname ∧ (rewriteDn fails oldDn newDn row).NamesDn newDn

theorem names_rewriteRow (row : Row) : (Renames fails oldDn newDn row →
      (rewriteRow fails oldDn newDn newHost row).names = row.names.map fun _ => newHost) ∧
    (¬ Renames fails oldDn newDn row → (rewriteRow fails oldDn newDn newHost row).names = row.names) := by
  have htable : (rewriteDn fails oldDn newDn row).table = row.table := by
    unfold rewriteDn
    split <;> rfl
  have hnames : (rewriteDn fails oldDn newDn row).names = row.names := by
    unfold rewriteDn
    split <;> rfl
  unfold Renames rewriteRow rewriteNames
  rw [htable]
  constructor
  · rintro ⟨hfact, hfails, hnamed⟩
    rw [if_neg hfails, if_pos ⟨hfact, hnamed⟩]
    show (rewriteDn fails oldDn newDn row).names.map _ = _
    rw [hnames]
  · intro hnot
    split
    · exact hnames
    next hfails =>
      rw [if_neg fun hboth => hnot ⟨hboth.1, hfails, hboth.2⟩]
      split <;> exact hnames

theorem namesDn_rewriteDn (hchange : lower newDn ≠ lower oldDn) {row : Row} (hfact : row.table = .computerFact)
    (hcovered : row.NamesDn oldDn → Rewrites fails row) :
    (rewriteDn fails oldDn newDn row).NamesDn newDn ↔ row.NamesDn oldDn ∨ row.NamesDn newDn := by
  by_cases hfails : fails (.rewrite row.table) = true
  · have hnot : ¬ row.NamesDn oldDn := by
      intro hnamed
      rcases hcovered hnamed with ⟨_, hokay⟩ | ⟨htask, _⟩
      · exact hokay hfails
      · rw [hfact] at htask
        cases htask
    unfold rewriteDn
    rw [if_neg fun hboth => hboth.2 hfails, or_iff_right hnot]
  · have hrewritten : row.table.rewritten ∧ ¬ fails (.rewrite row.table) = true := by
      rw [hfact] at hfails ⊢
      exact ⟨rfl, hfails⟩
    unfold rewriteDn
    rw [if_pos hrewritten]
    constructor
    · rintro ⟨value, hvalue, hsame⟩
      obtain ⟨before, hbefore, rfl⟩ := List.mem_map.mp hvalue
      by_cases hold : lower before = lower oldDn
      · exact .inl ⟨before, hbefore, hold⟩
      · rw [replaced, if_neg hold] at hsame
        exact .inr ⟨before, hbefore, hsame⟩
    · rintro (hold | ⟨value, hvalue, hsame⟩)
      · exact (mem_replaced hchange).2 hold
      · refine ⟨value, List.mem_map.mpr ⟨value, hvalue, ?_⟩, hsame⟩
        rw [replaced, if_neg (hsame ▸ hchange)]

theorem row_follows_iff (hdn : lower newDn ≠ lower oldDn) (hhost : lower newHost ≠ lower oldHost) (row : Row) :
    Follows oldDn oldHost newDn newHost row (rewriteRow fails oldDn newDn newHost row) ↔
      Covered fails oldDn oldHost newDn row := by
  have hdns := @dns_rewriteRow _ fails oldDn newDn newHost row
  have hnames := @names_rewriteRow _ fails oldDn newDn newHost row
  constructor
  · intro h
    have hcovered : row.NamesDn oldDn → Rewrites fails row := by
      intro hnamed
      by_contra hnot
      apply h.dn
      rw [Row.NamesDn, hdns.2 hnot]
      exact hnamed
    refine ⟨hcovered, ?_⟩
    intro hnamed
    by_contra hnot
    apply h.host
    rw [Row.NamesHost, hnames.2]
    · exact hnamed
    · rintro ⟨hfact, hfails, hfound⟩
      exact hnot ⟨hfact, hfails, (namesDn_rewriteDn hdn hfact hcovered).mp hfound⟩
  · rintro ⟨hcovered, hreached⟩
    constructor
    · by_cases hrewrites : Rewrites fails row
      · rw [Row.NamesDn, hdns.1 hrewrites]
        rintro ⟨value, hvalue, hsame⟩
        exact (mem_replaced hdn).1 value hvalue hsame
      · rw [Row.NamesDn, hdns.2 hrewrites]
        exact fun hnamed => hrewrites (hcovered hnamed)
    · intro hnamed
      rw [Row.NamesDn, hdns.1 (hcovered hnamed)]
      exact (mem_replaced hdn).2 hnamed
    · by_cases hrenames : Renames fails oldDn newDn row
      · rw [Row.NamesHost, hnames.1 hrenames]
        rintro ⟨value, hvalue, hsame⟩
        obtain ⟨_, _, rfl⟩ := List.mem_map.mp hvalue
        exact hhost hsame
      · rw [Row.NamesHost, hnames.2 hrenames]
        intro hnamed
        obtain ⟨hfact, hfails, hfound⟩ := hreached hnamed
        exact hrenames ⟨hfact, hfails, (namesDn_rewriteDn hdn hfact hcovered).mpr hfound⟩
    · intro hnamed
      obtain ⟨hfact, hfails, hfound⟩ := hreached hnamed
      have hrenames : Renames fails oldDn newDn row :=
        ⟨hfact, hfails, (namesDn_rewriteDn hdn hfact hcovered).mpr hfound⟩
      rw [Row.NamesHost, hnames.1 hrenames]
      obtain ⟨value, hvalue, _⟩ := hnamed
      exact ⟨newHost, List.mem_map.mpr ⟨value, hvalue, rfl⟩, rfl⟩

/-- The object as it is after the rename. -/
def Computer.renamed (computer : Computer) (domain wanted : String) : Computer where
  dn := MachineRename.newDn computer.dn wanted
  samAccountName := wanted ++ "$"
  dnsHostName := lower (wanted ++ "." ++ domain)
  servicePrincipalNames := principalNames wanted (lower (wanted ++ "." ++ domain))
  key := computer.key + 1

section
variable {domain hostname : String} {world : World}

theorem agentRename_early (h : Early fails world hostname) :
    ∃ failure, agentRename fails domain world hostname = (.error failure, world) := by
  unfold agentRename renameMachine
  by_cases hassignment : fails .assignment = true
  · exact ⟨.database, by simp [hassignment]⟩
  by_cases hassigned : assigned world (lower hostname) = true
  · by_cases hbind : fails .bind = true
    · exact ⟨.directory, by simp [hassignment, hassigned, hbind]⟩
    · have hmove : fails .lookup = true ∨ fails .move = true := by
        unfold Early at h
        tauto
      exact ⟨.directory, by simp [hassignment, hassigned, hbind, hmove]⟩
  · exact ⟨.forbidden, by simp [hassignment, hassigned]⟩

theorem agentRename_moved (hearly : ¬ Early fails world hostname) : agentRename fails domain world hostname =
    let moved := { world.computer with dn := MachineRename.newDn world.computer.dn (lower hostname) }
    let named := { world.computer.renamed domain (lower hostname) with key := world.computer.key }
    if fails .attributes then (.error .enrolment, { world with computer := moved })
    else match provisionMachine fails named (lower hostname ++ "." ++ domain) with
      | (.error failure, computer) => (.error failure, { world with computer })
      | (.ok keytab, computer) =>
          let before := { world with computer }
          let after := { before with rows := world.rows.map (rewriteRow fails world.computer.dn moved.dn
            (lower hostname ++ "." ++ domain)) }
          if fails .connection ∨ fails .addresses then (.error .database, before)
          else if fails .audit then (.error .database, after)
          else (.ok ⟨lower hostname ++ "." ++ domain, moved.dn, keytab⟩, after) := by
  unfold Early at hearly
  simp only [not_or, Bool.not_eq_true] at hearly
  obtain ⟨hassignment, hassigned, hbind, hlookup, hmove⟩ := hearly
  unfold agentRename renameMachine
  simp only [hassignment, hassigned, hbind, hlookup, hmove, Bool.false_eq_true, if_false, Bool.not_true, or_self]
  by_cases hattributes : fails .attributes = true
  · simp only [hattributes, if_true]
  · simp only [hattributes]
    rfl

theorem agentRename_late (hearly : ¬ Early fails world hostname) (hlate : Late fails) :
    ∃ failure world', agentRename fails domain world hostname = (.error failure, world') ∧
      world'.computer.dn = MachineRename.newDn world.computer.dn (lower hostname) := by
  rw [agentRename_moved hearly]
  unfold provisionMachine
  by_cases hattributes : fails .attributes = true
  · exact ⟨.enrolment, _, by simp [hattributes]; rfl, rfl⟩
  by_cases hpassword : fails .computerList = true ∨ fails .setPassword = true
  · exact ⟨.enrolment, _, by simp [hattributes, hpassword]; rfl, rfl⟩
  by_cases hkeytab : fails .exportKeytab = true
  · exact ⟨.enrolment, _, by simp [hattributes, hpassword, hkeytab]; rfl, rfl⟩
  by_cases hrows : fails .connection = true ∨ fails .addresses = true
  · exact ⟨.database, _, by simp [hattributes, hpassword, hkeytab, hrows]; rfl, rfl⟩
  have haudit : fails .audit = true := by
    unfold Late at hlate
    tauto
  exact ⟨.database, _, by simp [hattributes, hpassword, hkeytab, hrows, haudit]; rfl, rfl⟩

theorem agentRename_done (hearly : ¬ Early fails world hostname) (hlate : ¬ Late fails) :
    ∃ answer, agentRename fails domain world hostname = (.ok answer,
      ⟨world.computer.renamed domain (lower hostname), world.rows.map (rewriteRow fails world.computer.dn
        (MachineRename.newDn world.computer.dn (lower hostname)) (lower hostname ++ "." ++ domain))⟩) := by
  unfold Late at hlate
  simp only [not_or, Bool.not_eq_true] at hlate
  obtain ⟨hattributes, hlist, hpassword, hkeytab, hconnection, haddresses, haudit⟩ := hlate
  rw [agentRename_moved hearly]
  unfold provisionMachine
  simp only [hattributes, hlist, hpassword, hkeytab, hconnection, haddresses, haudit, Bool.false_eq_true, if_false,
    or_self]
  exact ⟨_, rfl⟩

end

/-- A rename is made as a whole, or not at all, exactly when it fails before the object is given its new name, or when
nothing fails after that which is not passed over and every record that names the machine is reached. -/
theorem whole_iff (fails : Fault → Bool) (domain : String) (world : World) (hostname : String)
    (hdn : lower (MachineRename.newDn world.computer.dn (lower hostname)) ≠ lower world.computer.dn)
    (hhost : lower (lower hostname ++ "." ++ domain) ≠ lower world.computer.dnsHostName) :
    Whole domain world hostname (agentRename fails domain world hostname) ↔
      Early fails world hostname ∨ (¬ Late fails ∧ ∀ row ∈ world.rows, Covered fails world.computer.dn
        world.computer.dnsHostName (MachineRename.newDn world.computer.dn (lower hostname)) row) := by
  by_cases hearly : Early fails world hostname
  · refine iff_of_true ?_ (.inl hearly)
    obtain ⟨failure, hresult⟩ := @agentRename_early _ fails domain hostname world hearly
    rw [hresult]
    exact rfl
  rw [or_iff_right hearly]
  by_cases hlate : Late fails
  · refine iff_of_false ?_ fun h => h.1 hlate
    obtain ⟨failure, world', hresult, hmoved⟩ := @agentRename_late _ fails domain hostname world hearly hlate
    rw [hresult]
    rintro rfl
    exact hdn (congrArg lower hmoved.symm)
  · rw [and_iff_right hlate]
    obtain ⟨answer, hresult⟩ := @agentRename_done _ fails domain hostname world hearly hlate
    rw [hresult]
    show _ ∧ _ ↔ _
    rw [and_iff_right ⟨rfl, rfl, rfl⟩, List.forall₂_map_right_iff, List.forall₂_same]
    constructor
    · exact fun h row hrow => (row_follows_iff hdn hhost row).mp (h row hrow)
    · exact fun h row hrow => (row_follows_iff hdn hhost row).mpr (h row hrow)

instance (row : Row) : Decidable (Covered fails oldDn oldHost newDn row) :=
  inferInstanceAs (Decidable ((_ → (_ ∧ _) ∨ (_ ∧ _ ∧ _)) ∧ (_ → _ ∧ _ ∧ (_ ∨ _))))

def workstation : Computer where
  dn := "CN=ws01,OU=Desks,DC=example"
  samAccountName := "ws01$"
  dnsHostName := "ws01.example"
  servicePrincipalNames := principalNames "ws01" "ws01.example"
  key := 1

/-- The machine has reported its inventory and is assigned a name. -/
def reported : List Row := [
  { table := .computerFact, dns := ["CN=ws01,OU=Desks,DC=example"], names := ["ws01.example"] },
  { table := .hostnameAssignment, dns := ["CN=ws01,OU=Desks,DC=example"], names := ["ws02"] }]

section
omit [Runtime]

theorem reported_covered :
    letI := Runtime.latin
    ∀ row ∈ reported, Covered (fun _ => false) workstation.dn workstation.dnsHostName
      (MachineRename.newDn workstation.dn (lower "WS02")) row := by decide

theorem whole_reported :
    letI := Runtime.latin
    Whole "example" ⟨workstation, reported⟩ "WS02"
      (agentRename (fun _ => false) "example" ⟨workstation, reported⟩ "WS02") := by
  let _ := Runtime.latin
  have hlate : ¬ Late fun _ => false := by simp [Late]
  exact (whole_iff (fun _ => false) "example" ⟨workstation, reported⟩ "WS02" (by decide)
    (by decide)).mpr (.inr ⟨hlate, reported_covered⟩)

/-- Nothing fails, and the peer of the machine still has its old distinguished name. -/
theorem peer_not_renamed :
    letI := Runtime.latin
    ¬ Whole "example" ⟨workstation, { table := .vpnPeer, dns := ["CN=ws01,OU=Desks,DC=example"] } :: reported⟩ "ws02"
      (agentRename (fun _ => false) "example"
        ⟨workstation, { table := .vpnPeer, dns := ["CN=ws01,OU=Desks,DC=example"] } :: reported⟩ "ws02") := by
  let _ := Runtime.latin
  have hresult : agentRename (fun _ => false) "example"
      ⟨workstation, { table := .vpnPeer, dns := ["CN=ws01,OU=Desks,DC=example"] } :: reported⟩ "ws02" =
      (.ok ⟨"ws02.example", "CN=ws02,OU=Desks,DC=example", ⟨"ws02$" :: principalNames "ws02" "ws02.example", 2⟩⟩,
        ⟨⟨"CN=ws02,OU=Desks,DC=example", "ws02$", "ws02.example", principalNames "ws02" "ws02.example", 2⟩, [
          { table := .vpnPeer, dns := ["CN=ws01,OU=Desks,DC=example"] },
          { table := .computerFact, dns := ["CN=ws02,OU=Desks,DC=example"], names := ["ws02.example"] },
          { table := .hostnameAssignment, dns := ["CN=ws02,OU=Desks,DC=example"], names := ["ws02"] }]⟩) := by
    decide
  rw [hresult]
  rintro ⟨_, hrows⟩
  obtain ⟨hpeer, _⟩ := List.forall₂_cons.mp hrows
  exact hpeer.dn ⟨_, List.mem_singleton_self _, rfl⟩

end

end OpenDirectory.MachineRename
