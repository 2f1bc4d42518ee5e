import OpenDirectory.Text
import OpenDirectory.Value

/-! Which objects and computers a request of the console may act on. A route asks for a permission over
the whole domain before its body runs, the body asks for one over the name the request gives, and a
request for many asks in a loop; what is acted on is what the name finds. -/

namespace OpenDirectory.Delegation

variable [Runtime]

structure Grant where
  scopeDn : String
  permissions : List String

def Grant.covers (grant : Grant) (permission : String) : Bool :=
  "*" ∈ grant.permissions || permission ∈ grant.permissions

/-- A scope covers itself and everything whose name ends in it; the domain as a whole is reached from the
domain head. -/
def Grant.reaches (grant : Grant) (dn : Option String) (baseDn : String) : Bool :=
  match dn with
  | none => lower grant.scopeDn = lower baseDn
  | some dn => lower dn = lower grant.scopeDn || Text.endsWith (lower dn) ("," ++ lower grant.scopeDn)

structure Authz where
  domainAdmin : Bool
  grants : List Grant
  baseDn : String

def Authz.allows (authz : Authz) (permission : String) (dn : Option String) : Bool :=
  authz.domainAdmin ||
    authz.grants.any fun grant => grant.covers permission && grant.reaches dn authz.baseDn

/-- One thing a request would act on: the name it is asked for under, the object found under that name,
and the permissions the body asks for over the name. -/
structure Item where
  named : String
  object : String
  permissions : List String
  deriving DecidableEq

/-- The permissions asked for over the domain, those asked for before anything is done, and the loop over
the items, where a refusal either skips its item or ends the request. -/
structure Asked where
  wide : List String := []
  first : List (String × String) := []
  items : List Item := []
  skips : Bool := false

def Authz.passes (authz : Authz) (item : Item) : Bool :=
  item.permissions.all fun permission => authz.allows permission (some item.named)

/-- The items a request acts on. -/
def Authz.permitted (authz : Authz) (asked : Asked) : List Item :=
  if (asked.wide.all fun permission => authz.allows permission none) &&
      asked.first.all fun need => authz.allows need.1 (some need.2) then
    if asked.skips then asked.items.filter authz.passes else asked.items.takeWhile authz.passes
  else []

/-- What the routes look up: the machines that reported, the types of the objects in the directory and
whether a change of one goes through, the containers of the policy links and the deleted objects. -/
structure Site where
  facts : List (String × String)
  objectType : String → Option String
  changes : String → Bool
  linkTarget : String → Option String
  deleted : String → Option String

def firstName (dn : String) : String := (Text.split ',' dn).headD ""

/-- `HOSTNAME_BY_DN`: the machine of that name, or one of the same first name elsewhere. -/
def Site.byDn (site : Site) (dn : String) : Option String :=
  ((site.facts.find? fun fact => lower fact.1 = lower dn).or
    (site.facts.find? fun fact => lower (firstName fact.1) = lower (firstName dn))).map Prod.fst

def Site.byHostname (site : Site) (node : String) : Option String :=
  (site.facts.find? fun fact => lower fact.2 = lower node).map Prod.fst

def writePermission (objectType : String) : String :=
  match objectType with
  | "user" => "user.write"
  | "group" => "group.write"
  | "computer" => "computer.write"
  | "ou" => "ou.write"
  | _ => "*"

def powerActions : List String := ["restart", "shutdown"]

/-- The routes that name a computer as a node and ask for their permission over the domain alone. -/
inductive NodeRoute where
  | discoveredDevices
  | discover
  | createPrinter
  | createShare
  | createClient
  | createCollection
  | addHost
  | removeHost
  | drainHost
  | listProfileDisks
  | manageProfileDisk
  | createTunnel

def NodeRoute.permission : NodeRoute → String
  | discoveredDevices | discover => "printer.read"
  | createPrinter => "printer.write"
  | createShare => "share.write"
  | createClient => "radius.write"
  | createCollection | addHost | removeHost | drainHost | manageProfileDisk => "rd.write"
  | listProfileDisks => "rd.read"
  | createTunnel => "vpn.write"

inductive Request where
  | tree
  | listObjects (container : Option String)
  | readObject (dn : String)
  | readMembership (dn : String)
  | createUser (container : String)
  | createGroup (container : String)
  | createComputer (container : String)
  | createOu (container : String)
  | bulkCreateUsers (containers : List String)
  | updateObject (dn : String)
  | moveObject (dn targetContainer : String)
  | setEnabled (dn : String)
  | setPhoto (dn : String)
  | setPassword (dn : String)
  | setGroupKind (dn : String)
  | editMembers (dn : String)
  | deleteObject (dn : String)
  | offboardUser (dn moveTo : String)
  | bulkChange (dns addGroups removeGroups : List String) (moveTo : Option String)
  | saveGroupQuery (groupDn : String)
  | deleteGroupQuery (groupDn : String)
  | userSecondFactor (dn : String)
  | resetUserSecondFactor (dn : String)
  | computerDetail (dn : String)
  | runAction (dn action : String)
  | browseComputer (node : String)
  | sendMessage (dns : List String)
  | assist (dn : String)
  | setPermissions (node : String)
  | runShell (dn : String)
  | openShellSession (dn : String)
  | localAdministrator (dn : String)
  | computerLogs (dn : String)
  | runBulkAction (dns : List String) (action : String)
  | diskEncryption (dn : String)
  | escrowRecoveryKey (dn : String)
  | revealRecoveryKey (dn : String)
  | activity (dn : Option String)
  | listLinks (targetDn : Option String)
  | createLink (targetDn : String)
  | updateLink (id : String)
  | deleteLink (id : String)
  | setInheritance (ouDn : String)
  | effective (dn : String)
  | model (dn : String)
  | reports (computerDn : Option String)
  | readDeleted (id : String)
  | restore (id : String)
  | purge (id : String)
  | assignController (controllerDn : String)
  | onNode (route : NodeRoute) (node : String)

/-- The body asks for the permission over the object the request names. -/
def overObject (permission dn : String) : Asked where
  items := [⟨dn, dn, [permission]⟩]

/-- Only the route asks, over the domain. -/
def domainWide (permission : String) (dn : Option String) : Asked where
  wide := [permission]
  items := dn.toList.map fun dn => ⟨dn, dn, []⟩

/-- The route asks over the domain and the body over the name, which a machine is found under. -/
def onMachine (permission dn : String) (found : Option String) : Asked where
  wide := [permission]
  items := found.toList.map fun object => ⟨dn, object, [permission]⟩

/-- Machines named by host name are asked for under the object they reported. -/
def onHost (permission : String) (found : Option String) : Asked where
  wide := [permission]
  items := found.toList.map fun object => ⟨object, object, [permission]⟩

def ofType (site : Site) (dn : String) : Asked where
  items := (site.objectType dn).toList.map fun objectType => ⟨dn, dn, [writePermission objectType]⟩

/-- The change of one object in a bulk change, and its move, which is asked for only then. -/
def changeItems (site : Site) (moveTo : Option String) (dn : String) : List Item :=
  match site.objectType dn with
  | none => []
  | some objectType =>
      ⟨dn, dn, [writePermission objectType]⟩ ::
        if moveTo.isSome && site.changes dn then
          [⟨dn, dn, [writePermission objectType, "object.move"]⟩]
        else []

def Request.asked (site : Site) (baseDn : String) : Request → Asked
  | tree => overObject "directory.read" baseDn
  | listObjects container => overObject "directory.read" ((container.filter (· ≠ "")).getD baseDn)
  | readObject dn => overObject "directory.read" dn
  | readMembership dn => overObject "directory.read" dn
  | createUser container => overObject "user.write" container
  | createGroup container => overObject "group.write" container
  | createComputer container => overObject "computer.write" container
  | createOu container => overObject "ou.write" container
  | bulkCreateUsers containers =>
      { first := containers.map fun container => ("user.write", container)
        items := containers.map fun container => ⟨container, container, []⟩ }
  | updateObject dn => ofType site dn
  | moveObject dn targetContainer =>
      { overObject "object.move" dn with first := [("object.move", targetContainer)] }
  | setEnabled dn => ofType site dn
  | setPhoto dn => overObject "user.write" dn
  | setPassword dn => overObject "user.password.reset" dn
  | setGroupKind dn => overObject "group.write" dn
  | editMembers dn => overObject "group.member.write" dn
  | deleteObject dn => overObject "object.delete" dn
  | offboardUser dn moveTo =>
      { overObject "user.write" dn with
        wide := ["user.write"]
        first := if moveTo = "" then [] else [("object.move", moveTo)] }
  | bulkChange dns addGroups removeGroups moveTo =>
      { first := (addGroups ++ removeGroups).map (fun group => ("group.member.write", group)) ++
          moveTo.toList.map fun container => ("object.move", container)
        items := dns.flatMap (changeItems site moveTo) }
  | saveGroupQuery groupDn => { overObject "group.member.write" groupDn with wide := ["group.query.write"] }
  | deleteGroupQuery groupDn => { overObject "group.member.write" groupDn with wide := ["group.query.write"] }
  | userSecondFactor dn => overObject "directory.read" dn
  | resetUserSecondFactor dn => overObject "user.password.reset" dn
  | computerDetail dn => domainWide "server.read" ((site.byDn dn).getD dn)
  | runAction dn action =>
      { wide := ["computer.manage"]
        items := (site.byDn dn).toList.map fun object =>
          ⟨dn, object, if action ∈ powerActions then ["computer.power"] else []⟩ }
  | browseComputer node => onHost "computer.manage" (site.byHostname node)
  | sendMessage dns =>
      { wide := ["computer.manage"]
        items := dns.map fun dn => ⟨dn, (site.byDn dn).getD dn, ["computer.manage"]⟩ }
  | assist dn => onMachine "computer.shell" dn (site.byDn dn)
  | setPermissions node => onHost "computer.manage" (site.byHostname node)
  | runShell dn => onMachine "computer.shell" dn (site.byDn dn)
  | openShellSession dn => onMachine "computer.shell" dn (site.byDn dn)
  | localAdministrator dn => domainWide "computer.localadmin.read" dn
  | computerLogs dn => domainWide "server.read" dn
  | runBulkAction dns action =>
      -- Power is asked for over the domain first, and over each machine.
      { wide := if action ∈ powerActions then ["computer.manage", "computer.power"] else ["computer.manage"]
        items := dns.eraseDups.map fun dn => ⟨dn, (site.byDn dn).getD dn,
          if action ∈ powerActions then ["computer.manage", "computer.power"] else ["computer.manage"]⟩
        skips := true }
  | diskEncryption dn => onMachine "computer.encryption.read" dn (some dn)
  | escrowRecoveryKey dn => onMachine "computer.encryption.escrow" dn (site.byDn dn)
  | revealRecoveryKey dn => onMachine "computer.encryption.escrow" dn (some dn)
  | activity dn =>
      match dn.filter (· ≠ "") with
      | some dn => overObject "directory.read" dn
      | none => { wide := ["audit.read"] }
  | listLinks targetDn => domainWide "gpo.read" targetDn
  | createLink targetDn => domainWide "gpo.write" targetDn
  | updateLink id => domainWide "gpo.write" (site.linkTarget id)
  | deleteLink id => domainWide "gpo.write" (site.linkTarget id)
  | setInheritance ouDn => domainWide "gpo.write" ouDn
  | effective dn => domainWide "gpo.read" dn
  | model dn => domainWide "policy.model" dn
  | reports computerDn => domainWide "gpo.read" computerDn
  | readDeleted id => domainWide "recyclebin.read" (site.deleted id)
  | restore id => domainWide "recyclebin.restore" (site.deleted id)
  | purge id => domainWide "recyclebin.purge" (site.deleted id)
  | assignController controllerDn => domainWide "site.write" controllerDn
  | onNode route node => domainWide route.permission (site.byHostname node)

/-- The names before a comma end there: the comma is not escaped. -/
def closed : Bool → List Char → Bool
  | escaped, [] => !escaped
  | escaped, c :: rest => closed (!escaped && c = '\\') rest

/-- The last comma that stands before a scope in a name divides two names. -/
def divides (dn scope : String) : Bool :=
  closed false (dn.toList.take (dn.length - (scope.length + 1)))

/-- An object is the scope or lies beneath it. -/
def beneath (dn scope : String) : Bool :=
  dn = scope || Text.endsWith dn ("," ++ scope) && divides dn scope

namespace Authz

variable (authz : Authz) (asked : Asked) (item : Item) (permission dn : String)

def Granted : Prop :=
  ∃ grant ∈ authz.grants, grant.covers permission = true ∧ beneath (lower dn) (lower grant.scopeDn) = true

/-- Every permission the route carries, over the object acted on, and what the request asks for beside. -/
structure Delegated : Prop where
  first : ∀ need ∈ asked.first, authz.Granted need.1 need.2
  object : ∀ permission ∈ asked.wide ++ item.permissions, authz.Granted permission item.object

instance : Decidable (authz.Granted permission dn) :=
  inferInstanceAs (Decidable (∃ grant ∈ authz.grants, _))

instance : Decidable (authz.Delegated asked item) :=
  decidable_of_iff ((∀ need ∈ asked.first, authz.Granted need.1 need.2) ∧
      ∀ permission ∈ asked.wide ++ item.permissions, authz.Granted permission item.object)
    ⟨fun h => ⟨h.1, h.2⟩, fun h => ⟨h.first, h.object⟩⟩

/-- Exactly what is delegated to the operator is permitted. -/
def DecidesExactly : Prop :=
  ∀ item ∈ asked.items,
    item ∈ authz.permitted asked ↔ authz.domainAdmin = true ∨ authz.Delegated asked item

instance : Decidable (authz.DecidesExactly asked) := inferInstanceAs (Decidable (∀ item ∈ asked.items, _))

/-- No refusal ends the request before its loop reaches the item. -/
def Reached : Prop :=
  asked.skips = true ∨ ∃ before after, asked.items = before ++ item :: after ∧
    ∀ earlier ∈ before, authz.passes earlier = true

/-- The checks made for an item go through. -/
structure Passed : Prop where
  wide : ∀ permission ∈ asked.wide, authz.allows permission none = true
  first : ∀ need ∈ asked.first, authz.allows need.1 (some need.2) = true
  passes : authz.passes item = true
  reached : authz.Reached asked item

/-- A permission that reaches a name only where a comma inside of a name stands before the scope. -/
def OnlyInside : Prop :=
  ∀ grant ∈ authz.grants, grant.covers permission = true → grant.reaches (some dn) authz.baseDn = true →
    lower dn ≠ lower grant.scopeDn ∧ divides (lower dn) (lower grant.scopeDn) = false

/-- Nothing beside the scopes is in the way: the permissions asked for over the domain are held there,
an object found elsewhere than it was named is allowed under that name, and the loop gets to it. -/
structure Unhindered : Prop where
  wide : ∀ permission ∈ asked.wide, authz.allows permission none = true
  named : item.object = item.named ∨ authz.passes item = true
  reached : authz.Reached asked item

/-- What passes is in the scopes: none reaches a name at a comma inside of it, an object found elsewhere
than it was named is in a scope itself, and what is asked for over the domain alone is in the domain. -/
structure Confined : Prop where
  first : ∀ need ∈ asked.first, ¬ authz.OnlyInside need.1 need.2
  named : item.object = item.named → ∀ permission ∈ item.permissions, ¬ authz.OnlyInside permission item.named
  found : item.object ≠ item.named → ∀ permission ∈ item.permissions, authz.Granted permission item.object
  wide : ∀ permission ∈ asked.wide, beneath (lower item.object) (lower authz.baseDn) = true ∨
    authz.Granted permission item.object

variable {authz asked item permission dn}

theorem allows_iff (hadmin : authz.domainAdmin = false) {dn : Option String} :
    authz.allows permission dn = true ↔ ∃ grant ∈ authz.grants, grant.covers permission = true ∧
      grant.reaches dn authz.baseDn = true := by
  simp only [allows, hadmin, Bool.false_or, List.any_eq_true, Bool.and_eq_true]

theorem beneath_iff {grant : Grant} :
    beneath (lower dn) (lower grant.scopeDn) = true ↔ grant.reaches (some dn) authz.baseDn = true ∧
      ¬ (lower dn ≠ lower grant.scopeDn ∧ divides (lower dn) (lower grant.scopeDn) = false) := by
  by_cases heq : lower dn = lower grant.scopeDn
  · simp [beneath, Grant.reaches, heq]
  · simp [beneath, Grant.reaches, heq]

theorem granted_iff (hadmin : authz.domainAdmin = false) :
    authz.Granted permission dn ↔
      authz.allows permission (some dn) = true ∧ ¬ authz.OnlyInside permission dn := by
  rw [allows_iff hadmin]
  constructor
  · rintro ⟨grant, hgrant, hcovers, hbeneath⟩
    obtain ⟨hreaches, hdivides⟩ := beneath_iff.mp hbeneath
    exact ⟨⟨grant, hgrant, hcovers, hreaches⟩, fun hinside => hdivides (hinside grant hgrant hcovers hreaches)⟩
  · rintro ⟨_, hinside⟩
    unfold OnlyInside at hinside
    push Not at hinside
    obtain ⟨grant, hgrant, hcovers, hreaches, hdivides⟩ := hinside
    refine ⟨grant, hgrant, hcovers, beneath_iff.mpr ⟨hreaches, ?_⟩⟩
    rintro ⟨hne, hfalse⟩
    exact hdivides hne hfalse

omit [Runtime] in
theorem mem_takeWhile_iff {α : Type} {picks : α → Bool} {items : List α} {item : α} :
    item ∈ items.takeWhile picks ↔ picks item = true ∧
      ∃ before after, items = before ++ item :: after ∧ ∀ earlier ∈ before, picks earlier = true := by
  constructor
  · intro hmem
    obtain ⟨before, after, hsplit⟩ := List.append_of_mem hmem
    refine ⟨List.mem_takeWhile_imp hmem, before, after ++ items.dropWhile picks, ?_, fun earlier hearlier => ?_⟩
    · rw [← List.cons_append, ← List.append_assoc, ← hsplit, List.takeWhile_append_dropWhile]
    · refine List.mem_takeWhile_imp (l := items) ?_
      rw [hsplit]
      exact List.mem_append_left _ hearlier
  · rintro ⟨hitem, before, after, rfl, hbefore⟩
    rw [List.takeWhile_append_of_pos hbefore, List.takeWhile_cons_of_pos hitem]
    exact List.mem_append_right _ List.mem_cons_self

theorem mem_permitted (hitem : item ∈ asked.items) :
    item ∈ authz.permitted asked ↔ authz.Passed asked item := by
  unfold permitted
  by_cases hwide : ((asked.wide.all fun permission => authz.allows permission none) &&
      asked.first.all fun need => authz.allows need.1 (some need.2)) = true
  · rw [if_pos hwide]
    rw [Bool.and_eq_true, List.all_eq_true, List.all_eq_true] at hwide
    cases hskips : asked.skips with
    | true =>
        rw [if_pos rfl, List.mem_filter]
        exact ⟨fun h => ⟨hwide.1, hwide.2, h.2, .inl hskips⟩, fun h => ⟨hitem, h.passes⟩⟩
    | false =>
        rw [if_neg (by simp), mem_takeWhile_iff]
        constructor
        · rintro ⟨hpasses, hreached⟩
          exact ⟨hwide.1, hwide.2, hpasses, .inr hreached⟩
        · intro h
          refine ⟨h.passes, h.reached.resolve_left fun hskips' => ?_⟩
          exact Bool.false_ne_true (hskips.symm.trans hskips')
  · rw [if_neg hwide]
    refine iff_of_false List.not_mem_nil fun h => hwide ?_
    rw [Bool.and_eq_true, List.all_eq_true, List.all_eq_true]
    exact ⟨h.wide, h.first⟩

theorem passed_of_admin (hadmin : authz.domainAdmin = true) (hitem : item ∈ asked.items) :
    authz.Passed asked item := by
  have hallows : ∀ permission dn, authz.allows permission dn = true := by simp [allows, hadmin]
  have hpasses : ∀ item, authz.passes item = true := by simp [passes, hallows]
  obtain ⟨before, after, heq⟩ := List.append_of_mem hitem
  exact ⟨fun _ _ => hallows _ _, fun _ _ => hallows _ _, hpasses item,
    .inr ⟨before, after, heq, fun _ _ => hpasses _⟩⟩

theorem allows_of_granted (h : authz.Granted permission dn) : authz.allows permission (some dn) = true := by
  cases hadmin : authz.domainAdmin with
  | true => simp [allows, hadmin]
  | false => exact ((granted_iff hadmin).mp h).1

theorem passed_of_delegated (h : authz.Delegated asked item) (hunhindered : authz.Unhindered asked item) :
    authz.Passed asked item where
  wide := hunhindered.wide
  first need hneed := allows_of_granted (h.first need hneed)
  passes := by
    rcases hunhindered.named with hsame | hpasses
    · apply List.all_eq_true.mpr
      intro permission hpermission
      rw [← hsame]
      exact allows_of_granted (h.object permission (List.mem_append_right _ hpermission))
    · exact hpasses
  reached := hunhindered.reached

theorem granted_of_head (hadmin : authz.domainAdmin = false) (h : authz.allows permission none = true)
    (hbeneath : beneath (lower dn) (lower authz.baseDn) = true) : authz.Granted permission dn := by
  obtain ⟨grant, hgrant, hcovers, hhead⟩ := (allows_iff hadmin).mp h
  have hscope : lower grant.scopeDn = lower authz.baseDn := by simpa [Grant.reaches] using hhead
  exact ⟨grant, hgrant, hcovers, hscope ▸ hbeneath⟩

theorem delegated_of_passed (hadmin : authz.domainAdmin = false) (h : authz.Passed asked item)
    (hconfined : authz.Confined asked item) : authz.Delegated asked item where
  first need hneed := (granted_iff hadmin).mpr ⟨h.first need hneed, hconfined.first need hneed⟩
  object permission hmem := by
    rcases List.mem_append.mp hmem with hwide | hpermission
    · rcases hconfined.wide permission hwide with hbeneath | hgranted
      · exact granted_of_head hadmin (h.wide permission hwide) hbeneath
      · exact hgranted
    · by_cases hsame : item.object = item.named
      · rw [hsame]
        exact (granted_iff hadmin).mpr ⟨List.all_eq_true.mp h.passes permission hpermission,
          hconfined.named hsame permission hpermission⟩
      · exact hconfined.found hsame permission hpermission

theorem confined_of_delegated (hadmin : authz.domainAdmin = false) (h : authz.Delegated asked item) :
    authz.Confined asked item where
  first need hneed := ((granted_iff hadmin).mp (h.first need hneed)).2
  named hsame permission hpermission :=
    hsame ▸ ((granted_iff hadmin).mp (h.object permission (List.mem_append_right _ hpermission))).2
  found _ permission hpermission := h.object permission (List.mem_append_right _ hpermission)
  wide permission hwide := .inr (h.object permission (List.mem_append_left _ hwide))

/-- An item is decided exactly when nothing stands in the way of what is delegated and what passes is
confined to it. -/
theorem passed_iff (hadmin : authz.domainAdmin = false) :
    (authz.Passed asked item ↔ authz.Delegated asked item) ↔
      (authz.Delegated asked item → authz.Unhindered asked item) ∧
        (authz.Passed asked item → authz.Confined asked item) := by
  constructor
  · intro h
    refine ⟨fun hdelegated => ?_, fun hpassed => confined_of_delegated hadmin (h.mp hpassed)⟩
    have hpassed := h.mpr hdelegated
    exact ⟨hpassed.wide, .inr hpassed.passes, hpassed.reached⟩
  · rintro ⟨hunhindered, hconfined⟩
    exact ⟨fun h => delegated_of_passed hadmin h (hconfined h),
      fun h => passed_of_delegated h (hunhindered h)⟩

end Authz

/-- A request of any route is decided by what is delegated exactly when its operator is a domain
administrator, or nothing stands in the way of what is delegated and what passes is confined to it. -/
theorem decides_exactly_iff (authz : Authz) (site : Site) (request : Request) :
    authz.DecidesExactly (request.asked site authz.baseDn) ↔ authz.domainAdmin = true ∨
      ∀ item ∈ (request.asked site authz.baseDn).items,
        (authz.Delegated (request.asked site authz.baseDn) item →
          authz.Unhindered (request.asked site authz.baseDn) item) ∧
        (authz.Passed (request.asked site authz.baseDn) item →
          authz.Confined (request.asked site authz.baseDn) item) := by
  cases hadmin : authz.domainAdmin with
  | true =>
      refine iff_of_true (fun item hitem => iff_of_true ?_ (.inl hadmin)) (.inl rfl)
      exact (Authz.mem_permitted hitem).mpr (Authz.passed_of_admin hadmin hitem)
  | false =>
      simp only [Bool.false_eq_true, false_or]
      apply forall₂_congr
      intro item hitem
      rw [Authz.mem_permitted hitem, ← Authz.passed_iff hadmin, hadmin]
      simp only [Bool.false_eq_true, false_or]

def office : String := "OU=Office,DC=corp,DC=lan"

def corp : Site where
  facts := [("CN=ws1,OU=Office,DC=corp,DC=lan", "ws1.corp.lan"),
    ("CN=files,OU=Servers,DC=corp,DC=lan", "files.corp.lan")]
  objectType _ := some "user"
  changes _ := true
  linkTarget _ := none
  deleted _ := none

def helpdesk (grants : List Grant) : Authz := ⟨false, grants, "DC=corp,DC=lan"⟩

omit [Runtime] in
/-- The office is refused where only the domain head is asked about, a machine elsewhere is restarted
under a name of the office, and one account outside ends a bulk change for those after it. -/
theorem helpdesk_misjudged :
    letI := Runtime.latin
    ¬ (helpdesk [⟨office, ["computer.manage"]⟩]).DecidesExactly
        ((Request.runAction "CN=ws1,OU=Office,DC=corp,DC=lan" "update-check").asked corp "DC=corp,DC=lan") ∧
      ¬ (helpdesk [⟨"DC=corp,DC=lan", ["computer.manage"]⟩, ⟨office, ["computer.power"]⟩]).DecidesExactly
        ((Request.runAction "CN=files,OU=Office,DC=corp,DC=lan" "restart").asked corp "DC=corp,DC=lan") ∧
      ¬ (helpdesk [⟨office, ["user.write"]⟩]).DecidesExactly
        ((Request.bulkChange ["CN=bob,OU=Sales,DC=corp,DC=lan", "CN=ann,OU=Office,DC=corp,DC=lan"] [] []
          none).asked corp "DC=corp,DC=lan") := by
  let _ := Runtime.latin
  refine ⟨?_, ?_, ?_⟩ <;> decide +kernel

end OpenDirectory.Delegation
