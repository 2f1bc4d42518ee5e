import OpenDirectory.ContainerMoves
import OpenDirectory.Delegation
import OpenDirectory.Lists

/-! One change for a selection of objects. Every object is asked for, permitted and changed by itself, and the layers
below it refuse in ways of their own: some end up in the list of problems, some end the request. -/

namespace OpenDirectory.BulkChanges

open ContainerMoves (Ldap below movedDn rdnValue)
open Delegation (Authz Grant writePermission)

inductive Raised where
  | objectError (text : String)
  | notFound (text : String)
  | protectedObject (text : String)
  | denied (text : String)
  | directoryError (text : String)
  | ldapException (text : String)
  | httpException (status : Nat) (detail : String)
  | valueError (text : String)
  | databaseError (text : String)

def Raised.text : Raised → String
  | .objectError text | .notFound text | .protectedObject text | .denied text | .directoryError text |
    .ldapException text | .valueError text | .databaseError text => text
  | .httpException _ detail => detail

/-- What the loop over the objects catches. -/
def Raised.caught : Raised → Bool
  | .objectError _ | .notFound _ | .protectedObject _ | .denied _ => true
  | _ => false

/-- What is read of an object, with nothing for what it does not have. -/
structure Entry where
  objectType : String
  userAccountControl : Nat := 0
  member : List String := []
  objectSid : String := ""
  sAMAccountName : String := ""

inductive Modification where
  | replace (changes : List (String × Option String))
  | setControl (control : Nat)
  | addMembers (names : List String)
  | removeMembers (names : List String)
  deriving DecidableEq

/-- How a command goes: the directory answers with a code, or the library raises. -/
inductive Answer where
  | result (code : Nat) (description message : String)
  | broken (text : String)

inductive Searched where
  | entry (entry : Entry)
  | answer (answer : Answer)

/-- The library, the directory behind it, and the database of the audit trail. -/
structure Server (σ : Type) extends Ldap where
  adminGroup : String
  connects : Except Raised Unit := .ok ()
  search : σ → String → Searched
  modify : σ → String → Modification → Answer × σ
  modifyDn : σ → String → String → String → Answer × σ
  stores : Except Raised Unit := .ok ()

/-- Work on the directory, which keeps what was done before something was raised. -/
abbrev Work (σ : Type) := ExceptT Raised (StateM σ)

variable [Runtime] {σ : Type} (server : Server σ)

def failed (action description message : String) : Raised :=
  .objectError (Text.strip Runtime.blank (action ++ " failed: " ++ description ++ " " ++ message))

def check (action : String) : Answer → Work σ Unit
  | .result 0 _ _ => pure ()
  | .result _ description message => throw (failed action description message)
  | .broken text => throw (.ldapException text)

def normalizeDn (dn : String) : Work σ String :=
  if dn = "" ∨ 1024 < dn.length then throw (.notFound "invalid distinguished name")
  else
    match server.safeDn dn, server.safeDn server.baseDn with
    | none, _ => throw (.notFound "invalid distinguished name")
    | _, none => throw (.ldapException server.baseDn)
    | some canonical, some base =>
        if lower canonical = lower base ∨ below canonical base then pure canonical
        else throw (.notFound "distinguished name is outside the domain")

/-- A search for the object itself. An object that is not there is answered with no entry. -/
def get (dn : String) : Work σ Entry := do
  let canonical ← normalizeDn server dn
  match server.search (← MonadState.get) canonical with
  | .entry entry => pure entry
  | .answer (.result code description message) =>
      if code ∈ [32, 0, 4] then throw (.notFound (dn ++ " not found")) else throw (failed "search" description message)
  | .answer (.broken text) => throw (.directoryError ("ldap search failed: " ++ text))

def modify (dn : String) (modification : Modification) (action : String) : Work σ Unit := do
  let (answer, after) := server.modify (← MonadState.get) dn modification
  set after
  check action answer

def modifyDn (dn relative superior action : String) : Work σ Unit := do
  let (answer, after) := server.modifyDn (← MonadState.get) dn relative superior
  set after
  check action answer

def editable : String → Option (List String)
  | "user" => some ["givenName", "sn", "displayName", "mail", "telephoneNumber", "title", "department", "company",
      "physicalDeliveryOfficeName", "description", "userPrincipalName"]
  | "group" => some ["description", "mail"]
  | "computer" => some ["description", "dNSHostName"]
  | "ou" => some ["description"]
  | _ => none

def update (dn : String) (changes : List (String × Option String)) : Work σ Entry := do
  let canonical ← normalizeDn server dn
  let current ← get server canonical
  match editable current.objectType with
  | none => throw (.objectError (current.objectType ++ " objects cannot be edited"))
  | some names =>
      let unknown := (changes.map Prod.fst).filter (· ∉ names)
      if unknown ≠ [] then throw (.objectError ("not editable: " ++ Text.join ", " (unknown.sortedBy id)))
      else
        if changes ≠ [] then
          modify server canonical (.replace (changes.map fun change => (change.1, change.2.filter (· ≠ "")))) "update"
        get server canonical

/-- `UF_NORMAL_ACCOUNT` and `UF_ACCOUNTDISABLE` -/
def normalAccount : Nat := 0x0200

def accountDisable : Nat := 0x0002

def setEnabled (dn : String) (enabled : Bool) : Work σ Unit := do
  let canonical ← normalizeDn server dn
  let current ← get server canonical
  let control := if current.userAccountControl = 0 then normalAccount else current.userAccountControl
  let control := if enabled then control ^^^ (control &&& accountDisable) else control ||| accountDisable
  modify server canonical (.setControl control) "set account state"

def editMembers (groupDn : String) (add remove : List String) : Work σ Entry := do
  let canonical ← normalizeDn server groupDn
  let entry ← get server canonical
  if entry.objectType ≠ "group" then throw (.objectError "not a group")
  let existing := entry.member.map lower
  let toAdd ← add.mapM (normalizeDn server)
  let toRemove ← remove.mapM (normalizeDn server)
  let toAdd := toAdd.filter (lower · ∉ existing)
  let toRemove := toRemove.filter (lower · ∈ existing)
  if toAdd ≠ [] then modify server canonical (.addMembers toAdd) "add members"
  if toRemove ≠ [] then modify server canonical (.removeMembers toRemove) "remove members"
  get server canonical

def protectedRdns : List String := [
  "cn=builtin", "cn=users", "cn=computers", "cn=system", "cn=managed service accounts", "ou=domain controllers"]

def protectedNames : List String := [
  "administrator", "guest", "krbtgt", "domain admins", "domain users", "domain guests", "domain computers",
  "domain controllers", "enterprise admins", "schema admins", "group policy creator owners"]

def protectedRids : List Nat := [500, 501, 502, 512, 513, 514, 515, 516, 518, 519, 520, 521]

def builtIn (name : String) : Raised := .protectedObject (name ++ " is a built-in object of the directory")

/-- Refuses changes to objects the domain cannot function without. -/
def assertMutable (dn : String) (entry : Entry) : Work σ Unit := do
  let canonical := lower (← normalizeDn server dn)
  let base := lower ((server.safeDn server.baseDn).getD "")
  let relative := String.ofList (canonical.toList.take (canonical.length - (base.length + 1)))
  let rid := ((Text.split '-' entry.objectSid).getLast?).getD ""
  if canonical = base then throw (.protectedObject "the domain head cannot be modified here")
  else if relative ∈ protectedRdns || Text.endsWith relative ",cn=builtin" then
    throw (.protectedObject "built-in containers and groups are protected")
  else if (Text.endsWith relative ",cn=users" || Text.endsWith relative ",cn=builtin") &&
      lower (rdnValue relative) ∈ protectedNames then throw (builtIn (rdnValue canonical))
  else if rid ≠ "" && rid.toList.all Char.isDigit && rid.toNat?.any (· ∈ protectedRids) then
    throw (builtIn (if entry.sAMAccountName = "" then rdnValue canonical else entry.sAMAccountName))
  else if entry.sAMAccountName ≠ "" && lower entry.sAMAccountName = lower server.adminGroup then
    throw (.protectedObject (entry.sAMAccountName ++ " is the group this console signs operators in with; " ++
      "point ODM at another group before removing it"))

/-- A move under the old name. -/
def move (dn target : String) : Work σ String := do
  let canonical ← normalizeDn server dn
  assertMutable server canonical (← get server canonical)
  let destination ← normalizeDn server target
  if lower destination = lower canonical || below destination canonical then
    throw (.objectError "cannot move an object into itself")
  else
    let kind := (Text.split '=' canonical).headD ""
    modifyDn server canonical (kind ++ "=" ++ server.escapeRdn (rdnValue canonical)) destination "move"
    return movedDn server.toLdap canonical destination none

structure BulkRequest where
  dns : List String
  given : dns ≠ [] := by decide
  few : dns.length ≤ 500 := by decide
  changes : List (String × Option String) := []
  addGroups : List String := []
  removeGroups : List String := []
  moveTo : Option String := none
  enabled : Option Bool := none

/-- `Authz.require` -/
def require (authz : Authz) (permission dn : String) : Except Raised Unit :=
  if authz.allows permission (some dn) then .ok ()
  else .error (.httpException 403 (permission ++ " is not delegated on " ++ dn))

variable (authz : Authz) (body : BulkRequest)

def changeAttributes (dn : String) : Work σ Unit :=
  if body.changes = [] then pure () else Functor.discard (update server dn body.changes)

def changeState (dn : String) : Work σ Unit :=
  match body.enabled with
  | some enabled => setEnabled server dn enabled
  | none => pure ()

def changeGroups (dn : String) : Work σ Unit := do
  body.addGroups.forM fun group => Functor.discard (editMembers server group [dn] [])
  body.removeGroups.forM fun group => Functor.discard (editMembers server group [] [dn])

def changeName (dn : String) : Work σ String :=
  match body.moveTo with
  | none => pure dn
  | some target => do
      liftExcept (require authz "object.move" dn)
      move server dn target

/-- The change of one object; its name after that. -/
def changeOne (dn : String) : Work σ String := do
  let before ← get server dn
  liftExcept (require authz (writePermission before.objectType) dn)
  changeAttributes server body dn
  changeState server body dn
  changeGroups server body dn
  changeName server authz body dn

/-- What the loop has so far: the objects changed, by their names after that, and those refused with the reason. -/
structure Tally where
  changed : List String := []
  problems : List (String × String) := []

/-- The loop over the objects, which what it does not catch ends. -/
def loop : List String → Tally → Work σ Tally
  | [], tally => pure tally
  | dn :: rest, tally => do
      let state ← MonadState.get
      match (changeOne server authz body dn).run.run state with
      | (.ok name, after) => do
          set after
          loop rest { tally with changed := tally.changed ++ [name] }
      | (.error raised, after) => do
          set after
          if raised.caught then loop rest { tally with problems := tally.problems ++ [(dn, raised.text)] }
          else throw raised

/-- A row of the audit trail. -/
structure Audit where
  outcome : String
  detail : String
  changed : List String
  problems : List (String × String)

/-- `audit.record`, which knows three outcomes. -/
def record (audit : Audit) : Except Raised Audit :=
  if audit.outcome ∉ ["success", "failure", "denied"] then
    .error (.valueError ("invalid audit outcome: '" ++ audit.outcome ++ "'"))
  else server.stores.map fun _ => audit

def auditOf (tally : Tally) : Audit where
  outcome := if tally.problems.isEmpty then "success" else "partial"
  detail := toString tally.changed.length ++ " changed, " ++ toString tally.problems.length ++ " refused"
  changed := tally.changed.take 200
  problems := tally.problems.take 200

/-- What is asked before anything is done: the groups, and the container for a move. -/
def permitted : Except Raised Unit := do
  (body.addGroups ++ body.removeGroups).forM (require authz "group.member.write")
  match body.moveTo with
  | none => return ()
  | some target => require authz "object.move" target

/-- How a request ends: what it is answered with, the rows written to the audit trail, and the directory. -/
structure Ended (σ : Type) where
  answer : Except Raised Tally
  audits : List Audit
  directory : σ

def bulkChange (directory : σ) : Ended σ :=
  match permitted authz body with
  | .error raised => ⟨.error raised, [], directory⟩
  | .ok _ =>
      match server.connects with
      | .error raised => ⟨.error raised, [], directory⟩
      | .ok _ =>
          match (loop server authz body body.dns {}).run.run directory with
          | (.error raised, after) => ⟨.error raised, [], after⟩
          | (.ok tally, after) =>
              match record server (auditOf tally) with
              | .error raised => ⟨.error raised, [], after⟩
              | .ok audit => ⟨.ok tally, [audit], after⟩

/-- The tally of one verdict for each object. -/
def tallyOf (verdicts : List (String × Except String String)) : Tally where
  changed := verdicts.filterMap fun verdict => match verdict.2 with
    | .ok name => some name
    | .error _ => none
  problems := verdicts.filterMap fun verdict => match verdict.2 with
    | .ok _ => none
    | .error reason => some (verdict.1, reason)

/-- Every object has its verdict in the answer, those the actor has no right over a reason, and if anything was changed a
row of the audit trail names all that was. -/
def Accounted (directory : σ) (ended : Ended σ) : Prop :=
  ∃ verdicts : List (String × Except String String), verdicts.map Prod.fst = body.dns ∧
    ended.answer = .ok (tallyOf verdicts) ∧
    (∀ verdict ∈ verdicts, (∀ permission, authz.allows permission (some verdict.1) = false) →
      verdict.2.isOk = false) ∧
    ((tallyOf verdicts).changed ≠ [] ∨ ended.directory ≠ directory →
      ∃ audit ∈ ended.audits, ∀ name ∈ (tallyOf verdicts).changed, name ∈ audit.changed)

/-- The name an object has after the change. -/
def nameAfter (dn : String) : String :=
  match body.moveTo with
  | none => dn
  | some target => movedDn server.toLdap ((server.safeDn dn).getD "") ((server.safeDn target).getD "") none

/-- The change of an object, with the directory as it is then, goes through. -/
def GoesThrough (directory : σ) (dn : String) : Prop :=
  ((changeOne server authz body dn).run.run directory).1.isOk = true

/-- The directory after an object. -/
def afterOne (directory : σ) (dn : String) : σ := ((changeOne server authz body dn).run.run directory).2

/-- The groups and the container are the actor's to edit, the directory and the audit trail can be reached, nothing about
any object is refused or fails, and the row names them all. -/
structure Smooth (directory : σ) : Prop where
  permitted : permitted authz body = .ok ()
  connects : server.connects = .ok ()
  through : Steps.Each (afterOne server authz body) (GoesThrough server authz body) directory body.dns
  named : ∀ dn ∈ body.dns, nameAfter server body dn ∈ (body.dns.take 200).map (nameAfter server body)
  stores : server.stores = .ok ()

section
variable {server authz body}

omit [Runtime] in
theorem run_bind {α β : Type} (first : Work σ α) (then_ : α → Work σ β) (before : σ) :
    (first >>= then_).run.run before = match first.run.run before with
      | (.ok middle, between) => (then_ middle).run.run between
      | (.error raised, between) => (.error raised, between) := by
  simp only [ExceptT.run_bind, StateT.run_bind]
  rcases first.run.run before with ⟨result, between⟩
  cases result with
  | ok middle => simp [bind]
  | error raised => simp [bind, pure, StateT.run, StateT.pure]

omit [Runtime] in
theorem bind_ok {α β : Type} {first : Work σ α} {then_ : α → Work σ β} {before after : σ} {value : β}
    (h : (first >>= then_).run.run before = (.ok value, after)) :
    ∃ middle between, first.run.run before = (.ok middle, between) ∧
      (then_ middle).run.run between = (.ok value, after) := by
  rw [run_bind] at h
  rcases hfirst : first.run.run before with ⟨result, between⟩
  rw [hfirst] at h
  cases result with
  | ok middle => exact ⟨middle, between, rfl, h⟩
  | error raised => exact nomatch (Prod.mk.inj h).1

omit [Runtime] in
theorem pure_ok {α : Type} {given value : α} {before after : σ}
    (h : (pure given : Work σ α).run.run before = (.ok value, after)) : value = given :=
  (Except.ok.inj (Prod.mk.inj h).1).symm

omit [Runtime] in
theorem throw_ne_ok {α : Type} {value : α} {before after : σ} (raised : Raised) :
    (throw raised : Work σ α).run.run before ≠ (.ok value, after) := by
  intro h
  exact nomatch (Prod.mk.inj h).1

omit [Runtime] in
theorem lift_ok {asked : Except Raised Unit} {before after : σ} {value : Unit}
    (h : (liftExcept asked : Work σ Unit).run.run before = (.ok value, after)) : asked = .ok () := by
  cases asked with
  | ok _ => rfl
  | error raised => exact nomatch (Prod.mk.inj h).1

theorem normalizeDn_ok {dn canonical : String} {before after : σ}
    (h : (normalizeDn server dn).run.run before = (.ok canonical, after)) : server.safeDn dn = some canonical := by
  unfold normalizeDn at h
  split at h
  · exact absurd h (throw_ne_ok _)
  · split at h
    · exact absurd h (throw_ne_ok _)
    · exact absurd h (throw_ne_ok _)
    · rename_i canonical' base hdn hbase
      split at h
      · rw [hdn, pure_ok h]
      · exact absurd h (throw_ne_ok _)

theorem require_ok {permission dn : String} (h : require authz permission dn = .ok ()) :
    authz.allows permission (some dn) = true := by
  unfold require at h
  split at h
  next hallowed => exact hallowed
  next => nomatch h

theorem move_ok {dn target name : String} {before after : σ}
    (h : (move server dn target).run.run before = (.ok name, after)) :
    name = movedDn server.toLdap ((server.safeDn dn).getD "") ((server.safeDn target).getD "") none := by
  unfold move at h
  obtain ⟨canonical, _, hcanonical, h⟩ := bind_ok h
  obtain ⟨_, _, -, h⟩ := bind_ok h
  obtain ⟨_, _, -, h⟩ := bind_ok h
  obtain ⟨destination, _, hdestination, h⟩ := bind_ok h
  split at h
  · exact absurd h (throw_ne_ok _)
  · obtain ⟨_, _, -, h⟩ := bind_ok h
    rw [normalizeDn_ok hcanonical, normalizeDn_ok hdestination]
    exact pure_ok h

theorem changeOne_ok {dn name : String} {directory after : σ}
    (h : (changeOne server authz body dn).run.run directory = (.ok name, after)) :
    name = nameAfter server body dn ∧ ∃ permission, authz.allows permission (some dn) = true := by
  unfold changeOne at h
  obtain ⟨before, _, -, h⟩ := bind_ok h
  obtain ⟨_, _, hrequire, h⟩ := bind_ok h
  obtain ⟨_, _, -, h⟩ := bind_ok h
  obtain ⟨_, _, -, h⟩ := bind_ok h
  obtain ⟨_, _, -, h⟩ := bind_ok h
  have hallowed := require_ok (lift_ok hrequire)
  refine ⟨?_, _, hallowed⟩
  unfold changeName at h
  unfold nameAfter
  cases hmove : body.moveTo with
  | none =>
      rw [hmove] at h
      exact pure_ok h
  | some target =>
      rw [hmove] at h
      obtain ⟨_, _, -, h⟩ := bind_ok h
      exact move_ok h

theorem loop_cons {dn : String} {rest : List String} {tally : Tally} {directory : σ} :
    (loop server authz body (dn :: rest) tally).run.run directory =
      match (changeOne server authz body dn).run.run directory with
      | (.ok name, after) =>
          (loop server authz body rest { tally with changed := tally.changed ++ [name] }).run.run after
      | (.error raised, after) =>
          if raised.caught then
            (loop server authz body rest { tally with problems := tally.problems ++ [(dn, raised.text)] }).run.run after
          else (.error raised, after) := by
  have hget : (MonadState.get : Work σ σ).run.run directory = (.ok directory, directory) := rfl
  have hset : ∀ state : σ, (set state : Work σ PUnit).run.run directory = (.ok ⟨⟩, state) := fun _ => rfl
  rw [loop, run_bind, hget]
  dsimp only
  rcases (changeOne server authz body dn).run.run directory with ⟨result, after⟩
  cases result with
  | ok name =>
      dsimp only
      rw [run_bind, hset]
  | error raised =>
      dsimp only
      rw [run_bind, hset]
      dsimp only
      split
      · rfl
      · rfl

theorem loop_problems {dns : List String} {tally final : Tally} {directory after : σ}
    (h : (loop server authz body dns tally).run.run directory = (.ok final, after)) :
    tally.problems <+: final.problems := by
  induction dns generalizing tally directory with
  | nil =>
      rw [pure_ok h]
  | cons dn rest ih =>
      rw [loop_cons] at h
      rcases hone : (changeOne server authz body dn).run.run directory with ⟨result, between⟩
      rw [hone] at h
      cases result with
      | ok name => exact @ih { tally with changed := tally.changed ++ [name] } between h
      | error raised =>
          dsimp only at h
          split at h
          next hcaught => exact (List.prefix_append _ _).trans (ih h)
          next hcaught => exact nomatch (Prod.mk.inj h).1

theorem each_of_loop {dns : List String} {tally final : Tally} {directory after : σ}
    (h : (loop server authz body dns tally).run.run directory = (.ok final, after))
    (hclean : final.problems = tally.problems) :
    Steps.Each (afterOne server authz body) (GoesThrough server authz body) directory dns := by
  induction dns generalizing tally directory with
  | nil => trivial
  | cons dn rest ih =>
      rw [loop_cons] at h
      unfold Steps.Each GoesThrough afterOne
      rcases hone : (changeOne server authz body dn).run.run directory with ⟨result, between⟩
      rw [hone] at h
      cases result with
      | ok name => exact ⟨rfl, ih h hclean⟩
      | error raised =>
          dsimp only at h
          split at h
          next hcaught =>
            have hmore := (loop_problems h).length_le
            rw [hclean, List.length_append] at hmore
            simp at hmore
          next hcaught => cases (Prod.mk.inj h).1

theorem loop_of_each (tally : Tally) {dns : List String} {directory : σ}
    (h : Steps.Each (afterOne server authz body) (GoesThrough server authz body) directory dns) :
    (∃ after, (loop server authz body dns tally).run.run directory =
      (.ok { tally with changed := tally.changed ++ dns.map (nameAfter server body) }, after)) ∧
    ∀ dn ∈ dns, ∃ permission, authz.allows permission (some dn) = true := by
  induction dns generalizing tally directory with
  | nil =>
      refine ⟨⟨directory, ?_⟩, fun _ hdn => absurd hdn List.not_mem_nil⟩
      rw [List.map_nil, List.append_nil]
      rfl
  | cons dn rest ih =>
      obtain ⟨hhere, hrest⟩ := h
      unfold GoesThrough at hhere
      unfold afterOne at hrest
      rw [loop_cons]
      rcases hone : (changeOne server authz body dn).run.run directory with ⟨result, between⟩
      rw [hone] at hhere hrest
      cases result with
      | error raised => exact nomatch hhere
      | ok name =>
          obtain ⟨rfl, hallowed⟩ := changeOne_ok hone
          obtain ⟨⟨after, hloop⟩, hothers⟩ := ih { tally with changed := tally.changed ++ [_] } hrest
          refine ⟨⟨after, ?_⟩, List.forall_mem_cons.mpr ⟨hallowed, hothers⟩⟩
          rw [List.map_cons, List.append_cons]
          exact hloop

omit [Runtime] in
theorem record_ok {tally : Tally} {audit : Audit} (h : record server (auditOf tally) = .ok audit) :
    tally.problems = [] ∧ server.stores = .ok () ∧ audit = auditOf tally := by
  unfold record at h
  split at h
  next houtcome => exact nomatch h
  next houtcome =>
    have hclean : tally.problems = [] := by
      by_contra hproblem
      apply houtcome
      show ¬ (if tally.problems.isEmpty then "success" else "partial") ∈ ["success", "failure", "denied"]
      simp only [List.isEmpty_eq_false_iff.mpr hproblem]
      decide
    cases hstores : server.stores with
    | error raised => exact nomatch hstores ▸ h
    | ok _ =>
        rw [hstores] at h
        exact ⟨hclean, rfl, (Except.ok.inj h).symm⟩

omit [Runtime] in
theorem record_clean {changed : List String} (hstores : server.stores = .ok ()) :
    record server (auditOf ⟨changed, []⟩) = .ok (auditOf ⟨changed, []⟩) := by
  unfold record
  rw [if_neg, hstores]
  · rfl
  · show ¬ "success" ∉ ["success", "failure", "denied"]
    decide

theorem bulkChange_ok {directory : σ} {tally : Tally}
    (h : (bulkChange server authz body directory).answer = .ok tally) :
    permitted authz body = .ok () ∧ server.connects = .ok () ∧
      (loop server authz body body.dns {}).run.run directory =
        (.ok tally, (bulkChange server authz body directory).directory) ∧
      tally.problems = [] ∧ server.stores = .ok () ∧
      (bulkChange server authz body directory).audits = [auditOf tally] := by
  unfold bulkChange at h ⊢
  split at h
  next => exact nomatch h
  next hpermitted =>
    split at h
    next => exact nomatch h
    next hconnects =>
      split at h
      next => exact nomatch h
      next final after hloop =>
        split at h
        next => exact nomatch h
        next audit hrecord =>
          obtain rfl : final = tally := Except.ok.inj h
          obtain ⟨hclean, hstores, rfl⟩ := record_ok hrecord
          refine ⟨hpermitted, hconnects, ?_, hclean, hstores, ?_⟩
          · exact hloop
          · rfl

omit [Runtime] in
theorem tallyOf_ok (names : String → String) (dns : List String) :
    tallyOf (dns.map fun dn => (dn, .ok (names dn))) = ⟨dns.map names, []⟩ := by
  unfold tallyOf
  rw [List.filterMap_map, List.filterMap_map]
  congr 1
  · exact congrFun (@List.filterMap_eq_map _ _ names) dns
  · exact List.filterMap_eq_nil_iff.mpr fun dn _ => rfl

theorem bulkChange_smooth {directory : σ} (h : Smooth server authz body directory) :
    ∃ after, bulkChange server authz body directory =
      ⟨.ok ⟨body.dns.map (nameAfter server body), []⟩,
        [auditOf ⟨body.dns.map (nameAfter server body), []⟩], after⟩ := by
  obtain ⟨⟨after, hloop⟩, -⟩ := loop_of_each {} h.through
  rw [List.nil_append] at hloop
  refine ⟨after, ?_⟩
  unfold bulkChange
  rw [h.permitted, h.connects]
  simp only [hloop, record_clean h.stores]

end

/-- Every object of a request is accounted for exactly when no right is missing, nothing is refused and nothing fails
over any of them, and the row of the audit trail names them all. -/
theorem accounted_iff (directory : σ) :
    Accounted authz body directory (bulkChange server authz body directory) ↔ Smooth server authz body directory := by
  constructor
  · intro ⟨verdicts, hverdicts, hanswer, hrefused, haudit⟩
    obtain ⟨hpermitted, hconnects, hloop, hclean, hstores, haudits⟩ := bulkChange_ok hanswer
    have hthrough := each_of_loop hloop hclean
    obtain ⟨⟨after, hnames⟩, -⟩ := loop_of_each {} hthrough
    have htally : tallyOf verdicts = ⟨body.dns.map (nameAfter server body), []⟩ := by
      rw [hloop] at hnames
      exact Except.ok.inj (Prod.mk.inj hnames).1
    refine ⟨hpermitted, hconnects, hthrough, ?_, hstores⟩
    intro dn hdn
    rw [htally, haudits] at haudit
    obtain ⟨audit, hmem, hnamed⟩ := haudit (.inl (by simpa using body.given))
    obtain rfl := List.mem_singleton.mp hmem
    have hhere := hnamed (nameAfter server body dn) (List.mem_map_of_mem hdn)
    rw [htally] at hhere
    unfold auditOf at hhere
    rwa [← List.map_take] at hhere
  · intro h
    obtain ⟨after, hended⟩ := bulkChange_smooth h
    obtain ⟨-, hallowed⟩ := loop_of_each {} h.through
    have htally := tallyOf_ok (nameAfter server body) body.dns
    refine ⟨body.dns.map fun dn => (dn, .ok (nameAfter server body dn)), ?_, ?_, ?_, ?_⟩
    · rw [List.map_map]
      exact List.map_id _
    · rw [hended, htally]
    · intro verdict hverdict hforbidden
      obtain ⟨dn, hdn, rfl⟩ := List.mem_map.mp hverdict
      obtain ⟨permission, hpermission⟩ := hallowed dn hdn
      exact absurd hpermission (by rw [hforbidden]; exact Bool.false_ne_true)
    · intro _
      rw [hended, htally]
      refine ⟨_, List.mem_singleton_self _, fun name hname => ?_⟩
      obtain ⟨dn, hdn, rfl⟩ := List.mem_map.mp hname
      unfold auditOf
      rw [← List.map_take]
      exact h.named dn hdn

/-- A directory that takes every change, told by the changes made. -/
def willing : Server (List (String × Modification)) where
  safeDn := some
  escapeRdn := id
  baseDn := "DC=x"
  adminGroup := "Domain Admins"
  search _ _ := .entry { objectType := "user" }
  modify done dn modification := (.result 0 "success" "", done ++ [(dn, modification)])
  modifyDn done _ _ _ := (.result 0 "success" "", done)

def helpdesk : Authz := ⟨false, [⟨"OU=Office,DC=x", ["user.write"]⟩], "DC=x"⟩

def newTitle : BulkRequest where
  dns := ["CN=ann,OU=Office,DC=x", "CN=bob,DC=x"]
  changes := [("title", some "clerk")]

omit [Runtime] in
/-- The second object is out of reach, so the request ends there, with the first one changed and no row written. -/
theorem second_ends_request : letI := Runtime.latin
    ¬ Accounted helpdesk newTitle [] (bulkChange willing helpdesk newTitle []) ∧
      (bulkChange willing helpdesk newTitle []).directory =
        [("CN=ann,OU=Office,DC=x", .replace [("title", some "clerk")])] ∧
      (bulkChange willing helpdesk newTitle []).audits = [] := by
  let _ := Runtime.latin
  have hanswer : (bulkChange willing helpdesk newTitle []).answer.isOk = false := by decide +kernel
  refine ⟨?_, by decide +kernel, by decide +kernel⟩
  intro ⟨verdicts, _, hok, _⟩
  rw [hok] at hanswer
  exact nomatch hanswer

end OpenDirectory.BulkChanges
