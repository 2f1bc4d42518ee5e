import OpenDirectory.ContainerMoves
import OpenDirectory.Naming
import OpenDirectory.Oidc

/-! The deletion of an object. It is read and deleted in the directory, and then written to the recycle bin, which
is in the database, so that what goes wrong between the two loses it. -/

namespace OpenDirectory.RecycleBin

open ContainerMoves (Ldap normalizeDn rdnValue)

/-- A value as the directory's library hands it out; a date and time stands by its ISO form. -/
inductive Scalar where
  | text (s : String)
  | number (n : Int)
  | flag (b : Bool)
  | blob (raw : List UInt8)
  | moment (iso : String)
  deriving DecidableEq

inductive Attribute where
  | one (value : Scalar)
  | several (values : List Scalar)
  deriving DecidableEq

/-- `value in ([], "")` -/
def Attribute.isEmpty : Attribute → Bool
  | .one (.text s) => s = ""
  | .one _ => false
  | .several values => values.isEmpty

def texts (values : List String) : Attribute := .several (values.map .text)

/-- An object with what the directory answers when it is asked for all attributes and `memberOf`. -/
structure Object where
  dn : String
  /-- The container it is in. -/
  parent : String
  objectClass : List String
  memberOf : List String
  member : List String
  others : List (String × Attribute)
  names : (Dict.keys others).Nodup
  reserved : ∀ name ∈ Dict.keys others,
    name ∉ ["objectClass", "memberOf", "member", "distinguishedName", "objectType"]
  deriving DecidableEq

def Object.raw (object : Object) : List (String × Attribute) :=
  ("objectClass", texts object.objectClass) :: ("memberOf", texts object.memberOf) ::
    ("member", texts object.member) :: object.others

theorem Object.nodup_raw (object : Object) : (Dict.keys object.raw).Nodup := by
  have hnot : ∀ name ∈ ["objectClass", "memberOf", "member"], name ∉ Dict.keys object.others := by
    intro name hname hmem
    exact object.reserved name hmem (List.mem_append_left ["distinguishedName", "objectType"] hname)
  show ("objectClass" :: "memberOf" :: "member" :: Dict.keys object.others).Nodup
  simp [hnot, object.names]

theorem Object.not_mem_raw (object : Object) {name : String} {held : Attribute} (h : (name, held) ∈ object.raw) :
    name ≠ "distinguishedName" ∧ name ≠ "objectType" := by
  have hkey : name = "objectClass" ∨ name = "memberOf" ∨ name = "member" ∨ name ∈ Dict.keys object.others := by
    simpa [Dict.keys, Object.raw] using List.mem_map_of_mem (f := Prod.fst) h
  rcases hkey with rfl | rfl | rfl | hkey
  · decide
  · decide
  · decide
  · have hnot := object.reserved name hkey
    simp only [List.mem_cons, List.not_mem_nil, or_false, not_or] at hnot
    exact hnot.2.2.2

section

variable [Runtime]

/-- No two objects have one name. -/
structure Directory where
  objects : List Object
  names : (objects.map fun object => lower object.dn).Nodup

def Directory.find (directory : Directory) (dn : String) : Option Object :=
  directory.objects.find? fun object => lower object.dn = lower dn

/-- The names of the objects one level below. -/
def Directory.below (directory : Directory) (dn : String) : List String :=
  (directory.objects.filter fun object => lower object.parent = lower dn).map Object.dn

def Directory.remove (directory : Directory) (dn : String) : Directory where
  objects := directory.objects.filter fun object => lower object.dn ≠ lower dn
  names := (List.filter_sublist.map _).nodup directory.names

end

/-- The domain, who may delete what, and what the libraries make of values: the text of an identifier's bytes, the
text of what is none, and the UUID a text stands for. -/
structure Site extends Ldap where
  adminGroup : String
  allowed : String → Bool
  formatSid : List UInt8 → String
  str : Attribute → String
  uuid : String → Option String

/-- `base64.b64encode(raw).decode("ascii")` -/
def b64encode (raw : List UInt8) : String :=
  let digits := (Oidc.b64 raw).map fun c => if c = '-' then '+' else if c = '_' then '/' else c
  String.ofList (digits ++ List.replicate ((4 - digits.length % 4) % 4) '=')

def Scalar.jsonable : Scalar → Value
  | .text s => .str s
  | .number n => .int n
  | .flag b => .bool b
  | .blob raw => .str (b64encode raw)
  | .moment iso => .str iso

def Attribute.jsonable : Attribute → Value
  | .one value => value.jsonable
  | .several values => .arr (values.map Scalar.jsonable)

theorem jsonable_texts (values : List String) : (texts values).jsonable = .arr (values.map .str) := by
  simp only [texts, Attribute.jsonable, List.map_map]
  rfl

def readSid (site : Site) (sid : Attribute) : Value :=
  let text := match sid with
    | .one (.blob raw) => site.formatSid raw
    | .one (.text s) => s
    | other => site.str other
  if text = "" then .null else .str text

section

variable [Runtime] (site : Site)

def classify (objectClasses : List String) : String :=
  let lowered := objectClasses.map lower
  if "computer" ∈ lowered then "computer"
  else if "group" ∈ lowered then "group"
  else if "organizationalunit" ∈ lowered then "ou"
  else if "user" ∈ lowered then "user"
  else if "domaindns" ∈ lowered then "domain"
  else "container"

def entry (object : Object) : Value.Fields :=
  let attributes := (object.raw.filter fun a => !a.2.isEmpty).map fun a => (a.1, a.2.jsonable)
  let attributes := match Dict.get object.raw "objectSid" with
    | some sid => Dict.set attributes "objectSid" (readSid site sid)
    | none => attributes
  Dict.set (Dict.set attributes "distinguishedName" (.str object.dn)) "objectType"
    (.str (classify object.objectClass))

/-- The value of an attribute as the console keeps it. -/
def shown (name : String) (held : Attribute) : Value :=
  if name = "objectSid" then readSid site held else held.jsonable

theorem get_entry {object : Object} {name : String} {held : Attribute} (h : (name, held) ∈ object.raw)
    (hfull : held.isEmpty = false) : Dict.get (entry site object) name = some (shown site name held) := by
  obtain ⟨hdn, htype⟩ := object.not_mem_raw h
  unfold entry shown
  rw [Dict.get_set_of_ne _ _ (Ne.symm htype), Dict.get_set_of_ne _ _ (Ne.symm hdn)]
  by_cases hsid : name = "objectSid"
  · subst hsid
    rw [Dict.get_of_mem object.nodup_raw h, if_pos rfl]
    exact Dict.get_set_self _ _ _
  · have hkept : Dict.get ((object.raw.filter fun a => !a.2.isEmpty).map fun a => (a.1, a.2.jsonable)) name =
        some held.jsonable := by
      apply Dict.get_of_mem
      · rw [Dict.keys, List.map_map]
        exact (List.filter_sublist.map _).nodup object.nodup_raw
      · exact List.mem_map.mpr ⟨(name, held), List.mem_filter.mpr ⟨h, by simp [hfull]⟩, rfl⟩
    rw [if_neg hsid]
    cases Dict.get object.raw "objectSid" with
    | none => exact hkept
    | some sid => exact (Dict.get_set_of_ne _ _ (Ne.symm hsid)).trans hkept

theorem get_entry_of_empty {object : Object} {name : String} (hname : name ≠ "distinguishedName" ∧ name ≠ "objectType")
    (hsid : name ≠ "objectSid") {held : Attribute} (h : (name, held) ∈ object.raw)
    (hempty : held.isEmpty = true) : Dict.get (entry site object) name = none := by
  unfold entry
  rw [Dict.get_set_of_ne _ _ (Ne.symm hname.2), Dict.get_set_of_ne _ _ (Ne.symm hname.1)]
  have hgone : Dict.get ((object.raw.filter fun a => !a.2.isEmpty).map fun a => (a.1, a.2.jsonable)) name =
      none := by
    rw [Dict.get_eq_none_iff, Dict.keys, List.map_map]
    intro hmem
    obtain ⟨⟨name', held'⟩, hkept, rfl⟩ := List.mem_map.mp hmem
    obtain ⟨hraw, hfull⟩ := List.mem_filter.mp hkept
    have heq : some held' = some held :=
      (Dict.get_of_mem object.nodup_raw hraw).symm.trans (Dict.get_of_mem object.nodup_raw h)
    obtain rfl := Option.some.inj heq
    simp [hempty] at hfull
  cases Dict.get object.raw "objectSid" with
  | none => exact hgone
  | some sid => exact (Dict.get_set_of_ne _ _ (Ne.symm hsid)).trans hgone

def protectedRdns : List String :=
  ["cn=builtin", "cn=users", "cn=computers", "cn=system", "cn=managed service accounts", "ou=domain controllers"]

def protectedBuiltinContainers : List String := [",cn=users", ",cn=builtin"]

def protectedNames : List String :=
  ["administrator", "guest", "krbtgt", "domain admins", "domain users", "domain guests", "domain computers",
    "domain controllers", "enterprise admins", "schema admins", "group policy creator owners"]

def protectedRids : List Nat := [500, 501, 502, 512, 513, 514, 515, 516, 518, 519, 520, 521]

/-- The text of a field, and the empty text where the field is missing or empty. -/
def textOf (entry : Value.Fields) (name : String) : String :=
  (((Dict.get entry name).filter Value.truthy).map Value.text).getD ""

/-- Whether the object may be changed, where the base is in its canonical spelling. -/
def mutable (base canonical : String) (entry : Value.Fields) : Bool :=
  let canonical := lower canonical
  let base := lower base
  let relative := String.ofList (canonical.toList.take (canonical.length - (base.length + 1)))
  let rid := ((Text.split '-' (textOf entry "objectSid")).getLast?.getD "").toList
  let account := textOf entry "sAMAccountName"
  canonical ≠ base &&
  !(relative ∈ protectedRdns || Text.endsWith relative ",cn=builtin") &&
  !(protectedBuiltinContainers.any (Text.endsWith relative) && lower (rdnValue relative) ∈ protectedNames) &&
  !(rid ≠ [] && rid.all (fun c => (Runtime.digit c).isSome) && Naming.numberOf rid ∈ protectedRids) &&
  !(account ≠ "" && lower account = lower site.adminGroup)

/-- How a call ends: answered, with an error and no effect, with its effect and no answer, or with the process. -/
inductive Call where
  | answered
  | refused
  | lost
  | stopped (effect : Bool)
  deriving DecidableEq

/-- How the request ends. -/
inductive Ending where
  | done
  | failed
  | stopped

def Call.effect : Call → Bool
  | .answered | .lost => true
  | .refused => false
  | .stopped effect => effect

def Call.answer : Call → Except Ending Unit
  | .answered => .ok ()
  | .refused | .lost => .error .failed
  | .stopped _ => .error .stopped

/-- How each call of a request ends: reading the object, looking for objects below it, deleting it and writing it
to the recycle bin. -/
structure Calls where
  entry : Call
  children : Call
  delete : Call
  insert : Call

structure Snapshot where
  objectDn : String
  objectType : String
  displayName : Option Value
  parentDn : String
  attributes : Value.Fields
  memberships : Value
  members : Value
  children : List String

/-- `a or b`, where either may be missing. -/
def orElse (a b : Option Value) : Option Value := if a.any Value.truthy then a else b

/-- `entry.get(name) or []` -/
def listOf (entry : Value.Fields) (name : String) : Value := ((Dict.get entry name).filter Value.truthy).getD (.arr [])

def parentDn (dn : String) : String := ((Text.cut ',' dn).map Prod.snd).getD ""

def snapshotOf (canonical : String) (entry : Value.Fields) (children : List String) : Snapshot where
  objectDn := canonical
  objectType := textOf entry "objectType"
  displayName := orElse (orElse (Dict.get entry "displayName") (Dict.get entry "cn")) (Dict.get entry "ou")
  parentDn := parentDn canonical
  attributes := entry
  memberships := listOf entry "memberOf"
  members := listOf entry "member"
  children := children

def orFail {α : Type} (found : Option α) : Except Ending α := found.elim (.error .failed) .ok

def snapshot (calls : Calls) (directory : Directory) (dn : String) : Except Ending Snapshot := do
  let canonical ← orFail (normalizeDn site.toLdap dn)
  calls.entry.answer
  let object ← orFail (directory.find canonical)
  calls.children.answer
  return snapshotOf canonical (entry site object) (directory.below canonical)

/-- The snapshot of an object that may be deleted. -/
def checked (calls : Calls) (directory : Directory) (dn : String) : Except Ending Snapshot := do
  let state ← snapshot site calls directory dn
  let base ← orFail (site.safeDn site.baseDn)
  if mutable site base state.objectDn state.attributes && state.children.isEmpty then return state
  else throw .failed

def delete (calls : Calls) (directory : Directory) (dn : String) : Directory × Except Ending Snapshot :=
  match checked site calls directory dn with
  | .error ending => (directory, .error ending)
  | .ok state =>
      (if calls.delete.effect then directory.remove state.objectDn else directory,
        calls.delete.answer.map fun _ => state)

/-- A row of `deleted_object`; `purgeAfter` is a number of days, and `gone` tells that it was restored or purged. -/
structure Row where
  objectDn : String
  objectType : String
  objectGuid : Option String
  objectSid : Option Value
  displayName : Option Value
  parentDn : String
  attributes : Value.Fields
  memberships : Value
  members : Value
  deletedBy : String
  purgeAfter : Nat
  gone : Bool := false

structure Request where
  dn : String
  principal : String
  retentionDays : Nat

def objectGuid (attributes : Value.Fields) : Option String := do
  let raw ← (Dict.get attributes "objectGUID").filter Value.truthy
  site.uuid (Text.strip (· ∈ ['\x7b', '\x7d']) (Text.strip Runtime.blank raw.text))

def row (request : Request) (state : Snapshot) : Row where
  objectDn := state.objectDn
  objectType := state.objectType
  objectGuid := objectGuid site state.attributes
  objectSid := Dict.get state.attributes "objectSid"
  displayName := state.displayName
  parentDn := state.parentDn
  attributes := state.attributes
  memberships := state.memberships
  members := state.members
  deletedBy := request.principal
  purgeAfter := request.retentionDays

end

/-! The database keeps no text with a NUL character in it. -/

mutual

def clean : Value → Bool
  | .str s => '\x00' ∉ s.toList
  | .arr items => cleanItems items
  | .obj fields => cleanFields fields
  | _ => true

def cleanItems : List Value → Bool
  | [] => true
  | item :: items => clean item && cleanItems items

def cleanFields : List (String × Value) → Bool
  | [] => true
  | (key, value) :: fields => '\x00' ∉ key.toList && clean value && cleanFields fields

end

/-- What a text column holds. -/
def isText : Value → Bool
  | .null | .str _ => true
  | _ => false

/-- Whether the columns can hold the snapshot. `display_name` is a text column, and what the others hold is all in
the object's name and in its attributes. -/
def accepts (state : Snapshot) : Bool :=
  state.displayName.all isText && '\x00' ∉ state.objectDn.toList && clean (.obj state.attributes)

structure World [Runtime] where
  directory : Directory
  bin : List Row

variable [Runtime] (site : Site)

def deleteObject (request : Request) (calls : Calls) (world : World) : World × Ending :=
  if !site.allowed request.dn then (world, .failed)
  else
    match delete site calls world.directory request.dn with
    | (directory, .error ending) => (⟨directory, world.bin⟩, ending)
    | (directory, .ok state) =>
        if !accepts state then (⟨directory, world.bin⟩, .failed)
        else
          (⟨directory, if calls.insert.effect then world.bin ++ [row site request state] else world.bin⟩,
            match calls.insert.answer with
            | .ok () => .done
            | .error ending => ending)

/-- The row holds all of the object: its attributes, the groups it is in and its members. -/
structure Complete (object : Object) (row : Row) : Prop where
  kept : row.gone = false
  named : lower row.objectDn = lower object.dn
  attributes : ∀ name held, (name, held) ∈ object.raw → held.isEmpty = false →
    Dict.get row.attributes name = some (shown site name held)
  memberships : row.memberships = .arr (object.memberOf.map .str)
  members : row.members = .arr (object.member.map .str)

/-- The object is still in the directory, or all of it is in the recycle bin. -/
def Undoable (object : Object) (world : World) : Prop :=
  object ∈ world.directory.objects ∨ ∃ row ∈ world.bin, Complete site object row

/-- The request takes the object out of the directory. -/
structure Removes (request : Request) (calls : Calls) (world : World) (canonical : String) (object : Object) :
    Prop where
  allowed : site.allowed request.dn = true
  named : normalizeDn site.toLdap request.dn = some canonical
  read : calls.entry = .answered
  found : world.directory.find canonical = some object
  searched : calls.children = .answered
  alone : world.directory.below canonical = []
  mutable : ∃ base, site.safeDn site.baseDn = some base ∧ mutable site base canonical (entry site object) = true
  effect : calls.delete.effect = true

section
omit [Runtime]

theorem answer_eq_ok {call : Call} {u : Unit} : call.answer = .ok u ↔ call = .answered := by
  cases call with
  | answered => exact ⟨fun _ => rfl, fun _ => rfl⟩
  | refused => exact ⟨nofun, nofun⟩
  | lost => exact ⟨nofun, nofun⟩
  | stopped effect => exact ⟨nofun, nofun⟩

theorem answer_of_ne {call : Call} (h : call ≠ .answered) : ∃ ending, call.answer = .error ending := by
  cases call with
  | answered => exact absurd rfl h
  | refused => exact ⟨_, rfl⟩
  | lost => exact ⟨_, rfl⟩
  | stopped effect => exact ⟨_, rfl⟩

theorem orFail_eq_ok {α : Type} {found : Option α} {a : α} : orFail found = .ok a ↔ found = some a := by
  cases found with
  | none => exact ⟨nofun, nofun⟩
  | some a' => simp [orFail]

end

variable {site} {request : Request} {calls : Calls} {world : World}

variable {directory : Directory} {canonical : String} {object : Object}

theorem snapshot_eq_ok {dn : String} {state : Snapshot} :
    snapshot site calls directory dn = .ok state ↔ ∃ canonical object,
      normalizeDn site.toLdap dn = some canonical ∧ calls.entry = .answered ∧
      directory.find canonical = some object ∧ calls.children = .answered ∧
      state = snapshotOf canonical (entry site object) (directory.below canonical) := by
  unfold snapshot
  constructor
  · intro h
    obtain ⟨canonical, hnamed, h⟩ := Except.bind_eq_ok.mp h
    obtain ⟨_, hread, h⟩ := Except.bind_eq_ok.mp h
    obtain ⟨object, hfound, h⟩ := Except.bind_eq_ok.mp h
    obtain ⟨_, hsearched, h⟩ := Except.bind_eq_ok.mp h
    exact ⟨canonical, object, orFail_eq_ok.mp hnamed, answer_eq_ok.mp hread, orFail_eq_ok.mp hfound,
      answer_eq_ok.mp hsearched, (Except.ok.inj h).symm⟩
  · rintro ⟨canonical, object, hnamed, hread, hfound, hsearched, rfl⟩
    rw [hnamed, hread, hsearched]
    show (orFail (directory.find canonical) >>= _) = _
    rw [hfound]
    rfl

theorem checked_eq_ok {state : Snapshot} (hallowed : site.allowed request.dn = true) :
    checked site calls world.directory request.dn = .ok state ∧ calls.delete.effect = true ↔
      ∃ canonical object, Removes site request calls world canonical object ∧
        state = snapshotOf canonical (entry site object) [] := by
  unfold checked
  constructor
  · rintro ⟨h, heffect⟩
    obtain ⟨state', hstate, h⟩ := Except.bind_eq_ok.mp h
    obtain ⟨base, hbase, h⟩ := Except.bind_eq_ok.mp h
    obtain ⟨canonical, object, hnamed, hread, hfound, hsearched, rfl⟩ := snapshot_eq_ok.mp hstate
    split at h
    next hmay =>
      obtain ⟨hmutable, hempty⟩ := Bool.and_eq_true_iff.mp hmay
      have halone : world.directory.below canonical = [] := List.isEmpty_iff.mp hempty
      refine ⟨canonical, object, ⟨hallowed, hnamed, hread, hfound, hsearched, halone,
        ⟨base, orFail_eq_ok.mp hbase, hmutable⟩, heffect⟩, ?_⟩
      rw [← halone]
      exact (Except.ok.inj h).symm
    next => cases h
  · rintro ⟨canonical, object, h, rfl⟩
    obtain ⟨base, hbase, hmutable⟩ := h.mutable
    refine ⟨?_, h.effect⟩
    rw [snapshot_eq_ok.mpr ⟨canonical, object, h.named, h.read, h.found, h.searched, rfl⟩, h.alone, hbase]
    show (if _ then _ else _) = _
    rw [if_pos]
    · rfl
    · show (mutable site base canonical (entry site object) && true) = true
      rw [hmutable]
      rfl

theorem deleteObject_of_not (h : ∀ canonical object, ¬ Removes site request calls world canonical object) :
    (deleteObject site request calls world).1 = world := by
  unfold deleteObject
  cases hallowed : site.allowed request.dn with
  | false => rfl
  | true =>
      unfold delete
      cases hchecked : checked site calls world.directory request.dn with
      | error ending => rfl
      | ok state =>
          have heffect : calls.delete.effect ≠ true := by
            intro heffect
            obtain ⟨canonical, object, hremoves, _⟩ := (checked_eq_ok hallowed).mp ⟨hchecked, heffect⟩
            exact h canonical object hremoves
          obtain ⟨ending, hanswer⟩ := answer_of_ne fun hanswered : calls.delete = .answered =>
            heffect (hanswered ▸ rfl)
          rw [hanswer]
          dsimp only [Except.map]
          rw [if_neg heffect]
          rfl

/-- The snapshot of an object reaches the recycle bin. -/
def Keeps (site : Site) (calls : Calls) (canonical : String) (object : Object) : Prop :=
  calls.delete = .answered ∧ accepts (snapshotOf canonical (entry site object) []) = true ∧
    calls.insert.effect = true

instance (site : Site) (calls : Calls) (canonical : String) (object : Object) :
    Decidable (Keeps site calls canonical object) := inferInstanceAs (Decidable (_ ∧ _ ∧ _))

theorem deleteObject_of_removes
    (h : Removes site request calls world canonical object) :
    (deleteObject site request calls world).1 = ⟨world.directory.remove canonical,
      if Keeps site calls canonical object then
        world.bin ++ [row site request (snapshotOf canonical (entry site object) [])]
      else world.bin⟩ := by
  have hchecked : checked site calls world.directory request.dn = _ :=
    ((checked_eq_ok h.allowed).mpr ⟨canonical, object, h, rfl⟩).1
  unfold deleteObject delete
  rw [h.allowed, hchecked]
  dsimp only
  rw [h.effect, if_pos rfl]
  by_cases hanswered : calls.delete = .answered
  · have hanswer : calls.delete.answer = .ok () := answer_eq_ok.mpr hanswered
    rw [hanswer]
    dsimp only [Except.map]
    cases haccepts : accepts (snapshotOf canonical (entry site object) []) with
    | false =>
        rw [if_neg fun hkeeps : Keeps site calls canonical object => Bool.noConfusion (haccepts.symm.trans hkeeps.2.1)]
        rfl
    | true =>
        have hiff : calls.insert.effect = true ↔ Keeps site calls canonical object :=
          ⟨fun heffect => ⟨hanswered, haccepts, heffect⟩, fun hkeeps => hkeeps.2.2⟩
        simp only [Bool.not_true, Bool.false_eq_true, if_false, hiff]
        rfl
  · obtain ⟨ending, hanswer⟩ := answer_of_ne hanswered
    rw [hanswer, if_neg fun hkeeps : Keeps site calls canonical object => hanswered hkeeps.1]
    rfl

theorem listOf_entry {name : String} {values : List String}
    (h : (name, texts values) ∈ object.raw) (hsid : name ≠ "objectSid") :
    listOf (entry site object) name = .arr (values.map .str) := by
  unfold listOf
  cases values with
  | nil =>
      rw [get_entry_of_empty site (object.not_mem_raw h) hsid h rfl]
      rfl
  | cons value values =>
      rw [get_entry site h rfl, shown, if_neg hsid, jsonable_texts]
      rfl

theorem mem_of_find
    (h : directory.find canonical = some object) :
    object ∈ directory.objects ∧ lower object.dn = lower canonical :=
  ⟨List.mem_of_find?_eq_some h, by simpa using List.find?_some h⟩

theorem complete_row (h : world.directory.find canonical = some object) :
    Complete site object (row site request (snapshotOf canonical (entry site object) [])) where
  kept := rfl
  named := (mem_of_find h).2.symm
  attributes := fun _ _ hraw hfull => get_entry site hraw hfull
  memberships := listOf_entry (List.mem_cons_of_mem _ List.mem_cons_self) (by decide)
  members := listOf_entry (List.mem_cons_of_mem _ (List.mem_cons_of_mem _ List.mem_cons_self)) (by decide)

theorem mem_remove {other : Object}
    (h : directory.find canonical = some object) (hother : other ∈ directory.objects) :
    other ∈ (directory.remove canonical).objects ↔ other ≠ object := by
  obtain ⟨hmem, hname⟩ := mem_of_find h
  unfold Directory.remove
  rw [List.mem_filter, decide_eq_true_iff]
  constructor
  · rintro ⟨_, hne⟩ rfl
    exact hne hname
  · intro hne
    refine ⟨hother, fun hsame => hne ?_⟩
    exact List.inj_on_of_nodup_map directory.names hother hmem (hsame.trans hname.symm)

/-- Deleting is undoable exactly when what is taken out of the directory is in the recycle bin already or its
snapshot gets there, which the directory's answer, the columns of the database and the insertion decide. -/
theorem deletion_undoable_iff (site : Site) (request : Request) (calls : Calls) (world : World) :
    (∀ object ∈ world.directory.objects, Undoable site object (deleteObject site request calls world).1) ↔
      ∀ canonical object, Removes site request calls world canonical object →
        Keeps site calls canonical object ∨ ∃ row ∈ world.bin, Complete site object row := by
  constructor
  · intro h canonical object hremoves
    have hundoable := h object (mem_of_find hremoves.found).1
    rw [deleteObject_of_removes hremoves] at hundoable
    rcases hundoable with hthere | ⟨kept, hrow, hcomplete⟩
    · exact absurd rfl ((mem_remove hremoves.found (mem_of_find hremoves.found).1).mp hthere)
    · by_cases hkeeps : Keeps site calls canonical object
      · exact .inl hkeeps
      · rw [if_neg hkeeps] at hrow
        exact .inr ⟨kept, hrow, hcomplete⟩
  · intro h other hother
    by_cases hremoves : ∃ canonical object, Removes site request calls world canonical object
    · obtain ⟨canonical, object, hremoves⟩ := hremoves
      rw [deleteObject_of_removes hremoves]
      by_cases hsame : other = object
      · subst hsame
        right
        rcases h canonical other hremoves with hkeeps | ⟨kept, hrow, hcomplete⟩
        · rw [if_pos hkeeps]
          exact ⟨_, List.mem_append_right _ List.mem_cons_self, complete_row hremoves.found⟩
        · refine ⟨kept, ?_, hcomplete⟩
          split
          · exact List.mem_append_left _ hrow
          · exact hrow
      · exact .inl ((mem_remove hremoves.found hother).mpr hsame)
    · rw [deleteObject_of_not fun canonical object hone => hremoves ⟨canonical, object, hone⟩]
      exact .inl hother

-- An organizational unit whose name came as a list, without any display name.
example : accepts (snapshotOf "OU=labs,DC=odm" [("ou", .arr [.str "labs"])] []) = false := rfl

omit [Runtime] in
def mensa : Object where
  dn := "CN=mensa,DC=odm"
  parent := "DC=odm"
  objectClass := ["group"]
  memberOf := []
  member := ["CN=ada,DC=odm"]
  others := []
  names := List.nodup_nil
  reserved := fun _ h => (List.not_mem_nil h).elim

def domain : Site where
  safeDn := some
  escapeRdn := id
  baseDn := "DC=odm"
  adminGroup := "odm-admins"
  allowed _ := true
  formatSid _ := ""
  str _ := ""
  uuid _ := none

def before : World where
  directory := ⟨[mensa], List.nodup_singleton _⟩
  bin := []

omit [Runtime] in
/-- The directory deletes the group, and then the database cannot be reached. -/
theorem group_is_lost :
    letI := Runtime.latin
    ¬ ∀ object ∈ before.directory.objects, Undoable domain object
      (deleteObject domain ⟨mensa.dn, "root", 30⟩ ⟨.answered, .answered, .answered, .refused⟩ before).1 := by
  let _ := Runtime.latin
  have hafter : (deleteObject domain ⟨mensa.dn, "root", 30⟩ ⟨.answered, .answered, .answered, .refused⟩
      before).1.directory.objects = [] := by decide +kernel
  have hbin : (deleteObject domain ⟨mensa.dn, "root", 30⟩ ⟨.answered, .answered, .answered, .refused⟩
      before).1.bin = [] := by decide +kernel
  have hlost : ¬ Undoable domain mensa (deleteObject domain ⟨mensa.dn, "root", 30⟩
      ⟨.answered, .answered, .answered, .refused⟩ before).1 := by
    unfold Undoable
    rw [hafter, hbin]
    rintro (hthere | ⟨row, hrow, _⟩)
    · exact List.not_mem_nil hthere
    · exact List.not_mem_nil hrow
  exact fun h => hlost (h mensa List.mem_cons_self)

end OpenDirectory.RecycleBin
