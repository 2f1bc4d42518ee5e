import OpenDirectory.Dhcp

/-! What one scope's edit leaves as it is: the other scopes, the keys of the scope its request does not speak of, the
ids and the reservations. The edits are made one after another; the server may refuse any of them. -/

namespace OpenDirectory.Dhcp

open Value (Fields)

/-- `scope.get("id")`, which counts where it is not zero. -/
def givenId (id : Option Int) : Option Int := id.filter (· ≠ 0)

/-- The id of a new scope whose caller chose none. -/
def nextId (existing : List Fields) : Int := (existing.map idOf).max?.getD 0 + 1

/-- `create_scope` for a caller that may choose the id. -/
def createScopeAs (config : Fields) (id : Option Int) (scope : Scope) : Except KeaError Fields := do
  let existing := objects config "subnet4"
  let validated ← validateScope scope (givenId id)
  let validated := Dict.set validated "id" (.int ((givenId id).getD (nextId existing)))
  if existing.any fun subnet => textOf subnet "subnet" = textOf validated "subnet" then
    .error (.exists ((textOf validated "subnet").getD ""))
  return withObjects config "subnet4" (existing ++ [validated])

/-- The id of a scope in a request: `Field(ge=1)`. -/
abbrev ScopeId := {id : Int // 1 ≤ id}

inductive Edit where
  | createScope (id : Option Int) (scope : Scope)
  | updateScope (id : ScopeId) (scope : Scope)
  | deleteScope (id : ScopeId)
  | addReservation (id : ScopeId) (reservation : Reservation)
  | deleteReservation (id : ScopeId) (hwAddress : String)

section
variable [Runtime]

def Edit.make (config : Fields) : Edit → Except KeaError Fields
  | .createScope id scope => createScopeAs config id scope
  | .updateScope id scope => Dhcp.updateScope config id scope
  | .deleteScope id => Dhcp.deleteScope config id
  | .addReservation id reservation => Dhcp.addReservation config id reservation
  | .deleteReservation id hwAddress => Dhcp.deleteReservation config id hwAddress

/-- The configuration after an edit, where `accepts` is what the server's test says of one. -/
def edited (accepts : Fields → Bool) (config : Fields) (edit : Edit) : Fields :=
  match edit.make config with
  | .ok config' => if accepts config' then config' else config
  | .error _ => config

end

/-- The reservation's address, if it has one, is written as an address of the network is. -/
def InNetwork (network : String) (reservation : Fields) : Prop :=
  ∀ text, textOf reservation "ip-address" = some text → ∃ read host,
    Address.ipNetwork network = some read ∧ host.text = text ∧ read.contains host = true

structure SoundScopes (config : Fields) : Prop where
  distinct : ((objects config "subnet4").map idOf).Nodup
  inside : ∀ subnet ∈ objects config "subnet4", ∀ reservation ∈ objects subnet "reservations",
    InNetwork ((textOf subnet "subnet").getD "") reservation

/-- The keys of a scope for which a request has a value. Of the `user-context` it has one entry. -/
def describes (scope : Scope) (key : String) : Bool :=
  match key with
  | "subnet" | "pools" | "option-data" | "id" => true
  | "valid-lifetime" => scope.validLifetime.isSome
  | "renew-timer" => scope.renewTimer.isSome
  | "rebind-timer" => scope.rebindTimer.isSome
  | _ => false

/-- What the request does not describe has its old value. -/
structure KeepsRest (scope : Scope) (old new : Fields) : Prop where
  keys : ∀ key value, key ≠ "user-context" → describes scope key = false → Dict.get old key = some value →
    Dict.get new key = some value
  context : ∀ fields key value, Dict.get old "user-context" = some (.obj fields) → Dict.get fields key = some value →
    (key = "comment" → scope.comment = "") →
      ∃ fields', Dict.get new "user-context" = some (.obj fields') ∧ Dict.get fields' key = some value

/-- Only the scope of this id is another one, and it has kept what the request does not describe. -/
structure EditsOne (id : Int) (scope : Scope) (config config' : Fields) : Prop where
  frame : Dict.Frame ["subnet4"] config config'
  scopes : List.Forall₂ (fun old new => new = old ∨ idOf old = id ∧ KeepsRest scope old new)
    (objects config "subnet4") (objects config' "subnet4")

variable [Runtime]

/-- What the edit of a configuration has to come to. -/
def Keeps (accepts : Fields → Bool) (config : Fields) (edit : Edit) : Prop :=
  SoundScopes (edited accepts config edit) ∧ match edit with
    | .updateScope id scope => EditsOne id scope config (edited accepts config edit)
    | _ => True

/-- The scope has nothing that the request does not describe, its reservations apart. -/
def Described (scope : Scope) (current : Fields) : Prop :=
  (∀ key ∈ Dict.keys current, key = "reservations" ∨ key = "user-context" ∨ describes scope key = true) ∧
    ∀ fields, Dict.get current "user-context" = some (.obj fields) →
      ∀ key ∈ Dict.keys fields, key = "comment" ∧ scope.comment ≠ ""

/-- The edit is refused, or a new scope's id is free, or all that an updated scope has is described and its reservations
lie in the subnet it is given. -/
def Careful (accepts : Fields → Bool) (config : Fields) (edit : Edit) : Prop :=
  (∀ config', edit.make config = .ok config' → accepts config' = false) ∨ match edit with
    | .createScope id _ => ∀ chosen ∈ givenId id, chosen ∉ (objects config "subnet4").map idOf
    | .updateScope id scope => ∀ current ∈ objects config "subnet4", idOf current = id → Described scope current ∧
        ∀ network ∈ Address.ipNetwork scope.subnet, ∀ reservation ∈ objects current "reservations",
          InNetwork network.text reservation
    | _ => True

section
omit [Runtime]

theorem objects_withObjects (fields : Fields) (key : String) (items : List Fields) :
    objects (withObjects fields key items) key = items := by
  unfold objects withObjects
  rw [Dict.get_set_self]
  simp [List.filterMap_map]

theorem textOf_set_of_ne (fields : Fields) {key other : String} (value : Value) (h : other ≠ key) :
    textOf (Dict.set fields other value) key = textOf fields key := by
  unfold textOf
  rw [Dict.get_set_of_ne _ _ h]

theorem idOf_set_of_ne (fields : Fields) {other : String} (value : Value) (h : other ≠ "id") :
    idOf (Dict.set fields other value) = idOf fields := by
  unfold idOf
  rw [Dict.get_set_of_ne _ _ h]

end

section
omit [Runtime]

theorem find_ok {config : Fields} {id : Int} {subnet : Fields} (h : find config id = .ok subnet) :
    subnet ∈ objects config "subnet4" ∧ idOf subnet = id := by
  unfold find at h
  split at h
  next found hfound =>
    obtain rfl := Except.ok.inj h
    exact ⟨List.mem_of_find?_eq_some hfound, by simpa using List.find?_some hfound⟩
  next => cases h

end

section
variable {scope : Scope} {id : Int} {current validated : Fields}

section
omit [Runtime]

end

end

section
variable {config config' : Fields}

variable {subnet : Fields} {reservation : Reservation}

section
omit [Runtime]

theorem SoundScopes.replaced (h : SoundScopes config) {scopes : List Fields}
    (hids : scopes.map idOf = (objects config "subnet4").map idOf)
    (hinside : ∀ subnet ∈ scopes, subnet ∈ objects config "subnet4" ∨
      ∀ reservation ∈ objects subnet "reservations", InNetwork ((textOf subnet "subnet").getD "") reservation) :
    SoundScopes (withObjects config "subnet4" scopes) := by
  constructor
  · rw [objects_withObjects, hids]
    exact h.distinct
  · rw [objects_withObjects]
    intro subnet hsubnet reservation hreservation
    rcases hinside subnet hsubnet with hold | hnew
    · exact h.inside subnet hold reservation hreservation
    · exact hnew reservation hreservation

theorem map_idOf_replaceFirst (id : Int) (h : idOf subnet = id) (scopes : List Fields) :
    (replaceFirst id subnet scopes).map idOf = scopes.map idOf := by
  induction scopes with
  | nil => rfl
  | cons other scopes ih =>
      unfold replaceFirst
      split
      next hid => rw [List.map_cons, List.map_cons, h, hid]
      next => rw [List.map_cons, List.map_cons, ih]

theorem mem_replaceFirst {id : Int} {other : Fields} {scopes : List Fields}
    (h : other ∈ replaceFirst id subnet scopes) : other ∈ scopes ∨ other = subnet := by
  induction scopes with
  | nil => cases h
  | cons first scopes ih =>
      unfold replaceFirst at h
      split at h
      next =>
        rcases List.mem_cons.mp h with rfl | hrest
        · exact .inr rfl
        · exact .inl (.tail _ hrest)
      next =>
        rcases List.mem_cons.mp h with rfl | hrest
        · exact .inl (.head _)
        · exact (ih hrest).imp_left (.tail _)

theorem SoundScopes.reserved (h : SoundScopes config) {id : Int} (hfind : find config id = .ok subnet)
    {reservations : List Fields}
    (hinside : ∀ reservation ∈ reservations, InNetwork ((textOf subnet "subnet").getD "") reservation) :
    SoundScopes (withObjects config "subnet4"
      (replaceFirst id (withObjects subnet "reservations" reservations) (objects config "subnet4"))) := by
  obtain ⟨-, hid⟩ := find_ok hfind
  apply h.replaced
  · apply map_idOf_replaceFirst
    rw [withObjects, idOf_set_of_ne _ _ (by decide), hid]
  · intro other hother
    rcases mem_replaceFirst hother with hold | rfl
    · exact .inl hold
    · refine .inr fun reservation hreservation => ?_
      rw [objects_withObjects] at hreservation
      rw [withObjects, textOf_set_of_ne _ _ (by decide)]
      exact hinside reservation hreservation

end

theorem validateReservation_ok {validated : Fields} {mac : String} {address : Address.Host}
    (h : validateReservation reservation = .ok (validated, mac, address)) :
    textOf validated "ip-address" = some address.text := by
  unfold validateReservation at h
  dsimp only at h
  split at h
  · cases h
  split at h
  · split at h
    · cases h
    · cases h
      rfl
  · cases h

theorem addReservation_ok {id : Int} (h : addReservation config id reservation = .ok config') :
    ∃ subnet validated, find config id = .ok subnet ∧ InNetwork ((textOf subnet "subnet").getD "") validated ∧
      config' = withObjects config "subnet4" (replaceFirst id
        (withObjects subnet "reservations" (objects subnet "reservations" ++ [validated])) (objects config "subnet4")) := by
  unfold addReservation at h
  obtain ⟨subnet, hfind, h⟩ := Except.bind_eq_ok.mp h
  obtain ⟨⟨validated, mac, address⟩, hvalidated, h⟩ := Except.bind_eq_ok.mp h
  dsimp only at h
  split at h
  · cases h
  split at h
  · cases h
  next hinside =>
    refine ⟨subnet, validated, hfind, ?_, (Except.ok.inj h).symm⟩
    intro text htext
    rw [validateReservation_ok hvalidated] at htext
    simp only [Bool.not_eq_true', Bool.not_eq_false, Option.any_eq_true] at hinside
    obtain ⟨read, hread, hcontains⟩ := hinside
    exact ⟨read, address, hread, Option.some.inj htext, hcontains⟩

theorem deleteReservation_ok {id : Int} {hwAddress : String} (h : deleteReservation config id hwAddress = .ok config') :
    ∃ subnet mac, find config id = .ok subnet ∧ config' = withObjects config "subnet4" (replaceFirst id
      (withObjects subnet "reservations"
        ((objects subnet "reservations").filter fun other => textOf other "hw-address" ≠ some mac))
      (objects config "subnet4")) := by
  unfold deleteReservation at h
  obtain ⟨subnet, hfind, h⟩ := Except.bind_eq_ok.mp h
  dsimp only at h
  split at h
  · cases h
  · exact ⟨subnet, _, hfind, (Except.ok.inj h).symm⟩

theorem SoundScopes.addReservation (h : SoundScopes config) {id : Int}
    (hok : Dhcp.addReservation config id reservation = .ok config') : SoundScopes config' := by
  obtain ⟨subnet, validated, hfind, hinside, rfl⟩ := addReservation_ok hok
  apply h.reserved hfind
  intro other hother
  rcases List.mem_append.mp hother with hold | hnew
  · exact h.inside subnet (find_ok hfind).1 other hold
  · rw [List.mem_singleton.mp hnew]
    exact hinside

theorem SoundScopes.deleteReservation (h : SoundScopes config) {id : Int} {hwAddress : String}
    (hok : Dhcp.deleteReservation config id hwAddress = .ok config') : SoundScopes config' := by
  obtain ⟨subnet, mac, hfind, rfl⟩ := deleteReservation_ok hok
  apply h.reserved hfind
  intro other hother
  exact h.inside subnet (find_ok hfind).1 other (List.mem_filter.mp hother).1

section
omit [Runtime]

theorem SoundScopes.deleteScope (h : SoundScopes config) {id : Int} (hok : Dhcp.deleteScope config id = .ok config') :
    SoundScopes config' := by
  unfold Dhcp.deleteScope at hok
  obtain ⟨subnet, -, hok⟩ := Except.bind_eq_ok.mp hok
  obtain rfl := Except.ok.inj hok
  constructor
  · rw [objects_withObjects]
    exact (List.Sublist.map idOf List.filter_sublist).nodup h.distinct
  · rw [objects_withObjects]
    intro other hother
    exact h.inside other (List.mem_filter.mp hother).1

theorem EditsOne.refl (id : Int) (scope : Scope) (config : Fields) : EditsOne id scope config config where
  frame := Dict.Frame.refl _ config
  scopes := List.forall₂_same.mpr fun _ _ => .inl rfl

end

variable {accepts : Fields → Bool} {edit : Edit}

end

section
omit [Runtime]

end

end OpenDirectory.Dhcp
