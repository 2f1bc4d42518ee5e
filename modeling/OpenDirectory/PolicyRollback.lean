import OpenDirectory.JsonText
import OpenDirectory.PolicyHistory
import OpenDirectory.Text

/-! Changes and rollbacks of policy objects one after another. Each records what the object holds before it
writes, so the object can be put back to before any of them, and from there to where it was. Documents go to
the database and come from it as text. -/

namespace OpenDirectory.PolicyHistory

variable {D : Type}

/-- The documents of the database: what it prints of one it reads as that one. -/
structure Jsonb (D : Type) where
  print : D → String
  read : String → Option D
  read_print : ∀ document, read (print document) = some document

/-- What a row holds, after the way of its documents to the console and back. -/
def Jsonb.keep (json : Jsonb D) (content : Content D) : Option (Content D) := do
  let settings ← json.read (json.print content.settings)
  let targeting ← json.read (json.print content.targeting)
  let securityFilter ← json.read (json.print content.securityFilter)
  return { content with settings, securityFilter, targeting }

inductive Call where
  | updateGpo (guid : String) (displayName description : Option String) (enabled : Option Bool)
      (settings securityFilter targeting : Option String)
  | rollbackGpo (revision : Nat)

/-- The database takes no text with a zero character. -/
def storable (text : Option String) : Bool := text.all fun text => !Text.contains text (Char.ofNat 0)

/-- A document that is left out stays as it is; the database refuses what it cannot read. -/
def Jsonb.given (json : Jsonb D) : Option String → Option (Option D)
  | none => some none
  | some text => (json.read text).map some

/-- The object a call is about. -/
def Call.subject (world : World D) : Call → Option String
  | updateGpo guid .. => some guid
  | rollbackGpo revision => world.revisions[revision]?.map Prod.fst

/-- What a call sets, where the database takes it. -/
def Call.write (json : Jsonb D) (world : World D) : Call → Option (Write D)
  | updateGpo _ displayName description enabled settings securityFilter targeting => do
      guard (storable displayName && storable description)
      return .update displayName description enabled (← json.given settings) (← json.given securityFilter)
        (← json.given targeting)
  | rollbackGpo revision => do
      let (_, content) ← world.revisions[revision]?
      return .rollback (← json.keep content)

/-- What the object holds is recorded before it is changed. -/
def change (json : Jsonb D) (world : World D) (guid : String) (write : Option (Write D)) : World D :=
  match Dict.get world.gpos guid with
  | none => world
  | some before =>
      match json.keep before with
      | none => world
      | some kept =>
          let recorded := { world with revisions := world.revisions ++ [(guid, kept)] }
          match write with
          | none => recorded
          | some write => overwrite recorded guid write

def call (json : Jsonb D) (world : World D) (request : Call) : World D :=
  match request.subject world with
  | none => world
  | some guid => change json world guid (request.write json world)

variable {json : Jsonb D} {world : World D} {guid : String}

@[simp] theorem keep_eq (json : Jsonb D) (content : Content D) : json.keep content = some content := by
  simp [Jsonb.keep, json.read_print]

theorem get_overwrite (write : Write D) (other : String) : Dict.get (overwrite world guid write).gpos other =
    if guid = other then (Dict.get world.gpos guid).map write.apply else Dict.get world.gpos other := by
  unfold overwrite
  cases hrow : Dict.get world.gpos guid with
  | none =>
      split_ifs with hguid
      · rw [← hguid, hrow]
        rfl
      · rfl
  | some row =>
      change Dict.get (Dict.set world.gpos guid (write.apply row)) other = _
      rw [Dict.get_set]
      rfl

@[simp] theorem revisions_overwrite (write : Write D) :
    (overwrite world guid write).revisions = world.revisions := by
  unfold overwrite
  cases Dict.get world.gpos guid <;> rfl

/-- A call about an object records what it holds, and changes no other. -/
structure Changed (world after : World D) (guid : String) (before : Content D) : Prop where
  recorded : after.revisions = world.revisions ++ [(guid, before)]
  others : ∀ other, other ≠ guid → Dict.get after.gpos other = Dict.get world.gpos other
  exists_after : ∃ content, Dict.get after.gpos guid = some content

theorem change_changed {before : Content D} (h : Dict.get world.gpos guid = some before)
    (write : Option (Write D)) : Changed world (change json world guid write) guid before := by
  unfold change
  rw [h]
  dsimp only
  rw [keep_eq]
  dsimp only
  cases write with
  | none => exact ⟨rfl, fun _ _ => rfl, before, h⟩
  | some write =>
      constructor
      · rw [revisions_overwrite]
      · intro other hother
        rw [get_overwrite, if_neg (Ne.symm hother)]
      · refine ⟨write.apply before, ?_⟩
        rw [get_overwrite, if_pos rfl, h]
        rfl

theorem call_cases (json : Jsonb D) (world : World D) (request : Call) :
    call json world request = world ∨ ∃ guid before, request.subject world = some guid ∧
      Dict.get world.gpos guid = some before ∧ Changed world (call json world request) guid before := by
  unfold call
  cases hsubject : request.subject world with
  | none => exact .inl rfl
  | some guid =>
      cases hbefore : Dict.get world.gpos guid with
      | none =>
          left
          dsimp only
          rw [change, hbefore]
      | some before => exact .inr ⟨guid, before, rfl, hbefore, change_changed hbefore _⟩

theorem call_revisions (json : Jsonb D) (world : World D) (request : Call) :
    world.revisions <+: (call json world request).revisions := by
  rcases call_cases json world request with hsame | ⟨guid, before, -, -, hchanged⟩
  · rw [hsame]
  · rw [hchanged.recorded]
    exact List.prefix_append _ _

theorem call_exists (json : Jsonb D) (world : World D) (request : Call)
    (h : ∃ content, Dict.get world.gpos guid = some content) :
    ∃ content, Dict.get (call json world request).gpos guid = some content := by
  rcases call_cases json world request with hsame | ⟨guid', before, -, -, hchanged⟩
  · rw [hsame]
    exact h
  · by_cases hguid : guid = guid'
    · rw [hguid]
      exact hchanged.exists_after
    · rw [hchanged.others guid hguid]
      exact h

def run (json : Jsonb D) (world : World D) (calls : List Call) : World D := calls.foldl (call json) world

theorem run_revisions (json : Jsonb D) (world : World D) (calls : List Call) :
    world.revisions <+: (run json world calls).revisions := by
  induction calls generalizing world with
  | nil => exact List.prefix_rfl
  | cons request calls ih => exact (call_revisions json world request).trans (ih (call json world request))

theorem run_exists (json : Jsonb D) (calls : List Call)
    (h : ∃ content, Dict.get world.gpos guid = some content) :
    ∃ content, Dict.get (run json world calls).gpos guid = some content := by
  induction calls generalizing world with
  | nil => exact h
  | cons request calls ih => exact ih (call_exists json world request h)

variable {revision : Nat} {content : Content D}

theorem call_rollback
    (hrevision : world.revisions[revision]? = some (guid, content)) :
    call json world (.rollbackGpo revision) = change json world guid (some (.rollback content)) := by
  have hsubject : Call.subject world (.rollbackGpo revision) = some guid := by
    rw [Call.subject, hrevision]
    rfl
  have hwrite : Call.write json world (.rollbackGpo revision) = some (.rollback content) := by
    simp [Call.write, hrevision]
  rw [call, hsubject, hwrite]

theorem get_rollback
    (hrevision : world.revisions[revision]? = some (guid, content))
    (h : ∃ current, Dict.get world.gpos guid = some current) :
    Dict.get (call json world (.rollbackGpo revision)).gpos guid = some content := by
  obtain ⟨current, hcurrent⟩ := h
  rw [call_rollback hrevision, change, hcurrent]
  dsimp only
  rw [keep_eq]
  dsimp only
  rw [get_overwrite, if_pos rfl, hcurrent]
  rfl

/-- Going back to a revision brings back what the object held when it was recorded, keeps all revisions and adds
one, from which what was there before the rollback comes back; nothing else changes. -/
structure Undone (json : Jsonb D) (world : World D) (revision : Nat) (guid : String) (content : Content D) :
    Prop where
  restored : Dict.get (call json world (.rollbackGpo revision)).gpos guid = some content
  added : ∃ current, Dict.get world.gpos guid = some current ∧
    (call json world (.rollbackGpo revision)).revisions = world.revisions ++ [(guid, current)]
  redone : Dict.get
    (call json (call json world (.rollbackGpo revision)) (.rollbackGpo world.revisions.length)).gpos guid =
      Dict.get world.gpos guid
  others : ∀ other, other ≠ guid →
    Dict.get (call json world (.rollbackGpo revision)).gpos other = Dict.get world.gpos other

theorem undone
    (hrevision : world.revisions[revision]? = some (guid, content))
    (h : ∃ current, Dict.get world.gpos guid = some current) : Undone json world revision guid content := by
  obtain ⟨current, hcurrent⟩ := h
  have hchanged : Changed world (call json world (.rollbackGpo revision)) guid current := by
    rw [call_rollback hrevision]
    exact change_changed hcurrent _
  have hnew : (call json world (.rollbackGpo revision)).revisions[world.revisions.length]? = some (guid, current) := by
    rw [hchanged.recorded]
    exact List.getElem?_concat_length
  exact ⟨get_rollback hrevision ⟨current, hcurrent⟩, ⟨current, hcurrent, hchanged.recorded⟩,
    (get_rollback hnew hchanged.exists_after).trans hcurrent.symm, hchanged.others⟩

/-- Of any calls one after another: the one that comes after the earlier ones and finds its object records a
revision, and after all of them going back to it brings back what the object held just before that call. -/
theorem rollback_undoes (json : Jsonb D) (start : World D) (earlier later : List Call) (request : Call)
    (guid : String) (before : Content D) (hsubject : request.subject (run json start earlier) = some guid)
    (hbefore : Dict.get (run json start earlier).gpos guid = some before) :
    Undone json (run json start (earlier ++ request :: later)) (run json start earlier).revisions.length guid
      before := by
  have hsplit : run json start (earlier ++ request :: later) =
      run json (call json (run json start earlier) request) later := by
    rw [run, List.foldl_append]
    rfl
  have hchanged : Changed (run json start earlier) (call json (run json start earlier) request) guid before := by
    rw [call, hsubject]
    exact change_changed hbefore _
  have hnew : (call json (run json start earlier) request).revisions[(run json start earlier).revisions.length]? =
      some (guid, before) := by
    rw [hchanged.recorded]
    exact List.getElem?_concat_length
  rw [hsplit]
  apply undone
  · obtain ⟨more, hmore⟩ := run_revisions json (call json (run json start earlier) request) later
    rw [← hmore, List.getElem?_append_left (List.getElem?_eq_some_iff.mp hnew).1]
    exact hnew
  · exact run_exists json later hchanged.exists_after

section

variable [Runtime]

section
omit [Runtime]

end

end

/-- What a column holds: its numbers are whole, and no object has a key twice. -/
abbrev Document : Type := { value : Value // JsonText.whole value = true ∧ value.distinct = true }

def documents : Jsonb Document where
  print := fun document => JsonText.document JsonText.goEscape document.val
  read := fun text => (JsonText.loads text).bind fun value =>
    if h : JsonText.whole value = true ∧ value.distinct = true then some ⟨value, h⟩ else none
  read_print := by
    intro document
    rw [JsonText.loads_document JsonText.escapes_go document.property.1 document.property.2, Option.bind_some,
      dif_pos document.property]

/-- A policy object, changed once. -/
def lockScreen : World Document where
  gpos := [("g1", ⟨"Screen lock", "", true, ⟨.obj [("screen_lock", .obj [("minutes", .int 10)])], by decide⟩,
    ⟨.arr [], by decide⟩, ⟨.obj [], by decide⟩⟩)]
  revisions := []
  phase := fun _ => .idle
  held := []

theorem rollback_undoes_rename : Undone documents
    (run documents lockScreen ([] ++ .updateGpo "g1" (some "Lock") none (some false) (some "\x7b\x7d") none none ::
      [.rollbackGpo 0, .updateGpo "g1" none (some "again") none none (some "[1]") none])) 0 "g1"
    ⟨"Screen lock", "", true, ⟨.obj [("screen_lock", .obj [("minutes", .int 10)])], by decide⟩,
      ⟨.arr [], by decide⟩, ⟨.obj [], by decide⟩⟩ :=
  rollback_undoes documents lockScreen []
    [.rollbackGpo 0, .updateGpo "g1" none (some "again") none none (some "[1]") none]
    (.updateGpo "g1" (some "Lock") none (some false) (some "\x7b\x7d") none none) "g1" _ rfl rfl

end OpenDirectory.PolicyHistory
