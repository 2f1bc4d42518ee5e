import OpenDirectory.Steps
import OpenDirectory.Value

/-! The history of the policy objects. A change or a rollback reads the object, records what it read and then
writes, in three statements; a replacing import and the publishing of the trust store only write. Requests of
all kinds take their statements in any order. -/

namespace OpenDirectory.PolicyHistory

variable {D : Type}

/-- What of a policy object its history keeps; `D` are the documents. -/
structure Content (D : Type) where
  displayName : String
  description : String
  enabled : Bool
  settings : D
  securityFilter : D
  targeting : D
  deriving DecidableEq

/-- What an `UPDATE` of the row sets. -/
inductive Write (D : Type) where
  | update (displayName description : Option String) (enabled : Option Bool)
      (settings securityFilter targeting : Option D)
  | rollback (content : Content D)
  | replace (description : String) (enabled : Bool) (settings securityFilter targeting : D)
  | publish (settings : D)

def Write.apply (write : Write D) (row : Content D) : Content D :=
  match write with
  | update displayName description enabled settings securityFilter targeting =>
      { displayName := displayName.getD row.displayName
        description := description.getD row.description
        enabled := enabled.getD row.enabled
        settings := settings.getD row.settings
        securityFilter := securityFilter.getD row.securityFilter
        targeting := targeting.getD row.targeting }
  | rollback content => content
  | replace description enabled settings securityFilter targeting =>
      { row with description, enabled, settings, securityFilter, targeting }
  | publish settings => { row with settings }

inductive Request (D : Type) where
  | updateGpo (guid : String) (displayName description : Option String) (enabled : Option Bool)
      (settings securityFilter targeting : Option D)
  /-- To the revision of this place in the table. -/
  | rollbackGpo (revision : Nat)
  | importGpo (name description : String) (enabled : Bool) (settings securityFilter targeting : D)
  | publish (settings : D)

/-- How far a request is. -/
inductive Phase (D : Type) where
  | idle
  | read (guid : String) (before : Content D) (write : Write D)
  | recorded (guid : String) (before : Content D) (write : Write D)
  /-- An import or a publishing found which object it is about. -/
  | found (guid : String) (write : Write D)

structure World (D : Type) where
  gpos : List (String × Content D)
  revisions : List (String × Content D)
  phase : Nat → Phase D
  /-- What the objects have held so far, which no request reads. -/
  held : List (String × Content D)

def trustGpoName : String := "ODM Certificate Trust"

variable [Runtime]

def find (world : World D) (p : Content D → Bool) : Option String :=
  (world.gpos.find? fun row => p row.2).map Prod.fst

/-- The first statement of a request. The revision a rollback goes back to stays as it is. -/
def begin (world : World D) : Request D → Phase D
  | .updateGpo guid displayName description enabled settings securityFilter targeting =>
      match Dict.get world.gpos guid with
      | none => .idle
      | some before =>
          .read guid before (.update displayName description enabled settings securityFilter targeting)
  | .rollbackGpo revision =>
      match world.revisions[revision]? with
      | none => .idle
      | some (guid, content) =>
          match Dict.get world.gpos guid with
          | none => .idle
          | some before => .read guid before (.rollback content)
  | .importGpo name description enabled settings securityFilter targeting =>
      match find world fun row => lower row.displayName = lower name with
      | none => .idle
      | some guid => .found guid (.replace description enabled settings securityFilter targeting)
  | .publish settings =>
      match find world fun row => row.displayName = trustGpoName with
      | none => .idle
      | some guid => .found guid (.publish settings)

def World.set (world : World D) (guid : String) (content : Content D) : World D :=
  { world with gpos := Dict.set world.gpos guid content, held := world.held ++ [(guid, content)] }

def World.at (world : World D) (request : Nat) (phase : Phase D) : World D :=
  { world with phase := Function.update world.phase request phase }

def overwrite (world : World D) (guid : String) (write : Write D) : World D :=
  match Dict.get world.gpos guid with
  | none => world
  | some row => world.set guid (write.apply row)

/-- The next statement of a request. -/
def proceed (world : World D) (request : Nat) : World D :=
  match world.phase request with
  | .idle => world
  | .read guid before write =>
      { world with revisions := world.revisions ++ [(guid, before)] }.at request (.recorded guid before write)
  | .recorded guid _ write => (overwrite world guid write).at request .idle
  | .found guid write => (overwrite world guid write).at request .idle

inductive Move (D : Type) where
  /-- A new object, from the console, an import or the first publishing. -/
  | create (guid : String) (content : Content D)
  | begin (request : Nat) (body : Request D)
  | proceed (request : Nat)
  | abandon (request : Nat)

def next (world : World D) : Move D → World D
  | .create guid content => if (Dict.get world.gpos guid).isSome then world else world.set guid content
  | .begin request body => world.at request (begin world body)
  | .proceed request => proceed world request
  | .abandon request => world.at request .idle

/-- What an object held and holds no longer is in a revision of it. -/
def Complete (world : World D) : Prop :=
  ∀ guid content, (guid, content) ∈ world.held →
    Dict.get world.gpos guid = some content ∨ (guid, content) ∈ world.revisions

/-- After the move the history is complete. -/
def Recorded (world : World D) (move : Move D) : Prop := Complete (next world move)

/-- What a request is about to change was recorded: by itself, when nothing was written since it read, or by
another; an import and a publishing record nothing themselves. -/
def covers (world : World D) : Phase D → Prop
  | .recorded guid before write => ∀ row, Dict.get world.gpos guid = some row → write.apply row ≠ row →
      row = before ∨ (guid, row) ∈ world.revisions
  | .found guid write => ∀ row, Dict.get world.gpos guid = some row → write.apply row ≠ row →
      (guid, row) ∈ world.revisions
  | _ => True

def Covered (world : World D) : Move D → Prop
  | .proceed request => covers world (world.phase request)
  | _ => True

structure Sound (world : World D) : Prop where
  complete : Complete world
  held : ∀ guid content, Dict.get world.gpos guid = some content → (guid, content) ∈ world.held
  recorded : ∀ request guid before write, world.phase request = .recorded guid before write →
    (guid, before) ∈ world.revisions

variable {world : World D}

variable {guid : String}

section
omit [Runtime]

theorem complete_set (h : Sound world) {row : Content D}
    (hrow : Dict.get world.gpos guid = some row) (content : Content D) :
    Complete (world.set guid content) ↔ (content ≠ row → (guid, row) ∈ world.revisions) := by
  unfold Complete World.set
  simp only [Dict.get_set, List.mem_append, List.mem_singleton]
  constructor
  · intro hcomplete hne
    have hheld := hcomplete guid row (.inl (h.held guid row hrow))
    rw [if_pos rfl] at hheld
    exact hheld.resolve_left fun heq => hne (Option.some.inj heq)
  · rintro hrevision guid' content' (hheld | hnew)
    · by_cases hguid : guid = guid'
      · subst hguid
        rw [if_pos rfl]
        rcases h.complete guid content' hheld with hcurrent | hrecorded
        · obtain rfl := Option.some.inj (hrow.symm.trans hcurrent)
          by_cases hsame : content = row
          · exact .inl (congrArg some hsame)
          · exact .inr (hrevision hsame)
        · exact .inr hrecorded
      · rw [if_neg hguid]
        exact h.complete guid' content' hheld
    · obtain ⟨rfl, rfl⟩ := Prod.mk.inj hnew
      exact .inl (if_pos rfl)

theorem complete_create (h : Complete world) (hfree : Dict.get world.gpos guid = none)
    (content : Content D) : Complete (world.set guid content) := by
  unfold Complete World.set
  simp only [Dict.get_set, List.mem_append, List.mem_singleton]
  rintro guid' content' (hheld | hnew)
  · by_cases hguid : guid = guid'
    · subst hguid
      refine .inr ((h guid content' hheld).resolve_left fun heq => ?_)
      exact Option.some_ne_none _ (heq.symm.trans hfree)
    · rw [if_neg hguid]
      exact h guid' content' hheld
  · obtain ⟨rfl, rfl⟩ := Prod.mk.inj hnew
    exact .inl (if_pos rfl)

theorem held_set (h : Sound world) (guid : String) (content : Content D) :
    ∀ guid' content', Dict.get (world.set guid content).gpos guid' = some content' →
      (guid', content') ∈ (world.set guid content).held := by
  intro guid' content' hget
  change Dict.get (Dict.set world.gpos guid content) guid' = some content' at hget
  rw [Dict.get_set] at hget
  by_cases hguid : guid = guid'
  · rw [if_pos hguid] at hget
    obtain rfl := Option.some.inj hget
    exact List.mem_append_right _ (List.mem_singleton.mpr (by rw [hguid]))
  · rw [if_neg hguid] at hget
    exact List.mem_append_left _ (h.held guid' content' hget)

theorem recorded_at (h : ∀ request guid before write, world.phase request = .recorded guid before write →
    (guid, before) ∈ world.revisions) (request : Nat) {phase : Phase D}
    (hphase : ∀ guid before write, phase = .recorded guid before write → (guid, before) ∈ world.revisions) :
    ∀ other guid before write, (world.at request phase).phase other = .recorded guid before write →
      (guid, before) ∈ (world.at request phase).revisions := by
  intro other guid before write hother
  by_cases hsame : other = request
  · subst hsame
    apply hphase guid before write
    rw [← hother]
    exact (Function.update_self other phase world.phase).symm
  · apply h other guid before write
    rw [← hother]
    exact (Function.update_of_ne hsame phase world.phase).symm

theorem recorded_overwrite (h : Sound world) (request : Nat) (guid : String) (write : Write D) :
    ∀ other guid' before write', ((overwrite world guid write).at request .idle).phase other =
      .recorded guid' before write' → (guid', before) ∈ ((overwrite world guid write).at request .idle).revisions := by
  apply recorded_at
  · unfold overwrite
    cases Dict.get world.gpos guid with
    | none => exact h.recorded
    | some row => exact h.recorded
  · rintro guid before write ⟨⟩

theorem complete_overwrite (h : Sound world) (request : Nat) (guid : String) (write : Write D) :
    Complete ((overwrite world guid write).at request .idle) ↔ ∀ row, Dict.get world.gpos guid = some row →
      write.apply row ≠ row → (guid, row) ∈ world.revisions := by
  change Complete (overwrite world guid write) ↔ _
  unfold overwrite
  cases hrow : Dict.get world.gpos guid with
  | none => exact iff_of_true h.complete fun row heq => absurd heq (by simp)
  | some row =>
      dsimp only
      rw [complete_set h hrow]
      constructor
      · rintro hrecorded row' ⟨⟩
        exact hrecorded
      · exact fun hrecorded => hrecorded row rfl

end

theorem create_cases (world : World D) (guid : String) (content : Content D) :
    next world (.create guid content) = world ∨
      Dict.get world.gpos guid = none ∧ next world (.create guid content) = world.set guid content := by
  by_cases htaken : (Dict.get world.gpos guid).isSome = true
  · exact .inl (if_pos htaken)
  · exact .inr ⟨Option.not_isSome_iff_eq_none.mp htaken, if_neg htaken⟩

theorem begin_not_recorded (body : Request D) {before : Content D} {write : Write D} :
    begin world body ≠ .recorded guid before write := by
  cases body with
  | updateGpo guid displayName description enabled settings securityFilter targeting =>
      unfold begin
      dsimp only
      cases Dict.get world.gpos guid <;> rintro ⟨⟩
  | rollbackGpo revision =>
      unfold begin
      dsimp only
      cases world.revisions[revision]? with
      | none => rintro ⟨⟩
      | some found =>
          dsimp only
          cases Dict.get world.gpos found.1 <;> rintro ⟨⟩
  | importGpo name description enabled settings securityFilter targeting =>
      unfold begin
      dsimp only
      cases find world fun row => lower row.displayName = lower name <;> rintro ⟨⟩
  | publish settings =>
      unfold begin
      dsimp only
      cases find world fun row => row.displayName = trustGpoName <;> rintro ⟨⟩

theorem recorded_iff (h : Sound world) (move : Move D) : Recorded world move ↔ Covered world move := by
  cases move with
  | create guid content =>
      refine iff_of_true ?_ trivial
      unfold Recorded
      rcases create_cases world guid content with heq | ⟨hfree, heq⟩
      · rw [heq]
        exact h.complete
      · rw [heq]
        exact complete_create h.complete hfree content
  | begin request body => exact iff_of_true h.complete trivial
  | abandon request => exact iff_of_true h.complete trivial
  | proceed request =>
      change Complete (proceed world request) ↔ covers world (world.phase request)
      unfold proceed
      cases hphase : world.phase request with
      | idle => exact iff_of_true h.complete trivial
      | read guid before write =>
          refine iff_of_true ?_ trivial
          intro guid' content hheld
          exact (h.complete guid' content hheld).imp_right (List.mem_append_left _)
      | recorded guid before write =>
          dsimp only [covers]
          rw [complete_overwrite h]
          apply forall₂_congr
          intro row _
          apply imp_congr_right
          intro _
          constructor
          · exact .inr
          · rintro (rfl | hrecorded)
            · exact h.recorded request guid row write hphase
            · exact hrecorded
      | found guid write => exact complete_overwrite h request guid write

theorem next_sound (h : Sound world) (move : Move D) (hrecorded : Recorded world move) :
    Sound (next world move) := by
  refine ⟨hrecorded, ?_, ?_⟩
  · cases move with
    | create guid content =>
        rcases create_cases world guid content with heq | ⟨-, heq⟩
        · rw [heq]
          exact h.held
        · rw [heq]
          exact held_set h guid content
    | begin request body => exact h.held
    | abandon request => exact h.held
    | proceed request =>
        have hwrite : ∀ guid write, ∀ guid' content',
            Dict.get ((overwrite world guid write).at request .idle).gpos guid' = some content' →
              (guid', content') ∈ ((overwrite world guid write).at request .idle).held := by
          intro guid write
          change ∀ guid' content', Dict.get (overwrite world guid write).gpos guid' = some content' →
            (guid', content') ∈ (overwrite world guid write).held
          unfold overwrite
          cases Dict.get world.gpos guid with
          | none => exact h.held
          | some row => exact held_set h guid _
        change ∀ guid content, Dict.get (proceed world request).gpos guid = some content →
          (guid, content) ∈ (proceed world request).held
        unfold proceed
        cases world.phase request with
        | idle => exact h.held
        | read guid before write => exact h.held
        | recorded guid before write => exact hwrite guid write
        | found guid write => exact hwrite guid write
  · cases move with
    | create guid content =>
        rcases create_cases world guid content with heq | ⟨-, heq⟩
        · rw [heq]
          exact h.recorded
        · rw [heq]
          exact h.recorded
    | begin request body =>
        apply recorded_at h.recorded
        exact fun guid before write heq => absurd heq (begin_not_recorded body)
    | abandon request =>
        apply recorded_at h.recorded
        rintro guid before write ⟨⟩
    | proceed request =>
        change ∀ other guid before write, (proceed world request).phase other = .recorded guid before write →
          (guid, before) ∈ (proceed world request).revisions
        unfold proceed
        cases world.phase request with
        | idle => exact h.recorded
        | read guid before write =>
            apply recorded_at
            · intro other guid' before' write' hother
              exact List.mem_append_left _ (h.recorded other guid' before' write' hother)
            · rintro guid' before' write' ⟨⟩
              exact List.mem_append_right _ List.mem_cons_self
        | recorded guid before write => exact recorded_overwrite h request guid write
        | found guid write => exact recorded_overwrite h request guid write

/-- No object yet, and no request under way. -/
def start : World D := ⟨[], [], fun _ => .idle, []⟩

/-- Over a run of the requests, in whichever order they take their statements, the history stays complete
exactly when whatever a write changes was recorded before. -/
theorem history_complete_iff (moves : List (Move D)) :
    Steps.Each next Recorded start moves ↔ Steps.Each next Covered start moves := by
  have hstart : Sound (start : World D) := by
    refine ⟨fun _ _ hheld => absurd hheld List.not_mem_nil, fun _ _ hget => absurd hget.symm (Option.some_ne_none _), ?_⟩
    rintro request guid before write ⟨⟩
  exact @Steps.each_iff (World D) (Move D) Sound next Recorded Covered (fun _ move h => next_sound h move)
    (fun _ move h => recorded_iff h move) start hstart moves

omit [Runtime] in
theorem proceed_read {request : Nat} {before : Content D} {write : Write D}
    (h : world.phase request = .read guid before write) : proceed world request =
      { world with revisions := world.revisions ++ [(guid, before)] }.at request (.recorded guid before write) := by
  rw [proceed, h]

omit [Runtime] in
theorem proceed_recorded {request : Nat} {before row : Content D} {write : Write D}
    (h : world.phase request = .recorded guid before write) (hrow : Dict.get world.gpos guid = some row) :
    Dict.get (proceed world request).gpos guid = some (write.apply row) := by
  rw [proceed, h]
  change Dict.get (overwrite world guid write).gpos guid = _
  rw [overwrite, hrow]
  exact Dict.get_set_self _ _ _

/-- What a revision holds a rollback that nothing comes between brings back. -/
theorem rollback_restores {revision : Nat} {content row : Content D}
    (hrevision : world.revisions[revision]? = some (guid, content)) (hrow : Dict.get world.gpos guid = some row)
    (request : Nat) :
    Dict.get ([.begin request (.rollbackGpo revision), .proceed request, .proceed request].foldl next world).gpos
      guid = some content := by
  have hbegin : begin world (.rollbackGpo revision) = .read guid row (.rollback content) := by
    unfold begin
    dsimp only
    rw [hrevision]
    dsimp only
    rw [hrow]
  have hread : (world.at request (.read guid row (.rollback content))).phase request =
      .read guid row (.rollback content) := Function.update_self _ _ _
  change Dict.get (proceed (proceed (world.at request (begin world (.rollbackGpo revision))) request) request).gpos
    guid = some content
  rw [hbegin, proceed_read hread]
  have hrecorded : (World.at { world.at request (.read guid row (.rollback content)) with
      revisions := world.revisions ++ [(guid, row)] } request
      (.recorded guid row (.rollback content))).phase request = .recorded guid row (.rollback content) :=
    Function.update_self _ _ _
  exact proceed_recorded hrecorded hrow

/-- A policy object, and an export in which it is switched off. -/
def screenLock : Content Nat := ⟨"Screen lock", "", true, 300, 0, 0⟩

omit [Runtime] in
theorem import_forgets : letI := Runtime.latin
    ¬ Steps.Each next Recorded start
      [.create "g1" screenLock, .begin 0 (.importGpo "screen lock" "" false 300 0 0), .proceed 0] := by
  let _ := Runtime.latin
  rintro ⟨-, -, hrecorded, -⟩
  rcases hrecorded "g1" screenLock (by decide +kernel) with hcurrent | hrevision
  · revert hcurrent
    decide +kernel
  · revert hrevision
    decide +kernel

end OpenDirectory.PolicyHistory
