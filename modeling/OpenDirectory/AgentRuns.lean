import OpenDirectory.AgentPrune

/-! Runs one after another. A run hands what it claims to the next by the saved state alone, so what
is neither claimed nor taken away is forgotten; as long as every removal goes through, nothing is. -/

namespace OpenDirectory.Agent

/-- The machine between runs: its files and the state the last run saved. -/
structure Machine where
  files : Files
  saved : State := {}

/-- What the appliers of one run do, and how the machine answers the rest of it. -/
structure Run where
  calls : List Call
  removes : String → Bool := fun _ => true
  access : String → Access := fun _ => {}
  saves : Bool := true

namespace Run

variable (run : Run) (machine : Machine)

/-- The environment once the appliers are done. -/
def env : Env := run.calls.foldl perform { files := machine.files }

def next : Machine :=
  let after := (prune run.removes run.access machine.saved (run.env machine)).1
  { files := after.files, saved := if run.saves then after.state else machine.saved }

end Run

inductive Kind where
  | file
  | block
  deriving DecidableEq

/-- What the runs have installed at a path and not taken out again: a file written whole, or a block
inside a file. -/
abbrev Ledger := String → Option Kind

namespace Ledger

def set (ledger : Ledger) (path : String) (kind : Kind) : Ledger :=
  Function.update ledger path (some kind)

/-- A block taken out; a file stays what it is. -/
def clear (ledger : Ledger) (path : String) : Ledger :=
  if ledger path = some .block then Function.update ledger path none else ledger

def note (ledger : Ledger) (env : Env) : Call → Ledger
  | .writeFile path _ goes => if goes then ledger.set path .file else ledger
  | .replaceBlock path body access =>
      if !(replaceBlock access env path body).2 then ledger
      else if body = "" then ledger.clear path
      else ledger.set path .block
  | _ => ledger

/-- The ledger and the environment after some calls. -/
def trace (ledger : Ledger) (env : Env) (calls : List Call) : Ledger × Env :=
  calls.foldl (fun traced call => (traced.1.note traced.2 call, perform traced.2 call)) (ledger, env)

/-- The ledger after a run, whose end takes out the blocks no call claimed. -/
def after (ledger : Ledger) (machine : Machine) (run : Run) : Ledger := fun path =>
  let traced := (ledger.trace { files := machine.files } run.calls).1
  let env := run.env machine
  if path ∈ machine.saved.blocks ∧ ¬ env.state.Claims path ∧
      takes (run.access path) env.files path = true then traced.clear path path
  else traced path

end Ledger

structure Traced where
  machine : Machine
  ledger : Ledger := fun _ => none

def Traced.next (traced : Traced) (run : Run) : Traced where
  machine := run.next traced.machine
  ledger := traced.ledger.after traced.machine run

/-- Everything installed is gone or on record. -/
def Traced.Recorded (traced : Traced) : Prop := ∀ path,
  (traced.ledger path = some .file → neverPrune path = false →
    traced.machine.files path = none ∨ path ∈ traced.machine.saved.owned) ∧
  (traced.ledger path = some .block →
    traced.machine.files path = none ∨ path ∈ traced.machine.saved.blocks)

/-- A call that takes nothing off the record that stays on the machine. -/
def Ledger.CallClean (ledger : Ledger) (env : Env) : Call → Prop
  | .own path => ledger path ≠ some .block
  | .keep path => ledger path ≠ some .block
  | .ownBlock path => ledger path ≠ some .file
  | .writeFile _ _ _ => True
  | .replaceBlock path body access =>
      body = "" → takes access env.files path = true ∧ ledger path ≠ some .file

def Ledger.CallsClean (ledger : Ledger) (env : Env) : List Call → Prop
  | [] => True
  | call :: calls =>
      ledger.CallClean env call ∧ (ledger.note env call).CallsClean (perform env call) calls

/-- A run that saves its state, and whose every removal goes through. -/
structure Traced.Clean (traced : Traced) (run : Run) : Prop where
  calls : traced.ledger.CallsClean { files := traced.machine.files } run.calls
  files : ∀ path ∈ traced.machine.saved.owned, ¬ (run.env traced.machine).state.Claims path →
    neverPrune path = false → (run.env traced.machine).files path ≠ none → run.removes path = true
  blocks : ∀ path ∈ traced.machine.saved.blocks, ¬ (run.env traced.machine).state.Claims path →
    takes (run.access path) (run.env traced.machine).files path = true
  saves : run.saves = true

def Traced.AllClean : Traced → List Run → Prop
  | _, [] => True
  | traced, run :: runs => traced.Clean run ∧ (traced.next run).AllClean runs

/-- What holds between the calls of a run that began with some state saved. -/
structure Held (saved : State) (ledger : Ledger) (env : Env) (path : String) : Prop where
  file : ledger path = some .file → neverPrune path = false →
    path ∈ env.state.owned ∨
      ¬ env.state.Claims path ∧ (env.files path = none ∨ path ∈ saved.owned)
  block : ledger path = some .block →
    path ∈ env.state.blocks ∨
      ¬ env.state.Claims path ∧ (env.files path = none ∨ path ∈ saved.blocks)

theorem Held.same {saved : State} {ledger ledger' : Ledger} {env env' : Env} {path : String}
    (h : Held saved ledger env path) (hledger : ledger' path = ledger path)
    (hsame : SameAt env env' path) : Held saved ledger' env' path := by
  refine ⟨fun hfile hnever => ?_, fun hblock => ?_⟩
  · rw [hledger] at hfile
    rw [hsame.owned, hsame.claims, hsame.files]
    exact h.file hfile hnever
  · rw [hledger] at hblock
    rw [hsame.blocks, hsame.claims, hsame.files]
    exact h.block hblock

def Call.path : Call → String
  | .own path => path
  | .keep path => path
  | .ownBlock path => path
  | .writeFile path _ _ => path
  | .replaceBlock path _ _ => path

theorem perform_other (env : Env) (call : Call) {path : String} (h : path ≠ call.path) :
    SameAt env (perform env call) path := by
  cases call with
  | own other =>
      replace h : path ≠ other := h
      exact ⟨rfl, by simp [perform, h], Iff.rfl⟩
  | keep other =>
      replace h : path ≠ other := h
      exact ⟨rfl, by simp [perform, h], Iff.rfl⟩
  | ownBlock other =>
      replace h : path ≠ other := h
      exact ⟨rfl, by simp [perform, h], by simp [perform, h]⟩
  | writeFile other content goes => exact writeFile_other goes env other content h
  | replaceBlock other body access => exact replaceBlock_other access env other body h

theorem note_other (ledger : Ledger) (env : Env) (call : Call) {path : String}
    (h : path ≠ call.path) : ledger.note env call path = ledger path := by
  cases call with
  | own _ => rfl
  | keep _ => rfl
  | ownBlock _ => rfl
  | writeFile other content goes =>
      replace h : path ≠ other := h
      cases goes <;> simp [Ledger.note, Ledger.set, h]
  | replaceBlock other body access =>
      replace h : path ≠ other := h
      simp only [Ledger.note]
      split
      · rfl
      · split
        · unfold Ledger.clear
          split <;> simp [h]
        · simp [Ledger.set, h]

theorem clear_ne_block (ledger : Ledger) (path : String) : ledger.clear path path ≠ some .block := by
  unfold Ledger.clear
  split
  · simp
  · assumption

theorem held_perform {saved : State} {ledger : Ledger} {env : Env} {call : Call}
    (hclean : ledger.CallClean env call) {path : String} (h : Held saved ledger env path) :
    Held saved (ledger.note env call) (perform env call) path := by
  by_cases hpath : path = call.path
  · subst hpath
    cases call with
    | own path =>
        refine ⟨fun _ _ => .inl ?_, fun hblock => absurd hblock hclean⟩
        simp [perform, Call.path]
    | keep path =>
        refine ⟨fun _ _ => .inl ?_, fun hblock => absurd hblock hclean⟩
        simp [perform, Call.path]
    | ownBlock path =>
        refine ⟨fun hfile => absurd hfile hclean, fun _ => .inl ?_⟩
        simp [perform, Call.path]
    | writeFile path content goes =>
        cases goes with
        | false => exact h
        | true =>
            refine ⟨fun _ hnever => .inl ?_, fun hblock => ?_⟩
            · simp only [Call.path] at hnever ⊢
              simp [perform, writeFile, hnever]
            · simp [Ledger.note, Ledger.set, Call.path] at hblock
    | replaceBlock path body access =>
        by_cases hbody : body = ""
        · subst hbody
          obtain ⟨htakes, hkind⟩ := hclean rfl
          have hledger : ledger.note env (.replaceBlock path "" access) path =
              ledger.clear path path := by
            simp [Ledger.note, replaceBlock_empty_went, htakes]
          refine ⟨fun hfile => ?_, fun hblock => ?_⟩
          · rw [Call.path, hledger] at hfile
            unfold Ledger.clear at hfile
            split at hfile
            · simp at hfile
            · exact absurd hfile hkind
          · rw [Call.path, hledger] at hblock
            exact absurd hblock (clear_ne_block ledger path)
        · obtain ⟨hwent, hkept, hput⟩ := replaceBlock_body access env path body hbody
          cases haccess : access.reads && access.writes with
          | false =>
              have hledger : ledger.note env (.replaceBlock path body access) = ledger := by
                simp [Ledger.note, hwent, haccess]
              rw [hledger, perform, hkept haccess]
              exact h
          | true =>
              have hledger : ledger.note env (.replaceBlock path body access) path =
                  some .block := by
                simp [Ledger.note, hwent, haccess, hbody, Ledger.set]
              refine ⟨fun hfile => ?_, fun _ => .inl (hput haccess)⟩
              rw [Call.path, hledger] at hfile
              cases hfile
  · exact h.same (note_other ledger env call hpath) (perform_other env call hpath)

theorem held_trace {saved : State} {calls : List Call} {ledger : Ledger} {env : Env}
    (hclean : ledger.CallsClean env calls) {path : String} (h : Held saved ledger env path) :
    Held saved (ledger.trace env calls).1 (calls.foldl perform env) path := by
  induction calls generalizing ledger env with
  | nil => exact h
  | cons call calls ih => exact ih hclean.2 (held_perform hclean.1 h)

theorem trace_of_after_file {ledger : Ledger} {machine : Machine} {run : Run} {path : String}
    (h : ledger.after machine run path = some .file) :
    (ledger.trace { files := machine.files } run.calls).1 path = some .file := by
  unfold Ledger.after at h
  dsimp only at h
  split at h
  · unfold Ledger.clear at h
    split at h
    · simp at h
    · exact h
  · exact h

theorem trace_of_after_block {ledger : Ledger} {machine : Machine} {run : Run} {path : String}
    (h : ledger.after machine run path = some .block) :
    (ledger.trace { files := machine.files } run.calls).1 path = some .block ∧
      ¬ (path ∈ machine.saved.blocks ∧ ¬ (run.env machine).state.Claims path ∧
        takes (run.access path) (run.env machine).files path = true) := by
  unfold Ledger.after at h
  dsimp only at h
  split at h
  · exact absurd h (clear_ne_block _ path)
  · rename_i hstays
    exact ⟨h, hstays⟩

theorem recorded_next {traced : Traced} {run : Run} (hclean : traced.Clean run)
    (h : traced.Recorded) : (traced.next run).Recorded := by
  intro path
  have hstart : Held traced.machine.saved traced.ledger { files := traced.machine.files } path :=
    ⟨fun hfile hnever => .inr ⟨by simp [State.Claims], (h path).1 hfile hnever⟩,
      fun hblock => .inr ⟨by simp [State.Claims], (h path).2 hblock⟩⟩
  have hheld := held_trace hclean.calls hstart
  have hfiles := prune_files run.removes run.access traced.machine.saved (run.env traced.machine) path
  obtain ⟨howned, hblocks⟩ := prune_state run.removes run.access traced.machine.saved
    (run.env traced.machine) path
  have hsaved : (run.next traced.machine).saved =
      (prune run.removes run.access traced.machine.saved (run.env traced.machine)).1.state := by
    simp [Run.next, hclean.saves]
  refine ⟨fun hfile hnever => ?_, fun hblock => ?_⟩
  · rcases hheld.file (trace_of_after_file hfile) hnever with hclaimed | ⟨hunclaimed, hgone⟩
    · right
      rw [Traced.next, hsaved, howned]
      exact hclaimed
    · left
      show (prune run.removes run.access traced.machine.saved (run.env traced.machine)).1.files path =
        none
      by_cases hthere : (run.env traced.machine).files path = none
      · rw [hfiles, hthere]
        simp
      · have hsaved := hgone.resolve_left hthere
        rw [hfiles, if_pos ⟨hsaved, hunclaimed, hnever, hclean.files path hsaved hunclaimed hnever hthere⟩]
  · obtain ⟨htraced, hstays⟩ := trace_of_after_block hblock
    rcases hheld.block htraced with hclaimed | ⟨hunclaimed, hgone⟩
    · right
      rw [Traced.next, hsaved, hblocks]
      exact hclaimed
    · rcases hgone with hnone | hsaved
      · left
        show (prune run.removes run.access traced.machine.saved (run.env traced.machine)).1.files
          path = none
        have hnone' : (run.env traced.machine).files path = none := hnone
        rw [hfiles, hnone']
        simp
      · exact absurd ⟨hsaved, hunclaimed, hclean.blocks path hsaved hunclaimed⟩ hstays

theorem recorded_of_allClean {runs : List Run} {traced : Traced} (hclean : traced.AllClean runs)
    (h : traced.Recorded) : (runs.foldl Traced.next traced).Recorded := by
  induction runs generalizing traced with
  | nil => exact h
  | cons run runs ih => exact ih hclean.2 (recorded_next hclean.1 h)

theorem allClean_of_earlier {done runs : List Run} (hdone : done <+: runs) {traced : Traced}
    (h : traced.AllClean runs) : traced.AllClean done := by
  obtain ⟨rest, rfl⟩ := hdone
  induction done generalizing traced with
  | nil => trivial
  | cons run done ih => exact ⟨h.1, ih h.2⟩

/-- After every run of a sequence in which each removal goes through and each state is saved,
whatever the runs installed is gone from the machine or on record. -/
theorem installed_recorded (start : Machine) {runs : List Run}
    (hclean : Traced.AllClean ⟨start, fun _ => none⟩ runs) :
    ∀ done, done <+: runs → (done.foldl Traced.next ⟨start, fun _ => none⟩).Recorded := by
  intro done hdone
  exact recorded_of_allClean (allClean_of_earlier hdone hclean) fun _ => ⟨nofun, nofun⟩

/-- A run that installs a cron job and gates a service. -/
def cronRun : Run where
  calls := [.writeFile "/etc/cron.d/odm-backup" "0 1 * * * root backup\n" true,
    .replaceBlock "/etc/pam.d/sshd" "account required pam_access.so\n" {}]

theorem installed_recorded_cron :
    ([cronRun, { calls := [] }].foldl Traced.next
      ⟨⟨fun _ => none, {}⟩, fun _ => none⟩).Recorded := by
  have hclean : Traced.AllClean ⟨⟨fun _ => none, {}⟩, fun _ => none⟩ [cronRun, { calls := [] }] := by
    refine ⟨⟨⟨trivial, fun hempty => ?_, trivial⟩, nofun, nofun, rfl⟩,
      ⟨trivial, fun _ _ _ _ _ => rfl, fun _ _ _ => rfl, rfl⟩, trivial⟩
    exact absurd hempty (by decide)
  exact installed_recorded _ hclean _ (List.prefix_refl _)

/-- A file that cannot be removed when no policy asks for it any more is never removed: the run that
failed to does not hand it on. -/
theorem forgotten_cron :
    let path := "/etc/cron.d/odm-backup"
    let after := [cronRun, { calls := [], removes := fun _ => false }].foldl Traced.next
      ⟨⟨fun _ => none, {}⟩, fun _ => none⟩
    after.ledger path = some .file ∧ neverPrune path = false ∧
      after.machine.files path = some "0 1 * * * root backup\n" ∧
      ¬ after.machine.saved.Claims path := by
  refine ⟨by decide +kernel, by decide, by decide +kernel, by decide +kernel⟩

end OpenDirectory.Agent
