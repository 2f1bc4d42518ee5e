import OpenDirectory.AgentApply

/-! What stays of a policy whose settings fail. The run that fails to write a setting does not claim
what the last run wrote for it, and takes it away. -/

namespace OpenDirectory.Agent

section

variable (faults : Step → Outcome)

def SudoPanics (index : Nat) : Prop :=
  faults ⟨"sudo_rules", index, 0⟩ = .panics ∨
    faults ⟨"sudo_rules", index, 0⟩ = .ok ∧ (faults ⟨"sudo_rules", index, 1⟩ = .panics ∨
      faults ⟨"sudo_rules", index, 1⟩ = .ok ∧ faults ⟨"sudo_rules", index, 2⟩ = .panics)

def StackPanics (files : Files) (index entry : Nat) (pam : String) : Prop :=
  faults ⟨"hbac_rules", index, 2 * entry + 1⟩ = .panics ∨
    faults ⟨"hbac_rules", index, 2 * entry + 1⟩ = .ok ∧ files (pamTarget pam) ≠ none ∧
      faults ⟨"hbac_rules", index, 2 * entry + 2⟩ = .panics

def ServicePanics (files : Files) (index : Nat) (service : String × List String) : Prop :=
  faults ⟨"hbac_rules", index, 0⟩ = .panics ∨
    faults ⟨"hbac_rules", index, 0⟩ = .ok ∧ ∃ entry pam, service.2[entry]? = some pam ∧
      StackPanics faults files index entry pam

/-- A deployed file is written there. -/
def FileLands (settings : Settings) (path : String) : Prop :=
  ∃ index file, settings.files[index]? = some file ∧ file.path = path ∧
    faults ⟨"files", index, 0⟩ = .ok ∧ ∀ before < index, faults ⟨"files", before, 0⟩ ≠ .panics

def CronLands (settings : Settings) (path : String) : Prop :=
  ∃ index job, settings.cron[index]? = some job ∧ cronPath job = path ∧
    faults ⟨"cron", index, 0⟩ = .ok ∧ ∀ before < index, faults ⟨"cron", before, 0⟩ ≠ .panics

/-- A rule is staged there, or is staged, checked and written there. -/
def SudoLands (settings : Settings) (path : String) : Prop :=
  ∃ index rule, settings.sudoRules[index]? = some rule ∧
    (∀ before < index, ¬ SudoPanics faults before) ∧ faults ⟨"sudo_rules", index, 0⟩ = .ok ∧
      (sudoersStaging = path ∨ faults ⟨"sudo_rules", index, 1⟩ = .ok ∧
        faults ⟨"sudo_rules", index, 2⟩ = .ok ∧ sudoPath rule = path)

/-- A stack is gated there, which the machine has to have. -/
def StackLands (files : Files) (index : Nat) (service : String × List String) (path : String) : Prop :=
  ∃ entry pam, service.2[entry]? = some pam ∧
    (∀ before < entry, ∀ other, service.2[before]? = some other →
      ¬ StackPanics faults files index before other) ∧
    pamTarget pam = path ∧ faults ⟨"hbac_rules", index, 2 * entry + 1⟩ = .ok ∧ files path ≠ none ∧
      faults ⟨"hbac_rules", index, 2 * entry + 2⟩ = .ok

def HbacLands (files : Files) (settings : Settings) (path : String) : Prop :=
  settings.hbacRules ≠ [] ∧
    ((∃ index service, hbacServices[index]? = some service ∧
      (∀ before < index, ∀ other, hbacServices[before]? = some other →
        ¬ ServicePanics faults files before other) ∧ faults ⟨"hbac_rules", index, 0⟩ = .ok ∧
        (accessFileFor service.1 = path ∨ StackLands faults files index service path)) ∨
    (∀ index service, hbacServices[index]? = some service →
      ¬ ServicePanics faults files index service) ∧ faults ⟨"hbac_rules", 3, 0⟩ = .ok ∧
        sshdDropIn = path)

end

section

variable {α : Type} {body : Nat → α → Work} {faults : Step → Outcome} {path : String}

/-- Where what makes an entry panic does not depend on the entry, the entries before are reached when
none of theirs happens. -/
theorem reaches_iff {panics : Nat → Prop} {entries : List α} {index : Nat} {entry : α}
    (hbody : ∀ index entry, (body index entry).panicked = true ↔ panics index)
    (hentry : entries[index]? = some entry) :
    Reaches body 0 entries index ↔ ∀ before < index, ¬ panics before := by
  have hlength : index < entries.length := (List.getElem?_eq_some_iff.mp hentry).1
  constructor
  · intro h before hbefore hpanics
    have hsome := List.getElem?_eq_getElem (hbefore.trans hlength)
    have hfalse := h before hbefore _ hsome
    rw [Nat.zero_add] at hfalse
    rw [(hbody before _).mpr hpanics] at hfalse
    cases hfalse
  · intro h before hbefore other _
    have hfalse := mt (hbody (0 + before) other).mp (by rw [Nat.zero_add]; exact h before hbefore)
    simpa using hfalse

variable {files : Files}

end

section

variable {faults : Step → Outcome} {property : Call → Prop}

theorem all_nil : ∀ made ∈ ([] : List Call), property made :=
  fun _ hmade => absurd hmade List.not_mem_nil

end

namespace Pass

variable (pass : Pass) (machine : Machine) (path : String)

/-- Some step of the four appliers gets through at a path. -/
def Lands : Prop :=
  FileLands pass.faults pass.settings path ∨ CronLands pass.faults pass.settings path ∨
    SudoLands pass.faults pass.settings path ∨
      HbacLands pass.faults (pass.filesBefore machine) pass.settings path

/-- No other applier touches a path. -/
def Apart : Prop := ∀ call ∈ pass.others, call.path ≠ path

variable {pass machine path}

end Pass

theorem foldl_other {calls : List Call} {path : String} (h : ∀ call ∈ calls, call.path ≠ path)
    (env : Env) : SameAt env (calls.foldl perform env) path := by
  induction calls generalizing env with
  | nil => exact SameAt.refl _ _
  | cons call calls ih =>
      have hfirst := perform_other env call (h call List.mem_cons_self).symm
      exact hfirst.trans (ih (fun other hother => h other (.tail _ hother)) (perform env call))

/-- What the deployed files leave at a path: the last of them there that is written. -/
def deployed (faults : Step → Outcome) (path : String) : Nat → List FileDeployment → Option String
  | _, [] => none
  | index, file :: files =>
      match faults ⟨"files", index, 0⟩ with
      | .panics => none
      | .fails _ => deployed faults path (index + 1) files
      | .ok => (deployed faults path (index + 1) files).or
          (if file.path = path then some file.content else none)

def pamStacks : List String := (hbacServices.flatMap Prod.snd).map pamTarget

/-- What an entry puts on the machine: a file of its own or a block in one of the system's. -/
inductive Place where
  | file (path : String)
  | block (path : String)

namespace Place

def path : Place → String
  | .file path => path
  | .block path => path

/-- The last run put it there, as a file or as the one section of the agent's in a file. -/
def Installed (machine : Machine) : Place → Prop
  | .file path => path ∈ machine.saved.owned ∧ machine.files path ≠ none
  | .block path => path ∈ machine.saved.blocks ∧ path ∉ machine.saved.owned ∧
      ∃ content, machine.files path = some content ∧ Text.holds content blockStart = true ∧
        Text.holds (stripBlock content) blockStart = false

/-- A step that installs it gets through, or taking it away does not. -/
def Kept (pass : Pass) (machine : Machine) : Place → Prop
  | .file path =>
      pass.Lands machine path ∨ neverPrune path = true ∨ pass.removes path = false
  | .block path =>
      HbacLands pass.faults (pass.filesBefore machine) pass.settings path ∨
        match deployed pass.faults path 0 pass.settings.files with
        | some content => Text.holds content blockStart = true
        | none => ((pass.access path).reads && (pass.access path).writes) = false

end Place

/-- What the entries of a policy install. -/
def Settings.places (settings : Settings) : List Place :=
  settings.files.map (fun file => .file file.path) ++
    settings.cron.map (fun job => .file (cronPath job)) ++
    settings.sudoRules.map (fun rule => .file (sudoPath rule)) ++
    if settings.hbacRules.isEmpty then []
    else .file sshdDropIn :: (hbacServices.map fun service => .file (accessFileFor service.1)) ++
      pamStacks.map .block

namespace Pass

variable {pass : Pass} {machine : Machine} {path : String}

end Pass

end OpenDirectory.Agent
