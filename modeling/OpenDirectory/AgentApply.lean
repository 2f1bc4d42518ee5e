import OpenDirectory.AccessFile
import OpenDirectory.AgentRuns

/-! Four appliers, each with every way its writes and commands can fail or it can panic, and the run
they are part of. What a policy installed before stays exactly when the run claims it again, and a
step that fails before the write claims nothing. -/

namespace OpenDirectory.Agent

structure FileDeployment where
  path : String
  content : String := ""

structure CronJob where
  name : String
  schedule : String
  command : String
  user : String := ""
  deriving DecidableEq

structure SudoRule where
  name : String
  users : List String
  commands : List String
  runAs : String := ""
  noPasswd : Bool := false
  deriving DecidableEq

structure Settings where
  files : List FileDeployment := []
  cron : List CronJob := []
  sudoRules : List SudoRule := []
  hbacRules : List HbacRule := []

inductive Status where
  | success
  | failed
  deriving DecidableEq

/-- What is reported of a setting; a reason as far as the report keeps it. -/
structure Result where
  setting : String
  status : Status
  reason : String := ""
  deriving DecidableEq

def ok (setting : String) : Result := ⟨setting, .success, ""⟩

def fail (setting reason : String) : Result := ⟨setting, .failed, reason⟩

/-- How one step of an applier ends. -/
inductive Outcome where
  | ok
  | fails (reason : String)
  | panics

/-- A step of an applier: which entry of its category it is for, and which of its steps it is. -/
structure Step where
  applier : String
  entry : Nat
  step : Nat
  deriving DecidableEq

/-- What an applier did: its calls, its results, and whether it panicked. -/
structure Work where
  calls : List Call := []
  results : List Result := []
  panicked : Bool := false

namespace Work

def andThen (work next : Work) : Work :=
  if work.panicked then work
  else ⟨work.calls ++ next.calls, work.results ++ next.results, next.panicked⟩

def report (result : Result) : Work := { results := [result] }

/-- A step that makes a call, which says whether it went through. -/
def attempt (outcome : Outcome) (call : Bool → List Call) (failed : String → Work)
    (went : Work) : Work :=
  match outcome with
  | .panics => { panicked := true }
  | .fails reason => { failed reason with calls := call false ++ (failed reason).calls }
  | .ok => { went with calls := call true ++ went.calls }

/-- The entries of a category one after another. -/
def each {α : Type} (body : Nat → α → Work) (first : Nat) : List α → Work
  | [] => {}
  | entry :: entries => (body first entry).andThen (each body (first + 1) entries)

/-- Results as the run reports them: a panic takes those of its applier with it. -/
def reported (work : Work) (name : String) : List Result :=
  if work.panicked then [⟨name, .failed, "applier panicked"⟩] else work.results

end Work

def write (path content : String) (goes : Bool) : List Call := [.writeFile path content goes]

def applyFile (faults : Step → Outcome) (index : Nat) (file : FileDeployment) : Work :=
  let setting := "files:" ++ file.path
  Work.attempt (faults ⟨"files", index, 0⟩) (write file.path file.content)
    (fun reason => .report (fail setting reason)) (.report (ok setting))

def applyFiles (faults : Step → Outcome) (settings : Settings) : Work :=
  Work.each (applyFile faults) 0 settings.files

/-- A name with its dots replaced: neither cron nor sudo reads a file with a dot in its name. -/
def undotted (name : String) : String :=
  String.ofList (name.toList.map fun c => if c = '.' then '-' else c)

def cronPath (job : CronJob) : String := "/etc/cron.d/odm-" ++ undotted job.name

def cronBody (job : CronJob) : String :=
  header ++ "SHELL=/bin/sh\nPATH=/usr/local/sbin:/usr/local/bin:/sbin:/bin:/usr/sbin:/usr/bin\n" ++
    job.schedule ++ " " ++ (if job.user = "" then "root" else job.user) ++ " " ++ job.command ++ "\n"

def applyCronJob (faults : Step → Outcome) (index : Nat) (job : CronJob) : Work :=
  let setting := "cron:" ++ job.name
  Work.attempt (faults ⟨"cron", index, 0⟩) (write (cronPath job) (cronBody job))
    (fun reason => .report (fail setting reason)) (.report (ok setting))

def applyCron (faults : Step → Outcome) (settings : Settings) : Work :=
  Work.each (applyCronJob faults) 0 settings.cron

def sudoersStaging : String := "/etc/odm/sudoers-candidate"

def sudoPath (rule : SudoRule) : String := "/etc/sudoers.d/odm-" ++ undotted rule.name

def sudoBody (rule : SudoRule) : String :=
  header ++ Text.join "," rule.users ++ " ALL=(" ++ (if rule.runAs = "" then "ALL" else rule.runAs) ++
    ") " ++ (if rule.noPasswd then "NOPASSWD: " else "") ++ Text.join ", " rule.commands ++ "\n"

/-- A rule is staged outside the directory and checked there before it is installed. -/
def applySudoRule (faults : Step → Outcome) (index : Nat) (rule : SudoRule) : Work :=
  let setting := "sudo:" ++ rule.name
  Work.attempt (faults ⟨"sudo_rules", index, 0⟩) (write sudoersStaging (sudoBody rule))
    (fun reason => .report (fail setting reason)) <|
  Work.attempt (faults ⟨"sudo_rules", index, 1⟩) (fun _ => [])
    (fun reason => .report (fail setting reason)) <|
  Work.attempt (faults ⟨"sudo_rules", index, 2⟩) (write (sudoPath rule) (sudoBody rule))
    (fun reason => .report (fail setting reason)) (.report (ok setting))

def applySudo (faults : Step → Outcome) (settings : Settings) : Work :=
  Work.each (applySudoRule faults) 0 settings.sudoRules

def hbacServices : List (String × List String) := [
  ("local", ["login", "gdm-password", "sddm", "lightdm"]), ("ssh", ["sshd"]),
  ("rdp", ["xrdp-sesman"])]

def pamTarget (pam : String) : String := "/etc/pam.d/" ++ pam

def gateLine (service : String) : String :=
  "account required pam_access.so accessfile=" ++ accessFileFor service ++ "\n"

/-- One stack told which file to read, unless the machine does not have it. -/
def gateStack (faults : Step → Outcome) (files : Files) (service : String) (index entry : Nat)
    (pam : String) : Work :=
  let target := pamTarget pam
  match faults ⟨"hbac_rules", index, 2 * entry + 1⟩ with
  | .panics => { panicked := true }
  | .fails _ => {}
  | .ok =>
      if (files target).isNone then {}
      else Work.attempt (faults ⟨"hbac_rules", index, 2 * entry + 2⟩)
        (fun goes => [.replaceBlock target (gateLine service) ⟨goes, goes⟩])
        (fun reason => .report (fail ("hbac:" ++ service) reason)) {}

def applyHbacService (faults : Step → Outcome) (files : Files) (rules : List HbacRule) (index : Nat)
    (service : String × List String) : Work :=
  Work.attempt (faults ⟨"hbac_rules", index, 0⟩)
    (write (accessFileFor service.1) (accessFile rules service.1))
    (fun reason => .report (fail ("hbac:" ++ service.1) reason))
    ((Work.each (gateStack faults files service.1 index) 0 service.2).andThen
      (.report (ok ("hbac:" ++ service.1))))

def sshdDropIn : String := "/etc/ssh/sshd_config.d/50-odm.conf"

def applyHbacRules (faults : Step → Outcome) (files : Files) (settings : Settings) : Work :=
  let rules := settings.hbacRules
  if rules.isEmpty then {}
  else (Work.each (applyHbacService faults files rules) 0 hbacServices).andThen <|
    Work.attempt (faults ⟨"hbac_rules", 3, 0⟩) (write sshdDropIn (sshdRules rules))
      (fun reason => .report (fail "hbac:ssh" reason)) <|
    Work.attempt (faults ⟨"hbac_rules", 3, 1⟩) (fun _ => [])
      (fun reason => .report (fail "hbac:sshd" reason)) <|
    Work.attempt (faults ⟨"hbac_rules", 3, 2⟩) (fun _ => [])
      (fun reason => .report (fail "hbac:sshd" reason)) (.report (ok "hbac:sshd"))

/-- One pass over a policy document. The appliers not modelled are the calls they make: what quiets
printer browsing, what runs after the files, after the cron jobs, and before the sudo rules. -/
structure Pass where
  settings : Settings
  faults : Step → Outcome
  browsing : List Call := []
  early : List Call := []
  late : List Call := []
  removes : String → Bool := fun _ => true
  access : String → Access := fun _ => {}
  saves : Bool := true

namespace Pass

variable (pass : Pass) (machine : Machine)

def others : List Call := pass.browsing ++ pass.early ++ pass.late

def callsBefore : List Call :=
  pass.browsing ++ (applyFiles pass.faults pass.settings).calls ++ pass.early ++
    (applyCron pass.faults pass.settings).calls ++ pass.late ++
    (applySudo pass.faults pass.settings).calls

/-- The files as the last applier finds them. -/
def filesBefore : Files := (pass.callsBefore.foldl perform { files := machine.files }).files

def hbac : Work := applyHbacRules pass.faults (pass.filesBefore machine) pass.settings

def run : Run where
  calls := pass.callsBefore ++ (pass.hbac machine).calls
  removes := pass.removes
  access := pass.access
  saves := pass.saves

def results : List Result :=
  (applyFiles pass.faults pass.settings).reported "files" ++
    (applyCron pass.faults pass.settings).reported "cron" ++
    (applySudo pass.faults pass.settings).reported "sudo_rules" ++
    (pass.hbac machine).reported "hbac_rules"

end Pass

namespace Call

/-- A write of a whole file, or a section put in. -/
def Plain : Call → Prop
  | .writeFile _ _ _ => True
  | .replaceBlock _ body _ => body ≠ ""
  | _ => False

def lands : Call → Bool
  | .writeFile _ _ goes => goes
  | .replaceBlock _ _ access => access.reads && access.writes
  | _ => true

end Call

/-- A call of some that goes through at a path. -/
def LandsAt (calls : List Call) (path : String) : Prop :=
  ∃ call ∈ calls, call.path = path ∧ call.lands = true

variable {path : String} {env : Env}

theorem landsAt_append {calls calls' : List Call} :
    LandsAt (calls ++ calls') path ↔ LandsAt calls path ∨ LandsAt calls' path := by
  simp only [LandsAt, List.mem_append, or_and_right, exists_or]

theorem claims_perform_plain {call : Call} (hplain : call.Plain)
    (hnever : neverPrune call.path = false) :
    (perform env call).state.Claims call.path ↔ env.state.Claims call.path ∨ call.lands = true := by
  cases call with
  | writeFile path content goes =>
      simp only [Call.path] at hnever
      cases goes <;> simp [perform, writeFile, Call.path, Call.lands, State.Claims, hnever]
  | replaceBlock path body access =>
      obtain ⟨_, hkept, hput⟩ := replaceBlock_body access env path body hplain
      simp only [perform, Call.path, Call.lands]
      cases haccess : access.reads && access.writes with
      | false => simp [hkept haccess]
      | true => simp [State.Claims, hput haccess]
  | _ => cases hplain

theorem claims_foldl_plain {calls : List Call} (hnever : neverPrune path = false)
    (hplain : ∀ call ∈ calls, call.path = path → call.Plain) (env : Env) :
    (calls.foldl perform env).state.Claims path ↔ env.state.Claims path ∨ LandsAt calls path := by
  induction calls generalizing env with
  | nil => simp [LandsAt]
  | cons call calls ih =>
      rw [List.foldl_cons, ih fun other hother => hplain other (.tail _ hother),
        ← List.singleton_append, landsAt_append, ← or_assoc]
      refine or_congr_left ?_
      by_cases hpath : path = call.path
      · subst hpath
        rw [claims_perform_plain (hplain call List.mem_cons_self rfl) hnever]
        simp [LandsAt]
      · rw [(perform_other env call hpath).claims]
        simp [LandsAt, Ne.symm hpath]

section

variable {α : Type} {body : Nat → α → Work}

/-- The entries up to one do not panic. -/
def Reaches (body : Nat → α → Work) (first : Nat) (entries : List α) (index : Nat) : Prop :=
  ∀ before < index, ∀ entry, entries[before]? = some entry →
    (body (first + before) entry).panicked = false

end

end OpenDirectory.Agent
