import OpenDirectory.AgentApply
import OpenDirectory.Patterns
import OpenDirectory.Value

/-! Entries of the settings document that end up as files of their own: what the schema accepts of each, and what the
agent reads of the ones it accepted. -/

namespace OpenDirectory.Agent

def nameChar (c : Char) : Bool := c.isAlphanum || c ∈ ['.', '_', '-']

/-- `NAME_RE` -/
def entryName : String → Bool := Pattern.closed (Pattern.run nameChar 1 64)

def bareName (text : List Char) : List Char := if text.head? = some '%' then text.tail else text

def unmarked (text : List Char) : List Char := if text.getLast? = some '$' then text.dropLast else text

/-- `PRINCIPAL_RE` -/
def principalName : String → Bool :=
  Pattern.closed fun text => Pattern.headed nameChar (fun c => nameChar c || c = ' ') 0 63 (unmarked (bareName text))

def scheduleChar (c : Char) : Bool := c.isDigit || c ∈ ['-', '*', '/', ','] || Pattern.pySpace c

def scheduleWords : List String :=
  ["@reboot", "@yearly", "@annually", "@monthly", "@weekly", "@daily", "@hourly"]

/-- `CRON_RE`, of a text with nothing to trim. -/
def cronSchedule (schedule : String) : Bool :=
  Text.strip Pattern.pySpace schedule = schedule &&
    (schedule ∈ scheduleWords || Pattern.run scheduleChar 9 100 schedule.toList)

def absolutePath (path : String) : Bool :=
  Text.startsWith path "/" && ".." ∉ Text.split '/' path && path.length ≤ 4096

def bounded (low high : Nat) (text : String) : Bool := low ≤ text.length && text.length ≤ high

structure Script where
  trigger : String
  name : String
  interpreter : String := "/bin/sh"
  content : String := ""
  deriving DecidableEq

structure TrustedCert where
  name : String
  certificatePem : String
  deriving DecidableEq

def triggers : List String := ["startup", "shutdown", "logon", "logoff"]

def beginCertificate : String := "-----BEGIN CERTIFICATE-----"

def Script.accepted (script : Script) : Bool :=
  script.trigger ∈ triggers && entryName script.name && absolutePath script.interpreter &&
    bounded 0 262144 script.content

def CronJob.accepted (job : CronJob) : Bool :=
  entryName job.name && cronSchedule job.schedule && bounded 1 1024 job.command && bounded 1 64 job.user

def sudoCommand (command : String) : Bool :=
  (command = "ALL" || Text.startsWith command "/") && !command.toList.any (fun c => c = '\n' || c = '\r')

/-- Any text is a name. -/
def SudoRule.accepted (rule : SudoRule) : Bool :=
  (1 ≤ rule.users.length && rule.users.length ≤ 64 && rule.users.all principalName) &&
    (1 ≤ rule.commands.length && rule.commands.length ≤ 64 && rule.commands.all sudoCommand) &&
    bounded 1 64 rule.runAs

def TrustedCert.accepted (anchor : TrustedCert) : Bool :=
  entryName anchor.name && bounded 1 32768 anchor.certificatePem && Text.holds anchor.certificatePem beginCertificate &&
    !Text.holds anchor.certificatePem "PRIVATE KEY"

def textAt (item : Value) (key : String) : Option String :=
  match item.field key with
  | some (.str text) => some text
  | _ => none

def textsAt (item : Value) (key : String) : Option (List String) :=
  match item.field key with
  | some (.arr items) => items.mapM fun
      | .str text => some text
      | _ => none
  | _ => none

def flagAt (item : Value) (key : String) : Option Bool :=
  match item.field key with
  | some (.bool flag) => some flag
  | _ => none

def Script.read (item : Value) : Option Script := do
  let script : Script := {
    trigger := ← textAt item "trigger"
    name := ← textAt item "name"
    interpreter := ← textAt item "interpreter"
    content := ← textAt item "content" }
  Option.guard Script.accepted script

def CronJob.read (item : Value) : Option CronJob := do
  let job : CronJob := {
    name := ← textAt item "name"
    schedule := ← textAt item "schedule"
    command := ← textAt item "command"
    user := ← textAt item "user" }
  Option.guard CronJob.accepted job

def SudoRule.read (item : Value) : Option SudoRule := do
  let rule : SudoRule := {
    name := ← textAt item "name"
    users := ← textsAt item "users"
    commands := ← textsAt item "commands"
    runAs := ← textAt item "run_as"
    noPasswd := ← flagAt item "nopasswd" }
  Option.guard SudoRule.accepted rule

def TrustedCert.read (item : Value) : Option TrustedCert := do
  let anchor : TrustedCert := {
    name := ← textAt item "name"
    certificatePem := ← textAt item "certificate_pem" }
  Option.guard TrustedCert.accepted anchor

section
variable {item : Value}

theorem textAt_eq {key text : String} (h : textAt item key = some text) : item.field key = some (.str text) := by
  unfold textAt at h
  split at h
  · rename_i hfield
    obtain rfl := Option.some.inj h
    exact hfield
  · cases h

theorem Script.read_eq {script : Script} (h : Script.read item = some script) :
    item.field "trigger" = some (.str script.trigger) ∧ item.field "name" = some (.str script.name) ∧
      script.accepted = true := by
  simp only [Script.read, Option.bind_eq_bind, Option.bind_eq_some_iff, Option.guard_eq_some_iff] at h
  obtain ⟨trigger, htrigger, name, hname, interpreter, _, content, _, rfl, haccepted⟩ := h
  exact ⟨textAt_eq htrigger, textAt_eq hname, haccepted⟩

theorem CronJob.read_eq {job : CronJob} (h : CronJob.read item = some job) :
    item.field "name" = some (.str job.name) ∧ job.accepted = true := by
  simp only [CronJob.read, Option.bind_eq_bind, Option.bind_eq_some_iff, Option.guard_eq_some_iff] at h
  obtain ⟨name, hname, schedule, _, command, _, user, _, rfl, haccepted⟩ := h
  exact ⟨textAt_eq hname, haccepted⟩

theorem SudoRule.read_eq {rule : SudoRule} (h : SudoRule.read item = some rule) :
    item.field "name" = some (.str rule.name) ∧ rule.accepted = true := by
  simp only [SudoRule.read, Option.bind_eq_bind, Option.bind_eq_some_iff, Option.guard_eq_some_iff] at h
  obtain ⟨name, hname, users, _, commands, _, runAs, _, noPasswd, _, rfl, haccepted⟩ := h
  exact ⟨textAt_eq hname, haccepted⟩

theorem TrustedCert.read_eq {anchor : TrustedCert} (h : TrustedCert.read item = some anchor) :
    item.field "name" = some (.str anchor.name) ∧ anchor.accepted = true := by
  simp only [TrustedCert.read, Option.bind_eq_bind, Option.bind_eq_some_iff, Option.guard_eq_some_iff] at h
  obtain ⟨name, hname, certificatePem, _, rfl, haccepted⟩ := h
  exact ⟨textAt_eq hname, haccepted⟩

end

end OpenDirectory.Agent
