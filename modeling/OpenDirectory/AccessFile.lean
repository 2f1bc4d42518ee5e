import OpenDirectory.Text

/-! Who may open a session on a machine, as the agent writes it down: one file of rules for each kind
of session, and the sign-ins sshd refuses by itself. -/

namespace OpenDirectory.Agent

def header : String := "# Managed by Open Directory Manager. Local edits are overwritten.\n"

structure HbacRule where
  principal : String
  service : String := "all"
  access : String := "allow"

/-- Those policy can never lock out. -/
def alwaysAllowed : List String := ["root", "(sudo)"]

/-- Whether a principal is a group, and its name. -/
def sshName (principal : String) : Bool × String :=
  if Text.startsWith principal "%" then (true, Text.removePrefix principal "%")
  else (false, principal)

/-- How pam_access spells a principal. -/
def accessName (principal : String) : String :=
  match sshName principal with
  | (true, name) => "(" ++ name ++ ")"
  | (false, _) => principal

def accessFileFor (service : String) : String := "/etc/security/odm-access-" ++ service ++ ".conf"

/-- The rules of one kind of session, of those that deny or those that allow. -/
def rulesFor (rules : List HbacRule) (service pass : String) : List HbacRule :=
  rules.filter fun rule => rule.access = pass && (rule.service = "all" || rule.service = service)

def ruleLine (sign : String) (rule : HbacRule) : String :=
  sign ++ ":" ++ accessName rule.principal ++ ":ALL"

/-- The rules of one kind of session: the first that matches decides, so those that deny come first,
and those that allow are closed by a denial of everybody else. -/
def accessLines (rules : List HbacRule) (service : String) : List String :=
  let denies := (rulesFor rules service "deny").map (ruleLine "-")
  let allows := (rulesFor rules service "allow").map (ruleLine "+")
  denies ++ allows ++ if allows.isEmpty then [] else
    ["+:" ++ Text.join " " alwaysAllowed ++ ":ALL", "-:ALL:ALL"]

def accessFile (rules : List HbacRule) (service : String) : String :=
  let lines := accessLines rules service
  let lines := if lines.isEmpty then ["# No rules for " ++ service ++ "."] else lines
  header ++ Text.join "\n" lines ++ "\n"

/-- What sshd refuses before it asks anybody. -/
def sshdRules (rules : List HbacRule) : String :=
  let denied := (rulesFor rules "ssh" "deny").map fun rule => sshName rule.principal
  let users := (denied.filter fun name => !name.1).map Prod.snd
  let groups := (denied.filter Prod.fst).map Prod.snd
  let directive (keyword : String) (values : List String) : String :=
    if values.isEmpty then "" else keyword ++ " " ++ Text.join " " values ++ "\n"
  header ++ directive "DenyUsers" users ++ directive "DenyGroups" groups

end OpenDirectory.Agent
