import OpenDirectory.Naming
import OpenDirectory.Rsop

/-! The answer to a machine that asks for its policy: the effective policy, and after it was
fingerprinted the name the machine should take. -/

namespace OpenDirectory.AgentPolicy

open Rsop (Plane Entry)
open Naming (Assignment)

variable [Runtime]

/-- What the control plane holds beside the rows a policy is built from: the names in the directory,
the names handed out, the schedule and the agent on offer. -/
structure Control extends Plane where
  computers : List String := []
  assignments : List Assignment := []
  pollMinutes : Nat := 0
  refreshMinutes : Nat := 0
  offer : Option (String × String × Nat) := none

structure Answer where
  document : Rsop.Document
  refreshMinutes : Nat
  agentAvailable : Option Value

/-- The template of a policy's computer names. -/
def nameTemplate (settings : Value.Fields) : Except Raised Value := do
  let names := Browser.orElse ((Dict.get settings "computer_names").getD .null) (.obj [])
  return (← names.get "template").getD .null

/-- A machine carries a role under its own name. -/
def carriesRole (control : Control) (hostname : String) : Bool :=
  control.roles.any fun role => lower role.node = lower hostname && role.state ≠ "removed"

/-- The serial a machine reported of its hardware. -/
def hardwareSerial (control : Control) (dn : String) : Except Raised String := do
  match control.facts.find? fun fact => lower fact.computerDn = lower dn with
  | none => return ""
  | some fact =>
      if !fact.hardware.truthy then return ""
      return (Browser.orElse ((← fact.hardware.get "serial").getD .null) (.str "")).text

/-- The name a machine is told to take, and the names handed out afterwards. -/
def assignName (control : Control) (entry : Entry) (template : Value) :
    Except Raised (Option String × List Assignment) := do
  if !template.truthy || carriesRole control entry.hostname then
    return (none, control.assignments)
  let serial ← hardwareSerial control entry.dn
  match template with
  | .str text =>
      Naming.assign control.computers control.assignments entry.dn
        (Naming.short entry.hostname) text serial
  | _ => .error .typeError

def hostnameBlock (domain wanted : String) : Value :=
  .obj [("wanted", .str (lower wanted)), ("fqdn", .str (lower wanted ++ "." ++ domain))]

/-- The settings with the name to take; no name, or an empty one, leaves them alone. -/
def withHostname (domain : String) (wanted : Option String) (settings : Value.Fields) :
    Value.Fields :=
  match wanted with
  | none => settings
  | some name =>
      if name = "" then settings else Dict.set settings "hostname" (hostnameBlock domain name)

def offerBlock (offer : String × String × Nat) : Value :=
  .obj [("version", .str offer.1), ("sha256", .str offer.2.1), ("size", .int offer.2.2)]

/-- The flattened effective policy for the calling machine, and the control plane afterwards. -/
def agentPolicy (control : Control) (entry : Entry) (osId : String) (ipAddresses : List String) :
    Except Raised (Answer × Control) := do
  let document ← Rsop.build control.toPlane entry osId ipAddresses [] []
  let template ← nameTemplate document.settings
  let (wanted, assignments) ← assignName control entry template
  return ({
    document := { document with
      settings := withHostname control.domain wanted document.settings }
    refreshMinutes :=
      if control.pollMinutes = 0 then control.refreshMinutes else control.pollMinutes
    agentAvailable := control.offer.map offerBlock }, { control with assignments })

end OpenDirectory.AgentPolicy
