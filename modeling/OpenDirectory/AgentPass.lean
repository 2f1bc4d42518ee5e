import OpenDirectory.Steps

/-! One pass of the agent over its policy. The policy is fetched, and applied where its serial is not the
one this version of the agent has applied in full before, or where the pass is forced, or an update of the
agent waits. -/

namespace OpenDirectory.Agent

/-- What a pass reads of the policy before it applies it. -/
structure Document where
  serial : String
  agentAvailable : Option String := none
  updateMode : Option String := none
  deriving DecidableEq

/-- The file with the serial of the policy last applied in full, and the version that applied it. -/
structure Applied where
  serial : String
  version : String

def lastSerial (applied : Option Applied) (version : String) : String :=
  match applied with
  | none => ""
  | some applied => if applied.version ≠ version then "" else applied.serial

def updateWaiting (document : Document) (version : String) : Bool :=
  match document.updateMode with
  | none => false
  | some mode =>
      if mode = "" || mode = "off" then false
      else
        let offered := document.agentAvailable.getD ""
        offered ≠ "" && offered ≠ version

/-- Nothing is to be applied. -/
def unchanged (force : Bool) (document : Document) (applied : Option Applied) (version : String) : Bool :=
  !force && document.serial = lastSerial applied version && !updateWaiting document version

/-- The file of the serial after a pass that applied the policy: written when nothing failed, unless the write
itself fails, of which nobody hears. -/
def saveSerial (applied : Option Applied) (serial version : String) (goes : Bool) : Option Applied :=
  if goes then some ⟨serial, version⟩ else applied

end OpenDirectory.Agent
