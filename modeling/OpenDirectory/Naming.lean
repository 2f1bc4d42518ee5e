import OpenDirectory.Lists
import OpenDirectory.Text
import OpenDirectory.Value

/-! Computer names by policy: a template with one number or the hardware serial in it, and the name a
machine is given under it. A name is handed out once and remembered. -/

namespace OpenDirectory.Naming

variable [Runtime]

inductive Placeholder where
  | serial
  | number (width : Nat)
  deriving DecidableEq

structure Template where
  before : List Char
  placeholder : Placeholder
  after : List Char
  deriving DecidableEq

def serialMark : List Char := "\x7bserial\x7d".toList

/-- A number's placeholder at the start of a text, with the width it asks for. -/
def numberAt : List Char → Option (Nat × List Char)
  | '{' :: 'n' :: '}' :: rest => some (1, rest)
  | '{' :: 'n' :: ':' :: d :: '}' :: rest => (Runtime.digit d).map fun width => (width, rest)
  | _ => none

def findNumber : List Char → Option Template
  | [] => none
  | c :: rest =>
      match numberAt (c :: rest) with
      | some (width, after) => some ⟨[], .number width, after⟩
      | none => (findNumber rest).map fun template => { template with before := c :: template.before }

def parse (template : String) : Option Template :=
  match Text.cutAt serialMark template.toList with
  | some (before, after) => some ⟨before, .serial, after⟩
  | none => findNumber template.toList

def alike (s s' : List Char) : Bool := lower (String.ofList s) = lower (String.ofList s')

/-- What a name has between the template's ends, read without regard to case. -/
def middle (template : Template) (name : List Char) : Option (List Char) :=
  let ends := template.before.length + template.after.length
  let stop := name.length - template.after.length
  if ends ≤ name.length ∧ alike (name.take template.before.length) template.before ∧
      alike (name.drop stop) template.after then
    some ((name.take stop).drop template.before.length)
  else none

def isSerialChar (c : Char) : Bool :=
  (lower (String.singleton c)).toList.all fun c => c.isLower || c.isDigit

def fills (placeholder : Placeholder) (part : List Char) : Bool :=
  !part.isEmpty && match placeholder with
    | .serial => part.all isSerialChar
    | .number _ => part.all fun c => (Runtime.digit c).isSome

/-- The part of a name that fits a template which fills its placeholder. The pattern's end also
matches before a final line break. -/
def filling (template : Template) (name : String) : Option (List Char) :=
  [name.toList, if name.toList.getLast? = some '\n' then name.toList.dropLast else name.toList].findSome?
    fun chars => (middle template chars).filter (fills template.placeholder)

def fits (template : Template) (name : String) : Bool := (filling template name).isSome

def numberOf (part : List Char) : Nat :=
  (part.filterMap Runtime.digit).foldl (fun n d => 10 * n + d) 0

def zfill (width n : Nat) : List Char :=
  let digits := (toString n).toList
  List.replicate (width - digits.length) '0' ++ digits

def cleanSerial (serial : String) : List Char :=
  let clean := ((lower (String.ofList (serial.toList.filter fun c =>
    c.isAlphanum))).toList).take 20
  if clean.isEmpty then "unknown".toList else clean

/-- A template filled in, with the serial or a number. -/
def render (template : Template) (number : Nat) (serial : String) : String :=
  let part := match template.placeholder with
    | .serial => cleanSerial serial
    | .number width => zfill width number
  String.ofList (template.before ++ part ++ template.after)

structure Assignment where
  computerDn : String
  name : String
  template : String
  deriving DecidableEq

/-- The part of a name up to its first dot. -/
def short (name : String) : String := (Text.split '.' name).headD ""

/-- What a search of the directory answers: at most a limit of entries, and whether there are more.
One more than the limit is asked for. -/
def search (limit : Nat) (entries : List String) : List String × Bool :=
  let raw := entries.take (limit + 1)
  (raw.take limit, limit < raw.length)

/-- One past the highest number in use, in the directory as searched without a limit, which is the
limit 0, or handed out. -/
def nextNumber (computers : List String) (assignments : List Assignment) (text : String)
    (template : Template) : Nat :=
  let inUse := (search 0 computers).1.map short ++
    (assignments.filter (·.template = text)).map Assignment.name
  (inUse.map fun name => ((filling template name).map numberOf).getD 0).foldl max 0 + 1

def recorded (assignments : List Assignment) (dn : String) : Option Assignment :=
  assignments.find? fun assignment => lower assignment.computerDn = lower dn

/-- A row written for a machine, over the one it has; no two machines share a name. -/
def upsert (assignments : List Assignment) (row : Assignment) :
    Except Raised (List Assignment) :=
  let others := assignments.filter (·.computerDn ≠ row.computerDn)
  if others.any fun other => lower other.name = lower row.name then .error .databaseError
  else if others.length = assignments.length then .ok (assignments ++ [row])
  else .ok (assignments.map fun other =>
    if other.computerDn = row.computerDn then row else other)

/-- The name a machine should have under a template, if its own does not fit, and the names handed
out afterwards. -/
def assign (computers : List String) (assignments : List Assignment) (dn current text serial : String) :
    Except Raised (Option String × List Assignment) := do
  let some template := parse text | .error .assertionError
  if fits template current then return (none, assignments)
  match recorded assignments dn with
  | some row => if row.template = text then return (some row.name, assignments)
  | none => pure ()
  let name := render template (nextNumber computers assignments text template) serial
  return (some name, ← upsert assignments ⟨dn, name, text⟩)

/-- The name a machine is given under a template, none where its own fits: the one recorded for it
under this template, or the next. -/
def given (computers : List String) (assignments : List Assignment) (dn current text serial : String) :
    Option String :=
  (parse text).bind fun template =>
    if fits template current then none
    else some (((recorded assignments dn).filter (·.template = text)).elim
      (render template (nextNumber computers assignments text template) serial) Assignment.name)

theorem given_of_assign {computers : List String} {assignments after : List Assignment}
    {dn current text serial : String} {wanted : Option String}
    (h : assign computers assignments dn current text serial = .ok (wanted, after)) :
    given computers assignments dn current text serial = wanted := by
  unfold assign at h
  cases hparse : parse text with
  | none =>
      rw [hparse] at h
      cases h
  | some template =>
      rw [hparse] at h
      simp only [given, hparse, Option.bind_some]
      dsimp only at h
      split at h
      · cases h
        simp [*]
      · rename_i hfits
        rw [if_neg hfits]
        split at h
        · rename_i row hrow
          split at h
          · rename_i htemplate
            cases h
            simp [hrow, Option.filter, htemplate]
          · rename_i htemplate
            obtain ⟨_, _, h⟩ := Except.bind_eq_ok.mp h
            cases h
            simp [hrow, Option.filter, htemplate]
        · rename_i hrow
          obtain ⟨_, _, h⟩ := Except.bind_eq_ok.mp h
          cases h
          simp [hrow]

theorem given_empty (computers : List String) (assignments : List Assignment)
    (dn current serial : String) : given computers assignments dn current "" serial = none := rfl

end OpenDirectory.Naming
