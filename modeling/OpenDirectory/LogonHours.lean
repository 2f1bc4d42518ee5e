import OpenDirectory.AgentEnv

/-! When somebody may sign in: the rules of the policy, read at every sign-in against the person, the groups the
machine gives and the clock. -/

namespace OpenDirectory.LogonHours

/-- `unicode.ToLower`. It makes nothing else of the marks the names are cut at, and nothing else becomes one. -/
class Letters where
  toLower : Char → Char
  blank : ∀ c, Agent.goSpace (toLower c) = Agent.goSpace c
  mark : ∀ c, ∀ mark ∈ ['@', '%'], toLower c = mark ↔ c = mark

variable [Letters]

/-- `strings.ToLower` -/
def lower (s : String) : String := s.map Letters.toLower

/-- `strings.EqualFold` -/
def equalFold (s t : String) : Bool := lower s = lower t

inductive Weekday where
  | mon
  | tue
  | wed
  | thu
  | fri
  | sat
  | sun

def Weekday.name : Weekday → String
  | .mon => "mon"
  | .tue => "tue"
  | .wed => "wed"
  | .thu => "thu"
  | .fri => "fri"
  | .sat => "sat"
  | .sun => "sun"

def Weekday.before : Weekday → Weekday
  | .mon => .sun
  | .tue => .mon
  | .wed => .tue
  | .thu => .wed
  | .fri => .thu
  | .sat => .fri
  | .sun => .sat

structure Moment where
  weekday : Weekday
  hour : Nat
  minute : Nat

structure Rule where
  principal : String
  days : List String
  start : String
  finish : String
  signOut : Bool := false
  message : String := ""

structure Decision where
  /-- A rule names the person. -/
  restricted : Bool := false
  allowed : Bool := false
  message : String := ""
  signOut : Bool := false

def digits (text : String) : Option Nat :=
  text.toList.foldlM (fun n c => if '0' ≤ c ∧ c ≤ '9' then some (n * 10 + (c.toNat - 48)) else none) 0

def minutes (clock : String) : Option Nat := do
  let (hours, rest) ← Text.cut ':' clock
  let hours ← digits hours
  let minutes ← digits rest
  guard (hours ≤ 23 ∧ minutes ≤ 59)
  return hours * 60 + minutes

def hasDay (days : List String) (day : Weekday) : Bool := days.any fun entry => equalFold entry day.name

def within (rule : Rule) (now : Moment) : Bool :=
  match minutes rule.start, minutes rule.finish with
  | some start, some finish =>
      let current := now.hour * 60 + now.minute
      if start < finish then hasDay rule.days now.weekday && start ≤ current && current < finish
      -- Crossing midnight: this evening on a listed day, or this morning after one.
      else (hasDay rule.days now.weekday && start ≤ current) ||
        (hasDay rule.days now.weekday.before && current < finish)
  | _, _ => false

/-- A name without the realm behind it. -/
def bare (name : String) : String :=
  match Text.cut '@' name with
  | some (before, _) => if before = "" then name else before
  | none => name

/-- Whether a rule names the person of a name and some groups. -/
def names (name : String) (member : List String) (rule : Rule) : Bool :=
  match (lower rule.principal).toList with
  | '%' :: group => String.ofList group ∈ member
  | _ => lower rule.principal = name

/-- One turn of the loop over the rules, with the first message there was. -/
def consider (name : String) (member : List String) (now : Moment) (decision : Decision) (rule : Rule) : Decision :=
  if !names name member rule then decision
  else
    { restricted := true
      allowed := decision.allowed || within rule now
      message := if decision.message = "" then rule.message else decision.message
      signOut := decision.signOut || rule.signOut }

def decide (rules : List Rule) (user : String) (groups : List String) (now : Moment) : Decision :=
  let name := bare (lower user)
  let member := groups.map fun group => bare (lower group)
  let decision := rules.foldl (consider name member now) {}
  if !decision.restricted then { decision with allowed := true, message := "" }
  else if decision.allowed then { decision with message := "" }
  else if decision.message = "" then { decision with message := "Signing in is not allowed at this time of day." }
  else decision

theorem foldl_consider (name : String) (member : List String) (now : Moment) (rules : List Rule) (decision : Decision) :
    (rules.foldl (consider name member now) decision).restricted =
        (decision.restricted || rules.any (names name member)) ∧
      (rules.foldl (consider name member now) decision).allowed =
        (decision.allowed || rules.any fun rule => names name member rule && within rule now) := by
  induction rules generalizing decision with
  | nil => simp
  | cons rule rules ih =>
      rw [List.foldl_cons, List.any_cons, List.any_cons, (ih _).1, (ih _).2]
      unfold consider
      cases names name member rule with
      | false => simp
      | true => simp [Bool.or_assoc]

theorem decide_restricted (rules : List Rule) (user : String) (groups : List String) (now : Moment) :
    (decide rules user groups now).restricted =
      rules.any (names (bare (lower user)) (groups.map fun group => bare (lower group))) := by
  have h := (foldl_consider (bare (lower user)) (groups.map fun group => bare (lower group)) now rules {}).1
  rw [Bool.false_or] at h
  rw [← h]
  unfold decide
  dsimp only
  split
  · rfl
  · split
    · rfl
    · split <;> rfl

end OpenDirectory.LogonHours
