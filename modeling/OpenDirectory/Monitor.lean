import OpenDirectory.Dict
import OpenDirectory.Text

/-! The rules of the monitoring role and a pass over them. A rule fires for the series whose samples, read back
over a window, all break it; what newly fires opens an alert, and an alert whose series no longer fires is
resolved. The channels are told of both outside of maintenance. Times are in microseconds. -/

namespace OpenDirectory.Monitor

variable {V : Type}

structure Sample (V : Type) where
  host : String
  metric : String
  value : V
  time : Int

def Sample.series (sample : Sample V) : String × String := (sample.host, sample.metric)

inductive ScopeKind where
  | all
  | group
  | host

inductive Op where
  | gt
  | lt

inductive Severity where
  | warning
  | critical
  deriving DecidableEq

def Severity.upper : Severity → String
  | warning => "WARNING"
  | critical => "CRITICAL"

structure Rule (V : Type) where
  id : String
  name : String
  metric : String
  op : Op := .gt
  threshold : V
  forSeconds : Nat := 300
  severity : Severity := .warning
  scopeKind : ScopeKind := .all
  scope : String := ""
  enabled : Bool := true

structure Group where
  id : String
  members : List String

/-- A window of maintenance. -/
structure Window where
  scopeKind : ScopeKind := .all
  scope : String := ""
  starts : Int
  ends : Int

structure Tables (V : Type) where
  samples : List (Sample V)
  rules : List (Rule V)
  groups : List Group
  windows : List Window
  ids : (rules.map Rule.id).Nodup

structure Alert (V : Type) where
  id : Nat
  ruleId : String
  ruleName : String
  host : String
  metric : String
  severity : Severity
  /-- The alert is resolved where it is not. -/
  firing : Bool := true
  lastValue : V
  suppressed : Bool
  started : Int
  resolvedAt : Option Int := none
  notifiedAt : Option Int := none
  deriving DecidableEq

def Alert.series (alert : Alert V) : String × String := (alert.host, alert.metric)

/-- What the channels are told about an alert. -/
structure Told where
  alert : Nat
  resolved : Bool
  title : String
  deriving DecidableEq

structure World (V : Type) where
  tables : Tables V
  alerts : List (Alert V)
  /-- The id of the next alert. -/
  next : Nat
  /-- What the channels have been told so far. -/
  told : List Told

/-- The hosts a scope covers; none means every host. -/
def hostsInScope (groups : List Group) (kind : ScopeKind) (scope : String) : Option (List String) :=
  match kind with
  | .all => none
  | .host => some [scope]
  | .group => some (((groups.find? fun group => group.id = scope).map Group.members).getD [])

def covers (groups : List Group) (kind : ScopeKind) (scope host : String) : Bool :=
  match hostsInScope groups kind scope with
  | none => true
  | some hosts => host ∈ hosts

def inMaintenance (tables : Tables V) (host : String) (now : Int) : Bool :=
  tables.windows.any fun window =>
    window.starts ≤ now && now ≤ window.ends && covers tables.groups window.scopeKind window.scope host

def second : Int := 1000000

def retentionDays : Int := 14
def defaultInterval : Nat := 60

/-- A pattern whose last character is a `%`, before which it has none. -/
def like : List Char → List Char → Bool
  | [], _ => true
  | _ :: _, [] => false
  | p :: pattern, c :: text => (p = '_' || p = c) && like pattern text

/-- A metric that ends in a colon is a family of series. -/
def Rule.watches (rule : Rule V) (metric : String) : Bool :=
  if Text.endsWith rule.metric ":" then like rule.metric.toList metric.toList else metric = rule.metric

/-- The samples of one series, or of one host, in short. -/
structure Summary (V : Type) where
  low : V
  high : V
  first : Int
  last : Int
  newest : V

variable [LinearOrder V]

def Op.holds (op : Op) (value threshold : V) : Bool :=
  match op with
  | .gt => threshold < value
  | .lt => value < threshold

def Summary.add (summary : Summary V) (sample : Sample V) : Summary V where
  low := min summary.low sample.value
  high := max summary.high sample.value
  first := min summary.first sample.time
  last := max summary.last sample.time
  newest := if summary.last ≤ sample.time then sample.value else summary.newest

/-- Of samples of one moment the last in the table is the newest. -/
def summarise : List (Sample V) → Option (Summary V)
  | [] => none
  | sample :: samples =>
      some (samples.foldl Summary.add ⟨sample.value, sample.value, sample.time, sample.time, sample.value⟩)

/-- `GROUP BY`: the samples of each key, in short. -/
def groupBy (key : Sample V → String × String) (samples : List (Sample V)) :
    List ((String × String) × Summary V) :=
  (samples.map key).dedup.filterMap fun k =>
    (summarise (samples.filter fun sample => key sample = k)).map fun summary => (k, summary)

def lookback (rule : Rule V) : Nat := max rule.forSeconds (defaultInterval * 2)

/-- What a rule reads back. -/
def observed (tables : Tables V) (rule : Rule V) (now : Int) : List (Sample V) :=
  tables.samples.filter fun sample =>
    rule.watches sample.metric && covers tables.groups rule.scopeKind rule.scope sample.host &&
      now - lookback rule * second ≤ sample.time

/-- Whether the rule fires for a series. -/
def fires (rule : Rule V) (summary : Summary V) : Bool :=
  if rule.forSeconds ≤ defaultInterval then rule.op.holds summary.newest rule.threshold
  else
    rule.op.holds (match rule.op with | .gt => summary.low | .lt => summary.high) rule.threshold &&
      !(10 * (summary.last - summary.first) < 6 * (rule.forSeconds * second))

/-- Which series the rule fires for, with the newest value of each. -/
def judge (rule : Rule V) (rows : List ((String × String) × Summary V)) : List ((String × String) × V) :=
  rows.filterMap fun row => if fires rule row.2 then some (row.1, row.2.newest) else none

def overThreshold (tables : Tables V) (rule : Rule V) (now : Int) : List ((String × String) × V) :=
  judge rule (groupBy Sample.series (observed tables rule now))

/-- What tells that a machine reports, which a probe of it does not. -/
def reports (tables : Tables V) (rule : Rule V) (clock : Int) : List (Sample V) :=
  tables.samples.filter fun sample =>
    !like "probe_".toList sample.metric.toList && covers tables.groups rule.scopeKind rule.scope sample.host &&
      clock - retentionDays * 86400 * second < sample.time

variable [Zero V]

/-- Hosts whose newest sample is older than the window. -/
def notReporting (tables : Tables V) (rule : Rule V) (now clock : Int) : List ((String × String) × V) :=
  (groupBy (fun sample => (sample.host, "agent_up")) (reports tables rule clock)).filterMap fun row =>
    if rule.forSeconds * second < now - row.2.last then some (row.1, 0) else none

def firingOf (tables : Tables V) (rule : Rule V) (now clock : Int) : List ((String × String) × V) :=
  if rule.metric = "agent_up" then notReporting tables rule now clock else overThreshold tables rule now

/-- The rule's alerts that fire, by their series. -/
def openKeys (rule : Rule V) (world : World V) : List ((String × String) × Nat) :=
  (world.alerts.filter fun alert => alert.ruleId = rule.id && alert.firing).foldl
    (fun keys alert => Dict.set keys alert.series alert.id) []

def update (world : World V) (id : Nat) (change : Alert V → Alert V) : World V :=
  { world with alerts := world.alerts.map fun alert => if alert.id = id then change alert else alert }

def openTitle (rule : Rule V) : String := rule.severity.upper ++ ": " ++ rule.name

def resolvedTitle (rule : Rule V) : String := "Resolved: " ++ rule.name

/-- `now` is when the pass began, `clock` what the database takes the time to be. -/
def openAlert (rule : Rule V) (now clock : Int) (world : World V) (entry : (String × String) × V) : World V :=
  let suppressed := inMaintenance world.tables entry.1.1 now
  { world with
    alerts := world.alerts ++ [{
      id := world.next, ruleId := rule.id, ruleName := rule.name, host := entry.1.1, metric := entry.1.2
      severity := rule.severity, lastValue := entry.2, suppressed, started := clock
      notifiedAt := if suppressed then none else some clock }]
    next := world.next + 1
    told := world.told ++ if suppressed then [] else [⟨world.next, false, openTitle rule⟩] }

def noteFiring (rule : Rule V) (keys : List ((String × String) × Nat)) (now clock : Int) (world : World V)
    (entry : (String × String) × V) : World V :=
  match Dict.get keys entry.1 with
  | some id => update world id fun alert => { alert with lastValue := entry.2 }
  | none => openAlert rule now clock world entry

def noteOpen (rule : Rule V) (firing : List ((String × String) × V)) (now clock : Int) (world : World V)
    (entry : (String × String) × Nat) : World V :=
  if (Dict.get firing entry.1).isSome then world
  else
    let resolved := update world entry.2 fun alert => { alert with firing := false, resolvedAt := some clock }
    { resolved with
      told := world.told ++
        if inMaintenance world.tables entry.1.1 now then [] else [⟨entry.2, true, resolvedTitle rule⟩] }

/-- Open what is newly firing, resolve what no longer is, and tell. -/
def reconcile (now clock : Int) (world : World V) (rule : Rule V) : World V :=
  let firing := firingOf world.tables rule now clock
  let keys := openKeys rule world
  keys.foldl (noteOpen rule firing now clock) (firing.foldl (noteFiring rule keys now clock) world)

/-- One pass over the rules. -/
def evaluate (now clock : Int) (world : World V) : World V :=
  (world.tables.rules.filter Rule.enabled).foldl (reconcile now clock) world

inductive Move (V : Type) where
  /-- Samples arrive or are swept, rules, groups and windows are edited; an alert goes with its rule. -/
  | edit (tables : Tables V)
  | sweep (cutoff : Int)
  | evaluate (now clock : Int)

def next (world : World V) : Move V → World V
  | .edit tables =>
      { world with
        tables := tables
        alerts := world.alerts.filter fun alert => alert.ruleId ∈ tables.rules.map Rule.id }
  | .sweep cutoff =>
      { world with
        alerts := world.alerts.filter fun alert =>
          alert.firing || !alert.resolvedAt.any fun resolved => resolved < cutoff }
  | .evaluate now clock => evaluate now clock world

end OpenDirectory.Monitor
