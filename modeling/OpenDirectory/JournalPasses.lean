import OpenDirectory.AgentEnv
import OpenDirectory.Steps

/-! What the agent sends of a machine's journal, pass after pass. Each pass reads on from where the one before
it stopped: what people did, the devices that were plugged in, and warnings with the lines of a few units. A
device announces itself over several lines, a report holds so many entries of each kind, and the log's position
is the last warning's. -/

namespace OpenDirectory.Journal

open Agent (goSpace)

structure Line where
  message : String
  /-- Microseconds, where the field is a number. -/
  micros : Option Int
  identifier : String := ""
  kernel : Bool := false
  unit : String := ""
  units : List String := []
  priority : Option Int := none

/-- A line and its cursor, which is the number of lines up to it. -/
abbrev Entry := Line × Nat

def numbered (journal : List Line) : List Entry := journal.zipIdx 1

/-- `--after-cursor`; without a cursor, everything. -/
def after (cursor : Nat) (entries : List Entry) : List Entry := entries.filter fun entry => cursor < entry.2

def upTo (cursor : Nat) (entries : List Entry) : List Entry := entries.filter fun entry => entry.2 ≤ cursor

structure Event where
  kind : String
  principal : String := ""
  source : String := ""
  service : String := ""
  detail : String := ""
  occurredAt : Int
  deriving DecidableEq

def portChar (c : Char) : Bool := c.isDigit || c = '.' || c = '-'

def hexChar (c : Char) : Bool := c.isDigit || ('a' ≤ c && c ≤ 'f')

/-- The text after a mark at the start of another. -/
def afterMark (mark : String) (text : List Char) : Option (List Char) :=
  if mark.toList.isPrefixOf text then some (text.drop mark.length) else none

/-- `usb <port>: ` and what follows. -/
def usbLine (message : String) : Option (String × List Char) := do
  let rest ← afterMark "usb " message.toList
  let said ← afterMark ": " (rest.dropWhile portChar)
  if rest.takeWhile portChar = [] then none else return (String.ofList (rest.takeWhile portChar), said)

/-- `usb 1-3: Product: Ultra` -/
def usbProduct (message : String) : Option (String × String) := do
  let (port, said) ← usbLine message
  let name ← afterMark "Product: " said
  if name = [] ∨ '\n' ∈ name then none else return (port, String.ofList name)

/-- `usb 1-3: New USB device found, idVendor=0781, idProduct=5591` -/
def usbFound (message : String) : Option (String × String × String) := do
  let (port, said) ← usbLine message
  let rest ← afterMark "New USB device found, idVendor=" said
  let more ← afterMark ", idProduct=" (rest.dropWhile hexChar)
  if rest.takeWhile hexChar = [] ∨ more.takeWhile hexChar = [] then none
  else return (port, String.ofList (rest.takeWhile hexChar), String.ofList (more.takeWhile hexChar))

/-- `usb 1-3: USB disconnect, device number 5` -/
def usbGone (message : String) : Option String := do
  let (port, said) ← usbLine message
  let _ ← afterMark "USB disconnect" said
  return port

/-- What a line of a program says that somebody did. -/
abbrev Programs := String → String → Int → Option Event

/-- One journal line as an event, or nothing. -/
def classify (programs : Programs) (identifier message : String) (time : Int) : Option Event :=
  if identifier = "kernel" then
    match usbFound message with
    | some (port, vendor, product) =>
        some { kind := "usb-connected", source := port, detail := vendor ++ ":" ++ product, occurredAt := time }
    | none =>
        match usbGone message with
        | some port => some { kind := "usb-disconnected", source := port, occurredAt := time }
        | none => programs identifier message time
  else programs identifier message time

/-- What a line is to a pass. -/
inductive Role where
  | unread
  | product (port name : String)
  | event (event : Event)
  | nothing
  deriving DecidableEq

def identified (line : Line) : String := if line.kernel then "kernel" else line.identifier

def role (programs : Programs) (line : Line) : Role :=
  match line.micros with
  | none => .unread
  | some micros =>
      match if identified line = "kernel" then usbProduct line.message else none with
      | some (port, name) => .product port name
      | none =>
          match classify programs (identified line) line.message micros with
          | some event => .event event
          | none => .nothing

structure Parsed where
  events : List Event := []
  cursor : Nat := 0
  usbByPort : String → Option Nat := fun _ => none

/-- The product's name in front of the ids. -/
def withName (name : String) (event : Event) : Event :=
  { event with detail := Text.strip goSpace name ++ " (" ++ event.detail ++ ")" }

def parseEntry (programs : Programs) (parsed : Parsed) (entry : Entry) : Parsed :=
  match role programs entry.1 with
  | .unread => parsed
  | .product port name =>
      { parsed with
        cursor := entry.2
        events :=
          match parsed.usbByPort port with
          | some index => parsed.events.modify index (withName name)
          | none => parsed.events }
  | .event event =>
      { events := parsed.events ++ [event]
        cursor := entry.2
        usbByPort :=
          if event.kind = "usb-connected" then Function.update parsed.usbByPort event.source (some parsed.events.length)
          else parsed.usbByPort }
  | .nothing => { parsed with cursor := entry.2 }

def isEvent (programs : Programs) (entry : Entry) : Bool :=
  match role programs entry.1 with
  | .event _ => true
  | _ => false

/-- Up to the event that fills the report, where there is a limit. -/
def parseFrom (programs : Programs) (limit : Option Nat) : Parsed → List Entry → Parsed
  | parsed, [] => parsed
  | parsed, entry :: rest =>
      let next := parseEntry programs parsed entry
      if isEvent programs entry && limit.any (· ≤ next.events.length) then next else parseFrom programs limit next rest

def parseActivity (programs : Programs) (entries : List Entry) (limit : Option Nat) : List Event × Nat :=
  let parsed := parseFrom programs limit {} entries
  (parsed.events, parsed.cursor)

def activitySources : List String :=
  ["sudo", "su", "sshd", "sshd-session", "login", "gdm-password", "gdm-session-worker", "lightdm", "sddm",
    "xrdp-sesman", "passwd", "chpasswd", "useradd", "userdel", "usermod", "gpasswd", "odm-agent"]

def fromSources (line : Line) : Bool := line.identifier ∈ activitySources

/-- `--dmesg --grep` -/
def ofUsb (line : Line) : Bool :=
  line.kernel && (Text.holds line.message "New USB device found" || Text.holds line.message "USB disconnect" ||
    Text.holds line.message ": Product: ")

/-- The lines of one read, and where the next one goes on. -/
def collectEvents (programs : Programs) (selects : Line → Bool) (entries : List Entry) (since : Nat)
    (limit : Option Nat) : List Event × Nat :=
  let (found, cursor) := parseActivity programs ((after since entries).filter fun entry => selects entry.1) limit
  (found, if cursor = 0 then since else cursor)

structure LogEntry where
  unit : String
  priority : Int
  message : List UInt8
  occurredAt : Int
  cursor : Nat
  deriving DecidableEq

def logEntry (entry : Entry) : Option LogEntry :=
  if entry.1.message = "" then none
  else
    entry.1.micros.map fun micros =>
      let unit := if entry.1.unit = "" then entry.1.identifier else entry.1.unit
      { unit := if Text.endsWith unit ".service" then String.ofList (unit.toList.take (unit.length - 8)) else unit
        priority := entry.1.priority.getD 6
        message := entry.1.message.toUTF8.toList.take 2000
        occurredAt := micros
        cursor := entry.2 }

def parseJournal (entries : List Entry) (limit : Nat) : List LogEntry := (entries.filterMap logEntry).take limit

def warning (line : Line) : Bool := line.priority.any (· ≤ 4)

/-- `--lines`: the last so many. -/
def lastLines (count : Nat) (entries : List Entry) : List Entry := entries.drop (entries.length - count)

def logUnits : List String := ["odm-agent", "sssd", "ssh", "systemd-logind"]

def dedupe (seen : List Nat) : List LogEntry → List LogEntry
  | [] => []
  | entry :: rest =>
      if entry.cursor = 0 ∨ entry.cursor ∈ seen then dedupe seen rest
      else entry :: dedupe (entry.cursor :: seen) rest

def newest (entries : List LogEntry) (limit : Nat) : List LogEntry :=
  if entries.length ≤ limit then entries else (entries.mergeSort fun a b => b.occurredAt ≤ a.occurredAt).take limit

def collectLogs (since : Nat) (units : List String) (limit : Nat) (entries : List Entry) : List LogEntry × Nat :=
  let waiting := after since entries
  let sweep := parseJournal (lastLines limit (waiting.filter fun entry => warning entry.1)) limit
  let named := units.flatMap fun unit =>
    parseJournal (lastLines (limit / 2) (waiting.filter fun entry => unit ∈ entry.1.units)) (limit / 2)
  let keep := newest (dedupe [] named) (limit * 3 / 5)
  let rest := (dedupe [] sweep).filter fun entry => entry.cursor ∉ keep.map LogEntry.cursor
  let cursor := ((sweep.getLast?).map LogEntry.cursor).getD 0
  (keep ++ newest rest (limit - keep.length), if cursor = 0 then since else cursor)

structure World where
  journal : List Line := []
  activityCursor : Nat := 0
  usbCursor : Nat := 0
  logCursor : Nat := 0
  /-- What the reports that arrived held: events, boots among them, and log lines. -/
  events : List Event := []
  boots : List Event := []
  logs : List LogEntry := []

/-- The journal has grown, and a report is made of it, which arrives or does not. -/
structure Pass where
  arrived : List Line
  boots : List Event
  delivered : Bool := true

namespace World

variable (programs : Programs)

def next (world : World) (pass : Pass) : World :=
  let journal := world.journal ++ pass.arrived
  let entries := numbered journal
  let (activity, activityCursor) := collectEvents programs fromSources entries world.activityCursor (some 300)
  let (devices, usbCursor) := collectEvents programs ofUsb entries world.usbCursor (some 300)
  let (logs, logCursor) := collectLogs world.logCursor logUnits 200 entries
  if pass.delivered then
    { journal, activityCursor, usbCursor, logCursor
      events := world.events ++ (pass.boots ++ (activity ++ devices)).take 500
      boots := world.boots ++ pass.boots
      logs := world.logs ++ logs.take 500 }
  else { world with journal }

end World

variable (programs : Programs)

def allEvents (selects : Line → Bool) (entries : List Entry) : List Event :=
  (parseFrom programs none {} (entries.filter fun entry => selects entry.1)).events

/-- A warning, or a line of a unit that is always read. -/
def worth (line : Line) : Bool := warning line || logUnits.any (· ∈ line.units)

def allLogs (entries : List Entry) : List LogEntry :=
  (entries.filter fun entry => worth entry.1).filterMap logEntry

/-- What was sent and what one more pass without limits would send are what one such pass would have sent of
the whole journal. -/
structure Right (world : World) : Prop where
  events : (world.events ++ (allEvents programs fromSources (after world.activityCursor (numbered world.journal)) ++
      allEvents programs ofUsb (after world.usbCursor (numbered world.journal)))).Perm
    (world.boots ++ (allEvents programs fromSources (numbered world.journal) ++
      allEvents programs ofUsb (numbered world.journal)))
  logs : (world.logs ++ allLogs (after world.logCursor (numbered world.journal))).Perm
    (allLogs (numbered world.journal))

/-- A line that finds a device at a port. -/
def announces (port : String) (entry : Entry) : Bool :=
  match role programs entry.1 with
  | .event event => event.kind = "usb-connected" && event.source = port
  | _ => false

/-- A product's name, where a device was found at its port before, comes after the device was found at it again. -/
def Together (earlier entries : List Entry) : Prop :=
  ∀ before entry rest port name, entries = before ++ entry :: rest → role programs entry.1 = .product port name →
    earlier.any (announces programs port) = true → before.any (announces programs port) = true

/-- The lines a pass comes to: up to the last event there is room for. -/
def within : Nat → List Entry → List Entry
  | _, [] => []
  | room, entry :: rest =>
      entry :: (if isEvent programs entry then if room ≤ 1 then [] else within (room - 1) rest else within room rest)

def dated (entry : Entry) : Bool := role programs entry.1 ≠ .unread

/-- The lines of a read that are dated. -/
def stream (selects : Line → Bool) (entries : List Entry) : List Entry :=
  entries.filter fun entry => dated programs entry && selects entry.1

/-- The lines one read of a stream comes to, and those it leaves. -/
def reads (selects : Line → Bool) (entries : List Entry) (cursor : Nat) : List Entry :=
  within programs 300 (after cursor (stream programs selects entries))

def leaves (selects : Line → Bool) (entries : List Entry) (cursor : Nat) : List Entry :=
  (after cursor (stream programs selects entries)).drop (reads programs selects entries cursor).length

/-- No product's name is apart from its device: among the lines that wait, and among those a full report leaves. -/
structure Whole (selects : Line → Bool) (entries : List Entry) (cursor : Nat) (delivered : Bool) : Prop where
  waiting : Together programs (upTo cursor (stream programs selects entries))
    (after cursor (stream programs selects entries))
  left : delivered = true → Together programs
    (upTo cursor (stream programs selects entries) ++ reads programs selects entries cursor)
    (leaves programs selects entries cursor)

/-- There is room for every log line that waits, and the last of them is a warning. -/
structure Roomy (waiting : List Entry) : Prop where
  warnings : (waiting.filter fun entry => warning entry.1).length ≤ 200
  units : ∀ unit ∈ logUnits, (waiting.filter fun entry => unit ∈ entry.1.units).length ≤ 100
  named : ((waiting.filter fun entry => logUnits.any (· ∈ entry.1.units)).filterMap logEntry).length ≤ 120
  all : (allLogs waiting).length ≤ 200
  last : ∀ entry ∈ waiting, worth entry.1 = true → (logEntry entry).isSome = true →
    ∃ later ∈ waiting, warning later.1 = true ∧ (logEntry later).isSome = true ∧ entry.2 ≤ later.2

/-- What a pass has to find for nothing to be lost or repeated. -/
structure Fits (world : World) (pass : Pass) : Prop where
  activity : Whole programs fromSources (numbered (world.journal ++ pass.arrived)) world.activityCursor pass.delivered
  devices : Whole programs ofUsb (numbered (world.journal ++ pass.arrived)) world.usbCursor pass.delivered
  room : pass.delivered = true → pass.boots.length +
    ((reads programs fromSources (numbered (world.journal ++ pass.arrived)) world.activityCursor).countP
        (isEvent programs) +
      (reads programs ofUsb (numbered (world.journal ++ pass.arrived)) world.usbCursor).countP (isEvent programs)) ≤ 500
  logs : pass.delivered = true → Roomy (after world.logCursor (numbered (world.journal ++ pass.arrived)))

section
variable {programs} {selects : Line → Bool} {parsed other : Parsed} {entry : Entry} {entries xs ys : List Entry}

theorem parseFrom_cons : parseFrom programs none parsed (entry :: entries) =
    parseFrom programs none (parseEntry programs parsed entry) entries := by
  rw [parseFrom]
  simp

theorem parseFrom_append : parseFrom programs none parsed (xs ++ ys) =
    parseFrom programs none (parseFrom programs none parsed xs) ys := by
  induction xs generalizing parsed with
  | nil => rfl
  | cons entry xs ih => rw [List.cons_append, parseFrom_cons, parseFrom_cons, ih]

theorem parseEntry_unread (h : dated programs entry = false) : parseEntry programs parsed entry = parsed := by
  have hrole : role programs entry.1 = .unread := by simpa [dated] using h
  unfold parseEntry
  rw [hrole]

theorem isEvent_unread (h : dated programs entry = false) : isEvent programs entry = false := by
  have hrole : role programs entry.1 = .unread := by simpa [dated] using h
  unfold isEvent
  rw [hrole]

theorem parseFrom_dated (limit : Option Nat) :
    parseFrom programs limit parsed (entries.filter (dated programs)) = parseFrom programs limit parsed entries := by
  induction entries generalizing parsed with
  | nil => rfl
  | cons entry entries ih =>
      cases hdated : dated programs entry with
      | true => rw [List.filter_cons, if_pos hdated, parseFrom, parseFrom, ih]
      | false =>
          rw [List.filter_cons, hdated, if_neg Bool.false_ne_true, ih, parseFrom, parseEntry_unread hdated,
            isEvent_unread hdated]
          simp

theorem parseFrom_stream (limit : Option Nat) :
    parseFrom programs limit parsed (stream programs selects entries) =
      parseFrom programs limit parsed (entries.filter fun entry => selects entry.1) := by
  rw [stream, ← List.filter_filter, parseFrom_dated]

theorem length_parseEntry : (parseEntry programs parsed entry).events.length =
    parsed.events.length + if isEvent programs entry then 1 else 0 := by
  unfold parseEntry isEvent
  cases role programs entry.1 with
  | unread => rfl
  | product port name =>
      dsimp only
      cases parsed.usbByPort port with
      | none => rfl
      | some index => exact List.length_modify _ _ _
  | event event => exact List.length_append
  | nothing => rfl

theorem parseFrom_within {limit : Nat} (h : parsed.events.length < limit) :
    parseFrom programs (some limit) parsed entries =
      parseFrom programs none parsed (within programs (limit - parsed.events.length) entries) := by
  induction entries generalizing parsed with
  | nil => rfl
  | cons entry entries ih =>
      have hlength := @length_parseEntry programs parsed entry
      rw [parseFrom, within, parseFrom_cons]
      cases hevent : isEvent programs entry with
      | false =>
          rw [hevent] at hlength
          have hroom : (parseEntry programs parsed entry).events.length = parsed.events.length := by simpa using hlength
          have hrest := @ih (parseEntry programs parsed entry) (by omega)
          rw [hroom] at hrest
          simpa using hrest
      | true =>
          rw [hevent, if_pos rfl] at hlength
          by_cases hfull : limit - parsed.events.length ≤ 1
          · have hle : limit ≤ (parseEntry programs parsed entry).events.length := by omega
            simp [hfull, hle, parseFrom]
          · have hle : ¬ limit ≤ (parseEntry programs parsed entry).events.length := by omega
            have hrest := @ih (parseEntry programs parsed entry) (by omega)
            rw [show limit - (parseEntry programs parsed entry).events.length = limit - parsed.events.length - 1 by omega]
              at hrest
            simpa [hfull, hle] using hrest

theorem within_starts (room : Nat) (entries : List Entry) : within programs room entries <+: entries := by
  induction entries generalizing room with
  | nil => exact List.prefix_refl _
  | cons entry entries ih =>
      rw [within, List.prefix_cons_inj]
      split_ifs
      · exact List.nil_prefix
      · exact ih _
      · exact ih _

theorem usbByPort_parseEntry (port : String) : ((parseEntry programs parsed entry).usbByPort port).isSome =
    ((parsed.usbByPort port).isSome || announces programs port entry) := by
  unfold parseEntry announces
  cases role programs entry.1 with
  | unread => simp
  | product port name => simp
  | nothing => simp
  | event event =>
      dsimp only
      by_cases hkind : event.kind = "usb-connected"
      · by_cases hport : port = event.source
        · subst hport
          simp [hkind]
        · have hother : ¬ event.source = port := fun heq => hport heq.symm
          simp [hkind, hport, hother]
      · simp [hkind]

theorem usbByPort_parseFrom (port : String) : ((parseFrom programs none parsed entries).usbByPort port).isSome =
    ((parsed.usbByPort port).isSome || entries.any (announces programs port)) := by
  induction entries generalizing parsed with
  | nil => simp [parseFrom]
  | cons entry entries ih => rw [parseFrom_cons, ih, usbByPort_parseEntry, List.any_cons, Bool.or_assoc]

theorem modify_onto {α : Type} (before items : List α) (index : Nat) (f : α → α) :
    (before ++ items).modify (before.length + index) f = before ++ items.modify index f := by
  induction before with
  | nil => simp
  | cons item before ih =>
      rw [List.cons_append, List.length_cons, Nat.add_right_comm, List.modify_succ_cons, ih]
      rfl

/-- A pass that goes on where another stopped, beside the one that starts afresh there. -/
structure Onto (before : List Event) (parsed other : Parsed) : Prop where
  events : parsed.events = before ++ other.events
  known : ∀ port index, other.usbByPort port = some index → parsed.usbByPort port = some (before.length + index)

theorem onto_entry {before : List Event} (h : Onto before parsed other)
    (hnew : ∀ port name, role programs entry.1 = .product port name → other.usbByPort port = none →
      parsed.usbByPort port = none) :
    Onto before (parseEntry programs parsed entry) (parseEntry programs other entry) := by
  obtain ⟨hevents, hknown⟩ := h
  unfold parseEntry
  cases hrole : role programs entry.1 with
  | unread => exact ⟨hevents, hknown⟩
  | nothing => exact ⟨hevents, hknown⟩
  | product port name =>
      refine ⟨?_, hknown⟩
      dsimp only
      cases hother : other.usbByPort port with
      | none => rw [hnew port name hrole hother, hevents]
      | some index =>
          rw [hknown port index hother, hevents]
          exact modify_onto _ _ _ _
  | event event =>
      have happended : parsed.events ++ [event] = before ++ (other.events ++ [event]) := by
        rw [hevents, List.append_assoc]
      refine ⟨happended, fun port index hindex => ?_⟩
      dsimp only at hindex ⊢
      split_ifs at hindex ⊢ with hkind
      · by_cases hport : port = event.source
        · subst hport
          rw [Function.update_self] at hindex ⊢
          rw [← Option.some.inj hindex, hevents, List.length_append]
        · rw [Function.update_of_ne hport] at hindex ⊢
          exact hknown port index hindex
      · exact hknown port index hindex

theorem parseFrom_onto {before : List Event} {earlier done : List Entry} (h : Onto before parsed other)
    (htogether : Together programs earlier (done ++ entries))
    (hparsed : ∀ port, (parsed.usbByPort port).isSome = (earlier.any (announces programs port) ||
      done.any (announces programs port)))
    (hother : ∀ port, (other.usbByPort port).isSome = done.any (announces programs port)) :
    (parseFrom programs none parsed entries).events = before ++ (parseFrom programs none other entries).events := by
  induction entries generalizing parsed other done with
  | nil => exact h.events
  | cons entry entries ih =>
      have hnew : ∀ port name, role programs entry.1 = .product port name → other.usbByPort port = none →
          parsed.usbByPort port = none := by
        intro port name hrole hnone
        have hdone : done.any (announces programs port) = false := by
          rw [← hother, hnone]
          rfl
        have hearlier : earlier.any (announces programs port) = false := by
          by_contra hsome
          have hagain := htogether done entry entries port name rfl hrole (by simpa using hsome)
          rw [hdone] at hagain
          cases hagain
        have hsame := hparsed port
        rw [hearlier, hdone] at hsame
        simpa using hsame
      rw [parseFrom_cons, parseFrom_cons]
      refine @ih _ _ (done ++ [entry]) (onto_entry h hnew) ?_ (fun port => ?_) fun port => ?_
      · rwa [List.append_assoc, List.singleton_append]
      · rw [usbByPort_parseEntry, hparsed, List.any_append, List.any_cons, List.any_nil, Bool.or_false, Bool.or_assoc]
      · rw [usbByPort_parseEntry, hother, List.any_append, List.any_cons, List.any_nil, Bool.or_false]

/-- Lines that are read in two passes are read as in one, where no product's name is apart from its device. -/
theorem events_append (h : Together programs xs ys) :
    (parseFrom programs none {} (xs ++ ys)).events =
      (parseFrom programs none {} xs).events ++ (parseFrom programs none {} ys).events := by
  rw [parseFrom_append]
  refine @parseFrom_onto programs _ {} ys _ xs [] ⟨by simp, nofun⟩ h (fun port => ?_) fun port => rfl
  rw [usbByPort_parseFrom]
  simp

/-- Every line comes after those before it. -/
def Rising (entries : List Entry) : Prop := entries.Pairwise fun first second => first.2 < second.2

theorem rising_numbered (journal : List Line) : Rising (numbered journal) := by
  unfold Rising numbered
  have hpositions : ((journal.zipIdx 1).map Prod.snd).Pairwise (· < ·) := by
    rw [List.zipIdx_map_snd]
    exact List.pairwise_lt_range'
  exact List.pairwise_map.mp hpositions

theorem Rising.filter (h : Rising entries) (p : Entry → Bool) : Rising (entries.filter p) := List.Pairwise.filter p h

theorem upTo_append_after (h : Rising entries) (cursor : Nat) : upTo cursor entries ++ after cursor entries = entries := by
  have hnot : after cursor entries = entries.filter fun entry => !decide (entry.2 ≤ cursor) :=
    List.filter_congr fun entry _ => by simp [← decide_not]
  have hperm : (upTo cursor entries ++ after cursor entries).Perm entries := hnot ▸ List.filter_append_perm _ _
  have hrising : Rising (upTo cursor entries ++ after cursor entries) := by
    refine List.pairwise_append.mpr ⟨h.filter _, h.filter _, fun first hfirst second hsecond => ?_⟩
    exact lt_of_le_of_lt (of_decide_eq_true (List.mem_filter.mp hfirst).2) (of_decide_eq_true (List.mem_filter.mp hsecond).2)
  exact hperm.eq_of_pairwise (fun _ _ _ _ hlt hgt => absurd hlt hgt.asymm) hrising h

theorem split_at (h : Rising (xs ++ [entry] ++ ys)) :
    upTo entry.2 (xs ++ [entry] ++ ys) = xs ++ [entry] ∧ after entry.2 (xs ++ [entry] ++ ys) = ys := by
  obtain ⟨hbefore, _, hys⟩ := List.pairwise_append.mp h
  obtain ⟨_, _, hxs⟩ := List.pairwise_append.mp hbefore
  have hle : ∀ other ∈ xs ++ [entry], other.2 ≤ entry.2 := by
    intro other hother
    rcases List.mem_append.mp hother with hmem | hmem
    · exact (hxs other hmem entry List.mem_cons_self).le
    · rw [List.mem_singleton.mp hmem]
  have hlt : ∀ other ∈ ys, entry.2 < other.2 :=
    fun other hother => hys entry (List.mem_append_right _ List.mem_cons_self) other hother
  unfold upTo after
  rw [List.filter_append (xs ++ [entry]) ys, List.filter_append (xs ++ [entry]) ys]
  constructor
  · rw [List.filter_eq_self.mpr fun other hother => decide_eq_true (hle other hother), List.filter_eq_nil_iff.mpr,
      List.append_nil]
    intro other hother
    have := hlt other hother
    simpa using this
  · rw [List.filter_eq_self.mpr fun other hother => decide_eq_true (hlt other hother), List.filter_eq_nil_iff.mpr,
      List.nil_append]
    intro other hother
    have := hle other hother
    simpa using this

theorem numbered_append (journal arrived : List Line) :
    ∃ more : List Entry, numbered (journal ++ arrived) = numbered journal ++ more ∧
      ∀ entry ∈ more, journal.length < entry.2 := by
  refine ⟨arrived.zipIdx (1 + journal.length), List.zipIdx_append, fun entry hentry => ?_⟩
  have hle := List.le_snd_of_mem_zipIdx hentry
  omega

variable {journal : List Line} {cursor : Nat}

theorem le_length_of_mem (h : entry ∈ numbered journal) : 0 < entry.2 ∧ entry.2 ≤ journal.length := by
  have hle := List.le_snd_of_mem_zipIdx h
  have hlt := List.snd_lt_add_of_mem_zipIdx h
  omega

theorem upTo_grown {journal arrived : List Line} {cursor : Nat} (h : cursor ≤ journal.length) (p : Entry → Bool) :
    upTo cursor ((numbered (journal ++ arrived)).filter p) = upTo cursor ((numbered journal).filter p) := by
  obtain ⟨more, hmore, hlater⟩ := numbered_append journal arrived
  unfold upTo
  rw [hmore, List.filter_append, List.filter_append]
  have hnone : (more.filter p).filter (fun entry => decide (entry.2 ≤ cursor)) = [] := by
    rw [List.filter_eq_nil_iff]
    intro entry hentry
    have hlt := hlater entry (List.mem_filter.mp hentry).1
    simp only [decide_eq_true_eq]
    omega
  rw [hnone, List.append_nil]

theorem after_stream (cursor : Nat) :
    stream programs selects (after cursor entries) = after cursor (stream programs selects entries) := by
  unfold stream after
  rw [List.filter_filter, List.filter_filter]
  exact List.filter_congr fun _ _ => Bool.and_comm _ _

theorem cursor_parseEntry (h : dated programs entry = true) : (parseEntry programs parsed entry).cursor = entry.2 := by
  unfold dated at h
  unfold parseEntry
  cases hrole : role programs entry.1 with
  | unread => simp [hrole] at h
  | product port name => rfl
  | event event => rfl
  | nothing => rfl

theorem cursor_parseFrom (h : ∀ entry ∈ entries, dated programs entry = true) :
    (parseFrom programs none parsed entries).cursor = ((entries.getLast?).map Prod.snd).getD parsed.cursor := by
  induction entries using List.reverseRecOn with
  | nil => rfl
  | append_singleton entries entry _ =>
      have hdated := h entry (List.mem_append_right _ List.mem_cons_self)
      rw [parseFrom_append, parseFrom_cons, parseFrom, cursor_parseEntry hdated]
      simp

theorem length_parseFrom : (parseFrom programs none parsed entries).events.length =
    parsed.events.length + entries.countP (isEvent programs) := by
  induction entries generalizing parsed with
  | nil => rfl
  | cons entry entries ih =>
      rw [parseFrom_cons, ih, length_parseEntry, List.countP_cons]
      omega

theorem within_ne_nil {room : Nat} (h : entries ≠ []) : within programs room entries ≠ [] := by
  cases entries with
  | nil => exact absurd rfl h
  | cons entry entries => exact List.cons_ne_nil _ _

theorem reads_append_leaves (cursor : Nat) :
    reads programs selects entries cursor ++ leaves programs selects entries cursor =
      after cursor (stream programs selects entries) :=
  List.prefix_iff_eq_append.mp (within_starts 300 _)

theorem dated_of_mem_stream (h : entry ∈ stream programs selects entries) : dated programs entry = true := by
  have hkept := (List.mem_filter.mp h).2
  rw [Bool.and_eq_true] at hkept
  exact hkept.1

theorem mem_of_mem_reads (h : entry ∈ reads programs selects entries cursor) :
    entry ∈ stream programs selects entries :=
  (List.mem_filter.mp ((within_starts 300 _).mem h)).1

theorem collectEvents_found (cursor : Nat) : (collectEvents programs selects entries cursor (some 300)).1 =
    (parseFrom programs none {} (reads programs selects entries cursor)).events := by
  unfold collectEvents parseActivity reads
  dsimp only
  rw [← parseFrom_stream (some 300), after_stream, parseFrom_within (by decide)]
  rfl

theorem collectEvents_cursor (cursor : Nat) : (collectEvents programs selects entries cursor (some 300)).2 =
    if ((reads programs selects entries cursor).getLast?.map Prod.snd).getD 0 = 0 then cursor
    else ((reads programs selects entries cursor).getLast?.map Prod.snd).getD 0 := by
  have hread : (parseFrom programs (some 300) {}
      ((after cursor entries).filter fun entry => selects entry.1)).cursor =
        ((reads programs selects entries cursor).getLast?.map Prod.snd).getD 0 := by
    rw [← parseFrom_stream (some 300), after_stream, parseFrom_within (by decide)]
    exact cursor_parseFrom fun entry hentry => dated_of_mem_stream (mem_of_mem_reads hentry)
  unfold collectEvents parseActivity
  dsimp only
  rw [hread]

theorem collectEvents_split {cursor : Nat} (hrising : Rising entries) (hpositive : ∀ entry ∈ entries, 0 < entry.2) :
    upTo (collectEvents programs selects entries cursor (some 300)).2 (stream programs selects entries) =
        upTo cursor (stream programs selects entries) ++ reads programs selects entries cursor ∧
      after (collectEvents programs selects entries cursor (some 300)).2 (stream programs selects entries) =
        leaves programs selects entries cursor := by
  have hstream : Rising (stream programs selects entries) := hrising.filter _
  have hall := upTo_append_after hstream cursor
  rw [← reads_append_leaves] at hall
  rw [collectEvents_cursor]
  rcases List.eq_nil_or_concat' (reads programs selects entries cursor) with hnil | ⟨before, last, hlast⟩
  · have hafter : after cursor (stream programs selects entries) = [] := by
      by_contra hne
      exact within_ne_nil hne hnil
    have hleaves : leaves programs selects entries cursor = [] := by
      unfold leaves
      rw [hafter, List.drop_nil]
    rw [hnil, hleaves, List.append_nil]
    exact ⟨rfl, hafter⟩
  · have hmem : last ∈ entries := by
      have hread : last ∈ reads programs selects entries cursor := by
        rw [hlast]
        exact List.mem_append_right _ List.mem_cons_self
      exact (List.mem_filter.mp (mem_of_mem_reads hread)).1
    have hcursor : ((reads programs selects entries cursor).getLast?.map Prod.snd).getD 0 = last.2 := by
      rw [hlast]
      simp
    rw [hcursor, if_neg (hpositive last hmem).ne']
    have hassoc : upTo cursor (stream programs selects entries) ++
        (reads programs selects entries cursor ++ leaves programs selects entries cursor) =
          upTo cursor (stream programs selects entries) ++ before ++ [last] ++ leaves programs selects entries cursor := by
      rw [hlast]
      simp only [List.append_assoc]
    rw [hassoc] at hall
    rw [← hall] at hstream
    obtain ⟨hupTo, hafter⟩ := split_at hstream
    rw [hall] at hupTo hafter
    rw [hlast, ← List.append_assoc]
    exact ⟨hupTo, hafter⟩

theorem Together.of_append {earlier : List Entry} (h : Together programs earlier (xs ++ ys)) :
    Together programs earlier xs := by
  intro before entry rest port name hsplit hrole hearlier
  refine h before entry (rest ++ ys) port name ?_ hrole hearlier
  rw [hsplit, List.append_assoc, List.cons_append]

/-- The events of the lines that have been read. -/
def sentOf (programs : Programs) (selects : Line → Bool) (entries : List Entry) (cursor : Nat) : List Event :=
  (parseFrom programs none {} (upTo cursor (stream programs selects entries))).events

theorem sentOf_collected (hrising : Rising entries) (hpositive : ∀ entry ∈ entries, 0 < entry.2)
    (hwhole : Whole programs selects entries cursor true) :
    sentOf programs selects entries (collectEvents programs selects entries cursor (some 300)).2 =
      sentOf programs selects entries cursor ++ (collectEvents programs selects entries cursor (some 300)).1 := by
  have htogether := hwhole.waiting
  rw [← reads_append_leaves] at htogether
  unfold sentOf
  rw [(collectEvents_split hrising hpositive).1, events_append htogether.of_append, collectEvents_found]

theorem sentOf_grown {arrived : List Line} (h : cursor ≤ journal.length) :
    sentOf programs selects (numbered (journal ++ arrived)) cursor = sentOf programs selects (numbered journal) cursor := by
  unfold sentOf stream
  rw [upTo_grown h]

theorem collectEvents_le (h : cursor ≤ journal.length) :
    (collectEvents programs selects (numbered journal) cursor (some 300)).2 ≤ journal.length := by
  rw [collectEvents_cursor]
  rcases List.eq_nil_or_concat' (reads programs selects (numbered journal) cursor) with hnil | ⟨before, last, hlast⟩
  · rw [hnil]
    exact h
  · have hmem : last ∈ reads programs selects (numbered journal) cursor := by
      rw [hlast]
      exact List.mem_append_right _ List.mem_cons_self
    have hle := le_length_of_mem (List.mem_filter.mp (mem_of_mem_reads hmem)).1
    rw [hlast]
    split_ifs
    · exact h
    · simpa using hle.2

theorem cursor_logEntry {found : LogEntry} (h : logEntry entry = some found) : found.cursor = entry.2 := by
  unfold logEntry at h
  by_cases hmessage : entry.1.message = ""
  · rw [if_pos hmessage] at h
    cases h
  rw [if_neg hmessage] at h
  obtain ⟨micros, _, rfl⟩ := Option.map_eq_some_iff.mp h
  rfl

theorem lastLines_all {count : Nat} (h : entries.length ≤ count) : lastLines count entries = entries := by
  unfold lastLines
  rw [show entries.length - count = 0 by omega, List.drop_zero]

theorem parseJournal_all {limit : Nat} (h : entries.length ≤ limit) :
    parseJournal (lastLines limit entries) limit = entries.filterMap logEntry := by
  unfold parseJournal
  rw [lastLines_all h, List.take_of_length_le]
  exact (List.length_filterMap_le _ _).trans h

theorem mem_dedupe {found : List LogEntry} {seen : List Nat} {one : LogEntry}
    (hkeyed : ∀ first ∈ found, ∀ second ∈ found, first.cursor = second.cursor → first = second)
    (hpositive : ∀ first ∈ found, first.cursor ≠ 0) :
    one ∈ dedupe seen found ↔ one ∈ found ∧ one.cursor ∉ seen := by
  induction found generalizing seen with
  | nil => simp [dedupe]
  | cons first found ih =>
      have ih' := fun seen => @ih seen
        (fun a ha b hb => hkeyed a (List.mem_cons_of_mem _ ha) b (List.mem_cons_of_mem _ hb))
        fun a ha => hpositive a (List.mem_cons_of_mem _ ha)
      rw [dedupe]
      by_cases hseen : first.cursor ∈ seen
      · rw [if_pos (.inr hseen), ih', List.mem_cons]
        constructor
        · exact fun h => ⟨.inr h.1, h.2⟩
        · rintro ⟨rfl | hmem, hnot⟩
          · exact absurd hseen hnot
          · exact ⟨hmem, hnot⟩
      · rw [if_neg (not_or.mpr ⟨hpositive first List.mem_cons_self, hseen⟩), List.mem_cons, ih', List.mem_cons,
          List.mem_cons, not_or]
        constructor
        · rintro (rfl | ⟨hmem, _, hnot⟩)
          · exact ⟨.inl rfl, hseen⟩
          · exact ⟨.inr hmem, hnot⟩
        · rintro ⟨rfl | hmem, hnot⟩
          · exact .inl rfl
          · by_cases hsame : one.cursor = first.cursor
            · exact .inl (hkeyed one (List.mem_cons_of_mem _ hmem) first List.mem_cons_self hsame)
            · exact .inr ⟨hmem, hsame, hnot⟩

theorem nodup_dedupe (seen : List Nat) (found : List LogEntry) :
    (dedupe seen found).Nodup ∧ ∀ one ∈ dedupe seen found, one.cursor ∉ seen := by
  induction found generalizing seen with
  | nil => simp [dedupe]
  | cons first found ih =>
      rw [dedupe]
      split_ifs with hseen
      · exact ih seen
      · obtain ⟨hnodup, hout⟩ := ih (first.cursor :: seen)
        refine ⟨List.nodup_cons.mpr ⟨fun hmem => hout first hmem List.mem_cons_self, hnodup⟩, fun one hone => ?_⟩
        rcases List.mem_cons.mp hone with rfl | hmem
        · exact fun hmem => hseen (.inr hmem)
        · exact fun hin => hout one hmem (List.mem_cons_of_mem _ hin)

theorem rising_logs (h : Rising entries) :
    (entries.filterMap logEntry).Pairwise fun first second => first.cursor < second.cursor := by
  refine List.Pairwise.filterMap logEntry (fun first second hlt found hfound other hother => ?_) h
  rw [cursor_logEntry hfound, cursor_logEntry hother]
  exact hlt

theorem nodup_logs (h : Rising entries) : (entries.filterMap logEntry).Nodup :=
  (rising_logs h).imp fun hlt heq => absurd (congrArg LogEntry.cursor heq) hlt.ne

theorem eq_of_cursor (h : Rising entries) {first second : LogEntry} (hfirst : first ∈ entries.filterMap logEntry)
    (hsecond : second ∈ entries.filterMap logEntry) (hcursor : first.cursor = second.cursor) : first = second := by
  have hnodup : ((entries.filterMap logEntry).map LogEntry.cursor).Nodup :=
    List.pairwise_map.mpr ((rising_logs h).imp fun hlt => hlt.ne)
  exact List.inj_on_of_nodup_map hnodup hfirst hsecond hcursor

/-- The lines of any of the units. -/
def ofUnits (entry : Entry) : Bool := logUnits.any (· ∈ entry.1.units)

theorem mem_filterMap_filter {p : Entry → Bool} {one : LogEntry} : one ∈ (entries.filter p).filterMap logEntry ↔
    ∃ entry ∈ entries, p entry = true ∧ logEntry entry = some one := by
  rw [List.mem_filterMap]
  constructor
  · rintro ⟨entry, hentry, hone⟩
    exact ⟨entry, (List.mem_filter.mp hentry).1, (List.mem_filter.mp hentry).2, hone⟩
  · rintro ⟨entry, hentry, hp, hone⟩
    exact ⟨entry, List.mem_filter.mpr ⟨hentry, hp⟩, hone⟩

theorem dedupe_perm {found wanted : List LogEntry} (hnodup : wanted.Nodup) (hmem : ∀ one, one ∈ found ↔ one ∈ wanted)
    (hkeyed : ∀ first ∈ wanted, ∀ second ∈ wanted, first.cursor = second.cursor → first = second)
    (hpositive : ∀ first ∈ wanted, first.cursor ≠ 0) : (dedupe [] found).Perm wanted := by
  refine (List.perm_ext_iff_of_nodup (nodup_dedupe [] found).1 hnodup).mpr fun one => ?_
  rw [mem_dedupe, hmem]
  · simp
  · exact fun first hfirst second hsecond => hkeyed first ((hmem first).mp hfirst) second ((hmem second).mp hsecond)
  · exact fun first hfirst => hpositive first ((hmem first).mp hfirst)

section
variable {waiting : List Entry} {since : Nat}

theorem newest_all {found : List LogEntry} {limit : Nat} (h : found.length ≤ limit) : newest found limit = found := if_pos h

theorem mem_named {one : LogEntry} :
    one ∈ (logUnits.flatMap fun unit => (waiting.filter fun entry => unit ∈ entry.1.units).filterMap logEntry) ↔
      one ∈ (waiting.filter ofUnits).filterMap logEntry := by
  rw [List.mem_flatMap, mem_filterMap_filter]
  constructor
  · rintro ⟨unit, hunit, hone⟩
    obtain ⟨entry, hentry, hof, hfound⟩ := mem_filterMap_filter.mp hone
    exact ⟨entry, hentry, List.any_eq_true.mpr ⟨unit, hunit, hof⟩, hfound⟩
  · rintro ⟨entry, hentry, hof, hfound⟩
    obtain ⟨unit, hunit, hin⟩ := List.any_eq_true.mp hof
    exact ⟨unit, hunit, mem_filterMap_filter.mpr ⟨entry, hentry, hin, hfound⟩⟩

theorem allLogs_eq : allLogs waiting = (waiting.filter fun entry => warning entry.1 || ofUnits entry).filterMap logEntry :=
  rfl

/-- The named lines and those of the sweep that are not among them. -/
def combined (named sweep : List LogEntry) : List LogEntry :=
  named ++ sweep.filter fun entry => entry.cursor ∉ named.map LogEntry.cursor

theorem combined_perm {named sweep wanted : List LogEntry} (hnamed : named.Nodup) (hsweep : sweep.Nodup)
    (hwanted : wanted.Nodup) (hmem : ∀ one, one ∈ wanted ↔ one ∈ sweep ∨ one ∈ named)
    (hkeyed : ∀ first ∈ wanted, ∀ second ∈ wanted, first.cursor = second.cursor → first = second) :
    (combined named sweep).Perm wanted := by
  have hnodup : (combined named sweep).Nodup := by
    refine List.nodup_append.mpr ⟨hnamed, hsweep.filter _, fun one hone other hother heq => ?_⟩
    subst heq
    have hout := (List.mem_filter.mp hother).2
    simp only [decide_eq_true_eq] at hout
    exact hout (List.mem_map_of_mem hone)
  refine (List.perm_ext_iff_of_nodup hnodup hwanted).mpr fun one => ?_
  unfold combined
  rw [List.mem_append, List.mem_filter, hmem]
  constructor
  · rintro (hone | ⟨hone, -⟩)
    · exact .inr hone
    · exact .inl hone
  · rintro (hone | hone)
    · by_cases hin : one.cursor ∈ named.map LogEntry.cursor
      · obtain ⟨other, hother, hcursor⟩ := List.mem_map.mp hin
        have hsame := hkeyed other ((hmem other).mpr (.inr hother)) one ((hmem one).mpr (.inl hone)) hcursor
        exact .inl (hsame ▸ hother)
      · exact .inr ⟨hone, decide_eq_true hin⟩
    · exact .inl hone

theorem logs_keyed (hrising : Rising waiting) (hpositive : ∀ entry ∈ waiting, 0 < entry.2) (p : Entry → Bool) :
    (∀ first ∈ (waiting.filter p).filterMap logEntry, ∀ second ∈ (waiting.filter p).filterMap logEntry,
        first.cursor = second.cursor → first = second) ∧
      ∀ first ∈ (waiting.filter p).filterMap logEntry, first.cursor ≠ 0 := by
  constructor
  · exact fun first hfirst second hsecond => eq_of_cursor (hrising.filter p) hfirst hsecond
  · intro first hfirst
    obtain ⟨entry, hentry, -, hfound⟩ := mem_filterMap_filter.mp hfirst
    rw [cursor_logEntry hfound]
    exact (hpositive entry hentry).ne'

theorem collectLogs_perm (hrising : Rising (after since entries)) (hpositive : ∀ entry ∈ after since entries, 0 < entry.2)
    (hroomy : Roomy (after since entries)) :
    ((collectLogs since logUnits 200 entries).1.take 500).Perm (allLogs (after since entries)) := by
  have hnamed : (dedupe [] (logUnits.flatMap fun unit =>
      ((after since entries).filter fun entry => unit ∈ entry.1.units).filterMap logEntry)).Perm
        (((after since entries).filter ofUnits).filterMap logEntry) :=
    dedupe_perm (nodup_logs (hrising.filter _)) (fun _ => mem_named) (logs_keyed hrising hpositive ofUnits).1
      (logs_keyed hrising hpositive ofUnits).2
  have hsweep : (dedupe [] (((after since entries).filter fun entry => warning entry.1).filterMap logEntry)).Perm
      (((after since entries).filter fun entry => warning entry.1).filterMap logEntry) :=
    dedupe_perm (nodup_logs (hrising.filter _)) (fun _ => Iff.rfl) (logs_keyed hrising hpositive _).1
      (logs_keyed hrising hpositive _).2
  have hunits : (logUnits.flatMap fun unit => parseJournal (lastLines (200 / 2)
      ((after since entries).filter fun entry => unit ∈ entry.1.units)) (200 / 2)) =
        logUnits.flatMap fun unit =>
          ((after since entries).filter fun entry => unit ∈ entry.1.units).filterMap logEntry := by
    rw [List.flatMap_def, List.flatMap_def]
    exact congrArg List.flatten (List.map_congr_left fun unit hunit => parseJournal_all (hroomy.units unit hunit))
  unfold collectLogs
  dsimp only
  rw [hunits, parseJournal_all hroomy.warnings, newest_all (hnamed.length_eq.trans_le hroomy.named)]
  generalize dedupe [] (logUnits.flatMap fun unit =>
    ((after since entries).filter fun entry => unit ∈ entry.1.units).filterMap logEntry) = named at hnamed ⊢
  generalize dedupe [] (((after since entries).filter fun entry => warning entry.1).filterMap logEntry) = sweep
    at hsweep ⊢
  have hcombined : (combined named sweep).Perm (allLogs (after since entries)) := by
    refine combined_perm (hnamed.nodup_iff.mpr (nodup_logs (hrising.filter _)))
      (hsweep.nodup_iff.mpr (nodup_logs (hrising.filter _))) (nodup_logs (hrising.filter _)) (fun one => ?_)
      (logs_keyed hrising hpositive _).1
    rw [hsweep.mem_iff, hnamed.mem_iff, allLogs_eq, mem_filterMap_filter, mem_filterMap_filter, mem_filterMap_filter]
    constructor
    · rintro ⟨entry, hentry, hworth, hfound⟩
      rcases Bool.or_eq_true_iff.mp hworth with hwarning | hof
      · exact .inl ⟨entry, hentry, hwarning, hfound⟩
      · exact .inr ⟨entry, hentry, hof, hfound⟩
    · rintro (⟨entry, hentry, hwarning, hfound⟩ | ⟨entry, hentry, hof, hfound⟩)
      · exact ⟨entry, hentry, Bool.or_eq_true_iff.mpr (.inl hwarning), hfound⟩
      · exact ⟨entry, hentry, Bool.or_eq_true_iff.mpr (.inr hof), hfound⟩
  have hlength : (combined named sweep).length ≤ 200 := hcombined.length_eq.trans_le hroomy.all
  have hrest : (sweep.filter fun entry => entry.cursor ∉ named.map LogEntry.cursor).length ≤ 200 - named.length := by
    unfold combined at hlength
    rw [List.length_append] at hlength
    omega
  rw [newest_all hrest]
  show ((combined named sweep).take 500).Perm _
  rw [List.take_of_length_le (by omega)]
  exact hcombined

theorem mem_sweep (hroomy : Roomy (after since entries)) {one : LogEntry} :
    one ∈ parseJournal (lastLines 200 ((after since entries).filter fun entry => warning entry.1)) 200 ↔
      ∃ entry ∈ after since entries, warning entry.1 = true ∧ logEntry entry = some one := by
  rw [parseJournal_all hroomy.warnings, mem_filterMap_filter]

theorem mem_allLogs {one : LogEntry} :
    one ∈ allLogs waiting ↔ ∃ entry ∈ waiting, worth entry.1 = true ∧ logEntry entry = some one :=
  mem_filterMap_filter

theorem collectLogs_read (hrising : Rising (after since entries)) (hpositive : ∀ entry ∈ after since entries, 0 < entry.2)
    (hroomy : Roomy (after since entries)) :
    allLogs (after (collectLogs since logUnits 200 entries).2 entries) = [] := by
  unfold collectLogs
  dsimp only
  have hsweep := fun one => @mem_sweep entries since hroomy one
  have hrise : (parseJournal (lastLines 200 ((after since entries).filter fun entry => warning entry.1)) 200).Pairwise
      fun first second => first.cursor < second.cursor := by
    rw [parseJournal_all hroomy.warnings]
    exact rising_logs (hrising.filter _)
  generalize parseJournal (lastLines 200 ((after since entries).filter fun entry => warning entry.1)) 200 = sweep
    at hsweep hrise ⊢
  -- a line behind the position would have waited, and a warning that was read comes after it
  have hlater : ∀ one, one ∈ allLogs (after since entries) → ∃ other ∈ sweep, one.cursor ≤ other.cursor := by
    intro one hone
    obtain ⟨entry, hentry, hworth, hfound⟩ := mem_allLogs.mp hone
    obtain ⟨later, hin, hwarning, hsome, hle⟩ := hroomy.last entry hentry hworth (by rw [hfound]; rfl)
    obtain ⟨other, hother⟩ := Option.isSome_iff_exists.mp hsome
    refine ⟨other, (hsweep other).mpr ⟨later, hin, hwarning, hother⟩, ?_⟩
    rw [cursor_logEntry hfound, cursor_logEntry hother]
    exact hle
  rcases List.eq_nil_or_concat' sweep with rfl | ⟨before, last, rfl⟩
  · refine List.eq_nil_iff_forall_not_mem.mpr fun one hone => ?_
    obtain ⟨other, hother, _⟩ := hlater one hone
    cases hother
  · obtain ⟨read, hread, _, hfound⟩ := (hsweep last).mp (List.mem_append_right _ List.mem_cons_self)
    have hcursor := cursor_logEntry hfound
    have hpos := hpositive read hread
    have hsince : since < read.2 := of_decide_eq_true (List.mem_filter.mp hread).2
    rw [List.getLast?_append_cons, List.getLast?_singleton, Option.map_some, Option.getD_some, hcursor,
      if_neg hpos.ne']
    refine List.eq_nil_iff_forall_not_mem.mpr fun one hone => ?_
    obtain ⟨entry, hentry, hworth, hone⟩ := mem_allLogs.mp hone
    obtain ⟨hin, hbehind⟩ := List.mem_filter.mp hentry
    have hbehind : read.2 < entry.2 := of_decide_eq_true hbehind
    obtain ⟨other, hother, hle⟩ := hlater one
      (mem_allLogs.mpr ⟨entry, List.mem_filter.mpr ⟨hin, decide_eq_true (hsince.trans hbehind)⟩, hworth, hone⟩)
    have hlast : other.cursor ≤ last.cursor := by
      rcases List.mem_append.mp hother with hbefore | hsame
      · exact ((List.pairwise_append.mp hrise).2.2 other hbefore last List.mem_cons_self).le
      · rw [List.mem_singleton.mp hsame]
    rw [cursor_logEntry hone] at hle
    omega

theorem collectLogs_le {journal : List Line} (h : since ≤ journal.length) :
    (collectLogs since logUnits 200 (numbered journal)).2 ≤ journal.length := by
  unfold collectLogs
  dsimp only
  split_ifs
  · exact h
  · cases hlast : (parseJournal (lastLines 200 ((after since (numbered journal)).filter fun entry => warning entry.1))
        200).getLast? with
    | none => simp
    | some last =>
        have hmem := List.mem_of_mem_take (List.mem_of_getLast? hlast)
        obtain ⟨entry, hentry, hfound⟩ := List.mem_filterMap.mp hmem
        have hwaiting := (List.mem_filter.mp (List.mem_of_mem_drop hentry)).1
        have hle := (le_length_of_mem (List.mem_filter.mp hwaiting).1).2
        rw [Option.map_some, Option.getD_some, cursor_logEntry hfound]
        exact hle

theorem allLogs_append : allLogs (xs ++ ys) = allLogs xs ++ allLogs ys := by
  unfold allLogs
  rw [List.filter_append, List.filterMap_append]

theorem allLogs_split (hrising : Rising entries) (cursor : Nat) :
    allLogs (upTo cursor entries) ++ allLogs (after cursor entries) = allLogs entries := by
  rw [← allLogs_append, upTo_append_after hrising]

theorem allLogs_grown {journal arrived : List Line} {cursor : Nat} (h : cursor ≤ journal.length) :
    allLogs (upTo cursor (numbered (journal ++ arrived))) = allLogs (upTo cursor (numbered journal)) := by
  have hgrown := @upTo_grown journal arrived cursor h fun _ => true
  rw [List.filter_true, List.filter_true] at hgrown
  rw [hgrown]

end

/-- What holds between passes: what arrived is what has been read of the journal. -/
structure Sound (programs : Programs) (world : World) : Prop where
  activityCursor : world.activityCursor ≤ world.journal.length
  usbCursor : world.usbCursor ≤ world.journal.length
  logCursor : world.logCursor ≤ world.journal.length
  activity : Together programs (upTo world.activityCursor (stream programs fromSources (numbered world.journal)))
    (after world.activityCursor (stream programs fromSources (numbered world.journal)))
  devices : Together programs (upTo world.usbCursor (stream programs ofUsb (numbered world.journal)))
    (after world.usbCursor (stream programs ofUsb (numbered world.journal)))
  events : world.events.Perm (world.boots ++
    (sentOf programs fromSources (numbered world.journal) world.activityCursor ++
      sentOf programs ofUsb (numbered world.journal) world.usbCursor))
  logs : world.logs.Perm (allLogs (upTo world.logCursor (numbered world.journal)))

theorem sound_initial : Sound programs {} := by
  have hapart : Together programs ([] : List Entry) [] := by
    intro before entry rest port name hsplit
    cases before <;> cases hsplit
  exact ⟨le_rfl, le_rfl, le_rfl, hapart, hapart, .refl _, .refl _⟩

theorem reports_perm {α : Type} (boots more first second third fourth : List α) :
    ((boots ++ (first ++ second)) ++ (more ++ (third ++ fourth))).Perm
      ((boots ++ more) ++ ((first ++ third) ++ (second ++ fourth))) := by
  refine Multiset.coe_eq_coe.mp ?_
  simp only [← Multiset.coe_add]
  abel

variable {world : World}

theorem next_missed {pass : Pass} (h : pass.delivered = false) :
    world.next programs pass = { world with journal := world.journal ++ pass.arrived } := by
  unfold World.next
  rw [h]
  rfl

theorem sound_missed {pass : Pass} (h : Sound programs world) (hfits : Fits programs world pass)
    (hmissed : pass.delivered = false) : Sound programs (world.next programs pass) := by
  have hgrown : world.journal.length ≤ (world.journal ++ pass.arrived).length := by
    rw [List.length_append]
    omega
  rw [next_missed hmissed]
  refine ⟨h.activityCursor.trans hgrown, h.usbCursor.trans hgrown, h.logCursor.trans hgrown, hfits.activity.waiting,
    hfits.devices.waiting, ?_, ?_⟩
  · dsimp only
    rw [sentOf_grown h.activityCursor, sentOf_grown h.usbCursor]
    exact h.events
  · dsimp only
    rw [allLogs_grown h.logCursor]
    exact h.logs

theorem next_delivered {pass : Pass} (h : pass.delivered = true) :
    world.next programs pass =
      { journal := world.journal ++ pass.arrived
        activityCursor :=
          (collectEvents programs fromSources (numbered (world.journal ++ pass.arrived)) world.activityCursor (some 300)).2
        usbCursor := (collectEvents programs ofUsb (numbered (world.journal ++ pass.arrived)) world.usbCursor (some 300)).2
        logCursor := (collectLogs world.logCursor logUnits 200 (numbered (world.journal ++ pass.arrived))).2
        events := world.events ++ (pass.boots ++
          ((collectEvents programs fromSources (numbered (world.journal ++ pass.arrived)) world.activityCursor
              (some 300)).1 ++
            (collectEvents programs ofUsb (numbered (world.journal ++ pass.arrived)) world.usbCursor
              (some 300)).1)).take 500
        boots := world.boots ++ pass.boots
        logs := world.logs ++
          (collectLogs world.logCursor logUnits 200 (numbered (world.journal ++ pass.arrived))).1.take 500 } := by
  unfold World.next
  dsimp only
  rw [if_pos h]

theorem together_next {journal : List Line} {cursor : Nat} {selects : Line → Bool}
    (h : Whole programs selects (numbered journal) cursor true) :
    Together programs
      (upTo (collectEvents programs selects (numbered journal) cursor (some 300)).2
        (stream programs selects (numbered journal)))
      (after (collectEvents programs selects (numbered journal) cursor (some 300)).2
        (stream programs selects (numbered journal))) := by
  obtain ⟨hread, hleft⟩ := @collectEvents_split programs selects (numbered journal) cursor (rising_numbered journal)
    fun entry hentry => (le_length_of_mem hentry).1
  rw [hread, hleft]
  exact h.left rfl

theorem sound_delivered {pass : Pass} (h : Sound programs world) (hfits : Fits programs world pass)
    (hdelivered : pass.delivered = true) : Sound programs (world.next programs pass) := by
  have hrising := rising_numbered (world.journal ++ pass.arrived)
  have hpositive : ∀ entry ∈ numbered (world.journal ++ pass.arrived), 0 < entry.2 :=
    fun entry hentry => (le_length_of_mem hentry).1
  have hgrown : world.journal.length ≤ (world.journal ++ pass.arrived).length := by
    rw [List.length_append]
    omega
  have hactivity := hfits.activity
  have hdevices := hfits.devices
  have hroom := hfits.room hdelivered
  have hroomy := hfits.logs hdelivered
  rw [hdelivered] at hactivity hdevices
  have hlogCursor : (collectLogs world.logCursor logUnits 200 (numbered (world.journal ++ pass.arrived))).2 ≤
      (world.journal ++ pass.arrived).length := collectLogs_le (h.logCursor.trans hgrown)
  rw [next_delivered hdelivered]
  refine ⟨collectEvents_le (h.activityCursor.trans hgrown), collectEvents_le (h.usbCursor.trans hgrown),
    ?_, together_next hactivity, together_next hdevices, ?_, ?_⟩
  · dsimp only
    exact hlogCursor
  · dsimp only
    have hlength : (pass.boots ++
        ((collectEvents programs fromSources (numbered (world.journal ++ pass.arrived)) world.activityCursor
            (some 300)).1 ++
          (collectEvents programs ofUsb (numbered (world.journal ++ pass.arrived)) world.usbCursor
            (some 300)).1)).length ≤ 500 := by
      rw [collectEvents_found, collectEvents_found, List.length_append, List.length_append, length_parseFrom,
        length_parseFrom, List.length_nil, Nat.zero_add, Nat.zero_add]
      exact hroom
    rw [List.take_of_length_le hlength, sentOf_collected hrising hpositive hactivity,
      sentOf_collected hrising hpositive hdevices, sentOf_grown h.activityCursor, sentOf_grown h.usbCursor]
    exact (h.events.append_right _).trans (reports_perm _ _ _ _ _ _)
  · dsimp only
    have hsent := collectLogs_perm (hrising.filter _) (fun entry hentry => hpositive entry (List.mem_filter.mp hentry).1)
      hroomy
    have hread := collectLogs_read (hrising.filter _) (fun entry hentry => hpositive entry (List.mem_filter.mp hentry).1)
      hroomy
    have hall := allLogs_split hrising
      (collectLogs world.logCursor logUnits 200 (numbered (world.journal ++ pass.arrived))).2
    rw [hread, List.append_nil] at hall
    rw [hall, ← allLogs_split hrising world.logCursor, allLogs_grown h.logCursor]
    exact h.logs.append hsent

theorem sound_next {world : World} {pass : Pass} (h : Sound programs world) (hfits : Fits programs world pass) :
    Sound programs (world.next programs pass) := by
  cases hdelivered : pass.delivered with
  | true => exact sound_delivered h hfits hdelivered
  | false => exact sound_missed h hfits hdelivered

end

end OpenDirectory.Journal
