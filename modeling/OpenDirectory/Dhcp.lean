import OpenDirectory.AddressText
import OpenDirectory.Lists
import OpenDirectory.Steps
import OpenDirectory.Value

/-! Changes of the DHCP server's configuration. Each reads the whole of it, changes a part and writes the whole
back: four commands to a server that takes commands from other requests in between. -/

namespace OpenDirectory.Dhcp

open Value (Fields)

inductive KeaError where
  | subnet
  | pool (raw : String)
  | poolOutside (raw network : String)
  | poolBackwards (raw : String)
  | optionName (name : String)
  | exists (subnet : String)
  | noScope (id : Int)
  | hardwareAddress
  | address
  | hostname (hostname : String)
  | reserved (mac : String)
  | outside (address subnet : String)
  | notReserved (mac : String)
  deriving DecidableEq

structure Scope where
  subnet : String
  pools : List String := []
  optionData : List (String × String) := []
  validLifetime : Option Nat := none
  renewTimer : Option Nat := none
  rebindTimer : Option Nat := none
  comment : String := ""
  deriving DecidableEq

structure Reservation where
  hwAddress : String
  ipAddress : String
  hostname : String := ""
  deriving DecidableEq

def nameChar (c : Char) : Bool := c.isAlpha || c.isDigit || c ∈ ['.', '_', '-']

def nameText (name : List Char) : Bool := 1 ≤ name.length && name.length ≤ 64 && name.all nameChar

/-- `NAME_RE.match`, for which a newline may follow the end. -/
def validName (name : String) : Bool :=
  nameText name.toList || (name.toList.getLast? = some '\n' && nameText name.toList.dropLast)

/-- One pool, written again as its first and last address. -/
def validatePool (network : Address.Network) (pool : String) : Except KeaError Value :=
  let raw := String.ofList (pool.toList.filter (· ≠ ' '))
  let (start, stop) := (Text.cut '-' raw).getD (raw, "")
  match Address.ipAddress start, Address.ipAddress stop with
  | some first, some last =>
      if !network.contains first || !network.contains last then .error (.poolOutside raw network.text)
      else if last.number < first.number then .error (.poolBackwards raw)
      else .ok (.obj [("pool", .str (first.text ++ " - " ++ last.text))])
  | _, _ => .error (.pool raw)

def validateOption (option : String × String) : Except KeaError Value :=
  if validName option.1 then
    .ok (.obj [("name", .str option.1), ("data", .str (String.ofList (option.2.toList.take 512)))])
  else .error (.optionName option.1)

def validateScope (scope : Scope) (id : Option Int) : Except KeaError Fields := do
  let network ← match Address.ipNetwork scope.subnet with
    | some network => .ok network
    | none => .error .subnet
  let pools ← scope.pools.mapM (validatePool network)
  let options ← scope.optionData.mapM validateOption
  let number (key : String) (value : Option Nat) : Fields := (value.map fun n => (key, .int n)).toList
  return [("subnet", .str network.text), ("pools", .arr pools), ("option-data", .arr options)] ++
    (id.map fun n => ("id", .int n)).toList ++ number "valid-lifetime" scope.validLifetime ++
    number "renew-timer" scope.renewTimer ++ number "rebind-timer" scope.rebindTimer ++
    if scope.comment = "" then []
    else [("user-context", .obj [("comment", .str (String.ofList (scope.comment.toList.take 256)))])]

section
variable [Runtime]

def hexDigit (c : Char) : Bool := c.isDigit || ('a' ≤ c && c ≤ 'f') || ('A' ≤ c && c ≤ 'F')

/-- `MAC_RE`: six pairs of hexadecimal digits. -/
def validMac (mac : String) : Bool :=
  let parts := mac.toList.splitOn ':'
  parts.length = 6 && parts.all fun part => part.length = 2 && part.all hexDigit

def validateReservation (reservation : Reservation) : Except KeaError (Fields × String × Address.Host) := do
  let mac := Runtime.lower (Text.strip Runtime.blank reservation.hwAddress)
  if !validMac mac then .error .hardwareAddress
  let address ← match Address.ipAddress reservation.ipAddress with
    | some address => .ok address
    | none => .error .address
  let hostname := Text.strip Runtime.blank reservation.hostname
  if hostname ≠ "" ∧ !validName hostname then .error (.hostname hostname)
  return ([("hw-address", .str mac), ("ip-address", .str address.text)] ++
    if hostname = "" then [] else [("hostname", .str hostname)], mac, address)

end

/-- The objects of a list in an object, which has none where the key is absent. -/
def objects (fields : Fields) (key : String) : List Fields :=
  match Dict.get fields key with
  | some (.arr items) => items.filterMap fun item => match item with
      | .obj fields => some fields
      | _ => none
  | _ => []

def withObjects (fields : Fields) (key : String) (items : List Fields) : Fields :=
  Dict.set fields key (.arr (items.map .obj))

/-- `int(s.get("id", 0))` -/
def idOf (subnet : Fields) : Int :=
  match Dict.get subnet "id" with
  | some (.int n) => n
  | _ => 0

def textOf (fields : Fields) (key : String) : Option String :=
  match Dict.get fields key with
  | some (.str s) => some s
  | _ => none

def find (config : Fields) (id : Int) : Except KeaError Fields :=
  match (objects config "subnet4").find? (idOf · = id) with
  | some subnet => .ok subnet
  | none => .error (.noScope id)

/-- The subnet `_find` gives, changed in its place. -/
def replaceFirst (id : Int) (subnet : Fields) : List Fields → List Fields
  | [] => []
  | other :: rest => if idOf other = id then subnet :: rest else other :: replaceFirst id subnet rest

def createScope (config : Fields) (scope : Scope) : Except KeaError Fields := do
  let existing := objects config "subnet4"
  let validated ← validateScope scope none
  let validated := Dict.set validated "id" (.int ((existing.map idOf).foldl max 0 + 1))
  if existing.any fun subnet => textOf subnet "subnet" = textOf validated "subnet" then
    .error (.exists ((textOf validated "subnet").getD ""))
  return withObjects config "subnet4" (existing ++ [validated])

def updateScope (config : Fields) (id : Int) (scope : Scope) : Except KeaError Fields := do
  let current ← find config id
  let validated ← validateScope scope (some id)
  let validated := Dict.set validated "reservations" ((Dict.get current "reservations").getD (.arr []))
  return withObjects config "subnet4" ((objects config "subnet4").map fun subnet =>
    if idOf subnet = id then validated else subnet)

def deleteScope (config : Fields) (id : Int) : Except KeaError Fields := do
  let _ ← find config id
  return withObjects config "subnet4" ((objects config "subnet4").filter (idOf · ≠ id))

section
variable [Runtime]

def addReservation (config : Fields) (id : Int) (reservation : Reservation) : Except KeaError Fields := do
  let subnet ← find config id
  let (validated, mac, address) ← validateReservation reservation
  let existing := objects subnet "reservations"
  if existing.any fun other => textOf other "hw-address" = some mac then .error (.reserved mac)
  let network := (textOf subnet "subnet").getD ""
  if !((Address.ipNetwork network).any (·.contains address)) then .error (.outside address.text network)
  return withObjects config "subnet4"
    (replaceFirst id (withObjects subnet "reservations" (existing ++ [validated])) (objects config "subnet4"))

def deleteReservation (config : Fields) (id : Int) (hwAddress : String) : Except KeaError Fields := do
  let subnet ← find config id
  let mac := Runtime.lower (Text.strip Runtime.blank hwAddress)
  let existing := objects subnet "reservations"
  let remaining := existing.filter fun other => textOf other "hw-address" ≠ some mac
  if remaining.length = existing.length then .error (.notReserved mac)
  return withObjects config "subnet4"
    (replaceFirst id (withObjects subnet "reservations" remaining) (objects config "subnet4"))

inductive Change where
  | createScope (scope : Scope)
  | updateScope (id : Int) (scope : Scope)
  | deleteScope (id : Int)
  | addReservation (id : Int) (reservation : Reservation)
  | deleteReservation (id : Int) (hwAddress : String)
  deriving DecidableEq

def Change.edit (config : Fields) : Change → Except KeaError Fields
  | .createScope scope => Dhcp.createScope config scope
  | .updateScope id scope => Dhcp.updateScope config id scope
  | .deleteScope id => Dhcp.deleteScope config id
  | .addReservation id reservation => Dhcp.addReservation config id reservation
  | .deleteReservation id hwAddress => Dhcp.deleteReservation config id hwAddress

/-- The next command of a request. What it has read is kept beside what it makes of it. -/
inductive Phase where
  | configGet
  | configTest (read edited : Fields)
  | configSet (read edited : Fields)
  | configWrite
  | answered (ok : Bool)
  deriving DecidableEq

structure Request where
  change : Change
  phase : Phase

/-- The running configuration of the server and the one in its file. -/
structure World where
  running : Fields
  stored : Fields
  requests : List Request

/-- How a command goes: it is done, it is refused, or it is done and its answer is lost. -/
inductive Outcome where
  | done
  | refused
  | lost
  deriving DecidableEq

inductive Move where
  | receive (change : Change)
  | advance (index : Nat) (outcome : Outcome)

/-- The server starts from what is in its file. -/
def initial (config : Fields) : World := ⟨config, config, []⟩

/-- `running` is what the server makes of a configuration it is set to. -/
def World.command (running : Fields → Fields) (world : World) (change : Change) (outcome : Outcome) : Phase → World × Phase
  | .configGet =>
      match outcome, change.edit world.running with
      | .done, .ok edited => (world, .configTest world.running edited)
      | _, _ => (world, .answered false)
  | .configTest read edited => (world, if outcome = .done then .configSet read edited else .answered false)
  | .configSet _ edited =>
      (if outcome = .refused then world else { world with running := running edited },
        if outcome = .done then .configWrite else .answered false)
  | .configWrite =>
      (if outcome = .refused then world else { world with stored := world.running }, .answered (outcome = .done))
  | .answered ok => (world, .answered ok)

def next (running : Fields → Fields) (world : World) : Move → World
  | .receive change => { world with requests := world.requests ++ [⟨change, .configGet⟩] }
  | .advance index outcome =>
      match world.requests[index]? with
      | none => world
      | some request =>
          let (world', phase) := world.command running request.change outcome request.phase
          { world' with requests := world.requests.set index { request with phase } }

/-- A change made by itself. -/
def Change.perform (running : Fields → Fields) (config : Fields) (change : Change) : Except KeaError Fields :=
  running <$> change.edit config

def World.Quiet (world : World) : Prop := ∀ request ∈ world.requests, ∃ ok, request.phase = .answered ok

def World.succeeded (world : World) : List Change :=
  (world.requests.filter (·.phase = .answered true)).map (·.change)

/-- Once all requests are answered, both configurations are what the requests that reported success make of the first
one, in some order. -/
def Exact (running : Fields → Fields) (config : Fields) (world : World) : Prop :=
  world.Quiet → ∃ order : List Change, order.Perm world.succeeded ∧
    order.foldlM (Change.perform running) config = .ok world.running ∧ world.stored = world.running

/-- A configuration is set only while the server still runs the one that was read, and from then on no command of the
request fails. -/
def Held (world : World) : Move → Prop
  | .advance index outcome => ∀ request ∈ world.requests[index]?, match request.phase with
      | .configSet read _ => outcome ≠ .refused → outcome = .done ∧ world.running = read
      | .configWrite => outcome = .done
      | _ => True
  | .receive _ => True

/-- The request has set its configuration, and no command has failed since. -/
def Request.Effective (request : Request) : Prop :=
  request.phase = .configWrite ∨ request.phase = .answered true

instance (request : Request) : Decidable request.Effective := inferInstanceAs (Decidable (_ ∨ _))

def World.effective (world : World) : List Change := (world.requests.filter (·.Effective)).map (·.change)

structure Sound (running : Fields → Fields) (config : Fields) (world : World) : Prop where
  ordered : ∃ order : List Change, order.Perm world.effective ∧
    order.foldlM (Change.perform running) config = .ok world.running
  stored : world.stored = world.running ∨ ∃ request ∈ world.requests, request.phase = .configWrite
  ready : ∀ request ∈ world.requests, ∀ read edited,
    request.phase = .configTest read edited ∨ request.phase = .configSet read edited →
      request.change.edit read = .ok edited

variable {running : Fields → Fields} {config : Fields} {world : World}

theorem sound_initial : Sound running config (initial config) where
  ordered := ⟨[], .nil, rfl⟩
  stored := .inl rfl
  ready := by simp [initial]

theorem Sound.exact (h : Sound running config world) : Exact running config world := by
  intro hquiet
  have heffective : world.effective = world.succeeded := by
    unfold World.effective World.succeeded
    rw [List.filter_congr]
    intro request hrequest
    obtain ⟨ok, hok⟩ := hquiet request hrequest
    simp [Request.Effective, hok]
  obtain ⟨order, hperm, hresult⟩ := h.ordered
  refine ⟨order, heffective ▸ hperm, hresult, ?_⟩
  rcases h.stored with hstored | ⟨request, hrequest, hwrite⟩
  · exact hstored
  · obtain ⟨ok, hok⟩ := hquiet request hrequest
    rw [hok] at hwrite
    cases hwrite

variable {request : Request}

omit [Runtime] in
theorem split_at {requests : List Request} {index : Nat} (hget : requests[index]? = some request) :
    ∃ before after, requests = before ++ request :: after ∧
      ∀ other, requests.set index other = before ++ other :: after := by
  obtain ⟨hlt, rfl⟩ := List.getElem?_eq_some_iff.mp hget
  refine ⟨requests.take index, requests.drop (index + 1), ?_, ?_⟩
  · rw [List.getElem_cons_drop, List.take_append_drop]
  · intro other
    rw [List.set_eq_take_append_cons_drop, if_pos hlt]

theorem Sound.pass (h : Sound running config world) {index : Nat} {phase : Phase}
    (hget : world.requests[index]? = some request) (hwrite : request.phase ≠ .configWrite)
    (hsame : { request with phase }.Effective ↔ request.Effective)
    (hready : ∀ read edited, phase = .configTest read edited ∨ phase = .configSet read edited →
      request.change.edit read = .ok edited) :
    Sound running config { world with requests := world.requests.set index { request with phase } } := by
  obtain ⟨before, after, hrequests, hset⟩ := split_at hget
  rw [hset]
  constructor
  · have heffective : World.effective { world with requests := before ++ { request with phase } :: after } =
        world.effective := by
      simp only [World.effective, hrequests, List.filter_append, List.filter_cons, hsame, List.map_append]
      split <;> rfl
    rw [heffective]
    exact h.ordered
  · rcases h.stored with hstored | ⟨other, hother, hphase⟩
    · exact .inl hstored
    · refine .inr ⟨other, ?_, hphase⟩
      rw [hrequests] at hother
      rcases List.mem_append.mp hother with hbefore | hafter
      · exact List.mem_append_left _ hbefore
      · rcases List.mem_cons.mp hafter with rfl | hafter
        · exact absurd hphase hwrite
        · exact List.mem_append_right _ (.tail _ hafter)
  · intro other hother read edited hphase
    rcases List.mem_append.mp hother with hbefore | hafter
    · exact h.ready other (hrequests ▸ List.mem_append_left _ hbefore) read edited hphase
    · rcases List.mem_cons.mp hafter with rfl | hafter
      · exact hready read edited hphase
      · exact h.ready other (hrequests ▸ List.mem_append_right _ (.tail _ hafter)) read edited hphase

theorem Sound.set (h : Sound running config world) {index : Nat} {edited : Fields}
    (hget : world.requests[index]? = some request) (hphase : request.phase = .configSet world.running edited) :
    Sound running config { world with
      running := running edited
      requests := world.requests.set index { request with phase := .configWrite } } := by
  have hedit := h.ready request (List.mem_of_getElem? hget) _ _ (.inr hphase)
  obtain ⟨before, after, hrequests, hset⟩ := split_at hget
  rw [hset]
  constructor
  · obtain ⟨order, hperm, hresult⟩ := h.ordered
    refine ⟨order ++ [request.change], ?_, ?_⟩
    · have hnot : ¬ request.Effective := by
        simp [Request.Effective, hphase]
      have hnow : ({ request with phase := .configWrite } : Request).Effective := .inl rfl
      rw [World.effective, hrequests] at hperm
      simp only [List.filter_append, List.filter_cons, hnot, List.map_append] at hperm
      simp only [World.effective, List.filter_append, List.filter_cons, hnow, List.map_append, decide_true, if_true,
        List.map_cons]
      exact (List.perm_append_singleton _ _).trans ((hperm.cons _).trans List.perm_middle.symm)
    · rw [List.foldlM_concat_ok]
      exact ⟨_, hresult, Except.map_eq_ok.mpr ⟨edited, hedit, rfl⟩⟩
  · exact .inr ⟨_, List.mem_append_right _ List.mem_cons_self, rfl⟩
  · intro other hother read edited' hother'
    rcases List.mem_append.mp hother with hbefore | hafter
    · exact h.ready other (hrequests ▸ List.mem_append_left _ hbefore) read edited' hother'
    · rcases List.mem_cons.mp hafter with rfl | hafter
      · rcases hother' with hother' | hother' <;> cases hother'
      · exact h.ready other (hrequests ▸ List.mem_append_right _ (.tail _ hafter)) read edited' hother'

theorem Sound.write (h : Sound running config world) {index : Nat}
    (hget : world.requests[index]? = some request) (hphase : request.phase = .configWrite) :
    Sound running config { world with
      stored := world.running
      requests := world.requests.set index { request with phase := .answered true } } := by
  obtain ⟨before, after, hrequests, hset⟩ := split_at hget
  rw [hset]
  constructor
  · have hbefore : request.Effective := .inl hphase
    have hnow : ({ request with phase := .answered true } : Request).Effective := .inr rfl
    have heffective : World.effective { world with
        stored := world.running
        requests := before ++ { request with phase := .answered true } :: after } = world.effective := by
      simp only [World.effective, hrequests, List.filter_append, List.filter_cons, hbefore, hnow, List.map_append,
        decide_true, if_true, List.map_cons]
    rw [heffective]
    exact h.ordered
  · exact .inl rfl
  · intro other hother read edited hother'
    rcases List.mem_append.mp hother with hbefore | hafter
    · exact h.ready other (hrequests ▸ List.mem_append_left _ hbefore) read edited hother'
    · rcases List.mem_cons.mp hafter with rfl | hafter
      · rcases hother' with hother' | hother' <;> cases hother'
      · exact h.ready other (hrequests ▸ List.mem_append_right _ (.tail _ hafter)) read edited hother'

theorem Sound.fail (h : Sound running config world) {index : Nat}
    (hget : world.requests[index]? = some request) (hnot : ¬ request.Effective) :
    Sound running config { world with requests := world.requests.set index { request with phase := .answered false } } := by
  apply h.pass hget
  · exact fun hwrite => hnot (.inl hwrite)
  · exact iff_of_false (by simp [Request.Effective]) hnot
  · rintro read edited (hphase | hphase) <;> cases hphase

theorem sound_advance (h : Sound running config world) {index : Nat} {outcome : Outcome}
    (hheld : Held world (.advance index outcome)) : Sound running config (next running world (.advance index outcome)) := by
  dsimp only [next]
  split
  · exact h
  next request hget =>
    have hheld := hheld request hget
    cases hphase : request.phase with
    | configGet =>
        have hnot : ¬ request.Effective := by simp [Request.Effective, hphase]
        dsimp only [World.command]
        split
        · apply h.pass hget
          · rw [hphase]
            nofun
          · exact iff_of_false (by simp [Request.Effective]) hnot
          · rintro read other (hsame | hsame)
            · cases hsame
              assumption
            · cases hsame
        · exact h.fail hget hnot
    | configTest read edited =>
        have hnot : ¬ request.Effective := by simp [Request.Effective, hphase]
        dsimp only [World.command]
        split
        · apply h.pass hget
          · rw [hphase]
            nofun
          · exact iff_of_false (by simp [Request.Effective]) hnot
          · rintro read' other (hsame | hsame)
            · cases hsame
            · cases hsame
              exact h.ready request (List.mem_of_getElem? hget) read edited (.inl hphase)
        · exact h.fail hget hnot
    | configSet read edited =>
        have hnot : ¬ request.Effective := by simp [Request.Effective, hphase]
        rw [hphase] at hheld
        by_cases hrefused : outcome = .refused
        · subst hrefused
          exact h.fail hget hnot
        · obtain ⟨rfl, hread⟩ := hheld hrefused
          exact h.set hget (hread ▸ hphase)
    | configWrite =>
        rw [hphase] at hheld
        obtain rfl : outcome = .done := hheld
        exact h.write hget hphase
    | answered ok =>
        apply h.pass hget
        · rw [hphase]
          nofun
        · simp [Request.Effective, hphase, World.command]
        · rintro read edited (hsame | hsame) <;> cases hsame

theorem sound_next (h : Sound running config world) {move : Move} (hheld : Held world move) :
    Sound running config (next running world move) := by
  cases move with
  | receive change =>
      constructor
      · have heffective : (next running world (.receive change)).effective = world.effective := by
          simp [World.effective, next, Request.Effective]
        rw [heffective]
        exact h.ordered
      · rcases h.stored with hstored | ⟨request, hrequest, hwrite⟩
        · exact .inl hstored
        · exact .inr ⟨request, List.mem_append_left _ hrequest, hwrite⟩
      · intro request hrequest read edited hphase
        rcases List.mem_append.mp hrequest with hbefore | hnew
        · exact h.ready request hbefore read edited hphase
        · rw [List.mem_singleton.mp hnew] at hphase
          rcases hphase with hphase | hphase <;> cases hphase
  | advance index outcome => exact sound_advance h hheld

/-- In a run in which every configuration is set while the server still runs the one that was read, and in which no
request fails after that, both configurations are, whenever all requests are answered, what those that reported
success make of the first one. -/
theorem edits_exact (running : Fields → Fields) (config : Fields) (moves : List Move)
    (hheld : Steps.Each (next running) Held (initial config) moves) :
    ∀ before, before <+: moves → Exact running config (before.foldl (next running) (initial config)) := by
  have hkeeps : ∀ (world : World) (move : Move), Sound running config world → Held world move →
      Sound running config (next running world move) := fun _ _ h hmove => sound_next h hmove
  intro before hbefore
  exact (Steps.each_keeps hkeeps sound_initial hheld before hbefore).exact

instance (world : World) (move : Move) : Decidable (Held world move) :=
  match move with
  | .receive _ => inferInstanceAs (Decidable True)
  | .advance index outcome =>
      match hget : world.requests[index]? with
      | none => isTrue (by simp [Held, hget])
      | some request =>
          match hphase : request.phase with
          | .configSet read _ => decidable_of_iff (outcome ≠ .refused → outcome = .done ∧ world.running = read)
              (by simp [Held, hget, hphase])
          | .configWrite => decidable_of_iff (outcome = .done) (by simp [Held, hget, hphase])
          | .configGet => isTrue (by simp [Held, hget, hphase])
          | .configTest .. => isTrue (by simp [Held, hget, hphase])
          | .answered _ => isTrue (by simp [Held, hget, hphase])

/-- Two scopes are created by two requests; `order` says which request each command is of. -/
def twoScopes (order : List Nat) : List Move :=
  [.receive (.createScope { subnet := "10.1.0.0/24" }), .receive (.createScope { subnet := "10.2.0.0/24" })] ++
    order.map fun index => .advance index .done

omit [Runtime] in
theorem edits_exact_in_turn :
    letI := Runtime.latin
    Exact id [] ((twoScopes [0, 0, 0, 1, 0, 1, 1, 1]).foldl (next id) (initial [])) := by
  let _ := Runtime.latin
  exact edits_exact id [] (twoScopes [0, 0, 0, 1, 0, 1, 1, 1]) (by decide +kernel) _ (List.prefix_refl _)

omit [Runtime] in
/-- Both requests read the configuration before either sets it: both report success, and one scope is there. -/
theorem scope_is_lost :
    letI := Runtime.latin
    ¬ ∀ before, before <+: twoScopes [0, 1, 0, 0, 0, 1, 1, 1] → Exact id [] (before.foldl (next id) (initial [])) := by
  let _ := Runtime.latin
  intro h
  have hquiet : ∀ request ∈ ((twoScopes [0, 1, 0, 0, 0, 1, 1, 1]).foldl (next id) (initial [])).requests,
      request.phase = .answered true := by decide +kernel
  obtain ⟨order, hperm, hresult, _⟩ := h _ (List.prefix_refl _) fun request hrequest => ⟨true, hquiet request hrequest⟩
  have hsucceeded : ((twoScopes [0, 1, 0, 0, 0, 1, 1, 1]).foldl (next id) (initial [])).succeeded =
      [.createScope { subnet := "10.1.0.0/24" }, .createScope { subnet := "10.2.0.0/24" }] := by decide +kernel
  rw [hsucceeded] at hperm
  have hneither : ∀ order ∈ List.permutations' [Change.createScope { subnet := "10.1.0.0/24" },
      .createScope { subnet := "10.2.0.0/24" }], order.foldlM (Change.perform id) [] ≠
        .ok ((twoScopes [0, 1, 0, 0, 0, 1, 1, 1]).foldl (next id) (initial [])).running := by decide +kernel
  exact hneither order (List.mem_permutations'.mpr hperm) hresult

end

end OpenDirectory.Dhcp
