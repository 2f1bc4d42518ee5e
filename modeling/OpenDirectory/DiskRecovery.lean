import OpenDirectory.AgentEnv
import OpenDirectory.JsonText
import OpenDirectory.RunNow

/-! A recovery key for an encrypted disk. The machine draws a passphrase and adds it to the disk; what it
answers the console by takes the way of every task's output, and the console keeps what it reads out of the
answer, if it is still waiting for one. -/

namespace OpenDirectory.DiskRecovery

open Agent (Ends goSpace)
open Tasks (Handed Task Table Statement)
open JsonText (document goEscape)

structure Volume where
  device : String
  format : String := ""
  holder : String := ""
  mountPoint : String := ""
  sizeBytes : Int := 0
  encrypted : Bool
  atBoot : Bool
  freeKeySlots : Int := 0

/-- A field that is left out while it is empty. -/
def textField (key text : String) : Value.Fields := if text = "" then [] else [(key, .str text)]

def numberField (key : String) (n : Int) : Value.Fields := if n = 0 then [] else [(key, .int n)]

def Volume.fields (volume : Volume) : Value.Fields :=
  ("device", .str volume.device) :: (textField "format" volume.format ++ textField "holder" volume.holder ++
    textField "mount_point" volume.mountPoint ++ numberField "size_bytes" volume.sizeBytes ++
    [("encrypted", .bool volume.encrypted), ("at_boot", .bool volume.atBoot)] ++
    numberField "free_key_slots" volume.freeKeySlots)

/-- What the machine answers; no volumes are nothing at all. -/
def answer (device passphrase : String) (volumes : List Volume) : Value :=
  .obj [("device", .str device), ("passphrase", .str passphrase),
    ("volumes", if volumes = [] then .null else .arr (volumes.map fun volume => .obj volume.fields))]

def recoveryAlphabet : List Char := "ABCDEFGHJKLMNPQRSTUVWXYZ23456789".toList

def recoveryGroups : Nat := 6

def recoveryGroupSize : Nat := 5

/-- What one run of the task meets; and how a task of another kind ends. -/
structure Chance where
  runner : Bool := true
  isLuks : Bool := true
  draw : Nat → Except String (Fin recoveryAlphabet.length)
  /-- The file for the new passphrase cannot be made or written. -/
  keyFile : Option String := none
  luksAddKey : Ends := .done ""
  volumes : List Volume := []
  timedOut : Bool := false
  otherOk : Bool := true
  otherOutput : String := ""

def recoveryPassphrase (draw : Nat → Except String (Fin recoveryAlphabet.length)) : Except String String :=
  match (List.range (recoveryGroups * recoveryGroupSize)).mapM draw with
  | .error error => .error error
  | .ok indices => .ok (Text.join "-" ((indices.map recoveryAlphabet.get).toChunks recoveryGroupSize |>.map String.ofList))

/-- A text of a payload, without the blanks around it. -/
def str (payload : Value.Fields) (key : String) : String :=
  match Dict.get payload key with
  | some (.str text) => Text.strip goSpace text
  | _ => ""

def deviceChar (c : Char) : Bool :=
  ('a' ≤ c && c ≤ 'z') || ('A' ≤ c && c ≤ 'Z') || ('0' ≤ c && c ≤ '9') || c = '-' || c = '_' || c = '/'

def safeDevice (device : String) : Bool :=
  Text.startsWith device "/dev/" && device.utf8ByteSize ≤ 128 &&
    (Text.removePrefix device "/dev/").toList.all deviceChar && !Text.holds device ".."

/-- A text with every occurrence of another replaced. -/
def replaceAll (mark replacement : List Char) : Nat → List Char → List Char
  | 0, text => text
  | fuel + 1, text =>
      match Text.cutAt mark text with
      | none => text
      | some (before, after) => before ++ replacement ++ replaceAll mark replacement fuel after

def redact (text : String) (secrets : List String) : String :=
  secrets.foldl (fun text secret =>
    if secret = "" then text
    else String.ofList (replaceAll secret.toList "[redacted]".toList (text.length + 1) text.toList)) text

/-- The keys a task has added to disks, each with its device, and what it answers. -/
def escrowRecoveryKey (keys : List (String × String)) (payload : Value.Fields) (chance : Chance) :
    List (String × String) × Except String String :=
  let device := str payload "device"
  let existing := str payload "passphrase"
  if !chance.runner then (keys, .error "no command runner")
  -- `%q`, which leaves a text of plain characters as it is
  else if !safeDevice device then (keys, .error ("\"" ++ device ++ "\" is not a block device"))
  else if existing = "" then (keys, .error "the disk's current passphrase is needed to add another key")
  else if !chance.isLuks then (keys, .error (device ++ " is not an encrypted volume"))
  else
    match recoveryPassphrase chance.draw, chance.keyFile with
    | .error error, _ => (keys, .error error)
    | .ok _, some error => (keys, .error error)
    | .ok recovery, none =>
        (if chance.luksAddKey.did then keys ++ [(device, recovery)] else keys,
          match chance.luksAddKey with
          | .done _ => .ok (document goEscape (answer device recovery chance.volumes))
          | .failed _ out _ => .error ("cryptsetup refused the key: " ++
              Text.strip goSpace (redact out [existing, recovery])))

/-- The key a run of the task adds, with its device. -/
def added (payload : Value.Fields) (chance : Chance) : Option (String × String) :=
  let device := str payload "device"
  if chance.runner ∧ safeDevice device ∧ str payload "passphrase" ≠ "" ∧ chance.isLuks ∧ chance.keyFile = none ∧
      chance.luksAddKey.did then
    match recoveryPassphrase chance.draw with
    | .error _ => none
    | .ok recovery => some (device, recovery)
  else none

section

variable {keys : List (String × String)} {payload : Value.Fields} {chance : Chance}

theorem escrowRecoveryKey_keys :
    (escrowRecoveryKey keys payload chance).1 = keys ++ (added payload chance).toList := by
  unfold escrowRecoveryKey added
  by_cases hrunner : chance.runner = true
  case neg => simp [hrunner]
  by_cases hdevice : safeDevice (str payload "device") = true
  case neg => simp [hrunner, hdevice]
  by_cases hexisting : str payload "passphrase" = ""
  case pos => simp [hrunner, hdevice, hexisting]
  by_cases hluks : chance.isLuks = true
  case neg => simp [hrunner, hdevice, hexisting, hluks]
  cases hdraw : recoveryPassphrase chance.draw with
  | error error => simp [hrunner, hdevice, hexisting, hluks]
  | ok recovery =>
      cases hfile : chance.keyFile with
      | some error => simp [hrunner, hdevice, hexisting, hluks]
      | none => by_cases hdid : chance.luksAddKey.did = true <;> simp [hrunner, hdevice, hexisting, hluks, hdid]

theorem escrowRecoveryKey_answer {key : String × String} (h : added payload chance = some key)
    (hdone : chance.luksAddKey.isDone) : (escrowRecoveryKey keys payload chance).2 =
      .ok (document goEscape (answer key.1 key.2 chance.volumes)) := by
  simp only [added, Option.ite_none_right_eq_some] at h
  obtain ⟨⟨hrunner, hdevice, hexisting, hluks, hfile, _⟩, hkey⟩ := h
  cases hdraw : recoveryPassphrase chance.draw with
  | error error =>
      rw [hdraw] at hkey
      cases hkey
  | ok recovery =>
      rw [hdraw] at hkey
      cases hkey
      cases hadd : chance.luksAddKey with
      | failed did out error =>
          rw [hadd] at hdone
          cases hdone
      | done out => simp [escrowRecoveryKey, hrunner, hdevice, hexisting, hluks, hfile, hdraw, hadd]

end

/-- What a task that failed says. -/
def failure (chance : Chance) (error : String) : String :=
  Text.strip goSpace ("\n" ++ if chance.timedOut then
    "gave up after 5m0s: " ++ error ++ " (an installer waiting on a prompt looks like this)" else error)

/-- A device as the console takes it. -/
def escrowDevice (device : String) : Bool :=
  5 ≤ device.length && device.length ≤ 128 && Text.startsWith device "/dev/" &&
    !(Text.removePrefix device "/dev/").toList.isEmpty && (Text.removePrefix device "/dev/").toList.all deviceChar

/-- One request, with the key its task gets in the queue and the name the machine goes by. -/
structure Request where
  id : String
  dn : String
  device : String
  passphrase : String
  hostname : String
  principal : String
  deviceValid : escrowDevice device = true

def Request.payload (request : Request) : Value.Fields := [
  ("device", .str request.device), ("passphrase", .str request.passphrase)]

structure RecoveryKey where
  passphrase : String
  source : String
  escrowedBy : String
  revealedBy : Option String := none

/-- `json.loads(answer)["passphrase"]`, as far as the database takes it. -/
def passphraseOf (text : String) : Option String :=
  match JsonText.loads text with
  | some (.obj fields) =>
      match Dict.get fields "passphrase" with
      | some (.str passphrase) => some passphrase
      | _ => none
  | _ => none

section

variable {key : String}

theorem mem_textField {text : String} {entry : String × Value} (h : entry ∈ textField key text) :
    JsonText.whole entry.2 = true ∧ Value.distinct entry.2 = true := by
  unfold textField at h
  split at h
  · exact absurd h List.not_mem_nil
  · obtain rfl := List.mem_singleton.mp h
    exact ⟨rfl, rfl⟩

theorem mem_numberField {n : Int} {entry : String × Value} (h : entry ∈ numberField key n) :
    JsonText.whole entry.2 = true ∧ Value.distinct entry.2 = true := by
  unfold numberField at h
  split at h
  · exact absurd h List.not_mem_nil
  · obtain rfl := List.mem_singleton.mp h
    exact ⟨rfl, rfl⟩

theorem keys_textField (key text : String) : (Dict.keys (textField key text)).Sublist [key] := by
  unfold textField
  split
  · exact List.nil_sublist _
  · exact List.Sublist.refl _

theorem keys_numberField (key : String) (n : Int) : (Dict.keys (numberField key n)).Sublist [key] := by
  unfold numberField
  split
  · exact List.nil_sublist _
  · exact List.Sublist.refl _

end

theorem mem_volume_fields {volume : Volume} {entry : String × Value} (h : entry ∈ volume.fields) :
    JsonText.whole entry.2 = true ∧ Value.distinct entry.2 = true := by
  simp only [Volume.fields, List.mem_cons, List.mem_append, List.not_mem_nil, or_false] at h
  rcases h with rfl | ((((h | h) | h) | h) | rfl | rfl) | h
  · exact ⟨rfl, rfl⟩
  · exact mem_textField h
  · exact mem_textField h
  · exact mem_textField h
  · exact mem_numberField h
  · exact ⟨rfl, rfl⟩
  · exact ⟨rfl, rfl⟩
  · exact mem_numberField h

theorem nodup_volume_keys (volume : Volume) : (Dict.keys volume.fields).Nodup := by
  have hkeys : (Dict.keys volume.fields).Sublist
      ("device" :: (["format"] ++ ["holder"] ++ ["mount_point"] ++ ["size_bytes"] ++ ["encrypted", "at_boot"] ++
        ["free_key_slots"])) := by
    simp only [Volume.fields, Dict.keys, List.map_cons, List.map_append]
    refine List.Sublist.cons_cons _ ?_
    refine List.Sublist.append ?_ (keys_numberField _ _)
    refine List.Sublist.append ?_ (List.Sublist.refl _)
    refine List.Sublist.append ?_ (keys_numberField _ _)
    refine List.Sublist.append ?_ (keys_textField _ _)
    exact (keys_textField _ _).append (keys_textField _ _)
  exact List.Nodup.sublist hkeys (by decide)

theorem distinct_volumes (volumes : List Volume) :
    Value.distinct (if volumes = [] then .null else .arr (volumes.map fun volume => .obj volume.fields)) = true := by
  split
  · rfl
  · rw [Value.distinct_arr_iff]
    intro item hitem
    obtain ⟨volume, _, rfl⟩ := List.mem_map.mp hitem
    rw [Value.distinct_obj_iff]
    exact ⟨nodup_volume_keys volume, fun entry hentry => (mem_volume_fields hentry).2⟩

theorem whole_volumes (volumes : List Volume) :
    JsonText.whole (if volumes = [] then .null else .arr (volumes.map fun volume => .obj volume.fields)) = true := by
  split
  · rfl
  · rw [JsonText.whole, JsonText.wholeItems_iff]
    intro item hitem
    obtain ⟨volume, _, rfl⟩ := List.mem_map.mp hitem
    rw [JsonText.whole, JsonText.wholeFields_iff]
    exact fun entry hentry => (mem_volume_fields hentry).1

section

variable {device passphrase : String} {volumes : List Volume}

theorem distinct_answer : Value.distinct (answer device passphrase volumes) = true := by
  rw [answer, Value.distinct_obj_iff]
  refine ⟨by simp [Dict.keys], fun entry hentry => ?_⟩
  simp only [List.mem_cons, List.not_mem_nil, or_false] at hentry
  rcases hentry with rfl | rfl | rfl
  · rfl
  · rfl
  · exact distinct_volumes volumes

theorem whole_answer : JsonText.whole (answer device passphrase volumes) = true := by
  rw [answer, JsonText.whole, JsonText.wholeFields_iff]
  intro entry hentry
  simp only [List.mem_cons, List.not_mem_nil, or_false] at hentry
  rcases hentry with rfl | rfl | rfl
  · rfl
  · rfl
  · exact whole_volumes volumes

theorem passphraseOf_answer : passphraseOf (document goEscape (answer device passphrase volumes)) = some passphrase := by
  unfold passphraseOf
  rw [JsonText.loads_document JsonText.escapes_go whole_answer distinct_answer]
  rfl

theorem strip_answer : Text.strip goSpace (document goEscape (answer device passphrase volumes)) =
    document goEscape (answer device passphrase volumes) := by
  obtain ⟨middle, hwrite⟩ := @JsonText.exists_write_obj goEscape [("device", .str device),
    ("passphrase", .str passphrase), ("volumes", if volumes = [] then .null else
      .arr (volumes.map fun volume => .obj volume.fields))]
  have hlist : (document goEscape (answer device passphrase volumes)).toList = '{' :: (middle ++ ['}']) := by
    rw [document, String.toList_ofList, answer, hwrite]
  apply Text.strip_eq_self
  · rw [hlist]
    rintro c ⟨⟩
    decide
  · rw [hlist, ← List.cons_append, List.getLast?_concat]
    rintro c ⟨⟩
    decide

theorem newline_answer : '\n' ∉ (document goEscape (answer device passphrase volumes)).toList := by
  rw [document, String.toList_ofList]
  exact JsonText.newline_write JsonText.newline_goEscape whole_answer

end

theorem deviceChar_not_blank {c : Char} (h : deviceChar c = true) : goSpace c = false := by
  rw [Bool.eq_false_iff]
  intro hblank
  simp only [goSpace, Bool.or_eq_true, Bool.and_eq_true, decide_eq_true_eq] at hblank
  rcases hblank with hmem | ⟨hlow, _⟩
  · revert h
    simp only [List.mem_cons, List.not_mem_nil, or_false] at hmem
    rcases hmem with rfl | rfl | rfl | rfl | rfl | rfl | rfl | rfl | rfl | rfl | rfl | rfl | rfl | rfl <;> decide
  · have hhigh : ∀ top : Char, top < '\u2000' → ¬ c ≤ top := fun top htop hle =>
      absurd (lt_of_lt_of_le htop hlow) (not_lt.mpr hle)
    simp only [deviceChar, Bool.or_eq_true, Bool.and_eq_true, decide_eq_true_eq] at h
    rcases h with ((((⟨_, hle⟩ | ⟨_, hle⟩) | ⟨_, hle⟩) | rfl) | rfl) | rfl
    · exact hhigh _ (by decide) hle
    · exact hhigh _ (by decide) hle
    · exact hhigh _ (by decide) hle
    all_goals exact hhigh _ (by decide) le_rfl

theorem strip_device {device : String} (h : escrowDevice device = true) : Text.strip goSpace device = device := by
  simp only [escrowDevice, Bool.and_eq_true] at h
  obtain ⟨⟨⟨_, hstarts⟩, _⟩, hall⟩ := h
  obtain ⟨rest, hrest⟩ := Text.startsWith_iff.mp hstarts
  have hremoved : (Text.removePrefix device "/dev/").toList = rest := by
    rw [Text.removePrefix, if_pos hstarts, String.toList_ofList, hrest]
    rfl
  have hchars : ∀ c ∈ device.toList, goSpace c = false := by
    intro c hc
    rw [hrest, List.mem_append] at hc
    rcases hc with hfront | htail
    · have hdev : ∀ c ∈ "/dev/".toList, deviceChar c = true := by
        simp [deviceChar]
      exact deviceChar_not_blank (hdev c hfront)
    · rw [hremoved, List.all_eq_true] at hall
      exact deviceChar_not_blank (hall c htail)
  exact Text.strip_eq_self (fun c hc => hchars c (List.mem_of_mem_head? hc))
    (fun c hc => hchars c (List.mem_of_getLast? hc))

/-- An answer with the key, which the table takes whole. -/
def Carries (text : String) (key : String × String) : Prop :=
  ∃ volumes, text = document goEscape (answer key.1 key.2 volumes) ∧ text.length ≤ 4000

theorem Carries.read {text : String} {key : String × String} (h : Carries text key) :
    passphraseOf text = some key.2 := by
  obtain ⟨volumes, rfl, _⟩ := h
  exact passphraseOf_answer

theorem Carries.shortened {text : String} {key : String × String} (h : Carries text key) :
    Tasks.shortened text = text := by
  obtain ⟨volumes, _, hlength⟩ := h
  rw [Tasks.shortened, List.take_of_length_le hlength, String.ofList_toList]

theorem Carries.lastLines {text : String} {key : String × String} (h : Carries text key)
    (hsize : text.utf8ByteSize ≤ 2000) : RunNow.lastLines text 20 = text := by
  obtain ⟨volumes, rfl, _⟩ := h
  exact RunNow.lastLines_of_line (by decide) newline_answer hsize

variable [Runtime] (request : Request)

/-- What a machine does for this request; whatever it does for others adds no key of this one. -/
def work (_ : String) (keys : List (String × String)) (task : Handed) (chance : Chance) :
    List (String × String) × Bool × String :=
  if task.id = request.id ∧ task.kind = "disk-escrow" then
    match escrowRecoveryKey keys task.payload chance with
    | (after, .ok output) => (after, true, Text.strip goSpace output)
    | (after, .error error) => (after, false, failure chance error)
  else (keys, chance.otherOk, chance.otherOutput)

structure World where
  /-- The machines hold the keys this request has added to their disks. -/
  queue : RunNow.World (List (String × String))
  /-- The answer the handler of the request goes on with. -/
  answer : Option String
  /-- By the computer and the device. -/
  records : String × String → Option RecoveryKey

inductive Move where
  | ask (now : Nat)
  | queue (move : RunNow.Move Chance)
  | handle
  | other (place : String × String) (key : RecoveryKey)
  | crash

namespace World

def told (events : List RunNow.Event) : Option String :=
  events.findSome? fun
    | .told id (.succeeded output) => if id = request.id then some output else none
    | _ => none

/-- A move of the queue that would give the key of this request's task to another task. -/
def takesId : RunNow.Move Chance → Bool
  | .runNow _ id .. => id = request.id
  | .enqueue _ id .. => id = request.id
  | _ => false

def onQueue (world : World) (move : RunNow.Move Chance) : World :=
  let (queue, events) := world.queue.next (work request) move
  { world with queue, answer := (told request events).or world.answer }

def next (world : World) : Move → World
  | .ask now => world.onQueue request
      (.runNow now request.id request.hostname "disk-escrow" request.payload (some request.principal))
  | .queue move => if takesId request move then world else world.onQueue request move
  | .handle =>
      match world.answer with
      | none => world
      | some text =>
          { world with
            answer := none
            records := match passphraseOf text with
              | none => world.records
              | some passphrase => Function.update world.records (request.dn, request.device)
                  (some { passphrase, source := "escrow", escrowedBy := request.principal }) }
  | .other place key => { world with records := Function.update world.records place (some key) }
  | .crash =>
      { world with
        queue := { world.queue with waiting := world.queue.waiting.filter (· ≠ request.id) }
        answer := none }

def initial (records : String × String → Option RecoveryKey) : World where
  queue := RunNow.World.initial fun _ => []
  answer := none
  records := records

/-- Every key this request has added to a disk is on record, once the console neither waits for it nor has
its answer still to handle. -/
def Known (world : World) : Prop :=
  request.id ∉ world.queue.waiting → world.answer = none →
    ∀ nodeFqdn, ∀ key ∈ world.queue.machine nodeFqdn,
      ∃ record, world.records (request.dn, key.1) = some record ∧ record.passphrase = key.2

def Untouched (world : World) : Prop := ∀ nodeFqdn, world.queue.machine nodeFqdn = []

/-- The task is with a machine, and the request still waits for it. -/
def Out (world : World) : Prop :=
  request.id ∈ world.queue.waiting ∧ ∃ task ∈ world.queue.table.rows, task.id = request.id ∧ task.state = .claimed

def Careful (world : World) : Move → Prop
  | .queue (.start id chance) => id = request.id → id ∈ world.queue.carriedIds →
      ∀ key, added request.payload chance = some key → world.Out request ∧ chance.luksAddKey.isDone ∧
        (document goEscape (DiskRecovery.answer key.1 key.2 chance.volumes)).length ≤ 4000
  | .queue (.report _ id brief) => id = request.id → brief → world.Out request →
      ∀ result ∈ world.queue.results, result.id = id → result.ok → result.output.utf8ByteSize ≤ 2000
  | .queue (.reap now) => world.Untouched ∨ ∀ task ∈ world.queue.table.rows,
      task.id = request.id → task.state = .claimed → Tasks.stale now task = false
  | .queue (.giveUp id) => id = request.id → id ∈ world.queue.waiting → world.Untouched
  | .other place _ => place = (request.dn, request.device) →
      request.id ∈ world.queue.waiting ∨ world.answer ≠ none ∨ world.Untouched
  | .crash => request.id ∈ world.queue.waiting ∨ world.answer ≠ none → world.Untouched
  | _ => True

/-- Where a key is that has been added to a disk: in the task's row or on its way there, with the handler of
the request, or on record. -/
inductive Stage (world : World) (key : String × String) : Prop where
  | out (waits : request.id ∈ world.queue.waiting) (task : Task) (row : task ∈ world.queue.table.rows)
      (id : task.id = request.id)
      (state : task.state = .claimed ∨ task.state = .done ∧ ∃ text, task.output = some text ∧ Carries text key)
  | read (text : String) (answer : world.answer = some text) (carries : Carries text key)
  | recorded (left : request.id ∉ world.queue.waiting) (answer : world.answer = none) (record : RecoveryKey)
      (known : world.records (request.dn, request.device) = some record) (same : record.passphrase = key.2)

structure Kept (world : World) : Prop where
  sound : world.queue.Sound
  pending : ∀ task ∈ world.queue.table.rows, task.id = request.id → task.state = .pending →
    task.kind = "disk-escrow" ∧ task.payload = request.payload
  carried : ∀ entry ∈ world.queue.carried, entry.2.id = request.id →
    entry.2.kind = "disk-escrow" ∧ entry.2.payload = request.payload
  answered : world.answer ≠ none → request.id ∉ world.queue.waiting ∧
    request.id ∈ world.queue.table.rows.map Task.id
  begun : ∀ nodeFqdn, ∀ key ∈ world.queue.machine nodeFqdn, request.id ∈ world.queue.begun
  device : ∀ nodeFqdn, ∀ key ∈ world.queue.machine nodeFqdn, key.1 = request.device
  results : ∀ nodeFqdn, ∀ key ∈ world.queue.machine nodeFqdn, ∀ result ∈ world.queue.results,
    result.id = request.id → result.ok = true ∧ Carries result.output key
  stage : ∀ nodeFqdn, ∀ key ∈ world.queue.machine nodeFqdn, world.Stage request key

variable {request} {world : World}

theorem Kept.known (h : Kept request world) : world.Known request := by
  intro hleft hanswer nodeFqdn key hkey
  cases h.stage nodeFqdn key hkey with
  | out waits => exact absurd waits hleft
  | read text answer =>
      rw [hanswer] at answer
      cases answer
  | recorded left answer record known same =>
      rw [h.device nodeFqdn key hkey]
      exact ⟨record, known, same⟩

omit [Runtime] in
theorem Stage.congr {key : String × String} (h : Stage request world key) {after : World}
    (hwaiting : after.queue.waiting = world.queue.waiting) (htable : after.queue.table = world.queue.table)
    (hanswer : after.answer = world.answer) (hrecords : after.records = world.records) :
    Stage request after key := by
  cases h with
  | read text answer carries => exact .read text (hanswer.trans answer) carries
  | out waits task row id state => exact .out (hwaiting ▸ waits) task (htable ▸ row) id state
  | recorded left answer record known same =>
      exact .recorded (hwaiting ▸ left) (hanswer.trans answer) record (hrecords ▸ known) same

theorem kept_initial (records : String × String → Option RecoveryKey) : Kept request (initial records) where
  sound := RunNow.World.sound_initial _
  pending _ htask := absurd htask List.not_mem_nil
  carried _ hentry := absurd hentry List.not_mem_nil
  answered hanswer := absurd rfl hanswer
  begun _ _ hkey := absurd hkey List.not_mem_nil
  device _ _ hkey := absurd hkey List.not_mem_nil
  results _ _ hkey := absurd hkey List.not_mem_nil
  stage _ _ hkey := absurd hkey List.not_mem_nil

theorem Kept.taken (h : Kept request world) {nodeFqdn : String} {key : String × String}
    (hkey : key ∈ world.queue.machine nodeFqdn) : request.id ∈ world.queue.table.rows.map Task.id := by
  obtain ⟨task, htask, hid, _⟩ := h.sound.begunTaken request.id (h.begun nodeFqdn key hkey)
  exact List.mem_map.mpr ⟨task, htask, hid⟩

theorem Kept.table (h : Kept request world) {statement : Statement}
    (hsound : RunNow.World.Sound { world.queue with table := (Tasks.step world.queue.table statement).1 })
    (henqueue : ∀ now nodeFqdn kind payload subject requestedBy,
      statement = .enqueue now request.id nodeFqdn kind payload subject requestedBy →
        kind = "disk-escrow" ∧ payload = request.payload)
    (hfinish : ∀ now taskId nodeFqdn ok output, statement = .finish now taskId nodeFqdn ok output →
      Runtime.uuid taskId = some request.id → world.Out request →
        ∀ machine, ∀ key ∈ world.queue.machine machine, ok = true ∧ Carries output key)
    (hreap : ∀ now, statement = .reap now → world.Untouched ∨ ∀ task ∈ world.queue.table.rows,
      task.id = request.id → task.state = .claimed → Tasks.stale now task = false) :
    Kept request { world with
      queue := { world.queue with table := (Tasks.step world.queue.table statement).1 } } where
  sound := hsound
  pending task htask hid hpending := by
    rcases Tasks.pending_step htask hpending with ⟨earlier, hearlier, hid', hstate, hkind, hpayload⟩ |
      ⟨now, nodeFqdn, subject, requestedBy, heq⟩
    · rw [← hkind, ← hpayload]
      exact h.pending earlier hearlier (hid'.trans hid) hstate
    · rw [hid] at heq
      exact henqueue _ _ _ _ _ _ heq
  carried := h.carried
  answered hanswer := by
    obtain ⟨hleft, hrow⟩ := h.answered hanswer
    refine ⟨hleft, ?_⟩
    obtain ⟨task, htask, hid⟩ := List.mem_map.mp hrow
    obtain ⟨later, hlater, hgrew⟩ := Tasks.grows_step world.queue.table statement task htask
    exact List.mem_map.mpr ⟨later, hlater, hgrew.id.trans hid⟩
  begun := h.begun
  device := h.device
  results := h.results
  stage nodeFqdn key hkey := by
    cases h.stage nodeFqdn key hkey with
    | read text answer carries => exact .read text answer carries
    | recorded left answer record known same => exact .recorded left answer record known same
    | out waits task row id state =>
        rcases state with hclaimed | ⟨hdone, houtput⟩
        · obtain ⟨later, hlater, hid, hstate⟩ := Tasks.claimed_step statement row hclaimed
          refine .out waits later hlater (hid.trans id) ?_
          rcases hstate with hclaimed' | ⟨now, taskId, machine, ok, output, heq, huuid, hstate, houtput⟩ |
            ⟨now, heq, hstale⟩
          · exact .inl hclaimed'
          · obtain ⟨rfl, hcarries⟩ := hfinish _ _ _ _ _ heq (huuid.trans (congrArg some id))
              ⟨waits, task, row, id, hclaimed⟩ nodeFqdn key hkey
            rw [hcarries.shortened] at houtput
            exact .inr ⟨hstate, output, houtput, hcarries⟩
          · rcases hreap now heq with huntouched | hfresh
            · rw [huntouched nodeFqdn] at hkey
              exact absurd hkey List.not_mem_nil
            · rw [hfresh task row id hclaimed] at hstale
              cases hstale
        · obtain ⟨later, hlater, hgrew⟩ := Tasks.grows_step world.queue.table statement task row
          obtain ⟨hstate, hsame, _⟩ := hgrew.ended (hdone ▸ .inl rfl)
          refine .out waits later hlater (hgrew.id.trans id) (.inr ⟨hstate.trans hdone, ?_⟩)
          rw [hsame]
          exact houtput

theorem Kept.less (h : Kept request world) {queue : RunNow.World (List (String × String))} (hsound : queue.Sound)
    (htable : queue.table = world.queue.table) (hwaiting : queue.waiting = world.queue.waiting)
    (hcarried : queue.carried.Sublist world.queue.carried) (hresults : queue.results.Sublist world.queue.results)
    (hmachine : queue.machine = world.queue.machine) (hbegun : queue.begun = world.queue.begun) :
    Kept request { world with queue } where
  sound := hsound
  pending := by
    rw [htable]
    exact h.pending
  carried entry hentry := h.carried entry (hcarried.subset hentry)
  answered := by
    rw [htable, hwaiting]
    exact h.answered
  begun := by
    rw [hmachine, hbegun]
    exact h.begun
  device := by
    rw [hmachine]
    exact h.device
  results := by
    rw [hmachine]
    exact fun nodeFqdn key hkey result hresult => h.results nodeFqdn key hkey result (hresults.subset hresult)
  stage := by
    rw [hmachine]
    exact fun nodeFqdn key hkey => (h.stage nodeFqdn key hkey).congr hwaiting htable rfl rfl

theorem Kept.queued (h : Kept request world) {now : Nat} {id nodeFqdn kind : String} {payload : Value.Fields}
    {subject requestedBy : Option String}
    (hrequest : id = request.id → kind = "disk-escrow" ∧ payload = request.payload) :
    Kept request { world with
      queue := world.queue.queued (.enqueue now id nodeFqdn kind payload subject requestedBy) id } := by
  have hsound := @RunNow.World.Sound.queued _ _ world.queue h.sound now id nodeFqdn kind payload subject requestedBy
  unfold RunNow.World.queued at hsound ⊢
  split
  · rename_i hnew
    rw [if_pos hnew] at hsound
    refine h.table hsound ?_ (fun _ _ _ _ _ => nofun) (fun _ => nofun)
    intro now' nodeFqdn' kind' payload' subject' requestedBy' heq
    cases heq
    exact hrequest rfl
  · exact h

theorem Kept.runNow (h : Kept request world) {now : Nat} {id nodeFqdn kind : String} {payload : Value.Fields}
    {requestedBy : Option String}
    (hrequest : id = request.id → kind = "disk-escrow" ∧ payload = request.payload) :
    Kept request (world.onQueue request (.runNow now id nodeFqdn kind payload requestedBy)) := by
  have hqueued := @Kept.queued _ request world h now id nodeFqdn kind payload none requestedBy hrequest
  have hsound := @RunNow.World.sound_next _ _ _ (work request) world.queue h.sound
    (.runNow now id nodeFqdn kind payload requestedBy)
  have hsame := @RunNow.World.queued_machine _ _ world.queue
    (.enqueue now id nodeFqdn kind payload none requestedBy) id
  unfold onQueue
  simp only [RunNow.World.next] at hsound ⊢
  split
  · rename_i hnew
    rw [if_pos hnew] at hsound
    have hother : request.id ∈ world.queue.table.rows.map Task.id → request.id ≠ id := by
      rintro hrow rfl
      exact hnew.2 hrow
    refine { hqueued with
      sound := hsound
      answered := fun hanswer => ?_
      stage := fun machine key hkey => ?_ }
    · obtain ⟨hleft, hrow⟩ := hqueued.answered hanswer
      refine ⟨fun hmem => ?_, hrow⟩
      rcases List.mem_cons.mp hmem with heq | hmem
      · exact hother (h.answered hanswer).2 heq
      · exact hleft hmem
    · cases hqueued.stage machine key hkey with
      | read text answer carries => exact .read text answer carries
      | out waits task row id state => exact .out (List.mem_cons_of_mem _ waits) task row id state
      | recorded left answer record known same =>
          refine .recorded (fun hmem => ?_) answer record known same
          rcases List.mem_cons.mp hmem with heq | hmem
          · rw [hsame] at hkey
            exact hother (h.taken hkey) heq
          · exact left hmem
  · exact hqueued

theorem Kept.poll (h : Kept request world) (now : Nat) (locked : String → Bool) (nodeFqdn : String) (limit : Nat) :
    Kept request (world.onQueue request (.poll now locked nodeFqdn limit)) := by
  have hsound := @RunNow.World.Sound.poll _ _ _ (work request) world.queue h.sound now locked nodeFqdn limit
  have hstatement : RunNow.World.Sound { world.queue with
      table := (Tasks.step world.queue.table (.claim now locked nodeFqdn limit)).1 } :=
    h.sound.queue (fun _ _ _ _ _ _ _ heq => Statement.noConfusion heq) (fun id nodeFqdn hevent => by simp [Tasks.step] at hevent)
  have htable := h.table hstatement (fun _ _ _ _ _ _ heq => Statement.noConfusion heq) (fun _ _ _ _ _ heq => Statement.noConfusion heq) (fun _ heq => Statement.noConfusion heq)
  refine { htable with
    sound := hsound
    carried := fun entry hentry hid => ?_
    stage := fun machine key hkey => (htable.stage machine key hkey).congr rfl rfl rfl rfl }
  rcases List.mem_append.mp hentry with hold | hnew
  · exact h.carried entry hold hid
  · obtain ⟨handed, hhanded, rfl⟩ := List.mem_map.mp hnew
    obtain ⟨task, htask, rfl⟩ := List.mem_map.mp hhanded
    obtain ⟨hrow, _, hpending⟩ := Tasks.mem_taken htask
    exact h.pending task hrow hid hpending

theorem Kept.report (h : Kept request world) {now : Nat} {id : String} {brief : Bool}
    (hcareful : Careful request world (.queue (.report now id brief))) :
    Kept request (world.onQueue request (.report now id brief)) := by
  have hsound := @RunNow.World.Sound.report _ _ _ (work request) world.queue h.sound now id brief
  unfold onQueue
  simp only [RunNow.World.next] at hsound ⊢
  split
  · exact h
  · rename_i result hfound
    rw [hfound] at hsound
    have hresult := List.mem_of_find?_eq_some hfound
    have hid : result.id = id := by simpa using List.find?_some hfound
    obtain ⟨row, hrow, hrowId, _⟩ := h.sound.begunTaken id (hid ▸ h.sound.resultsBegun result hresult)
    have huuid : Runtime.uuid id = some id := hrowId ▸ h.sound.canonical row hrow
    refine h.table hsound (fun _ _ _ _ _ _ heq => Statement.noConfusion heq) ?_ (fun _ heq => Statement.noConfusion heq)
    intro now' taskId nodeFqdn ok output heq htask hout machine key hkey
    cases heq
    rw [huuid, Option.some.injEq] at htask
    obtain ⟨hok, hcarries⟩ := h.results machine key hkey result hresult (hid.trans htask)
    refine ⟨hok, ?_⟩
    cases brief with
    | false => exact hcarries
    | true =>
        have hsize := hcareful htask rfl hout result hresult hid hok
        rw [if_pos rfl, hcarries.lastLines hsize]
        exact hcarries

theorem Kept.finished (h : Kept request world) {id : String} {result : RunNow.Told} (hwaits : id ∈ world.queue.waiting)
    (htold : id = request.id → ∀ machine, ∀ key ∈ world.queue.machine machine,
      ∃ text, result = .succeeded text ∧ Carries text key) :
    Kept request { world with
      queue := (world.queue.finished id result).1
      answer := (told request (world.queue.finished id result).2).or world.answer } := by
  have hsound := h.sound.finished id result
  by_cases hid : id = request.id
  · have hleft : request.id ∉ (world.queue.finished id result).1.waiting := fun hmem => by
      simpa [hid] using (List.mem_filter.mp hmem).2
    have hrow : request.id ∈ world.queue.table.rows.map Task.id := hid ▸ h.sound.waitingQueued id hwaits
    refine { h with
      sound := hsound
      answered := fun _ => ⟨hleft, hrow⟩
      stage := fun machine key hkey => ?_ }
    obtain ⟨text, rfl, hcarries⟩ := htold hid machine key hkey
    refine .read text ?_ hcarries
    simp [told, RunNow.World.finished, hid]
  · have hnone : told request (world.queue.finished id result).2 = none := by
      simp only [RunNow.World.finished, told, List.findSome?_cons, List.findSome?_nil]
      cases result <;> simp [hid]
    have hsame : request.id ∈ (world.queue.finished id result).1.waiting ↔ request.id ∈ world.queue.waiting := by
      simp [RunNow.World.finished, Ne.symm hid]
    rw [hnone, Option.none_or]
    refine { h with
      sound := hsound
      answered := fun hanswer => ⟨fun hmem => (h.answered hanswer).1 (hsame.mp hmem), (h.answered hanswer).2⟩
      stage := fun machine key hkey => ?_ }
    cases h.stage machine key hkey with
    | read text answer carries => exact .read text answer carries
    | out waits task row id state => exact .out (hsame.mpr waits) task row id state
    | recorded left answer record known same =>
        exact .recorded (fun hmem => left (hsame.mp hmem)) answer record known same

theorem Kept.look (h : Kept request world) (id : String) :
    Kept request (world.onQueue request (.look id)) := by
  unfold onQueue
  simp only [RunNow.World.next]
  split
  case isFalse => exact h
  rename_i hwaits
  -- a key that is out is in the row which the request reads
  have hout : id = request.id → ∀ task ∈ world.queue.table.rows, task.id = id → ∀ machine,
      ∀ key ∈ world.queue.machine machine, task.state = .claimed ∨ task.state = .done ∧
        ∃ text, task.output = some text ∧ Carries text key := by
    rintro rfl task htask htaskId machine key hkey
    cases h.stage machine key hkey with
    | read text answer carries => exact absurd hwaits (h.answered (by rw [answer]; exact Option.some_ne_none text)).1
    | recorded left answer record known same => exact absurd hwaits left
    | out waits row hrow id state => rwa [Table.eq_of_id htask hrow (htaskId.trans id.symm)]
  cases hfound : world.queue.table.rows.find? fun task => task.id = id with
  | none => exact h
  | some task =>
      have htask := List.mem_of_find?_eq_some hfound
      have hid : task.id = id := by simpa using List.find?_some hfound
      cases hstate : task.state with
      | pending | claimed =>
          simp only [hstate]
          exact h
      | failed =>
          simp only [hstate]
          refine h.finished hwaits fun hrequest machine key hkey => ?_
          rcases hout hrequest task htask hid machine key hkey with hclaimed | ⟨hdone, _⟩
          · rw [hstate] at hclaimed
            cases hclaimed
          · rw [hstate] at hdone
            cases hdone
      | done =>
          simp only [hstate]
          refine h.finished hwaits fun hrequest machine key hkey => ?_
          rcases hout hrequest task htask hid machine key hkey with hclaimed | ⟨_, text, houtput, hcarries⟩
          · rw [hstate] at hclaimed
            cases hclaimed
          · refine ⟨text, ?_, hcarries⟩
            rw [houtput]
            rfl

theorem Kept.giveUp (h : Kept request world) {id : String}
    (hcareful : Careful request world (.queue (.giveUp id))) :
    Kept request (world.onQueue request (.giveUp id)) := by
  unfold onQueue
  simp only [RunNow.World.next]
  split
  · rename_i hwaits
    refine h.finished hwaits fun hrequest machine key hkey => ?_
    rw [hcareful hrequest hwaits machine] at hkey
    exact absurd hkey List.not_mem_nil
  · exact h

theorem Kept.untouched (h : Kept request world) (hnew : request.id ∉ world.queue.begun) : world.Untouched := by
  intro nodeFqdn
  rw [List.eq_nil_iff_forall_not_mem]
  exact fun key hkey => hnew (h.begun nodeFqdn key hkey)

section
omit [Runtime]

theorem work_other {node : String} {keys : List (String × String)} {task : Handed} {chance : Chance}
    (h : task.id ≠ request.id) : (work request node keys task chance).1 = keys := by
  unfold work
  rw [if_neg fun hboth => h hboth.1]

theorem work_own {node : String} {keys : List (String × String)} {task : Handed} {chance : Chance}
    (hid : task.id = request.id) (hkind : task.kind = "disk-escrow") :
    (work request node keys task chance).1 = keys ++ (added task.payload chance).toList := by
  rw [← escrowRecoveryKey_keys]
  unfold work
  rw [if_pos ⟨hid, hkind⟩]
  split <;> simp_all

theorem work_done {node : String} {keys : List (String × String)} {task : Handed} {chance : Chance}
    {key : String × String} (hid : task.id = request.id) (hkind : task.kind = "disk-escrow")
    (hadded : added task.payload chance = some key) (hdone : chance.luksAddKey.isDone) :
    (work request node keys task chance).2 = (true, document goEscape (DiskRecovery.answer key.1 key.2 chance.volumes)) := by
  have hanswer := @escrowRecoveryKey_answer keys _ _ _ hadded hdone
  unfold work
  rw [if_pos ⟨hid, hkind⟩]
  split
  · rename_i heq
    rw [heq] at hanswer
    cases hanswer
    rw [strip_answer]
  · rename_i heq
    rw [heq] at hanswer
    cases hanswer

theorem added_device {chance : Chance} {key : String × String} (h : added request.payload chance = some key) :
    key.1 = request.device := by
  simp only [added, Option.ite_none_right_eq_some] at h
  obtain ⟨_, hkey⟩ := h
  cases hdraw : recoveryPassphrase chance.draw with
  | error error =>
      rw [hdraw] at hkey
      cases hkey
  | ok recovery =>
      rw [hdraw] at hkey
      cases hkey
      exact strip_device request.deviceValid

end

theorem Kept.start (h : Kept request world) {id : String} {chance : Chance}
    (hcareful : Careful request world (.queue (.start id chance))) :
    Kept request (world.onQueue request (.start id chance)) := by
  have hsound := @RunNow.World.Sound.start _ _ _ (work request) world.queue h.sound id chance
  unfold onQueue
  simp only [RunNow.World.next] at hsound ⊢
  split
  · exact h
  rename_i node task hfound
  rw [hfound] at hsound
  dsimp only at hsound ⊢
  have htask := List.mem_of_find?_eq_some hfound
  have hid : task.id = id := by simpa using List.find?_some hfound
  have hcarried : id ∈ world.queue.carriedIds := hid ▸ RunNow.World.mem_carriedIds htask
  by_cases hrequest : id = request.id
  · -- the machine begins the request's own task, for the first time
    have hnew : request.id ∉ world.queue.begun := hrequest ▸ h.sound.carriedNew id hcarried
    obtain ⟨hkind, hpayload⟩ := h.carried _ htask (hid.trans hrequest)
    have hkeys : (work request node [] task chance).1 = (added request.payload chance).toList :=
      hpayload ▸ work_own (hid.trans hrequest) hkind
    have hreport : ∀ key, added request.payload chance = some key → chance.luksAddKey.isDone →
        (work request node [] task chance).2 =
          (true, document goEscape (DiskRecovery.answer key.1 key.2 chance.volumes)) :=
      fun key hadded => work_done (hid.trans hrequest) hkind (hpayload ▸ hadded)
    rw [h.untouched hnew node] at hsound ⊢
    generalize work request node [] task chance = answered at hsound hkeys hreport ⊢
    obtain ⟨after, ok, output⟩ := answered
    have hadded : ∀ machine, ∀ key ∈ Function.update world.queue.machine node after machine,
        added request.payload chance = some key := by
      intro machine key hkey
      by_cases hmachine : machine = node
      · rw [hmachine, Function.update_self, show after = _ from hkeys] at hkey
        exact Option.mem_toList.mp hkey
      · rw [Function.update_of_ne hmachine, h.untouched hnew machine] at hkey
        exact absurd hkey List.not_mem_nil
    refine { h with
      sound := hsound
      carried := fun entry hentry => h.carried entry (List.mem_of_mem_filter hentry)
      begun := fun machine key hkey => List.mem_append_right _ (hrequest ▸ List.mem_singleton_self id)
      device := fun machine key hkey => added_device (hadded machine key hkey)
      results := fun machine key hkey result hresult hresultId => ?_
      stage := fun machine key hkey => ?_ }
    · obtain ⟨_, hdone, hlength⟩ := hcareful hrequest hcarried key (hadded machine key hkey)
      rcases List.mem_append.mp hresult with hold | hnewResult
      · exact absurd (hresultId ▸ h.sound.resultsBegun result hold) hnew
      · obtain ⟨rfl, rfl⟩ := Prod.mk.inj (hreport key (hadded machine key hkey) hdone)
        obtain rfl := List.mem_singleton.mp hnewResult
        exact ⟨rfl, chance.volumes, rfl, hlength⟩
    · obtain ⟨⟨hwaits, row, hrow, hrowId, hclaimed⟩, _⟩ := hcareful hrequest hcarried key (hadded machine key hkey)
      exact .out hwaits row hrow hrowId (.inl hclaimed)
  · have hsame := @work_other request node (world.queue.machine node) task chance (hid ▸ hrequest)
    generalize hwork : work request node (world.queue.machine node) task chance = answered at hsound hsame ⊢
    obtain ⟨after, ok, output⟩ := answered
    obtain rfl : after = world.queue.machine node := hsame
    simp only [Function.update_eq_self] at hsound ⊢
    refine { h with
      sound := hsound
      carried := fun entry hentry => h.carried entry (List.mem_of_mem_filter hentry)
      begun := fun machine key hkey => List.mem_append_left _ (h.begun machine key hkey)
      results := fun machine key hkey result hresult hresultId => ?_
      stage := fun machine key hkey => (h.stage machine key hkey).congr rfl rfl rfl rfl }
    rcases List.mem_append.mp hresult with hold | hnewResult
    · exact h.results machine key hkey result hold hresultId
    · obtain rfl := List.mem_singleton.mp hnewResult
      exact absurd hresultId hrequest

theorem Kept.handle (h : Kept request world) : Kept request (world.next request .handle) := by
  simp only [World.next]
  split
  · exact h
  · rename_i text hanswer
    obtain ⟨hleft, hrow⟩ := h.answered (by rw [hanswer]; exact nofun)
    refine { h with
      answered := fun hnone => absurd rfl hnone
      stage := fun machine key hkey => ?_ }
    cases h.stage machine key hkey with
    | out waits => exact absurd waits hleft
    | recorded left answer record known same =>
        rw [hanswer] at answer
        cases answer
    | read text' answer carries =>
        obtain rfl : text = text' := Option.some.inj (hanswer.symm.trans answer)
        rw [carries.read]
        exact .recorded hleft rfl _ (Function.update_self ..) rfl

theorem Kept.other (h : Kept request world) {place : String × String} {key : RecoveryKey}
    (hcareful : Careful request world (.other place key)) : Kept request (world.next request (.other place key)) := by
  refine { h with stage := fun machine added hadded => ?_ }
  cases h.stage machine added hadded with
  | out waits task row id state => exact .out waits task row id state
  | read text answer carries => exact .read text answer carries
  | recorded left answer record known same =>
      refine .recorded left answer record ?_ same
      by_cases hplace : place = (request.dn, request.device)
      · rcases hcareful hplace with hwaits | hanswered | huntouched
        · exact absurd hwaits left
        · exact absurd answer hanswered
        · rw [show (World.next request world (.other place key)).queue.machine machine = [] from huntouched machine] at hadded
          exact absurd hadded List.not_mem_nil
      · exact (Function.update_of_ne (Ne.symm hplace) _ _).trans known

theorem Kept.crash (h : Kept request world) (hcareful : Careful request world .crash) :
    Kept request (world.next request .crash) := by
  have hsound : RunNow.World.Sound { world.queue with
      waiting := world.queue.waiting.filter (· ≠ request.id) } :=
    h.sound.less rfl (fun id hid => h.sound.waitingQueued id (List.mem_of_mem_filter hid)) rfl
      (List.Sublist.refl _) (List.Sublist.refl _)
  refine { h with
    sound := hsound
    answered := fun hnone => absurd rfl hnone
    stage := fun machine key hkey => ?_ }
  have htouched : ¬ world.Untouched := by
    intro huntouched
    have hkey' : key ∈ world.queue.machine machine := hkey
    rw [huntouched machine] at hkey'
    exact absurd hkey' List.not_mem_nil
  cases h.stage machine key hkey with
  | out waits => exact absurd (hcareful (.inl waits)) htouched
  | read text answer => exact absurd (hcareful (.inr (by rw [answer]; exact nofun))) htouched
  | recorded left answer record known same =>
      exact .recorded (fun hmem => left (List.mem_of_mem_filter hmem)) rfl record known same

theorem Kept.onQueue (h : Kept request world) {move : RunNow.Move Chance} (hid : takesId request move = false)
    (hcareful : Careful request world (.queue move)) : Kept request (world.onQueue request move) := by
  have hsound := @RunNow.World.sound_next _ _ _ (work request) world.queue h.sound move
  cases move with
  | runNow now id nodeFqdn kind payload requestedBy =>
      exact h.runNow fun heq => absurd heq (of_decide_eq_false hid)
  | enqueue now id nodeFqdn kind payload subject requestedBy =>
      exact h.queued fun heq => absurd heq (of_decide_eq_false hid)
  | poll now locked nodeFqdn limit => exact h.poll now locked nodeFqdn limit
  | lose id => exact h.less hsound rfl rfl List.filter_sublist (List.Sublist.refl _) rfl rfl
  | start id chance => exact h.start hcareful
  | report now id brief => exact h.report hcareful
  | drop id => exact h.less hsound rfl rfl (List.Sublist.refl _) List.filter_sublist rfl rfl
  | progress id nodeFqdn output =>
      exact h.table hsound (fun _ _ _ _ _ _ => nofun) (fun _ _ _ _ _ => nofun) (fun _ => nofun)
  | reap now =>
      refine h.table hsound (fun _ _ _ _ _ _ => nofun) (fun _ _ _ _ _ => nofun) ?_
      rintro now' ⟨⟩
      exact hcareful
  | renamed newDn oldDn =>
      exact h.table hsound (fun _ _ _ _ _ _ => nofun) (fun _ _ _ _ _ => nofun) (fun _ => nofun)
  | look id => exact h.look id
  | giveUp id => exact h.giveUp hcareful

theorem Kept.next (h : Kept request world) {move : Move} (hcareful : Careful request world move) :
    Kept request (world.next request move) := by
  cases move with
  | ask now => exact h.runNow fun _ => ⟨rfl, rfl⟩
  | queue move =>
      simp only [World.next]
      split
      · exact h
      · rename_i hid
        exact h.onQueue (Bool.eq_false_iff.mpr hid) hcareful
  | handle => exact h.handle
  | other place key => exact h.other hcareful
  | crash => exact h.crash hcareful

/-- In every state of a run of careful moves. -/
theorem known_of_careful (request : Request) (records : String × String → Option RecoveryKey) (moves : List Move)
    (h : Steps.Each (next request) (Careful request) (initial records) moves) :
    ∀ before, before <+: moves → Known request (before.foldl (next request) (initial records)) := by
  intro before hbefore
  have hkeeps : ∀ world move, Kept request world → Careful request world move →
      Kept request (next request world move) := fun _ _ hkept hcareful => hkept.next hcareful
  exact (Steps.each_keeps hkeeps (kept_initial records) h before hbefore).known

def laptop : Request where
  id := "5f3c1b52-9f1e-4a55-8a06-0c1d2e3f4a5b"
  dn := "CN=WS1,DC=corp"
  device := "/dev/sda3"
  passphrase := "old"
  hostname := "ws1"
  principal := "anna"
  deviceValid := by decide +kernel

def drawn : Chance where
  draw _ := .ok ⟨0, by decide⟩

def collected : List Move := [
  .ask 0,
  .queue (.poll 1 (fun _ => false) "ws1" 1),
  .queue (.start laptop.id drawn),
  .queue (.report 2 laptop.id false),
  .queue (.look laptop.id),
  .handle]

omit [Runtime] in
theorem known_collected :
    letI := Runtime.latin
    (∀ before, before <+: collected → Known laptop (before.foldl (next laptop) (initial fun _ => none))) ∧
      ((collected.foldl (next laptop) (initial fun _ => none)).records (laptop.dn, laptop.device)).map
        RecoveryKey.passphrase = some "AAAAA-AAAAA-AAAAA-AAAAA-AAAAA-AAAAA" := by
  let _ := Runtime.latin
  refine ⟨known_of_careful laptop _ collected ⟨trivial, ⟨trivial, ⟨fun _ _ key hkey => ⟨⟨?_, ?_⟩, rfl, ?_⟩,
    ⟨fun _ hbrief => absurd hbrief Bool.false_ne_true, ⟨trivial, ⟨trivial, trivial⟩⟩⟩⟩⟩⟩, ?_⟩
  · decide +kernel
  · decide +kernel
  · have hadded : added laptop.payload drawn = some ("/dev/sda3", "AAAAA-AAAAA-AAAAA-AAAAA-AAAAA-AAAAA") := by
      decide +kernel
    rw [hadded, Option.some.injEq] at hkey
    rw [← hkey]
    decide +kernel
  · decide +kernel

/-- The machine comes to the task after the request has given up. -/
def tooLate : List Move := [
  .ask 0,
  .queue (.giveUp laptop.id),
  .queue (.poll 300000001 (fun _ => false) "ws1" 1),
  .queue (.start laptop.id drawn),
  .queue (.report 300000002 laptop.id false)]

omit [Runtime] in
theorem unknown_key :
    letI := Runtime.latin
    ¬ Known laptop (tooLate.foldl (next laptop) (initial fun _ => none)) := by
  let _ := Runtime.latin
  intro h
  obtain ⟨record, hrecord, _⟩ := h (by decide +kernel) (by decide +kernel) "ws1"
    ("/dev/sda3", "AAAAA-AAAAA-AAAAA-AAAAA-AAAAA-AAAAA") (by decide +kernel)
  cases hrecord

end World

end OpenDirectory.DiskRecovery
