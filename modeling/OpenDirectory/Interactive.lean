import OpenDirectory.JsonCuts
import OpenDirectory.RoamingProfiles

/-! Answers an operator waits for: a folder's contents, a folder made, the profile disks of a share, what
a command printed. The machine writes one object, the queue keeps the beginning of its text, and the
console reads that. -/

namespace OpenDirectory.Interactive

open Agent (goSpace)
open DiskRecovery (str textField numberField)
open JsonText (document goEscape quoted write writeFields)
open RoamingProfiles (clean profileStore)
open RunNow (Told lastBytes lastLines)
open Value (Fields)

structure Details where
  size : Int := 0
  modified : String := ""
  mode : String := ""
  owner : String := ""
  group : String := ""

/-- What stands in a folder; of what went away meanwhile there are no details. -/
structure Item where
  name : String
  directory : Bool
  details : Option Details := none

inductive Found where
  | missing (error : String)
  | file
  | unreadable (error : String)
  | folder (items : List Item)

/-- A file on the share that profiles are on. -/
structure Image where
  name : String
  path : String
  usedBytes : Int
  sizeBytes : Int
  modified : String

/-- Why a command did not go well: one line, with no blank and no brace at its end. -/
structure Said where
  text : String
  line : '\n' ∉ text.toList
  ends : ∃ front c, text.toList = front ++ [c] ∧ goSpace c = false ∧ c ≠ '}'

/-- One run of the machine's shell. -/
structure Ran where
  /-- The file for the directory it ends in cannot be made. -/
  marker : Option String := none
  output : String := ""
  directory : Option String := none
  timedOut : Bool := false
  failure : Option Said := none

structure Machine where
  found : String → Found
  mkdirAll : String → Except String (String → Found)
  profiles : Except String (List Image)
  signedIn : String → Bool
  shell : String → String → Nat → Ran

/-- What a handler comes back with: an answer, an error, or both. -/
inductive Ended where
  | answered (fields : Fields)
  | refused (error : String)
  | failed (fields : Fields) (reason : Said)

def Ended.fields : Ended → Option Fields
  | .answered fields => some fields
  | .refused _ => none
  | .failed fields _ => some fields

def boolean (payload : Fields) (key : String) (fallback : Bool) : Bool :=
  match Dict.get payload key with
  | some (.bool flag) => flag
  | _ => fallback

def intOf (payload : Fields) (key : String) (fallback : Int) : Int :=
  match Dict.get payload key with
  | some (.int n) => n
  | _ => fallback

def pathText (path : List String) : String := "/" ++ Text.join "/" path

def absolute (path : String) : Except String (List String) :=
  if path = "" then .ok []
  -- `%q`, which leaves a text of plain characters as it is
  else if !Text.startsWith path "/" then .error ("\"" ++ path ++ "\" is not an absolute path")
  else if Text.contains path '\x00' then .error "invalid path"
  else .ok (clean path)

def maxEntries : Nat := 500

def entry (path : List String) (item : Item) : Fields :=
  [("name", .str item.name), ("path", .str (pathText (path ++ [item.name]))), ("directory", .bool item.directory)] ++
    match item.details with
    | none => []
    | some details =>
        (if item.directory then [] else numberField "size" details.size) ++
          textField "modified" details.modified ++ textField "owner" details.owner ++
          textField "group" details.group ++ textField "mode" details.mode

def listed (items : List Item) (withFiles : Bool) : List Item :=
  (items.filter fun item => !Text.startsWith item.name "." && (item.directory || withFiles)).mergeSort
    fun a b => if a.directory ≠ b.directory then a.directory else decide (a.name ≤ b.name)

def browse (found : String → Found) (payload : Fields) : Ended :=
  match absolute (str payload "path") with
  | .error error => .refused error
  | .ok path =>
      match found (pathText path) with
      | .missing error => .refused (pathText path ++ ": " ++ error)
      | .file => .refused (pathText path ++ " is not a directory")
      | .unreadable error => .refused (pathText path ++ ": " ++ error)
      | .folder items =>
          let entries := listed items (boolean payload "files" false)
          .answered [
            ("entries", .arr ((entries.take maxEntries).map fun item => .obj (entry path item))),
            ("parent", .str (if path = [] then "" else pathText path.dropLast)),
            ("path", .str (pathText path)),
            ("truncated", .bool (maxEntries < entries.length))]

def makeDirectory (machine : Machine) (payload : Fields) : Ended :=
  match absolute (str payload "path") with
  | .error error => .refused error
  | .ok [] => .refused "/ already exists"
  | .ok path =>
      match machine.mkdirAll (pathText path) with
      | .error error => .refused error
      | .ok found => browse found [("path", .str (pathText path.dropLast))]

def isDisk (image : Image) : Bool := Text.startsWith image.name "UPD-" && Text.endsWith image.name ".img"

def userOf (image : Image) : String :=
  let rest := (Text.removePrefix image.name "UPD-").toList
  String.ofList (if Text.endsWith (String.ofList rest) ".img" then rest.take (rest.length - 4) else rest)

def diskOf (signedIn : String → Bool) (image : Image) : Fields :=
  [("user", .str (userOf image)), ("path", .str image.path), ("used_bytes", .int image.usedBytes),
    ("size_bytes", .int image.sizeBytes), ("in_use", .bool (signedIn (userOf image)))] ++
    textField "modified" image.modified

def listProfileDisks (machine : Machine) : Ended :=
  match machine.profiles with
  | .error error => .refused error
  | .ok images =>
      let disks := (images.filter isDisk).mergeSort fun a b => decide (userOf a ≤ userOf b)
      .answered [
        ("disks", if disks = [] then .null else .arr (disks.map fun image => .obj (diskOf machine.signedIn image))),
        ("store", .str profileStore)]

def maxShellOutput : Nat := 200000

def stillRunning (seconds : Nat) : Said where
  text := "still running after " ++ toString seconds ++ "s; killed"
  line := by
    have hdigits : '\n' ∉ Nat.toDigits 10 seconds := fun hmem =>
      absurd (Nat.isDigit_of_mem_toDigits (by decide) (by decide) hmem) (by decide)
    simp [hdigits]
  ends := ⟨("still running after " ++ toString seconds ++ "s; kille").toList, 'd', by simp, by decide, by decide⟩

/-- Where the command is to begin. -/
def cwdOf (payload : Fields) : String :=
  let given := str payload "cwd"
  if given = "" ∨ !Text.startsWith given "/" then "/" else given

def secondsOf (payload : Fields) : Nat :=
  let asked := intOf payload "timeout_seconds" 60
  if asked < 1 ∨ 600 < asked then 60 else asked.toNat

def Ran.text (ran : Ran) : String :=
  if maxShellOutput < ran.output.utf8ByteSize then
    "[earlier output dropped]\n" ++ String.ofList (lastBytes maxShellOutput ran.output.toList)
  else ran.output

/-- Where the shell says it ended up. -/
def Ran.ended (ran : Ran) (cwd : String) : String :=
  match ran.directory with
  | some directory => if Text.startsWith directory "/" then pathText (clean directory) else cwd
  | none => cwd

def Ran.fields (ran : Ran) (cwd : String) : Fields := [("cwd", .str (ran.ended cwd)), ("output", .str ran.text)]

def runShell (machine : Machine) (payload : Fields) : Ended :=
  if str payload "command" = "" then .refused "no command"
  else
    let ran := machine.shell (str payload "command") (cwdOf payload) (secondsOf payload)
    match ran.marker with
    | some error => .refused error
    | none =>
        if ran.timedOut then .failed (ran.fields (cwdOf payload)) (stillRunning (secondsOf payload))
        else match ran.failure with
          | some reason => .failed (ran.fields (cwdOf payload)) reason
          | none => .answered (ran.fields (cwdOf payload))

def timeoutFor : String → String
  | "browse" => "30s"
  | "make-directory" => "30s"
  | "rd-profile-list" => "1m0s"
  | "shell-run" => "11m0s"
  | _ => "5m0s"

/-- What an error becomes where the task's time was up. -/
def gaveUp (kind error : String) : String :=
  "gave up after " ++ timeoutFor kind ++ ": " ++ error ++ " (an installer waiting on a prompt looks like this)"

theorem newline_timeoutFor (kind : String) : '\n' ∉ (timeoutFor kind).toList := by
  unfold timeoutFor
  split <;> decide

def Said.late (kind : String) (said : Said) : Said where
  text := gaveUp kind said.text
  line := by
    have hline := said.line
    have htimeout := newline_timeoutFor kind
    simp [gaveUp, hline, htimeout]
  ends := ⟨("gave up after " ++ timeoutFor kind ++ ": " ++ said.text ++
    " (an installer waiting on a prompt looks like this").toList, ')', by simp [gaveUp], by decide, by decide⟩

def Ended.late (kind : String) : Ended → Ended
  | .answered fields => .answered fields
  | .refused error => .refused (gaveUp kind error)
  | .failed fields reason => .failed fields (reason.late kind)

/-- What the agent reports. -/
def Ended.result : Ended → Bool × String
  | .answered fields => (true, Text.strip goSpace (document goEscape (.obj fields)))
  | .refused error => (false, Text.strip goSpace ("\n" ++ error))
  | .failed fields reason => (false, Text.strip goSpace (document goEscape (.obj fields) ++ "\n" ++ reason.text))

def perform (machine : Machine) (kind : String) (payload : Fields) : Ended :=
  match kind with
  | "browse" => browse machine.found payload
  | "make-directory" => makeDirectory machine payload
  | "rd-profile-list" => listProfileDisks machine
  | "shell-run" => runShell machine payload
  | _ => .refused ("unknown task kind \"" ++ kind ++ "\"")

/-- Whether the time is up is asked of the clock once the handler is done. -/
def runTask (machine : Machine) (late : Bool) (kind : String) (payload : Fields) : Ended :=
  if late then (perform machine kind payload).late kind else perform machine kind payload

inductive Request where
  | browse (path : String) (make files : Bool)
  | profiles
  | shell (command : String) (timeoutSeconds : Nat) (cwd : String)

def Request.kind : Request → String
  | .browse _ make _ => if make then "make-directory" else "browse"
  | .profiles => "rd-profile-list"
  | .shell .. => "shell-run"

def Request.payload : Request → Fields
  | .browse path _ files => [("path", .str (if path = "" then "/" else path)), ("files", .bool files)]
  | .profiles => []
  | .shell command timeoutSeconds cwd =>
      [("command", .str command), ("timeout_seconds", .int timeoutSeconds), ("cwd", .str cwd)]

def Request.timeout : Request → Nat
  | .browse .. => 20
  | .profiles => 60
  | .shell _ timeoutSeconds _ => timeoutSeconds + 30

/-- The first report that gets through: the result as it is, or its last lines. -/
structure Reports where
  first : Bool
  second : Bool

def takes (output : String) : Bool := output.length ≤ Tasks.taskOutputLimit

def reported (reports : Reports) (result : Bool × String) : Option (Bool × String) :=
  if reports.first && takes result.2 then some result
  else if reports.second && takes (lastLines result.2 20) then some (result.1, lastLines result.2 20)
  else none

/-- What the waiting request is told, once the queue has the report. -/
def told : Option (Bool × String) → Told
  | none => .unanswered
  | some (true, output) => .succeeded (Tasks.shortened output)
  | some (false, output) => .failed
      (if Tasks.shortened output = "" then "the machine did not say why" else Tasks.shortened output)

/-- The first line of a text and the rest. -/
def partition (text : String) : String × String := (Text.cut '\n' text).getD (text, "")

inductive Shown where
  | value (value : Value)
  | command (output cwd failed : String)
  | error (reason : String)

/-- The request is reported as failed. -/
def Shown.Failed : Shown → Prop
  | .value _ => False
  | .command _ _ failed => failed ≠ ""
  | .error _ => True

section

variable [Runtime]

def textAt (fields : Fields) (key : String) : String := ((Dict.get fields key).map Value.text).getD ""

def shellAnswer (text : String) : String × String × String :=
  match JsonText.loads (partition text).1 with
  | some (.obj fields) =>
      (textAt fields "output", textAt fields "cwd", Text.strip Runtime.blank (partition text).2)
  | _ => (text, "", "")

def unanswered (node : String) (timeout : Nat) : String :=
  node ++ " did not answer within " ++ toString timeout ++ " seconds. Its agent runs one " ++
    "thing at a time, so it may be part way through installing something; " ++
    "otherwise check that odm-agent is running there."

/-- A command that failed has printed something all the same. -/
def failedCommand (cwd reason : String) : Shown :=
  let (output, ended, said) := shellAnswer reason
  .command output (if ended = "" then cwd else ended) (if said = "" then reason else said)

/-- A listing, or what a command printed and where it ended. -/
def shown (node : String) (request : Request) (told : Told) : Shown :=
  match request with
  | .shell _ _ cwd =>
      match told with
      | .succeeded answer =>
          let (output, ended, _) := shellAnswer answer
          .command output (if ended = "" then cwd else ended) ""
      | .failed reason => failedCommand cwd reason
      | .unanswered => failedCommand cwd (unanswered node request.timeout)
  | _ =>
      match told with
      | .succeeded answer =>
          match JsonText.loads answer with
          | some value => .value value
          | none => .error (node ++ " sent something unreadable back")
      | .failed reason => .error reason
      | .unanswered => .error (unanswered node request.timeout)

end

/-- A document of whole numbers in which no key is twice. -/
structure Solid (fields : Fields) : Prop where
  whole : JsonText.whole (.obj fields) = true
  distinct : Value.distinct (.obj fields) = true

theorem solid_of {fields : Fields} (hkeys : (Dict.keys fields).Nodup)
    (hentries : ∀ entry ∈ fields, JsonText.whole entry.2 = true ∧ Value.distinct entry.2 = true) : Solid fields where
  whole := by
    rw [JsonText.whole, JsonText.wholeFields_iff]
    exact fun entry hentry => (hentries entry hentry).1
  distinct := by
    rw [Value.distinct_obj_iff]
    exact ⟨hkeys, fun entry hentry => (hentries entry hentry).2⟩

theorem solid_array {α : Type} {fields : α → Fields} (h : ∀ item, Solid (fields item)) (items : List α) :
    JsonText.whole (.arr (items.map fun item => .obj (fields item))) = true ∧
      Value.distinct (.arr (items.map fun item => .obj (fields item))) = true := by
  rw [JsonText.whole, JsonText.wholeItems_iff, Value.distinct_arr_iff]
  constructor <;> intro value hvalue
  · obtain ⟨item, _, rfl⟩ := List.mem_map.mp hvalue
    exact (h item).whole
  · obtain ⟨item, _, rfl⟩ := List.mem_map.mp hvalue
    exact (h item).distinct

theorem solid_entry (path : List String) (item : Item) : Solid (entry path item) := by
  obtain ⟨name, directory, details⟩ := item
  cases details with
  | none =>
      refine solid_of (by simp [entry, Dict.keys]) fun field hfield => ?_
      simp only [entry, List.append_nil, List.mem_cons, List.not_mem_nil, or_false] at hfield
      rcases hfield with rfl | rfl | rfl <;> exact ⟨rfl, rfl⟩
  | some details =>
      have hsize : (Dict.keys (if directory then [] else numberField "size" details.size)).Sublist ["size"] := by
        split
        · exact List.nil_sublist _
        · exact DiskRecovery.keys_numberField _ _
      refine solid_of ?_ fun field hfield => ?_
      · have hkeys : (Dict.keys (entry path ⟨name, directory, some details⟩)).Sublist
            (["name", "path", "directory"] ++ (["size"] ++ ["modified"] ++ ["owner"] ++ ["group"] ++ ["mode"])) := by
          simp only [entry, Dict.keys, List.map_append]
          refine List.Sublist.append (List.Sublist.refl _) ?_
          exact (((hsize.append (DiskRecovery.keys_textField _ _)).append (DiskRecovery.keys_textField _ _)).append
            (DiskRecovery.keys_textField _ _)).append (DiskRecovery.keys_textField _ _)
        exact List.Nodup.sublist hkeys (by decide)
      · simp only [entry, List.mem_append, List.mem_cons, List.not_mem_nil, or_false] at hfield
        rcases hfield with (rfl | rfl | rfl) | (((h | h) | h) | h) | h
        · exact ⟨rfl, rfl⟩
        · exact ⟨rfl, rfl⟩
        · exact ⟨rfl, rfl⟩
        · split at h
          · exact absurd h List.not_mem_nil
          · exact DiskRecovery.mem_numberField h
        · exact DiskRecovery.mem_textField h
        · exact DiskRecovery.mem_textField h
        · exact DiskRecovery.mem_textField h
        · exact DiskRecovery.mem_textField h

theorem solid_disk (signedIn : String → Bool) (image : Image) : Solid (diskOf signedIn image) := by
  refine solid_of ?_ fun field hfield => ?_
  · have hkeys : (Dict.keys (diskOf signedIn image)).Sublist
        (["user", "path", "used_bytes", "size_bytes", "in_use"] ++ ["modified"]) := by
      simp only [diskOf, Dict.keys, List.map_append]
      exact List.Sublist.append (List.Sublist.refl _) (DiskRecovery.keys_textField _ _)
    exact List.Nodup.sublist hkeys (by decide)
  · simp only [diskOf, List.mem_append, List.mem_cons, List.not_mem_nil, or_false] at hfield
    rcases hfield with (rfl | rfl | rfl | rfl | rfl) | h
    · exact ⟨rfl, rfl⟩
    · exact ⟨rfl, rfl⟩
    · exact ⟨rfl, rfl⟩
    · exact ⟨rfl, rfl⟩
    · exact ⟨rfl, rfl⟩
    · exact DiskRecovery.mem_textField h

theorem pathText_ne (path : List String) : pathText path ≠ "" := by
  simp [pathText]

theorem cwdOf_ne (payload : Fields) : cwdOf payload ≠ "" := by
  unfold cwdOf
  dsimp only
  split
  · decide
  · rename_i hgiven
    exact fun h => hgiven (.inl h)

theorem Ran.ended_ne (ran : Ran) {cwd : String} (h : cwd ≠ "") : ran.ended cwd ≠ "" := by
  unfold Ran.ended
  split
  · split
    · exact pathText_ne _
    · exact h
  · exact h

theorem solid_command (cwd output : String) : Solid [("cwd", .str cwd), ("output", .str output)] := by
  refine solid_of (by simp [Dict.keys]) fun field hfield => ?_
  simp only [List.mem_cons, List.not_mem_nil, or_false] at hfield
  rcases hfield with rfl | rfl <;> exact ⟨rfl, rfl⟩

section

variable {fields : Fields} {payload : Fields} {machine : Machine}

theorem browse_spec {found : String → Found} (h : (browse found payload).fields = some fields) :
    Solid fields ∧ (browse found payload) = .answered fields := by
  unfold browse at h ⊢
  split at h
  · cases h
  · split at h
    · cases h
    · cases h
    · cases h
    · cases h
      refine ⟨solid_of (by simp [Dict.keys]) fun field hfield => ?_, rfl⟩
      simp only [List.mem_cons, List.not_mem_nil, or_false] at hfield
      rcases hfield with rfl | rfl | rfl | rfl
      · exact solid_array (solid_entry _) _
      · exact ⟨rfl, rfl⟩
      · exact ⟨rfl, rfl⟩
      · exact ⟨rfl, rfl⟩

theorem makeDirectory_spec (h : (makeDirectory machine payload).fields = some fields) :
    Solid fields ∧ (makeDirectory machine payload) = .answered fields := by
  unfold makeDirectory at h ⊢
  split at h
  · cases h
  · cases h
  · split at h
    · cases h
    · exact browse_spec h

theorem listProfileDisks_spec (h : (listProfileDisks machine).fields = some fields) :
    Solid fields ∧ (listProfileDisks machine) = .answered fields := by
  unfold listProfileDisks at h ⊢
  split at h
  · cases h
  · cases h
    refine ⟨solid_of (by simp [Dict.keys]) fun field hfield => ?_, rfl⟩
    simp only [List.mem_cons, List.not_mem_nil, or_false] at hfield
    rcases hfield with rfl | rfl
    · dsimp only
      split
      · exact ⟨rfl, rfl⟩
      · exact solid_array (solid_disk _) _
    · exact ⟨rfl, rfl⟩

theorem runShell_spec (h : (runShell machine payload).fields = some fields) :
    ∃ ran : Ran, fields = ran.fields (cwdOf payload) := by
  unfold runShell at h
  split at h
  · cases h
  · dsimp only at h
    split at h
    · cases h
    · split at h
      · exact ⟨_, (Option.some.inj h).symm⟩
      · split at h <;> exact ⟨_, (Option.some.inj h).symm⟩

end

theorem length_le_utf8ByteSize (text : List Char) : text.length ≤ (String.ofList text).utf8ByteSize := by
  induction text with
  | nil => exact Nat.zero_le _
  | cons c text ih =>
      have hc := Char.utf8Size_pos c
      rw [String.ofList_cons, String.utf8ByteSize_append, String.utf8ByteSize_singleton, List.length_cons]
      omega

theorem length_lastBytes_le (limit : Nat) (text : List Char) : (lastBytes limit text).length ≤ limit := by
  induction text with
  | nil => exact Nat.zero_le _
  | cons c text ih =>
      rw [lastBytes]
      split_ifs with hall hrest
      · exact (length_le_utf8ByteSize _).trans hall
      · have hlength := length_le_utf8ByteSize text
        rw [List.length_append, List.length_replicate]
        omega
      · exact ih

theorem lastBytes_cut {limit : Nat} {text : List Char} (h : limit < (String.ofList text).utf8ByteSize) :
    ∃ front part lost, front ≠ [] ∧ text = front ++ part ∧
      lastBytes limit text = List.replicate lost '\ufffd' ++ part := by
  induction text with
  | nil => exact absurd h (Nat.not_lt_zero _)
  | cons c text ih =>
      rw [lastBytes, if_neg (Nat.not_le.mpr h)]
      by_cases hrest : (String.ofList text).utf8ByteSize ≤ limit
      · rw [if_pos hrest]
        exact ⟨[c], text, _, List.cons_ne_nil _ _, rfl, rfl⟩
      · rw [if_neg hrest]
        obtain ⟨front, part, lost, -, htext, hbytes⟩ := ih (Nat.not_le.mp hrest)
        exact ⟨c :: front, part, lost, List.cons_ne_nil _ _, by rw [htext]; rfl, hbytes⟩

theorem lastLines_eq {text : String} {count : Nat} (hlines : (Text.split '\n' text).length ≤ count)
    (hlast : ∀ c ∈ text.toList.getLast?, c ≠ '\n') :
    lastLines text count = String.ofList (lastBytes 2000 text.toList) := by
  have hend : Text.stripEnd (· = '\n') text = text :=
    Text.stripEnd_eq_self fun c hc => decide_eq_false (hlast c hc)
  have hjoin : (Text.join "\n" (Text.split '\n' text)).toList = text.toList := by
    rw [Text.join, Text.split, String.toList_intercalate, List.map_map]
    have hid : (String.toList ∘ String.ofList) = id := funext fun _ => String.toList_ofList
    rw [hid, List.map_id]
    exact List.intercalate_splitOn '\n'
  unfold lastLines
  rw [hend]
  simp only [Nat.sub_eq_zero_of_le hlines, List.drop_zero, hjoin]

theorem partition_fst (text : String) :
    (partition text).1 = String.ofList (text.toList.takeWhile (· ≠ '\n')) := by
  unfold partition Text.cut
  rw [List.span_eq_takeWhile_dropWhile]
  split
  · rename_i before hspan
    have hdrop := (Prod.mk.inj hspan).2
    have htake : text.toList.takeWhile (· ≠ '\n') = text.toList := by
      have happend := @List.takeWhile_append_dropWhile _ (· ≠ '\n') text.toList
      rwa [hdrop, List.append_nil] at happend
    rw [htake, String.ofList_toList]
    rfl
  · rename_i before c after hspan
    rw [← (Prod.mk.inj hspan).1]
    rfl

theorem takeWhile_line {line rest : List Char} (hline : '\n' ∉ line) (hrest : ∀ c ∈ rest.head?, c = '\n') :
    (line ++ rest).takeWhile (· ≠ '\n') = line := by
  have hne : ∀ c ∈ line, decide (c ≠ '\n') = true := by
    rintro c hc
    refine decide_eq_true ?_
    rintro rfl
    exact hline hc
  rw [List.takeWhile_append_of_pos hne]
  cases rest with
  | nil => rw [List.takeWhile_nil, List.append_nil]
  | cons c rest =>
      obtain rfl := hrest c rfl
      rw [List.takeWhile_cons_of_neg (by simp), List.append_nil]

/-- The reason follows on a line of its own, if there is one. -/
def tailOf : Option Said → List Char
  | none => []
  | some said => '\n' :: said.text.toList

theorem tailOf_head (said : Option Said) : ∀ c ∈ (tailOf said).head?, c = '\n' := by
  cases said with
  | none => nofun
  | some said =>
      rintro c ⟨⟩
      rfl

/-- The text of an object on one line. -/
structure Line (fields : Fields) (middle : List Char) : Prop where
  text : (document goEscape (.obj fields)).toList = '{' :: (middle ++ ['}'])
  balanced : JsonText.Balanced middle
  line : '\n' ∉ (document goEscape (.obj fields)).toList
  reads : JsonText.loads (document goEscape (.obj fields)) = some (.obj fields)

theorem Solid.line {fields : Fields} (h : Solid fields) : ∃ middle, Line fields middle := by
  obtain ⟨middle, hwrite, hbalanced⟩ := JsonText.balanced_write JsonText.escapes_go h.whole h.distinct
  refine ⟨middle, ?_, hbalanced, ?_, JsonText.loads_document JsonText.escapes_go h.whole h.distinct⟩
  · rw [document, String.toList_ofList, hwrite]
  · rw [document, String.toList_ofList]
    exact JsonText.newline_write JsonText.newline_goEscape h.whole

/-- The first line of a text is read as this object. -/
def Uncut (fields : Fields) (text : String) : Prop := JsonText.loads (partition text).1 = some (.obj fields)

theorem replaced_not_object {lost : Nat} {part : List Char} {fields : Fields} (h : lost ≠ 0) :
    JsonText.loads (String.ofList (List.replicate lost '\ufffd' ++ part)) ≠ some (.obj fields) := by
  intro hloads
  obtain ⟨before, inner, after, htext, hbefore, -⟩ := JsonText.loads_object hloads
  obtain ⟨fewer, rfl⟩ := Nat.exists_eq_succ_of_ne_zero h
  rw [String.toList_ofList, List.replicate_succ] at htext
  cases before with
  | nil => exact absurd (List.cons.inj htext).1 (by decide)
  | cons c before =>
      have hc := hbefore c List.mem_cons_self
      rw [← (List.cons.inj htext).1] at hc
      exact absurd hc (by decide)

theorem isBlank_of_goSpace {c : Char} (h : goSpace c = false) : JsonText.isBlank c = false := by
  rw [Bool.eq_false_iff]
  intro hblank
  simp only [JsonText.isBlank, Bool.or_eq_true, decide_eq_true_eq] at hblank
  rcases hblank with ((rfl | rfl) | rfl) | rfl <;> exact absurd h (by decide)

theorem last_not_object {front : List Char} {c : Char} {fields : Fields} (hblank : goSpace c = false)
    (hbrace : c ≠ '}') : JsonText.loads (String.ofList (front ++ [c])) ≠ some (.obj fields) := by
  intro hloads
  obtain ⟨before, inner, after, htext, -, hafter, -⟩ := JsonText.loads_object hloads
  rw [String.toList_ofList] at htext
  rcases List.eq_nil_or_concat after with rfl | ⟨rest, last, rfl⟩
  · have heq : front ++ [c] = (before ++ '{' :: inner) ++ ['}'] := by
      rw [htext]
      simp
    exact hbrace (List.singleton_inj.mp (List.append_inj' heq rfl).2)
  · have heq : front ++ [c] = (before ++ '{' :: (inner ++ '}' :: rest)) ++ [last] := by
      rw [htext]
      simp
    have hlast := hafter last (by simp)
    rw [← List.singleton_inj.mp (List.append_inj' heq rfl).2, isBlank_of_goSpace hblank] at hlast
    cases hlast

section

variable {fields : Fields} {middle : List Char} {said : Option Said} {text : String}

theorem Line.uncut (h : Line fields middle) {rest : List Char} (hrest : ∀ c ∈ rest.head?, c = '\n') :
    Uncut fields (String.ofList ((document goEscape (.obj fields)).toList ++ rest)) := by
  unfold Uncut
  rw [partition_fst, String.toList_ofList, takeWhile_line h.line hrest, String.ofList_toList]
  exact h.reads

theorem Line.uncut_shortened_iff (h : Line fields middle)
    (htext : text.toList = (document goEscape (.obj fields)).toList ++ tailOf said) :
    Uncut fields (Tasks.shortened text) ↔ (document goEscape (.obj fields)).length ≤ 4000 := by
  have hrest := tailOf_head said
  unfold Tasks.shortened
  rw [htext, ← String.length_toList, List.take_append]
  by_cases hlength : (document goEscape (.obj fields)).toList.length ≤ 4000
  · refine iff_of_true ?_ hlength
    rw [List.take_of_length_le hlength]
    refine h.uncut fun c hc => hrest c ?_
    rw [List.head?_take] at hc
    split_ifs at hc
    · exact absurd hc (by simp)
    · exact hc
  · refine iff_of_false ?_ hlength
    have hnone : 4000 - (document goEscape (.obj fields)).toList.length = 0 := by omega
    have hline : '\n' ∉ (document goEscape (.obj fields)).toList.take 4000 := fun hmem =>
      h.line (List.mem_of_mem_take hmem)
    have hmore : (document goEscape (.obj fields)).toList.drop 4000 ≠ [] := by
      rw [ne_eq, List.drop_eq_nil_iff]
      exact hlength
    have hcut : '{' :: (middle ++ ['}']) = (document goEscape (.obj fields)).toList.take 4000 ++
        (document goEscape (.obj fields)).toList.drop 4000 := by
      rw [List.take_append_drop, h.text]
    unfold Uncut
    rw [hnone, List.take_zero, partition_fst, String.toList_ofList, takeWhile_line hline (by simp)]
    exact JsonText.beginning_not_object h.balanced hmore hcut

theorem Line.lastLines (h : Line fields middle)
    (htext : text.toList = (document goEscape (.obj fields)).toList ++ tailOf said) :
    lastLines text 20 = String.ofList (lastBytes 2000 text.toList) := by
  cases said with
  | none =>
      rw [tailOf, List.append_nil] at htext
      apply lastLines_eq
      · rw [Text.split_eq_self (htext ▸ h.line)]
        exact Nat.succ_le_succ (Nat.zero_le _)
      · rw [htext, h.text, ← List.cons_append, List.getLast?_concat]
        rintro c ⟨⟩
        decide
  | some said =>
      obtain ⟨front, last, hsaid, hblank, -⟩ := said.ends
      apply lastLines_eq
      · have hsplit : text.toList.splitOn '\n' = [(document goEscape (.obj fields)).toList, said.text.toList] := by
          have hjoin : text.toList = ['\n'].intercalate [(document goEscape (.obj fields)).toList, said.text.toList] := by
            rw [htext]
            simp [tailOf, List.intercalate]
          rw [hjoin]
          refine List.splitOn_intercalate '\n' (fun line hline => ?_) (List.cons_ne_nil _ _)
          rcases List.mem_pair.mp hline with rfl | rfl
          · exact h.line
          · exact said.line
        rw [Text.split, hsplit, List.length_map]
        exact (by decide : 2 ≤ 20)
      · rw [htext, tailOf, hsaid, ← List.cons_append, ← List.append_assoc, List.getLast?_concat]
        rintro c ⟨⟩ rfl
        exact absurd hblank (by decide)

theorem Line.uncut_brief_iff (h : Line fields middle)
    (htext : text.toList = (document goEscape (.obj fields)).toList ++ tailOf said) :
    Uncut fields (RunNow.lastLines text 20) ↔ text.utf8ByteSize ≤ 2000 := by
  rw [h.lastLines htext]
  by_cases hsize : text.utf8ByteSize ≤ 2000
  · refine iff_of_true ?_ hsize
    rw [RunNow.lastBytes_of_le (by rwa [String.ofList_toList]), htext]
    exact h.uncut (tailOf_head said)
  · refine iff_of_false ?_ hsize
    obtain ⟨front, part, lost, hfront, hparts, hbytes⟩ := @lastBytes_cut 2000 text.toList (by
      rw [String.ofList_toList]
      omega)
    have hlost : ∀ {line rest : List Char}, '\n' ∉ line → (∀ c ∈ rest.head?, c = '\n') →
        (List.replicate lost '\ufffd' ++ (line ++ rest)).takeWhile (· ≠ '\n') = List.replicate lost '\ufffd' ++ line := by
      intro line rest hline hrest
      rw [← List.append_assoc]
      refine takeWhile_line (fun hmem => ?_) hrest
      rcases List.mem_append.mp hmem with hmem | hmem
      · exact absurd (List.eq_of_mem_replicate hmem) (by decide)
      · exact hline hmem
    have hobject : ∀ {part : List Char}, JsonText.loads (String.ofList part) ≠ some (.obj fields) →
        JsonText.loads (String.ofList (List.replicate lost '\ufffd' ++ part)) ≠ some (.obj fields) := by
      intro part hpart
      by_cases hnone : lost = 0
      · rwa [hnone, List.replicate_zero, List.nil_append]
      · exact replaced_not_object hnone
    have hempty : JsonText.loads (String.ofList []) ≠ some (.obj fields) := by
      have hnothing : JsonText.loads (String.ofList []) = none := by decide
      rw [hnothing]
      nofun
    have hnone : ∀ c ∈ ([] : List Char).head?, c = '\n' := fun c hc => absurd hc (by simp)
    unfold Uncut
    rw [hbytes, partition_fst, String.toList_ofList]
    rw [htext] at hparts
    rcases List.append_eq_append_iff.mp hparts with ⟨later, hlater, htail⟩ | ⟨line, hline, rfl⟩
    · -- the object is gone altogether, and what is left is the end of the reason
      cases said with
      | none =>
          obtain ⟨-, rfl⟩ := List.append_eq_nil_iff.mp htail.symm
          rw [← List.nil_append ([] : List Char), hlost List.not_mem_nil hnone]
          exact hobject hempty
      | some said =>
          obtain ⟨before, last, hsaid, hblank, hbrace⟩ := said.ends
          cases later with
          | nil =>
              rw [← (show tailOf (some said) = part from htail), ← List.nil_append (tailOf (some said)),
                hlost List.not_mem_nil (tailOf_head _)]
              exact hobject hempty
          | cons c later =>
              have hreason : said.text.toList = later ++ part := (List.cons.inj htail).2
              have hclean : '\n' ∉ part := fun hmem =>
                said.line (hreason ▸ List.mem_append_right _ hmem)
              rw [← List.append_nil part, hlost hclean hnone]
              refine hobject ?_
              rcases List.eq_nil_or_concat part with rfl | ⟨start, c', rfl⟩
              · exact hempty
              · rw [hsaid, List.concat_eq_append, ← List.append_assoc] at hreason
                obtain rfl := List.singleton_inj.mp (List.append_inj' hreason rfl).2
                rw [List.concat_eq_append]
                exact last_not_object hblank hbrace
    · have hclean : '\n' ∉ line := fun hmem => h.line (hline ▸ List.mem_append_right _ hmem)
      rw [hlost hclean (tailOf_head said)]
      exact hobject (JsonText.end_not_object h.balanced hfront (h.text ▸ hline))

theorem Line.shortened_brief (h : Line fields middle)
    (htext : text.toList = (document goEscape (.obj fields)).toList ++ tailOf said) :
    Tasks.shortened (RunNow.lastLines text 20) = RunNow.lastLines text 20 ∧ takes (RunNow.lastLines text 20) = true := by
  have hlength := length_lastBytes_le 2000 text.toList
  rw [h.lastLines htext]
  constructor
  · rw [Tasks.shortened, String.toList_ofList, List.take_of_length_le (by omega)]
  · refine decide_eq_true ?_
    rw [String.length_ofList]
    exact hlength.trans (by decide)

end

def Ended.said : Ended → Option Said
  | .failed _ reason => some reason
  | _ => none

theorem Line.result {fields : Fields} {middle : List Char} (h : Line fields middle) {ended : Ended}
    (hended : ended.fields = some fields) :
    ended.result.2.toList = (document goEscape (.obj fields)).toList ++ tailOf ended.said := by
  have hfirst : ∀ rest : List Char, ∀ c ∈ ((document goEscape (.obj fields)).toList ++ rest).head?, goSpace c = false := by
    rw [h.text]
    rintro rest c ⟨⟩
    decide
  cases ended with
  | answered =>
      cases hended
      have hstrip : Text.strip goSpace (document goEscape (.obj fields)) = document goEscape (.obj fields) := by
        apply Text.strip_eq_self
        · have hall := hfirst []
          rwa [List.append_nil] at hall
        · rw [h.text, ← List.cons_append, List.getLast?_concat]
          rintro c ⟨⟩
          decide
      simp [Ended.result, Ended.said, tailOf, hstrip]
  | refused => cases hended
  | failed _ reason =>
      cases hended
      obtain ⟨front, last, hreason, hblank, -⟩ := reason.ends
      have htext : (document goEscape (.obj fields) ++ "\n" ++ reason.text).toList =
          (document goEscape (.obj fields)).toList ++ tailOf (some reason) := by
        simp [tailOf]
      have hstrip : Text.strip goSpace (document goEscape (.obj fields) ++ "\n" ++ reason.text) =
          document goEscape (.obj fields) ++ "\n" ++ reason.text := by
        apply Text.strip_eq_self <;> rw [htext]
        · exact hfirst _
        · rw [tailOf, hreason, ← List.cons_append, ← List.append_assoc, List.getLast?_concat]
          rintro c ⟨⟩
          exact hblank
      simp only [Ended.result, Ended.said, hstrip, htext]

/-- The text that the console goes on with. -/
def heard : Told → Option String
  | .succeeded text => some text
  | .failed text => some text
  | .unanswered => none

section

variable [Runtime]

/-- What the machine produced, as the console would show it. -/
def produced (request : Request) (fields : Fields) : Shown :=
  match request with
  | .shell .. => .command (textAt fields "output") (textAt fields "cwd") ""
  | _ => .value (.obj fields)

/-- The console shows what the machine produced or reports a failure; and an answer it goes on with reads as
the object it was. -/
structure Whole (node : String) (request : Request) (ended : Ended) (told : Told) : Prop where
  shown : (∃ fields, ended = .answered fields ∧ shown node request told = produced request fields) ∨
    (Interactive.shown node request told).Failed
  uncut : ∀ fields ∈ ended.fields, ∀ text ∈ heard told, Uncut fields text

/-- The object is short enough for the queue, or with its reason for a brief report. -/
def Fits (reports : Reports) (ended : Ended) : Prop :=
  ∀ fields ∈ ended.fields,
    if reports.first && takes ended.result.2 then (document goEscape (.obj fields)).length ≤ 4000
    else if reports.second then ended.result.2.utf8ByteSize ≤ 2000
    else True

variable {node : String} {request : Request} {fields : Fields}

theorem failedCommand_failed {cwd reason : String} (h : reason ≠ "") : (failedCommand cwd reason).Failed := by
  show (if (shellAnswer reason).2.2 = "" then reason else (shellAnswer reason).2.2) ≠ ""
  split_ifs with hsaid
  · exact h
  · exact hsaid

theorem failed_of_reason {reason : String} (h : reason ≠ "") : (shown node request (.failed reason)).Failed := by
  cases request with
  | browse | profiles => trivial
  | shell => exact failedCommand_failed h

theorem failed_of_unanswered : (shown node request .unanswered).Failed := by
  cases request with
  | browse | profiles => trivial
  | shell =>
      refine failedCommand_failed ?_
      simp [unanswered]

section
omit [Runtime]

theorem told_not_ok (text : String) : ∃ reason, told (some (false, text)) = .failed reason ∧ reason ≠ "" := by
  refine ⟨_, rfl, ?_⟩
  split_ifs with hempty
  · decide
  · exact hempty

theorem not_uncut {text : String} (h : JsonText.loads (partition text).1 = none) : ¬ Uncut fields text := by
  unfold Uncut
  rw [h]
  nofun

theorem uncut_told_iff {ok : Bool} {text : String} :
    (∀ heardText ∈ heard (told (some (ok, text))), Uncut fields heardText) ↔ Uncut fields (Tasks.shortened text) := by
  cases ok with
  | true => simp [told, heard]
  | false =>
      simp only [told, heard, Option.mem_def, Option.some.injEq, forall_eq']
      split_ifs with hempty
      · rw [hempty]
        exact iff_of_false (not_uncut (by decide)) (not_uncut (by decide))
      · exact Iff.rfl

end

theorem shown_whole {middle : List Char} (h : Line fields middle)
    (hended : ∀ command timeoutSeconds cwd, request = .shell command timeoutSeconds cwd → textAt fields "cwd" ≠ "") :
    shown node request (.succeeded (document goEscape (.obj fields))) = produced request fields := by
  cases request with
  | browse | profiles => simp only [shown, produced, h.reads]
  | shell command timeoutSeconds cwd =>
      have hnil : ∀ c ∈ ([] : List Char).head?, c = '\n' := by simp
      have hline := h.uncut hnil
      rw [List.append_nil, String.ofList_toList, Uncut] at hline
      simp only [shown, produced, shellAnswer, hline, hended _ _ _ rfl, if_false]

theorem whole_told_iff {middle : List Char} (h : Line fields middle) {ended : Ended} {sent : String}
    (hfields : ended.fields = some fields)
    (hcwd : ∀ command timeoutSeconds cwd, request = .shell command timeoutSeconds cwd → textAt fields "cwd" ≠ "")
    (hsame : ended.said = none → Uncut fields (Tasks.shortened sent) →
      Tasks.shortened sent = document goEscape (.obj fields)) :
    Whole node request ended (told (some (ended.result.1, sent))) ↔ Uncut fields (Tasks.shortened sent) := by
  constructor
  · intro hwhole
    exact uncut_told_iff.mp fun text htext => hwhole.uncut fields hfields text htext
  · intro huncut
    refine ⟨?_, fun other hother => ?_⟩
    · cases ended with
      | answered =>
          cases hfields
          refine .inl ⟨fields, rfl, ?_⟩
          show shown node request (.succeeded (Tasks.shortened sent)) = _
          rw [hsame rfl huncut]
          exact shown_whole h hcwd
      | refused => cases hfields
      | failed =>
          obtain ⟨reason, htold, hreason⟩ := told_not_ok sent
          right
          show (shown node request (told (some (false, sent)))).Failed
          rw [htold]
          exact failed_of_reason hreason
    · obtain rfl : fields = other := Option.some.inj (hfields.symm.trans hother)
      exact uncut_told_iff.mpr huncut

omit [Runtime] in
theorem fields_late (kind : String) (ended : Ended) : (ended.late kind).fields = ended.fields := by
  cases ended <;> rfl

theorem runTask_spec {machine : Machine} {late : Bool}
    (h : (runTask machine late request.kind request.payload).fields = some fields) : Solid fields ∧
      ∀ command timeoutSeconds cwd, request = .shell command timeoutSeconds cwd → textAt fields "cwd" ≠ "" := by
  have hperform : (perform machine request.kind request.payload).fields = some fields := by
    unfold runTask at h
    split at h
    · rwa [fields_late] at h
    · exact h
  cases request with
  | browse path make files =>
      refine ⟨?_, fun _ _ _ hrequest => nomatch hrequest⟩
      cases make with
      | false => exact (browse_spec hperform).1
      | true => exact (makeDirectory_spec hperform).1
  | profiles => exact ⟨(listProfileDisks_spec hperform).1, fun _ _ _ hrequest => nomatch hrequest⟩
  | shell command timeoutSeconds cwd =>
      obtain ⟨ran, rfl⟩ := runShell_spec hperform
      exact ⟨solid_command _ _, fun _ _ _ _ => ran.ended_ne (cwdOf_ne _)⟩

section

variable {middle : List Char} {ended : Ended}

theorem whole_first_iff (h : Line fields middle) (hfields : ended.fields = some fields)
    (hcwd : ∀ command timeoutSeconds cwd, request = .shell command timeoutSeconds cwd → textAt fields "cwd" ≠ "") :
    Whole node request ended (told (some (ended.result.1, ended.result.2))) ↔
      (document goEscape (.obj fields)).length ≤ 4000 := by
  have htext := h.result hfields
  rw [← h.uncut_shortened_iff htext]
  refine whole_told_iff h hfields hcwd fun hsaid huncut => ?_
  have hlength := (h.uncut_shortened_iff htext).mp huncut
  rw [hsaid, tailOf, List.append_nil, String.toList_inj] at htext
  rw [htext, Tasks.shortened, List.take_of_length_le hlength, String.ofList_toList]

theorem whole_brief_iff (h : Line fields middle) (hfields : ended.fields = some fields)
    (hcwd : ∀ command timeoutSeconds cwd, request = .shell command timeoutSeconds cwd → textAt fields "cwd" ≠ "") :
    Whole node request ended (told (some (ended.result.1, lastLines ended.result.2 20))) ↔
      ended.result.2.utf8ByteSize ≤ 2000 := by
  have htext := h.result hfields
  have hshort := (h.shortened_brief htext).1
  have hsame : ended.said = none → Uncut fields (Tasks.shortened (lastLines ended.result.2 20)) →
      Tasks.shortened (lastLines ended.result.2 20) = document goEscape (.obj fields) := by
    intro hsaid huncut
    rw [hshort] at huncut ⊢
    have hsize := (h.uncut_brief_iff htext).mp huncut
    rw [hsaid, tailOf, List.append_nil, String.toList_inj] at htext
    rw [htext] at hsize ⊢
    exact RunNow.lastLines_of_line (by decide) h.line hsize
  have hiff : Whole node request ended (told (some (ended.result.1, lastLines ended.result.2 20))) ↔
      Uncut fields (Tasks.shortened (lastLines ended.result.2 20)) := whole_told_iff h hfields hcwd hsame
  rw [hiff, hshort, h.uncut_brief_iff htext]

theorem whole_refused (h : ended.fields = none) (reports : Reports) :
    Whole node request ended (told (reported reports ended.result)) := by
  have hok : ended.result.1 = false := by
    cases ended with
    | answered | failed => cases h
    | refused => rfl
  have hfailed : ∀ text, (shown node request (told (some (ended.result.1, text)))).Failed := by
    intro text
    obtain ⟨reason, htold, hreason⟩ := told_not_ok text
    rw [hok, htold]
    exact failed_of_reason hreason
  refine ⟨.inr ?_, fun fields hmem => ?_⟩
  · unfold reported
    split_ifs
    · exact hfailed ended.result.2
    · exact hfailed _
    · exact failed_of_unanswered
  · rw [h] at hmem
    cases hmem

end

/-- The answer to an interactive request arrives whole exactly if its object has at most 4000 characters,
or it and its reason at most 2000 bytes where only the brief report gets through. -/
theorem arrives_whole_iff (machine : Machine) (late : Bool) (node : String) (request : Request) (reports : Reports) :
    let ended := runTask machine late request.kind request.payload
    Whole node request ended (told (reported reports ended.result)) ↔ Fits reports ended := by
  intro ended
  have hspec : ∀ {fields}, ended.fields = some fields → Solid fields ∧
      ∀ command timeoutSeconds cwd, request = .shell command timeoutSeconds cwd → textAt fields "cwd" ≠ "" :=
    fun h => runTask_spec h
  clear_value ended
  cases hfields : ended.fields with
  | none =>
      refine iff_of_true (whole_refused hfields reports) fun fields hmem => ?_
      rw [hfields] at hmem
      cases hmem
  | some fields =>
      obtain ⟨hsolid, hcwd⟩ := hspec hfields
      obtain ⟨middle, hline⟩ := hsolid.line
      have hfits : ∀ {p : Fields → Prop}, (∀ other ∈ ended.fields, p other) ↔ p fields := by
        intro p
        rw [hfields]
        simp
      unfold Fits reported
      rw [hfits]
      by_cases hfirst : (reports.first && takes ended.result.2) = true
      · rw [if_pos hfirst, if_pos hfirst]
        exact whole_first_iff hline hfields hcwd
      · rw [if_neg hfirst, if_neg hfirst, (hline.shortened_brief (hline.result hfields)).2, Bool.and_true]
        by_cases hsecond : reports.second = true
        · rw [if_pos hsecond, if_pos hsecond]
          exact whole_brief_iff hline hfields hcwd
        · rw [if_neg hsecond, if_neg hsecond]
          refine iff_of_true ⟨.inr failed_of_unanswered, fun _ _ text htext => ?_⟩ trivial
          cases htext

def printing (text : String) : Machine where
  found _ := .missing "no such file or directory"
  mkdirAll _ := .error "read-only file system"
  profiles := .error "this machine is not a session host in a collection"
  signedIn _ := false
  shell _ _ _ := { output := text, directory := some "/" }

omit [Runtime] in
theorem runTask_printing {text : String} (h : text.utf8ByteSize ≤ maxShellOutput) :
    runTask (printing text) false "shell-run" (Request.shell "cat notes" 60 "/").payload =
      .answered [("cwd", .str "/"), ("output", .str text)] := by
  have hcommand : str (Request.shell "cat notes" 60 "/").payload "command" ≠ "" := by decide +kernel
  have hcwd : cwdOf (Request.shell "cat notes" 60 "/").payload = "/" := by decide +kernel
  have hended : pathText (clean "/") = "/" := by decide +kernel
  have hstart : Text.startsWith "/" "/" = true := by decide +kernel
  simp [runTask, perform, runShell, hcommand, hcwd, printing, Ran.fields, Ran.ended, Ran.text, Nat.not_lt.mpr h, hended, hstart]

section

variable {text : String}

omit [Runtime] in
theorem length_printed (hplain : ∀ c ∈ text.toList, goEscape c = [c]) :
    (document goEscape (.obj [("cwd", .str "/"), ("output", .str text)])).length = text.length + 23 := by
  have hcwd : quoted goEscape "cwd" = ['"', 'c', 'w', 'd', '"'] := by decide +kernel
  have houtput : quoted goEscape "output" = ['"', 'o', 'u', 't', 'p', 'u', 't', '"'] := by decide +kernel
  have hroot : quoted goEscape "/" = ['"', '/', '"'] := by decide +kernel
  have hescape : ∀ chars : List Char, (∀ c ∈ chars, goEscape c = [c]) → chars.flatMap goEscape = chars := by
    intro chars hchars
    induction chars with
    | nil => rfl
    | cons c chars ih =>
        rw [List.flatMap_cons, hchars c List.mem_cons_self, ih fun d hd => hchars d (List.mem_cons_of_mem _ hd)]
        rfl
  rw [document, String.length_ofList, write, writeFields, writeFields, write, write, hcwd, houtput, hroot, quoted,
    hescape _ hplain]
  simp only [List.length_cons, List.length_append, List.length_nil, String.length_toList]
  omega

theorem not_whole_printed (hplain : ∀ c ∈ text.toList, goEscape c = [c]) (hlong : 3977 < text.length)
    (hshort : text.length ≤ 63977) {ended : Ended}
    (hended : ended = .answered [("cwd", .str "/"), ("output", .str text)]) :
    ¬ Whole node (.shell "cat notes" 60 "/") ended (told (reported ⟨true, true⟩ ended.result)) := by
  intro hwhole
  obtain ⟨middle, hline⟩ := (solid_command "/" text).line
  have hfields : ended.fields = some [("cwd", .str "/"), ("output", .str text)] := by
    rw [hended]
    rfl
  have hsaid : ended.said = none := by
    rw [hended]
    rfl
  have hcwd : textAt [("cwd", .str "/"), ("output", .str text)] "cwd" ≠ "" := by
    show "/" ≠ ""
    decide
  have htext := hline.result hfields
  rw [hsaid, tailOf, List.append_nil, String.toList_inj] at htext
  have htakes : (true && takes ended.result.2) = true := by
    rw [htext, takes, length_printed hplain]
    exact decide_eq_true (show text.length + 23 ≤ 64000 by omega)
  rw [reported, if_pos htakes] at hwhole
  have hfits := (whole_first_iff hline hfields fun _ _ _ _ => hcwd).mp hwhole
  rw [length_printed hplain] at hfits
  omega

end

omit [Runtime] in
theorem utf8ByteSize_replicate (count : Nat) : (String.ofList (List.replicate count 'x')).utf8ByteSize = count := by
  induction count with
  | zero => rfl
  | succ count ih =>
      rw [List.replicate_succ, String.ofList_cons, String.utf8ByteSize_append, String.utf8ByteSize_singleton, ih,
        show 'x'.utf8Size = 1 from rfl, Nat.add_comm]

omit [Runtime] in
/-- The console shows the first 4000 characters of the answer's JSON as what the command printed. -/
theorem output_is_cut :
    letI := Runtime.latin
    let request : Request := .shell "cat notes" 60 "/"
    let ended := runTask (printing (String.ofList (List.replicate 4000 'x'))) false request.kind request.payload
    ¬ Whole "ws1.example" request ended (told (reported ⟨true, true⟩ ended.result)) := by
  let _ := Runtime.latin
  have hlength : (String.ofList (List.replicate 4000 'x')).length = 4000 := by
    rw [String.length_ofList, List.length_replicate]
  intro request ended
  refine not_whole_printed ?_ (by rw [hlength]; decide) (by rw [hlength]; decide)
    (runTask_printing (by rw [utf8ByteSize_replicate]; decide))
  intro c hc
  rw [String.toList_ofList] at hc
  rw [List.eq_of_mem_replicate hc]
  decide

end

end OpenDirectory.Interactive
