import OpenDirectory.BlockRuns
import OpenDirectory.Dumps
import OpenDirectory.HostsFile
import OpenDirectory.IniFiles

/-! The agent's edits of the configuration of Samba and of xrdp: lines of another program's file, found by how they
start, and what that program reads afterwards. -/

namespace OpenDirectory.Agent

open Ini (Setting)
open HostsFile (plain_of_nameChar)
open Memberships (isAlpha_of_goSpace)

def sharesConf : String := "/etc/samba/odm-shares.conf"

/-- A line that sets this key, the sign of equality right behind it. -/
def spelled (key line : String) : Bool := Text.startsWith (Text.strip goSpace line) (key ++ "=")

def rewritten (values : List (String × String)) (line : String) : String :=
  match values.find? fun entry => spelled entry.1 line with
  | some (key, value) => key ++ "=" ++ value
  | none => line

def unseen (values : List (String × String)) (lines : List String) : List (String × String) :=
  (values.filter fun entry => !lines.any (spelled entry.1)).sortedBy Prod.fst

def setSesman (values : List (String × String)) (body : String) : String :=
  let lines := Text.split '\n' body
  Text.join "\n" (lines.map (rewritten values) ++ (unseen values lines).map fun entry => entry.1 ++ "=" ++ entry.2)

/-- The timeouts of a collection, in seconds. -/
def timeouts (disconnected idle : Int) : List (String × String) :=
  [("DisconnectedTimeLimit", toString (disconnected * 60)), ("IdleTimeLimit", toString (idle * 60))]

def setXrdpPort (port : Nat) (body : String) : String :=
  let lines := Text.split '\n' body
  let wanted := "port=" ++ toString port
  let before := lines.takeWhile fun line => !spelled "port" line
  match lines.drop before.length with
  | [] => body
  | line :: after =>
      if Text.strip goSpace line = wanted then body else Text.join "\n" (before ++ wanted :: after)

/-- The lines up to the end of the first `[global]`, where another section follows it, and the others. -/
def cutGlobal : Bool → List String → Option (List String × List String)
  | _, [] => none
  | inGlobal, text :: rest =>
      let trimmed := Text.strip goSpace text
      if !Text.startsWith trimmed "[" then (cutGlobal inGlobal rest).map fun parts => (text :: parts.1, parts.2)
      else if Ini.fold trimmed = "[global]" then (cutGlobal true rest).map fun parts => (text :: parts.1, parts.2)
      else if inGlobal then some ([], text :: rest)
      else (cutGlobal inGlobal rest).map fun parts => (text :: parts.1, parts.2)

def insertIntoGlobal (body line : String) : String :=
  match cutGlobal false (Text.split '\n' body) with
  | some (before, rest) => Text.join "\n" before ++ line ++ "\n" ++ Text.join "\n" rest
  | none => body ++ line

def includeShares (body : String) : String :=
  if Text.holds body ("include = " ++ sharesConf) then body
  else insertIntoGlobal body ("\n# Managed by Open Directory Manager\ninclude = " ++ sharesConf ++ "\n")

/-- An edit that is exact, and changes nothing the second time. -/
structure ExactEdit (start : Option String) (mine : Setting → Bool) (wanted : List Setting) (edit : String → String)
    (body : String) : Prop where
  exact : Ini.Exact goSpace start mine wanted (Text.split '\n' body) (Text.split '\n' (edit body))
  again : edit (edit body) = edit body

def sesmanSetting (entry : String × String) : Setting := ⟨some "sessions", Ini.fold entry.1, entry.2⟩

def ofSesman (values : List (String × String)) (setting : Setting) : Bool :=
  setting.place == some "sessions" && values.any fun entry => Ini.fold entry.1 == setting.key

/-- Before the first section nothing is read. -/
def SesmanExact (values : List (String × String)) (body : String) : Prop :=
  ExactEdit none (ofSesman values) (values.map sesmanSetting) (setSesman values) body

def ofXrdp (setting : Setting) : Bool := setting.place == some "globals" && setting.key == "port"

def XrdpExact (port : Nat) (body : String) : Prop :=
  ExactEdit none ofXrdp [⟨some "globals", "port", toString port⟩] (setXrdpPort port) body

/-- Other files may be included beside it. -/
def shareInclude : Setting := ⟨some "global", "include", sharesConf⟩

/-- What stands before the first section is in `[global]`. -/
def SharesExact (body : String) : Prop :=
  ExactEdit (some "global") (· == shareInclude) [shareInclude] includeShares body

def ofKey (place key : String) (setting : Setting) : Bool := setting.place == some place && setting.key == key

/-- The lines of one key in one section of a file that starts outside of every section. -/
def keyLines (place key body : String) : List (Option String × String) :=
  Ini.ownLines goSpace none (ofKey place key) (Text.split '\n' body)

/-- A key that no line is spelled with is not set in `[Sessions]`, and that is the last section; one that a line is
spelled with is set there once, so spelled or to that value, and every line elsewhere that is so spelled is the one to
write. -/
structure SesmanFits (entry : String × String) (body : String) : Prop where
  unset : (∀ line ∈ Text.split '\n' body, spelled entry.1 line = false) →
    keyLines "sessions" (Ini.fold entry.1) body = [] ∧
      Ini.sectionAfter goSpace none (Text.split '\n' body) = some "sessions"
  present : (∃ line ∈ Text.split '\n' body, spelled entry.1 line = true) →
    ∃ line, keyLines "sessions" (Ini.fold entry.1) body = [line] ∧
      (spelled entry.1 line.2 = true ∨ Ini.settingOf goSpace line = some (sesmanSetting entry))
  outside : ∀ line ∈ Ini.placed goSpace none (Text.split '\n' body), spelled entry.1 line.2 = true →
    line.1 ≠ some "sessions" → line.2 = entry.1 ++ "=" ++ entry.2

/-- The first line spelled with the key, and the section it is in. -/
def firstPort (body : String) : Option (Option String × String) :=
  (Ini.placed goSpace none (Text.split '\n' body)).find? fun line => spelled "port" line.2

/-- There is one port in `[Globals]`, and the first line spelled with the key is that one, or the port is right already
and the first line so spelled says the same. -/
def XrdpFits (port : Nat) (body : String) : Prop :=
  ∃ line, keyLines "globals" "port" body = [line] ∧
    ((∃ first, firstPort body = some first ∧ first.1 = some "globals") ∨
      Ini.settingOf goSpace line = some ⟨some "globals", "port", toString port⟩ ∧
        ∀ first ∈ firstPort body, Text.strip goSpace first.2 = "port=" ++ toString port)

def shareLines (body : String) : List (Option String × String) :=
  Ini.ownLines goSpace (some "global") (· == shareInclude) (Text.split '\n' body)

/-- A text that holds the include somewhere has it once in `[global]`; another has it in no spelling, and a line that is
`[global]` alone or `[global]` as its last section. -/
structure SharesFit (body : String) : Prop where
  held : Text.holds body ("include = " ++ sharesConf) = true → ∃ line, shareLines body = [line]
  missing : Text.holds body ("include = " ++ sharesConf) = false → shareLines body = [] ∧
    ((∃ line ∈ Text.split '\n' body, Ini.fold (Text.strip goSpace line) = "[global]") ∨
      Ini.sectionAfter goSpace (some "global") (Text.split '\n' body) = some "global")

variable {key value : String}

theorem spelled_iff {line : String} :
    spelled key line = true ↔ ∃ rest, Text.strip goSpace line = key ++ "=" ++ rest := by
  rw [spelled, Text.startsWith_iff]
  constructor
  · intro ⟨rest, h⟩
    refine ⟨String.ofList rest, String.toList_inj.mp ?_⟩
    rw [h, String.toList_append (s := key ++ "="), String.toList_ofList]
  · intro ⟨rest, h⟩
    exact ⟨rest.toList, by rw [h, String.toList_append]⟩

theorem item_of_spelled {line : String} (hkey : @Ini.Word goSpace key) (h : spelled key line = true) :
    ∃ value, Ini.item goSpace line = .setting (Ini.fold key) value := by
  obtain ⟨rest, hrest⟩ := spelled_iff.mp h
  exact ⟨_, Ini.item_of_strip hkey hrest⟩

/-- A value that nothing is trimmed from. -/
structure Solid (value : String) : Prop where
  filled : value.toList ≠ []
  inside : ∀ c ∈ value.toList, goSpace c = false ∧ c ≠ '\n'

theorem Solid.strip (h : Solid value) : Text.strip goSpace value = value := by
  refine Text.strip_eq_self ?_ ?_
  · intro c hc
    exact (h.inside c (List.mem_of_mem_head? hc)).1
  · intro c hc
    exact (h.inside c (List.mem_of_mem_getLast? hc)).1

theorem strip_assign (hkey : @Ini.Word goSpace key) (hvalue : Solid value) :
    Text.strip goSpace (key ++ "=" ++ value) = key ++ "=" ++ value := by
  obtain ⟨c, tail, hc, -⟩ := hkey.first
  refine Text.strip_eq_self ?_ ?_
  · intro d hd
    rw [String.toList_append, String.toList_append, hc, List.cons_append, List.cons_append, List.head?_cons] at hd
    rw [← Option.some.inj hd]
    exact (hkey.inside c (by rw [hc]; exact List.mem_cons_self)).1
  · intro d hd
    rw [String.toList_append, List.getLast?_append_of_ne_nil _ hvalue.filled] at hd
    exact (hvalue.inside d (List.mem_of_mem_getLast? hd)).1

theorem item_assign (hkey : @Ini.Word goSpace key) (hvalue : Solid value) :
    Ini.item goSpace (key ++ "=" ++ value) = .setting (Ini.fold key) value := by
  rw [Ini.item_of_strip hkey (strip_assign hkey hvalue), hvalue.strip]

theorem spelled_assign (hkey : @Ini.Word goSpace key) (hvalue : Solid value) :
    spelled key (key ++ "=" ++ value) = true :=
  spelled_iff.mpr ⟨value, strip_assign hkey hvalue⟩

theorem solid_of_nameChar (hne : value.toList ≠ []) (h : ∀ c ∈ value.toList, HostsFile.nameChar c = true) :
    Solid value := by
  refine ⟨hne, ?_⟩
  intro c hc
  have hblank := (plain_of_nameChar (h c hc)).1
  exact ⟨hblank, fun heq => by rw [heq] at hblank; exact absurd hblank (by decide)⟩

theorem nameChar_of_digit {c : Char} (h : c.isDigit = true) : HostsFile.nameChar c = true := by
  simp [HostsFile.nameChar, Char.isAlphanum, h]

theorem solid_int (n : Int) : Solid (toString n) := by
  refine solid_of_nameChar (Value.int_ne_nil n) ?_
  intro c hc
  rcases Value.int_chars n c hc with hdigit | rfl
  · exact nameChar_of_digit hdigit
  · decide

theorem solid_nat (n : Nat) : Solid (toString n) := solid_int n

/-- Keys and values that can be written as a line each. -/
structure Named (values : List (String × String)) : Prop where
  words : ∀ entry ∈ values, @Ini.Word goSpace entry.1
  solid : ∀ entry ∈ values, Solid entry.2
  distinct : ∀ entry ∈ values, ∀ other ∈ values, Ini.fold entry.1 = Ini.fold other.1 → entry = other
  nodup : values.Nodup

section Sesman

variable {values : List (String × String)} (h : Named values)

include h in
theorem Named.unique {entry other : String × String} {line : String} (hentry : entry ∈ values) (hother : other ∈ values)
    (hline : spelled entry.1 line = true) (hline' : spelled other.1 line = true) : entry = other := by
  obtain ⟨_, hitem⟩ := item_of_spelled (h.words entry hentry) hline
  obtain ⟨_, hitem'⟩ := item_of_spelled (h.words other hother) hline'
  rw [hitem] at hitem'
  exact h.distinct entry hentry other hother (Ini.Item.setting.inj hitem').1

include h in
theorem Named.rewritten_spelled {entry : String × String} {line : String} (hentry : entry ∈ values)
    (hline : spelled entry.1 line = true) : rewritten values line = entry.1 ++ "=" ++ entry.2 := by
  unfold rewritten
  cases hfind : values.find? fun entry => spelled entry.1 line with
  | none => exact absurd hline (List.find?_eq_none.mp hfind entry hentry)
  | some found =>
      have hfound := List.find?_some (p := fun entry : String × String => spelled entry.1 line) hfind
      rw [h.unique (List.mem_of_find?_eq_some hfind) hentry hfound hline]

theorem rewritten_other {line : String} (hline : ∀ entry ∈ values, spelled entry.1 line = false) :
    rewritten values line = line := by
  have hfind : values.find? (fun entry => spelled entry.1 line) = none :=
    List.find?_eq_none.mpr fun entry hentry => by rw [hline entry hentry]; exact Bool.false_ne_true
  rw [rewritten, hfind]

include h in
theorem Named.rewritten_cases (line : String) :
    (∃ entry ∈ values, spelled entry.1 line = true ∧ rewritten values line = entry.1 ++ "=" ++ entry.2) ∨
      (∀ entry ∈ values, spelled entry.1 line = false) ∧ rewritten values line = line := by
  by_cases hany : ∃ entry ∈ values, spelled entry.1 line = true
  · obtain ⟨entry, hentry, hline⟩ := hany
    exact .inl ⟨entry, hentry, hline, h.rewritten_spelled hentry hline⟩
  · have hnone : ∀ entry ∈ values, spelled entry.1 line = false := by
      intro entry hentry
      exact Bool.eq_false_iff.mpr fun hline => hany ⟨entry, hentry, hline⟩
    exact .inr ⟨hnone, rewritten_other hnone⟩

include h in
theorem Named.next_rewritten (line : String) (place : Option String) :
    Ini.next goSpace place (rewritten values line) = Ini.next goSpace place line := by
  rcases h.rewritten_cases line with ⟨entry, hentry, hline, heq⟩ | ⟨-, heq⟩
  · obtain ⟨_, hitem⟩ := item_of_spelled (h.words entry hentry) hline
    rw [heq, Ini.next_of_setting (item_assign (h.words entry hentry) (h.solid entry hentry)), Ini.next_of_setting hitem]
  · rw [heq]

include h in
theorem Named.isMine_rewritten {mine : Setting → Bool} (hmine : ∀ place key value value', mine ⟨place, key, value⟩ =
    mine ⟨place, key, value'⟩) (line : String) (place : Option String) :
    Ini.isMine goSpace mine (place, rewritten values line) = Ini.isMine goSpace mine (place, line) := by
  rcases h.rewritten_cases line with ⟨entry, hentry, hline, heq⟩ | ⟨-, heq⟩
  · obtain ⟨value, hitem⟩ := item_of_spelled (h.words entry hentry) hline
    rw [Ini.isMine, Ini.isMine, Ini.settingOf_of_setting hitem, heq,
      Ini.settingOf_of_setting (item_assign (h.words entry hentry) (h.solid entry hentry))]
    exact hmine _ _ _ _
  · rw [heq]

include h in
theorem Named.rewritten_rewritten (line : String) : rewritten values (rewritten values line) = rewritten values line := by
  rcases h.rewritten_cases line with ⟨entry, hentry, hline, heq⟩ | ⟨-, heq⟩
  · rw [heq]
    exact h.rewritten_spelled hentry (spelled_assign (h.words entry hentry) (h.solid entry hentry))
  · rw [heq, heq]

/-- The lines added at the end. -/
def added (values : List (String × String)) (lines : List String) : List String :=
  (unseen values lines).map fun entry => entry.1 ++ "=" ++ entry.2

theorem mem_unseen {lines : List String} {entry : String × String} :
    entry ∈ unseen values lines ↔ entry ∈ values ∧ ∀ line ∈ lines, spelled entry.1 line = false := by
  rw [unseen, (List.perm_sortedBy _ _).mem_iff, List.mem_filter]
  simp

include h in
theorem Named.split_setSesman (body : String) : Text.split '\n' (setSesman values body) =
    (Text.split '\n' body).map (rewritten values) ++ added values (Text.split '\n' body) := by
  have hassign : ∀ entry ∈ values, '\n' ∉ (entry.1 ++ "=" ++ entry.2).toList := by
    intro entry hentry hmem
    rw [String.toList_append, String.toList_append] at hmem
    rcases List.mem_append.mp hmem with hleft | hright
    · rcases List.mem_append.mp hleft with hkey | hsign
      · exact absurd ((h.words entry hentry).inside _ hkey).1 (by decide)
      · exact absurd hsign (by decide)
    · exact ((h.solid entry hentry).inside _ hright).2 rfl
  refine Text.split_join ?_ ?_
  · exact List.append_ne_nil_of_left_ne_nil (by simpa using Text.split_ne_nil body) _
  · intro part hpart
    rcases List.mem_append.mp hpart with hold | hnew
    · obtain ⟨line, hline, rfl⟩ := List.mem_map.mp hold
      rcases h.rewritten_cases line with ⟨entry, hentry, -, heq⟩ | ⟨-, heq⟩
      · rw [heq]
        exact hassign entry hentry
      · rw [heq]
        exact Text.mem_split hline
    · obtain ⟨entry, hentry, rfl⟩ := List.mem_map.mp hnew
      exact hassign entry (mem_unseen.mp hentry).1

include h in
theorem Named.again (body : String) : setSesman values (setSesman values body) = setSesman values body := by
  have hsplit := h.split_setSesman body
  have hadded : ∀ line ∈ added values (Text.split '\n' body), rewritten values line = line := by
    intro line hline
    obtain ⟨entry, hentry, rfl⟩ := List.mem_map.mp hline
    have hmem := (mem_unseen.mp hentry).1
    exact h.rewritten_spelled hmem (spelled_assign (h.words entry hmem) (h.solid entry hmem))
  have hnone : unseen values (Text.split '\n' (setSesman values body)) = [] := by
    rw [List.eq_nil_iff_forall_not_mem]
    intro entry hentry
    obtain ⟨hmem, hall⟩ := mem_unseen.mp hentry
    have hself := spelled_assign (h.words entry hmem) (h.solid entry hmem)
    rw [hsplit] at hall
    by_cases hold : ∃ line ∈ Text.split '\n' body, spelled entry.1 line = true
    · obtain ⟨line, hline, hspelled⟩ := hold
      have hfalse := hall _ (List.mem_append_left _ (List.mem_map_of_mem hline))
      rw [h.rewritten_spelled hmem hspelled, hself] at hfalse
      cases hfalse
    · have hnew : entry ∈ unseen values (Text.split '\n' body) :=
        mem_unseen.mpr ⟨hmem, fun line hline => Bool.eq_false_iff.mpr fun hs => hold ⟨line, hline, hs⟩⟩
      have hfalse := hall _ (List.mem_append_right _ (List.mem_map_of_mem hnew))
      rw [hself] at hfalse
      cases hfalse
  have hlines : (Text.split '\n' (setSesman values body)).map (rewritten values) =
      Text.split '\n' (setSesman values body) := by
    have hold : (Text.split '\n' body).map (rewritten values ∘ rewritten values) =
        (Text.split '\n' body).map (rewritten values) :=
      List.map_congr_left fun line _ => h.rewritten_rewritten line
    have hnew : (added values (Text.split '\n' body)).map (rewritten values) = added values (Text.split '\n' body) :=
      (List.map_congr_left hadded).trans (List.map_id' _)
    rw [hsplit, List.map_append, List.map_map, hold, hnew]
  calc setSesman values (setSesman values body)
      = Text.join "\n" ((Text.split '\n' (setSesman values body)).map (rewritten values) ++
          (unseen values (Text.split '\n' (setSesman values body))).map fun entry => entry.1 ++ "=" ++ entry.2) := rfl
    _ = Text.join "\n" (Text.split '\n' (setSesman values body)) := by rw [hlines, hnone, List.map_nil, List.append_nil]
    _ = setSesman values body := Text.join_split _

/-! What is in the file after the edit. -/

theorem ofSesman_congr (place : Option String) (key value value' : String) :
    ofSesman values ⟨place, key, value⟩ = ofSesman values ⟨place, key, value'⟩ := rfl

include h in
theorem Named.next_added {lines : List String} {line : String} (hline : line ∈ added values lines)
    (place : Option String) : Ini.next goSpace place line = place := by
  obtain ⟨entry, hentry, rfl⟩ := List.mem_map.mp hline
  have hmem := (mem_unseen.mp hentry).1
  exact Ini.next_of_setting (item_assign (h.words entry hmem) (h.solid entry hmem)) place

include h in
/-- The settings of a kind in the file after the edit: those of before, rewritten, and those of the lines added. -/
theorem Named.ownLines_after {mine : Setting → Bool} (hmine : ∀ place key value value', mine ⟨place, key, value⟩ =
    mine ⟨place, key, value'⟩) (body : String) :
    Ini.ownLines goSpace none mine (Text.split '\n' (setSesman values body)) =
      (Ini.ownLines goSpace none mine (Text.split '\n' body)).map (Prod.map id (rewritten values)) ++
        ((added values (Text.split '\n' body)).map fun line =>
          (Ini.sectionAfter goSpace none (Text.split '\n' body), line)).filter (Ini.isMine goSpace mine) := by
  have hnext : ∀ line ∈ Text.split '\n' body, ∀ place, Ini.next goSpace place (rewritten values line) =
      Ini.next goSpace place line := fun line _ place => h.next_rewritten line place
  rw [h.split_setSesman, Ini.ownLines, Ini.placed_append, List.filter_append, Ini.sectionAfter_map hnext,
    Ini.placed_of_next fun line hline => h.next_added hline]
  congr 1
  exact Ini.ownLines_map hnext fun line _ place => h.isMine_rewritten hmine line place

include h in
theorem Named.others_after (body : String) :
    Ini.others goSpace none (ofSesman values) (Text.split '\n' (setSesman values body)) =
      (Ini.others goSpace none (ofSesman values) (Text.split '\n' body)).map (rewritten values) ++
        Ini.others goSpace (Ini.sectionAfter goSpace none (Text.split '\n' body)) (ofSesman values)
          (added values (Text.split '\n' body)) := by
  have hnext : ∀ line ∈ Text.split '\n' body, ∀ place, Ini.next goSpace place (rewritten values line) =
      Ini.next goSpace place line := fun line _ place => h.next_rewritten line place
  rw [h.split_setSesman, Ini.others_append, Ini.sectionAfter_map hnext]
  congr 1
  exact Ini.others_map hnext fun line _ place => h.isMine_rewritten ofSesman_congr line place

include h in
theorem Named.settingOf_added {entry : String × String} (hentry : entry ∈ values) (place : Option String) :
    Ini.settingOf goSpace (place, entry.1 ++ "=" ++ entry.2) = some ⟨place, Ini.fold entry.1, entry.2⟩ :=
  Ini.settingOf_of_setting (item_assign (h.words entry hentry) (h.solid entry hentry)) place

include h in
theorem Named.isMine_added {mine : Setting → Bool} {entry : String × String} (hentry : entry ∈ values)
    (place : Option String) : Ini.isMine goSpace mine (place, entry.1 ++ "=" ++ entry.2) =
      mine ⟨place, Ini.fold entry.1, entry.2⟩ := by
  rw [Ini.isMine, h.settingOf_added hentry, Option.any_some]

theorem ofSesman_entry {entry : String × String} (hentry : entry ∈ values) (place : Option String) (value : String) :
    ofSesman values ⟨place, Ini.fold entry.1, value⟩ = (place == some "sessions") := by
  have hany : values.any (fun other => Ini.fold other.1 == Ini.fold entry.1) = true :=
    List.any_eq_true.mpr ⟨entry, hentry, beq_self_eq_true _⟩
  rw [ofSesman, hany, Bool.and_true]

/-- The lines added are in `[Sessions]`, or there are none. -/
def Ended (values : List (String × String)) (body : String) : Prop :=
  Ini.sectionAfter goSpace none (Text.split '\n' body) = some "sessions" ∨ unseen values (Text.split '\n' body) = []

include h in
theorem Named.isMine_spelled {entry : String × String} {line : Option String × String} (hentry : entry ∈ values)
    (hline : spelled entry.1 line.2 = true) :
    Ini.isMine goSpace (ofSesman values) line = (line.1 == some "sessions") := by
  obtain ⟨value, hitem⟩ := item_of_spelled (h.words entry hentry) hline
  rw [Ini.isMine, Ini.settingOf_of_setting hitem line.1, Option.any_some, ofSesman_entry hentry]

include h in
/-- The lines elsewhere stay exactly where every one of them that is spelled with a key is the line to write. -/
theorem Named.map_others_iff (body : String) :
    (∀ line ∈ Ini.others goSpace none (ofSesman values) (Text.split '\n' body), rewritten values line = line) ↔
      ∀ entry ∈ values, ∀ line ∈ Ini.placed goSpace none (Text.split '\n' body), spelled entry.1 line.2 = true →
        line.1 ≠ some "sessions" → line.2 = entry.1 ++ "=" ++ entry.2 := by
  constructor
  · intro hkept entry hentry line hline hspelled hplace
    have hmine : Ini.isMine goSpace (ofSesman values) line = false := by
      rw [h.isMine_spelled hentry hspelled]
      exact beq_eq_false_iff_ne.mpr hplace
    have hother : line.2 ∈ Ini.others goSpace none (ofSesman values) (Text.split '\n' body) :=
      List.mem_map_of_mem (List.mem_filter.mpr ⟨hline, by rw [hmine]; rfl⟩)
    rw [← hkept _ hother, h.rewritten_spelled hentry hspelled]
  · intro hout line hline
    obtain ⟨spot, hspot, rfl⟩ := List.mem_map.mp hline
    obtain ⟨hplaced, hmine⟩ := List.mem_filter.mp hspot
    rcases h.rewritten_cases spot.2 with ⟨entry, hentry, hspelled, heq⟩ | ⟨-, heq⟩
    · have hplace : spot.1 ≠ some "sessions" := by
        intro hplace
        rw [h.isMine_spelled hentry hspelled, hplace] at hmine
        exact absurd hmine (by decide)
      rw [heq, ← hout entry hentry spot hplaced hspelled hplace]
    · exact heq

include h in
theorem Named.others_added (place : Option String) (lines : List String) :
    Ini.others goSpace place (ofSesman values) (added values lines) =
      if place = some "sessions" then [] else added values lines := by
  have hmine : ∀ line ∈ (added values lines).map (fun line => (place, line)),
      (!Ini.isMine goSpace (ofSesman values) line) = !(place == some "sessions") := by
    intro line hline
    obtain ⟨text, htext, rfl⟩ := List.mem_map.mp hline
    obtain ⟨entry, hentry, rfl⟩ := List.mem_map.mp htext
    have hmem := (mem_unseen.mp hentry).1
    rw [h.isMine_added hmem, ofSesman_entry hmem]
  rw [Ini.others, Ini.placed_of_next fun line hline => h.next_added hline, List.filter_congr hmine]
  split_ifs with hplace
  · rw [hplace]
    simp
  · rw [beq_eq_false_iff_ne.mpr hplace]
    simp

include h in
theorem Named.others_added_nil {body : String} (hended : Ended values body) :
    Ini.others goSpace (Ini.sectionAfter goSpace none (Text.split '\n' body)) (ofSesman values)
      (added values (Text.split '\n' body)) = [] := by
  rw [h.others_added]
  rcases hended with hplace | hnone
  · rw [if_pos hplace]
  · rw [added, hnone, List.map_nil, ite_self]

include h in
theorem Named.around_iff (body : String) :
    (Ini.others goSpace none (ofSesman values) (Text.split '\n' body)).Sublist
        (Ini.others goSpace none (ofSesman values) (Text.split '\n' (setSesman values body))) ∧
      (Ini.read goSpace none (Text.split '\n' (setSesman values body))).filter (fun other => !ofSesman values other) =
        (Ini.read goSpace none (Text.split '\n' body)).filter (fun other => !ofSesman values other) ↔
    Ended values body ∧ ∀ line ∈ Ini.others goSpace none (ofSesman values) (Text.split '\n' body),
      rewritten values line = line := by
  have hsettings : ∀ lines : List String, (Ini.ownLines goSpace none (fun other => !ofSesman values other) lines).map
      (Ini.settingOf goSpace) = ((Ini.read goSpace none lines).filter fun other => !ofSesman values other).map some :=
    Ini.map_settingOf_ownLines _
  have hlines := @Named.ownLines_after _ h (fun other => !ofSesman values other) (fun _ _ _ _ => rfl) body
  constructor
  · intro ⟨hkept, helse⟩
    have hended : Ended values body := by
      by_contra hnot
      obtain ⟨hplace, hunseen⟩ := not_or.mp hnot
      obtain ⟨entry, rest, hcons⟩ := List.exists_cons_of_ne_nil hunseen
      have hlength := congrArg List.length (hsettings (Text.split '\n' (setSesman values body)))
      rw [helse, ← hsettings, hlines, List.length_map, List.length_map, List.length_append, List.length_map] at hlength
      have hnil := List.eq_nil_of_length_eq_zero (Nat.left_eq_add.mp hlength.symm)
      have hentry : entry ∈ unseen values (Text.split '\n' body) := by rw [hcons]; exact List.mem_cons_self
      have hmem := (mem_unseen.mp hentry).1
      refine List.filter_eq_nil_iff.mp hnil _ (List.mem_map_of_mem (List.mem_map_of_mem hentry)) ?_
      rw [h.isMine_added hmem, ofSesman_entry hmem, beq_eq_false_iff_ne.mpr hplace]
      rfl
    refine ⟨hended, ?_⟩
    rw [h.others_after, h.others_added_nil hended, List.append_nil] at hkept
    have hsame := hkept.eq_of_length (List.length_map _).symm
    intro line hline
    exact List.map_eq_map_iff.mp (hsame.symm.trans (List.map_id _).symm) line hline
  · intro ⟨hended, hkept⟩
    constructor
    · rw [h.others_after, h.others_added_nil hended, List.append_nil, List.map_congr_left hkept, List.map_id']
    · have hnone : ((added values (Text.split '\n' body)).map fun line =>
          (Ini.sectionAfter goSpace none (Text.split '\n' body), line)).filter
            (Ini.isMine goSpace fun other => !ofSesman values other) = [] := by
        rcases hended with hplace | hempty
        · refine List.filter_eq_nil_iff.mpr fun line hline => ?_
          obtain ⟨text, htext, rfl⟩ := List.mem_map.mp hline
          obtain ⟨entry, hentry, rfl⟩ := List.mem_map.mp htext
          have hmem := (mem_unseen.mp hentry).1
          rw [h.isMine_added hmem, ofSesman_entry hmem, hplace]
          decide
        · rw [added, hempty]
          rfl
      have hsame : (Ini.ownLines goSpace none (fun other => !ofSesman values other) (Text.split '\n' body)).map
          (Prod.map id (rewritten values)) =
          Ini.ownLines goSpace none (fun other => !ofSesman values other) (Text.split '\n' body) := by
        refine (List.map_congr_left fun line hline => ?_).trans (List.map_id' _)
        obtain ⟨hplaced, hset⟩ := List.mem_filter.mp hline
        have hmine : Ini.isMine goSpace (ofSesman values) line = false := by
          obtain ⟨setting, hsetting, hnot⟩ := (Option.any_eq_true _ _).mp hset
          rw [Ini.isMine, hsetting, Option.any_some]
          exact Bool.not_eq_true _ ▸ (Bool.not_eq_true' _).mp hnot
        have hother : line.2 ∈ Ini.others goSpace none (ofSesman values) (Text.split '\n' body) :=
          List.mem_map_of_mem (List.mem_filter.mpr ⟨hplaced, by rw [hmine]; rfl⟩)
        exact Prod.ext rfl (hkept _ hother)
      apply (List.map_injective_iff.mpr (Option.some_injective _))
      rw [← hsettings, hlines, hnone, List.append_nil, hsame, hsettings]

/-! One key of the edit. -/

/-- Among the lines added there is one of a key that no line is spelled with, and it is in the last section. -/
theorem ofSesman_and {entry : String × String} (hentry : entry ∈ values) :
    (fun other => ofSesman values other && other.key == Ini.fold entry.1) = ofKey "sessions" (Ini.fold entry.1) := by
  funext other
  obtain ⟨place, key, value⟩ := other
  by_cases hkey : key = Ini.fold entry.1
  · subst hkey
    dsimp only
    rw [ofSesman_entry hentry, ofKey]
  · dsimp only
    rw [beq_eq_false_iff_ne.mpr hkey, Bool.and_false, ofKey, beq_eq_false_iff_ne.mpr hkey, Bool.and_false]

include h in
theorem Named.added_key {entry : String × String} (hentry : entry ∈ values) {lines : List String}
    (place : Option String) : ((added values lines).map fun line => (place, line)).filter
      (Ini.isMine goSpace (ofKey "sessions" (Ini.fold entry.1))) =
    if place = some "sessions" ∧ entry ∈ unseen values lines then [(place, entry.1 ++ "=" ++ entry.2)] else [] := by
  have hnodup : (unseen values lines).Nodup := (List.perm_sortedBy _ _).nodup_iff.mpr (h.nodup.filter _)
  have hmine : ∀ other ∈ unseen values lines, Ini.isMine goSpace (ofKey "sessions" (Ini.fold entry.1))
      (place, other.1 ++ "=" ++ other.2) = (place == some "sessions" && other == entry) := by
    intro other hother
    have hmem := (mem_unseen.mp hother).1
    rw [h.isMine_added hmem, ofKey]
    by_cases hsame : other = entry
    · rw [hsame, beq_self_eq_true, beq_self_eq_true]
    · rw [beq_eq_false_iff_ne.mpr hsame, beq_eq_false_iff_ne.mpr fun hfold => hsame (h.distinct _ hmem _ hentry hfold)]
  rw [added, List.map_map, List.filter_map]
  by_cases hplace : place = some "sessions"
  · have hfilter : (unseen values lines).filter (Ini.isMine goSpace (ofKey "sessions" (Ini.fold entry.1)) ∘
        ((fun line => (place, line)) ∘ fun other : String × String => other.1 ++ "=" ++ other.2)) =
        (unseen values lines).filter (· == entry) := by
      refine List.filter_congr fun other hother => ?_
      rw [Function.comp_apply, Function.comp_apply, hmine other hother, hplace, beq_self_eq_true, Bool.true_and]
    rw [hfilter, List.filter_beq]
    by_cases hmem : entry ∈ unseen values lines
    · rw [List.count_eq_one_of_mem hnodup hmem, if_pos ⟨hplace, hmem⟩]
      rfl
    · rw [List.count_eq_zero_of_not_mem hmem, if_neg fun hand => hmem hand.2]
      rfl
  · have hfilter : (unseen values lines).filter (Ini.isMine goSpace (ofKey "sessions" (Ini.fold entry.1)) ∘
        ((fun line => (place, line)) ∘ fun other : String × String => other.1 ++ "=" ++ other.2)) = [] := by
      refine List.filter_eq_nil_iff.mpr fun other hother => ?_
      rw [Function.comp_apply, Function.comp_apply, hmine other hother, beq_eq_false_iff_ne.mpr hplace]
      exact Bool.false_ne_true
    rw [hfilter, if_neg fun hand => hplace hand.1]
    rfl

include h in
theorem Named.once_iff {entry : String × String} (hentry : entry ∈ values) {body : String} (hended : Ended values body) :
    ((Ini.read goSpace none (Text.split '\n' (setSesman values body))).filter
        fun other => ofSesman values other && other.key == Ini.fold entry.1) = [sesmanSetting entry] ↔
      if entry ∈ unseen values (Text.split '\n' body) then keyLines "sessions" (Ini.fold entry.1) body = []
      else ∃ line, keyLines "sessions" (Ini.fold entry.1) body = [line] ∧
        (spelled entry.1 line.2 = true ∨ Ini.settingOf goSpace line = some (sesmanSetting entry)) := by
  -- What a line of the key says after it was rewritten.
  have hline : ∀ line ∈ keyLines "sessions" (Ini.fold entry.1) body,
      Ini.settingOf goSpace (Prod.map id (rewritten values) line) = some (sesmanSetting entry) ↔
        spelled entry.1 line.2 = true ∨ Ini.settingOf goSpace line = some (sesmanSetting entry) := by
    intro line hmem
    obtain ⟨setting, hsetting, hkey⟩ := (Option.any_eq_true _ _).mp (List.mem_filter.mp hmem).2
    obtain ⟨hplace, hfold⟩ := Bool.and_eq_true_iff.mp hkey
    rw [beq_iff_eq] at hplace hfold
    rcases h.rewritten_cases line.2 with ⟨other, hother, hspelled, heq⟩ | ⟨hnot, heq⟩
    · obtain ⟨value, hitem⟩ := item_of_spelled (h.words other hother) hspelled
      have hself := Ini.settingOf_of_setting hitem line.1
      have hsame : setting = ⟨line.1, Ini.fold other.1, value⟩ := Option.some.inj (hsetting.symm.trans hself)
      rw [hsame] at hplace hfold
      obtain rfl := h.distinct other hother entry hentry hfold
      have hafter : Ini.settingOf goSpace (Prod.map id (rewritten values) line) = some (sesmanSetting other) := by
        rw [Prod.map, heq, h.settingOf_added hother, sesmanSetting]
        exact congrArg (fun place => some (Setting.mk place (Ini.fold other.1) other.2)) hplace
      exact iff_of_true hafter (.inl hspelled)
    · have hsame : Prod.map id (rewritten values) line = line := Prod.ext rfl heq
      rw [hsame, hnot entry hentry]
      exact ⟨.inr, fun hor => hor.resolve_left Bool.false_ne_true⟩
  have hlines := @Named.ownLines_after _ h (ofKey "sessions" (Ini.fold entry.1)) (fun _ _ _ _ => rfl) body
  rw [h.added_key hentry] at hlines
  rw [ofSesman_and hentry, Ini.filter_read_eq_singleton, hlines]
  change (∃ line, (keyLines "sessions" (Ini.fold entry.1) body).map _ ++ _ = [line] ∧ _) ↔ _
  generalize keyLines "sessions" (Ini.fold entry.1) body = own at hline ⊢
  have hold : (∃ line, own.map (Prod.map id (rewritten values)) = [line] ∧
      Ini.settingOf goSpace line = some (sesmanSetting entry)) ↔
      ∃ line, own = [line] ∧
        (spelled entry.1 line.2 = true ∨ Ini.settingOf goSpace line = some (sesmanSetting entry)) := by
    constructor
    · intro ⟨line, hmap, hset⟩
      obtain ⟨before, hown, rfl⟩ := List.map_eq_singleton_iff.mp hmap
      exact ⟨before, hown, (hline before (by rw [hown]; exact List.mem_cons_self)).mp hset⟩
    · intro ⟨before, hown, hor⟩
      exact ⟨_, by rw [hown]; rfl, (hline before (by rw [hown]; exact List.mem_cons_self)).mpr hor⟩
  by_cases hunseen : entry ∈ unseen values (Text.split '\n' body)
  · rw [if_pos hunseen]
    have hplace := hended.resolve_right (List.ne_nil_of_mem hunseen)
    rw [if_pos ⟨hplace, hunseen⟩]
    constructor
    · intro ⟨line, happend, _⟩
      have hlength := congrArg List.length happend
      rw [List.length_append, List.length_map, List.length_singleton, List.length_singleton] at hlength
      exact List.eq_nil_of_length_eq_zero (by omega)
    · intro hnil
      refine ⟨(some "sessions", entry.1 ++ "=" ++ entry.2), ?_, h.settingOf_added hentry _⟩
      rw [hnil, hplace]
      rfl
  · rw [if_neg hunseen, if_neg fun hand => hunseen hand.2, List.append_nil, hold]

theorem key_sesmanSetting (entry : String × String) : (sesmanSetting entry).key = Ini.fold entry.1 := rfl

include h in
theorem Named.exact_iff (body : String) : SesmanExact values body ↔ ∀ entry ∈ values, SesmanFits entry body := by
  have hunseen : ∀ entry ∈ values, entry ∈ unseen values (Text.split '\n' body) ↔
      ∀ line ∈ Text.split '\n' body, spelled entry.1 line = false := by
    intro entry hentry
    rw [mem_unseen]
    exact ⟨And.right, And.intro hentry⟩
  constructor
  · intro hexact entry hentry
    obtain ⟨hended, hkept⟩ := (h.around_iff body).mp ⟨hexact.exact.kept, hexact.exact.elsewhere⟩
    have hset := hexact.exact.once _ (List.mem_map_of_mem hentry)
    rw [key_sesmanSetting] at hset
    have honce := (h.once_iff hentry hended).mp hset
    refine ⟨?_, ?_, (h.map_others_iff body).mp hkept entry hentry⟩
    · intro hnone
      have hmem := (hunseen entry hentry).mpr hnone
      rw [if_pos hmem] at honce
      exact ⟨honce, hended.resolve_right (List.ne_nil_of_mem hmem)⟩
    · intro ⟨line, hline, hspelled⟩
      have hmem : entry ∉ unseen values (Text.split '\n' body) := by
        intro hmem
        rw [(hunseen entry hentry).mp hmem line hline] at hspelled
        cases hspelled
      rwa [if_neg hmem] at honce
  · intro hfits
    have hended : Ended values body := by
      by_cases hnil : unseen values (Text.split '\n' body) = []
      · exact .inr hnil
      · obtain ⟨entry, rest, hcons⟩ := List.exists_cons_of_ne_nil hnil
        have hmem : entry ∈ unseen values (Text.split '\n' body) := by rw [hcons]; exact List.mem_cons_self
        have hentry := (mem_unseen.mp hmem).1
        exact .inl ((hfits entry hentry).unset ((hunseen entry hentry).mp hmem)).2
    obtain ⟨hkept, helse⟩ := (h.around_iff body).mpr
      ⟨hended, (h.map_others_iff body).mpr fun entry hentry => (hfits entry hentry).outside⟩
    refine ⟨⟨?_, hkept, helse⟩, h.again body⟩
    intro setting hsetting
    obtain ⟨entry, hentry, rfl⟩ := List.mem_map.mp hsetting
    rw [key_sesmanSetting]
    refine (h.once_iff hentry hended).mpr ?_
    by_cases hmem : entry ∈ unseen values (Text.split '\n' body)
    · rw [if_pos hmem]
      exact ((hfits entry hentry).unset ((hunseen entry hentry).mp hmem)).1
    · rw [if_neg hmem]
      refine (hfits entry hentry).present ?_
      by_contra hnot
      refine hmem ((hunseen entry hentry).mpr fun line hline => ?_)
      exact Bool.eq_false_iff.mpr fun hspelled => hnot ⟨line, hline, hspelled⟩

end Sesman

theorem word_of {key : String} (hinside : key.toList.all (fun c => !goSpace c && c != '=') = true)
    (hfirst : key.toList.head?.any (fun c => c != '#' && c != ';' && c != '[') = true) : @Ini.Word goSpace key := by
  constructor
  · intro c hc
    obtain ⟨hblank, hsign⟩ := Bool.and_eq_true_iff.mp (List.all_eq_true.mp hinside c hc)
    exact ⟨(Bool.not_eq_true' _).mp hblank, bne_iff_ne.mp hsign⟩
  · cases hlist : key.toList with
    | nil =>
        rw [hlist] at hfirst
        cases hfirst
    | cons c rest =>
        rw [hlist, List.head?_cons, Option.any_some, Bool.and_eq_true, Bool.and_eq_true, bne_iff_ne, bne_iff_ne,
          bne_iff_ne] at hfirst
        exact ⟨c, rest, rfl, hfirst.1.1, hfirst.1.2, hfirst.2⟩

theorem named_timeouts (disconnected idle : Int) : Named (timeouts disconnected idle) := by
  have hne : Ini.fold "DisconnectedTimeLimit" ≠ Ini.fold "IdleTimeLimit" := by decide
  have hfirst : @Ini.Word goSpace "DisconnectedTimeLimit" := word_of (by decide) (by decide)
  have hsecond : @Ini.Word goSpace "IdleTimeLimit" := word_of (by decide) (by decide)
  constructor
  · intro entry hentry
    rcases List.mem_cons.mp hentry with rfl | hrest
    · exact hfirst
    · rw [List.mem_singleton.mp hrest]
      exact hsecond
  · intro entry hentry
    rcases List.mem_cons.mp hentry with rfl | hrest
    · exact solid_int _
    · rw [List.mem_singleton.mp hrest]
      exact solid_int _
  · intro entry hentry other hother hfold
    rcases List.mem_cons.mp hentry with rfl | hrest
    · rcases List.mem_cons.mp hother with rfl | hrest'
      · rfl
      · rw [List.mem_singleton.mp hrest'] at hfold
        exact absurd hfold hne
    · rcases List.mem_cons.mp hother with rfl | hrest'
      · rw [List.mem_singleton.mp hrest] at hfold
        exact absurd hfold.symm hne
      · exact (List.mem_singleton.mp hrest).trans (List.mem_singleton.mp hrest').symm
  · refine List.nodup_cons.mpr ⟨fun hmem => ?_, List.nodup_singleton _⟩
    have hkey : "DisconnectedTimeLimit" = "IdleTimeLimit" := congrArg Prod.fst (List.mem_singleton.mp hmem)
    exact absurd hkey (by decide)

theorem word_port : @Ini.Word goSpace "port" := word_of (by decide) (by decide)

theorem fold_port : Ini.fold "port" = "port" := by decide

theorem firstPort_cases (body : String) :
    firstPort body = none ∧ (Text.split '\n' body).dropWhile (fun line => !spelled "port" line) = [] ∨
      ∃ before line after, Text.split '\n' body = before ++ line :: after ∧
        before = (Text.split '\n' body).takeWhile (fun line => !spelled "port" line) ∧ spelled "port" line = true ∧
        firstPort body = some (Ini.sectionAfter goSpace none before, line) := by
  have htake := List.takeWhile_append_dropWhile (p := fun line => !spelled "port" line) (l := Text.split '\n' body)
  have hbefore : ∀ line ∈ Ini.placed goSpace none ((Text.split '\n' body).takeWhile fun line => !spelled "port" line),
      ¬ spelled "port" line.2 = true := by
    intro line hline hspelled
    have hnot := List.mem_takeWhile_imp (Ini.mem_of_placed hline)
    rw [hspelled] at hnot
    cases hnot
  cases hdrop : (Text.split '\n' body).dropWhile fun line => !spelled "port" line with
  | nil =>
      rw [hdrop, List.append_nil] at htake
      rw [htake] at hbefore
      exact .inl ⟨List.find?_eq_none.mpr hbefore, rfl⟩
  | cons line after =>
      rw [hdrop] at htake
      have hspelled : spelled "port" line = true := by
        have hhead := List.head_dropWhile_not (fun line => !spelled "port" line) (l := Text.split '\n' body)
          (by rw [hdrop]; exact List.cons_ne_nil _ _)
        simp only [hdrop, List.head_cons] at hhead
        exact (Bool.not_eq_false' _).mp hhead
      refine .inr ⟨_, line, after, htake.symm, rfl, hspelled, ?_⟩
      rw [firstPort]
      generalize (Text.split '\n' body).takeWhile (fun line => !spelled "port" line) = before at htake hbefore ⊢
      rw [← htake, Ini.placed_append, List.find?_append, List.find?_eq_none.mpr hbefore, Ini.placed, Option.none_or]
      exact List.find?_cons_of_pos hspelled

theorem setXrdpPort_none {port : Nat} {body : String} (h : firstPort body = none) : setXrdpPort port body = body := by
  rcases firstPort_cases body with ⟨-, hdrop⟩ | ⟨_, _, _, _, _, _, hsome⟩
  · rw [setXrdpPort, Text.drop_length_takeWhile, hdrop]
  · rw [h] at hsome
    cases hsome

theorem setXrdpPort_some {port : Nat} {body : String} {before after : List String} {line : String}
    (hsplit : Text.split '\n' body = before ++ line :: after)
    (hbefore : before = (Text.split '\n' body).takeWhile fun line => !spelled "port" line) :
    setXrdpPort port body = if Text.strip goSpace line = "port=" ++ toString port then body
      else Text.join "\n" (before ++ ("port=" ++ toString port) :: after) := by
  rw [setXrdpPort, ← hbefore, hsplit, List.drop_left]

theorem port_assign (port : Nat) : "port=" ++ toString port = "port" ++ "=" ++ toString port := rfl

theorem strip_port (port : Nat) : Text.strip goSpace ("port=" ++ toString port) = "port=" ++ toString port := by
  rw [port_assign]
  exact strip_assign word_port (solid_nat port)

theorem ofXrdp_and : (fun other : Setting => ofXrdp other && other.key == "port") = ofKey "globals" "port" := by
  funext other
  rw [ofXrdp, Bool.and_assoc, Bool.and_self, ofKey]

theorem xrdp_once_iff {port : Nat} {text : String} :
    (∀ setting ∈ [(⟨some "globals", "port", toString port⟩ : Setting)], ((Ini.read goSpace none (Text.split '\n' text)).filter
        fun other => ofXrdp other && other.key == setting.key) = [setting]) ↔
      ∃ line, keyLines "globals" "port" text = [line] ∧
        Ini.settingOf goSpace line = some ⟨some "globals", "port", toString port⟩ := by
  rw [List.forall_mem_singleton, ofXrdp_and, Ini.filter_read_eq_singleton]
  rfl

theorem xrdp_same_iff {port : Nat} {body : String} (h : setXrdpPort port body = body) :
    XrdpExact port body ↔ ∃ line, keyLines "globals" "port" body = [line] ∧
      Ini.settingOf goSpace line = some ⟨some "globals", "port", toString port⟩ := by
  rw [← xrdp_once_iff]
  constructor
  · intro hexact
    have honce := hexact.exact.once
    rwa [h] at honce
  · intro honce
    refine ⟨⟨?_, ?_, ?_⟩, by rw [h, h]⟩
    · rwa [h]
    · rw [h]
    · rw [h]

theorem isMine_port {line : String} (h : spelled "port" line = true) (place : Option String) :
    Ini.isMine goSpace ofXrdp (place, line) = (place == some "globals") := by
  obtain ⟨value, hitem⟩ := item_of_spelled word_port h
  rw [Ini.isMine, Ini.settingOf_of_setting hitem, fold_port, Option.any_some, ofXrdp, beq_self_eq_true, Bool.and_true]

section

variable {port : Nat} {body : String} {before after : List String} {line : String}
  (hsplit : Text.split '\n' body = before ++ line :: after) (hspelled : spelled "port" line = true)
  (hbefore : before = (Text.split '\n' body).takeWhile fun line => !spelled "port" line)
  (hother : Text.strip goSpace line ≠ "port=" ++ toString port)

theorem spelled_port : spelled "port" ("port=" ++ toString port) = true := by
  rw [port_assign]
  exact spelled_assign word_port (solid_nat port)

include hsplit hbefore hother in
theorem split_setXrdpPort :
    Text.split '\n' (setXrdpPort port body) = before ++ ("port=" ++ toString port) :: after := by
  have hlines : ∀ part ∈ before ++ line :: after, '\n' ∉ part.toList := by
    intro part hpart
    rw [← hsplit] at hpart
    exact Text.mem_split hpart
  have hport : '\n' ∉ ("port=" ++ toString port).toList := by
    intro hmem
    rw [String.toList_append] at hmem
    rcases List.mem_append.mp hmem with hkey | hvalue
    · exact absurd hkey (by decide)
    · exact ((solid_nat port).inside _ hvalue).2 rfl
  rw [setXrdpPort_some hsplit hbefore, if_neg hother]
  refine Text.split_join (List.append_ne_nil_of_right_ne_nil _ (List.cons_ne_nil _ _)) ?_
  intro part hpart
  rcases List.mem_append.mp hpart with hleft | hright
  · exact hlines part (List.mem_append_left _ hleft)
  · rcases List.mem_cons.mp hright with rfl | hrest
    · exact hport
    · exact hlines part (List.mem_append_right _ (List.mem_cons_of_mem _ hrest))

include hsplit hbefore hother in
theorem setXrdpPort_again : setXrdpPort port (setXrdpPort port body) = setXrdpPort port body := by
  have hnew := split_setXrdpPort hsplit hbefore hother
  have htake : before = (Text.split '\n' (setXrdpPort port body)).takeWhile fun line => !spelled "port" line := by
    have hnot : ∀ other ∈ before, (!spelled "port" other) = true := by
      intro other hmem
      rw [hbefore] at hmem
      exact List.mem_takeWhile_imp (p := fun line => !spelled "port" line) hmem
    have hhead : (!spelled "port" ("port=" ++ toString port)) = false := by rw [spelled_port]; rfl
    rw [hnew, List.takeWhile_append_of_pos hnot, List.takeWhile_cons_of_neg (by rw [hhead]; exact Bool.false_ne_true),
      List.append_nil]
  rw [setXrdpPort_some hnew htake, if_pos (strip_port port)]

include hsplit hspelled hbefore hother in
theorem xrdp_changed_iff : XrdpExact port body ↔
    Ini.sectionAfter goSpace none before = some "globals" ∧ ∃ own, keyLines "globals" "port" body = [own] := by
  have hnew := split_setXrdpPort hsplit hbefore hother
  have hnext : ∀ place, Ini.next goSpace place ("port=" ++ toString port) = Ini.next goSpace place line := by
    intro place
    obtain ⟨_, hitem⟩ := item_of_spelled word_port hspelled
    obtain ⟨_, hitem'⟩ := item_of_spelled word_port (@spelled_port port)
    rw [Ini.next_of_setting hitem, Ini.next_of_setting hitem']
  have hold := @Ini.placed_replace goSpace none line line (fun _ => rfl) before after
  have hnow := @Ini.placed_replace goSpace none _ _ hnext before after
  generalize Ini.placed goSpace none before = front at hold hnow
  generalize Ini.placed goSpace (Ini.next goSpace (Ini.sectionAfter goSpace none before) line) after = rear at hold hnow
  generalize Ini.sectionAfter goSpace none before = place at hold hnow ⊢
  have hmine := isMine_port hspelled place
  have hmine' := isMine_port (@spelled_port port) place
  have howns : keyLines "globals" "port" body = front.filter (Ini.isMine goSpace ofXrdp) ++
      ((place, line) :: rear).filter (Ini.isMine goSpace ofXrdp) := by
    rw [← List.filter_append, ← hold, ← hsplit]
    rfl
  rw [howns]
  constructor
  · intro hexact
    have hkept := hexact.exact.kept
    have honce := xrdp_once_iff.mp hexact.exact.once
    rw [hnew, hsplit, Ini.others, Ini.others, hold, hnow, List.filter_append, List.filter_append] at hkept
    by_cases hplace : place = some "globals"
    · obtain ⟨own, hown, -⟩ := honce
      rw [keyLines, Ini.ownLines, hnew, hnow] at hown
      change (front ++ _).filter (Ini.isMine goSpace ofXrdp) = _ at hown
      have hlength := congrArg List.length hown
      rw [List.filter_append, List.filter_cons_of_pos (by rw [hmine', hplace]; rfl), List.length_append, List.length_cons,
        List.length_singleton] at hlength
      refine ⟨hplace, (place, line), ?_⟩
      rw [List.eq_nil_of_length_eq_zero (show (front.filter _).length = 0 by omega), List.filter_cons_of_pos (by
        rw [hmine, hplace]; rfl), List.eq_nil_of_length_eq_zero (show (rear.filter _).length = 0 by omega)]
      rfl
    · -- The lines before and behind are the same, so this one would be too.
      have hnot : (place == some "globals") = false := beq_eq_false_iff_ne.mpr hplace
      rw [List.filter_cons_of_pos (by rw [hmine, hnot]; rfl), List.filter_cons_of_pos (by rw [hmine', hnot]; rfl)] at hkept
      have heq := hkept.eq_of_length (by simp)
      rw [List.map_append, List.map_append] at heq
      have hline := (List.cons.inj (List.append_cancel_left heq)).1
      refine absurd ?_ hother
      rw [show line = "port=" ++ toString port from hline]
      exact strip_port port
  · rintro ⟨hplace, own, hown⟩
    have hlength := congrArg List.length hown
    rw [List.filter_cons_of_pos (by rw [hmine, hplace]; rfl), List.length_append, List.length_cons,
      List.length_singleton] at hlength
    have hfront := List.eq_nil_of_length_eq_zero (show (front.filter (Ini.isMine goSpace ofXrdp)).length = 0 by omega)
    have hrear := List.eq_nil_of_length_eq_zero (show (rear.filter (Ini.isMine goSpace ofXrdp)).length = 0 by omega)
    have haround : (front ++ (place, line) :: rear).filter (fun line => !Ini.isMine goSpace ofXrdp line) =
        (front ++ (place, "port=" ++ toString port) :: rear).filter fun line => !Ini.isMine goSpace ofXrdp line := by
      rw [List.filter_append, List.filter_append, List.filter_cons_of_neg (by rw [hmine, hplace]; decide),
        List.filter_cons_of_neg (by rw [hmine', hplace]; decide)]
    refine ⟨⟨?_, ?_, ?_⟩, setXrdpPort_again hsplit hbefore hother⟩
    · refine xrdp_once_iff.mpr ⟨(place, "port=" ++ toString port), ?_, ?_⟩
      · rw [keyLines, Ini.ownLines, hnew, hnow]
        change (front ++ _).filter (Ini.isMine goSpace ofXrdp) = _
        rw [List.filter_append, hfront, List.filter_cons_of_pos (by rw [hmine', hplace]; rfl), hrear]
        rfl
      · rw [port_assign, Ini.settingOf_of_setting (item_assign word_port (solid_nat port)), fold_port, hplace]
    · rw [hnew, hsplit, Ini.others, Ini.others, hold, hnow, haround]
    · rw [Ini.filter_not_read, Ini.filter_not_read, hnew, hsplit, hold, hnow, haround]

end

theorem xrdp_exact_iff (port : Nat) (body : String) : XrdpExact port body ↔ XrdpFits port body := by
  rcases firstPort_cases body with ⟨hnone, -⟩ | ⟨before, line, after, hsplit, hbefore, hspelled, hfirst⟩
  · rw [xrdp_same_iff (setXrdpPort_none hnone)]
    constructor
    · intro ⟨own, hown, hset⟩
      refine ⟨own, hown, .inr ⟨hset, fun first hmem => ?_⟩⟩
      rw [hnone] at hmem
      cases hmem
    · intro ⟨own, hown, hor⟩
      rcases hor with ⟨first, hsome, -⟩ | ⟨hset, -⟩
      · rw [hnone] at hsome
        cases hsome
      · exact ⟨own, hown, hset⟩
  · by_cases hsame : Text.strip goSpace line = "port=" ++ toString port
    · rw [xrdp_same_iff (by rw [setXrdpPort_some hsplit hbefore, if_pos hsame])]
      constructor
      · intro ⟨own, hown, hset⟩
        refine ⟨own, hown, .inr ⟨hset, fun first hmem => ?_⟩⟩
        rw [hfirst] at hmem
        rw [← Option.some.inj hmem]
        exact hsame
      · intro ⟨own, hown, hor⟩
        rcases hor with ⟨first, hsome, hplace⟩ | ⟨hset, -⟩
        · rw [hfirst] at hsome
          have hspot := Option.some.inj hsome
          have hmem : first ∈ keyLines "globals" "port" body := by
            refine List.mem_filter.mpr ⟨List.mem_of_find?_eq_some (hfirst.trans hsome), ?_⟩
            rw [← hspot] at hplace ⊢
            rw [show ofKey "globals" "port" = ofXrdp from rfl, isMine_port hspelled]
            exact beq_iff_eq.mpr hplace
          rw [hown, List.mem_singleton] at hmem
          refine ⟨own, hown, ?_⟩
          have hitem : Ini.item goSpace line = .setting "port" (toString port) := by
            rw [Ini.item_of_strip word_port (hsame.trans (port_assign port)), fold_port, (solid_nat port).strip]
          rw [← hmem, ← hspot, Ini.settingOf_of_setting hitem]
          rw [← hspot] at hplace
          exact congrArg (fun place => some (Setting.mk place "port" (toString port))) hplace
        · exact ⟨own, hown, hset⟩
    · rw [xrdp_changed_iff hsplit hspelled hbefore hsame]
      constructor
      · intro ⟨hplace, own, hown⟩
        exact ⟨own, hown, .inl ⟨_, hfirst, hplace⟩⟩
      · intro ⟨own, hown, hor⟩
        rcases hor with ⟨first, hsome, hplace⟩ | ⟨-, hall⟩
        · rw [hfirst] at hsome
          rw [← Option.some.inj hsome] at hplace
          exact ⟨hplace, own, hown⟩
        · exact absurd (hall _ hfirst) hsame

theorem fold_bracket {text : String} (h : Ini.fold text = "[global]") :
    ∃ name, text.toList = '[' :: (name ++ [']']) ∧ Ini.fold (String.ofList name) = "global" ∧
      ∀ c ∈ name, goSpace c = false ∧ c ≠ ']' := by
  have hmap : text.toList.map Char.toLower = ['[', 'g', 'l', 'o', 'b', 'a', 'l', ']'] := by
    have hlist := congrArg String.toList h
    rwa [Ini.fold, String.toList_ofList] at hlist
  obtain ⟨first, rest, hcons, hfirst, hrest⟩ := List.map_eq_cons_iff.mp hmap
  obtain ⟨name, last, happend, hname, hlast⟩ := List.map_eq_append_iff.mp
    (show rest.map Char.toLower = ['g', 'l', 'o', 'b', 'a', 'l'] ++ [']'] from hrest)
  have hsign : ∀ sign : Char, sign.isAlpha = false → ∀ c : Char, c.toLower = sign → c = sign := by
    intro sign hsign c hc
    have hsame := Text.toLower_of_not_alpha (p := fun d => d == sign) (fun d hd => by rw [beq_iff_eq.mp hd, hsign]) c
    rw [hc, beq_self_eq_true] at hsame
    exact beq_iff_eq.mp hsame.symm
  obtain ⟨closing, hclosing, hlower⟩ := List.map_eq_singleton_iff.mp hlast
  refine ⟨name, ?_, ?_, ?_⟩
  · rw [hcons, happend, hclosing, hsign '[' (by decide) first hfirst, hsign ']' (by decide) closing hlower]
  · rw [Ini.fold, String.toList_ofList, hname]
  · intro c hc
    have hmem : c.toLower ∈ ['g', 'l', 'o', 'b', 'a', 'l'] := by
      rw [← hname]
      exact List.mem_map_of_mem hc
    have hall : (['g', 'l', 'o', 'b', 'a', 'l'].all fun d => !goSpace d && d != ']') = true := by decide
    obtain ⟨hblank, hend⟩ := Bool.and_eq_true_iff.mp (List.all_eq_true.mp hall _ hmem)
    constructor
    · rw [← Text.toLower_of_not_alpha isAlpha_of_goSpace c]
      exact (Bool.not_eq_true' _).mp hblank
    · rintro rfl
      exact absurd hend (by decide)

theorem next_of_global {line : String} (h : Ini.fold (Text.strip goSpace line) = "[global]") (place : Option String) :
    Ini.next goSpace place line = some "global" := by
  obtain ⟨name, hlist, hname, hplain⟩ := fold_bracket h
  have hstrip : Text.strip goSpace (String.ofList name) = String.ofList name := by
    refine Text.strip_eq_self ?_ ?_
    · intro c hc
      rw [String.toList_ofList] at hc
      exact (hplain c (List.mem_of_mem_head? hc)).1
    · intro c hc
      rw [String.toList_ofList] at hc
      exact (hplain c (List.mem_of_mem_getLast? hc)).1
  have hitem : Ini.item goSpace line = .header "global" := by
    simp only [Ini.item, hlist]
    rw [if_neg (by decide), if_pos trivial, Ini.cut_append fun hmem => (hplain _ hmem).2 rfl]
    simp only [hstrip, hname]
  rw [Ini.next, hitem]

theorem next_of_not_bracket {line : String} (h : Text.startsWith (Text.strip goSpace line) "[" = false)
    (place : Option String) : Ini.next goSpace place line = place := by
  have hitem : ∀ name, Ini.item goSpace line ≠ .header name := by
    intro name
    unfold Ini.item
    dsimp only
    split
    · exact Ini.Item.noConfusion
    next c rest hlist =>
      have hc : c ≠ '[' := by
        rintro rfl
        have hstarts := Text.startsWith_iff.mpr ⟨rest, show (Text.strip goSpace line).toList = "[".toList ++ rest from hlist⟩
        rw [h] at hstarts
        cases hstarts
      rw [if_neg hc]
      split_ifs
      · exact Ini.Item.noConfusion
      · split <;> exact Ini.Item.noConfusion
  unfold Ini.next
  cases hcase : Ini.item goSpace line with
  | header name => exact absurd hcase (hitem name)
  | setting key value => rfl
  | other => rfl

/-- A line that says where the agent is. -/
def isGlobal (line : String) : Prop := Ini.fold (Text.strip goSpace line) = "[global]"

/-- The place the include is put is in `[global]`, whatever section the lines start in, as long as the flag is right
about it. -/
theorem cutGlobal_some {inGlobal : Bool} {lines before rest : List String}
    (h : cutGlobal inGlobal lines = some (before, rest)) : lines = before ++ rest ∧ rest ≠ [] ∧
      (inGlobal = true ∨ before ≠ [] ∧ ∃ line ∈ lines, isGlobal line) ∧
      ∀ place, (inGlobal = true → place = some "global") → Ini.sectionAfter goSpace place before = some "global" := by
  induction lines generalizing inGlobal before with
  | nil => cases h
  | cons text lines ih =>
      -- A line that is passed over, with the flag it leaves.
      have hpassed : ∀ flag : Bool, (flag = true → inGlobal = true ∨ isGlobal text) →
          (∀ place, (inGlobal = true → place = some "global") → flag = true →
            Ini.next goSpace place text = some "global") →
          (cutGlobal flag lines).map (fun parts => (text :: parts.1, parts.2)) = some (before, rest) →
          text :: lines = before ++ rest ∧ rest ≠ [] ∧
            (inGlobal = true ∨ before ≠ [] ∧ ∃ line ∈ text :: lines, isGlobal line) ∧
            ∀ place, (inGlobal = true → place = some "global") →
              Ini.sectionAfter goSpace place before = some "global" := by
        intro flag hflag hnext hmap
        obtain ⟨⟨front, rear⟩, hcut, heq⟩ := Option.map_eq_some_iff.mp hmap
        obtain ⟨rfl, rfl⟩ := Prod.mk.inj heq
        obtain ⟨happend, hne, hsome, hplace⟩ := ih hcut
        have hafter : ∀ place, (inGlobal = true → place = some "global") →
            Ini.sectionAfter goSpace place (text :: front) = some "global" := by
          intro place hright
          rw [Ini.sectionAfter, List.foldl_cons]
          exact hplace (Ini.next goSpace place text) (hnext place hright)
        refine ⟨by rw [happend, List.cons_append], hne, ?_, hafter⟩
        rcases hsome with htrue | ⟨-, line, hline, hglobal⟩
        · rcases hflag htrue with hin | htext
          · exact .inl hin
          · exact .inr ⟨List.cons_ne_nil _ _, text, List.mem_cons_self, htext⟩
        · exact .inr ⟨List.cons_ne_nil _ _, line, List.mem_cons_of_mem _ hline, hglobal⟩
      rw [cutGlobal] at h
      split_ifs at h with hbracket hglobal hin
      · refine hpassed inGlobal .inl (fun place hright htrue => ?_) h
        rw [next_of_not_bracket ((Bool.not_eq_true' _).mp hbracket)]
        exact hright htrue
      · exact hpassed true (fun _ => .inr hglobal) (fun place _ _ => next_of_global hglobal place) h
      · obtain ⟨rfl, rfl⟩ := Prod.mk.inj (Option.some.inj h)
        exact ⟨rfl, List.cons_ne_nil _ _, .inl hin, fun place hright => hright hin⟩
      · exact hpassed inGlobal .inl (fun _ _ htrue => absurd htrue hin) h

theorem cutGlobal_none {inGlobal : Bool} {lines : List String} (h : cutGlobal inGlobal lines = none)
    (hglobal : inGlobal = true ∨ ∃ line ∈ lines, isGlobal line) {place : Option String}
    (hplace : inGlobal = true → place = some "global") : Ini.sectionAfter goSpace place lines = some "global" := by
  induction lines generalizing inGlobal place with
  | nil =>
      rcases hglobal with htrue | ⟨line, hline, -⟩
      · exact hplace htrue
      · cases hline
  | cons text lines ih =>
      rw [cutGlobal] at h
      rw [Ini.sectionAfter, List.foldl_cons]
      split_ifs at h with hbracket hsection hin
      · have hnext := next_of_not_bracket ((Bool.not_eq_true' _).mp hbracket) place
        rw [hnext]
        refine ih (Option.map_eq_none_iff.mp h) ?_ hplace
        rcases hglobal with htrue | ⟨line, hline, hline'⟩
        · exact .inl htrue
        · rcases List.mem_cons.mp hline with rfl | hrest
          · rw [isGlobal] at hline'
            obtain ⟨name, hlist, -⟩ := fold_bracket hline'
            have hstarts := Text.startsWith_iff.mpr
              ⟨name ++ [']'], show (Text.strip goSpace line).toList = "[".toList ++ (name ++ [']']) from hlist⟩
            rw [hstarts] at hbracket
            cases hbracket
          · exact .inr ⟨line, hrest, hline'⟩
      · exact ih (Option.map_eq_none_iff.mp h) (.inl rfl) fun _ => next_of_global hsection place
      · refine ih (Option.map_eq_none_iff.mp h) ?_ fun htrue => absurd htrue hin
        rcases hglobal with htrue | ⟨line, hline, hline'⟩
        · exact absurd htrue hin
        · rcases List.mem_cons.mp hline with rfl | hrest
          · exact absurd hline' hsection
          · exact .inr ⟨line, hrest, hline'⟩

def includeLines : List String := ["# Managed by Open Directory Manager", "include = " ++ sharesConf, ""]

/-- The file with the lines put in somewhere: in `[global]` where a line is that header, else at its end. -/
theorem split_includeShares {body : String} (h : Text.holds body ("include = " ++ sharesConf) = false) :
    ∃ before rest, Text.split '\n' body = before ++ rest ∧
      Text.split '\n' (includeShares body) = before ++ includeLines ++ rest ∧
      (Ini.sectionAfter goSpace (some "global") before = some "global" ↔
        (∃ line ∈ Text.split '\n' body, isGlobal line) ∨
          Ini.sectionAfter goSpace (some "global") (Text.split '\n' body) = some "global") := by
  have hlast : ∀ text : String, Text.split '\n' (text ++ ("\n# Managed by Open Directory Manager\ninclude = " ++
      sharesConf ++ "\n")) = Text.split '\n' text ++ includeLines := by
    intro text
    have hlines : "\n# Managed by Open Directory Manager\ninclude = " ++ sharesConf ++ "\n" =
        "\n" ++ ("# Managed by Open Directory Manager" ++ "\n" ++ ("include = " ++ sharesConf ++ "\n" ++ "")) := by
      decide
    rw [hlines, ← String.append_assoc, Text.split_append, Text.split_append, Text.split_append,
      Text.split_eq_self (s := "# Managed by Open Directory Manager") (by decide),
      Text.split_eq_self (s := "include = " ++ sharesConf) (by decide)]
    rfl
  rw [includeShares, if_neg (by rw [h]; exact Bool.false_ne_true), insertIntoGlobal]
  cases hcut : cutGlobal false (Text.split '\n' body) with
  | none =>
      refine ⟨Text.split '\n' body, [], (List.append_nil _).symm, ?_, ?_⟩
      · rw [List.append_nil]
        exact hlast body
      · constructor
        · exact .inr
        · rintro (hglobal | hend)
          · exact cutGlobal_none hcut (.inr hglobal) (fun hfalse => by cases hfalse)
          · exact hend
  | some parts =>
      obtain ⟨before, rest⟩ := parts
      obtain ⟨happend, hrest, hsome, hplace⟩ := cutGlobal_some hcut
      obtain ⟨hbefore, hglobal⟩ := hsome.resolve_left Bool.false_ne_true
      have hlines : ∀ line ∈ before ++ rest, '\n' ∉ line.toList := by
        intro line hline
        rw [← happend] at hline
        exact Text.mem_split hline
      refine ⟨before, rest, happend, ?_, ?_⟩
      · dsimp only
        rw [Text.split_append, hlast, Text.split_join hbefore fun line hline => hlines line (List.mem_append_left _ hline),
          Text.split_join hrest fun line hline => hlines line (List.mem_append_right _ hline)]
      · exact iff_of_true (hplace _ fun hfalse => by cases hfalse) (.inl hglobal)

theorem item_include : Ini.item goSpace ("include = " ++ sharesConf) = .setting "include" sharesConf := by decide

theorem next_includeLines : ∀ line ∈ includeLines, ∀ place, Ini.next goSpace place line = place := by
  have hheader : (includeLines.all fun line => Ini.item goSpace line matches .setting _ _ | .other) = true := by
    decide
  intro line hline place
  have hmatches := List.all_eq_true.mp hheader line hline
  unfold Ini.next
  cases hitem : Ini.item goSpace line with
  | header name =>
      rw [hitem] at hmatches
      cases hmatches
  | setting key value => rfl
  | other => rfl

theorem placed_includeShares {before rest : List String} {place : Option String}
    (hplace : Ini.sectionAfter goSpace (some "global") before = place) :
    Ini.placed goSpace (some "global") (before ++ includeLines ++ rest) =
      Ini.placed goSpace (some "global") before ++ includeLines.map (fun line => (place, line)) ++
        Ini.placed goSpace place rest := by
  rw [Ini.placed_append, Ini.placed_append, Ini.placed_of_next next_includeLines, Ini.sectionAfter_append,
    Ini.sectionAfter_of_next next_includeLines, hplace]

theorem again_includeShares (body : String) : includeShares (includeShares body) = includeShares body := by
  by_cases hheld : Text.holds body ("include = " ++ sharesConf) = true
  · have hsame : includeShares body = body := if_pos hheld
    rw [hsame, hsame]
  · obtain ⟨before, rest, -, hsplit, -⟩ := split_includeShares (Bool.eq_false_iff.mpr hheld)
    have hnow : Text.holds (includeShares body) ("include = " ++ sharesConf) = true := by
      rw [holds_iff (by decide), ← Text.join_split (includeShares body),
        Text.infix_join_iff (by decide) (by decide), hsplit]
      refine ⟨"include = " ++ sharesConf, ?_, List.infix_rfl⟩
      exact List.mem_append_left _ (List.mem_append_right _ (List.mem_cons_of_mem _ List.mem_cons_self))
    rw [includeShares, if_pos hnow]

theorem shares_once_iff {text : String} :
    (∀ setting ∈ [shareInclude], ((Ini.read goSpace (some "global") (Text.split '\n' text)).filter
        fun other => (other == shareInclude) && other.key == setting.key) = [setting]) ↔ ∃ line, shareLines text = [line] := by
  have hand : (fun other : Setting => (other == shareInclude) && other.key == shareInclude.key) = (· == shareInclude) := by
    funext other
    by_cases hsame : other = shareInclude
    · rw [hsame, beq_self_eq_true, beq_self_eq_true, Bool.and_self]
    · rw [beq_eq_false_iff_ne.mpr hsame, Bool.false_and]
  rw [List.forall_mem_singleton, hand, Ini.filter_read_eq_singleton]
  constructor
  · intro ⟨line, hown, _⟩
    exact ⟨line, hown⟩
  · intro ⟨line, hown⟩
    refine ⟨line, hown, ?_⟩
    have hmem : line ∈ shareLines text := by rw [hown]; exact List.mem_cons_self
    obtain ⟨setting, hsetting, hsame⟩ := (Option.any_eq_true _ _).mp (List.mem_filter.mp hmem).2
    rw [hsetting, beq_iff_eq.mp hsame]

theorem filter_includeLines (mine : Setting → Bool) (place : Option String) :
    (includeLines.map fun line => (place, line)).filter (Ini.isMine goSpace mine) =
      if mine ⟨place, "include", sharesConf⟩ then [(place, "include = " ++ sharesConf)] else [] := by
  have hcomment : Ini.item goSpace "# Managed by Open Directory Manager" = .other := by decide
  have hempty : Ini.item goSpace "" = .other := by decide
  have hset : Ini.isMine goSpace mine (place, "include = " ++ sharesConf) = mine ⟨place, "include", sharesConf⟩ := by
    rw [Ini.isMine, Ini.settingOf_of_setting item_include, Option.any_some]
  have hnone : ∀ line, Ini.item goSpace line = .other → ¬ Ini.isMine goSpace mine (place, line) = true := by
    intro line hitem
    rw [Ini.isMine, Ini.settingOf, hitem]
    exact Bool.false_ne_true
  rw [includeLines, List.map_cons, List.map_cons, List.map_cons, List.map_nil, List.filter_cons_of_neg (hnone _ hcomment),
    List.filter_cons, hset, List.filter_cons_of_neg (hnone _ hempty), List.filter_nil]

theorem shares_exact_iff (body : String) : SharesExact body ↔ SharesFit body := by
  by_cases hheld : Text.holds body ("include = " ++ sharesConf) = true
  · have hsame : includeShares body = body := if_pos hheld
    have hfit : SharesFit body ↔ ∃ line, shareLines body = [line] := by
      refine ⟨fun h => h.held hheld, fun h => ⟨fun _ => h, fun hnot => ?_⟩⟩
      rw [hheld] at hnot
      cases hnot
    rw [hfit, ← shares_once_iff]
    constructor
    · intro hexact
      have honce := hexact.exact.once
      rwa [hsame] at honce
    · intro honce
      exact ⟨⟨by rwa [hsame], by rw [hsame], by rw [hsame]⟩, again_includeShares body⟩
  · obtain ⟨before, rest, hbody, hnew, hglobal⟩ := split_includeShares (Bool.eq_false_iff.mpr hheld)
    have hfit : SharesFit body ↔ shareLines body = [] ∧ Ini.sectionAfter goSpace (some "global") before = some "global" := by
      rw [hglobal]
      exact ⟨fun h => h.missing (Bool.eq_false_iff.mpr hheld), fun h => ⟨fun htrue => absurd htrue hheld, fun _ => h⟩⟩
    have hown : ∀ mine, Ini.ownLines goSpace (some "global") mine (Text.split '\n' body) =
        (Ini.placed goSpace (some "global") before).filter (Ini.isMine goSpace mine) ++
          (Ini.placed goSpace (Ini.sectionAfter goSpace (some "global") before) rest).filter (Ini.isMine goSpace mine) := by
      intro mine
      rw [hbody, Ini.ownLines, Ini.placed_append, List.filter_append]
    have hown' : ∀ mine, Ini.ownLines goSpace (some "global") mine (Text.split '\n' (includeShares body)) =
        (Ini.placed goSpace (some "global") before).filter (Ini.isMine goSpace mine) ++
          (if mine ⟨Ini.sectionAfter goSpace (some "global") before, "include", sharesConf⟩ then
            [(Ini.sectionAfter goSpace (some "global") before, "include = " ++ sharesConf)] else []) ++
          (Ini.placed goSpace (Ini.sectionAfter goSpace (some "global") before) rest).filter (Ini.isMine goSpace mine) := by
      intro mine
      rw [hnew, Ini.ownLines, placed_includeShares rfl, List.filter_append, List.filter_append, filter_includeLines]
    have hkept : (Ini.others goSpace (some "global") (· == shareInclude) (Text.split '\n' body)).Sublist
        (Ini.others goSpace (some "global") (· == shareInclude) (Text.split '\n' (includeShares body))) := by
      rw [hbody, hnew, Ini.others, Ini.others, placed_includeShares rfl, Ini.placed_append]
      refine List.Sublist.map _ (List.Sublist.filter _ ?_)
      exact List.Sublist.append (List.sublist_append_left _ _) (List.Sublist.refl _)
    have hsettings : ∀ lines : List String, (Ini.ownLines goSpace (some "global") (fun other => !(other == shareInclude))
        lines).map (Ini.settingOf goSpace) =
          ((Ini.read goSpace (some "global") lines).filter fun other => !(other == shareInclude)).map some :=
      Ini.map_settingOf_ownLines _
    generalize hplace : Ini.sectionAfter goSpace (some "global") before = place at hfit hown hown'
    have hself : ((⟨some "global", "include", sharesConf⟩ : Setting) == shareInclude) = true := beq_iff_eq.mpr rfl
    rw [hfit]
    constructor
    · intro hexact
      have hsection : place = some "global" := by
        by_contra hnot
        have hother : ((⟨place, "include", sharesConf⟩ : Setting) == shareInclude) = false :=
          beq_eq_false_iff_ne.mpr fun hsame => hnot (congrArg Setting.place hsame)
        have hlength := congrArg List.length (hsettings (Text.split '\n' (includeShares body)))
        rw [hexact.exact.elsewhere, ← hsettings, List.length_map, List.length_map, hown, hown', hother,
          if_pos (Bool.not_false), List.length_append, List.length_append, List.length_append, List.length_singleton]
          at hlength
        omega
      refine ⟨?_, hsection⟩
      obtain ⟨line, hline⟩ := shares_once_iff.mp hexact.exact.once
      rw [shareLines, hown', hsection] at hline
      have hlength := congrArg List.length hline
      rw [if_pos hself, List.length_append, List.length_append, List.length_singleton,
        List.length_singleton] at hlength
      rw [shareLines, hown, hsection]
      refine List.eq_nil_of_length_eq_zero ?_
      rw [List.length_append]
      omega
    · rintro ⟨hnone, hsection⟩
      rw [shareLines, hown, hsection] at hnone
      obtain ⟨hfront, hrear⟩ := List.append_eq_nil_iff.mp hnone
      refine ⟨⟨?_, hkept, ?_⟩, again_includeShares body⟩
      · refine shares_once_iff.mpr ⟨(some "global", "include = " ++ sharesConf), ?_⟩
        rw [shareLines, hown', hsection, hfront, hrear, if_pos hself]
        rfl
      · apply List.map_injective_iff.mpr (Option.some_injective _)
        have hother : (!((⟨some "global", "include", sharesConf⟩ : Setting) == shareInclude)) = false := by
          rw [hself]
          rfl
        rw [← hsettings, ← hsettings, hown, hown', hsection, if_neg (by rw [hother]; exact Bool.false_ne_true),
          List.append_nil]

/-- Each of the edits is exact, and changes nothing when made again, exactly where the file fits it. -/
theorem ini_edits_exact_iff (body : String) (disconnected idle : Int) (port : Nat) :
    (SesmanExact (timeouts disconnected idle) body ↔
        ∀ entry ∈ timeouts disconnected idle, SesmanFits entry body) ∧
      (XrdpExact port body ↔ XrdpFits port body) ∧ (SharesExact body ↔ SharesFit body) :=
  ⟨(named_timeouts disconnected idle).exact_iff body, xrdp_exact_iff port body, shares_exact_iff body⟩

/-- A key with a blank before the sign, in a file with another section behind; a port of `[Globals]` with one, so that
another section's is taken for it; and an include that is only in a comment. -/
theorem ini_edits_elsewhere :
    ¬ SesmanExact (timeouts 60 5) "[Sessions]\nIdleTimeLimit = 0\nDisconnectedTimeLimit=0\n[Logging]\nLogLevel=INFO" ∧
      ¬ XrdpExact 3390 "[Globals]\nport = 3389\n[Xorg]\nport=-1" ∧
      ¬ SharesExact "[global]\n\trealm = CORP\n# include = /etc/samba/odm-shares.conf" := by
  refine ⟨?_, ?_, ?_⟩
  · intro h
    have honce := h.exact.once ⟨some "sessions", "idletimelimit", "300"⟩ (by decide)
    exact absurd honce (by decide)
  · intro h
    have honce := h.exact.once ⟨some "globals", "port", "3390"⟩ (by decide)
    exact absurd honce (by decide)
  · intro h
    have honce := h.exact.once shareInclude List.mem_cons_self
    exact absurd honce (by decide)

end OpenDirectory.Agent
