import OpenDirectory.FileShares
import OpenDirectory.Lines

/-! The file of the shares of a machine. Each application or removal of a share takes the file apart into its sections,
changes one of them, and writes all of them again. -/

namespace OpenDirectory.ShareSections

open Agent (goSpace)
open FileShares (Share Payload parseShare nameText nameChar pathText pathChar)

def managed : String := "# Managed by Open Directory Manager. Edits here are overwritten.\n"

def sanitise (value : String) : String := String.ofList (value.toList.filter (· ∉ ['\n', '\r', '[', ']']))

def yesNo (value : Bool) : String := if value then "yes" else "no"

/-- A line of a section. -/
def setting (key value : String) : String := "    " ++ key ++ " = " ++ value

def renderShare (share : Share) : String :=
  "[" ++ share.name ++ "]\n" ++
  (if share.comment ≠ "" then setting "comment" (sanitise share.comment) ++ "\n" else "") ++
  setting "path" share.path ++ "\n" ++
  setting "read only" (yesNo share.readOnly) ++ "\n" ++
  setting "browseable" (yesNo share.browseable) ++ "\n" ++
  setting "vfs objects" "acl_xattr" ++ "\n" ++
  setting "map acl inherit" "yes" ++ "\n" ++
  setting "store dos attributes" "yes" ++ "\n" ++
  setting "inherit acls" "yes" ++ "\n" ++
  setting "create mask" "0660" ++ "\n" ++
  setting "directory mask" "2770" ++ "\n"

/-- `strings.TrimSuffix` -/
def trimSuffix (s affix : String) : String :=
  if Text.endsWith s affix then String.ofList (s.toList.take (s.toList.length - affix.toList.length)) else s

/-- The texts of the sections, by their names. -/
abbrev Sections := List (String × String)

/-- A file as it is taken apart. -/
structure Reading where
  sections : Sections := []
  name : String := ""
  current : String := ""
  deriving DecidableEq

def Reading.flush (reading : Reading) : Reading where
  sections := if reading.name ≠ "" then Dict.set reading.sections reading.name reading.current else reading.sections
  name := reading.name

def Reading.line (reading : Reading) (line : String) : Reading :=
  let trimmed := Text.strip goSpace line
  if Text.startsWith trimmed "[" && Text.endsWith trimmed "]" then
    { reading.flush with
      name := trimSuffix (Text.removePrefix trimmed "[") "]"
      current := trimmed ++ "\n" }
  else if reading.name = "" || trimmed = "" || Text.startsWith trimmed "#" then reading
  else { reading with current := reading.current ++ (line ++ "\n") }

def parseSections (body : String) : Sections :=
  ((Text.split '\n' body).foldl Reading.line {}).flush.sections

def sectionsOf : Option String → Sections
  | none => []
  | some raw => parseSections raw

/-- The sections in the order of their names. -/
def fileOf (sections : Sections) : String :=
  managed ++ String.join (((Dict.keys sections).sortedBy id).map fun name => "\n" ++ (Dict.get sections name).getD "")

/-- What is asked for. An application gets to the file when its directory and access list could be made, and the file be
read and written. -/
inductive Request where
  | apply (payload : Payload) (reached : Bool)
  | remove (name : String) (reached : Bool)

def Request.name : Request → String
  | .apply payload _ => Text.strip goSpace payload.name
  | .remove name _ => Text.strip goSpace name

/-- `writeShares` in `applyShare` and in `removeShare`. -/
def step (file : Option String) : Request → Option String
  | .apply payload reached =>
      match parseShare payload with
      | .error _ => file
      | .ok share =>
          if reached then some (fileOf (Dict.set (sectionsOf file) share.name (renderShare share))) else file
  | .remove name reached =>
      if nameText (Text.strip goSpace name).toList && reached then
        some (fileOf (Dict.erase (sectionsOf file) (Text.strip goSpace name)))
      else file

def run (requests : List Request) : Option String := requests.foldl step none

/-- The shares by their names, as they were applied last. -/
abbrev Shares := List (String × Share)

def record (shares : Shares) : Request → Shares
  | .apply payload reached =>
      match parseShare payload with
      | .error _ => shares
      | .ok share => if reached then Dict.set shares share.name share else shares
  | .remove name reached =>
      if nameText (Text.strip goSpace name).toList && reached then Dict.erase shares (Text.strip goSpace name) else shares

/-- The shares last applied and not removed since. -/
def applied (requests : List Request) : Shares := requests.foldl record []

def rendered (shares : Shares) : Sections := shares.map fun entry => (entry.1, renderShare entry.2)

/-- The file has one section for each share and no other, as it was applied last, and is taken apart into these. -/
structure Holds (file : Option String) (shares : Shares) : Prop where
  body : file = none ∧ shares = [] ∨ file = some (fileOf (rendered shares))
  once : (Dict.keys (sectionsOf file)).Nodup
  parsed : ∀ name, Dict.get (sectionsOf file) name = (Dict.get shares name).map renderShare

/-- A definition the agent takes. -/
structure Accepted (share : Share) : Prop where
  name : nameText share.name.toList = true
  path : pathText share.path.toList = true

def settings (share : Share) : List (String × String) :=
  (if share.comment ≠ "" then [("comment", sanitise share.comment)] else []) ++
  [("path", share.path), ("read only", yesNo share.readOnly), ("browseable", yesNo share.browseable),
    ("vfs objects", "acl_xattr"), ("map acl inherit", "yes"), ("store dos attributes", "yes"), ("inherit acls", "yes"),
    ("create mask", "0660"), ("directory mask", "2770")]

def sectionLines (share : Share) : List String := (settings share).map fun entry => setting entry.1 entry.2

def unlines (lines : List String) : String := String.join (lines.map (· ++ "\n"))

theorem unlines_cons (line : String) (lines : List String) : unlines (line :: lines) = line ++ "\n" ++ unlines lines := by
  simp [unlines, String.join_cons]

theorem unlines_append (lines lines' : List String) : unlines (lines ++ lines') = unlines lines ++ unlines lines' := by
  simp [unlines]

theorem renderShare_eq (share : Share) :
    renderShare share = "[" ++ share.name ++ "]\n" ++ unlines (sectionLines share) := by
  have hnil : unlines [] = "" := rfl
  unfold renderShare sectionLines settings
  split
  · simp only [List.map_cons, List.map_nil, List.cons_append, List.nil_append, unlines_cons, hnil,
      String.append_empty, String.append_assoc]
  · simp only [List.nil_append, List.map_cons, List.map_nil, unlines_cons, hnil, String.append_empty, String.append_assoc]

theorem strip_indent {blank : Char → Bool} {indent rest : List Char} {c : Char} (hindent : ∀ d ∈ indent, blank d = true)
    (hc : blank c = false) : ∃ more, (Text.strip blank (String.ofList (indent ++ c :: rest))).toList = c :: more := by
  have hdrop : (indent ++ c :: rest).dropWhile blank = c :: rest := by
    rw [List.dropWhile_append_of_pos hindent, List.dropWhile_cons, hc, if_neg Bool.false_ne_true]
  rw [Text.strip, String.toList_ofList, String.toList_ofList, hdrop, List.reverse_cons, List.dropWhile_append]
  split
  · rw [List.dropWhile_cons, hc, if_neg Bool.false_ne_true]
    exact ⟨[], rfl⟩
  · rw [List.reverse_append]
    exact ⟨_, rfl⟩

theorem startsWith_cons {s : String} {c : Char} {more : List Char} (h : s.toList = c :: more) (d : Char) :
    Text.startsWith s (String.singleton d) = decide (d = c) := by
  rw [Text.startsWith, h, String.toList_singleton]
  by_cases hd : d = c
  · simp [List.isPrefixOf, hd]
  · simp [List.isPrefixOf, hd]

variable {share : Share} {shares : Shares}

theorem key_head : ∀ entry ∈ settings share,
    ∃ c more, entry.1.toList = c :: more ∧ goSpace c = false ∧ c ∉ ['[', '#'] := by
  have hkeys : ∀ entry ∈ settings share, entry.1 ∈ ["comment", "path", "read only", "browseable", "vfs objects",
      "map acl inherit", "store dos attributes", "inherit acls", "create mask", "directory mask"] := by
    intro entry hentry
    unfold settings at hentry
    rcases List.mem_append.mp hentry with hcomment | hrest
    · split at hcomment
      · rw [List.mem_singleton.mp hcomment]
        exact List.mem_cons_self
      · cases hcomment
    · simp only [List.mem_cons, List.not_mem_nil, or_false] at hrest
      rcases hrest with rfl | rfl | rfl | rfl | rfl | rfl | rfl | rfl | rfl <;> simp
  have hheads : (["comment", "path", "read only", "browseable", "vfs objects", "map acl inherit", "store dos attributes",
      "inherit acls", "create mask", "directory mask"].all fun key =>
        key.toList.head?.any fun c => !goSpace c && c ∉ ['[', '#']) = true := by decide
  intro entry hentry
  have hhead := List.all_eq_true.mp hheads entry.1 (hkeys entry hentry)
  obtain ⟨c, hc, hplain⟩ := (Option.any_eq_true _ _).mp hhead
  obtain ⟨more, hmore⟩ := List.head?_eq_some_iff.mp hc
  rw [Bool.and_eq_true, Bool.not_eq_true', decide_eq_true_eq] at hplain
  exact ⟨c, more, hmore, hplain.1, hplain.2⟩

theorem line_setting {entry : String × String} (h : entry ∈ settings share) {reading : Reading}
    (hname : reading.name ≠ "") : reading.line (setting entry.1 entry.2) =
      { reading with current := reading.current ++ (setting entry.1 entry.2 ++ "\n") } := by
  obtain ⟨c, more, hkey, hblank, hplain⟩ := key_head entry h
  have hline : setting entry.1 entry.2 =
      String.ofList ([' ', ' ', ' ', ' '] ++ c :: (more ++ " = ".toList ++ entry.2.toList)) := by
    apply String.toList_inj.mp
    simp [setting, hkey]
  have hspaces : ∀ d ∈ [' ', ' ', ' ', ' '], goSpace d = true := by
    intro d hd
    simp only [List.mem_cons, List.not_mem_nil, or_false, or_self] at hd
    rw [hd]
    decide
  obtain ⟨rest, htrimmed⟩ := @strip_indent goSpace _ (more ++ " = ".toList ++ entry.2.toList) c hspaces hblank
  rw [← hline] at htrimmed
  have hbracket : Text.startsWith (Text.strip goSpace (setting entry.1 entry.2)) "[" = false :=
    (startsWith_cons htrimmed '[').trans (decide_eq_false fun heq => hplain (by simp [← heq]))
  have hhash : Text.startsWith (Text.strip goSpace (setting entry.1 entry.2)) "#" = false :=
    (startsWith_cons htrimmed '#').trans (decide_eq_false fun heq => hplain (by simp [← heq]))
  have hempty : Text.strip goSpace (setting entry.1 entry.2) ≠ "" := by
    intro heq
    rw [heq] at htrimmed
    cases htrimmed
  unfold Reading.line
  dsimp only
  rw [hbracket, hhash, decide_eq_false hname, decide_eq_false hempty]
  rfl

theorem line_header (name : String) (reading : Reading) :
    reading.line ("[" ++ name ++ "]") = { reading.flush with name := name, current := "[" ++ name ++ "]\n" } := by
  have hchars : ("[" ++ name ++ "]").toList = '[' :: (name.toList ++ [']']) := by simp
  have htrimmed : Text.strip goSpace ("[" ++ name ++ "]") = "[" ++ name ++ "]" := by
    apply Text.strip_eq_self
    · intro c hc
      rw [hchars, List.head?_cons, Option.mem_some] at hc
      rw [← hc]
      decide
    · intro c hc
      rw [hchars, List.getLast?_cons_of_ne_nil (by simp), List.getLast?_concat, Option.mem_some] at hc
      rw [← hc]
      decide
  have hstarts : Text.startsWith ("[" ++ name ++ "]") "[" = true := startsWith_cons hchars '['
  have hends : Text.endsWith ("[" ++ name ++ "]") "]" = true := by
    rw [Text.endsWith, List.isSuffixOf_iff_suffix, hchars]
    exact ⟨'[' :: name.toList, rfl⟩
  have hinner : Text.removePrefix ("[" ++ name ++ "]") "[" = name ++ "]" := by
    apply String.toList_inj.mp
    have hone : "[".length = 1 := rfl
    rw [Text.removePrefix, if_pos hstarts, String.toList_ofList, hchars, hone]
    simp
  have hends' : Text.endsWith (name ++ "]") "]" = true := by
    rw [Text.endsWith, List.isSuffixOf_iff_suffix, String.toList_append]
    exact List.suffix_append _ _
  have hname : trimSuffix (name ++ "]") "]" = name := by
    apply String.toList_inj.mp
    rw [trimSuffix, if_pos hends', String.toList_ofList, String.toList_append]
    simp
  unfold Reading.line
  dsimp only
  rw [htrimmed, hstarts, hends, hinner, hname]
  simp [String.append_assoc]

theorem line_blank (reading : Reading) : reading.line "" = reading := by
  have htrimmed : Text.strip goSpace "" = "" := rfl
  have hstarts : Text.startsWith "" "[" = false := rfl
  unfold Reading.line
  dsimp only
  rw [htrimmed, hstarts]
  simp

theorem foldl_settings {share : Share} {entries : List (String × String)} (h : entries ⊆ settings share)
    {reading : Reading} (hname : reading.name ≠ "") :
    (entries.map fun entry => setting entry.1 entry.2).foldl Reading.line reading =
      { reading with current := reading.current ++ unlines (entries.map fun entry => setting entry.1 entry.2) } := by
  induction entries generalizing reading with
  | nil => simp [unlines]
  | cons entry entries ih =>
      obtain ⟨hentry, hentries⟩ := List.cons_subset.mp h
      have hrest := @ih hentries { reading with current := reading.current ++ (setting entry.1 entry.2 ++ "\n") } hname
      rw [List.map_cons, List.foldl_cons, line_setting hentry hname, hrest, unlines_cons, String.append_assoc]

/-- The lines of a share, the blank one before them included. -/
def shareLines (share : Share) : List String := "" :: ("[" ++ share.name ++ "]") :: sectionLines share

theorem foldl_share (hname : share.name ≠ "") (reading : Reading) :
    (shareLines share).foldl Reading.line reading =
      { reading.flush with name := share.name, current := renderShare share } := by
  have hsettings := @foldl_settings share _ (List.Subset.refl _)
    { reading.flush with name := share.name, current := "[" ++ share.name ++ "]\n" } hname
  rw [shareLines, List.foldl_cons, List.foldl_cons, line_blank, line_header, sectionLines, hsettings, renderShare_eq]
  rfl

/-- The file of some shares, one after the other. -/
def fileText (shares : List Share) : String := managed ++ String.join (shares.map fun share => "\n" ++ renderShare share)

def fileLines (shares : List Share) : List String :=
  "# Managed by Open Directory Manager. Edits here are overwritten." :: shares.flatMap shareLines

theorem fileText_eq (shares : List Share) : fileText shares = unlines (fileLines shares) := by
  have hshares : String.join (shares.map fun share => "\n" ++ renderShare share) = unlines (shares.flatMap shareLines) := by
    induction shares with
    | nil => rfl
    | cons share shares ih =>
        rw [List.map_cons, String.join_cons, ih, List.flatMap_cons, unlines_append, shareLines, unlines_cons, unlines_cons,
          renderShare_eq]
        simp [String.append_assoc]
  rw [fileText, hshares, fileLines, unlines_cons]
  rfl

theorem foldl_shares {shares : List Share} (hnames : ∀ share ∈ shares, share.name ≠ "")
    (hnodup : (shares.map Share.name).Nodup) :
    ((shares.flatMap shareLines).foldl Reading.line {}).flush.sections =
      shares.map fun share => (share.name, renderShare share) := by
  induction shares using List.reverseRecOn with
  | nil => rfl
  | append_singleton shares share ih =>
      rw [List.map_append] at hnodup
      obtain ⟨hearlier, -, hfresh⟩ := List.nodup_append.mp hnodup
      have hname := hnames share (List.mem_append_right _ List.mem_cons_self)
      have hsections := ih (fun other hother => hnames other (List.mem_append_left _ hother)) hearlier
      have hnot : share.name ∉ Dict.keys (shares.map fun share => (share.name, renderShare share)) := by
        intro hmem
        rw [Dict.keys, List.map_map] at hmem
        exact hfresh share.name hmem share.name (by simp) rfl
      rw [List.flatMap_append, List.flatMap_singleton, List.foldl_append, foldl_share hname, List.map_append]
      unfold Reading.flush at hsections ⊢
      dsimp only at hsections ⊢
      rw [if_pos hname, hsections, Dict.set_of_not_mem hnot]
      rfl

theorem split_unlines {lines : List String} (h : ∀ line ∈ lines, '\n' ∉ line.toList) :
    Text.split '\n' (unlines lines) = lines ++ [""] := by
  have hjoin : unlines lines = Text.join "\n" (lines ++ [""]) := by
    induction lines with
    | nil => rfl
    | cons line lines ih =>
        have hrest := ih fun other hother => h other (List.mem_cons_of_mem _ hother)
        have hparts : line :: lines ++ [""] = [line] ++ (lines ++ [""]) := rfl
        rw [unlines_cons, hrest, hparts, Text.join_append (List.cons_ne_nil line []) (by simp), Text.join_singleton]
  rw [hjoin]
  refine Text.split_join (by simp) fun line hline => ?_
  rcases List.mem_append.mp hline with hline | hline
  · exact h line hline
  · rw [List.mem_singleton.mp hline]
    exact List.not_mem_nil

theorem Accepted.name_ne (h : Accepted share) : share.name ≠ "" := by
  intro heq
  have hname := h.name
  rw [heq] at hname
  cases hname

theorem newline_settings (h : Accepted share) : ∀ line ∈ sectionLines share, '\n' ∉ line.toList := by
  have hkeys : ∀ entry ∈ settings share, '\n' ∉ entry.1.toList ∧ '\n' ∉ entry.2.toList := by
    have hcomment : '\n' ∉ (sanitise share.comment).toList := by
      rw [sanitise, String.toList_ofList]
      intro hmem
      exact absurd (List.mem_filter.mp hmem).2 (by decide)
    have hpath : '\n' ∉ share.path.toList := fun hmem =>
      absurd (FileShares.pathText_all h.path '\n' hmem) (by decide)
    have hyesNo : ∀ value, '\n' ∉ (yesNo value).toList := by decide
    intro entry hentry
    unfold settings at hentry
    rcases List.mem_append.mp hentry with hmem | hrest
    · split at hmem
      · rw [List.mem_singleton.mp hmem]
        dsimp only
        exact ⟨by decide, hcomment⟩
      · cases hmem
    · simp only [List.mem_cons, List.not_mem_nil, or_false] at hrest
      rcases hrest with rfl | rfl | rfl | rfl | rfl | rfl | rfl | rfl | rfl <;> dsimp only
      · exact ⟨by decide, hpath⟩
      · exact ⟨by decide, hyesNo _⟩
      · exact ⟨by decide, hyesNo _⟩
      all_goals exact ⟨by decide, by decide⟩
  intro line hline
  obtain ⟨entry, hentry, rfl⟩ := List.mem_map.mp hline
  obtain ⟨hkey, hvalue⟩ := hkeys entry hentry
  intro hmem
  have hcases : '\n' ∈ entry.1.toList ∨ '\n' ∈ entry.2.toList := by simpa [setting] using hmem
  exact hcases.elim hkey hvalue

theorem newline_fileLines {shares : List Share} (h : ∀ share ∈ shares, Accepted share) :
    ∀ line ∈ fileLines shares, '\n' ∉ line.toList := by
  intro line hline
  rcases List.mem_cons.mp hline with rfl | hline
  · decide
  · obtain ⟨share, hshare, hline⟩ := List.mem_flatMap.mp hline
    rcases List.mem_cons.mp hline with rfl | hline
    · exact List.not_mem_nil
    · rcases List.mem_cons.mp hline with rfl | hline
      · intro hmem
        have hname : '\n' ∈ share.name.toList := by simpa using hmem
        have hall : ∀ c ∈ share.name.toList, nameChar c = true :=
          Pattern.headed_all (fun c hc => by rw [nameChar, hc, Bool.true_or]) (h share hshare).name
        exact absurd (hall '\n' hname) (by decide)
      · exact newline_settings (h share hshare) line hline

theorem parse_fileText {shares : List Share} (h : ∀ share ∈ shares, Accepted share)
    (hnodup : (shares.map Share.name).Nodup) :
    parseSections (fileText shares) = shares.map fun share => (share.name, renderShare share) := by
  have hfirst : Reading.line {} "# Managed by Open Directory Manager. Edits here are overwritten." = {} := by decide
  rw [parseSections, fileText_eq, split_unlines (newline_fileLines h), List.foldl_append, List.foldl_cons, List.foldl_nil,
    line_blank, fileLines, List.foldl_cons, hfirst]
  exact foldl_shares (fun share hshare => (h share hshare).name_ne) hnodup

/-- Shares under their own names, each of which the agent takes. -/
structure Kept (shares : Shares) : Prop where
  keyed : Dict.Keyed Share.name shares
  accepted : ∀ entry ∈ shares, Accepted entry.2

theorem get_rendered (shares : Shares) (name : String) :
    Dict.get (rendered shares) name = (Dict.get shares name).map renderShare := by
  induction shares with
  | nil => rfl
  | cons entry shares ih =>
      obtain ⟨key, share⟩ := entry
      rw [rendered, List.map_cons, Dict.get_cons, Dict.get_cons, ← rendered, ih]
      split <;> rfl

theorem keys_rendered (shares : Shares) : Dict.keys (rendered shares) = Dict.keys shares := by
  rw [rendered, Dict.keys, Dict.keys, List.map_map]
  rfl

def ordered (shares : Shares) : List Share := (Dict.values shares).sortedBy Share.name

theorem Kept.rendered_eq (h : Kept shares) :
    rendered shares = (Dict.values shares).map fun share => (share.name, renderShare share) := by
  rw [rendered, Dict.values, List.map_map]
  refine List.map_congr_left fun entry hentry => ?_
  rw [Function.comp_apply, h.keyed.own entry hentry]

theorem Kept.names (h : Kept shares) : (Dict.values shares).map Share.name = Dict.keys shares := by
  rw [Dict.values, Dict.keys, List.map_map]
  exact List.map_congr_left fun entry hentry => h.keyed.own entry hentry

theorem Kept.names_ordered (h : Kept shares) :
    (ordered shares).map Share.name = (Dict.keys shares).sortedBy id := by
  have hperm : ((ordered shares).map Share.name).Perm ((Dict.keys shares).sortedBy id) := by
    refine ((List.perm_sortedBy Share.name (Dict.values shares)).map Share.name).trans ?_
    rw [h.names]
    exact (List.perm_sortedBy id _).symm
  refine List.Perm.eq_of_pairwise (fun a b _ _ hab hba => le_antisymm hab hba) ?_
    (List.pairwise_key_sortedBy id (Dict.keys shares)) hperm
  exact List.pairwise_map.mpr (List.pairwise_key_sortedBy Share.name (Dict.values shares))

theorem Kept.fileOf_rendered (h : Kept shares) : fileOf (rendered shares) = fileText (ordered shares) := by
  have hsections : ((Dict.keys (rendered shares)).sortedBy id).map
      (fun name => "\n" ++ (Dict.get (rendered shares) name).getD "") =
        (ordered shares).map fun share => "\n" ++ renderShare share := by
    rw [keys_rendered, ← h.names_ordered, List.map_map]
    refine List.map_congr_left fun share hshare => ?_
    have hvalue : share ∈ Dict.values shares := (List.perm_sortedBy _ _).mem_iff.mp hshare
    obtain ⟨entry, hentry, rfl⟩ := List.mem_map.mp hvalue
    have hget : Dict.get shares entry.2.name = some entry.2 := by
      rw [h.keyed.own entry hentry]
      exact Dict.get_of_mem h.keyed.nodup hentry
    rw [Function.comp_apply, get_rendered, hget]
    rfl
  rw [fileOf, hsections, fileText]

theorem Kept.holds (h : Kept shares) : Holds (some (fileOf (rendered shares))) shares := by
  have hnodup : ((ordered shares).map Share.name).Nodup := by
    rw [h.names_ordered]
    exact (List.perm_sortedBy id _).nodup_iff.mpr h.keyed.nodup
  have haccepted : ∀ share ∈ ordered shares, Accepted share := by
    intro share hshare
    obtain ⟨entry, hentry, rfl⟩ := List.mem_map.mp ((List.perm_sortedBy _ _).mem_iff.mp hshare)
    exact h.accepted entry hentry
  have hparse : sectionsOf (some (fileOf (rendered shares))) =
      (ordered shares).map fun share => (share.name, renderShare share) := by
    rw [sectionsOf, h.fileOf_rendered, parse_fileText haccepted hnodup]
  have hperm : (sectionsOf (some (fileOf (rendered shares)))).Perm (rendered shares) := by
    rw [hparse, h.rendered_eq]
    exact (List.perm_sortedBy Share.name (Dict.values shares)).map _
  have honce : (Dict.keys (sectionsOf (some (fileOf (rendered shares))))).Nodup := by
    refine (hperm.map Prod.fst).nodup_iff.mpr ?_
    have hkeys := keys_rendered shares
    rw [Dict.keys] at hkeys
    rw [hkeys]
    exact h.keyed.nodup
  exact ⟨.inr rfl, honce, fun name => by rw [Dict.get_perm hperm honce, get_rendered]⟩

theorem fileOf_congr {sections sections' : Sections} (h : (Dict.keys sections).Nodup) (h' : (Dict.keys sections').Nodup)
    (hget : ∀ name, Dict.get sections name = Dict.get sections' name) : fileOf sections = fileOf sections' := by
  have hkeys : (Dict.keys sections).Perm (Dict.keys sections') := (Dict.perm_of_get h h' hget).map Prod.fst
  have hnames : (Dict.keys sections).sortedBy id = (Dict.keys sections').sortedBy id :=
    List.sortedBy_eq_of_perm hkeys (by rwa [List.map_id])
  rw [fileOf, fileOf, hnames]
  congr 2
  exact List.map_congr_left fun name _ => by rw [hget]

theorem parseShare_ok {payload : Payload} (h : parseShare payload = .ok share) :
    Accepted share ∧ share.name = Text.strip goSpace payload.name := by
  unfold parseShare at h
  dsimp only at h
  split at h
  · cases h
  next hname =>
    split at h
    · cases h
    next hpath =>
      split at h
      · cases h
      · obtain ⟨acl, -, hshare⟩ := Except.bind_eq_ok.mp h
        obtain rfl := Except.ok.inj hshare
        rw [Bool.not_eq_true', Bool.not_eq_false] at hname
        rw [Bool.or_eq_true, not_or, Bool.not_eq_true', Bool.not_eq_false] at hpath
        exact ⟨⟨hname, hpath.1⟩, rfl⟩

theorem nodup_keys_erase {sections : Sections} (h : (Dict.keys sections).Nodup) (name : String) :
    (Dict.keys (Dict.erase sections name)).Nodup :=
  h.sublist (List.filter_sublist.map Prod.fst)

theorem Kept.set (h : Kept shares) (hshare : Accepted share) :
    Kept (Dict.set shares share.name share) := by
  refine ⟨h.keyed.set share, fun entry hentry => ?_⟩
  rcases Dict.mem_set hentry with rfl | hmem
  · exact hshare
  · exact h.accepted entry hmem

theorem Kept.erase (h : Kept shares) (name : String) : Kept (Dict.erase shares name) := by
  have hsub : ∀ entry ∈ Dict.erase shares name, entry ∈ shares := fun entry hentry => (List.mem_filter.mp hentry).1
  refine ⟨⟨?_, fun entry hentry => h.keyed.own entry (hsub entry hentry)⟩,
    fun entry hentry => h.accepted entry (hsub entry hentry)⟩
  exact h.keyed.nodup.sublist (List.filter_sublist.map Prod.fst)

theorem nodup_rendered (h : Kept shares) : (Dict.keys (rendered shares)).Nodup := by
  rw [keys_rendered]
  exact h.keyed.nodup

theorem Holds.next {file : Option String} (h : Holds file shares) (hkept : Kept shares)
    (request : Request) : Holds (step file request) (record shares request) ∧ Kept (record shares request) := by
  cases request with
  | apply payload reached =>
      dsimp only [step, record]
      cases hparse : parseShare payload with
      | error refusal => exact ⟨h, hkept⟩
      | ok share =>
          cases reached with
          | false => exact ⟨h, hkept⟩
          | true =>
              dsimp only
              rw [if_pos rfl, if_pos rfl]
              have hset := hkept.set (parseShare_ok hparse).1
              have hfile : fileOf (Dict.set (sectionsOf file) share.name (renderShare share)) =
                  fileOf (rendered (Dict.set shares share.name share)) := by
                refine fileOf_congr (Dict.nodup_keys_set h.once _ _) (nodup_rendered hset) fun name => ?_
                rw [Dict.get_set, get_rendered, Dict.get_set, h.parsed]
                split <;> rfl
              rw [hfile]
              exact ⟨hset.holds, hset⟩
  | remove name reached =>
      dsimp only [step, record]
      split
      · have herase := hkept.erase (Text.strip goSpace name)
        have hfile : fileOf (Dict.erase (sectionsOf file) (Text.strip goSpace name)) =
            fileOf (rendered (Dict.erase shares (Text.strip goSpace name))) := by
          refine fileOf_congr (nodup_keys_erase h.once _) (nodup_rendered herase) fun other => ?_
          rw [Dict.get_erase, get_rendered, Dict.get_erase, h.parsed]
          split <;> rfl
        rw [hfile]
        exact ⟨herase.holds, herase⟩
      · exact ⟨h, hkept⟩

theorem run_append (requests : List Request) (request : Request) :
    run (requests ++ [request]) = step (run requests) request := by
  rw [run, List.foldl_append]
  rfl

theorem applied_append (requests : List Request) (request : Request) :
    applied (requests ++ [request]) = record (applied requests) request := by
  rw [applied, List.foldl_append]
  rfl

theorem holds_run (requests : List Request) : Holds (run requests) (applied requests) ∧ Kept (applied requests) := by
  induction requests using List.reverseRecOn with
  | nil =>
      refine ⟨⟨.inl ⟨rfl, rfl⟩, List.nodup_nil, fun _ => rfl⟩, ⟨List.nodup_nil, ?_⟩, ?_⟩
      · exact fun _ h => absurd h List.not_mem_nil
      · exact fun _ h => absurd h List.not_mem_nil
  | append_singleton requests request ih =>
      rw [run_append, applied_append]
      exact ih.1.next ih.2 request

theorem get_record {request : Request} {name : String} (h : name ≠ request.name) :
    Dict.get (record shares request) name = Dict.get shares name := by
  cases request with
  | apply payload reached =>
      dsimp only [record]
      cases hparse : parseShare payload with
      | error refusal => rfl
      | ok share =>
          cases reached with
          | false => rfl
          | true =>
              refine Dict.get_set_of_ne _ _ fun heq => h ?_
              rw [← heq, (parseShare_ok hparse).2]
              rfl
  | remove other reached =>
      dsimp only [record]
      split
      · rw [Dict.get_erase, if_neg fun heq => h heq.symm]
      · rfl

/-- Whatever shares are applied and removed, the file has the sections of those that are shared, and a request changes the
section of its own share at most. -/
theorem sections_of_run (requests : List Request) :
    Holds (run requests) (applied requests) ∧
    ∀ request name, name ≠ Request.name request →
      Dict.get (sectionsOf (run (requests ++ [request]))) name = Dict.get (sectionsOf (run requests)) name := by
  refine ⟨(holds_run requests).1, fun request name hname => ?_⟩
  have hlater := (holds_run (requests ++ [request])).1.parsed name
  rw [hlater, (holds_run requests).1.parsed, applied_append, get_record hname]

end OpenDirectory.ShareSections
