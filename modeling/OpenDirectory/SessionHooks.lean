import OpenDirectory.FactorLines

/-! The profile hook in the session stack of the remote desktop, beside the agent's access section in the same file: two
editors, one that goes by markers and one that goes by the text of its lines. -/

namespace OpenDirectory.SessionHook

open Agent (accessFileFor begun blockEnd blockStart ended goSpace mustFollow outsideBlocks replaced section_ stripBlock)
open FactorLines (managed)

def profileScript : String := "/etc/odm/rd-profile.sh"

def hookLine : String := "session required pam_exec.so " ++ profileScript

/-- A copy of the hook, wherever it was put. -/
def names (line : String) : Bool := Text.holds line profileScript

def dropped (line : String) : Bool := names line || line = managed

def keptLines (lines : List String) : List String := lines.filter fun line => !dropped line

/-- A line the hook has to come before. -/
def stops (line : String) : Bool :=
  let trimmed := Text.strip goSpace line
  Text.startsWith trimmed "@include common-session" || Text.holds trimmed "pam_mkhomedir.so"

def hooked (lines : List String) : List String :=
  let kept := keptLines lines
  let before := kept.takeWhile fun line => !stops line
  before ++ managed :: hookLine :: kept.drop before.length

def ensurePamHook (content : String) : String := Text.join "\n" (hooked (Text.split '\n' content))

/-- The file with the hook's lines taken out. -/
def unhooked (content : String) : String := Text.join "\n" (keptLines (Text.split '\n' content))

def accessLine : String := "account required pam_access.so accessfile=" ++ accessFileFor "rdp"

def accessBlock : String := accessLine ++ "\n"

def sectionLines : List String := [blockStart, accessLine, blockEnd]

theorem sectionLines_ne_nil : sectionLines ≠ [] := List.cons_ne_nil _ _

/-- The file with the section put in. -/
def gated (content : String) : String := replaced content accessBlock

/-- The lines that are not the hook's: it owns every line that names its script, and the header right above one. -/
def foreign : List String → List String
  | [] => []
  | line :: rest =>
      if names line || (line = managed && rest.head?.any names) then foreign rest else line :: foreign rest

/-- A line by which PAM goes through the common session stack. -/
def includesSession (line : String) : Bool :=
  match Text.fields goSpace line with
  | "@include" :: name :: _ => Text.startsWith name "common-session"
  | kind :: control :: name :: _ =>
      !Text.startsWith kind "#" && (control = "include" || control = "substack") && Text.startsWith name "common-session"
  | _ => false

/-- What is in the file besides both. -/
def rest (content : String) : List String := foreign (Text.split '\n' (outsideBlocks content))

/-- Each of the two is in the file, and still there when the other is taken out. -/
structure Apart (content : String) : Prop where
  both : sectionLines <:+: Text.split '\n' content
  unhooked : sectionLines <:+: Text.split '\n' (unhooked content)
  stripped : (Text.split '\n' (stripBlock content)).filter names = [hookLine]

/-- What has to hold of a file. The section is put into a file that has none; and the hook into one that has none. -/
structure Orderly (content : String) : Prop where
  kept : foreign (Text.split '\n' (ensurePamHook content)) = foreign (Text.split '\n' content)
  once : (Text.split '\n' (ensurePamHook content)).filter names = [hookLine]
  first : ∀ line ∈ (Text.split '\n' (ensurePamHook content)).takeWhile (fun line => !names line),
    includesSession line = false ∧ mustFollow line = false
  again : ensurePamHook (ensurePamHook content) = ensurePamHook content
  either : begun content = false → (∀ line ∈ Text.split '\n' content, names line = false) →
    rest (ensurePamHook (gated content)) = rest (gated (ensurePamHook content))
  apart : begun content = false → Apart (ensurePamHook (gated content)) ∧ Apart (gated (ensurePamHook content))

/-- Every header stands right above a line of the hook's. -/
def Headed : List String → Prop
  | [] => True
  | line :: rest => (line = managed → rest.head?.any names = true) ∧ Headed rest

/-- The two places: the line the hook comes before is not the one the section comes before with an empty line above it;
and where no line is looked for, the file's last line is not ended. -/
def Placed (content : String) : Prop :=
  match (Text.split '\n' content).dropWhile fun line => !stops line with
  | [] => ¬ Text.WholeLines content.toList
  | line :: _ => mustFollow line = true →
      ((Text.split '\n' content).takeWhile fun line => !stops line).getLast? ≠ some ""

structure Fits (content : String) : Prop where
  headed : Headed (Text.split '\n' content)
  spelled : ∀ line ∈ (keptLines (Text.split '\n' content)).takeWhile (fun line => !stops line), includesSession line = false
  placed : begun content = false → (∀ line ∈ Text.split '\n' content, names line = false) → Placed content

theorem toList_hookLine : hookLine.toList = "session required pam_exec.so ".toList ++ profileScript.toList :=
  String.toList_append

theorem names_hookLine : names hookLine = true := by
  rw [names, Agent.holds_iff (by decide), toList_hookLine]
  exact (List.suffix_append _ _).isInfix

theorem holds_of_not_mem {content mark : String} {c : Char} (hmark : c ∈ mark.toList) (hcontent : c ∉ content.toList) :
    Text.holds content mark = false := by
  rw [Agent.holds_false_iff (List.ne_nil_of_mem hmark)]
  exact fun hfound => hcontent (hfound.subset hmark)

theorem names_of_not_mem {line : String} (h : 'h' ∉ line.toList) : names line = false :=
  holds_of_not_mem (by decide) h

theorem names_managed : names managed = false := holds_of_not_mem (c := '/') (by decide) (by decide)

theorem dropped_hookLine : dropped hookLine = true := by rw [dropped, names_hookLine, Bool.true_or]

theorem dropped_managed : dropped managed = true := by
  rw [dropped, decide_eq_true rfl, Bool.or_true]

theorem mem_keptLines {line : String} {lines : List String} :
    line ∈ keptLines lines ↔ line ∈ lines ∧ dropped line = false := by
  rw [keptLines, List.mem_filter, Bool.not_eq_true']

theorem keptLines_append (xs ys : List String) : keptLines (xs ++ ys) = keptLines xs ++ keptLines ys :=
  List.filter_append ..

theorem keptLines_eq_self {lines : List String} (h : ∀ line ∈ lines, dropped line = false) : keptLines lines = lines :=
  List.filter_eq_self.mpr fun line hline => by rw [h line hline]; rfl

theorem hooked_eq (lines : List String) : ∃ front rear, keptLines lines = front ++ rear ∧
    front = (keptLines lines).takeWhile (fun line => !stops line) ∧
      rear = (keptLines lines).dropWhile (fun line => !stops line) ∧
      hooked lines = front ++ managed :: hookLine :: rear := by
  refine ⟨_, _, List.takeWhile_append_dropWhile.symm, rfl, rfl, ?_⟩
  rw [hooked, Text.drop_length_takeWhile]

theorem keptLines_hooked (lines : List String) : keptLines (hooked lines) = keptLines lines := by
  obtain ⟨front, rear, hkept, -, -, heq⟩ := hooked_eq lines
  have hnone : ∀ line ∈ front ++ rear, dropped line = false := by
    intro line hline
    rw [← hkept] at hline
    exact (mem_keptLines.mp hline).2
  have hown : keptLines (managed :: hookLine :: rear) = keptLines rear := by
    rw [keptLines, List.filter_cons_of_neg (by rw [dropped_managed]; decide),
      List.filter_cons_of_neg (by rw [dropped_hookLine]; decide)]
    rfl
  rw [heq, keptLines_append, hown, ← keptLines_append, keptLines_eq_self hnone, hkept]

theorem hooked_hooked (lines : List String) : hooked (hooked lines) = hooked lines := by
  rw [hooked, keptLines_hooked]
  rfl

theorem filter_names_hooked (lines : List String) : (hooked lines).filter names = [hookLine] := by
  obtain ⟨front, rear, hkept, -, -, heq⟩ := hooked_eq lines
  have hnone : ∀ line ∈ front ++ rear, ¬ names line = true := by
    intro line hline hnames
    rw [← hkept] at hline
    have hdropped := (mem_keptLines.mp hline).2
    rw [dropped, hnames] at hdropped
    cases hdropped
  rw [heq, List.filter_append, List.filter_cons_of_neg (by rw [names_managed]; decide),
    List.filter_cons_of_pos names_hookLine,
    List.filter_eq_nil_iff.mpr fun line hline => hnone line (List.mem_append_left _ hline),
    List.filter_eq_nil_iff.mpr fun line hline => hnone line (List.mem_append_right _ hline), List.nil_append]

theorem keptLines_sublist_foreign (lines : List String) : (keptLines lines).Sublist (foreign lines) := by
  induction lines with
  | nil => exact List.Sublist.slnil
  | cons line lines ih =>
      rw [foreign]
      split_ifs with hown
      · have hdropped : dropped line = true := by
          rw [dropped]
          rcases Bool.or_eq_true_iff.mp hown with hnames | hheader
          · rw [hnames, Bool.true_or]
          · rw [(Bool.and_eq_true_iff.mp hheader).1, Bool.or_true]
        rw [keptLines, List.filter_cons_of_neg (by rw [hdropped]; decide)]
        exact ih
      · by_cases hdropped : dropped line = true
        · rw [keptLines, List.filter_cons_of_neg (by rw [hdropped]; decide)]
          exact ih.cons _
        · rw [keptLines, List.filter_cons_of_pos (by rw [Bool.eq_false_iff.mpr hdropped]; rfl)]
          exact ih.cons_cons _

theorem foreign_eq_keptLines_iff (lines : List String) : foreign lines = keptLines lines ↔ Headed lines := by
  induction lines with
  | nil => exact ⟨fun _ => trivial, fun _ => rfl⟩
  | cons line lines ih =>
      rw [foreign, Headed, ← ih]
      by_cases hnames : names line = true
      · have hne : line ≠ managed := by
          rintro rfl
          rw [names_managed] at hnames
          cases hnames
        rw [if_pos (by rw [hnames, Bool.true_or]), keptLines,
          List.filter_cons_of_neg (by rw [dropped, hnames, Bool.true_or]; decide)]
        exact ⟨fun h => ⟨fun heq => absurd heq hne, h⟩, And.right⟩
      · by_cases hheader : line = managed
        · rw [Bool.eq_false_iff.mpr hnames, decide_eq_true hheader, Bool.false_or, Bool.true_and, keptLines,
            List.filter_cons_of_neg (by rw [hheader, dropped_managed]; decide)]
          split_ifs with hnext
          · exact ⟨fun h => ⟨fun _ => hnext, h⟩, And.right⟩
          · refine iff_of_false (fun h => ?_) fun h => hnext (h.1 hheader)
            have hlength := (keptLines_sublist_foreign lines).length_le
            have hlonger : (foreign lines).length + 1 = (keptLines lines).length := congrArg List.length h
            omega
        · rw [Bool.eq_false_iff.mpr hnames, decide_eq_false hheader, Bool.false_or, Bool.false_and,
            if_neg Bool.false_ne_true, keptLines, List.filter_cons_of_pos (by
              rw [dropped, Bool.eq_false_iff.mpr hnames, decide_eq_false hheader]; rfl), List.cons_inj_right]
          exact ⟨fun h => ⟨fun heq => absurd heq hheader, h⟩, And.right⟩

variable {front rear xs ys : List String} {content : String}

theorem foreign_hook (h : ∀ line ∈ front ++ rear, dropped line = false) :
    foreign (front ++ managed :: hookLine :: rear) = front ++ rear := by
  have hplain : ∀ lines : List String, (∀ line ∈ lines, dropped line = false) → foreign lines = lines := by
    intro lines hlines
    have hheaded : ∀ lines : List String, (∀ line ∈ lines, dropped line = false) → Headed lines := by
      intro lines
      induction lines with
      | nil => exact fun _ => trivial
      | cons line lines ih =>
          intro hall
          refine ⟨fun heq => ?_, ih fun other hother => hall other (List.mem_cons_of_mem _ hother)⟩
          have hfalse := hall line List.mem_cons_self
          rw [heq, dropped_managed] at hfalse
          cases hfalse
    rw [(foreign_eq_keptLines_iff lines).mpr (hheaded lines hlines), keptLines_eq_self hlines]
  induction front with
  | nil =>
      rw [List.nil_append, List.nil_append, foreign, if_pos, foreign, if_pos]
      · exact hplain rear h
      · rw [names_hookLine, Bool.true_or]
      · rw [List.head?_cons, Option.any_some, names_hookLine, decide_eq_true rfl, Bool.true_and, Bool.or_true]
  | cons line front ih =>
      have hline := h line List.mem_cons_self
      rw [dropped, Bool.or_eq_false_iff] at hline
      rw [List.cons_append, foreign, if_neg, ih fun other hother => h other (List.mem_cons_of_mem _ hother),
        List.cons_append]
      rw [hline.1, hline.2, Bool.false_and, Bool.or_false]
      exact Bool.false_ne_true

theorem dropped_of_mem_kept {lines : List String} (h : keptLines lines = front ++ rear) :
    ∀ line ∈ front ++ rear, dropped line = false := by
  intro line hline
  rw [← h] at hline
  exact (mem_keptLines.mp hline).2

theorem foreign_hooked (lines : List String) : foreign (hooked lines) = keptLines lines := by
  obtain ⟨front, rear, hkept, -, -, heq⟩ := hooked_eq lines
  rw [heq, foreign_hook (dropped_of_mem_kept hkept), hkept]

theorem hooked_append_of_none (h : ∀ line ∈ keptLines xs, stops line = false) (ys : List String) :
    hooked (xs ++ ys) = keptLines xs ++ hooked ys := by
  have hpass : ∀ line ∈ keptLines xs, (!stops line) = true := by
    intro line hline
    rw [h line hline]
    rfl
  rw [hooked, hooked, keptLines_append, List.takeWhile_append_of_pos hpass, Text.drop_length_takeWhile, List.append_assoc,
    List.length_append, List.drop_append, List.drop_eq_nil_of_le (Nat.le_add_right _ _), Nat.add_sub_cancel_left,
    List.nil_append, Text.drop_length_takeWhile]

theorem hooked_append_of_some (h : ∃ line ∈ keptLines xs, stops line = true) (ys : List String) :
    hooked (xs ++ ys) = hooked xs ++ keptLines ys := by
  obtain ⟨found, hfound, hstops⟩ := h
  have hlt : ((keptLines xs).takeWhile fun line => !stops line).length < (keptLines xs).length := by
    refine lt_of_le_of_ne (List.takeWhile_prefix _).length_le fun hlength => ?_
    have hall := (List.takeWhile_prefix (fun line => !stops line)).eq_of_length hlength
    have hpass := List.mem_takeWhile_imp (p := fun line => !stops line) (l := keptLines xs) (hall.symm ▸ hfound)
    rw [hstops] at hpass
    cases hpass
  have htake : (keptLines xs ++ keptLines ys).takeWhile (fun line => !stops line) =
      (keptLines xs).takeWhile fun line => !stops line := by
    rw [List.takeWhile_append, if_neg (Nat.ne_of_lt hlt)]
  rw [hooked, hooked, keptLines_append, htake, List.drop_append_of_le_length (Nat.le_of_lt hlt), List.append_assoc]
  rfl

theorem newline_of_kept {lines : List String} (h : ∀ line ∈ lines, '\n' ∉ line.toList) :
    ∀ line ∈ hooked lines, '\n' ∉ line.toList := by
  obtain ⟨front, rear, hkept, -, -, heq⟩ := hooked_eq lines
  have hold : ∀ line ∈ front ++ rear, '\n' ∉ line.toList := by
    intro line hline
    rw [← hkept] at hline
    exact h line (mem_keptLines.mp hline).1
  intro line hline
  rw [heq] at hline
  rcases List.mem_append.mp hline with hfront | hrest
  · exact hold line (List.mem_append_left _ hfront)
  · rcases List.mem_cons.mp hrest with rfl | hrest
    · decide
    · rcases List.mem_cons.mp hrest with rfl | hrear
      · decide
      · exact hold line (List.mem_append_right _ hrear)

theorem hooked_ne_nil (lines : List String) : hooked lines ≠ [] :=
  List.append_ne_nil_of_right_ne_nil _ (List.cons_ne_nil _ _)

theorem split_ensurePamHook (content : String) : Text.split '\n' (ensurePamHook content) = hooked (Text.split '\n' content) :=
  Text.split_join (hooked_ne_nil _) (newline_of_kept fun _ hline => Text.mem_split hline)

theorem join_filled (xs : List String) (h : ys ≠ []) :
    Text.join "\n" (xs ++ ys) = Text.join "\n" (xs ++ [""]) ++ Text.join "\n" ys := by
  by_cases hxs : xs = []
  · rw [hxs, List.nil_append, List.nil_append, Text.join_singleton, String.empty_append]
  · rw [Text.join_append hxs h, Text.join_append hxs (List.cons_ne_nil _ _), Text.join_singleton, String.append_empty]

theorem whole_filled (xs : List String) : Text.WholeLines (Text.join "\n" (xs ++ [""])).toList := by
  by_cases hxs : xs = []
  · rw [hxs]
    exact .inl rfl
  · rw [Text.join_append hxs (List.cons_ne_nil _ _), Text.join_singleton, String.append_empty, String.toList_append]
    exact .inr ⟨_, rfl⟩

theorem toList_accessLine : accessLine.toList = "account required pam_access.so accessfile=".toList ++
    ("/etc/security/odm-access-".toList ++ "rdp".toList ++ ".conf".toList) := by
  have happend : ∀ front rear : String, (front ++ rear).toList = front.toList ++ rear.toList :=
    fun _ _ => String.toList_append
  have hfile : (accessFileFor "rdp").toList = "/etc/security/odm-access-".toList ++ "rdp".toList ++ ".conf".toList := by
    unfold accessFileFor
    exact (happend _ ".conf").trans (congrArg (· ++ _) (happend "/etc/security/odm-access-" "rdp"))
  unfold accessLine
  exact (happend _ _).trans (congrArg _ hfile)

theorem not_mem_accessLine {c : Char} (hstart : c ∉ "account required pam_access.so accessfile=".toList)
    (hrest : c ∉ "/etc/security/odm-access-".toList ++ "rdp".toList ++ ".conf".toList) : c ∉ accessLine.toList := by
  rw [toList_accessLine]
  exact fun hmem => (List.mem_append.mp hmem).elim hstart hrest

theorem forall_mem_sectionLines {p : String → Prop} (hstart : p blockStart) (hline : p accessLine) (hend : p blockEnd) :
    ∀ line ∈ sectionLines, p line :=
  List.forall_mem_cons.mpr ⟨hstart, List.forall_mem_cons.mpr ⟨hline, List.forall_mem_singleton.mpr hend⟩⟩

theorem join_sectionLines : Text.join "\n" sectionLines = blockStart ++ "\n" ++ accessBlock ++ blockEnd := by
  have hpair : Text.join "\n" [accessLine, blockEnd] = accessLine ++ "\n" ++ blockEnd :=
    @Text.join_append [accessLine] [blockEnd] (List.cons_ne_nil _ _) (List.cons_ne_nil _ _)
  have hthree : Text.join "\n" sectionLines = blockStart ++ "\n" ++ Text.join "\n" [accessLine, blockEnd] :=
    @Text.join_append [blockStart] [accessLine, blockEnd] (List.cons_ne_nil _ _) (List.cons_ne_nil _ _)
  rw [hthree, hpair, accessBlock]
  simp only [String.append_assoc]

theorem opening_accessBlock : Agent.opening accessBlock = blockStart ++ "\n" ++ accessBlock := by
  have hends : Text.endsWith accessBlock "\n" = true :=
    Agent.endsWith_newline.mpr ⟨accessLine.toList, by rw [accessBlock, String.toList_append]; rfl⟩
  rw [Agent.opening, if_pos hends]

theorem section_accessBlock : section_ accessBlock = Text.join "\n" sectionLines ++ "\n" := by
  rw [Agent.section_eq, opening_accessBlock, join_sectionLines]

theorem plain_accessBlock : Agent.Plain accessBlock := by
  have hletter : 'B' ∉ accessBlock.toList := by
    rw [accessBlock, String.toList_append]
    intro hmem
    rcases List.mem_append.mp hmem with hline | hnewline
    · exact not_mem_accessLine (by decide) (by decide) hline
    · exact absurd hnewline (by decide)
  exact ⟨holds_of_not_mem (by decide) hletter, holds_of_not_mem (by decide) hletter⟩

theorem join_section (xs : List String) (h : ys ≠ []) :
    Text.join "\n" (xs ++ sectionLines ++ ys) =
      Text.join "\n" (xs ++ [""]) ++ section_ accessBlock ++ Text.join "\n" ys := by
  rw [List.append_assoc, join_filled xs (List.append_ne_nil_of_left_ne_nil sectionLines_ne_nil _),
    Text.join_append sectionLines_ne_nil h, section_accessBlock]
  simp only [String.append_assoc]

theorem begun_join {lines : List String} : begun (Text.join "\n" lines) = false ↔
    ∀ line ∈ lines, ¬ blockStart.toList <:+: line.toList := by
  rw [begun, Agent.holds_false_iff (by decide), Text.infix_join_iff Agent.newline_notMem_blockStart (by decide)]
  push Not
  rfl

/-- No line has a begin marker in it. -/
def Unbegun (lines : List String) : Prop := ∀ line ∈ lines, ¬ blockStart.toList <:+: line.toList

theorem begun_filled {lines : List String} (h : Unbegun lines) : begun (Text.join "\n" (lines ++ [""])) = false := by
  refine begun_join.mpr fun line hline => ?_
  rcases List.mem_append.mp hline with hold | hempty
  · exact h line hold
  · rw [List.mem_singleton.mp hempty]
    decide

/-- A section among lines, with some behind it: what is outside, and what is left when it is taken out. -/
theorem outside_section (hxs : Unbegun xs) (hys : Unbegun ys) (hne : ys ≠ []) :
    outsideBlocks (Text.join "\n" (xs ++ sectionLines ++ ys)) = Text.join "\n" (xs ++ ys) ∧
      stripBlock (Text.join "\n" (xs ++ sectionLines ++ ys)) = Text.join "\n" (xs ++ ys) := by
  rw [join_section xs hne, join_filled xs hne]
  exact ⟨(Agent.outsideBlocks_section (whole_filled xs) (begun_filled hxs) plain_accessBlock (begun_join.mpr hys)).1,
    Agent.stripBlock_section (whole_filled xs) (begun_filled hxs) plain_accessBlock⟩

theorem strip_last (hxs : Unbegun xs) :
    stripBlock (Text.join "\n" (xs ++ sectionLines)) = Text.join "\n" (xs ++ [""]) := by
  have htext : Text.join "\n" (xs ++ sectionLines) =
      Text.join "\n" (xs ++ [""]) ++ (Agent.opening accessBlock ++ blockEnd) := by
    rw [join_filled xs sectionLines_ne_nil, join_sectionLines, opening_accessBlock]
  have hnone := (Agent.holds_false_iff (by decide)).mp (begun_filled hxs)
  have hwhole := whole_filled xs
  generalize Text.join "\n" (xs ++ [""]) = before at *
  obtain ⟨rest, hrest⟩ : ∃ rest, (Agent.opening accessBlock ++ blockEnd).toList = blockStart.toList ++ rest := by
    exact ⟨_, by rw [Agent.opening, String.toList_append, String.toList_append, String.toList_append, List.append_assoc,
      List.append_assoc]⟩
  have hstart : Text.cutAt blockStart.toList (before ++ (Agent.opening accessBlock ++ blockEnd)).toList =
      some (before.toList, rest) := by
    rw [String.toList_append, hwhole.cutAt Agent.newline_notMem_blockStart (by decide) hnone, hrest,
      Text.cutAt_self (by decide)]
    simp
  have hend : Text.cutAt blockEnd.toList (Agent.opening accessBlock ++ blockEnd).toList =
      some ((Agent.opening accessBlock).toList, []) := by
    rw [String.toList_append, (Agent.whole_opening accessBlock).cutAt Agent.newline_notMem_blockEnd (by decide)
      (Agent.opening_unended plain_accessBlock)]
    have hself := @Text.cutAt_self blockEnd.toList [] (by decide)
    rw [List.append_nil] at hself
    rw [hself]
    simp
  rw [htext, stripBlock, hstart]
  have hdrop : (before ++ (Agent.opening accessBlock ++ blockEnd)).toList.drop before.toList.length =
      (Agent.opening accessBlock ++ blockEnd).toList := by
    rw [String.toList_append, List.drop_left]
  dsimp only
  rw [hdrop, hend]
  simp

/-- The empty line that an ended last line leaves behind it. -/
def tailOf (lines : List String) : List String := if lines.getLast? = some "" then [] else [""]

/-- The lines around the section once it is put in. -/
def outOf (lines : List String) : List String :=
  let before := lines.takeWhile fun line => !mustFollow line
  let after := lines.dropWhile fun line => !mustFollow line
  (if before.getLast? = some "" ∧ after ≠ [] then before.dropLast else before) ++ after ++ tailOf lines

theorem whole_iff_last (content : String) :
    Text.WholeLines content.toList ↔ (Text.split '\n' content).getLast? = some "" := by
  have hjoin := Agent.whole_join_iff (Text.split_ne_nil content) fun _ hline => Text.mem_split hline
  rwa [Text.join_split] at hjoin

theorem split_ended (content : String) :
    Text.split '\n' (ended content) = Text.split '\n' content ++ tailOf (Text.split '\n' content) := by
  unfold tailOf
  split_ifs with hlast
  · rw [Agent.ended_of_whole ((whole_iff_last content).mpr hlast), List.append_nil]
  · rw [Agent.ended_of_not_whole (mt (whole_iff_last content).mp hlast), show content ++ "\n" = content ++ "\n" ++ "" from
      String.append_empty.symm, Text.split_append]
    rfl

theorem gated_eq (h : begun content = false) : ∃ xs ys, ys ≠ [] ∧
    gated content = Text.join "\n" (xs ++ sectionLines ++ ys) ∧ xs ++ ys = outOf (Text.split '\n' content) := by
  have hplace : gated content = Agent.place (ended content) (section_ accessBlock) := by
    rw [gated, replaced, if_neg (by decide), Agent.stripBlock_unbegun h]
  have hsplit := split_ended content
  rw [hplace, Agent.place_eq, outOf, ← Agent.following_eq_dropWhile]
  change ∃ xs ys, _ ∧ _ ∧ _ = (if (Agent.leading content).getLast? = some "" ∧ Agent.following content ≠ [] then
    (Agent.leading content).dropLast else Agent.leading content) ++ Agent.following content ++ _
  have hparts := Agent.split_eq_leading_append content
  have hparts' := Agent.split_eq_leading_append (ended content)
  by_cases hnone : Agent.following content = []
  · have hnone' := (Agent.following_ended content).mpr hnone
    have hlast := (whole_iff_last (ended content)).mp (Agent.whole_ended content)
    refine ⟨(Text.split '\n' (ended content)).dropLast, [""], List.cons_ne_nil _ _, ?_, ?_⟩
    · rw [join_section _ (List.cons_ne_nil _ _), List.dropLast_append_getLast? _ hlast, Text.join_split, Agent.placeBefore,
        if_pos hnone', Agent.placeAfter, hnone']
      rfl
    · rw [List.dropLast_append_getLast? _ hlast, hsplit, if_neg fun hand => hand.2 hnone, ← hparts]
  · have hsome : Agent.following (ended content) ≠ [] := mt (Agent.following_ended content).mp hnone
    have hleading := Agent.leading_ended hnone
    have hfollowing : Agent.following (ended content) = Agent.following content ++ tailOf (Text.split '\n' content) := by
      refine @List.append_cancel_left _ (Agent.leading content) _ _ ?_
      rw [← hleading, ← hparts', hsplit, hleading, ← List.append_assoc, ← hparts]
    rw [Agent.placeBefore_eq _ hsome, Agent.placeAfter, hleading]
    by_cases hempty : Agent.leading content = []
    · refine ⟨[], Agent.following (ended content), hsome, ?_, ?_⟩
      · rw [if_pos hempty, join_section _ hsome]
        rfl
      · rw [hempty, if_neg fun hand => absurd hand.1 (by simp), hfollowing]
        rfl
    · rw [if_neg hempty]
      by_cases hlast : (Agent.leading content).getLast? = some ""
      · refine ⟨(Agent.leading content).dropLast, Agent.following (ended content), hsome, ?_, ?_⟩
        · rw [if_pos hlast, join_section _ hsome, List.dropLast_append_getLast? _ hlast]
        · rw [if_pos ⟨hlast, hnone⟩, hfollowing, List.append_assoc]
      · refine ⟨Agent.leading content, Agent.following (ended content), hsome, ?_, ?_⟩
        · rw [if_neg hlast, join_section _ hsome, Text.join_append hempty (List.cons_ne_nil _ _), Text.join_singleton,
            String.append_empty]
        · rw [if_neg fun hand => hlast hand.1, hfollowing, List.append_assoc]

theorem mem_of_outOf {lines : List String} {line : String} (h : line ∈ outOf lines) : line ∈ lines ∨ line = "" := by
  rw [outOf] at h
  rcases List.mem_append.mp h with hfront | htail
  · rcases List.mem_append.mp hfront with hbefore | hafter
    · refine .inl ((List.takeWhile_prefix fun line => !mustFollow line).subset ?_)
      split_ifs at hbefore
      · exact List.dropLast_subset _ hbefore
      · exact hbefore
    · exact .inl ((List.dropWhile_suffix _).subset hafter)
  · unfold tailOf at htail
    split_ifs at htail
    · cases htail
    · exact .inr (List.mem_singleton.mp htail)

theorem newline_outOf {line : String} (hline : line ∈ outOf (Text.split '\n' content)) : '\n' ∉ line.toList := by
  rcases mem_of_outOf hline with hold | rfl
  · exact Text.mem_split hold
  · decide

theorem unbegun_split (h : begun content = false) : Unbegun (Text.split '\n' content) := by
  rw [← Text.join_split content] at h
  exact begun_join.mp h

theorem unbegun_outOf {lines : List String} (h : Unbegun lines) : Unbegun (outOf lines) := by
  intro line hline
  rcases mem_of_outOf hline with hold | rfl
  · exact h line hold
  · decide

theorem filter_names_outOf (lines : List String) : (outOf lines).filter names = lines.filter names := by
  have hempty : names "" = false := by decide
  have htail : (tailOf lines).filter names = [] := by
    unfold tailOf
    split_ifs
    · rfl
    · rw [List.filter_cons_of_neg (by rw [hempty]; decide), List.filter_nil]
  have hparts := List.takeWhile_append_dropWhile (p := fun line => !mustFollow line) (l := lines)
  rw [outOf]
  generalize lines.takeWhile (fun line => !mustFollow line) = before at *
  generalize lines.dropWhile (fun line => !mustFollow line) = after at *
  rw [List.filter_append, List.filter_append, htail, List.append_nil, ← hparts, List.filter_append]
  split_ifs with hlast
  · rw [← List.dropLast_append_getLast? _ hlast.1, List.filter_append, List.filter_cons_of_neg (by rw [hempty]; decide),
      List.filter_nil, List.append_nil, List.dropLast_append_getLast? _ hlast.1]
  · rfl

theorem split_section (hxs : ∀ line ∈ xs, '\n' ∉ line.toList) (hys : ∀ line ∈ ys, '\n' ∉ line.toList) :
    Text.split '\n' (Text.join "\n" (xs ++ sectionLines ++ ys)) = xs ++ sectionLines ++ ys := by
  have hown : ∀ line ∈ sectionLines, '\n' ∉ line.toList :=
    forall_mem_sectionLines (by decide) (not_mem_accessLine (by decide) (by decide)) (by decide)
  refine Text.split_join (List.append_ne_nil_of_left_ne_nil (List.append_ne_nil_of_right_ne_nil _ sectionLines_ne_nil) _) ?_
  intro line hline
  rcases List.mem_append.mp hline with hleft | hright
  · rcases List.mem_append.mp hleft with hbefore | hsection
    · exact hxs line hbefore
    · exact hown line hsection
  · exact hys line hright

theorem head_accessLine : accessLine.toList.head? = some 'a' := by
  rw [toList_accessLine]
  rfl

theorem keptLines_section : keptLines sectionLines = sectionLines := by
  have hne : accessLine ≠ managed := by
    intro heq
    have hhead := head_accessLine
    rw [heq] at hhead
    exact absurd hhead (by decide)
  refine keptLines_eq_self (forall_mem_sectionLines ?_ ?_ ?_)
  · rw [dropped, names_of_not_mem (by decide), decide_eq_false (by decide)]
    rfl
  · rw [dropped, names_of_not_mem (not_mem_accessLine (by decide) (by decide)), decide_eq_false hne]
    rfl
  · rw [dropped, names_of_not_mem (by decide), decide_eq_false (by decide)]
    rfl

theorem strip_accessLine : Text.strip goSpace accessLine = accessLine := by
  refine Text.strip_eq_self ?_ ?_
  · intro c hc
    rw [head_accessLine] at hc
    rw [← Option.some.inj hc]
    decide
  · intro c hc
    have hlast : accessLine.toList.getLast? = some 'f' := by
      rw [toList_accessLine]
      rfl
    rw [hlast] at hc
    rw [← Option.some.inj hc]
    decide

theorem stops_section : ∀ line ∈ keptLines sectionLines, stops line = false := by
  rw [keptLines_section]
  refine forall_mem_sectionLines (by decide) ?_ (by decide)
  have hstart : Text.startsWith accessLine "@include common-session" = false := by
    rw [← Bool.not_eq_true, Text.startsWith_iff]
    intro ⟨rest, heq⟩
    have hhead := head_accessLine
    rw [heq, List.head?_append_of_ne_nil _ (by decide)] at hhead
    exact absurd hhead (by decide)
  rw [stops, strip_accessLine, hstart, holds_of_not_mem (c := 'k') (by decide) (not_mem_accessLine (by decide) (by decide)),
    Bool.or_false]

theorem mem_hooked {line : String} {lines : List String} (h : line ∈ hooked lines) :
    line ∈ keptLines lines ∨ line = managed ∨ line = hookLine := by
  obtain ⟨front, rear, hkept, -, -, heq⟩ := hooked_eq lines
  rw [heq] at h
  rw [hkept]
  rcases List.mem_append.mp h with hfront | hrest
  · exact .inl (List.mem_append_left _ hfront)
  · rcases List.mem_cons.mp hrest with rfl | hrest
    · exact .inr (.inl rfl)
    · rcases List.mem_cons.mp hrest with rfl | hrear
      · exact .inr (.inr rfl)
      · exact .inl (List.mem_append_right _ hrear)

theorem unbegun_kept {lines : List String} (h : Unbegun lines) : Unbegun (keptLines lines) :=
  fun line hline => h line (mem_keptLines.mp hline).1

theorem unbegun_hooked {lines : List String} (h : Unbegun lines) : Unbegun (hooked lines) := by
  intro line hline
  rcases mem_hooked hline with hkept | rfl | rfl
  · exact unbegun_kept h line hkept
  · exact (Agent.holds_false_iff (by decide)).mp (holds_of_not_mem (c := 'B') (by decide) (by decide))
  · exact (Agent.holds_false_iff (by decide)).mp (holds_of_not_mem (c := 'B') (by decide) (by decide))

theorem hooked_section (xs ys : List String) : ∃ xs' ys', hooked (xs ++ sectionLines ++ ys) = xs' ++ sectionLines ++ ys' ∧
    (xs' = hooked xs ∧ ys' = keptLines ys ∨ xs' = keptLines xs ∧ ys' = hooked ys) ∧
      foreign (xs' ++ ys') = keptLines (xs ++ ys) := by
  by_cases hstop : ∃ line ∈ keptLines xs, stops line = true
  · refine ⟨hooked xs, keptLines ys, ?_, .inl ⟨rfl, rfl⟩, ?_⟩
    · rw [List.append_assoc, hooked_append_of_some hstop, keptLines_append, keptLines_section, List.append_assoc]
    · rw [← hooked_append_of_some hstop, foreign_hooked]
  · have hnone : ∀ line ∈ keptLines xs, stops line = false :=
      fun line hline => Bool.eq_false_iff.mpr fun htrue => hstop ⟨line, hline, htrue⟩
    refine ⟨keptLines xs, hooked ys, ?_, .inr ⟨rfl, rfl⟩, ?_⟩
    · rw [List.append_assoc, hooked_append_of_none hnone, hooked_append_of_none stops_section, keptLines_section,
        List.append_assoc]
    · rw [← hooked_append_of_none hnone, foreign_hooked]

theorem outside_of_lines (htext : content = Text.join "\n" (xs ++ sectionLines ++ ys))
    (hxs : Unbegun xs) (hys : Unbegun ys) (hne : ys ≠ []) (hlines : ∀ line ∈ xs ++ ys, '\n' ∉ line.toList) :
    Text.split '\n' (outsideBlocks content) = xs ++ ys := by
  rw [htext, (outside_section hxs hys hne).1]
  exact Text.split_join (List.append_ne_nil_of_right_ne_nil _ hne) hlines

theorem gated_around (h : begun content = false) : ∃ xs ys, ys ≠ [] ∧
    gated content = Text.join "\n" (xs ++ sectionLines ++ ys) ∧ xs ++ ys = outOf (Text.split '\n' content) ∧
      Unbegun xs ∧ Unbegun ys ∧ ∀ line ∈ xs ++ ys, '\n' ∉ line.toList := by
  obtain ⟨xs, ys, hne, htext, hout⟩ := gated_eq h
  have hunbegun : Unbegun (xs ++ ys) := by
    rw [hout]
    exact unbegun_outOf (unbegun_split h)
  refine ⟨xs, ys, hne, htext, hout, fun line hline => hunbegun line (List.mem_append_left _ hline),
    fun line hline => hunbegun line (List.mem_append_right _ hline), fun line hline => ?_⟩
  rw [hout] at hline
  exact newline_outOf hline

/-- The hook goes before or after the section, and the section stays in one piece. -/
theorem ensurePamHook_gated (h : begun content = false) : ∃ xs ys,
    ensurePamHook (gated content) = Text.join "\n" (xs ++ sectionLines ++ ys) ∧ Unbegun xs ∧ Unbegun ys ∧
      (∀ line ∈ xs ++ ys, '\n' ∉ line.toList) ∧ (xs ++ sectionLines ++ ys).filter names = [hookLine] ∧
        foreign (xs ++ ys) = keptLines (outOf (Text.split '\n' content)) ∧
          ((∀ line ∈ outOf (Text.split '\n' content), dropped line = false) → ys ≠ []) := by
  obtain ⟨xs, ys, hne, htext, hout, hxs, hys, hlines⟩ := gated_around h
  obtain ⟨xs', ys', hhooked, hwhere, hforeign⟩ := hooked_section xs ys
  have hsplit : Text.split '\n' (gated content) = xs ++ sectionLines ++ ys := by
    rw [htext]
    exact split_section (fun line hline => hlines line (List.mem_append_left _ hline))
      fun line hline => hlines line (List.mem_append_right _ hline)
  have hall : ∀ line ∈ hooked (xs ++ sectionLines ++ ys), '\n' ∉ line.toList := by
    intro line hline
    rw [← hsplit, ← split_ensurePamHook] at hline
    exact Text.mem_split hline
  have honce := filter_names_hooked (xs ++ sectionLines ++ ys)
  rw [hhooked] at hall honce
  have hmarks : Unbegun xs' ∧ Unbegun ys' := by
    rcases hwhere with ⟨rfl, rfl⟩ | ⟨rfl, rfl⟩
    · exact ⟨unbegun_hooked hxs, unbegun_kept hys⟩
    · exact ⟨unbegun_kept hxs, unbegun_hooked hys⟩
  rw [← hout]
  refine ⟨xs', ys', by rw [ensurePamHook, hsplit, hhooked], hmarks.1, hmarks.2, fun line hline => hall line ?_, honce,
    hforeign, fun hplain => ?_⟩
  · rcases List.mem_append.mp hline with hleft | hright
    · exact List.mem_append_left _ (List.mem_append_left _ hleft)
    · exact List.mem_append_right _ hright
  · rcases hwhere with ⟨-, rfl⟩ | ⟨-, rfl⟩
    · rwa [keptLines_eq_self fun line hline => hplain line (List.mem_append_right _ hline)]
    · exact hooked_ne_nil _

theorem rest_section_first (h : begun content = false)
    (hnone : ∀ line ∈ Text.split '\n' content, dropped line = false) :
    rest (ensurePamHook (gated content)) = outOf (Text.split '\n' content) := by
  have hplain : ∀ line ∈ outOf (Text.split '\n' content), dropped line = false := by
    intro line hline
    rcases mem_of_outOf hline with hold | rfl
    · exact hnone line hold
    · rw [dropped, names_of_not_mem (by decide), decide_eq_false (by decide)]
      rfl
  obtain ⟨xs, ys, htext, hxs, hys, hlines, -, hforeign, hne⟩ := ensurePamHook_gated h
  rw [rest, outside_of_lines htext hxs hys (hne hplain) hlines, hforeign, keptLines_eq_self hplain]

theorem begun_ensurePamHook (h : begun content = false) : begun (ensurePamHook content) = false :=
  begun_join.mpr (unbegun_hooked (unbegun_split h))

theorem rest_hook_first (h : begun content = false) :
    rest (gated (ensurePamHook content)) = foreign (outOf (hooked (Text.split '\n' content))) := by
  obtain ⟨xs, ys, hne, htext, hout, hxs, hys, hlines⟩ := gated_around (begun_ensurePamHook h)
  rw [rest, outside_of_lines htext hxs hys hne hlines, hout, split_ensurePamHook]

theorem mustFollow_stops {line : String} (h : mustFollow line = true) : stops line = true := by
  rw [mustFollow] at h
  rw [stops, (Bool.and_eq_true_iff.mp h).2, Bool.or_true]

theorem mem_strip {line : String} {c : Char} (h : c ∈ (Text.strip goSpace line).toList) : c ∈ line.toList := by
  rw [Text.strip, String.toList_ofList, List.mem_reverse] at h
  have hfront := (List.dropWhile_suffix _).subset h
  rw [List.mem_reverse] at hfront
  exact (List.dropWhile_suffix _).subset hfront

theorem mustFollow_of_not_mem {line : String} (h : 'k' ∉ line.toList) : mustFollow line = false := by
  have hhome : Text.holds (Text.strip goSpace line) "pam_mkhomedir.so" = false :=
    holds_of_not_mem (c := 'k') (by decide) fun hmem => h (mem_strip hmem)
  rw [mustFollow, hhome, Bool.and_false]

theorem mustFollow_managed : mustFollow managed = false := mustFollow_of_not_mem (by decide)

theorem mustFollow_hookLine : mustFollow hookLine = false := by
  refine mustFollow_of_not_mem fun hmem => ?_
  rw [toList_hookLine] at hmem
  rcases List.mem_append.mp hmem with hstart | hscript
  · exact absurd hstart (by decide)
  · exact absurd hscript (by decide)

theorem hookLine_ne_empty : hookLine ≠ "" := by
  intro heq
  have hlist := toList_hookLine
  rw [heq] at hlist
  exact absurd hlist.symm (by decide)

theorem outOf_append (h : ∀ line ∈ front, mustFollow line = false) : outOf (front ++ rear) =
    let before := front ++ rear.takeWhile fun line => !mustFollow line
    let after := rear.dropWhile fun line => !mustFollow line
    (if before.getLast? = some "" ∧ after ≠ [] then before.dropLast else before) ++ after ++ tailOf (front ++ rear) := by
  have hpass : ∀ line ∈ front, (!mustFollow line) = true := by
    intro line hline
    rw [h line hline]
    rfl
  rw [outOf, List.takeWhile_append_of_pos hpass, List.dropWhile_append_of_pos hpass]

/-- Around both there are the same lines whichever is put in first, exactly where the two places allow it. -/
theorem placed_iff (hnone : ∀ line ∈ Text.split '\n' content, dropped line = false) :
    outOf (Text.split '\n' content) = foreign (outOf (hooked (Text.split '\n' content))) ↔ Placed content := by
  have hkept := keptLines_eq_self hnone
  have hwhole := whole_iff_last content
  unfold Placed
  obtain ⟨front, rear, happend, hfront, hrear, hhooked⟩ := hooked_eq (Text.split '\n' content)
  rw [hkept] at happend hfront hrear
  have hne := Text.split_ne_nil content
  rw [hhooked, ← hfront, ← hrear, hwhole]
  generalize Text.split '\n' content = lines at *
  subst happend
  have hfirst : ∀ line ∈ front, mustFollow line = false := by
    intro line hline
    rw [hfront] at hline
    have hstops := List.mem_takeWhile_imp (p := fun line => !stops line) hline
    refine Bool.eq_false_iff.mpr fun hmust => ?_
    rw [mustFollow_stops hmust] at hstops
    cases hstops
  have hfirst' : ∀ line ∈ front ++ [managed, hookLine], mustFollow line = false := by
    intro line hline
    rcases List.mem_append.mp hline with hold | hown
    · exact hfirst line hold
    · rcases List.mem_cons.mp hown with rfl | hrest
      · exact mustFollow_managed
      · rw [List.mem_singleton.mp hrest]
        exact mustFollow_hookLine
  have hshape : front ++ managed :: hookLine :: rear = (front ++ [managed, hookLine]) ++ rear := by
    rw [List.append_assoc]
    rfl
  have hempty : dropped "" = false := by
    rw [dropped, names_of_not_mem (by decide), decide_eq_false (by decide)]
    rfl
  have htail : ∀ lines : List String, ∀ line ∈ tailOf lines, dropped line = false := by
    intro lines line hline
    unfold tailOf at hline
    split_ifs at hline
    · cases hline
    · rwa [List.mem_singleton.mp hline]
  -- What follows the hook in the file, the lines around it being the file's own or empty.
  have hforeign : ∀ more : List String, (∀ line ∈ more, line ∈ rear ∨ dropped line = false) →
      foreign (front ++ [managed, hookLine] ++ more) = front ++ more := by
    intro more hmore
    have hplain : ∀ line ∈ front ++ more, dropped line = false := by
      intro line hline
      rcases List.mem_append.mp hline with hold | hnew
      · exact hnone line (List.mem_append_left _ hold)
      · rcases hmore line hnew with hold | hdropped
        · exact hnone line (List.mem_append_right _ hold)
        · exact hdropped
    rw [List.append_assoc]
    exact foreign_hook hplain
  have hlast : (front ++ [managed, hookLine]).getLast? = some hookLine := List.getLast?_append_of_ne_nil _ (List.cons_ne_nil _ _)
  rw [hshape, outOf_append hfirst, outOf_append hfirst']
  dsimp only
  cases rear with
  | nil =>
      have htail' : tailOf (front ++ [managed, hookLine]) = [""] := by
        rw [tailOf, hlast, if_neg fun heq => hookLine_ne_empty (Option.some.inj heq)]
      simp only [List.takeWhile_nil, List.dropWhile_nil, ne_eq, not_true_eq_false, and_false, if_false, List.append_nil]
      rw [htail', hforeign _ fun line hline => .inr (by rwa [List.mem_singleton.mp hline])]
      unfold tailOf
      split_ifs with hended
      · refine iff_of_false (fun heq => ?_) fun hnot => hnot hended
        exact absurd (List.append_cancel_left heq) (List.cons_ne_nil _ _).symm
      · exact iff_of_true rfl hended
  | cons stop rest =>
      have hsame : tailOf (front ++ [managed, hookLine] ++ stop :: rest) = tailOf (front ++ stop :: rest) := by
        rw [tailOf, tailOf, List.getLast?_append_of_ne_nil _ (List.cons_ne_nil _ _),
          List.getLast?_append_of_ne_nil _ (List.cons_ne_nil _ _)]
      rw [hsame]
      have hafter := htail (front ++ stop :: rest)
      generalize tailOf (front ++ stop :: rest) = tail at hafter ⊢
      by_cases hmust : mustFollow stop = true
      · have hnot : ¬ (!mustFollow stop) = true := by rw [hmust]; decide
        have hfilled : ¬ (some hookLine = some "" ∧ stop :: rest ≠ []) :=
          fun hand => hookLine_ne_empty (Option.some.inj hand.1)
        rw [List.takeWhile_cons_of_neg (p := fun line => !mustFollow line) hnot,
          List.dropWhile_cons_of_neg (p := fun line => !mustFollow line) hnot, List.append_nil, List.append_nil, hlast,
          if_neg hfilled, List.append_assoc (front ++ [managed, hookLine]),
          hforeign _ fun line hline => (List.mem_append.mp hline).imp id (hafter line), ← List.append_assoc]
        by_cases hblank : front.getLast? = some ""
        · rw [if_pos ⟨hblank, List.cons_ne_nil _ _⟩]
          refine iff_of_false (fun heq => ?_) fun h => h hmust hblank
          have hlength := congrArg List.length (List.append_cancel_right (List.append_cancel_right heq))
          obtain ⟨shorter, rfl⟩ := List.getLast?_eq_some_iff.mp hblank
          rw [List.dropLast_concat, List.length_append, List.length_singleton] at hlength
          omega
        · rw [if_neg fun hand => hblank hand.1]
          exact iff_of_true rfl fun _ => hblank
      · have hpass : (!mustFollow stop) = true := by rw [Bool.eq_false_iff.mpr hmust]; rfl
        refine iff_of_true ?_ fun htrue => absurd htrue hmust
        rw [List.takeWhile_cons_of_pos (p := fun line => !mustFollow line) hpass,
          List.dropWhile_cons_of_pos (p := fun line => !mustFollow line) hpass,
          List.getLast?_append_of_ne_nil _ (List.cons_ne_nil _ _), List.getLast?_append_of_ne_nil _ (List.cons_ne_nil _ _)]
        have hmid : ∀ line ∈ rest.takeWhile fun line => !mustFollow line, line ∈ stop :: rest := fun line hline =>
          List.mem_cons_of_mem _ ((List.takeWhile_prefix _).subset hline)
        have hend : ∀ line ∈ rest.dropWhile fun line => !mustFollow line, line ∈ stop :: rest := fun line hline =>
          List.mem_cons_of_mem _ ((List.dropWhile_suffix _).subset hline)
        generalize rest.takeWhile (fun line => !mustFollow line) = mid at *
        generalize rest.dropWhile (fun line => !mustFollow line) = last at *
        have hall : ∀ more : List String, (∀ line ∈ more, line ∈ stop :: mid) →
            ∀ line ∈ more ++ last ++ tail, line ∈ stop :: rest ∨ dropped line = false := by
          intro more hmore line hline
          rcases List.mem_append.mp hline with hleft | hright
          · rcases List.mem_append.mp hleft with hin | hbehind
            · rcases List.mem_cons.mp (hmore line hin) with rfl | hmem
              · exact .inl List.mem_cons_self
              · exact .inl (hmid line hmem)
            · exact .inl (hend line hbehind)
          · exact .inr (hafter line hright)
        split_ifs with hcond
        · rw [List.dropLast_append_of_ne_nil (List.cons_ne_nil _ _), List.dropLast_append_of_ne_nil (List.cons_ne_nil _ _),
            List.append_assoc (front ++ [managed, hookLine]), List.append_assoc (front ++ [managed, hookLine]),
            hforeign _ (hall _ fun line hline => List.dropLast_subset _ hline)]
          simp only [List.append_assoc]
        · rw [List.append_assoc (front ++ [managed, hookLine]), List.append_assoc (front ++ [managed, hookLine]),
            hforeign _ (hall _ fun line hline => hline)]
          simp only [List.append_assoc]

theorem filter_section : sectionLines.filter names = [] := by
  have hnone : ∀ line ∈ sectionLines, names line = false :=
    forall_mem_sectionLines (names_of_not_mem (by decide)) (names_of_not_mem (not_mem_accessLine (by decide) (by decide)))
      (names_of_not_mem (by decide))
  exact List.filter_eq_nil_iff.mpr fun line hline => by rw [hnone line hline]; exact Bool.false_ne_true

/-- A file with a section among its lines and one line that names the script: each is there without the other. -/
theorem apart_of_lines (htext : content = Text.join "\n" (xs ++ sectionLines ++ ys))
    (hxs : Unbegun xs) (hys : Unbegun ys) (hlines : ∀ line ∈ xs ++ ys, '\n' ∉ line.toList)
    (honce : (xs ++ sectionLines ++ ys).filter names = [hookLine]) : Apart content := by
  have hsplit : Text.split '\n' content = xs ++ sectionLines ++ ys := by
    rw [htext]
    exact split_section (fun line hline => hlines line (List.mem_append_left _ hline))
      fun line hline => hlines line (List.mem_append_right _ hline)
  have hkept : keptLines (xs ++ sectionLines ++ ys) = keptLines xs ++ sectionLines ++ keptLines ys := by
    rw [keptLines_append, keptLines_append, keptLines_section]
  rw [List.filter_append, List.filter_append, filter_section, List.append_nil, ← List.filter_append] at honce
  refine ⟨⟨xs, ys, hsplit.symm⟩, ?_, ?_⟩
  · rw [unhooked, hsplit, hkept, split_section]
    · exact ⟨_, _, rfl⟩
    · exact fun line hline => hlines line (List.mem_append_left _ (mem_keptLines.mp hline).1)
    · exact fun line hline => hlines line (List.mem_append_right _ (mem_keptLines.mp hline).1)
  · by_cases hne : ys = []
    · rw [htext, hne, List.append_nil, strip_last hxs]
      rw [hne, List.append_nil] at honce hlines
      rw [Text.split_join (List.append_ne_nil_of_right_ne_nil _ (List.cons_ne_nil _ _)), List.filter_append, honce,
        List.filter_cons_of_neg (by rw [names_of_not_mem (by decide)]; decide), List.filter_nil, List.append_nil]
      intro line hline
      rcases List.mem_append.mp hline with hold | hempty
      · exact hlines line hold
      · rw [List.mem_singleton.mp hempty]
        decide
    · rw [htext, (outside_section hxs hys hne).2,
        Text.split_join (List.append_ne_nil_of_right_ne_nil _ hne) hlines, honce]

theorem apart_section_first (h : begun content = false) : Apart (ensurePamHook (gated content)) := by
  obtain ⟨xs, ys, htext, hxs, hys, hlines, honce, -⟩ := ensurePamHook_gated h
  exact apart_of_lines htext hxs hys hlines honce

theorem apart_hook_first (h : begun content = false) : Apart (gated (ensurePamHook content)) := by
  obtain ⟨xs, ys, -, htext, hout, hxs, hys, hlines⟩ := gated_around (begun_ensurePamHook h)
  refine apart_of_lines htext hxs hys hlines ?_
  rw [List.filter_append, List.filter_append, filter_section, List.append_nil, ← List.filter_append, hout,
    filter_names_outOf, split_ensurePamHook, filter_names_hooked]

theorem Headed.dropped {lines : List String} (h : Headed lines) (hnames : ∀ line ∈ lines, names line = false) :
    ∀ line ∈ lines, dropped line = false := by
  induction lines with
  | nil => exact fun _ hline => by cases hline
  | cons line lines ih =>
      intro other hother
      rcases List.mem_cons.mp hother with rfl | hrest
      · have hne : other ≠ managed := by
          intro heq
          obtain ⟨next, hnext, htrue⟩ := (Option.any_eq_true _ _).mp (h.1 heq)
          rw [hnames next (List.mem_cons_of_mem _ (List.mem_of_mem_head? hnext))] at htrue
          cases htrue
        rw [SessionHook.dropped, hnames other List.mem_cons_self, decide_eq_false hne, Bool.or_false]
      · exact ih h.2 (fun next hnext => hnames next (List.mem_cons_of_mem _ hnext)) other hrest

theorem before_hook (lines : List String) : (hooked lines).takeWhile (fun line => !names line) =
    (keptLines lines).takeWhile (fun line => !stops line) ++ [managed] := by
  obtain ⟨front, rear, hkept, hfront, -, heq⟩ := hooked_eq lines
  have hpass : ∀ line ∈ front, (!names line) = true := by
    intro line hline
    have hdropped := dropped_of_mem_kept hkept line (List.mem_append_left _ hline)
    rw [dropped, Bool.or_eq_false_iff] at hdropped
    rw [hdropped.1]
    rfl
  rw [heq, ← hfront, List.takeWhile_append_of_pos hpass,
    List.takeWhile_cons_of_pos (p := fun line => !names line) (by rw [names_managed]; rfl),
    List.takeWhile_cons_of_neg (p := fun line => !names line) (by rw [names_hookLine]; decide)]

theorem kept_iff (content : String) :
    foreign (Text.split '\n' (ensurePamHook content)) = foreign (Text.split '\n' content) ↔
      Headed (Text.split '\n' content) := by
  rw [split_ensurePamHook, foreign_hooked, ← foreign_eq_keptLines_iff]
  exact eq_comm

theorem first_iff (content : String) :
    (∀ line ∈ (Text.split '\n' (ensurePamHook content)).takeWhile (fun line => !names line),
      includesSession line = false ∧ mustFollow line = false) ↔
    ∀ line ∈ (keptLines (Text.split '\n' content)).takeWhile (fun line => !stops line), includesSession line = false := by
  rw [split_ensurePamHook, before_hook]
  constructor
  · exact fun h line hline => (h line (List.mem_append_left _ hline)).1
  · intro h line hline
    rcases List.mem_append.mp hline with hold | hown
    · refine ⟨h line hold, Bool.eq_false_iff.mpr fun hmust => ?_⟩
      have hstops := List.mem_takeWhile_imp (p := fun line => !stops line) hold
      rw [mustFollow_stops hmust] at hstops
      cases hstops
    · rw [List.mem_singleton.mp hown]
      exact ⟨by decide, mustFollow_managed⟩

theorem either_iff (hheaded : Headed (Text.split '\n' content)) (hbegun : begun content = false)
    (hnames : ∀ line ∈ Text.split '\n' content, names line = false) :
    rest (ensurePamHook (gated content)) = rest (gated (ensurePamHook content)) ↔ Placed content := by
  have hnone := hheaded.dropped hnames
  rw [rest_section_first hbegun hnone, rest_hook_first hbegun, placed_iff hnone]

theorem Orderly.headed (h : Orderly content) : Headed (Text.split '\n' content) :=
  (kept_iff content).mp h.kept

/-- What the two editors make of the session stack is in order, exactly where the file fits. -/
theorem orderly_iff (content : String) : Orderly content ↔ Fits content := by
  constructor
  · intro h
    refine ⟨h.headed, (first_iff content).mp h.first, fun hbegun hnames => ?_⟩
    exact (either_iff h.headed hbegun hnames).mp (h.either hbegun hnames)
  · intro h
    refine ⟨(kept_iff content).mpr h.headed, ?_, (first_iff content).mpr h.spelled, ?_, fun hbegun hnames => ?_,
      fun hbegun => ⟨apart_section_first hbegun, apart_hook_first hbegun⟩⟩
    · rw [split_ensurePamHook, filter_names_hooked]
    · rw [ensurePamHook, split_ensurePamHook, hooked_hooked]
      rfl
    · exact (either_iff h.headed hbegun hnames).mpr (h.placed hbegun hnames)

/-- The stack with the second factor's lines in it. -/
def factorStack : List String :=
  ["@include common-auth", managed, FactorLines.guardLine, FactorLines.oathLine, "@include common-session", ""]

/-- The header of the second factor's lines goes with the hook; and the empty line before the one that makes the home
directory goes with the section, unless the hook is put in first. -/
theorem stacks_out_of_order :
    ¬ Orderly (Text.join "\n" factorStack) ∧ ¬ Orderly Agent.sessionStack := by
  constructor
  · intro h
    have hsplit : Text.split '\n' (Text.join "\n" factorStack) = factorStack := by
      refine Text.split_join (List.cons_ne_nil _ _) ?_
      have hall : (factorStack.all fun line => !Text.contains line '\n') = true := by decide
      intro line hline
      have hnot := List.all_eq_true.mp hall line hline
      simpa [Text.contains] using hnot
    generalize Text.join "\n" factorStack = content at h hsplit
    have hheaded := h.headed
    rw [hsplit, factorStack, Headed, Headed, List.head?_cons, List.head?_cons, Option.any_some] at hheaded
    obtain ⟨-, hsecond, -⟩ := hheaded
    have hnext := hsecond (Eq.refl managed)
    have hguard : names FactorLines.guardLine = false := by decide +kernel
    rw [Option.any_some, hguard] at hnext
    cases hnext
  · intro h
    have hrear : ((Text.split '\n' Agent.sessionStack).dropWhile fun line => !stops line) =
        ["session required pam_mkhomedir.so", ""] := by decide
    have hfront : ((Text.split '\n' Agent.sessionStack).takeWhile fun line => !stops line) =
        ["session optional pam_umask.so", ""] := by decide
    have hnames : (Text.split '\n' Agent.sessionStack).all (fun line => !names line) = true := by decide
    have hbegun : begun Agent.sessionStack = false := by decide
    have hmust : mustFollow "session required pam_mkhomedir.so" = true := by decide
    generalize Agent.sessionStack = content at *
    have hnone : ∀ line ∈ Text.split '\n' content, names line = false :=
      fun line hline => (Bool.not_eq_true' _).mp (List.all_eq_true.mp hnames line hline)
    have hplaced := (either_iff h.headed hbegun hnone).mp (h.either hbegun hnone)
    rw [Placed, hrear, hfront] at hplaced
    exact hplaced hmust rfl

end OpenDirectory.SessionHook
