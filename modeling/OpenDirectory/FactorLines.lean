import OpenDirectory.BlockRuns
import OpenDirectory.OathUsers

/-! The second factor's lines in a PAM stack: put in after the password's, taken out by what they name. The stack is
somebody else's file, in which the agent may keep its access section too. -/

namespace OpenDirectory.FactorLines

open Agent (factorGuard goSpace holds_iff holds_false_iff oathUsersFile pushHelper whole_join_iff)

def enrolHelper : String := "/usr/lib/odm/enrol-factor"

def oathMarker : String := "pam_oath.so"

/-- The header as a line. -/
def managed : String := "# Managed by Open Directory Manager. Local edits are overwritten."

def guardLine : String := "auth [success=1 default=ignore] pam_exec.so seteuid quiet " ++ factorGuard

def pushLine : String := "auth requisite pam_exec.so seteuid quiet stdout " ++ pushHelper

def oathLine : String := "auth requisite pam_oath.so usersfile=" ++ oathUsersFile ++ " window=2 digits=6"

def enrolLine : String := "session optional pam_exec.so seteuid " ++ enrolHelper

def methodLine (method : String) : String := if method = "push" then pushLine else oathLine

def pamBlock (method : String) : String := managed ++ "\n" ++ guardLine ++ "\n" ++ methodLine method ++ "\n"

def afterPassword : String := "@include common-auth"

def includesAuth (line : String) : Bool := Text.startsWith (Text.strip goSpace line) afterPassword

/-- `strings.TrimRight(s, "\n")` -/
def trimNewlines (s : String) : String := Text.stripEnd (· = '\n') s

/-- What a removal looks for, in the file and then in each line. -/
def carries (content : String) : Bool :=
  Text.holds content oathMarker || Text.holds content enrolHelper || Text.holds content factorGuard ||
    Text.holds content pushHelper

def drops (line : String) : Bool := carries line || Text.holds line "Managed by Open Directory Manager"

/-- What `removeOathLine` makes of the text of a stack. -/
def removeOathLine (content : String) : String :=
  if !carries content then content
  else Text.join "\n" ((Text.split '\n' content).filter fun line => !drops line)

/-- A text login has a terminal to ask on. -/
def enrolOnTty (path : String) : Bool := Text.endsWith path "/login" || Text.endsWith path "/sshd"

/-- The block after the line that asks for the password, or on top where there is none. -/
def inserted (body block : String) : String :=
  let lines := Text.split '\n' body
  let before := lines.takeWhile fun line => !includesAuth line
  match lines.drop before.length with
  | [] => block ++ body
  | line :: after => Text.join "\n" (before ++ line :: trimNewlines block :: after)

/-- What `addOathLine` makes of the text of a stack. -/
def addOathLine (path method content : String) : String :=
  let block := pamBlock method
  if Text.holds content (trimNewlines block) then content
  else
    let body := if Text.holds content factorGuard then removeOathLine content else content
    let updated := inserted body block
    if enrolOnTty path then trimNewlines updated ++ "\n" ++ enrolLine ++ "\n" else updated

def ours (line : String) : Bool := line ∈ [managed, guardLine, oathLine, pushLine, enrolLine]

def linesOf (path method : String) : List String :=
  [managed, guardLine, methodLine method] ++ if enrolOnTty path then [enrolLine] else []

/-- Taking out undoes putting in, putting in again does nothing more, and another method leaves its own lines and all
that were not ours. -/
structure Undoes (path content : String) : Prop where
  restored : ∀ method, removeOathLine (addOathLine path method content) = content
  once : ∀ method, addOathLine path method (addOathLine path method content) = addOathLine path method content
  switched : ∀ method other,
    (Text.split '\n' (addOathLine path other (addOathLine path method content))).filter ours = linesOf path other ∧
      (Text.split '\n' (addOathLine path other (addOathLine path method content))).filter (fun line => !ours line) =
        Text.split '\n' content

/-- The text ends with one newline and no empty line before it, or there is no text at all. -/
def EndsOnce (content : String) : Prop :=
  (Text.split '\n' content).getLast? = some "" ∧ (Text.split '\n' content).dropLast.getLast? ≠ some ""

/-- No line has anything in it that a removal looks for, and the stack of a text login ends with one newline. -/
structure Bare (path content : String) : Prop where
  unmarked : ∀ line ∈ Text.split '\n' content, drops line = false
  ended : enrolOnTty path = true → EndsOnce content

def blockLines (method : String) : List String := [managed, guardLine, methodLine method]

theorem blockLines_ne_nil (method : String) : blockLines method ≠ [] := List.cons_ne_nil _ _

theorem pamBlock_eq (method : String) : pamBlock method = Text.join "\n" (blockLines method) ++ "\n" := by
  rw [← String.toList_inj]
  simp [pamBlock, blockLines, Text.join]

theorem methodLine_cases {holds : String → Prop} (hpush : holds pushLine) (hoath : holds oathLine) (method : String) :
    holds (methodLine method) := by
  unfold methodLine
  split
  · exact hpush
  · exact hoath

theorem holds_suffix {before mark : String} (hne : mark.toList ≠ []) : Text.holds (before ++ mark) mark = true := by
  rw [holds_iff hne, String.toList_append]
  exact (List.suffix_append _ _).isInfix

theorem drops_of_ours {line : String} (h : ours line = true) : drops line = true := by
  have hmanaged : Text.holds managed "Managed by Open Directory Manager" = true := by decide
  have hoath : Text.holds oathLine oathMarker = true := by decide
  have hguard : Text.holds guardLine factorGuard = true := holds_suffix (by decide)
  have hpush : Text.holds pushLine pushHelper = true := holds_suffix (by decide)
  have henrol : Text.holds enrolLine enrolHelper = true := holds_suffix (by decide)
  simp only [ours, List.mem_cons, List.not_mem_nil, or_false, decide_eq_true_eq] at h
  rcases h with rfl | rfl | rfl | rfl | rfl
  · simp [drops, hmanaged]
  · simp [drops, carries, hguard]
  · simp [drops, carries, hoath]
  · simp [drops, carries, hpush]
  · simp [drops, carries, henrol]

theorem linesOf_cases {holds : String → Prop} (hmanaged : holds managed) (hguard : holds guardLine)
    (henrol : holds enrolLine) (hpush : holds pushLine) (hoath : holds oathLine) {line path method : String}
    (h : line ∈ linesOf path method) : holds line := by
  have hmethod := methodLine_cases hpush hoath method
  unfold linesOf at h
  split at h <;> simp only [List.mem_append, List.mem_cons, List.not_mem_nil, or_false] at h
  · rcases h with (rfl | rfl | rfl) | rfl
    · exact hmanaged
    · exact hguard
    · exact hmethod
    · exact henrol
  · rcases h with rfl | rfl | rfl
    · exact hmanaged
    · exact hguard
    · exact hmethod

theorem linesOf_newline {line : String} {path method : String} (h : line ∈ linesOf path method) : '\n' ∉ line.toList :=
  @linesOf_cases (fun line => '\n' ∉ line.toList) (by decide) (by decide) (by decide) (by decide) (by decide) _ _ _ h

theorem blockLines_newline (method : String) : ∀ line ∈ blockLines method, '\n' ∉ line.toList := by
  intro line hline
  exact @linesOf_newline line "" method (List.mem_append_left _ hline)

theorem blockLines_last (method : String) : (blockLines method).getLast? ≠ some "" := by
  have hne := @methodLine_cases (fun line => line ≠ "") (by decide) (by decide) method
  simpa [blockLines] using hne

theorem trim_pamBlock (method : String) : trimNewlines (pamBlock method) = Text.join "\n" (blockLines method) := by
  have hwhole := (whole_join_iff (blockLines_ne_nil method) (blockLines_newline method)).not.mpr (blockLines_last method)
  have htrim := Text.stripEnd_join (blockLines_ne_nil method) hwhole 1
  rw [List.replicate_one, Text.join_append (blockLines_ne_nil method) (List.cons_ne_nil _ _), Text.join_singleton,
    String.append_empty] at htrim
  rw [trimNewlines, pamBlock_eq, htrim]

theorem inserted_split (body method : String) : ∃ before after, Text.split '\n' body = before ++ after ∧
    before.getLast? ≠ some "" ∧
      inserted body (pamBlock method) = Text.join "\n" (before ++ blockLines method ++ after) := by
  have hsplit := List.takeWhile_append_dropWhile (p := fun line => !includesAuth line) (l := Text.split '\n' body)
  unfold inserted
  dsimp only
  rw [Text.drop_length_takeWhile]
  cases hrest : (Text.split '\n' body).dropWhile fun line => !includesAuth line with
  | nil =>
      refine ⟨[], Text.split '\n' body, rfl, nofun, ?_⟩
      rw [List.nil_append, Text.join_append (blockLines_ne_nil method) (Text.split_ne_nil body), Text.join_split, pamBlock_eq]
  | cons line after =>
      have hline : includesAuth line = true := by
        have hhead := List.head?_dropWhile_not (fun line => !includesAuth line) (Text.split '\n' body)
        rw [hrest] at hhead
        simpa using hhead
      rw [hrest] at hsplit
      refine ⟨(Text.split '\n' body).takeWhile (fun line => !includesAuth line) ++ [line], after, ?_, ?_, ?_⟩
      · rw [List.append_assoc, List.singleton_append, hsplit]
      · rw [List.getLast?_concat]
        intro hempty
        rw [Option.some.inj hempty] at hline
        exact absurd hline (by decide)
      · rw [trim_pamBlock, ← Text.join_join (blockLines_ne_nil method), List.append_assoc, List.singleton_append]

theorem exists_core (lines : List String) :
    ∃ core count, lines = core ++ List.replicate count "" ∧ core.getLast? ≠ some "" := by
  induction lines using List.reverseRecOn with
  | nil => exact ⟨[], 0, rfl, nofun⟩
  | append_singleton lines line ih =>
      by_cases hline : line = ""
      · obtain ⟨core, count, rfl, hcore⟩ := ih
        exact ⟨core, count + 1, by rw [hline, List.replicate_succ', List.append_assoc], hcore⟩
      · exact ⟨lines ++ [line], 0, by simp, by simpa using hline⟩

/-- How the lines of a stack become those of one with the block in it. -/
structure Parts (body : String) (before core : List String) (count : Nat) : Prop where
  split : Text.split '\n' body = before ++ core ++ List.replicate count ""
  last : (before ++ core).getLast? ≠ some ""

/-- The lines of the stack with the block in it, and on a text login with the prompt. -/
def linedUp (path method : String) (before core : List String) (count : Nat) : List String :=
  if enrolOnTty path then before ++ blockLines method ++ core ++ [enrolLine, ""]
  else before ++ blockLines method ++ core ++ List.replicate count ""

section
variable {body path method : String} {before core : List String} {count : Nat}

theorem Parts.newline (h : Parts body before core count) : ∀ line ∈ before ++ core, '\n' ∉ line.toList := by
  intro line hline
  exact Text.mem_split (h.split ▸ List.mem_append_left _ hline)

theorem linedUp_newline (h : Parts body before core count) :
    ∀ line ∈ linedUp path method before core count, '\n' ∉ line.toList := by
  have hparts := h.newline
  have hblock := blockLines_newline method
  have henrol : '\n' ∉ enrolLine.toList := by decide
  have hempty : '\n' ∉ "".toList := by decide
  intro line hline
  unfold linedUp at hline
  split at hline <;> simp only [List.mem_append, List.mem_cons, List.not_mem_nil, or_false] at hline
  · rcases hline with ((hline | hline) | hline) | rfl | rfl
    · exact hparts line (List.mem_append_left _ hline)
    · exact hblock line hline
    · exact hparts line (List.mem_append_right _ hline)
    · exact henrol
    · exact hempty
  · rcases hline with ((hline | hline) | hline) | hline
    · exact hparts line (List.mem_append_left _ hline)
    · exact hblock line hline
    · exact hparts line (List.mem_append_right _ hline)
    · rw [List.eq_of_mem_replicate hline]
      exact hempty

theorem linedUp_ne_nil : linedUp path method before core count ≠ [] := by
  unfold linedUp
  split <;> simp [blockLines]

theorem trimmed_whole (h : Parts body before core count) (hcore : core.getLast? ≠ some "") :
    ¬ Text.WholeLines (Text.join "\n" (before ++ blockLines method ++ core)).toList := by
  have hnewline : ∀ line ∈ before ++ blockLines method ++ core, '\n' ∉ line.toList := by
    intro line hline
    simp only [List.mem_append] at hline
    rcases hline with (hline | hline) | hline
    · exact h.newline line (List.mem_append_left _ hline)
    · exact blockLines_newline method line hline
    · exact h.newline line (List.mem_append_right _ hline)
  rw [whole_join_iff (by simp [blockLines]) hnewline, List.getLast?_append]
  cases hlast : core.getLast? with
  | none => simpa [List.getLast?_append, blockLines_ne_nil] using blockLines_last method
  | some line => simpa [hlast] using hcore

end

/-- Putting the lines in does nothing where they are; else it puts them among those of the stack, or of what is left of it
without older ones. -/
theorem addOathLine_cases (path method content : String) :
    (addOathLine path method content = content ∧ Text.holds content (trimNewlines (pamBlock method)) = true) ∨
      ∃ before core count, Parts (if Text.holds content factorGuard then removeOathLine content else content)
          before core count ∧
        addOathLine path method content = Text.join "\n" (linedUp path method before core count) := by
  unfold addOathLine
  dsimp only
  split
  next hholds => exact .inl ⟨rfl, hholds⟩
  next =>
    right
    generalize (if Text.holds content factorGuard = true then removeOathLine content else content) = body
    obtain ⟨before, after, hsplit, hbefore, hinserted⟩ := inserted_split body method
    obtain ⟨core, count, rfl, hcore⟩ := exists_core after
    have hparts : Parts body before core count := by
      refine ⟨by rw [hsplit, List.append_assoc], ?_⟩
      rw [List.getLast?_append]
      cases hlast : core.getLast? with
      | none => simpa using hbefore
      | some line => simpa [hlast] using hcore
    refine ⟨before, core, count, hparts, ?_⟩
    · rw [hinserted, linedUp]
      split
      · rw [trimNewlines, ← List.append_assoc, Text.stripEnd_join (by simp [blockLines]) (trimmed_whole hparts hcore),
          Text.join_append (by simp [blockLines]) (List.cons_ne_nil _ _)]
        have htail : Text.join "\n" [enrolLine, ""] = enrolLine ++ "\n" := by decide
        rw [htail, String.append_assoc, String.append_assoc]
      · rw [← List.append_assoc]

theorem holds_iff_split {content mark : String} (hne : mark.toList ≠ []) (hmark : '\n' ∉ mark.toList) :
    Text.holds content mark = true ↔ ∃ line ∈ Text.split '\n' content, Text.holds line mark = true := by
  rw [holds_iff hne]
  nth_rewrite 1 [← Text.join_split content]
  rw [Text.infix_join_iff hmark hne]
  simp only [holds_iff hne]

theorem carries_iff (content : String) : carries content = true ↔ ∃ line ∈ Text.split '\n' content, carries line = true := by
  have hoath := @holds_iff_split content oathMarker (by decide) (by decide)
  have henrol := @holds_iff_split content enrolHelper (by decide) (by decide)
  have hguard := @holds_iff_split content factorGuard (by decide) (by decide)
  have hpush := @holds_iff_split content pushHelper (by decide) (by decide)
  simp only [carries, Bool.or_eq_true, hoath, henrol, hguard, hpush, and_or_left, exists_or]

theorem carries_of_unmarked {content : String} (h : ∀ line ∈ Text.split '\n' content, drops line = false) :
    carries content = false := by
  rw [← Bool.not_eq_true, carries_iff]
  rintro ⟨line, hline, hcarries⟩
  have hdrops := h line hline
  rw [drops, hcarries] at hdrops
  cases hdrops

theorem removeOathLine_unmarked {content : String} (h : carries content = true) :
    ∀ line ∈ Text.split '\n' (removeOathLine content), drops line = false := by
  have hempty : drops "" = false := by decide
  intro line hline
  rw [removeOathLine, h] at hline
  simp only [Bool.not_true, Bool.false_eq_true, if_false] at hline
  by_cases hnil : (Text.split '\n' content).filter (fun line => !drops line) = []
  · rw [hnil] at hline
    obtain rfl := List.mem_singleton.mp hline
    exact hempty
  · rw [Text.split_join hnil fun part hpart => Text.mem_split (List.mem_filter.mp hpart).1] at hline
    simpa using (List.mem_filter.mp hline).2

theorem holds_add (path method content : String) :
    Text.holds (addOathLine path method content) (trimNewlines (pamBlock method)) = true := by
  rcases addOathLine_cases path method content with ⟨hsame, hholds⟩ | ⟨before, core, count, -, hadd⟩
  · rwa [hsame]
  · have hne : (Text.join "\n" (blockLines method)).toList ≠ [] := by simp [blockLines, Text.join]
    rw [hadd, trim_pamBlock, holds_iff hne, linedUp]
    split
    · rw [List.append_assoc (before ++ blockLines method)]
      exact Text.infix_join (blockLines_ne_nil method)
    · rw [List.append_assoc (before ++ blockLines method)]
      exact Text.infix_join (blockLines_ne_nil method)

theorem add_twice (path method content : String) :
    addOathLine path method (addOathLine path method content) = addOathLine path method content := by
  have hholds := holds_add path method content
  generalize addOathLine path method content = stack at *
  unfold addOathLine
  rw [if_pos hholds]

theorem guard_of_block {content method : String} (h : Text.holds content (trimNewlines (pamBlock method)) = true) :
    Text.holds content factorGuard = true := by
  have hne : (Text.join "\n" (blockLines method)).toList ≠ [] := by simp [blockLines, Text.join]
  have hguard : factorGuard.toList <:+: guardLine.toList := by decide +kernel
  rw [trim_pamBlock, holds_iff hne] at h
  rw [holds_iff (by decide)]
  refine (hguard.trans ?_).trans h
  have hjoin := @Text.infix_join [managed] [guardLine] [methodLine method] (List.cons_ne_nil _ _)
  rwa [Text.join_singleton] at hjoin

theorem carries_of_guard {content : String} (h : Text.holds content factorGuard = true) : carries content = true := by
  simp [carries, h]

section
variable {content : String} (hbare : ∀ line ∈ Text.split '\n' content, drops line = false)

include hbare in
theorem add_bare (path method : String) : ∃ before core count, Parts content before core count ∧
    addOathLine path method content = Text.join "\n" (linedUp path method before core count) := by
  have hguard : Text.holds content factorGuard = false := by
    rw [← Bool.not_eq_true]
    intro hholds
    have hcarries := carries_of_guard hholds
    rw [carries_of_unmarked hbare] at hcarries
    cases hcarries
  rcases addOathLine_cases path method content with ⟨-, hholds⟩ | ⟨before, core, count, hparts, hadd⟩
  · rw [guard_of_block hholds] at hguard
    cases hguard
  · rw [hguard] at hparts
    exact ⟨before, core, count, hparts, hadd⟩

theorem filter_linedUp {p : String → Bool} {path method : String} {before core : List String} {count : Nat}
    (hlines : ∀ line ∈ linesOf path method, p line = false) (hrest : ∀ line ∈ before ++ core, p line = true)
    (hempty : p "" = true) : (linedUp path method before core count).filter p =
      before ++ core ++ if enrolOnTty path then [""] else List.replicate count "" := by
  have hbefore : before.filter p = before :=
    List.filter_eq_self.mpr fun line hline => hrest line (List.mem_append_left _ hline)
  have hcore : core.filter p = core :=
    List.filter_eq_self.mpr fun line hline => hrest line (List.mem_append_right _ hline)
  have hblock : (blockLines method).filter p = [] := by
    refine List.filter_eq_nil_iff.mpr fun line hline => ?_
    rw [hlines line (List.mem_append_left _ hline)]
    nofun
  unfold linedUp
  split
  next htty =>
    have henrol : p enrolLine = false := hlines _ (by simp [linesOf, htty])
    simp [hbefore, hcore, hblock, henrol, hempty]
  next => simp [hbefore, hcore, hblock, hempty]

theorem filter_linesOf {p : String → Bool} {path method : String} {before core : List String} {count : Nat}
    (hlines : ∀ line ∈ linesOf path method, p line = true) (hrest : ∀ line ∈ before ++ core, p line = false)
    (hempty : p "" = false) : (linedUp path method before core count).filter p = linesOf path method := by
  have hbefore : before.filter p = [] := by
    refine List.filter_eq_nil_iff.mpr fun line hline => ?_
    rw [hrest line (List.mem_append_left _ hline)]
    nofun
  have hcore : core.filter p = [] := by
    refine List.filter_eq_nil_iff.mpr fun line hline => ?_
    rw [hrest line (List.mem_append_right _ hline)]
    nofun
  have hblock : (blockLines method).filter p = blockLines method :=
    List.filter_eq_self.mpr fun line hline => hlines line (List.mem_append_left _ hline)
  unfold linedUp
  split
  next htty =>
    have henrol : p enrolLine = true := hlines _ (by simp [linesOf, htty])
    simp [hbefore, hcore, hblock, henrol, hempty, linesOf, htty]
    rfl
  next htty =>
    simp [hbefore, hcore, hblock, hempty, linesOf, htty]
    rfl

theorem linesOf_ours {line path method : String} (h : line ∈ linesOf path method) : ours line = true :=
  @linesOf_cases (fun line => ours line = true) (by decide) (by decide) (by decide) (by decide) (by decide) _ _ _ h

theorem endsOnce_iff {before core : List String} {count : Nat} (h : Parts content before core count) :
    EndsOnce content ↔ count = 1 := by
  unfold EndsOnce
  rw [h.split]
  rcases count with _ | _ | count
  · rw [List.replicate_zero, List.append_nil]
    exact iff_of_false (fun hends => h.last hends.1) nofun
  · simpa using h.last
  · refine iff_of_false (fun hends => hends.2 ?_) (by omega)
    rw [List.replicate_succ', ← List.append_assoc, List.dropLast_concat, List.replicate_succ', ← List.append_assoc,
      List.getLast?_concat]

include hbare

theorem remove_add (path method : String) {before core : List String} {count : Nat} (hparts : Parts content before core count)
    (hadd : addOathLine path method content = Text.join "\n" (linedUp path method before core count)) :
    removeOathLine (addOathLine path method content) =
      Text.join "\n" (before ++ core ++ if enrolOnTty path then [""] else List.replicate count "") := by
  have hcarries := carries_of_guard (guard_of_block (holds_add path method content))
  have hrest : ∀ line ∈ before ++ core, (!drops line) = true := by
    intro line hline
    rw [hbare line (hparts.split ▸ List.mem_append_left _ hline)]
    rfl
  have hlines : ∀ line ∈ linesOf path method, (!drops line) = false := by
    intro line hline
    rw [drops_of_ours (linesOf_ours hline)]
    rfl
  rw [removeOathLine, hcarries]
  simp only [Bool.not_true, Bool.false_eq_true, if_false]
  rw [hadd, Text.split_join linedUp_ne_nil (linedUp_newline hparts), filter_linedUp hlines hrest (by decide)]

theorem restored_iff (path method : String) :
    removeOathLine (addOathLine path method content) = content ↔ (enrolOnTty path = true → EndsOnce content) := by
  obtain ⟨before, core, count, hparts, hadd⟩ := add_bare hbare path method
  rw [remove_add hbare path method hparts hadd, endsOnce_iff hparts]
  have hcontent := Text.join_split content
  rw [hparts.split] at hcontent
  by_cases htty : enrolOnTty path = true
  · rw [if_pos htty]
    constructor
    · intro hsame _
      have hempty : '\n' ∉ "".toList := by decide
      have hlines := congrArg (Text.split '\n') hsame
      rw [Text.split_join (by simp) ?_, hparts.split] at hlines
      · have hlength := congrArg List.length hlines
        simp only [List.length_append, List.length_replicate, List.length_singleton] at hlength
        omega
      · intro line hline
        rcases List.mem_append.mp hline with hline | hline
        · exact hparts.newline line hline
        · rw [List.mem_singleton.mp hline]
          exact hempty
    · intro hcount
      rw [hcount htty] at hcontent
      exact hcontent
  · rw [if_neg htty]
    exact iff_of_true hcontent fun h => absurd h htty

theorem holds_add_false {path method mark : String} (hne : mark.toList ≠ []) (hmark : '\n' ∉ mark.toList)
    (hcarries : ∀ line, Text.holds line mark = true → carries line = true)
    (hlines : ∀ line ∈ managed :: guardLine :: methodLine method :: enrolLine :: [""], Text.holds line mark = false) :
    Text.holds (addOathLine path method content) mark = false := by
  obtain ⟨before, core, count, hparts, hadd⟩ := add_bare hbare path method
  rw [← Bool.not_eq_true, holds_iff_split hne hmark, hadd, Text.split_join linedUp_ne_nil (linedUp_newline hparts)]
  rintro ⟨line, hline, hholds⟩
  have hstack : line ∉ before ++ core := by
    intro hmem
    have hdrops := hbare line (hparts.split ▸ List.mem_append_left _ hmem)
    rw [drops, hcarries line hholds] at hdrops
    cases hdrops
  have hadded : line ∈ managed :: guardLine :: methodLine method :: enrolLine :: [""] := by
    unfold linedUp blockLines at hline
    rw [List.mem_append] at hstack
    split at hline <;> simp only [List.mem_append, List.mem_cons, List.not_mem_nil, or_false, List.mem_replicate] at hline ⊢
    · tauto
    · tauto
  rw [hlines line hadded] at hholds
  cases hholds

theorem holds_block_false {path method other : String} (h : methodLine other ≠ methodLine method) :
    Text.holds (addOathLine path method content) (trimNewlines (pamBlock other)) = false := by
  have hblock : (Text.join "\n" (blockLines other)).toList ≠ [] := by simp [blockLines, Text.join]
  have hline := @Text.infix_join [managed, guardLine] [methodLine other] [] (List.cons_ne_nil _ _)
  rw [Text.join_singleton, List.append_nil] at hline
  rw [trim_pamBlock, holds_false_iff hblock]
  intro hinfix
  by_cases hother : other = "push"
  · have hlines : methodLine other = pushLine := if_pos hother
    have hmethod : method ≠ "push" := fun hsame => h (by rw [hlines, methodLine, if_pos hsame])
    have hfalse := @holds_add_false content hbare path method pushHelper (by decide) (by decide)
      (fun line hline => by simp [carries, hline]) (by rw [methodLine, if_neg hmethod]; decide +kernel)
    have hmark : pushHelper.toList <:+: (methodLine other).toList := by
      rw [hlines]
      decide
    exact (holds_false_iff (by decide)).mp hfalse (hmark.trans (hline.trans hinfix))
  · have hlines : methodLine other = oathLine := if_neg hother
    have hmethod : method = "push" := by_contra fun hne => h (by rw [hlines, methodLine, if_neg hne])
    have hfalse := @holds_add_false content hbare path method oathMarker (by decide) (by decide)
      (fun line hline => by simp [carries, hline]) (by rw [methodLine, if_pos hmethod]; decide +kernel)
    have hmark : oathMarker.toList <:+: (methodLine other).toList := by
      rw [hlines]
      decide
    exact (holds_false_iff (by decide)).mp hfalse (hmark.trans (hline.trans hinfix))

theorem add_other {path : String} (method other : String)
    (hrestored : removeOathLine (addOathLine path method content) = content) :
    addOathLine path other (addOathLine path method content) = addOathLine path other content := by
  by_cases hsame : methodLine other = methodLine method
  · have hblock : pamBlock other = pamBlock method := by rw [pamBlock, pamBlock, hsame]
    have hcongr : ∀ stack, addOathLine path other stack = addOathLine path method stack := by
      intro stack
      rw [addOathLine, addOathLine, hblock]
    rw [hcongr, hcongr, add_twice]
  · have hguard := guard_of_block (holds_add path method content)
    have hother : Text.holds (addOathLine path method content) (trimNewlines (pamBlock other)) = false :=
      holds_block_false hbare hsame
    have hnone : carries content = false := carries_of_unmarked hbare
    have hcontent : Text.holds content factorGuard = false := by
      rw [← Bool.not_eq_true]
      intro hholds
      rw [carries_of_guard hholds] at hnone
      cases hnone
    have hcontent' : Text.holds content (trimNewlines (pamBlock other)) = false := by
      rw [← Bool.not_eq_true]
      intro hholds
      rw [guard_of_block hholds] at hcontent
      cases hcontent
    generalize addOathLine path method content = stack at *
    rw [addOathLine, addOathLine, hother, hguard, hcontent, hcontent', hrestored]
    simp only [Bool.false_eq_true, if_false, if_true]

end

/-- A stack comes back from the second factor's lines as it was, whatever their method, exactly where it is bare. -/
theorem undoes_iff (path content : String) : Undoes path content ↔ Bare path content := by
  constructor
  · intro h
    have hcarries := carries_of_guard (guard_of_block (holds_add path "code" content))
    have hbare : ∀ line ∈ Text.split '\n' content, drops line = false := by
      have hremoved := removeOathLine_unmarked hcarries
      rwa [h.restored "code"] at hremoved
    exact ⟨hbare, (restored_iff hbare path "code").mp (h.restored "code")⟩
  · rintro ⟨hbare, hends⟩
    have hrestored : ∀ method, removeOathLine (addOathLine path method content) = content :=
      fun method => (restored_iff hbare path method).mpr hends
    refine ⟨hrestored, fun method => add_twice path method content, fun method other => ?_⟩
    obtain ⟨before, core, count, hparts, hadd⟩ := add_bare hbare path other
    have hrest : ∀ line ∈ before ++ core, ours line = false := by
      intro line hline
      rw [← Bool.not_eq_true]
      intro hours
      have hdrops := hbare line (hparts.split ▸ List.mem_append_left _ hline)
      rw [drops_of_ours hours] at hdrops
      cases hdrops
    have hempty : ours "" = false := by decide
    rw [add_other hbare method other (hrestored method), hadd, Text.split_join linedUp_ne_nil (linedUp_newline hparts)]
    refine ⟨filter_linesOf (fun line hline => linesOf_ours hline) hrest hempty, ?_⟩
    rw [filter_linedUp (fun line hline => by rw [linesOf_ours hline]; rfl) (fun line hline => by rw [hrest line hline]; rfl)
      (by rw [hempty]; rfl), hparts.split]
    split
    next htty =>
      rw [(endsOnce_iff hparts).mp (hends htty)]
      rfl
    next => rfl

/-- The session stack of a remote desktop host, with the hook of the profile disks and the comment over it. -/
def sessionHost : String := "@include common-auth\n" ++ managed ++
  "\nsession required pam_exec.so /usr/lib/odm/rd-profile\n@include common-session\n"

/-- The comment goes with the second factor's lines, and of the two empty lines that end a stack one does. -/
theorem stack_not_restored :
    ¬ Undoes "/etc/pam.d/xrdp-sesman" sessionHost ∧ ¬ Undoes "/etc/pam.d/sshd" "@include common-auth\n\n" := by
  constructor
  · intro h
    have hcarries := carries_of_guard (guard_of_block (holds_add "/etc/pam.d/xrdp-sesman" "code" sessionHost))
    have hremoved := removeOathLine_unmarked hcarries
    rw [h.restored "code"] at hremoved
    have hline : managed ∈ Text.split '\n' sessionHost := by decide +kernel
    exact absurd (hremoved managed hline) (by decide)
  · intro h
    have hbare : ∀ line ∈ Text.split '\n' "@include common-auth\n\n", drops line = false := by decide
    have hends := (restored_iff hbare "/etc/pam.d/sshd" "code").mp (h.restored "code") (by decide)
    exact hends.2 (by decide)

end OpenDirectory.FactorLines
