import OpenDirectory.AgentPrune
import OpenDirectory.Lines

/-! The agent's section of a file that is not the agent's, written again and again: what such a run of calls leaves of
the file, where the section stands, and what taking it out gives back. -/

namespace OpenDirectory.Agent

/-- A text without its blocks, and the blocks. A block goes from a begin marker to the next end marker and the newline
after that; a begin marker that no end marker follows opens none. -/
def blocksFrom : Nat → List Char → List Char × List (List Char)
  | 0, content => (content, [])
  | fuel + 1, content =>
      match Text.cutAt blockStart.toList content with
      | none => (content, [])
      | some (before, _) =>
          match Text.cutAt blockEnd.toList (content.drop before.length) with
          | none => (content, [])
          | some (inside, tail) =>
              let (own, blocks) := blocksFrom fuel (dropNewline tail)
              (before ++ own, (inside ++ blockEnd.toList ++ tail.take (tail.length - (dropNewline tail).length)) :: blocks)

/-- What the file's owner has in it. -/
def outsideBlocks (content : String) : String := String.ofList (blocksFrom content.length content.toList).1

def blocks (content : String) : List String := (blocksFrom content.length content.toList).2.map String.ofList

def begun (content : String) : Bool := Text.holds content blockStart

/-- The lines before the first one the section has to come before, and the others. -/
def leading (content : String) : List String := (Text.split '\n' content).takeWhile fun line => !mustFollow line

def following (content : String) : List String := (Text.split '\n' content).drop (leading content).length

/-- The line before the one the section has to come before is not empty. -/
def Filled (content : String) : Prop := (leading content).getLast? = some "" → following content = []

/-- What a call makes of the text of a file that can be read and written. -/
def replaced (content body : String) : String :=
  if body = "" then if begun content then stripBlock content else content
  else place (ended (stripBlock content)) (section_ body)

/-- The text of a file, which is none at all where there is no file. -/
def text (env : Env) (path : String) : String := (env.files path).getD ""

theorem text_replaceBlock (env : Env) (path body : String) :
    text (replaceBlock {} env path body).1 path = replaced (text env path) body := by
  unfold text replaced
  by_cases hbody : body = ""
  · subst hbody
    rw [replaceBlock_empty_files, if_pos rfl]
    cases hfile : env.files path with
    | none =>
        have hempty : Text.holds "" blockStart = false := by decide
        simp [hfile, begun, hempty]
    | some content =>
        simp only [Files.put, Function.update_self, taken, begun, Option.getD_some, Bool.true_and]
        rfl
  · rw [if_neg hbody]
    simp [replaceBlock, hbody, writeFile, Files.put]

/-- The file is what it was, or has a newline after that. -/
def UpToNewline (before after : String) : Prop := after = before ∨ after = before ++ "\n"

/-- A text that is another one with a section put into it at the start of a line: before the first line that must follow
it, and at the end where there is none. -/
def PlacedIn (kept section_ content : String) : Prop :=
  ∃ before after, kept = before ++ after ∧ content = before ++ section_ ++ after ∧ Text.WholeLines before.toList ∧
    (∀ line ∈ Text.split '\n' before, mustFollow line = false) ∧
    (after = "" ∨ ∃ line ∈ (Text.split '\n' after).head?, mustFollow line = true)

/-- What a file has to be after calls of which the last had this body. -/
structure Left (original content last : String) : Prop where
  outside : UpToNewline (outsideBlocks original) (outsideBlocks content)
  placed : last ≠ "" → blocks content = [section_ last] ∧ PlacedIn (outsideBlocks content) (section_ last) content
  restored : last = "" → blocks content = [] ∧ UpToNewline (outsideBlocks original) content

/-- A body without the markers. -/
def Plain (body : String) : Prop := Text.holds body blockStart = false ∧ Text.holds body blockEnd = false

def calls (env : Env) (path : String) (bodies : List String) : Env :=
  bodies.foldl (fun env body => (replaceBlock {} env path body).1) env

/-- No begin marker stands outside a block, there is one block at most, and the line before the one that the section has
to come before is not empty. -/
structure Fit (content : String) : Prop where
  closed : begun (outsideBlocks content) = false
  single : (blocks content).length ≤ 1
  filled : Filled (outsideBlocks content)

theorem holds_iff {content mark : String} (hne : mark.toList ≠ []) :
    Text.holds content mark = true ↔ mark.toList <:+: content.toList := by
  rw [Text.holds, Option.isSome_iff_ne_none, ne_eq, cutAt_none hne, not_not]

theorem holds_false_iff {content mark : String} (hne : mark.toList ≠ []) :
    Text.holds content mark = false ↔ ¬ mark.toList <:+: content.toList := by
  rw [← Bool.not_eq_true, holds_iff hne]

theorem endsWith_newline {text : String} : Text.endsWith text "\n" = true ↔ ∃ xs, text.toList = xs ++ ['\n'] := by
  rw [Text.endsWith, List.isSuffixOf_iff_suffix]
  exact ⟨fun ⟨xs, h⟩ => ⟨xs, h.symm⟩, fun ⟨xs, h⟩ => ⟨xs, h.symm⟩⟩

theorem ended_of_whole {text : String} (h : Text.WholeLines text.toList) : ended text = text := by
  unfold ended
  rcases h with hnil | hends
  · rw [String.toList_inj.mp (show text.toList = "".toList from hnil)]
    rfl
  · rw [endsWith_newline.mpr hends]
    simp

theorem ended_of_not_whole {text : String} (h : ¬ Text.WholeLines text.toList) : ended text = text ++ "\n" := by
  unfold ended
  have hne : text ≠ "" := by
    rintro rfl
    exact h (.inl rfl)
  have hends : Text.endsWith text "\n" = false := by
    rw [← Bool.not_eq_true, endsWith_newline]
    exact fun hends => h (.inr hends)
  simp [hne, hends]

theorem whole_ended (text : String) : Text.WholeLines (ended text).toList := by
  by_cases h : Text.WholeLines text.toList
  · rwa [ended_of_whole h]
  · rw [ended_of_not_whole h]
    exact .inr ⟨text.toList, by simp⟩

theorem upToNewline_ended (text : String) : UpToNewline text (ended text) := by
  by_cases h : Text.WholeLines text.toList
  · exact .inl (ended_of_whole h)
  · exact .inr (ended_of_not_whole h)

theorem whole_join_iff {parts : List String} (hne : parts ≠ []) (hparts : ∀ part ∈ parts, '\n' ∉ part.toList) :
    Text.WholeLines (Text.join "\n" parts).toList ↔ parts.getLast? = some "" := by
  obtain ⟨init, last, rfl⟩ := (List.eq_nil_or_concat parts).resolve_left hne
  have hlast : '\n' ∉ last.toList := hparts last (by simp)
  have hiff : Text.WholeLines last.toList ↔ last = "" := by
    constructor
    · rintro (hnil | ⟨xs, hxs⟩)
      · exact String.toList_inj.mp hnil
      · exact absurd (hxs ▸ List.mem_append_right _ (List.mem_singleton.mpr rfl)) hlast
    · rintro rfl
      exact .inl rfl
  rw [List.concat_eq_append, List.getLast?_concat, Option.some_inj, ← hiff]
  by_cases hinit : init = []
  · subst hinit
    exact Iff.of_eq (congrArg _ (congrArg _ String.intercalate_singleton))
  · rw [Text.join_append hinit (List.cons_ne_nil _ _), String.toList_append]
    have hbefore : Text.WholeLines (Text.join "\n" init ++ "\n").toList := .inr ⟨(Text.join "\n" init).toList, by simp⟩
    rw [hbefore.append_iff]
    exact Iff.of_eq (congrArg _ (congrArg _ String.intercalate_singleton))

section
variable (kept : String)

theorem split_eq_leading_append : Text.split '\n' kept = leading kept ++ following kept :=
  (List.prefix_iff_eq_append.mp (List.takeWhile_prefix _)).symm

theorem leading_line {line : String} (h : line ∈ leading kept) : mustFollow line = false := by
  simpa using List.mem_takeWhile_imp h

theorem following_eq_dropWhile : following kept = (Text.split '\n' kept).dropWhile fun line => !mustFollow line :=
  Text.drop_length_takeWhile _ _

theorem following_head {line : String} (h : line ∈ (following kept).head?) : mustFollow line = true := by
  have hhead := List.head?_dropWhile_not (fun line => !mustFollow line) (Text.split '\n' kept)
  rw [← following_eq_dropWhile, Option.mem_def.mp h] at hhead
  simpa using hhead

def placeBefore : String := if following kept = [] then kept else ended (Text.join "\n" (leading kept))

def placeAfter : String := Text.join "\n" (following kept)

theorem place_eq (new : String) : place kept new = placeBefore kept ++ new ++ placeAfter kept := by
  unfold place placeBefore placeAfter
  show (if (following kept).isEmpty = true then kept ++ new
    else ended (Text.join "\n" (leading kept)) ++ new ++ Text.join "\n" (following kept)) = _
  by_cases hfollowing : following kept = []
  · simp [hfollowing, Text.join]
  · simp [hfollowing]

theorem leading_newline : ∀ line ∈ leading kept, '\n' ∉ line.toList := by
  intro line hline
  exact Text.mem_split (split_eq_leading_append kept ▸ List.mem_append_left _ hline)

theorem following_newline : ∀ line ∈ following kept, '\n' ∉ line.toList := by
  intro line hline
  exact Text.mem_split (split_eq_leading_append kept ▸ List.mem_append_right _ hline)

theorem mustFollow_empty : mustFollow "" = false := by decide

theorem placeBefore_eq (hfollowing : following kept ≠ []) :
    placeBefore kept = if leading kept = [] then "" else if (leading kept).getLast? = some "" then
      Text.join "\n" (leading kept) else Text.join "\n" (leading kept) ++ "\n" := by
  unfold placeBefore
  rw [if_neg hfollowing]
  by_cases hleading : leading kept = []
  · rw [if_pos hleading, hleading]
    rfl
  rw [if_neg hleading]
  have hwhole := whole_join_iff hleading (leading_newline kept)
  split
  next hlast => exact ended_of_whole (hwhole.mpr hlast)
  next hlast => exact ended_of_not_whole (hlast ∘ hwhole.mp)

variable {kept}

theorem placeBefore_append (h : Filled kept) : placeBefore kept ++ placeAfter kept = kept := by
  by_cases hfollowing : following kept = []
  · simp [placeBefore, placeAfter, hfollowing, Text.join]
  · rw [placeBefore_eq kept hfollowing, placeAfter]
    have hlast : (leading kept).getLast? ≠ some "" := hfollowing ∘ h
    have hjoin := Text.join_split kept
    rw [split_eq_leading_append kept] at hjoin
    by_cases hleading : leading kept = []
    · rw [hleading, List.nil_append] at hjoin
      rw [if_pos hleading, hjoin, String.empty_append]
    · rw [Text.join_append hleading hfollowing] at hjoin
      rw [if_neg hleading, if_neg hlast, hjoin]

theorem whole_placeBefore (h : Text.WholeLines kept.toList) : Text.WholeLines (placeBefore kept).toList := by
  unfold placeBefore
  split
  · exact h
  · exact whole_ended _

theorem split_placeBefore : ∀ line ∈ Text.split '\n' (placeBefore kept), mustFollow line = false := by
  intro line hline
  by_cases hfollowing : following kept = []
  · rw [placeBefore, if_pos hfollowing, split_eq_leading_append, hfollowing, List.append_nil] at hline
    exact leading_line kept hline
  rw [placeBefore_eq kept hfollowing] at hline
  split at hline
  next =>
    obtain rfl := List.mem_singleton.mp hline
    exact mustFollow_empty
  next hleading =>
    split at hline
    next =>
      rw [Text.split_join hleading (leading_newline kept)] at hline
      exact leading_line kept hline
    next =>
      have hjoin : Text.join "\n" (leading kept) ++ "\n" = Text.join "\n" (leading kept ++ [""]) := by
        rw [Text.join_append hleading (List.cons_ne_nil _ _)]
        exact (String.append_empty).symm
      rw [hjoin, Text.split_join (by simp) (by simpa [or_imp, forall_and] using leading_newline kept)] at hline
      rcases List.mem_append.mp hline with hline | hline
      · exact leading_line kept hline
      · rw [List.mem_singleton.mp hline]
        exact mustFollow_empty

theorem split_placeAfter : placeAfter kept = "" ∨ ∃ line ∈ (Text.split '\n' (placeAfter kept)).head?, mustFollow line = true := by
  unfold placeAfter
  by_cases hfollowing : following kept = []
  · rw [hfollowing]
    exact .inl rfl
  · rw [Text.split_join hfollowing (following_newline kept)]
    obtain ⟨line, rest, hcons⟩ := List.exists_cons_of_ne_nil hfollowing
    refine .inr ⟨line, by rw [hcons]; rfl, following_head kept (by rw [hcons]; rfl)⟩

end

theorem newline_notMem_blockStart : '\n' ∉ blockStart.toList := by decide

theorem newline_notMem_blockEnd : '\n' ∉ blockEnd.toList := by decide

/-- The section without its end marker. -/
def opening (body : String) : String := blockStart ++ "\n" ++ if Text.endsWith body "\n" then body else body ++ "\n"

theorem section_eq (body : String) : section_ body = opening body ++ blockEnd ++ "\n" := rfl

theorem whole_opening (body : String) : Text.WholeLines (opening body).toList := by
  unfold opening
  split
  next hends =>
    obtain ⟨xs, hxs⟩ := endsWith_newline.mp hends
    exact .inr ⟨(blockStart ++ "\n").toList ++ xs, by simp [hxs]⟩
  next => exact .inr ⟨(blockStart ++ "\n" ++ body).toList, by simp⟩

theorem opening_unended {body : String} (h : Plain body) : ¬ blockEnd.toList <:+: (opening body).toList := by
  have hbody := (holds_false_iff (by decide)).mp h.2
  have hstart : ¬ blockEnd.toList <:+: blockStart.toList := by decide
  have hne : blockEnd ≠ "" := by decide
  unfold opening
  split
  · simp [Text.infix_line newline_notMem_blockEnd, hstart, hbody]
  · simp [Text.infix_line newline_notMem_blockEnd, hstart, hbody, hne]

section
variable {before after body : String} (hwhole : Text.WholeLines before.toList) (hbefore : begun before = false)
  (hplain : Plain body)

include hwhole hbefore in
theorem cut_start :
    ∃ rest, Text.cutAt blockStart.toList (before ++ section_ body ++ after).toList = some (before.toList, rest) := by
  have hnone := (holds_false_iff (by decide)).mp hbefore
  obtain ⟨rest, hsection⟩ : ∃ rest, (section_ body ++ after).toList = blockStart.toList ++ rest := by
    simp [section_eq, opening]
  rw [String.append_assoc, String.toList_append, hwhole.cutAt newline_notMem_blockStart (by decide) hnone, hsection,
    Text.cutAt_self (by decide)]
  exact ⟨rest, by simp⟩

include hplain in
theorem cut_end : Text.cutAt blockEnd.toList (section_ body ++ after).toList =
    some ((opening body).toList, '\n' :: after.toList) := by
  have hsection : (section_ body ++ after).toList = (opening body).toList ++ (blockEnd.toList ++ '\n' :: after.toList) := by
    simp [section_eq]
  rw [hsection, (whole_opening body).cutAt newline_notMem_blockEnd (by decide) (opening_unended hplain),
    Text.cutAt_self (by decide)]
  simp

include hwhole hbefore hplain

theorem stripBlock_section : stripBlock (before ++ section_ body ++ after) = before ++ after := by
  obtain ⟨rest, hcut⟩ := @cut_start before after body hwhole hbefore
  unfold stripBlock
  rw [hcut]
  dsimp only
  have hdrop : (before ++ section_ body ++ after).toList.drop before.toList.length = (section_ body ++ after).toList := by
    simp
  rw [hdrop, cut_end hplain]
  simp

theorem blocksFrom_section (fuel : Nat) :
    blocksFrom (fuel + 1) (before ++ section_ body ++ after).toList =
      (before.toList ++ (blocksFrom fuel after.toList).1, (section_ body).toList :: (blocksFrom fuel after.toList).2) := by
  obtain ⟨rest, hcut⟩ := @cut_start before after body hwhole hbefore
  rw [blocksFrom, hcut]
  dsimp only
  have hdrop : (before ++ section_ body ++ after).toList.drop before.toList.length = (section_ body ++ after).toList := by
    simp
  rw [hdrop, cut_end hplain]
  have htake : ('\n' :: after.toList).take (('\n' :: after.toList).length - (dropNewline ('\n' :: after.toList)).length) =
      ['\n'] := by
    simp [dropNewline]
  dsimp only
  rw [htake]
  simp [dropNewline, section_eq]

end

theorem blocksFrom_unbegun {content : List Char} (h : ¬ blockStart.toList <:+: content) (fuel : Nat) :
    blocksFrom fuel content = (content, []) := by
  cases fuel with
  | zero => rfl
  | succ fuel =>
      unfold blocksFrom
      rw [(cutAt_none (by decide)).mpr h]

variable {content original : String}

theorem outsideBlocks_unbegun (h : begun content = false) :
    outsideBlocks content = content ∧ blocks content = [] := by
  have hnone := (holds_false_iff (by decide)).mp h
  unfold outsideBlocks blocks
  rw [blocksFrom_unbegun hnone]
  simp

theorem outsideBlocks_section {before after body : String} (hwhole : Text.WholeLines before.toList)
    (hbefore : begun before = false) (hplain : Plain body) (hafter : begun after = false) :
    outsideBlocks (before ++ section_ body ++ after) = before ++ after ∧
      blocks (before ++ section_ body ++ after) = [section_ body] := by
  have hnone := (holds_false_iff (by decide)).mp hafter
  obtain ⟨fuel, hfuel⟩ : ∃ fuel, (before ++ section_ body ++ after).length = fuel + 1 := by
    apply Nat.exists_eq_succ_of_ne_zero
    simp [section_eq]
  unfold outsideBlocks blocks
  rw [hfuel, blocksFrom_section hwhole hbefore hplain, blocksFrom_unbegun hnone]
  simp

theorem stripBlock_unbegun (h : begun content = false) : stripBlock content = content := by
  unfold stripBlock
  rw [(cutAt_none (by decide)).mpr ((holds_false_iff (by decide)).mp h)]

theorem replaced_empty (content : String) : replaced content "" = stripBlock content := by
  unfold replaced
  rw [if_pos rfl]
  split
  next => rfl
  next h => exact (stripBlock_unbegun (Bool.eq_false_iff.mpr h)).symm

theorem begun_of_infix {kept : String} (h : content.toList <:+: kept.toList) (hkept : begun kept = false) :
    begun content = false := by
  rw [begun, holds_false_iff (by decide)] at hkept ⊢
  exact fun hcontent => hkept (hcontent.trans h)

theorem begun_ended (h : begun content = false) : begun (ended content) = false := by
  rcases upToNewline_ended content with hsame | hmore
  · rwa [hsame]
  · have hne : blockStart ≠ "" := by decide
    rw [begun, holds_false_iff (by decide)] at h ⊢
    rw [hmore]
    simp [Text.infix_line newline_notMem_blockStart, h, hne]

theorem following_ended (content : String) : following (ended content) = [] ↔ following content = [] := by
  rcases upToNewline_ended content with hsame | hmore
  · rw [hsame]
  · rw [hmore, ← String.append_empty (s := content ++ "\n"), following_eq_dropWhile, following_eq_dropWhile,
      Text.split_append, List.dropWhile_append]
    split
    next hnil =>
      have hsplit : Text.split '\n' "" = [""] := rfl
      simp [List.isEmpty_iff.mp hnil, hsplit, mustFollow_empty]
    next hnot =>
      rw [List.isEmpty_iff] at hnot
      simp [hnot]

theorem leading_ended (h : following content ≠ []) : leading (ended content) = leading content := by
  rcases upToNewline_ended content with hsame | hmore
  · rw [hsame]
  · rw [hmore, ← String.append_empty (s := content ++ "\n"), leading, Text.split_append, List.takeWhile_append, if_neg]
    · rfl
    · intro hlength
      have hsplit := congrArg List.length (split_eq_leading_append content)
      rw [List.length_append] at hsplit
      have hzero : (following content).length = 0 := by
        unfold leading at hsplit
        omega
      exact h (List.length_eq_zero_iff.mp hzero)

theorem filled_ended (h : Filled content) : Filled (ended content) := by
  intro hlast
  rw [following_ended]
  by_contra hfollowing
  rw [leading_ended hfollowing] at hlast
  exact hfollowing (h hlast)

theorem text_calls (env : Env) (path : String) (bodies : List String) :
    text (calls env path bodies) path = bodies.foldl replaced (text env path) := by
  induction bodies generalizing env with
  | nil => rfl
  | cons body bodies ih =>
      rw [List.foldl_cons, ← text_replaceBlock]
      exact ih _

theorem placed_in {kept body : String} (hwhole : Text.WholeLines kept.toList) (hkept : begun kept = false)
    (hfilled : Filled kept) (hplain : Plain body) :
    outsideBlocks (place kept (section_ body)) = kept ∧ blocks (place kept (section_ body)) = [section_ body] ∧
      stripBlock (place kept (section_ body)) = kept ∧ PlacedIn kept (section_ body) (place kept (section_ body)) := by
  have happend := placeBefore_append hfilled
  have hpieces : kept.toList = (placeBefore kept).toList ++ (placeAfter kept).toList := by
    rw [← String.toList_append, happend]
  have hbegin := begun_of_infix (hpieces ▸ (List.prefix_append _ _).isInfix) hkept
  have hafter := begun_of_infix (hpieces ▸ (List.suffix_append _ _).isInfix) hkept
  have hbefore := whole_placeBefore hwhole
  obtain ⟨houtside, hblocks⟩ := outsideBlocks_section hbefore hbegin hplain hafter
  rw [place_eq]
  rw [happend] at houtside
  refine ⟨houtside, hblocks, ?_, ?_⟩
  · rw [stripBlock_section hbefore hbegin hplain, happend]
  · exact ⟨_, _, happend.symm, rfl, hbefore, split_placeBefore, split_placeAfter⟩

/-- Without its section the file is this text, or that with its last line ended. -/
def Settled (kept content : String) : Prop := stripBlock content = kept ∨ stripBlock content = ended kept

theorem left_replaced {body : String} (hfit : Fit original)
    (hsettled : Settled (outsideBlocks original) content) (hplain : Plain body) :
    Left original (replaced content body) body ∧ Settled (outsideBlocks original) (replaced content body) := by
  have hended := begun_ended hfit.closed
  have htwice : ended (ended (outsideBlocks original)) = ended (outsideBlocks original) := ended_of_whole (whole_ended _)
  by_cases hbody : body = ""
  · subst hbody
    rw [replaced_empty]
    have hbegun : begun (stripBlock content) = false := by
      rcases hsettled with hsame | hsame
      · rw [hsame]
        exact hfit.closed
      · rw [hsame]
        exact hended
    have hup : UpToNewline (outsideBlocks original) (stripBlock content) := by
      rcases hsettled with hsame | hsame
      · exact .inl hsame
      · rw [hsame]
        exact upToNewline_ended _
    obtain ⟨houtside, hblocks⟩ := outsideBlocks_unbegun hbegun
    constructor
    · exact ⟨by rwa [houtside], fun hne => absurd rfl hne, fun _ => ⟨hblocks, hup⟩⟩
    · unfold Settled
      rwa [stripBlock_unbegun hbegun]
  · have hplace : replaced content body = place (ended (outsideBlocks original)) (section_ body) := by
      rw [replaced, if_neg hbody]
      rcases hsettled with hsame | hsame
      · rw [hsame]
      · rw [hsame, htwice]
    obtain ⟨houtside, hblocks, hstrip, hplaced⟩ := placed_in (whole_ended _) hended (filled_ended hfit.filled) hplain
    rw [hplace]
    constructor
    · refine ⟨?_, fun _ => ⟨hblocks, ?_⟩, fun hempty => absurd hempty hbody⟩
      · rw [houtside]
        exact upToNewline_ended _
      · rwa [houtside]
    · exact .inr hstrip

theorem settled_foldl {bodies : List String} (hfit : Fit original)
    (hsettled : Settled (outsideBlocks original) content) (hplain : ∀ body ∈ bodies, Plain body) :
    Settled (outsideBlocks original) (bodies.foldl replaced content) := by
  induction bodies generalizing content with
  | nil => exact hsettled
  | cons body bodies ih =>
      exact ih (left_replaced hfit hsettled (hplain body List.mem_cons_self)).2 fun other hother =>
        hplain other (.tail _ hother)

theorem length_dropNewline (text : List Char) : (dropNewline text).length ≤ text.length := by
  unfold dropNewline
  split
  · rw [List.length_drop]
    exact Nat.sub_le _ _
  · exact le_rfl

theorem length_of_closed {content before rest inside tail : List Char}
    (hstart : Text.cutAt blockStart.toList content = some (before, rest))
    (hend : Text.cutAt blockEnd.toList (content.drop before.length) = some (inside, tail)) :
    before.length + tail.length + 2 ≤ content.length := by
  have hcontent := congrArg List.length (cutAt_some hstart).eq
  have hdrop := congrArg List.length (cutAt_some hend).eq
  have hmark : blockEnd.toList.length = 23 := by decide
  simp only [List.length_append, List.length_drop, hmark] at hcontent hdrop
  omega

theorem blocksFrom_length (fuel : Nat) (content : List Char) :
    (blocksFrom fuel content).2 = [] ∧ (blocksFrom fuel content).1 = content ∨
      (blocksFrom fuel content).2 ≠ [] ∧ (blocksFrom fuel content).1.length + 2 ≤ content.length := by
  induction fuel generalizing content with
  | zero => exact .inl ⟨rfl, rfl⟩
  | succ fuel ih =>
      rw [blocksFrom]
      split
      next => exact .inl ⟨rfl, rfl⟩
      next before rest hstart =>
        split
        next => exact .inl ⟨rfl, rfl⟩
        next inside tail hend =>
          refine .inr ⟨List.cons_ne_nil _ _, ?_⟩
          have hclosed := length_of_closed hstart hend
          have htail := length_dropNewline tail
          have hown : (blocksFrom fuel (dropNewline tail)).1.length ≤ (dropNewline tail).length := by
            rcases ih (dropNewline tail) with ⟨-, hsame⟩ | ⟨-, hless⟩
            · rw [hsame]
            · omega
          dsimp only
          rw [List.length_append]
          omega

theorem strip_cases (content : String) :
    begun content = false ∨
      begun content = true ∧ (stripBlock content).length < content.length ∧
        ((outsideBlocks content = content ∧ blocks content = []) ∨ ∃ before tail fuel,
          stripBlock content = String.ofList (before ++ tail) ∧
          outsideBlocks content = String.ofList (before ++ (blocksFrom fuel tail).1) ∧
          blocks content ≠ [] ∧ (blocks content).length = (blocksFrom fuel tail).2.length + 1) := by
  cases hbegun : begun content with
  | false => exact .inl rfl
  | true =>
      refine .inr ⟨rfl, ?_⟩
      obtain ⟨⟨before, rest⟩, hstart⟩ := Option.isSome_iff_exists.mp hbegun
      have hcontent := congrArg List.length (cutAt_some hstart).eq
      have hmark : blockStart.toList.length = 25 := by decide
      simp only [List.length_append, hmark, String.length_toList] at hcontent
      obtain ⟨fuel, hfuel⟩ : ∃ fuel, content.length = fuel + 1 := Nat.exists_eq_succ_of_ne_zero (by omega)
      unfold stripBlock outsideBlocks blocks
      rw [hfuel, blocksFrom, hstart]
      dsimp only
      cases hend : Text.cutAt blockEnd.toList (content.toList.drop before.length) with
      | none =>
          dsimp only
          refine ⟨?_, .inl ⟨String.ofList_toList, rfl⟩⟩
          rw [String.length_ofList]
          omega
      | some parts =>
          obtain ⟨inside, tail⟩ := parts
          have hclosed := length_of_closed hstart hend
          have htail := length_dropNewline tail
          rw [String.length_toList] at hclosed
          dsimp only
          constructor
          · show (String.ofList (before ++ dropNewline tail)).length < fuel + 1
            rw [String.length_ofList, List.length_append]
            omega
          · exact .inr ⟨before, dropNewline tail, fuel, rfl, rfl, List.cons_ne_nil _ _, by simp⟩

theorem UpToNewline.length {before after : String} (h : UpToNewline before after) :
    before.length ≤ after.length ∧ after.length ≤ before.length + 1 := by
  rcases h with rfl | rfl
  · omega
  · have hone : "\n".length = 1 := by decide
    rw [String.length_append, hone]
    omega

/-- Two calls that take a section out show that at most one block was there, and no begin marker around it. -/
theorem closed_of_left (hfirst : UpToNewline (outsideBlocks original) (stripBlock original))
    (hsecond : UpToNewline (outsideBlocks original) (stripBlock (stripBlock original))) :
    begun (outsideBlocks original) = false ∧ (blocks original).length ≤ 1 ∧
      stripBlock original = outsideBlocks original := by
  rcases strip_cases original with hbegun | ⟨hbegun, hless, hcases⟩
  · obtain ⟨houtside, hblocks⟩ := outsideBlocks_unbegun hbegun
    rw [houtside, hblocks, stripBlock_unbegun hbegun]
    exact ⟨hbegun, Nat.zero_le _, rfl⟩
  · rcases hcases with ⟨houtside, hblocks⟩ | ⟨before, tail, fuel, hstrip, houtside, -, hblocks⟩
    · rw [houtside] at hfirst
      have hlength := hfirst.length
      omega
    · have hlength := hfirst.length
      rw [hstrip, houtside] at hlength
      simp only [String.length_ofList, List.length_append] at hlength
      rcases blocksFrom_length fuel tail with ⟨hnone, hsame⟩ | ⟨-, hgap⟩
      · rw [hsame, ← hstrip] at houtside
        rw [houtside, hblocks, hnone]
        refine ⟨?_, le_rfl, rfl⟩
        rcases strip_cases (stripBlock original) with hunbegun | ⟨-, hless', -⟩
        · exact hunbegun
        · rw [houtside] at hsecond
          have hlength' := hsecond.length
          omega
      · omega

theorem join_following {kept : String} (h : following kept ≠ []) :
    ∃ c rest, (Text.join "\n" (following kept)).toList = c :: rest ∧ c ≠ '\n' := by
  obtain ⟨line, lines, hlines⟩ := List.exists_cons_of_ne_nil h
  have hline : mustFollow line = true := following_head kept (by rw [hlines]; rfl)
  have hnewline := following_newline kept line (hlines ▸ List.mem_cons_self)
  obtain ⟨c, chars, hchars⟩ : ∃ c chars, line.toList = c :: chars := by
    apply List.exists_cons_of_ne_nil
    intro hnil
    rw [String.toList_inj.mp (show line.toList = "".toList from hnil), mustFollow_empty] at hline
    cases hline
  have hc : c ≠ '\n' := fun hsame => hnewline (by rw [hchars, hsame]; exact List.mem_cons_self)
  rw [hlines]
  cases lines with
  | nil => exact ⟨c, chars, by rw [Text.join, String.intercalate_singleton, hchars], hc⟩
  | cons next lines =>
      refine ⟨c, chars ++ '\n' :: (Text.join "\n" (next :: lines)).toList, ?_, hc⟩
      have hjoin := Text.toList_join_cons '\n' line next lines
      rw [hchars] at hjoin
      exact hjoin

theorem filled_of_left {kept body : String} (hkept : begun kept = false) (hplain : Plain body)
    (h : UpToNewline kept (outsideBlocks (place (ended kept) (section_ body)))) : Filled kept := by
  intro hlast
  by_contra hfollowing
  have hfollowing' : following (ended kept) ≠ [] := by rwa [ne_eq, following_ended]
  have hleading : leading kept ≠ [] := by
    intro hnil
    rw [hnil] at hlast
    cases hlast
  have hbefore : placeBefore (ended kept) = Text.join "\n" (leading kept) := by
    rw [placeBefore_eq _ hfollowing', leading_ended hfollowing, if_neg hleading, if_pos hlast]
  -- the newline between the two is what the call leaves out
  have hwhole : ended kept = placeBefore (ended kept) ++ "\n" ++ placeAfter (ended kept) := by
    rw [hbefore, placeAfter, ← Text.join_append hleading hfollowing', ← leading_ended hfollowing,
      ← split_eq_leading_append, Text.join_split]
  have hchars := congrArg String.toList hwhole
  rw [String.toList_append, String.toList_append] at hchars
  have hended := begun_ended hkept
  have hbegin : begun (placeBefore (ended kept)) = false :=
    begun_of_infix (by rw [hchars, List.append_assoc]; exact (List.prefix_append _ _).isInfix) hended
  have hafter : begun (placeAfter (ended kept)) = false :=
    begun_of_infix (by rw [hchars]; exact (List.suffix_append _ _).isInfix) hended
  obtain ⟨houtside, -⟩ := outsideBlocks_section (whole_placeBefore (whole_ended kept)) hbegin hplain hafter
  rw [place_eq, houtside] at h
  generalize placeBefore (ended kept) = before at *
  obtain ⟨c, rest, hhead, hc⟩ := join_following hfollowing'
  change (placeAfter (ended kept)).toList = c :: rest at hhead
  generalize placeAfter (ended kept) = after at *
  have hone : "\n".length = 1 := by decide
  have hlength := h.length
  have hlength' := congrArg String.length hwhole
  simp only [String.length_append, hone] at hlength hlength'
  rcases upToNewline_ended kept with hsame | hmore
  · rw [hsame] at hlength'
    omega
  · rw [hmore, String.length_append, hone] at hlength'
    rcases h with hequal | hequal
    · have htexts : (before ++ after ++ "\n").toList = (before ++ "\n" ++ after).toList := by
        rw [hequal, ← hmore, hwhole]
      simp only [String.toList_append, List.append_assoc, hhead] at htexts
      exact hc (List.cons.inj (List.append_cancel_left htexts)).1
    · have hcount := congrArg String.length hequal
      simp only [String.length_append, hone] at hcount
      omega

/-- However often it is called, the agent leaves a file outside its section as it was, keeps the section with the last
body where it has to be and gives the file back in the end, exactly where the file is fit for that. -/
theorem calls_left_iff (env : Env) (path : String) :
    (∀ bodies last, (∀ body ∈ bodies ++ [last], Plain body) →
      Left (text env path) (text (calls env path (bodies ++ [last])) path) last) ↔ Fit (text env path) := by
  have hempty : Plain "" := ⟨by decide, by decide⟩
  have hletter : Plain "x" := ⟨by decide, by decide⟩
  simp only [text_calls, List.foldl_append, List.foldl_cons, List.foldl_nil]
  generalize text env path = original
  constructor
  · intro h
    have hfirst := ((h [] "" (by simpa using hempty)).restored rfl).2
    have hsecond := ((h [""] "" (by simpa using hempty)).restored rfl).2
    simp only [List.foldl_cons, List.foldl_nil, replaced_empty] at hfirst hsecond
    obtain ⟨hclosed, hsingle, hstrip⟩ := closed_of_left hfirst hsecond
    refine ⟨hclosed, hsingle, filled_of_left hclosed hletter ?_⟩
    have houtside := (h [] "x" (by simpa using hletter)).outside
    rw [List.foldl_nil, replaced, if_neg (by decide), hstrip] at houtside
    exact houtside
  · intro hfit bodies last hplain
    have hstart : Settled (outsideBlocks original) original := by
      rcases strip_cases original with hbegun | ⟨hbegun, -, ⟨houtside, -⟩ | ⟨before, tail, fuel, hstrip, houtside, -, hblocks⟩⟩
      · exact .inl (by rw [stripBlock_unbegun hbegun, (outsideBlocks_unbegun hbegun).1])
      · have hclosed := hfit.closed
        rw [houtside, hbegun] at hclosed
        cases hclosed
      · have hsingle := hfit.single
        rcases blocksFrom_length fuel tail with ⟨-, hsame⟩ | ⟨hmore, -⟩
        · exact .inl (by rw [hstrip, houtside, hsame])
        · have hpositive := List.length_pos_iff.mpr hmore
          omega
    have hrun := settled_foldl hfit hstart fun body hbody => hplain body (List.mem_append_left _ hbody)
    exact (left_replaced hfit hrun (hplain last (List.mem_append_right _ (List.mem_singleton.mpr rfl)))).1

instance (before after : String) : Decidable (UpToNewline before after) := inferInstanceAs (Decidable (_ ∨ _))

/-- A session stack whose last line makes the home directory, after an empty line. -/
def sessionStack : String := "session optional pam_umask.so\n\nsession required pam_mkhomedir.so\n"

/-- A file in which the agent's section has lost its end. -/
def lostEnd : String := "first\n# BEGIN ODM MANAGED BLOCK\nlast\n"

/-- The empty line goes with the first section, and everything after a begin marker that is not closed with the section
that is taken out. -/
theorem lines_are_lost :
    ¬ Left sessionStack (text (calls ⟨fun _ => some sessionStack, {}⟩ "/etc/pam.d/common-session" ["x\n"])
      "/etc/pam.d/common-session") "x\n" ∧
    ¬ Left lostEnd (text (calls ⟨fun _ => some lostEnd, {}⟩ "/etc/login.defs" [""]) "/etc/login.defs") "" := by
  constructor
  · intro h
    exact absurd h.outside (by decide +kernel)
  · intro h
    exact absurd h.outside (by decide +kernel)

end OpenDirectory.Agent
