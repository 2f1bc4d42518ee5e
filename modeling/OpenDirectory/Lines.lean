import OpenDirectory.Text

/-! Texts as lines, and marks that stay inside a line: a mark that holds no newline is found on one side of a newline or
on the other, never across it. -/

namespace Text

section
variable {mark xs ys : List Char}

theorem infix_line (hmark : '\n' ∉ mark) : mark <:+: xs ++ '\n' :: ys ↔ mark <:+: xs ∨ mark <:+: ys := by
  constructor
  · rintro ⟨before, after, h⟩
    rcases List.append_eq_append_iff.mp h with ⟨more, hxs, -⟩ | ⟨more, hbefore, hys⟩
    · exact .inl ⟨before, more, hxs.symm⟩
    · cases more with
      | nil =>
          rw [List.append_nil] at hbefore
          exact .inl ⟨before, [], by rw [List.append_nil, hbefore]⟩
      | cons c more =>
          obtain ⟨rfl, rfl⟩ := List.cons.inj hys
          rcases List.append_eq_append_iff.mp hbefore with ⟨tail, -, htail⟩ | ⟨tail, -, htail⟩
          · exact absurd (htail ▸ List.mem_append_right _ List.mem_cons_self) hmark
          · cases tail with
            | nil =>
                rw [List.nil_append] at htail
                exact absurd (htail ▸ List.mem_cons_self) hmark
            | cons c tail =>
                obtain ⟨-, rfl⟩ := List.cons.inj htail
                exact .inr ⟨tail, after, rfl⟩
  · rintro (⟨before, after, rfl⟩ | ⟨before, after, rfl⟩)
    · exact ⟨before, after ++ '\n' :: ys, by simp⟩
    · exact ⟨xs ++ '\n' :: before, after, by simp⟩

theorem cutAt_line (hmark : '\n' ∉ mark) (hne : mark ≠ []) (hxs : ¬ mark <:+: xs) :
    cutAt mark (xs ++ '\n' :: ys) = (cutAt mark ys).map fun parts => (xs ++ '\n' :: parts.1, parts.2) := by
  induction xs with
  | nil =>
      obtain ⟨c, rest, rfl⟩ := List.exists_cons_of_ne_nil hne
      have hc : ¬ c = '\n' := fun h => hmark (h ▸ List.mem_cons_self)
      simp [cutAt, List.isPrefixOf, hc]
  | cons c xs ih =>
      have hnot : ¬ mark <+: c :: (xs ++ '\n' :: ys) := by
        intro hprefix
        obtain ⟨rest, hrest⟩ := hprefix
        rcases List.append_eq_append_iff.mp (show mark ++ rest = (c :: xs) ++ '\n' :: ys from hrest) with
          ⟨more, hmore, -⟩ | ⟨more, hmore, hys⟩
        · exact hxs ⟨[], more, by rw [List.nil_append, hmore]⟩
        · cases more with
          | nil => exact hxs ⟨[], [], by rw [hmore]; simp⟩
          | cons d more =>
              obtain ⟨rfl, -⟩ := List.cons.inj hys
              exact hmark (hmore ▸ List.mem_append_right _ List.mem_cons_self)
      have hrest : ¬ mark <:+: xs := fun h => hxs (List.infix_cons_iff.mpr (.inr h))
      rw [List.cons_append, cutAt, if_neg (by rwa [List.isPrefixOf_iff_prefix]), ih hrest, Option.map_map]
      rfl

/-- The lines at the start of a text: nothing, or a text that ends with a newline. -/
def WholeLines (text : List Char) : Prop := text = [] ∨ ∃ xs, text = xs ++ ['\n']

theorem wholeLines_iff {text : List Char} : WholeLines text ↔ ∀ c ∈ text.getLast?, c = '\n' := by
  rcases List.eq_nil_or_concat text with rfl | ⟨xs, c, rfl⟩
  · simp [WholeLines]
  · rw [List.concat_eq_append, List.getLast?_concat]
    constructor
    · rintro (hnil | ⟨ys, hys⟩) d hd
      · simp at hnil
      · obtain ⟨-, hlast⟩ := List.append_inj' hys rfl
        rw [← Option.some.inj hd]
        exact (List.cons.inj hlast).1
    · intro h
      exact .inr ⟨xs, by rw [h c rfl]⟩

theorem WholeLines.append_iff {before rest : List Char} (h : WholeLines before) :
    WholeLines (before ++ rest) ↔ WholeLines rest := by
  cases rest with
  | nil =>
      rw [List.append_nil]
      exact iff_of_true h (.inl rfl)
  | cons c rest => rw [wholeLines_iff, wholeLines_iff, List.getLast?_append_of_ne_nil _ (List.cons_ne_nil c rest)]

theorem WholeLines.cutAt {before rest : List Char} (h : WholeLines before) (hmark : '\n' ∉ mark) (hne : mark ≠ [])
    (hbefore : ¬ mark <:+: before) :
    Text.cutAt mark (before ++ rest) = (Text.cutAt mark rest).map fun parts => (before ++ parts.1, parts.2) := by
  rcases h with rfl | ⟨xs, rfl⟩
  · simp
  · rw [infix_line hmark] at hbefore
    rw [List.append_assoc, List.singleton_append, cutAt_line hmark hne (hbefore <| .inl ·)]
    simp

theorem cutAt_self (hne : mark ≠ []) : Text.cutAt mark (mark ++ ys) = some ([], ys) := by
  obtain ⟨c, rest, rfl⟩ := List.exists_cons_of_ne_nil hne
  rw [List.cons_append, Text.cutAt, if_pos (by simp [List.isPrefixOf_iff_prefix])]
  simp

end

theorem drop_length_takeWhile (p : String → Bool) (lines : List String) :
    lines.drop (lines.takeWhile p).length = lines.dropWhile p := by
  have happend := List.prefix_iff_eq_append.mp (List.takeWhile_prefix (l := lines) p)
  exact List.append_cancel_left (happend.trans List.takeWhile_append_dropWhile.symm)

theorem join_append {parts parts' : List String} (h : parts ≠ []) (h' : parts' ≠ []) :
    join "\n" (parts ++ parts') = join "\n" parts ++ "\n" ++ join "\n" parts' :=
  String.intercalate_append_of_ne_nil h h'

theorem join_singleton (part : String) : join "\n" [part] = part := String.intercalate_singleton

theorem join_split (s : String) : join "\n" (split '\n' s) = s := by
  apply String.toList_inj.mp
  rw [join, String.toList_intercalate, split, List.map_map]
  have hid : String.toList ∘ String.ofList = id := funext fun _ => String.toList_ofList
  rw [hid, List.map_id]
  exact List.intercalate_splitOn '\n'

theorem split_append (a b : String) : split '\n' (a ++ "\n" ++ b) = split '\n' a ++ split '\n' b := by
  have hsplit := List.splitOnP_append_cons (p := (· == '\n')) a.toList b.toList (beq_self_eq_true '\n')
  rw [split, split, split, ← List.map_append]
  unfold List.splitOn
  rw [← hsplit]
  simp

theorem split_ne_nil (s : String) : split '\n' s ≠ [] := by
  simp [split, List.splitOn_ne_nil]

theorem split_join {parts : List String} (h : parts ≠ []) (hparts : ∀ part ∈ parts, '\n' ∉ part.toList) :
    split '\n' (join "\n" parts) = parts := by
  rw [split, join, String.toList_intercalate]
  have hsplit : (['\n'].intercalate (parts.map String.toList)).splitOn '\n' = parts.map String.toList :=
    List.splitOn_intercalate '\n' (by simpa using hparts) (by simpa using h)
  rw [show "\n".toList = ['\n'] from rfl, hsplit, List.map_map]
  simp

theorem mem_splitOnP {p : Char → Bool} {text part : List Char} (h : part ∈ text.splitOnP p) :
    (∀ c ∈ part, p c = false) ∧ part ⊆ text := by
  induction text generalizing part with
  | nil =>
      obtain rfl : part = [] := by simpa using h
      simp
  | cons c text ih =>
      rw [List.splitOnP_cons_eq_if_modifyHead] at h
      split at h
      · rcases List.mem_cons.mp h with rfl | hpart
        · simp
        · exact ⟨(ih hpart).1, fun d hd => .tail _ ((ih hpart).2 hd)⟩
      next hc =>
        obtain ⟨first, rest, hsplit⟩ := List.exists_cons_of_ne_nil (List.splitOnP_ne_nil p text)
        rw [hsplit, List.modifyHead_cons] at h
        rcases List.mem_cons.mp h with rfl | hpart
        · have hfirst := ih (hsplit ▸ List.mem_cons_self)
          constructor
          · intro d hd
            rcases List.mem_cons.mp hd with rfl | hd
            · exact Bool.eq_false_iff.mpr hc
            · exact hfirst.1 d hd
          · exact List.cons_subset_cons c hfirst.2
        · have hmem := ih (hsplit ▸ List.mem_cons_of_mem _ hpart)
          exact ⟨hmem.1, fun d hd => .tail _ (hmem.2 hd)⟩

theorem mem_join {separator : String} {parts : List String} {c : Char} (h : c ∈ (join separator parts).toList) :
    c ∈ separator.toList ∨ ∃ part ∈ parts, c ∈ part.toList := by
  induction parts with
  | nil => simp [join] at h
  | cons part parts ih =>
      cases parts with
      | nil => exact .inr ⟨part, List.mem_cons_self, by simpa [join] using h⟩
      | cons next parts =>
          have hchars : (join separator (part :: next :: parts)).toList =
              part.toList ++ (separator.toList ++ (join separator (next :: parts)).toList) := by
            simp [join, String.toList_intercalate, List.intercalate]
          rw [hchars, List.mem_append, List.mem_append] at h
          rcases h with h | h | h
          · exact .inr ⟨part, List.mem_cons_self, h⟩
          · exact .inl h
          · apply (ih h).imp_right
            rintro ⟨other, hother, hc⟩
            exact ⟨other, List.mem_cons_of_mem _ hother, hc⟩

section
variable {blank : Char → Bool}

theorem fields_append (before after : List Char) {c : Char} (h : blank c = true) :
    fields blank (String.ofList (before ++ c :: after)) =
      fields blank (String.ofList before) ++ fields blank (String.ofList after) := by
  have hsplit := List.splitOnP_append_cons (p := blank) before after h
  unfold fields
  rw [String.toList_ofList, String.toList_ofList, String.toList_ofList, ← List.map_append, ← List.filter_append, ← hsplit]

theorem fields_word {word : String} (hne : word ≠ "") (hword : ∀ c ∈ word.toList, blank c = false) :
    fields blank word = [word] := by
  have hsplit : word.toList.splitOnP blank = [word.toList] := List.splitOnP_eq_singleton (by simpa using hword)
  have hchars : word.toList ≠ [] := by simpa using hne
  rw [fields, hsplit]
  simp [hchars]

theorem word_of_mem_fields {text word : String} (h : word ∈ fields blank text) :
    word ≠ "" ∧ (∀ c ∈ word.toList, blank c = false) ∧ word.toList ⊆ text.toList := by
  obtain ⟨chars, hchars, rfl⟩ := List.mem_map.mp h
  obtain ⟨hmem, hne⟩ := List.mem_filter.mp hchars
  rw [String.toList_ofList]
  refine ⟨?_, mem_splitOnP hmem⟩
  intro hempty
  have hnil : chars = [] := by simpa using congrArg String.toList hempty
  rw [hnil] at hne
  cases hne

theorem fields_join {parts : List String} {first second : Char} (hfirst : blank first = true) (hsecond : blank second = true)
    (hparts : ∀ part ∈ parts, part ≠ "" ∧ ∀ c ∈ part.toList, blank c = false) :
    fields blank (join (String.ofList [first, second]) parts) = parts := by
  induction parts with
  | nil => rfl
  | cons part parts ih =>
      obtain ⟨hne, hword⟩ := hparts part List.mem_cons_self
      have hrest := ih fun other hother => hparts other (List.mem_cons_of_mem _ hother)
      cases parts with
      | nil => exact fields_word hne hword
      | cons next parts =>
          have htext : join (String.ofList [first, second]) (part :: next :: parts) = String.ofList (part.toList ++
              first :: ([] ++ second :: (join (String.ofList [first, second]) (next :: parts)).toList)) := by
            apply String.toList_inj.mp
            simp [join, String.toList_intercalate, List.intercalate]
          rw [htext, fields_append _ _ hfirst, fields_append _ _ hsecond, String.ofList_toList, String.ofList_toList, hrest,
            fields_word hne hword]
          rfl

end

theorem length_split_pos (s : String) : 1 ≤ (split '\n' s).length := List.length_pos_of_ne_nil (split_ne_nil s)

theorem length_split_eq_one {s : String} (h : (split '\n' s).length = 1) : '\n' ∉ s.toList := by
  obtain ⟨part, hpart⟩ := List.length_eq_one_iff.mp h
  have hjoin := join_split s
  rw [hpart, join_singleton] at hjoin
  obtain ⟨chars, hchars, heq⟩ := List.mem_map.mp (hpart ▸ List.mem_cons_self : part ∈ split '\n' s)
  rw [← hjoin, ← heq, String.toList_ofList]
  intro hmem
  exact absurd ((mem_splitOnP hchars).1 '\n' hmem) (by decide)

variable {parts : List String}

theorem length_split_join_iff (h : parts ≠ []) :
    (split '\n' (join "\n" parts)).length = parts.length ↔ ∀ part ∈ parts, '\n' ∉ part.toList := by
  have hle : ∀ {parts : List String}, parts ≠ [] → parts.length ≤ (split '\n' (join "\n" parts)).length ∧
      ((split '\n' (join "\n" parts)).length = parts.length → ∀ part ∈ parts, '\n' ∉ part.toList) := by
    intro parts hne
    induction parts with
    | nil => exact absurd rfl hne
    | cons part parts ih =>
        have hone := length_split_pos part
        by_cases hrest : parts = []
        · subst hrest
          rw [join_singleton]
          refine ⟨hone, fun hlength other hother => ?_⟩
          rw [List.mem_singleton.mp hother]
          exact length_split_eq_one hlength
        · obtain ⟨hshort, hfree⟩ := ih hrest
          have hsplit : (split '\n' (join "\n" (part :: parts))).length =
              (split '\n' part).length + (split '\n' (join "\n" parts)).length := by
            rw [← List.singleton_append, join_append (List.cons_ne_nil _ _) hrest, split_append, List.length_append,
              join_singleton]
          rw [hsplit, List.length_cons]
          refine ⟨by omega, fun hlength other hother => ?_⟩
          rcases List.mem_cons.mp hother with rfl | hother
          · exact length_split_eq_one (by omega)
          · exact hfree (by omega) other hother
  exact ⟨(hle h).2, fun hfree => congrArg List.length (split_join h hfree)⟩

theorem mem_split {s part : String} (h : part ∈ split '\n' s) : '\n' ∉ part.toList := by
  obtain ⟨chars, hchars, rfl⟩ := List.mem_map.mp h
  rw [String.toList_ofList]
  intro hmem
  exact absurd ((mem_splitOnP hchars).1 '\n' hmem) (by decide)

theorem join_join {before after : List String} (h : parts ≠ []) :
    join "\n" (before ++ join "\n" parts :: after) = join "\n" (before ++ parts ++ after) := by
  have htail : join "\n" (join "\n" parts :: after) = join "\n" (parts ++ after) := by
    by_cases hafter : after = []
    · rw [hafter, List.append_nil]
      exact join_singleton _
    · rw [join_append h hafter, ← List.singleton_append, join_append (List.cons_ne_nil _ _) hafter, join_singleton]
  by_cases hbefore : before = []
  · rw [hbefore]
    exact htail
  · rw [join_append hbefore (List.cons_ne_nil _ _), htail, List.append_assoc,
      join_append hbefore (List.append_ne_nil_of_left_ne_nil h _)]

theorem infix_join_iff {mark : List Char} (hmark : '\n' ∉ mark) (hne : mark ≠ []) :
    mark <:+: (join "\n" parts).toList ↔ ∃ part ∈ parts, mark <:+: part.toList := by
  induction parts with
  | nil => simp [join, hne]
  | cons part parts ih =>
      cases parts with
      | nil => simp [join]
      | cons next parts =>
          have hjoin := toList_join_cons '\n' part next parts
          rw [show join "\n" (part :: next :: parts) = join (String.singleton '\n') (part :: next :: parts) from rfl, hjoin,
            infix_line hmark]
          rw [List.exists_mem_cons_iff (fun part : String => mark <:+: part.toList)]
          exact or_congr_right ih

theorem infix_join {before parts after : List String} (h : parts ≠ []) :
    (join "\n" parts).toList <:+: (join "\n" (before ++ parts ++ after)).toList := by
  rw [← join_join h]
  have hself : (join "\n" parts).toList <+: (join "\n" (join "\n" parts :: after)).toList := by
    by_cases hafter : after = []
    · rw [hafter]
      rw [join_singleton]
    · rw [← List.singleton_append, join_append (List.cons_ne_nil _ _) hafter, join_singleton, String.append_assoc,
        String.toList_append]
      exact List.prefix_append _ _
  by_cases hbefore : before = []
  · rw [hbefore]
    exact hself.isInfix
  · rw [join_append hbefore (List.cons_ne_nil _ _), String.toList_append]
    exact hself.isInfix.trans (List.suffix_append _ _).isInfix

theorem stripEnd_join (hne : parts ≠ []) (hlast : ¬ WholeLines (join "\n" parts).toList) (count : Nat) :
    stripEnd (· = '\n') (join "\n" (parts ++ List.replicate count "")) = join "\n" parts := by
  induction count with
  | zero =>
      rw [List.replicate_zero, List.append_nil]
      apply stripEnd_eq_self
      intro c hc
      rw [decide_eq_false_iff_not]
      rintro rfl
      refine hlast (wholeLines_iff.mpr fun d hd => ?_)
      rw [Option.mem_def.mp hc] at hd
      exact (Option.some.inj hd).symm
  | succ count ih =>
      rw [List.replicate_succ', ← List.append_assoc, join_append (by simp [hne]) (List.cons_ne_nil _ _),
        join_singleton, String.append_empty, ← ih, stripEnd, stripEnd, String.toList_append]
      simp

end Text
