import OpenDirectory.Containment
import OpenDirectory.PolicyModel

/-! The containers of an object by the components of its name, and the chain that is cut out of the text of
the name. The text ends like the base also where a comma before it is escaped, and what comes before the base
is cut off by the length of the base, however the name spells it. -/

namespace OpenDirectory.Policy

open Delegation (Lowering lowering_latin)

/-- No comma is outside of an escape. -/
def bare : Bool → List Char → Bool
  | _, [] => true
  | true, _ :: rest => bare false rest
  | false, c :: rest => if c = '\\' then bare true rest else c ≠ ',' && bare false rest

/-- No comma is outside of an escape, and every escape has its character. -/
def whole : Bool → List Char → Bool
  | escaped, [] => !escaped
  | true, _ :: rest => whole false rest
  | false, c :: rest => if c = '\\' then whole true rest else c ≠ ',' && whole false rest

variable {escaped : Bool}

theorem bare_of_whole {text : List Char} (h : whole escaped text = true) :
    bare escaped text = true := by
  induction text generalizing escaped with
  | nil => cases escaped <;> rfl
  | cons c rest ih =>
      cases escaped with
      | true => exact ih h
      | false =>
          unfold whole at h
          unfold bare
          split_ifs at h ⊢ with hslash
          · exact ih h
          · rw [Bool.and_eq_true] at h ⊢
            exact ⟨h.1, ih h.2⟩

theorem bare_of_append {text rest : List Char} (h : bare escaped (text ++ rest) = true) :
    bare escaped text = true := by
  induction text generalizing escaped with
  | nil => cases escaped <;> rfl
  | cons c text ih =>
      cases escaped with
      | true => exact ih h
      | false =>
          rw [List.cons_append] at h
          unfold bare at h ⊢
          split_ifs at h ⊢ with hslash
          · exact ih h
          · rw [Bool.and_eq_true] at h ⊢
            exact ⟨h.1, ih h.2⟩

theorem splitDnChars_bare {current text : List Char} (h : bare escaped text = true) :
    splitDnChars current escaped text = if (current ++ text).isEmpty then [] else [current ++ text] := by
  induction text generalizing current escaped with
  | nil => simp [splitDnChars]
  | cons c rest ih =>
      have hnext : current ++ c :: rest = (current ++ [c]) ++ rest := by simp
      rw [splitDnChars, hnext]
      cases escaped with
      | true => exact ih h
      | false =>
          rw [if_neg Bool.false_ne_true]
          by_cases hslash : c = '\\'
          · rw [bare, if_pos hslash] at h
            rw [if_pos hslash]
            exact ih h
          · rw [bare, if_neg hslash, Bool.and_eq_true, decide_eq_true_eq] at h
            rw [if_neg hslash, if_neg h.1]
            exact ih h.2

theorem splitDnChars_whole {current text : List Char} (h : whole escaped text = true)
    (rest : List Char) :
    splitDnChars current escaped (text ++ ',' :: rest) = (current ++ text) :: splitDnChars [] false rest := by
  induction text generalizing current escaped with
  | nil =>
      cases escaped with
      | true => cases h
      | false => simp [splitDnChars]
  | cons c text ih =>
      have hnext : current ++ c :: text = (current ++ [c]) ++ text := by simp
      rw [List.cons_append, splitDnChars, hnext]
      cases escaped with
      | true => exact ih h
      | false =>
          rw [if_neg Bool.false_ne_true]
          by_cases hslash : c = '\\'
          · rw [whole, if_pos hslash] at h
            rw [if_pos hslash]
            exact ih h
          · rw [whole, if_neg hslash, Bool.and_eq_true, decide_eq_true_eq] at h
            rw [if_neg hslash, if_neg h.1]
            exact ih h.2

/-- The texts with a comma after each. -/
def ended (texts : List (List Char)) : List Char := texts.flatMap (· ++ [','])

theorem splitDnChars_ended {texts : List (List Char)} (h : ∀ text ∈ texts, whole false text = true)
    (rest : List Char) : splitDnChars [] false (ended texts ++ rest) = texts ++ splitDnChars [] false rest := by
  induction texts with
  | nil => rfl
  | cons text texts ih =>
      have hsplit : ended (text :: texts) ++ rest = text ++ ',' :: (ended texts ++ rest) := by simp [ended]
      rw [hsplit, splitDnChars_whole (h text List.mem_cons_self), ih fun text htext => h text (.tail _ htext)]
      rfl

theorem length_splitDnChars (current : List Char) (escaped : Bool) (text : List Char) :
    (ended (splitDnChars current escaped text)).length ≤ current.length + text.length + 1 := by
  induction text generalizing current escaped with
  | nil =>
      rw [splitDnChars]
      split_ifs <;> simp [ended]
  | cons c rest ih =>
      have hone : (current ++ [c]).length = current.length + 1 := by simp
      rw [splitDnChars, List.length_cons]
      split_ifs
      · have := ih (current ++ [c]) false
        omega
      · have := ih (current ++ [c]) true
        omega
      · have := ih [] false
        simp only [ended, List.flatMap_cons, List.length_append, List.length_cons, List.length_nil] at this ⊢
        omega
      · have := ih (current ++ [c]) false
        omega

/-- One component of a distinguished name as it is written. -/
structure Component where
  text : String
  nonempty : text.toList ≠ []
  whole : Policy.whole false text.toList = true

structure Dn where
  components : List Component
  nonempty : components ≠ []

def written (components : List Component) : String := Text.join "," (components.map Component.text)

def Dn.text (dn : Dn) : String := written dn.components

variable [Runtime]

/-- The components of a name above as many as the base has, and those. -/
def Dn.above (dn base : Dn) : List Component :=
  dn.components.take (dn.components.length - base.components.length)

def Dn.within (dn base : Dn) : List Component :=
  dn.components.drop (dn.components.length - base.components.length)

/-- The name is the base or under it, component by component and but for case. -/
def Dn.Under (dn base : Dn) : Prop :=
  (dn.within base).map (lower ·.text) = base.components.map (lower ·.text)

instance (dn base : Dn) : Decidable (dn.Under base) := inferInstanceAs (Decidable (_ = _))

/-- The base and the containers of the object inside the base, from the head down. -/
def ancestors (dn base : Dn) : List String :=
  if dn.Under base then
    ((dn.above base).drop 1).tails.reverse.map fun inner => written (inner ++ base.components)
  else []

/-- Where the base is written otherwise in the name, the difference in length is not taken for a part of what
comes before it, and what comes before is no part of the base. -/
def Measured (dn base : Dn) : Prop :=
  match dn.above base with
  | [] => dn.text.length ≤ base.text.length + (dn.components.head dn.nonempty).text.length + 2
  | [_] => (written (dn.within base)).length ≤ base.text.length + 1
  | _ => (written (dn.within base)).length = base.text.length ∨
      (written (dn.within base)).length = base.text.length + 1

/-- The text of the name ends like the base only where the name is under it, and there its end is as long. -/
def Exact (dn base : Dn) : Prop :=
  if dn.Under base then Measured dn base
  else ¬ Text.endsWith (lower dn.text) (lower base.text) = true

def chars (components : List Component) : List (List Char) := components.map fun c => c.text.toList

omit [Runtime] in
theorem of_mem_chars {components : List Component} {text : List Char} (h : text ∈ chars components) :
    whole false text = true ∧ text ≠ [] := by
  obtain ⟨c, -, rfl⟩ := List.mem_map.mp h
  exact ⟨c.whole, c.nonempty⟩

omit [Runtime] in
theorem toList_written {components : List Component} (h : components ≠ []) (above : List Component) :
    (written (above ++ components)).toList = ended (chars above) ++ (written components).toList := by
  induction above with
  | nil => rfl
  | cons c above ih =>
      have hsep : ("," : String) = String.singleton ',' := rfl
      obtain ⟨next, rest, hrest⟩ := List.exists_cons_of_ne_nil (List.append_ne_nil_of_right_ne_nil above h)
      have hjoin : (written (c :: above ++ components)).toList =
          c.text.toList ++ ',' :: (written (above ++ components)).toList := by
        rw [List.cons_append, hrest, written, written, hsep, List.map_cons, List.map_cons, Text.toList_join_cons]
      rw [hjoin, ih]
      simp [ended, chars]

/-- What the code makes of the parts of a name above the base. -/
def chained (parts : List (List Char)) (base : List Char) : List (List Char) :=
  parts.tails.reverse.map fun inner => ended inner ++ base

section
omit [Runtime]

theorem chained_cons (part : List Char) (parts : List (List Char)) (base : List Char) :
    chained (part :: parts) base = chained parts base ++ [ended (part :: parts) ++ base] := by
  simp [chained]

theorem length_chained (parts : List (List Char)) (base : List Char) :
    (chained parts base).length = parts.length + 1 := by
  simp [chained]

theorem chained_inj {parts parts' : List (List Char)} {base : List Char} :
    chained parts base = chained parts' base ↔ parts = parts' := by
  constructor
  · intro h
    have hlength := congrArg List.length h
    rw [length_chained, length_chained] at hlength
    induction parts generalizing parts' with
    | nil => exact (List.length_eq_zero_iff.mp (by simpa using hlength.symm)).symm
    | cons part parts ih =>
        cases parts' with
        | nil => simp at hlength
        | cons part' parts' =>
            rw [chained_cons, chained_cons] at h
            obtain ⟨hchain, hlast⟩ := List.append_inj' h rfl
            obtain rfl := ih hchain (by simpa using hlength)
            have hends : part ++ (',' :: (ended parts ++ base)) = part' ++ (',' :: (ended parts ++ base)) := by
              simpa [ended] using List.singleton_inj.mp hlast
            rw [List.append_cancel_right hends]
  · exact fun h => by rw [h]

theorem toList_join_base (parts : List String) (base : String) :
    (Text.join "," (parts ++ [base])).toList = ended (parts.map String.toList) ++ base.toList := by
  induction parts with
  | nil => simp [Text.join, ended]
  | cons part parts ih =>
      have hsep : ("," : String) = String.singleton ',' := rfl
      obtain ⟨next, rest, hrest⟩ := List.exists_cons_of_ne_nil
        (List.append_ne_nil_of_right_ne_nil parts (List.cons_ne_nil base []))
      have hjoin : (Text.join "," (part :: parts ++ [base])).toList =
          part.toList ++ ',' :: (Text.join "," (parts ++ [base])).toList := by
        rw [List.cons_append, hrest, hsep, Text.toList_join_cons]
      rw [hjoin, ih]
      simp [ended]

theorem toList_chain (parts : List String) (base : String) :
    (base :: (List.range parts.length).reverse.map fun index =>
      Text.join "," (parts.drop index ++ [base])).map String.toList =
        chained (parts.map String.toList) base.toList := by
  induction parts with
  | nil => simp [chained, ended]
  | cons part parts ih =>
      rw [List.map_cons, List.map_cons, chained_cons, ← ih, List.length_cons, List.range_succ_eq_map,
        List.reverse_cons, List.map_append, List.map_append, ← List.map_reverse, List.map_map,
        List.map_singleton, List.map_singleton, List.drop_zero, toList_join_base]
      simp

theorem toList_tails (parts : List Component) (base : Dn) :
    (parts.tails.reverse.map fun inner => written (inner ++ base.components)).map String.toList =
      chained (chars parts) base.text.toList := by
  induction parts with
  | nil => rfl
  | cons part parts ih =>
      have hchars : chars (part :: parts) = part.text.toList :: chars parts := rfl
      rw [hchars, chained_cons, ← ih, ← hchars]
      simp only [List.tails_cons, List.reverse_cons, List.map_append, List.map_singleton]
      rw [toList_written base.nonempty]
      rfl

end

theorem toList_containerChain (dn baseDn : String) : (containerChain dn baseDn).map String.toList =
    if Text.endsWith (lower dn) (lower baseDn) then
      chained ((splitDnChars [] false (dn.toList.take (dn.length - (baseDn.length + 1)))).drop 1) baseDn.toList
    else [] := by
  unfold containerChain
  rw [Text.endsWith]
  split_ifs with hends
  · have hparts : ∀ parts : List (List Char), (parts.map String.ofList).map String.toList = parts := by
      intro parts
      simp
    dsimp only
    rw [toList_chain, splitDn, String.toList_ofList, ← List.map_drop, hparts]
  · rfl

theorem toList_ancestors (dn base : Dn) : (ancestors dn base).map String.toList =
    if dn.Under base then chained ((chars (dn.above base)).drop 1) base.text.toList else [] := by
  unfold ancestors
  split_ifs with hunder
  · rw [toList_tails, chars, chars, List.map_drop]
  · rfl

section
omit [Runtime]

theorem splitDn_written (components : List Component) :
    splitDn (written components) = components.map Component.text := by
  rcases List.eq_nil_or_concat components with rfl | ⟨init, last, rfl⟩
  · rfl
  · have hinit : ∀ text ∈ chars init, whole false text = true := fun _ hmem => (of_mem_chars hmem).1
    have hone : (written [last]).toList = last.text.toList := rfl
    rw [List.concat_eq_append, splitDn, toList_written (List.cons_ne_nil _ _), hone, splitDnChars_ended hinit,
      splitDnChars_bare (bare_of_whole last.whole), List.nil_append, if_neg (by simpa using last.nonempty),
      List.map_append, List.map_append, chars, List.map_map]
    simp

theorem splitDnChars_eq_nil_iff {text : List Char} : splitDnChars [] false text = [] ↔ text = [] := by
  have hfull : ∀ (text current : List Char) (escaped : Bool), current ≠ [] ∨ text ≠ [] →
      splitDnChars current escaped text ≠ [] := by
    intro text
    induction text with
    | nil =>
        intro current escaped h
        have hcurrent : current ≠ [] := h.resolve_right (by simp)
        simp [splitDnChars, hcurrent]
    | cons c rest ih =>
        intro current escaped _
        have hone : current ++ [c] ≠ [] := by simp
        rw [splitDnChars]
        split_ifs
        · exact ih _ _ (.inl hone)
        · exact ih _ _ (.inl hone)
        · exact List.cons_ne_nil _ _
        · exact ih _ _ (.inl hone)
  constructor
  · intro h
    by_contra hne
    exact hfull text [] false (.inr hne) h
  · rintro rfl
    rfl

theorem drop_splitDnChars_take {first : List Char} (h : whole false first = true) (rest : List Char) (m : Nat) :
    (splitDnChars [] false ((first ++ ',' :: rest).take m)).drop 1 =
      splitDnChars [] false (rest.take (m - (first.length + 1))) := by
  by_cases hm : m ≤ first.length
  · have hbare : bare false (first.take m) = true := by
      have hparts := bare_of_whole h
      rw [← List.take_append_drop m first] at hparts
      exact bare_of_append hparts
    have hzero : m - (first.length + 1) = 0 := by omega
    rw [List.take_append_of_le_length hm, splitDnChars_bare hbare, hzero, List.take_zero]
    split_ifs <;> rfl
  · obtain ⟨j, rfl⟩ : ∃ j, m = first.length + 1 + j := ⟨m - (first.length + 1), by omega⟩
    have htake : (first ++ ',' :: rest).take (first.length + 1 + j) = first ++ ',' :: rest.take j := by
      rw [Nat.add_assoc, Nat.add_comm 1 j, List.take_length_add_append, List.take_succ_cons]
    rw [htake, splitDnChars_whole h, List.nil_append, List.drop_one, List.tail_cons, Nat.add_sub_cancel_left]

/-- Several texts are the parts of what is cut so long only where the cut is at the end of the last of them, or
after the comma there. -/
theorem splitDnChars_take_iff {texts : List (List Char)} (hne : texts ≠ [])
    (hwhole : ∀ text ∈ texts, whole false text = true) (hfull : ∀ text ∈ texts, text ≠ []) (rest : List Char)
    (b : Nat) :
    splitDnChars [] false ((ended texts ++ rest).take ((ended texts).length + rest.length - (b + 1))) = texts ↔
      rest.length = b ∨ rest.length = b + 1 := by
  obtain ⟨init, last, rfl⟩ : ∃ init last, texts = init ++ [last] :=
    ⟨_, _, (List.dropLast_append_getLast hne).symm⟩
  have hinit : ∀ text ∈ init, whole false text = true := fun text h => hwhole text (List.mem_append_left _ h)
  have hlast : last ≠ [] := hfull last (by simp)
  have hended : ended (init ++ [last]) = ended init ++ (last ++ [',']) := by simp [ended]
  have hlength : (ended (init ++ [last])).length = (ended init).length + last.length + 1 := by
    simp [hended, Nat.add_assoc]
  constructor
  · intro h
    by_contra hnot
    rw [not_or] at hnot
    by_cases hlong : b + 1 ≤ rest.length
    · have hmore : (ended (init ++ [last])).length + rest.length - (b + 1) =
          (ended (init ++ [last])).length + (rest.length - (b + 1)) := by omega
      rw [hmore, List.take_length_add_append, splitDnChars_ended hwhole, List.append_right_eq_self,
        splitDnChars_eq_nil_iff, List.take_eq_nil_iff] at h
      rcases h with h | rfl
      · omega
      · simp at hlong
    · have hbound := length_splitDnChars [] false
        ((ended (init ++ [last]) ++ rest).take ((ended (init ++ [last])).length + rest.length - (b + 1)))
      rw [h, List.length_take, List.length_append, List.length_nil] at hbound
      have := List.length_pos_of_ne_nil hlast
      omega
  · rintro (h | h)
    · have hcut : (ended (init ++ [last])).length + rest.length - (b + 1) =
          (ended init ++ last).length := by
        rw [List.length_append]
        omega
      have htext : ended (init ++ [last]) ++ rest = (ended init ++ last) ++ (',' :: rest) := by simp [hended]
      have hbare : bare false last = true := bare_of_whole (hwhole last (by simp))
      rw [hcut, htext, List.take_left, splitDnChars_ended hinit, splitDnChars_bare hbare]
      simp [hlast]
    · have hcut : (ended (init ++ [last])).length + rest.length - (b + 1) =
          (ended (init ++ [last])).length := by omega
      rw [hcut, List.take_left]
      have := splitDnChars_ended hwhole []
      rw [List.append_nil] at this
      rw [this]
      simp [splitDnChars]

theorem written_ne_nil {components : List Component} (h : components ≠ []) : (written components).toList ≠ [] := by
  obtain ⟨first, rest, rfl⟩ := List.exists_cons_of_ne_nil h
  rcases List.eq_nil_or_concat rest with rfl | ⟨init, last, rfl⟩
  · exact first.nonempty
  · rw [List.concat_eq_append, ← List.cons_append, toList_written (List.cons_ne_nil _ _)]
    exact List.append_ne_nil_of_right_ne_nil _ last.nonempty

/-- An object that is the base has no container above it, unless a comma of its own name is taken for one. -/
theorem parts_of_base (dn : Dn) (b : Nat) :
    (splitDnChars [] false (dn.text.toList.take (dn.text.length - (b + 1)))).drop 1 = [] ↔
      dn.text.length ≤ b + (dn.components.head dn.nonempty).text.length + 2 := by
  obtain ⟨components, hne⟩ := dn
  obtain ⟨first, rest, rfl⟩ := List.exists_cons_of_ne_nil hne
  rw [List.head_cons, ← String.length_toList, ← String.length_toList]
  by_cases hrest : rest = []
  · subst hrest
    have htext : (Dn.text ⟨[first], hne⟩).toList = first.text.toList := rfl
    have hbare : bare false (first.text.toList.take (first.text.toList.length - (b + 1))) = true := by
      have hparts := bare_of_whole first.whole
      rw [← List.take_append_drop (first.text.toList.length - (b + 1)) first.text.toList] at hparts
      exact bare_of_append hparts
    rw [htext, splitDnChars_bare hbare]
    constructor
    · intro _
      omega
    · intro _
      split_ifs <;> rfl
  · have htext : (Dn.text ⟨first :: rest, hne⟩).toList = first.text.toList ++ ',' :: (written rest).toList := by
      have := toList_written hrest [first]
      rw [Dn.text]
      simpa [ended, chars] using this
    rw [htext, drop_splitDnChars_take first.whole, splitDnChars_eq_nil_iff, List.take_eq_nil_iff]
    simp only [written_ne_nil hrest, or_false, List.length_append, List.length_cons]
    have := List.length_pos_of_ne_nil (written_ne_nil hrest)
    omega

end

theorem parts_iff {dn base : Dn} (hunder : dn.Under base) :
    (splitDnChars [] false (dn.text.toList.take (dn.text.length - (base.text.length + 1)))).drop 1 =
      (chars (dn.above base)).drop 1 ↔ Measured dn base := by
  have hsplit : dn.above base ++ dn.within base = dn.components := List.take_append_drop _ _
  have hwithin : dn.within base ≠ [] := by
    intro hnil
    rw [Dn.Under, hnil] at hunder
    exact base.nonempty (List.map_eq_nil_iff.mp hunder.symm)
  have htext : dn.text.toList = ended (chars (dn.above base)) ++ (written (dn.within base)).toList := by
    rw [Dn.text, ← toList_written hwithin, hsplit]
  have hlength : dn.text.length = dn.text.toList.length := String.length_toList.symm
  have hshort : (written (dn.within base)).length = (written (dn.within base)).toList.length :=
    String.length_toList.symm
  have hend : (written (dn.within base)).toList ≠ [] := written_ne_nil hwithin
  unfold Measured
  cases habove : dn.above base with
  | nil => exact parts_of_base dn _
  | cons c more =>
      -- The first part is dropped with its comma.
      have hfirst : dn.text.toList =
          c.text.toList ++ ',' :: (ended (chars more) ++ (written (dn.within base)).toList) := by
        rw [htext, habove]
        simp [ended, chars]
      have hcut : dn.text.length - (base.text.length + 1) - (c.text.toList.length + 1) =
          (ended (chars more)).length + (written (dn.within base)).toList.length - (base.text.length + 1) := by
        rw [hlength, hfirst, List.length_append, List.length_cons, List.length_append]
        omega
      have hdrop : (chars (c :: more)).drop 1 = chars more := rfl
      rw [hdrop, hfirst, drop_splitDnChars_take c.whole, hcut, hshort]
      cases more with
      | nil =>
          have hpos := List.length_pos_of_ne_nil hend
          have hnone : chars [] = [] := rfl
          rw [hnone, splitDnChars_eq_nil_iff, List.take_eq_nil_iff]
          simp only [ended, List.flatMap_nil, List.length_nil, List.nil_append, hend, or_false]
          omega
      | cons next more =>
          have hne : chars (next :: more) ≠ [] := List.cons_ne_nil _ _
          exact splitDnChars_take_iff hne (fun _ hmem => (of_mem_chars hmem).1)
            (fun _ hmem => (of_mem_chars hmem).2) _ _

theorem endsWith_of_under (h : Lowering) {dn base : Dn} (hunder : dn.Under base) :
    Text.endsWith (lower dn.text) (lower base.text) = true := by
  have hwithin : dn.within base ≠ [] := by
    intro hnil
    rw [Dn.Under, hnil] at hunder
    exact base.nonempty (List.map_eq_nil_iff.mp hunder.symm)
  have hfolded : ∀ components : List Component, components ≠ [] → (lower (written components)).toList =
      Pieces.joined ',' ((components.map (lower ·.text)).map String.toList) := by
    intro components hne
    rw [written, h.join (by simpa using hne), List.map_map, List.map_map]
    rfl
  have hsplit : dn.above base ++ dn.within base = dn.components := List.take_append_drop _ _
  have hbase : (lower base.text).toList = (lower (written (dn.within base))).toList := by
    rw [Dn.text, hfolded _ base.nonempty, hfolded _ hwithin, hunder]
  rw [Text.endsWith, List.isSuffixOf_iff_suffix, hbase, hfolded _ hwithin, Dn.text, ← hsplit, hfolded _
    (List.append_ne_nil_of_right_ne_nil _ hwithin), List.map_append, List.map_append]
  by_cases habove : dn.above base = []
  · rw [habove]
    exact List.suffix_rfl
  · rw [Pieces.joined_append (by simpa using hwithin) (by simpa using habove)]
    exact ⟨_, by rw [← List.append_cons]⟩

theorem containerChain_iff (h : Lowering) (dn base : Dn) :
    containerChain dn.text base.text = ancestors dn base ↔ Exact dn base := by
  have hlists : containerChain dn.text base.text = ancestors dn base ↔
      (containerChain dn.text base.text).map String.toList = (ancestors dn base).map String.toList :=
    (List.map_injective_iff.mpr fun _ _ => String.toList_inj.mp).eq_iff.symm
  rw [hlists, toList_containerChain, toList_ancestors]
  unfold Exact
  by_cases hunder : dn.Under base
  · rw [if_pos hunder, if_pos hunder, if_pos (endsWith_of_under h hunder), chained_inj, parts_iff hunder]
  · rw [if_neg hunder, if_neg hunder]
    split_ifs with hends
    · have hne : chained ((splitDnChars [] false
          (dn.text.toList.take (dn.text.length - (base.text.length + 1)))).drop 1) base.text.toList ≠ [] := by
        intro hnil
        have := length_chained ((splitDnChars [] false
          (dn.text.toList.take (dn.text.length - (base.text.length + 1)))).drop 1) base.text.toList
        rw [hnil] at this
        cases this
      exact ⟨fun heq => absurd heq hne, fun hnot => absurd hends hnot⟩
    · exact ⟨fun _ => hends, fun _ => rfl⟩

def workstation : Dn := ⟨[⟨"CN=ws1", by decide, by decide⟩, ⟨"OU=old\\,DC=corp", by decide, by decide⟩,
  ⟨"DC=example", by decide, by decide⟩], List.cons_ne_nil _ _⟩

def domainHead : Dn :=
  ⟨[⟨"DC=corp", by decide, by decide⟩, ⟨"DC=example", by decide, by decide⟩], List.cons_ne_nil _ _⟩

omit [Runtime] in
theorem containerChain_iff_outside : letI := Runtime.latin
    containerChain workstation.text domainHead.text = ancestors workstation domainHead ↔
      Exact workstation domainHead :=
  @containerChain_iff Runtime.latin lowering_latin workstation domainHead

omit [Runtime] in
theorem outsider_has_containers : letI := Runtime.latin
    containerChain workstation.text domainHead.text =
        ["DC=corp,DC=example", "OU=old\\,DC=corp,DC=example"] ∧
      ancestors workstation domainHead = [] := by
  decide +kernel

end OpenDirectory.Policy
