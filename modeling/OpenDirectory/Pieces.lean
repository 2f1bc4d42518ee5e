import Mathlib

/-! Sequences of pieces joined by a separator which the pieces may hold as well, as long as each of them has a
mark of its own: its first one is free, all others in it are guarded. Then a separator before a free mark
divides two pieces, and what ends a sequence there is made of its last pieces. -/

namespace Pieces

variable {α : Type} {sep mark guard : α}

/-- Every mark has a guard before it. -/
def Guarded (mark guard : α) (text : List α) : Prop :=
  ∀ before after, text = before ++ mark :: after → ∃ earlier, before = earlier ++ [guard]

theorem Guarded.of_not_mem {text : List α} (h : mark ∉ text) : Guarded mark guard text := by
  rintro before after rfl
  exact absurd (List.mem_append_right _ List.mem_cons_self) h

theorem Guarded.tail (hne : mark ≠ guard) {head text : List α} (h : Guarded mark guard (head ++ mark :: text)) :
    Guarded mark guard text := by
  rintro before after rfl
  obtain ⟨earlier, hearlier⟩ := h (head ++ mark :: before) after (by simp)
  rcases List.eq_nil_or_concat before with rfl | ⟨rest, last, rfl⟩
  · have hsplit : head ++ [mark] = earlier ++ [guard] := hearlier
    obtain ⟨-, hlast⟩ := List.append_inj' hsplit rfl
    exact absurd (List.singleton_inj.mp hlast) hne
  · rw [List.concat_eq_append, ← List.cons_append, ← List.append_assoc] at hearlier
    obtain ⟨-, hlast⟩ := List.append_inj' hearlier rfl
    rw [List.concat_eq_append, List.singleton_inj.mp hlast]
    exact ⟨rest, rfl⟩

theorem Guarded.append {head text : List α} (hhead : mark ∉ head) (h : Guarded mark guard text) :
    Guarded mark guard (head ++ text) := by
  intro before after heq
  rcases List.append_eq_append_iff.mp heq with ⟨middle, rfl, hmiddle⟩ | ⟨middle, hlong, hmiddle⟩
  · obtain ⟨earlier, rfl⟩ := h middle after hmiddle
    exact ⟨head ++ earlier, (List.append_assoc _ _ _).symm⟩
  · cases middle with
    | nil =>
        obtain ⟨earlier, hearlier⟩ := h [] after hmiddle.symm
        exact absurd hearlier.symm (by simp)
    | cons c middle =>
        obtain ⟨rfl, -⟩ := List.cons.inj hmiddle
        exact absurd (hlong ▸ List.mem_append_right _ List.mem_cons_self) hhead

theorem Guarded.cons_mark {earlier text : List α} (hearlier : mark ∉ earlier ++ [guard])
    (h : Guarded mark guard text) : Guarded mark guard (earlier ++ [guard] ++ mark :: text) := by
  intro before after heq
  rcases List.append_eq_append_iff.mp heq with ⟨middle, rfl, hmiddle⟩ | ⟨middle, hlong, hmiddle⟩
  · cases middle with
    | nil => exact ⟨earlier, List.append_nil _⟩
    | cons c middle =>
        obtain ⟨rfl, hmore⟩ := List.cons.inj hmiddle
        obtain ⟨earlier', rfl⟩ := h middle after hmore
        exact ⟨_, by rw [← List.cons_append, ← List.append_assoc]⟩
  · cases middle with
    | nil => exact ⟨earlier, by rw [hlong, List.append_nil]⟩
    | cons c middle =>
        obtain ⟨rfl, -⟩ := List.cons.inj hmiddle
        exact absurd (hlong ▸ List.mem_append_right _ List.mem_cons_self) hearlier

/-- Up to its first mark a piece has no separator, and no guard before that mark; later marks are guarded. -/
structure Piece (sep mark guard : α) (piece : List α) : Prop where
  parts : ∃ head tail, piece = head ++ mark :: tail ∧ sep ∉ head ∧ guard ∉ head ∧ Guarded mark guard tail

def joined (sep : α) : List (List α) → List α
  | [] => []
  | [piece] => piece
  | piece :: next :: pieces => piece ++ sep :: joined sep (next :: pieces)

variable {pieces : List (List α)}

theorem joined_cons (h : pieces ≠ []) (piece : List α) :
    joined sep (piece :: pieces) = piece ++ sep :: joined sep pieces := by
  cases pieces with
  | nil => exact absurd rfl h
  | cons next pieces => rfl

theorem joined_append (h : pieces ≠ []) {above : List (List α)} (habove : above ≠ []) :
    joined sep (above ++ pieces) = joined sep above ++ sep :: joined sep pieces := by
  induction above with
  | nil => exact absurd rfl habove
  | cons piece above ih =>
      rw [List.cons_append, joined_cons (List.append_ne_nil_of_right_ne_nil _ h)]
      cases above with
      | nil => rfl
      | cons next above => rw [ih (List.cons_ne_nil _ _), joined_cons (List.cons_ne_nil _ _), List.append_assoc,
          List.cons_append]

/-- What starts as a piece does not start within one after a separator there: its mark would not be guarded. -/
theorem Piece.no_inside (hsm : sep ≠ mark) (hsg : sep ≠ guard) {piece first : List α}
    (h : Piece sep mark guard piece) (hfirst : Piece sep mark guard first) {before inside rest more : List α}
    (hpiece : piece = before ++ sep :: inside) (heq : first ++ more = inside ++ rest)
    (hrest : rest = [] ∨ ∃ later, rest = sep :: later) : False := by
  obtain ⟨head, tail, rfl, hsep, hguard, -⟩ := hfirst.parts
  obtain ⟨head', tail', rfl, hsep', -, htail'⟩ := h.parts
  rw [List.append_assoc, List.cons_append] at heq
  -- The mark of what starts inside is inside as well.
  obtain ⟨deep, rfl⟩ : ∃ deep, inside = head ++ mark :: deep := by
    have hmark : ∀ later, rest ≠ mark :: later := by
      rintro later rfl
      rcases hrest with hnil | ⟨later', hcons⟩
      · exact absurd hnil (List.cons_ne_nil _ _)
      · exact hsm (List.cons.inj hcons).1.symm
    rcases List.append_eq_append_iff.mp heq with ⟨middle, hinside, hmiddle⟩ | ⟨middle, hhead, hmiddle⟩
    · cases middle with
      | nil => exact absurd hmiddle.symm (hmark _)
      | cons c middle =>
          obtain ⟨rfl, -⟩ := List.cons.inj hmiddle
          exact ⟨middle, hinside⟩
    · cases middle with
      | nil => exact absurd hmiddle (hmark _)
      | cons c middle =>
          rcases hrest with hnil | ⟨later, hcons⟩
          · rw [hnil] at hmiddle
            cases hmiddle
          · rw [hcons] at hmiddle
            obtain ⟨rfl, -⟩ := List.cons.inj hmiddle
            exact absurd (hhead ▸ List.mem_append_right _ List.mem_cons_self) hsep
  rcases List.append_eq_append_iff.mp hpiece with ⟨middle, rfl, hmiddle⟩ | ⟨middle, hhead, hmiddle⟩
  · cases middle with
    | nil => exact hsm (List.cons.inj hmiddle).1.symm
    | cons c middle =>
        obtain ⟨rfl, rfl⟩ := List.cons.inj hmiddle
        obtain ⟨earlier, hearlier⟩ := htail' (middle ++ sep :: head) deep (by simp)
        rcases List.eq_nil_or_concat head with rfl | ⟨rest', last, rfl⟩
        · exact hsg (List.singleton_inj.mp (List.append_inj' hearlier rfl).2)
        · rw [List.concat_eq_append, ← List.cons_append, ← List.append_assoc] at hearlier
          obtain rfl := List.singleton_inj.mp (List.append_inj' hearlier rfl).2
          exact hguard (by simp)
  · cases middle with
    | nil => exact hsm (List.cons.inj hmiddle).1
    | cons c middle =>
        obtain ⟨rfl, -⟩ := List.cons.inj hmiddle
        exact hsep' (hhead ▸ List.mem_append_right _ List.mem_cons_self)

theorem joined_starts {first : List α} (pieces : List (List α)) :
    ∃ more, joined sep (first :: pieces) = first ++ more ∧ (more = [] ∨ ∃ later, more = sep :: later) := by
  cases pieces with
  | nil => exact ⟨[], (List.append_nil _).symm, .inl rfl⟩
  | cons next pieces => exact ⟨sep :: joined sep (next :: pieces), rfl, .inr ⟨_, rfl⟩⟩

theorem joined_inj (hsm : sep ≠ mark) (hsg : sep ≠ guard) {pieces' : List (List α)}
    (h : ∀ piece ∈ pieces, Piece sep mark guard piece) (h' : ∀ piece ∈ pieces', Piece sep mark guard piece)
    (hne : pieces ≠ []) (hne' : pieces' ≠ []) (heq : joined sep pieces = joined sep pieces') : pieces = pieces' := by
  induction pieces generalizing pieces' with
  | nil => exact absurd rfl hne
  | cons first pieces ih =>
      cases pieces' with
      | nil => exact absurd rfl hne'
      | cons first' pieces' =>
          obtain ⟨hfirst, hrest⟩ := List.forall_mem_cons.mp h
          obtain ⟨hfirst', hrest'⟩ := List.forall_mem_cons.mp h'
          cases pieces with
          | nil =>
              cases pieces' with
              | nil => exact congrArg (fun piece => [piece]) heq
              | cons next' pieces' =>
                  exfalso
                  obtain ⟨more, hmore, -⟩ := @joined_starts α sep next' pieces'
                  exact hfirst.no_inside hsm hsg (hrest' next' List.mem_cons_self) heq
                    (hmore.symm.trans (List.append_nil _).symm) (.inl rfl)
          | cons next pieces =>
              cases pieces' with
              | nil =>
                  exfalso
                  obtain ⟨more, hmore, -⟩ := @joined_starts α sep next pieces
                  exact hfirst'.no_inside hsm hsg (hrest next List.mem_cons_self) heq.symm
                    (hmore.symm.trans (List.append_nil _).symm) (.inl rfl)
              | cons next' pieces' =>
                  rw [joined_cons (List.cons_ne_nil _ _), joined_cons (List.cons_ne_nil _ _)] at heq
                  have hsame : first = first' ∧ joined sep (next :: pieces) = joined sep (next' :: pieces') := by
                    rcases List.append_eq_append_iff.mp heq with ⟨middle, hlong, hmiddle⟩ | ⟨middle, hlong, hmiddle⟩
                    · cases middle with
                      | nil => exact ⟨(hlong.trans (List.append_nil _)).symm, (List.cons.inj hmiddle).2⟩
                      | cons c middle =>
                          exfalso
                          obtain ⟨rfl, hafter⟩ := List.cons.inj hmiddle
                          obtain ⟨more, hmore, -⟩ := @joined_starts α sep next pieces
                          exact hfirst'.no_inside hsm hsg (hrest next List.mem_cons_self) hlong
                            (hmore.symm.trans hafter) (.inr ⟨_, rfl⟩)
                    · cases middle with
                      | nil => exact ⟨hlong.trans (List.append_nil _), (List.cons.inj hmiddle).2.symm⟩
                      | cons c middle =>
                          exfalso
                          obtain ⟨rfl, hafter⟩ := List.cons.inj hmiddle
                          obtain ⟨more, hmore, -⟩ := @joined_starts α sep next' pieces'
                          exact hfirst.no_inside hsm hsg (hrest' next' List.mem_cons_self) hlong
                            (hmore.symm.trans hafter) (.inr ⟨_, rfl⟩)
                  rw [hsame.1, ih hrest hrest' (List.cons_ne_nil _ _) (List.cons_ne_nil _ _) hsame.2]

theorem suffix_iff (hsm : sep ≠ mark) (hsg : sep ≠ guard) {scope : List (List α)}
    (h : ∀ piece ∈ pieces, Piece sep mark guard piece) (hscope : ∀ piece ∈ scope, Piece sep mark guard piece)
    (hne : scope ≠ []) :
    sep :: joined sep scope <:+ joined sep pieces ↔ ∃ above, above ≠ [] ∧ pieces = above ++ scope := by
  constructor
  · rintro ⟨before, heq⟩
    obtain ⟨first, scope', rfl⟩ := List.exists_cons_of_ne_nil hne
    have hfirst := hscope first List.mem_cons_self
    obtain ⟨more, hmore, hends⟩ := @joined_starts α sep first scope'
    induction pieces generalizing before with
    | nil => simp [joined] at heq
    | cons piece pieces ih =>
        obtain ⟨hpiece, hpieces⟩ := List.forall_mem_cons.mp h
        cases pieces with
        | nil =>
            exfalso
            exact hpiece.no_inside hsm hsg hfirst heq.symm
              (hmore.symm.trans (List.append_nil _).symm) (.inl rfl)
        | cons next pieces =>
            rw [joined_cons (List.cons_ne_nil _ _)] at heq
            have hhere : joined sep (first :: scope') = joined sep (next :: pieces) →
                ∃ above, above ≠ [] ∧ piece :: next :: pieces = above ++ first :: scope' := by
              intro hsame
              have hlist := joined_inj hsm hsg hscope hpieces (List.cons_ne_nil _ _) (List.cons_ne_nil _ _) hsame
              exact ⟨[piece], List.cons_ne_nil _ _, by rw [hlist]; rfl⟩
            rcases List.append_eq_append_iff.mp heq with ⟨middle, hlong, hmiddle⟩ | ⟨middle, hlong, hmiddle⟩
            · cases middle with
              | nil => exact hhere (List.cons.inj hmiddle).2
              | cons c middle =>
                  exfalso
                  obtain ⟨rfl, hafter⟩ := List.cons.inj hmiddle
                  exact hpiece.no_inside hsm hsg hfirst hlong (hmore.symm.trans hafter) (.inr ⟨_, rfl⟩)
            · cases middle with
              | nil => exact hhere (List.cons.inj hmiddle).2.symm
              | cons c middle =>
                  obtain ⟨rfl, hafter⟩ := List.cons.inj hmiddle
                  obtain ⟨above, -, habove⟩ := ih hpieces middle hafter.symm
                  exact ⟨piece :: above, List.cons_ne_nil _ _, by rw [habove]; rfl⟩
  · rintro ⟨above, habove, rfl⟩
    rw [joined_append hne habove]
    exact List.suffix_append _ _

end Pieces
