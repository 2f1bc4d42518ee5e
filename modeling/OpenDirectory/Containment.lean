import OpenDirectory.Delegation
import OpenDirectory.Pieces

/-! Where the objects of the directory are, and that a delegation reaches the objects of its container and no
others, although it only looks at how a name ends. A comma in the name of an object is escaped and could stand
before what reads like a container, but an equals sign in it is escaped as well. -/

namespace OpenDirectory.Delegation

open Pieces

variable [Runtime]

/-- One component of a distinguished name, by the type of an attribute and its value. -/
structure Rdn where
  type : String
  value : String
  plain : ∀ c ∈ type.toList, c.isAlphanum = true ∨ c ∈ ['-', '.']

structure Dn where
  rdns : List Rdn
  nonempty : rdns ≠ []

/-- How the directory writes a component; `escape` is how it writes a value. -/
def Rdn.text (escape : String → String) (rdn : Rdn) : String := rdn.type ++ "=" ++ escape rdn.value

def Dn.text (escape : String → String) (dn : Dn) : String := Text.join "," (dn.rdns.map (Rdn.text escape))

/-- The components are the same but for case. -/
structure Rdn.Alike (rdn other : Rdn) : Prop where
  type : lower rdn.type = lower other.type
  value : lower rdn.value = lower other.value

def Same (rdns others : List Rdn) : Prop := List.Forall₂ Rdn.Alike rdns others

/-- The object is what the scope names or lies beneath it, component by component. -/
def Within (dn scope : Dn) : Prop := ∃ above below, dn.rdns = above ++ below ∧ Same below scope.rdns

/-- The object of a name in a container. -/
def Dn.child (rdn : Rdn) (container : Dn) : Dn := ⟨rdn :: container.rdns, List.cons_ne_nil _ _⟩

/-- The characters that the syntax of names is made of. -/
def separators : List Char := [',', '=', '\\']

/-- Taking a text to lower case does not look across these characters, and makes none of them. -/
structure Lowering : Prop where
  empty : lower "" = ""
  apart : ∀ c ∈ separators, ∀ text rest, lower (text ++ String.singleton c ++ rest) =
    lower text ++ String.singleton c ++ lower rest
  none : ∀ c ∈ separators, ∀ text, c ∉ text.toList → c ∉ (lower text).toList

/-- An equals sign in a value is written after a backslash or by its number, and of two values that are the
same but for case so is what is written. -/
structure Escapes (escape : String → String) : Prop where
  guarded : ∀ value, Guarded '=' '\\' (escape value).toList
  alike : ∀ value other, lower (escape value) = lower (escape other) ↔ lower value = lower other

theorem Lowering.toList_apart (h : Lowering) {c : Char} (hc : c ∈ separators) {text : String}
    {before after : List Char} (htext : text.toList = before ++ c :: after) :
    (lower text).toList = (lower (String.ofList before)).toList ++ c :: (lower (String.ofList after)).toList := by
  have heq : text = String.ofList before ++ String.singleton c ++ String.ofList after := by
    apply String.toList_inj.mp
    rw [htext]
    simp
  rw [heq, h.apart c hc]
  simp

theorem Lowering.guarded (h : Lowering) (text : String) (hguarded : Guarded '=' '\\' text.toList) :
    Guarded '=' '\\' (lower text).toList := by
  have hall : ∀ (n : Nat) (text : String), text.length ≤ n → Guarded '=' '\\' text.toList →
      Guarded '=' '\\' (lower text).toList := by
    intro n
    induction n with
    | zero =>
        intro text hlength _
        have hempty : text = "" := String.toList_inj.mp (List.eq_nil_of_length_eq_zero (by
          rw [String.length_toList]
          exact Nat.le_zero.mp hlength))
        rw [hempty, h.empty]
        exact Guarded.of_not_mem List.not_mem_nil
    | succ n ih =>
        intro text hlength hguarded
        by_cases hmark : '=' ∈ text.toList
        · obtain ⟨before, after, htext, hfirst⟩ := List.eq_append_cons_of_mem hmark
          have hafter : Guarded '=' '\\' (lower (String.ofList after)).toList := by
            apply ih
            · have hsplit := congrArg List.length htext
              rw [String.length_toList, List.length_append, List.length_cons] at hsplit
              rw [String.length_ofList]
              omega
            · rw [String.toList_ofList]
              exact (htext ▸ hguarded).tail (by decide)
          have hbefore : '=' ∉ (lower (String.ofList before)).toList :=
            h.none '=' (by decide) _ (by rwa [String.toList_ofList])
          -- What stands before the first equals sign ends in a backslash, in lower case as well.
          obtain ⟨earlier, rfl⟩ := hguarded before after htext
          have hends : (lower (String.ofList (earlier ++ ['\\']))).toList =
              (lower (String.ofList earlier)).toList ++ ['\\'] := by
            rw [h.toList_apart (show '\\' ∈ separators by decide) (String.toList_ofList), h.empty]
            rfl
          rw [h.toList_apart (show '=' ∈ separators by decide) htext, hends]
          exact Guarded.cons_mark (hends ▸ hbefore) hafter
        · exact Guarded.of_not_mem (h.none '=' (by decide) text hmark)
  exact hall text.length text le_rfl hguarded

variable {escape : String → String}

omit [Runtime] in
theorem Rdn.not_mem_type (rdn : Rdn) : ∀ c ∈ separators, c ∉ rdn.type.toList := by
  intro c hc hmem
  have hplain := rdn.plain c hmem
  simp only [separators, List.mem_cons, List.not_mem_nil, or_false] at hc
  rcases hc with rfl | rfl | rfl <;> revert hplain <;> decide

/-- A component in lower case. -/
def Rdn.folded (escape : String → String) (rdn : Rdn) : List Char := (lower (rdn.text escape)).toList

theorem Rdn.folded_eq (h : Lowering) (rdn : Rdn) : rdn.folded escape =
    (lower rdn.type).toList ++ '=' :: (lower (escape rdn.value)).toList := by
  have hapart := h.apart '=' (by decide) rdn.type (escape rdn.value)
  have hmark : String.singleton '=' = "=" := rfl
  rw [hmark] at hapart
  rw [Rdn.folded, Rdn.text, hapart]
  simp

theorem Rdn.piece (h : Lowering) (hescape : Escapes escape) (rdn : Rdn) :
    Piece ',' '=' '\\' (rdn.folded escape) := by
  refine ⟨_, _, rdn.folded_eq h, ?_, ?_, h.guarded _ (hescape.guarded rdn.value)⟩
  · exact h.none ',' (by decide) _ (rdn.not_mem_type ',' (by decide))
  · exact h.none '\\' (by decide) _ (rdn.not_mem_type '\\' (by decide))

theorem Rdn.folded_inj (h : Lowering) (hescape : Escapes escape) {rdn other : Rdn} :
    rdn.folded escape = other.folded escape ↔ rdn.Alike other := by
  rw [rdn.folded_eq h, other.folded_eq h]
  constructor
  · intro heq
    have hfree : ∀ rdn : Rdn, '=' ∉ (lower rdn.type).toList :=
      fun rdn => h.none '=' (by decide) _ (rdn.not_mem_type '=' (by decide))
    obtain ⟨htype, hvalue⟩ := Text.append_separator_inj (hfree rdn) (hfree other) heq
    exact ⟨String.toList_inj.mp htype, (hescape.alike _ _).mp (String.toList_inj.mp hvalue)⟩
  · rintro ⟨htype, hvalue⟩
    rw [htype, (hescape.alike _ _).mpr hvalue]

theorem same_iff (h : Lowering) (hescape : Escapes escape) {rdns others : List Rdn} :
    rdns.map (Rdn.folded escape) = others.map (Rdn.folded escape) ↔ Same rdns others := by
  induction rdns generalizing others with
  | nil =>
      cases others with
      | nil => exact ⟨fun _ => .nil, fun _ => rfl⟩
      | cons other others => exact ⟨fun heq => (List.cons_ne_nil _ _ heq.symm).elim, fun hsame => by cases hsame⟩
  | cons rdn rdns ih =>
      cases others with
      | nil => exact ⟨fun heq => (List.cons_ne_nil _ _ heq).elim, fun hsame => by cases hsame⟩
      | cons other others =>
          rw [List.map_cons, List.map_cons, List.cons_eq_cons, Rdn.folded_inj h hescape, ih, Same, Same,
            List.forall₂_cons]

theorem Lowering.join (h : Lowering) {texts : List String} (hne : texts ≠ []) :
    (lower (Text.join "," texts)).toList = joined ',' (texts.map fun text => (lower text).toList) := by
  induction texts with
  | nil => exact absurd rfl hne
  | cons text texts ih =>
      cases texts with
      | nil => simp [Text.join, joined]
      | cons next texts =>
          have hsep : String.singleton ',' = "," := rfl
          have hsplit : Text.join "," (text :: next :: texts) =
              text ++ String.singleton ',' ++ Text.join "," (next :: texts) := by
            apply String.toList_inj.mp
            rw [← hsep, Text.toList_join_cons]
            simp
          rw [hsplit, h.apart ',' (by decide), List.map_cons, joined_cons (by simp), ← ih (List.cons_ne_nil _ _)]
          simp

theorem Dn.lower_text (h : Lowering) (dn : Dn) :
    (lower (dn.text escape)).toList = joined ',' (dn.rdns.map (Rdn.folded escape)) := by
  rw [Dn.text, h.join (by simp [dn.nonempty]), List.map_map]
  rfl

theorem Dn.pieces (h : Lowering) (hescape : Escapes escape) (dn : Dn) :
    ∀ piece ∈ dn.rdns.map (Rdn.folded escape), Piece ',' '=' '\\' piece := by
  intro piece hpiece
  obtain ⟨rdn, -, rfl⟩ := List.mem_map.mp hpiece
  exact rdn.piece h hescape

theorem Grant.reaches_iff (h : Lowering) (hescape : Escapes escape) (grant : Grant) {scope : Dn}
    (hscope : grant.scopeDn = scope.text escape) (dn : Dn) (baseDn : String) :
    grant.reaches (some (dn.text escape)) baseDn = true ↔ Within dn scope := by
  have hne : ∀ dn : Dn, dn.rdns.map (Rdn.folded escape) ≠ [] := fun dn => by simp [dn.nonempty]
  have hcomma : (("," : String) ++ lower (scope.text escape)).toList = ',' :: (lower (scope.text escape)).toList := by
    rw [String.toList_append]
    rfl
  have hequal : lower (dn.text escape) = lower (scope.text escape) ↔ Same dn.rdns scope.rdns := by
    rw [← String.toList_inj, dn.lower_text h, scope.lower_text h, ← same_iff h hescape]
    constructor
    · exact joined_inj (by decide) (by decide) (dn.pieces h hescape) (scope.pieces h hescape) (hne dn) (hne scope)
    · exact fun heq => by rw [heq]
  have hbeneath : Text.endsWith (lower (dn.text escape)) ("," ++ lower (scope.text escape)) = true ↔
      ∃ above below, above ≠ [] ∧ dn.rdns = above ++ below ∧ Same below scope.rdns := by
    rw [Text.endsWith, List.isSuffixOf_iff_suffix, hcomma, dn.lower_text h, scope.lower_text h,
      suffix_iff (by decide) (by decide) (dn.pieces h hescape) (scope.pieces h hescape) (hne scope)]
    constructor
    · rintro ⟨above, habove, heq⟩
      obtain ⟨above', below, hsplit, rfl, hbelow⟩ := List.map_eq_append_iff.mp heq
      exact ⟨above', below, fun hnil => habove (by rw [hnil]; rfl), hsplit, (same_iff h hescape).mp hbelow⟩
    · rintro ⟨above, below, habove, hsplit, hsame⟩
      refine ⟨above.map (Rdn.folded escape), fun hnil => habove (List.map_eq_nil_iff.mp hnil), ?_⟩
      rw [hsplit, List.map_append, (same_iff h hescape).mpr hsame]
  calc
    _ ↔ lower (dn.text escape) = lower (scope.text escape) ∨
        Text.endsWith (lower (dn.text escape)) ("," ++ lower (scope.text escape)) = true := by
      rw [Grant.reaches, hscope, Bool.or_eq_true, decide_eq_true_eq]
    _ ↔ Within dn scope := by
      rw [hequal, hbeneath]
      constructor
      · rintro (hsame | ⟨above, below, -, hsplit, hsame⟩)
        · exact ⟨[], dn.rdns, rfl, hsame⟩
        · exact ⟨above, below, hsplit, hsame⟩
      · rintro ⟨above, below, hsplit, hsame⟩
        by_cases habove : above = []
        · rw [habove, List.nil_append] at hsplit
          exact .inl (hsplit ▸ hsame)
        · exact .inr ⟨above, below, habove, hsplit, hsame⟩

/-- The characters that are escaped wherever they stand in a value. -/
def special : List Char := ['\\', ',', '+', '"', '<', '>', ';', '=', '\x00']

/-- A value as the console writes it in a name that has no blank at an end. -/
def escapeRdn (value : String) : String :=
  String.ofList (value.toList.flatMap fun c => if c ∈ special then ['\\', c] else [c])

omit [Runtime] in
theorem lowering_latin : @Lowering Runtime.latin := by
  let _ := Runtime.latin
  have hlower : ∀ text : String, (lower text).toList = text.toList.map Char.toLower := fun _ => String.toList_ofList
  have hself : ∀ c ∈ separators, c.toLower = c := by simp [separators]
  have hother : ∀ c ∈ separators, c.isAlpha = false := by simp [separators]
  constructor
  · rfl
  · intro c hc text rest
    apply String.toList_inj.mp
    rw [hlower, String.toList_append, String.toList_append, String.toList_append, String.toList_append, hlower,
      hlower, List.map_append, List.map_append]
    simp [hself c hc]
  · intro c hc text hnot hmem
    rw [hlower] at hmem
    obtain ⟨d, hd, heq⟩ := List.mem_map.mp hmem
    have hsame := @Text.toLower_of_not_alpha (fun other => decide (other = c))
      (fun other heq => of_decide_eq_true heq ▸ hother c hc) d
    rw [decide_eq_true heq] at hsame
    exact hnot (of_decide_eq_true hsame.symm ▸ hd)

/-- Sales is delegated; an account elsewhere is called what reads like one of Sales. -/
def sales : Dn := ⟨[⟨"OU", "Sales", by simp⟩, ⟨"DC", "corp", by simp⟩], List.cons_ne_nil _ _⟩

def domainHead : Dn := ⟨[⟨"DC", "corp", by simp⟩], List.cons_ne_nil _ _⟩

end OpenDirectory.Delegation
