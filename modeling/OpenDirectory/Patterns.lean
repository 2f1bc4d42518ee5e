import OpenDirectory.Text

/-! Patterns that a whole text is matched against, as two languages match them: with one of them the end of a pattern
also stands before a newline that ends the text, and each has its own white space to trim. -/

namespace Pattern

/-- Between so many and so many characters of one class. -/
def run (p : Char → Bool) (low high : Nat) (text : List Char) : Bool :=
  low ≤ text.length && text.length ≤ high && text.all p

/-- One character of a class, then between so many and so many of another. -/
def headed (first p : Char → Bool) (low high : Nat) : List Char → Bool
  | [] => false
  | c :: text => first c && run p low high text

/-- A pattern that ends in Python's `$`: a newline may follow. -/
def closed (pattern : List Char → Bool) (value : String) : Bool :=
  pattern value.toList || (value.toList.getLast? = some '\n' && pattern value.toList.dropLast)

variable {p : Char → Bool} {low high : Nat}

theorem run_iff {text : List Char} :
    run p low high text = true ↔ low ≤ text.length ∧ text.length ≤ high ∧ ∀ c ∈ text, p c = true := by
  simp [run, and_assoc]

theorem headed_iff {first : Char → Bool} {text : List Char} :
    headed first p low high text = true ↔ ∃ c rest, text = c :: rest ∧ first c = true ∧ run p low high rest = true := by
  cases text with
  | nil => simp [headed]
  | cons c rest => simp [headed]

theorem headed_all {first : Char → Bool} {text : List Char} (hfirst : ∀ c, first c = true → p c = true)
    (h : headed first p low high text = true) : ∀ c ∈ text, p c = true := by
  obtain ⟨c, rest, rfl, hc, hrest⟩ := headed_iff.mp h
  intro d hd
  rcases List.mem_cons.mp hd with rfl | hd
  · exact hfirst d hc
  · exact (run_iff.mp hrest).2.2 d hd

theorem closed_of_last {pattern : List Char → Bool} {value : String} (h : value.toList.getLast? ≠ some '\n') :
    closed pattern value = pattern value.toList := by
  simp [closed, h]

theorem closed_iff {pattern : List Char → Bool} {value : String} : closed pattern value = true ↔
    ∃ text, pattern text = true ∧ (value.toList = text ∨ value.toList = text ++ ['\n']) := by
  unfold closed
  rw [Bool.or_eq_true, Bool.and_eq_true, decide_eq_true_eq]
  constructor
  · rintro (h | ⟨hlast, h⟩)
    · exact ⟨_, h, .inl rfl⟩
    · exact ⟨_, h, .inr (List.dropLast_append_getLast? _ hlast).symm⟩
  · rintro ⟨text, h, heq | heq⟩
    · exact .inl (heq ▸ h)
    · rw [heq]
      exact .inr ⟨by simp, by simpa using h⟩

/-- `str.isspace` -/
def pySpace (c : Char) : Bool :=
  c ∈ ['\t', '\n', '\x0b', '\x0c', '\r', '\x1c', '\x1d', '\x1e', '\x1f', ' ', '\u0085', '\u00a0', '\u1680', '\u2028',
    '\u2029', '\u202f', '\u205f', '\u3000'] || ('\u2000' ≤ c && c ≤ '\u200a')

/-- The visible characters of the basic Latin alphabet. -/
def graphic (c : Char) : Bool := '!' ≤ c && c ≤ '~'

theorem pySpace_of_graphic {c : Char} (h : graphic c = true) : pySpace c = false := by
  have hcode : 33 ≤ c.toNat ∧ c.toNat ≤ 126 := by
    simp only [graphic, Bool.and_eq_true, decide_eq_true_eq] at h
    exact ⟨UInt32.le_iff_toNat_le.mp h.1, UInt32.le_iff_toNat_le.mp h.2⟩
  rw [Bool.eq_false_iff]
  intro hspace
  simp only [pySpace, Bool.or_eq_true, Bool.and_eq_true, decide_eq_true_eq] at hspace
  rcases hspace with hmem | ⟨hlow, -⟩
  · have hout : ∀ d ∈ ['\t', '\n', '\x0b', '\x0c', '\r', '\x1c', '\x1d', '\x1e', '\x1f', ' ', '\u0085', '\u00a0',
        '\u1680', '\u2028', '\u2029', '\u202f', '\u205f', '\u3000'], ¬ (33 ≤ d.toNat ∧ d.toNat ≤ 126) := by simp
    exact hout c hmem hcode
  · have hfar : 0x2000 ≤ c.toNat := UInt32.le_iff_toNat_le.mp hlow
    omega

section
variable {blank blank' : Char → Bool} {s : String}

theorem last_stripEnd : ∀ c ∈ (Text.stripEnd blank s).toList.getLast?, blank c = false := by
  intro c hc
  rw [Text.stripEnd, String.toList_ofList, List.getLast?_reverse] at hc
  have h := List.head?_dropWhile_not blank s.toList.reverse
  rw [Option.mem_def.mp hc] at h
  simpa using h

theorem last_strip : ∀ c ∈ (Text.strip blank s).toList.getLast?, blank c = false := by
  have h := @last_stripEnd blank (String.ofList (s.toList.dropWhile blank))
  rw [Text.stripEnd, String.toList_ofList (l := s.toList.dropWhile blank)] at h
  exact h

theorem mem_stripEnd {c : Char} (h : c ∈ (Text.stripEnd blank s).toList) : c ∈ s.toList := by
  rw [Text.stripEnd, String.toList_ofList] at h
  exact List.mem_reverse.mp ((List.dropWhile_sublist _).mem (List.mem_reverse.mp h))

theorem head_strip : ∀ c ∈ (Text.strip blank s).toList.head?, blank c = false := by
  intro c hc
  rw [Text.strip, String.toList_ofList] at hc
  have hprefix : ((s.toList.dropWhile blank).reverse.dropWhile blank).reverse <+: s.toList.dropWhile blank := by
    have h := (List.dropWhile_suffix blank (l := (s.toList.dropWhile blank).reverse)).reverse
    rwa [List.reverse_reverse] at h
  obtain ⟨rest, hrest⟩ := List.head?_eq_some_iff.mp hc
  rw [hrest] at hprefix
  obtain ⟨more, hmore⟩ := hprefix
  have h := List.head?_dropWhile_not blank s.toList
  rw [← hmore] at h
  simpa using h

theorem strip_strip (h : ∀ c, blank' c = true → blank c = true) :
    Text.strip blank' (Text.strip blank s) = Text.strip blank s := by
  have hout : ∀ c, blank c = false → blank' c = false := by
    intro c hc
    rw [Bool.eq_false_iff] at hc ⊢
    exact fun hc' => hc (h c hc')
  exact Text.strip_eq_self (fun c hc => hout c (head_strip c hc)) fun c hc => hout c (last_strip c hc)

theorem length_strip : (Text.strip blank s).length ≤ s.length := by
  rw [← String.length_toList, ← String.length_toList, Text.strip, String.toList_ofList, List.length_reverse]
  calc ((s.toList.dropWhile blank).reverse.dropWhile blank).length
      ≤ (s.toList.dropWhile blank).reverse.length := (List.dropWhile_suffix _).length_le
    _ = (s.toList.dropWhile blank).length := List.length_reverse
    _ ≤ s.toList.length := (List.dropWhile_suffix _).length_le

theorem strip_concat {text : List Char} {last : Char} (h : ∀ c ∈ text, blank c = false) (hne : text ≠ [])
    (hlast : blank last = true) (hs : s.toList = text ++ [last]) : (Text.strip blank s).toList = text := by
  obtain ⟨front, c, rfl⟩ := List.eq_nil_or_concat'  text |>.resolve_left hne
  have hhead : ∀ d ∈ (front ++ [c] ++ [last]).head?, blank d = false := by
    intro d hd
    rw [List.head?_append_of_ne_nil _ hne] at hd
    exact h d (List.mem_of_mem_head? hd)
  rw [Text.strip, hs, String.toList_ofList, Text.dropWhile_eq_self hhead, List.reverse_append, List.reverse_singleton,
    List.singleton_append, List.dropWhile_cons, hlast, if_pos rfl, Text.dropWhile_eq_self, List.reverse_reverse]
  intro d hd
  exact h d (List.mem_reverse.mp (List.mem_of_mem_head? hd))

theorem closed_strip {pattern : List Char → Bool} (h : blank '\n' = true) :
    closed pattern (Text.strip blank s) = pattern (Text.strip blank s).toList := by
  refine closed_of_last fun hlast => ?_
  have hblank := last_strip '\n' hlast
  rw [h] at hblank
  cases hblank

end

end Pattern
