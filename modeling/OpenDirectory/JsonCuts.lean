import OpenDirectory.JsonText

/-! What is cut off a document does not read as the same document. A scanner counts what is open outside
of texts; it gets through everything that is read, ends where it began and never comes below. An object's
own braces are then the first and the last that count, so neither a proper beginning nor a proper end of
its text has them both. -/

namespace JsonText

open Value (Fields)

/-- Outside of texts, in one, or in one right after a backslash. -/
inductive Place where
  | outside
  | inside
  | escaped

/-- Outside of texts nothing closes that is not open, and there is no backslash. -/
def scanChar : Place × Nat → Char → Option (Place × Nat)
  | (.outside, depth), c =>
      if c = '"' then some (.inside, depth)
      else if c = '\\' then none
      else if c = '{' ∨ c = '[' then some (.outside, depth + 1)
      else if c = '}' ∨ c = ']' then if depth = 0 then none else some (.outside, depth - 1)
      else some (.outside, depth)
  | (.inside, depth), c =>
      some (if c = '"' then .outside else if c = '\\' then .escaped else .inside, depth)
  | (.escaped, depth), _ => some (.inside, depth)

def scan (state : Place × Nat) (text : List Char) : Option (Place × Nat) := text.foldlM scanChar state

/-- What is opened in a text is closed in it, and nothing else is. -/
def Balanced (text : List Char) : Prop := scan (.outside, 0) text = some (.outside, 0)

theorem scan_cons (state : Place × Nat) (c : Char) (text : List Char) :
    scan state (c :: text) = (scanChar state c).bind fun state => scan state text := List.foldlM_cons

theorem scan_append (state : Place × Nat) (text more : List Char) :
    scan state (text ++ more) = (scan state text).bind fun state => scan state more := List.foldlM_append

theorem scan_append_some {state after : Place × Nat} {text more : List Char}
    (h : scan state (text ++ more) = some after) :
    ∃ middle, scan state text = some middle ∧ scan middle more = some after := by
  rw [scan_append] at h
  exact Option.bind_eq_some_iff.mp h

variable {place' : Place} {depth depth' : Nat} {c : Char} {input : List Char}

theorem scanChar_deeper {place : Place} (more : Nat)
    (h : scanChar (place, depth) c = some (place', depth')) :
    scanChar (place, depth + more) c = some (place', depth' + more) := by
  cases place with
  | outside =>
      simp only [scanChar] at h ⊢
      split_ifs at h ⊢ <;> simp_all <;> omega
  | inside | escaped =>
      simp only [scanChar, Option.some.injEq, Prod.mk.injEq] at h ⊢
      exact ⟨h.1, by rw [h.2]⟩

theorem scan_deeper {place : Place} {text : List Char} (more : Nat)
    (h : scan (place, depth) text = some (place', depth')) :
    scan (place, depth + more) text = some (place', depth' + more) := by
  induction text generalizing place depth with
  | nil =>
      cases h
      rfl
  | cons c text ih =>
      rw [scan_cons] at h ⊢
      obtain ⟨⟨next, below⟩, hnext, hrest⟩ := Option.bind_eq_some_iff.mp h
      rw [scanChar_deeper more hnext]
      exact ih hrest

theorem Balanced.at {text : List Char} (h : Balanced text) (depth : Nat) :
    scan (.outside, depth) text = some (.outside, depth) := by
  have hdeeper := scan_deeper depth h
  rwa [Nat.zero_add] at hdeeper

theorem Balanced.append {text more : List Char} (h : Balanced text) (h' : Balanced more) :
    Balanced (text ++ more) := by
  unfold Balanced at *
  rw [scan_append, h]
  exact h'

/-- What is neither a quote nor a bracket nor a backslash. -/
def isPlain (c : Char) : Bool := c ≠ '"' && c ≠ '\\' && c ≠ '{' && c ≠ '[' && c ≠ '}' && c ≠ ']'

theorem balanced_plain {text : List Char} (h : ∀ c ∈ text, isPlain c = true) : Balanced text := by
  induction text with
  | nil => rfl
  | cons c text ih =>
      have hc := h c List.mem_cons_self
      simp only [isPlain, Bool.and_eq_true, decide_eq_true_eq] at hc
      obtain ⟨⟨⟨⟨⟨hquote, hslash⟩, hbrace⟩, hbracket⟩, hbrace'⟩, hbracket'⟩ := hc
      have hrest := ih fun other hother => h other (List.mem_cons_of_mem _ hother)
      unfold Balanced at hrest ⊢
      rw [scan_cons]
      simp only [scanChar, hquote, hslash, hbrace, hbracket, hbrace', hbracket', if_false, or_self]
      exact hrest

theorem Balanced.braces {text : List Char} (h : Balanced text) : Balanced ('{' :: (text ++ ['}'])) := by
  have hdeep := h.at 1
  unfold Balanced
  rw [scan_cons]
  show scan (.outside, 1) (text ++ ['}']) = _
  rw [scan_append, hdeep]
  rfl

theorem Balanced.brackets {text : List Char} (h : Balanced text) : Balanced ('[' :: (text ++ [']'])) := by
  have hdeep := h.at 1
  unfold Balanced
  rw [scan_cons]
  show scan (.outside, 1) (text ++ [']']) = _
  rw [scan_append, hdeep]
  rfl

/-- One is in a text where the other is not. -/
def Opposed (place place' : Place) : Prop :=
  (place = .outside ∧ place' = .inside) ∨ (place = .inside ∧ place' = .outside)

theorem opposed_scan {text : List Char} {place last last' : Place} {end_ end' : Nat}
    (hopposed : Opposed place place') (h : scan (place, depth) text = some (last, end_))
    (h' : scan (place', depth') text = some (last', end')) : Opposed last last' := by
  induction text generalizing place place' depth depth' with
  | nil =>
      cases h
      cases h'
      exact hopposed
  | cons c text ih =>
      rw [scan_cons] at h h'
      obtain ⟨⟨next, below⟩, hnext, hrest⟩ := Option.bind_eq_some_iff.mp h
      obtain ⟨⟨next', below'⟩, hnext', hrest'⟩ := Option.bind_eq_some_iff.mp h'
      refine ih ?_ hrest hrest'
      have hstep : ∀ {depth depth' next next' below below'},
          scanChar (.outside, depth) c = some (next, below) →
          scanChar (.inside, depth') c = some (next', below') →
            (next = .outside ∧ next' = .inside) ∨ (next = .inside ∧ next' = .outside) := by
        intro depth depth' next next' below below' hout hin
        simp only [scanChar] at hout hin
        split_ifs at hout hin <;> simp_all
      rcases hopposed with ⟨rfl, rfl⟩ | ⟨rfl, rfl⟩
      · exact hstep hnext hnext'
      · exact (hstep hnext' hnext).elim (fun h => .inr ⟨h.2, h.1⟩) fun h => .inl ⟨h.2, h.1⟩

/-- A part of a text that neither ends it nor breaks off in an escape. -/
def Inside (text : List Char) : Prop := ∀ depth, scan (.inside, depth) text = some (.inside, depth)

theorem Inside.append {text more : List Char} (h : Inside text) (h' : Inside more) : Inside (text ++ more) := by
  intro depth
  rw [scan_append, h depth]
  exact h' depth

theorem inside_single (hquote : c ≠ '"') (hslash : c ≠ '\\') : Inside [c] := by
  intro depth
  simp [scan, scanChar, hquote, hslash]

theorem inside_hexDigit {n : Nat} (h : hexDigit c = some n) : Inside [c] := by
  have hquote : hexDigit '"' = none := by decide
  have hslash : hexDigit '\\' = none := by decide
  refine inside_single ?_ ?_ <;> rintro rfl
  · cases hquote.symm.trans h
  · cases hslash.symm.trans h

theorem readUnit_taken {rest : List Char} {n : Nat} (h : readUnit input = some (n, rest)) :
    ∃ taken, input = taken ++ rest ∧ Inside taken := by
  unfold readUnit at h
  split at h
  · rename_i a b c d tail
    simp only [Option.bind_eq_bind, Option.bind_eq_some_iff, Option.some.injEq, Prod.mk.injEq] at h
    obtain ⟨_, ha, _, hb, _, hc, _, hd, -, rfl⟩ := h
    exact ⟨[a] ++ ([b] ++ ([c] ++ [d])), rfl,
      (inside_hexDigit ha).append ((inside_hexDigit hb).append ((inside_hexDigit hc).append (inside_hexDigit hd)))⟩
  · cases h

theorem inside_escape : Inside ['\\', c] := fun _ => rfl

theorem readUnicode_taken {rest : List Char} (h : readUnicode input = some (c, rest)) :
    ∃ taken, input = taken ++ rest ∧ Inside taken := by
  unfold readUnicode at h
  obtain ⟨⟨high, after⟩, hhigh, hread⟩ := Option.bind_eq_some_iff.mp h
  obtain ⟨taken, rfl, htaken⟩ := readUnit_taken hhigh
  clear h
  dsimp only at hread
  by_cases hpair : 0xd800 ≤ high ∧ high < 0xdc00
  · rw [if_pos hpair] at hread
    split at hread
    · rename_i tail
      obtain ⟨⟨low, last⟩, hlow, hlast⟩ := Option.bind_eq_some_iff.mp hread
      obtain ⟨more, rfl, hmore⟩ := readUnit_taken hlow
      dsimp only at hlast
      have hend : last = rest := by
        by_cases hsecond : 0xdc00 ≤ low ∧ low < 0xe000
        · rw [if_pos hsecond] at hlast
          exact (Prod.mk.inj (Option.some.inj hlast)).2
        · rw [if_neg hsecond] at hlast
          cases hlast
      refine ⟨taken ++ (['\\', 'u'] ++ more), by simp [hend], htaken.append (inside_escape.append hmore)⟩
    · cases hread
  · rw [if_neg hpair] at hread
    by_cases hlone : 0xdc00 ≤ high ∧ high < 0xe000
    · rw [if_pos hlone] at hread
      cases hread
    · rw [if_neg hlone] at hread
      exact ⟨taken, by rw [(Prod.mk.inj (Option.some.inj hread)).2], htaken⟩

theorem readEscape_taken {rest : List Char} (h : readEscape input = some (c, rest)) :
    ∃ taken, '\\' :: input = taken ++ rest ∧ Inside taken := by
  unfold readEscape at h
  split at h
  case h_9 tail =>
    obtain ⟨taken, rfl, htaken⟩ := readUnicode_taken h
    exact ⟨['\\', 'u'] ++ taken, rfl, inside_escape.append htaken⟩
  case h_10 => cases h
  all_goals
    cases h
    exact ⟨_ :: _ :: [], rfl, inside_escape⟩

theorem readChar_taken {rest : List Char} (hquote : ∀ tail, input ≠ '"' :: tail)
    (h : readChar input = some (c, rest)) : ∃ taken, input = taken ++ rest ∧ Inside taken := by
  unfold readChar at h
  split at h
  · exact readEscape_taken h
  · rename_i tail hslash
    split_ifs at h
    cases h
    refine ⟨[c], rfl, inside_single ?_ ?_⟩
    · rintro rfl
      exact hquote _ rfl
    · rintro rfl
      exact hslash rfl
  · cases h

theorem readText_taken {fuel : Nat} {rest text : List Char} (h : readText fuel input = some (text, rest)) :
    ∃ taken, input = taken ++ '"' :: rest ∧ Inside taken := by
  induction fuel generalizing input text with
  | zero => cases h
  | succ fuel ih =>
      by_cases hquote : ∃ tail, input = '"' :: tail
      · obtain ⟨tail, rfl⟩ := hquote
        cases h
        exact ⟨[], rfl, fun _ => rfl⟩
      · have hquote : ∀ tail, input ≠ '"' :: tail := fun tail heq => hquote ⟨tail, heq⟩
        rw [readText_succ hquote] at h
        obtain ⟨⟨c, after⟩, hchar, h⟩ := Option.bind_eq_some_iff.mp h
        obtain ⟨⟨more, last⟩, htext, h⟩ := Option.bind_eq_some_iff.mp h
        cases h
        obtain ⟨taken, rfl, htaken⟩ := readChar_taken hquote hchar
        obtain ⟨later, rfl, hlater⟩ := ih htext
        exact ⟨taken ++ later, (List.append_assoc _ _ _).symm, htaken.append hlater⟩

theorem Inside.quoted {text : List Char} (h : Inside text) : Balanced ('"' :: (text ++ ['"'])) := by
  unfold Balanced
  rw [scan_cons]
  show scan (.inside, 0) (text ++ ['"']) = _
  rw [scan_append, h 0]
  rfl

theorem isPlain_digit (h : c.isDigit = true) : isPlain c = true := by
  have hne : ∀ other : Char, other.isDigit = false → c ≠ other := by
    rintro other hother rfl
    rw [h] at hother
    cases hother
  simp [isPlain, hne _ (show '"'.isDigit = false by decide), hne _ (show '\\'.isDigit = false by decide),
    hne _ (show '{'.isDigit = false by decide), hne _ (show '['.isDigit = false by decide),
    hne _ (show '}'.isDigit = false by decide), hne _ (show ']'.isDigit = false by decide)]

/-- What a reader takes off its input is plain. -/
def TakesPlain (input rest : List Char) : Prop := ∃ taken, input = taken ++ rest ∧ ∀ c ∈ taken, isPlain c = true

theorem TakesPlain.refl (input : List Char) : TakesPlain input input := ⟨[], rfl, fun _ h => absurd h List.not_mem_nil⟩

theorem TakesPlain.trans {middle rest : List Char} (h : TakesPlain input middle) (h' : TakesPlain middle rest) :
    TakesPlain input rest := by
  obtain ⟨taken, rfl, htaken⟩ := h
  obtain ⟨more, rfl, hmore⟩ := h'
  refine ⟨taken ++ more, (List.append_assoc _ _ _).symm, fun c hc => ?_⟩
  exact (List.mem_append.mp hc).elim (htaken c) (hmore c)

theorem TakesPlain.cons {c : Char} {input rest : List Char} (hc : isPlain c = true) (h : TakesPlain input rest) :
    TakesPlain (c :: input) rest := by
  obtain ⟨taken, rfl, htaken⟩ := h
  exact ⟨c :: taken, rfl, List.forall_mem_cons.mpr ⟨hc, htaken⟩⟩

theorem takesPlain_dropWhile {p : Char → Bool} (hp : ∀ c, p c = true → isPlain c = true) (input : List Char) :
    TakesPlain input (input.dropWhile p) :=
  ⟨input.takeWhile p, List.takeWhile_append_dropWhile.symm, fun c hc => hp c (List.mem_takeWhile_imp hc)⟩

theorem takesPlain_digits (input : List Char) : TakesPlain input (splitDigits input).2 :=
  takesPlain_dropWhile (fun _ => isPlain_digit) input

theorem takesPlain_skip (input : List Char) : TakesPlain input (skip input) := by
  refine takesPlain_dropWhile (fun c hc => ?_) input
  simp only [isBlank, Bool.or_eq_true, decide_eq_true_eq] at hc
  rcases hc with ((rfl | rfl) | rfl) | rfl <;> decide

theorem takesPlain_readWhole {digits rest : List Char} (h : readWhole input = some (digits, rest)) :
    TakesPlain input rest := by
  unfold readWhole at h
  split at h
  · cases h
    exact (TakesPlain.refl _).cons (by decide)
  · dsimp only at h
    split_ifs at h
    cases h
    exact takesPlain_digits input

theorem takesPlain_readFraction (input : List Char) : TakesPlain input (readFraction input).2 := by
  unfold readFraction
  split
  · rename_i rest
    dsimp only
    split_ifs
    · exact .refl _
    · exact (takesPlain_digits rest).cons (by decide)
  · exact .refl _

theorem takesPlain_readExponent (input : List Char) : TakesPlain input (readExponent input).2 := by
  unfold readExponent
  split
  · rename_i e rest
    split_ifs with he
    · have he : isPlain e = true := by rcases he with rfl | rfl <;> decide
      dsimp only
      split_ifs
      · exact .refl _
      · -- A sign, if there is one, and the digits after it.
        refine (TakesPlain.trans ?_ (takesPlain_digits _)).cons he
        split
        · exact (TakesPlain.refl _).cons (by decide)
        · exact (TakesPlain.refl _).cons (by decide)
        · exact .refl _
    · exact .refl _
  · exact .refl _

theorem takesPlain_readNumber {rest : List Char} {value : Value} (h : readNumber input = some (value, rest)) :
    TakesPlain input rest := by
  unfold readNumber at h
  dsimp only at h
  obtain ⟨⟨whole, after⟩, hwhole, h⟩ := Option.bind_eq_some_iff.mp h
  have hrest : rest = (readExponent (readFraction after).2).2 := by
    dsimp only at h
    split_ifs at h <;> cases h <;> rfl
  rw [hrest]
  refine ((TakesPlain.trans ?_ (takesPlain_readWhole hwhole)).trans (takesPlain_readFraction _)).trans
    (takesPlain_readExponent _)
  split
  · exact (TakesPlain.refl _).cons (by decide)
  · exact .refl _

/-- What a reader takes off its input is balanced. -/
def Takes (input rest : List Char) : Prop := ∃ taken, input = taken ++ rest ∧ Balanced taken

theorem TakesPlain.takes {rest : List Char} (h : TakesPlain input rest) : Takes input rest := by
  obtain ⟨taken, htaken, hplain⟩ := h
  exact ⟨taken, htaken, balanced_plain hplain⟩

theorem Takes.trans {middle rest : List Char} (h : Takes input middle) (h' : Takes middle rest) :
    Takes input rest := by
  obtain ⟨taken, rfl, htaken⟩ := h
  obtain ⟨more, rfl, hmore⟩ := h'
  exact ⟨taken ++ more, (List.append_assoc _ _ _).symm, htaken.append hmore⟩

theorem takes_plain (hc : isPlain c = true) (rest : List Char) : Takes (c :: rest) rest :=
  ((TakesPlain.refl rest).cons hc).takes

theorem takes_skip (input : List Char) : Takes input (skip input) := (takesPlain_skip input).takes

theorem takes_text {fuel : Nat} {rest text : List Char} (h : readText fuel input = some (text, rest)) :
    Takes ('"' :: input) rest := by
  obtain ⟨taken, rfl, htaken⟩ := readText_taken h
  exact ⟨'"' :: (taken ++ ['"']), by simp, htaken.quoted⟩

theorem Takes.braces {rest : List Char} (h : Takes input ('}' :: rest)) : Takes ('{' :: input) rest := by
  obtain ⟨taken, rfl, htaken⟩ := h
  exact ⟨'{' :: (taken ++ ['}']), by simp, htaken.braces⟩

theorem Takes.brackets {rest : List Char} (h : Takes input (']' :: rest)) : Takes ('[' :: input) rest := by
  obtain ⟨taken, rfl, htaken⟩ := h
  exact ⟨'[' :: (taken ++ [']']), by simp, htaken.brackets⟩

/-- What a reader with so many steps left takes. -/
structure Scans (fuel : Nat) : Prop where
  value : ∀ input value rest, read fuel input = some (value, rest) → Takes input rest
  items : ∀ input items rest, readItems fuel input = some (items, rest) → Takes input (']' :: rest)
  fields : ∀ input fields rest, readFields fuel input = some (fields, rest) → Takes input ('}' :: rest)

variable {fuel : Nat}

theorem Scans.object (ih : Scans fuel) {input rest : List Char} {value : Value}
    (h : read (fuel + 1) ('{' :: input) = some (value, rest)) : Takes input ('}' :: rest) := by
  rw [read] at h
  refine (takes_skip input).trans ?_
  split at h
  · rename_i tail hskip
    cases h
    rw [hskip]
    exact (TakesPlain.refl _).takes
  · obtain ⟨⟨fields, last⟩, hfields, hvalue⟩ := Option.map_eq_some_iff.mp h
    cases hvalue
    exact ih.fields _ _ _ hfields

theorem Scans.array (ih : Scans fuel) {input rest : List Char} {value : Value}
    (h : read (fuel + 1) ('[' :: input) = some (value, rest)) : Takes input (']' :: rest) := by
  rw [read] at h
  refine (takes_skip input).trans ?_
  split at h
  · rename_i tail hskip
    cases h
    rw [hskip]
    exact (TakesPlain.refl _).takes
  · obtain ⟨⟨items, last⟩, hitems, hvalue⟩ := Option.map_eq_some_iff.mp h
    cases hvalue
    exact ih.items _ _ _ hitems

theorem Scans.succ_value (ih : Scans fuel) (input : List Char) (value : Value) (rest : List Char)
    (h : read (fuel + 1) input = some (value, rest)) : Takes input rest := by
  have hword : ∀ word : List Char, (∀ c ∈ word, isPlain c = true) → Takes (word ++ rest) rest := fun _ hplain =>
    ⟨_, rfl, balanced_plain hplain⟩
  have hread := h
  rw [read.eq_def] at h
  split at h
  · contradiction
  · rename_i tail _
    obtain ⟨⟨text, last⟩, htext, hvalue⟩ := Option.map_eq_some_iff.mp h
    cases hvalue
    exact takes_text htext
  · exact (ih.object hread).braces
  · exact (ih.array hread).brackets
  · cases h
    exact hword ['n', 'u', 'l', 'l'] (by simp [isPlain])
  · cases h
    exact hword ['t', 'r', 'u', 'e'] (by simp [isPlain])
  · cases h
    exact hword ['f', 'a', 'l', 's', 'e'] (by simp [isPlain])
  · exact (takesPlain_readNumber h).takes

theorem Scans.succ_items (ih : Scans fuel) (input : List Char) (items : List Value) (rest : List Char)
    (h : readItems (fuel + 1) input = some (items, rest)) : Takes input (']' :: rest) := by
  rw [readItems] at h
  obtain ⟨⟨item, after⟩, hitem, h⟩ := Option.bind_eq_some_iff.mp h
  refine ((ih.value _ _ _ hitem).trans (takes_skip after)).trans ?_
  dsimp only at h
  split at h
  · rename_i tail hskip
    cases h
    rw [hskip]
    exact (TakesPlain.refl _).takes
  · rename_i tail hskip
    obtain ⟨⟨later, last⟩, hlater, h⟩ := Option.bind_eq_some_iff.mp h
    cases h
    rw [hskip]
    exact ((takes_plain (by decide) tail).trans (takes_skip tail)).trans (ih.items _ _ _ hlater)
  · cases h

theorem Scans.succ_fields (ih : Scans fuel) (input : List Char) (fields : Fields) (rest : List Char)
    (h : readFields (fuel + 1) input = some (fields, rest)) : Takes input ('}' :: rest) := by
  rw [readFields.eq_def] at h
  split at h
  · contradiction
  · rename_i steps _ hsteps
    obtain rfl := Nat.succ.inj hsteps
    obtain ⟨⟨key, after⟩, hkey, h⟩ := Option.bind_eq_some_iff.mp h
    refine ((takes_text hkey).trans (takes_skip after)).trans ?_
    dsimp only at h
    split at h
    · rename_i colon hcolon
      obtain ⟨⟨value, next⟩, hvalue, h⟩ := Option.bind_eq_some_iff.mp h
      rw [hcolon]
      refine (((takes_plain (by decide) colon).trans (takes_skip colon)).trans (ih.value _ _ _ hvalue)).trans
        ((takes_skip next).trans ?_)
      dsimp only at h
      split at h
      · rename_i tail hskip
        cases h
        rw [hskip]
        exact (TakesPlain.refl _).takes
      · rename_i tail hskip
        obtain ⟨⟨later, last⟩, hlater, h⟩ := Option.bind_eq_some_iff.mp h
        cases h
        rw [hskip]
        exact ((takes_plain (by decide) tail).trans (takes_skip tail)).trans (ih.fields _ _ _ hlater)
      · cases h
    · cases h
  · cases h

theorem scans (fuel : Nat) : Scans fuel := by
  induction fuel with
  | zero => exact ⟨nofun, nofun, nofun⟩
  | succ fuel ih => exact ⟨ih.succ_value, ih.succ_items, ih.succ_fields⟩

theorem read_object {input rest : List Char} {fields : Fields} (h : read fuel input = some (.obj fields, rest)) :
    ∃ middle, input = '{' :: (middle ++ '}' :: rest) ∧ Balanced middle := by
  cases fuel with
  | zero => cases h
  | succ fuel =>
      have hread := h
      rw [read.eq_def] at h
      split at h
      · contradiction
      · obtain ⟨_, _, hvalue⟩ := Option.map_eq_some_iff.mp h
        cases hvalue
      · obtain ⟨taken, htaken, hbalanced⟩ := (scans fuel).object hread
        exact ⟨taken, by rw [htaken], hbalanced⟩
      · dsimp only at h
        split at h
        · cases h
        · obtain ⟨_, _, hvalue⟩ := Option.map_eq_some_iff.mp h
          cases hvalue
      · cases h
      · cases h
      · cases h
      · unfold readNumber at h
        dsimp only at h
        obtain ⟨_, _, hnumber⟩ := Option.bind_eq_some_iff.mp h
        split_ifs at hnumber <;> cases hnumber

theorem loads_object {text : String} {fields : Fields} (h : loads text = some (.obj fields)) :
    ∃ before middle after, text.toList = before ++ '{' :: (middle ++ '}' :: after) ∧
      (∀ c ∈ before, isBlank c = true) ∧ (∀ c ∈ after, isBlank c = true) ∧ Balanced middle := by
  unfold loads at h
  split at h
  · cases h
  · rename_i value rest hread
    split_ifs at h with hrest
    cases h
    obtain ⟨middle, hskip, hmiddle⟩ := read_object hread
    refine ⟨text.toList.takeWhile isBlank, middle, rest, ?_, fun c hc => List.mem_takeWhile_imp hc, ?_, hmiddle⟩
    · rw [← hskip]
      exact List.takeWhile_append_dropWhile.symm
    · simpa [skip] using hrest

theorem eq_of_blanks_before {blanks text more : List Char} (hblank : ∀ c ∈ blanks, isBlank c = true)
    (h : '{' :: text = blanks ++ '{' :: more) : text = more := by
  cases blanks with
  | nil => exact (List.cons.inj h).2
  | cons c blanks =>
      have hc := hblank c List.mem_cons_self
      rw [← (List.cons.inj h).1] at hc
      exact absurd hc (by decide)

theorem eq_of_blanks_after {blanks text more : List Char} (hblank : ∀ c ∈ blanks, isBlank c = true)
    (h : text ++ ['}'] = more ++ '}' :: blanks) : text = more := by
  rcases List.eq_nil_or_concat blanks with rfl | ⟨front, c, rfl⟩
  · exact (List.append_inj' h rfl).1
  · have hc := hblank c (by simp)
    rw [List.concat_eq_append, ← List.cons_append, ← List.append_assoc] at h
    rw [← List.singleton_inj.mp (List.append_inj' h rfl).2] at hc
    exact absurd hc (by decide)

theorem scan_opening {blanks text : List Char} (hblank : ∀ c ∈ blanks, isBlank c = true) (htext : Balanced text)
    (depth : Nat) : scan (.outside, depth) (blanks ++ '{' :: text) = some (.outside, depth + 1) := by
  have hplain : Balanced blanks := by
    refine balanced_plain fun c hc => ?_
    have hc := hblank c hc
    simp only [isBlank, Bool.or_eq_true, decide_eq_true_eq] at hc
    rcases hc with ((rfl | rfl) | rfl) | rfl <;> decide
  rw [scan_append, hplain.at depth]
  exact htext.at (depth + 1)

theorem not_opening {before blanks text : List Char} (hblank : ∀ c ∈ blanks, isBlank c = true)
    (htext : Balanced text) : ¬ Balanced (before ++ (blanks ++ '{' :: text)) := by
  intro hbalanced
  obtain ⟨⟨place, depth⟩, -, hrest⟩ := scan_append_some hbalanced
  have hopen := scan_opening hblank htext depth
  have hclash : ∀ {rest : List Char} {depth depth' : Nat}, scan (.inside, depth) rest = some (.outside, 0) →
      scan (.outside, depth') rest = some (.outside, depth' + 1) → False := by
    intro rest depth depth' hin hout
    rcases opposed_scan (.inl ⟨rfl, rfl⟩) hout hin with ⟨_, h⟩ | ⟨h, _⟩ <;> cases h
  cases place with
  | outside =>
      rw [hopen] at hrest
      cases hrest
  | inside => exact hclash hrest hopen
  | escaped =>
      -- the character that was escaped would be a blank or the brace
      cases blanks with
      | nil =>
          have hin : scan (.inside, depth) text = some (.outside, 0) := hrest
          rcases opposed_scan (.inl ⟨rfl, rfl⟩) htext hin with ⟨_, h⟩ | ⟨h, _⟩ <;> cases h
      | cons c blanks =>
          have hin : scan (.inside, depth) (blanks ++ '{' :: text) = some (.outside, 0) := hrest
          exact hclash hin (scan_opening (fun c hc => hblank c (List.mem_cons_of_mem _ hc)) htext depth)

section

variable {middle part more : List Char} {fields : Fields}

theorem end_not_object (hmiddle : Balanced middle) (hmore : more ≠ [])
    (htext : '{' :: (middle ++ ['}']) = more ++ part) : loads (String.ofList part) ≠ some (.obj fields) := by
  intro hloads
  obtain ⟨before, inner, after, hpart, hbefore, hafter, hinner⟩ := loads_object hloads
  rw [String.toList_ofList] at hpart
  obtain ⟨c, rest, rfl⟩ := List.exists_cons_of_ne_nil hmore
  have hrest : middle ++ ['}'] = rest ++ (before ++ '{' :: inner) ++ '}' :: after := by
    rw [(List.cons.inj htext).2, hpart]
    simp
  exact not_opening hbefore hinner (eq_of_blanks_after hafter hrest ▸ hmiddle)

theorem beginning_not_object (hmiddle : Balanced middle) (hmore : more ≠ [])
    (htext : '{' :: (middle ++ ['}']) = part ++ more) : loads (String.ofList part) ≠ some (.obj fields) := by
  intro hloads
  obtain ⟨before, inner, after, hpart, hbefore, hafter, hinner⟩ := loads_object hloads
  rw [String.toList_ofList] at hpart
  obtain ⟨front, c, rfl⟩ := (List.eq_nil_or_concat more).resolve_left hmore
  rw [hpart, List.append_assoc] at htext
  have hrest : middle ++ ['}'] = (inner ++ '}' :: (after ++ front)) ++ [c] := by
    rw [eq_of_blanks_before hbefore htext]
    simp
  have heq : middle = inner ++ '}' :: (after ++ front) := (List.append_inj' hrest rfl).1
  obtain ⟨state, hinner', hclose⟩ := scan_append_some (show scan _ _ = _ from heq ▸ hmiddle)
  cases hinner'.symm.trans hinner
  cases hclose

end

theorem balanced_write {escape : Char → List Char} (h : Escapes escape) {fields : Fields}
    (hwhole : whole (.obj fields) = true) (hdistinct : Value.distinct (.obj fields) = true) :
    ∃ middle, write escape (.obj fields) = '{' :: (middle ++ ['}']) ∧ Balanced middle := by
  obtain ⟨middle, hwrite⟩ := @exists_write_obj escape fields
  obtain ⟨before, inner, after, htext, hbefore, hafter, hinner⟩ := loads_object (loads_document h hwhole hdistinct)
  rw [document, String.toList_ofList, hwrite] at htext
  have heq : middle = inner := eq_of_blanks_after hafter (eq_of_blanks_before hbefore htext)
  exact ⟨middle, hwrite, heq ▸ hinner⟩

end JsonText
