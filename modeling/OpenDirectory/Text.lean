import Mathlib

/-! Text as the source's two languages treat it: splitting and joining on a separator, prefixes
and shell-style patterns. -/

namespace Text

/-- `text.split(separator)`: the stretches between the separators, empty ones included. -/
def split (separator : Char) (s : String) : List String :=
  (s.toList.splitOn separator).map String.ofList

/-- `text.split(separator, 1)`, where the text holds the separator at all. -/
def cut (separator : Char) (s : String) : Option (String × String) :=
  match s.toList.span (· ≠ separator) with
  | (_, []) => none
  | (before, _ :: after) => some (String.ofList before, String.ofList after)

/-- The non-empty stretches between blanks. -/
def fields (blank : Char → Bool) (s : String) : List String :=
  ((s.toList.splitOnP blank).filter fun part => !part.isEmpty).map String.ofList

/-- Without the blanks at both ends. -/
def strip (blank : Char → Bool) (s : String) : String :=
  String.ofList ((s.toList.dropWhile blank).reverse.dropWhile blank).reverse

def startsWith (s affix : String) : Bool := affix.toList.isPrefixOf s.toList

/-- The text after a leading part, unchanged when it does not start so. -/
def removePrefix (s affix : String) : String :=
  if startsWith s affix then String.ofList (s.toList.drop affix.length) else s

/-- `text.rstrip(characters)`. -/
def stripEnd (p : Char → Bool) (s : String) : String :=
  String.ofList (s.toList.reverse.dropWhile p).reverse

def contains (s : String) (c : Char) : Bool := c ∈ s.toList

/-- What stands before and after the first occurrence of a text. -/
def cutAt (mark : List Char) : List Char → Option (List Char × List Char)
  | [] => none
  | c :: rest =>
      if mark.isPrefixOf (c :: rest) then some ([], (c :: rest).drop mark.length)
      else (cutAt mark rest).map fun parts => (c :: parts.1, parts.2)

def endsWith (s affix : String) : Bool := affix.toList.isSuffixOf s.toList

/-- Whether a text that is not empty occurs in another. -/
def holds (s mark : String) : Bool := (cutAt mark.toList s.toList).isSome

def join (separator : String) (parts : List String) : String := separator.intercalate parts

theorem startsWith_iff {s affix : String} : startsWith s affix = true ↔ ∃ rest, s.toList = affix.toList ++ rest := by
  rw [startsWith, List.isPrefixOf_iff_prefix]
  exact ⟨fun ⟨rest, h⟩ => ⟨rest, h.symm⟩, fun ⟨rest, h⟩ => ⟨rest, h.symm⟩⟩

theorem dropWhile_eq_self {p : Char → Bool} {text : List Char} (h : ∀ c ∈ text.head?, p c = false) :
    text.dropWhile p = text := by
  cases text with
  | nil => rfl
  | cons c rest => rw [List.dropWhile_cons, h c rfl, if_neg Bool.false_ne_true]

theorem stripEnd_eq_self {p : Char → Bool} {s : String} (h : ∀ c ∈ s.toList.getLast?, p c = false) :
    stripEnd p s = s := by
  rw [← List.head?_reverse] at h
  rw [stripEnd, dropWhile_eq_self h, List.reverse_reverse, String.ofList_toList]

theorem strip_eq_self {blank : Char → Bool} {s : String} (hfirst : ∀ c ∈ s.toList.head?, blank c = false)
    (hlast : ∀ c ∈ s.toList.getLast?, blank c = false) : strip blank s = s := by
  rw [← List.head?_reverse] at hlast
  rw [strip, dropWhile_eq_self hfirst, dropWhile_eq_self hlast, List.reverse_reverse, String.ofList_toList]

theorem split_eq_self {separator : Char} {s : String} (h : separator ∉ s.toList) : split separator s = [s] := by
  rw [split, List.splitOn_eq_singleton h, List.map_singleton, String.ofList_toList]

theorem append_separator_inj {separator : Char} {left left' right right' : List Char}
    (hleft : separator ∉ left) (hleft' : separator ∉ left')
    (h : left ++ separator :: right = left' ++ separator :: right') :
    left = left' ∧ right = right' := by
  have hcut : ∀ left right : List Char, separator ∉ left → (left ++ separator :: right).takeWhile (· ≠ separator) = left := by
    intro left right hleft
    rw [List.takeWhile_append_of_pos fun c hc => by simpa using ne_of_mem_of_not_mem hc hleft,
      List.takeWhile_cons_of_neg (by simp), List.append_nil]
  obtain rfl : left = left' := by rw [← hcut left right hleft, h, hcut left' right' hleft']
  exact ⟨rfl, (List.cons.inj (List.append_cancel_left h)).2⟩

theorem toList_join_cons (separator : Char) (part next : String) (parts : List String) :
    (join (String.singleton separator) (part :: next :: parts)).toList =
      part.toList ++ separator :: (join (String.singleton separator) (next :: parts)).toList := by
  simp [join, String.toList_intercalate, List.intercalate]

theorem toLower_of_not_alpha {p : Char → Bool} (hp : ∀ c, p c = true → c.isAlpha = false) (c : Char) :
    p c.toLower = p c := by
  by_cases hupper : c.isUpper = true
  · have halpha : c.isAlpha = true := by rw [Char.isAlpha, hupper, Bool.true_or]
    have hlower : c.toLower.isAlpha = true := by rw [Char.isAlpha_toLower_eq_isAlpha, halpha]
    have hneither : ∀ d : Char, d.isAlpha = true → p d = false := by
      intro d hd
      rw [← Bool.not_eq_true]
      intro hpd
      rw [hp d hpd] at hd
      cases hd
    rw [hneither c halpha, hneither c.toLower hlower]
  · rw [Char.toLower_eq_of_not_isUpper hupper]

/-- One element of a pattern: a run of anything, any one character, one character inside or outside
some ranges, or itself. -/
inductive Glob where
  | star
  | any
  | set (outside : Bool) (ranges : List (Char × Char))
  | char (c : Char)

/-- The ranges a bracketed set names. A dash between two characters makes a range of them. -/
def globRanges : List Char → List (Char × Char)
  | low :: '-' :: high :: rest => (low, high) :: globRanges rest
  | c :: rest => (c, c) :: globRanges rest
  | [] => []

/-- What a bracket opens: the set's body and what follows it. A closing bracket that comes first is
part of the set; a bracket never closed stands for itself. -/
def globBracket (pattern : List Char) : Option (Bool × List Char × List Char) :=
  let (outside, body) := match pattern with
    | '!' :: rest => (true, rest)
    | _ => (false, pattern)
  let (first, rest) := match body with
    | ']' :: rest => ([']'], rest)
    | _ => ([], body)
  match rest.span (· ≠ ']') with
  | (_, []) => none
  | (more, _ :: after) => some (outside, first ++ more, after)

/-- The elements of a pattern, which `fuel` bounds by its length. -/
def globElements : Nat → List Char → List Glob
  | 0, _ => []
  | _ + 1, [] => []
  | fuel + 1, '*' :: rest => .star :: globElements fuel rest
  | fuel + 1, '?' :: rest => .any :: globElements fuel rest
  | fuel + 1, '[' :: rest =>
      match globBracket rest with
      | none => .char '[' :: globElements fuel rest
      | some (outside, body, after) =>
          .set outside (globRanges body) :: globElements fuel after
  | fuel + 1, c :: rest => .char c :: globElements fuel rest

def globMatches : List Glob → List Char → Bool
  | [], text => text.isEmpty
  | .star :: rest, text => text.tails.any fun suffix => globMatches rest suffix
  | .any :: rest, text => match text with
      | [] => false
      | _ :: text => globMatches rest text
  | .set outside ranges :: rest, text => match text with
      | [] => false
      | c :: text =>
          (ranges.any (fun range => range.1 ≤ c && c ≤ range.2) != outside) &&
            globMatches rest text
  | .char c :: rest, text => match text with
      | [] => false
      | c' :: text => c = c' && globMatches rest text

/-- `fnmatch.fnmatch`. -/
def fnmatch (name pattern : String) : Bool :=
  globMatches (globElements (pattern.length) pattern.toList) name.toList

example : fnmatch "ws-0042" "ws-[0-9]*" = true := by decide
example : split '.' "a..b" = ["a", "", "b"] := by decide
example : fields (· = ' ') " a  b" = ["a", "b"] := by decide

end Text
