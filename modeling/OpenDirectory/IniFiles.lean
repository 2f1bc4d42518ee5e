import OpenDirectory.Lists
import OpenDirectory.Text

/-! Files of sections and settings: what a program reads from the lines of one, and when an edit of it is exact. -/

namespace Ini

variable (blank : Char → Bool)

/-- Names in another case are the same name. -/
def fold (name : String) : String := String.ofList (name.toList.map Char.toLower)

inductive Item where
  | header (name : String)
  | setting (key value : String)
  | other
  deriving DecidableEq

/-- What a line says: comments and lines that are neither a header nor a setting say nothing. -/
def item (line : String) : Item :=
  let trimmed := Text.strip blank line
  match trimmed.toList with
  | [] => .other
  | c :: rest =>
      if c = '#' ∨ c = ';' then .other
      else if c = '[' then
        match Text.cut ']' (String.ofList rest) with
        | some (name, _) => .header (fold (Text.strip blank name))
        | none => .other
      else
        match Text.cut '=' trimmed with
        | some (key, value) => .setting (fold (Text.strip blank key)) (Text.strip blank value)
        | none => .other

/-- A setting, and the section it is in. -/
structure Setting where
  place : Option String
  key : String
  value : String
  deriving DecidableEq

/-- The section after a line. -/
def next (place : Option String) (line : String) : Option String :=
  match item blank line with
  | .header name => some name
  | _ => place

def sectionAfter (place : Option String) (lines : List String) : Option String := lines.foldl (next blank) place

/-- The lines, each with the section before it. -/
def placed : Option String → List String → List (Option String × String)
  | _, [] => []
  | place, line :: lines => (place, line) :: placed (next blank place line) lines

def settingOf (line : Option String × String) : Option Setting :=
  match item blank line.2 with
  | .setting key value => some ⟨line.1, key, value⟩
  | _ => none

def read (start : Option String) (lines : List String) : List Setting := (placed blank start lines).filterMap (settingOf blank)

/-- Whether a line is one of the settings an edit is about. -/
def isMine (mine : Setting → Bool) (line : Option String × String) : Bool := (settingOf blank line).any mine

def others (start : Option String) (mine : Setting → Bool) (lines : List String) : List String :=
  ((placed blank start lines).filter fun line => !isMine blank mine line).map Prod.snd

/-- The lines of these settings. -/
def ownLines (start : Option String) (mine : Setting → Bool) (lines : List String) : List (Option String × String) :=
  (placed blank start lines).filter (isMine blank mine)

/-- After the edit each wanted setting stands once; the other lines are there as they were and in their order, and nothing
else is set. -/
structure Exact (start : Option String) (mine : Setting → Bool) (wanted : List Setting) (before after : List String) :
    Prop where
  once : ∀ setting ∈ wanted, ((read blank start after).filter fun other => mine other && other.key == setting.key) = [setting]
  kept : (others blank start mine before).Sublist (others blank start mine after)
  elsewhere : (read blank start after).filter (fun other => !mine other) =
    (read blank start before).filter (fun other => !mine other)

variable {blank} {start : Option String}

theorem sectionAfter_append (xs ys : List String) :
    sectionAfter blank start (xs ++ ys) = sectionAfter blank (sectionAfter blank start xs) ys := List.foldl_append

theorem placed_append (xs ys : List String) :
    placed blank start (xs ++ ys) = placed blank start xs ++ placed blank (sectionAfter blank start xs) ys := by
  induction xs generalizing start with
  | nil => rfl
  | cons line xs ih =>
      rw [List.cons_append, placed, ih, placed, List.cons_append]
      rfl

theorem read_append (xs ys : List String) :
    read blank start (xs ++ ys) = read blank start xs ++ read blank (sectionAfter blank start xs) ys := by
  rw [read, placed_append, List.filterMap_append]
  rfl

theorem others_append (mine : Setting → Bool) (xs ys : List String) : others blank start mine (xs ++ ys) =
    others blank start mine xs ++ others blank (sectionAfter blank start xs) mine ys := by
  rw [others, placed_append, List.filter_append, List.map_append]
  rfl

theorem map_snd_placed (lines : List String) : (placed blank start lines).map Prod.snd = lines := by
  induction lines generalizing start with
  | nil => rfl
  | cons line lines ih => rw [placed, List.map_cons, ih]

theorem mem_of_placed {line : Option String × String} {lines : List String} (h : line ∈ placed blank start lines) :
    line.2 ∈ lines := by
  rw [← @map_snd_placed blank start lines]
  exact List.mem_map_of_mem h

theorem placed_of_next {lines : List String} (h : ∀ line ∈ lines, ∀ place, next blank place line = place) :
    placed blank start lines = lines.map fun line => (start, line) := by
  induction lines with
  | nil => rfl
  | cons line lines ih =>
      rw [placed, h line List.mem_cons_self, ih fun other hother => h other (List.mem_cons_of_mem _ hother)]
      rfl

theorem sectionAfter_of_next {lines : List String} (h : ∀ line ∈ lines, ∀ place, next blank place line = place) :
    sectionAfter blank start lines = start := by
  induction lines with
  | nil => rfl
  | cons line lines ih =>
      rw [sectionAfter, List.foldl_cons, h line List.mem_cons_self]
      exact ih fun other hother => h other (List.mem_cons_of_mem _ hother)

variable {f : String → String} {mine : Setting → Bool} {key : String}

theorem placed_map {lines : List String}
    (h : ∀ line ∈ lines, ∀ place, next blank place (f line) = next blank place line) :
    placed blank start (lines.map f) = (placed blank start lines).map (Prod.map id f) := by
  induction lines generalizing start with
  | nil => rfl
  | cons line lines ih =>
      rw [List.map_cons, placed, h line List.mem_cons_self, ih fun other hother => h other (List.mem_cons_of_mem _ hother)]
      rfl

theorem sectionAfter_map {lines : List String}
    (h : ∀ line ∈ lines, ∀ place, next blank place (f line) = next blank place line) :
    sectionAfter blank start (lines.map f) = sectionAfter blank start lines := by
  induction lines generalizing start with
  | nil => rfl
  | cons line lines ih =>
      have hrest := @ih (next blank start line) fun other hother => h other (List.mem_cons_of_mem _ hother)
      unfold sectionAfter at hrest ⊢
      rw [List.map_cons, List.foldl_cons, h line List.mem_cons_self, hrest, List.foldl_cons]

theorem map_settingOf_ownLines (mine : Setting → Bool) (lines : List String) :
    (ownLines blank start mine lines).map (settingOf blank) = ((read blank start lines).filter mine).map some := by
  unfold ownLines read
  rw [List.filter_filterMap, List.map_filterMap, ← List.filterMap_eq_map, List.filterMap_filter]
  refine List.filterMap_congr fun line _ => ?_
  cases hsetting : settingOf blank line with
  | none => simp [isMine, hsetting]
  | some setting => cases hmine : mine setting <;> simp [isMine, hsetting, hmine]

theorem filter_read_eq_singleton {lines : List String} {setting : Setting} :
    (read blank start lines).filter mine = [setting] ↔
      ∃ line, ownLines blank start mine lines = [line] ∧ settingOf blank line = some setting := by
  constructor
  · intro h
    have hmap := @map_settingOf_ownLines blank start mine lines
    rw [h] at hmap
    exact List.map_eq_singleton_iff.mp hmap
  · intro ⟨line, hown, hline⟩
    have hmap := @map_settingOf_ownLines blank start mine lines
    rw [hown, List.map_singleton, hline] at hmap
    obtain ⟨other, hother, heq⟩ := List.map_eq_singleton_iff.mp hmap.symm
    rw [hother, Option.some.inj heq]

theorem filter_read_eq_nil {lines : List String} :
    (read blank start lines).filter mine = [] ↔ ownLines blank start mine lines = [] := by
  have hmap := @map_settingOf_ownLines blank start mine lines
  constructor
  · intro h
    rw [h] at hmap
    exact List.map_eq_nil_iff.mp hmap
  · intro h
    rw [h] at hmap
    exact List.map_eq_nil_iff.mp hmap.symm

theorem filter_not_read (mine : Setting → Bool) (lines : List String) :
    (read blank start lines).filter (fun setting => !mine setting) =
      ((placed blank start lines).filter fun line => !isMine blank mine line).filterMap (settingOf blank) := by
  unfold read
  rw [List.filter_filterMap, List.filterMap_filter]
  refine List.filterMap_congr fun line _ => ?_
  cases hsetting : settingOf blank line with
  | none => simp
  | some setting => cases hmine : mine setting <;> simp [isMine, hsetting, hmine]

theorem filter_placed_map {p : Option String × String → Bool} {lines : List String}
    (h : ∀ line ∈ lines, ∀ place, p (place, f line) = p (place, line)) :
    (placed blank start lines).filter (p ∘ Prod.map id f) = (placed blank start lines).filter p := by
  refine List.filter_congr fun line hline => ?_
  rw [Function.comp_apply, Prod.map, id_eq, h line.2 (mem_of_placed hline), Prod.mk.eta]

theorem ownLines_map {lines : List String}
    (hnext : ∀ line ∈ lines, ∀ place, next blank place (f line) = next blank place line)
    (hmine : ∀ line ∈ lines, ∀ place, isMine blank mine (place, f line) = isMine blank mine (place, line)) :
    ownLines blank start mine (lines.map f) = (ownLines blank start mine lines).map (Prod.map id f) := by
  rw [ownLines, placed_map hnext, List.filter_map, filter_placed_map hmine, ownLines]

theorem others_map {lines : List String}
    (hnext : ∀ line ∈ lines, ∀ place, next blank place (f line) = next blank place line)
    (hmine : ∀ line ∈ lines, ∀ place, isMine blank mine (place, f line) = isMine blank mine (place, line)) :
    others blank start mine (lines.map f) = (others blank start mine lines).map f := by
  have hother : ∀ line ∈ lines, ∀ place, (!isMine blank mine (place, f line)) = !isMine blank mine (place, line) :=
    fun line hline place => by rw [hmine line hline place]
  rw [others, placed_map hnext, List.filter_map, filter_placed_map hother, others, List.map_map, List.map_map]
  rfl

theorem placed_replace {line line' : String} (h : ∀ place, next blank place line' = next blank place line)
    (before after : List String) : placed blank start (before ++ line' :: after) = placed blank start before ++
      (sectionAfter blank start before, line') :: placed blank (next blank (sectionAfter blank start before) line) after := by
  rw [placed_append, placed, h]

theorem next_of_setting {line value : String} (h : item blank line = .setting key value) (place : Option String) :
    next blank place line = place := by
  rw [next, h]

theorem settingOf_of_setting {line value : String} (h : item blank line = .setting key value)
    (place : Option String) : settingOf blank (place, line) = some ⟨place, key, value⟩ := by
  rw [settingOf, h]

/-- A key that stands at the start of a line and is read as one. -/
structure Word (key : String) : Prop where
  inside : ∀ c ∈ key.toList, blank c = false ∧ c ≠ '='
  first : ∃ c rest, key.toList = c :: rest ∧ c ≠ '#' ∧ c ≠ ';' ∧ c ≠ '['

theorem cut_append {separator : Char} {before after : List Char} (h : separator ∉ before) :
    Text.cut separator (String.ofList (before ++ separator :: after)) = some (String.ofList before, String.ofList after) := by
  have hspan : (before ++ separator :: after).span (fun c => decide (c ≠ separator)) = (before, separator :: after) := by
    have htrue : ∀ c ∈ before, decide (c ≠ separator) = true := by
      intro c hc
      exact decide_eq_true fun heq => h (heq ▸ hc)
    rw [List.span_eq_takeWhile_dropWhile, List.takeWhile_append_of_pos htrue, List.dropWhile_append_of_pos htrue]
    simp
  rw [Text.cut, String.toList_ofList, hspan]

theorem item_of_strip {line rest : String} (hkey : @Word blank key)
    (h : Text.strip blank line = key ++ "=" ++ rest) :
    item blank line = .setting (fold key) (Text.strip blank rest) := by
  obtain ⟨c, tail, hc, hcomment, hsemicolon, hbracket⟩ := hkey.first
  have hlist : (key ++ "=" ++ rest).toList = c :: (tail ++ '=' :: rest.toList) := by
    simp [String.toList_append, hc]
  have hself : Text.strip blank key = key := by
    refine Text.strip_eq_self ?_ ?_
    · intro d hd
      exact (hkey.inside d (List.mem_of_mem_head? hd)).1
    · intro d hd
      exact (hkey.inside d (List.mem_of_mem_getLast? hd)).1
  have hcut : Text.cut '=' (key ++ "=" ++ rest) = some (key, rest) := by
    have hno : '=' ∉ key.toList := fun hmem => (hkey.inside '=' hmem).2 rfl
    have := @cut_append '=' key.toList rest.toList hno
    rwa [show String.ofList (key.toList ++ '=' :: rest.toList) = key ++ "=" ++ rest from by
      apply String.toList_inj.mp
      simp [String.toList_append], String.ofList_toList, String.ofList_toList] at this
  simp only [item, h, hlist]
  rw [if_neg (by simp [hcomment, hsemicolon]), if_neg hbracket, hcut]
  simp only [hself]

end Ini
