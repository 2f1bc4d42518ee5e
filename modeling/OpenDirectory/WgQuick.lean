import OpenDirectory.IniFiles
import OpenDirectory.Lines
import OpenDirectory.Patterns

/-! The files `wg-quick` reads: sections of settings, a comment beginning at any number sign, the values of a setting
standing between commas and blanks. -/

namespace WgQuick

def space (c : Char) : Bool := c = ' ' || ('\t' ≤ c && c ≤ '\r')

def separates (c : Char) : Bool := c = ',' || space c

def uncommented (line : String) : String := String.ofList (line.toList.takeWhile fun c => c ≠ '#')

inductive Item where
  | header (name : String)
  | setting (key : String) (values : List String)
  deriving DecidableEq

/-- What a line says. Without a sign of equality the whole of it is both the key and the value. -/
def item (line : String) : Option Item :=
  let stripped := uncommented line
  let (key, value) := (Text.cut '=' stripped).getD (stripped, stripped)
  let key := Ini.fold (Text.strip space key)
  if stripped.toList.all space then none
  else if Text.startsWith key "[" then some (.header key)
  else some (.setting key (Text.fields separates value))

structure Section where
  name : String
  settings : List (String × List String)
  deriving DecidableEq

/-- The sections, and the settings before the first of them. -/
structure Config where
  loose : List (String × List String)
  sections : List Section
  deriving DecidableEq

/-- The settings up to the next header. -/
def leading : List Item → List (String × List String)
  | .setting key values :: items => (key, values) :: leading items
  | _ => []

def sectionsOf : List Item → List Section
  | [] => []
  | .header name :: items => ⟨name, leading items⟩ :: sectionsOf items
  | .setting _ _ :: items => sectionsOf items

def read (text : String) : Config :=
  let items := (Text.split '\n' text).filterMap item
  ⟨leading items, sectionsOf items⟩

/-- A setting of the item it is. -/
def asItem (setting : String × List String) : Item := .setting setting.1 setting.2

theorem leading_append (settings : List (String × List String)) (items : List Item) :
    leading (settings.map asItem ++ items) = settings ++ leading items := by
  induction settings with
  | nil => rfl
  | cons setting settings ih => exact congrArg (setting :: ·) ih

theorem sectionsOf_append (settings : List (String × List String)) (items : List Item) :
    sectionsOf (settings.map asItem ++ items) = sectionsOf items := by
  induction settings with
  | nil => rfl
  | cons setting settings ih => exact ih

/-- A text that stands for itself among the values of a setting. -/
def Plain (text : String) : Prop := text ≠ "" ∧ ∀ c ∈ text.toList, separates c = false ∧ c ≠ '#'

theorem plain_char {c : Char} (hvisible : '!' ≤ c) (hcomma : c ≠ ',') (hsign : c ≠ '#') :
    separates c = false ∧ c ≠ '#' := by
  have hspace : space c = false := by
    rw [Bool.eq_false_iff]
    intro h
    rw [space, Bool.or_eq_true, Bool.and_eq_true, decide_eq_true_eq, decide_eq_true_eq, decide_eq_true_eq] at h
    rcases h with rfl | h
    · exact absurd hvisible (by decide)
    · exact absurd (hvisible.trans h.2) (by decide)
  refine ⟨?_, hsign⟩
  rw [separates, hspace, Bool.or_false]
  exact decide_eq_false hcomma

theorem plain_of_all {text : String} (hne : text ≠ "")
    (h : (text.toList.all fun c => !separates c && c != '#') = true) : Plain text := by
  refine ⟨hne, fun c hc => ?_⟩
  have hboth := List.all_eq_true.mp h c hc
  simpa using hboth

theorem Plain.append {text more : String} (h : Plain text) (hmore : Plain more) : Plain (text ++ more) := by
  refine ⟨fun hempty => ?_, fun c hc => ?_⟩
  · have hboth : text = "" ∧ more = "" := by simpa using congrArg String.toList hempty
    exact h.1 hboth.1
  · rw [String.toList_append, List.mem_append] at hc
    exact hc.elim (h.2 c) (hmore.2 c)

theorem separates_newline : separates '\n' = true := by decide

theorem Plain.newline {text : String} (h : Plain text) : '\n' ∉ text.toList := by
  intro hmem
  have hno := (h.2 '\n' hmem).1
  rw [separates_newline] at hno
  cases hno

theorem uncommented_eq_self {text : String} (h : '#' ∉ text.toList) : uncommented text = text := by
  have htrue : ∀ c ∈ text.toList, decide (c ≠ '#') = true := fun c hc => decide_eq_true fun heq => h (heq ▸ hc)
  rw [uncommented, List.takeWhile_eq_self_iff.mpr htrue, String.ofList_toList]

theorem uncommented_subset (text : String) : ∀ c ∈ (uncommented text).toList, c ∈ text.toList ∧ c ≠ '#' := by
  intro c hc
  rw [uncommented, String.toList_ofList] at hc
  have hplain : decide (c ≠ '#') = true := List.mem_takeWhile_imp (p := fun c => decide (c ≠ '#')) hc
  exact ⟨(List.takeWhile_sublist _).subset hc, of_decide_eq_true hplain⟩

/-- The values of a setting. -/
def values (text : String) : List String := Text.fields separates (uncommented text)

theorem values_plain {text : String} (h : Plain text) : values text = [text] := by
  rw [values, uncommented_eq_self fun hmem => (h.2 '#' hmem).2 rfl]
  exact Text.fields_word h.1 fun c hc => (h.2 c hc).1

theorem plain_of_mem_values {text value : String} (h : value ∈ values text) : Plain value := by
  obtain ⟨hne, hword, hsubset⟩ := Text.word_of_mem_fields h
  exact ⟨hne, fun c hc => ⟨hword c hc, (uncommented_subset text c (hsubset hc)).2⟩⟩

theorem values_join_iff {parts : List String} : values (Text.join ", " parts) = parts ↔ ∀ part ∈ parts, Plain part := by
  constructor
  · intro h part hpart
    have hvalue : part ∈ values (Text.join ", " parts) := by rw [h]; exact hpart
    exact plain_of_mem_values hvalue
  · intro h
    have hno : '#' ∉ (Text.join ", " parts).toList := by
      intro hmem
      rcases Text.mem_join hmem with hmem | ⟨part, hpart, hmem⟩
      · exact absurd hmem (by decide)
      · exact ((h part hpart).2 '#' hmem).2 rfl
    rw [values, uncommented_eq_self hno]
    exact Text.fields_join (by decide) (by decide) fun part hpart =>
      ⟨(h part hpart).1, fun c hc => ((h part hpart).2 c hc).1⟩

theorem item_comment {line : String} (h : line.toList.head? = some '#') : item line = none := by
  obtain ⟨rest, hline⟩ : ∃ rest, line.toList = '#' :: rest := by
    cases hchars : line.toList with
    | nil =>
        rw [hchars] at h
        cases h
    | cons c rest =>
        rw [hchars] at h
        exact ⟨rest, congrArg (· :: rest) (Option.some.inj h)⟩
  have hempty : uncommented line = "" := by
    rw [uncommented, hline]
    rfl
  rw [item, hempty]
  rfl

/-- A key as it stands at the start of a line. -/
structure Key (key : String) : Prop where
  plain : Plain key
  free : '=' ∉ key.toList
  first : Text.startsWith (Ini.fold key) "[" = false

theorem visible_of_isAlpha {c : Char} (h : c.isAlpha = true) : '!' ≤ c := by
  simp only [Char.isAlpha, Char.isUpper, Char.isLower, Bool.or_eq_true, Bool.and_eq_true, decide_eq_true_eq] at h
  rcases h with h | h
  · exact UInt32.le_trans (by decide : '!'.val ≤ 'A'.val) h.1
  · exact UInt32.le_trans (by decide : '!'.val ≤ 'a'.val) h.1

theorem key_of_letters {key : String} (hne : key ≠ "") (hletters : key.toList.all Char.isAlpha = true)
    (hfirst : Text.startsWith (Ini.fold key) "[" = false) : Key key := by
  have hout : ∀ {c d : Char}, c ∈ key.toList → d.isAlpha = false → c ≠ d := by
    intro c d hc hd heq
    have halpha := List.all_eq_true.mp hletters c hc
    rw [heq, hd] at halpha
    cases halpha
  refine ⟨⟨hne, fun c hc => ?_⟩, fun hmem => hout hmem (d := '=') (by decide) rfl, hfirst⟩
  exact plain_char (visible_of_isAlpha (List.all_eq_true.mp hletters c hc)) (hout hc (by decide)) (hout hc (by decide))

theorem space_of_separates {c : Char} (h : separates c = false) : space c = false := (Bool.or_eq_false_iff.mp h).2

theorem item_setting {line key value : String} (hkey : Key key) (h : line.toList = key.toList ++ (" = " ++ value).toList) :
    item line = some (.setting (Ini.fold key) (values value)) := by
  have hline : (uncommented line).toList = key.toList ++ ' ' :: '=' :: ' ' :: (uncommented value).toList := by
    have htrue : ∀ c ∈ key.toList, decide (c ≠ '#') = true := fun c hc => decide_eq_true (hkey.plain.2 c hc).2
    rw [uncommented, uncommented, String.toList_ofList, String.toList_ofList, h, List.takeWhile_append_of_pos htrue]
    simp
  have hcut : Text.cut '=' (uncommented line) =
      some (String.ofList (key.toList ++ [' ']), String.ofList (' ' :: (uncommented value).toList)) := by
    have hfree : '=' ∉ key.toList ++ [' '] := by
      simp [hkey.free]
    have happend := @Ini.cut_append '=' (key.toList ++ [' ']) (' ' :: (uncommented value).toList) hfree
    rw [← happend, ← String.ofList_toList (s := uncommented line), hline]
    simp
  have hstrip : Text.strip space (String.ofList (key.toList ++ [' '])) = key := by
    apply String.toList_inj.mp
    refine Pattern.strip_concat (fun c hc => space_of_separates (hkey.plain.2 c hc).1) ?_ (by decide) String.toList_ofList
    simpa using hkey.plain.1
  have hvalues : Text.fields separates (String.ofList (' ' :: (uncommented value).toList)) = values value := by
    have happend := Text.fields_append [] (uncommented value).toList (show separates ' ' = true by decide)
    have hnil : Text.fields separates (String.ofList []) = [] := by decide
    rw [String.ofList_toList, hnil, List.nil_append, List.nil_append] at happend
    rw [happend, values]
  have hsolid : ¬ (uncommented line).toList.all space = true := by
    intro hall
    have hnone := List.eq_nil_iff_forall_not_mem.mpr fun c (hc : c ∈ key.toList) => by
      have htrue := List.all_eq_true.mp hall c (by rw [hline]; exact List.mem_append_left _ hc)
      rw [space_of_separates (hkey.plain.2 c hc).1] at htrue
      cases htrue
    exact hkey.plain.1 (String.toList_inj.mp hnone)
  unfold item
  simp only [hcut, Option.getD_some, hstrip, hvalues]
  rw [if_neg hsolid, hkey.first, if_neg Bool.false_ne_true]

end WgQuick
