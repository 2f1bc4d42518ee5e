import OpenDirectory.Lines
import OpenDirectory.LogonHours

/-! Whether a principal of the policy names somebody on a machine. The person's groups are what `id` prints, cut
at its blanks, so that a group whose name has one in it comes as two. -/

namespace OpenDirectory.Memberships

open LogonHours (Letters Rule Moment bare equalFold lower)
open Agent (goSpace)

def principalChar (c : Char) : Bool := c.isAlphanum || c ∈ ['.', '_', '-']

/-- `%?[A-Za-z0-9._-][A-Za-z0-9._ -]{0,63}\$?` -/
def principalText (text : List Char) : Bool :=
  let text := if text.head? = some '%' then text.tail else text
  let text := if text.getLast? = some '$' then text.dropLast else text
  match text with
  | [] => false
  | first :: rest => principalChar first && rest.length ≤ 63 && rest.all fun c => principalChar c || c = ' '

/-- `PRINCIPAL_RE.match`, for which a newline may follow the end. -/
def validPrincipal (value : String) : Bool :=
  principalText value.toList ||
    (value.toList.getLast? = some '\n' && principalText value.toList.dropLast)

abbrev Principal := { value : String // validPrincipal value = true }

/-- Somebody with the groups of the directory, and the realm the name was typed with, if it was. -/
structure Person where
  account : String
  groups : List String
  realm : Option String
  account_ne : account ≠ ""
  account_plain : '@' ∉ account.toList
  groups_plain : ∀ group ∈ groups, '@' ∉ group.toList

def Person.user (person : Person) : String :=
  match person.realm with
  | none => person.account
  | some realm => person.account ++ "@" ++ realm

/-- The output of `id -nG`. -/
def Person.printed (person : Person) : String := Text.join " " person.groups ++ "\n"

def words (text : String) : List String := Text.fields goSpace text

def groupsOf (person : Person) : List String := words person.printed

variable [Letters]

def appliesTo (principal user : String) (memberships : List String) : Bool :=
  if principal = "" then true
  else if Text.startsWith principal "%" then
    let want := lower (Text.removePrefix principal "%")
    memberships.any fun group => lower group = want
  else equalFold principal user

/-- The person is in the group, in whatever case its name is written. -/
def InGroup (person : Person) (group : List Char) : Prop :=
  ∃ name ∈ person.groups, lower name = lower (String.ofList group)

instance (person : Person) (group : List Char) : Decidable (InGroup person group) :=
  inferInstanceAs (Decidable (∃ name ∈ person.groups, lower name = lower (String.ofList group)))

/-- The principal is the person's account, or a group of the person's. -/
def Named (principal : String) (person : Person) : Prop :=
  match principal.toList with
  | '%' :: group => InGroup person group
  | _ => lower principal = lower person.account

/-- A group has a name in one word where the person is in it, and is no word of another group's name where the
person is not. A person who is named by account has typed no realm. -/
def Reached (principal : String) (person : Person) : Prop :=
  match principal.toList with
  | '%' :: group =>
      if InGroup person group then ∀ c ∈ group, goSpace c = false
      else ∀ name ∈ person.groups, ∀ word ∈ words name, lower word ≠ lower (String.ofList group)
  | _ => lower principal = lower person.account → person.realm = none

section
omit [Letters]

theorem words_append (text more : String) {c : Char} (hc : goSpace c = true) :
    words (String.ofList (text.toList ++ c :: more.toList)) = words text ++ words more := by
  have happend := Text.fields_append text.toList more.toList hc
  rw [String.ofList_toList, String.ofList_toList] at happend
  exact happend

theorem words_printed (groups : List String) : words (Text.join " " groups ++ "\n") = groups.flatMap words := by
  have hnewline : ∀ text : String, words (text ++ "\n") = words text := by
    intro text
    have h := words_append text "" (c := '\n') (by decide)
    rw [show words "" = [] from by decide, List.append_nil] at h
    have heq : String.ofList (text.toList ++ '\n' :: "".toList) = text ++ "\n" := String.toList_inj.mp (by simp)
    rw [← heq, h]
  rw [hnewline]
  induction groups with
  | nil => decide
  | cons group groups ih =>
      cases groups with
      | nil => simp [Text.join]
      | cons next groups =>
          rw [List.flatMap_cons, ← ih, ← words_append group _ (c := ' ') (by decide)]
          congr 1
          rw [← String.toList_inj, String.toList_ofList]
          exact Text.toList_join_cons ' ' group next groups

theorem mem_words {text word : String} (h : word ∈ words text) :
    (∀ c ∈ word.toList, goSpace c = false) ∧ word.toList ⊆ text.toList := by
  obtain ⟨part, hpart, rfl⟩ := List.mem_map.mp h
  rw [String.toList_ofList]
  exact Text.mem_splitOnP (List.mem_of_mem_filter hpart)

theorem words_of_no_blank {text : String} (hne : text ≠ "") (h : ∀ c ∈ text.toList, goSpace c = false) :
    words text = [text] := by
  have hnot : text.toList ≠ [] := fun hnil => hne (String.toList_inj.mp hnil)
  simp [words, Text.fields, List.splitOnP_eq_singleton h, hnot]

end

variable {s principal : String} {group : List Char}

theorem lower_eq_iff {t : String} : lower s = lower t ↔ s.toList.map Letters.toLower = t.toList.map Letters.toLower := by
  rw [← String.toList_inj, lower, lower, String.toList_map, String.toList_map]

theorem no_blank_of_lower {t : String} (h : lower s = lower t) (ht : ∀ c ∈ t.toList, goSpace c = false) :
    ∀ c ∈ s.toList, goSpace c = false := by
  intro c hc
  rw [lower_eq_iff] at h
  have hmem : Letters.toLower c ∈ t.toList.map Letters.toLower := h ▸ List.mem_map_of_mem hc
  obtain ⟨d, hd, heq⟩ := List.mem_map.mp hmem
  rw [← Letters.blank, ← heq, Letters.blank]
  exact ht d hd

theorem at_not_mem_lower (h : '@' ∉ s.toList) : '@' ∉ (lower s).toList := by
  rw [lower, String.toList_map]
  intro hmem
  obtain ⟨c, hc, heq⟩ := List.mem_map.mp hmem
  exact h ((Letters.mark c '@' (by simp)).mp heq ▸ hc)

section
omit [Letters]

theorem cut_none {separator : Char} (h : separator ∉ s.toList) : Text.cut separator s = none := by
  have hall : ∀ c ∈ s.toList, (c ≠ separator : Bool) = true := by
    intro c hc
    simpa using fun heq : c = separator => h (heq ▸ hc)
  rw [Text.cut, List.span_eq_takeWhile_dropWhile, List.dropWhile_eq_nil_iff.mpr hall]

theorem cut_some {separator : Char} {before : List Char} (after : List Char) (h : separator ∉ before) :
    Text.cut separator (String.ofList (before ++ separator :: after)) =
      some (String.ofList before, String.ofList after) := by
  have hall : ∀ c ∈ before, (c ≠ separator : Bool) = true := by
    intro c hc
    simpa using fun heq : c = separator => h (heq ▸ hc)
  rw [Text.cut, List.span_eq_takeWhile_dropWhile, String.toList_ofList, List.takeWhile_append_of_pos hall,
    List.dropWhile_append_of_pos hall]
  simp

theorem bare_eq_self (h : '@' ∉ s.toList) : bare s = s := by
  rw [bare, cut_none h]

end

theorem bare_user (person : Person) : bare (lower person.user) = lower person.account := by
  have hplain := at_not_mem_lower person.account_plain
  unfold Person.user
  cases person.realm with
  | none => exact bare_eq_self hplain
  | some realm =>
      have htext : lower (person.account ++ "@" ++ realm) =
          String.ofList ((lower person.account).toList ++ '@' :: (lower realm).toList) := by
        have hat : Letters.toLower '@' = '@' := (Letters.mark '@' '@' (by simp)).mpr rfl
        rw [← String.toList_inj, String.toList_ofList]
        simp [lower, hat]
      have hne : lower person.account ≠ "" := by
        intro hempty
        apply person.account_ne
        have hnil : (lower person.account).toList = [] := by rw [hempty]; rfl
        rw [lower, String.toList_map, List.map_eq_nil_iff] at hnil
        exact String.toList_inj.mp hnil
      dsimp only
      rw [htext, bare, cut_some _ hplain, String.ofList_toList]
      exact if_neg hne

omit [Letters] in
theorem mem_groupsOf {person : Person} {word : String} :
    word ∈ groupsOf person ↔ ∃ name ∈ person.groups, word ∈ words name := by
  rw [groupsOf, Person.printed, words_printed, List.mem_flatMap]

theorem bare_word {person : Person} {word : String} (h : word ∈ groupsOf person) : bare (lower word) = lower word := by
  obtain ⟨name, hname, hword⟩ := mem_groupsOf.mp h
  exact bare_eq_self (at_not_mem_lower fun hat => person.groups_plain name hname ((mem_words hword).2 hat))

theorem words_iff (person : Person) (hne : group ≠ []) :
    ((∃ word ∈ groupsOf person, lower word = lower (String.ofList group)) ↔ InGroup person group) ↔
      if InGroup person group then ∀ c ∈ group, goSpace c = false
      else ∀ name ∈ person.groups, ∀ word ∈ words name, lower word ≠ lower (String.ofList group) := by
  by_cases hin : InGroup person group
  · rw [if_pos hin, iff_true_right hin]
    obtain ⟨name, hname, hlower⟩ := hin
    constructor
    · rintro ⟨word, hword, heq⟩
      obtain ⟨_, _, hwords⟩ := mem_groupsOf.mp hword
      have hblank := no_blank_of_lower heq.symm (mem_words hwords).1
      rwa [String.toList_ofList] at hblank
    · intro hblank
      have hnot : name ≠ "" := by
        rintro rfl
        simp only [lower_eq_iff, String.toList_ofList] at hlower
        exact hne (List.map_eq_nil_iff.mp hlower.symm)
      have hwords := words_of_no_blank hnot (no_blank_of_lower hlower (by rwa [String.toList_ofList]))
      exact ⟨name, mem_groupsOf.mpr ⟨name, hname, hwords ▸ List.mem_cons_self⟩, hlower⟩
  · rw [if_neg hin, iff_false_right hin]
    constructor
    · intro hnot name hname word hword heq
      exact hnot ⟨word, mem_groupsOf.mpr ⟨name, hname, hword⟩, heq⟩
    · rintro hnot ⟨word, hword, heq⟩
      obtain ⟨name, hname, hwords⟩ := mem_groupsOf.mp hword
      exact hnot name hname word hwords heq

theorem appliesTo_group (h : principal.toList = '%' :: group) (user : String)
    (memberships : List String) : appliesTo principal user memberships = true ↔
      ∃ word ∈ memberships, lower word = lower (String.ofList group) := by
  have hne : principal ≠ "" := by
    rintro rfl
    cases h
  have hstarts : Text.startsWith principal "%" = true := by rw [Text.startsWith, h]; rfl
  have hrest : Text.removePrefix principal "%" = String.ofList group := by
    rw [Text.removePrefix, if_pos hstarts, h]
    rfl
  rw [appliesTo, if_neg hne, if_pos hstarts, hrest, List.any_eq_true]
  simp

theorem appliesTo_account (hne : principal ≠ "") (h : principal.toList.head? ≠ some '%')
    (user : String) (memberships : List String) :
    appliesTo principal user memberships = true ↔ lower principal = lower user := by
  have hstarts : Text.startsWith principal "%" ≠ true := by
    intro hstarts
    obtain ⟨rest, heq⟩ := Text.startsWith_iff.mp hstarts
    rw [heq] at h
    exact h rfl
  rw [appliesTo, if_neg hne, if_neg hstarts, equalFold, decide_eq_true_iff]

theorem names_group {rule : Rule} (h : rule.principal.toList = '%' :: group) (person : Person) :
    LogonHours.names (bare (lower person.user)) ((groupsOf person).map fun word => bare (lower word)) rule = true ↔
      ∃ word ∈ groupsOf person, lower word = lower (String.ofList group) := by
  have hpercent : Letters.toLower '%' = '%' := (Letters.mark '%' '%' (by simp)).mpr rfl
  have hlower : (lower rule.principal).toList = '%' :: group.map Letters.toLower := by
    rw [lower, String.toList_map, h, List.map_cons, hpercent]
  have hgroup : String.ofList (group.map Letters.toLower) = lower (String.ofList group) := by
    rw [← String.toList_inj, lower, String.toList_map, String.toList_ofList, String.toList_ofList]
  unfold LogonHours.names
  rw [hlower]
  simp only [hgroup, decide_eq_true_eq, List.mem_map]
  constructor
  · rintro ⟨word, hword, heq⟩
    exact ⟨word, hword, (bare_word hword).symm.trans heq⟩
  · rintro ⟨word, hword, heq⟩
    exact ⟨word, hword, (bare_word hword).trans heq⟩

theorem names_account {rule : Rule} (h : rule.principal.toList.head? ≠ some '%') (person : Person)
    (member : List String) : LogonHours.names (bare (lower person.user)) member rule = true ↔
      lower rule.principal = lower person.account := by
  have hnot : ∀ group, (lower rule.principal).toList ≠ '%' :: group := by
    intro group heq
    rw [lower, String.toList_map] at heq
    obtain ⟨c, rest, hchars, hc, _⟩ := List.map_eq_cons_iff.mp heq
    rw [hchars, List.head?_cons, (Letters.mark c '%' (by simp)).mp hc] at h
    exact h rfl
  rw [LogonHours.names, bare_user]
  split
  next group heq => exact absurd heq (hnot group)
  next => rw [decide_eq_true_iff]

section
omit [Letters]

theorem group_ne_nil (h : validPrincipal principal = true)
    (hgroup : principal.toList = '%' :: group) : group ≠ [] := by
  rintro rfl
  rw [validPrincipal, hgroup] at h
  exact absurd h (by decide)

theorem principal_ne_empty (h : validPrincipal principal = true) : principal ≠ "" := by
  rintro rfl
  exact absurd h (by decide)

theorem at_not_mem_principalText {text : List Char} (h : principalText text = true) : '@' ∉ text := by
  intro hat
  unfold principalText at h
  dsimp only at h
  -- Neither the sign of a group in front nor the dollar at the end is the at sign.
  have hhead : '@' ∈ if text.head? = some '%' then text.tail else text := by
    split
    next hpercent =>
      obtain ⟨rest, rfl⟩ := List.head?_eq_some_iff.mp hpercent
      simpa using hat
    next => exact hat
  generalize (if text.head? = some '%' then text.tail else text) = body at h hhead
  have hlast : '@' ∈ if body.getLast? = some '$' then body.dropLast else body := by
    split
    next hdollar =>
      obtain ⟨rest, rfl⟩ := List.getLast?_eq_some_iff.mp hdollar
      simpa using hhead
    next => exact hhead
  generalize (if body.getLast? = some '$' then body.dropLast else body) = letters at h hlast
  cases letters with
  | nil => cases h
  | cons first rest =>
      simp only [Bool.and_eq_true, List.all_eq_true] at h
      rcases List.mem_cons.mp hlast with rfl | hrest
      · exact absurd h.1.1 (by decide)
      · exact absurd (h.2 '@' hrest) (by decide)

theorem at_not_mem_principal (h : validPrincipal principal = true) : '@' ∉ principal.toList := by
  unfold validPrincipal at h
  rw [Bool.or_eq_true, Bool.and_eq_true, decide_eq_true_iff] at h
  rcases h with h | ⟨hlast, h⟩
  · exact at_not_mem_principalText h
  · obtain ⟨rest, heq⟩ := List.getLast?_eq_some_iff.mp hlast
    rw [heq, List.dropLast_concat] at h
    rw [heq, List.mem_append, List.mem_singleton, not_or]
    exact ⟨at_not_mem_principalText h, by decide⟩

end

/-- The agent treats exactly the person as named who is: where it applies an entry and where it decides on a
sign-in. -/
theorem named_iff_reached (principal : Principal) (person : Person) :
    ((appliesTo principal.val person.user (groupsOf person) = true ↔ Named principal.val person) ∧
        ∀ (rule : Rule) (now : Moment), rule.principal = principal.val →
          ((LogonHours.decide [rule] person.user (groupsOf person) now).restricted = true ↔
            Named principal.val person)) ↔ Reached principal.val person := by
  have hne := principal_ne_empty principal.property
  unfold Named Reached
  split
  next group hgroup =>
    rw [appliesTo_group hgroup]
    have hdecide : ∀ (rule : Rule) (now : Moment), rule.principal = principal.val →
        ((LogonHours.decide [rule] person.user (groupsOf person) now).restricted = true ↔
          ∃ word ∈ groupsOf person, lower word = lower (String.ofList group)) := by
      intro rule now hrule
      rw [LogonHours.decide_restricted, List.any_cons, List.any_nil, Bool.or_false]
      exact names_group (hrule ▸ hgroup) person
    rw [← words_iff person (group_ne_nil principal.property hgroup)]
    constructor
    · exact fun h => h.1
    · exact fun h => ⟨h, fun rule now hrule => (hdecide rule now hrule).trans h⟩
  next hgroup =>
    have hhead : principal.val.toList.head? ≠ some '%' := by
      intro hhead
      obtain ⟨group, heq⟩ := List.head?_eq_some_iff.mp hhead
      exact hgroup group heq
    rw [appliesTo_account hne hhead]
    have hdecide : ∀ (rule : Rule) (now : Moment), rule.principal = principal.val →
        ((LogonHours.decide [rule] person.user (groupsOf person) now).restricted = true ↔
          lower principal.val = lower person.account) := by
      intro rule now hrule
      rw [LogonHours.decide_restricted, List.any_cons, List.any_nil, Bool.or_false, ← hrule]
      exact names_account (hrule ▸ hhead) person _
    rw [and_iff_left hdecide]
    cases hrealm : person.realm with
    | none =>
        have huser : person.user = person.account := by rw [Person.user, hrealm]
        simp [huser]
    | some realm =>
        have hat : '@' ∈ (lower person.user).toList := by
          have hmark : Letters.toLower '@' = '@' := (Letters.mark '@' '@' (by simp)).mpr rfl
          rw [Person.user, hrealm]
          simp [lower, hmark]
        have hnot : lower principal.val ≠ lower person.user := by
          intro heq
          exact at_not_mem_lower (at_not_mem_principal principal.property) (heq ▸ hat)
        rw [iff_false_left hnot]
        exact ⟨fun h heq => absurd heq h, fun h heq => absurd (h heq) (Option.some_ne_none realm)⟩

omit [Letters] in
theorem isAlpha_of_goSpace (c : Char) (hc : goSpace c = true) : c.isAlpha = false := by
  have hlisted : ∀ d ∈ ['\t', '\n', '\x0b', '\x0c', '\r', ' ', '\u0085', '\u00a0', '\u1680', '\u2028', '\u2029',
      '\u202f', '\u205f', '\u3000'], d.isAlpha = false := by
    simp only [List.forall_mem_cons]
    exact ⟨rfl, rfl, rfl, rfl, rfl, rfl, rfl, rfl, rfl, rfl, rfl, rfl, rfl, rfl, nofun⟩
  unfold goSpace at hc
  rw [Bool.or_eq_true, decide_eq_true_iff, Bool.and_eq_true, decide_eq_true_iff, decide_eq_true_iff] at hc
  rcases hc with hc | ⟨hlow, _⟩
  · exact hlisted c hc
  · have hfar : 0x2000 ≤ c.val.toNat := UInt32.le_iff_toNat_le.mp hlow
    have hupper : (90 : UInt32) < c.val := UInt32.lt_iff_toNat_lt.mpr (by show 90 < c.val.toNat; omega)
    have hlower : (122 : UInt32) < c.val := UInt32.lt_iff_toNat_lt.mpr (by show 122 < c.val.toNat; omega)
    simp [Char.isAlpha, Char.isUpper, Char.isLower, hupper, hlower]

/-- Letters of the basic Latin alphabet. -/
@[reducible] def latin : Letters where
  toLower := Char.toLower
  blank := Text.toLower_of_not_alpha isAlpha_of_goSpace
  mark := by
    intro c mark hmark
    have halpha : mark.isAlpha = false := by
      rcases List.mem_pair.mp hmark with rfl | rfl <;> rfl
    have h := Text.toLower_of_not_alpha (p := fun d => d = mark) (fun d hd => of_decide_eq_true hd ▸ halpha) c
    simpa using h

def ada : Person where
  account := "ada"
  groups := ["Domain Users"]
  realm := none
  account_ne := by decide
  account_plain := by decide
  groups_plain := by decide

def everybody : Principal := ⟨"%domain users", by decide⟩

omit [Letters] in
/-- The group everybody is in. -/
theorem domain_users_not_reached :
    letI := latin
    ¬ ((appliesTo everybody.val ada.user (groupsOf ada) = true ↔ Named everybody.val ada) ∧
        ∀ (rule : Rule) (now : Moment), rule.principal = everybody.val →
          ((LogonHours.decide [rule] ada.user (groupsOf ada) now).restricted = true ↔
            Named everybody.val ada)) := by
  let _ := latin
  intro h
  have hprincipal : everybody.val.toList = '%' :: "domain users".toList := by simp [everybody]
  have hlower : lower "Domain Users" = "domain users" := by decide +kernel
  have hplain : lower "domain users" = "domain users" := by decide +kernel
  have hgroup : InGroup ada "domain users".toList :=
    ⟨"Domain Users", List.mem_singleton_self _, by rw [String.ofList_toList, hlower, hplain]⟩
  have happlies : appliesTo everybody.val ada.user (groupsOf ada) = false := by decide +kernel
  have hnamed : Named everybody.val ada := by
    unfold Named
    rw [hprincipal]
    exact hgroup
  rw [h.1.mpr hnamed] at happlies
  cases happlies

end OpenDirectory.Memberships
