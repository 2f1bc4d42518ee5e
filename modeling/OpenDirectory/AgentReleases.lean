import OpenDirectory.AgentEnv
import OpenDirectory.Value

/-! Which of two releases of the agent is newer, as the agent reads their version texts and as the console does, and
when an agent replaces itself. -/

namespace OpenDirectory

namespace Agent

/-- `strings.SplitN(text, ".", n)` -/
def splitN : Nat → List Char → List (List Char)
  | 0, _ => []
  | 1, text => [text]
  | n + 2, text =>
      if '.' ∈ text then
        text.takeWhile (· ≠ '.') :: splitN (n + 1) (text.dropWhile (· ≠ '.')).tail
      else [text]

/-- A field without what stands around its digits. -/
def digitsOf (field : List Char) : List Char :=
  ((field.dropWhile fun c => !c.isDigit).reverse.dropWhile fun c => !c.isDigit).reverse

def maxInt : Nat := 2 ^ 63 - 1

/-- The number a text starts with is too large before it is wrong, or is wrong before it is too large. -/
def atoiFrom (n : Nat) : List Char → Nat
  | [] => min n maxInt
  | c :: rest =>
      if !c.isDigit then 0
      else if 2 ^ 64 ≤ 10 * n + (c.toNat - 48) then maxInt
      else atoiFrom (10 * n + (c.toNat - 48)) rest

/-- `strconv.Atoi`, whose error nobody reads: nothing that is no number, and the largest for what is beyond it. -/
def atoi (digits : List Char) : Nat := atoiFrom 0 digits

def versionParts (version : String) : List Nat :=
  (((splitN 3 (Text.strip goSpace version).toList).map fun field => atoi (digitsOf field)) ++ [0, 0, 0]).take 3

/-- The first number that differs decides. -/
def larger : List Nat → List Nat → Bool
  | left :: lefts, right :: rights => if left ≠ right then right < left else larger lefts rights
  | _, _ => false

def newer (offered running : String) : Bool :=
  if offered = "" then false
  else if running = "" then true
  else larger (versionParts offered) (versionParts running)

def wantsUpdate (mode pinned offered running : String) : Bool × String :=
  if mode ≠ "install" then (false, "")
  else if offered = "" then (false, "the console has no agent to hand out")
  else if pinned ≠ "" then
    if pinned = running then (false, "")
    else if pinned ≠ offered then (false, "policy pins " ++ pinned ++ " and the console has " ++ offered)
    else (true, "")
  else if !newer offered running then (false, "")
  else (true, "")

end Agent

namespace AgentUpdate

variable [Runtime]

/-- `\d` -/
def isDigit (c : Char) : Bool := (Runtime.digit c).isSome

def numberOf (run : List Char) : Nat := (run.filterMap Runtime.digit).foldl (fun n d => 10 * n + d) 0

def parts (version : String) : List Nat :=
  (((version.toList.splitOnP fun c => !isDigit c).filter (· ≠ [])).take 3).map numberOf

def newer (availableVersion installed : String) : Bool :=
  if availableVersion = "" then false
  else if installed = "" then true
  else parts installed < parts availableVersion

/-- What Python reads the characters of the basic Latin alphabet as. -/
structure ReadsDigits : Prop where
  digit : ∀ c : Char, c.toNat < 128 → Runtime.digit c = if c.isDigit then some (c.toNat - 48) else none

/-- Both sides say the same of two releases, and an agent that nothing is pinned for takes only what is newer. -/
structure Right (offered running : String) : Prop where
  agree : Agent.newer offered running = newer offered running
  back : Agent.newer running offered = newer running offered
  forward : ∀ mode, (Agent.wantsUpdate mode "" offered running).1 = true →
    newer offered running = true ∧ newer running offered = false

/-- Three numbers, with a dot between one and the next. -/
def Release (text : String) : Prop :=
  ∃ first second third : List Char, text.toList = first ++ '.' :: (second ++ '.' :: third) ∧
    ∀ field ∈ [first, second, third], field ≠ [] ∧ ∀ c ∈ field, c.isDigit = true

/-- Both sides read the same three numbers in a text, and each of them is one the agent can count beyond. -/
def Plain (text : String) : Prop :=
  text = "" ∨ Agent.versionParts text = parts text ∧ ∀ n ∈ parts text, n < Agent.maxInt

end AgentUpdate

namespace Agent

section
variable {digits : List Char} {lefts rights : List Nat}

theorem le_ofDigitChars (n : Nat) : n ≤ Nat.ofDigitChars 10 digits n := by
  induction digits generalizing n with
  | nil => exact le_rfl
  | cons c digits ih =>
      rw [Nat.ofDigitChars_cons]
      have hle := ih (10 * n + (c.toNat - '0'.toNat))
      omega

theorem atoiFrom_digits (hdigits : ∀ c ∈ digits, c.isDigit = true) (n : Nat) :
    atoiFrom n digits = min (Nat.ofDigitChars 10 digits n) maxInt := by
  induction digits generalizing n with
  | nil => rfl
  | cons c digits ih =>
      rw [List.forall_mem_cons] at hdigits
      rw [atoiFrom, hdigits.1, Nat.ofDigitChars_cons, show ('0'.toNat) = 48 from rfl]
      simp only [Bool.not_true, Bool.false_eq_true, if_false]
      split_ifs with hlarge
      · have hle := @le_ofDigitChars digits (10 * n + (c.toNat - 48))
        have hmax : maxInt ≤ Nat.ofDigitChars 10 digits (10 * n + (c.toNat - 48)) :=
          (show maxInt ≤ 2 ^ 64 by decide).trans (hlarge.trans hle)
        exact (min_eq_right hmax).symm
      · exact ih hdigits.2 _

theorem atoi_le : atoi digits ≤ maxInt := by
  unfold atoi
  generalize 0 = n
  induction digits generalizing n with
  | nil => exact min_le_right _ _
  | cons c digits ih =>
      rw [atoiFrom]
      split_ifs
      · exact Nat.zero_le _
      · exact le_rfl
      · exact ih _

theorem le_of_mem_versionParts {version : String} {n : Nat} (h : n ∈ versionParts version) : n ≤ maxInt := by
  rcases List.mem_append.mp (List.mem_of_mem_take h) with hpart | hzero
  · obtain ⟨field, _, rfl⟩ := List.mem_map.mp hpart
    exact atoi_le
  · have hall : ∀ n ∈ [0, 0, 0], n ≤ maxInt := by decide
    exact hall n hzero

theorem length_versionParts (version : String) : (versionParts version).length = 3 := by
  unfold versionParts
  rw [List.length_take, List.length_append]
  simp

theorem larger_iff (h : lefts.length = rights.length) : larger lefts rights = true ↔ rights < lefts := by
  induction lefts generalizing rights with
  | nil =>
      obtain rfl := List.length_eq_zero_iff.mp h.symm
      exact iff_of_false Bool.false_ne_true (lt_irrefl _)
  | cons left lefts ih =>
      cases rights with
      | nil => cases h
      | cons right rights =>
          rw [larger, List.cons_lt_cons_iff]
          split_ifs with hne
          · have hne' : ¬ right = left := fun heq => hne heq.symm
            simp [hne']
          · obtain rfl := not_not.mp hne
            rw [ih (Nat.succ.inj h)]
            simp

theorem larger_clamped (hsmall : ∀ n ∈ rights, n < maxInt) :
    larger (lefts.map (min · maxInt)) rights = larger lefts rights ∧
      larger rights (lefts.map (min · maxInt)) = larger rights lefts := by
  induction lefts generalizing rights with
  | nil => cases rights <;> exact ⟨rfl, rfl⟩
  | cons left lefts ih =>
      cases rights with
      | nil => exact ⟨rfl, rfl⟩
      | cons right rights =>
          rw [List.forall_mem_cons] at hsmall
          obtain ⟨hone, hother⟩ := ih hsmall.2
          rw [List.map_cons, larger, larger, larger, larger, hone, hother]
          have hlt := hsmall.1
          rcases le_or_gt left maxInt with hle | hgt
          · rw [min_eq_left hle]
            exact ⟨rfl, rfl⟩
          · rw [min_eq_right hgt.le]
            have hne : maxInt ≠ right := hlt.ne'
            have hne' : left ≠ right := (hlt.trans hgt).ne'
            simp [hne, hne', hne.symm, hne'.symm, hlt, hlt.trans hgt, hlt.not_gt, (hlt.trans hgt).not_gt]

end

end Agent

namespace AgentUpdate

section
variable {first second third : List Char}

theorem splitN_three (hfirst : '.' ∉ first) (hsecond : '.' ∉ second) :
    Agent.splitN 3 (first ++ '.' :: (second ++ '.' :: third)) = [first, second, third] := by
  have hcut : ∀ before after : List Char, '.' ∉ before →
      (before ++ '.' :: after).takeWhile (· ≠ '.') = before ∧
        ((before ++ '.' :: after).dropWhile (· ≠ '.')).tail = after := by
    intro before after hbefore
    have hplain : ∀ c ∈ before, decide (c ≠ '.') = true := by
      intro c hc
      exact decide_eq_true fun heq => hbefore (heq ▸ hc)
    rw [List.takeWhile_append_of_pos hplain, List.dropWhile_append_of_pos hplain]
    simp
  rw [Agent.splitN, if_pos (List.mem_append_right _ List.mem_cons_self), (hcut _ _ hfirst).1, (hcut _ _ hfirst).2,
    Agent.splitN, if_pos (List.mem_append_right _ List.mem_cons_self), (hcut _ _ hsecond).1, (hcut _ _ hsecond).2,
    Agent.splitN]

theorem digitsOf_digits {digits : List Char} (h : ∀ c ∈ digits, c.isDigit = true) : Agent.digitsOf digits = digits := by
  have hkeep : ∀ text : List Char, (∀ c ∈ text, c.isDigit = true) → text.dropWhile (fun c => !c.isDigit) = text := by
    intro text htext
    refine Text.dropWhile_eq_self fun c hc => ?_
    rw [htext c (List.mem_of_mem_head? hc)]
    rfl
  unfold Agent.digitsOf
  rw [hkeep digits h, hkeep _ fun c hc => h c (List.mem_reverse.mp hc), List.reverse_reverse]

theorem latin_of_digit {c : Char} (h : c.isDigit = true) : 48 ≤ c.toNat ∧ c.toNat ≤ 57 := by
  simp only [Char.isDigit, Bool.and_eq_true, decide_eq_true_eq, UInt32.le_iff_toNat_le] at h
  exact h

theorem strip_release {text : String} (h : ∀ c ∈ text.toList, c.isDigit = true ∨ c = '.') :
    Text.strip Agent.goSpace text = text := by
  have hplain : ∀ c : Char, c.isDigit = true ∨ c = '.' → Agent.goSpace c = false := by
    rintro c (hdigit | rfl)
    · have hrange := latin_of_digit hdigit
      rw [Bool.eq_false_iff]
      intro hblank
      simp only [Agent.goSpace, Bool.or_eq_true, Bool.and_eq_true, decide_eq_true_eq] at hblank
      rcases hblank with hmem | ⟨hlow, _⟩
      · have hout : ∀ d ∈ ['\t', '\n', '\x0b', '\x0c', '\r', ' ', '\u0085', '\u00a0', '\u1680', '\u2028',
            '\u2029', '\u202f', '\u205f', '\u3000'], ¬ (48 ≤ d.toNat ∧ d.toNat ≤ 57) := by simp
        exact hout c hmem hrange
      · have hfar : 0x2000 ≤ c.toNat := UInt32.le_iff_toNat_le.mp hlow
        omega
    · decide
  exact Text.strip_eq_self (fun c hc => hplain c (h c (List.mem_of_mem_head? hc)))
    fun c hc => hplain c (h c (List.mem_of_getLast? hc))

theorem chars_of_release {text : String} (hsplit : text.toList = first ++ '.' :: (second ++ '.' :: third))
    (hdigits : ∀ field ∈ [first, second, third], field ≠ [] ∧ ∀ c ∈ field, c.isDigit = true) :
    ∀ c ∈ text.toList, c.isDigit = true ∨ c = '.' := by
  have hfirst := (hdigits first (by simp)).2
  have hsecond := (hdigits second (by simp)).2
  have hthird := (hdigits third (by simp)).2
  intro c hc
  rw [hsplit] at hc
  simp only [List.mem_append, List.mem_cons] at hc
  rcases hc with hc | rfl | hc | rfl | hc
  · exact .inl (hfirst c hc)
  · exact .inr rfl
  · exact .inl (hsecond c hc)
  · exact .inr rfl
  · exact .inl (hthird c hc)

theorem dot_digits {digits : List Char} (h : ∀ c ∈ digits, c.isDigit = true) : '.' ∉ digits := by
  intro hmem
  exact absurd (h '.' hmem) (by decide)

theorem versionParts_release {text : String} (hsplit : text.toList = first ++ '.' :: (second ++ '.' :: third))
    (hdigits : ∀ field ∈ [first, second, third], field ≠ [] ∧ ∀ c ∈ field, c.isDigit = true) :
    Agent.versionParts text =
      [first, second, third].map fun digits => min (Nat.ofDigitChars 10 digits 0) Agent.maxInt := by
  have hread : ∀ field ∈ [first, second, third],
      Agent.atoi (Agent.digitsOf field) = min (Nat.ofDigitChars 10 field 0) Agent.maxInt := by
    intro field hfield
    rw [digitsOf_digits (hdigits field hfield).2]
    exact Agent.atoiFrom_digits (hdigits field hfield).2 0
  unfold Agent.versionParts
  rw [strip_release (chars_of_release hsplit hdigits), hsplit,
    splitN_three (dot_digits (hdigits first (by simp)).2) (dot_digits (hdigits second (by simp)).2),
    List.map_congr_left hread]
  rfl

section
variable [Runtime]

theorem numberOf_digits (hlatin : ReadsDigits) {digits : List Char} (h : ∀ c ∈ digits, c.isDigit = true) :
    numberOf digits = Nat.ofDigitChars 10 digits 0 := by
  have hdigit : ∀ c ∈ digits, Runtime.digit c = some (c.toNat - 48) := by
    intro c hc
    have hrange := latin_of_digit (h c hc)
    rw [hlatin.digit c (by omega), if_pos (h c hc)]
  have hmap : digits.filterMap Runtime.digit = digits.map fun c => c.toNat - 48 := by
    rw [← List.filterMap_eq_map]
    exact List.filterMap_congr hdigit
  rw [numberOf, hmap, List.foldl_map, Nat.ofDigitChars_eq_foldl]
  rfl

theorem parts_release (hlatin : ReadsDigits) {text : String}
    (hsplit : text.toList = first ++ '.' :: (second ++ '.' :: third))
    (hdigits : ∀ field ∈ [first, second, third], field ≠ [] ∧ ∀ c ∈ field, c.isDigit = true) :
    parts text = [first, second, third].map fun digits => Nat.ofDigitChars 10 digits 0 := by
  have hdot : (!isDigit '.') = true := by
    have hnone := hlatin.digit '.' (by decide)
    rw [isDigit, hnone]
    rfl
  have hplain : ∀ field ∈ [first, second, third], ∀ c ∈ field, (!isDigit c) = false := by
    intro field hfield c hc
    have hdigit := (hdigits field hfield).2 c hc
    have hrange := latin_of_digit hdigit
    rw [isDigit, hlatin.digit c (by omega), if_pos hdigit]
    rfl
  have hruns : text.toList.splitOnP (fun c => !isDigit c) = [first, second, third] := by
    rw [hsplit, List.splitOnP_append_cons (p := fun c => !isDigit c) first _ hdot,
      List.splitOnP_append_cons (p := fun c => !isDigit c) second third hdot,
      List.splitOnP_eq_singleton (hplain first (by simp)), List.splitOnP_eq_singleton (hplain second (by simp)),
      List.splitOnP_eq_singleton (hplain third (by simp))]
    rfl
  have hne : [first, second, third].filter (· ≠ []) = [first, second, third] := by
    rw [List.filter_eq_self]
    exact fun field hfield => decide_eq_true (hdigits field hfield).1
  unfold parts
  rw [hruns, hne]
  exact List.map_congr_left fun field hfield => numberOf_digits hlatin (hdigits field hfield).2

end

end

theorem agent_newer_iff {offered running : String} (hoffered : offered ≠ "") (hrunning : running ≠ "") :
    Agent.newer offered running = true ↔ Agent.versionParts running < Agent.versionParts offered := by
  unfold Agent.newer
  rw [if_neg hoffered, if_neg hrunning, Agent.larger_iff]
  rw [Agent.length_versionParts, Agent.length_versionParts]

theorem agent_newer_ne {offered running : String} (h : Agent.newer offered running = true) : offered ≠ "" := by
  rintro rfl
  cases h

theorem agent_newer_irrefl (version : String) : Agent.newer version version = false := by
  rw [Bool.eq_false_iff]
  intro h
  have hne := agent_newer_ne h
  exact lt_irrefl _ ((agent_newer_iff hne hne).mp h)

theorem agent_newer_trans {first second third : String} (h : Agent.newer first second = true)
    (h' : Agent.newer second third = true) : Agent.newer first third = true := by
  have hfirst := agent_newer_ne h
  have hsecond := agent_newer_ne h'
  by_cases hthird : third = ""
  · unfold Agent.newer
    rw [if_neg hfirst, if_pos hthird]
  · rw [agent_newer_iff hfirst hsecond] at h
    rw [agent_newer_iff hsecond hthird] at h'
    exact (agent_newer_iff hfirst hthird).mpr (h'.trans h)

theorem newer_of_wantsUpdate {mode offered running : String} (h : (Agent.wantsUpdate mode "" offered running).1 = true) :
    Agent.newer offered running = true := by
  by_contra hnewer
  rw [Bool.not_eq_true] at hnewer
  unfold Agent.wantsUpdate at h
  rw [hnewer] at h
  split_ifs at h <;> trivial

theorem pinned_of_wantsUpdate {mode pinned offered running : String} (hpinned : pinned ≠ "")
    (h : (Agent.wantsUpdate mode pinned offered running).1 = true) : pinned = offered := by
  by_contra hother
  unfold Agent.wantsUpdate at h
  rw [if_pos hpinned, if_pos hother] at h
  split_ifs at h

section
variable [Runtime]

theorem newer_iff {available installed : String} (havailable : available ≠ "") (hinstalled : installed ≠ "") :
    newer available installed = true ↔ parts installed < parts available := by
  unfold newer
  rw [if_neg havailable, if_neg hinstalled, decide_eq_true_eq]

theorem newer_ne {available installed : String} (h : newer available installed = true) : available ≠ "" := by
  rintro rfl
  cases h

theorem newer_irrefl (version : String) : newer version version = false := by
  rw [Bool.eq_false_iff]
  intro h
  have hne := newer_ne h
  exact lt_irrefl _ ((newer_iff hne hne).mp h)

theorem newer_trans {first second third : String} (h : newer first second = true) (h' : newer second third = true) :
    newer first third = true := by
  have hfirst := newer_ne h
  have hsecond := newer_ne h'
  by_cases hthird : third = ""
  · unfold newer
    rw [if_neg hfirst, if_pos hthird]
  · rw [newer_iff hfirst hsecond] at h
    rw [newer_iff hsecond hthird] at h'
    exact (newer_iff hfirst hthird).mpr (h'.trans h)

variable {offered running : String}

theorem right_of_agree (h : Agent.newer offered running = newer offered running)
    (h' : Agent.newer running offered = newer running offered) : Right offered running := by
  refine ⟨h, h', fun mode htakes => ?_⟩
  have hnewer := newer_of_wantsUpdate htakes
  rw [h] at hnewer
  refine ⟨hnewer, ?_⟩
  rw [Bool.eq_false_iff]
  intro hback
  have hself := newer_trans hnewer hback
  rw [newer_irrefl] at hself
  cases hself

theorem agree_of_parts {first second : String} (h : first ≠ "" → second ≠ "" →
    (Agent.versionParts second < Agent.versionParts first ↔ parts second < parts first)) :
    Agent.newer first second = newer first second := by
  by_cases hfirst : first = ""
  · unfold Agent.newer newer
    rw [if_pos hfirst, if_pos hfirst]
  by_cases hsecond : second = ""
  · unfold Agent.newer newer
    rw [if_neg hfirst, if_neg hfirst, if_pos hsecond, if_pos hsecond]
  · rw [Bool.eq_iff_iff, agent_newer_iff hfirst hsecond, newer_iff hfirst hsecond]
    exact h hfirst hsecond

theorem right_of_plain (hoffered : Plain offered) (hrunning : Plain running) :
    Right offered running := by
  have hsame : ∀ {text : String}, Plain text → text ≠ "" → Agent.versionParts text = parts text := by
    intro text hplain hne
    exact (hplain.resolve_left hne).1
  refine right_of_agree (agree_of_parts fun hne hne' => ?_) (agree_of_parts fun hne hne' => ?_)
  · rw [hsame hoffered hne, hsame hrunning hne']
  · rw [hsame hrunning hne, hsame hoffered hne']

omit [Runtime] in
theorem release_ne {text : String} (h : Release text) : text ≠ "" := by
  obtain ⟨first, second, third, hsplit, -⟩ := h
  rintro rfl
  have hlength := congrArg List.length hsplit
  rw [List.length_append] at hlength
  simp at hlength

theorem right_of_release (hlatin : ReadsDigits) (hoffered : Release offered)
    (hrunning : Plain running) : Right offered running := by
  obtain ⟨first, second, third, hsplit, hdigits⟩ := hoffered
  have hagent := versionParts_release hsplit hdigits
  have hconsole := parts_release hlatin hsplit hdigits
  have hclamped : running ≠ "" →
      (Agent.versionParts running < Agent.versionParts offered ↔ parts running < parts offered) ∧
        (Agent.versionParts offered < Agent.versionParts running ↔ parts offered < parts running) := by
    intro hne
    obtain ⟨hsame, hsmall⟩ := hrunning.resolve_left hne
    have hlength : (parts running).length = 3 := by rw [← hsame, Agent.length_versionParts]
    have hlarger := @Agent.larger_clamped (parts offered) _ hsmall
    have hmap : Agent.versionParts offered = (parts offered).map (min · Agent.maxInt) := by
      rw [hagent, hconsole, List.map_map]
      rfl
    have hlength' : (parts offered).length = 3 := by
      rw [hconsole]
      rfl
    have hmapped : ((parts offered).map (min · Agent.maxInt)).length = (parts running).length := by
      rw [List.length_map, hlength, hlength']
    have hlengths : (parts offered).length = (parts running).length := hlength'.trans hlength.symm
    rw [hsame, hmap]
    constructor
    · rw [← Agent.larger_iff hmapped, hlarger.1, Agent.larger_iff hlengths]
    · rw [← Agent.larger_iff hmapped.symm, hlarger.2, Agent.larger_iff hlengths.symm]
  exact right_of_agree (agree_of_parts fun _ hne => (hclamped hne).1) (agree_of_parts fun hne _ => (hclamped hne).2)

/-- The release of three numbers. -/
def releaseText (first second third : Nat) : String :=
  String.ofList (Nat.toDigits 10 first ++ '.' :: (Nat.toDigits 10 second ++ '.' :: Nat.toDigits 10 third))

theorem releaseText_release (hlatin : ReadsDigits) (first second third : Nat) :
    Release (releaseText first second third) ∧ parts (releaseText first second third) = [first, second, third] ∧
      Agent.versionParts (releaseText first second third) = [first, second, third].map (min · Agent.maxInt) := by
  have hdigits : ∀ field ∈ [Nat.toDigits 10 first, Nat.toDigits 10 second, Nat.toDigits 10 third],
      field ≠ [] ∧ ∀ c ∈ field, c.isDigit = true := by
    have hone : ∀ n : Nat, Nat.toDigits 10 n ≠ [] ∧ ∀ c ∈ Nat.toDigits 10 n, c.isDigit = true :=
      fun n => ⟨Nat.toDigits_ne_nil, fun c hc => Nat.isDigit_of_mem_toDigits (by decide) (by decide) hc⟩
    simp only [List.forall_mem_cons]
    exact ⟨hone first, hone second, hone third, nofun⟩
  have hsplit : (releaseText first second third).toList =
      Nat.toDigits 10 first ++ '.' :: (Nat.toDigits 10 second ++ '.' :: Nat.toDigits 10 third) := String.toList_ofList
  refine ⟨⟨_, _, _, hsplit, hdigits⟩, ?_, ?_⟩
  · rw [parts_release hlatin hsplit hdigits]
    simp only [List.map_cons, List.map_nil, Nat.ofDigitChars_ten_toDigits]
  · rw [versionParts_release hsplit hdigits]
    simp only [List.map_cons, List.map_nil, Nat.ofDigitChars_ten_toDigits]

theorem plain_of_right (hlatin : ReadsDigits) (h : ∀ offered, Release offered → Right offered running) :
    Plain running := by
  by_cases hne : running = ""
  · exact .inl hne
  right
  have hthree : ∃ first second third, Agent.versionParts running = [first, second, third] :=
    List.length_eq_three.mp (Agent.length_versionParts running)
  obtain ⟨first, second, third, hread⟩ := hthree
  have hle : first ≤ Agent.maxInt ∧ second ≤ Agent.maxInt ∧ third ≤ Agent.maxInt := by
    have hall := fun n => @Agent.le_of_mem_versionParts running n
    rw [hread] at hall
    exact ⟨hall first (by simp), hall second (by simp), hall third (by simp)⟩
  -- beside the release of the numbers the agent reads, neither side may find one of the two newer
  have hsame : Agent.versionParts running = parts running := by
    obtain ⟨hrelease, hparts, hagent⟩ := releaseText_release hlatin first second third
    have hequal : Agent.versionParts (releaseText first second third) = [first, second, third] := by
      rw [hagent, List.map_cons, List.map_cons, List.map_cons, List.map_nil, min_eq_left hle.1, min_eq_left hle.2.1,
        min_eq_left hle.2.2]
    have hright := h _ hrelease
    have hne' := release_ne hrelease
    have hneither : ¬ parts running < [first, second, third] ∧ ¬ [first, second, third] < parts running := by
      constructor
      · rw [← hparts, ← newer_iff hne' hne, ← hright.agree, agent_newer_iff hne' hne, hread, hequal]
        exact lt_irrefl _
      · rw [← hparts, ← newer_iff hne hne', ← hright.back, agent_newer_iff hne hne', hread, hequal]
        exact lt_irrefl _
    rw [hread]
    exact le_antisymm (not_lt.mp hneither.1) (not_lt.mp hneither.2)
  refine ⟨hsame, ?_⟩
  -- beside a release that differs only beyond what the agent counts to, the console finds the release newer
  have hlarger : ∀ first' second' third', [first', second', third'].map (min · Agent.maxInt) = [first, second, third] →
      ¬ [first, second, third] < [first', second', third'] := by
    intro first' second' third' hclamped
    obtain ⟨hrelease, hparts, hagent⟩ := releaseText_release hlatin first' second' third'
    have hright := h _ hrelease
    have hne' := release_ne hrelease
    rw [← hread, hsame, ← hparts, ← newer_iff hne' hne, ← hright.agree, agent_newer_iff hne' hne, hagent, hclamped, hread]
    exact lt_irrefl _
  rw [← hsame, hread]
  have hclamp : ∀ {n : Nat}, n ≤ Agent.maxInt → ¬ n < Agent.maxInt → min (n + 1) Agent.maxInt = n := by
    intro n hn hlarge
    omega
  simp only [List.forall_mem_cons]
  refine ⟨?_, ?_, ?_, nofun⟩
  · by_contra hlarge
    refine hlarger (first + 1) second third ?_ (List.cons_lt_cons_iff.mpr (.inl (Nat.lt_succ_self first)))
    simp only [List.map_cons, List.map_nil, hclamp hle.1 hlarge, min_eq_left hle.2.1, min_eq_left hle.2.2]
  · by_contra hlarge
    refine hlarger first (second + 1) third ?_ (List.cons_lt_cons_iff.mpr (.inr ⟨rfl,
      List.cons_lt_cons_iff.mpr (.inl (Nat.lt_succ_self second))⟩))
    simp only [List.map_cons, List.map_nil, hclamp hle.2.1 hlarge, min_eq_left hle.1, min_eq_left hle.2.2]
  · by_contra hlarge
    refine hlarger first second (third + 1) ?_ (List.cons_lt_cons_iff.mpr (.inr ⟨rfl,
      List.cons_lt_cons_iff.mpr (.inr ⟨rfl, List.cons_lt_cons_iff.mpr (.inl (Nat.lt_succ_self third))⟩)⟩))
    simp only [List.map_cons, List.map_nil, hclamp hle.2.2 hlarge, min_eq_left hle.1, min_eq_left hle.2.1]

/-- A version text has one answer beside every release exactly when both sides read the same numbers in it. Two such
texts have one answer, a pin is kept to, and each side's order is strict on all texts. -/
theorem one_answer_iff (hlatin : ReadsDigits) :
    (∀ running, (∀ offered, Release offered → Right offered running) ↔ Plain running) ∧
      (∀ offered running, Plain offered → Plain running → Right offered running) ∧
      (∀ mode pinned offered running, pinned ≠ "" → (Agent.wantsUpdate mode pinned offered running).1 = true →
        pinned = offered) ∧
      (∀ version, newer version version = false ∧ Agent.newer version version = false) ∧
      ∀ first second third,
        (newer first second = true → newer second third = true → newer first third = true) ∧
          (Agent.newer first second = true → Agent.newer second third = true → Agent.newer first third = true) := by
  refine ⟨fun running => ⟨plain_of_right hlatin, fun hplain offered hoffered => right_of_release hlatin hoffered hplain⟩,
    fun _ _ => right_of_plain, fun _ _ _ _ => pinned_of_wantsUpdate, fun version => ⟨newer_irrefl version, agent_newer_irrefl version⟩, fun _ _ _ => ?_⟩
  exact ⟨newer_trans, agent_newer_trans⟩

end

theorem readsDigits_latin : @ReadsDigits Runtime.latin := by
  refine @ReadsDigits.mk Runtime.latin fun c _ => rfl

theorem one_answer_iff_latin :
    letI := Runtime.latin
    (∀ running, (∀ offered, Release offered → Right offered running) ↔ Plain running) ∧
      (∀ offered running, Plain offered → Plain running → Right offered running) ∧
      (∀ mode pinned offered running, pinned ≠ "" → (Agent.wantsUpdate mode pinned offered running).1 = true →
        pinned = offered) ∧
      (∀ version, newer version version = false ∧ Agent.newer version version = false) ∧
      ∀ first second third,
        (newer first second = true → newer second third = true → newer first third = true) ∧
          (Agent.newer first second = true → Agent.newer second third = true → Agent.newer first third = true) :=
  @one_answer_iff Runtime.latin readsDigits_latin

/-- The agent takes 0.18.1 for newer than its own 0.18.5-2, and replaces itself. -/
theorem suffix_goes_back :
    letI := Runtime.latin
    ¬ ∀ offered running, Release offered → Right offered running := by
  let _ := Runtime.latin
  intro h
  have hrelease : Release "0.18.1" := ⟨['0'], ['1', '8'], ['1'], by decide +kernel, by simp⟩
  have hforward := (h "0.18.1" "0.18.5-2" hrelease).forward "install" (by decide +kernel)
  exact absurd hforward.1 (by decide +kernel)

end AgentUpdate

end OpenDirectory
