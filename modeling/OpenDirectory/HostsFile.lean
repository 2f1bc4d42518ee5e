import OpenDirectory.Memberships

/-! The hosts file of a machine that takes another name. The lines that mention the old name are written anew, and where
there is none, a line for the new name is put at the end. -/

namespace OpenDirectory.HostsFile

open Agent (goSpace)
open LogonHours (Letters equalFold)

def nameChar (c : Char) : Bool := c.isAlphanum || c ∈ ['.', '_', '-']

/-- A name of a machine, with or without its domain. -/
structure HostName where
  text : String
  spelt : text.toList.all nameChar = true := by decide +kernel
  starts : text.toList.head?.any (· ≠ '.') = true := by decide +kernel

def HostName.short (name : HostName) : String := String.ofList (name.text.toList.takeWhile (· ≠ '.'))

/-- `strings.Fields` -/
def fieldsOf (line : String) : List String := Text.fields goSpace line

section
variable [Letters]

/-- The old name, in short or in full. -/
def isOld (old : HostName) (name : String) : Bool := equalFold name old.text || equalFold name old.short

/-- A line the old name is on. -/
def mentions (old : HostName) (line : String) : Bool :=
  match fieldsOf line with
  | address :: name :: names => !Text.startsWith address "#" && (name :: names).any (isOld old)
  | _ => false

def lineFor (address : String) (new : HostName) : String := address ++ "\t" ++ new.text ++ " " ++ new.short

def addressOf (line : String) : String := (fieldsOf line).headD ""

/-- What a line becomes. -/
def rewriteLine (old new : HostName) (line : String) : String :=
  if mentions old line then lineFor (addressOf line) new else line

def rewriteLines (old new : HostName) (lines : List String) : List String :=
  lines.map (rewriteLine old new) ++ if lines.any (mentions old) then [] else [lineFor "127.0.1.1" new]

def rewriteHosts (old new : HostName) (raw : String) : String :=
  Text.join "\n" (rewriteLines old new (Text.split '\n' raw))

end

/-- A line without its comment. -/
def uncommented (line : String) : String := String.ofList (line.toList.takeWhile (· ≠ '#'))

def commentOf (line : String) : String := String.ofList (line.toList.dropWhile (· ≠ '#'))

/-- The pairs of an address and a name that a line stands for. -/
def pairsOf (line : String) : List (String × String) :=
  match fieldsOf (uncommented line) with
  | address :: names => names.map fun name => (address, name)
  | [] => []

def pairs (lines : List String) : List (String × String) := lines.flatMap pairsOf

def comments (lines : List String) : List String := (lines.map commentOf).filter (· ≠ "")

section
variable [Letters]

/-- The addresses that stand with the old name. Where it has none, the machine's own is the one Debian keeps for it. -/
def localAddresses (old : HostName) (lines : List String) : List String :=
  if lines.any (mentions old) then (lines.filter (mentions old)).map addressOf else ["127.0.1.1"]

/-- Nothing is lost but the old name, the new one is there, and doing it again makes no difference. -/
structure Rewritten (old new : HostName) (before after : String) : Prop where
  keeps : ∀ pair ∈ pairs (Text.split '\n' before), isOld old pair.2 = false → pair ∈ pairs (Text.split '\n' after)
  commented : comments (Text.split '\n' after) = comments (Text.split '\n' before)
  ordered : ((Text.split '\n' before).filter fun line => !mentions old line).Sublist (Text.split '\n' after)
  maps : ∀ address ∈ localAddresses old (Text.split '\n' before),
    (address, new.text) ∈ pairs (Text.split '\n' after) ∧ (address, new.short) ∈ pairs (Text.split '\n' after)
  settled : rewriteHosts old new after = after

/-- The new name is the old one still, up to the domain or the case of its letters, and a line that is written anew has no
comment, and no other name that does not stand elsewhere. -/
structure Spared (old new : HostName) (lines : List String) : Prop where
  again : isOld old new.text = true ∨ isOld old new.short = true
  bare : ∀ line ∈ lines, mentions old line = true → '#' ∉ line.toList
  elsewhere : ∀ line ∈ lines, mentions old line = true → ∀ pair ∈ pairsOf line,
    isOld old pair.2 = true ∨ pair.2 = new.text ∨ pair.2 = new.short ∨
      ∃ other ∈ lines, mentions old other = false ∧ pair ∈ pairsOf other

end

/-- A word of a line. -/
def Word (text : String) : Prop := text ≠ "" ∧ ∀ c ∈ text.toList, goSpace c = false

theorem fieldsOf_word {word : String} (h : Word word) : fieldsOf word = [word] := by
  exact Text.fields_word h.1 h.2

theorem fieldsOf_append (before after : String) {blank : Char} (h : goSpace blank = true) :
    fieldsOf (before ++ String.singleton blank ++ after) = fieldsOf before ++ fieldsOf after := by
  have happend := Text.fields_append before.toList after.toList h
  have htext : before ++ String.singleton blank ++ after = String.ofList (before.toList ++ blank :: after.toList) :=
    String.toList_inj.mp (by simp)
  rw [String.ofList_toList, String.ofList_toList] at happend
  rw [htext]
  exact happend

theorem word_of_mem_fieldsOf {line word : String} (h : word ∈ fieldsOf line) :
    Word word ∧ word.toList ⊆ line.toList := by
  obtain ⟨hne, hword, hsubset⟩ := Text.word_of_mem_fields h
  exact ⟨⟨hne, hword⟩, hsubset⟩

theorem plain_of_nameChar {c : Char} (h : nameChar c = true) : goSpace c = false ∧ c ≠ '#' := by
  have hlist : (['\t', '\n', '\x0b', '\x0c', '\r', ' ', '\u0085', '\u00a0', '\u1680', '\u2028', '\u2029',
      '\u202f', '\u205f', '\u3000', '#'].all fun blank => !nameChar blank) = true := by decide
  have hnot : ∀ blank ∈ ['\t', '\n', '\x0b', '\x0c', '\r', ' ', '\u0085', '\u00a0', '\u1680', '\u2028', '\u2029',
      '\u202f', '\u205f', '\u3000', '#'], c ≠ blank := by
    intro blank hblank heq
    have hfalse := List.all_eq_true.mp hlist blank hblank
    rw [← heq, h] at hfalse
    cases hfalse
  have hsmall : c.toNat < 0x2000 := by
    simp only [nameChar, Char.isAlphanum, Char.isAlpha, Char.isUpper, Char.isLower, Char.isDigit, Bool.or_eq_true,
      Bool.and_eq_true, decide_eq_true_eq, UInt32.le_iff_toNat_le, List.mem_cons, List.not_mem_nil, or_false] at h
    have hval : c.val.toNat = c.toNat := rfl
    rcases h with ((h | h) | h) | rfl | rfl | rfl
    · have hz : 'Z'.val.toNat = 90 := rfl
      omega
    · have hz : 'z'.val.toNat = 122 := rfl
      omega
    · have hz : '9'.val.toNat = 57 := rfl
      omega
    · decide
    · decide
    · decide
  refine ⟨?_, hnot '#' (by decide)⟩
  rw [goSpace, Bool.or_eq_false_iff, decide_eq_false_iff_not]
  refine ⟨fun hmem => hnot c (List.mem_append_left ['#'] hmem) rfl, ?_⟩
  rw [Bool.and_eq_false_iff]
  left
  rw [decide_eq_false_iff_not]
  intro hle
  have hle' : (0x2000 : Nat) ≤ c.toNat := hle
  omega

theorem HostName.word_text (name : HostName) : Word name.text ∧ '#' ∉ name.text.toList := by
  obtain ⟨c, hc, -⟩ := (Option.any_eq_true _ _).mp name.starts
  have hchars := List.all_eq_true.mp name.spelt
  refine ⟨⟨?_, fun c hc => (plain_of_nameChar (hchars c hc)).1⟩, fun hmark => (plain_of_nameChar (hchars _ hmark)).2 rfl⟩
  intro hempty
  rw [hempty] at hc
  cases hc

theorem HostName.word_short (name : HostName) : Word name.short ∧ '#' ∉ name.short.toList := by
  obtain ⟨c, hc, hdot⟩ := (Option.any_eq_true _ _).mp name.starts
  have hchars := List.all_eq_true.mp name.spelt
  have hsubset : ∀ c ∈ name.short.toList, c ∈ name.text.toList := by
    intro c hc
    rw [HostName.short, String.toList_ofList] at hc
    exact (List.takeWhile_subset _) hc
  refine ⟨⟨?_, fun c hc => (plain_of_nameChar (hchars c (hsubset c hc))).1⟩,
    fun hmark => (plain_of_nameChar (hchars _ (hsubset _ hmark))).2 rfl⟩
  intro hempty
  have hnil : name.text.toList.takeWhile (· ≠ '.') = [] := by simpa [HostName.short] using congrArg String.toList hempty
  cases htext : name.text.toList with
  | nil =>
      rw [htext] at hc
      cases hc
  | cons first rest =>
      rw [htext] at hc hnil
      obtain rfl : first = c := Option.some.inj hc
      rw [List.takeWhile_cons, if_pos hdot] at hnil
      cases hnil

variable [Letters] {old new : HostName}

theorem address_of_mentions {line : String} (h : mentions old line = true) :
    Word (addressOf line) ∧ Text.startsWith (addressOf line) "#" = false ∧ addressOf line ∈ fieldsOf line ∧
      ∃ names, fieldsOf line = addressOf line :: names := by
  unfold mentions at h
  unfold addressOf
  split at h
  next address name names hfields =>
    have hmem : address ∈ fieldsOf line := hfields ▸ List.mem_cons_self
    rw [Bool.and_eq_true, Bool.not_eq_true'] at h
    rw [hfields]
    exact ⟨(word_of_mem_fieldsOf hmem).1, h.1, List.mem_cons_self, _, rfl⟩
  next => cases h

omit [Letters] in
theorem fieldsOf_lineFor {address : String} (h : Word address) (new : HostName) :
    fieldsOf (lineFor address new) = [address, new.text, new.short] := by
  have hline : lineFor address new =
      address ++ String.singleton '\t' ++ new.text ++ String.singleton ' ' ++ new.short := rfl
  rw [hline, fieldsOf_append _ _ (by decide), fieldsOf_append _ _ (by decide), fieldsOf_word h,
    fieldsOf_word new.word_text.1, fieldsOf_word new.word_short.1]
  rfl

theorem mentions_lineFor {address : String} (h : Word address) (hmark : Text.startsWith address "#" = false) :
    mentions old (lineFor address new) = (isOld old new.text || isOld old new.short) := by
  rw [mentions, fieldsOf_lineFor h]
  simp [hmark]

theorem rewriteLine_lineFor {address : String} (h : Word address) :
    rewriteLine old new (lineFor address new) = lineFor address new := by
  unfold rewriteLine
  split
  · rw [addressOf, fieldsOf_lineFor h]
    rfl
  · rfl

theorem rewriteLine_rewriteLine (line : String) : rewriteLine old new (rewriteLine old new line) = rewriteLine old new line := by
  by_cases h : mentions old line = true
  · have hline : rewriteLine old new line = lineFor (addressOf line) new := if_pos h
    rw [hline]
    exact rewriteLine_lineFor (address_of_mentions h).1
  · have hline : rewriteLine old new line = line := if_neg h
    rw [hline, hline]

theorem mentions_rewriteLine (line : String) (h : mentions old line = true) :
    mentions old (rewriteLine old new line) = (isOld old new.text || isOld old new.short) := by
  obtain ⟨hword, hmark, -⟩ := address_of_mentions h
  rw [rewriteLine, if_pos h]
  exact mentions_lineFor hword hmark

omit [Letters] in
theorem own_address : Word "127.0.1.1" ∧ Text.startsWith "127.0.1.1" "#" = false ∧ '#' ∉ "127.0.1.1".toList := by
  have hall : ("127.0.1.1".toList.all fun c => !goSpace c) = true := by decide
  refine ⟨⟨by decide, fun c hc => ?_⟩, by decide, by decide⟩
  simpa using List.all_eq_true.mp hall c hc

theorem split_rewriteHosts (old new : HostName) (raw : String) :
    Text.split '\n' (rewriteHosts old new raw) = rewriteLines old new (Text.split '\n' raw) := by
  have hword : ∀ address, Word address → '\n' ∉ (lineFor address new).toList := by
    intro address haddress hnewline
    have hmem : '\n' ∈ address.toList ∨ '\n' ∈ new.text.toList ∨ '\n' ∈ new.short.toList := by
      simpa [lineFor] using hnewline
    rcases hmem with hmem | hmem | hmem
    · exact absurd (haddress.2 _ hmem) (by decide)
    · exact absurd (new.word_text.1.2 _ hmem) (by decide)
    · exact absurd (new.word_short.1.2 _ hmem) (by decide)
  refine Text.split_join ?_ ?_
  · unfold rewriteLines
    intro hnil
    exact Text.split_ne_nil raw (List.map_eq_nil_iff.mp (List.append_eq_nil_iff.mp hnil).1)
  · intro line hline
    rcases List.mem_append.mp hline with hmap | hadded
    · obtain ⟨before, hbefore, rfl⟩ := List.mem_map.mp hmap
      unfold rewriteLine
      split
      next h => exact hword _ (address_of_mentions h).1
      next => exact Text.mem_split hbefore
    · split at hadded
      · cases hadded
      · rw [List.mem_singleton.mp hadded]
        exact hword _ own_address.1

theorem rewriteLines_rewriteLines (lines : List String) :
    rewriteLines old new (rewriteLines old new lines) = rewriteLines old new lines ++
      if (rewriteLines old new lines).any (mentions old) then [] else [lineFor "127.0.1.1" new] := by
  have hsame : (rewriteLines old new lines).map (rewriteLine old new) = rewriteLines old new lines := by
    refine (List.map_congr_left fun line hline => ?_).trans (List.map_id _)
    rcases List.mem_append.mp hline with hmap | hadded
    · obtain ⟨before, -, rfl⟩ := List.mem_map.mp hmap
      exact rewriteLine_rewriteLine before
    · split at hadded
      · cases hadded
      · rw [List.mem_singleton.mp hadded]
        exact rewriteLine_lineFor own_address.1
  rw [rewriteLines, hsame]

theorem any_rewriteLines (old new : HostName) (lines : List String) :
    (rewriteLines old new lines).any (mentions old) = (isOld old new.text || isOld old new.short) := by
  by_cases hany : lines.any (mentions old) = true
  · have hlines : rewriteLines old new lines = lines.map (rewriteLine old new) := by
      rw [rewriteLines, if_pos hany, List.append_nil]
    rw [hlines, List.any_map]
    cases hold : isOld old new.text || isOld old new.short with
    | true =>
        obtain ⟨line, hline, h⟩ := List.any_eq_true.mp hany
        refine List.any_eq_true.mpr ⟨line, hline, ?_⟩
        rw [Function.comp_apply, mentions_rewriteLine line h]
        exact hold
    | false =>
        refine List.any_eq_false.mpr fun line hline => ?_
        by_cases h : mentions old line = true
        · rw [Function.comp_apply, mentions_rewriteLine line h, hold]
          exact Bool.false_ne_true
        · have hsame : rewriteLine old new line = line := if_neg h
          rw [Function.comp_apply, hsame]
          exact h
  · have hlines : lines.map (rewriteLine old new) = lines := by
      refine (List.map_congr_left fun line hline => ?_).trans (List.map_id _)
      exact if_neg fun h => hany (List.any_eq_true.mpr ⟨line, hline, h⟩)
    rw [rewriteLines, if_neg hany, hlines, List.any_append, Bool.eq_false_iff.mpr hany, Bool.false_or, List.any_cons,
      List.any_nil, Bool.or_false, mentions_lineFor own_address.1 own_address.2.1]

theorem settled_iff (raw : String) : rewriteHosts old new (rewriteHosts old new raw) = rewriteHosts old new raw ↔
    isOld old new.text = true ∨ isOld old new.short = true := by
  rw [← Bool.or_eq_true, ← any_rewriteLines old new (Text.split '\n' raw)]
  have hagain : Text.split '\n' (rewriteHosts old new (rewriteHosts old new raw)) =
      Text.split '\n' (rewriteHosts old new raw) ++
        if (rewriteLines old new (Text.split '\n' raw)).any (mentions old) then [] else [lineFor "127.0.1.1" new] := by
    rw [split_rewriteHosts, split_rewriteHosts, rewriteLines_rewriteLines]
  constructor
  · intro h
    rw [h] at hagain
    by_contra hnone
    rw [if_neg hnone] at hagain
    exact absurd hagain (by simp)
  · intro h
    rw [if_pos h, List.append_nil] at hagain
    rw [← Text.join_split (rewriteHosts old new (rewriteHosts old new raw)), hagain, Text.join_split]

section
omit [Letters]

theorem commentOf_eq_empty_iff {line : String} : commentOf line = "" ↔ '#' ∉ line.toList := by
  have hempty : commentOf line = "" ↔ line.toList.dropWhile (· ≠ '#') = [] := by
    rw [← String.toList_inj, commentOf, String.toList_ofList]
    rfl
  rw [hempty, List.dropWhile_eq_nil_iff]
  constructor
  · intro h hmark
    simpa using h '#' hmark
  · intro h c hc
    exact decide_eq_true fun heq => h (heq ▸ hc)

theorem commentOf_lineFor {address : String} (h : '#' ∉ address.toList) (new : HostName) :
    commentOf (lineFor address new) = "" := by
  refine commentOf_eq_empty_iff.mpr fun hmark => ?_
  have hmem : '#' ∈ address.toList ∨ '#' ∈ new.text.toList ∨ '#' ∈ new.short.toList := by simpa [lineFor] using hmark
  rcases hmem with hmem | hmem | hmem
  · exact h hmem
  · exact new.word_text.2 hmem
  · exact new.word_short.2 hmem

theorem kept_of_filter_eq {α : Type} {text kept : α → String} {items : List α}
    (h : ∀ item ∈ items, kept item = text item ∨ kept item = "")
    (heq : (items.map kept).filter (· ≠ "") = (items.map text).filter (· ≠ "")) :
    ∀ item ∈ items, kept item = text item := by
  have hsub : (items.filter fun item => kept item ≠ "").Sublist (items.filter fun item => text item ≠ "") := by
    have hfilter : (items.filter fun item => kept item ≠ "") =
        (items.filter fun item => text item ≠ "").filter fun item => kept item ≠ "" := by
      rw [List.filter_filter]
      refine List.filter_congr fun item hitem => ?_
      rcases h item hitem with hsame | hempty
      · rw [hsame, Bool.and_self]
      · rw [hempty]
        rfl
    rw [hfilter]
    exact List.filter_sublist
  have hlength : (items.filter fun item => kept item ≠ "").length = (items.filter fun item => text item ≠ "").length := by
    rw [List.filter_map, List.filter_map] at heq
    simpa [Function.comp_def] using congrArg List.length heq
  have hfilter := hsub.eq_of_length hlength
  intro item hitem
  rcases h item hitem with hsame | hempty
  · exact hsame
  · rw [hempty]
    by_contra htext
    have hmem : item ∈ items.filter fun item => text item ≠ "" :=
      List.mem_filter.mpr ⟨hitem, decide_eq_true fun heq => htext heq.symm⟩
    rw [← hfilter] at hmem
    exact of_decide_eq_true (List.mem_filter.mp hmem).2 hempty

end

theorem comments_rewriteLines (lines : List String) :
    comments (rewriteLines old new lines) = (lines.map fun line => commentOf (rewriteLine old new line)).filter (· ≠ "") := by
  rw [comments, rewriteLines, List.map_append, List.filter_append, List.map_map]
  split
  · rw [List.map_nil, List.filter_nil, List.append_nil]
    rfl
  · rw [List.map_singleton, commentOf_lineFor own_address.2.2]
    exact List.append_nil _

/-- Where the addresses are no comments, the comments are kept when no line that is written anew has one. -/
theorem commented_iff {lines : List String}
    (h : ∀ line ∈ lines, mentions old line = true → '#' ∉ (addressOf line).toList) :
    comments (rewriteLines old new lines) = comments lines ↔
      ∀ line ∈ lines, mentions old line = true → '#' ∉ line.toList := by
  have hkept : ∀ line ∈ lines, mentions old line = true → commentOf (rewriteLine old new line) = "" := by
    intro line hline hmentions
    rw [rewriteLine, if_pos hmentions]
    exact commentOf_lineFor (h line hline hmentions) new
  have hsame : ∀ line, mentions old line ≠ true → commentOf (rewriteLine old new line) = commentOf line :=
    fun line hmentions => congrArg commentOf (if_neg hmentions)
  rw [comments_rewriteLines, comments]
  constructor
  · intro heq line hline hmentions
    have hcases : ∀ line ∈ lines, commentOf (rewriteLine old new line) = commentOf line ∨
        commentOf (rewriteLine old new line) = "" := by
      intro line hline
      by_cases hmentions : mentions old line = true
      · exact .inr (hkept line hline hmentions)
      · exact .inl (hsame line hmentions)
    have hcomment := kept_of_filter_eq hcases heq line hline
    rw [hkept line hline hmentions] at hcomment
    exact commentOf_eq_empty_iff.mp hcomment.symm
  · intro hbare
    refine congrArg (List.filter (· ≠ "")) (List.map_congr_left fun line hline => ?_)
    by_cases hmentions : mentions old line = true
    · rw [hkept line hline hmentions, commentOf_eq_empty_iff.mpr (hbare line hline hmentions)]
    · exact hsame line hmentions

section
omit [Letters]

theorem pairsOf_bare {line : String} (h : '#' ∉ line.toList) : pairsOf line =
    match fieldsOf line with
    | address :: names => names.map fun name => (address, name)
    | [] => [] := by
  have hsame : uncommented line = line := by
    rw [uncommented, List.takeWhile_eq_self_iff.mpr, String.ofList_toList]
    intro c hc
    exact decide_eq_true fun heq => h (heq ▸ hc)
  rw [pairsOf, hsame]

theorem pairsOf_lineFor {address : String} (h : Word address) (hmark : '#' ∉ address.toList) (new : HostName) :
    pairsOf (lineFor address new) = [(address, new.text), (address, new.short)] := by
  rw [pairsOf_bare (commentOf_eq_empty_iff.mp (commentOf_lineFor hmark new)), fieldsOf_lineFor h]
  rfl

theorem fst_bare {line : String} {pair : String × String} (h : pair ∈ pairsOf line) : '#' ∉ pair.1.toList := by
  unfold pairsOf at h
  split at h
  next address names hfields =>
    obtain ⟨name, -, rfl⟩ := List.mem_map.mp h
    intro hmark
    have hmem := (word_of_mem_fieldsOf (hfields ▸ List.mem_cons_self)).2 hmark
    rw [uncommented, String.toList_ofList] at hmem
    simpa using List.mem_takeWhile_imp hmem
  next => cases h

theorem fst_of_mem_pairsOf {line : String} (h : '#' ∉ line.toList) {pair : String × String} (hpair : pair ∈ pairsOf line) :
    pair.1 = addressOf line := by
  rw [pairsOf_bare h] at hpair
  unfold addressOf
  split at hpair
  next address names hfields =>
    obtain ⟨name, -, rfl⟩ := List.mem_map.mp hpair
    rw [hfields]
    rfl
  next => cases hpair

end

theorem pairsOf_rewriteLine (new : HostName) {line : String} (h : mentions old line = true)
    (hmark : '#' ∉ (addressOf line).toList) :
    pairsOf (rewriteLine old new line) = [(addressOf line, new.text), (addressOf line, new.short)] := by
  rw [rewriteLine, if_pos h]
  exact pairsOf_lineFor (address_of_mentions h).1 hmark new

theorem mem_pairs_rewriteLines {lines : List String} {pair : String × String} :
    pair ∈ pairs (rewriteLines old new lines) ↔ (∃ line ∈ lines, pair ∈ pairsOf (rewriteLine old new line)) ∨
      lines.any (mentions old) = false ∧ pair ∈ pairsOf (lineFor "127.0.1.1" new) := by
  rw [pairs, rewriteLines, List.flatMap_append, List.mem_append, List.mem_flatMap]
  refine or_congr ?_ ?_
  · constructor
    · intro h
      obtain ⟨after, hafter, hpair⟩ := h
      obtain ⟨line, hline, rfl⟩ := List.mem_map.mp hafter
      exact ⟨line, hline, hpair⟩
    · intro h
      obtain ⟨line, hline, hpair⟩ := h
      exact ⟨_, List.mem_map_of_mem hline, hpair⟩
  · cases lines.any (mentions old) <;> simp

theorem ordered_rewriteLines (lines : List String) :
    (lines.filter fun line => !mentions old line).Sublist (rewriteLines old new lines) := by
  have hsame : (lines.filter fun line => !mentions old line).map (rewriteLine old new) =
      lines.filter fun line => !mentions old line := by
    refine (List.map_congr_left fun line hline => ?_).trans (List.map_id _)
    exact if_neg (by simpa using (List.mem_filter.mp hline).2)
  rw [← hsame]
  exact (List.filter_sublist.map _).trans (List.sublist_append_left _ _)

theorem address_bare {lines : List String}
    (h : ∀ address ∈ localAddresses old lines, (address, new.text) ∈ pairs (rewriteLines old new lines)) :
    ∀ line ∈ lines, mentions old line = true → '#' ∉ (addressOf line).toList := by
  intro line hline hmentions
  have hlocal : addressOf line ∈ localAddresses old lines := by
    rw [localAddresses, if_pos (List.any_eq_true.mpr ⟨line, hline, hmentions⟩)]
    exact List.mem_map_of_mem (List.mem_filter.mpr ⟨hline, hmentions⟩)
  obtain ⟨other, -, hpair⟩ := List.mem_flatMap.mp (h _ hlocal)
  have hbare := fst_bare hpair
  exact hbare

theorem maps_new {lines : List String}
    (h : ∀ line ∈ lines, mentions old line = true → '#' ∉ (addressOf line).toList) :
    ∀ address ∈ localAddresses old lines, (address, new.text) ∈ pairs (rewriteLines old new lines) ∧
      (address, new.short) ∈ pairs (rewriteLines old new lines) := by
  intro address hlocal
  rw [mem_pairs_rewriteLines, mem_pairs_rewriteLines]
  unfold localAddresses at hlocal
  split at hlocal
  next hany =>
    obtain ⟨line, hmem, rfl⟩ := List.mem_map.mp hlocal
    obtain ⟨hline, hmentions⟩ := List.mem_filter.mp hmem
    have hnew := pairsOf_rewriteLine new hmentions (h line hline hmentions)
    exact ⟨.inl ⟨line, hline, by simp [hnew]⟩, .inl ⟨line, hline, by simp [hnew]⟩⟩
  next hany =>
    have hnone : lines.any (mentions old) = false := Bool.eq_false_iff.mpr hany
    rw [List.mem_singleton.mp hlocal]
    have hnew := pairsOf_lineFor own_address.1 own_address.2.2 new
    exact ⟨.inr ⟨hnone, by simp [hnew]⟩, .inr ⟨hnone, by simp [hnew]⟩⟩

theorem elsewhere_of_keeps {lines : List String}
    (haddress : ∀ line ∈ lines, mentions old line = true → '#' ∉ (addressOf line).toList)
    (h : ∀ pair ∈ pairs lines, isOld old pair.2 = false → pair ∈ pairs (rewriteLines old new lines)) :
    ∀ line ∈ lines, mentions old line = true → ∀ pair ∈ pairsOf line,
      isOld old pair.2 = true ∨ pair.2 = new.text ∨ pair.2 = new.short ∨
        ∃ other ∈ lines, mentions old other = false ∧ pair ∈ pairsOf other := by
  intro line hline hmentions pair hpair
  cases hold : isOld old pair.2 with
  | true => exact .inl rfl
  | false =>
      right
      rcases mem_pairs_rewriteLines.mp (h pair (List.mem_flatMap.mpr ⟨line, hline, hpair⟩) hold) with
        ⟨other, hother, hafter⟩ | ⟨hnone, -⟩
      · cases hmentions' : mentions old other with
        | true =>
            rw [pairsOf_rewriteLine new hmentions' (haddress other hother hmentions')] at hafter
            rcases List.mem_pair.mp hafter with rfl | rfl
            · exact .inl rfl
            · exact .inr (.inl rfl)
        | false =>
            rw [rewriteLine, if_neg (by simp [hmentions'])] at hafter
            exact .inr (.inr ⟨other, hother, hmentions', hafter⟩)
      · exact absurd hmentions (List.any_eq_false.mp hnone line hline)

theorem keeps_of_elsewhere {lines : List String} (h : Spared old new lines) :
    ∀ pair ∈ pairs lines, isOld old pair.2 = false → pair ∈ pairs (rewriteLines old new lines) := by
  intro pair hpair hold
  rw [mem_pairs_rewriteLines]
  left
  obtain ⟨line, hline, hpair⟩ := List.mem_flatMap.mp hpair
  cases hmentions : mentions old line with
  | true =>
      have hbare := h.bare line hline hmentions
      have haddress : '#' ∉ (addressOf line).toList :=
        fun hmark => hbare ((word_of_mem_fieldsOf (address_of_mentions hmentions).2.2.1).2 hmark)
      have hnew := pairsOf_rewriteLine new hmentions haddress
      have hfst := fst_of_mem_pairsOf hbare hpair
      obtain ⟨address, name⟩ := pair
      rcases h.elsewhere line hline hmentions _ hpair with hold' | htext | hshort | ⟨other, hother, hmentions', hpair'⟩
      · rw [hold] at hold'
        cases hold'
      · exact ⟨line, hline, by simp_all⟩
      · exact ⟨line, hline, by simp_all⟩
      · refine ⟨other, hother, ?_⟩
        rw [rewriteLine, if_neg (by simp [hmentions'])]
        exact hpair'
  | false =>
      refine ⟨line, hline, ?_⟩
      rw [rewriteLine, if_neg (by simp [hmentions])]
      exact hpair

/-- The file is as it is to be exactly when there was nothing on the lines that are written anew but the old name and the
new one, and the new name is still the old one in short or in full. -/
theorem rewritten_iff (old new : HostName) (raw : String) :
    Rewritten old new raw (rewriteHosts old new raw) ↔ Spared old new (Text.split '\n' raw) := by
  have hsplit := split_rewriteHosts old new raw
  constructor
  · intro h
    have hmaps := h.maps
    have hcommented := h.commented
    have hkeeps := h.keeps
    rw [hsplit] at hmaps hcommented hkeeps
    have haddress := address_bare fun address hlocal => (hmaps address hlocal).1
    exact ⟨(settled_iff raw).mp h.settled, (commented_iff haddress).mp hcommented, elsewhere_of_keeps haddress hkeeps⟩
  · intro h
    have haddress : ∀ line ∈ Text.split '\n' raw, mentions old line = true → '#' ∉ (addressOf line).toList := by
      intro line hline hmentions hmark
      exact h.bare line hline hmentions ((word_of_mem_fieldsOf (address_of_mentions hmentions).2.2.1).2 hmark)
    constructor
    · rw [hsplit]
      exact keeps_of_elsewhere h
    · rw [hsplit]
      exact (commented_iff haddress).mpr h.bare
    · rw [hsplit]
      exact ordered_rewriteLines _
    · rw [hsplit]
      exact maps_new haddress
    · exact (settled_iff raw).mpr h.again

def desk : HostName := { text := "desk.example.org" }

def till : HostName := { text := "till.example.org" }

omit [Letters] in
/-- A name of its own that the administrator put beside the old one is lost. -/
theorem alias_is_lost : letI := Memberships.latin
    ¬ Rewritten desk till "127.0.1.1\tdesk intranet" (rewriteHosts desk till "127.0.1.1\tdesk intranet") := by
  let _ := Memberships.latin
  intro h
  have hkeeps := h.keeps ("127.0.1.1", "intranet") (by decide +kernel) (by decide +kernel)
  rw [split_rewriteHosts] at hkeeps
  exact absurd hkeeps (by decide +kernel)

end OpenDirectory.HostsFile
