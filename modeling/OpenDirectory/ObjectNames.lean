import OpenDirectory.ContainerChain
import OpenDirectory.RecycleBin

/-! The name of an object through a move, and through its deletion and restoring. The directory reads a value as it
is written in a name, with its special characters escaped; the console takes the text of a name apart at its
first comma, and escapes again what it took out of it. -/

namespace OpenDirectory.ObjectNames

open ContainerMoves (Ldap normalizeDn rdnValue below)
open Delegation (Lowering)
open Pieces (Guarded)
open Policy (splitDn whole Component)
open RecycleBin (parentDn)

/-- Types and values, from the object up. -/
abbrev Name := List (String × String)

structure Entry where
  guid : String
  name : Name
  deriving DecidableEq

/-- The console's library and the directory, which knows what value a written one stands for. -/
structure Server extends Ldap where
  value : String → Option String

/-- A component of a name by its type and its value. -/
def Server.rdn (server : Server) (text : String) : Option (String × String) := do
  let (type, written) ← Text.cut '=' text
  return (type, ← server.value written)

def Server.name (server : Server) (text : String) : Option Name := (splitDn text).mapM server.rdn

/-- A component as it is written in a name. A comma in the value stands after a backslash, and an equals sign after
one or by its number. -/
structure Spelled (server : Server) where
  type : String
  text : String
  value : String
  stands : server.value text = some value
  full : text ∉ ["", " "]
  plain : ∀ c ∈ type.toList, c.isAlphanum = true ∨ c ∈ ['-', '.']
  whole : Policy.whole false text.toList = true
  guarded : Guarded '=' '\\' text.toList

variable {server : Server}

def Spelled.written (rdn : Spelled server) : String := rdn.type ++ "=" ++ rdn.text

def dnText (rdns : List (Spelled server)) : String := Text.join "," (rdns.map Spelled.written)

def names (rdns : List (Spelled server)) : Name := rdns.map fun rdn => (rdn.type, rdn.value)

theorem cut_eq {c : Char} {before : String} (h : c ∉ before.toList) (after : String) :
    Text.cut c (before ++ String.singleton c ++ after) = some (before, after) := by
  have hspan : (before ++ String.singleton c ++ after).toList.span (· ≠ c) =
      (before.toList, c :: after.toList) := by
    rw [List.span_eq_takeWhile_dropWhile, String.toList_append, String.toList_append]
    have hall : ∀ d ∈ before.toList, decide (d ≠ c) = true := fun d hd => decide_eq_true fun heq => h (heq ▸ hd)
    simp only [String.toList_singleton, List.append_assoc, List.singleton_append]
    rw [List.takeWhile_append_of_pos hall, List.dropWhile_append_of_pos hall]
    simp
  unfold Text.cut
  rw [hspan]
  simp

theorem headD_split {c : Char} {before : String} (h : c ∉ before.toList) (after : String) :
    (Text.split c (before ++ String.singleton c ++ after)).headD "" = before := by
  have hchars : (before ++ String.singleton c ++ after).toList = before.toList ++ c :: after.toList := by simp
  have hfirst : before.toList.splitOn c = [before.toList] := List.splitOn_eq_singleton h
  rw [List.splitOn_eq_splitOnP] at hfirst
  rw [Text.split, hchars, List.splitOn_eq_splitOnP, List.splitOnP_append_cons (p := (· == c)) _ _ (beq_self_eq_true c), hfirst]
  simp

theorem whole_append {first rest : List Char} (hplain : ∀ c ∈ first, c ≠ ',' ∧ c ≠ '\\') :
    Policy.whole false (first ++ rest) = Policy.whole false rest := by
  induction first with
  | nil => rfl
  | cons c first ih =>
      obtain ⟨hcomma, hslash⟩ := hplain c List.mem_cons_self
      rw [List.cons_append, Policy.whole, if_neg hslash, decide_eq_true hcomma, Bool.true_and]
      exact ih fun c hc => hplain c (.tail _ hc)

theorem slash_of_comma {text : List Char} (h : Policy.whole false text = true) (hcomma : ',' ∈ text) :
    '\\' ∈ text := by
  by_contra hslash
  obtain ⟨before, after, rfl, hbefore⟩ := List.eq_append_cons_of_mem hcomma
  rw [whole_append] at h
  · simp [Policy.whole] at h
  · intro c hc
    exact ⟨fun heq => hbefore (heq ▸ hc), fun heq => hslash (heq ▸ List.mem_append_left _ hc)⟩

theorem whole_after {text rest : List Char} {escaped : Bool} (h : Policy.whole escaped (text ++ ',' :: rest) = true) :
    Policy.whole false rest = true := by
  induction text generalizing escaped with
  | nil =>
      cases escaped with
      | true => exact h
      | false => simp [Policy.whole] at h
  | cons c text ih =>
      cases escaped with
      | true => exact ih h
      | false =>
          rw [List.cons_append, Policy.whole] at h
          split_ifs at h with hslash
          · exact ih h
          · rw [Bool.and_eq_true] at h
            exact ih h.2

theorem guarded_after {text rest : List Char} (h : Guarded '=' '\\' (text ++ ',' :: rest)) :
    Guarded '=' '\\' rest := by
  rintro before after rfl
  obtain ⟨earlier, hearlier⟩ := h (text ++ ',' :: before) after (by simp)
  rcases List.eq_nil_or_concat before with rfl | ⟨front, last, rfl⟩
  · obtain ⟨-, hlast⟩ := List.append_inj' hearlier rfl
    exact absurd (List.singleton_inj.mp hlast) (by decide)
  · rw [List.concat_eq_append, ← List.cons_append, ← List.append_assoc] at hearlier
    obtain ⟨-, hlast⟩ := List.append_inj' hearlier rfl
    rw [List.concat_eq_append, List.singleton_inj.mp hlast]
    exact ⟨front, rfl⟩

theorem Spelled.not_mem_type (rdn : Spelled server) : ∀ c ∈ [',', '=', '\\'], c ∉ rdn.type.toList := by
  intro c hc hmem
  have hplain := rdn.plain c hmem
  simp only [List.mem_cons, List.not_mem_nil, or_false] at hc
  rcases hc with rfl | rfl | rfl <;> revert hplain <;> decide

theorem Spelled.toList_written (rdn : Spelled server) : rdn.written.toList = rdn.type.toList ++ '=' :: rdn.text.toList := by
  rw [Spelled.written]
  simp

theorem Spelled.whole_written (rdn : Spelled server) : Policy.whole false rdn.written.toList = true := by
  have hsplit : rdn.written.toList = (rdn.type.toList ++ ['=']) ++ rdn.text.toList := by
    rw [rdn.toList_written]
    simp
  rw [hsplit, whole_append]
  · exact rdn.whole
  · intro c hc
    rcases List.mem_append.mp hc with htype | hequal
    · exact ⟨fun heq => rdn.not_mem_type ',' (by simp) (heq ▸ htype),
        fun heq => rdn.not_mem_type '\\' (by simp) (heq ▸ htype)⟩
    · rw [List.mem_singleton.mp hequal]
      decide

/-- A component as its text. -/
def Spelled.component (rdn : Spelled server) : Component :=
  ⟨rdn.written, by rw [rdn.toList_written]; simp, rdn.whole_written⟩

theorem dnText_eq (rdns : List (Spelled server)) : dnText rdns = Policy.written (rdns.map Spelled.component) := by
  rw [dnText, Policy.written, List.map_map]
  rfl

theorem Spelled.rdn_written (rdn : Spelled server) : server.rdn rdn.written = some (rdn.type, rdn.value) := by
  have hcut := cut_eq (rdn.not_mem_type '=' (by simp)) rdn.text
  have hequal : String.singleton '=' = "=" := rfl
  rw [hequal] at hcut
  rw [Server.rdn, Spelled.written, hcut]
  simp [rdn.stands]

theorem name_dnText (rdns : List (Spelled server)) : server.name (dnText rdns) = some (names rdns) := by
  rw [Server.name, dnText_eq, Policy.splitDn_written, List.map_map]
  induction rdns with
  | nil => rfl
  | cons rdn rdns ih =>
      have hrdn : server.rdn ((Component.text ∘ Spelled.component) rdn) = some (rdn.type, rdn.value) := rdn.rdn_written
      rw [List.map_cons, List.mapM_cons, hrdn, ih]
      rfl

theorem dnText_cons (first : Spelled server) {container : List (Spelled server)} (h : container ≠ []) :
    dnText (first :: container) = first.written ++ "," ++ dnText container := by
  obtain ⟨next, rest, rfl⟩ := List.exists_cons_of_ne_nil h
  apply String.toList_inj.mp
  have hcomma : ("," : String) = String.singleton ',' := rfl
  rw [dnText, List.map_cons, List.map_cons, hcomma, Text.toList_join_cons, dnText, List.map_cons]
  simp

variable [Runtime]

/-- Names are the same but for case. -/
def folded (name : Name) : Name := name.map fun rdn => (lower rdn.1, lower rdn.2)

def find (directory : List Entry) (name : Name) : Option Entry :=
  directory.find? fun entry => folded entry.name = folded name

/-- The object that a text names. -/
def get (server : Server) (directory : List Entry) (dn : String) : Option Entry := do
  let canonical ← normalizeDn server.toLdap dn
  find directory (← server.name canonical)

/-- An object and everything below it under its new name. -/
def renamed (old new : Name) (entry : Entry) : Entry :=
  let above := entry.name.length - old.length
  if folded (entry.name.drop above) = folded old then { entry with name := entry.name.take above ++ new } else entry

def modifyDn (server : Server) (directory : List Entry) (dn relative superior : String) : Option (List Entry) := do
  let old ← server.name dn
  let new := (← server.rdn relative) :: (← server.name superior)
  guard ((find directory (← server.name superior)).isSome ∧
    ∀ entry ∈ directory, folded entry.name = folded new → folded new = folded old)
  return directory.map (renamed old new)

/-- What is protected beside the head of the domain is left open. -/
def assertMutable (server : Server) (canonical : String) (mutable : Bool) : Option Unit := do
  let base ← server.safeDn server.baseDn
  guard (lower canonical ≠ lower base ∧ mutable)

/-- A move without a new name. -/
def move (server : Server) (directory : List Entry) (dn target : String) (mutable : Bool) :
    Option (List Entry) := do
  let canonical ← normalizeDn server.toLdap dn
  let _ ← get server directory canonical
  assertMutable server canonical mutable
  let destination ← normalizeDn server.toLdap target
  guard (¬ (lower destination = lower canonical ∨ below destination canonical))
  let kind := (Text.split '=' canonical).headD ""
  modifyDn server directory canonical (kind ++ "=" ++ server.escapeRdn (rdnValue canonical)) destination

/-- What a snapshot has of the name. -/
structure Snapshot where
  objectDn : String
  parentDn : String

def delete (server : Server) (directory : List Entry) (dn : String) (mutable : Bool) :
    Option (List Entry × Snapshot) := do
  let canonical ← normalizeDn server.toLdap dn
  let entry ← get server directory canonical
  assertMutable server canonical mutable
  guard (∀ child ∈ directory, folded (child.name.drop 1) ≠ folded entry.name)
  return (directory.filter fun other => folded other.name ≠ folded entry.name, ⟨canonical, parentDn canonical⟩)

/-- The object comes back under the identity it had, or as a new one. -/
def restore (server : Server) (directory : List Entry) (snapshot : Snapshot) (guid : String) :
    Option (List Entry) := do
  let parent ← normalizeDn server.toLdap snapshot.parentDn
  let dn := (Text.split ',' snapshot.objectDn).headD "" ++ "," ++ parent
  let _ ← get server directory parent
  guard (get server directory dn).isNone
  return directory ++ [⟨guid, ← server.name dn⟩]

/-- What is known of the library and the directory: a value that the library escapes is read as it was, an escape
makes what is written another text than what it stands for, a comma stands for a comma, and of a name in its
canonical spelling so is what is left of a component; a component without a free equals sign is refused. -/
structure Rfc4514 (server : Server) : Prop where
  escaped : ∀ value, value ∉ ["", " "] → server.value (server.escapeRdn value) = some value
  comma : ∀ text value, server.value text = some value → ',' ∈ text.toList → ',' ∈ value.toList
  shorter : ∀ text value, server.value text = some value → '\\' ∈ text.toList → lower value ≠ lower text
  idempotent : ∀ dn canonical, server.safeDn dn = some canonical → server.safeDn canonical = some canonical
  settled : ∀ dn first rest, server.safeDn dn = some (first ++ "," ++ rest) → rest ≠ "" →
    Policy.whole false first.toList = true → server.safeDn rest = some rest
  refused : ∀ text rest, Policy.whole false text.toList = true → Guarded '=' '\\' text.toList →
    server.safeDn (text ++ "," ++ rest) = none

/-- The object has the name that is written so, its container is there, and no identity and no name is there
twice. -/
structure Holds (directory : List Entry) (entry : Entry) (first : Spelled server)
    (container : List (Spelled server)) : Prop where
  guids : (directory.map Entry.guid).Nodup
  entries : (directory.map fun other => folded other.name).Nodup
  mem : entry ∈ directory
  named : folded entry.name = folded (names (first :: container))
  inside : container ≠ []
  parent : ∃ parent ∈ directory, folded parent.name = folded (names container)

/-- The value of the first component of its name. -/
def Entry.value (entry : Entry) : Option String := entry.name.head?.map Prod.snd

/-- A move, or a deletion followed by restoring the object, with what identity it gets. -/
inductive Op where
  | move (target : String)
  | recycle (guid : String)

/-- The object is moved or deleted at all. -/
def Passes (server : Server) (directory : List Entry) (dn : String) (mutable : Bool) : Op → Bool
  | .move target => (move server directory dn target mutable).isSome
  | .recycle _ => (delete server directory dn mutable).isSome

/-- The value of the name is as it was, and the object directly under the target of the move, or back where it
was. -/
def Survives (server : Server) (directory : List Entry) (entry : Entry) (dn : String) (mutable : Bool) : Op → Prop
  | .move target => ∀ after, move server directory dn target mutable = some after →
      ∃ moved ∈ after, moved.guid = entry.guid ∧ moved.value = entry.value ∧
        (normalizeDn server.toLdap target).bind server.name = some (moved.name.drop 1)
  | .recycle guid => ∀ after snapshot, delete server directory dn mutable = some (after, snapshot) →
      ∃ back, restore server after snapshot guid = some (after ++ [back]) ∧ back.guid = guid ∧
        back.value = entry.value ∧ folded (back.name.drop 1) = folded (entry.name.drop 1)

/-- The value is written without any escape, and for a recycled object without a comma, as the object has it. -/
def Plain (entry : Entry) (first : Spelled server) : Op → Prop
  | .move _ => entry.value = some first.text
  | .recycle _ => ',' ∉ first.text.toList ∧ entry.value = some first.value

variable {directory : List Entry} {entry : Entry} {first : Spelled server} {container : List (Spelled server)}

/-- What the code takes for the value. -/
def Spelled.taken (rdn : Spelled server) : String := (Text.split ',' rdn.text).headD ""

section
omit [Runtime]

theorem Spelled.split_text (rdn : Spelled server) :
    ',' ∉ rdn.text.toList ∧ rdn.taken = rdn.text ∨
      ∃ rest, rdn.text = rdn.taken ++ "," ++ rest ∧ ',' ∉ rdn.taken.toList := by
  by_cases hcomma : ',' ∈ rdn.text.toList
  · obtain ⟨before, after, htext, hbefore⟩ := List.eq_append_cons_of_mem hcomma
    have hsplit : rdn.text = String.ofList before ++ String.singleton ',' ++ String.ofList after := by
      apply String.toList_inj.mp
      rw [htext]
      simp
    have hfree : ',' ∉ (String.ofList before).toList := by rwa [String.toList_ofList]
    have htaken : rdn.taken = String.ofList before := by
      rw [Spelled.taken, hsplit]
      exact headD_split hfree _
    exact .inr ⟨String.ofList after, by rw [htaken]; exact hsplit, by rw [htaken]; exact hfree⟩
  · left
    refine ⟨hcomma, ?_⟩
    rw [Spelled.taken, Text.split_eq_self hcomma]
    rfl

theorem Spelled.full_taken (rdn : Spelled server) : rdn.taken ∉ ["", " "] := by
  rcases rdn.split_text with ⟨-, htaken⟩ | ⟨rest, htext, -⟩
  · rw [htaken]
    exact rdn.full
  · -- What stands before the comma ends in a backslash.
    intro hmem
    have hwhole := rdn.whole
    rw [htext] at hwhole
    simp only [List.mem_cons, List.not_mem_nil, or_false] at hmem
    rcases hmem with hempty | hblank
    · rw [hempty] at hwhole
      simp [Policy.whole] at hwhole
    · rw [hblank] at hwhole
      simp [Policy.whole] at hwhole

theorem rdnValue_dnText (h : container ≠ []) : rdnValue (dnText (first :: container)) = first.taken := by
  have hequal : String.singleton '=' = "=" := rfl
  have hcomma : String.singleton ',' = "," := rfl
  have htype : ∀ text : String, Text.cut '=' (first.type ++ "=" ++ text) = some (first.type, text) :=
    fun text => cut_eq (first.not_mem_type '=' (by simp)) text
  have hhead : (Text.split ',' (dnText (first :: container))).headD "" = first.type ++ "=" ++ first.taken := by
    rcases first.split_text with ⟨hfree, htaken⟩ | ⟨rest, htext, hfree⟩
    · have hwritten : ',' ∉ first.written.toList := by
        rw [first.toList_written]
        simp [first.not_mem_type ',' (by simp), hfree]
      rw [dnText_cons first h, htaken]
      exact headD_split hwritten _
    · have hsplit : dnText (first :: container) =
          (first.type ++ "=" ++ first.taken) ++ "," ++ (rest ++ "," ++ dnText container) := by
        rw [dnText_cons first h, Spelled.written]
        nth_rewrite 1 [htext]
        simp only [String.append_assoc]
      have hwritten : ',' ∉ (first.type ++ "=" ++ first.taken).toList := by
        simp [first.not_mem_type ',' (by simp), hfree]
      rw [hsplit]
      exact headD_split hwritten _
  rw [rdnValue, hhead, htype]
  rfl

theorem kind_dnText (h : container ≠ []) : (Text.split '=' (dnText (first :: container))).headD "" = first.type := by
  have hsplit : dnText (first :: container) =
      first.type ++ String.singleton '=' ++ (first.text ++ "," ++ dnText container) := by
    have hequal : String.singleton '=' = "=" := rfl
    rw [dnText_cons first h, Spelled.written, hequal]
    simp only [String.append_assoc]
  rw [hsplit]
  exact headD_split (first.not_mem_type '=' (by simp)) _

end

theorem length_of_folded {name other : Name} (h : folded name = folded other) : name.length = other.length := by
  simpa [folded] using congrArg List.length h

theorem find_eq (h : (directory.map fun other => folded other.name).Nodup) {other : Entry}
    (hmem : other ∈ directory) {name : Name} (hname : folded other.name = folded name) :
    find directory name = some other := by
  unfold find
  cases hfind : directory.find? fun entry => folded entry.name = folded name with
  | none =>
      rw [List.find?_eq_none] at hfind
      exact absurd (decide_eq_true hname) (hfind other hmem)
  | some found =>
      have hfound : folded found.name = folded name := by simpa using List.find?_some hfind
      rw [List.inj_on_of_nodup_map h (List.mem_of_find?_eq_some hfind) hmem (hfound.trans hname.symm)]

theorem Holds.value_eq (h : Holds directory entry first container) :
    ∃ value, entry.value = some value ∧ lower value = lower first.value := by
  have hnamed := h.named
  unfold folded names at hnamed
  cases hname : entry.name with
  | nil =>
      rw [hname] at hnamed
      cases hnamed
  | cons rdn rest =>
      rw [hname] at hnamed
      refine ⟨rdn.2, by rw [Entry.value, hname]; rfl, ?_⟩
      exact (Prod.mk.inj (List.cons.inj hnamed).1).2

theorem Holds.ne_value (h : Holds directory entry first container) (hlower : Lowering) (hserver : Rfc4514 server)
    (hcomma : ',' ∈ first.text.toList) : entry.value ≠ some first.text ∧ entry.value ≠ some first.taken := by
  obtain ⟨value, hvalue, hsame⟩ := h.value_eq
  rw [hvalue]
  have hinside : ',' ∈ first.value.toList := hserver.comma _ _ first.stands hcomma
  constructor
  · intro heq
    apply hserver.shorter _ _ first.stands (slash_of_comma first.whole hcomma)
    rw [← hsame, Option.some.inj heq]
  · intro heq
    have hfree : ',' ∉ value.toList := by
      rw [Option.some.inj heq]
      rcases first.split_text with ⟨hnot, -⟩ | ⟨-, -, hfree⟩
      · exact absurd hcomma hnot
      · exact hfree
    obtain ⟨before, after, hsplit, -⟩ := List.eq_append_cons_of_mem hinside
    have hlowered : ',' ∈ (lower first.value).toList := by
      rw [hlower.toList_apart (show ',' ∈ Delegation.separators by decide) hsplit]
      exact List.mem_append_right _ List.mem_cons_self
    rw [← hsame] at hlowered
    exact hlower.none ',' (by decide) value hfree hlowered

variable {dn : String} {mutable : Bool}

theorem move_eq (hserver : Rfc4514 server) (hinside : container ≠ [])
    (hdn : normalizeDn server.toLdap dn = some (dnText (first :: container))) {target : String} {after : List Entry}
    (hafter : move server directory dn target mutable = some after) :
    ∃ destination above, normalizeDn server.toLdap target = some destination ∧ server.name destination = some above ∧
      after = directory.map (renamed (names (first :: container)) ((first.type, first.taken) :: above)) := by
  have hequal : String.singleton '=' = "=" := rfl
  have hcut : Text.cut '=' (first.type ++ "=" ++ server.escapeRdn first.taken) =
      some (first.type, server.escapeRdn first.taken) := cut_eq (first.not_mem_type '=' (by simp)) _
  have hrdn : server.rdn (first.type ++ "=" ++ server.escapeRdn first.taken) = some (first.type, first.taken) := by
    rw [Server.rdn, hcut]
    simp [hserver.escaped _ first.full_taken]
  unfold move at hafter
  rw [hdn] at hafter
  simp only [Option.bind_eq_bind, Option.bind_some, Option.bind_eq_some_iff] at hafter
  obtain ⟨-, -, -, -, destination, htarget, -, -, hmodify⟩ := hafter
  rw [kind_dnText hinside, rdnValue_dnText hinside, modifyDn, name_dnText, hrdn] at hmodify
  simp only [Option.bind_eq_bind, Option.bind_some, Option.bind_eq_some_iff, Option.pure_def,
    Option.some.injEq] at hmodify
  obtain ⟨above, habove, -, -, -, -, rfl⟩ := hmodify
  exact ⟨destination, above, htarget, habove, rfl⟩

theorem renamed_entry (h : folded entry.name = folded (names (first :: container))) (new : Name) :
    renamed (names (first :: container)) new entry = { entry with name := new } := by
  have hlength := length_of_folded h
  unfold renamed
  rw [hlength, Nat.sub_self]
  dsimp only
  rw [List.drop_zero, if_pos h, List.take_zero, List.nil_append]

theorem guid_renamed (old new : Name) (entry : Entry) : (renamed old new entry).guid = entry.guid := by
  unfold renamed
  dsimp only
  split_ifs <;> rfl

theorem move_survives_iff (h : Holds directory entry first container) (hserver : Rfc4514 server)
    (hdn : normalizeDn server.toLdap dn = some (dnText (first :: container))) {target : String}
    (hpasses : Passes server directory dn mutable (.move target) = true) :
    Survives server directory entry dn mutable (.move target) ↔ entry.value = some first.taken := by
  obtain ⟨after, hafter⟩ := Option.isSome_iff_exists.mp hpasses
  obtain ⟨destination, above, htarget, habove, rfl⟩ := move_eq hserver h.inside hdn hafter
  have hrenamed := renamed_entry h.named ((first.type, first.taken) :: above)
  have hname : (normalizeDn server.toLdap target).bind server.name = some above := by
    rw [htarget]
    exact habove
  constructor
  · intro hsurvives
    obtain ⟨moved, hmoved, hguid, hvalue, -⟩ := hsurvives _ hafter
    obtain ⟨other, hother, rfl⟩ := List.mem_map.mp hmoved
    rw [guid_renamed] at hguid
    obtain rfl := List.inj_on_of_nodup_map h.guids hother h.mem hguid
    rw [hrenamed] at hvalue
    exact hvalue.symm
  · intro hvalue after' hafter'
    obtain rfl := Option.some.inj (hafter.symm.trans hafter')
    refine ⟨_, List.mem_map_of_mem h.mem, guid_renamed _ _ _, ?_, ?_⟩
    · rw [hrenamed, hvalue]
      rfl
    · rw [hrenamed, hname]
      rfl

theorem normalizeDn_iff {canonical : String} : normalizeDn server.toLdap dn = some canonical ↔
    (dn ≠ "" ∧ dn.length ≤ 1024) ∧ server.safeDn dn = some canonical ∧
      ∃ base, server.safeDn server.baseDn = some base ∧ (lower canonical = lower base ∨ below canonical base) := by
  unfold normalizeDn
  simp only [Option.bind_eq_bind, Option.bind_eq_some_iff, Option.guard_eq_some', Option.pure_def,
    Option.some.injEq, exists_and_left, exists_const]
  constructor
  · rintro ⟨hlength, canonical', hsafe, base, hbase, hinside, rfl⟩
    exact ⟨hlength, hsafe, base, hbase, hinside⟩
  · rintro ⟨hlength, hsafe, base, hbase, hinside⟩
    exact ⟨hlength, canonical, hsafe, base, hbase, hinside, rfl⟩

theorem normalizeDn_container (hlower : Lowering) (hserver : Rfc4514 server) (hinside : container ≠ [])
    (hfree : ',' ∉ first.text.toList)
    (hdn : normalizeDn server.toLdap (dnText (first :: container)) = some (dnText (first :: container)))
    {base : String} (hbase : server.safeDn server.baseDn = some base)
    (hhead : lower (dnText (first :: container)) ≠ lower base) :
    normalizeDn server.toLdap (dnText container) = some (dnText container) := by
  obtain ⟨⟨-, hlength⟩, hsafe, base', hbase', hbelow⟩ := normalizeDn_iff.mp hdn
  obtain rfl := Option.some.inj (hbase.symm.trans hbase')
  have hfull : dnText container ≠ "" := by
    intro hempty
    have hnone : (Policy.written (container.map Spelled.component)).toList ≠ [] :=
      Policy.written_ne_nil (by simpa using hinside)
    rw [← dnText_eq, hempty] at hnone
    exact hnone rfl
  have hsplit := dnText_cons first hinside
  refine normalizeDn_iff.mpr ⟨⟨hfull, ?_⟩, ?_, base, hbase, ?_⟩
  · rw [hsplit, String.length_append, String.length_append] at hlength
    omega
  · exact hserver.settled _ first.written (dnText container) (hsplit ▸ hsafe) hfull first.whole_written
  · -- The base ends the text after the first comma, or is all of it.
    have hends := hbelow.resolve_left hhead
    have hwritten : ',' ∉ (lower first.written).toList := by
      apply hlower.none ',' (by decide)
      rw [first.toList_written]
      simp [first.not_mem_type ',' (by simp), hfree]
    have hlowered : (lower (dnText (first :: container))).toList =
        (lower first.written).toList ++ ',' :: (lower (dnText container)).toList := by
      have hchars : (first.written ++ "," ++ dnText container).toList =
          first.written.toList ++ ',' :: (dnText container).toList := by simp
      rw [hsplit, hlower.toList_apart (show ',' ∈ Delegation.separators by decide) hchars, String.ofList_toList,
        String.ofList_toList]
    rw [below, Text.endsWith, List.isSuffixOf_iff_suffix, hlowered] at hends
    obtain ⟨earlier, hearlier⟩ := hends
    have hcomma : (("," : String) ++ lower base).toList = ',' :: (lower base).toList := by simp
    rw [hcomma] at hearlier
    rcases List.append_eq_append_iff.mp hearlier with ⟨middle, hmiddle, hrest⟩ | ⟨middle, hmiddle, hrest⟩
    · cases middle with
      | nil => exact .inl (String.toList_inj.mp (List.cons.inj hrest).2.symm)
      | cons c middle =>
          obtain ⟨rfl, -⟩ := List.cons.inj hrest
          exact absurd (hmiddle ▸ List.mem_append_right _ List.mem_cons_self) hwritten
    · cases middle with
      | nil => exact .inl (String.toList_inj.mp (List.cons.inj hrest).2)
      | cons c middle =>
          obtain ⟨rfl, hlater⟩ := List.cons.inj hrest
          right
          rw [below, Text.endsWith, List.isSuffixOf_iff_suffix, hcomma, hlater]
          exact List.suffix_append _ _

theorem get_eq {rdns : List (Spelled server)} (hdn : normalizeDn server.toLdap dn = some (dnText rdns))
    (directory : List Entry) : get server directory dn = find directory (names rdns) := by
  unfold get
  simp only [hdn, Option.bind_eq_bind, Option.bind_some, name_dnText]

theorem delete_eq (h : Holds directory entry first container) (hserver : Rfc4514 server)
    (hdn : normalizeDn server.toLdap dn = some (dnText (first :: container))) {after : List Entry}
    {snapshot : Snapshot} (hdelete : delete server directory dn mutable = some (after, snapshot)) :
    normalizeDn server.toLdap (dnText (first :: container)) = some (dnText (first :: container)) ∧
      (∃ base, server.safeDn server.baseDn = some base ∧ lower (dnText (first :: container)) ≠ lower base) ∧
      after = directory.filter (fun other => folded other.name ≠ folded entry.name) ∧
      snapshot = ⟨dnText (first :: container), parentDn (dnText (first :: container))⟩ := by
  unfold delete assertMutable at hdelete
  rw [hdn] at hdelete
  simp only [Option.bind_eq_bind, Option.bind_some, Option.bind_eq_some_iff, Option.pure_def,
    Option.some.injEq, Option.guard_eq_some'] at hdelete
  obtain ⟨found, hfound, -, ⟨base, hbase, hhead, -⟩, -, -, hresult⟩ := hdelete
  unfold get at hfound
  simp only [Option.bind_eq_bind, Option.bind_eq_some_iff] at hfound
  obtain ⟨canonical, hcanonical, name, hname, hfind⟩ := hfound
  obtain ⟨-, hsafe, -⟩ := normalizeDn_iff.mp hdn
  have hsame : server.safeDn (dnText (first :: container)) = some (dnText (first :: container)) :=
    hserver.idempotent _ _ hsafe
  obtain rfl := Option.some.inj (hsame.symm.trans (normalizeDn_iff.mp hcanonical).2.1)
  rw [name_dnText] at hname
  obtain rfl := Option.some.inj hname
  rw [find_eq h.entries h.mem h.named] at hfind
  obtain rfl := Option.some.inj hfind
  obtain ⟨rfl, rfl⟩ := Prod.mk.inj hresult
  exact ⟨hcanonical, ⟨base, hbase, hhead⟩, rfl, rfl⟩

omit [Runtime] in
theorem parentDn_dnText (h : container ≠ []) (hfree : ',' ∉ first.text.toList) :
    parentDn (dnText (first :: container)) = dnText container := by
  have hcomma : String.singleton ',' = "," := rfl
  have hwritten : ',' ∉ first.written.toList := by
    rw [first.toList_written]
    simp [first.not_mem_type ',' (by simp), hfree]
  have hcut := cut_eq hwritten (dnText container)
  rw [hcomma] at hcut
  rw [parentDn, dnText_cons first h, hcut]
  rfl

theorem refuses_parent (hserver : Rfc4514 server) (h : container ≠ []) (hin : ',' ∈ first.text.toList) :
    normalizeDn server.toLdap (parentDn (dnText (first :: container))) = none := by
  rcases first.split_text with ⟨hnot, -⟩ | ⟨rest, htext, hfree⟩
  · exact absurd hin hnot
  have hchars : first.text.toList = first.taken.toList ++ ',' :: rest.toList := by
    rw [htext]
    simp
  have hcomma : String.singleton ',' = "," := rfl
  have hsplit : dnText (first :: container) =
      (first.type ++ "=" ++ first.taken) ++ "," ++ (rest ++ "," ++ dnText container) := by
    rw [dnText_cons first h, Spelled.written]
    nth_rewrite 1 [htext]
    simp only [String.append_assoc]
  have hwritten : ',' ∉ (first.type ++ "=" ++ first.taken).toList := by
    simp [first.not_mem_type ',' (by simp), hfree]
  have hcut := cut_eq hwritten (rest ++ "," ++ dnText container)
  rw [hcomma] at hcut
  have hparent : parentDn (dnText (first :: container)) = rest ++ "," ++ dnText container := by
    rw [parentDn, hsplit, hcut]
    rfl
  have hrefused : server.safeDn (rest ++ "," ++ dnText container) = none :=
    hserver.refused _ _ (whole_after (hchars ▸ first.whole)) (guarded_after (hchars ▸ first.guarded))
  rw [hparent, Option.eq_none_iff_forall_ne_some]
  intro canonical hcanonical
  rw [(normalizeDn_iff.mp hcanonical).2.1] at hrefused
  cases hrefused

theorem restore_eq (h : Holds directory entry first container) (hlower : Lowering) (hserver : Rfc4514 server)
    (hfree : ',' ∉ first.text.toList)
    (hdn : normalizeDn server.toLdap dn = some (dnText (first :: container))) {after : List Entry}
    {snapshot : Snapshot} (hdelete : delete server directory dn mutable = some (after, snapshot)) (guid : String) :
    restore server after snapshot guid = some (after ++ [⟨guid, names (first :: container)⟩]) := by
  obtain ⟨hcanonical, ⟨base, hbase, hhead⟩, rfl, rfl⟩ := delete_eq h hserver hdn hdelete
  have hparent := normalizeDn_container hlower hserver h.inside hfree hcanonical hbase hhead
  have hwritten : ',' ∉ first.written.toList := by
    rw [first.toList_written]
    simp [first.not_mem_type ',' (by simp), hfree]
  have hfirst : (Text.split ',' (dnText (first :: container))).headD "" = first.written := by
    rw [dnText_cons first h.inside]
    exact headD_split hwritten _
  generalize hleft : directory.filter (fun other => folded other.name ≠ folded entry.name) = left
  have hentries : (left.map fun other => folded other.name).Nodup := by
    rw [← hleft]
    exact (List.filter_sublist.map _).nodup h.entries
  obtain ⟨parent, hmem, hname⟩ := h.parent
  have hkept : parent ∈ left := by
    rw [← hleft]
    refine List.mem_filter.mpr ⟨hmem, decide_eq_true fun heq => ?_⟩
    have hlength := length_of_folded ((hname.symm.trans heq).trans h.named)
    simp [names] at hlength
  have hthere : get server left (dnText container) = some parent :=
    (get_eq hparent left).trans (find_eq hentries hkept hname)
  have hgone : get server left (dnText (first :: container)) = none := by
    rw [get_eq hcanonical, find, List.find?_eq_none, ← hleft]
    intro other hother
    have hne := of_decide_eq_true (List.mem_filter.mp hother).2
    rw [← h.named]
    simpa using hne
  unfold restore
  dsimp only
  rw [parentDn_dnText h.inside hfree, hparent, hfirst]
  simp only [Option.bind_eq_bind, Option.bind_some, hthere]
  rw [← dnText_cons first h.inside, hgone, name_dnText]
  rfl

theorem recycle_survives_iff (h : Holds directory entry first container) (hlower : Lowering)
    (hserver : Rfc4514 server) (hdn : normalizeDn server.toLdap dn = some (dnText (first :: container))) (guid : String)
    (hpasses : Passes server directory dn mutable (.recycle guid) = true) :
    Survives server directory entry dn mutable (.recycle guid) ↔ Plain entry first (.recycle guid) := by
  obtain ⟨⟨after, snapshot⟩, hdelete⟩ := Option.isSome_iff_exists.mp hpasses
  constructor
  · intro hsurvives
    obtain ⟨back, hrestore, -, hvalue, -⟩ := hsurvives after snapshot hdelete
    by_cases hin : ',' ∈ first.text.toList
    · obtain ⟨-, -, -, rfl⟩ := delete_eq h hserver hdn hdelete
      unfold restore at hrestore
      rw [refuses_parent hserver h.inside hin] at hrestore
      cases hrestore
    · refine ⟨hin, ?_⟩
      have hback := hrestore.symm.trans (restore_eq h hlower hserver hin hdn hdelete guid)
      rw [Option.some.injEq, List.append_cancel_left_eq, List.singleton_inj] at hback
      rw [← hvalue, hback]
      rfl
  · rintro ⟨hfree, hvalue⟩ after' snapshot' hdelete'
    refine ⟨⟨guid, names (first :: container)⟩, restore_eq h hlower hserver hfree hdn hdelete' guid, rfl,
      hvalue.symm, ?_⟩
    have hnamed := congrArg (List.drop 1) h.named
    rw [folded, folded, ← List.map_drop, ← List.map_drop] at hnamed
    exact hnamed.symm

/-- An object's name survives a move without a new name exactly when its value is written in it without an escape,
and a deletion followed by restoring it exactly when no comma is written in it. -/
theorem survives_iff (hlower : Lowering) (hserver : Rfc4514 server) (h : Holds directory entry first container)
    (hdn : normalizeDn server.toLdap dn = some (dnText (first :: container))) (op : Op)
    (hpasses : Passes server directory dn mutable op = true) :
    Survives server directory entry dn mutable op ↔ Plain entry first op := by
  cases op with
  | move target =>
      rw [move_survives_iff h hserver hdn hpasses, Plain]
      rcases first.split_text with ⟨-, htaken⟩ | ⟨rest, htext, -⟩
      · rw [htaken]
      · have hin : ',' ∈ first.text.toList := by
          rw [htext]
          simp
        obtain ⟨htext, htaken⟩ := h.ne_value hlower hserver hin
        exact ⟨fun heq => absurd heq htaken, fun heq => absurd heq htext⟩
  | recycle guid => exact recycle_survives_iff h hlower hserver hdn guid hpasses

/-- What is left of a written value without its backslashes. -/
def unescape : List Char → List Char
  | [] => []
  | [c] => [c]
  | c :: next :: rest => if c = '\\' then next :: unescape rest else c :: unescape (next :: rest)

/-- Whether an equals sign has another character than a backslash before it. -/
def freeEqual : Char → List Char → Bool
  | _, [] => false
  | previous, c :: rest => (c = '=' && previous ≠ '\\') || freeEqual c rest

/-- A directory that writes special characters with a backslash. -/
def plainServer (baseDn : String) : Server where
  safeDn := fun dn => if (splitDn dn).all fun part => freeEqual '\\' part.toList then some dn else none
  escapeRdn := Delegation.escapeRdn
  baseDn := baseDn
  value := fun text => if Policy.whole false text.toList then some (String.ofList (unescape text.toList)) else none

section

omit [Runtime]

theorem unescape_flatMap (text : List Char) :
    unescape (text.flatMap fun c => if c ∈ Delegation.special then ['\\', c] else [c]) = text := by
  induction text with
  | nil => rfl
  | cons c text ih =>
      rw [List.flatMap_cons]
      split_ifs with hspecial
      · exact congrArg (List.cons c) ih
      · have hslash : c ≠ '\\' := fun heq => hspecial (heq ▸ by decide)
        cases hrest : text.flatMap fun c => if c ∈ Delegation.special then ['\\', c] else [c] with
        | nil =>
            rw [hrest] at ih
            rw [← ih]
            rfl
        | cons next rest =>
            rw [List.singleton_append, unescape, if_neg hslash, ← hrest, ih]

theorem whole_flatMap (text : List Char) :
    Policy.whole false (text.flatMap fun c => if c ∈ Delegation.special then ['\\', c] else [c]) = true := by
  induction text with
  | nil => rfl
  | cons c text ih =>
      rw [List.flatMap_cons]
      split_ifs with hspecial
      · exact ih
      · rw [whole_append]
        · exact ih
        · intro d hd
          rw [List.mem_singleton.mp hd]
          exact ⟨fun heq => hspecial (heq ▸ by decide), fun heq => hspecial (heq ▸ by decide)⟩

theorem mem_unescape {text : List Char} (h : ',' ∈ text) : ',' ∈ unescape text := by
  induction text using unescape.induct with
  | case1 => exact h
  | case2 c => exact h
  | case3 next rest ih =>
      rw [unescape, if_pos rfl]
      rcases List.mem_cons.mp h with hslash | hmem
      · exact absurd hslash (by decide)
      · rcases List.mem_cons.mp hmem with rfl | hmem
        · exact List.mem_cons_self
        · exact List.mem_cons_of_mem _ (ih hmem)
  | case4 c next rest hslash ih =>
      rw [unescape, if_neg hslash]
      rcases List.mem_cons.mp h with rfl | hmem
      · exact List.mem_cons_self
      · exact List.mem_cons_of_mem _ (ih hmem)

theorem length_unescape (text : List Char) : (unescape text).length ≤ text.length ∧
    (Policy.whole false text = true → '\\' ∈ text → (unescape text).length < text.length) := by
  induction text using unescape.induct with
  | case1 => exact ⟨le_rfl, fun _ hmem => absurd hmem List.not_mem_nil⟩
  | case2 c =>
      refine ⟨le_rfl, fun hwhole hmem => ?_⟩
      rw [← List.mem_singleton.mp hmem] at hwhole
      exact absurd hwhole (by decide)
  | case3 next rest ih =>
      rw [unescape, if_pos rfl]
      have := ih.1
      simp only [List.length_cons]
      exact ⟨by omega, fun _ _ => by omega⟩
  | case4 c next rest hslash ih =>
      rw [unescape, if_neg hslash]
      have := ih.1
      simp only [List.length_cons] at this ⊢
      refine ⟨by omega, fun hwhole hmem => ?_⟩
      rw [Policy.whole, if_neg hslash, Bool.and_eq_true] at hwhole
      have := ih.2 hwhole.2 ((List.mem_cons.mp hmem).resolve_left (Ne.symm hslash))
      simp only [List.length_cons] at this
      omega

theorem freeEqual_of_guarded {text : List Char} (h : Guarded '=' '\\' text) : freeEqual '\\' text = false := by
  have hall : ∀ (rest before : List Char) (previous : Char), text = before ++ rest →
      (before = [] ∧ previous = '\\' ∨ ∃ earlier, before = earlier ++ [previous]) →
      freeEqual previous rest = false := by
    intro rest
    induction rest with
    | nil => exact fun _ _ _ _ => rfl
    | cons c rest ih =>
        intro before previous htext hprevious
        rw [freeEqual, ih (before ++ [c]) c (by rw [htext]; simp) (.inr ⟨before, rfl⟩), Bool.or_false]
        by_cases hequal : c = '='
        · subst hequal
          obtain ⟨earlier, hearlier⟩ := h before rest htext
          rcases hprevious with ⟨-, rfl⟩ | ⟨earlier', hlast⟩
          · rfl
          · rw [hlast] at hearlier
            obtain ⟨-, hlast⟩ := List.append_inj' hearlier rfl
            rw [List.singleton_inj.mp hlast]
            rfl
        · simp [hequal]
  exact hall text [] '\\' rfl (.inl ⟨rfl, rfl⟩)

theorem splitDn_whole {first : String} (h : Policy.whole false first.toList = true) (rest : String) :
    splitDn (first ++ "," ++ rest) = first :: splitDn rest := by
  have hchars : (first ++ "," ++ rest).toList = first.toList ++ ',' :: rest.toList := by simp
  rw [splitDn, splitDn, hchars, Policy.splitDnChars_whole h]
  simp

theorem plainServer_rfc4514 (baseDn : String) : @Rfc4514 Runtime.latin (plainServer baseDn) := by
  let _ := Runtime.latin
  have hsafe : ∀ {dn canonical : String}, (plainServer baseDn).safeDn dn = some canonical →
      ((splitDn dn).all fun part => freeEqual '\\' part.toList) = true ∧ canonical = dn := by
    intro dn canonical h
    unfold plainServer at h
    dsimp only at h
    split_ifs at h with hall
    exact ⟨hall, (Option.some.inj h).symm⟩
  have hvalue : ∀ {text value : String}, (plainServer baseDn).value text = some value →
      Policy.whole false text.toList = true ∧ value = String.ofList (unescape text.toList) := by
    intro text value h
    unfold plainServer at h
    dsimp only at h
    split_ifs at h with hwhole
    exact ⟨hwhole, (Option.some.inj h).symm⟩
  constructor
  · intro value _
    have hwritten : (Delegation.escapeRdn value).toList =
        value.toList.flatMap fun c => if c ∈ Delegation.special then ['\\', c] else [c] := String.toList_ofList
    unfold plainServer
    dsimp only
    rw [hwritten, if_pos (whole_flatMap _), unescape_flatMap, String.ofList_toList]
  · intro text value h hcomma
    rw [(hvalue h).2, String.toList_ofList]
    exact mem_unescape hcomma
  · intro text value h hslash heq
    obtain ⟨hwhole, rfl⟩ := hvalue h
    have hlength := congrArg (fun text : String => text.toList.length) heq
    have hlower : ∀ text : String, (lower text).toList = text.toList.map Char.toLower := fun _ => String.toList_ofList
    simp only [hlower, List.length_map, String.toList_ofList] at hlength
    have := (length_unescape text.toList).2 hwhole hslash
    omega
  · intro dn canonical h
    obtain ⟨-, rfl⟩ := hsafe h
    exact h
  · intro dn first rest h _ hwhole
    obtain ⟨hall, rfl⟩ := hsafe h
    rw [splitDn_whole hwhole, List.all_cons, Bool.and_eq_true] at hall
    exact if_pos hall.2
  · intro text rest hwhole hguarded
    refine if_neg ?_
    rw [splitDn_whole hwhole, List.all_cons, freeEqual_of_guarded hguarded]
    exact Bool.false_ne_true

def corp : Server := plainServer "DC=corp"

theorem plain_of_alphanum {type : String} (h : type.toList.all Char.isAlphanum = true) :
    ∀ c ∈ type.toList, c.isAlphanum = true ∨ c ∈ ['-', '.'] :=
  fun c hc => .inl (List.all_eq_true.mp h c hc)

def ada : Spelled corp := ⟨"CN", "Lovelace\\, Ada", "Lovelace, Ada", by decide, by decide,
  plain_of_alphanum (by decide), by decide, Guarded.of_not_mem (by decide)⟩

def staff : List (Spelled corp) := [
  ⟨"OU", "Staff", "Staff", by decide, by decide, plain_of_alphanum (by decide),
    by decide, Guarded.of_not_mem (by decide)⟩,
  ⟨"DC", "corp", "corp", by decide, by decide, plain_of_alphanum (by decide),
    by decide, Guarded.of_not_mem (by decide)⟩]

def lovelace : Entry := ⟨"g3", [("CN", "Lovelace, Ada"), ("OU", "Staff"), ("DC", "corp")]⟩

def people : List Entry := [⟨"g0", [("DC", "corp")]⟩, ⟨"g1", [("OU", "Staff"), ("DC", "corp")]⟩,
  ⟨"g2", [("OU", "Alumni"), ("DC", "corp")]⟩, lovelace]

theorem lovelace_there : letI := Runtime.latin
    Holds people lovelace ada staff := by
  let _ := Runtime.latin
  exact ⟨by decide, by decide, by decide, by decide, List.cons_ne_nil _ _,
    ⟨"g1", [("OU", "Staff"), ("DC", "corp")]⟩, by decide, by decide⟩

theorem survives_recycle_iff : letI := Runtime.latin
    Survives corp people lovelace "CN=Lovelace\\, Ada,OU=Staff,DC=corp" true (.recycle "g3") ↔
      Plain lovelace ada (.recycle "g3") := by
  let _ := Runtime.latin
  exact survives_iff Delegation.lowering_latin (plainServer_rfc4514 "DC=corp") lovelace_there (by decide)
    (.recycle "g3") (by decide)

theorem comma_lost : letI := Runtime.latin
    ¬ Survives corp people lovelace "CN=Lovelace\\, Ada,OU=Staff,DC=corp" true (.move "OU=Alumni,DC=corp") ∧
      ¬ Survives corp people lovelace "CN=Lovelace\\, Ada,OU=Staff,DC=corp" true (.recycle "g3") := by
  let _ := Runtime.latin
  constructor
  · rw [move_survives_iff lovelace_there (plainServer_rfc4514 "DC=corp") (by decide) (by decide)]
    decide
  · rw [recycle_survives_iff lovelace_there Delegation.lowering_latin (plainServer_rfc4514 "DC=corp")
      (by decide) "g3" (by decide)]
    rintro ⟨hfree, -⟩
    revert hfree
    decide

end

end OpenDirectory.ObjectNames
