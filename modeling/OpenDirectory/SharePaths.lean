import OpenDirectory.FileShares
import OpenDirectory.Lines

/-! Where the directory of a share really is. Both checks read the path as it is written, and the files are reached by the
path without repeated slashes and dots. -/

namespace OpenDirectory.SharePaths

open FileShares (validatePath refuseSystemPath systemPaths forbidden agentOnly Within)

/-- One part of a path after others. -/
def follow (parts : List String) (part : String) : List String :=
  if part = "" ∨ part = "." then parts
  else if part = ".." then parts.dropLast
  else parts ++ [part]

/-- `filepath.Clean` of a path from the root, as the directories on the way. -/
def components (path : String) : List String := (Text.split '/' path).foldl follow []

def written (parts : List String) : String := "/" ++ Text.join "/" parts

def cleanPath (path : String) : String := written (components path)

/-- The directory is none that is protected, not above one, and, the root apart, not below one. -/
def Safe (path : String) : Prop :=
  ∀ directory ∈ systemPaths, ¬ components path <+: components directory ∧
    (directory ≠ "/" → ¬ components directory <+: components path)

/-- What both checks let through is safe to create and to delete. -/
def Guarded (raw : String) : Prop :=
  ∀ path, validatePath raw = .ok path → refuseSystemPath path = false → Safe path

/-- The path passes the agent's check without its repeated slashes and dots as well, and is not above the directory of the
domain. -/
def Plain (raw : String) : Prop :=
  ∀ path, validatePath raw = .ok path → refuseSystemPath path = false →
    refuseSystemPath (cleanPath path) = false ∧ cleanPath path ∉ ["/var", "/var/lib"]

/-- A part of a path that leads somewhere. -/
def Part (part : String) : Prop := part ≠ "" ∧ '/' ∉ part.toList

theorem part_of_mem_components {path part : String} (h : part ∈ components path) : Part part := by
  have hfold : ∀ (texts : List (List Char)) (parts : List String), (∀ part ∈ parts, Part part) →
      (∀ text ∈ texts, '/' ∉ text) → ∀ part ∈ (texts.map String.ofList).foldl follow parts, Part part := by
    intro texts
    induction texts with
    | nil => exact fun parts hparts _ => hparts
    | cons text texts ih =>
        intro parts hparts htexts
        obtain ⟨htext, hrest⟩ := List.forall_mem_cons.mp htexts
        refine ih _ ?_ hrest
        unfold follow
        split
        · exact hparts
        next hne =>
          split
          · exact fun part hpart => hparts part (List.mem_of_mem_dropLast hpart)
          · intro part hpart
            rcases List.mem_append.mp hpart with hpart | hpart
            · exact hparts part hpart
            · rw [List.mem_singleton.mp hpart]
              exact ⟨fun hempty => hne (.inl hempty), by rwa [String.toList_ofList]⟩
  refine hfold (path.toList.splitOn '/') [] (fun _ hpart => absurd hpart List.not_mem_nil) ?_ part h
  intro text htext hslash
  exact absurd ((Text.mem_splitOnP htext).1 '/' hslash) (by decide)

/-- The parts of a path, each after a slash. -/
def chars (parts : List String) : List Char := parts.flatMap fun part => '/' :: part.toList

theorem chars_cons (part : String) (parts : List String) : chars (part :: parts) = '/' :: (part.toList ++ chars parts) :=
  rfl

theorem chars_head (parts : List String) : chars parts = [] ∨ ∃ rest, chars parts = '/' :: rest := by
  cases parts with
  | nil => exact .inl rfl
  | cons part parts => exact .inr ⟨_, rfl⟩

theorem toList_written {parts : List String} (h : parts ≠ []) : (written parts).toList = chars parts := by
  induction parts with
  | nil => exact absurd rfl h
  | cons part parts ih =>
      cases parts with
      | nil => simp [written, chars, Text.join]
      | cons next parts =>
          have hrest := ih (List.cons_ne_nil next parts)
          have hjoin := Text.toList_join_cons '/' part next parts
          have hslash : String.singleton '/' = "/" := rfl
          rw [hslash] at hjoin
          rw [written, String.toList_append] at hrest
          rw [written, String.toList_append, hjoin, chars_cons, ← hrest]
          simp

theorem prefix_iff {parts parts' : List String} (h : ∀ part ∈ parts, Part part) (h' : ∀ part ∈ parts', Part part) :
    parts <+: parts' ↔
      ∃ rest, chars parts' = chars parts ++ rest ∧ (rest = [] ∨ ∃ more, rest = '/' :: more) := by
  constructor
  · intro hprefix
    obtain ⟨more, rfl⟩ := hprefix
    exact ⟨chars more, List.flatMap_append, chars_head more⟩
  · intro hchars
    obtain ⟨rest, heq, hrest⟩ := hchars
    induction parts generalizing parts' with
    | nil => exact List.nil_prefix
    | cons part parts ih =>
        cases parts' with
        | nil => cases heq
        | cons part' parts' =>
            obtain ⟨hpart, hparts⟩ := List.forall_mem_cons.mp h
            obtain ⟨hpart', hparts'⟩ := List.forall_mem_cons.mp h'
            have htail : part'.toList ++ chars parts' = part.toList ++ (chars parts ++ rest) := by
              rw [chars_cons, chars_cons, List.cons_append, List.append_assoc] at heq
              exact (List.cons.inj heq).2
            have hstop : ∀ (text tail : List Char), '/' ∉ text → (tail = [] ∨ ∃ more, tail = '/' :: more) →
                (text ++ tail).takeWhile (· ≠ '/') = text := by
              intro text tail htext htail
              have hplain : ∀ c ∈ text, decide (c ≠ '/') = true := by
                intro c hc
                refine decide_eq_true fun hslash => htext ?_
                rwa [hslash] at hc
              rw [List.takeWhile_append_of_pos hplain]
              rcases htail with rfl | ⟨more, rfl⟩
              · rw [List.takeWhile_nil, List.append_nil]
              · rw [List.takeWhile_cons, if_neg (by simp), List.append_nil]
            have hgoes : chars parts ++ rest = [] ∨ ∃ more, chars parts ++ rest = '/' :: more := by
              rcases chars_head parts with hnil | ⟨more, hmore⟩
              · rw [hnil]
                exact hrest
              · rw [hmore]
                exact .inr ⟨_, rfl⟩
            have hsame := congrArg (List.takeWhile (· ≠ '/')) htail
            rw [hstop _ _ hpart'.2 (chars_head parts'), hstop _ _ hpart.2 hgoes] at hsame
            rw [hsame] at htail
            have hlater := ih hparts hparts' (List.append_cancel_left htail)
            rw [String.toList_inj.mp hsame]
            exact (List.prefix_cons_inj part).mpr hlater

theorem within_written {parts parts' : List String} (h : ∀ part ∈ parts, Part part) (h' : ∀ part ∈ parts', Part part)
    (hne : parts ≠ []) (hne' : parts' ≠ []) :
    (written parts' = written parts ∨ Text.startsWith (written parts') (written parts ++ "/") = true) ↔
      parts <+: parts' := by
  rw [prefix_iff h h', Text.startsWith_iff, String.toList_append, toList_written hne, toList_written hne',
    ← String.toList_inj, toList_written hne, toList_written hne']
  constructor
  · intro hcases
    rcases hcases with heq | ⟨rest, heq⟩
    · exact ⟨[], by rw [heq, List.append_nil], .inl rfl⟩
    · exact ⟨'/' :: rest, by rw [heq, List.append_assoc]; rfl, .inr ⟨rest, rfl⟩⟩
  · intro hrest
    obtain ⟨rest, heq, rfl | ⟨more, rfl⟩⟩ := hrest
    · exact .inl (by rw [heq, List.append_nil])
    · exact .inr ⟨more, by rw [heq, List.append_assoc]; rfl⟩

theorem systemPaths_written : ∀ directory ∈ systemPaths.tail,
    components directory ≠ [] ∧ written (components directory) = directory := by
  decide

theorem last_written {parts : List String} (h : ∀ part ∈ parts, Part part) (hne : parts ≠ []) :
    ∀ c ∈ (written parts).toList.getLast?, decide (c = '/') = false := by
  rw [toList_written hne]
  obtain ⟨before, last, rfl⟩ := List.eq_nil_or_concat parts |>.resolve_left hne
  have hlast : Part last := h last (by simp)
  have hchars : chars (before ++ [last]) = chars before ++ '/' :: last.toList := by
    rw [chars, List.flatMap_append, ← chars]
    simp
  have hlastNe : last.toList ≠ [] := by simpa using hlast.1
  intro c hc
  rw [List.concat_eq_append, hchars, List.getLast?_append_of_ne_nil _ (List.cons_ne_nil _ _),
    List.getLast?_cons_of_ne_nil hlastNe] at hc
  refine decide_eq_false fun hslash => hlast.2 ?_
  rw [← hslash]
  exact List.mem_of_getLast? hc

theorem refuse_cleanPath_iff (path : String) : refuseSystemPath (cleanPath path) = true ↔
    components path = [] ∨ ∃ directory ∈ systemPaths.tail, components directory <+: components path := by
  have hparts : ∀ part ∈ components path, Part part := fun _ => part_of_mem_components
  by_cases hne : components path = []
  · refine iff_of_true ?_ (.inl hne)
    rw [cleanPath, hne]
    decide
  · have hlast := last_written hparts hne
    have hempty : written (components path) ≠ "" := by
      intro hempty
      have hchars := congrArg String.toList hempty
      rw [toList_written hne] at hchars
      obtain ⟨part, rest, hcons⟩ := List.exists_cons_of_ne_nil hne
      rw [hcons] at hchars
      cases hchars
    rw [cleanPath, FileShares.refuseSystemPath_iff hlast hempty, or_iff_right hne]
    have hwithin : Within forbidden.tail (written (components path)) ∨ Within agentOnly (written (components path)) ↔
        ∃ bad ∈ systemPaths.tail, written (components path) = bad ∨
          Text.startsWith (written (components path)) (bad ++ "/") = true := by
      unfold Within
      simp only [FileShares.mem_systemPaths, or_and_right, exists_or]
    rw [hwithin]
    refine exists_congr fun bad => and_congr_right fun hbad => ?_
    obtain ⟨hbadNe, hbadWritten⟩ := systemPaths_written bad hbad
    have hbadParts : ∀ part ∈ components bad, Part part := fun _ => part_of_mem_components
    have hprefix := within_written hbadParts hparts hbadNe hne
    rwa [hbadWritten] at hprefix

theorem above_systemPaths : ∀ directory ∈ systemPaths.tail, ∀ parts ∈ (components directory).inits,
    parts = [] ∨ parts = components directory ∨ written parts ∈ ["/var", "/var/lib"] := by
  decide

theorem above_of_cleanPath {path : String} (h : cleanPath path ∈ ["/var", "/var/lib"]) :
    components path <+: components "/var/lib/samba" := by
  by_cases hne : components path = []
  · rw [hne]
    exact List.nil_prefix
  · have hplain : ∀ parts ∈ [["var"], ["var", "lib"]], parts ≠ [] ∧ (∀ part ∈ parts, Part part) ∧
        parts <+: components "/var/lib/samba" := by
      intro parts hparts
      have hlist : ∀ parts ∈ [["var"], ["var", "lib"]], parts ≠ [] ∧ (parts.all fun part => part ≠ "" && '/' ∉ part.toList) = true ∧
          parts ∈ (components "/var/lib/samba").inits := by decide
      obtain ⟨hnot, hall, hmem⟩ := hlist parts hparts
      refine ⟨hnot, fun part hpart => ?_, (List.mem_inits _ _).mp hmem⟩
      simpa [Part] using List.all_eq_true.mp hall part hpart
    have hsame : ∃ parts ∈ [["var"], ["var", "lib"]], written parts = written (components path) := by
      rcases List.mem_pair.mp h with heq | heq
      · exact ⟨["var"], by decide, heq.symm⟩
      · exact ⟨["var", "lib"], by decide, heq.symm⟩
    obtain ⟨parts, hparts, heq⟩ := hsame
    obtain ⟨hnot, hall, hprefix⟩ := hplain parts hparts
    exact ((within_written (fun _ => part_of_mem_components) hall hne hnot).mp (.inl heq)).trans hprefix

theorem safe_iff (path : String) :
    Safe path ↔ refuseSystemPath (cleanPath path) = false ∧ cleanPath path ∉ ["/var", "/var/lib"] := by
  rw [← Bool.not_eq_true, refuse_cleanPath_iff, not_or]
  constructor
  · intro h
    refine ⟨⟨fun hroot => ?_, fun hwithin => ?_⟩, fun habove => ?_⟩
    · refine (h "/" (by decide)).1 ?_
      rw [hroot]
      exact List.nil_prefix
    · obtain ⟨directory, hdirectory, hprefix⟩ := hwithin
      have hne : directory ≠ "/" := by
        intro heq
        rw [heq] at hdirectory
        exact absurd hdirectory (by decide)
      exact (h directory (List.mem_of_mem_tail hdirectory)).2 hne hprefix
    · exact (h "/var/lib/samba" (by decide)).1 (above_of_cleanPath habove)
  · intro h directory hdirectory
    obtain ⟨⟨hroot, hwithin⟩, habove⟩ := h
    rcases List.mem_cons.mp (show directory ∈ "/" :: systemPaths.tail from hdirectory) with rfl | htail
    · refine ⟨fun hprefix => hroot ?_, fun hne => absurd rfl hne⟩
      exact List.prefix_nil.mp hprefix
    · refine ⟨fun hprefix => ?_, fun _ hprefix => hwithin ⟨directory, htail, hprefix⟩⟩
      rcases above_systemPaths directory htail _ ((List.mem_inits _ _).mpr hprefix) with hnil | hsame | hmem
      · exact hroot hnil
      · exact hwithin ⟨directory, htail, hsame ▸ List.prefix_rfl⟩
      · exact habove hmem

/-- The two checks keep the system out of a share exactly when the path passes the agent's without its repeated slashes and
dots, and is not above the directory of the domain. -/
theorem guarded_iff (raw : String) : Guarded raw ↔ Plain raw := by
  unfold Guarded Plain
  refine forall_congr' fun path => forall_congr' fun _ => forall_congr' fun _ => ?_
  exact safe_iff path

/-- Two slashes lead past both checks. -/
theorem second_slash_passes : ¬ Guarded "//etc" := by
  intro h
  have hsafe := h "//etc" (by decide) (by decide)
  refine (hsafe "/etc" (by decide)).1 ((List.mem_inits _ _).mp ?_)
  decide

end OpenDirectory.SharePaths
