import OpenDirectory.Dict

/-! Packages that an operator uploaded, as a machine installs them and takes them back. The machine keeps a record of what
it installed for which upload. What a run has no entry for is removed, and an entry that can not be followed just now is no
entry. -/

namespace OpenDirectory.CustomPackages

structure Package where
  name : String
  packageId : String
  state : String := "present"
  keepWhenUnlinked : Bool := false
  packageName : String := ""
  version : String := ""
  unavailable : String := ""

def Package.setting (pkg : Package) : String := "custom_packages:" ++ pkg.name

/-- An entry that is followed and wants its package there. -/
def Package.present (pkg : Package) : Bool := pkg.unavailable = "" && pkg.state ≠ "absent"

def Package.absent (pkg : Package) : Bool := pkg.unavailable = "" && pkg.state = "absent"

structure Installed where
  packageName : String
  version : String
  keep : Bool := false

/-- What is installed, by the upload it came from. -/
abbrev Record := List (String × Installed)

inductive Command where
  | fetch (packageId : String)
  | install (packageId : String)
  | remove (packageName : String)
  deriving DecidableEq

inductive Status where
  | success
  | applied
  | unchanged
  | failed
  deriving DecidableEq

structure Result where
  setting : String
  status : Status
  reason : String

/-- A run under way. What was run stands with whether it went well. -/
structure Machine where
  record : Record
  ran : List (Command × Bool) := []
  results : List Result := []

/-- What is left to chance: how each command ends, with the reason where it fails, and the order in which the record is
gone through. -/
structure Chance where
  fails : Nat → Command → Option String
  order : List String → List String
  perm : ∀ ids, (order ids).Perm ids

variable (chance : Chance)

def removeCustomPackage (machine : Machine) (packageId setting : String) : Machine :=
  match Dict.get machine.record packageId with
  | none => machine
  | some installed =>
      match chance.fails machine.ran.length (.remove installed.packageName) with
      | some reason =>
          { machine with
            ran := machine.ran ++ [(.remove installed.packageName, false)]
            results := machine.results ++ [⟨setting, .failed, "removing " ++ installed.packageName ++ ": " ++ reason⟩] }
      | none =>
          { record := Dict.erase machine.record packageId
            ran := machine.ran ++ [(.remove installed.packageName, true)]
            results := machine.results ++
              [⟨setting, .success, installed.packageName ++ " removed: no longer in policy"⟩] }

def installPackage (machine : Machine) (pkg : Package) : Machine :=
  match chance.fails machine.ran.length (.fetch pkg.packageId) with
  | some reason =>
      { machine with
        ran := machine.ran ++ [(.fetch pkg.packageId, false)]
        results := machine.results ++ [⟨pkg.setting, .failed, "fetching " ++ pkg.name ++ ": " ++ reason⟩] }
  | none =>
      match chance.fails (machine.ran.length + 1) (.install pkg.packageId) with
      | some reason =>
          { machine with
            ran := machine.ran ++ [(.fetch pkg.packageId, true), (.install pkg.packageId, false)]
            results := machine.results ++
              [⟨pkg.setting, .failed, "installing " ++ pkg.packageName ++ ": " ++ reason⟩] }
      | none =>
          { record := Dict.set machine.record pkg.packageId ⟨pkg.packageName, pkg.version, pkg.keepWhenUnlinked⟩
            ran := machine.ran ++ [(.fetch pkg.packageId, true), (.install pkg.packageId, true)]
            results := machine.results ++
              [⟨pkg.setting, .applied, pkg.packageName ++ " " ++ pkg.version ++ " installed"⟩] }

/-- An entry whose package is there may have changed its mind about what happens later. -/
def keepInstalled (machine : Machine) (pkg : Package) (installed : Installed) : Machine where
  record :=
    if installed.keep ≠ pkg.keepWhenUnlinked then
      Dict.set machine.record pkg.packageId { installed with keep := pkg.keepWhenUnlinked }
    else machine.record
  ran := machine.ran
  results := machine.results ++
    [⟨pkg.setting, .unchanged, pkg.packageName ++ " " ++ pkg.version ++ " already installed"⟩]

def applyEntry (machine : Machine) (pkg : Package) : Machine :=
  if pkg.unavailable ≠ "" then
    { machine with results := machine.results ++ [⟨pkg.setting, .failed, pkg.unavailable⟩] }
  else if pkg.state = "absent" then removeCustomPackage chance machine pkg.packageId pkg.setting
  else
    match Dict.get machine.record pkg.packageId with
    | none => installPackage chance machine pkg
    | some installed =>
        if installed.packageName = pkg.packageName && installed.version = pkg.version then
          keepInstalled machine pkg installed
        else installPackage chance machine pkg

def wanted (packages : List Package) : List String := (packages.filter Package.present).map Package.packageId

/-- What is done about one upload on the record when all entries have been gone through. -/
def sweepOne (packages : List Package) (machine : Machine) (packageId : String) : Machine :=
  match Dict.get machine.record packageId with
  | none => machine
  | some installed =>
      if packageId ∈ wanted packages then machine
      else if installed.keep then
        { machine with
          record := Dict.erase machine.record packageId
          results := machine.results ++ [⟨"custom_packages:" ++ installed.packageName, .applied,
            installed.packageName ++ " left installed, as the entry asked"⟩] }
      else removeCustomPackage chance machine packageId ("custom_packages:" ++ installed.packageName)

def applyEntries (packages : List Package) (record : Record) : Machine :=
  packages.foldl (applyEntry chance) { record }

def applyCustomPackages (packages : List Package) (record : Record) : Machine :=
  let machine := applyEntries chance packages record
  (chance.order (Dict.keys machine.record)).foldl (sweepOne chance packages) machine

/-- The package an entry asks for. Of an upload that can not be had, all that is known is what is installed from it. -/
def Asks (record : Record) (pkg : Package) (packageName : String) : Prop :=
  pkg.state ≠ "absent" ∧
    if pkg.unavailable = "" then pkg.packageName = packageName
    else ∃ installed, Dict.get record pkg.packageId = some installed ∧ installed.packageName = packageName

def Asked (packages : List Package) (record : Record) (packageName : String) : Prop :=
  ∃ pkg ∈ packages, Asks record pkg packageName

def Uninstalled (machine : Machine) (packageName : String) : Prop := (Command.remove packageName, true) ∈ machine.ran

def Recorded (machine : Machine) (packageId packageName : String) : Prop :=
  ∃ installed, Dict.get machine.record packageId = some installed ∧ installed.packageName = packageName

/-- However the commands end: nothing that is asked for is uninstalled, and what is not asked for any more, also not by the
entry that installed it, is uninstalled or still on the record. -/
structure Follows (packages : List Package) (record : Record) : Prop where
  never : ∀ chance packageName, Asked packages record packageName →
    ¬ Uninstalled (applyCustomPackages chance packages record) packageName
  taken : ∀ chance packageId installed, Dict.get record packageId = some installed → installed.keep = false →
    ¬ Asked packages record installed.packageName →
    Uninstalled (applyCustomPackages chance packages record) installed.packageName ∨
      Recorded (applyCustomPackages chance packages record) packageId installed.packageName

/-- No package goes by two uploads of which only one is asked for. -/
structure Apart (packages : List Package) (record : Record) : Prop where
  absent : ∀ pkg ∈ packages, pkg.absent = true → ∀ installed, Dict.get record pkg.packageId = some installed →
    ¬ Asked packages record installed.packageName
  later : packages.Pairwise fun earlier later => earlier.present = true → later.absent = true →
    earlier.packageId ≠ later.packageId
  unnamed : ∀ packageId installed, Dict.get record packageId = some installed → packageId ∉ wanted packages →
    installed.keep = false → ¬ Asked packages record installed.packageName
  same : ∀ pkg ∈ packages, pkg.present = true → ∀ installed, Dict.get record pkg.packageId = some installed →
    installed.keep = false → installed.packageName = pkg.packageName ∨ Asked packages record installed.packageName

variable {chance : Chance} {packages : List Package} {record : Record} {machine : Machine} {pkg : Package}

theorem mem_wanted {packageId : String} :
    packageId ∈ wanted packages ↔ ∃ pkg ∈ packages, pkg.present = true ∧ pkg.packageId = packageId := by
  simp only [wanted, List.mem_map, List.mem_filter, and_assoc]

theorem asks_of_present (record : Record) (h : pkg.present = true) : Asks record pkg pkg.packageName := by
  rw [Package.present, Bool.and_eq_true, decide_eq_true_eq, decide_eq_true_eq] at h
  exact ⟨h.2, by rw [if_pos h.1]⟩

variable {installed : Installed} {done : List Package} {worked : Bool}

theorem remove_cases (chance : Chance) (machine : Machine) (packageId setting : String)
    (h : Dict.get machine.record packageId = some installed) :
    ∃ worked : Bool, (removeCustomPackage chance machine packageId setting).ran =
        machine.ran ++ [(.remove installed.packageName, worked)] ∧
      (removeCustomPackage chance machine packageId setting).record =
        (if worked then Dict.erase machine.record packageId else machine.record) ∧
      (worked = true ↔ chance.fails machine.ran.length (.remove installed.packageName) = none) := by
  unfold removeCustomPackage
  rw [h]
  dsimp only
  cases hfails : chance.fails machine.ran.length (.remove installed.packageName) with
  | none => exact ⟨true, rfl, rfl, by simp⟩
  | some reason => exact ⟨false, rfl, rfl, by simp⟩

theorem remove_of_none (chance : Chance) {packageId : String} (setting : String)
    (h : Dict.get machine.record packageId = none) : removeCustomPackage chance machine packageId setting = machine := by
  unfold removeCustomPackage
  rw [h]

/-- Packages can be had. -/
def Fetches (chance : Chance) : Prop :=
  ∀ count packageId, chance.fails count (.fetch packageId) = none ∧ chance.fails count (.install packageId) = none

def FetchesNone (chance : Chance) : Prop := ∀ count packageId, chance.fails count (.fetch packageId) ≠ none

def Removes (chance : Chance) : Prop := ∀ count packageName, chance.fails count (.remove packageName) = none

def RemovesNone (chance : Chance) : Prop := ∀ count packageName, chance.fails count (.remove packageName) ≠ none

theorem install_cases (chance : Chance) (machine : Machine) (pkg : Package) :
    ∃ more, (installPackage chance machine pkg).ran = machine.ran ++ more ∧
      (∀ command ∈ more, ∀ packageName, command.1 ≠ .remove packageName) ∧
      ((installPackage chance machine pkg).record = machine.record ∧ ¬ Fetches chance ∨
        (installPackage chance machine pkg).record =
            Dict.set machine.record pkg.packageId ⟨pkg.packageName, pkg.version, pkg.keepWhenUnlinked⟩ ∧
          ¬ FetchesNone chance) := by
  unfold installPackage
  cases hfetch : chance.fails machine.ran.length (.fetch pkg.packageId) with
  | some reason =>
      refine ⟨_, rfl, by simp, .inl ⟨rfl, fun hfetches => ?_⟩⟩
      rw [(hfetches _ _).1] at hfetch
      cases hfetch
  | none =>
      dsimp only
      cases hinstall : chance.fails (machine.ran.length + 1) (.install pkg.packageId) with
      | some reason =>
          refine ⟨_, rfl, by simp, .inl ⟨rfl, fun hfetches => ?_⟩⟩
          rw [(hfetches _ _).2] at hinstall
          cases hinstall
      | none => exact ⟨_, rfl, by simp, .inr ⟨rfl, fun hnone => hnone _ _ hfetch⟩⟩

theorem present_cases (chance : Chance) (machine : Machine) (h : pkg.present = true) :
    ∃ more, (applyEntry chance machine pkg).ran = machine.ran ++ more ∧
      (∀ command ∈ more, ∀ packageName, command.1 ≠ .remove packageName) ∧
      ((applyEntry chance machine pkg).record = machine.record ∧
          (¬ Fetches chance ∨ Recorded machine pkg.packageId pkg.packageName) ∨
        ∃ installed, (applyEntry chance machine pkg).record = Dict.set machine.record pkg.packageId installed ∧
          installed.packageName = pkg.packageName ∧
          (¬ FetchesNone chance ∨ Recorded machine pkg.packageId pkg.packageName)) := by
  rw [Package.present, Bool.and_eq_true, decide_eq_true_eq, decide_eq_true_eq] at h
  obtain ⟨hhad, hstate⟩ := h
  have hinstall : ∃ more, (installPackage chance machine pkg).ran = machine.ran ++ more ∧
      (∀ command ∈ more, ∀ packageName, command.1 ≠ .remove packageName) ∧
      ((installPackage chance machine pkg).record = machine.record ∧
          (¬ Fetches chance ∨ Recorded machine pkg.packageId pkg.packageName) ∨
        ∃ installed, (installPackage chance machine pkg).record = Dict.set machine.record pkg.packageId installed ∧
          installed.packageName = pkg.packageName ∧
          (¬ FetchesNone chance ∨ Recorded machine pkg.packageId pkg.packageName)) := by
    obtain ⟨more, hran, hmore, ⟨hrecord, hnot⟩ | ⟨hrecord, hnot⟩⟩ := install_cases chance machine pkg
    · exact ⟨more, hran, hmore, .inl ⟨hrecord, .inl hnot⟩⟩
    · exact ⟨more, hran, hmore, .inr ⟨_, hrecord, rfl, .inl hnot⟩⟩
  unfold applyEntry
  rw [if_neg (not_not.mpr hhad), if_neg hstate]
  cases hget : Dict.get machine.record pkg.packageId with
  | none => exact hinstall
  | some installed =>
      dsimp only
      split
      next hsame =>
        rw [Bool.and_eq_true, decide_eq_true_eq, decide_eq_true_eq] at hsame
        have hrecorded : Recorded machine pkg.packageId pkg.packageName := ⟨installed, hget, hsame.1⟩
        refine ⟨[], (List.append_nil _).symm, by simp, ?_⟩
        unfold keepInstalled
        dsimp only
        split
        · exact .inr ⟨_, rfl, hsame.1, .inr hrecorded⟩
        · exact .inl ⟨rfl, .inr hrecorded⟩
      next => exact hinstall

theorem apply_absent (chance : Chance) (machine : Machine) (h : pkg.absent = true) :
    applyEntry chance machine pkg = removeCustomPackage chance machine pkg.packageId pkg.setting := by
  rw [Package.absent, Bool.and_eq_true, decide_eq_true_eq, decide_eq_true_eq] at h
  unfold applyEntry
  rw [if_neg (not_not.mpr h.1), if_pos h.2]

theorem apply_unavailable (chance : Chance) (machine : Machine) (h : pkg.present = false) (h' : pkg.absent = false) :
    (applyEntry chance machine pkg).ran = machine.ran ∧ (applyEntry chance machine pkg).record = machine.record := by
  have hunavailable : pkg.unavailable ≠ "" := by
    intro heq
    simp [Package.present, Package.absent, heq] at h h'
    exact h' h
  unfold applyEntry
  rw [if_pos hunavailable]
  exact ⟨rfl, rfl⟩

theorem sweep_cases (chance : Chance) (packages : List Package) {packageId : String}
    (h : Dict.get machine.record packageId = some installed) :
    packageId ∈ wanted packages ∧ sweepOne chance packages machine packageId = machine ∨
    packageId ∉ wanted packages ∧ installed.keep = true ∧
      (sweepOne chance packages machine packageId).ran = machine.ran ∧
      (sweepOne chance packages machine packageId).record = Dict.erase machine.record packageId ∨
    packageId ∉ wanted packages ∧ installed.keep = false ∧ sweepOne chance packages machine packageId =
      removeCustomPackage chance machine packageId ("custom_packages:" ++ installed.packageName) := by
  unfold sweepOne
  rw [h]
  dsimp only
  by_cases hwanted : packageId ∈ wanted packages
  · rw [if_pos hwanted]
    exact .inl ⟨hwanted, rfl⟩
  · rw [if_neg hwanted]
    right
    cases hkeep : installed.keep with
    | true => exact .inl ⟨hwanted, rfl, rfl, rfl⟩
    | false => exact .inr ⟨hwanted, rfl, rfl⟩

theorem sweep_of_none (chance : Chance) (packages : List Package) {packageId : String}
    (h : Dict.get machine.record packageId = none) : sweepOne chance packages machine packageId = machine := by
  unfold sweepOne
  rw [h]

/-- What is on the record was there before, or comes from an entry that was gone through. -/
def Traced (record : Record) (done : List Package) (machine : Machine) : Prop :=
  ∀ packageId installed, Dict.get machine.record packageId = some installed →
    Dict.get record packageId = some installed ∨
      ∃ pkg ∈ done, pkg.present = true ∧ pkg.packageId = packageId ∧ installed.packageName = pkg.packageName

theorem Traced.erase (h : Traced record done machine) {machine' : Machine} {packageId : String}
    (hrecord : machine'.record = Dict.erase machine.record packageId) : Traced record done machine' := by
  intro id installed hget
  rw [hrecord, Dict.get_erase] at hget
  split at hget
  · cases hget
  · exact h id installed hget

theorem Traced.remove (h : Traced record done machine) (chance : Chance)
    (packageId setting : String) : Traced record done (removeCustomPackage chance machine packageId setting) := by
  cases hget : Dict.get machine.record packageId with
  | none =>
      rw [remove_of_none chance setting hget]
      exact h
  | some installed =>
      obtain ⟨worked, -, hrecord, -⟩ := remove_cases chance machine packageId setting hget
      cases worked with
      | false =>
          intro id other hother
          rw [hrecord] at hother
          exact h id other hother
      | true => exact h.erase hrecord

theorem Traced.entry (h : Traced record done machine) (chance : Chance) (pkg : Package) :
    Traced record (done ++ [pkg]) (applyEntry chance machine pkg) := by
  have hmore : Traced record (done ++ [pkg]) machine := by
    intro id installed hget
    rcases h id installed hget with hbefore | ⟨other, hother, hrest⟩
    · exact .inl hbefore
    · exact .inr ⟨other, List.mem_append_left _ hother, hrest⟩
  cases hpresent : pkg.present with
  | true =>
      obtain ⟨more, -, -, hrecord⟩ := present_cases chance machine hpresent
      intro id other hother
      rcases hrecord with ⟨hrecord, -⟩ | ⟨installed, hrecord, hname, -⟩
      · rw [hrecord] at hother
        exact hmore id other hother
      · rw [hrecord, Dict.get_set] at hother
        split at hother
        next hid =>
          rw [← Option.some.inj hother]
          exact .inr ⟨pkg, List.mem_append_right _ List.mem_cons_self, hpresent, hid, hname⟩
        next => exact hmore id other hother
  | false =>
      cases habsent : pkg.absent with
      | true =>
          rw [apply_absent chance machine habsent]
          exact hmore.remove chance _ _
      | false =>
          intro id other hother
          rw [(apply_unavailable chance machine hpresent habsent).2] at hother
          exact hmore id other hother

theorem applyEntries_append (chance : Chance) (done : List Package) (pkg : Package) (record : Record) :
    applyEntries chance (done ++ [pkg]) record = applyEntry chance (applyEntries chance done record) pkg := by
  rw [applyEntries, List.foldl_append]
  rfl

theorem traced_entries (chance : Chance) (done : List Package) (record : Record) :
    Traced record done (applyEntries chance done record) := by
  induction done using List.reverseRecOn with
  | nil => exact fun _ _ hget => .inl hget
  | append_singleton done pkg ih =>
      rw [applyEntries_append]
      exact ih.entry chance pkg

theorem Traced.sweep (h : Traced record done machine) (chance : Chance) (packages : List Package)
    (packageId : String) : Traced record done (sweepOne chance packages machine packageId) := by
  cases hget : Dict.get machine.record packageId with
  | none =>
      rw [sweep_of_none chance packages hget]
      exact h
  | some installed =>
      rcases sweep_cases chance packages hget with ⟨-, hsame⟩ | ⟨-, -, -, hrecord⟩ | ⟨-, -, hremove⟩
      · rw [hsame]
        exact h
      · exact h.erase hrecord
      · rw [hremove]
        exact h.remove chance _ _

theorem Traced.eq_of_unwanted (h : Traced record packages machine) {packageId : String} {other : Installed}
    (hunwanted : packageId ∉ wanted packages) (hbefore : Dict.get record packageId = some installed)
    (hnow : Dict.get machine.record packageId = some other) : other = installed := by
  rcases h packageId other hnow with hother | ⟨pkg, hmem, hpresent, hid, -⟩
  · exact Option.some.inj (hother.symm.trans hbefore)
  · exact absurd (mem_wanted.mpr ⟨pkg, hmem, hpresent, hid⟩) hunwanted

theorem mem_ran_remove {id setting packageName : String}
    (h : (Command.remove packageName, worked) ∈ (removeCustomPackage chance machine id setting).ran) :
    (Command.remove packageName, worked) ∈ machine.ran ∨ ∃ installed, Dict.get machine.record id = some installed ∧
      packageName = installed.packageName ∧ (worked = true → ¬ RemovesNone chance) := by
  cases hget : Dict.get machine.record id with
  | none =>
      rw [remove_of_none chance setting hget] at h
      exact .inl h
  | some installed =>
      obtain ⟨worked', hran, -, hworked⟩ := remove_cases chance machine id setting hget
      rw [hran] at h
      rcases List.mem_append.mp h with h | h
      · exact .inl h
      · obtain ⟨hcommand, rfl⟩ := Prod.mk.inj (List.mem_singleton.mp h)
        exact .inr ⟨installed, rfl, Command.remove.inj hcommand, fun htrue hnone => hnone _ _ (hworked.mp htrue)⟩

theorem mem_ran_entry {packageName : String}
    (h : (Command.remove packageName, worked) ∈ (applyEntry chance machine pkg).ran) :
    (Command.remove packageName, worked) ∈ machine.ran ∨ pkg.absent = true ∧ ∃ installed,
      Dict.get machine.record pkg.packageId = some installed ∧ packageName = installed.packageName ∧
        (worked = true → ¬ RemovesNone chance) := by
  cases hpresent : pkg.present with
  | true =>
      obtain ⟨more, hran, hnone, -⟩ := present_cases chance machine hpresent
      rw [hran] at h
      rcases List.mem_append.mp h with h | h
      · exact .inl h
      · exact absurd rfl (hnone _ h packageName)
  | false =>
      cases habsent : pkg.absent with
      | true =>
          rw [apply_absent chance machine habsent] at h
          exact (mem_ran_remove h).imp_right fun hremoved => ⟨rfl, hremoved⟩
      | false =>
          rw [(apply_unavailable chance machine hpresent habsent).1] at h
          exact .inl h

theorem mem_ran_sweep {id packageName : String}
    (h : (Command.remove packageName, worked) ∈ (sweepOne chance packages machine id).ran) :
    (Command.remove packageName, worked) ∈ machine.ran ∨ id ∉ wanted packages ∧ ∃ installed,
      Dict.get machine.record id = some installed ∧ installed.keep = false ∧ packageName = installed.packageName ∧
        (worked = true → ¬ RemovesNone chance) := by
  cases hget : Dict.get machine.record id with
  | none =>
      rw [sweep_of_none chance packages hget] at h
      exact .inl h
  | some installed =>
      rcases sweep_cases chance packages hget with ⟨-, hsame⟩ | ⟨-, -, hran, -⟩ | ⟨hunwanted, hkeep, hremove⟩
      · rw [hsame] at h
        exact .inl h
      · rw [hran] at h
        exact .inl h
      · rw [hremove] at h
        rcases mem_ran_remove h with h | ⟨other, hother, hname, hworked⟩
        · exact .inl h
        · obtain rfl := Option.some.inj (hget.symm.trans hother)
          exact .inr ⟨hunwanted, installed, rfl, hkeep, hname, hworked⟩

/-- Nothing that is asked for was taken back. -/
def Spared (packages : List Package) (record : Record) (machine : Machine) : Prop :=
  ∀ packageName worked, (Command.remove packageName, worked) ∈ machine.ran → ¬ Asked packages record packageName

theorem Spared.entry (h : Spared packages record machine) (htraced : Traced record done machine)
    (chance : Chance) (hapart : Apart packages record) (hahead : done ++ [pkg] <+: packages) :
    Spared packages record (applyEntry chance machine pkg) := by
  have hmem : pkg ∈ packages := hahead.subset (List.mem_append_right _ List.mem_cons_self)
  intro packageName worked hcommand
  rcases mem_ran_entry hcommand with hbefore | ⟨habsent, installed, hget, rfl, -⟩
  · exact h packageName worked hbefore
  · rcases htraced _ installed hget with hbefore | ⟨other, hother, hotherPresent, hid, -⟩
    · exact hapart.absent pkg hmem habsent installed hbefore
    · -- no entry before this one has asked for the same upload
      have hlater := hapart.later.sublist hahead.sublist
      have hne := (List.pairwise_append.mp hlater).2.2 other hother pkg List.mem_cons_self hotherPresent habsent
      exact absurd hid hne

theorem spared_entries (chance : Chance) (hapart : Apart packages record) (h : done <+: packages) :
    Spared packages record (applyEntries chance done record) := by
  induction done using List.reverseRecOn with
  | nil => exact fun _ _ hmem => absurd hmem List.not_mem_nil
  | append_singleton done pkg ih =>
      rw [applyEntries_append]
      exact (ih ((List.prefix_append done [pkg]).trans h)).entry (traced_entries chance done record) chance hapart h

theorem Spared.sweep (h : Spared packages record machine) (htraced : Traced record packages machine) (chance : Chance)
    (hapart : Apart packages record) (packageId : String) :
    Spared packages record (sweepOne chance packages machine packageId) := by
  intro packageName worked hcommand
  rcases mem_ran_sweep hcommand with hbefore | ⟨hunwanted, installed, hget, hkeep, rfl, -⟩
  · exact h packageName worked hbefore
  · rcases htraced packageId installed hget with hbefore | ⟨pkg, hmem, hpresent, hid, -⟩
    · exact hapart.unnamed packageId installed hbefore hunwanted hkeep
    · exact absurd (mem_wanted.mpr ⟨pkg, hmem, hpresent, hid⟩) hunwanted

theorem spared_run (chance : Chance) (hapart : Apart packages record) :
    Spared packages record (applyCustomPackages chance packages record) := by
  have hboth : Traced record packages (applyCustomPackages chance packages record) ∧
      Spared packages record (applyCustomPackages chance packages record) := by
    refine List.foldlRecOn (motive := fun machine => Traced record packages machine ∧ Spared packages record machine)
      _ _ ?_ ?_
    · exact ⟨traced_entries chance packages record, spared_entries chance hapart List.prefix_rfl⟩
    · intro machine h id _
      exact ⟨h.1.sweep chance packages id, h.2.sweep h.1 chance hapart id⟩
  exact hboth.2

/-- A package that came from an upload was taken back, or is on the record still. -/
def Held (machine : Machine) (packageId packageName : String) : Prop :=
  Uninstalled machine packageName ∨ Recorded machine packageId packageName

variable {packageId packageName : String}

theorem Uninstalled.remove (h : Uninstalled machine packageName) (chance : Chance) (id setting : String) :
    Uninstalled (removeCustomPackage chance machine id setting) packageName := by
  cases hget : Dict.get machine.record id with
  | none =>
      rw [remove_of_none chance setting hget]
      exact h
  | some installed =>
      obtain ⟨worked, hran, -⟩ := remove_cases chance machine id setting hget
      rw [Uninstalled, hran]
      exact List.mem_append_left _ h

theorem Uninstalled.entry (h : Uninstalled machine packageName) (chance : Chance) (pkg : Package) :
    Uninstalled (applyEntry chance machine pkg) packageName := by
  cases hpresent : pkg.present with
  | true =>
      obtain ⟨more, hran, -⟩ := present_cases chance machine hpresent
      rw [Uninstalled, hran]
      exact List.mem_append_left _ h
  | false =>
      cases habsent : pkg.absent with
      | true =>
          rw [apply_absent chance machine habsent]
          exact h.remove chance _ _
      | false =>
          rw [Uninstalled, (apply_unavailable chance machine hpresent habsent).1]
          exact h

theorem Uninstalled.sweep (h : Uninstalled machine packageName) (chance : Chance) (packages : List Package) (id : String) :
    Uninstalled (sweepOne chance packages machine id) packageName := by
  cases hget : Dict.get machine.record id with
  | none =>
      rw [sweep_of_none chance packages hget]
      exact h
  | some installed =>
      rcases sweep_cases chance packages hget with ⟨-, hsame⟩ | ⟨-, -, hran, -⟩ | ⟨-, -, hremove⟩
      · rw [hsame]
        exact h
      · rw [Uninstalled, hran]
        exact h
      · rw [hremove]
        exact h.remove chance _ _

theorem Uninstalled.run {before after : List Package} (h : Uninstalled (applyEntries chance before record) packageName)
    (hpackages : packages = before ++ after) :
    Uninstalled (applyCustomPackages chance packages record) packageName := by
  have hentries : Uninstalled (applyEntries chance packages record) packageName := by
    rw [hpackages, applyEntries, List.foldl_append]
    exact List.foldlRecOn (motive := (Uninstalled · packageName)) _ _ h fun _ h pkg _ => h.entry chance pkg
  exact List.foldlRecOn (motive := (Uninstalled · packageName)) _ _ hentries fun _ h id _ => h.sweep chance packages id

theorem Held.remove (h : Held machine packageId packageName) (chance : Chance) (id setting : String) :
    Held (removeCustomPackage chance machine id setting) packageId packageName := by
  rcases h with h | h
  · exact .inl (h.remove chance id setting)
  · cases hget : Dict.get machine.record id with
    | none =>
        rw [remove_of_none chance setting hget]
        exact .inr h
    | some installed =>
        obtain ⟨worked, hran, hrecord, -⟩ := remove_cases chance machine id setting hget
        obtain ⟨other, hother, hname⟩ := h
        cases worked with
        | false =>
            right
            exact ⟨other, by rw [hrecord]; exact hother, hname⟩
        | true =>
            by_cases hid : id = packageId
            · subst hid
              obtain rfl := Option.some.inj (hget.symm.trans hother)
              left
              rw [Uninstalled, hran, hname]
              exact List.mem_append_right _ List.mem_cons_self
            · right
              refine ⟨other, ?_, hname⟩
              rw [hrecord, if_pos rfl, Dict.get_erase, if_neg hid]
              exact hother

theorem Held.uninstalled (h : Held machine packageId packageName) (hremoves : Removes chance) (setting : String) :
    Uninstalled (removeCustomPackage chance machine packageId setting) packageName := by
  rcases h with h | ⟨installed, hget, hname⟩
  · exact h.remove chance packageId setting
  · obtain ⟨worked, hran, -, hworked⟩ := remove_cases chance machine packageId setting hget
    rw [Uninstalled, hran, hworked.mpr (hremoves _ _), hname]
    exact List.mem_append_right _ List.mem_cons_self

theorem Held.entry (h : Held machine packageId packageName)
    (hpkg : pkg.present = true → pkg.packageId = packageId → FetchesNone chance) :
    Held (applyEntry chance machine pkg) packageId packageName := by
  cases hpresent : pkg.present with
  | true =>
      rcases h with h | ⟨installed, hget, hname⟩
      · exact .inl (h.entry chance pkg)
      · right
        obtain ⟨more, -, -, ⟨hrecord, -⟩ | ⟨other, hrecord, hother, hrecorded⟩⟩ := present_cases chance machine hpresent
        · exact ⟨installed, by rw [hrecord]; exact hget, hname⟩
        · by_cases hid : pkg.packageId = packageId
          · refine ⟨other, by rw [hrecord, hid]; exact Dict.get_set_self _ _ _, ?_⟩
            rcases hrecorded with hnot | ⟨found, hfound, hfoundName⟩
            · exact absurd (hpkg hpresent hid) hnot
            · rw [hid, hget] at hfound
              rw [hother, ← hfoundName, ← Option.some.inj hfound, hname]
          · refine ⟨installed, ?_, hname⟩
            rw [hrecord, Dict.get_set_of_ne _ _ hid]
            exact hget
  | false =>
      cases habsent : pkg.absent with
      | true =>
          rw [apply_absent chance machine habsent]
          exact h.remove chance _ _
      | false =>
          obtain ⟨hran, hrecord⟩ := apply_unavailable chance machine hpresent habsent
          rcases h with h | ⟨installed, hget, hname⟩
          · exact .inl (h.entry chance pkg)
          · exact .inr ⟨installed, by rw [hrecord]; exact hget, hname⟩

theorem Held.sweep (h : Held machine packageId packageName) (chance : Chance) (packages : List Package) (id : String)
    (hkeep : packageId ∈ wanted packages ∨
      ∀ installed, Dict.get machine.record packageId = some installed → installed.keep = false) :
    Held (sweepOne chance packages machine id) packageId packageName := by
  cases hget : Dict.get machine.record id with
  | none =>
      rw [sweep_of_none chance packages hget]
      exact h
  | some installed =>
      rcases sweep_cases chance packages hget with ⟨-, hsame⟩ | ⟨hnone, hforgets, -, hrecord⟩ | ⟨-, -, hremove⟩
      · rw [hsame]
        exact h
      · rcases h with h | ⟨other, hother, hname⟩
        · exact .inl (h.sweep chance packages id)
        · have hid : id ≠ packageId := by
            intro hid
            subst hid
            rcases hkeep with hwanted | hkeep
            · exact hnone hwanted
            · rw [hkeep installed hget] at hforgets
              cases hforgets
          right
          refine ⟨other, ?_, hname⟩
          rw [hrecord, Dict.get_erase, if_neg hid]
          exact hother
      · rw [hremove]
        exact h.remove chance _ _

theorem held_entries (chance : Chance) {done : List Package} {start : Machine} (h : Held start packageId packageName)
    (hdone : ∀ pkg ∈ done, pkg.present = true → pkg.packageId = packageId → FetchesNone chance) :
    Held (done.foldl (applyEntry chance) start) packageId packageName :=
  List.foldlRecOn (motive := (Held · packageId packageName)) _ _ h fun _ h pkg hpkg => h.entry (hdone pkg hpkg)

theorem held_start {installed : Installed} (h : Dict.get record packageId = some installed) :
    Held { record } packageId installed.packageName :=
  .inr ⟨installed, h, rfl⟩

theorem held_unwanted (chance : Chance) {installed : Installed} (h : Dict.get record packageId = some installed)
    (hunwanted : packageId ∉ wanted packages) (hkeep : installed.keep = false) (ids : List String) :
    Traced record packages (ids.foldl (sweepOne chance packages) (applyEntries chance packages record)) ∧
      Held (ids.foldl (sweepOne chance packages) (applyEntries chance packages record)) packageId
        installed.packageName := by
  refine List.foldlRecOn
    (motive := fun machine => Traced record packages machine ∧ Held machine packageId installed.packageName) _ _ ?_ ?_
  · refine ⟨traced_entries chance packages record, held_entries chance (held_start h) fun pkg hpkg hpresent hid => ?_⟩
    exact absurd (mem_wanted.mpr ⟨pkg, hpkg, hpresent, hid⟩) hunwanted
  · intro machine hmachine id _
    refine ⟨hmachine.1.sweep chance packages id, hmachine.2.sweep chance packages id (.inr fun other hother => ?_)⟩
    rw [hmachine.1.eq_of_unwanted hunwanted h hother]
    exact hkeep

theorem follows_of_apart (h : Apart packages record) : Follows packages record := by
  constructor
  · intro chance packageName hasked huninstalled
    exact spared_run chance h packageName true huninstalled hasked
  · intro chance packageId installed hget hkeep hasked
    have hunwanted : packageId ∉ wanted packages := by
      intro hwanted
      obtain ⟨pkg, hpkg, hpresent, rfl⟩ := mem_wanted.mp hwanted
      rcases h.same pkg hpkg hpresent installed hget hkeep with hname | hother
      · exact hasked ⟨pkg, hpkg, hname ▸ asks_of_present record hpresent⟩
      · exact hasked hother
    exact (held_unwanted chance hget hunwanted hkeep _).2

def Chance.of (works : Command → Bool) : Chance where
  fails _ command := if works command then none else some ""
  order := id
  perm := List.Perm.refl

def Command.isRemove : Command → Bool
  | .remove _ => true
  | _ => false

/-- Nothing can be had, and what is to be taken back is. -/
def away : Chance := .of Command.isRemove

theorem away_fetches : FetchesNone away := fun _ _ h => nomatch h

theorem away_removes : Removes away := fun _ _ => rfl

def smooth : Chance := .of fun _ => true

/-- Everything can be had, and nothing is let go. -/
def stuck : Chance := .of fun command => !command.isRemove

theorem stuck_removes : RemovesNone stuck := fun _ _ h => nomatch h

theorem absent_of_follows (h : Follows packages record) :
    ∀ pkg ∈ packages, pkg.absent = true → ∀ installed, Dict.get record pkg.packageId = some installed →
      ¬ Asked packages record installed.packageName := by
  intro pkg hpkg habsent installed hget hasked
  obtain ⟨before, after, hpackages⟩ := List.append_of_mem hpkg
  refine h.never away installed.packageName hasked (Uninstalled.run ?_ (hpackages.trans (by simp) : packages = (before ++ [pkg]) ++ after))
  have hheld : Held (applyEntries away before record) pkg.packageId installed.packageName :=
    held_entries away (held_start hget) fun _ _ _ _ => away_fetches
  rw [applyEntries_append, apply_absent away _ habsent]
  exact hheld.uninstalled away_removes pkg.setting

theorem held_present (chance : Chance) (record : Record) {earlier : Package} (hearlier : earlier ∈ packages)
    (hpresent : earlier.present = true) (hfetches : Fetches chance) (before : List Package) {after : List Package}
    (hafter : after ⊆ packages) :
    ∃ pkg ∈ packages, pkg.present = true ∧ pkg.packageId = earlier.packageId ∧
      Held (applyEntries chance (before ++ earlier :: after) record) earlier.packageId pkg.packageName := by
  have hhere : ∀ (machine : Machine) (pkg : Package), pkg.present = true →
      Recorded (applyEntry chance machine pkg) pkg.packageId pkg.packageName := by
    intro machine pkg hpkg
    obtain ⟨more, -, -, ⟨hrecord, hrecorded⟩ | ⟨installed, hrecord, hname, -⟩⟩ := present_cases chance machine hpkg
    · obtain ⟨installed, hget, hname⟩ := hrecorded.resolve_left (not_not.mpr hfetches)
      exact ⟨installed, by rw [hrecord]; exact hget, hname⟩
    · exact ⟨installed, by rw [hrecord]; exact Dict.get_set_self _ _ _, hname⟩
  have hstart : applyEntries chance (before ++ earlier :: after) record =
      after.foldl (applyEntry chance) (applyEntry chance (applyEntries chance before record) earlier) := by
    rw [applyEntries, List.foldl_append]
    rfl
  rw [hstart]
  refine List.foldlRecOn (motive := fun machine => ∃ pkg ∈ packages, pkg.present = true ∧
    pkg.packageId = earlier.packageId ∧ Held machine earlier.packageId pkg.packageName) _ _ ?_ ?_
  · exact ⟨earlier, hearlier, hpresent, rfl, .inr (hhere _ _ hpresent)⟩
  · intro machine hmachine other hother
    by_cases hsame : other.present = true ∧ other.packageId = earlier.packageId
    · refine ⟨other, hafter hother, hsame.1, hsame.2, .inr ?_⟩
      rw [← hsame.2]
      exact hhere machine other hsame.1
    · obtain ⟨pkg, hpkg, hpkgPresent, hid, hheld⟩ := hmachine
      exact ⟨pkg, hpkg, hpkgPresent, hid, hheld.entry fun hotherPresent hotherId => absurd ⟨hotherPresent, hotherId⟩ hsame⟩

theorem later_of_follows (h : Follows packages record) : packages.Pairwise fun earlier later =>
    earlier.present = true → later.absent = true → earlier.packageId ≠ later.packageId := by
  refine List.pairwise_iff_forall_sublist.mpr fun {earlier later} hsublist hpresent habsent hid => ?_
  obtain ⟨first, second, hpackages, hearlier, hlater⟩ := List.cons_sublist_iff.mp hsublist
  obtain ⟨before, between, rfl⟩ := List.append_of_mem hearlier
  obtain ⟨middle, after, rfl⟩ := List.append_of_mem (List.singleton_sublist.mp hlater)
  have hsplit : packages = (before ++ earlier :: (between ++ middle) ++ [later]) ++ after := by simp [hpackages]
  have hmem : earlier ∈ packages := by simp [hpackages]
  have hsubset : between ++ middle ⊆ packages := by
    intro pkg hpkg
    simp only [hpackages, List.mem_append, List.mem_cons] at hpkg ⊢
    tauto
  obtain ⟨pkg, hpkg, hpkgPresent, -, hheld⟩ := held_present smooth record hmem hpresent
    (fun _ _ => ⟨rfl, rfl⟩) before hsubset
  refine h.never smooth pkg.packageName ⟨pkg, hpkg, asks_of_present record hpkgPresent⟩ (Uninstalled.run ?_ hsplit)
  rw [applyEntries_append, apply_absent smooth _ habsent, ← hid]
  exact hheld.uninstalled (fun _ _ => rfl) later.setting

theorem unnamed_of_follows (h : Follows packages record) :
    ∀ packageId installed, Dict.get record packageId = some installed → packageId ∉ wanted packages →
      installed.keep = false → ¬ Asked packages record installed.packageName := by
  intro packageId installed hget hunwanted hkeep hasked
  have hentries := held_unwanted away hget hunwanted hkeep []
  refine h.never away installed.packageName hasked ?_
  rcases hentries.2 with huninstalled | ⟨other, hother, hname⟩
  · exact huninstalled.run (List.append_nil packages).symm
  · have hkey : packageId ∈ Dict.keys (applyEntries away packages record).record :=
      Dict.get_isSome_iff.mp (Option.isSome_of_mem hother)
    obtain ⟨before, after, hids⟩ := List.append_of_mem hkey
    have hrun : applyCustomPackages away packages record = after.foldl (sweepOne away packages)
        (sweepOne away packages (before.foldl (sweepOne away packages) (applyEntries away packages record)) packageId) := by
      have horder : away.order (Dict.keys (applyEntries away packages record).record) = before ++ packageId :: after := hids
      rw [applyCustomPackages, horder, List.foldl_append]
      rfl
    obtain ⟨htraced, hheld⟩ := held_unwanted away hget hunwanted hkeep before
    have hhere : Uninstalled (sweepOne away packages
        (before.foldl (sweepOne away packages) (applyEntries away packages record)) packageId) installed.packageName := by
      rcases hheld with huninstalled | ⟨other, hother, hname⟩
      · exact huninstalled.sweep away packages packageId
      · have hother' := htraced.eq_of_unwanted hunwanted hget hother
        rcases sweep_cases away packages hother with ⟨hwanted, -⟩ | ⟨-, hforgets, -⟩ | ⟨-, -, hremove⟩
        · exact absurd hwanted hunwanted
        · rw [hother', hkeep] at hforgets
          cases hforgets
        · rw [hremove]
          exact Held.uninstalled (.inr ⟨other, hother, hname⟩) away_removes _
    rw [hrun]
    exact List.foldlRecOn (motive := (Uninstalled · installed.packageName)) _ _ hhere
      fun _ hmachine id _ => hmachine.sweep away packages id

theorem same_of_follows (h : Follows packages record) :
    ∀ pkg ∈ packages, pkg.present = true → ∀ installed, Dict.get record pkg.packageId = some installed →
      installed.keep = false → installed.packageName = pkg.packageName ∨ Asked packages record installed.packageName := by
  intro earlier hearlier hpresent installed hget hkeep
  right
  by_contra hasked
  have hnone : ∀ packageName, ¬ Uninstalled (applyCustomPackages stuck packages record) packageName := by
    have hentries : ∀ packageName, ¬ Uninstalled (applyEntries stuck packages record) packageName := by
      refine List.foldlRecOn (motive := fun machine => ∀ packageName, ¬ Uninstalled machine packageName) _ _
        (fun _ => List.not_mem_nil) fun machine hmachine pkg _ packageName huninstalled => ?_
      rcases mem_ran_entry huninstalled with hbefore | ⟨-, installed, -, -, hworked⟩
      · exact hmachine packageName hbefore
      · exact hworked rfl stuck_removes
    refine List.foldlRecOn (motive := fun machine => ∀ packageName, ¬ Uninstalled machine packageName) _ _ hentries
      fun machine hmachine id _ packageName huninstalled => ?_
    rcases mem_ran_sweep huninstalled with hbefore | ⟨-, installed, -, -, -, hworked⟩
    · exact hmachine packageName hbefore
    · exact hworked rfl stuck_removes
  have htaken := (h.taken stuck earlier.packageId installed hget hkeep hasked).resolve_left (hnone _)
  obtain ⟨before, after, hpackages⟩ := List.append_of_mem hearlier
  have hafter : after ⊆ packages := by
    rw [hpackages]
    exact fun pkg hpkg => List.mem_append_right _ (List.mem_cons_of_mem _ hpkg)
  obtain ⟨pkg, hpkg, hpkgPresent, hid, hheld⟩ := held_present stuck record hearlier hpresent
    (fun _ _ => ⟨rfl, rfl⟩) before hafter
  rw [← hpackages] at hheld
  have hend : Held (applyCustomPackages stuck packages record) earlier.packageId pkg.packageName :=
    List.foldlRecOn (motive := (Held · earlier.packageId pkg.packageName)) _ _ hheld fun _ hmachine id _ =>
      hmachine.sweep stuck packages id (.inl (mem_wanted.mpr ⟨earlier, hearlier, hpresent, rfl⟩))
  obtain ⟨found, hfound, hname⟩ := hend.resolve_left (hnone _)
  obtain ⟨other, hother, hotherName⟩ := htaken
  obtain rfl := Option.some.inj (hfound.symm.trans hother)
  exact hasked ⟨pkg, hpkg, by rw [← hotherName, hname]; exact asks_of_present record hpkgPresent⟩

/-- A run keeps what is asked for, and takes back or remembers the rest, exactly when no package goes by several uploads
of which only one is asked for. -/
theorem follows_iff_apart (packages : List Package) (record : Record) :
    Follows packages record ↔ Apart packages record :=
  ⟨fun h => ⟨absent_of_follows h, later_of_follows h, unnamed_of_follows h, same_of_follows h⟩, follows_of_apart⟩

/-- An upload that can not be had for a while is uninstalled. -/
theorem unavailable_is_removed :
    ¬ Follows [{ name := "Editor", packageId := "u1", unavailable := "this package was removed from the console" }]
      [("u1", { packageName := "editor", version := "1.0" })] := by
  intro h
  refine h.never smooth "editor" ?_ ?_
  · exact ⟨_, List.mem_cons_self, by decide, by rw [if_neg (by decide)]; exact ⟨_, rfl, rfl⟩⟩
  · rw [Uninstalled]
    decide

end OpenDirectory.CustomPackages
