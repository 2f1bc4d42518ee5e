import OpenDirectory.AgentKept

/-! The file pam_oath reads. It is written by what a pass fetches, not by an applier, and a machine
whose stacks name the module while the file is missing lets nobody in. A pass whose fetch fails claims
the file only when it finds none, so the pass after one that fetched takes it away. -/

namespace OpenDirectory.Agent

structure SecondFactor where
  enabled : Bool
  method : String := "code"
  selfEnrol : Bool := false
  services : List String := []
  requirePrincipals : List String := []
  exemptPrincipals : List String := []
  graceDays : Nat := 0

def oathUsersFile : String := "/etc/security/users.oath"

def secondFactorPam : String := "/etc/odm/second-factor.conf"

def enrolledList : String := "/etc/odm/second-factor-enrolled"

def factorGuard : String := "/usr/lib/odm/second-factor-required"

def pushHelper : String := "/usr/lib/odm/second-factor-push"

def factorSince : String := "/var/lib/odm/second-factor-since"

/-- What walks somebody through enrolling: the helper and what it runs as root, the rule that lets it,
and the two halves of the prompt in a session. -/
def enrolment : List String := [
  "/usr/lib/odm/enrol-factor", "/usr/lib/odm/enrol-factor-now", "/etc/sudoers.d/odm-enrol-factor",
  "/usr/lib/odm/enrol-factor-session", "/etc/xdg/autostart/odm-enrol-factor.desktop"]

/-- Where each way in is decided. -/
def secondFactorServices : List (String × List String) := [
  ("login", ["/etc/pam.d/gdm-password", "/etc/pam.d/login"]), ("ssh", ["/etc/pam.d/sshd"]),
  ("sudo", ["/etc/pam.d/sudo"]), ("remote-desktop", ["/etc/pam.d/xrdp-sesman"])]

/-- The pair of lines a stack carries: the guard before pam_oath, or before the phone. -/
inductive FactorLine where
  | oath
  | push
  deriving DecidableEq

def lineOf (method : String) : FactorLine := if method = "push" then .push else .oath

/-- What the stacks carry: none for a service the machine does not have. -/
abbrev PamLines := String → Option (Option FactorLine)

/-- Some stack names the module. -/
def PamLines.Lined (pam : PamLines) : Prop :=
  ∃ service ∈ secondFactorServices, ∃ path ∈ service.2, pam path = some (some .oath)

structure FactorMachine where
  machine : Machine
  pam : PamLines
  lastSerial : String := ""

/-- One pass: the policy it is handed, what it fetches, and how the machine answers. The appliers not
modelled are the calls made before and after the second factor's. -/
structure FactorPass where
  factor : Option SecondFactor
  serial : String
  force : Bool := false
  updateWaiting : Bool := false
  installed : Bool := true
  /-- The lines and phones fetched, none where the control plane did not answer. -/
  fetched : Option (List String × List String)
  goes : Step → Bool := fun _ => true
  scripts : String → String := fun _ => ""
  now : Nat := 0
  early : List Call := []
  late : List Call := []
  othersFail : Bool := false
  removes : String → Bool := fun _ => true
  access : String → Access := fun _ => {}
  saves : Bool := true
  reports : Bool := true

/-- The names of those who have finished, by the method asked for. -/
def enrolledNames (lines phones : List String) (method : String) : List String :=
  let names :=
    if method = "push" then
      (phones.map fun phone => Text.strip goSpace (String.map Char.toLower phone)).filter (· ≠ "")
    else lines.filterMap fun line => (Text.fields goSpace line)[1]?
  names.dedup.sortedBy id

def joinLines (lines : List String) : String :=
  if lines.isEmpty then "" else Text.join "\n" lines ++ "\n"

/-- What the file comes to hold. A machine that asks the phone has no use for anybody's secret. -/
def oathContent (lines : List String) (method : String) : String :=
  joinLines ((if method = "push" then [] else lines).sortedBy id)

/-- The names first, for the prompt to read, and then the file; and whether both were written. -/
def writeOathUsers (goes : Step → Bool) (env : Env) (lines phones : List String) (method : String) :
    Env × Bool :=
  let (env, named) := writeFile (goes ⟨"enrolments", 0, 0⟩) env enrolledList
    (joinLines (enrolledNames lines phones method))
  if !named then (env, false)
  else writeFile (goes ⟨"enrolments", 0, 1⟩) env oathUsersFile (oathContent lines method)

namespace FactorPass

variable (pass : FactorPass)

def enabled : Option SecondFactor := pass.factor.filter (·.enabled)

/-- The fetch of a pass, which leaves the file as it was when it fails; and whether it failed. -/
def fetchSecondFactor (env : Env) : Env × Bool :=
  match pass.enabled with
  | none => (env, false)
  | some factor =>
      match pass.fetched with
      | none => (env, true)
      | some (lines, phones) =>
          let (env, written) := writeOathUsers pass.goes env lines phones factor.method
          (env, !written)

/-- What the fetch put into the file, if it did. -/
def wrote : Option String :=
  pass.enabled.bind fun factor => pass.fetched.bind fun fetched =>
    if pass.goes ⟨"enrolments", 0, 0⟩ && pass.goes ⟨"enrolments", 0, 1⟩ then
      some (oathContent fetched.1 factor.method)
    else none

def factorConf (factor : SecondFactor) : String :=
  header ++ "METHOD=" ++ factor.method ++ "\n" ++
    "SERVICES=" ++ Text.join "," factor.services ++ "\n" ++
    "REQUIRE=" ++ Text.join "," factor.requirePrincipals ++ "\n" ++
    "EXEMPT=" ++ Text.join "," factor.exemptPrincipals ++ "\n" ++
    "GRACE_DAYS=" ++ toString factor.graceDays ++ "\n"

/-- Files written one after another until one is not. -/
def writeAll (env : Env) : List (Step × String × String) → Env × Bool
  | [] => (env, true)
  | (step, path, content) :: files =>
      let (env, went) := writeFile (pass.goes step) env path content
      if went then writeAll env files else (env, false)

/-- Files removed one after another until one is there and stays. -/
def removeAll (files : Files) : List (Step × String) → Files × Bool
  | [] => (files, true)
  | (step, path) :: rest =>
      if (files path).isNone then removeAll files rest
      else if pass.goes step then removeAll (files.remove path) rest
      else (files, false)

def enrolmentSteps : List (Step × String) :=
  enrolment.mapIdx fun index path => (⟨"second_factor", 1, index⟩, path)

/-- What walks somebody through enrolling, put in place or taken away. -/
def writeEnrolment (env : Env) (wanted : Bool) : Env × Bool :=
  if wanted then
    pass.writeAll env (enrolmentSteps.map fun entry => (entry.1, entry.2, pass.scripts entry.2))
  else
    let (files, went) := pass.removeAll env.files enrolmentSteps
    ({ env with files }, went)

def stackStep (path : String) (index : Nat) : Step := ⟨path, 2, index⟩

/-- A stack made to carry a line, the other one taken out first. -/
def addOathLine (path : String) (stack : Option (Option FactorLine)) (line : FactorLine) :
    Option (Option FactorLine) × Bool :=
  match stack with
  | none => (none, true)
  | some carried =>
      if carried = some line then (stack, true)
      else if carried.isSome && !pass.goes (stackStep path 0) then (stack, false)
      else if pass.goes (stackStep path 1) then (some (some line), true)
      else (some none, false)

def removeOathLine (path : String) (stack : Option (Option FactorLine)) :
    Option (Option FactorLine) × Bool :=
  match stack with
  | some (some _) => if pass.goes (stackStep path 0) then (some none, true) else (stack, false)
  | _ => (stack, true)

/-- Every stack given the line or rid of it, whichever the services ask for; and whether all were. -/
def lineStacks (pam : PamLines) (factor : SecondFactor) : PamLines × Bool :=
  let step (path : String) :=
    if secondFactorServices.any fun service => service.1 ∈ factor.services && path ∈ service.2 then
      pass.addOathLine path (pam path) (lineOf factor.method)
    else pass.removeOathLine path (pam path)
  let paths := secondFactorServices.flatMap Prod.snd
  (fun path => if path ∈ paths then (step path).1 else pam path, paths.all fun path => (step path).2)

/-- Everything taken back: the lines, the files they name, and the prompt. -/
def removeSecondFactor (env : Env) (pam : PamLines) : Env × PamLines × Bool :=
  let paths := secondFactorServices.flatMap Prod.snd
  let taken := [oathUsersFile, secondFactorPam, factorGuard, pushHelper].filter fun path =>
    pass.goes ⟨path, 3, 0⟩
  let files := taken.foldl Files.remove env.files
  let (env, went) := pass.writeEnrolment { env with files } false
  (env, fun path => if path ∈ paths then (pass.removeOathLine path (pam path)).1 else pam path,
    (paths.all fun path => (pass.removeOathLine path (pam path)).2) && went)

def factorFiles (factor : SecondFactor) : List (Step × String × String) := [
  (⟨"second_factor", 0, 0⟩, secondFactorPam, factorConf factor),
  (⟨"second_factor", 0, 1⟩, factorGuard, pass.scripts factorGuard),
  (⟨"second_factor", 0, 2⟩, pushHelper, pass.scripts pushHelper)]

/-- The empty file the module needs, where there is none. -/
def ensureUsers (env : Env) : Env × Bool :=
  if (env.files oathUsersFile).isSome then (env, true)
  else writeFile (pass.goes ⟨"second_factor", 0, 3⟩) env oathUsersFile ""

/-- When the machine first heard of the setting, written once. -/
def noteSince (env : Env) : Env :=
  if (env.files factorSince).isSome || !pass.goes ⟨"second_factor", 0, 4⟩ then env
  else { env with files := env.files.put factorSince (toString pass.now ++ "\n") }

def applySecondFactor (env : Env) (pam : PamLines) : Env × PamLines × Bool :=
  match pass.enabled with
  | none => pass.removeSecondFactor env pam
  | some factor =>
      if !pass.installed then (env, pam, true)
      else
        let (env, written) := pass.writeAll (pass.noteSince env) (pass.factorFiles factor)
        if !written then (env, pam, false)
        else
          let (env, there) := pass.ensureUsers env
          if !there then (env, pam, false)
          else
            let (env, prompted) := pass.writeEnrolment env factor.selfEnrol
            if !prompted then (env, pam, false)
            else
              let (pam, lined) := pass.lineStacks pam factor
              (env, pam, lined)

/-- A pass goes ahead unless it has nothing to do. -/
def goesAhead (machine : FactorMachine) : Bool :=
  pass.force || pass.serial ≠ machine.lastSerial || pass.updateWaiting

/-- The environment and the stacks once the appliers are done. -/
def applied (machine : FactorMachine) : Env × PamLines × Bool :=
  let (env, _) := pass.fetchSecondFactor { files := machine.machine.files }
  let (env, pam, went) :=
    pass.applySecondFactor (pass.early.foldl perform env) machine.pam
  (pass.late.foldl perform env, pam, went)

def next (machine : FactorMachine) : FactorMachine :=
  let (env, fetchFailed) := pass.fetchSecondFactor { files := machine.machine.files }
  if !pass.goesAhead machine then
    { machine with machine := { machine.machine with files := env.files } }
  else
    let (env, pam, went) := pass.applied machine
    let after := (prune pass.removes pass.access machine.machine.saved env).1
    { machine := {
        files := after.files
        saved := if pass.saves then after.state else machine.machine.saved }
      pam
      lastSerial :=
        if went && !fetchFailed && !pass.othersFail && pass.reports then pass.serial
        else machine.lastSerial }

/-- An environment in which the file is there and claimed, out of one in which it may not be. -/
structure Claimed (env env' : Env) (content : String) : Prop where
  files : env'.files oathUsersFile = some content
  owned : oathUsersFile ∈ env'.state.owned
  blocks : oathUsersFile ∈ env'.state.blocks ↔ oathUsersFile ∈ env.state.blocks

theorem Claimed.trans {env env' env'' : Env} {content : String} (h : Claimed env env' content)
    (h' : SameAt env' env'' oathUsersFile) : Claimed env env'' content :=
  ⟨h'.files.trans h.files, h'.owned.mpr h.owned, h'.blocks.trans h.blocks⟩

theorem claimed_writeFile (env : Env) (content : String) :
    Claimed env (writeFile true env oathUsersFile content).1 content := by
  have hnever : neverPrune oathUsersFile = false := by decide
  refine ⟨?_, ?_, ?_⟩
  · simp [writeFile, Files.put]
  · simp [writeFile, hnever]
  · simp [writeFile, hnever]

theorem fetchSecondFactor_users (env : Env) :
    (∃ content, pass.wrote = some content ∧ Claimed env (pass.fetchSecondFactor env).1 content) ∨
      pass.wrote = none ∧ SameAt env (pass.fetchSecondFactor env).1 oathUsersFile := by
  unfold fetchSecondFactor wrote
  cases pass.enabled with
  | none => exact .inr ⟨rfl, SameAt.refl env _⟩
  | some factor =>
      cases pass.fetched with
      | none => exact .inr ⟨rfl, SameAt.refl env _⟩
      | some fetched =>
          obtain ⟨lines, phones⟩ := fetched
          have hnames := writeFile_other (pass.goes ⟨"enrolments", 0, 0⟩) env enrolledList
            (joinLines (enrolledNames lines phones factor.method))
            (show oathUsersFile ≠ enrolledList by decide)
          simp only [Option.bind_some, writeOathUsers]
          cases hfirst : pass.goes ⟨"enrolments", 0, 0⟩ with
          | false =>
              rw [hfirst] at hnames
              exact .inr ⟨rfl, hnames⟩
          | true =>
              rw [hfirst] at hnames
              cases hsecond : pass.goes ⟨"enrolments", 0, 1⟩ with
              | false => exact .inr ⟨rfl, hnames⟩
              | true =>
                  have hclaimed := claimed_writeFile (writeFile true env enrolledList
                    (joinLines (enrolledNames lines phones factor.method))).1
                    (oathContent lines factor.method)
                  exact .inl ⟨_, rfl, hclaimed.files, hclaimed.owned,
                    hclaimed.blocks.trans hnames.blocks⟩

theorem writeAll_users {files : List (Step × String × String)}
    (h : ∀ file ∈ files, oathUsersFile ≠ file.2.1) (env : Env) :
    SameAt env (pass.writeAll env files).1 oathUsersFile := by
  induction files generalizing env with
  | nil => exact SameAt.refl env _
  | cons file files ih =>
      obtain ⟨step, path, content⟩ := file
      have hfirst := writeFile_other (pass.goes step) env path content (h _ List.mem_cons_self)
      unfold writeAll
      dsimp only
      split
      · exact hfirst.trans (ih (fun other hother => h other (.tail _ hother)) _)
      · exact hfirst

theorem removeAll_users {paths : List (Step × String)}
    (h : ∀ entry ∈ paths, oathUsersFile ≠ entry.2) (files : Files) :
    (pass.removeAll files paths).1 oathUsersFile = files oathUsersFile := by
  induction paths generalizing files with
  | nil => rfl
  | cons entry paths ih =>
      obtain ⟨step, path⟩ := entry
      have hrest := ih fun other hother => h other (.tail _ hother)
      unfold removeAll
      split
      · exact hrest files
      · split
        · rw [hrest]
          exact Function.update_of_ne (h _ List.mem_cons_self) _ _
        · rfl

theorem writeEnrolment_users (env : Env) (wanted : Bool) :
    SameAt env (pass.writeEnrolment env wanted).1 oathUsersFile := by
  have hpaths : ∀ entry ∈ enrolmentSteps, oathUsersFile ≠ entry.2 := by decide
  unfold writeEnrolment
  split
  · apply writeAll_users pass
    intro file hfile
    obtain ⟨entry, hentry, rfl⟩ := List.mem_map.mp hfile
    exact hpaths entry hentry
  · exact ⟨removeAll_users pass hpaths env.files, Iff.rfl, Iff.rfl⟩

theorem noteSince_users (env : Env) : SameAt env (pass.noteSince env) oathUsersFile := by
  unfold noteSince
  split
  · exact SameAt.refl env _
  · have hother : oathUsersFile ≠ factorSince := by decide
    have hfiles := env.files.put_of_ne hother (toString pass.now ++ "\n")
    exact ⟨hfiles, Iff.rfl, Iff.rfl⟩

/-- Where the setting is on, the applier leaves the file alone or makes an empty one where there is
none, and changes no stack unless the file is there. -/
theorem applySecondFactor_on {factor : SecondFactor} (henabled : pass.enabled = some factor)
    (env : Env) (pam : PamLines) :
    (SameAt env (pass.applySecondFactor env pam).1 oathUsersFile ∨
      env.files oathUsersFile = none ∧ Claimed env (pass.applySecondFactor env pam).1 "") ∧
    ((pass.applySecondFactor env pam).2.1 = pam ∨
      ∃ content, (pass.applySecondFactor env pam).1.files oathUsersFile = some content) := by
  have hpaths : ∀ file ∈ pass.factorFiles factor, oathUsersFile ≠ file.2.1 := by
    have hconf : oathUsersFile ≠ secondFactorPam := by decide
    have hguard : oathUsersFile ≠ factorGuard := by decide
    have hpush : oathUsersFile ≠ pushHelper := by decide
    simp [factorFiles, hconf, hguard, hpush]
  have hwritten := (noteSince_users pass env).trans
    (writeAll_users pass hpaths (pass.noteSince env))
  unfold applySecondFactor
  rw [henabled]
  dsimp only
  split
  · exact ⟨.inl (SameAt.refl env _), .inl rfl⟩
  · generalize hfiles : pass.writeAll (pass.noteSince env) (pass.factorFiles factor) = written at *
    split
    · exact ⟨.inl hwritten, .inl rfl⟩
    · unfold ensureUsers
      cases hthere : written.1.files oathUsersFile with
      | some content =>
          have hprompt := hwritten.trans (writeEnrolment_users pass written.1 factor.selfEnrol)
          simp only [Option.isSome_some, if_true, Bool.not_true, Bool.false_eq_true, if_false]
          split
          · exact ⟨.inl hprompt, .inl rfl⟩
          · refine ⟨.inl hprompt, .inr ⟨content, ?_⟩⟩
            rw [(writeEnrolment_users pass written.1 factor.selfEnrol).files, hthere]
      | none =>
          simp only [Option.isSome_none, Bool.false_eq_true, if_false]
          cases hgoes : pass.goes ⟨"second_factor", 0, 3⟩ with
          | false => exact ⟨.inl hwritten, .inl rfl⟩
          | true =>
              have hmade := claimed_writeFile written.1 ""
              have hprompt := hmade.trans (writeEnrolment_users pass
                (writeFile true written.1 oathUsersFile "").1 factor.selfEnrol)
              have hclaimed : Claimed env _ "" :=
                ⟨hprompt.files, hprompt.owned, hprompt.blocks.trans hwritten.blocks⟩
              have hnone := hwritten.files.symm.trans hthere
              simp only [writeFile_went, Bool.not_true, Bool.false_eq_true, if_false]
              split
              · exact ⟨.inr ⟨hnone, hclaimed⟩, .inr ⟨"", hclaimed.files⟩⟩
              · exact ⟨.inr ⟨hnone, hclaimed⟩, .inr ⟨"", hclaimed.files⟩⟩

/-- Where it is off, the file goes unless it cannot be removed, and with it every line that can be
taken out. -/
theorem removeSecondFactor_users (env : Env) (pam : PamLines) :
    (pass.removeSecondFactor env pam).1.state = env.state ∧
      (pass.goes ⟨oathUsersFile, 3, 0⟩ = false →
        (pass.removeSecondFactor env pam).1.files oathUsersFile = env.files oathUsersFile) ∧
      ((∀ service ∈ secondFactorServices, ∀ path ∈ service.2, ∀ line, pam path = some (some line) →
        pass.goes (stackStep path 0) = true) → ¬ (pass.removeSecondFactor env pam).2.1.Lined) := by
  refine ⟨?_, fun hstays => ?_, fun htaken => ?_⟩
  · simp [removeSecondFactor, writeEnrolment]
  · have hremoved : ∀ (paths : List String) (files : Files), oathUsersFile ∉ paths →
        (paths.foldl Files.remove files) oathUsersFile = files oathUsersFile := by
      intro paths
      induction paths with
      | nil => exact fun _ _ => rfl
      | cons path paths ih =>
          intro files hmem
          rw [List.mem_cons, not_or] at hmem
          rw [List.foldl_cons, ih _ hmem.2]
          exact Function.update_of_ne hmem.1 _ _
    unfold removeSecondFactor
    dsimp only
    rw [(writeEnrolment_users pass _ false).files]
    apply hremoved
    rw [List.mem_filter, hstays]
    simp
  · rintro ⟨service, hservice, path, hpath, hlined⟩
    have hmem : path ∈ secondFactorServices.flatMap Prod.snd :=
      List.mem_flatMap.mpr ⟨service, hservice, hpath⟩
    simp only [removeSecondFactor, hmem, if_true] at hlined
    unfold removeOathLine at hlined
    split at hlined
    · rename_i line hline
      rw [htaken service hservice path hpath line hline] at hlined
      simp at hlined
    · rename_i hnone
      exact hnone _ hlined

theorem lined_removeSecondFactor (env : Env) {pam : PamLines}
    (h : (pass.removeSecondFactor env pam).2.1.Lined) : pam.Lined := by
  obtain ⟨service, hservice, path, hpath, hlined⟩ := h
  have hmem : path ∈ secondFactorServices.flatMap Prod.snd :=
    List.mem_flatMap.mpr ⟨service, hservice, hpath⟩
  refine ⟨service, hservice, path, hpath, ?_⟩
  simp only [removeSecondFactor, hmem, if_true] at hlined
  unfold removeOathLine at hlined
  split at hlined
  · split at hlined
    · simp at hlined
    · exact hlined
  · exact hlined

/-- No other applier touches the file. -/
def Apart : Prop := ∀ call ∈ pass.early ++ pass.late, call.path ≠ oathUsersFile

/-- The last run's claim on the file would not have it taken away. -/
def Spared (saved : State) : Prop :=
  oathUsersFile ∉ saved.owned ∨ pass.removes oathUsersFile = false

/-- A pass that does not take the file away from the stacks that name it: where the setting is on, it
fetched, or there is no file for the applier to leave unclaimed, or the claim of the last run spares
it; where the setting is off, every line there is is taken out, or the file stays. -/
def Sound (machine : FactorMachine) : Prop :=
  pass.goesAhead machine = true →
    (pass.enabled ≠ none → pass.wrote ≠ none ∨ machine.machine.files oathUsersFile = none ∨
      pass.Spared machine.machine.saved) ∧
    (pass.enabled = none →
      (∀ service ∈ secondFactorServices, ∀ path ∈ service.2, ∀ line,
        machine.pam path = some (some line) → pass.goes (stackStep path 0) = true) ∨
      pass.goes ⟨oathUsersFile, 3, 0⟩ = false ∧ pass.Spared machine.machine.saved)

end FactorPass

/-- A machine, and what the last fetch since the setting was on wrote into the file. -/
structure Fetched where
  machine : FactorMachine
  last : Option String := none

namespace Fetched

def next (fetched : Fetched) (pass : FactorPass) : Fetched where
  machine := pass.next fetched.machine
  last := if pass.enabled = none then none else pass.wrote.or fetched.last

def files (fetched : Fetched) : Files := fetched.machine.machine.files

/-- The file is there if a stack names the module, and holds what was fetched last. -/
structure Safe (fetched : Fetched) : Prop where
  there : fetched.machine.pam.Lined → ∃ content, fetched.files oathUsersFile = some content
  holds : ∀ content, fetched.last = some content → fetched.files oathUsersFile = some content
  blocks : oathUsersFile ∉ fetched.machine.machine.saved.blocks

def AllSound : Fetched → List FactorPass → Prop
  | _, [] => True
  | fetched, pass :: passes => pass.Sound fetched.machine ∧ (fetched.next pass).AllSound passes

variable {fetched : Fetched} {pass : FactorPass}

theorem safe_unchanged (h : fetched.Safe) (hstays : pass.goesAhead fetched.machine = false) :
    (fetched.next pass).Safe := by
  have hnext : (fetched.next pass).machine = { fetched.machine with machine :=
      { fetched.machine.machine with files :=
        (pass.fetchSecondFactor { files := fetched.machine.machine.files }).1.files } } := by
    simp [next, FactorPass.next, hstays]
  have hfiles : (fetched.next pass).files =
      (pass.fetchSecondFactor { files := fetched.machine.machine.files }).1.files := by
    rw [files, hnext]
  rcases pass.fetchSecondFactor_users { files := fetched.machine.machine.files } with
    ⟨content, hwrote, hclaimed⟩ | ⟨hwrote, hsame⟩
  · have hcontent : (fetched.next pass).files oathUsersFile = some content := by
      rw [hfiles, hclaimed.files]
    refine ⟨fun _ => ⟨content, hcontent⟩, fun last hlast => ?_, by rw [hnext]; exact h.blocks⟩
    rw [hcontent]
    simp only [next, hwrote, Option.some_or] at hlast
    split at hlast
    · cases hlast
    · exact hlast
  · have hcontent : (fetched.next pass).files oathUsersFile = fetched.files oathUsersFile := by
      rw [hfiles, hsame.files]
      rfl
    refine ⟨fun hlined => ?_, fun last hlast => ?_, by rw [hnext]; exact h.blocks⟩
    · rw [hcontent]
      exact h.there (by rw [hnext] at hlined; exact hlined)
    · rw [hcontent]
      simp only [next, hwrote, Option.none_or] at hlast
      split at hlast
      · cases hlast
      · exact h.holds last hlast

theorem files_next (hahead : pass.goesAhead fetched.machine = true)
    (hblocks : oathUsersFile ∉ (pass.applied fetched.machine).1.state.blocks)
    (hsaved : oathUsersFile ∉ fetched.machine.machine.saved.blocks) :
    (fetched.next pass).machine.pam = (pass.applied fetched.machine).2.1 ∧
      (fetched.next pass).files oathUsersFile =
        (if oathUsersFile ∈ fetched.machine.machine.saved.owned ∧
          Deletes pass.removes (pass.applied fetched.machine).1.state oathUsersFile then none
        else (pass.applied fetched.machine).1.files oathUsersFile) ∧
      oathUsersFile ∉ (fetched.next pass).machine.machine.saved.blocks := by
  have hpruned := prune_files pass.removes pass.access fetched.machine.machine.saved
    (pass.applied fetched.machine).1 oathUsersFile
  have hstate := prune_state pass.removes pass.access fetched.machine.machine.saved
    (pass.applied fetched.machine).1 oathUsersFile
  simp only [hsaved, false_and, if_false] at hpruned
  refine ⟨?_, ?_, ?_⟩
  · simp [next, FactorPass.next, hahead]
  · rw [← hpruned]
    simp [files, next, FactorPass.next, hahead]
  · simp only [next, FactorPass.next, hahead, Bool.not_true, Bool.false_eq_true, if_false]
    split
    · rw [hstate.2]
      exact hblocks
    · exact hsaved

theorem applied_around (happart : pass.Apart) :
    SameAt (pass.fetchSecondFactor { files := fetched.machine.machine.files }).1
        (pass.early.foldl perform
          (pass.fetchSecondFactor { files := fetched.machine.machine.files }).1) oathUsersFile ∧
      SameAt (pass.applySecondFactor (pass.early.foldl perform
          (pass.fetchSecondFactor { files := fetched.machine.machine.files }).1)
          fetched.machine.pam).1 (pass.applied fetched.machine).1 oathUsersFile :=
  ⟨foldl_other (fun call hcall => happart call (List.mem_append_left _ hcall)) _,
    foldl_other (fun call hcall => happart call (List.mem_append_right _ hcall)) _⟩

theorem kept_of_spared {saved : State} (h : pass.Spared saved) (state : State) :
    ¬ (oathUsersFile ∈ saved.owned ∧ Deletes pass.removes state oathUsersFile) := by
  rintro ⟨howned, _, _, hremoves⟩
  rcases h with hunowned | hstays
  · exact hunowned howned
  · rw [hstays] at hremoves
    cases hremoves

theorem deletes_of_owned {env : Env} (h : oathUsersFile ∈ env.state.owned) :
    ¬ Deletes pass.removes env.state oathUsersFile := fun hdeletes => hdeletes.1 (.inl h)

/-- What the appliers leave of the file where the setting is on: what was fetched, or what was there,
or an empty one where there was none. -/
theorem applied_on {factor : SecondFactor} (henabled : pass.enabled = some factor)
    (happart : pass.Apart) :
    ((∃ content, pass.wrote = some content ∧
        (pass.applied fetched.machine).1.files oathUsersFile = some content ∧
          oathUsersFile ∈ (pass.applied fetched.machine).1.state.owned) ∨
      pass.wrote = none ∧
        (pass.applied fetched.machine).1.files oathUsersFile = fetched.files oathUsersFile ∨
      pass.wrote = none ∧ fetched.files oathUsersFile = none ∧
        (pass.applied fetched.machine).1.files oathUsersFile = some "" ∧
          oathUsersFile ∈ (pass.applied fetched.machine).1.state.owned) ∧
    ((pass.applied fetched.machine).2.1 = fetched.machine.pam ∨
      ∃ content, (pass.applied fetched.machine).1.files oathUsersFile = some content) ∧
    oathUsersFile ∉ (pass.applied fetched.machine).1.state.blocks := by
  obtain ⟨hearly, hlate⟩ := @applied_around fetched pass happart
  obtain ⟨husers, hpam⟩ := pass.applySecondFactor_on henabled (pass.early.foldl perform
    (pass.fetchSecondFactor { files := fetched.machine.machine.files }).1) fetched.machine.pam
  have hnoblocks : oathUsersFile ∉ ({ files := fetched.machine.machine.files } : Env).state.blocks :=
    List.not_mem_nil
  refine ⟨?_, hpam.imp id fun ⟨content, hcontent⟩ => ⟨content, hlate.files.trans hcontent⟩, ?_⟩
  · rcases pass.fetchSecondFactor_users { files := fetched.machine.machine.files } with
      ⟨content, hwrote, hclaimed⟩ | ⟨hwrote, hsame⟩
    · have hbefore := hearly.files.trans hclaimed.files
      rcases husers with hkept | ⟨hnone, _⟩
      · have hafter := (hearly.trans hkept).trans hlate
        exact .inl ⟨content, hwrote, hafter.files.trans hclaimed.files,
          hafter.owned.mpr hclaimed.owned⟩
      · rw [hbefore] at hnone
        cases hnone
    · have hbefore := hsame.trans hearly
      rcases husers with hkept | ⟨hnone, hmade⟩
      · exact .inr (.inl ⟨hwrote, ((hbefore.trans hkept).trans hlate).files⟩)
      · exact .inr (.inr ⟨hwrote, hbefore.files.symm.trans hnone, hlate.files.trans hmade.files,
          hlate.owned.mpr hmade.owned⟩)
  · have hfirst : oathUsersFile ∉
        (pass.fetchSecondFactor { files := fetched.machine.machine.files }).1.state.blocks := by
      rcases pass.fetchSecondFactor_users { files := fetched.machine.machine.files } with
        ⟨content, _, hclaimed⟩ | ⟨_, hsame⟩
      · exact hclaimed.blocks.not.mpr hnoblocks
      · exact hsame.blocks.not.mpr hnoblocks
    have hsecond := hearly.blocks.not.mpr hfirst
    rcases husers with hkept | ⟨_, hmade⟩
    · exact hlate.blocks.not.mpr (hkept.blocks.not.mpr hsecond)
    · exact hlate.blocks.not.mpr (hmade.blocks.not.mpr hsecond)

theorem safe_on {factor : SecondFactor} (henabled : pass.enabled = some factor)
    (happart : pass.Apart) (hahead : pass.goesAhead fetched.machine = true) (h : fetched.Safe)
    (hsound : pass.wrote ≠ none ∨ fetched.files oathUsersFile = none ∨
      pass.Spared fetched.machine.machine.saved) : (fetched.next pass).Safe := by
  obtain ⟨husers, hpam, hblocks⟩ := @applied_on fetched pass _ henabled happart
  obtain ⟨hpam', hfiles, hsaved⟩ := files_next hahead hblocks h.blocks
  have hlast : (fetched.next pass).last = pass.wrote.or fetched.last := by
    simp [next, henabled]
  rcases husers with ⟨content, hwrote, hcontent, howned⟩ | ⟨hwrote, hsame⟩ |
    ⟨hwrote, hnone, hempty, howned⟩
  · rw [if_neg fun hdeleted => deletes_of_owned howned hdeleted.2, hcontent] at hfiles
    rw [hwrote, Option.some_or] at hlast
    refine ⟨fun _ => ⟨content, hfiles⟩, fun last hother => ?_, hsaved⟩
    rw [hfiles, ← hlast, hother]
  · rw [hwrote, Option.none_or] at hlast
    cases hbefore : fetched.files oathUsersFile with
    | none =>
        refine ⟨fun hlined => ?_, fun last hother => ?_, hsaved⟩
        · rcases hpam with hpam | ⟨content, hcontent⟩
          · rw [hpam', hpam] at hlined
            obtain ⟨content, hcontent⟩ := h.there hlined
            rw [hbefore] at hcontent
            cases hcontent
          · rw [hsame, hbefore] at hcontent
            cases hcontent
        · rw [hlast] at hother
          rw [h.holds last hother] at hbefore
          cases hbefore
    | some content =>
        have hspared : pass.Spared fetched.machine.machine.saved := by
          rcases hsound with hfetched | hnone | hspared
          · exact absurd hwrote hfetched
          · rw [hbefore] at hnone
            cases hnone
          · exact hspared
        rw [if_neg (kept_of_spared hspared _), hsame, hbefore] at hfiles
        refine ⟨fun _ => ⟨content, hfiles⟩, fun last hother => ?_, hsaved⟩
        rw [hlast] at hother
        rw [hfiles, ← hbefore, h.holds last hother]
  · rw [if_neg fun hdeleted => deletes_of_owned howned hdeleted.2, hempty] at hfiles
    refine ⟨fun _ => ⟨"", hfiles⟩, fun last hother => ?_, hsaved⟩
    rw [hlast, hwrote, Option.none_or] at hother
    rw [h.holds last hother] at hnone
    cases hnone

theorem safe_off (henabled : pass.enabled = none) (happart : pass.Apart)
    (hahead : pass.goesAhead fetched.machine = true) (h : fetched.Safe)
    (hsound : (∀ service ∈ secondFactorServices, ∀ path ∈ service.2, ∀ line,
        fetched.machine.pam path = some (some line) →
          pass.goes (FactorPass.stackStep path 0) = true) ∨
      pass.goes ⟨oathUsersFile, 3, 0⟩ = false ∧ pass.Spared fetched.machine.machine.saved) :
    (fetched.next pass).Safe := by
  obtain ⟨hearly, hlate⟩ := @applied_around fetched pass happart
  have hfetch : (pass.fetchSecondFactor { files := fetched.machine.machine.files }).1 =
      { files := fetched.machine.machine.files } := by
    simp [FactorPass.fetchSecondFactor, henabled]
  have hremove : ∀ env pam, pass.applySecondFactor env pam = pass.removeSecondFactor env pam := by
    intro env pam
    simp [FactorPass.applySecondFactor, henabled]
  rw [hfetch] at hearly hlate
  obtain ⟨hstate, hstays, htaken⟩ := pass.removeSecondFactor_users
    (pass.early.foldl perform { files := fetched.machine.machine.files }) fetched.machine.pam
  rw [hremove] at hlate
  have hblocks : oathUsersFile ∉ (pass.applied fetched.machine).1.state.blocks := by
    rw [hlate.blocks, hstate, hearly.blocks]
    exact List.not_mem_nil
  obtain ⟨hpam', hfiles, hsaved⟩ := files_next hahead hblocks h.blocks
  have hlast : (fetched.next pass).last = none := by
    simp [next, henabled]
  have happlied : (pass.applied fetched.machine).2.1 = (pass.removeSecondFactor
      (pass.early.foldl perform { files := fetched.machine.machine.files }) fetched.machine.pam).2.1 := by
    simp [FactorPass.applied, hfetch, hremove]
  refine ⟨fun hlined => ?_, fun last hother => ?_, hsaved⟩
  · rcases hsound with hall | ⟨hgoes, hspared⟩
    · rw [hpam', happlied] at hlined
      exact absurd hlined (htaken hall)
    · rw [if_neg (kept_of_spared hspared _), hlate.files, hstays hgoes, hearly.files] at hfiles
      by_cases hbefore : fetched.machine.pam.Lined
      · obtain ⟨content, hcontent⟩ := h.there hbefore
        exact ⟨content, hfiles.trans hcontent⟩
      · rw [hpam', happlied] at hlined
        exact absurd (pass.lined_removeSecondFactor _ hlined) hbefore
  · rw [hlast] at hother
    cases hother

theorem safe_next (happart : pass.Apart) (h : fetched.Safe) (hsound : pass.Sound fetched.machine) :
    (fetched.next pass).Safe := by
  cases hahead : pass.goesAhead fetched.machine with
  | false => exact safe_unchanged h hahead
  | true =>
      obtain ⟨hon, hoff⟩ := hsound hahead
      cases henabled : pass.enabled with
      | none => exact safe_off henabled happart hahead h (hoff henabled)
      | some factor =>
          exact safe_on henabled happart hahead h (hon (by rw [henabled]; exact nofun))

/-- After every pass of a sequence of sound ones, the file is there if any stack names pam_oath, and
it holds what the last fetch since the setting was on wrote. -/
theorem users_file_there {start : Fetched} (hstart : start.Safe) {passes : List FactorPass}
    (happart : ∀ pass ∈ passes, pass.Apart) (hsound : start.AllSound passes) :
    ∀ done, done <+: passes →
      let after := done.foldl next start
      after.machine.pam.Lined → ∃ content, after.files oathUsersFile = some content ∧
        ∀ last, after.last = some last → content = last := by
  have hsafe : ∀ passes : List FactorPass, (∀ pass ∈ passes, pass.Apart) → ∀ start : Fetched,
      start.Safe → start.AllSound passes → (passes.foldl next start).Safe := by
    intro passes
    induction passes with
    | nil => exact fun _ _ hstart _ => hstart
    | cons pass passes ih =>
        intro happart start hstart hsound
        exact ih (fun other hother => happart other (.tail _ hother)) _
          (safe_next (happart pass List.mem_cons_self) hstart hsound.1) hsound.2
  intro done hearlier after hlined
  obtain ⟨rest, rfl⟩ := hearlier
  have hdone : start.AllSound done := by
    clear happart hlined after hstart
    induction done generalizing start with
    | nil => trivial
    | cons pass done ih => exact ⟨hsound.1, ih hsound.2⟩
  have hafter : after.Safe :=
    hsafe done (fun pass hpass => happart pass (List.mem_append_left _ hpass)) start hstart hdone
  obtain ⟨content, hcontent⟩ := hafter.there hlined
  refine ⟨content, hcontent, fun last hlast => ?_⟩
  rw [hafter.holds last hlast] at hcontent
  exact (Option.some.inj hcontent).symm

/-- A server with nothing on it yet but sshd. -/
def server : Fetched where
  machine := {
    machine := { files := fun _ => none }
    pam := fun path => if path = "/etc/pam.d/sshd" then some none else none }

theorem safe_server : server.Safe := by
  refine ⟨?_, nofun, List.not_mem_nil⟩
  rintro ⟨service, _, path, _, hlined⟩
  by_cases hpath : path = "/etc/pam.d/sshd" <;> simp [server, hpath] at hlined

/-- A pass over a policy that asks for a code on ssh. -/
def sshPass (serial : String) (fetched : Option (List String × List String)) : FactorPass where
  factor := some { enabled := true, services := ["ssh"] }
  serial
  fetched

def anna : List String := ["HOTP/T30/6 anna - 3132333435"]

theorem users_file_there_ssh :
    let after := [sshPass "1" (some (anna, [])), sshPass "2" (some (anna, []))].foldl next server
    ∃ content, after.files oathUsersFile = some content ∧
      ∀ last, after.last = some last → content = last := by
  have hwrote : ∀ serial, (sshPass serial (some (anna, []))).wrote ≠ none :=
    fun _ => by simp [FactorPass.wrote, FactorPass.enabled, sshPass]
  have hon : ∀ serial, (sshPass serial (some (anna, []))).enabled ≠ none :=
    fun _ => by simp [FactorPass.enabled, sshPass]
  have happart : ∀ pass ∈ [sshPass "1" (some (anna, [])), sshPass "2" (some (anna, []))],
      pass.Apart := by
    intro pass hpass
    simp only [List.mem_cons, List.not_mem_nil, or_false] at hpass
    rcases hpass with rfl | rfl <;> simp [FactorPass.Apart, sshPass]
  have hsound : server.AllSound [sshPass "1" (some (anna, [])), sshPass "2" (some (anna, []))] :=
    ⟨fun _ => ⟨fun _ => .inl (hwrote "1"), fun h => absurd h (hon "1")⟩,
      fun _ => ⟨fun _ => .inl (hwrote "2"), fun h => absurd h (hon "2")⟩, trivial⟩
  exact users_file_there safe_server happart hsound _ (List.prefix_refl _)
    ⟨("ssh", ["/etc/pam.d/sshd"]), by decide, "/etc/pam.d/sshd",
      List.mem_singleton_self _, by decide⟩

/-- A fetch that fails on the pass after one that worked leaves sshd asking a file that is gone. -/
theorem users_file_gone :
    let after := [sshPass "1" (some (anna, [])), sshPass "2" none].foldl next server
    after.machine.pam "/etc/pam.d/sshd" = some (some .oath) ∧
      after.files oathUsersFile = none ∧ after.last ≠ none := by
  decide

end Fetched

end OpenDirectory.Agent
