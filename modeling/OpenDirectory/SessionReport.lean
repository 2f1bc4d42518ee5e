import OpenDirectory.AgentApply
import OpenDirectory.Dict

/-! What a session reports of the drives and the files it was to give somebody. The problems come back as texts, and
are matched to their entries by what stands before the first colon. -/

namespace OpenDirectory.SessionReport

open Agent (Result ok fail goSpace)

/-- What stands before the first colon of a text. -/
def label (text : String) : Option String := (Text.cut ':' text).map Prod.fst

/-- One problem told: the last of an entry's, and those that are matched to none. -/
def matchProblem (wanted : List String) (told : List (String × String) × List String) (text : String) :
    List (String × String) × List String :=
  match label text with
  | some name => if name ∈ wanted then (Dict.set told.1 name text, told.2) else (told.1, told.2 ++ [text])
  | none => (told.1, told.2 ++ [text])

def sessionResults (category : String) (wanted : List String) (problems : List String) : List Result :=
  let (failed, unmatched) := problems.foldl (matchProblem wanted) ([], [])
  wanted.map (fun name =>
    match Dict.get failed name with
    | some reason => fail (category ++ ":" ++ name) reason
    | none => ok (category ++ ":" ++ name)) ++ unmatched.map (fail category)

structure DriveMap where
  name : String
  mountPoint : String
  forPrincipal : String := ""

structure RemoteDesktopFile where
  name : String
  forPrincipal : String := ""

/-- How the machine answers while a session is set up. What is asked for the entries of a list is asked for one after
another, so an answer is given by the place in it. -/
structure Session where
  user : String
  uid : Option Nat := some 1000
  home : String := "/home/user"
  appliesTo : String → Bool := fun _ => true
  ticket : Bool := true
  mounted : Nat → Bool := fun _ => false
  makeDirectory : Nat → Option String := fun _ => none
  mount : Nat → Option (String × String) := fun _ => none
  bookmark : Nat → Option String := fun _ => none
  driveMaps : List String := []
  detach : String → Option String := fun _ => none
  write : Nat → Option String := fun _ => none
  files : List String := []
  pathOf : String → String := fun name => name ++ ".rdp"
  remove : String → Option String := fun _ => none

/-- A problem, and which of the entries it arose for; what is taken away is none of them. -/
structure Problem where
  owner : Option Nat
  text : String
  deriving DecidableEq

def problemsOf (endsWith : Nat → String → Option String) (names : List String) : List Problem :=
  names.zipIdx.filterMap fun entry => (endsWith entry.2 entry.1).map fun text => ⟨some entry.2, text⟩

def goneFrom (was wanted : List String) : List String := was.filter fun name => name ∉ wanted

/-- How the attempt to give somebody a drive ends. -/
inductive Ending where
  | attached
  | directory (error : String)
  | ticket
  | mount (error output : String)
  | bookmark (error : String)

def explain (output : String) : String :=
  if Text.holds output "Required key not available" then
    " — the mount could not read this person's Kerberos ticket. It has to be a file the kernel can find by uid: " ++
      "krb5_ccname_template = FILE:/tmp/krb5cc_%U in sssd.conf, and a matching default_ccache_name in krb5.conf. " ++
      "Re-running the domain join writes both."
  else if Text.holds output "Permission denied" then
    " — the ticket was read and the server refused it. Check the share's own permissions for this person."
  else if Text.holds output "No such device" || Text.holds output "Unable to find suitable" then
    " — cifs support is missing on this machine (cifs-utils and keyutils)."
  else if Text.holds output "Connection refused" || Text.holds output "No route to host" ||
      Text.holds output "Name or service not known" then
    " — the file server could not be reached from this machine."
  else ""

def lastLine (output : String) : String := ((Text.split '\n' (Text.strip goSpace output)).getLast?).getD ""

/-- The text of the problem, which begins with the drive's name but for the directory it is mounted on. -/
def Ending.problem (user name : String) : Ending → Option String
  | .attached => none
  | .directory error => some error
  | .ticket => some (name ++ (": " ++ user ++ " has no Kerberos ticket in this session, so nothing can be mounted " ++
      "with sec=krb5. klist is empty: whatever authenticated them did not ask the domain for one. Check that pam_sss " ++
      "or pam_winbind runs at sign-in and that the machine was not offline"))
  | .mount error output => some (name ++ (": " ++ error ++ ": " ++ Text.strip goSpace (lastLine output) ++ explain output))
  | .bookmark error => some (name ++ (": " ++ "adding it to the file manager: " ++ error))

def Session.marked (session : Session) (index : Nat) : Ending :=
  match session.bookmark index with
  | some error => .bookmark error
  | none => .attached

def Session.ending (session : Session) (index : Nat) : Ending :=
  if session.mounted index then session.marked index
  else match session.makeDirectory index with
    | some error => .directory error
    | none =>
        if !session.ticket then .ticket
        else match session.mount index with
          | some (error, output) => .mount error output
          | none => session.marked index

def Session.drives (session : Session) (drives : List DriveMap) : List DriveMap :=
  drives.filter fun drive => session.appliesTo drive.forPrincipal

def mountedNames (session : Session) (drives : List DriveMap) : List String := (session.drives drives).map DriveMap.name

/-- Whether there is an account that gets anything at all. -/
def Session.isPerson (session : Session) : Bool := session.uid.any fun uid => 1000 ≤ uid

def detaching (point error : String) : String := "detaching " ++ point ++ ": " ++ error

def mountDriveMaps (session : Session) (drives : List DriveMap) : List Problem :=
  if (drives = [] ∧ session.driveMaps = []) ∨ session.isPerson = false then []
  else
    problemsOf (fun index name => (session.ending index).problem session.user name) (mountedNames session drives) ++
      (goneFrom session.driveMaps ((session.drives drives).map DriveMap.mountPoint)).filterMap fun point =>
        (session.detach point).map fun error => ⟨none, detaching point error⟩

def Session.rdpFiles (session : Session) (files : List RemoteDesktopFile) : List RemoteDesktopFile :=
  files.filter fun file => session.appliesTo file.forPrincipal

def fileNames (session : Session) (files : List RemoteDesktopFile) : List String :=
  (session.rdpFiles files).map RemoteDesktopFile.name

def removing (path error : String) : String := "removing " ++ path ++ ": " ++ error

/-- The files that are written, where they go. -/
def Session.written (session : Session) (files : List RemoteDesktopFile) : List String :=
  (fileNames session files).zipIdx.filterMap fun entry =>
    if (session.write entry.2).isNone then some (session.pathOf entry.1) else none

/-- What this person had and no longer gets. -/
def Session.gone (session : Session) (files : List RemoteDesktopFile) : List String :=
  (goneFrom session.files (session.written files)).filter fun path => Text.startsWith path session.home

def deployRemoteDesktopFiles (session : Session) (files : List RemoteDesktopFile) : List Problem :=
  if (files = [] ∧ session.files = []) ∨ session.isPerson = false then []
  else
    problemsOf (fun index name => (session.write index).map fun error => name ++ (": " ++ error)) (fileNames session files) ++
      (session.gone files).filterMap fun path => (session.remove path).map fun error => ⟨none, removing path error⟩

/-- An entry is reported as successful when no problem arose for it, each problem stands once, against its own entry, and
what is no entry's stands behind the entries. -/
structure Truthful (category : String) (names : List String) (problems : List Problem) (results : List Result) : Prop where
  succeeds : ∀ index name, names[index]? = some name →
    (results[index]? = some (ok (category ++ ":" ++ name)) ↔ ∀ problem ∈ problems, problem.owner ≠ some index)
  own : ∀ problem ∈ problems, ∀ index, problem.owner = some index → ∃ name, names[index]? = some name ∧
    results[index]? = some (fail (category ++ ":" ++ name) problem.text)
  others : results.drop names.length =
    (problems.filter fun problem => problem.owner = none).map fun problem => fail category problem.text

/-- What stands before the colon names the entry of each problem and of no other; entries of one name end alike. -/
structure Told (names : List String) (problems : List Problem) : Prop where
  named : ∀ problem ∈ problems, ∀ index, problem.owner = some index → label problem.text = names[index]?
  alike : ∀ problem ∈ problems, ∀ index other, problem.owner = some index → names[other]? = names[index]? →
    ∃ same ∈ problems, same.owner = some other ∧ same.text = problem.text
  others : ∀ problem ∈ problems, problem.owner = none → ∀ name ∈ names, label problem.text ≠ some name

/-- The last of the texts under a name. -/
def lastOf (texts : List String) (name : String) : Option String :=
  (texts.filter fun text => label text = some name).getLast?

theorem lastOf_cons (text : String) (texts : List String) (name : String) :
    lastOf (text :: texts) name = (lastOf texts name).or (if label text = some name then some text else none) := by
  unfold lastOf
  rw [List.filter_cons]
  by_cases hlabel : label text = some name
  · rw [if_pos (decide_eq_true hlabel), if_pos hlabel, List.getLast?_cons]
    cases (texts.filter fun text => label text = some name).getLast? with
    | none => rfl
    | some last => rfl
  · rw [if_neg (by simpa using hlabel), if_neg hlabel, Option.or_none]

theorem lastOf_eq_some {texts : List String} {name text : String} (h : lastOf texts name = some text) :
    text ∈ texts ∧ label text = some name := by
  have hmem := List.mem_filter.mp (List.mem_of_getLast? h)
  exact ⟨hmem.1, of_decide_eq_true hmem.2⟩

theorem lastOf_eq_none {texts : List String} {name : String} :
    lastOf texts name = none ↔ ∀ text ∈ texts, label text ≠ some name := by
  rw [lastOf, List.getLast?_eq_none_iff, List.filter_eq_nil_iff]
  simp only [decide_eq_true_eq, ne_eq]

def isMatched (wanted : List String) (text : String) : Bool := (label text).any fun name => name ∈ wanted

theorem foldl_matchProblem (wanted texts : List String) (told : List (String × String) × List String) :
    (texts.foldl (matchProblem wanted) told).2 = told.2 ++ texts.filter (fun text => !isMatched wanted text) ∧
      ∀ name ∈ wanted, Dict.get (texts.foldl (matchProblem wanted) told).1 name =
        (lastOf texts name).or (Dict.get told.1 name) := by
  induction texts generalizing told with
  | nil =>
      refine ⟨(List.append_nil _).symm, fun name _ => ?_⟩
      rfl
  | cons text texts ih =>
      rw [List.foldl_cons, (ih _).1]
      refine ⟨?_, fun name hname => ?_⟩
      · cases hlabel : label text with
        | none => simp [matchProblem, isMatched, hlabel]
        | some other =>
            by_cases hother : other ∈ wanted
            · simp [matchProblem, isMatched, hlabel, hother]
            · simp [matchProblem, isMatched, hlabel, hother]
      · rw [(ih _).2 name hname, lastOf_cons, Option.or_assoc]
        congr 1
        cases hlabel : label text with
        | none => simp [matchProblem, hlabel]
        | some other =>
            by_cases hother : other ∈ wanted
            · by_cases hsame : other = name
              · subst hsame
                simp [matchProblem, hlabel, hother]
              · simp [matchProblem, hlabel, hother, Dict.get_set_of_ne, hsame]
            · have hsame : other ≠ name := fun heq => hother (heq ▸ hname)
              simp [matchProblem, hlabel, hother, hsame]

section
variable {category : String} {names texts : List String}

theorem sessionResults_getElem? {index : Nat} {name : String} (h : names[index]? = some name) :
    (sessionResults category names texts)[index]? = some (match lastOf texts name with
      | some reason => fail (category ++ ":" ++ name) reason
      | none => ok (category ++ ":" ++ name)) := by
  have hlength : index < names.length := (List.getElem?_eq_some_iff.mp h).1
  have hlast := (foldl_matchProblem names texts ([], [])).2 name (List.mem_of_getElem? h)
  have hempty : Dict.get ([] : List (String × String)) name = none := rfl
  rw [hempty, Option.or_none] at hlast
  unfold sessionResults
  rw [List.getElem?_append_left (by rw [List.length_map]; exact hlength), List.getElem?_map, h, Option.map_some, hlast]

theorem drop_sessionResults : (sessionResults category names texts).drop names.length =
    (texts.filter fun text => !isMatched names text).map (fail category) := by
  unfold sessionResults
  rw [List.drop_left' (List.length_map _), (foldl_matchProblem names texts ([], [])).1]
  rfl

end

/-- The entries' own problems, one at most of each. -/
structure Sound (names : List String) (problems : List Problem) : Prop where
  within : ∀ problem ∈ problems, ∀ index, problem.owner = some index → index < names.length
  once : ∀ problem ∈ problems, ∀ other ∈ problems, ∀ index, problem.owner = some index → other.owner = some index →
    problem.text = other.text

section
variable {category : String} {names : List String} {problems : List Problem}

theorem fail_ne_ok (setting reason : String) : fail setting reason ≠ ok setting := by
  intro heq
  have hstatus := congrArg Result.status heq
  cases hstatus

theorem line_eq {index : Nat} {name reason : String} (hname : names[index]? = some name) :
    (sessionResults category names (problems.map Problem.text))[index]? = some (fail (category ++ ":" ++ name) reason) ↔
      lastOf (problems.map Problem.text) name = some reason := by
  rw [sessionResults_getElem? hname, Option.some.injEq]
  cases lastOf (problems.map Problem.text) name with
  | none => exact iff_of_false (fun heq => fail_ne_ok _ _ heq.symm) (Option.some_ne_none _).symm
  | some last =>
      constructor
      · exact fun heq => congrArg some (congrArg Result.reason heq)
      · exact fun heq => congrArg (fail _) (Option.some.inj heq)

theorem line_ok {index : Nat} {name : String} (hname : names[index]? = some name) :
    (sessionResults category names (problems.map Problem.text))[index]? = some (ok (category ++ ":" ++ name)) ↔
      lastOf (problems.map Problem.text) name = none := by
  rw [sessionResults_getElem? hname, Option.some.injEq]
  cases lastOf (problems.map Problem.text) name with
  | none => exact iff_of_true rfl rfl
  | some last => exact iff_of_false (fail_ne_ok _ _) (Option.some_ne_none _)

theorem told_of_truthful (hsound : Sound names problems)
    (h : Truthful category names problems (sessionResults category names (problems.map Problem.text))) :
    Told names problems := by
  have hnamed : ∀ problem ∈ problems, ∀ index, problem.owner = some index → label problem.text = names[index]? := by
    intro problem hproblem index howner
    obtain ⟨name, hname, hline⟩ := h.own problem hproblem index howner
    rw [hname]
    exact (lastOf_eq_some ((line_eq hname).mp hline)).2
  refine ⟨hnamed, fun problem hproblem index other howner hsame => ?_, fun problem hproblem hnone name hname hlabel => ?_⟩
  · obtain ⟨name, hname, hline⟩ := h.own problem hproblem index howner
    have hother := hsame.trans hname
    have hline : (sessionResults category names (problems.map Problem.text))[other]? =
        some (fail (category ++ ":" ++ name) problem.text) := (line_eq hother).mpr ((line_eq hname).mp hline)
    have hfailed : ¬ ∀ problem ∈ problems, problem.owner ≠ some other := by
      rw [← h.succeeds other name hother, hline, Option.some.injEq]
      exact fail_ne_ok _ _
    push Not at hfailed
    obtain ⟨same, hmem, hown⟩ := hfailed
    obtain ⟨name', hname', hline'⟩ := h.own same hmem other hown
    rw [hother] at hname'
    obtain rfl := Option.some.inj hname'
    rw [hline] at hline'
    exact ⟨same, hmem, hown, (congrArg Result.reason (Option.some.inj hline')).symm⟩
  · have hothers := congrArg List.length h.others
    rw [drop_sessionResults, List.length_map, List.length_map, List.filter_map, List.length_map] at hothers
    have hunmatched : problems.filter ((fun text => !isMatched names text) ∘ Problem.text) =
        (problems.filter fun problem => problem.owner = none).filter
          ((fun text => !isMatched names text) ∘ Problem.text) := by
      rw [List.filter_filter]
      refine List.filter_congr fun other hother => ?_
      cases howner : other.owner with
      | none => simp
      | some index =>
          have hlength := hsound.within other hother index howner
          have hmatched : isMatched names other.text = true := by
            rw [isMatched, hnamed other hother index howner, List.getElem?_eq_getElem hlength]
            simp
          simp [hmatched]
    rw [hunmatched, List.length_filter_eq_length_iff] at hothers
    have hfree := hothers problem (List.mem_filter.mpr ⟨hproblem, decide_eq_true hnone⟩)
    rw [Function.comp_apply, isMatched, hlabel] at hfree
    simp [hname] at hfree

theorem truthful_of_told (hsound : Sound names problems) (h : Told names problems) :
    Truthful category names problems (sessionResults category names (problems.map Problem.text)) := by
  -- the last text of a name is that of an entry of the name, and so of every entry of it
  have hlast : ∀ index name reason, names[index]? = some name → lastOf (problems.map Problem.text) name = some reason →
      ∃ problem ∈ problems, problem.owner = some index ∧ problem.text = reason := by
    intro index name reason hname hreason
    obtain ⟨htext, hlabel⟩ := lastOf_eq_some hreason
    obtain ⟨problem, hproblem, rfl⟩ := List.mem_map.mp htext
    cases howner : problem.owner with
    | none => exact absurd hlabel (h.others problem hproblem howner name (List.mem_of_getElem? hname))
    | some other =>
        rw [h.named problem hproblem other howner] at hlabel
        exact h.alike problem hproblem other index howner (hname.trans hlabel.symm)
  have hsome : ∀ problem ∈ problems, ∀ index, problem.owner = some index → ∀ name, names[index]? = some name →
      ∃ reason, lastOf (problems.map Problem.text) name = some reason := by
    intro problem hproblem index howner name hname
    refine Option.ne_none_iff_exists'.mp fun hnone => ?_
    exact lastOf_eq_none.mp hnone _ (List.mem_map_of_mem hproblem) ((h.named problem hproblem index howner).trans hname)
  refine ⟨fun index name hname => ?_, fun problem hproblem index howner => ?_, ?_⟩
  · rw [line_ok hname]
    constructor
    · intro hnone problem hproblem howner
      obtain ⟨reason, hreason⟩ := hsome problem hproblem index howner name hname
      rw [hnone] at hreason
      cases hreason
    · intro hno
      rw [← Option.not_isSome_iff_eq_none, Option.isSome_iff_exists]
      intro ⟨reason, hreason⟩
      obtain ⟨problem, hproblem, howner, -⟩ := hlast index name reason hname hreason
      exact hno problem hproblem howner
  · have hname := List.getElem?_eq_getElem (hsound.within problem hproblem index howner)
    refine ⟨_, hname, (line_eq hname).mpr ?_⟩
    obtain ⟨reason, hreason⟩ := hsome problem hproblem index howner _ hname
    obtain ⟨other, hother, hown, rfl⟩ := hlast index _ reason hname hreason
    rw [hreason, hsound.once problem hproblem other hother index howner hown]
  · rw [drop_sessionResults, List.filter_map, List.map_map]
    congr 1
    refine List.filter_congr fun problem hproblem => ?_
    rw [Function.comp_apply, isMatched]
    cases howner : problem.owner with
    | none =>
        have hfree := h.others problem hproblem howner
        cases hlabel : label problem.text with
        | none => simp
        | some name =>
            have hno : name ∉ names := fun hmem => hfree name hmem hlabel
            simp [hno]
    | some index =>
        have hlength := hsound.within problem hproblem index howner
        rw [h.named problem hproblem index howner, List.getElem?_eq_getElem hlength]
        simp

end

theorem truthful_iff {category : String} {names : List String} {problems : List Problem} (h : Sound names problems) :
    Truthful category names problems (sessionResults category names (problems.map Problem.text)) ↔ Told names problems :=
  ⟨told_of_truthful h, truthful_of_told h⟩

section
variable {endsWith : Nat → String → Option String} {names : List String} {others : List Problem}

theorem mem_problemsOf {problem : Problem} : problem ∈ problemsOf endsWith names ↔ ∃ index name text,
    names[index]? = some name ∧ endsWith index name = some text ∧ problem = ⟨some index, text⟩ := by
  unfold problemsOf
  rw [List.mem_filterMap]
  constructor
  · intro ⟨⟨name, index⟩, hentry, hproblem⟩
    obtain ⟨text, htext, rfl⟩ := Option.map_eq_some_iff.mp hproblem
    exact ⟨index, name, text, List.mem_zipIdx_iff_getElem?.mp hentry, htext, rfl⟩
  · intro ⟨index, name, text, hname, htext, heq⟩
    exact ⟨(name, index), List.mem_zipIdx_iff_getElem?.mpr hname, by rw [heq, htext]; rfl⟩

theorem sound_problemsOf (hothers : ∀ problem ∈ others, problem.owner = none) :
    Sound names (problemsOf endsWith names ++ others) := by
  have hown : ∀ problem ∈ problemsOf endsWith names ++ others, ∀ index, problem.owner = some index →
      ∃ name, names[index]? = some name ∧ endsWith index name = some problem.text := by
    intro problem hproblem index howner
    rcases List.mem_append.mp hproblem with hproblem | hproblem
    · obtain ⟨_, name, text, hname, htext, rfl⟩ := mem_problemsOf.mp hproblem
      obtain rfl := Option.some.inj howner
      exact ⟨name, hname, htext⟩
    · rw [hothers problem hproblem] at howner
      cases howner
  refine ⟨fun problem hproblem index howner => ?_, fun problem hproblem other hother index howner hown' => ?_⟩
  · obtain ⟨name, hname, -⟩ := hown problem hproblem index howner
    exact (List.getElem?_eq_some_iff.mp hname).1
  · obtain ⟨name, hname, htext⟩ := hown problem hproblem index howner
    obtain ⟨name', hname', htext'⟩ := hown other hother index hown'
    rw [hname] at hname'
    obtain rfl := Option.some.inj hname'
    exact Option.some.inj (htext.symm.trans htext')

theorem told_iff (hothers : ∀ problem ∈ others, problem.owner = none) :
    Told names (problemsOf endsWith names ++ others) ↔
      (∀ index name text, names[index]? = some name → endsWith index name = some text → label text = some name) ∧
      (∀ index other name, names[index]? = some name → names[other]? = some name →
        endsWith index name = endsWith other name) ∧
      ∀ problem ∈ others, ∀ name ∈ names, label problem.text ≠ some name := by
  have hmem : ∀ index name text, names[index]? = some name → endsWith index name = some text →
      ⟨some index, text⟩ ∈ problemsOf endsWith names ++ others := fun index name text hname htext =>
    List.mem_append_left _ (mem_problemsOf.mpr ⟨index, name, text, hname, htext, rfl⟩)
  constructor
  · intro h
    refine ⟨fun index name text hname htext => ?_, fun index other name hname hother => ?_, fun problem hproblem => ?_⟩
    · rw [← hname]
      exact h.named _ (hmem index name text hname htext) index rfl
    · have hsame : ∀ index other, names[index]? = some name → names[other]? = some name → ∀ text,
          endsWith index name = some text → endsWith other name = some text := by
        intro index other hname hother text htext
        obtain ⟨same, hsame, howner, heq⟩ := h.alike _ (hmem index name text hname htext) index other rfl
          (hother.trans hname.symm)
        rcases List.mem_append.mp hsame with hsame | hsame
        · obtain ⟨_, name', text', hname', htext', rfl⟩ := mem_problemsOf.mp hsame
          obtain rfl := Option.some.inj howner
          rw [hother] at hname'
          obtain rfl := Option.some.inj hname'
          rw [htext']
          exact congrArg some heq
        · rw [hothers same hsame] at howner
          cases howner
      ext text
      exact ⟨hsame index other hname hother text, hsame other index hother hname text⟩
    · exact h.others problem (List.mem_append_right _ hproblem) (hothers problem hproblem)
  · intro ⟨hnamed, halike, hfree⟩
    refine ⟨fun problem hproblem index howner => ?_, fun problem hproblem index other howner hsame => ?_,
      fun problem hproblem howner => ?_⟩
    · rcases List.mem_append.mp hproblem with hproblem | hproblem
      · obtain ⟨_, name, text, hname, htext, rfl⟩ := mem_problemsOf.mp hproblem
        obtain rfl := Option.some.inj howner
        rw [hname]
        exact hnamed _ name text hname htext
      · rw [hothers problem hproblem] at howner
        cases howner
    · rcases List.mem_append.mp hproblem with hproblem | hproblem
      · obtain ⟨_, name, text, hname, htext, rfl⟩ := mem_problemsOf.mp hproblem
        obtain rfl := Option.some.inj howner
        rw [hname] at hsame
        rw [halike _ other name hname hsame] at htext
        exact ⟨_, hmem other name text hsame htext, rfl, rfl⟩
      · rw [hothers problem hproblem] at howner
        cases howner
    · rcases List.mem_append.mp hproblem with hproblem | hproblem
      · obtain ⟨_, _, _, _, _, rfl⟩ := mem_problemsOf.mp hproblem
        cases howner
      · exact hfree problem hproblem

end

theorem label_append {name rest : String} : label (name ++ (": " ++ rest)) = some name ↔ ':' ∉ name.toList := by
  have hchars : (name ++ (": " ++ rest)).toList = name.toList ++ ':' :: ' ' :: rest.toList := by
    simp [String.toList_append]
  unfold label Text.cut
  rw [hchars, List.span_eq_takeWhile_dropWhile]
  constructor
  · intro h hcolon
    cases hdrop : (name.toList ++ ':' :: ' ' :: rest.toList).dropWhile fun c => decide (c ≠ ':') with
    | nil =>
        rw [hdrop] at h
        cases h
    | cons c after =>
        rw [hdrop] at h
        have hbefore := congrArg String.toList (Option.some.inj h)
        rw [String.toList_ofList] at hbefore
        rw [← hbefore] at hcolon
        exact absurd (List.mem_takeWhile_imp hcolon) (by decide)
  · intro h
    have htrue : ∀ c ∈ name.toList, decide (c ≠ ':') = true := fun c hc => decide_eq_true fun heq => h (heq ▸ hc)
    rw [List.takeWhile_append_of_pos htrue, List.dropWhile_append_of_pos htrue]
    simp

/-- The words a drive's problem begins with, up to the first colon, are its name. -/
def Ending.Names (name : String) : Ending → Prop
  | .attached => True
  | .directory error => label error = some name
  | _ => ':' ∉ name.toList

/-- Each drive ends with words that begin with its name, drives of one name with the same, and what is detached is told in
words that begin with no drive's. -/
structure DrivesFit (session : Session) (drives : List DriveMap) : Prop where
  named : ∀ index name, (mountedNames session drives)[index]? = some name → (session.ending index).Names name
  alike : ∀ index other name, (mountedNames session drives)[index]? = some name →
    (mountedNames session drives)[other]? = some name →
      (session.ending index).problem session.user name = (session.ending other).problem session.user name
  others : ∀ point ∈ goneFrom session.driveMaps ((session.drives drives).map DriveMap.mountPoint), ∀ error,
    session.detach point = some error → ∀ name ∈ mountedNames session drives, label (detaching point error) ≠ some name

/-- No file that cannot be written has a colon in its name, files of one name are alike in this, and what is removed is
told in words that begin with no file's. -/
structure FilesFit (session : Session) (files : List RemoteDesktopFile) : Prop where
  named : ∀ index name error, (fileNames session files)[index]? = some name → session.write index = some error →
    ':' ∉ name.toList
  alike : ∀ index other name, (fileNames session files)[index]? = some name →
    (fileNames session files)[other]? = some name → session.write index = session.write other
  others : ∀ path ∈ session.gone files, ∀ error, session.remove path = some error → ∀ name ∈ fileNames session files,
    label (removing path error) ≠ some name

theorem Ending.names_iff {user name : String} {ending : Ending} :
    ending.Names name ↔ ∀ text, ending.problem user name = some text → label text = some name := by
  cases ending with
  | attached => exact iff_of_true trivial nofun
  | directory error => simp [Ending.Names, Ending.problem]
  | ticket => simp only [Ending.Names, Ending.problem, Option.some.injEq, forall_eq', label_append, String.append_assoc]
  | mount error output => simp only [Ending.Names, Ending.problem, Option.some.injEq, forall_eq', label_append, String.append_assoc]
  | bookmark error => simp only [Ending.Names, Ending.problem, Option.some.injEq, forall_eq', label_append, String.append_assoc]

theorem mountDriveMaps_eq {session : Session} (h : session.isPerson = true) (drives : List DriveMap) :
    mountDriveMaps session drives =
      problemsOf (fun index name => (session.ending index).problem session.user name) (mountedNames session drives) ++
        (goneFrom session.driveMaps ((session.drives drives).map DriveMap.mountPoint)).filterMap fun point =>
          (session.detach point).map fun error => ⟨none, detaching point error⟩ := by
  unfold mountDriveMaps
  split_ifs with hskips
  · obtain ⟨rfl, hnone⟩ := hskips.resolve_right (by simp [h])
    rw [hnone]
    rfl
  · rfl

theorem deployRemoteDesktopFiles_eq {session : Session} (h : session.isPerson = true) (files : List RemoteDesktopFile) :
    deployRemoteDesktopFiles session files =
      problemsOf (fun index name => (session.write index).map fun error => name ++ (": " ++ error))
          (fileNames session files) ++
        (session.gone files).filterMap fun path =>
          (session.remove path).map fun error => ⟨none, removing path error⟩ := by
  unfold deployRemoteDesktopFiles
  split_ifs with hskips
  · obtain ⟨rfl, hnone⟩ := hskips.resolve_right (by simp [h])
    rw [Session.gone, hnone]
    rfl
  · rfl

theorem forall_taken {paths : List String} {fails : String → Option String} {words : String → String → String}
    {holds : Problem → Prop} :
    (∀ problem ∈ paths.filterMap fun path => (fails path).map fun error => (⟨none, words path error⟩ : Problem),
      holds problem) ↔ ∀ path ∈ paths, ∀ error, fails path = some error → holds ⟨none, words path error⟩ := by
  constructor
  · intro h path hpath error herror
    refine h _ (List.mem_filterMap.mpr ⟨path, hpath, ?_⟩)
    rw [herror]
    rfl
  · intro h problem hproblem
    obtain ⟨path, hpath, hmap⟩ := List.mem_filterMap.mp hproblem
    obtain ⟨error, herror, rfl⟩ := Option.map_eq_some_iff.mp hmap
    exact h path hpath error herror

theorem taken_none (paths : List String) (fails : String → Option String) (words : String → String → String) :
    ∀ problem ∈ paths.filterMap fun path => (fails path).map fun error => (⟨none, words path error⟩ : Problem),
      problem.owner = none :=
  forall_taken.mpr fun _ _ _ _ => rfl

theorem truthful_nobody {category : String} {names : List String} :
    Truthful category names [] (sessionResults category names []) :=
  have hnobody : ∀ {holds : Problem → Prop}, ∀ problem ∈ ([] : List Problem), holds problem :=
    fun _ hproblem => absurd hproblem List.not_mem_nil
  (truthful_iff ⟨hnobody, hnobody⟩).mpr ⟨hnobody, hnobody, hnobody⟩

theorem drives_iff (session : Session) (drives : List DriveMap) :
    Truthful "drive_maps" (mountedNames session drives) (mountDriveMaps session drives)
      (sessionResults "drive_maps" (mountedNames session drives) ((mountDriveMaps session drives).map Problem.text)) ↔
    (session.isPerson = true → DrivesFit session drives) := by
  cases hperson : session.isPerson with
  | false =>
      have hnone : mountDriveMaps session drives = [] := if_pos (.inr hperson)
      rw [hnone]
      exact iff_of_true truthful_nobody nofun
  | true =>
      have hothers := taken_none (goneFrom session.driveMaps ((session.drives drives).map DriveMap.mountPoint))
        session.detach detaching
      rw [mountDriveMaps_eq hperson, truthful_iff (sound_problemsOf hothers), told_iff hothers, forall_taken,
        forall_prop_of_true rfl]
      constructor
      · intro ⟨hnamed, halike, hfree⟩
        exact ⟨fun index name hname => Ending.names_iff.mpr fun text => hnamed index name text hname, halike, hfree⟩
      · intro h
        exact ⟨fun index name text hname => Ending.names_iff.mp (h.named index name hname) text, h.alike, h.others⟩

theorem written_injective (name : String) : Function.Injective fun error : String => name ++ (": " ++ error) := by
  intro error error' heq
  have hchars := congrArg String.toList heq
  simp only [String.toList_append, List.append_cancel_left_eq] at hchars
  exact String.toList_injective hchars

theorem files_iff (session : Session) (files : List RemoteDesktopFile) :
    Truthful "remote_desktop_files" (fileNames session files) (deployRemoteDesktopFiles session files)
      (sessionResults "remote_desktop_files" (fileNames session files)
        ((deployRemoteDesktopFiles session files).map Problem.text)) ↔
    (session.isPerson = true → FilesFit session files) := by
  cases hperson : session.isPerson with
  | false =>
      have hnone : deployRemoteDesktopFiles session files = [] := if_pos (.inr hperson)
      rw [hnone]
      exact iff_of_true truthful_nobody nofun
  | true =>
      have hothers := taken_none (session.gone files) session.remove removing
      rw [deployRemoteDesktopFiles_eq hperson, truthful_iff (sound_problemsOf hothers), told_iff hothers, forall_taken,
        forall_prop_of_true rfl]
      constructor
      · intro ⟨hnamed, halike, hfree⟩
        refine ⟨fun index name error hname herror => ?_, fun index other name hname hother => ?_, hfree⟩
        · exact label_append.mp (hnamed index name _ hname (by rw [herror]; rfl))
        · exact (Option.map_injective (written_injective name)) (halike index other name hname hother)
      · intro h
        refine ⟨fun index name text hname htext => ?_, fun index other name hname hother => ?_, h.others⟩
        · obtain ⟨error, herror, rfl⟩ := Option.map_eq_some_iff.mp htext
          exact label_append.mpr (h.named index name error hname herror)
        · rw [h.alike index other name hname hother]

/-- What a session reports of the drives and the files is true. -/
structure TrueReport (session : Session) (drives : List DriveMap) (files : List RemoteDesktopFile) : Prop where
  drives : Truthful "drive_maps" (mountedNames session drives) (mountDriveMaps session drives)
    (sessionResults "drive_maps" (mountedNames session drives) ((mountDriveMaps session drives).map Problem.text))
  files : Truthful "remote_desktop_files" (fileNames session files) (deployRemoteDesktopFiles session files)
    (sessionResults "remote_desktop_files" (fileNames session files)
      ((deployRemoteDesktopFiles session files).map Problem.text))

/-- What a session reports of the drives and the files somebody was to get is true exactly when every problem begins with
the name of its own entry, entries of one name end alike, and what is taken away begins with no entry's name. -/
theorem reports_truly_iff (session : Session) (drives : List DriveMap) (files : List RemoteDesktopFile) :
    TrueReport session drives files ↔
      (session.isPerson = true → DrivesFit session drives ∧ FilesFit session files) := by
  constructor
  · intro h hperson
    exact ⟨(drives_iff session drives).mp h.drives hperson, (files_iff session files).mp h.files hperson⟩
  · intro h
    exact ⟨(drives_iff session drives).mpr fun hperson => (h hperson).1,
      (files_iff session files).mpr fun hperson => (h hperson).2⟩

/-- The directory of a drive cannot be made: the drive is reported as attached. -/
theorem reports_attached :
    let session : Session := { user := "ada", makeDirectory := fun _ => some "mkdir /mnt/team: permission denied" }
    let drives : List DriveMap := [⟨"Team", "/mnt/team", ""⟩]
    mountDriveMaps session drives = [⟨some 0, "mkdir /mnt/team: permission denied"⟩] ∧
      sessionResults "drive_maps" (mountedNames session drives) ((mountDriveMaps session drives).map Problem.text) =
        [ok "drive_maps:Team", fail "drive_maps" "mkdir /mnt/team: permission denied"] ∧
      ¬ TrueReport session drives [] := by
  have hproblems : mountDriveMaps { user := "ada", makeDirectory := fun _ => some "mkdir /mnt/team: permission denied" }
      [⟨"Team", "/mnt/team", ""⟩] = [⟨some 0, "mkdir /mnt/team: permission denied"⟩] := by decide +kernel
  refine ⟨hproblems, by decide +kernel, fun h => ?_⟩
  have hfailed := (h.drives.succeeds 0 "Team" rfl).mp (by decide +kernel)
  rw [hproblems] at hfailed
  exact hfailed _ List.mem_cons_self rfl

end OpenDirectory.SessionReport
