import OpenDirectory.AgentKept
import OpenDirectory.EntrySchema
import OpenDirectory.PolicyEntries

/-! The entries written one file each. The merge tells entries apart by their names, and the file of an entry is named
after it with its dots replaced, so two names can share a file; the one written last stays. -/

namespace OpenDirectory.Agent

/-- Slashes one after another separate no more than one does. -/
def squeezed : List Char → List Char
  | [] => []
  | c :: rest => if c = '/' ∧ rest.head? = some '/' then squeezed rest else c :: squeezed rest

/-- The file a path leads to. -/
def located (path : String) : String := String.ofList (squeezed path.toList)

def scriptDir : String := "/etc/odm/scripts"

def scriptPath (script : Script) : String := scriptDir ++ "/" ++ script.trigger ++ "/" ++ script.name

def scriptBody (script : Script) : String :=
  "#!" ++ (if script.interpreter = "" then "/bin/sh" else script.interpreter) ++ "\n" ++ header ++ script.content

def trustAnchorDir : String := "/usr/local/share/ca-certificates"

def mozillaCertDir : String := "/usr/lib/mozilla/certificates"

def trustAnchorFile (name : String) : String := "odm-" ++ undotted name ++ ".crt"

def anchorPath (anchor : TrustedCert) : String := trustAnchorDir ++ "/" ++ trustAnchorFile anchor.name

def browserPath (anchor : TrustedCert) : String := mozillaCertDir ++ "/" ++ trustAnchorFile anchor.name

def anchorBody (anchor : TrustedCert) : String :=
  if Text.endsWith anchor.certificatePem "\n" then anchor.certificatePem else anchor.certificatePem ++ "\n"

def nssdbList : String := trustAnchorDir ++ "/odm-nssdb.list"

def nssdbHook : String := "/etc/odm/scripts/logon/odm-trust-nssdb"

def nssdbScript : String :=
  "#!/bin/sh\n" ++
  header ++
  "# Puts the domain's trust anchors into one person's NSS database, which is\n" ++
  "# where Chromium and Chrome on Linux look. Run by PAM at sign-in, and by the\n" ++
  "# agent for existing homes.\n" ++
  "PATH=/usr/local/sbin:/usr/local/bin:/usr/sbin:/usr/bin:/sbin:/bin\n" ++
  "export PATH\n" ++
  "user=\"$\x7b1:-$PAM_USER\x7d\"\n" ++
  "[ -n \"$user\" ] || exit 0\n" ++
  "[ \"$(id -u \"$user\" 2>/dev/null || echo 0)\" -ge 1000 ] || exit 0\n" ++
  "command -v certutil >/dev/null 2>&1 || exit 0\n" ++
  "home=$(getent passwd \"$user\" | cut -d: -f6)\n" ++
  "[ -n \"$home\" ] && [ -d \"$home\" ] || exit 0\n" ++
  "db=\"$home/.pki/nssdb\"\n" ++
  "wanted=\"" ++
  trustAnchorDir ++
  "/odm-nssdb.list\"\n" ++
  "as_user() \x7b runuser -u \"$user\" -- \"$@\"; \x7d\n" ++
  "if [ ! -f \"$db/cert9.db\" ]; then\n" ++
  "  as_user mkdir -p \"$db\" || exit 0\n" ++
  "  as_user certutil -N -d \"sql:$db\" --empty-password >/dev/null 2>&1 || exit 0\n" ++
  "fi\n" ++
  "# Anchors ODM added before and policy no longer names.\n" ++
  "as_user certutil -L -d \"sql:$db\" 2>/dev/null | awk '/^odm:/ \x7b sub(/ +[a-zA-Z,]*$/, \"\"); print \x7d' |\n" ++
  "while IFS= read -r nick; do\n" ++
  "  [ -n \"$nick\" ] || continue\n" ++
  "  if ! grep -qxF \"$nick\" \"$wanted\" 2>/dev/null; then\n" ++
  "    as_user certutil -D -d \"sql:$db\" -n \"$nick\" >/dev/null 2>&1 || true\n" ++
  "  fi\n" ++
  "done\n" ++
  "[ -f \"$wanted\" ] || exit 0\n" ++
  "while IFS= read -r nick; do\n" ++
  "  [ -n \"$nick\" ] || continue\n" ++
  "  file=\"" ++
  trustAnchorDir ++
  "/$\x7bnick#odm:\x7d.crt\"\n" ++
  "  [ -f \"$file\" ] || continue\n" ++
  "  as_user certutil -D -d \"sql:$db\" -n \"$nick\" >/dev/null 2>&1 || true\n" ++
  "  as_user certutil -A -d \"sql:$db\" -t \"C,,\" -n \"$nick\" -i \"$file\" >/dev/null 2>&1 || true\n" ++
  "done < \"$wanted\"\n" ++
  "exit 0\n"

/-- The nicknames of all anchors, written or not. -/
def nssdbNames (anchors : List TrustedCert) : String :=
  Text.join "\n" (anchors.map fun anchor => "odm:" ++ "odm-" ++ undotted anchor.name) ++ "\n"

/-- The categories whose entries have a file each. -/
structure EntrySettings where
  scripts : List Script := []
  cron : List CronJob := []
  trustedCerts : List TrustedCert := []
  sudoRules : List SudoRule := []
  deriving DecidableEq

/-- A pass over a settings document. What the other appliers call is given by when: ahead of the scripts, and after the
scripts, the cron jobs, the certificates and the sudo rules. The machine says at which files a write goes through, and
what the check of a staged sudo rule makes of it. -/
structure EntryPass where
  settings : EntrySettings
  goes : String → Bool := fun _ => true
  parses : SudoRule → Bool := fun _ => true
  first : List Call := []
  afterScripts : List Call := []
  afterCron : List Call := []
  afterCerts : List Call := []
  afterSudo : List Call := []
  removes : String → Bool := fun _ => true
  access : String → Access := fun _ => {}
  saves : Bool := true

namespace EntryPass

variable (pass : EntryPass)

/-- The writes of some category, as paths and contents. -/
def puts (writes : List (String × String)) : List Call :=
  writes.map fun entry => .writeFile (located entry.1) entry.2 (pass.goes (located entry.1))

def scriptWrites : List (String × String) :=
  pass.settings.scripts.map fun script => (scriptPath script, scriptBody script)

def cronWrites : List (String × String) := pass.settings.cron.map fun job => (cronPath job, cronBody job)

/-- The copy for the browsers is written once the anchor is. -/
def anchorWrites (anchor : TrustedCert) : List (String × String) :=
  if !Text.holds anchor.certificatePem beginCertificate then []
  else (anchorPath anchor, anchorBody anchor) ::
    if pass.goes (located (anchorPath anchor)) then [(browserPath anchor, anchorBody anchor)] else []

def certWrites : List (String × String) := pass.settings.trustedCerts.flatMap pass.anchorWrites

def anchorInstalled (anchor : TrustedCert) : Bool :=
  Text.holds anchor.certificatePem beginCertificate && pass.goes (located (anchorPath anchor)) &&
    pass.goes (located (browserPath anchor))

/-- Once an anchor is installed, the browsers' databases are seen to. -/
def nssdbWrites : List (String × String) :=
  if pass.settings.trustedCerts.any pass.anchorInstalled then
    (nssdbList, nssdbNames pass.settings.trustedCerts) ::
      if pass.goes nssdbList then [(nssdbHook, nssdbScript)] else []
  else []

/-- A rule is installed if it could be staged and passed the check. -/
def sudoInstalls (rule : SudoRule) : Bool := pass.goes sudoersStaging && pass.parses rule

def sudoRuleWrites (rule : SudoRule) : List (String × String) :=
  (sudoersStaging, sudoBody rule) :: if pass.sudoInstalls rule then [(sudoPath rule, sudoBody rule)] else []

def sudoWrites : List (String × String) :=
  (pass.settings.sudoRules.filter pass.sudoInstalls).map fun rule => (sudoPath rule, sudoBody rule)

def run : Run where
  calls := pass.first ++ pass.puts pass.scriptWrites ++ pass.afterScripts ++ pass.puts pass.cronWrites ++
    pass.afterCron ++ pass.puts (pass.certWrites ++ pass.nssdbWrites) ++ pass.afterCerts ++
    pass.puts (pass.settings.sudoRules.flatMap pass.sudoRuleWrites) ++ pass.afterSudo
  removes := pass.removes
  access := pass.access
  saves := pass.saves

/-- The entries' own files, as far as they get to be written. -/
def entryWrites : List (String × String) :=
  pass.scriptWrites ++ pass.cronWrites ++ pass.certWrites ++ pass.sudoWrites

/-- None of some calls is at the files of some writes. -/
def Away (calls : List Call) (writes : List (String × String)) : Prop :=
  ∀ call ∈ calls, ∀ entry ∈ writes, call.path ≠ located entry.1

/-- The other appliers keep off the files of entries written before them. -/
structure Apart : Prop where
  scripts : Away (pass.afterScripts ++ pass.afterCron ++ pass.afterCerts ++ pass.afterSudo) pass.scriptWrites
  cron : Away (pass.afterCron ++ pass.afterCerts ++ pass.afterSudo) pass.cronWrites
  certs : Away (pass.afterCerts ++ pass.afterSudo) pass.certWrites
  sudoRules : Away pass.afterSudo pass.sudoWrites

/-- Entries with different names go to different files. -/
def Separate {α κ : Type} (name : α → κ) (path : α → String) (entries : List α) : Prop :=
  ∀ entry ∈ entries, ∀ other ∈ entries, name entry ≠ name other → located (path entry) ≠ located (path other)

/-- Different entries get different files, and whatever is written of an entry is there after the pass. -/
structure OwnFiles : Prop where
  scripts : Separate (fun script => (script.trigger, script.name)) scriptPath pass.settings.scripts
  cron : Separate CronJob.name cronPath pass.settings.cron
  anchors : Separate TrustedCert.name anchorPath pass.settings.trustedCerts
  copies : Separate TrustedCert.name browserPath pass.settings.trustedCerts
  sudoRules : Separate SudoRule.name sudoPath pass.settings.sudoRules
  kept : ∀ entry ∈ pass.entryWrites, pass.goes (located entry.1) = true →
    ∀ machine, (pass.run.next machine).files (located entry.1) = some entry.2

/-- The name of an entry as it stands in the name of its file. -/
def fileName (name : String) : String := located (undotted name)

/-- No two names of a category stand alike in the names of files. -/
def Distinct {α : Type} (name : α → String) (entries : List α) : Prop :=
  ∀ entry ∈ entries, ∀ other ∈ entries, fileName (name entry) = fileName (name other) → name entry = name other

/-- No two names make the same file, and no script is where the agent puts its own for browsers. -/
structure Clear : Prop where
  cron : Distinct CronJob.name pass.settings.cron
  anchors : Distinct TrustedCert.name pass.settings.trustedCerts
  sudoRules : Distinct SudoRule.name pass.settings.sudoRules
  hook : pass.settings.trustedCerts.any pass.anchorInstalled = true → pass.goes nssdbList = true →
    pass.goes nssdbHook = true → ∀ script ∈ pass.settings.scripts, script.trigger = "logon" →
      script.name = "odm-trust-nssdb" → scriptBody script = nssdbScript

end EntryPass

section
variable {front rest : List Char}

theorem squeezed_append (h : front.getLast? ≠ some '/' ∨ rest.head? ≠ some '/') :
    squeezed (front ++ rest) = squeezed front ++ squeezed rest := by
  induction front with
  | nil => rfl
  | cons c front ih =>
      cases front with
      | nil =>
          have hkeeps : ¬ (c = '/' ∧ rest.head? = some '/') := by
            intro hboth
            rcases h with h | h
            · exact h (by rw [hboth.1]; rfl)
            · exact h hboth.2
          rw [List.singleton_append, squeezed, if_neg hkeeps]
          simp [squeezed]
      | cons d front =>
          have htail := ih (by simpa using h)
          rw [List.cons_append]
          by_cases hboth : c = '/' ∧ (d :: front).head? = some '/'
          · have hboth' : c = '/' ∧ (d :: front ++ rest).head? = some '/' := hboth
            rw [squeezed, if_pos hboth', squeezed, if_pos hboth, htail]
          · have hboth' : ¬ (c = '/' ∧ (d :: front ++ rest).head? = some '/') := hboth
            rw [squeezed, if_neg hboth', squeezed, if_neg hboth, htail, List.cons_append]

theorem squeezed_eq_self (h : '/' ∉ front) : squeezed front = front := by
  induction front with
  | nil => rfl
  | cons c front ih =>
      have hc : c ≠ '/' := fun hslash => h (hslash ▸ List.mem_cons_self)
      rw [squeezed, if_neg fun hboth => hc hboth.1, ih fun hmem => h (.tail _ hmem)]

end

theorem located_append {front rest : String} (h : front.toList.getLast? ≠ some '/' ∨ rest.toList.head? ≠ some '/') :
    located (front ++ rest) = located front ++ located rest := by
  apply String.toList_injective
  unfold located
  rw [String.toList_append, squeezed_append h, String.toList_append]
  simp only [String.toList_ofList]

theorem located_front {front : String} (hlast : front.toList.getLast? ≠ some '/') (hsame : located front = front)
    (rest : String) : located (front ++ rest) = front ++ located rest := by
  rw [located_append (.inl hlast), hsame]

theorem located_eq_self {path : String} (h : '/' ∉ path.toList) : located path = path := by
  rw [located, squeezed_eq_self h, String.ofList_toList]

/-- How a path begins, by which the directories told apart here differ. -/
def area (path : String) : List Char := path.toList.take 12

theorem area_append {front rest : String} (h : 12 ≤ front.toList.length) : area (front ++ rest) = area front := by
  rw [area, String.toList_append, List.take_append_of_le_length h, area]

section
variable (job : CronJob) (rule : SudoRule) (anchor : TrustedCert) {script : Script}

open EntryPass

theorem located_cronPath : located (cronPath job) = "/etc/cron.d/odm-" ++ fileName job.name := by
  exact located_front (by decide) (by decide) _

theorem located_sudoPath : located (sudoPath rule) = "/etc/sudoers.d/odm-" ++ fileName rule.name := by
  exact located_front (by decide) (by decide) _

theorem located_crt (name : String) : located (undotted name ++ ".crt") = fileName name ++ ".crt" := by
  have hcrt : located ".crt" = ".crt" := by decide
  rw [located_append (.inr (by decide)), hcrt]
  rfl

theorem located_anchorPath :
    located (anchorPath anchor) = "/usr/local/share/ca-certificates/odm-" ++ (fileName anchor.name ++ ".crt") := by
  have hpath : anchorPath anchor = "/usr/local/share/ca-certificates/odm-" ++ (undotted anchor.name ++ ".crt") := by
    simp only [anchorPath, trustAnchorDir, trustAnchorFile, ← String.append_assoc]
    rfl
  rw [hpath, located_front (by decide) (by decide), located_crt]

theorem located_browserPath :
    located (browserPath anchor) = "/usr/lib/mozilla/certificates/odm-" ++ (fileName anchor.name ++ ".crt") := by
  have hpath : browserPath anchor = "/usr/lib/mozilla/certificates/odm-" ++ (undotted anchor.name ++ ".crt") := by
    simp only [browserPath, mozillaCertDir, trustAnchorFile, ← String.append_assoc]
    rfl
  rw [hpath, located_front (by decide) (by decide), located_crt]

theorem entryName_chars {name : String} (h : entryName name = true) : name ≠ "" ∧ '/' ∉ name.toList := by
  obtain ⟨text, hrun, htext⟩ := Pattern.closed_iff.mp h
  obtain ⟨hlow, -, hchars⟩ := Pattern.run_iff.mp hrun
  have hslash : '/' ∉ text := fun hmem => absurd (hchars '/' hmem) (by decide)
  constructor
  · rintro rfl
    rcases htext with rfl | htext
    · simp at hlow
    · simp at htext
  · rcases htext with htext | htext
    · rw [htext]
      exact hslash
    · rw [htext, List.mem_append, not_or]
      exact ⟨hslash, by decide⟩

theorem located_scriptPath (h : script.accepted = true) : located (scriptPath script) = scriptPath script := by
  simp only [Script.accepted, Bool.and_eq_true, decide_eq_true_eq] at h
  obtain ⟨⟨⟨htrigger, hname⟩, -⟩, -⟩ := h
  have hslash := (entryName_chars hname).2
  have hhead : script.name.toList.head? ≠ some '/' := fun hhead => hslash (List.mem_of_mem_head? hhead)
  have hdir : ∀ trigger ∈ triggers,
      located (scriptDir ++ "/" ++ trigger ++ "/") = scriptDir ++ "/" ++ trigger ++ "/" := by decide
  rw [scriptPath, located_append (.inr hhead), hdir _ htrigger, located_eq_self hslash]

theorem triggers_plain : ∀ trigger ∈ triggers, '/' ∉ trigger.toList ∧ '|' ∉ trigger.toList := by decide

theorem scriptPath_inj {other : Script} (h : script.accepted = true) (hother : other.accepted = true)
    (hpath : scriptPath script = scriptPath other) : script.trigger = other.trigger ∧ script.name = other.name := by
  simp only [Script.accepted, Bool.and_eq_true, decide_eq_true_eq] at h hother
  have hchars : script.trigger.toList ++ '/' :: script.name.toList = other.trigger.toList ++ '/' :: other.name.toList := by
    have hlists := congrArg String.toList hpath
    simp only [scriptPath, String.append_assoc, String.toList_append] at hlists
    simpa using hlists
  obtain ⟨htrigger, hname⟩ := Text.append_separator_inj (triggers_plain _ h.1.1.1).1
    (triggers_plain _ hother.1.1.1).1 hchars
  exact ⟨String.toList_injective htrigger, String.toList_injective hname⟩

theorem area_cron : area (located (cronPath job)) = "/etc/cron.d/".toList := by
  rw [located_cronPath, area_append (by decide)]
  decide

theorem area_sudo : area (located (sudoPath rule)) = "/etc/sudoers".toList := by
  rw [located_sudoPath, area_append (by decide)]
  decide

theorem area_anchor : area (located (anchorPath anchor)) = "/usr/local/s".toList := by
  rw [located_anchorPath, area_append (by decide)]
  decide

theorem area_browser : area (located (browserPath anchor)) = "/usr/lib/moz".toList := by
  rw [located_browserPath, area_append (by decide)]
  decide

theorem area_script (h : script.accepted = true) : area (located (scriptPath script)) = "/etc/odm/scr".toList := by
  rw [located_scriptPath h, scriptPath, String.append_assoc, String.append_assoc, String.append_assoc,
    area_append (by decide)]
  decide

theorem neverPrune_of_area {path : String} (h : area path ∈ ["/etc/cron.d/".toList, "/etc/sudoers".toList,
    "/usr/local/s".toList, "/usr/lib/moz".toList, "/etc/odm/scr".toList]) : neverPrune path = false := by
  have hnamed : ∀ other ∈ neverPruned, area other ∉ ["/etc/cron.d/".toList, "/etc/sudoers".toList,
      "/usr/local/s".toList, "/usr/lib/moz".toList, "/etc/odm/scr".toList] := by decide +kernel
  rw [neverPrune, Bool.or_eq_false_iff, decide_eq_false_iff_not]
  refine ⟨fun hmem => hnamed path hmem h, ?_⟩
  rw [Bool.eq_false_iff]
  intro hboot
  obtain ⟨rest, hrest⟩ := Text.startsWith_iff.mp hboot
  have hsecond : (area path)[1]? = some 'b' := by
    rw [area, hrest]
    rfl
  have hother : ∀ start ∈ ["/etc/cron.d/".toList, "/etc/sudoers".toList, "/usr/local/s".toList,
      "/usr/lib/moz".toList, "/etc/odm/scr".toList], start[1]? ≠ some 'b' := by decide
  exact hother _ h hsecond

end

section
variable {path content : String} {calls calls' : List Call}

/-- What some calls do at a path is to write one content there. -/
def AtOnly (path content : String) (calls : List Call) : Prop :=
  ∀ call ∈ calls, call.path = path → call = .writeFile path content true

theorem atOnly_append : AtOnly path content (calls ++ calls') ↔ AtOnly path content calls ∧ AtOnly path content calls' :=
  List.forall_mem_append

theorem files_foldl_atOnly (h : AtOnly path content calls) {env : Env}
    (hthere : env.files path = some content ∨ ∃ call ∈ calls, call.path = path) :
    (calls.foldl perform env).files path = some content := by
  induction calls generalizing env with
  | nil =>
      obtain hthere | ⟨call, hcall, -⟩ := hthere
      · exact hthere
      · cases hcall
  | cons call calls ih =>
      rw [List.foldl_cons]
      apply ih fun other hother => h other (.tail _ hother)
      by_cases hpath : call.path = path
      · left
        rw [h call List.mem_cons_self hpath]
        exact Function.update_self _ _ _
      · rcases hthere with hthere | ⟨other, hother, hat⟩
        · left
          rw [(perform_other env call (Ne.symm hpath)).files]
          exact hthere
        · right
          rcases List.mem_cons.mp hother with rfl | hother
          · exact absurd hat hpath
          · exact ⟨other, hother, hat⟩

/-- A file written at the end of a pass stays as it was written: what the pass claims is not taken away. -/
theorem next_files_atOnly {run : Run} (hcalls : run.calls = calls ++ calls') (hnever : neverPrune path = false)
    (h : AtOnly path content calls') (hwritten : ∃ call ∈ calls', call.path = path) (machine : Machine) :
    (run.next machine).files path = some content := by
  have henv : run.env machine = calls'.foldl perform (calls.foldl perform { files := machine.files }) := by
    rw [Run.env, hcalls, List.foldl_append]
  have hfile : (run.env machine).files path = some content := by
    rw [henv]
    exact files_foldl_atOnly h (.inr hwritten)
  have hclaimed : (run.env machine).state.Claims path := by
    rw [henv, claims_foldl_plain hnever fun call hcall hpath => h call hcall hpath ▸ trivial]
    obtain ⟨call, hcall, hpath⟩ := hwritten
    exact .inr ⟨call, hcall, hpath, h call hcall hpath ▸ rfl⟩
  show (prune run.removes run.access machine.saved (run.env machine)).1.files path = some content
  rw [prune_files, if_neg fun hgone => hgone.2.1 hclaimed, if_neg fun hgone => hgone.2 hclaimed, hfile]

end

namespace EntryPass

variable {pass : EntryPass} {path content : String} {writes : List (String × String)}

theorem atOnly_puts (hgoes : pass.goes path = true)
    (h : ∀ entry ∈ writes, located entry.1 = path → entry.2 = content) : AtOnly path content (pass.puts writes) := by
  intro call hcall hpath
  obtain ⟨entry, hentry, rfl⟩ := List.mem_map.mp hcall
  replace hpath : located entry.1 = path := hpath
  rw [hpath, h entry hentry hpath, hgoes]

theorem atOnly_away (content : String) {calls : List Call} (h : Away calls writes) {entry : String × String} (hentry : entry ∈ writes) :
    AtOnly (located entry.1) content calls :=
  fun call hcall hpath => absurd hpath (h call hcall entry hentry)

theorem mem_puts (pass : EntryPass) {entry : String × String} (h : entry ∈ writes) :
    ∃ call ∈ pass.puts writes, call.path = located entry.1 :=
  ⟨_, List.mem_map.mpr ⟨entry, h, rfl⟩, rfl⟩

/-- Entries told apart by the names they are merged by. -/
structure Told (settings : EntrySettings) : Prop where
  accepted : ∀ script ∈ settings.scripts, script.accepted = true
  scripts : ∀ script ∈ settings.scripts, ∀ other ∈ settings.scripts,
    script.trigger = other.trigger → script.name = other.name → script = other
  cron : ∀ job ∈ settings.cron, ∀ other ∈ settings.cron, job.name = other.name → job = other
  trustedCerts : ∀ anchor ∈ settings.trustedCerts, ∀ other ∈ settings.trustedCerts,
    anchor.name = other.name → anchor = other
  sudoRules : ∀ rule ∈ settings.sudoRules, ∀ other ∈ settings.sudoRules, rule.name = other.name → rule = other

theorem mem_anchorWrites {anchor : TrustedCert} {entry : String × String} (h : entry ∈ pass.anchorWrites anchor) :
    entry = (anchorPath anchor, anchorBody anchor) ∨ entry = (browserPath anchor, anchorBody anchor) := by
  unfold anchorWrites at h
  split at h
  · cases h
  · split at h
    · simpa using h
    · simp only [List.mem_singleton] at h
      exact .inl h

theorem mem_nssdbWrites {entry : String × String} (h : entry ∈ pass.nssdbWrites) :
    entry.1 = nssdbList ∨ entry = (nssdbHook, nssdbScript) ∧
      pass.settings.trustedCerts.any pass.anchorInstalled = true ∧ pass.goes nssdbList = true := by
  unfold nssdbWrites at h
  split at h
  · rename_i hinstalled
    rcases List.mem_cons.mp h with rfl | h
    · exact .inl rfl
    · split at h
      · rename_i hlist
        exact .inr ⟨List.mem_singleton.mp h, hinstalled, hlist⟩
      · cases h
  · cases h

theorem mem_sudoRuleWrites {rule : SudoRule} {entry : String × String} (h : entry ∈ pass.sudoRuleWrites rule) :
    entry.1 = sudoersStaging ∨ entry = (sudoPath rule, sudoBody rule) := by
  unfold sudoRuleWrites at h
  rcases List.mem_cons.mp h with rfl | h
  · exact .inl rfl
  · split at h
    · exact .inr (List.mem_singleton.mp h)
    · cases h

theorem area_certWrites {entry : String × String} (h : entry ∈ pass.certWrites) :
    area (located entry.1) = "/usr/local/s".toList ∨ area (located entry.1) = "/usr/lib/moz".toList := by
  obtain ⟨anchor, -, hentry⟩ := List.mem_flatMap.mp h
  rcases mem_anchorWrites hentry with rfl | rfl
  · exact .inl (area_anchor anchor)
  · exact .inr (area_browser anchor)

theorem area_sudoRuleWrites {entry : String × String} (h : entry ∈ pass.settings.sudoRules.flatMap pass.sudoRuleWrites) :
    area (located entry.1) = "/etc/odm/sud".toList ∨ area (located entry.1) = "/etc/sudoers".toList := by
  obtain ⟨rule, -, hentry⟩ := List.mem_flatMap.mp h
  rcases mem_sudoRuleWrites hentry with hstaging | rfl
  · left
    rw [hstaging]
    decide
  · exact .inr (area_sudo rule)

theorem located_nssdbList : located nssdbList = nssdbList := by decide

theorem located_nssdbHook : located nssdbHook = nssdbHook := by decide

theorem anchorPath_ne_list (anchor : TrustedCert) : located (anchorPath anchor) ≠ nssdbList := by
  intro heq
  have hlast := congrArg (fun path : String => path.toList.reverse.take 5) heq
  rw [located_anchorPath] at hlast
  simp only [String.toList_append, List.reverse_append] at hlast
  revert hlast
  have hcrt : ".crt".toList.reverse = ['t', 'r', 'c', '.'] := by decide
  have hlist : nssdbList.toList.reverse.take 5 = ['t', 's', 'i', 'l', '.'] := by decide
  rw [hcrt, hlist]
  simp

theorem kept_sudoRule (htold : Told pass.settings) (hapart : pass.Apart)
    (hclear : Distinct SudoRule.name pass.settings.sudoRules) {entry : String × String} (hentry : entry ∈ pass.sudoWrites)
    (hgoes : pass.goes (located entry.1) = true) (machine : Machine) :
    (pass.run.next machine).files (located entry.1) = some entry.2 := by
  have haway := atOnly_away entry.2 hapart.sudoRules hentry
  obtain ⟨rule, hrule, rfl⟩ := List.mem_map.mp hentry
  obtain ⟨hmem, hinstalls⟩ := List.mem_filter.mp hrule
  refine next_files_atOnly (List.append_assoc _ _ _) (neverPrune_of_area ?_) (atOnly_append.mpr ⟨?_, haway⟩) ?_ machine
  · rw [area_sudo]
    simp
  · refine atOnly_puts hgoes fun other hother hpath => ?_
    obtain ⟨rule', hmem', hother⟩ := List.mem_flatMap.mp hother
    rcases mem_sudoRuleWrites hother with hstaging | rfl
    · have harea := congrArg area hpath
      rw [hstaging, area_sudo] at harea
      exact absurd harea (by decide)
    · rw [located_sudoPath, located_sudoPath, String.append_right_inj] at hpath
      rw [htold.sudoRules rule' hmem' rule hmem (hclear rule' hmem' rule hmem hpath)]
  · have hput : (sudoPath rule, sudoBody rule) ∈ pass.settings.sudoRules.flatMap pass.sudoRuleWrites := by
      refine List.mem_flatMap.mpr ⟨rule, hmem, ?_⟩
      rw [sudoRuleWrites, if_pos hinstalls]
      exact .tail _ List.mem_cons_self
    obtain ⟨call, hcall, hpath⟩ := mem_puts pass hput
    exact ⟨call, List.mem_append_left _ hcall, hpath⟩

theorem sudo_elsewhere (content : String) (hgoes : pass.goes path = true) (harea : area path ≠ "/etc/odm/sud".toList)
    (harea' : area path ≠ "/etc/sudoers".toList) :
    AtOnly path content (pass.puts (pass.settings.sudoRules.flatMap pass.sudoRuleWrites)) := by
  refine atOnly_puts hgoes fun entry hentry hpath => ?_
  rcases area_sudoRuleWrites hentry with h | h
  · exact absurd (hpath ▸ h) harea
  · exact absurd (hpath ▸ h) harea'

theorem kept_cert (htold : Told pass.settings) (hapart : pass.Apart)
    (hclear : Distinct TrustedCert.name pass.settings.trustedCerts) {entry : String × String}
    (hentry : entry ∈ pass.certWrites) (hgoes : pass.goes (located entry.1) = true) (machine : Machine) :
    (pass.run.next machine).files (located entry.1) = some entry.2 := by
  have haway := atOnly_append.mp (atOnly_away entry.2 hapart.certs hentry)
  have harea := area_certWrites hentry
  have hsame : ∀ other ∈ pass.certWrites, located other.1 = located entry.1 → other.2 = entry.2 := by
    intro other hother hpath
    obtain ⟨anchor, hanchor, hentry⟩ := List.mem_flatMap.mp hentry
    obtain ⟨anchor', hanchor', hother⟩ := List.mem_flatMap.mp hother
    have hbody : fileName anchor'.name ++ ".crt" = fileName anchor.name ++ ".crt" → anchorBody anchor' = anchorBody anchor := by
      intro hname
      rw [String.append_left_inj] at hname
      rw [htold.trustedCerts anchor' hanchor' anchor hanchor (hclear anchor' hanchor' anchor hanchor hname)]
    have hdiffer : "/usr/local/s".toList ≠ "/usr/lib/moz".toList := by decide
    rcases mem_anchorWrites hentry with rfl | rfl
    · rcases mem_anchorWrites hother with rfl | rfl
      · rw [located_anchorPath, located_anchorPath, String.append_right_inj] at hpath
        exact hbody hpath
      · have h := congrArg area hpath
        rw [area_browser, area_anchor] at h
        exact absurd h.symm hdiffer
    · rcases mem_anchorWrites hother with rfl | rfl
      · have h := congrArg area hpath
        rw [area_browser, area_anchor] at h
        exact absurd h hdiffer
      · rw [located_browserPath, located_browserPath, String.append_right_inj] at hpath
        exact hbody hpath
  have hputs : AtOnly (located entry.1) entry.2 (pass.puts (pass.certWrites ++ pass.nssdbWrites)) := by
    refine atOnly_puts hgoes fun other hother hpath => ?_
    rcases List.mem_append.mp hother with hother | hother
    · exact hsame other hother hpath
    · exfalso
      rcases mem_nssdbWrites hother with hlist | ⟨rfl, -⟩
      · rw [hlist, located_nssdbList] at hpath
        obtain ⟨anchor, -, hentry⟩ := List.mem_flatMap.mp hentry
        rcases mem_anchorWrites hentry with rfl | rfl
        · exact anchorPath_ne_list anchor hpath.symm
        · have h := congrArg area hpath
          rw [area_browser] at h
          exact absurd h (by decide)
      · rw [located_nssdbHook] at hpath
        rw [← hpath] at harea
        exact absurd harea (by decide)
  have hcalls : pass.run.calls = (pass.first ++ pass.puts pass.scriptWrites ++ pass.afterScripts ++
      pass.puts pass.cronWrites ++ pass.afterCron) ++ (pass.puts (pass.certWrites ++ pass.nssdbWrites) ++
        (pass.afterCerts ++ (pass.puts (pass.settings.sudoRules.flatMap pass.sudoRuleWrites) ++ pass.afterSudo))) := by
    simp only [run, List.append_assoc]
  have hsudo := sudo_elsewhere entry.2 hgoes
    (by rcases harea with h | h <;> rw [h] <;> decide) (by rcases harea with h | h <;> rw [h] <;> decide)
  refine next_files_atOnly hcalls (neverPrune_of_area ?_) ?_ ?_ machine
  · rcases harea with h | h <;> rw [h] <;> simp
  · rw [atOnly_append, atOnly_append, atOnly_append]
    exact ⟨hputs, haway.1, hsudo, haway.2⟩
  · obtain ⟨call, hcall, hpath⟩ := mem_puts pass (List.mem_append_left pass.nssdbWrites hentry)
    exact ⟨call, List.mem_append_left _ hcall, hpath⟩

theorem certs_elsewhere (content : String) (hgoes : pass.goes path = true) (harea : area path ≠ "/usr/local/s".toList)
    (harea' : area path ≠ "/usr/lib/moz".toList)
    (hhook : path = nssdbHook → pass.settings.trustedCerts.any pass.anchorInstalled = true → pass.goes nssdbList = true →
      content = nssdbScript) :
    AtOnly path content (pass.puts (pass.certWrites ++ pass.nssdbWrites)) := by
  refine atOnly_puts hgoes fun entry hentry hpath => ?_
  rcases List.mem_append.mp hentry with hentry | hentry
  · rcases area_certWrites hentry with h | h
    · exact absurd (hpath ▸ h) harea
    · exact absurd (hpath ▸ h) harea'
  · rcases mem_nssdbWrites hentry with hlist | ⟨rfl, hinstalled, hlist⟩
    · rw [hlist, located_nssdbList] at hpath
      exact absurd (hpath ▸ by decide) harea
    · rw [located_nssdbHook] at hpath
      exact (hhook hpath.symm hinstalled hlist).symm

theorem kept_cron (htold : Told pass.settings) (hapart : pass.Apart)
    (hclear : Distinct CronJob.name pass.settings.cron) {entry : String × String} (hentry : entry ∈ pass.cronWrites)
    (hgoes : pass.goes (located entry.1) = true) (machine : Machine) :
    (pass.run.next machine).files (located entry.1) = some entry.2 := by
  have haway := atOnly_append.mp (atOnly_away entry.2 hapart.cron hentry)
  obtain ⟨haway, hawaySudo⟩ := haway
  obtain ⟨hawayCron, hawayCerts⟩ := atOnly_append.mp haway
  have hput := mem_puts pass hentry
  obtain ⟨job, hjob, rfl⟩ := List.mem_map.mp hentry
  have harea := area_cron job
  have hputs : AtOnly (located (cronPath job)) (cronBody job) (pass.puts pass.cronWrites) := by
    refine atOnly_puts hgoes fun other hother hpath => ?_
    obtain ⟨job', hjob', rfl⟩ := List.mem_map.mp hother
    rw [located_cronPath, located_cronPath, String.append_right_inj] at hpath
    rw [htold.cron job' hjob' job hjob (hclear job' hjob' job hjob hpath)]
  have hcerts := certs_elsewhere (cronBody job) hgoes (by rw [harea]; decide) (by rw [harea]; decide)
    fun hhook => absurd (hhook ▸ harea) (by decide)
  have hsudo := sudo_elsewhere (cronBody job) hgoes (by rw [harea]; decide) (by rw [harea]; decide)
  have hcalls : pass.run.calls = (pass.first ++ pass.puts pass.scriptWrites ++ pass.afterScripts) ++
      (pass.puts pass.cronWrites ++ (pass.afterCron ++ (pass.puts (pass.certWrites ++ pass.nssdbWrites) ++
        (pass.afterCerts ++ (pass.puts (pass.settings.sudoRules.flatMap pass.sudoRuleWrites) ++ pass.afterSudo))))) := by
    simp only [run, List.append_assoc]
  refine next_files_atOnly hcalls (neverPrune_of_area ?_) ?_ ?_ machine
  · rw [harea]
    simp
  · rw [atOnly_append, atOnly_append, atOnly_append, atOnly_append, atOnly_append]
    exact ⟨hputs, hawayCron, hcerts, hawayCerts, hsudo, hawaySudo⟩
  · obtain ⟨call, hcall, hpath⟩ := hput
    exact ⟨call, List.mem_append_left _ hcall, hpath⟩

theorem scriptPath_hook {script : Script} (h : script.accepted = true) :
    scriptPath script = nssdbHook ↔ script.trigger = "logon" ∧ script.name = "odm-trust-nssdb" := by
  constructor
  · intro hpath
    exact @scriptPath_inj _ ⟨"logon", "odm-trust-nssdb", "/bin/sh", ""⟩ h (by decide) hpath
  · rintro ⟨htrigger, hname⟩
    rw [scriptPath, htrigger, hname]
    decide

theorem kept_script (htold : Told pass.settings) (hapart : pass.Apart)
    (hhook : pass.settings.trustedCerts.any pass.anchorInstalled = true → pass.goes nssdbList = true →
      pass.goes nssdbHook = true → ∀ script ∈ pass.settings.scripts, script.trigger = "logon" →
        script.name = "odm-trust-nssdb" → scriptBody script = nssdbScript)
    {entry : String × String} (hentry : entry ∈ pass.scriptWrites)
    (hgoes : pass.goes (located entry.1) = true) (machine : Machine) :
    (pass.run.next machine).files (located entry.1) = some entry.2 := by
  have haway := atOnly_append.mp (atOnly_away entry.2 hapart.scripts hentry)
  obtain ⟨haway, hawaySudo⟩ := haway
  obtain ⟨haway, hawayCerts⟩ := atOnly_append.mp haway
  obtain ⟨hawayScripts, hawayCron⟩ := atOnly_append.mp haway
  have hput := mem_puts pass hentry
  obtain ⟨script, hscript, rfl⟩ := List.mem_map.mp hentry
  have haccepted := htold.accepted script hscript
  have harea := area_script haccepted
  have hputs : AtOnly (located (scriptPath script)) (scriptBody script) (pass.puts pass.scriptWrites) := by
    refine atOnly_puts hgoes fun other hother hpath => ?_
    obtain ⟨script', hscript', rfl⟩ := List.mem_map.mp hother
    have haccepted' := htold.accepted script' hscript'
    rw [located_scriptPath haccepted, located_scriptPath haccepted'] at hpath
    obtain ⟨htrigger, hname⟩ := scriptPath_inj haccepted' haccepted hpath
    rw [htold.scripts script' hscript' script hscript htrigger hname]
  have hcron : AtOnly (located (scriptPath script)) (scriptBody script) (pass.puts pass.cronWrites) := by
    refine atOnly_puts hgoes fun other hother hpath => ?_
    obtain ⟨job, -, rfl⟩ := List.mem_map.mp hother
    have h := congrArg area hpath
    rw [harea, area_cron] at h
    exact absurd h (by decide)
  have hcerts := certs_elsewhere (scriptBody script) hgoes (by rw [harea]; decide) (by rw [harea]; decide)
    fun hpath hinstalled hlist => by
      rw [hpath] at hgoes
      rw [located_scriptPath haccepted] at hpath
      obtain ⟨htrigger, hname⟩ := (scriptPath_hook haccepted).mp hpath
      exact hhook hinstalled hlist hgoes script hscript htrigger hname
  have hsudo := sudo_elsewhere (scriptBody script) hgoes (by rw [harea]; decide) (by rw [harea]; decide)
  have hcalls : pass.run.calls = pass.first ++ (pass.puts pass.scriptWrites ++ (pass.afterScripts ++
      (pass.puts pass.cronWrites ++ (pass.afterCron ++ (pass.puts (pass.certWrites ++ pass.nssdbWrites) ++
        (pass.afterCerts ++ (pass.puts (pass.settings.sudoRules.flatMap pass.sudoRuleWrites) ++
          pass.afterSudo))))))) := by
    simp only [run, List.append_assoc]
  refine next_files_atOnly hcalls (neverPrune_of_area ?_) ?_ ?_ machine
  · rw [harea]
    simp
  · rw [atOnly_append, atOnly_append, atOnly_append, atOnly_append, atOnly_append, atOnly_append, atOnly_append]
    exact ⟨hputs, hawayScripts, hcron, hawayCron, hcerts, hawayCerts, hsudo, hawaySudo⟩
  · obtain ⟨call, hcall, hpath⟩ := hput
    exact ⟨call, List.mem_append_left _ hcall, hpath⟩

theorem hook_written (hapart : pass.Apart) (hinstalled : pass.settings.trustedCerts.any pass.anchorInstalled = true)
    (hlist : pass.goes nssdbList = true) (hgoes : pass.goes nssdbHook = true) {entry : String × String}
    (hentry : entry ∈ pass.scriptWrites) (hpath : located entry.1 = nssdbHook) (machine : Machine) :
    (pass.run.next machine).files nssdbHook = some nssdbScript := by
  have haway := atOnly_append.mp (atOnly_away nssdbScript hapart.scripts hentry)
  rw [hpath] at haway
  have harea : area nssdbHook = "/etc/odm/scr".toList := by decide
  have hcerts := certs_elsewhere nssdbScript hgoes (by rw [harea]; decide) (by rw [harea]; decide)
    fun _ _ _ => rfl
  have hsudo := sudo_elsewhere nssdbScript hgoes (by rw [harea]; decide) (by rw [harea]; decide)
  have hcalls : pass.run.calls = (pass.first ++ pass.puts pass.scriptWrites ++ pass.afterScripts ++
      pass.puts pass.cronWrites ++ pass.afterCron) ++ (pass.puts (pass.certWrites ++ pass.nssdbWrites) ++
        (pass.afterCerts ++ (pass.puts (pass.settings.sudoRules.flatMap pass.sudoRuleWrites) ++ pass.afterSudo))) := by
    simp only [run, List.append_assoc]
  refine next_files_atOnly hcalls (neverPrune_of_area ?_) ?_ ?_ machine
  · rw [harea]
    simp
  · rw [atOnly_append, atOnly_append, atOnly_append]
    exact ⟨hcerts, (atOnly_append.mp haway.1).2, hsudo, haway.2⟩
  · have hmem : (nssdbHook, nssdbScript) ∈ pass.nssdbWrites := by
      rw [nssdbWrites, if_pos hinstalled, if_pos hlist]
      exact .tail _ List.mem_cons_self
    obtain ⟨call, hcall, hat⟩ := mem_puts pass (List.mem_append_right pass.certWrites hmem)
    rw [located_nssdbHook] at hat
    exact ⟨call, List.mem_append_left _ hcall, hat⟩

theorem distinct_of_separate {α : Type} {name : α → String} {path : α → String} {entries : List α}
    (hpath : ∀ entry other, fileName (name entry) = fileName (name other) → located (path entry) = located (path other))
    (h : Separate name path entries) : Distinct name entries := by
  intro entry hentry other hother hsame
  by_contra hne
  exact h entry hentry other hother hne (hpath entry other hsame)

theorem separate_of_distinct {α : Type} {name : α → String} {path : α → String} {entries : List α}
    (hpath : ∀ entry other, located (path entry) = located (path other) → fileName (name entry) = fileName (name other))
    (h : Distinct name entries) : Separate name path entries :=
  fun entry hentry other hother hne hsame => hne (h entry hentry other hother (hpath entry other hsame))

theorem ownFiles_of_clear (htold : Told pass.settings) (hapart : pass.Apart) (h : pass.Clear) : pass.OwnFiles where
  scripts := by
    intro script hscript other hother hne hpath
    have haccepted := htold.accepted script hscript
    have haccepted' := htold.accepted other hother
    rw [located_scriptPath haccepted, located_scriptPath haccepted'] at hpath
    obtain ⟨htrigger, hname⟩ := scriptPath_inj haccepted haccepted' hpath
    exact hne (Prod.ext htrigger hname)
  cron := by
    refine separate_of_distinct (fun job other hpath => ?_) h.cron
    rwa [located_cronPath, located_cronPath, String.append_right_inj] at hpath
  anchors := by
    refine separate_of_distinct (fun anchor other hpath => ?_) h.anchors
    rwa [located_anchorPath, located_anchorPath, String.append_right_inj, String.append_left_inj] at hpath
  copies := by
    refine separate_of_distinct (fun anchor other hpath => ?_) h.anchors
    rwa [located_browserPath, located_browserPath, String.append_right_inj, String.append_left_inj] at hpath
  sudoRules := by
    refine separate_of_distinct (fun rule other hpath => ?_) h.sudoRules
    rwa [located_sudoPath, located_sudoPath, String.append_right_inj] at hpath
  kept := by
    intro entry hentry hgoes machine
    simp only [entryWrites, List.mem_append] at hentry
    rcases hentry with ((hscript | hcron) | hcert) | hrule
    · exact kept_script htold hapart h.hook hscript hgoes machine
    · exact kept_cron htold hapart h.cron hcron hgoes machine
    · exact kept_cert htold hapart h.anchors hcert hgoes machine
    · exact kept_sudoRule htold hapart h.sudoRules hrule hgoes machine

theorem clear_of_ownFiles (htold : Told pass.settings) (hapart : pass.Apart) (h : pass.OwnFiles) : pass.Clear where
  cron := by
    refine distinct_of_separate (fun job other hname => ?_) h.cron
    rw [located_cronPath, located_cronPath, hname]
  anchors := by
    refine distinct_of_separate (fun anchor other hname => ?_) h.anchors
    rw [located_anchorPath, located_anchorPath, hname]
  sudoRules := by
    refine distinct_of_separate (fun rule other hname => ?_) h.sudoRules
    rw [located_sudoPath, located_sudoPath, hname]
  hook := by
    intro hinstalled hlist hgoes script hscript htrigger hname
    have haccepted := htold.accepted script hscript
    have hpath : located (scriptPath script) = nssdbHook := by
      rw [located_scriptPath haccepted]
      exact (scriptPath_hook haccepted).mpr ⟨htrigger, hname⟩
    have hwrite : (scriptPath script, scriptBody script) ∈ pass.scriptWrites := List.mem_map.mpr ⟨script, hscript, rfl⟩
    have hentry : (scriptPath script, scriptBody script) ∈ pass.entryWrites :=
      List.mem_append_left _ (List.mem_append_left _ (List.mem_append_left _ hwrite))
    have hkept := h.kept _ hentry (by rw [hpath]; exact hgoes) ⟨fun _ => none, {}⟩
    rw [hpath, hook_written hapart hinstalled hlist hgoes hwrite hpath] at hkept
    exact (Option.some.inj hkept).symm

end EntryPass

section

open Policy EntryPass

variable [Runtime]

/-- What the agent reads of the document. -/
def entriesOf (merged : Value.Fields) : EntrySettings where
  scripts := (mergedList merged "scripts").filterMap Script.read
  cron := (mergedList merged "cron").filterMap CronJob.read
  trustedCerts := (mergedList merged "trusted_certificates").filterMap TrustedCert.read
  sudoRules := (mergedList merged "sudo_rules").filterMap SudoRule.read

variable {gpos : List Gpo} {target : Option Target} {merged : Value.Fields}

theorem eq_of_identity (h : ∀ gpo ∈ gpos, gpo.Shaped)
     (hmerged : mergeSettings gpos target = .ok merged) {category : String}
    (hcategory : category ∈ Dict.keys listKeys) {item other : Value} (hitem : item ∈ mergedList merged category)
    (hother : other ∈ mergedList merged category) (hsame : identity category item = identity category other) :
    item = other := by
  rw [mergedList_eq h hmerged hcategory] at hitem hother
  have hfilter := Dict.filter_values_index (identity category) (passingEntries gpos target category)
    (Dict.mem_values_index.mp hother)
  have hmem : item ∈ [other] := by
    rw [← hfilter]
    exact List.mem_filter.mpr ⟨hitem, decide_eq_true hsame⟩
  exact List.mem_singleton.mp hmem

theorem eq_of_name (h : ∀ gpo ∈ gpos, gpo.Shaped)
    (hmerged : mergeSettings gpos target = .ok merged) {category : String}
    (hkeys : Dict.get listKeys category = some ["name"]) {α : Type} {read : Value → Option α} {name : α → String}
    (hread : ∀ item entry, read item = some entry → item.field "name" = some (.str (name entry))) :
    ∀ entry ∈ (mergedList merged category).filterMap read, ∀ other ∈ (mergedList merged category).filterMap read,
      name entry = name other → entry = other := by
  intro entry hentry other hother hname
  obtain ⟨item, hitem, hentry⟩ := List.mem_filterMap.mp hentry
  obtain ⟨item', hitem', hother⟩ := List.mem_filterMap.mp hother
  have hcategory : category ∈ Dict.keys listKeys := by
    by_contra hnot
    rw [Dict.get_eq_none_iff.mpr hnot] at hkeys
    cases hkeys
  have hsame : identity category item = identity category item' := by
    rw [identity, identity, hkeys]
    simp [hread _ _ hentry, hread _ _ hother, hname]
  obtain rfl := eq_of_identity h hmerged hcategory hitem hitem' hsame
  exact Option.some.inj (hentry.symm.trans hother)

theorem told_entriesOf (h : ∀ gpo ∈ gpos, gpo.Shaped)
     (hmerged : mergeSettings gpos target = .ok merged) : Told (entriesOf merged) where
  accepted := by
    intro script hscript
    obtain ⟨item, -, hread⟩ := List.mem_filterMap.mp hscript
    exact (Script.read_eq hread).2.2
  scripts := by
    intro script hscript other hother htrigger hname
    obtain ⟨item, hitem, hread⟩ := List.mem_filterMap.mp hscript
    obtain ⟨item', hitem', hread'⟩ := List.mem_filterMap.mp hother
    obtain ⟨hfield, hfield', -⟩ := Script.read_eq hread
    obtain ⟨hother, hother', -⟩ := Script.read_eq hread'
    have hkeys : Dict.get listKeys "scripts" = some ["trigger", "name"] := by decide
    have hsame : identity "scripts" item = identity "scripts" item' := by
      rw [identity, identity, hkeys]
      simp [hfield, hfield', hother, hother', htrigger, hname]
    obtain rfl := eq_of_identity h hmerged (by decide) hitem hitem' hsame
    exact Option.some.inj (hread.symm.trans hread')
  cron := eq_of_name h hmerged (by decide) fun _ _ hread => (CronJob.read_eq hread).1
  trustedCerts := eq_of_name h hmerged (by decide) fun _ _ hread => (TrustedCert.read_eq hread).1
  sudoRules := eq_of_name h hmerged (by decide) fun _ _ hread => (SudoRule.read_eq hread).1

/-- Different entries of a merged document get files of their own, which hold after a pass what the entries say, exactly
when no two names of a category are alike once their dots are dashes, and no logon script is named as the one the agent
writes for browsers when a certificate is installed. -/
theorem ownFiles_iff {gpos : List Gpo} (h : ∀ gpo ∈ gpos, gpo.Shaped) {target : Option Target} {merged : Value.Fields}
    (hmerged : mergeSettings gpos target = .ok merged) {pass : EntryPass} (hsettings : pass.settings = entriesOf merged)
    (hapart : pass.Apart) : pass.OwnFiles ↔ pass.Clear := by
  have htold : Told pass.settings := hsettings ▸ told_entriesOf h hmerged
  exact ⟨clear_of_ownFiles htold hapart, ownFiles_of_clear htold hapart⟩

def cronItem (name command : String) : Value :=
  .obj [("name", .str name), ("schedule", .str "0 1 * * *"), ("command", .str command), ("user", .str "root")]

/-- Two jobs in one policy object. -/
def jobsGpo (name name' : String) : Gpo where
  guid := "g"
  displayName := "Jobs"
  enabled := true
  settings := [("cron", .arr [cronItem name "/opt/dump", cronItem name' "/opt/sync"])]
  settingsDistinct := by simp [cronItem, Dict.keys, Value.distinct, Value.distinctItems, Value.distinctFields]

theorem shaped_jobsGpo (name name' : String) : (jobsGpo name name').Shaped := by
  have honly : ∀ category value, Dict.get (jobsGpo name name').settings category = some value →
      category = "cron" ∧ value = .arr [cronItem name "/opt/dump", cronItem name' "/opt/sync"] := by
    intro category value hvalue
    simpa [jobsGpo] using Dict.mem_of_get hvalue
  constructor
  · intro category _ value hvalue
    obtain ⟨rfl, rfl⟩ := honly category value hvalue
    refine ⟨_, rfl, fun item hitem _ target => ⟨true, ?_⟩⟩
    apply entryApplies_untargeted
    rcases List.mem_pair.mp hitem with rfl | rfl <;> simp [cronItem, Value.field, Dict.get_cons]
  · intro category hcategory value hvalue
    obtain ⟨rfl, rfl⟩ := honly category value hvalue
    exact absurd hcategory (by decide)

def jobsPass (name name' : String) : EntryPass where
  settings := { cron := [⟨name, "0 1 * * *", "/opt/dump", "root"⟩, ⟨name', "0 1 * * *", "/opt/sync", "root"⟩] }

section
omit [Runtime]

theorem apart_jobsPass (name name' : String) : (jobsPass name name').Apart := ⟨nofun, nofun, nofun, nofun⟩

theorem ownFiles_iff_jobs : (jobsPass "backup" "report").OwnFiles := by
  let _ := Runtime.latin
  have hgpos : ∀ gpo ∈ [jobsGpo "backup" "report"], gpo.Shaped := by simp [shaped_jobsGpo]
  have hmerged : mergeSettings [jobsGpo "backup" "report"] none =
      .ok [("cron", .arr [cronItem "backup" "/opt/dump", cronItem "report" "/opt/sync"])] := rfl
  refine (ownFiles_iff hgpos hmerged (by decide +kernel) (apart_jobsPass _ _)).mpr ⟨?_, nofun, nofun, nofun⟩
  unfold Distinct
  decide

/-- Two jobs one policy object may hold share a file, and one of them is not on the machine after the pass. -/
theorem dotted_jobs_meet :
    letI := Runtime.latin
    let pass := jobsPass "nightly.backup" "nightly-backup"
    (∀ gpo ∈ [jobsGpo "nightly.backup" "nightly-backup"], gpo.Shaped) ∧
      (∃ merged, mergeSettings [jobsGpo "nightly.backup" "nightly-backup"] none = .ok merged ∧
        pass.settings = entriesOf merged) ∧ pass.Apart ∧
      (∀ job ∈ pass.settings.cron, job.accepted = true ∧ cronPath job = "/etc/cron.d/odm-nightly-backup") ∧
      (pass.run.next ⟨fun _ => none, {}⟩).files "/etc/cron.d/odm-nightly-backup" =
        some (cronBody ⟨"nightly-backup", "0 1 * * *", "/opt/sync", "root"⟩) ∧ ¬ pass.OwnFiles := by
  let _ := Runtime.latin
  refine ⟨by simp [shaped_jobsGpo], ⟨_, rfl, by decide +kernel⟩, apart_jobsPass _ _, by decide, by decide +kernel,
    fun h => ?_⟩
  have hpaths := h.cron ⟨"nightly.backup", "0 1 * * *", "/opt/dump", "root"⟩ (by decide)
    ⟨"nightly-backup", "0 1 * * *", "/opt/sync", "root"⟩ (by decide) (by decide)
  exact hpaths (by decide +kernel)

end

end

end OpenDirectory.Agent
