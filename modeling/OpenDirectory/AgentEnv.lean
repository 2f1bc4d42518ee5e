import OpenDirectory.Lists
import OpenDirectory.Text

/-! The machine as the agent writes to it: files, the blocks kept inside files of the system, and the
record of both by which a later run takes away what no policy asks for any more. -/

namespace OpenDirectory.Agent

abbrev Files := String → Option String

/-- Files the agent owns, and files it only keeps a block inside. -/
structure State where
  owned : List String := []
  blocks : List String := []
  nodupOwned : owned.Nodup := by first | exact List.nodup_nil | decide
  nodupBlocks : blocks.Nodup := by first | exact List.nodup_nil | decide

namespace State

def own (state : State) (path : String) : State where
  owned := state.owned.insert path
  blocks := state.blocks
  nodupOwned := state.nodupOwned.insert
  nodupBlocks := state.nodupBlocks

/-- A file cannot be both, and the block wins. -/
def ownBlock (state : State) (path : String) : State where
  owned := state.owned.filter (· ≠ path)
  blocks := state.blocks.insert path
  nodupOwned := state.nodupOwned.filter _
  nodupBlocks := state.nodupBlocks.insert

def dropBlock (state : State) (path : String) : State where
  owned := state.owned
  blocks := state.blocks.filter (· ≠ path)
  nodupOwned := state.nodupOwned
  nodupBlocks := state.nodupBlocks.filter _

/-- A run that records a path keeps what is there from being taken away. -/
def Claims (state : State) (path : String) : Prop := path ∈ state.owned ∨ path ∈ state.blocks

instance (state : State) (path : String) : Decidable (state.Claims path) :=
  inferInstanceAs (Decidable (_ ∨ _))

variable (state : State) (path other : String)

@[simp] theorem mem_own_owned : other ∈ (state.own path).owned ↔ other = path ∨ other ∈ state.owned :=
  List.mem_insert_iff

@[simp] theorem own_blocks : (state.own path).blocks = state.blocks := rfl

@[simp] theorem mem_ownBlock_owned :
    other ∈ (state.ownBlock path).owned ↔ other ∈ state.owned ∧ other ≠ path := by
  simp [ownBlock]

@[simp] theorem mem_ownBlock_blocks :
    other ∈ (state.ownBlock path).blocks ↔ other = path ∨ other ∈ state.blocks :=
  List.mem_insert_iff

@[simp] theorem dropBlock_owned : (state.dropBlock path).owned = state.owned := rfl

@[simp] theorem mem_dropBlock_blocks :
    other ∈ (state.dropBlock path).blocks ↔ other ∈ state.blocks ∧ other ≠ path := by
  simp [dropBlock]

end State

structure Env where
  files : Files
  state : State := {}

/-- Files the agent may write but never deletes. -/
def neverPruned : List String := [
  "/etc/plymouth/plymouthd.conf", "/etc/initramfs-tools/modules",
  "/var/lib/odm/initrd-backup.img", "/etc/odm/tls/api-ca.pem", "/etc/UPower/UPower.conf",
  "/var/lib/odm/UPower.conf.original"]

def neverPrune (path : String) : Bool := path ∈ neverPruned || Text.startsWith path "/boot/"

def Files.put (files : Files) (path content : String) : Files :=
  Function.update files path (some content)

def Files.remove (files : Files) (path : String) : Files := Function.update files path none

theorem Files.put_of_ne (files : Files) {path other : String} (h : other ≠ path) (content : String) :
    files.put path content other = files other := Function.update_of_ne h _ _

/-- A file written whole, by a rename that either happens or does not; and whether it did. -/
def writeFile (goes : Bool) (env : Env) (path content : String) : Env × Bool :=
  if goes then
    ({ files := env.files.put path content
       state := if neverPrune path then env.state else env.state.own path }, true)
  else (env, false)

def blockStart : String := "# BEGIN ODM MANAGED BLOCK"

def blockEnd : String := "# END ODM MANAGED BLOCK"

/-- A file without the agent's section; one that is never closed runs to the end. -/
def stripBlock (content : String) : String :=
  match Text.cutAt blockStart.toList content.toList with
  | none => content
  | some (before, _) =>
      match Text.cutAt blockEnd.toList (content.toList.drop before.length) with
      | none => String.ofList before
      | some (_, tail) =>
          String.ofList (before ++ if tail.head? = some '\n' then tail.drop 1 else tail)

/-- White space as Go trims it. -/
def goSpace (c : Char) : Bool :=
  c ∈ ['\t', '\n', '\x0b', '\x0c', '\r', ' ', '\u0085', '\u00a0', '\u1680', '\u2028', '\u2029',
    '\u202f', '\u205f', '\u3000'] || ('\u2000' ≤ c && c ≤ '\u200a')

/-- A line the block has to come before: one that makes a home directory. -/
def mustFollow (line : String) : Bool :=
  let trimmed := Text.strip goSpace line
  !Text.startsWith trimmed "#" && Text.holds trimmed "pam_mkhomedir.so"

def ended (text : String) : String :=
  if text ≠ "" && !Text.endsWith text "\n" then text ++ "\n" else text

/-- A file with a section put where it has to be: at the end, or before the first line that must
follow it. -/
def place (kept section_ : String) : String :=
  let lines := Text.split '\n' kept
  let before := lines.takeWhile fun line => !mustFollow line
  let after := lines.drop before.length
  if after.isEmpty then kept ++ section_
  else ended (Text.join "\n" before) ++ section_ ++ Text.join "\n" after

def section_ (body : String) : String :=
  blockStart ++ "\n" ++ (if Text.endsWith body "\n" then body else body ++ "\n") ++ blockEnd ++ "\n"

/-- Whether the machine lets a file be read and written. -/
structure Access where
  reads : Bool := true
  writes : Bool := true
  deriving DecidableEq

/-- The agent's section of a file rewritten, or taken out by an empty body; and whether that went
through. -/
def replaceBlock (access : Access) (env : Env) (path body : String) : Env × Bool :=
  if !access.reads then (env, false)
  else
    let existing := (env.files path).getD ""
    let kept := stripBlock existing
    if body = "" then
      if !Text.holds existing blockStart then (env, true)
      else
        let (env, went) := writeFile access.writes env path kept
        -- the record goes whether or not the block did
        ({ env with state := (env.state.ownBlock path).dropBlock path }, went)
    else
      let (env, went) := writeFile access.writes env path (place (ended kept) (section_ body))
      if went then ({ env with state := env.state.ownBlock path }, true) else (env, false)

/-- A file the last run owned, deleted unless this run claims it; the files deleted are noted. -/
def pruneFile (removes : String → Bool) (pass : Env × List String) (path : String) :
    Env × List String :=
  if decide (pass.1.state.Claims path) || neverPrune path then pass
  else if removes path && (pass.1.files path).isSome then
    ({ pass.1 with files := pass.1.files.remove path }, pass.2 ++ [path])
  else pass

/-- A block the last run kept, taken out unless this run claims its file. -/
def pruneBlock (access : String → Access) (pass : Env × List String) (path : String) :
    Env × List String :=
  if pass.1.state.Claims path then pass
  else
    let (env, went) := replaceBlock (access path) pass.1 path ""
    (env, if went then pass.2 ++ [path ++ " (block)"] else pass.2)

/-- What the last run owned and this one does not, taken away as far as the machine lets it. -/
def prune (removes : String → Bool) (access : String → Access) (previous : State) (env : Env) :
    Env × List String :=
  (previous.blocks.sortedBy id).foldl (pruneBlock access)
    ((previous.owned.sortedBy id).foldl (pruneFile removes) (env, []))

section

variable (goes : Bool) (access : Access) (env : Env) (path content body : String)

theorem writeFile_went : (writeFile goes env path content).2 = goes := by
  cases goes <;> rfl

/-- What an environment says of one path. -/
structure SameAt (env env' : Env) (path : String) : Prop where
  files : env'.files path = env.files path
  owned : path ∈ env'.state.owned ↔ path ∈ env.state.owned
  blocks : path ∈ env'.state.blocks ↔ path ∈ env.state.blocks

theorem SameAt.refl (env : Env) (path : String) : SameAt env env path := ⟨rfl, Iff.rfl, Iff.rfl⟩

theorem SameAt.trans {env env' env'' : Env} {path : String} (h : SameAt env env' path)
    (h' : SameAt env' env'' path) : SameAt env env'' path :=
  ⟨h'.files.trans h.files, h'.owned.trans h.owned, h'.blocks.trans h.blocks⟩

theorem SameAt.claims {env env' : Env} {path : String} (h : SameAt env env' path) :
    env'.state.Claims path ↔ env.state.Claims path := or_congr h.owned h.blocks

theorem writeFile_other {other : String} (h : other ≠ path) :
    SameAt env (writeFile goes env path content).1 other := by
  cases goes with
  | false => exact SameAt.refl _ _
  | true =>
      refine ⟨Function.update_of_ne h _ _, ?_, ?_⟩
      · simp only [writeFile, if_true]
        split <;> simp [h]
      · simp only [writeFile, if_true]
        split <;> simp

/-- The content of a file once the agent's section is taken out, where that goes through. -/
def taken (access : Access) (content : String) : String :=
  if access.reads && access.writes && Text.holds content blockStart then stripBlock content
  else content

theorem put_self {files : Files} (h : files path = some content) : files.put path content = files := by
  rw [Files.put, ← h, Function.update_eq_self]

/-- Taking a block out changes its file to what is outside the block, if it can be read and written,
and nothing else. -/
theorem replaceBlock_empty_files : (replaceBlock access env path "").1.files =
    (match env.files path with
      | none => env.files
      | some content => env.files.put path (taken access content)) := by
  have hempty : Text.holds "" blockStart = false := by decide
  unfold replaceBlock
  cases hreads : access.reads with
  | false =>
      cases hfile : env.files path with
      | none => simp
      | some content => simp [taken, hreads, put_self path content hfile]
  | true =>
      cases hfile : env.files path with
      | none => simp [hempty]
      | some content =>
          cases hholds : Text.holds content blockStart with
          | false => simp [taken, hholds, put_self path content hfile]
          | true =>
              cases hwrites : access.writes with
              | false => simp [taken, hholds, hwrites, writeFile, put_self path content hfile]
              | true => simp [taken, hreads, hholds, hwrites, writeFile]

theorem replaceBlock_other {other : String} (h : other ≠ path) :
    SameAt env (replaceBlock access env path body).1 other := by
  unfold replaceBlock
  split
  · exact SameAt.refl _ _
  · dsimp only
    split
    · split
      · exact SameAt.refl _ _
      · have hwrite := writeFile_other access.writes env path
          (stripBlock ((env.files path).getD "")) h
        exact ⟨hwrite.files, by simpa [h] using hwrite.owned, by simpa [h] using hwrite.blocks⟩
    · split
      · have hwrite := writeFile_other access.writes env path
          (place (ended (stripBlock ((env.files path).getD ""))) (section_ body)) h
        exact ⟨hwrite.files, by simpa [h] using hwrite.owned, by simpa [h] using hwrite.blocks⟩
      · exact writeFile_other _ _ _ _ h

/-- Whether taking a block out goes through: there is none, or the file can be written. -/
def takes (access : Access) (files : Files) (path : String) : Bool :=
  access.reads && (access.writes || !Text.holds ((files path).getD "") blockStart)

theorem replaceBlock_empty_went :
    (replaceBlock access env path "").2 = takes access env.files path := by
  unfold replaceBlock takes
  cases access.reads with
  | false => rfl
  | true =>
      by_cases hholds : Text.holds ((env.files path).getD "") blockStart = true
      · simp [hholds, writeFile_went]
      · simp [hholds]

theorem unclaimed_replaceBlock_empty (h : ¬ env.state.Claims path) :
    ¬ (replaceBlock access env path "").1.state.Claims path := by
  unfold replaceBlock
  split
  · exact h
  · simp only [if_true]
    split
    · exact h
    · simp [State.Claims]

theorem replaceBlock_body (h : body ≠ "") :
    (replaceBlock access env path body).2 = (access.reads && access.writes) ∧
      ((access.reads && access.writes) = false → (replaceBlock access env path body).1 = env) ∧
      ((access.reads && access.writes) = true →
        path ∈ (replaceBlock access env path body).1.state.blocks) := by
  unfold replaceBlock
  cases access.reads with
  | false => simp
  | true => cases access.writes <;> simp [h, writeFile]

end

/-- How a command ends: some fail after they have done their work. -/
inductive Ends where
  | done (out : String)
  | failed (did : Bool) (out error : String)

namespace Ends

def isDone : Ends → Bool
  | done _ => true
  | failed .. => false

def did : Ends → Bool
  | done _ => true
  | failed did _ _ => did

def said : Ends → String
  | done out => out
  | failed _ out error => out ++ error

/-- The same command where there is nothing for it to do. -/
def refused : Ends → Ends
  | done out => failed false out "exit status 1"
  | failed _ out error => failed false out error

theorem did_of_isDone {ends : Ends} (h : ends.isDone) : ends.did := by
  cases ends with
  | done => rfl
  | failed => cases h

end Ends

end OpenDirectory.Agent
