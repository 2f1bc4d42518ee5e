import OpenDirectory.AgentEnv

/-! What a run takes away: of the files the last run owned those it does not claim, and of the files
the last run kept a block inside only the block. -/

namespace OpenDirectory.Agent

section

variable {mark text before after : List Char}

/-- The first occurrence of a mark in a text, with what is around it. -/
structure FirstAt (mark text before after : List Char) : Prop where
  eq : text = before ++ mark ++ after
  first : ∀ before' after', text = before' ++ mark ++ after' → before.length ≤ before'.length

theorem cutAt_none (hmark : mark ≠ []) : Text.cutAt mark text = none ↔ ¬ mark <:+: text := by
  induction text with
  | nil => simp [Text.cutAt, hmark]
  | cons c text ih =>
      unfold Text.cutAt
      rw [List.infix_cons_iff]
      split
      · rename_i hstarts
        simp [List.isPrefixOf_iff_prefix.mp hstarts]
      · rename_i hstarts
        rw [List.isPrefixOf_iff_prefix] at hstarts
        simp [hstarts, ih]

theorem cutAt_some (h : Text.cutAt mark text = some (before, after)) :
    FirstAt mark text before after := by
  induction text generalizing before with
  | nil => cases h
  | cons c text ih =>
      unfold Text.cutAt at h
      split at h
      · rename_i hstarts
        obtain ⟨rest, hrest⟩ := List.isPrefixOf_iff_prefix.mp hstarts
        cases h
        refine ⟨?_, fun _ _ _ => Nat.zero_le _⟩
        rw [← hrest]
        simp
      · rename_i hstarts
        obtain ⟨⟨before', after'⟩, hcut, heq⟩ := Option.map_eq_some_iff.mp h
        cases heq
        obtain ⟨hsplit, hfirst⟩ := ih hcut
        refine ⟨by rw [hsplit]; rfl, fun other rest hother => ?_⟩
        cases other with
        | nil =>
            rw [hother] at hstarts
            exact absurd (List.isPrefixOf_iff_prefix.mpr ⟨rest, by simp⟩) hstarts
        | cons c' other =>
            obtain ⟨_, htail⟩ := List.cons.inj hother
            exact Nat.succ_le_succ (hfirst other rest htail)

end

def dropNewline (text : List Char) : List Char :=
  if text.head? = some '\n' then text.drop 1 else text

section

variable {removes : String → Bool} {access : String → Access}

/-- A file that is deleted: one no claim, no protection and no failure keeps. -/
def Deletes (removes : String → Bool) (state : State) (path : String) : Prop :=
  ¬ state.Claims path ∧ neverPrune path = false ∧ removes path = true

instance (state : State) (path : String) : Decidable (Deletes removes state path) :=
  inferInstanceAs (Decidable (_ ∧ _ ∧ _))

theorem pruneFile_state (pass : Env × List String) (path : String) :
    (pruneFile removes pass path).1.state = pass.1.state := by
  unfold pruneFile
  split
  · rfl
  · split <;> rfl

theorem pruneFile_files (pass : Env × List String) (path : String) :
    (pruneFile removes pass path).1.files =
      if Deletes removes pass.1.state path then pass.1.files.remove path else pass.1.files := by
  unfold pruneFile Deletes
  by_cases hclaims : pass.1.state.Claims path
  · simp [hclaims]
  by_cases hnever : neverPrune path = true
  · simp [hnever]
  by_cases hremoves : removes path = true
  · cases hfile : pass.1.files path with
    | some content => simp [hclaims, hnever, hremoves]
    | none =>
        have hsame : pass.1.files.remove path = pass.1.files := by
          rw [Files.remove, ← hfile, Function.update_eq_self]
        simp [hclaims, hnever, hremoves, hsame]
  · simp [hclaims, hnever, hremoves]

theorem foldl_pruneFile (removes : String → Bool) (paths : List String) (pass : Env × List String) :
    (paths.foldl (pruneFile removes) pass).1.state = pass.1.state ∧
      ∀ path, (paths.foldl (pruneFile removes) pass).1.files path =
        if path ∈ paths ∧ Deletes removes pass.1.state path then none else pass.1.files path := by
  induction paths generalizing pass with
  | nil => simp
  | cons first paths ih =>
      obtain ⟨hstate, hfiles⟩ := ih (pruneFile removes pass first)
      refine ⟨hstate.trans (pruneFile_state pass first), fun path => ?_⟩
      rw [List.foldl_cons, hfiles, pruneFile_state, pruneFile_files]
      by_cases hfirst : path = first
      · subst hfirst
        by_cases hdeletes : Deletes removes pass.1.state path <;>
          simp [hdeletes, Files.remove]
      · by_cases hdeletes : Deletes removes pass.1.state first <;>
          simp [hdeletes, hfirst, Files.remove]

theorem pruneBlock_files (pass : Env × List String) (path other : String) :
    (pruneBlock access pass path).1.files other =
      if other = path ∧ ¬ pass.1.state.Claims path then
        (pass.1.files path).map (taken (access path))
      else pass.1.files other := by
  unfold pruneBlock
  split
  · rename_i hclaims
    simp [hclaims]
  · rename_i hclaims
    rw [replaceBlock_empty_files]
    cases hfile : pass.1.files path with
    | none =>
        by_cases hother : other = path <;> simp [hother, hfile]
    | some content =>
        by_cases hother : other = path <;> simp [hother, hclaims, Files.put]

theorem pruneBlock_other (access : String → Access) (pass : Env × List String)
    {path other : String} (h : other ≠ path) :
    SameAt pass.1 (pruneBlock access pass path).1 other := by
  unfold pruneBlock
  split
  · exact SameAt.refl _ _
  · exact replaceBlock_other (access path) pass.1 path "" h

theorem foldl_pruneBlock {paths : List String} (hnodup : paths.Nodup) (pass : Env × List String) (path : String) :
    (paths.foldl (pruneBlock access) pass).1.files path =
      if path ∈ paths ∧ ¬ pass.1.state.Claims path then
        (pass.1.files path).map (taken (access path))
      else pass.1.files path := by
  induction paths generalizing pass with
  | nil => simp
  | cons first paths ih =>
      obtain ⟨hfirst, hnodup⟩ := List.nodup_cons.mp hnodup
      rw [List.foldl_cons, ih hnodup, pruneBlock_files]
      by_cases hpath : path = first
      · subst hpath
        by_cases hclaims : pass.1.state.Claims path <;> simp [hfirst, hclaims]
      · have hother := (pruneBlock_other access pass hpath).claims
        simp [hother, hpath]

end

theorem prune_files (removes : String → Bool) (access : String → Access) (previous : State)
    (env : Env) (path : String) :
    (prune removes access previous env).1.files path =
      if path ∈ previous.owned ∧ Deletes removes env.state path then none
      else if path ∈ previous.blocks ∧ ¬ env.state.Claims path then
        (env.files path).map (taken (access path))
      else env.files path := by
  obtain ⟨hstate, hfiles⟩ := foldl_pruneFile removes (previous.owned.sortedBy id) (env, [])
  have hnodup : (previous.blocks.sortedBy id).Nodup :=
    (List.perm_sortedBy id previous.blocks).nodup_iff.mpr previous.nodupBlocks
  unfold prune
  rw [foldl_pruneBlock hnodup, hstate, hfiles]
  simp only [(List.perm_sortedBy id _).mem_iff]
  by_cases hdeleted : path ∈ previous.owned ∧ Deletes removes env.state path
  · rw [if_pos hdeleted, if_pos hdeleted]
    split <;> rfl
  · rw [if_neg hdeleted, if_neg hdeleted]

theorem pruneBlock_state (access : String → Access) (pass : Env × List String) (path other : String) :
    (other ∈ (pruneBlock access pass path).1.state.owned ↔ other ∈ pass.1.state.owned) ∧
      (other ∈ (pruneBlock access pass path).1.state.blocks ↔ other ∈ pass.1.state.blocks) := by
  by_cases hother : other = path
  · subst hother
    unfold pruneBlock
    split
    · exact ⟨Iff.rfl, Iff.rfl⟩
    · rename_i hclaims
      obtain ⟨howned, hblocks⟩ := not_or.mp hclaims
      obtain ⟨howned', hblocks'⟩ :=
        not_or.mp (unclaimed_replaceBlock_empty (access other) pass.1 other hclaims)
      exact ⟨iff_of_false howned' howned, iff_of_false hblocks' hblocks⟩
  · have hsame := pruneBlock_other access pass hother
    exact ⟨hsame.owned, hsame.blocks⟩

theorem prune_state (removes : String → Bool) (access : String → Access) (previous : State)
    (env : Env) (path : String) :
    (path ∈ (prune removes access previous env).1.state.owned ↔ path ∈ env.state.owned) ∧
      (path ∈ (prune removes access previous env).1.state.blocks ↔ path ∈ env.state.blocks) := by
  have hfold : ∀ (paths : List String) (pass : Env × List String),
      (path ∈ (paths.foldl (pruneBlock access) pass).1.state.owned ↔ path ∈ pass.1.state.owned) ∧
        (path ∈ (paths.foldl (pruneBlock access) pass).1.state.blocks ↔
          path ∈ pass.1.state.blocks) := by
    intro paths
    induction paths with
    | nil => exact fun _ => ⟨Iff.rfl, Iff.rfl⟩
    | cons first paths ih =>
        intro pass
        obtain ⟨howned, hblocks⟩ := ih (pruneBlock access pass first)
        obtain ⟨howned', hblocks'⟩ := pruneBlock_state access pass first path
        exact ⟨howned.trans howned', hblocks.trans hblocks'⟩
  obtain ⟨hstate, _⟩ := foldl_pruneFile removes (previous.owned.sortedBy id) (env, [])
  unfold prune
  rw [(hfold _ _).1, (hfold _ _).2, hstate]
  exact ⟨Iff.rfl, Iff.rfl⟩

/-- What an applier does to the machine, and how the machine answered. -/
inductive Call where
  | own (path : String)
  | keep (path : String)
  | ownBlock (path : String)
  | writeFile (path content : String) (goes : Bool)
  | replaceBlock (path body : String) (access : Access)

def perform (env : Env) : Call → Env
  | .own path => { env with state := env.state.own path }
  | .keep path => { env with state := env.state.own path }
  | .ownBlock path => { env with state := env.state.ownBlock path }
  | .writeFile path content goes => (writeFile goes env path content).1
  | .replaceBlock path body access => (replaceBlock access env path body).1

end OpenDirectory.Agent
