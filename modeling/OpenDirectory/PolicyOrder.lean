import OpenDirectory.PolicyModel
import OpenDirectory.Lists

/-! The order in which the policy objects of a container chain apply, lowest precedence first, and
the account of those considered and skipped. Links are visited container by container from the
domain head down; one visit either places its object, with the depth it was found at, or records why
it was left out. Blocking and enforcement are applied to the placed objects afterwards. -/

namespace OpenDirectory.Policy

variable [Runtime]

structure Skip where
  guid : String
  name : String
  reason : String

/-- What the walk down the chain has found so far; a placed object carries its depth. -/
structure Found where
  normal : List (Nat × Gpo) := []
  enforced : List (Nat × Gpo) := []
  skipped : List Skip := []

def byTarget (links : List Link) : List (String × List Link) :=
  links.foldl (fun grouped link =>
    Dict.set grouped (lower link.targetDn)
      ((Dict.get grouped (lower link.targetDn)).getD [] ++ [link])) []

/-- The links of a container as they are applied: the lowest link order last, so that it wins. -/
def linksAt (links : List Link) (container : String) : List Link :=
  ((Dict.get (byTarget links) (lower container)).getD []).sortedBy fun link => -link.linkOrder

def considerLink (gpos : List (String × Gpo)) (target : Target) (depth : Nat) (found : Found)
    (link : Link) : Except Raised Found :=
  match Dict.get gpos link.gpoGuid with
  | none => .ok found
  | some gpo =>
      if !link.enabled then
        .ok { found with
          skipped := found.skipped ++ [⟨link.gpoGuid, gpo.displayName, "link disabled"⟩] }
      else do
        let (applies, reason) ← inScope gpo target
        if !applies then
          return { found with skipped := found.skipped ++ [⟨gpo.guid, gpo.displayName, reason⟩] }
        else if link.enforced then
          return { found with enforced := found.enforced ++ [(depth, gpo)] }
        else
          return { found with normal := found.normal ++ [(depth, gpo)] }

def considerChain (chain : List String) (links : List Link) (gpos : List (String × Gpo))
    (target : Target) : Except Raised Found :=
  chain.zipIdx.foldlM (fun found entry =>
    (linksAt links entry.1).foldlM (considerLink gpos target entry.2) found) {}

def isBlocked (blocked : List String) (container : String) : Bool :=
  lower container ∈ blocked.map lower

def deepestBlocked (chain blocked : List String) : Option Nat :=
  ((chain.zipIdx.filter fun entry => isBlocked blocked entry.1).map Prod.snd).max?

/-- What is placed above the deepest blocked container moves to the skipped objects. -/
def blockInherited (deepest : Option Nat) (found : Found) : Found :=
  match deepest with
  | none => found
  | some deepest => { found with
      normal := found.normal.filter fun entry => deepest ≤ entry.1
      skipped := found.skipped ++ (found.normal.filter fun entry => entry.1 < deepest).map
        fun entry => ⟨entry.2.guid, entry.2.displayName, "inheritance blocked"⟩ }

/-- The objects that apply, lowest precedence first, and those considered and skipped. The enforced
object highest in the hierarchy goes last of all, so that it wins. -/
def resolveOrder (chain : List String) (links : List Link) (gpos : List (String × Gpo))
    (blocked : List String) (target : Target) : Except Raised (List Gpo × List Skip) := do
  let found := blockInherited (deepestBlocked chain blocked)
    (← considerChain chain links gpos target)
  let enforced := found.enforced.sortedBy fun entry : Nat × Gpo => -(entry.1 : Int)
  return (found.normal.map Prod.snd ++ enforced.map Prod.snd, found.skipped)

/-- A link met at a depth of the chain, with the object it names. -/
structure Placement where
  depth : Nat
  link : Link
  gpo : Gpo

def visits (chain : List String) (links : List Link) : List (Nat × Link) :=
  chain.zipIdx.flatMap fun entry => (linksAt links entry.1).map (entry.2, ·)

def place? (gpos : List (String × Gpo)) (visit : Nat × Link) : Option Placement :=
  (Dict.get gpos visit.2.gpoGuid).map (⟨visit.1, visit.2, ·⟩)

def placements (chain : List String) (links : List Link) (gpos : List (String × Gpo)) :
    List Placement :=
  (visits chain links).filterMap (place? gpos)

def holdsFor (target : Target) (gpo : Gpo) : Bool :=
  match inScope gpo target with
  | .ok (applies, _) => applies
  | .error _ => false

def whyNot (target : Target) (gpo : Gpo) : String :=
  match inScope gpo target with
  | .ok (_, reason) => reason
  | .error _ => ""

def Placement.admitted (target : Target) (place : Placement) : Bool :=
  place.link.enabled && holdsFor target place.gpo

/-- Whether nothing deeper in the chain blocks what is placed at this depth. -/
def inherited (chain blocked : List String) (depth : Nat) : Bool :=
  match deepestBlocked chain blocked with
  | none => true
  | some deepest => deepest ≤ depth

def Placement.refusal (target : Target) (place : Placement) : Skip :=
  if place.link.enabled then ⟨place.gpo.guid, place.gpo.displayName, whyNot target place.gpo⟩
  else ⟨place.link.gpoGuid, place.gpo.displayName, "link disabled"⟩

def Placement.atDepth (place : Placement) : Nat × Gpo := (place.depth, place.gpo)

/-- What a walk over some placements adds to what was found before. -/
def Found.add (found : Found) (target : Target) (places : List Placement) : Found where
  normal := found.normal ++
    (places.filter fun place => place.admitted target && !place.link.enforced).map Placement.atDepth
  enforced := found.enforced ++
    (places.filter fun place => place.admitted target && place.link.enforced).map Placement.atDepth
  skipped := found.skipped ++
    (places.filter fun place => !place.admitted target).map (Placement.refusal target)

theorem get_byTarget (links : List Link) (key : String) :
    (Dict.get (byTarget links) key).getD [] = links.filter fun link => lower link.targetDn = key := by
  have hgen : ∀ (links : List Link) (grouped : List (String × List Link)),
      (Dict.get (links.foldl (fun grouped link =>
        Dict.set grouped (lower link.targetDn)
          ((Dict.get grouped (lower link.targetDn)).getD [] ++ [link])) grouped) key).getD [] =
      (Dict.get grouped key).getD [] ++ links.filter fun link => lower link.targetDn = key := by
    intro links
    induction links with
    | nil => simp
    | cons link links ih =>
        intro grouped
        rw [List.foldl_cons, ih, Dict.get_set]
        by_cases hkey : lower link.targetDn = key <;> simp [hkey]
  simpa [byTarget] using hgen links []

theorem linksAt_eq (links : List Link) (container : String) :
    linksAt links container = (links.filter fun link =>
      lower link.targetDn = lower container).sortedBy fun link => -link.linkOrder := by
  rw [linksAt, get_byTarget]

theorem considerChain_eq (chain : List String) (links : List Link) (gpos : List (String × Gpo))
    (target : Target) :
    considerChain chain links gpos target = (visits chain links).foldlM
      (fun found visit => considerLink gpos target visit.1 found visit.2) {} := by
  rw [considerChain, visits, List.foldlM_flatMap]
  simp only [List.foldlM_map]

theorem considerLink_cases (gpos : List (String × Gpo)) (target : Target) (found : Found)
    (visit : Nat × Link) :
    (considerLink gpos target visit.1 found visit.2 =
        .ok (found.add target (place? gpos visit).toList) ∧
      ∀ place ∈ place? gpos visit, place.link.enabled = true →
        ∃ answer, inScope place.gpo target = .ok answer) ∨
    ∃ place ∈ place? gpos visit, ∃ raised, place.link.enabled = true ∧
      inScope place.gpo target = .error raised ∧
      considerLink gpos target visit.1 found visit.2 = .error raised := by
  cases hgpo : Dict.get gpos visit.2.gpoGuid with
  | none => simp [considerLink, place?, hgpo, Found.add]
  | some gpo =>
      cases henabled : visit.2.enabled with
      | false =>
          simp [considerLink, place?, hgpo, henabled, Found.add, Placement.admitted,
            Placement.refusal]
      | true =>
          cases hscope : inScope gpo target with
          | error raised =>
              right
              simp [considerLink, place?, hgpo, henabled, hscope, bind, Except.bind]
          | ok answer =>
              left
              obtain ⟨applies, reason⟩ := answer
              cases applies <;> cases henforced : visit.2.enforced <;>
                simp [considerLink, place?, hgpo, henabled, hscope, henforced, Found.add,
                  Placement.admitted, Placement.refusal, Placement.atDepth, holdsFor, whyNot, bind,
                  Except.bind, pure, Except.pure]

theorem Found.add_nil (found : Found) (target : Target) : found.add target [] = found := by
  simp [Found.add]

theorem Found.add_append (found : Found) (target : Target) (places places' : List Placement) :
    (found.add target places).add target places' = found.add target (places ++ places') := by
  simp [Found.add]

theorem foldlM_considerLink (gpos : List (String × Gpo)) (target : Target)
    (walk : List (Nat × Link)) (found : Found) :
    (walk.foldlM (fun found visit => considerLink gpos target visit.1 found visit.2) found =
        .ok (found.add target (walk.filterMap (place? gpos))) ∧
      ∀ place ∈ walk.filterMap (place? gpos), place.link.enabled = true →
        ∃ answer, inScope place.gpo target = .ok answer) ∨
    ∃ place ∈ walk.filterMap (place? gpos), ∃ raised, place.link.enabled = true ∧
      inScope place.gpo target = .error raised ∧
      walk.foldlM (fun found visit => considerLink gpos target visit.1 found visit.2) found =
        .error raised := by
  induction walk generalizing found with
  | nil => exact .inl ⟨by simp [Found.add_nil, pure, Except.pure], by simp⟩
  | cons visit walk ih =>
      have hplaces : (visit :: walk).filterMap (place? gpos) =
          (place? gpos visit).toList ++ walk.filterMap (place? gpos) := by
        cases h : place? gpos visit <;> simp [h]
      rw [hplaces, List.foldlM_cons]
      rcases considerLink_cases gpos target found visit with ⟨hstep, hasked⟩ |
        ⟨place, hplace, raised, henabled, hscope, hstep⟩
      · rw [hstep]
        rcases ih (found.add target (place? gpos visit).toList) with ⟨hrest, hrestAsked⟩ |
          ⟨place, hplace, raised, henabled, hscope, hrest⟩
        · refine .inl ⟨by rw [← Found.add_append]; exact hrest, fun place hplace => ?_⟩
          rcases List.mem_append.mp hplace with hhead | htail
          · exact hasked place (Option.mem_toList.mp hhead)
          · exact hrestAsked place htail
        · exact .inr ⟨place, List.mem_append_right _ hplace, raised, henabled, hscope, hrest⟩
      · refine .inr ⟨place, List.mem_append_left _ (Option.mem_toList.mpr hplace), raised,
          henabled, hscope, ?_⟩
        rw [hstep]
        rfl

def normalPlaces (chain blocked : List String) (target : Target) (places : List Placement) :
    List Placement :=
  places.filter fun place =>
    place.admitted target && !place.link.enforced && inherited chain blocked place.depth

def enforcedPlaces (target : Target) (places : List Placement) : List Placement :=
  (places.filter fun place => place.admitted target && place.link.enforced).sortedBy
    fun place => -(place.depth : Int)

def blockedPlaces (chain blocked : List String) (target : Target) (places : List Placement) :
    List Placement :=
  places.filter fun place =>
    place.admitted target && !place.link.enforced && !inherited chain blocked place.depth

def ordered (chain : List String) (links : List Link) (gpos : List (String × Gpo))
    (blocked : List String) (target : Target) : List Placement :=
  normalPlaces chain blocked target (placements chain links gpos) ++
    enforcedPlaces target (placements chain links gpos)

def skips (chain : List String) (links : List Link) (gpos : List (String × Gpo))
    (blocked : List String) (target : Target) : List Skip :=
  ((placements chain links gpos).filter fun place => !place.admitted target).map
      (Placement.refusal target) ++
    (blockedPlaces chain blocked target (placements chain links gpos)).map fun place =>
      ⟨place.gpo.guid, place.gpo.displayName, "inheritance blocked"⟩

omit [Runtime] in
theorem map_atDepth_sortedBy (places : List Placement) :
    (places.map Placement.atDepth).sortedBy (fun entry : Nat × Gpo => -(entry.1 : Int)) =
      (places.sortedBy fun place => -(place.depth : Int)).map Placement.atDepth := by
  exact (List.map_insertionSort (fun a b : Placement => -(a.depth : Int) ≤ -(b.depth : Int))
    (fun a b : Nat × Gpo => -(a.1 : Int) ≤ -(b.1 : Int)) _ places fun a _ b _ => Iff.rfl).symm

theorem blockInherited_add (chain blocked : List String) (target : Target)
    (places : List Placement) :
    blockInherited (deepestBlocked chain blocked) (({} : Found).add target places) =
      { normal := (normalPlaces chain blocked target places).map Placement.atDepth
        enforced := (places.filter fun place =>
          place.admitted target && place.link.enforced).map Placement.atDepth
        skipped := (places.filter fun place => !place.admitted target).map
            (Placement.refusal target) ++
          (blockedPlaces chain blocked target places).map fun place =>
            ⟨place.gpo.guid, place.gpo.displayName, "inheritance blocked"⟩ } := by
  cases hdeepest : deepestBlocked chain blocked with
  | none =>
      simp [blockInherited, Found.add, normalPlaces, blockedPlaces, inherited, hdeepest]
  | some deepest =>
      have hbelow : ∀ depth, decide (depth < deepest) = !decide (deepest ≤ depth) :=
        fun depth => by rw [← decide_not]; exact decide_eq_decide.mpr not_le.symm
      simp only [blockInherited, Found.add, normalPlaces, blockedPlaces, inherited, hdeepest,
        List.nil_append, List.filter_map, List.filter_filter, List.map_map, Function.comp_def,
        Placement.atDepth, hbelow, Bool.and_comm, Bool.and_left_comm]
      rfl

/-- Resolution succeeds exactly when every scope question it asks has an answer, and then the order
and the skipped objects are those of the placements. -/
theorem resolveOrder_cases (chain : List String) (links : List Link) (gpos : List (String × Gpo))
    (blocked : List String) (target : Target) :
    (resolveOrder chain links gpos blocked target =
        .ok ((ordered chain links gpos blocked target).map Placement.gpo,
          skips chain links gpos blocked target) ∧
      ∀ place ∈ placements chain links gpos, place.link.enabled = true →
        ∃ answer, inScope place.gpo target = .ok answer) ∨
    ∃ place ∈ placements chain links gpos, ∃ raised, place.link.enabled = true ∧
      inScope place.gpo target = .error raised ∧
      resolveOrder chain links gpos blocked target = .error raised := by
  have hwalk := foldlM_considerLink gpos target (visits chain links) {}
  rw [← considerChain_eq] at hwalk
  rcases hwalk with ⟨hok, hasked⟩ | ⟨place, hplace, raised, henabled, hscope, herror⟩
  · refine .inl ⟨?_, hasked⟩
    rw [resolveOrder, hok]
    simp only [bind, Except.bind, pure, Except.pure, blockInherited_add, map_atDepth_sortedBy]
    simp [ordered, skips, placements, enforcedPlaces, Function.comp_def, Placement.atDepth]
  · refine .inr ⟨place, hplace, raised, henabled, hscope, ?_⟩
    rw [resolveOrder, herror]
    rfl

end OpenDirectory.Policy
