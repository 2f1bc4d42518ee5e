import OpenDirectory.PolicyOrder

/-! Precedence, stated for the links themselves: which of them apply, in which order, and why each
of the others on the chain does not. Containers are named ignoring case throughout, so a chain
repeats a container when two of its names agree up to case. -/

namespace OpenDirectory.Policy

variable [Runtime]

def InScope (target : Target) (gpo : Gpo) : Prop := ∃ reason, inScope gpo target = .ok (true, reason)

/-- The container at this depth of the chain is the one the link is attached to. -/
def AttachedAt (chain : List String) (link : Link) (depth : Nat) : Prop :=
  (chain.map lower)[depth]? = some (lower link.targetDn)

def BlockedAt (chain blocked : List String) (depth : Nat) : Prop :=
  ∃ container, chain[depth]? = some container ∧ lower container ∈ blocked.map lower

/-- No container deeper in the chain blocks inheritance. -/
def Inherits (chain blocked : List String) (depth : Nat) : Prop :=
  ∀ deeper, BlockedAt chain blocked deeper → deeper ≤ depth

/-- The link is attached at this depth of the chain and its object is known. -/
structure Placed (chain : List String) (gpos : List (String × Gpo)) (place : Placement) : Prop where
  attached : AttachedAt chain place.link place.depth
  known : Dict.get gpos place.link.gpoGuid = some place.gpo

structure Placement.Applies (chain blocked : List String) (target : Target) (place : Placement) :
    Prop where
  enabled : place.link.enabled = true
  scope : InScope target place.gpo
  reaches : place.link.enforced = true ∨ Inherits chain blocked place.depth

/-- Why a placed link does not apply: the first reason that holds. -/
inductive Placement.Refused (chain blocked : List String) (target : Target) (place : Placement) :
    String → Prop where
  | disabled (disabled : place.link.enabled = false) : Refused chain blocked target place
      "link disabled"
  | scope (enabled : place.link.enabled = true) {reason : String}
      (out : inScope place.gpo target = .ok (false, reason)) : Refused chain blocked target place
      reason
  | blocked (enabled : place.link.enabled = true) (scope : InScope target place.gpo)
      (normal : place.link.enforced = false) (blocks : ¬ Inherits chain blocked place.depth) :
      Refused chain blocked target place "inheritance blocked"

def LinkApplies (chain : List String) (gpos : List (String × Gpo)) (blocked : List String)
    (target : Target) (link : Link) : Prop :=
  ∃ place : Placement, place.link = link ∧ Placed chain gpos place ∧
    place.Applies chain blocked target

/-- The link is attached somewhere on the chain, names a known object, and does not apply. -/
def LinkSkipped (chain : List String) (gpos : List (String × Gpo)) (blocked : List String)
    (target : Target) (link : Link) : Prop :=
  (∃ place : Placement, place.link = link ∧ Placed chain gpos place) ∧
    ¬ LinkApplies chain gpos blocked target link

/-- Down the chain, and by descending link order inside a container. -/
def Down (a b : Placement) : Prop :=
  a.depth < b.depth ∨ a.depth = b.depth ∧ b.link.linkOrder ≤ a.link.linkOrder

/-- Up the chain, and by descending link order inside a container. -/
def Up (a b : Placement) : Prop :=
  b.depth < a.depth ∨ a.depth = b.depth ∧ b.link.linkOrder ≤ a.link.linkOrder

open Classical in
/-- What a resolution has to be: every link that applies occurs once, the enforced ones after the
others, and every other link on the chain is skipped for its first reason. -/
structure Resolves (chain : List String) (links : List Link) (gpos : List (String × Gpo))
    (blocked : List String) (target : Target) (order : List Gpo) (skipped : List Skip)
    (normal enforced : List Placement) (refused : List (Placement × String)) : Prop where
  eq : order = (normal ++ enforced).map Placement.gpo
  placed : ∀ place ∈ normal ++ enforced ++ refused.map Prod.fst, Placed chain gpos place
  once : ((normal ++ enforced).map Placement.link).Perm
    (links.filter fun link => LinkApplies chain gpos blocked target link)
  normalLinks : ∀ place ∈ normal, place.link.enforced = false
  enforcedLinks : ∀ place ∈ enforced, place.link.enforced = true
  normalDown : normal.Pairwise Down
  enforcedUp : enforced.Pairwise Up
  last : ∀ winner, enforced.getLast? = some winner → order.getLast? = some winner.gpo ∧
    ∀ place ∈ enforced, place = winner ∨ Up place winner
  account : skipped = refused.map fun entry =>
    ⟨if entry.1.link.enabled then entry.1.gpo.guid else entry.1.link.gpoGuid,
      entry.1.gpo.displayName, entry.2⟩
  skippedOnce : (refused.map fun entry => entry.1.link).Perm
    (links.filter fun link => LinkSkipped chain gpos blocked target link)
  reasons : ∀ entry ∈ refused, entry.1.Refused chain blocked target entry.2

variable {target : Target} {chain : List String}

theorem holdsFor_iff {gpo : Gpo} : holdsFor target gpo = true ↔ InScope target gpo := by
  unfold holdsFor InScope
  split
  · rename_i applies reason h
    simp [h]
  · rename_i h
    simp [h]

theorem inherited_iff {blocked : List String} {depth : Nat} :
    inherited chain blocked depth = true ↔ Inherits chain blocked depth := by
  have hmem : ∀ deeper, deeper ∈ (chain.zipIdx.filter fun entry =>
      isBlocked blocked entry.1).map Prod.snd ↔ BlockedAt chain blocked deeper := by
    intro deeper
    simp only [List.mem_map, List.mem_filter, List.mem_zipIdx_iff_getElem?, isBlocked, BlockedAt,
      decide_eq_true_eq]
    constructor
    · rintro ⟨⟨container, _⟩, hentry, rfl⟩
      exact ⟨container, hentry⟩
    · rintro ⟨container, hentry⟩
      exact ⟨(container, deeper), hentry, rfl⟩
  unfold inherited deepestBlocked
  split
  · rename_i hnone
    rw [List.max?_eq_none_iff] at hnone
    refine ⟨fun _ deeper hdeeper => ?_, fun _ => rfl⟩
    rw [← hmem, hnone] at hdeeper
    exact absurd hdeeper List.not_mem_nil
  · rename_i deepest hdeepest
    obtain ⟨hdeepest, hmax⟩ := List.max?_eq_some_iff.mp hdeepest
    rw [decide_eq_true_eq]
    constructor
    · exact fun hle deeper hdeeper => (hmax deeper ((hmem deeper).mpr hdeeper)).trans hle
    · exact fun hinherits => hinherits deepest ((hmem deepest).mp hdeepest)

theorem admitted_iff {place : Placement} :
    place.admitted target = true ↔ place.link.enabled = true ∧ InScope target place.gpo := by
  simp [Placement.admitted, holdsFor_iff]

theorem applies_iff {blocked : List String} {place : Placement} :
    (place.admitted target && (place.link.enforced || inherited chain blocked place.depth)) = true ↔
      place.Applies chain blocked target := by
  rw [Bool.and_eq_true, Bool.or_eq_true, admitted_iff, inherited_iff]
  exact ⟨fun h => ⟨h.1.1, h.1.2, h.2⟩, fun h => ⟨⟨h.enabled, h.scope⟩, h.reaches⟩⟩

theorem mem_visits {links : List Link} {visit : Nat × Link} :
    visit ∈ visits chain links ↔ visit.2 ∈ links ∧ AttachedAt chain visit.2 visit.1 := by
  obtain ⟨depth, link⟩ := visit
  simp only [visits, List.mem_flatMap, List.mem_map, List.mem_zipIdx_iff_getElem?, linksAt_eq,
    (List.perm_sortedBy _ _).mem_iff, List.mem_filter, decide_eq_true_eq, AttachedAt,
    List.getElem?_map, Option.map_eq_some_iff]
  constructor
  · rintro ⟨⟨container, depth⟩, hcontainer, link, ⟨hlink, hattached⟩, heq⟩
    cases heq
    exact ⟨hlink, container, hcontainer, hattached.symm⟩
  · rintro ⟨hlink, container, hcontainer, hattached⟩
    exact ⟨(container, depth), hcontainer, link, ⟨hlink, hattached.symm⟩, rfl⟩

theorem mem_placements {links : List Link} {gpos : List (String × Gpo)}
    {place : Placement} :
    place ∈ placements chain links gpos ↔ place.link ∈ links ∧ Placed chain gpos place := by
  simp only [placements, List.mem_filterMap, place?, Option.map_eq_some_iff]
  constructor
  · rintro ⟨visit, hvisit, gpo, hgpo, rfl⟩
    obtain ⟨hlink, hattached⟩ := mem_visits.mp hvisit
    exact ⟨hlink, hattached, hgpo⟩
  · rintro ⟨hlink, hplaced⟩
    exact ⟨(place.depth, place.link), mem_visits.mpr ⟨hlink, hplaced.attached⟩, place.gpo,
      hplaced.known, rfl⟩

theorem perm_visits_from (hchain : (chain.map lower).Nodup)
    (links : List Link) (keep : Nat × Link → Bool) (start : Nat) :
    ((((chain.zipIdx start).flatMap fun entry =>
        (linksAt links entry.1).map (entry.2, ·)).filter keep).map Prod.snd).Perm
      (links.filter fun link => (chain.zipIdx start).any fun entry =>
        lower link.targetDn = lower entry.1 && keep (entry.2, link)) := by
  induction chain generalizing start with
  | nil => simp
  | cons container chain ih =>
      simp only [List.map_cons, List.nodup_cons] at hchain
      have hhere : (((linksAt links container).map (start, ·)).filter keep).map Prod.snd =
          (linksAt links container).filter fun link => keep (start, link) := by
        simp [List.filter_map, Function.comp_def]
      have hperm : ((linksAt links container).filter fun link => keep (start, link)).Perm
          (links.filter fun link =>
            lower link.targetDn = lower container && keep (start, link)) := by
        rw [linksAt_eq]
        refine ((List.perm_sortedBy _ _).filter _).trans (List.Perm.of_eq ?_)
        rw [List.filter_filter]
        exact List.filter_congr fun link _ => Bool.and_comm _ _
      -- a link of this container is attached to no later one
      have hdisjoint : ∀ link ∈ links,
          (decide (lower link.targetDn = lower container) && keep (start, link)) = true →
          ((chain.zipIdx (start + 1)).any fun entry =>
            lower link.targetDn = lower entry.1 && keep (entry.2, link)) = false := by
        intro link _ hlink
        simp only [Bool.and_eq_true, decide_eq_true_eq] at hlink
        rw [List.any_eq_false]
        rintro ⟨later, depth⟩ hlater hsame
        simp only [Bool.and_eq_true, decide_eq_true_eq] at hsame
        refine hchain.1 (List.mem_map.mpr ⟨later, ?_, hsame.1.symm.trans hlink.1⟩)
        exact (List.mem_zipIdx hlater).2.2 ▸ List.getElem_mem _
      rw [List.zipIdx_cons, List.flatMap_cons, List.filter_append, List.map_append, hhere]
      exact (hperm.append (ih hchain.2 (start + 1))).trans
        (List.filter_append_filter_perm hdisjoint)

omit [Runtime] in
theorem map_link_filter (gpos : List (String × Gpo)) (keep : Placement → Bool)
    (walk : List (Nat × Link)) :
    ((walk.filterMap (place? gpos)).filter keep).map Placement.link =
      (walk.filter fun visit => (place? gpos visit).any keep).map Prod.snd := by
  rw [List.filter_filterMap, List.map_filterMap, ← List.filterMap_eq_map, List.filterMap_filter]
  refine List.filterMap_congr fun visit _ => ?_
  cases hplace : place? gpos visit with
  | none => rfl
  | some place =>
      obtain ⟨gpo, -, rfl⟩ := Option.map_eq_some_iff.mp hplace
      by_cases hkeep : keep ⟨visit.1, visit.2, gpo⟩ = true <;> simp [hkeep]

open Classical in
theorem perm_placements {chain : List String} (hchain : (chain.map lower).Nodup)
    (links : List Link) (gpos : List (String × Gpo)) (keep : Placement → Bool) :
    (((placements chain links gpos).filter keep).map Placement.link).Perm
      (links.filter fun link => ∃ place : Placement, place.link = link ∧ Placed chain gpos place ∧
        keep place = true) := by
  rw [placements, map_link_filter]
  refine (perm_visits_from hchain links _ 0).trans (List.Perm.of_eq ?_)
  refine List.filter_congr fun link _ => ?_
  rw [Bool.eq_iff_iff, List.any_eq_true, decide_eq_true_eq]
  simp only [Bool.and_eq_true, decide_eq_true_eq, List.mem_zipIdx_iff_getElem?, place?,
    Option.any_eq_true, Option.map_eq_some_iff]
  constructor
  · rintro ⟨⟨container, depth⟩, hcontainer, hattached, place, ⟨gpo, hgpo, rfl⟩, hkeep⟩
    exact ⟨_, rfl, ⟨by simpa [AttachedAt] using ⟨container, hcontainer, hattached.symm⟩, hgpo⟩, hkeep⟩
  · rintro ⟨place, rfl, hplaced, hkeep⟩
    obtain ⟨container, hcontainer, hattached⟩ :
        ∃ container, chain[place.depth]? = some container ∧
          lower container = lower place.link.targetDn := by
      simpa [AttachedAt] using hplaced.attached
    exact ⟨(container, place.depth), hcontainer, hattached.symm, place,
      ⟨place.gpo, hplaced.known, rfl⟩, hkeep⟩

theorem Placed.eq {chain : List String} (hchain : (chain.map lower).Nodup)
    {gpos : List (String × Gpo)} {a b : Placement} (ha : Placed chain gpos a)
    (hb : Placed chain gpos b) (hlink : a.link = b.link) : a = b := by
  obtain ⟨depthA, link, gpoA⟩ := a
  obtain ⟨depthB, link', gpoB⟩ := b
  obtain rfl : link = link' := hlink
  have hattached := ha.attached
  have hdepth : depthA = depthB := by
    have hlt : depthA < (chain.map lower).length := (List.getElem?_eq_some_iff.mp ha.attached).1
    exact (List.getElem?_inj hlt hchain).mp (ha.attached.trans hb.attached.symm)
  have hgpo : gpoA = gpoB := Option.some.inj (ha.known.symm.trans hb.known)
  rw [hdepth, hgpo]

theorem pairwise_placements (chain : List String) (links : List Link)
    (gpos : List (String × Gpo)) : (placements chain links gpos).Pairwise Down := by
  have hvisits : (visits chain links).Pairwise fun a b =>
      a.1 < b.1 ∨ a.1 = b.1 ∧ b.2.linkOrder ≤ a.2.linkOrder := by
    have hdepths : chain.zipIdx.Pairwise fun a b => a.2 < b.2 := by
      have : (chain.zipIdx.map Prod.snd).Pairwise (· < ·) := by
        rw [List.zipIdx_map_snd]
        exact List.pairwise_lt_range'
      exact List.pairwise_map.mp this
    refine List.pairwise_flatMap.mpr ⟨fun entry _ => ?_, hdepths.imp fun hlt a ha b hb => ?_⟩
    · refine List.pairwise_map.mpr (List.Pairwise.imp ?_ (List.pairwise_key_sortedBy _ _))
      exact fun horder => .inr ⟨rfl, by simpa using horder⟩
    · obtain ⟨_, _, rfl⟩ := List.mem_map.mp ha
      obtain ⟨_, _, rfl⟩ := List.mem_map.mp hb
      exact .inl hlt
  refine hvisits.filterMap _ fun a b hab place hplace place' hplace' => ?_
  obtain ⟨_, _, rfl⟩ := Option.map_eq_some_iff.mp hplace
  obtain ⟨_, _, rfl⟩ := Option.map_eq_some_iff.mp hplace'
  exact hab

theorem pairwise_enforcedPlaces (target : Target) {places : List Placement}
    (h : places.Pairwise Down) : (enforcedPlaces target places).Pairwise Up := by
  refine (List.pairwise_sortedBy (h.filter _)).imp fun {a b} hab => ?_
  obtain ⟨hdepth, htie⟩ := hab
  rcases Nat.lt_or_eq_of_le (show b.depth ≤ a.depth by omega) with hlt | heq
  · exact .inl hlt
  · rcases htie (by omega) with hlt | ⟨_, horder⟩
    · omega
    · exact .inr ⟨heq.symm, horder⟩

def refusals (chain blocked : List String) (target : Target) (places : List Placement) :
    List (Placement × String) :=
  (places.filter fun place => !place.admitted target).map (fun place =>
      (place, if place.link.enabled then whyNot target place.gpo else "link disabled")) ++
    (blockedPlaces chain blocked target places).map fun place => (place, "inheritance blocked")

theorem refused_of_mem {chain blocked : List String} {target : Target} {places : List Placement}
    (hasked : ∀ place ∈ places, place.link.enabled = true →
      ∃ answer, inScope place.gpo target = .ok answer)
    {entry : Placement × String} (h : entry ∈ refusals chain blocked target places) :
    entry.1 ∈ places ∧ entry.1.Refused chain blocked target entry.2 := by
  rcases List.mem_append.mp h with hscope | hblocked
  · obtain ⟨place, hplace, rfl⟩ := List.mem_map.mp hscope
    obtain ⟨hmem, hout⟩ := List.mem_filter.mp hplace
    refine ⟨hmem, ?_⟩
    cases henabled : place.link.enabled with
    | false => simpa [henabled] using Placement.Refused.disabled henabled
    | true =>
        obtain ⟨⟨applies, reason⟩, hanswer⟩ := hasked place hmem henabled
        have hfalse : applies = false := by
          simpa [Placement.admitted, henabled, holdsFor, hanswer] using hout
        have hwhy : whyNot target place.gpo = reason := by simp [whyNot, hanswer]
        simpa [henabled, hwhy] using Placement.Refused.scope henabled (hfalse ▸ hanswer)
  · obtain ⟨place, hplace, rfl⟩ := List.mem_map.mp hblocked
    obtain ⟨hmem, hblocked⟩ := List.mem_filter.mp hplace
    simp only [Bool.and_eq_true, Bool.not_eq_true'] at hblocked
    obtain ⟨⟨hadmitted, hnormal⟩, hblocks⟩ := hblocked
    obtain ⟨henabled, hscope⟩ := admitted_iff.mp hadmitted
    refine ⟨hmem, .blocked henabled hscope hnormal fun hinherits => ?_⟩
    simp [inherited_iff.mpr hinherits] at hblocks

theorem skips_eq (chain : List String) (links : List Link) (gpos : List (String × Gpo))
    (blocked : List String) (target : Target) :
    skips chain links gpos blocked target =
      (refusals chain blocked target (placements chain links gpos)).map fun entry =>
        ⟨if entry.1.link.enabled then entry.1.gpo.guid else entry.1.link.gpoGuid,
          entry.1.gpo.displayName, entry.2⟩ := by
  have hadmitted : ∀ place ∈ blockedPlaces chain blocked target (placements chain links gpos),
      place.link.enabled = true := by
    intro place hplace
    have := (List.mem_filter.mp hplace).2
    simp only [Bool.and_eq_true] at this
    exact (admitted_iff.mp this.1.1).1
  rw [skips, refusals, List.map_append, List.map_map, List.map_map]
  congr 1
  · refine List.map_congr_left fun place _ => ?_
    cases h : place.link.enabled <;> simp [Placement.refusal, h]
  · refine List.map_congr_left fun place hplace => ?_
    simp [hadmitted place hplace]

theorem perm_ordered (chain blocked : List String) (target : Target) (places : List Placement) :
    (normalPlaces chain blocked target places ++ enforcedPlaces target places).Perm
      (places.filter fun place =>
        place.admitted target && (place.link.enforced || inherited chain blocked place.depth)) := by
  refine ((List.Perm.refl _).append (List.perm_sortedBy _ _)).trans
    ((List.filter_append_filter_perm fun place _ hplace => ?_).trans (List.Perm.of_eq ?_))
  · simp only [Bool.and_eq_true, Bool.not_eq_true'] at hplace
    simp [hplace.1.2]
  · refine List.filter_congr fun place _ => ?_
    cases place.admitted target <;> cases place.link.enforced <;> simp

theorem perm_refusals (chain blocked : List String) (target : Target) (places : List Placement) :
    ((refusals chain blocked target places).map fun entry => entry.1).Perm
      (places.filter fun place =>
        !(place.admitted target &&
          (place.link.enforced || inherited chain blocked place.depth))) := by
  have hmap : ((refusals chain blocked target places).map fun entry => entry.1) =
      (places.filter fun place => !place.admitted target) ++
        blockedPlaces chain blocked target places := by
    simp [refusals, Function.comp_def]
  rw [hmap]
  refine (List.filter_append_filter_perm fun place _ hplace => ?_).trans (List.Perm.of_eq ?_)
  · simp only [Bool.not_eq_true'] at hplace
    simp [hplace]
  · refine List.filter_congr fun place _ => ?_
    cases place.admitted target <;> cases place.link.enforced <;> simp

theorem resolves_ordered {chain : List String} (hchain : (chain.map lower).Nodup)
    (links : List Link) (gpos : List (String × Gpo)) (blocked : List String) (target : Target)
    (hasked : ∀ place ∈ placements chain links gpos, place.link.enabled = true →
      ∃ answer, inScope place.gpo target = .ok answer) :
    Resolves chain links gpos blocked target
      ((ordered chain links gpos blocked target).map Placement.gpo)
      (skips chain links gpos blocked target)
      (normalPlaces chain blocked target (placements chain links gpos))
      (enforcedPlaces target (placements chain links gpos))
      (refusals chain blocked target (placements chain links gpos)) := by
  set places := placements chain links gpos with hplaces
  have henforcedUp : (enforcedPlaces target places).Pairwise Up :=
    pairwise_enforcedPlaces target (pairwise_placements chain links gpos)
  have happlied := perm_ordered chain blocked target places
  have hrefused := perm_refusals chain blocked target places
  refine ⟨rfl, fun place hplace => ?_, ?_, fun place hplace => ?_, fun place hplace => ?_,
    (pairwise_placements chain links gpos).filter _, henforcedUp, fun winner hwinner => ?_,
    skips_eq chain links gpos blocked target, ?_, fun entry hentry => ?_⟩
  · have hmem : place ∈ places := by
      rcases List.mem_append.mp hplace with happlies | hrefusal
      · exact List.mem_of_mem_filter (happlied.mem_iff.mp happlies)
      · exact List.mem_of_mem_filter (hrefused.mem_iff.mp hrefusal)
    exact (mem_placements.mp (hplaces ▸ hmem)).2
  · refine (happlied.map _).trans ((perm_placements hchain links gpos _).trans (List.Perm.of_eq ?_))
    refine List.filter_congr fun link _ => ?_
    rw [decide_eq_decide]
    simp only [applies_iff, LinkApplies]
  · have := (List.mem_filter.mp hplace).2
    simp only [Bool.and_eq_true, Bool.not_eq_true'] at this
    exact this.1.2
  · have := (List.mem_filter.mp ((List.perm_sortedBy _ _).mem_iff.mp hplace)).2
    simp only [Bool.and_eq_true] at this
    exact this.2
  · refine ⟨?_, List.getLast?_of_pairwise henforcedUp hwinner⟩
    rw [List.getLast?_map, ordered, List.getLast?_append, ← hplaces, hwinner]
    rfl
  · have hmap : (refusals chain blocked target places).map (fun entry => entry.1.link) =
        ((refusals chain blocked target places).map fun entry => entry.1).map Placement.link := by
      simp [Function.comp_def]
    rw [hmap]
    refine (hrefused.map _).trans ((perm_placements hchain links gpos _).trans (List.Perm.of_eq ?_))
    refine List.filter_congr fun link _ => ?_
    rw [decide_eq_decide]
    constructor
    · rintro ⟨place, rfl, hplaced, hnot⟩
      refine ⟨⟨place, rfl, hplaced⟩, ?_⟩
      rintro ⟨place', hlink, hplaced', happlies⟩
      rw [hplaced'.eq hchain hplaced hlink, ← applies_iff] at happlies
      simp [happlies] at hnot
    · rintro ⟨⟨place, rfl, hplaced⟩, hnot⟩
      refine ⟨place, rfl, hplaced, ?_⟩
      rw [Bool.not_eq_true', ← Bool.not_eq_true, applies_iff]
      exact fun happlies => hnot ⟨place, rfl, hplaced, happlies⟩
  · exact (refused_of_mem hasked hentry).2

/-- Resolution places every link of a chain by the four rules, or passes on the exception that the
scope question of an enabled link on the chain ends in. -/
theorem resolveOrder_precedence {chain : List String} (hchain : (chain.map lower).Nodup)
    (links : List Link) (gpos : List (String × Gpo)) (blocked : List String) (target : Target) :
    (∃ order skipped normal enforced refused,
      resolveOrder chain links gpos blocked target = .ok (order, skipped) ∧
        Resolves chain links gpos blocked target order skipped normal enforced refused) ∨
    ∃ place : Placement, place.link ∈ links ∧ Placed chain gpos place ∧
      place.link.enabled = true ∧ ∃ raised, inScope place.gpo target = .error raised ∧
        resolveOrder chain links gpos blocked target = .error raised := by
  rcases resolveOrder_cases chain links gpos blocked target with ⟨hok, hasked⟩ |
    ⟨place, hplace, raised, henabled, hscope, herror⟩
  · exact .inl ⟨_, _, _, _, _, hok, resolves_ordered hchain links gpos blocked target hasked⟩
  · obtain ⟨hlink, hplaced⟩ := mem_placements.mp hplace
    exact .inr ⟨place, hlink, hplaced, henabled, raised, hscope, herror⟩

omit [Runtime] in
/-- A disabled link, a link above a blocking container and an enforced one. -/
theorem resolveOrder_precedence_sales :
    letI := Runtime.latin
    let chain := ["DC=corp", "OU=Sales,DC=corp"]
    let links : List Link := [⟨"a", "dc=corp", 1, true, true⟩, ⟨"b", "DC=corp", 2, false, true⟩,
      ⟨"b", "OU=Sales,DC=corp", 1, false, false⟩]
    let a : Gpo := { guid := "a", displayName := "A", enabled := true, settings := [] }
    let b : Gpo := { guid := "b", displayName := "B", enabled := true, settings := [] }
    let gpos := [("a", a), ("b", b)]
    let blocked := ["ou=sales,DC=corp"]
    let target : Target := { dn := "CN=ws,OU=Sales,DC=corp" }
    (∃ order skipped normal enforced refused,
      resolveOrder chain links gpos blocked target = .ok (order, skipped) ∧
        Resolves chain links gpos blocked target order skipped normal enforced refused) ∨
    ∃ place : Placement, place.link ∈ links ∧ Placed chain gpos place ∧
      place.link.enabled = true ∧ ∃ raised, inScope place.gpo target = .error raised ∧
        resolveOrder chain links gpos blocked target = .error raised := by
  exact @resolveOrder_precedence Runtime.latin _ (by decide) _ _ _ _

def commas (s : String) : Nat := s.toList.count ','

omit [Runtime] in
theorem commas_join (part next : String) (parts : List String) :
    commas (Text.join "," (part :: next :: parts)) =
      commas part + 1 + commas (Text.join "," (next :: parts)) := by
  have := Text.toList_join_cons ',' part next parts
  rw [commas, show ("," : String) = String.singleton ',' from rfl, this, List.count_append,
    List.count_cons_self]
  simp only [commas]
  omega

omit [Runtime] in
theorem commas_join_drop_lt {parts : List String} (base : String) {i j : Nat} (hij : i < j)
    (hj : j ≤ parts.length) :
    commas (Text.join "," (parts.drop j ++ [base])) <
      commas (Text.join "," (parts.drop i ++ [base])) := by
  induction j, hij using Nat.le_induction with
  | base =>
      rw [List.drop_eq_getElem_cons (show i < parts.length by omega)]
      cases hrest : parts.drop (i + 1) ++ [base] with
      | nil => simp at hrest
      | cons next rest =>
          rw [List.cons_append, hrest, commas_join]
          omega
  | succ j hij ih =>
      refine lt_trans ?_ (ih (by omega))
      rw [List.drop_eq_getElem_cons (show j < parts.length by omega)]
      cases hrest : parts.drop (j + 1) ++ [base] with
      | nil => simp at hrest
      | cons next rest =>
          rw [List.cons_append, hrest, commas_join]
          omega

/-- A container chain repeats no container, whatever lower-casing does so long as it keeps the
commas of a name: every step down the chain has more of them. -/
theorem nodup_containerChain (hlower : ∀ s, commas (lower s) = commas s) (dn baseDn : String) :
    ((containerChain dn baseDn).map lower).Nodup := by
  unfold containerChain
  split
  · set parts := (splitDn (String.ofList (dn.toList.take (dn.length - (baseDn.length + 1))))).drop 1
    have hbase : baseDn = Text.join "," (parts.drop parts.length ++ [baseDn]) := by
      simp [Text.join]
    have hdepths : (parts.length :: (List.range parts.length).reverse).Pairwise (· > ·) := by
      refine List.pairwise_cons.mpr ⟨fun i hi => by simpa using hi, ?_⟩
      exact List.pairwise_reverse.mpr List.pairwise_lt_range
    have hchain : baseDn :: ((List.range parts.length).reverse.map fun index =>
        Text.join "," (parts.drop index ++ [baseDn])) =
        (parts.length :: (List.range parts.length).reverse).map fun index =>
          Text.join "," (parts.drop index ++ [baseDn]) := by
      rw [List.map_cons, ← hbase]
    rw [hchain, List.map_map]
    refine List.pairwise_map.mpr (List.Pairwise.imp_of_mem (fun {i j} hi _ hij heq => ?_) hdepths)
    have hle : i ≤ parts.length := by
      rcases List.mem_cons.mp hi with heq | hmem
      · exact heq.le
      · exact (List.mem_range.mp (List.mem_reverse.mp hmem)).le
    have := commas_join_drop_lt baseDn hij hle
    rw [← hlower, ← hlower (Text.join "," (parts.drop j ++ [baseDn]))] at this
    simp only [Function.comp_apply] at heq
    exact absurd this (by rw [heq]; exact lt_irrefl _)
  · exact List.nodup_nil

omit [Runtime] in
theorem nodup_containerChain_sales :
    letI := Runtime.latin
    ((containerChain "CN=ws,OU=Sales,DC=corp" "DC=corp").map lower).Nodup := by
  let _ := Runtime.latin
  refine nodup_containerChain (fun text => ?_) _ _
  have hcomma : (· == ',') ∘ Char.toLower = (· == ',') := by
    funext c
    refine @Text.toLower_of_not_alpha (· == ',') (fun d hd => ?_) c
    rw [eq_of_beq hd]
    rfl
  rw [commas, commas, lower, String.toList_ofList, List.count_eq_countP, List.countP_map, hcomma, List.count_eq_countP]

end OpenDirectory.Policy
