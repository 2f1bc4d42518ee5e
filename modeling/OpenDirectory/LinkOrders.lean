import OpenDirectory.Numbering
import OpenDirectory.PolicyTables
import OpenDirectory.Steps

/-! The orders of the links over a run of requests. The resolver takes the links of a container together however
it is spelled; the requests number those of one spelling, or copy orders out of a document, and a policy object
that is deleted takes its links out of the middle. -/

namespace OpenDirectory.PolicyTables

open Numbering

variable {D : Type} [Runtime]

/-- Of a link only where it is and its order. -/
abbrev Orders := List ((String × String) × Int)

omit [Runtime] in
def Tables.orders (tables : Tables D) : Orders := tables.links.map fun entry => (entry.1, entry.2.order)

/-- The links of a container, however it is spelled. -/
def within (orders : Orders) (container : String) : Orders :=
  orders.filter fun entry => lower entry.1.2 = lower container

def numbers (orders : Orders) (container : String) : List Int := (within orders container).map Prod.snd

/-- The links of each container have the orders 1 to n. -/
def WellFormed (orders : Orders) : Prop := ∀ container, Numbered (numbers orders container)

omit [Runtime] in
/-- The links of the container as it is spelled. -/
def spelled (orders : Orders) (target : String) : Orders := orders.filter fun entry => entry.1.2 = target

def spelledOtherwise (orders : Orders) (target : String) : Orders :=
  orders.filter fun entry => lower entry.1.2 = lower target && entry.1.2 ≠ target

theorem numbers_congr (orders : Orders) {container container' : String} (h : lower container = lower container') :
    numbers orders container = numbers orders container' := by
  unfold numbers within
  rw [h]

theorem numbers_append (orders orders' : Orders) (container : String) :
    numbers (orders ++ orders') container = numbers orders container ++ numbers orders' container := by
  unfold numbers within
  rw [List.filter_append, List.map_append]

variable {orders : Orders}

theorem numbers_perm {orders' : Orders} (h : orders.Perm orders') (container : String) :
    (numbers orders container).Perm (numbers orders' container) := (h.filter _).map _

theorem numbers_split (orders : Orders) (target : String) : (numbers orders target).Perm
    ((spelled orders target).map Prod.snd ++ (spelledOtherwise orders target).map Prod.snd) := by
  unfold numbers within spelled spelledOtherwise
  rw [← List.map_append]
  apply List.Perm.map
  have hperm := @List.filter_append_filter_perm _ (fun entry : (String × String) × Int => entry.1.2 = target)
    (fun entry => lower entry.1.2 = lower target && entry.1.2 ≠ target) orders (by
      intro entry _ hspelled
      simp [of_decide_eq_true hspelled])
  refine .trans ?_ hperm.symm
  rw [List.filter_congr]
  intro entry _
  by_cases hspelled : entry.1.2 = target
  · simp [hspelled]
  · simp [hspelled]

theorem numbers_singleton (key : String × String) (order : Int) (container : String) :
    numbers [(key, order)] container = if lower key.2 = lower container then [order] else [] := by
  unfold numbers within
  by_cases h : lower key.2 = lower container <;> simp [h]

/-- In each container these orders are the next. -/
def NextIn (orders more : Orders) : Prop :=
  ∀ container, (numbers more container).Nodup ∧ ∀ k ∈ numbers more container,
    ((numbers orders container).length : Int) < k ∧
      k ≤ (numbers orders container).length + (numbers more container).length

theorem WellFormed.append_iff (h : WellFormed orders) (more : Orders) :
    WellFormed (orders ++ more) ↔ NextIn orders more :=
  forall_congr' fun container => by rw [numbers_append, (h container).append_iff]

theorem WellFormed.concat_iff (h : WellFormed orders) (key : String × String) (order : Int) :
    WellFormed (orders ++ [(key, order)]) ↔ order = (numbers orders key.2).length + 1 := by
  unfold WellFormed
  simp only [numbers_append, numbers_singleton]
  constructor
  · intro hall
    have hthere := hall key.2
    rw [if_pos rfl, (h key.2).append_iff] at hthere
    have hbounds := hthere.2 order List.mem_cons_self
    rw [List.length_singleton] at hbounds
    omega
  · rintro rfl container
    by_cases hcontainer : lower key.2 = lower container
    · rw [if_pos hcontainer, (h container).append_iff, ← numbers_congr orders hcontainer]
      refine ⟨List.nodup_singleton _, fun k hk => ?_⟩
      rw [List.mem_singleton.mp hk, List.length_singleton]
      omega
    · rw [if_neg hcontainer, List.append_nil]
      exact h container

/-- The links of one spelling get the orders 1 to their number: those of other spellings come right after. -/
theorem renumbered_iff {orders' : Orders} {target : String} {n : Nat}
    (hnodup : ((spelledOtherwise orders target).map Prod.snd).Nodup)
    (hthere : (numbers orders' target).Perm (upTo n ++ (spelledOtherwise orders target).map Prod.snd))
    (helsewhere : ∀ container, lower container ≠ lower target → Numbered (numbers orders' container)) :
    WellFormed orders' ↔ ∀ entry ∈ spelledOtherwise orders target,
      (n : Int) < entry.2 ∧ entry.2 ≤ n + (spelledOtherwise orders target).length := by
  have hiff : Numbered (numbers orders' target) ↔ ∀ entry ∈ spelledOtherwise orders target,
      (n : Int) < entry.2 ∧ entry.2 ≤ n + (spelledOtherwise orders target).length := by
    rw [numbered_perm_iff hthere, (numbered_upTo n).append_iff, length_upTo, List.length_map]
    constructor
    · exact fun hboth entry hentry => hboth.2 entry.2 (List.mem_map_of_mem hentry)
    · intro hall
      refine ⟨hnodup, fun k hk => ?_⟩
      obtain ⟨entry, hentry, rfl⟩ := List.mem_map.mp hk
      exact hall entry hentry
  rw [← hiff]
  constructor
  · exact fun hall => hall target
  · intro hnumbered container
    by_cases hcontainer : lower container = lower target
    · rw [numbers_congr orders' hcontainer]
      exact hnumbered
    · exact helsewhere container hcontainer

theorem WellFormed.otherwise (h : WellFormed orders) (target : String) :
    ((spelledOtherwise orders target).map Prod.snd).Nodup ∧ ∀ entry ∈ spelledOtherwise orders target,
      entry.2 ≤ (spelled orders target).length + (spelledOtherwise orders target).length := by
  have hperm := numbers_split orders target
  refine ⟨(List.nodup_append.mp (hperm.nodup_iff.mp (h target).nodup)).2.1, fun entry hentry => ?_⟩
  have hthere : entry.2 ∈ numbers orders target :=
    hperm.mem_iff.mpr (List.mem_append_right _ (List.mem_map_of_mem hentry))
  have hle := (((h target).mem_iff _).mp hthere).2
  rw [hperm.length_eq, List.length_append, List.length_map, List.length_map] at hle
  exact_mod_cast hle

omit [Runtime] in
/-- A policy object is linked to a container, as it is spelled, once, and no id is given twice. -/
structure Sound (tables : Tables D) : Prop where
  keys : (Dict.keys tables.links).Nodup
  ids : (tables.links.map fun entry => entry.2.id).Nodup
  old : ∀ entry ∈ tables.links, entry.2.id < tables.nextLink

variable {tables : Tables D}

omit [Runtime] in
theorem Sound.filter (h : Sound tables) (gpos : List (String × Gpo D))
    (p : (String × String) × Link → Bool) : Sound { tables with gpos, links := tables.links.filter p } where
  keys := (List.filter_sublist.map _).nodup h.keys
  ids := (List.filter_sublist.map _).nodup h.ids
  old := fun entry hentry => h.old entry (List.mem_of_mem_filter hentry)

omit [Runtime] in
theorem Sound.map (h : Sound tables) {f : (String × String) × Link → (String × String) × Link}
    (hf : ∀ entry, (f entry).1 = entry.1 ∧ (f entry).2.id = entry.2.id) :
    Sound { tables with links := tables.links.map f } where
  keys := by
    have hsame : Dict.keys (tables.links.map f) = Dict.keys tables.links := by
      unfold Dict.keys
      rw [List.map_map]
      exact List.map_congr_left fun entry _ => (hf entry).1
    rw [hsame]
    exact h.keys
  ids := by
    rw [List.map_map]
    have hsame : (tables.links.map ((fun entry => entry.2.id) ∘ f)) = tables.links.map fun entry => entry.2.id :=
      List.map_congr_left fun entry _ => (hf entry).2
    rw [hsame]
    exact h.ids
  old := by
    intro entry hentry
    obtain ⟨entry', hentry', rfl⟩ := List.mem_map.mp hentry
    rw [(hf entry').2]
    exact h.old entry' hentry'

variable {key : String × String} {ids : List Nat} {id : Nat}

section
omit [Runtime]

theorem insert_links (hkey : Dict.get tables.links key = none) (order : Int)
    (enforced enabled : Bool) : (tables.insert key order enforced enabled).links =
      tables.links ++ [(key, ⟨tables.nextLink, order, enforced, enabled⟩)] :=
  Dict.set_of_not_mem (Dict.get_eq_none_iff.mp hkey) _

theorem Sound.insert (h : Sound tables) (hkey : Dict.get tables.links key = none)
    (order : Int) (enforced enabled : Bool) : Sound (tables.insert key order enforced enabled) where
  keys := Dict.nodup_keys_set h.keys _ _
  ids := by
    rw [insert_links hkey, List.map_append, List.nodup_append]
    refine ⟨h.ids, List.nodup_singleton _, ?_⟩
    rintro id hid id' hid' rfl
    obtain ⟨entry, hentry, rfl⟩ := List.mem_map.mp hid
    exact absurd (List.mem_singleton.mp hid') (h.old entry hentry).ne
  old := by
    intro entry hentry
    rw [insert_links hkey] at hentry
    rcases List.mem_append.mp hentry with hold | hnew
    · exact (h.old entry hold).trans (Nat.lt_succ_self _)
    · rw [List.mem_singleton.mp hnew]
      exact Nat.lt_succ_self _

theorem orders_insert (hkey : Dict.get tables.links key = none) (order : Int)
    (enforced enabled : Bool) :
    (tables.insert key order enforced enabled).orders = tables.orders ++ [(key, order)] := by
  unfold Tables.orders
  rw [insert_links hkey, List.map_append]
  rfl

/-- The order after the last is beyond those of the links of that spelling, the last of which stands right
before it. -/
theorem afterLast_spec (links : List ((String × String) × Link)) (target : String) :
    (∀ entry ∈ linksOf links target, entry.2.order < afterLast links target) ∧
      (linksOf links target = [] ∧ afterLast links target = 1 ∨
        ∃ entry ∈ linksOf links target, afterLast links target = entry.2.order + 1) := by
  unfold afterLast
  cases hmax : ((linksOf links target).map fun entry => entry.2.order).max? with
  | none =>
      have hnil : linksOf links target = [] := List.map_eq_nil_iff.mp (List.max?_eq_none_iff.mp hmax)
      rw [hnil]
      exact ⟨fun entry hentry => absurd hentry List.not_mem_nil, .inl ⟨rfl, rfl⟩⟩
  | some last =>
      obtain ⟨hmem, hle⟩ := List.max?_eq_some_iff.mp hmax
      obtain ⟨entry, hentry, hlast⟩ := List.mem_map.mp hmem
      refine ⟨fun other hother => ?_, .inr ⟨entry, hentry, ?_⟩⟩
      · have hbelow := hle other.2.order (List.mem_map_of_mem hother)
        rw [Option.getD_some]
        omega
      · rw [Option.getD_some, hlast]

theorem spelled_orders (tables : Tables D) (target : String) :
    spelled tables.orders target = (linksOf tables.links target).map fun entry => (entry.1, entry.2.order) := by
  unfold spelled Tables.orders linksOf
  rw [List.filter_map]
  rfl

end

/-- The order after the last of one spelling is the one after all of the container exactly when no link of
another spelling stands at or behind it. -/
theorem afterLast_iff (h : WellFormed tables.orders) (target : String) :
    afterLast tables.links target = (numbers tables.orders target).length + 1 ↔
      ∀ entry ∈ spelledOtherwise tables.orders target, entry.2 < afterLast tables.links target := by
  obtain ⟨hbeyond, hlast⟩ := afterLast_spec tables.links target
  have hnumbered := h target
  have hspelled : ∀ k ∈ (spelled tables.orders target).map Prod.snd, k < afterLast tables.links target := by
    intro k hk
    rw [spelled_orders, List.map_map] at hk
    obtain ⟨entry, hentry, rfl⟩ := List.mem_map.mp hk
    exact hbeyond entry hentry
  have hmem : ∀ k, k ∈ numbers tables.orders target ↔ k ∈ (spelled tables.orders target).map Prod.snd ++
      (spelledOtherwise tables.orders target).map Prod.snd :=
    fun k => (numbers_split tables.orders target).mem_iff
  have hbound : ∀ entry ∈ linksOf tables.links target,
      entry.2.order ≤ (numbers tables.orders target).length ∧ 1 ≤ entry.2.order := by
    intro entry hentry
    have hthere : entry.2.order ∈ numbers tables.orders target := by
      apply (hmem _).mpr (List.mem_append_left _ _)
      rw [spelled_orders, List.map_map]
      exact List.mem_map_of_mem (f := fun entry : (String × String) × Link => entry.2.order) hentry
    have hbounds := (hnumbered.mem_iff _).mp hthere
    exact ⟨hbounds.2, hbounds.1⟩
  constructor
  · intro heq entry hentry
    have hthere := (hmem _).mpr (List.mem_append_right _ (List.mem_map_of_mem (f := Prod.snd) hentry))
    have hle := ((hnumbered.mem_iff _).mp hthere).2
    omega
  · intro hothers
    have hall : ∀ k ∈ numbers tables.orders target, k < afterLast tables.links target := by
      intro k hk
      rcases List.mem_append.mp ((hmem k).mp hk) with hhere | hother
      · exact hspelled k hhere
      · obtain ⟨entry, hentry, rfl⟩ := List.mem_map.mp hother
        exact hothers entry hentry
    have hupper : afterLast tables.links target ≤ (numbers tables.orders target).length + 1 := by
      rcases hlast with ⟨-, hone⟩ | ⟨entry, hentry, heq⟩
      · omega
      · have hle := (hbound entry hentry).1
        omega
    rcases Nat.eq_zero_or_pos (numbers tables.orders target).length with hzero | hpos
    · rcases hlast with ⟨-, hone⟩ | ⟨entry, hentry, heq⟩
      · omega
      · have hbounds := hbound entry hentry
        omega
    · have hlt := hall _ ((hnumbered.mem_iff (numbers tables.orders target).length).mpr ⟨by omega, le_rfl⟩)
      omega

section
omit [Runtime]

theorem foldl_setOrder (ids : List Nat) (hids : ids.Nodup) (first : Nat) (links : List ((String × String) × Link)) :
    (ids.zipIdx first).foldl (fun links entry => setOrder links entry.1 entry.2) links = links.map fun entry =>
      if entry.2.id ∈ ids then
        (entry.1, { entry.2 with order := ((ids.idxOf entry.2.id + first : Nat) : Int) })
      else entry := by
  induction ids generalizing first links with
  | nil => simp
  | cons id ids ih =>
      obtain ⟨hid, hrest⟩ := List.nodup_cons.mp hids
      rw [List.zipIdx_cons, List.foldl_cons, ih hrest, setOrder, List.map_map]
      apply List.map_congr_left
      intro entry _
      rw [Function.comp_apply]
      by_cases hhere : entry.2.id = id
      · simp [hhere, hid]
      · by_cases hlater : entry.2.id ∈ ids
        · simp [hhere, hlater, List.idxOf_cons_ne ids (Ne.symm hhere)]
          omega
        · simp [hhere, hlater]

theorem map_idxOf (h : ids.Nodup) :
    (ids.map fun id => ((ids.idxOf id + 1 : Nat) : Int)) = upTo ids.length := by
  unfold upTo
  apply List.ext_getElem
  · simp
  · intro i hi hi'
    simp [h.idxOf_getElem]

theorem mem_idsOf {links : List ((String × String) × Link)} {target : String}
    (hperm : ids.Perm ((linksOf links target).map fun entry => entry.2.id)) :
    id ∈ ids ↔ ∃ entry ∈ links, entry.1.2 = target ∧ entry.2.id = id := by
  rw [hperm.mem_iff, List.mem_map]
  constructor
  · rintro ⟨entry, hentry, hid⟩
    obtain ⟨hmem, hspelled⟩ := List.mem_filter.mp hentry
    exact ⟨entry, hmem, of_decide_eq_true hspelled, hid⟩
  · rintro ⟨entry, hmem, hspelled, hid⟩
    exact ⟨entry, List.mem_filter.mpr ⟨hmem, decide_eq_true hspelled⟩, hid⟩

theorem renumber_sound (h : Sound tables) (ids : List Nat) (hids : ids.Nodup) :
    Sound { tables with links := renumber tables.links ids } := by
  unfold renumber
  rw [foldl_setOrder ids hids]
  apply h.map
  intro entry
  split <;> exact ⟨rfl, rfl⟩

end

/-- Of the links of one spelling, renumbered, the orders are 1 to their number, in their container beside those
of the links of other spellings, elsewhere what they were. -/
theorem renumber_orders (h : Sound tables) {target : String}
    (hperm : ids.Perm ((linksOf tables.links target).map fun entry => entry.2.id)) :
    (numbers { tables with links := renumber tables.links ids : Tables D}.orders target).Perm
        (upTo ids.length ++ (spelledOtherwise tables.orders target).map Prod.snd) ∧
      ∀ container, lower container ≠ lower target →
        numbers { tables with links := renumber tables.links ids : Tables D}.orders container =
          numbers tables.orders container := by
  have hids : ids.Nodup := hperm.nodup_iff.mpr ((List.filter_sublist.map _).nodup h.ids)
  let place : (String × String) × Link → (String × String) × Int := fun entry =>
    (entry.1, if entry.2.id ∈ ids then ((ids.idxOf entry.2.id + 1 : Nat) : Int) else entry.2.order)
  have horders : { tables with links := renumber tables.links ids : Tables D}.orders = tables.links.map place := by
    unfold Tables.orders renumber
    rw [foldl_setOrder ids hids, List.map_map]
    apply List.map_congr_left
    intro entry _
    rw [Function.comp_apply]
    by_cases hid : entry.2.id ∈ ids <;> simp [place, hid]
  -- A link has one of these ids just when it is spelled so.
  have hmem : ∀ entry ∈ tables.links, entry.2.id ∈ ids ↔ entry.1.2 = target := by
    intro entry hentry
    rw [mem_idsOf hperm]
    constructor
    · rintro ⟨other, hother, hspelled, hid⟩
      rw [← List.inj_on_of_nodup_map h.ids hother hentry hid]
      exact hspelled
    · exact fun hspelled => ⟨entry, hentry, hspelled, rfl⟩
  rw [horders]
  constructor
  · refine (numbers_split _ target).trans (List.Perm.append ?_ ?_)
    · have hspelled : (spelled (tables.links.map place) target).map Prod.snd =
          ((linksOf tables.links target).map fun entry => entry.2.id).map fun id =>
            ((ids.idxOf id + 1 : Nat) : Int) := by
        unfold spelled linksOf
        rw [List.filter_map, List.map_map, List.map_map]
        apply List.map_congr_left
        intro entry hentry
        obtain ⟨hthere, hspelled⟩ := List.mem_filter.mp hentry
        have hid := (hmem entry hthere).mpr (of_decide_eq_true hspelled)
        simp [place, hid]
      rw [hspelled, ← map_idxOf hids]
      exact hperm.symm.map _
    · apply List.Perm.of_eq
      unfold spelledOtherwise Tables.orders
      rw [List.filter_map, List.filter_map, List.map_map, List.map_map]
      apply List.map_congr_left
      intro entry hentry
      obtain ⟨hthere, hother⟩ := List.mem_filter.mp hentry
      have hid : entry.2.id ∉ ids := by
        rw [hmem entry hthere]
        simpa using (Bool.and_eq_true_iff.mp hother).2
      simp [place, hid]
  · intro container hcontainer
    unfold numbers within Tables.orders
    rw [List.filter_map, List.filter_map, List.map_map, List.map_map]
    apply List.map_congr_left
    intro entry hentry
    obtain ⟨hthere, hwithin⟩ := List.mem_filter.mp hentry
    have hid : entry.2.id ∉ ids := by
      rw [hmem entry hthere]
      rintro rfl
      exact hcontainer (of_decide_eq_true hwithin).symm
    simp [place, hid]

omit [Runtime] in
theorem idsOf_perm (links : List ((String × String) × Link)) (target : String) :
    (idsOf links target).Perm ((linksOf links target).map fun entry => entry.2.id) :=
  (List.perm_sortedBy _ _).map _

/-- An update that moves a link: no link of another spelling stands among those of its own. -/
def FitsUpdate (tables : Tables D) (id : Nat) (order : Option Int) : Prop :=
  ∀ key before, findLink tables id = some (key, before) → ∀ position, order = some position →
    position ≠ before.order → ∀ entry ∈ spelledOtherwise tables.orders key.2,
      ((spelled tables.orders key.2).length : Int) < entry.2

omit [Runtime] in
theorem findLink_id {entry : (String × String) × Link} (h : findLink tables id = some entry) :
    entry.2.id = id := by
  have hpick := List.find?_some h
  exact of_decide_eq_true hpick

theorem reorder_spec (h : Sound tables) (hwell : WellFormed tables.orders)
    {before : Link} (hfound : findLink tables id = some (key, before)) (position : Int) :
    Sound { tables with links := reorder tables.links key.2 id position } ∧
      (WellFormed { tables with links := reorder tables.links key.2 id position : Tables D}.orders ↔
        ∀ entry ∈ spelledOtherwise tables.orders key.2, ((spelled tables.orders key.2).length : Int) < entry.2) := by
  obtain rfl : before.id = id := findLink_id hfound
  have hmem : (key, before) ∈ tables.links := List.mem_of_find?_eq_some hfound
  let others := (idsOf tables.links key.2).filter fun other => other ≠ before.id
  let ids := others.insertIdx (max 0 (min (position - 1) others.length)).toNat before.id
  have hids : (idsOf tables.links key.2).Nodup :=
    (idsOf_perm _ _).nodup_iff.mpr ((List.filter_sublist.map _).nodup h.ids)
  have hperm : ids.Perm ((linksOf tables.links key.2).map fun entry => entry.2.id) := by
    refine (List.perm_insertIdx before.id others ?_).trans (.trans ?_ (idsOf_perm tables.links key.2))
    · omega
    · have hthere : before.id ∈ idsOf tables.links key.2 :=
        (mem_idsOf (idsOf_perm _ _)).mpr ⟨(key, before), hmem, rfl, rfl⟩
      have herase : others = (idsOf tables.links key.2).erase before.id := by
        rw [hids.erase_eq_filter]
        apply List.filter_congr
        intro other _
        by_cases hsame : other = before.id <;> simp [hsame]
      rw [herase]
      exact (List.perm_cons_erase hthere).symm
  have hlength : ids.length = (spelled tables.orders key.2).length := by
    rw [hperm.length_eq, List.length_map, spelled_orders, List.length_map]
  obtain ⟨hthere, helsewhere⟩ := renumber_orders h hperm
  obtain ⟨hnodup, hle⟩ := hwell.otherwise key.2
  refine ⟨renumber_sound h ids (hperm.nodup_iff.mpr ((List.filter_sublist.map _).nodup h.ids)), ?_⟩
  have hiff := renumbered_iff hnodup hthere fun container hcontainer => by
    rw [helsewhere container hcontainer]
    exact hwell container
  rw [hlength] at hiff
  refine Iff.trans hiff (forall₂_congr fun entry hentry => ?_)
  exact ⟨fun hboth => hboth.1, fun hlt => ⟨hlt, hle entry hentry⟩⟩

omit [Runtime] in
theorem setFlags_spec (h : Sound tables) {before : Link}
    (hfound : findLink tables id = some (key, before)) (enforced enabled : Option Bool) :
    let flagged : Tables D := { tables with links := setFlags tables.links id enforced enabled }
    Sound flagged ∧ flagged.orders = tables.orders ∧
      ∃ after : Link, findLink flagged id = some (key, after) := by
  let flags : (String × String) × Link → (String × String) × Link := fun entry =>
    if entry.2.id = id then
      (entry.1, { entry.2 with
        enforced := enforced.getD entry.2.enforced, enabled := enabled.getD entry.2.enabled })
    else entry
  have hflags : ∀ entry, (flags entry).1 = entry.1 ∧ (flags entry).2.id = entry.2.id ∧
      (flags entry).2.order = entry.2.order := by
    intro entry
    by_cases hsame : entry.2.id = id <;> simp [flags, hsame]
  refine ⟨h.map fun entry => ⟨(hflags entry).1, (hflags entry).2.1⟩, ?_, (flags (key, before)).2, ?_⟩
  · unfold Tables.orders setFlags
    rw [List.map_map]
    apply List.map_congr_left
    intro entry _
    have hsame := hflags entry
    exact Prod.ext hsame.1 hsame.2.2
  · have hpick : ((fun entry : (String × String) × Link => decide (entry.2.id = id)) ∘ flags) =
        fun entry => decide (entry.2.id = id) := by
      funext entry
      rw [Function.comp_apply, (hflags entry).2.1]
    have hkey : (key, (flags (key, before)).2) = flags (key, before) := Prod.ext (hflags (key, before)).1.symm rfl
    rw [hkey]
    change (tables.links.map flags).find? _ = _
    rw [List.find?_map, hpick]
    exact congrArg (Option.map flags) hfound

theorem updateLink_spec (h : Sound tables) (hwell : WellFormed tables.orders) (id : Nat) (order : Option Int)
    (enforced enabled : Option Bool) :
    (updateLink id order enforced enabled tables).1 ≠ .taken ∧
      Sound (updateLink id order enforced enabled tables).2 ∧
      (WellFormed (updateLink id order enforced enabled tables).2.orders ↔ FitsUpdate tables id order) := by
  unfold updateLink FitsUpdate
  cases hfound : findLink tables id with
  | none =>
      refine ⟨Ending.noConfusion, h, iff_of_true hwell ?_⟩
      exact fun _ _ heq => absurd heq.symm (Option.some_ne_none _)
  | some found =>
      obtain ⟨key, before⟩ := found
      let flagged : Tables D := { tables with links := setFlags tables.links id enforced enabled }
      obtain ⟨hsound, horders, hfound'⟩ := setFlags_spec h hfound enforced enabled
      have hflagged : WellFormed flagged.orders := horders ▸ hwell
      dsimp only
      cases order with
      | none =>
          refine ⟨Ending.noConfusion, hsound, iff_of_true hflagged ?_⟩
          exact fun _ _ _ _ heq => absurd heq.symm (Option.some_ne_none _)
      | some position =>
          dsimp only
          by_cases hsame : position = before.order
          · rw [if_pos hsame]
            refine ⟨Ending.noConfusion, hsound, iff_of_true hflagged ?_⟩
            rintro key' before' heq position' heq' hne
            obtain ⟨rfl, rfl⟩ := Prod.mk.inj (Option.some.inj heq)
            exact absurd (Option.some.inj heq' ▸ hsame) hne
          · rw [if_neg hsame]
            obtain ⟨after, hfound'⟩ := hfound'
            have hspec := reorder_spec hsound hflagged hfound' position
            refine ⟨Ending.noConfusion, hspec.1, hspec.2.trans ?_⟩
            rw [horders]
            constructor
            · rintro hall key' before' heq position' heq' hne
              obtain ⟨rfl, rfl⟩ := Prod.mk.inj (Option.some.inj heq)
              exact hall
            · exact fun hall => hall key before rfl position rfl hsame

omit [Runtime] in
/-- The tables without a link. -/
def without (tables : Tables D) (id : Nat) : Tables D :=
  { tables with links := tables.links.filter fun entry => entry.2.id ≠ id }

/-- A removal: the links of other spellings stand right after those of its own that stay. -/
def FitsDelete (tables : Tables D) (id : Nat) : Prop :=
  ∀ key link, findLink tables id = some (key, link) → ∀ entry ∈ spelledOtherwise tables.orders key.2,
    ((spelled (without tables id).orders key.2).length : Int) < entry.2 ∧
      entry.2 ≤ (spelled (without tables id).orders key.2).length + (spelledOtherwise tables.orders key.2).length

omit [Runtime] in
theorem orders_without (h : Sound tables) {link : Link}
    (hfound : findLink tables id = some (key, link)) (p : (String × String) × Int → Bool)
    (hp : p (key, link.order) = false) : (without tables id).orders.filter p = tables.orders.filter p := by
  have hmem : (key, link) ∈ tables.links := List.mem_of_find?_eq_some hfound
  unfold Tables.orders without
  rw [List.filter_map, List.filter_map, List.filter_filter]
  congr 1
  apply List.filter_congr
  intro entry hentry
  rw [Function.comp_apply]
  by_cases hid : entry.2.id = id
  · have hsame : entry = (key, link) :=
      List.inj_on_of_nodup_map h.ids hentry hmem (hid.trans (findLink_id hfound).symm)
    rw [hsame, hp]
    rfl
  · simp [hid]

theorem deleteLink_spec (h : Sound tables) (hwell : WellFormed tables.orders) (id : Nat) :
    (deleteLink id tables).1 ≠ .taken ∧ Sound (deleteLink id tables).2 ∧
      (WellFormed (deleteLink id tables).2.orders ↔ FitsDelete tables id) := by
  unfold deleteLink FitsDelete
  cases hfound : findLink tables id with
  | none =>
      refine ⟨Ending.noConfusion, h, iff_of_true hwell ?_⟩
      exact fun _ _ heq => absurd heq.symm (Option.some_ne_none _)
  | some found =>
      obtain ⟨key, link⟩ := found
      have hsound : Sound (without tables id) := h.filter tables.gpos _
      have hperm := idsOf_perm (without tables id).links key.2
      obtain ⟨hthere, helsewhere⟩ := renumber_orders hsound hperm
      have hlength : (idsOf (without tables id).links key.2).length =
          (spelled (without tables id).orders key.2).length := by
        rw [hperm.length_eq, List.length_map, spelled_orders, List.length_map]
      have hothers : spelledOtherwise (without tables id).orders key.2 = spelledOtherwise tables.orders key.2 :=
        orders_without h hfound _ (by simp)
      rw [hothers, hlength] at hthere
      have hids := hperm.nodup_iff.mpr ((List.filter_sublist.map _).nodup hsound.ids)
      refine ⟨Ending.noConfusion, renumber_sound hsound _ hids, ?_⟩
      have hiff := renumbered_iff (hwell.otherwise key.2).1 hthere fun container hcontainer => by
        rw [helsewhere container hcontainer]
        have hsame : within (without tables id).orders container = within tables.orders container :=
          orders_without h hfound _ (decide_eq_false (Ne.symm hcontainer))
        unfold numbers
        rw [hsame]
        exact hwell container
      refine Iff.trans hiff ?_
      constructor
      · rintro hall key' link' heq
        obtain ⟨rfl, rfl⟩ := Prod.mk.inj (Option.some.inj heq)
        exact hall
      · exact fun hall => hall key link rfl

/-- A policy object that goes: in each container its link stands behind all that stay. -/
def FitsGpo (tables : Tables D) (guid : String) : Prop :=
  (Dict.get tables.gpos guid).isSome = true → ∀ kept ∈ tables.orders, kept.1.1 ≠ guid →
    ∀ removed ∈ tables.orders, removed.1.1 = guid → lower kept.1.2 = lower removed.1.2 → kept.2 < removed.2

theorem deleteGpo_spec (h : Sound tables) (hwell : WellFormed tables.orders) (guid : String) :
    (deleteGpo guid tables).1 ≠ .taken ∧ Sound (deleteGpo guid tables).2 ∧
      (WellFormed (deleteGpo guid tables).2.orders ↔ FitsGpo tables guid) := by
  unfold deleteGpo FitsGpo
  cases hthere : Dict.get tables.gpos guid with
  | none =>
      refine ⟨Ending.noConfusion, h, iff_of_true hwell ?_⟩
      exact fun hfalse => absurd hfalse Bool.false_ne_true
  | some row =>
      refine ⟨Ending.noConfusion, h.filter _ _, ?_⟩
      let kept : Orders := tables.orders.filter fun entry => entry.1.1 ≠ guid
      let removed : Orders := tables.orders.filter fun entry => !decide (entry.1.1 ≠ guid)
      have horders : Tables.orders ({ tables with
          gpos := Dict.erase tables.gpos guid
          links := tables.links.filter fun entry => entry.1.1 ≠ guid } : Tables D) = kept := by
        unfold kept Tables.orders
        rw [List.filter_map]
        rfl
      have hsplit : (kept ++ removed).Perm tables.orders := List.filter_append_perm _ _
      change WellFormed (Tables.orders ({ tables with
        gpos := Dict.erase tables.gpos guid
        links := tables.links.filter fun entry => entry.1.1 ≠ guid } : Tables D)) ↔ _
      rw [horders]
      have hiff : ∀ container, Numbered (numbers kept container) ↔
          ∀ k ∈ numbers kept container, ∀ r ∈ numbers removed container, k < r := by
        intro container
        apply Numbered.left_iff
        rw [← numbers_append]
        exact (hwell container).perm (numbers_perm hsplit container).symm
      have hmem : ∀ (orders : Orders) container k, k ∈ numbers orders container ↔
          ∃ entry ∈ orders, lower entry.1.2 = lower container ∧ entry.2 = k := by
        intro orders container k
        unfold numbers within
        rw [List.mem_map]
        constructor
        · rintro ⟨entry, hentry, heq⟩
          obtain ⟨hin, hcontainer⟩ := List.mem_filter.mp hentry
          exact ⟨entry, hin, of_decide_eq_true hcontainer, heq⟩
        · rintro ⟨entry, hin, hcontainer, heq⟩
          exact ⟨entry, List.mem_filter.mpr ⟨hin, decide_eq_true hcontainer⟩, heq⟩
      constructor
      · intro hall _ entry hentry hkept other hother hremoved hcontainer
        apply (hiff other.1.2).mp (hall other.1.2)
        · exact (hmem _ _ _).mpr ⟨entry, List.mem_filter.mpr ⟨hentry, decide_eq_true hkept⟩, hcontainer, rfl⟩
        · exact (hmem _ _ _).mpr ⟨other, List.mem_filter.mpr ⟨hother, by simp [hremoved]⟩, rfl, rfl⟩
      · intro hall container
        rw [hiff]
        intro k hk r hr
        obtain ⟨entry, hentry, hcontainer, rfl⟩ := (hmem _ _ _).mp hk
        obtain ⟨other, hother, hcontainer', rfl⟩ := (hmem _ _ _).mp hr
        obtain ⟨hentry, hkept⟩ := List.mem_filter.mp hentry
        obtain ⟨hother, hremoved⟩ := List.mem_filter.mp hother
        refine hall rfl entry hentry (of_decide_eq_true hkept) other hother ?_ (hcontainer.trans hcontainer'.symm)
        simpa using hremoved

/-- A new link: none of another spelling of its container stands at or behind the order after the last of its
own. -/
def FitsCreate (tables : Tables D) (target : String) : Prop :=
  ∀ entry ∈ spelledOtherwise tables.orders target, entry.2 < afterLast tables.links target

theorem createLink_spec (h : Sound tables) (hwell : WellFormed tables.orders) (containers : Containers)
    (guid target : String) (enforced enabled : Bool) :
    (createLink containers guid target enforced enabled tables).1 ≠ .taken ∧
      Sound (createLink containers guid target enforced enabled tables).2 ∧
      (WellFormed (createLink containers guid target enforced enabled tables).2.orders ↔
        (containers target = true → (Dict.get tables.gpos guid).isSome = true →
          Dict.get tables.links (guid, target) = none → FitsCreate tables target)) := by
  unfold createLink
  by_cases hrefused : (!containers target || (Dict.get tables.gpos guid).isNone ||
      (Dict.get tables.links (guid, target)).isSome) = true
  · rw [if_pos hrefused]
    refine ⟨Ending.noConfusion, h, iff_of_true hwell fun hthere hgpo hfree => ?_⟩
    obtain ⟨row, hrow⟩ := Option.isSome_iff_exists.mp hgpo
    rw [hthere, hfree, hrow] at hrefused
    cases hrefused
  · rw [if_neg hrefused]
    simp only [Bool.or_eq_true, not_or] at hrefused
    have hkey : Dict.get tables.links (guid, target) = none := Option.not_isSome_iff_eq_none.mp hrefused.2
    refine ⟨Ending.noConfusion, h.insert hkey _ _ _, ?_⟩
    rw [orders_insert hkey, hwell.concat_iff, afterLast_iff hwell]
    refine ⟨fun hfits _ _ _ => hfits, fun hfits => hfits ?_ ?_ hkey⟩
    · simpa using hrefused.1.1
    · exact Option.isSome_iff_ne_none.mpr (by simpa using hrefused.1.2)

end OpenDirectory.PolicyTables
