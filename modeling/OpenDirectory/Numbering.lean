import Mathlib

/-! Lists of numbers that are, in some order, the numbers from 1 to their length: what may be added to such a
list, what of it may be taken away, and when one is put together from numbers given anew and numbers that stay. -/

namespace Numbering

def upTo (n : Nat) : List Int := (List.range n).map fun i : Nat => (i : Int) + 1

/-- Pairwise distinct, and the numbers from 1 to the length. -/
structure Numbered (orders : List Int) : Prop where
  nodup : orders.Nodup
  mem_iff : ∀ k, k ∈ orders ↔ 1 ≤ k ∧ k ≤ orders.length

@[simp] theorem length_upTo (n : Nat) : (upTo n).length = n := by simp [upTo]

theorem mem_upTo {n : Nat} {k : Int} : k ∈ upTo n ↔ 1 ≤ k ∧ k ≤ n := by
  unfold upTo
  rw [List.mem_map]
  constructor
  · rintro ⟨i, hi, rfl⟩
    have hlt := List.mem_range.mp hi
    omega
  · rintro ⟨hlow, hhigh⟩
    refine ⟨(k - 1).toNat, List.mem_range.mpr ?_, ?_⟩ <;> omega

theorem nodup_upTo (n : Nat) : (upTo n).Nodup := by
  apply List.nodup_range.map
  intro i j heq
  have hcast : (i : Int) + 1 = (j : Int) + 1 := heq
  omega

theorem numbered_upTo (n : Nat) : Numbered (upTo n) := ⟨nodup_upTo n, fun k => by rw [mem_upTo, length_upTo]⟩

theorem numbered_nil : Numbered [] := numbered_upTo 0

theorem Numbered.perm {orders orders' : List Int} (h : Numbered orders) (hperm : orders.Perm orders') :
    Numbered orders' :=
  ⟨hperm.nodup_iff.mp h.nodup, fun k => by rw [← hperm.mem_iff, h.mem_iff, hperm.length_eq]⟩

theorem numbered_perm_iff {orders orders' : List Int} (hperm : orders.Perm orders') :
    Numbered orders ↔ Numbered orders' := ⟨fun h => h.perm hperm, fun h => h.perm hperm.symm⟩

theorem numbered_of_bounds {orders : List Int} (hnodup : orders.Nodup)
    (hbounds : ∀ k ∈ orders, 1 ≤ k ∧ k ≤ orders.length) : Numbered orders := by
  have hsubset : orders ⊆ upTo orders.length := fun k hk => mem_upTo.mpr (hbounds k hk)
  have hperm := (List.subperm_of_subset hnodup hsubset).perm_of_length_le (by rw [length_upTo])
  exact ⟨hnodup, fun k => by rw [hperm.mem_iff, mem_upTo]⟩

theorem Numbered.append_iff {orders : List Int} (h : Numbered orders) (more : List Int) :
    Numbered (orders ++ more) ↔
      more.Nodup ∧ ∀ k ∈ more, (orders.length : Int) < k ∧ k ≤ orders.length + more.length := by
  constructor
  · intro happend
    obtain ⟨-, hmore, hdisjoint⟩ := List.nodup_append.mp happend.nodup
    refine ⟨hmore, fun k hk => ?_⟩
    obtain ⟨hlow, hhigh⟩ := (happend.mem_iff k).mp (List.mem_append_right _ hk)
    have hnot : ¬ (1 ≤ k ∧ k ≤ orders.length) := fun hmem => hdisjoint k ((h.mem_iff k).mpr hmem) k hk rfl
    rw [List.length_append] at hhigh
    omega
  · rintro ⟨hmore, hbounds⟩
    apply numbered_of_bounds
    · rw [List.nodup_append]
      refine ⟨h.nodup, hmore, ?_⟩
      rintro k hk k' hk' rfl
      have hle := ((h.mem_iff k).mp hk).2
      have hlt := (hbounds k hk').1
      omega
    · intro k hk
      rw [List.length_append]
      rcases List.mem_append.mp hk with hold | hnew
      · have hle := (h.mem_iff k).mp hold
        omega
      · have hlt := hbounds k hnew
        omega

theorem Numbered.left_iff {kept removed : List Int} (h : Numbered (kept ++ removed)) :
    Numbered kept ↔ ∀ k ∈ kept, ∀ r ∈ removed, k < r := by
  obtain ⟨hkept, -, hdisjoint⟩ := List.nodup_append.mp h.nodup
  constructor
  · intro hnumbered k hk r hr
    have hle := ((hnumbered.mem_iff k).mp hk).2
    have hone := ((h.mem_iff r).mp (List.mem_append_right _ hr)).1
    by_contra hnot
    exact hdisjoint r ((hnumbered.mem_iff r).mpr ⟨hone, by omega⟩) r hr rfl
  · intro hbefore
    apply numbered_of_bounds hkept
    intro k hk
    obtain ⟨hone, hle⟩ := (h.mem_iff k).mp (List.mem_append_left _ hk)
    refine ⟨hone, ?_⟩
    -- All the numbers up to one that stays do.
    have hsubset : upTo k.toNat ⊆ kept := by
      intro j hj
      have hbounds := mem_upTo.mp hj
      have hmem : j ∈ kept ++ removed := (h.mem_iff j).mpr ⟨hbounds.1, by omega⟩
      rcases List.mem_append.mp hmem with hstays | hgoes
      · exact hstays
      · have hlt := hbefore k hk j hgoes
        omega
    have hlength := (List.subperm_of_subset (nodup_upTo _) hsubset).length_le
    rw [length_upTo] at hlength
    omega

end Numbering
