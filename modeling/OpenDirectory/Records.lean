import OpenDirectory.Dict

/-! Records in a list, no two of them under one key. Written over one after another, a record is what was last
written under its key; and items that each have a record, one that is found or a new one, leave the records that
are nobody's as they were. -/

namespace Dict

variable {κ β γ : Type} [DecidableEq κ]

theorem index_of_nodup {key : β → κ} {items : List β} (h : (items.map key).Nodup) :
    index key items = items.map fun item => (key item, item) := by
  have hupdate : index key items = update [] (items.map fun item => (key item, item)) := by
    rw [index, update, List.foldl_map]
  rw [hupdate, update_of_nodup, List.nil_append]
  rwa [List.nil_append, keys, List.map_map]

theorem mem_index {key : β → κ} {items : List β} {k : κ} {item : β} :
    (k, item) ∈ index key items ↔ last? key items k = some item := by
  rw [← get_index]
  exact ⟨get_of_mem (nodup_keys_index key items), mem_of_get⟩

theorem last?_map {key : β → κ} {key' : γ → κ} {f : β → γ} (h : ∀ item, key' (f item) = key item)
    (items : List β) (k : κ) : last? key' (items.map f) k = (last? key items k).map f := by
  induction items using List.reverseRecOn with
  | nil => rfl
  | append_singleton items item ih =>
      rw [List.map_append, last?_append, last?_append, ih]
      by_cases hkey : key item = k
      · simp [last?, h, hkey]
      · simp [last?, h, hkey]

theorem last?_of_nodup {key : β → κ} {items : List β} (h : (items.map key).Nodup) {item : β}
    (hitem : item ∈ items) : last? key items (key item) = some item := by
  obtain ⟨latest, hlatest⟩ := last?_isSome_of_mem key hitem
  obtain ⟨hkey, hmem⟩ := last?_eq_some hlatest
  rw [hlatest, List.inj_on_of_nodup_map h hmem hitem hkey]

end Dict

namespace Records

variable {α β κ : Type} [DecidableEq κ]

/-- The record that has the key of a given one gives way to it. -/
def write (key : β → κ) (record : β) (records : List β) : List β :=
  records.map fun old => if key old = key record then record else old

/-- Every record is what was last written under its key. -/
def overwrite (key : β → κ) (spot : α → κ) (record : α → β) (items : List α) (records : List β) : List β :=
  records.map fun old => ((Dict.last? spot items (key old)).map record).getD old

variable {key : β → κ} {spot spot' : α → κ} {record record' : α → β} {items : List α} {records : List β}

variable (hkey : ∀ item, key (record item) = spot item)
include hkey

omit hkey

/-- An item has the record it is found to have, or a new one that no other item has. -/
structure Spots (key : β → κ) (records : List β) (found : α → Option β) (items : List α) (spot : α → κ) :
    Prop where
  own : ∀ item ∈ items, ∀ old, found item = some old → old ∈ records ∧ spot item = key old
  new : ∀ item ∈ items, found item = none → spot item ∉ records.map key
  apart : ∀ item ∈ items, ∀ other ∈ items, found item = none → found other = none →
    spot item = spot other → item = other

/-- The records with those of the items, new ones behind the others. -/
def settle (key : β → κ) (found : α → Option β) (spot : α → κ) (record : α → β) (items : List α)
    (records : List β) : List β :=
  overwrite key spot record items records ++ (items.filter fun item => (found item).isNone).map record

variable {found : α → Option β} {item other : α}

omit [DecidableEq κ] in
theorem Spots.only (h : Spots key records found items spot) (hitem : item ∈ items) (hnone : found item = none)
    (hother : other ∈ items) (hspot : spot item = spot other) : item = other := by
  cases hfound : found other with
  | none => exact h.apart item hitem other hother hnone hfound hspot
  | some old =>
      obtain ⟨hold, hkey⟩ := h.own other hother old hfound
      apply absurd (List.mem_map.mpr ⟨old, hold, hkey.symm.trans hspot.symm⟩)
      exact h.new item hitem hnone

theorem Spots.latest_of_none (h : Spots key records found items spot) (hitem : item ∈ items)
    (hnone : found item = none) : Dict.Latest spot items item := by
  obtain ⟨latest, hlatest⟩ := Dict.last?_isSome_of_mem spot hitem
  obtain ⟨hspot, hmem⟩ := Dict.last?_eq_some hlatest
  rw [Dict.Latest, hlatest, h.only hitem hnone hmem hspot.symm]

omit [DecidableEq κ] in
theorem Spots.mem_or_new (h : Spots key records found items spot) (hitem : item ∈ items) :
    spot item ∈ records.map key ∨ found item = none := by
  cases hfound : found item with
  | none => exact .inr rfl
  | some old =>
      obtain ⟨hold, hkey⟩ := h.own item hitem old hfound
      exact .inl (List.mem_map.mpr ⟨old, hold, hkey.symm⟩)

omit [DecidableEq κ] in
theorem Spots.not_mem_iff (h : Spots key records found items spot) (hrecords : (records.map key).Nodup) {old : β}
    (hold : old ∈ records) : key old ∉ items.map spot ↔ ∀ item ∈ items, found item ≠ some old := by
  constructor
  · intro hnot item hitem hfound
    apply hnot
    rw [← (h.own item hitem old hfound).2]
    exact List.mem_map_of_mem hitem
  · intro hnot hmem
    obtain ⟨item, hitem, hspot⟩ := List.mem_map.mp hmem
    cases hfound : found item with
    | none =>
        apply h.new item hitem hfound
        rw [hspot]
        exact List.mem_map_of_mem hold
    | some other =>
        obtain ⟨hother, hkey⟩ := h.own item hitem other hfound
        apply hnot item hitem
        rw [hfound, List.inj_on_of_nodup_map hrecords hother hold (hkey.symm.trans hspot)]

section
omit [DecidableEq κ]

theorem Spots.congr (h : Spots key records found items spot) (hspot : ∀ item ∈ items, spot item = spot' item) :
    Spots key records found items spot' where
  own item hitem old hfound := by
    rw [← hspot item hitem]
    exact h.own item hitem old hfound
  new item hitem hnone := by
    rw [← hspot item hitem]
    exact h.new item hitem hnone
  apart item hitem other hother hnone hnone' heq := by
    rw [← hspot item hitem, ← hspot other hother] at heq
    exact h.apart item hitem other hother hnone hnone' heq

theorem Spots.nil (spot : α → κ) : Spots key records found [] spot where
  own _ h := absurd h List.not_mem_nil
  new _ h := absurd h List.not_mem_nil
  apart _ h := absurd h List.not_mem_nil

theorem Spots.concat (h : Spots key records found items spot)
    (hown : ∀ old, found item = some old → old ∈ records ∧ spot item = key old)
    (hnew : found item = none → spot item ∉ records.map key)
    (hapart : ∀ other ∈ items, found item = none → found other = none → spot other ≠ spot item) :
    Spots key records found (items ++ [item]) spot where
  own other hother := by
    rcases List.mem_append.mp hother with hbefore | hlast
    · exact h.own other hbefore
    · rw [List.mem_singleton.mp hlast]
      exact hown
  new other hother := by
    rcases List.mem_append.mp hother with hbefore | hlast
    · exact h.new other hbefore
    · rw [List.mem_singleton.mp hlast]
      exact hnew
  apart first hfirst second hsecond hnone hnone' heq := by
    rcases List.mem_append.mp hfirst with hbefore | hlast <;>
      rcases List.mem_append.mp hsecond with hbefore' | hlast'
    · exact h.apart first hbefore second hbefore' hnone hnone' heq
    · rw [List.mem_singleton.mp hlast'] at hnone' heq
      exact absurd heq (hapart first hbefore hnone' hnone)
    · rw [List.mem_singleton.mp hlast] at hnone heq
      exact absurd heq.symm (hapart second hbefore' hnone hnone')
    · rw [List.mem_singleton.mp hlast, List.mem_singleton.mp hlast']

theorem update_of_mem [DecidableEq α] (hitem : item ∉ items) (k : κ) :
    ∀ other ∈ items, spot other = Function.update spot item k other := by
  intro other hother
  have hne : other ≠ item := fun heq => hitem (heq ▸ hother)
  exact (Function.update_of_ne hne k spot).symm

theorem Spots.update [DecidableEq α] (h : Spots key records found items spot) (hitem : item ∉ items) {k : κ}
    (hown : ∀ old, found item = some old → old ∈ records ∧ k = key old)
    (hnew : found item = none → k ∉ records.map key)
    (hapart : ∀ other ∈ items, found item = none → found other = none → spot other ≠ k) :
    Spots key records found (items ++ [item]) (Function.update spot item k) := by
  have hsame : ∀ other ∈ items, spot other = Function.update spot item k other := update_of_mem hitem k
  have hhere : Function.update spot item k item = k := Function.update_self item k spot
  apply (h.congr hsame).concat
  · rw [hhere]
    exact hown
  · rw [hhere]
    exact hnew
  · intro other hother hnone hnone'
    rw [hhere, ← hsame other hother]
    exact hapart other hother hnone hnone'

end

theorem settle_congr {record' : α → β} (hspot : ∀ item ∈ items, spot item = spot' item)
    (hrecord : ∀ item ∈ items, record item = record' item) :
    settle key found spot record items records = settle key found spot' record' items records := by
  have hlast : ∀ k, Dict.last? spot items k = Dict.last? spot' items k := by
    intro k
    apply Dict.last?_congr
    intro item hitem
    rw [hspot item hitem]
  unfold settle overwrite
  congr 1
  · apply List.map_congr_left
    intro old _
    rw [← hlast]
    cases hthere : Dict.last? spot items (key old) with
    | none => rfl
    | some item => exact hrecord item (Dict.last?_eq_some hthere).2
  · apply List.map_congr_left
    intro item hitem
    exact hrecord item (List.mem_of_mem_filter hitem)

theorem mem_settle (h : Spots key records found items spot) {made : β} :
    made ∈ settle key found spot record items records ↔
      (∃ item ∈ items, Dict.Latest spot items item ∧ made = record item) ∨
        made ∈ records ∧ key made ∉ items.map spot := by
  unfold settle overwrite
  rw [List.mem_append, List.mem_map, List.mem_map]
  constructor
  · rintro (⟨old, hold, rfl⟩ | ⟨item, hitem, rfl⟩)
    · cases hlast : Dict.last? spot items (key old) with
      | none =>
          right
          refine ⟨hold, fun hmem => ?_⟩
          obtain ⟨item, hitem, heq⟩ := List.mem_map.mp hmem
          exact Dict.last?_eq_none_iff.mp hlast item hitem heq
      | some item =>
          left
          obtain ⟨hspot, hitem⟩ := Dict.last?_eq_some hlast
          exact ⟨item, hitem, by rw [Dict.Latest, hspot, hlast], rfl⟩
    · left
      obtain ⟨hitem, hnone⟩ := List.mem_filter.mp hitem
      exact ⟨item, hitem, h.latest_of_none hitem (Option.isNone_iff_eq_none.mp hnone), rfl⟩
  · rintro (⟨item, hitem, hlatest, rfl⟩ | ⟨hmade, hnot⟩)
    · rcases h.mem_or_new hitem with hthere | hnone
      · left
        obtain ⟨old, hold, heq⟩ := List.mem_map.mp hthere
        refine ⟨old, hold, ?_⟩
        rw [heq, hlatest]
        rfl
      · right
        exact ⟨item, List.mem_filter.mpr ⟨hitem, Option.isNone_iff_eq_none.mpr hnone⟩, rfl⟩
    · left
      refine ⟨made, hmade, ?_⟩
      have hlast : Dict.last? spot items (key made) = none := by
        apply Dict.last?_eq_none_iff.mpr
        intro item hitem heq
        exact hnot (List.mem_map.mpr ⟨item, hitem, heq⟩)
      rw [hlast]
      rfl

variable (hkey : ∀ item, key (record item) = spot item)
include hkey

end Records
