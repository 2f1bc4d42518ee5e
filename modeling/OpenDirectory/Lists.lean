import Mathlib

/-! Sorting a list by a key without disturbing ties, taking a list apart by conditions that exclude
one another, and loops that may stop early. -/

namespace Except

variable {ε α β : Type}

theorem bind_eq_ok {x : Except ε α} {f : α → Except ε β} {b : β} :
    x >>= f = .ok b ↔ ∃ a, x = .ok a ∧ f a = .ok b := by
  cases x <;> simp [bind, Except.bind]

theorem map_eq_ok {x : Except ε α} {f : α → β} {b : β} :
    f <$> x = .ok b ↔ ∃ a, x = .ok a ∧ f a = b := by
  cases x <;> simp [Functor.map, Except.map]

end Except

namespace List

variable {α : Type} {κ : Type} [LinearOrder κ]

/-- `sorted(items, key=key)`: ascending in the key, ties in the order they came. -/
def sortedBy (key : α → κ) (items : List α) : List α :=
  items.insertionSort fun a b => key a ≤ key b

theorem perm_sortedBy (key : α → κ) (items : List α) : (items.sortedBy key).Perm items :=
  perm_insertionSort _ items

variable {key : α → κ} {items : List α} {γ : Type}

theorem pairwise_orderedInsert_sortedBy {tie : α → α → Prop} {item : α}
     (htie : ∀ other ∈ items, tie item other)
    (h : items.Pairwise fun a b => key a ≤ key b ∧ (key b ≤ key a → tie a b)) :
    (items.orderedInsert (fun a b => key a ≤ key b) item).Pairwise
      fun a b => key a ≤ key b ∧ (key b ≤ key a → tie a b) := by
  induction items with
  | nil => simp
  | cons other items ih =>
      obtain ⟨hother, hitems⟩ := pairwise_cons.mp h
      by_cases hle : key item ≤ key other
      · rw [orderedInsert_cons, if_pos hle, pairwise_cons]
        refine ⟨fun later hlater => ?_, h⟩
        rcases mem_cons.mp hlater with rfl | hmem
        · exact ⟨hle, fun _ => htie later mem_cons_self⟩
        · exact ⟨hle.trans (hother later hmem).1, fun _ => htie later (.tail _ hmem)⟩
      · rw [orderedInsert_cons, if_neg hle, pairwise_cons]
        refine ⟨fun later hlater => ?_, ih (fun o ho => htie o (.tail _ ho)) hitems⟩
        rcases (mem_orderedInsert _).mp hlater with rfl | hmem
        · exact ⟨(not_le.mp hle).le, fun hge => absurd hge hle⟩
        · exact hother later hmem

/-- Sorting by a key keeps whatever held between the items in their original order, wherever the
keys tie. -/
theorem pairwise_sortedBy {tie : α → α → Prop}
    (h : items.Pairwise tie) :
    (items.sortedBy key).Pairwise fun a b => key a ≤ key b ∧ (key b ≤ key a → tie a b) := by
  induction items with
  | nil => simp [sortedBy]
  | cons item items ih =>
      obtain ⟨hitem, hitems⟩ := pairwise_cons.mp h
      refine pairwise_orderedInsert_sortedBy (fun other hother => ?_) (ih hitems)
      exact hitem other ((perm_sortedBy key items).mem_iff.mp hother)

theorem pairwise_key_sortedBy (key : α → κ) (items : List α) :
    (items.sortedBy key).Pairwise fun a b => key a ≤ key b := by
  have htie : items.Pairwise fun _ _ => True := pairwise_of_forall fun _ _ => trivial
  exact (pairwise_sortedBy htie).imp fun h => h.1

theorem sortedBy_eq_of_perm {items' : List α} (h : items.Perm items')
    (hnodup : (items.map key).Nodup) : items.sortedBy key = items'.sortedBy key := by
  have hperm := ((perm_sortedBy key items).trans h).trans (perm_sortedBy key items').symm
  refine Perm.eq_of_pairwise ?_ (pairwise_key_sortedBy key items) (pairwise_key_sortedBy key items')
    hperm
  intro a b ha hb hab hba
  have ha' := (perm_sortedBy key items).mem_iff.mp ha
  have hb' := (h.trans (perm_sortedBy key items').symm).mem_iff.mpr hb
  exact inj_on_of_nodup_map hnodup ha' hb' (le_antisymm hab hba)

section
omit [LinearOrder κ]

theorem filter_append_filter_perm {p q : α → Bool} {items : List α}
    (h : ∀ a ∈ items, p a = true → q a = false) :
    (items.filter p ++ items.filter q).Perm (items.filter fun a => p a || q a) := by
  have hp : (items.filter fun a => p a || q a).filter p = items.filter p := by
    rw [filter_filter]
    exact filter_congr fun a _ => by cases p a <;> simp
  have hq : (items.filter fun a => p a || q a).filter (fun a => !p a) = items.filter q := by
    rw [filter_filter]
    refine filter_congr fun a ha => ?_
    cases hpa : p a with
    | false => simp
    | true => simp [h a ha hpa]
  have := filter_append_perm p (items.filter fun a => p a || q a)
  rwa [hp, hq] at this

theorem getLast?_of_pairwise {rel : α → α → Prop} {last : α}
    (h : items.Pairwise rel) (hlast : items.getLast? = some last) :
    ∀ item ∈ items, item = last ∨ rel item last := by
  obtain ⟨before, rfl⟩ := getLast?_eq_some_iff.mp hlast
  intro item hitem
  rcases mem_append.mp hitem with hbefore | hend
  · exact .inr ((pairwise_append.mp h).2.2 item hbefore last (mem_singleton_self last))
  · exact .inl (mem_singleton.mp hend)

theorem foldlM_concat_ok {β ε : Type} {step : β → α → Except ε β} {item : α}
    {start last : β} : (items ++ [item]).foldlM step start = .ok last ↔
      ∃ before, items.foldlM step start = .ok before ∧ step before item = .ok last := by
  rw [foldlM_append]
  cases items.foldlM step start <;> simp [bind, Except.bind, pure, Except.pure]
  rename_i before
  cases step before item <;> simp

theorem foldlM_ok {β ε : Type} (keeps : β → Prop) {step : β → α → Except ε β} {items : List α}
    (h : ∀ state item, item ∈ items → keeps state →
      ∃ next, step state item = .ok next ∧ keeps next) {start : β} (hstart : keeps start) :
    ∃ last, items.foldlM step start = .ok last ∧ keeps last := by
  induction items generalizing start with
  | nil => exact ⟨start, rfl, hstart⟩
  | cons item items ih =>
      obtain ⟨next, hnext, hkeeps⟩ := h start item mem_cons_self hstart
      obtain ⟨last, hlast, hend⟩ := ih (fun state other hother => h state other (.tail _ hother)) hkeeps
      exact ⟨last, by rw [foldlM_cons, hnext]; exact hlast, hend⟩

theorem foldlM_keeps {β ε : Type} (keeps : β → Prop) {step : β → α → Except ε β}
    (h : ∀ state item next, item ∈ items → keeps state → step state item = .ok next → keeps next)
    {start last : β} (hstart : keeps start) (hlast : items.foldlM step start = .ok last) :
    keeps last := by
  induction items generalizing start with
  | nil =>
      cases hlast
      exact hstart
  | cons item items ih =>
      rw [foldlM_cons] at hlast
      obtain ⟨next, hstep, hlast⟩ := Except.bind_eq_ok.mp hlast
      exact ih (fun state other next hother => h state other next (.tail _ hother))
        (h start item next mem_cons_self hstart hstep) hlast

end

theorem mapM_ok {β ε : Type} {f : α → Except ε β}
    (h : ∀ item ∈ items, ∃ value, f item = .ok value) : ∃ values, items.mapM f = .ok values := by
  induction items with
  | nil => exact ⟨[], rfl⟩
  | cons item items ih =>
      obtain ⟨value, hvalue⟩ := h item mem_cons_self
      obtain ⟨values, hvalues⟩ := ih fun other hother => h other (.tail _ hother)
      exact ⟨value :: values, by simp [hvalue, hvalues, bind, Except.bind, pure, Except.pure]⟩

section
omit [LinearOrder κ]

theorem mapM_error {β ε : Type} {f : α → Except ε β} {item : α}
    (hmem : item ∈ items) {e : ε} (h : f item = .error e) : ∃ e, items.mapM f = .error e := by
  induction items with
  | nil => cases hmem
  | cons first items ih =>
      cases hfirst : f first with
      | error other => exact ⟨other, by simp [hfirst, bind, Except.bind]⟩
      | ok value =>
          rcases mem_cons.mp hmem with rfl | htail
          · rw [h] at hfirst
            cases hfirst
          · obtain ⟨other, hother⟩ := ih htail
            exact ⟨other, by simp [hfirst, hother, bind, Except.bind]⟩

theorem mapM_bind_ok {β ε : Type} {f : α → Except ε β} {g : List β → γ}
    (h : ∀ item ∈ items, ∃ value, f item = .ok value) :
    ∃ result, (items.mapM f >>= fun values => pure (g values)) = .ok result := by
  obtain ⟨values, hvalues⟩ := mapM_ok h
  exact ⟨g values, by rw [hvalues]; rfl⟩

theorem mapM_bind_error {β ε : Type} {f : α → Except ε β} {g : List β → Except ε γ}
     {item : α} (hmem : item ∈ items) {e : ε} (h : f item = .error e) :
    ∃ e, (items.mapM f >>= g) = .error e := by
  obtain ⟨other, hother⟩ := mapM_error hmem h
  exact ⟨other, by rw [hother]; rfl⟩

theorem foldlM_flatMap {m : Type → Type} [Monad m] [LawfulMonad m] {β σ : Type} (f : α → List β)
    (step : σ → β → m σ) (items : List α) (start : σ) :
    (items.flatMap f).foldlM step start =
      items.foldlM (fun state item => (f item).foldlM step state) start := by
  induction items generalizing start with
  | nil => rfl
  | cons item items ih => simp only [flatMap_cons, foldlM_append, foldlM_cons, ih]

theorem mapM_eq_ok_iff {β ε : Type} {f : α → Except ε β} {values : List β} :
    items.mapM f = .ok values ↔ Forall₂ (fun item value => f item = .ok value) items values := by
  induction items generalizing values with
  | nil =>
      rw [mapM_nil, forall₂_nil_left_iff]
      exact ⟨fun h => (Except.ok.inj h).symm, fun h => h ▸ rfl⟩
  | cons item items ih =>
      rw [mapM_cons, Except.bind_eq_ok, forall₂_cons_left_iff]
      constructor
      · rintro ⟨value, hvalue, h⟩
        obtain ⟨rest, hrest, h⟩ := Except.bind_eq_ok.mp h
        exact ⟨value, rest, hvalue, ih.mp hrest, (Except.ok.inj h).symm⟩
      · rintro ⟨value, rest, hvalue, hrest, rfl⟩
        exact ⟨value, hvalue, Except.bind_eq_ok.mpr ⟨rest, ih.mpr hrest, rfl⟩⟩

theorem mapM_eq_ok_map {β ε : Type} {f : α → Except ε β} {g : α → β}
    (h : ∀ item ∈ items, f item = .ok (g item)) : items.mapM f = .ok (items.map g) :=
  mapM_eq_ok_iff.mpr (forall₂_map_right_iff.mpr (forall₂_same.mpr h))

theorem mapM_eq_some_iff {β : Type} {f : α → Option β} {values : List β} :
    items.mapM f = some values ↔ Forall₂ (fun item value => f item = some value) items values := by
  induction items generalizing values with
  | nil =>
      rw [mapM_nil, forall₂_nil_left_iff]
      exact Option.some_inj.trans eq_comm
  | cons item items ih =>
      rw [mapM_cons, Option.bind_eq_bind, Option.bind_eq_some_iff, forall₂_cons_left_iff]
      constructor
      · rintro ⟨value, hvalue, h⟩
        obtain ⟨rest, hrest, heq⟩ := Option.bind_eq_some_iff.mp h
        exact ⟨value, rest, hvalue, ih.mp hrest, (Option.some.inj heq).symm⟩
      · rintro ⟨value, rest, hvalue, hrest, rfl⟩
        exact ⟨value, hvalue, Option.bind_eq_some_iff.mpr ⟨rest, ih.mpr hrest, rfl⟩⟩

theorem exists_of_forall₂ {β : Type} {R : α → β → Prop} {others : List β} (h : Forall₂ R items others) :
    ∀ item ∈ items, ∃ other ∈ others, R item other := by
  induction h with
  | nil => nofun
  | cons hfirst _ ih =>
      refine forall_mem_cons.mpr ⟨⟨_, mem_cons_self, hfirst⟩, fun item hitem => ?_⟩
      obtain ⟨other, hother, hitem⟩ := ih item hitem
      exact ⟨other, mem_cons_of_mem _ hother, hitem⟩

theorem forall₂_congr_of {β : Type} {R S T : α → β → Prop} {others : List β}
    (h : Forall₂ R items others) (hiff : ∀ a b, R a b → (S a b ↔ T a b)) :
    Forall₂ S items others ↔ Forall₂ T items others := by
  induction h with
  | nil => simp
  | cons hhead _ ih => rw [forall₂_cons, forall₂_cons, hiff _ _ hhead, ih]

theorem forall_mem_iff_of_forall₂ {β : Type} {R : α → β → Prop} {P : α → Prop} {Q : β → Prop}
    {others : List β} (h : Forall₂ R items others) (hiff : ∀ a ∈ items, ∀ b, R a b → (Q b ↔ P a)) :
    (∀ b ∈ others, Q b) ↔ ∀ a ∈ items, P a := by
  induction h with
  | nil => simp
  | cons hhead _ ih =>
      rw [forall_mem_cons, forall_mem_cons, hiff _ mem_cons_self _ hhead,
        ih fun a ha => hiff a (mem_cons_of_mem _ ha)]

theorem map_eq_map_iff_forall₂ {β : Type} {f : α → γ} {g : β → γ}
    {others : List β} :
    items.map f = others.map g ↔ Forall₂ (fun a b => f a = g b) items others := by
  rw [← forall₂_eq_eq_eq, forall₂_map_left_iff, forall₂_map_right_iff]

end

theorem orderedInsert_of_forall {item : α}
    (h : ∀ other ∈ items, key item ≤ key other) :
    items.orderedInsert (fun a b => key a ≤ key b) item = item :: items := by
  cases items with
  | nil => rfl
  | cons other items => rw [orderedInsert_cons, if_pos (h other mem_cons_self)]

theorem filter_orderedInsert {p : α → Bool} {item : α}
    (h : items.Pairwise fun a b => key a ≤ key b) :
    (items.orderedInsert (fun a b => key a ≤ key b) item).filter p =
      if p item then (items.filter p).orderedInsert (fun a b => key a ≤ key b) item else items.filter p := by
  induction items with
  | nil => by_cases hitem : p item = true <;> simp [hitem]
  | cons other items ih =>
      obtain ⟨hother, hitems⟩ := pairwise_cons.mp h
      rw [orderedInsert_cons]
      by_cases hle : key item ≤ key other
      · have hall : ∀ later ∈ (other :: items).filter p, key item ≤ key later := by
          intro later hlater
          rcases mem_cons.mp (mem_of_mem_filter hlater) with rfl | hmem
          · exact hle
          · exact hle.trans (hother later hmem)
        rw [if_pos hle, orderedInsert_of_forall hall, filter_cons]
      · rw [if_neg hle, filter_cons, ih hitems, filter_cons]
        by_cases hfirst : p other = true
        · rw [if_pos hfirst, if_pos hfirst, orderedInsert_cons, if_neg hle]
          split_ifs <;> rfl
        · rw [if_neg hfirst, if_neg hfirst]

theorem filter_sortedBy (key : α → κ) (p : α → Bool) (items : List α) :
    (items.sortedBy key).filter p = (items.filter p).sortedBy key := by
  induction items with
  | nil => rfl
  | cons item items ih =>
      have hcons : (item :: items).sortedBy key =
          (items.sortedBy key).orderedInsert (fun a b => key a ≤ key b) item := rfl
      rw [hcons, filter_orderedInsert (pairwise_key_sortedBy key items), ih, filter_cons]
      split_ifs <;> rfl

theorem sortedBy_congr {κ' : Type} [LinearOrder κ'] {key' : α → κ'}
    (h : ∀ a ∈ items, ∀ b ∈ items, key a ≤ key b ↔ key' a ≤ key' b) : items.sortedBy key = items.sortedBy key' := by
  unfold sortedBy
  have hmap := map_insertionSort (fun a b => key a ≤ key b) (fun a b => key' a ≤ key' b) id items h
  simpa using hmap

theorem mem_splitOnP_of_mem {p : α → Bool} {text : List α} {c : α} (h : c ∈ text) (hc : p c = false) :
    ∃ part ∈ text.splitOnP p, c ∈ part := by
  induction text with
  | nil => cases h
  | cons d text ih =>
      rw [List.splitOnP_cons_eq_if_modifyHead]
      split_ifs with hd
      · rcases List.mem_cons.mp h with rfl | hmem
        · rw [hc] at hd
          cases hd
        · obtain ⟨part, hpart, hin⟩ := ih hmem
          exact ⟨part, List.mem_cons_of_mem _ hpart, hin⟩
      · obtain ⟨first, rest, hsplit⟩ := List.exists_cons_of_ne_nil (List.splitOnP_ne_nil p text)
        rw [hsplit, List.modifyHead_cons]
        rw [hsplit] at ih
        rcases List.mem_cons.mp h with rfl | hmem
        · exact ⟨_, List.mem_cons_self, List.mem_cons_self⟩
        · obtain ⟨part, hpart, hin⟩ := ih hmem
          rcases List.mem_cons.mp hpart with rfl | hrest
          · exact ⟨_, List.mem_cons_self, List.mem_cons_of_mem _ hin⟩
          · exact ⟨part, List.mem_cons_of_mem _ hrest, hin⟩

end List
