import Mathlib

/-! Insertion-ordered dictionaries as association lists. Writing a key that is present replaces its
value in place, writing a new one appends it, so the keys stay distinct and keep the order in which
they first arrived. The second half treats a dictionary filled from a list of items under a key:
what survives is the last item of each key, and filling under a coarse key loses nothing exactly
when the coarse key tells apart what a finer one does. -/

namespace Dict

variable {κ α β ε : Type} [DecidableEq κ]

def get : List (κ × α) → κ → Option α
  | [], _ => none
  | (key, value) :: rest, k => if key = k then some value else get rest k

def set : List (κ × α) → κ → α → List (κ × α)
  | [], k, v => [(k, v)]
  | (key, value) :: rest, k, v =>
      if key = k then (key, v) :: rest else (key, value) :: set rest k v

def keys (d : List (κ × α)) : List κ := d.map Prod.fst

def values (d : List (κ × α)) : List α := d.map Prod.snd

/-- The dictionary without a key. -/
def erase (d : List (κ × α)) (k : κ) : List (κ × α) := d.filter fun entry => entry.1 ≠ k

/-- The entries of `e` written over those of `d`. -/
def update (d e : List (κ × α)) : List (κ × α) :=
  e.foldl (fun d entry => set d entry.1 entry.2) d

/-- The value under a key, written there first when the key is absent. -/
def setDefault (d : List (κ × α)) (k : κ) (v : α) : List (κ × α) :=
  if (get d k).isSome then d else set d k v

@[simp] theorem get_nil (k : κ) : get ([] : List (κ × α)) k = none := rfl

theorem get_cons (key k : κ) (value : α) (d : List (κ × α)) :
    get ((key, value) :: d) k = if key = k then some value else get d k := rfl

theorem get_set (d : List (κ × α)) (k k' : κ) (v : α) :
    get (set d k v) k' = if k = k' then some v else get d k' := by
  induction d with
  | nil => rfl
  | cons entry d ih =>
      obtain ⟨key, value⟩ := entry
      by_cases hkey : key = k
      · subst hkey
        by_cases hk : key = k' <;> simp [set, get_cons, hk]
      · rw [set, if_neg hkey, get_cons, get_cons, ih]
        by_cases hk : key = k'
        · subst hk
          simp [Ne.symm hkey]
        · simp [hk]

@[simp] theorem get_set_self (d : List (κ × α)) (k : κ) (v : α) : get (set d k v) k = some v := by
  simp [get_set]

theorem get_set_of_ne (d : List (κ × α)) {k k' : κ} (v : α) (h : k ≠ k') :
    get (set d k v) k' = get d k' := by
  simp [get_set, h]

theorem get_eq_none_iff {d : List (κ × α)} {k : κ} : get d k = none ↔ k ∉ keys d := by
  induction d with
  | nil => simp [keys]
  | cons entry d ih =>
      obtain ⟨key, value⟩ := entry
      by_cases hkey : key = k
      · simp [get_cons, keys, hkey]
      · simpa [get_cons, keys, hkey, Ne.symm hkey] using ih

theorem get_isSome_iff {d : List (κ × α)} {k : κ} : (get d k).isSome ↔ k ∈ keys d := by
  rw [Option.isSome_iff_ne_none, ne_eq, get_eq_none_iff, not_not]

theorem mem_of_get {d : List (κ × α)} {k : κ} {v : α} (h : get d k = some v) : (k, v) ∈ d := by
  induction d with
  | nil => cases h
  | cons entry d ih =>
      obtain ⟨key, value⟩ := entry
      by_cases hkey : key = k
      · subst hkey
        simp only [get_cons, if_true, Option.some.injEq] at h
        exact h ▸ List.mem_cons_self
      · simp only [get_cons, hkey, if_false] at h
        exact List.mem_cons_of_mem _ (ih h)

theorem get_of_mem {d : List (κ × α)} (hd : (keys d).Nodup) {k : κ} {v : α} (h : (k, v) ∈ d) :
    get d k = some v := by
  induction d with
  | nil => cases h
  | cons entry d ih =>
      obtain ⟨key, value⟩ := entry
      simp only [keys, List.map_cons, List.nodup_cons] at hd
      rcases List.mem_cons.mp h with heq | hmem
      · cases heq
        simp [get_cons]
      · have hne : key ≠ k := by
          rintro rfl
          exact hd.1 (List.mem_map.mpr ⟨_, hmem, rfl⟩)
        rw [get_cons, if_neg hne]
        exact ih hd.2 hmem

theorem keys_set (d : List (κ × α)) (k : κ) (v : α) :
    keys (set d k v) = if k ∈ keys d then keys d else keys d ++ [k] := by
  induction d with
  | nil => rfl
  | cons entry d ih =>
      obtain ⟨key, value⟩ := entry
      by_cases hkey : key = k
      · simp [set, keys, hkey]
      · have hcons : keys (set ((key, value) :: d) k v) = key :: keys (set d k v) := by
          simp [set, keys, hkey]
        rw [hcons, ih]
        by_cases hk : k ∈ keys d <;> simp_all [keys, Ne.symm hkey]

theorem mem_keys_set {d : List (κ × α)} {k k' : κ} {v : α} :
    k' ∈ keys (set d k v) ↔ k' = k ∨ k' ∈ keys d := by
  rw [keys_set]
  split
  · constructor
    · exact Or.inr
    · rintro (rfl | h)
      · assumption
      · exact h
  · simp [or_comm]

theorem nodup_keys_set {d : List (κ × α)} (h : (keys d).Nodup) (k : κ) (v : α) :
    (keys (set d k v)).Nodup := by
  rw [keys_set]
  split
  · exact h
  · rename_i hk
    exact List.nodup_append.mpr ⟨h, List.nodup_singleton k, fun a ha b hb => by
      rw [List.mem_singleton.mp hb]
      rintro rfl
      exact hk ha⟩

theorem nodup_keys_setDefault {d : List (κ × α)} (h : (keys d).Nodup) (k : κ) (v : α) :
    (keys (setDefault d k v)).Nodup := by
  unfold setDefault
  split
  · exact h
  · exact nodup_keys_set h k v

theorem get_setDefault (d : List (κ × α)) (k k' : κ) (v : α) :
    get (setDefault d k v) k' = if k = k' then some ((get d k).getD v) else get d k' := by
  unfold setDefault
  by_cases hk : k = k'
  · subst hk
    cases hget : get d k <;> simp [hget]
  · cases hget : get d k <;> simp [get_set, hk]

theorem get_erase (d : List (κ × α)) (k k' : κ) :
    get (erase d k) k' = if k = k' then none else get d k' := by
  induction d with
  | nil => simp [erase]
  | cons entry d ih =>
      obtain ⟨key, value⟩ := entry
      by_cases hkey : key = k
      · subst hkey
        rw [show erase ((key, value) :: d) key = erase d key by simp [erase], ih, get_cons]
        by_cases hk : key = k' <;> simp [hk]
      · rw [show erase ((key, value) :: d) k = (key, value) :: erase d k by simp [erase, hkey],
          get_cons, get_cons, ih]
        by_cases hk : key = k'
        · subst hk
          simp [Ne.symm hkey]
        · simp [hk]

theorem get_append (d e : List (κ × α)) (k : κ) : get (d ++ e) k = (get d k).or (get e k) := by
  induction d with
  | nil => simp
  | cons entry d ih =>
      obtain ⟨key, value⟩ := entry
      by_cases hkey : key = k
      · simp [get_cons, hkey]
      · simpa [get_cons, hkey] using ih

theorem filter_fst_eq_get {d : List (κ × α)} (hd : (keys d).Nodup) (k : κ) :
    d.filter (fun entry => entry.1 = k) = (get d k).toList.map (k, ·) := by
  induction d with
  | nil => rfl
  | cons entry d ih =>
      obtain ⟨key, value⟩ := entry
      simp only [keys, List.map_cons, List.nodup_cons] at hd
      by_cases hkey : key = k
      · subst hkey
        have hnone : get d key = none := get_eq_none_iff.mpr hd.1
        rw [List.filter_cons, ih hd.2, hnone]
        simp [get_cons]
      · simp [get_cons, hkey, ih hd.2]

theorem get_perm {d d' : List (κ × α)} (h : d.Perm d') (hd : (keys d).Nodup) (k : κ) :
    get d k = get d' k := by
  have hd' : (keys d').Nodup := (h.map Prod.fst).nodup_iff.mp hd
  cases hget : get d k with
  | none =>
      rw [get_eq_none_iff] at hget
      rw [eq_comm, get_eq_none_iff]
      exact fun hmem => hget ((h.map Prod.fst).mem_iff.mpr hmem)
  | some v => exact (get_of_mem hd' (h.mem_iff.mp (mem_of_get hget))).symm

theorem perm_of_get {d d' : List (κ × α)} (hd : (keys d).Nodup) (hd' : (keys d').Nodup)
    (h : ∀ k, get d k = get d' k) : d.Perm d' := by
  apply (List.perm_ext_iff_of_nodup hd.of_map hd'.of_map).mpr
  intro entry
  constructor
  · intro hmem
    exact mem_of_get ((h entry.1).symm.trans (get_of_mem hd hmem))
  · intro hmem
    exact mem_of_get ((h entry.1).trans (get_of_mem hd' hmem))

/-- Only some keys were written or removed, and none stands twice that did not before. -/
structure Frame (touched : List κ) (d d' : List (κ × α)) : Prop where
  nodup : (keys d).Nodup → (keys d').Nodup
  same : ∀ k, k ∉ touched → get d' k = get d k

namespace Frame

variable {touched : List κ} {d d' d'' : List (κ × α)}

theorem refl (touched : List κ) (d : List (κ × α)) : Frame touched d d := ⟨id, fun _ _ => rfl⟩

theorem trans (h : Frame touched d d') (h' : Frame touched d' d'') : Frame touched d d'' where
  nodup := h'.nodup ∘ h.nodup
  same k hk := (h'.same k hk).trans (h.same k hk)

theorem set (d : List (κ × α)) {k : κ} (hk : k ∈ touched) (v : α) :
    Frame touched d (Dict.set d k v) where
  nodup h := nodup_keys_set h k v
  same _ hk' := get_set_of_ne d v fun heq => hk' (heq ▸ hk)

theorem erase (d : List (κ × α)) {k : κ} (hk : k ∈ touched) : Frame touched d (Dict.erase d k) where
  nodup h := (List.Sublist.map Prod.fst (List.filter_sublist (l := d))).nodup h
  same k' hk' := by
    rw [get_erase, if_neg]
    exact fun heq => hk' (heq ▸ hk)

theorem setDefault (d : List (κ × α)) {k : κ} (hk : k ∈ touched) (v : α) :
    Frame touched d (Dict.setDefault d k v) := by
  unfold Dict.setDefault
  split
  · exact refl touched d
  · exact set d hk v

end Frame

/-! ### Filling a dictionary from a list

`index key items` writes each item under its key, one after the other. -/

/-- The last item of a list with a given key. -/
def last? (key : β → κ) (items : List β) (k : κ) : Option β :=
  items.reverse.find? fun item => key item = k

/-- No later item has this item's key. -/
def Latest (key : β → κ) (items : List β) (item : β) : Prop :=
  last? key items (key item) = some item

def index (key : β → κ) (items : List β) : List (κ × β) :=
  items.foldl (fun d item => set d (key item) item) []

theorem last?_append (key : β → κ) (items items' : List β) (k : κ) :
    last? key (items ++ items') k = (last? key items' k).or (last? key items k) := by
  simp [last?, List.find?_append]

variable {key : β → κ} {items : List β} {k : κ} {e : List (κ × α)}

theorem last?_eq_some {item : β}
    (h : last? key items k = some item) : key item = k ∧ item ∈ items := by
  refine ⟨?_, ?_⟩
  · simpa using List.find?_some h
  · simpa using List.mem_of_find?_eq_some h

theorem last?_eq_none_iff :
    last? key items k = none ↔ ∀ item ∈ items, key item ≠ k := by
  simp [last?]

theorem last?_congr {τ : Type} [DecidableEq τ] {key' : β → τ}
    {k' : τ} (h : ∀ item ∈ items, key item = k ↔ key' item = k') :
    last? key items k = last? key' items k' := by
  have hfind : ∀ l : List β, (∀ item ∈ l, key item = k ↔ key' item = k') →
      l.find? (fun item => key item = k) = l.find? (fun item => key' item = k') := by
    intro l hl
    induction l with
    | nil => rfl
    | cons item l ih =>
        rw [List.find?_cons, List.find?_cons, ih fun other hother => hl other (.tail _ hother)]
        simp [hl item List.mem_cons_self]
  exact hfind items.reverse fun item hitem => h item (List.mem_reverse.mp hitem)

theorem last?_isSome_of_mem (key : β → κ) {item : β} (h : item ∈ items) :
    ∃ latest, last? key items (key item) = some latest := by
  rw [← Option.isSome_iff_exists, Option.isSome_iff_ne_none, ne_eq, last?_eq_none_iff]
  exact fun hne => hne item h rfl

theorem Latest.mem {item : β} (h : Latest key items item) :
    item ∈ items := (last?_eq_some h).2

theorem Latest.eq {item item' : β} (h : Latest key items item)
    (h' : Latest key items item') (hkey : key item = key item') : item = item' := by
  rw [Latest, hkey, h'] at h
  exact (Option.some.inj h).symm

theorem get_foldl_set (key : β → κ) (items : List β) (d : List (κ × β)) (k : κ) :
    get (items.foldl (fun d item => set d (key item) item) d) k =
      (last? key items k).or (get d k) := by
  induction items generalizing d with
  | nil => simp [last?]
  | cons item items ih =>
      rw [List.foldl_cons, ih, show item :: items = [item] ++ items from rfl, last?_append]
      rw [get_set]
      by_cases hk : key item = k <;> simp [last?, hk]

theorem nodup_keys_foldl_set (key : β → κ) (f : β → α) (items : List β) {d : List (κ × α)}
    (hd : (keys d).Nodup) :
    (keys (items.foldl (fun d item => set d (key item) (f item)) d)).Nodup := by
  induction items generalizing d with
  | nil => exact hd
  | cons item items ih => exact ih (nodup_keys_set hd _ _)

theorem get_index (key : β → κ) (items : List β) (k : κ) :
    get (index key items) k = last? key items k := by
  simp [index, get_foldl_set]

theorem nodup_keys_index (key : β → κ) (items : List β) : (keys (index key items)).Nodup :=
  nodup_keys_foldl_set key id items List.nodup_nil

theorem get_update {d : List (κ × α)} (he : (keys e).Nodup) (k : κ) :
    get (update d e) k = (get e k).or (get d k) := by
  induction e generalizing d with
  | nil => simp [update]
  | cons entry e ih =>
      obtain ⟨key, value⟩ := entry
      simp only [keys, List.map_cons, List.nodup_cons] at he
      rw [show update d ((key, value) :: e) = update (set d key value) e from rfl, ih he.2, get_set,
        get_cons]
      by_cases hkey : key = k
      · subst hkey
        have hnone : get e key = none := get_eq_none_iff.mpr he.1
        simp [hnone]
      · simp [hkey]

theorem nodup_keys_update {d : List (κ × α)} (hd : (keys d).Nodup) : (keys (update d e)).Nodup :=
  nodup_keys_foldl_set Prod.fst Prod.snd e hd

theorem set_of_not_mem {d : List (κ × α)} (h : k ∉ keys d) (v : α) : set d k v = d ++ [(k, v)] := by
  induction d with
  | nil => rfl
  | cons entry d ih =>
      obtain ⟨key, value⟩ := entry
      simp only [keys, List.map_cons, List.mem_cons, not_or] at h
      rw [set, if_neg (Ne.symm h.1), ih h.2, List.cons_append]

theorem update_of_nodup {d : List (κ × α)} (h : (keys (d ++ e)).Nodup) : update d e = d ++ e := by
  induction e generalizing d with
  | nil => exact (List.append_nil d).symm
  | cons entry e ih =>
      obtain ⟨key, value⟩ := entry
      have hnew : key ∉ keys d := by
        simp only [keys, List.map_append, List.map_cons] at h
        intro hmem
        exact (List.nodup_append.mp h).2.2 key hmem key List.mem_cons_self rfl
      have hstep : update d ((key, value) :: e) = update (set d key value) e := rfl
      rw [hstep, set_of_not_mem hnew, ih, List.append_assoc, List.singleton_append]
      rwa [List.append_assoc, List.singleton_append]

theorem mem_values_index {item : β} :
    item ∈ values (index key items) ↔ Latest key items item := by
  rw [values, List.mem_map]
  constructor
  · rintro ⟨⟨k, value⟩, hmem, rfl⟩
    have hget := get_of_mem (nodup_keys_index key items) hmem
    rw [get_index] at hget
    obtain ⟨rfl, _⟩ := last?_eq_some hget
    exact hget
  · intro h
    refine ⟨(key item, item), mem_of_get ?_, rfl⟩
    rw [get_index]
    exact h

/-- Every entry is stored under its own key, and no key twice. -/
structure Keyed (key : β → κ) (d : List (κ × β)) : Prop where
  nodup : (keys d).Nodup
  own : ∀ entry ∈ d, key entry.2 = entry.1

theorem mem_set {d : List (κ × α)} {v : α} {entry : κ × α} (h : entry ∈ set d k v) :
    entry = (k, v) ∨ entry ∈ d := by
  induction d with
  | nil => exact .inl (List.mem_singleton.mp h)
  | cons first d ih =>
      obtain ⟨key, value⟩ := first
      unfold set at h
      split at h
      · rename_i hkey
        rcases List.mem_cons.mp h with heq | hmem
        · exact .inl (by rw [heq, hkey])
        · exact .inr (.tail _ hmem)
      · rcases List.mem_cons.mp h with heq | hmem
        · exact .inr (heq ▸ List.mem_cons_self)
        · exact (ih hmem).imp id (.tail _)

theorem Keyed.set {d : List (κ × β)} (h : Keyed key d) (item : β) :
    Keyed key (set d (key item) item) where
  nodup := nodup_keys_set h.nodup _ _
  own entry hentry := by
    rcases mem_set hentry with rfl | hmem
    · rfl
    · exact h.own entry hmem

theorem Keyed.foldl_set (items : List β) {d : List (κ × β)} (h : Keyed key d) :
    Keyed key (items.foldl (fun d item => Dict.set d (key item) item) d) := by
  induction items generalizing d with
  | nil => exact h
  | cons item items ih => exact ih (h.set item)

theorem Keyed.filter_values {d : List (κ × β)} (h : Keyed key d) {v : β}
    (hget : get d k = some v) : (values d).filter (fun other => key other = k) = [v] := by
  have hmap : (values d).filter (fun other => key other = k) =
      (d.filter fun entry => entry.1 = k).map Prod.snd := by
    rw [values, List.filter_map]
    refine congrArg (List.map Prod.snd) (List.filter_congr fun entry hentry => ?_)
    simp [h.own entry hentry]
  rw [hmap, filter_fst_eq_get h.nodup, hget]
  rfl

theorem keyed_index (key : β → κ) (items : List β) : Keyed key (index key items) :=
  Keyed.foldl_set items ⟨List.nodup_nil, fun _ h => absurd h List.not_mem_nil⟩

theorem filter_values_index (key : β → κ) (items : List β) {item : β}
    (h : Latest key items item) :
    (values (index key items)).filter (fun other => key other = key item) = [item] := by
  apply (keyed_index key items).filter_values
  rw [get_index]
  exact h

/-- A list holds, for every class of a finer key, the last item of the class and nothing else. -/
def KeepsLatest {τ : Type} [DecidableEq τ] (fine : β → τ) (items kept : List β) : Prop :=
  (∀ item ∈ items, ∃ latest, last? fine items (fine item) = some latest ∧
    kept.filter (fun other => fine other = fine item) = [latest]) ∧
  ∀ item ∈ kept, Latest fine items item

/-- Filling under a coarse key keeps the last item of every class of the finer key exactly when no
two items of different classes share the coarse key. -/
theorem keepsLatest_index_iff {τ : Type} [DecidableEq τ] {fine : β → τ}
    (hcoarse : ∀ item item', fine item = fine item' → key item = key item') (items : List β) :
    KeepsLatest fine items (values (index key items)) ↔
      ∀ item ∈ items, ∀ item' ∈ items, key item = key item' → fine item = fine item' := by
  constructor
  · rintro ⟨hkeeps, _⟩ item hitem item' hitem' hkey
    obtain ⟨latest, hlatest, hfilter⟩ := hkeeps item hitem
    obtain ⟨latest', hlatest', hfilter'⟩ := hkeeps item' hitem'
    have hmem : latest ∈ values (index key items) :=
      List.mem_of_mem_filter (hfilter ▸ List.mem_singleton_self latest)
    have hmem' : latest' ∈ values (index key items) :=
      List.mem_of_mem_filter (hfilter' ▸ List.mem_singleton_self latest')
    have hfine := (last?_eq_some hlatest).1
    have hfine' := (last?_eq_some hlatest').1
    -- both survivors carry the coarse key, and only one entry can
    have hsame : key latest = key latest' :=
      (hcoarse _ _ hfine).trans (hkey.trans (hcoarse _ _ hfine').symm)
    have := (mem_values_index.mp hmem).eq (mem_values_index.mp hmem') hsame
    rw [← hfine, ← hfine', this]
  · intro hsep
    have hlast : ∀ item ∈ items, last? fine items (fine item) = last? key items (key item) := by
      intro item hitem
      exact last?_congr fun other hother => ⟨hcoarse other item, hsep other hother item hitem⟩
    refine ⟨fun item hitem => ?_, fun item hitem => ?_⟩
    · obtain ⟨latest, hlatest⟩ := last?_isSome_of_mem key hitem
      refine ⟨latest, (hlast item hitem).trans hlatest, ?_⟩
      obtain ⟨hkey, hmem⟩ := last?_eq_some hlatest
      have hkept : Latest key items latest := by rw [Latest, hkey]; exact hlatest
      rw [← filter_values_index key items hkept]
      refine List.filter_congr fun other hother => ?_
      have hother' := (mem_values_index.mp hother).mem
      have : fine other = fine item ↔ key other = key latest := by
        rw [hkey]
        exact ⟨hcoarse other item, hsep other hother' item hitem⟩
      simp [this]
    · have hlatest := mem_values_index.mp hitem
      rw [Latest, hlast item hlatest.mem]
      exact hlatest

/-- A loop that rewrites one key at each step leaves, under each key, what that key's own steps make
of it. -/
theorem foldlM_set_get (step : κ → Option α → β → Except ε α) (entries : List (κ × β))
    {d d' : List (κ × α)}
    (h : entries.foldlM (fun d entry => do
      let value ← step entry.1 (get d entry.1) entry.2
      return set d entry.1 value) d = .ok d') (k : κ) :
    (entries.filter fun entry => entry.1 = k).foldlM
      (fun current entry => some <$> step k current entry.2) (get d k) = .ok (get d' k) := by
  induction entries generalizing d with
  | nil =>
      cases h
      rfl
  | cons entry entries ih =>
      obtain ⟨key, item⟩ := entry
      rw [List.foldlM_cons] at h
      cases hstep : step key (get d key) item with
      | error e => simp [hstep, bind, Except.bind] at h
      | ok value =>
          have hrest := ih (d := set d key value) (by simpa [hstep, bind, Except.bind, pure,
            Except.pure] using h)
          by_cases hkey : key = k
          · subst hkey
            rw [get_set_self] at hrest
            simpa [List.filter_cons, hstep, bind, Except.bind, Functor.map, Except.map] using hrest
          · rw [get_set_of_ne _ _ hkey] at hrest
            simpa [List.filter_cons, hkey] using hrest

theorem foldlM_set_ok (step : κ → Option α → β → Except ε α) (entries : List (κ × β))
    {d : List (κ × α)}
    (h : ∀ k, ∃ last, (entries.filter fun entry => entry.1 = k).foldlM
      (fun current entry => some <$> step k current entry.2) (get d k) = .ok last) :
    ∃ d', entries.foldlM (fun d entry => do
      let value ← step entry.1 (get d entry.1) entry.2
      return set d entry.1 value) d = .ok d' := by
  induction entries generalizing d with
  | nil => exact ⟨d, rfl⟩
  | cons entry entries ih =>
      obtain ⟨key, item⟩ := entry
      cases hstep : step key (get d key) item with
      | error e =>
          obtain ⟨last, hlast⟩ := h key
          simp [hstep, bind, Except.bind, Functor.map, Except.map] at hlast
      | ok value =>
          have hrest : ∀ k, ∃ last, (entries.filter fun entry => entry.1 = k).foldlM
              (fun current entry => some <$> step k current entry.2) (get (set d key value) k) =
                .ok last := by
            intro k
            obtain ⟨last, hlast⟩ := h k
            refine ⟨last, ?_⟩
            by_cases hkey : key = k
            · subst hkey
              rw [get_set_self]
              simpa [hstep, bind, Except.bind, Functor.map, Except.map] using hlast
            · rw [get_set_of_ne _ _ hkey]
              simpa [hkey] using hlast
          obtain ⟨d', hd'⟩ := ih hrest
          exact ⟨d', by simpa [hstep, bind, Except.bind, pure, Except.pure] using hd'⟩

end Dict
