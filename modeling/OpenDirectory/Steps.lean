import Mathlib

/-! Systems that take one step after another. A step answers an input with the next state and with
what it gave out. Which inputs come, and in which order, is left open, so that a law of every list of
inputs is a law of every interleaving of those who send them. The rules turn what one step preserves
into what a whole run preserves: an invariant, a relation between earlier and later states, that a
key is given out only once, and that no more is taken out of a store than was put into it. -/

namespace Steps

variable {σ ι ω κ : Type}

/-- The last state of a run, and everything its steps gave out. -/
def run (step : σ → ι → σ × List ω) : σ → List ι → σ × List ω
  | start, [] => (start, [])
  | start, input :: inputs =>
      let (next, out) := step start input
      let (last, more) := run step next inputs
      (last, out ++ more)

variable {step : σ → ι → σ × List ω}

@[simp] theorem run_nil (start : σ) : run step start [] = (start, []) := rfl

theorem run_cons (start : σ) (input : ι) (inputs : List ι) :
    run step start (input :: inputs) =
      ((run step (step start input).1 inputs).1,
        (step start input).2 ++ (run step (step start input).1 inputs).2) := rfl

theorem run_append (start : σ) (before after : List ι) :
    run step start (before ++ after) =
      ((run step (run step start before).1 after).1,
        (run step start before).2 ++ (run step (run step start before).1 after).2) := by
  induction before generalizing start with
  | nil => rfl
  | cons input before ih => rw [List.cons_append, run_cons, ih, run_cons, List.append_assoc]

theorem run_concat (start : σ) (before : List ι) (input : ι) :
    run step start (before ++ [input]) =
      ((step (run step start before).1 input).1,
        (run step start before).2 ++ (step (run step start before).1 input).2) := by
  rw [run_append, run_cons, run_nil, List.append_nil]

variable {keeps : σ → Prop}

theorem run_keeps (hstep : ∀ state input, keeps state → keeps (step state input).1) {start : σ}
    (hstart : keeps start) (inputs : List ι) : keeps (run step start inputs).1 := by
  induction inputs generalizing start with
  | nil => exact hstart
  | cons input inputs ih => exact ih (hstep start input hstart)

theorem run_relates {relates : σ → σ → Prop} (hrefl : ∀ state, relates state state)
    (htrans : ∀ {first second third}, relates first second → relates second third →
      relates first third)
    (hkeeps : ∀ state input, keeps state → keeps (step state input).1)
    (hstep : ∀ state input, keeps state → relates state (step state input).1) {start : σ}
    (hstart : keeps start) (inputs : List ι) : relates start (run step start inputs).1 := by
  induction inputs generalizing start with
  | nil => exact hrefl start
  | cons input inputs ih => exact htrans (hstep start input hstart) (ih (hkeeps start input hstart))

theorem mem_run {start : σ} {inputs : List ι} {given : ω} :
    given ∈ (run step start inputs).2 ↔ ∃ before input after, inputs = before ++ input :: after ∧
      given ∈ (step (run step start before).1 input).2 := by
  induction inputs generalizing start with
  | nil => simp
  | cons input inputs ih =>
      rw [run_cons, List.mem_append, ih]
      constructor
      · rintro (hhere | ⟨before, later, after, rfl, hgiven⟩)
        · exact ⟨[], input, inputs, rfl, hhere⟩
        · exact ⟨input :: before, later, after, rfl, hgiven⟩
      · rintro ⟨before, later, after, heq, hgiven⟩
        cases before with
        | nil =>
            obtain ⟨rfl, rfl⟩ := List.cons.inj heq
            exact .inl hgiven
        | cons first before =>
            obtain ⟨rfl, rfl⟩ := List.cons.inj heq
            exact .inr ⟨before, later, after, rfl, hgiven⟩

/-- Something holds of every step of a run, in the state the step is taken in. -/
def Each (next : σ → ι → σ) (holds : σ → ι → Prop) : σ → List ι → Prop
  | _, [] => True
  | state, input :: inputs => holds state input ∧ Each next holds (next state input) inputs

instance decidableEach {next : σ → ι → σ} {holds : σ → ι → Prop} [∀ state input, Decidable (holds state input)] :
    ∀ start inputs, Decidable (Each next holds start inputs)
  | _, [] => isTrue trivial
  | start, input :: inputs =>
      let _ := @decidableEach next holds _ (next start input) inputs
      inferInstanceAs (Decidable (_ ∧ _))

theorem each_reached {next : σ → ι → σ} {holds : σ → Prop} {start : σ} {inputs : List ι} :
    (∀ before, before <+: inputs → holds (before.foldl next start)) ↔
      holds start ∧ Each next (fun state input => holds (next state input)) start inputs := by
  induction inputs generalizing start with
  | nil =>
      constructor
      · exact fun h => ⟨h [] List.nil_prefix, trivial⟩
      · rintro ⟨hstart, _⟩ before hbefore
        rw [List.prefix_nil.mp hbefore]
        exact hstart
  | cons input inputs ih =>
      unfold Each
      rw [← ih]
      constructor
      · intro h
        refine ⟨h [] List.nil_prefix, fun before hbefore => ?_⟩
        exact h (input :: before) (List.cons_prefix_cons.mpr ⟨rfl, hbefore⟩)
      · rintro ⟨hstart, hlater⟩ before hbefore
        cases before with
        | nil => exact hstart
        | cons first before =>
            obtain ⟨rfl, hrest⟩ := List.cons_prefix_cons.mp hbefore
            exact hlater before hrest

theorem each_keeps {next : σ → ι → σ} {good : σ → ι → Prop}
    (hkeeps : ∀ state input, keeps state → good state input → keeps (next state input)) {start : σ}
    (hstart : keeps start) {inputs : List ι} (h : Each next good start inputs) :
    ∀ before, before <+: inputs → keeps (before.foldl next start) := by
  rw [each_reached]
  refine ⟨hstart, ?_⟩
  induction inputs generalizing start with
  | nil => trivial
  | cons input inputs ih =>
      obtain ⟨hgood, hrest⟩ := h
      exact ⟨hkeeps start input hstart hgood, ih (hkeeps start input hstart hgood) hrest⟩

theorem each_iff {next : σ → ι → σ} {good timely : σ → ι → Prop}
    (hkeeps : ∀ state input, keeps state → good state input → keeps (next state input))
    (hiff : ∀ state input, keeps state → (good state input ↔ timely state input)) {start : σ}
    (hstart : keeps start) (inputs : List ι) :
    Each next good start inputs ↔ Each next timely start inputs := by
  induction inputs generalizing start with
  | nil => exact Iff.rfl
  | cons input inputs ih =>
      unfold Each
      rw [hiff start input hstart, and_congr_right_iff]
      intro htimely
      exact ih (hkeeps start input hstart ((hiff start input hstart).mpr htimely))

/-- Each step gives out only keys that are not spent, each once, and spends them for good. -/
structure SpendsOnce (step : σ → ι → σ × List ω) (keeps : σ → Prop) (key : ω → Option κ)
    (spent : σ → κ → Prop) : Prop where
  once : ∀ state input, keeps state → ((step state input).2.filterMap key).Nodup
  fresh : ∀ state input, keeps state → ∀ k ∈ (step state input).2.filterMap key, ¬ spent state k
  spends : ∀ state input, keeps state →
    ∀ k ∈ (step state input).2.filterMap key, spent (step state input).1 k
  stays : ∀ state input, keeps state → ∀ k, spent state k → spent (step state input).1 k

theorem SpendsOnce.run {key : ω → Option κ} {spent : σ → κ → Prop}
    (h : SpendsOnce step keeps key spent)
    (hkeeps : ∀ state input, keeps state → keeps (step state input).1) {start : σ}
    (hstart : keeps start) (inputs : List ι) :
    ((run step start inputs).2.filterMap key).Nodup ∧
      ∀ k ∈ (Steps.run step start inputs).2.filterMap key, ¬ spent start k := by
  induction inputs generalizing start with
  | nil => simp
  | cons input inputs ih =>
      obtain ⟨hnodup, hfresh⟩ := ih (hkeeps start input hstart)
      rw [run_cons, List.filterMap_append]
      constructor
      · rw [List.nodup_append]
        refine ⟨h.once start input hstart, hnodup, fun k hk k' hk' heq => ?_⟩
        subst heq
        exact hfresh k hk' (h.spends start input hstart k hk)
      · intro k hk hspent
        rcases List.mem_append.mp hk with hhere | hlater
        · exact h.fresh start input hstart k hhere hspent
        · exact hfresh k hlater (h.stays start input hstart k hspent)

/-- What is given out under a key that counts: how often each key. -/
def tally (key : ω → Option κ) (out : List ω) : Multiset κ := out.filterMap key

@[simp] theorem tally_nil (key : ω → Option κ) : tally key ([] : List ω) = 0 := rfl

theorem tally_append (key : ω → Option κ) (out more : List ω) :
    tally key (out ++ more) = tally key out + tally key more := by
  rw [tally, List.filterMap_append, ← Multiset.coe_add]
  rfl

theorem run_tally {stock : σ → Multiset κ} {made taken : ω → Option κ}
    (hkeeps : ∀ state input, keeps state → keeps (step state input).1)
    (hstep : ∀ state input, keeps state →
      tally taken (step state input).2 + stock (step state input).1 ≤
        stock state + tally made (step state input).2) {start : σ} (hstart : keeps start)
    (inputs : List ι) :
    tally taken (run step start inputs).2 + stock (run step start inputs).1 ≤
      stock start + tally made (run step start inputs).2 := by
  induction inputs generalizing start with
  | nil => simp
  | cons input inputs ih =>
      rw [run_cons, tally_append, tally_append]
      calc
        _ = tally taken (step start input).2 +
            (tally taken (run step (step start input).1 inputs).2 +
              stock (run step (step start input).1 inputs).1) := add_assoc _ _ _
        _ ≤ tally taken (step start input).2 + (stock (step start input).1 +
              tally made (run step (step start input).1 inputs).2) :=
          add_le_add_right (ih (hkeeps start input hstart)) _
        _ = (tally taken (step start input).2 + stock (step start input).1) +
              tally made (run step (step start input).1 inputs).2 := (add_assoc _ _ _).symm
        _ ≤ (stock start + tally made (step start input).2) +
              tally made (run step (step start input).1 inputs).2 :=
          add_le_add_left (hstep start input hstart) _
        _ = _ := add_assoc _ _ _

theorem find_add_filter_le {α : Type} {picks : α → Bool} {rows : List α} {row : α}
    (h : rows.find? picks = some row) :
    ({row} : Multiset α) + (rows.filter fun other => !picks other : List α) ≤ rows := by
  obtain ⟨hpicks, before, after, rfl, -⟩ := List.find?_eq_some_iff_append.mp h
  rw [List.filter_append, List.filter_cons_of_neg (by simp [hpicks]), ← List.filter_append, Multiset.singleton_add,
    Multiset.cons_coe, Multiset.coe_le]
  exact ((List.subperm_cons row).mpr List.filter_sublist.subperm).trans List.perm_middle.symm.subperm

theorem filter_le {α : Type} (picks : α → Bool) (rows : List α) :
    ((rows.filter picks : List α) : Multiset α) ≤ rows :=
  Multiset.coe_le.mpr List.filter_sublist.subperm

end Steps
