import OpenDirectory.AlertEvidence

/-! Which samples decide whether a rule fires for a series. A pass reads back over the window of the rule, and
over two intervals of the agents where the window is shorter. -/

namespace OpenDirectory.Monitor

variable {V : Type} [LinearOrder V]

/-- The samples of a series in the scope of a rule that are of the last so many seconds. -/
def recent (tables : Tables V) (rule : Rule V) (now : Int) (seconds : Nat) (series : String × String) :
    List (Sample V) :=
  tables.samples.filter fun sample =>
    rule.watches sample.metric && covers tables.groups rule.scopeKind rule.scope sample.host &&
      sample.series = series && now - seconds * second ≤ sample.time

/-- They all break the rule, and from the first to the last it is six tenths of the window. -/
def Sustained (rule : Rule V) (samples : List (Sample V)) : Prop :=
  (∀ sample ∈ samples, Breaks rule sample) ∧
    ∃ first ∈ samples, ∃ last ∈ samples, 6 * (rule.forSeconds * second) ≤ 10 * (last.time - first.time)

def FiresFor (tables : Tables V) (rule : Rule V) (now : Int) (series : String × String) : Prop :=
  series ∈ Dict.keys (overThreshold tables rule now)

instance (tables : Tables V) (rule : Rule V) (now : Int) (series : String × String) :
    Decidable (FiresFor tables rule now series) := inferInstanceAs (Decidable (_ ∈ _))

/-- The samples of the window alone decide: the newest where the window is no longer than an interval of the
agents, and all of them where it is longer. -/
def ByWindow (tables : Tables V) (rule : Rule V) (now : Int) (series : String × String) : Prop :=
  FiresFor tables rule now series ↔
    if rule.forSeconds ≤ defaultInterval then
      ∃ newest, Newest (recent tables rule now rule.forSeconds series) newest ∧ Breaks rule newest
    else Sustained rule (recent tables rule now rule.forSeconds series)

/-- A rule whose window is no longer than an interval goes by the newest sample of the last two intervals, one
whose window is two intervals or longer by all samples of the window, and none by samples older than both. -/
structure Windowed (tables : Tables V) (rule : Rule V) (now : Int) (series : String × String) : Prop where
  atOnce : rule.forSeconds ≤ defaultInterval → (FiresFor tables rule now series ↔
    ∃ newest, Newest (recent tables rule now (2 * defaultInterval) series) newest ∧ Breaks rule newest)
  sustained : 2 * defaultInterval ≤ rule.forSeconds → (FiresFor tables rule now series ↔
    Sustained rule (recent tables rule now rule.forSeconds series))
  older : ∀ other : Tables V,
    recent other rule now (max rule.forSeconds (2 * defaultInterval)) series =
        recent tables rule now (max rule.forSeconds (2 * defaultInterval)) series →
      (FiresFor other rule now series ↔ FiresFor tables rule now series)

variable {tables : Tables V} {rule : Rule V} {now : Int} {series : String × String}

omit [LinearOrder V] in
theorem heard_eq : heard tables rule now series =
    recent tables rule now (max rule.forSeconds (2 * defaultInterval)) series := by
  have hlookback : lookback rule = max rule.forSeconds (2 * defaultInterval) := by
    rw [lookback, Nat.mul_comm]
  unfold heard observed recent
  rw [List.filter_filter, hlookback]
  apply List.filter_congr
  intro sample _
  ac_rfl

theorem firesFor_iff : FiresFor tables rule now series ↔
    StillBroken rule (recent tables rule now (max rule.forSeconds (2 * defaultInterval)) series) := by
  rw [FiresFor, mem_overThreshold, heard_eq]

theorem windowed (tables : Tables V) (rule : Rule V) (now : Int) (series : String × String) :
    Windowed tables rule now series where
  atOnce := by
    intro honce
    have hlong : max rule.forSeconds (2 * defaultInterval) = 2 * defaultInterval := by
      unfold defaultInterval at honce ⊢
      omega
    rw [firesFor_iff, hlong, StillBroken, if_pos honce]
  sustained := by
    intro hlong
    have hnot : ¬ rule.forSeconds ≤ defaultInterval := by
      unfold defaultInterval at hlong ⊢
      omega
    rw [firesFor_iff, max_eq_left hlong, StillBroken, if_neg hnot, Sustained]
  older := by
    intro other hsame
    rw [firesFor_iff, firesFor_iff, hsame]

/-- A machine that reported once, a minute and a half ago. -/
def quiet : Tables Int where
  samples := [⟨"pc1", "cpu_percent", 99, 0⟩]
  rules := []
  groups := []
  windows := []
  ids := by decide

def saturated : Rule Int :=
  { id := "r1", name := "Processor saturated", metric := "cpu_percent", threshold := 95, forSeconds := 30 }

theorem old_sample_fires : ¬ ByWindow quiet saturated (90 * second) ("pc1", "cpu_percent") := by
  intro hwindow
  have hfires : FiresFor quiet saturated (90 * second) ("pc1", "cpu_percent") := by decide +kernel
  have hnone : recent quiet saturated (90 * second) saturated.forSeconds ("pc1", "cpu_percent") = [] := by
    decide +kernel
  have honce : saturated.forSeconds ≤ defaultInterval := by decide
  rw [ByWindow, if_pos honce, hnone] at hwindow
  obtain ⟨newest, hnewest, -⟩ := hwindow.mp hfires
  exact List.not_mem_nil hnewest.mem

end OpenDirectory.Monitor
