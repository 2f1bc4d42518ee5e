import OpenDirectory.AlertRuns

/-! When a pass resolves an alert although nothing came in that is back within the limits. A series leaves
what a rule fires for when the rule reads nothing of it, or too little, no less than when it recovers. -/

namespace OpenDirectory.Monitor

variable {V : Type} [LinearOrder V] {tables : Tables V} {rule : Rule V} {world : World V} {now clock : Int}

/-- The sample is the newest; of those of its moment, the last in the table. -/
def Newest (samples : List (Sample V)) (sample : Sample V) : Prop :=
  ∃ before after, samples = before ++ sample :: after ∧ (∀ other ∈ before, other.time ≤ sample.time) ∧
    ∀ other ∈ after, other.time < sample.time

variable {samples : List (Sample V)} {summary : Summary V}

omit [LinearOrder V] in
theorem Newest.mem {sample : Sample V} (h : Newest samples sample) :
    sample ∈ samples := by
  obtain ⟨before, after, rfl, -⟩ := h
  exact List.mem_append_right _ List.mem_cons_self

omit [LinearOrder V] in
theorem Newest.unique {sample other : Sample V} (h : Newest samples sample)
    (hother : Newest samples other) : sample = other := by
  obtain ⟨before, after, rfl, hbefore, hafter⟩ := h
  obtain ⟨before', after', heq, hbefore', hafter'⟩ := hother
  rcases List.append_eq_append_iff.mp heq with ⟨middle, rfl, hmiddle⟩ | ⟨middle, rfl, hmiddle⟩
  · cases middle with
    | nil => exact (List.cons.inj hmiddle).1
    | cons first middle =>
        obtain ⟨rfl, rfl⟩ := List.cons.inj hmiddle
        have hle := hbefore' sample (List.mem_append_right _ List.mem_cons_self)
        have hlt := hafter other (List.mem_append_right _ List.mem_cons_self)
        omega
  · cases middle with
    | nil => exact (List.cons.inj hmiddle).1.symm
    | cons first middle =>
        obtain ⟨rfl, rfl⟩ := List.cons.inj hmiddle
        have hle := hbefore other (List.mem_append_right _ List.mem_cons_self)
        have hlt := hafter' sample (List.mem_append_right _ List.mem_cons_self)
        omega

/-- What the summary of some samples says of them. -/
structure Sums (samples : List (Sample V)) (summary : Summary V) : Prop where
  low_le : ∀ sample ∈ samples, summary.low ≤ sample.value
  low : ∃ sample ∈ samples, sample.value = summary.low
  le_high : ∀ sample ∈ samples, sample.value ≤ summary.high
  high : ∃ sample ∈ samples, sample.value = summary.high
  first_le : ∀ sample ∈ samples, summary.first ≤ sample.time
  first : ∃ sample ∈ samples, sample.time = summary.first
  le_last : ∀ sample ∈ samples, sample.time ≤ summary.last
  newest : ∃ sample, Newest samples sample ∧ sample.time = summary.last ∧ sample.value = summary.newest

theorem Sums.concat (h : Sums samples summary)
    (sample : Sample V) : Sums (samples ++ [sample]) (summary.add sample) where
  low_le := by
    intro other hother
    rcases List.mem_append.mp hother with hold | hnew
    · exact (min_le_left _ _).trans (h.low_le other hold)
    · rw [List.mem_singleton.mp hnew]
      exact min_le_right _ _
  low := by
    rcases min_choice summary.low sample.value with hmin | hmin
    · obtain ⟨other, hother, heq⟩ := h.low
      exact ⟨other, List.mem_append_left _ hother, heq.trans hmin.symm⟩
    · exact ⟨sample, List.mem_append_right _ List.mem_cons_self, hmin.symm⟩
  le_high := by
    intro other hother
    rcases List.mem_append.mp hother with hold | hnew
    · exact (h.le_high other hold).trans (le_max_left _ _)
    · rw [List.mem_singleton.mp hnew]
      exact le_max_right _ _
  high := by
    rcases max_choice summary.high sample.value with hmax | hmax
    · obtain ⟨other, hother, heq⟩ := h.high
      exact ⟨other, List.mem_append_left _ hother, heq.trans hmax.symm⟩
    · exact ⟨sample, List.mem_append_right _ List.mem_cons_self, hmax.symm⟩
  first_le := by
    intro other hother
    rcases List.mem_append.mp hother with hold | hnew
    · exact (min_le_left _ _).trans (h.first_le other hold)
    · rw [List.mem_singleton.mp hnew]
      exact min_le_right _ _
  first := by
    rcases min_choice summary.first sample.time with hmin | hmin
    · obtain ⟨other, hother, heq⟩ := h.first
      exact ⟨other, List.mem_append_left _ hother, heq.trans hmin.symm⟩
    · exact ⟨sample, List.mem_append_right _ List.mem_cons_self, hmin.symm⟩
  le_last := by
    intro other hother
    rcases List.mem_append.mp hother with hold | hnew
    · exact (h.le_last other hold).trans (le_max_left _ _)
    · rw [List.mem_singleton.mp hnew]
      exact le_max_right _ _
  newest := by
    by_cases hlater : summary.last ≤ sample.time
    · refine ⟨sample, ⟨samples, [], rfl, fun other hother => ?_, fun _ hmem => absurd hmem List.not_mem_nil⟩,
        (max_eq_right hlater).symm, (if_pos hlater).symm⟩
      exact (h.le_last other hother).trans hlater
    · obtain ⟨other, ⟨before, after, rfl, hbefore, hafter⟩, htime, hvalue⟩ := h.newest
      have hlt : sample.time < other.time := by omega
      refine ⟨other, ⟨before, after ++ [sample], by simp, hbefore, ?_⟩, ?_, ?_⟩
      · intro later hmem
        rcases List.mem_append.mp hmem with hold | hnew
        · exact hafter later hold
        · rw [List.mem_singleton.mp hnew]
          exact hlt
      · exact htime.trans (max_eq_left (Int.not_le.mp hlater).le).symm
      · exact hvalue.trans (if_neg hlater).symm

theorem summarise_sums
    (h : summarise samples = some summary) : Sums samples summary := by
  cases samples with
  | nil => cases h
  | cons sample samples =>
      obtain rfl := Option.some.inj h
      induction samples using List.reverseRecOn with
      | nil =>
          have hself : ∀ {β : Type} (f : Sample V → β), ∃ other ∈ [sample], f other = f sample :=
            fun f => ⟨sample, List.mem_cons_self, rfl⟩
          have hall : ∀ {p : Sample V → Prop}, p sample → ∀ other ∈ [sample], p other :=
            fun hp other hother => List.mem_singleton.mp hother ▸ hp
          refine ⟨hall le_rfl, hself _, hall le_rfl, hself _, hall le_rfl, hself _, hall le_rfl, ?_⟩
          exact ⟨sample, ⟨[], [], rfl, fun _ hmem => absurd hmem List.not_mem_nil,
            fun _ hmem => absurd hmem List.not_mem_nil⟩, rfl, rfl⟩
      | append_singleton samples later ih =>
          rw [List.foldl_concat]
          exact (ih rfl).concat later

/-- The value breaks the rule. -/
def Breaks (rule : Rule V) (sample : Sample V) : Prop := rule.op.holds sample.value rule.threshold = true

/-- Of these samples the rule hears enough, and they break it. -/
def StillBroken (rule : Rule V) (samples : List (Sample V)) : Prop :=
  if rule.forSeconds ≤ defaultInterval then ∃ newest, Newest samples newest ∧ Breaks rule newest
  else (∀ sample ∈ samples, Breaks rule sample) ∧
    ∃ first ∈ samples, ∃ last ∈ samples, 6 * (rule.forSeconds * second) ≤ 10 * (last.time - first.time)

theorem Sums.fires_iff (h : Sums samples summary) :
    fires rule summary = true ↔ StillBroken rule samples := by
  unfold fires StillBroken
  by_cases honce : rule.forSeconds ≤ defaultInterval
  · rw [if_pos honce, if_pos honce]
    obtain ⟨sample, hnewest, -, hvalue⟩ := h.newest
    constructor
    · exact fun hholds => ⟨sample, hnewest, show rule.op.holds sample.value _ = true from hvalue ▸ hholds⟩
    · rintro ⟨other, hother, hbreaks⟩
      rw [← hvalue, hnewest.unique hother]
      exact hbreaks
  · rw [if_neg honce, if_neg honce, Bool.and_eq_true]
    apply and_congr
    · cases hop : rule.op with
      | gt =>
          obtain ⟨sample, hsample, hlow⟩ := h.low
          have hbreaks : ∀ other, Breaks rule other ↔ rule.threshold < other.value := by
            intro other
            rw [Breaks, hop, Op.holds, decide_eq_true_eq]
          simp only [Op.holds, decide_eq_true_eq, hbreaks]
          constructor
          · exact fun hlt other hother => hlt.trans_le (h.low_le other hother)
          · exact fun hall => hlow ▸ hall sample hsample
      | lt =>
          obtain ⟨sample, hsample, hhigh⟩ := h.high
          have hbreaks : ∀ other, Breaks rule other ↔ other.value < rule.threshold := by
            intro other
            rw [Breaks, hop, Op.holds, decide_eq_true_eq]
          simp only [Op.holds, decide_eq_true_eq, hbreaks]
          constructor
          · exact fun hlt other hother => (h.le_high other hother).trans_lt hlt
          · exact fun hall => hhigh ▸ hall sample hsample
    · rw [Bool.not_eq_true', decide_eq_false_iff_not, Int.not_lt]
      constructor
      · intro hcovers
        obtain ⟨first, hfirst, hfirsttime⟩ := h.first
        obtain ⟨last, ⟨before, after, hsplit, hrest⟩, hlasttime, -⟩ := h.newest
        refine ⟨first, hfirst, last, (Newest.mem ⟨before, after, hsplit, hrest⟩), ?_⟩
        rw [hfirsttime, hlasttime]
        exact hcovers
      · rintro ⟨first, hfirst, last, hlast, hcovers⟩
        have hfirstle := h.first_le first hfirst
        have hlelast := h.le_last last hlast
        omega

/-- What the rule reads back of one series. -/
def heard (tables : Tables V) (rule : Rule V) (now : Int) (series : String × String) : List (Sample V) :=
  (observed tables rule now).filter fun sample => sample.series = series

theorem summarise_eq_none : summarise samples = none ↔ samples = [] := by
  cases samples with
  | nil => exact ⟨fun _ => rfl, fun _ => rfl⟩
  | cons sample samples =>
      constructor
      · exact fun h => absurd h (Option.some_ne_none _)
      · exact fun h => absurd h (List.cons_ne_nil _ _)

theorem StillBroken.nonempty (h : StillBroken rule samples) : samples ≠ [] := by
  unfold StillBroken at h
  by_cases honce : rule.forSeconds ≤ defaultInterval
  · rw [if_pos honce] at h
    obtain ⟨newest, hnewest, -⟩ := h
    exact List.ne_nil_of_mem hnewest.mem
  · rw [if_neg honce] at h
    obtain ⟨-, first, hfirst, -⟩ := h
    exact List.ne_nil_of_mem hfirst

theorem mem_groupBy {key : Sample V → String × String} {k : String × String} : (k, summary) ∈ groupBy key samples ↔
      summarise (samples.filter fun sample => key sample = k) = some summary := by
  unfold groupBy
  rw [List.mem_filterMap]
  constructor
  · rintro ⟨k', hk', heq⟩
    obtain ⟨summary', hsummary, hpair⟩ := Option.map_eq_some_iff.mp heq
    obtain ⟨rfl, rfl⟩ := Prod.mk.inj hpair
    exact hsummary
  · intro h
    refine ⟨k, ?_, by rw [h]; rfl⟩
    rw [List.mem_dedup]
    have hne : (samples.filter fun sample => key sample = k) ≠ [] := by
      intro hnil
      rw [summarise_eq_none.mpr hnil] at h
      cases h
    obtain ⟨sample, hsample⟩ := List.exists_mem_of_ne_nil _ hne
    obtain ⟨hmem, hkey⟩ := List.mem_filter.mp hsample
    exact List.mem_map.mpr ⟨sample, hmem, of_decide_eq_true hkey⟩

theorem mem_overThreshold {series : String × String} :
    series ∈ Dict.keys (overThreshold tables rule now) ↔ StillBroken rule (heard tables rule now series) := by
  rw [overThreshold, judge_keys]
  unfold Dict.keys
  rw [List.mem_map]
  constructor
  · rintro ⟨⟨k, summary⟩, hmem, rfl⟩
    obtain ⟨hrow, hfires⟩ := List.mem_filter.mp hmem
    exact (summarise_sums (mem_groupBy.mp hrow)).fires_iff.mp (of_decide_eq_true hfires)
  · intro h
    cases hsummary : summarise (heard tables rule now series) with
    | none => exact absurd (summarise_eq_none.mp hsummary) h.nonempty
    | some summary =>
        have hfires := (summarise_sums hsummary).fires_iff.mpr h
        exact ⟨(series, summary), List.mem_filter.mpr ⟨mem_groupBy.mpr hsummary, decide_eq_true hfires⟩, rfl⟩

variable [Zero V]

/-- The host reported in the last fortnight, and nothing of that is as new as the window. -/
def StillSilent (tables : Tables V) (rule : Rule V) (now clock : Int) (host : String) : Prop :=
  (∃ sample ∈ reports tables rule clock, sample.host = host) ∧
    ∀ sample ∈ reports tables rule clock, sample.host = host → rule.forSeconds * second < now - sample.time

theorem mem_notReporting {series : String × String} :
    series ∈ Dict.keys (notReporting tables rule now clock) ↔
      series.2 = "agent_up" ∧ StillSilent tables rule now clock series.1 := by
  rw [notReporting_keys]
  unfold Dict.keys
  rw [List.mem_map]
  constructor
  · rintro ⟨⟨k, summary⟩, hmem, rfl⟩
    obtain ⟨hrow, hold⟩ := List.mem_filter.mp hmem
    have hsums := summarise_sums (mem_groupBy.mp hrow)
    have hlate : rule.forSeconds * second < now - summary.last := of_decide_eq_true hold
    obtain ⟨newest, hnewest, -⟩ := hsums.newest
    obtain ⟨hreports, hkey⟩ := List.mem_filter.mp hnewest.mem
    obtain rfl := of_decide_eq_true hkey
    refine ⟨rfl, ⟨newest, hreports, rfl⟩, fun sample hsample hhost => ?_⟩
    have hle := hsums.le_last sample (List.mem_filter.mpr ⟨hsample, decide_eq_true (by rw [hhost])⟩)
    omega
  · rintro ⟨hmetric, ⟨sample, hsample, hhost⟩, hold⟩
    obtain ⟨host, metric⟩ := series
    obtain rfl := hmetric
    have hmem : sample ∈ (reports tables rule clock).filter fun other => (other.host, "agent_up") = (host, "agent_up") :=
      List.mem_filter.mpr ⟨hsample, decide_eq_true (by rw [hhost])⟩
    cases hsummary : summarise
        ((reports tables rule clock).filter fun other => (other.host, "agent_up") = (host, "agent_up")) with
    | none => exact absurd (summarise_eq_none.mp hsummary) (List.ne_nil_of_mem hmem)
    | some summary =>
        refine ⟨((host, "agent_up"), summary), List.mem_filter.mpr ⟨mem_groupBy.mpr hsummary, ?_⟩, rfl⟩
        obtain ⟨newest, hnewest, htime, -⟩ := (summarise_sums hsummary).newest
        obtain ⟨hreports, hkey⟩ := List.mem_filter.mp hnewest.mem
        have hlate := hold newest hreports (Prod.mk.inj (of_decide_eq_true hkey)).1
        rw [htime] at hlate
        exact decide_eq_true hlate

/-- Something came in that shows the series back within the limits of the rule: newer than the alert, and not
breaking the rule; of a machine that did not report, anything within the window. -/
def Evidence (tables : Tables V) (rule : Rule V) (now : Int) (alert : Alert V) : Prop :=
  if rule.metric = "agent_up" then
    ∃ sample ∈ tables.samples, sample.host = alert.host ∧ like "probe_".toList sample.metric.toList = false ∧
      now - sample.time ≤ rule.forSeconds * second
  else ∃ sample ∈ tables.samples, sample.series = alert.series ∧ alert.started < sample.time ∧ ¬ Breaks rule sample

/-- A move resolves an alert that fires. -/
def Resolves (world after : World V) (alert : Alert V) : Prop :=
  alert ∈ world.alerts ∧ alert.firing = true ∧
    ∃ later ∈ after.alerts, later.id = alert.id ∧ later.firing = false

/-- What a move resolves, a pass does, on evidence. -/
def OnEvidence (world : World V) (move : Move V) : Prop :=
  ∀ alert, Resolves world (next world move) alert → ∃ now clock, move = .evaluate now clock ∧
    ∃ rule ∈ world.tables.rules, rule.id = alert.ruleId ∧ Evidence world.tables rule now alert

/-- The rule still reads what the alert was opened for: its series with enough of its samples, all of which
break it, or that the machine stopped to report. -/
def StillFires (tables : Tables V) (rule : Rule V) (now clock : Int) (alert : Alert V) : Prop :=
  if rule.metric = "agent_up" then alert.metric = "agent_up" ∧ StillSilent tables rule now clock alert.host
  else StillBroken rule (heard tables rule now alert.series)

/-- Every alert that fires and whose rule is enabled has evidence against it or still fires. -/
def Decided (world : World V) : Move V → Prop
  | .evaluate now clock => ∀ alert ∈ world.alerts, alert.firing = true → ∀ rule ∈ world.tables.rules,
      rule.enabled = true → rule.id = alert.ruleId →
        Evidence world.tables rule now alert ∨ StillFires world.tables rule now clock alert
  | _ => True

theorem mem_firingOf {alert : Alert V} :
    alert.series ∈ Dict.keys (firingOf tables rule now clock) ↔ StillFires tables rule now clock alert := by
  unfold firingOf StillFires
  by_cases hmetric : rule.metric = "agent_up"
  · rw [if_pos hmetric, if_pos hmetric]
    exact mem_notReporting
  · rw [if_neg hmetric, if_neg hmetric]
    exact mem_overThreshold

omit [LinearOrder V] [Zero V] in
theorem Sound.firing_of_filter (h : Sound world) {p : Alert V → Bool} {alert later : Alert V}
    (halert : alert ∈ world.alerts) (hlater : later ∈ world.alerts.filter p) (hid : later.id = alert.id) :
    later = alert :=
  List.inj_on_of_nodup_map h.ids (List.mem_of_mem_filter hlater) halert hid

theorem resolves_evaluate (h : Sound world) {alert : Alert V} :
    Resolves world (evaluate now clock world) alert ↔ alert ∈ world.alerts ∧ alert.firing = true ∧
      ∃ rule ∈ world.tables.rules, rule.enabled = true ∧ rule.id = alert.ruleId ∧
        ¬ StillFires world.tables rule now clock alert := by
  unfold Resolves
  rw [and_congr_right_iff]
  intro halert
  rw [and_congr_right_iff]
  intro hfiring
  obtain ⟨later, hlater, hcore⟩ := evaluate_fate now clock h halert
  obtain ⟨hid, hfate⟩ := Alert.fate_firing world.tables now clock (world.tables.rules.filter Rule.enabled) alert
  have hlaterid : later.id = alert.id := (Alert.congr_core hcore Alert.id fun _ => rfl).trans hid
  have hlaterfiring := Alert.congr_core hcore Alert.firing fun _ => rfl
  have hsound : Sound (evaluate now clock world) := next_sound h (.evaluate now clock)
  calc
    _ ↔ ¬ later.firing = true := by
        rw [Bool.not_eq_true]
        constructor
        · rintro ⟨other, hother, hotherid, hquiet⟩
          rw [List.inj_on_of_nodup_map hsound.ids hlater hother (hlaterid.trans hotherid.symm)]
          exact hquiet
        · exact fun hquiet => ⟨later, hlater, hlaterid, hquiet⟩
    _ ↔ ∃ rule ∈ world.tables.rules.filter Rule.enabled, Drops rule (firingOf world.tables rule now clock) alert := by
        rw [hlaterfiring, hfate]
        simp only [hfiring, true_and, not_forall, not_not, exists_prop]
    _ ↔ _ := by
        apply exists_congr
        intro rule
        rw [List.mem_filter, and_assoc]
        apply and_congr_right
        intro _
        apply and_congr_right
        intro _
        rw [Drops, mem_firingOf, eq_comm]
        exact ⟨fun hdrops => ⟨hdrops.1, hdrops.2.2⟩, fun hstops => ⟨hstops.1, hfiring, hstops.2⟩⟩

omit [LinearOrder V] [Zero V] in
theorem Tables.rule_eq (tables : Tables V) {rule other : Rule V} (hrule : rule ∈ tables.rules)
    (hother : other ∈ tables.rules) (hid : rule.id = other.id) : rule = other :=
  List.inj_on_of_nodup_map tables.ids hrule hother hid

theorem onEvidence_iff (h : Sound world) (move : Move V) : OnEvidence world move ↔ Decided world move := by
  have hnone : ∀ (tables : Tables V) (p : Alert V → Bool) (alert : Alert V),
      ¬ Resolves world { world with tables := tables, alerts := world.alerts.filter p } alert := by
    rintro tables p alert ⟨halert, hfiring, later, hlater, hid, hquiet⟩
    rw [h.firing_of_filter halert hlater hid, hfiring] at hquiet
    cases hquiet
  cases move with
  | edit tables =>
      exact ⟨fun _ => trivial, fun _ alert hresolves => absurd hresolves (hnone _ _ alert)⟩
  | sweep cutoff =>
      exact ⟨fun _ => trivial, fun _ alert hresolves => absurd hresolves (hnone world.tables _ alert)⟩
  | evaluate now clock =>
      unfold OnEvidence Decided
      constructor
      · intro hgood alert halert hfiring rule hrule henabled hid
        by_cases hstill : StillFires world.tables rule now clock alert
        · exact .inr hstill
        · obtain ⟨now', clock', hmove, other, hother, hotherid, hevidence⟩ :=
            hgood alert ((resolves_evaluate h).mpr ⟨halert, hfiring, rule, hrule, henabled, hid, hstill⟩)
          obtain ⟨rfl, rfl⟩ := Move.evaluate.inj hmove
          rw [world.tables.rule_eq hrule hother (hid.trans hotherid.symm)]
          exact .inl hevidence
      · intro hdecided alert hresolves
        obtain ⟨halert, hfiring, rule, hrule, henabled, hid, hstops⟩ := (resolves_evaluate h).mp hresolves
        refine ⟨now, clock, rfl, rule, hrule, hid, ?_⟩
        exact (hdecided alert halert hfiring rule hrule henabled hid).resolve_right hstops

/-- A run resolves alerts only on evidence exactly when every pass has evidence about, or still reads, whatever
fires then: a series of which it reads too little is taken for one that has recovered. -/
theorem resolved_on_evidence_iff (tables : Tables V) (moves : List (Move V)) :
    Steps.Each next OnEvidence (fresh tables) moves ↔ Steps.Each next Decided (fresh tables) moves :=
  @Steps.each_iff (World V) (Move V) Sound next OnEvidence Decided (fun _ move h _ => next_sound h move)
    (fun _ move h => onEvidence_iff h move) (fresh tables) (fresh_sound tables) moves

/-- A machine reports that its processor is busy, five times in five minutes, and then nothing any more. -/
def busy : Tables Int where
  samples := (List.range 5).map fun i => ⟨"pc1", "cpu_percent", 99, (60 * i : Int) * second⟩
  rules := [{ id := "r1", name := "Processor saturated", metric := "cpu_percent", threshold := 95 }]
  groups := []
  windows := []
  ids := by decide

theorem silence_resolves : ¬ Steps.Each next OnEvidence (fresh busy)
    [.evaluate (240 * second) (240 * second), .evaluate (900 * second) (900 * second)] := by
  rintro ⟨-, hsecond, -⟩
  let opened : Alert Int := {
    id := 0, ruleId := "r1", ruleName := "Processor saturated", host := "pc1", metric := "cpu_percent"
    severity := .warning, lastValue := 99, suppressed := false, started := 240 * second
    notifiedAt := some (240 * second) }
  have hopened : (next (fresh busy) (.evaluate (240 * second) (240 * second))).alerts = [opened] := by
    decide +kernel
  have hresolves : Resolves (next (fresh busy) (.evaluate (240 * second) (240 * second)))
      (next (next (fresh busy) (.evaluate (240 * second) (240 * second)))
        (.evaluate (900 * second) (900 * second))) opened := by
    refine ⟨by rw [hopened]; exact List.mem_cons_self, rfl, ?_⟩
    decide +kernel
  obtain ⟨now, clock, -, rule, hrule, -, hevidence⟩ := hsecond opened hresolves
  rw [List.mem_singleton.mp hrule] at hevidence
  obtain ⟨sample, hsample, -, hlater, -⟩ := hevidence
  have hearly : ∀ sample ∈ busy.samples, sample.time ≤ 240 * second := by decide +kernel
  exact absurd (hearly sample hsample) (Int.not_le.mpr hlater)

end OpenDirectory.Monitor
