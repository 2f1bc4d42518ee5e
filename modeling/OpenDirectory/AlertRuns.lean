import OpenDirectory.Monitor
import OpenDirectory.Steps

/-! Alerts over a run of passes, with the tables edited in between: on what evidence an alert is resolved, and
what the channels have been told. -/

namespace OpenDirectory.Monitor

variable {V : Type} [LinearOrder V] [Zero V] {tables : Tables V} {rule : Rule V} {world : World V}
  {now clock : Int}

/-- No two alerts have one id, nor two that fire one rule and one series; and no id is given twice. -/
structure Sound (world : World V) : Prop where
  ids : (world.alerts.map Alert.id).Nodup
  old : ∀ alert ∈ world.alerts, alert.id < world.next
  series : ((world.alerts.filter Alert.firing).map fun alert => (alert.ruleId, alert.series)).Nodup

/-- An alert without what a pass notes on it while it fires, or when it is resolved. -/
def Alert.core (alert : Alert V) : Alert V := { alert with lastValue := 0, resolvedAt := none }

/-- The rule's alerts that fire. -/
def openAlerts (rule : Rule V) (world : World V) : List (Alert V) :=
  world.alerts.filter fun alert => alert.ruleId = rule.id && alert.firing

variable {alert later : Alert V} {β : Type}

section
omit [LinearOrder V] [Zero V]

theorem mem_openAlerts : alert ∈ openAlerts rule world ↔
    alert ∈ world.alerts ∧ alert.ruleId = rule.id ∧ alert.firing = true := by
  rw [openAlerts, List.mem_filter, Bool.and_eq_true, decide_eq_true_eq]

theorem Sound.openSeries (h : Sound world) : ((openAlerts rule world).map Alert.series).Nodup := by
  have hsublist : (openAlerts rule world).Sublist (world.alerts.filter Alert.firing) := by
    rw [openAlerts, ← List.filter_filter]
    exact List.filter_sublist
  have hpairs := (hsublist.map fun alert => (alert.ruleId, alert.series)).nodup h.series
  apply List.Nodup.map_on _ hpairs.of_map
  intro alert halert other hother heq
  apply List.inj_on_of_nodup_map hpairs halert hother
  rw [(mem_openAlerts.mp halert).2.1, (mem_openAlerts.mp hother).2.1, heq]

theorem openKeys_eq (h : Sound world) :
    openKeys rule world = (openAlerts rule world).map fun alert => (alert.series, alert.id) := by
  have hkeys : (Dict.keys ([] ++ (openAlerts rule world).map fun alert => (alert.series, alert.id))).Nodup := by
    rw [List.nil_append, Dict.keys, List.map_map]
    exact h.openSeries
  have hupdate := Dict.update_of_nodup hkeys
  rw [List.nil_append, Dict.update, List.foldl_map] at hupdate
  exact hupdate

end

omit [LinearOrder V] in
theorem update_core (world : World V) {change : Alert V → Alert V}
    (hchange : ∀ alert, (change alert).core = alert.core) (id : Nat) : (update world id change).alerts.map Alert.core = world.alerts.map Alert.core := by
  unfold update
  rw [List.map_map]
  apply List.map_congr_left
  intro alert _
  by_cases hid : alert.id = id
  · rw [Function.comp_apply, if_pos hid, hchange]
  · rw [Function.comp_apply, if_neg hid]

/-- The alerts that a pass opens. -/
def openings (tables : Tables V) (rule : Rule V) (keys : List ((String × String) × Nat)) (now clock : Int) :
    Nat → List ((String × String) × V) → List (Alert V)
  | _, [] => []
  | id, entry :: firing =>
      if (Dict.get keys entry.1).isSome then openings tables rule keys now clock id firing
      else
        { id, ruleId := rule.id, ruleName := rule.name, host := entry.1.1, metric := entry.1.2
          severity := rule.severity, lastValue := entry.2
          suppressed := inMaintenance tables entry.1.1 now, started := clock
          notifiedAt := if inMaintenance tables entry.1.1 now then none else some clock } ::
          openings tables rule keys now clock (id + 1) firing

/-- What is told of the alerts that are opened. -/
def openingsTold (rule : Rule V) (opened : List (Alert V)) : List Told :=
  (opened.filter fun alert => !alert.suppressed).map fun alert => ⟨alert.id, false, openTitle rule⟩

omit [LinearOrder V] in
theorem foldl_noteFiring (keys : List ((String × String) × Nat)) (firing : List ((String × String) × V))
    (world : World V) :
    let opened := openings world.tables rule keys now clock world.next firing
    let after := firing.foldl (noteFiring rule keys now clock) world
    after.tables = world.tables ∧
      after.alerts.map Alert.core = world.alerts.map Alert.core ++ opened.map Alert.core ∧
      after.next = world.next + opened.length ∧ after.told = world.told ++ openingsTold rule opened := by
  induction firing generalizing world with
  | nil => simp [openings, openingsTold]
  | cons entry firing ih =>
      rw [List.foldl_cons, openings]
      cases hkey : Dict.get keys entry.1 with
      | some id =>
          have hstep : noteFiring rule keys now clock world entry =
              update world id fun alert => { alert with lastValue := entry.2 } := by
            rw [noteFiring, hkey]
          obtain ⟨htables, halerts, hnext, htold⟩ := ih (noteFiring rule keys now clock world entry)
          have hcore := @update_core V _ world (fun alert => { alert with lastValue := entry.2 }) (fun _ => rfl) id
          rw [hstep] at htables halerts hnext htold ⊢
          rw [hcore] at halerts
          exact ⟨htables, halerts, hnext, htold⟩
      | none =>
          have hstep : noteFiring rule keys now clock world entry = openAlert rule now clock world entry := by
            rw [noteFiring, hkey]
          obtain ⟨htables, halerts, hnext, htold⟩ := ih (noteFiring rule keys now clock world entry)
          rw [hstep] at htables halerts hnext htold ⊢
          refine ⟨htables, ?_, ?_, ?_⟩
          · rw [halerts]
            simp [openAlert]
          · rw [hnext]
            simp [openAlert]
            omega
          · rw [htold]
            unfold openAlert openingsTold
            cases hsuppressed : inMaintenance world.tables entry.1.1 now <;> simp

/-- An alert that a pass has resolved when it is one of those. -/
def Alert.close (clock : Int) (ids : List Nat) (alert : Alert V) : Alert V :=
  if alert.id ∈ ids then { alert with firing := false, resolvedAt := some clock } else alert

omit [LinearOrder V] [Zero V] in
theorem Alert.close_cons (alert : Alert V) (clock : Int) (id : Nat) (ids : List Nat) :
    alert.close clock (id :: ids) = Alert.close clock ids
      (if alert.id = id then { alert with firing := false, resolvedAt := some clock } else alert) := by
  unfold Alert.close
  by_cases hid : alert.id = id
  · rw [if_pos (hid ▸ List.mem_cons_self), if_pos hid, ite_self]
  · rw [if_neg hid]
    simp only [List.mem_cons, hid, false_or]

/-- The rule's alerts whose series does not fire. -/
def closings (firing : List ((String × String) × V)) (keys : List ((String × String) × Nat)) :
    List ((String × String) × Nat) :=
  keys.filter fun entry => (Dict.get firing entry.1).isNone

/-- What is told of the alerts that are resolved. -/
def closingsTold (tables : Tables V) (rule : Rule V) (now : Int) (closed : List ((String × String) × Nat)) :
    List Told :=
  (closed.filter fun entry => !inMaintenance tables entry.1.1 now).map fun entry =>
    ⟨entry.2, true, resolvedTitle rule⟩

omit [LinearOrder V] [Zero V] in
theorem foldl_noteOpen (firing : List ((String × String) × V)) (keys : List ((String × String) × Nat))
    (world : World V) :
    let closed := closings firing keys
    let after := keys.foldl (noteOpen rule firing now clock) world
    after.tables = world.tables ∧ after.alerts = world.alerts.map (Alert.close clock (closed.map Prod.snd)) ∧
      after.next = world.next ∧ after.told = world.told ++ closingsTold world.tables rule now closed := by
  induction keys generalizing world with
  | nil =>
      have hclose : (Alert.close clock [] : Alert V → Alert V) = id := by
        funext alert
        rw [Alert.close, if_neg List.not_mem_nil]
        rfl
      simp [closings, closingsTold, hclose]
  | cons entry keys ih =>
      rw [List.foldl_cons]
      cases hfires : Dict.get firing entry.1 with
      | some value =>
          have hstep : noteOpen rule firing now clock world entry = world := by
            rw [noteOpen, hfires]
            rfl
          have hclosed : closings firing (entry :: keys) = closings firing keys := by
            rw [closings, List.filter_cons, hfires]
            rfl
          rw [hstep, hclosed]
          exact ih world
      | none =>
          have hclosed : closings firing (entry :: keys) = entry :: closings firing keys := by
            rw [closings, List.filter_cons, hfires]
            rfl
          obtain ⟨htables, halerts, hnext, htold⟩ := ih (noteOpen rule firing now clock world entry)
          rw [hclosed]
          unfold noteOpen at htables halerts hnext htold ⊢
          rw [hfires] at htables halerts hnext htold ⊢
          refine ⟨htables, ?_, hnext, ?_⟩
          · rw [halerts]
            simp only [update, List.map_map, Option.isSome_none, Bool.false_eq_true, if_false]
            apply List.map_congr_left
            intro alert _
            exact (alert.close_cons clock entry.2 _).symm
          · rw [htold]
            cases hquiet : inMaintenance world.tables entry.1.1 now <;> simp [closingsTold, update, hquiet]

omit [Zero V] in
theorem groupBy_keys (key : Sample V → String × String) (samples : List (Sample V)) :
    Dict.keys (groupBy key samples) = (samples.map key).dedup := by
  have hsome : ∀ k ∈ (samples.map key).dedup,
      ((summarise (samples.filter fun sample => key sample = k)).map fun summary => (k, summary)).map Prod.fst =
        some k := by
    intro k hk
    obtain ⟨sample, hsample, rfl⟩ := List.mem_map.mp (List.mem_dedup.mp hk)
    have hmem : sample ∈ samples.filter fun other => key other = key sample :=
      List.mem_filter.mpr ⟨hsample, decide_eq_true rfl⟩
    cases hfilter : samples.filter fun other => key other = key sample with
    | nil => exact absurd (hfilter ▸ hmem) List.not_mem_nil
    | cons first rest => rfl
  rw [Dict.keys, groupBy, List.map_filterMap, List.filterMap_congr hsome, List.filterMap_some]

theorem keys_filterMap {κ α : Type} (p : κ × α → Prop) [DecidablePred p] (value : κ × α → β)
    (rows : List (κ × α)) :
    Dict.keys (rows.filterMap fun row => if p row then some (row.1, value row) else none) =
      Dict.keys (rows.filter p) := by
  unfold Dict.keys
  rw [List.map_filterMap, ← List.filterMap_eq_filter, List.map_filterMap]
  apply List.filterMap_congr
  intro row _
  by_cases hp : p row
  · rw [if_pos hp, Option.guard, if_pos (decide_eq_true hp)]
    rfl
  · rw [if_neg hp, Option.guard, decide_eq_false hp]
    rfl

omit [Zero V] in
theorem judge_keys (rule : Rule V) (rows : List ((String × String) × Summary V)) :
    Dict.keys (judge rule rows) = Dict.keys (rows.filter fun row => fires rule row.2 = true) :=
  keys_filterMap (fun row => fires rule row.2 = true) (fun row => row.2.newest) rows

theorem notReporting_keys (tables : Tables V) (rule : Rule V) (now clock : Int) :
    Dict.keys (notReporting tables rule now clock) =
      Dict.keys ((groupBy (fun sample => (sample.host, "agent_up")) (reports tables rule clock)).filter fun row =>
        rule.forSeconds * second < now - row.2.last) :=
  keys_filterMap (fun row : (String × String) × Summary V => rule.forSeconds * second < now - row.2.last)
    (fun _ => 0) _

omit [Zero V] in
theorem groupBy_filter_nodup (key : Sample V → String × String) (samples : List (Sample V))
    (p : (String × String) × Summary V → Bool) : (Dict.keys ((groupBy key samples).filter p)).Nodup := by
  have hsublist : (Dict.keys ((groupBy key samples).filter p)).Sublist (Dict.keys (groupBy key samples)) :=
    List.filter_sublist.map Prod.fst
  rw [groupBy_keys] at hsublist
  exact hsublist.nodup (List.nodup_dedup _)

theorem firingOf_nodup (tables : Tables V) (rule : Rule V) (now clock : Int) :
    (Dict.keys (firingOf tables rule now clock)).Nodup := by
  unfold firingOf
  by_cases hmetric : rule.metric = "agent_up"
  · rw [if_pos hmetric, notReporting_keys]
    exact groupBy_filter_nodup _ _ _
  · rw [if_neg hmetric, overThreshold, judge_keys]
    exact groupBy_filter_nodup _ _ _

/-- The alert is the rule's and fires, and its series does not. -/
def Drops (rule : Rule V) (firing : List ((String × String) × V)) (alert : Alert V) : Prop :=
  alert.ruleId = rule.id ∧ alert.firing = true ∧ alert.series ∉ Dict.keys firing

instance (rule : Rule V) (firing : List ((String × String) × V)) (alert : Alert V) :
    Decidable (Drops rule firing alert) := inferInstanceAs (Decidable (_ ∧ _ ∧ _))

/-- What a rule's pass leaves of an alert that was there before. -/
def Alert.settle (rule : Rule V) (firing : List ((String × String) × V)) (alert : Alert V) : Alert V :=
  if Drops rule firing alert then { alert with firing := false } else alert

section
omit [LinearOrder V] [Zero V]

@[simp] theorem Alert.settle_id (rule : Rule V) (firing : List ((String × String) × V)) (alert : Alert V) :
    (alert.settle rule firing).id = alert.id := by
  unfold Alert.settle
  split <;> rfl

theorem mem_closings (h : Sound world) (firing : List ((String × String) × V))
    (halert : alert ∈ world.alerts) :
    alert.id ∈ (closings firing (openKeys rule world)).map Prod.snd ↔ Drops rule firing alert := by
  rw [openKeys_eq h, List.mem_map]
  constructor
  · rintro ⟨entry, hentry, hid⟩
    obtain ⟨hopen, hquiet⟩ := List.mem_filter.mp hentry
    obtain ⟨other, hother, rfl⟩ := List.mem_map.mp hopen
    obtain ⟨hmem, hrule, hfiring⟩ := mem_openAlerts.mp hother
    obtain rfl := List.inj_on_of_nodup_map h.ids hmem halert hid
    exact ⟨hrule, hfiring, Dict.get_eq_none_iff.mp (Option.isNone_iff_eq_none.mp hquiet)⟩
  · rintro ⟨hrule, hfiring, hquiet⟩
    refine ⟨(alert.series, alert.id), List.mem_filter.mpr ⟨?_, ?_⟩, rfl⟩
    · exact List.mem_map.mpr ⟨alert, mem_openAlerts.mpr ⟨halert, hrule, hfiring⟩, rfl⟩
    · exact Option.isNone_iff_eq_none.mpr (Dict.get_eq_none_iff.mpr hquiet)

theorem openings_ids (tables : Tables V) (rule : Rule V) (keys : List ((String × String) × Nat))
    (now clock : Int) (id : Nat) (firing : List ((String × String) × V)) :
    (openings tables rule keys now clock id firing).map Alert.id =
      List.range' id (openings tables rule keys now clock id firing).length := by
  induction firing generalizing id with
  | nil => rfl
  | cons entry firing ih =>
      unfold openings
      by_cases hkey : (Dict.get keys entry.1).isSome
      · rw [if_pos hkey]
        exact ih id
      · rw [if_neg hkey, List.map_cons, List.length_cons, List.range'_succ, ih]

end

/-- What an alert that a pass opens says. -/
structure Opened (tables : Tables V) (rule : Rule V) (keys : List ((String × String) × Nat)) (now clock : Int)
    (id : Nat) (firing : List ((String × String) × V)) (alert : Alert V) : Prop where
  id_le : id ≤ alert.id
  ruleId : alert.ruleId = rule.id
  fires : alert.series ∈ Dict.keys firing
  opens : alert.firing = true
  unknown : alert.series ∉ Dict.keys keys
  suppressed : alert.suppressed = inMaintenance tables alert.host now
  started : alert.started = clock

omit [LinearOrder V] [Zero V] in
theorem openings_opened (tables : Tables V) (rule : Rule V) (keys : List ((String × String) × Nat))
    (now clock : Int) (id : Nat) (firing : List ((String × String) × V))
    (h : alert ∈ openings tables rule keys now clock id firing) :
    Opened tables rule keys now clock id firing alert := by
  induction firing generalizing id with
  | nil => cases h
  | cons entry firing ih =>
      unfold openings at h
      by_cases hkey : (Dict.get keys entry.1).isSome
      · rw [if_pos hkey] at h
        exact { ih id h with fires := List.mem_cons_of_mem _ (ih id h).fires }
      · rw [if_neg hkey] at h
        rcases List.mem_cons.mp h with rfl | hlater
        · refine ⟨le_rfl, rfl, List.mem_cons_self, rfl, ?_, rfl, rfl⟩
          exact fun hmem => hkey (Dict.get_isSome_iff.mpr hmem)
        · have hopened := ih (id + 1) hlater
          exact { hopened with
            id_le := (Nat.le_succ id).trans hopened.id_le
            fires := List.mem_cons_of_mem _ hopened.fires }

omit [LinearOrder V] [Zero V] in
theorem openings_series (tables : Tables V) (rule : Rule V) (keys : List ((String × String) × Nat))
    (now clock : Int) (id : Nat) (firing : List ((String × String) × V)) :
    ((openings tables rule keys now clock id firing).map Alert.series).Sublist (Dict.keys firing) := by
  induction firing generalizing id with
  | nil => exact List.Sublist.slnil
  | cons entry firing ih =>
      unfold openings
      by_cases hkey : (Dict.get keys entry.1).isSome
      · rw [if_pos hkey]
        exact (ih id).cons entry.1
      · rw [if_neg hkey]
        exact (ih (id + 1)).cons_cons entry.1

/-- The alerts that the rule's pass opens. -/
def newly (rule : Rule V) (now clock : Int) (world : World V) : List (Alert V) :=
  openings world.tables rule (openKeys rule world) now clock world.next (firingOf world.tables rule now clock)

/-- The rule's alerts that its pass resolves, by their series. -/
def settled (rule : Rule V) (now clock : Int) (world : World V) : List ((String × String) × Nat) :=
  closings (firingOf world.tables rule now clock) (openKeys rule world)

theorem newly_opened (h : alert ∈ newly rule now clock world) :
    Opened world.tables rule (openKeys rule world) now clock world.next (firingOf world.tables rule now clock)
      alert := openings_opened _ _ _ _ _ _ _ h

/-- What a rule's pass does. -/
structure Passed (rule : Rule V) (now clock : Int) (world after : World V) : Prop where
  tables : after.tables = world.tables
  alerts : after.alerts.map Alert.core =
    (world.alerts.map (Alert.settle rule (firingOf world.tables rule now clock)) ++
      newly rule now clock world).map Alert.core
  next : after.next = world.next + (newly rule now clock world).length
  told : after.told = world.told ++ openingsTold rule (newly rule now clock world) ++
    closingsTold world.tables rule now (settled rule now clock world)

omit [LinearOrder V] in
theorem Alert.close_core (clock : Int) (ids : List Nat) (alert : Alert V) : (alert.close clock ids).core =
    if alert.id ∈ ids then { alert.core with firing := false } else alert.core := by
  unfold Alert.close
  by_cases hid : alert.id ∈ ids
  · rw [if_pos hid, if_pos hid]
    rfl
  · rw [if_neg hid, if_neg hid]

omit [LinearOrder V] in
theorem map_close_core {alerts alerts' : List (Alert V)} (h : alerts.map Alert.core = alerts'.map Alert.core)
    (clock : Int) (ids : List Nat) : (alerts.map (Alert.close clock ids)).map Alert.core =
      (alerts'.map (Alert.close clock ids)).map Alert.core := by
  have hfold : ∀ alerts : List (Alert V), (alerts.map (Alert.close clock ids)).map Alert.core =
      (alerts.map Alert.core).map fun alert =>
        if alert.id ∈ ids then { alert with firing := false } else alert := by
    intro alerts
    rw [List.map_map, List.map_map]
    apply List.map_congr_left
    intro alert _
    exact alert.close_core clock ids
  rw [hfold, hfold, h]

theorem reconcile_passed (h : Sound world) (rule : Rule V) (now clock : Int) :
    Passed rule now clock world (reconcile now clock world rule) := by
  obtain ⟨htables, halerts, hnext, htold⟩ := @foldl_noteFiring V _ rule now clock (openKeys rule world)
    (firingOf world.tables rule now clock) world
  obtain ⟨htables', halerts', hnext', htold'⟩ := @foldl_noteOpen V rule now clock
    (firingOf world.tables rule now clock) (openKeys rule world)
    ((firingOf world.tables rule now clock).foldl (noteFiring rule (openKeys rule world) now clock) world)
  refine ⟨htables'.trans htables, ?_, hnext'.trans hnext, ?_⟩
  · unfold reconcile
    rw [halerts', map_close_core (halerts.trans List.map_append.symm)]
    rw [List.map_append, List.map_append, List.map_append]
    congr 1
    · rw [List.map_map, List.map_map]
      apply List.map_congr_left
      intro alert halert
      rw [Function.comp_apply, Function.comp_apply, Alert.close_core, Alert.settle]
      by_cases hdrops : Drops rule (firingOf world.tables rule now clock) alert
      · rw [if_pos ((mem_closings h _ halert).mpr hdrops), if_pos hdrops]
        rfl
      · rw [if_neg (mt (mem_closings h _ halert).mp hdrops), if_neg hdrops]
    · congr 1
      rw [← List.map_id (newly rule now clock world)]
      apply List.map_congr_left
      intro alert halert
      rw [Alert.close, if_neg]
      · rfl
      · intro hid
        obtain ⟨entry, hentry, heq⟩ := List.mem_map.mp hid
        have hopen := List.mem_of_mem_filter hentry
        rw [openKeys_eq h] at hopen
        obtain ⟨old, hold, rfl⟩ := List.mem_map.mp hopen
        have hlt := h.old old (mem_openAlerts.mp hold).1
        have hle := (newly_opened halert).id_le
        exact absurd (heq ▸ hlt) (Nat.not_lt.mpr hle)
  · unfold reconcile
    rw [htold', htold, htables]
    rfl

theorem Passed.survives {after : World V} (h : Passed rule now clock world after)
    (halert : alert ∈ world.alerts) : ∃ later ∈ after.alerts,
      later.core = (alert.settle rule (firingOf world.tables rule now clock)).core := by
  have hmem : (alert.settle rule (firingOf world.tables rule now clock)).core ∈ after.alerts.map Alert.core := by
    rw [h.alerts]
    exact List.mem_map_of_mem (List.mem_append_left _ (List.mem_map_of_mem halert))
  exact List.mem_map.mp hmem

theorem Passed.origin {after : World V} (h : Passed rule now clock world after)
    (hlater : later ∈ after.alerts) :
    (∃ alert ∈ world.alerts, later.core = (alert.settle rule (firingOf world.tables rule now clock)).core) ∨
      ∃ alert ∈ newly rule now clock world, later.core = alert.core := by
  have hmem : later.core ∈ after.alerts.map Alert.core := List.mem_map_of_mem hlater
  rw [h.alerts, List.map_append, List.map_map] at hmem
  rcases List.mem_append.mp hmem with hold | hnew
  · obtain ⟨alert, halert, heq⟩ := List.mem_map.mp hold
    exact .inl ⟨alert, halert, heq.symm⟩
  · obtain ⟨alert, halert, heq⟩ := List.mem_map.mp hnew
    exact .inr ⟨alert, halert, heq.symm⟩

omit [LinearOrder V] in
theorem Alert.congr_core (h : later.core = alert.core) (f : Alert V → β)
    (hf : ∀ alert : Alert V, f alert.core = f alert) : f later = f alert := by
  rw [← hf later, h, hf]

omit [LinearOrder V] in
theorem map_core (f : Alert V → β) (hf : ∀ alert : Alert V, f alert.core = f alert)
    (alerts : List (Alert V)) : (alerts.map Alert.core).map f = alerts.map f := by
  rw [List.map_map]
  exact List.map_congr_left fun alert _ => hf alert

theorem Passed.ids {after : World V} (h : Passed rule now clock world after) :
    after.alerts.map Alert.id =
      world.alerts.map Alert.id ++ List.range' world.next (newly rule now clock world).length := by
  rw [← map_core Alert.id (fun _ => rfl), h.alerts, map_core Alert.id (fun _ => rfl), List.map_append, newly,
    openings_ids, List.map_map]
  congr 1
  exact List.map_congr_left fun alert _ => Alert.settle_id _ _ alert

/-- The series that fire, each with its rule. -/
def watched (alerts : List (Alert V)) : List (String × (String × String)) :=
  (alerts.filter Alert.firing).map fun alert => (alert.ruleId, alert.series)

omit [LinearOrder V] in
theorem watched_core (alerts : List (Alert V)) : watched (alerts.map Alert.core) = watched alerts := by
  unfold watched
  rw [List.filter_map, List.map_map]
  rfl

omit [LinearOrder V] [Zero V] in
theorem watched_settle (rule : Rule V) (firing : List ((String × String) × V)) (alerts : List (Alert V)) :
    watched (alerts.map (Alert.settle rule firing)) =
      watched (alerts.filter fun alert => !Drops rule firing alert) := by
  unfold watched
  rw [List.filter_map, List.map_map, List.filter_filter]
  have hfires : ∀ alert : Alert V, (Alert.firing ∘ Alert.settle rule firing) alert =
      (alert.firing && !Drops rule firing alert) := by
    intro alert
    by_cases hdrops : Drops rule firing alert <;> simp [Alert.settle, hdrops]
  rw [List.filter_congr fun alert _ => hfires alert]
  refine List.map_congr_left fun alert halert => ?_
  have hkept : ¬ Drops rule firing alert := by simpa using (Bool.and_eq_true_iff.mp (List.mem_filter.mp halert).2).2
  simp [Alert.settle, hkept]

theorem newly_watched (rule : Rule V) (now clock : Int) (world : World V) :
    watched (newly rule now clock world) =
      ((newly rule now clock world).map Alert.series).map fun series => (rule.id, series) := by
  have hall : (newly rule now clock world).filter Alert.firing = newly rule now clock world :=
    List.filter_eq_self.mpr fun alert halert => (newly_opened halert).opens
  rw [watched, hall, List.map_map]
  apply List.map_congr_left
  intro alert halert
  rw [(newly_opened halert).ruleId, Function.comp_apply]

theorem Passed.sound {after : World V} (hpassed : Passed rule now clock world after) (h : Sound world) :
    Sound after where
  ids := by
    rw [hpassed.ids, List.nodup_append]
    refine ⟨h.ids, List.nodup_range', ?_⟩
    rintro id hid other hother rfl
    obtain ⟨alert, halert, rfl⟩ := List.mem_map.mp hid
    have hlt := h.old alert halert
    have hle := (List.mem_range'_1.mp hother).1
    omega
  old := by
    intro alert halert
    have hid := List.mem_map_of_mem (f := Alert.id) halert
    rw [hpassed.ids] at hid
    rw [hpassed.next]
    rcases List.mem_append.mp hid with hold | hnew
    · obtain ⟨other, hother, heq⟩ := List.mem_map.mp hold
      have hlt := h.old other hother
      omega
    · exact (List.mem_range'_1.mp hnew).2
  series := by
    change (watched after.alerts).Nodup
    rw [← watched_core, hpassed.alerts, watched_core]
    have happend : ∀ alerts alerts' : List (Alert V), watched (alerts ++ alerts') =
        watched alerts ++ watched alerts' := by
      intro alerts alerts'
      unfold watched
      rw [List.filter_append, List.map_append]
    rw [happend, watched_settle, newly_watched, List.nodup_append]
    refine ⟨?_, ?_, ?_⟩
    · exact ((List.filter_sublist.filter _).map _).nodup h.series
    · apply List.Nodup.map (fun series series' heq => (Prod.mk.inj heq).2)
      exact (openings_series _ _ _ _ _ _ _).nodup (firingOf_nodup _ _ _ _)
    · rintro pair hold other hnew rfl
      obtain ⟨alert, halert, rfl⟩ := List.mem_map.mp hold
      obtain ⟨series, hseries, heq⟩ := List.mem_map.mp hnew
      obtain ⟨opened, hopened, rfl⟩ := List.mem_map.mp hseries
      obtain ⟨hrule, hsame⟩ := Prod.mk.inj heq
      obtain ⟨hkept, hfiring⟩ := List.mem_filter.mp halert
      apply (newly_opened hopened).unknown
      rw [openKeys_eq h, hsame, Dict.keys, List.map_map]
      refine List.mem_map.mpr ⟨alert, mem_openAlerts.mpr ⟨?_, hrule.symm, hfiring⟩, rfl⟩
      exact List.mem_of_mem_filter hkept

omit [LinearOrder V] [Zero V] in
theorem Sound.filter (h : Sound world) (tables : Tables V) (p : Alert V → Bool) :
    Sound { world with tables := tables, alerts := world.alerts.filter p } where
  ids := (List.filter_sublist.map Alert.id).nodup h.ids
  old := fun alert halert => h.old alert (List.mem_of_mem_filter halert)
  series := ((List.filter_sublist.filter Alert.firing).map _).nodup h.series

theorem evaluate_keeps (now clock : Int) (keeps : World V → Prop) (h : Sound world) (hstart : keeps world)
    (hstep : ∀ rule ∈ world.tables.rules, rule.enabled = true → ∀ before after, before.tables = world.tables →
      Sound before → Passed rule now clock before after → keeps before → keeps after) :
    (evaluate now clock world).tables = world.tables ∧ Sound (evaluate now clock world) ∧
      keeps (evaluate now clock world) := by
  have hrules : ∀ rules : List (Rule V), (∀ rule ∈ rules, rule ∈ world.tables.rules ∧ rule.enabled = true) →
      (rules.foldl (reconcile now clock) world).tables = world.tables ∧
        Sound (rules.foldl (reconcile now clock) world) ∧ keeps (rules.foldl (reconcile now clock) world) := by
    intro rules
    induction rules using List.reverseRecOn with
    | nil => exact fun _ => ⟨rfl, h, hstart⟩
    | append_singleton rules rule ih =>
        intro hmem
        obtain ⟨htables, hsound, hkeeps⟩ := ih fun other hother => hmem other (List.mem_append_left _ hother)
        obtain ⟨hrule, henabled⟩ := hmem rule (List.mem_append_right _ List.mem_cons_self)
        rw [List.foldl_concat]
        have hpassed := reconcile_passed hsound rule now clock
        exact ⟨hpassed.tables.trans htables, hpassed.sound hsound,
          hstep rule hrule henabled _ _ htables hsound hpassed hkeeps⟩
  apply hrules
  intro rule hrule
  exact List.mem_filter.mp hrule

theorem evaluate_tables (h : Sound world) : (evaluate now clock world).tables = world.tables :=
  (evaluate_keeps now clock (fun _ => True) h trivial fun _ _ _ _ _ _ _ _ _ => trivial).1

theorem next_sound (h : Sound world) (move : Move V) : Sound (next world move) := by
  cases move with
  | edit tables => exact h.filter tables _
  | sweep cutoff => exact h.filter world.tables _
  | evaluate now clock => exact (evaluate_keeps now clock (fun _ => True) h trivial fun _ _ _ _ _ _ _ _ _ => trivial).2.1

/-- Nothing has been watched yet. -/
def fresh (tables : Tables V) : World V := ⟨tables, [], 0, []⟩

omit [LinearOrder V] [Zero V] in
theorem fresh_sound (tables : Tables V) : Sound (fresh tables) where
  ids := List.nodup_nil
  old := fun _ halert => absurd halert List.not_mem_nil
  series := List.nodup_nil

/-- Whatever is edited and swept between the passes, no rule has two alerts that fire about one series. -/
theorem fires_once (tables : Tables V) (moves : List (Move V)) :
    let alerts := (moves.foldl next (fresh tables)).alerts
    (alerts.map Alert.id).Nodup ∧ ∀ first ∈ alerts, ∀ second ∈ alerts, first.firing = true → second.firing = true →
      first.ruleId = second.ruleId → first.series = second.series → first = second := by
  have hsound : Sound (moves.foldl next (fresh tables)) :=
    List.foldlRecOn moves next (fresh_sound tables) fun _ h move _ => next_sound h move
  refine ⟨hsound.ids, fun first hfirst second hsecond hfires hfires' hrule hseries => ?_⟩
  exact List.inj_on_of_nodup_map hsound.series (List.mem_filter.mpr ⟨hfirst, hfires⟩)
    (List.mem_filter.mpr ⟨hsecond, hfires'⟩) (Prod.ext hrule hseries)

/-- What the passes of some rules leave of an alert. -/
def Alert.fate (tables : Tables V) (now clock : Int) (rules : List (Rule V)) (alert : Alert V) : Alert V :=
  rules.foldl (fun alert rule => alert.settle rule (firingOf tables rule now clock)) alert

omit [LinearOrder V] in
theorem Alert.settle_congr (h : later.core = alert.core) (rule : Rule V)
    (firing : List ((String × String) × V)) :
    (later.settle rule firing).core = (alert.settle rule firing).core := by
  have hcore : ∀ alert : Alert V, (alert.settle rule firing).core = alert.core.settle rule firing := by
    intro alert
    by_cases hdrops : Drops rule firing alert
    · rw [Alert.settle, Alert.settle, if_pos hdrops, if_pos (show Drops rule firing alert.core from hdrops)]
      rfl
    · rw [Alert.settle, Alert.settle, if_neg hdrops, if_neg (show ¬ Drops rule firing alert.core from hdrops)]
  rw [hcore, hcore, h]

theorem evaluate_fate (now clock : Int) (h : Sound world) (halert : alert ∈ world.alerts) :
    ∃ later ∈ (evaluate now clock world).alerts, later.core =
      (alert.fate world.tables now clock (world.tables.rules.filter Rule.enabled)).core := by
  have hrules : ∀ rules : List (Rule V),
      (rules.foldl (reconcile now clock) world).tables = world.tables ∧
        Sound (rules.foldl (reconcile now clock) world) ∧
          ∃ later ∈ (rules.foldl (reconcile now clock) world).alerts,
            later.core = (alert.fate world.tables now clock rules).core := by
    intro rules
    induction rules using List.reverseRecOn with
    | nil => exact ⟨rfl, h, alert, halert, rfl⟩
    | append_singleton rules rule ih =>
        obtain ⟨htables, hsound, later, hlater, hcore⟩ := ih
        rw [List.foldl_concat, Alert.fate, List.foldl_concat]
        have hpassed := reconcile_passed hsound rule now clock
        obtain ⟨last, hlast, hsettle⟩ := hpassed.survives hlater
        refine ⟨hpassed.tables.trans htables, hpassed.sound hsound, last, hlast, ?_⟩
        rw [hsettle, htables]
        exact Alert.settle_congr hcore rule _
  exact (hrules _).2.2

theorem Alert.fate_firing (tables : Tables V) (now clock : Int) (rules : List (Rule V)) (alert : Alert V) :
    (alert.fate tables now clock rules).id = alert.id ∧
      ((alert.fate tables now clock rules).firing = true ↔
        alert.firing = true ∧ ∀ rule ∈ rules, ¬ Drops rule (firingOf tables rule now clock) alert) := by
  induction rules generalizing alert with
  | nil => simp [Alert.fate]
  | cons rule rules ih =>
      obtain ⟨hid, hfiring⟩ := ih (alert.settle rule (firingOf tables rule now clock))
      unfold Alert.fate at hid hfiring ⊢
      rw [List.foldl_cons, hid, hfiring, List.forall_mem_cons, Alert.settle]
      by_cases hdrops : Drops rule (firingOf tables rule now clock) alert
      · rw [if_pos hdrops]
        refine ⟨rfl, ?_⟩
        constructor
        · exact fun h => absurd h.1 Bool.false_ne_true
        · exact fun h => absurd hdrops h.2.1
      · rw [if_neg hdrops]
        refine ⟨rfl, ?_⟩
        constructor
        · exact fun h => ⟨h.1, hdrops, h.2⟩
        · exact fun h => ⟨h.1, h.2.2⟩

theorem Alert.fate_suppressed (tables : Tables V) (now clock : Int) (rules : List (Rule V)) (alert : Alert V) :
    (alert.fate tables now clock rules).suppressed = alert.suppressed := by
  induction rules generalizing alert with
  | nil => rfl
  | cons rule rules ih =>
      unfold Alert.fate at ih ⊢
      rw [List.foldl_cons, ih, Alert.settle]
      split <;> rfl

end OpenDirectory.Monitor
