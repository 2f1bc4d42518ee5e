import OpenDirectory.AlertRuns

/-! What the channels are told over a run: of an alert that opened under maintenance nothing, also once the
maintenance is over, unless it is that it was resolved. -/

namespace OpenDirectory.Monitor

variable {V : Type} [LinearOrder V] [Zero V] {tables : Tables V} {rule : Rule V} {world after : World V}
  {now clock : Int}

/-- How often the channels were told that an alert opened. -/
def openedTold (told : List Told) (id : Nat) : Nat := told.countP fun notice => notice.alert = id && !notice.resolved

theorem openedTold_append (told more : List Told) (id : Nat) :
    openedTold (told ++ more) id = openedTold told id + openedTold more id := List.countP_append

theorem openedTold_eq_zero {told : List Told} {id : Nat} (h : ∀ notice ∈ told, notice.alert ≠ id) :
    openedTold told id = 0 := by
  apply List.countP_eq_zero.mpr
  intro notice hnotice
  rw [decide_eq_false (h notice hnotice)]
  exact Bool.false_ne_true

/-- Every notice that an alert is resolved came after one, and only one, that it opened. -/
def Paired (told : List Told) : Prop :=
  ∀ before notice after, told = before ++ notice :: after → notice.resolved = true →
    openedTold before notice.alert = 1

theorem paired_concat {told : List Told} {notice : Told} : Paired (told ++ [notice]) ↔
    Paired told ∧ (notice.resolved = true → openedTold told notice.alert = 1) := by
  constructor
  · intro h
    refine ⟨fun before other after heq hresolved => ?_, fun hresolved => h told notice [] rfl hresolved⟩
    apply h before other (after ++ [notice]) _ hresolved
    rw [heq, List.append_assoc, List.cons_append]
  · rintro ⟨htold, hnotice⟩ before other after heq hresolved
    rcases List.eq_nil_or_concat after with rfl | ⟨later, last, rfl⟩
    · obtain ⟨rfl, hlast⟩ := List.append_inj' heq rfl
      obtain rfl := List.singleton_inj.mp hlast
      exact hnotice hresolved
    · have hassoc : before ++ other :: later.concat last = (before ++ other :: later) ++ [last] := by
        rw [List.concat_eq_append, List.append_assoc, List.cons_append]
      rw [hassoc] at heq
      exact htold before other later (List.append_inj' heq rfl).1 hresolved

theorem Paired.append {told more : List Told} (h : Paired told)
    (hmore : ∀ notice ∈ more, notice.resolved = true → openedTold told notice.alert = 1)
    (honly : ∀ notice ∈ more, ∀ other ∈ more, other.resolved = true → notice.resolved = true) :
    Paired (told ++ more) := by
  induction more using List.reverseRecOn with
  | nil => rwa [List.append_nil]
  | append_singleton more last ih =>
      rw [← List.append_assoc, paired_concat]
      have hmem : ∀ notice ∈ more, notice ∈ more ++ [last] := fun notice hnotice => List.mem_append_left _ hnotice
      have hlast : last ∈ more ++ [last] := List.mem_append_right _ List.mem_cons_self
      refine ⟨ih (fun notice hnotice => hmore notice (hmem notice hnotice))
        (fun notice hnotice other hother => honly notice (hmem notice hnotice) other (hmem other hother)), ?_⟩
      intro hresolved
      rw [openedTold_append, hmore last hlast hresolved]
      have hnone : openedTold more last.alert = 0 := by
        apply List.countP_eq_zero.mpr
        intro notice hnotice
        rw [honly notice (hmem notice hnotice) last hlast hresolved, Bool.not_true, Bool.and_false]
        exact Bool.false_ne_true
      omega

section
omit [LinearOrder V] [Zero V]

theorem openedTold_openings (rule : Rule V) (opened : List (Alert V)) (id : Nat) :
    openedTold (openingsTold rule opened) id = opened.countP fun alert => alert.id = id && !alert.suppressed := by
  rw [openedTold, openingsTold, List.countP_map, List.countP_filter]
  apply List.countP_congr
  intro alert _
  simp

theorem openedTold_closings (tables : Tables V) (rule : Rule V) (now : Int)
    (closed : List ((String × String) × Nat)) (id : Nat) :
    openedTold (closingsTold tables rule now closed) id = 0 := by
  apply List.countP_eq_zero.mpr
  intro notice hnotice
  obtain ⟨entry, -, rfl⟩ := List.mem_map.mp hnotice
  simp

theorem countP_of_nodup {alerts : List (Alert V)} (h : (alerts.map Alert.id).Nodup) (p : Alert V → Bool)
    {alert : Alert V} (halert : alert ∈ alerts) :
    (alerts.countP fun other => other.id = alert.id && p other) = if p alert then 1 else 0 := by
  induction alerts with
  | nil => cases halert
  | cons first alerts ih =>
      obtain ⟨hfirst, hrest⟩ := List.nodup_cons.mp h
      rw [List.countP_cons]
      rcases List.mem_cons.mp halert with rfl | hlater
      · have hnone : (alerts.countP fun other => other.id = alert.id && p other) = 0 := by
          apply List.countP_eq_zero.mpr
          intro other hother hid
          apply hfirst
          rw [← of_decide_eq_true (Bool.and_eq_true_iff.mp hid).1]
          exact List.mem_map_of_mem hother
        rw [hnone]
        simp
      · have hne : first.id ≠ alert.id := fun heq => hfirst (heq ▸ List.mem_map_of_mem hlater)
        rw [ih hrest hlater]
        simp [hne]

end

/-- What the channels were told agrees with the alerts, whatever the windows. -/
structure Noted (world : World V) : Prop where
  sound : Sound world
  old : ∀ notice ∈ world.told, notice.alert < world.next
  once : ∀ id, openedTold world.told id ≤ 1
  opened : ∀ alert ∈ world.alerts, openedTold world.told alert.id = if alert.suppressed then 0 else 1

theorem newly_ids (rule : Rule V) (now clock : Int) (world : World V) :
    (newly rule now clock world).map Alert.id = List.range' world.next (newly rule now clock world).length :=
  openings_ids _ _ _ _ _ _ _

theorem mem_settled (h : Sound world) {entry : (String × String) × Nat} :
    entry ∈ settled rule now clock world ↔ ∃ alert ∈ world.alerts,
      Drops rule (firingOf world.tables rule now clock) alert ∧ entry = (alert.series, alert.id) := by
  rw [settled, closings, List.mem_filter, openKeys_eq h, List.mem_map]
  constructor
  · rintro ⟨⟨alert, halert, rfl⟩, hquiet⟩
    obtain ⟨hmem, hrule, hfiring⟩ := mem_openAlerts.mp halert
    exact ⟨alert, hmem, ⟨hrule, hfiring, Dict.get_eq_none_iff.mp (Option.isNone_iff_eq_none.mp hquiet)⟩, rfl⟩
  · rintro ⟨alert, halert, ⟨hrule, hfiring, hquiet⟩, rfl⟩
    refine ⟨⟨alert, mem_openAlerts.mpr ⟨halert, hrule, hfiring⟩, rfl⟩, ?_⟩
    exact Option.isNone_iff_eq_none.mpr (Dict.get_eq_none_iff.mpr hquiet)

theorem Passed.told_count (hpassed : Passed rule now clock world after) (id : Nat) :
    openedTold after.told id = openedTold world.told id +
      (newly rule now clock world).countP fun alert => alert.id = id && !alert.suppressed := by
  rw [hpassed.told, openedTold_append, openedTold_append, openedTold_closings, openedTold_openings, Nat.add_zero]

theorem countP_newly_of_lt {id : Nat} (h : id < world.next) :
    ((newly rule now clock world).countP fun alert => alert.id = id && !alert.suppressed) = 0 := by
  apply List.countP_eq_zero.mpr
  intro alert halert hid
  have hle := (newly_opened halert).id_le
  have heq : alert.id = id := of_decide_eq_true (Bool.and_eq_true_iff.mp hid).1
  omega

theorem Passed.noted (hpassed : Passed rule now clock world after) (h : Noted world) : Noted after where
  sound := hpassed.sound h.sound
  old := by
    intro notice hnotice
    rw [hpassed.next]
    rw [hpassed.told] at hnotice
    rcases List.mem_append.mp hnotice with hearlier | hclosing
    · rcases List.mem_append.mp hearlier with hold | hopening
      · have hlt := h.old notice hold
        omega
      · obtain ⟨alert, halert, rfl⟩ := List.mem_map.mp hopening
        have hid := List.mem_map_of_mem (f := Alert.id) (List.mem_of_mem_filter halert)
        rw [newly_ids] at hid
        exact (List.mem_range'_1.mp hid).2
    · obtain ⟨entry, hentry, rfl⟩ := List.mem_map.mp hclosing
      obtain ⟨alert, halert, -, rfl⟩ := (mem_settled h.sound).mp (List.mem_of_mem_filter hentry)
      have hlt := h.sound.old alert halert
      exact hlt.trans_le (Nat.le_add_right _ _)
  once := by
    intro id
    rw [hpassed.told_count]
    by_cases hid : id < world.next
    · rw [countP_newly_of_lt hid]
      exact h.once id
    · have hnone : openedTold world.told id = 0 :=
        openedTold_eq_zero fun notice hnotice heq => hid (heq ▸ h.old notice hnotice)
      rw [hnone, Nat.zero_add]
      by_cases hnew : ∃ alert ∈ newly rule now clock world, alert.id = id
      · obtain ⟨alert, halert, rfl⟩ := hnew
        rw [countP_of_nodup (newly_ids rule now clock world ▸ List.nodup_range') _ halert]
        split <;> omega
      · have hzero : ((newly rule now clock world).countP fun alert => alert.id = id && !alert.suppressed) = 0 := by
          apply List.countP_eq_zero.mpr
          intro alert halert hboth
          exact hnew ⟨alert, halert, of_decide_eq_true (Bool.and_eq_true_iff.mp hboth).1⟩
        rw [hzero]
        exact Nat.zero_le 1
  opened := by
    intro later hlater
    rw [hpassed.told_count]
    rcases hpassed.origin hlater with ⟨alert, halert, hcore⟩ | ⟨alert, halert, hcore⟩
    · have hid : later.id = alert.id :=
        (Alert.congr_core hcore Alert.id fun _ => rfl).trans (Alert.settle_id _ _ alert)
      have hsuppressed : later.suppressed = alert.suppressed := by
        rw [Alert.congr_core hcore Alert.suppressed fun _ => rfl, Alert.settle]
        split <;> rfl
      rw [hid, hsuppressed, countP_newly_of_lt (h.sound.old alert halert), Nat.add_zero]
      exact h.opened alert halert
    · rw [Alert.congr_core hcore Alert.id fun _ => rfl, Alert.congr_core hcore Alert.suppressed fun _ => rfl,
        countP_of_nodup (newly_ids rule now clock world ▸ List.nodup_range') _ halert]
      have hnone : openedTold world.told alert.id = 0 := by
        apply openedTold_eq_zero
        intro notice hnotice heq
        have hlt := h.old notice hnotice
        have hle := (newly_opened halert).id_le
        omega
      rw [hnone, Nat.zero_add]
      cases alert.suppressed <;> rfl

/-- Everything that fires outside of maintenance has been told of. -/
def Known (world : World V) (now : Int) : Prop :=
  ∀ alert ∈ world.alerts, alert.firing = true → inMaintenance world.tables alert.host now = false →
    openedTold world.told alert.id = 1

/-- The notices that follow a move come in pairs, no alert is told of twice, and after a pass none is missing. -/
def Announced (world : World V) (move : Move V) : Prop :=
  Paired (next world move).told ∧ (∀ id, openedTold (next world move).told id ≤ 1) ∧
    ∀ now clock, move = .evaluate now clock → Known (next world move) now

/-- An alert that opened under maintenance and fires still is under maintenance. -/
def Hidden (world : World V) (now : Int) : Prop :=
  ∀ alert ∈ world.alerts, alert.firing = true → alert.suppressed = true →
    inMaintenance world.tables alert.host now = true

/-- At every pass what is not told of is under maintenance. -/
def Shown (world : World V) : Move V → Prop
  | .evaluate now _ => Hidden world now
  | _ => True

omit [LinearOrder V] in
theorem Alert.settle_fields {later alert : Alert V} {firing : List ((String × String) × V)}
    (h : later.core = (alert.settle rule firing).core) :
    later.id = alert.id ∧ later.host = alert.host ∧ later.suppressed = alert.suppressed ∧
      (later.firing = true → alert.firing = true) := by
  have hid := Alert.congr_core h Alert.id fun _ => rfl
  have hhost := Alert.congr_core h Alert.host fun _ => rfl
  have hsuppressed := Alert.congr_core h Alert.suppressed fun _ => rfl
  have hfiring := Alert.congr_core h Alert.firing fun _ => rfl
  rw [hid, hhost, hsuppressed, hfiring, Alert.settle]
  by_cases hdrops : Drops rule firing alert
  · rw [if_pos hdrops]
    exact ⟨rfl, rfl, rfl, fun hfalse => absurd hfalse Bool.false_ne_true⟩
  · rw [if_neg hdrops]
    exact ⟨rfl, rfl, rfl, fun hfires => hfires⟩

theorem Passed.hidden (hpassed : Passed rule now clock world after) (h : Hidden world now) : Hidden after now := by
  intro later hlater hfiring hsuppressed
  rw [hpassed.tables]
  rcases hpassed.origin hlater with ⟨alert, halert, hcore⟩ | ⟨alert, halert, hcore⟩
  · obtain ⟨-, hhost, hsame, hfires⟩ := Alert.settle_fields hcore
    rw [hhost]
    exact h alert halert (hfires hfiring) (hsame ▸ hsuppressed)
  · rw [Alert.congr_core hcore Alert.suppressed fun _ => rfl, (newly_opened halert).suppressed] at hsuppressed
    rw [Alert.congr_core hcore Alert.host fun _ => rfl]
    exact hsuppressed

theorem Passed.paired (hpassed : Passed rule now clock world after) (h : Noted world) (hhidden : Hidden world now)
    (hpaired : Paired world.told) : Paired after.told := by
  have hopening : ∀ notice ∈ openingsTold rule (newly rule now clock world), notice.resolved = false := by
    intro notice hnotice
    obtain ⟨alert, -, rfl⟩ := List.mem_map.mp hnotice
    rfl
  have hclosing : ∀ notice ∈ closingsTold world.tables rule now (settled rule now clock world),
      notice.resolved = true ∧ openedTold world.told notice.alert = 1 ∧ notice.alert < world.next := by
    intro notice hnotice
    obtain ⟨entry, hentry, rfl⟩ := List.mem_map.mp hnotice
    obtain ⟨hmem, houtside⟩ := List.mem_filter.mp hentry
    obtain ⟨alert, halert, hdrops, rfl⟩ := (mem_settled h.sound).mp hmem
    refine ⟨rfl, ?_, h.sound.old alert halert⟩
    rw [h.opened alert halert]
    cases hsuppressed : alert.suppressed with
    | false => rfl
    | true =>
        have hinside : inMaintenance world.tables alert.series.1 now = true :=
          hhidden alert halert hdrops.2.1 hsuppressed
        rw [hinside] at houtside
        cases houtside
  rw [hpassed.told]
  apply Paired.append
  · apply hpaired.append
    · intro notice hnotice hresolved
      rw [hopening notice hnotice] at hresolved
      cases hresolved
    · intro notice hnotice other hother hresolved
      rw [hopening other hother] at hresolved
      cases hresolved
  · intro notice hnotice _
    obtain ⟨-, hone, hlt⟩ := hclosing notice hnotice
    rw [openedTold_append, hone, openedTold_openings, countP_newly_of_lt hlt]
  · exact fun notice hnotice _ _ _ => (hclosing notice hnotice).1

theorem evaluate_noted (h : Noted world) : Noted (evaluate now clock world) :=
  (evaluate_keeps now clock Noted h.sound h fun _ _ _ _ _ _ _ hpassed hbefore => hpassed.noted hbefore).2.2

theorem evaluate_hidden (h : Sound world) (hhidden : Hidden world now) :
    Hidden (evaluate now clock world) now :=
  (evaluate_keeps now clock (fun world => Hidden world now) h hhidden
    fun _ _ _ _ _ _ _ hpassed hbefore => hpassed.hidden hbefore).2.2

theorem evaluate_paired (h : Noted world) (hhidden : Hidden world now) (hpaired : Paired world.told) :
    Paired (evaluate now clock world).told := by
  have hkeeps := evaluate_keeps now clock
    (fun world => Noted world ∧ Hidden world now ∧ Paired world.told) h.sound ⟨h, hhidden, hpaired⟩
    fun _ _ _ _ _ _ _ hpassed hbefore => ⟨hpassed.noted hbefore.1, hpassed.hidden hbefore.2.1,
      hpassed.paired hbefore.1 hbefore.2.1 hbefore.2.2⟩
  exact hkeeps.2.2.2.2

/-- An alert that opened under maintenance, fires on and is outside of it goes on firing, or the channels are
told that it is resolved. -/
theorem evaluate_resolved {alert : Alert V} (h : Sound world) (halert : alert ∈ world.alerts)
    (houtside : inMaintenance world.tables alert.host now = false) :
    (∃ later ∈ (evaluate now clock world).alerts, later.core = alert.core) ∨
      ∃ notice ∈ (evaluate now clock world).told, notice.resolved = true ∧ notice.alert = alert.id := by
  have hkeeps := evaluate_keeps now clock
    (fun world => (∃ later ∈ world.alerts, later.core = alert.core) ∨
      ∃ notice ∈ world.told, notice.resolved = true ∧ notice.alert = alert.id)
    h (.inl ⟨alert, halert, rfl⟩) ?_
  · exact hkeeps.2.2
  · rintro rule - - before after htables hsound hpassed (⟨later, hlater, hcore⟩ | ⟨notice, hnotice, hresolved⟩)
    · by_cases hdrops : Drops rule (firingOf before.tables rule now clock) later
      · refine .inr ⟨⟨later.id, true, resolvedTitle rule⟩, ?_, rfl, ?_⟩
        · rw [hpassed.told]
          apply List.mem_append_right
          refine List.mem_map.mpr ⟨(later.series, later.id), List.mem_filter.mpr ⟨?_, ?_⟩, rfl⟩
          · exact (mem_settled hsound).mpr ⟨later, hlater, hdrops, rfl⟩
          · have hhost : later.host = alert.host := Alert.congr_core hcore Alert.host fun _ => rfl
            change (!inMaintenance before.tables later.host now) = true
            rw [htables, hhost, houtside]
            rfl
        · exact Alert.congr_core hcore Alert.id fun _ => rfl
      · obtain ⟨last, hlast, hsettle⟩ := hpassed.survives hlater
        rw [Alert.settle, if_neg hdrops, hcore] at hsettle
        exact .inl ⟨last, hlast, hsettle⟩
    · refine .inr ⟨notice, ?_, hresolved⟩
      rw [hpassed.told, List.append_assoc]
      exact List.mem_append_left _ hnotice

/-- What a run that has told everything keeps. -/
def Told.Keeps (world : World V) : Prop := Noted world ∧ Paired world.told

omit [LinearOrder V] [Zero V] in
theorem Noted.filter (h : Noted world) (tables : Tables V) (p : Alert V → Bool) :
    Noted { world with tables := tables, alerts := world.alerts.filter p } where
  sound := h.sound.filter tables p
  old := h.old
  once := h.once
  opened := fun alert halert => h.opened alert (List.mem_of_mem_filter halert)

theorem announced_iff (h : Told.Keeps world) (move : Move V) : Announced world move ↔ Shown world move := by
  obtain ⟨hnoted, hpaired⟩ := h
  cases move with
  | edit tables =>
      refine ⟨fun _ => trivial, fun _ => ⟨hpaired, hnoted.once, ?_⟩⟩
      rintro now clock ⟨⟩
  | sweep cutoff =>
      refine ⟨fun _ => trivial, fun _ => ⟨hpaired, hnoted.once, ?_⟩⟩
      rintro now clock ⟨⟩
  | evaluate now clock =>
      have hafter : Noted (evaluate now clock world) := evaluate_noted hnoted
      constructor
      · rintro ⟨hpairs, -, hknown⟩ alert halert hfiring hsuppressed
        by_contra houtside
        rw [Bool.not_eq_true] at houtside
        obtain ⟨later, hlater, hfate⟩ := evaluate_fate now clock hnoted.sound halert
        have hsilent : openedTold (evaluate now clock world).told alert.id = 0 := by
          have hid : later.id = alert.id := (Alert.congr_core hfate Alert.id fun _ => rfl).trans
            (Alert.fate_firing world.tables now clock _ alert).1
          rw [← hid, hafter.opened later hlater, if_pos]
          rw [Alert.congr_core hfate Alert.suppressed fun _ => rfl]
          exact (alert.fate_suppressed world.tables now clock _).trans hsuppressed
        rcases @evaluate_resolved V _ _ world now clock alert hnoted.sound halert houtside with
          ⟨last, hlast, hcore⟩ | ⟨notice, hnotice, hresolved, hid⟩
        · have hid : last.id = alert.id := Alert.congr_core hcore Alert.id fun _ => rfl
          have hone := hknown now clock rfl last hlast
            ((Alert.congr_core hcore Alert.firing fun _ => rfl).trans hfiring) ?_
          · change openedTold (evaluate now clock world).told last.id = 1 at hone
            rw [hid, hsilent] at hone
            exact absurd hone Nat.zero_ne_one
          · rw [Alert.congr_core hcore Alert.host fun _ => rfl]
            change inMaintenance (evaluate now clock world).tables alert.host now = false
            rw [evaluate_tables hnoted.sound]
            exact houtside
        · obtain ⟨before, rest, hsplit⟩ := List.append_of_mem hnotice
          have hone := hpairs before notice rest hsplit hresolved
          rw [hsplit, openedTold_append] at hsilent
          rw [hid] at hone
          omega
      · intro hhidden
        refine ⟨evaluate_paired hnoted hhidden hpaired, hafter.once, ?_⟩
        rintro now' clock' heq alert halert hfiring houtside
        obtain ⟨rfl, rfl⟩ := Move.evaluate.inj heq
        change openedTold (evaluate now clock world).told alert.id = 1
        rw [hafter.opened alert halert, if_neg]
        intro hsuppressed
        have hinside := @evaluate_hidden V _ _ world now clock hnoted.sound hhidden alert halert hfiring hsuppressed
        exact absurd (hinside.symm.trans houtside) Bool.false_ne_true.symm

theorem next_noted (h : Noted world) (move : Move V) : Noted (next world move) := by
  cases move with
  | edit tables => exact h.filter tables _
  | sweep cutoff => exact h.filter world.tables _
  | evaluate now clock => exact evaluate_noted h

/-- Over a run the notices come in pairs, none twice and none missing, exactly when at every pass each alert
that opened under maintenance and fires still is under maintenance: it is told of only when it opens, and that
it is resolved without asking whether it was. -/
theorem notices_paired_iff (tables : Tables V) (moves : List (Move V)) :
    Steps.Each next Announced (fresh tables) moves ↔ Steps.Each next Shown (fresh tables) moves := by
  have hstart : Told.Keeps (fresh tables) := by
    refine ⟨⟨fresh_sound tables, ?_, fun _ => Nat.zero_le 1, ?_⟩, ?_⟩
    · exact fun _ hnotice => absurd hnotice List.not_mem_nil
    · exact fun _ halert => absurd halert List.not_mem_nil
    · exact fun before notice after heq => absurd heq.symm (by simp [fresh])
  have hkeeps : ∀ (world : World V) (move : Move V), Told.Keeps world → Announced world move →
      Told.Keeps (next world move) := fun world move h hgood => ⟨next_noted h.1 move, hgood.1⟩
  exact @Steps.each_iff (World V) (Move V) Told.Keeps next Announced Shown hkeeps
    (fun world move h => announced_iff h move) (fresh tables) hstart moves

/-- Planned work for five minutes, in which a machine's processor is busy. -/
def planned : Tables Int where
  samples := (List.range 5).map fun i => ⟨"pc1", "cpu_percent", 99, (60 * i : Int) * second⟩
  rules := [{ id := "r1", name := "Processor saturated", metric := "cpu_percent", threshold := 95 }]
  groups := []
  windows := [{ starts := 0, ends := 300 * second }]
  ids := List.nodup_singleton _

/-- The planned work is over, and a quiet sample came in. -/
def finished : Tables Int := { planned with samples := planned.samples ++ [⟨"pc1", "cpu_percent", 5, 300 * second⟩] }

theorem resolved_unannounced : ¬ Steps.Each next Announced (fresh planned)
    [.evaluate (240 * second) (240 * second), .edit finished, .evaluate (330 * second) (330 * second)] := by
  rintro ⟨-, -, ⟨hpaired, -⟩, -⟩
  have htold : (next (next (next (fresh planned) (.evaluate (240 * second) (240 * second))) (.edit finished))
      (.evaluate (330 * second) (330 * second))).told = [⟨0, true, "Resolved: Processor saturated"⟩] := by
    decide +kernel
  have hone := hpaired [] _ [] htold rfl
  cases hone

end OpenDirectory.Monitor
