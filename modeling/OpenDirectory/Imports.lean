import OpenDirectory.LinkOrders

/-! What an import does, entry by entry. What an entry comes to is decided by the policy objects alone; the links
of its object are then placed one after another, until one of them is none, cannot be written or finds its order
taken. -/

namespace OpenDirectory.PolicyTables

variable {D : Type}

/-- Another link of the container, as it is spelled, has the order. -/
def Clash (orders : Orders) (key : String × String) (order : Int) : Prop :=
  ∃ entry ∈ orders, entry.1.2 = key.2 ∧ entry.1 ≠ key ∧ entry.2 = order

/-- Each order is free when its turn comes. -/
def Free : Orders → Orders → Prop
  | _, [] => True
  | orders, (key, order) :: plan => ¬ Clash orders key order ∧ Free (Dict.set orders key order) plan

theorem free_append (orders plan plan' : Orders) :
    Free orders (plan ++ plan') ↔ Free orders plan ∧ Free (Dict.update orders plan) plan' := by
  induction plan generalizing orders with
  | nil => exact ⟨fun h => ⟨trivial, h⟩, fun h => h.2⟩
  | cons entry plan ih =>
      change ¬ Clash orders entry.1 entry.2 ∧ Free (Dict.set orders entry.1 entry.2) (plan ++ plan') ↔ _
      rw [ih, ← and_assoc]
      exact Iff.rfl

theorem update_append (orders plan plan' : Orders) :
    Dict.update orders (plan ++ plan') = Dict.update (Dict.update orders plan) plan' := by
  unfold Dict.update
  rw [List.foldl_append]

variable {tables : Tables D}

theorem orderTaken_eq (key : String × String) (order : Int) :
    orderTaken tables.links key order = true ↔ Clash tables.orders key order := by
  unfold orderTaken Clash Tables.orders
  rw [List.any_eq_true]
  constructor
  · rintro ⟨entry, hentry, htaken⟩
    simp only [Bool.and_eq_true, decide_eq_true_eq] at htaken
    exact ⟨_, List.mem_map_of_mem hentry, htaken.1.1, htaken.1.2, htaken.2⟩
  · rintro ⟨pair, hpair, hspelled, hne, horder⟩
    obtain ⟨entry, hentry, rfl⟩ := List.mem_map.mp hpair
    refine ⟨entry, hentry, ?_⟩
    simp only [Bool.and_eq_true, decide_eq_true_eq]
    exact ⟨⟨hspelled, hne⟩, horder⟩

theorem orders_set (links : List ((String × String) × Link)) (key : String × String) (link : Link) :
    (Dict.set links key link).map (fun entry => (entry.1, entry.2.order)) =
      Dict.set (links.map fun entry => (entry.1, entry.2.order)) key link.order := by
  induction links with
  | nil => rfl
  | cons entry links ih =>
      unfold Dict.set
      by_cases h : entry.1 = key <;> simp [h, ih]

theorem orders_upsert (key : String × String) (order : Int) (enforced enabled : Bool) :
    (upsert tables key order enforced enabled).orders = Dict.set tables.orders key order := by
  unfold upsert
  cases Dict.get tables.links key with
  | none => exact orders_set _ _ _
  | some link => exact orders_set _ _ _

theorem gpos_upsert (key : String × String) (order : Int) (enforced enabled : Bool) :
    (upsert tables key order enforced enabled).gpos = tables.gpos := by
  unfold upsert
  cases Dict.get tables.links key <;> rfl

/-- The orders that are placed until something other than an order stops them, and whether nothing does. -/
def placedLinks (site : Site D) (guid : String) : List LinkDoc → Orders × Bool
  | [] => ([], true)
  | .other :: _ => ([], false)
  | .link target order _ _ :: links =>
      if target = "" || !site.containers target then placedLinks site guid links
      else
        match order with
        | none => ([], false)
        | some order =>
            if !site.mirrored target then ([((guid, target), order)], false)
            else (((guid, target), order) :: (placedLinks site guid links).1, (placedLinks site guid links).2)

/-- How the placements of a plan end. -/
structure Placed (orders : Orders) (plan : Orders × Bool) (after : Ending × Tables D × Report) : Prop where
  free : Free orders plan.1 → after.1 = (if plan.2 then .completed else .refused) ∧
    after.2.1.orders = Dict.update orders plan.1
  taken : ¬ Free orders plan.1 → after.1 = .taken

theorem importLinks_gpos (site : Site D) (guid : String) (links : List LinkDoc) (tables : Tables D)
    (report : Report) : (importLinks site guid links tables report).2.1.gpos = tables.gpos := by
  fun_induction importLinks site guid links tables report with
  | case3 _ _ _ _ _ _ ih => exact ih
  | case4 _ _ _ _ _ _ _ _ _ ih => exact ih
  | case7 => exact gpos_upsert _ _ _ _
  | case8 _ _ _ _ _ _ _ _ _ _ _ _ ih => exact ih.trans (gpos_upsert _ _ _ _)
  | _ => rfl

theorem importLinks_spec (site : Site D) (guid : String) (links : List LinkDoc) (tables : Tables D)
    (report : Report) :
    Placed tables.orders (placedLinks site guid links) (importLinks site guid links tables report) := by
  induction links generalizing tables report with
  | nil => exact ⟨fun _ => ⟨rfl, rfl⟩, fun hnot => absurd trivial hnot⟩
  | cons link links ih =>
      cases link with
      | other => exact ⟨fun _ => ⟨rfl, rfl⟩, fun hnot => absurd trivial hnot⟩
      | link target order enforced enabled =>
          unfold importLinks placedLinks
          by_cases hempty : target = ""
          · rw [if_pos hempty, if_pos (by simp [hempty])]
            exact ih tables report
          · rw [if_neg hempty]
            cases hthere : site.containers target with
            | false =>
                rw [if_pos (by simp), if_pos (by simp)]
                exact ih tables _
            | true =>
                rw [if_neg (by simp [hempty]), if_neg (by simp)]
                cases order with
                | none => exact ⟨fun _ => ⟨rfl, rfl⟩, fun hnot => absurd trivial hnot⟩
                | some order =>
                    dsimp only
                    by_cases htaken : orderTaken tables.links (guid, target) order = true
                    · have hclash := (orderTaken_eq (guid, target) order).mp htaken
                      rw [if_pos htaken]
                      refine ⟨fun hfree => ?_, fun _ => rfl⟩
                      cases hmirrored : site.mirrored target with
                      | false => exact absurd hclash (by rw [hmirrored] at hfree; exact hfree.1)
                      | true => exact absurd hclash (by rw [hmirrored] at hfree; exact hfree.1)
                    · have hclash := mt (orderTaken_eq (guid, target) order).mpr htaken
                      rw [if_neg htaken]
                      cases hmirrored : site.mirrored target with
                      | false => exact ⟨fun _ => ⟨rfl, orders_upsert _ _ _ _⟩, fun hnot => absurd ⟨hclash, trivial⟩ hnot⟩
                      | true =>
                          obtain ⟨hfree, htaken⟩ := ih (upsert tables (guid, target) order enforced enabled)
                            { report with linked := report.linked + 1 }
                          rw [orders_upsert] at hfree htaken
                          exact ⟨fun hall => hfree hall.2, fun hnot => htaken fun hrest => hnot ⟨hclash, hrest⟩⟩

variable [Runtime]

/-- What an entry comes to. -/
inductive Fate where
  | skipped
  | stopped
  | replaced (guid : String)
  | created (name : String)
  deriving DecidableEq

/-- An entry makes a new policy object of this name. -/
def Entry.makes (entry : Entry D) (site : Site D) (gpos : List (String × Gpo D)) : Option String → Fate
  | none => .stopped
  | some name =>
      if !site.shared entry.uuid || !site.accepts entry || (Dict.get gpos entry.uuid).isSome then .stopped
      else .created name

def fate (site : Site D) (request : Import D) (gpos : List (String × Gpo D)) (entry : Entry D) : Fate :=
  match named gpos entry.name, request.conflict with
  | none, _ => entry.makes site gpos (some entry.name)
  | some _, .skip => .skipped
  | some guid, .replace => if !site.accepts entry then .stopped else .replaced guid
  | some _, .rename => entry.makes site gpos (freeName gpos entry.name)

section
omit [Runtime]

/-- The policy objects after an entry. -/
def Fate.gpos (gpos : List (String × Gpo D)) (entry : Entry D) : Fate → List (String × Gpo D)
  | .skipped | .stopped => gpos
  | .replaced guid => gpos.map fun row => if row.1 = guid then (guid, entry.over row.2) else row
  | .created name => gpos ++ [(entry.uuid, entry.row name)]

def Fate.report (report : Report) (entry : Entry D) : Fate → Report
  | .skipped => { report with skipped := report.skipped ++ [entry.name] }
  | .stopped => report
  | .replaced _ => { report with replaced := report.replaced ++ [entry.name] }
  | .created name => { report with created := report.created ++ [name] }

/-- The policy object an entry is written to. -/
def Fate.guid (entry : Entry D) : Fate → Option String
  | .skipped | .stopped => none
  | .replaced guid => some guid
  | .created _ => some entry.uuid

end

theorem importEntry_eq (site : Site D) (request : Import D) (entry : Entry D) (tables : Tables D)
    (report : Report) : importEntry site request entry tables report =
      let met := fate site request tables.gpos entry
      match met.guid entry with
      | none => (if met = .stopped then .refused else .completed, tables, met.report report entry)
      | some guid => importLinks site guid (request.linksOf entry)
          { tables with gpos := met.gpos tables.gpos entry } (met.report report entry) := by
  have hmakes : ∀ name : Option String, (match name with
      | none => ((.refused, tables, report) : Ending × Tables D × Report)
      | some name =>
          if !site.shared entry.uuid || !site.accepts entry || (Dict.get tables.gpos entry.uuid).isSome then
            (.refused, tables, report)
          else
            importLinks site entry.uuid (request.linksOf entry)
              { tables with gpos := tables.gpos ++ [(entry.uuid, entry.row name)] }
              { report with created := report.created ++ [name] }) =
      let met := entry.makes site tables.gpos name
      match met.guid entry with
      | none => (if met = .stopped then .refused else .completed, tables, met.report report entry)
      | some guid => importLinks site guid (request.linksOf entry)
          { tables with gpos := met.gpos tables.gpos entry } (met.report report entry) := by
    intro name
    cases name with
    | none => rfl
    | some name =>
        unfold Entry.makes
        dsimp only
        by_cases hrefused : (!site.shared entry.uuid || !site.accepts entry ||
            (Dict.get tables.gpos entry.uuid).isSome) = true
        · rw [if_pos hrefused, if_pos hrefused]
          rfl
        · rw [if_neg hrefused, if_neg hrefused]
          rfl
  unfold importEntry fate
  cases named tables.gpos entry.name with
  | none => exact hmakes (some entry.name)
  | some guid =>
      cases request.conflict with
      | skip => rfl
      | replace =>
          dsimp only
          cases site.accepts entry <;> rfl
      | rename => exact hmakes (freeName tables.gpos entry.name)

/-- The orders an entry places, and whether nothing other than an order stops it. -/
def placedEntry (site : Site D) (request : Import D) (gpos : List (String × Gpo D)) (entry : Entry D) :
    Orders × Bool :=
  match fate site request gpos entry with
  | .skipped => ([], true)
  | .stopped => ([], false)
  | .replaced guid => placedLinks site guid (request.linksOf entry)
  | .created _ => placedLinks site entry.uuid (request.linksOf entry)

def placedEntries (site : Site D) (request : Import D) :
    List (Entry D) → List (String × Gpo D) → Orders × Bool
  | [], _ => ([], true)
  | entry :: entries, gpos =>
      let first := placedEntry site request gpos entry
      if !first.2 then (first.1, false)
      else
        let rest := placedEntries site request entries ((fate site request gpos entry).gpos gpos entry)
        (first.1 ++ rest.1, rest.2)

theorem importEntry_spec (site : Site D) (request : Import D) (entry : Entry D) (tables : Tables D)
    (report : Report) :
    Placed tables.orders (placedEntry site request tables.gpos entry) (importEntry site request entry tables report) ∧
      (importEntry site request entry tables report).2.1.gpos =
        (fate site request tables.gpos entry).gpos tables.gpos entry := by
  have hlinks : ∀ guid gpos (report' : Report),
      let after := importLinks site guid (request.linksOf entry) { tables with gpos } report'
      Placed tables.orders (placedLinks site guid (request.linksOf entry)) after ∧ after.2.1.gpos = gpos :=
    fun guid gpos report' => ⟨importLinks_spec site guid _ { tables with gpos } report', importLinks_gpos site _ _ _ _⟩
  rw [importEntry_eq]
  unfold placedEntry
  cases fate site request tables.gpos entry with
  | skipped => exact ⟨⟨fun _ => ⟨rfl, rfl⟩, fun hnot => absurd trivial hnot⟩, rfl⟩
  | stopped => exact ⟨⟨fun _ => ⟨rfl, rfl⟩, fun hnot => absurd trivial hnot⟩, rfl⟩
  | replaced guid => exact hlinks guid _ _
  | created name => exact hlinks entry.uuid _ _

theorem importEntries_spec (site : Site D) (request : Import D) (entries : List (Entry D)) (tables : Tables D)
    (report : Report) :
    Placed tables.orders (placedEntries site request entries tables.gpos)
      (importEntries site request entries tables report) := by
  induction entries generalizing tables report with
  | nil => exact ⟨fun _ => ⟨rfl, rfl⟩, fun hnot => absurd trivial hnot⟩
  | cons entry entries ih =>
      obtain ⟨⟨hfree, htaken⟩, hgpos⟩ := importEntry_spec site request entry tables report
      unfold importEntries placedEntries
      generalize importEntry site request entry tables report = after at hfree htaken hgpos ⊢
      obtain ⟨ending, tables', report'⟩ := after
      dsimp only at hfree htaken hgpos ⊢
      by_cases hfirst : Free tables.orders (placedEntry site request tables.gpos entry).1
      · obtain ⟨hending, horders⟩ := hfree hfirst
        cases hends : (placedEntry site request tables.gpos entry).2 with
        | false =>
            rw [hends] at hending
            subst hending
            exact ⟨fun _ => ⟨rfl, horders⟩, fun hnot => absurd hfirst hnot⟩
        | true =>
            rw [hends] at hending
            subst hending
            obtain ⟨hrest, hrest'⟩ := ih tables' report'
            rw [hgpos, horders] at hrest hrest'
            rw [if_neg (by simp)]
            refine ⟨fun hall => ?_, fun hnot => hrest' fun hall => hnot ?_⟩
            · rw [update_append]
              exact hrest ((free_append _ _ _).mp hall).2
            · exact (free_append _ _ _).mpr ⟨hfirst, hall⟩
      · have hending : ending = .taken := htaken hfirst
        subst hending
        refine ⟨fun hall => absurd ?_ hfirst, fun _ => rfl⟩
        by_cases hends : (!(placedEntry site request tables.gpos entry).2) = true
        · rw [if_pos hends] at hall
          exact hall
        · rw [if_neg hends] at hall
          exact ((free_append _ _ _).mp hall).1

/-- The orders an import places, and whether nothing other than an order stops it. -/
def placedImport (site : Site D) (request : Import D) (gpos : List (String × Gpo D)) : Orders × Bool :=
  if request.format ≠ exportFormat then ([], false)
  else
    match prepared site request.entries with
    | none => ([], false)
    | some entries => placedEntries site request entries gpos

theorem importGpos_spec (site : Site D) (request : Import D) (tables : Tables D) :
    Placed tables.orders (placedImport site request tables.gpos) (importGpos site request tables) := by
  unfold importGpos placedImport
  by_cases hformat : request.format ≠ exportFormat
  · rw [if_pos hformat, if_pos hformat]
    exact ⟨fun _ => ⟨rfl, rfl⟩, fun hnot => absurd trivial hnot⟩
  · rw [if_neg hformat, if_neg hformat]
    cases prepared site request.entries with
    | none => exact ⟨fun _ => ⟨rfl, rfl⟩, fun hnot => absurd trivial hnot⟩
    | some entries => exact importEntries_spec site request entries tables {}

end OpenDirectory.PolicyTables
