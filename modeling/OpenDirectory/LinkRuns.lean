import OpenDirectory.Imports

/-! Requests that bring links with their orders: out of the recycle bin, and out of an exported document. What
they leave is what they bring, put into the orders that are there, as long as none of them is taken; and the
orders of the links over a run of requests of all kinds. -/

namespace OpenDirectory.PolicyTables

open Numbering

variable {D : Type} [Runtime] {tables : Tables D}

omit [Runtime] in
theorem Sound.gpos (h : Sound tables) (gpos : List (String × Gpo D)) : Sound { tables with gpos } :=
  ⟨h.keys, h.ids, h.old⟩

section
omit [Runtime]

/-- The order a link comes back with. -/
def wanted (tables : Tables D) (link : KeptLink) : Int := link.order.getD (afterLast tables.links link.target)

/-- The links that come back, put beside those that are there. -/
def broughtBack (containers : Containers) (guid : String) (tables : Tables D) (kept : List KeptLink)
    (orders : Orders) : Orders :=
  (kept.filter fun link => containers link.target).foldl
    (fun orders link => Dict.setDefault orders (guid, link.target) (wanted tables link)) orders

theorem keys_orders (tables : Tables D) : Dict.keys tables.orders = Dict.keys tables.links := by
  unfold Dict.keys Tables.orders
  rw [List.map_map]
  rfl

theorem get_orders_isSome (tables : Tables D) (key : String × String) :
    (Dict.get tables.orders key).isSome = (Dict.get tables.links key).isSome := by
  rw [Bool.eq_iff_iff, Dict.get_isSome_iff, Dict.get_isSome_iff, keys_orders]

theorem broughtBack_extends (containers : Containers) (guid : String) (tables : Tables D) (kept : List KeptLink)
    (orders : Orders) : ∃ more, broughtBack containers guid tables kept orders = orders ++ more := by
  unfold broughtBack
  induction kept.filter fun link => containers link.target generalizing orders with
  | nil => exact ⟨[], (List.append_nil _).symm⟩
  | cons link kept ih =>
      rw [List.foldl_cons]
      obtain ⟨more, hmore⟩ := ih (Dict.setDefault orders (guid, link.target) (wanted tables link))
      rw [hmore]
      unfold Dict.setDefault
      by_cases hthere : (Dict.get orders (guid, link.target)).isSome = true
      · rw [if_pos hthere]
        exact ⟨more, rfl⟩
      · rw [if_neg hthere, Dict.set_of_not_mem (mt Dict.get_isSome_iff.mpr hthere), List.append_assoc]
        exact ⟨_, rfl⟩

theorem orderTaken_iff {key : String × String} {order : Int} (hkey : Dict.get tables.links key = none) :
    orderTaken tables.links key order = true ↔ ∃ entry ∈ tables.orders, entry.1.2 = key.2 ∧ entry.2 = order := by
  rw [orderTaken_eq]
  constructor
  · rintro ⟨entry, hentry, hspelled, -, horder⟩
    exact ⟨entry, hentry, hspelled, horder⟩
  · rintro ⟨entry, hentry, hspelled, horder⟩
    refine ⟨entry, hentry, hspelled, ?_, horder⟩
    rintro rfl
    have hthere : (Dict.get tables.orders entry.1).isSome = true :=
      Dict.get_isSome_iff.mpr (List.mem_map_of_mem hentry)
    rw [get_orders_isSome, hkey] at hthere
    exact absurd hthere Bool.false_ne_true

end

theorem not_wellFormed_of_taken {orders more : Orders} {key : String × String} {order : Int}
    (htaken : ∃ entry ∈ orders, entry.1.2 = key.2 ∧ entry.2 = order) :
    ¬ WellFormed (orders ++ [(key, order)] ++ more) := by
  obtain ⟨entry, hentry, hspelled, rfl⟩ := htaken
  intro hwell
  have hnodup := (hwell key.2).nodup
  rw [numbers_append, numbers_append, numbers_singleton, if_pos rfl] at hnodup
  have hthere : entry.2 ∈ numbers orders key.2 :=
    List.mem_map_of_mem (List.mem_filter.mpr ⟨hentry, decide_eq_true (by rw [hspelled])⟩)
  exact (List.nodup_append.mp (List.nodup_append.mp hnodup).1).2.2 entry.2 hthere entry.2 List.mem_cons_self rfl

theorem restoreLinks_spec (containers : Containers) (guid : String) (start : Tables D) (kept : List KeptLink)
    (h : Sound tables)
    (hsame : ∀ target, Dict.get tables.links (guid, target) = none →
      linksOf tables.links target = linksOf start.links target) :
    let after := restoreLinks containers guid kept tables
    Sound after.2 ∧
      (after.1 = .completed ∧ after.2.orders = broughtBack containers guid start kept tables.orders ∨
        after.1 = .taken ∧ ¬ WellFormed (broughtBack containers guid start kept tables.orders)) := by
  induction kept generalizing tables with
  | nil => exact ⟨h, .inl ⟨rfl, rfl⟩⟩
  | cons link kept ih =>
      unfold restoreLinks
      cases hthere : containers link.target with
      | false =>
          have hskips : broughtBack containers guid start (link :: kept) tables.orders =
              broughtBack containers guid start kept tables.orders := by
            unfold broughtBack
            rw [List.filter_cons_of_neg (by simp [hthere])]
          rw [hskips]
          exact ih h hsame
      | true =>
          have hstep : broughtBack containers guid start (link :: kept) tables.orders =
              broughtBack containers guid start kept
                (Dict.setDefault tables.orders (guid, link.target) (wanted start link)) := by
            unfold broughtBack
            rw [List.filter_cons_of_pos (by simp [hthere]), List.foldl_cons]
          rw [hstep]
          dsimp only
          by_cases hlinked : (Dict.get tables.links (guid, link.target)).isSome = true
          · have hstays : Dict.setDefault tables.orders (guid, link.target) (wanted start link) = tables.orders := by
              rw [Dict.setDefault, if_pos ((get_orders_isSome _ _).trans hlinked)]
            rw [if_pos hlinked, hstays]
            exact ih h hsame
          · have hkey := Option.not_isSome_iff_eq_none.mp hlinked
            have hwanted : link.order.getD (afterLast tables.links link.target) = wanted start link := by
              unfold wanted afterLast
              rw [hsame link.target hkey]
            have hadds : Dict.setDefault tables.orders (guid, link.target) (wanted start link) =
                tables.orders ++ [((guid, link.target), wanted start link)] := by
              have hnot : ¬ (Dict.get tables.orders (guid, link.target)).isSome = true := by
                rw [get_orders_isSome]
                exact hlinked
              rw [Dict.setDefault, if_neg hnot, Dict.set_of_not_mem (mt Dict.get_isSome_iff.mpr hnot)]
            rw [if_neg hlinked, hwanted, hadds]
            by_cases htaken : orderTaken tables.links (guid, link.target) (wanted start link) = true
            · rw [if_pos htaken]
              refine ⟨h, .inr ⟨rfl, ?_⟩⟩
              obtain ⟨more, hmore⟩ := broughtBack_extends containers guid start kept
                (tables.orders ++ [((guid, link.target), wanted start link)])
              rw [hmore]
              exact not_wellFormed_of_taken ((orderTaken_iff hkey).mp htaken)
            · rw [if_neg htaken, ← orders_insert hkey _ link.enforced link.enabled]
              apply ih (h.insert hkey _ _ _)
              intro target htarget
              rw [insert_links hkey]
              have hother : link.target ≠ target := by
                rintro rfl
                apply absurd htarget
                rw [insert_links hkey, Dict.get_append, hkey, Option.none_or, Dict.get_cons, if_pos rfl]
                exact Option.some_ne_none _
              have hfree : Dict.get tables.links (guid, target) = none := by
                rw [insert_links hkey, Dict.get_append] at htarget
                exact (Option.or_eq_none_iff.mp htarget).1
              unfold linksOf at hsame ⊢
              rw [List.filter_append, hsame target hfree]
              simp [hother]

section
omit [Runtime]

/-- The links that come back to containers the policy object is not linked to, the first for each. -/
def comesBack (containers : Containers) (guid : String) (tables : Tables D) (kept : List KeptLink) : Orders :=
  ((kept.filter fun link => containers link.target).filter fun link =>
      (Dict.get tables.orders (guid, link.target)).isNone).foldl
    (fun orders link => Dict.setDefault orders (guid, link.target) (wanted tables link)) []

theorem foldl_setDefault_append (guid : String) (order : KeptLink → Int) (kept : List KeptLink)
    (orders more : Orders) :
    kept.foldl (fun orders link => Dict.setDefault orders (guid, link.target) (order link)) (orders ++ more) =
      orders ++ (kept.filter fun link => (Dict.get orders (guid, link.target)).isNone).foldl
        (fun orders link => Dict.setDefault orders (guid, link.target) (order link)) more := by
  induction kept generalizing more with
  | nil => rfl
  | cons link kept ih =>
      have hstep : Dict.setDefault (orders ++ more) (guid, link.target) (order link) =
          if (Dict.get orders (guid, link.target)).isSome then orders ++ more
          else orders ++ Dict.setDefault more (guid, link.target) (order link) := by
        unfold Dict.setDefault
        rw [Dict.get_append]
        cases hthere : Dict.get orders (guid, link.target) with
        | some order => rfl
        | none =>
            cases hmore : Dict.get more (guid, link.target) with
            | some order => rfl
            | none =>
                have hnot : (guid, link.target) ∉ Dict.keys (orders ++ more) := by
                  rw [← Dict.get_eq_none_iff, Dict.get_append, hthere, hmore]
                  rfl
                simp [Dict.set_of_not_mem hnot, Dict.set_of_not_mem (Dict.get_eq_none_iff.mp hmore)]
      rw [List.foldl_cons, hstep]
      cases hthere : Dict.get orders (guid, link.target) with
      | some order =>
          rw [List.filter_cons_of_neg (by simp [hthere])]
          exact ih more
      | none =>
          rw [List.filter_cons_of_pos (by simp [hthere])]
          exact ih _

theorem broughtBack_eq (containers : Containers) (guid : String) (tables : Tables D) (kept : List KeptLink) :
    broughtBack containers guid tables kept tables.orders =
      tables.orders ++ comesBack containers guid tables kept := by
  unfold broughtBack comesBack
  have hsplit := foldl_setDefault_append guid (wanted tables) (kept.filter fun link => containers link.target)
    tables.orders []
  rwa [List.append_nil] at hsplit

end

/-- A policy object that comes back: its links have the orders that are next in their containers. -/
def FitsRestore (containers : Containers) (shared : Bool) (snapshot : Snapshot D) (tables : Tables D) : Prop :=
  ∀ guid, snapshot.guid = some guid → snapshot.gpo.displayName ≠ "" → Dict.get tables.gpos guid = none →
    named tables.gpos snapshot.gpo.displayName = none → shared = true →
      NextIn tables.orders (comesBack containers guid tables snapshot.links)

theorem restoreGpo_spec (h : Sound tables) (hwell : WellFormed tables.orders) (containers : Containers)
    (shared : Bool) (snapshot : Snapshot D) :
    Sound (restoreGpo containers shared snapshot tables).2 ∧
      ((restoreGpo containers shared snapshot tables).1 ≠ .taken ∧
          WellFormed (restoreGpo containers shared snapshot tables).2.orders ↔
        FitsRestore containers shared snapshot tables) := by
  unfold restoreGpo FitsRestore
  cases hguid : snapshot.guid with
  | none =>
      refine ⟨h, iff_of_true ⟨Ending.noConfusion, hwell⟩ ?_⟩
      exact fun _ heq => absurd heq.symm (Option.some_ne_none _)
  | some guid =>
      dsimp only
      by_cases hrefused : (snapshot.gpo.displayName = "" || (Dict.get tables.gpos guid).isSome ||
          (named tables.gpos snapshot.gpo.displayName).isSome || !shared) = true
      · rw [if_pos hrefused]
        refine ⟨h, iff_of_true ⟨Ending.noConfusion, hwell⟩ ?_⟩
        rintro guid' heq hname hfree hunnamed hshared
        obtain rfl := Option.some.inj heq
        simp [hname, hfree, hunnamed, hshared] at hrefused
      · rw [if_neg hrefused]
        let made : Tables D := { tables with gpos := tables.gpos ++ [(guid, { snapshot.gpo with version := 0 })] }
        have hmade : Sound made := h.gpos _
        obtain ⟨hsound, hresult⟩ := restoreLinks_spec containers guid tables snapshot.links hmade fun _ _ => rfl
        refine ⟨hsound, ?_⟩
        simp only [Bool.or_eq_true, not_or, decide_eq_true_eq] at hrefused
        obtain ⟨⟨⟨hname, htaken⟩, hnamed⟩, hshared⟩ := hrefused
        have hfree := Option.not_isSome_iff_eq_none.mp htaken
        have hunnamed := Option.not_isSome_iff_eq_none.mp hnamed
        have hiff : (restoreLinks containers guid snapshot.links made).1 ≠ .taken ∧
            WellFormed (restoreLinks containers guid snapshot.links made).2.orders ↔
              NextIn tables.orders (comesBack containers guid tables snapshot.links) := by
          rw [← hwell.append_iff, ← broughtBack_eq]
          rcases hresult with ⟨hending, horders⟩ | ⟨hending, hbroken⟩
          · rw [hending, horders]
            exact ⟨fun hboth => hboth.2, fun hwell => ⟨Ending.noConfusion, hwell⟩⟩
          · rw [hending]
            exact iff_of_false (fun hboth => hboth.1 rfl) hbroken
        refine hiff.trans ⟨?_, fun hall => hall guid rfl hname hfree hunnamed (by simpa using hshared)⟩
        rintro hfits guid' heq - - - -
        obtain rfl := Option.some.inj heq
        exact hfits

section
omit [Runtime]

theorem ids_set {links : List ((String × String) × Link)} {key : String × String} {link link' : Link}
    (hkey : Dict.get links key = some link) (hid : link'.id = link.id) :
    (Dict.set links key link').map (fun entry => entry.2.id) = links.map fun entry => entry.2.id := by
  induction links with
  | nil => cases hkey
  | cons entry links ih =>
      unfold Dict.set
      rw [Dict.get_cons] at hkey
      by_cases h : entry.1 = key
      · rw [if_pos h] at hkey
        rw [if_pos h, List.map_cons, List.map_cons, hid, Option.some.inj hkey]
      · rw [if_neg h] at hkey
        rw [if_neg h, List.map_cons, List.map_cons, ih hkey]

theorem Sound.upsert (h : Sound tables) (key : String × String) (order : Int) (enforced enabled : Bool) :
    Sound (upsert tables key order enforced enabled) := by
  unfold PolicyTables.upsert
  cases hkey : Dict.get tables.links key with
  | none => exact h.insert hkey order enforced enabled
  | some link =>
      have hids := @ids_set tables.links key link { link with order, enforced, enabled } hkey rfl
      refine ⟨Dict.nodup_keys_set h.keys _ _, hids ▸ h.ids, ?_⟩
      intro entry hentry
      rcases Dict.mem_set hentry with hnew | hold
      · rw [hnew]
        exact h.old (key, link) (Dict.mem_of_get hkey)
      · exact h.old entry hold

theorem importLinks_sound (site : Site D) (guid : String) (links : List LinkDoc) (h : Sound tables)
    (report : Report) : Sound (importLinks site guid links tables report).2.1 := by
  fun_induction importLinks site guid links tables report with
  | case3 _ _ _ _ _ _ ih => exact ih h
  | case4 _ _ _ _ _ _ _ _ _ ih => exact ih h
  | case7 => exact h.upsert _ _ _ _
  | case8 _ _ _ _ _ _ _ _ _ _ _ _ ih => exact ih (h.upsert _ _ _ _)
  | _ => exact h

end

theorem importEntry_sound (site : Site D) (request : Import D) (entry : Entry D) (h : Sound tables)
    (report : Report) : Sound (importEntry site request entry tables report).2.1 := by
  rw [importEntry_eq]
  dsimp only
  cases (fate site request tables.gpos entry).guid entry with
  | none => exact h
  | some guid =>
      have hwritten := h.gpos ((fate site request tables.gpos entry).gpos tables.gpos entry)
      exact importLinks_sound site guid _ hwritten _

theorem importEntries_sound (site : Site D) (request : Import D) (entries : List (Entry D)) (h : Sound tables)
    (report : Report) : Sound (importEntries site request entries tables report).2.1 := by
  induction entries generalizing tables report with
  | nil => exact h
  | cons entry entries ih =>
      have hfirst := importEntry_sound site request entry h report
      unfold importEntries
      generalize importEntry site request entry tables report = after at hfirst ⊢
      obtain ⟨ending, tables', report'⟩ := after
      cases ending with
      | completed => exact ih hfirst report'
      | refused => exact hfirst
      | taken => exact hfirst

theorem importGpos_sound (site : Site D) (request : Import D) (h : Sound tables) :
    Sound (importGpos site request tables).2.1 := by
  unfold importGpos
  by_cases hformat : request.format ≠ exportFormat
  · rw [if_pos hformat]
    exact h
  · rw [if_neg hformat]
    cases prepared site request.entries with
    | none => exact h
    | some entries => exact importEntries_sound site request entries h {}

/-- An import: each order it places is free at its turn, and all of them together with those that are there and
stay are in order. -/
def FitsImport (site : Site D) (request : Import D) (tables : Tables D) : Prop :=
  Free tables.orders (placedImport site request tables.gpos).1 ∧
    WellFormed (Dict.update tables.orders (placedImport site request tables.gpos).1)

theorem importGpos_fits (site : Site D) (request : Import D) (tables : Tables D) :
    (importGpos site request tables).1 ≠ .taken ∧ WellFormed (importGpos site request tables).2.1.orders ↔
      FitsImport site request tables := by
  obtain ⟨hfree, htaken⟩ := importGpos_spec site request tables
  unfold FitsImport
  by_cases h : Free tables.orders (placedImport site request tables.gpos).1
  · obtain ⟨hending, horders⟩ := hfree h
    rw [hending, horders]
    refine ⟨fun hboth => ⟨h, hboth.2⟩, fun hboth => ⟨?_, hboth.2⟩⟩
    cases (placedImport site request tables.gpos).2 <;> exact Ending.noConfusion
  · exact iff_of_false (fun hboth => hboth.1 (htaken h)) fun hboth => h hboth.1

/-- The requests that change the links, and the writing of a policy object. -/
inductive Op (D : Type) where
  | writeGpo (guid : String) (gpo : Gpo D)
  | createLink (containers : Containers) (guid target : String) (enforced enabled : Bool)
  | updateLink (id : Nat) (order : Option Int) (enforced enabled : Option Bool)
  | deleteLink (id : Nat)
  | deleteGpo (guid : String)
  | restoreGpo (containers : Containers) (shared : Bool) (snapshot : Snapshot D)
  | importGpos (site : Site D) (request : Import D)

def perform (tables : Tables D) : Op D → Ending × Tables D
  | .writeGpo guid gpo => (.completed, { tables with gpos := Dict.set tables.gpos guid gpo })
  | .createLink containers guid target enforced enabled => createLink containers guid target enforced enabled tables
  | .updateLink id order enforced enabled => updateLink id order enforced enabled tables
  | .deleteLink id => deleteLink id tables
  | .deleteGpo guid => deleteGpo guid tables
  | .restoreGpo containers shared snapshot => restoreGpo containers shared snapshot tables
  | .importGpos site request => ((importGpos site request tables).1, (importGpos site request tables).2.1)

def next (tables : Tables D) (op : Op D) : Tables D := (perform tables op).2

def empty : Tables D := ⟨[], [], 0⟩

/-- No order is taken, and what the request leaves is in order, whether it completes or is refused. -/
def InOrder (tables : Tables D) (op : Op D) : Prop :=
  (perform tables op).1 ≠ .taken ∧ WellFormed (next tables op).orders

def Fits (tables : Tables D) : Op D → Prop
  | .writeGpo _ _ => True
  | .createLink containers guid target _ _ => containers target = true → (Dict.get tables.gpos guid).isSome = true →
      Dict.get tables.links (guid, target) = none → FitsCreate tables target
  | .updateLink id order _ _ => FitsUpdate tables id order
  | .deleteLink id => FitsDelete tables id
  | .deleteGpo guid => FitsGpo tables guid
  | .restoreGpo containers shared snapshot => FitsRestore containers shared snapshot tables
  | .importGpos site request => FitsImport site request tables

theorem perform_spec (h : Sound tables) (hwell : WellFormed tables.orders) (op : Op D) :
    Sound (next tables op) ∧ (InOrder tables op ↔ Fits tables op) := by
  cases op with
  | writeGpo guid gpo => exact ⟨h.gpos _, iff_of_true ⟨Ending.noConfusion, hwell⟩ trivial⟩
  | createLink containers guid target enforced enabled =>
      obtain ⟨hfree, hsound, hiff⟩ := createLink_spec h hwell containers guid target enforced enabled
      exact ⟨hsound, (and_iff_right hfree).trans hiff⟩
  | updateLink id order enforced enabled =>
      obtain ⟨hfree, hsound, hiff⟩ := updateLink_spec h hwell id order enforced enabled
      exact ⟨hsound, (and_iff_right hfree).trans hiff⟩
  | deleteLink id =>
      obtain ⟨hfree, hsound, hiff⟩ := deleteLink_spec h hwell id
      exact ⟨hsound, (and_iff_right hfree).trans hiff⟩
  | deleteGpo guid =>
      obtain ⟨hfree, hsound, hiff⟩ := deleteGpo_spec h hwell guid
      exact ⟨hsound, (and_iff_right hfree).trans hiff⟩
  | restoreGpo containers shared snapshot => exact restoreGpo_spec h hwell containers shared snapshot
  | importGpos site request => exact ⟨importGpos_sound site request h, importGpos_fits site request tables⟩

theorem wellFormed_empty : WellFormed (empty : Tables D).orders := fun _ => numbered_nil

/-- The links stay in order in just the runs in which every request fits what is there. -/
theorem links_in_order_iff (ops : List (Op D)) :
    Steps.Each next InOrder empty ops ↔ Steps.Each next Fits empty ops := by
  have hkeeps : ∀ (tables : Tables D) op, Sound tables ∧ WellFormed tables.orders → InOrder tables op →
      Sound (next tables op) ∧ WellFormed (next tables op).orders :=
    fun _ op hkept hgood => ⟨(perform_spec hkept.1 hkept.2 op).1, hgood.2⟩
  apply Steps.each_iff hkeeps fun _ op hkept => (perform_spec hkept.1 hkept.2 op).2
  exact ⟨⟨List.nodup_nil, List.nodup_nil, fun _ hmem => absurd hmem List.not_mem_nil⟩, wellFormed_empty⟩

omit [Runtime] in
/-- Two policy objects are linked to a container, and the first of them is deleted: the order of the link that
stays is two. -/
theorem deletion_leaves_gap :
    letI := Runtime.latin
    let gpo : String → Gpo Unit := fun name => ⟨name, "", true, (), (), (), 1⟩
    let ops : List (Op Unit) := [.writeGpo "a" (gpo "Updates"), .writeGpo "b" (gpo "Firewall"),
      .createLink (fun _ => true) "a" "OU=Sales" false true, .createLink (fun _ => true) "b" "OU=Sales" false true]
    let before := ops.foldl next empty
    (perform before (.deleteGpo "a")).1 = .completed ∧ ¬ WellFormed (next before (.deleteGpo "a")).orders := by
  let _ := Runtime.latin
  refine ⟨by decide +kernel, fun hwell => ?_⟩
  have hnumbers := ((hwell "OU=Sales").mem_iff 1).mpr
  revert hnumbers
  decide +kernel

end OpenDirectory.PolicyTables
