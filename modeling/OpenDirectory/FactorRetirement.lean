import OpenDirectory.Steps
import OpenDirectory.Value

/-! The second factors people have enrolled, and the policy objects that ask for them. An update of an object
retires what the object no longer asks for, by what the object alone said before; a rollback, a removal and
an import that replaces the object retire nothing. -/

namespace OpenDirectory.FactorRetirement

variable [Runtime]

inductive Method where
  | code
  | push
  deriving DecidableEq

/-- The setting of a policy object. -/
structure Factor where
  enabled : Bool := true
  method : Method := .code
  requirePrincipals : List String := []
  exemptPrincipals : List String := []
  deriving DecidableEq

structure Gpo where
  enabled : Bool
  secondFactor : Option Factor

/-- The account names in a group, at any depth and in lower case. -/
abbrev Directory := String → List String

/-- Everybody, everybody but these, or only these. -/
inductive Covered where
  | all
  | except (names : List String)
  | only (names : List String)

/-- `principal.lstrip("%")` -/
def bareName (principal : String) : String := String.ofList (principal.toList.dropWhile (· = '%'))

def entitledPrincipals (directory : Directory) (require exempt : List String) : Covered :=
  let excluded := exempt.map fun name => lower (bareName name)
  if require = [] then if excluded = [] then .all else .except excluded
  else
    let wanted := require.flatMap fun principal =>
      if principal.toList.head? = some '%' then directory (bareName principal) else [lower (bareName principal)]
    .only (wanted.filter fun name => name ∉ excluded)

omit [Runtime] in
/-- The names are in lower case already. -/
def Covered.has (account : String) : Covered → Bool
  | .all => true
  | .except names => account ∉ names
  | .only names => account ∈ names

def Factor.covers (factor : Factor) (directory : Directory) (account : String) : Bool :=
  (entitledPrincipals directory factor.requirePrincipals factor.exemptPrincipals).has account

/-- An object that is not enabled asks for nothing. -/
def Gpo.asks (gpo : Gpo) (directory : Directory) (method : Method) (account : String) : Bool :=
  gpo.enabled && gpo.secondFactor.any fun factor =>
    factor.enabled && factor.method = method && factor.covers directory account

/-- An enrolment, and whether some request has stopped asking for it since it was made. -/
structure Row where
  method : Method
  principal : String
  dropped : Bool := false
  deriving DecidableEq

/-- `lower(split_part(principal, '@', 1))` -/
def Row.account (row : Row) : String := lower (String.ofList (row.principal.toList.takeWhile (· ≠ '@')))

structure World where
  gpos : List (String × Gpo)
  /-- What an object said before a change, with the object. -/
  revisions : List (String × Gpo)
  enrolled : List Row

def asks (gpos : List (String × Gpo)) (directory : Directory) (row : Row) : Bool :=
  gpos.any fun entry => entry.2.asks directory row.method row.account

omit [Runtime] in
/-- Turned off or taken out: both. Switched from one method to the other: the one it left. -/
def methodsNoLongerAskedFor (old new : Option Factor) : List Method :=
  match old with
  | none => []
  | some before =>
      if !before.enabled then []
      else
        match new with
        | none => [.code, .push]
        | some after =>
            if !after.enabled then [.code, .push]
            else if before.method ≠ after.method then [before.method] else []

def retireEnrolments (wanted : Covered) (methods : List Method) (rows : List Row) : List Row :=
  rows.filter fun row => !(row.method ∈ methods && wanted.has row.account)

/-- `reached` tells whether the request gets this far and the directory answers. -/
def retireSecondFactors (directory : Directory) (reached : Bool) (before after : Gpo) (rows : List Row) : List Row :=
  let methods := methodsNoLongerAskedFor before.secondFactor after.secondFactor
  if methods = [] || !reached then rows
  else
    let old := before.secondFactor.getD {}
    retireEnrolments (entitledPrincipals directory old.requirePrincipals old.exemptPrincipals) methods rows

inductive Op where
  | createGpo (guid : String) (gpo : Gpo)
  | updateGpo (guid : String) (enabled : Option Bool) (secondFactor : Option (Option Factor)) (reached : Bool)
  | rollbackGpo (revision : Nat)
  | deleteGpo (guid : String)
  /-- An import that overwrites the object of the same name. -/
  | replaceGpo (guid : String) (gpo : Gpo)
  | enrol (method : Method) (principal : String)

/-- A request, and the directory at the time. -/
structure Move where
  directory : Directory
  op : Op

omit [Runtime] in
/-- What an update leaves out stays. -/
def Gpo.updated (gpo : Gpo) (enabled : Option Bool) (secondFactor : Option (Option Factor)) : Gpo :=
  ⟨enabled.getD gpo.enabled, secondFactor.getD gpo.secondFactor⟩

def perform (world : World) (move : Move) : World :=
  match move.op with
  | .createGpo guid gpo =>
      if (Dict.get world.gpos guid).isSome then world else { world with gpos := world.gpos ++ [(guid, gpo)] }
  | .updateGpo guid enabled secondFactor reached =>
      match Dict.get world.gpos guid with
      | none => world
      | some before =>
          let after := before.updated enabled secondFactor
          { gpos := Dict.set world.gpos guid after
            revisions := world.revisions ++ [(guid, before)]
            enrolled := retireSecondFactors move.directory reached before after world.enrolled }
  | .rollbackGpo revision =>
      match world.revisions[revision]? with
      | none => world
      | some (guid, after) =>
          match Dict.get world.gpos guid with
          | none => world
          | some before =>
              { world with
                gpos := Dict.set world.gpos guid after
                revisions := world.revisions ++ [(guid, before)] }
  | .deleteGpo guid =>
      if (Dict.get world.gpos guid).isNone then world
      else
        { world with
          gpos := Dict.erase world.gpos guid
          revisions := world.revisions.filter fun entry => entry.1 ≠ guid }
  | .replaceGpo guid gpo =>
      if (Dict.get world.gpos guid).isNone then world else { world with gpos := Dict.set world.gpos guid gpo }
  | .enrol method principal =>
      if world.enrolled.any fun row => row.method = method && row.principal = principal then world
      else { world with enrolled := world.enrolled ++ [{ method, principal }] }

/-- A request stops asking for an enrolment: an object asked for it before, and none does after. -/
def Row.marked (row : Row) (directory : Directory) (before after : List (String × Gpo)) : Row :=
  { row with dropped := row.dropped || (asks before directory row && !asks after directory row) }

def next (world : World) (move : Move) : World :=
  let after := perform world move
  { after with enrolled := after.enrolled.map fun row => row.marked move.directory world.gpos after.gpos }

def start : World := ⟨[], [], []⟩

variable {gpos : List (String × Gpo)} {directory : Directory} {guid : String}

theorem asks_iff (hkeys : (Dict.keys gpos).Nodup) (row : Row) : asks gpos directory row = true ↔
    ∃ guid gpo, Dict.get gpos guid = some gpo ∧ gpo.asks directory row.method row.account = true := by
  unfold asks
  rw [List.any_eq_true]
  constructor
  · rintro ⟨entry, hentry, hasks⟩
    exact ⟨entry.1, entry.2, Dict.get_of_mem hkeys hentry, hasks⟩
  · rintro ⟨guid, gpo, hget, hasks⟩
    exact ⟨(guid, gpo), Dict.mem_of_get hget, hasks⟩

/-- Another object than this one asks for the enrolment. -/
def OthersAsk (gpos : List (String × Gpo)) (directory : Directory) (guid : String) (row : Row) : Prop :=
  ∃ entry ∈ gpos, entry.1 ≠ guid ∧ entry.2.asks directory row.method row.account = true

theorem othersAsk_iff (hkeys : (Dict.keys gpos).Nodup) (row : Row) : OthersAsk gpos directory guid row ↔
    ∃ other gpo, other ≠ guid ∧ Dict.get gpos other = some gpo ∧
      gpo.asks directory row.method row.account = true := by
  constructor
  · rintro ⟨entry, hentry, hother, hasks⟩
    exact ⟨entry.1, entry.2, hother, Dict.get_of_mem hkeys hentry, hasks⟩
  · rintro ⟨other, gpo, hother, hget, hasks⟩
    exact ⟨(other, gpo), Dict.mem_of_get hget, hother, hasks⟩

theorem asks_of_get (hkeys : (Dict.keys gpos).Nodup) {before : Gpo} (hget : Dict.get gpos guid = some before)
    (row : Row) : asks gpos directory row = true ↔
      OthersAsk gpos directory guid row ∨ before.asks directory row.method row.account = true := by
  rw [asks_iff hkeys, othersAsk_iff hkeys]
  constructor
  · rintro ⟨other, gpo, hother, hasks⟩
    by_cases hsame : other = guid
    · subst hsame
      rw [hget] at hother
      exact .inr (Option.some.inj hother ▸ hasks)
    · exact .inl ⟨other, gpo, hsame, hother, hasks⟩
  · rintro (⟨other, gpo, -, hother, hasks⟩ | hasks)
    · exact ⟨other, gpo, hother, hasks⟩
    · exact ⟨guid, before, hget, hasks⟩

theorem othersAsk_set (hkeys : (Dict.keys gpos).Nodup) (after : Gpo) (row : Row) :
    OthersAsk (Dict.set gpos guid after) directory guid row ↔ OthersAsk gpos directory guid row := by
  rw [othersAsk_iff (Dict.nodup_keys_set hkeys _ _), othersAsk_iff hkeys]
  have hget : ∀ other, other ≠ guid → Dict.get (Dict.set gpos guid after) other = Dict.get gpos other :=
    fun other hother => Dict.get_set_of_ne _ _ hother.symm
  constructor
  · rintro ⟨other, gpo, hother, hthere, hasks⟩
    exact ⟨other, gpo, hother, hget other hother ▸ hthere, hasks⟩
  · rintro ⟨other, gpo, hother, hthere, hasks⟩
    exact ⟨other, gpo, hother, (hget other hother).trans hthere, hasks⟩

theorem asks_set (hkeys : (Dict.keys gpos).Nodup) (after : Gpo) (row : Row) :
    asks (Dict.set gpos guid after) directory row = true ↔
      OthersAsk gpos directory guid row ∨ after.asks directory row.method row.account = true := by
  have hget : Dict.get (Dict.set gpos guid after) guid = some after := by
    rw [Dict.get_set, if_pos rfl]
  rw [asks_of_get (Dict.nodup_keys_set hkeys _ _) hget, othersAsk_set hkeys]

theorem asks_erase (row : Row) :
    asks (Dict.erase gpos guid) directory row = true ↔ OthersAsk gpos directory guid row := by
  unfold asks OthersAsk Dict.erase
  rw [List.any_eq_true]
  constructor
  · rintro ⟨entry, hentry, hasks⟩
    obtain ⟨hthere, hother⟩ := List.mem_filter.mp hentry
    exact ⟨entry, hthere, of_decide_eq_true hother, hasks⟩
  · rintro ⟨entry, hthere, hother, hasks⟩
    exact ⟨entry, List.mem_filter.mpr ⟨hthere, decide_eq_true hother⟩, hasks⟩

theorem mem_retireSecondFactors {before after : Gpo} {reached : Bool} {rows : List Row} {row : Row} :
    row ∈ retireSecondFactors directory reached before after rows ↔ row ∈ rows ∧
      ¬ (row.method ∈ methodsNoLongerAskedFor before.secondFactor after.secondFactor ∧ reached = true ∧
        (before.secondFactor.getD {}).covers directory row.account = true) := by
  unfold retireSecondFactors retireEnrolments
  dsimp only
  by_cases hnone : (decide (methodsNoLongerAskedFor before.secondFactor after.secondFactor = []) || !reached) = true
  · rw [if_pos hnone]
    refine ⟨fun hrow => ⟨hrow, ?_⟩, fun hboth => hboth.1⟩
    rintro ⟨hmethod, hreached, -⟩
    rw [hreached, Bool.not_true, Bool.or_false, decide_eq_true_eq] at hnone
    rw [hnone] at hmethod
    exact List.not_mem_nil hmethod
  · rw [if_neg hnone, List.mem_filter]
    have hreached : reached = true := by
      cases reached with
      | true => rfl
      | false => exact absurd (Bool.or_true _) hnone
    simp [hreached, Factor.covers, imp_iff_not_or]

/-- The object a request is about. -/
def Op.gpo (world : World) : Op → Option String
  | .createGpo guid _ | .updateGpo guid _ _ _ | .deleteGpo guid | .replaceGpo guid _ => some guid
  | .rollbackGpo revision => world.revisions[revision]?.map Prod.fst
  | .enrol _ _ => none

/-- An enrolment is still asked for, or no request has stopped asking for it; and none that goes is asked for by
another object. -/
structure Truthful (world : World) (move : Move) : Prop where
  asked : ∀ row ∈ (next world move).enrolled,
    asks (next world move).gpos move.directory row = true ∨ row.dropped = false
  kept : ∀ row ∈ world.enrolled, row ∉ (perform world move).enrolled →
    ∀ guid, move.op.gpo world = some guid → ¬ OthersAsk world.gpos move.directory guid row

/-- Each enrolment the object asked for is one that it, or another, asks for after the change. -/
def StillAsked (world : World) (directory : Directory) (guid : String) (after : Option Gpo) : Prop :=
  ∀ before, Dict.get world.gpos guid = some before → ∀ row ∈ world.enrolled,
    before.asks directory row.method row.account = true → OthersAsk world.gpos directory guid row ∨
      ∃ gpo, after = some gpo ∧ gpo.asks directory row.method row.account = true

/-- An update: what the object asked for and no object asks for any more is of a method that the object leaves,
and the directory answers; and of the methods that the object leaves, no enrolment that it covered is asked for by
another object. -/
def FitsUpdate (world : World) (directory : Directory) (guid : String) (enabled : Option Bool)
    (secondFactor : Option (Option Factor)) (reached : Bool) : Prop :=
  ∀ before, Dict.get world.gpos guid = some before → ∀ row ∈ world.enrolled,
    let methods := methodsNoLongerAskedFor before.secondFactor (before.updated enabled secondFactor).secondFactor
    (before.asks directory row.method row.account = true → ¬ OthersAsk world.gpos directory guid row →
      (before.updated enabled secondFactor).asks directory row.method row.account = false →
        row.method ∈ methods ∧ reached = true) ∧
    (row.method ∈ methods → reached = true →
      (before.secondFactor.getD {}).covers directory row.account = true →
        ¬ OthersAsk world.gpos directory guid row)

def Fits (world : World) (move : Move) : Prop :=
  match move.op with
  | .createGpo _ _ | .enrol _ _ => True
  | .updateGpo guid enabled secondFactor reached =>
      FitsUpdate world move.directory guid enabled secondFactor reached
  | .rollbackGpo revision => ∀ guid after, world.revisions[revision]? = some (guid, after) →
      StillAsked world move.directory guid (some after)
  | .deleteGpo guid => StillAsked world move.directory guid none
  | .replaceGpo guid gpo => StillAsked world move.directory guid (some gpo)

/-- No request has stopped asking for an enrolment that is there. -/
structure Sound (world : World) : Prop where
  keys : (Dict.keys world.gpos).Nodup
  dropped : ∀ row ∈ world.enrolled, row.dropped = false

variable {world : World}

theorem perform_sound (h : Sound world) (move : Move) : Sound (perform world move) := by
  obtain ⟨directory, op⟩ := move
  unfold perform
  cases op with
  | createGpo guid gpo =>
      dsimp only
      by_cases hthere : (Dict.get world.gpos guid).isSome = true
      · rw [if_pos hthere]
        exact h
      · rw [if_neg hthere, ← Dict.set_of_not_mem (mt Dict.get_isSome_iff.mpr hthere)]
        exact ⟨Dict.nodup_keys_set h.keys _ _, h.dropped⟩
  | updateGpo guid enabled secondFactor reached =>
      dsimp only
      cases Dict.get world.gpos guid with
      | none => exact h
      | some before =>
          refine ⟨Dict.nodup_keys_set h.keys _ _, fun row hrow => ?_⟩
          exact h.dropped row (mem_retireSecondFactors.mp hrow).1
  | rollbackGpo revision =>
      dsimp only
      cases world.revisions[revision]? with
      | none => exact h
      | some entry =>
          dsimp only
          cases Dict.get world.gpos entry.1 with
          | none => exact h
          | some before => exact ⟨Dict.nodup_keys_set h.keys _ _, h.dropped⟩
  | deleteGpo guid =>
      dsimp only
      by_cases hthere : (Dict.get world.gpos guid).isNone = true
      · rw [if_pos hthere]
        exact h
      · rw [if_neg hthere]
        exact ⟨(List.filter_sublist.map _).nodup h.keys, h.dropped⟩
  | replaceGpo guid gpo =>
      dsimp only
      by_cases hthere : (Dict.get world.gpos guid).isNone = true
      · rw [if_pos hthere]
        exact h
      · rw [if_neg hthere]
        exact ⟨Dict.nodup_keys_set h.keys _ _, h.dropped⟩
  | enrol method principal =>
      dsimp only
      by_cases hthere : (world.enrolled.any fun row => row.method = method && row.principal = principal) = true
      · rw [if_pos hthere]
        exact h
      · rw [if_neg hthere]
        refine ⟨h.keys, fun row hrow => ?_⟩
        rcases List.mem_append.mp hrow with hold | hnew
        · exact h.dropped row hold
        · rw [List.mem_singleton.mp hnew]

theorem asked_iff {world : World} {move : Move} (h : Sound world) :
    (∀ row ∈ (next world move).enrolled,
        asks (next world move).gpos move.directory row = true ∨ row.dropped = false) ↔
      ∀ row ∈ (perform world move).enrolled, asks world.gpos move.directory row = true →
        asks (perform world move).gpos move.directory row = true := by
  have hdropped := (perform_sound h move).dropped
  constructor
  · intro hall row hrow hbefore
    have hmarked := hall (row.marked move.directory world.gpos (perform world move).gpos) (List.mem_map_of_mem hrow)
    rcases hmarked with hasks | hfree
    · exact hasks
    · unfold Row.marked at hfree
      rw [hdropped row hrow, hbefore, Bool.false_or, Bool.true_and, Bool.not_eq_false'] at hfree
      exact hfree
  · intro hall marked hmarked
    obtain ⟨row, hrow, rfl⟩ := List.mem_map.mp hmarked
    by_cases hafter : asks (perform world move).gpos move.directory row = true
    · exact .inl hafter
    · refine .inr ?_
      have hbefore : asks world.gpos move.directory row = false := by
        cases hasked : asks world.gpos move.directory row with
        | false => rfl
        | true => exact absurd (hall row hrow hasked) hafter
      unfold Row.marked
      rw [hdropped row hrow, hbefore]
      rfl

theorem truthful_iff_of_kept {world : World} {move : Move} (h : Sound world)
    (hkept : ∀ row ∈ world.enrolled, row ∈ (perform world move).enrolled) : Truthful world move ↔
      ∀ row ∈ (perform world move).enrolled, asks world.gpos move.directory row = true →
        asks (perform world move).gpos move.directory row = true := by
  have hiff := @asked_iff _ world move h
  exact ⟨fun htruthful => hiff.mp htruthful.asked,
    fun hall => ⟨hiff.mpr hall, fun row hrow hgone => absurd (hkept row hrow) hgone⟩⟩

theorem truthful_of_same {move : Move} (h : Sound world) (hsame : perform world move = world) :
    Truthful world move := by
  apply (truthful_iff_of_kept h (by rw [hsame]; exact fun _ hrow => hrow)).mpr
  rw [hsame]
  exact fun _ _ hasks => hasks

theorem changed_iff (h : Sound world) {move : Move} {before : Gpo}
    (hget : Dict.get world.gpos guid = some before) {after : Option Gpo}
    (henrolled : (perform world move).enrolled = world.enrolled)
    (hafter : ∀ row, asks (perform world move).gpos move.directory row = true ↔
      OthersAsk world.gpos move.directory guid row ∨
        ∃ gpo, after = some gpo ∧ gpo.asks move.directory row.method row.account = true) :
    Truthful world move ↔ StillAsked world move.directory guid after := by
  have hiff := @truthful_iff_of_kept _ world move h fun row hrow => by rwa [henrolled]
  rw [hiff, henrolled]
  unfold StillAsked
  constructor
  · intro hall before' hget' row hrow hasks
    obtain rfl : before = before' := Option.some.inj (hget.symm.trans hget')
    exact (hafter row).mp (hall row hrow ((asks_of_get h.keys hget row).mpr (.inr hasks)))
  · intro hall row hrow hasks
    rcases (asks_of_get h.keys hget row).mp hasks with hothers | hasks
    · exact (hafter row).mpr (.inl hothers)
    · exact (hafter row).mpr (hall before hget row hrow hasks)

theorem updateGpo_iff (h : Sound world) (enabled : Option Bool)
    (secondFactor : Option (Option Factor)) (reached : Bool) :
    Truthful world ⟨directory, .updateGpo guid enabled secondFactor reached⟩ ↔
      FitsUpdate world directory guid enabled secondFactor reached := by
  let move : Move := ⟨directory, .updateGpo guid enabled secondFactor reached⟩
  cases hget : Dict.get world.gpos guid with
  | none =>
      have hsame : perform world move = world := by
        unfold perform
        dsimp only [move]
        rw [hget]
      refine iff_of_true (truthful_of_same h hsame) ?_
      exact fun before hthere => absurd (hget.symm.trans hthere) (Option.some_ne_none _).symm
  | some before =>
      let after := before.updated enabled secondFactor
      have hperform : perform world move = ⟨Dict.set world.gpos guid after, world.revisions ++ [(guid, before)],
          retireSecondFactors directory reached before after world.enrolled⟩ := by
        unfold perform
        dsimp only [move]
        rw [hget]
      have hmem : ∀ row, row ∈ (perform world move).enrolled ↔ row ∈ world.enrolled ∧
          ¬ (row.method ∈ methodsNoLongerAskedFor before.secondFactor after.secondFactor ∧ reached = true ∧
            (before.secondFactor.getD {}).covers directory row.account = true) := by
        intro row
        rw [hperform]
        exact mem_retireSecondFactors
      have hgpos : (perform world move).gpos = Dict.set world.gpos guid after := by rw [hperform]
      -- What the object asks for it also covers.
      have hcovers : ∀ row : Row, before.asks directory row.method row.account = true →
          (before.secondFactor.getD {}).covers directory row.account = true := by
        intro row hasks
        unfold Gpo.asks at hasks
        obtain ⟨factor, hfactor, hboth⟩ := (Option.any_eq_true _ _).mp (Bool.and_eq_true_iff.mp hasks).2
        rw [hfactor]
        exact (Bool.and_eq_true_iff.mp hboth).2
      constructor
      · intro htruthful before' hget' row hrow
        obtain rfl : before = before' := Option.some.inj (hget.symm.trans hget')
        constructor
        · intro hasks hothers hends
          by_contra hnot
          have hstays : row ∈ (perform world move).enrolled :=
            (hmem row).mpr ⟨hrow, fun hgoes => hnot ⟨hgoes.1, hgoes.2.1⟩⟩
          have hafter := (asked_iff h).mp htruthful.asked row hstays
            ((asks_of_get h.keys hget row).mpr (.inr hasks))
          rw [hgpos, asks_set h.keys] at hafter
          rcases hafter with hafter | hafter
          · exact hothers hafter
          · exact Bool.false_ne_true (hends.symm.trans hafter)
        · intro hmethod hreached hcovered
          apply htruthful.kept row hrow _ guid rfl
          exact fun hstays => ((hmem row).mp hstays).2 ⟨hmethod, hreached, hcovered⟩
      · intro hfits
        constructor
        · refine (asked_iff h).mpr fun row hrow hasks => ?_
          obtain ⟨hrow, hstays⟩ := (hmem row).mp hrow
          rw [hgpos, asks_set h.keys]
          rcases (asks_of_get h.keys hget row).mp hasks with hothers | hasks
          · exact .inl hothers
          · by_contra hnot
            obtain ⟨hothers, hends⟩ := not_or.mp hnot
            obtain ⟨hmethod, hreached⟩ := (hfits before hget row hrow).1 hasks hothers (Bool.eq_false_iff.mpr hends)
            exact hstays ⟨hmethod, hreached, hcovers row hasks⟩
        · intro row hrow hgone guid' heq
          obtain rfl : guid = guid' := Option.some.inj heq
          have hgoes := not_not.mp fun hstays => hgone ((hmem row).mpr ⟨hrow, hstays⟩)
          exact (hfits before hget row hrow).2 hgoes.1 hgoes.2.1 hgoes.2.2

theorem stillAsked_of_none (hget : Dict.get world.gpos guid = none) (after : Option Gpo) :
    StillAsked world directory guid after :=
  fun _ hthere => absurd (hget.symm.trans hthere) (Option.some_ne_none _).symm

theorem asks_set_some (hkeys : (Dict.keys gpos).Nodup) (after : Gpo) (row : Row) :
    asks (Dict.set gpos guid after) directory row = true ↔ OthersAsk gpos directory guid row ∨
      ∃ gpo, some after = some gpo ∧ gpo.asks directory row.method row.account = true := by
  rw [asks_set hkeys]
  apply or_congr_right
  constructor
  · exact fun hasks => ⟨after, rfl, hasks⟩
  · rintro ⟨gpo, heq, hasks⟩
    exact Option.some.inj heq ▸ hasks

theorem truthful_iff (h : Sound world) (move : Move) : Truthful world move ↔ Fits world move := by
  obtain ⟨directory, op⟩ := move
  cases op with
  | updateGpo guid enabled secondFactor reached => exact updateGpo_iff h enabled secondFactor reached
  | createGpo guid gpo =>
      refine iff_of_true ?_ trivial
      by_cases hthere : (Dict.get world.gpos guid).isSome = true
      · exact truthful_of_same h (if_pos hthere)
      · have hadds : perform world ⟨directory, .createGpo guid gpo⟩ =
            { world with gpos := world.gpos ++ [(guid, gpo)] } := if_neg hthere
        apply (truthful_iff_of_kept h (by rw [hadds]; exact fun _ hrow => hrow)).mpr
        intro row _ hasks
        rw [hadds]
        unfold asks at hasks ⊢
        rw [List.any_append, hasks, Bool.true_or]
  | enrol method principal =>
      refine iff_of_true ?_ trivial
      by_cases hthere : (world.enrolled.any fun row => row.method = method && row.principal = principal) = true
      · exact truthful_of_same h (if_pos hthere)
      · have hadds : perform world ⟨directory, .enrol method principal⟩ =
            { world with enrolled := world.enrolled ++ [{ method, principal }] } := if_neg hthere
        apply (truthful_iff_of_kept h (by rw [hadds]; exact fun _ => List.mem_append_left _)).mpr
        rw [hadds]
        exact fun _ _ hasks => hasks
  | rollbackGpo revision =>
      unfold Fits
      dsimp only
      cases hrevision : world.revisions[revision]? with
      | none =>
          refine iff_of_true (truthful_of_same h ?_) fun _ _ heq => absurd heq (Option.some_ne_none _).symm
          unfold perform
          dsimp only
          rw [hrevision]
      | some entry =>
          obtain ⟨guid, after⟩ := entry
          have hone : (∀ guid' after', some (guid, after) = some (guid', after') →
              StillAsked world directory guid' (some after')) ↔ StillAsked world directory guid (some after) := by
            constructor
            · exact fun hall => hall guid after rfl
            · rintro hasked guid' after' heq
              obtain ⟨rfl, rfl⟩ := Prod.mk.inj (Option.some.inj heq)
              exact hasked
          rw [hone]
          cases hget : Dict.get world.gpos guid with
          | none =>
              refine iff_of_true (truthful_of_same h ?_) (stillAsked_of_none hget _)
              unfold perform
              dsimp only
              rw [hrevision]
              dsimp only
              rw [hget]
          | some before =>
              have hperform : perform world ⟨directory, .rollbackGpo revision⟩ =
                  { world with
                    gpos := Dict.set world.gpos guid after
                    revisions := world.revisions ++ [(guid, before)] } := by
                unfold perform
                dsimp only
                rw [hrevision]
                dsimp only
                rw [hget]
              refine changed_iff h hget (by rw [hperform]) fun row => ?_
              rw [hperform]
              exact asks_set_some h.keys after row
  | deleteGpo guid =>
      cases hget : Dict.get world.gpos guid with
      | none => exact iff_of_true (truthful_of_same h (if_pos (by rw [hget]; rfl))) (stillAsked_of_none hget _)
      | some before =>
          have hperform : perform world ⟨directory, .deleteGpo guid⟩ =
              { world with
                gpos := Dict.erase world.gpos guid
                revisions := world.revisions.filter fun entry => entry.1 ≠ guid } := if_neg (by rw [hget]; simp)
          refine changed_iff h hget (by rw [hperform]) fun row => ?_
          rw [hperform]
          refine asks_erase row |>.trans ⟨.inl, fun hor => hor.elim id ?_⟩
          rintro ⟨gpo, heq, -⟩
          exact absurd heq.symm (Option.some_ne_none _)
  | replaceGpo guid gpo =>
      cases hget : Dict.get world.gpos guid with
      | none => exact iff_of_true (truthful_of_same h (if_pos (by rw [hget]; rfl))) (stillAsked_of_none hget _)
      | some before =>
          have hperform : perform world ⟨directory, .replaceGpo guid gpo⟩ =
              { world with gpos := Dict.set world.gpos guid gpo } := if_neg (by rw [hget]; simp)
          refine changed_iff h hget (by rw [hperform]) fun row => ?_
          rw [hperform]
          exact asks_set_some h.keys gpo row

theorem next_sound (h : Sound world) {move : Move} (htruthful : Truthful world move) :
    Sound (next world move) := by
  refine ⟨(perform_sound h move).keys, fun marked hmarked => ?_⟩
  rcases htruthful.asked marked hmarked with hasks | hfree
  · obtain ⟨row, hrow, rfl⟩ := List.mem_map.mp hmarked
    have hasks' : asks (perform world move).gpos move.directory row = true := hasks
    unfold Row.marked
    rw [(perform_sound h move).dropped row hrow, hasks', Bool.not_true, Bool.and_false, Bool.or_false]
  · exact hfree

/-- Policy is the source of truth in just the runs in which every request fits. -/
theorem source_of_truth_iff (moves : List Move) :
    Steps.Each next Truthful start moves ↔ Steps.Each next Fits start moves := by
  have hkeeps : ∀ world move, Sound world → Truthful world move → Sound (next world move) :=
    fun _ _ h htruthful => next_sound h htruthful
  apply Steps.each_iff hkeeps fun _ move h => truthful_iff h move
  exact ⟨List.nodup_nil, fun _ hrow => absurd hrow List.not_mem_nil⟩

omit [Runtime] in
/-- The one object that asks for a code is deleted, and the enrolment of somebody it asked stays. -/
theorem deletion_keeps_enrolment :
    letI := Runtime.latin
    ¬ Steps.Each next Truthful start [⟨fun _ => [], .createGpo "a" ⟨true, some {}⟩⟩, ⟨fun _ => [], .enrol .code "alice"⟩,
      ⟨fun _ => [], .deleteGpo "a"⟩] := by
  let _ := Runtime.latin
  rintro ⟨-, -, hdelete, -⟩
  have hrow := hdelete.asked ⟨.code, "alice", true⟩ (by decide +kernel)
  revert hrow
  decide +kernel

end OpenDirectory.FactorRetirement
