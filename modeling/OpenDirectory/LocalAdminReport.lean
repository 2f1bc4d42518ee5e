import OpenDirectory.LocalAdmin

/-! The password a machine sets on its local administrator, on its way to the console. The agent keeps it
in memory until it builds the report of the run, and takes it out before it knows whether the report has
arrived. -/

namespace OpenDirectory.LocalAdmin

structure LocalAdministratorCredential where
  account : String
  password : String
  rotated : Int
  expiresAt : Int

/-- A moment as the report carries it, without its fraction of a second. -/
def rfc3339 (moment : Int) : Int := moment - moment % 10 ^ 9

def PendingLocalAdministrator.credential (pending : PendingLocalAdministrator) : LocalAdministratorCredential where
  account := pending.account
  password := pending.password
  rotated := rfc3339 pending.rotated
  expiresAt := rfc3339 pending.expiresAt

/-- What the console takes; it refuses the whole report otherwise. -/
def LocalAdministratorCredential.fits (credential : LocalAdministratorCredential) : Bool :=
  1 ≤ credential.account.length && credential.account.length ≤ 32 && 8 ≤ credential.password.length &&
    credential.password.length ≤ 128

/-- The row of a machine at the console. -/
structure Row where
  account : String
  password : String
  rotatedAt : Int
  expiresAt : Int
  reportedAt : Int

def LocalAdministratorCredential.row (credential : LocalAdministratorCredential) (now : Int) : Row where
  account := credential.account
  password := credential.password
  rotatedAt := credential.rotated
  expiresAt := credential.expiresAt
  reportedAt := now

/-- The console replaces the row only by what a report brings. -/
def agentReport (stored : Option Row) (now : Int) (body : Option LocalAdministratorCredential) : Option Row :=
  match body with
  | none => stored
  | some credential => some (credential.row now)

def takePendingLocalAdministrator (machine : Machine) : Option PendingLocalAdministrator × Machine :=
  (machine.pending, { machine with pending := none })

/-- A policy as the console lets it be saved. -/
def LocalAdministrator.valid (wanted : LocalAdministrator) : Bool :=
  1 ≤ wanted.account.length && wanted.account.length ≤ 32 && 1 ≤ wanted.rotateDays &&
    wanted.rotateDays ≤ 365 && 12 ≤ wanted.length && wanted.length ≤ 128 &&
    match wanted.account.toList with
    | [] => false
    | first :: rest => (('a' ≤ first && first ≤ 'z') || first = '_') &&
        rest.all fun c => ('a' ≤ c && c ≤ 'z') || ('0' ≤ c && c ≤ '9') || c = '_' || c = '-'

theorem length_generatePassword {length : Nat} {draw : Nat → Except String (Fin passwordAlphabet.length)}
    {password : String} (h : generatePassword length draw = .ok password) : password.length = length := by
  unfold generatePassword at h
  cases hdrawn : (List.range length).mapM draw with
  | error error =>
      rw [hdrawn] at h
      cases h
  | ok indices =>
      rw [hdrawn] at h
      cases h
      rw [String.length_ofList, List.length_map, ← (List.mapM_eq_ok_iff.mp hdrawn).length_eq, List.length_range]

theorem fits_of_valid {wanted : LocalAdministrator} (h : wanted.valid)
    {draw : Nat → Except String (Fin passwordAlphabet.length)} {password : String}
    (hdrawn : generatePassword (lengthOf wanted) draw = .ok password) (rotated expiresAt : Int) :
    (PendingLocalAdministrator.mk wanted.account password rotated expiresAt).credential.fits := by
  have hlength := length_generatePassword hdrawn
  simp only [LocalAdministrator.valid, Bool.and_eq_true, decide_eq_true_eq] at h
  obtain ⟨⟨⟨⟨⟨⟨hfirst, hlast⟩, _⟩, _⟩, htwelve⟩, hmost⟩, _⟩ := h
  have hof : lengthOf wanted = wanted.length.toNat := by
    unfold lengthOf
    rw [if_neg (by omega)]
  have hleast : 8 ≤ password.length := by omega
  have hunder : password.length ≤ 128 := by omega
  simp only [LocalAdministratorCredential.fits, Bool.and_eq_true, decide_eq_true_eq]
  exact ⟨⟨⟨hfirst, hlast⟩, hleast⟩, hunder⟩

variable {chance : Chance} {machine : Machine} {wanted : LocalAdministrator}
  {policy : Option LocalAdministrator}

/-- The run sets a password. -/
def Sets (chance : Chance) (machine : Machine) (wanted : LocalAdministrator) : Prop :=
  Rotates chance machine wanted ∧ Ready chance wanted ∧ Reaches chance machine wanted.account ∧
    chance.chpasswd.did

instance : Decidable (Sets chance machine wanted) := inferInstanceAs (Decidable (_ ∧ _))

/-- Nothing goes wrong from the moment the password is set to the end of the applier. -/
def Completes (chance : Chance) (wanted : LocalAdministrator) : Prop :=
  chance.chpasswd.isDone ∧ (wanted.administrator → chance.sudoersWritten = none) ∧ chance.saved = .written

theorem taken_pending : (taken chance machine policy).pending = machine.pending := by
  unfold taken
  split_ifs
  · exact removeLocalAdministrator_pending
  · rfl

theorem setUp_pending {password : String} :
    (setUp chance machine wanted password).1.pending = machine.pending := by
  unfold setUp
  rw [andThen_same Machine.pending fun _ => saveLocalAdminState_same Machine.pending fun _ _ => rfl,
    andThen_same Machine.pending fun _ => privilege_same Machine.pending fun _ _ => rfl]
  exact credentialed_same Machine.pending fun _ _ => rfl

theorem reaches_taken :
    Reaches chance (taken chance machine (some wanted)) wanted.account ↔
      Reaches chance machine wanted.account := by
  unfold Reaches Chance.finds
  rw [taken_named]

/-- A password that is set is the agent's and not yet the console's; and it is held for the report if nothing
goes wrong after it. -/
theorem apply_set (h : Sets chance machine wanted) :
    ∃ password there, (applyLocalAdministrator (some wanted) chance machine).1.accounts wanted.account =
        some ⟨some password, there, .owed⟩ ∧
      (Completes chance wanted → ∃ pending,
        (applyLocalAdministrator (some wanted) chance machine).1.pending = some pending ∧
          pending.account = wanted.account ∧ pending.password = password) ∧
      (¬ Completes chance wanted →
        (applyLocalAdministrator (some wanted) chance machine).1.pending = machine.pending) := by
  obtain ⟨hrotates, ⟨⟨password, hdrawn⟩, hrunner⟩, hreaches, hdid⟩ := h
  have hset := @setUp_set chance (taken chance machine (some wanted)) wanted password
    (reaches_taken.mpr hreaches) hdid
  have hended : (setUp chance (taken chance machine (some wanted)) wanted password).2 = none ↔
      Completes chance wanted := by
    rw [setUp_eq_none]
    unfold Saves Completes
    rw [reaches_taken, and_assoc, and_assoc, and_iff_right hreaches]
  rw [applyLocalAdministrator_some, if_pos hrotates, rotate_of_ready hdrawn hrunner]
  refine ⟨password, ((taken chance machine (some wanted)).accounts wanted.account).getD { made := true } |>.made,
    ?_, fun hcompletes => ?_, fun hcompletes => ?_⟩
  · split_ifs <;> exact hset
  · rw [if_pos (hended.mpr hcompletes)]
    exact ⟨_, rfl, rfl, rfl⟩
  · rw [if_neg fun hnone => hcompletes (hended.mp hnone), setUp_pending, taken_pending]

theorem apply_unset {a : String} (h : ∀ other ∈ policy, other.account = a → ¬ Sets chance machine other)
    {account : Account} (hlater : (applyLocalAdministrator policy chance machine).1.accounts a = some account)
    (hstanding : account.standing ≠ .theirs) : machine.accounts a = some account := by
  have htaken : (taken chance machine policy).accounts a = some account → machine.accounts a = some account := by
    intro hthere
    rcases @taken_accounts chance machine policy a with ⟨hnone, _⟩ | ⟨hsame, _⟩
    · rw [hnone] at hthere
      cases hthere
    · exact hsame ▸ hthere
  apply htaken
  cases policy with
  | none => rwa [applyLocalAdministrator_none] at hlater
  | some wanted =>
      rw [applyLocalAdministrator_some] at hlater
      split_ifs at hlater with hrotates
      · rcases @rotate_accounts_record chance (taken chance machine (some wanted)) wanted with
          ⟨hsame, _⟩ | ⟨password, hdrawn, hrunner, hset, _⟩
        · rwa [hsame] at hlater
        · rw [hset] at hlater
          by_cases hnamed : a = wanted.account
          · subst hnamed
            have hnot : ¬ (Reaches chance (taken chance machine (some wanted)) wanted.account ∧
                chance.chpasswd.did) := by
              rw [reaches_taken]
              exact fun hsets => h wanted rfl rfl ⟨hrotates, ⟨⟨password, hdrawn⟩, hrunner⟩, hsets⟩
            rcases @setUp_unset chance _ wanted password hnot with hsame | ⟨_, hlocked⟩
            · rwa [hsame] at hlater
            · rw [hlocked] at hlater
              cases hlater
              exact absurd rfl hstanding
          · rwa [setUp_other hnamed] at hlater
      · exact hlater

theorem apply_pending_unset (h : ∀ other ∈ policy, ¬ Sets chance machine other) :
    (applyLocalAdministrator policy chance machine).1.pending = machine.pending := by
  cases policy with
  | none => rw [applyLocalAdministrator_none, taken_pending]
  | some wanted =>
      rw [applyLocalAdministrator_some, ← @taken_pending chance machine (some wanted)]
      split_ifs with hrotates
      · by_cases hready : Ready chance wanted
        · obtain ⟨⟨password, hdrawn⟩, hrunner⟩ := hready
          rw [rotate_of_ready hdrawn hrunner, if_neg, setUp_pending]
          rw [setUp_eq_none]
          rintro ⟨⟨hreaches, hdone, _⟩, _⟩
          exact h wanted rfl ⟨hrotates, ⟨⟨password, hdrawn⟩, hrunner⟩, reaches_taken.mp hreaches,
            Agent.Ends.did_of_isDone hdone⟩
        · rw [rotate_of_not_ready hready]
      · rfl

structure Reporting where
  machine : Machine
  stored : Option Row := none
  /-- The account whose password was set last. -/
  last : Option String := none
  /-- A run has applied its policy and has not reported yet. -/
  applied : Bool := false
  /-- The last report was accepted, and no run has applied anything since. -/
  accepted : Bool := false

inductive Move where
  | apply (policy : Option LocalAdministrator) (chance : Chance)
  /-- The report of the run. One whose answer is lost has arrived all the same. -/
  | report (arrives : Bool) (now : Int)
  /-- The agent stops, and starts with an empty memory. -/
  | restart

namespace Reporting

/-- The console has the password an account has. -/
def acknowledge (machine : Machine) (credential : LocalAdministratorCredential) : Machine :=
  { machine with
    accounts := fun a => (machine.accounts a).map fun account =>
      if a = credential.account ∧ account.password = some credential.password ∧ account.standing = .owed then
        { account with standing := .accepted }
      else account }

/-- The account whose password was set last, once a run has been through. -/
def lastSet (world : Reporting) (policy : Option LocalAdministrator) (chance : Chance) : Option String :=
  match policy with
  | none => world.last
  | some wanted => if Sets chance world.machine wanted then some wanted.account else world.last

def next (world : Reporting) : Move → Reporting
  | .apply policy chance =>
      -- one run at a time: the one that has applied reports first
      if world.applied then world
      else
        { world with
          machine := (applyLocalAdministrator policy chance world.machine).1
          last := world.lastSet policy chance
          applied := true
          accepted := false }
  | .report arrives now =>
      if world.applied then
        let (pending, machine) := takePendingLocalAdministrator world.machine
        let body := pending.map PendingLocalAdministrator.credential
        if arrives && body.all LocalAdministratorCredential.fits then
          { world with
            machine := body.elim machine (acknowledge machine)
            stored := agentReport world.stored now body
            applied := false
            accepted := true }
        else { world with machine, applied := false }
      else world
  | .restart => { world with machine := { world.machine with pending := none }, applied := false }

def initial (passwords : String → Option (Option String)) : Reporting where
  machine := (World.initial passwords).machine

/-- After a report that was accepted the console has the password of the account that was given one last;
and one that is set and that the console does not have yet is held to be sent. -/
structure Escrowed (world : Reporting) : Prop where
  stored : world.accepted → ∀ a account password, world.last = some a → world.machine.accounts a = some account →
    account.standing ≠ .theirs → account.password = some password →
      ∃ row, world.stored = some row ∧ row.account = a ∧ row.password = password
  held : ∀ a account, world.machine.accounts a = some account → account.standing = .owed →
    ∃ pending, world.machine.pending = some pending ∧ pending.account = a ∧
      account.password = some pending.password

/-- A run that sets a password goes through, and a password that is held reaches the console with the next
report, before the agent stops. -/
def Careful (world : Reporting) : Move → Prop
  | .apply policy chance => world.applied = false → ∀ wanted ∈ policy, Sets chance world.machine wanted →
      Completes chance wanted
  | .report arrives _ => world.applied → ∀ pending, world.machine.pending = some pending →
      arrives ∧ pending.credential.fits
  | .restart => world.machine.pending = none

structure Sound (world : Reporting) : Prop where
  idle : world.applied = false → world.machine.pending = none
  rested : world.accepted → world.applied = false
  pending : ∀ pending, world.machine.pending = some pending → world.last = some pending.account ∧
    ∃ account, world.machine.accounts pending.account = some account ∧
      account.password = some pending.password ∧ account.standing = .owed
  known : ∀ a account, world.last = some a → world.machine.accounts a = some account →
    account.standing = .accepted →
      ∃ row, world.stored = some row ∧ row.account = a ∧ account.password = some row.password

variable {world : Reporting}

theorem Sound.apply (h : Sound world) (policy : Option LocalAdministrator) (chance : Chance) :
    Sound (world.next (.apply policy chance)) := by
  unfold next
  split_ifs with happlied
  · exact h
  · have hnone : world.machine.pending = none := h.idle (by simpa using happlied)
    by_cases hsets : ∃ wanted, policy = some wanted ∧ Sets chance world.machine wanted
    · obtain ⟨wanted, rfl, hsets⟩ := hsets
      have hlast : world.lastSet (some wanted) chance = some wanted.account := if_pos hsets
      obtain ⟨password, there, haccount, hheld, hlost⟩ := apply_set hsets
      refine ⟨nofun, nofun, fun pending hpending => ?_, fun a account ha hthere hstanding => ?_⟩
      · by_cases hcompletes : Completes chance wanted
        · obtain ⟨held, hsome, hnamed, hpassword⟩ := hheld hcompletes
          obtain rfl : held = pending := Option.some.inj (hsome.symm.trans hpending)
          rw [← hnamed] at haccount hlast
          exact ⟨hlast, _, haccount, congrArg some hpassword.symm, rfl⟩
        · rw [hlost hcompletes, hnone] at hpending
          cases hpending
      · obtain rfl : wanted.account = a := Option.some.inj (hlast.symm.trans ha)
        obtain rfl := Option.some.inj (haccount.symm.trans hthere)
        cases hstanding
    · have hnot : ∀ other ∈ policy, ¬ Sets chance world.machine other :=
        fun other hother hset => hsets ⟨other, hother, hset⟩
      have hlast : world.lastSet policy chance = world.last := by
        unfold lastSet
        split
        · rfl
        · exact if_neg (hnot _ rfl)
      refine ⟨nofun, nofun, fun pending hpending => ?_, fun a account ha hthere hstanding => ?_⟩
      · rw [apply_pending_unset hnot, hnone] at hpending
        cases hpending
      · refine h.known a account (hlast.symm.trans ha) ?_ hstanding
        exact apply_unset (fun other hother _ => hnot other hother) hthere (by rw [hstanding]; exact nofun)

theorem acknowledge_of_owed {machine : Machine} {credential : LocalAdministratorCredential} {a : String}
    {account : Account} (h : (acknowledge machine credential).accounts a = some account) :
    ∃ earlier, machine.accounts a = some earlier ∧ account.password = earlier.password ∧
      (account = earlier ∧ ¬ (a = credential.account ∧ earlier.password = some credential.password ∧
          earlier.standing = .owed) ∨
        a = credential.account ∧ earlier.password = some credential.password ∧ account.standing = .accepted) := by
  obtain ⟨earlier, hearlier, heq⟩ := Option.map_eq_some_iff.mp h
  refine ⟨earlier, hearlier, ?_⟩
  split_ifs at heq with hsame
  · subst heq
    exact ⟨rfl, .inr ⟨hsame.1, hsame.2.1, rfl⟩⟩
  · subst heq
    exact ⟨rfl, .inl ⟨rfl, hsame⟩⟩

theorem next_report_taken {arrives : Bool} {now : Int} (happlied : world.applied)
    (htaken : ∀ pending, world.machine.pending = some pending → pending.credential.fits) (harrives : arrives) :
    world.next (.report arrives now) =
      { world with
        machine := (world.machine.pending.map PendingLocalAdministrator.credential).elim
          { world.machine with pending := none } (acknowledge { world.machine with pending := none })
        stored := agentReport world.stored now (world.machine.pending.map PendingLocalAdministrator.credential)
        applied := false
        accepted := true } := by
  have hfits : (world.machine.pending.map PendingLocalAdministrator.credential).all
      LocalAdministratorCredential.fits := by
    cases hpending : world.machine.pending with
    | none => rfl
    | some pending => exact htaken pending hpending
  simp only [next, takePendingLocalAdministrator, happlied, harrives, hfits, Bool.and_self, if_true]

theorem next_report_lost {arrives : Bool} {now : Int} (happlied : world.applied)
    (hlost : ¬ (arrives ∧ ∀ pending, world.machine.pending = some pending → pending.credential.fits)) :
    world.next (.report arrives now) =
      { world with machine := { world.machine with pending := none }, applied := false } := by
  have hrefused : (arrives && (world.machine.pending.map PendingLocalAdministrator.credential).all
      LocalAdministratorCredential.fits) = false := by
    rw [Bool.and_eq_false_iff]
    by_contra htaken
    rw [not_or, Bool.not_eq_false, Bool.not_eq_false] at htaken
    refine hlost ⟨htaken.1, fun pending hpending => ?_⟩
    rw [hpending] at htaken
    exact htaken.2
  simp only [next, takePendingLocalAdministrator, happlied, hrefused, Bool.false_eq_true, if_true, if_false]

theorem Sound.forgotten (h : Sound world) :
    Sound { world with machine := { world.machine with pending := none }, applied := false } where
  idle _ := rfl
  rested _ := rfl
  pending _ hpending := nomatch hpending
  known := h.known

theorem Sound.report (h : Sound world) (arrives : Bool) (now : Int) :
    Sound (world.next (.report arrives now)) := by
  by_cases happlied : world.applied
  · by_cases htaken : arrives ∧ ∀ pending, world.machine.pending = some pending → pending.credential.fits
    · rw [next_report_taken happlied htaken.2 htaken.1]
      cases hpending : world.machine.pending with
      | none => exact { h.forgotten with rested := fun _ => rfl }
      | some pending =>
          refine { h.forgotten with
            rested := fun _ => rfl
            pending := fun _ hsome => nomatch hsome
            known := fun a account ha hthere hstanding => ?_ }
          obtain ⟨hlast, earlier, hearlier, hpassword, howed⟩ := h.pending pending hpending
          obtain rfl : pending.account = a := Option.some.inj (hlast.symm.trans ha)
          obtain ⟨other, hother, hsame, _⟩ := acknowledge_of_owed hthere
          obtain rfl := Option.some.inj (hearlier.symm.trans hother)
          exact ⟨_, rfl, rfl, hsame.trans hpassword⟩
    · rw [next_report_lost happlied htaken]
      exact h.forgotten
  · simp only [next]
    rw [if_neg happlied]
    exact h

theorem sound_next (h : Sound world) (move : Move) : Sound (world.next move) := by
  cases move with
  | apply policy chance => exact h.apply policy chance
  | report arrives now => exact h.report arrives now
  | restart => exact h.forgotten

theorem escrowed_apply (h : Sound world) (hescrowed : Escrowed world) (policy : Option LocalAdministrator)
    (chance : Chance) :
    Escrowed (world.next (.apply policy chance)) ↔ Careful world (.apply policy chance) := by
  unfold Careful next
  split_ifs with happlied
  · exact iff_of_true hescrowed fun hfalse => by rw [happlied] at hfalse; cases hfalse
  · have hnone : world.machine.pending = none := h.idle (by simpa using happlied)
    constructor
    · intro hgood _ wanted hwanted hsets
      obtain rfl : policy = some wanted := hwanted
      obtain ⟨password, there, haccount, _, hlost⟩ := apply_set hsets
      by_contra hcompletes
      obtain ⟨pending, hpending, _⟩ := hgood.held wanted.account _ haccount rfl
      rw [hlost hcompletes, hnone] at hpending
      cases hpending
    · intro hcareful
      refine ⟨nofun, fun a account hthere howed => ?_⟩
      by_cases hsets : ∃ wanted ∈ policy, wanted.account = a ∧ Sets chance world.machine wanted
      · obtain ⟨wanted, hwanted, rfl, hsets⟩ := hsets
        obtain rfl : policy = some wanted := hwanted
        obtain ⟨password, there, haccount, hheld, _⟩ := apply_set hsets
        obtain ⟨pending, hpending, hnamed, hpassword⟩ :=
          hheld (hcareful (by simpa using happlied) wanted rfl hsets)
        obtain rfl := Option.some.inj (haccount.symm.trans hthere)
        exact ⟨pending, hpending, hnamed, congrArg some hpassword.symm⟩
      · have hbefore : world.machine.accounts a = some account := by
          refine apply_unset (fun other hother hnamed hset => hsets ⟨other, hother, hnamed, hset⟩) hthere ?_
          rw [howed]
          exact nofun
        obtain ⟨pending, hpending, _⟩ := hescrowed.held a account hbefore howed
        rw [hnone] at hpending
        cases hpending

theorem escrowed_iff_of_none (h : Sound world) (hnone : world.machine.pending = none) :
    Escrowed world ↔ ∀ a account, world.machine.accounts a = some account → account.standing ≠ .owed := by
  constructor
  · intro hescrowed a account hthere howed
    obtain ⟨pending, hpending, _⟩ := hescrowed.held a account hthere howed
    rw [hnone] at hpending
    cases hpending
  · intro hnot
    refine ⟨fun _ a account password hlast hthere hstanding hpassword => ?_, fun a account hthere howed =>
      absurd howed (hnot a account hthere)⟩
    cases hwhose : account.standing with
    | theirs => exact absurd hwhose hstanding
    | owed => exact absurd hwhose (hnot a account hthere)
    | accepted =>
        obtain ⟨row, hrow, hnamed, hsame⟩ := h.known a account hlast hthere hwhose
        exact ⟨row, hrow, hnamed, Option.some.inj (hsame.symm.trans hpassword)⟩

theorem escrowed_forgotten (h : Sound world) (hescrowed : Escrowed world) :
    Escrowed { world with machine := { world.machine with pending := none }, applied := false } ↔
      world.machine.pending = none := by
  rw [escrowed_iff_of_none h.forgotten rfl]
  constructor
  · intro hnot
    cases hpending : world.machine.pending with
    | none => rfl
    | some pending =>
        obtain ⟨_, account, hthere, _, howed⟩ := h.pending pending hpending
        exact absurd howed (hnot _ account hthere)
  · intro hnone
    exact (escrowed_iff_of_none h hnone).mp hescrowed

theorem escrowed_report (h : Sound world) (hescrowed : Escrowed world) (arrives : Bool) (now : Int) :
    Escrowed (world.next (.report arrives now)) ↔ Careful world (.report arrives now) := by
  by_cases happlied : world.applied
  · by_cases htaken : arrives ∧ ∀ pending, world.machine.pending = some pending → pending.credential.fits
    · refine iff_of_true ?_ fun _ pending hpending => ⟨htaken.1, htaken.2 pending hpending⟩
      have hsound := h.report arrives now
      rw [next_report_taken happlied htaken.2 htaken.1] at hsound ⊢
      rw [escrowed_iff_of_none hsound (hsound.idle rfl)]
      intro a account hthere howed
      cases hpending : world.machine.pending with
      | none =>
          rw [hpending] at hthere
          obtain ⟨pending, hsome, _⟩ := hescrowed.held a account hthere howed
          rw [hpending] at hsome
          cases hsome
      | some pending =>
          rw [hpending] at hthere
          obtain ⟨earlier, hearlier, hsame, ⟨rfl, hother⟩ | ⟨_, _, haccepted⟩⟩ := acknowledge_of_owed hthere
          · obtain ⟨held, hsome, hnamed, hpassword⟩ := hescrowed.held a account hearlier howed
            obtain rfl : pending = held := Option.some.inj (hpending.symm.trans hsome)
            exact hother ⟨hnamed.symm, hpassword, howed⟩
          · rw [howed] at haccepted
            cases haccepted
    · rw [next_report_lost happlied htaken, escrowed_forgotten h hescrowed]
      constructor
      · intro hnone _ pending hpending
        rw [hnone] at hpending
        cases hpending
      · intro hcareful
        by_contra hsome
        obtain ⟨pending, hpending⟩ := Option.ne_none_iff_exists'.mp hsome
        refine htaken ⟨(hcareful happlied pending hpending).1, fun other hother => ?_⟩
        exact (hcareful happlied other hother).2
  · have hsame : world.next (.report arrives now) = world := by
      simp only [next]
      rw [if_neg happlied]
    rw [hsame]
    exact iff_of_true hescrowed fun happlied' => absurd happlied' happlied

theorem escrowed_next (h : Sound world) (hescrowed : Escrowed world) (move : Move) :
    Escrowed (world.next move) ↔ Careful world move := by
  cases move with
  | apply policy chance => exact escrowed_apply h hescrowed policy chance
  | report arrives now => exact escrowed_report h hescrowed arrives now
  | restart => exact escrowed_forgotten h hescrowed

theorem sound_initial (passwords : String → Option (Option String)) : Sound (initial passwords) where
  idle _ := rfl
  rested _ := rfl
  pending _ hpending := nomatch hpending
  known _ _ hlast := nomatch hlast

theorem escrowed_initial (passwords : String → Option (Option String)) : Escrowed (initial passwords) := by
  rw [escrowed_iff_of_none (sound_initial passwords) rfl]
  intro a account hthere howed
  obtain ⟨password, _, rfl⟩ := Option.map_eq_some_iff.mp hthere
  cases howed

/-- Whatever policies come, wherever runs fail, reports are lost or the agent stops. -/
theorem escrowed_iff (passwords : String → Option (Option String)) (moves : List Move) :
    (∀ before, before <+: moves → Escrowed (before.foldl next (initial passwords))) ↔
      Steps.Each next Careful (initial passwords) moves := by
  rw [Steps.each_reached, and_iff_right (escrowed_initial passwords)]
  have hkeeps : ∀ (world : Reporting) (move : Move), Sound world ∧ Escrowed world → Escrowed (world.next move) →
      Sound (world.next move) ∧ Escrowed (world.next move) :=
    fun world move hkept hgood => ⟨sound_next hkept.1 move, hgood⟩
  have hstep : ∀ (world : Reporting) (move : Move), Sound world ∧ Escrowed world →
      (Escrowed (world.next move) ↔ Careful world move) :=
    fun world move hkept => escrowed_next hkept.1 hkept.2 move
  exact Steps.each_iff hkeeps hstep ⟨sound_initial passwords, escrowed_initial passwords⟩ moves

def managed : LocalAdministrator := { account := "odmadmin" }

def drawsOne : Chance := World.ordinary

def reportLost : List Move := [
  .apply (some managed) drawsOne, .report false 1,
  .apply (some managed) { drawsOne with now := 900000000000 }, .report true 901000000000]

/-- The password is set and remembered on the machine, the first report does not arrive, and the second, which
does, is without it. -/
theorem password_unknown :
    ¬ ∀ before, before <+: reportLost → Escrowed (before.foldl next (initial fun _ => none)) := by
  intro h
  obtain ⟨row, hrow, _⟩ := (h reportLost (List.prefix_refl _)).stored (by decide +kernel) "odmadmin"
    ⟨some "AAAAAAAAAAAAAAAAAAAA", true, .owed⟩ "AAAAAAAAAAAAAAAAAAAA" (by decide +kernel) (by decide +kernel)
    nofun rfl
  have hnone : (reportLost.foldl next (initial fun _ => none)).stored = none := by decide +kernel
  rw [hnone] at hrow
  cases hrow

end Reporting

end OpenDirectory.LocalAdmin
