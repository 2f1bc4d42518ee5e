import OpenDirectory.Steps

/-! The console's certificate and its key. Both are staged in a directory of the control plane's, under
one name each, by whoever stages them: a signing request leaves its key there to wait for the
certificate, and everything that is to be installed goes through the same two files. In containers the
control plane installs them itself; on a host the agent's helper does, whenever its task is run. Every
file is written in moves of its own, and what writes it may be stopped between any two of them. -/

namespace OpenDirectory.ConsolePair

/-- What the cryptography libraries say of two texts. -/
structure Library where
  /-- The certificate was made for the key. -/
  pair : String → String → Bool
  /-- The helper's own comparison, of the two moduli. -/
  modulus : String → String → Bool
  pair_of_modulus : ∀ certificate key, modulus certificate key = true → pair certificate key = true
  notAfter : String → Nat
  /-- The certificate names what joined machines look for the console at. -/
  conventional : String → Bool

structure Store where
  stagedKey : Option String
  stagedCertificate : Option String
  key : String
  certificate : String
  /-- The pair that an install in progress has read. -/
  loaded : Option (String × String)
  /-- The key of the last signing request, until it is installed. -/
  waiting : Option String

inductive Deployment where
  | container
  | host
  deriving DecidableEq

/-- What is done to the files, a move at a time. -/
inductive Move where
  | touchKey
  | clearKey
  | writeKey (key : String) (requested : Bool)
  | clearCertificate
  | writeCertificate (certificate : String)
  | dropKey
  | dropCertificate
  | load
  | putKey
  | putCertificate
  | compare
  | emptyCertificate
  | copyCertificate
  | emptyKey
  | copyKey

/-- A request whose key is installed waits no longer. -/
def answered (waiting : Option String) (key : String) : Option String :=
  if waiting = some key then none else waiting

/-- A move, unless it raises. -/
def perform (library : Library) (now : Nat) (store : Store) : Move → Option Store
  | .touchKey => some { store with stagedKey := some (store.stagedKey.getD "") }
  | .clearKey => some { store with stagedKey := some "" }
  | .writeKey key requested => some { store with
      stagedKey := some key
      waiting := if requested then some key else store.waiting }
  | .clearCertificate => some { store with stagedCertificate := some "" }
  | .writeCertificate certificate => some { store with stagedCertificate := some certificate }
  | .dropKey => some { store with stagedKey := none }
  | .dropCertificate => some { store with stagedCertificate := none }
  | .load =>
      match store.stagedCertificate, store.stagedKey with
      | some certificate, some key =>
          if library.pair certificate key && now < library.notAfter certificate then
            some { store with loaded := some (certificate, key) }
          else none
      | _, _ => none
  | .putKey => store.loaded.map fun pair => { store with key := pair.2 }
  | .putCertificate => store.loaded.map fun pair => { store with
      certificate := pair.1
      waiting := answered store.waiting store.key }
  | .compare =>
      match store.stagedCertificate, store.stagedKey with
      | some certificate, some key =>
          if library.modulus certificate key && now < library.notAfter certificate then some store
          else none
      | _, _ => none
  | .emptyCertificate => store.stagedCertificate.map fun _ => { store with certificate := "" }
  | .copyCertificate => store.stagedCertificate.map fun certificate => { store with certificate }
  | .emptyKey => store.stagedKey.map fun _ => { store with key := "" }
  | .copyKey => store.stagedKey.map fun key => { store with
      key
      waiting := answered store.waiting key }

/-- `stage_console_key`: a certificate left from an earlier install is not for this key. -/
def stageConsoleKey (key : String) : List Move :=
  [.touchKey, .clearKey, .writeKey key true, .dropCertificate]

/-- `staged_console_key`: the key of a signing request, while no certificate is there. -/
def stagedConsoleKey (store : Store) : Option String :=
  if store.stagedCertificate.isSome then none else store.stagedKey

/-- `stage_console_certificate`. -/
def stageConsoleCertificate (certificate key : String) : List Move :=
  [.touchKey, .clearKey, .writeKey key false, .clearCertificate, .writeCertificate certificate]

/-- `install_staged_console_certificate`: the key first and the certificate last. -/
def installStaged : List Move := [.load, .putKey, .putCertificate, .dropKey, .dropCertificate]

/-- What is staged is installed at once in containers. -/
def staging (deployment : Deployment) (certificate key : String) : List Move :=
  stageConsoleCertificate certificate key ++ if deployment = .container then installStaged else []

/-- `odm-apply-console-certificate`; in containers it has nothing to install. -/
def applyConsoleCertificate : Deployment → List Move
  | .container => []
  | .host => [.compare, .emptyCertificate, .copyCertificate, .emptyKey, .copyKey, .dropKey,
      .dropCertificate]

structure World where
  store : Store
  console : List Move
  helper : List Move

inductive Event where
  /-- A signing request, with the key that was made for it. -/
  | request (key : String)
  /-- ODM's own CA issues a pair. -/
  | issue (certificate key : String)
  | upload (now : Nat) (certificate key : String)
  | console (now : Nat)
  | stop
  | task
  | helper (now : Nat)
  | kill

/-- The key an uploaded certificate goes with. -/
def uploadKey (store : Store) (key : String) : String :=
  if key = "" then (stagedConsoleKey store).getD "" else key

/-- An upload is checked before anything is staged. -/
def uploadAccepted (library : Library) (store : Store) (now : Nat) (certificate key : String) :
    Bool :=
  uploadKey store key ≠ "" && library.pair certificate (uploadKey store key) &&
    now ≤ library.notAfter certificate && library.conventional certificate

def next (library : Library) (deployment : Deployment) (world : World) : Event → World
  | .request key =>
      if world.console = [] then { world with console := stageConsoleKey key } else world
  | .issue certificate key =>
      if world.console = [] then { world with console := staging deployment certificate key }
      else world
  | .upload now certificate key =>
      if world.console = [] ∧ uploadAccepted library world.store now certificate key = true then
        { world with console := staging deployment certificate (uploadKey world.store key) }
      else world
  | .console now =>
      match world.console with
      | [] => world
      | move :: rest =>
          match perform library now world.store move with
          | some store => { world with store, console := rest }
          | none => { world with console := [] }
  | .stop => { world with console := [] }
  | .task =>
      if world.helper = [] then { world with helper := applyConsoleCertificate deployment }
      else world
  | .helper now =>
      match world.helper with
      | [] => world
      | move :: rest =>
          match perform library now world.store move with
          | some store => { world with store, helper := rest }
          | none => { world with helper := [] }
  | .kill => { world with helper := [] }

/-- A console as it is set up, with a pair of its own. -/
def start (certificate key : String) : World where
  store := ⟨none, none, key, certificate, none, none⟩
  console := []
  helper := []

structure Calm (library : Library) (store : Store) : Prop where
  pair : library.pair store.certificate store.key = true
  kept : ∀ key, store.waiting = some key → store.stagedKey = some key

/-- Whenever neither is in the middle of something, also by having been stopped there, the installed
files are a pair and the key of a waiting request is still staged. -/
def Sound (library : Library) (world : World) : Prop :=
  world.console = [] → world.helper = [] → Calm library world.store

/-- Nothing is lost by a stop here: no waiting key is out of its file, and the installed files are not
one of the old pair and one of the new. -/
def Stoppable (library : Library) (store : Store) : List Move → Prop
  | .writeKey _ _ :: _ => store.waiting = none
  | .putCertificate :: _ | .emptyKey :: _ => library.pair store.certificate store.key = true
  | .copyCertificate :: _ | .copyKey :: _ => False
  | _ => True

/-- The control plane and the helper take turns, a pair that brings its own key is staged only while no
other key waits, and neither is stopped halfway. -/
def Careful (library : Library) (world : World) : Event → Prop
  | .request _ => world.helper = []
  | .issue _ key =>
      world.helper = [] ∧ (world.store.waiting = none ∨ world.store.waiting = some key)
  | .upload _ _ key =>
      world.helper = [] ∧ (key = "" ∨ world.store.waiting = none ∨ world.store.waiting = some key)
  | .stop => Stoppable library world.store world.console
  | .task => world.console = []
  | .kill => Stoppable library world.store world.helper
  | .console _ | .helper _ => True

/-- What is left can be run to its end, or stopped where that is allowed, and leaves the files
calm. -/
def Safe (library : Library) : List Move → Store → Prop
  | [], store => Calm library store
  | move :: rest, store =>
      (Stoppable library store (move :: rest) → Calm library store) ∧ ∀ now,
        match perform library now store move with
        | some next => Safe library rest next
        | none => Calm library store

variable {library : Library} {store : Store}

theorem answered_of_mem {waiting : Option String} {key : String}
    (h : waiting = none ∨ waiting = some key) : answered waiting key = none := by
  unfold answered
  rcases h with rfl | rfl
  · simp
  · simp

theorem Calm.waiting {key : String} (h : Calm library store) (hstaged : store.stagedKey = some key) :
    store.waiting = none ∨ store.waiting = some key := by
  cases hwaiting : store.waiting with
  | none => exact .inl rfl
  | some other =>
      have := h.kept other hwaiting
      rw [hstaged] at this
      exact .inr this.symm

theorem Safe.calm {moves : List Move} (h : Safe library moves store)
    (hstop : Stoppable library store moves) : Calm library store := by
  cases moves with
  | nil => exact h
  | cons move rest => exact h.1 hstop

theorem Safe.step {move : Move} {rest : List Move} (h : Safe library (move :: rest) store)
    (now : Nat) :
    (∀ next, perform library now store move = some next → Safe library rest next) ∧
      (perform library now store move = none → Calm library store) := by
  have hmove := h.2 now
  constructor
  · intro next hnext
    rwa [hnext] at hmove
  · intro hnone
    rwa [hnone] at hmove

theorem safe_dropped (h : Calm library store) (hwaiting : store.waiting = none) :
    Safe library [.dropKey, .dropCertificate] store := by
  have hcalm : ∀ certificate, Calm library
      { store with stagedKey := none, stagedCertificate := certificate } := fun certificate =>
    ⟨h.pair, fun key hkey => absurd (hwaiting.symm.trans hkey) (Option.some_ne_none key).symm⟩
  exact ⟨fun _ => h, fun _ => ⟨fun _ => hcalm store.stagedCertificate, fun _ => hcalm none⟩⟩

theorem safe_touched {rest : List Move} (h : Calm library store)
    (hrest : ∀ staged, Safe library rest { store with stagedKey := some staged }) :
    Safe library (.touchKey :: .clearKey :: rest) store := by
  refine ⟨fun _ => h, fun _ => ⟨fun _ => ⟨h.pair, fun key hkey => ?_⟩, fun _ => hrest ""⟩⟩
  have hstaged := h.kept key hkey
  simp [hstaged]

theorem safe_stageConsoleKey (h : Calm library store) (key : String) :
    Safe library (stageConsoleKey key) store := by
  refine safe_touched h fun staged => ⟨fun hnone => ⟨h.pair, fun other hother => ?_⟩, fun _ => ?_⟩
  · exact absurd (hnone.symm.trans hother) (Option.some_ne_none other).symm
  · have hcalm : ∀ certificate, Calm library { store with
        stagedKey := some key
        stagedCertificate := certificate
        waiting := some key } := fun _ => ⟨h.pair, fun _ hother => hother⟩
    exact ⟨fun _ => hcalm store.stagedCertificate, fun _ => hcalm none⟩

theorem safe_installStaged (h : Calm library store) : Safe library installStaged store := by
  refine ⟨fun _ => h, fun now => ?_⟩
  cases hcertificate : store.stagedCertificate with
  | none => simpa [perform, hcertificate] using h
  | some certificate =>
      cases hkey : store.stagedKey with
      | none => simpa [perform, hcertificate, hkey] using h
      | some key =>
          by_cases hchecked : library.pair certificate key && now < library.notAfter certificate
          · have hpair : library.pair certificate key = true := (Bool.and_eq_true_iff.mp hchecked).1
            have hwaiting := answered_of_mem (h.waiting hkey)
            have hkept : ∀ other, store.waiting = some other → some key = some other :=
              fun other hother => hkey.symm.trans (h.kept other hother)
            simp only [perform, hcertificate, hkey, hchecked, if_true]
            refine ⟨fun _ => ⟨h.pair, hkept⟩, fun _ => ⟨fun hstill => ⟨hstill, hkept⟩, fun _ => ?_⟩⟩
            refine safe_dropped ⟨hpair, fun other hother => ?_⟩ hwaiting
            exact absurd (hwaiting.symm.trans hother) (Option.some_ne_none other).symm
          · simpa [perform, hcertificate, hkey, hchecked] using h

theorem safe_staging {deployment : Deployment} {key : String} (h : Calm library store)
    (hwaiting : store.waiting = none ∨ store.waiting = some key) (certificate : String) :
    Safe library (staging deployment certificate key) store := by
  have hcalm : ∀ staged, Calm library { store with
      stagedKey := some key
      stagedCertificate := staged } := by
    refine fun _ => ⟨h.pair, fun other hother => ?_⟩
    rcases hwaiting with hnone | hsome
    · exact absurd (hnone.symm.trans hother) (Option.some_ne_none other).symm
    · exact hsome.symm.trans hother
  refine safe_touched h fun staged => ⟨fun hnone => ⟨h.pair, fun other hother => ?_⟩, fun _ =>
    ⟨fun _ => hcalm store.stagedCertificate, fun _ => ⟨fun _ => hcalm (some ""), fun _ => ?_⟩⟩⟩
  · exact absurd (hnone.symm.trans hother) (Option.some_ne_none other).symm
  · cases deployment with
    | container => exact safe_installStaged (hcalm (some certificate))
    | host => exact hcalm (some certificate)

theorem safe_applyConsoleCertificate (h : Calm library store) (deployment : Deployment) :
    Safe library (applyConsoleCertificate deployment) store := by
  cases deployment with
  | container => exact h
  | host =>
      refine ⟨fun _ => h, fun now => ?_⟩
      cases hcertificate : store.stagedCertificate with
      | none => simpa [perform, hcertificate] using h
      | some certificate =>
          cases hkey : store.stagedKey with
          | none => simpa [perform, hcertificate, hkey] using h
          | some key =>
              by_cases hchecked :
                  library.modulus certificate key && now < library.notAfter certificate
              · have hpair := library.pair_of_modulus certificate key
                  (Bool.and_eq_true_iff.mp hchecked).1
                have hwaiting := answered_of_mem (h.waiting hkey)
                have hkept : ∀ other, store.waiting = some other → some key = some other :=
                  fun other hother => hkey.symm.trans (h.kept other hother)
                simp only [perform, hcertificate, hkey, hchecked, if_true]
                refine ⟨fun _ => h, fun _ => ?_⟩
                simp only [perform, hcertificate, Option.map_some]
                refine ⟨fun hnever => hnever.elim, fun _ => ?_⟩
                simp only [perform, Option.map_some]
                refine ⟨fun hstill => ⟨hstill, fun other hother => h.kept other hother⟩, fun _ => ?_⟩
                simp only [perform, hkey, Option.map_some]
                refine ⟨fun hnever => hnever.elim, fun _ => ?_⟩
                simp only [perform, Option.map_some]
                refine safe_dropped ⟨hpair, fun other hother => ?_⟩ hwaiting
                exact absurd (hwaiting.symm.trans hother) (Option.some_ne_none other).symm
              · simpa [perform, hcertificate, hkey, hchecked] using h

variable {deployment : Deployment} {world : World}

/-- At most one of the two is in the middle of something, and what is left of it is safe. -/
structure Turns (library : Library) (world : World) : Prop where
  console : world.helper = [] → Safe library world.console world.store
  helper : world.console = [] → Safe library world.helper world.store
  alone : world.console = [] ∨ world.helper = []

theorem Turns.sound (h : Turns library world) : Sound library world := by
  intro hconsole hhelper
  have hsafe := h.console hhelper
  rwa [hconsole] at hsafe

theorem Turns.ofConsole {world : World} (hhelper : world.helper = [])
    (h : Safe library world.console world.store) : Turns library world where
  console _ := h
  helper hconsole := by
    rw [hconsole] at h
    rwa [hhelper]
  alone := .inr hhelper

theorem Turns.ofHelper {world : World} (hconsole : world.console = [])
    (h : Safe library world.helper world.store) : Turns library world where
  console hhelper := by
    rw [hhelper] at h
    rwa [hconsole]
  helper _ := h
  alone := .inl hconsole

theorem Turns.begin (h : Turns library world) (hhelper : world.helper = [])
    {moves : List Move} (hmoves : Calm library world.store → Safe library moves world.store) :
    Turns library (if world.console = [] then { world with console := moves } else world) := by
  split
  · rename_i hconsole
    exact .ofConsole hhelper (hmoves (h.sound hconsole hhelper))
  · exact h

theorem waiting_upload (h : Calm library store) {now : Nat} {certificate key : String}
    (hkey : key = "" ∨ store.waiting = none ∨ store.waiting = some key)
    (haccepted : uploadAccepted library store now certificate key = true) :
    store.waiting = none ∨ store.waiting = some (uploadKey store key) := by
  unfold uploadKey
  split
  · rename_i hempty
    simp only [uploadAccepted, uploadKey, if_pos hempty, Bool.and_eq_true,
      decide_eq_true_eq] at haccepted
    obtain ⟨⟨⟨hsome, _⟩, _⟩, _⟩ := haccepted
    unfold stagedConsoleKey at hsome ⊢
    split at hsome
    · exact absurd rfl hsome
    · rename_i hnone
      rw [if_neg hnone]
      cases hstaged : store.stagedKey with
      | none =>
          rw [hstaged] at hsome
          exact absurd rfl hsome
      | some staged => exact h.waiting hstaged
  · rename_i hgiven
    exact hkey.resolve_left hgiven

theorem turns_next (h : Turns library world) {event : Event}
    (hcareful : Careful library world event) :
    Turns library (next library deployment world event) := by
  cases event with
  | request key => exact h.begin hcareful fun hcalm => safe_stageConsoleKey hcalm key
  | issue certificate key =>
      exact h.begin hcareful.1 fun hcalm => safe_staging hcalm hcareful.2 certificate
  | upload now certificate key =>
      obtain ⟨hhelper, hkey⟩ := hcareful
      simp only [next]
      split
      · rename_i hboth
        have hcalm := h.sound hboth.1 hhelper
        exact .ofConsole hhelper (safe_staging hcalm (waiting_upload hcalm hkey hboth.2) certificate)
      · exact h
  | console now =>
      simp only [next]
      split
      · exact h
      · rename_i move rest hconsole
        have hhelper : world.helper = [] :=
          h.alone.resolve_left (by rw [hconsole]; exact List.cons_ne_nil move rest)
        have hsafe := h.console hhelper
        rw [hconsole] at hsafe
        split
        · rename_i store hstore
          exact .ofConsole hhelper ((hsafe.step now).1 store hstore)
        · rename_i hraised
          exact .ofConsole hhelper ((hsafe.step now).2 hraised)
  | stop =>
      rcases h.alone with hconsole | hhelper
      · exact .ofHelper rfl (h.helper hconsole)
      · exact .ofConsole hhelper ((h.console hhelper).calm hcareful)
  | task =>
      simp only [next]
      split
      · rename_i hhelper
        exact .ofHelper hcareful
          (safe_applyConsoleCertificate (h.sound hcareful hhelper) deployment)
      · exact h
  | helper now =>
      simp only [next]
      split
      · exact h
      · rename_i move rest hhelper
        have hconsole : world.console = [] :=
          h.alone.resolve_right (by rw [hhelper]; exact List.cons_ne_nil move rest)
        have hsafe := h.helper hconsole
        rw [hhelper] at hsafe
        split
        · rename_i store hstore
          exact .ofHelper hconsole ((hsafe.step now).1 store hstore)
        · rename_i hraised
          exact .ofHelper hconsole ((hsafe.step now).2 hraised)
  | kill =>
      rcases h.alone with hconsole | hhelper
      · exact .ofHelper hconsole ((h.helper hconsole).calm hcareful)
      · exact .ofConsole rfl (h.console hhelper)

/-- In every run whose steps are careful the console's pair is whole and the waiting key kept, whenever
nothing is in progress. -/
theorem sound_of_careful {certificate key : String} (h : library.pair certificate key = true)
    {events : List Event}
    (hcareful : Steps.Each (next library deployment) (Careful library) (start certificate key)
      events) :
    ∀ before, before <+: events →
      Sound library (before.foldl (next library deployment) (start certificate key)) := by
  have hstart : Turns library (start certificate key) := by
    refine .ofConsole rfl ⟨h, fun _ hnone => ?_⟩
    cases hnone
  have hstep : ∀ world event, Turns library world → Careful library world event →
      Turns library (next library deployment world event) :=
    fun _ _ hturns hevent => turns_next hturns hevent
  intro before hbefore
  exact (Steps.each_keeps hstep hstart hcareful before hbefore).sound

/-- A library for which a certificate is its key with a mark before it. -/
def plain : Library where
  pair certificate key := certificate = "cert " ++ key
  modulus certificate key := certificate = "cert " ++ key
  pair_of_modulus _ _ h := h
  notAfter _ := 1
  conventional _ := true

/-- A request, its certificate uploaded, and the helper's run. -/
def answeredRequest : List Event :=
  [.request "b"] ++ List.replicate 4 (.console 0) ++ [.upload 0 "cert b" ""] ++
    List.replicate 5 (.console 0) ++ [.task] ++ List.replicate 7 (.helper 0)

theorem sound_of_careful_answered :
    Sound plain (answeredRequest.foldl (next plain .host) (start "cert a" "a")) ∧
      (answeredRequest.foldl (next plain .host) (start "cert a" "a")).store.certificate =
        "cert b" := by
  refine ⟨sound_of_careful (by decide) ?_ _ (List.prefix_refl _), by decide⟩
  exact ⟨rfl, trivial, trivial, trivial, trivial, ⟨rfl, .inl rfl⟩, trivial, trivial, trivial,
    trivial, trivial, rfl, trivial, trivial, trivial, trivial, trivial, trivial, trivial, trivial⟩

/-- A pair of ODM's own CA takes the file in which the key of a signing request waits; and a control
plane stopped between the two files leaves a new key with the old certificate. -/
theorem waiting_key_overwritten :
    let overwritten : List Event := [.request "b"] ++ List.replicate 4 (.console 0) ++
      [.issue "cert c" "c"] ++ List.replicate 5 (.console 0)
    let halfway : List Event := [.issue "cert c" "c"] ++ List.replicate 7 (.console 0) ++ [.stop]
    ¬ Sound plain (overwritten.foldl (next plain .host) (start "cert a" "a")) ∧
      ¬ Sound plain (halfway.foldl (next plain .container) (start "cert a" "a")) := by
  constructor
  · intro h
    have hkept := (h (by decide) (by decide)).kept "b" (by decide)
    exact absurd hkept (by decide)
  · intro h
    have hpair := (h (by decide) (by decide)).pair
    exact absurd hpair (by decide)

end OpenDirectory.ConsolePair
