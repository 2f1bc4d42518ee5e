import OpenDirectory.FileShares

/-! The access list of a share that remote desktop profiles are kept on. Each collection that is sent out rebuilds it from
its own hosts. -/

namespace OpenDirectory.ProfileShares

open FileShares (Entry)

/-- Names of accounts are in the basic Latin alphabet. -/
def upper (name : String) : String := String.ofList (name.toList.map Char.toUpper)

def machineOf (host : String) : String := upper ((Text.split '.' host).headD "") ++ "$"

/-- The accounts of the hosts, each once and in order. -/
def machines (hosts : List String) : List String := ((hosts.filter (· ≠ "")).map machineOf).dedup.sortedBy id

def machineEntry (machine : String) : Entry where
  principal := machine
  kind := "user"
  access := "full"
  inherit := true

def profileShareEntries (existing : List Entry) (hosts : List String) : List Entry :=
  ((existing.filter fun entry => upper entry.principal ∉ machines hosts).map fun entry => { entry with inherit := false }) ++
    (machines hosts).map machineEntry

/-- What the dispatch of a collection with these hosts makes of the list. A list that is as it should be is not written. -/
def secureProfileShare (current : List Entry) (hosts : List String) : List Entry :=
  if hosts = [] then current
  else
    let entries := profileShareEntries current hosts
    if entries = current then current else entries

/-- A collection, with the hosts it has when it is sent out. -/
structure Dispatch where
  collection : String
  hosts : List String

def run (start : List Entry) (sent : List Dispatch) : List Entry :=
  sent.foldl (fun entries dispatch => secureProfileShare entries dispatch.hosts) start

/-- The hosts of a collection when it was sent out last. -/
def serving (sent : List Dispatch) : String → List String :=
  sent.foldl (fun hosts dispatch => Function.update hosts dispatch.collection dispatch.hosts) fun _ => []

/-- The host of a collection, by its account. -/
def Serves (sent : List Dispatch) (machine : String) : Prop := ∃ collection, machine ∈ machines (serving sent collection)

/-- Who had access still has it, or has all of it. -/
def Keeps (before after : List Entry) : Prop :=
  ∀ entry ∈ before, ∃ kept ∈ after, upper kept.principal = upper entry.principal ∧
    (kept.access = entry.access ∨ kept.access = "full")

/-- Every host may reach into everything below the share, nobody else may, and nobody has lost anything. -/
structure Right (start : List Entry) (sent : List Dispatch) (entries : List Entry) : Prop where
  reaches : ∀ machine, Serves sent machine → machineEntry machine ∈ entries
  apart : ∀ entry ∈ entries, entry.inherit = true → Serves sent entry.principal
  keeps : Keeps start entries

/-- The hosts of the last collection that was sent out with any. -/
def lastHosts (sent : List Dispatch) : List String :=
  sent.foldl (fun hosts dispatch => if dispatch.hosts = [] then hosts else dispatch.hosts) []

/-- The last collection that was sent out with hosts has the hosts of all of them. Where none had any, nothing on the list
was inherited before. -/
structure Shared (start : List Entry) (sent : List Dispatch) : Prop where
  all : lastHosts sent ≠ [] → ∀ machine, Serves sent machine ↔ machine ∈ machines (lastHosts sent)
  bare : lastHosts sent = [] → ∀ entry ∈ start, entry.inherit = false

variable {hosts : List String}

theorem mem_machines {machine : String} :
    machine ∈ machines hosts ↔ ∃ host ∈ hosts, host ≠ "" ∧ machine = machineOf host := by
  unfold machines
  rw [(List.perm_sortedBy _ _).mem_iff, List.mem_dedup, List.mem_map]
  constructor
  · rintro ⟨host, hhost, rfl⟩
    obtain ⟨hmem, hne⟩ := List.mem_filter.mp hhost
    exact ⟨host, hmem, of_decide_eq_true hne, rfl⟩
  · rintro ⟨host, hmem, hne, rfl⟩
    exact ⟨host, List.mem_filter.mpr ⟨hmem, decide_eq_true hne⟩, rfl⟩

theorem secure_eq (current : List Entry) (h : hosts ≠ []) :
    secureProfileShare current hosts = profileShareEntries current hosts := by
  unfold secureProfileShare
  rw [if_neg h]
  dsimp only
  split
  next heq => exact heq.symm
  next => rfl

theorem secure_nil (current : List Entry) : secureProfileShare current [] = current := if_pos rfl

theorem machineEntry_mem_secure {current : List Entry} (h : hosts ≠ []) {machine : String}
    (hmachine : machine ∈ machines hosts) : machineEntry machine ∈ secureProfileShare current hosts := by
  rw [secure_eq current h]
  exact List.mem_append_right _ (List.mem_map_of_mem hmachine)

theorem inherits_of_secure {current : List Entry} (h : hosts ≠ []) {entry : Entry}
    (hentry : entry ∈ secureProfileShare current hosts) (hinherit : entry.inherit = true) :
    entry.principal ∈ machines hosts := by
  rw [secure_eq current h] at hentry
  rcases List.mem_append.mp hentry with hkept | hmachine
  · obtain ⟨kept, -, rfl⟩ := List.mem_map.mp hkept
    exact absurd hinherit Bool.false_ne_true
  · obtain ⟨machine, hmem, rfl⟩ := List.mem_map.mp hmachine
    exact hmem

theorem toUpper_toUpper (c : Char) : c.toUpper.toUpper = c.toUpper := by
  by_cases h : 'a'.val ≤ c.val ∧ c.val ≤ 'z'.val
  · have hval : c.toUpper.val = c.val + ('A'.val - 'a'.val) := by rw [Char.toUpper, dif_pos h]
    have hnot : ¬ ('a'.val ≤ c.toUpper.val ∧ c.toUpper.val ≤ 'z'.val) := by
      rw [hval]
      intro hlower
      obtain ⟨hlow, hhigh⟩ := h
      rw [UInt32.le_iff_toNat_le] at hlow hhigh
      have hshift : ('A'.val - 'a'.val).toNat = 2 ^ 32 - 32 := rfl
      have hlow' := UInt32.le_iff_toNat_le.mp hlower.1
      rw [UInt32.toNat_add, hshift] at hlow'
      have ha : 'a'.val.toNat = 97 := rfl
      have hz : 'z'.val.toNat = 122 := rfl
      omega
    exact dif_neg hnot
  · have hsame : c.toUpper = c := dif_neg h
    rw [hsame, hsame]

theorem upper_upper (name : String) : upper (upper name) = upper name := by
  unfold upper
  rw [String.toList_ofList, List.map_map]
  congr 2
  funext c
  exact toUpper_toUpper c

theorem keeps_refl (entries : List Entry) : Keeps entries entries :=
  fun entry hentry => ⟨entry, hentry, rfl, .inl rfl⟩

theorem Keeps.trans {first second third : List Entry} (h : Keeps first second) (h' : Keeps second third) :
    Keeps first third := by
  intro entry hentry
  obtain ⟨kept, hkept, hname, haccess⟩ := h entry hentry
  obtain ⟨last, hlast, hname', haccess'⟩ := h' kept hkept
  refine ⟨last, hlast, hname'.trans hname, ?_⟩
  rcases haccess' with hsame | hfull
  · rw [hsame]
    exact haccess
  · exact .inr hfull

theorem keeps_secure (current : List Entry) (hosts : List String) : Keeps current (secureProfileShare current hosts) := by
  by_cases h : hosts = []
  · rw [h, secure_nil]
    exact keeps_refl current
  · rw [secure_eq current h]
    intro entry hentry
    by_cases hmachine : upper entry.principal ∈ machines hosts
    · obtain ⟨host, -, -, heq⟩ := mem_machines.mp hmachine
      refine ⟨machineEntry (upper entry.principal), ?_, upper_upper _, .inr rfl⟩
      exact List.mem_append_right _ (List.mem_map_of_mem hmachine)
    · refine ⟨{ entry with inherit := false }, ?_, rfl, .inl rfl⟩
      refine List.mem_append_left _ (List.mem_map.mpr ⟨entry, ?_, rfl⟩)
      exact List.mem_filter.mpr ⟨hentry, decide_eq_true hmachine⟩

theorem keeps_run (start : List Entry) (sent : List Dispatch) : Keeps start (run start sent) := by
  induction sent generalizing start with
  | nil => exact keeps_refl start
  | cons dispatch sent ih => exact (keeps_secure start dispatch.hosts).trans (ih _)

theorem run_append (start : List Entry) (sent : List Dispatch) (dispatch : Dispatch) :
    run start (sent ++ [dispatch]) = secureProfileShare (run start sent) dispatch.hosts := by
  rw [run, List.foldl_append]
  rfl

theorem serving_append (sent : List Dispatch) (dispatch : Dispatch) :
    serving (sent ++ [dispatch]) = Function.update (serving sent) dispatch.collection dispatch.hosts := by
  rw [serving, List.foldl_append]
  rfl

theorem lastHosts_append (sent : List Dispatch) (dispatch : Dispatch) :
    lastHosts (sent ++ [dispatch]) = if dispatch.hosts = [] then lastHosts sent else dispatch.hosts := by
  rw [lastHosts, List.foldl_append]
  rfl

theorem run_of_last (start : List Entry) {sent : List Dispatch} (h : lastHosts sent ≠ []) :
    ∃ current, run start sent = secureProfileShare current (lastHosts sent) := by
  induction sent using List.reverseRecOn with
  | nil => exact absurd rfl h
  | append_singleton sent dispatch ih =>
      rw [lastHosts_append] at h ⊢
      rw [run_append]
      by_cases hhosts : dispatch.hosts = []
      · rw [if_pos hhosts] at h ⊢
        rw [hhosts, secure_nil]
        exact ih h
      · rw [if_neg hhosts]
        exact ⟨_, rfl⟩

theorem run_of_bare (start : List Entry) {sent : List Dispatch} (h : lastHosts sent = []) :
    run start sent = start ∧ ∀ collection, serving sent collection = [] := by
  induction sent using List.reverseRecOn with
  | nil => exact ⟨rfl, fun _ => rfl⟩
  | append_singleton sent dispatch ih =>
      rw [lastHosts_append] at h
      by_cases hhosts : dispatch.hosts = []
      · rw [if_pos hhosts] at h
        obtain ⟨hrun, hserving⟩ := ih h
        refine ⟨by rw [run_append, hhosts, secure_nil, hrun], fun collection => ?_⟩
        rw [serving_append, hhosts, Function.update_apply, hserving, ite_self]
      · rw [if_neg hhosts] at h
        exact absurd h hhosts

/-- After the collections on a share have been sent out, in any order and with hosts added and removed in between, the
share is as it is to be exactly when the last one that had hosts has the hosts of all of them. -/
theorem right_iff_shared (start : List Entry) (sent : List Dispatch) :
    Right start sent (run start sent) ↔ Shared start sent := by
  by_cases hlast : lastHosts sent = []
  · obtain ⟨hrun, hserving⟩ := run_of_bare start hlast
    have hnobody : ∀ machine, ¬ Serves sent machine := by
      intro machine hserves
      obtain ⟨collection, hmachine⟩ := hserves
      rw [hserving] at hmachine
      exact absurd hmachine List.not_mem_nil
    rw [hrun]
    constructor
    · intro h
      refine ⟨fun hne => absurd hlast hne, fun _ entry hentry => ?_⟩
      by_contra hinherit
      exact hnobody _ (h.apart entry hentry (by simpa using hinherit))
    · intro h
      refine ⟨fun machine hserves => absurd hserves (hnobody machine), fun entry hentry hinherit => ?_, keeps_refl start⟩
      rw [h.bare hlast entry hentry] at hinherit
      cases hinherit
  · obtain ⟨current, hrun⟩ := run_of_last start hlast
    constructor
    · intro h
      refine ⟨fun _ machine => ⟨fun hserves => ?_, fun hmachine => ?_⟩, fun hnil => absurd hnil hlast⟩
      · have hreaches := h.reaches machine hserves
        rw [hrun] at hreaches
        exact inherits_of_secure hlast hreaches rfl
      · refine h.apart (machineEntry machine) ?_ rfl
        rw [hrun]
        exact machineEntry_mem_secure hlast hmachine
    · intro h
      have hall := h.all hlast
      refine ⟨fun machine hserves => ?_, fun entry hentry hinherit => ?_, keeps_run start sent⟩
      · rw [hrun]
        exact machineEntry_mem_secure hlast ((hall machine).mp hserves)
      · rw [hrun] at hentry
        exact (hall entry.principal).mpr (inherits_of_secure hlast hentry hinherit)

/-- Two collections on one share, each with a host of its own: the first host loses what the second gets. -/
theorem second_takes_over :
    ¬ Right [] [⟨"Sales", ["rds1.example.org"]⟩, ⟨"Desk", ["rds2.example.org"]⟩]
      (run [] [⟨"Sales", ["rds1.example.org"]⟩, ⟨"Desk", ["rds2.example.org"]⟩]) := by
  intro h
  have hreaches := h.reaches "RDS1$" ⟨"Sales", by decide +kernel⟩
  exact absurd hreaches (by decide +kernel)

end OpenDirectory.ProfileShares
