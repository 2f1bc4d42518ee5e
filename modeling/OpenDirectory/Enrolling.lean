import OpenDirectory.Totp

/-! Setting an authenticator up, confirming it and taking it off, for one account. Each request reads
the enrolment in one statement and writes it in another, without looking again, so what other requests
write in between is lost on it. -/

namespace OpenDirectory.Enrolling

open Totp (Enrolment Answer Library)

inductive Request where
  | begin
  | agentBegin
  | confirm
  | agentConfirm
  | remove

/-- The row of the account, what each request under way has read of it, and the secrets a code was
accepted for in a confirmation. -/
structure Account where
  row : Option Enrolment
  reading : Nat → Option (Request × Option Enrolment)
  proved : List String

/-- What a request brings to its second statement: a new secret and new recovery codes, and the code
that was typed. -/
structure Brought where
  secret : String
  code : String
  recoveryCodes : List String
  now : Nat

inductive Move where
  | read (id : Nat) (request : Request)
  | write (id : Nat) (brought : Brought)
  | spend (answer : Answer)
  | retire

namespace Account

variable [Library] [Runtime]

/-- A code that a confirmation accepts for the row it has read. -/
def confirms (found : Option Enrolment) (brought : Brought) : Option (Enrolment × Int) :=
  found.bind fun found =>
    (Totp.verify found.secret brought.code found.lastStep brought.now).toOption.map (found, ·)

/-- A code, or a recovery code, that a removal accepts for the row it has read. -/
def removes (found : Option Enrolment) (brought : Brought) : Option Enrolment :=
  found.filter fun found =>
    match Totp.judge found brought.code brought.now with
    | .ok .refused | .error _ => false
    | .ok _ => true

def isConfirmed (found : Option Enrolment) : Bool := found.any Enrolment.confirmed

/-- The secret a start at a machine hands out. -/
def pending (found : Option Enrolment) (brought : Brought) : String :=
  (found.map Enrolment.secret).getD brought.secret

variable (account : Account)

def begin (found : Option Enrolment) (brought : Brought) : Account :=
  if isConfirmed found then account
  else { account with row := some ⟨brought.secret, false, none, []⟩ }

def agentBegin (found : Option Enrolment) (brought : Brought) : Account :=
  if isConfirmed found then account
  else { account with
    row := some (account.row.elim ⟨pending found brought, false, none, []⟩ fun row =>
      { row with secret := pending found brought }) }

/-- The update is by account: it confirms whatever secret the row holds by then. -/
def confirm (found : Option Enrolment) (brought : Brought) : Account :=
  match confirms found brought with
  | none => account
  | some (found, step) => { account with
      row := account.row.map fun row =>
        { row with confirmed := true, lastStep := some step, recoveryCodes := brought.recoveryCodes }
      proved := found.secret :: account.proved }

def agentConfirm (found : Option Enrolment) (brought : Brought) : Account :=
  if isConfirmed found then account else account.confirm found brought

def remove (found : Option Enrolment) (brought : Brought) : Account :=
  if (removes found brought).isSome then { account with row := none } else account

def answer (request : Request) (found : Option Enrolment) (brought : Brought) : Account :=
  match request with
  | .begin => account.begin found brought
  | .agentBegin => account.agentBegin found brought
  | .confirm => account.confirm found brought
  | .agentConfirm => account.agentConfirm found brought
  | .remove => account.remove found brought

def next (account : Account) : Move → Account
  | .read id request =>
      { account with reading := Function.update account.reading id (some (request, account.row)) }
  | .write id brought =>
      match account.reading id with
      | none => account
      | some (request, found) =>
          { account with reading := Function.update account.reading id none }.answer request found brought
  | .spend answer => { account with row := account.row.map answer.write }
  | .retire => { account with row := none }

/-- The secret of a confirmed enrolment is one a code was accepted for. -/
def Proved (account : Account) : Prop :=
  ∀ row, account.row = some row → row.confirmed = true → row.secret ∈ account.proved

/-- A request whose code is accepted for the row it has read. -/
def accepted (request : Request) (found : Enrolment) (brought : Brought) : Bool :=
  match request with
  | .confirm | .agentConfirm => (confirms (some found) brought).isSome
  | .remove => (removes (some found) brought).isSome
  | .begin | .agentBegin => false

/-- A move that presents a code accepted for a secret. -/
def Presents (account : Account) (move : Move) (secret : String) : Prop :=
  ∃ id brought request found, move = .write id brought ∧ account.reading id = some (request, some found) ∧
    found.secret = secret ∧ accepted request found brought = true

/-- A confirmed enrolment stays as it is, unless it is retired or a code accepted for it is presented. -/
def Kept (account : Account) (move : Move) : Prop :=
  ∀ row, account.row = some row → row.confirmed = true →
    (∃ row', (account.next move).row = some row' ∧ row'.confirmed = true ∧ row'.secret = row.secret) ∨
      move = .retire ∨ account.Presents move row.secret

def Good (account : Account) (move : Move) : Prop := (account.next move).Proved ∧ account.Kept move

/-- What was written since a request read the row does not turn its write against a confirmed enrolment,
and a code confirms a secret it was accepted for. -/
def InTime (account : Account) (request : Request) (found : Option Enrolment) (brought : Brought)
    (row : Enrolment) : Prop :=
  match request with
  | .begin => isConfirmed found = false → row.confirmed = false
  | .agentBegin => isConfirmed found = false → row.confirmed = true → row.secret = pending found brought
  | .confirm => ∀ read step, confirms found brought = some (read, step) → row.confirmed = false →
      row.secret = read.secret ∨ row.secret ∈ account.proved
  | .agentConfirm => isConfirmed found = false → ∀ read step, confirms found brought = some (read, step) →
      row.confirmed = false → row.secret = read.secret ∨ row.secret ∈ account.proved
  | .remove => ∀ read, removes found brought = some read → row.confirmed = true → row.secret = read.secret

def Timely (account : Account) : Move → Prop
  | .write id brought => ∀ request found row, account.reading id = some (request, found) →
      account.row = some row → account.InTime request found brought row
  | _ => True

variable {account : Account} {id : Nat} {brought : Brought} {found : Option Enrolment}

theorem good_same {move : Move} (h : account.Proved) (hrow : (account.next move).row = account.row)
    (hproved : (account.next move).proved = account.proved) :
    account.Good move := by
  constructor
  · intro row hget hconfirmed
    rw [hproved]
    exact h row (hrow ▸ hget) hconfirmed
  · intro row hget hconfirmed
    exact .inl ⟨row, hrow.trans hget, hconfirmed, rfl⟩

variable {request : Request}

theorem next_write (brought : Brought) (hreading : account.reading id = some (request, found)) :
    account.next (.write id brought) =
      { account with reading := Function.update account.reading id none }.answer request found brought := by
  simp only [next, hreading]

theorem presents_write {secret : String}
    (hreading : account.reading id = some (request, found)) (h : account.Presents (.write id brought) secret) :
    ∃ read, found = some read ∧ read.secret = secret ∧ accepted request read brought = true := by
  obtain ⟨_, _, request', read, hmove, hreading', hsecret, hpresents⟩ := h
  cases hmove
  rw [hreading, Option.some.injEq, Prod.mk.injEq] at hreading'
  obtain ⟨rfl, rfl⟩ := hreading'
  exact ⟨read, rfl, hsecret, hpresents⟩

theorem good_begin (h : account.Proved) (hreading : account.reading id = some (.begin, found)) :
    account.Good (.write id brought) ↔
      ∀ row, account.row = some row → isConfirmed found = false → row.confirmed = false := by
  have hnext := next_write brought hreading
  cases hfound : isConfirmed found with
  | true =>
      refine iff_of_true (good_same h ?_ ?_) (fun _ _ => nofun) <;>
        rw [hnext, answer, begin, if_pos hfound]
  | false =>
      have hrow : (account.next (.write id brought)).row = some ⟨brought.secret, false, none, []⟩ := by
        rw [hnext, answer, begin, if_neg (by simp [hfound])]
      constructor
      · rintro ⟨_, hkept⟩ row hget _
        by_contra hconfirmed
        rcases hkept row hget (by simpa using hconfirmed) with ⟨row', hget', hconfirmed', _⟩ | hretire | hpresents
        · cases hrow.symm.trans hget'
          cases hconfirmed'
        · cases hretire
        · obtain ⟨_, _, _, hfalse⟩ := presents_write hreading hpresents
          cases hfalse
      · intro hnone
        constructor
        · intro row hget hconfirmed
          cases hrow.symm.trans hget
          cases hconfirmed
        · intro row hget hconfirmed
          exact absurd ((hnone row hget rfl).symm.trans hconfirmed) Bool.false_ne_true

theorem good_agentBegin (h : account.Proved) (hreading : account.reading id = some (.agentBegin, found)) :
    account.Good (.write id brought) ↔
      ∀ row, account.row = some row → isConfirmed found = false → row.confirmed = true →
        row.secret = pending found brought := by
  have hnext := next_write brought hreading
  cases hfound : isConfirmed found with
  | true =>
      refine iff_of_true (good_same h ?_ ?_) (fun _ _ => nofun) <;>
        rw [hnext, answer, agentBegin, if_pos hfound]
  | false =>
      have hagent : account.next (.write id brought) = { account with
          reading := Function.update account.reading id none
          row := some (account.row.elim ⟨pending found brought, false, none, []⟩ fun row =>
            { row with secret := pending found brought }) } := by
        rw [hnext, answer, agentBegin, if_neg (by simp [hfound])]
      constructor
      · rintro ⟨_, hkept⟩ row hget _ hconfirmed
        rcases hkept row hget hconfirmed with ⟨row', hget', _, hsecret⟩ | hretire | hpresents
        · rw [hagent, hget] at hget'
          cases hget'
          exact hsecret.symm
        · cases hretire
        · obtain ⟨_, _, _, hfalse⟩ := presents_write hreading hpresents
          cases hfalse
      · intro hsame
        constructor
        · intro row hget hconfirmed
          rw [hagent] at hget ⊢
          cases hrow : account.row with
          | none =>
              rw [hrow] at hget
              cases hget
              cases hconfirmed
          | some before =>
              rw [hrow] at hget
              cases hget
              exact hsame before hrow rfl hconfirmed ▸ h before hrow hconfirmed
        · intro row hget hconfirmed
          refine .inl ⟨{ row with secret := pending found brought }, ?_, hconfirmed,
            (hsame row hget rfl hconfirmed).symm⟩
          rw [hagent, hget]
          rfl

theorem some_of_confirms {read : Enrolment} {step : Int}
    (h : confirms found brought = some (read, step)) : found = some read := by
  obtain ⟨row, hfound, hmap⟩ := Option.bind_eq_some_iff.mp h
  obtain ⟨_, _, heq⟩ := Option.map_eq_some_iff.mp hmap
  rw [hfound, (Prod.mk.inj heq).1]

theorem good_confirm (h : account.Proved)
    (hreading : account.reading id = some (request, found))
    (hanswer : ∀ account : Account, account.answer request found brought = account.confirm found brought) :
    account.Good (.write id brought) ↔
      ∀ row, account.row = some row → ∀ read step, confirms found brought = some (read, step) →
        row.confirmed = false → row.secret = read.secret ∨ row.secret ∈ account.proved := by
  have hnext := next_write brought hreading
  rw [hanswer] at hnext
  cases hconfirms : confirms found brought with
  | none =>
      refine iff_of_true (good_same h ?_ ?_) (fun _ _ _ _ => nofun) <;>
        simp only [hnext, confirm, hconfirms]
  | some accepted =>
      obtain ⟨read, step⟩ := accepted
      have hagent : account.next (.write id brought) = { account with
          reading := Function.update account.reading id none
          row := account.row.map fun row =>
            { row with confirmed := true, lastStep := some step, recoveryCodes := brought.recoveryCodes }
          proved := read.secret :: account.proved } := by
        simp only [hnext, confirm, hconfirms]
      constructor
      · rintro ⟨hproved, _⟩ row hget _ _ heq _
        cases heq
        rw [hagent] at hproved
        have hsecret := hproved { row with
          confirmed := true, lastStep := some step, recoveryCodes := brought.recoveryCodes }
          (congrArg (Option.map _) hget) rfl
        exact List.mem_cons.mp hsecret
      · intro hsame
        constructor
        · intro row hget _
          rw [hagent] at hget ⊢
          obtain ⟨before, hbefore, rfl⟩ := Option.map_eq_some_iff.mp hget
          cases hconfirmed : before.confirmed with
          | true => exact .tail _ (h before hbefore hconfirmed)
          | false => exact List.mem_cons.mpr (hsame before hbefore read step rfl hconfirmed)
        · intro row hget _
          refine .inl ⟨{ row with
            confirmed := true, lastStep := some step, recoveryCodes := brought.recoveryCodes }, ?_, rfl, rfl⟩
          rw [hagent, hget]
          rfl

theorem good_remove (h : account.Proved) (hreading : account.reading id = some (.remove, found)) :
    account.Good (.write id brought) ↔
      ∀ row, account.row = some row → ∀ read, removes found brought = some read → row.confirmed = true →
        row.secret = read.secret := by
  have hnext := next_write brought hreading
  cases hremoves : removes found brought with
  | none =>
      refine iff_of_true (good_same h ?_ ?_) (fun _ _ _ => nofun) <;>
        rw [hnext, answer, remove, hremoves, if_neg (by simp)]
  | some read =>
      have hrow : (account.next (.write id brought)).row = none := by
        rw [hnext, answer, remove, hremoves, if_pos (by simp)]
      have hread : found = some read := (Option.filter_eq_some_iff.mp hremoves).1
      constructor
      · rintro ⟨_, hkept⟩ row hget _ heq hconfirmed
        cases heq
        rcases hkept row hget hconfirmed with ⟨row', hget', _⟩ | hretire | hpresents
        · cases hrow.symm.trans hget'
        · cases hretire
        · obtain ⟨read', hread', hsecret, _⟩ := presents_write hreading hpresents
          cases hread.symm.trans hread'
          exact hsecret.symm
      · intro hsame
        constructor
        · intro row hget
          cases hrow.symm.trans hget
        · intro row hget hconfirmed
          refine .inr (.inr ⟨id, brought, .remove, read, rfl, hread ▸ hreading,
            (hsame row hget read rfl hconfirmed).symm, ?_⟩)
          rw [accepted, ← hread, hremoves]
          rfl

theorem timely_write (hreading : account.reading id = some (request, found)) :
    account.Timely (.write id brought) ↔
      ∀ row, account.row = some row → account.InTime request found brought row := by
  constructor
  · intro h row hget
    exact h request found row hreading hget
  · intro h request' found' row hreading' hget
    rw [hreading, Option.some.injEq, Prod.mk.injEq] at hreading'
    obtain ⟨rfl, rfl⟩ := hreading'
    exact h row hget

theorem good_write (h : account.Proved) :
    account.Good (.write id brought) ↔
      account.Timely (.write id brought) := by
  cases hreading : account.reading id with
  | none =>
      refine iff_of_true (good_same h ?_ ?_) fun request found row hreading' _ => ?_
      · simp only [next, hreading]
      · simp only [next, hreading]
      · cases hreading.symm.trans hreading'
  | some reading =>
      obtain ⟨request, found⟩ := reading
      rw [timely_write hreading]
      cases request with
      | begin => exact good_begin h hreading
      | agentBegin => exact good_agentBegin h hreading
      | confirm => exact good_confirm h hreading fun _ => rfl
      | remove => exact good_remove h hreading
      | agentConfirm =>
          cases hfound : isConfirmed found with
          | true =>
              refine iff_of_true (good_same h ?_ ?_) fun row _ hnot => ?_
              · rw [next_write _ hreading, answer, agentConfirm, if_pos hfound]
              · rw [next_write _ hreading, answer, agentConfirm, if_pos hfound]
              · cases hfound.symm.trans hnot
          | false =>
              rw [good_confirm h hreading fun account => by rw [answer, agentConfirm, if_neg (by simp [hfound])]]
              constructor
              · intro hsame row hget _
                exact hsame row hget
              · intro hsame row hget
                exact hsame row hget hfound

omit [Library] [Runtime] in
theorem spent_confirmed (answer : Answer) (row : Enrolment) :
    (answer.write row).confirmed = row.confirmed ∧ (answer.write row).secret = row.secret := by
  cases answer <;> exact ⟨rfl, rfl⟩

theorem good_next (h : account.Proved) (move : Move) :
    account.Good move ↔ account.Timely move := by
  cases move with
  | read => exact iff_of_true (good_same h rfl rfl) trivial
  | write => exact good_write h
  | spend answer =>
      refine iff_of_true ⟨fun row hget hconfirmed => ?_, fun row hget hconfirmed => ?_⟩ trivial
      · obtain ⟨before, hbefore, rfl⟩ := Option.map_eq_some_iff.mp hget
        rw [(spent_confirmed answer before).1] at hconfirmed
        rw [(spent_confirmed answer before).2]
        exact h before hbefore hconfirmed
      · refine .inl ⟨answer.write row, congrArg (Option.map _) hget, ?_, (spent_confirmed answer row).2⟩
        exact (spent_confirmed answer row).1.trans hconfirmed
  | retire =>
      refine iff_of_true ⟨fun row hget => ?_, fun row _ _ => .inr (.inl rfl)⟩ trivial
      cases hget

/-- In every order of starts, confirmations and removals, a confirmed enrolment is for a secret that was
proved and stays, exactly when every write comes in time. -/
theorem stays_proved_iff (start : Account) (hstart : start.Proved) (moves : List Move) :
    Steps.Each next Good start moves ↔
      Steps.Each next Timely start moves := by
  have hkeeps : ∀ (account : Account) (move : Move), account.Proved → account.Good move →
      (account.next move).Proved := fun _ _ _ hgood => hgood.1
  exact Steps.each_iff hkeeps (fun _ move h => good_next h move) hstart moves

def fresh : Account := ⟨none, fun _ => none, []⟩

/-- At 59 s, the code of the first step of the secret. -/
def scanned : Brought :=
  { secret := "GEZDGNBVGY3TQOJQGEZDGNBVGY3TQOJQ"
    code := "287082"
    recoveryCodes := ["spare"]
    now := 59000000 }

def other : Brought := { scanned with secret := "JBSWY3DPEHPK3PXPJBSWY3DPEHPK3PXP" }

def oneDevice : List Move :=
  [.read 0 .begin, .write 0 scanned, .read 1 .confirm, .write 1 scanned]

omit [Library] [Runtime] in
theorem stays_proved_oneDevice :
    letI := Library.firstSteps
    letI := Runtime.latin
    Steps.Each next Good fresh oneDevice := by
  let _ := Library.firstSteps
  let _ := Runtime.latin
  refine (stays_proved_iff fresh (fun _ => nofun) oneDevice).mpr ⟨trivial, ?_, trivial, ?_, trivial⟩
  · intro request found row _ hrow
    cases hrow
  · intro request found row hreading hrow
    have hstarted : (⟨"GEZDGNBVGY3TQOJQGEZDGNBVGY3TQOJQ", false, none, []⟩ : Enrolment) = row :=
      Option.some.inj hrow
    have hread : (Request.confirm, some row) = (request, found) := hstarted ▸ Option.some.inj hreading
    cases hread
    intro read step hconfirms _
    exact .inl (congrArg Enrolment.secret (Option.some.inj (some_of_confirms hconfirms)))

/-- A start that waited writes over the enrolment confirmed since. -/
def startedTwice : List Move :=
  [.read 0 .begin, .write 0 scanned, .read 1 .begin, .read 2 .confirm, .write 2 scanned, .write 1 other]

/-- The code is for the first secret, the enrolment it confirms has the second. -/
def confirmedLate : List Move :=
  [.read 0 .begin, .write 0 scanned, .read 1 .confirm, .read 2 .begin, .write 2 other, .write 1 scanned]

/-- The machine hands its own secret out and puts it under the confirmation. -/
def startedAtMachine : List Move :=
  [.read 0 .agentBegin, .read 1 .begin, .write 1 scanned, .read 2 .confirm, .write 2 scanned, .write 0 other]

omit [Library] [Runtime] in
theorem enrolled_over :
    letI := Library.firstSteps
    letI := Runtime.latin
    ¬ Steps.Each next Good fresh startedTwice ∧
      ¬ Steps.Each next Good fresh confirmedLate ∧
      ¬ Steps.Each next Good fresh startedAtMachine := by
  let _ := Library.firstSteps
  let _ := Runtime.latin
  refine ⟨fun h => ?_, fun h => ?_, fun h => ?_⟩
  · obtain ⟨_, hkept⟩ := h.2.2.2.2.2.1
    rcases hkept _ rfl rfl with ⟨_, hrow, hconfirmed, _⟩ | hretire | hpresents
    · cases hrow
      cases hconfirmed
    · cases hretire
    · obtain ⟨_, _, _, haccepted⟩ := presents_write rfl hpresents
      cases haccepted
  · obtain ⟨hproved, _⟩ := h.2.2.2.2.2.1
    exact absurd (hproved _ rfl rfl) (by decide +kernel)
  · obtain ⟨hproved, _⟩ := h.2.2.2.2.2.1
    exact absurd (hproved _ rfl rfl) (by decide +kernel)

end Account

end OpenDirectory.Enrolling
