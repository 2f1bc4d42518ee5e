import OpenDirectory.Address
import OpenDirectory.Lists
import OpenDirectory.Steps
import OpenDirectory.Value

/-! The certificates a domain has issued and withdrawn, and the lists of those withdrawn. A serial number
is kept as a text in base 16 and read back for a list. A domain is exported to a file and made the one a
file describes, which puts the file's certificates in the place of those there were. -/

namespace OpenDirectory.Revocation

/-- `format(number, "x")` -/
def hexText (number : Nat) : String := String.ofList (Nat.toDigits 16 number)

def isSpace (c : Char) : Bool := c ∈ [' ', '\t', '\n', '\x0b', '\x0c', '\r']

/-- One underscore may follow the prefix of a base. -/
def withoutPrefix : List Char → List Char
  | '0' :: x :: '_' :: rest => if x = 'x' ∨ x = 'X' then rest else '0' :: x :: '_' :: rest
  | '0' :: x :: rest => if x = 'x' ∨ x = 'X' then rest else '0' :: x :: rest
  | text => text

/-- The digits of a number, with single underscores between them. -/
def hexDigits : List Char → Option (List Nat)
  | [] => none
  | [c] => (Address.hexDigit c).map ([·])
  | c :: '_' :: rest => do return (← Address.hexDigit c) :: (← hexDigits rest)
  | c :: rest => do return (← Address.hexDigit c) :: (← hexDigits rest)

def hexNatural (text : List Char) : Option Nat :=
  (hexDigits (withoutPrefix text)).map (·.foldl (fun number digit => 16 * number + digit) 0)

theorem hexDigit_digitChar {digit : Nat} (h : digit < 16) : Address.hexDigit (Nat.digitChar digit) = some digit := by
  revert h
  revert digit
  decide

theorem plain_digitChar {digit : Nat} (h : digit < 16) :
    (Nat.digitChar digit).toNat < 127 ∧ isSpace (Nat.digitChar digit) = false ∧
      Nat.digitChar digit ∉ ['_', 'x', 'X', '-', '+'] := by
  revert h
  revert digit
  decide

theorem toDigits_eq (number : Nat) : ∃ digits : List Nat, digits ≠ [] ∧ (∀ digit ∈ digits, digit < 16) ∧
    Nat.toDigits 16 number = digits.map Nat.digitChar ∧
      digits.foldl (fun number digit => 16 * number + digit) 0 = number := by
  induction number using Nat.base_induction 16 (by decide) with
  | single digit hdigit =>
      exact ⟨[digit], List.cons_ne_nil _ _, by simpa using hdigit,
        Nat.toDigits_of_lt_base hdigit, by simp⟩
  | digit number digit hdigit hnumber ih =>
      obtain ⟨digits, hsome, hdigits, heq, hvalue⟩ := ih
      refine ⟨digits ++ [digit], by simp, ?_, ?_, ?_⟩
      · intro other hother
        rcases List.mem_append.mp hother with hother | hother
        · exact hdigits other hother
        · rw [List.mem_singleton.mp hother]
          exact hdigit
      · rw [← Nat.toDigits_append_toDigits (by decide) hnumber hdigit, heq, Nat.toDigits_of_lt_base hdigit,
          List.map_append, List.map_singleton]
      · rw [List.foldl_append, hvalue]
        rfl

theorem hexDigits_map {digits : List Nat} (hsome : digits ≠ []) (h : ∀ digit ∈ digits, digit < 16) :
    hexDigits (digits.map Nat.digitChar) = some digits := by
  induction digits with
  | nil => exact absurd rfl hsome
  | cons digit digits ih =>
      have hdigit := h digit List.mem_cons_self
      cases digits with
      | nil => simp [hexDigits, hexDigit_digitChar hdigit]
      | cons other digits =>
          have hrest := ih (List.cons_ne_nil _ _) fun d hd => h d (List.mem_cons_of_mem _ hd)
          have hother := (plain_digitChar (h other (List.mem_cons_of_mem _ List.mem_cons_self))).2.2
          simp only [List.map_cons] at hrest ⊢
          rw [hexDigits.eq_4 _ _ (by simp) (by
            rintro _ heq
            rw [(List.cons.inj heq).1] at hother
            exact hother List.mem_cons_self), hrest, hexDigit_digitChar hdigit]
          rfl

theorem withoutPrefix_map {digits : List Nat} (h : ∀ digit ∈ digits, digit < 16) :
    withoutPrefix (digits.map Nat.digitChar) = digits.map Nat.digitChar := by
  have hmark : ∀ c ∈ digits.map Nat.digitChar, ¬ (c = 'x' ∨ c = 'X') := by
    intro c hc hmark
    obtain ⟨digit, hdigit, rfl⟩ := List.mem_map.mp hc
    have hnot := (plain_digitChar (h digit hdigit)).2.2
    rcases hmark with heq | heq <;> rw [heq] at hnot <;> exact hnot (by decide)
  generalize digits.map Nat.digitChar = text at hmark
  unfold withoutPrefix
  split
  · rw [if_neg (hmark _ (by simp))]
  · rw [if_neg (hmark _ (by simp))]
  · rfl

variable [Runtime]

/-- The digits and blanks of every script as those of the basic Latin alphabet. -/
def transformDecimalAndSpace (c : Char) : Char :=
  if c.toNat < 127 then c
  else if Runtime.blank c then ' '
  else match Runtime.digit c with
    | some digit => Nat.digitChar digit
    | none => '?'

/-- `int(serial, 16)` -/
def int16 (serial : String) : Option Int :=
  match (Text.strip isSpace (String.ofList (serial.toList.map transformDecimalAndSpace))).toList with
  | '-' :: rest => (hexNatural rest).map fun number => -(number : Int)
  | '+' :: rest => (hexNatural rest).map fun number => (number : Int)
  | rest => (hexNatural rest).map fun number => (number : Int)

theorem int16_hexText (number : Nat) : int16 (hexText number) = some (number : Int) := by
  obtain ⟨digits, hsome, hdigits, heq, hvalue⟩ := toDigits_eq number
  have hchars : ∀ c ∈ digits.map Nat.digitChar, c.toNat < 127 ∧ isSpace c = false ∧
      c ∉ ['_', 'x', 'X', '-', '+'] := by
    intro c hc
    obtain ⟨digit, hdigit, rfl⟩ := List.mem_map.mp hc
    exact plain_digitChar (hdigits digit hdigit)
  have hplain : (digits.map Nat.digitChar).map transformDecimalAndSpace = digits.map Nat.digitChar := by
    refine (List.map_congr_left fun c hc => ?_).trans (List.map_id _)
    rw [transformDecimalAndSpace, if_pos (hchars c hc).1, id]
  have hstrip : Text.strip isSpace (String.ofList (digits.map Nat.digitChar)) =
      String.ofList (digits.map Nat.digitChar) := by
    refine Text.strip_eq_self (fun c hc => (hchars c ?_).2.1) (fun c hc => (hchars c ?_).2.1)
    · rw [String.toList_ofList] at hc
      exact List.mem_of_mem_head? hc
    · rw [String.toList_ofList] at hc
      exact List.mem_of_mem_getLast? hc
  have hnatural : hexNatural (digits.map Nat.digitChar) = some number := by
    rw [hexNatural, withoutPrefix_map hdigits, hexDigits_map hsome hdigits, Option.map_some, hvalue]
  unfold int16
  rw [hexText, heq, String.toList_ofList, hplain, hstrip, String.toList_ofList]
  split
  · rename_i rest hrest
    exact absurd List.mem_cons_self (by rw [← hrest]; intro hmem; exact (hchars _ hmem).2.2 (by decide))
  · rename_i rest hrest
    exact absurd List.mem_cons_self (by rw [← hrest]; intro hmem; exact (hchars _ hmem).2.2 (by decide))
  · rw [hnatural]
    rfl

/-- A row of `ca_certificate`; the columns that nothing here reads are kept as an export writes them. -/
structure Certificate where
  serial : String
  notAfter : Int
  revokedAt : Option Int := none
  rest : Value.Fields := []
  deriving DecidableEq

structure World where
  initialised : Bool
  table : List Certificate
  deriving DecidableEq

/-- An insert, which the primary key refuses for a serial that is there. -/
def record (table : List Certificate) (certificate : Certificate) : Option (List Certificate) :=
  if table.any (·.serial = certificate.serial) then none else some (table ++ [certificate])

/-- A certificate under a number drawn at random, for an operator or for a machine that asks for its own. -/
def issue (world : World) (number : Nat) (notAfter : Int) (rest : Value.Fields) : World :=
  if world.initialised then
    { world with
      table := (record world.table ⟨hexText number, notAfter, none, rest⟩).getD world.table }
  else world

/-- What a request may name: 1 to 64 digits. -/
def isSerial (serial : String) : Bool :=
  0 < serial.length ∧ serial.length ≤ 64 ∧ serial.toList.all fun c => (Address.hexDigit c).isSome

def withdraw (serial : String) (now : Int) (certificate : Certificate) : Certificate :=
  if certificate.serial = serial then { certificate with revokedAt := some now } else certificate

/-- The domain after the request, where it is not refused. -/
def revoke (world : World) (serial : String) (now : Int) : Option World :=
  if isSerial serial ∧ world.table.any (fun row => row.serial = serial ∧ row.revokedAt = none) then
    some { world with table := world.table.map (withdraw serial now) }
  else none

structure Crl where
  lastUpdate : Int
  nextUpdate : Int
  revoked : List (Int × Int)
  deriving DecidableEq

/-- An entry is refused with a number that is not positive or of more than 159 bits, and with a moment
before 1950. -/
def revokedCertificate (serial : String) (revokedAt : Int) : Option (Int × Int) := do
  let number ← int16 serial
  guard (0 < number ∧ number < 2 ^ 159 ∧ -631152000 ≤ revokedAt)
  return (number, revokedAt)

def buildCrl (initialised : Bool) (revoked : List (String × Int)) (now : Int) : Option Crl := do
  guard initialised
  let entries ← revoked.mapM fun entry => revokedCertificate entry.1 entry.2
  return { lastUpdate := now, nextUpdate := now + 7 * 86400, revoked := entries }

/-- `WHERE revoked_at IS NOT NULL` -/
def revokedRows (table : List Certificate) : List (String × Int) :=
  table.filterMap fun row => row.revokedAt.map fun revokedAt => (row.serial, revokedAt)

/-- The list as the console shows it and as clients fetch it, where it can be produced. -/
def crl (world : World) (now : Int) : Option Crl :=
  buildCrl world.initialised (revokedRows world.table) now

def volatileTables : List String := [
  "admin_session", "agent_report", "audit_log", "computer_event", "computer_fact", "computer_log",
  "deleted_object", "domain_backup", "enrolled_certificate", "login_attempt", "node_task", "rd_session",
  "schema_migration", "schema_migrations", "totp_enrolment", "push_enrolment", "push_challenge",
  "join_token"]

def withheld : String := "<withheld from the export>"

/-- The columns of `ca_certificate`. -/
def known : List String := [
  "serial", "subject", "sans", "profile", "certificate_pem", "fingerprint", "not_before", "not_after",
  "issued_by", "issued_at", "revoked_at", "revoked_by", "revocation_reason"]

/-- A value for a column. -/
inductive Argument where
  | value (value : Value)
  | bytes (octets : List Nat)

/-- `bytes.fromhex` -/
def fromHex : List Char → Option (List Nat)
  | [] => some []
  | [c] => if isSpace c then some [] else none
  | c :: d :: rest =>
      if isSpace c then fromHex (d :: rest)
      else do return (16 * (← Address.hexDigit c) + (← Address.hexDigit d)) :: (← fromHex rest)

def restore : Value → Except Raised Argument
  | .obj [("__bytes__", written)] =>
      match written with
      | .str text => (fromHex text.toList).elim (.error .valueError) fun octets => .ok (.bytes octets)
      | _ => .error .typeError
  | value => .ok (.value value)

/-- What the database and its driver do on their own: how an export writes a moment, and the row that
the values for some columns make, unless they are refused. -/
structure Driver where
  isoformat : Int → String
  insert : List (String × Argument) → Option Certificate

variable (driver : Driver)

/-- The part of a file that a table's rows make. -/
def exportedRow (row : Certificate) : Value.Fields :=
  ("serial", .str row.serial) :: ("not_after", .str (driver.isoformat row.notAfter)) ::
    ("revoked_at", row.revokedAt.elim .null fun moment => .str (driver.isoformat moment)) :: row.rest

def exportDomain (world : World) : Value :=
  .obj [("odm_export", .int 1), ("database", .obj [
    ("ca_certificate", .arr (world.table.map fun row => .obj (exportedRow driver row)))])]

def column (row name : Value) : Except Raised (Option (String × Value)) :=
  match name with
  | .str name =>
      if name ∈ known then do
        let value ← row.item name
        return if value = .str withheld then none else some (name, value)
      else .ok none
  | .arr _ | .obj _ => .error .typeError
  | _ => .ok none

def columns (row : Value) : Except Raised (List (String × Value)) := do
  return (← (← row.iterate).mapM (column row)).filterMap id

/-- The row that one of a file becomes; one without a column that is known is left out. -/
def rowOf (row : Value) : Except Raised (Option Certificate) := do
  let columns ← columns row
  if columns = [] then return none
  let values ← columns.mapM fun column => return (column.1, ← restore column.2)
  match driver.insert values with
  | some row => return some row
  | none => .error .databaseError

def replaceRow (table : List Certificate) (row : Value) : Except Raised (List Certificate) := do
  match ← rowOf driver row with
  | some row => (record table row).elim (.error .databaseError) .ok
  | none => return table

def replaceTable (rows : Value) : Except Raised (List Certificate) := do
  (← rows.iterate).foldlM (replaceRow driver) []

/-- What else an import does: the directory and the zones, its other tables, and the end of the
transaction. -/
structure Rest where
  directory : Except Raised Unit
  table : String → Value → Except Raised Unit
  commit : Except Raised Unit

def database (document : Value) : Except Raised Value.Fields := do
  match ← document.get "database" with
  | some found => if found.truthy then found.entries else .ok []
  | none => .ok []

/-- `document.get("odm_export") == 1` -/
def isFormat : Value → Bool
  | .int 1 | .bool true => true
  | .float number => number.text = "1.0"
  | _ => false

def check (document : Value) : Except Raised Unit := do
  match document with
  | .obj fields => if ((Dict.get fields "odm_export").map isFormat).getD false then .ok () else .error .valueError
  | _ => .error .valueError

def importTable (rest : Rest) (table : List Certificate) (entry : String × Value) :
    Except Raised (List Certificate) :=
  if entry.1 ∈ volatileTables then .ok table
  else if entry.1 = "ca_certificate" then replaceTable driver entry.2
  else do
    rest.table entry.1 entry.2
    return table

/-- The certificates after an import, where nothing is raised on the way. -/
def imported (rest : Rest) (table : List Certificate) (document : Value) :
    Except Raised (List Certificate) := do
  check document
  rest.directory
  let table ← (← database document).foldlM (importTable driver rest) table
  rest.commit
  return table

inductive Move where
  | create
  | issue (number : Nat) (notAfter : Int) (rest : Value.Fields)
  | revoke (serial : String) (now : Int)
  | publish (now : Int)
  | exportDomain
  | importDomain (apply : Bool) (document : Value) (rest : Rest)

/-- An import that raises leaves the certificates as they were. -/
def next (world : World) : Move → World
  | .create => { world with initialised := true }
  | .issue number notAfter rest => issue world number notAfter rest
  | .revoke serial now => (revoke world serial now).getD world
  | .publish _ | .exportDomain => world
  | .importDomain apply document rest =>
      if apply then
        match imported driver rest world.table document with
        | .ok table => { world with table }
        | .error _ => world
      else world

/-- The table has a row under a serial that is withdrawn. -/
def Revoked (serial : String) (table : List Certificate) : Prop :=
  ∃ row ∈ table, row.serial = serial ∧ row.revokedAt ≠ none

/-- A row of a file that makes a withdrawn one under a serial, or is refused, and the file with it. -/
def Withdrawn (driver : Driver) (serial : String) (row : Value) : Prop :=
  match rowOf driver row with
  | .ok (some made) => made.serial = serial ∧ made.revokedAt ≠ none
  | .ok none => False
  | .error _ => True

/-- A file that is applied and holds certificates has such a row among them. -/
def Brings (driver : Driver) (serial : String) : Move → Prop
  | .importDomain true document _ => ∀ entries, database document = .ok entries → ∀ entry ∈ entries,
      entry.1 = "ca_certificate" → ∀ rows, entry.2.iterate = .ok rows → ∃ row ∈ rows, Withdrawn driver serial row
  | _ => True

variable {driver} {world revoked : World} {serial : String} {table made : List Certificate} {now : Int}

section
omit [Runtime]

theorem eq_of_record {row : Certificate} (h : record table row = some made) : made = table ++ [row] := by
  unfold record at h
  split at h
  · exact absurd h (Option.some_ne_none _).symm
  · exact (Option.some.inj h).symm

theorem Revoked.record (h : Revoked serial table) {row : Certificate} (hrecord : record table row = some made) :
    Revoked serial made := by
  obtain ⟨old, hmem, hold⟩ := h
  rw [eq_of_record hrecord]
  exact ⟨old, List.mem_append_left _ hmem, hold⟩

theorem Revoked.withdraw (h : Revoked serial table) (other : String) :
    Revoked serial (table.map (withdraw other now)) := by
  obtain ⟨row, hmem, hserial, hrevoked⟩ := h
  refine ⟨_, List.mem_map_of_mem hmem, ?_⟩
  unfold Revocation.withdraw
  split
  · exact ⟨hserial, Option.some_ne_none _⟩
  · exact ⟨hserial, hrevoked⟩

theorem Revoked.issue (h : Revoked serial world.table) (number : Nat) (notAfter : Int) (rest : Value.Fields) :
    Revoked serial (issue world number notAfter rest).table := by
  unfold Revocation.issue
  split
  · cases hrecord : Revocation.record world.table ⟨hexText number, notAfter, none, rest⟩ with
    | none => exact h
    | some made => exact h.record hrecord
  · exact h

theorem revoke_iff : revoke world serial now = some revoked ↔
    (isSerial serial = true ∧ ∃ row ∈ world.table, row.serial = serial ∧ row.revokedAt = none) ∧
      revoked = { world with table := world.table.map (withdraw serial now) } := by
  unfold revoke
  split
  · rename_i h
    simp only [List.any_eq_true, decide_eq_true_eq] at h
    exact ⟨fun heq => ⟨h, (Option.some.inj heq).symm⟩, fun heq => congrArg some heq.2.symm⟩
  · rename_i h
    simp only [List.any_eq_true, decide_eq_true_eq] at h
    exact ⟨fun heq => absurd heq (Option.some_ne_none _).symm, fun heq => absurd heq.1 h⟩

theorem table_revoke (h : revoke world serial now = some revoked) :
    revoked.table = world.table.map (withdraw serial now) := by
  rw [(revoke_iff.mp h).2]

theorem revoked_revoke (h : revoke world serial now = some revoked) : Revoked serial revoked.table := by
  obtain ⟨_, row, hmem, hserial, _⟩ := (revoke_iff.mp h).1
  rw [table_revoke h]
  refine ⟨_, List.mem_map_of_mem hmem, ?_⟩
  rw [withdraw, if_pos hserial]
  exact ⟨hserial, Option.some_ne_none _⟩

theorem eq_or_record_of_replaceRow {row : Value} (h : replaceRow driver table row = .ok made) :
    (rowOf driver row = .ok none ∧ made = table) ∨
      ∃ certificate, rowOf driver row = .ok (some certificate) ∧ record table certificate = some made := by
  obtain ⟨certificate, hrow, hmade⟩ := Except.bind_eq_ok.mp h
  cases certificate with
  | none => exact .inl ⟨hrow, (Except.ok.inj hmade).symm⟩
  | some certificate =>
      refine .inr ⟨certificate, hrow, ?_⟩
      dsimp only at hmade
      cases hrecord : record table certificate with
      | none =>
          rw [hrecord] at hmade
          cases hmade
      | some other =>
          rw [hrecord] at hmade
          rw [Except.ok.inj hmade]

theorem Revoked.replaceRow (h : Revoked serial table) {row : Value} (hrow : replaceRow driver table row = .ok made) :
    Revoked serial made := by
  rcases eq_or_record_of_replaceRow hrow with ⟨_, rfl⟩ | ⟨certificate, _, hrecord⟩
  · exact h
  · exact h.record hrecord

theorem revoked_replaceTable {rows : Value} {items : List Value} (hitems : rows.iterate = .ok items) {row : Value}
    (hmem : row ∈ items) (hrow : Withdrawn driver serial row) (h : replaceTable driver rows = .ok made) :
    Revoked serial made := by
  obtain ⟨_, hiterate, hfold⟩ := Except.bind_eq_ok.mp h
  rw [hitems] at hiterate
  cases hiterate
  obtain ⟨before, after, rfl⟩ := List.append_of_mem hmem
  rw [List.foldlM_append] at hfold
  obtain ⟨first, _, hfold⟩ := Except.bind_eq_ok.mp hfold
  rw [List.foldlM_cons] at hfold
  obtain ⟨second, hsecond, hfold⟩ := Except.bind_eq_ok.mp hfold
  refine List.foldlM_keeps (Revoked serial) (fun _ _ _ _ hkeeps hstep => hkeeps.replaceRow hstep) ?_ hfold
  unfold Withdrawn at hrow
  rcases eq_or_record_of_replaceRow hsecond with ⟨hnone, _⟩ | ⟨certificate, hsome, hrecord⟩
  · rw [hnone] at hrow
    exact hrow.elim
  · rw [hsome] at hrow
    rw [eq_of_record hrecord]
    exact ⟨certificate, List.mem_append_right _ List.mem_cons_self, hrow⟩

theorem Revoked.imported (h : Revoked serial table) {document : Value} {rest : Rest}
    (hbrings : Brings driver serial (.importDomain true document rest))
    (himported : imported driver rest table document = .ok made) : Revoked serial made := by
  obtain ⟨_, _, himported⟩ := Except.bind_eq_ok.mp himported
  obtain ⟨_, _, himported⟩ := Except.bind_eq_ok.mp himported
  obtain ⟨entries, hentries, himported⟩ := Except.bind_eq_ok.mp himported
  obtain ⟨last, hfold, himported⟩ := Except.bind_eq_ok.mp himported
  obtain ⟨_, _, himported⟩ := Except.bind_eq_ok.mp himported
  cases himported
  refine List.foldlM_keeps (Revoked serial) (fun state entry next hentry hkeeps hstep => ?_) h hfold
  unfold importTable at hstep
  split at hstep
  · cases hstep
    exact hkeeps
  · split at hstep
    · rename_i hname
      obtain ⟨items, hitems, _⟩ := Except.bind_eq_ok.mp hstep
      obtain ⟨row, hmem, hrow⟩ := hbrings entries hentries entry hentry hname items hitems
      exact revoked_replaceTable hitems hmem hrow hstep
    · obtain ⟨_, _, hstep⟩ := Except.bind_eq_ok.mp hstep
      cases hstep
      exact hkeeps

theorem Revoked.next (h : Revoked serial world.table) {move : Move} (hbrings : Brings driver serial move) :
    Revoked serial (next driver world move).table := by
  cases move with
  | create => exact h
  | issue number notAfter rest => exact h.issue number notAfter rest
  | revoke other now =>
      cases hrequest : Revocation.revoke world other now with
      | none =>
          simp only [Revocation.next, hrequest]
          exact h
      | some made =>
          simp only [Revocation.next, hrequest]
          rw [Option.getD_some, table_revoke hrequest]
          exact h.withdraw other
  | publish now => exact h
  | exportDomain => exact h
  | importDomain apply document rest =>
      unfold Revocation.next
      cases apply with
      | false => exact h
      | true =>
          cases himported : Revocation.imported driver rest world.table document with
          | error raised =>
              simp only [himported, if_true]
              exact h
          | ok made =>
              simp only [himported, if_true]
              exact h.imported hbrings himported

end

theorem eq_of_revokedCertificate {number revokedAt : Int} (hnumber : int16 serial = some number) {entry : Int × Int}
    (h : revokedCertificate serial revokedAt = some entry) : entry = (number, revokedAt) := by
  rw [revokedCertificate, hnumber] at h
  obtain ⟨_, hsame, h⟩ := Option.bind_eq_some_iff.mp h
  cases hsame
  obtain ⟨_, _, h⟩ := Option.bind_eq_some_iff.mp h
  exact (Option.some.inj h).symm

theorem Revoked.listed (h : Revoked serial world.table) {number : Int} (hnumber : int16 serial = some number)
    {list : Crl} (hlist : crl world now = some list) : ∃ revokedAt, (number, revokedAt) ∈ list.revoked := by
  obtain ⟨row, hmem, hserial, hrevoked⟩ := h
  obtain ⟨revokedAt, hat⟩ := Option.ne_none_iff_exists'.mp hrevoked
  have hentry : (serial, revokedAt) ∈ revokedRows world.table :=
    List.mem_filterMap.mpr ⟨row, hmem, by rw [hat, Option.map_some, hserial]⟩
  obtain ⟨_, _, hlist⟩ := Option.bind_eq_some_iff.mp hlist
  obtain ⟨entries, hentries, hlist⟩ := Option.bind_eq_some_iff.mp hlist
  rw [← Option.some.inj hlist]
  obtain ⟨made, hmade, hof⟩ := List.exists_of_forall₂ (List.mapM_eq_some_iff.mp hentries) _ hentry
  refine ⟨revokedAt, ?_⟩
  rwa [← eq_of_revokedCertificate hnumber hof]

theorem stays_listed {number : Nat} (hrevoked : revoke world (hexText number) now = some revoked)
    {later : List Move} (hlater : ∀ move ∈ later, Brings driver (hexText number) move) {moment : Int} {list : Crl}
    (hlist : crl (later.foldl (next driver) revoked) moment = some list) :
    ∃ revokedAt, ((number : Int), revokedAt) ∈ list.revoked := by
  have hstays : Revoked (hexText number) (later.foldl (next driver) revoked).table := by
    refine List.foldlRecOn later (next driver) (motive := fun world => Revoked _ world.table)
      (revoked_revoke hrevoked) fun world hkeeps move hmove => ?_
    exact hkeeps.next (hlater move hmove)
  exact hstays.listed (int16_hexText number) hlist

section
omit [Runtime]

theorem hexText_ne_withheld (number : Nat) : hexText number ≠ withheld := by
  intro h
  obtain ⟨digits, _, hdigits, heq, _⟩ := toDigits_eq number
  have hmark : '<' ∈ (hexText number).toList := by
    rw [h]
    decide
  rw [hexText, String.toList_ofList, heq] at hmark
  obtain ⟨digit, hdigit, hchar⟩ := List.mem_map.mp hmark
  have hlt := hdigits digit hdigit
  revert hchar
  revert hlt
  clear hdigit
  revert digit
  decide

theorem rowOf_ne_none {serial : String} (hserial : serial ≠ withheld) (fields : Value.Fields) :
    rowOf driver (.obj (("serial", .str serial) :: fields)) ≠ .ok none := by
  intro h
  obtain ⟨columns, hcolumns, h⟩ := Except.bind_eq_ok.mp h
  obtain ⟨_, hnames, hcolumns⟩ := Except.bind_eq_ok.mp hcolumns
  cases hnames
  have hfirst : column (.obj (("serial", .str serial) :: fields)) (.str "serial") =
      .ok (some ("serial", .str serial)) := by
    have hvalue : Value.str serial ≠ .str withheld := fun heq => hserial (Value.str.inj heq)
    simp only [column, if_pos (by decide : "serial" ∈ known)]
    simp [Value.item, Dict.get, hvalue, bind, Except.bind, pure, Except.pure]
  have hsome : columns ≠ [] := by
    simp only [Dict.keys, List.map_cons, List.mapM_cons, hfirst] at hcolumns
    obtain ⟨found, hfound, hcolumns⟩ := Except.bind_eq_ok.mp hcolumns
    obtain ⟨_, hmade, hfound⟩ := Except.bind_eq_ok.mp hfound
    cases hmade
    obtain ⟨rest, _, hfound⟩ := Except.bind_eq_ok.mp hfound
    cases hfound
    cases hcolumns
    simp
  rw [if_neg hsome] at h
  obtain ⟨values, _, h⟩ := Except.bind_eq_ok.mp h
  cases hinsert : driver.insert values <;> simp [hinsert, pure, Except.pure] at h

/-- A file taken after a certificate was withdrawn brings it, where the database gives back what it gave. -/
theorem brings_exportDomain {number : Nat} (h : Revoked (hexText number) world.table)
    (hkept : ∀ row made, rowOf driver (.obj (exportedRow driver row)) = .ok (some made) →
      made.serial = row.serial ∧ (made.revokedAt = none → row.revokedAt = none)) (rest : Rest) :
    Brings driver (hexText number) (.importDomain true (exportDomain driver world) rest) := by
  rintro _ ⟨⟩ entry hentry _ rows hrows
  cases List.mem_singleton.mp hentry
  cases hrows
  obtain ⟨row, hmem, hserial, hrevoked⟩ := h
  refine ⟨.obj (exportedRow driver row), List.mem_map_of_mem hmem, ?_⟩
  unfold Withdrawn
  cases hrow : rowOf driver (.obj (exportedRow driver row)) with
  | error raised => trivial
  | ok made =>
      cases made with
      | none =>
          have hne : row.serial ≠ withheld := hserial ▸ hexText_ne_withheld number
          exact absurd hrow (rowOf_ne_none hne _)
      | some made =>
          obtain ⟨hsame, hnone⟩ := hkept row made hrow
          exact ⟨hsame.trans hserial, fun hmade => hrevoked (hnone hmade)⟩

end

/-- A moment of a file is a text, which the driver takes for no column that holds one. -/
def refusing : Driver := ⟨fun _ => "", fun _ => none⟩

def alone : Rest := ⟨.ok (), fun _ _ => .ok (), .ok ()⟩

def issued : World := ⟨true, [{ serial := hexText 42, notAfter := 31536000 }]⟩

def withdrawn : World := ⟨true, [{ serial := hexText 42, notAfter := 31536000, revokedAt := some 60 }]⟩

def fileOf (tables : Value.Fields) : Value := .obj [("odm_export", .int 1), ("database", .obj tables)]

omit [Runtime] in
theorem stays_listed_elsewhere : letI := Runtime.latin
    ∃ revokedAt, (((42 : Nat) : Int), revokedAt) ∈ [((42 : Int), (60 : Int))] := by
  let _ := Runtime.latin
  have hrevoked : revoke issued (hexText 42) 60 = some withdrawn := by
    decide +kernel
  have hlater : ∀ move ∈ [.importDomain true (fileOf [("dhcp_scope", .arr [])]) alone, .exportDomain],
      Brings refusing (hexText 42) move := by
    intro move hmove
    rcases List.mem_cons.mp hmove with rfl | hmove
    · rintro _ ⟨⟩ entry hentry hname
      cases List.mem_singleton.mp hentry
      exact absurd hname (by decide)
    · cases List.mem_singleton.mp hmove
      trivial
  have hlist : crl ([.importDomain true (fileOf [("dhcp_scope", .arr [])]) alone, .exportDomain].foldl
      (next refusing) withdrawn) 90 = some ⟨90, 604890, [(42, 60)]⟩ := by
    decide +kernel
  exact stays_listed hrevoked hlater hlist

omit [Runtime] in
theorem not_listed_after_import : letI := Runtime.latin
    ¬ ∀ (driver : Driver) (world revoked : World) (number : Nat) (now : Int),
      revoke world (hexText number) now = some revoked → ∀ (later : List Move) (moment : Int) (list : Crl),
        crl (later.foldl (next driver) revoked) moment = some list →
          ∃ revokedAt, ((number : Int), revokedAt) ∈ list.revoked := by
  let _ := Runtime.latin
  intro h
  have hempty := h refusing issued withdrawn 42 60 (by decide +kernel)
    [.importDomain true (fileOf [("ca_certificate", .arr [])]) alone] 90 ⟨90, 604890, []⟩ (by decide +kernel)
  obtain ⟨_, hmem⟩ := hempty
  exact absurd hmem List.not_mem_nil

end OpenDirectory.Revocation
