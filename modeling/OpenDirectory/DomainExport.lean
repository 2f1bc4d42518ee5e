import OpenDirectory.Revocation

/-! The file a domain is exported to, and what of the stored secrets shows in it. Every table the
database has is written, less a list of tables that record what happened; a credential is kept out by a
list of columns that are written as withheld. -/

namespace OpenDirectory.DomainExport

open Revocation (volatileTables withheld)

/-- What the database's driver hands back for a column. -/
inductive Stored where
  | value (value : Value)
  | moment (isoformat : String)
  | uuid (text : String)
  | decimal (number : Printed)
  | bytes (octets : List Nat)
  | record (fields : List (String × Stored))
  | list (items : List Stored)

def hexDigits : List Char := "0123456789abcdef".toList

/-- `bytes.hex` -/
def hex (octets : List Nat) : String :=
  String.ofList (octets.flatMap fun octet =>
    [hexDigits.getD (octet / 16) '0', hexDigits.getD (octet % 16) '0'])

mutual

/-- `_plain` -/
def plain : Stored → Value
  | .value value => value
  | .moment isoformat => .str isoformat
  | .uuid text => .str text
  | .decimal number => .float number
  | .bytes octets => .obj [("__bytes__", .str (hex octets))]
  | .record fields => .obj (plainFields fields)
  | .list items => .arr (plainItems items)

def plainFields : List (String × Stored) → Value.Fields
  | [] => []
  | (name, value) :: fields => (name, plain value) :: plainFields fields

def plainItems : List Stored → List Value
  | [] => []
  | item :: items => plain item :: plainItems items

end

structure Row where
  columns : List (String × Stored)
  distinct : (Dict.keys columns).Nodup

/-- A table's name and its rows. -/
abbrev Table := String × List Row

/-- What an export reads: the directory's objects and zones, as a search hands them out, and the
tables of ODM's own store by name. -/
structure State where
  directory : Value
  zones : Value
  tables : List Table

/-- `SECRET_COLUMNS` -/
def secretColumns : List (String × List String) := [
  ("ca_certificate", ["private_key"]),
  ("vpn_tunnel", ["private_key"]),
  ("vpn_peer", ["private_key"]),
  ("radius_client", ["secret"]),
  ("local_administrator", ["password"])]

def secretsOf (table : String) : List String := (Dict.get secretColumns table).getD []

/-- `value in (None, "")` -/
def blank : Value → Bool
  | .null => true
  | .str text => text = ""
  | _ => false

/-- A column written as withheld, if it holds something. -/
def withhold (record : Value.Fields) (column : String) : Value.Fields :=
  match Dict.get record column with
  | some value => if blank value then record else Dict.set record column (.str withheld)
  | none => record

def exportRow (table : String) (row : Row) : Value.Fields :=
  (secretsOf table).foldl withhold (row.columns.map fun entry => (entry.1, plain entry.2))

/-- `config_tables` and `database_section` -/
def databaseSection (tables : List Table) : Value.Fields :=
  (tables.filter fun table => table.1 ∉ volatileTables).map fun table =>
    (table.1, .arr (table.2.map fun row => .obj (exportRow table.1 row)))

def countWithheld (rows : Value) (column : String) : Nat :=
  match rows with
  | .arr rows => (rows.filter fun row => row.field column = some (.str withheld)).length
  | _ => 0

/-- `withheld_in`: which secrets the reader is not shown. -/
def withheldIn (database : Value.Fields) : List String :=
  let found := secretColumns.flatMap fun entry =>
    let rows := (Dict.get database entry.1).getD (.arr [])
    entry.2.mergeSort.filterMap fun column =>
      if countWithheld rows column = 0 then none
      else some (entry.1 ++ "." ++ column ++ " (" ++ toString (countWithheld rows column) ++ ")")
  found.mergeSort

/-- When and by what an export is taken. -/
structure Taken where
  moment : String
  version : String
  realm : String
  domain : String
  baseDn : String

def exportDomain (taken : Taken) (state : State) : Value :=
  let database := databaseSection state.tables
  .obj [("odm_export", .int 1), ("taken_at", .str taken.moment), ("version", .str taken.version),
    ("domain", .obj [("realm", .str taken.realm), ("domain", .str taken.domain),
      ("base_dn", .str taken.baseDn)]),
    ("withheld", .arr ((withheldIn database).map .str)), ("directory", state.directory),
    ("dns", .obj [("zones", state.zones)]), ("database", .obj database)]

/-- The columns of the schema that hold a credential. -/
def credentials : List (String × String) := [
  ("admin_session", "token_sha256"), ("admin_session", "csrf_token"), ("join_token", "token_sha256"),
  ("totp_enrolment", "secret"), ("totp_enrolment", "recovery_codes"), ("push_enrolment", "topic"),
  ("push_enrolment", "confirm_token"), ("push_challenge", "token"), ("vpn_tunnel", "private_key"),
  ("vpn_peer", "private_key"), ("radius_client", "secret"), ("local_administrator", "password"),
  ("disk_recovery_key", "passphrase"), ("monitor_channel", "topic"),
  ("monitor_dashboard", "public_token"), ("password_manager", "org_client_secret"),
  ("password_manager", "sync_password"), ("password_manager", "smtp_password"),
  ("password_manager", "admin_token"), ("password_manager", "sso_client_secret"),
  ("password_manager", "owner_password"), ("password_manager", "org_key"),
  ("oidc_key", "private_pem"), ("oidc_client", "secret_hash"), ("oidc_code", "code"),
  ("oidc_token", "token")]

/-- The columns that an export writes as they are. -/
def written : List (String × String) :=
  credentials.filter fun entry => entry.1 ∉ volatileTables ∧ entry.2 ∉ secretsOf entry.1

/-- Two rows of a table with the same columns, and the same in all that are no credentials. -/
def AlikeRow (table : String) (row row' : Row) : Prop :=
  List.Forall₂ (fun entry entry' => entry.1 = entry'.1 ∧
    ((table, entry.1) ∉ credentials → entry.2 = entry'.2)) row.columns row'.columns

def AlikeTable (table table' : Table) : Prop :=
  table.1 = table'.1 ∧ List.Forall₂ (AlikeRow table.1) table.2 table'.2

/-- Two states that differ only in stored secrets. -/
structure Alike (state state' : State) : Prop where
  directory : state.directory = state'.directory
  zones : state.zones = state'.zones
  tables : List.Forall₂ AlikeTable state.tables state'.tables

def shown (secrets : List String) (entry : String × Value) : String × Value :=
  (entry.1, if entry.1 ∈ secrets ∧ blank entry.2 = false then .str withheld else entry.2)

end OpenDirectory.DomainExport
