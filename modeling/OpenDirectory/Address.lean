import Mathlib
import OpenDirectory.Text

/-! Internet addresses and networks in their textual forms, read as Python's `ipaddress` reads them.
An address is its version and its number; a network keeps the leading bits its prefix length names,
and an address is inside when it has the version and the same leading bits. -/

namespace Address

inductive Version where
  | v4
  | v6
  deriving DecidableEq

def Version.width : Version → Nat
  | .v4 => 32
  | .v6 => 128

structure Host where
  version : Version
  number : Nat
  deriving DecidableEq

structure Network where
  version : Version
  number : Nat
  prefixLength : Nat
  deriving DecidableEq

def Network.contains (network : Network) (host : Host) : Bool :=
  let dropped := network.version.width - network.prefixLength
  host.version = network.version && host.number >>> dropped = network.number >>> dropped

def digits? (base : Nat) (digit : Char → Option Nat) (chars : List Char) : Option Nat :=
  if chars.isEmpty then none
  else chars.foldlM (fun number c => (digit c).map (number * base + ·)) 0

def decimalDigit (c : Char) : Option Nat :=
  if '0' ≤ c ∧ c ≤ '9' then some (c.toNat - '0'.toNat) else none

def hexDigit (c : Char) : Option Nat :=
  if '0' ≤ c ∧ c ≤ '9' then some (c.toNat - '0'.toNat)
  else if 'a' ≤ c ∧ c ≤ 'f' then some (c.toNat - 'a'.toNat + 10)
  else if 'A' ≤ c ∧ c ≤ 'F' then some (c.toNat - 'A'.toNat + 10)
  else none

/-- One decimal octet, without leading zeros. -/
def octet? (chars : List Char) : Option Nat := do
  let number ← digits? 10 decimalDigit chars
  guard (chars.length ≤ 3 ∧ (chars.length = 1 ∨ chars.head? ≠ some '0') ∧ number ≤ 255)
  return number

def hextet? (chars : List Char) : Option Nat := do
  let number ← digits? 16 hexDigit chars
  guard (chars.length ≤ 4)
  return number

def joinBits (width : Nat) (parts : List Nat) : Nat :=
  parts.foldl (fun number part => number * 2 ^ width + part) 0

def number4? (chars : List Char) : Option Nat := do
  let octets ← (chars.splitOn '.').mapM octet?
  guard (octets.length = 4)
  return joinBits 8 octets

/-- The hextets of an address whose last part may be written as four octets. -/
def parts6? (chars : List Char) : Option (List (List Char ⊕ Nat)) := do
  let parts := chars.splitOn ':'
  guard (3 ≤ parts.length)
  match parts.getLast? with
  | none => none
  | some final =>
      if '.' ∈ final then do
        let tail ← number4? final
        return parts.dropLast.map .inl ++ [.inr (tail / 2 ^ 16), .inr (tail % 2 ^ 16)]
      else return parts.map .inl

def part6? : List Char ⊕ Nat → Option Nat
  | .inl chars => hextet? chars
  | .inr number => some number

def emptyPart : List Char ⊕ Nat → Bool
  | .inl chars => chars.isEmpty
  | .inr _ => false

/-- The positions of the empty parts between the first and the last. -/
def gaps (parts : List (List Char ⊕ Nat)) : List Nat :=
  (List.range (parts.length - 1)).filter fun i => 0 < i ∧ (parts[i]?.map emptyPart) = some true

def number6? (chars : List Char) : Option Nat := do
  let parts ← parts6? chars
  guard (parts.length ≤ 9)
  match gaps parts with
  | [] =>
      guard (parts.length = 8)
      return joinBits 16 (← parts.mapM part6?)
  | [gap] =>
      -- an empty first or last part is half of a gap that reaches the end
      let leading := parts.take gap
      let trailing := parts.drop (gap + 1)
      let leading := if leading.head?.map emptyPart = some true then leading.drop 1 else leading
      let trailing :=
        if trailing.getLast?.map emptyPart = some true then trailing.dropLast else trailing
      guard (leading.length + trailing.length < 8)
      guard (parts.head?.map emptyPart = some true → leading = [])
      guard (parts.getLast?.map emptyPart = some true → trailing = [])
      let high ← leading.mapM part6?
      let low ← trailing.mapM part6?
      return joinBits 16 (high ++ List.replicate (8 - (high.length + low.length)) 0 ++ low)
  | _ => none

/-- An address of the sixth version without its scope, which no slash may stand in. -/
def scoped6? (chars : List Char) : Option Nat :=
  match chars.splitOn '%' with
  | [address] => number6? address
  | [address, scope] => if scope.isEmpty || '/' ∈ scope then none else number6? address
  | _ => none

/-- `ipaddress.ip_address`. -/
def ipAddress (s : String) : Option Host :=
  (Host.mk .v4 <$> number4? s.toList) <|> (Host.mk .v6 <$> scoped6? s.toList)

/-- The prefix length of a mask whose one bits all come first. -/
def maskLength? (mask : Nat) : Option Nat :=
  (List.range 33).find? fun n => mask = 2 ^ 32 - 2 ^ (32 - n)

def prefix4? (chars : List Char) : Option Nat :=
  match digits? 10 decimalDigit chars with
  | some n => if n ≤ 32 then some n else none
  | none => do
      let mask ← number4? chars
      maskLength? mask <|> maskLength? (2 ^ 32 - 1 - mask)

def prefix6? (chars : List Char) : Option Nat := do
  let n ← digits? 10 decimalDigit chars
  guard (n ≤ 128)
  return n

def network? (version : Version) (number? prefix? : List Char → Option Nat) (s : String) :
    Option Network :=
  match s.toList.splitOn '/' with
  | [address] => (Network.mk version · version.width) <$> number? address
  | [address, mask] => Network.mk version <$> number? address <*> prefix? mask
  | _ => none

/-- `ipaddress.ip_network(text, strict=False)`. -/
def ipNetwork (s : String) : Option Network :=
  network? .v4 number4? prefix4? s <|> network? .v6 scoped6? prefix6? s

/-- `ipaddress.ip_network(number)`: a single address, of the first version that holds it. -/
def ipNetworkOfInt (n : Int) : Option Network :=
  if n < 0 then none
  else if n < 2 ^ 32 then some ⟨.v4, n.toNat, 32⟩
  else if n < 2 ^ 128 then some ⟨.v6, n.toNat, 128⟩
  else none

example : (ipNetwork "10.1.0.0/16").map (·.contains ⟨.v4, 0x0a010203⟩) = some true := by decide
example : (ipAddress "fe80::1%eth0").map (·.number) = some (0xfe80 * 2 ^ 112 + 1) := by decide
example : ipAddress "10.01.0.1" = none := by decide

end Address
