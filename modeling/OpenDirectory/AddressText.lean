import OpenDirectory.Address

/-! Internet addresses and networks written the way Python's `ipaddress` writes them, and the hosts of a network. -/

namespace Address

/-- The start and the length of the first of the longest runs of zeros. -/
def longestZeros (hextets : List Nat) : Nat × Nat :=
  (List.range hextets.length).foldl (fun best start =>
    let length := ((hextets.drop start).takeWhile (· = 0)).length
    if best.2 < length then (start, length) else best) (0, 0)

/-- `_compress_hextets`. -/
def compressHextets (hextets : List Nat) : List String :=
  let texts := hextets.map fun hextet => String.ofList (Nat.toDigits 16 hextet)
  let (start, length) := longestZeros hextets
  if length ≤ 1 then texts
  else
    (if start = 0 then [""] else []) ++ texts.take start ++ [""] ++ texts.drop (start + length) ++
      (if start + length = hextets.length then [""] else [])

/-- `str(address)`. -/
def Host.text (host : Host) : String :=
  match host.version with
  | .v4 => Text.join "." ([24, 16, 8, 0].map fun shift => toString (host.number >>> shift % 256))
  | .v6 => Text.join ":" (compressHextets ([112, 96, 80, 64, 48, 32, 16, 0].map fun shift => host.number >>> shift % 65536))

example : (Host.text ⟨.v4, 0x0a630002⟩, Host.text ⟨.v6, 0xfd00 * 2 ^ 112 + 2⟩) = ("10.99.0.2", "fd00::2") := by
  decide +kernel

def Network.numAddresses (network : Network) : Nat := 2 ^ (network.version.width - network.prefixLength)

/-- `int(parsed.network_address)`, without the bits the prefix leaves to the hosts. -/
def Network.first (network : Network) : Nat := network.number / network.numAddresses * network.numAddresses

/-- How many addresses `hosts()` gives, from the one after the network's own: the fourth version keeps the last one
for the broadcast. -/
def Network.hostCount (network : Network) : Nat :=
  match network.version with
  | .v4 => network.numAddresses - 2
  | .v6 => network.numAddresses - 1

theorem Network.contains_iff {network : Network} {host : Host} : network.contains host = true ↔
    host.version = network.version ∧ host.number / network.numAddresses = network.number / network.numAddresses := by
  unfold Network.contains Network.numAddresses
  simp only [Bool.and_eq_true, decide_eq_true_eq, Nat.shiftRight_eq_div_pow]

theorem Network.contains_first {network : Network} {offset : Nat} (h : offset < network.numAddresses) :
    network.contains ⟨network.version, network.first + offset⟩ = true := by
  rw [Network.contains_iff]
  refine ⟨rfl, ?_⟩
  have hpositive : 0 < network.numAddresses := Nat.two_pow_pos _
  show (network.number / network.numAddresses * network.numAddresses + offset) / network.numAddresses = _
  rw [Nat.mul_comm, Nat.mul_add_div hpositive, Nat.div_eq_of_lt h, Nat.add_zero]

/-- `str(network)` -/
def Network.text (network : Network) : String :=
  Host.text ⟨network.version, network.first⟩ ++ "/" ++ toString network.prefixLength

example : (ipNetwork "10.1.2.3/255.255.0.0").map (·.text) = some "10.1.0.0/16" := by decide +kernel

/-- Two networks without a common address. -/
def Network.Apart (left right : Network) : Prop :=
  ∀ host, left.contains host = true → ¬ right.contains host = true

theorem Network.Apart.symm {left right : Network} (h : left.Apart right) : right.Apart left :=
  fun host hright hleft => h host hleft hright

end Address
