import OpenDirectory.Address
import OpenDirectory.Value

/-! The site a machine is at: the one whose subnet is the most precise of all that contain one of its addresses. -/

namespace OpenDirectory.Sites

variable [Runtime]

/-- The subnets in the order they were read in, each with the name of its site. -/
abbrev Subnets := List (String × String)

/-- The length of the best prefix so far, and its site. -/
abbrev Best := Option (Nat × String)

/-- `ipaddress.ip_address` of an address as reported. -/
def hostOf (raw : String) : Option Address.Host := Address.ipAddress (Text.strip Runtime.blank raw)

def consider (host : Address.Host) (best : Best) (subnet : String × String) : Best :=
  match Address.ipNetwork subnet.1 with
  | none => best
  | some network =>
      if network.contains host then
        match best with
        | none => some (network.prefixLength, subnet.2)
        | some (length, site) =>
            if length < network.prefixLength then some (network.prefixLength, subnet.2) else some (length, site)
      else best

def place (subnets : Subnets) (best : Best) (raw : String) : Best :=
  match hostOf raw with
  | none => best
  | some host => subnets.foldl (consider host) best

def matchOf (host : Address.Host) (subnet : String × String) : Option (Nat × String) :=
  ((Address.ipNetwork subnet.1).filter (·.contains host)).map fun network => (network.prefixLength, subnet.2)

variable {addresses : List String} {subnets : Subnets} {site : String}

/-- The better of what there is and one more match. -/
def better (best : Best) (found : Nat × String) : Best :=
  match best with
  | none => some found
  | some kept => if kept.1 < found.1 then some found else some kept

omit [Runtime] in
theorem consider_eq (host : Address.Host) (best : Best) (subnet : String × String) :
    consider host best subnet = (matchOf host subnet).toList.foldl better best := by
  unfold consider matchOf
  cases Address.ipNetwork subnet.1 with
  | none => rfl
  | some network =>
      by_cases hcontains : network.contains host = true
      · rw [Option.filter_some, if_pos hcontains]
        cases best with
        | none => simp [hcontains, better]
        | some kept => simp [hcontains, better]
      · rw [Option.filter_some, if_neg hcontains]
        simp [hcontains]

theorem place_eq (subnets : Subnets) (best : Best) (raw : String) :
    place subnets best raw =
      ((hostOf raw).toList.flatMap fun host => subnets.filterMap (matchOf host)).foldl better best := by
  unfold place
  cases hostOf raw with
  | none => rfl
  | some host =>
      rw [Option.toList_some, List.flatMap_cons, List.flatMap_nil, List.append_nil]
      dsimp only
      induction subnets generalizing best with
      | nil => rfl
      | cons subnet subnets ih =>
          rw [List.foldl_cons, ih, consider_eq]
          cases hmatch : matchOf host subnet with
          | none => rw [List.filterMap_cons_none hmatch]; rfl
          | some found => rw [List.filterMap_cons_some hmatch]; rfl

end OpenDirectory.Sites
