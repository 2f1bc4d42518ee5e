import OpenDirectory.Lines
import OpenDirectory.Lists
import OpenDirectory.Patterns
import OpenDirectory.Unlang

/-! The rules of network access: what the console takes for a rule, the policy it writes for FreeRADIUS, and
what that policy answers. A rule names one group; the policy sees one group of the user, goes on after a rule
that accepts, and takes the group's name into a text within quotes as it is. -/

namespace OpenDirectory.Radius

open Pattern (run headed closed pySpace)

inductive RadiusError where
  | name (name : String)
  | network (identifier : String)
  | vlan (vlan : Nat)

def nameChar (c : Char) : Bool := c.isAlphanum || c ∈ ['.', '_', '-']

/-- `_NAME_RE` -/
def nameText : List Char → Bool := headed (fun c => c.isAlphanum) nameChar 0 62

def nasChar (c : Char) : Bool := c.isAlphanum || c ∈ [' ', '.', '_', ':', '-']

/-- `_NAS_RE` -/
def nasText : List Char → Bool := headed (fun c => c.isAlphanum) nasChar 0 62

def validateName (name : String) : Except RadiusError String :=
  let name := Text.strip pySpace name
  if closed nameText name then .ok name else .error (.name name)

def validateNasIdentifier (identifier : String) : Except RadiusError String :=
  let identifier := Text.strip pySpace identifier
  if identifier ≠ "" ∧ ¬ closed nasText identifier then .error (.network identifier) else .ok identifier

inductive PrincipalKind where
  | user
  | computer
  | any

inductive Access where
  | allow
  | deny
  deriving DecidableEq

structure PolicyIn where
  name : String
  groupDn : String
  groupName : String := ""
  principalKind : PrincipalKind := .user
  nasIdentifiers : List String := []
  access : Access := .allow
  vlan : Option Nat := none
  ordering : Nat := 100
  enabled : Bool := true

namespace PolicyIn

/-- What the request may hold. -/
def bounded (policy : PolicyIn) : Bool :=
  (1 ≤ policy.name.length && policy.name.length ≤ 63) &&
    (3 ≤ policy.groupDn.length && policy.groupDn.length ≤ 1024) && policy.groupName.length ≤ 128 && policy.nasIdentifiers.all (·.length ≤ 63) &&
    policy.vlan.all (fun vlan => 1 ≤ vlan && vlan ≤ 4094) && (1 ≤ policy.ordering && policy.ordering ≤ 9999)

end PolicyIn

/-- What is kept of a request. -/
def createPolicy (body : PolicyIn) : Except RadiusError PolicyIn := do
  let name ← validateName body.name
  let identifiers ← body.nasIdentifiers.mapM validateNasIdentifier
  return { body with name, nasIdentifiers := identifiers }

/-- A rule that was accepted. -/
structure Rule extends PolicyIn where
  created : ∃ body : PolicyIn, body.bounded ∧ createPolicy body = .ok toPolicyIn

def PolicyIn.group (policy : PolicyIn) : String := if policy.groupName ≠ "" then policy.groupName else policy.groupDn

/-- `.replace('"', "")` -/
def PolicyIn.groupText (policy : PolicyIn) : String := String.ofList (policy.group.toList.filter (· ≠ '"'))

def PolicyIn.networks (policy : PolicyIn) : List String := policy.nasIdentifiers.filter (· ≠ "")

def compareNetwork (name : String) : String := "\"%\x7bNAS-Identifier\x7d\" == " ++ ("\"" ++ name ++ "\"")

def compareKind : PrincipalKind → List String
  | .computer => ["(&User-Name =~ /^host\\// || &User-Name =~ /\\$$/)"]
  | .user => ["(!(&User-Name =~ /^host\\//) && !(&User-Name =~ /\\$$/))"]
  | .any => []

def compareNetworks (networks : List String) : List String :=
  if networks ≠ [] then ["(" ++ Text.join " || " (networks.map compareNetwork) ++ ")"] else []

/-- The conditions of a rule after the one that names its group. -/
def furtherConditions (policy : PolicyIn) (networks : List String) : List String :=
  compareNetworks networks ++ compareKind policy.principalKind

def conditions (policy : PolicyIn) (networks : List String) : List String :=
  ("&control:Auth-Type != Reject && \"%\x7bGroup-Name\x7d\" == " ++ ("\"" ++ policy.groupText ++ "\"")) ::
    furtherConditions policy networks

def vlanLines (vlan : Nat) : List String :=
  ["        update reply \x7b", "            &Tunnel-Type := VLAN", "            &Tunnel-Medium-Type := IEEE-802",
    "            &Tunnel-Private-Group-Id := " ++ toString vlan, "        \x7d"]

/-- What a rule does. -/
def consequence (policy : PolicyIn) : Except RadiusError (List String) :=
  match policy.access with
  | .deny => .ok ["        reject"]
  | .allow =>
      match policy.vlan with
      | some (vlan + 1) =>
          if vlan + 1 ≤ 4094 then
            .ok ("        update control \x7b &Auth-Type := Accept \x7d" :: vlanLines (vlan + 1))
          else .error (.vlan (vlan + 1))
      | _ => .ok ["        update control \x7b &Auth-Type := Accept \x7d"]

def ruleLines (policy : PolicyIn) : Except RadiusError (List String) := do
  let networks ← policy.networks.mapM validateNasIdentifier
  let consequence ← consequence policy
  return ["    # " ++ policy.name, "    if (" ++ Text.join " && " (conditions policy networks) ++ ") \x7b"] ++
    consequence ++ ["    \x7d"]

/-- Those that deny first. -/
def ordered (policies : List PolicyIn) : List PolicyIn :=
  (policies.filter PolicyIn.enabled).sortedBy fun policy => toLex (decide (policy.access ≠ .deny), policy.ordering)

def heading : List String :=
  ["# Managed by Open Directory Manager. Edits here are overwritten.", "#",
    "# Group membership comes from the directory through winbind, so there", "# is no second copy of who is in what.",
    "odm_access \x7b"]

def ending : List String :=
  ["", "    if (!(&control:Auth-Type == Accept)) \x7b", "        reject", "    \x7d", "\x7d", ""]

def renderPolicies (policies : List PolicyIn) : Except RadiusError String := do
  let rules ← (ordered policies).mapM ruleLines
  return Text.join "\n" (heading ++ rules.flatten ++ ending)

/-- Who asks and from where, after another module has chosen how to authenticate. -/
structure Request where
  userName : String
  /-- What the groups of the user are called. -/
  groups : List String
  nas : Option String
  authType : String
  chosen : authType ≠ "Reject" ∧ authType ≠ "Accept"
  others : String → Option String

/-- The value an attribute has, of several the first. -/
def Request.values (request : Request) (name : String) : Option String :=
  if name = "User-Name" then some request.userName
  else if name = "Group-Name" then request.groups.head?
  else if name = "NAS-Identifier" then request.nas
  else request.others name

def Request.state (request : Request) : Unlang.State where
  control := fun name => if name = "Auth-Type" then some request.authType else none
  reply := fun _ => none

inductive Answer where
  | refused
  | accepted (vlan : Option String)
  deriving DecidableEq

def vlanOf (reply : String → Option String) : Option String :=
  if reply "Tunnel-Type" = some "VLAN" ∧ reply "Tunnel-Medium-Type" = some "IEEE-802" then
    reply "Tunnel-Private-Group-Id"
  else none

/-- What a policy answers, none where it cannot be read. -/
def answer (text : String) (request : Request) : Option Answer :=
  (Unlang.read text).map fun (_, block) =>
    match block.run request.values request.state with
    | none => .refused
    | some state => .accepted (vlanOf state.reply)

/-- A machine authenticates as `host/<name>` or `<NAME>$`. -/
def isComputer (name : String) : Bool := Text.startsWith name "host/" || Text.endsWith name "$"

def ofKind (kind : PrincipalKind) (name : String) : Bool :=
  match kind with
  | .user => !isComputer name
  | .computer => isComputer name
  | .any => true

def onNetwork (policy : PolicyIn) (request : Request) : Bool :=
  policy.networks = [] || policy.networks.any fun name => request.nas = some name

def fits (request : Request) (policy : PolicyIn) : Bool :=
  policy.enabled && policy.group ∈ request.groups && onNetwork policy request &&
    ofKind policy.principalKind request.userName

/-- No matter what allows, if something denies. -/
def refuses (holds : PolicyIn → Bool) (policies : List PolicyIn) : Bool :=
  policies.any (fun policy => holds policy && policy.access = .deny) ||
    !policies.any (fun policy => holds policy && policy.access = .allow)

/-- The rules that allow, in their order. -/
def allowing (holds : PolicyIn → Bool) (policies : List PolicyIn) : List PolicyIn :=
  (policies.sortedBy PolicyIn.ordering).filter fun policy => holds policy && policy.access = .allow

def firstVlan (holds : PolicyIn → Bool) (policies : List PolicyIn) : Option Nat :=
  (allowing holds policies).head?.bind PolicyIn.vlan

/-- Deny before allow, and the VLAN of the first rule that allows. -/
def verdict (policies : List PolicyIn) (request : Request) : Answer :=
  if refuses (fits request) policies then .refused
  else .accepted ((firstVlan (fits request) policies).map toString)

def rows (rules : List Rule) : List PolicyIn := rules.map Rule.toPolicyIn

/-- The policy answers as the rules say. -/
def Right (rules : List Rule) (request : Request) : Prop :=
  ∃ text, renderPolicies (rows rules) = .ok text ∧ answer text request = some (verdict (rows rules) request)

section
open Unlang

def piecesOf (policy : PolicyIn) : List Piece := (pieces? policy.groupText.toList).getD []

/-- The name of the group ends where its mark stands. -/
def Readable (policy : PolicyIn) : Prop :=
  closes policy.groupText.toList = true ∧ (pieces? policy.groupText.toList).isSome

instance {policy : PolicyIn} : Decidable (Readable policy) := inferInstanceAs (Decidable (_ ∧ _))

def authType : Operand := .word "&control:Auth-Type"

def notRejected : Term := .compare authType false (.word "Reject")

def groupTerm (policy : PolicyIn) : Term :=
  .compare (.quoted [.expansion "Group-Name"]) true (.quoted (piecesOf policy))

def networkTerm (name : String) : Term :=
  .compare (.quoted [.expansion "NAS-Identifier"]) true (.quoted (name.toList.map .letter))

def host : Term := .search (.word "&User-Name") ⟨true, "host/".toList, false⟩

def dollar : Term := .search (.word "&User-Name") ⟨false, "$".toList, true⟩

def allOf : Term → List Term → Cond
  | term, [] => .last term
  | term, next :: rest => .and term (allOf next rest)

def anyOf : Term → List Term → Cond
  | term, [] => .last term
  | term, next :: rest => .or term (anyOf next rest)

def networkTerms : List String → List Term
  | [] => []
  | name :: names => [.group false (anyOf (networkTerm name) (names.map networkTerm))]

def kindTerms : PrincipalKind → List Term
  | .computer => [.group false (anyOf host [dollar])]
  | .user => [.group false (allOf (.group true (.last host)) [.group true (.last dollar)])]
  | .any => []

def condition (policy : PolicyIn) : Cond :=
  allOf notRejected (groupTerm policy :: (networkTerms policy.networks ++ kindTerms policy.principalKind))

def vlanSets (vlan : Nat) : List (String × String) :=
  [("Tunnel-Type", "VLAN"), ("Tunnel-Medium-Type", "IEEE-802"), ("Tunnel-Private-Group-Id", toString vlan)]

def body (policy : PolicyIn) : Block :=
  match policy.access with
  | .deny => .reject .done
  | .allow => .update .control [("Auth-Type", "Accept")]
      (match policy.vlan with
        | some (vlan + 1) => .update .reply (vlanSets (vlan + 1)) .done
        | _ => .done)

def otherwise : Block :=
  .when (.last (.group true (.last (.compare authType true (.word "Accept"))))) (.reject .done) .done

def policyBlock (policies : List PolicyIn) : Block :=
  policies.foldr (fun policy next => .when (condition policy) (body policy) next) otherwise

theorem tokens_allOf (term : Term) (terms : List Term) :
    (allOf term terms).tokens = term.tokens ++ (terms.map Term.tokens).flatMap (Token.and :: ·) := by
  induction terms generalizing term with
  | nil => simp [allOf, Cond.tokens]
  | cons next terms ih => rw [allOf, Cond.tokens, ih, List.map_cons, List.flatMap_cons, List.cons_append]

theorem tokens_anyOf (term : Term) (terms : List Term) :
    (anyOf term terms).tokens = term.tokens ++ (terms.map Term.tokens).flatMap (Token.or :: ·) := by
  induction terms generalizing term with
  | nil => simp [anyOf, Cond.tokens]
  | cons next terms ih => rw [anyOf, Cond.tokens, ih, List.map_cons, List.flatMap_cons, List.cons_append]

theorem literal_of_nasChar {c : Char} (h : nasChar c = true) : literal c = true := by
  apply decide_eq_true
  intro hmem
  have hnone : ['"', '\\', '%', '\n'].all (fun d => !nasChar d) = true := by decide
  have hc := List.all_eq_true.mp hnone c hmem
  rw [h] at hc
  cases hc

theorem reads_network {name : String} (h : nasText name.toList) :
    Reads (compareNetwork name) (networkTerm name).tokens := by
  have hliteral : ∀ c ∈ name.toList, literal c = true :=
    fun c hc => literal_of_nasChar (Pattern.headed_all (fun d hd => by simp [nasChar, hd]) h c hc)
  have hmark : '"' ∉ name.toList := fun hmem => absurd (hliteral _ hmem) (by decide)
  have hstart : Reads "\"%\x7bNAS-Identifier\x7d\" == " [.operand (.quoted [.expansion "NAS-Identifier"]), .equal] := by
    decide
  exact hstart.append (reads_quoted hmark (closes_of_literal hliteral) (pieces_of_literal hliteral))

theorem reads_networks {names : List String} (h : ∀ name ∈ names, nasText name.toList) :
    List.Forall₂ Reads (compareNetworks names) ((networkTerms names).map Term.tokens) := by
  cases names with
  | nil => exact .nil
  | cons name names =>
      obtain ⟨hname, hnames⟩ := List.forall_mem_cons.mp h
      have hrest : List.Forall₂ Reads (names.map compareNetwork) ((names.map networkTerm).map Term.tokens) := by
        rw [List.map_map, List.forall₂_map_left_iff, List.forall₂_map_right_iff]
        exact List.forall₂_same.mpr fun other hother => reads_network (hnames other hother)
      have hjoin := reads_join (show Reads " || " [.or] by decide) (reads_network hname) hrest
      rw [← tokens_anyOf] at hjoin
      have hopen : Reads "(" [.left] := by decide
      have hclose : Reads ")" [.right] := by decide
      exact .cons ((hopen.append hjoin).append hclose) .nil

theorem reads_kind (kind : PrincipalKind) :
    List.Forall₂ Reads (compareKind kind) ((kindTerms kind).map Term.tokens) := by
  cases kind with
  | user => exact .cons (by decide) .nil
  | computer => exact .cons (by decide) .nil
  | any => exact .nil

theorem validateName_text {given name : String} (h : validateName given = .ok name) : nameText name.toList := by
  unfold validateName at h
  simp only at h
  split_ifs at h with hclosed
  cases h
  rwa [Pattern.closed_strip (by decide)] at hclosed

theorem validateNasIdentifier_text {given identifier : String} (h : validateNasIdentifier given = .ok identifier)
    (hne : identifier ≠ "") : nasText identifier.toList ∧ validateNasIdentifier identifier = .ok identifier := by
  unfold validateNasIdentifier at *
  simp only at *
  split_ifs at h with hbad
  cases h
  have hclosed : closed nasText (Text.strip pySpace given) = true := by
    by_contra hnot
    exact hbad ⟨hne, hnot⟩
  rw [Pattern.strip_strip fun _ h => h, if_neg fun hnot => hnot.2 hclosed]
  rw [Pattern.closed_strip (by decide)] at hclosed
  exact ⟨hclosed, rfl⟩

/-- What holds of the fields of a rule that was accepted. -/
structure Sound (policy : PolicyIn) : Prop where
  name : nameText policy.name.toList
  networks : ∀ name ∈ policy.networks, nasText name.toList ∧ validateNasIdentifier name = .ok name
  vlan : ∀ vlan ∈ policy.vlan, 1 ≤ vlan ∧ vlan ≤ 4094
  group : policy.group ≠ ""

theorem Rule.sound (rule : Rule) : Sound rule.toPolicyIn := by
  obtain ⟨given, hbounded, hcreated⟩ := rule.created
  unfold createPolicy at hcreated
  obtain ⟨name, hname, hrest⟩ := Except.bind_eq_ok.mp hcreated
  obtain ⟨identifiers, hidentifiers, hrow⟩ := Except.bind_eq_ok.mp hrest
  have hfields : { given with name, nasIdentifiers := identifiers } = rule.toPolicyIn := Except.ok.inj hrow
  unfold PolicyIn.bounded at hbounded
  simp only [Bool.and_eq_true, decide_eq_true_eq] at hbounded
  obtain ⟨⟨⟨⟨⟨_, hdn⟩, _⟩, _⟩, hvlan⟩, _⟩ := hbounded
  have hkept : ∀ identifier ∈ identifiers, identifier ≠ "" →
      nasText identifier.toList ∧ validateNasIdentifier identifier = .ok identifier :=
    (List.forall_mem_iff_of_forall₂ (List.mapM_eq_ok_iff.mp hidentifiers) fun _ _ _ hresult =>
      iff_true_intro (validateNasIdentifier_text hresult)).mpr fun _ _ => trivial
  rw [← hfields]
  constructor
  · exact validateName_text hname
  · intro identifier hidentifier
    obtain ⟨hmem, hne⟩ := List.mem_filter.mp hidentifier
    exact hkept identifier hmem (of_decide_eq_true hne)
  · intro vlan hmem
    rw [show given.vlan = some vlan from hmem] at hvlan
    simpa using hvlan
  · unfold PolicyIn.group
    split_ifs with hgroup
    · exact hgroup
    · intro hempty
      rw [show given.groupDn = "" from hempty] at hdn
      exact absurd hdn.1 (by decide)

/-- Lines that each end with a newline. -/
def ended (lines : List String) : String := String.join (lines.map (· ++ "\n"))

theorem ended_append (lines more : List String) : ended (lines ++ more) = ended lines ++ ended more := by
  unfold ended
  rw [List.map_append, String.join_append]

theorem join_ended {lines : List String} : Text.join "\n" (lines ++ [""]) = ended lines := by
  induction lines with
  | nil => rfl
  | cons line lines ih =>
      have hne : lines ++ [""] ≠ [] := by simp
      have hline := Text.join_append (List.cons_ne_nil line []) hne
      rw [List.singleton_append, Text.join_singleton, ih] at hline
      rw [List.cons_append, hline]
      unfold ended
      rw [List.map_cons, String.join_cons]

def consequenceLines (policy : PolicyIn) : List String :=
  match policy.access with
  | .deny => ["        reject"]
  | .allow => "        update control \x7b &Auth-Type := Accept \x7d" ::
      (match policy.vlan with
        | some (vlan + 1) => vlanLines (vlan + 1)
        | _ => [])

/-- The condition of a rule after the name of its group. -/
def furtherText (policy : PolicyIn) : String :=
  String.join ((furtherConditions policy policy.networks).map (" && " ++ ·)) ++ ") \x7b"

def conditionLine (policy : PolicyIn) : String :=
  "    if (&control:Auth-Type != Reject && \"%\x7bGroup-Name\x7d\" == " ++
    ("\"" ++ policy.groupText ++ "\"" ++ furtherText policy)

def linesOf (policy : PolicyIn) : List String :=
  ["    # " ++ policy.name, conditionLine policy] ++ consequenceLines policy ++ ["    \x7d"]

theorem join_cons (separator first : String) (rest : List String) :
    Text.join separator (first :: rest) = first ++ String.join (rest.map (separator ++ ·)) := by
  induction rest generalizing first with
  | nil => simp [Text.join]
  | cons next rest ih =>
      have hjoin : Text.join separator (first :: next :: rest) =
          first ++ separator ++ Text.join separator (next :: rest) := by
        unfold Text.join
        rw [String.intercalate_cons_cons]
      rw [hjoin, ih, List.map_cons, String.join_cons, String.append_assoc, String.append_assoc]

theorem ruleLines_eq {policy : PolicyIn} (h : Sound policy) : ruleLines policy = .ok (linesOf policy) := by
  have hnetworks : policy.networks.mapM validateNasIdentifier = .ok policy.networks := by
    have hmap := List.mapM_eq_ok_map (g := id) fun name hname => (h.networks name hname).2
    rwa [List.map_id] at hmap
  have hconsequence : consequence policy = .ok (consequenceLines policy) := by
    unfold consequence consequenceLines
    cases policy.access with
    | deny => rfl
    | allow =>
        dsimp only
        split
        · rename_i vlan hvlan
          exact if_pos (h.vlan _ hvlan).2
        · rfl
  have hline : "    if (" ++ Text.join " && " (conditions policy policy.networks) ++ ") \x7b" =
      conditionLine policy := by
    unfold conditions conditionLine furtherText
    have hstart : "    if (&control:Auth-Type != Reject && \"%\x7bGroup-Name\x7d\" == " =
        "    if (" ++ "&control:Auth-Type != Reject && \"%\x7bGroup-Name\x7d\" == " := by decide
    rw [join_cons, hstart]
    simp only [String.append_assoc]
  unfold ruleLines
  rw [hnetworks, hconsequence]
  show Except.ok _ = _
  rw [hline]
  rfl

def ruleTokens (policy : PolicyIn) : List Token :=
  .operand (.word "if") :: .left ::
    ((condition policy).tokens ++ .right :: .opened :: ((body policy).tokens ++ [.closed]))

theorem reads_further {policy : PolicyIn} (h : Sound policy) :
    Reads (furtherText policy ++ "\n")
      (((networkTerms policy.networks ++ kindTerms policy.principalKind).map Term.tokens).flatMap (Token.and :: ·) ++
        [.right, .opened]) := by
  have hfurther : List.Forall₂ Reads (furtherConditions policy policy.networks)
      ((networkTerms policy.networks ++ kindTerms policy.principalKind).map Term.tokens) := by
    unfold furtherConditions
    rw [List.map_append]
    exact List.rel_append (reads_networks fun name hname => (h.networks name hname).1) (reads_kind policy.principalKind)
  have hjoined : ∀ {texts : List String} {tokens : List (List Token)}, List.Forall₂ Reads texts tokens →
      Reads (String.join (texts.map (" && " ++ ·))) (tokens.flatMap (Token.and :: ·)) := by
    intro texts tokens hreads
    induction hreads with
    | nil => decide
    | cons hhead _ ih =>
        rw [List.map_cons, String.join_cons, List.flatMap_cons]
        have hand : Reads " && " [.and] := by decide
        exact (hand.append hhead).append ih
  have hend : Reads (") \x7b" ++ "\n") [.right, .opened] := by decide
  unfold furtherText
  rw [String.append_assoc]
  exact (hjoined hfurther).append hend

theorem plain_of_digit {c : Char} (h : c.isDigit = true) : plain c = true ∧ c ≠ ':' := by
  constructor
  · simp [plain, Char.isAlphanum, h]
  · rintro rfl
    exact absurd h (by decide)

theorem reads_number (number : Nat) : Reads (toString number ++ "\n") [.operand (.word (toString number))] := by
  refine reads_word ?_ fun c hc => ?_
  · rw [Nat.toString_eq_ofList_toDigits]
    intro hempty
    exact Nat.toDigits_ne_nil (String.ofList_eq_empty_iff.mp hempty)
  · rw [Nat.toString_eq_ofList_toDigits, String.toList_ofList] at hc
    exact plain_of_digit (Nat.isDigit_of_mem_toDigits (by decide) (by decide) hc)

theorem reads_vlan (vlan : Nat) :
    Reads (ended (vlanLines vlan)) ((Block.update .reply (vlanSets vlan) .done).tokens) := by
  have hstart : Reads ("        update reply \x7b" ++ "\n" ++ ("            &Tunnel-Type := VLAN" ++ "\n") ++
      ("            &Tunnel-Medium-Type := IEEE-802" ++ "\n") ++ "            &Tunnel-Private-Group-Id := ")
      [.operand (.word "update"), .operand (.word "reply"), .opened, .operand (.word "&Tunnel-Type"), .assign,
        .operand (.word "VLAN"), .operand (.word "&Tunnel-Medium-Type"), .assign, .operand (.word "IEEE-802"),
        .operand (.word "&Tunnel-Private-Group-Id"), .assign] := by decide +kernel
  have hend : Reads ("        \x7d" ++ "\n") [.closed] := by decide
  have hall := (hstart.append (reads_number vlan)).append hend
  unfold ended vlanLines
  simp only [List.map_cons, List.map_nil, String.join_cons, String.join_nil, String.append_empty, String.append_assoc]
    at hall ⊢
  exact hall

theorem reads_consequence (policy : PolicyIn) : Reads (ended (consequenceLines policy)) (body policy).tokens := by
  have hcontrol : Reads (ended ["        update control \x7b &Auth-Type := Accept \x7d"])
      (Block.update .control [("Auth-Type", "Accept")] .done).tokens := by decide
  unfold consequenceLines body
  cases policy.access with
  | deny =>
      have hreject : Reads (ended ["        reject"]) (Block.reject .done).tokens := by decide
      exact hreject
  | allow =>
      dsimp only
      rw [← List.singleton_append, ended_append]
      have hnone : Reads (ended []) [] := by decide
      cases policy.vlan with
      | none => exact hcontrol.append hnone
      | some vlan =>
          cases vlan with
          | zero => exact hcontrol.append hnone
          | succ vlan => exact hcontrol.append (reads_vlan _)

theorem ended_linesOf (policy : PolicyIn) :
    ended (linesOf policy) = "    " ++ ("#" ++ (" " ++ policy.name) ++ "\n") ++
      ("    if (&control:Auth-Type != Reject && \"%\x7bGroup-Name\x7d\" == " ++ ("\"" ++ policy.groupText ++ "\"" ++
        (furtherText policy ++ "\n" ++ (ended (consequenceLines policy) ++ ended ["    \x7d"])))) := by
  have hname : "    # " ++ policy.name = "    " ++ "#" ++ " " ++ policy.name := by
    rw [show "    " ++ "#" ++ " " = "    # " by decide]
  unfold linesOf conditionLine
  rw [ended_append, ended_append, hname]
  simp only [ended, List.map_cons, List.map_nil, String.join_cons, String.join_nil, String.append_empty,
    String.append_assoc]

theorem reads_name {policy : PolicyIn} (h : Sound policy) :
    Reads ("    " ++ ("#" ++ (" " ++ policy.name) ++ "\n")) [] := by
  have hspace : Reads "    " [] := by decide
  have hline : '\n' ∉ (" " ++ policy.name).toList := by
    rw [String.toList_append, List.mem_append]
    rintro (hmem | hmem)
    · exact absurd hmem (by decide)
    · have hchar := Pattern.headed_all (fun d hd => by simp [nameChar, hd]) h.name _ hmem
      exact absurd hchar (by decide)
  exact hspace.append (reads_comment hline)

theorem reads_start : Reads "    if (&control:Auth-Type != Reject && \"%\x7bGroup-Name\x7d\" == "
    ([.operand (.word "if"), .left] ++ notRejected.tokens ++
      [.and, .operand (.quoted [.expansion "Group-Name"]), .equal]) := by decide

theorem mark_not_mem (policy : PolicyIn) : '"' ∉ policy.groupText.toList := by
  unfold PolicyIn.groupText
  rw [String.toList_ofList]
  intro hmem
  exact absurd (List.mem_filter.mp hmem).2 (by decide)

theorem reads_rule {policy : PolicyIn} (h : Sound policy) (hreadable : Readable policy) :
    Reads (ended (linesOf policy)) (ruleTokens policy) := by
  have hpieces : pieces? policy.groupText.toList = some (piecesOf policy) := by
    obtain ⟨pieces, hpieces⟩ := Option.isSome_iff_exists.mp hreadable.2
    unfold piecesOf
    rw [hpieces, Option.getD_some]
  have hgroup := reads_quoted (mark_not_mem policy) hreadable.1 hpieces
  have hclose : Reads (ended ["    \x7d"]) [.closed] := by decide
  have hall := (reads_name h).append (reads_start.append
    (hgroup.append ((reads_further h).append ((reads_consequence policy).append hclose))))
  rw [ended_linesOf]
  refine (congrArg (Reads _) ?_).mp hall
  unfold ruleTokens condition
  rw [tokens_allOf, List.map_cons, List.flatMap_cons]
  simp only [groupTerm, Term.tokens, List.nil_append, List.cons_append, List.append_assoc, if_true]

/-- A text that goes on past its mark meets the next one before a percent sign, or the end of its line. -/
theorem goes_on (policy : PolicyIn) (more : String) (read : List Char) :
    (Steps.run lexChar (.quoted read) (furtherText policy ++ "\n" ++ more).toList).1 = .broken := by
  cases hnetworks : policy.networks with
  | nil =>
      have hmark : '"' ∉ (furtherText policy).toList := by
        unfold furtherText furtherConditions
        rw [hnetworks]
        cases policy.principalKind <;> decide
      rw [String.toList_append, String.toList_append, List.append_assoc]
      exact (run_line more.toList hmark).1 read
  | cons name names =>
      have hnetwork : ∃ rest, compareNetwork name = "\"%" ++ rest := by
        refine ⟨"\x7bNAS-Identifier\x7d\" == " ++ ("\"" ++ name ++ "\""), ?_⟩
        rw [← String.append_assoc]
        rfl
      have hstart : ∃ rest, furtherText policy ++ "\n" ++ more = " && (" ++ "\"%" ++ rest := by
        obtain ⟨rest, hrest⟩ := hnetwork
        have hfurther : furtherConditions policy policy.networks =
            ("(" ++ Text.join " || " (compareNetwork name :: names.map compareNetwork) ++ ")") ::
              compareKind policy.principalKind := by
          unfold furtherConditions
          rw [hnetworks]
          rfl
        unfold furtherText
        rw [hfurther, join_cons, hrest, List.map_cons, String.join_cons]
        refine ⟨rest ++ (String.join ((names.map compareNetwork).map (" || " ++ ·)) ++ (")" ++
          (String.join ((compareKind policy.principalKind).map (" && " ++ ·)) ++ (") \x7b" ++ ("\n" ++ more))))), ?_⟩
        rw [show " && (" = " && " ++ "(" by decide]
        simp only [String.append_assoc]
      obtain ⟨rest, hrest⟩ := hstart
      have hwithin := @run_quoted " && (".toList read (by decide) (by decide)
      have hbroken : ∀ read, (Steps.run lexChar (.quoted read) "\"%".toList).1 = .broken := by
        intro read
        rw [show "\"%".toList = ['"', '%'] by decide, Steps.run_cons]
        dsimp only [lexChar]
        rw [if_pos rfl]
        cases pieces? read <;> rfl
      rw [hrest, String.toList_append, String.toList_append, Steps.run_append, Steps.run_append, hwithin]
      simp only [hbroken, run_broken]

theorem breaks_rule {policy : PolicyIn} (h : Sound policy) (hunreadable : ¬ Readable policy) :
    Breaks (ended (linesOf policy)) := by
  have hpieces : closes policy.groupText.toList = true → pieces? policy.groupText.toList = none := by
    intro hcloses
    rw [← Option.not_isSome_iff_eq_none]
    exact fun hsome => hunreadable ⟨hcloses, hsome⟩
  rw [ended_linesOf]
  exact (reads_name h).breaks (reads_start.breaks
    (breaks_quoted (mark_not_mem policy) hpieces fun read => goes_on policy _ read))

def textOf (policies : List PolicyIn) : String :=
  ended heading ++ ended (policies.flatMap linesOf) ++ ended ending.dropLast

theorem renderPolicies_eq {policies : List PolicyIn} (h : ∀ policy ∈ policies, Sound policy) :
    renderPolicies policies = .ok (textOf (ordered policies)) := by
  have hlines : (ordered policies).mapM ruleLines = .ok ((ordered policies).map linesOf) := by
    refine List.mapM_eq_ok_map fun policy hpolicy => ruleLines_eq (h policy ?_)
    exact (List.mem_filter.mp ((List.perm_sortedBy _ _).mem_iff.mp hpolicy)).1
  have hend : heading ++ ((ordered policies).map linesOf).flatten ++ ending =
      heading ++ (ordered policies).flatMap linesOf ++ ending.dropLast ++ [""] := by
    rw [List.flatMap_def, List.append_assoc _ ending.dropLast]
    rfl
  unfold renderPolicies
  rw [hlines]
  show Except.ok (Text.join "\n" _) = _
  rw [hend, join_ended, ended_append, ended_append]
  rfl

theorem tokens_policyBlock (policies : List PolicyIn) :
    (policyBlock policies).tokens = policies.flatMap ruleTokens ++ otherwise.tokens := by
  induction policies with
  | nil => rfl
  | cons policy policies ih =>
      have hblock : policyBlock (policy :: policies) =
          .when (condition policy) (body policy) (policyBlock policies) := rfl
      rw [hblock, Block.tokens, ih, List.flatMap_cons]
      simp only [ruleTokens, List.cons_append, List.append_assoc, List.nil_append]

theorem reads_rules {policies : List PolicyIn} (h : ∀ policy ∈ policies, Sound policy)
    (hreadable : ∀ policy ∈ policies, Readable policy) :
    Reads (ended (policies.flatMap linesOf)) (policies.flatMap ruleTokens) := by
  induction policies with
  | nil => decide
  | cons policy policies ih =>
      obtain ⟨hpolicy, hpolicies⟩ := List.forall_mem_cons.mp h
      obtain ⟨hfirst, hrest⟩ := List.forall_mem_cons.mp hreadable
      rw [List.flatMap_cons, List.flatMap_cons, ended_append]
      exact (reads_rule hpolicy hfirst).append (ih hpolicies hrest)

theorem breaks_rules {policies : List PolicyIn} (h : ∀ policy ∈ policies, Sound policy)
    (hunreadable : ¬ ∀ policy ∈ policies, Readable policy) : Breaks (ended (policies.flatMap linesOf)) := by
  induction policies with
  | nil => exact absurd (fun _ hmem => nomatch hmem) hunreadable
  | cons policy policies ih =>
      obtain ⟨hpolicy, hpolicies⟩ := List.forall_mem_cons.mp h
      rw [List.flatMap_cons, ended_append]
      by_cases hfirst : Readable policy
      · have hrest : ¬ ∀ policy ∈ policies, Readable policy :=
          fun hall => hunreadable (List.forall_mem_cons.mpr ⟨hfirst, hall⟩)
        exact (reads_rule hpolicy hfirst).breaks (ih hpolicies hrest)
      · exact (breaks_rule hpolicy hfirst).append _

theorem reads_heading : Reads (ended heading) [.operand (.word "odm_access"), .opened] := by decide +kernel

theorem reads_ending : Reads (ended ending.dropLast) (otherwise.tokens ++ [.closed]) := by decide

theorem read_textOf {policies : List PolicyIn} (h : ∀ policy ∈ policies, Sound policy) :
    Unlang.read (textOf policies) =
      if ∀ policy ∈ policies, Readable policy then some ("odm_access", policyBlock policies) else none := by
  unfold Unlang.read textOf
  split_ifs with hreadable
  · have hall := (reads_heading.append (reads_rules h hreadable)).append reads_ending
    rw [hall.lex]
    have htokens : [Token.operand (.word "odm_access"), .opened] ++ policies.flatMap ruleTokens ++
        (otherwise.tokens ++ [.closed]) =
          .operand (.word "odm_access") :: .opened :: ((policyBlock policies).tokens ++ [.closed]) := by
      rw [tokens_policyBlock]
      simp only [List.cons_append, List.nil_append, List.append_assoc]
    rw [htokens]
    exact readPolicy_tokens "odm_access" (policyBlock policies)
  · rw [((reads_heading.breaks (breaks_rules h hreadable)).append _).lex]
    rfl

/-- The rule as the policy reads it: of the groups of the user, the first. -/
def sees (request : Request) (policy : PolicyIn) : Bool :=
  policy.enabled && expand request.values (piecesOf policy) = (request.groups.head?).getD "" &&
    onNetwork policy request && ofKind policy.principalKind request.userName

theorem holds_allOf (request : String → Option String) (state : State) (term : Term) (terms : List Term) :
    (allOf term terms).holds request state = (term :: terms).all (Term.holds request state) := by
  induction terms generalizing term with
  | nil => simp [allOf, Cond.holds]
  | cons next terms ih =>
      rw [allOf, Cond.holds, ih]
      rfl

theorem holds_anyOf (request : String → Option String) (state : State) (term : Term) (terms : List Term) :
    (anyOf term terms).holds request state = (term :: terms).any (Term.holds request state) := by
  induction terms generalizing term with
  | nil => simp [anyOf, Cond.holds]
  | cons next terms ih =>
      rw [anyOf, Cond.holds, ih]
      rfl

section
variable {request : Request} {state : State} {policy : PolicyIn}

theorem value_authType : authType.value request.values state = state.control "Auth-Type" := by
  have hname : reference? "&control:Auth-Type" = some "control:Auth-Type" := by decide
  have hstart : Text.startsWith "control:Auth-Type" "control:" = true := by decide
  have hrest : Text.removePrefix "control:Auth-Type" "control:" = "Auth-Type" := by decide
  unfold authType Operand.value
  simp only [hname]
  unfold State.value
  rw [if_pos hstart, hrest]

theorem value_userName : (Operand.word "&User-Name").value request.values state = some request.userName := by
  have hname : reference? "&User-Name" = some "User-Name" := by decide
  have hstart : Text.startsWith "User-Name" "control:" = false := by decide
  unfold Operand.value
  simp only [hname]
  unfold State.value
  rw [hstart]
  rfl

variable {method : String}

theorem holds_notRejected (h : state.control "Auth-Type" = some method) :
    notRejected.holds request.values state = decide (method ≠ "Reject") := by
  unfold notRejected Term.holds
  rw [value_authType, h]
  have hword : (Operand.word "Reject").value request.values state = some "Reject" := by
    have hnone : reference? "Reject" = none := by decide
    unfold Operand.value
    simp only [hnone]
  rw [hword]
  rfl

theorem expand_name (name : String) : expand request.values [.expansion name] = (request.values name).getD "" := by
  unfold expand
  simp

theorem values_group : request.values "Group-Name" = request.groups.head? := by
  unfold Request.values
  rw [if_neg (by decide), if_pos rfl]

theorem values_nas : request.values "NAS-Identifier" = request.nas := by
  unfold Request.values
  rw [if_neg (by decide), if_neg (by decide), if_pos rfl]

theorem holds_group : (groupTerm policy).holds request.values state =
    decide (expand request.values (piecesOf policy) = (request.groups.head?).getD "") := by
  rw [groupTerm, Term.holds_quoted, expand_name, values_group]
  exact decide_eq_decide.mpr eq_comm

theorem holds_network {name : String} (hne : name ≠ "") :
    (networkTerm name).holds request.values state = decide (request.nas = some name) := by
  rw [networkTerm, Term.holds_quoted, expand_name, values_nas, expand_letters, String.ofList_toList]
  refine decide_eq_decide.mpr ?_
  cases request.nas with
  | none => simp [hne.symm]
  | some nas => simp

theorem holds_networks :
    (networkTerms policy.networks).all (Term.holds request.values state) = onNetwork policy request := by
  have hne : ∀ name ∈ policy.networks, name ≠ "" :=
    fun name hname => of_decide_eq_true (List.mem_filter.mp hname).2
  unfold onNetwork
  cases hnetworks : policy.networks with
  | nil => rfl
  | cons name names =>
      rw [hnetworks] at hne
      rw [networkTerms, List.all_cons, List.all_nil, Bool.and_true, Term.holds, if_neg Bool.false_ne_true, holds_anyOf,
        ← List.map_cons, List.any_map]
      simp only [List.cons_ne_nil, decide_false, Bool.false_or]
      rw [Bool.eq_iff_iff, List.any_eq_true, List.any_eq_true]
      refine exists_congr fun other => and_congr_right fun hother => ?_
      rw [Function.comp_apply, holds_network (hne other hother)]

theorem holds_kind (kind : PrincipalKind) :
    (kindTerms kind).all (Term.holds request.values state) = ofKind kind request.userName := by
  have hhost : host.holds request.values state = Text.startsWith request.userName "host/" := by
    unfold host Term.holds
    rw [value_userName]
    rfl
  have hdollar : dollar.holds request.values state = Text.endsWith request.userName "$" := by
    unfold dollar Term.holds
    rw [value_userName]
    rfl
  cases kind with
  | any => rfl
  | computer =>
      rw [kindTerms, List.all_cons, List.all_nil, Bool.and_true, Term.holds, if_neg Bool.false_ne_true, holds_anyOf,
        List.any_cons, List.any_cons, hhost, hdollar, List.any_nil, Bool.or_false]
      rfl
  | user =>
      rw [kindTerms, List.all_cons, List.all_nil, Bool.and_true, Term.holds, if_neg Bool.false_ne_true, holds_allOf,
        List.all_cons, List.all_cons, Term.holds, Term.holds, if_pos rfl, if_pos rfl, Cond.holds, Cond.holds, hhost,
        hdollar, List.all_nil, Bool.and_true]
      unfold ofKind isComputer
      rw [Bool.not_or]

theorem holds_condition (h : state.control "Auth-Type" = some method) (hmethod : method ≠ "Reject")
    (henabled : policy.enabled = true) : (condition policy).holds request.values state = sees request policy := by
  unfold condition sees
  rw [holds_allOf, List.all_cons, List.all_cons, List.all_append, holds_notRejected h, holds_group, holds_networks,
    holds_kind, decide_eq_true hmethod, henabled, Bool.true_and, Bool.true_and, Bool.and_assoc]

/-- What a rule that allows leaves. -/
def granted (policy : PolicyIn) (state : State) : State :=
  match policy.vlan with
  | some (vlan + 1) => (state.update .control [("Auth-Type", "Accept")]).update .reply (vlanSets (vlan + 1))
  | _ => state.update .control [("Auth-Type", "Accept")]

theorem run_body : (body policy).run request.values state =
    if policy.access = .deny then none else some (granted policy state) := by
  unfold body granted
  cases policy.access with
  | deny => rfl
  | allow =>
      rw [if_neg (by decide)]
      dsimp only
      cases policy.vlan with
      | none => rfl
      | some vlan => cases vlan <;> rfl

theorem granted_control : (granted policy state).control "Auth-Type" = some "Accept" := by
  have hset : (state.update .control [("Auth-Type", "Accept")]).control "Auth-Type" = some "Accept" := by
    unfold State.update
    exact Function.update_self "Auth-Type" (some "Accept") state.control
  unfold granted
  cases policy.vlan with
  | none => exact hset
  | some vlan => cases vlan <;> exact hset

theorem granted_vlan (h : ∀ vlan ∈ policy.vlan, 1 ≤ vlan) :
    vlanOf (granted policy state).reply = (policy.vlan.map toString).or (vlanOf state.reply) := by
  unfold granted
  cases hvlan : policy.vlan with
  | none => rfl
  | some vlan =>
      cases vlan with
      | zero => exact absurd (h 0 hvlan) (by decide)
      | succ vlan =>
          have hset : ∀ reply : String → Option String,
              vlanOf ((vlanSets (vlan + 1)).foldl (fun list set => Function.update list set.1 (some set.2)) reply) =
                some (toString (vlan + 1)) := by
            intro reply
            unfold vlanOf vlanSets
            simp [Function.update]
          exact hset _

/-- The state after the rules that allow. -/
def through (request : Request) (policies : List PolicyIn) (state : State) : State :=
  (policies.filter fun policy => sees request policy && policy.access = .allow).foldl
    (fun state policy => granted policy state) state

theorem run_policyBlock {policies : List PolicyIn} (henabled : ∀ policy ∈ policies, policy.enabled = true)
    {method : String} (h : state.control "Auth-Type" = some method) (hmethod : method ≠ "Reject") :
    (policyBlock policies).run request.values state =
      if policies.any fun policy => sees request policy && policy.access = .deny then none
      else otherwise.run request.values (through request policies state) := by
  induction policies generalizing state method with
  | nil => rfl
  | cons policy policies ih =>
      obtain ⟨hfirst, hrest⟩ := List.forall_mem_cons.mp henabled
      have hblock : policyBlock (policy :: policies) =
          .when (condition policy) (body policy) (policyBlock policies) := rfl
      rw [hblock, Block.run, holds_condition h hmethod hfirst, List.any_cons]
      unfold through
      cases hsees : sees request policy with
      | false =>
          rw [if_neg Bool.false_ne_true, ih hrest h hmethod, List.filter_cons, hsees]
          rfl
      | true =>
          rw [if_pos rfl, run_body]
          by_cases hdeny : policy.access = .deny
          · rw [if_pos hdeny]
            simp [hdeny]
          · have hallow : policy.access = .allow := by
              cases haccess : policy.access with
              | allow => rfl
              | deny => exact absurd haccess hdeny
            rw [if_neg hdeny, Option.bind_some, ih hrest granted_control (by decide), List.filter_cons, hsees]
            simp only [hallow, reduceCtorEq, decide_false, Bool.and_false, Bool.false_or, decide_true, Bool.and_self,
              if_true, List.foldl_cons]
            rfl

theorem foldl_control {policies : List PolicyIn} (hne : policies ≠ []) (state : State) :
    (policies.foldl (fun state policy => granted policy state) state).control "Auth-Type" = some "Accept" := by
  obtain ⟨before, last, rfl⟩ := (List.eq_nil_or_concat' policies).resolve_left hne
  rw [List.foldl_append]
  exact granted_control

theorem through_authType {policies : List PolicyIn} {method : String} (h : state.control "Auth-Type" = some method) :
    ∃ method, (through request policies state).control "Auth-Type" = some method := by
  unfold through
  by_cases hnil : (policies.filter fun policy => sees request policy && policy.access = .allow) = []
  · exact ⟨method, by rw [hnil, List.foldl_nil, h]⟩
  · exact ⟨"Accept", foldl_control hnil state⟩

theorem through_control {policies : List PolicyIn} {method : String} (h : state.control "Auth-Type" = some method)
    (hmethod : method ≠ "Accept") : (through request policies state).control "Auth-Type" = some "Accept" ↔
      policies.any (fun policy => sees request policy && policy.access = .allow) = true := by
  unfold through
  by_cases hnil : (policies.filter fun policy => sees request policy && policy.access = .allow) = []
  · rw [hnil, List.foldl_nil, h]
    refine iff_of_false (fun heq => hmethod (Option.some.inj heq)) fun hany => ?_
    obtain ⟨policy, hpolicy, hallows⟩ := List.any_eq_true.mp hany
    exact List.filter_eq_nil_iff.mp hnil policy hpolicy hallows
  · refine iff_of_true (foldl_control hnil state) (List.any_eq_true.mpr ?_)
    obtain ⟨policy, hpolicy⟩ := List.exists_mem_of_ne_nil _ hnil
    exact ⟨policy, List.mem_filter.mp hpolicy⟩

theorem through_vlan {policies : List PolicyIn} (h : ∀ policy ∈ policies, Sound policy) :
    vlanOf (through request policies state).reply =
      ((((policies.filter fun policy => sees request policy && policy.access = .allow).filterMap
        PolicyIn.vlan).getLast?).map toString).or (vlanOf state.reply) := by
  unfold through
  have hkept : ∀ policy ∈ policies.filter fun policy => sees request policy && policy.access = .allow,
      Sound policy := fun policy hpolicy => h policy (List.mem_filter.mp hpolicy).1
  generalize (policies.filter fun policy => sees request policy && policy.access = .allow) = allowed at *
  induction allowed using List.reverseRecOn with
  | nil => rfl
  | append_singleton before last ih =>
      have hlast := hkept last (by simp)
      rw [List.foldl_append, List.foldl_cons, List.foldl_nil, granted_vlan fun vlan hvlan => (hlast.vlan vlan hvlan).1,
        ih fun policy hpolicy => hkept policy (List.mem_append_left _ hpolicy), List.filterMap_append]
      cases hvlan : last.vlan with
      | none => simp [hvlan]
      | some vlan => simp [hvlan]

theorem run_otherwise (h : state.control "Auth-Type" = some method) :
    otherwise.run request.values state = if method = "Accept" then some state else none := by
  have hword : (Operand.word "Accept").value request.values state = some "Accept" := by
    have hnone : reference? "Accept" = none := by decide
    unfold Operand.value
    simp only [hnone]
  have hholds : (Term.compare authType true (.word "Accept")).holds request.values state =
      decide (method = "Accept") := by
    rw [Term.holds, value_authType, hword, h]
    rfl
  rw [otherwise, Block.run, Cond.holds, Term.holds, if_pos rfl, Cond.holds, hholds]
  by_cases hmethod : method = "Accept"
  · simp [hmethod, Block.run]
  · simp [hmethod, Block.run]

/-- The last VLAN that a rule which allows says. -/
def lastVlan (holds : PolicyIn → Bool) (policies : List PolicyIn) : Option Nat :=
  ((allowing holds policies).filterMap PolicyIn.vlan).getLast?

/-- What the policy answers, once it is read. -/
def asRead (policies : List PolicyIn) (request : Request) : Answer :=
  if refuses (sees request) policies then .refused
  else .accepted ((lastVlan (sees request) policies).map toString)

theorem mem_ordered {policies : List PolicyIn} :
    policy ∈ ordered policies ↔ policy ∈ policies ∧ policy.enabled = true := by
  unfold ordered
  rw [(List.perm_sortedBy _ _).mem_iff, List.mem_filter]

theorem any_ordered (policies : List PolicyIn) (access : Access) :
    (ordered policies).any (fun policy => sees request policy && policy.access = access) =
      policies.any fun policy => sees request policy && policy.access = access := by
  rw [Bool.eq_iff_iff, List.any_eq_true, List.any_eq_true]
  constructor
  · rintro ⟨policy, hpolicy, hsees⟩
    exact ⟨policy, (mem_ordered.mp hpolicy).1, hsees⟩
  · rintro ⟨policy, hpolicy, hsees⟩
    refine ⟨policy, mem_ordered.mpr ⟨hpolicy, ?_⟩, hsees⟩
    simp only [sees, Bool.and_eq_true] at hsees
    exact hsees.1.1.1.1

theorem filter_ordered (policies : List PolicyIn) :
    (ordered policies).filter (fun policy => sees request policy && policy.access = .allow) =
      allowing (sees request) policies := by
  have henabled : ∀ policy, (sees request policy && decide (policy.access = .allow) && policy.enabled) =
      (sees request policy && decide (policy.access = .allow)) := by
    intro policy
    unfold sees
    cases policy.enabled <;> simp
  unfold ordered allowing
  rw [List.filter_sortedBy, List.filter_sortedBy, List.filter_filter]
  simp only [henabled]
  refine List.sortedBy_congr fun a ha b hb => ?_
  have hallow : ∀ policy ∈ policies.filter (fun policy => sees request policy && policy.access = .allow),
      policy.access = .allow := by
    intro policy hpolicy
    have hkept := (List.mem_filter.mp hpolicy).2
    rw [Bool.and_eq_true, decide_eq_true_eq] at hkept
    exact hkept.2
  rw [hallow a ha, hallow b hb, Prod.Lex.toLex_le_toLex]
  simp

theorem answer_textOf {policies : List PolicyIn} (h : ∀ policy ∈ policies, Sound policy) (request : Request) :
    answer (textOf (ordered policies)) request =
      if ∀ policy ∈ policies, policy.enabled → Readable policy then some (asRead policies request) else none := by
  have hsound : ∀ policy ∈ ordered policies, Sound policy :=
    fun policy hpolicy => h policy (mem_ordered.mp hpolicy).1
  have hreadable : (∀ policy ∈ ordered policies, Readable policy) ↔
      ∀ policy ∈ policies, policy.enabled → Readable policy := by
    simp only [mem_ordered, and_imp]
  unfold answer
  rw [read_textOf hsound]
  by_cases hread : ∀ policy ∈ policies, policy.enabled → Readable policy
  · rw [if_pos hread, if_pos (hreadable.mpr hread), Option.map_some]
    refine congrArg some ?_
    have hstate : request.state.control "Auth-Type" = some request.authType := by
      simp [Request.state]
    have henabled : ∀ policy ∈ ordered policies, policy.enabled = true :=
      fun policy hpolicy => (mem_ordered.mp hpolicy).2
    have hrun := @run_policyBlock request request.state (ordered policies) henabled _ hstate request.chosen.1
    have hcontrol := @through_control request request.state (ordered policies) _ hstate request.chosen.2
    have hvlan := @through_vlan request request.state (ordered policies) hsound
    rw [any_ordered] at hrun hcontrol
    rw [filter_ordered] at hvlan
    show (match (policyBlock (ordered policies)).run request.values request.state with
      | none => Answer.refused
      | some state => .accepted (vlanOf state.reply)) = _
    rw [hrun]
    unfold asRead refuses
    cases policies.any fun policy => sees request policy && policy.access = .deny with
    | true => rfl
    | false =>
        rw [if_neg Bool.false_ne_true, Bool.false_or]
        obtain ⟨method, hmethod⟩ := @through_authType request request.state (ordered policies) _ hstate
        rw [run_otherwise hmethod]
        cases hallow : policies.any fun policy => sees request policy && policy.access = .allow with
        | false =>
            have hnot : method ≠ "Accept" := fun heq =>
              Bool.false_ne_true (hallow.symm.trans (hcontrol.mp (hmethod.trans (congrArg some heq))))
            rw [if_neg hnot]
            rfl
        | true =>
            have haccept : method = "Accept" := Option.some.inj (hmethod.symm.trans (hcontrol.mpr hallow))
            rw [if_pos haccept]
            show Answer.accepted (vlanOf (through request (ordered policies) request.state).reply) = _
            rw [hvlan]
            show Answer.accepted (Option.or _ none) = _
            rw [Option.or_none]
            rfl
  · rw [if_neg hread, if_neg fun hall => hread (hreadable.mp hall)]
    rfl

theorem right_iff_asRead (rules : List Rule) (request : Request) :
    Right rules request ↔ (∀ policy ∈ rows rules, policy.enabled → Readable policy) ∧
      asRead (rows rules) request = verdict (rows rules) request := by
  have hsound : ∀ policy ∈ rows rules, Sound policy := by
    intro policy hpolicy
    obtain ⟨rule, _, rfl⟩ := List.mem_map.mp hpolicy
    exact rule.sound
  unfold Right
  rw [renderPolicies_eq hsound]
  constructor
  · rintro ⟨text, htext, hanswer⟩
    rw [← Except.ok.inj htext, answer_textOf hsound] at hanswer
    split_ifs at hanswer with hreadable
    exact ⟨hreadable, Option.some.inj hanswer⟩
  · rintro ⟨hreadable, hanswer⟩
    refine ⟨_, rfl, ?_⟩
    rw [answer_textOf hsound, if_pos hreadable, hanswer]

theorem toString_injective : Function.Injective (toString : Nat → String) := by
  have hleft : Function.LeftInverse (fun text => Nat.ofDigitChars 10 text.toList 0) (toString : Nat → String) := by
    intro number
    show Nat.ofDigitChars 10 (toString number).toList 0 = number
    rw [Nat.toString_eq_ofList_toDigits, String.toList_ofList]
    exact Nat.ofDigitChars_ten_toDigits
  exact hleft.injective

/-- The policy is read and answers as the rules say exactly when every group's name ends where its mark stands,
the rules that name the first group decide what all of them do, and the last VLAN among those is the one of the
first rule that allows. -/
theorem policy_right_iff (rules : List Rule) (request : Request) :
    Right rules request ↔ (∀ policy ∈ rows rules, policy.enabled → Readable policy) ∧
      refuses (sees request) (rows rules) = refuses (fits request) (rows rules) ∧
      (refuses (fits request) (rows rules) = false →
        lastVlan (sees request) (rows rules) = firstVlan (fits request) (rows rules)) := by
  rw [right_iff_asRead]
  refine and_congr_right fun _ => ?_
  unfold asRead verdict
  cases refuses (sees request) (rows rules) <;> cases refuses (fits request) (rows rules)
  · simp [(Option.map_injective toString_injective).eq_iff]
  · simp
  · simp
  · simp

def staff (name : String) (vlan ordering : Nat) : PolicyIn where
  name := name
  groupDn := "CN=Staff,DC=example,DC=org"
  groupName := "Staff"
  vlan := some vlan
  ordering := ordering

def wired : Rule := { staff "wired" 10 1 with created := ⟨staff "wired" 10 1, by decide, by rfl⟩ }

def wireless : Rule := { staff "wireless" 20 2 with created := ⟨staff "wireless" 20 2, by decide, by rfl⟩ }

def backslash : PolicyIn where
  name := "guests"
  groupDn := "CN=Guests\\\\,DC=example,DC=org"
  groupName := "Guests\\"
  access := .deny

def guests : Rule := { backslash with created := ⟨backslash, by decide, by rfl⟩ }

def anna (groups : List String) : Request where
  userName := "anna"
  groups := groups
  nas := none
  authType := "eap"
  chosen := by decide
  others := fun _ => none

/-- The name of one group takes in what follows, and no rule is read; a second rule takes the place of the first
one's VLAN; and a rule does not see the second group of a user. -/
theorem policies_misread :
    ¬ Right [wired, guests] (anna ["Staff"]) ∧ ¬ Right [wired, wireless] (anna ["Staff"]) ∧
      ¬ Right [wired] (anna ["Printing", "Staff"]) := by
  simp only [right_iff_asRead]
  refine ⟨fun h => ?_, fun h => ?_, fun h => ?_⟩
  · have hreadable := h.1 guests.toPolicyIn (by simp [rows]) rfl
    exact absurd hreadable (by decide)
  · exact absurd h.2 (by decide)
  · exact absurd h.2 (by decide)

end

end

end OpenDirectory.Radius
