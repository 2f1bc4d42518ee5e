import OpenDirectory.EntrySchema
import OpenDirectory.Lines
import OpenDirectory.Nft

/-! Firewall rules as the settings document has them, the table the agent writes for them, and what is loaded of that:
one rule for each entry, matching the packets the entry is about. -/

namespace OpenDirectory.FirewallRules

open Agent (entryName header)
open Nft (Token Packet)

inductive Action where
  | allow
  | deny

inductive Direction where
  | in
  | out
  deriving DecidableEq

inductive Protocol where
  | tcp
  | udp
  | icmp
  | any
  deriving DecidableEq

/-- An entry the schema accepts. Any text is a source. -/
structure FirewallRule where
  name : String
  action : Action := .allow
  direction : Direction := .in
  protocol : Protocol := .tcp
  port : Option Nat := none
  source : String := "any"
  named : entryName name = true := by decide
  ported : ∀ number ∈ port, 1 ≤ number ∧ number ≤ 65535 := by decide

def transport : Protocol → Option String
  | .tcp => some "tcp"
  | .udp => some "udp"
  | .icmp | .any => none

def verdict : Action → String
  | .allow => "accept"
  | .deny => "drop"

def sourceParts (rule : FirewallRule) : List String :=
  if rule.source ≠ "" ∧ rule.source ≠ "any" then ["ip saddr " ++ rule.source] else []

def protocolParts (rule : FirewallRule) : List String :=
  match transport rule.protocol with
  | some protocol => protocol :: rule.port.toList.map fun port => "dport " ++ toString port
  | none => if rule.protocol = .icmp then ["meta l4proto icmp"] else []

def renderNftRule (rule : FirewallRule) : String :=
  Text.join " " (sourceParts rule ++ protocolParts rule ++ [verdict rule.action] ++ ["comment \"" ++ rule.name ++ "\""])

def line (rule : FirewallRule) : String := "    " ++ renderNftRule rule ++ "\n"

/-- The lines of the rules of one direction. -/
def lines (direction : Direction) : List FirewallRule → String
  | [] => ""
  | rule :: rules => if rule.direction = direction then line rule ++ lines direction rules else lines direction rules

def opened : String :=
  header ++ "table inet odm\ndelete table inet odm\ntable inet odm \x7b\n  chain input \x7b\n    " ++
    "type filter hook input priority 0; policy accept;\n"

def between : String := "  \x7d\n  chain output \x7b\n    type filter hook output priority 0; policy accept;\n"

def closed : String := "  \x7d\n\x7d\n"

def ruleset (rules : List FirewallRule) : String := opened ++ lines .in rules ++ between ++ lines .out rules ++ closed

/-- `applyFirewall` writes nothing for no entries. -/
def applyFirewall (rules : List FirewallRule) : Option String := if rules = [] then none else some (ruleset rules)

inductive Source where
  | anywhere
  | within (network : Address.Network)

def sourceChar (c : Char) : Bool := (Address.hexDigit c).isSome || c ∈ ['.', ':', '/']

/-- A source is an address or a range of them, of either version, or `any`. -/
def source? (text : String) : Option Source :=
  if text = "" ∨ text = "any" then some .anywhere
  else if text.toList.all sourceChar then (Nft.network4? text <|> Nft.network6? text).map .within
  else none

def Source.has (host : Address.Host) : Source → Bool
  | .anywhere => true
  | .within network => network.contains host

def Protocol.number : Protocol → Option Nat
  | .tcp => some 6
  | .udp => some 17
  | .icmp => some 1
  | .any => none

/-- A packet is one of an entry with a source. -/
def Concerns (rule : FirewallRule) (source : Source) (packet : Packet) : Prop :=
  (∀ number ∈ rule.protocol.number, packet.protocol = number) ∧ source.has packet.source = true ∧
    ∀ port ∈ rule.port, packet.port = some port

def Action.verdict : Action → Nft.Verdict
  | .allow => .accept
  | .deny => .drop

/-- A loaded rule does what its entry says. -/
def DoesWhat (rule : FirewallRule) (loaded : Nft.Rule) : Prop :=
  loaded.verdict = rule.action.verdict ∧ loaded.comment = some rule.name ∧
    ∃ source, source? rule.source = some source ∧ ∀ packet, loaded.applies packet = true ↔ Concerns rule source packet

def odm : Nft.Key := ("inet", "odm")

def inputChain (rules : List Nft.Rule) : Nft.Chain := ⟨"input", some ("input", 0), .accept, rules⟩

def outputChain (rules : List Nft.Rule) : Nft.Chain := ⟨"output", some ("output", 0), .accept, rules⟩

/-- What is written loads, whatever is loaded already: other tables stay, and this one has the rule of each entry in its
place. -/
def Faithful (rules : List FirewallRule) : Prop :=
  ∀ text, applyFirewall rules = some text → ∀ tables, ∃ after inputs outputs,
    Nft.load tables text = some after ∧ (∀ key, key ≠ odm → after key = tables key) ∧
      after odm = some [inputChain inputs, outputChain outputs] ∧
      List.Forall₂ DoesWhat (rules.filter (·.direction = .in)) inputs ∧
      List.Forall₂ DoesWhat (rules.filter (·.direction = .out)) outputs

/-- A source of the fourth version or any, and a port for the protocols that have them and for no other. -/
def Sayable (rule : FirewallRule) : Prop :=
  (source? rule.source = some .anywhere ∨ ∃ network, network.version = .v4 ∧
    source? rule.source = some (.within network)) ∧
    ((transport rule.protocol).isSome ↔ rule.port.isSome)

def sourceTokens (rule : FirewallRule) : List Token :=
  if rule.source ≠ "" ∧ rule.source ≠ "any" then [.word "ip", .word "saddr", .word rule.source] else []

def protocolTokens (rule : FirewallRule) : List Token :=
  match transport rule.protocol with
  | some protocol => .word protocol :: rule.port.toList.flatMap fun port => [.word "dport", .word (toString port)]
  | none => if rule.protocol = .icmp then [.word "meta", .word "l4proto", .word "icmp"] else []

def verdictTokens (rule : FirewallRule) : List Token :=
  [.word (verdict rule.action), .word "comment", .quoted rule.name]

def tokens (rule : FirewallRule) : List Token := sourceTokens rule ++ protocolTokens rule ++ verdictTokens rule

section
variable {rule : FirewallRule}

theorem reads_parts {parts : List String} {words : List (List Token)} {last : String} {final : List Token}
    (h : List.Forall₂ (fun part words => Nft.Reads (part ++ " ") words) parts words) (hlast : Nft.Reads last final) :
    Nft.Reads (Text.join " " (parts ++ [last])) (words.flatten ++ final) := by
  induction h with
  | nil =>
      rw [List.nil_append, Text.join, String.intercalate_singleton]
      exact hlast
  | @cons part tokens parts words hpart _ ih =>
      have hjoin : Text.join " " (part :: (parts ++ [last])) = part ++ " " ++ Text.join " " (parts ++ [last]) := by
        have happend := @String.intercalate_append_of_ne_nil [part] (parts ++ [last]) " " (List.cons_ne_nil _ _) (by simp)
        rwa [String.intercalate_singleton] at happend
      rw [List.cons_append, hjoin, List.flatten_cons, List.append_assoc]
      exact hpart.append ih

theorem reads_port (port : Nat) : Nft.Reads ("dport " ++ toString port ++ " ") [.word "dport", .word (toString port)] := by
  have hword : Nft.Reads "dport " [.word "dport"] := by decide
  rw [String.append_assoc]
  refine hword.append (Nft.reads_word ?_ fun c hc => ?_)
  · exact Nat.repr_ne_empty
  · rw [Nat.toString_eq_ofList_toDigits, String.toList_ofList] at hc
    exact Nft.plain_of (p := Char.isDigit) (by decide) (Nat.isDigit_of_mem_toDigits (by decide) (by decide) hc)

theorem reads_sourceParts {source : Source} (h : source? rule.source = some source) :
    ∃ words, List.Forall₂ (fun part words => Nft.Reads (part ++ " ") words) (sourceParts rule) words ∧
      words.flatten = sourceTokens rule := by
  unfold sourceParts sourceTokens
  by_cases hsaid : rule.source ≠ "" ∧ rule.source ≠ "any"
  · rw [if_pos hsaid, if_pos hsaid]
    have hchars : rule.source.toList.all sourceChar = true := by
      by_contra hother
      unfold source? at h
      rw [if_neg (not_or.mpr hsaid), if_neg hother] at h
      exact nomatch h
    have hwords : Nft.Reads "ip saddr " [.word "ip", .word "saddr"] := by decide
    refine ⟨[[.word "ip", .word "saddr", .word rule.source]], .cons ?_ .nil, rfl⟩
    rw [String.append_assoc]
    refine hwords.append (Nft.reads_word hsaid.1 fun c hc => ?_)
    exact Nft.plain_of (p := sourceChar) (by decide) (List.all_eq_true.mp hchars c hc)
  · rw [if_neg hsaid, if_neg hsaid]
    exact ⟨[], .nil, rfl⟩

theorem reads_protocolParts :
    ∃ words, List.Forall₂ (fun part words => Nft.Reads (part ++ " ") words) (protocolParts rule) words ∧
      words.flatten = protocolTokens rule := by
  unfold protocolParts protocolTokens
  have htransport : ∀ protocol, transport rule.protocol = some protocol → Nft.Reads (protocol ++ " ") [.word protocol] := by
    intro protocol h
    cases hprotocol : rule.protocol with
    | tcp => obtain rfl := Option.some.inj (hprotocol ▸ h); decide
    | udp => obtain rfl := Option.some.inj (hprotocol ▸ h); decide
    | icmp => exact nomatch hprotocol ▸ h
    | any => exact nomatch hprotocol ▸ h
  cases hprotocol : transport rule.protocol with
  | none =>
      by_cases hicmp : rule.protocol = .icmp
      · refine ⟨[[.word "meta", .word "l4proto", .word "icmp"]], ?_, ?_⟩
        · dsimp only
          rw [if_pos hicmp]
          exact .cons (by decide) .nil
        · dsimp only
          rw [if_pos hicmp]
          rfl
      · refine ⟨[], ?_, ?_⟩
        · dsimp only
          rw [if_neg hicmp]
          exact .nil
        · dsimp only
          rw [if_neg hicmp]
          rfl
  | some protocol =>
      cases rule.port with
      | none => exact ⟨[[.word protocol]], .cons (htransport protocol hprotocol) .nil, rfl⟩
      | some port =>
          exact ⟨[[.word protocol], [.word "dport", .word (toString port)]],
            .cons (htransport protocol hprotocol) (.cons (reads_port port) .nil), rfl⟩

theorem reads_name : Nft.Reads ("comment \"" ++ rule.name ++ "\"") [.word "comment", .quoted rule.name] := by
  have hword : Nft.Reads "comment " [.word "comment"] := by decide
  have hname : '"' ∉ rule.name.toList := by
    obtain ⟨text, htext, hname⟩ := Pattern.closed_iff.mp rule.named
    have hall := (Pattern.run_iff.mp htext).2.2
    have hmark : '"' ∉ text := fun hmem => absurd (hall _ hmem) (by decide)
    rcases hname with hname | hname
    · rwa [hname]
    · rw [hname, List.mem_append]
      exact not_or.mpr ⟨hmark, by decide⟩
  have htext : "comment \"" ++ rule.name ++ "\"" = "comment " ++ ("\"" ++ rule.name ++ "\"") := by
    rw [← String.append_assoc, ← String.append_assoc]
    congr 1
  rw [htext]
  exact hword.append (Nft.reads_quoted hname)

theorem reads_line {source : Source} (h : source? rule.source = some source) :
    Nft.Reads (line rule) (tokens rule ++ [.stop]) := by
  obtain ⟨sourceWords, hsource, hsourceWords⟩ := reads_sourceParts h
  obtain ⟨protocolWords, hprotocol, hprotocolWords⟩ := @reads_protocolParts rule
  have hverdict : Nft.Reads (verdict rule.action ++ " ") [.word (verdict rule.action)] := by
    cases rule.action with
    | allow => decide
    | deny => decide
  have hparts := reads_parts (List.rel_append (List.rel_append hsource hprotocol) (.cons hverdict .nil)) (@reads_name rule)
  have hindent : Nft.Reads "    " [] := by decide
  have hend : Nft.Reads "\n" [.stop] := by decide
  have hline := (hindent.append hparts).append hend
  rw [List.flatten_append, List.flatten_append, hsourceWords, hprotocolWords] at hline
  have hnil : ([] : List (List Token)).flatten = [] := rfl
  rw [List.flatten_cons, hnil, List.append_nil, List.nil_append, List.append_assoc (sourceTokens rule ++ _)] at hline
  exact hline

end

def statements (direction : Direction) (rules : List FirewallRule) : List (List Token) :=
  (rules.filter (·.direction = direction)).map tokens

theorem reads_lines {direction : Direction} {rules : List FirewallRule}
    (h : ∀ rule ∈ rules, ∃ source, source? rule.source = some source) :
    Nft.Reads (lines direction rules) ((statements direction rules).flatMap (· ++ [.stop])) := by
  unfold statements
  induction rules with
  | nil => exact Nft.reads_empty
  | cons rule rules ih =>
      obtain ⟨⟨source, hsource⟩, hrest⟩ := List.forall_mem_cons.mp h
      unfold lines
      by_cases hdirection : rule.direction = direction
      · have hfirst : decide (rule.direction = direction) = true := decide_eq_true hdirection
        rw [if_pos hdirection, List.filter_cons, if_pos hfirst, List.map_cons, List.flatMap_cons]
        exact (reads_line hsource).append (ih hrest)
      · have hfirst : ¬ decide (rule.direction = direction) = true := mt of_decide_eq_true hdirection
        rw [if_neg hdirection, List.filter_cons, if_neg hfirst]
        exact ih hrest

theorem kept_tokens (rule : FirewallRule) : ∀ token ∈ tokens rule, token.kept = true := by
  have hsource : (sourceTokens rule).all Token.kept = true := by
    unfold sourceTokens
    split
    · rfl
    · rfl
  have hprotocol : (protocolTokens rule).all Token.kept = true := by
    unfold protocolTokens
    split
    · cases rule.port with
      | none => rfl
      | some port => rfl
    · split
      · rfl
      · rfl
  have hverdict : (verdictTokens rule).all Token.kept = true := rfl
  apply List.all_eq_true.mp
  rw [tokens, List.all_append, List.all_append, hsource, hprotocol, hverdict]
  rfl

theorem statements_commented {direction : Direction} {rules : List FirewallRule} :
    ∀ statement ∈ statements direction rules, (∀ token ∈ statement, token.kept = true) ∧
      ∃ comment, statement.getLast? = some (.quoted comment) := by
  intro statement hstatement
  obtain ⟨rule, -, rfl⟩ := List.mem_map.mp hstatement
  refine ⟨kept_tokens rule, rule.name, ?_⟩
  exact List.getLast?_append_of_ne_nil _ (List.cons_ne_nil _ _)

def openedTokens : List Token := [
  .stop, .word "table", .word "inet", .word "odm", .stop, .word "delete", .word "table", .word "inet", .word "odm",
  .stop, .word "table", .word "inet", .word "odm", .opened, .stop, .word "chain", .word "input", .opened, .stop,
  .word "type", .word "filter", .word "hook", .word "input", .word "priority", .word "0", .stop,
  .word "policy", .word "accept", .stop, .stop]

def betweenTokens : List Token := [
  .closed, .stop, .word "chain", .word "output", .opened, .stop,
  .word "type", .word "filter", .word "hook", .word "output", .word "priority", .word "0", .stop,
  .word "policy", .word "accept", .stop, .stop]

def closedTokens : List Token := [.closed, .stop, .closed, .stop]

theorem reads_opened : Nft.Reads opened openedTokens := by
  unfold Nft.Reads
  simp only [opened, header, String.toList_append, String.reduceToList]
  decide +kernel

theorem reads_between : Nft.Reads between betweenTokens := by
  unfold Nft.Reads
  simp only [between, String.reduceToList]
  decide

theorem reads_closed : Nft.Reads closed closedTokens := by decide

def cleared : List Nft.Command := [.declare odm, .delete odm]

theorem read_opened : openedTokens.foldlM Nft.readToken {} = some ⟨cleared, .chain odm [] (inputChain []), []⟩ := by
  decide

theorem read_between {inputs : List Nft.Rule} :
    betweenTokens.foldlM Nft.readToken ⟨cleared, .chain odm [] (inputChain inputs), []⟩ =
      some ⟨cleared, .chain odm [inputChain inputs] (outputChain []), []⟩ := by
  rfl

theorem read_closed {inputs outputs : List Nft.Rule} :
    closedTokens.foldlM Nft.readToken ⟨cleared, .chain odm [inputChain inputs] (outputChain outputs), []⟩ =
      some ⟨cleared ++ [.define odm [inputChain inputs, outputChain outputs]], .top, []⟩ := by
  rfl

/-- What is loaded in the end. -/
def loaded (tables : Nft.Tables) (inputs outputs : List Nft.Rule) : Nft.Tables :=
  Function.update tables odm (some [inputChain inputs, outputChain outputs])

theorem exec_ruleset {tables : Nft.Tables} {inputs outputs : List Nft.Rule} :
    (cleared ++ [Nft.Command.define odm [inputChain inputs, outputChain outputs]]).foldlM Nft.exec tables =
      some (loaded tables inputs outputs) := by
  have hdeclare : Nft.exec tables (.declare odm) = some (Function.update tables odm (some ((tables odm).getD []))) := rfl
  have hdelete : ∀ chains, Nft.exec (Function.update tables odm (some chains)) (.delete odm) =
      some (Function.update tables odm none) := by
    intro chains
    dsimp only [Nft.exec]
    rw [Function.update_self, if_pos Option.isSome_some, Function.update_idem]
  have hdefine : Nft.exec (Function.update tables odm none) (.define odm [inputChain inputs, outputChain outputs]) =
      some (loaded tables inputs outputs) := by
    dsimp only [Nft.exec]
    rw [Function.update_self, Function.update_idem]
    rfl
  rw [cleared, List.cons_append, List.foldlM_cons, hdeclare]
  show List.foldlM Nft.exec _ _ = _
  rw [List.cons_append, List.foldlM_cons, hdelete]
  show List.foldlM Nft.exec _ _ = _
  rw [List.nil_append, List.foldlM_cons, hdefine]
  rfl

theorem read_lines {commands : List Nft.Command} {chains : List Nft.Chain} {chain : Nft.Chain} (hempty : chain.rules = [])
    (direction : Direction) (rules : List FirewallRule) :
    ((statements direction rules).flatMap (· ++ [.stop])).foldlM Nft.readToken ⟨commands, .chain odm chains chain, []⟩ =
      ((statements direction rules).mapM Nft.readRule).map fun read =>
        ⟨commands, .chain odm chains { chain with rules := read }, []⟩ := by
  rw [Nft.read_rules statements_commented, hempty]
  rfl

theorem read_ruleset (rules : List FirewallRule) :
    Nft.read (openedTokens ++ (statements .in rules).flatMap (· ++ [.stop]) ++ betweenTokens ++
        (statements .out rules).flatMap (· ++ [.stop]) ++ closedTokens) =
      ((statements .in rules).mapM Nft.readRule).bind fun inputs =>
        ((statements .out rules).mapM Nft.readRule).map fun outputs =>
          cleared ++ [.define odm [inputChain inputs, outputChain outputs]] := by
  have hinputs : ((statements .in rules).flatMap (· ++ [.stop])).foldlM Nft.readToken
      ⟨cleared, .chain odm [] (inputChain []), []⟩ =
      ((statements .in rules).mapM Nft.readRule).map fun inputs => ⟨cleared, .chain odm [] (inputChain inputs), []⟩ :=
    read_lines rfl .in rules
  have houtputs : ∀ inputs, ((statements .out rules).flatMap (· ++ [.stop])).foldlM Nft.readToken
      ⟨cleared, .chain odm [inputChain inputs] (outputChain []), []⟩ =
      ((statements .out rules).mapM Nft.readRule).map fun outputs =>
        ⟨cleared, .chain odm [inputChain inputs] (outputChain outputs), []⟩ :=
    fun inputs => read_lines rfl .out rules
  unfold Nft.read
  rw [List.foldlM_append, List.foldlM_append, List.foldlM_append, List.foldlM_append, read_opened]
  simp only [Option.bind_eq_bind, Option.bind_some, hinputs]
  cases (statements .in rules).mapM Nft.readRule with
  | none => simp only [Option.map_none, Option.bind_none]
  | some inputs =>
      rw [Option.map_some, Option.bind_some, Option.bind_some, read_between, Option.bind_some, houtputs]
      cases (statements .out rules).mapM Nft.readRule with
      | none => simp only [Option.map_none, Option.bind_none]
      | some outputs =>
          rw [Option.map_some, Option.bind_some, Option.map_some, read_closed]
          rfl

theorem load_ruleset {rules : List FirewallRule} (h : ∀ rule ∈ rules, ∃ source, source? rule.source = some source)
    (tables : Nft.Tables) :
    Nft.load tables (ruleset rules) =
      ((statements .in rules).mapM Nft.readRule).bind fun inputs =>
        ((statements .out rules).mapM Nft.readRule).map fun outputs => loaded tables inputs outputs := by
  have htext := (((reads_opened.append (@reads_lines .in rules h)).append reads_between).append
    (@reads_lines .out rules h)).append reads_closed
  unfold Nft.load
  rw [ruleset, Nft.lex_eq htext]
  simp only [Option.bind_eq_bind, Option.bind_some, read_ruleset]
  cases (statements .in rules).mapM Nft.readRule with
  | none => rfl
  | some inputs =>
      cases (statements .out rules).mapM Nft.readRule with
      | none => rfl
      | some outputs =>
          simp only [Option.map_some, Option.bind_some]
          exact exec_ruleset

section
variable {rule : FirewallRule}

/-- What the protocol and the port of an entry come to, where they can be read. -/
def protocolMatches (rule : FirewallRule) : Option (List Nft.Match) :=
  match rule.protocol with
  | .any => some []
  | .icmp => some [.l4proto 1]
  | .tcp => rule.port.map fun port => [.dport 6 port]
  | .udp => rule.port.map fun port => [.dport 17 port]

theorem readRule_verdict : Nft.readRule (verdictTokens rule) = some ⟨[], rule.action.verdict, some rule.name⟩ := by
  unfold verdictTokens
  cases rule.action with
  | allow => rfl
  | deny => rfl

theorem readRule_protocol : Nft.readRule (protocolTokens rule ++ verdictTokens rule) =
    (protocolMatches rule).map fun conditions => ⟨conditions, rule.action.verdict, some rule.name⟩ := by
  have hread : ∀ first second third condition, Nft.readMatch first second third = some condition →
      Nft.readRule ([.word first, .word second, .word third] ++ verdictTokens rule) =
        some ⟨[condition], rule.action.verdict, some rule.name⟩ := by
    intro first second third condition hcondition
    show (do
      let condition ← Nft.readMatch first second third
      let rule ← Nft.readRule (verdictTokens rule)
      return ({ rule with conditions := condition :: rule.conditions } : Nft.Rule)) = _
    rw [hcondition, readRule_verdict]
    rfl
  have hunread : ∀ first, Nft.readMatch first (verdict rule.action) "comment" = none →
      Nft.readRule ([.word first] ++ verdictTokens rule) = none := by
    intro first hfirst
    show (do
      let condition ← Nft.readMatch first (verdict rule.action) "comment"
      let rule ← Nft.readRule [.quoted rule.name]
      return ({ rule with conditions := condition :: rule.conditions } : Nft.Rule)) = _
    rw [hfirst]
    rfl
  have hport : ∀ name number, (∀ text, Nft.readMatch name "dport" text = (Nft.bounded? 65535 text).map (.dport number)) →
      Nft.readMatch name (verdict rule.action) "comment" = none →
      Nft.readRule (.word name :: (rule.port.toList.flatMap fun port => [.word "dport", .word (toString port)]) ++
        verdictTokens rule) =
        (rule.port.map fun port => [.dport number port]).map fun conditions =>
          ⟨conditions, rule.action.verdict, some rule.name⟩ := by
    intro name number hdport hbare
    cases hport : rule.port with
    | none => exact hunread name hbare
    | some port =>
        have hcondition : Nft.readMatch name "dport" (toString port) = some (.dport number port) := by
          rw [hdport, Nft.bounded_toString (rule.ported port (by rw [hport]; rfl)).2]
          rfl
        exact hread _ _ _ _ hcondition
  have hbare : ∀ action, Nft.readMatch "tcp" (verdict action) "comment" = none ∧
      Nft.readMatch "udp" (verdict action) "comment" = none := by
    intro action
    cases action with
    | allow => exact ⟨rfl, rfl⟩
    | deny => exact ⟨rfl, rfl⟩
  unfold protocolTokens protocolMatches
  cases rule.protocol with
  | any => exact readRule_verdict
  | icmp => exact hread _ _ _ _ rfl
  | tcp => exact hport "tcp" 6 (fun _ => rfl) (hbare rule.action).1
  | udp => exact hport "udp" 17 (fun _ => rfl) (hbare rule.action).2

/-- The sources that can be read after `ip saddr`. -/
def sourceMatches : Source → Option (List Nft.Match)
  | .anywhere => some []
  | .within network => if network.version = .v4 then some [.saddr network] else none

theorem version_of_network? {version : Address.Version} {address? : List Char → Option Nat} {text : String}
    {network : Address.Network} (h : Nft.network? version address? text = some network) : network.version = version := by
  unfold Nft.network? Address.network? at h
  split at h
  next address _ =>
    obtain ⟨number, _, rfl⟩ := Option.map_eq_some_iff.mp h
    rfl
  next address mask _ =>
    cases hnumber : address? address with
    | none =>
        rw [hnumber] at h
        exact nomatch h
    | some number =>
        rw [hnumber] at h
        obtain ⟨length, _, rfl⟩ := Option.map_eq_some_iff.mp h
        rfl
  next => exact nomatch h

variable {source : Source}

theorem source_cases {text : String} (h : source? text = some source) :
    (source = .anywhere ∧ ¬ (text ≠ "" ∧ text ≠ "any")) ∨
      ((text ≠ "" ∧ text ≠ "any") ∧ (Nft.network4? text).map (fun network => [Nft.Match.saddr network]) = sourceMatches source) := by
  unfold source? at h
  split at h
  next hany => exact .inl ⟨(Option.some.inj h).symm, fun hsaid => hany.elim hsaid.1 hsaid.2⟩
  next hsaid =>
    refine .inr ⟨not_or.mp hsaid, ?_⟩
    split at h
    next =>
      obtain ⟨network, hnetwork, rfl⟩ := Option.map_eq_some_iff.mp h
      cases hfour : Nft.network4? text with
      | some other =>
          rw [hfour] at hnetwork
          obtain rfl := Option.some.inj hnetwork
          exact (if_pos (version_of_network? hfour)).symm
      | none =>
          rw [hfour] at hnetwork
          have hsix : network.version = .v6 := version_of_network? hnetwork
          exact (if_neg (by rw [hsix]; decide)).symm
    next => exact nomatch h

theorem readRule_tokens (h : source? rule.source = some source) :
    Nft.readRule (tokens rule) = (sourceMatches source).bind fun sources => (protocolMatches rule).map fun conditions =>
      ⟨sources ++ conditions, rule.action.verdict, some rule.name⟩ := by
  unfold tokens sourceTokens
  rcases source_cases h with ⟨rfl, hany⟩ | ⟨hsaid, hsource⟩
  · rw [if_neg hany, List.nil_append, readRule_protocol]
    rfl
  · rw [if_pos hsaid, ← hsource, List.append_assoc]
    show (do
      let condition ← (Nft.network4? rule.source).map Nft.Match.saddr
      let rule ← Nft.readRule (protocolTokens rule ++ verdictTokens rule)
      return ({ rule with conditions := condition :: rule.conditions } : Nft.Rule)) = _
    rw [readRule_protocol]
    cases Nft.network4? rule.source with
    | none => rfl
    | some network =>
        cases protocolMatches rule with
        | none => rfl
        | some conditions => rfl

theorem source_inhabited (source : Source) : ∃ host, source.has host = true := by
  cases source with
  | anywhere => exact ⟨⟨.v4, 0⟩, rfl⟩
  | within network =>
      refine ⟨⟨network.version, network.number⟩, ?_⟩
      unfold Source.has Address.Network.contains
      simp

theorem sourceMatches_holds {sources : List Nft.Match} (h : sourceMatches source = some sources)
    (packet : Packet) : sources.all (Nft.Match.holds packet) = source.has packet.source := by
  cases source with
  | anywhere =>
      obtain rfl := Option.some.inj h
      rfl
  | within network =>
      unfold sourceMatches at h
      dsimp only at h
      split at h
      next =>
        obtain rfl := Option.some.inj h
        exact Bool.and_true _
      next => exact nomatch h

theorem protocolMatches_holds {conditions : List Nft.Match} (h : protocolMatches rule = some conditions)
    (hport : (transport rule.protocol).isSome ↔ rule.port.isSome) (packet : Packet) :
    conditions.all (Nft.Match.holds packet) = true ↔
      (∀ number ∈ rule.protocol.number, packet.protocol = number) ∧ ∀ port ∈ rule.port, packet.port = some port := by
  have hnone : (transport rule.protocol).isSome = false → rule.port = none := by
    intro htransport
    apply Option.isNone_iff_eq_none.mp
    rw [← Option.not_isSome, Bool.not_eq_true', Bool.eq_false_iff, Ne, ← hport, htransport]
    exact Bool.false_ne_true
  have hsome : ∀ number, (rule.port.map fun port => [Nft.Match.dport number port]) = some conditions →
      (conditions.all (Nft.Match.holds packet) = true ↔
        packet.protocol = number ∧ ∀ port ∈ rule.port, packet.port = some port) := by
    intro number hconditions
    obtain ⟨port, hport, rfl⟩ := Option.map_eq_some_iff.mp hconditions
    simp [hport, Nft.Match.holds]
  unfold protocolMatches at h
  cases hprotocol : rule.protocol with
  | tcp =>
      rw [hprotocol] at h
      simpa [Protocol.number] using hsome 6 h
  | udp =>
      rw [hprotocol] at h
      simpa [Protocol.number] using hsome 17 h
  | icmp =>
      rw [hprotocol] at h hnone
      obtain rfl := Option.some.inj h
      simp [Protocol.number, hnone rfl, Nft.Match.holds]
  | any =>
      rw [hprotocol] at h hnone
      obtain rfl := Option.some.inj h
      simp [Protocol.number, hnone rfl]

/-- A packet without a port that the protocol part of a rule lets through, where that part has no port. -/
theorem portless {conditions : List Nft.Match} (h : protocolMatches rule = some conditions)
    (htransport : transport rule.protocol = none) (host : Address.Host) :
    conditions.all (Nft.Match.holds ⟨host, 1, none⟩) = true := by
  unfold protocolMatches at h
  cases hprotocol : rule.protocol with
  | tcp => exact nomatch hprotocol ▸ htransport
  | udp => exact nomatch hprotocol ▸ htransport
  | icmp =>
      rw [hprotocol] at h
      obtain rfl := Option.some.inj h
      rfl
  | any =>
      rw [hprotocol] at h
      obtain rfl := Option.some.inj h
      rfl

theorem transport_of_matches {conditions : List Nft.Match} (h : protocolMatches rule = some conditions)
    (htransport : (transport rule.protocol).isSome) : rule.port.isSome := by
  unfold protocolMatches at h
  cases hprotocol : rule.protocol with
  | tcp =>
      rw [hprotocol] at h
      obtain ⟨port, hport, _⟩ := Option.map_eq_some_iff.mp h
      rw [hport]
      rfl
  | udp =>
      rw [hprotocol] at h
      obtain ⟨port, hport, _⟩ := Option.map_eq_some_iff.mp h
      rw [hport]
      rfl
  | icmp => exact nomatch hprotocol ▸ htransport
  | any => exact nomatch hprotocol ▸ htransport

/-- The line of an entry loads as a rule that does what the entry says exactly when the entry can be said. -/
theorem does_iff : (∃ source, source? rule.source = some source) ∧
    (∃ read, Nft.readRule (tokens rule) = some read ∧ DoesWhat rule read) ↔ Sayable rule := by
  constructor
  · rintro ⟨-, read, hread, -, -, source, hsource, hpackets⟩
    rw [readRule_tokens hsource] at hread
    obtain ⟨sources, hsources, hread⟩ := Option.bind_eq_some_iff.mp hread
    obtain ⟨conditions, hconditions, rfl⟩ := Option.map_eq_some_iff.mp hread
    refine ⟨?_, transport_of_matches hconditions, ?_⟩
    · cases source with
      | anywhere => exact .inl hsource
      | within network =>
          unfold sourceMatches at hsources
          dsimp only at hsources
          split at hsources
          next hversion => exact .inr ⟨network, hversion, hsource⟩
          next => exact nomatch hsources
    · intro hport
      by_contra htransport
      obtain ⟨port, hport⟩ := Option.isSome_iff_exists.mp hport
      obtain ⟨host, hhost⟩ := source_inhabited source
      -- the rule has no port, so it also matches what has none
      have hmatched : (sources ++ conditions).all (Nft.Match.holds ⟨host, 1, none⟩) = true := by
        rw [List.all_append, sourceMatches_holds hsources, hhost,
          portless hconditions (by simpa using htransport) host]
        rfl
      exact nomatch ((hpackets ⟨host, 1, none⟩).mp hmatched).2.2 port hport
  · rintro ⟨hsource, hport⟩
    obtain ⟨source, sources, hsource, hsources⟩ : ∃ source sources, source? rule.source = some source ∧
        sourceMatches source = some sources := by
      rcases hsource with hsource | ⟨network, hversion, hsource⟩
      · exact ⟨.anywhere, [], hsource, rfl⟩
      · exact ⟨.within network, _, hsource, if_pos hversion⟩
    obtain ⟨conditions, hconditions⟩ : ∃ conditions, protocolMatches rule = some conditions := by
      unfold protocolMatches
      cases hprotocol : rule.protocol with
      | tcp =>
          obtain ⟨port, hport⟩ := Option.isSome_iff_exists.mp (hport.mp (by rw [hprotocol]; rfl))
          exact ⟨_, by rw [hport]; rfl⟩
      | udp =>
          obtain ⟨port, hport⟩ := Option.isSome_iff_exists.mp (hport.mp (by rw [hprotocol]; rfl))
          exact ⟨_, by rw [hport]; rfl⟩
      | icmp => exact ⟨_, rfl⟩
      | any => exact ⟨_, rfl⟩
    refine ⟨⟨source, hsource⟩, ⟨sources ++ conditions, rule.action.verdict, some rule.name⟩, ?_, rfl, rfl, source, hsource,
      fun packet => ?_⟩
    · rw [readRule_tokens hsource, hsources, hconditions]
      rfl
    · unfold Nft.Rule.applies Concerns
      rw [List.all_append, sourceMatches_holds hsources, Bool.and_eq_true, protocolMatches_holds hconditions hport]
      tauto

end

variable {rules : List FirewallRule}

theorem read_each {direction : Direction} {read : List Nft.Rule} :
    (statements direction rules).mapM Nft.readRule = some read ↔
      List.Forall₂ (fun rule read => Nft.readRule (tokens rule) = some read)
        (rules.filter (·.direction = direction)) read := by
  rw [statements, List.mapM_eq_some_iff, List.forall₂_map_left_iff]

theorem sayable_of_faithful (h : Faithful rules) : ∀ rule ∈ rules, Sayable rule := by
  intro rule hrule
  have hwritten : applyFirewall rules = some (ruleset rules) := if_neg (List.ne_nil_of_mem hrule)
  obtain ⟨after, inputs, outputs, hload, -, htable, hinputs, houtputs⟩ := h _ hwritten fun _ => none
  have hdoes : ∀ rule ∈ rules, ∃ read, DoesWhat rule read := by
    intro rule hrule
    cases hdirection : rule.direction with
    | «in» => exact (List.exists_of_forall₂ hinputs rule (List.mem_filter.mpr ⟨hrule, decide_eq_true hdirection⟩)).imp fun _ => And.right
    | out => exact (List.exists_of_forall₂ houtputs rule (List.mem_filter.mpr ⟨hrule, decide_eq_true hdirection⟩)).imp fun _ => And.right
  have hsources : ∀ rule ∈ rules, ∃ source, source? rule.source = some source := by
    intro rule hrule
    obtain ⟨read, -, -, source, hsource, -⟩ := hdoes rule hrule
    exact ⟨source, hsource⟩
  rw [load_ruleset hsources] at hload
  obtain ⟨inputs', hinputs', hload⟩ := Option.bind_eq_some_iff.mp hload
  obtain ⟨outputs', houtputs', rfl⟩ := Option.map_eq_some_iff.mp hload
  rw [loaded, Function.update_self] at htable
  obtain ⟨rfl, rfl⟩ : inputs' = inputs ∧ outputs' = outputs := by
    simpa [inputChain, outputChain] using htable
  have heach : ∃ read, Nft.readRule (tokens rule) = some read ∧ DoesWhat rule read := by
    cases hdirection : rule.direction with
    | «in» =>
        exact (List.exists_of_forall₂ (List.Forall₂.mp (fun _ _ => And.intro) (read_each.mp hinputs') hinputs) rule
          (List.mem_filter.mpr ⟨hrule, decide_eq_true hdirection⟩)).imp fun _ => And.right
    | out =>
        exact (List.exists_of_forall₂ (List.Forall₂.mp (fun _ _ => And.intro) (read_each.mp houtputs') houtputs) rule
          (List.mem_filter.mpr ⟨hrule, decide_eq_true hdirection⟩)).imp fun _ => And.right
  exact does_iff.mp ⟨hsources rule hrule, heach⟩

theorem read_sayable (h : ∀ rule ∈ rules, Sayable rule) (direction : Direction) :
    ∃ read, (statements direction rules).mapM Nft.readRule = some read ∧
      List.Forall₂ DoesWhat (rules.filter (·.direction = direction)) read := by
  have heach : ∀ rule ∈ rules.filter (·.direction = direction),
      ∃ read, Nft.readRule (tokens rule) = some read ∧ DoesWhat rule read :=
    fun rule hrule => (does_iff.mpr (h rule (List.mem_of_mem_filter hrule))).2
  rw [statements]
  generalize rules.filter (·.direction = direction) = chosen at heach ⊢
  induction chosen with
  | nil => exact ⟨[], rfl, .nil⟩
  | cons rule chosen ih =>
      obtain ⟨⟨read, hread, hdoes⟩, hrest⟩ := List.forall_mem_cons.mp heach
      obtain ⟨others, hothers, hall⟩ := ih hrest
      refine ⟨read :: others, ?_, .cons hdoes hall⟩
      rw [List.map_cons, List.mapM_cons, hread, hothers]
      rfl

/-- What is written for a list of entries does what they say exactly when each of them can be said. -/
theorem loads_faithfully_iff (rules : List FirewallRule) : Faithful rules ↔ ∀ rule ∈ rules, Sayable rule := by
  refine ⟨sayable_of_faithful, fun h text htext tables => ?_⟩
  obtain ⟨inputs, hinputs, hin⟩ := read_sayable h .in
  obtain ⟨outputs, houtputs, hout⟩ := read_sayable h .out
  refine ⟨loaded tables inputs outputs, inputs, outputs, ?_, ?_, Function.update_self .., hin, hout⟩
  · have htext : ruleset rules = text := by
      unfold applyFirewall at htext
      split at htext
      next => exact nomatch htext
      next => exact Option.some.inj htext
    rw [← htext, load_ruleset fun rule hrule => (does_iff.mpr (h rule hrule)).1, hinputs, houtputs]
    rfl
  · exact fun key hkey => Function.update_of_ne hkey _ _

def blockSsh : FirewallRule where
  name := "block-ssh"
  action := .deny
  protocol := .any
  port := some 22

/-- A rule against one port, of any protocol, loads as one against everything. -/
theorem port_is_dropped : ¬ Faithful [blockSsh] ∧
    Nft.readRule (tokens blockSsh) = some ⟨[], .drop, some "block-ssh"⟩ := by
  refine ⟨fun h => ?_, rfl⟩
  have hport := (sayable_of_faithful h blockSsh List.mem_cons_self).2
  exact absurd (hport.mpr rfl) (by decide)

end OpenDirectory.FirewallRules
