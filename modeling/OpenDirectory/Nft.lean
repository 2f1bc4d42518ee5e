import OpenDirectory.Address
import OpenDirectory.Steps

/-! The language of `nft -f`, as far as a table of filter chains needs it: how a file is cut into words, what its
statements are, what they do to the tables that are loaded, and which packets a rule matches. -/

namespace Nft

/-- Quoted texts keep what stands between the marks. A line and a semicolon end a statement. -/
inductive Token where
  | word (text : String)
  | quoted (text : String)
  | opened
  | closed
  | stop
  deriving DecidableEq

inductive Place where
  | between
  | word (read : List Char)
  | quoted (read : List Char)
  | comment
  deriving DecidableEq

def marks : List Char := [' ', '\t', '\n', ';', '\x7b', '\x7d', '"', '#']

def plain (c : Char) : Bool := c ∉ marks

def opening (c : Char) : Place × List Token :=
  if c = '\n' ∨ c = ';' then (.between, [.stop])
  else if c = '\x7b' then (.between, [.opened])
  else if c = '\x7d' then (.between, [.closed])
  else if c = '"' then (.quoted [], [])
  else if c = '#' then (.comment, [])
  else if plain c then (.word [c], [])
  else (.between, [])

def lexChar (place : Place) (c : Char) : Place × List Token :=
  match place with
  | .between => opening c
  | .word read =>
      if plain c then (.word (read ++ [c]), []) else ((opening c).1, .word (String.ofList read) :: (opening c).2)
  | .quoted read => if c = '"' then (.between, [.quoted (String.ofList read)]) else (.quoted (read ++ [c]), [])
  | .comment => if c = '\n' then (.between, [.stop]) else (.comment, [])

def lex (text : String) : Option (List Token) :=
  match Steps.run lexChar .between text.toList with
  | (.between, tokens) | (.comment, tokens) => some tokens
  | (.word read, tokens) => some (tokens ++ [.word (String.ofList read)])
  | (.quoted _, _) => none

structure Packet where
  source : Address.Host
  protocol : Nat
  port : Option Nat

inductive Match where
  | saddr (network : Address.Network)
  | l4proto (protocol : Nat)
  | dport (protocol port : Nat)
  deriving DecidableEq

def Match.holds (packet : Packet) : Match → Bool
  | .saddr network => network.contains packet.source
  | .l4proto protocol => packet.protocol = protocol
  | .dport protocol port => packet.protocol = protocol && packet.port = some port

inductive Verdict where
  | accept
  | drop
  deriving DecidableEq

structure Rule where
  conditions : List Match
  verdict : Verdict
  comment : Option String := none
  deriving DecidableEq

def Rule.applies (rule : Rule) (packet : Packet) : Bool := rule.conditions.all (Match.holds packet)

/-- A chain, with the hook it is registered at. -/
structure Chain where
  name : String
  hook : Option (String × Nat) := none
  policy : Verdict := .accept
  rules : List Rule := []
  deriving DecidableEq

def number? (text : String) : Option Nat :=
  if text.toList ≠ [] ∧ text.toList.all Char.isDigit then some (Nat.ofDigitChars 10 text.toList 0) else none

def bounded? (most : Nat) (text : String) : Option Nat := (number? text).filter (· ≤ most)

/-- The length of a prefix, without leading zeros. -/
def prefix? (width : Nat) (chars : List Char) : Option Nat :=
  if chars.head? = some '0' ∧ chars ≠ ['0'] then none else bounded? width (String.ofList chars)

def network? (version : Address.Version) (address? : List Char → Option Nat) (text : String) :
    Option Address.Network :=
  Address.network? version address? (prefix? version.width) text

def network4? : String → Option Address.Network := network? .v4 Address.number4?

def network6? : String → Option Address.Network := network? .v6 Address.number6?

def protocol? : String → Option Nat
  | "icmp" => some 1
  | "tcp" => some 6
  | "udp" => some 17
  | _ => none

def readMatch : String → String → String → Option Match
  | "ip", "saddr", text => (network4? text).map .saddr
  | "ip6", "saddr", text => (network6? text).map .saddr
  | "meta", "l4proto", text => (protocol? text).map .l4proto
  | "tcp", "dport", text => (bounded? 65535 text).map (.dport 6)
  | "udp", "dport", text => (bounded? 65535 text).map (.dport 17)
  | _, _, _ => none

def readVerdict : String → Option Verdict
  | "accept" => some .accept
  | "drop" => some .drop
  | _ => none

def readRule : List Token → Option Rule
  | .word first :: .word second :: .word third :: rest => do
      let condition ← readMatch first second third
      let rule ← readRule rest
      return { rule with conditions := condition :: rule.conditions }
  | [.word verdict] => do return ⟨[], ← readVerdict verdict, none⟩
  | [.word verdict, .word "comment", .quoted comment] => do return ⟨[], ← readVerdict verdict, some comment⟩
  | _ => none

/-- A statement within a chain. -/
def readWithin (chain : Chain) (statement : List Token) : Option Chain :=
  match readRule statement with
  | some rule => some { chain with rules := chain.rules ++ [rule] }
  | none =>
      match statement with
      | [.word "type", .word "filter", .word "hook", .word hook, .word "priority", .word priority] =>
          (number? priority).map fun number => { chain with hook := some (hook, number) }
      | [.word "policy", .word verdict] => (readVerdict verdict).map fun policy => { chain with policy := policy }
      | _ => none

abbrev Key := String × String

inductive Command where
  | declare (key : Key)
  | delete (key : Key)
  | define (key : Key) (chains : List Chain)
  deriving DecidableEq

def families : List String := ["ip", "ip6", "inet", "arp", "bridge", "netdev"]

def readCommand : List Token → Option Command
  | [.word "table", .word family, .word name] => if family ∈ families then some (.declare (family, name)) else none
  | [.word "delete", .word "table", .word family, .word name] =>
      if family ∈ families then some (.delete (family, name)) else none
  | _ => none

inductive Level where
  | top
  | table (key : Key) (chains : List Chain)
  | chain (key : Key) (chains : List Chain) (chain : Chain)
  deriving DecidableEq

/-- What has been read: the commands, the block that is open, and the statement begun. -/
structure Reader where
  commands : List Command := []
  level : Level := .top
  pending : List Token := []
  deriving DecidableEq

def finish (reader : Reader) : Option Reader :=
  if reader.pending = [] then some reader
  else
    match reader.level with
    | .top => do return ⟨reader.commands ++ [← readCommand reader.pending], .top, []⟩
    | .table _ _ => none
    | .chain key chains chain => do
        return ⟨reader.commands, .chain key chains (← readWithin chain reader.pending), []⟩

def readToken (reader : Reader) (token : Token) : Option Reader :=
  match token, reader.level, reader.pending with
  | .word _, _, _ | .quoted _, _, _ => some { reader with pending := reader.pending ++ [token] }
  | .stop, _, _ => finish reader
  | .opened, .top, [.word "table", .word family, .word name] =>
      if family ∈ families then some ⟨reader.commands, .table (family, name) [], []⟩ else none
  | .opened, .table key chains, [.word "chain", .word name] =>
      some ⟨reader.commands, .chain key chains ⟨name, none, .accept, []⟩, []⟩
  | .closed, .chain key chains chain, [] => some ⟨reader.commands, .table key (chains ++ [chain]), []⟩
  | .closed, .table key chains, [] => some ⟨reader.commands ++ [.define key chains], .top, []⟩
  | _, _, _ => none

def read (tokens : List Token) : Option (List Command) := do
  let reader ← tokens.foldlM readToken {}
  let last ← finish reader
  if last.level = .top then some last.commands else none

abbrev Tables := Key → Option (List Chain)

/-- A chain that is there already takes the rules in addition. -/
def addChain (chains : List Chain) (chain : Chain) : List Chain :=
  if chain.name ∈ chains.map Chain.name then
    chains.map fun kept => if kept.name = chain.name then { kept with rules := kept.rules ++ chain.rules } else kept
  else chains ++ [chain]

def exec (tables : Tables) : Command → Option Tables
  | .declare key => some (Function.update tables key (some ((tables key).getD [])))
  | .delete key => if (tables key).isSome then some (Function.update tables key none) else none
  | .define key chains => some (Function.update tables key (some (chains.foldl addChain ((tables key).getD []))))

/-- A file is loaded as a whole or not at all. -/
def load (tables : Tables) (text : String) : Option Tables := do
  let tokens ← lex text
  let commands ← read tokens
  commands.foldlM exec tables

def Reads (text : String) (tokens : List Token) : Prop :=
  Steps.run lexChar .between text.toList = (.between, tokens)

instance {text : String} {tokens : List Token} : Decidable (Reads text tokens) := inferInstanceAs (Decidable (_ = _))

theorem lex_eq {text : String} {tokens : List Token} (h : Reads text tokens) : lex text = some tokens := by
  unfold Reads at h
  unfold lex
  rw [h]

theorem Reads.append {text more : String} {tokens others : List Token} (h : Reads text tokens)
    (hmore : Reads more others) : Reads (text ++ more) (tokens ++ others) := by
  unfold Reads at h hmore ⊢
  rw [String.toList_append, Steps.run_append, h, hmore]

theorem reads_empty : Reads "" [] := by decide

theorem run_word {word : List Char} (read : List Char) (h : ∀ c ∈ word, plain c = true) :
    Steps.run lexChar (.word read) word = (.word (read ++ word), []) := by
  induction word generalizing read with
  | nil => rw [Steps.run_nil, List.append_nil]
  | cons c word ih =>
      have hstep : lexChar (.word read) c = (.word (read ++ [c]), []) := by
        dsimp only [lexChar]
        rw [if_pos (h c List.mem_cons_self)]
      rw [Steps.run_cons, hstep, ih _ (fun d hd => h d (List.mem_cons_of_mem _ hd)), List.append_assoc]
      rfl

theorem plain_of {p : Char → Bool} (hmarks : marks.all (fun c => !p c) = true) {c : Char} (hc : p c = true) :
    plain c = true := by
  apply decide_eq_true
  intro hmem
  have hnone := List.all_eq_true.mp hmarks c hmem
  rw [hc] at hnone
  exact Bool.false_ne_true hnone

theorem opening_plain {c : Char} (h : plain c = true) : opening c = (.word [c], []) := by
  have hc : c ∉ marks := of_decide_eq_true h
  simp only [marks, List.mem_cons, List.not_mem_nil, or_false, not_or] at hc
  obtain ⟨-, -, hline, hsemicolon, hopened, hclosed, hmark, hcomment⟩ := hc
  unfold opening
  rw [if_neg (not_or.mpr ⟨hline, hsemicolon⟩), if_neg hopened, if_neg hclosed, if_neg hmark, if_neg hcomment, if_pos h]

theorem reads_word {word : String} (hword : word ≠ "") (h : ∀ c ∈ word.toList, plain c = true) :
    Reads (word ++ " ") [.word word] := by
  unfold Reads
  cases hchars : word.toList with
  | nil => exact absurd (String.toList_eq_nil_iff.mp hchars) hword
  | cons c rest =>
      rw [hchars] at h
      have hstep : lexChar .between c = (.word [c], []) := opening_plain (h c List.mem_cons_self)
      have hrest := run_word [c] (fun d hd => h d (List.mem_cons_of_mem c hd))
      have hend : Steps.run lexChar (.word (c :: rest)) " ".toList = (.between, [.word (String.ofList (c :: rest))]) := rfl
      rw [String.toList_append, hchars, List.cons_append, Steps.run_cons, hstep, Steps.run_append, hrest]
      rw [List.singleton_append, hend, ← hchars, String.ofList_toList]
      rfl

theorem run_quoted {text : List Char} (read : List Char) (h : '"' ∉ text) :
    Steps.run lexChar (.quoted read) text = (.quoted (read ++ text), []) := by
  induction text generalizing read with
  | nil => rw [Steps.run_nil, List.append_nil]
  | cons c text ih =>
      obtain ⟨hc, hrest⟩ := not_or.mp (mt List.mem_cons.mpr h)
      have hstep : lexChar (.quoted read) c = (.quoted (read ++ [c]), []) := by
        dsimp only [lexChar]
        rw [if_neg (Ne.symm hc)]
      rw [Steps.run_cons, hstep, ih _ hrest, List.append_assoc]
      rfl

theorem reads_quoted {text : String} (h : '"' ∉ text.toList) : Reads ("\"" ++ text ++ "\"") [.quoted text] := by
  have hfirst : Steps.run lexChar .between "\"".toList = (.quoted [], []) := by decide
  have hlast : Steps.run lexChar (.quoted text.toList) "\"".toList = (.between, [.quoted (String.ofList text.toList)]) := rfl
  unfold Reads
  rw [String.toList_append, String.toList_append, Steps.run_append, Steps.run_append, hfirst]
  simp only [run_quoted [] h, List.nil_append]
  rw [hlast, String.ofList_toList]

theorem bounded_toString {most number : Nat} (h : number ≤ most) : bounded? most (toString number) = some number := by
  have hread : number? (toString number) = some number := by
    unfold number?
    rw [Nat.toString_eq_ofList_toDigits, String.toList_ofList, if_pos, Nat.ofDigitChars_ten_toDigits]
    refine ⟨Nat.toDigits_ne_nil, List.all_eq_true.mpr fun c hc => ?_⟩
    exact Nat.isDigit_of_mem_toDigits (by decide) (by decide) hc
  unfold bounded?
  rw [hread, Option.filter_some, if_pos (decide_eq_true h)]

def Token.kept : Token → Bool
  | .word _ | .quoted _ => true
  | _ => false

variable {commands : List Command} {statement : List Token}

theorem read_kept {level : Level}
    (h : ∀ token ∈ statement, token.kept = true) (pending : List Token) :
    statement.foldlM readToken ⟨commands, level, pending⟩ = some ⟨commands, level, pending ++ statement⟩ := by
  induction statement generalizing pending with
  | nil => rw [List.append_nil]; rfl
  | cons token statement ih =>
      have hstep : readToken ⟨commands, level, pending⟩ token = some ⟨commands, level, pending ++ [token]⟩ := by
        cases token with
        | word text => rfl
        | quoted text => rfl
        | opened => exact absurd (h _ List.mem_cons_self) Bool.false_ne_true
        | closed => exact absurd (h _ List.mem_cons_self) Bool.false_ne_true
        | stop => exact absurd (h _ List.mem_cons_self) Bool.false_ne_true
      rw [List.foldlM_cons, hstep]
      calc statement.foldlM readToken ⟨commands, level, pending ++ [token]⟩
          = some ⟨commands, level, pending ++ [token] ++ statement⟩ :=
            ih (fun other hother => h other (List.mem_cons_of_mem _ hother)) _
        _ = some ⟨commands, level, pending ++ token :: statement⟩ := by rw [List.append_assoc]; rfl

theorem read_statement {level : Level}
    (h : ∀ token ∈ statement, token.kept = true) :
    (statement ++ [Token.stop]).foldlM readToken ⟨commands, level, []⟩ = finish ⟨commands, level, statement⟩ := by
  rw [List.foldlM_append, read_kept h]
  show (finish ⟨commands, level, [] ++ statement⟩ >>= fun reader => some reader) = _
  rw [List.nil_append]
  exact bind_pure _

theorem readWithin_commented {chain : Chain} {comment : String}
    (h : statement.getLast? = some (.quoted comment)) :
    readWithin chain statement =
      (readRule statement).map fun rule => { chain with rules := chain.rules ++ [rule] } := by
  unfold readWithin
  cases readRule statement with
  | some rule => rfl
  | none =>
      dsimp only
      split
      · exact absurd h (by simp)
      · exact absurd h (by simp)
      · rfl

theorem read_rules {key : Key} {chains : List Chain} {chain : Chain}
    {statements : List (List Token)}
    (h : ∀ statement ∈ statements, (∀ token ∈ statement, token.kept = true) ∧
      ∃ comment, statement.getLast? = some (.quoted comment)) :
    (statements.flatMap (· ++ [.stop])).foldlM readToken ⟨commands, .chain key chains chain, []⟩ =
      (statements.mapM readRule).map fun rules =>
        ⟨commands, .chain key chains { chain with rules := chain.rules ++ rules }, []⟩ := by
  induction statements generalizing chain with
  | nil => simp
  | cons statement statements ih =>
      obtain ⟨⟨hkept, comment, hcomment⟩, hrest⟩ := List.forall_mem_cons.mp h
      rw [List.flatMap_cons, List.foldlM_append, read_statement hkept]
      have hfinish : finish ⟨commands, .chain key chains chain, statement⟩ =
          (readRule statement).map fun rule =>
            ⟨commands, .chain key chains { chain with rules := chain.rules ++ [rule] }, []⟩ := by
        have hne : statement ≠ [] := by
          rintro rfl
          exact nomatch hcomment
        unfold finish
        rw [if_neg hne]
        dsimp only
        rw [readWithin_commented hcomment]
        cases readRule statement with
        | none => rfl
        | some rule => rfl
      rw [hfinish, List.mapM_cons]
      cases readRule statement with
      | none => rfl
      | some rule =>
          show List.foldlM readToken _ _ = _
          rw [ih hrest]
          cases statements.mapM readRule with
          | none => rfl
          | some rules =>
              show some (Reader.mk _ (.chain key chains { chain with rules := chain.rules ++ [rule] ++ rules }) []) = _
              rw [List.append_assoc]
              rfl

end Nft
