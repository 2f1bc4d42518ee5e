import OpenDirectory.Steps
import OpenDirectory.Text

/-! The policy language of FreeRADIUS, as far as rules of access need it: how a text is cut into words, how
conditions and statements are read from them, and what a policy does to a request. -/

namespace Unlang

/-- A name after a percent sign stands for the value the server has under it. -/
inductive Piece where
  | letter (c : Char)
  | expansion (name : String)
  deriving DecidableEq

/-- Where a text within quotes has got to. -/
inductive Within where
  | letters
  | escape
  | octal (digits : List Char)
  | percent
  | name (read : List Char)

def isOctal (c : Char) : Bool := '0' ≤ c && c ≤ '7'

/-- The character a backslash and a letter stand for. -/
def unescaped (c : Char) : Char :=
  match c with
  | 'n' => '\n'
  | 'r' => '\r'
  | 't' => '\t'
  | c => c

/-- None of the pieces where a number has other digits. -/
def readPiece (within : Within) (c : Char) : Within × List (Option Piece) :=
  match within with
  | .letters => if c = '\\' then (.escape, []) else if c = '%' then (.percent, []) else (.letters, [some (.letter c)])
  | .escape => if isOctal c then (.octal [c], []) else (.letters, [some (.letter (unescaped c))])
  | .octal digits =>
      if !isOctal c then (.letters, [none])
      else if digits.length < 2 then (.octal (digits ++ [c]), [])
      else (.letters, [some (.letter (Char.ofNat (Nat.ofDigitChars 8 (digits ++ [c]) 0)))])
  | .percent =>
      if c = '\x7b' then (.name [], [])
      else if c = '%' then (.letters, [some (.letter c)])
      else (.letters, [some (.expansion (String.ofList [c]))])
  | .name read => if c = '\x7d' then (.letters, [some (.expansion (String.ofList read))]) else (.name (read ++ [c]), [])

def pieces? (text : List Char) : Option (List Piece) :=
  match Steps.run readPiece .letters text with
  | (.letters, pieces) => pieces.mapM id
  | _ => none

/-- The value of a text, with what each name stands for. -/
def expand (request : String → Option String) (pieces : List Piece) : String :=
  String.ofList (pieces.flatMap fun piece =>
    match piece with
    | .letter c => [c]
    | .expansion name => ((request name).getD "").toList)

/-- A fixed text, at the start or the end of the other or anywhere in it. -/
structure Pattern where
  start : Bool
  letters : List Char
  stop : Bool
  deriving DecidableEq

namespace Pattern

def special : List Char := ['.', '*', '+', '?', '[', ']', '(', ')', '\x7b', '\x7d', '|', '^', '$']

def letters? : List Char → Option (List Char × Bool)
  | [] => some ([], false)
  | ['$'] => some ([], true)
  | ['\\'] => none
  | '\\' :: c :: rest => if c.isAlphanum then none else (letters? rest).map fun (letters, stop) => (c :: letters, stop)
  | c :: rest => if c ∈ special then none else (letters? rest).map fun (letters, stop) => (c :: letters, stop)

def read : List Char → Option Pattern
  | '^' :: rest => (letters? rest).map fun (letters, stop) => ⟨true, letters, stop⟩
  | rest => (letters? rest).map fun (letters, stop) => ⟨false, letters, stop⟩

def found (pattern : Pattern) (value : String) : Bool :=
  match pattern.start, pattern.stop with
  | true, true => value.toList = pattern.letters
  | true, false => pattern.letters.isPrefixOf value.toList
  | false, true => pattern.letters.isSuffixOf value.toList
  | false, false => pattern.letters <:+: value.toList

end Pattern

/-- What a comparison compares: a word, which names an attribute where it starts with an ampersand, or a text
within quotes. -/
inductive Operand where
  | word (text : String)
  | quoted (pieces : List Piece)
  deriving DecidableEq

inductive Token where
  | operand (operand : Operand)
  | pattern (pattern : Pattern)
  | opened
  | closed
  | left
  | right
  | not
  | and
  | or
  | equal
  | unequal
  | search
  | assign
  deriving DecidableEq

inductive Place where
  | between
  | word (read : List Char)
  | operator (first : Char)
  | quoted (read : List Char)
  | quotedEscape (read : List Char)
  | pattern (read : List Char)
  | patternEscape (read : List Char)
  | comment
  | broken
  deriving DecidableEq

def blank (c : Char) : Bool := c ∈ [' ', '\t', '\r', '\n']

def plain (c : Char) : Bool := c.isAlphanum || c ∈ ['-', '_', '.', ':']

def opening (c : Char) : Place × List Token :=
  if plain c && c ≠ ':' then (.word [c], [])
  else if blank c then (.between, [])
  else if c = '\x7b' then (.between, [.opened])
  else if c = '\x7d' then (.between, [.closed])
  else if c = '(' then (.between, [.left])
  else if c = ')' then (.between, [.right])
  else if c = '"' then (.quoted [], [])
  else if c = '/' then (.pattern [], [])
  else if c = '#' then (.comment, [])
  else if c ∈ ['&', '|', '=', '!', ':'] then (.operator c, [])
  else (.broken, [])

def word (read : List Char) : Token := .operand (.word (String.ofList read))

/-- After the first character of an operator. -/
def operator (first c : Char) : Place × List Token :=
  match first, c with
  | '&', '&' => (.between, [.and])
  | '|', '|' => (.between, [.or])
  | '=', '=' => (.between, [.equal])
  | '=', '~' => (.between, [.search])
  | '!', '=' => (.between, [.unequal])
  | ':', '=' => (.between, [.assign])
  | '&', c => if plain c then (.word ['&', c], []) else (.broken, [])
  | '!', c => ((opening c).1, .not :: (opening c).2)
  | _, _ => (.broken, [])

/-- No text and no pattern goes on after its line. -/
def lexChar (place : Place) (c : Char) : Place × List Token :=
  match place with
  | .between => opening c
  | .word read => if plain c then (.word (read ++ [c]), []) else ((opening c).1, word read :: (opening c).2)
  | .operator first => operator first c
  | .quoted read =>
      if c = '"' then
        match pieces? read with
        | some pieces => (.between, [.operand (.quoted pieces)])
        | none => (.broken, [])
      else if c = '\n' then (.broken, [])
      else if c = '\\' then (.quotedEscape read, [])
      else (.quoted (read ++ [c]), [])
  | .quotedEscape read => if c = '\n' then (.broken, []) else (.quoted (read ++ ['\\', c]), [])
  | .pattern read =>
      if c = '/' then
        match Pattern.read read with
        | some pattern => (.between, [.pattern pattern])
        | none => (.broken, [])
      else if c = '\n' then (.broken, [])
      else if c = '\\' then (.patternEscape read, [])
      else (.pattern (read ++ [c]), [])
  | .patternEscape read => if c = '\n' then (.broken, []) else (.pattern (read ++ ['\\', c]), [])
  | .comment => if c = '\n' then (.between, []) else (.comment, [])
  | .broken => (.broken, [])

def lex (text : String) : Option (List Token) :=
  match Steps.run lexChar .between text.toList with
  | (.between, tokens) | (.comment, tokens) => some tokens
  | (.word read, tokens) => some (tokens ++ [word read])
  | _ => none

mutual

inductive Term where
  | compare (left : Operand) (equal : Bool) (right : Operand)
  | search (left : Operand) (pattern : Pattern)
  | group (negated : Bool) (condition : Cond)

/-- Terms from the left to the right: what one decides is not asked of those after it. -/
inductive Cond where
  | last (term : Term)
  | and (term : Term) (rest : Cond)
  | or (term : Term) (rest : Cond)

end

inductive Target where
  | control
  | reply

/-- A statement and those after it. -/
inductive Block where
  | done
  | reject (next : Block)
  | update (target : Target) (sets : List (String × String)) (next : Block)
  | when (condition : Cond) (body next : Block)

def readComparison : List Token → Option (Term × List Token)
  | .operand left :: .equal :: .operand right :: rest => some (.compare left true right, rest)
  | .operand left :: .unequal :: .operand right :: rest => some (.compare left false right, rest)
  | .operand left :: .search :: .pattern pattern :: rest => some (.search left pattern, rest)
  | _ => none

/-- The rest of a group, after its condition. -/
def readGroup (negated : Bool) : Cond × List Token → Option (Term × List Token)
  | (condition, .right :: rest) => some (.group negated condition, rest)
  | _ => none

mutual

def readTerm : Nat → List Token → Option (Term × List Token)
  | 0, _ => none
  | fuel + 1, .left :: rest => (readCond fuel rest).bind (readGroup false)
  | fuel + 1, .not :: .left :: rest => (readCond fuel rest).bind (readGroup true)
  | _ + 1, tokens => readComparison tokens

def readCond : Nat → List Token → Option (Cond × List Token)
  | 0, _ => none
  | fuel + 1, tokens =>
      match readTerm fuel tokens with
      | some (term, .and :: rest) => (readCond fuel rest).map fun (condition, rest) => (.and term condition, rest)
      | some (term, .or :: rest) => (readCond fuel rest).map fun (condition, rest) => (.or term condition, rest)
      | some (term, rest) => some (.last term, rest)
      | none => none

end

def target? : String → Option Target
  | "control" => some .control
  | "reply" => some .reply
  | _ => none

/-- The name after an ampersand. -/
def reference? (text : String) : Option String :=
  match text.toList with
  | '&' :: name => some (String.ofList name)
  | _ => none

/-- Up to the brace that closes an update. -/
def readSets : List Token → Option (List (String × String) × List Token)
  | .closed :: rest => some ([], rest)
  | .operand (.word text) :: .assign :: .operand (.word value) :: rest =>
      match reference? text, readSets rest with
      | some name, some (sets, rest) => some ((name, value) :: sets, rest)
      | _, _ => none
  | _ => none

/-- Up to the brace that closes the block, which is left. -/
def readBlock : Nat → List Token → Option (Block × List Token)
  | 0, _ => none
  | _ + 1, .closed :: rest => some (.done, .closed :: rest)
  | fuel + 1, .operand (.word "reject") :: rest => (readBlock fuel rest).map fun (next, rest) => (.reject next, rest)
  | fuel + 1, .operand (.word "update") :: .operand (.word list) :: .opened :: rest => do
      let target ← target? list
      let (sets, rest) ← readSets rest
      let (next, rest) ← readBlock fuel rest
      return (.update target sets next, rest)
  | fuel + 1, .operand (.word "if") :: .left :: rest =>
      match readCond fuel rest with
      | some (condition, .right :: .opened :: rest) =>
          match readBlock fuel rest with
          | some (body, .closed :: rest) =>
              (readBlock fuel rest).map fun (next, rest) => (.when condition body next, rest)
          | _ => none
      | _ => none
  | _, _ => none

/-- A file with one policy. -/
def readPolicy (tokens : List Token) : Option (String × Block) :=
  match tokens with
  | .operand (.word name) :: .opened :: rest =>
      match readBlock (2 * rest.length + 1) rest with
      | some (block, [.closed]) => some (name, block)
      | _ => none
  | _ => none

def read (text : String) : Option (String × Block) := (lex text).bind readPolicy

structure State where
  control : String → Option String
  reply : String → Option String

/-- The value of an attribute: of the control list, where it says so, or of the request. -/
def State.value (state : State) (request : String → Option String) (name : String) : Option String :=
  if Text.startsWith name "control:" then state.control (Text.removePrefix name "control:") else request name

def Operand.value (request : String → Option String) (state : State) : Operand → Option String
  | .word text =>
      match reference? text with
      | some name => state.value request name
      | none => some text
  | .quoted pieces => some (expand request pieces)

section
variable (request : String → Option String)

mutual

/-- Nothing holds of an attribute that is not there. -/
def Term.holds (state : State) : Term → Bool
  | .compare left equal right =>
      match left.value request state, right.value request state with
      | some first, some second => if equal then first = second else first ≠ second
      | _, _ => false
  | .search left pattern => (left.value request state).any pattern.found
  | .group negated condition => if negated then !condition.holds state else condition.holds state

def Cond.holds (state : State) : Cond → Bool
  | .last term => term.holds state
  | .and term rest => term.holds state && rest.holds state
  | .or term rest => term.holds state || rest.holds state

end

theorem Term.holds_quoted (state : State) (first second : List Piece) :
    (Term.compare (.quoted first) true (.quoted second)).holds request state =
      decide (expand request first = expand request second) := by
  rw [Term.holds]
  rfl

def State.update (state : State) (target : Target) (sets : List (String × String)) : State :=
  let updated (list : String → Option String) : String → Option String :=
    sets.foldl (fun list (name, value) => Function.update list name (some value)) list
  match target with
  | .control => { state with control := updated state.control }
  | .reply => { state with reply := updated state.reply }

/-- What is left when the policy ends, none where it ends with a rejection. -/
def Block.run : Block → State → Option State
  | .done, state => some state
  | .reject _, _ => none
  | .update target sets next, state => next.run (state.update target sets)
  | .when condition body next, state =>
      if condition.holds request state then (body.run state).bind next.run else next.run state

end

mutual

def Term.tokens : Term → List Token
  | .compare left equal right => [.operand left, if equal then .equal else .unequal, .operand right]
  | .search left pattern => [.operand left, .search, .pattern pattern]
  | .group negated condition => (if negated then [.not] else []) ++ .left :: (condition.tokens ++ [.right])

def Cond.tokens : Cond → List Token
  | .last term => term.tokens
  | .and term rest => term.tokens ++ .and :: rest.tokens
  | .or term rest => term.tokens ++ .or :: rest.tokens

end

def Target.name : Target → String
  | .control => "control"
  | .reply => "reply"

def setTokens (sets : List (String × String)) : List Token :=
  sets.flatMap fun (name, value) => [.operand (.word ("&" ++ name)), .assign, .operand (.word value)]

def Block.tokens : Block → List Token
  | .done => []
  | .reject next => .operand (.word "reject") :: next.tokens
  | .update target sets next =>
      .operand (.word "update") :: .operand (.word target.name) :: .opened :: (setTokens sets ++ .closed :: next.tokens)
  | .when condition body next =>
      .operand (.word "if") :: .left ::
        (condition.tokens ++ .right :: .opened :: (body.tokens ++ .closed :: next.tokens))

/-- Nothing after a condition goes on with it. -/
def Ended (rest : List Token) : Prop := ∀ token ∈ rest.head?, token ≠ .and ∧ token ≠ .or

theorem readCond_of_term {fuel : Nat} {tokens rest : List Token} {term : Term}
    (h : readTerm fuel tokens = some (term, rest)) (hended : Ended rest) :
    readCond (fuel + 1) tokens = some (.last term, rest) := by
  rw [readCond, h]
  cases rest with
  | nil => rfl
  | cons token rest =>
      obtain ⟨hand, hor⟩ := hended token rfl
      cases token <;> first | rfl | contradiction

theorem read_tokens (fuel : Nat) :
    (∀ (term : Term) (rest : List Token), 2 * term.tokens.length ≤ fuel →
        readTerm fuel (term.tokens ++ rest) = some (term, rest)) ∧
      ∀ (condition : Cond) (rest : List Token), Ended rest → 2 * condition.tokens.length < fuel →
        readCond fuel (condition.tokens ++ rest) = some (condition, rest) := by
  induction fuel with
  | zero =>
      refine ⟨fun term rest hfuel => ?_, fun condition rest hended hfuel => absurd hfuel (Nat.not_lt_zero _)⟩
      cases term <;> simp [Term.tokens] at hfuel
  | succ fuel ih =>
      obtain ⟨ihterm, ihcond⟩ := ih
      constructor
      · intro term rest hfuel
        cases term with
        | compare left equal right => cases equal <;> rfl
        | search left pattern => rfl
        | group negated condition =>
            have hinner := ihcond condition (.right :: rest) (by rintro _ ⟨⟩; decide)
              (by simp only [Term.tokens, List.length_append, List.length_cons] at hfuel; omega)
            cases negated with
            | false =>
                simp only [Term.tokens, Bool.false_eq_true, if_false, List.nil_append, List.cons_append,
                  List.append_assoc, readTerm, hinner]
                rfl
            | true =>
                simp only [Term.tokens, if_true, List.nil_append, List.cons_append, List.append_assoc, readTerm, hinner]
                rfl
      · intro condition rest hended hfuel
        cases condition with
        | last term => exact readCond_of_term (ihterm term rest (by simp only [Cond.tokens] at hfuel; omega)) hended
        | and term condition =>
            simp only [Cond.tokens, List.length_append, List.length_cons] at hfuel
            have hterm := ihterm term (.and :: (condition.tokens ++ rest)) (by omega)
            have hrest := ihcond condition rest hended (by omega)
            rw [Cond.tokens, List.append_assoc, List.cons_append, readCond, hterm]
            simp only [hrest, Option.map_some]
        | or term condition =>
            simp only [Cond.tokens, List.length_append, List.length_cons] at hfuel
            have hterm := ihterm term (.or :: (condition.tokens ++ rest)) (by omega)
            have hrest := ihcond condition rest hended (by omega)
            rw [Cond.tokens, List.append_assoc, List.cons_append, readCond, hterm]
            simp only [hrest, Option.map_some]

theorem readSets_tokens (sets : List (String × String)) (rest : List Token) :
    readSets (setTokens sets ++ .closed :: rest) = some (sets, rest) := by
  induction sets with
  | nil => rfl
  | cons set sets ih =>
      have hname : reference? ("&" ++ set.1) = some set.1 := by
        unfold reference?
        rw [String.toList_append]
        show some (String.ofList set.1.toList) = some set.1
        rw [String.ofList_toList]
      have hcons : setTokens (set :: sets) ++ .closed :: rest = .operand (.word ("&" ++ set.1)) :: .assign ::
          .operand (.word set.2) :: (setTokens sets ++ .closed :: rest) := rfl
      rw [hcons, readSets, hname, ih]

theorem readBlock_tokens {block : Block} {fuel : Nat} (rest : List Token) (h : 2 * block.tokens.length < fuel) :
    readBlock fuel (block.tokens ++ .closed :: rest) = some (block, .closed :: rest) := by
  induction block generalizing fuel rest with
  | done =>
      cases fuel with
      | zero => exact absurd h (Nat.not_lt_zero _)
      | succ fuel => rfl
  | reject next ih =>
      cases fuel with
      | zero => exact absurd h (Nat.not_lt_zero _)
      | succ fuel =>
          simp only [Block.tokens, List.length_cons] at h
          have hnext := ih rest (show 2 * next.tokens.length < fuel by omega)
          rw [Block.tokens, List.cons_append, readBlock, hnext]
          rfl
  | update target sets next ih =>
      cases fuel with
      | zero => exact absurd h (Nat.not_lt_zero _)
      | succ fuel =>
          simp only [Block.tokens, List.length_cons, List.length_append] at h
          have hnext := ih rest (show 2 * next.tokens.length < fuel by omega)
          have htarget : target? target.name = some target := by cases target <;> rfl
          simp only [Block.tokens, List.cons_append, List.append_assoc, readBlock, htarget, readSets_tokens]
          show (readBlock fuel (next.tokens ++ .closed :: rest)).bind _ = _
          rw [hnext]
          rfl
  | when condition body next ihbody ihnext =>
      cases fuel with
      | zero => exact absurd h (Nat.not_lt_zero _)
      | succ fuel =>
          simp only [Block.tokens, List.length_cons, List.length_append] at h
          have hcondition := (read_tokens fuel).2 condition
            (.right :: .opened :: (body.tokens ++ .closed :: (next.tokens ++ .closed :: rest)))
            (by rintro _ ⟨⟩; decide) (by omega)
          have hbody := ihbody (next.tokens ++ .closed :: rest) (show 2 * body.tokens.length < fuel by omega)
          have hnext := ihnext rest (show 2 * next.tokens.length < fuel by omega)
          simp only [Block.tokens, List.cons_append, List.append_assoc, readBlock, hcondition, hbody, hnext,
            Option.map_some]

theorem readPolicy_tokens (name : String) (block : Block) :
    readPolicy (.operand (.word name) :: .opened :: (block.tokens ++ [.closed])) = some (name, block) := by
  have hblock := @readBlock_tokens block (2 * (block.tokens ++ [Token.closed]).length + 1) []
    (by rw [List.length_append, List.length_singleton]; omega)
  unfold readPolicy
  simp only [hblock]

def Reads (text : String) (tokens : List Token) : Prop :=
  Steps.run lexChar .between text.toList = (.between, tokens)

instance {text : String} {tokens : List Token} : Decidable (Reads text tokens) := inferInstanceAs (Decidable (_ = _))

/-- Nothing is read any more. -/
def Breaks (text : String) : Prop := (Steps.run lexChar .between text.toList).1 = .broken

theorem Reads.append {text more : String} {tokens others : List Token} (h : Reads text tokens)
    (hmore : Reads more others) : Reads (text ++ more) (tokens ++ others) := by
  unfold Reads at *
  rw [String.toList_append, Steps.run_append, h, hmore]

theorem run_broken (text : List Char) : Steps.run lexChar .broken text = (.broken, []) := by
  induction text with
  | nil => rfl
  | cons c text ih => rw [Steps.run_cons, show lexChar .broken c = (.broken, []) from rfl, ih]; rfl

theorem Breaks.append {text : String} (h : Breaks text) (more : String) : Breaks (text ++ more) := by
  unfold Breaks at *
  rw [String.toList_append, Steps.run_append]
  simp only [h, run_broken]

theorem Reads.breaks {text more : String} {tokens : List Token} (h : Reads text tokens) (hmore : Breaks more) :
    Breaks (text ++ more) := by
  unfold Reads at h
  unfold Breaks at *
  rw [String.toList_append, Steps.run_append, h]
  exact hmore

theorem Reads.lex {text : String} {tokens : List Token} (h : Reads text tokens) : lex text = some tokens := by
  unfold Reads at h
  unfold Unlang.lex
  rw [h]

theorem Breaks.lex {text : String} (h : Breaks text) : lex text = none := by
  unfold Breaks at h
  unfold Unlang.lex
  rcases hrun : Steps.run lexChar .between text.toList with ⟨place, tokens⟩
  rw [hrun] at h
  rw [show place = .broken from h]

theorem run_word {text : List Char} (read : List Char) (h : ∀ c ∈ text, plain c = true) :
    Steps.run lexChar (.word read) text = (.word (read ++ text), []) := by
  induction text generalizing read with
  | nil => rw [Steps.run_nil, List.append_nil]
  | cons c text ih =>
      have hstep : lexChar (.word read) c = (.word (read ++ [c]), []) := by
        dsimp only [lexChar]
        rw [if_pos (h c List.mem_cons_self)]
      rw [Steps.run_cons, hstep, ih _ fun d hd => h d (List.mem_cons_of_mem _ hd), List.append_assoc]
      rfl

theorem run_comment {text : List Char} (h : '\n' ∉ text) : Steps.run lexChar .comment text = (.comment, []) := by
  induction text with
  | nil => rfl
  | cons c text ih =>
      obtain ⟨hc, hrest⟩ := not_or.mp (mt List.mem_cons.mpr h)
      have hstep : lexChar .comment c = (.comment, []) := if_neg (Ne.symm hc)
      rw [Steps.run_cons, hstep, ih hrest]
      rfl

theorem reads_comment {text : String} (h : '\n' ∉ text.toList) : Reads ("#" ++ text ++ "\n") [] := by
  unfold Reads
  rw [String.toList_append, String.toList_append, Steps.run_append, Steps.run_append]
  rw [show Steps.run lexChar .between "#".toList = (.comment, []) by decide]
  simp only [run_comment h]
  rfl

theorem reads_word {text : String} (hne : text ≠ "") (h : ∀ c ∈ text.toList, plain c = true ∧ c ≠ ':') :
    Reads (text ++ "\n") [.operand (.word text)] := by
  unfold Reads
  cases hchars : text.toList with
  | nil => exact absurd (String.toList_eq_nil_iff.mp hchars) hne
  | cons c rest =>
      rw [hchars] at h
      have hstep : lexChar .between c = (.word [c], []) := by
        obtain ⟨hplain, hcolon⟩ := h c List.mem_cons_self
        show opening c = _
        unfold opening
        rw [if_pos (by simp [hplain, hcolon])]
      have hrest := run_word [c] fun d hd => (h d (List.mem_cons_of_mem c hd)).1
      have hend : Steps.run lexChar (.word (c :: rest)) "\n".toList = (.between, [word (c :: rest)]) := rfl
      rw [String.toList_append, hchars, List.cons_append, Steps.run_cons, hstep, Steps.run_append, hrest,
        List.singleton_append, hend]
      unfold word
      rw [← hchars, String.ofList_toList]
      rfl

theorem reads_join {separator text : String} {mark : Token} {tokens : List Token} {texts : List String}
    {others : List (List Token)} (hmark : Reads separator [mark]) (h : Reads text tokens)
    (hrest : List.Forall₂ Reads texts others) :
    Reads (Text.join separator (text :: texts)) (tokens ++ others.flatMap (mark :: ·)) := by
  induction hrest generalizing text tokens with
  | nil =>
      rw [List.flatMap_nil, List.append_nil, Text.join, String.intercalate_singleton]
      exact h
  | @cons next next' texts others hnext hrest ih =>
      have hjoin : Text.join separator (text :: next :: texts) =
          text ++ separator ++ Text.join separator (next :: texts) := by
        unfold Text.join
        rw [String.intercalate_cons_cons]
      have htokens : tokens ++ (next' :: others).flatMap (mark :: ·) =
          tokens ++ [mark] ++ (next' ++ others.flatMap (mark :: ·)) := by
        rw [List.flatMap_cons, List.append_assoc]
        rfl
      rw [hjoin, htokens]
      exact (h.append hmark).append (ih hnext)

/-- No line ends within the text, and no backslash goes on to what follows. -/
def closes : List Char → Bool
  | [] => true
  | ['\\'] => false
  | '\\' :: c :: rest => c ≠ '\n' && closes rest
  | c :: rest => c ≠ '\n' && closes rest

theorem run_quoted {text : List Char} (read : List Char) (hmark : '"' ∉ text) (h : closes text = true) :
    Steps.run lexChar (.quoted read) text = (.quoted (read ++ text), []) := by
  fun_induction closes text generalizing read with
  | case1 => rw [Steps.run_nil, List.append_nil]
  | case2 => cases h
  | case3 c rest ih =>
      simp only [Bool.and_eq_true, decide_eq_true_eq] at h
      have hescape : lexChar (.quoted read) '\\' = (.quotedEscape read, []) := rfl
      have hstep : lexChar (.quotedEscape read) c = (.quoted (read ++ ['\\', c]), []) := if_neg h.1
      rw [Steps.run_cons, hescape, Steps.run_cons, hstep,
        ih _ (fun hmem => hmark (List.mem_cons_of_mem _ (List.mem_cons_of_mem _ hmem))) h.2, List.append_assoc]
      rfl
  | case4 c rest hlast hpair ih =>
      simp only [Bool.and_eq_true, decide_eq_true_eq] at h
      obtain ⟨hc, hrest⟩ := not_or.mp (mt List.mem_cons.mpr hmark)
      have hbackslash : c ≠ '\\' := by
        rintro rfl
        cases rest with
        | nil => exact hlast rfl rfl
        | cons d rest => exact hpair d rest rfl rfl
      have hstep : lexChar (.quoted read) c = (.quoted (read ++ [c]), []) := by
        dsimp only [lexChar]
        rw [if_neg (Ne.symm hc), if_neg h.1, if_neg hbackslash]
      rw [Steps.run_cons, hstep, ih _ hrest h.2, List.append_assoc]
      rfl

theorem run_unclosed {text : List Char} (read : List Char) (hmark : '"' ∉ text) (h : closes text = false) :
    (Steps.run lexChar (.quoted read) text).1 = .broken ∨
      ∃ read', (Steps.run lexChar (.quoted read) text).1 = .quotedEscape read' := by
  fun_induction closes text generalizing read with
  | case1 => cases h
  | case2 => exact .inr ⟨read, rfl⟩
  | case3 c rest ih =>
      have hescape : lexChar (.quoted read) '\\' = (.quotedEscape read, []) := rfl
      rw [Steps.run_cons, hescape, Steps.run_cons]
      by_cases hline : c = '\n'
      · have hstep : lexChar (.quotedEscape read) c = (.broken, []) := if_pos hline
        rw [hstep]
        exact .inl (by rw [run_broken])
      · have hstep : lexChar (.quotedEscape read) c = (.quoted (read ++ ['\\', c]), []) := if_neg hline
        rw [hstep]
        refine ih _ (fun hmem => hmark (List.mem_cons_of_mem _ (List.mem_cons_of_mem _ hmem))) ?_
        simpa [hline] using h
  | case4 c rest hlast hpair ih =>
      obtain ⟨hc, hrest⟩ := not_or.mp (mt List.mem_cons.mpr hmark)
      have hbackslash : c ≠ '\\' := by
        rintro rfl
        cases rest with
        | nil => exact hlast rfl rfl
        | cons d rest => exact hpair d rest rfl rfl
      rw [Steps.run_cons]
      by_cases hline : c = '\n'
      · have hstep : lexChar (.quoted read) c = (.broken, []) := by
          dsimp only [lexChar]
          rw [if_neg (Ne.symm hc), if_pos hline]
        rw [hstep]
        exact .inl (by rw [run_broken])
      · have hstep : lexChar (.quoted read) c = (.quoted (read ++ [c]), []) := by
          dsimp only [lexChar]
          rw [if_neg (Ne.symm hc), if_neg hline, if_neg hbackslash]
        rw [hstep]
        exact ih _ hrest (by simpa [hline] using h)

theorem run_line {text : List Char} (rest : List Char) (hmark : '"' ∉ text) :
    (∀ read, (Steps.run lexChar (.quoted read) (text ++ '\n' :: rest)).1 = .broken) ∧
      ∀ read, (Steps.run lexChar (.quotedEscape read) (text ++ '\n' :: rest)).1 = .broken := by
  induction text with
  | nil =>
      have hquoted : ∀ read, lexChar (.quoted read) '\n' = (.broken, []) := fun _ => rfl
      have hescape : ∀ read, lexChar (.quotedEscape read) '\n' = (.broken, []) := fun _ => rfl
      constructor
      · intro read
        rw [List.nil_append, Steps.run_cons, hquoted, run_broken]
      · intro read
        rw [List.nil_append, Steps.run_cons, hescape, run_broken]
  | cons c text ih =>
      obtain ⟨hc, hrest⟩ := not_or.mp (mt List.mem_cons.mpr hmark)
      obtain ⟨ihquoted, ihescape⟩ := ih hrest
      constructor
      · intro read
        rw [List.cons_append, Steps.run_cons]
        dsimp only [lexChar]
        rw [if_neg (Ne.symm hc)]
        split_ifs
        · rw [run_broken]
        · exact ihescape read
        · exact ihquoted _
      · intro read
        rw [List.cons_append, Steps.run_cons]
        dsimp only [lexChar]
        split_ifs
        · rw [run_broken]
        · exact ihquoted _

theorem reads_quoted {text : String} {pieces : List Piece} (hmark : '"' ∉ text.toList) (h : closes text.toList = true)
    (hpieces : pieces? text.toList = some pieces) : Reads ("\"" ++ text ++ "\"") [.operand (.quoted pieces)] := by
  have hfirst : Steps.run lexChar .between "\"".toList = (.quoted [], []) := by decide
  have hlast : lexChar (.quoted text.toList) '"' = (.between, [.operand (.quoted pieces)]) := by
    dsimp only [lexChar]
    rw [if_pos rfl, hpieces]
  unfold Reads
  rw [String.toList_append, String.toList_append, Steps.run_append, Steps.run_append, hfirst]
  simp only [run_quoted [] hmark h, List.nil_append]
  rw [show "\"".toList = ['"'] from rfl, Steps.run_cons, hlast]
  rfl

/-- A text that is not read breaks what it stands in, as soon as everything that goes on within it does. -/
theorem breaks_quoted {text rest : String} (hmark : '"' ∉ text.toList)
    (h : closes text.toList = true → pieces? text.toList = none)
    (hrest : ∀ read, (Steps.run lexChar (.quoted read) rest.toList).1 = .broken) :
    Breaks ("\"" ++ text ++ "\"" ++ rest) := by
  have hfirst : Steps.run lexChar .between "\"".toList = (.quoted [], []) := by decide
  unfold Breaks
  rw [String.toList_append, String.toList_append, String.toList_append, Steps.run_append, Steps.run_append,
    Steps.run_append, hfirst]
  cases hcloses : closes text.toList with
  | true =>
      have hlast : lexChar (.quoted text.toList) '"' = (.broken, []) := by
        dsimp only [lexChar]
        rw [if_pos rfl, h hcloses]
      simp only [run_quoted [] hmark hcloses, List.nil_append]
      rw [show "\"".toList = ['"'] from rfl, Steps.run_cons, hlast]
      simp only [run_broken]
  | false =>
      rcases run_unclosed [] hmark hcloses with hbroken | ⟨read, hescape⟩
      · simp only [hbroken, run_broken]
      · have hlast : lexChar (.quotedEscape read) '"' = (.quoted (read ++ ['\\', '"']), []) := rfl
        simp only [hescape]
        rw [show "\"".toList = ['"'] from rfl, Steps.run_cons, hlast]
        exact hrest _

/-- Letters that stand for themselves. -/
def literal (c : Char) : Bool := c ∉ ['"', '\\', '%', '\n']

theorem closes_of_literal {text : List Char} (h : ∀ c ∈ text, literal c = true) : closes text = true := by
  fun_induction closes text with
  | case1 => rfl
  | case2 => exact absurd (h '\\' List.mem_cons_self) (by decide)
  | case3 c rest ih => exact absurd (h '\\' List.mem_cons_self) (by decide)
  | case4 c rest hlast hpair ih =>
      have hc := h c List.mem_cons_self
      simp only [literal, List.mem_cons, List.not_mem_nil, or_false, not_or, decide_eq_true_eq] at hc
      rw [ih fun d hd => h d (List.mem_cons_of_mem _ hd), Bool.and_true]
      exact decide_eq_true hc.2.2.2

theorem pieces_of_literal {text : List Char} (h : ∀ c ∈ text, literal c = true) :
    pieces? text = some (text.map .letter) := by
  have hrun : Steps.run readPiece .letters text = (.letters, text.map fun c => some (.letter c)) := by
    induction text with
    | nil => rfl
    | cons c text ih =>
        have hc := h c List.mem_cons_self
        simp only [literal, List.mem_cons, List.not_mem_nil, or_false, not_or, decide_eq_true_eq] at hc
        have hstep : readPiece .letters c = (.letters, [some (.letter c)]) := by
          dsimp only [readPiece]
          rw [if_neg hc.2.1, if_neg hc.2.2.1]
        rw [Steps.run_cons, hstep, ih fun d hd => h d (List.mem_cons_of_mem _ hd)]
        rfl
  unfold pieces?
  rw [hrun]
  clear h hrun
  show (text.map fun c => some (Piece.letter c)).mapM id = _
  induction text with
  | nil => rfl
  | cons c text ih =>
      rw [List.map_cons, List.mapM_cons, ih]
      rfl

theorem expand_letters (request : String → Option String) (text : List Char) :
    expand request (text.map .letter) = String.ofList text := by
  unfold expand
  rw [List.flatMap_map]
  exact congrArg String.ofList (List.flatMap_singleton' text)

end Unlang
