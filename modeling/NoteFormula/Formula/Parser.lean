import NoteFormula.Formula.Basic
import NoteFormula.Text.Quoted
import NoteFormula.Token.Basic

/-! # Formulas from tokens

Six tiers of binary operators, from loose to tight, each a chain that leans left over the next; below them
the prefix operators, the call forms and the primaries. Every whole formula (at the top, in a group, as an
argument) and every prefix operator nests one deeper; chains do not nest.
-/
namespace NoteFormula

inductive ParseFault where
  | tooDeep (limit : Nat) (found : Token)
  | trailing (found : Token)
  | expected (symbol place : String) (found : Token)
  | unexpected (found : Token)
  | endOfInput (found : Token)
  /-- The token list is not closed by the end token. -/
  | unclosed
  | unknownBinary (symbol : String)
  | unknownUnary (symbol : String)
  | limitTooLow (limit : Int)

namespace ParseFault

def limitMessage (limit : Int) : String :=
  "max_depth must be at least 1, got " ++ String.ofList (Text.decimalInt limit)

def message : ParseFault → String
  | tooDeep limit _ => "Nesting exceeds limit of " ++ String.ofList (Text.decimalDigits limit)
  | trailing t => "Unexpected token after expression: " ++ Text.quoted t.raw
  | expected symbol place _ => "Expected '" ++ symbol ++ "' after " ++ place
  | unexpected t => "Unexpected token: " ++ Text.quoted t.raw
  | endOfInput _ => "Unexpected end of expression"
  | unclosed => "Token list must end with EOF"
  | unknownBinary s => Text.quoted s ++ " is not a valid BinaryOperator"
  | unknownUnary s => Text.quoted s ++ " is not a valid UnaryOperator"
  | limitTooLow limit => limitMessage limit

def found? : ParseFault → Option Token
  | tooDeep _ t | trailing t | expected _ _ t | unexpected t | endOfInput t => some t
  | _ => none

end ParseFault

structure Cursor where
  rest : List Token
  depth : Nat

/-- A reading step moves the cursor, also when it fails. -/
abbrev Reading := EStateM ParseFault Cursor

namespace Reading

def peek : Reading Token := return (← get).rest.headD .eof

def remaining : Reading Nat := return (← get).rest.length

/-- Takes the next token if it is of one of the kinds; the end is never taken. -/
def accept (kinds : List TokenKind) : Reading (Option Token) := do
  let token ← peek
  if token.kind != .eof && kinds.contains token.kind then
    modify fun c => { c with rest := c.rest.tail }
    return some token
  else return none

def expect (kind : TokenKind) (symbol place : String) : Reading Unit := do
  match ← accept [kind] with
  | some _ => return ()
  | none => throw (.expected symbol place (← peek))

/-- Reads one level deeper. The level is left again on every way out, except when the limit refuses it. -/
def nested (limit : Nat) (inner : Reading Formula) : Reading Formula := fun c =>
  let deeper := { c with depth := c.depth + 1 }
  if limit < deeper.depth then .error (.tooDeep limit (c.rest.headD .eof)) deeper
  else match inner deeper with
    | .ok f c => .ok f { c with depth := c.depth - 1 }
    | .error fault c => .error fault { c with depth := c.depth - 1 }

/-- The conjunction has one spelling; any other operator is named by the token's text. -/
def binaryOp (token : Token) : Reading BinaryOp :=
  if token.kind = .and then return .and
  else match BinaryOp.ofSymbol? token.raw with
    | some op => return op
    | none => throw (.unknownBinary token.raw)

def unaryOp (token : Token) : Reading UnaryOp :=
  match UnaryOp.ofSymbol? token.raw with
  | some op => return op
  | none => throw (.unknownUnary token.raw)

/-- Further operands of a chain that leans left; `count` bounds their number. -/
def chain (operand : Reading Formula) (kinds : List TokenKind) : (count : Nat) → Formula → Reading Formula
  | 0, left => return left
  | count + 1, left => do
    match ← accept kinds with
    | none => return left
    | some token =>
      let op ← binaryOp token
      let right ← operand
      chain operand kinds count (.binary op left right)

/-- The kinds of binary operators, from the loosest tier to the tightest. -/
def tiers : List (List TokenKind) :=
  [[.or, .nullish], [.and], [.eq, .neq], [.gt, .gte, .lt, .lte], [.plus, .minus], [.star, .slash]]

def tiered (operand : Reading Formula) : List (List TokenKind) → Reading Formula
  | [] => operand
  | kinds :: tighter => do
    let left ← tiered operand tighter
    chain (tiered operand tighter) kinds (← remaining) left

def whole (limit : Nat) (operand : Reading Formula) : Reading Formula := nested limit (tiered operand tiers)

def conditional (formula : Reading Formula) : Reading Formula := do
  expect .lparen "(" "'if'"
  let condition ← formula
  match ← accept [.comma] with
  | none =>
    expect .rparen ")" "if arguments"
    return .conditional condition (.literal (.bool true)) (.literal (.bool false))
  | some _ =>
    let thenBranch ← formula
    let elseBranch ← match ← accept [.comma] with
      | some _ => formula
      | none => pure .absent
    expect .rparen ")" "if arguments"
    return .conditional condition thenBranch elseBranch

def containment (formula : Reading Formula) : Reading Formula := do
  expect .lparen "(" "'contains'"
  let haystack ← formula
  expect .comma "," "first argument"
  let needle ← formula
  expect .rparen ")" "contains arguments"
  return .contains haystack needle

def lengthCall (formula : Reading Formula) : Reading Formula := do
  expect .lparen "(" "'length'"
  let operand ← formula
  expect .rparen ")" "length argument"
  return .length operand

def primary (formula : Reading Formula) : Reading Formula := do
  let token ← peek
  if token.kind = .eof then throw (.endOfInput token)
  let advance : Reading Unit := modify fun c => { c with rest := c.rest.tail }
  match token.kind with
  | .ifWord => advance; conditional formula
  | .containsWord => advance; containment formula
  | .lengthWord => advance; lengthCall formula
  | .boolean | .number | .text | .word => advance; return .literal token.value
  | .noteRef => advance; return .reference .note token.value
  | .fileRef => advance; return .reference .file token.value
  | .lparen =>
    advance
    let inner ← formula
    expect .rparen ")" "expression"
    return inner
  | _ => throw (.unexpected token)

/-- A chain of prefix operators over a primary; `count` bounds the tokens it may nest over. -/
def operand (limit : Nat) : (count : Nat) → Reading Formula
  | 0 => do throw (.endOfInput (← peek))
  | count + 1 => do
    match ← accept [.not, .minus] with
    | some token =>
      let op ← unaryOp token
      return .unary op (← nested limit (operand limit count))
    | none => primary (whole limit (operand limit count))

def complete (limit : Nat) : Reading Formula := do
  let f ← whole limit (operand limit (← remaining))
  let token ← peek
  if token.kind = .eof then return f else throw (.trailing token)

end Reading

/-- A parser over a closed token list. It can be asked again and goes on from where it stopped. -/
structure Parser where
  tokens : List Token
  limit : Nat
  cursor : Cursor

namespace Parser

def defaultLimit : Int := 32

def ofTokens (tokens : List Token) (limit : Int) : Except ParseFault Parser :=
  if limit < 1 then .error (.limitTooLow limit)
  else match tokens.getLast? with
    | some ⟨.eof, _, _⟩ => .ok ⟨tokens, limit.toNat, ⟨tokens, 0⟩⟩
    | _ => .error .unclosed

def position (p : Parser) : Nat := p.tokens.length - p.cursor.rest.length

def next (p : Parser) : Except ParseFault Formula × Parser :=
  match Reading.complete p.limit p.cursor with
  | .ok f c => (.ok f, { p with cursor := c })
  | .error fault c => (.error fault, { p with cursor := c })

def outcomes : Nat → Parser → List (Except ParseFault Formula)
  | 0, _ => []
  | n + 1, p => let (outcome, p) := p.next; outcome :: outcomes n p

end Parser

def parse (tokens : List Token) (limit : Int) : Except ParseFault Formula := do
  let parser ← Parser.ofTokens tokens limit
  parser.next.1

end NoteFormula
