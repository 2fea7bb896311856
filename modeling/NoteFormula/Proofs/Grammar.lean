import NoteFormula.Formula.Parser

/-! # The grammar of formulas

Which formula a list of tokens stands for, as a relation of its own. Six tiers of binary operators, each a
chain that leans left over the next tighter tier; under them the prefix operators, the calls, the groups and
the single tokens. A derivation knows how deep it nests: every whole formula and every prefix operator adds
one, and chains add nothing.
-/
namespace NoteFormula

namespace TokenKind

/-- The binary operator a kind stands for, with its tier, counted from the loosest. -/
def binary? : TokenKind → Option (Nat × BinaryOp)
  | or => some (0, .or)
  | nullish => some (0, .nullish)
  | and => some (1, .and)
  | eq => some (2, .equals)
  | neq => some (2, .notEquals)
  | gt => some (3, .greater)
  | gte => some (3, .greaterEqual)
  | lt => some (3, .less)
  | lte => some (3, .lessEqual)
  | plus => some (4, .add)
  | minus => some (4, .subtract)
  | star => some (5, .multiply)
  | slash => some (5, .divide)
  | _ => none

def unary? : TokenKind → Option UnaryOp
  | not => some .not
  | minus => some .negate
  | _ => none

def isLiteral : TokenKind → Bool
  | boolean | number | text | word => true
  | _ => false

def space? : TokenKind → Option Namespace
  | noteRef => some .note
  | fileRef => some .file
  | _ => none

theorem binary?_level_lt {kind : TokenKind} {level : Nat} {op : BinaryOp}
    (h : kind.binary? = some (level, op)) : level < 6 := by
  cases kind <;> cases h <;> decide

end TokenKind

/-- A whole formula, or a chain of one of the tiers `0` to `5`; tier `6` is a single operand. -/
inductive Category where
  | whole
  | tier (level : Nat)
deriving DecidableEq

/-- The tokens stand for the formula, and the derivation nests that deep. -/
inductive Derives : Category → List Token → Formula → Nat → Prop
  | whole {ts f n} : Derives (.tier 0) ts f n → Derives .whole ts f (n + 1)
  | tighter {level ts f n} : level < 6 → Derives (.tier (level + 1)) ts f n → Derives (.tier level) ts f n
  | chain {level op t ts us f g m n} : t.kind.binary? = some (level, op) →
      Derives (.tier level) ts f m → Derives (.tier (level + 1)) us g n →
      Derives (.tier level) (ts ++ t :: us) (.binary op f g) (max m n)
  | unary {op t ts f n} : t.kind.unary? = some op → Derives (.tier 6) ts f n →
      Derives (.tier 6) (t :: ts) (.unary op f) (n + 1)
  | literal {t} : t.kind.isLiteral → Derives (.tier 6) [t] (.literal t.value) 0
  | reference {space t} : t.kind.space? = some space → Derives (.tier 6) [t] (.reference space t.value) 0
  | group {l r ts f n} : l.kind = .lparen → Derives .whole ts f n → r.kind = .rparen →
      Derives (.tier 6) (l :: ts ++ [r]) f n
  /-- Without branches a conditional yields the truth of its condition. -/
  | test {w l r ts c n} : w.kind = .ifWord → l.kind = .lparen → Derives .whole ts c n → r.kind = .rparen →
      Derives (.tier 6) (w :: l :: ts ++ [r]) (.conditional c (.literal (.bool true)) (.literal (.bool false))) n
  | guarded {w l p r ts us c f m n} : w.kind = .ifWord → l.kind = .lparen → Derives .whole ts c m →
      p.kind = .comma → Derives .whole us f n → r.kind = .rparen →
      Derives (.tier 6) (w :: l :: ts ++ p :: us ++ [r]) (.conditional c f .absent) (max m n)
  | choice {w l p q r ts us vs c f g k m n} : w.kind = .ifWord → l.kind = .lparen → Derives .whole ts c k →
      p.kind = .comma → Derives .whole us f m → q.kind = .comma → Derives .whole vs g n → r.kind = .rparen →
      Derives (.tier 6) (w :: l :: ts ++ p :: us ++ q :: vs ++ [r]) (.conditional c f g) (max k (max m n))
  | contains {w l p r ts us f g m n} : w.kind = .containsWord → l.kind = .lparen → Derives .whole ts f m →
      p.kind = .comma → Derives .whole us g n → r.kind = .rparen →
      Derives (.tier 6) (w :: l :: ts ++ p :: us ++ [r]) (.contains f g) (max m n)
  | length {w l r ts f n} : w.kind = .lengthWord → l.kind = .lparen → Derives .whole ts f n → r.kind = .rparen →
      Derives (.tier 6) (w :: l :: ts ++ [r]) (.length f) n

structure Token.Spelled (t : Token) : Prop where
  binary : ∀ {level op}, t.kind.binary? = some (level, op) → t.raw = op.symbol
  unary : ∀ {op}, t.kind.unary? = some op → t.raw = op.symbol

end NoteFormula
