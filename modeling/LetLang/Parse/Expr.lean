import LetLang.Decimal
import LetLang.Expr
import LetLang.Grammar
import LetLang.Parse.Outcome

/-!
Reading expressions by precedence. An expression starts with an operand; as long as the next
token is an operator that binds more strongly than the floor, that operator takes what was read so
far as its left operand, and an expression above its own precedence as its right one. Operators of
one precedence therefore group to the left. Reading starts on the first token of the expression
and ends on its last one.

A grammar may let the end token start or continue an expression, and reading may then go on
forever. The readers take a number of steps for this reason, and `expr` allows as many as any
expression can need that comes to an end.
-/

set_option autoImplicit false

namespace LetLang.Parse

/-- Reads an expression above a floor. -/
abbrev ExprReader := Precedence → Window → Outcome Expr

def name (window : Window) : Outcome Expr :=
  .done (.name (.ofToken window.current)) window

def integer (window : Window) : Outcome Expr :=
  match Decimal.read? window.current.literal with
  | some value => .done (.integer window.current value) window
  | none => .failed ⟨.badInteger window.current.literal, window.current.start⟩ window

/-- Reads the current token as a unary operator, and its operand behind it. -/
@[inline] def unaryWith (expr : ExprReader) (window : Window) : Outcome Expr :=
  (expr .unary window.advance).map (.unary window.current window.current.literal)

/-- Reads the current token as a binary operator, and its right operand behind it. -/
@[inline] def binaryWith (grammar : Grammar) (expr : ExprReader) (left : Expr) (window : Window) :
    Outcome Expr :=
  (expr (grammar.precedence window.current.kind) window.advance).map
    (.binary window.current left window.current.literal)

@[inline] def operandWith (grammar : Grammar) (expr : ExprReader) (window : Window) :
    Outcome Expr :=
  match grammar.operand? window.current.kind with
  | none =>
      .failed ⟨.noOperand window.current.kind window.current.literal, window.current.start⟩ window
  | some .name => name window
  | some .integer => integer window
  | some .operator => unaryWith expr window

/-- Whether the next token continues an expression that is read above a floor. -/
def continues (grammar : Grammar) (floor : Precedence) (window : Window) : Bool :=
  !window.next.is .semicolon && floor < grammar.precedence window.next.kind

theorem continues_iff (grammar : Grammar) (floor : Precedence) (window : Window) :
    continues grammar floor window = true ↔
      window.next.kind ≠ .semicolon ∧ floor < grammar.precedence window.next.kind := by
  simp [continues, Token.is]

theorem continues_eq_false_iff (grammar : Grammar) (floor : Precedence) (window : Window) :
    continues grammar floor window = false ↔
      window.next.kind = .semicolon ∨ grammar.precedence window.next.kind ≤ floor := by
  rw [← Bool.not_eq_true, continues_iff, Classical.not_and_iff_not_or_not, Classical.not_not,
    Precedence.not_lt_iff]

mutual

/-- Reads an expression above a floor, in a number of steps. -/
def exprWithin (grammar : Grammar) : Nat → ExprReader
  | 0, _, _ => .unfinished
  | steps + 1, floor, window =>
      (operandWith grammar (exprWithin grammar steps) window).bind
        (extendWithin grammar steps floor)

/-- Continues an expression as far as the floor allows, in a number of steps. -/
def extendWithin (grammar : Grammar) : Nat → Precedence → Expr → Window → Outcome Expr
  | 0, _, _, _ => .unfinished
  | steps + 1, floor, left, window =>
      if continues grammar floor window then
        (binaryWith grammar (exprWithin grammar steps) left window.advance).bind
          (extendWithin grammar steps floor)
      else
        .done left window

end

/-- A number of steps that is enough for every expression that comes to an end. -/
def budget (window : Window) : Nat :=
  window.pending.length + 2

/-- Reads an expression above a floor. -/
def expr (grammar : Grammar) (floor : Precedence) (window : Window) : Outcome Expr :=
  exprWithin grammar (budget window) floor window

def unary (grammar : Grammar) (window : Window) : Outcome Expr :=
  unaryWith (expr grammar) window

/-- Reads a binary operation whose left operand was read before. -/
def binary (grammar : Grammar) (left : Expr) (window : Window) : Outcome Expr :=
  binaryWith grammar (expr grammar) left window

end LetLang.Parse
