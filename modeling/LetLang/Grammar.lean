import LetLang.Grammar.Precedence
import LetLang.Token.Kind

set_option autoImplicit false

namespace LetLang

/-- The ways in which a token can start an expression. -/
inductive Operand where
  /-- It is a name. -/
  | name
  /-- It is an integer. -/
  | integer
  /-- It is an operator, with its operand behind it. -/
  | operator
deriving DecidableEq, Repr

inductive Form where
  | binding
  | returning
  | expression
deriving DecidableEq, Repr

/-- What a token of each kind may do. A later entry for a kind replaces an earlier one. -/
structure Grammar where
  /-- The form of the statements that a kind starts. -/
  form? : Kind → Option Form
  /-- The way in which a kind starts an expression. -/
  operand? : Kind → Option Operand
  /-- The precedence of a kind as a binary operator. -/
  operator? : Kind → Option Precedence

namespace Grammar

def set {α : Type} (table : Kind → Option α) (kind : Kind) (entry : α) : Kind → Option α :=
  fun other => if other = kind then some entry else table other

@[simp] theorem set_self {α : Type} (table : Kind → Option α) (kind : Kind) (entry : α) :
    set table kind entry kind = some entry := by
  simp [set]

theorem set_of_ne {α : Type} (table : Kind → Option α) (kind other : Kind) (entry : α)
    (apart : other ≠ kind) : set table kind entry other = table other := by
  simp [set, apart]

def addForm (grammar : Grammar) (kind : Kind) (form : Form) : Grammar where
  form? := set grammar.form? kind form
  operand? := grammar.operand?
  operator? := grammar.operator?

def addOperand (grammar : Grammar) (kind : Kind) (operand : Operand) : Grammar where
  form? := grammar.form?
  operand? := set grammar.operand? kind operand
  operator? := grammar.operator?

def addOperator (grammar : Grammar) (kind : Kind) (precedence : Precedence) : Grammar where
  form? := grammar.form?
  operand? := grammar.operand?
  operator? := set grammar.operator? kind precedence

/-- The precedence of a kind, which is the lowest for a kind that is no operator. -/
def precedence (grammar : Grammar) (kind : Kind) : Precedence :=
  (grammar.operator? kind).getD .lowest

/-- The kinds with an entry in a table, in the order of their names. -/
def entries {α : Type} (table : Kind → Option α) : List Kind :=
  Kind.all.filter fun kind => (table kind).isSome

def standard : Grammar where
  form?
    | .letWord => some .binding
    | .returnWord => some .returning
    | _ => none
  operand?
    | .ident => some .name
    | .int => some .integer
    | .bang => some .operator
    | .minus => some .operator
    | _ => none
  operator?
    | .equal => some .equality
    | .notEqual => some .equality
    | .less => some .comparison
    | .greater => some .comparison
    | .plus => some .sum
    | .minus => some .sum
    | .asterisk => some .product
    | .slash => some .product
    | _ => none

end Grammar

end LetLang
