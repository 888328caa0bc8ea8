import LetLang.Parse.Session

set_option autoImplicit false

namespace LetLang

/-- The tables of a grammar, the operators apart from their precedences. -/
structure Tables where
  form? : Kind → Option Form
  operand? : Kind → Option Operand
  /-- Whether a kind is an operator. -/
  operator : Kind → Bool
  /-- The precedence that was given to a kind. -/
  precedence? : Kind → Option Precedence

def Parser.Request.registers : Parser.Request → Bool
  | .addForm _ _ => true
  | .addOperand _ _ => true
  | .addOperator _ _ => true
  | _ => false

namespace Tables

def empty : Tables :=
  ⟨fun _ => none, fun _ => none, fun _ => false, fun _ => none⟩

def addForm (tables : Tables) (kind : Kind) (form : Form) : Tables where
  form? := Grammar.set tables.form? kind form
  operand? := tables.operand?
  operator := tables.operator
  precedence? := tables.precedence?

def addOperand (tables : Tables) (kind : Kind) (operand : Operand) : Tables where
  form? := tables.form?
  operand? := Grammar.set tables.operand? kind operand
  operator := tables.operator
  precedence? := tables.precedence?

/-- Makes a kind a binary operator, with an entry in both tables. -/
def addOperator (tables : Tables) (kind : Kind) (precedence : Precedence) : Tables where
  form? := tables.form?
  operand? := tables.operand?
  operator := fun other => other == kind || tables.operator other
  precedence? := Grammar.set tables.precedence? kind precedence

def grammar (tables : Tables) : Grammar :=
  ⟨tables.form?, tables.operand?, tables.precedence?⟩

/-- What a request adds to the tables. -/
def register (tables : Tables) : Parser.Request → Tables
  | .addForm kind form => tables.addForm kind form
  | .addOperand kind operand => tables.addOperand kind operand
  | .addOperator kind precedence => tables.addOperator kind precedence
  | _ => tables

theorem register_of_plain (tables : Tables) {request : Parser.Request}
    (plain : request.registers = false) : tables.register request = tables := by
  cases request with
  | addForm kind form => cases plain
  | addOperand kind operand => cases plain
  | addOperator kind precedence => cases plain
  | _ => rfl

/-- The entries of the language, in the order in which they are registered. -/
def standardEntries : List Parser.Request :=
  [.addOperator .equal .equality, .addOperator .notEqual .equality,
    .addOperator .less .comparison, .addOperator .greater .comparison,
    .addOperator .plus .sum, .addOperator .minus .sum,
    .addOperator .asterisk .product, .addOperator .slash .product,
    .addOperand .ident .name, .addOperand .int .integer,
    .addOperand .bang .operator, .addOperand .minus .operator,
    .addForm .letWord .binding, .addForm .returnWord .returning]

def standard : Tables :=
  standardEntries.foldl register empty

end Tables

end LetLang
