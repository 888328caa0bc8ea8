import LetLang.Parse.Program

set_option autoImplicit false

namespace LetLang

/-- A grammar, a window, and the diagnostics collected so far. -/
structure Parser where
  grammar : Grammar
  window : Window
  diagnostics : List Diagnostic

namespace Parser

/-- The standard parser for the tokens ahead of a cursor. -/
def ofCursor (cursor : Cursor) : Parser :=
  ⟨.standard, .ofCursor cursor, []⟩

inductive Request where
  | advance
  | skipToSemicolon
  | current
  | currentIs (kind : Kind)
  | nextIs (kind : Kind)
  | expect (kind : Kind)
  | precedences
  | diagnostics
  | entries
  | addForm (kind : Kind) (form : Form)
  | addOperand (kind : Kind) (operand : Operand)
  | addOperator (kind : Kind) (precedence : Precedence)
  | stmt
  | form (form : Form)
  | expr (floor : Precedence)
  | operand (operand : Operand)
  | binary (left : Expr)
  | program
deriving DecidableEq, Repr

inductive Reply where
  | nothing
  | current (token : Token)
  | verdict (holds : Bool)
  | met
  | failed (diagnostic : Diagnostic)
  | precedences (current next : Precedence)
  | diagnostics (diagnostics : List Diagnostic)
  | entries (forms operands operators : List Kind)
  | stmt (stmt : Stmt)
  | expr (expr : Expr)
  | program (program : Program)
deriving DecidableEq, Repr

def moved (parser : Parser) (window : Window) : Parser :=
  ⟨parser.grammar, window, parser.diagnostics⟩

def withGrammar (parser : Parser) (grammar : Grammar) : Parser :=
  ⟨grammar, parser.window, parser.diagnostics⟩

/-- The answer to the outcome of a reader, which moves the window but keeps no diagnostic. -/
def settle {α : Type} (parser : Parser) (reply : α → Reply) : Outcome α → Option (Reply × Parser)
  | .done value rest => some (reply value, parser.moved rest)
  | .failed diagnostic rest => some (.failed diagnostic, parser.moved rest)
  | .unfinished => none

def operand (parser : Parser) : Operand → Outcome Expr
  | .name => Parse.name parser.window
  | .integer => Parse.integer parser.window
  | .operator => Parse.unary parser.grammar parser.window

/-- Reads the program up to the end and adds its diagnostics to those collected so far. -/
def program (parser : Parser) : Option (Program × Parser) :=
  (Parse.run parser.grammar parser.window).map fun run =>
    (⟨run.statements⟩, ⟨parser.grammar, run.rest, parser.diagnostics ++ run.diagnostics⟩)

/-- Answers a request. There is no answer if reading does not come to an end. -/
def answer (parser : Parser) : Request → Option (Reply × Parser)
  | .advance => some (.nothing, parser.moved parser.window.advance)
  | .skipToSemicolon => some (.nothing, parser.moved parser.window.skipToSemicolon)
  | .current => some (.current parser.window.current, parser)
  | .currentIs kind => some (.verdict (parser.window.current.is kind), parser)
  | .nextIs kind => some (.verdict (parser.window.next.is kind), parser)
  | .expect kind =>
      match parser.window.expect kind with
      | .ok window => some (.met, parser.moved window)
      | .error diagnostic => some (.failed diagnostic, parser)
  | .precedences =>
      some
        (.precedences (parser.grammar.precedence parser.window.current.kind)
          (parser.grammar.precedence parser.window.next.kind), parser)
  | .diagnostics => some (.diagnostics parser.diagnostics, parser)
  | .entries =>
      some
        (.entries (Grammar.entries parser.grammar.form?) (Grammar.entries parser.grammar.operand?)
          (Grammar.entries parser.grammar.operator?), parser)
  | .addForm kind form => some (.nothing, parser.withGrammar (parser.grammar.addForm kind form))
  | .addOperand kind operand =>
      some (.nothing, parser.withGrammar (parser.grammar.addOperand kind operand))
  | .addOperator kind precedence =>
      some (.nothing, parser.withGrammar (parser.grammar.addOperator kind precedence))
  | .stmt => parser.settle .stmt (Parse.stmt parser.grammar parser.window)
  | .form form => parser.settle .stmt (Parse.formStmt parser.grammar form parser.window)
  | .expr floor => parser.settle .expr (Parse.expr parser.grammar floor parser.window)
  | .operand operand => parser.settle .expr (parser.operand operand)
  | .binary left => parser.settle .expr (Parse.binary parser.grammar left parser.window)
  | .program => parser.program.map fun (program, after) => (.program program, after)

def answers (parser : Parser) : List Request → Option (List (Reply × Parser))
  | [] => some []
  | request :: rest => do
      let (reply, after) ← parser.answer request
      let later ← after.answers rest
      return (reply, after) :: later

end Parser

end LetLang
