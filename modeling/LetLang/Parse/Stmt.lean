import LetLang.Parse.Expr
import LetLang.Stmt

set_option autoImplicit false

namespace LetLang.Parse

/-- Reads a binding, whose keyword is the current token. Its value is passed over up to the
semicolon. -/
def binding (window : Window) : Outcome Stmt :=
  match window.expect .ident with
  | .error diagnostic => .failed diagnostic window
  | .ok named =>
      match named.expect .assign with
      | .error diagnostic => .failed diagnostic named
      | .ok assigned =>
          .done (.binding window.current (.ofToken named.current) none) assigned.skipToSemicolon

def returning (window : Window) : Outcome Stmt :=
  .done (.returning window.current none) window.advance.skipToSemicolon

def closeStmt (window : Window) : Window :=
  if window.next.is .semicolon then window.advance else window

/-- Reads an expression and the semicolon behind it, which may be missing. -/
def exprStmt (grammar : Grammar) (window : Window) : Outcome Stmt :=
  (expr grammar .lowest window).bind fun value rest =>
    .done (.expression window.current value) (closeStmt rest)

def formStmt (grammar : Grammar) : Form → Window → Outcome Stmt
  | .binding => binding
  | .returning => returning
  | .expression => exprStmt grammar

/-- Reads a statement, whose form is that of its first token. -/
def stmt (grammar : Grammar) (window : Window) : Outcome Stmt :=
  formStmt grammar ((grammar.form? window.current.kind).getD .expression) window

end LetLang.Parse
