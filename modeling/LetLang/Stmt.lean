import LetLang.Expr

set_option autoImplicit false

namespace LetLang

/-- Statements. The values of bindings and returns may be left out. -/
inductive Stmt where
  /-- Binds a name to a value. -/
  | binding (token : Token) (name : Name) (value : Option Expr)
  /-- Gives a value back. -/
  | returning (token : Token) (value : Option Expr)
  /-- An expression that stands for itself. -/
  | expression (token : Token) (expr : Expr)
deriving DecidableEq, Repr

namespace Stmt

def token : Stmt → Token
  | .binding token _ _ => token
  | .returning token _ => token
  | .expression token _ => token

def renderValue (value : Option Expr) : String :=
  (value.map Expr.render).getD ""

def render : Stmt → String
  | .binding token name value =>
      token.literal ++ " " ++ name.value ++ " = " ++ renderValue value ++ ";"
  | .returning token value => token.literal ++ " " ++ renderValue value ++ ";"
  | .expression _ expr => expr.render

end Stmt

structure Program where
  statements : List Stmt
deriving DecidableEq, Repr

namespace Program

def render (program : Program) : String :=
  String.join (program.statements.map Stmt.render)

/-- The text of the first token, or nothing for the empty program. -/
def firstLiteral (program : Program) : String :=
  (program.statements.head?.map fun stmt => stmt.token.literal).getD ""

end Program

end LetLang
