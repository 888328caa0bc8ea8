import LetLang.Token

set_option autoImplicit false

namespace LetLang

structure Name where
  token : Token
  value : String
deriving DecidableEq, Repr

def Name.ofToken (token : Token) : Name :=
  ⟨token, token.literal⟩

inductive Expr where
  | name (ident : Name)
  | integer (token : Token) (value : UInt64)
  | unary (token : Token) (operator : String) (right : Expr)
  | binary (token : Token) (left : Expr) (operator : String) (right : Expr)
deriving DecidableEq, Repr

namespace Expr

/-- The token that a node was made from: of an operation, its operator. -/
def token : Expr → Token
  | .name ident => ident.token
  | .integer token _ => token
  | .unary token _ _ => token
  | .binary token _ _ _ => token

/-- The canonical text of an expression, with brackets around each operation. -/
def render : Expr → String
  | .name ident => ident.value
  | .integer token _ => token.literal
  | .unary _ operator right => "(" ++ operator ++ right.render ++ ")"
  | .binary _ left operator right =>
      "(" ++ left.render ++ " " ++ operator ++ " " ++ right.render ++ ")"

/-- The tokens of an expression in the order in which they are written. -/
def tokens : Expr → List Token
  | .name ident => [ident.token]
  | .integer token _ => [token]
  | .unary token _ right => token :: right.tokens
  | .binary token left _ right => left.tokens ++ token :: right.tokens

theorem tokens_ne_nil (expr : Expr) : expr.tokens ≠ [] := by
  cases expr <;> simp [tokens]

end Expr

end LetLang
