import LetLang.Source.Position
import LetLang.Token.Kind

set_option autoImplicit false

namespace LetLang

structure Token where
  kind : Kind
  literal : String
  span : Span
deriving DecidableEq, Repr

namespace Token

/-- A token that stands in no source. -/
def ofLiteral (kind : Kind) (literal : String) : Token :=
  ⟨kind, literal, .nowhere⟩

def is (token : Token) (kind : Kind) : Bool :=
  token.kind == kind

def start (token : Token) : Position :=
  token.span.start

/-- A token as it is listed: the name of its kind, followed by its text if it has any. -/
def describe (token : Token) : String :=
  if token.literal.isEmpty then token.kind.name
  else token.kind.name ++ " " ++ token.literal

@[simp] theorem is_iff (token : Token) (kind : Kind) :
    token.is kind = true ↔ token.kind = kind := by
  simp [is]

@[simp] theorem is_eq_false_iff (token : Token) (kind : Kind) :
    token.is kind = false ↔ token.kind ≠ kind := by
  simp [is]

end Token

end LetLang
