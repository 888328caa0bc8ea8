import LetLang.Source.Position
import LetLang.Text.Quoted
import LetLang.Token.Kind

set_option autoImplicit false

namespace LetLang

/-- What can be wrong with a source. -/
inductive Fault where
  /-- A token of one kind had to come next, and one of another kind did. -/
  | unexpected (expected found : Kind)
  /-- A token cannot start an expression. -/
  | noOperand (kind : Kind) (literal : String)
  /-- An integer does not fit. -/
  | badInteger (literal : String)
deriving DecidableEq, Repr

inductive FaultClass where
  | tokenType
  | operator
  | literal
deriving DecidableEq, Repr

namespace Fault

def faultClass : Fault → FaultClass
  | unexpected _ _ => .tokenType
  | noOperand _ _ => .operator
  | badInteger _ => .literal

def label : Fault → String
  | unexpected _ _ => "UnexpectedToken"
  | noOperand _ _ => "NoPrefixParseFn"
  | badInteger _ => "IntegerParseError"

def message : Fault → String
  | unexpected expected found =>
      "expected next token to be " ++ expected.name ++ ", got " ++ found.name ++ " instead"
  | noOperand kind _ => "no prefix parse function for " ++ kind.name ++ " found"
  | badInteger literal => "could not parse " ++ Text.quoted literal ++ " as integer"

def tip : Fault → String
  | unexpected .ident _ => "a binding needs a name, e.g. `let x = 5;`"
  | unexpected .assign _ => "expected `=` between the name and its value"
  | unexpected expected _ => "insert a " ++ expected.name ++ " token here"
  | noOperand kind literal => "`" ++ literal ++ "` (" ++ kind.name ++ ") cannot start an expression"
  | badInteger literal => "Invalid integer: `" ++ literal ++ "`, is it above the integer limit?"

end Fault

structure Diagnostic where
  fault : Fault
  position : Position
deriving DecidableEq, Repr

end LetLang
