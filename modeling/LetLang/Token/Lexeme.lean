import LetLang.Token.Kind

set_option autoImplicit false

namespace LetLang

def isLetter (c : Char) : Bool :=
  c.isAlpha || c == '_'

/-- The text of one token and what follows it. -/
structure Lexeme where
  kind : Kind
  text : List Char
  rest : List Char
deriving DecidableEq, Repr

namespace Lexeme

/-- Reads the operator, mark or stray character that starts with `first`. -/
def readSymbol (first : Char) (rest : List Char) : Lexeme :=
  match first, rest with
  | '=', '=' :: tail => ⟨.equal, ['=', '='], tail⟩
  | '!', '=' :: tail => ⟨.notEqual, ['!', '='], tail⟩
  | first, rest => ⟨.ofSymbol first, [first], rest⟩

def read (first : Char) (rest : List Char) : Lexeme :=
  if isLetter first then
    let word := first :: rest.takeWhile isLetter
    ⟨.ofWord (String.ofList word), word, rest.dropWhile isLetter⟩
  else if first.isDigit then
    ⟨.int, first :: rest.takeWhile Char.isDigit, rest.dropWhile Char.isDigit⟩
  else
    readSymbol first rest

theorem readSymbol_text_append_rest (first : Char) (rest : List Char) :
    (readSymbol first rest).text ++ (readSymbol first rest).rest = first :: rest := by
  unfold readSymbol
  split <;> simp

theorem read_text_append_rest (first : Char) (rest : List Char) :
    (read first rest).text ++ (read first rest).rest = first :: rest := by
  unfold read
  split
  · simp
  · split
    · simp
    · exact readSymbol_text_append_rest first rest

theorem read_text_ne_nil (first : Char) (rest : List Char) : (read first rest).text ≠ [] := by
  unfold read
  split
  · simp
  · split
    · simp
    · unfold readSymbol
      split <;> simp

theorem read_rest_length_lt (first : Char) (rest : List Char) :
    (read first rest).rest.length < (first :: rest).length := by
  have whole := congrArg List.length (read_text_append_rest first rest)
  have some_char := List.length_pos_iff.mpr (read_text_ne_nil first rest)
  rw [List.length_append] at whole
  omega

end Lexeme

end LetLang
