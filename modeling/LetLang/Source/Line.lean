import LetLang.Text.Size

set_option autoImplicit false

namespace LetLang

/-- A line of a text, and a place in it. -/
structure Line where
  /-- The number of the line, the first line being 1. -/
  number : Nat
  /-- The text of the line with its line feed, if it has one. -/
  text : String
  /-- The number of bytes of the line before the place. -/
  column : Nat
deriving DecidableEq, Repr

def Line.continues (c : Char) : Bool :=
  c != '\n'

/-- Looks for the line at `offset` in `text`, whose first line has the given number. -/
def Line.find (number : Nat) (text : List Char) (offset : Nat) : Line :=
  let body := text.takeWhile Line.continues
  match _ending : text.dropWhile Line.continues with
  | [] => ⟨number, String.ofList body, min offset (Text.size body)⟩
  | feed :: rest =>
      let line := body ++ [feed]
      if offset < Text.size line then ⟨number, String.ofList line, offset⟩
      else Line.find (number + 1) rest (offset - Text.size line)
termination_by text.length
decreasing_by
  have shorter := (List.dropWhile_sublist Line.continues (l := text)).length_le
  rw [_ending, List.length_cons] at shorter
  omega

/-- The line of a text that holds a byte offset. -/
def Line.at (text : String) (offset : UInt32) : Line :=
  Line.find 1 text.toList offset.toNat

end LetLang
