import LetLang.Diagnostic
import LetLang.Source.Line
import LetLang.Text.Blank

set_option autoImplicit false

namespace LetLang.Diagnostic

/-- The largest width of a caret line, dashes and caret together. -/
def caretLimit : Nat := 65535

def indentation (line : List Char) : List Char :=
  line.takeWhile Text.isIndent

/-- The text of a line as it is shown: without indentation and without blanks at its end. -/
def shownText (line : List Char) : List Char :=
  Text.trimEnd (line.dropWhile Text.isIndent)

/-- The number of dashes in front of the caret. It counts the bytes between the indentation and
the place, and none for a place within the indentation. -/
def dashes (line : Line) : Nat :=
  line.column - (indentation line.text.toList).length

def repeated (count : Nat) (c : Char) : String :=
  String.ofList (List.replicate count c)

def reportAt (diagnostic : Diagnostic) (line : Line) : String :=
  let number := Nat.repr line.number
  let margin := repeated (number.length + 1) ' ' ++ "|"
  "Error: " ++ diagnostic.fault.label ++ " (" ++ diagnostic.fault.tip ++ ")\n" ++
    "-> " ++ diagnostic.position.source ++ "\n" ++
    margin ++ "\n" ++
    number ++ " | " ++ String.ofList (shownText line.text.toList) ++ "\n" ++
    margin ++ " " ++ repeated (dashes line) '-' ++ "^"

/-- The report of a diagnostic against the text of its source, unless the caret line would be too
wide. -/
def report? (diagnostic : Diagnostic) (text : String) : Option String :=
  let line := Line.at text diagnostic.position.offset
  if dashes line + 1 ≤ caretLimit then some (diagnostic.reportAt line) else none

end LetLang.Diagnostic
