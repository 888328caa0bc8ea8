import LetLang.Token.Cursor

set_option autoImplicit false

namespace LetLang

/-- A cursor and a place to come back to. -/
structure Reader where
  cursor : Cursor
  bookmark : Cursor
deriving DecidableEq, Repr

namespace Reader

inductive Request where
  /-- Draw a token, which at the end is the end token. -/
  | draw
  /-- Draw a token, if the end is not reached. -/
  | draw?
  /-- Put the bookmark here. -/
  | save
  /-- Go back to the bookmark. -/
  | restore
  /-- Count the tokens ahead. -/
  | count
  /-- Draw all tokens ahead. -/
  | drain
deriving DecidableEq, Repr

inductive Reply where
  | token (token : Token)
  | ended
  | saved
  | restored
  | count (number : Nat)
  | tokens (tokens : List Token)
deriving DecidableEq, Repr

/-- A reader at the start of a named text, with its bookmark there. -/
def ofText (source text : String) : Reader :=
  ⟨.ofText source text, .ofText source text⟩

def answer (reader : Reader) : Request → Reply × Reader
  | .draw =>
      let (token, after) := reader.cursor.next
      (.token token, ⟨after, reader.bookmark⟩)
  | .draw? =>
      match reader.cursor.next? with
      | some (token, after) => (.token token, ⟨after, reader.bookmark⟩)
      | none => (.ended, ⟨reader.cursor.skipGap, reader.bookmark⟩)
  | .save => (.saved, ⟨reader.cursor, reader.cursor⟩)
  | .restore => (.restored, ⟨reader.bookmark, reader.bookmark⟩)
  | .count => (.count reader.cursor.tokens.length, reader)
  | .drain => (.tokens reader.cursor.tokens, ⟨reader.cursor.finish, reader.bookmark⟩)

def answers (reader : Reader) : List Request → List Reply × Reader
  | [] => ([], reader)
  | request :: rest =>
      let (reply, after) := reader.answer request
      let (replies, last) := after.answers rest
      (reply :: replies, last)

end Reader

end LetLang
