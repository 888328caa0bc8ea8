import LetLang.Text.Blank
import LetLang.Text.Size
import LetLang.Token
import LetLang.Token.Lexeme

set_option autoImplicit false

namespace LetLang

/-- A place in a source, with the text that is still to be read. -/
structure Cursor where
  /-- The name of the source. -/
  source : String
  /-- The number of bytes already read. -/
  offset : Nat
  /-- The text ahead. -/
  rest : List Char
deriving DecidableEq, Repr

namespace Cursor

def ofText (source text : String) : Cursor :=
  ⟨source, 0, text.toList⟩

def skipGap (cursor : Cursor) : Cursor where
  source := cursor.source
  offset := cursor.offset + Text.size (cursor.rest.takeWhile Text.isGap)
  rest := cursor.rest.dropWhile Text.isGap

def endToken (cursor : Cursor) : Token :=
  let place := Position.at cursor.source cursor.offset
  ⟨.eof, "", ⟨place, place⟩⟩

def token (cursor : Cursor) (lexeme : Lexeme) : Token where
  kind := lexeme.kind
  literal := String.ofList lexeme.text
  span :=
    ⟨Position.at cursor.source cursor.offset,
      Position.at cursor.source (cursor.offset + Text.size lexeme.text)⟩

def behind (cursor : Cursor) (lexeme : Lexeme) : Cursor where
  source := cursor.source
  offset := cursor.offset + Text.size lexeme.text
  rest := lexeme.rest

/-- Draws the next token, if the end is not reached. -/
def next? (cursor : Cursor) : Option (Token × Cursor) :=
  let ahead := cursor.skipGap
  match ahead.rest with
  | [] => none
  | first :: rest =>
      let lexeme := Lexeme.read first rest
      some (ahead.token lexeme, ahead.behind lexeme)

/-- Draws the next token, which at the end is the end token. -/
def next (cursor : Cursor) : Token × Cursor :=
  cursor.next?.getD (cursor.skipGap.endToken, cursor.skipGap)

/-- The cursor after some draws. -/
def drop : Nat → Cursor → Cursor
  | 0, cursor => cursor
  | count + 1, cursor => drop count cursor.next.2

theorem length_rest_skipGap_le (cursor : Cursor) :
    cursor.skipGap.rest.length ≤ cursor.rest.length :=
  (List.dropWhile_sublist Text.isGap).length_le

theorem next?_eq_none_iff (cursor : Cursor) : cursor.next? = none ↔ cursor.skipGap.rest = [] := by
  unfold next?
  cases ahead : cursor.skipGap.rest <;> simp [ahead]

/-- The token that is drawn is the lexeme behind the gap. -/
theorem next?_eq_some_iff (cursor : Cursor) (token : Token) (after : Cursor) :
    cursor.next? = some (token, after) ↔
      ∃ first rest, cursor.skipGap.rest = first :: rest ∧
        token = cursor.skipGap.token (.read first rest) ∧
        after = cursor.skipGap.behind (.read first rest) := by
  unfold next?
  cases ahead : cursor.skipGap.rest with
  | nil => simp [ahead]
  | cons first rest =>
      simp only [ahead, Option.some.injEq, Prod.mk.injEq, List.cons.injEq]
      constructor
      · rintro ⟨rfl, rfl⟩
        exact ⟨first, rest, ⟨rfl, rfl⟩, rfl, rfl⟩
      · rintro ⟨_, _, ⟨rfl, rfl⟩, rfl, rfl⟩
        exact ⟨rfl, rfl⟩

theorem length_rest_lt_of_next? {cursor after : Cursor} {token : Token}
    (drawn : cursor.next? = some (token, after)) : after.rest.length < cursor.rest.length := by
  have shorter := cursor.length_rest_skipGap_le
  obtain ⟨first, rest, ahead, _, rfl⟩ := (cursor.next?_eq_some_iff token after).mp drawn
  have read := Lexeme.read_rest_length_lt first rest
  rw [← ahead] at read
  exact Nat.lt_of_lt_of_le read shorter

/-- What holds of a cursor at the end, and of every cursor if it holds behind the token that is
drawn next, holds of all cursors. -/
@[elab_as_elim]
theorem induction {motive : Cursor → Prop} (ended : ∀ cursor, cursor.next? = none → motive cursor)
    (drawn : ∀ cursor token after, cursor.next? = some (token, after) → motive after →
      motive cursor) (cursor : Cursor) : motive cursor := by
  cases step : cursor.next? with
  | none => exact ended cursor step
  | some pair => exact drawn cursor pair.1 pair.2 step (induction ended drawn pair.2)
termination_by cursor.rest.length
decreasing_by exact length_rest_lt_of_next? step

/-- Draws every token ahead of a cursor. The tokens come behind those already drawn, which are
given last first, and with the cursor that is left at the end. -/
def drainAfter (drawn : List Token) (cursor : Cursor) : List Token × Cursor :=
  match _step : cursor.next? with
  | none => (drawn.reverse, cursor.skipGap)
  | some (token, after) => drainAfter (token :: drawn) after
termination_by cursor.rest.length
decreasing_by exact length_rest_lt_of_next? _step

/-- The tokens ahead of a cursor, without the end token. -/
def tokens (cursor : Cursor) : List Token :=
  (cursor.drainAfter []).1

/-- The cursor that has drawn every token. -/
def finish (cursor : Cursor) : Cursor :=
  (cursor.drainAfter []).2

/-- The tokens ahead of a cursor, the end token included. -/
def allTokens (cursor : Cursor) : List Token :=
  cursor.tokens ++ [cursor.finish.endToken]

theorem drainAfter_of_none {cursor : Cursor} (drawn : List Token) (ended : cursor.next? = none) :
    cursor.drainAfter drawn = (drawn.reverse, cursor.skipGap) := by
  rw [drainAfter]
  split
  · rfl
  · simp_all

theorem drainAfter_of_some {cursor after : Cursor} {token : Token} (drawn : List Token)
    (step : cursor.next? = some (token, after)) :
    cursor.drainAfter drawn = after.drainAfter (token :: drawn) := by
  rw [drainAfter]
  split
  · simp_all
  · simp_all

/-- Tokens drawn earlier stand in front and change nothing else. -/
theorem drainAfter_eq (drawn : List Token) (cursor : Cursor) :
    cursor.drainAfter drawn = (drawn.reverse ++ cursor.tokens, cursor.finish) := by
  unfold tokens finish
  cases step : cursor.next? with
  | none => simp [drainAfter_of_none _ step]
  | some pair =>
      obtain ⟨token, after⟩ := pair
      rw [drainAfter_of_some _ step, drainAfter_of_some _ step, drainAfter_eq (token :: drawn),
        drainAfter_eq [token]]
      simp
termination_by cursor.rest.length
decreasing_by all_goals exact length_rest_lt_of_next? step

theorem tokens_of_none {cursor : Cursor} (ended : cursor.next? = none) : cursor.tokens = [] := by
  simp [tokens, drainAfter_of_none _ ended]

theorem finish_of_none {cursor : Cursor} (ended : cursor.next? = none) :
    cursor.finish = cursor.skipGap := by
  simp [finish, drainAfter_of_none _ ended]

/-- The token that is drawn next comes first. -/
theorem tokens_of_some {cursor after : Cursor} {token : Token}
    (step : cursor.next? = some (token, after)) : cursor.tokens = token :: after.tokens := by
  rw [tokens, drainAfter_of_some _ step, drainAfter_eq]
  simp

theorem finish_of_some {cursor after : Cursor} {token : Token}
    (step : cursor.next? = some (token, after)) : cursor.finish = after.finish := by
  rw [finish, drainAfter_of_some _ step, drainAfter_eq]

end Cursor

/-- The tokens of a named text, the end token included. -/
def tokenize (source text : String) : List Token :=
  (Cursor.ofText source text).allTokens

end LetLang
