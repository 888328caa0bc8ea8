import LetLang.Diagnostic
import LetLang.Token.Cursor

set_option autoImplicit false

namespace LetLang

/-- A place in a sequence of tokens, with the end token behind them as often as it is looked at. -/
structure Window where
  /-- The tokens from the current one on, without the end token. -/
  pending : List Token
  /-- The end token. -/
  stop : Token
deriving DecidableEq, Repr

namespace Window

def ofCursor (cursor : Cursor) : Window :=
  ⟨cursor.tokens, cursor.finish.endToken⟩

def current (window : Window) : Token :=
  window.pending.headD window.stop

def next (window : Window) : Token :=
  window.pending.tail.headD window.stop

/-- Moves on by one token, but never past the end. -/
def advance (window : Window) : Window where
  pending := window.pending.tail
  stop := window.stop

/-- Moves on to the first semicolon from the current token on, or to the end. -/
def skipToSemicolon (window : Window) : Window where
  pending := window.pending.dropWhile fun token => !token.is .semicolon
  stop := window.stop

def expect (window : Window) (kind : Kind) : Except Diagnostic Window :=
  if window.next.kind = kind then .ok window.advance
  else .error ⟨.unexpected kind window.next.kind, window.next.start⟩

@[simp] theorem pending_advance (window : Window) :
    window.advance.pending = window.pending.tail := rfl

@[simp] theorem stop_advance (window : Window) : window.advance.stop = window.stop := rfl

@[simp] theorem stop_skipToSemicolon (window : Window) :
    window.skipToSemicolon.stop = window.stop := rfl

theorem current_advance (window : Window) : window.advance.current = window.next := rfl

/-- A window that is not at the end has its current token in front. -/
theorem pending_eq_cons {window : Window} (some_token : window.pending ≠ []) :
    window.pending = window.current :: window.advance.pending := by
  cases pending : window.pending with
  | nil => contradiction
  | cons first rest => simp [current, advance, pending]

theorem pending_eq_cons_cons {window : Window} (ends : window.stop.kind = .eof)
    (inside : window.next.kind ≠ .eof) :
    window.pending = window.current :: window.next :: window.advance.advance.pending := by
  cases pending : window.pending with
  | nil => simp [next, pending, ends] at inside
  | cons first rest =>
      cases rest with
      | nil => simp [next, pending, ends] at inside
      | cons second rest => simp [current, next, advance, pending]

theorem next_eq_of_mem_head? {window : Window} {token : Token}
    (head : token ∈ window.advance.pending.head?) : window.next = token := by
  rw [Option.mem_def, pending_advance] at head
  simp [next, head]

theorem skipToSemicolon_of_ne {window : Window} (apart : window.current.kind ≠ .semicolon) :
    window.skipToSemicolon = window.advance.skipToSemicolon := by
  cases pending : window.pending with
  | nil => simp [skipToSemicolon, advance, pending]
  | cons first rest =>
      have first_apart : first.kind ≠ .semicolon := by simpa [current, pending] using apart
      simp [skipToSemicolon, advance, pending, first_apart]

theorem expect_eq_ok_iff (window after : Window) (kind : Kind) :
    window.expect kind = .ok after ↔ window.next.kind = kind ∧ after = window.advance := by
  unfold expect
  split
  · rename_i same
    simp [same, eq_comm]
  · rename_i apart
    simp [apart]

theorem expect_eq_error_iff (window : Window) (kind : Kind) (diagnostic : Diagnostic) :
    window.expect kind = .error diagnostic ↔
      window.next.kind ≠ kind ∧
        diagnostic = ⟨.unexpected kind window.next.kind, window.next.start⟩ := by
  unfold expect
  split
  · rename_i same
    simp [same]
  · rename_i apart
    simp [apart, eq_comm]

theorem length_skipToSemicolon_le (window : Window) :
    window.skipToSemicolon.pending.length ≤ window.pending.length :=
  (List.dropWhile_sublist _).length_le

end Window

end LetLang
