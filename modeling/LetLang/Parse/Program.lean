import LetLang.Parse.Progress

set_option autoImplicit false

namespace LetLang.Parse

/-- What reading a whole program gives: the statements that were read, the diagnostics of those
that failed, and the window at the end. -/
structure Run where
  statements : List Stmt
  diagnostics : List Diagnostic
  rest : Window
deriving DecidableEq, Repr

/-- Reads statements up to the end in a number of rounds. The statements and diagnostics so far
are given last first. There is no run if a statement does not come to an end. -/
def runWithin (grammar : Grammar) :
    Nat → List Stmt → List Diagnostic → Window → Option Run
  | rounds, statements, diagnostics, window =>
      if window.pending.isEmpty then
        some ⟨statements.reverse, diagnostics.reverse, window⟩
      else
        match rounds with
        | 0 => none
        | fewer + 1 =>
            match stmt grammar window with
            | .done value rest =>
                runWithin grammar fewer (value :: statements) diagnostics rest.advance
            | .failed diagnostic rest =>
                runWithin grammar fewer statements (diagnostic :: diagnostics)
                  rest.skipToSemicolon.advance
            | .unfinished => none

def run (grammar : Grammar) (window : Window) : Option Run :=
  runWithin grammar window.pending.length [] [] window

/-- With as many rounds as tokens there is a run, if the end token cannot start an expression. -/
theorem runWithin_isSome (grammar : Grammar) (closed : grammar.operand? .eof = none)
    (rounds : Nat) (statements : List Stmt) (diagnostics : List Diagnostic) (window : Window)
    (ends : window.stop.kind = .eof) (enough : window.pending.length ≤ rounds) :
    (runWithin grammar rounds statements diagnostics window).isSome = true := by
  induction rounds generalizing statements diagnostics window with
  | zero =>
      have empty : window.pending = [] := List.eq_nil_of_length_eq_zero (by omega)
      simp [runWithin, empty]
  | succ rounds ih =>
      have finished := stmt_ne_unfinished grammar closed window ends
      rw [runWithin]
      split
      · rfl
      · cases outcome : stmt grammar window with
        | done value rest =>
            have follows := stmt_done_follows outcome
            have shorter := follows.length_le
            apply ih
            · simp [follows.stop_eq, ends]
            · simp only [Window.pending_advance, List.length_tail]
              omega
        | failed diagnostic rest =>
            have follows := stmt_failed_follows outcome
            have shorter := follows.length_le
            have skipped := rest.length_skipToSemicolon_le
            apply ih
            · simp [follows.stop_eq, ends]
            · simp only [Window.pending_advance, List.length_tail]
              omega
        | unfinished => exact (finished outcome).elim

/-- The standard grammar has a run on every window. -/
theorem run_standard_isSome (window : Window) (ends : window.stop.kind = .eof) :
    (run .standard window).isSome = true :=
  runWithin_isSome .standard rfl _ [] [] window ends (Nat.le_refl _)

def start (source text : String) : Window :=
  .ofCursor (.ofText source text)

def runText (source text : String) : Run :=
  (run .standard (start source text)).get (run_standard_isSome _ rfl)

end LetLang.Parse

namespace LetLang

/-- Parses a named text. The result is its program, or all its diagnostics if there are any. -/
def parse (source text : String) : Except (List Diagnostic) Program :=
  let run := Parse.runText source text
  if run.diagnostics.isEmpty then .ok ⟨run.statements⟩ else .error run.diagnostics

end LetLang
