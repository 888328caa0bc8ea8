import LetLang.Parse.Session
import LetLang.Proofs.Seam
import LetLang.Proofs.Shift

/-!
A semicolon is a barrier. Tokens that end with a semicolon are read without a look at what stands
behind it: no reader moves past that semicolon, whether it succeeds or fails, and the round that
reaches it ends on it. The run of a longer sequence of tokens is therefore the run up to the
semicolon and then the run of the rest.
-/

set_option autoImplicit false

namespace LetLang

namespace Window

def followedBy (window later : Window) : Window where
  pending := window.pending ++ later.pending
  stop := later.stop

/-- A window whose last token is a semicolon. -/
def Barred (window : Window) : Prop :=
  ∃ mark ∈ window.pending.getLast?, mark.kind = .semicolon

/-- A window whose last token is a semicolon, which is not the current token. -/
def Before (window : Window) : Prop :=
  window.advance.Barred

namespace Barred

variable {window : Window} (barred : window.Barred)

include barred

theorem pending_ne_nil : window.pending ≠ [] := by
  intro empty
  obtain ⟨mark, last, _⟩ := barred
  simp [empty] at last

theorem current_followedBy (later : Window) :
    (window.followedBy later).current = window.current := by
  cases pending : window.pending with
  | nil => exact (barred.pending_ne_nil pending).elim
  | cons first rest => simp [current, followedBy, pending]

theorem advance_followedBy (later : Window) :
    (window.followedBy later).advance = window.advance.followedBy later := by
  simp [advance, followedBy, List.tail_append_of_ne_nil barred.pending_ne_nil]

/-- Only the semicolon at the end has nothing behind it. -/
theorem advance_cases : window.advance.pending = [] ∨ window.Before := by
  obtain ⟨mark, last, kind⟩ := barred
  cases pending : window.pending with
  | nil => simp [advance, pending]
  | cons first rest =>
      cases rest with
      | nil => simp [advance, pending]
      | cons second rest =>
          right
          refine ⟨mark, ?_, kind⟩
          simpa [advance, pending] using last

theorem before (apart : window.current.kind ≠ .semicolon) : window.Before := by
  rcases barred.advance_cases with last | before
  · obtain ⟨mark, is_last, kind⟩ := barred
    have only := window.pending_eq_cons (by rintro empty; simp [empty] at is_last)
    rw [only, last] at is_last
    have same : window.current = mark := by simpa using is_last
    exact (apart (same ▸ kind)).elim
  · exact before

theorem skipToSemicolon : window.skipToSemicolon.Barred := by
  obtain ⟨mark, last, kind⟩ := barred
  refine ⟨mark, ?_, kind⟩
  obtain ⟨front, pending⟩ := List.getLast?_eq_some_iff.mp last
  simp only [Window.skipToSemicolon, pending, List.dropWhile_append]
  split <;> simp [kind]

theorem skipToSemicolon_followedBy (later : Window) :
    (window.followedBy later).skipToSemicolon = window.skipToSemicolon.followedBy later := by
  have found : window.pending.dropWhile (fun token => !token.is .semicolon) ≠ [] :=
    barred.skipToSemicolon.pending_ne_nil
  simp [Window.skipToSemicolon, followedBy, List.dropWhile_append, found]

end Barred

theorem Before.barred {window : Window} (before : window.Before) : window.Barred := by
  obtain ⟨mark, last, kind⟩ := before
  refine ⟨mark, ?_, kind⟩
  cases pending : window.pending with
  | nil => simp [advance, pending] at last
  | cons first rest =>
      have later : rest.getLast? = some mark := by simpa [advance, pending] using last
      simp [List.getLast?_cons, later]

theorem Before.next_followedBy {window : Window} (before : window.Before) (later : Window) :
    (window.followedBy later).next = window.next := by
  rw [← current_advance, before.barred.advance_followedBy, Barred.current_followedBy before]
  rfl

end Window

namespace Outcome

variable {α β : Type}

/-- An outcome, and the same outcome with more tokens behind the window that it leaves. A success
leaves a window of a given sort, and a failure one whose last token is still the semicolon. -/
inductive Carries (ended : Window → Prop) (later : Window) : Outcome α → Outcome α → Prop where
  | done (value : α) {rest : Window} (stays : ended rest) :
      Carries ended later (.done value rest) (.done value (rest.followedBy later))
  | failed (diagnostic : Diagnostic) {rest : Window} (stays : rest.Barred) :
      Carries ended later (.failed diagnostic rest) (.failed diagnostic (rest.followedBy later))
  | unfinished : Carries ended later .unfinished .unfinished

namespace Carries

variable {ended ended' : Window → Prop} {later : Window} {outcome outcome' : Outcome α}

theorem bind {goes : α → Window → Outcome β} (carries : Carries ended later outcome outcome')
    (goes_on : ∀ value rest, ended rest →
      Carries ended' later (goes value rest) (goes value (rest.followedBy later))) :
    Carries ended' later (outcome.bind goes) (outcome'.bind goes) := by
  cases carries with
  | done value stays => exact goes_on value _ stays
  | failed diagnostic stays => exact .failed diagnostic stays
  | unfinished => exact .unfinished

theorem map (f : α → β) (carries : Carries ended later outcome outcome') :
    Carries ended later (outcome.map f) (outcome'.map f) :=
  carries.bind fun value _ stays => .done (f value) stays

end Carries

end Outcome

/-- A grammar in which neither the end token nor a semicolon starts anything. -/
structure Grammar.Bars (grammar : Grammar) : Prop where
  eof : grammar.operand? .eof = none
  operand : grammar.operand? .semicolon = none
  form : grammar.form? .semicolon = none

theorem Grammar.standard_bars : standard.Bars := ⟨rfl, rfl, rfl⟩

namespace Parse

open Outcome Window

variable {grammar : Grammar} (later : Window)

theorem binaryWith_carries {reader : ExprReader}
    (sub : ∀ floor window, window.Barred →
      Carries Before later (reader floor window) (reader floor (window.followedBy later)))
    (left : Expr) {window : Window} (before : window.Before) :
    Carries Before later (binaryWith grammar reader left window)
      (binaryWith grammar reader left (window.followedBy later)) := by
  have barred := before.barred
  simp only [binaryWith, barred.current_followedBy, barred.advance_followedBy]
  exact (sub _ _ before).map _

theorem binding_carries {window : Window} (before : window.Before) :
    Carries Barred later (binding window) (binding (window.followedBy later)) := by
  have barred := before.barred
  have next := before.next_followedBy later
  by_cases named : window.next.kind = .ident
  · have ahead : window.advance.Before :=
      Barred.before before (by rw [current_advance, named]; decide)
    have behind := ahead.next_followedBy later
    by_cases assigned : window.advance.next.kind = .assign
    · have skipped := Barred.skipToSemicolon ahead
      simp only [binding, expect, next, named, behind, assigned, ↓reduceIte,
        barred.current_followedBy, barred.advance_followedBy, Barred.current_followedBy before,
        Barred.advance_followedBy before, Barred.skipToSemicolon_followedBy ahead]
      exact .done _ skipped
    · simp only [binding, expect, next, named, behind, assigned, ↓reduceIte,
        barred.advance_followedBy]
      exact .failed _ before
  · simp only [binding, expect, next, named, ↓reduceIte]
    exact .failed _ barred

theorem returning_carries {window : Window} (before : window.Before) :
    Carries Barred later (returning window) (returning (window.followedBy later)) := by
  have barred := before.barred
  simp only [returning, barred.current_followedBy, barred.advance_followedBy,
    Barred.skipToSemicolon_followedBy before]
  exact .done _ (Barred.skipToSemicolon before)

section Bars

variable (bars : grammar.Bars)

include bars

theorem kind_ne_semicolon_of_operand {kind : Kind} {operand : Operand}
    (starts : grammar.operand? kind = some operand) : kind ≠ .semicolon := by
  rintro rfl
  simp [bars.operand] at starts

theorem operandWith_carries {reader : ExprReader}
    (sub : ∀ floor window, window.Barred →
      Carries Before later (reader floor window) (reader floor (window.followedBy later)))
    {window : Window} (barred : window.Barred) :
    Carries Before later (operandWith grammar reader window)
      (operandWith grammar reader (window.followedBy later)) := by
  have current := barred.current_followedBy later
  cases starts : grammar.operand? window.current.kind with
  | none =>
      simp only [operandWith, current, starts]
      exact .failed _ barred
  | some operand =>
      have before := barred.before (kind_ne_semicolon_of_operand bars starts)
      simp only [operandWith, current, starts]
      cases operand with
      | name =>
          simp only [name, current]
          exact .done _ before
      | integer =>
          simp only [integer, current]
          split
          · exact .done _ before
          · exact .failed _ barred
      | operator =>
          simp only [unaryWith, current, barred.advance_followedBy]
          exact (sub _ _ before).map _

/-- Neither reader of expressions moves onto the semicolon at the end. -/
theorem within_carries (steps : Nat) :
    (∀ floor window, window.Barred →
        Carries Before later (exprWithin grammar steps floor window)
          (exprWithin grammar steps floor (window.followedBy later))) ∧
      ∀ floor left window, window.Before →
        Carries Before later (extendWithin grammar steps floor left window)
          (extendWithin grammar steps floor left (window.followedBy later)) := by
  induction steps with
  | zero => exact ⟨fun _ _ _ => .unfinished, fun _ _ _ _ => .unfinished⟩
  | succ steps ih =>
      constructor
      · intro floor window barred
        rw [exprWithin, exprWithin]
        exact (operandWith_carries later bars ih.1 barred).bind (ih.2 floor)
      · intro floor left window before
        have same : continues grammar floor (window.followedBy later) =
            continues grammar floor window := by
          rw [continues, continues, before.next_followedBy]
        rw [extendWithin, extendWithin, same, before.barred.advance_followedBy]
        split
        · rename_i goes_on
          -- The operator is no semicolon, so the semicolon at the end is still behind it.
          have apart := ((continues_iff grammar floor window).mp goes_on).1
          have behind : window.advance.Before := Barred.before before apart
          exact (binaryWith_carries later ih.1 left behind).bind (ih.2 floor)
        · exact .done left before

theorem expr_carries (floor : Precedence) {window : Window} (ends : window.stop.kind = .eof)
    (barred : window.Barred) :
    Carries Before later (expr grammar floor window)
      (expr grammar floor (window.followedBy later)) := by
  have carries :=
    (within_carries later bars (budget (window.followedBy later))).1 floor window barred
  have enough : budget window ≤ budget (window.followedBy later) := by
    simp [budget, followedBy]
  rw [exprWithin_eq_expr bars.eof _ floor window ends enough] at carries
  exact carries

theorem exprStmt_carries {window : Window} (ends : window.stop.kind = .eof)
    (barred : window.Barred) :
    Carries Barred later (exprStmt grammar window)
      (exprStmt grammar (window.followedBy later)) := by
  simp only [exprStmt, barred.current_followedBy]
  apply (expr_carries later bars .lowest ends barred).bind
  intro value rest before
  simp only [closeStmt, before.next_followedBy, before.barred.advance_followedBy]
  split
  · exact .done _ before
  · exact .done _ before.barred

/-- Reading a statement stays in front of the semicolon at the end, or ends on it. -/
theorem stmt_carries {window : Window} (ends : window.stop.kind = .eof)
    (barred : window.Barred) :
    Carries Barred later (stmt grammar window) (stmt grammar (window.followedBy later)) := by
  rw [stmt, stmt, barred.current_followedBy]
  cases form : grammar.form? window.current.kind with
  | none => exact exprStmt_carries later bars ends barred
  | some form' =>
      have before : window.Before := by
        apply barred.before
        intro mark
        simp [mark, bars.form] at form
      cases form' with
      | binding => exact binding_carries later before
      | returning => exact returning_carries later before
      | expression => exact exprStmt_carries later bars ends barred

/-- Up to a semicolon at the end, a run does not depend on what follows, and then it is the run of
what follows. -/
theorem runs_followedBy {window : Window} {result after : Run} (runs : Runs grammar window result)
    (ends : window.stop.kind = .eof) (barred : window.pending = [] ∨ window.Barred)
    (goes_on : Runs grammar later after) :
    Runs grammar (window.followedBy later)
      (after.behind result.statements result.diagnostics) := by
  induction runs with
  | @ended window empty =>
      have same : window.followedBy later = later := by simp [followedBy, empty]
      rw [same]
      exact goes_on
  | @read window rest value tail some_token done _ ih =>
      have barred := barred.resolve_left some_token
      have carries := stmt_carries later bars ends barred
      have follows := stmt_done_follows done
      rw [done] at carries
      generalize done' : stmt grammar (window.followedBy later) = outcome at carries
      cases carries with
      | done _ stays =>
          have tail_runs := ih (by rw [stop_advance, follows.stop_eq, ends]) stays.advance_cases
          rw [← stays.advance_followedBy] at tail_runs
          exact .read (by simp [followedBy, some_token]) done' tail_runs
  | @failed window rest diagnostic tail some_token fails _ ih =>
      have barred := barred.resolve_left some_token
      have carries := stmt_carries later bars ends barred
      have follows := stmt_failed_follows fails
      rw [fails] at carries
      generalize fails' : stmt grammar (window.followedBy later) = outcome at carries
      cases carries with
      | failed _ stays =>
          have tail_runs := ih
            (by rw [stop_advance, stop_skipToSemicolon, follows.stop_eq, ends])
            stays.skipToSemicolon.advance_cases
          rw [← stays.skipToSemicolon.advance_followedBy, ← stays.skipToSemicolon_followedBy]
            at tail_runs
          exact .failed (by simp [followedBy, some_token]) fails' tail_runs

end Bars

/-- A text up to a semicolon, and with more text behind it: the tokens of that text follow, as many
bytes further on as stand before them. -/
theorem start_semicolon (source front back : String) :
    (start source (front ++ ";")).Barred ∧
      start source (front ++ ";" ++ back) =
        (start source (front ++ ";")).followedBy
          ((start source back).shift (front.utf8ByteSize + 1)) := by
  let cursor := Cursor.ofText source front
  have short : Cursor.ofText source (front ++ ";") = cursor.followedBy [';'] := by
    simp [cursor, Cursor.ofText, Cursor.followedBy]
  have long : Cursor.ofText source (front ++ ";" ++ back) =
      cursor.followedBy (';' :: back.toList) := by
    simp [cursor, Cursor.ofText, Cursor.followedBy]
  have behind : (cursor.followedBy [';']).past back.toList =
      (Cursor.ofText source back).shift (front.utf8ByteSize + 1) := by
    have one : Text.size [';'] = 1 := rfl
    simp only [cursor, Cursor.ofText, Cursor.followedBy, Cursor.past, Cursor.shift,
      Text.size_append, Text.size_toList, one]
  obtain ⟨short_tokens, _⟩ := cursor.drain_semicolon []
  obtain ⟨long_tokens, long_finish⟩ := cursor.drain_semicolon back.toList
  have nothing : ((cursor.followedBy [';']).past []).tokens = [] :=
    Cursor.tokens_of_rest_eq_nil rfl
  rw [nothing] at short_tokens
  constructor
  · refine ⟨cursor.semicolon, ?_, rfl⟩
    simp [start, ofCursor, short, short_tokens]
  · rw [start, start, start, ← ofCursor_shift, ← behind, long, short, ofCursor, long_tokens,
      long_finish]
    simp [ofCursor, followedBy, short_tokens]

/-- The run of a text with a semicolon in it is the run up to the semicolon and then the run of
what stands behind, as many bytes further on. -/
theorem runText_semicolon (source front back : String) :
    (runText source (front ++ ";" ++ back)).statements =
        (runText source (front ++ ";")).statements ++
          (runText source back).statements.map (Stmt.shift (front.utf8ByteSize + 1)) ∧
      (runText source (front ++ ";" ++ back)).diagnostics =
        (runText source (front ++ ";")).diagnostics ++
          (runText source back).diagnostics.map (Diagnostic.shift (front.utf8ByteSize + 1)) := by
  obtain ⟨barred, whole⟩ := start_semicolon source front back
  obtain ⟨shifted, behind, statements, diagnostics⟩ :=
    runs_shift (front.utf8ByteSize + 1) (runs_start source back)
  have joined := runs_followedBy _ Grammar.standard_bars (runs_start source (front ++ ";")) rfl
    (.inr barred) behind
  rw [← whole] at joined
  have same := (runs_start source (front ++ ";" ++ back)).unique joined
  rw [same, ← statements, ← diagnostics]
  exact ⟨rfl, rfl⟩

end Parse

namespace Parser

theorem program_ofText (source text : String) :
    (ofCursor (.ofText source text)).program =
      some (⟨(Parse.runText source text).statements⟩,
        ⟨.standard, (Parse.runText source text).rest, (Parse.runText source text).diagnostics⟩) := by
  have ran : Parse.run .standard (.ofCursor (.ofText source text)) =
      some (Parse.runText source text) := Parse.run_start source text
  simp [program, ofCursor, ran]

/-- A semicolon is a barrier: what is read and reported up to it depends on nothing behind it, and
what is read and reported behind it depends on nothing before it but the number of bytes. -/
theorem program_semicolon (source front back : String) :
    ∃ before behind whole : Program × Parser,
      (ofCursor (.ofText source (front ++ ";"))).program = some before ∧
      (ofCursor (.ofText source back)).program = some behind ∧
      (ofCursor (.ofText source (front ++ ";" ++ back))).program = some whole ∧
      whole.1.statements = before.1.statements ++
        behind.1.statements.map (Stmt.shift (front.utf8ByteSize + 1)) ∧
      whole.2.diagnostics = before.2.diagnostics ++
        behind.2.diagnostics.map (Diagnostic.shift (front.utf8ByteSize + 1)) :=
  ⟨_, _, _, program_ofText _ _, program_ofText _ _, program_ofText _ _,
    Parse.runText_semicolon source front back⟩

end Parser

end LetLang
