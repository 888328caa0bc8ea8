import LetLang.Parse.Stmt

set_option autoImplicit false

namespace LetLang

/-- A window further on, or at the same place, in the same sequence of tokens. -/
structure Window.Follows (later earlier : Window) : Prop where
  stop_eq : later.stop = earlier.stop
  suffix : later.pending <:+ earlier.pending

namespace Window.Follows

theorem refl (window : Window) : window.Follows window :=
  ⟨rfl, List.suffix_refl _⟩

theorem trans {first second third : Window} (front : first.Follows second)
    (back : second.Follows third) : first.Follows third :=
  ⟨front.stop_eq.trans back.stop_eq, front.suffix.trans back.suffix⟩

theorem advance (window : Window) : window.advance.Follows window :=
  ⟨rfl, List.tail_suffix _⟩

theorem skipToSemicolon (window : Window) : window.skipToSemicolon.Follows window :=
  ⟨rfl, List.dropWhile_suffix _⟩

theorem length_le {later earlier : Window} (follows : later.Follows earlier) :
    later.pending.length ≤ earlier.pending.length :=
  follows.suffix.length_le

end Window.Follows

namespace Outcome

variable {α β : Type}

/-- The window that an outcome leaves, if it leaves one, follows the given window. -/
def LeavesAfter (outcome : Outcome α) (window : Window) : Prop :=
  match outcome with
  | .done _ rest => rest.Follows window
  | .failed _ rest => rest.Follows window
  | .unfinished => True

theorem LeavesAfter.trans {outcome : Outcome α} {later earlier : Window}
    (leaves : outcome.LeavesAfter later) (follows : later.Follows earlier) :
    outcome.LeavesAfter earlier := by
  cases outcome with
  | done value rest => exact Window.Follows.trans leaves follows
  | failed diagnostic rest => exact Window.Follows.trans leaves follows
  | unfinished => trivial

theorem LeavesAfter.bind {outcome : Outcome α} {window : Window}
    {continuation : α → Window → Outcome β} (leaves : outcome.LeavesAfter window)
    (goes : ∀ value rest, (continuation value rest).LeavesAfter rest) :
    (outcome.bind continuation).LeavesAfter window := by
  cases outcome with
  | done value rest => exact (goes value rest).trans leaves
  | failed diagnostic rest => exact leaves
  | unfinished => trivial

theorem LeavesAfter.map {outcome : Outcome α} {window : Window} (f : α → β)
    (leaves : outcome.LeavesAfter window) : (outcome.map f).LeavesAfter window :=
  leaves.bind fun _ rest => Window.Follows.refl rest

/-- An outcome that is an answer, and that leaves the window on a token when it is a success. -/
def Settled (outcome : Outcome α) : Prop :=
  match outcome with
  | .done _ rest => rest.pending ≠ []
  | .failed _ _ => True
  | .unfinished => False

theorem Settled.map {outcome : Outcome α} (f : α → β) (settled : outcome.Settled) :
    (outcome.map f).Settled := by
  cases outcome <;> exact settled

end Outcome

namespace Parse

theorem integer_leavesAfter (window : Window) : (integer window).LeavesAfter window := by
  unfold integer
  split <;> exact Window.Follows.refl window

theorem unaryWith_leavesAfter (expr : ExprReader) (window : Window)
    (sub : ∀ floor later, (expr floor later).LeavesAfter later) :
    (unaryWith expr window).LeavesAfter window :=
  ((sub _ _).trans (Window.Follows.advance window)).map _

theorem binaryWith_leavesAfter (grammar : Grammar) (expr : ExprReader) (left : Expr)
    (window : Window) (sub : ∀ floor later, (expr floor later).LeavesAfter later) :
    (binaryWith grammar expr left window).LeavesAfter window :=
  ((sub _ _).trans (Window.Follows.advance window)).map _

theorem operandWith_leavesAfter (grammar : Grammar) (expr : ExprReader) (window : Window)
    (sub : ∀ floor later, (expr floor later).LeavesAfter later) :
    (operandWith grammar expr window).LeavesAfter window := by
  unfold operandWith
  split
  · exact Window.Follows.refl window
  · exact Window.Follows.refl window
  · exact integer_leavesAfter window
  · exact unaryWith_leavesAfter expr window sub

/-- Both readers leave a window that follows the one they start from. -/
theorem within_leavesAfter (grammar : Grammar) (steps : Nat) :
    (∀ floor window, (exprWithin grammar steps floor window).LeavesAfter window) ∧
      ∀ floor left window, (extendWithin grammar steps floor left window).LeavesAfter window := by
  induction steps with
  | zero => exact ⟨fun _ _ => trivial, fun _ _ _ => trivial⟩
  | succ steps ih =>
      constructor
      · intro floor window
        rw [exprWithin]
        exact (operandWith_leavesAfter grammar _ window ih.1).bind (ih.2 floor)
      · intro floor left window
        rw [extendWithin]
        split
        · exact ((binaryWith_leavesAfter grammar _ left _ ih.1).bind (ih.2 floor)).trans
            (Window.Follows.advance window)
        · exact Window.Follows.refl window

theorem expr_leavesAfter (grammar : Grammar) (floor : Precedence) (window : Window) :
    (expr grammar floor window).LeavesAfter window :=
  (within_leavesAfter grammar _).1 floor window

/-- A window whose current token can start an expression is not at the end. -/
theorem pending_ne_nil_of_operand {grammar : Grammar} {window : Window} {operand : Operand}
    (closed : grammar.operand? .eof = none) (ends : window.stop.kind = .eof)
    (starts : grammar.operand? window.current.kind = some operand) : window.pending ≠ [] := by
  intro empty
  simp [Window.current, empty, ends, closed] at starts

theorem exprWithin_settled_at_end {grammar : Grammar} (window : Window)
    (closed : grammar.operand? .eof = none) (ends : window.stop.kind = .eof)
    (empty : window.pending = []) (steps : Nat) (floor : Precedence) :
    (exprWithin grammar (steps + 1) floor window).Settled := by
  have none_starts : grammar.operand? window.current.kind = none := by
    simp [Window.current, empty, ends, closed]
  rw [exprWithin, operandWith, none_starts]
  trivial

theorem operandWith_settled (grammar : Grammar) (expr : ExprReader) (window : Window)
    (closed : grammar.operand? .eof = none) (ends : window.stop.kind = .eof)
    (sub : window.pending ≠ [] → (expr .unary window.advance).Settled) :
    (operandWith grammar expr window).Settled := by
  unfold operandWith
  split
  · trivial
  · rename_i starts
    exact pending_ne_nil_of_operand closed ends starts
  · rename_i starts
    unfold integer
    split
    · exact pending_ne_nil_of_operand closed ends starts
    · trivial
  · rename_i starts
    exact (sub (pending_ne_nil_of_operand closed ends starts)).map _

/-- With enough steps both readers settle. -/
theorem within_settled (grammar : Grammar) (closed : grammar.operand? .eof = none) (steps : Nat) :
    (∀ floor window, window.stop.kind = .eof → window.pending.length + 2 ≤ steps →
        (exprWithin grammar steps floor window).Settled) ∧
      ∀ floor left window, window.stop.kind = .eof → window.pending ≠ [] →
        window.pending.length + 1 ≤ steps →
        (extendWithin grammar steps floor left window).Settled := by
  induction steps with
  | zero =>
      constructor
      · intro _ _ _ enough
        omega
      · intro _ _ _ _ _ enough
        omega
  | succ steps ih =>
      have extends_on : ∀ (floor : Precedence) (outcome : Outcome Expr) (window : Window),
          window.stop.kind = .eof → window.pending.length + 1 ≤ steps →
          outcome.Settled → outcome.LeavesAfter window →
          (outcome.bind (extendWithin grammar steps floor)).Settled := by
        intro floor outcome window ends enough settled leaves
        cases outcome with
        | done value rest =>
            have follows : rest.Follows window := leaves
            have shorter := follows.length_le
            exact ih.2 floor value rest (by rw [follows.stop_eq, ends]) settled (by omega)
        | failed diagnostic rest => trivial
        | unfinished => exact settled.elim
      constructor
      · intro floor window ends enough
        rw [exprWithin]
        apply extends_on floor _ window ends (by omega)
        · apply operandWith_settled grammar _ window closed ends
          intro some_token
          have size := List.length_pos_iff.mpr some_token
          apply ih.1 _ window.advance ends
          simp only [Window.pending_advance, List.length_tail]
          omega
        · exact operandWith_leavesAfter grammar _ window (within_leavesAfter grammar steps).1
      · intro floor left window ends some_token enough
        have size := List.length_pos_iff.mpr some_token
        rw [extendWithin]
        split
        · have leaves := binaryWith_leavesAfter grammar (exprWithin grammar steps) left
            window.advance (within_leavesAfter grammar steps).1
          apply extends_on floor _ window.advance ends
          · simp only [Window.pending_advance, List.length_tail]
            omega
          · apply Outcome.Settled.map
            by_cases empty : window.advance.advance.pending = []
            · obtain ⟨fewer, rfl⟩ : ∃ fewer, steps = fewer + 1 := ⟨steps - 1, by omega⟩
              exact exprWithin_settled_at_end window.advance.advance closed ends empty fewer _
            · apply ih.1 _ window.advance.advance ends
              have rest_size := List.length_pos_iff.mpr empty
              simp only [Window.pending_advance, List.length_tail] at rest_size ⊢
              omega
          · exact leaves
        · exact some_token

theorem expr_settled (grammar : Grammar) (closed : grammar.operand? .eof = none)
    (floor : Precedence) (window : Window) (ends : window.stop.kind = .eof) :
    (expr grammar floor window).Settled :=
  (within_settled grammar closed _).1 floor window ends (Nat.le_refl _)

theorem expect_follows {window after : Window} {kind : Kind}
    (expected : window.expect kind = .ok after) : after.Follows window := by
  unfold Window.expect at expected
  split at expected
  · cases expected
    exact Window.Follows.advance window
  · cases expected

theorem closeStmt_follows (window : Window) : (closeStmt window).Follows window := by
  unfold closeStmt
  split
  · exact Window.Follows.advance window
  · exact Window.Follows.refl window

theorem binding_leavesAfter (window : Window) : (binding window).LeavesAfter window := by
  unfold binding
  split
  · exact Window.Follows.refl window
  · rename_i named first
    split
    · exact expect_follows first
    · rename_i assigned second
      exact (Window.Follows.skipToSemicolon assigned).trans
        ((expect_follows second).trans (expect_follows first))

theorem returning_leavesAfter (window : Window) : (returning window).LeavesAfter window :=
  (Window.Follows.skipToSemicolon window.advance).trans (Window.Follows.advance window)

theorem exprStmt_leavesAfter (grammar : Grammar) (window : Window) :
    (exprStmt grammar window).LeavesAfter window :=
  (expr_leavesAfter grammar .lowest window).bind fun _ rest => closeStmt_follows rest

/-- Reading a statement leaves a window that follows the one it starts from. -/
theorem stmt_leavesAfter (grammar : Grammar) (window : Window) :
    (stmt grammar window).LeavesAfter window := by
  unfold stmt
  cases (grammar.form? window.current.kind).getD .expression with
  | binding => exact binding_leavesAfter window
  | returning => exact returning_leavesAfter window
  | expression => exact exprStmt_leavesAfter grammar window

theorem stmt_done_follows {grammar : Grammar} {window rest : Window} {value : Stmt}
    (done : stmt grammar window = .done value rest) : rest.Follows window := by
  have leaves := stmt_leavesAfter grammar window
  rw [done] at leaves
  exact leaves

theorem stmt_failed_follows {grammar : Grammar} {window rest : Window} {diagnostic : Diagnostic}
    (fails : stmt grammar window = .failed diagnostic rest) : rest.Follows window := by
  have leaves := stmt_leavesAfter grammar window
  rw [fails] at leaves
  exact leaves

/-- If the end token cannot start an expression, reading a statement gives an answer. -/
theorem stmt_ne_unfinished (grammar : Grammar) (closed : grammar.operand? .eof = none)
    (window : Window) (ends : window.stop.kind = .eof) :
    stmt grammar window ≠ .unfinished := by
  unfold stmt
  cases (grammar.form? window.current.kind).getD .expression with
  | binding =>
      simp only [formStmt, binding]
      split
      · simp
      · split <;> simp
  | returning => simp [formStmt, returning]
  | expression =>
      have settled := expr_settled grammar closed .lowest window ends
      simp only [formStmt, exprStmt]
      cases outcome : expr grammar .lowest window with
      | done value rest => simp
      | failed diagnostic rest => simp
      | unfinished => rw [outcome] at settled; exact settled.elim

end Parse

end LetLang
