import LetLang.Parse.Program

set_option autoImplicit false

namespace LetLang

namespace Outcome

variable {α β : Type}

theorem ne_unfinished_of_bind {outcome : Outcome α} {continuation : α → Window → Outcome β}
    (finished : outcome.bind continuation ≠ .unfinished) : outcome ≠ .unfinished := by
  rintro rfl
  exact finished rfl

theorem Settled.ne_unfinished {outcome : Outcome α} (settled : outcome.Settled) :
    outcome ≠ .unfinished := by
  rintro rfl
  exact settled

/-- Two outcomes with continuations that agree wherever the second ones have an answer. -/
theorem bind_eq_of_finished {fuller outcome : Outcome α}
    {fullerGoes goes : α → Window → Outcome β}
    (same : outcome ≠ .unfinished → fuller = outcome)
    (sameGoes : ∀ value rest, goes value rest ≠ .unfinished →
      fullerGoes value rest = goes value rest)
    (finished : outcome.bind goes ≠ .unfinished) :
    fuller.bind fullerGoes = outcome.bind goes := by
  rw [same (ne_unfinished_of_bind finished)]
  cases outcome with
  | done value rest => exact sameGoes value rest finished
  | failed diagnostic rest => rfl
  | unfinished => rfl

/-- Continuations that agree on what an outcome can leave give the same result behind it. -/
theorem bind_congr {outcome : Outcome α} {goes goes' : α → Window → Outcome β} {window : Window}
    (leaves : outcome.LeavesAfter window) (settled : outcome.Settled)
    (same : ∀ value (rest : Window), rest.Follows window → rest.pending ≠ [] →
      goes value rest = goes' value rest) :
    outcome.bind goes = outcome.bind goes' := by
  cases outcome with
  | done value rest => exact same value rest leaves settled
  | failed diagnostic rest => rfl
  | unfinished => rfl

end Outcome

namespace Parse

/-- A reader that answers as another one does wherever that one has an answer. -/
def Refines (fuller reader : ExprReader) : Prop :=
  ∀ floor window, reader floor window ≠ .unfinished → fuller floor window = reader floor window

theorem operandWith_eq_of_refines {fuller reader : ExprReader} (grammar : Grammar)
    (refines : Refines fuller reader) (window : Window)
    (finished : operandWith grammar reader window ≠ .unfinished) :
    operandWith grammar fuller window = operandWith grammar reader window := by
  unfold operandWith at finished ⊢
  split
  · rfl
  · rfl
  · rfl
  · rename_i starts
    rw [starts] at finished
    exact Outcome.bind_eq_of_finished (refines _ _) (fun _ _ _ => rfl) finished

theorem binaryWith_eq_of_refines {fuller reader : ExprReader} (grammar : Grammar)
    (refines : Refines fuller reader) (left : Expr) (window : Window)
    (finished : binaryWith grammar reader left window ≠ .unfinished) :
    binaryWith grammar fuller left window = binaryWith grammar reader left window :=
  Outcome.bind_eq_of_finished (refines _ _) (fun _ _ _ => rfl) finished

/-- More steps keep an answer. -/
theorem within_add (grammar : Grammar) (steps more : Nat) :
    Refines (exprWithin grammar (steps + more)) (exprWithin grammar steps) ∧
      ∀ floor left window, extendWithin grammar steps floor left window ≠ .unfinished →
        extendWithin grammar (steps + more) floor left window =
          extendWithin grammar steps floor left window := by
  induction steps with
  | zero =>
      constructor
      · intro _ _ finished
        exact (finished rfl).elim
      · intro _ _ _ finished
        exact (finished rfl).elim
  | succ steps ih =>
      have count : steps + 1 + more = steps + more + 1 := by omega
      constructor
      · intro floor window finished
        rw [count]
        rw [exprWithin] at finished ⊢
        exact Outcome.bind_eq_of_finished (operandWith_eq_of_refines grammar ih.1 window)
          (ih.2 floor) finished
      · intro floor left window finished
        rw [count]
        rw [extendWithin] at finished ⊢
        rw [extendWithin]
        split
        · rename_i goes
          rw [if_pos goes] at finished
          exact Outcome.bind_eq_of_finished
            (binaryWith_eq_of_refines grammar ih.1 left window.advance) (ih.2 floor) finished
        · rfl

theorem exprWithin_of_budget_le {grammar : Grammar} {steps : Nat} {floor : Precedence}
    {window : Window} (finished : expr grammar floor window ≠ .unfinished)
    (enough : budget window ≤ steps) :
    exprWithin grammar steps floor window = expr grammar floor window := by
  obtain ⟨more, rfl⟩ := Nat.exists_eq_add_of_le enough
  exact (within_add grammar (budget window) more).1 floor window finished

def extend (grammar : Grammar) (floor : Precedence) (left : Expr) (window : Window) :
    Outcome Expr :=
  extendWithin grammar (budget window) floor left window

section Closed

/- In this section the end token cannot start an expression, so that every answer is settled. -/
variable {grammar : Grammar} (closed : grammar.operand? .eof = none)

include closed

theorem exprWithin_eq_expr (steps : Nat) (floor : Precedence) (window : Window)
    (ends : window.stop.kind = .eof) (enough : budget window ≤ steps) :
    exprWithin grammar steps floor window = expr grammar floor window :=
  exprWithin_of_budget_le (expr_settled grammar closed floor window ends).ne_unfinished enough

theorem extendWithin_eq_extend (steps : Nat) (floor : Precedence) (left : Expr) (window : Window)
    (ends : window.stop.kind = .eof) (some_token : window.pending ≠ [])
    (enough : window.pending.length + 1 ≤ steps) :
    extendWithin grammar steps floor left window = extend grammar floor left window := by
  obtain ⟨more, rfl⟩ := Nat.exists_eq_add_of_le enough
  have settled := (within_settled grammar closed (window.pending.length + 1)).2 floor left window
    ends some_token (Nat.le_refl _)
  have widened := (within_add grammar (window.pending.length + 1) more).2 floor left window
    settled.ne_unfinished
  have budgeted := (within_add grammar (window.pending.length + 1) 1).2 floor left window
    settled.ne_unfinished
  exact widened.trans budgeted.symm

theorem expr_eq (floor : Precedence) (window : Window) (ends : window.stop.kind = .eof) :
    expr grammar floor window =
      (operandWith grammar (expr grammar) window).bind (extend grammar floor) := by
  have operand_eq : operandWith grammar (exprWithin grammar (window.pending.length + 1)) window =
      operandWith grammar (expr grammar) window := by
    unfold operandWith
    split
    · rfl
    · rfl
    · rfl
    · rename_i starts
      have size := List.length_pos_iff.mpr (pending_ne_nil_of_operand closed ends starts)
      unfold unaryWith
      rw [exprWithin_eq_expr closed _ _ window.advance ends]
      simp only [budget, Window.pending_advance, List.length_tail]
      omega
  have settled : (operandWith grammar (expr grammar) window).Settled :=
    operandWith_settled grammar _ window closed ends
      fun _ => expr_settled grammar closed .unary window.advance ends
  have leaves := operandWith_leavesAfter grammar _ window (expr_leavesAfter grammar)
  rw [expr, budget, exprWithin, operand_eq]
  apply Outcome.bind_congr leaves settled
  intro value rest follows some_token
  have shorter := follows.length_le
  exact extendWithin_eq_extend closed _ floor value rest (by rw [follows.stop_eq, ends])
    some_token (by omega)

/-- An expression is continued by a binary operation if the next token allows it. -/
theorem extend_eq (floor : Precedence) (left : Expr) (window : Window)
    (ends : window.stop.kind = .eof) (some_token : window.pending ≠ []) :
    extend grammar floor left window =
      if continues grammar floor window then
        (binaryWith grammar (expr grammar) left window.advance).bind (extend grammar floor)
      else .done left window := by
  have size := List.length_pos_iff.mpr some_token
  rw [extend, budget, extendWithin]
  split
  · have sub_eq : binaryWith grammar (exprWithin grammar (window.pending.length + 1)) left
        window.advance = binaryWith grammar (expr grammar) left window.advance := by
      unfold binaryWith
      rw [exprWithin_eq_expr closed _ _ window.advance.advance ends]
      simp only [budget, Window.pending_advance, List.length_tail]
      omega
    have settled : (binaryWith grammar (expr grammar) left window.advance).Settled :=
      (expr_settled grammar closed _ window.advance.advance ends).map _
    have leaves := binaryWith_leavesAfter grammar _ left window.advance (expr_leavesAfter grammar)
    rw [sub_eq]
    apply Outcome.bind_congr leaves settled
    intro value rest follows rest_some
    have shorter := (follows.trans (Window.Follows.advance window)).length_le
    exact extendWithin_eq_extend closed _ floor value rest (by rw [follows.stop_eq]; exact ends)
      rest_some (by omega)
  · rfl

end Closed

/-- Behind what a statement leaves there are fewer tokens than it was read from. -/
theorem advance_shorter {rest window : Window} (follows : rest.Follows window)
    (some_token : window.pending ≠ []) :
    rest.advance.pending.length < window.pending.length := by
  have size := List.length_pos_iff.mpr some_token
  have shorter := follows.length_le
  simp only [Window.pending_advance, List.length_tail]
  omega

def Run.behind (statements : List Stmt) (diagnostics : List Diagnostic) (run : Run) : Run where
  statements := statements ++ run.statements
  diagnostics := diagnostics ++ run.diagnostics
  rest := run.rest

theorem Run.behind_behind (front later : List Stmt) (first second : List Diagnostic) (run : Run) :
    (run.behind later second).behind front first =
      run.behind (front ++ later) (first ++ second) := by
  simp [behind]

theorem runWithin_of_nil (grammar : Grammar) (rounds : Nat) (statements : List Stmt)
    (diagnostics : List Diagnostic) {window : Window} (empty : window.pending = []) :
    runWithin grammar rounds statements diagnostics window =
      some ⟨statements.reverse, diagnostics.reverse, window⟩ := by
  rw [runWithin.eq_def]
  simp [empty]

theorem run_of_nil (grammar : Grammar) {window : Window} (empty : window.pending = []) :
    run grammar window = some ⟨[], [], window⟩ :=
  runWithin_of_nil grammar _ [] [] empty

theorem runWithin_succ (grammar : Grammar) (fewer : Nat) (statements : List Stmt)
    (diagnostics : List Diagnostic) {window : Window} (some_token : window.pending ≠ []) :
    runWithin grammar (fewer + 1) statements diagnostics window =
      match stmt grammar window with
      | .done value rest =>
          runWithin grammar fewer (value :: statements) diagnostics rest.advance
      | .failed diagnostic rest =>
          runWithin grammar fewer statements (diagnostic :: diagnostics)
            rest.skipToSemicolon.advance
      | .unfinished => none := by
  cases read : stmt grammar window <;> simp [runWithin, some_token, read]

/-- With enough rounds, what was read before only stands in front of the run. -/
theorem runWithin_eq (grammar : Grammar) (rounds : Nat) (statements : List Stmt)
    (diagnostics : List Diagnostic) (window : Window)
    (enough : window.pending.length ≤ rounds) :
    runWithin grammar rounds statements diagnostics window =
      (run grammar window).map (Run.behind statements.reverse diagnostics.reverse) := by
  -- Both sides read the same first statement; the induction is on the tokens left behind it.
  induction size : window.pending.length using Nat.strongRecOn
    generalizing rounds statements diagnostics window with
  | ind count ih =>
    by_cases empty : window.pending = []
    · rw [run_of_nil grammar empty, runWithin_of_nil grammar _ _ _ empty]
      simp [Run.behind]
    · have positive := List.length_pos_iff.mpr empty
      obtain ⟨fewer, rfl⟩ : ∃ fewer, rounds = fewer + 1 := ⟨rounds - 1, by omega⟩
      obtain ⟨before, length_eq⟩ : ∃ before, window.pending.length = before + 1 :=
        ⟨window.pending.length - 1, by omega⟩
      rw [run, length_eq, runWithin_succ grammar fewer _ _ empty,
        runWithin_succ grammar before _ _ empty]
      cases outcome : stmt grammar window with
      | done value rest =>
          have shorter := advance_shorter (stmt_done_follows outcome) empty
          simp only
          rw [ih _ (by omega) fewer (value :: statements) diagnostics rest.advance (by omega) rfl,
            ih _ (by omega) before [value] [] rest.advance (by omega) rfl, Option.map_map]
          congr 1
          funext later
          simp [Run.behind_behind]
      | failed diagnostic rest =>
          have follows := (Window.Follows.skipToSemicolon rest).trans (stmt_failed_follows outcome)
          have shorter := advance_shorter follows empty
          simp only
          rw [ih _ (by omega) fewer statements (diagnostic :: diagnostics)
              rest.skipToSemicolon.advance (by omega) rfl,
            ih _ (by omega) before [] [diagnostic] rest.skipToSemicolon.advance (by omega) rfl,
            Option.map_map]
          congr 1
          funext later
          simp [Run.behind_behind]
      | unfinished => rfl

theorem run_of_done {grammar : Grammar} {window rest : Window} {value : Stmt}
    (some_token : window.pending ≠ []) (read : stmt grammar window = .done value rest) :
    run grammar window = (run grammar rest.advance).map (Run.behind [value] []) := by
  have shorter := advance_shorter (stmt_done_follows read) some_token
  obtain ⟨before, length_eq⟩ : ∃ before, window.pending.length = before + 1 :=
    ⟨window.pending.length - 1, by omega⟩
  rw [run, length_eq, runWithin_succ grammar before _ _ some_token, read]
  exact runWithin_eq grammar before [value] [] rest.advance (by omega)

/-- A statement that fails gives the first diagnostic, and the run goes on behind a semicolon. -/
theorem run_of_failed {grammar : Grammar} {window rest : Window} {diagnostic : Diagnostic}
    (some_token : window.pending ≠ []) (read : stmt grammar window = .failed diagnostic rest) :
    run grammar window =
      (run grammar rest.skipToSemicolon.advance).map (Run.behind [] [diagnostic]) := by
  have follows := (Window.Follows.skipToSemicolon rest).trans (stmt_failed_follows read)
  have shorter := advance_shorter follows some_token
  obtain ⟨before, length_eq⟩ : ∃ before, window.pending.length = before + 1 :=
    ⟨window.pending.length - 1, by omega⟩
  rw [run, length_eq, runWithin_succ grammar before _ _ some_token, read]
  exact runWithin_eq grammar before [] [diagnostic] rest.skipToSemicolon.advance (by omega)

theorem run_of_unfinished {grammar : Grammar} {window : Window} (some_token : window.pending ≠ [])
    (read : stmt grammar window = .unfinished) : run grammar window = none := by
  have positive := List.length_pos_iff.mpr some_token
  obtain ⟨before, length_eq⟩ : ∃ before, window.pending.length = before + 1 :=
    ⟨window.pending.length - 1, by omega⟩
  rw [run, length_eq, runWithin_succ grammar before _ _ some_token, read]

/-- How a run comes about, round by round: the rest of the run belongs to the window behind the
statement that is read, or behind the semicolon after one that fails. -/
inductive Runs (grammar : Grammar) : Window → Run → Prop where
  | ended {window : Window} (empty : window.pending = []) : Runs grammar window ⟨[], [], window⟩
  | read {window rest : Window} {value : Stmt} {later : Run} (some_token : window.pending ≠ [])
      (done : stmt grammar window = .done value rest) (goes : Runs grammar rest.advance later) :
      Runs grammar window (later.behind [value] [])
  | failed {window rest : Window} {diagnostic : Diagnostic} {later : Run}
      (some_token : window.pending ≠ []) (fails : stmt grammar window = .failed diagnostic rest)
      (goes : Runs grammar rest.skipToSemicolon.advance later) :
      Runs grammar window (later.behind [] [diagnostic])

theorem runs_of_run {grammar : Grammar} {window : Window} {result : Run}
    (ran : run grammar window = some result) : Runs grammar window result := by
  induction size : window.pending.length using Nat.strongRecOn generalizing window result with
  | ind count ih =>
    by_cases empty : window.pending = []
    · rw [run_of_nil grammar empty] at ran
      cases ran
      exact .ended empty
    · cases outcome : stmt grammar window with
      | done value rest =>
          have shorter := advance_shorter (stmt_done_follows outcome) empty
          rw [run_of_done empty outcome] at ran
          obtain ⟨later, ran_later, rfl⟩ := Option.map_eq_some_iff.mp ran
          exact .read empty outcome (ih _ (by omega) ran_later rfl)
      | failed diagnostic rest =>
          have follows := (Window.Follows.skipToSemicolon rest).trans (stmt_failed_follows outcome)
          have shorter := advance_shorter follows empty
          rw [run_of_failed empty outcome] at ran
          obtain ⟨later, ran_later, rfl⟩ := Option.map_eq_some_iff.mp ran
          exact .failed empty outcome (ih _ (by omega) ran_later rfl)
      | unfinished =>
          rw [run_of_unfinished empty outcome] at ran
          cases ran

theorem run_eq_some_iff (grammar : Grammar) (window : Window) (result : Run) :
    run grammar window = some result ↔ Runs grammar window result := by
  constructor
  · exact runs_of_run
  · intro runs
    induction runs with
    | ended empty => exact run_of_nil grammar empty
    | read some_token done _ ih => rw [run_of_done some_token done, ih, Option.map_some]
    | failed some_token fails _ ih => rw [run_of_failed some_token fails, ih, Option.map_some]

theorem Runs.unique {grammar : Grammar} {window : Window} {first second : Run}
    (runs : Runs grammar window first) (runs' : Runs grammar window second) : first = second := by
  have ran := (run_eq_some_iff grammar window first).mpr runs
  have ran' := (run_eq_some_iff grammar window second).mpr runs'
  exact Option.some.inj (ran.symm.trans ran')

theorem run_start (source text : String) :
    run .standard (start source text) = some (runText source text) := by
  simp [runText]

theorem runs_start (source text : String) :
    Runs .standard (start source text) (runText source text) :=
  runs_of_run (run_start source text)

end Parse

end LetLang
