import LetLang.Proofs.Budget
import LetLang.Proofs.Draws

/-!
When reading ends. The budget of a window is enough for every expression that comes to an end in
any number of steps, whatever the grammar says about the end token; the others never end. If the
end token cannot start an expression, then all readers end at every place of a text, a run stops at
the end token and has nothing left to do there, and it gives no more statements and diagnostics
than it passes over tokens.
-/

set_option autoImplicit false

namespace LetLang

namespace Window

/-- The window behind all tokens. -/
def atEnd (window : Window) : Window :=
  ⟨[], window.stop⟩

theorem eq_atEnd {window : Window} (empty : window.pending = []) : window = window.atEnd := by
  obtain ⟨pending, stop⟩ := window
  rw [atEnd, mk.injEq]
  exact ⟨empty, rfl⟩

@[simp] theorem advance_atEnd (window : Window) : window.atEnd.advance = window.atEnd := rfl

end Window

namespace Parse

/-- The token that a window shows is an operand by itself. -/
def LeafAt (grammar : Grammar) (window : Window) : Prop :=
  ∃ value, ∀ reader, operandWith grammar reader window = .done value window

/-- An operand fails at once, or it is a single token, or it is an operator with an operand behind
it. -/
theorem operandWith_cases (grammar : Grammar) (window : Window) :
    (∃ diagnostic, ∀ reader, operandWith grammar reader window = .failed diagnostic window) ∨
      LeafAt grammar window ∨
      ∀ reader, operandWith grammar reader window = unaryWith reader window := by
  cases starts : grammar.operand? window.current.kind with
  | none => exact .inl ⟨_, fun reader => by rw [operandWith, starts]⟩
  | some operand =>
      cases operand with
      | name => exact .inr (.inl ⟨_, fun reader => by rw [operandWith, starts, name]⟩)
      | operator => exact .inr (.inr fun reader => by rw [operandWith, starts])
      | integer =>
          cases read : Decimal.read? window.current.literal with
          | none => exact .inl ⟨_, fun reader => by rw [operandWith, starts, integer, read]⟩
          | some value =>
              exact .inr (.inl ⟨_, fun reader => by rw [operandWith, starts, integer, read]⟩)

/-- A place where an expression can have its last token. -/
def LastAt (grammar : Grammar) (window : Window) : Prop :=
  window.pending ≠ [] ∨ LeafAt grammar window.atEnd

theorem LastAt.of_leaf {grammar : Grammar} {window : Window} (leaf : LeafAt grammar window) :
    LastAt grammar window := by
  by_cases empty : window.pending = []
  · right
    rwa [← Window.eq_atEnd empty]
  · exact .inl empty

/-- Only at such a place an expression is finished. -/
theorem within_lastAt (grammar : Grammar) (steps : Nat) :
    (∀ floor window tree rest, exprWithin grammar steps floor window = .done tree rest →
        LastAt grammar rest) ∧
      ∀ floor left window tree rest, LastAt grammar window →
        extendWithin grammar steps floor left window = .done tree rest → LastAt grammar rest := by
  induction steps with
  | zero =>
      constructor
      · intro _ _ _ _ read
        cases read
      · intro _ _ _ _ _ _ read
        cases read
  | succ steps ih =>
      constructor
      · intro floor window tree rest read
        rw [exprWithin] at read
        obtain ⟨operand, middle, first, extended⟩ := (Outcome.bind_eq_done_iff _ _ _ _).mp read
        refine ih.2 floor operand middle tree rest ?_ extended
        rcases operandWith_cases grammar window with ⟨diagnostic, fails⟩ | leaf | operator
        · rw [fails] at first
          cases first
        · have last := LastAt.of_leaf leaf
          obtain ⟨value, done⟩ := leaf
          rw [done] at first
          cases first
          exact last
        · rw [operator] at first
          obtain ⟨right, read_right, _⟩ := (Outcome.map_eq_done_iff _ _ _ _).mp first
          exact ih.1 _ _ _ _ read_right
      · intro floor left window tree rest last read
        rw [extendWithin] at read
        split at read
        · obtain ⟨joined, middle, first, extended⟩ := (Outcome.bind_eq_done_iff _ _ _ _).mp read
          obtain ⟨right, read_right, _⟩ := (Outcome.map_eq_done_iff _ _ _ _).mp first
          exact ih.2 floor joined middle tree rest (ih.1 _ _ _ _ read_right) extended
        · cases read
          exact last

/-- An operator at the end waits for its operand forever. -/
theorem exprWithin_of_operator_atEnd {grammar : Grammar} {window : Window}
    (operator : ∀ reader, operandWith grammar reader window.atEnd = unaryWith reader window.atEnd)
    (steps : Nat) (floor : Precedence) :
    exprWithin grammar steps floor window.atEnd = .unfinished := by
  induction steps generalizing floor with
  | zero => rfl
  | succ steps ih =>
      rw [exprWithin, operator, unaryWith, Window.advance_atEnd, ih]
      rfl

/-- The right operand of an operator at the end is the end token alone, because the strength of an
operator is not above itself. -/
theorem exprWithin_of_leaf_atEnd {grammar : Grammar} {window : Window} {value : Expr}
    (done : ∀ reader, operandWith grammar reader window.atEnd = .done value window.atEnd)
    (more : Nat) :
    exprWithin grammar (more + 2) (grammar.precedence window.atEnd.current.kind) window.atEnd =
      .done value window.atEnd := by
  have halts : continues grammar (grammar.precedence window.atEnd.current.kind)
      window.atEnd = false := by
    apply (continues_eq_false_iff _ _ _).mpr
    right
    exact (Precedence.le_iff _ _).mpr (Nat.le_refl _)
  rw [exprWithin, done, Outcome.bind_done, extendWithin, halts]
  rfl

/-- An operand at the end that is also an operator above the floor continues forever. -/
theorem extendWithin_of_leaf_atEnd {grammar : Grammar} {window : Window} {floor : Precedence}
    (leaf : LeafAt grammar window.atEnd) (goes : continues grammar floor window.atEnd = true)
    (steps : Nat) (left : Expr) :
    extendWithin grammar steps floor left window.atEnd = .unfinished := by
  obtain ⟨value, done⟩ := leaf
  induction steps generalizing left with
  | zero => rfl
  | succ steps ih =>
      rw [extendWithin, if_pos goes, binaryWith, Window.advance_atEnd, Window.advance_atEnd]
      cases steps with
      | zero => rfl
      | succ fewer =>
          cases fewer with
          | zero =>
              rw [exprWithin, done]
              rfl
          | succ fewest =>
              rw [exprWithin_of_leaf_atEnd done]
              exact ih _

/-- Whatever is finished in some steps is the same in any other number that finishes it. -/
theorem exprWithin_agree {grammar : Grammar} {steps other : Nat} {floor : Precedence}
    {window : Window} (finished : exprWithin grammar steps floor window ≠ .unfinished)
    (finished' : exprWithin grammar other floor window ≠ .unfinished) :
    exprWithin grammar steps floor window = exprWithin grammar other floor window := by
  have widened := (within_add grammar steps other).1 floor window finished
  have widened' := (within_add grammar other steps).1 floor window finished'
  rw [← widened, ← widened', Nat.add_comm]

theorem extendWithin_mono {grammar : Grammar} {steps more : Nat} {floor : Precedence} {left : Expr}
    {window : Window} (finished : extendWithin grammar steps floor left window ≠ .unfinished)
    (enough : steps ≤ more) : extendWithin grammar more floor left window ≠ .unfinished := by
  obtain ⟨extra, rfl⟩ := Nat.exists_eq_add_of_le enough
  rw [(within_add grammar steps extra).2 floor left window finished]
  exact finished

section Budgets

variable {grammar : Grammar} {steps : Nat} {floor : Precedence}

/-- What is finished in some steps behind an expression is finished in as many as there are tokens,
if this holds of what can follow the expression. -/
theorem bind_extend_of_finished {count : Nat} {inner : Precedence} {f : Expr → Expr}
    {window : Window}
    (extends_within : ∀ left (rest : Window), LastAt grammar rest →
      extendWithin grammar steps floor left rest ≠ .unfinished →
      extendWithin grammar (rest.pending.length + 1) floor left rest ≠ .unfinished)
    (finished : exprWithin grammar steps inner window ≠ .unfinished)
    (finished' : exprWithin grammar count inner window ≠ .unfinished)
    (enough : window.pending.length + 1 ≤ count)
    (rest_finished : ((exprWithin grammar steps inner window).map f).bind
      (extendWithin grammar steps floor) ≠ .unfinished) :
    ((exprWithin grammar count inner window).map f).bind (extendWithin grammar count floor) ≠
      .unfinished := by
  have leaves := (within_leavesAfter grammar count).1 inner window
  have last := (within_lastAt grammar count).1 inner window
  rw [exprWithin_agree finished finished'] at rest_finished
  cases read : exprWithin grammar count inner window with
  | done value rest =>
      rw [read] at leaves rest_finished
      have follows : rest.Follows window := leaves
      have shorter := follows.length_le
      exact extendWithin_mono (extends_within _ rest (last _ _ read) rest_finished) (by omega)
  | failed diagnostic rest => simp
  | unfinished => exact (finished' read).elim

/-- Behind an operator that is the last token, only a failure at the end token is finished. It takes
one step, and there is one: the end token is no operand then, so some token stood in front. -/
theorem bind_extend_at_end {left : Expr} {window : Window} (last : LastAt grammar window)
    (goes : continues grammar floor window = true) (last_step : window.advance = window.atEnd)
    (finished : (binaryWith grammar (exprWithin grammar steps) left window.atEnd).bind
      (extendWithin grammar steps floor) ≠ .unfinished) :
    (binaryWith grammar (exprWithin grammar window.pending.length) left window.atEnd).bind
      (extendWithin grammar window.pending.length floor) ≠ .unfinished := by
  rw [binaryWith, Window.advance_atEnd] at finished ⊢
  have right_finished := Outcome.ne_unfinished_of_bind (Outcome.ne_unfinished_of_bind finished)
  rcases operandWith_cases grammar window.atEnd with ⟨diagnostic, fails⟩ | leaf | operator
  · have some_token : window.pending ≠ [] := by
      apply last.resolve_right
      rintro ⟨value, done⟩
      have both := (fails (exprWithin grammar 0)).symm.trans (done _)
      cases both
    obtain ⟨fewer, count⟩ : ∃ fewer, window.pending.length = fewer + 1 :=
      Nat.exists_eq_succ_of_ne_zero (by simpa using some_token)
    rw [count, exprWithin, fails]
    simp
  · have goes_atEnd : continues grammar floor window.atEnd = true := by
      rw [continues, ← Window.current_advance, last_step] at goes
      exact goes
    obtain ⟨value, done⟩ := leaf
    have read := exprWithin_of_leaf_atEnd done 0
    have finished' : exprWithin grammar (0 + 2)
        (grammar.precedence window.atEnd.current.kind) window.atEnd ≠ .unfinished := by
      rw [read]
      simp
    rw [exprWithin_agree right_finished finished', read] at finished
    exact (finished (extendWithin_of_leaf_atEnd ⟨value, done⟩ goes_atEnd _ _)).elim
  · exact (right_finished (exprWithin_of_operator_atEnd operator _ _)).elim

end Budgets

/-- What is finished in some steps is finished within the budget. -/
theorem within_of_finished (grammar : Grammar) (steps : Nat) :
    (∀ floor (window : Window), exprWithin grammar steps floor window ≠ .unfinished →
        exprWithin grammar (window.pending.length + 2) floor window ≠ .unfinished) ∧
      ∀ floor left (window : Window), LastAt grammar window →
        extendWithin grammar steps floor left window ≠ .unfinished →
        extendWithin grammar (window.pending.length + 1) floor left window ≠ .unfinished := by
  induction steps with
  | zero =>
      constructor
      · intro _ _ finished
        exact (finished rfl).elim
      · intro _ _ _ _ finished
        exact (finished rfl).elim
  | succ steps ih =>
      constructor
      · intro floor window finished
        rw [exprWithin] at finished ⊢
        rcases operandWith_cases grammar window with ⟨diagnostic, fails⟩ | leaf | operator
        · rw [fails]
          simp
        · obtain ⟨value, done⟩ := leaf
          rw [done, Outcome.bind_done] at finished ⊢
          exact ih.2 floor value window (.of_leaf ⟨value, done⟩) finished
        · rw [operator, unaryWith] at finished ⊢
          have right_finished :=
            Outcome.ne_unfinished_of_bind (Outcome.ne_unfinished_of_bind finished)
          by_cases empty : window.pending = []
          · rw [Window.eq_atEnd empty] at operator right_finished
            exact (right_finished (exprWithin_of_operator_atEnd operator _ _)).elim
          · have size := List.length_pos_iff.mpr empty
            have shorter : window.advance.pending.length + 2 = window.pending.length + 1 := by
              simp only [Window.pending_advance, List.length_tail]
              omega
            have enough := ih.1 _ _ right_finished
            rw [shorter] at enough
            exact bind_extend_of_finished (ih.2 floor) right_finished enough (by omega) finished
      · intro floor left window last finished
        rw [extendWithin] at finished ⊢
        split
        · rename_i goes
          rw [if_pos goes] at finished
          by_cases inside : window.advance.pending = []
          · have last_step : window.advance = window.atEnd := Window.eq_atEnd inside
            rw [last_step] at finished ⊢
            exact bind_extend_at_end last goes last_step finished
          · rw [binaryWith] at finished ⊢
            have right_finished :=
              Outcome.ne_unfinished_of_bind (Outcome.ne_unfinished_of_bind finished)
            have size := List.length_pos_iff.mpr inside
            have shorter : window.advance.advance.pending.length + 2 = window.pending.length := by
              simp only [Window.pending_advance, List.length_tail] at size ⊢
              omega
            have enough := ih.1 _ _ right_finished
            rw [shorter] at enough
            exact bind_extend_of_finished (ih.2 floor) right_finished enough (by omega) finished
        · simp

theorem exprWithin_of_finished {grammar : Grammar} {steps : Nat} {floor : Precedence}
    {window : Window} (finished : exprWithin grammar steps floor window ≠ .unfinished) :
    exprWithin grammar steps floor window = expr grammar floor window :=
  exprWithin_agree finished ((within_of_finished grammar steps).1 floor window finished)

/-- Reading an expression has no answer exactly if it would not end in any number of steps. -/
theorem expr_eq_unfinished_iff (grammar : Grammar) (floor : Precedence) (window : Window) :
    expr grammar floor window = .unfinished ↔
      ∀ steps, exprWithin grammar steps floor window = .unfinished := by
  constructor
  · intro unfinished steps
    by_contra finished
    exact (within_of_finished grammar steps).1 floor window finished unfinished
  · intro endless
    exact endless (budget window)

/-- A run leaves the end of its window. -/
theorem Runs.rest_eq {grammar : Grammar} {window : Window} {result : Run}
    (runs : Runs grammar window result) : result.rest = window.atEnd := by
  induction runs with
  | ended empty => exact Window.eq_atEnd empty
  | @read window rest value later _ done _ ih =>
      have same_stop : rest.stop = window.stop := (stmt_done_follows done).stop_eq
      rw [Run.behind, ih, Window.atEnd, Window.atEnd, Window.stop_advance, same_stop]
  | @failed window rest diagnostic later _ fails _ ih =>
      have same_stop : rest.stop = window.stop := (stmt_failed_follows fails).stop_eq
      rw [Run.behind, ih, Window.atEnd, Window.atEnd, Window.stop_advance,
        Window.stop_skipToSemicolon, same_stop]

theorem Runs.length_le {grammar : Grammar} {window : Window} {result : Run}
    (runs : Runs grammar window result) :
    result.statements.length + result.diagnostics.length ≤ window.pending.length := by
  induction runs with
  | ended _ => simp
  | read some_token done _ ih =>
      have shorter := advance_shorter (stmt_done_follows done) some_token
      simp only [Run.behind, List.length_append, List.length_singleton, List.length_nil]
      omega
  | @failed window rest diagnostic later some_token fails _ ih =>
      have follows := (Window.Follows.skipToSemicolon rest).trans (stmt_failed_follows fails)
      have shorter := advance_shorter follows some_token
      simp only [Run.behind, List.length_append, List.length_singleton, List.length_nil]
      omega

/-- If the end token cannot start an expression, every window has a run. -/
theorem exists_run_of_closed {grammar : Grammar} {window : Window}
    (closed : grammar.operand? .eof = none) (ends : window.stop.kind = .eof) :
    ∃ result, Runs grammar window result := by
  have ran := runWithin_isSome grammar closed _ [] [] window ends (Nat.le_refl _)
  obtain ⟨result, found⟩ := Option.isSome_iff_exists.mp ran
  exact ⟨result, runs_of_run found⟩

end Parse

namespace Parser

theorem program_of_runs {parser : Parser} {result : Parse.Run}
    (runs : Parse.Runs parser.grammar parser.window result) :
    parser.program =
      some (⟨result.statements⟩,
        ⟨parser.grammar, result.rest, parser.diagnostics ++ result.diagnostics⟩) := by
  rw [program, (Parse.run_eq_some_iff _ _ _).mpr runs, Option.map_some]

theorem program_atEnd {parser : Parser} (empty : parser.window.pending = []) :
    parser.program = some (⟨[]⟩, parser) := by
  rw [program_of_runs (.ended empty), List.append_nil]

/-- If the end token cannot start an expression, every reader ends at every place of a text. A
program run then stops at the end token, finds nothing when it is repeated, and has at most one
statement or diagnostic for each token that was left. -/
theorem program_ends (source text : String) (drawn : Nat) (grammar : Grammar)
    (collected : List Diagnostic) (closed : grammar.operand? .eof = none) :
    let parser : Parser := ⟨grammar, .ofCursor (.drop drawn (.ofText source text)), collected⟩
    (∀ floor, Parse.expr grammar floor parser.window ≠ .unfinished ∧
        ∃ steps, Parse.exprWithin grammar steps floor parser.window ≠ .unfinished) ∧
      Parse.stmt grammar parser.window ≠ .unfinished ∧
      ∃ program after reported,
        parser.program = some (program, after) ∧
        after.window.current.kind = .eof ∧
        after.program = some (⟨[]⟩, after) ∧
        after.diagnostics = collected ++ reported ∧
        program.statements.length + reported.length ≤
          ((tokenize source text).drop drawn).countP fun token => !token.is .eof := by
  intro parser
  have ends : parser.window.stop.kind = .eof := rfl
  have expr_ends : ∀ floor, Parse.expr grammar floor parser.window ≠ .unfinished ∧
      ∃ steps, Parse.exprWithin grammar steps floor parser.window ≠ .unfinished := by
    intro floor
    have finished := (Parse.expr_settled grammar closed floor parser.window ends).ne_unfinished
    exact ⟨finished, not_forall.mp (mt (Parse.expr_eq_unfinished_iff _ _ _).mpr finished)⟩
  have stmt_ends := Parse.stmt_ne_unfinished grammar closed parser.window ends
  obtain ⟨result, runs⟩ := Parse.exists_run_of_closed closed ends
  have rest_eq : result.rest = parser.window.atEnd := runs.rest_eq
  have count := runs.length_le
  have left_over : parser.window = .atIndex source text drawn :=
    Window.ofCursor_drop source text drawn
  rw [left_over, length_pending_atIndex] at count
  refine ⟨expr_ends, stmt_ends, _, _, result.diagnostics, program_of_runs runs, ?_, ?_, rfl, count⟩
  · rw [rest_eq]
    exact ends
  · apply program_atEnd
    rw [rest_eq]
    rfl

theorem program_ends_operator_at_end :
    let grammar := Grammar.standard.addOperator .eof .sum
    let parser : Parser := ⟨grammar, .ofCursor (.drop 1 (.ofText shellName "x a; b")), []⟩
    grammar.operand? .eof = none ∧
      ∃ program after,
        parser.program = some (program, after) ∧ after.program = some (⟨[]⟩, after) ∧
        program.statements.length = 1 ∧ after.diagnostics.length = 1 := by
  intro grammar parser
  have closed : grammar.operand? .eof = none := rfl
  have counts : parser.program.map (fun ran =>
      (ran.1.statements.length, ran.2.diagnostics.length)) = some (1, 1) := by decide +kernel
  obtain ⟨_, _, program, after, _, ran, _, again, _⟩ :=
    program_ends shellName "x a; b" 1 grammar [] closed
  have same : parser.program = some (program, after) := ran
  rw [same, Option.map_some, Option.some.injEq, Prod.mk.injEq] at counts
  exact ⟨closed, program, after, ran, again, counts⟩

end Parser

end LetLang
