import LetLang.Parse.Pull
import LetLang.Proofs.Draining
import LetLang.Proofs.Ending
import LetLang.Proofs.Reach
import LetLang.Proofs.Registration

set_option autoImplicit false

namespace LetLang

namespace PullParser

/-- The parser that has the token at an index of a text as its current one. -/
def atIndex (source text : String) (index : Nat) (diagnostics : List Diagnostic)
    (tables : Tables) : PullParser where
  cursor := .drop (index + 2) (.ofText source text)
  current := tokenAt source text index
  next := tokenAt source text (index + 1)
  diagnostics := diagnostics
  tables := tables

/-- What a parser shows through a window: the tokens that it holds, and those that it can draw. -/
def view (parser : PullParser) : Parser where
  grammar := parser.tables.grammar
  window :=
    ⟨([parser.current, parser.next].filter fun token => !token.is .eof) ++ parser.cursor.tokens,
      parser.cursor.finish.endToken⟩
  diagnostics := parser.diagnostics

@[simp] theorem current_atIndex (source text : String) (index : Nat)
    (diagnostics : List Diagnostic) (tables : Tables) :
    (atIndex source text index diagnostics tables).current = tokenAt source text index := rfl

@[simp] theorem next_atIndex (source text : String) (index : Nat)
    (diagnostics : List Diagnostic) (tables : Tables) :
    (atIndex source text index diagnostics tables).next = tokenAt source text (index + 1) := rfl

@[simp] theorem tables_atIndex (source text : String) (index : Nat)
    (diagnostics : List Diagnostic) (tables : Tables) :
    (atIndex source text index diagnostics tables).tables = tables := rfl

theorem ofCursor_drop (source text : String) (drawn : Nat) :
    ofCursor (.drop drawn (.ofText source text)) = .atIndex source text drawn [] .standard := by
  simp [ofCursor, Cursor.next_drop, atIndex]

theorem advance_atIndex (source text : String) (index : Nat) (diagnostics : List Diagnostic)
    (tables : Tables) :
    (atIndex source text index diagnostics tables).advance =
      .atIndex source text (index + 1) diagnostics tables := by
  simp [advance, atIndex, Cursor.next_drop]

theorem kind_tokenAt_eq_eof_iff (source text : String) (index : Nat) :
    (tokenAt source text index).kind = .eof ↔ (Window.atIndex source text index).pending = [] := by
  rw [← Window.current_atIndex]
  constructor
  · intro ended
    by_contra inside
    have split := Window.pending_eq_cons inside
    have member : (Window.atIndex source text index).current ∈
        (Window.atIndex source text index).pending := by
      rw [split]
      exact List.mem_cons_self ..
    exact kind_ne_eof_of_mem (List.mem_of_mem_drop member) ended
  · intro empty
    rw [Window.current, empty]
    rfl

/-- Of a token at an index, what is pending from there on has it in front, unless it is the end
token. -/
theorem filter_append_pending (source text : String) (index : Nat) :
    ([tokenAt source text index].filter fun token => !token.is .eof) ++
        (Window.atIndex source text (index + 1)).pending =
      (Window.atIndex source text index).pending := by
  rw [← Window.advance_atIndex]
  by_cases empty : (Window.atIndex source text index).pending = []
  · have ended := (kind_tokenAt_eq_eof_iff source text index).mpr empty
    simp [empty, ended]
  · have inside := mt (kind_tokenAt_eq_eof_iff source text index).mp empty
    rw [Window.pending_eq_cons empty, Window.current_atIndex]
    simp [inside]

theorem view_atIndex (source text : String) (index : Nat) (diagnostics : List Diagnostic)
    (tables : Tables) :
    (atIndex source text index diagnostics tables).view =
      ⟨tables.grammar, .atIndex source text index, diagnostics⟩ := by
  have ⟨tokens_eq, finish_eq⟩ := (Cursor.ofText source text).drain_drop (index + 2)
  have pending_eq : ([tokenAt source text index, tokenAt source text (index + 1)].filter
      fun token => !token.is .eof) ++ (Window.atIndex source text (index + 2)).pending =
        (Window.atIndex source text index).pending := by
    rw [← filter_append_pending source text index,
      ← filter_append_pending source text (index + 1), ← List.append_assoc, ← List.filter_append]
    rfl
  show Parser.mk tables.grammar ⟨_ ++ (Cursor.drop (index + 2) _).tokens,
    (Cursor.drop (index + 2) _).finish.endToken⟩ diagnostics = _
  rw [tokens_eq, finish_eq]
  exact congrArg (fun pending => Parser.mk tables.grammar ⟨pending, _⟩ diagnostics) pending_eq

theorem skipToSemicolon_atIndex (source text : String) (index : Nat)
    (diagnostics : List Diagnostic) (tables : Tables) :
    (atIndex source text index diagnostics tables).skipToSemicolon =
      .atIndex source text (semicolonFrom source text index) diagnostics tables := by
  induction size : (Window.atIndex source text index).pending.length generalizing index with
  | zero =>
      have empty := List.eq_nil_of_length_eq_zero size
      have ended := (kind_tokenAt_eq_eof_iff source text index).mpr empty
      rw [skipToSemicolon_of_stop (.inr ended), semicolonFrom_eq, empty]
      rfl
  | succ count ih =>
      have inside : (Window.atIndex source text index).pending ≠ [] :=
        List.ne_nil_of_length_eq_add_one size
      have shorter : (Window.atIndex source text (index + 1)).pending.length = count := by
        rw [← Window.advance_atIndex, Window.pending_advance, List.length_tail, size]
        rfl
      by_cases semicolon : (tokenAt source text index).kind = .semicolon
      · rw [skipToSemicolon_of_stop (.inl semicolon), semicolonFrom_of_semicolon semicolon]
      · have more := mt (kind_tokenAt_eq_eof_iff source text index).mp inside
        rw [skipToSemicolon_of_ne semicolon more, advance_atIndex, ih (index + 1) shorter,
          semicolonFrom_succ inside semicolon]

theorem closeStmt_atIndex (source text : String) (index : Nat) (diagnostics : List Diagnostic)
    (tables : Tables) :
    ∃ later, index ≤ later ∧
      (atIndex source text index diagnostics tables).closeStmt =
        .atIndex source text later diagnostics tables ∧
      Parse.closeStmt (.atIndex source text index) = .atIndex source text later := by
  rw [closeStmt, next_atIndex, Parse.closeStmt, Window.next_atIndex, advance_atIndex,
    Window.advance_atIndex]
  split
  · exact ⟨index + 1, Nat.le_succ index, rfl, rfl⟩
  · exact ⟨index, Nat.le_refl index, rfl, rfl⟩

end PullParser

namespace Pull

/-- An outcome of reading a window on a text from an index on, and a result of reading there on
demand: the same value or diagnostic, and the same place, which is not further back. -/
inductive Agrees (source text : String) (diagnostics : List Diagnostic) (tables : Tables)
    {α : Type} (index : Nat) :
    Outcome α → Option (Except Diagnostic α × PullParser) → Prop where
  | done (value : α) {later : Nat} (forward : index ≤ later) :
      Agrees source text diagnostics tables index (.done value (.atIndex source text later))
        (some (.ok value, .atIndex source text later diagnostics tables))
  | failed (diagnostic : Diagnostic) {later : Nat} (forward : index ≤ later) :
      Agrees source text diagnostics tables index (.failed diagnostic (.atIndex source text later))
        (some (.error diagnostic, .atIndex source text later diagnostics tables))
  | unfinished : Agrees source text diagnostics tables index .unfinished none

variable {α β : Type} {source text : String} {diagnostics : List Diagnostic} {tables : Tables}
  {index later : Nat}

theorem Agrees.trans {outcome : Outcome α} {result : Option (Except Diagnostic α × PullParser)}
    (agrees : Agrees source text diagnostics tables later outcome result)
    (forward : index ≤ later) : Agrees source text diagnostics tables index outcome result := by
  cases agrees with
  | done value further => exact .done value (Nat.le_trans forward further)
  | failed diagnostic further => exact .failed diagnostic (Nat.le_trans forward further)
  | unfinished => exact .unfinished

theorem Agrees.bind {outcome : Outcome α} {action : Pull α} {parser : PullParser}
    {reads : α → Window → Outcome β} {goes : α → Pull β}
    (first : Agrees source text diagnostics tables index outcome (run? action parser))
    (second : ∀ value later, index ≤ later →
      Agrees source text diagnostics tables later (reads value (.atIndex source text later))
        (run? (goes value) (.atIndex source text later diagnostics tables))) :
    Agrees source text diagnostics tables index (outcome.bind reads)
      (run? (action >>= goes) parser) := by
  rw [run?_bind]
  cases result : run? action parser with
  | none =>
      rw [result] at first
      cases first
      exact .unfinished
  | some pair =>
      rw [result] at first
      cases first with
      | done value forward => exact (second value _ forward).trans forward
      | failed diagnostic forward => exact .failed diagnostic forward

theorem Agrees.map {outcome : Outcome α} {action : Pull α} {parser : PullParser} (f : α → β)
    (first : Agrees source text diagnostics tables index outcome (run? action parser)) :
    Agrees source text diagnostics tables index (outcome.map f)
      (run? (action >>= fun value => pure (f value)) parser) :=
  first.bind fun value later _ => .done (f value) (Nat.le_refl later)

theorem name_agrees :
    Agrees source text diagnostics tables index (Parse.name (.atIndex source text index))
      (run? name (.atIndex source text index diagnostics tables)) := by
  rw [Parse.name, Window.current_atIndex]
  exact .done _ (Nat.le_refl index)

theorem integer_agrees :
    Agrees source text diagnostics tables index (Parse.integer (.atIndex source text index))
      (run? integer (.atIndex source text index diagnostics tables)) := by
  rw [Parse.integer, Window.current_atIndex, integer, run?_get]
  simp only [PullParser.current_atIndex]
  cases Decimal.read? (tokenAt source text index).literal with
  | some value => exact .done _ (Nat.le_refl index)
  | none => exact .failed _ (Nat.le_refl index)

section Readers

variable {reader : Parse.ExprReader} {action : Precedence → Pull Expr}
  (agrees : ∀ floor index, Agrees source text diagnostics tables index
    (reader floor (.atIndex source text index))
    (run? (action floor) (.atIndex source text index diagnostics tables)))

include agrees

theorem unaryWith_agrees :
    Agrees source text diagnostics tables index
      (Parse.unaryWith reader (.atIndex source text index))
      (run? (unaryWith action) (.atIndex source text index diagnostics tables)) := by
  rw [Parse.unaryWith, Window.current_atIndex, Window.advance_atIndex, unaryWith, run?_get,
    run?_modify, PullParser.advance_atIndex]
  exact ((agrees .unary (index + 1)).map _).trans (Nat.le_succ index)

theorem binaryWith_agrees (left : Expr) :
    Agrees source text diagnostics tables index
      (Parse.binaryWith tables.grammar reader left (.atIndex source text index))
      (run? (binaryWith action left) (.atIndex source text index diagnostics tables)) := by
  rw [Parse.binaryWith, Window.current_atIndex, Window.advance_atIndex, binaryWith, run?_get,
    run?_modify, PullParser.advance_atIndex]
  exact ((agrees _ (index + 1)).map _).trans (Nat.le_succ index)

theorem operandWith_agrees :
    Agrees source text diagnostics tables index
      (Parse.operandWith tables.grammar reader (.atIndex source text index))
      (run? (operandWith action) (.atIndex source text index diagnostics tables)) := by
  rw [Parse.operandWith, Window.current_atIndex, operandWith, run?_get]
  simp only [PullParser.current_atIndex, PullParser.tables_atIndex, Tables.grammar]
  cases tables.operand? (tokenAt source text index).kind with
  | none => exact .failed _ (Nat.le_refl index)
  | some operand =>
      cases operand with
      | name => exact name_agrees
      | integer => exact integer_agrees
      | operator => exact unaryWith_agrees agrees

end Readers

theorem continues_atIndex (floor : Precedence) :
    (PullParser.atIndex source text index diagnostics tables).continues floor =
      Parse.continues tables.grammar floor (.atIndex source text index) := by
  rw [Parse.continues, Window.next_atIndex]
  rfl

/-- In as many steps, reading on demand gives what reading a window with both tables does. -/
theorem within_agrees (source text : String) (diagnostics : List Diagnostic) (tables : Tables)
    (steps : Nat) :
    (∀ floor index, Agrees source text diagnostics tables index
      (tables.exprWithin steps floor (.atIndex source text index))
      (run? (exprWithin steps floor) (.atIndex source text index diagnostics tables))) ∧
    ∀ floor left index, Agrees source text diagnostics tables index
      (tables.extendWithin steps floor left (.atIndex source text index))
      (run? (extendWithin steps floor left) (.atIndex source text index diagnostics tables)) := by
  induction steps with
  | zero => exact ⟨fun _ _ => .unfinished, fun _ _ _ => .unfinished⟩
  | succ steps ih =>
      constructor
      · intro floor index
        rw [Tables.exprWithin, exprWithin]
        exact (operandWith_agrees ih.1).bind fun left later _ => ih.2 floor left later
      · intro floor left index
        rw [Tables.extendWithin, extendWithin, run?_get, continues_atIndex, Window.next_atIndex,
          Window.advance_atIndex, PullParser.tables_atIndex, PullParser.next_atIndex]
        by_cases goes : Parse.continues tables.grammar floor (.atIndex source text index) = true
        · rw [if_pos goes, if_pos goes]
          by_cases operator : tables.operator (tokenAt source text (index + 1)).kind = true
          · rw [if_pos operator, if_pos operator, run?_modify, PullParser.advance_atIndex]
            exact ((binaryWith_agrees ih.1 left).bind fun joined later _ =>
              ih.2 floor joined later).trans (Nat.le_succ index)
          · rw [if_neg operator, if_neg operator]
            exact .done left (Nat.le_refl index)
        · rw [if_neg goes, if_neg goes]
          exact .done left (Nat.le_refl index)

/-- Results that agree with an outcome whenever they are there, and that are there within the budget
of the window if the outcome is. -/
structure Settles (source text : String) (diagnostics : List Diagnostic) (tables : Tables)
    {α : Type} (index : Nat) (outcome : Outcome α)
    (results : Nat → Option (Except Diagnostic α × PullParser)) : Prop where
  agrees : ∀ steps, results steps ≠ none →
    Agrees source text diagnostics tables index outcome (results steps)
  enough : outcome ≠ .unfinished → ∀ steps, Parse.budget (.atIndex source text index) ≤ steps →
    results steps ≠ none

theorem Agrees.ne_none {outcome : Outcome α}
    {result : Option (Except Diagnostic α × PullParser)}
    (agrees : Agrees source text diagnostics tables index outcome result) :
    outcome ≠ .unfinished ↔ result ≠ none := by
  cases agrees <;> simp

theorem budget_atIndex_le (source text : String) (forward : index ≤ later) :
    Parse.budget (.atIndex source text later) ≤ Parse.budget (.atIndex source text index) := by
  simp only [Parse.budget, Window.atIndex, List.length_drop]
  omega

theorem Agrees.settles {outcome : Outcome α} {result : Option (Except Diagnostic α × PullParser)}
    (agrees : Agrees source text diagnostics tables index outcome result) :
    Settles source text diagnostics tables index outcome fun _ => result where
  agrees := fun _ _ => agrees
  enough := fun finished _ _ => agrees.ne_none.mp finished

theorem Settles.trans {outcome : Outcome α}
    {results : Nat → Option (Except Diagnostic α × PullParser)}
    (settles : Settles source text diagnostics tables later outcome results)
    (forward : index ≤ later) : Settles source text diagnostics tables index outcome results where
  agrees := fun steps given => (settles.agrees steps given).trans forward
  enough := fun finished steps enough =>
    settles.enough finished steps (Nat.le_trans (budget_atIndex_le source text forward) enough)

theorem Settles.bind {outcome : Outcome α} {actions : Nat → Pull α} {parser : PullParser}
    {reads : α → Window → Outcome β} {goes : Nat → α → Pull β}
    (first : Settles source text diagnostics tables index outcome
      fun steps => run? (actions steps) parser)
    (second : ∀ value later, index ≤ later →
      Settles source text diagnostics tables later (reads value (.atIndex source text later))
        fun steps => run? (goes steps value) (.atIndex source text later diagnostics tables)) :
    Settles source text diagnostics tables index (outcome.bind reads)
      fun steps => run? (actions steps >>= goes steps) parser where
  agrees := by
    intro steps given
    rw [run?_bind] at given ⊢
    cases result : run? (actions steps) parser with
    | none => simp [result] at given
    | some pair =>
        have agrees := first.agrees steps (by simp [result])
        rw [result] at agrees given
        cases agrees with
        | done value forward => exact ((second value _ forward).agrees steps given).trans forward
        | failed diagnostic forward => exact .failed diagnostic forward
  enough := by
    intro finished steps enough
    have given := first.enough (Outcome.ne_unfinished_of_bind finished) steps enough
    have agrees := first.agrees steps given
    rw [run?_bind]
    cases result : run? (actions steps) parser with
    | none => exact (given result).elim
    | some pair =>
        rw [result] at agrees
        cases agrees with
        | done value forward =>
            exact ((second value _ forward).trans forward).enough finished steps enough
        | failed diagnostic forward => simp

theorem Settles.map {outcome : Outcome α} {actions : Nat → Pull α} {parser : PullParser}
    (f : α → β)
    (first : Settles source text diagnostics tables index outcome
      fun steps => run? (actions steps) parser) :
    Settles source text diagnostics tables index (outcome.map f)
      fun steps => run? (actions steps >>= fun value => pure (f value)) parser :=
  first.bind fun value later _ => (Agrees.done (f value) (Nat.le_refl later)).settles

section SameKeys

variable (source text diagnostics) (same : tables.SameKeys)

include same

theorem expr_settles (floor : Precedence) (index : Nat) :
    Settles source text diagnostics tables index
      (Parse.expr tables.grammar floor (.atIndex source text index))
      fun steps =>
        run? (exprWithin steps floor) (.atIndex source text index diagnostics tables) where
  agrees := by
    intro steps given
    have agrees := (within_agrees source text diagnostics tables steps).1 floor index
    rw [(same.within_eq steps).1] at agrees
    rwa [Parse.exprWithin_of_finished (agrees.ne_none.mpr given)] at agrees
  enough := by
    intro finished steps enough
    have agrees := (within_agrees source text diagnostics tables steps).1 floor index
    rw [(same.within_eq steps).1, Parse.exprWithin_of_budget_le finished enough] at agrees
    exact agrees.ne_none.mp finished

theorem unary_settles (index : Nat) :
    Settles source text diagnostics tables index
      (Parse.unary tables.grammar (.atIndex source text index))
      fun steps =>
        run? (unaryWith (exprWithin steps)) (.atIndex source text index diagnostics tables) := by
  rw [Parse.unary, Parse.unaryWith, Window.current_atIndex, Window.advance_atIndex]
  simp only [unaryWith, run?_get, run?_modify, PullParser.advance_atIndex]
  have right := expr_settles source text diagnostics same .unary (index + 1)
  exact (right.map _).trans (Nat.le_succ index)

theorem binary_settles (left : Expr) (index : Nat) :
    Settles source text diagnostics tables index
      (Parse.binary tables.grammar left (.atIndex source text index))
      fun steps =>
        run? (binaryWith (exprWithin steps) left)
          (.atIndex source text index diagnostics tables) := by
  rw [Parse.binary, Parse.binaryWith, Window.current_atIndex, Window.advance_atIndex]
  simp only [binaryWith, run?_get, run?_modify, PullParser.advance_atIndex]
  exact ((expr_settles source text diagnostics same _ (index + 1)).map _).trans (Nat.le_succ index)

theorem exprStmt_settles (index : Nat) :
    Settles source text diagnostics tables index
      (Parse.exprStmt tables.grammar (.atIndex source text index))
      fun steps =>
        run? (exprStmtWithin steps) (.atIndex source text index diagnostics tables) := by
  simp only [exprStmtWithin, run?_get]
  rw [Parse.exprStmt, Window.current_atIndex]
  apply (expr_settles source text diagnostics same .lowest index).bind
  intro value middle _
  obtain ⟨later, forward, closed, closed'⟩ :=
    PullParser.closeStmt_atIndex source text middle diagnostics tables
  rw [closed']
  simp only [run?_modify, closed]
  exact (Agrees.done _ forward).settles

end SameKeys

theorem returning_agrees (source text : String) (diagnostics : List Diagnostic) (tables : Tables)
    (index : Nat) :
    Agrees source text diagnostics tables index (Parse.returning (.atIndex source text index))
      (run? returning (.atIndex source text index diagnostics tables)) := by
  rw [Parse.returning, Window.current_atIndex, Window.advance_atIndex, skipToSemicolon_atIndex,
    returning, run?_get, run?_modify, run?_modify, PullParser.advance_atIndex,
    PullParser.skipToSemicolon_atIndex]
  exact .done _ (Nat.le_trans (Nat.le_succ index) (le_semicolonFrom source text (index + 1)))

theorem binding_agrees (source text : String) (diagnostics : List Diagnostic) (tables : Tables)
    (index : Nat) :
    Agrees source text diagnostics tables index (Parse.binding (.atIndex source text index))
      (run? binding (.atIndex source text index diagnostics tables)) := by
  rw [Parse.binding, Window.current_atIndex, Window.expect, Window.next_atIndex,
    Window.advance_atIndex, binding, run?_get, run?_expect, PullParser.next_atIndex,
    PullParser.advance_atIndex]
  by_cases named : (tokenAt source text (index + 1)).kind = .ident
  · rw [if_pos named, if_pos named, run?_get, run?_expect, PullParser.next_atIndex,
      PullParser.advance_atIndex]
    simp only
    rw [Window.expect, Window.next_atIndex, Window.advance_atIndex, Window.current_atIndex]
    by_cases assigned : (tokenAt source text (index + 1 + 1)).kind = .assign
    · rw [if_pos assigned, if_pos assigned, run?_modify, PullParser.skipToSemicolon_atIndex]
      simp only
      rw [skipToSemicolon_atIndex]
      have forward := le_semicolonFrom source text (index + 1 + 1)
      exact .done _ (by omega)
    · rw [if_neg assigned, if_neg assigned]
      exact .failed _ (Nat.le_succ index)
  · rw [if_neg named, if_neg named]
    exact .failed _ (Nat.le_refl index)

section SameKeys

variable (source text diagnostics) (same : tables.SameKeys)

include same

theorem formStmt_settles (form : Form) (index : Nat) :
    Settles source text diagnostics tables index
      (Parse.formStmt tables.grammar form (.atIndex source text index))
      fun steps =>
        run? (formStmtWithin steps form) (.atIndex source text index diagnostics tables) := by
  cases form with
  | binding => exact (binding_agrees source text diagnostics tables index).settles
  | returning => exact (returning_agrees source text diagnostics tables index).settles
  | expression => exact exprStmt_settles source text diagnostics same index

theorem stmt_settles (index : Nat) :
    Settles source text diagnostics tables index
      (Parse.stmt tables.grammar (.atIndex source text index))
      fun steps => run? (stmtWithin steps) (.atIndex source text index diagnostics tables) := by
  rw [Parse.stmt, Window.current_atIndex]
  simp only [stmtWithin, run?_get]
  exact formStmt_settles source text diagnostics same _ index

end SameKeys

section Rounds

variable {steps : Nat} {statements : List Stmt} {parser after : PullParser}

theorem programWithin_of_eof (ended : parser.current.kind = .eof) :
    run? (programWithin (steps + 1) statements) parser = some (.ok ⟨statements⟩, parser) := by
  rw [programWithin, run?_get, if_pos (by simp [Token.is, ended])]
  rfl

theorem programWithin_of_ok {value : Stmt} (inside : parser.current.kind ≠ .eof)
    (read : run? (stmtWithin steps) parser = some (.ok value, after)) :
    run? (programWithin (steps + 1) statements) parser =
      run? (programWithin steps (statements ++ [value])) after.advance := by
  rw [programWithin, run?_get, if_neg (by simp [Token.is, inside]), run?_bind, run?_attempt, read]
  rfl

theorem programWithin_of_error {diagnostic : Diagnostic} (inside : parser.current.kind ≠ .eof)
    (fails : run? (stmtWithin steps) parser = some (.error diagnostic, after)) :
    run? (programWithin (steps + 1) statements) parser =
      run? (programWithin steps statements) (after.collect diagnostic).skipToSemicolon.advance := by
  rw [programWithin, run?_get, if_neg (by simp [Token.is, inside]), run?_bind, run?_attempt, fails]
  rfl

theorem programWithin_of_none (inside : parser.current.kind ≠ .eof)
    (endless : run? (stmtWithin steps) parser = none) :
    run? (programWithin (steps + 1) statements) parser = none := by
  rw [programWithin, run?_get, if_neg (by simp [Token.is, inside]), run?_bind, run?_attempt,
    endless]
  rfl

end Rounds

theorem budget_atIndex_lt (source text : String) (forward : index ≤ later)
    (inside : (Window.atIndex source text index).pending ≠ []) :
    Parse.budget (.atIndex source text (later + 1)) <
      Parse.budget (.atIndex source text index) := by
  have size := List.length_pos_iff.mpr inside
  simp only [Parse.budget, Window.atIndex, List.length_drop] at size ⊢
  omega

/-- A run goes on behind a statement that is read. -/
theorem exists_runs_of_done {grammar : Grammar} {window rest : Window} {value : Stmt}
    {ran : Parse.Run} (runs : Parse.Runs grammar window ran) (inside : window.pending ≠ [])
    (read : Parse.stmt grammar window = .done value rest) :
    ∃ more, Parse.Runs grammar rest.advance more := by
  cases runs with
  | ended empty => exact (inside empty).elim
  | read _ done goes =>
      rw [read] at done
      cases done
      exact ⟨_, goes⟩
  | failed _ fails _ =>
      rw [read] at fails
      cases fails

theorem exists_runs_of_failed {grammar : Grammar} {window rest : Window} {diagnostic : Diagnostic}
    {ran : Parse.Run} (runs : Parse.Runs grammar window ran) (inside : window.pending ≠ [])
    (read : Parse.stmt grammar window = .failed diagnostic rest) :
    ∃ more, Parse.Runs grammar rest.skipToSemicolon.advance more := by
  cases runs with
  | ended empty => exact (inside empty).elim
  | read _ done _ =>
      rw [read] at done
      cases done
  | failed _ fails goes =>
      rw [read] at fails
      cases fails
      exact ⟨_, goes⟩

theorem stmt_ne_unfinished_of_runs {grammar : Grammar} {window : Window} {ran : Parse.Run}
    (runs : Parse.Runs grammar window ran) (inside : window.pending ≠ []) :
    Parse.stmt grammar window ≠ .unfinished := by
  cases runs with
  | ended empty => exact (inside empty).elim
  | read _ done _ => simp [done]
  | failed _ fails _ => simp [fails]

section SameKeys

variable (same : tables.SameKeys)

include same

/-- A round of a program reads a statement, and goes on behind it or behind the semicolon after the
place where it fails. -/
theorem programWithin_cases (steps : Nat) (statements : List Stmt) (diagnostics : List Diagnostic)
    (inside : (Window.atIndex source text index).pending ≠ []) :
    (run? (programWithin (steps + 1) statements) (.atIndex source text index diagnostics tables) =
        none ∧
      (Parse.budget (.atIndex source text index) ≤ steps →
        Parse.stmt tables.grammar (.atIndex source text index) = .unfinished)) ∨
    (∃ value middle, index ≤ middle ∧
      Parse.stmt tables.grammar (.atIndex source text index) =
        .done value (.atIndex source text middle) ∧
      run? (programWithin (steps + 1) statements) (.atIndex source text index diagnostics tables) =
        run? (programWithin steps (statements ++ [value]))
          (.atIndex source text (middle + 1) diagnostics tables)) ∨
    ∃ diagnostic middle, index ≤ middle ∧
      Parse.stmt tables.grammar (.atIndex source text index) =
        .failed diagnostic (.atIndex source text middle) ∧
      run? (programWithin (steps + 1) statements) (.atIndex source text index diagnostics tables) =
        run? (programWithin steps statements)
          (.atIndex source text (semicolonFrom source text middle + 1)
            (diagnostics ++ [diagnostic]) tables) := by
  have more : (PullParser.atIndex source text index diagnostics tables).current.kind ≠ .eof :=
    mt (PullParser.kind_tokenAt_eq_eof_iff source text index).mp inside
  have settles := stmt_settles source text diagnostics same index
  cases read : run? (stmtWithin steps) (.atIndex source text index diagnostics tables) with
  | none =>
      refine .inl ⟨programWithin_of_none more read, fun enough => ?_⟩
      by_contra finished
      exact settles.enough finished steps enough read
  | some pair =>
      have agrees := settles.agrees steps (by simp [read])
      rw [read] at agrees
      generalize Parse.stmt tables.grammar (.atIndex source text index) = outcome at agrees ⊢
      cases agrees with
      | @done value middle forward =>
          refine .inr (.inl ⟨value, middle, forward, rfl, ?_⟩)
          rw [programWithin_of_ok more read, PullParser.advance_atIndex]
      | @failed diagnostic middle forward =>
          have kept : (PullParser.atIndex source text middle diagnostics tables).collect
              diagnostic = .atIndex source text middle (diagnostics ++ [diagnostic]) tables := rfl
          refine .inr (.inr ⟨diagnostic, middle, forward, rfl, ?_⟩)
          rw [programWithin_of_error more read, kept, PullParser.skipToSemicolon_atIndex,
            PullParser.advance_atIndex]

/-- A program that is read on demand is that of a run over the window. -/
theorem runs_of_programWithin {steps : Nat} {statements : List Stmt}
    {result : Except Diagnostic Program × PullParser}
    (given : run? (programWithin steps statements) (.atIndex source text index diagnostics tables) =
      some result) :
    ∃ ran later, index ≤ later ∧ Parse.Runs tables.grammar (.atIndex source text index) ran ∧
      ran.rest = .atIndex source text later ∧
      result = (.ok ⟨statements ++ ran.statements⟩,
        .atIndex source text later (diagnostics ++ ran.diagnostics) tables) := by
  induction steps generalizing statements diagnostics index with
  | zero => cases given
  | succ steps ih =>
      by_cases empty : (Window.atIndex source text index).pending = []
      · have ended := (PullParser.kind_tokenAt_eq_eof_iff source text index).mpr empty
        rw [programWithin_of_eof ended] at given
        cases given
        exact ⟨_, index, Nat.le_refl index, .ended empty, rfl, by simp⟩
      · rcases programWithin_cases same steps statements diagnostics empty with
          ⟨endless, _⟩ | ⟨value, middle, forward, read, goes⟩ |
            ⟨diagnostic, middle, forward, fails, goes⟩
        · rw [endless] at given
          cases given
        · rw [goes] at given
          obtain ⟨ran, later, further, runs, rest_eq, rfl⟩ := ih given
          rw [← Window.advance_atIndex] at runs
          exact ⟨_, later, by omega, .read empty read runs, rest_eq, by simp [Parse.Run.behind]⟩
        · rw [goes] at given
          obtain ⟨ran, later, further, runs, rest_eq, rfl⟩ := ih given
          rw [← Window.advance_atIndex, ← skipToSemicolon_atIndex] at runs
          have skipped := le_semicolonFrom source text middle
          exact ⟨_, later, by omega, .failed empty fails runs, rest_eq, by simp [Parse.Run.behind]⟩

theorem programWithin_ne_none {steps : Nat} {statements : List Stmt} {ran : Parse.Run}
    (runs : Parse.Runs tables.grammar (.atIndex source text index) ran)
    (enough : Parse.budget (.atIndex source text index) < steps) :
    run? (programWithin steps statements) (.atIndex source text index diagnostics tables) ≠
      none := by
  induction steps generalizing statements diagnostics index ran with
  | zero => omega
  | succ steps ih =>
      by_cases empty : (Window.atIndex source text index).pending = []
      · have ended := (PullParser.kind_tokenAt_eq_eof_iff source text index).mpr empty
        rw [programWithin_of_eof ended]
        simp
      · rcases programWithin_cases same steps statements diagnostics empty with
          ⟨_, endless⟩ | ⟨value, middle, forward, read, goes⟩ |
            ⟨diagnostic, middle, forward, fails, goes⟩
        · exact (stmt_ne_unfinished_of_runs runs empty (endless (by omega))).elim
        · obtain ⟨more, behind⟩ := exists_runs_of_done runs empty read
          have fewer := budget_atIndex_lt source text forward empty
          rw [Window.advance_atIndex] at behind
          rw [goes]
          exact ih behind (by omega)
        · obtain ⟨more, behind⟩ := exists_runs_of_failed runs empty fails
          have skipped := le_semicolonFrom source text middle
          have fewer := budget_atIndex_lt source text (Nat.le_trans forward skipped) empty
          rw [skipToSemicolon_atIndex, Window.advance_atIndex] at behind
          rw [goes]
          exact ih behind (by omega)

end SameKeys

end Pull

end LetLang
