import LetLang.Proofs.Pulling

set_option autoImplicit false

namespace LetLang

namespace PullParser

/-- How a request is answered on demand, from an index of a text on: with the tables that it
registers, further on or at the same place, and as the parser on the window answers it. -/
structure Serves (source text : String) (index : Nat) (diagnostics : List Diagnostic)
    (tables : Tables) (request : Parser.Request) : Prop where
  sound : ∀ steps reply after,
    (atIndex source text index diagnostics tables).answerWithin steps request =
      some (reply, after) →
    ∃ later collected, index ≤ later ∧
      after = .atIndex source text later (diagnostics ++ collected) (tables.register request) ∧
      (request ≠ .program → collected = []) ∧
      (atIndex source text index diagnostics tables).view.answer request = some (reply, after.view)
  complete : ∀ reply shown,
    (atIndex source text index diagnostics tables).view.answer request = some (reply, shown) →
    ∃ steps, (atIndex source text index diagnostics tables).answerWithin steps request ≠ none

section Requests

variable {source text : String} {index later : Nat} {diagnostics : List Diagnostic}
  {tables : Tables} {request : Parser.Request}

theorem serves_of_done {reply : Parser.Reply} (forward : index ≤ later)
    (given : ∀ steps,
      (Pull.requestWithin steps request).run? (.atIndex source text index diagnostics tables) =
        some (.ok reply, .atIndex source text later diagnostics (tables.register request)))
    (answered : Parser.answer ⟨tables.grammar, .atIndex source text index, diagnostics⟩ request =
      some (reply, ⟨(tables.register request).grammar, .atIndex source text later, diagnostics⟩)) :
    Serves source text index diagnostics tables request where
  sound := by
    intro steps reply' after same
    rw [answerWithin, given] at same
    cases same
    refine ⟨later, [], forward, by rw [List.append_nil], fun _ => rfl, ?_⟩
    rw [view_atIndex, view_atIndex]
    exact answered
  complete := by
    intro _ _ _
    exact ⟨0, by simp [answerWithin, given]⟩

theorem serves_of_failed {diagnostic : Diagnostic} (plain : request.registers = false)
    (given : ∀ steps,
      (Pull.requestWithin steps request).run? (.atIndex source text index diagnostics tables) =
        some (.error diagnostic, .atIndex source text index diagnostics tables))
    (answered : Parser.answer ⟨tables.grammar, .atIndex source text index, diagnostics⟩ request =
      some (.failed diagnostic, ⟨tables.grammar, .atIndex source text index, diagnostics⟩)) :
    Serves source text index diagnostics tables request where
  sound := by
    intro steps reply' after same
    rw [answerWithin, given] at same
    cases same
    refine ⟨index, [], Nat.le_refl index, ?_, fun _ => rfl, ?_⟩
    · rw [List.append_nil, tables.register_of_plain plain]
    · rw [view_atIndex]
      exact answered
  complete := by
    intro _ _ _
    exact ⟨0, by simp [answerWithin, given]⟩

theorem serves_of_settles {α : Type} {wrap : α → Parser.Reply} {outcome : Outcome α}
    {actions : Nat → Pull α} (plain : request.registers = false)
    (settles : Pull.Settles source text diagnostics tables index outcome
      fun steps => (actions steps).run? (.atIndex source text index diagnostics tables))
    (asked : ∀ steps,
      Pull.requestWithin steps request = actions steps >>= fun value => pure (wrap value))
    (answered : Parser.answer ⟨tables.grammar, .atIndex source text index, diagnostics⟩ request =
      Parser.settle ⟨tables.grammar, .atIndex source text index, diagnostics⟩ wrap outcome) :
    Serves source text index diagnostics tables request where
  sound := by
    intro steps reply after same
    rw [answerWithin, asked, Pull.run?_bind] at same
    rw [tables.register_of_plain plain, view_atIndex, answered]
    cases read : (actions steps).run? (.atIndex source text index diagnostics tables) with
    | none => simp [read] at same
    | some pair =>
        have agrees := settles.agrees steps (by simp [read])
        rw [read] at agrees same
        cases agrees with
        | @done value later forward =>
            cases same
            refine ⟨later, [], forward, by rw [List.append_nil], fun _ => rfl, ?_⟩
            rw [view_atIndex]
            rfl
        | @failed diagnostic later forward =>
            cases same
            refine ⟨later, [], forward, by rw [List.append_nil], fun _ => rfl, ?_⟩
            rw [view_atIndex]
            rfl
  complete := by
    intro reply shown given
    rw [view_atIndex, answered] at given
    have finished : outcome ≠ .unfinished := by
      rintro rfl
      cases given
    refine ⟨Parse.budget (.atIndex source text index), answerWithin_ne_none ?_⟩
    rw [asked]
    exact Pull.run?_bind_pure_ne_none wrap (settles.enough finished _ (Nat.le_refl _))

theorem serves_program (same : tables.SameKeys) :
    Serves source text index diagnostics tables .program where
  sound := by
    intro steps reply after given
    rw [answerWithin, Pull.requestWithin, Pull.run?_bind] at given
    cases read : (Pull.programWithin steps []).run?
        (.atIndex source text index diagnostics tables) with
    | none => simp [read] at given
    | some result =>
        obtain ⟨ran, later, forward, runs, rest_eq, rfl⟩ := Pull.runs_of_programWithin same read
        rw [read] at given
        cases given
        refine ⟨later, ran.diagnostics, forward, rfl, fun other => (other rfl).elim, ?_⟩
        rw [view_atIndex, view_atIndex, Parser.answer, Parser.program_of_runs runs, rest_eq]
        rfl
  complete := by
    intro reply shown given
    rw [view_atIndex, Parser.answer, Parser.program, Option.map_map,
      Option.map_eq_some_iff] at given
    obtain ⟨ran, found, _⟩ := given
    refine ⟨Parse.budget (.atIndex source text index) + 1, answerWithin_ne_none ?_⟩
    exact Pull.run?_bind_pure_ne_none Parser.Reply.program
      (Pull.programWithin_ne_none same (Parse.runs_of_run found) (Nat.lt_succ_self _))

theorem serves_expect (kind : Kind) :
    Serves source text index diagnostics tables (.expect kind) := by
  by_cases met : (tokenAt source text (index + 1)).kind = kind
  · apply serves_of_done (Nat.le_succ index)
    · intro _
      rw [Pull.requestWithin, Pull.run?_expect, next_atIndex, if_pos met, advance_atIndex]
      rfl
    · rw [Parser.answer, Window.expect, Window.next_atIndex, if_pos met, Window.advance_atIndex]
      rfl
  · apply serves_of_failed rfl
    · intro _
      rw [Pull.requestWithin, Pull.run?_expect, next_atIndex, if_neg met]
    · rw [Parser.answer, Window.expect, Window.next_atIndex, if_neg met]

/-- Every request is served from every index, with tables that have the same keys. -/
theorem serves (same : tables.SameKeys) (request : Parser.Request) :
    Serves source text index diagnostics tables request := by
  cases request with
  | advance =>
      apply serves_of_done (Nat.le_succ index)
      · intro _
        rw [Pull.requestWithin, Pull.run?_modify, advance_atIndex]
        rfl
      · rw [Parser.answer, Window.advance_atIndex]
        rfl
  | skipToSemicolon =>
      apply serves_of_done (le_semicolonFrom source text index)
      · intro _
        rw [Pull.requestWithin, Pull.run?_modify, skipToSemicolon_atIndex]
        rfl
      · rw [Parser.answer, LetLang.skipToSemicolon_atIndex]
        rfl
  | current =>
      apply serves_of_done (Nat.le_refl index) (fun _ => rfl)
      rw [Parser.answer, Window.current_atIndex]
      rfl
  | currentIs kind =>
      apply serves_of_done (Nat.le_refl index) (fun _ => rfl)
      rw [Parser.answer, Window.current_atIndex]
      rfl
  | nextIs kind =>
      apply serves_of_done (Nat.le_refl index) (fun _ => rfl)
      rw [Parser.answer, Window.next_atIndex]
      rfl
  | precedences =>
      apply serves_of_done (Nat.le_refl index) (fun _ => rfl)
      rw [Parser.answer, Window.current_atIndex, Window.next_atIndex]
      rfl
  | diagnostics => exact serves_of_done (Nat.le_refl index) (fun _ => rfl) rfl
  | entries =>
      apply serves_of_done (Nat.le_refl index) (fun _ => rfl)
      have operators : Grammar.entries tables.precedence? = Kind.all.filter tables.operator :=
        List.filter_congr fun kind _ => (Bool.eq_iff_iff.mpr (same kind)).symm
      rw [Parser.answer, Tables.grammar, operators]
      rfl
  | addForm kind form => exact serves_of_done (Nat.le_refl index) (fun _ => rfl) rfl
  | addOperand kind operand => exact serves_of_done (Nat.le_refl index) (fun _ => rfl) rfl
  | addOperator kind precedence => exact serves_of_done (Nat.le_refl index) (fun _ => rfl) rfl
  | expect kind => exact serves_expect kind
  | program => exact serves_program same
  | stmt =>
      exact serves_of_settles rfl (Pull.stmt_settles source text diagnostics same index)
        (fun _ => rfl) rfl
  | form form =>
      exact serves_of_settles rfl (Pull.formStmt_settles source text diagnostics same form index)
        (fun _ => rfl) rfl
  | expr floor =>
      exact serves_of_settles rfl (Pull.expr_settles source text diagnostics same floor index)
        (fun _ => rfl) rfl
  | binary left =>
      exact serves_of_settles rfl (Pull.binary_settles source text diagnostics same left index)
        (fun _ => rfl) rfl
  | operand operand =>
      cases operand with
      | name => exact serves_of_settles rfl Pull.name_agrees.settles (fun _ => rfl) rfl
      | integer => exact serves_of_settles rfl Pull.integer_agrees.settles (fun _ => rfl) rfl
      | operator =>
          exact serves_of_settles rfl (Pull.unary_settles source text diagnostics same index)
            (fun _ => rfl) rfl

end Requests

/-- An expectation that is not met changes nothing. -/
theorem eq_of_expect_failed {steps : Nat} {parser after : PullParser} {kind : Kind}
    {diagnostic : Diagnostic}
    (answered : parser.answerWithin steps (.expect kind) = some (.failed diagnostic, after)) :
    after = parser := by
  rw [answerWithin, Pull.requestWithin, Pull.run?_expect] at answered
  split at answered
  · cases answered
  · cases answered
    rfl

structure Keeps (request : Parser.Request) (before : PullParser) (reply : Parser.Reply)
    (after : PullParser) : Prop where
  diagnostics_eq : request ≠ .program → after.diagnostics = before.diagnostics
  diagnostics_grow : before.diagnostics <+: after.diagnostics
  tables_eq : request.registers = false → after.tables = before.tables
  registered : after.tables = before.tables.register request
  expect_failed : ∀ kind diagnostic, request = .expect kind → reply = .failed diagnostic →
    after = before

/-- A parser at an index of a text: it holds the token there and the next one, and draws those
behind them. No token that continues an expression lacks an operator, whatever the parser holds, so
reading gives what it gives where only precedences are looked up. -/
structure Stands (source text : String) (index : Nat) (parser : PullParser) : Prop where
  current : parser.current = tokenAt source text index
  next : parser.next = tokenAt source text (index + 1)
  cursor : parser.cursor = .drop (index + 2) (.ofText source text)
  same_keys : ∀ kind,
    parser.tables.operator kind = true ↔ (parser.tables.precedence? kind).isSome = true
  never_stops : ∀ floor (other : PullParser), other.tables = parser.tables →
    other.continues floor = true → other.tables.operator other.next.kind = true
  reads_alike : ∀ steps floor,
    Pull.Agrees source text parser.diagnostics parser.tables index
      (Parse.exprWithin parser.tables.grammar steps floor (.atIndex source text index))
      ((Pull.exprWithin steps floor).run? parser)

/-- A row of answers along a text: the parser stands at an index before each of them and behind the
last, and the indices never decrease. -/
inductive Walks (source text : String) :
    Nat → PullParser → List Parser.Request → List (Parser.Reply × PullParser) → Prop where
  | nil {index : Nat} {parser : PullParser} (stands : Stands source text index parser) :
      Walks source text index parser [] []
  | cons {index later : Nat} {parser after : PullParser} {request : Parser.Request}
      {reply : Parser.Reply} {requests : List Parser.Request}
      {replies : List (Parser.Reply × PullParser)}
      (stands : Stands source text index parser) (keeps : Keeps request parser reply after)
      (forward : index ≤ later) (rest : Walks source text later after requests replies) :
      Walks source text index parser (request :: requests) ((reply, after) :: replies)

section Walk

variable {source text : String} {index : Nat} {diagnostics : List Diagnostic} {tables : Tables}

theorem stands_atIndex (same : tables.SameKeys) :
    Stands source text index (.atIndex source text index diagnostics tables) where
  current := rfl
  next := rfl
  cursor := rfl
  same_keys := same
  never_stops := by
    intro floor other tables_eq goes
    rw [tables_eq]
    rw [continues, precedence, tables_eq, Bool.and_eq_true, decide_eq_true_eq] at goes
    exact (same other.next.kind).mpr (Parse.operator?_isSome_of_lt goes.2)
  reads_alike := by
    intro steps floor
    have agrees := (Pull.within_agrees source text diagnostics tables steps).1 floor index
    rwa [(same.within_eq steps).1] at agrees

theorem keeps_of_answer {steps : Nat} {parser after : PullParser} {request : Parser.Request}
    {reply : Parser.Reply} (parser_eq : parser = .atIndex source text index diagnostics tables)
    (same : tables.SameKeys) (answered : parser.answerWithin steps request = some (reply, after)) :
    Keeps request parser reply after := by
  have expect_failed : ∀ kind diagnostic, request = .expect kind → reply = .failed diagnostic →
      after = parser := by
    rintro kind diagnostic rfl rfl
    exact eq_of_expect_failed answered
  rw [parser_eq] at answered expect_failed ⊢
  obtain ⟨later, collected, _, after_eq, others, _⟩ :=
    (serves same request).sound steps reply after answered
  rw [after_eq] at expect_failed ⊢
  refine ⟨?_, List.prefix_append _ _, ?_, rfl, expect_failed⟩
  · intro other
    show diagnostics ++ collected = diagnostics
    rw [others other, List.append_nil]
  · intro plain
    exact tables.register_of_plain plain

theorem walks_of_answers {parser : PullParser} {requests : List Parser.Request}
    {replies : List (Parser.Reply × PullParser)} (answers : Answers parser requests replies)
    (parser_eq : parser = .atIndex source text index diagnostics tables) (same : tables.SameKeys) :
    Walks source text index parser requests replies := by
  induction answers generalizing index diagnostics tables with
  | nil parser =>
      rw [parser_eq]
      exact .nil (stands_atIndex same)
  | @cons parser after request reply requests replies steps first later ih =>
      obtain ⟨further, collected, forward, after_eq, _, _⟩ :=
        (serves same request).sound steps reply after (parser_eq ▸ first)
      have stands : Stands source text index parser := by
        rw [parser_eq]
        exact stands_atIndex same
      exact .cons stands (keeps_of_answer parser_eq same first) forward
        (ih after_eq (same.register request))

/-- On demand there are answers exactly where the parser on the window has them, and the same. -/
theorem answers_iff (same : tables.SameKeys) (requests : List Parser.Request)
    (shown : List (Parser.Reply × Parser)) :
    (atIndex source text index diagnostics tables).view.answers requests = some shown ↔
      ∃ replies, Answers (.atIndex source text index diagnostics tables) requests replies ∧
        shown = replies.map fun answer => (answer.1, answer.2.view) := by
  induction requests generalizing index diagnostics tables shown with
  | nil =>
      constructor
      · rintro ⟨⟩
        exact ⟨[], .nil _, rfl⟩
      · rintro ⟨replies, ⟨⟩, rfl⟩
        rfl
  | cons request requests ih =>
      simp only [Parser.answers, Option.bind_eq_bind, Option.bind_eq_some_iff, Option.pure_def,
        Option.some.injEq]
      constructor
      · rintro ⟨⟨reply, passed⟩, first, others, later, rfl⟩
        obtain ⟨steps, given⟩ := (serves same request).complete reply passed first
        obtain ⟨⟨reply', after⟩, answered⟩ := Option.ne_none_iff_exists'.mp given
        obtain ⟨_, _, _, after_eq, _, seen⟩ :=
          (serves same request).sound steps reply' after answered
        rw [first] at seen
        cases seen
        rw [after_eq] at later
        obtain ⟨replies, answers, rfl⟩ := (ih (same.register request) others).mp later
        rw [← after_eq] at answers
        exact ⟨(reply, after) :: replies, .cons steps answered answers, rfl⟩
      · rintro ⟨replies, answers, rfl⟩
        cases answers with
        | @cons _ after _ reply _ replies steps first later =>
          obtain ⟨_, _, _, after_eq, _, seen⟩ :=
            (serves same request).sound steps reply after first
          refine ⟨(reply, after.view), seen,
            replies.map fun answer => (answer.1, answer.2.view), ?_, rfl⟩
          rw [after_eq] at later ⊢
          exact (ih (same.register request) _).mpr ⟨replies, later, rfl⟩

end Walk

/-- However a parser is worked from the start of its text, or from any token on, it walks along the
tokens of that text. There are answers exactly where the parser on a window has them, and the same
ones. -/
theorem answers_walk (source text : String) (drawn : Nat) (requests : List Parser.Request) :
    let cursor := Cursor.drop drawn (.ofText source text)
    (∀ replies, Answers (ofCursor cursor) requests replies →
      Walks source text drawn (ofCursor cursor) requests replies) ∧
    ∀ shown, (Parser.ofCursor cursor).answers requests = some shown ↔
      ∃ replies, Answers (ofCursor cursor) requests replies ∧
        shown = replies.map fun answer => (answer.1, answer.2.view) := by
  intro cursor
  have start : ofCursor cursor = .atIndex source text drawn [] .standard :=
    ofCursor_drop source text drawn
  constructor
  · intro replies answers
    exact walks_of_answers answers start Tables.sameKeys_standard
  · intro shown
    have view_eq : Parser.ofCursor cursor = (ofCursor cursor).view := by
      rw [start, view_atIndex, Tables.grammar_standard, Parser.ofCursor, Window.ofCursor_drop]
    rw [view_eq, start]
    exact answers_iff Tables.sameKeys_standard requests shown

theorem answers_walk_past_end :
    let parser := ofCursor (.drop 1 (.ofText shellName "x -a + b; let 5"))
    let requests : List Parser.Request :=
      [.expr .lowest, .expect .ident, .addOperator .semicolon .sum, .advance, .program, .advance]
    ∃ replies, Answers parser requests replies ∧
      Walks shellName "x -a + b; let 5" 1 parser requests replies ∧
      (replies.map fun answer => answer.2.current.literal) = ["b", "b", "b", ";", "", ""] ∧
      (replies.map fun answer => answer.2.diagnostics.length) = [0, 0, 0, 0, 2, 2] := by
  intro parser requests
  have shown : (parser.answersWithin 9 requests).map (fun replies =>
      (replies.map fun answer => answer.2.current.literal,
        replies.map fun answer => answer.2.diagnostics.length)) =
      some (["b", "b", "b", ";", "", ""], [0, 0, 0, 0, 2, 2]) := by decide +kernel
  obtain ⟨replies, answered, seen⟩ := Option.map_eq_some_iff.mp shown
  have answers := Answers.of_within answered
  have walks := (answers_walk shellName "x -a + b; let 5" 1 requests).1 replies answers
  rw [Prod.mk.injEq] at seen
  exact ⟨replies, answers, walks, seen⟩

end PullParser

end LetLang
