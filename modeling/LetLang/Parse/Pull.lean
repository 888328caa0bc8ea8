import LetLang.Parse.Tables

set_option autoImplicit false

namespace LetLang

/-- A parser that draws its tokens one at a time. It holds the current token and the next one, and a
cursor that draws the others. -/
structure PullParser where
  cursor : Cursor
  current : Token
  next : Token
  /-- The diagnostics of all program runs. -/
  diagnostics : List Diagnostic
  tables : Tables

namespace PullParser

def ofCursor (cursor : Cursor) : PullParser :=
  let (current, behind) := cursor.next
  let (next, ahead) := behind.next
  ⟨ahead, current, next, [], .standard⟩

/-- Makes the next token the current one, and draws another. -/
def advance (parser : PullParser) : PullParser :=
  let (token, after) := parser.cursor.next
  { parser with cursor := after, current := parser.next, next := token }

/-- A bound on the moves that lead to the end token. -/
def moves (parser : PullParser) : Nat :=
  if parser.current.kind = .eof then 0
  else if parser.next.kind = .eof then 1
  else parser.cursor.tokens.length + 2

theorem moves_advance_lt {parser : PullParser} (inside : parser.current.kind ≠ .eof) :
    parser.advance.moves < parser.moves := by
  cases step : parser.cursor.next? with
  | none =>
      have ended : parser.cursor.next.1.kind = .eof := by
        simp [Cursor.next, step, Cursor.endToken]
      simp only [moves, advance, inside, ended, ↓reduceIte]
      split <;> omega
  | some pair =>
      have drawn : parser.cursor.next = pair := by simp [Cursor.next, step]
      have fewer := Cursor.tokens_of_some step
      simp only [moves, advance, inside, drawn, fewer, List.length_cons, ↓reduceIte]
      split
      · omega
      · split <;> omega

def skipToSemicolon (parser : PullParser) : PullParser :=
  if _stops : parser.current.kind = .semicolon ∨ parser.current.kind = .eof then parser
  else parser.advance.skipToSemicolon
termination_by parser.moves
decreasing_by exact moves_advance_lt (mt .inr _stops)

def closeStmt (parser : PullParser) : PullParser :=
  if parser.next.is .semicolon then parser.advance else parser

def collect (diagnostic : Diagnostic) (parser : PullParser) : PullParser :=
  { parser with diagnostics := parser.diagnostics ++ [diagnostic] }

def register (request : Parser.Request) (parser : PullParser) : PullParser :=
  { parser with tables := parser.tables.register request }

def precedence (parser : PullParser) (kind : Kind) : Precedence :=
  parser.tables.grammar.precedence kind

def continues (floor : Precedence) (parser : PullParser) : Bool :=
  !parser.next.is .semicolon && floor < parser.precedence parser.next.kind

theorem skipToSemicolon_of_stop {parser : PullParser}
    (stops : parser.current.kind = .semicolon ∨ parser.current.kind = .eof) :
    parser.skipToSemicolon = parser := by
  rw [skipToSemicolon, dif_pos stops]

theorem skipToSemicolon_of_ne {parser : PullParser} (apart : parser.current.kind ≠ .semicolon)
    (inside : parser.current.kind ≠ .eof) :
    parser.skipToSemicolon = parser.advance.skipToSemicolon := by
  rw [skipToSemicolon, dif_neg (not_or.mpr ⟨apart, inside⟩)]

end PullParser

/-- An action of a pull parser. When it fails, the parser stays as it was left, and when it does not
come to an end, there is no result. -/
abbrev Pull := ExceptT Diagnostic (StateT PullParser Option)

namespace Pull

variable {α β : Type}

def run? (action : Pull α) (parser : PullParser) : Option (Except Diagnostic α × PullParser) :=
  StateT.run (ExceptT.run action) parser

def unfinished : Pull α :=
  ExceptT.mk fun _ => none

/-- The result of an action, which is no failure of the whole. -/
def attempt (action : Pull α) : Pull (Except Diagnostic α) :=
  ExceptT.lift (ExceptT.run action)

def expect (kind : Kind) : Pull Unit := do
  let parser ← get
  if parser.next.kind = kind then
    set parser.advance
  else
    throw ⟨.unexpected kind parser.next.kind, parser.next.start⟩

def name : Pull Expr := do
  let parser ← get
  return .name (.ofToken parser.current)

def integer : Pull Expr := do
  let parser ← get
  match Decimal.read? parser.current.literal with
  | some value => return .integer parser.current value
  | none => throw ⟨.badInteger parser.current.literal, parser.current.start⟩

def unaryWith (expr : Precedence → Pull Expr) : Pull Expr := do
  let parser ← get
  modify PullParser.advance
  let right ← expr .unary
  return .unary parser.current parser.current.literal right

def binaryWith (expr : Precedence → Pull Expr) (left : Expr) : Pull Expr := do
  let parser ← get
  modify PullParser.advance
  let right ← expr (parser.precedence parser.current.kind)
  return .binary parser.current left parser.current.literal right

def operandOfWith (expr : Precedence → Pull Expr) : Operand → Pull Expr
  | .name => name
  | .integer => integer
  | .operator => unaryWith expr

def operandWith (expr : Precedence → Pull Expr) : Pull Expr := do
  let parser ← get
  match parser.tables.operand? parser.current.kind with
  | none =>
      throw ⟨.noOperand parser.current.kind parser.current.literal, parser.current.start⟩
  | some operand => operandOfWith expr operand

mutual

def exprWithin : Nat → Precedence → Pull Expr
  | 0, _ => unfinished
  | steps + 1, floor => do
      let left ← operandWith (exprWithin steps)
      extendWithin steps floor left

/-- Continues an expression, where a strong token that is no operator is left alone. -/
def extendWithin : Nat → Precedence → Expr → Pull Expr
  | 0, _, _ => unfinished
  | steps + 1, floor, left => do
      let parser ← get
      if parser.continues floor then
        if parser.tables.operator parser.next.kind then
          modify PullParser.advance
          let joined ← binaryWith (exprWithin steps) left
          extendWithin steps floor joined
        else
          return left
      else
        return left

end

def binding : Pull Stmt := do
  let parser ← get
  expect .ident
  let named ← get
  expect .assign
  modify PullParser.skipToSemicolon
  return .binding parser.current (.ofToken named.current) none

def returning : Pull Stmt := do
  let parser ← get
  modify PullParser.advance
  modify PullParser.skipToSemicolon
  return .returning parser.current none

def exprStmtWithin (steps : Nat) : Pull Stmt := do
  let parser ← get
  let value ← exprWithin steps .lowest
  modify PullParser.closeStmt
  return .expression parser.current value

def formStmtWithin (steps : Nat) : Form → Pull Stmt
  | .binding => binding
  | .returning => returning
  | .expression => exprStmtWithin steps

def stmtWithin (steps : Nat) : Pull Stmt := do
  let parser ← get
  formStmtWithin steps ((parser.tables.form? parser.current.kind).getD .expression)

/-- Reads statements up to the end token. The diagnostic of one that fails is kept, and reading goes
on behind the next semicolon. -/
def programWithin : Nat → List Stmt → Pull Program
  | 0, _ => unfinished
  | steps + 1, statements => do
      let parser ← get
      if parser.current.is .eof then
        return ⟨statements⟩
      else
        match ← attempt (stmtWithin steps) with
        | .ok value =>
            modify PullParser.advance
            programWithin steps (statements ++ [value])
        | .error diagnostic =>
            modify (PullParser.collect diagnostic)
            modify PullParser.skipToSemicolon
            modify PullParser.advance
            programWithin steps statements

def requestWithin (steps : Nat) : Parser.Request → Pull Parser.Reply
  | .advance => do
      modify PullParser.advance
      return .nothing
  | .skipToSemicolon => do
      modify PullParser.skipToSemicolon
      return .nothing
  | .current => do
      let parser ← get
      return .current parser.current
  | .currentIs kind => do
      let parser ← get
      return .verdict (parser.current.is kind)
  | .nextIs kind => do
      let parser ← get
      return .verdict (parser.next.is kind)
  | .expect kind => do
      expect kind
      return .met
  | .precedences => do
      let parser ← get
      return .precedences (parser.precedence parser.current.kind)
        (parser.precedence parser.next.kind)
  | .diagnostics => do
      let parser ← get
      return .diagnostics parser.diagnostics
  | .entries => do
      let parser ← get
      return .entries (Grammar.entries parser.tables.form?) (Grammar.entries parser.tables.operand?)
        (Kind.all.filter parser.tables.operator)
  | .addForm kind form => do
      modify (PullParser.register (.addForm kind form))
      return .nothing
  | .addOperand kind operand => do
      modify (PullParser.register (.addOperand kind operand))
      return .nothing
  | .addOperator kind precedence => do
      modify (PullParser.register (.addOperator kind precedence))
      return .nothing
  | .stmt => do
      let value ← stmtWithin steps
      return .stmt value
  | .form form => do
      let value ← formStmtWithin steps form
      return .stmt value
  | .expr floor => do
      let value ← exprWithin steps floor
      return .expr value
  | .operand operand => do
      let value ← operandOfWith (exprWithin steps) operand
      return .expr value
  | .binary left => do
      let value ← binaryWith (exprWithin steps) left
      return .expr value
  | .program => do
      let program ← programWithin steps []
      return .program program

@[simp] theorem run?_pure (value : α) (parser : PullParser) :
    run? (pure value) parser = some (.ok value, parser) := rfl

@[simp] theorem run?_throw (diagnostic : Diagnostic) (parser : PullParser) :
    run? (throw diagnostic : Pull α) parser = some (.error diagnostic, parser) := rfl

@[simp] theorem run?_unfinished (parser : PullParser) :
    run? (unfinished : Pull α) parser = none := rfl

@[simp] theorem run?_get (goes : PullParser → Pull α) (parser : PullParser) :
    run? (get >>= goes) parser = run? (goes parser) parser := rfl

@[simp] theorem run?_set (after parser : PullParser) :
    run? (set after) parser = some (.ok (), after) := rfl

@[simp] theorem run?_modify (f : PullParser → PullParser) (goes : Unit → Pull α)
    (parser : PullParser) : run? (modify f >>= goes) parser = run? (goes ()) (f parser) := rfl

theorem run?_bind (action : Pull α) (goes : α → Pull β) (parser : PullParser) :
    run? (action >>= goes) parser =
      (run? action parser).bind fun (result, after) =>
        match result with
        | .ok value => run? (goes value) after
        | .error diagnostic => some (.error diagnostic, after) := by
  simp only [run?, ExceptT.run_bind, StateT.run_bind, Option.bind_eq_bind]
  congr 1
  funext ⟨result, after⟩
  cases result <;> rfl

theorem run?_bind_pure_ne_none {action : Pull α} {parser : PullParser} (f : α → β)
    (given : run? action parser ≠ none) :
    run? (action >>= fun value => pure (f value)) parser ≠ none := by
  rw [run?_bind]
  cases result : run? action parser with
  | none => exact (given result).elim
  | some pair => rcases pair with ⟨_ | _, _⟩ <;> simp

theorem run?_expect (kind : Kind) (goes : Unit → Pull α) (parser : PullParser) :
    run? (expect kind >>= goes) parser =
      if parser.next.kind = kind then run? (goes ()) parser.advance
      else some (.error ⟨.unexpected kind parser.next.kind, parser.next.start⟩, parser) := by
  rw [run?_bind, expect, run?_get]
  split <;> rfl

theorem run?_attempt (action : Pull α) (parser : PullParser) :
    run? (attempt action) parser =
      (run? action parser).map fun (result, after) => (.ok result, after) := by
  simp only [run?, attempt, ExceptT.run_lift, StateT.run_map]
  rfl

end Pull

namespace PullParser

def answerWithin (steps : Nat) (parser : PullParser) (request : Parser.Request) :
    Option (Parser.Reply × PullParser) :=
  ((Pull.requestWithin steps request).run? parser).map fun
    | (.ok reply, after) => (reply, after)
    | (.error diagnostic, after) => (.failed diagnostic, after)

theorem answerWithin_ne_none {steps : Nat} {parser : PullParser} {request : Parser.Request}
    (given : (Pull.requestWithin steps request).run? parser ≠ none) :
    parser.answerWithin steps request ≠ none := by
  simpa [answerWithin] using given

/-- A row of answers, each given in some number of steps. -/
inductive Answers : PullParser → List Parser.Request → List (Parser.Reply × PullParser) → Prop where
  | nil (parser : PullParser) : Answers parser [] []
  | cons {parser after : PullParser} {request : Parser.Request} {reply : Parser.Reply}
      {requests : List Parser.Request} {replies : List (Parser.Reply × PullParser)} (steps : Nat)
      (first : parser.answerWithin steps request = some (reply, after))
      (later : Answers after requests replies) :
      Answers parser (request :: requests) ((reply, after) :: replies)

def answersWithin (steps : Nat) (parser : PullParser) :
    List Parser.Request → Option (List (Parser.Reply × PullParser))
  | [] => some []
  | request :: requests => do
      let (reply, after) ← parser.answerWithin steps request
      let later ← after.answersWithin steps requests
      return (reply, after) :: later

theorem Answers.of_within {steps : Nat} {parser : PullParser} {requests : List Parser.Request}
    {replies : List (Parser.Reply × PullParser)}
    (answered : parser.answersWithin steps requests = some replies) :
    Answers parser requests replies := by
  induction requests generalizing parser replies with
  | nil =>
      cases answered
      exact .nil parser
  | cons request requests ih =>
      simp only [answersWithin, Option.bind_eq_bind, Option.bind_eq_some_iff, Option.pure_def,
        Option.some.injEq] at answered
      obtain ⟨⟨reply, after⟩, first, others, later, rfl⟩ := answered
      exact .cons steps first (ih later)

end PullParser

end LetLang
