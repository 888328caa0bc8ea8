import LetLang.Proofs.Budget

/-!
How the operations of an expression are grouped, for any grammar. Two lists of precedences decide
it: those of the binary operations on the left spine of a tree, and the floors that are in force
on its right spine. A tree that is read takes up every token that is passed over, has stronger
operations on its left spine than the floor, and stops where no floor on its right spine allows
more. Conversely, a tree of this kind is what a closed grammar reads from its tokens.
-/

set_option autoImplicit false

namespace LetLang

/-- The tokens from the current one of a window up to the current one of another, further on in
the same sequence. -/
inductive Window.Through : Window → List Token → Window → Prop where
  | here (window : Window) : Through window [window.current] window
  | step {window rest : Window} {tokens : List Token} (later : Through window.advance tokens rest) :
      Through window (window.current :: tokens) rest

namespace Window.Through

theorem append {window middle rest : Window} {front back : List Token}
    (first : window.Through front middle) (second : middle.advance.Through back rest) :
    window.Through (front ++ back) rest := by
  induction first with
  | here window => exact .step second
  | step later ih => exact .step (ih second)

theorem of_append (tokens later : List Token) (stop : Token) (some_token : tokens ≠ []) :
    Window.Through ⟨tokens ++ later, stop⟩ tokens ⟨tokens.getLast some_token :: later, stop⟩ := by
  induction tokens with
  | nil => contradiction
  | cons first tokens ih =>
      by_cases empty : tokens = []
      · subst empty
        exact .here ⟨first :: later, stop⟩
      · rw [List.getLast_cons empty]
        exact .step (ih empty)

theorem follows {window rest : Window} {tokens : List Token}
    (through : window.Through tokens rest) : rest.Follows window := by
  induction through with
  | here window => exact .refl window
  | step later ih => exact ih.trans (.advance _)

theorem ne_nil {window rest : Window} {tokens : List Token}
    (through : window.Through tokens rest) : tokens ≠ [] := by
  cases through <;> simp

theorem head?_eq {window rest : Window} {tokens : List Token}
    (through : window.Through tokens rest) : tokens.head? = some window.current := by
  cases through <;> rfl

theorem getLast?_eq {window rest : Window} {tokens : List Token}
    (through : window.Through tokens rest) : tokens.getLast? = some rest.current := by
  induction through with
  | here window => rfl
  | step later ih => rw [List.getLast?_cons_of_ne_nil later.ne_nil, ih]

theorem pending_eq {window rest : Window} {tokens : List Token}
    (through : window.Through tokens rest) (some_token : rest.pending ≠ []) :
    window.pending = tokens ++ rest.advance.pending := by
  induction through with
  | here window => exact window.pending_eq_cons some_token
  | step later ih =>
      have rest_eq := ih some_token
      rename_i window rest tokens
      have inside : window.pending ≠ [] := by
        rintro empty
        simp [empty, later.ne_nil] at rest_eq
      rw [window.pending_eq_cons inside, rest_eq, List.cons_append]

theorem singleton {window rest : Window} {token : Token}
    (through : window.Through [token] rest) : window.current = token ∧ window = rest := by
  cases through with
  | here => exact ⟨rfl, rfl⟩
  | step later => exact (later.ne_nil rfl).elim

theorem tail {window rest : Window} {first : Token} {tokens : List Token}
    (through : window.Through (first :: tokens) rest) (some_token : tokens ≠ []) :
    window.current = first ∧ window.advance.Through tokens rest := by
  cases through with
  | here => contradiction
  | step later => exact ⟨rfl, later⟩

/-- The tokens can be cut anywhere, and the second part begins behind the first. -/
theorem split {window rest : Window} {front back : List Token}
    (through : window.Through (front ++ back) rest) (front_some : front ≠ [])
    (back_some : back ≠ []) :
    ∃ middle, window.Through front middle ∧ middle.advance.Through back rest := by
  induction front generalizing window with
  | nil => contradiction
  | cons first front ih =>
      have after := through.tail (List.append_ne_nil_of_right_ne_nil front back_some)
      by_cases empty : front = []
      · subst empty
        rw [← after.1]
        exact ⟨window, .here window, after.2⟩
      · obtain ⟨middle, begins, goes_on⟩ := ih after.2 empty
        rw [← after.1]
        exact ⟨middle, .step begins, goes_on⟩

end Window.Through

namespace Expr

/-- The precedences of the binary operations on the left spine, from the root down. -/
def leftSpine (grammar : Grammar) : Expr → List Precedence
  | .binary token left _ _ => grammar.precedence token.kind :: left.leftSpine grammar
  | _ => []

/-- The floors above which the operands on the right spine were read, from the root down. -/
def rightFloors (grammar : Grammar) : Expr → List Precedence
  | .unary _ _ right => .unary :: right.rightFloors grammar
  | .binary token _ _ right => grammar.precedence token.kind :: right.rightFloors grammar
  | _ => []

/-- Every node is made from its token in a way that the grammar allows. -/
def Formed (grammar : Grammar) : Expr → Prop
  | .name ident =>
      grammar.operand? ident.token.kind = some .name ∧ ident.value = ident.token.literal
  | .integer token value =>
      grammar.operand? token.kind = some .integer ∧ Decimal.read? token.literal = some value
  | .unary token operator right =>
      grammar.operand? token.kind = some .operator ∧ operator = token.literal ∧
        right.Formed grammar
  | .binary token left operator right =>
      (grammar.operator? token.kind).isSome = true ∧ token.kind ≠ .semicolon ∧
        operator = token.literal ∧ left.Formed grammar ∧ right.Formed grammar

/-- Every operation has the operands that its precedence gives it: behind a unary operator and
behind a binary one the left spine is stronger, and in front of a binary one no floor on the right
spine is weaker. -/
def Grouped (grammar : Grammar) : Expr → Prop
  | .unary _ _ right =>
      (∀ strength ∈ right.leftSpine grammar, .unary < strength) ∧ right.Grouped grammar
  | .binary token left _ right =>
      (∀ floor ∈ left.rightFloors grammar, grammar.precedence token.kind ≤ floor) ∧
        (∀ strength ∈ right.leftSpine grammar, grammar.precedence token.kind < strength) ∧
        left.Grouped grammar ∧ right.Grouped grammar
  | _ => True

end Expr

namespace Parse

theorem operator?_isSome_of_lt {grammar : Grammar} {floor : Precedence} {kind : Kind}
    (above : floor < grammar.precedence kind) : (grammar.operator? kind).isSome = true := by
  cases entry : grammar.operator? kind with
  | none =>
      rw [Grammar.precedence, entry] at above
      exact (Precedence.not_lt_lowest floor above).elim
  | some strength => rfl

/-- Only an operator continues an expression. -/
theorem operator?_isSome_of_continues {grammar : Grammar} {floor : Precedence} {window : Window}
    (goes : continues grammar floor window = true) :
    (grammar.operator? window.next.kind).isSome = true :=
  operator?_isSome_of_lt ((continues_iff grammar floor window).mp goes).2

/-- A well-formed and well-grouped tree whose tokens lead from one window to another, where no
floor on its right spine lets it go on. -/
structure Reading (grammar : Grammar) (window : Window) (tree : Expr) (rest : Window) : Prop where
  through : window.Through tree.tokens rest
  formed : tree.Formed grammar
  grouped : tree.Grouped grammar
  stops : ∀ floor ∈ tree.rightFloors grammar, continues grammar floor rest = false

namespace Reading

variable {grammar : Grammar} {window rest : Window}

theorem name (starts : grammar.operand? window.current.kind = some .name) :
    Reading grammar window (.name (.ofToken window.current)) window where
  through := .here window
  formed := ⟨starts, rfl⟩
  grouped := trivial
  stops := by simp [Expr.rightFloors]

theorem integer {value : UInt64} (starts : grammar.operand? window.current.kind = some .integer)
    (fits : Decimal.read? window.current.literal = some value) :
    Reading grammar window (.integer window.current value) window where
  through := .here window
  formed := ⟨starts, fits⟩
  grouped := trivial
  stops := by simp [Expr.rightFloors]

/-- A unary operator takes what was read above its floor as its operand. -/
theorem unary {right : Expr} (starts : grammar.operand? window.current.kind = some .operator)
    (read : Reading grammar window.advance right rest)
    (above : ∀ strength ∈ right.leftSpine grammar, .unary < strength)
    (stopped : continues grammar .unary rest = false) :
    Reading grammar window (.unary window.current window.current.literal right) rest where
  through := .step read.through
  formed := ⟨starts, rfl, read.formed⟩
  grouped := ⟨above, read.grouped⟩
  stops := by
    intro floor member
    rcases List.mem_cons.mp member with rfl | deeper
    · exact stopped
    · exact read.stops floor deeper

/-- A binary operator that continues a tree takes it as its left operand. No floor on the right
spine of that tree let it go on, so none of them is weaker than the operator. -/
theorem binary {middle : Window} {left right : Expr} {floor : Precedence}
    (first : Reading grammar window left middle)
    (goes : continues grammar floor middle = true)
    (second : Reading grammar middle.advance.advance right rest)
    (above : ∀ strength ∈ right.leftSpine grammar,
      grammar.precedence middle.next.kind < strength)
    (stopped : continues grammar (grammar.precedence middle.next.kind) rest = false) :
    Reading grammar window (.binary middle.next left middle.next.literal right) rest where
  through := first.through.append (.step second.through)
  formed := ⟨operator?_isSome_of_continues goes,
    ((continues_iff grammar floor middle).mp goes).1, rfl, first.formed, second.formed⟩
  grouped := by
    refine ⟨?_, above, first.grouped, second.grouped⟩
    intro inner member
    have apart := ((continues_iff grammar floor middle).mp goes).1
    have held := (continues_eq_false_iff grammar inner middle).mp (first.stops inner member)
    exact held.resolve_left apart
  stops := by
    intro inner member
    rcases List.mem_cons.mp member with rfl | deeper
    · exact stopped
    · exact second.stops inner deeper

end Reading

/-- A reading above a floor, which ends where the floor does not let it go on. -/
structure ReadingAbove (grammar : Grammar) (floor : Precedence) (window : Window) (tree : Expr)
    (rest : Window) : Prop extends Reading grammar window tree rest where
  above : ∀ strength ∈ tree.leftSpine grammar, floor < strength
  stopped : continues grammar floor rest = false

/-- An operand is a reading without binary operations on its left spine. -/
theorem operandWith_reading {grammar : Grammar} {reader : ExprReader} {window rest : Window}
    {tree : Expr}
    (sub : ∀ floor window tree rest, reader floor window = .done tree rest →
      ReadingAbove grammar floor window tree rest)
    (read : operandWith grammar reader window = .done tree rest) :
    Reading grammar window tree rest ∧ tree.leftSpine grammar = [] := by
  unfold operandWith at read
  split at read
  · cases read
  · rename_i starts
    cases read
    exact ⟨.name starts, rfl⟩
  · rename_i starts
    unfold integer at read
    split at read
    · rename_i value fits
      cases read
      exact ⟨.integer starts fits, rfl⟩
    · cases read
  · rename_i starts
    obtain ⟨right, operand, rfl⟩ := (Outcome.map_eq_done_iff _ _ _ _).mp read
    have inner := sub .unary window.advance right rest operand
    exact ⟨.unary starts inner.toReading inner.above inner.stopped, rfl⟩

/-- Whatever the readers give within some steps is a reading above the floor. The second part
says so for a tree that is continued, wherever its reading began. -/
theorem within_reading (grammar : Grammar) (steps : Nat) :
    (∀ floor window tree rest, exprWithin grammar steps floor window = .done tree rest →
        ReadingAbove grammar floor window tree rest) ∧
      ∀ floor left window tree rest, extendWithin grammar steps floor left window = .done tree rest →
        ∀ first, Reading grammar first left window →
          (∀ strength ∈ left.leftSpine grammar, floor < strength) →
          ReadingAbove grammar floor first tree rest := by
  induction steps with
  | zero =>
      constructor
      · intro _ _ _ _ read
        cases read
      · intro _ _ _ _ _ read
        cases read
  | succ steps ih =>
      constructor
      · intro floor window tree rest read
        rw [exprWithin, Outcome.bind_eq_done_iff] at read
        obtain ⟨left, middle, operand, extended⟩ := read
        have begun := operandWith_reading ih.1 operand
        exact ih.2 floor left middle tree rest extended window begun.1 (by simp [begun.2])
      · intro floor left window tree rest read first begun above
        rw [extendWithin] at read
        split at read
        · rename_i goes
          obtain ⟨_, middle, operation, extended⟩ := (Outcome.bind_eq_done_iff _ _ _ _).mp read
          obtain ⟨right, operand, rfl⟩ := (Outcome.map_eq_done_iff _ _ _ _).mp operation
          have inner := ih.1 _ _ _ _ operand
          have floor_lt := ((continues_iff grammar floor window).mp goes).2
          refine ih.2 floor _ middle tree rest extended first
            (begun.binary goes inner.toReading inner.above inner.stopped) ?_
          intro strength member
          rcases List.mem_cons.mp member with rfl | deeper
          · exact floor_lt
          · exact above strength deeper
        · rename_i halts
          cases read
          exact ⟨begun, above, Bool.eq_false_iff.mpr halts⟩

theorem expr_reading {grammar : Grammar} {floor : Precedence} {window rest : Window} {tree : Expr}
    (read : expr grammar floor window = .done tree rest) :
    ReadingAbove grammar floor window tree rest :=
  (within_reading grammar _).1 floor window tree rest read

/-- An expression that is read takes up the tokens from the current one to the one it ends on, in
their order. The operations on its left spine are stronger than the floor, each operation has the
operands that its precedence gives it, and the reading ends at a semicolon or at a token that is
too weak for every floor in force there. -/
theorem expr_sound (grammar : Grammar) (floor : Precedence) (window rest : Window) (tree : Expr)
    (read : expr grammar floor window = .done tree rest) :
    window.Through tree.tokens rest ∧
      (∀ strength ∈ tree.leftSpine grammar, floor < strength) ∧
      tree.Grouped grammar ∧
      tree.Formed grammar ∧
      (rest.next.kind = .semicolon ∨
        ∀ inner ∈ floor :: tree.rightFloors grammar,
          grammar.precedence rest.next.kind ≤ inner) := by
  have reading := expr_reading read
  refine ⟨reading.through, reading.above, reading.grouped, reading.formed, ?_⟩
  by_cases semicolon : rest.next.kind = .semicolon
  · exact .inl semicolon
  · right
    intro inner member
    have halts : continues grammar inner rest = false := by
      rcases List.mem_cons.mp member with rfl | deeper
      · exact reading.stopped
      · exact reading.stops inner deeper
    exact ((continues_eq_false_iff grammar inner rest).mp halts).resolve_left semicolon

/-- A minus that is stronger than the unary operators stays in their operand. -/
theorem expr_sound_of_strong_minus :
    let grammar := Grammar.standard.addOperator .minus .call
    let window : Window :=
      ⟨[.ofLiteral .bang "!", .ofLiteral .ident "a", .ofLiteral .minus "-",
        .ofLiteral .ident "b", .ofLiteral .asterisk "*", .ofLiteral .ident "c"],
        .ofLiteral .eof ""⟩
    ∃ tree rest,
      expr grammar .lowest window = .done tree rest ∧ tree.render = "((!(a - b)) * c)" ∧
        window.Through tree.tokens rest ∧ tree.Grouped grammar := by
  intro grammar window
  have read : expr grammar .lowest window = .done _ _ := rfl
  have sound := expr_sound grammar .lowest window _ _ read
  exact ⟨_, _, read, by decide, sound.1, sound.2.2.1⟩

section Closed

variable {grammar : Grammar} (closed : grammar.operand? .eof = none)

theorem operand?_isSome_of_formed {tree : Expr} (formed : tree.Formed grammar) :
    ∃ last, tree.tokens.getLast? = some last ∧ (grammar.operand? last.kind).isSome = true := by
  induction tree with
  | name ident => exact ⟨ident.token, rfl, by simp [formed.1]⟩
  | integer token value => exact ⟨token, rfl, by simp [formed.1]⟩
  | unary token operator right ih =>
      obtain ⟨last, ends, operand⟩ := ih formed.2.2
      refine ⟨last, ?_, operand⟩
      rw [Expr.tokens, List.getLast?_cons_of_ne_nil right.tokens_ne_nil, ends]
  | binary token left operator right _ ih =>
      obtain ⟨last, ends, operand⟩ := ih formed.2.2.2.2
      refine ⟨last, ?_, operand⟩
      rw [Expr.tokens, List.getLast?_append, List.getLast?_cons_of_ne_nil right.tokens_ne_nil, ends]
      rfl

include closed

/-- A reading does not end at the end token. -/
theorem Reading.pending_ne_nil {window rest : Window} {tree : Expr}
    (reading : Reading grammar window tree rest) (ends : window.stop.kind = .eof) :
    rest.pending ≠ [] := by
  obtain ⟨last, last_eq, operand⟩ := operand?_isSome_of_formed reading.formed
  obtain ⟨kind, starts⟩ := Option.isSome_iff_exists.mp operand
  rw [reading.through.getLast?_eq, Option.some.injEq] at last_eq
  subst last_eq
  have same_end : rest.stop.kind = .eof := by rw [reading.through.follows.stop_eq, ends]
  exact pending_ne_nil_of_operand closed same_end starts

/-- An expression is not continued where the floor does not allow it. -/
theorem extend_of_stopped {floor : Precedence} {window rest : Window} {tree : Expr}
    (ends : window.stop.kind = .eof) (reading : Reading grammar window tree rest)
    (stopped : continues grammar floor rest = false) :
    extend grammar floor tree rest = .done tree rest := by
  have same_end : rest.stop.kind = .eof := by rw [reading.through.follows.stop_eq, ends]
  rw [extend_eq closed floor tree rest same_end (reading.pending_ne_nil closed ends), stopped]
  rfl

/-- A reading with a left spine above the floor is found, and then continued as far as the floor
allows. -/
theorem expr_eq_extend {floor : Precedence} {window rest : Window} {tree : Expr}
    (ends : window.stop.kind = .eof) (reading : Reading grammar window tree rest)
    (above : ∀ strength ∈ tree.leftSpine grammar, floor < strength) :
    expr grammar floor window = extend grammar floor tree rest := by
  induction tree generalizing floor window rest with
  | name ident =>
      obtain ⟨starts, spelled⟩ := reading.formed
      obtain ⟨current_eq, rfl⟩ := reading.through.singleton
      rw [← current_eq] at starts
      have same : Name.ofToken window.current = ident := by
        rw [current_eq, Name.ofToken, ← spelled]
      rw [expr_eq closed floor window ends, operandWith, starts]
      simp [Parse.name, same]
  | integer token value =>
      obtain ⟨starts, fits⟩ := reading.formed
      obtain ⟨rfl, rfl⟩ := reading.through.singleton
      rw [expr_eq closed floor window ends, operandWith, starts]
      simp [Parse.integer, fits]
  | unary token operator right ih =>
      obtain ⟨starts, rfl, formed⟩ := reading.formed
      obtain ⟨rfl, through⟩ := reading.through.tail right.tokens_ne_nil
      have inner : Reading grammar window.advance right rest :=
        ⟨through, formed, reading.grouped.2,
          fun floor member => reading.stops floor (List.mem_cons_of_mem _ member)⟩
      have stopped := reading.stops .unary (List.mem_cons_self ..)
      have same_end : window.advance.stop.kind = .eof := ends
      rw [expr_eq closed floor window ends, operandWith, starts]
      simp only [unaryWith]
      rw [ih same_end inner reading.grouped.1, extend_of_stopped closed same_end inner stopped]
      rfl
  | binary token left operator right ihLeft ihRight =>
      obtain ⟨known, apart, rfl, leftFormed, rightFormed⟩ := reading.formed
      obtain ⟨leftHolds, rightAbove, leftGrouped, rightGrouped⟩ := reading.grouped
      obtain ⟨middle, begins, goes_on⟩ :=
        reading.through.split left.tokens_ne_nil (List.cons_ne_nil _ _)
      obtain ⟨rfl, ended⟩ := goes_on.tail right.tokens_ne_nil
      have first : Reading grammar window left middle :=
        ⟨begins, leftFormed, leftGrouped, fun inner member =>
          (continues_eq_false_iff grammar inner middle).mpr (.inr (leftHolds inner member))⟩
      have second : Reading grammar middle.advance.advance right rest :=
        ⟨ended, rightFormed, rightGrouped,
          fun floor member => reading.stops floor (List.mem_cons_of_mem _ member)⟩
      have same_end : middle.stop.kind = .eof := by rw [begins.follows.stop_eq, ends]
      have goes : continues grammar floor middle = true :=
        (continues_iff grammar floor middle).mpr ⟨apart, above _ (List.mem_cons_self ..)⟩
      have right_end : middle.advance.advance.stop.kind = .eof := same_end
      have stopped := reading.stops _ (List.mem_cons_self ..)
      rw [ihLeft ends first fun strength member => above strength (List.mem_cons_of_mem _ member),
        extend_eq closed floor left middle same_end (first.pending_ne_nil closed ends), goes]
      simp only [↓reduceIte, binaryWith]
      rw [ihRight right_end second rightAbove, extend_of_stopped closed right_end second stopped]
      rfl

/-- With a closed grammar the readings above a floor are exactly what is read. -/
theorem expr_eq_done_iff (floor : Precedence) (window rest : Window) (tree : Expr)
    (ends : window.stop.kind = .eof) :
    expr grammar floor window = .done tree rest ↔ ReadingAbove grammar floor window tree rest := by
  constructor
  · exact expr_reading
  · intro reading
    rw [expr_eq_extend closed ends reading.toReading reading.above,
      extend_of_stopped closed ends reading.toReading reading.stopped]

end Closed

end Parse

end LetLang
