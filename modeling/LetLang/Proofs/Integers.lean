import LetLang.Proofs.Ending
import LetLang.Proofs.LinearScan
import Mathlib.Data.List.Induction
import Mathlib.Data.Nat.Digits.Defs

set_option autoImplicit false

namespace LetLang

namespace Decimal

/-- The number that a row of digits stands for. Each digit counts ten times as much as the one
behind it. -/
def reading (digits : List Char) : Nat :=
  Nat.ofDigits 10 (digits.reverse.map digitValue)

theorem value_eq_reading (digits : List Char) : value digits = reading digits := by
  induction digits using List.reverseRecOn with
  | nil => rfl
  | append_singleton digits last ih =>
      rw [value_append_singleton, ih, reading, reading, List.reverse_append, List.reverse_singleton,
        List.singleton_append, List.map_cons, Nat.ofDigits_cons]
      omega

end Decimal

namespace Expr

/-- An expression and every expression inside it, the outermost first. -/
def nodes : Expr → List Expr
  | .name ident => [.name ident]
  | .integer token value => [.integer token value]
  | .unary token operator right => .unary token operator right :: right.nodes
  | .binary token left operator right =>
      .binary token left operator right :: (left.nodes ++ right.nodes)

theorem Formed.node {grammar : Grammar} {tree node : Expr} (formed : tree.Formed grammar)
    (member : node ∈ tree.nodes) : node.Formed grammar := by
  induction tree with
  | name ident =>
      rw [List.mem_singleton.mp member]
      exact formed
  | integer token value =>
      rw [List.mem_singleton.mp member]
      exact formed
  | unary token operator right ih =>
      rcases List.mem_cons.mp member with rfl | deeper
      · exact formed
      · exact ih formed.2.2 deeper
  | binary token left operator right left_ih right_ih =>
      have ⟨_, _, _, first, second⟩ := formed
      rcases List.mem_cons.mp member with rfl | deeper
      · exact formed
      · rcases List.mem_append.mp deeper with on_left | on_right
        · exact left_ih first on_left
        · exact right_ih second on_right

theorem tokens_subset_of_mem_nodes {tree node : Expr} (member : node ∈ tree.nodes) :
    node.tokens ⊆ tree.tokens := by
  induction tree with
  | name ident =>
      rw [List.mem_singleton.mp member]
      exact List.Subset.refl _
  | integer token value =>
      rw [List.mem_singleton.mp member]
      exact List.Subset.refl _
  | unary token operator right ih =>
      rcases List.mem_cons.mp member with rfl | deeper
      · exact List.Subset.refl _
      · exact List.subset_cons_of_subset _ (ih deeper)
  | binary token left operator right left_ih right_ih =>
      rcases List.mem_cons.mp member with rfl | deeper
      · exact List.Subset.refl _
      · rcases List.mem_append.mp deeper with on_left | on_right
        · exact List.subset_append_of_subset_left _ (left_ih on_left)
        · exact List.subset_append_of_subset_right _
            (List.subset_cons_of_subset _ (right_ih on_right))

end Expr

def Stmt.exprs : Stmt → List Expr
  | .binding _ _ value => value.toList
  | .returning _ value => value.toList
  | .expression _ tree => [tree]

/-- Every expression of a program, at any depth. -/
def Program.nodes (program : Program) : List Expr :=
  program.statements.flatMap fun stmt => stmt.exprs.flatMap Expr.nodes

/-- The tokens that a window can show: those that are left, and the end token. -/
def Window.shows (window : Window) : List Token :=
  window.pending ++ [window.stop]

theorem Window.Follows.shows_subset {later earlier : Window} (follows : later.Follows earlier) :
    later.shows ⊆ earlier.shows := by
  rw [Window.shows, Window.shows, follows.stop_eq]
  exact List.append_subset.mpr ⟨List.subset_append_of_subset_left _ follows.suffix.subset,
    List.subset_append_right _ _⟩

theorem Window.current_mem_shows (window : Window) : window.current ∈ window.shows := by
  cases pending : window.pending <;> simp [Window.current, Window.shows, pending]

theorem Window.Through.subset_shows {window rest : Window} {tokens : List Token}
    (through : window.Through tokens rest) : tokens ⊆ window.shows := by
  induction through with
  | here window => simpa using window.current_mem_shows
  | @step window rest tokens _ ih =>
      have later := (Window.Follows.advance window).shows_subset
      exact List.cons_subset.mpr ⟨window.current_mem_shows, List.Subset.trans ih later⟩

namespace Parse

/-- An expression that is made from tokens of a window in a way that the grammar allows. -/
structure MadeFrom (grammar : Grammar) (window : Window) (tree : Expr) : Prop where
  formed : tree.Formed grammar
  tokens_subset : tree.tokens ⊆ window.shows

theorem MadeFrom.of_follows {grammar : Grammar} {later earlier : Window} {tree : Expr}
    (made : MadeFrom grammar later tree) (follows : later.Follows earlier) :
    MadeFrom grammar earlier tree :=
  ⟨made.formed, List.Subset.trans made.tokens_subset follows.shows_subset⟩

/-- Bindings and returns leave their values out, and the value of any other statement is read. -/
theorem madeFrom_of_stmt {grammar : Grammar} {window rest : Window} {value : Stmt}
    (done : stmt grammar window = .done value rest) :
    ∀ tree ∈ value.exprs, MadeFrom grammar window tree := by
  rw [stmt] at done
  cases form : (grammar.form? window.current.kind).getD .expression with
  | binding =>
      rw [form, formStmt, binding] at done
      split at done
      · cases done
      · split at done
        · cases done
        · cases done
          simp [Stmt.exprs]
  | returning =>
      rw [form, formStmt, returning] at done
      cases done
      simp [Stmt.exprs]
  | expression =>
      rw [form, formStmt, exprStmt, Outcome.bind_eq_done_iff] at done
      obtain ⟨tree, middle, read, made⟩ := done
      cases made
      have reading := expr_reading read
      simpa [Stmt.exprs] using
        (⟨reading.formed, reading.through.subset_shows⟩ : MadeFrom grammar window tree)

/-- The expressions of a run are made from the tokens that were left when it began. -/
theorem Runs.madeFrom {grammar : Grammar} {window : Window} {result : Run}
    (runs : Runs grammar window result) :
    ∀ stmt ∈ result.statements, ∀ tree ∈ stmt.exprs, MadeFrom grammar window tree := by
  induction runs with
  | ended _ => simp
  | @read window rest value later _ done _ ih =>
      have follows := (Window.Follows.advance rest).trans (stmt_done_follows done)
      intro stmt member tree held
      rcases List.mem_cons.mp member with rfl | deeper
      · exact madeFrom_of_stmt done tree held
      · exact (ih stmt deeper tree held).of_follows follows
  | @failed window rest diagnostic later _ fails _ ih =>
      have skipped := (Window.Follows.skipToSemicolon rest).trans (stmt_failed_follows fails)
      intro stmt member tree held
      exact (ih stmt member tree held).of_follows ((Window.Follows.advance _).trans skipped)

end Parse

theorem Program.madeFrom_of_mem_nodes {parser after : Parser} {program : Program} {node : Expr}
    (ran : parser.program = some (program, after)) (member : node ∈ program.nodes) :
    Parse.MadeFrom parser.grammar parser.window node := by
  obtain ⟨result, found, same⟩ := Option.map_eq_some_iff.mp ran
  cases same
  obtain ⟨stmt, listed, held⟩ := List.mem_flatMap.mp member
  obtain ⟨tree, inside, deeper⟩ := List.mem_flatMap.mp held
  have made := (Parse.runs_of_run found).madeFrom stmt listed tree inside
  exact ⟨made.formed.node deeper,
    List.Subset.trans (Expr.tokens_subset_of_mem_nodes deeper) made.tokens_subset⟩

theorem Segmentation.Lexes.kind_eq_int {kind : Kind} {text after : List Char}
    (lexes : Lexes kind text after) (numeral : Decimal.isNumeral text = true) : kind = .int := by
  obtain ⟨first, rest, whole, _, read⟩ := read_of_lexes lexes
  cases text with
  | nil => cases numeral
  | cons head tail =>
      cases whole
      have digit : first.isDigit = true := by
        simp only [Decimal.isNumeral, List.all_cons, Bool.and_eq_true] at numeral
        exact numeral.2.1
      have kind_eq := congrArg Lexeme.kind read
      rw [Lexeme.read, isLetter_of_isDigit digit, digit] at kind_eq
      exact kind_eq.symm

/-- An integer of a text as it stands: its token is drawn from the text, has a literal of digits
only, and the value is the one that the literal is read as. -/
structure Token.Denotes (source text : String) (token : Token) (value : UInt64) : Prop where
  drawn : token ∈ tokenize source text
  kind : token.kind = .int
  some_digit : token.literal ≠ ""
  digits : ∀ c ∈ token.literal.toList, Segmentation.DigitChar c
  value_eq : value.toNat = Decimal.reading token.literal.toList
  fits : Decimal.reading token.literal.toList < 2 ^ 64
  render_eq : (Expr.integer token value).render = token.literal

theorem Token.denotes_of_read {source text : String} {token : Token} {value : UInt64}
    (drawn : token ∈ tokenize source text) (read : Decimal.read? token.literal = some value) :
    token.Denotes source text value := by
  obtain ⟨numeral, value_eq⟩ := (Decimal.read?_eq_some_iff _ _).mp read
  have ⟨some_char, all⟩ : token.literal.toList ≠ [] ∧
      ∀ c ∈ token.literal.toList, c.isDigit = true := by
    simpa [Decimal.isNumeral] using numeral
  rw [Decimal.value_eq_reading] at value_eq
  refine ⟨drawn, ?_, ?_, ?_, value_eq.symm, ?_, rfl⟩
  · -- The end token has no digits, and any other token is a literal of the text.
    rcases List.mem_append.mp drawn with inside | stop
    · obtain ⟨_, lexes⟩ := spelled_tokens source text token inside
      exact lexes.kind_eq_int numeral
    · rw [List.mem_singleton.mp stop] at some_char
      exact (some_char rfl).elim
  · rintro empty
    exact some_char (by rw [empty]; rfl)
  · exact fun c member => (Segmentation.isDigit_iff c).mp (all c member)
  · rw [value_eq]
    exact value.toNat_lt

/-- A numeral that is read as an integer fails exactly if its value does not fit. -/
theorem Parse.integer_iff {window : Window}
    (numeral : Decimal.isNumeral window.current.literal.toList = true) :
    (integer window =
          .failed ⟨.badInteger window.current.literal, window.current.start⟩ window ↔
        2 ^ 64 ≤ Decimal.reading window.current.literal.toList) ∧
      ∀ value, integer window = .done (.integer window.current value) window ↔
        Decimal.reading window.current.literal.toList = value.toNat := by
  rw [← Decimal.value_eq_reading]
  constructor
  · have fits := Decimal.read?_isSome_iff window.current.literal
    rw [integer]
    cases read : Decimal.read? window.current.literal with
    | none =>
        simp only [read, numeral, true_and, Option.isSome_none, Bool.false_eq_true, false_iff,
          Nat.not_lt] at fits
        simpa using fits
    | some value =>
        simp only [read, numeral, true_and, Option.isSome_some, true_iff] at fits
        simpa using fits
  · intro value
    have exactly := Decimal.read?_eq_some_iff window.current.literal value
    rw [numeral, eq_self, true_and] at exactly
    rw [← exactly, integer]
    cases read : Decimal.read? window.current.literal <;> simp

/-- Every integer of a program, at any depth and whatever tables the program was read with, is a
numeral of the text with its decimal value. A numeral is read as an integer exactly if that value
is below `2 ^ 64`, however many digits it has, and it is named by the diagnostic if it is not. -/
theorem program_integers_exact (source text : String) :
    (∃ program after, (Parser.ofCursor (.ofText source text)).program = some (program, after)) ∧
      (∀ drawn grammar collected program after,
        (⟨grammar, .ofCursor (.drop drawn (.ofText source text)), collected⟩ : Parser).program =
            some (program, after) →
          ∀ token value, .integer token value ∈ program.nodes → token.Denotes source text value) ∧
      ∀ window : Window, window.current ∈ tokenize source text → window.current.kind = .int →
        (Parse.integer window =
              .failed ⟨.badInteger window.current.literal, window.current.start⟩ window ↔
            2 ^ 64 ≤ Decimal.reading window.current.literal.toList) ∧
          ∀ value, Parse.integer window = .done (.integer window.current value) window ↔
            Decimal.reading window.current.literal.toList = value.toNat := by
  refine ⟨⟨_, _, Parser.program_of_runs (Parse.runs_start source text)⟩, ?_, ?_⟩
  · intro drawn grammar collected program after ran token value member
    obtain ⟨⟨_, read⟩, tokens_subset⟩ := Program.madeFrom_of_mem_nodes ran member
    have shown := tokens_subset (List.mem_singleton.mpr rfl)
    rw [Window.ofCursor_drop] at shown
    refine Token.denotes_of_read ?_ read
    rcases List.mem_append.mp shown with left | stop
    · exact List.mem_append_left _ (List.mem_of_mem_drop left)
    · exact List.mem_append_right _ stop
  · intro window drawn kind
    apply Parse.integer_iff
    rcases List.mem_append.mp drawn with inside | stop
    · exact isNumeral_of_mem_tokens inside kind
    · rw [List.mem_singleton.mp stop] at kind
      cases kind

/-- The largest integer behind zeros is inside a comparison, and the next one is refused. -/
theorem program_integers_exact_at_limit :
    let text := "-a < 00018446744073709551615; 18446744073709551616"
    let large : Window := .ofCursor (.drop 5 (.ofText shellName text))
    ∃ program after token,
      (Parser.ofCursor (.ofText shellName text)).program = some (program, after) ∧
      .integer token 18446744073709551615 ∈ program.nodes ∧
      token.Denotes shellName text 18446744073709551615 ∧
      large.current ∈ tokenize shellName text ∧ large.current.kind = .int ∧
      Parse.integer large = .failed ⟨.badInteger "18446744073709551616", ⟨30, shellName⟩⟩ large := by
  intro text large
  have ⟨⟨program, after, ran⟩, exactly, limit⟩ := program_integers_exact shellName text
  let token : Token :=
    ⟨.int, "00018446744073709551615", ⟨⟨5, shellName⟩, ⟨28, shellName⟩⟩⟩
  have shown : (Parser.ofCursor (.ofText shellName text)).program.map
      (fun ran => decide (.integer token 18446744073709551615 ∈ ran.1.nodes)) = some true := by
    decide +kernel
  rw [ran, Option.map_some, Option.some.injEq, decide_eq_true_eq] at shown
  have drawn : large.current ∈ tokenize shellName text := by decide +kernel
  have kind : large.current.kind = .int := by decide +kernel
  have above : 2 ^ 64 ≤ Decimal.reading large.current.literal.toList := by decide +kernel
  have refused := (limit large drawn kind).1.mpr above
  have here : large.current = ⟨.int, "18446744073709551616", ⟨⟨30, shellName⟩, ⟨50, shellName⟩⟩⟩ := by
    decide +kernel
  rw [here] at refused
  exact ⟨program, after, token, ran, shown, exactly 0 .standard [] program after ran token _ shown,
    drawn, kind, refused⟩

end LetLang
