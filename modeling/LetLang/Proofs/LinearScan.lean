import LetLang.Proofs.Draws
import LetLang.Proofs.Scan
import Mathlib.Algebra.Group.Nat.Defs
import Mathlib.Data.List.TakeDrop

set_option autoImplicit false

namespace LetLang

/-- Where a pass over tokens halts: the number of tokens that it has passed over, and what it awaits
there. -/
structure Halt where
  passed : Nat
  awaits : Awaits
deriving DecidableEq, Repr

def Halt.later (halt : Halt) : Halt :=
  ⟨halt.passed + 1, halt.awaits⟩

@[simp] theorem Halt.passed_later (halt : Halt) : halt.later.passed = halt.passed + 1 := rfl

@[simp] theorem Halt.awaits_later (halt : Halt) : halt.later.awaits = halt.awaits := rfl

namespace Awaits

/-- Passes over tokens as long as they can come next. Where an operand is awaited, a unary operator
is passed over, and so is a name or an integer below `2 ^ 64`, behind which an operator is awaited.
Behind each of the eight binary operators an operand is awaited. -/
def halt : Awaits → List Token → Halt
  | awaits, [] => ⟨0, awaits⟩
  | .operand, token :: rest =>
      match token.kind with
      | .bang => (halt .operand rest).later
      | .minus => (halt .operand rest).later
      | .ident => (halt .operator rest).later
      | .int =>
          if Decimal.value token.literal.toList < 2 ^ 64 then (halt .operator rest).later
          else ⟨0, .operand⟩
      | _ => ⟨0, .operand⟩
  | .operator, token :: rest =>
      match token.kind with
      | .equal => (halt .operand rest).later
      | .notEqual => (halt .operand rest).later
      | .less => (halt .operand rest).later
      | .greater => (halt .operand rest).later
      | .plus => (halt .operand rest).later
      | .minus => (halt .operand rest).later
      | .asterisk => (halt .operand rest).later
      | .slash => (halt .operand rest).later
      | _ => ⟨0, .operator⟩

@[simp] theorem halt_nil (awaits : Awaits) : awaits.halt [] = ⟨0, awaits⟩ := by
  cases awaits <;> rfl

theorem halt_cons (awaits : Awaits) (token : Token) (rest : List Token)
    (numeral : token.kind = .int → Decimal.isNumeral token.literal.toList = true) :
    awaits.halt (token :: rest) =
      match awaits.step token with
      | some next => (next.halt rest).later
      | none => ⟨0, awaits⟩ := by
  cases awaits with
  | operator => cases kind : token.kind <;> simp [halt, step, kind]
  | operand =>
      by_cases integer : token.kind = .int
      · have fits : (Decimal.read? token.literal).isSome = true ↔
            Decimal.value token.literal.toList < 2 ^ 64 := by
          rw [Decimal.read?_isSome_iff]
          exact and_iff_right (numeral integer)
        by_cases below : Decimal.value token.literal.toList < 2 ^ 64
        · simp only [halt, step, integer, if_pos below, if_pos (fits.mpr below)]
        · have large : ¬ (Decimal.read? token.literal).isSome = true := mt fits.mp below
          simp only [halt, step, integer, if_neg below, if_neg large]
      · cases kind : token.kind <;> simp_all [halt, step]

/-- What is passed over is accepted by the scan, and the token behind it is not. -/
theorem scan_take_halt (awaits : Awaits) (tokens : List Token)
    (numerals : ∀ token ∈ tokens, token.kind = .int →
      Decimal.isNumeral token.literal.toList = true) :
    awaits.scan (tokens.take (awaits.halt tokens).passed) = some (awaits.halt tokens).awaits ∧
      ∀ token ∈ (tokens.drop (awaits.halt tokens).passed).head?,
        (awaits.halt tokens).awaits.step token = none := by
  induction tokens generalizing awaits with
  | nil => simp
  | cons token rest ih =>
      rw [halt_cons awaits token rest (numerals token (List.mem_cons_self ..))]
      cases steps : awaits.step token with
      | none => simp [steps]
      | some next =>
          have later := ih next fun other member => numerals other (List.mem_cons_of_mem _ member)
          simpa [steps] using later

theorem passed_halt_le (awaits : Awaits) (tokens : List Token)
    (numerals : ∀ token ∈ tokens, token.kind = .int →
      Decimal.isNumeral token.literal.toList = true) :
    (awaits.halt tokens).passed ≤ tokens.length := by
  induction tokens generalizing awaits with
  | nil => simp
  | cons token rest ih =>
      rw [halt_cons awaits token rest (numerals token (List.mem_cons_self ..))]
      cases awaits.step token with
      | none => simp
      | some next =>
          have later := ih next fun other member => numerals other (List.mem_cons_of_mem _ member)
          simpa using later

theorem halt_append_stop (awaits : Awaits) (tokens : List Token) {stop : Token}
    (ends : stop.kind = .eof) : awaits.halt (tokens ++ [stop]) = awaits.halt tokens := by
  induction tokens generalizing awaits with
  | nil => cases awaits <;> simp [halt, ends]
  | cons token rest ih => cases awaits <;> simp [halt, ih]

end Awaits

namespace Parse

section Halt

variable {window : Window} (ends : window.stop.kind = .eof)
  (numerals : ∀ token ∈ window.pending, token.kind = .int →
    Decimal.isNumeral token.literal.toList = true)

include ends numerals

/-- Reading ends on the last token that is passed over, if an operator is awaited behind it. -/
theorem expr_of_halt_operator (awaits : (Awaits.operand.halt window.pending).awaits = .operator) :
    ∃ tree : Expr,
      tree.tokens = window.pending.take (Awaits.operand.halt window.pending).passed ∧
      expr .standard .lowest window = .done tree
        ⟨window.pending.drop ((Awaits.operand.halt window.pending).passed - 1), window.stop⟩ := by
  have bound := Awaits.operand.passed_halt_le window.pending numerals
  have ⟨scans, stuck⟩ := Awaits.operand.scan_take_halt window.pending numerals
  generalize (Awaits.operand.halt window.pending).passed = passed at *
  rw [awaits] at scans stuck
  obtain ⟨tree, respects, tokens_eq⟩ := ((Awaits.isFlat_of_scan _).1 scans).exists_tree
  refine ⟨tree, tokens_eq, ?_⟩
  have ended : Grammar.standard.operator? ((window.pending.drop passed).headD window.stop).kind =
      none := by
    cases behind : window.pending.drop passed with
    | nil =>
        rw [List.headD_nil, ends]
        rfl
    | cons token rest =>
        have none_steps := stuck token (by rw [behind]; rfl)
        by_contra known
        have steps := (Awaits.step_operator_iff token .operand).mpr
          ⟨Option.isSome_iff_ne_none.mpr known, rfl⟩
        rw [none_steps] at steps
        cases steps
  have read := expr_tokens_append respects (window.pending.drop passed) window.stop ends ended
  have whole : tree.tokens ++ window.pending.drop passed = window.pending := by
    rw [tokens_eq, List.take_append_drop]
  have length_eq : tree.tokens.length = passed := by
    rw [tokens_eq, List.length_take, Nat.min_eq_left bound]
  have last : window.pending.drop (passed - 1) =
      tree.tokens.getLast tree.tokens_ne_nil :: window.pending.drop passed := by
    calc window.pending.drop (passed - 1)
        = (tree.tokens ++ window.pending.drop passed).drop (tree.tokens.length - 1) := by
          rw [whole, length_eq]
      _ = tree.tokens.drop (tree.tokens.length - 1) ++ window.pending.drop passed :=
          List.drop_append_of_le_length (by omega)
      _ = tree.tokens.getLast tree.tokens_ne_nil :: window.pending.drop passed := by
          rw [List.drop_length_sub_one tree.tokens_ne_nil]
          rfl
  rw [whole] at read
  rw [read, last]

/-- Reading fails at the token behind those that are passed over, if an operand is awaited there. -/
theorem expr_of_halt_operand (awaits : (Awaits.operand.halt window.pending).awaits = .operand)
    {rest : Window} (rest_eq : rest =
      ⟨window.pending.drop (Awaits.operand.halt window.pending).passed, window.stop⟩) :
    expr .standard .lowest window =
      .failed ⟨rest.current.operandFault, rest.current.start⟩ rest := by
  have ⟨scans, stuck⟩ := Awaits.operand.scan_take_halt window.pending numerals
  rw [awaits] at scans stuck
  apply (expr_eq_failed_iff window rest _ ends).mpr
  subst rest_eq
  refine ⟨rfl, ⟨_, (List.take_append_drop _ _).symm, scans⟩, ?_, rfl⟩
  cases behind : window.pending.drop (Awaits.operand.halt window.pending).passed with
  | nil => simp [Window.current, Awaits.step, ends]
  | cons token rest => exact stuck token (by rw [behind]; rfl)

end Halt

end Parse

theorem Window.drop_atIndex (source text : String) (index count : Nat) :
    (⟨(Window.atIndex source text index).pending.drop count,
      (Window.atIndex source text index).stop⟩ : Window) =
      .atIndex source text (index + count) := by
  simp [Window.atIndex, List.drop_drop]

/-- What is left of the tokens of a text is what a window shows, and the end token unless even that
is left behind. -/
theorem tokenize_drop (source text : String) (index : Nat) :
    (tokenize source text).drop index =
      (Window.atIndex source text index).pending ++
        [(Window.atIndex source text index).stop].drop
          (index - (Cursor.ofText source text).tokens.length) :=
  List.drop_append

theorem halt_tokenize_drop (awaits : Awaits) (source text : String) (index : Nat) :
    awaits.halt ((tokenize source text).drop index) =
      awaits.halt (Window.atIndex source text index).pending := by
  rw [tokenize_drop]
  cases index - (Cursor.ofText source text).tokens.length with
  | zero => exact awaits.halt_append_stop _ rfl
  | succ beyond => simp

theorem isNumeral_of_mem_tokens {source text : String} {token : Token}
    (member : token ∈ (Cursor.ofText source text).tokens) (kind : token.kind = .int) :
    Decimal.isNumeral token.literal.toList = true := by
  obtain ⟨after, lexes⟩ := spelled_tokens source text token member
  exact lexes.isNumeral kind

/-- An expression is read exactly as far as one pass over the tokens goes, from any token of a text
on. If the pass awaits an operator where it halts, the tokens that it passed over are read, and
reading ends on the last of them. If it awaits an operand, reading fails at the token where it halts
and stays there. -/
theorem expr_follows_scan (source text : String) (index : Nat) :
    match Awaits.operand.halt ((tokenize source text).drop index) with
    | ⟨passed, .operator⟩ =>
        0 < passed ∧ ∃ tree : Expr,
          tree.tokens = ((tokenize source text).drop index).take passed ∧
          Parse.expr .standard .lowest (.atIndex source text index) =
            .done tree (.atIndex source text (index + passed - 1))
    | ⟨passed, .operand⟩ =>
        Parse.expr .standard .lowest (.atIndex source text index) =
          .failed
            ⟨(tokenAt source text (index + passed)).operandFault,
              (tokenAt source text (index + passed)).start⟩
            (.atIndex source text (index + passed)) := by
  have numerals : ∀ token ∈ (Window.atIndex source text index).pending, token.kind = .int →
      Decimal.isNumeral token.literal.toList = true :=
    fun token member => isNumeral_of_mem_tokens (List.mem_of_mem_drop member)
  have bound := Awaits.operand.passed_halt_le _ numerals
  rw [halt_tokenize_drop]
  cases halt : Awaits.operand.halt (Window.atIndex source text index).pending with
  | mk passed awaits =>
      rw [halt] at bound
      cases awaits with
      | operator =>
          obtain ⟨tree, tokens_eq, read⟩ :=
            Parse.expr_of_halt_operator rfl numerals (by rw [halt])
          rw [halt] at tokens_eq read
          have some_token : 0 < passed := by
            apply Nat.pos_of_ne_zero
            rintro rfl
            exact tree.tokens_ne_nil tokens_eq
          refine ⟨some_token, tree, ?_, ?_⟩
          · rw [tokens_eq, tokenize_drop, List.take_append_of_le_length bound]
          · rw [read, Window.drop_atIndex, Nat.add_sub_assoc some_token]
      | operand =>
          have read := Parse.expr_of_halt_operand rfl numerals (by rw [halt]) rfl
          rw [halt, Window.drop_atIndex, Window.current_atIndex] at read
          exact read

end LetLang
