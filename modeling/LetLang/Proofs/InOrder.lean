import LetLang.Proofs.Grouping

set_option autoImplicit false

namespace LetLang

namespace Grammar

theorem standard_operand?_name_iff (kind : Kind) :
    standard.operand? kind = some .name ↔ kind = .ident := by
  cases kind <;> simp [standard]

theorem standard_operand?_integer_iff (kind : Kind) :
    standard.operand? kind = some .integer ↔ kind = .int := by
  cases kind <;> simp [standard]

theorem standard_operand?_operator_iff (kind : Kind) :
    standard.operand? kind = some .operator ↔ kind = .bang ∨ kind = .minus := by
  cases kind <;> simp [standard]

theorem standard_precedence_lt_unary (kind : Kind) : standard.precedence kind < .unary := by
  cases kind <;> decide

theorem standard_lowest_lt {kind : Kind} (known : (standard.operator? kind).isSome = true) :
    .lowest < standard.precedence kind := by
  revert known
  cases kind <;> decide

theorem standard_not_semicolon {kind : Kind} (known : (standard.operator? kind).isSome = true) :
    kind ≠ .semicolon := by
  rintro rfl
  cases known

theorem standard_form?_binding_iff (kind : Kind) :
    standard.form? kind = some .binding ↔ kind = .letWord := by
  cases kind <;> simp [standard]

theorem standard_form?_returning_iff (kind : Kind) :
    standard.form? kind = some .returning ↔ kind = .returnWord := by
  cases kind <;> simp [standard]

theorem standard_form?_ne_expression (kind : Kind) : standard.form? kind ≠ some .expression := by
  cases kind <;> simp [standard]

/-- What starts or continues an expression starts no statement of another form. -/
theorem standard_form?_eq_none {kind : Kind}
    (inside : (standard.operand? kind).isSome = true ∨ (standard.operator? kind).isSome = true) :
    standard.form? kind = none := by
  revert inside
  cases kind <;> decide

/-- Only a minus both starts and continues expressions. -/
theorem standard_eq_minus {kind : Kind} (starts : (standard.operand? kind).isSome = true)
    (known : (standard.operator? kind).isSome = true) : kind = .minus := by
  revert starts known
  cases kind <;> decide

end Grammar

namespace Expr

/-- The precedence of the operation at the root, if that is a binary one. -/
def precedence? : Expr → Option Precedence
  | .binary token _ _ _ => some (Grammar.standard.precedence token.kind)
  | _ => none

/-- A tree over the tokens of the standard grammar in which a unary operator has no binary
operation as its operand, a binary one has a left operand that is not weaker and a right operand
that is stronger, and names, numbers and operators are those of the tokens. -/
def Respects : Expr → Prop
  | .name ident => ident.token.kind = .ident ∧ ident.value = ident.token.literal
  | .integer token value =>
      token.kind = .int ∧ Decimal.isNumeral token.literal.toList = true ∧
        Decimal.value token.literal.toList = value.toNat
  | .unary token operator right =>
      (token.kind = .bang ∨ token.kind = .minus) ∧ operator = token.literal ∧
        right.precedence? = none ∧ right.Respects
  | .binary token left operator right =>
      (Grammar.standard.operator? token.kind).isSome = true ∧ operator = token.literal ∧
        (∀ strength ∈ left.precedence?, Grammar.standard.precedence token.kind ≤ strength) ∧
        (∀ strength ∈ right.precedence?, Grammar.standard.precedence token.kind < strength) ∧
        left.Respects ∧ right.Respects

instance decidableRespects : (tree : Expr) → Decidable tree.Respects
  | .name ident =>
      inferInstanceAs (Decidable (ident.token.kind = .ident ∧ ident.value = ident.token.literal))
  | .integer token value =>
      inferInstanceAs (Decidable (token.kind = .int ∧
        Decimal.isNumeral token.literal.toList = true ∧
        Decimal.value token.literal.toList = value.toNat))
  | .unary token operator right =>
      have := decidableRespects right
      inferInstanceAs (Decidable ((token.kind = .bang ∨ token.kind = .minus) ∧
        operator = token.literal ∧ right.precedence? = none ∧ right.Respects))
  | .binary token left operator right =>
      have := decidableRespects left
      have := decidableRespects right
      inferInstanceAs (Decidable ((Grammar.standard.operator? token.kind).isSome = true ∧
        operator = token.literal ∧
        (∀ strength ∈ left.precedence?, Grammar.standard.precedence token.kind ≤ strength) ∧
        (∀ strength ∈ right.precedence?, Grammar.standard.precedence token.kind < strength) ∧
        left.Respects ∧ right.Respects))

theorem Respects.formed {tree : Expr} (respects : tree.Respects) :
    tree.Formed .standard := by
  induction tree with
  | name ident =>
      obtain ⟨kind, spelled⟩ := respects
      exact ⟨(Grammar.standard_operand?_name_iff _).mpr kind, spelled⟩
  | integer token value =>
      obtain ⟨kind, numeral⟩ := respects
      exact ⟨(Grammar.standard_operand?_integer_iff _).mpr kind,
        (Decimal.read?_eq_some_iff _ _).mpr numeral⟩
  | unary token operator right ih =>
      obtain ⟨kind, spelled, _, inner⟩ := respects
      exact ⟨(Grammar.standard_operand?_operator_iff _).mpr kind, spelled, ih inner⟩
  | binary token left operator right ihLeft ihRight =>
      obtain ⟨known, spelled, _, _, first, second⟩ := respects
      exact ⟨known, Grammar.standard_not_semicolon known, spelled, ihLeft first, ihRight second⟩

/-- No operation on the left spine is weaker than the root. -/
theorem Respects.leftSpine_ge {tree : Expr} (respects : tree.Respects) :
    ∀ strength ∈ tree.leftSpine .standard, ∃ root ∈ tree.precedence?, root ≤ strength := by
  induction tree with
  | name ident => simp [leftSpine]
  | integer token value => simp [leftSpine]
  | unary token operator right _ => simp [leftSpine]
  | binary token left operator right ih _ =>
      obtain ⟨_, _, weaker, _, first, _⟩ := respects
      intro strength member
      refine ⟨_, rfl, ?_⟩
      rcases List.mem_cons.mp member with rfl | deeper
      · exact Nat.le_refl _
      · obtain ⟨root, root_eq, below⟩ := ih first strength deeper
        exact Nat.le_trans (weaker root root_eq) below

/-- No floor on the right spine is weaker than the root, except in front of unary operations. -/
theorem Respects.rightFloors_ge {tree : Expr} (respects : tree.Respects) :
    ∀ floor ∈ tree.rightFloors .standard,
      floor = .unary ∨ ∃ root ∈ tree.precedence?, root ≤ floor := by
  induction tree with
  | name ident => simp [rightFloors]
  | integer token value => simp [rightFloors]
  | unary token operator right ih =>
      obtain ⟨_, _, plain, inner⟩ := respects
      intro floor member
      rcases List.mem_cons.mp member with rfl | deeper
      · exact .inl rfl
      · rcases ih inner floor deeper with rfl | ⟨root, root_eq, _⟩
        · exact .inl rfl
        · rw [plain] at root_eq
          cases root_eq
  | binary token left operator right _ ih =>
      obtain ⟨_, _, _, stronger, _, second⟩ := respects
      intro floor member
      rcases List.mem_cons.mp member with rfl | deeper
      · exact .inr ⟨_, rfl, Nat.le_refl _⟩
      · rcases ih second floor deeper with rfl | ⟨root, root_eq, below⟩
        · exact .inl rfl
        · exact .inr ⟨_, rfl, Nat.le_trans (Nat.le_of_lt (stronger root root_eq)) below⟩

theorem Respects.grouped {tree : Expr} (respects : tree.Respects) :
    tree.Grouped .standard := by
  induction tree with
  | name ident => trivial
  | integer token value => trivial
  | unary token operator right ih =>
      obtain ⟨_, _, plain, inner⟩ := respects
      refine ⟨?_, ih inner⟩
      intro strength member
      obtain ⟨root, root_eq, _⟩ := inner.leftSpine_ge strength member
      rw [plain] at root_eq
      cases root_eq
  | binary token left operator right ihLeft ihRight =>
      obtain ⟨_, _, weaker, stronger, first, second⟩ := respects
      refine ⟨?_, ?_, ihLeft first, ihRight second⟩
      · intro floor member
        rcases first.rightFloors_ge floor member with rfl | ⟨root, root_eq, below⟩
        · exact Nat.le_of_lt (Grammar.standard_precedence_lt_unary token.kind)
        · exact Nat.le_trans (weaker root root_eq) below
      · intro strength member
        obtain ⟨root, root_eq, below⟩ := second.leftSpine_ge strength member
        exact Nat.lt_of_lt_of_le (stronger root root_eq) below

theorem Respects.lowest_lt {tree : Expr} (respects : tree.Respects) :
    ∀ strength ∈ tree.leftSpine .standard, .lowest < strength := by
  intro strength member
  obtain ⟨root, root_eq, below⟩ := respects.leftSpine_ge strength member
  cases tree with
  | binary token left operator right =>
      cases root_eq
      exact Nat.lt_of_lt_of_le (Grammar.standard_lowest_lt respects.1) below
  | _ => cases root_eq

/-- The root of a binary operation stands on its left spine. -/
theorem mem_leftSpine_of_precedence? {tree : Expr} {root : Precedence}
    (root_eq : root ∈ tree.precedence?) : root ∈ tree.leftSpine .standard := by
  cases tree with
  | binary token left operator right =>
      cases root_eq
      exact List.mem_cons_self ..
  | _ => cases root_eq

theorem mem_rightFloors_of_precedence? {tree : Expr} {root : Precedence}
    (root_eq : root ∈ tree.precedence?) : root ∈ tree.rightFloors .standard := by
  cases tree with
  | binary token left operator right =>
      cases root_eq
      exact List.mem_cons_self ..
  | _ => cases root_eq

/-- No operation of the standard grammar stands above the unary ones. -/
theorem precedence?_eq_none_of_above {tree : Expr}
    (above : ∀ strength ∈ tree.leftSpine .standard, .unary < strength) :
    tree.precedence? = none := by
  cases tree with
  | binary token left operator right =>
      have higher := above _ (List.mem_cons_self ..)
      exact (Nat.lt_asymm (Grammar.standard_precedence_lt_unary token.kind) higher).elim
  | _ => rfl

/-- What is formed and grouped by the standard grammar respects precedence. -/
theorem respects_of_grouped {tree : Expr} (formed : tree.Formed .standard)
    (grouped : tree.Grouped .standard) : tree.Respects := by
  induction tree with
  | name ident =>
      exact ⟨(Grammar.standard_operand?_name_iff _).mp formed.1, formed.2⟩
  | integer token value =>
      exact ⟨(Grammar.standard_operand?_integer_iff _).mp formed.1,
        (Decimal.read?_eq_some_iff _ _).mp formed.2⟩
  | unary token operator right ih =>
      obtain ⟨kind, spelled, inner⟩ := formed
      exact ⟨(Grammar.standard_operand?_operator_iff _).mp kind, spelled,
        precedence?_eq_none_of_above grouped.1, ih inner grouped.2⟩
  | binary token left operator right ihLeft ihRight =>
      obtain ⟨known, _, spelled, first, second⟩ := formed
      obtain ⟨holds, above, leftGrouped, rightGrouped⟩ := grouped
      exact ⟨known, spelled,
        fun root root_eq => holds root (mem_rightFloors_of_precedence? root_eq),
        fun root root_eq => above root (mem_leftSpine_of_precedence? root_eq),
        ihLeft first leftGrouped, ihRight second rightGrouped⟩

end Expr

namespace Parse

theorem continues_standard_of_none (floor : Precedence) {window : Window}
    (ended : Grammar.standard.operator? window.next.kind = none) :
    continues .standard floor window = false := by
  rw [continues_eq_false_iff, Grammar.precedence, ended]
  exact .inr (Nat.zero_le _)

theorem operator?_eq_none_of_stopped {window : Window}
    (stopped : continues .standard .lowest window = false)
    (apart : window.next.kind ≠ .semicolon) :
    Grammar.standard.operator? window.next.kind = none := by
  have weak := ((continues_eq_false_iff _ _ _).mp stopped).resolve_left apart
  cases entry : Grammar.standard.operator? window.next.kind with
  | none => rfl
  | some strength =>
      have strong := Grammar.standard_lowest_lt (Option.isSome_of_mem entry)
      exact ((Precedence.not_lt_iff _ _).mpr weak strong).elim

/-- A tree that respects precedence is read from its tokens, if no operator comes behind them. -/
theorem expr_tokens_append {tree : Expr} (respects : tree.Respects) (later : List Token)
    (stop : Token) (ends : stop.kind = .eof)
    (ended : Grammar.standard.operator? (later.headD stop).kind = none) :
    expr .standard .lowest ⟨tree.tokens ++ later, stop⟩ =
      .done tree ⟨tree.tokens.getLast tree.tokens_ne_nil :: later, stop⟩ := by
  apply (expr_eq_done_iff rfl .lowest _ _ tree ends).mpr
  exact
    { through := .of_append tree.tokens later stop tree.tokens_ne_nil
      formed := respects.formed
      grouped := respects.grouped
      stops := fun floor _ => continues_standard_of_none floor ended
      above := respects.lowest_lt
      stopped := continues_standard_of_none .lowest ended }

theorem eq_of_tokens_eq {first second : Expr} (respects : first.Respects)
    (respects' : second.Respects) (same : first.tokens = second.tokens) : first = second := by
  let stop := Token.ofLiteral .eof ""
  have read := expr_tokens_append respects [] stop rfl rfl
  have read' := expr_tokens_append respects' [] stop rfl rfl
  have source : expr .standard .lowest ⟨first.tokens ++ [], stop⟩ =
      expr .standard .lowest ⟨second.tokens ++ [], stop⟩ := by
    rw [same]
  have results := read.symm.trans (source.trans read')
  injection results

/-- Reading undoes writing in order: a tree that respects precedence is what the standard grammar
reads from its tokens when they are followed by a token that is no binary operator, and the
reading ends on the last of them. No other such tree has these tokens. -/
theorem expr_reads_back (tree : Expr) (respects : tree.Respects) :
    (∀ (later : List Token) (stop : Token), stop.kind = .eof →
      Grammar.standard.operator? (later.headD stop).kind = none →
      expr .standard .lowest ⟨tree.tokens ++ later, stop⟩ =
        .done tree ⟨tree.tokens.getLast tree.tokens_ne_nil :: later, stop⟩) ∧
      ∀ other : Expr, other.Respects → other.tokens = tree.tokens → other = tree := by
  constructor
  · intro later stop ends ended
    exact expr_tokens_append respects later stop ends ended
  · intro other respects' same
    exact eq_of_tokens_eq respects' respects same

/-- In `-a * 2 < b` followed by a bracket, the comparison is at the root. -/
theorem expr_reads_back_comparison :
    let name (literal : String) : Expr := .name (.ofToken (.ofLiteral .ident literal))
    let tree : Expr :=
      .binary (.ofLiteral .less "<")
        (.binary (.ofLiteral .asterisk "*") (.unary (.ofLiteral .minus "-") "-" (name "a")) "*"
          (.integer (.ofLiteral .int "2") 2))
        "<" (name "b")
    let later : List Token := [.ofLiteral .rparen ")"]
    let stop : Token := .ofLiteral .eof ""
    tree.Respects ∧
      expr .standard .lowest ⟨tree.tokens ++ later, stop⟩ =
        .done tree ⟨.ofLiteral .ident "b" :: later, stop⟩ := by
  intro name tree later stop
  have respects : tree.Respects := by decide
  exact ⟨respects, (expr_reads_back tree respects).1 later stop rfl rfl⟩

end Parse

end LetLang
