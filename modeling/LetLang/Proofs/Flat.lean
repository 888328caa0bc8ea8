import LetLang.Proofs.InOrder

set_option autoImplicit false

namespace LetLang

/-- The tokens of a name or of an integer that fits, under any number of unary operators. -/
inductive IsOperand : List Token → Prop where
  | name {token : Token} (kind : token.kind = .ident) : IsOperand [token]
  | integer {token : Token} (kind : token.kind = .int)
      (numeral : Decimal.isNumeral token.literal.toList = true)
      (fits : Decimal.value token.literal.toList < UInt64.size) : IsOperand [token]
  | unary {token : Token} {tokens : List Token} (kind : token.kind = .bang ∨ token.kind = .minus)
      (operand : IsOperand tokens) : IsOperand (token :: tokens)

/-- The tokens of operands that are separated by binary operators. -/
inductive IsFlat : List Token → Prop where
  | operand {tokens : List Token} (operand : IsOperand tokens) : IsFlat tokens
  | binary {front back : List Token} {token : Token} (first : IsFlat front)
      (known : (Grammar.standard.operator? token.kind).isSome = true)
      (last : IsOperand back) : IsFlat (front ++ token :: back)

namespace IsFlat

theorem append_binary {front back : List Token} {token : Token} (first : IsFlat front)
    (known : (Grammar.standard.operator? token.kind).isSome = true) (second : IsFlat back) :
    IsFlat (front ++ token :: back) := by
  induction second with
  | operand operand => exact .binary first known operand
  | binary _ later last ih =>
      rw [← List.cons_append, ← List.append_assoc]
      exact .binary ih later last

end IsFlat

namespace IsOperand

theorem ne_nil {tokens : List Token} (operand : IsOperand tokens) : tokens ≠ [] := by
  cases operand <;> simp

theorem kind_ne_semicolon {tokens : List Token} (operand : IsOperand tokens) :
    ∀ token ∈ tokens, token.kind ≠ .semicolon := by
  induction operand with
  | name kind => simp [kind]
  | integer kind _ _ => simp [kind]
  | unary kind _ ih =>
      intro token member
      rcases List.mem_cons.mp member with rfl | deeper
      · rcases kind with kind | kind <;> simp [kind]
      · exact ih token deeper

theorem operand?_head {first : Token} {tokens : List Token} (operand : IsOperand (first :: tokens)) :
    (Grammar.standard.operand? first.kind).isSome = true := by
  cases operand with
  | name kind => rw [kind]; rfl
  | integer kind _ _ => rw [kind]; rfl
  | unary kind _ => rcases kind with kind | kind <;> rw [kind] <;> rfl

theorem exists_tree {tokens : List Token} (operand : IsOperand tokens) :
    ∃ tree : Expr, tree.Respects ∧ tree.precedence? = none ∧ tree.tokens = tokens := by
  induction operand with
  | @name token kind => exact ⟨.name (.ofToken token), ⟨kind, rfl⟩, rfl, rfl⟩
  | @integer token kind numeral fits =>
      exact ⟨.integer token (.ofNatLT _ fits), ⟨kind, numeral, by simp⟩, rfl, rfl⟩
  | @unary token tokens kind _ ih =>
      obtain ⟨right, respects, plain, tokens_eq⟩ := ih
      refine ⟨.unary token token.literal right, ⟨kind, rfl, plain, respects⟩, rfl, ?_⟩
      rw [Expr.tokens, tokens_eq]

end IsOperand

namespace Expr

theorem Respects.isOperand {tree : Expr} (respects : tree.Respects)
    (plain : tree.precedence? = none) : IsOperand tree.tokens := by
  induction tree with
  | name ident => exact .name respects.1
  | integer token value =>
      obtain ⟨kind, numeral, same⟩ := respects
      exact .integer kind numeral (by rw [same]; exact value.toNat_lt)
  | unary token operator right ih =>
      obtain ⟨kind, _, inner, respects⟩ := respects
      exact .unary kind (ih respects inner)
  | binary token left operator right _ _ => cases plain

theorem Respects.isFlat {tree : Expr} (respects : tree.Respects) : IsFlat tree.tokens := by
  induction tree with
  | binary token left operator right ihLeft ihRight =>
      obtain ⟨known, _, _, _, first, second⟩ := respects
      exact (ihLeft first).append_binary known (ihRight second)
  | _ => exact .operand (respects.isOperand rfl)

/-- A tree with a binary operator and its right operand put behind it: they join the right spine
below the operations that are weaker. -/
def join : Expr → Token → Expr → Expr
  | .binary root left operator right, token, operand =>
      if Grammar.standard.precedence root.kind < Grammar.standard.precedence token.kind then
        .binary root left operator (right.join token operand)
      else .binary token (.binary root left operator right) token.literal operand
  | tree, token, operand => .binary token tree token.literal operand

theorem tokens_join (token : Token) (operand tree : Expr) :
    (tree.join token operand).tokens = tree.tokens ++ token :: operand.tokens := by
  induction tree with
  | binary root left operator right _ ih =>
      rw [join]
      split
      · simp only [tokens, ih, List.append_assoc, List.cons_append]
      · rfl
  | _ => rfl

theorem precedence?_join (token : Token) (operand tree : Expr) :
    ∀ strength ∈ (tree.join token operand).precedence?,
      strength = Grammar.standard.precedence token.kind ∨ strength ∈ tree.precedence? := by
  cases tree with
  | binary root left operator right =>
      rw [join]
      split
      · exact fun _ member => .inr member
      · rintro _ ⟨⟩
        exact .inl rfl
  | _ =>
      rintro _ ⟨⟩
      exact .inl rfl

theorem Respects.join {tree operand : Expr} {token : Token} (respects : tree.Respects)
    (known : (Grammar.standard.operator? token.kind).isSome = true)
    (operandRespects : operand.Respects) (plain : operand.precedence? = none) :
    (tree.join token operand).Respects := by
  have stronger : ∀ strength ∈ operand.precedence?,
      Grammar.standard.precedence token.kind < strength := by
    simp [plain]
  induction tree with
  | binary root left operator right _ ih =>
      rw [Expr.join]
      split
      · rename_i weaker
        obtain ⟨rootKnown, spelled, first_ge, second_gt, first, second⟩ := respects
        refine ⟨rootKnown, spelled, first_ge, ?_, first, ih second⟩
        intro strength member
        -- The new right operand has the new operator at its root, or what was there before.
        rcases precedence?_join token operand right strength member with rfl | before
        · exact weaker
        · exact second_gt strength before
      · rename_i held
        refine ⟨known, rfl, ?_, stronger, respects, operandRespects⟩
        rintro _ ⟨⟩
        exact (Precedence.not_lt_iff _ _).mp held
  | _ => exact ⟨known, rfl, by simp [precedence?], stronger, respects, operandRespects⟩

end Expr

namespace IsFlat

theorem ne_nil {tokens : List Token} (flat : IsFlat tokens) : tokens ≠ [] := by
  cases flat with
  | operand operand => exact operand.ne_nil
  | binary _ _ _ => simp

theorem kind_ne_semicolon {tokens : List Token} (flat : IsFlat tokens) :
    ∀ token ∈ tokens, token.kind ≠ .semicolon := by
  induction flat with
  | operand operand => exact operand.kind_ne_semicolon
  | binary _ known last ih =>
      intro token member
      rcases List.mem_append.mp member with inFront | inBack
      · exact ih token inFront
      · rcases List.mem_cons.mp inBack with rfl | deeper
        · exact Grammar.standard_not_semicolon known
        · exact last.kind_ne_semicolon token deeper

theorem operand?_head {first : Token} {tokens : List Token} (flat : IsFlat (first :: tokens)) :
    (Grammar.standard.operand? first.kind).isSome = true := by
  generalize whole : first :: tokens = all at flat
  induction flat generalizing tokens with
  | operand operand => exact (whole ▸ operand).operand?_head
  | @binary front back token begins _ _ ih =>
      cases front with
      | nil => exact (begins.ne_nil rfl).elim
      | cons head rest =>
          cases whole
          exact ih rfl

/-- A flat expression that begins with a minus continues another one: the minus is then taken as
the binary operator. -/
theorem append_minus {front back : List Token} {token : Token} (first : IsFlat front)
    (kind : token.kind = .minus) (second : IsFlat (token :: back)) :
    IsFlat (front ++ token :: back) := by
  have known : (Grammar.standard.operator? token.kind).isSome = true := by
    rw [kind]
    rfl
  generalize whole : token :: back = all at second
  induction second generalizing back with
  | operand operand =>
      subst whole
      cases operand with
      | name other => simp [kind] at other
      | integer other _ _ => simp [kind] at other
      | unary _ inner => exact .binary first known inner
  | @binary begins last operator flat known' operand ih =>
      cases begins with
      | nil => exact (flat.ne_nil rfl).elim
      | cons head rest =>
          cases whole
          have joined := ih rfl
          rw [← List.append_assoc]
          exact .binary joined known' operand

/-- Every flat expression is written by a tree that respects precedence. -/
theorem exists_tree {tokens : List Token} (flat : IsFlat tokens) :
    ∃ tree : Expr, tree.Respects ∧ tree.tokens = tokens := by
  induction flat with
  | operand operand =>
      obtain ⟨tree, respects, _, tokens_eq⟩ := operand.exists_tree
      exact ⟨tree, respects, tokens_eq⟩
  | @binary front back token _ known last ih =>
      obtain ⟨left, leftRespects, left_eq⟩ := ih
      obtain ⟨right, rightRespects, plain, right_eq⟩ := last.exists_tree
      refine ⟨left.join token right, leftRespects.join known rightRespects plain, ?_⟩
      rw [Expr.tokens_join, left_eq, right_eq]

end IsFlat

end LetLang
