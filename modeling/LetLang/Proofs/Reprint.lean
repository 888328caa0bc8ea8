import LetLang.Proofs.Spelling

set_option autoImplicit false

namespace LetLang

def Text.isBracket (c : Char) : Bool :=
  c == '(' || c == ')'

/-- A text without its round brackets. -/
def Text.withoutBrackets (text : String) : String :=
  String.ofList (text.toList.filter fun c => !isBracket c)

/-- A token apart from its place. -/
def Token.unplaced (token : Token) : Token :=
  .ofLiteral token.kind token.literal

/-- Trees of one shape over tokens of the same contents differ in places only. -/
theorem Relabelling.Exprs.unplaced_eq {tree tree' : Expr}
    (trees : sameContent.Exprs tree tree') :
    tree.mapTokens Token.unplaced = tree'.mapTokens Token.unplaced := by
  have same {token token' : Token} (paired : sameContent.Pairs token token') :
      token.unplaced = token'.unplaced := by
    rw [Token.unplaced, Token.unplaced, sameContent.kind_eq paired, sameContent.literal_eq paired]
  induction trees with
  | name paired =>
      simp only [Expr.mapTokens, Name.mapToken, Name.ofToken, same paired,
        sameContent.literal_eq paired]
  | integer value paired => rw [Expr.mapTokens, Expr.mapTokens, same paired]
  | unary operator paired _ ih => rw [Expr.mapTokens, Expr.mapTokens, same paired, ih]
  | binary operator paired _ _ left_ih right_ih =>
      rw [Expr.mapTokens, Expr.mapTokens, same paired, left_ih, right_ih]

namespace Segmentation

theorem Regular.at_end {kind : Kind} {text after : List Char} (form : Regular kind text after) :
    Regular kind text [] := by
  cases form with
  | word some_char inside _ named => exact .word some_char inside (by simp) named
  | numeral some_char inside _ => exact .numeral some_char inside (by simp)
  | equal => exact .equal
  | notEqual => exact .notEqual
  | assign _ => exact .assign (by simp)
  | bang _ => exact .bang (by simp)
  | mark marks => exact .mark marks

theorem Lexes.at_end {kind : Kind} {text after : List Char} (lexes : Lexes kind text after) :
    Lexes kind text [] := by
  cases lexes with
  | regular form => exact .regular form.at_end
  | stray solid starts_none => exact .stray solid starts_none

theorem Lexes.before_blank {kind : Kind} {text after later : List Char}
    (lexes : Lexes kind text after) (blank : ∀ c ∈ later.head?, GapChar c) :
    Lexes kind text later := by
  cases later with
  | nil => exact lexes.at_end
  | cons c rest => exact lexes.before_gap (blank c rfl) rest

theorem WordKind.not_unary {word : String} {kind : Kind} (named : WordKind word kind) :
    ¬ (kind = .bang ∨ kind = .minus) := by
  cases named <;> decide

/-- A unary operator is one in front of anything that it would not join with to another one. -/
theorem Lexes.before_operand {kind : Kind} {text after later : List Char}
    (lexes : Lexes kind text after) (unary : kind = .bang ∨ kind = .minus)
    (ended : ∀ c ∈ later.head?, c ≠ '=') : Lexes kind text later := by
  cases lexes with
  | stray _ _ => simp at unary
  | regular form =>
      cases form with
      | word _ _ _ named => exact (named.not_unary unary).elim
      | bang _ => exact .regular (.bang ended)
      | mark marks => exact .regular (.mark marks)
      | _ => simp at unary

theorem WordChar.ne {c other : Char} (inside : WordChar c) (outside : isLetter other = false) :
    c ≠ other := by
  rintro rfl
  rw [← isLetter_iff, outside] at inside
  contradiction

theorem DigitChar.ne {c other : Char} (inside : DigitChar c) (outside : other.isDigit = false) :
    c ≠ other := by
  rintro rfl
  rw [← isDigit_iff, outside] at inside
  contradiction

theorem Lexes.head_ne_equals {kind : Kind} {text after : List Char} (lexes : Lexes kind text after)
    (starts : (Grammar.standard.operand? kind).isSome = true) :
    ∃ first rest, text = first :: rest ∧ first ≠ '=' := by
  cases lexes with
  | stray _ _ => cases starts
  | regular form =>
      cases form with
      | word some_char inside _ _ =>
          obtain ⟨first, rest, rfl⟩ := List.exists_cons_of_ne_nil some_char
          exact ⟨first, rest, rfl, (inside first (List.mem_cons_self ..)).ne rfl⟩
      | numeral some_char inside _ =>
          obtain ⟨first, rest, rfl⟩ := List.exists_cons_of_ne_nil some_char
          exact ⟨first, rest, rfl, (inside first (List.mem_cons_self ..)).ne rfl⟩
      | equal => cases starts
      | notEqual => exact ⟨_, _, rfl, by decide⟩
      | assign _ => cases starts
      | bang _ => exact ⟨_, _, rfl, by decide⟩
      | mark marks => exact ⟨_, _, rfl, by cases marks <;> decide⟩

theorem Lexes.isBracket_eq_false {kind : Kind} {text after : List Char}
    (lexes : Lexes kind text after) (not_open : kind ≠ .lparen) (not_close : kind ≠ .rparen) :
    ∀ c ∈ text, Text.isBracket c = false := by
  have apart {c : Char} (not_open : c ≠ '(') (not_close : c ≠ ')') : Text.isBracket c = false := by
    simp [Text.isBracket, not_open, not_close]
  cases lexes with
  | @stray c _ _ starts_none =>
      intro _ member
      rw [List.mem_singleton.mp member]
      apply apart
      · rintro rfl
        exact starts_none _ [] [] (.mark .lparen)
      · rintro rfl
        exact starts_none _ [] [] (.mark .rparen)
  | regular form =>
      cases form with
      | word _ inside _ _ =>
          exact fun c member => apart ((inside c member).ne rfl) ((inside c member).ne rfl)
      | numeral _ inside _ =>
          exact fun c member => apart ((inside c member).ne rfl) ((inside c member).ne rfl)
      | equal => simp [Text.isBracket]
      | notEqual => simp [Text.isBracket]
      | assign _ => simp [Text.isBracket]
      | bang _ => simp [Text.isBracket]
      | mark marks =>
          cases marks with
          | lparen => exact (not_open rfl).elim
          | rparen => exact (not_close rfl).elim
          | _ => simp [Text.isBracket]

theorem Spelled.filter_literal {kind : Kind} {literal : String} (spelled : Spelled (kind, literal))
    (not_open : kind ≠ .lparen) (not_close : kind ≠ .rparen) :
    literal.toList.filter (fun c => !Text.isBracket c) = literal.toList := by
  obtain ⟨_, lexes⟩ := spelled
  apply List.filter_eq_self.mpr
  intro c member
  rw [lexes.isBracket_eq_false not_open not_close c member]
  rfl

end Segmentation

open Segmentation

namespace Expr

/-- The characters of an expression's canonical text, without the brackets. -/
def bareText (tree : Expr) : List Char :=
  tree.render.toList.filter fun c => !Text.isBracket c

theorem bareText_name {ident : Name} (respects : (Expr.name ident).Respects)
    (spelled : Spelled ident.token.content) :
    (Expr.name ident).bareText = ident.token.literal.toList := by
  obtain ⟨kind, value⟩ := respects
  rw [bareText, render, value]
  exact spelled.filter_literal (by simp [kind]) (by simp [kind])

theorem bareText_integer {token : Token} {value : UInt64}
    (respects : (Expr.integer token value).Respects) (spelled : Spelled token.content) :
    (Expr.integer token value).bareText = token.literal.toList := by
  obtain ⟨kind, _⟩ := respects
  exact spelled.filter_literal (by simp [kind]) (by simp [kind])

theorem bareText_unary {token : Token} {operator : String} {right : Expr}
    (respects : (Expr.unary token operator right).Respects) (spelled : Spelled token.content) :
    (Expr.unary token operator right).bareText = token.literal.toList ++ right.bareText := by
  obtain ⟨kind, rfl, _⟩ := respects
  have bare := spelled.filter_literal (by rintro same; simp [same] at kind)
    (by rintro same; simp [same] at kind)
  conv_rhs => rw [← bare]
  simp [bareText, render, Text.isBracket]

theorem bareText_binary {token : Token} {left right : Expr} {operator : String}
    (respects : (Expr.binary token left operator right).Respects)
    (spelled : Spelled token.content) :
    (Expr.binary token left operator right).bareText =
      left.bareText ++ (' ' :: (token.literal.toList ++ (' ' :: right.bareText))) := by
  obtain ⟨known, rfl, _⟩ := respects
  have bare := spelled.filter_literal (by rintro same; simp [same, Grammar.standard] at known)
    (by rintro same; simp [same, Grammar.standard] at known)
  conv_rhs => rw [← bare]
  simp [bareText, render, Text.isBracket]

/-- Without brackets the text of an expression begins with its first token. -/
theorem Respects.bareText_eq {tree : Expr} (respects : tree.Respects)
    (spelled : ∀ token ∈ tree.tokens, Spelled token.content) :
    ∃ first more rest, tree.tokens = first :: more ∧
      tree.bareText = first.literal.toList ++ rest := by
  induction tree with
  | name ident =>
      exact ⟨ident.token, [], [], rfl,
        by simp [bareText_name respects (spelled _ (by simp [tokens]))]⟩
  | integer token value =>
      exact ⟨token, [], [], rfl, by simp [bareText_integer respects (spelled _ (by simp [tokens]))]⟩
  | unary token operator right _ =>
      exact ⟨token, right.tokens, right.bareText, rfl,
        bareText_unary respects (spelled _ (by simp [tokens]))⟩
  | binary token left operator right ih _ =>
      obtain ⟨first, more, rest, tokens_eq, text_eq⟩ :=
        ih respects.2.2.2.2.1 fun token member => spelled token (by simp [tokens, member])
      have whole := bareText_binary respects (spelled token (by simp [tokens]))
      rw [text_eq, List.append_assoc] at whole
      exact ⟨first, more ++ token :: right.tokens, _, by simp [tokens, tokens_eq], whole⟩

theorem Respects.head_bareText {tree : Expr} (respects : tree.Respects)
    (spelled : ∀ token ∈ tree.tokens, Spelled token.content) (after : List Char) :
    ∀ c ∈ (tree.bareText ++ after).head?, c ≠ '=' := by
  obtain ⟨first, more, rest, tokens_eq, text_eq⟩ := respects.bareText_eq spelled
  have flat := respects.isFlat
  rw [tokens_eq] at flat
  obtain ⟨_, lexes⟩ := spelled first (by simp [tokens_eq])
  obtain ⟨c, others, literal_eq, apart⟩ := lexes.head_ne_equals flat.operand?_head
  have begins : first.literal.toList = c :: others := literal_eq
  simp [text_eq, begins, apart]

/-- Without brackets the text of an expression has the tokens of the expression in order, and goes
on with whatever stands behind it. -/
theorem Respects.segments {tree : Expr} (respects : tree.Respects)
    (spelled : ∀ token ∈ tree.tokens, Spelled token.content) {contents : List (Kind × String)}
    {after : List Char} (blank : ∀ c ∈ after.head?, GapChar c) (rest : Segments contents after) :
    Segments (tree.tokens.map Token.content ++ contents) (tree.bareText ++ after) := by
  have no_gap : ∀ c ∈ ([] : List Char), GapChar c := by simp
  have space : GapChar ' ' := .inl rfl
  induction tree generalizing contents after with
  | name ident =>
      have here := spelled ident.token (by simp [tokens])
      rw [bareText_name respects here]
      obtain ⟨_, lexes⟩ := here
      simpa [tokens, Token.content] using Segments.cons no_gap (lexes.before_blank blank) rest
  | integer token value =>
      have here := spelled token (by simp [tokens])
      rw [bareText_integer respects here]
      obtain ⟨_, lexes⟩ := here
      simpa [tokens, Token.content] using Segments.cons no_gap (lexes.before_blank blank) rest
  | unary token operator right ih =>
      have here := spelled token (by simp [tokens])
      have inner : ∀ token ∈ right.tokens, Spelled token.content := fun token member =>
        spelled token (by simp [tokens, member])
      rw [bareText_unary respects here]
      obtain ⟨_, lexes⟩ := here
      obtain ⟨kind, _, _, operand⟩ := respects
      have segments := Segments.cons no_gap
        (lexes.before_operand kind (operand.head_bareText inner after))
        (ih operand inner blank rest)
      simpa [tokens, Token.content] using segments
  | binary token left operator right left_ih right_ih =>
      have here := spelled token (by simp [tokens])
      rw [bareText_binary respects here]
      obtain ⟨_, lexes⟩ := here
      obtain ⟨_, _, _, _, first, second⟩ := respects
      -- From behind: the right operand, the operator with a space on either side, the left operand.
      have behind := right_ih second (fun token member => spelled token (by simp [tokens, member]))
        blank rest
      have operator_on := Segments.cons no_gap
        (lexes.before_gap space (right.bareText ++ after)) (behind.behind_gap space)
      have segments := left_ih first (fun token member => spelled token (by simp [tokens, member]))
        (by simpa using space) (operator_on.behind_gap space)
      simpa [tokens, Token.content] using segments

end Expr

namespace Parse

/-- The tokens of a tree that respects precedence are read as one statement. -/
theorem runs_tokens {tree : Expr} (respects : tree.Respects) (stop : Token)
    (ends : stop.kind = .eof) :
    ∃ first rest, Runs .standard ⟨tree.tokens, stop⟩ ⟨[.expression first tree], [], rest⟩ := by
  obtain ⟨first, more, tokens_eq⟩ := List.exists_cons_of_ne_nil tree.tokens_ne_nil
  let block : Block := ⟨.expression, tree.tokens, none⟩
  have formed : block.WellFormed := ⟨respects.isFlat, by simp [block]⟩
  have cut : Cut [block] tree.tokens := by
    simpa [block, Block.tokens] using Cut.cons formed (fun _ => .inl rfl) .nil
  obtain ⟨⟨statements, diagnostics, rest⟩, runs, clean, made⟩ :=
    runs_of_cut cut (by simp [Greedy]) stop ends
  have makes : block.Makes (.expression first tree) :=
    ⟨rfl, by simp [block, tokens_eq], rfl, respects⟩
  have unique : Relator.RightUnique Block.Makes := fun _ _ _ => Block.Makes.unique
  cases List.right_unique_forall₂' unique made (.cons makes .nil)
  cases clean
  exact ⟨first, rest, runs⟩

end Parse

/-- The expressions of a program respect precedence, and their tokens are tokens of the text. -/
theorem respects_of_parse {source text : String} {program : Program}
    (parsed : parse source text = .ok program) {token : Token} {tree : Expr}
    (member : Stmt.expression token tree ∈ program.statements) :
    tree.Respects ∧ ∀ token ∈ tree.tokens, token ∈ (Cursor.ofText source text).tokens := by
  obtain ⟨blocks, cut, _, made⟩ := (parse_eq_ok_iff_greedy source text program).mp parsed
  obtain ⟨index, inside, found⟩ := List.mem_iff_getElem.mp member
  have place : index < blocks.length := by rwa [made.length_eq]
  have makes := made.get place inside
  rw [List.get_eq_getElem, List.get_eq_getElem, found] at makes
  obtain ⟨_, _, tokens_eq, respects⟩ := makes
  refine ⟨respects, fun token member => ?_⟩
  rw [tokens_eq] at member
  rw [← cut.flatMap_eq]
  refine List.mem_flatMap.mpr ⟨blocks[index], List.getElem_mem place, ?_⟩
  exact List.mem_append_left _ member

/-- Printing an expression that was parsed, deleting the brackets and parsing the rest gives one
statement, with the same expression but for the places of its tokens. -/
theorem parse_withoutBrackets_render (source text : String) (program : Program)
    (parsed : parse source text = .ok program) (token : Token) (tree : Expr)
    (member : Stmt.expression token tree ∈ program.statements) (name : String) :
    ∃ token' tree',
      parse name (Text.withoutBrackets tree.render) = .ok ⟨[.expression token' tree']⟩ ∧
        tree'.mapTokens Token.unplaced = tree.mapTokens Token.unplaced := by
  obtain ⟨respects, inside⟩ := respects_of_parse parsed member
  have spelled : ∀ token ∈ tree.tokens, Spelled token.content := fun token member =>
    spelled_tokens source text token (inside token member)
  have segments : Segments (tree.tokens.map Token.content)
      (Text.withoutBrackets tree.render).toList := by
    have nothing : Segments [] [] := .nil (by simp)
    have whole := respects.segments spelled (by simp) nothing
    simpa [Text.withoutBrackets, Expr.bareText] using whole
  have spells : Spells name (Text.withoutBrackets tree.render) tree.tokens :=
    contents_of_segments segments _ rfl
  obtain ⟨first, rest, runs⟩ := Parse.runs_tokens respects (.ofLiteral .eof "") rfl
  obtain ⟨statements, diagnostics⟩ := Parse.runText_of_spells spells rfl runs
  obtain ⟨stmt', others, related, none_left, statements_eq⟩ :=
    List.forall₂_cons_right_iff.mp statements
  rw [List.forall₂_nil_right_iff] at diagnostics none_left
  subst none_left
  cases related with
  | @expression token' _ tree' _ _ trees =>
      exact ⟨token', tree', (parse_eq_ok_iff _ _ _).mpr ⟨diagnostics, statements_eq⟩,
        trees.unplaced_eq⟩

theorem parse_withoutBrackets_render_unary :
    let token (kind : Kind) (literal : String) (start stop : UInt32) : Token :=
      ⟨kind, literal, ⟨⟨start, shellName⟩, ⟨stop, shellName⟩⟩⟩
    let name (literal : String) (start stop : UInt32) : Expr :=
      .name (.ofToken (token .ident literal start stop))
    let tree : Expr :=
      .binary (token .equal "==" 5 7)
        (.unary (token .bang "!" 0 1) "!" (.unary (token .minus "-" 2 3) "-" (name "a" 3 4)))
        "==" (name "b" 8 9)
    parse shellName "! -a == b;" = .ok ⟨[.expression (token .bang "!" 0 1) tree]⟩ ∧
      tree.render = "((!(-a)) == b)" ∧
      ∃ token' tree', parse shellName "!-a == b" = .ok ⟨[.expression token' tree']⟩ ∧
        tree'.mapTokens Token.unplaced = tree.mapTokens Token.unplaced := by
  intro token name tree
  have parsed : parse shellName "! -a == b;" =
      .ok ⟨[.expression (token .bang "!" 0 1) tree]⟩ := by decide +kernel
  have printed : tree.render = "((!(-a)) == b)" := by decide +kernel
  have bare : Text.withoutBrackets tree.render = "!-a == b" := by decide +kernel
  have again := parse_withoutBrackets_render shellName "! -a == b;" _ parsed _ tree
    (List.mem_singleton.mpr rfl) shellName
  rw [bare] at again
  exact ⟨parsed, printed, again⟩

end LetLang
