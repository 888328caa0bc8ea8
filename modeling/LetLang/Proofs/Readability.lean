import LetLang.Proofs.Integers
import LetLang.Proofs.Reprint
import Mathlib.Data.List.Nodup

/-!
Canonical texts can be read in one way only. The text of a name or an integer runs as far as its
characters go, and that of an operation up to its own closing bracket, so a canonical text shows
where it ends in front of anything that would not run on with it. What stands behind the first
bracket tells a unary operation from a binary one. Two trees with one text therefore differ in the
places of their tokens only, whether they respect precedence or not.
-/

set_option autoImplicit false

namespace LetLang

open Segmentation

def unaryOperators : List (Kind × String) :=
  [(.bang, "!"), (.minus, "-")]

def binaryOperators : List (Kind × String) :=
  [(.plus, "+"), (.minus, "-"), (.asterisk, "*"), (.slash, "/"), (.greater, ">"), (.less, "<"),
    (.equal, "=="), (.notEqual, "!=")]

/-- A tree of any nesting over tokens as they are written: names are words, which may be reserved
ones, integers have the value of their digits, and operators are those of the language. -/
def Expr.Written : Expr → Prop
  | .name ident =>
      ident.token.kind = .ident ∧ ident.token.literal ≠ "" ∧
        (∀ c ∈ ident.token.literal.toList, WordChar c) ∧ ident.value = ident.token.literal
  | .integer token value =>
      token.kind = .int ∧ token.literal ≠ "" ∧ (∀ c ∈ token.literal.toList, DigitChar c) ∧
        value.toNat = Decimal.reading token.literal.toList
  | .unary token operator right =>
      token.content ∈ unaryOperators ∧ operator = token.literal ∧ right.Written
  | .binary token left operator right =>
      token.content ∈ binaryOperators ∧ operator = token.literal ∧ left.Written ∧ right.Written

instance (c : Char) : Decidable (WordChar c) :=
  decidable_of_iff _ (isLetter_iff c)

instance (c : Char) : Decidable (DigitChar c) :=
  decidable_of_iff _ (isDigit_iff c)

-- The instances named here go through the characters of the literal, not through all there are.
instance Expr.decidableWritten : (tree : Expr) → Decidable tree.Written
  | .name ident =>
      have := List.decidableBAll WordChar ident.token.literal.toList
      inferInstanceAs (Decidable (ident.token.kind = .ident ∧ ident.token.literal ≠ "" ∧
        (∀ c ∈ ident.token.literal.toList, WordChar c) ∧ ident.value = ident.token.literal))
  | .integer token value =>
      have := List.decidableBAll DigitChar token.literal.toList
      inferInstanceAs (Decidable (token.kind = .int ∧ token.literal ≠ "" ∧
        (∀ c ∈ token.literal.toList, DigitChar c) ∧
        value.toNat = Decimal.reading token.literal.toList))
  | .unary token operator right =>
      have := decidableWritten right
      inferInstanceAs (Decidable (token.content ∈ unaryOperators ∧ operator = token.literal ∧
        right.Written))
  | .binary token left operator right =>
      have := decidableWritten left
      have := decidableWritten right
      inferInstanceAs (Decidable (token.content ∈ binaryOperators ∧ operator = token.literal ∧
        left.Written ∧ right.Written))

def Text.isRun (c : Char) : Bool :=
  isLetter c || c.isDigit

theorem Text.run_append_inj {inside : Char → Bool} {run run' after after' : List Char}
    (all : ∀ c ∈ run, inside c = true) (all' : ∀ c ∈ run', inside c = true)
    (ended : ∀ c ∈ after.head?, inside c = false) (ended' : ∀ c ∈ after'.head?, inside c = false)
    (same : run ++ after = run' ++ after') : run = run' ∧ after = after' := by
  have ⟨taken, dropped⟩ := takeWhile_run all ended
  have ⟨taken', dropped'⟩ := takeWhile_run all' ended'
  rw [same] at taken dropped
  exact ⟨taken.symm.trans taken', dropped.symm.trans dropped'⟩

theorem unaryOperators_literal {content : Kind × String} (member : content ∈ unaryOperators) :
    ∃ sign, content.2.toList = [sign] ∧ sign ≠ '(' ∧ Text.isRun sign = false := by
  simp only [unaryOperators, List.mem_cons, List.not_mem_nil, or_false] at member
  rcases member with rfl | rfl
  · exact ⟨'!', rfl, by decide, by decide⟩
  · exact ⟨'-', rfl, by decide, by decide⟩

theorem binaryOperators_solid {content : Kind × String} (member : content ∈ binaryOperators) :
    ∀ c ∈ content.2.toList, (c != ' ') = true := by
  have solid : (binaryOperators.all fun content => content.2.toList.all (· != ' ')) = true := by
    decide
  exact List.all_eq_true.mp (List.all_eq_true.mp solid content member)

/-- In a table without a literal twice the literal of a token is enough to know it by. -/
theorem Token.unplaced_eq_of_literal {table : List (Kind × String)} {token token' : Token}
    (nodup : (table.map Prod.snd).Nodup) (member : token.content ∈ table)
    (member' : token'.content ∈ table) (same : token.literal = token'.literal) :
    token.unplaced = token'.unplaced := by
  have contents : token.content = token'.content :=
    List.inj_on_of_nodup_map nodup member member' same
  have kinds : token.kind = token'.kind := congrArg Prod.fst contents
  rw [Token.unplaced, Token.unplaced, kinds, same]

namespace Expr

def isLeaf : Expr → Bool
  | .name _ => true
  | .integer _ _ => true
  | _ => false

theorem Written.isRun_of_leaf {tree : Expr} (written : tree.Written) (leaf : tree.isLeaf = true) :
    tree.render ≠ "" ∧ ∀ c ∈ tree.render.toList, Text.isRun c = true := by
  cases tree with
  | name ident =>
      obtain ⟨_, some_char, word, value_eq⟩ := written
      rw [render, value_eq]
      refine ⟨some_char, fun c member => ?_⟩
      rw [Text.isRun, (isLetter_iff c).mpr (word c member), Bool.true_or]
  | integer token value =>
      obtain ⟨_, some_char, digits, _⟩ := written
      refine ⟨some_char, fun c member => ?_⟩
      rw [Text.isRun, (isDigit_iff c).mpr (digits c member), Bool.or_true]
  | _ => cases leaf

theorem toList_render_unary (token : Token) (operator : String) (right : Expr) (after : List Char) :
    (Expr.unary token operator right).render.toList ++ after =
      '(' :: (operator.toList ++ (right.render.toList ++ (')' :: after))) := by
  simp [render]

theorem toList_render_binary (token : Token) (left : Expr) (operator : String) (right : Expr)
    (after : List Char) :
    (Expr.binary token left operator right).render.toList ++ after =
      '(' :: (left.render.toList ++
        (' ' :: (operator.toList ++ (' ' :: (right.render.toList ++ (')' :: after)))))) := by
  simp [render]

theorem render_of_operation {tree : Expr} (operation : tree.isLeaf = false) :
    ∃ rest, tree.render.toList = '(' :: rest := by
  cases tree with
  | unary token operator right =>
      have whole := toList_render_unary token operator right []
      rw [List.append_nil] at whole
      exact ⟨_, whole⟩
  | binary token left operator right =>
      have whole := toList_render_binary token left operator right []
      rw [List.append_nil] at whole
      exact ⟨_, whole⟩
  | _ => cases operation

/-- A text begins with a bracket or with a character of a name or an integer. -/
theorem Written.exists_head {tree : Expr} (written : tree.Written) :
    ∃ first rest, tree.render.toList = first :: rest ∧ (first = '(' ∨ Text.isRun first = true) := by
  cases leaf : tree.isLeaf with
  | false =>
      obtain ⟨rest, begins⟩ := render_of_operation leaf
      exact ⟨'(', rest, begins, .inl rfl⟩
  | true =>
      have ⟨some_char, run⟩ := written.isRun_of_leaf leaf
      cases chars : tree.render.toList with
      | nil => exact (some_char (String.toList_eq_nil_iff.mp chars)).elim
      | cons first rest =>
          rw [chars] at run
          exact ⟨first, rest, rfl, .inr (run first (List.mem_cons_self ..))⟩

/-- Leaves with one literal are the same but for their places: no run is both of letters and of
digits. -/
theorem Written.unplaced_eq_of_leaf {first second : Expr} (written : first.Written)
    (written' : second.Written) (leaf : first.isLeaf = true) (leaf' : second.isLeaf = true)
    (same : first.render = second.render) :
    first.mapTokens Token.unplaced = second.mapTokens Token.unplaced := by
  have apart {text : String} (some_char : text ≠ "") (word : ∀ c ∈ text.toList, WordChar c)
      (digits : ∀ c ∈ text.toList, DigitChar c) : False := by
    cases chars : text.toList with
    | nil => exact some_char (String.toList_eq_nil_iff.mp chars)
    | cons head rest =>
        rw [chars] at word digits
        have letter := (isLetter_iff head).mpr (word head (List.mem_cons_self ..))
        have digit := (isDigit_iff head).mpr (digits head (List.mem_cons_self ..))
        rw [isLetter_of_isDigit digit] at letter
        contradiction
  cases first with
  | name ident =>
      obtain ⟨kind, some_char, word, value_eq⟩ := written
      rw [render, value_eq] at same
      cases second with
      | name ident' =>
          obtain ⟨kind', _, _, value_eq'⟩ := written'
          rw [render, value_eq'] at same
          simp only [mapTokens, Name.mapToken, Token.unplaced, kind, kind', value_eq, value_eq', same]
      | integer token' value' =>
          obtain ⟨_, _, digits, _⟩ := written'
          rw [render] at same
          rw [same] at some_char word
          exact (apart some_char word digits).elim
      | _ => cases leaf'
  | integer token value =>
      obtain ⟨kind, some_char, digits, value_eq⟩ := written
      rw [render] at same
      cases second with
      | name ident' =>
          obtain ⟨_, _, word, value_eq'⟩ := written'
          rw [render, value_eq'] at same
          rw [same] at some_char digits
          exact (apart some_char word digits).elim
      | integer token' value' =>
          obtain ⟨kind', _, _, value_eq'⟩ := written'
          rw [render] at same
          have values : value = value' := by
            apply UInt64.toNat_inj.mp
            rw [value_eq, value_eq', same]
          simp only [mapTokens, Token.unplaced, kind, kind', same, values]
      | _ => cases leaf'
  | _ => cases leaf

/-- The text of a leaf in front of anything that would not run on with it is the text of no other
tree, and shows where it ends. -/
theorem Written.leaf_append_inj {first second : Expr} {after after' : List Char}
    (written : first.Written) (written' : second.Written) (leaf : first.isLeaf = true)
    (ended : ∀ c ∈ after.head?, Text.isRun c = false)
    (ended' : ∀ c ∈ after'.head?, Text.isRun c = false)
    (same : first.render.toList ++ after = second.render.toList ++ after') :
    first.mapTokens Token.unplaced = second.mapTokens Token.unplaced ∧ after = after' := by
  have ⟨some_char, run⟩ := written.isRun_of_leaf leaf
  cases leaf' : second.isLeaf with
  | false =>
      obtain ⟨rest, begins⟩ := render_of_operation leaf'
      cases chars : first.render.toList with
      | nil => exact (some_char (String.toList_eq_nil_iff.mp chars)).elim
      | cons head tail =>
          rw [chars, begins] at same
          have bracket : head = '(' := (List.cons.inj same).1
          have inside := run head (by rw [chars]; exact List.mem_cons_self ..)
          rw [bracket] at inside
          contradiction
  | true =>
      have ⟨_, run'⟩ := written'.isRun_of_leaf leaf'
      have ⟨texts, rests⟩ := Text.run_append_inj run run' ended ended' same
      exact ⟨written.unplaced_eq_of_leaf written' leaf leaf' (String.toList_injective texts), rests⟩

/-- Behind the bracket of a unary operation stands a sign, which starts no left operand. -/
theorem Written.unary_ne_binary {token token' : Token} {operator operator' : String}
    {operand left right : Expr} {after after' : List Char}
    (written : (Expr.unary token operator operand).Written)
    (written' : (Expr.binary token' left operator' right).Written) :
    (Expr.unary token operator operand).render.toList ++ after ≠
      (Expr.binary token' left operator' right).render.toList ++ after' := by
  intro same
  obtain ⟨known, rfl, _⟩ := written
  obtain ⟨_, _, first, _⟩ := written'
  obtain ⟨sign, sign_eq, not_bracket, not_run⟩ := unaryOperators_literal known
  obtain ⟨head, rest, begins, starts⟩ := first.exists_head
  have literal_eq : token.literal.toList = [sign] := sign_eq
  rw [toList_render_unary, toList_render_binary, literal_eq, begins] at same
  have heads : sign = head := (List.cons.inj (List.cons.inj same).2).1
  rcases starts with bracket | run
  · exact not_bracket (heads.trans bracket)
  · rw [← heads, not_run] at run
    contradiction

/-- A canonical text in front of anything that would not run on with it determines its tree, but
for places, and where it ends. -/
theorem Written.append_inj {first second : Expr} {after after' : List Char}
    (written : first.Written) (written' : second.Written)
    (ended : ∀ c ∈ after.head?, Text.isRun c = false)
    (ended' : ∀ c ∈ after'.head?, Text.isRun c = false)
    (same : first.render.toList ++ after = second.render.toList ++ after') :
    first.mapTokens Token.unplaced = second.mapTokens Token.unplaced ∧ after = after' := by
  have closing {rest : List Char} : ∀ c ∈ (')' :: rest).head?, Text.isRun c = false := by
    simp [Text.isRun, isLetter]
  have space {rest : List Char} : ∀ c ∈ (' ' :: rest).head?, Text.isRun c = false := by
    simp [Text.isRun, isLetter]
  -- The induction is on the first tree, with the second one and both rests left open.
  induction first generalizing second after after' with
  | name ident => exact written.leaf_append_inj written' rfl ended ended' same
  | integer token value => exact written.leaf_append_inj written' rfl ended ended' same
  | unary token operator right ih =>
      cases second with
      | unary token' operator' right' =>
          obtain ⟨known, rfl, operand⟩ := written
          obtain ⟨known', rfl, operand'⟩ := written'
          obtain ⟨sign, sign_eq, _⟩ := unaryOperators_literal known
          obtain ⟨sign', sign_eq', _⟩ := unaryOperators_literal known'
          have literal_eq : token.literal.toList = [sign] := sign_eq
          have literal_eq' : token'.literal.toList = [sign'] := sign_eq'
          rw [toList_render_unary, toList_render_unary, literal_eq, literal_eq'] at same
          obtain ⟨signs, behind⟩ := List.cons.inj (List.cons.inj same).2
          obtain ⟨operands, rests⟩ := ih operand operand' closing closing behind
          have literals : token.literal = token'.literal := by
            apply String.toList_injective
            rw [literal_eq, literal_eq', signs]
          have tokens := Token.unplaced_eq_of_literal (by decide) known known' literals
          refine ⟨?_, (List.cons.inj rests).2⟩
          rw [mapTokens, mapTokens, tokens, literals, operands]
      | binary token' left' operator' right' => exact (written.unary_ne_binary written' same).elim
      | _ =>
          obtain ⟨trees, rests⟩ := written'.leaf_append_inj written rfl ended' ended same.symm
          exact ⟨trees.symm, rests.symm⟩
  | binary token left operator right left_ih right_ih =>
      cases second with
      | unary token' operator' right' => exact (written'.unary_ne_binary written same.symm).elim
      | binary token' left' operator' right' =>
          obtain ⟨known, rfl, first, second⟩ := written
          obtain ⟨known', rfl, first', second'⟩ := written'
          rw [toList_render_binary, toList_render_binary] at same
          obtain ⟨lefts, behind⟩ := left_ih first first' space space (List.cons.inj same).2
          obtain ⟨texts, behind_operator⟩ := Text.run_append_inj (binaryOperators_solid known)
            (binaryOperators_solid known') (by simp) (by simp) (List.cons.inj behind).2
          obtain ⟨rights, rests⟩ :=
            right_ih second second' closing closing (List.cons.inj behind_operator).2
          have literals : token.literal = token'.literal := String.toList_injective texts
          have tokens := Token.unplaced_eq_of_literal (by decide) known known' literals
          refine ⟨?_, (List.cons.inj rests).2⟩
          rw [mapTokens, mapTokens, tokens, literals, lefts, rights]
      | _ =>
          obtain ⟨trees, rests⟩ := written'.leaf_append_inj written rfl ended' ended same.symm
          exact ⟨trees.symm, rests.symm⟩

theorem render_unplaced (tree : Expr) : (tree.mapTokens Token.unplaced).render = tree.render := by
  induction tree with
  | name ident => rfl
  | integer token value => rfl
  | unary token operator right ih => rw [mapTokens, render, render, ih]
  | binary token left operator right left_ih right_ih =>
      rw [mapTokens, render, render, left_ih, right_ih]

end Expr

namespace Segmentation

theorem Lexes.word_of_ident {text after : List Char} (lexes : Lexes .ident text after) :
    text ≠ [] ∧ ∀ c ∈ text, WordChar c := by
  cases lexes with
  | regular form =>
      cases form with
      | word some_char inside _ _ => exact ⟨some_char, inside⟩
      | mark marks => cases marks

theorem Lexes.mem_unaryOperators {kind : Kind} {text after : List Char}
    (lexes : Lexes kind text after) (sign : kind = .bang ∨ kind = .minus) :
    (kind, String.ofList text) ∈ unaryOperators := by
  cases lexes with
  | stray _ _ => simp at sign
  | regular form =>
      cases form with
      | word _ _ _ named => exact (named.not_unary sign).elim
      | bang _ => decide
      | mark marks => cases marks <;> revert sign <;> decide
      | _ => simp at sign

theorem WordKind.operator?_eq_none {word : String} {kind : Kind} (named : WordKind word kind) :
    Grammar.standard.operator? kind = none := by
  cases named <;> rfl

theorem Lexes.mem_binaryOperators {kind : Kind} {text after : List Char}
    (lexes : Lexes kind text after) (known : (Grammar.standard.operator? kind).isSome = true) :
    (kind, String.ofList text) ∈ binaryOperators := by
  cases lexes with
  | stray _ _ => cases known
  | regular form =>
      cases form with
      | word _ _ _ named =>
          rw [named.operator?_eq_none] at known
          cases known
      | numeral _ _ _ => cases known
      | equal => decide
      | notEqual => decide
      | assign _ => cases known
      | bang _ => cases known
      | mark marks => cases marks <;> revert known <;> decide

end Segmentation

/-- A tree that the standard grammar makes from the tokens of a text is over tokens as they are
written. -/
theorem Expr.Formed.written {source text : String} {tree : Expr} (formed : tree.Formed .standard)
    (drawn : tree.tokens ⊆ tokenize source text) : tree.Written := by
  have lexes {token : Token} (member : token ∈ tree.tokens) (inside : token.kind ≠ .eof) :
      ∃ after, Lexes token.kind token.literal.toList after := by
    rcases List.mem_append.mp (drawn member) with here | stop
    · exact spelled_tokens source text token here
    · rw [List.mem_singleton.mp stop] at inside
      exact (inside rfl).elim
  induction tree with
  | name ident =>
      obtain ⟨starts, value_eq⟩ := formed
      have kind := (Grammar.standard_operand?_name_iff _).mp starts
      obtain ⟨_, word⟩ := lexes (List.mem_singleton.mpr rfl) (by rw [kind]; decide)
      rw [kind] at word
      have ⟨some_char, inside⟩ := word.word_of_ident
      exact ⟨kind, fun empty => some_char (String.toList_eq_nil_iff.mpr empty), inside, value_eq⟩
  | integer token value =>
      have denotes := Token.denotes_of_read (drawn (List.mem_singleton.mpr rfl)) formed.2
      exact ⟨denotes.kind, denotes.some_digit, denotes.digits, denotes.value_eq⟩
  | unary token operator right ih =>
      obtain ⟨starts, operator_eq, operand⟩ := formed
      have kind := (Grammar.standard_operand?_operator_iff _).mp starts
      obtain ⟨_, sign⟩ := lexes (List.mem_cons_self ..) (by rintro same; simp [same] at kind)
      have known := sign.mem_unaryOperators kind
      rw [String.ofList_toList] at known
      exact ⟨known, operator_eq, ih operand (List.cons_subset.mp drawn).2
        fun member => lexes (List.mem_cons_of_mem _ member)⟩
  | binary token left operator right left_ih right_ih =>
      obtain ⟨continues, _, operator_eq, first, second⟩ := formed
      have ⟨on_left, on_right⟩ := List.append_subset.mp drawn
      obtain ⟨_, sign⟩ := lexes (List.mem_append_right _ (List.mem_cons_self ..))
        (by rintro same; simp [same, Grammar.standard] at continues)
      have known := sign.mem_binaryOperators continues
      rw [String.ofList_toList] at known
      refine ⟨known, operator_eq, ?_, ?_⟩
      · exact left_ih first on_left fun member => lexes (List.mem_append_left _ member)
      · exact right_ih second (List.cons_subset.mp on_right).2
          fun member => lexes (List.mem_append_right _ (List.mem_cons_of_mem _ member))

/-- The canonical text of an expression is unambiguous: trees over tokens as they are written have
one text exactly if they differ in places only. All expressions of all programs are such trees. -/
theorem render_unambiguous :
    (∀ first second : Expr, first.Written → second.Written →
      (first.render = second.render ↔
        first.mapTokens Token.unplaced = second.mapTokens Token.unplaced)) ∧
      ∀ source text program after,
        (Parser.ofCursor (.ofText source text)).program = some (program, after) →
          ∀ node ∈ program.nodes, node.Written := by
  constructor
  · intro first second written written'
    constructor
    · intro same
      have texts : first.render.toList ++ [] = second.render.toList ++ [] := by rw [same]
      exact (written.append_inj written' (by simp) (by simp) texts).1
    · intro trees
      rw [← first.render_unplaced, trees, second.render_unplaced]
  · intro source text program after ran node member
    have made := Program.madeFrom_of_mem_nodes ran member
    exact made.formed.written made.tokens_subset

/-- A difference under a minus has one text wherever it stands, and another one than a minus under a
difference. The operand is called like a keyword, which no text gives a name. -/
theorem render_unambiguous_minus :
    let place (offset : UInt32) : Span := ⟨⟨offset, "main"⟩, ⟨offset + 1, "main"⟩⟩
    let minus (offset : UInt32) : Token := ⟨.minus, "-", place offset⟩
    let name (offset : UInt32) : Expr := .name (.ofToken ⟨.ident, "let", place offset⟩)
    let number (offset : UInt32) : Expr := .integer ⟨.int, "07", place offset⟩ 7
    let outside (offset : UInt32) : Expr :=
      .unary (minus offset) "-" (.binary (minus 4) (name 2) "-" (number 6))
    let inside : Expr := .binary (minus 4) (.unary (minus 0) "-" (name 2)) "-" (number 6)
    (outside 0).Written ∧ (outside 1).Written ∧ inside.Written ∧
      (outside 0).render = (outside 1).render ∧
      (outside 0).mapTokens Token.unplaced = (outside 1).mapTokens Token.unplaced ∧
      (outside 0).render ≠ inside.render := by
  intro place minus name number outside inside
  have first : (outside 0).Written := by decide +kernel
  have second : (outside 1).Written := by decide +kernel
  have third : inside.Written := by decide +kernel
  have same : (outside 0).render = (outside 1).render := by decide +kernel
  refine ⟨first, second, third, same, (render_unambiguous.1 _ _ first second).mp same, ?_⟩
  intro texts
  have trees := (render_unambiguous.1 _ _ first third).mp texts
  revert trees
  decide +kernel

end LetLang
