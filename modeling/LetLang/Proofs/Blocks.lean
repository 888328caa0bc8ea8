import LetLang.Proofs.Flat
import Mathlib.Data.List.Forall2

/-!
Programs as sequences of blocks. A text parses exactly if its tokens can be cut into blocks: a
binding or a return with whatever stands up to its semicolon, or a flat expression. There may be
several such cuts, because a minus can continue an expression or begin the next one. The program
belongs to the one cut in which an expression that ends without a semicolon is never followed by
a binary operator.
-/

set_option autoImplicit false

namespace LetLang

/-- What a statement of some form is read from, and its semicolon if it has one. -/
structure Block where
  form : Form
  body : List Token
  semicolon : Option Token
deriving DecidableEq, Repr

namespace Block

def tokens (block : Block) : List Token :=
  block.body ++ block.semicolon.toList

/-- The tokens that a body of each form can have. -/
def IsBody : Form → List Token → Prop
  | .binding, body =>
      ∃ keyword name assign skipped, body = keyword :: name :: assign :: skipped ∧
        keyword.kind = .letWord ∧ name.kind = .ident ∧ assign.kind = .assign ∧
        ∀ token ∈ skipped, token.kind ≠ .semicolon
  | .returning, body =>
      ∃ keyword skipped, body = keyword :: skipped ∧ keyword.kind = .returnWord ∧
        ∀ token ∈ skipped, token.kind ≠ .semicolon
  | .expression, body => IsFlat body

/-- A block has a body of its form, and then nothing or a semicolon. -/
structure WellFormed (block : Block) : Prop where
  body : IsBody block.form block.body
  semicolon : ∀ token ∈ block.semicolon, token.kind = .semicolon

def Makes (block : Block) : Stmt → Prop
  | .binding keyword name value =>
      block.form = .binding ∧
        (∃ assign skipped, block.body = keyword :: name.token :: assign :: skipped) ∧
        name.value = name.token.literal ∧ value = none
  | .returning keyword value =>
      block.form = .returning ∧ block.body.head? = some keyword ∧ value = none
  | .expression first tree =>
      block.form = .expression ∧ block.body.head? = some first ∧ tree.tokens = block.body ∧
        tree.Respects

end Block

/-- A sequence of tokens that is cut into blocks. A binding or a return without a semicolon has
nothing behind it. -/
inductive Cut : List Block → List Token → Prop where
  | nil : Cut [] []
  | cons {block : Block} {blocks : List Block} {later : List Token} (formed : block.WellFormed)
      (last : block.semicolon = none → block.form = .expression ∨ later = [])
      (rest : Cut blocks later) : Cut (block :: blocks) (block.tokens ++ later)

/-- No expression without a semicolon is followed by a binary operator. -/
def Greedy : List Block → Prop
  | [] => True
  | block :: later =>
      (block.form = .expression → block.semicolon = none →
        ∀ token ∈ (later.flatMap Block.tokens).head?,
          Grammar.standard.operator? token.kind = none) ∧
        Greedy later

namespace Block

theorem IsBody.ne_nil {form : Form} {body : List Token} (isBody : IsBody form body) : body ≠ [] := by
  cases form with
  | binding =>
      obtain ⟨_, _, _, _, rfl, _⟩ := isBody
      simp
  | returning =>
      obtain ⟨_, _, rfl, _⟩ := isBody
      simp
  | expression => exact IsFlat.ne_nil isBody

theorem IsBody.kind_ne_semicolon {form : Form} {body : List Token} (isBody : IsBody form body) :
    ∀ token ∈ body, token.kind ≠ .semicolon := by
  cases form with
  | binding =>
      obtain ⟨keyword, name, assign, skipped, rfl, first, second, third, others⟩ := isBody
      simp only [List.mem_cons, forall_eq_or_imp, first, second, third]
      exact ⟨by decide, by decide, by decide, others⟩
  | returning =>
      obtain ⟨keyword, skipped, rfl, first, others⟩ := isBody
      simp only [List.mem_cons, forall_eq_or_imp, first]
      exact ⟨by decide, others⟩
  | expression => exact IsFlat.kind_ne_semicolon isBody

theorem IsBody.form_eq {form : Form} {first : Token} {rest : List Token}
    (isBody : IsBody form (first :: rest)) :
    form = (Grammar.standard.form? first.kind).getD .expression := by
  cases form with
  | binding =>
      obtain ⟨_, _, _, _, same, kind, _⟩ := isBody
      cases same
      rw [kind]
      rfl
  | returning =>
      obtain ⟨_, _, same, kind, _⟩ := isBody
      cases same
      rw [kind]
      rfl
  | expression =>
      rw [Grammar.standard_form?_eq_none (.inl (IsFlat.operand?_head isBody))]
      rfl

/-- The body of a block is what stands in front of the first semicolon. -/
theorem WellFormed.body_eq {block : Block} (formed : block.WellFormed) :
    block.body = block.tokens.takeWhile fun token => !token.is .semicolon := by
  rw [tokens, List.takeWhile_append_of_pos]
  · cases semicolon : block.semicolon with
    | none => simp
    | some token => simp [formed.semicolon token semicolon]
  · intro token member
    simpa using formed.body.kind_ne_semicolon token member

/-- The tokens of a block determine it. -/
theorem WellFormed.eq_of_tokens_eq {first second : Block} (formed : first.WellFormed)
    (formed' : second.WellFormed) (same : first.tokens = second.tokens) : first = second := by
  have bodies : first.body = second.body := by
    rw [formed.body_eq, formed'.body_eq, same]
  have semicolons : first.semicolon = second.semicolon := by
    rw [tokens, tokens, bodies, List.append_cancel_left_eq] at same
    cases semi : first.semicolon <;> cases semi' : second.semicolon <;> simp_all
  have forms : first.form = second.form := by
    have isBody := formed.body
    have isBody' := formed'.body
    rw [← bodies] at isBody'
    cases body : first.body with
    | nil => exact (isBody.ne_nil body).elim
    | cons token rest =>
        rw [body] at isBody isBody'
        rw [isBody.form_eq, isBody'.form_eq]
  cases first
  cases second
  simp_all

theorem Makes.unique {block : Block} {first second : Stmt} (makes : block.Makes first)
    (makes' : block.Makes second) : first = second := by
  cases first with
  | binding keyword name value =>
      obtain ⟨form, ⟨assign, skipped, body⟩, spelled, rfl⟩ := makes
      cases second with
      | binding keyword' name' value' =>
          obtain ⟨_, ⟨assign', skipped', body'⟩, spelled', rfl⟩ := makes'
          have same := body.symm.trans body'
          cases name
          cases name'
          simp_all
      | returning _ _ => simp [form, Makes] at makes'
      | expression _ _ => simp [form, Makes] at makes'
  | returning keyword value =>
      obtain ⟨form, head, rfl⟩ := makes
      cases second with
      | returning keyword' value' =>
          obtain ⟨_, head', rfl⟩ := makes'
          have same := head.symm.trans head'
          simp_all
      | binding _ _ _ => simp [form, Makes] at makes'
      | expression _ _ => simp [form, Makes] at makes'
  | expression token tree =>
      obtain ⟨form, head, tokens_eq, respects⟩ := makes
      cases second with
      | expression token' tree' =>
          obtain ⟨_, head', tokens_eq', respects'⟩ := makes'
          have same := head.symm.trans head'
          have trees := Parse.eq_of_tokens_eq respects respects' (tokens_eq.trans tokens_eq'.symm)
          simp_all
      | binding _ _ _ => simp [form, Makes] at makes'
      | returning _ _ => simp [form, Makes] at makes'

end Block

theorem Cut.flatMap_eq {blocks : List Block} {tokens : List Token} (cut : Cut blocks tokens) :
    blocks.flatMap Block.tokens = tokens := by
  induction cut with
  | nil => rfl
  | cons _ _ _ ih => rw [List.flatMap_cons, ih]

/-- A block that begins with a binary operator is an expression, and the operator is a minus. -/
theorem Block.WellFormed.of_operator {block : Block} {first : Token} {rest : List Token}
    (formed : block.WellFormed) (body : block.body = first :: rest)
    (known : (Grammar.standard.operator? first.kind).isSome = true) :
    block.form = .expression ∧ first.kind = .minus := by
  have isBody := formed.body
  rw [body] at isBody
  have form : block.form = .expression := by
    rw [isBody.form_eq, Grammar.standard_form?_eq_none (.inr known)]
    rfl
  rw [form] at isBody
  exact ⟨form, Grammar.standard_eq_minus (IsFlat.operand?_head isBody) known⟩

/-- Two expressions with no semicolon between them are one if the second begins with an operator. -/
theorem Cut.merge {block next : Block} {others : List Block} {later : List Token}
    (formed : block.WellFormed) (form : block.form = .expression)
    (nextFormed : next.WellFormed) (rest : Cut others later)
    {first : Token} {tail : List Token} (body : next.body = first :: tail)
    (known : (Grammar.standard.operator? first.kind).isSome = true) :
    Cut (⟨.expression, block.body ++ next.body, next.semicolon⟩ :: others)
      (block.body ++ next.tokens ++ later) := by
  obtain ⟨nextForm, kind⟩ := nextFormed.of_operator body known
  have front := formed.body
  have back := nextFormed.body
  rw [form] at front
  rw [nextForm, body] at back
  have merged : Block.WellFormed ⟨.expression, block.body ++ next.body, next.semicolon⟩ := by
    refine ⟨?_, nextFormed.semicolon⟩
    rw [body]
    exact IsFlat.append_minus front kind back
  have whole := Cut.cons merged (fun _ => .inl rfl) rest
  simpa [Block.tokens] using whole

/-- Every cut can be made greedy by merging blocks. -/
theorem Cut.exists_greedy {blocks : List Block} {tokens : List Token} (cut : Cut blocks tokens) :
    ∃ greedy, Cut greedy tokens ∧ Greedy greedy := by
  induction cut with
  | nil => exact ⟨[], .nil, trivial⟩
  | @cons block blocks later formed last rest ih =>
      obtain ⟨others, others_cut, others_greedy⟩ := ih
      by_cases held : block.form = .expression → block.semicolon = none →
          ∀ token ∈ later.head?, Grammar.standard.operator? token.kind = none
      · refine ⟨block :: others, .cons formed last others_cut, ?_, others_greedy⟩
        rw [others_cut.flatMap_eq]
        exact held
      · -- The block is an open expression in front of an operator, which starts the next block.
        simp only [Classical.not_imp, not_forall] at held
        obtain ⟨form, opened, token, head, known⟩ := held
        cases others_cut with
        | nil => cases head
        | @cons next others behind nextFormed nextLast nextRest =>
            cases body : next.body with
            | nil => exact (nextFormed.body.ne_nil body).elim
            | cons first tail =>
                have same : first = token := by
                  simpa [Block.tokens, body] using head
                have isOperator : (Grammar.standard.operator? first.kind).isSome = true := by
                  rw [same]
                  exact Option.isSome_iff_ne_none.mpr known
                have nextForm := (nextFormed.of_operator body isOperator).1
                have merged := Cut.merge formed form nextFormed nextRest body isOperator
                refine ⟨⟨.expression, block.body ++ next.body, next.semicolon⟩ :: others, ?_,
                  fun _ => others_greedy.1 nextForm, others_greedy.2⟩
                simpa [Block.tokens, opened] using merged

end LetLang
