import LetLang.Proofs.Spelling
import LetLang.Proofs.Stuck

set_option autoImplicit false

namespace LetLang

namespace Relabelling

theorem content_eq_of_index {tokens tokens' : List Token}
    (same : tokens.map Token.content = tokens'.map Token.content) {index : Nat}
    {token token' : Token} (here : tokens[index]? = some token)
    (here' : tokens'[index]? = some token') : token.content = token'.content := by
  have contents : (tokens.map Token.content)[index]? = (tokens'.map Token.content)[index]? := by
    rw [same]
  simpa only [List.getElem?_map, here, here', Option.map_some, Option.some.injEq] using contents

/-- Pairs the tokens of the same index in two lists with the same kinds and literals. -/
def byIndex {tokens tokens' : List Token}
    (same : tokens.map Token.content = tokens'.map Token.content) : Relabelling where
  Pairs token token' := ∃ index : Nat, tokens[index]? = some token ∧ tokens'[index]? = some token'
  kind_eq := by
    rintro token token' ⟨index, here, here'⟩
    exact congrArg Prod.fst (content_eq_of_index same here here')
  literal_eq := by
    rintro token token' ⟨index, here, here'⟩
    exact congrArg Prod.snd (content_eq_of_index same here here')

theorem byIndex_pairs {tokens tokens' : List Token}
    (same : tokens.map Token.content = tokens'.map Token.content) :
    List.Forall₂ (byIndex same).Pairs tokens tokens' := by
  have length_eq : tokens.length = tokens'.length := by
    simpa using congrArg List.length same
  refine List.forall₂_iff_get.mpr ⟨length_eq, fun index inside inside' => ⟨index, ?_, ?_⟩⟩
  · exact List.getElem?_eq_getElem inside
  · exact List.getElem?_eq_getElem inside'

variable {pairing : Relabelling}

theorem Windows.of_allTokens {window window' : Window}
    (paired : List.Forall₂ pairing.Pairs window.allTokens window'.allTokens) :
    pairing.Windows window window' := by
  rw [← List.forall₂_reverse_iff, Window.allTokens, Window.allTokens, List.reverse_concat,
    List.reverse_concat] at paired
  cases paired with
  | cons stop pending => exact ⟨List.forall₂_reverse_iff.mp pending, stop⟩

theorem Exprs.render_eq {tree tree' : Expr} (trees : pairing.Exprs tree tree') :
    tree.render = tree'.render := by
  induction trees with
  | name paired => exact pairing.literal_eq paired
  | integer value paired => exact pairing.literal_eq paired
  | unary operator _ _ ih => rw [Expr.render, Expr.render, ih]
  | binary operator _ _ _ left_ih right_ih => rw [Expr.render, Expr.render, left_ih, right_ih]

theorem Stmts.render_eq {stmt stmt' : Stmt} (stmts : pairing.Stmts stmt stmt') :
    stmt.render = stmt'.render := by
  cases stmts with
  | binding paired names =>
      simp only [Stmt.render, Name.ofToken, pairing.literal_eq paired, pairing.literal_eq names]
  | returning paired => simp only [Stmt.render, pairing.literal_eq paired]
  | expression _ trees => exact trees.render_eq

/-- Results of one outcome: programs of the same statements over paired tokens, which print alike,
or the same faults at paired tokens. -/
inductive Results (pairing : Relabelling) :
    Except (List Diagnostic) Program → Except (List Diagnostic) Program → Prop where
  | ok {program program' : Program}
      (statements : List.Forall₂ pairing.Stmts program.statements program'.statements)
      (render_eq : program.render = program'.render) : Results pairing (.ok program) (.ok program')
  | error {diagnostics diagnostics' : List Diagnostic}
      (related : List.Forall₂ pairing.Diagnostics diagnostics diagnostics') :
      Results pairing (.error diagnostics) (.error diagnostics')

theorem render_eq_of_statements {program program' : Program}
    (statements : List.Forall₂ pairing.Stmts program.statements program'.statements) :
    program.render = program'.render := by
  have texts : program.statements.map Stmt.render = program'.statements.map Stmt.render := by
    rw [← List.forall₂_eq_eq_eq, List.forall₂_map_left_iff, List.forall₂_map_right_iff]
    exact statements.imp fun _ _ related => related.render_eq
  rw [Program.render, Program.render, texts]

end Relabelling

/-- Texts with paired tokens have paired results. -/
theorem parse_relabel {pairing : Relabelling} {source source' text text' : String}
    (windows : pairing.Windows (Parse.start source text) (Parse.start source' text')) :
    pairing.Results (parse source text) (parse source' text') := by
  obtain ⟨result, runs, statements, diagnostics⟩ :=
    Parse.runs_relabel .standard windows (Parse.runs_start source text)
  cases runs.unique (Parse.runs_start source' text')
  by_cases clean : (Parse.runText source text).diagnostics = []
  · rw [clean, List.forall₂_nil_left_iff] at diagnostics
    simp only [parse, clean, diagnostics, List.isEmpty_nil, ↓reduceIte]
    exact .ok statements (Relabelling.render_eq_of_statements statements)
  · have clean' : (Parse.runText source' text').diagnostics ≠ [] := by
      intro empty
      rw [empty, List.forall₂_nil_right_iff] at diagnostics
      exact clean diagnostics
    simp only [parse, List.isEmpty_iff, clean, clean', ↓reduceIte]
    exact .error diagnostics

/-- Parsing looks at kinds and literals only. Two named texts whose tokens agree in these parse
both or fail both, and where one result has a token, or a diagnostic at a token, the other one has
the token of the same index. -/
theorem parse_depends_on_contents (source source' text text' : String)
    (same : (tokenize source text).map Token.content = (tokenize source' text').map Token.content) :
    (Relabelling.byIndex same).Results (parse source text) (parse source' text') :=
  parse_relabel (.of_allTokens (Relabelling.byIndex_pairs same))

theorem parse_depends_on_contents_spaced :
    let same := (tokenize shellName "-a+b; let").map Token.content =
      (tokenize "main" " - a\n+ b ;let\n").map Token.content
    ∃ holds : same, (Relabelling.byIndex holds).Results
      (.error [⟨.unexpected .ident .eof, ⟨9, shellName⟩⟩])
      (.error [⟨.unexpected .ident .eof, ⟨14, "main"⟩⟩]) := by
  intro same
  have holds : same := by decide +kernel
  have failed : parse shellName "-a+b; let" =
      .error [⟨.unexpected .ident .eof, ⟨9, shellName⟩⟩] := by decide +kernel
  have failed' : parse "main" " - a\n+ b ;let\n" =
      .error [⟨.unexpected .ident .eof, ⟨14, "main"⟩⟩] := by decide +kernel
  have results := parse_depends_on_contents _ _ _ _ holds
  rw [failed, failed'] at results
  exact ⟨holds, results⟩

end LetLang
