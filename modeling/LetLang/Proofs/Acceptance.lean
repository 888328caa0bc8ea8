import LetLang.Proofs.Blocks

set_option autoImplicit false

namespace LetLang

/-- What may come behind a block of a greedy cut: anything behind a semicolon, nothing behind an
open binding or return, and no operator behind an open expression. -/
structure Block.EndsBefore (block : Block) (later : List Token) : Prop where
  last : block.semicolon = none → block.form = .expression ∨ later = []
  greedy : block.form = .expression → block.semicolon = none →
    ∀ token ∈ later.head?, Grammar.standard.operator? token.kind = none
  apart : block.semicolon = none → ∀ token ∈ later.head?, token.kind ≠ .semicolon

theorem Block.EndsBefore.of_last {block : Block} {later : List Token}
    (form : block.form ≠ .expression) (last : block.semicolon = none → later = []) :
    block.EndsBefore later where
  last opened := .inr (last opened)
  greedy same := (form same).elim
  apart opened := by simp [last opened]

theorem Cut.kind_head_ne_semicolon {blocks : List Block} {tokens : List Token}
    (cut : Cut blocks tokens) : ∀ token ∈ tokens.head?, token.kind ≠ .semicolon := by
  cases cut with
  | nil => simp
  | @cons block blocks later formed _ _ =>
      cases body : block.body with
      | nil => exact (formed.body.ne_nil body).elim
      | cons first rest =>
          have apart := formed.body.kind_ne_semicolon first (by simp [body])
          simpa [Block.tokens, body] using apart

namespace Parse

/-- Skipping to the semicolon of a block and past it leads behind the block. -/
theorem skipToSemicolon_advance {skipped : List Token} {semicolon : Option Token}
    {later : List Token} (stop : Token) (others : ∀ token ∈ skipped, token.kind ≠ .semicolon)
    (ended : ∀ token ∈ semicolon, token.kind = .semicolon)
    (last : semicolon = none → later = []) :
    (Window.skipToSemicolon ⟨skipped ++ (semicolon.toList ++ later), stop⟩).advance =
      ⟨later, stop⟩ := by
  have passed : (skipped ++ (semicolon.toList ++ later)).dropWhile
      (fun token => !token.is .semicolon) = semicolon.toList ++ later := by
    rw [List.dropWhile_append_of_pos (by simpa using others)]
    cases semicolon with
    | none => simp [last rfl]
    | some token => simp [ended token rfl]
  rw [Window.skipToSemicolon, passed, Window.advance]
  cases semicolon with
  | none => simp [last rfl]
  | some token => simp

theorem stmt_of_body {form : Form} {body : List Token} (isBody : Block.IsBody form body)
    (later : List Token) (stop : Token) :
    stmt .standard ⟨body ++ later, stop⟩ = formStmt .standard form ⟨body ++ later, stop⟩ := by
  cases body with
  | nil => exact (isBody.ne_nil rfl).elim
  | cons first rest =>
      rw [isBody.form_eq]
      rfl

theorem stmt_of_binding {block : Block} (formed : block.WellFormed) (form : block.form = .binding)
    {later : List Token} (stop : Token) (last : block.semicolon = none → later = []) :
    ∃ value rest, stmt .standard ⟨block.tokens ++ later, stop⟩ = .done value rest ∧
      rest.advance = ⟨later, stop⟩ ∧ block.Makes value := by
  have isBody := formed.body
  rw [form] at isBody
  rw [Block.tokens, List.append_assoc, stmt_of_body isBody]
  obtain ⟨keyword, name, assign, skipped, body, _, nameKind, assignKind, others⟩ := isBody
  have passing : ∀ token ∈ assign :: skipped, token.kind ≠ .semicolon := by
    simp only [List.mem_cons, forall_eq_or_imp, assignKind]
    exact ⟨by decide, others⟩
  refine ⟨.binding keyword (.ofToken name) none, _, ?_,
    skipToSemicolon_advance stop passing formed.semicolon last, form, ⟨assign, skipped, body⟩, rfl,
    rfl⟩
  simp [body, formStmt, binding, Window.expect, Window.next, Window.advance, Window.current,
    nameKind, assignKind]

theorem stmt_of_returning {block : Block} (formed : block.WellFormed)
    (form : block.form = .returning) {later : List Token} (stop : Token)
    (last : block.semicolon = none → later = []) :
    ∃ value rest, stmt .standard ⟨block.tokens ++ later, stop⟩ = .done value rest ∧
      rest.advance = ⟨later, stop⟩ ∧ block.Makes value := by
  have isBody := formed.body
  rw [form] at isBody
  rw [Block.tokens, List.append_assoc, stmt_of_body isBody]
  obtain ⟨keyword, skipped, body, _, others⟩ := isBody
  refine ⟨.returning keyword none, _, ?_,
    skipToSemicolon_advance stop others formed.semicolon last, form, by simp [body], rfl⟩
  simp [body, formStmt, returning, Window.advance, Window.current]

theorem closeStmt_of_ne {window : Window} (apart : window.next.kind ≠ .semicolon) :
    closeStmt window = window := by
  simp [closeStmt, apart]

theorem closeStmt_of_eq {window : Window} (ended : window.next.kind = .semicolon) :
    closeStmt window = window.advance := by
  simp [closeStmt, ended]

theorem closeStmt_advance {block : Block} (formed : block.WellFormed) {later : List Token}
    (before : block.EndsBefore later) (token stop : Token) (ends : stop.kind = .eof) :
    (closeStmt ⟨token :: (block.semicolon.toList ++ later), stop⟩).advance = ⟨later, stop⟩ := by
  cases semicolon : block.semicolon with
  | none =>
      have open_end : (later.headD stop).kind ≠ .semicolon := by
        cases later with
        | nil => simp [ends]
        | cons next rest => exact before.apart semicolon next rfl
      rw [closeStmt_of_ne]
      · rfl
      · exact open_end
  | some mark =>
      rw [closeStmt_of_eq]
      · rfl
      · exact formed.semicolon mark semicolon

theorem operator?_behind {block : Block} (formed : block.WellFormed)
    (form : block.form = .expression) {later : List Token} (before : block.EndsBefore later)
    (stop : Token) (ends : stop.kind = .eof) :
    Grammar.standard.operator? ((block.semicolon.toList ++ later).headD stop).kind = none := by
  cases semicolon : block.semicolon with
  | none =>
      cases later with
      | nil => simp [ends, Grammar.standard]
      | cons next rest => exact before.greedy form semicolon next rfl
  | some mark => simp [formed.semicolon mark semicolon, Grammar.standard]

theorem stmt_of_expression {block : Block} (formed : block.WellFormed)
    (form : block.form = .expression) {later : List Token} (before : block.EndsBefore later)
    (stop : Token) (ends : stop.kind = .eof) :
    ∃ value rest, stmt .standard ⟨block.tokens ++ later, stop⟩ = .done value rest ∧
      rest.advance = ⟨later, stop⟩ ∧ block.Makes value := by
  have isBody := formed.body
  rw [form] at isBody
  obtain ⟨tree, respects, tokens_eq⟩ := IsFlat.exists_tree isBody
  have read := expr_tokens_append respects (block.semicolon.toList ++ later) stop ends
    (operator?_behind formed form before stop ends)
  rw [Block.tokens, List.append_assoc, stmt_of_body isBody, ← tokens_eq, formStmt, exprStmt, read]
  refine ⟨_, _, rfl, closeStmt_advance formed before _ stop ends, form, ?_, tokens_eq, respects⟩
  rw [← tokens_eq]
  cases tokens : tree.tokens with
  | nil => exact (tree.tokens_ne_nil tokens).elim
  | cons token rest => rfl

/-- A block of a greedy cut is read as its statement, and the run goes on behind it. -/
theorem stmt_of_block {block : Block} (formed : block.WellFormed) {later : List Token}
    (before : block.EndsBefore later) (stop : Token) (ends : stop.kind = .eof) :
    ∃ value rest, stmt .standard ⟨block.tokens ++ later, stop⟩ = .done value rest ∧
      rest.advance = ⟨later, stop⟩ ∧ block.Makes value := by
  cases form : block.form with
  | binding =>
      exact stmt_of_binding formed form stop fun opened =>
        (before.last opened).resolve_left (by simp [form])
  | returning =>
      exact stmt_of_returning formed form stop fun opened =>
        (before.last opened).resolve_left (by simp [form])
  | expression => exact stmt_of_expression formed form before stop ends

/-- What skipping passes over, the semicolon that it ends on if there is one, and the rest. -/
theorem exists_skipped (window : Window) :
    ∃ skipped semicolon,
      window.pending = skipped ++ (semicolon.toList ++ window.skipToSemicolon.advance.pending) ∧
        (∀ token ∈ skipped, token.kind ≠ .semicolon) ∧
        (∀ token ∈ semicolon, token.kind = .semicolon) ∧
        (semicolon = none → window.skipToSemicolon.advance.pending = []) := by
  obtain ⟨pending, stop⟩ := window
  induction pending with
  | nil => exact ⟨[], none, rfl, by simp, by simp, fun _ => rfl⟩
  | cons first rest ih =>
      by_cases mark : first.kind = .semicolon
      · refine ⟨[], some first, ?_, by simp, by simpa using mark, by simp⟩
        simp [Window.skipToSemicolon, Window.advance, mark]
      · obtain ⟨skipped, semicolon, whole, others, ended, last⟩ := ih
        have same : Window.skipToSemicolon ⟨first :: rest, stop⟩ =
            Window.skipToSemicolon ⟨rest, stop⟩ := Window.skipToSemicolon_of_ne mark
        rw [same]
        refine ⟨first :: skipped, semicolon, congrArg (first :: ·) whole, ?_, ended, last⟩
        simpa using ⟨mark, others⟩

theorem block_of_binding {window rest : Window} {value : Stmt} (ends : window.stop.kind = .eof)
    (keyword : window.current.kind = .letWord) (read : binding window = .done value rest) :
    ∃ block : Block, block.WellFormed ∧ block.Makes value ∧
      window.pending = block.tokens ++ rest.advance.pending ∧
      block.EndsBefore rest.advance.pending := by
  unfold binding at read
  split at read
  · cases read
  · rename_i named first
    obtain ⟨nameKind, rfl⟩ := (Window.expect_eq_ok_iff _ _ _).mp first
    split at read
    · cases read
    · rename_i assigned second
      obtain ⟨assignKind, rfl⟩ := (Window.expect_eq_ok_iff _ _ _).mp second
      cases read
      have front := window.pending_eq_cons_cons ends (by simp [nameKind])
      have back := window.advance.pending_eq_cons_cons ends (by simp [assignKind])
      have skips : window.advance.advance.skipToSemicolon =
          window.advance.advance.advance.skipToSemicolon :=
        Window.skipToSemicolon_of_ne (by rw [Window.current_advance, assignKind]; decide)
      obtain ⟨skipped, semicolon, whole, others, ended, last⟩ :=
        exists_skipped window.advance.advance.advance
      have rest_eq : window.advance.advance.pending =
          window.advance.next :: window.advance.advance.advance.pending :=
        congrArg List.tail back
      refine ⟨⟨.binding, window.current :: window.next :: window.advance.next :: skipped,
        semicolon⟩, ⟨⟨_, _, _, _, rfl, keyword, nameKind, assignKind, others⟩, ended⟩,
        ⟨rfl, ⟨_, _, rfl⟩, rfl, rfl⟩, ?_, .of_last (by simp) (by rw [skips]; exact last)⟩
      rw [front, rest_eq, skips]
      simpa [Block.tokens] using whole

theorem block_of_returning {window rest : Window} {value : Stmt} (some_token : window.pending ≠ [])
    (keyword : window.current.kind = .returnWord) (read : returning window = .done value rest) :
    ∃ block : Block, block.WellFormed ∧ block.Makes value ∧
      window.pending = block.tokens ++ rest.advance.pending ∧
      block.EndsBefore rest.advance.pending := by
  cases read
  obtain ⟨skipped, semicolon, whole, others, ended, last⟩ := exists_skipped window.advance
  refine ⟨⟨.returning, window.current :: skipped, semicolon⟩,
    ⟨⟨_, _, rfl, keyword, others⟩, ended⟩, ⟨rfl, rfl, rfl⟩, ?_, .of_last (by simp) last⟩
  rw [window.pending_eq_cons some_token]
  simpa [Block.tokens] using whole

theorem block_of_expression {window rest : Window} {value : Stmt} (ends : window.stop.kind = .eof)
    (read : exprStmt .standard window = .done value rest) :
    ∃ block : Block, block.WellFormed ∧ block.Makes value ∧
      window.pending = block.tokens ++ rest.advance.pending ∧
      block.EndsBefore rest.advance.pending := by
  obtain ⟨tree, middle, found, closed⟩ := (Outcome.bind_eq_done_iff _ _ _ _).mp read
  cases closed
  have reading := expr_reading found
  have respects := Expr.respects_of_grouped reading.formed reading.grouped
  have inside := reading.pending_ne_nil rfl ends
  have whole := reading.through.pending_eq inside
  have same_end : middle.stop.kind = .eof := by rw [reading.through.follows.stop_eq, ends]
  have first := reading.through.head?_eq
  by_cases mark : middle.next.kind = .semicolon
  · have behind := middle.pending_eq_cons_cons same_end (by simp [mark])
    have next_eq : middle.advance.pending = middle.next :: middle.advance.advance.pending :=
      congrArg List.tail behind
    rw [closeStmt_of_eq mark]
    refine ⟨⟨.expression, tree.tokens, some middle.next⟩, ⟨respects.isFlat, by simpa using mark⟩,
      ⟨rfl, first, rfl, respects⟩, ?_, by simp, by simp, by simp⟩
    rw [whole, next_eq]
    simp [Block.tokens]
  · rw [closeStmt_of_ne mark]
    refine ⟨⟨.expression, tree.tokens, none⟩, ⟨respects.isFlat, by simp⟩,
      ⟨rfl, first, rfl, respects⟩, by simpa [Block.tokens] using whole, by simp, ?_, ?_⟩
    · intro _ _ token head
      rw [← Window.next_eq_of_mem_head? head]
      exact operator?_eq_none_of_stopped reading.stopped mark
    · intro _ token head
      rw [← Window.next_eq_of_mem_head? head]
      exact mark

/-- A statement that is read belongs to a block. -/
theorem block_of_stmt {window rest : Window} {value : Stmt} (ends : window.stop.kind = .eof)
    (some_token : window.pending ≠ []) (read : stmt .standard window = .done value rest) :
    ∃ block : Block, block.WellFormed ∧ block.Makes value ∧
      window.pending = block.tokens ++ rest.advance.pending ∧
      block.EndsBefore rest.advance.pending := by
  unfold stmt at read
  cases form : Grammar.standard.form? window.current.kind with
  | none =>
      rw [form] at read
      exact block_of_expression ends read
  | some form' =>
      rw [form] at read
      cases form' with
      | binding =>
          exact block_of_binding ends ((Grammar.standard_form?_binding_iff _).mp form) read
      | returning =>
          exact block_of_returning some_token ((Grammar.standard_form?_returning_iff _).mp form) read
      | expression => exact block_of_expression ends read

end Parse

theorem Block.WellFormed.tokens_ne_nil {block : Block} (formed : block.WellFormed) :
    block.tokens ≠ [] :=
  List.append_ne_nil_of_left_ne_nil formed.body.ne_nil _

namespace Cut

theorem eq_nil {blocks : List Block} (cut : Cut blocks []) : blocks = [] := by
  generalize empty : ([] : List Token) = tokens at cut
  cases cut with
  | nil => rfl
  | cons formed _ _ => exact (formed.tokens_ne_nil (List.append_eq_nil_iff.mp empty.symm).1).elim

theorem endsBefore {block : Block} {blocks : List Block} {later : List Token}
    (last : block.semicolon = none → block.form = .expression ∨ later = [])
    (rest : Cut blocks later) (greedy : Greedy (block :: blocks)) : block.EndsBefore later where
  last := last
  greedy := by
    rw [← rest.flatMap_eq]
    exact greedy.1
  apart _ := rest.kind_head_ne_semicolon

/-- Tokens have one greedy cut at most. The first statement is the same for both cuts, so it ends
both first blocks at the same place. -/
theorem unique {first second : List Block} {tokens : List Token} (cut : Cut first tokens)
    (greedy : Greedy first) (cut' : Cut second tokens) (greedy' : Greedy second) :
    first = second := by
  induction cut generalizing second with
  | nil => exact cut'.eq_nil.symm
  | @cons block blocks later formed last rest ih =>
      generalize whole : block.tokens ++ later = tokens at cut'
      cases cut' with
      | nil => exact (formed.tokens_ne_nil (List.append_eq_nil_iff.mp whole).1).elim
      | @cons block' blocks' later' formed' last' rest' =>
          let stop := Token.ofLiteral .eof ""
          obtain ⟨value, after, read, behind, _⟩ :=
            Parse.stmt_of_block formed (endsBefore last rest greedy) stop rfl
          obtain ⟨value', after', read', behind', _⟩ :=
            Parse.stmt_of_block formed' (endsBefore last' rest' greedy') stop rfl
          rw [whole, read'] at read
          cases read
          have later_eq : later = later' := congrArg Window.pending (behind.symm.trans behind')
          subst later_eq
          have tokens_eq : block.tokens = block'.tokens := List.append_cancel_right whole
          rw [formed.eq_of_tokens_eq formed' tokens_eq, ih greedy.2 rest' greedy'.2]

end Cut

namespace Parse

/-- A greedy cut is read without diagnostics, one statement for each block. -/
theorem runs_of_cut {blocks : List Block} {tokens : List Token} (cut : Cut blocks tokens)
    (greedy : Greedy blocks) (stop : Token) (ends : stop.kind = .eof) :
    ∃ result, Runs .standard ⟨tokens, stop⟩ result ∧ result.diagnostics = [] ∧
      List.Forall₂ Block.Makes blocks result.statements := by
  induction cut with
  | nil => exact ⟨_, .ended rfl, rfl, .nil⟩
  | @cons block blocks later formed last rest ih =>
      obtain ⟨value, after, read, behind, makes⟩ :=
        stmt_of_block formed (Cut.endsBefore last rest greedy) stop ends
      obtain ⟨result, runs, clean, made⟩ := ih greedy.2
      have some_token : block.tokens ++ later ≠ [] :=
        List.append_ne_nil_of_left_ne_nil formed.tokens_ne_nil _
      rw [← behind] at runs
      exact ⟨result.behind [value] [], .read some_token read runs, clean, .cons makes made⟩

/-- A run without diagnostics comes from a greedy cut. -/
theorem cut_of_runs {window : Window} {result : Run} (runs : Runs .standard window result)
    (ends : window.stop.kind = .eof) (clean : result.diagnostics = []) :
    ∃ blocks, Cut blocks window.pending ∧ Greedy blocks ∧
      List.Forall₂ Block.Makes blocks result.statements := by
  induction runs with
  | ended empty => exact ⟨[], by rw [empty]; exact .nil, trivial, .nil⟩
  | @read window rest value later some_token done _ ih =>
      have follows := stmt_done_follows done
      obtain ⟨blocks, cut, greedy, made⟩ :=
        ih (by rw [Window.stop_advance, follows.stop_eq, ends]) clean
      obtain ⟨block, formed, makes, whole, before⟩ := block_of_stmt ends some_token done
      refine ⟨block :: blocks, ?_, ⟨?_, greedy⟩, .cons makes made⟩
      · rw [whole]
        exact .cons formed before.last cut
      · rw [cut.flatMap_eq]
        exact before.greedy
  | failed _ _ _ _ => simp [Run.behind] at clean

end Parse

theorem parse_eq_ok_iff (source text : String) (program : Program) :
    parse source text = .ok program ↔
      (Parse.runText source text).diagnostics = [] ∧
        (Parse.runText source text).statements = program.statements := by
  obtain ⟨statements⟩ := program
  unfold parse
  by_cases clean : (Parse.runText source text).diagnostics = [] <;> simp [clean]

theorem parse_eq_ok_iff_greedy (source text : String) (program : Program) :
    parse source text = .ok program ↔
      ∃ blocks, Cut blocks (Cursor.ofText source text).tokens ∧ Greedy blocks ∧
        List.Forall₂ Block.Makes blocks program.statements := by
  rw [parse_eq_ok_iff]
  constructor
  · rintro ⟨clean, statements_eq⟩
    rw [← statements_eq]
    exact Parse.cut_of_runs (Parse.runs_start source text) rfl clean
  · rintro ⟨blocks, cut, greedy, made⟩
    obtain ⟨result, runs, clean, made'⟩ :=
      Parse.runs_of_cut cut greedy (Cursor.ofText source text).finish.endToken rfl
    have same : Parse.runText source text = result := (Parse.runs_start source text).unique runs
    rw [same]
    have unique : Relator.RightUnique Block.Makes := fun _ _ _ => Block.Makes.unique
    exact ⟨clean, List.right_unique_forall₂' unique made' made⟩

/-- A text parses exactly if its tokens can be cut into blocks. Its program then has a statement
for each block of the one greedy cut, in the same order. -/
theorem parse_eq_ok_iff_cut (source text : String) :
    ((∃ program, parse source text = .ok program) ↔
      ∃ blocks, Cut blocks (Cursor.ofText source text).tokens) ∧
      ∀ program, parse source text = .ok program ↔
        ∃ blocks,
          (∀ other, Cut other (Cursor.ofText source text).tokens ∧ Greedy other ↔
            other = blocks) ∧
          List.Forall₂ Block.Makes blocks program.statements := by
  refine ⟨⟨?_, ?_⟩, fun program => ⟨?_, ?_⟩⟩
  · rintro ⟨program, parsed⟩
    obtain ⟨blocks, cut, _⟩ := (parse_eq_ok_iff_greedy source text program).mp parsed
    exact ⟨blocks, cut⟩
  · rintro ⟨blocks, cut⟩
    obtain ⟨merged, merged_cut, greedy⟩ := cut.exists_greedy
    obtain ⟨result, _, _, made⟩ := Parse.runs_of_cut merged_cut greedy (.ofLiteral .eof "") rfl
    exact ⟨⟨result.statements⟩,
      (parse_eq_ok_iff_greedy source text _).mpr ⟨merged, merged_cut, greedy, made⟩⟩
  · intro parsed
    obtain ⟨blocks, cut, greedy, made⟩ := (parse_eq_ok_iff_greedy source text program).mp parsed
    refine ⟨blocks, fun other => ⟨?_, ?_⟩, made⟩
    · rintro ⟨other_cut, other_greedy⟩
      exact other_cut.unique other_greedy cut greedy
    · rintro rfl
      exact ⟨cut, greedy⟩
  · rintro ⟨blocks, only, made⟩
    have ⟨cut, greedy⟩ := (only blocks).mpr rfl
    exact (parse_eq_ok_iff_greedy source text program).mpr ⟨blocks, cut, greedy, made⟩

end LetLang
