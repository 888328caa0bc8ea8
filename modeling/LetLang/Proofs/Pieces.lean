import LetLang.Cut
import LetLang.Proofs.Barrier
import LetLang.Proofs.Spelling
import LetLang.Proofs.Stuck
import LetLang.Proofs.Tiling

/-!
Recovery, piece by piece. The tokens of a text are cut behind each semicolon, and the run of the
text is the runs of the pieces in a row. A piece has at most one diagnostic, because what recovery
passes over reaches to the end of it. So each piece adds the statements that it has alone, or those
in front of its first failure and the diagnostic of that failure.
-/

set_option autoImplicit false

namespace LetLang

section Marks

variable {α : Type}

@[simp] theorem cutAfter_nil (isMark : α → Bool) : cutAfter isMark [] = [] := by
  simp [cutAfter]

variable {isMark : α → Bool}

theorem cutAfter_of_unmarked {items : List α} (unmarked : ∀ item ∈ items, isMark item = false)
    (some_item : items ≠ []) : cutAfter isMark items = [items] := by
  have dropped : items.dropWhile (fun item => !isMark item) = [] := by
    simpa [List.dropWhile_eq_nil_iff] using unmarked
  have taken : items.takeWhile (fun item => !isMark item) = items := by
    simpa [dropped] using
      List.takeWhile_append_dropWhile (p := fun item => !isMark item) (l := items)
  rw [cutAfter]
  split
  · simp [taken, some_item]
  · rename_i mark rest ending
    rw [dropped] at ending
    cases ending

theorem cutAfter_first {body : List α} {mark : α} (unmarked : ∀ item ∈ body, isMark item = false)
    (marks : isMark mark = true) (rest : List α) :
    cutAfter isMark (body ++ mark :: rest) = (body ++ [mark]) :: cutAfter isMark rest := by
  have outside : ∀ item ∈ body, (!isMark item) = true := by simpa using unmarked
  have dropped : (body ++ mark :: rest).dropWhile (fun item => !isMark item) = mark :: rest := by
    rw [List.dropWhile_append_of_pos outside]
    simp [marks]
  have taken : (body ++ mark :: rest).takeWhile (fun item => !isMark item) = body := by
    rw [List.takeWhile_append_of_pos outside]
    simp [marks]
  rw [cutAfter]
  split
  · rename_i ending
    rw [dropped] at ending
    cases ending
  · rename_i mark' rest' ending
    rw [dropped] at ending
    cases ending
    rw [taken]

/-- A list has no mark, or it has a first one and a shorter list behind that. -/
theorem cutAfter_induction (isMark : α → Bool) {motive : List α → Prop}
    (unmarked : ∀ items, (∀ item ∈ items, isMark item = false) → motive items)
    (marked : ∀ body mark rest, (∀ item ∈ body, isMark item = false) → isMark mark = true →
      motive rest → motive (body ++ mark :: rest))
    (items : List α) : motive items := by
  by_cases outside : ∀ item ∈ items, isMark item = false
  · exact unmarked items outside
  · simp only [not_forall, Bool.not_eq_false] at outside
    obtain ⟨item, member, marks⟩ := outside
    obtain ⟨mark, body, rest, before, marks, whole, _⟩ := List.exists_of_eraseP member marks
    have shorter : rest.length < items.length := by
      rw [whole, List.length_append, List.length_cons]
      omega
    rw [whole]
    exact marked body mark rest (by simpa using before) marks
      (cutAfter_induction isMark unmarked marked rest)
termination_by items.length

/-- Each piece ends with its only mark, but for a last one without marks, which an item behind the
list joins. -/
theorem mem_cutAfter_cases {items piece : List α} (member : piece ∈ cutAfter isMark items)
    {item : α} (other : isMark item = false) :
    (∃ body mark, piece = body ++ [mark] ∧ (∀ inside ∈ body, isMark inside = false) ∧
        isMark mark = true ∧ piece ∈ cutAfter isMark (items ++ [item])) ∨
      (∀ inside ∈ piece, isMark inside = false) ∧ (cutAfter isMark items).getLast? = some piece ∧
        piece ++ [item] ∈ cutAfter isMark (items ++ [item]) := by
  induction items using cutAfter_induction isMark with
  | unmarked items outside =>
      by_cases empty : items = []
      · simp [empty] at member
      · rw [cutAfter_of_unmarked outside empty] at member ⊢
        cases List.mem_singleton.mp member
        have longer : ∀ inside ∈ piece ++ [item], isMark inside = false := by
          simpa [or_imp, forall_and] using ⟨outside, other⟩
        rw [cutAfter_of_unmarked longer (by simp)]
        exact .inr ⟨outside, rfl, List.mem_singleton.mpr rfl⟩
  | marked body mark rest outside marks ih =>
      rw [cutAfter_first outside marks] at member
      rw [List.append_assoc, List.cons_append, cutAfter_first outside marks,
        cutAfter_first outside marks]
      rcases List.mem_cons.mp member with rfl | later
      · exact .inl ⟨body, mark, rfl, outside, marks, List.mem_cons_self ..⟩
      · rcases ih later with
          ⟨body', mark', shape, outside', marks', listed⟩ | ⟨open_end, last, listed⟩
        · exact .inl ⟨body', mark', shape, outside', marks', List.mem_cons_of_mem _ listed⟩
        · refine .inr ⟨open_end, ?_, List.mem_cons_of_mem _ listed⟩
          rw [List.getLast?_cons, last]
          rfl

end Marks

/-- The pieces of a sequence of tokens that is cut behind each semicolon. -/
def pieces (tokens : List Token) : List (List Token) :=
  cutAfter (fun token => token.is .semicolon) tokens

theorem mem_of_mem_pieces {tokens piece : List Token} {token : Token}
    (member : piece ∈ pieces tokens) (inside : token ∈ piece) : token ∈ tokens := by
  rw [← flatten_cutAfter (fun token => token.is .semicolon) tokens]
  exact List.mem_flatten_of_mem member inside

namespace Window

/-- A window without semicolons but for one at its end. -/
def Single (window : Window) : Prop :=
  ∀ token ∈ window.pending.dropLast, token.kind ≠ .semicolon

theorem Single.of_unmarked {tokens : List Token} {stop : Token}
    (others : ∀ token ∈ tokens, token.is .semicolon = false) : Single ⟨tokens, stop⟩ := by
  intro token inside
  simpa using others token (List.dropLast_subset _ inside)

theorem Single.of_concat {body : List Token} {mark stop : Token}
    (others : ∀ token ∈ body, token.is .semicolon = false) : Single ⟨body ++ [mark], stop⟩ := by
  intro token inside
  rw [List.dropLast_concat] at inside
  simpa using others token inside

theorem Single.of_follows {window later : Window} (single : window.Single)
    (follows : later.Follows window) : later.Single := by
  intro token member
  obtain ⟨front, pending⟩ := follows.suffix
  apply single
  have some_token : later.pending ≠ [] := by
    intro empty
    simp [empty] at member
  rw [← pending, List.dropLast_append_of_ne_nil some_token]
  exact List.mem_append_right _ member

theorem Single.skipToSemicolon {window : Window} (single : window.Single) :
    window.skipToSemicolon.advance.pending = [] := by
  obtain ⟨skipped, semicolon, whole, _, ended, last⟩ := Parse.exists_skipped window
  cases semicolon with
  | none => exact last rfl
  | some mark =>
      by_contra some_token
      apply single mark ?_ (ended mark rfl)
      rw [whole, List.dropLast_append_of_ne_nil (by simp), Option.toList_some,
        List.dropLast_append_of_ne_nil some_token]
      simp

theorem Barred.of_follows {window later : Window} (barred : window.Barred)
    (follows : later.Follows window) (some_token : later.pending ≠ []) : later.Barred := by
  obtain ⟨mark, last, kind⟩ := barred
  obtain ⟨front, pending⟩ := follows.suffix
  refine ⟨mark, ?_, kind⟩
  rwa [← pending, List.getLast?_append_of_ne_nil _ some_token] at last

end Window

namespace Parse

/-- Statements that are read one behind the other, up to some window. -/
inductive Reads (grammar : Grammar) : Window → List Stmt → Window → Prop where
  | here (window : Window) : Reads grammar window [] window
  | read {window rest last : Window} {value : Stmt} {later : List Stmt}
      (some_token : window.pending ≠ []) (done : stmt grammar window = .done value rest)
      (goes : Reads grammar rest.advance later last) : Reads grammar window (value :: later) last

theorem Reads.follows {grammar : Grammar} {window last : Window} {statements : List Stmt}
    (reads : Reads grammar window statements last) : last.Follows window := by
  induction reads with
  | here window => exact .refl window
  | read _ done _ ih => exact ih.trans ((Window.Follows.advance _).trans (stmt_done_follows done))

/-- A window with a semicolon at its end only has one diagnostic at most. -/
theorem runs_single {grammar : Grammar} {window : Window} {result : Run}
    (runs : Runs grammar window result) (single : window.Single) :
    (result.diagnostics = [] ∧
        Reads grammar window result.statements ⟨[], window.stop⟩) ∨
      ∃ failing diagnostic rest, result.diagnostics = [diagnostic] ∧
        Reads grammar window result.statements failing ∧ failing.pending ≠ [] ∧
        stmt grammar failing = .failed diagnostic rest := by
  induction runs with
  | @ended window empty =>
      obtain ⟨pending, stop⟩ := window
      cases empty
      exact .inl ⟨rfl, .here _⟩
  | @read window rest value later some_token done _ ih =>
      have follows := (Window.Follows.advance rest).trans (stmt_done_follows done)
      rcases ih (single.of_follows follows) with
        ⟨clean, reads⟩ | ⟨failing, diagnostic, after, only, reads, fails⟩
      · rw [follows.stop_eq] at reads
        exact .inl ⟨clean, .read some_token done reads⟩
      · exact .inr ⟨failing, diagnostic, after, only, .read some_token done reads, fails⟩
  | @failed window rest diagnostic later some_token fails goes _ =>
      -- What is skipped ends with the last token, so that nothing is left to fail once more.
      have ended := (single.of_follows (stmt_failed_follows fails)).skipToSemicolon
      cases goes.unique (.ended ended)
      exact .inr ⟨window, diagnostic, rest, rfl, .here window, some_token, fails⟩

theorem exists_runs (window : Window) (ends : window.stop.kind = .eof) :
    ∃ result, Runs .standard window result := by
  obtain ⟨result, ran⟩ := Option.isSome_iff_exists.mp (run_standard_isSome window ends)
  exact ⟨result, runs_of_run ran⟩

/-- A run goes through a semicolon as two runs do, one up to it and one behind it. -/
theorem runs_split {front rest : List Token} {mark stop : Token} {result : Run}
    (runs : Runs .standard ⟨front ++ mark :: rest, stop⟩ result) (ends : stop.kind = .eof)
    (marks : mark.kind = .semicolon) :
    ∃ first second, Runs .standard ⟨front ++ [mark], stop⟩ first ∧
      Runs .standard ⟨rest, stop⟩ second ∧
      result = second.behind first.statements first.diagnostics := by
  obtain ⟨first, first_runs⟩ := exists_runs ⟨front ++ [mark], stop⟩ ends
  obtain ⟨second, second_runs⟩ := exists_runs ⟨rest, stop⟩ ends
  have barred : Window.Barred ⟨front ++ [mark], stop⟩ := ⟨mark, by simp, marks⟩
  have joined := runs_followedBy _ Grammar.standard_bars first_runs ends (.inr barred) second_runs
  have whole : Window.followedBy ⟨front ++ [mark], stop⟩ ⟨rest, stop⟩ =
      ⟨front ++ mark :: rest, stop⟩ := by
    simp [Window.followedBy]
  rw [whole] at joined
  exact ⟨first, second, first_runs, second_runs, runs.unique joined⟩

/-- A run is what the runs of the pieces are, one behind the other. -/
theorem runs_pieces {tokens : List Token} {stop : Token} {result : Run}
    (runs : Runs .standard ⟨tokens, stop⟩ result) (ends : stop.kind = .eof) :
    ∃ results, List.Forall₂ (fun piece => Runs .standard ⟨piece, stop⟩) (pieces tokens) results ∧
      result.statements = results.flatMap Run.statements ∧
      result.diagnostics = results.flatMap Run.diagnostics := by
  induction tokens using cutAfter_induction (fun token : Token => token.is .semicolon)
    generalizing result with
  | unmarked tokens others =>
      by_cases empty : tokens = []
      · subst empty
        cases runs.unique (.ended rfl)
        exact ⟨[], by simp [pieces], rfl, rfl⟩
      · rw [pieces, cutAfter_of_unmarked others empty]
        exact ⟨[result], .cons runs .nil, by simp, by simp⟩
  | marked body mark rest others marks ih =>
      obtain ⟨first, second, first_runs, second_runs, rfl⟩ :=
        runs_split runs ends (by simpa using marks)
      obtain ⟨results, each, statements, diagnostics⟩ := ih second_runs
      rw [pieces, cutAfter_first others marks]
      refine ⟨first :: results, .cons first_runs each, ?_, ?_⟩
      · rw [List.flatMap_cons, ← statements]
        rfl
      · rw [List.flatMap_cons, ← diagnostics]
        rfl

/-- A piece has a semicolon at its end only. It ends with one, or it is the last piece and the end
token joins it. -/
theorem pieces_cases {tokens piece : List Token} {stop : Token} (ends : stop.kind = .eof)
    (member : piece ∈ pieces tokens) :
    Window.Single ⟨piece, stop⟩ ∧
      (Window.Barred ⟨piece, stop⟩ ∧ piece ∈ pieces (tokens ++ [stop]) ∨
        (pieces tokens).getLast? = some piece ∧ piece ++ [stop] ∈ pieces (tokens ++ [stop])) := by
  have other : stop.is .semicolon = false := by simp [ends]
  rcases mem_cutAfter_cases member other with
    ⟨body, mark, rfl, others, marks, listed⟩ | ⟨others, last, listed⟩
  · exact ⟨.of_concat others, .inl ⟨⟨mark, by simp, by simpa using marks⟩, listed⟩⟩
  · exact ⟨.of_unmarked others, .inr ⟨last, listed⟩⟩

/-- A statement that fails is stuck at a token from its first one on. That can be the end token only
if the window does not end with a semicolon. -/
theorem Reads.stuck {window failing rest : Window} {statements : List Stmt}
    {diagnostic : Diagnostic} (reads : Reads .standard window statements failing)
    (ends : window.stop.kind = .eof) (inside : failing.pending ≠ [])
    (fails : stmt .standard failing = .failed diagnostic rest) :
    ∃ front read token behind fault, window.pending = front ++ failing.pending ∧
      failing.allTokens = read ++ token :: behind ∧ Stuck read token fault ∧
      diagnostic = ⟨fault, token.start⟩ ∧
      ((∃ after, failing.pending = read ++ token :: after) ∨
        ¬ window.Barred ∧ failing.pending = read ∧ token = window.stop) := by
  have follows := reads.follows
  obtain ⟨front, pending⟩ := follows.suffix
  obtain ⟨read, token, behind, fault, whole, stuck, rfl⟩ :=
    stmt_stuck (by rw [follows.stop_eq, ends]) fails
  refine ⟨front, read, token, behind, fault, pending.symm, whole, stuck, rfl, ?_⟩
  refine (Window.place_cases whole).imp_right fun ⟨all_read, stop_eq⟩ => ⟨?_, all_read, ?_⟩
  · intro barred
    obtain ⟨mark, last, kind⟩ := barred.of_follows follows inside
    rw [all_read] at last
    exact stuck.kind_ne_semicolon mark (List.mem_of_getLast? last) kind
  · rw [stop_eq, follows.stop_eq]

/-- The diagnostic of a piece stands at one of its tokens or at the end token. -/
theorem positions_of_single {window : Window} {result : Run}
    (runs : Runs .standard window result) (ends : window.stop.kind = .eof)
    (single : window.Single) :
    (result.diagnostics.map Diagnostic.position).Sublist (window.allTokens.map Token.start) ∧
      (window.Barred →
        (result.diagnostics.map Diagnostic.position).Sublist (window.pending.map Token.start)) := by
  rcases runs_single runs single with
    ⟨clean, _⟩ | ⟨failing, diagnostic, rest, only, reads, inside, fails⟩
  · simp [clean]
  · obtain ⟨front, read, token, _, fault, pending, _, _, rfl, place⟩ :=
      reads.stuck ends inside fails
    rw [only, Window.allTokens, pending]
    rcases place with ⟨after, behind⟩ | ⟨opened, all_read, stop_eq⟩
    · simp [behind]
    · simp [stop_eq, opened]

/-- The diagnostics of a run stand at tokens of its window, in the order of those. -/
theorem positions_sublist {tokens : List Token} {stop : Token} {result : Run}
    (runs : Runs .standard ⟨tokens, stop⟩ result) (ends : stop.kind = .eof) :
    (result.diagnostics.map Diagnostic.position).Sublist ((tokens ++ [stop]).map Token.start) := by
  induction tokens using cutAfter_induction (fun token : Token => token.is .semicolon)
    generalizing result with
  | unmarked tokens others =>
      exact (positions_of_single runs ends (.of_unmarked others)).1
  | marked body mark rest others marks ih =>
      have kind : mark.kind = .semicolon := by simpa using marks
      obtain ⟨first, second, first_runs, second_runs, rfl⟩ := runs_split runs ends kind
      have front : (first.diagnostics.map Diagnostic.position).Sublist
          ((body ++ [mark]).map Token.start) :=
        (positions_of_single first_runs ends (.of_concat others)).2 ⟨mark, by simp, kind⟩
      simpa [Run.behind] using front.append (ih second_runs)

/-- What a piece is read as within a text. A piece that parses alone has all its statements and no
diagnostic. Any other one has the statements in front of the one that fails, and a diagnostic at one
of its tokens, or at the end token if it is the last piece. -/
inductive PieceRun (stop : Token) (last : Option (List Token)) (piece : List Token)
    (result : Run) : Prop where
  | accepted
      (alone : ∀ source text, Spells source text piece → ∃ program,
        parse source text = .ok program ∧
        List.Forall₂ Relabelling.sameContent.Stmts program.statements result.statements)
      (clean : result.diagnostics = [])
      (reads : Reads .standard ⟨piece, stop⟩ result.statements ⟨[], stop⟩)
  | rejected (diagnostic : Diagnostic) (failing rest : Window)
      (alone : ∀ source text, Spells source text piece → ∃ diagnostics,
        parse source text = .error diagnostics)
      (only : result.diagnostics = [diagnostic])
      (reads : Reads .standard ⟨piece, stop⟩ result.statements failing)
      (inside : failing.pending ≠ [])
      (fails : stmt .standard failing = .failed diagnostic rest)
      (placed : (∃ token ∈ piece, diagnostic.position = token.start) ∨
        last = some piece ∧ diagnostic.position = stop.start)

/-- Whether a piece does not parse alone. -/
def rejects (piece : List Token) : Bool :=
  !(parse shellName (spell piece)).isOk

theorem pieceRun_of_runs {tokens piece : List Token} {stop : Token} {result : Run}
    (ends : stop.content = (.eof, "")) (member : piece ∈ pieces tokens)
    (runs : Runs .standard ⟨piece, stop⟩ result) :
    PieceRun stop (pieces tokens).getLast? piece result := by
  have kind : stop.kind = .eof := congrArg Prod.fst ends
  rcases runs_single runs (pieces_cases kind member).1 with
    ⟨clean, reads⟩ | ⟨failing, diagnostic, rest, only, reads, inside, fails⟩
  · refine .accepted (fun source text spells => ?_) clean reads
    have ⟨statements, diagnostics⟩ := runText_of_spells spells ends runs
    rw [clean] at diagnostics
    exact ⟨⟨(runText source text).statements⟩,
      (parse_eq_ok_iff _ _ _).mpr ⟨List.forall₂_nil_right_iff.mp diagnostics, rfl⟩, statements⟩
  · obtain ⟨front, read, token, _, fault, pending, _, _, rfl, place⟩ :=
      reads.stuck kind inside fails
    have piece_eq : piece = front ++ failing.pending := pending
    refine .rejected _ failing rest (fun source text spells => ?_) only reads inside fails ?_
    · have diagnostics := (runText_of_spells spells ends runs).2
      refine ⟨_, (parse_eq_error_iff _ _ _).mpr ⟨fun clean => ?_, rfl⟩⟩
      rw [clean, only] at diagnostics
      cases diagnostics
    · rcases place with ⟨after, behind⟩ | ⟨opened, _, stop_eq⟩
      · exact .inl ⟨token, by simp [piece_eq, behind], rfl⟩
      · have last := (pieces_cases kind member).2.resolve_left fun ⟨barred, _⟩ => opened barred
        exact .inr ⟨last.1, congrArg Token.start stop_eq⟩

theorem PieceRun.length_diagnostics {stop : Token} {last : Option (List Token)}
    {piece : List Token} {result : Run} (piece_run : PieceRun stop last piece result)
    (spells : Spells shellName (spell piece) piece) :
    result.diagnostics.length = if rejects piece then 1 else 0 := by
  cases piece_run with
  | accepted alone clean _ =>
      obtain ⟨program, parsed, _⟩ := alone _ _ spells
      simp [rejects, parsed, clean, Except.isOk, Except.toBool]
  | rejected diagnostic failing rest alone only _ _ _ _ =>
      obtain ⟨diagnostics, parsed⟩ := alone _ _ spells
      simp [rejects, parsed, only, Except.isOk, Except.toBool]

/-- There are as many diagnostics as pieces that do not parse alone. -/
theorem length_flatMap_diagnostics {stop : Token} {last : Option (List Token)}
    {pieces : List (List Token)} {results : List Run}
    (each : List.Forall₂ (PieceRun stop last) pieces results)
    (spells : ∀ piece ∈ pieces, Spells shellName (spell piece) piece) :
    (results.flatMap Run.diagnostics).length = pieces.countP rejects := by
  induction each with
  | nil => rfl
  | cons first _ ih =>
      obtain ⟨first_spells, others⟩ := List.forall_mem_cons.mp spells
      rw [List.flatMap_cons, List.length_append, first.length_diagnostics first_spells, ih others,
        List.countP_cons, Nat.add_comm]

end Parse

/-- A text is read piece by piece: the pieces that do not parse alone have one diagnostic each, in
their order, and nothing in front of a failure is lost. -/
theorem Parser.program_pieces (source text : String) (short : text.utf8ByteSize < 2 ^ 32) :
    ∃ program parser tokens stop results,
      (ofCursor (.ofText source text)).program = some (program, parser) ∧
      tokenize source text = tokens ++ [stop] ∧ stop.kind = .eof ∧
      program.statements = results.flatMap Parse.Run.statements ∧
      parser.diagnostics = results.flatMap Parse.Run.diagnostics ∧
      List.Forall₂ (Parse.PieceRun stop (pieces tokens).getLast?) (pieces tokens) results ∧
      (∀ piece ∈ pieces tokens, Spells shellName (spell piece) piece) ∧
      parser.diagnostics.length = (pieces tokens).countP Parse.rejects ∧
      parser.diagnostics.Pairwise fun first second =>
        first.position.offset.toNat < second.position.offset.toNat := by
  let cursor := Cursor.ofText source text
  have runs : Parse.Runs .standard ⟨cursor.tokens, cursor.finish.endToken⟩
      (Parse.runText source text) := Parse.runs_start source text
  obtain ⟨results, each, statements, diagnostics⟩ := Parse.runs_pieces runs rfl
  have piece_runs : List.Forall₂
      (Parse.PieceRun cursor.finish.endToken (pieces cursor.tokens).getLast?)
      (pieces cursor.tokens) results := by
    have listed := (List.forall₂_and_left _ _).mpr ⟨fun _ member => member, each⟩
    exact listed.imp fun piece result ⟨member, piece_runs⟩ =>
      Parse.pieceRun_of_runs rfl member piece_runs
  have spells : ∀ piece ∈ pieces cursor.tokens, Spells shellName (spell piece) piece := by
    intro piece member
    exact spells_spell shellName fun token inside =>
      spelled_tokens source text token (mem_of_mem_pieces member inside)
  have ordered : (Parse.runText source text).diagnostics.Pairwise fun first second =>
      first.position.offset.toNat < second.position.offset.toNat := by
    have starts : (cursor.allTokens.map Token.start).Pairwise fun first second =>
        first.offset.toNat < second.offset.toNat :=
      List.pairwise_map.mpr (Cursor.allTokens_starts source text short)
    have positions := starts.sublist (Parse.positions_sublist runs rfl)
    rwa [List.pairwise_map] at positions
  refine ⟨_, _, cursor.tokens, cursor.finish.endToken, results, program_ofText source text, rfl,
    rfl, statements, diagnostics, piece_runs, spells, ?_, ordered⟩
  rw [← Parse.length_flatMap_diagnostics piece_runs spells, ← diagnostics]

theorem Parser.program_pieces_two_faults :
    "let 5; x y; )".utf8ByteSize < 2 ^ 32 ∧
      ∃ program parser tokens stop,
        (ofCursor (.ofText shellName "let 5; x y; )")).program = some (program, parser) ∧
        tokenize shellName "let 5; x y; )" = tokens ++ [stop] ∧
        parser.diagnostics.length = 2 ∧ (pieces tokens).countP Parse.rejects = 2 := by
  have short : "let 5; x y; )".utf8ByteSize < 2 ^ 32 := by decide
  have two : (ofCursor (.ofText shellName "let 5; x y; )")).program.map
      (fun ran => ran.2.diagnostics.length) = some 2 := by decide +kernel
  obtain ⟨program, parser, tokens, stop, _, ran, drawn, _, _, _, _, _, count, _⟩ :=
    program_pieces shellName "let 5; x y; )" short
  rw [ran, Option.map_some, Option.some.injEq] at two
  exact ⟨short, program, parser, tokens, stop, ran, drawn, two, count ▸ two⟩

end LetLang
