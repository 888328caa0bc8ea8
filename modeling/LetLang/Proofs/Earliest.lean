import LetLang.Proofs.Pieces

/-!
Diagnostics are genuine and early. The statements in front of one that fails are read in the same
way whatever comes behind its first token, and the tokens up to the one that the diagnostic names
can be completed to a text that parses. With that token they cannot, so it is the first one that is
wrong, and the diagnostic says what is wrong with it.
-/

set_option autoImplicit false

namespace LetLang

/-- In front of some tokens, only the first of them decides where a block ends. -/
theorem Block.EndsBefore.of_head? {block : Block} {later later' : List Token}
    (before : block.EndsBefore later) (some_token : later ≠ [])
    (same : later'.head? = later.head?) : block.EndsBefore later' where
  last opened := .inl ((before.last opened).resolve_right some_token)
  greedy := by
    rw [same]
    exact before.greedy
  apart := by
    rw [same]
    exact before.apart

namespace Parse

/-- A token starts a statement behind some tokens: those are read as whole statements, whatever
follows it. -/
def StartsStmt (front : List Token) (first : Token) : Prop :=
  ∀ later stop, stop.kind = .eof → ∃ statements,
    Reads .standard ⟨front ++ first :: later, stop⟩ statements ⟨first :: later, stop⟩

/-- Tokens that are whole statements in front of a given token, and that can stand in front of any
tokens that are cut into blocks. -/
structure Leads (front : List Token) (first : Token) : Prop where
  reads : StartsStmt front first
  cuts : ∀ blocks tokens, Cut blocks tokens → ∃ more, Cut more (front ++ tokens)

theorem Leads.nil (first : Token) : Leads [] first where
  reads _ _ _ := ⟨[], .here _⟩
  cuts blocks _ cut := ⟨blocks, cut⟩

/-- A block may stand in front if it ends before what follows. -/
theorem Leads.cons {block : Block} {front later : List Token} {first : Token}
    (leads : Leads front first) (formed : block.WellFormed)
    (before : block.EndsBefore (front ++ first :: later)) :
    Leads (block.tokens ++ front) first where
  reads later' stop ends := by
    -- A block looks no further than the first token behind it, which stays the same.
    have same : (front ++ first :: later').head? = (front ++ first :: later).head? := by
      rw [List.head?_append, List.head?_append]
      rfl
    obtain ⟨value, rest, done, advanced, _⟩ :=
      stmt_of_block formed (before.of_head? (by simp) same) stop ends
    obtain ⟨statements, reads⟩ := leads.reads later' stop ends
    rw [← advanced] at reads
    rw [List.append_assoc]
    refine ⟨value :: statements, .read ?_ done reads⟩
    exact List.append_ne_nil_of_left_ne_nil formed.tokens_ne_nil _
  cuts blocks tokens cut := by
    obtain ⟨more, more_cut⟩ := leads.cuts blocks tokens cut
    rw [List.append_assoc]
    have last : block.semicolon = none → block.form = .expression := fun opened =>
      (before.last opened).resolve_right (by simp)
    exact ⟨block :: more, .cons formed (fun opened => .inl (last opened)) more_cut⟩

/-- The tokens that are read up to a window lead to its current token. -/
theorem Reads.exists_leads {window failing : Window} {statements : List Stmt}
    (reads : Reads .standard window statements failing) (ends : window.stop.kind = .eof)
    (inside : failing.pending ≠ []) :
    ∃ front, window.pending = front ++ failing.pending ∧ Leads front failing.current := by
  induction reads with
  | here window => exact ⟨[], rfl, .nil _⟩
  | @read window rest last value later some_token done _ ih =>
      have stop_eq : rest.advance.stop = window.stop := (stmt_done_follows done).stop_eq
      obtain ⟨front, pending, leads⟩ := ih (by rw [stop_eq, ends]) inside
      obtain ⟨block, formed, _, whole, before⟩ := block_of_stmt ends some_token done
      rw [pending] at whole before
      rw [last.pending_eq_cons inside] at before
      exact ⟨block.tokens ++ front, by rw [whole, List.append_assoc], leads.cons formed before⟩

theorem Reads.diagnostics_ne_nil {grammar : Grammar} {window failing rest : Window}
    {statements : List Stmt} {diagnostic : Diagnostic} {result : Run}
    (reads : Reads grammar window statements failing) (inside : failing.pending ≠ [])
    (fails : stmt grammar failing = .failed diagnostic rest) (runs : Runs grammar window result) :
    result.diagnostics ≠ [] := by
  induction reads generalizing result with
  | here window =>
      cases runs with
      | ended empty => exact (inside empty).elim
      | read _ done _ => simp [fails] at done
      | failed _ _ _ => simp [Run.behind]
  | read some_token done _ ih =>
      cases runs with
      | ended empty => exact (some_token empty).elim
      | read _ done' goes =>
          rw [done] at done'
          cases done'
          simpa [Run.behind] using ih inside fails goes
      | failed _ fails' _ => simp [done] at fails'

/-- What leads to a token where a statement is stuck belongs to no text that parses. -/
theorem Leads.not_accepted {front read behind : List Token} {failing : Window} {token : Token}
    {fault : Fault} (leads : Leads front failing.current)
    (ends : failing.stop.content = (.eof, "")) (inside : failing.pending ≠ [])
    (whole : failing.allTokens = read ++ token :: behind) (stuck : Stuck read token fault) :
    ¬ Accepted ((front ++ failing.pending).map Token.content) := by
  intro accepted
  have kind : failing.stop.kind = .eof := congrArg Prod.fst ends
  obtain ⟨statements, reads⟩ := leads.reads failing.advance.pending failing.stop kind
  rw [← failing.pending_eq_cons inside] at reads
  obtain ⟨rest, fails⟩ := stmt_of_stuck kind whole stuck
  obtain ⟨result, runs⟩ := exists_runs ⟨front ++ failing.pending, failing.stop⟩ kind
  exact reads.diagnostics_ne_nil inside fails runs (accepted.clean ends runs)

/-- Nothing that follows makes up for the token where a statement is stuck. -/
theorem Leads.not_accepted_append {front read : List Token} {first token : Token} {fault : Fault}
    (leads : Leads front first) (head : (read ++ [token]).head? = some first)
    (stuck : Stuck read token fault) (later : List (Kind × String)) :
    ¬ Accepted ((front ++ read ++ [token]).map Token.content ++ later) := by
  let behind := later.map fun content => Token.ofLiteral content.1 content.2
  let failing : Window := ⟨read ++ token :: behind, .ofLiteral .eof ""⟩
  have contents : behind.map Token.content = later := by
    simp [behind, Function.comp_def, Token.ofLiteral, Token.content]
  have whole : failing.allTokens = read ++ token :: (behind ++ [failing.stop]) := by
    simp [failing, Window.allTokens]
  have current : first = failing.current :=
    Option.some.inj (head.symm.trans (Window.head?_eq_current whole))
  have leads' : Leads front failing.current := by rwa [← current]
  have rejected := leads'.not_accepted rfl (by simp [failing]) whole stuck
  simpa [failing, contents] using rejected

/-- The tokens in front of the one where a statement is stuck are the first ones of a text that
parses. -/
theorem Leads.exists_accepted {front read : List Token} {first token : Token} {fault : Fault}
    (leads : Leads front first) (stuck : Stuck read token fault)
    (spelled : ∀ token ∈ front ++ read, Segmentation.Spelled token.content) :
    ∃ later, Accepted ((front ++ read).map Token.content ++ later) := by
  obtain ⟨form, more, isBody, added⟩ := stuck.completes
  have formed : Block.WellFormed ⟨form, read ++ more, none⟩ := ⟨isBody, by simp⟩
  have one : Cut [⟨form, read ++ more, none⟩] (read ++ more) := by
    simpa [Block.tokens] using Cut.cons formed (fun _ => .inr rfl) .nil
  obtain ⟨blocks, cut⟩ := leads.cuts _ _ one
  have all_spelled : ∀ token ∈ front ++ (read ++ more), Segmentation.Spelled token.content := by
    intro token member
    rw [← List.append_assoc] at member
    rcases List.mem_append.mp member with old | new
    · exact spelled token old
    · rcases added token new with rfl | rfl
      · exact Segmentation.spelled_name
      · exact Segmentation.spelled_assign
  refine ⟨more.map Token.content, ?_⟩
  rw [← List.map_append, List.append_assoc]
  exact .of_cut cut all_spelled

/-- A token is the first wrong one of its piece: what stands before it can still become a text that
parses, and with the token it cannot. The end token is wrong if what stands before it is no such
text as it is. -/
structure FirstWrong (before : List Token) (token : Token) (after : List Token) : Prop where
  possible : ∃ later, Accepted (before.map Token.content ++ later)
  impossible : token.kind ≠ .eof →
    ∀ later, ¬ Accepted ((before ++ [token]).map Token.content ++ later)
  incomplete : token.kind = .eof → after = [] ∧ ¬ Accepted (before.map Token.content)

theorem Leads.firstWrong {front read after behind : List Token} {failing : Window} {token : Token}
    {fault : Fault} (leads : Leads front failing.current)
    (ends : failing.stop.content = (.eof, "")) (inside : failing.pending ≠ [])
    (whole : failing.allTokens = read ++ token :: behind) (stuck : Stuck read token fault)
    (spelled : ∀ token ∈ front ++ failing.pending, Segmentation.Spelled token.content)
    (place : token ∈ front ++ failing.pending ∨ failing.pending = read ∧ after = []) :
    FirstWrong (front ++ read) token after where
  possible := by
    obtain ⟨rest, _, pending, _⟩ := Window.exists_rest whole
    rw [pending, ← List.append_assoc] at spelled
    exact leads.exists_accepted stuck fun token member =>
      spelled token (List.mem_append_left _ member)
  impossible _ := leads.not_accepted_append (Window.head?_eq_current whole) stuck
  incomplete kind := by
    rcases place with member | ⟨all_read, nothing⟩
    · obtain ⟨_, lexes⟩ := spelled token member
      exact (lexes.kind_ne_eof kind).elim
    · rw [← all_read]
      exact ⟨nothing, leads.not_accepted ends inside whole stuck⟩

/-- What a fault says about a token, behind some tokens of its piece: it is not the name or the
assignment of a binding, it starts no expression, or it is an integer that is too large. -/
inductive Explains : List Token → Token → Fault → Prop where
  | unnamed {front : List Token} {keyword token : Token} (kind : keyword.kind = .letWord)
      (starts : StartsStmt front keyword) :
      Explains (front ++ [keyword]) token (.unexpected .ident token.kind)
  | unassigned {front : List Token} {keyword name token : Token} (kind : keyword.kind = .letWord)
      (starts : StartsStmt front keyword) (named : name.kind = .ident) :
      Explains (front ++ [keyword, name]) token (.unexpected .assign token.kind)
  | noOperand {before : List Token} {token : Token}
      (other : token.kind ∉ [.ident, .int, .bang, .minus]) :
      Explains before token (.noOperand token.kind token.literal)
  | badInteger {before : List Token} {token : Token} (kind : token.kind = .int)
      (large : 2 ^ 64 ≤ Decimal.value token.literal.toList) :
      Explains before token (.badInteger token.literal)

/-- A token where an operand is waited for in vain starts none, or it is too large a number. -/
theorem explains_operandFault {token : Token} (stuck : Awaits.operand.step token = none)
    (numeral : token.kind = .int → Decimal.isNumeral token.literal.toList = true)
    (before : List Token) : Explains before token token.operandFault := by
  cases starts : Grammar.standard.operand? token.kind with
  | none =>
      rw [(operandFault_of_none starts).2]
      refine .noOperand ?_
      revert starts
      cases token.kind <;> decide
  | some operand =>
      cases operand with
      | name =>
          have kind := (Grammar.standard_operand?_name_iff _).mp starts
          simp [Awaits.step_operand_name kind] at stuck
      | integer =>
          have kind := (Grammar.standard_operand?_integer_iff _).mp starts
          have unread : ¬ (Decimal.read? token.literal).isSome = true := by
            simpa [Awaits.step_operand_integer kind] using stuck
          rw [(operandFault_of_integer kind (by simpa using unread)).2]
          refine .badInteger kind ?_
          rw [Decimal.read?_isSome_iff, not_and, Nat.not_lt] at unread
          exact unread (numeral kind)
      | operator =>
          have kind := (Grammar.standard_operand?_operator_iff _).mp starts
          simp [Awaits.step_operand_unary kind] at stuck

theorem Stuck.explains {front read : List Token} {first token : Token} {fault : Fault}
    (stuck : Stuck read token fault) (starts : StartsStmt front first)
    (head : (read ++ [token]).head? = some first)
    (numeral : token.kind = .int → Decimal.isNumeral token.literal.toList = true) :
    Explains (front ++ read) token fault := by
  cases stuck with
  | unnamed kind _ =>
      cases head
      exact .unnamed kind starts
  | unassigned kind named _ =>
      cases head
      exact .unassigned kind starts named
  | operand _ _ stuck => exact explains_operandFault stuck numeral _

theorem exists_failing {tokens : List Token} {stop : Token} {result : Run}
    {diagnostic : Diagnostic} (runs : Runs .standard ⟨tokens, stop⟩ result)
    (ends : stop.kind = .eof) (reported : diagnostic ∈ result.diagnostics) :
    ∃ piece ∈ pieces tokens, ∃ statements failing rest,
      Reads .standard ⟨piece, stop⟩ statements failing ∧ failing.pending ≠ [] ∧
      stmt .standard failing = .failed diagnostic rest := by
  obtain ⟨results, each, _, diagnostics⟩ := runs_pieces runs ends
  rw [diagnostics] at reported
  obtain ⟨part, member, inside⟩ := List.mem_flatMap.mp reported
  obtain ⟨index, rfl⟩ := List.mem_iff_get.mp member
  have place : index.val < (pieces tokens).length := by
    rw [each.length_eq]
    exact index.isLt
  have piece_runs := each.get place index.isLt
  have listed := List.get_mem (pieces tokens) ⟨index.val, place⟩
  rcases runs_single piece_runs (pieces_cases ends listed).1 with
    ⟨clean, _⟩ | ⟨failing, fault, rest, only, reads, some_token, fails⟩
  · rw [clean] at inside
    cases inside
  · rw [only, List.mem_singleton] at inside
    cases inside
    exact ⟨_, listed, _, failing, rest, reads, some_token, fails⟩

theorem exists_listed {tokens piece front read pending : List Token} {token stop : Token}
    (ends : stop.kind = .eof) (member : piece ∈ pieces tokens) (piece_eq : piece = front ++ pending)
    (place : (∃ after, pending = read ++ token :: after) ∨
      ¬ Window.Barred ⟨piece, stop⟩ ∧ pending = read ∧ token = stop) :
    ∃ listed ∈ pieces (tokens ++ [stop]), ∃ after, listed = front ++ read ++ token :: after ∧
      (token ∈ piece ∨ pending = read ∧ token = stop ∧ after = []) := by
  have ways := (pieces_cases ends member).2
  rcases place with ⟨after, rfl⟩ | ⟨opened, rfl, rfl⟩
  · have here : token ∈ piece := by simp [piece_eq]
    rcases ways with ⟨_, listed⟩ | ⟨_, listed⟩
    · exact ⟨piece, listed, after, by simp [piece_eq], .inl here⟩
    · exact ⟨piece ++ [stop], listed, after ++ [stop], by simp [piece_eq], .inl here⟩
  · obtain ⟨_, listed⟩ := ways.resolve_left fun ⟨barred, _⟩ => opened barred
    exact ⟨piece ++ [token], listed, [], by simp [piece_eq], .inr ⟨rfl, rfl, rfl⟩⟩

/-- Each diagnostic of a run names the first wrong token of a piece and tells what is wrong. -/
theorem exists_firstWrong {tokens : List Token} {stop : Token} {result : Run}
    {diagnostic : Diagnostic} (runs : Runs .standard ⟨tokens, stop⟩ result)
    (ends : stop.content = (.eof, ""))
    (spelled : ∀ token ∈ tokens, Segmentation.Spelled token.content)
    (reported : diagnostic ∈ result.diagnostics) :
    ∃ piece ∈ pieces (tokens ++ [stop]), ∃ before token after,
      piece = before ++ token :: after ∧ diagnostic.position = token.start ∧
      FirstWrong before token after ∧ Explains before token diagnostic.fault := by
  have kind : stop.kind = .eof := congrArg Prod.fst ends
  obtain ⟨piece, member, statements, failing, rest, reads, inside, fails⟩ :=
    exists_failing runs kind reported
  obtain ⟨front', pending, leads⟩ := reads.exists_leads kind inside
  obtain ⟨front, read, token, behind, fault, piece_eq, whole, stuck, rfl, place⟩ :=
    reads.stuck kind inside fails
  -- Both cut the piece in front of the statement that fails, so they cut off the same tokens.
  obtain rfl : front' = front := List.append_cancel_right (pending.symm.trans piece_eq)
  obtain ⟨listed, is_listed, after, listed_eq, place⟩ := exists_listed kind member piece_eq place
  have stop_eq : failing.stop = stop := reads.follows.stop_eq
  have piece_spelled : ∀ token ∈ piece, Segmentation.Spelled token.content := fun token here =>
    spelled token (mem_of_mem_pieces member here)
  have first_wrong : FirstWrong (front' ++ read) token after := by
    refine leads.firstWrong (by rw [stop_eq, ends]) inside whole stuck ?_ ?_
    · rwa [← piece_eq]
    · rw [← piece_eq]
      exact place.imp_right fun ⟨all_read, _, nothing⟩ => ⟨all_read, nothing⟩
  have numeral : token.kind = .int → Decimal.isNumeral token.literal.toList = true := by
    intro integer
    rcases place with here | ⟨_, rfl, _⟩
    · obtain ⟨_, lexes⟩ := piece_spelled token here
      exact lexes.isNumeral integer
    · rw [kind] at integer
      cases integer
  exact ⟨listed, is_listed, front' ++ read, token, after, listed_eq, rfl, first_wrong,
    stuck.explains leads.reads (Window.head?_eq_current whole) numeral⟩

end Parse

/-- In a list whose items have increasing values, an item is the only one of its value. -/
theorem filter_eq_singleton {α : Type} {value : α → Nat} {items : List α} {item : α}
    (increasing : items.Pairwise fun first second => value first < value second)
    (member : item ∈ items) :
    items.filter (fun other => value other = value item) = [item] := by
  obtain ⟨front, back, rfl⟩ := List.append_of_mem member
  obtain ⟨_, rest, before⟩ := List.pairwise_append.mp increasing
  obtain ⟨behind, _⟩ := List.pairwise_cons.mp rest
  have apart : ∀ other, other ∈ front ∨ other ∈ back → value other ≠ value item := by
    rintro other (inside | inside)
    · exact (before other inside item (List.mem_cons_self ..)).ne
    · exact (behind other inside).ne'
  have none_before : front.filter (fun other => value other = value item) = [] :=
    List.filter_eq_nil_iff.mpr fun other inside => by simpa using apart other (.inl inside)
  have none_behind : back.filter (fun other => value other = value item) = [] :=
    List.filter_eq_nil_iff.mpr fun other inside => by simpa using apart other (.inr inside)
  simp [List.filter_append, none_before, none_behind]

/-- Each diagnostic names the first wrong token of a piece. No other token of the text starts there,
and the fault tells what is wrong with it. -/
theorem parse_error_earliest (source text : String) (short : text.utf8ByteSize < 2 ^ 32)
    (diagnostics : List Diagnostic) (failed : parse source text = .error diagnostics)
    (diagnostic : Diagnostic) (reported : diagnostic ∈ diagnostics) :
    ∃ piece ∈ pieces (tokenize source text), ∃ before token after,
      piece = before ++ token :: after ∧ diagnostic.position = token.start ∧
      (tokenize source text).filter
        (fun other => other.start.offset = diagnostic.position.offset) = [token] ∧
      Parse.FirstWrong before token after ∧ Parse.Explains before token diagnostic.fault := by
  let cursor := Cursor.ofText source text
  have runs : Parse.Runs .standard ⟨cursor.tokens, cursor.finish.endToken⟩
      (Parse.runText source text) := Parse.runs_start source text
  rw [← ((parse_eq_error_iff _ _ _).mp failed).2] at reported
  obtain ⟨piece, member, before, token, after, piece_eq, position, first_wrong, explains⟩ :=
    Parse.exists_firstWrong runs rfl (spelled_tokens source text) reported
  have here : token ∈ tokenize source text :=
    mem_of_mem_pieces member (by simp [piece_eq])
  refine ⟨piece, member, before, token, after, piece_eq, position, ?_, first_wrong, explains⟩
  have only := filter_eq_singleton (Cursor.allTokens_starts source text short) here
  rw [position]
  simpa only [UInt32.toNat_inj, tokenize] using only

theorem parse_error_earliest_unnamed :
    parse shellName "a; b let 5 c" =
        .error [⟨.unexpected .ident .int, ⟨9, shellName⟩⟩] ∧
      ∃ piece ∈ pieces (tokenize shellName "a; b let 5 c"), ∃ before token after,
        piece = before ++ token :: after ∧ token.start = ⟨9, shellName⟩ ∧
        Parse.FirstWrong before token after ∧
        Parse.Explains before token (.unexpected .ident .int) := by
  have failed : parse shellName "a; b let 5 c" =
      .error [⟨.unexpected .ident .int, ⟨9, shellName⟩⟩] := by decide +kernel
  obtain ⟨piece, member, before, token, after, piece_eq, position, _, first_wrong, explains⟩ :=
    parse_error_earliest shellName "a; b let 5 c" (by decide) _ failed _
      (List.mem_singleton.mpr rfl)
  exact ⟨failed, piece, member, before, token, after, piece_eq, position.symm, first_wrong,
    explains⟩

end LetLang
