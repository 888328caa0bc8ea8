import LetLang.Proofs.Blocks
import LetLang.Proofs.Scan

set_option autoImplicit false

namespace LetLang

namespace Window

/-- The tokens from the current one on, the end token included. -/
def allTokens (window : Window) : List Token :=
  window.pending ++ [window.stop]

theorem exists_behind (window : Window) :
    ∃ behind, window.allTokens = window.current :: behind := by
  cases pending : window.pending with
  | nil => exact ⟨[], by simp [allTokens, current, pending]⟩
  | cons first rest => exact ⟨rest ++ [window.stop], by simp [allTokens, current, pending]⟩

theorem allTokens_eq_cons {window : Window} (some_token : window.pending ≠ []) :
    window.allTokens = window.current :: window.advance.allTokens := by
  rw [allTokens, window.pending_eq_cons some_token]
  rfl

theorem head?_eq_current {window : Window} {tokens behind : List Token} {token : Token}
    (whole : window.allTokens = tokens ++ token :: behind) :
    (tokens ++ [token]).head? = some window.current := by
  obtain ⟨later, begins⟩ := window.exists_behind
  have same : (tokens ++ [token]).head? = (tokens ++ token :: behind).head? := by
    rw [List.head?_append, List.head?_append]
    rfl
  rw [same, ← whole, begins]
  rfl

theorem place_cases {window : Window} {tokens behind : List Token} {token : Token}
    (whole : window.allTokens = tokens ++ token :: behind) :
    (∃ after, window.pending = tokens ++ token :: after) ∨
      window.pending = tokens ∧ token = window.stop := by
  rcases List.eq_nil_or_concat behind with rfl | ⟨front, last, rfl⟩
  · obtain ⟨pending, stop_eq⟩ := List.append_inj' whole rfl
    exact .inr ⟨pending, by simpa using stop_eq.symm⟩
  · rw [List.concat_eq_append, ← List.cons_append, ← List.append_assoc] at whole
    obtain ⟨pending, _⟩ := List.append_inj' whole rfl
    exact .inl ⟨front, pending⟩

theorem exists_rest {window : Window} {tokens behind : List Token} {token : Token}
    (whole : window.allTokens = tokens ++ token :: behind) :
    ∃ rest : Window, rest.stop = window.stop ∧ window.pending = tokens ++ rest.pending ∧
      rest.current = token := by
  rcases place_cases whole with ⟨after, pending⟩ | ⟨pending, stop_eq⟩
  · exact ⟨⟨token :: after, window.stop⟩, rfl, pending, rfl⟩
  · exact ⟨⟨[], window.stop⟩, rfl, by simpa using pending, stop_eq.symm⟩

theorem pending_ne_nil_of_kind {window : Window} (ends : window.stop.kind = .eof) {kind : Kind}
    (current : window.current.kind = kind) (inside : kind ≠ .eof) : window.pending ≠ [] := by
  intro empty
  apply inside
  rw [← current, Window.current, empty]
  exact ends

end Window

namespace Parse

/-- The tokens of a statement that are read before a token that cannot come next, and the fault
that is found with it: a binding without a name or without an assignment, or an expression that
waits for an operand. -/
inductive Stuck : List Token → Token → Fault → Prop where
  | unnamed {keyword token : Token} (kind : keyword.kind = .letWord)
      (other : token.kind ≠ .ident) : Stuck [keyword] token (.unexpected .ident token.kind)
  | unassigned {keyword name token : Token} (kind : keyword.kind = .letWord)
      (named : name.kind = .ident) (other : token.kind ≠ .assign) :
      Stuck [keyword, name] token (.unexpected .assign token.kind)
  | operand {tokens : List Token} {token : Token}
      (plain : ∀ first ∈ (tokens ++ [token]).head?, Grammar.standard.form? first.kind = none)
      (scans : Awaits.operand.scan tokens = some .operand)
      (stuck : Awaits.operand.step token = none) : Stuck tokens token token.operandFault

theorem Stuck.kind_ne_semicolon {tokens : List Token} {token : Token} {fault : Fault}
    (stuck : Stuck tokens token fault) : ∀ earlier ∈ tokens, earlier.kind ≠ .semicolon := by
  cases stuck with
  | unnamed kind _ => simp [kind]
  | unassigned kind named _ => simp [kind, named]
  | operand _ scans _ => exact Awaits.scan_ne_semicolon scans

theorem binding_stuck {window rest : Window} {diagnostic : Diagnostic}
    (ends : window.stop.kind = .eof) (keyword : window.current.kind = .letWord)
    (fails : binding window = .failed diagnostic rest) :
    ∃ tokens token behind fault, window.allTokens = tokens ++ token :: behind ∧
      Stuck tokens token fault ∧ diagnostic = ⟨fault, token.start⟩ := by
  have first := window.allTokens_eq_cons (window.pending_ne_nil_of_kind ends keyword (by decide))
  unfold binding at fails
  split at fails
  · rename_i unnamed
    obtain ⟨other, rfl⟩ := (window.expect_eq_error_iff _ _).mp unnamed
    obtain ⟨behind, second⟩ := window.advance.exists_behind
    cases fails
    refine ⟨[window.current], window.next, behind, _, ?_, .unnamed keyword other, rfl⟩
    rw [first, second]
    rfl
  · rename_i named found
    obtain ⟨name, rfl⟩ := (window.expect_eq_ok_iff _ _).mp found
    split at fails
    · rename_i unassigned
      obtain ⟨other, rfl⟩ := (window.advance.expect_eq_error_iff _ _).mp unassigned
      have second := window.advance.allTokens_eq_cons
        (window.advance.pending_ne_nil_of_kind ends name (by decide))
      obtain ⟨behind, third⟩ := window.advance.advance.exists_behind
      cases fails
      refine ⟨[window.current, window.next], window.advance.next, behind, _, ?_,
        .unassigned keyword name other, rfl⟩
      rw [first, second, third]
      rfl
    · cases fails

theorem exprStmt_stuck {window rest : Window} {diagnostic : Diagnostic}
    (ends : window.stop.kind = .eof)
    (plain : Grammar.standard.form? window.current.kind = none)
    (fails : exprStmt .standard window = .failed diagnostic rest) :
    ∃ tokens token behind fault, window.allTokens = tokens ++ token :: behind ∧
      Stuck tokens token fault ∧ diagnostic = ⟨fault, token.start⟩ := by
  rcases (Outcome.bind_eq_failed_iff _ _ _ _).mp fails with breaks | ⟨_, _, _, goes⟩
  · obtain ⟨stop_eq, ⟨tokens, pending, scans⟩, stuck, rfl⟩ := expr_breaks ends breaks
    obtain ⟨behind, here⟩ := rest.exists_behind
    have whole : window.allTokens = tokens ++ rest.current :: behind := by
      rw [Window.allTokens, pending, ← stop_eq, List.append_assoc, ← here]
      rfl
    refine ⟨tokens, rest.current, behind, _, whole, .operand ?_ scans stuck, rfl⟩
    intro first head
    rw [Window.head?_eq_current whole] at head
    cases head
    exact plain
  · cases goes

/-- A statement that fails is stuck at a token, which its diagnostic names. -/
theorem stmt_stuck {window rest : Window} {diagnostic : Diagnostic}
    (ends : window.stop.kind = .eof) (fails : stmt .standard window = .failed diagnostic rest) :
    ∃ tokens token behind fault, window.allTokens = tokens ++ token :: behind ∧
      Stuck tokens token fault ∧ diagnostic = ⟨fault, token.start⟩ := by
  unfold stmt at fails
  cases form : Grammar.standard.form? window.current.kind with
  | none =>
      rw [form] at fails
      exact exprStmt_stuck ends form fails
  | some form' =>
      rw [form] at fails
      cases form' with
      | binding =>
          exact binding_stuck ends ((Grammar.standard_form?_binding_iff _).mp form) fails
      | returning => cases fails
      | expression => exact (Grammar.standard_form?_ne_expression _ form).elim

/-- Whatever follows, a statement fails at the token where it is stuck. -/
theorem stmt_of_stuck {window : Window} {tokens behind : List Token} {token : Token}
    {fault : Fault} (ends : window.stop.kind = .eof)
    (whole : window.allTokens = tokens ++ token :: behind) (stuck : Stuck tokens token fault) :
    ∃ rest, stmt .standard window = .failed ⟨fault, token.start⟩ rest := by
  obtain ⟨rest, stop_eq, pending, current⟩ := window.exists_rest whole
  cases stuck with
  | @unnamed keyword _ kind other =>
      have first : window.current = keyword := by simp [Window.current, pending]
      have next : window.next = token := by
        rw [← current, Window.next, Window.current, pending, stop_eq]
        rfl
      refine ⟨window, ?_⟩
      rw [stmt, first, kind]
      simp [Grammar.standard, formStmt, binding, Window.expect, next, other]
  | @unassigned keyword name _ kind named other =>
      have first : window.current = keyword := by simp [Window.current, pending]
      have second : window.next = name := by simp [Window.next, pending]
      have next : window.advance.next = token := by
        rw [← current, Window.next, Window.current, Window.advance, pending, stop_eq]
        rfl
      refine ⟨window.advance, ?_⟩
      rw [stmt, first, kind]
      simp [Grammar.standard, formStmt, binding, Window.expect, second, named, next, other]
  | operand plain scans stuck =>
      have breaks : Breaks .operand window ⟨token.operandFault, token.start⟩ rest :=
        ⟨stop_eq, ⟨tokens, pending, scans⟩, by rw [current]; exact stuck, by rw [current]⟩
      have form : Grammar.standard.form? window.current.kind = none :=
        plain _ (Window.head?_eq_current whole)
      refine ⟨rest, ?_⟩
      rw [stmt, form]
      exact (Outcome.bind_eq_failed_iff _ _ _ _).mpr
        (.inl ((expr_eq_failed_iff window rest _ ends).mpr breaks))

/-- The tokens in front of the one where a statement is stuck can be completed, with a name or an
assignment, to the body of a statement. -/
theorem Stuck.completes {tokens : List Token} {token : Token} {fault : Fault}
    (stuck : Stuck tokens token fault) :
    ∃ form more, Block.IsBody form (tokens ++ more) ∧
      ∀ added ∈ more, added = .ofLiteral .ident "x" ∨ added = .ofLiteral .assign "=" := by
  cases stuck with
  | @unnamed keyword _ kind _ =>
      exact ⟨.binding, [.ofLiteral .ident "x", .ofLiteral .assign "="],
        ⟨keyword, _, _, [], rfl, kind, rfl, rfl, by simp⟩, by simp⟩
  | @unassigned keyword name _ kind named _ =>
      exact ⟨.binding, [.ofLiteral .assign "="],
        ⟨keyword, name, _, [], rfl, kind, named, rfl, by simp⟩, by simp⟩
  | operand _ scans _ =>
      refine ⟨.expression, [.ofLiteral .ident "x"], (Awaits.isFlat_of_scan _).1 ?_, by simp⟩
      rw [Awaits.scan_append, scans]
      rfl

end Parse

end LetLang
