import LetLang.Proofs.Acceptance
import LetLang.Proofs.LinearScan
import LetLang.Proofs.Stuck

set_option autoImplicit false

namespace LetLang

/-- The index of the first semicolon from an index of a text on, or of the end token if there is
none. -/
def semicolonFrom (source text : String) (index : Nat) : Nat :=
  index + ((tokenize source text).drop index).findIdx fun token =>
    token.is .semicolon || token.is .eof

/-- What reading a statement from an index of a text on can end in. -/
inductive Lands (source text : String) (index : Nat) : Outcome Stmt → Prop where
  | binding (token : Token) (name : Name) (value : Option Expr) :
      Lands source text index
        (.done (.binding token name value)
          (.atIndex source text (semicolonFrom source text index)))
  | returning (token : Token) (value : Option Expr) :
      Lands source text index
        (.done (.returning token value) (.atIndex source text (semicolonFrom source text index)))
  | closed (token : Token) {tree : Expr} {last : Nat} (inside : index ≤ last)
      (tokens_eq : tree.tokens = ((tokenize source text).drop index).take (last + 1 - index))
      (semicolon : (tokenAt source text (last + 1)).kind = .semicolon)
      (reaches : last + 1 = semicolonFrom source text index) :
      Lands source text index (.done (.expression token tree) (.atIndex source text (last + 1)))
  | opened (token : Token) {tree : Expr} {last : Nat} (inside : index ≤ last)
      (tokens_eq : tree.tokens = ((tokenize source text).drop index).take (last + 1 - index))
      (other : (tokenAt source text (last + 1)).kind ≠ .semicolon)
      (before : last < semicolonFrom source text index) :
      Lands source text index (.done (.expression token tree) (.atIndex source text last))
  | unexpected (expected : Kind) {here : Nat} (inside : index ≤ here)
      (before : here < semicolonFrom source text index) :
      Lands source text index
        (.failed
          ⟨.unexpected expected (tokenAt source text (here + 1)).kind,
            (tokenAt source text (here + 1)).start⟩
          (.atIndex source text here))
  | operand {here : Nat} (inside : index ≤ here)
      (within : here ≤ semicolonFrom source text index) :
      Lands source text index
        (.failed
          ⟨(tokenAt source text here).operandFault, (tokenAt source text here).start⟩
          (.atIndex source text here))

theorem findIdx_semicolon {tokens : List Token} (inside : ∀ token ∈ tokens, token.kind ≠ .eof)
    {tail : List Token} (ended : ∀ token ∈ tail, token.kind = .eof) :
    ((tokens ++ tail).findIdx fun token => token.is .semicolon || token.is .eof) =
      tokens.findIdx fun token => token.is .semicolon := by
  induction tokens with
  | nil =>
      cases tail with
      | nil => rfl
      | cons token tail => simp [List.findIdx_cons, Token.is, ended token (List.mem_cons_self ..)]
  | cons token tokens ih =>
      have other : token.is .eof = false := by
        rw [Token.is_eq_false_iff]
        exact inside token (List.mem_cons_self ..)
      have later := ih fun token member => inside token (List.mem_cons_of_mem _ member)
      rw [List.cons_append, List.findIdx_cons, List.findIdx_cons, later, other, Bool.or_false]

theorem le_semicolonFrom (source text : String) (index : Nat) :
    index ≤ semicolonFrom source text index :=
  Nat.le_add_right _ _

section Index

variable {source text : String} {index : Nat}

theorem semicolonFrom_eq :
    semicolonFrom source text index =
      index + (Window.atIndex source text index).pending.findIdx fun token =>
        token.is .semicolon := by
  rw [semicolonFrom, tokenize_drop, findIdx_semicolon]
  · exact fun token member => kind_ne_eof_of_mem (List.mem_of_mem_drop member)
  · intro token member
    rw [List.mem_singleton.mp (List.mem_of_mem_drop member)]
    rfl

theorem semicolonFrom_append {tokens : List Token} {rest : Window}
    (pending : (Window.atIndex source text index).pending = tokens ++ rest.pending)
    (stop_eq : rest.stop = (Window.atIndex source text index).stop)
    (apart : ∀ token ∈ tokens, token.kind ≠ .semicolon) :
    rest = .atIndex source text (index + tokens.length) ∧
      semicolonFrom source text index = semicolonFrom source text (index + tokens.length) := by
  have rest_eq : rest = .atIndex source text (index + tokens.length) := by
    rw [← Window.drop_atIndex, pending, List.drop_left, ← stop_eq]
  have none_found : tokens.findIdx (fun token => token.is .semicolon) = tokens.length := by
    apply List.findIdx_eq_length.mpr
    intro token member
    simpa using apart token member
  refine ⟨rest_eq, ?_⟩
  rw [semicolonFrom_eq, semicolonFrom_eq, ← rest_eq, pending, List.findIdx_append, none_found,
    if_neg (Nat.lt_irrefl _)]
  omega

theorem semicolonFrom_succ (inside : (Window.atIndex source text index).pending ≠ [])
    (apart : (tokenAt source text index).kind ≠ .semicolon) :
    semicolonFrom source text index = semicolonFrom source text (index + 1) := by
  have first : (Window.atIndex source text index).pending =
      [tokenAt source text index] ++ (Window.atIndex source text index).advance.pending := by
    rw [← Window.current_atIndex]
    exact Window.pending_eq_cons inside
  exact (semicolonFrom_append first rfl (by simpa using apart)).2

theorem semicolonFrom_of_semicolon (semicolon : (tokenAt source text index).kind = .semicolon) :
    semicolonFrom source text index = index := by
  rw [← Window.current_atIndex] at semicolon
  have inside := Window.pending_ne_nil_of_kind rfl semicolon (by decide)
  rw [semicolonFrom_eq, Window.pending_eq_cons inside, List.findIdx_cons, Token.is, semicolon]
  rfl

theorem skipToSemicolon_atIndex :
    (Window.atIndex source text index).skipToSemicolon =
      .atIndex source text (semicolonFrom source text index) := by
  rw [semicolonFrom_eq, ← Window.drop_atIndex, Window.skipToSemicolon,
    List.dropWhile_eq_drop_findIdx_not]
  simp

end Index

namespace Parse

variable {source text : String} {index : Nat}

theorem returning_lands (keyword : (tokenAt source text index).kind = .returnWord) :
    Lands source text index (returning (.atIndex source text index)) := by
  have apart : (Window.atIndex source text index).current.kind ≠ .semicolon := by
    rw [Window.current_atIndex, keyword]
    decide
  rw [returning, ← Window.skipToSemicolon_of_ne apart, skipToSemicolon_atIndex]
  exact .returning _ _

theorem binding_lands (keyword : (tokenAt source text index).kind = .letWord) :
    Lands source text index (binding (.atIndex source text index)) := by
  have inside : (Window.atIndex source text index).pending ≠ [] :=
    Window.pending_ne_nil_of_kind rfl (by rw [Window.current_atIndex, keyword]) (by decide)
  have first := semicolonFrom_succ inside (by rw [keyword]; decide)
  by_cases named : (tokenAt source text (index + 1)).kind = .ident
  · have inside' : (Window.atIndex source text (index + 1)).pending ≠ [] :=
      Window.pending_ne_nil_of_kind rfl (by rw [Window.current_atIndex, named]) (by decide)
    have second := semicolonFrom_succ inside' (by rw [named]; decide)
    by_cases assigned : (tokenAt source text (index + 1 + 1)).kind = .assign
    · simp only [binding, Window.expect, Window.next_atIndex, Window.advance_atIndex, named,
        assigned, ↓reduceIte, skipToSemicolon_atIndex]
      rw [← second, ← first]
      exact .binding _ _ _
    · simp only [binding, Window.expect, Window.next_atIndex, Window.advance_atIndex, named,
        assigned, ↓reduceIte]
      have bound := le_semicolonFrom source text (index + 1 + 1)
      exact .unexpected .assign (by omega) (by omega)
  · simp only [binding, Window.expect, Window.next_atIndex, named, ↓reduceIte]
    have bound := le_semicolonFrom source text (index + 1)
    exact .unexpected .ident (Nat.le_refl _) (by omega)

/-- An expression that is read ends in front of the first semicolon. -/
theorem exists_last_of_reading {tree : Expr} {rest : Window}
    (reading : Reading .standard (.atIndex source text index) tree rest) :
    ∃ last, index ≤ last ∧ rest = .atIndex source text last ∧
      tree.tokens = ((tokenize source text).drop index).take (last + 1 - index) ∧
      semicolonFrom source text index = semicolonFrom source text (last + 1) := by
  have some_token := reading.pending_ne_nil rfl rfl
  have whole := reading.standard_pending_eq rfl
  have apart := Awaits.scan_ne_semicolon reading.scan
  have last_eq := reading.through.getLast?_eq
  have split := List.dropLast_append_getLast? _ last_eq
  -- The tokens in front of the last one lead to the window that is left.
  have pending : (Window.atIndex source text index).pending =
      tree.tokens.dropLast ++ rest.pending := by
    rw [whole, rest.pending_eq_cons some_token, ← List.singleton_append, ← List.append_assoc, split]
  obtain ⟨rest_eq, from_eq⟩ := semicolonFrom_append pending reading.through.follows.stop_eq
    fun token member => apart token (List.dropLast_subset _ member)
  have length_eq : tree.tokens.dropLast.length + 1 = tree.tokens.length := by
    rw [← split]
    simp
  have current_apart := apart _ (List.mem_of_getLast? last_eq)
  rw [rest_eq] at some_token current_apart
  rw [Window.current_atIndex] at current_apart
  refine ⟨_, Nat.le_add_right _ _, rest_eq, ?_, from_eq.trans
    (semicolonFrom_succ some_token current_apart)⟩
  rw [tokenize_drop, whole, List.append_assoc, List.take_left']
  omega

theorem exprStmt_lands :
    Lands source text index (exprStmt .standard (.atIndex source text index)) := by
  have settled := expr_settled .standard rfl .lowest (.atIndex source text index) rfl
  rw [exprStmt]
  cases outcome : expr .standard .lowest (.atIndex source text index) with
  | done tree rest =>
      obtain ⟨last, inside, rfl, tokens_eq, from_eq⟩ :=
        exists_last_of_reading (expr_reading outcome).toReading
      rw [Outcome.bind_done]
      by_cases semicolon : (tokenAt source text (last + 1)).kind = .semicolon
      · rw [closeStmt_of_eq (by rw [Window.next_atIndex, semicolon]), Window.advance_atIndex]
        exact .closed _ inside tokens_eq semicolon
          (by rw [from_eq, semicolonFrom_of_semicolon semicolon])
      · rw [closeStmt_of_ne (by rw [Window.next_atIndex]; exact semicolon)]
        have bound := le_semicolonFrom source text (last + 1)
        exact .opened _ inside tokens_eq semicolon (by omega)
  | failed diagnostic rest =>
      obtain ⟨stop_eq, ⟨tokens, pending, scans⟩, _, rfl⟩ := expr_breaks rfl outcome
      obtain ⟨rfl, from_eq⟩ :=
        semicolonFrom_append pending stop_eq (Awaits.scan_ne_semicolon scans)
      rw [Outcome.bind_failed, Window.current_atIndex]
      apply Lands.operand (Nat.le_add_right _ _)
      rw [from_eq]
      exact le_semicolonFrom source text _
  | unfinished => exact (settled.ne_unfinished outcome).elim

/-- Reading a statement, from any token of a text on, moves no further than the first semicolon
there is, and leaves the window where its form says. -/
theorem stmt_lands (source text : String) (index : Nat) :
    Lands source text index (stmt .standard (.atIndex source text index)) := by
  unfold stmt
  rw [Window.current_atIndex]
  cases form : Grammar.standard.form? (tokenAt source text index).kind with
  | none => exact exprStmt_lands
  | some form' =>
      cases form' with
      | binding => exact binding_lands ((Grammar.standard_form?_binding_iff _).mp form)
      | returning => exact returning_lands ((Grammar.standard_form?_returning_iff _).mp form)
      | expression => exact (Grammar.standard_form?_ne_expression _ form).elim

end Parse

end LetLang
