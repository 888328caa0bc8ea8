import LetLang.Proofs.Flat

set_option autoImplicit false

namespace LetLang

/-- What an expression waits for behind some of its tokens. -/
inductive Awaits where
  | operand
  | operator
deriving DecidableEq, Repr

namespace Awaits

/-- What an expression waits for behind a token, if that token can come next. -/
def step : Awaits → Token → Option Awaits
  | .operand, token =>
      match token.kind with
      | .bang => some .operand
      | .minus => some .operand
      | .ident => some .operator
      | .int => if (Decimal.read? token.literal).isSome then some .operator else none
      | _ => none
  | .operator, token =>
      match token.kind with
      | .equal => some .operand
      | .notEqual => some .operand
      | .less => some .operand
      | .greater => some .operand
      | .plus => some .operand
      | .minus => some .operand
      | .asterisk => some .operand
      | .slash => some .operand
      | _ => none

/-- What an expression waits for behind some tokens, if they can come next. -/
def scan : Awaits → List Token → Option Awaits
  | awaits, [] => some awaits
  | awaits, token :: later => (awaits.step token).bind fun next => next.scan later

@[simp] theorem scan_nil (awaits : Awaits) : awaits.scan [] = some awaits := rfl

@[simp] theorem scan_cons (awaits : Awaits) (token : Token) (later : List Token) :
    awaits.scan (token :: later) = (awaits.step token).bind fun next => next.scan later := rfl

theorem scan_append (awaits : Awaits) (front back : List Token) :
    awaits.scan (front ++ back) = (awaits.scan front).bind fun next => next.scan back := by
  induction front generalizing awaits with
  | nil => rfl
  | cons token front ih =>
      rw [List.cons_append, scan_cons, scan_cons]
      cases awaits.step token with
      | none => rfl
      | some next => exact ih next

theorem step_operand_unary {token : Token} (kind : token.kind = .bang ∨ token.kind = .minus) :
    step .operand token = some .operand := by
  rcases kind with kind | kind <;> simp [step, kind]

theorem step_operand_name {token : Token} (kind : token.kind = .ident) :
    step .operand token = some .operator := by
  simp [step, kind]

theorem step_operand_integer {token : Token} (kind : token.kind = .int) :
    step .operand token = if (Decimal.read? token.literal).isSome then some .operator else none := by
  simp [step, kind]

theorem step_operator_iff (token : Token) (next : Awaits) :
    step .operator token = some next ↔
      (Grammar.standard.operator? token.kind).isSome = true ∧ next = .operand := by
  cases kind : token.kind <;> simp [step, kind, Grammar.standard, eq_comm]

/-- Where an operand is waited for, a unary operator keeps waiting and a name or an integer that
fits ends the wait. -/
theorem step_operand_cases {token : Token} {next : Awaits}
    (steps : step .operand token = some next) :
    ((token.kind = .bang ∨ token.kind = .minus) ∧ next = .operand) ∨
      (IsOperand [token] ∧ next = .operator) := by
  simp only [step] at steps
  split at steps
  · rename_i kind
    cases steps
    exact .inl ⟨.inl kind, rfl⟩
  · rename_i kind
    cases steps
    exact .inl ⟨.inr kind, rfl⟩
  · rename_i kind
    cases steps
    exact .inr ⟨.name kind, rfl⟩
  · rename_i kind
    split at steps
    · rename_i fits
      cases steps
      have ⟨numeral, below⟩ := (Decimal.read?_isSome_iff _).mp fits
      exact .inr ⟨.integer kind numeral below, rfl⟩
    · cases steps
  · cases steps

theorem step_ne_semicolon {awaits next : Awaits} {token : Token}
    (steps : awaits.step token = some next) : token.kind ≠ .semicolon := by
  intro mark
  cases awaits <;> simp [step, mark] at steps

theorem scan_ne_semicolon {awaits next : Awaits} {tokens : List Token}
    (scans : awaits.scan tokens = some next) : ∀ token ∈ tokens, token.kind ≠ .semicolon := by
  induction tokens generalizing awaits with
  | nil => simp
  | cons first later ih =>
      obtain ⟨middle, steps, rest⟩ := Option.bind_eq_some_iff.mp scans
      intro token member
      rcases List.mem_cons.mp member with rfl | deeper
      · exact step_ne_semicolon steps
      · exact ih rest token deeper

end Awaits

theorem IsOperand.scan {tokens : List Token} (operand : IsOperand tokens) :
    Awaits.operand.scan tokens = some .operator := by
  induction operand with
  | name kind => simp [Awaits.step_operand_name kind]
  | integer kind numeral fits =>
      have known := (Decimal.read?_isSome_iff _).mpr ⟨numeral, fits⟩
      simp [Awaits.step_operand_integer kind, known]
  | unary kind _ ih => simp [Awaits.step_operand_unary kind, ih]

theorem IsFlat.scan {tokens : List Token} (flat : IsFlat tokens) :
    Awaits.operand.scan tokens = some .operator := by
  induction flat with
  | operand operand => exact operand.scan
  | @binary front back token _ known last ih =>
      have steps := (Awaits.step_operator_iff token .operand).mpr ⟨known, rfl⟩
      simp [Awaits.scan_append, ih, steps, last.scan]

theorem IsFlat.cons_unary {token : Token} {tokens : List Token}
    (kind : token.kind = .bang ∨ token.kind = .minus) (flat : IsFlat tokens) :
    IsFlat (token :: tokens) := by
  induction flat with
  | operand operand => exact .operand (.unary kind operand)
  | binary _ known last ih => exact .binary ih known last

/-- The scan accepts flat expressions only: from an operand on, or from the operator in front of
one. -/
theorem Awaits.isFlat_of_scan (tokens : List Token) :
    (Awaits.operand.scan tokens = some .operator → IsFlat tokens) ∧
      (Awaits.operator.scan tokens = some .operator → tokens = [] ∨
        ∃ token later, tokens = token :: later ∧
          (Grammar.standard.operator? token.kind).isSome = true ∧ IsFlat later) := by
  induction tokens with
  | nil =>
      constructor
      · intro scans
        cases scans
      · intro _
        exact .inl rfl
  | cons token later ih =>
      constructor
      · intro scans
        obtain ⟨next, steps, rest⟩ := Option.bind_eq_some_iff.mp scans
        rcases step_operand_cases steps with ⟨kind, rfl⟩ | ⟨operand, rfl⟩
        · exact (ih.1 rest).cons_unary kind
        · rcases ih.2 rest with rfl | ⟨operator, behind, rfl, known, flat⟩
          · exact .operand operand
          · exact (IsFlat.operand operand).append_binary known flat
      · intro scans
        obtain ⟨next, steps, rest⟩ := Option.bind_eq_some_iff.mp scans
        obtain ⟨known, rfl⟩ := (step_operator_iff token next).mp steps
        exact .inr ⟨token, later, rfl, known, ih.1 rest⟩

def Token.operandFault (token : Token) : Fault :=
  match token.kind with
  | .int => .badInteger token.literal
  | _ => .noOperand token.kind token.literal

namespace Parse

/-- The tokens of a window that lead to a token where an operand is waited for in vain. The window
is left on that token, and the diagnostic is about it. -/
structure Breaks (awaits : Awaits) (window : Window) (diagnostic : Diagnostic) (rest : Window) :
    Prop where
  stop_eq : rest.stop = window.stop
  scanned : ∃ tokens, window.pending = tokens ++ rest.pending ∧
    awaits.scan tokens = some .operand
  stuck : Awaits.operand.step rest.current = none
  diagnostic_eq : diagnostic = ⟨rest.current.operandFault, rest.current.start⟩

theorem Breaks.here {window : Window} (stuck : Awaits.operand.step window.current = none) :
    Breaks .operand window ⟨window.current.operandFault, window.current.start⟩ window :=
  ⟨rfl, ⟨[], rfl, rfl⟩, stuck, rfl⟩

/-- Tokens that the scan accepts may stand in front. -/
theorem Breaks.behind {awaits next : Awaits} {window later rest : Window} {diagnostic : Diagnostic}
    (breaks : Breaks next later diagnostic rest) (tokens : List Token)
    (pending : window.pending = tokens ++ later.pending) (stop_eq : later.stop = window.stop)
    (scans : awaits.scan tokens = some next) : Breaks awaits window diagnostic rest := by
  obtain ⟨same_stop, ⟨more, later_eq, rest_scans⟩, stuck, diagnostic_eq⟩ := breaks
  refine ⟨same_stop.trans stop_eq, ⟨tokens ++ more, ?_, ?_⟩, stuck, diagnostic_eq⟩
  · rw [pending, later_eq, List.append_assoc]
  · rw [Awaits.scan_append, scans]
    exact rest_scans

/-- What is read takes up tokens from an operand to an operator. -/
theorem Reading.scan {window rest : Window} {tree : Expr}
    (reading : Reading .standard window tree rest) :
    Awaits.operand.scan tree.tokens = some .operator :=
  (Expr.respects_of_grouped reading.formed reading.grouped).isFlat.scan

theorem Reading.standard_pending_eq {window rest : Window} {tree : Expr}
    (reading : Reading .standard window tree rest) (ends : window.stop.kind = .eof) :
    window.pending = tree.tokens ++ rest.advance.pending :=
  reading.through.pending_eq (reading.pending_ne_nil rfl ends)

theorem operandFault_of_none {token : Token}
    (none_starts : Grammar.standard.operand? token.kind = none) :
    Awaits.operand.step token = none ∧
      token.operandFault = .noOperand token.kind token.literal := by
  revert none_starts
  cases kind : token.kind <;> simp [Grammar.standard, Awaits.step, Token.operandFault, kind]

theorem operandFault_of_integer {token : Token} (kind : token.kind = .int)
    (large : Decimal.read? token.literal = none) :
    Awaits.operand.step token = none ∧ token.operandFault = .badInteger token.literal := by
  simp [Awaits.step, Token.operandFault, kind, large]

/-- An operand fails where it starts, or behind its unary operators. -/
theorem operandWith_breaks {reader : ExprReader} {window rest : Window} {diagnostic : Diagnostic}
    (ends : window.stop.kind = .eof)
    (sub : reader .unary window.advance = .failed diagnostic rest →
      Breaks .operand window.advance diagnostic rest)
    (fails : operandWith .standard reader window = .failed diagnostic rest) :
    Breaks .operand window diagnostic rest := by
  unfold operandWith at fails
  split at fails
  · rename_i none_starts
    obtain ⟨stuck, fault⟩ := operandFault_of_none none_starts
    cases fails
    rw [← fault]
    exact .here stuck
  · cases fails
  · rename_i starts
    unfold integer at fails
    split at fails
    · cases fails
    · rename_i large
      obtain ⟨stuck, fault⟩ :=
        operandFault_of_integer ((Grammar.standard_operand?_integer_iff _).mp starts) large
      cases fails
      rw [← fault]
      exact .here stuck
  · rename_i starts
    have inside := window.pending_eq_cons (pending_ne_nil_of_operand rfl ends starts)
    have steps := Awaits.step_operand_unary ((Grammar.standard_operand?_operator_iff _).mp starts)
    have deeper := sub ((Outcome.map_eq_failed_iff _ _ _ _).mp fails)
    refine deeper.behind [window.current] inside rfl ?_
    simp [steps]

/-- The token that continues an expression is an operator of the scan, and it is pending. -/
theorem step_of_continues {floor : Precedence} {window : Window} (ends : window.stop.kind = .eof)
    (goes : continues .standard floor window = true) :
    Awaits.operator.step window.next = some .operand ∧
      window.advance.pending = window.next :: window.advance.advance.pending := by
  have known := operator?_isSome_of_continues goes
  have inside : window.next.kind ≠ .eof := by
    intro ended
    simp [ended, Grammar.standard] at known
  exact ⟨(Awaits.step_operator_iff window.next .operand).mpr ⟨known, rfl⟩,
    congrArg List.tail (window.pending_eq_cons_cons ends inside)⟩

/-- Both readers fail where the scan does. The second part says so for a tree that is continued,
from the token behind it on. -/
theorem within_breaks (steps : Nat) :
    (∀ floor window diagnostic rest, window.stop.kind = .eof →
        exprWithin .standard steps floor window = .failed diagnostic rest →
        Breaks .operand window diagnostic rest) ∧
      ∀ floor left window diagnostic rest, window.stop.kind = .eof →
        extendWithin .standard steps floor left window = .failed diagnostic rest →
        Breaks .operator window.advance diagnostic rest := by
  induction steps with
  | zero =>
      constructor
      · intro _ _ _ _ _ fails
        cases fails
      · intro _ _ _ _ _ _ fails
        cases fails
  | succ steps ih =>
      have reading := within_reading .standard steps
      constructor
      · intro floor window diagnostic rest ends fails
        rw [exprWithin] at fails
        rcases (Outcome.bind_eq_failed_iff _ _ _ _).mp fails with begins | ⟨left, middle, read, goes⟩
        · exact operandWith_breaks ends (ih.1 .unary window.advance diagnostic rest ends) begins
        · have operand := (operandWith_reading reading.1 read).1
          have same_end : middle.stop.kind = .eof := by rw [operand.through.follows.stop_eq, ends]
          exact (ih.2 floor left middle diagnostic rest same_end goes).behind left.tokens
            (operand.standard_pending_eq ends) operand.through.follows.stop_eq operand.scan
      · intro floor left window diagnostic rest ends fails
        rw [extendWithin] at fails
        split at fails
        · rename_i goes
          obtain ⟨operator, next_eq⟩ := step_of_continues ends goes
          rcases (Outcome.bind_eq_failed_iff _ _ _ _).mp fails with
            begins | ⟨_, middle, read, goes_on⟩
          · have right := (Outcome.map_eq_failed_iff _ _ _ _).mp begins
            refine (ih.1 _ window.advance.advance diagnostic rest ends right).behind
              [window.next] next_eq rfl ?_
            simp [operator]
          · obtain ⟨right, found, rfl⟩ := (Outcome.map_eq_done_iff _ _ _ _).mp read
            have second := (reading.1 _ _ _ _ found).toReading
            have stop_eq : middle.stop = window.stop := second.through.follows.stop_eq
            have right_ends : window.advance.advance.stop.kind = .eof := ends
            refine (ih.2 floor _ middle diagnostic rest (by rw [stop_eq, ends]) goes_on).behind
              (window.next :: right.tokens) ?_ stop_eq ?_
            · rw [next_eq, second.standard_pending_eq right_ends]
              rfl
            · simp [operator, second.scan]
        · cases fails

/-- Reading above any floor fails only where the scan does. -/
theorem expr_breaks {floor : Precedence} {window rest : Window} {diagnostic : Diagnostic}
    (ends : window.stop.kind = .eof)
    (fails : expr .standard floor window = .failed diagnostic rest) :
    Breaks .operand window diagnostic rest :=
  (within_breaks _).1 floor window diagnostic rest ends fails

/-- No scan passes the token where an operand is waited for in vain. -/
theorem eq_nil_of_stuck {rest : Window} {tokens more later : List Token} {next : Awaits}
    (stuck : Awaits.operand.step rest.current = none)
    (scans : Awaits.operand.scan tokens = some .operand)
    (further : Awaits.operand.scan (tokens ++ more) = some next)
    (pending : rest.pending = more ++ later) : more = [] := by
  cases more with
  | nil => rfl
  | cons token more =>
      have current : rest.current = token := by simp [Window.current, pending]
      rw [Awaits.scan_append, scans] at further
      simp [← current, stuck] at further

theorem Breaks.unique {window rest rest' : Window} {diagnostic diagnostic' : Diagnostic}
    (breaks : Breaks .operand window diagnostic rest)
    (breaks' : Breaks .operand window diagnostic' rest') :
    rest = rest' ∧ diagnostic = diagnostic' := by
  obtain ⟨stop_eq, ⟨tokens, pending, scans⟩, stuck, rfl⟩ := breaks
  obtain ⟨stop_eq', ⟨tokens', pending', scans'⟩, stuck', rfl⟩ := breaks'
  have same : rest.pending = rest'.pending := by
    rcases List.append_eq_append_iff.mp (pending.symm.trans pending') with
      ⟨more, rfl, behind⟩ | ⟨more, rfl, behind⟩
    · rw [behind, eq_nil_of_stuck stuck scans scans' behind, List.nil_append]
    · rw [behind, eq_nil_of_stuck stuck' scans' scans behind, List.nil_append]
  obtain ⟨rest_pending, rest_stop⟩ := rest
  obtain ⟨rest_pending', rest_stop'⟩ := rest'
  cases same
  cases stop_eq.trans stop_eq'.symm
  exact ⟨rfl, rfl⟩

/-- Nothing is read where the scan fails: what is read ends in front of a token that is no operator,
and the scan goes on from such an end with operators only. -/
theorem Breaks.not_reading {window rest middle : Window} {diagnostic : Diagnostic} {tree : Expr}
    (breaks : Breaks .operand window diagnostic rest) (ends : window.stop.kind = .eof)
    (reading : ReadingAbove .standard .lowest window tree middle) : False := by
  obtain ⟨_, ⟨tokens, pending, scans⟩, stuck, _⟩ := breaks
  have whole := reading.standard_pending_eq ends
  have flat := reading.scan
  rcases List.append_eq_append_iff.mp (whole.symm.trans pending) with
    ⟨more, rfl, behind⟩ | ⟨more, tree_eq, behind⟩
  · rw [Awaits.scan_append, flat, Option.bind_some] at scans
    cases more with
    | nil => cases scans
    | cons operator more =>
        obtain ⟨next, steps, _⟩ := Option.bind_eq_some_iff.mp scans
        have known := ((Awaits.step_operator_iff operator next).mp steps).1
        have next_eq : middle.next = operator := by
          apply Window.next_eq_of_mem_head?
          rw [behind]
          rfl
        have ended := operator?_eq_none_of_stopped reading.stopped
          (by rw [next_eq]; exact Awaits.step_ne_semicolon steps)
        rw [next_eq] at ended
        simp [ended] at known
  · have none_left := eq_nil_of_stuck stuck scans (tree_eq ▸ flat) behind
    rw [none_left, List.append_nil] at tree_eq
    rw [tree_eq, scans] at flat
    cases flat

/-- Reading above the lowest floor fails exactly where the scan does. -/
theorem expr_eq_failed_iff (window rest : Window) (diagnostic : Diagnostic)
    (ends : window.stop.kind = .eof) :
    expr .standard .lowest window = .failed diagnostic rest ↔
      Breaks .operand window diagnostic rest := by
  constructor
  · exact expr_breaks ends
  · intro breaks
    have settled := expr_settled .standard rfl .lowest window ends
    cases outcome : expr .standard .lowest window with
    | done tree middle => exact (breaks.not_reading ends (expr_reading outcome)).elim
    | failed diagnostic' rest' =>
        obtain ⟨rfl, rfl⟩ := breaks.unique (expr_breaks ends outcome)
        rfl
    | unfinished => exact (settled.ne_unfinished outcome).elim

end Parse

end LetLang
