import LetLang.Proofs.Budget
import Mathlib.Data.List.Forall2

set_option autoImplicit false

namespace LetLang

/-- A pairing of tokens that agree in kind and text. -/
structure Relabelling where
  Pairs : Token → Token → Prop
  kind_eq : ∀ {first second : Token}, Pairs first second → first.kind = second.kind
  literal_eq : ∀ {first second : Token}, Pairs first second → first.literal = second.literal

namespace Relabelling

/-- Trees of one shape over paired tokens. -/
inductive Exprs (pairing : Relabelling) : Expr → Expr → Prop where
  | name {token token' : Token} (paired : pairing.Pairs token token') :
      Exprs pairing (.name (.ofToken token)) (.name (.ofToken token'))
  | integer {token token' : Token} (value : UInt64) (paired : pairing.Pairs token token') :
      Exprs pairing (.integer token value) (.integer token' value)
  | unary {token token' : Token} {right right' : Expr} (operator : String)
      (paired : pairing.Pairs token token') (operand : Exprs pairing right right') :
      Exprs pairing (.unary token operator right) (.unary token' operator right')
  | binary {token token' : Token} {left left' right right' : Expr} (operator : String)
      (paired : pairing.Pairs token token') (first : Exprs pairing left left')
      (second : Exprs pairing right right') :
      Exprs pairing (.binary token left operator right) (.binary token' left' operator right')

/-- Statements of one form over paired tokens. -/
inductive Stmts (pairing : Relabelling) : Stmt → Stmt → Prop where
  | binding {keyword keyword' name name' : Token} (paired : pairing.Pairs keyword keyword')
      (names : pairing.Pairs name name') :
      Stmts pairing (.binding keyword (.ofToken name) none) (.binding keyword' (.ofToken name') none)
  | returning {keyword keyword' : Token} (paired : pairing.Pairs keyword keyword') :
      Stmts pairing (.returning keyword none) (.returning keyword' none)
  | expression {token token' : Token} {tree tree' : Expr} (paired : pairing.Pairs token token')
      (trees : Exprs pairing tree tree') :
      Stmts pairing (.expression token tree) (.expression token' tree')

/-- The same fault at the starts of paired tokens. -/
inductive Diagnostics (pairing : Relabelling) : Diagnostic → Diagnostic → Prop where
  | at {token token' : Token} (fault : Fault) (paired : pairing.Pairs token token') :
      Diagnostics pairing ⟨fault, token.start⟩ ⟨fault, token'.start⟩

structure Windows (pairing : Relabelling) (window window' : Window) : Prop where
  pending : List.Forall₂ pairing.Pairs window.pending window'.pending
  stop : pairing.Pairs window.stop window'.stop

/-- Outcomes with related values or diagnostics, which leave paired windows. -/
inductive Outcomes (pairing : Relabelling) {α : Type} (values : α → α → Prop) :
    Outcome α → Outcome α → Prop where
  | done {value value' : α} {rest rest' : Window} (related : values value value')
      (windows : pairing.Windows rest rest') :
      Outcomes pairing values (.done value rest) (.done value' rest')
  | failed {diagnostic diagnostic' : Diagnostic} {rest rest' : Window}
      (related : pairing.Diagnostics diagnostic diagnostic')
      (windows : pairing.Windows rest rest') :
      Outcomes pairing values (.failed diagnostic rest) (.failed diagnostic' rest')
  | unfinished : Outcomes pairing values .unfinished .unfinished

variable {pairing : Relabelling}

namespace Windows

variable {window window' : Window} (windows : pairing.Windows window window')

include windows

theorem length_eq : window.pending.length = window'.pending.length :=
  windows.pending.length_eq

theorem nil_iff : window.pending = [] ↔ window'.pending = [] := by
  rw [← List.length_eq_zero_iff, windows.length_eq, List.length_eq_zero_iff]

theorem advance : pairing.Windows window.advance window'.advance := by
  obtain ⟨pending, stop⟩ := window
  obtain ⟨pending', stop'⟩ := window'
  obtain ⟨paired, stops⟩ := windows
  cases paired with
  | nil => exact ⟨.nil, stops⟩
  | cons _ rest => exact ⟨rest, stops⟩

theorem current : pairing.Pairs window.current window'.current := by
  obtain ⟨pending, stop⟩ := window
  obtain ⟨pending', stop'⟩ := window'
  obtain ⟨paired, stops⟩ := windows
  cases paired with
  | nil => exact stops
  | cons first _ => exact first

theorem next : pairing.Pairs window.next window'.next :=
  windows.advance.current

theorem skipToSemicolon : pairing.Windows window.skipToSemicolon window'.skipToSemicolon := by
  obtain ⟨pending, stop⟩ := window
  obtain ⟨pending', stop'⟩ := window'
  obtain ⟨paired, stops⟩ := windows
  refine ⟨?_, stops⟩
  change List.Forall₂ pairing.Pairs pending pending' at paired
  induction paired with
  | nil => exact .nil
  | @cons token token' rest rest' first others ih =>
      have same : token.is .semicolon = token'.is .semicolon := by
        rw [Token.is, Token.is, pairing.kind_eq first]
      by_cases mark : token.is .semicolon = true
      · have mark' : token'.is .semicolon = true := by rw [← same, mark]
        simpa [Window.skipToSemicolon, mark, mark'] using ⟨first, others⟩
      · have mark' : ¬ token'.is .semicolon = true := by rwa [← same]
        simpa [Window.skipToSemicolon, mark, mark'] using ih stops

end Windows

namespace Outcomes

variable {α β : Type} {values : α → α → Prop} {results : β → β → Prop}
  {outcome outcome' : Outcome α}

theorem bind {goes goes' : α → Window → Outcome β}
    (outcomes : pairing.Outcomes values outcome outcome')
    (continued : ∀ {value value' rest rest'}, values value value' → pairing.Windows rest rest' →
      pairing.Outcomes results (goes value rest) (goes' value' rest')) :
    pairing.Outcomes results (outcome.bind goes) (outcome'.bind goes') := by
  cases outcomes with
  | done related windows => exact continued related windows
  | failed related windows => exact .failed related windows
  | unfinished => exact .unfinished

theorem map {f f' : α → β} (outcomes : pairing.Outcomes values outcome outcome')
    (mapped : ∀ {value value'}, values value value' → results (f value) (f' value')) :
    pairing.Outcomes results (outcome.map f) (outcome'.map f') :=
  outcomes.bind fun related windows => .done (mapped related) windows

end Outcomes

end Relabelling

namespace Parse

open Relabelling

variable {pairing : Relabelling} (grammar : Grammar)

theorem integer_relabel {window window' : Window} (windows : pairing.Windows window window') :
    pairing.Outcomes pairing.Exprs (integer window) (integer window') := by
  unfold integer
  rw [pairing.literal_eq windows.current]
  split
  · exact .done (.integer _ windows.current) windows
  · exact .failed (.at _ windows.current) windows

theorem unaryWith_relabel {reader : ExprReader}
    (sub : ∀ floor {window window'}, pairing.Windows window window' →
      pairing.Outcomes pairing.Exprs (reader floor window) (reader floor window'))
    {window window' : Window} (windows : pairing.Windows window window') :
    pairing.Outcomes pairing.Exprs (unaryWith reader window) (unaryWith reader window') := by
  unfold unaryWith
  rw [pairing.literal_eq windows.current]
  exact (sub _ windows.advance).map fun operand => .unary _ windows.current operand

theorem binaryWith_relabel {reader : ExprReader}
    (sub : ∀ floor {window window'}, pairing.Windows window window' →
      pairing.Outcomes pairing.Exprs (reader floor window) (reader floor window'))
    {left left' : Expr} (lefts : pairing.Exprs left left')
    {window window' : Window} (windows : pairing.Windows window window') :
    pairing.Outcomes pairing.Exprs (binaryWith grammar reader left window)
      (binaryWith grammar reader left' window') := by
  unfold binaryWith
  rw [pairing.literal_eq windows.current, pairing.kind_eq windows.current]
  exact (sub _ windows.advance).map fun operand => .binary _ windows.current lefts operand

theorem operandWith_relabel {reader : ExprReader}
    (sub : ∀ floor {window window'}, pairing.Windows window window' →
      pairing.Outcomes pairing.Exprs (reader floor window) (reader floor window'))
    {window window' : Window} (windows : pairing.Windows window window') :
    pairing.Outcomes pairing.Exprs (operandWith grammar reader window)
      (operandWith grammar reader window') := by
  unfold operandWith
  rw [pairing.kind_eq windows.current, pairing.literal_eq windows.current]
  split
  · exact .failed (.at _ windows.current) windows
  · exact .done (.name windows.current) windows
  · exact integer_relabel windows
  · exact unaryWith_relabel sub windows

theorem continues_relabel (floor : Precedence) {window window' : Window}
    (windows : pairing.Windows window window') :
    continues grammar floor window = continues grammar floor window' := by
  rw [continues, continues, Token.is, Token.is, pairing.kind_eq windows.next]

theorem within_relabel (steps : Nat) :
    (∀ floor {window window'}, pairing.Windows window window' →
        pairing.Outcomes pairing.Exprs (exprWithin grammar steps floor window)
          (exprWithin grammar steps floor window')) ∧
      ∀ floor {left left' window window'}, pairing.Exprs left left' →
        pairing.Windows window window' →
        pairing.Outcomes pairing.Exprs (extendWithin grammar steps floor left window)
          (extendWithin grammar steps floor left' window') := by
  induction steps with
  | zero =>
      constructor
      · intro _ _ _ _
        exact .unfinished
      · intro _ _ _ _ _ _ _
        exact .unfinished
  | succ steps ih =>
      constructor
      · intro floor window window' windows
        rw [exprWithin, exprWithin]
        exact (operandWith_relabel grammar ih.1 windows).bind (ih.2 floor)
      · intro floor left left' window window' lefts windows
        rw [extendWithin, extendWithin, continues_relabel grammar floor windows]
        split
        · exact (binaryWith_relabel grammar ih.1 lefts windows.advance).bind (ih.2 floor)
        · exact .done lefts windows

theorem expr_relabel (floor : Precedence) {window window' : Window}
    (windows : pairing.Windows window window') :
    pairing.Outcomes pairing.Exprs (expr grammar floor window) (expr grammar floor window') := by
  rw [expr, expr, budget, budget, windows.length_eq]
  exact (within_relabel grammar _).1 floor windows

theorem binding_relabel {window window' : Window} (windows : pairing.Windows window window') :
    pairing.Outcomes pairing.Stmts (binding window) (binding window') := by
  have next_kind := pairing.kind_eq windows.next
  have later_kind := pairing.kind_eq windows.advance.next
  by_cases named : window.next.kind = .ident
  · have named' : window'.next.kind = .ident := by rw [← next_kind, named]
    by_cases assigned : window.advance.next.kind = .assign
    · have assigned' : window'.advance.next.kind = .assign := by rw [← later_kind, assigned]
      simp only [binding, Window.expect, named, named', assigned, assigned', ↓reduceIte]
      exact .done (.binding windows.current windows.advance.current)
        windows.advance.advance.skipToSemicolon
    · have assigned' : ¬ window'.advance.next.kind = .assign := by rwa [← later_kind]
      simp only [binding, Window.expect, named, named', assigned', ↓reduceIte, later_kind]
      exact .failed (.at _ windows.advance.next) windows.advance
  · have named' : ¬ window'.next.kind = .ident := by rwa [← next_kind]
    simp only [binding, Window.expect, named', ↓reduceIte, next_kind]
    exact .failed (.at _ windows.next) windows

theorem closeStmt_relabel {window window' : Window} (windows : pairing.Windows window window') :
    pairing.Windows (closeStmt window) (closeStmt window') := by
  rw [closeStmt, closeStmt, Token.is, Token.is, pairing.kind_eq windows.next]
  split
  · exact windows.advance
  · exact windows

theorem stmt_relabel {window window' : Window} (windows : pairing.Windows window window') :
    pairing.Outcomes pairing.Stmts (stmt grammar window) (stmt grammar window') := by
  rw [stmt, stmt, pairing.kind_eq windows.current]
  cases (grammar.form? window'.current.kind).getD .expression with
  | binding => exact binding_relabel windows
  | returning => exact .done (.returning windows.current) windows.advance.skipToSemicolon
  | expression =>
      exact (expr_relabel grammar .lowest windows).bind fun trees rests =>
        .done (.expression windows.current trees) (closeStmt_relabel rests)

/-- Paired windows have runs with related statements and diagnostics, in the same order. -/
theorem runs_relabel {window window' : Window} (windows : pairing.Windows window window')
    {result : Run} (runs : Runs grammar window result) :
    ∃ result', Runs grammar window' result' ∧
      List.Forall₂ pairing.Stmts result.statements result'.statements ∧
      List.Forall₂ pairing.Diagnostics result.diagnostics result'.diagnostics := by
  induction runs generalizing window' with
  | ended empty => exact ⟨_, .ended (windows.nil_iff.mp empty), .nil, .nil⟩
  | @read window rest value later some_token done goes ih =>
      have some_token' : window'.pending ≠ [] := fun empty => some_token (windows.nil_iff.mpr empty)
      have outcomes := stmt_relabel grammar windows
      rw [done] at outcomes
      generalize done' : stmt grammar window' = outcome' at outcomes
      cases outcomes with
      | done related rests =>
          obtain ⟨later', goes', statements, diagnostics⟩ := ih rests.advance
          exact ⟨_, .read some_token' done' goes', .cons related statements, diagnostics⟩
  | @failed window rest diagnostic later some_token fails goes ih =>
      have some_token' : window'.pending ≠ [] := fun empty => some_token (windows.nil_iff.mpr empty)
      have outcomes := stmt_relabel grammar windows
      rw [fails] at outcomes
      generalize fails' : stmt grammar window' = outcome' at outcomes
      cases outcomes with
      | failed related rests =>
          obtain ⟨later', goes', statements, diagnostics⟩ := ih rests.skipToSemicolon.advance
          exact ⟨_, .failed some_token' fails' goes', statements, .cons related diagnostics⟩

end Parse

def Name.mapToken (f : Token → Token) (name : Name) : Name :=
  ⟨f name.token, name.value⟩

def Expr.mapTokens (f : Token → Token) : Expr → Expr
  | .name ident => .name (ident.mapToken f)
  | .integer token value => .integer (f token) value
  | .unary token operator right => .unary (f token) operator (right.mapTokens f)
  | .binary token left operator right =>
      .binary (f token) (left.mapTokens f) operator (right.mapTokens f)

def Stmt.mapTokens (f : Token → Token) : Stmt → Stmt
  | .binding token name value =>
      .binding (f token) (name.mapToken f) (value.map (Expr.mapTokens f))
  | .returning token value => .returning (f token) (value.map (Expr.mapTokens f))
  | .expression token expr => .expression (f token) (expr.mapTokens f)

namespace Relabelling

/-- Pairs each token with its image under a map that keeps kinds and texts. -/
def ofMap (f : Token → Token) (kind : ∀ token, (f token).kind = token.kind)
    (literal : ∀ token, (f token).literal = token.literal) : Relabelling where
  Pairs token token' := f token = token'
  kind_eq := by
    rintro token _ rfl
    exact (kind token).symm
  literal_eq := by
    rintro token _ rfl
    exact (literal token).symm

variable {f : Token → Token} {kind : ∀ token, (f token).kind = token.kind}
  {literal : ∀ token, (f token).literal = token.literal}

theorem ofMap_windows (window : Window) :
    (ofMap f kind literal).Windows window ⟨window.pending.map f, f window.stop⟩ where
  pending := by
    rw [List.forall₂_map_right_iff, List.forall₂_same]
    intro token _
    rfl
  stop := rfl

theorem mapToken_ofToken (token : Token) (same : (f token).literal = token.literal) :
    (Name.ofToken token).mapToken f = .ofToken (f token) := by
  simp [Name.ofToken, Name.mapToken, same]

theorem Exprs.mapTokens_eq {tree tree' : Expr} (trees : (ofMap f kind literal).Exprs tree tree') :
    tree.mapTokens f = tree' := by
  induction trees with
  | @name token _ paired =>
      cases paired
      rw [Expr.mapTokens, mapToken_ofToken token (literal token)]
  | integer value paired =>
      cases paired
      rfl
  | unary operator paired _ ih =>
      cases paired
      rw [Expr.mapTokens, ih]
  | binary operator paired _ _ left_ih right_ih =>
      cases paired
      rw [Expr.mapTokens, left_ih, right_ih]

theorem Stmts.mapTokens_eq {stmt stmt' : Stmt} (stmts : (ofMap f kind literal).Stmts stmt stmt') :
    stmt.mapTokens f = stmt' := by
  cases stmts with
  | @binding _ _ name _ paired names =>
      cases paired
      cases names
      rw [Stmt.mapTokens, mapToken_ofToken name (literal name), Option.map_none]
  | returning paired =>
      cases paired
      rfl
  | expression paired trees =>
      cases paired
      rw [Stmt.mapTokens, trees.mapTokens_eq]

end Relabelling

end LetLang
