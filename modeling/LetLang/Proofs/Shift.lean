import LetLang.Proofs.Relabel

set_option autoImplicit false

namespace LetLang

def Position.shift (bytes : Nat) (position : Position) : Position where
  offset := position.offset + UInt32.ofNat bytes
  source := position.source

def Span.shift (bytes : Nat) (span : Span) : Span :=
  ⟨span.start.shift bytes, span.stop.shift bytes⟩

def Token.shift (bytes : Nat) (token : Token) : Token where
  kind := token.kind
  literal := token.literal
  span := token.span.shift bytes

def Stmt.shift (bytes : Nat) (stmt : Stmt) : Stmt :=
  stmt.mapTokens (Token.shift bytes)

def Diagnostic.shift (bytes : Nat) (diagnostic : Diagnostic) : Diagnostic where
  fault := diagnostic.fault
  position := diagnostic.position.shift bytes

theorem Position.shift_at (source : String) (start bytes : Nat) :
    (Position.at source start).shift bytes = .at source (start + bytes) := by
  simp [Position.shift, Position.at, UInt32.ofNat_add]

@[simp] theorem Token.shift_kind (bytes : Nat) (token : Token) :
    (token.shift bytes).kind = token.kind := rfl

@[simp] theorem Token.shift_literal (bytes : Nat) (token : Token) :
    (token.shift bytes).literal = token.literal := rfl

namespace Cursor

def shift (bytes : Nat) (cursor : Cursor) : Cursor where
  source := cursor.source
  offset := cursor.offset + bytes
  rest := cursor.rest

theorem skipGap_shift (bytes : Nat) (cursor : Cursor) :
    (cursor.shift bytes).skipGap = cursor.skipGap.shift bytes := by
  simp only [skipGap, shift, mk.injEq, true_and, and_true]
  omega

theorem behind_shift (bytes : Nat) (cursor : Cursor) (lexeme : Lexeme) :
    (cursor.shift bytes).behind lexeme = (cursor.behind lexeme).shift bytes := by
  simp only [behind, shift, mk.injEq, true_and, and_true]
  omega

theorem token_shift (bytes : Nat) (cursor : Cursor) (lexeme : Lexeme) :
    (cursor.shift bytes).token lexeme = (cursor.token lexeme).shift bytes := by
  have stops : cursor.offset + bytes + Text.size lexeme.text =
      cursor.offset + Text.size lexeme.text + bytes := by omega
  simp only [token, shift, Token.shift, Span.shift, Position.shift_at, stops]

theorem endToken_shift (bytes : Nat) (cursor : Cursor) :
    (cursor.shift bytes).endToken = cursor.endToken.shift bytes := by
  simp only [endToken, shift, Token.shift, Span.shift, Position.shift_at]

theorem next?_shift (bytes : Nat) (cursor : Cursor) :
    (cursor.shift bytes).next? =
      cursor.next?.map fun drawn => (drawn.1.shift bytes, drawn.2.shift bytes) := by
  have same : (cursor.shift bytes).skipGap.rest = cursor.skipGap.rest := rfl
  cases drawn : cursor.next? with
  | none =>
      have ended := (cursor.next?_eq_none_iff).mp drawn
      exact ((cursor.shift bytes).next?_eq_none_iff).mpr (same.trans ended)
  | some pair =>
      obtain ⟨first, rest, ahead, token_eq, after_eq⟩ :=
        (cursor.next?_eq_some_iff pair.1 pair.2).mp drawn
      refine ((cursor.shift bytes).next?_eq_some_iff _ _).mpr
        ⟨first, rest, same.trans ahead, ?_, ?_⟩
      · rw [skipGap_shift, token_shift, token_eq]
      · rw [skipGap_shift, behind_shift, after_eq]

theorem drain_shift (bytes : Nat) (cursor : Cursor) :
    (cursor.shift bytes).tokens = cursor.tokens.map (Token.shift bytes) ∧
      (cursor.shift bytes).finish = cursor.finish.shift bytes := by
  induction cursor using Cursor.induction with
  | ended cursor step =>
      have step' : (cursor.shift bytes).next? = none := by rw [next?_shift, step]; rfl
      rw [tokens_of_none step, tokens_of_none step', finish_of_none step, finish_of_none step']
      exact ⟨rfl, skipGap_shift bytes cursor⟩
  | drawn cursor token after step ih =>
      have step' : (cursor.shift bytes).next? = some (token.shift bytes, after.shift bytes) := by
        rw [next?_shift, step]
        rfl
      rw [tokens_of_some step, tokens_of_some step', finish_of_some step, finish_of_some step',
        ih.1]
      exact ⟨rfl, ih.2⟩

end Cursor

def Window.shift (bytes : Nat) (window : Window) : Window where
  pending := window.pending.map (Token.shift bytes)
  stop := window.stop.shift bytes

theorem Window.ofCursor_shift (bytes : Nat) (cursor : Cursor) :
    ofCursor (cursor.shift bytes) = (ofCursor cursor).shift bytes := by
  have ⟨tokens, finish⟩ := cursor.drain_shift bytes
  rw [ofCursor, tokens, finish, Cursor.endToken_shift]
  rfl

def Relabelling.byShift (bytes : Nat) : Relabelling :=
  .ofMap (Token.shift bytes) (Token.shift_kind bytes) (Token.shift_literal bytes)

theorem Relabelling.Diagnostics.shift_eq {bytes : Nat} {first second : Diagnostic}
    (diagnostics : (byShift bytes).Diagnostics first second) : first.shift bytes = second := by
  cases diagnostics with
  | «at» fault paired =>
      cases paired
      rfl

namespace Parse

theorem runs_shift (bytes : Nat) {grammar : Grammar} {window : Window} {result : Run}
    (runs : Runs grammar window result) :
    ∃ shifted, Runs grammar (window.shift bytes) shifted ∧
      shifted.statements = result.statements.map (Stmt.shift bytes) ∧
      shifted.diagnostics = result.diagnostics.map (Diagnostic.shift bytes) := by
  have windows : (Relabelling.byShift bytes).Windows window (window.shift bytes) :=
    Relabelling.ofMap_windows window
  obtain ⟨shifted, runs', statements, diagnostics⟩ := runs_relabel grammar windows runs
  refine ⟨shifted, runs', ?_, ?_⟩
  · have same := statements.imp fun _ _ related => Relabelling.Stmts.mapTokens_eq related
    exact (List.forall₂_eq_eq_eq ▸ List.forall₂_map_left_iff.mpr same).symm
  · have same := diagnostics.imp fun _ _ related => Relabelling.Diagnostics.shift_eq related
    exact (List.forall₂_eq_eq_eq ▸ List.forall₂_map_left_iff.mpr same).symm

end Parse

end LetLang
