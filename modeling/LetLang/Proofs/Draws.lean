import LetLang.Parse.Session
import LetLang.Proofs.Spelling

set_option autoImplicit false

namespace LetLang

namespace Cursor

theorem skipGap_skipGap (cursor : Cursor) : cursor.skipGap.skipGap = cursor.skipGap := by
  have stopped := List.dropWhile_get_zero_not Text.isGap cursor.rest
  have none_left : (cursor.rest.dropWhile Text.isGap).takeWhile Text.isGap = [] :=
    List.takeWhile_eq_nil_iff.mpr stopped
  have all_left : (cursor.rest.dropWhile Text.isGap).dropWhile Text.isGap =
      cursor.rest.dropWhile Text.isGap := List.dropWhile_eq_self_iff.mpr stopped
  simp only [skipGap, none_left, all_left, Text.size_nil, Nat.add_zero]

theorem next_of_none {cursor : Cursor} (ended : cursor.next? = none) :
    cursor.next = (cursor.skipGap.endToken, cursor.skipGap) := by
  simp [next, ended]

theorem next_of_some {cursor after : Cursor} {token : Token}
    (step : cursor.next? = some (token, after)) : cursor.next = (token, after) := by
  simp [next, step]

theorem drain_next (cursor : Cursor) :
    cursor.next.2.tokens = cursor.tokens.tail ∧ cursor.next.2.finish = cursor.finish := by
  cases step : cursor.next? with
  | none =>
      rw [next_of_none step]
      have same := drain_congr cursor.skipGap_skipGap
      rw [same.1, same.2, tokens_of_none step]
      exact ⟨rfl, rfl⟩
  | some pair =>
      rw [next_of_some step, tokens_of_some step, finish_of_some step]
      exact ⟨rfl, rfl⟩

theorem drain_drop (count : Nat) (cursor : Cursor) :
    (drop count cursor).tokens = cursor.tokens.drop count ∧
      (drop count cursor).finish = cursor.finish := by
  induction count generalizing cursor with
  | zero => exact ⟨rfl, rfl⟩
  | succ count ih =>
      have ⟨tokens_eq, finish_eq⟩ := cursor.drain_next
      rw [drop, (ih _).1, (ih _).2, tokens_eq, finish_eq, List.drop_tail]
      exact ⟨rfl, rfl⟩

end Cursor

/-- The token at an index of a named text, where the end token goes on forever. -/
def tokenAt (source text : String) (index : Nat) : Token :=
  (tokenize source text).getD index (Cursor.ofText source text).finish.endToken

/-- A window on the tokens of a named text from an index on. -/
def Window.atIndex (source text : String) (index : Nat) : Window :=
  ⟨(Cursor.ofText source text).tokens.drop index, (Cursor.ofText source text).finish.endToken⟩

namespace Window

theorem ofCursor_drop (source text : String) (drawn : Nat) :
    ofCursor (.drop drawn (.ofText source text)) = .atIndex source text drawn := by
  have ⟨tokens_eq, finish_eq⟩ := (Cursor.ofText source text).drain_drop drawn
  rw [ofCursor, tokens_eq, finish_eq, Window.atIndex]

theorem advance_atIndex (source text : String) (index : Nat) :
    (Window.atIndex source text index).advance = .atIndex source text (index + 1) := by
  simp [advance, Window.atIndex]

theorem current_atIndex (source text : String) (index : Nat) :
    (Window.atIndex source text index).current = tokenAt source text index := by
  simp only [current, Window.atIndex, tokenAt, tokenize, Cursor.allTokens, List.headD_eq_head?_getD,
    List.head?_drop, List.getD_eq_getElem?_getD]
  by_cases inside : index < (Cursor.ofText source text).tokens.length
  · rw [List.getElem?_append_left inside]
  · rw [List.getElem?_eq_none (by omega), List.getElem?_append_right (by omega)]
    cases index - (Cursor.ofText source text).tokens.length <;> rfl

theorem next_atIndex (source text : String) (index : Nat) :
    (Window.atIndex source text index).next = tokenAt source text (index + 1) := by
  rw [← current_advance, advance_atIndex, current_atIndex]

end Window

/-- No token of a text but the last one is an end token. -/
theorem kind_ne_eof_of_mem {source text : String} {token : Token}
    (member : token ∈ (Cursor.ofText source text).tokens) : token.kind ≠ .eof := by
  obtain ⟨after, lexes⟩ := spelled_tokens source text token member
  exact lexes.kind_ne_eof

/-- The tokens that a window shows are those that are left, the end token apart. -/
theorem length_pending_atIndex (source text : String) (index : Nat) :
    (Window.atIndex source text index).pending.length =
      ((tokenize source text).drop index).countP fun token => !token.is .eof := by
  let tokens := (Cursor.ofText source text).tokens
  have others : ∀ token ∈ tokens.drop index, (!token.is .eof) = true := by
    intro token member
    simpa using kind_ne_eof_of_mem (List.mem_of_mem_drop member)
  have ending : ([(Cursor.ofText source text).finish.endToken].drop
      (index - tokens.length)).countP (fun token => !token.is .eof) = 0 := by
    apply List.countP_eq_zero.mpr
    intro token member
    rw [List.mem_singleton.mp (List.mem_of_mem_drop member)]
    simp [Cursor.endToken]
  have split : (tokenize source text).drop index = tokens.drop index ++
      [(Cursor.ofText source text).finish.endToken].drop (index - tokens.length) :=
    List.drop_append
  rw [split, List.countP_append, ending, List.countP_eq_length.mpr others]
  rfl

end LetLang
