import LetLang.Token.Cursor
import Mathlib.Data.List.Basic
import Mathlib.Data.List.TakeWhile

set_option autoImplicit false

namespace LetLang

/-- A run that stops inside a text, or right behind it, stops there in every longer text. -/
theorem takeWhile_append_of_stops {α : Type} (inside : α → Bool) (front back : List α)
    (stops : front.dropWhile inside = [] → ∀ item ∈ back.head?, inside item = false) :
    (front ++ back).takeWhile inside = front.takeWhile inside ∧
      (front ++ back).dropWhile inside = front.dropWhile inside ++ back := by
  induction front with
  | nil =>
      cases back with
      | nil => simp
      | cons item rest =>
          have outside : inside item = false := stops rfl item rfl
          simp [outside]
  | cons first rest ih =>
      by_cases taken : inside first = true
      · have ⟨take_eq, drop_eq⟩ := ih (by simpa [taken] using stops)
        simp [taken, take_eq, drop_eq]
      · simp [taken]

/-- Whether a token of a kind takes in a character that stands directly behind it. -/
def Kind.takes : Kind → Char → Bool
  | .int, c => c.isDigit
  | .assign, c => c == '='
  | .bang, c => c == '='
  | .ident, c => isLetter c
  | .fnWord, c => isLetter c
  | .letWord, c => isLetter c
  | .trueWord, c => isLetter c
  | .falseWord, c => isLetter c
  | .ifWord, c => isLetter c
  | .elseWord, c => isLetter c
  | .returnWord, c => isLetter c
  | _, _ => false

@[simp] theorem Kind.takes_semicolon (kind : Kind) : kind.takes ';' = false := by
  cases kind <;> decide

theorem Kind.takes_ofWord (word : String) (c : Char) : (ofWord word).takes c = isLetter c := by
  unfold ofWord keyword? keywords
  simp only [List.lookup_cons, List.lookup_nil]
  repeat' split
  all_goals rfl

theorem Kind.takes_ofSymbol_iff (first c : Char) :
    (ofSymbol first).takes c = true ↔ (first = '=' ∨ first = '!') ∧ c = '=' := by
  unfold ofSymbol
  split <;> simp_all [takes]

namespace Lexeme

def followedBy (lexeme : Lexeme) (back : List Char) : Lexeme where
  kind := lexeme.kind
  text := lexeme.text
  rest := lexeme.rest ++ back

theorem readSymbol_nil (first : Char) :
    readSymbol first [] = ⟨.ofSymbol first, [first], []⟩ := by
  unfold readSymbol
  split <;> simp_all

theorem readSymbol_cons (first second : Char) (rest : List Char)
    (apart : (Kind.ofSymbol first).takes second = false) :
    readSymbol first (second :: rest) = ⟨.ofSymbol first, [first], second :: rest⟩ := by
  have single : ¬ ((first = '=' ∨ first = '!') ∧ second = '=') := by
    rw [← Kind.takes_ofSymbol_iff, apart]
    decide
  unfold readSymbol
  split <;> simp_all

theorem readSymbol_append (first : Char) (rest back : List Char)
    (held : (readSymbol first rest).rest = [] →
      ∀ c ∈ back.head?, (readSymbol first rest).kind.takes c = false) :
    readSymbol first (rest ++ back) = (readSymbol first rest).followedBy back := by
  cases rest with
  | nil =>
      rw [readSymbol_nil] at held ⊢
      cases back with
      | nil => exact readSymbol_nil first
      | cons c back => exact readSymbol_cons first c back (held rfl c rfl)
  | cons second rest =>
      cases taken : (Kind.ofSymbol first).takes second with
      | false =>
          rw [readSymbol_cons first second rest taken]
          exact readSymbol_cons first second (rest ++ back) taken
      | true =>
          obtain ⟨rfl | rfl, rfl⟩ := (Kind.takes_ofSymbol_iff first second).mp taken
          · rfl
          · rfl

/-- A lexeme that does not reach the end of its text, or that does not take in the character
behind it, is read from every longer text. -/
theorem read_append (first : Char) (rest back : List Char)
    (held : (read first rest).rest = [] →
      ∀ c ∈ back.head?, (read first rest).kind.takes c = false) :
    read first (rest ++ back) = (read first rest).followedBy back := by
  by_cases letter : isLetter first = true
  · simp only [read, letter, ↓reduceIte, Kind.takes_ofWord] at held ⊢
    have ⟨take_eq, drop_eq⟩ := takeWhile_append_of_stops isLetter rest back held
    rw [take_eq, drop_eq]
    rfl
  · by_cases digit : first.isDigit = true
    · simp only [read, letter, digit, ↓reduceIte, Kind.takes, Bool.false_eq_true] at held ⊢
      have ⟨take_eq, drop_eq⟩ := takeWhile_append_of_stops Char.isDigit rest back held
      rw [take_eq, drop_eq]
      rfl
    · simp only [read, letter, digit, ↓reduceIte, Bool.false_eq_true] at held ⊢
      exact readSymbol_append first rest back held

theorem not_letter_of_isGap {c : Char} (gap : Text.isGap c = true) :
    isLetter c = false ∧ c.isDigit = false := by
  simp only [Text.isGap, Bool.or_eq_true, beq_iff_eq] at gap
  rcases gap with ((rfl | rfl) | rfl) | rfl <;> decide

/-- There is no gap inside a lexeme. -/
theorem isGap_of_mem_text {first : Char} (solid : Text.isGap first = false) (rest : List Char) :
    ∀ c ∈ (read first rest).text, Text.isGap c = false := by
  have solid_run : ∀ inside : Char → Bool, (∀ c, Text.isGap c = true → inside c = false) →
      ∀ c ∈ first :: rest.takeWhile inside, Text.isGap c = false := by
    intro inside apart c member
    rcases List.mem_cons.mp member with rfl | run
    · exact solid
    · by_contra gap
      have outside := apart c (by simpa using gap)
      rw [List.mem_takeWhile_imp run] at outside
      contradiction
  unfold read
  split
  · exact solid_run isLetter fun c gap => (not_letter_of_isGap gap).1
  · split
    · exact solid_run Char.isDigit fun c gap => (not_letter_of_isGap gap).2
    · unfold readSymbol
      split
      · simp [Text.isGap]
      · simp [Text.isGap]
      · simpa using solid

end Lexeme

namespace Cursor

def followedBy (cursor : Cursor) (back : List Char) : Cursor where
  source := cursor.source
  offset := cursor.offset
  rest := cursor.rest ++ back

/-- The cursor behind all the text ahead, with other text there. -/
def past (cursor : Cursor) (back : List Char) : Cursor where
  source := cursor.source
  offset := cursor.offset + Text.size cursor.rest
  rest := back

/-- Behind a text without tokens there is only a gap to pass over. -/
theorem skipGap_followedBy_of_none {cursor : Cursor} (ended : cursor.next? = none)
    (back : List Char) : (cursor.followedBy back).skipGap = (cursor.past back).skipGap := by
  have gap : ∀ c ∈ cursor.rest, Text.isGap c = true :=
    List.dropWhile_eq_nil_iff.mp (cursor.next?_eq_none_iff.mp ended)
  simp only [skipGap, followedBy, past, mk.injEq, true_and]
  rw [List.takeWhile_append_of_pos gap, List.dropWhile_append_of_pos gap, Text.size_append]
  exact ⟨by omega, rfl⟩

theorem skipGap_followedBy_of_ne_nil {cursor : Cursor} (ahead : cursor.skipGap.rest ≠ [])
    (back : List Char) : (cursor.followedBy back).skipGap = cursor.skipGap.followedBy back := by
  have ⟨take_eq, drop_eq⟩ := takeWhile_append_of_stops Text.isGap cursor.rest back
    fun empty => (ahead empty).elim
  simp only [skipGap, followedBy, take_eq, drop_eq]

theorem next?_congr {first second : Cursor} (same : first.skipGap = second.skipGap) :
    first.next? = second.next? := by
  unfold next?
  rw [same]

theorem drain_congr {first second : Cursor} (same : first.skipGap = second.skipGap) :
    first.tokens = second.tokens ∧ first.finish = second.finish := by
  have step := next?_congr same
  cases drawn : second.next? with
  | none =>
      rw [drawn] at step
      rw [tokens_of_none step, tokens_of_none drawn, finish_of_none step, finish_of_none drawn]
      exact ⟨rfl, same⟩
  | some pair =>
      rw [drawn] at step
      rw [tokens_of_some step, tokens_of_some drawn, finish_of_some step, finish_of_some drawn]
      exact ⟨rfl, rfl⟩

/-- A token that does not reach the end of the text, or that does not take in the character behind
it, is drawn from every longer text. -/
theorem next?_followedBy {cursor after : Cursor} {token : Token} (back : List Char)
    (step : cursor.next? = some (token, after))
    (held : after.rest = [] → ∀ c ∈ back.head?, token.kind.takes c = false) :
    (cursor.followedBy back).next? = some (token, after.followedBy back) := by
  obtain ⟨first, rest, ahead, rfl, rfl⟩ := (cursor.next?_eq_some_iff token after).mp step
  have gap_eq : (cursor.followedBy back).skipGap = cursor.skipGap.followedBy back :=
    skipGap_followedBy_of_ne_nil (by simp [ahead]) back
  have read_eq := Lexeme.read_append first rest back held
  refine ((cursor.followedBy back).next?_eq_some_iff _ _).mpr ⟨first, rest ++ back, ?_, ?_, ?_⟩
  · rw [gap_eq, followedBy, ahead]
    rfl
  · rw [gap_eq, read_eq]
    rfl
  · rw [gap_eq, read_eq]
    rfl

theorem rest_of_next? {cursor after : Cursor} {token : Token}
    (step : cursor.next? = some (token, after)) :
    cursor.rest = cursor.rest.takeWhile Text.isGap ++ (token.literal.toList ++ after.rest) := by
  obtain ⟨first, rest, ahead, rfl, rfl⟩ := (cursor.next?_eq_some_iff token after).mp step
  have whole := List.takeWhile_append_dropWhile (p := Text.isGap) (l := cursor.rest)
  have drop_eq : cursor.rest.dropWhile Text.isGap = first :: rest := ahead
  rw [drop_eq, ← Lexeme.read_text_append_rest first rest] at whole
  simpa [token, behind] using whole.symm

theorem past_of_next? {cursor after : Cursor} {token : Token} (back : List Char)
    (step : cursor.next? = some (token, after)) : after.past back = cursor.past back := by
  have whole := congrArg Text.size (rest_of_next? step)
  obtain ⟨first, rest, ahead, rfl, rfl⟩ := (cursor.next?_eq_some_iff token after).mp step
  simp only [Text.size_append, token, behind, String.toList_ofList] at whole
  simp only [past, behind, skipGap, mk.injEq, true_and, and_true]
  omega

theorem isGap_of_skipGap {cursor : Cursor} {first : Char} {rest : List Char}
    (ahead : cursor.skipGap.rest = first :: rest) : Text.isGap first = false := by
  have stopped := List.head?_dropWhile_not Text.isGap cursor.rest
  have drop_eq : cursor.rest.dropWhile Text.isGap = first :: rest := ahead
  rw [drop_eq] at stopped
  exact stopped

theorem isGap_getLast?_of_next? {cursor after : Cursor} {token : Token}
    (step : cursor.next? = some (token, after)) (reaches : after.rest = []) :
    ∀ c ∈ cursor.rest.getLast?, Text.isGap c = false := by
  intro c last
  obtain ⟨first, rest, ahead, rfl, rfl⟩ := (cursor.next?_eq_some_iff token after).mp step
  have solid := isGap_of_skipGap ahead
  have some_char := Lexeme.read_text_ne_nil first rest
  rw [rest_of_next? step, reaches, List.append_nil, token, String.toList_ofList,
    List.getLast?_append_of_ne_nil _ some_char] at last
  exact Lexeme.isGap_of_mem_text solid rest c (List.mem_of_getLast? last)

theorem tokens_of_rest_eq_nil {cursor : Cursor} (empty : cursor.rest = []) :
    cursor.tokens = [] := by
  apply tokens_of_none
  apply cursor.next?_eq_none_iff.mpr
  simp [skipGap, empty]

/-- The tokens of a text with more text behind it, if its last token stands before a gap or does
not take in the character behind it. -/
theorem drain_followedBy (cursor : Cursor) (back : List Char)
    (held : ∀ last ∈ cursor.tokens.getLast?, ∀ c ∈ back.head?, last.kind.takes c = true →
      ∃ gap ∈ cursor.rest.getLast?, Text.isGap gap = true) :
    (cursor.followedBy back).tokens = cursor.tokens ++ (cursor.past back).tokens ∧
      (cursor.followedBy back).finish = (cursor.past back).finish := by
  induction cursor using Cursor.induction with
  | ended cursor step =>
      rw [tokens_of_none step, List.nil_append]
      exact drain_congr (skipGap_followedBy_of_none step back)
  | drawn cursor token after step ih =>
      rw [tokens_of_some step] at held ⊢
      have stays : after.rest = [] → ∀ c ∈ back.head?, token.kind.takes c = false := by
        intro reaches c head
        by_contra taken
        have ended := tokens_of_rest_eq_nil reaches
        obtain ⟨gap, last, isGap⟩ := held token (by simp [ended]) c head (by simpa using taken)
        rw [isGap_getLast?_of_next? step reaches gap last] at isGap
        contradiction
      have later : ∀ last ∈ after.tokens.getLast?, ∀ c ∈ back.head?, last.kind.takes c = true →
          ∃ gap ∈ after.rest.getLast?, Text.isGap gap = true := by
        intro last is_last c head taken
        have more : after.rest ≠ [] := by
          intro reaches
          simp [tokens_of_rest_eq_nil reaches] at is_last
        have same : cursor.rest.getLast? = after.rest.getLast? := by
          rw [rest_of_next? step, ← List.append_assoc, List.getLast?_append_of_ne_nil _ more]
        rw [← same]
        exact held last (by simp [List.getLast?_cons, Option.mem_def.mp is_last]) c head taken
      have step' := next?_followedBy back step stays
      rw [tokens_of_some step', finish_of_some step', (ih later).1, (ih later).2,
        past_of_next? back step]
      exact ⟨rfl, rfl⟩

/-- The token of a semicolon behind all the text ahead. -/
def semicolon (cursor : Cursor) : Token :=
  (cursor.past []).token ⟨.semicolon, [';'], []⟩

/-- No token takes in a semicolon, and a semicolon takes in nothing. -/
theorem drain_semicolon (cursor : Cursor) (back : List Char) :
    (cursor.followedBy (';' :: back)).tokens =
        cursor.tokens ++ cursor.semicolon :: ((cursor.followedBy [';']).past back).tokens ∧
      (cursor.followedBy (';' :: back)).finish = ((cursor.followedBy [';']).past back).finish := by
  have ⟨tokens_eq, finish_eq⟩ := cursor.drain_followedBy (';' :: back) (by simp)
  have step : (cursor.past (';' :: back)).next? =
      some (cursor.semicolon, (cursor.followedBy [';']).past back) := by
    refine ((cursor.past (';' :: back)).next?_eq_some_iff _ _).mpr ⟨';', back, rfl, rfl, ?_⟩
    have passed : (cursor.followedBy [';']).past back =
        ⟨cursor.source, cursor.offset + Text.size cursor.rest + Text.size [';'], back⟩ := by
      simp only [past, followedBy, Text.size_append, Nat.add_assoc]
    rw [passed]
    rfl
  rw [tokens_eq, finish_eq, tokens_of_some step, finish_of_some step]
  exact ⟨rfl, rfl⟩

end Cursor

end LetLang
