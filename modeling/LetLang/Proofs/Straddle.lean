import LetLang.Proofs.Lines
import LetLang.Proofs.Shift

set_option autoImplicit false

namespace LetLang

open Segmentation

/-- The ways in which one token of two texts in a row lies on both sides of the seam. -/
inductive Straddles (source front back : String) : Prop where
  | word {last first : Char} (ends : front.toList.getLast? = some last)
      (begins : back.toList.head? = some first) (inside : WordChar last) (more : WordChar first)
  | numeral {last first : Char} (ends : front.toList.getLast? = some last)
      (begins : back.toList.head? = some first) (inside : DigitChar last) (more : DigitChar first)
  | operator {token : Token} {before : List Char}
      (last : (Cursor.ofText source front).tokens.getLast? = some token)
      (reaches : token.Occurs source front before [])
      (kind : token.kind = .assign ∨ token.kind = .bang)
      (begins : back.toList.head? = some '=')

/-- Whether a token of a kind that ends with one character goes on with another one. -/
def Kind.Joins (kind : Kind) (last c : Char) : Prop :=
  (WordChar last ∧ WordChar c) ∨ (DigitChar last ∧ DigitChar c) ∨
    ((kind = .assign ∨ kind = .bang) ∧ c = '=')

namespace Kind

theorem not_joint_of_wordKind {word : String} {kind : Kind} (named : WordKind word kind) :
    ¬ (kind = .assign ∨ kind = .bang) := by
  cases named <;> decide

theorem ofSymbol_joint_iff (c : Char) :
    (ofSymbol c = .assign ∨ ofSymbol c = .bang) ↔ c = '=' ∨ c = '!' := by
  unfold ofSymbol
  split <;> simp_all

theorem joins_of_wordChar {kind : Kind} {last : Char} (letter : WordChar last)
    (other : ¬ (kind = .assign ∨ kind = .bang)) (c : Char) : kind.Joins last c ↔ WordChar c := by
  have not_digit : ¬ DigitChar last := by
    rw [← isDigit_iff]
    intro digit
    rw [← isLetter_iff, isLetter_of_isDigit digit] at letter
    cases letter
  simp only [Joins, letter, not_digit, other, true_and, false_and, or_false]

theorem joins_of_digitChar {last : Char} (digit : DigitChar last) (c : Char) :
    Kind.int.Joins last c ↔ DigitChar c := by
  have not_letter : ¬ WordChar last := by
    rw [← isLetter_iff, isLetter_of_isDigit ((isDigit_iff last).mpr digit)]
    decide
  simp [Joins, digit, not_letter]

theorem joins_of_symbol {kind : Kind} {last : Char} (not_letter : isLetter last = false)
    (not_digit : last.isDigit = false) (c : Char) :
    kind.Joins last c ↔ (kind = .assign ∨ kind = .bang) ∧ c = '=' := by
  simp [Joins, ← isLetter_iff, ← isDigit_iff, not_letter, not_digit]

end Kind

namespace Lexeme

theorem readSymbol_takes_iff {first last : Char} {rest : List Char}
    (not_letter : isLetter first = false) (not_digit : first.isDigit = false)
    (ends : (readSymbol first rest).text.getLast? = some last) (c : Char) :
    (readSymbol first rest).kind.takes c = true ↔ (readSymbol first rest).kind.Joins last c := by
  unfold readSymbol at ends ⊢
  split at ends
  · cases ends
    rw [Kind.joins_of_symbol rfl rfl]
    simp [Kind.takes]
  · cases ends
    rw [Kind.joins_of_symbol rfl rfl]
    simp [Kind.takes]
  · obtain rfl : first = last := by simpa using ends
    rw [Kind.joins_of_symbol not_letter not_digit, Kind.takes_ofSymbol_iff, Kind.ofSymbol_joint_iff]

/-- What a lexeme takes in, by its kind and its last character. -/
theorem read_takes_iff {first last : Char} {rest : List Char}
    (ends : (read first rest).text.getLast? = some last) (c : Char) :
    (read first rest).kind.takes c = true ↔ (read first rest).kind.Joins last c := by
  have member := List.mem_of_getLast? ends
  by_cases letter : isLetter first = true
  · simp only [read, letter, ↓reduceIte] at member ⊢
    have inside := all_takeWhile isLetter_iff letter rest last member
    rw [Kind.takes_ofWord, isLetter_iff,
      Kind.joins_of_wordChar inside (Kind.not_joint_of_wordKind (wordKind_ofWord _))]
  · by_cases digit : first.isDigit = true
    · simp only [read, letter, digit, ↓reduceIte, Bool.false_eq_true] at member ⊢
      have inside := all_takeWhile isDigit_iff digit rest last member
      rw [Kind.takes, isDigit_iff, Kind.joins_of_digitChar inside]
    · simp only [read, letter, digit, ↓reduceIte, Bool.false_eq_true] at ends ⊢
      exact readSymbol_takes_iff (by simpa using letter) (by simpa using digit) ends c

theorem readSymbol_text_ne_of_takes {first c : Char} {rest : List Char}
    (reaches : (readSymbol first rest).rest = [])
    (takes : (readSymbol first rest).kind.takes c = true) (later : List Char) :
    (readSymbol first (rest ++ c :: later)).text ≠ (readSymbol first rest).text := by
  cases rest with
  | nil =>
      rw [readSymbol_nil] at takes ⊢
      obtain ⟨rfl | rfl, rfl⟩ := (Kind.takes_ofSymbol_iff first c).mp takes
      · simp [readSymbol]
      · simp [readSymbol]
  | cons second rest =>
      cases taken : (Kind.ofSymbol first).takes second with
      | false =>
          rw [readSymbol_cons first second rest taken] at reaches
          cases reaches
      | true =>
          obtain ⟨rfl | rfl, rfl⟩ := (Kind.takes_ofSymbol_iff first second).mp taken
          · cases takes
          · cases takes

theorem takeWhile_append_ne {inside : Char → Bool} {run : List Char} {c : Char}
    (reaches : run.dropWhile inside = []) (taken : inside c = true) (later : List Char) :
    (run ++ c :: later).takeWhile inside ≠ run.takeWhile inside := by
  have all := List.dropWhile_eq_nil_iff.mp reaches
  rw [List.takeWhile_append_of_pos all, List.takeWhile_eq_self_iff.mpr all,
    List.takeWhile_cons_of_pos taken]
  simp

/-- A lexeme that reaches the end of its text and takes in the character behind it is not what is
read from the longer text. -/
theorem read_text_ne_of_takes {first c : Char} {rest : List Char}
    (reaches : (read first rest).rest = []) (takes : (read first rest).kind.takes c = true)
    (later : List Char) :
    (read first (rest ++ c :: later)).text ≠ (read first rest).text := by
  by_cases letter : isLetter first = true
  · simp only [read, letter, ↓reduceIte, Kind.takes_ofWord] at reaches takes ⊢
    simpa using takeWhile_append_ne reaches takes later
  · by_cases digit : first.isDigit = true
    · simp only [read, letter, digit, ↓reduceIte, Kind.takes, Bool.false_eq_true] at reaches takes ⊢
      simpa using takeWhile_append_ne reaches takes later
    · simp only [read, letter, digit, ↓reduceIte, Bool.false_eq_true] at reaches takes ⊢
      exact readSymbol_text_ne_of_takes reaches takes later

end Lexeme

namespace Cursor

/-- A token that reaches the end of its text and takes in the character behind it is not drawn from
the longer text. -/
theorem next?_followedBy_of_takes {cursor after : Cursor} {token : Token} {c : Char}
    (step : cursor.next? = some (token, after)) (reaches : after.rest = [])
    (takes : token.kind.takes c = true) (later : List Char) :
    ∃ longer behind, (cursor.followedBy (c :: later)).next? = some (longer, behind) ∧
      longer ≠ token := by
  obtain ⟨first, rest, ahead, rfl, rfl⟩ := (cursor.next?_eq_some_iff token after).mp step
  have gap_eq : (cursor.followedBy (c :: later)).skipGap = cursor.skipGap.followedBy (c :: later) :=
    skipGap_followedBy_of_ne_nil (by simp [ahead]) _
  have ahead' : (cursor.followedBy (c :: later)).skipGap.rest = first :: (rest ++ c :: later) := by
    rw [gap_eq, followedBy, ahead]
    rfl
  refine ⟨_, _, ((cursor.followedBy (c :: later)).next?_eq_some_iff _ _).mpr
    ⟨first, _, ahead', rfl, rfl⟩, ?_⟩
  intro same
  apply Lexeme.read_text_ne_of_takes reaches takes later
  exact String.ofList_injective (congrArg Token.literal same)

theorem isGap_of_tokens_eq_nil {cursor : Cursor} (none_left : cursor.tokens = []) :
    ∀ c ∈ cursor.rest, Text.isGap c = true := by
  cases step : cursor.next? with
  | none => exact List.dropWhile_eq_nil_iff.mp (cursor.next?_eq_none_iff.mp step)
  | some pair =>
      rw [tokens_of_some step] at none_left
      cases none_left

theorem getLast?_rest_of_next? {cursor after : Cursor} {token : Token}
    (step : cursor.next? = some (token, after)) (more : after.rest ≠ []) :
    cursor.rest.getLast? = after.rest.getLast? := by
  rw [rest_of_next? step, ← List.append_assoc, List.getLast?_append_of_ne_nil _ more]

theorem rest_eq_nil_of_last {cursor after : Cursor} {token : Token} {c : Char}
    (step : cursor.next? = some (token, after)) (none_left : after.tokens = [])
    (last : cursor.rest.getLast? = some c) (solid : Text.isGap c = false) : after.rest = [] := by
  by_contra more
  rw [getLast?_rest_of_next? step more] at last
  have gap := isGap_of_tokens_eq_nil none_left c (List.mem_of_getLast? last)
  rw [solid] at gap
  cases gap

/-- If the last token of a text takes in the character behind it, the tokens of the longer text do
not begin with those of the text. -/
theorem tokens_followedBy_ne {cursor : Cursor} {token : Token} {c d : Char}
    (is_last : cursor.tokens.getLast? = some token) (ends : cursor.rest.getLast? = some d)
    (solid : Text.isGap d = false) (takes : token.kind.takes c = true)
    (later : List Char) (others : List Token) :
    (cursor.followedBy (c :: later)).tokens ≠ cursor.tokens ++ others := by
  induction cursor using Cursor.induction with
  | ended cursor step => simp [tokens_of_none step] at is_last
  | drawn cursor first after step ih =>
      rw [tokens_of_some step] at is_last ⊢
      -- Only the last token can change; the ones in front of it are drawn as before.
      by_cases none_left : after.tokens = []
      · rw [none_left] at is_last
        cases is_last
        obtain ⟨longer, behind, step', apart⟩ := next?_followedBy_of_takes step
          (rest_eq_nil_of_last step none_left ends solid) takes later
        rw [tokens_of_some step']
        intro same
        exact apart (List.cons.inj same).1
      · have more : after.rest ≠ [] := fun empty => none_left (tokens_of_rest_eq_nil empty)
        have step' := next?_followedBy (c :: later) step fun reaches => (more reaches).elim
        rw [getLast?_rest_of_next? step more] at ends
        rw [List.getLast?_cons_of_ne_nil none_left] at is_last
        rw [tokens_of_some step']
        intro same
        exact ih is_last ends (List.cons.inj same).2

theorem takes_iff_of_next? {cursor after : Cursor} {token : Token} {d : Char}
    (step : cursor.next? = some (token, after)) (reaches : after.rest = [])
    (ends : cursor.rest.getLast? = some d) (c : Char) :
    token.kind.takes c = true ↔ token.kind.Joins d c := by
  have some_char := (places_of_next? step).2.2.2
  rw [rest_of_next? step, reaches, List.append_nil,
    List.getLast?_append_of_ne_nil _ some_char] at ends
  obtain ⟨first, rest, _, rfl, rfl⟩ := (cursor.next?_eq_some_iff token after).mp step
  exact Lexeme.read_takes_iff (by simpa [Cursor.token] using ends) c

/-- A text that does not end with a gap ends with its last token. -/
theorem Within.exists_last {text : String} {cursor : Cursor} (within : cursor.Within text) {d : Char}
    (ends : cursor.rest.getLast? = some d) (solid : Text.isGap d = false) :
    ∃ token before, cursor.tokens.getLast? = some token ∧
      token.Occurs cursor.source text before [] ∧
      ∀ c, token.kind.takes c = true ↔ token.kind.Joins d c := by
  induction cursor using Cursor.induction with
  | ended cursor step =>
      have gap := isGap_of_tokens_eq_nil (tokens_of_none step) d (List.mem_of_getLast? ends)
      rw [solid] at gap
      cases gap
  | drawn cursor first after step ih =>
      rw [tokens_of_some step]
      by_cases none_left : after.tokens = []
      · have reaches := rest_eq_nil_of_last step none_left ends solid
        obtain ⟨before, occurs⟩ := within.occurs_next? step
        rw [reaches] at occurs
        exact ⟨first, before, by rw [none_left]; rfl, occurs, takes_iff_of_next? step reaches ends⟩
      · have more : after.rest ≠ [] := fun empty => none_left (tokens_of_rest_eq_nil empty)
        rw [getLast?_rest_of_next? step more] at ends
        obtain ⟨token, before, is_last, occurs, takes_iff⟩ := ih (within.next? step) ends
        rw [(places_of_next? step).2.1] at occurs
        refine ⟨token, before, ?_, occurs, takes_iff⟩
        rw [List.getLast?_cons_of_ne_nil none_left, is_last]

theorem literal_ne_nil {cursor : Cursor} {token : Token} (member : token ∈ cursor.tokens) :
    token.literal.toList ≠ [] := by
  induction cursor using Cursor.induction with
  | ended cursor step => simp [tokens_of_none step] at member
  | drawn cursor first after step ih =>
      rw [tokens_of_some step] at member
      rcases List.mem_cons.mp member with rfl | later
      · exact (places_of_next? step).2.2.2
      · exact ih later

theorem ofText_append (source front back : String) :
    ofText source (front ++ back) = (ofText source front).followedBy back.toList := by
  simp [ofText, followedBy]

theorem past_ofText (source front back : String) :
    (ofText source front).past back.toList = (ofText source back).shift front.utf8ByteSize := by
  simp [ofText, past, shift]

end Cursor

namespace Straddles

variable {source front back : String}

/-- A token that lies on both sides of the seam leaves no gap in front of it. -/
theorem exists_ends (straddles : Straddles source front back) :
    ∃ d c, front.toList.getLast? = some d ∧ back.toList.head? = some c ∧ Text.isGap d = false := by
  cases straddles with
  | word ends begins inside _ =>
      refine ⟨_, _, ends, begins, ?_⟩
      by_contra gap
      rw [← isLetter_iff, (Lexeme.not_letter_of_isGap (by simpa using gap)).1] at inside
      cases inside
  | numeral ends begins inside _ =>
      refine ⟨_, _, ends, begins, ?_⟩
      by_contra gap
      rw [← isDigit_iff, (Lexeme.not_letter_of_isGap (by simpa using gap)).2] at inside
      cases inside
  | @operator token before is_last reaches _ begins =>
      have some_char := Cursor.literal_ne_nil (List.mem_of_getLast? is_last)
      have ends : front.toList.getLast? = some (token.literal.toList.getLast some_char) := by
        rw [reaches.whole, List.append_nil, List.getLast?_append_of_ne_nil _ some_char,
          List.getLast?_eq_some_getLast some_char]
      exact ⟨_, _, ends, begins, reaches.solid _ (List.getLast_mem some_char)⟩

theorem iff_joins {d c : Char} {token : Token} {before : List Char}
    (ends : front.toList.getLast? = some d) (begins : back.toList.head? = some c)
    (is_last : (Cursor.ofText source front).tokens.getLast? = some token)
    (reaches : token.Occurs source front before []) :
    Straddles source front back ↔ token.kind.Joins d c := by
  constructor
  · intro straddles
    cases straddles with
    | word ends' begins' inside more =>
        rw [ends] at ends'
        rw [begins] at begins'
        cases ends'
        cases begins'
        exact .inl ⟨inside, more⟩
    | numeral ends' begins' inside more =>
        rw [ends] at ends'
        rw [begins] at begins'
        cases ends'
        cases begins'
        exact .inr (.inl ⟨inside, more⟩)
    | operator is_last' _ kind begins' =>
        rw [is_last] at is_last'
        rw [begins] at begins'
        cases is_last'
        cases begins'
        exact .inr (.inr ⟨kind, rfl⟩)
  · rintro (⟨inside, more⟩ | ⟨inside, more⟩ | ⟨kind, rfl⟩)
    · exact .word ends begins inside more
    · exact .numeral ends begins inside more
    · exact .operator is_last reaches kind begins

end Straddles

/-- The tokens of two texts in a row are those of the first and then those of the second, as many
bytes further on as the first has, exactly if no token lies on both sides of the seam. -/
theorem tokens_append_iff (source front back : String) :
    (Cursor.ofText source (front ++ back)).tokens =
        (Cursor.ofText source front).tokens ++
          (Cursor.ofText source back).tokens.map (Token.shift front.utf8ByteSize) ↔
      ¬ Straddles source front back := by
  have within := Cursor.within_ofText source front
  rw [Cursor.ofText_append, ← (Cursor.drain_shift _ _).1, ← Cursor.past_ofText]
  constructor
  · intro same straddles
    obtain ⟨d, c, ends, begins, solid⟩ := straddles.exists_ends
    obtain ⟨token, before, is_last, occurs, takes_iff⟩ := within.exists_last ends solid
    have takes := (takes_iff c).mpr ((Straddles.iff_joins ends begins is_last occurs).mp straddles)
    obtain ⟨later, back_eq⟩ := List.head?_eq_some_iff.mp begins
    rw [back_eq] at same
    exact Cursor.tokens_followedBy_ne is_last ends solid takes later _ same
  · intro apart
    refine (Cursor.drain_followedBy _ _ ?_).1
    intro token is_last c begins takes
    -- Without a gap behind it the last token reaches the seam, so that it would straddle it.
    cases ends : front.toList.getLast? with
    | none =>
        have empty : (Cursor.ofText source front).rest = [] := List.getLast?_eq_none_iff.mp ends
        rw [Cursor.tokens_of_rest_eq_nil empty] at is_last
        cases is_last
    | some d =>
        refine ⟨d, ends, ?_⟩
        by_contra gap
        obtain ⟨token', before, is_last', occurs, takes_iff⟩ :=
          within.exists_last ends (by simpa using gap)
        obtain rfl : token' = token := Option.some.inj (is_last'.symm.trans is_last)
        exact apart ((Straddles.iff_joins ends begins is_last' occurs).mpr ((takes_iff c).mp takes))

end LetLang
