import LetLang.Proofs.Pieces
import LetLang.Source.Line
import Mathlib.Data.List.DropRight

set_option autoImplicit false

namespace LetLang

namespace Line

def first (text : List Char) : List Char :=
  text.takeWhile continues ++ (text.dropWhile continues).take 1

/-- What stands behind the last line feed of a text. -/
def opened (text : List Char) : List Char :=
  text.rtakeWhile continues

@[simp] theorem continues_iff (c : Char) : continues c = true ↔ c ≠ '\n' := by
  simp [continues]

theorem feed_not_mem {text : List Char} (inside : ∀ c ∈ text, continues c = true) :
    '\n' ∉ text :=
  fun member => (continues_iff _).mp (inside _ member) rfl

/-- A text has no line feed, or a first one and a shorter text behind that. -/
theorem feed_induction {motive : List Char → Prop}
    (unfed : ∀ text, (∀ c ∈ text, continues c = true) → motive text)
    (fed : ∀ body rest, (∀ c ∈ body, continues c = true) → motive rest →
      motive (body ++ '\n' :: rest))
    (text : List Char) : motive text := by
  induction text using cutAfter_induction (fun c => !continues c) with
  | unmarked text inside => exact unfed text (by simpa using inside)
  | marked body mark rest inside marks ih =>
      obtain rfl : mark = '\n' := by simpa [continues] using marks
      exact fed body rest (by simpa using inside) ih

theorem first_of_unfed {text : List Char} (inside : ∀ c ∈ text, continues c = true) :
    first text = text := by
  rw [first, List.takeWhile_eq_self_iff.mpr inside, List.dropWhile_eq_nil_iff.mpr inside]
  simp

theorem first_of_feed {body : List Char} (inside : ∀ c ∈ body, continues c = true)
    (rest : List Char) : first (body ++ '\n' :: rest) = body ++ ['\n'] := by
  rw [first, List.takeWhile_append_of_pos inside, List.dropWhile_append_of_pos inside]
  simp [continues]

theorem first_append {front : List Char} (inside : ∀ c ∈ front, continues c = true)
    (rest : List Char) : first (front ++ rest) = front ++ first rest := by
  rw [first, List.takeWhile_append_of_pos inside, List.dropWhile_append_of_pos inside,
    List.append_assoc]
  rfl

theorem opened_of_unfed {text : List Char} (inside : ∀ c ∈ text, continues c = true) :
    opened text = text :=
  List.rtakeWhile_eq_self_iff.mpr inside

theorem opened_of_feed (body rest : List Char) : opened (body ++ '\n' :: rest) = opened rest := by
  have stopped : ∀ c ∈ ('\n' :: body.reverse).head?, continues c = false := by simp [continues]
  have ⟨take_eq, _⟩ :=
    takeWhile_append_of_stops continues rest.reverse ('\n' :: body.reverse) fun _ => stopped
  rw [opened, opened, List.rtakeWhile, List.rtakeWhile]
  simp [take_eq]

theorem opened_intercalate {last : List Char} (inside : ∀ c ∈ last, continues c = true)
    (rows : List (List Char)) : opened (['\n'].intercalate (rows ++ [last])) = last := by
  induction rows with
  | nil => rw [List.nil_append, List.intercalate_singleton, opened_of_unfed inside]
  | cons row rows ih =>
      rw [List.cons_append, List.intercalate_cons_of_ne_nil (by simp), List.append_assoc,
        List.singleton_append, opened_of_feed, ih]

theorem find_of_unfed {text : List Char} (inside : ∀ c ∈ text, continues c = true)
    (number offset : Nat) :
    find number text offset = ⟨number, String.ofList text, min offset (Text.size text)⟩ := by
  rw [find]
  split
  · rw [List.takeWhile_eq_self_iff.mpr inside]
  · rename_i feed rest ending
    rw [List.dropWhile_eq_nil_iff.mpr inside] at ending
    cases ending

theorem find_of_feed {body : List Char} (inside : ∀ c ∈ body, continues c = true)
    (rest : List Char) (number offset : Nat) :
    find number (body ++ '\n' :: rest) offset =
      if offset < Text.size (body ++ ['\n']) then ⟨number, String.ofList (body ++ ['\n']), offset⟩
      else find (number + 1) rest (offset - Text.size (body ++ ['\n'])) := by
  have taken : (body ++ '\n' :: rest).takeWhile continues = body := by
    rw [List.takeWhile_append_of_pos inside]
    simp [continues]
  have dropped : (body ++ '\n' :: rest).dropWhile continues = '\n' :: rest := by
    rw [List.dropWhile_append_of_pos inside]
    simp [continues]
  rw [find]
  split
  · rename_i ending
    rw [dropped] at ending
    cases ending
  · rename_i feed tail ending
    rw [dropped] at ending
    cases ending
    rw [taken]

/-- The line at an offset between two characters, and the place of the offset in it. -/
theorem find_append (number : Nat) (front rest : List Char) :
    find number (front ++ rest) (Text.size front) =
      ⟨number + front.count '\n', String.ofList (opened front ++ first rest),
        Text.size (opened front)⟩ := by
  induction front using feed_induction generalizing number with
  | unfed front inside =>
      have none_before : front.count '\n' = 0 := List.count_eq_zero.mpr (feed_not_mem inside)
      rw [opened_of_unfed inside, none_before, Nat.add_zero]
      induction rest using feed_induction with
      | unfed rest inside' =>
          have all : ∀ c ∈ front ++ rest, continues c = true :=
            List.forall_mem_append.mpr ⟨inside, inside'⟩
          rw [find_of_unfed all, first_of_unfed inside', Text.size_append,
            Nat.min_eq_left (Nat.le_add_right _ _)]
      | fed body later inside' _ =>
          have all : ∀ c ∈ front ++ body, continues c = true :=
            List.forall_mem_append.mpr ⟨inside, inside'⟩
          have before : Text.size front < Text.size (front ++ body ++ ['\n']) := by
            have feed := Text.size_pos ['\n'] (by simp)
            rw [Text.size_append, Text.size_append]
            omega
          rw [← List.append_assoc, find_of_feed all, if_pos before, first_of_feed inside',
            List.append_assoc]
  | fed body front inside ih =>
      have none_before : body.count '\n' = 0 := List.count_eq_zero.mpr (feed_not_mem inside)
      have size_eq : Text.size (body ++ '\n' :: front) =
          Text.size (body ++ ['\n']) + Text.size front := by
        rw [← Text.size_append, List.append_assoc, List.singleton_append]
      have behind : ¬ Text.size (body ++ '\n' :: front) < Text.size (body ++ ['\n']) := by omega
      rw [List.append_assoc, List.cons_append, find_of_feed inside, if_neg behind, size_eq,
        Nat.add_sub_cancel_left, ih, opened_of_feed, List.count_append, List.count_cons_self,
        none_before]
      simp only [mk.injEq, and_true]
      omega

/-- A line has a line feed at its end only. -/
theorem exists_feed_of_find (number : Nat) (text : List Char) (offset : Nat) :
    ∃ body, (∀ c ∈ body, continues c = true) ∧
      ((find number text offset).text.toList = body ∨
        (find number text offset).text.toList = body ++ ['\n']) := by
  induction text using feed_induction generalizing number offset with
  | unfed text inside => exact ⟨text, inside, .inl (by simp [find_of_unfed inside])⟩
  | fed body rest inside ih =>
      rw [find_of_feed inside]
      split
      · exact ⟨body, inside, .inr (by simp)⟩
      · exact ih _ _

end Line

/-- A token at its place in a text, between what stands before and behind it. No gap is inside it,
and only the end token is empty. -/
structure Token.Occurs (source text : String) (token : Token) (front back : List Char) : Prop where
  whole : text.toList = front ++ (token.literal.toList ++ back)
  start_eq : token.start = .at source (Text.size front)
  solid : ∀ c ∈ token.literal.toList, Text.isGap c = false
  at_end : token.literal.toList = [] → back = []
  empty : token.kind = .eof → token.literal.toList = []

namespace Cursor

/-- The token that is drawn next stands behind the gap. -/
theorem Within.occurs_next? {text : String} {cursor after : Cursor} {token : Token}
    (within : cursor.Within text) (step : cursor.next? = some (token, after)) :
    ∃ front, token.Occurs cursor.source text front after.rest := by
  obtain ⟨front, whole, offset_eq⟩ := within
  obtain ⟨span_eq, _, _, some_char⟩ := places_of_next? step
  rw [rest_of_next? step, ← List.append_assoc] at whole
  refine ⟨_, whole, ?_, ?_, fun empty => (some_char empty).elim, ?_⟩
  · rw [Token.start, span_eq, Text.size_append, offset_eq]
  · obtain ⟨first, rest, ahead, rfl, _⟩ := (cursor.next?_eq_some_iff token after).mp step
    simpa [Cursor.token] using Lexeme.isGap_of_mem_text (isGap_of_skipGap ahead) rest
  · intro kind
    obtain ⟨first, rest, ahead, rfl, _⟩ := (cursor.next?_eq_some_iff token after).mp step
    exact ((Segmentation.lexes_read (isGap_of_skipGap ahead) rest).kind_ne_eof kind).elim

theorem Within.occurs {text : String} {cursor : Cursor} (within : cursor.Within text)
    {token : Token} (member : token ∈ cursor.tokens) :
    ∃ front back, token.Occurs cursor.source text front back := by
  induction cursor using Cursor.induction with
  | ended cursor step => simp [tokens_of_none step] at member
  | drawn cursor first after step ih =>
      rw [tokens_of_some step] at member
      rcases List.mem_cons.mp member with rfl | later
      · obtain ⟨front, occurs⟩ := within.occurs_next? step
        exact ⟨front, after.rest, occurs⟩
      · have found := ih (within.next? step) later
        rwa [(places_of_next? step).2.1] at found

end Cursor

/-- Each token of a text occurs in it, the end token behind everything. -/
theorem occurs_of_mem_tokenize {source text : String} {token : Token}
    (member : token ∈ tokenize source text) :
    ∃ front back, token.Occurs source text front back := by
  have within := Cursor.within_ofText source text
  rcases List.mem_append.mp member with drawn | stop
  · exact within.occurs drawn
  · obtain ⟨_, _, _, _, _, _, source_eq, offset_eq⟩ := (Cursor.ofText source text).tiles within
    rw [List.mem_singleton.mp stop]
    refine ⟨text.toList, [], by simp [Cursor.endToken], ?_, by simp [Cursor.endToken],
      fun _ => rfl, fun _ => rfl⟩
    rw [Text.size_toList, Token.start, Cursor.endToken, source_eq, offset_eq]
    rfl

namespace Token.Occurs

variable {source text : String} {token : Token} {front back : List Char}

/-- A token is on one line. -/
theorem continues (occurs : token.Occurs source text front back) :
    ∀ c ∈ token.literal.toList, Line.continues c = true := by
  intro c member
  rw [Line.continues_iff]
  rintro rfl
  exact absurd (occurs.solid _ member) (by decide)

/-- The line of a token's first character shows the token behind what is open before it. -/
theorem line_eq (occurs : token.Occurs source text front back)
    (short : text.utf8ByteSize < 2 ^ 32) :
    Line.at text token.start.offset =
      ⟨1 + front.count '\n',
        String.ofList (Line.opened front ++ (token.literal.toList ++ Line.first back)),
        Text.size (Line.opened front)⟩ := by
  have bound : Text.size front < UInt32.size := by
    have whole := congrArg Text.size occurs.whole
    rw [Text.size_toList, Text.size_append] at whole
    exact Nat.lt_of_le_of_lt (by omega) short
  rw [Line.at, occurs.start_eq, Position.at_offset, Nat.mod_eq_of_lt bound, occurs.whole,
    Line.find_append, Line.first_append occurs.continues]

end Token.Occurs

end LetLang
