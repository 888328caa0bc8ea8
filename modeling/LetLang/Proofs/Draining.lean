import LetLang.Proofs.Draws
import LetLang.Proofs.Tiling
import LetLang.Token.Reader

set_option autoImplicit false

namespace LetLang

namespace Cursor

theorem drop_add (first second : Nat) (cursor : Cursor) :
    drop (first + second) cursor = drop second (drop first cursor) := by
  induction first generalizing cursor with
  | zero => rw [Nat.zero_add, drop]
  | succ first ih => rw [Nat.succ_add, drop, drop, ih]

theorem drop_succ (count : Nat) (cursor : Cursor) :
    drop (count + 1) cursor = (drop count cursor).next.2 := by
  rw [drop_add, drop, drop]

theorem next_finish (cursor : Cursor) :
    cursor.finish.next = (cursor.finish.endToken, cursor.finish) := by
  induction cursor using Cursor.induction with
  | ended cursor step =>
      have again : cursor.skipGap.next? = none := by
        rw [next?_congr cursor.skipGap_skipGap, step]
      rw [finish_of_none step, next_of_none again, skipGap_skipGap]
  | drawn cursor token after step ih =>
      rw [finish_of_some step]
      exact ih

theorem drop_finish (count : Nat) (cursor : Cursor) : drop count cursor.finish = cursor.finish := by
  induction count with
  | zero => rfl
  | succ count ih => rw [drop, next_finish, ih]

/-- One draw more than there are tokens reaches the end. -/
theorem drop_length_succ (cursor : Cursor) :
    drop (cursor.tokens.length + 1) cursor = cursor.finish := by
  induction cursor using Cursor.induction with
  | ended cursor step =>
      rw [tokens_of_none step, finish_of_none step, drop_succ]
      show cursor.next.2 = cursor.skipGap
      rw [next_of_none step]
  | drawn cursor token after step ih =>
      rw [tokens_of_some step, finish_of_some step, List.length_cons, drop, next_of_some step]
      exact ih

theorem drop_of_length_lt {cursor : Cursor} {count : Nat} (past : cursor.tokens.length < count) :
    drop count cursor = cursor.finish := by
  obtain ⟨more, rfl⟩ : ∃ more, count = cursor.tokens.length + 1 + more :=
    ⟨count - (cursor.tokens.length + 1), by omega⟩
  rw [drop_add, drop_length_succ, drop_finish]

theorem fst_next_eq_current (cursor : Cursor) :
    cursor.next.1 = (Window.ofCursor cursor).current := by
  cases step : cursor.next? with
  | none =>
      rw [next_of_none step, Window.ofCursor, tokens_of_none step, finish_of_none step]
      rfl
  | some pair =>
      rw [next_of_some step, Window.ofCursor, tokens_of_some step]
      rfl

theorem next_drop (source text : String) (count : Nat) :
    (drop count (.ofText source text)).next =
      (tokenAt source text count, drop (count + 1) (.ofText source text)) := by
  apply Prod.ext
  · rw [fst_next_eq_current, Window.ofCursor_drop, Window.current_atIndex]
  · rw [drop_succ]

theorem kind_ne_eof_of_next? {cursor after : Cursor} {token : Token}
    (step : cursor.next? = some (token, after)) : token.kind ≠ .eof := by
  obtain ⟨first, rest, ahead, rfl, _⟩ := (cursor.next?_eq_some_iff token after).mp step
  exact (Segmentation.lexes_read (isGap_of_skipGap ahead) rest).kind_ne_eof

theorem offset_lt_of_next? {cursor after : Cursor} {token : Token}
    (step : cursor.next? = some (token, after)) : cursor.offset < after.offset := by
  have ⟨_, _, after_eq, some_char⟩ := places_of_next? step
  have some_byte := Text.size_pos _ some_char
  omega

theorem offset_add_length_le (cursor : Cursor) :
    cursor.offset + cursor.tokens.length ≤ cursor.finish.offset := by
  induction cursor using Cursor.induction with
  | ended cursor step =>
      rw [tokens_of_none step, finish_of_none step]
      show cursor.offset + 0 ≤ cursor.offset + _
      omega
  | drawn cursor token after step ih =>
      have moved := offset_lt_of_next? step
      rw [tokens_of_some step, finish_of_some step, List.length_cons]
      omega

theorem length_tokens_le (source text : String) :
    (ofText source text).tokens.length ≤ text.utf8ByteSize := by
  have ⟨_, _, _, _, _, _, _, offset_eq⟩ :=
    (ofText source text).tiles (within_ofText source text)
  have bound := (ofText source text).offset_add_length_le
  omega

end Cursor

theorem length_tokenize (source text : String) :
    (tokenize source text).length = (Cursor.ofText source text).tokens.length + 1 := by
  rw [tokenize, Cursor.allTokens, List.length_append, List.length_singleton]

theorem dropLast_tokenize (source text : String) :
    (tokenize source text).dropLast = (Cursor.ofText source text).tokens := by
  rw [tokenize, Cursor.allTokens, List.dropLast_concat]

theorem tokenAt_length (source text : String) :
    tokenAt source text (Cursor.ofText source text).tokens.length =
      (Cursor.ofText source text).finish.endToken := by
  rw [tokenAt, List.getD_eq_getElem?_getD, tokenize, Cursor.allTokens, List.getElem?_concat_length]
  rfl

theorem getElem?_min_tokenize (source text : String) (index : Nat) :
    (tokenize source text)[min index (Cursor.ofText source text).tokens.length]? =
      some (tokenAt source text index) := by
  have length_eq := length_tokenize source text
  by_cases inside : index ≤ (Cursor.ofText source text).tokens.length
  · rw [Nat.min_eq_left inside, tokenAt, List.getD_eq_getElem?_getD,
      List.getElem?_eq_getElem (by omega)]
    rfl
  · have beyond : (tokenize source text)[index]? = none := List.getElem?_eq_none (by omega)
    rw [Nat.min_eq_right (by omega), tokenAt, List.getD_eq_getElem?_getD, beyond]
    exact List.getElem?_concat_length

namespace Reader

/-- What can be done with a row of readers: ask the one in a slot, or put a copy of it behind the
others. -/
inductive Call where
  | ask (slot : Nat) (request : Request)
  | copy (slot : Nat)
deriving DecidableEq, Repr

section Rows

variable {σ τ : Type} (answer : σ → Request → Reply × σ)

/-- Carries out a call on a row of whatever answers requests. Nothing happens at an empty slot. -/
def call (row : List σ) : Call → Option Reply × List σ
  | .ask slot request =>
      match row[slot]? with
      | none => (none, row)
      | some state => (some (answer state request).1, row.set slot (answer state request).2)
  | .copy slot => (none, row ++ row[slot]?.toList)

def calls (row : List σ) : List Call → List (Option Reply) × List σ
  | [] => ([], row)
  | first :: later =>
      let (reply, after) := call answer row first
      let (replies, last) := calls after later
      (reply :: replies, last)

variable {answer} {answer' : τ → Request → Reply × τ} {f : τ → σ}

theorem call_map (commutes : ∀ state request,
      answer (f state) request = ((answer' state request).1, f (answer' state request).2))
    (row : List τ) (made : Call) :
    call answer (row.map f) made = ((call answer' row made).1, (call answer' row made).2.map f) := by
  cases made with
  | ask slot request =>
      rw [call, call, List.getElem?_map]
      cases row[slot]? with
      | none => rfl
      | some state => simp only [Option.map_some, commutes, List.map_set]
  | copy slot =>
      rw [call, call, List.getElem?_map, List.map_append]
      cases row[slot]? <;> rfl

/-- What answers alike, state by state, does so in a row and along any calls. -/
theorem calls_map (commutes : ∀ state request,
      answer (f state) request = ((answer' state request).1, f (answer' state request).2))
    (row : List τ) (made : List Call) :
    calls answer (row.map f) made =
      ((calls answer' row made).1, (calls answer' row made).2.map f) := by
  induction made generalizing row with
  | nil => rfl
  | cons first later ih =>
      simp only [calls]
      rw [call_map commutes, ih]

end Rows

/-- How many draws lie behind a reader's cursor and behind its bookmark. -/
structure Place where
  drawn : Nat
  marked : Nat
deriving DecidableEq, Repr

def Place.reader (source text : String) (place : Place) : Reader where
  cursor := .drop place.drawn (.ofText source text)
  bookmark := .drop place.marked (.ofText source text)

/-- Answers a request from the tokens of a text and the number of draws alone. Drawing all that is
left takes one draw for each token and one for the end. -/
def Place.answer (source text : String) (place : Place) : Request → Reply × Place
  | .draw =>
      (.token (tokenAt source text place.drawn), ⟨place.drawn + 1, place.marked⟩)
  | .draw? =>
      (if (tokenAt source text place.drawn).kind = .eof then .ended
        else .token (tokenAt source text place.drawn), ⟨place.drawn + 1, place.marked⟩)
  | .save => (.saved, ⟨place.drawn, place.drawn⟩)
  | .restore => (.restored, ⟨place.marked, place.marked⟩)
  | .count => (.count ((tokenize source text).length - 1 - place.drawn), place)
  | .drain =>
      (.tokens ((tokenize source text).dropLast.drop place.drawn),
        ⟨max place.drawn ((tokenize source text).length - 1) + 1, place.marked⟩)

/-- A draw that may find nothing is a draw, but for the end token. -/
theorem answer_draw? (reader : Reader) :
    reader.answer .draw? =
      (if reader.cursor.next.1.kind = .eof then .ended else .token reader.cursor.next.1,
        ⟨reader.cursor.next.2, reader.bookmark⟩) := by
  rw [answer]
  cases step : reader.cursor.next? with
  | none =>
      rw [Cursor.next_of_none step]
      rfl
  | some pair =>
      rw [Cursor.next_of_some step, if_neg (Cursor.kind_ne_eof_of_next? step)]

/-- A reader answers as its place does. -/
theorem answer_reader (source text : String) (place : Place) (request : Request) :
    (place.reader source text).answer request =
      ((place.answer source text request).1,
        (place.answer source text request).2.reader source text) := by
  have next_eq := Cursor.next_drop source text place.drawn
  have ⟨tokens_eq, finish_eq⟩ := (Cursor.ofText source text).drain_drop place.drawn
  cases request with
  | draw =>
      rw [answer, Place.answer, Place.reader, next_eq]
      rfl
  | draw? =>
      rw [answer_draw?, Place.answer, Place.reader, next_eq]
      rfl
  | save => rfl
  | restore => rfl
  | count =>
      rw [answer, Place.answer, Place.reader, tokens_eq, length_tokenize, List.length_drop,
        Nat.add_sub_cancel]
  | drain =>
      have past : (Cursor.ofText source text).tokens.length <
          max place.drawn (Cursor.ofText source text).tokens.length + 1 := by omega
      rw [answer, Place.answer, Place.reader, Place.reader, tokens_eq, finish_eq, length_tokenize,
        dropLast_tokenize, Nat.add_sub_cancel, Cursor.drop_of_length_lt past]

theorem answers_draw?_of_none {cursor : Cursor} (ended : cursor.next? = none) (bookmark : Cursor)
    (count : Nat) :
    ((⟨cursor, bookmark⟩ : Reader).answers (List.replicate count .draw?)).1 =
      List.replicate count .ended := by
  induction count generalizing cursor with
  | zero => rfl
  | succ count ih =>
      have again : cursor.skipGap.next? = none := by
        rw [Cursor.next?_congr cursor.skipGap_skipGap, ended]
      rw [List.replicate_succ, answers, answer, ended, List.replicate_succ]
      exact congrArg _ (ih again)

theorem answers_draw? (cursor bookmark : Cursor) (more : Nat) :
    ((⟨cursor, bookmark⟩ : Reader).answers
        (List.replicate (cursor.tokens.length + more) .draw?)).1 =
      cursor.tokens.map .token ++ List.replicate more .ended := by
  induction cursor using Cursor.induction with
  | ended cursor step =>
      rw [Cursor.tokens_of_none step, List.length_nil, Nat.zero_add]
      exact answers_draw?_of_none step bookmark more
  | drawn cursor token after step ih =>
      rw [Cursor.tokens_of_some step, List.length_cons, Nat.succ_add, List.replicate_succ, answers,
        answer, step]
      exact congrArg _ ih

/-- Behind the first end token a draw gives it again and leaves the reader as it is. -/
theorem answer_of_length_lt {source text : String} {place : Place}
    (past : (Cursor.ofText source text).tokens.length < place.drawn) :
    (place.reader source text).answer .draw =
        (.token (tokenAt source text (Cursor.ofText source text).tokens.length),
          place.reader source text) ∧
      (place.reader source text).answer .draw? = (.ended, place.reader source text) := by
  have reader_eq : place.reader source text =
      ⟨(Cursor.ofText source text).finish, .drop place.marked (.ofText source text)⟩ := by
    rw [Place.reader, Cursor.drop_of_length_lt past]
  rw [reader_eq]
  constructor
  · rw [answer, Cursor.next_finish, tokenAt_length]
  · rw [answer_draw?, Cursor.next_finish]
    rfl

/-- In front of the end each draw moves the cursor on. -/
theorem offset_lt_of_drawn_lt {source text : String} {place : Place} {request : Request}
    (before : place.drawn < (Cursor.ofText source text).tokens.length)
    (draws : request = .draw ∨ request = .draw?) :
    (place.reader source text).cursor.offset <
      ((place.reader source text).answer request).2.cursor.offset := by
  have tokens_eq := ((Cursor.ofText source text).drain_drop place.drawn).1
  cases step : (place.reader source text).cursor.next? with
  | none =>
      have empty := Cursor.tokens_of_none step
      rw [Place.reader, tokens_eq, List.drop_eq_nil_iff] at empty
      omega
  | some pair =>
      have moved := Cursor.offset_lt_of_next? step
      rcases draws with rfl | rfl
      · rw [answer, Cursor.next_of_some step]
        exact moved
      · rw [answer, step]
        exact moved

/-- The reader at each place of a text shows the token at the number of draws before it, whichever
way it is asked and wherever it was copied. The iterator gives the tokens without the end token and
then nothing. Once the end token is drawn nothing changes, and every draw before that moves on by a
byte at least, so that there are no more tokens than bytes. -/
theorem draws_agree (source text : String) :
    ∃ n, (tokenize source text).length = n + 1 ∧ n ≤ text.utf8ByteSize ∧
      (∀ index, (tokenize source text)[min index n]? = some (tokenAt source text index)) ∧
      (∀ made, calls answer [ofText source text] made =
        ((calls (Place.answer source text) [⟨0, 0⟩] made).1,
          (calls (Place.answer source text) [⟨0, 0⟩] made).2.map (Place.reader source text))) ∧
      (∀ more, ((ofText source text).answers (List.replicate (n + more) .draw?)).1 =
        ((tokenize source text).take n).map .token ++ List.replicate more .ended) ∧
      (∀ place : Place, n < place.drawn →
        (place.reader source text).answer .draw =
            (.token (tokenAt source text n), place.reader source text) ∧
          (place.reader source text).answer .draw? = (.ended, place.reader source text)) ∧
      ∀ place : Place, place.drawn < n → ∀ request, request = .draw ∨ request = .draw? →
        (place.reader source text).cursor.offset <
          ((place.reader source text).answer request).2.cursor.offset := by
  refine ⟨_, length_tokenize source text, Cursor.length_tokens_le source text, ?_, ?_, ?_, ?_, ?_⟩
  · exact getElem?_min_tokenize source text
  · exact calls_map (answer_reader source text) [⟨0, 0⟩]
  · intro more
    have taken : (tokenize source text).take (Cursor.ofText source text).tokens.length =
        (Cursor.ofText source text).tokens := List.take_left
    rw [taken]
    exact answers_draw? _ _ more
  · intro place past
    exact answer_of_length_lt past
  · intro place before request draws
    exact offset_lt_of_drawn_lt before draws

/-- A copy that is taken behind the first of two tokens goes on from there, however often the end
was drawn meanwhile. -/
theorem draws_agree_copy :
    let text := "a =\t"
    let place (start stop : UInt32) : Span := ⟨⟨start, shellName⟩, ⟨stop, shellName⟩⟩
    let equals : Token := ⟨.assign, "=", place 2 3⟩
    let stop : Token := ⟨.eof, "", place 4 4⟩
    (calls answer [ofText shellName text]
        [.ask 0 .draw, .copy 0, .ask 0 .draw?, .ask 0 .draw?, .ask 0 .draw, .ask 1 .draw?,
          .ask 1 .drain, .ask 1 .draw]).1 =
        [some (.token ⟨.ident, "a", place 0 1⟩), none, some (.token equals), some .ended,
          some (.token stop), some (.token equals), some (.tokens []), some (.token stop)] ∧
      ((⟨3, 0⟩ : Place).reader shellName text).answer .draw =
        (.token stop, (⟨3, 0⟩ : Place).reader shellName text) ∧
      ((⟨1, 0⟩ : Place).reader shellName text).cursor.offset <
        (((⟨1, 0⟩ : Place).reader shellName text).answer .draw).2.cursor.offset := by
  intro text place equals stop
  obtain ⟨n, length_eq, _, _, agree, _, ended, moves⟩ := draws_agree shellName text
  have two : (tokenize shellName text).length = 3 := by decide +kernel
  have last : tokenAt shellName text 2 = stop := by decide +kernel
  obtain rfl : n = 2 := by omega
  refine ⟨?_, ?_, moves ⟨1, 0⟩ (by decide) .draw (.inl rfl)⟩
  · rw [agree]
    decide +kernel
  · rw [← last]
    exact (ended ⟨3, 0⟩ (by decide)).1

end Reader

end LetLang
