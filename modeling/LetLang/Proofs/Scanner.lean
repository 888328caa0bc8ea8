import LetLang.Proofs.Draining
import LetLang.Proofs.ReportSteps

/-!
Drawing tokens by byte offsets. A scanner keeps its whole text, the offset of its current character
and the offset of the character behind it, and cuts the text at such offsets whenever it moves. A
cut inside a character or past the end fails, and a loop that does not end has no result either.
Here tokens are drawn with all these cuts. A scanner shows, in bytes, the place of a cursor, and
moves as the cursor does, so that nothing fails: each cut is between two characters.
-/

set_option autoImplicit false

namespace LetLang

namespace Text

/-- What stands in a text between two byte offsets, unless they are out of order, inside a character
or past the end. -/
def between? (text : String) (start stop : Nat) : Option String :=
  if cut : String.Pos.Raw.IsValid text ⟨start⟩ ∧ String.Pos.Raw.IsValid text ⟨stop⟩ ∧
      start ≤ stop then
    some (text.slice ⟨⟨start⟩, cut.1⟩ ⟨⟨stop⟩, cut.2.1⟩ cut.2.2).copy
  else none

theorem between?_size {text : String} {front middle back : List Char}
    (whole : text.toList = front ++ (middle ++ back)) :
    between? text (size front) (size front + size middle) = some (String.ofList middle) := by
  have longer : text.toList = (front ++ middle) ++ back := by rw [whole, List.append_assoc]
  have start_valid := isValid_size whole
  have stop_valid := isValid_size longer
  rw [size_append] at stop_valid
  have cut : ∃ ordered, (text.slice ⟨⟨size front⟩, start_valid⟩
      ⟨⟨size front + size middle⟩, stop_valid⟩ ordered).copy = String.ofList middle := by
    apply String.copy_slice_eq_iff_splits.mpr
    refine ⟨String.ofList front, String.ofList back, ⟨?_, ?_⟩, ⟨?_, ?_⟩⟩
    · rw [← String.ofList_append]
      exact eq_append_of_toList whole
    · exact (rawEndPos_ofList front).symm
    · rw [← String.ofList_append]
      exact eq_append_of_toList longer
    · rw [← String.ofList_append, rawEndPos_ofList, size_append]
  obtain ⟨_, copy_eq⟩ := cut
  rw [between?, dif_pos ⟨start_valid, stop_valid, Nat.le_add_right _ _⟩, copy_eq]

/-- Where the longest row of characters of a class ends that a text begins with, if it begins with
one. -/
def matchEnd? (inside : Char → Bool) (text : String) : Option Nat :=
  let run := text.toList.takeWhile inside
  if run.isEmpty then none else some (size run)

theorem matchEnd?_getD (inside : Char → Bool) (text : String) :
    (matchEnd? inside text).getD 0 = size (text.toList.takeWhile inside) := by
  cases run : text.toList.takeWhile inside <;> simp [matchEnd?, run]

theorem isValid_of_matchEnd? (inside : Char → Bool) (text : String) (stop : Nat)
    (found : matchEnd? inside text = some stop) : String.Pos.Raw.IsValid text ⟨stop⟩ := by
  have stop_eq := matchEnd?_getD inside text
  rw [found, Option.getD_some] at stop_eq
  rw [stop_eq]
  exact isValid_size List.takeWhile_append_dropWhile.symm

/-- An offset between two characters cuts a text in two. -/
theorem exists_append_of_isValid {text : String} {offset : Nat}
    (valid : String.Pos.Raw.IsValid text ⟨offset⟩) :
    ∃ front back, text.toList = front ++ back ∧ size front = offset := by
  obtain ⟨front, back, whole, offset_eq⟩ := String.Pos.Raw.isValid_iff_exists_append.mp valid
  refine ⟨front.toList, back.toList, by rw [whole, String.toList_append], ?_⟩
  rw [size_toList]
  exact congrArg String.Pos.Raw.byteIdx offset_eq.symm

theorem lt_of_behind? {text ahead : String} {offset : Nat} {c : Char}
    (cut : behind? text offset = some ahead) (current : ahead.toList.head? = some c) :
    offset < text.utf8ByteSize := by
  have valid : String.Pos.Raw.IsValid text ⟨offset⟩ := by
    by_contra invalid
    simp [behind?, invalid] at cut
  obtain ⟨front, back, whole, rfl⟩ := exists_append_of_isValid valid
  rw [behind?_size whole] at cut
  cases cut
  have some_byte := size_pos back (by rintro rfl; simp at current)
  have size_eq := congrArg size whole
  rw [size_toList, size_append] at size_eq
  omega

end Text

/-- A place in a named text by byte offsets alone. -/
structure Scanner where
  source : String
  text : String
  /-- Where the current character starts. -/
  position : Nat
  /-- Where the character behind the current one starts. -/
  readPosition : Nat
  /-- The current character, unless the end is reached. -/
  current : Option Char
deriving DecidableEq, Repr

namespace Scanner

def readChar? (scanner : Scanner) : Option Scanner := do
  let ahead ← Text.behind? scanner.text scanner.readPosition
  let current := ahead.toList.head?
  return {
    source := scanner.source
    text := scanner.text
    position := scanner.readPosition
    readPosition := scanner.readPosition + (current.map Char.utf8Size).getD 0
    current := current }

def ofText? (source text : String) : Option Scanner :=
  readChar? ⟨source, text, 0, 0, none⟩

def peekChar? (scanner : Scanner) : Option (Option Char) := do
  let ahead ← Text.behind? scanner.text scanner.readPosition
  return ahead.toList.head?

theorem readChar?_cases {scanner after : Scanner} (read : scanner.readChar? = some after) :
    (∃ c, scanner.readPosition < scanner.text.utf8ByteSize ∧
      after = ⟨scanner.source, scanner.text, scanner.readPosition,
        scanner.readPosition + c.utf8Size, some c⟩) ∨
    after = ⟨scanner.source, scanner.text, scanner.readPosition, scanner.readPosition, none⟩ := by
  unfold readChar? at read
  obtain ⟨ahead, behind, after_eq⟩ := Option.bind_eq_some_iff.mp read
  cases after_eq
  cases current : ahead.toList.head? with
  | none => exact .inr rfl
  | some c => exact .inl ⟨c, Text.lt_of_behind? behind current, rfl⟩

/-- A bound on the moves that are left: the read position grows until the end is reached, and one
more move leads onto the end. -/
def leeway (scanner : Scanner) : Nat :=
  2 * (scanner.text.utf8ByteSize - scanner.readPosition) +
    if scanner.position = scanner.readPosition ∧ scanner.current = none then 0 else 1

theorem leeway_lt {scanner after : Scanner} (read : scanner.readChar? = some after)
    (moved : after ≠ scanner) : after.leeway < scanner.leeway := by
  rcases readChar?_cases read with ⟨c, inside, rfl⟩ | rfl
  · have some_byte := c.utf8Size_pos
    simp only [leeway, reduceCtorEq, and_false, ↓reduceIte]
    omega
  · have not_ended : ¬ (scanner.position = scanner.readPosition ∧ scanner.current = none) := by
      obtain ⟨source, text, position, readPosition, current⟩ := scanner
      show ¬ (position = readPosition ∧ current = none)
      rintro ⟨rfl, rfl⟩
      exact moved rfl
    simp only [leeway, not_ended, and_self, ↓reduceIte]
    omega

/-- Moves on as long as a condition holds. A scanner that is on the end stays there, and if the
condition holds there, the moves never end. -/
def readWhile? (continues : Scanner → Bool) (scanner : Scanner) : Option Scanner :=
  if continues scanner then
    match _read : scanner.readChar? with
    | none => none
    | some after =>
        if _moved : after = scanner then none else after.readWhile? continues
  else some scanner
termination_by scanner.leeway
decreasing_by exact leeway_lt _read _moved

def skipGap? (scanner : Scanner) : Option Scanner :=
  scanner.readWhile? fun scanner => scanner.current.any Text.isGap

/-- Reads what is found at the current character, where `find?` tells at which offset a match ends
that a text begins with. -/
def readRun? (find? : String → Option Nat) (scanner : Scanner) : Option (String × Scanner) := do
  let ahead ← Text.behind? scanner.text scanner.position
  let limit := scanner.position + (find? ahead).getD 0
  let after ← scanner.readWhile? fun scanner =>
    scanner.current.isSome && decide (scanner.position < limit)
  let literal ← Text.between? scanner.text scanner.position after.position
  return (literal, after)

/-- The kind of the symbol that starts with the current character `first`, and the scanner on the
last character of this symbol. -/
def readSymbol? (scanner : Scanner) (first : Char) : Option (Kind × Scanner) :=
  if first = '=' ∨ first = '!' then do
    let ahead ← scanner.peekChar?
    if ahead = some '=' then
      let last ← scanner.readChar?
      return (if first = '=' then .equal else .notEqual, last)
    else return (.ofSymbol first, scanner)
  else return (.ofSymbol first, scanner)

def token (scanner : Scanner) (kind : Kind) (literal : String) (start : Nat) : Token :=
  ⟨kind, literal, ⟨.at scanner.source start, .at scanner.source scanner.position⟩⟩

def read? (scanner : Scanner) (first : Char) : Option (Token × Scanner) :=
  if isLetter first then do
    let (literal, after) ← scanner.readRun? (Text.matchEnd? isLetter)
    return (after.token (.ofWord literal) literal scanner.position, after)
  else if first.isDigit then do
    let (literal, after) ← scanner.readRun? (Text.matchEnd? Char.isDigit)
    return (after.token .int literal scanner.position, after)
  else do
    let (kind, last) ← scanner.readSymbol? first
    let after ← last.readChar?
    let literal ← Text.between? scanner.text scanner.position after.position
    return (after.token kind literal scanner.position, after)

def next? (scanner : Scanner) : Option (Token × Scanner) := do
  let ahead ← scanner.skipGap?
  match ahead.current with
  | none => return (ahead.token .eof "" ahead.position, ahead)
  | some first => ahead.read? first

def draws? : Nat → Scanner → Option (List Token × Scanner)
  | 0, scanner => some ([], scanner)
  | count + 1, scanner => do
      let (token, after) ← scanner.next?
      let (tokens, last) ← after.draws? count
      return (token :: tokens, last)

/-- A scanner whose offsets are between two characters, in order and inside the text, and whose
current character is the one between them. -/
structure Sound (scanner : Scanner) : Prop where
  position_le : scanner.position ≤ scanner.readPosition
  readPosition_le : scanner.readPosition ≤ scanner.text.utf8ByteSize
  position_valid : String.Pos.Raw.IsValid scanner.text ⟨scanner.position⟩
  readPosition_valid : String.Pos.Raw.IsValid scanner.text ⟨scanner.readPosition⟩
  current_eq_none_iff : scanner.current = none ↔ scanner.position = scanner.text.utf8ByteSize
  of_none : scanner.current = none → scanner.readPosition = scanner.position
  of_some : ∀ c, scanner.current = some c →
    (∃ front back, scanner.text.toList = front ++ c :: back ∧
      Text.size front = scanner.position) ∧
    scanner.readPosition = scanner.position + c.utf8Size

theorem readWhile?_of_true {continues : Scanner → Bool} {scanner after : Scanner}
    (goes_on : continues scanner = true) (read : scanner.readChar? = some after)
    (moved : after ≠ scanner) :
    scanner.readWhile? continues = after.readWhile? continues := by
  rw [readWhile?, if_pos goes_on]
  split
  · rename_i failed
    rw [read] at failed
    cases failed
  · rename_i step
    rw [read] at step
    cases step
    rw [dif_neg moved]

theorem readWhile?_of_false {continues : Scanner → Bool} {scanner : Scanner}
    (stops : continues scanner = false) : scanner.readWhile? continues = some scanner := by
  rw [readWhile?, stops]
  rfl

end Scanner

namespace Cursor

/-- The cursor behind a row of the characters ahead. -/
def beyond (cursor : Cursor) (row rest : List Char) : Cursor :=
  ⟨cursor.source, cursor.offset + Text.size row, rest⟩

/-- The cursor behind the next character, or the same one at the end. -/
def pass (cursor : Cursor) : Cursor :=
  cursor.beyond (cursor.rest.take 1) (cursor.rest.drop 1)

/-- The byte offsets that a cursor has in its text. -/
def scanner (text : String) (cursor : Cursor) : Scanner where
  source := cursor.source
  text := text
  position := cursor.offset
  readPosition := cursor.pass.offset
  current := cursor.rest.head?

@[simp] theorem scanner_text (text : String) (cursor : Cursor) :
    (cursor.scanner text).text = text := rfl

@[simp] theorem scanner_position (text : String) (cursor : Cursor) :
    (cursor.scanner text).position = cursor.offset := rfl

@[simp] theorem scanner_current (text : String) (cursor : Cursor) :
    (cursor.scanner text).current = cursor.rest.head? := rfl

theorem beyond_nil (cursor : Cursor) : cursor.beyond [] cursor.rest = cursor := rfl

theorem beyond_beyond (cursor : Cursor) (row row' rest rest' : List Char) :
    (cursor.beyond row rest).beyond row' rest' = cursor.beyond (row ++ row') rest' := by
  simp [beyond, Nat.add_assoc]

theorem behind_eq_beyond (cursor : Cursor) (lexeme : Lexeme) :
    cursor.behind lexeme = cursor.beyond lexeme.text lexeme.rest := rfl

variable {text : String} {cursor : Cursor} {row rest : List Char}

theorem pass_of_nil (ahead : cursor.rest = []) : cursor.pass = cursor := by
  have here := cursor.beyond_nil
  rw [ahead] at here
  rw [pass, ahead]
  exact here

theorem pass_of_cons {first : Char} (ahead : cursor.rest = first :: rest) :
    cursor.pass = cursor.beyond [first] rest := by
  rw [pass, ahead]
  rfl

theorem Within.beyond (within : cursor.Within text) (ahead : cursor.rest = row ++ rest) :
    (cursor.beyond row rest).Within text := by
  obtain ⟨front, whole, offset_eq⟩ := within
  refine ⟨front ++ row, ?_, ?_⟩
  · rw [whole, ahead, List.append_assoc]
    rfl
  · rw [Text.size_append, ← offset_eq]
    rfl

theorem Within.pass (within : cursor.Within text) : cursor.pass.Within text :=
  within.beyond (List.take_append_drop 1 cursor.rest).symm

theorem Within.skipGap (within : cursor.Within text) : cursor.skipGap.Within text :=
  within.beyond List.takeWhile_append_dropWhile.symm

theorem Within.next (within : cursor.Within text) : cursor.next.2.Within text := by
  cases step : cursor.next? with
  | none =>
      rw [next_of_none step]
      exact within.skipGap
  | some pair =>
      rw [next_of_some step]
      exact within.next? step

theorem Within.drop (within : cursor.Within text) (count : Nat) :
    (drop count cursor).Within text := by
  induction count generalizing cursor with
  | zero => exact within
  | succ count ih => exact ih within.next

theorem Within.valid (within : cursor.Within text) :
    String.Pos.Raw.IsValid text ⟨cursor.offset⟩ := by
  obtain ⟨front, whole, offset_eq⟩ := within
  rw [offset_eq]
  exact Text.isValid_size whole

theorem Within.behind? (within : cursor.Within text) :
    Text.behind? text cursor.offset = some (String.ofList cursor.rest) := by
  obtain ⟨front, whole, offset_eq⟩ := within
  rw [offset_eq]
  exact Text.behind?_size whole

theorem Within.between? (within : cursor.Within text) (ahead : cursor.rest = row ++ rest) :
    Text.between? text cursor.offset (cursor.beyond row rest).offset =
      some (String.ofList row) := by
  obtain ⟨front, whole, offset_eq⟩ := within
  rw [ahead] at whole
  rw [Cursor.beyond, offset_eq]
  exact Text.between?_size whole

/-- The offsets of a cursor inside its text are sound. -/
theorem Within.sound (within : cursor.Within text) : (cursor.scanner text).Sound where
  position_le := Nat.le_add_right _ _
  readPosition_le := within.pass.valid.le_utf8ByteSize
  position_valid := within.valid
  readPosition_valid := within.pass.valid
  current_eq_none_iff := by
    have size_eq := within.size_eq
    simp only [scanner_current, scanner_position, scanner_text, List.head?_eq_none_iff]
    constructor
    · intro ended
      rw [size_eq, ended]
      rfl
    · intro at_end
      by_contra more
      have some_byte := Text.size_pos cursor.rest more
      omega
  of_none := by
    intro ended
    exact congrArg offset (pass_of_nil (List.head?_eq_none_iff.mp ended))
  of_some := by
    intro c current
    have ahead := List.eq_cons_of_mem_head? current
    obtain ⟨front, whole, offset_eq⟩ := within
    rw [ahead] at whole
    refine ⟨⟨front, cursor.rest.tail, whole, offset_eq.symm⟩, ?_⟩
    show cursor.pass.offset = cursor.offset + c.utf8Size
    rw [pass_of_cons ahead]
    simp [Cursor.beyond]

/-- Reading leads to the character at the read position. -/
theorem Within.readChar?_eq (scanner : Scanner) (within : cursor.Within scanner.text)
    (source_eq : scanner.source = cursor.source)
    (offset_eq : scanner.readPosition = cursor.offset) :
    scanner.readChar? = some (cursor.scanner scanner.text) := by
  have width : (cursor.rest.head?.map Char.utf8Size).getD 0 = Text.size (cursor.rest.take 1) := by
    cases cursor.rest <;> simp
  rw [Scanner.readChar?, offset_eq, within.behind?, source_eq]
  simp [Cursor.scanner, Cursor.pass, Cursor.beyond, width]

theorem Within.readChar? (within : cursor.Within text) :
    (cursor.scanner text).readChar? = some (cursor.pass.scanner text) :=
  within.pass.readChar?_eq (cursor.scanner text) rfl rfl

theorem Within.peekChar? (within : cursor.Within text) :
    (cursor.scanner text).peekChar? = some cursor.rest.tail.head? := by
  have found : Text.behind? (cursor.scanner text).text (cursor.scanner text).readPosition =
      some (String.ofList cursor.pass.rest) := within.pass.behind?
  rw [Scanner.peekChar?, found]
  simp [Cursor.pass, Cursor.beyond]

theorem pass_scanner_ne {first : Char} (ahead : cursor.rest = first :: rest) :
    cursor.pass.scanner text ≠ cursor.scanner text := by
  intro same
  have offset_eq : cursor.pass.offset = cursor.offset := congrArg Scanner.position same
  have some_byte := first.utf8Size_pos
  simp only [pass_of_cons ahead, Cursor.beyond, Text.size_cons] at offset_eq
  omega

/-- Reading goes over a row of characters if the condition holds on each of them and not behind
them. -/
theorem Within.readWhile? {continues : Scanner → Bool} (within : cursor.Within text)
    (ahead : cursor.rest = row ++ rest)
    (goes_on : ∀ front first back, row = front ++ first :: back →
      continues ((cursor.beyond front (first :: back ++ rest)).scanner text) = true)
    (stops : continues ((cursor.beyond row rest).scanner text) = false) :
    (cursor.scanner text).readWhile? continues =
      some ((cursor.beyond row rest).scanner text) := by
  induction row generalizing cursor with
  | nil =>
      have here : cursor.beyond [] rest = cursor := by
        rw [List.nil_append] at ahead
        rw [← ahead, beyond_nil]
      rw [here] at stops ⊢
      exact Scanner.readWhile?_of_false stops
  | cons first row ih =>
      have here : continues (cursor.scanner text) = true := by
        have start := goes_on [] first row rfl
        rwa [← ahead, beyond_nil] at start
      have further : cursor.pass = cursor.beyond [first] (row ++ rest) := pass_of_cons ahead
      have within' := within.pass
      rw [further] at within'
      rw [Scanner.readWhile?_of_true here within.readChar? (pass_scanner_ne ahead), further,
        ih within' rfl]
      · rw [beyond_beyond]
        rfl
      · intro front next back row_eq
        rw [beyond_beyond]
        exact goes_on (first :: front) next back (by rw [row_eq, List.cons_append])
      · rw [beyond_beyond]
        exact stops

theorem Within.skipGap? (within : cursor.Within text) :
    (cursor.scanner text).skipGap? = some (cursor.skipGap.scanner text) := by
  apply within.readWhile? List.takeWhile_append_dropWhile.symm
  · intro front first back row_eq
    have member : first ∈ cursor.rest.takeWhile Text.isGap := by simp [row_eq]
    show Text.isGap first = true
    exact List.mem_takeWhile_imp member
  · have stopped := List.head?_dropWhile_not Text.isGap cursor.rest
    show (cursor.rest.dropWhile Text.isGap).head?.any Text.isGap = false
    cases head : (cursor.rest.dropWhile Text.isGap).head? with
    | none => rfl
    | some c => simpa [head] using stopped

/-- A run is read up to the end of the match that is found. -/
theorem Within.readRun? {find? : String → Option Nat} (within : cursor.Within text)
    (ahead : cursor.rest = row ++ rest)
    (found : (find? (String.ofList cursor.rest)).getD 0 = Text.size row) :
    (cursor.scanner text).readRun? find? =
      some (String.ofList row, (cursor.beyond row rest).scanner text) := by
  have read : (cursor.scanner text).readWhile? (fun scanner =>
      scanner.current.isSome && decide (scanner.position < cursor.offset + Text.size row)) =
        some ((cursor.beyond row rest).scanner text) := by
    apply within.readWhile? ahead
    · intro front first back row_eq
      have some_byte := first.utf8Size_pos
      simp only [scanner_current, scanner_position, Cursor.beyond, row_eq, Text.size_append,
        Text.size_cons, List.cons_append, List.head?_cons, Option.isSome_some, Bool.true_and,
        decide_eq_true_eq]
      omega
    · simp [Cursor.beyond]
  have literal := within.between? ahead
  simp only [Scanner.readRun?, scanner_text, scanner_position, within.behind?, Option.bind_eq_bind,
    Option.bind_some, found]
  rw [read]
  simp only [Option.bind_some, scanner_position, literal]
  rfl

/-- A row of characters of a class is read to its end. -/
theorem Within.readRun?_row {inside : Char → Bool} {first : Char} (within : cursor.Within text)
    (ahead : cursor.rest = first :: rest) (first_inside : inside first = true) :
    (cursor.scanner text).readRun? (Text.matchEnd? inside) =
      some (String.ofList (first :: rest.takeWhile inside),
        (cursor.beyond (first :: rest.takeWhile inside) (rest.dropWhile inside)).scanner text) := by
  have row_eq : cursor.rest.takeWhile inside = first :: rest.takeWhile inside := by
    rw [ahead, List.takeWhile_cons_of_pos first_inside]
  apply within.readRun?
  · rw [ahead, List.cons_append, List.takeWhile_append_dropWhile]
  · rw [Text.matchEnd?_getD, String.toList_ofList, row_eq]

theorem Within.readSymbol? {first : Char} (within : cursor.Within text)
    (ahead : cursor.rest = first :: rest) :
    ∃ last, (cursor.scanner text).readSymbol? first =
        some ((Lexeme.readSymbol first rest).kind, last) ∧
      last.readChar? = some ((cursor.behind (.readSymbol first rest)).scanner text) := by
  have peeked := within.peekChar?
  rw [ahead, List.tail_cons] at peeked
  have read := within.readChar?
  have further := within.pass.readChar?
  rw [pass_of_cons ahead] at read further
  unfold Lexeme.readSymbol
  split
  · refine ⟨_, by simp [Scanner.readSymbol?, peeked, read]; rfl, ?_⟩
    rw [further, pass_of_cons rfl, beyond_beyond]
    rfl
  · refine ⟨_, by simp [Scanner.readSymbol?, peeked, read]; rfl, ?_⟩
    rw [further, pass_of_cons rfl, beyond_beyond]
    rfl
  · rename_i not_equal not_notEqual
    refine ⟨cursor.scanner text, ?_, read⟩
    by_cases equals : rest.head? = some '='
    · have other : ¬ (first = '=' ∨ first = '!') := by
        have rest_eq := List.eq_cons_of_mem_head? equals
        rintro (rfl | rfl)
        · exact not_equal _ rfl rest_eq
        · exact not_notEqual _ rfl rest_eq
      rw [Scanner.readSymbol?, if_neg other]
      rfl
    · simp [Scanner.readSymbol?, peeked, equals]

/-- The token at a cursor is drawn by its offsets as it is by its characters. -/
theorem Within.read? {first : Char} (within : cursor.Within text)
    (ahead : cursor.rest = first :: rest) :
    (cursor.scanner text).read? first =
      some (cursor.token (.read first rest),
        (cursor.behind (.read first rest)).scanner text) := by
  rw [Scanner.read?, Lexeme.read]
  by_cases letter : isLetter first = true
  · rw [if_pos letter, if_pos letter, within.readRun?_row ahead letter]
    rfl
  · rw [if_neg letter, if_neg letter]
    by_cases digit : first.isDigit = true
    · rw [if_pos digit, if_pos digit, within.readRun?_row ahead digit]
      rfl
    · rw [if_neg digit, if_neg digit]
      obtain ⟨last, symbol, read⟩ := within.readSymbol? ahead
      have whole := Lexeme.readSymbol_text_append_rest first rest
      have literal := within.between? (ahead.trans whole.symm)
      simp only [symbol, read, Option.bind_eq_bind, Option.bind_some, scanner_text,
        scanner_position]
      rw [behind_eq_beyond, literal]
      rfl

/-- Drawing by offsets and drawing by characters give the same token and lead to the same place. -/
theorem Within.next?_scanner (within : cursor.Within text) :
    (cursor.scanner text).next? = some (cursor.next.1, cursor.next.2.scanner text) := by
  rw [Scanner.next?, within.skipGap?]
  cases ahead : cursor.skipGap.rest with
  | nil =>
      have ended : cursor.next? = none := cursor.next?_eq_none_iff.mpr ahead
      rw [next_of_none ended]
      simp only [Option.bind_eq_bind, Option.bind_some, scanner_current, ahead, List.head?_nil]
      rfl
  | cons first rest =>
      have step : cursor.next? = some (cursor.skipGap.token (.read first rest),
          cursor.skipGap.behind (.read first rest)) :=
        (cursor.next?_eq_some_iff _ _).mpr ⟨first, rest, ahead, rfl, rfl⟩
      rw [next_of_some step]
      simp only [Option.bind_eq_bind, Option.bind_some, scanner_current, ahead, List.head?_cons]
      exact within.skipGap.read? ahead

end Cursor

namespace Scanner

/-- A sound scanner has the offsets of a cursor inside its text. -/
theorem Sound.exists_cursor {scanner : Scanner} (sound : scanner.Sound) :
    ∃ cursor : Cursor, cursor.Within scanner.text ∧ scanner = cursor.scanner scanner.text := by
  obtain ⟨source, text, position, readPosition, current⟩ := scanner
  cases current with
  | none =>
      have at_end := sound.current_eq_none_iff.mp rfl
      have read_eq := sound.of_none rfl
      simp only at at_end read_eq
      refine ⟨⟨source, position, []⟩, ⟨text.toList, by simp, ?_⟩, ?_⟩
      · simpa using at_end
      · simp [Cursor.scanner, Cursor.pass, Cursor.beyond, read_eq]
  | some c =>
      obtain ⟨⟨front, back, whole, size_eq⟩, read_eq⟩ := sound.of_some c rfl
      simp only at whole size_eq read_eq
      refine ⟨⟨source, position, c :: back⟩, ⟨front, whole, size_eq.symm⟩, ?_⟩
      simp [Cursor.scanner, Cursor.pass, Cursor.beyond, read_eq]

theorem ofText?_eq (source text : String) :
    ofText? source text = some ((Cursor.ofText source text).scanner text) :=
  (Cursor.within_ofText source text).readChar?_eq ⟨source, text, 0, 0, none⟩ rfl rfl

/-- Draws by offsets give the tokens of the text by their index. -/
theorem draws?_drop (source text : String) (count start : Nat) :
    draws? count ((Cursor.drop start (.ofText source text)).scanner text) =
      some ((List.range' start count).map (tokenAt source text),
        (Cursor.drop (start + count) (.ofText source text)).scanner text) := by
  induction count generalizing start with
  | zero => rfl
  | succ count ih =>
      have within := (Cursor.within_ofText source text).drop start
      rw [draws?, within.next?_scanner, Cursor.next_drop]
      simp only [Option.bind_eq_bind, Option.bind_some, ih]
      rw [List.range'_succ, List.map_cons, Nat.succ_add_eq_add_succ]
      rfl

namespace Sound

variable {scanner : Scanner}

theorem readChar? (sound : scanner.Sound) :
    ∃ after, scanner.readChar? = some after ∧ after.Sound := by
  obtain ⟨cursor, within, scanner_eq⟩ := sound.exists_cursor
  rw [scanner_eq]
  exact ⟨_, within.readChar?, within.pass.sound⟩

theorem peekChar? (sound : scanner.Sound) : ∃ ahead, scanner.peekChar? = some ahead := by
  obtain ⟨cursor, within, scanner_eq⟩ := sound.exists_cursor
  rw [scanner_eq]
  exact ⟨_, within.peekChar?⟩

theorem next? (sound : scanner.Sound) :
    ∃ token after, scanner.next? = some (token, after) ∧ after.Sound := by
  obtain ⟨cursor, within, scanner_eq⟩ := sound.exists_cursor
  rw [scanner_eq]
  exact ⟨_, _, within.next?_scanner, within.next.sound⟩

/-- A run ends where the match does that is found at the current character. -/
theorem readRun? (sound : scanner.Sound) {find? : String → Option Nat}
    (fits : ∀ text stop, find? text = some stop → String.Pos.Raw.IsValid text ⟨stop⟩) :
    ∃ ahead literal after, Text.behind? scanner.text scanner.position = some ahead ∧
      scanner.readRun? find? = some (literal, after) ∧ after.Sound ∧
      after.position = scanner.position + (find? ahead).getD 0 ∧
      Text.between? scanner.text scanner.position after.position = some literal := by
  obtain ⟨cursor, within, scanner_eq⟩ := sound.exists_cursor
  have cut : ∃ row rest, cursor.rest = row ++ rest ∧
      (find? (String.ofList cursor.rest)).getD 0 = Text.size row := by
    cases found : find? (String.ofList cursor.rest) with
    | none => exact ⟨[], cursor.rest, rfl, rfl⟩
    | some stop =>
        obtain ⟨row, rest, whole, size_eq⟩ := Text.exists_append_of_isValid (fits _ _ found)
        exact ⟨row, rest, by simpa using whole, size_eq.symm⟩
  obtain ⟨row, rest, ahead, found⟩ := cut
  rw [scanner_eq]
  refine ⟨_, _, _, within.behind?, within.readRun? ahead found, (within.beyond ahead).sound, ?_,
    within.between? ahead⟩
  rw [found]
  rfl

end Sound

/-- However many tokens are drawn from a text by its byte offsets, no cut fails: the tokens are
those of the text, the offsets are those of the cursor behind them, and they are sound. From a sound
scanner every single step leads to a sound one, and a run ends where the match does that is found at
its start, for every way to find matches that end between two characters. -/
theorem reads_between_characters (source text : String) :
    (∀ count, ∃ scanner,
      (ofText? source text).bind (draws? count) =
          some ((List.range count).map (tokenAt source text), scanner) ∧
        scanner = (Cursor.drop count (.ofText source text)).scanner text ∧ scanner.Sound) ∧
      ∀ scanner : Scanner, scanner.Sound →
        (∃ after, scanner.readChar? = some after ∧ after.Sound) ∧
        (∃ ahead, scanner.peekChar? = some ahead) ∧
        (∃ token after, scanner.next? = some (token, after) ∧ after.Sound) ∧
        ∀ find? : String → Option Nat,
          (∀ text stop, find? text = some stop → String.Pos.Raw.IsValid text ⟨stop⟩) →
          ∃ ahead literal after, Text.behind? scanner.text scanner.position = some ahead ∧
            scanner.readRun? find? = some (literal, after) ∧ after.Sound ∧
            after.position = scanner.position + (find? ahead).getD 0 ∧
            Text.between? scanner.text scanner.position after.position = some literal := by
  constructor
  · intro count
    have within := (Cursor.within_ofText source text).drop count
    have drawn := draws?_drop source text count 0
    rw [← List.range_eq_range', Nat.zero_add] at drawn
    refine ⟨_, ?_, rfl, within.sound⟩
    rw [ofText?_eq]
    exact drawn
  · intro scanner sound
    exact ⟨sound.readChar?, sound.peekChar?, sound.next?, fun find? fits => sound.readRun? fits⟩

/-- Behind `é` and an operator of two characters a scanner is on the letter at byte 5. The word that
is read there ends in front of the digit. -/
theorem reads_between_characters_word :
    ∃ scanner, (ofText? shellName "é !=x1").bind (draws? 2) =
        some ((List.range 2).map (tokenAt shellName "é !=x1"), scanner) ∧
      scanner = ⟨shellName, "é !=x1", 5, 6, some 'x'⟩ ∧ scanner.Sound ∧
      ∃ literal after, scanner.readRun? (Text.matchEnd? isLetter) = some (literal, after) ∧
        after.Sound ∧ after.position = 6 := by
  obtain ⟨draws, steps⟩ := reads_between_characters shellName "é !=x1"
  obtain ⟨scanner, drawn, scanner_eq, sound⟩ := draws 2
  have here : scanner = ⟨shellName, "é !=x1", 5, 6, some 'x'⟩ := by
    rw [scanner_eq]
    decide +kernel
  obtain ⟨_, _, _, runs⟩ := steps scanner sound
  obtain ⟨ahead, literal, after, behind, read, sound_after, position, _⟩ :=
    runs (Text.matchEnd? isLetter) (Text.isValid_of_matchEnd? isLetter)
  refine ⟨scanner, drawn, here, sound, literal, after, read, sound_after, ?_⟩
  have whole : "é !=x1".toList = "é !=".toList ++ "x1".toList := rfl
  have cut : Text.behind? "é !=x1" 5 = some "x1" := Text.behind?_size whole
  rw [here, cut] at behind
  cases behind
  rw [position, here]
  decide +kernel

end Scanner

end LetLang
