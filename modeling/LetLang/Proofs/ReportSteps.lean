import LetLang.Proofs.LineMap
import LetLang.Proofs.Reports
import Mathlib.Data.Nat.Digits.Defs

/-!
Writing a report step by step. The steps that can fail are differences of numbers, cutting a text
at a byte offset and filling a text up to a width. Here a report is written with all of them, and
only the width of the caret line makes it fail: the differences are of numbers in order, the
indentation ends between two characters, and the number of a line has few digits.
-/

set_option autoImplicit false

namespace LetLang

def difference? (larger smaller : Nat) : Option Nat :=
  if smaller ≤ larger then some (larger - smaller) else none

theorem difference?_of_le {larger smaller : Nat} (ordered : smaller ≤ larger) :
    difference? larger smaller = some (larger - smaller) :=
  if_pos ordered

namespace Line

def lines (text : List Char) : List (List Char) :=
  cutAfter (fun c => c == '\n') text

/-- The line of an offset behind all lines, where the last of them is given and `number` counts one
more than there are. -/
def scanEnd? (number : Nat) : Option (List Char) → Option Line
  | none => some ⟨number, "", 0⟩
  | some last =>
      if last.getLast? = some '\n' then some ⟨number, "", 0⟩
      else (difference? number 1).map fun number => ⟨number, String.ofList last, Text.size last⟩

/-- Goes through lines until one holds the offset. The first of them has the given number and
starts at `start`. -/
def scan? (last : Option (List Char)) (offset start number : Nat) :
    List (List Char) → Option Line
  | [] => scanEnd? number last
  | line :: later =>
      if start ≤ offset ∧ offset < start + Text.size line then
        (difference? offset start).map fun column => ⟨number, String.ofList line, column⟩
      else scan? last offset (start + Text.size line) (number + 1) later

/-- The line of a text that holds a byte offset, by going through all lines. -/
def scanned? (text : String) (offset : UInt32) : Option Line :=
  scan? (lines text.toList).getLast? offset.toNat 0 1 (lines text.toList)

theorem lines_of_unfed {text : List Char} (inside : ∀ c ∈ text, continues c = true)
    (some_char : text ≠ []) : lines text = [text] :=
  cutAfter_of_unmarked (by simpa using inside) some_char

theorem lines_of_feed {body : List Char} (inside : ∀ c ∈ body, continues c = true)
    (rest : List Char) : lines (body ++ '\n' :: rest) = (body ++ ['\n']) :: lines rest :=
  cutAfter_first (by simpa using inside) (by simp) rest

/-- What scanning finds behind lines that do not hold the offset. They all end with line feeds, so
that the line behind them is a new one. -/
theorem scan?_lines {earlier : List (List Char)}
    (fed : ∀ line ∈ earlier, line.getLast? = some '\n') (text : List Char) {offset start : Nat}
    (reached : start ≤ offset) (number : Nat) :
    scan? (earlier ++ lines text).getLast? offset start number (lines text) =
      some (find number text (offset - start)) := by
  induction text using feed_induction generalizing earlier start number with
  | unfed text inside =>
      rw [find_of_unfed inside]
      by_cases empty : text = []
      · cases last : earlier.getLast? with
        | none => simp [empty, lines, scan?, scanEnd?, last]
        | some line =>
            have ends := fed line (List.mem_of_getLast? last)
            simp [empty, lines, scan?, scanEnd?, last, ends]
      · rw [lines_of_unfed inside empty, List.getLast?_concat, scan?]
        by_cases before : offset < start + Text.size text
        · rw [if_pos ⟨reached, before⟩, difference?_of_le reached, Nat.min_eq_left (by omega)]
          rfl
        · have unfed : text.getLast? ≠ some '\n' := fun ends =>
            feed_not_mem inside (List.mem_of_getLast? ends)
          rw [if_neg (fun within => before within.2), Nat.min_eq_right (by omega), scan?, scanEnd?,
            if_neg unfed, difference?_of_le (by omega)]
          rfl
  | fed body rest inside ih =>
      rw [lines_of_feed inside, find_of_feed inside, scan?]
      by_cases before : offset < start + Text.size (body ++ ['\n'])
      · rw [if_pos ⟨reached, before⟩, if_pos (by omega), difference?_of_le reached]
        rfl
      · have longer : ∀ line ∈ earlier ++ [body ++ ['\n']], line.getLast? = some '\n' := by
          intro line member
          rcases List.mem_append.mp member with early | this
          · exact fed line early
          · rw [List.mem_singleton.mp this, List.getLast?_concat]
        rw [if_neg (fun within => before within.2), if_neg (by omega), List.append_cons,
          ih longer (by omega), Nat.sub_add_eq]

/-- Scanning finds the line of an offset in every text. -/
theorem scanned?_eq (text : String) (offset : UInt32) :
    scanned? text offset = some (Line.at text offset) := by
  have none_fed : ∀ line ∈ ([] : List (List Char)), line.getLast? = some '\n' := by simp
  exact scan?_lines none_fed text.toList (Nat.zero_le offset.toNat) 1

/-- Each line feed in front of a place has its own offset. -/
theorem number_at_le (text : String) (offset : UInt32) : (Line.at text offset).number ≤ 2 ^ 32 := by
  have feeds := List.count_le_length (a := feed)
    (l := (Text.bytes text).take (place text offset))
  have taken := List.length_take_le (place text offset) (Text.bytes text)
  have within : place text offset ≤ offset.toNat := Nat.min_le_left _ _
  have bound := offset.toNat_lt
  rw [(at_locates text offset).number_eq]
  omega

theorem column_find_le {limit : Nat} (number : Nat) (text : List Char) (offset : Nat)
    (rows : ∀ row ∈ text.splitOn '\n', Text.size row ≤ limit) :
    (find number text offset).column ≤ limit := by
  induction text using feed_induction generalizing number offset with
  | unfed text inside =>
      rw [List.splitOn_eq_singleton (feed_not_mem inside)] at rows
      rw [find_of_unfed inside]
      exact Nat.le_trans (Nat.min_le_right _ _) (rows text (List.mem_singleton.mpr rfl))
  | fed body rest inside ih =>
      rw [List.splitOn_append_cons_self_of_not_mem (feed_not_mem inside),
        List.forall_mem_cons] at rows
      rw [find_of_feed inside]
      split
      · rename_i before
        have one : Text.size ['\n'] = 1 := by decide
        have row := rows.1
        rw [Text.size_append, one] at before
        show offset ≤ limit
        omega
      · exact ih _ _ rows.2

end Line

namespace Text

/-- What stands in a text behind a byte offset, unless the offset is inside a character or past the
end. -/
def behind? (text : String) (offset : Nat) : Option String :=
  if valid : String.Pos.Raw.IsValid text ⟨offset⟩ then
    some (text.sliceFrom ⟨⟨offset⟩, valid⟩).copy
  else none

theorem rawEndPos_ofList (text : List Char) : (String.ofList text).rawEndPos = ⟨size text⟩ := by
  rw [size_eq_utf8ByteSize]
  rfl

theorem eq_append_of_toList {text : String} {front back : List Char}
    (whole : text.toList = front ++ back) : text = String.ofList front ++ String.ofList back := by
  rw [← String.ofList_append, ← whole, String.ofList_toList]

theorem isValid_size {text : String} {front back : List Char} (whole : text.toList = front ++ back) :
    String.Pos.Raw.IsValid text ⟨size front⟩ := by
  rw [String.Pos.Raw.isValid_iff_exists_append]
  exact ⟨_, _, eq_append_of_toList whole, (rawEndPos_ofList front).symm⟩

theorem behind?_size {text : String} {front back : List Char} (whole : text.toList = front ++ back) :
    behind? text (size front) = some (String.ofList back) := by
  have valid := isValid_size whole
  have splits : (⟨⟨size front⟩, valid⟩ : text.Pos).Splits
      (String.ofList front) (String.ofList back) :=
    ⟨eq_append_of_toList whole, (rawEndPos_ofList front).symm⟩
  rw [behind?, dif_pos valid, splits.copy_sliceFrom_eq]

end Text

namespace Diagnostic

/-- A text behind as much filling as makes it `width` wide, unless that is too wide. -/
def padded? (width : Nat) (fill : Char) (text : String) : Option String :=
  if width ≤ caretLimit then some (repeated (width - text.length) fill ++ text) else none

/-- The report of a diagnostic against the text of its source, where each step may fail. -/
def stepped? (diagnostic : Diagnostic) (text : String) : Option String := do
  let line ← Line.scanned? text diagnostic.position.offset
  let number := line.number.repr
  let bar ← padded? (number.length + 2) ' ' "|"
  let indent := (indentation line.text.toList).length
  let unindented ← Text.behind? line.text indent
  let caret ← padded? (line.column - indent + 1) '-' "^"
  return "Error: " ++ diagnostic.fault.label ++ " (" ++ diagnostic.fault.tip ++ ")\n" ++
    "-> " ++ diagnostic.position.source ++ "\n" ++
    bar ++ "\n" ++
    number ++ " | " ++ String.ofList (Text.trimEnd unindented.toList) ++ "\n" ++
    bar ++ " " ++ caret

theorem size_indentation (text : List Char) :
    Text.size (indentation text) = (indentation text).length :=
  Text.size_of_indents fun c member => (isIndent_iff c).mp (List.mem_takeWhile_imp member)

theorem indentation_append (text : List Char) :
    text = indentation text ++ text.dropWhile Text.isIndent :=
  List.takeWhile_append_dropWhile.symm

theorem behind?_indentation (text : String) :
    Text.behind? text (indentation text.toList).length =
      some (String.ofList (text.toList.dropWhile Text.isIndent)) := by
  rw [← size_indentation]
  exact Text.behind?_size (indentation_append text.toList)

/-- The bar is never too far to the right, because the number of a line has at most ten digits. -/
theorem padded?_bar (text : String) (offset : UInt32) :
    padded? ((Line.at text offset).number.repr.length + 2) ' ' "|" =
      some (repeated ((Line.at text offset).number.repr.length + 1) ' ' ++ "|") := by
  have bound := Line.number_at_le text offset
  have digits := Nat.repr_length (Line.at text offset).number 10 (by omega) (by omega)
  rw [padded?, if_pos (by rw [caretLimit]; omega)]
  rfl

theorem padded?_caret (line : Line) :
    padded? (line.column - (indentation line.text.toList).length + 1) '-' "^" =
      if dashes line + 1 ≤ caretLimit then some (repeated (dashes line) '-' ++ "^") else none :=
  rfl

/-- Nothing but the width of the caret line makes a report fail. -/
theorem stepped?_eq_report? (diagnostic : Diagnostic) (text : String) :
    diagnostic.stepped? text = diagnostic.report? text := by
  have bar := padded?_bar text diagnostic.position.offset
  rw [stepped?, report?, Line.scanned?_eq]
  generalize Line.at text diagnostic.position.offset = line at bar ⊢
  simp only [Option.bind_eq_bind, Option.bind_some, bar, behind?_indentation, padded?_caret]
  by_cases narrow : dashes line + 1 ≤ caretLimit
  · rw [if_pos narrow, if_pos narrow, Option.bind_some, String.toList_ofList,
      ← String.append_assoc]
    rfl
  · rw [if_neg narrow, if_neg narrow]
    rfl

theorem report?_eq_none_iff (diagnostic : Diagnostic) (text : String) :
    diagnostic.report? text = none ↔
      caretLimit < dashes (Line.at text diagnostic.position.offset) + 1 := by
  simp [report?]

theorem exists_report {text : String}
    (rows : ∀ row ∈ text.toList.splitOn '\n', Text.size row ≤ 65534) (diagnostic : Diagnostic) :
    ∃ report, diagnostic.report? text = some report := by
  have column := Line.column_find_le 1 text.toList diagnostic.position.offset.toNat rows
  rw [← Option.ne_none_iff_exists', ne_eq, report?_eq_none_iff, dashes, caretLimit, Line.at]
  omega

theorem dashes_replicate {letter : Char} (ascii : letter.val ≤ 127)
    (continues : Line.continues letter = true) (solid : Text.isIndent letter = false) {count : Nat}
    {offset : UInt32} (within : offset.toNat ≤ count) :
    dashes (Line.at (String.ofList (List.replicate count letter)) offset) = offset.toNat := by
  have inside : ∀ c ∈ List.replicate count letter, Line.continues c = true := by
    intro c member
    rwa [List.eq_of_mem_replicate member]
  have size_eq : Text.size (List.replicate count letter) = count := by
    rw [(Text.size_eq_length_iff _).mpr, List.length_replicate]
    intro c member
    rwa [List.eq_of_mem_replicate member]
  rw [Line.at, String.toList_ofList, Line.find_of_unfed inside, size_eq, Nat.min_eq_left within,
    dashes, String.toList_ofList, indentation, List.takeWhile_replicate]
  simp [solid]

/-- Writing a report goes as far as the caret line, whatever the diagnostic and the text: the offset
has a line, the indentation of that line ends between two characters, and there is no report
exactly if the dashes and the caret are more than 65535. No fault of a text is without a report if
its lines have at most 65534 bytes in front of their line feeds. -/
theorem fails_iff_wide (text : String) :
    (∀ diagnostic : Diagnostic,
      diagnostic.stepped? text = diagnostic.report? text ∧
      ∃ line indent shown blanks,
        Line.at text diagnostic.position.offset = line ∧
        line.Locates 1 (Text.bytes text) (Line.place text diagnostic.position.offset) ∧
        Shows line.text.toList indent shown blanks ∧
        String.Pos.Raw.IsValid line.text ⟨indent.length⟩ ∧
        (diagnostic.report? text = none ↔ 65535 < line.column - indent.length + 1)) ∧
    ((∀ row ∈ text.toList.splitOn '\n', Text.size row ≤ 65534) →
      ∀ source diagnostics, parse source text = .error diagnostics →
        ∀ diagnostic ∈ diagnostics, ∃ report, diagnostic.report? text = some report) := by
  constructor
  · intro diagnostic
    refine ⟨stepped?_eq_report? diagnostic text, _, _, _, _, rfl, Line.at_locates text _,
      shows_shownText _, ?_, report?_eq_none_iff diagnostic text⟩
    rw [← size_indentation]
    exact Text.isValid_size (indentation_append _)
  · intro rows source diagnostics _ diagnostic _
    exact exists_report rows diagnostic

/-- Both faults of a short text are reported. On a line of 65535 letters the last letter has the
widest caret line, and the end of the line has no report. -/
theorem fails_iff_wide_letters :
    ((∀ row ∈ "é;\n\t )".toList.splitOn '\n', Text.size row ≤ 65534) ∧
      parse shellName "é;\n\t )" = .error
        [⟨.noOperand .illegal "é", ⟨0, shellName⟩⟩, ⟨.noOperand .rparen ")", ⟨6, shellName⟩⟩] ∧
      ∃ report, report? ⟨.noOperand .rparen ")", ⟨6, shellName⟩⟩ "é;\n\t )" = some report) ∧
    ∃ text : String, text.toList = List.replicate 65535 'a' ∧
      (∃ report, report? ⟨.badInteger "a", ⟨65534, shellName⟩⟩ text = some report) ∧
      report? ⟨.badInteger "a", ⟨65535, shellName⟩⟩ text = none := by
  constructor
  · have rows : ∀ row ∈ "é;\n\t )".toList.splitOn '\n', Text.size row ≤ 65534 := by decide +kernel
    have failed : parse shellName "é;\n\t )" = .error
        [⟨.noOperand .illegal "é", ⟨0, shellName⟩⟩, ⟨.noOperand .rparen ")", ⟨6, shellName⟩⟩] := by
      decide +kernel
    exact ⟨rows, failed, (fails_iff_wide _).2 rows _ _ failed _ (by simp)⟩
  · have fails_iff (offset : UInt32) (within : offset.toNat ≤ 65535) :
        report? ⟨.badInteger "a", ⟨offset, shellName⟩⟩
            (String.ofList (List.replicate 65535 'a')) = none ↔ 65535 < offset.toNat + 1 := by
      rw [report?_eq_none_iff, dashes_replicate (by decide) (by decide) (by decide) within]
      rfl
    refine ⟨String.ofList (List.replicate 65535 'a'), String.toList_ofList, ?_, ?_⟩
    · rw [← Option.ne_none_iff_exists', ne_eq, fails_iff 65534 (by decide)]
      decide
    · rw [fails_iff 65535 (by decide)]
      decide

end Diagnostic

end LetLang
