import LetLang.Diagnostic.Report
import LetLang.Proofs.Earliest
import LetLang.Proofs.Lines

set_option autoImplicit false

namespace LetLang

/-- A text has as many bytes as characters exactly if all its characters are ASCII. -/
theorem Text.size_eq_length_iff (text : List Char) :
    size text = text.length ↔ ∀ c ∈ text, c.val ≤ 127 := by
  induction text with
  | nil => simp
  | cons first rest ih =>
      have one := first.utf8Size_pos
      have least := length_le_size rest
      rw [size_cons, List.length_cons, List.forall_mem_cons, ← Char.utf8Size_eq_one_iff, ← ih]
      omega

theorem Text.size_of_indents {text : List Char} (indents : ∀ c ∈ text, c = ' ' ∨ c = '\t') :
    size text = text.length := by
  refine (size_eq_length_iff text).mpr fun c member => ?_
  rcases indents c member with rfl | rfl <;> decide

namespace Diagnostic

/-- The text of a line in three parts: the spaces and tabs it begins with, what a report shows of
it, and the blanks at its end. -/
structure Shows (text indent shown blanks : List Char) : Prop where
  whole : text = indent ++ (shown ++ blanks)
  indents : ∀ c ∈ indent, c = ' ' ∨ c = '\t'
  starts : ∀ c ∈ (shown ++ blanks).head?, c ≠ ' ' ∧ c ≠ '\t'
  blank : ∀ c ∈ blanks, Text.isBlank c = true
  ends : ∀ c ∈ shown.getLast?, Text.isBlank c = false

theorem isIndent_iff (c : Char) : Text.isIndent c = true ↔ c = ' ' ∨ c = '\t' := by
  simp [Text.isIndent]

theorem head?_dropWhile_isIndent (text : List Char) :
    ∀ c ∈ (text.dropWhile Text.isIndent).head?, c ≠ ' ' ∧ c ≠ '\t' := by
  have stopped := Segmentation.head?_dropWhile_not isIndent_iff text
  simpa only [not_or] using stopped

theorem shows_shownText (text : List Char) :
    Shows text (indentation text) (shownText text)
      ((text.dropWhile Text.isIndent).rtakeWhile Text.isBlank) := by
  have parts : shownText text ++ (text.dropWhile Text.isIndent).rtakeWhile Text.isBlank =
      text.dropWhile Text.isIndent := List.rdropWhile_append_rtakeWhile ..
  refine ⟨?_, ?_, ?_, fun c member => List.mem_rtakeWhile_imp member, ?_⟩
  · rw [parts, indentation, List.takeWhile_append_dropWhile]
  · exact fun c member => (isIndent_iff c).mp (List.mem_takeWhile_imp member)
  · rw [parts]
    exact head?_dropWhile_isIndent text
  · intro c last
    have some_char : shownText text ≠ [] := by
      rintro empty
      simp [empty] at last
    have solid := List.rdropWhile_last_not (p := Text.isBlank)
      (l := text.dropWhile Text.isIndent) some_char
    rw [List.getLast?_eq_getLast_of_ne_nil some_char] at last
    cases last
    exact Bool.eq_false_iff.mpr solid

def headerRow (diagnostic : Diagnostic) : List Char :=
  ("Error: " ++ diagnostic.fault.label ++ " (" ++ diagnostic.fault.tip ++ ")").toList

/-- The row above the line, which is also what the row below it begins with. -/
def margin (line : Line) : List Char :=
  List.replicate (line.number.repr.length + 1) ' ' ++ ['|']

def codeRow (line : Line) : List Char :=
  line.number.repr.toList ++ ([' ', '|', ' '] ++ shownText line.text.toList)

def caretRow (line : Line) : List Char :=
  margin line ++ (' ' :: (List.replicate (dashes line) '-' ++ ['^']))

theorem toList_reportAt (diagnostic : Diagnostic) (line : Line) :
    (diagnostic.reportAt line).toList =
      ['\n'].intercalate [headerRow diagnostic, "-> ".toList ++ diagnostic.position.source.toList,
        margin line, codeRow line, caretRow line] := by
  unfold reportAt
  simp [headerRow, margin, codeRow, caretRow, repeated, List.intercalate_cons_cons]

theorem reportAt_of_report? {diagnostic : Diagnostic} {text report : String}
    (written : diagnostic.report? text = some report) :
    diagnostic.reportAt (Line.at text diagnostic.position.offset) = report := by
  rw [report?] at written
  split at written
  · exact Option.some.inj written
  · cases written

theorem not_mem_repr {c : Char} (other : c.isDigit = false) (number : Nat) :
    c ∉ number.repr.toList := by
  intro member
  rw [Nat.toList_repr] at member
  have digit := Nat.isDigit_of_mem_toDigits (by omega) (by omega) member
  rw [other] at digit
  contradiction

theorem feed_not_mem_caretRow (line : Line) : '\n' ∉ caretRow line := by
  simp [caretRow, margin]

theorem opened_reportAt (diagnostic : Diagnostic) (line : Line) :
    Line.opened (diagnostic.reportAt line).toList = caretRow line := by
  have continued : ∀ c ∈ caretRow line, Line.continues c = true := by
    intro c member
    rw [Line.continues_iff]
    rintro rfl
    exact feed_not_mem_caretRow line member
  rw [toList_reportAt]
  exact Line.opened_intercalate continued [_, _, _, _]

/-- A report has five rows if no line feed is in what it shows. -/
theorem splitOn_reportAt (diagnostic : Diagnostic) (line : Line)
    (tip : '\n' ∉ diagnostic.fault.tip.toList)
    (source : '\n' ∉ diagnostic.position.source.toList)
    (shown : '\n' ∉ shownText line.text.toList) :
    List.splitOn '\n' (diagnostic.reportAt line).toList =
      [headerRow diagnostic, "-> ".toList ++ diagnostic.position.source.toList, margin line,
        codeRow line, caretRow line] := by
  have header : '\n' ∉ headerRow diagnostic := by
    have label : '\n' ∉ diagnostic.fault.label.toList := by
      cases diagnostic.fault <;> simp [Fault.label]
    simp [headerRow, label, tip]
  have code : '\n' ∉ codeRow line := by
    have digits := not_mem_repr (show '\n'.isDigit = false by decide) line.number
    rw [Nat.toList_repr] at digits
    simp [codeRow, shown, digits]
  rw [toList_reportAt]
  apply List.splitOn_intercalate
  · have bar : '\n' ∉ margin line := by simp [margin]
    simpa [source] using ⟨header, bar, code, feed_not_mem_caretRow line⟩
  · simp

/-- The bars of the last three rows stand one below the other. -/
theorem idxOf_bar (line : Line) :
    ∀ row ∈ [margin line, codeRow line, caretRow line],
      row.idxOf '|' = line.number.repr.length + 1 := by
  have bar : '|' ∉ List.replicate (line.number.repr.length + 1) ' ' := by simp
  have digits : '|' ∉ line.number.repr.toList := not_mem_repr (by decide) line.number
  have margin_eq (rest : List Char) :
      (margin line ++ rest).idxOf '|' = line.number.repr.length + 1 := by
    rw [margin, List.append_assoc, List.idxOf_append_of_notMem bar]
    simp
  have code_eq : (codeRow line).idxOf '|' = line.number.repr.length + 1 := by
    rw [codeRow, List.idxOf_append_of_notMem digits, String.length_toList]
    rfl
  have alone := margin_eq []
  rw [List.append_nil] at alone
  simp only [List.forall_mem_cons, List.not_mem_nil, false_imp_iff, implies_true, and_true]
  exact ⟨alone, code_eq, margin_eq _⟩

/-- What is shown of a line has no line feed: it ends the line, and blanks are cut off there. -/
theorem feed_not_mem_shownText (text : String) (offset : UInt32) :
    '\n' ∉ shownText (Line.at text offset).text.toList := by
  obtain ⟨body, inside, ended⟩ := Line.exists_feed_of_find 1 text.toList offset.toNat
  have unfed : '\n' ∉ shownText body := by
    intro member
    have kept : '\n' ∈ body :=
      (List.dropWhile_sublist _).mem ((List.rdropWhile_prefix _ _).mem member)
    exact Line.feed_not_mem inside kept
  rcases ended with whole | whole
  · rwa [Line.at, whole]
  · have stops : ∀ c ∈ ['\n'].head?, Text.isIndent c = false := by simp [Text.isIndent]
    obtain ⟨_, dropped⟩ := takeWhile_append_of_stops Text.isIndent body ['\n'] fun _ => stops
    have same : shownText (body ++ ['\n']) = shownText body := by
      rw [shownText, dropped]
      exact List.rdropWhile_concat_pos _ _ _ (by decide)
    rwa [Line.at, whole, same]

end Diagnostic

/-- The tip against a fault has no line feed if the literal of the token has none. -/
theorem Parse.Explains.feed_not_mem_tip {before : List Token} {token : Token} {fault : Fault}
    (explains : Explains before token fault) (unfed : '\n' ∉ token.literal.toList) :
    '\n' ∉ fault.tip.toList := by
  cases explains with
  | unnamed => simp [Fault.tip.eq_def]
  | unassigned => simp [Fault.tip.eq_def]
  | noOperand =>
      have name : '\n' ∉ token.kind.name.toList := by cases token.kind <;> decide
      simp [Fault.tip.eq_def, unfed, name]
  | badInteger => simp [Fault.tip.eq_def, unfed]

/-- A token on a line: the spaces and tabs that the line begins with, what stands between those and
the token, and what follows the token. -/
structure Token.OnLine (token : Token) (line : Line) (indent between after : List Char) :
    Prop where
  whole : line.text.toList = indent ++ (between ++ (token.literal.toList ++ after))
  column_eq : line.column = Text.size (indent ++ between)
  indents : ∀ c ∈ indent, c = ' ' ∨ c = '\t'
  starts : ∀ c ∈ (between ++ (token.literal.toList ++ after)).head?, c ≠ ' ' ∧ c ≠ '\t'
  at_end : token.kind = .eof → token.literal.toList ++ after = []

theorem Token.Occurs.exists_onLine {source text : String} {token : Token} {front back : List Char}
    (occurs : token.Occurs source text front back) (short : text.utf8ByteSize < 2 ^ 32) :
    ∃ indent between after,
      token.OnLine (Line.at text token.start.offset) indent between after := by
  have parts := (Line.opened front).takeWhile_append_dropWhile (p := Text.isIndent)
  have ending (empty : token.literal.toList = []) :
      token.literal.toList ++ Line.first back = [] := by
    rw [empty, occurs.at_end empty]
    rfl
  rw [occurs.line_eq short]
  refine ⟨(Line.opened front).takeWhile Text.isIndent, (Line.opened front).dropWhile Text.isIndent,
    Line.first back, ?_, ?_, ?_, ?_, fun kind => ending (occurs.empty kind)⟩
  · rw [String.toList_ofList, ← List.append_assoc (List.takeWhile ..), parts]
  · rw [parts]
  · exact fun c member => (Diagnostic.isIndent_iff c).mp (List.mem_takeWhile_imp member)
  · intro c first
    cases between : (Line.opened front).dropWhile Text.isIndent with
    | cons head rest =>
        have stopped := Diagnostic.head?_dropWhile_isIndent (Line.opened front)
        rw [between] at stopped first
        exact stopped c first
    | nil =>
        -- The token itself is the first thing behind the indentation, and it has no gaps.
        rw [between, List.nil_append] at first
        cases literal : token.literal.toList with
        | nil =>
            rw [ending literal] at first
            cases first
        | cons head rest =>
            rw [literal] at first
            cases first
            have solid := occurs.solid c (by simp [literal])
            constructor <;> rintro rfl <;> exact absurd solid (by decide)

namespace Token.OnLine

variable {token : Token} {line : Line} {indent between after : List Char}

theorem indentation_eq (onLine : token.OnLine line indent between after) :
    Diagnostic.indentation line.text.toList = indent := by
  have all : ∀ c ∈ indent, Text.isIndent c = true := fun c member =>
    (Diagnostic.isIndent_iff c).mpr (onLine.indents c member)
  have stopped : ∀ c ∈ (between ++ (token.literal.toList ++ after)).head?,
      Text.isIndent c = false := by
    intro c first
    rw [← Bool.not_eq_true, Diagnostic.isIndent_iff, not_or]
    exact onLine.starts c first
  have ⟨taken, _⟩ := takeWhile_append_of_stops Text.isIndent indent _ fun _ => stopped
  rw [Diagnostic.indentation, onLine.whole, taken, List.takeWhile_eq_self_iff.mpr all]

theorem size_indent (onLine : token.OnLine line indent between after) :
    Text.size indent = indent.length :=
  Text.size_of_indents onLine.indents

theorem column_eq_add (onLine : token.OnLine line indent between after) :
    line.column = indent.length + Text.size between := by
  rw [onLine.column_eq, Text.size_append, onLine.size_indent]

/-- The caret row has a dash for each byte between the indentation and the token. -/
theorem dashes_eq (onLine : token.OnLine line indent between after) :
    Diagnostic.dashes line = Text.size between := by
  rw [Diagnostic.dashes, onLine.indentation_eq, onLine.column_eq_add, Nat.add_sub_cancel_left]

theorem bytes_eq (onLine : token.OnLine line indent between after) :
    Extent.bytes line.text ⟨line.column, line.column + token.literal.utf8ByteSize⟩ =
      token.literal.toByteArray := by
  have whole := onLine.whole
  rw [← List.append_assoc] at whole
  have found := (Extent.bytes_of_append whole).1
  rwa [← onLine.column_eq, Text.size_toList, String.ofList_toList] at found

theorem column_of_eof (onLine : token.OnLine line indent between after)
    (kind : token.kind = .eof) : line.column = line.text.utf8ByteSize := by
  rw [← Text.size_toList, onLine.whole, onLine.at_end kind, List.append_nil, onLine.column_eq]

end Token.OnLine

/-- Each diagnostic names a token of the text, and no other token starts there. -/
theorem exists_named_token {source text : String} (short : text.utf8ByteSize < 2 ^ 32)
    {diagnostics : List Diagnostic} (failed : parse source text = .error diagnostics)
    {diagnostic : Diagnostic} (reported : diagnostic ∈ diagnostics) :
    ∃ token front back before,
      (tokenize source text).filter
        (fun other => other.start.offset = diagnostic.position.offset) = [token] ∧
      diagnostic.position = token.start ∧ token.Occurs source text front back ∧
      Parse.Explains before token diagnostic.fault := by
  rw [← ((parse_eq_error_iff _ _ _).mp failed).2] at reported
  obtain ⟨piece, member, before, token, after, piece_eq, position, _, explains⟩ :=
    Parse.exists_firstWrong (Parse.runs_start source text) rfl (spelled_tokens source text) reported
  have here : token ∈ tokenize source text := mem_of_mem_pieces member (by simp [piece_eq])
  obtain ⟨front, back, occurs⟩ := occurs_of_mem_tokenize here
  refine ⟨token, front, back, before, ?_, position, occurs, explains⟩
  have only := filter_eq_singleton (Cursor.allTokens_starts source text short) here
  rw [position]
  simpa only [UInt32.toNat_inj, tokenize] using only

/-- The caret row has a dash for each byte between the indentation of the line and the token that
the diagnostic names. So there is one for each character exactly if all of these are ASCII. -/
theorem parse_report_caret (source text : String) (short : text.utf8ByteSize < 2 ^ 32)
    (diagnostics : List Diagnostic) (failed : parse source text = .error diagnostics)
    (diagnostic : Diagnostic) (reported : diagnostic ∈ diagnostics) (report : String)
    (written : diagnostic.report? text = some report) :
    ∃ token indent between after,
      (tokenize source text).filter
        (fun other => other.start.offset = diagnostic.position.offset) = [token] ∧
      token.OnLine (Line.at text diagnostic.position.offset) indent between after ∧
      Line.opened report.toList =
        Diagnostic.margin (Line.at text diagnostic.position.offset) ++
          (' ' :: (List.replicate (Text.size between) '-' ++ ['^'])) ∧
      ((Line.opened report.toList).count '-' = between.length ↔ ∀ c ∈ between, c.val ≤ 127) := by
  obtain ⟨token, front, back, _, only, position, occurs, _⟩ :=
    exists_named_token short failed reported
  obtain ⟨indent, between, after, onLine⟩ := occurs.exists_onLine short
  rw [← position] at onLine
  have row : Line.opened report.toList =
      Diagnostic.margin (Line.at text diagnostic.position.offset) ++
        (' ' :: (List.replicate (Text.size between) '-' ++ ['^'])) := by
    rw [← Diagnostic.reportAt_of_report? written, Diagnostic.opened_reportAt, Diagnostic.caretRow,
      onLine.dashes_eq]
  refine ⟨token, indent, between, after, only, onLine, row, ?_⟩
  rw [row, ← Text.size_eq_length_iff]
  simp [Diagnostic.margin, List.count_append, List.count_replicate]

/-- The accented letter takes two bytes, so the caret is one place too far to the right. -/
theorem parse_report_caret_accented :
    parse shellName "let a = é; )" = .error [⟨.noOperand .rparen ")", ⟨12, shellName⟩⟩] ∧
      ∃ report token indent between after,
        Diagnostic.report? ⟨.noOperand .rparen ")", ⟨12, shellName⟩⟩ "let a = é; )" =
          some report ∧
        (tokenize shellName "let a = é; )").filter (fun other => other.start.offset = 12) =
          [token] ∧
        token.kind = .rparen ∧ token.OnLine (Line.at "let a = é; )" 12) indent between after ∧
        (Line.opened report.toList).count '-' = 12 ∧ between.length = 11 := by
  have failed : parse shellName "let a = é; )" =
      .error [⟨.noOperand .rparen ")", ⟨12, shellName⟩⟩] := by decide +kernel
  have written : Diagnostic.report? ⟨.noOperand .rparen ")", ⟨12, shellName⟩⟩ "let a = é; )" =
      some ("Error: NoPrefixParseFn (`)` (RPAREN) cannot start an expression)\n-> shell\n" ++
        "  |\n1 | let a = é; )\n  | ------------^") := by decide +kernel
  obtain ⟨token, indent, between, after, only, onLine, _, _⟩ :=
    parse_report_caret shellName "let a = é; )" (by decide) _ failed _
      (List.mem_singleton.mpr rfl) _ written
  have found : (tokenize shellName "let a = é; )").filter
      (fun other => other.start.offset = 12) =
        [⟨.rparen, ")", ⟨⟨12, shellName⟩, ⟨13, shellName⟩⟩⟩] := by decide +kernel
  have line : Line.at "let a = é; )" 12 = ⟨1, "let a = é; )", 12⟩ := by decide +kernel
  obtain rfl := List.singleton_inj.mp (only.symm.trans found)
  refine ⟨failed, _, _, indent, between, after, written, found, rfl, onLine, by decide +kernel, ?_⟩
  rw [line] at onLine
  have unindented : indent.length = 0 := congrArg List.length onLine.indentation_eq.symm
  have column : 12 = indent.length + Text.size between := onLine.column_eq_add
  have sizes : 13 = Text.size (indent ++ (between ++ (")".toList ++ after))) :=
    congrArg Text.size onLine.whole
  have lengths : 12 = (indent ++ (between ++ (")".toList ++ after))).length :=
    congrArg List.length onLine.whole
  -- The sizes leave nothing behind the token, and then the lengths count what is in front.
  have least := Text.length_le_size after
  have paren : Text.size ")".toList = 1 := by decide
  have one : ")".toList.length = 1 := by decide
  simp only [Text.size_append, List.length_append, onLine.size_indent, paren, one] at sizes lengths
  omega

/-- A diagnostic points to its token on the line, behind the indentation, and its report has five
rows: what is wrong, the source, and the line between two rows whose bars stand below one another,
with as many dashes as the column is behind the indentation. -/
theorem parse_report_rows (source text : String) (short : text.utf8ByteSize < 2 ^ 32)
    (unfed : '\n' ∉ source.toList)
    (diagnostics : List Diagnostic) (failed : parse source text = .error diagnostics)
    (diagnostic : Diagnostic) (reported : diagnostic ∈ diagnostics)
    (line : Line) (located : Line.at text diagnostic.position.offset = line) :
    ∃ token indent shown blanks,
      (tokenize source text).filter
        (fun other => other.start.offset = diagnostic.position.offset) = [token] ∧
      Extent.bytes line.text ⟨line.column, line.column + token.literal.utf8ByteSize⟩ =
        token.literal.toByteArray ∧
      (token.kind = .eof → line.column = line.text.utf8ByteSize) ∧
      Diagnostic.Shows line.text.toList indent shown blanks ∧ indent.length ≤ line.column ∧
      ∀ report, diagnostic.report? text = some report →
        List.splitOn '\n' report.toList =
          [Diagnostic.headerRow diagnostic, "-> ".toList ++ source.toList, Diagnostic.margin line,
            line.number.repr.toList ++ ([' ', '|', ' '] ++ shown),
            Diagnostic.margin line ++
              (' ' :: (List.replicate (line.column - indent.length) '-' ++ ['^']))] ∧
        ∀ row ∈ (List.splitOn '\n' report.toList).drop 2,
          row.idxOf '|' = line.number.repr.length + 1 := by
  obtain ⟨token, front, back, before, only, position, occurs, explains⟩ :=
    exists_named_token short failed reported
  obtain ⟨indent, between, after, onLine⟩ := occurs.exists_onLine short
  rw [← position, located] at onLine
  refine ⟨token, _, _, _, only, onLine.bytes_eq, onLine.column_of_eof,
    Diagnostic.shows_shownText _, ?_, ?_⟩
  · rw [onLine.indentation_eq, onLine.column_eq_add]
    exact Nat.le_add_right _ _
  · intro report written
    have source_eq : diagnostic.position.source = source := by rw [position, occurs.start_eq]; rfl
    have solid : '\n' ∉ token.literal.toList := fun member =>
      (Line.continues_iff _).mp (occurs.continues _ member) rfl
    have rows := Diagnostic.splitOn_reportAt diagnostic line
      (explains.feed_not_mem_tip solid) (by rwa [source_eq])
      (by rw [← located]; exact Diagnostic.feed_not_mem_shownText text _)
    rw [← Diagnostic.reportAt_of_report? written, located, rows, source_eq]
    exact ⟨rfl, Diagnostic.idxOf_bar line⟩

theorem parse_report_rows_indented :
    parse "main" "a;\r\n\t let 10;\r\n" = .error [⟨.unexpected .ident .int, ⟨10, "main"⟩⟩] ∧
      Line.at "a;\r\n\t let 10;\r\n" 10 = ⟨2, "\t let 10;\r\n", 6⟩ ∧
      ∃ indent shown blanks report,
        Diagnostic.Shows "\t let 10;\r\n".toList indent shown blanks ∧ indent.length ≤ 6 ∧
        Diagnostic.report? ⟨.unexpected .ident .int, ⟨10, "main"⟩⟩ "a;\r\n\t let 10;\r\n" =
          some report ∧
        (List.splitOn '\n' report.toList).length = 5 ∧
        ∀ row ∈ (List.splitOn '\n' report.toList).drop 2, row.idxOf '|' = 2 := by
  have failed : parse "main" "a;\r\n\t let 10;\r\n" =
      .error [⟨.unexpected .ident .int, ⟨10, "main"⟩⟩] := by decide +kernel
  have line : Line.at "a;\r\n\t let 10;\r\n" 10 = ⟨2, "\t let 10;\r\n", 6⟩ := by decide +kernel
  have written : Diagnostic.report? ⟨.unexpected .ident .int, ⟨10, "main"⟩⟩
      "a;\r\n\t let 10;\r\n" =
        some ("Error: UnexpectedToken (a binding needs a name, e.g. `let x = 5;`)\n-> main\n" ++
          "  |\n2 | let 10;\n  | ----^") := by decide +kernel
  obtain ⟨_, indent, shown, blanks, _, _, _, shows_eq, least, rows⟩ :=
    parse_report_rows "main" "a;\r\n\t let 10;\r\n" (by decide) (by decide) _ failed _
      (List.mem_singleton.mpr rfl) _ line
  obtain ⟨five, bars⟩ := rows _ written
  exact ⟨failed, line, indent, shown, blanks, _, shows_eq, least, written, by rw [five]; rfl, bars⟩

end LetLang
