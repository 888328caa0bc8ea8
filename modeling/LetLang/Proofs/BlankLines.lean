import LetLang.Proofs.Draws
import LetLang.Proofs.Shell
import LetLang.Proofs.Straddle
import LetLang.Proofs.Stuck

set_option autoImplicit false

namespace LetLang

namespace Text

theorem isBlank_of_graphic {c : Char} (lower : 0x20 < c.toNat) (upper : c.toNat < 0x85) :
    isBlank c = false := by
  simp only [isBlank, blankRanges, List.any_cons, List.any_nil, Bool.or_false, Bool.or_eq_false_iff,
    Bool.and_eq_false_iff, decide_eq_false_iff_not]
  omega

theorem allBlank_of_isGap {text : List Char} (gap : ∀ c ∈ text, isGap c = true) :
    allBlank text = true := by
  rw [allBlank, List.all_eq_true]
  exact fun c member => isBlank_of_isGap c (gap c member)

end Text

/-- A token that is a single blank character and stands in no gap. -/
def Token.StrayBlank (token : Token) : Prop :=
  token.kind = .illegal ∧ ∃ c, token.literal.toList = [c] ∧ Text.isBlank c = true

namespace Segmentation

theorem WordChar.isBlank_eq_false {c : Char} (letter : WordChar c) : Text.isBlank c = false := by
  rcases letter with ⟨lower, upper⟩ | ⟨lower, upper⟩ | rfl
  · have lower' : 97 ≤ c.toNat := lower
    have upper' : c.toNat ≤ 122 := upper
    exact Text.isBlank_of_graphic (by omega) (by omega)
  · have lower' : 65 ≤ c.toNat := lower
    have upper' : c.toNat ≤ 90 := upper
    exact Text.isBlank_of_graphic (by omega) (by omega)
  · decide

theorem DigitChar.isBlank_eq_false {c : Char} (digit : DigitChar c) : Text.isBlank c = false := by
  have lower : 48 ≤ c.toNat := digit.1
  have upper : c.toNat ≤ 57 := digit.2
  exact Text.isBlank_of_graphic (by omega) (by omega)

/-- No word, numeral, operator or mark is blank. -/
theorem Regular.exists_not_blank {kind : Kind} {text after : List Char}
    (form : Regular kind text after) : ∃ c ∈ text, Text.isBlank c = false := by
  cases form with
  | word some_char inside _ _ =>
      have member := List.head_mem some_char
      exact ⟨_, member, (inside _ member).isBlank_eq_false⟩
  | numeral some_char inside _ =>
      have member := List.head_mem some_char
      exact ⟨_, member, (inside _ member).isBlank_eq_false⟩
  | equal => exact ⟨'=', by simp, by decide⟩
  | notEqual => exact ⟨'!', by simp, by decide⟩
  | assign _ => exact ⟨'=', by simp, by decide⟩
  | bang _ => exact ⟨'!', by simp, by decide⟩
  | mark marks => exact ⟨_, List.mem_singleton.mpr rfl, by cases marks <;> decide⟩

/-- A literal of blank characters is a stray one. -/
theorem Lexes.stray_of_blank {kind : Kind} {text after : List Char}
    (lexes : Lexes kind text after) (blank : ∀ c ∈ text, Text.isBlank c = true) :
    kind = .illegal ∧ ∃ c, text = [c] ∧ Text.isBlank c = true := by
  cases lexes with
  | regular form =>
      obtain ⟨c, member, solid⟩ := form.exists_not_blank
      rw [blank c member] at solid
      cases solid
  | @stray c _ _ _ => exact ⟨rfl, c, rfl, blank c (List.mem_singleton.mpr rfl)⟩

end Segmentation

open Segmentation

namespace Cursor

/-- The text ahead is blank exactly if all literals in it are. -/
theorem blank_iff_literals (cursor : Cursor) :
    (∀ c ∈ cursor.rest, Text.isBlank c = true) ↔
      ∀ token ∈ cursor.tokens, ∀ c ∈ token.literal.toList, Text.isBlank c = true := by
  induction cursor using Cursor.induction with
  | ended cursor step =>
      have gap := isGap_of_tokens_eq_nil (tokens_of_none step)
      rw [tokens_of_none step]
      simpa using fun c member => Text.isBlank_of_isGap c (gap c member)
  | drawn cursor token after step ih =>
      have gap : ∀ c ∈ cursor.rest.takeWhile Text.isGap, Text.isBlank c = true :=
        fun c member => Text.isBlank_of_isGap c (List.mem_takeWhile_imp member)
      rw [tokens_of_some step, List.forall_mem_cons, ← ih, rest_of_next? step,
        List.forall_mem_append, List.forall_mem_append]
      exact ⟨fun blank => blank.2, fun blank => ⟨gap, blank⟩⟩

theorem tokens_eq_nil_iff (cursor : Cursor) :
    cursor.tokens = [] ↔ ∀ c ∈ cursor.rest, Text.isGap c = true := by
  refine ⟨isGap_of_tokens_eq_nil, fun gap => tokens_of_none ?_⟩
  exact cursor.next?_eq_none_iff.mpr (List.dropWhile_eq_nil_iff.mpr gap)

/-- A text is blank exactly if its tokens are stray blanks. -/
theorem allBlank_iff_strayBlank (source text : String) :
    Text.allBlank text.toList = true ↔
      ∀ token ∈ (ofText source text).tokens, token.StrayBlank := by
  rw [Text.allBlank, List.all_eq_true]
  constructor
  · intro blank token member
    obtain ⟨after, lexes⟩ := spelled_tokens source text token member
    exact lexes.stray_of_blank ((ofText source text).blank_iff_literals.mp blank token member)
  · intro strays
    apply (ofText source text).blank_iff_literals.mpr
    intro token member c inside
    obtain ⟨_, stray, literal_eq, blank⟩ := strays token member
    rw [literal_eq, List.mem_singleton] at inside
    rwa [inside]

end Cursor

/-- There is nothing to draw but the end token exactly if the text is a gap. -/
theorem kinds_tokenize_iff (source text : String) :
    (tokenize source text).map Token.kind = [.eof] ↔ ∀ c ∈ text.toList, GapChar c := by
  have none_iff := (Cursor.ofText source text).tokens_eq_nil_iff
  simp only [isGap_iff] at none_iff
  refine Iff.trans ?_ none_iff
  simp [tokenize, Cursor.allTokens, Cursor.endToken]

theorem allBlank_iff_tokenize (source text : String) :
    Text.allBlank text.toList = true ↔
      ∀ token ∈ tokenize source text, token.kind = .eof ∨ token.StrayBlank := by
  rw [Cursor.allBlank_iff_strayBlank source, tokenize, Cursor.allTokens]
  constructor
  · intro strays token member
    rcases List.mem_append.mp member with inside | last
    · exact .inr (strays token inside)
    · rw [List.mem_singleton.mp last]
      exact .inl rfl
  · intro strays token member
    exact (strays token (List.mem_append_left _ member)).resolve_left (kind_ne_eof_of_mem member)

theorem parse_of_strays {source text : String} {first : Token} {later : List Token}
    (tokens_eq : (Cursor.ofText source text).tokens = first :: later)
    (strays : ∀ token ∈ first :: later, token.kind = .illegal) :
    parse source text = .error [⟨.noOperand .illegal first.literal, first.start⟩] := by
  have kind := strays first (List.mem_cons_self ..)
  have pending : (Parse.start source text).pending = first :: later := tokens_eq
  have no_operand : Grammar.standard.operand? first.kind = none := by
    rw [kind]
    rfl
  obtain ⟨stuck, fault_eq⟩ := Parse.operandFault_of_none no_operand
  have plain : ∀ token ∈ ([] ++ [first]).head?, Grammar.standard.form? token.kind = none := by
    simp [kind, Grammar.standard]
  have whole : (Parse.start source text).allTokens =
      [] ++ first :: (later ++ [(Parse.start source text).stop]) := by
    rw [Window.allTokens, pending]
    rfl
  obtain ⟨rest, fails⟩ := Parse.stmt_of_stuck rfl whole (.operand plain rfl stuck)
  -- Without a semicolon the rest of the text goes with the statement that fails.
  have skipped : rest.skipToSemicolon.pending = [] := by
    apply List.dropWhile_eq_nil_iff.mpr
    intro token member
    have inside := (Parse.stmt_failed_follows fails).suffix.subset member
    rw [pending] at inside
    simp [Token.is, strays token inside]
  have ran := Parse.run_of_failed (by simp [pending]) fails
  rw [Parse.run_start, Parse.run_of_nil .standard (by simp [skipped])] at ran
  have diagnostics_eq := congrArg Parse.Run.diagnostics (Option.some.inj ran)
  apply (parse_eq_error_iff source text _).mpr
  rw [diagnostics_eq, fault_eq, kind]
  exact ⟨List.cons_ne_nil _ _, rfl⟩

namespace Command

/-- A session passes over its first line: it asks for it, prints nothing for it and goes on. -/
def PassesOver (settings : Settings) (line : List UInt8) (rest : List (List UInt8)) : Prop :=
  session settings (line :: rest) = (session settings rest).after [.out prompt]

theorem head?_session (settings : Settings) (lines : List (List UInt8)) :
    (session settings lines).effects.head? = some (.out prompt) := by
  cases lines with
  | nil => rfl
  | cons line rest =>
      cases decoded : lineText? line with
      | none =>
          rw [session_of_none settings rest decoded]
          rfl
      | some text =>
          rw [session_of_text settings rest decoded]
          split <;> rfl

theorem out_not_mem_reportAll (settings : Settings) (text printed : String)
    (diagnostics : List Diagnostic) :
    .out printed ∉ (reportAll settings text diagnostics).effects := by
  induction diagnostics with
  | nil => simp [reportAll]
  | cons diagnostic later ih =>
      rw [reportAll]
      split
      · simpa [Transcript.after] using ih
      · simp

/-- Nothing is printed on standard output before a report that cannot be written. -/
theorem out_not_mem_of_aborted {settings : Settings} {source text : String} (printed : String)
    (aborted : (handle settings source text).status = .aborted) :
    .out printed ∉ (handle settings source text).effects := by
  unfold handle at aborted ⊢
  cases listing : settings.tokens with
  | true => simp [listing, listTokens] at aborted
  | false =>
      cases result : parse source text with
      | ok program => simp [listing, parseText, result, Transcript.after] at aborted
      | error diagnostics =>
          have reports := out_not_mem_reportAll settings text printed diagnostics
          have times : .out printed ∉ timing settings .parsing := by
            unfold timing
            split <;> simp
          simp [parseText, result, Transcript.after, reports, times]

theorem effects_reportAll_ne_nil {settings : Settings} {text : String}
    {diagnostics : List Diagnostic} (some_fault : diagnostics ≠ [])
    (goes_on : (reportAll settings text diagnostics).status ≠ .aborted) :
    (reportAll settings text diagnostics).effects ≠ [] := by
  cases diagnostics with
  | nil => contradiction
  | cons diagnostic later =>
      rw [reportAll] at goes_on ⊢
      split at goes_on
      · simp [Transcript.after]
      · simp at goes_on

/-- A text for which nothing is printed has no tokens. -/
theorem tokens_eq_nil_of_silent {settings : Settings} {source text : String}
    (goes_on : (handle settings source text).status ≠ .aborted)
    (silent : (handle settings source text).effects = []) :
    (Cursor.ofText source text).tokens = [] := by
  unfold handle at goes_on silent
  cases listing : settings.tokens with
  | true =>
      have rows : (Cursor.ofText source text).tokens.map (tokenLine settings) = [] := by
        simp only [listing, ↓reduceIte, listTokens, List.append_eq_nil_iff] at silent
        exact silent.1
      exact List.map_eq_nil_iff.mp rows
  | false =>
      cases result : parse source text with
      | ok program => simp [listing, parseText, result, Transcript.after] at silent
      | error diagnostics =>
          obtain ⟨some_fault, run_eq⟩ := (parse_eq_error_iff source text diagnostics).mp result
          rw [run_eq] at some_fault
          simp only [listing, Bool.false_eq_true, ↓reduceIte, parseText, result, Transcript.after,
            List.append_eq_nil_iff] at goes_on silent
          exact (effects_reportAll_ne_nil some_fault goes_on silent.2).elim

/-- A line is passed over exactly if it is blank. -/
theorem passesOver_iff_allBlank (settings : Settings) {line : List UInt8} {text : String}
    (decoded : lineText? line = some text) (rest : List (List UInt8)) :
    PassesOver settings line rest ↔ Text.allBlank text.toList = true := by
  rw [PassesOver, session_of_text settings rest decoded, handleLine]
  by_cases blank : Text.allBlank text.toList = true
  · simp [blank]
  · rw [if_neg blank]
    refine iff_of_false ?_ blank
    intro passes
    by_cases aborted : (handle settings shellName text).status = .aborted
    · -- The session would go on with a prompt, which no report is.
      rw [if_pos aborted] at passes
      have effects_eq := List.append_cancel_left (congrArg Transcript.effects passes)
      have first := head?_session settings rest
      rw [← effects_eq] at first
      exact out_not_mem_of_aborted prompt aborted (List.mem_of_head? first)
    · rw [if_neg aborted] at passes
      have effects_eq := congrArg Transcript.effects passes
      have silent : (handle settings shellName text).effects = [] := by
        simpa [Transcript.after] using effects_eq
      have gap := Cursor.isGap_of_tokens_eq_nil (tokens_eq_nil_of_silent aborted silent)
      exact blank (Text.allBlank_of_isGap gap)

theorem Status.code_eq_zero_iff (status : Status) : status.code = 0 ↔ status = .success := by
  cases status <;> simp [code]

theorem status_reportAll_ne_success (settings : Settings) (text : String)
    (diagnostics : List Diagnostic) :
    (reportAll settings text diagnostics).status ≠ .success := by
  induction diagnostics with
  | nil => simp [reportAll]
  | cons diagnostic later ih =>
      rw [reportAll]
      split
      · exact ih
      · simp

/-- A file of blank characters that are not all gaps is rejected. -/
theorem code_ne_zero_of_allBlank {colours verbose : Bool} {path text : String}
    {read : String → Except ReadFailure ByteArray} {arguments : List String}
    (options : Options.ofArguments arguments = .ok ⟨some path, false, verbose⟩)
    (content : read path = .ok text.toUTF8) (input : List UInt8)
    (blank : Text.allBlank text.toList = true)
    (some_token : ¬ ∀ c ∈ text.toList, Text.isGap c = true) :
    (run colours read arguments input).status.code ≠ 0 := by
  have strays := (Cursor.allBlank_iff_strayBlank (sourceName path) text).mp blank
  obtain ⟨first, later, tokens_eq⟩ := List.exists_cons_of_ne_nil
    (mt (Cursor.ofText (sourceName path) text).tokens_eq_nil_iff.mp some_token)
  rw [tokens_eq] at strays
  have rejected := parse_of_strays tokens_eq fun token member => (strays token member).1
  rw [run_of_text options content, ne_eq, Status.code_eq_zero_iff]
  simpa [handle, parseText, rejected, Transcript.after] using
    status_reportAll_ne_success _ text _

/-- A line is passed over exactly if nothing is left of it when it is trimmed, that is if its tokens
are stray blanks. So a line without tokens is the only one that is passed over, unless there are
blanks on it that are no gaps, and nothing else. Such a line is rejected in a file. -/
theorem passed_over_iff_stray_blanks (settings : Settings) (line : List UInt8) (text : String)
    (decoded : lineText? line = some text) (rest : List (List UInt8)) :
    (PassesOver settings line rest ↔ Text.trim text.toList = []) ∧
      (PassesOver settings line rest ↔
        ∀ token ∈ tokenize shellName text, token.kind = .eof ∨ token.StrayBlank) ∧
      ((PassesOver settings line rest ↔ (tokenize shellName text).map Token.kind = [.eof]) ↔
        (∃ c ∈ text.toList, Text.isBlank c = false) ∨ ∀ c ∈ text.toList, GapChar c) ∧
      (PassesOver settings line rest → (tokenize shellName text).map Token.kind ≠ [.eof] →
        ∀ colours verbose path read arguments input,
          Options.ofArguments arguments = .ok ⟨some path, false, verbose⟩ →
          read path = .ok text.toUTF8 →
          (run colours read arguments input).status.code ≠ 0) := by
  have passes_iff := passesOver_iff_allBlank settings decoded rest
  have none_iff := kinds_tokenize_iff shellName text
  refine ⟨?_, ?_, ?_, ?_⟩
  · rw [passes_iff, Text.trim_eq_nil_iff]
  · rw [passes_iff, allBlank_iff_tokenize shellName]
  · have gaps_blank : (∀ c ∈ text.toList, GapChar c) → Text.allBlank text.toList = true := by
      intro gap
      exact Text.allBlank_of_isGap fun c member => (isGap_iff c).mpr (gap c member)
    have solid_iff : (∃ c ∈ text.toList, Text.isBlank c = false) ↔
        ¬ Text.allBlank text.toList = true := by
      simp [Text.allBlank]
    rw [passes_iff, none_iff, solid_iff]
    constructor
    · intro same
      by_cases blank : Text.allBlank text.toList = true
      · exact .inr (same.mp blank)
      · exact .inl blank
    · rintro (solid | gap)
      · exact iff_of_false solid (mt gaps_blank solid)
      · exact iff_of_true (gaps_blank gap) gap
  · intro passes some_token colours verbose path read arguments input options content
    apply code_ne_zero_of_allBlank options content input (passes_iff.mp passes)
    simp only [isGap_iff]
    exact mt none_iff.mpr some_token

/-- A no-break space is a token, and a file that holds nothing else is rejected. The shell passes
over such a line. -/
theorem passed_over_iff_stray_blanks_no_break_space :
    lineText? [194, 160, 10] = some "\u00a0\n" ∧
      (tokenize shellName "\u00a0\n").map Token.kind = [.illegal, .eof] ∧
      PassesOver ⟨false, false, false⟩ [194, 160, 10] [] ∧
      (run false (fun _ => .ok "\u00a0\n".toUTF8) ["notes/shell"] []).status.code ≠ 0 := by
  have decoded : lineText? [194, 160, 10] = some "\u00a0\n" := by decide +kernel
  have kinds : (tokenize shellName "\u00a0\n").map Token.kind = [.illegal, .eof] := by
    decide +kernel
  obtain ⟨passes_iff, _, _, rejected⟩ :=
    passed_over_iff_stray_blanks ⟨false, false, false⟩ [194, 160, 10] "\u00a0\n" decoded []
  have passes := passes_iff.mpr (by decide)
  refine ⟨decoded, kinds, passes, ?_⟩
  exact rejected passes (by simp [kinds]) false false "notes/shell" _ _ [] (by decide) rfl

end Command

end LetLang
