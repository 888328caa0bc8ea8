import LetLang.Proofs.Acceptance
import LetLang.Proofs.Relabel
import LetLang.Proofs.Segmentation

set_option autoImplicit false

namespace LetLang

namespace Segmentation

theorem not_wordChar_of_gapChar {c : Char} (gap : GapChar c) : ¬ WordChar c := by
  rw [← isLetter_iff, Bool.not_eq_true]
  exact (Lexeme.not_letter_of_isGap ((isGap_iff c).mpr gap)).1

theorem not_digitChar_of_gapChar {c : Char} (gap : GapChar c) : ¬ DigitChar c := by
  rw [← isDigit_iff, Bool.not_eq_true]
  exact (Lexeme.not_letter_of_isGap ((isGap_iff c).mpr gap)).2

theorem ne_equals_of_gapChar {c : Char} (gap : GapChar c) : c ≠ '=' := by
  rintro rfl
  revert gap
  simp [GapChar]

theorem Regular.before_gap {kind : Kind} {text after : List Char} (form : Regular kind text after)
    {c : Char} (gap : GapChar c) (later : List Char) : Regular kind text (c :: later) := by
  cases form with
  | word some_char inside _ named =>
      exact .word some_char inside (by simpa using not_wordChar_of_gapChar gap) named
  | numeral some_char inside _ =>
      exact .numeral some_char inside (by simpa using not_digitChar_of_gapChar gap)
  | equal => exact .equal
  | notEqual => exact .notEqual
  | assign _ => exact .assign (by simpa using ne_equals_of_gapChar gap)
  | bang _ => exact .bang (by simpa using ne_equals_of_gapChar gap)
  | mark marks => exact .mark marks

theorem Lexes.before_gap {kind : Kind} {text after : List Char} (lexes : Lexes kind text after)
    {c : Char} (gap : GapChar c) (later : List Char) : Lexes kind text (c :: later) := by
  cases lexes with
  | regular form => exact .regular (form.before_gap gap later)
  | stray solid starts_none => exact .stray solid starts_none

/-- A gap in front changes no literal. -/
theorem Segments.behind_gap {contents : List (Kind × String)} {text : List Char}
    (segments : Segments contents text) {c : Char} (gap : GapChar c) :
    Segments contents (c :: text) := by
  cases segments with
  | nil blank => exact .nil (by simpa using ⟨gap, blank⟩)
  | @cons _ front _ _ _ blank lexes rest =>
      have longer : ∀ d ∈ c :: front, GapChar d := by simpa using ⟨gap, blank⟩
      exact .cons longer lexes rest

theorem WordKind.kind_ne {word : String} {kind : Kind} (named : WordKind word kind) :
    kind ≠ .eof ∧ kind ≠ .int := by
  cases named <;> decide

theorem MarkKind.kind_ne {c : Char} {kind : Kind} (marks : MarkKind c kind) :
    kind ≠ .eof ∧ kind ≠ .int := by
  cases marks <;> decide

theorem Lexes.kind_ne_eof {kind : Kind} {text after : List Char} (lexes : Lexes kind text after) :
    kind ≠ .eof := by
  cases lexes with
  | stray _ _ => decide
  | regular form =>
      cases form with
      | word _ _ _ named => exact named.kind_ne.1
      | mark marks => exact marks.kind_ne.1
      | _ => decide

theorem Lexes.isNumeral {kind : Kind} {text after : List Char} (lexes : Lexes kind text after)
    (integer : kind = .int) : Decimal.isNumeral text = true := by
  cases lexes with
  | stray _ _ => cases integer
  | regular form =>
      cases form with
      | word _ _ _ named => exact (named.kind_ne.2 integer).elim
      | mark marks => exact (marks.kind_ne.2 integer).elim
      | numeral some_char inside _ =>
          have digits : ∀ c ∈ text, c.isDigit = true := fun c member =>
            (isDigit_iff c).mpr (inside c member)
          simpa [Decimal.isNumeral, some_char] using digits
      | _ => cases integer

/-- A kind and a literal that can be drawn from some text. -/
def Spelled (content : Kind × String) : Prop :=
  ∃ after, Lexes content.1 content.2.toList after

theorem spelled_name : Spelled (.ident, "x") := by
  have letter : ∀ c ∈ ['x'], WordChar c := by
    intro c member
    rw [List.mem_singleton.mp member]
    exact .inl (by decide)
  exact ⟨[], .regular (.word (by decide) letter (by simp) (wordKind_ofWord "x"))⟩

theorem spelled_assign : Spelled (.assign, "=") :=
  ⟨[], .regular (.assign (by simp))⟩

theorem Segments.spelled {contents : List (Kind × String)} {text : List Char}
    (segments : Segments contents text) : ∀ content ∈ contents, Spelled content := by
  induction segments with
  | nil _ => simp
  | @cons kind gap text after contents _ lexes _ ih =>
      intro content member
      rcases List.mem_cons.mp member with rfl | deeper
      · exact ⟨after, by simpa using lexes⟩
      · exact ih content deeper

end Segmentation

open Segmentation

/-- A text whose tokens have the kinds and literals of these. -/
def Spells (source text : String) (tokens : List Token) : Prop :=
  (Cursor.ofText source text).tokens.map Token.content = tokens.map Token.content

/-- A text of these tokens: their literals, with a space behind each. -/
def spell (tokens : List Token) : String :=
  String.join (tokens.map fun token => token.literal ++ " ")

theorem toList_spell_cons (token : Token) (tokens : List Token) :
    (spell (token :: tokens)).toList = token.literal.toList ++ (' ' :: (spell tokens).toList) := by
  simp [spell, String.join_cons]

/-- The literals of a spelled text are those of its tokens. -/
theorem segments_spell {tokens : List Token}
    (spelled : ∀ token ∈ tokens, Spelled token.content) :
    Segments (tokens.map Token.content) (spell tokens).toList := by
  induction tokens with
  | nil => exact .nil (by simp [spell])
  | cons token tokens ih =>
      obtain ⟨first, others⟩ := List.forall_mem_cons.mp spelled
      obtain ⟨after, lexes⟩ := first
      have space : GapChar ' ' := .inl rfl
      have no_gap : ∀ c ∈ ([] : List Char), GapChar c := by simp
      have segments := Segments.cons no_gap (lexes.before_gap space (spell tokens).toList)
        ((ih others).behind_gap space)
      rw [toList_spell_cons]
      simpa [Token.content] using segments

/-- A spelled text has the tokens that it was spelled from, at places of its own. -/
theorem spells_spell (source : String) {tokens : List Token}
    (spelled : ∀ token ∈ tokens, Spelled token.content) : Spells source (spell tokens) tokens :=
  contents_of_segments (segments_spell spelled) _ rfl

theorem spelled_tokens (source text : String) :
    ∀ token ∈ (Cursor.ofText source text).tokens, Spelled token.content := by
  intro token member
  exact (segments_of_contents (Cursor.ofText source text)).spelled _ (List.mem_map_of_mem member)

def Relabelling.sameContent : Relabelling where
  Pairs first second := first.content = second.content
  kind_eq same := congrArg Prod.fst same
  literal_eq same := congrArg Prod.snd same

theorem Relabelling.sameContent_pairs {tokens tokens' : List Token}
    (same : tokens.map Token.content = tokens'.map Token.content) :
    List.Forall₂ sameContent.Pairs tokens tokens' := by
  have paired : List.Forall₂ Eq (tokens.map Token.content) (tokens'.map Token.content) := by
    rw [List.forall₂_eq_eq_eq]
    exact same
  rwa [List.forall₂_map_left_iff, List.forall₂_map_right_iff] at paired

namespace Parse

theorem runText_of_spells {source text : String} {tokens : List Token} {stop : Token}
    {result : Run} (spells : Spells source text tokens) (ends : stop.content = (.eof, ""))
    (runs : Runs .standard ⟨tokens, stop⟩ result) :
    List.Forall₂ Relabelling.sameContent.Stmts (runText source text).statements
        result.statements ∧
      List.Forall₂ Relabelling.sameContent.Diagnostics (runText source text).diagnostics
        result.diagnostics := by
  have windows : Relabelling.sameContent.Windows (start source text) ⟨tokens, stop⟩ :=
    ⟨Relabelling.sameContent_pairs spells, ends.symm⟩
  obtain ⟨result', runs', statements, diagnostics⟩ :=
    runs_relabel .standard windows (runs_start source text)
  rw [runs.unique runs']
  exact ⟨statements, diagnostics⟩

end Parse

theorem parse_eq_error_iff (source text : String) (diagnostics : List Diagnostic) :
    parse source text = .error diagnostics ↔
      (Parse.runText source text).diagnostics ≠ [] ∧
        (Parse.runText source text).diagnostics = diagnostics := by
  unfold parse
  by_cases clean : (Parse.runText source text).diagnostics = [] <;> simp [clean]

/-- The kinds and literals of the texts that parse. -/
def Accepted (contents : List (Kind × String)) : Prop :=
  ∃ source text program, parse source text = .ok program ∧
    (Cursor.ofText source text).tokens.map Token.content = contents

/-- Tokens with the kinds and literals of a text that parses have a run without diagnostics. -/
theorem Accepted.clean {tokens : List Token} {stop : Token} {result : Parse.Run}
    (accepted : Accepted (tokens.map Token.content)) (ends : stop.content = (.eof, ""))
    (runs : Parse.Runs .standard ⟨tokens, stop⟩ result) : result.diagnostics = [] := by
  obtain ⟨source, text, program, parsed, spells⟩ := accepted
  have clean := ((parse_eq_ok_iff source text program).mp parsed).1
  have paired := (Parse.runText_of_spells spells ends runs).2
  rw [clean] at paired
  exact List.forall₂_nil_left_iff.mp paired

/-- Tokens that can be spelled and cut into blocks are those of a text that parses. -/
theorem Accepted.of_cut {blocks : List Block} {tokens : List Token} (cut : Cut blocks tokens)
    (spelled : ∀ token ∈ tokens, Spelled token.content) :
    Accepted (tokens.map Token.content) := by
  obtain ⟨merged, merged_cut, greedy⟩ := cut.exists_greedy
  obtain ⟨result, runs, clean, _⟩ :=
    Parse.runs_of_cut merged_cut greedy (.ofLiteral .eof "") rfl
  have spells := spells_spell shellName spelled
  have paired := (Parse.runText_of_spells spells rfl runs).2
  rw [clean] at paired
  exact ⟨shellName, spell tokens, ⟨(Parse.runText shellName (spell tokens)).statements⟩,
    (parse_eq_ok_iff _ _ _).mpr ⟨List.forall₂_nil_right_iff.mp paired, rfl⟩, spells⟩

end LetLang
