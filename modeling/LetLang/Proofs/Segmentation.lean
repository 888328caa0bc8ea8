import LetLang.Proofs.Seam

/-!
The tokens of a text without the machine that draws them. A text is a row of literals with gaps
around them: words and numerals that run as far as their characters go, operators of two
characters that are never cut in two, marks, and stray characters that start nothing else. Each
text has exactly one such row, and drawing tokens finds it.
-/

set_option autoImplicit false

namespace LetLang

/-- What a token is, apart from its place. -/
def Token.content (token : Token) : Kind × String :=
  (token.kind, token.literal)

namespace Segmentation

def WordChar (c : Char) : Prop :=
  ('a' ≤ c ∧ c ≤ 'z') ∨ ('A' ≤ c ∧ c ≤ 'Z') ∨ c = '_'

def DigitChar (c : Char) : Prop :=
  '0' ≤ c ∧ c ≤ '9'

def GapChar (c : Char) : Prop :=
  c = ' ' ∨ c = '\t' ∨ c = '\n' ∨ c = '\r'

/-- The kind of a word: a reserved one has a kind of its own, any other is a name. -/
inductive WordKind : String → Kind → Prop where
  | fnWord : WordKind "fn" .fnWord
  | letWord : WordKind "let" .letWord
  | trueWord : WordKind "true" .trueWord
  | falseWord : WordKind "false" .falseWord
  | ifWord : WordKind "if" .ifWord
  | elseWord : WordKind "else" .elseWord
  | returnWord : WordKind "return" .returnWord
  | name {word : String}
      (free : word ∉ ["fn", "let", "true", "false", "if", "else", "return"]) :
      WordKind word .ident

/-- The characters that are tokens whatever comes behind them. -/
inductive MarkKind : Char → Kind → Prop where
  | plus : MarkKind '+' .plus
  | minus : MarkKind '-' .minus
  | asterisk : MarkKind '*' .asterisk
  | slash : MarkKind '/' .slash
  | greater : MarkKind '>' .greater
  | less : MarkKind '<' .less
  | semicolon : MarkKind ';' .semicolon
  | lparen : MarkKind '(' .lparen
  | rparen : MarkKind ')' .rparen
  | comma : MarkKind ',' .comma
  | lbrace : MarkKind '\x7b' .lbrace
  | rbrace : MarkKind '\x7d' .rbrace

/-- The literals of each kind, in front of the text that comes behind them. -/
inductive Regular : Kind → List Char → List Char → Prop where
  | word {kind : Kind} {text after : List Char} (some_char : text ≠ [])
      (inside : ∀ c ∈ text, WordChar c) (ended : ∀ c ∈ after.head?, ¬ WordChar c)
      (named : WordKind (String.ofList text) kind) : Regular kind text after
  | numeral {text after : List Char} (some_char : text ≠ [])
      (inside : ∀ c ∈ text, DigitChar c) (ended : ∀ c ∈ after.head?, ¬ DigitChar c) :
      Regular .int text after
  | equal {after : List Char} : Regular .equal ['=', '='] after
  | notEqual {after : List Char} : Regular .notEqual ['!', '='] after
  | assign {after : List Char} (ended : ∀ c ∈ after.head?, c ≠ '=') : Regular .assign ['='] after
  | bang {after : List Char} (ended : ∀ c ∈ after.head?, c ≠ '=') : Regular .bang ['!'] after
  | mark {kind : Kind} {c : Char} {after : List Char} (marks : MarkKind c kind) :
      Regular kind [c] after

/-- A literal is of one of these forms, or it is a single character that starts none of them. -/
inductive Lexes : Kind → List Char → List Char → Prop where
  | regular {kind : Kind} {text after : List Char} (form : Regular kind text after) :
      Lexes kind text after
  | stray {c : Char} {after : List Char} (solid : ¬ GapChar c)
      (starts_none : ∀ kind rest behind, ¬ Regular kind (c :: rest) behind) :
      Lexes .illegal [c] after

/-- The literals of a text in their order, with gaps before, between and behind them. -/
inductive Segments : List (Kind × String) → List Char → Prop where
  | nil {gap : List Char} (blank : ∀ c ∈ gap, GapChar c) : Segments [] gap
  | cons {kind : Kind} {gap text after : List Char} {contents : List (Kind × String)}
      (blank : ∀ c ∈ gap, GapChar c) (lexes : Lexes kind text after)
      (rest : Segments contents after) :
      Segments ((kind, String.ofList text) :: contents) (gap ++ (text ++ after))

theorem isLetter_iff (c : Char) : isLetter c = true ↔ WordChar c := by
  have letter_eq : isLetter c = (decide ('A' ≤ c ∧ c ≤ 'Z') ||
      (decide ('a' ≤ c) && decide (c ≤ 'z')) || c == '_') := rfl
  simp only [letter_eq, Bool.or_eq_true, Bool.and_eq_true, decide_eq_true_eq, beq_iff_eq, WordChar]
  constructor
  · rintro ((upper | lower) | line)
    · exact .inr (.inl upper)
    · exact .inl lower
    · exact .inr (.inr line)
  · rintro (lower | upper | line)
    · exact .inl (.inr lower)
    · exact .inl (.inl upper)
    · exact .inr line

theorem isDigit_iff (c : Char) : c.isDigit = true ↔ DigitChar c := by
  simp only [Char.isDigit, Bool.and_eq_true, decide_eq_true_eq]
  rfl

theorem isGap_iff (c : Char) : Text.isGap c = true ↔ GapChar c := by
  simp [Text.isGap, GapChar, or_assoc]

theorem ofWord_of_wordKind {word : String} {kind : Kind} (named : WordKind word kind) :
    Kind.ofWord word = kind := by
  cases named with
  | name free =>
      have unlisted : Kind.keywords.lookup word = none := by
        simpa [List.lookup_eq_none_iff, Kind.keywords] using free
      rw [Kind.ofWord, Kind.keyword?, unlisted]
      rfl
  | _ => decide

theorem wordKind_ofWord (word : String) : WordKind word (Kind.ofWord word) := by
  by_cases reserved : word ∈ ["fn", "let", "true", "false", "if", "else", "return"]
  · have found : ∃ kind, WordKind word kind := by
      simp only [List.mem_cons, List.not_mem_nil, or_false] at reserved
      rcases reserved with rfl | rfl | rfl | rfl | rfl | rfl | rfl
      · exact ⟨_, .fnWord⟩
      · exact ⟨_, .letWord⟩
      · exact ⟨_, .trueWord⟩
      · exact ⟨_, .falseWord⟩
      · exact ⟨_, .ifWord⟩
      · exact ⟨_, .elseWord⟩
      · exact ⟨_, .returnWord⟩
    obtain ⟨kind, named⟩ := found
    rwa [ofWord_of_wordKind named]
  · have named := WordKind.name reserved
    rwa [ofWord_of_wordKind named]

theorem ofSymbol_of_markKind {c : Char} {kind : Kind} (marks : MarkKind c kind) :
    Kind.ofSymbol c = kind := by
  cases marks <;> rfl

theorem markKind_ofSymbol {c : Char} (not_assign : c ≠ '=') (not_bang : c ≠ '!')
    (known : Kind.ofSymbol c ≠ .illegal) : MarkKind c (Kind.ofSymbol c) := by
  unfold Kind.ofSymbol at known ⊢
  split at known
  · exact (not_assign rfl).elim
  · exact (not_bang rfl).elim
  · exact .plus
  · exact .minus
  · exact .asterisk
  · exact .slash
  · exact .greater
  · exact .less
  · exact .semicolon
  · exact .lparen
  · exact .rparen
  · exact .comma
  · exact .lbrace
  · exact .rbrace
  · exact (known rfl).elim

/-- A run of characters that stops in front of a text is what is taken from both. -/
theorem takeWhile_run {inside : Char → Bool} {run after : List Char}
    (all : ∀ c ∈ run, inside c = true) (ended : ∀ c ∈ after.head?, inside c = false) :
    (run ++ after).takeWhile inside = run ∧ (run ++ after).dropWhile inside = after := by
  have ⟨take_eq, drop_eq⟩ := takeWhile_append_of_stops inside run after fun _ => ended
  rw [take_eq, drop_eq, List.takeWhile_eq_self_iff.mpr all, List.dropWhile_eq_nil_iff.mpr all]
  exact ⟨rfl, rfl⟩

theorem isLetter_of_isDigit {c : Char} (digit : c.isDigit = true) : isLetter c = false := by
  have bounds := (isDigit_iff c).mp digit
  rw [← Bool.not_eq_true, isLetter_iff]
  rintro (lower | upper | rfl)
  · exact absurd (Char.le_trans lower.1 bounds.2) (by decide)
  · exact absurd (Char.le_trans upper.1 bounds.2) (by decide)
  · revert digit
    decide

/-- A run of characters without gaps, read from its first character on. -/
theorem exists_cons_of_run {inside : Char → Bool} {text after : List Char} (some_char : text ≠ [])
    (all : ∀ c ∈ text, inside c = true) (ended : ∀ c ∈ after.head?, inside c = false)
    (solid : ∀ c, Text.isGap c = true → inside c = false) :
    ∃ first rest, text ++ after = first :: rest ∧ Text.isGap first = false ∧
      inside first = true ∧ first :: rest.takeWhile inside = text ∧
      rest.dropWhile inside = after := by
  cases text with
  | nil => exact (some_char rfl).elim
  | cons first run =>
      have first_inside := all first (List.mem_cons_self ..)
      have ⟨take_eq, drop_eq⟩ :=
        takeWhile_run (fun c member => all c (List.mem_cons_of_mem _ member)) ended
      refine ⟨first, run ++ after, rfl, ?_, first_inside, by rw [take_eq], drop_eq⟩
      by_contra gap
      have outside := solid first (by simpa using gap)
      rw [first_inside] at outside
      contradiction

/-- A single character that starts no longer literal is read by itself. -/
theorem read_of_single {c : Char} {after : List Char} (not_letter : isLetter c = false)
    (not_digit : c.isDigit = false)
    (ended : ∀ next ∈ after.head?, (Kind.ofSymbol c).takes next = false) :
    Lexeme.read c after = ⟨.ofSymbol c, [c], after⟩ := by
  simp only [Lexeme.read, not_letter, not_digit, Bool.false_eq_true, ↓reduceIte]
  cases after with
  | nil => exact Lexeme.readSymbol_nil c
  | cons next rest => exact Lexeme.readSymbol_cons c next rest (ended next rfl)

theorem read_of_regular {kind : Kind} {text after : List Char} (form : Regular kind text after) :
    ∃ first rest, text ++ after = first :: rest ∧ Text.isGap first = false ∧
      Lexeme.read first rest = ⟨kind, text, after⟩ := by
  cases form with
  | word some_char inside ended named =>
      obtain ⟨first, rest, whole, solid, letter, take_eq, drop_eq⟩ :=
        exists_cons_of_run some_char (fun c member => (isLetter_iff c).mpr (inside c member))
          (fun c head => by rw [← Bool.not_eq_true, isLetter_iff]; exact ended c head)
          (fun c gap => (Lexeme.not_letter_of_isGap gap).1)
      refine ⟨first, rest, whole, solid, ?_⟩
      simp only [Lexeme.read, letter, ↓reduceIte, take_eq, drop_eq, ofWord_of_wordKind named]
  | numeral some_char inside ended =>
      obtain ⟨first, rest, whole, solid, digit, take_eq, drop_eq⟩ :=
        exists_cons_of_run some_char (fun c member => (isDigit_iff c).mpr (inside c member))
          (fun c head => by rw [← Bool.not_eq_true, isDigit_iff]; exact ended c head)
          (fun c gap => (Lexeme.not_letter_of_isGap gap).2)
      refine ⟨first, rest, whole, solid, ?_⟩
      simp only [Lexeme.read, isLetter_of_isDigit digit, digit, Bool.false_eq_true, ↓reduceIte,
        take_eq, drop_eq]
  | equal => exact ⟨'=', '=' :: after, rfl, by decide, rfl⟩
  | notEqual => exact ⟨'!', '=' :: after, rfl, by decide, rfl⟩
  | assign ended =>
      refine ⟨'=', after, rfl, by decide, read_of_single (by decide) (by decide) ?_⟩
      intro next head
      simpa [Kind.ofSymbol, Kind.takes] using ended next head
  | bang ended =>
      refine ⟨'!', after, rfl, by decide, read_of_single (by decide) (by decide) ?_⟩
      intro next head
      simpa [Kind.ofSymbol, Kind.takes] using ended next head
  | @mark _ c _ marks =>
      have kind_eq := ofSymbol_of_markKind marks
      refine ⟨c, after, rfl, by cases marks <;> decide, ?_⟩
      rw [read_of_single (by cases marks <;> decide) (by cases marks <;> decide), kind_eq]
      intro next _
      rw [kind_eq]
      cases marks <;> rfl

/-- A literal that stands in front of a text is what is read there. -/
theorem read_of_lexes {kind : Kind} {text after : List Char} (lexes : Lexes kind text after) :
    ∃ first rest, text ++ after = first :: rest ∧ Text.isGap first = false ∧
      Lexeme.read first rest = ⟨kind, text, after⟩ := by
  cases lexes with
  | regular form => exact read_of_regular form
  | @stray c _ solid starts_none =>
      have not_letter : isLetter c = false := by
        rw [← Bool.not_eq_true, isLetter_iff]
        intro letter
        exact starts_none _ [] [] (.word (by simp) (by simpa using letter) (by simp)
          (wordKind_ofWord _))
      have not_digit : c.isDigit = false := by
        rw [← Bool.not_eq_true, isDigit_iff]
        intro digit
        exact starts_none _ [] [] (.numeral (by simp) (by simpa using digit) (by simp))
      have not_assign : c ≠ '=' := by
        rintro rfl
        exact starts_none _ [] [] (.assign (by simp))
      have not_bang : c ≠ '!' := by
        rintro rfl
        exact starts_none _ [] [] (.bang (by simp))
      have unknown : Kind.ofSymbol c = .illegal := by
        by_contra known
        exact starts_none _ [] [] (.mark (markKind_ofSymbol not_assign not_bang known))
      refine ⟨c, after, rfl, ?_, ?_⟩
      · rwa [← Bool.not_eq_true, isGap_iff]
      · rw [read_of_single not_letter not_digit, unknown]
        intro next _
        rw [unknown]
        rfl

/-- What a run stops at is not inside it. -/
theorem head?_dropWhile_not {inside : Char → Bool} {within : Char → Prop}
    (inside_iff : ∀ c, inside c = true ↔ within c) (text : List Char) :
    ∀ c ∈ (text.dropWhile inside).head?, ¬ within c := by
  intro c head
  have stopped := List.head?_dropWhile_not inside text
  rw [Option.mem_def.mp head] at stopped
  rw [← inside_iff, Bool.not_eq_true]
  exact stopped

theorem all_takeWhile {inside : Char → Bool} {within : Char → Prop}
    (inside_iff : ∀ c, inside c = true ↔ within c) {first : Char} (first_inside : inside first = true)
    (rest : List Char) : ∀ c ∈ first :: rest.takeWhile inside, within c := by
  intro c member
  rw [← inside_iff]
  rcases List.mem_cons.mp member with rfl | run
  · exact first_inside
  · exact List.mem_takeWhile_imp run

/-- A character that is no letter, no digit, no operator and no mark starts nothing. -/
theorem not_regular_cons {c : Char} (not_letter : isLetter c = false)
    (not_digit : c.isDigit = false) (not_assign : c ≠ '=') (not_bang : c ≠ '!')
    (unknown : Kind.ofSymbol c = .illegal) (kind : Kind) (rest behind : List Char) :
    ¬ Regular kind (c :: rest) behind := by
  intro form
  cases form with
  | word _ inside _ _ =>
      have letter := (isLetter_iff c).mpr (inside c (List.mem_cons_self ..))
      simp [not_letter] at letter
  | numeral _ inside _ =>
      have digit := (isDigit_iff c).mpr (inside c (List.mem_cons_self ..))
      simp [not_digit] at digit
  | equal => exact not_assign rfl
  | notEqual => exact not_bang rfl
  | assign _ => exact not_assign rfl
  | bang _ => exact not_bang rfl
  | mark marks =>
      have known := ofSymbol_of_markKind marks
      rw [unknown] at known
      cases marks <;> contradiction

theorem lexes_readSymbol {first : Char} (solid : Text.isGap first = false)
    (not_letter : isLetter first = false) (not_digit : first.isDigit = false) (rest : List Char) :
    Lexes (Lexeme.readSymbol first rest).kind (Lexeme.readSymbol first rest).text
      (Lexeme.readSymbol first rest).rest := by
  unfold Lexeme.readSymbol
  split
  · exact .regular .equal
  · exact .regular .notEqual
  · rename_i not_equal not_notEqual
    by_cases assign : first = '='
    · subst assign
      refine .regular (.assign ?_)
      rintro _ head rfl
      exact not_equal _ rfl (List.eq_cons_of_mem_head? head)
    · by_cases bang : first = '!'
      · subst bang
        refine .regular (.bang ?_)
        rintro _ head rfl
        exact not_notEqual _ rfl (List.eq_cons_of_mem_head? head)
      · by_cases unknown : Kind.ofSymbol first = .illegal
        · rw [unknown]
          refine .stray ?_ (not_regular_cons not_letter not_digit assign bang unknown)
          rwa [← isGap_iff, Bool.not_eq_true]
        · exact .regular (.mark (markKind_ofSymbol assign bang unknown))

/-- What is read behind a gap is a literal in front of the rest. -/
theorem lexes_read {first : Char} (solid : Text.isGap first = false) (rest : List Char) :
    Lexes (Lexeme.read first rest).kind (Lexeme.read first rest).text
      (Lexeme.read first rest).rest := by
  unfold Lexeme.read
  split
  · rename_i letter
    exact .regular (.word (List.cons_ne_nil _ _) (all_takeWhile isLetter_iff letter rest)
      (head?_dropWhile_not isLetter_iff rest) (wordKind_ofWord _))
  · rename_i not_letter
    split
    · rename_i digit
      exact .regular (.numeral (List.cons_ne_nil _ _) (all_takeWhile isDigit_iff digit rest)
        (head?_dropWhile_not isDigit_iff rest))
    · rename_i not_digit
      exact lexes_readSymbol solid (by simpa using not_letter) (by simpa using not_digit) rest

/-- The row of literals of the text ahead is what is drawn from it. -/
theorem contents_of_segments {contents : List (Kind × String)} {text : List Char}
    (segments : Segments contents text) (cursor : Cursor) (ahead : cursor.rest = text) :
    cursor.tokens.map Token.content = contents := by
  induction segments generalizing cursor with
  | nil blank =>
      have gap : ∀ c ∈ cursor.rest, Text.isGap c = true := by
        rw [ahead]
        exact fun c member => (isGap_iff c).mpr (blank c member)
      have ended : cursor.next? = none :=
        cursor.next?_eq_none_iff.mpr (List.dropWhile_eq_nil_iff.mpr gap)
      rw [Cursor.tokens_of_none ended, List.map_nil]
  | @cons kind gap text after contents blank lexes _ ih =>
      obtain ⟨first, rest, whole, solid, read_eq⟩ := read_of_lexes lexes
      have skipped : cursor.skipGap.rest = first :: rest := by
        rw [Cursor.skipGap, ahead, whole]
        exact (takeWhile_run (fun c member => (isGap_iff c).mpr (blank c member))
          (by simpa using solid)).2
      have step : cursor.next? = some (cursor.skipGap.token ⟨kind, text, after⟩,
          cursor.skipGap.behind ⟨kind, text, after⟩) :=
        (cursor.next?_eq_some_iff _ _).mpr ⟨first, rest, skipped, by rw [read_eq], by rw [read_eq]⟩
      rw [Cursor.tokens_of_some step, List.map_cons, ih _ rfl]
      rfl

/-- What is drawn from the text ahead is a row of literals of it. -/
theorem segments_of_contents (cursor : Cursor) :
    Segments (cursor.tokens.map Token.content) cursor.rest := by
  induction cursor using Cursor.induction with
  | ended cursor step =>
      have gap := List.dropWhile_eq_nil_iff.mp (cursor.next?_eq_none_iff.mp step)
      rw [Cursor.tokens_of_none step]
      exact .nil fun c member => (isGap_iff c).mp (gap c member)
  | drawn cursor token after step ih =>
      have whole := Cursor.rest_of_next? step
      obtain ⟨first, rest, ahead, rfl, rfl⟩ := (cursor.next?_eq_some_iff token after).mp step
      have solid := Cursor.isGap_of_skipGap ahead
      rw [Cursor.tokens_of_some step, whole]
      have blank : ∀ c ∈ cursor.rest.takeWhile Text.isGap, GapChar c :=
        fun c member => (isGap_iff c).mp (List.mem_takeWhile_imp member)
      have segments := Segments.cons blank (lexes_read solid rest) ih
      simpa [Cursor.token, Cursor.behind, Token.content] using segments

end Segmentation

open Segmentation in
/-- The tokens of a text, up to the end token, are its only row of literals: there is one such row,
and it has the kinds and literals that are drawn. -/
theorem tokenize_segments (source text : String) :
    ∃ tokens stop, tokenize source text = tokens ++ [stop] ∧ stop.kind = .eof ∧
      ∀ contents, Segments contents text.toList ↔ contents = tokens.map Token.content := by
  refine ⟨(Cursor.ofText source text).tokens, _, rfl, rfl, fun contents => ⟨?_, ?_⟩⟩
  · intro segments
    exact (contents_of_segments segments (Cursor.ofText source text) rfl).symm
  · rintro rfl
    exact segments_of_contents (Cursor.ofText source text)

end LetLang
