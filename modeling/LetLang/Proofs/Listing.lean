import LetLang.Proofs.Draws
import LetLang.Proofs.Reprint
import LetLang.Proofs.Shell

set_option autoImplicit false

namespace LetLang

namespace Text

/-- The two sides of a row around its first space. -/
def cutAtSpace? (row : List Char) : Option (List Char × List Char) :=
  match row.dropWhile (· != ' ') with
  | [] => none
  | _ :: after => some (row.takeWhile (· != ' '), after)

theorem cutAtSpace?_append {front : List Char} (solid : ' ' ∉ front) (after : List Char) :
    cutAtSpace? (front ++ ' ' :: after) = some (front, after) := by
  have inside : ∀ c ∈ front, (c != ' ') = true := by
    intro c member
    exact bne_iff_ne.mpr fun space => solid (space ▸ member)
  have ended : ∀ c ∈ (' ' :: after).head?, (c != ' ') = false := by simp
  have ⟨take_eq, drop_eq⟩ := Segmentation.takeWhile_run inside ended
  rw [cutAtSpace?, drop_eq, take_eq]

theorem splitOn_rows {rows : List (List Char)} (no_feed : ∀ row ∈ rows, '\n' ∉ row) :
    List.splitOn '\n' (rows.flatMap (· ++ ['\n'])) = rows ++ [[]] := by
  have layout : rows.flatMap (· ++ ['\n']) = ['\n'].intercalate (rows ++ [[]]) := by
    clear no_feed
    induction rows with
    | nil => rfl
    | cons row rest ih =>
        rw [List.flatMap_cons, ih]
        cases rest <;> simp [List.intercalate]
  rw [layout]
  apply List.splitOn_intercalate
  · intro row member
    rcases List.mem_append.mp member with inside | last
    · exact no_feed row inside
    · simp [List.mem_singleton.mp last]
  · simp

end Text

theorem Kind.isGap_of_mem_name (kind : Kind) : ∀ c ∈ kind.name.toList, Text.isGap c = false := by
  have no_gap : kind.name.toList.any Text.isGap = false := by
    cases kind <;> decide
  simpa using no_gap

namespace Segmentation

theorem Spelled.solid {content : Kind × String} (spelled : Spelled content) :
    content.2.toList ≠ [] ∧ ∀ c ∈ content.2.toList, Text.isGap c = false := by
  obtain ⟨after, lexes⟩ := spelled
  obtain ⟨first, rest, _, solid, read_eq⟩ := read_of_lexes lexes
  have text_eq : (Lexeme.read first rest).text = content.2.toList := by rw [read_eq]
  rw [← text_eq]
  exact ⟨Lexeme.read_text_ne_nil first rest, Lexeme.isGap_of_mem_text solid rest⟩

/-- A text of literals in a row, with gaps between them. -/
inductive Joined : List String → List Char → Prop where
  | nil : Joined [] []
  | single (literal : String) : Joined [literal] literal.toList
  | cons (literal : String) {next : String} {rest : List String} {gap joined : List Char}
      (some_char : gap ≠ []) (blank : ∀ c ∈ gap, GapChar c)
      (behind : Joined (next :: rest) joined) :
      Joined (literal :: next :: rest) (literal.toList ++ (gap ++ joined))

theorem Segments.behind_gaps {contents : List (Kind × String)} {text gap : List Char}
    (segments : Segments contents text) (blank : ∀ c ∈ gap, GapChar c) :
    Segments contents (gap ++ text) := by
  induction gap with
  | nil => exact segments
  | cons c rest ih =>
      rw [List.forall_mem_cons] at blank
      exact (ih blank.2).behind_gap blank.1

/-- A literal comes first in front of what it does not run into. -/
theorem Segments.cons_literal {contents : List (Kind × String)} {kind : Kind} {literal : String}
    {after : List Char} (lexes : Lexes kind literal.toList after)
    (rest : Segments contents after) :
    Segments ((kind, literal) :: contents) (literal.toList ++ after) := by
  have no_gap : ∀ c ∈ ([] : List Char), GapChar c := by simp
  simpa using Segments.cons no_gap lexes rest

theorem Joined.segments {contents : List (Kind × String)} {text : List Char}
    (joined : Joined (contents.map Prod.snd) text)
    (spelled : ∀ content ∈ contents, Spelled content) : Segments contents text := by
  induction contents generalizing text with
  | nil =>
      cases joined
      exact .nil (by simp)
  | cons content rest ih =>
      rw [List.forall_mem_cons] at spelled
      obtain ⟨after, lexes⟩ := spelled.1
      cases rest with
      | nil =>
          cases joined
          simpa using Segments.cons_literal lexes.at_end (.nil (by simp))
      | cons next rest =>
          cases joined with
          | @cons _ _ _ gap joined some_char blank behind =>
              have ends : ∀ c ∈ (gap ++ joined).head?, GapChar c := by
                intro c head
                rw [List.head?_append_of_ne_nil _ some_char] at head
                exact blank c (List.mem_of_head? head)
              exact .cons_literal (lexes.before_blank ends)
                ((ih behind spelled.2).behind_gaps blank)

end Segmentation

open Segmentation

theorem filter_tokenize (source text : String) :
    ((tokenize source text).filter fun token => !token.is .eof) =
      (Cursor.ofText source text).tokens := by
  have others : ∀ token ∈ (Cursor.ofText source text).tokens, (!token.is .eof) = true := by
    intro token member
    simpa using kind_ne_eof_of_mem member
  have ending : (!(Cursor.ofText source text).finish.endToken.is .eof) = false := rfl
  rw [tokenize, Cursor.allTokens, List.filter_append, List.filter_eq_self.mpr others]
  simp [ending]

namespace Command

def tokenRow (content : Kind × String) : List Char :=
  content.1.name.toList ++ ' ' :: content.2.toList

/-- The transcript that lists kinds and literals, one in a row. -/
def rowTranscript (contents : List (Kind × String)) : Transcript :=
  ⟨contents.map fun content => .out (String.ofList (tokenRow content ++ ['\n'])), .success⟩

theorem tokenLine_of_spelled {token : Token} (spelled : Spelled token.content) (tokens : Bool) :
    tokenLine ⟨false, tokens, false⟩ token =
      .out (String.ofList (tokenRow token.content ++ ['\n'])) := by
  have some_char : token.literal.isEmpty = false := by
    have nonempty : token.literal.toList ≠ [] := spelled.solid.1
    simpa using nonempty
  have line : token.describe ++ "\n" = String.ofList (tokenRow token.content ++ ['\n']) := by
    rw [← String.toList_inj]
    simp [Token.describe, some_char, tokenRow, Token.content]
  rw [← line, tokenLine]
  split <;> rfl

/-- A listing without colours and times depends on the kinds and literals alone. -/
theorem listTokens_eq (tokens : Bool) (source text : String) :
    listTokens ⟨false, tokens, false⟩ source text =
      rowTranscript ((Cursor.ofText source text).tokens.map Token.content) := by
  have lines : ∀ token ∈ (Cursor.ofText source text).tokens,
      tokenLine ⟨false, tokens, false⟩ token =
        .out (String.ofList (tokenRow token.content ++ ['\n'])) := by
    intro token member
    exact tokenLine_of_spelled (spelled_tokens source text token member) tokens
  simp [listTokens, timing, List.map_congr_left lines, rowTranscript]

theorem stderr_rowTranscript (contents : List (Kind × String)) :
    (rowTranscript contents).stderr = "" := by
  induction contents with
  | nil => rfl
  | cons content rest ih => simpa [rowTranscript, Transcript.stderr, Effect.stderr] using ih

theorem feed_not_mem_tokenRow {content : Kind × String} (spelled : Spelled content) :
    '\n' ∉ tokenRow content := by
  intro feed
  have feed_is_gap : Text.isGap '\n' = true := by decide
  rcases List.mem_append.mp feed with in_name | behind
  · rw [content.1.isGap_of_mem_name _ in_name] at feed_is_gap
    contradiction
  · have in_literal : '\n' ∈ content.2.toList := by simpa using behind
    rw [spelled.solid.2 _ in_literal] at feed_is_gap
    contradiction

/-- The rows of a transcript are read back by splitting at line feeds. -/
theorem splitOn_rowTranscript {contents : List (Kind × String)}
    (spelled : ∀ content ∈ contents, Spelled content) (time : String) :
    List.splitOn '\n' ((rowTranscript contents).stdout time).toList =
      contents.map tokenRow ++ [[]] := by
  have printed : ((rowTranscript contents).stdout time).toList =
      (contents.map tokenRow).flatMap (· ++ ['\n']) := by
    simp [rowTranscript, Transcript.stdout, Effect.stdout, List.flatMap_map]
  have no_feed : ∀ row ∈ contents.map tokenRow, '\n' ∉ row := by
    intro row member
    obtain ⟨content, listed, rfl⟩ := List.mem_map.mp member
    exact feed_not_mem_tokenRow (spelled content listed)
  rw [printed]
  exact Text.splitOn_rows no_feed

theorem cutAtSpace?_tokenRow (content : Kind × String) :
    Text.cutAtSpace? (tokenRow content) = some (content.1.name.toList, content.2.toList) := by
  apply Text.cutAtSpace?_append
  intro space
  have gap := content.1.isGap_of_mem_name _ space
  contradiction

/-- The command lists the tokens of a file that holds a text, without colours and times. -/
inductive Lists (text : String) : Transcript → Prop where
  | file (path : String) {read : String → Except ReadFailure ByteArray} {arguments : List String}
      (options : Options.ofArguments arguments = .ok ⟨some path, true, false⟩)
      (content : read path = .ok text.toUTF8) (input : List UInt8) :
      Lists text (run false read arguments input)

/-- What is listed is a row for each kind and literal, under whatever name they are drawn. -/
theorem Lists.eq_rowTranscript {text : String} {listing : Transcript} (lists : Lists text listing)
    (source : String) :
    listing = rowTranscript ((Cursor.ofText source text).tokens.map Token.content) := by
  have contents_eq (other : String) : (Cursor.ofText other text).tokens.map Token.content =
      (Cursor.ofText source text).tokens.map Token.content :=
    contents_of_segments (segments_of_contents (Cursor.ofText source text)) _ rfl
  cases lists with
  | file path options content input =>
      rw [run_of_text options content input, ← contents_eq]
      exact listTokens_eq true _ text

/-- A listing gives back the kinds and literals of its file, and any file that holds these literals
with gaps between them has the same listing. -/
theorem listing_faithful (source text : String) (listing : Transcript)
    (lists : Lists text listing) (time : String) :
    let tokens := (tokenize source text).filter fun token => !token.is .eof
    listing.status.code = 0 ∧ listing.stderr = "" ∧
      (∃ rows, List.splitOn '\n' (listing.stdout time).toList = rows ++ [[]] ∧
        rows.map Text.cutAtSpace? =
          tokens.map fun token => some (token.kind.name.toList, token.literal.toList)) ∧
      ∀ (joined : String) (again : Transcript), Joined (tokens.map Token.literal) joined.toList →
        Lists joined again → again = listing := by
  intro tokens
  have tokens_eq : tokens = (Cursor.ofText source text).tokens := filter_tokenize source text
  have listing_eq := lists.eq_rowTranscript source
  rw [← tokens_eq] at listing_eq
  have spelled : ∀ content ∈ tokens.map Token.content, Spelled content := by
    rw [tokens_eq]
    exact (segments_of_contents (Cursor.ofText source text)).spelled
  refine ⟨?_, ?_, ⟨(tokens.map Token.content).map tokenRow, ?_, ?_⟩, ?_⟩
  · rw [listing_eq]
    rfl
  · rw [listing_eq]
    exact stderr_rowTranscript _
  · rw [listing_eq]
    exact splitOn_rowTranscript spelled time
  · simp only [List.map_map, Function.comp_def, cutAtSpace?_tokenRow, Token.content]
  · intro joined again row lists_again
    have literals : (tokens.map Token.content).map Prod.snd = tokens.map Token.literal := by
      simp [Token.content]
    rw [← literals] at row
    have contents_eq := contents_of_segments (row.segments spelled) (.ofText source joined) rfl
    rw [lists_again.eq_rowTranscript source, contents_eq, listing_eq]

theorem listing_faithful_stray :
    let listing := run false (fun _ => .ok "let é=1".toUTF8) ["--tokens", "notes/first"] []
    let again := run false (fun _ => .ok "let\té \n=\r1".toUTF8) ["-t", "second"] []
    listing.status.code = 0 ∧ listing.stderr = "" ∧
      listing.stdout "" = "LET let\nILLEGAL é\nASSIGN =\nINT 1\n" ∧ again = listing := by
  intro listing again
  have lists : Lists "let é=1" listing := .file "notes/first" (by decide) rfl []
  have lists_again : Lists "let\té \n=\r1" again := .file "second" (by decide) rfl []
  have literals : ((tokenize shellName "let é=1").filter fun token => !token.is .eof).map
      Token.literal = ["let", "é", "=", "1"] := by decide +kernel
  have tab : ∀ c ∈ ['\t'], GapChar c := by simp [GapChar]
  have space_feed : ∀ c ∈ [' ', '\n'], GapChar c := by simp [GapChar]
  have carriage : ∀ c ∈ ['\r'], GapChar c := by simp [GapChar]
  have row : Joined ["let", "é", "=", "1"] "let\té \n=\r1".toList :=
    .cons "let" (by simp) tab (.cons "é" (by simp) space_feed
      (.cons "=" (by simp) carriage (.single "1")))
  obtain ⟨code, err, _, same⟩ := listing_faithful shellName "let é=1" listing lists ""
  exact ⟨code, err, by decide +kernel, same _ again (literals ▸ row) lists_again⟩

end Command

end LetLang
