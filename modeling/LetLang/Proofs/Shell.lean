import LetLang.Command.Run
import LetLang.Proofs.Pieces

set_option autoImplicit false

namespace LetLang

namespace Text

/-- A text without the blank characters at its start and at its end. -/
def trim (text : List Char) : List Char :=
  trimEnd (text.dropWhile isBlank)

/-- A text is blank exactly if nothing is left when it is trimmed. -/
theorem trim_eq_nil_iff (text : List Char) : trim text = [] ↔ allBlank text = true := by
  unfold trim trimEnd allBlank
  rw [List.reverse_eq_nil_iff, List.dropWhile_eq_nil_iff, List.all_eq_true]
  constructor
  · intro left_blank c member
    by_cases whole : text.dropWhile isBlank = []
    · exact List.dropWhile_eq_nil_iff.mp whole c member
    · -- the first character that is left would not be blank
      have first := List.head_dropWhile_not isBlank whole
      rw [left_blank _ (List.mem_reverse.mpr (List.head_mem whole))] at first
      cases first
  · intro blank c member
    exact blank c ((List.dropWhile_sublist isBlank).subset (List.mem_reverse.mp member))

end Text

namespace Command

/-- Lines of input: each ends with its only line feed, but for a last one that may lack it. -/
inductive LineCut : List (List UInt8) → Prop where
  | nil : LineCut []
  | last {line : List UInt8} (some_byte : line ≠ []) (no_feed : 10 ∉ line) : LineCut [line]
  | cons {body : List UInt8} {rest : List (List UInt8)} (no_feed : 10 ∉ body)
      (cut : LineCut rest) : LineCut ((body ++ [10]) :: rest)

theorem lineCut_inputLines (input : List UInt8) : LineCut (inputLines input) := by
  induction input using cutAfter_induction (· == (10 : UInt8)) with
  | unmarked input outside =>
      have no_feed : 10 ∉ input := fun member => by simpa using outside 10 member
      by_cases empty : input = []
      · simpa [inputLines, empty] using LineCut.nil
      · rw [inputLines, cutAfter_of_unmarked outside empty]
        exact .last empty no_feed
  | marked body mark rest outside marks ih =>
      have no_feed : 10 ∉ body := fun member => by simpa using outside 10 member
      rw [inputLines, cutAfter_first outside marks, beq_iff_eq.mp marks]
      exact .cons no_feed ih

/-- The texts of the lines in front of the first one that is no text. -/
def leadingTexts (lines : List (List UInt8)) : List String :=
  ((lines.map lineText?).takeWhile Option.isSome).filterMap id

theorem leadingTexts_of_some {line : List UInt8} {text : String} (rest : List (List UInt8))
    (decoded : lineText? line = some text) :
    leadingTexts (line :: rest) = text :: leadingTexts rest := by
  simp [leadingTexts, decoded]

theorem leadingTexts_of_none {line : List UInt8} (rest : List (List UInt8))
    (broken : lineText? line = none) : leadingTexts (line :: rest) = [] := by
  simp [leadingTexts, broken]

/-- Every diagnostic of a text that is parsed in the shell has a report. -/
def Reported (settings : Settings) (text : String) : Prop :=
  settings.tokens = false → ∀ diagnostics, parse shellName text = .error diagnostics →
    ∀ diagnostic ∈ diagnostics, (diagnostic.report? text).isSome = true

instance (settings : Settings) (text : String) : Decidable (Reported settings text) :=
  match parsed : parse shellName text with
  | .ok _ => .isTrue (by simp [Reported, parsed])
  | .error diagnostics =>
      decidable_of_iff
        (settings.tokens = false →
          ∀ diagnostic ∈ diagnostics, (diagnostic.report? text).isSome = true)
        (by simp [Reported, parsed])

/-- Reports on all diagnostics end in failure, and not earlier. -/
theorem reportAll_status (settings : Settings) (text : String) {diagnostics : List Diagnostic}
    (reported : ∀ diagnostic ∈ diagnostics, (diagnostic.report? text).isSome = true) :
    (reportAll settings text diagnostics).status = .failure := by
  induction diagnostics with
  | nil => rfl
  | cons diagnostic rest ih =>
      rw [List.forall_mem_cons] at reported
      obtain ⟨report, written⟩ := Option.isSome_iff_exists.mp reported.1
      simpa [reportAll, written, Transcript.after] using ih reported.2

theorem handle_status_ne_aborted {settings : Settings} {text : String}
    (reported : Reported settings text) : (handle settings shellName text).status ≠ .aborted := by
  cases listing : settings.tokens with
  | true => simp [handle, listing, listTokens]
  | false =>
      cases result : parse shellName text with
      | ok program => simp [handle, listing, parseText, result, Transcript.after]
      | error diagnostics =>
          have failed := reportAll_status settings text (reported listing diagnostics result)
          simp [handle, listing, parseText, result, Transcript.after, failed]

theorem run_of_text {colours tokens verbose : Bool} {path text : String}
    {read : String → Except ReadFailure ByteArray} {arguments : List String}
    (options : Options.ofArguments arguments = .ok ⟨some path, tokens, verbose⟩)
    (content : read path = .ok text.toUTF8) (input : List UInt8) :
    run colours read arguments input =
      handle ⟨colours, tokens, verbose⟩ (sourceName path) text := by
  have decoded : String.fromUTF8? text.toByteArray = some text := by
    rw [String.fromUTF8?, dif_pos text.isValidUTF8]
    rfl
  simp [run, options, content, handleFile, decoded, Settings.ofOptions]

theorem run_of_no_file {colours tokens verbose : Bool}
    {read : String → Except ReadFailure ByteArray} {arguments : List String}
    (options : Options.ofArguments arguments = .ok ⟨none, tokens, verbose⟩) (input : List UInt8) :
    run colours read arguments input =
      session ⟨colours, tokens, verbose⟩ (inputLines input) := by
  simp [run, options, Settings.ofOptions]

theorem handleLine_eq (settings : Settings) (text : String) :
    handleLine settings text =
      if Text.trim text.toList = [] then ⟨[], .success⟩ else handle settings shellName text := by
  rw [handleLine]
  by_cases blank : Text.allBlank text.toList = true
  · rw [if_pos blank, if_pos ((Text.trim_eq_nil_iff _).mpr blank)]
  · rw [if_neg blank, if_neg (mt (Text.trim_eq_nil_iff _).mp blank)]

theorem session_of_text (settings : Settings) {line : List UInt8} {text : String}
    (rest : List (List UInt8)) (decoded : lineText? line = some text) :
    session settings (line :: rest) =
      if (handleLine settings text).status = .aborted then
        (handleLine settings text).after [.out prompt]
      else (session settings rest).after (.out prompt :: (handleLine settings text).effects) := by
  simp [session, turn, decoded]

/-- A line that is a text is answered behind its prompt, and the session goes on. -/
theorem session_of_some {settings : Settings} {line : List UInt8} {text : String}
    (rest : List (List UInt8)) (decoded : lineText? line = some text)
    (reported : Text.trim text.toList ≠ [] → Reported settings text) :
    session settings (line :: rest) =
      (session settings rest).after (.out prompt :: (handleLine settings text).effects) := by
  have goes_on : (handleLine settings text).status ≠ .aborted := by
    rw [handleLine_eq]
    by_cases blank : Text.trim text.toList = []
    · simp [blank]
    · simpa [blank] using handle_status_ne_aborted (reported blank)
  rw [session_of_text settings rest decoded, if_neg goes_on]

theorem session_of_none (settings : Settings) {line : List UInt8} (rest : List (List UInt8))
    (broken : lineText? line = none) :
    session settings (line :: rest) = ⟨[.out prompt, .out farewell], .success⟩ := by
  simp [session, turn, broken, Transcript.after]

/-- What a session prints is what each of its lines prints, with a prompt in front. -/
theorem session_eq {settings : Settings} {lines : List (List UInt8)}
    (reported : ∀ text ∈ leadingTexts lines, Text.trim text.toList ≠ [] → Reported settings text) :
    session settings lines =
      ⟨((leadingTexts lines).flatMap fun text =>
          .out prompt :: (handleLine settings text).effects) ++ [.out prompt, .out farewell],
        .success⟩ := by
  induction lines with
  | nil => rfl
  | cons line rest ih =>
      cases decoded : lineText? line with
      | none =>
          rw [session_of_none settings rest decoded, leadingTexts_of_none rest decoded]
          rfl
      | some text =>
          rw [leadingTexts_of_some rest decoded] at reported ⊢
          rw [List.forall_mem_cons] at reported
          rw [session_of_some rest decoded reported.1, ih reported.2]
          simp [Transcript.after]

theorem join_map_flatMap (write : Effect → String) (effects : String → List Effect)
    (texts : List String) :
    String.join ((texts.flatMap effects).map write) =
      String.join (texts.map fun text => String.join ((effects text).map write)) := by
  induction texts with
  | nil => rfl
  | cons text rest ih => simp [ih]

section Outputs

variable {settings : Settings} {lines : List (List UInt8)}
  (reported : ∀ text ∈ leadingTexts lines, Text.trim text.toList ≠ [] → Reported settings text)
include reported

theorem stdout_session (time : String) :
    (session settings lines).stdout time =
      String.join ((leadingTexts lines).map fun text =>
        prompt ++ (handleLine settings text).stdout time) ++ prompt ++ farewell := by
  rw [session_eq reported, Transcript.stdout, List.map_append, String.join_append,
    join_map_flatMap]
  simp [Transcript.stdout, Effect.stdout, String.append_assoc]

theorem stderr_session :
    (session settings lines).stderr =
      String.join ((leadingTexts lines).map fun text => (handleLine settings text).stderr) := by
  rw [session_eq reported, Transcript.stderr, List.map_append, String.join_append,
    join_map_flatMap]
  simp [Transcript.stderr, Effect.stderr]

end Outputs

/-- A session answers each line as a run on a file with that line does, whatever the other lines
are. -/
theorem run_lines_as_files (colours tokens verbose : Bool)
    (read : String → Except ReadFailure ByteArray) (arguments fileArguments : List String)
    (path : String) (options : Options.ofArguments arguments = .ok ⟨none, tokens, verbose⟩)
    (fileOptions : Options.ofArguments fileArguments = .ok ⟨some path, tokens, verbose⟩)
    (named : sourceName path = shellName) (input : List UInt8) (time : String) :
    let lines := inputLines input
    let shell := run colours read arguments input
    let onFile := fun text : String => run colours (fun _ => .ok text.toUTF8) fileArguments []
    LineCut lines ∧ lines.flatten = input ∧
      ((∀ text ∈ leadingTexts lines, Text.trim text.toList ≠ [] →
          Reported ⟨colours, tokens, verbose⟩ text) →
        shell.stdout time =
          String.join ((leadingTexts lines).map fun text =>
            prompt ++ if Text.trim text.toList = [] then "" else (onFile text).stdout time) ++
          prompt ++ farewell ∧
        shell.stderr =
          String.join ((leadingTexts lines).map fun text =>
            if Text.trim text.toList = [] then "" else (onFile text).stderr) ∧
        shell.status.code = 0) := by
  intro lines shell onFile
  refine ⟨lineCut_inputLines input, flatten_cutAfter _ input, ?_⟩
  intro reported
  have file_run : ∀ text, onFile text = handle ⟨colours, tokens, verbose⟩ shellName text := by
    intro text
    rw [← named]
    exact run_of_text fileOptions rfl []
  have shell_run : shell = session ⟨colours, tokens, verbose⟩ lines := run_of_no_file options input
  refine ⟨?_, ?_, ?_⟩
  · rw [shell_run, stdout_session reported]
    simp only [handleLine_eq, file_run, apply_ite (Transcript.stdout · time)]
    rfl
  · rw [shell_run, stderr_session reported]
    simp only [handleLine_eq, file_run, apply_ite Transcript.stderr]
    rfl
  · rw [shell_run, session_eq reported]
    rfl

-- a wrong line, a blank line with a no-break space, a right line, and a line that is no text
theorem run_lines_as_files_wrong_blank_right :
    let input : List UInt8 := [41, 10, 194, 160, 10, 49, 10, 255, 10, 98]
    let shell := run false (fun _ => .error .missing) ["-v"] input
    let onFile := fun text : String =>
      run false (fun _ => .ok text.toUTF8) ["-v", "notes/shell"] []
    leadingTexts (inputLines input) = [")\n", "\u00a0\n", "1\n"] ∧
      shell.stdout "1ms" =
        prompt ++ (onFile ")\n").stdout "1ms" ++ prompt ++ prompt ++ (onFile "1\n").stdout "1ms" ++
          prompt ++ farewell ∧
      shell.stderr = (onFile ")\n").stderr ++ (onFile "1\n").stderr ∧
      (onFile ")\n").status = .failure ∧ shell.status.code = 0 := by
  intro input shell onFile
  have texts : leadingTexts (inputLines input) = [")\n", "\u00a0\n", "1\n"] := by decide +kernel
  have wrong : Text.trim ")\n".toList ≠ [] := by decide
  have blank : Text.trim "\u00a0\n".toList = [] := by decide
  have right : Text.trim "1\n".toList ≠ [] := by decide
  obtain ⟨_, _, answers⟩ := run_lines_as_files false false true (fun _ => .error .missing) ["-v"]
    ["-v", "notes/shell"] "notes/shell" (by decide) (by decide) (by decide +kernel) input "1ms"
  obtain ⟨out, err, code⟩ := answers (by decide +kernel)
  rw [texts, List.map_cons, List.map_cons, List.map_cons, List.map_nil, if_neg wrong,
    if_pos blank, if_neg right] at out err
  refine ⟨texts, ?_, ?_, by decide +kernel, code⟩
  · rw [out]
    simp only [String.join_cons, String.join_nil, String.append_empty, String.append_assoc]
    rfl
  · rw [err]
    simp only [String.join_cons, String.join_nil, String.append_empty, String.empty_append]
    rfl

end Command

end LetLang
