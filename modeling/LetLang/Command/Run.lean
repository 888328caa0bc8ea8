import LetLang.Command.Help
import LetLang.Command.Options
import LetLang.Command.Transcript
import LetLang.Cut
import LetLang.Diagnostic.Report
import LetLang.Parse.Program

set_option autoImplicit false

namespace LetLang.Command

structure Settings where
  colours : Bool
  tokens : Bool
  verbose : Bool
deriving DecidableEq, Repr

def Settings.ofOptions (colours : Bool) (options : Options) : Settings :=
  ⟨colours, options.tokens, options.verbose⟩

def timing (settings : Settings) (phase : Phase) : List Effect :=
  if settings.verbose then [.took phase] else []

/-- The line that lists a token. Stray characters stand out in red. -/
def tokenLine (settings : Settings) (token : Token) : Effect :=
  if token.is .illegal then .out (paint settings.colours .red token.describe ++ "\n")
  else .out (token.describe ++ "\n")

def listTokens (settings : Settings) (source text : String) : Transcript :=
  let lines := (Cursor.ofText source text).tokens.map (tokenLine settings)
  ⟨lines ++ timing settings .tokenizing, .success⟩

/-- Reports on diagnostics in order, up to one that has no report. -/
def reportAll (settings : Settings) (text : String) : List Diagnostic → Transcript
  | [] => ⟨[], .failure⟩
  | diagnostic :: rest =>
      match diagnostic.report? text with
      | some report =>
          (reportAll settings text rest).after
            [.err (paint settings.colours .red report ++ "\n")]
      | none => ⟨[], .aborted⟩

def parseText (settings : Settings) (source text : String) : Transcript :=
  let result : Transcript :=
    match parse source text with
    | .ok program => ⟨[.out (program.render ++ "\n")], .success⟩
    | .error diagnostics => reportAll settings text diagnostics
  result.after (timing settings .parsing)

def handle (settings : Settings) (source text : String) : Transcript :=
  if settings.tokens then listTokens settings source text else parseText settings source text

inductive ReadFailure where
  | missing
  | isDirectory
  | notDirectory
  | nameTooLong
  | notText
  | other (reason : String)
deriving DecidableEq, Repr

def ReadFailure.message : ReadFailure → String
  | .missing => "No such file or directory (os error 2)"
  | .isDirectory => "Is a directory (os error 21)"
  | .notDirectory => "Not a directory (os error 20)"
  | .nameTooLong => "File name too long (os error 36)"
  | .notText => "stream did not contain valid UTF-8"
  | .other reason => reason

/-- The parts of a path between its slashes. -/
def pathParts (path : String) : List String :=
  (cutAfter (· == '/') path.toList).map fun part => String.ofList (part.filter (· != '/'))

/-- The name of a source that is read from a path: the last part that names something, or the
path itself if that part is missing or leads upwards. -/
def sourceName (path : String) : String :=
  match ((pathParts path).filter fun part => part != "" && part != ".").getLast? with
  | some part => if part == ".." then path else part
  | none => path

def handleFile (settings : Settings) (path : String) (content : Except ReadFailure ByteArray) :
    Transcript :=
  let failed (reason : ReadFailure) : Transcript :=
    ⟨[.err (paint settings.colours .boldRed "Error:" ++ " failed to read " ++ path ++ ": " ++
      reason.message ++ "\n")], .failure⟩
  match content with
  | .error reason => failed reason
  | .ok bytes =>
      match String.fromUTF8? bytes with
      | some text => handle settings (sourceName path) text
      | none => failed .notText

def prompt : String := ">> "

def farewell : String := "\n( ;ᴗ;)ﾉｼ\n"

/-- Handles one line of the shell. A blank line is passed over. -/
def handleLine (settings : Settings) (line : String) : Transcript :=
  if Text.allBlank line.toList then ⟨[], .success⟩ else handle settings shellName line

/-- The lines of an input, each with its line feed if it has one. -/
def inputLines (input : List UInt8) : List (List UInt8) :=
  cutAfter (· == 10) input

def lineText? (line : List UInt8) : Option String :=
  String.fromUTF8? ⟨line.toArray⟩

/-- What the shell does behind the prompt, and whether its session ends with that. There is no line
at the end of the input, nor where it is no text. -/
def turn (settings : Settings) : Option String → Transcript × Bool
  | none => (⟨[.out farewell], .success⟩, true)
  | some line =>
      let handled := handleLine settings line
      (handled, handled.status = .aborted)

def session (settings : Settings) : List (List UInt8) → Transcript
  | [] => (turn settings none).1.after [.out prompt]
  | line :: rest =>
      let (handled, ends) := turn settings (lineText? line)
      if ends then handled.after [.out prompt]
      else (session settings rest).after (.out prompt :: handled.effects)

/-- A whole run of the command on arguments and standard input, given what reading each path
gives. -/
def run (colours : Bool) (read : String → Except ReadFailure ByteArray) (arguments : List String)
    (input : List UInt8) : Transcript :=
  match Options.ofArguments arguments with
  | .error .help => ⟨[.out (helpText colours)], .success⟩
  | .error .misuse => ⟨[.err (misuseText colours)], .misuse⟩
  | .ok options =>
      let settings := Settings.ofOptions colours options
      match options.file with
      | some path => handleFile settings path (read path)
      | none => session settings (inputLines input)

end LetLang.Command
