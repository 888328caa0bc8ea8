import LetLang.Command.Run

set_option autoImplicit false

namespace LetLang.Command

/-- A time in nanoseconds as text, in the largest unit that leaves a whole part. -/
def timeText (nanoseconds : Nat) : String :=
  let scaled (unit : Nat) (places : Nat) (suffix : String) : String :=
    let fraction := Nat.repr (nanoseconds % unit)
    let padding := String.ofList (List.replicate (places - fraction.length) '0')
    Nat.repr (nanoseconds / unit) ++ "." ++ padding ++ fraction ++ suffix
  if nanoseconds < 1000 then Nat.repr nanoseconds ++ "ns"
  else if nanoseconds < 1000000 then scaled 1000 3 "µs"
  else if nanoseconds < 1000000000 then scaled 1000000 6 "ms"
  else scaled 1000000000 9 "s"

/-- Prints an effect. Times are counted from `started`. -/
def perform (started : Nat) : Effect → IO Unit
  | .out text => do
      let out ← IO.getStdout
      out.putStr text
      out.flush
  | .err text => do
      let err ← IO.getStderr
      err.putStr text
  | .took phase => do
      let now ← IO.monoNanosNow
      let out ← IO.getStdout
      out.putStr (phase.label ++ timeText (now - started) ++ "\n")

def performAll (started : Nat) (transcript : Transcript) : IO Status := do
  for effect in transcript.effects do
    perform started effect
  return transcript.status

def readFile (path : String) : IO (Except ReadFailure ByteArray) := do
  try
    let bytes ← IO.FS.readBinFile path
    return .ok bytes
  catch reason =>
    return .error <|
      match reason with
      | .noFileOrDirectory .. => .missing
      | .inappropriateType _ 21 _ => .isDirectory
      | .inappropriateType .. => .notDirectory
      | .invalidArgument .. => .nameTooLong
      | .permissionDenied .. => .other "Permission denied (os error 13)"
      | other => .other other.toString

/-- Reads the bytes of standard input up to a line feed, which is included, or to the end. The bytes
so far are given last first. -/
partial def readLine (input : IO.FS.Stream) (before : List UInt8) : IO (List UInt8) := do
  let bytes ← input.read 1
  match bytes.toList with
  | [] => return before.reverse
  | byte :: _ =>
      if byte == 10 then return (byte :: before).reverse else readLine input (byte :: before)

/-- Reads a line of standard input. There is none at the end, nor when it is no text. -/
def readText : IO (Option String) := do
  let line ← readLine (← IO.getStdin) []
  return if line.isEmpty then none else lineText? line

partial def shell (settings : Settings) : IO Status := do
  perform 0 (.out prompt)
  let line ← readText
  let started ← IO.monoNanosNow
  let (handled, ends) := turn settings line
  let status ← performAll started handled
  if ends then return status else shell settings

def askColours : IO Bool := do
  let out ← IO.getStdout
  return coloursOn (← IO.getEnv "CLICOLOR_FORCE") (← IO.getEnv "NO_COLOR") (← IO.getEnv "CLICOLOR")
    (← out.isTty)

end LetLang.Command

open LetLang.Command in
def main (arguments : List String) : IO UInt32 := do
  let colours ← askColours
  let status ←
    match Options.ofArguments arguments with
    | .error .help => performAll 0 ⟨[.out (helpText colours)], .success⟩
    | .error .misuse => performAll 0 ⟨[.err (misuseText colours)], .misuse⟩
    | .ok options => do
        let settings := Settings.ofOptions colours options
        match options.file with
        | some path => do
            let content ← readFile path
            let started ← IO.monoNanosNow
            performAll started (handleFile settings path content)
        | none => shell settings
  return UInt32.ofNat status.code
