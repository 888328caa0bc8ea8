set_option autoImplicit false

namespace LetLang.Command

inductive Phase where
  | tokenizing
  | parsing
deriving DecidableEq, Repr

def Phase.label : Phase → String
  | .tokenizing => "Tokenized in "
  | .parsing => "Parsed in "

inductive Effect where
  /-- A text on standard output. -/
  | out (text : String)
  /-- A text on standard error. -/
  | err (text : String)
  /-- The time that a phase took, as a line on standard output. -/
  | took (phase : Phase)
deriving DecidableEq, Repr

inductive Status where
  | success
  | failure
  | misuse
  /-- A report could not be written. -/
  | aborted
deriving DecidableEq, Repr

def Status.code : Status → Nat
  | .success => 0
  | .failure => 1
  | .misuse => 2
  | .aborted => 101

def Effect.stdout (time : String) : Effect → String
  | .out text => text
  | .err _ => ""
  | .took phase => phase.label ++ time ++ "\n"

def Effect.stderr : Effect → String
  | .out _ => ""
  | .err text => text
  | .took _ => ""

/-- All effects of a command in order, and its status. How long a phase took is not known here; its
place is. -/
structure Transcript where
  effects : List Effect
  status : Status
deriving DecidableEq, Repr

namespace Transcript

def stdout (transcript : Transcript) (time : String) : String :=
  String.join (transcript.effects.map (Effect.stdout time))

def stderr (transcript : Transcript) : String :=
  String.join (transcript.effects.map Effect.stderr)

def after (effects : List Effect) (transcript : Transcript) : Transcript :=
  ⟨effects ++ transcript.effects, transcript.status⟩

end Transcript

end LetLang.Command
