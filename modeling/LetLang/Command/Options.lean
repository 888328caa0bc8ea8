set_option autoImplicit false

namespace LetLang.Command

structure Options where
  /-- The file to read; without one the command reads lines as they are typed. -/
  file : Option String
  /-- List the tokens instead of parsing. -/
  tokens : Bool
  /-- Tell how long each phase took. -/
  verbose : Bool
deriving DecidableEq, Repr

inductive Stop where
  | help
  | misuse
deriving DecidableEq, Repr

inductive Flag where
  | tokens
  | verbose
  | help
deriving DecidableEq, Repr

def Flag.ofLong? : String → Option Flag
  | "--tokens" => some .tokens
  | "--verbose" => some .verbose
  | "--help" => some .help
  | _ => none

def Flag.ofLetter? : Char → Option Flag
  | 't' => some .tokens
  | 'v' => some .verbose
  | 'h' => some .help
  | _ => none

namespace Options

def empty : Options :=
  ⟨none, false, false⟩

/-- Takes a flag, which may be given once. -/
def addFlag (options : Options) : Flag → Except Stop Options
  | .tokens =>
      if options.tokens then .error .misuse else .ok ⟨options.file, true, options.verbose⟩
  | .verbose =>
      if options.verbose then .error .misuse else .ok ⟨options.file, options.tokens, true⟩
  | .help => .error .help

def addLong (options : Options) (argument : String) : Except Stop Options :=
  match Flag.ofLong? argument with
  | some flag => options.addFlag flag
  | none => .error .misuse

def addLetters (options : Options) : List Char → Except Stop Options
  | [] => .ok options
  | letter :: rest =>
      match Flag.ofLetter? letter with
      | some flag => do
          let extended ← options.addFlag flag
          extended.addLetters rest
      | none => .error .misuse

/-- Takes a file, which must have a name and be the only one. -/
def addFile (options : Options) (name : String) : Except Stop Options :=
  if name.isEmpty || options.file.isSome then .error .misuse
  else .ok ⟨some name, options.tokens, options.verbose⟩

/-- Takes one argument that is not the end of the flags. -/
def addArgument (options : Options) (argument : String) : Except Stop Options :=
  match argument.toList with
  | '-' :: '-' :: _ => options.addLong argument
  | '-' :: letter :: letters => options.addLetters (letter :: letters)
  | _ => options.addFile argument

/-- Takes arguments behind the end of the flags. -/
def addFiles (options : Options) : List String → Except Stop Options
  | [] => .ok options
  | name :: rest => do
      let extended ← options.addFile name
      extended.addFiles rest

def addArguments (options : Options) : List String → Except Stop Options
  | [] => .ok options
  | argument :: rest =>
      if argument == "--" then options.addFiles rest
      else do
        let extended ← options.addArgument argument
        extended.addArguments rest

/-- Reads the arguments in order. The first one that settles the matter wins: a request for help, or
something that is no use of the command. -/
def ofArguments (arguments : List String) : Except Stop Options :=
  empty.addArguments arguments

end Options

end LetLang.Command
