import LetLang.Command.Colour

set_option autoImplicit false

namespace LetLang.Command

def usageLine (colours : Bool) : String :=
  paint colours .heading "Usage:" ++ " " ++ paint colours .bold "monkey" ++ " [OPTIONS] [FILE]\n"

/-- The line that explains a flag, whose description starts in a fixed column. -/
def flagLine (colours : Bool) (letter long gap description : String) : String :=
  "  " ++ paint colours .bold letter ++ ", " ++ paint colours .bold long ++ gap ++ description ++ "\n"

def helpText (colours : Bool) : String :=
  "Parse monkey source into its canonical form\n" ++
    "\n" ++
    usageLine colours ++
    "\n" ++
    paint colours .heading "Arguments:" ++ "\n" ++
    "  [FILE]  Source file to parse; starts the REPL when omitted\n" ++
    "\n" ++
    paint colours .heading "Options:" ++ "\n" ++
    flagLine colours "-t" "--tokens" "   " "Print the token stream instead of the syntax tree" ++
    flagLine colours "-v" "--verbose" "  " "Print phase timings" ++
    flagLine colours "-h" "--help" "     " "Print help"

def misuseText (colours : Bool) : String :=
  "error: invalid arguments\n" ++
    "\n" ++
    usageLine colours ++
    "\n" ++
    "For more information, try '--help'.\n"

end LetLang.Command
