set_option autoImplicit false

namespace LetLang.Command

inductive Style where
  | red
  | boldRed
  | bold
  /-- Bold and underlined. -/
  | heading
deriving DecidableEq, Repr

def Style.closing : String := "\x1b[0m"

def Style.opening : Style → String
  | .red => "\x1b[31m"
  | .boldRed => "\x1b[1;31m"
  | .bold => "\x1b[1m"
  | .heading => "\x1b[1m\x1b[4m"

/-- A text in a style, which is opened again behind each closing sequence inside the text. -/
def Style.apply (style : Style) (text : String) : String :=
  style.opening ++ text.replace Style.closing (Style.closing ++ style.opening) ++ Style.closing

def paint (colours : Bool) (style : Style) (text : String) : String :=
  if colours then style.apply text else text

/-- Whether a setting is on. It is off when it is `0`. -/
def settingOn (value : String) : Bool :=
  value != "0"

/-- Whether colours are on. A setting may force them and another one may forbid them; otherwise
they are on for a terminal, unless a third setting is off. -/
def coloursOn (force forbid wanted : Option String) (terminal : Bool) : Bool :=
  if (force.map settingOn).getD false then true
  else if forbid.isSome then false
  else (wanted.map settingOn).getD true && terminal

end LetLang.Command
