set_option autoImplicit false

namespace LetLang

/-- The kinds of tokens. `eof` is the end of the source and `illegal` a character that starts no
token. -/
inductive Kind where
  | illegal
  | eof
  | ident
  | int
  | comma
  | semicolon
  | lparen
  | rparen
  | lbrace
  | rbrace
  | assign
  | bang
  | plus
  | minus
  | asterisk
  | slash
  | greater
  | less
  | equal
  | notEqual
  | fnWord
  | letWord
  | trueWord
  | falseWord
  | ifWord
  | elseWord
  | returnWord
deriving DecidableEq, Repr

namespace Kind

/-- The name under which a kind is shown. -/
def name : Kind → String
  | illegal => "ILLEGAL"
  | eof => "EOF"
  | ident => "IDENT"
  | int => "INT"
  | comma => "COMMA"
  | semicolon => "SEMICOLON"
  | lparen => "LPAREN"
  | rparen => "RPAREN"
  | lbrace => "LBRACE"
  | rbrace => "RBRACE"
  | assign => "ASSIGN"
  | bang => "BANG"
  | plus => "PLUS"
  | minus => "MINUS"
  | asterisk => "ASTERISK"
  | slash => "SLASH"
  | greater => "GT"
  | less => "LT"
  | equal => "EQ"
  | notEqual => "NOT_EQ"
  | fnWord => "FUNCTION"
  | letWord => "LET"
  | trueWord => "TRUE"
  | falseWord => "FALSE"
  | ifWord => "IF"
  | elseWord => "ELSE"
  | returnWord => "RETURN"

/-- Every kind, in the order of the names. -/
def all : List Kind :=
  [assign, asterisk, bang, comma, elseWord, eof, equal, falseWord, fnWord, greater, ident, ifWord,
    illegal, int, lbrace, letWord, lparen, less, minus, notEqual, plus, rbrace, returnWord, rparen,
    semicolon, slash, trueWord]

def keywords : List (String × Kind) :=
  [("fn", fnWord), ("let", letWord), ("true", trueWord), ("false", falseWord), ("if", ifWord),
    ("else", elseWord), ("return", returnWord)]

def keyword? (word : String) : Option Kind :=
  keywords.lookup word

/-- The kind of a word: its own when it is reserved, otherwise a name. -/
def ofWord (word : String) : Kind :=
  (keyword? word).getD ident

def ofSymbol : Char → Kind
  | '=' => assign
  | '!' => bang
  | '+' => plus
  | '-' => minus
  | '*' => asterisk
  | '/' => slash
  | '>' => greater
  | '<' => less
  | ';' => semicolon
  | '(' => lparen
  | ')' => rparen
  | ',' => comma
  | '\x7b' => lbrace
  | '\x7d' => rbrace
  | _ => illegal

end Kind

end LetLang
