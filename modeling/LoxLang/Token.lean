/-!
# Tokens

The words of the language: reserved words, marks, names and literals. A token keeps the text it
was read from and the line on which that text ends.

1. `Keyword.ofText?_text`, `Mark.ofText?_text`: a word or mark is found by its own text, and
   `text_of_ofText?`: by no other.
2. `Kind.sameAs`: the comparison that ignores what a literal stands for.
-/

namespace LoxLang

/-- The reserved words. -/
inductive Keyword where
  | andWord
  | classWord
  | elseWord
  | falseWord
  | funWord
  | forWord
  | ifWord
  | nilWord
  | orWord
  | printWord
  | returnWord
  | superWord
  | thisWord
  | trueWord
  | varWord
  | whileWord
  deriving DecidableEq, Repr

/-- Punctuation and operators. -/
inductive Mark where
  | leftParen
  | rightParen
  | leftBrace
  | rightBrace
  | comma
  | dot
  | minus
  | plus
  | semicolon
  | slash
  | star
  | bang
  | bangEqual
  | equal
  | equalEqual
  | greater
  | greaterEqual
  | less
  | lessEqual
  deriving DecidableEq, Repr

/-- What a token is; a literal carries the value it stands for. -/
inductive Kind where
  | mark (mark : Mark)
  | keyword (keyword : Keyword)
  | identifier
  | string (contents : String)
  | number (value : Float)
  | eof
  deriving DecidableEq

/-- One token: its text, quotes included, and the line on which that text ends. -/
structure Token where
  kind : Kind
  lexeme : String
  line : Nat
  deriving DecidableEq

namespace Keyword

/-- The text of a reserved word. -/
def text : Keyword → String
  | .andWord => "and"
  | .classWord => "class"
  | .elseWord => "else"
  | .falseWord => "false"
  | .funWord => "fun"
  | .forWord => "for"
  | .ifWord => "if"
  | .nilWord => "nil"
  | .orWord => "or"
  | .printWord => "print"
  | .returnWord => "return"
  | .superWord => "super"
  | .thisWord => "this"
  | .trueWord => "true"
  | .varWord => "var"
  | .whileWord => "while"

/-- The name under which listings show a reserved word. -/
def name (k : Keyword) : String :=
  k.text.toUpper

/-- Every reserved word. -/
def all : List Keyword :=
  [.andWord, .classWord, .elseWord, .falseWord, .funWord, .forWord, .ifWord, .nilWord, .orWord,
    .printWord, .returnWord, .superWord, .thisWord, .trueWord, .varWord, .whileWord]

/-- The reserved word with this text. -/
def ofText? (s : String) : Option Keyword :=
  all.find? fun k => k.text == s

theorem ofText?_text (k : Keyword) : ofText? k.text = some k := by
  cases k <;> decide

theorem text_of_ofText? {s : String} {k : Keyword} (found : ofText? s = some k) : k.text = s := by
  simpa using List.find?_some found

end Keyword

namespace Mark

/-- The text of a mark. -/
def text : Mark → String
  | .leftParen => "("
  | .rightParen => ")"
  | .leftBrace => "\x7b"
  | .rightBrace => "\x7d"
  | .comma => ","
  | .dot => "."
  | .minus => "-"
  | .plus => "+"
  | .semicolon => ";"
  | .slash => "/"
  | .star => "*"
  | .bang => "!"
  | .bangEqual => "!="
  | .equal => "="
  | .equalEqual => "=="
  | .greater => ">"
  | .greaterEqual => ">="
  | .less => "<"
  | .lessEqual => "<="

/-- The name under which listings show a mark. -/
def name : Mark → String
  | .leftParen => "LEFT_PAREN"
  | .rightParen => "RIGHT_PAREN"
  | .leftBrace => "LEFT_BRACE"
  | .rightBrace => "RIGHT_BRACE"
  | .comma => "COMMA"
  | .dot => "DOT"
  | .minus => "MINUS"
  | .plus => "PLUS"
  | .semicolon => "SEMICOLON"
  | .slash => "SLASH"
  | .star => "STAR"
  | .bang => "BANG"
  | .bangEqual => "BANG_EQUAL"
  | .equal => "EQUAL"
  | .equalEqual => "EQUAL_EQUAL"
  | .greater => "GREATER"
  | .greaterEqual => "GREATER_EQUAL"
  | .less => "LESS"
  | .lessEqual => "LESS_EQUAL"

/-- Every mark. -/
def all : List Mark :=
  [.leftParen, .rightParen, .leftBrace, .rightBrace, .comma, .dot, .minus, .plus, .semicolon,
    .slash, .star, .bang, .bangEqual, .equal, .equalEqual, .greater, .greaterEqual, .less,
    .lessEqual]

/-- The mark with this text. -/
def ofText? (s : String) : Option Mark :=
  all.find? fun m => m.text == s

theorem ofText?_text (m : Mark) : ofText? m.text = some m := by
  cases m <;> decide

theorem text_of_ofText? {s : String} {m : Mark} (found : ofText? s = some m) : m.text = s := by
  simpa using List.find?_some found

end Mark

namespace Kind

/-- The name of a kind in listings; what a literal stands for is not part of it. -/
def name : Kind → String
  | .mark m => m.name
  | .keyword k => k.name
  | .identifier => "IDENTIFIER"
  | .string _ => "STRING"
  | .number _ => "NUMBER"
  | .eof => "EOF"

/-- Are two kinds the same, whatever their literals stand for? -/
def sameAs : Kind → Kind → Bool
  | .string _, .string _ => true
  | .number _, .number _ => true
  | a, b => a == b

end Kind

namespace Token

/-- Are two tokens of the same kind, text and line? -/
def sameAs (a b : Token) : Bool :=
  a.kind.sameAs b.kind && a.lexeme == b.lexeme && a.line == b.line

/-- Does this token end the input? -/
def isEnd (t : Token) : Bool :=
  t.kind == .eof

end Token

/-- Where a diagnostic points: a line, and the text there unless that is the end of the input. -/
structure Site where
  line : Nat
  lexeme? : Option String
  deriving DecidableEq, Repr

namespace Site

/-- The place of a token. -/
def ofToken (t : Token) : Site :=
  ⟨t.line, if t.isEnd then none else some t.lexeme⟩

/-- A diagnostic about this place. -/
def report (site : Site) (message : String) : String :=
  let place := match site.lexeme? with
    | none => " at end"
    | some lexeme => " at '" ++ lexeme ++ "'"
  "[line " ++ toString site.line ++ "] Error" ++ place ++ ": " ++ message

end Site

end LoxLang
