import PlZero.Source.Position
import PlZero.Text.Column
import PlZero.Text.Quoted

namespace PlZero

inductive TokenKind where
  | eof
  | beginWord
  | endWord
  | constWord
  | varWord
  | printWord
  | identifier
  | number
  | plus
  | minus
  | times
  | divide
  | equals
  | semicolon
  | leftParen
  | rightParen
  | other (code : Int)
deriving DecidableEq, Repr

namespace TokenKind

def ofCode : Int → TokenKind
  | 0 => eof
  | 1 => beginWord
  | 2 => endWord
  | 3 => constWord
  | 4 => varWord
  | 5 => printWord
  | 6 => identifier
  | 7 => number
  | 8 => plus
  | 9 => minus
  | 10 => times
  | 11 => divide
  | 12 => equals
  | 13 => semicolon
  | 14 => leftParen
  | 15 => rightParen
  | code => other code

def name : TokenKind → String
  | eof => "EOF"
  | beginWord => "BEGIN"
  | endWord => "END"
  | constWord => "CONST"
  | varWord => "VAR"
  | printWord => "PRINT"
  | identifier => "IDENTIFIER"
  | number => "UINT"
  | plus => "PLUS"
  | minus => "MINUS"
  | times => "MULT"
  | divide => "DIV"
  | equals => "EQUAL"
  | semicolon => "SEMICOLON"
  | leftParen => "LPAREN"
  | rightParen => "RPAREN"
  | other code => s!"TokenType({code})"

def keyword? : String → Option TokenKind
  | "begin" => some beginWord
  | "end" => some endWord
  | "const" => some constWord
  | "var" => some varWord
  | "print" => some printWord
  | _ => none

def sign? : Char → Option TokenKind
  | '+' => some plus
  | '-' => some minus
  | '*' => some times
  | '/' => some divide
  | '=' => some equals
  | ';' => some semicolon
  | '(' => some leftParen
  | ')' => some rightParen
  | _ => none

end TokenKind

structure Token where
  kind : TokenKind
  lexeme : String
  value : UInt64
  start : Position
  stop : Position
deriving DecidableEq, Repr

namespace Token

def endOfText (p : Position) : Token :=
  ⟨.eof, "", 0, p, p⟩

def content (t : Token) : String :=
  match t.kind with
  | .number => toString t.value.toNat
  | .eof => ""
  | _ => Text.quote t.lexeme

def render (t : Token) : String :=
  Text.padRight 10 t.kind.name ++ " " ++ Text.padRight 14 t.content ++ "  " ++ t.start.render

end Token

end PlZero
