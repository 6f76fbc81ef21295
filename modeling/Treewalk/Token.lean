import Treewalk.Source.Span
import Treewalk.Number.Layout

/-!
# Tokens

A token is a piece of source text with its kind, its place and, for numbers and strings, the value
that it denotes. The reserved words of the language are the keyword kinds and nothing else.
-/

namespace Treewalk

set_option autoImplicit false

/-- What a token is: a sign, a word with a fixed spelling, one of the three open classes, or the end
of the input. -/
inductive Kind where
  | leftParen | rightParen | leftBrace | rightBrace
  | comma | dot | minus | plus | semicolon | slash | star
  | bang | bangEqual | equal | equalEqual | greater | greaterEqual | less | lessEqual
  | identifier | string | number
  | andWord | breakWord | classWord | elseWord | falseWord | forWord | funWord | ifWord | nilWord
  | orWord | printWord | returnWord | superWord | thisWord | trueWord | varWord | whileWord
  | endOfInput
deriving DecidableEq, Inhabited

namespace Kind

def keywords : List Kind :=
  [andWord, breakWord, classWord, elseWord, falseWord, forWord, funWord, ifWord, nilWord, orWord,
    printWord, returnWord, superWord, thisWord, trueWord, varWord, whileWord]

def all : List Kind :=
  [leftParen, rightParen, leftBrace, rightBrace, comma, dot, minus, plus, semicolon, slash, star,
    bang, bangEqual, equal, equalEqual, greater, greaterEqual, less, lessEqual, identifier, string,
    number] ++ keywords ++ [endOfInput]

def name : Kind → String
  | leftParen => "LeftParen"
  | rightParen => "RightParen"
  | leftBrace => "LeftBrace"
  | rightBrace => "RightBrace"
  | comma => "Comma"
  | dot => "Dot"
  | minus => "Minus"
  | plus => "Plus"
  | semicolon => "Semicolon"
  | slash => "Slash"
  | star => "Star"
  | bang => "Bang"
  | bangEqual => "BangEqual"
  | equal => "Equal"
  | equalEqual => "EqualEqual"
  | greater => "Greater"
  | greaterEqual => "GreaterEqual"
  | less => "Less"
  | lessEqual => "LessEqual"
  | identifier => "Identifier"
  | string => "String"
  | number => "Number"
  | andWord => "And"
  | breakWord => "Break"
  | classWord => "Class"
  | elseWord => "Else"
  | falseWord => "False"
  | forWord => "For"
  | funWord => "Fun"
  | ifWord => "If"
  | nilWord => "Nil"
  | orWord => "Or"
  | printWord => "Print"
  | returnWord => "Return"
  | superWord => "Super"
  | thisWord => "This"
  | trueWord => "True"
  | varWord => "Var"
  | whileWord => "While"
  | endOfInput => "Eof"

def spelling : Kind → String
  | leftParen => "("
  | rightParen => ")"
  | leftBrace => "\x7b"
  | rightBrace => "\x7d"
  | comma => ","
  | dot => "."
  | minus => "-"
  | plus => "+"
  | semicolon => ";"
  | slash => "/"
  | star => "*"
  | bang => "!"
  | bangEqual => "!="
  | equal => "="
  | equalEqual => "=="
  | greater => ">"
  | greaterEqual => ">="
  | less => "<"
  | lessEqual => "<="
  | identifier => "identifier"
  | string => "string"
  | number => "number"
  | andWord => "and"
  | breakWord => "break"
  | classWord => "class"
  | elseWord => "else"
  | falseWord => "false"
  | forWord => "for"
  | funWord => "fun"
  | ifWord => "if"
  | nilWord => "nil"
  | orWord => "or"
  | printWord => "print"
  | returnWord => "return"
  | superWord => "super"
  | thisWord => "this"
  | trueWord => "true"
  | varWord => "var"
  | whileWord => "while"
  | endOfInput => "end of file"

def isReserved (kind : Kind) : Bool :=
  keywords.contains kind

def startsStatement : Kind → Bool
  | classWord | funWord | varWord | ifWord | whileWord | printWord | returnWord => true
  | _ => false

def ofKeyword? (word : String) : Option Kind :=
  keywords.find? fun kind => kind.spelling == word

end Kind

inductive Literal where
  | nil
  | boolean (value : Bool)
  | number (value : Float)
  | string (value : String)
deriving Inhabited

namespace Literal

def source : Literal → String
  | nil => "nil"
  | boolean true => "true"
  | boolean false => "false"
  | number value => Number.plain value
  | string value => "\"" ++ value ++ "\""

def bare : Literal → String
  | string value => value
  | literal => literal.source

end Literal

/-- A token; `line` is the line on which its last character stands. -/
structure Token where
  kind : Kind
  lexeme : String
  literal : Option Literal
  line : Nat
  span : Span
deriving Inhabited

namespace Token

def listing (token : Token) : String :=
  let head := token.kind.name ++ " " ++ token.lexeme
  match token.literal with
  | some literal => head ++ " " ++ literal.bare
  | none => head

end Token

end Treewalk
