import Treewalk.Token

/-!
# Programs

Expressions and statements as the parser builds them. Nodes keep the tokens that later messages
point at; where a construct begins and ends is computed from them.
-/

namespace Treewalk

set_option autoImplicit false

/-- An expression. `logical` is `and` or `or`; `call` keeps its closing parenthesis. -/
inductive Expr where
  | literal (value : Literal) (line : Nat) (location : Span)
  | grouping (inner : Expr) (location : Span)
  | unary (operator : Token) (operand : Expr)
  | binary (left : Expr) (operator : Token) (right : Expr)
  | logical (left : Expr) (operator : Token) (right : Expr)
  | reference (name : Token)
  | assign (name : Token) (value : Expr)
  | call (callee : Expr) (paren : Token) (arguments : List Expr)
deriving Inhabited

/-- A statement. A loop that was written with `for` keeps that word as its keyword. -/
inductive Stmt where
  | expression (value : Expr)
  | print (keyword : Token) (value : Expr)
  | declare (name : Token) (initial : Option Expr)
  | block (body : List Stmt) (location : Span)
  | ifThen (keyword : Token) (condition : Expr) (consequent : Stmt)
  | ifElse (keyword : Token) (condition : Expr) (consequent alternative : Stmt)
  | loop (keyword : Token) (condition : Expr) (body : Stmt)
  | function (name : Token) (parameters : List Token) (body : List Stmt)
  | returnValue (keyword : Token) (value : Option Expr)
  | breakLoop (keyword : Token)
deriving Inhabited

abbrev Program := List Stmt

namespace Expr

def location : Expr → Span
  | literal _ _ location => location
  | grouping _ location => location
  | unary operator operand => operator.span.hull operand.location
  | binary left _ right => left.location.hull right.location
  | logical left _ right => left.location.hull right.location
  | reference name => name.span
  | assign name value => name.span.hull value.location
  | call callee paren _ => callee.location.hull paren.span

def line : Expr → Nat
  | literal _ line _ => line
  | grouping inner _ => inner.line
  | unary operator _ => operator.line
  | binary _ operator _ => operator.line
  | logical _ operator _ => operator.line
  | reference name => name.line
  | assign name _ => name.line
  | call _ paren _ => paren.line

def constant? : Expr → Option Bool
  | literal (.boolean value) _ _ => some value
  | grouping inner _ => inner.constant?
  | _ => none

end Expr

namespace Stmt

/-- The source range of the statement without its closing semicolon; for a function, its name. -/
def location : Stmt → Span
  | expression value => value.location
  | print keyword value => keyword.span.hull value.location
  | declare name (some initial) => name.span.hull initial.location
  | declare name none => name.span
  | block _ location => location
  | ifThen keyword _ consequent => keyword.span.hull consequent.location
  | ifElse keyword _ consequent alternative =>
      (keyword.span.hull consequent.location).hull alternative.location
  | loop keyword _ body => keyword.span.hull body.location
  | function name _ _ => name.span
  | returnValue keyword (some value) => keyword.span.hull value.location
  | returnValue keyword none => keyword.span
  | breakLoop keyword => keyword.span

mutual

def line : Stmt → Nat
  | expression value => value.line
  | print keyword _ => keyword.line
  | declare name _ => name.line
  | block body _ => firstLine body
  | ifThen keyword _ _ => keyword.line
  | ifElse keyword _ _ _ => keyword.line
  | loop keyword _ _ => keyword.line
  | function name _ _ => name.line
  | returnValue keyword _ => keyword.line
  | breakLoop keyword => keyword.line

def firstLine : List Stmt → Nat
  | [] => 0
  | first :: _ => line first

end

end Stmt

end Treewalk
