import Treewalk.Program.Tree

/-!
# Printing programs

A program is printed in a fixed layout: one blank around operators, none behind a unary operator or
in front of an argument list, one line for each statement at the top. No parentheses are added:
those of the source are nodes of the tree. Braces are added in one place only, around a conditional
without alternative that stands in front of an `else`.
-/

namespace Treewalk

set_option autoImplicit false

namespace Expr

mutual

def source : Expr → String
  | literal value _ _ => value.source
  | grouping inner _ => "(" ++ inner.source ++ ")"
  | unary operator operand => operator.lexeme ++ operand.source
  | binary left operator right => left.source ++ " " ++ operator.lexeme ++ " " ++ right.source
  | logical left operator right => left.source ++ " " ++ operator.lexeme ++ " " ++ right.source
  | reference name => name.lexeme
  | assign name value => name.lexeme ++ " = " ++ value.source
  | call callee _ arguments => callee.source ++ "(" ++ argumentSource arguments ++ ")"

def argumentSource : List Expr → String
  | [] => ""
  | [argument] => argument.source
  | argument :: rest => argument.source ++ ", " ++ argumentSource rest

end

end Expr

namespace Stmt

/-- Whether the statement is a conditional without alternative, which would take the next `else`. -/
def takesElse : Stmt → Bool
  | ifThen _ _ _ => true
  | _ => false

mutual

def source : Stmt → String
  | expression value => value.source ++ ";"
  | print _ value => "print " ++ value.source ++ ";"
  | declare name (some initial) => "var " ++ name.lexeme ++ " = " ++ initial.source ++ ";"
  | declare name none => "var " ++ name.lexeme ++ ";"
  | block body _ => "\x7b " ++ bodySource body ++ "\x7d"
  | ifThen _ condition consequent => "if (" ++ condition.source ++ ") " ++ consequent.source
  | ifElse _ condition consequent alternative =>
      let inner := consequent.source
      let kept := if consequent.takesElse then "\x7b " ++ inner ++ " \x7d" else inner
      "if (" ++ condition.source ++ ") " ++ kept ++ " else " ++ alternative.source
  | loop _ condition body => "while (" ++ condition.source ++ ") " ++ body.source
  | function name parameters body =>
      "fun " ++ name.lexeme ++ "(" ++ ", ".intercalate (parameters.map Token.lexeme) ++ ") \x7b "
        ++ bodySource body ++ "\x7d"
  | returnValue _ (some value) => "return " ++ value.source ++ ";"
  | returnValue _ none => "return;"
  | breakLoop _ => "break;"

def bodySource : List Stmt → String
  | [] => ""
  | first :: rest => first.source ++ " " ++ bodySource rest

end

end Stmt

def Program.source (program : Program) : String :=
  "\n".intercalate (program.map Stmt.source)

end Treewalk
