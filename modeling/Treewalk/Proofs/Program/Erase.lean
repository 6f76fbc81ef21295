import Treewalk.Program.Tree
import Treewalk.Proofs.Token.Lexed

/-!
# Programs without places

Erasing takes lines and spans out of a tree, and the keyword token out of a loop, where it tells
only which of the two words the loop was written with. Everything else stays.
-/

namespace Treewalk

set_option autoImplicit false

def Span.nowhere : Span :=
  ⟨0, 0⟩

namespace Expr

mutual

def erase : Expr → Expr
  | literal value _ _ => .literal value 0 .nowhere
  | grouping inner _ => .grouping inner.erase .nowhere
  | unary operator operand => .unary operator.erase operand.erase
  | binary left operator right => .binary left.erase operator.erase right.erase
  | logical left operator right => .logical left.erase operator.erase right.erase
  | reference name => .reference name.erase
  | assign name value => .assign name.erase value.erase
  | call callee paren arguments => .call callee.erase paren.erase (eraseAll arguments)

def eraseAll : List Expr → List Expr
  | [] => []
  | first :: rest => first.erase :: eraseAll rest

end

end Expr

namespace Stmt

mutual

def erase : Stmt → Stmt
  | expression value => .expression value.erase
  | print keyword value => .print keyword.erase value.erase
  | declare name initial => .declare name.erase (initial.map Expr.erase)
  | block body _ => .block (eraseAll body) .nowhere
  | ifThen keyword condition consequent =>
      .ifThen keyword.erase condition.erase consequent.erase
  | ifElse keyword condition consequent alternative =>
      .ifElse keyword.erase condition.erase consequent.erase alternative.erase
  | loop _ condition body => .loop (Token.unplaced .whileWord [] none) condition.erase body.erase
  | function name parameters body =>
      .function name.erase (parameters.map Token.erase) (eraseAll body)
  | returnValue keyword value => .returnValue keyword.erase (value.map Expr.erase)
  | breakLoop keyword => .breakLoop keyword.erase

def eraseAll : List Stmt → List Stmt
  | [] => []
  | first :: rest => first.erase :: eraseAll rest

end

end Stmt

/-- The program without lines, spans and the keyword tokens of loops. -/
def Program.erase (program : Program) : Program :=
  Stmt.eraseAll program

end Treewalk
