import Treewalk.Check.Exit
import Treewalk.Check.Usage

/-!
# The static check

The check runs between parsing and evaluation. Its errors are the stray exits; its warnings are
those about control flow and about unread variables, in one list that is sorted by their starts.
-/

namespace Treewalk

set_option autoImplicit false

namespace Stmt

mutual

/-- One walk through a statement that follows its variables and looks at its control flow, and notes
all warnings in the order in which they are found. -/
def inspect (arrange : List Local → List Local) : Stmt → Usage → Usage
  | expression value, usage => usage.readAll value
  | print _ value, usage => usage.readAll value
  | declare name (some initial), usage => (usage.readAll initial).declare name.lexeme name.span
  | declare name none, usage => usage.declare name.lexeme name.span
  | block body _, usage => (inspectAll arrange false body usage.openScope).closeScope arrange
  | ifThen _ condition consequent, usage =>
      (consequent.inspect arrange (usage.readAll condition)).warn
        (consequentWarning condition consequent)
  | ifElse _ condition consequent alternative, usage =>
      (alternative.inspect arrange (consequent.inspect arrange (usage.readAll condition))).warn
        (alternativeWarning condition alternative ++ consequentWarning condition consequent)
  | loop keyword condition body, usage =>
      (body.inspect arrange (usage.readAll condition)).warn (loopWarning keyword condition body)
  | function _ _ body, usage => (inspectAll arrange false body usage.openScope).closeScope arrange
  | returnValue _ (some value), usage => usage.readAll value
  | returnValue _ none, usage => usage
  | breakLoop _, usage => usage

/-- That the rest of a sequence is unreachable is noted before the rest is looked at. -/
def inspectAll (arrange : List Local → List Local) (exited : Bool) : List Stmt → Usage → Usage
  | [], usage => usage
  | first :: rest, usage =>
      inspectAll arrange (exited || first.alwaysExits) rest
        ((first.inspect arrange usage).warn
          (if !exited && first.alwaysExits then unreachableRest rest else []))

end

end Stmt

/-- All problems of a program, when scopes are closed in the order that `arrange` picks. -/
def Program.problemsWith (program : Program) (arrange : List Local → List Local) : Problems :=
  Problems.sorted
    { errors := Stmt.strayExitsIn Context.top program
      warnings := (Stmt.inspectAll arrange false program Usage.start).found }

def Program.problems (program : Program) : Problems :=
  program.problemsWith id

end Treewalk
