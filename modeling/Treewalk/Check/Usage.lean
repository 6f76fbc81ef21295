import Treewalk.Program.Tree
import Treewalk.Check.Problem

/-!
# Usage of local variables

A local variable that is never read deserves a warning. Names are resolved in textual order: a read
counts for the latest declaration in the innermost open scope that declares the name. Variables of
the program itself are not followed, since a later line of a session may read them; parameters and
functions are not followed either. Assigning to a variable is no reading.

When a scope ends, its unread variables are listed in an order that `arrange` picks. Warnings are
sorted afterwards, so the choice does not show.
-/

namespace Treewalk

set_option autoImplicit false

structure Local where
  name : String
  location : Span
  used : Bool
deriving DecidableEq, Inhabited

namespace Local

def warning? (variableSeen : Local) : Option Warning :=
  if variableSeen.used then none
  else some ⟨.unusedVariable variableSeen.name, variableSeen.location⟩

end Local

structure Usage where
  scopes : List (List Local)
  found : List Warning
deriving DecidableEq, Inhabited

namespace Usage

def start : Usage :=
  ⟨[], []⟩

def openScope (usage : Usage) : Usage :=
  { usage with scopes := [] :: usage.scopes }

def closeScope (arrange : List Local → List Local) (usage : Usage) : Usage :=
  match usage.scopes with
  | [] => usage
  | inner :: outer => ⟨outer, usage.found ++ (arrange inner).filterMap Local.warning?⟩

/-- Declares a variable in the innermost scope. An earlier one of the same name in that scope is
replaced, and reported if it was not read. -/
def declare (name : String) (location : Span) (usage : Usage) : Usage :=
  match usage.scopes with
  | [] => usage
  | inner :: outer =>
      let replaced := inner.filter fun earlier => earlier.name = name
      let kept := inner.filter fun earlier => earlier.name ≠ name
      ⟨(kept ++ [⟨name, location, false⟩]) :: outer,
        usage.found ++ replaced.filterMap Local.warning?⟩

def markIn (name : String) : List (List Local) → List (List Local)
  | [] => []
  | inner :: outer =>
      if inner.any fun declared => declared.name = name then
        (inner.map fun declared =>
          if declared.name = name then { declared with used := true } else declared) :: outer
      else inner :: markIn name outer

def mark (usage : Usage) (name : String) : Usage :=
  { usage with scopes := markIn name usage.scopes }

end Usage

namespace Expr

mutual

def reads : Expr → List String
  | literal _ _ _ => []
  | grouping inner _ => inner.reads
  | unary _ operand => operand.reads
  | binary left _ right => left.reads ++ right.reads
  | logical left _ right => left.reads ++ right.reads
  | reference name => [name.lexeme]
  | assign _ value => value.reads
  | call callee _ arguments => callee.reads ++ argumentReads arguments

def argumentReads : List Expr → List String
  | [] => []
  | argument :: rest => argument.reads ++ argumentReads rest

end

end Expr

def Usage.readAll (usage : Usage) (expression : Expr) : Usage :=
  expression.reads.foldl Usage.mark usage

def Usage.warn (usage : Usage) (warnings : List Warning) : Usage :=
  { usage with found := usage.found ++ warnings }

end Treewalk
