import Treewalk.Source.Span

/-!
# Problems

What the static check finds: errors, which keep a program from running, and warnings, which do not.
-/

namespace Treewalk

set_option autoImplicit false

inductive StaticError where
  | returnOutsideFunction (location : Span) (line : Nat)
  | breakOutsideLoop (location : Span) (line : Nat)
deriving DecidableEq, Inhabited

namespace StaticError

def location : StaticError → Span
  | returnOutsideFunction location _ => location
  | breakOutsideLoop location _ => location

def line : StaticError → Nat
  | returnOutsideFunction _ line => line
  | breakOutsideLoop _ line => line

def message : StaticError → String
  | returnOutsideFunction _ _ => "Can't return from top-level code."
  | breakOutsideLoop _ _ => "Can't break outside of a loop."

def headline (error : StaticError) : String :=
  s!"[line {error.line}] Error: " ++ error.message

end StaticError

inductive Suspicion where
  | unusedVariable (name : String)
  | unreachableConsequent
  | unreachableAlternative
  | endlessLoop
  | unreachableBody
  | unreachableCode
deriving DecidableEq, Inhabited

namespace Suspicion

def title : Suspicion → String
  | unusedVariable name => "Unused variable '" ++ name ++ "'"
  | unreachableConsequent => "Unreachable if clause"
  | unreachableAlternative => "Unreachable else clause"
  | endlessLoop => "Infinite loop"
  | unreachableBody => "Unreachable while clause"
  | unreachableCode => "Unreachable code"

def label : Suspicion → Option String
  | unusedVariable _ => some "This value is never read"
  | endlessLoop => some "This loop never breaks or returns"
  | unreachableConsequent => none
  | unreachableAlternative => none
  | unreachableBody => none
  | unreachableCode => none

end Suspicion

structure Warning where
  suspicion : Suspicion
  location : Span
deriving DecidableEq, Inhabited

structure Problems where
  errors : List StaticError
  warnings : List Warning
deriving DecidableEq, Inhabited

namespace Problems

def none : Problems :=
  ⟨[], []⟩

def addError (error : StaticError) (problems : Problems) : Problems :=
  { problems with errors := problems.errors ++ [error] }

def addWarning (warning : Warning) (problems : Problems) : Problems :=
  { problems with warnings := problems.warnings ++ [warning] }

def sorted (problems : Problems) : Problems where
  errors := problems.errors.mergeSort fun left right =>
    left.location.start ≤ right.location.start
  warnings := problems.warnings.mergeSort fun left right =>
    left.location.start ≤ right.location.start

end Problems

end Treewalk
