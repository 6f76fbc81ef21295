import Treewalk.Scope

/-!
# Evaluation

Evaluation changes a machine: the heap of scopes, the scope that is current, the number of calls
that are active, and what has been printed. It is total by a budget, which every step passes on
with one unit less. Running out of budget, and an operator that has no meaning, are ends of their
own; neither is an error of the language.

Blocks and calls put back the current scope and the number of active calls on every way out.
-/

namespace Treewalk

set_option autoImplicit false

inductive RuntimeCause where
  | undefinedVariable (name : String)
  | operandMustBeNumber
  | operandsMustBeNumbers
  | invalidAddition
  | divisionByZero
  | notCallable
  | arityMismatch (expected got : Nat)
  | stackOverflow
deriving DecidableEq, Inhabited

namespace RuntimeCause

def message : RuntimeCause → String
  | undefinedVariable name => "Undefined variable '" ++ name ++ "'."
  | operandMustBeNumber => "Operand must be a number."
  | operandsMustBeNumbers => "Operands must be numbers."
  | invalidAddition => "Operands must be two numbers or two strings."
  | divisionByZero => "Division by 0 is not allowed."
  | notCallable => "Can't call non-callable object."
  | arityMismatch expected got => s!"Expected {expected} arguments but got {got}."
  | stackOverflow => "Stack overflow."

end RuntimeCause

structure RuntimeError where
  cause : RuntimeCause
  site : Token
deriving Inhabited

namespace RuntimeError

def headline (error : RuntimeError) : String :=
  s!"[line {error.site.line}] Error: " ++ error.cause.message

end RuntimeError

/-- What stays the same during a session: how many calls may be active at once, and what the clock
shows when it is read for the n-th time. -/
structure Config where
  maxCallDepth : Nat
  clock : Nat → Float

namespace Config

def defaultCallDepth : Nat := 1024

end Config

structure Machine where
  heap : Heap
  current : ScopeId
  callDepth : Nat
  nextIdentity : Nat
  clockReadings : Nat
  output : Array String
deriving Inhabited

namespace Machine

def initial : Machine where
  heap := Heap.initial.define Heap.global Native.clock.name (.callable ⟨0, .native .clock⟩)
  current := Heap.global
  callDepth := 0
  nextIdentity := 1
  clockReadings := 0
  output := #[]

def define (machine : Machine) (name : String) (value : Value) : Machine :=
  { machine with heap := machine.heap.define machine.current name value }

def enter (machine : Machine) (scope : ScopeId) : Machine :=
  { machine with current := scope }

def openScope (machine : Machine) (enclosing : ScopeId) : Machine :=
  { machine with heap := machine.heap.child enclosing }

def printLine (machine : Machine) (line : String) : Machine :=
  { machine with output := machine.output.push line }

def enterCall (machine : Machine) : Machine :=
  { machine with callDepth := machine.callDepth + 1 }

def leaveCall (machine : Machine) : Machine :=
  { machine with callDepth := machine.callDepth - 1 }

def bindParameters (machine : Machine) (scope : ScopeId) (bindings : List (Token × Value)) :
    Machine :=
  { machine with
    heap := bindings.foldl (fun heap binding => heap.define scope binding.1.lexeme binding.2)
      machine.heap }

end Machine

/-- How a step of evaluation ends. -/
inductive Outcome (α : Type) where
  | done (value : α) (machine : Machine)
  | raised (error : RuntimeError) (machine : Machine)
  | exhausted
  | stuck

namespace Outcome

@[inline]
def andThen {α β : Type} (outcome : Outcome α) (next : α → Machine → Outcome β) : Outcome β :=
  match outcome with
  | done value machine => next value machine
  | raised error machine => raised error machine
  | exhausted => exhausted
  | stuck => stuck

@[inline]
def onExit {α : Type} (outcome : Outcome α) (change : Machine → Machine) : Outcome α :=
  match outcome with
  | done value machine => done value (change machine)
  | raised error machine => raised error (change machine)
  | exhausted => exhausted
  | stuck => stuck

end Outcome

/-- How a statement ends when nothing is wrong: behind it, by leaving a loop, or by leaving a
function with a value. -/
inductive Flow where
  | normal
  | broke
  | returned (value : Value)
deriving Inhabited

inductive Applied where
  | value (value : Value)
  | error (cause : RuntimeCause)
  | meaningless
deriving Inhabited

namespace Applied

@[inline]
def outcome (applied : Applied) (site : Token) (machine : Machine) : Outcome Value :=
  match applied with
  | value result => .done result machine
  | error cause => .raised ⟨cause, site⟩ machine
  | meaningless => .stuck

end Applied

def applyUnary (operator : Kind) (operand : Value) : Applied :=
  match operator with
  | .bang => .value (.boolean !operand.isTruthy)
  | _ =>
      match operand with
      | .number value => .value (.number (-value))
      | _ => .error .operandMustBeNumber

/-- A sum of numbers, or two texts joined; a number next to a text is written out. -/
def applyPlus (left right : Value) : Applied :=
  match left, right with
  | .number a, .number b => .value (.number (a + b))
  | .string a, .string b => .value (.string (a ++ b))
  | .string a, .number b => .value (.string (a ++ Number.general b))
  | .number a, .string b => .value (.string (Number.general a ++ b))
  | _, _ => .error .invalidAddition

/-- Operators on two numbers. A quotient has to have operands other than zero. -/
def applyNumeric (operator : Kind) (left right : Float) : Applied :=
  match operator with
  | .minus => .value (.number (left - right))
  | .star => .value (.number (left * right))
  | .slash =>
      if left == 0.0 || right == 0.0 then .error .divisionByZero
      else .value (.number (left / right))
  | .greater => .value (.boolean (left > right))
  | .greaterEqual => .value (.boolean (left ≥ right))
  | .less => .value (.boolean (left < right))
  | .lessEqual => .value (.boolean (left ≤ right))
  | _ => .meaningless

def applyBinary (operator : Kind) (left right : Value) : Applied :=
  match operator with
  | .equalEqual => .value (.boolean (left.same right))
  | .bangEqual => .value (.boolean !(left.same right))
  | .plus => applyPlus left right
  | _ =>
      match left, right with
      | .number a, .number b => applyNumeric operator a b
      | _, _ => .error .operandsMustBeNumbers

def shortCircuits (operator : Kind) (left : Value) : Bool :=
  match operator with
  | .orWord => left.isTruthy
  | _ => !left.isTruthy

def readVariable (name : Token) (machine : Machine) : Outcome Value :=
  match machine.heap.get? machine.current name.lexeme with
  | some value => .done value machine
  | none => .raised ⟨.undefinedVariable name.lexeme, name⟩ machine

/-- Gives the nearest binding of a name another value; never creates a binding. -/
def writeVariable (name : Token) (value : Value) (machine : Machine) : Outcome Value :=
  match machine.heap.resolve machine.current name.lexeme with
  | some holder =>
      .done value { machine with heap := machine.heap.define holder name.lexeme value }
  | none => .raised ⟨.undefinedVariable name.lexeme, name⟩ machine

def declareFunction (declaration : FunctionDecl) (machine : Machine) : Machine :=
  let value := .callable ⟨machine.nextIdentity, .user declaration machine.current⟩
  { machine.define declaration.name.lexeme value with nextIdentity := machine.nextIdentity + 1 }

def callNative (config : Config) (function : Native) (machine : Machine) : Outcome Value :=
  match function with
  | .clock =>
      .done (.number (config.clock machine.clockReadings))
        { machine with clockReadings := machine.clockReadings + 1 }

mutual

def evaluate (config : Config) : Nat → Expr → Machine → Outcome Value
  | 0, _, _ => .exhausted
  | units + 1, expression, machine =>
      match expression with
      | .literal value _ _ => .done (.ofLiteral value) machine
      | .grouping inner _ => evaluate config units inner machine
      | .unary operator operand =>
          (evaluate config units operand machine).andThen fun value machine =>
            (applyUnary operator.kind value).outcome operator machine
      | .binary left operator right =>
          (evaluate config units left machine).andThen fun first machine =>
            (evaluate config units right machine).andThen fun second machine =>
              (applyBinary operator.kind first second).outcome operator machine
      | .logical left operator right =>
          (evaluate config units left machine).andThen fun first machine =>
            if shortCircuits operator.kind first then .done first machine
            else evaluate config units right machine
      | .reference name => readVariable name machine
      | .assign name value =>
          (evaluate config units value machine).andThen fun result machine =>
            writeVariable name result machine
      | .call callee paren arguments =>
          (evaluate config units callee machine).andThen fun function machine =>
            (evaluateAll config units arguments machine).andThen fun values machine =>
              call config units paren function values machine

def evaluateAll (config : Config) : Nat → List Expr → Machine → Outcome (List Value)
  | 0, _, _ => .exhausted
  | _ + 1, [], machine => .done [] machine
  | units + 1, first :: rest, machine =>
      (evaluate config units first machine).andThen fun value machine =>
        (evaluateAll config units rest machine).andThen fun values machine =>
          .done (value :: values) machine

/-- Calls a value: it has to be a function, the number of arguments has to be right, and fewer calls
than the limit may be active; the three are looked at in this order. -/
def call (config : Config) : Nat → Token → Value → List Value → Machine → Outcome Value
  | 0, _, _, _, _ => .exhausted
  | units + 1, paren, callee, arguments, machine =>
      match callee with
      | .callable callable =>
          if arguments.length ≠ callable.arity then
            .raised ⟨.arityMismatch callable.arity arguments.length, paren⟩ machine
          else if config.maxCallDepth ≤ machine.callDepth then
            .raised ⟨.stackOverflow, paren⟩ machine
          else
            (invoke config units callable arguments machine.enterCall).onExit Machine.leaveCall
      | _ => .raised ⟨.notCallable, paren⟩ machine

/-- Runs a function. The body runs in a new scope inside the closure, with the parameters bound;
without a `return` its value is nil. -/
def invoke (config : Config) : Nat → Callable → List Value → Machine → Outcome Value
  | 0, _, _, _ => .exhausted
  | units + 1, callable, arguments, machine =>
      match callable.code with
      | .native function => callNative config function machine
      | .user declaration closure =>
          let scope := machine.heap.next
          let machine := machine.openScope closure
          let machine := machine.bindParameters scope (declaration.parameters.zip arguments)
          (executeIn config units declaration.body scope machine).andThen fun flow machine =>
            match flow with
            | .returned value => .done value machine
            | .normal => .done .nil machine
            | .broke => .done .nil machine

def execute (config : Config) : Nat → Stmt → Machine → Outcome Flow
  | 0, _, _ => .exhausted
  | units + 1, statement, machine =>
      match statement with
      | .expression value =>
          (evaluate config units value machine).andThen fun _ machine => .done .normal machine
      | .print _ value =>
          (evaluate config units value machine).andThen fun result machine =>
            .done .normal (machine.printLine result.printed)
      | .declare name none => .done .normal (machine.define name.lexeme .nil)
      | .declare name (some initial) =>
          (evaluate config units initial machine).andThen fun value machine =>
            .done .normal (machine.define name.lexeme value)
      | .block body _ =>
          let scope := machine.heap.next
          executeIn config units body scope (machine.openScope machine.current)
      | .ifThen _ condition consequent =>
          (evaluate config units condition machine).andThen fun value machine =>
            if value.isTruthy then execute config units consequent machine
            else .done .normal machine
      | .ifElse _ condition consequent alternative =>
          (evaluate config units condition machine).andThen fun value machine =>
            if value.isTruthy then execute config units consequent machine
            else execute config units alternative machine
      | .loop _ condition body => iterate config units condition body machine
      | .function name parameters body =>
          .done .normal (declareFunction ⟨name, parameters, body⟩ machine)
      | .returnValue _ none => .done (.returned .nil) machine
      | .returnValue _ (some value) =>
          (evaluate config units value machine).andThen fun result machine =>
            .done (.returned result) machine
      | .breakLoop _ => .done .broke machine

/-- Runs a loop: the condition, then the body, and again. -/
def iterate (config : Config) : Nat → Expr → Stmt → Machine → Outcome Flow
  | 0, _, _, _ => .exhausted
  | units + 1, condition, body, machine =>
      (evaluate config units condition machine).andThen fun value machine =>
        if value.isTruthy then
          (execute config units body machine).andThen fun flow machine =>
            match flow with
            | .normal => iterate config units condition body machine
            | .broke => .done .normal machine
            | .returned result => .done (.returned result) machine
        else .done .normal machine

/-- Executes statements in a scope, and makes the scope that was current before current again. -/
def executeIn (config : Config) : Nat → List Stmt → ScopeId → Machine → Outcome Flow
  | 0, _, _, _ => .exhausted
  | units + 1, body, scope, machine =>
      let previous := machine.current
      (executeAll config units body (machine.enter scope)).onExit fun machine =>
        machine.enter previous

/-- Executes statements in order, up to the first that does not end normally. -/
def executeAll (config : Config) : Nat → List Stmt → Machine → Outcome Flow
  | 0, _, _ => .exhausted
  | _ + 1, [], machine => .done .normal machine
  | units + 1, first :: rest, machine =>
      (execute config units first machine).andThen fun flow machine =>
        match flow with
        | .normal => executeAll config units rest machine
        | .broke => .done .broke machine
        | .returned value => .done (.returned value) machine

end

/-- Runs the statements of a program. The result is the value of the last statement, if that is an
expression and was reached. -/
def interpret (config : Config) (units : Nat) : Program → Machine → Outcome (Option Value)
  | [], machine => .done none machine
  | [.expression value], machine =>
      (evaluate config units value machine).andThen fun result machine =>
        .done (some result) machine
  | .expression value :: rest, machine =>
      (evaluate config units value machine).andThen fun _ machine =>
        interpret config units rest machine
  | statement :: rest, machine =>
      (execute config units statement machine).andThen fun flow machine =>
        match flow with
        | .normal => interpret config units rest machine
        | .broke => .done none machine
        | .returned _ => .done none machine

end Treewalk
