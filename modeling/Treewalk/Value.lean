import Treewalk.Program.Tree
import Treewalk.Text.Quoted

/-!
# Values

What expressions evaluate to. A function value keeps its declaration and the scope in which it was
declared, by the index of that scope in the heap (`Treewalk.Scope`). Every function value has an
identity of its own, and two functions are equal only if they are the same one.
-/

namespace Treewalk

set_option autoImplicit false

abbrev ScopeId := Nat

structure FunctionDecl where
  name : Token
  parameters : List Token
  body : List Stmt
deriving Inhabited

inductive Native where
  | clock
deriving DecidableEq, Inhabited

namespace Native

def name : Native → String
  | clock => "clock"

def arity : Native → Nat
  | clock => 0

end Native

inductive Code where
  | native (function : Native)
  | user (declaration : FunctionDecl) (closure : ScopeId)
deriving Inhabited

structure Callable where
  identity : Nat
  code : Code
deriving Inhabited

namespace Callable

def arity (callable : Callable) : Nat :=
  match callable.code with
  | .native function => function.arity
  | .user declaration _ => declaration.parameters.length

def text (callable : Callable) : String :=
  match callable.code with
  | .native _ => "<native fn>"
  | .user declaration _ => "<fn " ++ declaration.name.lexeme ++ ">"

def inspect (callable : Callable) : String :=
  match callable.code with
  | .native function =>
      "NativeFunction \x7b name: " ++ Text.quoted function.name ++ ", arity: "
        ++ toString function.arity ++ " \x7d"
  | .user declaration _ =>
      "LoxFunction \x7b name: " ++ Text.quoted declaration.name.lexeme ++ ", arity: "
        ++ toString declaration.parameters.length ++ ", .. \x7d"

end Callable

inductive Value where
  | nil
  | boolean (value : Bool)
  | number (value : Float)
  | string (value : String)
  | callable (value : Callable)
deriving Inhabited

namespace Value

def ofLiteral : Literal → Value
  | .nil => nil
  | .boolean value => boolean value
  | .number value => number value
  | .string value => string value

def isTruthy : Value → Bool
  | nil => false
  | boolean value => value
  | _ => true

/-- Equality of the language: values of different types differ, numbers compare as numbers, and
functions by identity. -/
def same : Value → Value → Bool
  | nil, nil => true
  | boolean left, boolean right => left == right
  | number left, number right => left == right
  | string left, string right => left == right
  | callable left, callable right => left.identity == right.identity
  | _, _ => false

def text : Value → String
  | nil => "nil"
  | boolean true => "true"
  | boolean false => "false"
  | number value => Number.general value
  | string value => value
  | callable value => value.text

def printed : Value → String
  | number value => Number.printed value
  | value => value.text

end Value

end Treewalk
