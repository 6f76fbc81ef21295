import Treewalk.Program.Tree
import Treewalk.Check.Problem

/-!
# Exits

A `return` needs a function around it, a `break` needs a loop around it inside the same function.
Three questions about statements decide which code is dead: does it always leave, can it leave the
loop around it, does it hold a `return`. All three stop at function declarations, whose bodies run
elsewhere.
-/

namespace Treewalk

set_option autoImplicit false

structure Context where
  inFunction : Bool
  inLoop : Bool
deriving DecidableEq, Inhabited

namespace Context

def top : Context :=
  ⟨false, false⟩

def body : Context :=
  ⟨true, false⟩

def loop (context : Context) : Context :=
  { context with inLoop := true }

end Context

namespace Stmt

mutual

def strayExits (context : Context) : Stmt → List StaticError
  | expression _ => []
  | print _ _ => []
  | declare _ _ => []
  | block body _ => strayExitsIn context body
  | ifThen _ _ consequent => consequent.strayExits context
  | ifElse _ _ consequent alternative =>
      consequent.strayExits context ++ alternative.strayExits context
  | loop _ _ body => body.strayExits context.loop
  | function _ _ body => strayExitsIn Context.body body
  | returnValue keyword value =>
      if context.inFunction then []
      else [.returnOutsideFunction (returnValue keyword value).location keyword.line]
  | breakLoop keyword =>
      if context.inLoop then [] else [.breakOutsideLoop keyword.span keyword.line]

def strayExitsIn (context : Context) : List Stmt → List StaticError
  | [] => []
  | first :: rest => first.strayExits context ++ strayExitsIn context rest

end

mutual

def alwaysExits : Stmt → Bool
  | returnValue _ _ => true
  | breakLoop _ => true
  | block body _ => anyAlwaysExits body
  | ifElse _ _ consequent alternative => consequent.alwaysExits && alternative.alwaysExits
  | _ => false

def anyAlwaysExits : List Stmt → Bool
  | [] => false
  | first :: rest => first.alwaysExits || anyAlwaysExits rest

end

mutual

def containsReturn : Stmt → Bool
  | returnValue _ _ => true
  | block body _ => anyContainsReturn body
  | ifThen _ _ consequent => consequent.containsReturn
  | ifElse _ _ consequent alternative => consequent.containsReturn || alternative.containsReturn
  | loop _ _ body => body.containsReturn
  | _ => false

def anyContainsReturn : List Stmt → Bool
  | [] => false
  | first :: rest => first.containsReturn || anyContainsReturn rest

end

mutual

/-- Whether the statement, as the body of a loop, holds an exit from that loop. A loop inside keeps
its own `break`. -/
def canLeaveLoop : Stmt → Bool
  | returnValue _ _ => true
  | breakLoop _ => true
  | block body _ => anyCanLeaveLoop body
  | ifThen _ _ consequent => consequent.canLeaveLoop
  | ifElse _ _ consequent alternative => consequent.canLeaveLoop || alternative.canLeaveLoop
  | loop _ _ body => body.containsReturn
  | _ => false

def anyCanLeaveLoop : List Stmt → Bool
  | [] => false
  | first :: rest => first.canLeaveLoop || anyCanLeaveLoop rest

end

def sequenceLocation : Stmt → List Stmt → Span
  | first, rest => first.location.hull ((rest.getLast?.getD first).location)

def unreachableRest : List Stmt → List Warning
  | [] => []
  | first :: rest => [⟨.unreachableCode, sequenceLocation first rest⟩]

def consequentWarning (condition : Expr) (consequent : Stmt) : List Warning :=
  if condition.constant? = some false then [⟨.unreachableConsequent, consequent.location⟩] else []

def alternativeWarning (condition : Expr) (alternative : Stmt) : List Warning :=
  if condition.constant? = some true then [⟨.unreachableAlternative, alternative.location⟩] else []

def loopWarning (keyword : Token) (condition : Expr) (body : Stmt) : List Warning :=
  match condition.constant? with
  | some true =>
      if body.canLeaveLoop then []
      else [⟨.endlessLoop, keyword.span.hull condition.location⟩]
  | some false => [⟨.unreachableBody, body.location⟩]
  | none => []

end Stmt

end Treewalk
