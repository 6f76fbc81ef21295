import Mathlib.Logic.Relation
import Treewalk.Evaluation

/-!
# Runs inside of runs

Evaluation is recursive: one run of a part of the evaluator starts others. `Starts` lists, one case
for each call in the evaluator, which run starts which, with the machine that it finds; a run that
comes behind another starts only if that one is done. What happens in the middle of evaluation is
what happens in the runs that are reached from one of the program's own statements.
-/

namespace Treewalk

set_option autoImplicit false

inductive Task where
  | evaluate (expression : Expr)
  | evaluateAll (expressions : List Expr)
  | call (paren : Token) (callee : Value) (values : List Value)
  | invoke (callable : Callable) (values : List Value)
  | execute (statement : Stmt)
  | iterate (condition : Expr) (body : Stmt)
  | executeIn (body : List Stmt) (scope : ScopeId)
  | executeAll (body : List Stmt)

structure Run where
  units : Nat
  task : Task
  machine : Machine

/-- The machine on which the body of a function begins: a new scope inside the closure, with the
parameters bound. -/
def Machine.prepared (machine : Machine) (declaration : FunctionDecl) (closure : ScopeId)
    (values : List Value) : Machine :=
  (machine.openScope closure).bindParameters machine.heap.next (declaration.parameters.zip values)

inductive Starts (config : Config) : Run → Run → Prop where
  | grouping {units : Nat} {machine : Machine} {inner : Expr} {location : Span} :
      Starts config ⟨units + 1, .evaluate (.grouping inner location), machine⟩
        ⟨units, .evaluate inner, machine⟩
  | operand {units : Nat} {machine : Machine} {operator : Token} {operand : Expr} :
      Starts config ⟨units + 1, .evaluate (.unary operator operand), machine⟩
        ⟨units, .evaluate operand, machine⟩
  | binaryLeft {units : Nat} {machine : Machine} {left right : Expr} {operator : Token} :
      Starts config ⟨units + 1, .evaluate (.binary left operator right), machine⟩
        ⟨units, .evaluate left, machine⟩
  | binaryRight {units : Nat} {machine between : Machine} {left right : Expr} {operator : Token}
      {first : Value} (done : evaluate config units left machine = .done first between) :
      Starts config ⟨units + 1, .evaluate (.binary left operator right), machine⟩
        ⟨units, .evaluate right, between⟩
  | logicalLeft {units : Nat} {machine : Machine} {left right : Expr} {operator : Token} :
      Starts config ⟨units + 1, .evaluate (.logical left operator right), machine⟩
        ⟨units, .evaluate left, machine⟩
  | logicalRight {units : Nat} {machine between : Machine} {left right : Expr} {operator : Token}
      {first : Value} (done : evaluate config units left machine = .done first between)
      (open_ : shortCircuits operator.kind first = false) :
      Starts config ⟨units + 1, .evaluate (.logical left operator right), machine⟩
        ⟨units, .evaluate right, between⟩
  | assigned {units : Nat} {machine : Machine} {name : Token} {value : Expr} :
      Starts config ⟨units + 1, .evaluate (.assign name value), machine⟩
        ⟨units, .evaluate value, machine⟩
  | callee {units : Nat} {machine : Machine} {callee : Expr} {paren : Token}
      {arguments : List Expr} :
      Starts config ⟨units + 1, .evaluate (.call callee paren arguments), machine⟩
        ⟨units, .evaluate callee, machine⟩
  | arguments {units : Nat} {machine between : Machine} {callee : Expr} {paren : Token}
      {arguments : List Expr} {function : Value}
      (done : evaluate config units callee machine = .done function between) :
      Starts config ⟨units + 1, .evaluate (.call callee paren arguments), machine⟩
        ⟨units, .evaluateAll arguments, between⟩
  | call {units : Nat} {machine between after : Machine} {callee : Expr} {paren : Token}
      {arguments : List Expr} {function : Value} {values : List Value}
      (done : evaluate config units callee machine = .done function between)
      (passed : evaluateAll config units arguments between = .done values after) :
      Starts config ⟨units + 1, .evaluate (.call callee paren arguments), machine⟩
        ⟨units, .call paren function values, after⟩
  | firstArgument {units : Nat} {machine : Machine} {first : Expr} {rest : List Expr} :
      Starts config ⟨units + 1, .evaluateAll (first :: rest), machine⟩
        ⟨units, .evaluate first, machine⟩
  | restArguments {units : Nat} {machine between : Machine} {first : Expr} {rest : List Expr}
      {value : Value} (done : evaluate config units first machine = .done value between) :
      Starts config ⟨units + 1, .evaluateAll (first :: rest), machine⟩
        ⟨units, .evaluateAll rest, between⟩
  | invoke {units : Nat} {machine : Machine} {paren : Token} {callable : Callable}
      {values : List Value} (fits : values.length = callable.arity)
      (allowed : machine.callDepth < config.maxCallDepth) :
      Starts config ⟨units + 1, .call paren (.callable callable) values, machine⟩
        ⟨units, .invoke callable values, machine.enterCall⟩
  | body {units : Nat} {machine : Machine} {callable : Callable} {declaration : FunctionDecl}
      {closure : ScopeId} {values : List Value} (code : callable.code = .user declaration closure) :
      Starts config ⟨units + 1, .invoke callable values, machine⟩
        ⟨units, .executeIn declaration.body machine.heap.next,
          machine.prepared declaration closure values⟩
  | expression {units : Nat} {machine : Machine} {value : Expr} :
      Starts config ⟨units + 1, .execute (.expression value), machine⟩
        ⟨units, .evaluate value, machine⟩
  | printed {units : Nat} {machine : Machine} {keyword : Token} {value : Expr} :
      Starts config ⟨units + 1, .execute (.print keyword value), machine⟩
        ⟨units, .evaluate value, machine⟩
  | initial {units : Nat} {machine : Machine} {name : Token} {initial : Expr} :
      Starts config ⟨units + 1, .execute (.declare name (some initial)), machine⟩
        ⟨units, .evaluate initial, machine⟩
  | block {units : Nat} {machine : Machine} {body : List Stmt} {location : Span} :
      Starts config ⟨units + 1, .execute (.block body location), machine⟩
        ⟨units, .executeIn body machine.heap.next, machine.openScope machine.current⟩
  | ifThenCondition {units : Nat} {machine : Machine} {keyword : Token} {condition : Expr}
      {consequent : Stmt} :
      Starts config ⟨units + 1, .execute (.ifThen keyword condition consequent), machine⟩
        ⟨units, .evaluate condition, machine⟩
  | ifThenConsequent {units : Nat} {machine between : Machine} {keyword : Token}
      {condition : Expr} {consequent : Stmt} {value : Value}
      (done : evaluate config units condition machine = .done value between)
      (holds : value.isTruthy = true) :
      Starts config ⟨units + 1, .execute (.ifThen keyword condition consequent), machine⟩
        ⟨units, .execute consequent, between⟩
  | ifElseCondition {units : Nat} {machine : Machine} {keyword : Token} {condition : Expr}
      {consequent alternative : Stmt} :
      Starts config ⟨units + 1, .execute (.ifElse keyword condition consequent alternative),
        machine⟩
        ⟨units, .evaluate condition, machine⟩
  | ifElseConsequent {units : Nat} {machine between : Machine} {keyword : Token}
      {condition : Expr} {consequent alternative : Stmt} {value : Value}
      (done : evaluate config units condition machine = .done value between)
      (holds : value.isTruthy = true) :
      Starts config ⟨units + 1, .execute (.ifElse keyword condition consequent alternative),
        machine⟩
        ⟨units, .execute consequent, between⟩
  | ifElseAlternative {units : Nat} {machine between : Machine} {keyword : Token}
      {condition : Expr} {consequent alternative : Stmt} {value : Value}
      (done : evaluate config units condition machine = .done value between)
      (fails : value.isTruthy = false) :
      Starts config ⟨units + 1, .execute (.ifElse keyword condition consequent alternative),
        machine⟩
        ⟨units, .execute alternative, between⟩
  | loop {units : Nat} {machine : Machine} {keyword : Token} {condition : Expr} {body : Stmt} :
      Starts config ⟨units + 1, .execute (.loop keyword condition body), machine⟩
        ⟨units, .iterate condition body, machine⟩
  | result {units : Nat} {machine : Machine} {keyword : Token} {value : Expr} :
      Starts config ⟨units + 1, .execute (.returnValue keyword (some value)), machine⟩
        ⟨units, .evaluate value, machine⟩
  | condition {units : Nat} {machine : Machine} {condition : Expr} {body : Stmt} :
      Starts config ⟨units + 1, .iterate condition body, machine⟩
        ⟨units, .evaluate condition, machine⟩
  | round {units : Nat} {machine between : Machine} {condition : Expr} {body : Stmt}
      {value : Value} (done : evaluate config units condition machine = .done value between)
      (holds : value.isTruthy = true) :
      Starts config ⟨units + 1, .iterate condition body, machine⟩ ⟨units, .execute body, between⟩
  | again {units : Nat} {machine between after : Machine} {condition : Expr} {body : Stmt}
      {value : Value} (done : evaluate config units condition machine = .done value between)
      (holds : value.isTruthy = true)
      (ran : execute config units body between = .done .normal after) :
      Starts config ⟨units + 1, .iterate condition body, machine⟩
        ⟨units, .iterate condition body, after⟩
  | inScope {units : Nat} {machine : Machine} {body : List Stmt} {scope : ScopeId} :
      Starts config ⟨units + 1, .executeIn body scope, machine⟩
        ⟨units, .executeAll body, machine.enter scope⟩
  | firstStatement {units : Nat} {machine : Machine} {first : Stmt} {rest : List Stmt} :
      Starts config ⟨units + 1, .executeAll (first :: rest), machine⟩
        ⟨units, .execute first, machine⟩
  | restStatements {units : Nat} {machine between : Machine} {first : Stmt} {rest : List Stmt}
      (done : execute config units first machine = .done .normal between) :
      Starts config ⟨units + 1, .executeAll (first :: rest), machine⟩
        ⟨units, .executeAll rest, between⟩

/-- The runs that `interpret` itself starts, one for each statement of the program that is
reached. -/
inductive Begins (config : Config) (units : Nat) : Program → Machine → Run → Prop where
  | expression {value : Expr} {rest : Program} {machine : Machine} :
      Begins config units (.expression value :: rest) machine ⟨units, .evaluate value, machine⟩
  | statement {first : Stmt} {rest : Program} {machine : Machine}
      (other : ∀ value, first ≠ .expression value) :
      Begins config units (first :: rest) machine ⟨units, .execute first, machine⟩
  | behindExpression {value : Expr} {rest : Program} {machine between : Machine} {result : Value}
      {run : Run} (done : evaluate config units value machine = .done result between)
      (later : Begins config units rest between run) :
      Begins config units (.expression value :: rest) machine run
  | behindStatement {first : Stmt} {rest : Program} {machine between : Machine} {run : Run}
      (other : ∀ value, first ≠ .expression value)
      (done : execute config units first machine = .done .normal between)
      (later : Begins config units rest between run) :
      Begins config units (first :: rest) machine run

/-- The run happens at some time while `interpret` runs a program. -/
def Happens (config : Config) (units : Nat) (program : Program) (machine : Machine)
    (run : Run) : Prop :=
  ∃ top, Begins config units program machine top ∧ Relation.ReflTransGen (Starts config) top run

/-- Every statement of a program has been run in order, and none has left it early. Only an
expression at the end has a value to show. -/
inductive Completes (config : Config) (units : Nat) :
    Program → Machine → Option Value → Machine → Prop where
  | empty {machine : Machine} : Completes config units [] machine none machine
  | trailing {value : Expr} {machine after : Machine} {result : Value}
      (done : evaluate config units value machine = .done result after) :
      Completes config units [.expression value] machine (some result) after
  | expression {value : Expr} {rest : Program} {machine between after : Machine} {result : Value}
      {shown : Option Value} (inside : rest ≠ [])
      (done : evaluate config units value machine = .done result between)
      (later : Completes config units rest between shown after) :
      Completes config units (.expression value :: rest) machine shown after
  | statement {first : Stmt} {rest : Program} {machine between after : Machine}
      {shown : Option Value} (other : ∀ value, first ≠ .expression value)
      (done : execute config units first machine = .done .normal between)
      (later : Completes config units rest between shown after) :
      Completes config units (first :: rest) machine shown after

/-- Induction over the statements of a program as `interpret` takes them. -/
theorem program_induction {motive : Program → Prop} (empty : motive [])
    (trailing : ∀ value, motive [.expression value])
    (expression : ∀ value rest, rest ≠ [] → motive rest → motive (.expression value :: rest))
    (statement : ∀ first rest, (∀ value, first ≠ .expression value) → motive rest →
      motive (first :: rest)) (program : Program) : motive program := by
  induction program with
  | nil => exact empty
  | cons first rest ih =>
      by_cases isExpression : ∃ value, first = .expression value
      · obtain ⟨value, rfl⟩ := isExpression
        cases rest with
        | nil => exact trailing value
        | cons second rest => exact expression value (second :: rest) (by simp) ih
      · exact statement first rest (fun value same => isExpression ⟨value, same⟩) ih

section Interpret

variable (config : Config) (units : Nat) (machine : Machine)

theorem interpret_expression (value : Expr) {rest : Program} (inside : rest ≠ []) :
    interpret config units (.expression value :: rest) machine =
      (evaluate config units value machine).andThen fun _ between =>
        interpret config units rest between := by
  cases rest with
  | nil => exact absurd rfl inside
  | cons second rest => rfl

theorem interpret_statement {first : Stmt} (rest : Program)
    (other : ∀ value, first ≠ .expression value) :
    interpret config units (first :: rest) machine =
      (execute config units first machine).andThen fun flow between =>
        match flow with
        | .normal => interpret config units rest between
        | .broke => .done none between
        | .returned _ => .done none between := by
  cases first with
  | expression value => exact absurd rfl (other value)
  | _ => rfl

end Interpret

end Treewalk
