import Treewalk.Proofs.Evaluation.Run

/-!
# What a run declares and reads, in order

The events of a run in the order in which they happen: variables that are declared, functions that
take a name, and variables that are read, each with the scope of the binding. The trace follows the
evaluator call by call, and the trace of a run stands in the trace of the run that starts it. From
the events up to some time one can tell which declaration a binding comes from at that time;
assigning to a variable changes its value and not where it comes from.
-/

namespace Treewalk

set_option autoImplicit false

inductive Event where
  | declared (scope : ScopeId) (name : Token)
  | taken (scope : ScopeId) (name : String)
  | read (scope : ScopeId) (name : Token)

/-- For one name, the declaration of a variable that its binding in each scope comes from.
Parameters come from no such declaration, nor do functions. -/
abbrev Origins := ScopeId → Option Token

namespace Origins

def none : Origins :=
  fun _ => .none

def set (origins : Origins) (scope : ScopeId) (origin : Option Token) : Origins :=
  fun other => if other = scope then origin else origins other

/-- The origins of the bindings of a name after an event. -/
def next (name : String) (origins : Origins) : Event → Origins
  | .declared scope token => if token.lexeme = name then origins.set scope (some token) else origins
  | .taken scope other => if other = name then origins.set scope .none else origins
  | .read _ _ => origins

def after (name : String) (origins : Origins) (events : List Event) : Origins :=
  events.foldl (next name) origins

theorem after_append (name : String) (origins : Origins) (events more : List Event) :
    origins.after name (events ++ more) = (origins.after name events).after name more :=
  List.foldl_append

theorem lexeme_of_after {name : String} {origins : Origins} {events : List Event} {scope : ScopeId}
    {token : Token} (known : ∀ scope token, origins scope = some token → token.lexeme = name)
    (origin : origins.after name events scope = some token) : token.lexeme = name := by
  induction events generalizing origins with
  | nil => exact known scope token origin
  | cons event events ih =>
      apply ih _ origin
      intro other found isOrigin
      cases event with
      | declared holder declared =>
          simp only [next] at isOrigin
          split at isOrigin
          · rename_i same
            unfold set at isOrigin
            split at isOrigin
            · cases isOrigin
              exact same
            · exact known other found isOrigin
          · exact known other found isOrigin
      | taken holder taken =>
          simp only [next] at isOrigin
          split at isOrigin
          · unfold set at isOrigin
            split at isOrigin
            · cases isOrigin
            · exact known other found isOrigin
          · exact known other found isOrigin
      | read holder token => exact known other found isOrigin

end Origins

/-- The declaration that the binding of a name in a scope comes from after these events. -/
def origin (events : List Event) (scope : ScopeId) (name : String) : Option Token :=
  Origins.none.after name events scope

theorem lexeme_of_origin {events : List Event} {scope : ScopeId} {name : String} {token : Token}
    (found : origin events scope name = some token) : token.lexeme = name := by
  apply Origins.lexeme_of_after _ found
  intro other declared impossible
  cases impossible

def Event.reading? : Event → Option (ScopeId × Token)
  | .declared _ _ => none
  | .taken _ _ => none
  | .read scope name => some (scope, name)

theorem Event.eq_read {event : Event} {found : ScopeId × Token}
    (reads : event.reading? = some found) : event = .read found.1 found.2 := by
  cases event with
  | declared scope name => cases reads
  | taken scope name => cases reads
  | read scope name =>
      cases reads
      rfl

def Outcome.events {α : Type} (outcome : Outcome α) (later : α → Machine → List Event) :
    List Event :=
  match outcome with
  | done value machine => later value machine
  | _ => []

def trace (config : Config) : Nat → Task → Machine → List Event
  | 0, _, _ => []
  | units + 1, task, machine =>
      match task with
      | .evaluate expression =>
          match expression with
          | .literal _ _ _ => []
          | .grouping inner _ => trace config units (.evaluate inner) machine
          | .unary _ operand => trace config units (.evaluate operand) machine
          | .binary left _ right =>
              trace config units (.evaluate left) machine ++
                (evaluate config units left machine).events fun _ between =>
                  trace config units (.evaluate right) between
          | .logical left operator right =>
              trace config units (.evaluate left) machine ++
                (evaluate config units left machine).events fun first between =>
                  if shortCircuits operator.kind first then []
                  else trace config units (.evaluate right) between
          | .reference name =>
              match machine.heap.resolve machine.current name.lexeme with
              | some holder => [.read holder name]
              | none => []
          | .assign _ value => trace config units (.evaluate value) machine
          | .call callee paren arguments =>
              trace config units (.evaluate callee) machine ++
                (evaluate config units callee machine).events fun function between =>
                  trace config units (.evaluateAll arguments) between ++
                    (evaluateAll config units arguments between).events fun values after =>
                      trace config units (.call paren function values) after
      | .evaluateAll [] => []
      | .evaluateAll (first :: rest) =>
          trace config units (.evaluate first) machine ++
            (evaluate config units first machine).events fun _ between =>
              trace config units (.evaluateAll rest) between
      | .call _ callee values =>
          match callee with
          | .callable callable =>
              if values.length ≠ callable.arity then []
              else if config.maxCallDepth ≤ machine.callDepth then []
              else trace config units (.invoke callable values) machine.enterCall
          | _ => []
      | .invoke callable values =>
          match callable.code with
          | .native _ => []
          | .user declaration closure =>
              trace config units (.executeIn declaration.body machine.heap.next)
                (machine.prepared declaration closure values)
      | .execute statement =>
          match statement with
          | .expression value => trace config units (.evaluate value) machine
          | .print _ value => trace config units (.evaluate value) machine
          | .declare name none => [.declared machine.current name]
          | .declare name (some initial) =>
              trace config units (.evaluate initial) machine ++
                (evaluate config units initial machine).events fun _ after =>
                  [.declared after.current name]
          | .block body _ =>
              trace config units (.executeIn body machine.heap.next)
                (machine.openScope machine.current)
          | .ifThen _ condition consequent =>
              trace config units (.evaluate condition) machine ++
                (evaluate config units condition machine).events fun value between =>
                  if value.isTruthy then trace config units (.execute consequent) between else []
          | .ifElse _ condition consequent alternative =>
              trace config units (.evaluate condition) machine ++
                (evaluate config units condition machine).events fun value between =>
                  if value.isTruthy then trace config units (.execute consequent) between
                  else trace config units (.execute alternative) between
          | .loop _ condition body => trace config units (.iterate condition body) machine
          | .function name _ _ => [.taken machine.current name.lexeme]
          | .returnValue _ none => []
          | .returnValue _ (some value) => trace config units (.evaluate value) machine
          | .breakLoop _ => []
      | .iterate condition body =>
          trace config units (.evaluate condition) machine ++
            (evaluate config units condition machine).events fun value between =>
              if value.isTruthy then
                trace config units (.execute body) between ++
                  (execute config units body between).events fun flow after =>
                    match flow with
                    | .normal => trace config units (.iterate condition body) after
                    | _ => []
              else []
      | .executeIn body scope => trace config units (.executeAll body) (machine.enter scope)
      | .executeAll [] => []
      | .executeAll (first :: rest) =>
          trace config units (.execute first) machine ++
            (execute config units first machine).events fun flow between =>
              match flow with
              | .normal => trace config units (.executeAll rest) between
              | _ => []

def Program.trace (config : Config) (units : Nat) : Program → Machine → List Event
  | [], _ => []
  | .expression value :: rest, machine =>
      Treewalk.trace config units (.evaluate value) machine ++
        (evaluate config units value machine).events fun _ between =>
          Program.trace config units rest between
  | statement :: rest, machine =>
      Treewalk.trace config units (.execute statement) machine ++
        (execute config units statement machine).events fun flow between =>
          match flow with
          | .normal => Program.trace config units rest between
          | _ => []

def Run.trace (config : Config) (run : Run) : List Event :=
  Treewalk.trace config run.units run.task run.machine

section Inside

variable {config : Config} {units : Nat}

theorem program_trace_statement {first : Stmt} (rest : Program) (machine : Machine)
    (other : ∀ value, first ≠ .expression value) :
    Program.trace config units (first :: rest) machine =
      trace config units (.execute first) machine ++
        (execute config units first machine).events fun flow between =>
          match flow with
          | .normal => Program.trace config units rest between
          | _ => [] := by
  cases first with
  | expression value => exact absurd rfl (other value)
  | _ => rfl

/-- A declaration that is done has bound its name in the current scope, last of all. -/
theorem declared_of_done {token : Token} {initial : Option Expr} {flow : Flow}
    {machine after : Machine}
    (done : execute config units (.declare token initial) machine = .done flow after) :
    ∃ (value : Value) (between : Machine) (past : List Event),
      after = between.define token.lexeme value ∧
      trace config units (.execute (.declare token initial)) machine =
        past ++ [.declared after.current token] := by
  cases units with
  | zero => cases done
  | succ units =>
      cases initial with
      | none =>
          cases done
          exact ⟨_, machine, [], rfl, rfl⟩
      | some initial =>
          simp only [execute, trace] at done ⊢
          cases ran : evaluate config units initial machine with
          | done value between =>
              rw [ran] at done
              cases done
              exact ⟨value, between, _, rfl, rfl⟩
          | raised error between =>
              rw [ran] at done
              cases done
          | exhausted =>
              rw [ran] at done
              cases done
          | stuck =>
              rw [ran] at done
              cases done

theorem infix_of_done {α : Type} {outcome : Outcome α} {value : α} {machine : Machine}
    {inner events : List Event} {later : α → Machine → List Event}
    (done : outcome = .done value machine) (inside : inner <:+: later value machine) :
    inner <:+: events ++ outcome.events later := by
  rw [done]
  exact inside.trans (List.suffix_append _ _).isInfix

theorem infix_of_first {inner more : List Event} : inner <:+: inner ++ more :=
  (List.prefix_append _ _).isInfix

theorem trace_of_starts {outer inner : Run} (starts : Starts config outer inner) :
    inner.trace config <:+: outer.trace config := by
  cases starts with
  | grouping => exact List.infix_rfl
  | operand => exact List.infix_rfl
  | binaryLeft => exact infix_of_first
  | binaryRight done => exact infix_of_done done List.infix_rfl
  | logicalLeft => exact infix_of_first
  | logicalRight done open_ =>
      apply infix_of_done done
      rw [open_]
      exact List.infix_rfl
  | assigned => exact List.infix_rfl
  | callee => exact infix_of_first
  | arguments done => exact infix_of_done done infix_of_first
  | call done passed => exact infix_of_done done (infix_of_done passed List.infix_rfl)
  | firstArgument => exact infix_of_first
  | restArguments done => exact infix_of_done done List.infix_rfl
  | invoke fits allowed =>
      simp only [Run.trace, trace, fits, ne_eq, not_true_eq_false, if_false,
        if_neg (Nat.not_le.mpr allowed)]
      exact List.infix_rfl
  | body code =>
      simp only [Run.trace, trace, code]
      exact List.infix_rfl
  | expression => exact List.infix_rfl
  | printed => exact List.infix_rfl
  | initial => exact infix_of_first
  | block => exact List.infix_rfl
  | ifThenCondition => exact infix_of_first
  | ifThenConsequent done holds =>
      apply infix_of_done done
      rw [if_pos holds]
      exact List.infix_rfl
  | ifElseCondition => exact infix_of_first
  | ifElseConsequent done holds =>
      apply infix_of_done done
      rw [if_pos holds]
      exact List.infix_rfl
  | ifElseAlternative done fails =>
      apply infix_of_done done
      rw [fails]
      exact List.infix_rfl
  | loop => exact List.infix_rfl
  | result => exact List.infix_rfl
  | condition => exact infix_of_first
  | round done holds =>
      apply infix_of_done done
      rw [if_pos holds]
      exact infix_of_first
  | again done holds ran =>
      apply infix_of_done done
      rw [if_pos holds]
      exact infix_of_done ran List.infix_rfl
  | inScope => exact List.infix_rfl
  | firstStatement => exact infix_of_first
  | restStatements done => exact infix_of_done done List.infix_rfl

theorem trace_of_begins {program : Program} {machine : Machine} {run : Run}
    (begins : Begins config units program machine run) :
    run.trace config <:+: Program.trace config units program machine := by
  induction begins with
  | expression => exact infix_of_first
  | statement other =>
      rw [program_trace_statement _ _ other]
      exact infix_of_first
  | behindExpression done _ ih => exact infix_of_done done ih
  | behindStatement other done _ ih =>
      rw [program_trace_statement _ _ other]
      exact infix_of_done done ih

/-- What happens in a run that the program comes to stands in the trace of the program. -/
theorem trace_of_happens {program : Program} {machine : Machine} {run : Run}
    (happens : Happens config units program machine run) :
    run.trace config <:+: Program.trace config units program machine := by
  obtain ⟨top, begins, reached⟩ := happens
  induction reached with
  | refl => exact trace_of_begins begins
  | tail _ starts ih => exact (trace_of_starts starts).trans ih

end Inside

end Treewalk
