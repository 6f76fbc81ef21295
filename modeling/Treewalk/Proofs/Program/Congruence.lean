import Treewalk.Proofs.Program.Rule

/-!
# Relations that the grammar keeps

The rules of the grammar are put together from few steps. A relation between rules that holds of
each step and is kept by running one rule behind another holds between the rules of the grammar with
different budgets, if it holds where one of the budgets is used up. The two sides may take their
tokens from different supplies. A property of single rules is the case in which the second rule does
not matter.
-/

namespace Treewalk

set_option autoImplicit false

namespace Parser

section Parts

variable {σ : Type} [Supply σ]

def assigned (left : Expr) (value : Rule σ Expr) : Rule σ Expr := do
  match ← Rule.accept [.equal] with
  | none => pure left
  | some equals =>
      let value ← value
      match left with
      | .reference name => pure (.assign name value)
      | target =>
          Rule.record .badTarget equals
          pure target

theorem assignment_eq (units : Nat) :
    (assignment (units + 1) : Rule σ Expr) =
      operation units Level.all >>= fun left => assigned left (assignment units) :=
  rfl

def parameterList : Rule σ (List Token) :=
  fun state => parameters (budget (Supply.room state)) state

end Parts

theorem assigned_absent {left : Expr} {value : Rule ParseState Expr} {state : ParseState}
    (absent : state.current.kind ≠ .equal) : assigned left value state = .done left state := by
  unfold assigned
  rw [Rule.bind_eq, Rule.accept_none.mpr ⟨by simpa using absent, rfl⟩]
  rfl

theorem assigned_name {name : Token} {value : Rule ParseState Expr} {state : ParseState}
    (sign : state.current.kind = .equal) :
    assigned (.reference name) value state =
      (value >>= fun tree => pure (.assign name tree)) state.skip := by
  unfold assigned
  rw [Rule.bind_eq, Rule.accept_some.mpr ⟨by simpa using sign, rfl, rfl⟩]

/-- A wrong target is an error at the equals sign, but only behind the value. -/
theorem assigned_other {left : Expr} {value : Rule ParseState Expr} {state : ParseState}
    (other : ∀ name, left ≠ .reference name) (sign : state.current.kind = .equal) :
    assigned left value state =
      (value >>= fun _ => Rule.record .badTarget state.current >>= fun _ => pure left)
        state.skip := by
  unfold assigned
  rw [Rule.bind_eq, Rule.accept_some.mpr ⟨by simpa using sign, rfl, rfl⟩]
  cases left with
  | reference name => exact absurd rfl (other name)
  | _ => rfl

theorem assigned_clean {left tree : Expr} {value : Rule ParseState Expr} {before after : ParseState}
    (sign : before.current.kind = .equal) (done : assigned left value before = .done tree after)
    (clean : after.recorded = []) : ∃ name, left = .reference name := by
  apply Classical.byContradiction
  intro other
  rw [assigned_other (fun name same => other ⟨name, same⟩) sign] at done
  obtain ⟨_, _, _, done⟩ := Rule.bind_done.mp done
  obtain ⟨_, _, recorded, done⟩ := Rule.bind_done.mp done
  obtain ⟨rfl, rfl⟩ := Rule.pure_done.mp done
  rw [← Rule.record_done.mp recorded] at clean
  simp [ParseState.record] at clean

end Parser

section Relations

variable {σ τ : Type} [Supply σ] [Supply τ]

/-- The relation holds of every step and of compound rules if it holds of their parts. -/
structure Congruence (related : ∀ α : Type, Rule σ α → Rule τ α → Prop) : Prop where
  succeed : ∀ {α : Type} (value : α), related α (pure value) (pure value)
  andThen : ∀ {α β : Type} {rule : Rule σ α} {other : Rule τ α} {next : α → Rule σ β}
    {following : α → Rule τ β},
    related α rule other → (∀ value, related β (next value) (following value)) →
    related β (rule >>= next) (other >>= following)
  fail : ∀ {α : Type} (cause : SyntaxCause), related α (Rule.fail cause) (Rule.fail cause)
  current : related Token Rule.current Rule.current
  isAt : ∀ kind : Kind, related Bool (Rule.isAt kind) (Rule.isAt kind)
  atEnd : related Bool Rule.atEnd Rule.atEnd
  take : related Token Rule.take Rule.take
  accept : ∀ kinds : List Kind, related (Option Token) (Rule.accept kinds) (Rule.accept kinds)
  expect : ∀ slot : Slot, related Token (Rule.expect slot) (Rule.expect slot)
  assigned : ∀ (left : Expr) {value : Rule σ Expr} {other : Rule τ Expr}, related Expr value other →
    related Expr (Parser.assigned left value) (Parser.assigned left other)
  recover : ∀ {rule : Rule σ Stmt} {other : Rule τ Stmt}, related Stmt rule other →
    related (Option Stmt) (Parser.recover rule) (Parser.recover other)

structure ExpressionsRelated (related : ∀ α : Type, Rule σ α → Rule τ α → Prop)
    (units others : Nat) :
    Prop where
  assignment : related Expr (Parser.assignment units) (Parser.assignment others)
  operation : ∀ levels,
    related Expr (Parser.operation units levels) (Parser.operation others levels)
  operators : ∀ level tighter left, related Expr (Parser.operators units level tighter left)
    (Parser.operators others level tighter left)
  unary : related Expr (Parser.unary units) (Parser.unary others)
  calls : ∀ callee, related Expr (Parser.calls units callee) (Parser.calls others callee)
  arguments : related (List Expr) (Parser.arguments units) (Parser.arguments others)
  primary : related Expr (Parser.primary units) (Parser.primary others)

structure StatementsRelated (related : ∀ α : Type, Rule σ α → Rule τ α → Prop)
    (units others : Nat) :
    Prop where
  statement : related Stmt (Parser.statement units) (Parser.statement others)
  forStatement : related Stmt (Parser.forStatement units) (Parser.forStatement others)
  ifStatement : related Stmt (Parser.ifStatement units) (Parser.ifStatement others)
  whileStatement : related Stmt (Parser.whileStatement units) (Parser.whileStatement others)
  blockStatement : related Stmt (Parser.blockStatement units) (Parser.blockStatement others)
  functionStatement :
    related Stmt (Parser.functionStatement units) (Parser.functionStatement others)
  declarations : ∀ insideBlock, related (List Stmt) (Parser.declarations units insideBlock)
    (Parser.declarations others insideBlock)
  declaration : related (Option Stmt) (Parser.declaration units) (Parser.declaration others)

namespace Congruence

variable {related : ∀ α : Type, Rule σ α → Rule τ α → Prop} {units others : Nat}

theorem map (congruence : Congruence related) {α β : Type} (change : α → β) {rule : Rule σ α}
    {other : Rule τ α}
    (inner : related α rule other) : related β (change <$> rule) (change <$> other) :=
  congruence.andThen inner fun value => congruence.succeed (change value)

theorem optional (congruence : Congruence related) {α β : Type} {kind : Kind} {absent : α}
    {present : Rule σ α} {other : Rule τ α} {next : α → Rule σ β} {following : α → Rule τ β}
    (inner : related α present other)
    (later : ∀ value, related β (next value) (following value)) :
    related β
      (Rule.isAt kind >>= fun found =>
        if found = true then pure absent >>= next else present >>= next)
      (Rule.isAt kind >>= fun found =>
        if found = true then pure absent >>= following else other >>= following) := by
  refine congruence.andThen (congruence.isAt kind) fun found => ?_
  cases found with
  | true => exact congruence.andThen (congruence.succeed absent) later
  | false => exact congruence.andThen inner later

section Expressions

variable (congruence : Congruence related) (below : ExpressionsRelated related units others)
include congruence below

theorem assignment_succ :
    related Expr (Parser.assignment (units + 1)) (Parser.assignment (others + 1)) :=
  congruence.andThen (below.operation Level.all) fun left =>
    congruence.assigned left below.assignment

theorem operation_succ (levels : List Level) :
    related Expr (Parser.operation (units + 1) levels) (Parser.operation (others + 1) levels) := by
  cases levels with
  | nil => exact below.unary
  | cons level tighter =>
      exact congruence.andThen (below.operation tighter) fun left =>
        below.operators level tighter left

theorem operators_succ (level : Level) (tighter : List Level) (left : Expr) :
    related Expr (Parser.operators (units + 1) level tighter left)
      (Parser.operators (others + 1) level tighter left) := by
  unfold Parser.operators
  refine congruence.andThen (congruence.accept _) fun operator => ?_
  cases operator with
  | none => exact congruence.succeed left
  | some operator =>
      exact congruence.andThen (below.operation tighter) fun right => below.operators _ _ _

theorem unary_succ : related Expr (Parser.unary (units + 1)) (Parser.unary (others + 1)) := by
  unfold Parser.unary
  refine congruence.andThen (congruence.accept _) fun operator => ?_
  cases operator with
  | none => exact congruence.andThen below.primary fun callee => below.calls callee
  | some operator =>
      exact congruence.andThen below.unary fun operand => congruence.succeed _

theorem calls_succ (callee : Expr) :
    related Expr (Parser.calls (units + 1) callee) (Parser.calls (others + 1) callee) := by
  unfold Parser.calls
  refine congruence.andThen (congruence.accept _) fun opened => ?_
  cases opened with
  | none => exact congruence.succeed callee
  | some openParen =>
      refine congruence.optional below.arguments fun arguments => ?_
      exact congruence.andThen (congruence.expect _) fun paren => below.calls _

theorem arguments_succ :
    related (List Expr) (Parser.arguments (units + 1)) (Parser.arguments (others + 1)) := by
  unfold Parser.arguments
  refine congruence.andThen below.assignment fun first => ?_
  refine congruence.andThen (congruence.accept _) fun comma => ?_
  cases comma with
  | none => exact congruence.succeed [first]
  | some comma => exact congruence.andThen below.arguments fun rest => congruence.succeed _

theorem primary_succ : related Expr (Parser.primary (units + 1)) (Parser.primary (others + 1)) := by
  unfold Parser.primary
  refine congruence.andThen congruence.current fun token => ?_
  split
  · exact congruence.andThen congruence.take fun _ => congruence.succeed _
  · split
    · exact congruence.andThen congruence.take fun name => congruence.succeed _
    · refine congruence.andThen congruence.take fun openParen => ?_
      refine congruence.andThen below.assignment fun inner => ?_
      exact congruence.andThen (congruence.expect _) fun closeParen => congruence.succeed _
    · exact congruence.fail _

theorem expressions_succ : ExpressionsRelated related (units + 1) (others + 1) where
  assignment := congruence.assignment_succ below
  operation := congruence.operation_succ below
  operators := congruence.operators_succ below
  unary := congruence.unary_succ below
  calls := congruence.calls_succ below
  arguments := congruence.arguments_succ below
  primary := congruence.primary_succ below

end Expressions

theorem parameters_succ (congruence : Congruence related)
    (below : related (List Token) (Parser.parameters units) (Parser.parameters others)) :
    related (List Token) (Parser.parameters (units + 1)) (Parser.parameters (others + 1)) := by
  unfold Parser.parameters
  refine congruence.andThen (congruence.expect _) fun name => ?_
  refine congruence.andThen (congruence.accept _) fun comma => ?_
  cases comma with
  | none => exact congruence.succeed [name]
  | some comma => exact congruence.andThen below fun rest => congruence.succeed _

theorem function_head (congruence : Congruence related)
    (parameters : related (List Token) Parser.parameterList Parser.parameterList) :
    related (Token × List Token) Parser.functionHead Parser.functionHead := by
  unfold Parser.functionHead
  refine congruence.andThen congruence.take fun _ => ?_
  refine congruence.andThen (congruence.expect _) fun name => ?_
  refine congruence.andThen (congruence.expect _) fun _ => ?_
  refine congruence.optional parameters fun names => ?_
  refine congruence.andThen (congruence.expect _) fun _ => ?_
  exact congruence.andThen (congruence.expect _) fun _ => congruence.succeed _

section Statements

variable (congruence : Congruence related)
  (expression : related Expr Parser.expression Parser.expression)
include congruence expression

theorem variable_declaration :
    related Stmt Parser.variableDeclaration Parser.variableDeclaration := by
  have closing : ∀ (name : Token) (initial : Option Expr),
      related Stmt (Rule.expect .variableEnd >>= fun _ => pure (Stmt.declare name initial))
        (Rule.expect .variableEnd >>= fun _ => pure (Stmt.declare name initial)) :=
    fun name initial => congruence.andThen (congruence.expect _) fun _ => congruence.succeed _
  unfold Parser.variableDeclaration
  refine congruence.andThen congruence.take fun keyword => ?_
  refine congruence.andThen (congruence.expect _) fun name => ?_
  refine congruence.andThen (congruence.accept _) fun equals => ?_
  cases equals with
  | none => exact congruence.andThen (congruence.succeed none) (closing name)
  | some equals => exact congruence.andThen (congruence.map some expression) (closing name)

theorem expression_statement :
    related Stmt Parser.expressionStatement Parser.expressionStatement := by
  refine congruence.andThen expression fun value => ?_
  exact congruence.andThen (congruence.expect _) fun _ => congruence.succeed _

theorem print_statement : related Stmt Parser.printStatement Parser.printStatement := by
  refine congruence.andThen congruence.take fun keyword => ?_
  refine congruence.andThen expression fun value => ?_
  exact congruence.andThen (congruence.expect _) fun _ => congruence.succeed _

theorem return_statement : related Stmt Parser.returnStatement Parser.returnStatement := by
  refine congruence.andThen congruence.take fun keyword => ?_
  refine congruence.optional (congruence.map some expression) fun value => ?_
  exact congruence.andThen (congruence.expect _) fun _ => congruence.succeed _

omit expression in
theorem break_statement : related Stmt Parser.breakStatement Parser.breakStatement := by
  refine congruence.andThen congruence.take fun keyword => ?_
  exact congruence.andThen (congruence.expect _) fun _ => congruence.succeed _

theorem for_initial : related (Option Stmt) Parser.forInitial Parser.forInitial := by
  unfold Parser.forInitial
  refine congruence.andThen congruence.current fun token => ?_
  split
  · exact congruence.andThen congruence.take fun _ => congruence.succeed _
  · exact congruence.map some (congruence.variable_declaration expression)
  · exact congruence.map some (congruence.expression_statement expression)

theorem for_clauses :
    related (Option Stmt × Option Expr × Option Expr) Parser.forClauses Parser.forClauses := by
  refine congruence.andThen (congruence.expect _) fun _ => ?_
  refine congruence.andThen (congruence.for_initial expression) fun initial => ?_
  refine congruence.optional (congruence.map some expression) fun condition => ?_
  refine congruence.andThen (congruence.expect _) fun _ => ?_
  refine congruence.optional (congruence.map some expression) fun increment => ?_
  exact congruence.andThen (congruence.expect _) fun _ => congruence.succeed _

variable (parameters : related (List Token) Parser.parameterList Parser.parameterList)
  (below : StatementsRelated related units others)
include below

omit expression in
theorem block_statement_succ :
    related Stmt (Parser.blockStatement (units + 1)) (Parser.blockStatement (others + 1)) := by
  refine congruence.andThen congruence.take fun openBrace => ?_
  refine congruence.andThen (below.declarations true) fun body => ?_
  exact congruence.andThen (congruence.expect _) fun closeBrace => congruence.succeed _

theorem while_statement_succ :
    related Stmt (Parser.whileStatement (units + 1)) (Parser.whileStatement (others + 1)) := by
  refine congruence.andThen congruence.take fun keyword => ?_
  refine congruence.andThen (congruence.expect _) fun _ => ?_
  refine congruence.andThen expression fun condition => ?_
  refine congruence.andThen (congruence.expect _) fun _ => ?_
  exact congruence.andThen below.statement fun body => congruence.succeed _

theorem if_statement_succ :
    related Stmt (Parser.ifStatement (units + 1)) (Parser.ifStatement (others + 1)) := by
  refine congruence.andThen congruence.take fun keyword => ?_
  refine congruence.andThen (congruence.expect _) fun _ => ?_
  refine congruence.andThen expression fun condition => ?_
  refine congruence.andThen (congruence.expect _) fun _ => ?_
  refine congruence.andThen below.statement fun consequent => ?_
  refine congruence.andThen (congruence.accept _) fun elseWord => ?_
  cases elseWord with
  | none => exact congruence.succeed _
  | some elseWord => exact congruence.andThen below.statement fun alternative =>
      congruence.succeed _

theorem for_statement_succ :
    related Stmt (Parser.forStatement (units + 1)) (Parser.forStatement (others + 1)) := by
  refine congruence.andThen congruence.take fun keyword => ?_
  refine congruence.andThen (congruence.for_clauses expression) fun clauses => ?_
  exact congruence.andThen below.statement fun body => congruence.succeed _

theorem statement_succ :
    related Stmt (Parser.statement (units + 1)) (Parser.statement (others + 1)) := by
  unfold Parser.statement
  refine congruence.andThen congruence.current fun token => ?_
  split
  · exact below.forStatement
  · exact below.ifStatement
  · exact congruence.print_statement expression
  · exact below.whileStatement
  · exact below.blockStatement
  · exact below.functionStatement
  · exact congruence.return_statement expression
  · exact congruence.break_statement
  · exact congruence.fail _
  · exact congruence.expression_statement expression

omit expression in
theorem declarations_succ (insideBlock : Bool) :
    related (List Stmt) (Parser.declarations (units + 1) insideBlock)
      (Parser.declarations (others + 1) insideBlock) := by
  unfold Parser.declarations
  refine congruence.andThen (congruence.isAt _) fun closed => ?_
  refine congruence.andThen congruence.atEnd fun ended => ?_
  split
  · exact congruence.succeed []
  · refine congruence.andThen below.declaration fun first => ?_
    exact congruence.andThen (below.declarations insideBlock) fun rest => congruence.succeed _

theorem declaration_succ :
    related (Option Stmt) (Parser.declaration (units + 1)) (Parser.declaration (others + 1)) := by
  unfold Parser.declaration
  refine congruence.andThen congruence.current fun token => ?_
  apply congruence.recover
  split
  · exact congruence.variable_declaration expression
  · exact below.statement

include parameters

omit expression in
theorem function_statement_succ :
    related Stmt (Parser.functionStatement (units + 1))
      (Parser.functionStatement (others + 1)) := by
  refine congruence.andThen (congruence.function_head parameters) fun head => ?_
  refine congruence.andThen (below.declarations true) fun body => ?_
  exact congruence.andThen (congruence.expect _) fun _ => congruence.succeed _

theorem statements_succ : StatementsRelated related (units + 1) (others + 1) where
  statement := congruence.statement_succ expression below
  forStatement := congruence.for_statement_succ expression below
  ifStatement := congruence.if_statement_succ expression below
  whileStatement := congruence.while_statement_succ expression below
  blockStatement := congruence.block_statement_succ below
  functionStatement := congruence.function_statement_succ parameters below
  declarations := congruence.declarations_succ below
  declaration := congruence.declaration_succ expression below

end Statements

end Congruence

end Relations

end Treewalk
