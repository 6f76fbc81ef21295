import Treewalk.Proofs.Program.Advance
import Treewalk.Proofs.Token.Moved

/-!
# Parsing commutes with moving

The parser looks at kinds and literals of tokens only; places it copies into trees and errors, or
joins to hulls. So over tokens that have all been moved by the same distance it takes the same
course, with everything that it builds moved by that distance. The argument goes rule by rule: a
rule is related to the rule that is given moved trees to start from.
-/

namespace Treewalk

set_option autoImplicit false

namespace Expr

mutual

def moved (shift : Shift) : Expr → Expr
  | literal value line location => literal value (line + shift.lines) (location.moved shift)
  | grouping inner location => grouping (inner.moved shift) (location.moved shift)
  | unary operator operand => unary (operator.moved shift) (operand.moved shift)
  | binary left operator right =>
      binary (left.moved shift) (operator.moved shift) (right.moved shift)
  | logical left operator right =>
      logical (left.moved shift) (operator.moved shift) (right.moved shift)
  | reference name => reference (name.moved shift)
  | assign name value => assign (name.moved shift) (value.moved shift)
  | call callee paren arguments =>
      call (callee.moved shift) (paren.moved shift) (movedAll shift arguments)

def movedAll (shift : Shift) : List Expr → List Expr
  | [] => []
  | first :: rest => first.moved shift :: movedAll shift rest

end

theorem location_moved (shift : Shift) (expression : Expr) :
    (expression.moved shift).location = expression.location.moved shift := by
  cases expression with
  | literal value line location => rfl
  | grouping inner location => rfl
  | unary operator operand =>
      rw [moved, location, location, location_moved shift operand, ← Span.hull_moved]
      rfl
  | binary left operator right =>
      rw [moved, location, location, location_moved shift left, location_moved shift right,
        Span.hull_moved]
  | logical left operator right =>
      rw [moved, location, location, location_moved shift left, location_moved shift right,
        Span.hull_moved]
  | reference name => rfl
  | assign name value =>
      rw [moved, location, location, location_moved shift value, ← Span.hull_moved]
      rfl
  | call callee paren arguments =>
      rw [moved, location, location, location_moved shift callee, ← Span.hull_moved]
      rfl

end Expr

namespace Stmt

mutual

def moved (shift : Shift) : Stmt → Stmt
  | expression value => expression (value.moved shift)
  | print keyword value => print (keyword.moved shift) (value.moved shift)
  | declare name initial => declare (name.moved shift) (initial.map (Expr.moved shift))
  | block body location => block (movedAll shift body) (location.moved shift)
  | ifThen keyword condition consequent =>
      ifThen (keyword.moved shift) (condition.moved shift) (consequent.moved shift)
  | ifElse keyword condition consequent alternative =>
      ifElse (keyword.moved shift) (condition.moved shift) (consequent.moved shift)
        (alternative.moved shift)
  | loop keyword condition body =>
      loop (keyword.moved shift) (condition.moved shift) (body.moved shift)
  | function name parameters body =>
      function (name.moved shift) (parameters.map (Token.moved shift)) (movedAll shift body)
  | returnValue keyword value =>
      returnValue (keyword.moved shift) (value.map (Expr.moved shift))
  | breakLoop keyword => breakLoop (keyword.moved shift)

def movedAll (shift : Shift) : List Stmt → List Stmt
  | [] => []
  | first :: rest => first.moved shift :: movedAll shift rest

end

theorem location_moved (shift : Shift) (statement : Stmt) :
    (statement.moved shift).location = statement.location.moved shift := by
  cases statement with
  | expression value => exact Expr.location_moved shift value
  | print keyword value =>
      rw [moved, location, location, Expr.location_moved shift value, ← Span.hull_moved]
      rfl
  | declare name initial =>
      cases initial with
      | none => rfl
      | some initial =>
          rw [moved, Option.map_some, location, location, Expr.location_moved shift initial,
            ← Span.hull_moved]
          rfl
  | block body location => rfl
  | ifThen keyword condition consequent =>
      rw [moved, location, location, location_moved shift consequent, ← Span.hull_moved]
      rfl
  | ifElse keyword condition consequent alternative =>
      rw [moved, location, location, location_moved shift consequent,
        location_moved shift alternative, ← Span.hull_moved, ← Span.hull_moved]
      rfl
  | loop keyword condition body =>
      rw [moved, location, location, location_moved shift body, ← Span.hull_moved]
      rfl
  | function name parameters body => rfl
  | returnValue keyword value =>
      cases value with
      | none => rfl
      | some value =>
          rw [moved, Option.map_some, location, location, Expr.location_moved shift value,
            ← Span.hull_moved]
          rfl
  | breakLoop keyword => rfl

end Stmt

def SyntaxError.moved (shift : Shift) (error : SyntaxError) : SyntaxError :=
  { error with found := error.found.moved shift }

def ParseError.moved (shift : Shift) : ParseError → ParseError
  | lexical error => lexical (error.moved shift)
  | grammar error => grammar (error.moved shift)

namespace ParseState

def moved (shift : Shift) (state : ParseState) : ParseState :=
  ⟨state.ahead.map (Token.moved shift), state.closing.moved shift,
    state.recorded.map (SyntaxError.moved shift)⟩

theorem current_moved (shift : Shift) (state : ParseState) :
    (state.moved shift).current = state.current.moved shift := by
  unfold current moved
  cases state.ahead <;> rfl

theorem Closed.moved {state : ParseState} (closed : state.Closed) (shift : Shift) :
    (state.moved shift).Closed :=
  closed

theorem length_moved (shift : Shift) (state : ParseState) :
    (state.moved shift).ahead.length = state.ahead.length :=
  List.length_map _

theorem skip_moved (shift : Shift) (state : ParseState) :
    (state.moved shift).skip = state.skip.moved shift := by
  unfold skip moved
  rw [List.map_tail]

theorem record_moved (shift : Shift) (error : SyntaxError) (state : ParseState) :
    (state.moved shift).record (error.moved shift) = (state.record error).moved shift := by
  unfold record moved
  rw [List.map_append]
  rfl

end ParseState

/-- How a rule ends over tokens that have been moved, if its value is changed in this way. -/
def Parsed.moved {α β : Type} (shift : Shift) (change : α → β) :
    Parsed ParseState α → Parsed ParseState β
  | .done value state => .done (change value) (state.moved shift)
  | .failed error state => .failed (error.moved shift) (state.moved shift)
  | .exhausted => .exhausted

namespace Rule

open ParseState

/-- Over moved tokens, the second rule does what the first one does, with its value changed. -/
def Moves {α β : Type} (shift : Shift) (change : α → β) (rule : Rule ParseState α)
    (other : Rule ParseState β) : Prop :=
  ∀ state, other (state.moved shift) = (rule state).moved shift change

section Steps

variable {α β γ δ : Type} {shift : Shift}

theorem pure_moves {change : α → β} (value : α) :
    Moves shift change (pure value) (pure (change value)) :=
  fun _ => rfl

theorem bind_moves {change : α → β} {changeNext : γ → δ} {rule : Rule ParseState α}
    {other : Rule ParseState β}
    {next : α → Rule ParseState γ} {following : β → Rule ParseState δ}
    (first : Moves shift change rule other)
    (second : ∀ value, Moves shift changeNext (next value) (following (change value))) :
    Moves shift changeNext (rule >>= next) (other >>= following) := by
  intro state
  rw [bind_eq, bind_eq, first state]
  cases rule state with
  | done value between => exact second value between
  | failed error between => rfl
  | exhausted => rfl

theorem map_moves {change : α → β} {changeNext : γ → δ} {rule : Rule ParseState α}
    {other : Rule ParseState β}
    {wrap : α → γ} {wrapToo : β → δ} (inner : Moves shift change rule other)
    (wrapped : ∀ value, wrapToo (change value) = changeNext (wrap value)) :
    Moves shift changeNext (wrap <$> rule) (wrapToo <$> other) := by
  rw [map_eq, map_eq]
  refine bind_moves inner fun value => ?_
  rw [wrapped value]
  exact pure_moves _

theorem exhausted_moves {change : α → β} :
    Moves shift change (Rule.exhausted : Rule ParseState α) Rule.exhausted :=
  fun _ => rfl

theorem fail_moves {change : α → β} (cause : SyntaxCause) :
    Moves shift change (Rule.fail cause : Rule ParseState α) (Rule.fail cause) := by
  intro state
  unfold Rule.fail
  rw [supply_current, current_moved]
  rfl

theorem current_moves : Moves shift (Token.moved shift) Rule.current Rule.current := by
  intro state
  unfold Rule.current
  rw [supply_current, current_moved]
  rfl

theorem is_at_moves (kind : Kind) : Moves shift id (Rule.isAt kind) (Rule.isAt kind) := by
  intro state
  unfold Rule.isAt
  rw [supply_current, current_moved]
  rfl

theorem at_end_moves : Moves shift id Rule.atEnd Rule.atEnd := by
  intro state
  unfold Rule.atEnd ParseState.moved
  rw [supply_is_at_end, List.isEmpty_map]
  rfl

theorem take_moves : Moves shift (Token.moved shift) Rule.take Rule.take := by
  intro state
  show Parsed.done (state.moved shift).current (state.moved shift).skip = _
  rw [current_moved, skip_moved]
  rfl

theorem accept_moves (kinds : List Kind) :
    Moves shift (Option.map (Token.moved shift)) (Rule.accept kinds) (Rule.accept kinds) := by
  intro state
  by_cases found : state.current.kind ∈ kinds
  · rw [accept_some.mpr ⟨found, rfl, rfl⟩, accept_some.mpr ⟨?_, current_moved shift state, rfl⟩,
      skip_moved]
    · rfl
    · rw [current_moved]
      exact found
  · rw [accept_none.mpr ⟨found, rfl⟩, accept_none.mpr ⟨?_, rfl⟩]
    · rfl
    · rw [current_moved]
      exact found

theorem expect_moves (slot : Slot) :
    Moves shift (Token.moved shift) (Rule.expect slot) (Rule.expect slot) := by
  intro state
  have same : (state.moved shift).current.kind = state.current.kind := by
    rw [current_moved]
    rfl
  by_cases found : state.current.kind = slot.kind
  · rw [expect_done.mpr ⟨found, rfl, rfl⟩,
      expect_done.mpr ⟨same.trans found, current_moved shift state, rfl⟩, skip_moved]
    rfl
  · rw [expect_missing found, expect_missing (by rwa [same]), current_moved]
    rfl

theorem record_moves (cause : SyntaxCause) (found : Token) :
    Moves shift id (Rule.record cause found) (Rule.record cause (found.moved shift)) := by
  intro state
  exact congrArg (Parsed.done ()) (record_moved shift ⟨cause, found⟩ state)

theorem optional_moves {kind : Kind} {change : α → β} {changeNext : γ → δ} {absent : α}
    {present : Rule ParseState α} {other : Rule ParseState β} {next : α → Rule ParseState γ}
    {following : β → Rule ParseState δ}
    (inner : Moves shift change present other)
    (later : ∀ value, Moves shift changeNext (next value) (following (change value))) :
    Moves shift changeNext
      (Rule.isAt kind >>= fun found =>
        if found = true then pure absent >>= next else present >>= next)
      (Rule.isAt kind >>= fun found =>
        if found = true then pure (change absent) >>= following else other >>= following) := by
  refine bind_moves (is_at_moves kind) fun found => ?_
  cases found with
  | true => exact bind_moves (pure_moves absent) later
  | false => exact bind_moves inner later

end Steps

end Rule

theorem Token.constant_moved (shift : Shift) (token : Token) :
    (token.moved shift).constant? = token.constant? :=
  rfl

theorem Level.join_moved (shift : Shift) (level : Level) (left : Expr) (operator : Token)
    (right : Expr) :
    level.join (left.moved shift) (operator.moved shift) (right.moved shift) =
      (level.join left operator right).moved shift := by
  unfold join
  split <;> rfl

namespace Parser

open Rule

structure ExpressionsMove (shift : Shift) (units : Nat) : Prop where
  assignment : Moves shift (Expr.moved shift) (assignment units) (assignment units)
  operation : ∀ levels,
    Moves shift (Expr.moved shift) (operation units levels) (operation units levels)
  operators : ∀ level tighter left, Moves shift (Expr.moved shift)
    (operators units level tighter left) (operators units level tighter (left.moved shift))
  unary : Moves shift (Expr.moved shift) (unary units) (unary units)
  calls : ∀ callee,
    Moves shift (Expr.moved shift) (calls units callee) (calls units (callee.moved shift))
  arguments : Moves shift (Expr.movedAll shift) (arguments units) (arguments units)
  primary : Moves shift (Expr.moved shift) (primary units) (primary units)

section Expressions

variable {shift : Shift} {units : Nat}

theorem assigned_moves (left : Expr) {value : Rule ParseState Expr}
    (inner : Moves shift (Expr.moved shift) value value) :
    Moves shift (Expr.moved shift) (assigned left value) (assigned (left.moved shift) value) := by
  refine bind_moves (accept_moves _) fun equals => ?_
  cases equals with
  | none => exact pure_moves left
  | some equals =>
      refine bind_moves inner fun tree => ?_
      -- Whether the target is a name does not depend on where it stands.
      cases left with
      | reference name => exact pure_moves (Expr.assign name tree)
      | _ => exact bind_moves (record_moves _ equals) fun _ => pure_moves _

variable (below : ExpressionsMove shift units)
include below

theorem operators_moves (level : Level) (tighter : List Level) (left : Expr) :
    Moves shift (Expr.moved shift) (operators (units + 1) level tighter left)
      (operators (units + 1) level tighter (left.moved shift)) := by
  refine bind_moves (accept_moves _) fun operator => ?_
  cases operator with
  | none => exact pure_moves left
  | some operator =>
      refine bind_moves (below.operation tighter) fun right => ?_
      rw [Level.join_moved]
      exact below.operators level tighter _

theorem unary_moves :
    Moves shift (Expr.moved shift) (unary (units + 1)) (unary (units + 1)) := by
  refine bind_moves (accept_moves _) fun operator => ?_
  cases operator with
  | none => exact bind_moves below.primary below.calls
  | some operator => exact bind_moves below.unary fun operand => pure_moves (Expr.unary _ _)

theorem calls_moves (callee : Expr) :
    Moves shift (Expr.moved shift) (calls (units + 1) callee)
      (calls (units + 1) (callee.moved shift)) := by
  refine bind_moves (accept_moves _) fun opened => ?_
  cases opened with
  | none => exact pure_moves callee
  | some openParen =>
      refine optional_moves below.arguments fun arguments => ?_
      exact bind_moves (expect_moves _) fun paren => below.calls (Expr.call _ _ _)

theorem arguments_moves :
    Moves shift (Expr.movedAll shift) (arguments (units + 1)) (arguments (units + 1)) := by
  refine bind_moves below.assignment fun first => ?_
  refine bind_moves (accept_moves _) fun comma => ?_
  cases comma with
  | none => exact pure_moves [first]
  | some comma => exact bind_moves below.arguments fun rest => pure_moves (first :: rest)

theorem primary_moves :
    Moves shift (Expr.moved shift) (primary (units + 1)) (primary (units + 1)) := by
  refine bind_moves current_moves fun token => ?_
  rw [Token.constant_moved]
  cases token.constant? with
  | some value => exact bind_moves take_moves fun _ => pure_moves (Expr.literal _ _ _)
  | none =>
      dsimp only
      rw [Token.kind_moved]
      split
      · exact bind_moves take_moves fun name => pure_moves (Expr.reference name)
      · refine bind_moves take_moves fun openParen => ?_
        refine bind_moves below.assignment fun inner => ?_
        refine bind_moves (expect_moves _) fun closeParen => ?_
        rw [Token.span_moved, Token.span_moved, Span.hull_moved]
        exact pure_moves (Expr.grouping inner _)
      · exact fail_moves _

end Expressions

theorem expressions_move (shift : Shift) (units : Nat) : ExpressionsMove shift units := by
  induction units with
  | zero =>
      exact ⟨exhausted_moves, fun _ => exhausted_moves, fun _ _ _ => exhausted_moves,
        exhausted_moves, fun _ => exhausted_moves, exhausted_moves, exhausted_moves⟩
  | succ units below =>
      refine ⟨?_, ?_, operators_moves below, unary_moves below, calls_moves below,
        arguments_moves below, primary_moves below⟩
      · rw [assignment_eq]
        exact bind_moves (below.operation _) fun left => assigned_moves left below.assignment
      · intro levels
        cases levels with
        | nil => exact below.unary
        | cons level tighter =>
            exact bind_moves (below.operation tighter) (below.operators level tighter)

theorem expression_moves (shift : Shift) :
    Moves shift (Expr.moved shift) expression expression := by
  intro state
  unfold expression
  rw [ParseState.supply_room, ParseState.supply_room, ParseState.length_moved]
  exact (expressions_move shift _).assignment state

theorem parameters_moves (shift : Shift) (units : Nat) :
    Moves shift (List.map (Token.moved shift)) (parameters units) (parameters units) := by
  induction units with
  | zero => exact exhausted_moves
  | succ units below =>
      refine bind_moves (expect_moves _) fun name => ?_
      refine bind_moves (accept_moves _) fun comma => ?_
      cases comma with
      | none => exact pure_moves [name]
      | some comma => exact bind_moves below fun rest => pure_moves (name :: rest)

theorem parameter_list_moves (shift : Shift) :
    Moves shift (List.map (Token.moved shift)) parameterList parameterList := by
  intro state
  unfold parameterList
  rw [ParseState.supply_room, ParseState.supply_room, ParseState.length_moved]
  exact parameters_moves shift _ state

section Clauses

variable (shift : Shift)

theorem optional_expression_moves :
    Moves shift (Option.map (Expr.moved shift)) (some <$> expression) (some <$> expression) :=
  map_moves (expression_moves shift) fun _ => rfl

theorem variable_declaration_moves :
    Moves shift (Stmt.moved shift) variableDeclaration variableDeclaration := by
  have closing : ∀ (name : Token) (initial : Option Expr), Moves shift (Stmt.moved shift)
      (Rule.expect .variableEnd >>= fun _ => pure (Stmt.declare name initial))
      (Rule.expect .variableEnd >>= fun _ =>
        pure (Stmt.declare (name.moved shift) (initial.map (Expr.moved shift)))) :=
    fun name initial => bind_moves (expect_moves _) fun _ => pure_moves (Stmt.declare name initial)
  refine bind_moves take_moves fun keyword => ?_
  refine bind_moves (expect_moves _) fun name => ?_
  refine bind_moves (accept_moves _) fun equals => ?_
  cases equals with
  | none => exact bind_moves (pure_moves none) (closing name)
  | some equals => exact bind_moves (optional_expression_moves shift) (closing name)

theorem expression_statement_moves :
    Moves shift (Stmt.moved shift) expressionStatement expressionStatement := by
  refine bind_moves (expression_moves shift) fun value => ?_
  exact bind_moves (expect_moves _) fun _ => pure_moves (Stmt.expression value)

theorem print_statement_moves :
    Moves shift (Stmt.moved shift) printStatement printStatement := by
  refine bind_moves take_moves fun keyword => ?_
  refine bind_moves (expression_moves shift) fun value => ?_
  exact bind_moves (expect_moves _) fun _ => pure_moves (Stmt.print keyword value)

theorem return_statement_moves :
    Moves shift (Stmt.moved shift) returnStatement returnStatement := by
  refine bind_moves take_moves fun keyword => ?_
  refine optional_moves (optional_expression_moves shift) fun value => ?_
  exact bind_moves (expect_moves _) fun _ => pure_moves (Stmt.returnValue keyword value)

theorem break_statement_moves :
    Moves shift (Stmt.moved shift) breakStatement breakStatement := by
  refine bind_moves take_moves fun keyword => ?_
  exact bind_moves (expect_moves _) fun _ => pure_moves (Stmt.breakLoop keyword)

theorem for_initial_moves :
    Moves shift (Option.map (Stmt.moved shift)) forInitial forInitial := by
  refine bind_moves current_moves fun token => ?_
  rw [Token.kind_moved]
  split
  · exact bind_moves take_moves fun _ => pure_moves none
  · exact map_moves (variable_declaration_moves shift) fun _ => rfl
  · exact map_moves (expression_statement_moves shift) fun _ => rfl

def movedClauses (clauses : Option Stmt × Option Expr × Option Expr) :
    Option Stmt × Option Expr × Option Expr :=
  (clauses.1.map (Stmt.moved shift), clauses.2.1.map (Expr.moved shift),
    clauses.2.2.map (Expr.moved shift))

theorem for_clauses_moves : Moves shift (movedClauses shift) forClauses forClauses := by
  refine bind_moves (expect_moves _) fun _ => ?_
  refine bind_moves (for_initial_moves shift) fun initial => ?_
  refine optional_moves (optional_expression_moves shift) fun condition => ?_
  refine bind_moves (expect_moves _) fun _ => ?_
  refine optional_moves (optional_expression_moves shift) fun increment => ?_
  exact bind_moves (expect_moves _) fun _ => pure_moves (initial, condition, increment)

theorem for_loop_moved (keyword : Token) (initial : Option Stmt) (condition increment : Option Expr)
    (body : Stmt) :
    forLoop (keyword.moved shift) (initial.map (Stmt.moved shift))
        (condition.map (Expr.moved shift)) (increment.map (Expr.moved shift)) (body.moved shift) =
      (forLoop keyword initial condition increment body).moved shift := by
  have plain : ∀ body : Stmt,
      forLoop (keyword.moved shift) (initial.map (Stmt.moved shift))
          (condition.map (Expr.moved shift)) none (body.moved shift) =
        (forLoop keyword initial condition none body).moved shift := by
    intro body
    cases initial with
    | none => cases condition <;> rfl
    | some first =>
        show Stmt.block _ ((keyword.moved shift).span.hull (body.moved shift).location) = _
        rw [Token.span_moved, Stmt.location_moved, Span.hull_moved]
        cases condition <;> rfl
  cases increment with
  | none => exact plain body
  | some step =>
      -- An increment makes a block of the body, which then stands in a loop without one.
      have stepped : Stmt.block [body.moved shift, .expression (step.moved shift)]
            ((body.moved shift).location.hull (step.moved shift).location) =
          (Stmt.block [body, .expression step] (body.location.hull step.location)).moved shift := by
        rw [Stmt.location_moved, Expr.location_moved, Span.hull_moved]
        rfl
      exact (congrArg (forLoop _ _ _ none) stepped).trans (plain _)

theorem function_head_moves :
    Moves shift (fun head => (head.1.moved shift, head.2.map (Token.moved shift))) functionHead
      functionHead := by
  refine bind_moves take_moves fun _ => ?_
  refine bind_moves (expect_moves _) fun name => ?_
  refine bind_moves (expect_moves _) fun _ => ?_
  refine optional_moves (parameter_list_moves shift) fun names => ?_
  refine bind_moves (expect_moves _) fun _ => ?_
  exact bind_moves (expect_moves _) fun _ => pure_moves (name, names)

theorem synchronized_moved (tokens : List Token) :
    synchronized (tokens.map (Token.moved shift)) =
      (synchronized tokens).map (Token.moved shift) := by
  induction tokens with
  | nil => rfl
  | cons token rest ih =>
      cases rest with
      | nil => simp [synchronized]
      | cons next rest =>
          rw [List.map_cons, List.map_cons, synchronized, synchronized, ← List.map_cons, ih]
          simp only [Token.kind_moved, apply_ite (List.map (Token.moved shift))]
          rfl

theorem recover_moves {rule : Rule ParseState Stmt}
    (inner : Moves shift (Stmt.moved shift) rule rule) :
    Moves shift (Option.map (Stmt.moved shift)) (recover rule) (recover rule) := by
  intro state
  have same := inner state
  cases ran : rule state with
  | done statement after =>
      rw [ran] at same
      rw [recover_done ran, recover_done same]
      rfl
  | failed error after =>
      rw [ran] at same
      rw [recover_failed ran, recover_failed same, ParseState.record_moved]
      exact congrArg (fun ahead => Parsed.done none (ParseState.mk ahead _ _))
        (synchronized_moved shift after.ahead)
  | exhausted =>
      rw [ran] at same
      rw [recover_exhausted ran, recover_exhausted same]
      rfl

end Clauses

structure StatementsMove (shift : Shift) (units : Nat) : Prop where
  statement : Moves shift (Stmt.moved shift) (statement units) (statement units)
  forStatement : Moves shift (Stmt.moved shift) (forStatement units) (forStatement units)
  ifStatement : Moves shift (Stmt.moved shift) (ifStatement units) (ifStatement units)
  whileStatement : Moves shift (Stmt.moved shift) (whileStatement units) (whileStatement units)
  blockStatement : Moves shift (Stmt.moved shift) (blockStatement units) (blockStatement units)
  functionStatement :
    Moves shift (Stmt.moved shift) (functionStatement units) (functionStatement units)
  declarations : ∀ insideBlock, Moves shift (Stmt.movedAll shift) (declarations units insideBlock)
    (declarations units insideBlock)
  declaration :
    Moves shift (Option.map (Stmt.moved shift)) (declaration units) (declaration units)

section Statements

variable {shift : Shift} {units : Nat} (below : StatementsMove shift units)
include below

theorem statement_moves :
    Moves shift (Stmt.moved shift) (statement (units + 1)) (statement (units + 1)) := by
  refine bind_moves current_moves fun token => ?_
  rw [Token.kind_moved]
  split
  · exact below.forStatement
  · exact below.ifStatement
  · exact print_statement_moves shift
  · exact below.whileStatement
  · exact below.blockStatement
  · exact below.functionStatement
  · exact return_statement_moves shift
  · exact break_statement_moves shift
  · exact fail_moves _
  · exact expression_statement_moves shift

theorem for_statement_moves :
    Moves shift (Stmt.moved shift) (forStatement (units + 1)) (forStatement (units + 1)) := by
  refine bind_moves take_moves fun keyword => ?_
  refine bind_moves (for_clauses_moves shift) fun clauses => ?_
  refine bind_moves below.statement fun body => ?_
  show Moves shift (Stmt.moved shift) _ (pure (forLoop _ (clauses.1.map (Stmt.moved shift))
    (clauses.2.1.map (Expr.moved shift)) (clauses.2.2.map (Expr.moved shift)) _))
  rw [for_loop_moved]
  exact pure_moves (forLoop keyword clauses.1 clauses.2.1 clauses.2.2 body)

theorem if_statement_moves :
    Moves shift (Stmt.moved shift) (ifStatement (units + 1)) (ifStatement (units + 1)) := by
  refine bind_moves take_moves fun keyword => ?_
  refine bind_moves (expect_moves _) fun _ => ?_
  refine bind_moves (expression_moves shift) fun condition => ?_
  refine bind_moves (expect_moves _) fun _ => ?_
  refine bind_moves below.statement fun consequent => ?_
  refine bind_moves (accept_moves _) fun elseWord => ?_
  cases elseWord with
  | none => exact pure_moves (Stmt.ifThen keyword condition consequent)
  | some elseWord =>
      exact bind_moves below.statement fun alternative =>
        pure_moves (Stmt.ifElse keyword condition consequent alternative)

theorem while_statement_moves :
    Moves shift (Stmt.moved shift) (whileStatement (units + 1)) (whileStatement (units + 1)) := by
  refine bind_moves take_moves fun keyword => ?_
  refine bind_moves (expect_moves _) fun _ => ?_
  refine bind_moves (expression_moves shift) fun condition => ?_
  refine bind_moves (expect_moves _) fun _ => ?_
  exact bind_moves below.statement fun body => pure_moves (Stmt.loop keyword condition body)

theorem block_statement_moves :
    Moves shift (Stmt.moved shift) (blockStatement (units + 1)) (blockStatement (units + 1)) := by
  refine bind_moves take_moves fun openBrace => ?_
  refine bind_moves (below.declarations true) fun body => ?_
  refine bind_moves (expect_moves _) fun closeBrace => ?_
  rw [Token.span_moved, Token.span_moved, Span.hull_moved]
  exact pure_moves (Stmt.block body _)

theorem function_statement_moves :
    Moves shift (Stmt.moved shift) (functionStatement (units + 1))
      (functionStatement (units + 1)) := by
  refine bind_moves (function_head_moves shift) fun head => ?_
  refine bind_moves (below.declarations true) fun body => ?_
  exact bind_moves (expect_moves _) fun _ => pure_moves (Stmt.function head.1 head.2 body)

theorem declarations_moves (insideBlock : Bool) :
    Moves shift (Stmt.movedAll shift) (declarations (units + 1) insideBlock)
      (declarations (units + 1) insideBlock) := by
  unfold declarations
  refine bind_moves (is_at_moves _) fun closed => ?_
  refine bind_moves at_end_moves fun ended => ?_
  dsimp only [id]
  split
  · exact pure_moves []
  · refine bind_moves below.declaration fun first => ?_
    refine bind_moves (below.declarations insideBlock) fun rest => ?_
    cases first with
    | none => exact pure_moves rest
    | some first => exact pure_moves (first :: rest)

theorem declaration_moves :
    Moves shift (Option.map (Stmt.moved shift)) (declaration (units + 1))
      (declaration (units + 1)) := by
  refine bind_moves current_moves fun token => ?_
  rw [Token.kind_moved]
  apply recover_moves
  split
  · exact variable_declaration_moves shift
  · exact below.statement

end Statements

theorem statements_move (shift : Shift) (units : Nat) : StatementsMove shift units := by
  induction units with
  | zero =>
      exact ⟨exhausted_moves, exhausted_moves, exhausted_moves, exhausted_moves, exhausted_moves,
        exhausted_moves, fun _ => exhausted_moves, exhausted_moves⟩
  | succ units below =>
      exact ⟨statement_moves below, for_statement_moves below, if_statement_moves below,
        while_statement_moves below, block_statement_moves below, function_statement_moves below,
        declarations_moves below, declaration_moves below⟩

/-- A program over moved tokens is read as it is otherwise, with its errors, but moved. -/
theorem program_moves (shift : Shift) : Moves shift (Stmt.movedAll shift) program program := by
  intro state
  unfold program
  rw [ParseState.supply_room, ParseState.supply_room, ParseState.length_moved]
  exact (statements_move shift _).declarations false state

end Parser

end Treewalk
