import Treewalk.Proofs.Program.Completeness.Expression

/-!
# The budget of the parser is never used up

A rule that succeeds has taken a token, unless it may be empty; so the tokens ahead get fewer from
one turn of every recursion to the next. Between two tokens a rule goes through at most eleven
others. With twelve units for each token, and as many more as there are rules down to the one that
takes it, no rule runs out of budget.
-/

namespace Treewalk

set_option autoImplicit false

def Parsed.Below {α : Type} (limit : Nat) : Parsed ParseState α → Prop
  | .done _ after => after.Closed ∧ after.ahead.length < limit
  | .failed _ _ => True
  | .exhausted => False

theorem Parsed.Below.mono {α : Type} {parsed : Parsed ParseState α} {limit more : Nat}
    (below : parsed.Below limit) (larger : limit ≤ more) : parsed.Below more := by
  cases parsed with
  | done value after => exact ⟨below.1, Nat.lt_of_lt_of_le below.2 larger⟩
  | failed error after => trivial
  | exhausted => exact below

def Level.Proper (level : Level) : Prop :=
  .endOfInput ∉ level.kinds

namespace Rule

open ParseState

variable {α β : Type} {before : ParseState} {limit : Nat}

theorem bind_below {middle : Nat} {rule : Rule ParseState α} {next : α → Rule ParseState β}
    (first : (rule before).Below middle)
    (second : ∀ value between, between.Closed → between.ahead.length < middle →
      (next value between).Below limit) :
    ((rule >>= next) before).Below limit := by
  rw [bind_eq]
  cases ran : rule before with
  | done value between =>
      rw [ran] at first
      exact second value between first.1 first.2
  | failed error between => trivial
  | exhausted =>
      rw [ran] at first
      exact first

theorem bind_failed {rule : Rule ParseState α} {next : α → Rule ParseState β} {after : ParseState}
    {error : SyntaxError} :
    (rule >>= next) before = .failed error after ↔ rule before = .failed error after ∨
      ∃ value between, rule before = .done value between ∧
        next value between = .failed error after := by
  rw [bind_eq]
  cases rule before with
  | done value between =>
      constructor
      · exact fun failed => .inr ⟨value, between, rfl, failed⟩
      · rintro (failed | ⟨_, _, same, failed⟩)
        · cases failed
        · cases same
          exact failed
  | failed found between => simp
  | exhausted => simp

theorem pure_below (value : α) (closed : before.Closed) (less : before.ahead.length < limit) :
    ((pure value : Rule ParseState α) before).Below limit :=
  ⟨closed, less⟩

theorem map_below (change : α → β) {rule : Rule ParseState α} (inner : (rule before).Below limit) :
    ((change <$> rule) before).Below limit := by
  rw [map_eq]
  exact bind_below inner fun value between closed less => pure_below _ closed less

theorem skip_length {before : ParseState} (closed : before.Closed)
    (inside : before.current.kind ≠ .endOfInput) :
    before.skip.ahead.length < before.ahead.length := by
  rw [ahead_eq_current_cons closed inside]
  exact Nat.lt_succ_self _

theorem take_below (closed : before.Closed) (inside : before.current.kind ≠ .endOfInput) :
    (Rule.take before).Below before.ahead.length :=
  ⟨closed, skip_length closed inside⟩

theorem slot_kind_inside (slot : Slot) : slot.kind ≠ .endOfInput := by
  cases slot <;> decide

theorem expect_below (slot : Slot) (closed : before.Closed) :
    (Rule.expect slot before).Below before.ahead.length := by
  unfold Rule.expect
  split
  · rename_i found
    refine ⟨closed, skip_length closed ?_⟩
    rw [← supply_current, found]
    exact slot_kind_inside slot
  · trivial

/-- Behind a token that may be missing: either nothing was taken, or one token. -/
theorem accept_bind_below {kinds : List Kind} {next : Option Token → Rule ParseState β}
    (inside : .endOfInput ∉ kinds) (closed : before.Closed)
    (missing : (next none before).Below limit)
    (found : before.skip.ahead.length < before.ahead.length →
      (next (some before.current) before.skip).Below limit) :
    ((Rule.accept kinds >>= next) before).Below limit := by
  by_cases present : before.current.kind ∈ kinds
  · have taken : Rule.accept kinds before = .done (some before.current) before.skip :=
      accept_some.mpr ⟨present, rfl, rfl⟩
    rw [bind_eq, taken]
    apply found
    apply skip_length closed
    intro ended
    rw [ended] at present
    exact inside present
  · have absent : Rule.accept kinds before = .done none before := accept_none.mpr ⟨present, rfl⟩
    rw [bind_eq, absent]
    exact missing

theorem is_at_bind_below {kind : Kind} {next : Bool → Rule ParseState β}
    (behind : (next (decide (before.current.kind = kind)) before).Below limit) :
    ((Rule.isAt kind >>= next) before).Below limit :=
  behind

theorem current_bind_below {next : Token → Rule ParseState β}
    (behind : (next before.current before).Below limit) :
    ((Rule.current >>= next) before).Below limit :=
  behind

end Rule

namespace Parser

open Rule ParseState ParseState

/-- With this budget the rules of expressions end if it allows for twelve units a token. -/
structure ExpressionsEnd (units : Nat) : Prop where
  assignment : ∀ before, before.Closed → 12 * before.ahead.length + 10 ≤ units →
    (assignment units before).Below before.ahead.length
  operation : ∀ levels before, (∀ level ∈ levels, level.Proper) → levels.length ≤ 6 →
    before.Closed → 12 * before.ahead.length + levels.length + 3 ≤ units →
    (operation units levels before).Below before.ahead.length
  operators : ∀ level tighter left before, (∀ other ∈ level :: tighter, other.Proper) →
    tighter.length ≤ 5 → before.Closed → 12 * before.ahead.length + 1 ≤ units →
    (operators units level tighter left before).Below (before.ahead.length + 1)
  unary : ∀ before, before.Closed → 12 * before.ahead.length + 2 ≤ units →
    (unary units before).Below before.ahead.length
  calls : ∀ callee before, before.Closed → 12 * before.ahead.length + 1 ≤ units →
    (calls units callee before).Below (before.ahead.length + 1)
  arguments : ∀ before, before.Closed → 12 * before.ahead.length + 11 ≤ units →
    (arguments units before).Below before.ahead.length
  primary : ∀ before, before.Closed → 12 * before.ahead.length + 1 ≤ units →
    (primary units before).Below before.ahead.length

namespace ExpressionsEnd

variable {units : Nat}

theorem assignment_succ (below : ExpressionsEnd units) (before : ParseState)
    (closed : before.Closed) (enough : 12 * before.ahead.length + 10 ≤ units + 1) :
    (Parser.assignment (units + 1) before).Below before.ahead.length := by
  have proper : ∀ level ∈ Level.all, level.Proper := by
    unfold Level.Proper
    decide
  unfold Parser.assignment
  apply bind_below (below.operation _ before proper (by decide) closed
    (by simp only [Level.all, List.length_cons, List.length_nil]; omega))
  intro left between closedLeft less
  apply accept_bind_below (by decide) closedLeft
  · exact pure_below _ closedLeft less
  · intro shorter
    apply bind_below (below.assignment between.skip closedLeft.skip (by omega))
    intro value after closedAfter lessAfter
    cases left with
    | reference name => exact pure_below _ closedAfter (by omega)
    | _ => exact pure_below _ closedAfter (by simp only [supply_record, ParseState.record]; omega)

theorem operation_succ (below : ExpressionsEnd units) (levels : List Level) (before : ParseState)
    (proper : ∀ level ∈ levels, level.Proper) (few : levels.length ≤ 6) (closed : before.Closed)
    (enough : 12 * before.ahead.length + levels.length + 3 ≤ units + 1) :
    (Parser.operation (units + 1) levels before).Below before.ahead.length := by
  cases levels with
  | nil => exact below.unary before closed (by simp only [List.length_nil] at enough; omega)
  | cons level tighter =>
      simp only [List.length_cons] at few enough
      have properTighter : ∀ other ∈ tighter, other.Proper :=
        fun other inside => proper other (List.mem_cons_of_mem level inside)
      unfold Parser.operation
      apply bind_below (below.operation tighter before properTighter (by omega) closed (by omega))
      intro left between closedLeft less
      apply (below.operators level tighter left between proper (by omega) closedLeft
        (by omega)).mono
      omega

theorem operators_succ (below : ExpressionsEnd units) (level : Level) (tighter : List Level)
    (left : Expr) (before : ParseState) (proper : ∀ other ∈ level :: tighter, other.Proper)
    (few : tighter.length ≤ 5) (closed : before.Closed)
    (enough : 12 * before.ahead.length + 1 ≤ units + 1) :
    (Parser.operators (units + 1) level tighter left before).Below (before.ahead.length + 1) := by
  have properTighter : ∀ other ∈ tighter, other.Proper :=
    fun other inside => proper other (List.mem_cons_of_mem level inside)
  unfold Parser.operators
  apply accept_bind_below (proper level List.mem_cons_self) closed
  · exact pure_below _ closed (Nat.lt_succ_self _)
  · intro shorter
    apply bind_below (below.operation tighter before.skip properTighter (by omega) closed.skip
      (by omega))
    intro right between closedRight less
    apply (below.operators level tighter _ between proper few closedRight (by omega)).mono
    omega

theorem unary_succ (below : ExpressionsEnd units) (before : ParseState) (closed : before.Closed)
    (enough : 12 * before.ahead.length + 2 ≤ units + 1) :
    (Parser.unary (units + 1) before).Below before.ahead.length := by
  unfold Parser.unary
  apply accept_bind_below (by decide) closed
  · apply bind_below (below.primary before closed (by omega))
    intro callee between closedCallee less
    apply (below.calls callee between closedCallee (by omega)).mono
    omega
  · intro shorter
    apply bind_below (below.unary before.skip closed.skip (by omega))
    intro operand between closedOperand less
    exact pure_below _ closedOperand (by omega)

theorem calls_succ (below : ExpressionsEnd units) (callee : Expr) (before : ParseState)
    (closed : before.Closed) (enough : 12 * before.ahead.length + 1 ≤ units + 1) :
    (Parser.calls (units + 1) callee before).Below (before.ahead.length + 1) := by
  unfold Parser.calls
  apply accept_bind_below (by decide) closed
  · exact pure_below _ closed (Nat.lt_succ_self _)
  · intro shorter
    have closing : ∀ arguments between, between.Closed →
        between.ahead.length < before.skip.ahead.length + 1 →
        ((Rule.expect .argumentsClose >>= fun paren =>
          Parser.calls units (.call callee paren arguments)) between).Below
            (before.ahead.length + 1) := by
      intro arguments between closedBetween less
      apply bind_below (expect_below _ closedBetween)
      intro paren after closedAfter lessAfter
      apply (below.calls _ after closedAfter (by omega)).mono
      omega
    apply is_at_bind_below
    split
    · exact bind_below (pure_below _ closed.skip (Nat.lt_succ_self _)) closing
    · apply bind_below (below.arguments before.skip closed.skip (by omega))
      intro arguments between closedBetween less
      exact closing arguments between closedBetween (by omega)

theorem arguments_succ (below : ExpressionsEnd units) (before : ParseState)
    (closed : before.Closed) (enough : 12 * before.ahead.length + 11 ≤ units + 1) :
    (Parser.arguments (units + 1) before).Below before.ahead.length := by
  unfold Parser.arguments
  apply bind_below (below.assignment before closed (by omega))
  intro first between closedFirst less
  apply accept_bind_below (by decide) closedFirst
  · exact pure_below _ closedFirst less
  · intro shorter
    apply bind_below (below.arguments between.skip closedFirst.skip (by omega))
    intro rest after closedRest lessRest
    exact pure_below _ closedRest (by omega)

theorem inside_of_constant {before : ParseState} {value : Literal}
    (constant : before.current.constant? = some value) :
    before.current.kind ≠ .endOfInput := by
  intro ended
  simp [Token.constant?, ended] at constant

theorem primary_succ (below : ExpressionsEnd units) (before : ParseState) (closed : before.Closed)
    (enough : 12 * before.ahead.length + 1 ≤ units + 1) :
    (Parser.primary (units + 1) before).Below before.ahead.length := by
  unfold Parser.primary
  apply current_bind_below
  cases constant : before.current.constant? with
  | some value =>
      apply bind_below (take_below closed (inside_of_constant constant))
      exact fun _ between closedBetween less => pure_below _ closedBetween less
  | none =>
      cases kind : before.current.kind with
      | identifier =>
          apply bind_below (take_below closed (by rw [kind]; decide))
          exact fun _ between closedBetween less => pure_below _ closedBetween less
      | leftParen =>
          apply bind_below (take_below closed (by rw [kind]; decide))
          intro openParen between closedOpen less
          apply bind_below (below.assignment between closedOpen (by omega))
          intro inner after closedInner lessInner
          apply bind_below (expect_below _ closedInner)
          intro closeParen last closedLast lessLast
          exact pure_below _ closedLast (by omega)
      | _ => trivial

end ExpressionsEnd

theorem expressions_end (units : Nat) : ExpressionsEnd units := by
  induction units with
  | zero =>
      constructor
      all_goals intros
      all_goals omega
  | succ units below =>
      constructor
      · exact below.assignment_succ
      · exact below.operation_succ
      · exact below.operators_succ
      · exact below.unary_succ
      · exact below.calls_succ
      · exact below.arguments_succ
      · exact below.primary_succ

theorem expression_below {before : ParseState} (closed : before.Closed) :
    (expression before).Below before.ahead.length :=
  (expressions_end _).assignment before closed (by rw [supply_room, budget]; omega)

theorem variable_declaration_below {before : ParseState} (closed : before.Closed)
    (inside : before.current.kind ≠ .endOfInput) :
    (variableDeclaration before).Below before.ahead.length := by
  unfold variableDeclaration
  apply bind_below (take_below closed inside)
  intro _ behindWord closedWord lessWord
  apply bind_below (expect_below _ closedWord)
  intro name behindName closedName lessName
  have closing : ∀ initial between, between.Closed →
      between.ahead.length < behindName.ahead.length + 1 →
      ((Rule.expect .variableEnd >>= fun _ => pure (Stmt.declare name initial)) between).Below
        before.ahead.length := by
    intro initial between closedBetween less
    apply bind_below (expect_below _ closedBetween)
    exact fun _ after closedAfter lessAfter => pure_below _ closedAfter (by omega)
  apply accept_bind_below (by decide) closedName
  · exact bind_below (pure_below _ closedName (Nat.lt_succ_self _)) closing
  · intro shorter
    apply bind_below (map_below some (expression_below closedName.skip))
    intro initial between closedBetween less
    exact closing initial between closedBetween (by omega)

theorem expression_statement_below {before : ParseState} (closed : before.Closed) :
    (expressionStatement before).Below before.ahead.length := by
  unfold expressionStatement
  apply bind_below (expression_below closed)
  intro value between closedValue less
  apply bind_below (expect_below _ closedValue)
  exact fun _ after closedAfter lessAfter => pure_below _ closedAfter (by omega)

theorem print_statement_below {before : ParseState} (closed : before.Closed)
    (inside : before.current.kind ≠ .endOfInput) :
    (printStatement before).Below before.ahead.length := by
  unfold printStatement
  apply bind_below (take_below closed inside)
  intro keyword behindWord closedWord lessWord
  apply bind_below (expression_below closedWord)
  intro value between closedValue less
  apply bind_below (expect_below _ closedValue)
  exact fun _ after closedAfter lessAfter => pure_below _ closedAfter (by omega)

theorem optional_below {kind : Kind} {α : Type} {next : Option Expr → Rule ParseState α}
    {limit : Nat}
    {before : ParseState} (closed : before.Closed)
    (behind : ∀ found between, between.Closed → between.ahead.length < before.ahead.length + 1 →
      (next found between).Below limit) :
    ((Rule.isAt kind >>= fun absent =>
      if absent = true then pure none >>= next else (some <$> expression) >>= next)
        before).Below limit := by
  apply is_at_bind_below
  split
  · exact behind none before closed (Nat.lt_succ_self _)
  · apply bind_below (map_below some (expression_below closed))
    intro found between closedBetween less
    exact behind found between closedBetween (by omega)

theorem return_statement_below {before : ParseState} (closed : before.Closed)
    (inside : before.current.kind ≠ .endOfInput) :
    (returnStatement before).Below before.ahead.length := by
  unfold returnStatement
  apply bind_below (take_below closed inside)
  intro keyword behindWord closedWord lessWord
  apply optional_below closedWord
  intro value between closedValue less
  apply bind_below (expect_below _ closedValue)
  exact fun _ after closedAfter lessAfter => pure_below _ closedAfter (by omega)

theorem break_statement_below {before : ParseState} (closed : before.Closed)
    (inside : before.current.kind ≠ .endOfInput) :
    (breakStatement before).Below before.ahead.length := by
  unfold breakStatement
  apply bind_below (take_below closed inside)
  intro keyword behindWord closedWord lessWord
  apply bind_below (expect_below _ closedWord)
  exact fun _ after closedAfter lessAfter => pure_below _ closedAfter (by omega)

theorem for_initial_below {before : ParseState} (closed : before.Closed) :
    (forInitial before).Below before.ahead.length := by
  unfold forInitial
  apply current_bind_below
  cases kind : before.current.kind with
  | semicolon =>
      apply bind_below (take_below closed (by rw [kind]; decide))
      exact fun _ after closedAfter lessAfter => pure_below _ closedAfter lessAfter
  | varWord =>
      exact map_below some (variable_declaration_below closed (by rw [kind]; decide))
  | _ => exact map_below some (expression_statement_below closed)

theorem for_clauses_below {before : ParseState} (closed : before.Closed) :
    (forClauses before).Below before.ahead.length := by
  unfold forClauses
  apply bind_below (expect_below _ closed)
  intro _ behindOpen closedOpen lessOpen
  apply bind_below (for_initial_below closedOpen)
  intro initial behindInitial closedInitial lessInitial
  apply optional_below closedInitial
  intro condition behindCondition closedCondition lessCondition
  apply bind_below (expect_below _ closedCondition)
  intro _ behindDivider closedDivider lessDivider
  apply optional_below closedDivider
  intro increment behindIncrement closedIncrement lessIncrement
  apply bind_below (expect_below _ closedIncrement)
  exact fun _ after closedAfter lessAfter => pure_below _ closedAfter (by omega)

theorem parameters_below (units : Nat) {before : ParseState} (closed : before.Closed)
    (enough : before.ahead.length < units) :
    (parameters units before).Below before.ahead.length := by
  induction units generalizing before with
  | zero => omega
  | succ units ih =>
      unfold parameters
      apply bind_below (expect_below _ closed)
      intro name between closedName less
      apply accept_bind_below (by decide) closedName
      · exact pure_below _ closedName less
      · intro shorter
        apply bind_below (ih closedName.skip (by omega))
        exact fun _ after closedAfter lessAfter => pure_below _ closedAfter (by omega)

theorem function_head_below {before : ParseState} (closed : before.Closed)
    (inside : before.current.kind ≠ .endOfInput) :
    (functionHead before).Below before.ahead.length := by
  unfold functionHead
  apply bind_below (take_below closed inside)
  intro _ behindWord closedWord lessWord
  apply bind_below (expect_below _ closedWord)
  intro name behindName closedName lessName
  apply bind_below (expect_below _ closedName)
  intro _ behindOpen closedOpen lessOpen
  have closing : ∀ (names : List Token) (between : ParseState), between.Closed →
      between.ahead.length < behindOpen.ahead.length + 1 →
      ((do
        let _ ← Rule.expect .parametersClose
        let _ ← Rule.expect .bodyOpen
        pure (name, names) : Rule ParseState (Token × List Token)) between).Below
          before.ahead.length := by
    intro names between closedBetween less
    apply bind_below (expect_below _ closedBetween)
    intro _ behindClose closedClose lessClose
    apply bind_below (expect_below _ closedClose)
    exact fun _ after closedAfter lessAfter => pure_below _ closedAfter (by omega)
  apply is_at_bind_below
  split
  · exact bind_below (pure_below _ closedOpen (Nat.lt_succ_self _)) closing
  · have listed : (parameters (budget behindOpen.ahead.length) behindOpen).Below
        behindOpen.ahead.length := parameters_below _ closedOpen (by unfold budget; omega)
    apply bind_below
    · exact listed
    · intro names between closedBetween less
      exact closing names between closedBetween (by omega)

/-- Recovery skips at least one token, so a declaration gets shorter whether it fails or not. -/
theorem synchronized_length (tokens : List Token) (some : tokens ≠ []) :
    (synchronized tokens).length < tokens.length := by
  induction tokens with
  | nil => exact absurd rfl some
  | cons token rest ih =>
      unfold synchronized
      split
      · exact Nat.lt_succ_self _
      · split
        · exact Nat.succ_pos _
        · rename_i next others
          split
          · exact Nat.lt_succ_self _
          · exact Nat.lt_succ_of_lt (ih (List.cons_ne_nil next others))

theorem recover_below {rule : Rule ParseState Stmt} {before : ParseState} (closed : before.Closed)
    (ends : (rule before).Below before.ahead.length) (advances : rule.Advances)
    (inside : before.ahead ≠ []) : (recover rule before).Below before.ahead.length := by
  have moved := advances before
  cases ran : rule before with
  | done statement after =>
      rw [ran] at ends
      rw [recover_done ran]
      exact ends
  | failed error after =>
      rw [ran] at moved
      rw [recover_failed ran]
      have leads : before.Leads after := moved
      refine ⟨leads.closed closed, ?_⟩
      have shorter : after.ahead.length ≤ before.ahead.length := leads.ahead.length_le
      change (synchronized after.ahead).length < before.ahead.length
      by_cases ended : after.ahead = []
      · rw [ended]
        exact List.length_pos_iff.mpr inside
      · exact Nat.lt_of_lt_of_le (synchronized_length _ ended) shorter
  | exhausted =>
      rw [ran] at ends
      exact ends.elim

/-- With this budget the rules of statements end if it allows for twelve units a token. -/
structure StatementsEnd (units : Nat) : Prop where
  statement : ∀ before, before.Closed → 12 * before.ahead.length + 2 ≤ units →
    (statement units before).Below before.ahead.length
  forStatement : ∀ before, before.Closed → before.current.kind ≠ .endOfInput →
    12 * before.ahead.length + 1 ≤ units → (forStatement units before).Below before.ahead.length
  ifStatement : ∀ before, before.Closed → before.current.kind ≠ .endOfInput →
    12 * before.ahead.length + 1 ≤ units → (ifStatement units before).Below before.ahead.length
  whileStatement : ∀ before, before.Closed → before.current.kind ≠ .endOfInput →
    12 * before.ahead.length + 1 ≤ units → (whileStatement units before).Below before.ahead.length
  blockStatement : ∀ before, before.Closed → before.current.kind ≠ .endOfInput →
    12 * before.ahead.length + 1 ≤ units → (blockStatement units before).Below before.ahead.length
  functionStatement : ∀ before, before.Closed → before.current.kind ≠ .endOfInput →
    12 * before.ahead.length + 1 ≤ units →
    (functionStatement units before).Below before.ahead.length
  declarations : ∀ insideBlock before, before.Closed → 12 * before.ahead.length + 4 ≤ units →
    (declarations units insideBlock before).Below (before.ahead.length + 1)
  declaration : ∀ before, before.Closed → before.ahead ≠ [] →
    12 * before.ahead.length + 3 ≤ units → (declaration units before).Below before.ahead.length

namespace StatementsEnd

variable {units : Nat}

theorem statement_succ (below : StatementsEnd units) (before : ParseState)
    (closed : before.Closed) (enough : 12 * before.ahead.length + 2 ≤ units + 1) :
    (Parser.statement (units + 1) before).Below before.ahead.length := by
  unfold Parser.statement
  apply current_bind_below
  cases kind : before.current.kind with
  | forWord => exact below.forStatement before closed (by rw [kind]; decide) (by omega)
  | ifWord => exact below.ifStatement before closed (by rw [kind]; decide) (by omega)
  | printWord => exact print_statement_below closed (by rw [kind]; decide)
  | whileWord => exact below.whileStatement before closed (by rw [kind]; decide) (by omega)
  | leftBrace => exact below.blockStatement before closed (by rw [kind]; decide) (by omega)
  | funWord => exact below.functionStatement before closed (by rw [kind]; decide) (by omega)
  | returnWord => exact return_statement_below closed (by rw [kind]; decide)
  | breakWord => exact break_statement_below closed (by rw [kind]; decide)
  | classWord => trivial
  | _ => exact expression_statement_below closed

theorem for_statement_succ (below : StatementsEnd units) (before : ParseState)
    (closed : before.Closed) (inside : before.current.kind ≠ .endOfInput)
    (enough : 12 * before.ahead.length + 1 ≤ units + 1) :
    (Parser.forStatement (units + 1) before).Below before.ahead.length := by
  unfold Parser.forStatement
  apply bind_below (take_below closed inside)
  intro keyword behindWord closedWord lessWord
  apply bind_below (for_clauses_below closedWord)
  intro clauses behindClauses closedClauses lessClauses
  apply bind_below (below.statement behindClauses closedClauses (by omega))
  exact fun _ after closedAfter lessAfter => pure_below _ closedAfter (by omega)

theorem if_statement_succ (below : StatementsEnd units) (before : ParseState)
    (closed : before.Closed) (inside : before.current.kind ≠ .endOfInput)
    (enough : 12 * before.ahead.length + 1 ≤ units + 1) :
    (Parser.ifStatement (units + 1) before).Below before.ahead.length := by
  unfold Parser.ifStatement
  apply bind_below (take_below closed inside)
  intro keyword behindWord closedWord lessWord
  apply bind_below (expect_below _ closedWord)
  intro _ behindOpen closedOpen lessOpen
  apply bind_below (expression_below closedOpen)
  intro condition behindCondition closedCondition lessCondition
  apply bind_below (expect_below _ closedCondition)
  intro _ behindClose closedClose lessClose
  apply bind_below (below.statement behindClose closedClose (by omega))
  intro consequent behindFirst closedFirst lessFirst
  apply accept_bind_below (by decide) closedFirst
  · exact pure_below _ closedFirst (by omega)
  · intro shorter
    apply bind_below (below.statement behindFirst.skip closedFirst.skip (by omega))
    exact fun _ after closedAfter lessAfter => pure_below _ closedAfter (by omega)

theorem while_statement_succ (below : StatementsEnd units) (before : ParseState)
    (closed : before.Closed) (inside : before.current.kind ≠ .endOfInput)
    (enough : 12 * before.ahead.length + 1 ≤ units + 1) :
    (Parser.whileStatement (units + 1) before).Below before.ahead.length := by
  unfold Parser.whileStatement
  apply bind_below (take_below closed inside)
  intro keyword behindWord closedWord lessWord
  apply bind_below (expect_below _ closedWord)
  intro _ behindOpen closedOpen lessOpen
  apply bind_below (expression_below closedOpen)
  intro condition behindCondition closedCondition lessCondition
  apply bind_below (expect_below _ closedCondition)
  intro _ behindClose closedClose lessClose
  apply bind_below (below.statement behindClose closedClose (by omega))
  exact fun _ after closedAfter lessAfter => pure_below _ closedAfter (by omega)

theorem block_statement_succ (below : StatementsEnd units) (before : ParseState)
    (closed : before.Closed) (inside : before.current.kind ≠ .endOfInput)
    (enough : 12 * before.ahead.length + 1 ≤ units + 1) :
    (Parser.blockStatement (units + 1) before).Below before.ahead.length := by
  unfold Parser.blockStatement
  apply bind_below (take_below closed inside)
  intro openBrace behindOpen closedOpen lessOpen
  apply bind_below (below.declarations true behindOpen closedOpen (by omega))
  intro body behindBody closedBody lessBody
  apply bind_below (expect_below _ closedBody)
  exact fun _ after closedAfter lessAfter => pure_below _ closedAfter (by omega)

theorem function_statement_succ (below : StatementsEnd units) (before : ParseState)
    (closed : before.Closed) (inside : before.current.kind ≠ .endOfInput)
    (enough : 12 * before.ahead.length + 1 ≤ units + 1) :
    (Parser.functionStatement (units + 1) before).Below before.ahead.length := by
  unfold Parser.functionStatement
  apply bind_below (function_head_below closed inside)
  intro head behindHead closedHead lessHead
  apply bind_below (below.declarations true behindHead closedHead (by omega))
  intro body behindBody closedBody lessBody
  apply bind_below (expect_below _ closedBody)
  exact fun _ after closedAfter lessAfter => pure_below _ closedAfter (by omega)

theorem declarations_succ (below : StatementsEnd units) (insideBlock : Bool)
    (before : ParseState) (closed : before.Closed)
    (enough : 12 * before.ahead.length + 4 ≤ units + 1) :
    (Parser.declarations (units + 1) insideBlock before).Below (before.ahead.length + 1) := by
  unfold Parser.declarations
  apply is_at_bind_below
  rw [bind_of_done (at_end_done.mpr ⟨rfl, rfl⟩)]
  split
  · exact pure_below _ closed (Nat.lt_succ_self _)
  · rename_i going
    have inside : before.ahead ≠ [] := by
      intro ended
      simp [ended] at going
    apply bind_below (below.declaration before closed inside (by omega))
    intro first between closedFirst lessFirst
    apply bind_below (below.declarations insideBlock between closedFirst (by omega))
    exact fun _ after closedAfter lessAfter => pure_below _ closedAfter (by omega)

theorem declaration_succ (below : StatementsEnd units) (before : ParseState)
    (closed : before.Closed) (inside : before.ahead ≠ [])
    (enough : 12 * before.ahead.length + 3 ≤ units + 1) :
    (Parser.declaration (units + 1) before).Below before.ahead.length := by
  unfold Parser.declaration
  apply current_bind_below
  by_cases word : before.current.kind = .varWord
  · rw [if_pos word]
    exact recover_below closed (variable_declaration_below closed (by rw [word]; decide))
      variable_declaration_advances inside
  · rw [if_neg word]
    exact recover_below closed (below.statement before closed (by omega))
      (statements_advance units).statement inside

end StatementsEnd

theorem statements_end (units : Nat) : StatementsEnd units := by
  induction units with
  | zero =>
      constructor
      all_goals intros
      all_goals omega
  | succ units below =>
      constructor
      · exact below.statement_succ
      · exact below.for_statement_succ
      · exact below.if_statement_succ
      · exact below.while_statement_succ
      · exact below.block_statement_succ
      · exact below.function_statement_succ
      · exact below.declarations_succ
      · exact below.declaration_succ

theorem recover_not_failed (rule : Rule ParseState Stmt) (before : ParseState) (error : SyntaxError)
    (after : ParseState) : recover rule before ≠ .failed error after := by
  unfold recover
  cases rule before with
  | done statement between => exact nofun
  | failed found between => exact nofun
  | exhausted => exact nofun

theorem declaration_not_failed (units : Nat) (before : ParseState) (error : SyntaxError)
    (after : ParseState) : declaration units before ≠ .failed error after := by
  cases units with
  | zero => exact nofun
  | succ units => exact recover_not_failed _ before error after

theorem declarations_not_failed (units : Nat) (insideBlock : Bool) (before : ParseState)
    (error : SyntaxError) (after : ParseState) :
    declarations units insideBlock before ≠ .failed error after := by
  induction units generalizing before with
  | zero => exact nofun
  | succ units ih =>
      intro failed
      unfold declarations at failed
      rw [bind_of_done (is_at_eq _ _), bind_of_done (at_end_done.mpr ⟨rfl, rfl⟩)] at failed
      split at failed
      · cases failed
      · rcases bind_failed.mp failed with first | ⟨found, between, -, failed⟩
        · exact declaration_not_failed units before error after first
        · rcases bind_failed.mp failed with rest | ⟨others, last, -, failed⟩
          · exact ih between rest
          · cases failed

theorem declarations_ahead {units : Nat} {before after : ParseState} {trees : List Stmt}
    (done : declarations units false before = .done trees after) : after.ahead = [] := by
  induction units generalizing before trees with
  | zero => cases done
  | succ units ih =>
      unfold declarations at done
      obtain ⟨_, _, looked, done⟩ := bind_done.mp done
      obtain ⟨rfl, rfl⟩ := is_at_done.mp looked
      obtain ⟨_, _, looked, done⟩ := bind_done.mp done
      obtain ⟨rfl, rfl⟩ := at_end_done.mp looked
      split at done
      · rename_i ended
        obtain ⟨rfl, rfl⟩ := pure_done.mp done
        simpa using ended
      · obtain ⟨found, between, _, done⟩ := bind_done.mp done
        obtain ⟨rest, _, parsedRest, done⟩ := bind_done.mp done
        obtain ⟨rfl, rfl⟩ := pure_done.mp done
        exact ih parsedRest

theorem program_done {before : ParseState} (closed : before.Closed) :
    ∃ trees after, program before = .done trees after := by
  have ends : (program before).Below (before.ahead.length + 1) :=
    (statements_end _).declarations false before closed (by rw [supply_room, budget]; omega)
  cases ran : program before with
  | done trees after => exact ⟨trees, after, rfl⟩
  | failed error after => exact absurd ran (declarations_not_failed _ _ _ _ _)
  | exhausted =>
      rw [ran] at ends
      exact ends.elim

end Parser

end Treewalk
