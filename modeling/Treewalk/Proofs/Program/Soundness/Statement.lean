import Treewalk.Proofs.Program.Soundness.Expression

/-!
# Accepted statements are derivable

As for expressions, with one fact more carried along: a statement that still waits for an `else` is
not followed by one, since the parser would have taken it.
-/

namespace Treewalk

set_option autoImplicit false

open Grammar

namespace Parser

open Rule ParseState ParseState

/-- The shape of a rule with an optional expression, which is absent in front of one kind. -/
theorem optional_done {α : Type} {kind : Kind} {next : Option Expr → Rule ParseState α}
    {before after : ParseState} {value : α}
    (done : (Rule.isAt kind >>= fun absent =>
      if absent = true then pure none >>= next else (some <$> expression) >>= next) before =
        .done value after) :
    ∃ found between, next found between = .done value after ∧ before.Leads between ∧
      (before.Closed → between.recorded = [] →
        ∃ tokens, before.ahead = tokens ++ between.ahead ∧ Optional found tokens) := by
  obtain ⟨absent, _, looked, done⟩ := bind_done.mp done
  obtain ⟨rfl, rfl⟩ := is_at_done.mp looked
  split at done
  · obtain ⟨found, between, ran, done⟩ := bind_done.mp done
    obtain ⟨rfl, rfl⟩ := pure_done.mp ran
    exact ⟨none, before, done, leads_refl before, fun _ _ => ⟨[], rfl, .absent⟩⟩
  · obtain ⟨found, _, ran, done⟩ := bind_done.mp done
    rw [map_eq] at ran
    obtain ⟨tree, between, parsed, ran⟩ := bind_done.mp ran
    obtain ⟨rfl, rfl⟩ := pure_done.mp ran
    refine ⟨some tree, between, done, expression_advances.leads parsed, ?_⟩
    intro closed clean
    obtain ⟨tokens, ahead, derived⟩ := expression_sound _ _ _ closed parsed clean
    exact ⟨tokens, ahead, .present derived⟩

theorem variable_declaration_sound {before after : ParseState} {tree : Stmt}
    (closed : before.Closed) (word : before.current.kind = .varWord)
    (done : variableDeclaration before = .done tree after) (clean : after.recorded = []) :
    ∃ tokens, before.ahead = tokens ++ after.ahead ∧ VariableDeclaration tree tokens := by
  unfold variableDeclaration at done
  obtain ⟨_, _, taken, done⟩ := bind_done.mp done
  obtain ⟨rfl, rfl⟩ := take_done.mp taken
  obtain ⟨name, _, nameTaken, done⟩ := bind_done.mp done
  obtain ⟨named, rfl, rfl⟩ := expect_done.mp nameTaken
  obtain ⟨equals, _, equalsTaken, done⟩ := bind_done.mp done
  have wordAhead := ahead_of_kind closed word (by decide)
  have nameAhead := ahead_of_kind closed.skip named (by decide)
  cases equals with
  | none =>
      obtain ⟨-, rfl⟩ := accept_none.mp equalsTaken
      obtain ⟨_, _, none, done⟩ := bind_done.mp done
      obtain ⟨rfl, rfl⟩ := pure_done.mp none
      obtain ⟨_, _, endTaken, done⟩ := bind_done.mp done
      obtain ⟨ended, rfl, rfl⟩ := expect_done.mp endTaken
      obtain ⟨rfl, rfl⟩ := pure_done.mp done
      refine ⟨[before.current, before.skip.current, before.skip.skip.current], ?_,
        .bare word named ended⟩
      rw [wordAhead, nameAhead, ahead_of_kind closed.skip.skip ended (by decide)]
      rfl
  | some equals =>
      obtain ⟨sign, rfl, rfl⟩ := accept_some.mp equalsTaken
      have sign : before.skip.skip.current.kind = .equal := by simpa using sign
      obtain ⟨_, _, ran, done⟩ := bind_done.mp done
      rw [map_eq] at ran
      obtain ⟨value, between, parsedValue, ran⟩ := bind_done.mp ran
      obtain ⟨rfl, rfl⟩ := pure_done.mp ran
      obtain ⟨_, _, endTaken, done⟩ := bind_done.mp done
      obtain ⟨ended, rfl, rfl⟩ := expect_done.mp endTaken
      obtain ⟨rfl, rfl⟩ := pure_done.mp done
      have closedSign := closed.skip.skip.skip
      have closedValue := (expression_advances.leads parsedValue).closed closedSign
      obtain ⟨inside, insideAhead, derived⟩ := expression_sound _ _ _ closedSign parsedValue clean
      refine ⟨before.current :: before.skip.current :: before.skip.skip.current ::
        (inside ++ [between.current]), ?_, .initialized word named sign derived ended⟩
      rw [wordAhead, nameAhead, ahead_of_kind closed.skip.skip sign (by decide), insideAhead,
        ahead_of_kind closedValue ended (by decide)]
      simp

theorem expression_statement_sound :
    expressionStatement.Yields ExpressionStatement := by
  intro before tree after closed done clean
  unfold expressionStatement at done
  obtain ⟨value, between, parsed, done⟩ := bind_done.mp done
  obtain ⟨_, _, endTaken, done⟩ := bind_done.mp done
  obtain ⟨ended, rfl, rfl⟩ := expect_done.mp endTaken
  obtain ⟨rfl, rfl⟩ := pure_done.mp done
  have closedBetween := (expression_advances.leads parsed).closed closed
  obtain ⟨tokens, ahead, derived⟩ := expression_sound _ _ _ closed parsed clean
  refine ⟨tokens ++ [between.current], ?_, .intro derived ended⟩
  rw [ahead, ahead_of_kind closedBetween ended (by decide)]
  simp

/-- A statement has been read; if it still waits for an `else`, none follows. -/
def Reads (before : ParseState) (tree : Stmt) (after : ParseState) : Prop :=
  ∃ waiting tokens, before.ahead = tokens ++ after.ahead ∧
    Forms (.statement waiting tree) tokens ∧
    (waiting = true → after.current.kind ≠ .elseWord)

def ReadsFrom (kind : Kind) (rule : Rule ParseState Stmt) : Prop :=
  ∀ before tree after, before.Closed → before.current.kind = kind →
    rule before = .done tree after → after.recorded = [] → Reads before tree after

theorem reads_of_settled {before after : ParseState} {tree : Stmt} {tokens : List Token}
    (ahead : before.ahead = tokens ++ after.ahead) (formed : Forms (.statement false tree) tokens) :
    Reads before tree after :=
  ⟨false, tokens, ahead, formed, fun waits => by cases waits⟩

theorem exhausted_reads_from (kind : Kind) : ReadsFrom kind Rule.exhausted := by
  intro before tree after closed found done clean
  cases done

theorem print_statement_sound : ReadsFrom .printWord printStatement := by
  intro before tree after closed word done clean
  unfold printStatement at done
  obtain ⟨_, _, taken, done⟩ := bind_done.mp done
  obtain ⟨rfl, rfl⟩ := take_done.mp taken
  obtain ⟨value, between, parsed, done⟩ := bind_done.mp done
  obtain ⟨_, _, endTaken, done⟩ := bind_done.mp done
  obtain ⟨ended, rfl, rfl⟩ := expect_done.mp endTaken
  obtain ⟨rfl, rfl⟩ := pure_done.mp done
  have closedBetween := (expression_advances.leads parsed).closed closed.skip
  obtain ⟨inside, insideAhead, derived⟩ := expression_sound _ _ _ closed.skip parsed clean
  apply reads_of_settled _ (.print word derived ended)
  rw [ahead_of_kind closed word (by decide), insideAhead,
    ahead_of_kind closedBetween ended (by decide)]
  simp

theorem return_statement_sound : ReadsFrom .returnWord returnStatement := by
  intro before tree after closed word done clean
  unfold returnStatement at done
  obtain ⟨_, _, taken, done⟩ := bind_done.mp done
  obtain ⟨rfl, rfl⟩ := take_done.mp taken
  obtain ⟨value, between, done, toValue, readValue⟩ := optional_done done
  obtain ⟨_, _, endTaken, done⟩ := bind_done.mp done
  obtain ⟨ended, rfl, rfl⟩ := expect_done.mp endTaken
  obtain ⟨rfl, rfl⟩ := pure_done.mp done
  obtain ⟨inside, insideAhead, derived⟩ := readValue closed.skip clean
  apply reads_of_settled _ (.returnValue word derived ended)
  rw [ahead_of_kind closed word (by decide), insideAhead,
    ahead_of_kind (toValue.closed closed.skip) ended (by decide)]
  simp

theorem break_statement_sound : ReadsFrom .breakWord breakStatement := by
  intro before tree after closed word done clean
  unfold breakStatement at done
  obtain ⟨_, _, taken, done⟩ := bind_done.mp done
  obtain ⟨rfl, rfl⟩ := take_done.mp taken
  obtain ⟨_, _, endTaken, done⟩ := bind_done.mp done
  obtain ⟨ended, rfl, rfl⟩ := expect_done.mp endTaken
  obtain ⟨rfl, rfl⟩ := pure_done.mp done
  apply reads_of_settled _ (.breakLoop word ended)
  rw [ahead_of_kind closed word (by decide), ahead_of_kind closed.skip ended (by decide)]
  rfl

theorem for_initial_sound : forInitial.Yields Initial := by
  intro before initial after closed done clean
  unfold forInitial at done
  obtain ⟨_, _, looked, done⟩ := bind_done.mp done
  obtain ⟨rfl, rfl⟩ := current_done.mp looked
  cases kind : before.current.kind with
  | semicolon =>
      rw [kind] at done
      obtain ⟨_, _, taken, done⟩ := bind_done.mp done
      obtain ⟨rfl, rfl⟩ := take_done.mp taken
      obtain ⟨rfl, rfl⟩ := pure_done.mp done
      exact ⟨[before.current], ahead_of_kind closed kind (by decide), .absent kind⟩
  | varWord =>
      rw [kind] at done
      obtain ⟨tree, _, parsed, done⟩ := bind_done.mp done
      obtain ⟨rfl, rfl⟩ := pure_done.mp done
      obtain ⟨tokens, ahead, declared⟩ := variable_declaration_sound closed kind parsed clean
      exact ⟨tokens, ahead, .declared declared⟩
  | _ =>
      rw [kind] at done
      obtain ⟨tree, _, parsed, done⟩ := bind_done.mp done
      obtain ⟨rfl, rfl⟩ := pure_done.mp done
      obtain ⟨tokens, ahead, formed⟩ := expression_statement_sound _ _ _ closed parsed clean
      exact ⟨tokens, ahead, .expression formed⟩

theorem for_loop_eq (keyword : Token) (initial : Option Stmt) (condition increment : Option Expr)
    (body : Stmt) :
    forLoop keyword initial condition increment body =
      whileForm keyword initial condition increment body := by
  cases initial <;> cases condition <;> cases increment <;> rfl

inductive ForClauses : Option Stmt × Option Expr × Option Expr → List Token → Prop where
  | intro {openParen semicolon closeParen : Token} {initial : Option Stmt}
      {condition increment : Option Expr} {begun asked advanced : List Token}
      (opened : openParen.kind = .leftParen) (start : Initial initial begun)
      (test : Optional condition asked) (divided : semicolon.kind = .semicolon)
      (step : Optional increment advanced) (closed : closeParen.kind = .rightParen) :
      ForClauses (initial, condition, increment)
        (openParen :: (begun ++ (asked ++ semicolon :: (advanced ++ [closeParen]))))

theorem for_clauses_sound : forClauses.Yields ForClauses := by
  intro before clauses after closed done clean
  unfold forClauses at done
  obtain ⟨_, _, openTaken, done⟩ := bind_done.mp done
  obtain ⟨opened, rfl, rfl⟩ := expect_done.mp openTaken
  obtain ⟨initial, behindInitial, parsedInitial, done⟩ := bind_done.mp done
  obtain ⟨condition, behindCondition, done, toCondition, readCondition⟩ := optional_done done
  obtain ⟨_, _, dividerTaken, done⟩ := bind_done.mp done
  obtain ⟨divided, rfl, rfl⟩ := expect_done.mp dividerTaken
  obtain ⟨increment, behindIncrement, done, toIncrement, readIncrement⟩ := optional_done done
  obtain ⟨_, _, closeTaken, done⟩ := bind_done.mp done
  obtain ⟨closeSign, rfl, rfl⟩ := expect_done.mp closeTaken
  obtain ⟨rfl, rfl⟩ := pure_done.mp done
  have closedInitial := (for_initial_advances.leads parsedInitial).closed closed.skip
  have closedCondition := toCondition.closed closedInitial
  have closedIncrement := toIncrement.closed closedCondition.skip
  have cleanCondition : behindCondition.recorded = [] := toIncrement.clean clean
  obtain ⟨begun, begunAhead, start⟩ :=
    for_initial_sound _ _ _ closed.skip parsedInitial (toCondition.clean cleanCondition)
  obtain ⟨asked, askedAhead, test⟩ := readCondition closedInitial cleanCondition
  obtain ⟨advanced, advancedAhead, step⟩ := readIncrement closedCondition.skip clean
  refine ⟨_, ?_, .intro opened start test divided step closeSign⟩
  rw [ahead_of_kind closed opened (by decide), begunAhead, askedAhead,
    ahead_of_kind closedCondition divided (by decide), advancedAhead,
    ahead_of_kind closedIncrement closeSign (by decide)]
  simp

theorem parameters_sound (units : Nat) : (parameters units).Yields Names := by
  induction units with
  | zero =>
      intro before names after closed done clean
      cases done
  | succ units ih =>
      intro before names after closed done clean
      unfold parameters at done
      obtain ⟨_, _, nameTaken, done⟩ := bind_done.mp done
      obtain ⟨word, rfl, rfl⟩ := expect_done.mp nameTaken
      obtain ⟨comma, _, commaTaken, done⟩ := bind_done.mp done
      have nameAhead := ahead_of_kind closed word (by decide)
      cases comma with
      | none =>
          obtain ⟨-, rfl⟩ := accept_none.mp commaTaken
          obtain ⟨rfl, rfl⟩ := pure_done.mp done
          exact ⟨[before.current], nameAhead, .last word⟩
      | some comma =>
          obtain ⟨sign, rfl, rfl⟩ := accept_some.mp commaTaken
          have sign : before.skip.current.kind = .comma := by simpa using sign
          obtain ⟨rest, between, parsedRest, done⟩ := bind_done.mp done
          obtain ⟨rfl, rfl⟩ := pure_done.mp done
          obtain ⟨others, othersAhead, listed⟩ := ih _ _ _ closed.skip.skip parsedRest clean
          refine ⟨before.current :: before.skip.current :: others, ?_, .more word sign listed⟩
          rw [nameAhead, ahead_of_kind closed.skip sign (by decide), othersAhead]
          rfl

/-- The head of a function, from its keyword to the opening brace of its body. -/
inductive FunctionHead : Token × List Token → List Token → Prop where
  | intro {keyword name openParen closeParen openBrace : Token} {parameters listed : List Token}
      (word : keyword.kind = .funWord) (named : name.kind = .identifier)
      (opened : openParen.kind = .leftParen) (head : Parameters parameters listed)
      (closed : closeParen.kind = .rightParen) (begun : openBrace.kind = .leftBrace) :
      FunctionHead (name, parameters)
        (keyword :: name :: openParen :: (listed ++ [closeParen, openBrace]))

theorem function_head_sound {before after : ParseState} {head : Token × List Token}
    (closed : before.Closed) (word : before.current.kind = .funWord)
    (done : functionHead before = .done head after) (clean : after.recorded = []) :
    ∃ tokens, before.ahead = tokens ++ after.ahead ∧ FunctionHead head tokens := by
  unfold functionHead at done
  obtain ⟨_, _, taken, done⟩ := bind_done.mp done
  obtain ⟨rfl, rfl⟩ := take_done.mp taken
  obtain ⟨_, _, nameTaken, done⟩ := bind_done.mp done
  obtain ⟨named, rfl, rfl⟩ := expect_done.mp nameTaken
  obtain ⟨_, _, openTaken, done⟩ := bind_done.mp done
  obtain ⟨opened, rfl, rfl⟩ := expect_done.mp openTaken
  obtain ⟨empty, _, looked, done⟩ := bind_done.mp done
  obtain ⟨rfl, rfl⟩ := is_at_done.mp looked
  have closedOpen := closed.skip.skip.skip
  -- Both ways to the closing parenthesis read a list of parameters.
  have listedHead : ∃ names between,
      (do
        let _ ← Rule.expect .parametersClose
        let _ ← Rule.expect .bodyOpen
        pure (before.skip.current, names)) between = .done head after ∧ between.Closed ∧
      (between.recorded = [] → ∃ listed,
        before.skip.skip.skip.ahead = listed ++ between.ahead ∧ Parameters names listed) := by
    split at done
    · obtain ⟨_, _, none, done⟩ := bind_done.mp done
      obtain ⟨rfl, rfl⟩ := pure_done.mp none
      exact ⟨[], _, done, closedOpen, fun _ => ⟨[], rfl, .none⟩⟩
    · obtain ⟨names, between, parsed, done⟩ := bind_done.mp done
      have toNames := (parameters_advances _).leads parsed
      refine ⟨names, between, done, toNames.closed closedOpen, ?_⟩
      intro cleanNames
      obtain ⟨listed, ahead, named⟩ := parameters_sound _ _ _ _ closedOpen parsed cleanNames
      exact ⟨listed, ahead, .some named⟩
  obtain ⟨names, between, done, closedNames, readNames⟩ := listedHead
  obtain ⟨_, _, closeTaken, done⟩ := bind_done.mp done
  obtain ⟨closeSign, rfl, rfl⟩ := expect_done.mp closeTaken
  obtain ⟨_, _, braceTaken, done⟩ := bind_done.mp done
  obtain ⟨begun, rfl, rfl⟩ := expect_done.mp braceTaken
  obtain ⟨rfl, rfl⟩ := pure_done.mp done
  obtain ⟨listed, listedAhead, parameters⟩ := readNames clean
  refine ⟨_, ?_, .intro word named opened parameters closeSign begun⟩
  rw [ahead_of_kind closed word (by decide), ahead_of_kind closed.skip named (by decide),
    ahead_of_kind closed.skip.skip opened (by decide), listedAhead,
    ahead_of_kind closedNames closeSign (by decide),
    ahead_of_kind closedNames.skip begun (by decide)]
  simp

structure StatementsSound (units : Nat) : Prop where
  statement : ∀ before tree after, before.Closed →
    Parser.statement units before = .done tree after → after.recorded = [] →
    Reads before tree after
  forStatement : ReadsFrom .forWord (Parser.forStatement units)
  ifStatement : ReadsFrom .ifWord (Parser.ifStatement units)
  whileStatement : ReadsFrom .whileWord (Parser.whileStatement units)
  blockStatement : ReadsFrom .leftBrace (Parser.blockStatement units)
  functionStatement : ReadsFrom .funWord (Parser.functionStatement units)
  declarations : ∀ insideBlock, (Parser.declarations units insideBlock).Yields
    fun trees => Forms (.declarations trees)
  declaration : (Parser.declaration units).Yields
    fun found tokens => ∃ tree, found = some tree ∧ Forms (.declaration tree) tokens

namespace StatementsSound

variable {units : Nat}

theorem statement_succ (below : StatementsSound units) (before : ParseState) (tree : Stmt)
    (after : ParseState) (closed : before.Closed)
    (done : Parser.statement (units + 1) before = .done tree after)
    (clean : after.recorded = []) : Reads before tree after := by
  unfold Parser.statement at done
  obtain ⟨_, _, looked, done⟩ := bind_done.mp done
  obtain ⟨rfl, rfl⟩ := current_done.mp looked
  cases kind : before.current.kind with
  | forWord =>
      rw [kind] at done
      exact below.forStatement _ _ _ closed kind done clean
  | ifWord =>
      rw [kind] at done
      exact below.ifStatement _ _ _ closed kind done clean
  | printWord =>
      rw [kind] at done
      exact print_statement_sound _ _ _ closed kind done clean
  | whileWord =>
      rw [kind] at done
      exact below.whileStatement _ _ _ closed kind done clean
  | leftBrace =>
      rw [kind] at done
      exact below.blockStatement _ _ _ closed kind done clean
  | funWord =>
      rw [kind] at done
      exact below.functionStatement _ _ _ closed kind done clean
  | returnWord =>
      rw [kind] at done
      exact return_statement_sound _ _ _ closed kind done clean
  | breakWord =>
      rw [kind] at done
      exact break_statement_sound _ _ _ closed kind done clean
  | classWord =>
      rw [kind] at done
      exact (fail_done.mp done).elim
  | _ =>
      rw [kind] at done
      obtain ⟨tokens, ahead, formed⟩ := expression_statement_sound _ _ _ closed done clean
      exact reads_of_settled ahead (.expression formed)

theorem for_statement_succ (below : StatementsSound units) :
    ReadsFrom .forWord (Parser.forStatement (units + 1)) := by
  intro before tree after closed word done clean
  unfold Parser.forStatement at done
  obtain ⟨_, _, taken, done⟩ := bind_done.mp done
  obtain ⟨rfl, rfl⟩ := take_done.mp taken
  obtain ⟨⟨initial, condition, increment⟩, between, parsedClauses, done⟩ := bind_done.mp done
  obtain ⟨body, _, parsedBody, done⟩ := bind_done.mp done
  obtain ⟨rfl, rfl⟩ := pure_done.mp done
  have closedBetween := (for_clauses_advances.leads parsedClauses).closed closed.skip
  have toBody := (statements_advance units).statement.leads parsedBody
  obtain ⟨clauses, clausesAhead, formedClauses⟩ :=
    for_clauses_sound _ _ _ closed.skip parsedClauses (toBody.clean clean)
  obtain ⟨waiting, repeated, repeatedAhead, formedBody, settled⟩ :=
    below.statement _ _ _ closedBetween parsedBody clean
  cases formedClauses with
  | intro opened start test divided step closeSign =>
      have formed := Forms.forLoop word opened start test divided step closeSign formedBody
      rw [← for_loop_eq] at formed
      refine ⟨waiting, _, ?_, formed, settled⟩
      rw [ahead_of_kind closed word (by decide), clausesAhead, repeatedAhead]
      simp

/-- The parser takes an `else` that follows, so what it leaves without one is not followed by it. -/
theorem if_statement_succ (below : StatementsSound units) :
    ReadsFrom .ifWord (Parser.ifStatement (units + 1)) := by
  intro before tree after closed word done clean
  unfold Parser.ifStatement at done
  obtain ⟨_, _, taken, done⟩ := bind_done.mp done
  obtain ⟨rfl, rfl⟩ := take_done.mp taken
  obtain ⟨_, _, openTaken, done⟩ := bind_done.mp done
  obtain ⟨opened, rfl, rfl⟩ := expect_done.mp openTaken
  obtain ⟨condition, behindCondition, parsedCondition, done⟩ := bind_done.mp done
  obtain ⟨_, _, closeTaken, done⟩ := bind_done.mp done
  obtain ⟨closeSign, rfl, rfl⟩ := expect_done.mp closeTaken
  obtain ⟨consequent, behindFirst, parsedFirst, done⟩ := bind_done.mp done
  obtain ⟨elseWord, _, elseTaken, done⟩ := bind_done.mp done
  have closedCondition :=
    (expression_advances.leads parsedCondition).closed closed.skip.skip
  have toFirst := (statements_advance units).statement.leads parsedFirst
  have closedFirst := toFirst.closed closedCondition.skip
  have headAhead : behindFirst.recorded = [] → ∃ asked,
      before.ahead = before.current :: before.skip.current ::
        (asked ++ behindCondition.current :: behindCondition.skip.ahead) ∧
      Derives (.expression condition) asked := by
    intro cleanFirst
    obtain ⟨asked, askedAhead, test⟩ :=
      expression_sound _ _ _ closed.skip.skip parsedCondition (toFirst.clean cleanFirst)
    refine ⟨asked, ?_, test⟩
    rw [ahead_of_kind closed word (by decide), ahead_of_kind closed.skip opened (by decide),
      askedAhead, ahead_of_kind closedCondition closeSign (by decide)]
  cases elseWord with
  | none =>
      obtain ⟨missing, rfl⟩ := accept_none.mp elseTaken
      obtain ⟨rfl, rfl⟩ := pure_done.mp done
      obtain ⟨asked, ahead, test⟩ := headAhead clean
      obtain ⟨waiting, first, firstAhead, formedFirst, -⟩ :=
        below.statement _ _ _ closedCondition.skip parsedFirst clean
      refine ⟨true, _, ?_, .ifThen word opened test closeSign formedFirst, ?_⟩
      · rw [ahead, firstAhead]
        simp
      · intro _
        simpa using missing
  | some elseWord =>
      obtain ⟨sign, rfl, rfl⟩ := accept_some.mp elseTaken
      have divided : behindFirst.current.kind = .elseWord := by simpa using sign
      obtain ⟨alternative, behindSecond, parsedSecond, done⟩ := bind_done.mp done
      obtain ⟨rfl, rfl⟩ := pure_done.mp done
      have toSecond := (statements_advance units).statement.leads parsedSecond
      have cleanFirst : behindFirst.recorded = [] := toSecond.clean clean
      obtain ⟨asked, ahead, test⟩ := headAhead cleanFirst
      obtain ⟨waiting, first, firstAhead, formedFirst, settledFirst⟩ :=
        below.statement _ _ _ closedCondition.skip parsedFirst cleanFirst
      obtain ⟨waitingSecond, second, secondAhead, formedSecond, settledSecond⟩ :=
        below.statement _ _ _ closedFirst.skip parsedSecond clean
      have settled : waiting = false := by
        cases waiting with
        | false => rfl
        | true => exact absurd divided (settledFirst rfl)
      subst settled
      refine ⟨waitingSecond, _, ?_,
        .ifElse word opened test closeSign formedFirst divided formedSecond, settledSecond⟩
      rw [ahead, firstAhead, ahead_of_kind closedFirst divided (by decide), secondAhead]
      simp

theorem while_statement_succ (below : StatementsSound units) :
    ReadsFrom .whileWord (Parser.whileStatement (units + 1)) := by
  intro before tree after closed word done clean
  unfold Parser.whileStatement at done
  obtain ⟨_, _, taken, done⟩ := bind_done.mp done
  obtain ⟨rfl, rfl⟩ := take_done.mp taken
  obtain ⟨_, _, openTaken, done⟩ := bind_done.mp done
  obtain ⟨opened, rfl, rfl⟩ := expect_done.mp openTaken
  obtain ⟨condition, behindCondition, parsedCondition, done⟩ := bind_done.mp done
  obtain ⟨_, _, closeTaken, done⟩ := bind_done.mp done
  obtain ⟨closeSign, rfl, rfl⟩ := expect_done.mp closeTaken
  obtain ⟨body, _, parsedBody, done⟩ := bind_done.mp done
  obtain ⟨rfl, rfl⟩ := pure_done.mp done
  have closedCondition :=
    (expression_advances.leads parsedCondition).closed closed.skip.skip
  have toBody := (statements_advance units).statement.leads parsedBody
  obtain ⟨asked, askedAhead, test⟩ :=
    expression_sound _ _ _ closed.skip.skip parsedCondition (toBody.clean clean)
  obtain ⟨waiting, repeated, repeatedAhead, formedBody, settled⟩ :=
    below.statement _ _ _ closedCondition.skip parsedBody clean
  refine ⟨waiting, _, ?_, .whileLoop word opened test closeSign formedBody, settled⟩
  rw [ahead_of_kind closed word (by decide), ahead_of_kind closed.skip opened (by decide),
    askedAhead, ahead_of_kind closedCondition closeSign (by decide), repeatedAhead]
  simp

theorem block_statement_succ (below : StatementsSound units) :
    ReadsFrom .leftBrace (Parser.blockStatement (units + 1)) := by
  intro before tree after closed opened done clean
  unfold Parser.blockStatement at done
  obtain ⟨_, _, taken, done⟩ := bind_done.mp done
  obtain ⟨rfl, rfl⟩ := take_done.mp taken
  obtain ⟨body, between, parsedBody, done⟩ := bind_done.mp done
  obtain ⟨_, _, closeTaken, done⟩ := bind_done.mp done
  obtain ⟨closeSign, rfl, rfl⟩ := expect_done.mp closeTaken
  obtain ⟨rfl, rfl⟩ := pure_done.mp done
  have closedBetween :=
    (((statements_advance units).declarations _).leads parsedBody).closed closed.skip
  obtain ⟨inside, insideAhead, formed⟩ :=
    below.declarations _ _ _ _ closed.skip parsedBody clean
  apply reads_of_settled _ (.block opened formed closeSign)
  rw [ahead_of_kind closed opened (by decide), insideAhead,
    ahead_of_kind closedBetween closeSign (by decide)]
  simp

theorem function_statement_succ (below : StatementsSound units) :
    ReadsFrom .funWord (Parser.functionStatement (units + 1)) := by
  intro before tree after closed word done clean
  unfold Parser.functionStatement at done
  obtain ⟨⟨name, names⟩, behindHead, parsedHead, done⟩ := bind_done.mp done
  obtain ⟨body, between, parsedBody, done⟩ := bind_done.mp done
  obtain ⟨_, _, closeTaken, done⟩ := bind_done.mp done
  obtain ⟨closeSign, rfl, rfl⟩ := expect_done.mp closeTaken
  obtain ⟨rfl, rfl⟩ := pure_done.mp done
  have closedHead := (function_head_advances.leads parsedHead).closed closed
  have toBody := ((statements_advance units).declarations _).leads parsedBody
  obtain ⟨head, headAhead, formedHead⟩ :=
    function_head_sound closed word parsedHead (toBody.clean clean)
  obtain ⟨inside, insideAhead, formedBody⟩ :=
    below.declarations _ _ _ _ closedHead parsedBody clean
  cases formedHead with
  | intro word named opened parameters closeParen begun =>
      apply reads_of_settled _
        (.function word named opened parameters closeParen begun formedBody closeSign)
      rw [headAhead, insideAhead,
        ahead_of_kind (toBody.closed closedHead) closeSign (by decide)]
      simp

theorem declarations_succ (below : StatementsSound units) (insideBlock : Bool) :
    (Parser.declarations (units + 1) insideBlock).Yields
      fun trees => Forms (.declarations trees) := by
  intro before trees after closed done clean
  unfold Parser.declarations at done
  obtain ⟨_, _, looked, done⟩ := bind_done.mp done
  obtain ⟨rfl, rfl⟩ := is_at_done.mp looked
  obtain ⟨_, _, looked, done⟩ := bind_done.mp done
  obtain ⟨rfl, rfl⟩ := at_end_done.mp looked
  split at done
  · obtain ⟨rfl, rfl⟩ := pure_done.mp done
    exact ⟨[], rfl, .none⟩
  · obtain ⟨found, between, parsedFirst, done⟩ := bind_done.mp done
    obtain ⟨rest, _, parsedRest, done⟩ := bind_done.mp done
    obtain ⟨rfl, rfl⟩ := pure_done.mp done
    have toFirst := (statements_advance units).declaration.leads parsedFirst
    have toRest := ((statements_advance units).declarations _).leads parsedRest
    obtain ⟨first, firstAhead, tree, rfl, formedFirst⟩ :=
      below.declaration _ _ _ closed parsedFirst (toRest.clean clean)
    obtain ⟨others, othersAhead, formedOthers⟩ :=
      below.declarations _ _ _ _ (toFirst.closed closed) parsedRest clean
    refine ⟨first ++ others, ?_, .more formedFirst formedOthers⟩
    rw [firstAhead, othersAhead, List.append_assoc]

theorem declaration_succ (below : StatementsSound units) :
    (Parser.declaration (units + 1)).Yields
      fun found tokens => ∃ tree, found = some tree ∧ Forms (.declaration tree) tokens := by
  intro before found after closed done clean
  unfold Parser.declaration at done
  obtain ⟨_, _, looked, done⟩ := bind_done.mp done
  obtain ⟨rfl, rfl⟩ := current_done.mp looked
  obtain ⟨tree, rfl, parsed⟩ := recover_clean done clean
  split at parsed
  · rename_i word
    obtain ⟨tokens, ahead, declared⟩ := variable_declaration_sound closed word parsed clean
    exact ⟨tokens, ahead, tree, rfl, .declared declared⟩
  · obtain ⟨waiting, tokens, ahead, formed, -⟩ := below.statement _ _ _ closed parsed clean
    exact ⟨tokens, ahead, tree, rfl, .statement formed⟩

end StatementsSound

theorem statements_sound (units : Nat) : StatementsSound units := by
  induction units with
  | zero =>
      constructor
      · intro before tree after closed done clean
        cases done
      · exact exhausted_reads_from .forWord
      · exact exhausted_reads_from .ifWord
      · exact exhausted_reads_from .whileWord
      · exact exhausted_reads_from .leftBrace
      · exact exhausted_reads_from .funWord
      · exact fun _ => exhausted_yields
      · exact exhausted_yields
  | succ units below =>
      constructor
      · exact below.statement_succ
      · exact below.for_statement_succ
      · exact below.if_statement_succ
      · exact below.while_statement_succ
      · exact below.block_statement_succ
      · exact below.function_statement_succ
      · exact below.declarations_succ
      · exact below.declaration_succ

end Parser

end Treewalk
