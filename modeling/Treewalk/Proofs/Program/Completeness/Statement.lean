import Treewalk.Proofs.Program.Completeness.Expression
import Treewalk.Proofs.Program.Soundness.Statement

/-!
# Derivable statements are accepted

A statement is known by its first token, which sends the parser to the rule for it. What follows a
statement matters only if it waits for an `else`: then no `else` may follow.
-/

namespace Treewalk

set_option autoImplicit false

open Grammar

namespace Parser

open Rule ParseState ParseState

theorem optional_of_derives {α : Type} {kind : Kind} {next : Option Expr → Rule ParseState α}
    {found : Option Expr} {tokens : List Token} {after : ParseState}
    (optional : Optional found tokens) (ends : kind ∈ enders)
    (divider : after.current.kind = kind) :
    (Rule.isAt kind >>= fun absent =>
      if absent = true then pure none >>= next else (some <$> expression) >>= next)
        (after.prepend tokens) = next found after := by
  rw [bind_of_done (is_at_eq _ _)]
  cases optional with
  | absent =>
      rw [prepend_nil, if_pos (by simpa using divider), bind_of_done (pure_done.mpr ⟨rfl, rfl⟩)]
  | @present tree tokens whole =>
      have never : kind ∉ (Phrase.expression tree).starters := by
        revert kind
        simp [enders, Phrase.starters, callStarters]
      have filled := whole.current_ne never after
      have parsed : expression (after.prepend tokens) = .done tree after :=
        expression_of_derives whole (divider ▸ ends)
      rw [if_neg (by simpa using filled), bind_of_done (map_of_done parsed)]

theorem expression_statement_of_formed {tree : Stmt} {tokens : List Token} (after : ParseState)
    (formed : ExpressionStatement tree tokens) :
    expressionStatement (after.prepend tokens) = .done tree after := by
  cases formed with
  | @intro value tokens semicolon whole ended =>
      have parsed : expression ((after.prepend [semicolon]).prepend tokens) =
          .done value (after.prepend [semicolon]) :=
        expression_of_derives whole (by simp [current_prepend, ended, enders])
      have taken : Rule.expect .expressionEnd (after.prepend [semicolon]) =
          .done semicolon after := expect_prepend ended [] after
      unfold expressionStatement
      rw [prepend_append, bind_of_done parsed, bind_of_done taken]
      rfl

theorem variable_declaration_of_formed {tree : Stmt} {tokens : List Token} (after : ParseState)
    (formed : VariableDeclaration tree tokens) :
    variableDeclaration (after.prepend tokens) = .done tree after := by
  unfold variableDeclaration
  cases formed with
  | @bare keyword name semicolon word named ended =>
      have nameTaken : Rule.expect .variableName (after.prepend [name, semicolon]) =
          .done name (after.prepend [semicolon]) := expect_prepend named _ after
      have noEquals : Rule.accept [.equal] (after.prepend [semicolon]) =
          .done none (after.prepend [semicolon]) :=
        accept_missing (by simp [current_prepend, ended])
      have endTaken : Rule.expect .variableEnd (after.prepend [semicolon]) =
          .done semicolon after := expect_prepend ended [] after
      rw [bind_of_done (take_prepend _ _ _), bind_of_done nameTaken, bind_of_done noEquals]
      dsimp only
      rw [bind_of_done (pure_done.mpr ⟨rfl, rfl⟩), bind_of_done endTaken]
      rfl
  | @initialized keyword name equals semicolon value inside word named sign initial ended =>
      have nameTaken : Rule.expect .variableName
          (after.prepend (name :: equals :: (inside ++ [semicolon]))) =
          .done name (after.prepend (equals :: (inside ++ [semicolon]))) :=
        expect_prepend named _ after
      have equalsTaken : Rule.accept [.equal] (after.prepend (equals :: (inside ++ [semicolon]))) =
          .done (some equals) (after.prepend (inside ++ [semicolon])) :=
        accept_prepend (by simp [sign]) _ after
      have parsed : expression ((after.prepend [semicolon]).prepend inside) =
          .done value (after.prepend [semicolon]) :=
        expression_of_derives initial (by simp [current_prepend, ended, enders])
      have endTaken : Rule.expect .variableEnd (after.prepend [semicolon]) =
          .done semicolon after := expect_prepend ended [] after
      rw [bind_of_done (take_prepend _ _ _), bind_of_done nameTaken, bind_of_done equalsTaken]
      dsimp only
      rw [prepend_append, bind_of_done (map_of_done parsed), bind_of_done endTaken]
      rfl

theorem expression_statement_starts {tree : Stmt} {tokens : List Token}
    (formed : ExpressionStatement tree tokens) (state : ParseState) :
    (state.prepend tokens).current.kind ∈ .bang :: .minus :: callStarters := by
  cases formed with
  | intro whole ended =>
      obtain ⟨first, rest, rfl, starts⟩ := whole.starts
      exact starts

theorem variable_declaration_starts {tree : Stmt} {tokens : List Token}
    (formed : VariableDeclaration tree tokens) (state : ParseState) :
    (state.prepend tokens).current.kind = .varWord := by
  cases formed with
  | bare word named ended => exact word
  | initialized word named sign initial ended => exact word

theorem for_initial_of_formed {initial : Option Stmt} {tokens : List Token} (after : ParseState)
    (formed : Initial initial tokens) :
    forInitial (after.prepend tokens) = .done initial after := by
  unfold forInitial
  rw [bind_of_done (current_done.mpr ⟨rfl, rfl⟩)]
  cases formed with
  | absent ended =>
      rw [current_prepend, ended]
      rfl
  | declared whole =>
      rw [variable_declaration_starts whole after]
      exact map_of_done (variable_declaration_of_formed after whole)
  | expression whole =>
      have starts := expression_statement_starts whole after
      have parsed := expression_statement_of_formed after whole
      simp only [callStarters, List.mem_cons, List.not_mem_nil, or_false] at starts
      rcases starts with kind | kind | kind | kind | kind | kind | kind | kind | kind
      all_goals rw [kind]
      all_goals exact map_of_done parsed

theorem for_clauses_of_formed {clauses : Option Stmt × Option Expr × Option Expr}
    {tokens : List Token} (after : ParseState) (formed : ForClauses clauses tokens) :
    forClauses (after.prepend tokens) = .done clauses after := by
  cases formed with
  | @intro openParen semicolon closeParen initial condition increment begun asked advanced
      opened start test divided step closed =>
      have openTaken : Rule.expect .forOpen (after.prepend
          (openParen :: (begun ++ (asked ++ semicolon :: (advanced ++ [closeParen]))))) =
          .done openParen (after.prepend
            (begun ++ (asked ++ semicolon :: (advanced ++ [closeParen])))) :=
        expect_prepend opened _ after
      have dividerTaken : Rule.expect .loopConditionEnd
          (after.prepend (semicolon :: (advanced ++ [closeParen]))) =
          .done semicolon (after.prepend (advanced ++ [closeParen])) :=
        expect_prepend divided _ after
      have closeTaken : Rule.expect .forClose (after.prepend [closeParen]) =
          .done closeParen after := expect_prepend closed [] after
      unfold forClauses
      rw [bind_of_done openTaken, prepend_append, bind_of_done (for_initial_of_formed _ start),
        prepend_append]
      have dividedNext : (after.prepend (semicolon :: (advanced ++ [closeParen]))).current.kind =
          .semicolon := divided
      have closedNext : (after.prepend [closeParen]).current.kind = .rightParen := closed
      refine (optional_of_derives test (by decide) dividedNext).trans ?_
      dsimp only
      rw [bind_of_done dividerTaken, prepend_append]
      refine (optional_of_derives step (by decide) closedNext).trans ?_
      rw [bind_of_done closeTaken]
      rfl

theorem parameters_of_names {names tokens : List Token} {units : Nat} {after : ParseState}
    (listed : Names names tokens) (enough : tokens.length ≤ units)
    (ended : after.current.kind ≠ .comma) :
    parameters units (after.prepend tokens) = .done names after := by
  induction listed generalizing units with
  | @last name word =>
      obtain ⟨units, rfl, -⟩ := exists_succ (show 0 < units by simp at enough; omega)
      have taken : Rule.expect .parameterName (after.prepend [name]) = .done name after :=
        expect_prepend word [] after
      unfold parameters
      rw [bind_of_done taken, bind_of_done (accept_missing (by simpa using ended))]
      rfl
  | @more name comma names rest word sign others ih =>
      simp only [List.length_cons] at enough
      obtain ⟨units, rfl, -⟩ := exists_succ (show 0 < units by omega)
      have taken : Rule.expect .parameterName (after.prepend (name :: comma :: rest)) =
          .done name (after.prepend (comma :: rest)) := expect_prepend word _ after
      have commaTaken : Rule.accept [.comma] (after.prepend (comma :: rest)) =
          .done (some comma) (after.prepend rest) := accept_prepend (by simp [sign]) rest after
      unfold parameters
      rw [bind_of_done taken, bind_of_done commaTaken]
      dsimp only
      rw [bind_of_done (ih (by omega))]
      rfl

theorem function_head_of_formed {head : Token × List Token} {tokens : List Token}
    (after : ParseState) (formed : FunctionHead head tokens) :
    functionHead (after.prepend tokens) = .done head after := by
  cases formed with
  | @intro keyword name openParen closeParen openBrace names listed word named opened head closed
      begun =>
      have nameTaken : Rule.expect .functionName (after.prepend
          (name :: openParen :: (listed ++ [closeParen, openBrace]))) =
          .done name (after.prepend (openParen :: (listed ++ [closeParen, openBrace]))) :=
        expect_prepend named _ after
      have openTaken : Rule.expect .functionOpen (after.prepend
          (openParen :: (listed ++ [closeParen, openBrace]))) =
          .done openParen (after.prepend (listed ++ [closeParen, openBrace])) :=
        expect_prepend opened _ after
      have closeTaken : Rule.expect .parametersClose (after.prepend [closeParen, openBrace]) =
          .done closeParen (after.prepend [openBrace]) := expect_prepend closed _ after
      have braceTaken : Rule.expect .bodyOpen (after.prepend [openBrace]) =
          .done openBrace after := expect_prepend begun [] after
      unfold functionHead
      rw [bind_of_done (take_prepend _ _ _), bind_of_done nameTaken, bind_of_done openTaken,
        prepend_append, bind_of_done (is_at_eq _ _)]
      cases head with
      | none =>
          rw [prepend_nil, current_prepend, if_pos (by simpa using closed),
            bind_of_done (pure_done.mpr ⟨rfl, rfl⟩)]
          dsimp only
          rw [bind_of_done closeTaken, bind_of_done braceTaken]
          rfl
      | some whole =>
          have filled : ((after.prepend [closeParen, openBrace]).prepend listed).current.kind ≠
              .rightParen := by
            cases whole with
            | last word => simp [current_prepend, word]
            | more word sign others => simp [current_prepend, word]
          have parsed : (fun state : ParseState => parameters (budget (Supply.room state)) state)
              ((after.prepend [closeParen, openBrace]).prepend listed) =
              .done names (after.prepend [closeParen, openBrace]) := by
            apply parameters_of_names whole
            · simp only [prepend, supply_room, List.length_append, budget]
              omega
            · simp [current_prepend, closed]
          rw [if_neg (by simpa using filled), @bind_of_done _ _
            (fun state => parameters (budget (Supply.room state)) state) _ _ _ _ parsed]
          dsimp only
          rw [bind_of_done closeTaken, bind_of_done braceTaken]
          rfl

/-- The place behind declarations: a closing brace in a block, the end of the input otherwise. -/
def EndsBlock (insideBlock : Bool) (after : ParseState) : Prop :=
  if insideBlock then after.current.kind = .rightBrace else after.ahead = [] ∧ after.Closed

def Admits : Sentence → List Token → Prop
  | .statement waiting tree, tokens => ∀ units (after : ParseState), 12 * tokens.length ≤ units →
      (waiting = true → after.current.kind ≠ .elseWord) →
      statement units (after.prepend tokens) = .done tree after
  | .declaration tree, tokens => ∀ units (after : ParseState), 12 * tokens.length + 1 ≤ units →
      after.current.kind ≠ .elseWord →
      declaration units (after.prepend tokens) = .done (some tree) after
  | .declarations trees, tokens => ∀ insideBlock units (after : ParseState),
      12 * tokens.length + 2 ≤ units →
      EndsBlock insideBlock after →
      declarations units insideBlock (after.prepend tokens) = .done trees after

def followers : List Kind :=
  [.rightBrace, .elseWord]

theorem starter_not_follower {kind : Kind} (starts : kind ∈ .bang :: .minus :: callStarters) :
    kind ∉ followers ∧ kind ≠ .varWord := by
  revert kind
  decide

/-- A statement is not empty; it starts neither with a kind that follows statements nor as a
declaration of a variable. -/
theorem statement_starts {waiting : Bool} {tree : Stmt} {tokens : List Token}
    (formed : Forms (.statement waiting tree) tokens) :
    ∃ first rest, tokens = first :: rest ∧ first.kind ∉ followers ∧ first.kind ≠ .varWord := by
  cases formed with
  | expression whole =>
      cases whole with
      | @intro value tokens semicolon whole ended =>
          obtain ⟨first, rest, rfl, starts⟩ := whole.starts
          exact ⟨first, rest ++ [semicolon], rfl, starter_not_follower starts⟩
  | print word shown ended => exact ⟨_, _, rfl, by simp [word, followers]⟩
  | returnValue word result ended => exact ⟨_, _, rfl, by simp [word, followers]⟩
  | breakLoop word ended => exact ⟨_, _, rfl, by simp [word, followers]⟩
  | block opened enclosed closed => exact ⟨_, _, rfl, by simp [opened, followers]⟩
  | function word named opened head closed begun enclosed ended =>
      exact ⟨_, _, rfl, by simp [word, followers]⟩
  | ifThen word opened test closed first => exact ⟨_, _, rfl, by simp [word, followers]⟩
  | ifElse word opened test closed first divided second =>
      exact ⟨_, _, rfl, by simp [word, followers]⟩
  | whileLoop word opened test closed inner => exact ⟨_, _, rfl, by simp [word, followers]⟩
  | forLoop word opened start test divided step closed inner =>
      exact ⟨_, _, rfl, by simp [word, followers]⟩

theorem declaration_starts {tree : Stmt} {tokens : List Token}
    (formed : Forms (.declaration tree) tokens) :
    ∃ first rest, tokens = first :: rest ∧ first.kind ∉ followers := by
  cases formed with
  | declared whole =>
      cases whole with
      | bare word named ended => exact ⟨_, _, rfl, by simp [word, followers]⟩
      | initialized word named sign initial ended => exact ⟨_, _, rfl, by simp [word, followers]⟩
  | statement whole =>
      obtain ⟨first, rest, rfl, starts, -⟩ := statement_starts whole
      exact ⟨first, rest, rfl, starts⟩

theorem statement_dispatch (units : Nat) (token : Token) (rest : List Token) (state : ParseState) :
    statement (units + 1) (state.prepend (token :: rest)) =
      (match token.kind with
        | .forWord => forStatement units
        | .ifWord => ifStatement units
        | .printWord => printStatement
        | .whileWord => whileStatement units
        | .leftBrace => blockStatement units
        | .funWord => functionStatement units
        | .returnWord => returnStatement
        | .breakWord => breakStatement
        | .classWord => Rule.fail .unsupportedClass
        | _ => expressionStatement) (state.prepend (token :: rest)) := by
  rw [statement, bind_of_done (current_done.mpr ⟨rfl, rfl⟩)]
  rfl

theorem admits_expression {tree : Stmt} {tokens : List Token}
    (whole : ExpressionStatement tree tokens) : Admits (.statement false tree) tokens := by
  intro units after enough _
  have starts := expression_statement_starts whole after
  have parsed := expression_statement_of_formed after whole
  obtain ⟨first, rest, rfl⟩ : ∃ first rest, tokens = first :: rest := by
    obtain ⟨first, rest, same, -⟩ := statement_starts (.expression whole)
    exact ⟨first, rest, same⟩
  simp only [List.length_cons] at enough
  obtain ⟨units, rfl, -⟩ := exists_succ (show 0 < units by omega)
  rw [statement_dispatch]
  rw [current_prepend] at starts
  simp only [callStarters, List.mem_cons, List.not_mem_nil, or_false] at starts
  rcases starts with kind | kind | kind | kind | kind | kind | kind | kind | kind
  all_goals rw [kind]
  all_goals exact parsed

theorem admits_print {keyword semicolon : Token} {value : Expr} {inside : List Token}
    (word : keyword.kind = .printWord) (shown : Derives (.expression value) inside)
    (ended : semicolon.kind = .semicolon) :
    Admits (.statement false (.print keyword value)) (keyword :: (inside ++ [semicolon])) := by
  intro units after enough _
  simp only [List.length_cons] at enough
  obtain ⟨units, rfl, -⟩ := exists_succ (show 0 < units by omega)
  have parsed : expression ((after.prepend [semicolon]).prepend inside) =
      .done value (after.prepend [semicolon]) :=
    expression_of_derives shown (by simp [current_prepend, ended, enders])
  have taken : Rule.expect .printEnd (after.prepend [semicolon]) = .done semicolon after :=
    expect_prepend ended [] after
  rw [statement_dispatch, word]
  dsimp only
  unfold printStatement
  rw [bind_of_done (take_prepend _ _ _), prepend_append, bind_of_done parsed, bind_of_done taken]
  rfl

theorem admits_return {keyword semicolon : Token} {value : Option Expr} {inside : List Token}
    (word : keyword.kind = .returnWord) (result : Optional value inside)
    (ended : semicolon.kind = .semicolon) :
    Admits (.statement false (.returnValue keyword value))
      (keyword :: (inside ++ [semicolon])) := by
  intro units after enough _
  simp only [List.length_cons] at enough
  obtain ⟨units, rfl, -⟩ := exists_succ (show 0 < units by omega)
  have endedNext : (after.prepend [semicolon]).current.kind = .semicolon := ended
  have taken : Rule.expect .returnEnd (after.prepend [semicolon]) = .done semicolon after :=
    expect_prepend ended [] after
  rw [statement_dispatch, word]
  dsimp only
  unfold returnStatement
  rw [bind_of_done (take_prepend _ _ _), prepend_append]
  refine (optional_of_derives result (by decide) endedNext).trans ?_
  dsimp only
  rw [bind_of_done taken]
  rfl

theorem admits_break {keyword semicolon : Token} (word : keyword.kind = .breakWord)
    (ended : semicolon.kind = .semicolon) :
    Admits (.statement false (.breakLoop keyword)) [keyword, semicolon] := by
  intro units after enough _
  simp only [List.length_cons] at enough
  obtain ⟨units, rfl, -⟩ := exists_succ (show 0 < units by omega)
  have taken : Rule.expect .breakEnd (after.prepend [semicolon]) = .done semicolon after :=
    expect_prepend ended [] after
  rw [statement_dispatch, word]
  dsimp only
  unfold breakStatement
  rw [bind_of_done (take_prepend _ _ _), bind_of_done taken]
  rfl

theorem admits_block {openBrace closeBrace : Token} {body : List Stmt} {inside : List Token}
    (opened : openBrace.kind = .leftBrace) (admitted : Admits (.declarations body) inside)
    (closed : closeBrace.kind = .rightBrace) :
    Admits (.statement false (.block body (openBrace.span.hull closeBrace.span)))
      (openBrace :: (inside ++ [closeBrace])) := by
  intro units after enough _
  simp only [List.length_cons, List.length_append, List.length_nil] at enough
  obtain ⟨units, rfl, -⟩ := exists_succ (show 0 < units by omega)
  obtain ⟨units, rfl, -⟩ := exists_succ (show 0 < units by omega)
  have parsed : declarations units true ((after.prepend [closeBrace]).prepend inside) =
      .done body (after.prepend [closeBrace]) := admitted true units _ (by omega) closed
  have taken : Rule.expect .blockClose (after.prepend [closeBrace]) = .done closeBrace after :=
    expect_prepend closed [] after
  rw [statement_dispatch, opened]
  dsimp only
  unfold blockStatement
  rw [bind_of_done (take_prepend _ _ _), prepend_append, bind_of_done parsed, bind_of_done taken]
  rfl

theorem admits_function {keyword name openParen closeParen openBrace closeBrace : Token}
    {parameters : List Token} {body : List Stmt} {listed inside : List Token}
    (word : keyword.kind = .funWord) (named : name.kind = .identifier)
    (opened : openParen.kind = .leftParen) (head : Parameters parameters listed)
    (closed : closeParen.kind = .rightParen) (begun : openBrace.kind = .leftBrace)
    (admitted : Admits (.declarations body) inside) (ended : closeBrace.kind = .rightBrace) :
    Admits (.statement false (.function name parameters body))
      (keyword :: name :: openParen ::
        (listed ++ closeParen :: openBrace :: (inside ++ [closeBrace]))) := by
  intro units after enough _
  simp only [List.length_cons, List.length_append, List.length_nil] at enough
  obtain ⟨units, rfl, -⟩ := exists_succ (show 0 < units by omega)
  obtain ⟨units, rfl, -⟩ := exists_succ (show 0 < units by omega)
  have parsed : declarations units true ((after.prepend [closeBrace]).prepend inside) =
      .done body (after.prepend [closeBrace]) := admitted true units _ (by omega) ended
  have taken : Rule.expect .blockClose (after.prepend [closeBrace]) = .done closeBrace after :=
    expect_prepend ended [] after
  have headParsed := function_head_of_formed ((after.prepend [closeBrace]).prepend inside)
    (.intro word named opened head closed begun)
  rw [← prepend_append, ← prepend_append] at headParsed
  simp only [List.cons_append, List.append_assoc, List.nil_append] at headParsed
  rw [statement_dispatch, word]
  dsimp only
  unfold functionStatement
  rw [bind_of_done headParsed]
  dsimp only
  rw [bind_of_done parsed, bind_of_done taken]
  rfl

/-- A condition in parentheses, as conditionals and loops have it behind their keyword. -/
theorem condition_of_derives {α : Type} {opening closing : Slot} {next : Expr → Rule ParseState α}
    {openParen closeParen : Token} {condition : Expr} {asked rest : List Token}
    {after : ParseState} (opened : openParen.kind = opening.kind)
    (test : Derives (.expression condition) asked) (closed : closeParen.kind = closing.kind)
    (ends : closing.kind = .rightParen) :
    (Rule.expect opening >>= fun _ => expression >>= fun condition =>
      Rule.expect closing >>= fun _ => next condition)
        (after.prepend (openParen :: (asked ++ closeParen :: rest))) =
      next condition (after.prepend rest) := by
  have openTaken :
      Rule.expect opening (after.prepend (openParen :: (asked ++ closeParen :: rest))) =
      .done openParen (after.prepend (asked ++ closeParen :: rest)) := expect_prepend opened _ after
  have parsed : expression ((after.prepend (closeParen :: rest)).prepend asked) =
      .done condition (after.prepend (closeParen :: rest)) :=
    expression_of_derives test (by simp [current_prepend, closed, ends, enders])
  have closeTaken : Rule.expect closing (after.prepend (closeParen :: rest)) =
      .done closeParen (after.prepend rest) := expect_prepend closed rest after
  rw [bind_of_done openTaken, prepend_append, bind_of_done parsed, bind_of_done closeTaken]

/-- A conditional without alternative ends in front of a token that is no `else`. -/
theorem admits_if_then {keyword openParen closeParen : Token} {condition : Expr} {waiting : Bool}
    {consequent : Stmt} {asked then_ : List Token} (word : keyword.kind = .ifWord)
    (opened : openParen.kind = .leftParen) (test : Derives (.expression condition) asked)
    (closed : closeParen.kind = .rightParen)
    (admitted : Admits (.statement waiting consequent) then_) :
    Admits (.statement true (.ifThen keyword condition consequent))
      (keyword :: openParen :: (asked ++ closeParen :: then_)) := by
  intro units after enough settled
  simp only [List.length_cons, List.length_append] at enough
  obtain ⟨units, rfl, -⟩ := exists_succ (show 0 < units by omega)
  obtain ⟨units, rfl, -⟩ := exists_succ (show 0 < units by omega)
  have noElse : after.current.kind ≠ .elseWord := settled rfl
  have parsed : statement units (after.prepend then_) = .done consequent after :=
    admitted units after (by omega) fun _ => noElse
  rw [statement_dispatch, word]
  dsimp only
  unfold ifStatement
  rw [bind_of_done (take_prepend _ _ _)]
  refine (condition_of_derives opened test closed rfl).trans ?_
  rw [bind_of_done parsed, bind_of_done (accept_missing (by simpa using noElse))]
  rfl

/-- A consequent that is not waiting leaves the `else` to the conditional around it. -/
theorem admits_if_else {keyword openParen closeParen elseWord : Token} {condition : Expr}
    {waiting : Bool} {consequent alternative : Stmt} {asked then_ else_ : List Token}
    (word : keyword.kind = .ifWord) (opened : openParen.kind = .leftParen)
    (test : Derives (.expression condition) asked) (closed : closeParen.kind = .rightParen)
    (first : Admits (.statement false consequent) then_) (divided : elseWord.kind = .elseWord)
    (second : Admits (.statement waiting alternative) else_) :
    Admits (.statement waiting (.ifElse keyword condition consequent alternative))
      (keyword :: openParen :: (asked ++ closeParen :: (then_ ++ elseWord :: else_))) := by
  intro units after enough settled
  simp only [List.length_cons, List.length_append] at enough
  obtain ⟨units, rfl, -⟩ := exists_succ (show 0 < units by omega)
  obtain ⟨units, rfl, -⟩ := exists_succ (show 0 < units by omega)
  have parsedFirst : statement units ((after.prepend (elseWord :: else_)).prepend then_) =
      .done consequent (after.prepend (elseWord :: else_)) :=
    first units _ (by omega) fun waits => by cases waits
  have elseTaken : Rule.accept [.elseWord] (after.prepend (elseWord :: else_)) =
      .done (some elseWord) (after.prepend else_) := accept_prepend (by simp [divided]) else_ after
  have parsedSecond : statement units (after.prepend else_) = .done alternative after :=
    second units after (by omega) settled
  rw [statement_dispatch, word]
  dsimp only
  unfold ifStatement
  rw [bind_of_done (take_prepend _ _ _)]
  refine (condition_of_derives opened test closed rfl).trans ?_
  rw [prepend_append, bind_of_done parsedFirst, bind_of_done elseTaken]
  dsimp only
  rw [bind_of_done parsedSecond]
  rfl

theorem admits_while {keyword openParen closeParen : Token} {condition : Expr} {waiting : Bool}
    {body : Stmt} {asked repeated : List Token} (word : keyword.kind = .whileWord)
    (opened : openParen.kind = .leftParen) (test : Derives (.expression condition) asked)
    (closed : closeParen.kind = .rightParen)
    (admitted : Admits (.statement waiting body) repeated) :
    Admits (.statement waiting (.loop keyword condition body))
      (keyword :: openParen :: (asked ++ closeParen :: repeated)) := by
  intro units after enough settled
  simp only [List.length_cons, List.length_append] at enough
  obtain ⟨units, rfl, -⟩ := exists_succ (show 0 < units by omega)
  obtain ⟨units, rfl, -⟩ := exists_succ (show 0 < units by omega)
  have parsed : statement units (after.prepend repeated) = .done body after :=
    admitted units after (by omega) settled
  rw [statement_dispatch, word]
  dsimp only
  unfold whileStatement
  rw [bind_of_done (take_prepend _ _ _)]
  refine (condition_of_derives opened test closed rfl).trans ?_
  rw [bind_of_done parsed]
  rfl

theorem admits_for {keyword openParen semicolon closeParen : Token} {initial : Option Stmt}
    {condition increment : Option Expr} {waiting : Bool} {body : Stmt}
    {begun asked advanced repeated : List Token} (word : keyword.kind = .forWord)
    (opened : openParen.kind = .leftParen) (start : Initial initial begun)
    (test : Optional condition asked) (divided : semicolon.kind = .semicolon)
    (step : Optional increment advanced) (closed : closeParen.kind = .rightParen)
    (admitted : Admits (.statement waiting body) repeated) :
    Admits (.statement waiting (whileForm keyword initial condition increment body))
      (keyword :: openParen ::
        (begun ++ (asked ++ semicolon :: (advanced ++ closeParen :: repeated)))) := by
  intro units after enough settled
  simp only [List.length_cons, List.length_append] at enough
  obtain ⟨units, rfl, -⟩ := exists_succ (show 0 < units by omega)
  obtain ⟨units, rfl, -⟩ := exists_succ (show 0 < units by omega)
  have parsed : statement units (after.prepend repeated) = .done body after :=
    admitted units after (by omega) settled
  have clausesParsed := for_clauses_of_formed (after.prepend repeated)
    (.intro opened start test divided step closed)
  rw [← prepend_append] at clausesParsed
  simp only [List.cons_append, List.append_assoc, List.nil_append] at clausesParsed
  rw [statement_dispatch, word]
  dsimp only
  unfold forStatement
  rw [bind_of_done (take_prepend _ _ _), bind_of_done clausesParsed]
  dsimp only
  rw [bind_of_done parsed, ← for_loop_eq]
  rfl

theorem recover_of_done {rule : Rule ParseState Stmt} {before after : ParseState} {tree : Stmt}
    (done : rule before = .done tree after) : recover rule before = .done (some tree) after := by
  unfold recover
  rw [done]

theorem admits_declared {tree : Stmt} {tokens : List Token}
    (whole : VariableDeclaration tree tokens) : Admits (.declaration tree) tokens := by
  intro units after enough _
  obtain ⟨units, rfl, -⟩ := exists_succ (show 0 < units by omega)
  have parsed := variable_declaration_of_formed after whole
  unfold declaration
  rw [bind_of_done (current_done.mpr ⟨rfl, rfl⟩),
    if_pos (variable_declaration_starts whole after)]
  exact recover_of_done parsed

theorem admits_statement {waiting : Bool} {tree : Stmt} {tokens : List Token}
    (whole : Forms (.statement waiting tree) tokens)
    (admitted : Admits (.statement waiting tree) tokens) : Admits (.declaration tree) tokens := by
  intro units after enough settled
  obtain ⟨units, rfl, -⟩ := exists_succ (show 0 < units by omega)
  have parsed : statement units (after.prepend tokens) = .done tree after :=
    admitted units after (by omega) fun _ => settled
  obtain ⟨first, rest, rfl, -, plain⟩ := statement_starts whole
  unfold declaration
  rw [bind_of_done (current_done.mpr ⟨rfl, rfl⟩), current_prepend, if_neg plain]
  exact recover_of_done parsed

theorem admits_none : Admits (.declarations []) [] := by
  intro insideBlock units after enough ended
  obtain ⟨units, rfl, -⟩ := exists_succ (show 0 < units by omega)
  unfold declarations
  rw [prepend_nil, bind_of_done (is_at_eq _ _), bind_of_done (at_end_done.mpr ⟨rfl, rfl⟩)]
  cases insideBlock with
  | false =>
      have ended : after.ahead = [] ∧ after.Closed := ended
      rw [if_pos (by simp [ended.1])]
      rfl
  | true =>
      have ended : after.current.kind = .rightBrace := ended
      rw [if_pos (by simp [ended])]
      rfl

/-- Behind declarations of a block and of a program stands no `else`. -/
theorem EndsBlock.apart {insideBlock : Bool} {after : ParseState}
    (ended : EndsBlock insideBlock after) : after.current.kind ≠ .elseWord := by
  cases insideBlock with
  | false =>
      have ended : after.ahead = [] ∧ after.Closed := ended
      have closing : after.current.kind = .endOfInput := by
        rw [ParseState.current, ended.1]
        exact ended.2
      simp [closing]
  | true =>
      have ended : after.current.kind = .rightBrace := ended
      simp [ended]

/-- What follows a declaration among others is no `else`, if none follows the last of them. -/
theorem declarations_apart {trees : List Stmt} {tokens : List Token} {after : ParseState}
    (formed : Forms (.declarations trees) tokens) (apart : after.current.kind ≠ .elseWord) :
    (after.prepend tokens).current.kind ≠ .elseWord := by
  cases formed with
  | none => exact apart
  | more first others =>
      obtain ⟨token, rest, rfl, starts⟩ := declaration_starts first
      intro same
      have isElse : token.kind = .elseWord := same
      simp [isElse, followers] at starts

theorem admits_more {tree : Stmt} {trees : List Stmt} {before behind : List Token}
    (formedFirst : Forms (.declaration tree) before) (first : Admits (.declaration tree) before)
    (formedOthers : Forms (.declarations trees) behind)
    (others : Admits (.declarations trees) behind) :
    Admits (.declarations (tree :: trees)) (before ++ behind) := by
  intro insideBlock units after enough ended
  simp only [List.length_append] at enough
  obtain ⟨units, rfl, -⟩ := exists_succ (show 0 < units by omega)
  obtain ⟨token, rest, rfl, starts⟩ := declaration_starts formedFirst
  simp only [List.length_cons] at enough
  have parsedFirst : declaration units ((after.prepend behind).prepend (token :: rest)) =
      .done (some tree) (after.prepend behind) :=
    first units _ (by simp only [List.length_cons]; omega)
      (declarations_apart formedOthers ended.apart)
  have parsedOthers : declarations units insideBlock (after.prepend behind) =
      .done trees after := others insideBlock units after (by omega) ended
  have goesOn : ¬ token.kind = .rightBrace := by
    intro brace
    simp [brace, followers] at starts
  unfold declarations
  rw [prepend_append, bind_of_done (is_at_eq _ _), bind_of_done (at_end_done.mpr ⟨rfl, rfl⟩),
    current_prepend, if_neg (by simp [goesOn, prepend]), bind_of_done parsedFirst,
    bind_of_done parsedOthers]
  rfl

theorem admits_of_forms {sentence : Sentence} {tokens : List Token}
    (formed : Forms sentence tokens) : Admits sentence tokens := by
  induction formed with
  | expression whole => exact admits_expression whole
  | print word shown ended => exact admits_print word shown ended
  | returnValue word result ended => exact admits_return word result ended
  | breakLoop word ended => exact admits_break word ended
  | block opened enclosed closed ih => exact admits_block opened ih closed
  | function word named opened head closed begun enclosed ended ih =>
      exact admits_function word named opened head closed begun ih ended
  | ifThen word opened test closed first ih => exact admits_if_then word opened test closed ih
  | ifElse word opened test closed first divided second ih ihSecond =>
      exact admits_if_else word opened test closed ih divided ihSecond
  | whileLoop word opened test closed inner ih => exact admits_while word opened test closed ih
  | forLoop word opened start test divided step closed inner ih =>
      exact admits_for word opened start test divided step closed ih
  | declared whole => exact admits_declared whole
  | statement whole ih => exact admits_statement whole ih
  | none => exact admits_none
  | more first others ih ihOthers => exact admits_more first ih others ihOthers

end Parser

end Treewalk
