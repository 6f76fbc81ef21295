import Treewalk.Proofs.Program.Soundness.Statement
import Treewalk.Proofs.Program.Viability.Expression

/-!
# Statements up to an error

As for expressions: a statement that is still missing can be a name with a semicolon, and every
brace that is still open can be closed.
-/

namespace Treewalk

set_option autoImplicit false

open Grammar

def Stated (tree : Stmt) (tokens : List Token) : Prop :=
  ∃ waiting, Forms (.statement waiting tree) tokens

theorem fillable_stated {tokens : List Token} (start : tokens = []) : Fillable Stated tokens := by
  subst start
  apply fillable_of_fillers (.expression (.reference (Kind.filler .identifier)))
    (show [Kind.identifier, .semicolon] ⊆ fillerKinds by decide)
  exact ⟨false, .expression (.intro (name_expression rfl) rfl)⟩

theorem fillable_declaration (tokens : List Token) (start : tokens = []) :
    Fillable (fun found tokens => ∃ tree, found = some tree ∧ Forms (.declaration tree) tokens)
      tokens := by
  obtain ⟨tree, more, filled, waiting, formed⟩ := fillable_stated start
  exact ⟨some tree, more, filled, tree, rfl, .statement formed⟩

namespace Rule

open ParseState

variable {α β : Type} {covers : β → List Token → Prop} {before : List Token → Prop}

theorem map_begins_at {rule : Rule ParseState α} {first : α → List Token → Prop} {change : α → β}
    {state : ParseState}
    (sound : ∀ value after, rule state = .done value after → after.recorded = [] →
      ∃ used, state.ahead = used ++ after.ahead ∧ first value used)
    (begins : rule.BeginsAt first [] state)
    (implied : ∀ value tokens, first value tokens → covers (change value) tokens) :
    (change <$> rule).BeginsAt covers [] state := by
  rw [map_eq]
  apply bind_begins_at sound begins fun value => pure_advances (change value)
  · intro value used read
    exact fillable_of_whole (change value) (implied value used read)
  · intro value after used _ clean _ _
    exact pure_begins_at clean

theorem from_begins {kind : Kind} {rule : Rule ParseState α} {next : α → Rule ParseState β}
    {first : α → List Token → Prop}
    (sound : ∀ {state after : ParseState} {value : α}, state.Closed → state.current.kind = kind →
      rule state = .done value after → after.recorded = [] →
      ∃ used, state.ahead = used ++ after.ahead ∧ first value used)
    (head : BeginsFrom kind rule (· = []) first)
    (advances : rule.Advances) (later : ∀ value, (next value).Begins (first value) covers) :
    BeginsFrom kind (rule >>= next) (· = []) covers := by
  rintro _ state rfl closed clean found
  apply bind_begins_at (fun _ _ => sound closed found) (head [] state rfl closed clean found)
    fun value => (later value).advances
  · exact fun value used read => (later value).fillable used read
  · intro value after used ran cleanAfter _ read
    exact (later value).run used after read ((advances.leads ran).closed closed) cleanAfter

end Rule

namespace Parser

open Rule ParseState ParseState

theorem some_expression_sound : (some <$> expression).Yields
    fun found tokens => ∃ tree, found = some tree ∧ Derives (.expression tree) tokens := by
  intro before found after closed done clean
  obtain ⟨tree, _, parsed, done⟩ := bind_done.mp done
  obtain ⟨rfl, rfl⟩ := pure_done.mp done
  obtain ⟨tokens, ahead, derived⟩ := expression_sound _ _ _ closed parsed clean
  exact ⟨tokens, ahead, tree, rfl, derived⟩

theorem some_expression_begins : (some <$> expression).Begins (· = [])
    fun found tokens => ∃ tree, found = some tree ∧ Derives (.expression tree) tokens := by
  refine phrase_begins expression_sound expression_begins fun tree => pure_begins ?_
  rintro _ ⟨_, tokens, rfl, derived, rfl⟩
  exact ⟨tree, rfl, derived⟩

/-- An expression that may be left out in front of one kind of token. -/
theorem optional_begins {α : Type} {covers : α → List Token → Prop} {before : List Token → Prop}
    {kind : Kind} {next : Option Expr → Rule ParseState α}
    (later : ∀ found, (next found).Begins
      (fun tokens => ∃ front used, before front ∧ Optional found used ∧ tokens = front ++ used)
      covers) :
    (Rule.isAt kind >>= fun absent =>
      if absent = true then pure none >>= next else (some <$> expression) >>= next).Begins
        before covers := by
  refine look_begins fun absent => ?_
  cases absent with
  | true =>
      apply (later none).of_before
      intro tokens begun
      exact ⟨tokens, [], begun, .absent, (List.append_nil tokens).symm⟩
  | false =>
      refine phrase_begins some_expression_sound some_expression_begins fun found => ?_
      apply (later found).of_before
      rintro _ ⟨front, used, begun, ⟨tree, rfl, derived⟩, rfl⟩
      exact ⟨front, used, begun, .present derived, rfl⟩

theorem variable_declaration_begins :
    BeginsFrom .varWord variableDeclaration (· = []) VariableDeclaration := by
  refine take_begins_from ?_ fun keyword word => ?_
  · rintro _ rfl
    apply fillable_of_fillers (.declare (Kind.filler .identifier) none)
      (show [Kind.varWord, .identifier, .semicolon] ⊆ fillerKinds by decide)
    exact .bare rfl rfl rfl
  · refine expect_begins fun name named => ?_
    refine accept_begins ?_ fun equals sign => ?_
    · refine expect_begins fun semicolon ended => pure_begins ?_
      rintro _ ⟨_, ⟨_, ⟨_, rfl, rfl⟩, rfl⟩, rfl⟩
      exact .bare word named ended
    · refine phrase_begins some_expression_sound some_expression_begins fun initial => ?_
      refine expect_begins fun semicolon ended => pure_begins ?_
      rintro _ ⟨_, ⟨_, inside, ⟨_, ⟨_, ⟨_, rfl, rfl⟩, rfl⟩, rfl⟩, ⟨value, rfl, derived⟩, rfl⟩, rfl⟩
      exact .initialized word named (by simpa using sign) derived ended

theorem expression_statement_begins :
    expressionStatement.Begins (· = []) ExpressionStatement := by
  refine phrase_begins expression_sound expression_begins fun value => ?_
  refine expect_begins fun semicolon ended => pure_begins ?_
  rintro _ ⟨_, ⟨_, tokens, rfl, derived, rfl⟩, rfl⟩
  exact .intro derived ended

theorem print_statement_begins : BeginsFrom .printWord printStatement (· = []) Stated := by
  refine take_begins_from (fun _ => fillable_stated) fun keyword word => ?_
  refine phrase_begins expression_sound expression_begins fun value => ?_
  refine expect_begins fun semicolon ended => pure_begins ?_
  rintro _ ⟨_, ⟨_, inside, ⟨_, rfl, rfl⟩, shown, rfl⟩, rfl⟩
  exact ⟨false, .print word shown ended⟩

theorem return_statement_begins : BeginsFrom .returnWord returnStatement (· = []) Stated := by
  refine take_begins_from (fun _ => fillable_stated) fun keyword word => ?_
  refine optional_begins fun value => ?_
  refine expect_begins fun semicolon ended => pure_begins ?_
  rintro _ ⟨_, ⟨_, inside, ⟨_, rfl, rfl⟩, result, rfl⟩, rfl⟩
  exact ⟨false, .returnValue word result ended⟩

theorem break_statement_begins : BeginsFrom .breakWord breakStatement (· = []) Stated := by
  refine take_begins_from (fun _ => fillable_stated) fun keyword word => ?_
  refine expect_begins fun semicolon ended => pure_begins ?_
  rintro _ ⟨_, ⟨_, rfl, rfl⟩, rfl⟩
  exact ⟨false, .breakLoop word ended⟩

theorem fillable_initial {tokens : List Token} (start : tokens = []) : Fillable Initial tokens := by
  subst start
  exact fillable_of_fillers none (show [Kind.semicolon] ⊆ fillerKinds by decide) (.absent rfl)

theorem absent_begins :
    BeginsFrom .semicolon (Rule.take >>= fun _ => pure none) (· = []) Initial := by
  refine take_begins_from (fun _ => fillable_initial) fun semicolon ended => pure_begins ?_
  rintro _ ⟨_, rfl, rfl⟩
  exact .absent ended

theorem for_initial_begins : forInitial.Begins (· = []) Initial where
  advances := for_initial_advances
  fillable _ := fillable_initial
  run front state start closed clean := by
    subst start
    cases kind : state.current.kind with
    | semicolon =>
        apply (absent_begins [] state rfl closed clean kind).of_run
        simp only [forInitial, bind_eq, Rule.current, supply_current, kind]
    | varWord =>
        have begins := variable_declaration_begins [] state rfl closed clean kind
        have sound := fun value after => @variable_declaration_sound state after value closed kind
        apply (map_begins_at sound begins fun _ _ declared => Initial.declared declared).of_run
        simp only [forInitial, bind_eq, Rule.current, supply_current, kind]
    | _ =>
        have begins := expression_statement_begins.run [] state rfl closed clean
        have sound := fun value after => expression_statement_sound state value after closed
        apply (map_begins_at sound begins fun _ _ formed => Initial.expression formed).of_run
        simp only [forInitial, bind_eq, Rule.current, supply_current, kind]

theorem for_clauses_begins : forClauses.Begins (· = []) ForClauses := by
  refine expect_begins fun openParen opened => ?_
  refine phrase_begins for_initial_sound for_initial_begins fun initial => ?_
  refine optional_begins fun condition => ?_
  refine expect_begins fun semicolon divided => ?_
  refine optional_begins fun increment => ?_
  refine expect_begins fun closeParen closed => pure_begins ?_
  rintro _ ⟨_, ⟨_, advanced, ⟨_, ⟨_, asked, ⟨_, begun, ⟨_, rfl, rfl⟩, start, rfl⟩, test, rfl⟩, rfl⟩,
    step, rfl⟩, rfl⟩
  simpa using ForClauses.intro opened start test divided step closed

theorem parameters_begin (units : Nat) : (parameters units).Begins (· = []) Names := by
  induction units with
  | zero =>
      exact exhausted_begins fun _ => fillable_of_name [Kind.filler .identifier] (.last rfl)
  | succ units below =>
      refine expect_begins fun name word => ?_
      refine accept_begins (pure_begins ?_) fun comma sign => ?_
      · rintro _ ⟨_, rfl, rfl⟩
        exact .last word
      · refine phrase_begins (parameters_sound units) below fun rest => pure_begins ?_
        rintro _ ⟨_, others, ⟨_, ⟨_, rfl, rfl⟩, rfl⟩, listed, rfl⟩
        exact .more word (by simpa using sign) listed

theorem parameter_list_begins : parameterList.Begins (· = []) Names where
  advances := parameter_list_advances
  fillable := (parameters_begin 0).fillable
  run front state start closed clean :=
    ((parameters_begin _).run front state start closed clean).of_run rfl

theorem function_head_begins : BeginsFrom .funWord functionHead (· = []) FunctionHead := by
  refine take_begins_from ?_ fun keyword word => ?_
  · rintro _ rfl
    apply fillable_of_fillers (Kind.filler .identifier, [])
      (show [Kind.funWord, .identifier, .leftParen, .rightParen, .leftBrace] ⊆
        fillerKinds by decide)
    exact .intro rfl rfl rfl .none rfl rfl
  · refine expect_begins fun name named => ?_
    refine expect_begins fun openParen opened => ?_
    have closing : ∀ names : List Token, (do
        let _ ← Rule.expect .parametersClose
        let _ ← Rule.expect .bodyOpen
        pure (name, names)).Begins (fun tokens => ∃ listed, Parameters names listed ∧
          tokens = keyword :: name :: openParen :: listed) FunctionHead := by
      intro names
      refine expect_begins fun closeParen closed => ?_
      refine expect_begins fun openBrace begun => pure_begins ?_
      rintro _ ⟨_, ⟨_, ⟨listed, head, rfl⟩, rfl⟩, rfl⟩
      simpa using FunctionHead.intro word named opened head closed begun
    refine look_begins fun empty => ?_
    cases empty with
    | true =>
        apply (closing []).of_before
        rintro _ ⟨_, ⟨_, ⟨_, rfl, rfl⟩, rfl⟩, rfl⟩
        exact ⟨[], .none, rfl⟩
    | false =>
        refine phrase_begins (fun _ => parameters_sound _ _) parameter_list_begins fun names => ?_
        apply (closing names).of_before
        rintro _ ⟨_, listed, ⟨_, ⟨_, ⟨_, rfl, rfl⟩, rfl⟩, rfl⟩, whole, rfl⟩
        exact ⟨listed, .some whole, rfl⟩

theorem statement_stated (units : Nat) : (Parser.statement units).Yields Stated := by
  intro before tree after closed done clean
  obtain ⟨waiting, tokens, ahead, formed, -⟩ :=
    (statements_sound units).statement before tree after closed done clean
  exact ⟨tokens, ahead, waiting, formed⟩

structure StatementsBegin (units : Nat) : Prop where
  statement : (Parser.statement units).Begins (· = []) Stated
  forStatement : BeginsFrom .forWord (Parser.forStatement units) (· = []) Stated
  ifStatement : BeginsFrom .ifWord (Parser.ifStatement units) (· = []) Stated
  whileStatement : BeginsFrom .whileWord (Parser.whileStatement units) (· = []) Stated
  blockStatement : BeginsFrom .leftBrace (Parser.blockStatement units) (· = []) Stated
  functionStatement : BeginsFrom .funWord (Parser.functionStatement units) (· = []) Stated
  declarations : ∀ insideBlock, (Parser.declarations units insideBlock).Begins (· = [])
    fun trees => Forms (.declarations trees)
  declaration : (Parser.declaration units).Begins (· = [])
    fun found tokens => ∃ tree, found = some tree ∧ Forms (.declaration tree) tokens

theorem recover_errors (rule : Rule ParseState Stmt) (state : ParseState) :
    (recover rule state).errors = (rule state).errors := by
  cases ran : rule state with
  | done tree after => rw [recover_done ran]; rfl
  | failed error after => rw [recover_failed ran]; rfl
  | exhausted => rw [recover_exhausted ran]; rfl

theorem recover_begins_at {rule : Rule ParseState Stmt} {covers : Stmt → List Token → Prop}
    {front : List Token} {state : ParseState} (begins : rule.BeginsAt covers front state) :
    (recover rule).BeginsAt (fun found tokens => ∃ tree, found = some tree ∧ covers tree tokens)
      front state := by
  intro seen rest ahead unclean none
  rw [recover_errors] at unclean none
  rcases begins seen rest ahead unclean none with begun | misassigns
  · obtain ⟨known, inside, tree, more, filled, covered⟩ := begun
    exact .inl ⟨known, inside, some tree, more, filled, tree, rfl, covered⟩
  · exact .inr misassigns

namespace StatementsBegin

variable {units : Nat}

theorem for_statement_succ (below : StatementsBegin units) :
    BeginsFrom .forWord (Parser.forStatement (units + 1)) (· = []) Stated := by
  refine take_begins_from (fun _ => fillable_stated) fun keyword word => ?_
  refine phrase_begins for_clauses_sound for_clauses_begins
    fun ⟨initial, condition, increment⟩ => ?_
  refine phrase_begins (statement_stated units) below.statement fun body => pure_begins ?_
  rintro _ ⟨_, repeated, ⟨_, clauses, ⟨_, rfl, rfl⟩, formedClauses, rfl⟩, ⟨waiting, inner⟩, rfl⟩
  cases formedClauses with
  | intro opened start test divided step closed =>
      have formed := Forms.forLoop word opened start test divided step closed inner
      rw [← for_loop_eq] at formed
      exact ⟨waiting, by simpa using formed⟩

theorem while_statement_succ (below : StatementsBegin units) :
    BeginsFrom .whileWord (Parser.whileStatement (units + 1)) (· = []) Stated := by
  refine take_begins_from (fun _ => fillable_stated) fun keyword word => ?_
  refine expect_begins fun openParen opened => ?_
  refine phrase_begins expression_sound expression_begins fun condition => ?_
  refine expect_begins fun closeParen closed => ?_
  refine phrase_begins (statement_stated units) below.statement fun body => pure_begins ?_
  rintro _ ⟨_, repeated, ⟨_, ⟨_, asked, ⟨_, ⟨_, rfl, rfl⟩, rfl⟩, test, rfl⟩, rfl⟩, ⟨waiting, inner⟩,
    rfl⟩
  exact ⟨waiting, by simpa using Forms.whileLoop word opened test closed inner⟩

theorem block_statement_succ (below : StatementsBegin units) :
    BeginsFrom .leftBrace (Parser.blockStatement (units + 1)) (· = []) Stated := by
  refine take_begins_from (fun _ => fillable_stated) fun openBrace opened => ?_
  refine phrase_begins ((statements_sound units).declarations true) (below.declarations true)
    fun body => ?_
  refine expect_begins fun closeBrace closed => pure_begins ?_
  rintro _ ⟨_, ⟨_, inside, ⟨_, rfl, rfl⟩, enclosed, rfl⟩, rfl⟩
  exact ⟨false, by simpa using Forms.block opened enclosed closed⟩

theorem function_statement_succ (below : StatementsBegin units) :
    BeginsFrom .funWord (Parser.functionStatement (units + 1)) (· = []) Stated := by
  refine from_begins function_head_sound function_head_begins function_head_advances
    fun ⟨name, names⟩ => ?_
  refine phrase_begins ((statements_sound units).declarations true) (below.declarations true)
    fun body => ?_
  refine expect_begins fun closeBrace ended => pure_begins ?_
  rintro _ ⟨_, ⟨_, inside, head, enclosed, rfl⟩, rfl⟩
  cases head with
  | intro word named opened head closed begun =>
      have formed := Forms.function word named opened head closed begun enclosed ended
      exact ⟨false, by simpa using formed⟩

inductive IfHead (keyword : Token) (condition : Expr) : List Token → Prop where
  | intro {openParen closeParen : Token} {asked : List Token} (word : keyword.kind = .ifWord)
      (opened : openParen.kind = .leftParen) (test : Derives (.expression condition) asked)
      (closed : closeParen.kind = .rightParen) :
      IfHead keyword condition (keyword :: openParen :: (asked ++ [closeParen]))

theorem IfHead.stated {keyword : Token} {condition : Expr} {consequent : Stmt}
    {head first : List Token} (begun : IfHead keyword condition head)
    (stated : Stated consequent first) :
    Stated (.ifThen keyword condition consequent) (head ++ first) := by
  obtain ⟨waiting, formed⟩ := stated
  cases begun with
  | intro word opened test closed =>
      exact ⟨true, by simpa using Forms.ifThen word opened test closed formed⟩

theorem IfHead.divided {keyword elseWord : Token} {condition : Expr} {consequent alternative : Stmt}
    {head first second : List Token} (begun : IfHead keyword condition head)
    (formed : Forms (.statement false consequent) first) (divided : elseWord.kind = .elseWord)
    (stated : Stated alternative second) :
    Stated (.ifElse keyword condition consequent alternative)
      (head ++ first ++ [elseWord] ++ second) := by
  obtain ⟨waiting, formedToo⟩ := stated
  cases begun with
  | intro word opened test closed =>
      have whole := Forms.ifElse word opened test closed formed divided formedToo
      exact ⟨waiting, by simpa using whole⟩

def elseBranch (units : Nat) (keyword : Token) (condition : Expr) (consequent : Stmt) :
    Rule ParseState Stmt := do
  match ← Rule.accept [.elseWord] with
  | none => pure (.ifThen keyword condition consequent)
  | some _ =>
      let alternative ← Parser.statement units
      pure (.ifElse keyword condition consequent alternative)

theorem else_branch_advances (units : Nat) (keyword : Token) (condition : Expr)
    (consequent : Stmt) : (elseBranch units keyword condition consequent).Advances := by
  refine bind_advances (accept_advances _) fun elseWord => ?_
  cases elseWord with
  | none => exact pure_advances _
  | some elseWord =>
      exact bind_advances (statements_advance units).statement fun _ => pure_advances _

/-- An `else` is taken only behind a statement that does not wait for one. -/
theorem else_branch_begins_at (below : StatementsBegin units) {keyword : Token} {condition : Expr}
    {head used : List Token} {before after : ParseState} {consequent : Stmt}
    (begun : IfHead keyword condition head) (closed : after.Closed) (clean : after.recorded = [])
    (split : before.ahead = used ++ after.ahead) (reads : Reads before consequent after) :
    (elseBranch units keyword condition consequent).BeginsAt Stated (head ++ used) after := by
  obtain ⟨waiting, tokens, ahead, formed, settled⟩ := reads
  obtain rfl : tokens = used := List.append_cancel_right (ahead.symm.trans split)
  by_cases divided : after.current.kind = .elseWord
  · have still : waiting = false := by
      cases waiting with
      | false => rfl
      | true => exact absurd divided (settled rfl)
    subst still
    have later : (Parser.statement units >>= fun alternative =>
        pure (Stmt.ifElse keyword condition consequent alternative)).Begins
          (· = head ++ tokens ++ [after.current]) Stated := by
      refine phrase_begins (statement_stated units) below.statement fun alternative =>
        pure_begins ?_
      rintro _ ⟨_, second, rfl, stated, rfl⟩
      exact begun.divided formed divided stated
    apply taken_begins_at _
    · exact fillable_of_whole _ (begun.stated ⟨false, formed⟩)
    · exact later.run _ after.skip rfl closed.skip clean
    · rw [elseBranch, bind_eq, accept_some.mpr ⟨by simpa using divided, rfl, rfl⟩]
  · apply (pure_begins_at clean).of_run
    rw [elseBranch, bind_eq, accept_none.mpr ⟨by simpa using divided, rfl⟩]

theorem branches_begin (below : StatementsBegin units) (keyword : Token) (condition : Expr) :
    (Parser.statement units >>= elseBranch units keyword condition).Begins
      (IfHead keyword condition) Stated where
  advances := bind_advances below.statement.advances (else_branch_advances units keyword condition)
  fillable head begun := by
    obtain ⟨consequent, more, filled, stated⟩ := below.statement.fillable [] rfl
    exact ⟨_, more, filled, begun.stated stated⟩
  run head state begun closed clean := by
    apply bind_begins_at (fun consequent after =>
      statement_stated units state consequent after closed)
      (below.statement.run [] state rfl closed clean)
      (else_branch_advances units keyword condition)
    · exact fun consequent used stated => fillable_of_whole _ (begun.stated stated)
    · intro consequent after used ran cleanAfter split _
      have closedAfter := (below.statement.advances.leads ran).closed closed
      have reads := (statements_sound units).statement state consequent after closed ran cleanAfter
      exact below.else_branch_begins_at begun closedAfter cleanAfter split reads

theorem if_statement_succ (below : StatementsBegin units) :
    BeginsFrom .ifWord (Parser.ifStatement (units + 1)) (· = []) Stated := by
  refine take_begins_from (fun _ => fillable_stated) fun keyword word => ?_
  refine expect_begins fun openParen opened => ?_
  refine phrase_begins expression_sound expression_begins fun condition => ?_
  refine expect_begins fun closeParen closed => ?_
  apply (below.branches_begin keyword condition).of_before
  rintro _ ⟨_, ⟨_, asked, ⟨_, ⟨_, rfl, rfl⟩, rfl⟩, test, rfl⟩, rfl⟩
  simpa using IfHead.intro word opened test closed

theorem statement_succ (below : StatementsBegin units) :
    (Parser.statement (units + 1)).Begins (· = []) Stated where
  advances := (statements_advance (units + 1)).statement
  fillable _ := fillable_stated
  run front state start closed clean := by
    subst start
    cases kind : state.current.kind with
    | forWord =>
        apply (below.forStatement [] state rfl closed clean kind).of_run
        simp only [Parser.statement, bind_eq, Rule.current, supply_current, kind]
    | ifWord =>
        apply (below.ifStatement [] state rfl closed clean kind).of_run
        simp only [Parser.statement, bind_eq, Rule.current, supply_current, kind]
    | printWord =>
        apply (print_statement_begins [] state rfl closed clean kind).of_run
        simp only [Parser.statement, bind_eq, Rule.current, supply_current, kind]
    | whileWord =>
        apply (below.whileStatement [] state rfl closed clean kind).of_run
        simp only [Parser.statement, bind_eq, Rule.current, supply_current, kind]
    | leftBrace =>
        apply (below.blockStatement [] state rfl closed clean kind).of_run
        simp only [Parser.statement, bind_eq, Rule.current, supply_current, kind]
    | funWord =>
        apply (below.functionStatement [] state rfl closed clean kind).of_run
        simp only [Parser.statement, bind_eq, Rule.current, supply_current, kind]
    | returnWord =>
        apply (return_statement_begins [] state rfl closed clean kind).of_run
        simp only [Parser.statement, bind_eq, Rule.current, supply_current, kind]
    | breakWord =>
        apply (break_statement_begins [] state rfl closed clean kind).of_run
        simp only [Parser.statement, bind_eq, Rule.current, supply_current, kind]
    | classWord =>
        apply failed_begins_at (fillable_stated rfl)
        simp only [Parser.statement, bind_eq, Rule.current, supply_current, kind]
        rfl
    | _ =>
        have begins := expression_statement_begins.run [] state rfl closed clean
        apply (begins.of_covers fun _ _ formed => ⟨false, .expression formed⟩).of_run
        simp only [Parser.statement, bind_eq, Rule.current, supply_current, kind]

theorem declaration_succ (below : StatementsBegin units) :
    (Parser.declaration (units + 1)).Begins (· = [])
      fun found tokens => ∃ tree, found = some tree ∧ Forms (.declaration tree) tokens where
  advances := (statements_advance (units + 1)).declaration
  fillable := fillable_declaration
  run front state start closed clean := by
    subst start
    by_cases word : state.current.kind = .varWord
    · have begins := variable_declaration_begins [] state rfl closed clean word
      apply (recover_begins_at (begins.of_covers fun _ _ formed => .declared formed)).of_run
      simp only [Parser.declaration, bind_eq, Rule.current, supply_current, word]
      rfl
    · have declares : ∀ tree tokens, Stated tree tokens → Forms (.declaration tree) tokens := by
        rintro tree tokens ⟨waiting, formed⟩
        exact .statement formed
      have begins := below.statement.run [] state rfl closed clean
      apply (recover_begins_at (begins.of_covers declares)).of_run
      simp only [Parser.declaration, bind_eq, Rule.current, supply_current, word]
      rfl

theorem declarations_succ (below : StatementsBegin units) (insideBlock : Bool) :
    (Parser.declarations (units + 1) insideBlock).Begins (· = [])
      fun trees => Forms (.declarations trees) := by
  unfold Parser.declarations
  refine look_begins fun closed => ?_
  refine look_begins fun ended => ?_
  split
  · apply pure_begins
    rintro _ rfl
    exact .none
  · refine phrase_begins (statements_sound units).declaration below.declaration fun found => ?_
    refine phrase_begins ((statements_sound units).declarations insideBlock)
      (below.declarations insideBlock) fun rest => pure_begins ?_
    rintro _ ⟨_, others, ⟨_, first, rfl, ⟨tree, rfl, formed⟩, rfl⟩, formedOthers, rfl⟩
    exact .more formed formedOthers

end StatementsBegin

theorem statements_begin (units : Nat) : StatementsBegin units := by
  have exhausted :
    ∀ kind, BeginsFrom kind (Rule.exhausted : Rule ParseState Stmt) (· = []) Stated :=
    fun kind front state start closed clean _ =>
      (exhausted_begins fun _ => fillable_stated).run front state start closed clean
  induction units with
  | zero =>
      constructor
      · exact exhausted_begins fun _ => fillable_stated
      · exact exhausted .forWord
      · exact exhausted .ifWord
      · exact exhausted .whileWord
      · exact exhausted .leftBrace
      · exact exhausted .funWord
      · intro insideBlock
        apply exhausted_begins
        rintro _ rfl
        exact fillable_of_whole [] .none
      · exact exhausted_begins fillable_declaration
  | succ units below =>
      constructor
      · exact below.statement_succ
      · exact below.for_statement_succ
      · exact below.if_statement_succ
      · exact below.while_statement_succ
      · exact below.block_statement_succ
      · exact below.function_statement_succ
      · exact below.declarations_succ
      · exact below.declaration_succ

/-- Tokens in front of all errors of a text begin a program, unless a wrong target is among them. -/
theorem program_viable {state : ParseState} {seen rest : List Token} (closed : state.Closed)
    (clean : state.recorded = []) (ahead : state.ahead = seen ++ rest)
    (unclean : (program state).errors ≠ [])
    (none : ∀ error ∈ (program state).errors, error.found ∉ seen) :
    Continues (fun trees => Forms (.declarations trees)) seen rest ∨ Misassigns seen := by
  have begins := ((statements_begin (budget state.ahead.length)).declarations false).run [] state
    rfl closed clean
  exact begins seen rest ahead unclean none

end Parser

end Treewalk
