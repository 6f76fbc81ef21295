import Treewalk.Proofs.Check.InStep
import Treewalk.Proofs.Program.Acceptance
import Treewalk.Proofs.Session.Reached

/-!
# Code that is reported as unreachable never runs

A program and an edit of it go through the same runs: whatever stands in the place of a reported
part, no run comes to it. So replacing reported parts of the sources of a session shows nowhere, not
even when a function with such a part is called by a later source.
-/

namespace Treewalk

set_option autoImplicit false

/-- The tasks are the same, on code that is an edit and with values that are alike. -/
inductive Task.Alike : Task → Task → Prop where
  | evaluate (expression : Expr) : Alike (.evaluate expression) (.evaluate expression)
  | evaluateAll (expressions : List Expr) :
      Alike (.evaluateAll expressions) (.evaluateAll expressions)
  | call {callee calleeToo : Value} {values valuesToo : List Value} (paren : Token)
      (fits : callee.Alike .edited calleeToo)
      (fit : List.Forall₂ (Value.Alike .edited) values valuesToo) :
      Alike (.call paren callee values) (.call paren calleeToo valuesToo)
  | invoke {callable callableToo : Callable} {values valuesToo : List Value}
      (fits : (Value.callable callable).Alike .edited (.callable callableToo))
      (fit : List.Forall₂ (Value.Alike .edited) values valuesToo) :
      Alike (.invoke callable values) (.invoke callableToo valuesToo)
  | execute {log : List Replacement} {statement edited : Stmt}
      (edits : Stmt.Edits log statement edited) : Alike (.execute statement) (.execute edited)
  | iterate {log : List Replacement} {keyword : Token} {body edited : Stmt} (condition : Expr)
      (part : Stmt.EditsPart (Stmt.loopWarning keyword condition body) log body edited) :
      Alike (.iterate condition body) (.iterate condition edited)
  | executeIn {exited : Bool} {log : List Replacement} {body edited : List Stmt} (scope : ScopeId)
      (edits : Stmt.EditsIn exited log body edited) :
      Alike (.executeIn body scope) (.executeIn edited scope)
  | executeAll {exited : Bool} {log : List Replacement} {body edited : List Stmt}
      (edits : Stmt.EditsIn exited log body edited) :
      Alike (.executeAll body) (.executeAll edited)

/-- The runs have the same budget, and do the same on alike machines. -/
structure Run.Alike (run other : Run) : Prop where
  units : run.units = other.units
  task : run.task.Alike other.task
  machine : run.machine.Alike .edited other.machine

section Runs

variable {config : Config} {units : Nat} {machine other between : Machine}

theorem evaluate_back (alike : machine.Alike .edited other) {expression : Expr} {valueToo : Value}
    (done : evaluate config units expression other = .done valueToo between) :
    ∃ value after, evaluate config units expression machine = .done value after ∧
      value.Alike .edited valueToo ∧ after.Alike .edited between :=
  ((in_step_with config units).evaluate expression machine other alike).done_of_done done

theorem evaluate_all_back (alike : machine.Alike .edited other) {expressions : List Expr}
    {valuesToo : List Value}
    (done : evaluateAll config units expressions other = .done valuesToo between) :
    ∃ values after, evaluateAll config units expressions machine = .done values after ∧
      List.Forall₂ (Value.Alike .edited) values valuesToo ∧ after.Alike .edited between :=
  ((in_step_with config units).evaluateAll expressions machine other alike).done_of_done done

theorem execute_back (alike : machine.Alike .edited other) {log : List Replacement}
    {statement edited : Stmt} (edits : Stmt.Edits log statement edited)
    (done : execute config units edited other = .done .normal between) :
    ∃ after, execute config units statement machine = .done .normal after ∧
      after.Alike .edited between := by
  obtain ⟨flow, after, same, fits, alikeAfter⟩ :=
    ((in_step_with config units).execute log statement edited machine other edits
      alike).done_of_done done
  cases fits
  exact ⟨after, same, alikeAfter⟩

/-- What a run of the edit starts, the run of the code starts as well: it is no replaced part. -/
theorem starts_back {outer outerToo innerToo : Run} (alike : outer.Alike outerToo)
    (starts : Starts config outerToo innerToo) :
    ∃ inner, Starts config outer inner ∧ inner.Alike innerToo := by
  obtain ⟨units, task, machine⟩ := outer
  obtain ⟨same, related, heap⟩ := alike
  dsimp only at same related heap
  subst same
  cases starts with
  | grouping =>
      cases related
      exact ⟨_, .grouping, rfl, .evaluate _, heap⟩
  | operand =>
      cases related
      exact ⟨_, .operand, rfl, .evaluate _, heap⟩
  | binaryLeft =>
      cases related
      exact ⟨_, .binaryLeft, rfl, .evaluate _, heap⟩
  | binaryRight done =>
      cases related
      obtain ⟨value, after, done, -, heap⟩ := evaluate_back heap done
      exact ⟨_, .binaryRight done, rfl, .evaluate _, heap⟩
  | logicalLeft =>
      cases related
      exact ⟨_, .logicalLeft, rfl, .evaluate _, heap⟩
  | logicalRight done open_ =>
      cases related
      obtain ⟨value, after, done, fits, heap⟩ := evaluate_back heap done
      rw [← short_circuits_alike _ fits] at open_
      exact ⟨_, .logicalRight done open_, rfl, .evaluate _, heap⟩
  | assigned =>
      cases related
      exact ⟨_, .assigned, rfl, .evaluate _, heap⟩
  | callee =>
      cases related
      exact ⟨_, .callee, rfl, .evaluate _, heap⟩
  | arguments done =>
      cases related
      obtain ⟨value, after, done, -, heap⟩ := evaluate_back heap done
      exact ⟨_, .arguments done, rfl, .evaluateAll _, heap⟩
  | call done passed =>
      cases related
      obtain ⟨function, between, done, fits, heap⟩ := evaluate_back heap done
      obtain ⟨values, after, passed, fit, heap⟩ := evaluate_all_back heap passed
      exact ⟨_, .call done passed, rfl, .call _ fits fit, heap⟩
  | firstArgument =>
      cases related
      exact ⟨_, .firstArgument, rfl, .evaluate _, heap⟩
  | restArguments done =>
      cases related
      obtain ⟨value, after, done, -, heap⟩ := evaluate_back heap done
      exact ⟨_, .restArguments done, rfl, .evaluateAll _, heap⟩
  | invoke fits allowed =>
      cases related with
      | call paren alike fit =>
          rw [← heap.callDepth] at allowed
          rw [← fit.length_eq] at fits
          have entered := heap.enter_call
          cases alike with
          | plain captures =>
              exact ⟨_, .invoke fits allowed, rfl, .invoke (.plain captures) fit, entered⟩
          | function identity closure declaration =>
              have function := Value.Alike.function identity closure declaration
              rw [← InStepWith.arity_eq function] at fits
              exact ⟨_, .invoke fits allowed, rfl, .invoke function fit, entered⟩
  | @body _ _ callable declaration closure _ code =>
      cases related with
      | invoke alike fit =>
          cases alike with
          | plain captures =>
              -- A function that captures a scope is never plain.
              rcases callable with ⟨identity, found⟩
              cases code
              exact absurd ⟨identity, declaration, rfl⟩ (captures closure)
          | function identity closure declaration =>
              cases code
              obtain ⟨log, edits⟩ := declaration.2.2
              refine ⟨_, .body rfl, rfl, ?_, heap.prepared declaration _ fit⟩
              rw [heap.heap.next]
              exact .executeIn _ edits
  | expression =>
      cases related with
      | execute edits =>
          cases edits
          exact ⟨_, .expression, rfl, .evaluate _, heap⟩
  | printed =>
      cases related with
      | execute edits =>
          cases edits
          exact ⟨_, .printed, rfl, .evaluate _, heap⟩
  | initial =>
      cases related with
      | execute edits =>
          cases edits
          exact ⟨_, .initial, rfl, .evaluate _, heap⟩
  | block =>
      cases related with
      | execute edits =>
          cases edits with
          | block location inside =>
              refine ⟨_, .block, rfl, ?_, ?_⟩
              · rw [heap.heap.next]
                exact .executeIn _ inside
              · rw [heap.current]
                exact heap.open_scope _
  | ifThenCondition =>
      cases related with
      | execute edits =>
          cases edits
          exact ⟨_, .ifThenCondition, rfl, .evaluate _, heap⟩
  | ifThenConsequent done holds =>
      cases related with
      | execute edits =>
          cases edits with
          | ifThen keyword condition part =>
              obtain ⟨value, after, done, fits, heap⟩ := evaluate_back heap done
              rw [← fits.is_truthy] at holds
              exact ⟨_, .ifThenConsequent done holds, rfl,
                .execute (kept_of_consequent part done holds), heap⟩
  | ifElseCondition =>
      cases related with
      | execute edits =>
          cases edits
          exact ⟨_, .ifElseCondition, rfl, .evaluate _, heap⟩
  | ifElseConsequent done holds =>
      cases related with
      | execute edits =>
          cases edits with
          | ifElse keyword condition first second =>
              obtain ⟨value, after, done, fits, heap⟩ := evaluate_back heap done
              rw [← fits.is_truthy] at holds
              exact ⟨_, .ifElseConsequent done holds, rfl,
                .execute (kept_of_consequent first done holds), heap⟩
  | ifElseAlternative done fails =>
      cases related with
      | execute edits =>
          cases edits with
          | ifElse keyword condition first second =>
              obtain ⟨value, after, done, fits, heap⟩ := evaluate_back heap done
              rw [← fits.is_truthy] at fails
              exact ⟨_, .ifElseAlternative done fails, rfl,
                .execute (kept_of_alternative second done fails), heap⟩
  | loop =>
      cases related with
      | execute edits =>
          cases edits with
          | loop keyword condition part => exact ⟨_, .loop, rfl, .iterate _ part, heap⟩
  | result =>
      cases related with
      | execute edits =>
          cases edits
          exact ⟨_, .result, rfl, .evaluate _, heap⟩
  | condition =>
      cases related
      exact ⟨_, .condition, rfl, .evaluate _, heap⟩
  | round done holds =>
      cases related with
      | iterate condition part =>
          obtain ⟨value, after, done, fits, heap⟩ := evaluate_back heap done
          rw [← fits.is_truthy] at holds
          exact ⟨_, .round done holds, rfl, .execute (kept_of_body part done holds), heap⟩
  | again done holds ran =>
      cases related with
      | iterate condition part =>
          obtain ⟨value, between, done, fits, heap⟩ := evaluate_back heap done
          rw [← fits.is_truthy] at holds
          obtain ⟨after, ran, heap⟩ := execute_back heap (kept_of_body part done holds) ran
          exact ⟨_, .again done holds ran, rfl, .iterate _ part, heap⟩
  | inScope =>
      cases related with
      | executeIn scope edits => exact ⟨_, .inScope, rfl, .executeAll edits, heap.enter _⟩
  | firstStatement =>
      cases related with
      | executeAll edits =>
          cases edits with
          | cons inside later => exact ⟨_, .firstStatement, rfl, .execute inside, heap⟩
          | replaced others inside exits reported =>
              exact ⟨_, .firstStatement, rfl, .execute inside, heap⟩
  | restStatements done =>
      cases related with
      | executeAll edits =>
          cases edits with
          | cons inside later =>
              obtain ⟨after, done, heap⟩ := execute_back heap inside done
              exact ⟨_, .restStatements done, rfl, .executeAll later, heap⟩
          | replaced others inside exits reported =>
              -- The replaced rest would start only behind a statement that ends normally.
              obtain ⟨after, done, heap⟩ := execute_back heap inside done
              exact absurd rfl (not_normal_of_exits exits done)

theorem reached_back {top topToo runToo : Run} (alike : top.Alike topToo)
    (reached : Relation.ReflTransGen (Starts config) topToo runToo) :
    ∃ run, Relation.ReflTransGen (Starts config) top run ∧ run.Alike runToo := by
  induction reached with
  | refl => exact ⟨top, .refl, alike⟩
  | tail _ starts ih =>
      obtain ⟨outer, earlier, alikeOuter⟩ := ih
      obtain ⟨inner, starts, alikeInner⟩ := starts_back alikeOuter starts
      exact ⟨inner, .tail earlier starts, alikeInner⟩

/-- An edit has an expression in a place only if the code has it there. -/
theorem edits_expression_iff {log : List Replacement} {statement edited : Stmt}
    (edits : Stmt.Edits log statement edited) (value : Expr) :
    statement = .expression value ↔ edited = .expression value := by
  cases edits <;> simp

theorem edits_in_nil_iff {exited : Bool} {log : List Replacement} {body edited : List Stmt}
    (edits : Stmt.EditsIn exited log body edited) : body = [] ↔ edited = [] := by
  cases edits <;> simp

theorem begins_back {program edited : Program} {exited : Bool} {log : List Replacement}
    {runToo : Run} (edits : Stmt.EditsIn exited log program edited)
    (alike : machine.Alike .edited other) (begins : Begins config units edited other runToo) :
    ∃ run, Begins config units program machine run ∧ run.Alike runToo := by
  induction begins generalizing program exited log machine with
  | @expression value rest _ =>
      have first : ∀ log statement, Stmt.Edits log statement (.expression value) →
          statement = .expression value :=
        fun _ _ inside => (edits_expression_iff inside value).mpr rfl
      cases edits with
      | cons inside later =>
          cases first _ _ inside
          exact ⟨_, .expression, rfl, .evaluate value, alike⟩
      | replaced others inside exits reported =>
          cases first _ _ inside
          cases exits
  | statement distinct =>
      cases edits with
      | cons inside later =>
          have distinct := fun value same =>
            distinct value ((edits_expression_iff inside value).mp same)
          exact ⟨_, .statement distinct, rfl, .execute inside, alike⟩
      | replaced others inside exits reported =>
          have distinct := fun value same =>
            distinct value ((edits_expression_iff inside value).mp same)
          exact ⟨_, .statement distinct, rfl, .execute inside, alike⟩
  | @behindExpression value rest _ _ _ _ done later ih =>
      cases edits with
      | cons inside following =>
          cases (edits_expression_iff inside value).mpr rfl
          obtain ⟨result, between, done, -, alike⟩ := evaluate_back alike done
          obtain ⟨run, begins, alikeRun⟩ := ih following alike
          exact ⟨run, .behindExpression done begins, alikeRun⟩
      | replaced others inside exits reported =>
          cases (edits_expression_iff inside value).mpr rfl
          cases exits
  | behindStatement distinct done later ih =>
      cases edits with
      | cons inside following =>
          have distinct := fun value same =>
            distinct value ((edits_expression_iff inside value).mp same)
          obtain ⟨between, done, alike⟩ := execute_back alike inside done
          obtain ⟨run, begins, alikeRun⟩ := ih following alike
          exact ⟨run, .behindStatement distinct done begins, alikeRun⟩
      | replaced others inside exits reported =>
          obtain ⟨between, done, alike⟩ := execute_back alike inside done
          exact absurd rfl (not_normal_of_exits exits done)

/-- Every run that happens in the edited program happens in the program, on the code that it is an
edit of. -/
theorem happens_back {program edited : Program} {exited : Bool} {log : List Replacement}
    {runToo : Run} (edits : Stmt.EditsIn exited log program edited)
    (alike : machine.Alike .edited other) (happens : Happens config units edited other runToo) :
    ∃ run, Happens config units program machine run ∧ run.Alike runToo := by
  obtain ⟨topToo, begins, reached⟩ := happens
  obtain ⟨top, begins, alikeTop⟩ := begins_back edits alike begins
  obtain ⟨run, reached, alikeRun⟩ := reached_back alikeTop reached
  exact ⟨run, ⟨top, begins, reached⟩, alikeRun⟩

theorem interpret_in_step {program edited : Program} {exited : Bool} {log : List Replacement}
    (edits : Stmt.EditsIn exited log program edited) (alike : machine.Alike .edited other) :
    (interpret config units program machine).Alike .edited (Option.Rel (Value.Alike .edited))
      (interpret config units edited other) := by
  have parts := in_step_with config units
  induction program using program_induction generalizing edited exited log machine other with
  | empty =>
      cases edits
      exact .done .none alike
  | trailing value =>
      cases edits with
      | cons inside later =>
          cases inside
          obtain rfl := (edits_in_nil_iff later).mp rfl
          apply Outcome.alike_and_then (parts.evaluate value machine other alike)
          exact fun _ _ _ _ _ fits alike => .done (.some fits) alike
      | replaced others inside exits reported => cases exits
  | expression value rest inside ih =>
      cases edits with
      | @cons _ _ _ _ _ _ others kept later =>
          cases kept
          have more : others ≠ [] := fun none => inside ((edits_in_nil_iff later).mpr none)
          rw [interpret_expression config units machine value inside,
            interpret_expression config units other value more]
          apply Outcome.alike_and_then (parts.evaluate value machine other alike)
          exact fun _ _ _ _ _ _ alike => ih later alike
      | replaced others kept exits reported => cases exits
  | statement first rest distinct ih =>
      have apart : ∀ log edited, Stmt.Edits log first edited →
          ∀ value, edited ≠ .expression value :=
        fun log edited kept value same =>
          distinct value ((edits_expression_iff kept value).mpr same)
      rw [interpret_statement config units machine rest distinct]
      cases edits with
      | cons kept later =>
          rw [interpret_statement config units other _ (apart _ _ kept)]
          apply Outcome.alike_and_then (parts.execute _ _ _ machine other kept alike)
          intro flow flowToo _ _ _ fits alike
          cases fits with
          | normal => exact ih later alike
          | broke => exact .done .none alike
          | returned fits => exact .done .none alike
      | replaced others kept exits reported =>
          rw [interpret_statement config units other _ (apart _ _ kept)]
          apply Outcome.alike_and_then (parts.execute _ _ _ machine other kept alike)
          intro flow flowToo _ _ done fits alike
          cases fits with
          | normal => exact absurd rfl (not_normal_of_exits exits done)
          | broke => exact .done .none alike
          | returned fits => exact .done .none alike

end Runs

/-- What is left of a source once parts that the check reports have been replaced. -/
def Analysis.edited (analysis : Analysis) (program : Program) : Analysis :=
  { analysis with result := .ok program }

/-- Two sessions that ran the same sources, the second with edits of them. -/
inductive Session.Twins (config : Config) : Session → Session → Prop where
  | start : Twins config (Session.start config) (Session.start config)
  | run {session twin after afterToo : Session} {units : Nat} {source : String}
      {program edited : Program} {log : List Replacement} {shown shownToo : Ran}
      (earlier : Twins config session twin) (accepted : (analyze source).result = .ok program)
      (edits : Stmt.EditsIn false log program edited)
      (ended : session.runAnalysis units (analyze source) = some (shown, after))
      (endedToo : twin.runAnalysis units ((analyze source).edited edited) =
        some (shownToo, afterToo)) : Twins config after afterToo

/-- Running shows the same: the lines, the warnings, and the failure or the value. -/
structure Ran.Alike (ran other : Ran) : Prop where
  output : ran.output = other.output
  warnings : ran.warnings = other.warnings
  failure : ∀ failure, ran.result = .error failure ↔ other.result = .error failure
  value : ∀ value valueToo, ran.result = .ok value → other.result = .ok valueToo →
    Option.Rel (Value.Alike .edited) value valueToo

structure Session.Alike (session twin : Session) : Prop where
  config : session.config = twin.config
  machine : session.machine.Alike .edited twin.machine

namespace Session

variable {config : Config} {session twin : Session}

theorem Alike.cleared (alike : session.Alike twin) : session.cleared.Alike .edited twin.cleared :=
  { alike.machine with output := rfl }

/-- Sessions on alike machines run a program and its edit to the same end. -/
theorem run_in_step (units : Nat) {analysis : Analysis} {program edited : Program}
    {exited : Bool} {log : List Replacement} (accepted : analysis.result = .ok program)
    (edits : Stmt.EditsIn exited log program edited) (alike : session.Alike twin) :
    Option.Rel (fun shown shownToo => shown.1.Alike shownToo.1 ∧ shown.2.Alike shownToo.2)
      (session.runAnalysis units analysis) (twin.runAnalysis units (analysis.edited edited)) := by
  have ended : (interpret session.config units program session.cleared).Alike .edited
      (Option.Rel (Value.Alike .edited)) (interpret twin.config units edited twin.cleared) := by
    rw [alike.config]
    exact interpret_in_step edits alike.cleared
  unfold runAnalysis
  rw [accepted]
  simp only [Analysis.edited]
  generalize interpret session.config units program session.cleared = outcome at ended
  generalize interpret twin.config units edited twin.cleared = outcomeToo at ended
  cases ended with
  | done fits alikeAfter =>
      refine .some ⟨⟨alikeAfter.output, rfl, by simp, ?_⟩, alike.config, alikeAfter⟩
      intro value valueToo here there
      cases here
      cases there
      exact fits
  | raised blames alikeAfter =>
      have equal : _ = _ := blames
      subst equal
      refine .some ⟨⟨alikeAfter.output, rfl, by simp, ?_⟩, alike.config, alikeAfter⟩
      intro value valueToo here
      cases here
  | exhausted => exact .none
  | stuck => exact .none

theorem twins_alike (twins : Twins config session twin) : session.Alike twin := by
  induction twins with
  | start => exact ⟨rfl, Machine.alike_initial⟩
  | @run _ _ _ _ units _ _ _ _ _ _ earlier accepted edits ended endedToo ih =>
      have inStep := run_in_step units accepted edits ih
      rw [ended, endedToo] at inStep
      cases inStep with
      | some related => exact related.2

theorem twins_of_reached (reached : Reached config session) : Twins config session session := by
  induction reached with
  | start => exact .start
  | @run session after units source shown earlier ended ih =>
      rcases run_cases ended with rfl | ⟨program, machine, accepted, -, -⟩
      · exact ih
      · have same : (analyze source).edited program = analyze source := by
          rw [Analysis.edited, ← accepted]
        have endedToo : session.runAnalysis units ((analyze source).edited program) =
            some (shown, after) := by
          rw [same]
          exact ended
        exact .run ih accepted (Stmt.edits_in_refl false program) ended endedToo

end Session

/-- The first run starts the second one, in a part of its code that the check reports as
unreachable. -/
inductive Trespasses (config : Config) : Run → Run → Prop where
  | consequent {units : Nat} {machine between : Machine} {keyword : Token} {condition : Expr}
      {consequent : Stmt} {value : Value} {warning : Warning}
      (reported : warning ∈ Stmt.consequentWarning condition consequent)
      (done : evaluate config units condition machine = .done value between)
      (holds : value.isTruthy = true) :
      Trespasses config ⟨units + 1, .execute (.ifThen keyword condition consequent), machine⟩
        ⟨units, .execute consequent, between⟩
  | firstBranch {units : Nat} {machine between : Machine} {keyword : Token} {condition : Expr}
      {consequent alternative : Stmt} {value : Value} {warning : Warning}
      (reported : warning ∈ Stmt.consequentWarning condition consequent)
      (done : evaluate config units condition machine = .done value between)
      (holds : value.isTruthy = true) :
      Trespasses config
        ⟨units + 1, .execute (.ifElse keyword condition consequent alternative), machine⟩
        ⟨units, .execute consequent, between⟩
  | secondBranch {units : Nat} {machine between : Machine} {keyword : Token} {condition : Expr}
      {consequent alternative : Stmt} {value : Value} {warning : Warning}
      (reported : warning ∈ Stmt.alternativeWarning condition alternative)
      (done : evaluate config units condition machine = .done value between)
      (fails : value.isTruthy = false) :
      Trespasses config
        ⟨units + 1, .execute (.ifElse keyword condition consequent alternative), machine⟩
        ⟨units, .execute alternative, between⟩
  | body {units : Nat} {machine between : Machine} {keyword : Token} {condition : Expr}
      {body : Stmt} {value : Value} {warning : Warning}
      (reported : warning ∈ Stmt.loopWarning keyword condition body)
      (unreachable : warning.suspicion.isUnreachable = true)
      (done : evaluate config units condition machine = .done value between)
      (holds : value.isTruthy = true) :
      Trespasses config ⟨units + 1, .iterate condition body, machine⟩
        ⟨units, .execute body, between⟩
  | rest {units : Nat} {machine between : Machine} {first : Stmt} {rest : List Stmt}
      (exits : first.alwaysExits = true)
      (done : execute config units first machine = .done .normal between) :
      Trespasses config ⟨units + 1, .executeAll (first :: rest), machine⟩
        ⟨units, .executeAll rest, between⟩

theorem not_trespasses (config : Config) (outer inner : Run) : ¬Trespasses config outer inner := by
  intro trespasses
  cases trespasses with
  | consequent reported done holds =>
      rw [constant_value (Stmt.consequent_warning_cases reported) done] at holds
      cases holds
  | firstBranch reported done holds =>
      rw [constant_value (Stmt.consequent_warning_cases reported) done] at holds
      cases holds
  | secondBranch reported done fails =>
      rw [constant_value (Stmt.alternative_warning_cases reported) done] at fails
      cases fails
  | body reported unreachable done holds =>
      rw [constant_value (Stmt.loop_warning_cases reported unreachable) done] at holds
      cases holds
  | rest exits done => exact not_normal_of_exits exits done rfl

mutual

/-- What always exits has an exit that is no part of a loop or a function inside it. -/
theorem stray_of_always_exits (statement : Stmt) (exits : statement.alwaysExits = true) :
    statement.strayExits Context.top ≠ [] := by
  cases statement with
  | returnValue keyword value => exact nofun
  | breakLoop keyword => exact nofun
  | block body location => exact stray_of_any_always_exits body exits
  | ifElse keyword condition consequent alternative =>
      have both : consequent.alwaysExits = true ∧ alternative.alwaysExits = true :=
        Bool.and_eq_true_iff.mp exits
      exact List.append_ne_nil_of_left_ne_nil (stray_of_always_exits consequent both.1) _
  | expression value => cases exits
  | print keyword value => cases exits
  | declare name initial => cases exits
  | ifThen keyword condition consequent => cases exits
  | loop keyword condition body => cases exits
  | function name parameters body => cases exits

theorem stray_of_any_always_exits (body : List Stmt) (exits : Stmt.anyAlwaysExits body = true) :
    Stmt.strayExitsIn Context.top body ≠ [] := by
  cases body with
  | nil => cases exits
  | cons first rest =>
      rw [Stmt.anyAlwaysExits, Bool.or_eq_true_iff] at exits
      rcases exits with here | later
      · exact List.append_ne_nil_of_left_ne_nil (stray_of_always_exits first here) _
      · exact List.append_ne_nil_of_right_ne_nil _ (stray_of_any_always_exits rest later)

end

/-- Code that the check reports as unreachable is never run, and what stands in its place does not
matter. Whatever sources a session ran before, and whatever stood in the reported parts of these: no
run that happens in an accepted source goes on into a reported part; each report about unreachable
code can be answered by putting any statement there; and the source with any such edits prints the
same lines and ends with the same error or with the same value, except that functions have the edits
in their bodies, and each of its statements with the same flow. -/
theorem unreachable_code_never_runs (config : Config) (session twin : Session)
    (twins : Session.Twins config session twin) (source : String) (program : Program)
    (accepted : (analyze source).result = .ok program) (units : Nat) :
    (∀ outer inner, Happens config units program session.cleared outer →
      ¬Trespasses config outer inner) ∧
    Stmt.anyAlwaysExits program = false ∧
    (∀ warning ∈ (analyze source).warnings, warning.suspicion.isUnreachable = true →
      ∀ other, ∃ edited, Stmt.EditsIn false [⟨warning, [other]⟩] program edited) ∧
    ∀ log edited, Stmt.EditsIn false log program edited →
      (∀ replacement ∈ log, replacement.warning ∈ (analyze source).warnings) ∧
      Option.Rel (fun shown shownToo => shown.1.Alike shownToo.1 ∧ shown.2.Alike shownToo.2)
        (session.runAnalysis units (analyze source))
        (twin.runAnalysis units ((analyze source).edited edited)) ∧
      ∀ runToo, Happens config units edited twin.cleared runToo →
        ∃ run, Happens config units program session.cleared run ∧ run.Alike runToo ∧
          ∀ statement statementToo, run.task = .execute statement →
            runToo.task = .execute statementToo →
            (execute config run.units statement run.machine).Alike .edited (Flow.Alike .edited)
              (execute config runToo.units statementToo runToo.machine) := by
  have alike := Session.twins_alike twins
  obtain ⟨-, settled, warnings⟩ := analyze_accepted accepted
  refine ⟨?_, ?_, ?_, ?_⟩
  · exact fun outer inner _ => not_trespasses config outer inner
  · rw [← Bool.not_eq_true]
    exact fun exits => stray_of_any_always_exits program exits settled
  · intro warning found unreachable other
    rw [warnings] at found
    exact Stmt.edits_in_allowed unreachable other false program
      (flow_warning_of_unreachable found unreachable)
  intro log edited edits
  refine ⟨?_, ?_, ?_⟩
  · intro replacement found
    rw [warnings, warning_iff]
    exact .inl (Stmt.edits_in_reported program edits replacement found)
  · exact Session.run_in_step units accepted edits alike
  · intro runToo happens
    obtain ⟨run, happens, alikeRun⟩ := happens_back edits alike.cleared happens
    refine ⟨run, happens, alikeRun, ?_⟩
    intro statement statementToo task taskToo
    have related := alikeRun.task
    rw [task, taskToo] at related
    cases related with
    | execute inside =>
        rw [← alikeRun.units]
        exact (in_step_with config run.units).execute _ _ _ _ _ inside alikeRun.machine

theorem unreachable_code_never_runs_return :
    ∃ program warning,
      (analyze "fun f() { return 1; print 2; } print f();").result = .ok program ∧
      warning ∈ (analyze "fun f() { return 1; print 2; } print f();").warnings ∧
      ∀ other, ∃ edited shown after, Stmt.EditsIn false [⟨warning, [other]⟩] program edited ∧
        (Session.start ⟨4, fun _ => 0⟩).runAnalysis 60
          ((analyze "fun f() { return 1; print 2; } print f();").edited edited) =
            some (shown, after) ∧
        shown.output = #["1"] := by
  obtain ⟨program, accepted⟩ :
      ∃ program, (analyze "fun f() { return 1; print 2; } print f();").result = .ok program :=
    exists_ok (by decide +kernel)
  have reported : ((analyze "fun f() { return 1; print 2; } print f();").warnings.any
      fun warning => warning.suspicion.isUnreachable) = true := by
    decide +kernel
  have prints : (((Session.start ⟨4, fun _ => 0⟩).run 60
      "fun f() { return 1; print 2; } print f();").any fun ran => ran.1.output = #["1"]) =
        true := by
    decide +kernel
  obtain ⟨warning, found, unreachable⟩ := List.any_eq_true.mp reported
  obtain ⟨⟨shown, after⟩, ended, same⟩ := (Option.any_eq_true _ _).mp prints
  obtain ⟨-, -, allowed, inStep⟩ :=
    unreachable_code_never_runs _ _ _ (Session.twins_of_reached .start) _ program accepted 60
  refine ⟨program, warning, accepted, found, ?_⟩
  intro other
  obtain ⟨edited, edits⟩ := allowed warning found unreachable other
  have related := (inStep _ edited edits).2.1
  rw [show (Session.start _).runAnalysis 60 _ = _ from ended] at related
  generalize other_ended : Session.runAnalysis 60 (Analysis.edited _ edited) _ = ran at related
  cases related with
  | some related =>
      rename_i shownToo
      refine ⟨edited, shownToo.1, shownToo.2, edits, other_ended, ?_⟩
      rw [← related.1.output]
      exact of_decide_eq_true same

end Treewalk
