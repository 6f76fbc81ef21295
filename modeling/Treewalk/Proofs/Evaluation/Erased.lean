import Treewalk.Proofs.Evaluation.Alike
import Treewalk.Proofs.Program.Erase

/-!
# Evaluation does not look at places

Two programs that are equal without lines, spans and the keywords of loops go through the same runs:
they print the same, and end with alike values or with the same cause at the same token, except for
its place. The functions in the two heaps differ in their places too, so the argument is one
induction on the budget over pairs of code, with alike machines.
-/

namespace Treewalk

set_option autoImplicit false

def FunctionDecl.erase (declaration : FunctionDecl) : FunctionDecl where
  name := declaration.name.erase
  parameters := declaration.parameters.map Token.erase
  body := Stmt.eraseAll declaration.body

theorem lexemes_of_erase {tokens others : List Token}
    (same : tokens.map Token.erase = others.map Token.erase) :
    tokens.map Token.lexeme = others.map Token.lexeme := by
  have lexemes := congrArg (List.map Token.lexeme) same
  rw [List.map_map, List.map_map] at lexemes
  exact lexemes

/-- Functions stand for each other if they differ in places only, and so do errors. -/
def Likeness.erased : Likeness where
  declaration first second := first.erase = second.erase
  error first second := first.cause = second.cause ∧ first.site.erase = second.site.erase
  name alike := congrArg (fun declaration => declaration.name.lexeme) alike
  parameters alike := lexemes_of_erase (congrArg FunctionDecl.parameters alike)

/-- All parts of the evaluator end in the same way on code that differs in places only, when they
are given `units` of budget. -/
structure PlacelessWith (config : Config) (units : Nat) : Prop where
  evaluate : ∀ expression twin machine other, expression.erase = twin.erase →
    machine.Alike .erased other →
    (evaluate config units expression machine).Alike .erased (Value.Alike .erased)
      (evaluate config units twin other)
  evaluateAll : ∀ expressions twins machine other,
    Expr.eraseAll expressions = Expr.eraseAll twins → machine.Alike .erased other →
    (evaluateAll config units expressions machine).Alike .erased
      (List.Forall₂ (Value.Alike .erased)) (evaluateAll config units twins other)
  call : ∀ paren parenToo callee calleeToo values valuesToo machine other,
    paren.erase = parenToo.erase → machine.Alike .erased other →
    callee.Alike .erased calleeToo → List.Forall₂ (Value.Alike .erased) values valuesToo →
    (call config units paren callee values machine).Alike .erased (Value.Alike .erased)
      (call config units parenToo calleeToo valuesToo other)
  invoke : ∀ callable callableToo values valuesToo machine other, machine.Alike .erased other →
    (Value.callable callable).Alike .erased (.callable callableToo) →
    List.Forall₂ (Value.Alike .erased) values valuesToo →
    (invoke config units callable values machine).Alike .erased (Value.Alike .erased)
      (invoke config units callableToo valuesToo other)
  execute : ∀ statement twin machine other, statement.erase = twin.erase →
    machine.Alike .erased other →
    (execute config units statement machine).Alike .erased (Flow.Alike .erased)
      (execute config units twin other)
  iterate : ∀ condition conditionToo body bodyToo machine other,
    condition.erase = conditionToo.erase → body.erase = bodyToo.erase →
    machine.Alike .erased other →
    (iterate config units condition body machine).Alike .erased (Flow.Alike .erased)
      (iterate config units conditionToo bodyToo other)
  executeIn : ∀ body twins scope machine other, Stmt.eraseAll body = Stmt.eraseAll twins →
    machine.Alike .erased other →
    (executeIn config units body scope machine).Alike .erased (Flow.Alike .erased)
      (executeIn config units twins scope other)
  executeAll : ∀ body twins machine other, Stmt.eraseAll body = Stmt.eraseAll twins →
    machine.Alike .erased other →
    (executeAll config units body machine).Alike .erased (Flow.Alike .erased)
      (executeAll config units twins other)

namespace PlacelessWith

open Outcome

variable {config : Config} {units : Nat}

theorem evaluate_succ (below : PlacelessWith config units) (expression twin : Expr)
    (machine other : Machine) (same : expression.erase = twin.erase)
    (alike : machine.Alike .erased other) :
    (Treewalk.evaluate config (units + 1) expression machine).Alike .erased (Value.Alike .erased)
      (Treewalk.evaluate config (units + 1) twin other) := by
  cases expression with
  | literal value line location =>
      cases twin with
      | literal valueToo lineToo locationToo =>
          injection same with sameValue
          subst sameValue
          exact .done (Value.alike_literal value) alike
      | _ => cases same
  | grouping inner location =>
      cases twin with
      | grouping innerToo locationToo =>
          injection same with sameInner
          exact below.evaluate inner innerToo machine other sameInner alike
      | _ => cases same
  | unary operator operand =>
      cases twin with
      | unary operatorToo operandToo =>
          injection same with sameOperator sameOperand
          have kinds : operator.kind = operatorToo.kind := Token.kind_of_erase sameOperator
          apply alike_and_then (below.evaluate operand operandToo machine other sameOperand alike)
          intro value valueToo _ _ _ fits alike
          rw [kinds, apply_unary_alike operatorToo.kind fits]
          exact applied_alike alike (fun _ => apply_unary_captures _ _) fun _ => ⟨rfl, sameOperator⟩
      | _ => cases same
  | binary left operator right =>
      cases twin with
      | binary leftToo operatorToo rightToo =>
          injection same with sameLeft sameOperator sameRight
          have kinds : operator.kind = operatorToo.kind := Token.kind_of_erase sameOperator
          apply alike_and_then (below.evaluate left leftToo machine other sameLeft alike)
          intro first firstToo _ _ _ fitsFirst alike
          apply alike_and_then (below.evaluate right rightToo _ _ sameRight alike)
          intro second secondToo _ _ _ fitsSecond alike
          rw [kinds, apply_binary_alike operatorToo.kind fitsFirst fitsSecond]
          exact applied_alike alike (fun _ => apply_binary_captures _ _ _)
            fun _ => ⟨rfl, sameOperator⟩
      | _ => cases same
  | logical left operator right =>
      cases twin with
      | logical leftToo operatorToo rightToo =>
          injection same with sameLeft sameOperator sameRight
          have kinds : operator.kind = operatorToo.kind := Token.kind_of_erase sameOperator
          apply alike_and_then (below.evaluate left leftToo machine other sameLeft alike)
          intro first firstToo _ _ _ fits alike
          rw [kinds, short_circuits_alike operatorToo.kind fits]
          split
          · exact .done fits alike
          · exact below.evaluate right rightToo _ _ sameRight alike
      | _ => cases same
  | reference name =>
      cases twin with
      | reference nameToo =>
          injection same with sameName
          exact read_variable_alike alike (Token.lexeme_of_erase sameName)
            fun _ => ⟨rfl, sameName⟩
      | _ => cases same
  | assign name value =>
      cases twin with
      | assign nameToo valueToo =>
          injection same with sameName sameValue
          apply alike_and_then (below.evaluate value valueToo machine other sameValue alike)
          intro result resultToo _ _ _ fits alike
          exact write_variable_alike alike (Token.lexeme_of_erase sameName)
            (fun _ => ⟨rfl, sameName⟩) fits
      | _ => cases same
  | call callee paren arguments =>
      cases twin with
      | call calleeToo parenToo argumentsToo =>
          injection same with sameCallee sameParen sameArguments
          apply alike_and_then (below.evaluate callee calleeToo machine other sameCallee alike)
          intro function functionToo _ _ _ fits alike
          apply alike_and_then (below.evaluateAll arguments argumentsToo _ _ sameArguments alike)
          intro values valuesToo _ _ _ fit alike
          exact below.call paren parenToo function functionToo values valuesToo _ _ sameParen alike
            fits fit
      | _ => cases same

theorem evaluate_all_succ (below : PlacelessWith config units) (expressions twins : List Expr)
    (machine other : Machine) (same : Expr.eraseAll expressions = Expr.eraseAll twins)
    (alike : machine.Alike .erased other) :
    (Treewalk.evaluateAll config (units + 1) expressions machine).Alike .erased
      (List.Forall₂ (Value.Alike .erased))
      (Treewalk.evaluateAll config (units + 1) twins other) := by
  cases expressions with
  | nil =>
      cases twins with
      | nil => exact .done .nil alike
      | cons firstToo restToo => cases same
  | cons first rest =>
      cases twins with
      | nil => cases same
      | cons firstToo restToo =>
          injection same with sameFirst sameRest
          apply alike_and_then (below.evaluate first firstToo machine other sameFirst alike)
          intro value valueToo _ _ _ fits alike
          apply alike_and_then (below.evaluateAll rest restToo _ _ sameRest alike)
          intro values valuesToo _ _ _ fit alike
          exact .done (.cons fits fit) alike

theorem arity_eq {callable callableToo : Callable}
    (alike : (Value.callable callable).Alike .erased (.callable callableToo)) :
    callable.arity = callableToo.arity := by
  cases alike with
  | plain => rfl
  | function identity closure declaration =>
      have lengths := congrArg List.length (Likeness.erased.parameters declaration)
      rw [List.length_map, List.length_map] at lengths
      exact lengths

theorem call_succ (below : PlacelessWith config units) (paren parenToo : Token)
    (callee calleeToo : Value) (values valuesToo : List Value) (machine other : Machine)
    (same : paren.erase = parenToo.erase) (alike : machine.Alike .erased other)
    (fits : callee.Alike .erased calleeToo)
    (fit : List.Forall₂ (Value.Alike .erased) values valuesToo) :
    (Treewalk.call config (units + 1) paren callee values machine).Alike .erased
      (Value.Alike .erased)
      (Treewalk.call config (units + 1) parenToo calleeToo valuesToo other) := by
  have callables : ∀ callable callableToo,
      (Value.callable callable).Alike .erased (.callable callableToo) →
      (Treewalk.call config (units + 1) paren (.callable callable) values machine).Alike .erased
        (Value.Alike .erased)
        (Treewalk.call config (units + 1) parenToo (.callable callableToo) valuesToo other) := by
    intro callable callableToo fits
    unfold Treewalk.call
    dsimp only
    rw [arity_eq fits, fit.length_eq, alike.callDepth]
    split
    · exact .raised ⟨rfl, same⟩ alike
    · split
      · exact .raised ⟨rfl, same⟩ alike
      · apply alike_on_exit (below.invoke callable callableToo values valuesToo _ _
          alike.enter_call fits fit)
        exact fun _ _ alike => alike.leave_call
  cases fits with
  | plain captures =>
      cases callee with
      | callable callable => exact callables callable callable (.plain captures)
      | nil => exact .raised ⟨rfl, same⟩ alike
      | boolean value => exact .raised ⟨rfl, same⟩ alike
      | number value => exact .raised ⟨rfl, same⟩ alike
      | string value => exact .raised ⟨rfl, same⟩ alike
  | function identity closure declaration =>
      exact callables _ _ (.function identity closure declaration)

theorem invoke_succ (below : PlacelessWith config units) (callable callableToo : Callable)
    (values valuesToo : List Value) (machine other : Machine)
    (alike : machine.Alike .erased other)
    (fits : (Value.callable callable).Alike .erased (.callable callableToo))
    (fit : List.Forall₂ (Value.Alike .erased) values valuesToo) :
    (Treewalk.invoke config (units + 1) callable values machine).Alike .erased
      (Value.Alike .erased)
      (Treewalk.invoke config (units + 1) callableToo valuesToo other) := by
  cases fits with
  | plain captures =>
      rcases callable with ⟨identity, code⟩
      cases code with
      | native function => exact call_native_alike config function alike
      | user declaration closure => exact absurd ⟨identity, declaration, rfl⟩ (captures closure)
  | @function first second identity closure declaration =>
      have bodies : Stmt.eraseAll first.body = Stmt.eraseAll second.body :=
        congrArg FunctionDecl.body declaration
      have ready := alike.prepared declaration closure fit
      have ran := below.executeIn first.body second.body machine.heap.next _ _ bodies ready
      unfold Treewalk.invoke
      dsimp only
      rw [← alike.heap.next]
      rw [Machine.prepared, Machine.prepared, ← alike.heap.next] at ran
      apply alike_and_then ran
      intro flow flowToo _ _ _ fits alike
      cases fits with
      | normal => exact .done Value.alike_nil alike
      | broke => exact .done Value.alike_nil alike
      | returned fits => exact .done fits alike

theorem execute_succ (below : PlacelessWith config units) (statement twin : Stmt)
    (machine other : Machine) (same : statement.erase = twin.erase)
    (alike : machine.Alike .erased other) :
    (Treewalk.execute config (units + 1) statement machine).Alike .erased (Flow.Alike .erased)
      (Treewalk.execute config (units + 1) twin other) := by
  cases statement with
  | expression value =>
      cases twin with
      | expression valueToo =>
          injection same with sameValue
          apply alike_and_then (below.evaluate value valueToo machine other sameValue alike)
          exact fun _ _ _ _ _ _ alike => .done .normal alike
      | _ => cases same
  | print keyword value =>
      cases twin with
      | print keywordToo valueToo =>
          injection same with _ sameValue
          apply alike_and_then (below.evaluate value valueToo machine other sameValue alike)
          intro result resultToo _ _ _ fits alike
          rw [fits.printed]
          exact .done .normal (alike.print_line _)
      | _ => cases same
  | declare name initial =>
      cases twin with
      | declare nameToo initialToo =>
          injection same with sameName sameInitial
          have lexemes : name.lexeme = nameToo.lexeme := Token.lexeme_of_erase sameName
          cases initial with
          | none =>
              cases initialToo with
              | none =>
                  unfold Treewalk.execute
                  dsimp only
                  rw [lexemes]
                  exact .done .normal (alike.define _ Value.alike_nil)
              | some initialToo => cases sameInitial
          | some initial =>
              cases initialToo with
              | none => cases sameInitial
              | some initialToo =>
                  injection sameInitial with sameInitial
                  apply alike_and_then
                    (below.evaluate initial initialToo machine other sameInitial alike)
                  intro value valueToo _ _ _ fits alike
                  rw [lexemes]
                  exact .done .normal (alike.define _ fits)
      | _ => cases same
  | block body location =>
      cases twin with
      | block bodyToo locationToo =>
          injection same with sameBody
          have ran := below.executeIn body bodyToo other.heap.next _ _ sameBody
            (alike.open_scope other.current)
          unfold Treewalk.execute
          dsimp only
          rw [alike.current, alike.heap.next]
          exact ran
      | _ => cases same
  | ifThen keyword condition consequent =>
      cases twin with
      | ifThen keywordToo conditionToo consequentToo =>
          injection same with _ sameCondition sameConsequent
          apply alike_and_then
            (below.evaluate condition conditionToo machine other sameCondition alike)
          intro value valueToo _ _ _ fits alike
          rw [← fits.is_truthy]
          split
          · exact below.execute consequent consequentToo _ _ sameConsequent alike
          · exact .done .normal alike
      | _ => cases same
  | ifElse keyword condition consequent alternative =>
      cases twin with
      | ifElse keywordToo conditionToo consequentToo alternativeToo =>
          injection same with _ sameCondition sameConsequent sameAlternative
          apply alike_and_then
            (below.evaluate condition conditionToo machine other sameCondition alike)
          intro value valueToo _ _ _ fits alike
          rw [← fits.is_truthy]
          split
          · exact below.execute consequent consequentToo _ _ sameConsequent alike
          · exact below.execute alternative alternativeToo _ _ sameAlternative alike
      | _ => cases same
  | loop keyword condition body =>
      cases twin with
      | loop keywordToo conditionToo bodyToo =>
          injection same with _ sameCondition sameBody
          exact below.iterate condition conditionToo body bodyToo _ _ sameCondition sameBody alike
      | _ => cases same
  | function name parameters body =>
      cases twin with
      | function nameToo parametersToo bodyToo =>
          injection same with sameName sameParameters sameBody
          have declaration : Likeness.erased.declaration ⟨name, parameters, body⟩
              ⟨nameToo, parametersToo, bodyToo⟩ := by
            show FunctionDecl.mk _ _ _ = FunctionDecl.mk _ _ _
            rw [sameName, sameParameters, sameBody]
          exact .done .normal (alike.declare_function declaration)
      | _ => cases same
  | returnValue keyword value =>
      cases twin with
      | returnValue keywordToo valueToo =>
          injection same with _ sameValue
          cases value with
          | none =>
              cases valueToo with
              | none => exact .done (.returned Value.alike_nil) alike
              | some valueToo => cases sameValue
          | some value =>
              cases valueToo with
              | none => cases sameValue
              | some valueToo =>
                  injection sameValue with sameValue
                  apply alike_and_then (below.evaluate value valueToo machine other sameValue alike)
                  exact fun _ _ _ _ _ fits alike => .done (.returned fits) alike
      | _ => cases same
  | breakLoop keyword =>
      cases twin with
      | breakLoop keywordToo => exact .done .broke alike
      | _ => cases same

theorem iterate_succ (below : PlacelessWith config units) (condition conditionToo : Expr)
    (body bodyToo : Stmt) (machine other : Machine)
    (sameCondition : condition.erase = conditionToo.erase) (sameBody : body.erase = bodyToo.erase)
    (alike : machine.Alike .erased other) :
    (Treewalk.iterate config (units + 1) condition body machine).Alike .erased
      (Flow.Alike .erased) (Treewalk.iterate config (units + 1) conditionToo bodyToo other) := by
  apply alike_and_then (below.evaluate condition conditionToo machine other sameCondition alike)
  intro value valueToo _ _ _ fits alike
  rw [← fits.is_truthy]
  split
  · apply alike_and_then (below.execute body bodyToo _ _ sameBody alike)
    intro flow flowToo _ _ _ fits alike
    cases fits with
    | normal =>
        exact below.iterate condition conditionToo body bodyToo _ _ sameCondition sameBody alike
    | broke => exact .done .normal alike
    | returned fits => exact .done (.returned fits) alike
  · exact .done .normal alike

theorem execute_in_succ (below : PlacelessWith config units) (body twins : List Stmt)
    (scope : ScopeId) (machine other : Machine) (same : Stmt.eraseAll body = Stmt.eraseAll twins)
    (alike : machine.Alike .erased other) :
    (Treewalk.executeIn config (units + 1) body scope machine).Alike .erased (Flow.Alike .erased)
      (Treewalk.executeIn config (units + 1) twins scope other) := by
  apply alike_on_exit (below.executeAll body twins _ _ same (alike.enter scope))
  intro after afterToo alikeAfter
  rw [alike.current]
  exact alikeAfter.enter other.current

theorem execute_all_succ (below : PlacelessWith config units) (body twins : List Stmt)
    (machine other : Machine) (same : Stmt.eraseAll body = Stmt.eraseAll twins)
    (alike : machine.Alike .erased other) :
    (Treewalk.executeAll config (units + 1) body machine).Alike .erased (Flow.Alike .erased)
      (Treewalk.executeAll config (units + 1) twins other) := by
  cases body with
  | nil =>
      cases twins with
      | nil => exact .done .normal alike
      | cons firstToo restToo => cases same
  | cons first rest =>
      cases twins with
      | nil => cases same
      | cons firstToo restToo =>
          injection same with sameFirst sameRest
          apply alike_and_then (below.execute first firstToo machine other sameFirst alike)
          intro flow flowToo _ _ _ fits alike
          cases fits with
          | normal => exact below.executeAll rest restToo _ _ sameRest alike
          | broke => exact .done .broke alike
          | returned fits => exact .done (.returned fits) alike

end PlacelessWith

theorem placeless_with (config : Config) (units : Nat) : PlacelessWith config units := by
  induction units with
  | zero =>
      constructor
      all_goals intros
      all_goals exact .exhausted
  | succ units below =>
      constructor
      · exact below.evaluate_succ
      · exact below.evaluate_all_succ
      · exact below.call_succ
      · exact below.invoke_succ
      · exact below.execute_succ
      · exact below.iterate_succ
      · exact below.execute_in_succ
      · exact below.execute_all_succ

theorem erase_expression_iff {statement twin : Stmt} (same : statement.erase = twin.erase) :
    (∃ value, statement = .expression value) ↔ ∃ value, twin = .expression value := by
  constructor
  · rintro ⟨value, rfl⟩
    cases twin with
    | expression valueToo => exact ⟨valueToo, rfl⟩
    | _ => cases same
  · rintro ⟨value, rfl⟩
    cases statement with
    | expression valueToo => exact ⟨valueToo, rfl⟩
    | _ => cases same

theorem interpret_placeless (config : Config) (units : Nat) {program twin : Program}
    {machine other : Machine} (same : Program.erase program = Program.erase twin)
    (alike : machine.Alike .erased other) :
    (interpret config units program machine).Alike .erased (Option.Rel (Value.Alike .erased))
      (interpret config units twin other) := by
  have parts := placeless_with config units
  induction program using program_induction generalizing twin machine other with
  | empty =>
      cases twin with
      | nil => exact .done .none alike
      | cons first rest => cases same
  | trailing value =>
      cases twin with
      | nil => cases same
      | cons first rest =>
          injection same with sameFirst sameRest
          obtain ⟨valueToo, rfl⟩ := (erase_expression_iff sameFirst).mp ⟨value, rfl⟩
          injection sameFirst with sameValue
          cases rest with
          | cons second rest => cases sameRest
          | nil =>
              apply Outcome.alike_and_then
                (parts.evaluate value valueToo machine other sameValue alike)
              exact fun _ _ _ _ _ fits alike => .done (.some fits) alike
  | expression value rest inside ih =>
      cases twin with
      | nil => cases same
      | cons first others =>
          injection same with sameFirst sameRest
          obtain ⟨valueToo, rfl⟩ := (erase_expression_iff sameFirst).mp ⟨value, rfl⟩
          injection sameFirst with sameValue
          have more : others ≠ [] := by
            rintro rfl
            cases rest with
            | nil => exact inside rfl
            | cons second rest => cases sameRest
          rw [interpret_expression config units machine value inside,
            interpret_expression config units other valueToo more]
          apply Outcome.alike_and_then
            (parts.evaluate value valueToo machine other sameValue alike)
          exact fun _ _ _ _ _ _ alike => ih sameRest alike
  | statement first rest distinct ih =>
      cases twin with
      | nil => cases same
      | cons firstToo others =>
          injection same with sameFirst sameRest
          have apart : ∀ value, firstToo ≠ .expression value := by
            intro value isExpression
            obtain ⟨found, isFound⟩ := (erase_expression_iff sameFirst).mpr ⟨value, isExpression⟩
            exact distinct found isFound
          rw [interpret_statement config units machine rest distinct,
            interpret_statement config units other others apart]
          apply Outcome.alike_and_then
            (parts.execute first firstToo machine other sameFirst alike)
          intro flow flowToo _ _ _ fits alike
          cases fits with
          | normal => exact ih sameRest alike
          | broke => exact .done .none alike
          | returned fits => exact .done .none alike

end Treewalk
