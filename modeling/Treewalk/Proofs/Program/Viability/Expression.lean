import Treewalk.Proofs.Program.Viability.Step

/-!
# Expressions up to an error

What the rules of expressions have read in front of an error begins an expression. Every operand
that is still missing can be a name, and every parenthesis that is still open can be closed.
-/

namespace Treewalk

set_option autoImplicit false

open Grammar

section Names

variable {name : Token} (word : name.kind = .identifier)
include word

theorem name_unary : Derives (.unary (.reference name)) [name] :=
  .called (.callee (.reference word))

theorem name_operation (tier : Tier) : Derives (.operation tier (.reference name)) [name] := by
  have factor : Derives (.operation .factor (.reference name)) [name] := .operand (name_unary word)
  have term : Derives (.operation .term (.reference name)) [name] := .operand factor
  have comparison : Derives (.operation .comparison (.reference name)) [name] := .operand term
  have equality : Derives (.operation .equality (.reference name)) [name] := .operand comparison
  have conjunction : Derives (.operation .conjunction (.reference name)) [name] := .operand equality
  cases tier with
  | disjunction => exact .operand conjunction
  | conjunction => exact conjunction
  | equality => exact equality
  | comparison => exact comparison
  | term => exact term
  | factor => exact factor

theorem name_operand (tier : Tier) : Derives (tier.operand (.reference name)) [name] := by
  cases tier with
  | disjunction => exact name_operation word .conjunction
  | conjunction => exact name_operation word .equality
  | equality => exact name_operation word .comparison
  | comparison => exact name_operation word .term
  | term => exact name_operation word .factor
  | factor => exact name_unary word

theorem name_expression : Derives (.expression (.reference name)) [name] :=
  .plain (name_operation word .disjunction)

end Names

theorem fillable_of_name {α : Type} {covers : α → List Token → Prop} (value : α)
    (covered : covers value [Kind.filler .identifier]) {tokens : List Token} (start : tokens = []) :
    Fillable covers tokens := by
  subst start
  exact fillable_of_fillers value (show [Kind.identifier] ⊆ fillerKinds by decide) covered

namespace Parser

open Rule ParseState ParseState

structure ExpressionsBegin (units : Nat) : Prop where
  assignment : (Parser.assignment units).Begins (· = []) fun tree => Derives (.expression tree)
  operation : ∀ tier : Tier, (Parser.operation units (tier.level :: tier.tighter)).Begins (· = [])
    fun tree => Derives (.operation tier tree)
  operand : ∀ tier : Tier, (Parser.operation units tier.tighter).Begins (· = [])
    fun tree => Derives (tier.operand tree)
  operators : ∀ (tier : Tier) (left : Expr),
    (Parser.operators units tier.level tier.tighter left).Begins (Derives (.operation tier left))
      fun tree => Derives (.operation tier tree)
  unary : (Parser.unary units).Begins (· = []) fun tree => Derives (.unary tree)
  calls : ∀ callee : Expr, (Parser.calls units callee).Begins (Derives (.call callee))
    fun tree => Derives (.call tree)
  arguments : (Parser.arguments units).Begins (· = []) fun trees => Derives (.arguments trees)
  primary : (Parser.primary units).Begins (· = []) fun tree => Derives (.primary tree)

/-- Behind an operand that is no name an equals sign is taken, and nothing can make up for it. -/
theorem assigned_begins (left : Expr) {value : Rule ParseState Expr}
    (sound : value.Yields fun tree => Derives (.expression tree))
    (inner : value.Begins (· = []) fun tree => Derives (.expression tree)) :
    (assigned left value).Begins (Derives (.operation .disjunction left))
      fun tree => Derives (.expression tree) where
  advances := assigned_advances left inner.advances
  fillable front derived := fillable_of_whole left (.plain derived)
  run front state derived closed clean := by
    have finished : Fillable (fun tree => Derives (.expression tree)) front :=
      fillable_of_whole left (.plain derived)
    by_cases sign : state.current.kind = .equal
    · by_cases named : ∃ name, left = .reference name
      · obtain ⟨name, rfl⟩ := named
        obtain ⟨rfl, word⟩ := derived.name_of_reference rfl
        apply taken_begins_at (assigned_name sign) finished
        have later : (value >>= fun tree => pure (Expr.assign name tree)).Begins
            (· = [name, state.current]) fun tree => Derives (.expression tree) := by
          refine phrase_begins sound inner fun tree => pure_begins ?_
          rintro _ ⟨_, rest, rfl, derivedValue, rfl⟩
          exact .assign word sign derivedValue
        exact later.run _ state.skip rfl closed.skip clean
      · apply begins_at_of_seen finished
        intro seen rest _ _ _
        exact .inr ⟨[], front, state.current, seen, left, rfl, sign, derived, by simpa using named⟩
    · exact (pure_begins_at clean).of_run (assigned_absent sign)

namespace ExpressionsBegin

variable {units : Nat}

theorem assignment_succ (below : ExpressionsBegin units) :
    (Parser.assignment (units + 1)).Begins (· = []) fun tree => Derives (.expression tree) := by
  rw [assignment_eq, Tier.all_levels]
  refine phrase_begins ((expressions_sound units).operation .disjunction)
    (below.operation .disjunction) fun left => ?_
  apply (assigned_begins left (expressions_sound units).assignment below.assignment).of_before
  rintro _ ⟨_, tokens, rfl, derived, rfl⟩
  exact derived

theorem operation_succ (below : ExpressionsBegin units) (tier : Tier) :
    (Parser.operation (units + 1) (tier.level :: tier.tighter)).Begins (· = [])
      fun tree => Derives (.operation tier tree) := by
  unfold Parser.operation
  refine phrase_begins ((expressions_sound units).operand tier) (below.operand tier) fun left => ?_
  apply (below.operators tier left).of_before
  rintro _ ⟨_, tokens, rfl, derived, rfl⟩
  exact .operand derived

theorem operand_succ (below : ExpressionsBegin units) (tier : Tier) :
    (Parser.operation (units + 1) tier.tighter).Begins (· = [])
      fun tree => Derives (tier.operand tree) := by
  cases tier with
  | disjunction => exact below.operation_succ .conjunction
  | conjunction => exact below.operation_succ .equality
  | equality => exact below.operation_succ .comparison
  | comparison => exact below.operation_succ .term
  | term => exact below.operation_succ .factor
  | factor => exact below.unary

theorem operators_succ (below : ExpressionsBegin units) (tier : Tier) (left : Expr) :
    (Parser.operators (units + 1) tier.level tier.tighter left).Begins
      (Derives (.operation tier left)) fun tree => Derives (.operation tier tree) := by
  unfold Parser.operators
  refine accept_begins (pure_begins fun _ derived => derived) ?_
  intro operator sign
  refine phrase_begins ((expressions_sound units).operand tier) (below.operand tier) fun right => ?_
  rw [Tier.level_join]
  apply (below.operators tier _).of_before
  rintro _ ⟨_, behind, ⟨before, first, rfl⟩, second, rfl⟩
  simpa using Derives.operator first sign second

theorem unary_succ (below : ExpressionsBegin units) :
    (Parser.unary (units + 1)).Begins (· = []) fun tree => Derives (.unary tree) := by
  unfold Parser.unary
  refine accept_begins ?_ ?_
  · refine phrase_begins (expressions_sound units).primary below.primary fun callee => ?_
    apply ((below.calls callee).of_covers fun _ _ derived => .called derived).of_before
    rintro _ ⟨_, tokens, rfl, derived, rfl⟩
    exact .callee derived
  · intro operator sign
    refine phrase_begins (expressions_sound units).unary below.unary fun operand => pure_begins ?_
    rintro _ ⟨_, rest, ⟨_, rfl, rfl⟩, negated, rfl⟩
    exact .negation (by simpa using sign) negated

theorem calls_succ (below : ExpressionsBegin units) (callee : Expr) :
    (Parser.calls (units + 1) callee).Begins (Derives (.call callee))
      fun tree => Derives (.call tree) := by
  unfold Parser.calls
  refine accept_begins (pure_begins fun _ derived => derived) ?_
  intro openParen sign
  have opened : openParen.kind = .leftParen := by simpa using sign
  refine look_begins fun empty => ?_
  cases empty with
  | true =>
      refine expect_begins fun paren closed => ?_
      apply (below.calls (.call callee paren [])).of_before
      rintro _ ⟨_, ⟨before, function, rfl⟩, rfl⟩
      simpa using Derives.emptyCall function opened closed
  | false =>
      refine phrase_begins (expressions_sound units).arguments below.arguments fun arguments => ?_
      refine expect_begins fun paren closed => ?_
      apply (below.calls (.call callee paren arguments)).of_before
      rintro _ ⟨_, ⟨_, inside, ⟨before, function, rfl⟩, passed, rfl⟩, rfl⟩
      simpa using Derives.fullCall function opened passed closed

theorem arguments_succ (below : ExpressionsBegin units) :
    (Parser.arguments (units + 1)).Begins (· = []) fun trees => Derives (.arguments trees) := by
  unfold Parser.arguments
  refine phrase_begins (expressions_sound units).assignment below.assignment fun first => ?_
  refine accept_begins (pure_begins ?_) ?_
  · rintro _ ⟨_, tokens, rfl, derived, rfl⟩
    exact .lastArgument derived
  · intro comma sign
    refine phrase_begins (expressions_sound units).arguments below.arguments fun rest =>
      pure_begins ?_
    rintro _ ⟨_, behind, ⟨_, ⟨_, before, rfl, derived, rfl⟩, rfl⟩, others, rfl⟩
    simpa using Derives.argument derived (by simpa using sign) others

theorem fillable_primary {tokens : List Token} (start : tokens = []) :
    Fillable (fun tree => Derives (.primary tree)) tokens :=
  fillable_of_name _ (.reference rfl) start

theorem name_begins : BeginsFrom .identifier (Rule.take >>= fun name => pure (.reference name))
    (· = []) fun tree => Derives (.primary tree) := by
  refine take_begins_from (fun _ => fillable_primary) fun name word => pure_begins ?_
  rintro _ ⟨_, rfl, rfl⟩
  exact .reference word

theorem grouping_begins (below : ExpressionsBegin units) :
    BeginsFrom .leftParen (do
      let openParen ← Rule.take
      let inner ← Parser.assignment units
      let closeParen ← Rule.expect .groupingClose
      pure (.grouping inner (openParen.span.hull closeParen.span)))
    (· = []) fun tree => Derives (.primary tree) := by
  refine take_begins_from (fun _ => fillable_primary) fun openParen opened => ?_
  refine phrase_begins (expressions_sound units).assignment below.assignment fun inner => ?_
  refine expect_begins fun closeParen closed => pure_begins ?_
  rintro _ ⟨_, ⟨_, inside, ⟨_, rfl, rfl⟩, enclosed, rfl⟩, rfl⟩
  simpa using Derives.grouping opened enclosed closed

theorem primary_succ (below : ExpressionsBegin units) :
    (Parser.primary (units + 1)).Begins (· = []) fun tree => Derives (.primary tree) where
  advances := (expressions_advance (units + 1)).primary
  fillable _ := fillable_primary
  run front state start closed clean := by
    subst start
    cases constant : state.current.constant? with
    | some value =>
        apply taken_begins_at _ (fillable_primary rfl) (pure_begins_at clean)
        · exact .literal value state.current.line state.current.span
        · simp only [Parser.primary, bind_eq, Rule.current, supply_current, constant]
          rfl
    | none =>
        cases kind : state.current.kind with
        | identifier =>
            apply (name_begins [] state rfl closed clean kind).of_run
            simp only [Parser.primary, bind_eq, Rule.current, supply_current, constant, kind]
        | leftParen =>
            apply (below.grouping_begins [] state rfl closed clean kind).of_run
            simp only [Parser.primary, bind_eq, Rule.current, supply_current, constant, kind]
        | _ =>
            apply failed_begins_at (fillable_primary rfl)
            simp only [Parser.primary, bind_eq, Rule.current, supply_current, constant, kind]
            rfl

end ExpressionsBegin

theorem expressions_begin (units : Nat) : ExpressionsBegin units := by
  induction units with
  | zero =>
      have word : (Kind.filler .identifier).kind = .identifier := rfl
      constructor
      · exact exhausted_begins fun _ => fillable_of_name (.reference _) (name_expression word)
      · exact fun tier => exhausted_begins fun _ =>
          fillable_of_name (.reference _) (name_operation word tier)
      · exact fun tier => exhausted_begins fun _ =>
          fillable_of_name (.reference _) (name_operand word tier)
      · exact fun tier left => exhausted_begins fun _ derived => fillable_of_whole left derived
      · exact exhausted_begins fun _ => fillable_of_name (.reference _) (name_unary word)
      · exact fun callee => exhausted_begins fun _ derived => fillable_of_whole callee derived
      · exact exhausted_begins fun _ =>
          fillable_of_name [.reference _] (.lastArgument (name_expression word))
      · exact exhausted_begins fun _ => ExpressionsBegin.fillable_primary
  | succ units below =>
      constructor
      · exact below.assignment_succ
      · exact below.operation_succ
      · exact below.operand_succ
      · exact below.operators_succ
      · exact below.unary_succ
      · exact below.calls_succ
      · exact below.arguments_succ
      · exact below.primary_succ

theorem expression_begins :
    expression.Begins (· = []) fun tree => Derives (.expression tree) where
  advances := expression_advances
  fillable := (expressions_begin 0).assignment.fillable
  run front state start closed clean :=
    ((expressions_begin _).assignment.run front state start closed clean).of_run rfl

end Parser

end Treewalk
