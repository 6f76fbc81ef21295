import Treewalk.Proofs.Program.Advance
import Treewalk.Proofs.Program.Grammar

/-!
# Accepted expressions are derivable

A rule that succeeds without recording an error has read tokens that derive the tree it returns.
-/

namespace Treewalk

set_option autoImplicit false

open Grammar

namespace Grammar.Tier

def level (tier : Tier) : Level :=
  ⟨tier.operators, tier = .disjunction ∨ tier = .conjunction⟩

def tighter : Tier → List Level
  | disjunction => [level conjunction, level equality, level comparison, level term, level factor]
  | conjunction => [level equality, level comparison, level term, level factor]
  | equality => [level comparison, level term, level factor]
  | comparison => [level term, level factor]
  | term => [level factor]
  | factor => []

theorem all_levels : Level.all = level .disjunction :: tighter .disjunction := by
  rfl

theorem level_join (tier : Tier) (left : Expr) (operator : Token) (right : Expr) :
    tier.level.join left operator right = tier.node left operator right := by
  cases tier <;> rfl

theorem end_not_operator (tier : Tier) : Kind.endOfInput ∉ tier.operators := by
  cases tier <;> decide

end Grammar.Tier

def Grammar.Phrase.operand? : Phrase → Option Expr
  | .expression _ => none
  | .operation _ tree => some tree
  | .unary tree => some tree
  | .call tree => some tree
  | .primary tree => some tree
  | .arguments _ => none

theorem Grammar.Tier.operand_tree (tier : Tier) (tree : Expr) :
    (tier.operand tree).operand? = some tree := by
  cases tier <;> rfl

/-- An operand that is a bare name covers that name and nothing else. -/
theorem Grammar.Derives.name_of_reference {phrase : Phrase} {tokens : List Token} {name : Token}
    (derived : Derives phrase tokens) (bare : phrase.operand? = some (.reference name)) :
    tokens = [name] ∧ name.kind = .identifier := by
  induction derived with
  | assign | plain | lastArgument | argument => simp [Phrase.operand?] at bare
  | negation | emptyCall | fullCall | constant | grouping => simp [Phrase.operand?] at bare
  | operator => 
      rename_i tier _ _ _ _ _ _ _ _ _ _
      cases tier <;> simp [Phrase.operand?, Tier.node] at bare
  | @operand tier tree tokens whole ih =>
      apply ih
      rw [Tier.operand_tree]
      exact bare
  | called whole ih => exact ih bare
  | callee whole ih => exact ih bare
  | reference word =>
      simp only [Phrase.operand?, Option.some.injEq, Expr.reference.injEq] at bare
      subst bare
      exact ⟨rfl, word⟩

/-- The tokens that a clean run of a rule reads are covered by the value that it returns. -/
def Rule.Yields {α : Type} (rule : Rule ParseState α) (covers : α → List Token → Prop) : Prop :=
  ∀ before value after, before.Closed → rule before = .done value after → after.recorded = [] →
    ∃ tokens, before.ahead = tokens ++ after.ahead ∧ covers value tokens

theorem Rule.exhausted_yields {α : Type} {covers : α → List Token → Prop} :
    (Rule.exhausted : Rule ParseState α).Yields covers := by
  intro before value after closed done clean
  cases done

/-- A token of a kind that the end of the input does not have is the first of those ahead. -/
theorem ParseState.ahead_of_kind {state : ParseState} {kind : Kind} (closed : state.Closed)
    (found : state.current.kind = kind) (inside : kind ≠ .endOfInput) :
    state.ahead = state.current :: state.skip.ahead := by
  apply ParseState.ahead_eq_current_cons closed
  rw [found]
  exact inside

namespace Parser

open Rule ParseState ParseState

structure ExpressionsSound (units : Nat) : Prop where
  assignment : (Parser.assignment units).Yields fun tree => Derives (.expression tree)
  operation : ∀ tier : Tier, (Parser.operation units (tier.level :: tier.tighter)).Yields
    fun tree => Derives (.operation tier tree)
  operand : ∀ tier : Tier, (Parser.operation units tier.tighter).Yields
    fun tree => Derives (tier.operand tree)
  operators : ∀ (tier : Tier) (left : Expr),
    (Parser.operators units tier.level tier.tighter left).Yields fun tree tokens =>
      ∀ before, Derives (.operation tier left) before →
        Derives (.operation tier tree) (before ++ tokens)
  unary : (Parser.unary units).Yields fun tree => Derives (.unary tree)
  calls : ∀ callee : Expr, (Parser.calls units callee).Yields fun tree tokens =>
    ∀ before, Derives (.call callee) before → Derives (.call tree) (before ++ tokens)
  arguments : (Parser.arguments units).Yields fun trees => Derives (.arguments trees)
  primary : (Parser.primary units).Yields fun tree => Derives (.primary tree)

namespace ExpressionsSound

variable {units : Nat}

theorem assignment_succ (below : ExpressionsSound units) :
    (Parser.assignment (units + 1)).Yields fun tree => Derives (.expression tree) := by
  intro before tree after closed done clean
  unfold Parser.assignment at done
  obtain ⟨left, behindLeft, parsedLeft, done⟩ := bind_done.mp done
  obtain ⟨equals, behindEquals, taken, done⟩ := bind_done.mp done
  rw [Tier.all_levels] at parsedLeft
  have toLeft := ((expressions_advance units).operation _).leads parsedLeft
  have closedLeft := toLeft.closed closed
  cases equals with
  | none =>
      obtain ⟨-, rfl⟩ := accept_none.mp taken
      obtain ⟨rfl, rfl⟩ := pure_done.mp done
      obtain ⟨tokens, ahead, derived⟩ := below.operation _ _ _ _ closed parsedLeft clean
      exact ⟨tokens, ahead, .plain derived⟩
  | some equals =>
      obtain ⟨sign, rfl, rfl⟩ := accept_some.mp taken
      have sign : behindLeft.current.kind = .equal := by simpa using sign
      obtain ⟨value, behindValue, parsedValue, done⟩ := bind_done.mp done
      cases left with
      | reference name =>
          obtain ⟨rfl, rfl⟩ := pure_done.mp done
          obtain ⟨valueTokens, valueAhead, derivedValue⟩ :=
            below.assignment _ _ _ closedLeft.skip parsedValue clean
          have toValue := (expressions_advance units).assignment.leads parsedValue
          have cleanLeft : behindLeft.recorded = [] := toValue.clean clean
          obtain ⟨target, targetAhead, derivedTarget⟩ :=
            below.operation _ _ _ _ closed parsedLeft cleanLeft
          obtain ⟨rfl, word⟩ := derivedTarget.name_of_reference rfl
          refine ⟨name :: behindLeft.current :: valueTokens, ?_, .assign word sign derivedValue⟩
          rw [targetAhead, ahead_of_kind closedLeft sign (by decide), valueAhead]
          rfl
      | _ =>
          -- A wrong target is recorded, so the run was not clean.
          obtain ⟨_, behindRecord, recorded, done⟩ := bind_done.mp done
          obtain ⟨rfl, rfl⟩ := pure_done.mp done
          rw [← record_done.mp recorded] at clean
          simp [ParseState.record] at clean

theorem operation_succ (below : ExpressionsSound units) (tier : Tier) :
    (Parser.operation (units + 1) (tier.level :: tier.tighter)).Yields
      fun tree => Derives (.operation tier tree) := by
  intro before tree after closed done clean
  unfold Parser.operation at done
  obtain ⟨left, between, parsedLeft, parsedRest⟩ := bind_done.mp done
  have toLeft := ((expressions_advance units).operation _).leads parsedLeft
  have toRest := ((expressions_advance units).operators _ _ _).leads parsedRest
  obtain ⟨first, firstAhead, derivedFirst⟩ :=
    below.operand tier _ _ _ closed parsedLeft (toRest.clean clean)
  obtain ⟨rest, restAhead, derivedRest⟩ :=
    below.operators tier left _ _ _ (toLeft.closed closed) parsedRest clean
  refine ⟨first ++ rest, ?_, derivedRest first (.operand derivedFirst)⟩
  rw [firstAhead, restAhead, List.append_assoc]

theorem operand_succ (below : ExpressionsSound units) (tier : Tier) :
    (Parser.operation (units + 1) tier.tighter).Yields fun tree => Derives (tier.operand tree) := by
  cases tier with
  | disjunction => exact below.operation_succ .conjunction
  | conjunction => exact below.operation_succ .equality
  | equality => exact below.operation_succ .comparison
  | comparison => exact below.operation_succ .term
  | term => exact below.operation_succ .factor
  | factor => exact below.unary

theorem operators_succ (below : ExpressionsSound units) (tier : Tier) (left : Expr) :
    (Parser.operators (units + 1) tier.level tier.tighter left).Yields fun tree tokens =>
      ∀ before, Derives (.operation tier left) before →
        Derives (.operation tier tree) (before ++ tokens) := by
  intro before tree after closed done clean
  unfold Parser.operators at done
  obtain ⟨operator, behindOperator, taken, done⟩ := bind_done.mp done
  cases operator with
  | none =>
      obtain ⟨-, rfl⟩ := accept_none.mp taken
      obtain ⟨rfl, rfl⟩ := pure_done.mp done
      refine ⟨[], rfl, ?_⟩
      intro tokens derived
      rw [List.append_nil]
      exact derived
  | some operator =>
      obtain ⟨sign, rfl, rfl⟩ := accept_some.mp taken
      obtain ⟨right, between, parsedRight, parsedRest⟩ := bind_done.mp done
      rw [Tier.level_join] at parsedRest
      have toRight := ((expressions_advance units).operation _).leads parsedRight
      have toRest := ((expressions_advance units).operators _ _ _).leads parsedRest
      obtain ⟨second, secondAhead, derivedSecond⟩ :=
        below.operand tier _ _ _ closed.skip parsedRight (toRest.clean clean)
      obtain ⟨rest, restAhead, derivedRest⟩ :=
        below.operators tier _ _ _ _ (toRight.closed closed.skip) parsedRest clean
      have inside : before.current.kind ≠ .endOfInput := by
        intro ended
        rw [ended] at sign
        exact tier.end_not_operator sign
      refine ⟨before.current :: (second ++ rest), ?_, ?_⟩
      · rw [ahead_eq_current_cons closed inside, secondAhead, restAhead]
        simp
      · intro first derivedFirst
        have joined := derivedRest _ (.operator derivedFirst sign derivedSecond)
        simpa using joined

theorem unary_succ (below : ExpressionsSound units) :
    (Parser.unary (units + 1)).Yields fun tree => Derives (.unary tree) := by
  intro before tree after closed done clean
  unfold Parser.unary at done
  obtain ⟨operator, behindOperator, taken, done⟩ := bind_done.mp done
  cases operator with
  | none =>
      obtain ⟨-, rfl⟩ := accept_none.mp taken
      obtain ⟨callee, between, parsedCallee, parsedRest⟩ := bind_done.mp done
      have toCallee := (expressions_advance units).primary.leads parsedCallee
      have toRest := ((expressions_advance units).calls _).leads parsedRest
      obtain ⟨first, firstAhead, derivedFirst⟩ :=
        below.primary _ _ _ closed parsedCallee (toRest.clean clean)
      obtain ⟨rest, restAhead, derivedRest⟩ :=
        below.calls callee _ _ _ (toCallee.closed closed) parsedRest clean
      refine ⟨first ++ rest, ?_, .called (derivedRest first (.callee derivedFirst))⟩
      rw [firstAhead, restAhead, List.append_assoc]
  | some operator =>
      obtain ⟨sign, rfl, rfl⟩ := accept_some.mp taken
      have sign : before.current.kind = .bang ∨ before.current.kind = .minus := by simpa using sign
      obtain ⟨operand, between, parsedOperand, done⟩ := bind_done.mp done
      obtain ⟨rfl, rfl⟩ := pure_done.mp done
      obtain ⟨rest, restAhead, derivedRest⟩ := below.unary _ _ _ closed.skip parsedOperand clean
      have inside : before.current.kind ≠ .endOfInput := by
        rcases sign with sign | sign <;> rw [sign] <;> decide
      refine ⟨before.current :: rest, ?_, .negation sign derivedRest⟩
      rw [ahead_eq_current_cons closed inside, restAhead]
      rfl

theorem calls_succ (below : ExpressionsSound units) (callee : Expr) :
    (Parser.calls (units + 1) callee).Yields fun tree tokens =>
      ∀ before, Derives (.call callee) before → Derives (.call tree) (before ++ tokens) := by
  intro before tree after closed done clean
  unfold Parser.calls at done
  obtain ⟨opened, behindOpen, taken, done⟩ := bind_done.mp done
  cases opened with
  | none =>
      obtain ⟨-, rfl⟩ := accept_none.mp taken
      obtain ⟨rfl, rfl⟩ := pure_done.mp done
      refine ⟨[], rfl, ?_⟩
      intro tokens derived
      rw [List.append_nil]
      exact derived
  | some openParen =>
      obtain ⟨sign, rfl, rfl⟩ := accept_some.mp taken
      have sign : before.current.kind = .leftParen := by simpa using sign
      have openAhead := ahead_of_kind closed sign (by decide)
      obtain ⟨empty, _, looked, done⟩ := bind_done.mp done
      obtain ⟨rfl, rfl⟩ := is_at_done.mp looked
      split at done
      · -- No arguments: the closing parenthesis follows at once.
        obtain ⟨arguments, _, none, done⟩ := bind_done.mp done
        obtain ⟨rfl, rfl⟩ := pure_done.mp none
        obtain ⟨closeParen, _, closeTaken, parsedRest⟩ := bind_done.mp done
        obtain ⟨closeSign, rfl, rfl⟩ := expect_done.mp closeTaken
        have closeAhead := ahead_of_kind closed.skip closeSign (by decide)
        obtain ⟨rest, restAhead, derivedRest⟩ :=
          below.calls _ _ _ _ closed.skip.skip parsedRest clean
        refine ⟨before.current :: before.skip.current :: rest, ?_, ?_⟩
        · rw [openAhead, closeAhead, restAhead]
          rfl
        · intro first derivedFirst
          have joined := derivedRest _ (.emptyCall derivedFirst sign closeSign)
          simpa using joined
      · obtain ⟨arguments, between, parsedArguments, done⟩ := bind_done.mp done
        obtain ⟨closeParen, _, closeTaken, parsedRest⟩ := bind_done.mp done
        obtain ⟨closeSign, rfl, rfl⟩ := expect_done.mp closeTaken
        have toArguments := (expressions_advance units).arguments.leads parsedArguments
        have closedBetween := toArguments.closed closed.skip
        have toRest := ((expressions_advance units).calls _).leads parsedRest
        have closeAhead := ahead_of_kind closedBetween closeSign (by decide)
        obtain ⟨inside, insideAhead, derivedInside⟩ :=
          below.arguments _ _ _ closed.skip parsedArguments (toRest.clean clean)
        obtain ⟨rest, restAhead, derivedRest⟩ :=
          below.calls _ _ _ _ closedBetween.skip parsedRest clean
        refine ⟨before.current :: (inside ++ between.current :: rest), ?_, ?_⟩
        · rw [openAhead, insideAhead, closeAhead, restAhead]
          simp
        · intro first derivedFirst
          have joined := derivedRest _ (.fullCall derivedFirst sign derivedInside closeSign)
          simpa using joined

theorem arguments_succ (below : ExpressionsSound units) :
    (Parser.arguments (units + 1)).Yields fun trees => Derives (.arguments trees) := by
  intro before trees after closed done clean
  unfold Parser.arguments at done
  obtain ⟨first, between, parsedFirst, done⟩ := bind_done.mp done
  obtain ⟨comma, behindComma, taken, done⟩ := bind_done.mp done
  have toFirst := (expressions_advance units).assignment.leads parsedFirst
  have closedBetween := toFirst.closed closed
  cases comma with
  | none =>
      obtain ⟨-, rfl⟩ := accept_none.mp taken
      obtain ⟨rfl, rfl⟩ := pure_done.mp done
      obtain ⟨tokens, ahead, derived⟩ := below.assignment _ _ _ closed parsedFirst clean
      exact ⟨tokens, ahead, .lastArgument derived⟩
  | some comma =>
      obtain ⟨sign, rfl, rfl⟩ := accept_some.mp taken
      have sign : between.current.kind = .comma := by simpa using sign
      obtain ⟨rest, behindRest, parsedRest, done⟩ := bind_done.mp done
      obtain ⟨rfl, rfl⟩ := pure_done.mp done
      have toRest := (expressions_advance units).arguments.leads parsedRest
      have cleanBetween : between.recorded = [] := toRest.clean clean
      obtain ⟨tokens, tokensAhead, derived⟩ :=
        below.assignment _ _ _ closed parsedFirst cleanBetween
      obtain ⟨others, othersAhead, derivedOthers⟩ :=
        below.arguments _ _ _ closedBetween.skip parsedRest clean
      refine ⟨tokens ++ between.current :: others, ?_, .argument derived sign derivedOthers⟩
      rw [tokensAhead, ahead_of_kind closedBetween sign (by decide), othersAhead]
      simp

theorem constant_of_token {token : Token} {value : Literal}
    (denoted : token.constant? = some value) : Constant token value := by
  unfold Token.constant? at denoted
  split at denoted
  · cases denoted
    exact .falseWord ‹_›
  · cases denoted
    exact .trueWord ‹_›
  · cases denoted
    exact .nilWord ‹_›
  · exact .number ‹_› denoted
  · exact .string ‹_› denoted
  · cases denoted

theorem constant_inside {token : Token} {value : Literal} (denoted : Constant token value) :
    token.kind ≠ .endOfInput := by
  cases denoted with
  | trueWord word => simp [word]
  | falseWord word => simp [word]
  | nilWord word => simp [word]
  | number digits read => simp [digits]
  | string quoted read => simp [quoted]

theorem primary_succ (below : ExpressionsSound units) :
    (Parser.primary (units + 1)).Yields fun tree => Derives (.primary tree) := by
  intro before tree after closed done clean
  unfold Parser.primary at done
  obtain ⟨token, _, looked, done⟩ := bind_done.mp done
  obtain ⟨rfl, rfl⟩ := current_done.mp looked
  cases constant : before.current.constant? with
  | some value =>
      rw [constant] at done
      have denoted := constant_of_token constant
      obtain ⟨_, _, taken, done⟩ := bind_done.mp done
      obtain ⟨rfl, rfl⟩ := take_done.mp taken
      obtain ⟨rfl, rfl⟩ := pure_done.mp done
      refine ⟨[before.current], ?_, .constant denoted⟩
      exact ahead_eq_current_cons closed (constant_inside denoted)
  | none =>
      rw [constant] at done
      cases kind : before.current.kind with
      | identifier =>
          rw [kind] at done
          obtain ⟨_, _, taken, done⟩ := bind_done.mp done
          obtain ⟨rfl, rfl⟩ := take_done.mp taken
          obtain ⟨rfl, rfl⟩ := pure_done.mp done
          exact ⟨[before.current], ahead_of_kind closed kind (by decide), .reference kind⟩
      | leftParen =>
          rw [kind] at done
          obtain ⟨_, _, taken, done⟩ := bind_done.mp done
          obtain ⟨rfl, rfl⟩ := take_done.mp taken
          obtain ⟨inner, between, parsedInner, done⟩ := bind_done.mp done
          obtain ⟨closeParen, _, closeTaken, done⟩ := bind_done.mp done
          obtain ⟨closeSign, rfl, rfl⟩ := expect_done.mp closeTaken
          obtain ⟨rfl, rfl⟩ := pure_done.mp done
          have toInner := (expressions_advance units).assignment.leads parsedInner
          have closedBetween := toInner.closed closed.skip
          obtain ⟨inside, insideAhead, derivedInside⟩ :=
            below.assignment _ _ _ closed.skip parsedInner clean
          refine ⟨before.current :: (inside ++ [between.current]), ?_,
            .grouping kind derivedInside closeSign⟩
          rw [ahead_of_kind closed kind (by decide), insideAhead,
            ahead_of_kind closedBetween closeSign (by decide)]
          simp
      | _ =>
          rw [kind] at done
          exact (fail_done.mp done).elim

end ExpressionsSound

theorem expressions_sound (units : Nat) : ExpressionsSound units := by
  induction units with
  | zero =>
      constructor
      all_goals intros
      all_goals exact exhausted_yields
  | succ units below =>
      constructor
      · exact below.assignment_succ
      · exact below.operation_succ
      · exact below.operand_succ
      · exact below.operators_succ
      · exact below.unary_succ
      · exact below.calls_succ
      · exact below.arguments_succ
      · exact below.primary_succ

theorem expression_sound : expression.Yields fun tree => Derives (.expression tree) :=
  fun before => (expressions_sound _).assignment before

end Parser

end Treewalk
