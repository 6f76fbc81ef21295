import Treewalk.Proofs.Program.Soundness.Expression

/-!
# Derivable expressions are accepted

Behind tokens that derive a phrase, the rule for the phrase stops and returns its tree, provided the
token that follows cannot continue the phrase and the budget allows for twelve units a token. For
operators and calls, which the grammar builds from the left and the parser in a loop, the rule comes
to the loop with the tree built so far.
-/

namespace Treewalk

set_option autoImplicit false

open Grammar

namespace ParseState

def prepend (tokens : List Token) (state : ParseState) : ParseState :=
  { state with ahead := tokens ++ state.ahead }

theorem prepend_nil (state : ParseState) : state.prepend [] = state :=
  rfl

theorem prepend_append (first second : List Token) (state : ParseState) :
    state.prepend (first ++ second) = (state.prepend second).prepend first := by
  simp [prepend]

theorem current_prepend (token : Token) (rest : List Token) (state : ParseState) :
    (state.prepend (token :: rest)).current = token :=
  rfl

end ParseState

namespace Rule

open ParseState

variable {α β : Type}

theorem bind_of_done {rule : Rule ParseState α} {next : α → Rule ParseState β}
    {before between : ParseState} {value : α}
    (first : rule before = .done value between) : (rule >>= next) before = next value between := by
  rw [bind_eq, first]

theorem map_of_done {change : α → β} {rule : Rule ParseState α} {before after : ParseState}
    {value : α}
    (first : rule before = .done value after) :
    (change <$> rule) before = .done (change value) after := by
  rw [map_eq, bind_of_done first]
  rfl

theorem take_prepend (token : Token) (rest : List Token) (state : ParseState) :
    Rule.take (state.prepend (token :: rest)) = .done token (state.prepend rest) :=
  rfl

theorem accept_prepend {kinds : List Kind} {token : Token} (found : token.kind ∈ kinds)
    (rest : List Token) (state : ParseState) :
    Rule.accept kinds (state.prepend (token :: rest)) = .done (some token) (state.prepend rest) :=
  accept_some.mpr ⟨found, rfl, rfl⟩

theorem accept_missing {kinds : List Kind} {state : ParseState}
    (missing : state.current.kind ∉ kinds) : Rule.accept kinds state = .done none state :=
  accept_none.mpr ⟨missing, rfl⟩

theorem expect_prepend {slot : Slot} {token : Token} (found : token.kind = slot.kind)
    (rest : List Token) (state : ParseState) :
    Rule.expect slot (state.prepend (token :: rest)) = .done token (state.prepend rest) :=
  expect_done.mpr ⟨found, rfl, rfl⟩

theorem is_at_eq (kind : Kind) (state : ParseState) :
    Rule.isAt kind state = .done (decide (state.current.kind = kind)) state :=
  rfl

end Rule

namespace Grammar

def callStarters : List Kind :=
  [.trueWord, .falseWord, .nilWord, .number, .string, .identifier, .leftParen]

def Phrase.starters : Phrase → List Kind
  | .call _ => callStarters
  | .primary _ => callStarters
  | _ => .bang :: .minus :: callStarters

theorem Tier.operand_starters (tier : Tier) (tree : Expr) :
    (tier.operand tree).starters = .bang :: .minus :: callStarters := by
  cases tier <;> rfl

theorem Derives.starts {phrase : Phrase} {tokens : List Token} (derived : Derives phrase tokens) :
    ∃ first rest, tokens = first :: rest ∧ first.kind ∈ phrase.starters := by
  induction derived with
  | @assign name equals value rest target sign assigned ih =>
      exact ⟨name, equals :: rest, rfl, by simp [Phrase.starters, callStarters, target]⟩
  | plain whole ih => exact ih
  | @operand tier tree tokens whole ih =>
      rw [Tier.operand_starters] at ih
      exact ih
  | @operator tier left right operator before behind first sign second ih _ =>
      obtain ⟨token, rest, rfl, starts⟩ := ih
      exact ⟨token, rest ++ operator :: behind, rfl, starts⟩
  | @negation operator operand rest sign negated ih =>
      refine ⟨operator, rest, rfl, ?_⟩
      rcases sign with sign | sign <;> simp [Phrase.starters, sign]
  | called whole ih =>
      obtain ⟨token, rest, rfl, starts⟩ := ih
      exact ⟨token, rest, rfl, List.mem_cons_of_mem _ (List.mem_cons_of_mem _ starts)⟩
  | callee whole ih => exact ih
  | @emptyCall callee before openParen closeParen function opened closed ih =>
      obtain ⟨token, rest, rfl, starts⟩ := ih
      exact ⟨token, rest ++ [openParen, closeParen], rfl, starts⟩
  | @fullCall callee arguments before inside openParen closeParen function opened passed closed
      ih _ =>
      obtain ⟨token, rest, rfl, starts⟩ := ih
      exact ⟨token, rest ++ openParen :: (inside ++ [closeParen]), rfl, starts⟩
  | lastArgument whole ih => exact ih
  | @argument tree trees before behind comma first sign others ih _ =>
      obtain ⟨token, rest, rfl, starts⟩ := ih
      exact ⟨token, rest ++ comma :: behind, rfl, starts⟩
  | @constant token value denoted =>
      refine ⟨token, [], rfl, ?_⟩
      cases denoted with
      | trueWord word => simp [Phrase.starters, callStarters, word]
      | falseWord word => simp [Phrase.starters, callStarters, word]
      | nilWord word => simp [Phrase.starters, callStarters, word]
      | number digits read => simp [Phrase.starters, callStarters, digits]
      | string quoted read => simp [Phrase.starters, callStarters, quoted]
  | @reference name word =>
      exact ⟨name, [], rfl, by simp [Phrase.starters, callStarters, word]⟩
  | @grouping inner inside openParen closeParen opened enclosed closed ih =>
      exact ⟨openParen, inside ++ [closeParen], rfl,
        by simp [Phrase.starters, callStarters, opened]⟩

theorem Derives.length_pos {phrase : Phrase} {tokens : List Token}
    (derived : Derives phrase tokens) : 0 < tokens.length := by
  obtain ⟨first, rest, rfl, -⟩ := derived.starts
  simp

/-- The state in front of a phrase looks at a token with which the phrase can start. -/
theorem Derives.current_ne {phrase : Phrase} {tokens : List Token} {kind : Kind}
    (derived : Derives phrase tokens) (never : kind ∉ phrase.starters) (state : ParseState) :
    (state.prepend tokens).current.kind ≠ kind := by
  obtain ⟨first, rest, rfl, starts⟩ := derived.starts
  intro same
  exact never (same ▸ starts)

def Tier.continuers (tier : Tier) : List Kind :=
  tier.tighter.flatMap Level.kinds ++ [.leftParen]

theorem Tier.operator_not_continuer {tier : Tier} {kind : Kind} (sign : kind ∈ tier.operators) :
    kind ∉ tier.continuers := by
  revert kind
  cases tier <;> decide

def enders : List Kind :=
  [.semicolon, .rightParen, .comma]

/-- The kind continues no expression: it is no equals sign and joins or calls nothing. -/
def EndsExpression (kind : Kind) : Prop :=
  kind ≠ .equal ∧ kind ∉ Tier.disjunction.operators ∧ kind ∉ Tier.disjunction.continuers

theorem ender_not_continuer {kind : Kind} (ends : kind ∈ enders) : EndsExpression kind := by
  unfold EndsExpression
  revert kind
  decide

theorem end_of_input_ends : EndsExpression .endOfInput := by
  unfold EndsExpression
  decide

end Grammar

namespace Parser

open Rule ParseState ParseState

def Accepts : Phrase → List Token → Prop
  | .expression tree, tokens => ∀ units (after : ParseState), 12 * tokens.length ≤ units + 2 →
      after.current.kind ∈ enders → assignment units (after.prepend tokens) = .done tree after
  | .operation tier tree, tokens => ∃ count, count < tokens.length ∧ ∀ units (after : ParseState),
      12 * tokens.length + tier.tighter.length ≤ units + 9 →
      after.current.kind ∉ tier.continuers →
      operation (units + 1) (tier.level :: tier.tighter) (after.prepend tokens) =
        operators (units - count) tier.level tier.tighter tree after
  | .unary tree, tokens => ∀ units (after : ParseState), 12 * tokens.length ≤ units + 10 →
      after.current.kind ≠ .leftParen → unary units (after.prepend tokens) = .done tree after
  | .call tree, tokens => ∃ count, count < tokens.length ∧ ∀ units (after : ParseState),
      12 * tokens.length ≤ units + 11 →
      (primary units >>= fun callee => calls units callee) (after.prepend tokens) =
        calls (units - count) tree after
  | .primary tree, tokens => ∀ units (after : ParseState), 12 * tokens.length ≤ units + 11 →
      primary units (after.prepend tokens) = .done tree after
  | .arguments trees, tokens => ∀ units (after : ParseState), 12 * tokens.length ≤ units + 1 →
      after.current.kind = .rightParen → arguments units (after.prepend tokens) = .done trees after

/-- The loop over operators ends in front of a token that is none of them. -/
theorem operators_end {units : Nat} {tier : Tier} {tree : Expr} {state : ParseState}
    (missing : state.current.kind ∉ tier.operators) :
    operators (units + 1) tier.level tier.tighter tree state = .done tree state := by
  have taken : Rule.accept tier.level.kinds state = .done none state := accept_missing missing
  unfold operators
  rw [bind_of_done taken]
  rfl

/-- The loop over calls ends in front of a token that opens no parenthesis. -/
theorem calls_end {units : Nat} {tree : Expr} {state : ParseState}
    (missing : state.current.kind ≠ .leftParen) :
    calls (units + 1) tree state = .done tree state := by
  unfold calls
  rw [bind_of_done (accept_missing (by simpa using missing))]
  rfl

/-- An operation is parsed to its end if the token that follows continues neither it nor its last
operand. -/
theorem operation_of_accepts {tier : Tier} {tree : Expr} {tokens : List Token} {units : Nat}
    {after : ParseState} (accepted : Accepts (.operation tier tree) tokens)
    (enough : 12 * tokens.length + tier.tighter.length ≤ units + 9)
    (ended : after.current.kind ∉ tier.operators)
    (settled : after.current.kind ∉ tier.continuers) :
    operation (units + 1) (tier.level :: tier.tighter) (after.prepend tokens) =
      .done tree after := by
  obtain ⟨count, few, accepted⟩ := accepted
  rw [accepted units after enough settled]
  obtain ⟨left, budgetLeft⟩ : ∃ left, units - count = left + 1 := ⟨units - count - 1, by omega⟩
  rw [budgetLeft]
  exact operators_end ended

theorem operand_of_operation {tier next : Tier} {tree : Expr} {tokens : List Token} {units : Nat}
    {after : ParseState} (stronger : tier.tighter = next.level :: next.tighter)
    (accepted : Accepts (.operation next tree) tokens)
    (enough : 12 * tokens.length + tier.tighter.length ≤ units + 10)
    (settled : after.current.kind ∉ tier.continuers) :
    operation (units + 1) tier.tighter (after.prepend tokens) = .done tree after := by
  unfold Tier.continuers at settled
  rw [stronger] at settled enough ⊢
  simp only [List.flatMap_cons, List.append_assoc, List.mem_append, not_or] at settled
  simp only [List.length_cons] at enough
  apply operation_of_accepts accepted
  · omega
  · exact settled.1
  · simpa [Tier.continuers] using settled.2

/-- An operand is parsed to its end if the token that follows does not continue it. -/
theorem operand_of_accepts {tier : Tier} {tree : Expr} {tokens : List Token} {units : Nat}
    {after : ParseState} (accepted : Accepts (tier.operand tree) tokens)
    (enough : 12 * tokens.length + tier.tighter.length ≤ units + 10)
    (settled : after.current.kind ∉ tier.continuers) :
    operation (units + 1) tier.tighter (after.prepend tokens) = .done tree after := by
  cases tier with
  | disjunction => exact operand_of_operation rfl accepted enough settled
  | conjunction => exact operand_of_operation rfl accepted enough settled
  | equality => exact operand_of_operation rfl accepted enough settled
  | comparison => exact operand_of_operation rfl accepted enough settled
  | term => exact operand_of_operation rfl accepted enough settled
  | factor =>
      apply accepted
      · exact enough
      · simpa [Tier.continuers, Tier.tighter] using settled

theorem exists_succ {units bound : Nat} (enough : bound < units) :
    ∃ left, units = left + 1 ∧ bound ≤ left :=
  ⟨units - 1, by omega, by omega⟩

theorem token_constant {token : Token} {value : Literal} (denoted : Constant token value) :
    token.constant? = some value := by
  cases denoted with
  | trueWord word => simp [Token.constant?, word]
  | falseWord word => simp [Token.constant?, word]
  | nilWord word => simp [Token.constant?, word]
  | number digits read => simp [Token.constant?, digits, read]
  | string quoted read => simp [Token.constant?, quoted, read]

theorem accepts_constant {token : Token} {value : Literal} (denoted : Constant token value) :
    Accepts (.primary (.literal value token.line token.span)) [token] := by
  intro units after enough
  simp only [List.length_singleton] at enough
  obtain ⟨units, rfl, -⟩ := exists_succ (show 0 < units by omega)
  unfold primary
  rw [bind_of_done (current_done.mpr ⟨rfl, rfl⟩), current_prepend, token_constant denoted]
  rfl

theorem accepts_reference {name : Token} (word : name.kind = .identifier) :
    Accepts (.primary (.reference name)) [name] := by
  intro units after enough
  simp only [List.length_singleton] at enough
  obtain ⟨units, rfl, -⟩ := exists_succ (show 0 < units by omega)
  have plain : name.constant? = none := by simp [Token.constant?, word]
  unfold primary
  rw [bind_of_done (current_done.mpr ⟨rfl, rfl⟩), current_prepend, plain, word]
  rfl

theorem accepts_grouping {inner : Expr} {inside : List Token} {openParen closeParen : Token}
    (opened : openParen.kind = .leftParen) (accepted : Accepts (.expression inner) inside)
    (closed : closeParen.kind = .rightParen) :
    Accepts (.primary (.grouping inner (openParen.span.hull closeParen.span)))
      (openParen :: (inside ++ [closeParen])) := by
  intro units after enough
  simp only [List.length_cons, List.length_append, List.length_nil] at enough
  obtain ⟨units, rfl, enough⟩ := exists_succ (show 12 * inside.length < units by omega)
  have plain : openParen.constant? = none := by simp [Token.constant?, opened]
  have parsedInner : assignment units (after.prepend (inside ++ [closeParen])) =
      .done inner (after.prepend [closeParen]) := by
    rw [prepend_append]
    apply accepted units _ (by omega)
    simp [current_prepend, closed, enders]
  have taken : Rule.expect .groupingClose (after.prepend [closeParen]) =
      .done closeParen after := expect_prepend closed [] after
  unfold primary
  rw [bind_of_done (current_done.mpr ⟨rfl, rfl⟩), current_prepend, plain, opened]
  dsimp only
  rw [bind_of_done (take_prepend _ _ _), bind_of_done parsedInner, bind_of_done taken]
  rfl

theorem accepts_callee {tree : Expr} {tokens : List Token} (nonempty : 0 < tokens.length)
    (accepted : Accepts (.primary tree) tokens) : Accepts (.call tree) tokens := by
  refine ⟨0, nonempty, ?_⟩
  intro units after enough
  rw [bind_of_done (accepted units after enough)]
  rfl

theorem accepts_empty_call {callee : Expr} {before : List Token} {openParen closeParen : Token}
    (accepted : Accepts (.call callee) before) (opened : openParen.kind = .leftParen)
    (closed : closeParen.kind = .rightParen) :
    Accepts (.call (.call callee closeParen [])) (before ++ [openParen, closeParen]) := by
  obtain ⟨count, few, accepted⟩ := accepted
  refine ⟨count + 1, by simp; omega, ?_⟩
  intro units after enough
  simp only [List.length_append, List.length_cons, List.length_nil] at enough
  rw [prepend_append, accepted units _ (by omega)]
  obtain ⟨left, budgetLeft⟩ : ∃ left, units - count = left + 1 := ⟨units - count - 1, by omega⟩
  have rest : units - (count + 1) = left := by omega
  have taken : Rule.accept [.leftParen] (after.prepend [openParen, closeParen]) =
      .done (some openParen) (after.prepend [closeParen]) :=
    accept_prepend (by simp [opened]) [closeParen] after
  have closeTaken : Rule.expect .argumentsClose (after.prepend [closeParen]) =
      .done closeParen after := expect_prepend closed [] after
  rw [budgetLeft, rest, calls, bind_of_done taken]
  dsimp only
  rw [bind_of_done (is_at_eq _ _), current_prepend, if_pos (by simp [closed])]
  rw [bind_of_done (pure_done.mpr ⟨rfl, rfl⟩), bind_of_done closeTaken]

theorem accepts_full_call {callee : Expr} {arguments : List Expr} {before inside : List Token}
    {openParen closeParen : Token} (accepted : Accepts (.call callee) before)
    (opened : openParen.kind = .leftParen) (passed : Derives (.arguments arguments) inside)
    (acceptedInside : Accepts (.arguments arguments) inside)
    (closed : closeParen.kind = .rightParen) :
    Accepts (.call (.call callee closeParen arguments))
      (before ++ openParen :: (inside ++ [closeParen])) := by
  obtain ⟨count, few, accepted⟩ := accepted
  refine ⟨count + 1, by simp; omega, ?_⟩
  intro units after enough
  simp only [List.length_append, List.length_cons, List.length_nil] at enough
  rw [prepend_append, accepted units _ (by omega)]
  obtain ⟨left, budgetLeft⟩ : ∃ left, units - count = left + 1 := ⟨units - count - 1, by omega⟩
  have rest : units - (count + 1) = left := by omega
  have taken : Rule.accept [.leftParen] (after.prepend (openParen :: (inside ++ [closeParen]))) =
      .done (some openParen) (after.prepend (inside ++ [closeParen])) :=
    accept_prepend (by simp [opened]) _ after
  have filled : ((after.prepend [closeParen]).prepend inside).current.kind ≠ .rightParen :=
    passed.current_ne (by simp [Phrase.starters, callStarters]) _
  have parsedInside : Parser.arguments left ((after.prepend [closeParen]).prepend inside) =
      .done arguments (after.prepend [closeParen]) := by
    apply acceptedInside left _ (by omega)
    exact closed
  have closeTaken : Rule.expect .argumentsClose (after.prepend [closeParen]) =
      .done closeParen after := expect_prepend closed [] after
  rw [budgetLeft, rest, calls, bind_of_done taken]
  dsimp only
  rw [prepend_append, bind_of_done (is_at_eq _ _)]
  rw [if_neg (by simpa using filled)]
  rw [bind_of_done parsedInside, bind_of_done closeTaken]

theorem accepts_called {tree : Expr} {tokens : List Token} (derived : Derives (.call tree) tokens)
    (accepted : Accepts (.call tree) tokens) : Accepts (.unary tree) tokens := by
  obtain ⟨count, few, accepted⟩ := accepted
  intro units after enough ended
  have noBang : (after.prepend tokens).current.kind ≠ .bang :=
    derived.current_ne (by simp [Phrase.starters, callStarters]) after
  have noMinus : (after.prepend tokens).current.kind ≠ .minus :=
    derived.current_ne (by simp [Phrase.starters, callStarters]) after
  have nonempty := derived.length_pos
  obtain ⟨units, rfl, -⟩ := exists_succ (show 0 < units by omega)
  have missing : Rule.accept [.bang, .minus] (after.prepend tokens) =
      .done none (after.prepend tokens) := by
    apply accept_missing
    simp [noBang, noMinus]
  unfold unary
  rw [bind_of_done missing]
  dsimp only
  rw [accepted units after (by omega)]
  obtain ⟨left, budgetLeft⟩ : ∃ left, units - count = left + 1 := ⟨units - count - 1, by omega⟩
  rw [budgetLeft]
  exact calls_end ended

theorem accepts_negation {operator : Token} {operand : Expr} {rest : List Token}
    (sign : operator.kind = .bang ∨ operator.kind = .minus)
    (accepted : Accepts (.unary operand) rest) :
    Accepts (.unary (.unary operator operand)) (operator :: rest) := by
  intro units after enough ended
  simp only [List.length_cons] at enough
  obtain ⟨units, rfl, -⟩ := exists_succ (show 0 < units by omega)
  have taken : Rule.accept [.bang, .minus] (after.prepend (operator :: rest)) =
      .done (some operator) (after.prepend rest) := accept_prepend (by simpa using sign) rest after
  unfold unary
  rw [bind_of_done taken]
  dsimp only
  rw [bind_of_done (accepted units after (by omega) ended)]
  rfl

theorem accepts_operand {tier : Tier} {tree : Expr} {tokens : List Token}
    (nonempty : 0 < tokens.length) (accepted : Accepts (tier.operand tree) tokens) :
    Accepts (.operation tier tree) tokens := by
  refine ⟨0, nonempty, ?_⟩
  intro units after enough settled
  obtain ⟨units, rfl, -⟩ := exists_succ (show 0 < units by omega)
  unfold operation
  rw [bind_of_done (operand_of_accepts accepted (by omega) settled)]
  rfl

theorem accepts_operator {tier : Tier} {left right : Expr} {operator : Token}
    {before behind : List Token} (accepted : Accepts (.operation tier left) before)
    (sign : operator.kind ∈ tier.operators) (nonempty : 0 < behind.length)
    (acceptedRight : Accepts (tier.operand right) behind) :
    Accepts (.operation tier (tier.node left operator right)) (before ++ operator :: behind) := by
  obtain ⟨count, few, accepted⟩ := accepted
  refine ⟨count + 1, by simp; omega, ?_⟩
  intro units after enough settled
  simp only [List.length_append, List.length_cons] at enough
  have between : (after.prepend (operator :: behind)).current.kind ∉ tier.continuers :=
    Tier.operator_not_continuer sign
  rw [prepend_append, accepted units _ (by omega) between]
  obtain ⟨rest, budgetLeft⟩ : ∃ rest, units - count = rest + 1 + 1 :=
    ⟨units - count - 2, by omega⟩
  have further : units - (count + 1) = rest + 1 := by omega
  have taken : Rule.accept tier.level.kinds (after.prepend (operator :: behind)) =
      .done (some operator) (after.prepend behind) := accept_prepend sign behind after
  have parsedRight : operation (rest + 1) tier.tighter (after.prepend behind) =
      .done right after := operand_of_accepts acceptedRight (by omega) settled
  rw [budgetLeft, further, operators]
  rw [bind_of_done taken]
  dsimp only
  rw [bind_of_done parsedRight, Tier.level_join]

/-- An operation of the loosest tier is read as an expression in front of anything that does not
continue it. -/
theorem assignment_of_operation {tree : Expr} {tokens : List Token} {units : Nat}
    {after : ParseState} (nonempty : 0 < tokens.length)
    (accepted : Accepts (.operation .disjunction tree) tokens)
    (enough : 12 * tokens.length ≤ units + 2) (ended : EndsExpression after.current.kind) :
    assignment units (after.prepend tokens) = .done tree after := by
  obtain ⟨noEqual, noOperator, settled⟩ := ended
  obtain ⟨units, rfl, -⟩ := exists_succ (show 0 < units by omega)
  obtain ⟨units, rfl, -⟩ := exists_succ (show 0 < units by omega)
  have parsed : operation (units + 1) Level.all (after.prepend tokens) = .done tree after := by
    rw [Tier.all_levels]
    apply operation_of_accepts accepted _ noOperator settled
    simp only [Tier.tighter, List.length_cons, List.length_nil]
    omega
  unfold assignment
  rw [bind_of_done parsed, bind_of_done (accept_missing (by simpa using noEqual))]
  rfl

theorem accepts_plain {tree : Expr} {tokens : List Token}
    (nonempty : 0 < tokens.length)
    (accepted : Accepts (.operation .disjunction tree) tokens) :
    Accepts (.expression tree) tokens :=
  fun _ _ enough ended =>
    assignment_of_operation nonempty accepted enough (ender_not_continuer ended)

theorem accepts_name {name : Token} (word : name.kind = .identifier) :
    Accepts (.operation .disjunction (.reference name)) [name] := by
  have primary := accepts_reference word
  have called := accepts_called (.callee (.reference word)) (accepts_callee (by simp) primary)
  have factor : Accepts (.operation .factor (.reference name)) [name] :=
    accepts_operand (by simp) called
  have term : Accepts (.operation .term (.reference name)) [name] :=
    accepts_operand (by simp) factor
  have comparison : Accepts (.operation .comparison (.reference name)) [name] :=
    accepts_operand (by simp) term
  have equality : Accepts (.operation .equality (.reference name)) [name] :=
    accepts_operand (by simp) comparison
  have conjunction : Accepts (.operation .conjunction (.reference name)) [name] :=
    accepts_operand (by simp) equality
  exact accepts_operand (by simp) conjunction

/-- A name, an equals sign and a value are read as an assignment wherever the value is read. -/
theorem assignment_of_name {name equals : Token} {value : Expr} {rest : List Token} {units : Nat}
    {after : ParseState} (target : name.kind = .identifier) (sign : equals.kind = .equal)
    (enough : 12 * (name :: equals :: rest).length ≤ units + 2)
    (parsed : ∀ fewer, 12 * rest.length ≤ fewer + 2 →
      assignment fewer (after.prepend rest) = .done value after) :
    assignment units (after.prepend (name :: equals :: rest)) =
      .done (.assign name value) after := by
  simp only [List.length_cons] at enough
  obtain ⟨units, rfl, -⟩ := exists_succ (show 0 < units by omega)
  obtain ⟨units, rfl, -⟩ := exists_succ (show 0 < units by omega)
  have parsedTarget : operation (units + 1) Level.all
      ((after.prepend (equals :: rest)).prepend [name]) =
      .done (.reference name) (after.prepend (equals :: rest)) := by
    rw [Tier.all_levels]
    apply operation_of_accepts (accepts_name target)
    · simp only [Tier.tighter, List.length_cons, List.length_nil]
      omega
    · simp [current_prepend, sign, Tier.operators]
    · simp [current_prepend, sign, Tier.continuers, Tier.tighter, Tier.level, Tier.operators]
  have taken : Rule.accept [.equal] (after.prepend (equals :: rest)) =
      .done (some equals) (after.prepend rest) := accept_prepend (by simp [sign]) rest after
  unfold assignment
  rw [show name :: equals :: rest = [name] ++ equals :: rest from rfl, prepend_append,
    bind_of_done parsedTarget, bind_of_done taken]
  dsimp only
  rw [bind_of_done (parsed (units + 1) (by omega))]
  rfl

theorem accepts_assign {name equals : Token} {value : Expr} {rest : List Token}
    (target : name.kind = .identifier) (sign : equals.kind = .equal)
    (accepted : Accepts (.expression value) rest) :
    Accepts (.expression (.assign name value)) (name :: equals :: rest) :=
  fun _ after enough ended =>
    assignment_of_name target sign enough fun fewer enough => accepted fewer after enough ended

theorem accepts_last_argument {tree : Expr} {tokens : List Token} (nonempty : 0 < tokens.length)
    (accepted : Accepts (.expression tree) tokens) : Accepts (.arguments [tree]) tokens := by
  intro units after enough ended
  obtain ⟨units, rfl, -⟩ := exists_succ (show 0 < units by omega)
  have parsed : assignment units (after.prepend tokens) = .done tree after := by
    apply accepted units after (by omega)
    simp [ended, enders]
  unfold arguments
  rw [bind_of_done parsed, bind_of_done (accept_missing (by simp [ended]))]
  rfl

theorem accepts_argument {tree : Expr} {trees : List Expr} {before behind : List Token}
    {comma : Token} (accepted : Accepts (.expression tree) before) (sign : comma.kind = .comma)
    (acceptedOthers : Accepts (.arguments trees) behind) :
    Accepts (.arguments (tree :: trees)) (before ++ comma :: behind) := by
  intro units after enough ended
  simp only [List.length_append, List.length_cons] at enough
  obtain ⟨units, rfl, -⟩ := exists_succ (show 0 < units by omega)
  have parsed : assignment units ((after.prepend (comma :: behind)).prepend before) =
      .done tree (after.prepend (comma :: behind)) := by
    apply accepted units _ (by omega)
    simp [current_prepend, sign, enders]
  have taken : Rule.accept [.comma] (after.prepend (comma :: behind)) =
      .done (some comma) (after.prepend behind) := accept_prepend (by simp [sign]) behind after
  unfold arguments
  rw [prepend_append, bind_of_done parsed, bind_of_done taken]
  dsimp only
  rw [bind_of_done (acceptedOthers units after (by omega) ended)]
  rfl

theorem accepts_of_derives {phrase : Phrase} {tokens : List Token}
    (derived : Derives phrase tokens) : Accepts phrase tokens := by
  induction derived with
  | assign target sign assigned ih => exact accepts_assign target sign ih
  | plain whole ih => exact accepts_plain whole.length_pos ih
  | operand whole ih => exact accepts_operand whole.length_pos ih
  | operator first sign second ih ihSecond =>
      exact accepts_operator ih sign second.length_pos ihSecond
  | negation sign negated ih => exact accepts_negation sign ih
  | called whole ih => exact accepts_called whole ih
  | callee whole ih => exact accepts_callee whole.length_pos ih
  | emptyCall function opened closed ih => exact accepts_empty_call ih opened closed
  | fullCall function opened passed closed ih ihPassed =>
      exact accepts_full_call ih opened passed ihPassed closed
  | lastArgument whole ih => exact accepts_last_argument whole.length_pos ih
  | argument first sign others ih ihOthers => exact accepts_argument ih sign ihOthers
  | constant denoted => exact accepts_constant denoted
  | reference word => exact accepts_reference word
  | grouping opened enclosed closed ih => exact accepts_grouping opened ih closed

theorem expression_of_derives {tree : Expr} {tokens : List Token} {after : ParseState}
    (derived : Derives (.expression tree) tokens) (ended : after.current.kind ∈ enders) :
    expression (after.prepend tokens) = .done tree after := by
  apply accepts_of_derives derived
  · simp only [prepend, supply_room, List.length_append, budget]
    omega
  · exact ended

/-- An expression is read to its end wherever nothing continues it, also at the end of the input. -/
theorem assignment_of_derives {tree : Expr} {tokens : List Token} {units : Nat}
    {after : ParseState} (derived : Derives (.expression tree) tokens)
    (enough : 12 * tokens.length ≤ units + 2) (ended : EndsExpression after.current.kind) :
    assignment units (after.prepend tokens) = .done tree after := by
  generalize same : Phrase.expression tree = phrase at derived
  induction derived generalizing tree units with
  | assign target sign assigned ih =>
      cases same
      exact assignment_of_name target sign enough fun fewer enough => ih enough rfl
  | plain whole =>
      cases same
      exact assignment_of_operation whole.length_pos (accepts_of_derives whole) enough ended
  | _ => cases same

theorem expression_of_whole {tree : Expr} {state : ParseState} (closed : state.Closed)
    (derived : Derives (.expression tree) state.ahead) :
    expression state = .done tree { state with ahead := [] } := by
  have ended : EndsExpression ({ state with ahead := [] } : ParseState).current.kind := by
    rw [show ({ state with ahead := [] } : ParseState).current.kind = .endOfInput from closed]
    exact end_of_input_ends
  have enough : 12 * state.ahead.length ≤ budget state.ahead.length + 2 := by
    unfold budget
    omega
  have parsed := assignment_of_derives derived enough ended
  have whole : ParseState.prepend state.ahead { state with ahead := [] } = state := by
    simp [prepend]
  rw [whole] at parsed
  exact parsed

end Parser

end Treewalk
