import Treewalk.Proofs.Reprint.Program

/-!
# Derivations do not look at places

Tokens that differ from those of a program in their places only form the same program, up to places.
A derivation of the one list is followed rule by rule and gives a derivation of the other.
-/

namespace Treewalk

set_option autoImplicit false

open Grammar

variable {found : List Token}

theorem constant_of_erase {token again : Token} {value : Literal} (denoted : Constant token value)
    (same : again.erase = token.erase) : Constant again value := by
  have kinds : again.kind = token.kind := Token.kind_of_erase same
  have literals : again.erase.literal = token.erase.literal := by rw [same]
  cases denoted with
  | trueWord word => exact .trueWord (kinds.trans word)
  | falseWord word => exact .falseWord (kinds.trans word)
  | nilWord word => exact .nilWord (kinds.trans word)
  | number digits read => exact .number (kinds.trans digits) (literals.trans read)
  | string quoted read => exact .string (kinds.trans quoted) (literals.trans read)

theorem rederives_of_derives {phrase : Phrase} {tokens : List Token}
    (derived : Derives phrase tokens)
    (same : found.map Token.erase = tokens.map Token.erase) : Rederives phrase found := by
  induction derived generalizing found with
  | assign target sign assigned ih =>
      rw [List.map_cons, List.map_cons] at same
      obtain ⟨name, rest, rfl, sameName, same⟩ := List.map_eq_cons_iff.mp same
      obtain ⟨equals, rest, rfl, sameSign, same⟩ := List.map_eq_cons_iff.mp same
      obtain ⟨again, sameValue, derived⟩ := ih same
      refine ⟨.assign name again, ?_, .assign ?_ ?_ derived⟩
      · rw [Expr.erase, Expr.erase, sameName, sameValue]
      · rw [Token.kind_of_erase sameName, target]
      · rw [Token.kind_of_erase sameSign, sign]
  | plain whole ih =>
      obtain ⟨again, sameTree, derived⟩ := ih same
      exact ⟨again, sameTree, .plain derived⟩
  | operand whole ih =>
      obtain ⟨again, sameTree, derived⟩ := rederives_operand.mp (ih same)
      exact ⟨again, sameTree, .operand derived⟩
  | @operator tier left right operator before behind first sign second ihFirst ihSecond =>
      rw [List.map_append, List.map_cons] at same
      obtain ⟨before, rest, rfl, sameFirst, same⟩ := List.map_eq_append_iff.mp same
      obtain ⟨operatorToo, behind, rfl, sameSign, sameSecond⟩ := List.map_eq_cons_iff.mp same
      obtain ⟨leftToo, sameLeft, derivedFirst⟩ := ihFirst sameFirst
      obtain ⟨rightToo, sameRight, derivedSecond⟩ := rederives_operand.mp (ihSecond sameSecond)
      refine ⟨tier.node leftToo operatorToo rightToo, ?_, .operator derivedFirst ?_ derivedSecond⟩
      · rw [node_erase, node_erase, sameLeft, sameSign, sameRight]
      · rw [Token.kind_of_erase sameSign]
        exact sign
  | negation sign negated ih =>
      rw [List.map_cons] at same
      obtain ⟨operator, rest, rfl, sameSign, same⟩ := List.map_eq_cons_iff.mp same
      obtain ⟨again, sameOperand, derived⟩ := ih same
      refine ⟨.unary operator again, ?_, .negation ?_ derived⟩
      · rw [Expr.erase, Expr.erase, sameSign, sameOperand]
      · rw [Token.kind_of_erase sameSign]
        exact sign
  | called whole ih =>
      obtain ⟨again, sameTree, derived⟩ := ih same
      exact ⟨again, sameTree, .called derived⟩
  | callee whole ih =>
      obtain ⟨again, sameTree, derived⟩ := ih same
      exact ⟨again, sameTree, .callee derived⟩
  | emptyCall function opened closed ih =>
      rw [List.map_append, List.map_cons, List.map_singleton] at same
      obtain ⟨before, rest, rfl, sameCallee, same⟩ := List.map_eq_append_iff.mp same
      obtain ⟨openParen, rest, rfl, sameOpen, same⟩ := List.map_eq_cons_iff.mp same
      obtain ⟨closeParen, rfl, sameClose⟩ := map_erase_singleton same
      obtain ⟨again, sameTree, derived⟩ := ih sameCallee
      refine ⟨.call again closeParen [], ?_, .emptyCall derived ?_ ?_⟩
      · rw [Expr.erase, Expr.erase, sameTree, sameClose]
      · rw [Token.kind_of_erase sameOpen, opened]
      · rw [Token.kind_of_erase sameClose, closed]
  | fullCall function opened passed closed ihFunction ihPassed =>
      rw [List.map_append, List.map_cons, List.map_append, List.map_singleton] at same
      obtain ⟨before, rest, rfl, sameCallee, same⟩ := List.map_eq_append_iff.mp same
      obtain ⟨openParen, rest, rfl, sameOpen, same⟩ := List.map_eq_cons_iff.mp same
      obtain ⟨inside, rest, rfl, sameInside, same⟩ := List.map_eq_append_iff.mp same
      obtain ⟨closeParen, rfl, sameClose⟩ := map_erase_singleton same
      obtain ⟨again, sameTree, derived⟩ := ihFunction sameCallee
      obtain ⟨trees, sameTrees, derivedPassed⟩ := ihPassed sameInside
      refine ⟨.call again closeParen trees, ?_, .fullCall derived ?_ derivedPassed ?_⟩
      · rw [Expr.erase, Expr.erase, sameTree, sameTrees, sameClose]
      · rw [Token.kind_of_erase sameOpen, opened]
      · rw [Token.kind_of_erase sameClose, closed]
  | lastArgument whole ih =>
      obtain ⟨again, sameTree, derived⟩ := ih same
      refine ⟨[again], ?_, .lastArgument derived⟩
      rw [Expr.eraseAll, Expr.eraseAll, sameTree]
      rfl
  | argument first sign others ihFirst ihOthers =>
      rw [List.map_append, List.map_cons] at same
      obtain ⟨before, rest, rfl, sameFirst, same⟩ := List.map_eq_append_iff.mp same
      obtain ⟨comma, behind, rfl, sameComma, sameOthers⟩ := List.map_eq_cons_iff.mp same
      obtain ⟨again, sameTree, derived⟩ := ihFirst sameFirst
      obtain ⟨more, sameTrees, derivedOthers⟩ := ihOthers sameOthers
      refine ⟨again :: more, ?_, .argument derived ?_ derivedOthers⟩
      · rw [Expr.eraseAll, Expr.eraseAll, sameTree, sameTrees]
      · rw [Token.kind_of_erase sameComma, sign]
  | constant denoted =>
      obtain ⟨token, rfl, sameToken⟩ := map_erase_singleton same
      refine ⟨.literal _ token.line token.span, ?_, .constant (constant_of_erase denoted sameToken)⟩
      rw [Expr.erase, Expr.erase]
  | reference word =>
      obtain ⟨name, rfl, sameName⟩ := map_erase_singleton same
      refine ⟨.reference name, ?_, .reference ?_⟩
      · rw [Expr.erase, Expr.erase, sameName]
      · rw [Token.kind_of_erase sameName, word]
  | grouping opened enclosed closed ih =>
      rw [List.map_cons, List.map_append, List.map_singleton] at same
      obtain ⟨openParen, rest, rfl, sameOpen, same⟩ := List.map_eq_cons_iff.mp same
      obtain ⟨inside, rest, rfl, sameInside, same⟩ := List.map_eq_append_iff.mp same
      obtain ⟨closeParen, rfl, sameClose⟩ := map_erase_singleton same
      obtain ⟨again, sameTree, derived⟩ := ih sameInside
      refine ⟨.grouping again (openParen.span.hull closeParen.span), ?_, .grouping ?_ derived ?_⟩
      · rw [Expr.erase, Expr.erase, sameTree]
      · rw [Token.kind_of_erase sameOpen, opened]
      · rw [Token.kind_of_erase sameClose, closed]

theorem optional_of_erase {value : Option Expr} {tokens : List Token}
    (derived : Optional value tokens)
    (same : found.map Token.erase = tokens.map Token.erase) :
    ∃ again, again.map Expr.erase = value.map Expr.erase ∧ Optional again found := by
  cases derived with
  | absent =>
      rw [List.map_eq_nil_iff.mp same]
      exact ⟨none, rfl, .absent⟩
  | present whole =>
      obtain ⟨again, sameTree, derived⟩ := rederives_of_derives whole same
      exact ⟨some again, congrArg some sameTree, .present derived⟩

theorem variable_declaration_of_erase {tree : Stmt} {tokens : List Token}
    (declared : VariableDeclaration tree tokens)
    (same : found.map Token.erase = tokens.map Token.erase) :
    ∃ again, again.erase = tree.erase ∧ VariableDeclaration again found := by
  cases declared with
  | bare word named ended =>
      rw [List.map_cons, List.map_cons, List.map_singleton] at same
      obtain ⟨keyword, rest, rfl, sameWord, same⟩ := List.map_eq_cons_iff.mp same
      obtain ⟨name, rest, rfl, sameName, same⟩ := List.map_eq_cons_iff.mp same
      obtain ⟨semicolon, rfl, sameEnd⟩ := map_erase_singleton same
      refine ⟨.declare name none, ?_, .bare ?_ ?_ ?_⟩
      · rw [Stmt.erase, Stmt.erase, sameName]
      · rw [Token.kind_of_erase sameWord, word]
      · rw [Token.kind_of_erase sameName, named]
      · rw [Token.kind_of_erase sameEnd, ended]
  | initialized word named sign initial ended =>
      rw [List.map_cons, List.map_cons, List.map_cons, List.map_append, List.map_singleton] at same
      obtain ⟨keyword, rest, rfl, sameWord, same⟩ := List.map_eq_cons_iff.mp same
      obtain ⟨name, rest, rfl, sameName, same⟩ := List.map_eq_cons_iff.mp same
      obtain ⟨equals, rest, rfl, sameSign, same⟩ := List.map_eq_cons_iff.mp same
      obtain ⟨inside, rest, rfl, sameInside, same⟩ := List.map_eq_append_iff.mp same
      obtain ⟨semicolon, rfl, sameEnd⟩ := map_erase_singleton same
      obtain ⟨again, sameTree, derived⟩ := rederives_of_derives initial sameInside
      refine ⟨.declare name (some again), ?_, .initialized ?_ ?_ ?_ derived ?_⟩
      · rw [Stmt.erase, Stmt.erase, sameName, Option.map_some, Option.map_some, sameTree]
      · rw [Token.kind_of_erase sameWord, word]
      · rw [Token.kind_of_erase sameName, named]
      · rw [Token.kind_of_erase sameSign, sign]
      · rw [Token.kind_of_erase sameEnd, ended]

theorem expression_statement_of_erase {tree : Stmt} {tokens : List Token}
    (formed : ExpressionStatement tree tokens)
    (same : found.map Token.erase = tokens.map Token.erase) :
    ∃ again, again.erase = tree.erase ∧ ExpressionStatement again found := by
  cases formed with
  | intro whole ended =>
      rw [List.map_append, List.map_singleton] at same
      obtain ⟨inside, rest, rfl, sameInside, same⟩ := List.map_eq_append_iff.mp same
      obtain ⟨semicolon, rfl, sameEnd⟩ := map_erase_singleton same
      obtain ⟨again, sameTree, derived⟩ := rederives_of_derives whole sameInside
      refine ⟨.expression again, ?_, .intro derived ?_⟩
      · rw [Stmt.erase, Stmt.erase, sameTree]
      · rw [Token.kind_of_erase sameEnd, ended]

theorem initial_of_erase {initial : Option Stmt} {tokens : List Token}
    (start : Initial initial tokens)
    (same : found.map Token.erase = tokens.map Token.erase) :
    ∃ again, again.map Stmt.erase = initial.map Stmt.erase ∧ Initial again found := by
  cases start with
  | absent ended =>
      obtain ⟨semicolon, rfl, sameEnd⟩ := map_erase_singleton same
      refine ⟨none, rfl, .absent ?_⟩
      rw [Token.kind_of_erase sameEnd, ended]
  | declared whole =>
      obtain ⟨again, sameTree, declared⟩ := variable_declaration_of_erase whole same
      exact ⟨some again, congrArg some sameTree, .declared declared⟩
  | expression whole =>
      obtain ⟨again, sameTree, formed⟩ := expression_statement_of_erase whole same
      exact ⟨some again, congrArg some sameTree, .expression formed⟩

theorem names_of_erase {names tokens : List Token} (listed : Names names tokens)
    (same : found.map Token.erase = tokens.map Token.erase) :
    ∃ again, again.map Token.erase = names.map Token.erase ∧ Names again found := by
  induction listed generalizing found with
  | last word =>
      obtain ⟨name, rfl, sameName⟩ := map_erase_singleton same
      refine ⟨[name], ?_, .last ?_⟩
      · rw [List.map_singleton, List.map_singleton, sameName]
      · rw [Token.kind_of_erase sameName, word]
  | more word sign others ih =>
      rw [List.map_cons, List.map_cons] at same
      obtain ⟨name, rest, rfl, sameName, same⟩ := List.map_eq_cons_iff.mp same
      obtain ⟨comma, rest, rfl, sameComma, same⟩ := List.map_eq_cons_iff.mp same
      obtain ⟨again, sameNames, listed⟩ := ih same
      refine ⟨name :: again, ?_, .more ?_ ?_ listed⟩
      · rw [List.map_cons, List.map_cons, sameName, sameNames]
      · rw [Token.kind_of_erase sameName, word]
      · rw [Token.kind_of_erase sameComma, sign]

theorem parameters_of_erase {names tokens : List Token} (head : Parameters names tokens)
    (same : found.map Token.erase = tokens.map Token.erase) :
    ∃ again, again.map Token.erase = names.map Token.erase ∧ Parameters again found := by
  cases head with
  | none =>
      rw [List.map_eq_nil_iff.mp same]
      exact ⟨[], rfl, .none⟩
  | some whole =>
      obtain ⟨again, sameNames, listed⟩ := names_of_erase whole same
      exact ⟨again, sameNames, .some listed⟩

theorem while_form_erase {keyword again : Token} {initial initialToo : Option Stmt}
    {condition conditionToo increment incrementToo : Option Expr} {body bodyToo : Stmt}
    (sameInitial : initialToo.map Stmt.erase = initial.map Stmt.erase)
    (sameCondition : conditionToo.map Expr.erase = condition.map Expr.erase)
    (sameIncrement : incrementToo.map Expr.erase = increment.map Expr.erase)
    (sameBody : bodyToo.erase = body.erase) :
    (whileForm again initialToo conditionToo incrementToo bodyToo).erase =
      (whileForm keyword initial condition increment body).erase := by
  have guards : (guard again conditionToo).erase = (guard keyword condition).erase := by
    cases condition with
    | none =>
        rw [Option.map_eq_none_iff.mp sameCondition]
        rfl
    | some condition =>
        obtain ⟨other, rfl, same⟩ := Option.map_eq_some_iff.mp sameCondition
        exact same
  have bodies : (stepped bodyToo incrementToo).erase = (stepped body increment).erase := by
    cases increment with
    | none =>
        rw [Option.map_eq_none_iff.mp sameIncrement]
        exact sameBody
    | some increment =>
        obtain ⟨other, rfl, same⟩ := Option.map_eq_some_iff.mp sameIncrement
        simp only [stepped, Stmt.erase, Stmt.eraseAll, sameBody, same]
  cases initial with
  | none =>
      rw [Option.map_eq_none_iff.mp sameInitial]
      simp only [whileForm, Stmt.erase, guards, bodies]
  | some initial =>
      obtain ⟨other, rfl, same⟩ := Option.map_eq_some_iff.mp sameInitial
      simp only [whileForm, Stmt.erase, Stmt.eraseAll, same, guards, bodies]

def Reforms : Sentence → List Token → Prop
  | .statement waiting tree, found =>
      ∃ again, again.erase = tree.erase ∧ Forms (.statement waiting again) found
  | .declaration tree, found => ∃ again, again.erase = tree.erase ∧ Forms (.declaration again) found
  | .declarations trees, found =>
      ∃ again, Stmt.eraseAll again = Stmt.eraseAll trees ∧ Forms (.declarations again) found

theorem reforms_of_forms {sentence : Sentence} {tokens : List Token}
    (formed : Forms sentence tokens)
    (same : found.map Token.erase = tokens.map Token.erase) : Reforms sentence found := by
  induction formed generalizing found with
  | expression whole =>
      obtain ⟨again, sameTree, formed⟩ := expression_statement_of_erase whole same
      exact ⟨again, sameTree, .expression formed⟩
  | print word shown ended =>
      rw [List.map_cons, List.map_append, List.map_singleton] at same
      obtain ⟨keyword, rest, rfl, sameWord, same⟩ := List.map_eq_cons_iff.mp same
      obtain ⟨inside, rest, rfl, sameInside, same⟩ := List.map_eq_append_iff.mp same
      obtain ⟨semicolon, rfl, sameEnd⟩ := map_erase_singleton same
      obtain ⟨again, sameTree, derived⟩ := rederives_of_derives shown sameInside
      refine ⟨.print keyword again, ?_, .print ?_ derived ?_⟩
      · rw [Stmt.erase, Stmt.erase, sameWord, sameTree]
      · rw [Token.kind_of_erase sameWord, word]
      · rw [Token.kind_of_erase sameEnd, ended]
  | returnValue word result ended =>
      rw [List.map_cons, List.map_append, List.map_singleton] at same
      obtain ⟨keyword, rest, rfl, sameWord, same⟩ := List.map_eq_cons_iff.mp same
      obtain ⟨inside, rest, rfl, sameInside, same⟩ := List.map_eq_append_iff.mp same
      obtain ⟨semicolon, rfl, sameEnd⟩ := map_erase_singleton same
      obtain ⟨again, sameValue, derived⟩ := optional_of_erase result sameInside
      refine ⟨.returnValue keyword again, ?_, .returnValue ?_ derived ?_⟩
      · rw [Stmt.erase, Stmt.erase, sameWord, sameValue]
      · rw [Token.kind_of_erase sameWord, word]
      · rw [Token.kind_of_erase sameEnd, ended]
  | breakLoop word ended =>
      rw [List.map_cons, List.map_singleton] at same
      obtain ⟨keyword, rest, rfl, sameWord, same⟩ := List.map_eq_cons_iff.mp same
      obtain ⟨semicolon, rfl, sameEnd⟩ := map_erase_singleton same
      refine ⟨.breakLoop keyword, ?_, .breakLoop ?_ ?_⟩
      · rw [Stmt.erase, Stmt.erase, sameWord]
      · rw [Token.kind_of_erase sameWord, word]
      · rw [Token.kind_of_erase sameEnd, ended]
  | block opened enclosed closed ih =>
      rw [List.map_cons, List.map_append, List.map_singleton] at same
      obtain ⟨openBrace, rest, rfl, sameOpen, same⟩ := List.map_eq_cons_iff.mp same
      obtain ⟨inside, rest, rfl, sameInside, same⟩ := List.map_eq_append_iff.mp same
      obtain ⟨closeBrace, rfl, sameClose⟩ := map_erase_singleton same
      obtain ⟨again, sameTrees, formed⟩ := ih sameInside
      refine ⟨.block again (openBrace.span.hull closeBrace.span), ?_, .block ?_ formed ?_⟩
      · rw [Stmt.erase, Stmt.erase, sameTrees]
      · rw [Token.kind_of_erase sameOpen, opened]
      · rw [Token.kind_of_erase sameClose, closed]
  | function word named opened head closed begun enclosed ended ih =>
      simp only [List.map_cons, List.map_append, List.map_nil] at same
      obtain ⟨keyword, rest, rfl, sameWord, same⟩ := List.map_eq_cons_iff.mp same
      obtain ⟨name, rest, rfl, sameName, same⟩ := List.map_eq_cons_iff.mp same
      obtain ⟨openParen, rest, rfl, sameOpen, same⟩ := List.map_eq_cons_iff.mp same
      obtain ⟨listed, rest, rfl, sameListed, same⟩ := List.map_eq_append_iff.mp same
      obtain ⟨closeParen, rest, rfl, sameClose, same⟩ := List.map_eq_cons_iff.mp same
      obtain ⟨openBrace, rest, rfl, sameBegin, same⟩ := List.map_eq_cons_iff.mp same
      obtain ⟨inside, rest, rfl, sameInside, same⟩ := List.map_eq_append_iff.mp same
      obtain ⟨closeBrace, rfl, sameEnd⟩ := map_erase_singleton same
      obtain ⟨parameters, sameParameters, headToo⟩ := parameters_of_erase head sameListed
      obtain ⟨again, sameTrees, formed⟩ := ih sameInside
      refine ⟨.function name parameters again, ?_, .function ?_ ?_ ?_ headToo ?_ ?_ formed ?_⟩
      · rw [Stmt.erase, Stmt.erase, sameName, sameParameters, sameTrees]
      · rw [Token.kind_of_erase sameWord, word]
      · rw [Token.kind_of_erase sameName, named]
      · rw [Token.kind_of_erase sameOpen, opened]
      · rw [Token.kind_of_erase sameClose, closed]
      · rw [Token.kind_of_erase sameBegin, begun]
      · rw [Token.kind_of_erase sameEnd, ended]
  | ifThen word opened test closed first ih =>
      simp only [List.map_cons, List.map_append] at same
      obtain ⟨keyword, rest, rfl, sameWord, same⟩ := List.map_eq_cons_iff.mp same
      obtain ⟨openParen, rest, rfl, sameOpen, same⟩ := List.map_eq_cons_iff.mp same
      obtain ⟨asked, rest, rfl, sameAsked, same⟩ := List.map_eq_append_iff.mp same
      obtain ⟨closeParen, rest, rfl, sameClose, same⟩ := List.map_eq_cons_iff.mp same
      obtain ⟨condition, sameCondition, derived⟩ := rederives_of_derives test sameAsked
      obtain ⟨again, sameTree, formed⟩ := ih same
      refine ⟨.ifThen keyword condition again, ?_, .ifThen ?_ ?_ derived ?_ formed⟩
      · rw [Stmt.erase, Stmt.erase, sameWord, sameCondition, sameTree]
      · rw [Token.kind_of_erase sameWord, word]
      · rw [Token.kind_of_erase sameOpen, opened]
      · rw [Token.kind_of_erase sameClose, closed]
  | ifElse word opened test closed first divided second ihFirst ihSecond =>
      simp only [List.map_cons, List.map_append] at same
      obtain ⟨keyword, rest, rfl, sameWord, same⟩ := List.map_eq_cons_iff.mp same
      obtain ⟨openParen, rest, rfl, sameOpen, same⟩ := List.map_eq_cons_iff.mp same
      obtain ⟨asked, rest, rfl, sameAsked, same⟩ := List.map_eq_append_iff.mp same
      obtain ⟨closeParen, rest, rfl, sameClose, same⟩ := List.map_eq_cons_iff.mp same
      obtain ⟨then_, rest, rfl, sameThen, same⟩ := List.map_eq_append_iff.mp same
      obtain ⟨elseWord, rest, rfl, sameElse, same⟩ := List.map_eq_cons_iff.mp same
      obtain ⟨condition, sameCondition, derived⟩ := rederives_of_derives test sameAsked
      obtain ⟨consequent, sameConsequent, formedFirst⟩ := ihFirst sameThen
      obtain ⟨alternative, sameAlternative, formedSecond⟩ := ihSecond same
      refine ⟨.ifElse keyword condition consequent alternative, ?_,
        .ifElse ?_ ?_ derived ?_ formedFirst ?_ formedSecond⟩
      · rw [Stmt.erase, Stmt.erase, sameWord, sameCondition, sameConsequent, sameAlternative]
      · rw [Token.kind_of_erase sameWord, word]
      · rw [Token.kind_of_erase sameOpen, opened]
      · rw [Token.kind_of_erase sameClose, closed]
      · rw [Token.kind_of_erase sameElse, divided]
  | whileLoop word opened test closed inner ih =>
      simp only [List.map_cons, List.map_append] at same
      obtain ⟨keyword, rest, rfl, sameWord, same⟩ := List.map_eq_cons_iff.mp same
      obtain ⟨openParen, rest, rfl, sameOpen, same⟩ := List.map_eq_cons_iff.mp same
      obtain ⟨asked, rest, rfl, sameAsked, same⟩ := List.map_eq_append_iff.mp same
      obtain ⟨closeParen, rest, rfl, sameClose, same⟩ := List.map_eq_cons_iff.mp same
      obtain ⟨condition, sameCondition, derived⟩ := rederives_of_derives test sameAsked
      obtain ⟨again, sameTree, formed⟩ := ih same
      refine ⟨.loop keyword condition again, ?_, .whileLoop ?_ ?_ derived ?_ formed⟩
      · rw [Stmt.erase, Stmt.erase, sameCondition, sameTree]
      · rw [Token.kind_of_erase sameWord, word]
      · rw [Token.kind_of_erase sameOpen, opened]
      · rw [Token.kind_of_erase sameClose, closed]
  | forLoop word opened start test divided step closed inner ih =>
      simp only [List.map_cons, List.map_append] at same
      obtain ⟨keyword, rest, rfl, sameWord, same⟩ := List.map_eq_cons_iff.mp same
      obtain ⟨openParen, rest, rfl, sameOpen, same⟩ := List.map_eq_cons_iff.mp same
      obtain ⟨begun, rest, rfl, sameBegun, same⟩ := List.map_eq_append_iff.mp same
      obtain ⟨asked, rest, rfl, sameAsked, same⟩ := List.map_eq_append_iff.mp same
      obtain ⟨semicolon, rest, rfl, sameDivider, same⟩ := List.map_eq_cons_iff.mp same
      obtain ⟨advanced, rest, rfl, sameAdvanced, same⟩ := List.map_eq_append_iff.mp same
      obtain ⟨closeParen, rest, rfl, sameClose, same⟩ := List.map_eq_cons_iff.mp same
      obtain ⟨initial, sameInitial, startToo⟩ := initial_of_erase start sameBegun
      obtain ⟨condition, sameCondition, testToo⟩ := optional_of_erase test sameAsked
      obtain ⟨increment, sameIncrement, stepToo⟩ := optional_of_erase step sameAdvanced
      obtain ⟨again, sameTree, formed⟩ := ih same
      refine ⟨whileForm keyword initial condition increment again,
        while_form_erase sameInitial sameCondition sameIncrement sameTree,
        .forLoop ?_ ?_ startToo testToo ?_ stepToo ?_ formed⟩
      · rw [Token.kind_of_erase sameWord, word]
      · rw [Token.kind_of_erase sameOpen, opened]
      · rw [Token.kind_of_erase sameDivider, divided]
      · rw [Token.kind_of_erase sameClose, closed]
  | declared whole =>
      obtain ⟨again, sameTree, declared⟩ := variable_declaration_of_erase whole same
      exact ⟨again, sameTree, .declared declared⟩
  | statement whole ih =>
      obtain ⟨again, sameTree, formed⟩ := ih same
      exact ⟨again, sameTree, .statement formed⟩
  | none =>
      rw [List.map_eq_nil_iff.mp same]
      exact ⟨[], rfl, .none⟩
  | more first others ihFirst ihOthers =>
      rw [List.map_append] at same
      obtain ⟨before, behind, rfl, sameFirst, sameOthers⟩ := List.map_eq_append_iff.mp same
      obtain ⟨again, sameTree, formedFirst⟩ := ihFirst sameFirst
      obtain ⟨more, sameTrees, formedOthers⟩ := ihOthers sameOthers
      refine ⟨again :: more, ?_, .more formedFirst formedOthers⟩
      rw [Stmt.eraseAll, Stmt.eraseAll, sameTree, sameTrees]

theorem redeclaring_of_forms {trees : List Stmt} {tokens : List Token}
    (formed : Forms (.declarations trees) tokens) :
    Redeclaring trees (tokens.map Token.erase) :=
  fun _ same => reforms_of_forms formed same

theorem erase_all_append (trees more : List Stmt) :
    Stmt.eraseAll (trees ++ more) = Stmt.eraseAll trees ++ Stmt.eraseAll more := by
  induction trees with
  | nil => rfl
  | cons tree trees ih => simp only [List.cons_append, Stmt.eraseAll, ih]

theorem forms_append {trees more : List Stmt} {before behind : List Token}
    (first : Forms (.declarations trees) before) (second : Forms (.declarations more) behind) :
    Forms (.declarations (trees ++ more)) (before ++ behind) := by
  induction trees generalizing before with
  | nil =>
      cases first with
      | none => exact second
  | cons tree trees ih =>
      cases first with
      | more head others =>
          rw [List.append_assoc]
          exact .more head (ih others)

theorem redeclaring_append {trees more : List Stmt} {before behind : List Token}
    (first : Redeclaring trees before) (second : Redeclaring more behind) :
    Redeclaring (trees ++ more) (before ++ behind) := by
  intro found same
  obtain ⟨foundFirst, foundSecond, rfl, sameFirst, sameSecond⟩ := List.map_eq_append_iff.mp same
  obtain ⟨again, sameTrees, formed⟩ := first foundFirst sameFirst
  obtain ⟨others, sameOthers, formedOthers⟩ := second foundSecond sameSecond
  refine ⟨again ++ others, ?_, forms_append formed formedOthers⟩
  rw [erase_all_append, erase_all_append, sameTrees, sameOthers]

end Treewalk
