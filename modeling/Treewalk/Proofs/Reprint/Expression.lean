import Treewalk.Program.Printer
import Treewalk.Proofs.Number.Plain
import Treewalk.Proofs.Program.Erase
import Treewalk.Proofs.Program.Grammar
import Treewalk.Proofs.Reprint.Writes

/-!
# The printed form of an expression

The text of a derived expression spells tokens from which the same tree is derived, up to places.
The printer adds no parentheses, so the argument goes along the derivation: where the derivation
puts two phrases side by side, the printer puts a blank or a sign between them that ends the tokens
of the first. A negation is the one sign without a blank behind it; its operand starts with no
equals sign.
-/

namespace Treewalk

set_option autoImplicit false

open Grammar

def Grammar.Phrase.text : Phrase → List Char
  | .expression tree => tree.source.toList
  | .operation _ tree => tree.source.toList
  | .unary tree => tree.source.toList
  | .call tree => tree.source.toList
  | .primary tree => tree.source.toList
  | .arguments trees => (Expr.argumentSource trees).toList

def Rederives : Phrase → List Token → Prop
  | .expression tree, found => ∃ again, again.erase = tree.erase ∧ Derives (.expression again) found
  | .operation tier tree, found =>
      ∃ again, again.erase = tree.erase ∧ Derives (.operation tier again) found
  | .unary tree, found => ∃ again, again.erase = tree.erase ∧ Derives (.unary again) found
  | .call tree, found => ∃ again, again.erase = tree.erase ∧ Derives (.call again) found
  | .primary tree, found => ∃ again, again.erase = tree.erase ∧ Derives (.primary again) found
  | .arguments trees, found =>
      ∃ again, Expr.eraseAll again = Expr.eraseAll trees ∧ Derives (.arguments again) found

/-- The text of a phrase spells tokens from which the phrase is derived again, and it does not start
with an equals sign. -/
structure ReprintsTo (phrase : Phrase) (tokens : List Token) : Prop where
  writes : Writes phrase.text tokens
  starts : Unequal phrase.text
  rederives : ∀ found : List Token, found.map Token.erase = tokens → Rederives phrase found

def Grammar.Phrase.Reprints (phrase : Phrase) : Prop :=
  ∃ tokens, ReprintsTo phrase tokens

theorem Grammar.Phrase.Reprints.covered {part whole : Phrase} (reprints : part.Reprints)
    (text : part.text = whole.text)
    (rederives : ∀ found, Rederives part found → Rederives whole found) : whole.Reprints := by
  obtain ⟨tokens, writes, starts, again⟩ := reprints
  rw [text] at writes starts
  exact ⟨tokens, writes, starts, fun found same => rederives found (again found same)⟩

theorem reprints_assign {name : Token} {value : Expr} (printable : name.Printable)
    (target : name.kind = .identifier) (assigned : (Phrase.expression value).Reprints) :
    (Phrase.expression (.assign name value)).Reprints := by
  obtain ⟨tokens, writes, -, rederives⟩ := assigned
  obtain ⟨writesName, starts⟩ := writes_name printable target
  have text : (Phrase.expression (.assign name value)).text =
      name.lexeme.toList ++ ' ' :: (['='] ++ ' ' :: value.source.toList) := by
    simp [Phrase.text, Expr.source]
  refine ⟨[name.erase] ++ ([Token.unplaced .equal ['='] none] ++ tokens), ?_, ?_, ?_⟩
  · rw [text]
    exact writesName.spaced ((writes_fixed (show Kind.equal ∈ _ by decide)).spaced writes)
  · rw [text]
    exact starts.append _
  · intro found same
    obtain ⟨again, rest, rfl, sameName, same⟩ := List.map_eq_cons_iff.mp same
    obtain ⟨equals, rest, rfl, sameSign, same⟩ := List.map_eq_cons_iff.mp same
    obtain ⟨tree, sameValue, derived⟩ := rederives rest same
    refine ⟨.assign again tree, ?_, .assign ?_ ?_ derived⟩
    · rw [Expr.erase, Expr.erase, sameName, sameValue]
    · rw [Token.kind_of_erase sameName, target]
    · exact congrArg Token.kind sameSign

theorem rederives_operand {tier : Tier} {tree : Expr} {found : List Token} :
    Rederives (tier.operand tree) found ↔
      ∃ again, again.erase = tree.erase ∧ Derives (tier.operand again) found := by
  cases tier <;> rfl

theorem operand_text (tier : Tier) (tree : Expr) :
    (tier.operand tree).text = tree.source.toList := by
  cases tier <;> rfl

theorem reprints_operand {tier : Tier} {tree : Expr} (whole : (tier.operand tree).Reprints) :
    (Phrase.operation tier tree).Reprints := by
  refine whole.covered (operand_text tier tree) ?_
  intro found rederived
  obtain ⟨again, sameTree, derived⟩ := rederives_operand.mp rederived
  exact ⟨again, sameTree, .operand derived⟩

theorem node_source (tier : Tier) (left right : Expr) (operator : Token) :
    (tier.node left operator right).source =
      left.source ++ " " ++ operator.lexeme ++ " " ++ right.source := by
  cases tier <;> rfl

theorem node_erase (tier : Tier) (left right : Expr) (operator : Token) :
    (tier.node left operator right).erase =
      tier.node left.erase operator.erase right.erase := by
  cases tier <;> rfl

theorem reprints_operator {tier : Tier} {left right : Expr} {operator : Token}
    (printable : operator.Printable) (first : (Phrase.operation tier left).Reprints)
    (sign : operator.kind ∈ tier.operators) (second : (tier.operand right).Reprints) :
    (Phrase.operation tier (tier.node left operator right)).Reprints := by
  obtain ⟨before, writesFirst, startsFirst, rederivesFirst⟩ := first
  obtain ⟨behind, writesSecond, -, rederivesSecond⟩ := second
  rw [operand_text] at writesSecond
  have fixed : operator.kind ∈ fixedKinds := by
    revert sign
    generalize operator.kind = kind
    revert kind
    cases tier <;> decide
  have text : (Phrase.operation tier (tier.node left operator right)).text =
      left.source.toList ++ ' ' :: (operator.lexeme.toList ++ ' ' :: right.source.toList) := by
    simp [Phrase.text, node_source]
  refine ⟨before ++ ([operator.erase] ++ behind), ?_, ?_, ?_⟩
  · rw [text]
    exact writesFirst.spaced ((writes_token printable fixed).spaced writesSecond)
  · rw [text]
    exact startsFirst.append _
  · intro found same
    obtain ⟨foundFirst, rest, rfl, sameFirst, same⟩ := List.map_eq_append_iff.mp same
    obtain ⟨again, foundSecond, rfl, sameSign, sameSecond⟩ := List.map_eq_cons_iff.mp same
    obtain ⟨treeFirst, sameLeft, derivedFirst⟩ := rederivesFirst foundFirst sameFirst
    obtain ⟨treeSecond, sameRight, derivedSecond⟩ :=
      rederives_operand.mp (rederivesSecond foundSecond sameSecond)
    refine ⟨tier.node treeFirst again treeSecond, ?_, .operator derivedFirst ?_ derivedSecond⟩
    · rw [node_erase, node_erase, sameLeft, sameSign, sameRight]
    · rw [Token.kind_of_erase sameSign]
      exact sign

theorem reprints_negation {operator : Token} {operand : Expr} (printable : operator.Printable)
    (sign : operator.kind = .bang ∨ operator.kind = .minus)
    (negated : (Phrase.unary operand).Reprints) :
    (Phrase.unary (.unary operator operand)).Reprints := by
  obtain ⟨tokens, writes, starts, rederives⟩ := negated
  have fixed : operator.kind ∈ fixedKinds := by
    rcases sign with sign | sign <;> rw [sign] <;> decide
  obtain ⟨same, lexeme⟩ := printable.erase_eq fixed
  have text : (Phrase.unary (.unary operator operand)).text =
      operator.kind.spelling.toList ++ operand.source.toList := by
    simp [Phrase.text, Expr.source, lexeme]
  refine ⟨operator.erase :: tokens, ?_, ?_, ?_⟩
  · rw [text, same]
    intro rest stops
    have signed : spelled (operator.kind.spelling.toList ++ (operand.source.toList ++ rest)) =
        .ok (Token.unplaced operator.kind operator.kind.spelling.toList none) ::
          spelled (operand.source.toList ++ rest) := by
      rcases sign with sign | sign
      · apply spelled_open (by rw [sign]; decide)
        obtain ⟨first, more, spelling, unequal⟩ := starts.append rest
        have spelling : operand.source.toList ++ rest = first :: more := spelling
        rw [spelling]
        rintro char found rfl
        cases found
        exact unequal rfl
      · exact spelled_closed (by rw [sign]; decide) _
    have operandWritten : spelled (operand.source.toList ++ rest) =
        tokens.map .ok ++ spelled rest := writes rest stops
    rw [List.append_assoc, signed, operandWritten]
    rfl
  · rw [text]
    rcases sign with sign | sign
    · rw [sign]
      exact ⟨'!', _, rfl, by decide⟩
    · rw [sign]
      exact ⟨'-', _, rfl, by decide⟩
  · intro found same
    obtain ⟨again, rest, rfl, sameSign, same⟩ := List.map_eq_cons_iff.mp same
    obtain ⟨tree, sameOperand, derived⟩ := rederives rest same
    refine ⟨.unary again tree, ?_, .negation ?_ derived⟩
    · rw [Expr.erase, Expr.erase, sameSign, sameOperand]
    · rw [Token.kind_of_erase sameSign]
      exact sign

theorem reprints_called {tree : Expr} (whole : (Phrase.call tree).Reprints) :
    (Phrase.unary tree).Reprints := by
  refine whole.covered rfl ?_
  rintro found ⟨again, sameTree, derived⟩
  exact ⟨again, sameTree, .called derived⟩

theorem reprints_callee {tree : Expr} (whole : (Phrase.primary tree).Reprints) :
    (Phrase.call tree).Reprints := by
  refine whole.covered rfl ?_
  rintro found ⟨again, sameTree, derived⟩
  exact ⟨again, sameTree, .callee derived⟩

theorem reprints_plain {tree : Expr} (whole : (Phrase.operation .disjunction tree).Reprints) :
    (Phrase.expression tree).Reprints := by
  refine whole.covered rfl ?_
  rintro found ⟨again, sameTree, derived⟩
  exact ⟨again, sameTree, .plain derived⟩

theorem reprints_last_argument {tree : Expr} (whole : (Phrase.expression tree).Reprints) :
    (Phrase.arguments [tree]).Reprints := by
  refine whole.covered rfl ?_
  rintro found ⟨again, sameTree, derived⟩
  refine ⟨[again], ?_, .lastArgument derived⟩
  rw [Expr.eraseAll, Expr.eraseAll, sameTree]
  rfl

theorem reprints_argument {tree : Expr} {trees : List Expr} (nonempty : trees ≠ [])
    (whole : (Phrase.expression tree).Reprints) (others : (Phrase.arguments trees).Reprints) :
    (Phrase.arguments (tree :: trees)).Reprints := by
  obtain ⟨before, writesFirst, starts, rederivesFirst⟩ := whole
  obtain ⟨behind, writesOthers, -, rederivesOthers⟩ := others
  have text : (Phrase.arguments (tree :: trees)).text =
      tree.source.toList ++ ([','] ++ ' ' :: (Expr.argumentSource trees).toList) := by
    cases trees with
    | nil => exact absurd rfl nonempty
    | cons second trees => simp [Phrase.text, Expr.argumentSource]
  refine ⟨before ++ ([Token.unplaced .comma [','] none] ++ behind), ?_, ?_, ?_⟩
  · rw [text]
    have comma := writes_fixed (show Kind.comma ∈ fixedKinds by decide)
    exact writesFirst.append (fun _ => stops_cons (by decide)) (comma.spaced writesOthers)
  · rw [text]
    exact starts.append _
  · intro found same
    obtain ⟨foundFirst, rest, rfl, sameFirst, same⟩ := List.map_eq_append_iff.mp same
    obtain ⟨comma, foundOthers, rfl, sameComma, sameOthers⟩ := List.map_eq_cons_iff.mp same
    obtain ⟨again, sameTree, derivedFirst⟩ := rederivesFirst foundFirst sameFirst
    obtain ⟨others, sameTrees, derivedOthers⟩ := rederivesOthers foundOthers sameOthers
    refine ⟨again :: others, ?_, .argument derivedFirst ?_ derivedOthers⟩
    · rw [Expr.eraseAll, Expr.eraseAll, sameTree, sameTrees]
    · exact congrArg Token.kind sameComma

theorem reprints_empty_call {callee : Expr} {closeParen : Token} (printable : closeParen.Printable)
    (closed : closeParen.kind = .rightParen) (function : (Phrase.call callee).Reprints) :
    (Phrase.call (.call callee closeParen [])).Reprints := by
  obtain ⟨tokens, writes, starts, rederives⟩ := function
  have erased : closeParen.erase = Token.unplaced .rightParen [')'] none :=
    printable.erase_of_kind closed (by decide)
  have text : (Phrase.call (.call callee closeParen [])).text =
      callee.source.toList ++ '(' :: ([] ++ [')']) := by
    simp [Phrase.text, Expr.source, Expr.argumentSource]
  refine ⟨tokens ++ Token.unplaced .leftParen ['('] none ::
    ([] ++ [Token.unplaced .rightParen [')'] none]), ?_, ?_, ?_⟩
  · rw [text]
    exact writes.append (fun _ => stops_cons (by decide)) Writes.nil.parenthesized
  · rw [text]
    exact starts.append _
  · intro found same
    obtain ⟨before, rest, rfl, sameCallee, same⟩ := List.map_eq_append_iff.mp same
    obtain ⟨opening, rest, rfl, sameOpen, same⟩ := List.map_eq_cons_iff.mp same
    obtain ⟨closing, rfl, sameClose⟩ := map_erase_singleton same
    obtain ⟨again, sameTree, derived⟩ := rederives before sameCallee
    refine ⟨.call again closing [], ?_, .emptyCall derived ?_ ?_⟩
    · rw [Expr.erase, Expr.erase, sameTree, sameClose, erased]
    · exact congrArg Token.kind sameOpen
    · exact congrArg Token.kind sameClose

theorem reprints_full_call {callee : Expr} {arguments : List Expr} {closeParen : Token}
    (printable : closeParen.Printable) (closed : closeParen.kind = .rightParen)
    (function : (Phrase.call callee).Reprints) (passed : (Phrase.arguments arguments).Reprints) :
    (Phrase.call (.call callee closeParen arguments)).Reprints := by
  obtain ⟨tokens, writes, starts, rederives⟩ := function
  obtain ⟨inside, writesInside, -, rederivesInside⟩ := passed
  have erased : closeParen.erase = Token.unplaced .rightParen [')'] none :=
    printable.erase_of_kind closed (by decide)
  have text : (Phrase.call (.call callee closeParen arguments)).text =
      callee.source.toList ++ '(' :: ((Expr.argumentSource arguments).toList ++ [')']) := by
    simp [Phrase.text, Expr.source]
  refine ⟨tokens ++ Token.unplaced .leftParen ['('] none ::
    (inside ++ [Token.unplaced .rightParen [')'] none]), ?_, ?_, ?_⟩
  · rw [text]
    exact writes.append (fun _ => stops_cons (by decide)) writesInside.parenthesized
  · rw [text]
    exact starts.append _
  · intro found same
    obtain ⟨before, rest, rfl, sameCallee, same⟩ := List.map_eq_append_iff.mp same
    obtain ⟨opening, rest, rfl, sameOpen, same⟩ := List.map_eq_cons_iff.mp same
    obtain ⟨passed, rest, rfl, samePassed, same⟩ := List.map_eq_append_iff.mp same
    obtain ⟨closing, rfl, sameClose⟩ := map_erase_singleton same
    obtain ⟨again, sameTree, derived⟩ := rederives before sameCallee
    obtain ⟨trees, sameTrees, derivedPassed⟩ := rederivesInside passed samePassed
    refine ⟨.call again closing trees, ?_, .fullCall derived ?_ derivedPassed ?_⟩
    · rw [Expr.erase, Expr.erase, sameTree, sameTrees, sameClose, erased]
    · exact congrArg Token.kind sameOpen
    · exact congrArg Token.kind sameClose

theorem reprints_reference {name : Token} (printable : name.Printable)
    (word : name.kind = .identifier) : (Phrase.primary (.reference name)).Reprints := by
  obtain ⟨writes, starts⟩ := writes_name printable word
  refine ⟨[name.erase], writes, starts, ?_⟩
  intro found same
  obtain ⟨again, rfl, sameName⟩ := map_erase_singleton same
  refine ⟨.reference again, ?_, .reference ?_⟩
  · rw [Expr.erase, Expr.erase, sameName]
  · rw [Token.kind_of_erase sameName, word]

theorem reprints_grouping {inner : Expr} (enclosed : (Phrase.expression inner).Reprints)
    (place : Span) : (Phrase.primary (.grouping inner place)).Reprints := by
  obtain ⟨tokens, writes, -, rederives⟩ := enclosed
  have text : (Phrase.primary (.grouping inner place)).text =
      '(' :: (inner.source.toList ++ [')']) := by
    simp [Phrase.text, Expr.source]
  refine ⟨Token.unplaced .leftParen ['('] none ::
    (tokens ++ [Token.unplaced .rightParen [')'] none]), ?_, ?_, ?_⟩
  · rw [text]
    exact writes.parenthesized
  · rw [text]
    exact ⟨'(', _, rfl, by decide⟩
  · intro found same
    obtain ⟨opening, rest, rfl, sameOpen, same⟩ := List.map_eq_cons_iff.mp same
    obtain ⟨inside, rest, rfl, sameInside, same⟩ := List.map_eq_append_iff.mp same
    obtain ⟨closing, rfl, sameClose⟩ := map_erase_singleton same
    obtain ⟨again, sameTree, derived⟩ := rederives inside sameInside
    refine ⟨.grouping again (opening.span.hull closing.span), ?_, .grouping ?_ derived ?_⟩
    · rw [Expr.erase, Expr.erase, sameTree]
    · exact congrArg Token.kind sameOpen
    · exact congrArg Token.kind sameClose

theorem reprints_literal {value : Literal} (token : Token)
    (writes : Writes value.source.toList [token]) (starts : Unequal value.source.toList)
    (denoted : ∀ found : Token, found.erase = token → Constant found value) (line : Nat)
    (place : Span) : (Phrase.primary (.literal value line place)).Reprints := by
  refine ⟨[token], writes, starts, ?_⟩
  intro found same
  obtain ⟨again, rfl, sameToken⟩ := map_erase_singleton same
  exact ⟨.literal value again.line again.span, rfl, .constant (denoted again sameToken)⟩

theorem reprints_keyword {kind : Kind} {value : Literal} (reserved : kind ∈ Kind.keywords)
    (spelling : value.source = kind.spelling)
    (denoted : ∀ found : Token, found.kind = kind → Constant found value) (line : Nat)
    (place : Span) : (Phrase.primary (.literal value line place)).Reprints := by
  apply reprints_literal (Token.unplaced kind kind.spelling.toList none)
  · rw [spelling]
    exact writes_fixed (List.mem_append_right _ reserved)
  · obtain ⟨first, body, letters, starts, -⟩ := keyword_spelling reserved
    rw [spelling, letters]
    refine ⟨first, body, rfl, ?_⟩
    rintro rfl
    cases starts
  · exact fun found same => denoted found (congrArg Token.kind same)

theorem reprints_string {body : List Char} (inside : '"' ∉ body) (line : Nat) (place : Span) :
    (Phrase.primary (.literal (.string (String.ofList body)) line place)).Reprints := by
  have text : (Literal.string (String.ofList body)).source.toList = '"' :: (body ++ ['"']) := by
    simp [Literal.source]
  apply reprints_literal (Token.unplaced .string ('"' :: body ++ ['"'])
    (some (.string (String.ofList body))))
  · rw [text]
    intro rest stops
    rw [List.cons_append, List.append_assoc]
    exact spelled_string inside rest
  · rw [text]
    exact ⟨'"', _, rfl, by decide⟩
  · exact fun found same => .string (congrArg Token.kind same) (congrArg Token.literal same)

theorem reprints_number {whole fraction : List Char}
    (finite : (Decimal.ofDigits whole fraction).toFloat.isFinite = true) (line : Nat)
    (place : Span) : (Phrase.primary
      (.literal (.number (Decimal.ofDigits whole fraction).toFloat) line place)).Reprints := by
  obtain ⟨first, more, behind, text, starts, inside, insideBehind, reads⟩ :=
    plain_reads_back finite
  have text : (Literal.number (Decimal.ofDigits whole fraction).toFloat).source.toList =
      first :: (more ++ (if behind.isEmpty then [] else '.' :: behind)) := text
  apply reprints_literal (Token.unplaced .number
    (first :: more ++ (if behind.isEmpty then [] else '.' :: behind))
    (some (.number (Decimal.ofDigits whole fraction).toFloat)))
  · rw [text]
    intro rest stops
    rw [List.cons_append, List.append_assoc, spelled_number starts inside insideBehind stops, reads]
    rfl
  · rw [text]
    refine ⟨first, _, rfl, ?_⟩
    rintro rfl
    cases starts
  · exact fun found same => .number (congrArg Token.kind same) (congrArg Token.literal same)

/-- The constants that tokens of a text denote are printed as they are read. -/
theorem reprints_constant {token : Token} {value : Literal} (printable : token.Printable)
    (denoted : Constant token value) (line : Nat) (place : Span) :
    (Phrase.primary (.literal value line place)).Reprints := by
  cases denoted with
  | trueWord => exact reprints_keyword (by decide) rfl (fun _ => .trueWord) line place
  | falseWord => exact reprints_keyword (by decide) rfl (fun _ => .falseWord) line place
  | nilWord => exact reprints_keyword (by decide) rfl (fun _ => .nilWord) line place
  | number digits read =>
      cases printable.proper with
      | number kind literal =>
          have finite := printable.finite
          rw [literal] at read finite
          cases read
          exact reprints_number finite line place
      | identifier kind => rw [kind] at digits; cases digits
      | string kind => rw [kind] at digits; cases digits
      | fixed kind => rw [digits] at kind; exact absurd kind (by decide)
  | string quoted read =>
      cases printable.proper with
      | string kind inside literal =>
          rw [literal] at read
          cases read
          exact reprints_string inside line place
      | identifier kind => rw [kind] at quoted; cases quoted
      | number kind => rw [kind] at quoted; cases quoted
      | fixed kind => rw [quoted] at kind; exact absurd kind (by decide)

theorem arguments_nonempty {trees : List Expr} {tokens : List Token}
    (derived : Derives (.arguments trees) tokens) : trees ≠ [] := by
  cases derived <;> exact List.cons_ne_nil _ _

/-- A phrase derived from the tokens of a text is derived again from its printed form. -/
theorem reprints_of_derives {phrase : Phrase} {tokens : List Token}
    (derived : Derives phrase tokens) (printable : ∀ token ∈ tokens, token.Printable) :
    phrase.Reprints := by
  induction derived with
  | assign target sign _ ih =>
      rw [List.forall_mem_cons, List.forall_mem_cons] at printable
      exact reprints_assign printable.1 target (ih printable.2.2)
  | plain _ ih => exact reprints_plain (ih printable)
  | operand _ ih => exact reprints_operand (ih printable)
  | operator _ sign _ ihFirst ihSecond =>
      rw [List.forall_mem_append, List.forall_mem_cons] at printable
      exact reprints_operator printable.2.1 (ihFirst printable.1) sign (ihSecond printable.2.2)
  | negation sign _ ih =>
      rw [List.forall_mem_cons] at printable
      exact reprints_negation printable.1 sign (ih printable.2)
  | called _ ih => exact reprints_called (ih printable)
  | callee _ ih => exact reprints_callee (ih printable)
  | emptyCall _ opened closed ih =>
      rw [List.forall_mem_append, List.forall_mem_cons, List.forall_mem_singleton] at printable
      exact reprints_empty_call printable.2.2 closed (ih printable.1)
  | fullCall _ opened _ closed ihCallee ihPassed =>
      rw [List.forall_mem_append, List.forall_mem_cons, List.forall_mem_append,
        List.forall_mem_singleton] at printable
      exact reprints_full_call printable.2.2.2 closed (ihCallee printable.1)
        (ihPassed printable.2.2.1)
  | lastArgument _ ih => exact reprints_last_argument (ih printable)
  | argument _ sign others ihFirst ihOthers =>
      rw [List.forall_mem_append, List.forall_mem_cons] at printable
      exact reprints_argument (arguments_nonempty others) (ihFirst printable.1)
        (ihOthers printable.2.2)
  | constant denoted => exact reprints_constant (printable _ List.mem_cons_self) denoted _ _
  | reference word => exact reprints_reference (printable _ List.mem_cons_self) word
  | grouping opened _ closed ih =>
      rw [List.forall_mem_cons, List.forall_mem_append] at printable
      exact reprints_grouping (ih printable.2.1) _

end Treewalk
