import Treewalk.Proofs.Reprint.Expression

/-!
# The printed form of a statement

The text of a derived statement spells tokens from which the same tree is derived, up to places. A
statement that is not waiting for an `else` is printed as one that is not: so the printed `else`
finds the same conditional again, and the braces that the printer has in store for it are never
needed. A `for` is printed in the form that it stands for.
-/

namespace Treewalk

set_option autoImplicit false

open Grammar

/-- The text spells a statement with the same tree, which waits for no `else` if the tree comes from
a statement that did not. -/
def Stmt.Restates (waiting : Bool) (tree : Stmt) : Prop :=
  ∃ tokens, Writes tree.source.toList tokens ∧
    ∀ found : List Token, found.map Token.erase = tokens → ∃ again settled,
      again.erase = tree.erase ∧ Forms (.statement settled again) found ∧
      (waiting = false → settled = false)

def Stmt.Redeclares (tree : Stmt) : Prop :=
  ∃ tokens, Writes tree.source.toList tokens ∧
    ∀ found : List Token, found.map Token.erase = tokens → ∃ again,
      again.erase = tree.erase ∧ Forms (.declaration again) found

namespace Stmt

theorem Restates.redeclares {waiting : Bool} {tree : Stmt} (restates : tree.Restates waiting) :
    tree.Redeclares := by
  obtain ⟨tokens, writes, reforms⟩ := restates
  refine ⟨tokens, writes, ?_⟩
  intro found same
  obtain ⟨again, settled, sameTree, formed, -⟩ := reforms found same
  exact ⟨again, sameTree, .statement formed⟩

theorem Restates.weaken {tree : Stmt} (restates : tree.Restates false) (waiting : Bool) :
    tree.Restates waiting := by
  obtain ⟨tokens, writes, reforms⟩ := restates
  refine ⟨tokens, writes, ?_⟩
  intro found same
  obtain ⟨again, settled, sameTree, formed, quiet⟩ := reforms found same
  exact ⟨again, settled, sameTree, formed, fun _ => quiet rfl⟩

end Stmt

theorem writes_keyword {keyword : Token} {kind : Kind} (printable : keyword.Printable)
    (word : keyword.kind = kind) (fixed : kind ∈ fixedKinds) :
    Writes kind.spelling.toList [keyword.erase] := by
  rw [printable.erase_of_kind word fixed]
  exact writes_fixed fixed

theorem restates_expression {value : Expr} (whole : (Phrase.expression value).Reprints) :
    (Stmt.expression value).Restates false := by
  obtain ⟨tokens, writes, -, rederives⟩ := whole
  have text : (Stmt.expression value).source.toList = value.source.toList ++ [';'] := by
    simp [Stmt.source]
  refine ⟨tokens ++ [Token.unplaced .semicolon [';'] none], ?_, ?_⟩
  · rw [text]
    exact writes.ended
  · intro found same
    obtain ⟨inside, rest, rfl, sameInside, same⟩ := List.map_eq_append_iff.mp same
    obtain ⟨semicolon, rfl, sameSign⟩ := map_erase_singleton same
    obtain ⟨again, sameTree, derived⟩ := rederives inside sameInside
    refine ⟨.expression again, false, ?_, .expression (.intro derived ?_), fun _ => rfl⟩
    · rw [Stmt.erase, Stmt.erase, sameTree]
    · exact congrArg Token.kind sameSign

theorem found_command {keyword : Token} {tokens found : List Token}
    (same : found.map Token.erase =
      keyword.erase :: (tokens ++ [Token.unplaced .semicolon [';'] none])) :
    ∃ first inside last, found = first :: (inside ++ [last]) ∧ first.erase = keyword.erase ∧
      inside.map Token.erase = tokens ∧ last.kind = .semicolon := by
  obtain ⟨first, rest, rfl, sameWord, same⟩ := List.map_eq_cons_iff.mp same
  obtain ⟨inside, rest, rfl, sameInside, same⟩ := List.map_eq_append_iff.mp same
  obtain ⟨last, rfl, sameSign⟩ := map_erase_singleton same
  exact ⟨first, inside, last, rfl, sameWord, sameInside, congrArg Token.kind sameSign⟩

theorem restates_print {keyword : Token} {value : Expr} (printable : keyword.Printable)
    (word : keyword.kind = .printWord) (shown : (Phrase.expression value).Reprints) :
    (Stmt.print keyword value).Restates false := by
  obtain ⟨tokens, writes, -, rederives⟩ := shown
  have text : (Stmt.print keyword value).source.toList =
      Kind.printWord.spelling.toList ++ ' ' :: (value.source.toList ++ [';']) := by
    simp only [Stmt.source, String.toList_append, List.append_assoc]
    rfl
  refine ⟨keyword.erase :: (tokens ++ [Token.unplaced .semicolon [';'] none]), ?_, ?_⟩
  · rw [text]
    exact (writes_keyword printable word (by decide)).spaced writes.ended
  · intro found same
    obtain ⟨first, inside, last, rfl, sameWord, sameInside, ended⟩ := found_command same
    obtain ⟨again, sameTree, derived⟩ := rederives inside sameInside
    have word : first.kind = .printWord := (Token.kind_of_erase sameWord).trans word
    refine ⟨.print first again, false, ?_, .print word derived ended, fun _ => rfl⟩
    rw [Stmt.erase, Stmt.erase, sameWord, sameTree]

theorem restates_return {keyword : Token} {value : Expr} (printable : keyword.Printable)
    (word : keyword.kind = .returnWord) (result : (Phrase.expression value).Reprints) :
    (Stmt.returnValue keyword (some value)).Restates false := by
  obtain ⟨tokens, writes, -, rederives⟩ := result
  have text : (Stmt.returnValue keyword (some value)).source.toList =
      Kind.returnWord.spelling.toList ++ ' ' :: (value.source.toList ++ [';']) := by
    simp only [Stmt.source, String.toList_append, List.append_assoc]
    rfl
  refine ⟨keyword.erase :: (tokens ++ [Token.unplaced .semicolon [';'] none]), ?_, ?_⟩
  · rw [text]
    exact (writes_keyword printable word (by decide)).spaced writes.ended
  · intro found same
    obtain ⟨first, inside, last, rfl, sameWord, sameInside, ended⟩ := found_command same
    obtain ⟨again, sameTree, derived⟩ := rederives inside sameInside
    have word : first.kind = .returnWord := (Token.kind_of_erase sameWord).trans word
    refine ⟨.returnValue first (some again), false, ?_, .returnValue word (.present derived) ended,
      fun _ => rfl⟩
    rw [Stmt.erase, Stmt.erase, sameWord, Option.map_some, Option.map_some, sameTree]

theorem restates_bare_return {keyword : Token} (printable : keyword.Printable)
    (word : keyword.kind = .returnWord) : (Stmt.returnValue keyword none).Restates false := by
  have text : (Stmt.returnValue keyword none).source.toList =
      Kind.returnWord.spelling.toList ++ [';'] := by
    rw [Stmt.source]
    rfl
  refine ⟨keyword.erase :: ([] ++ [Token.unplaced .semicolon [';'] none]), ?_, ?_⟩
  · rw [text]
    exact (writes_keyword printable word (by decide)).ended
  · intro found same
    obtain ⟨first, inside, last, rfl, sameWord, sameInside, ended⟩ := found_command same
    have word : first.kind = .returnWord := (Token.kind_of_erase sameWord).trans word
    rw [List.map_eq_nil_iff.mp sameInside]
    refine ⟨.returnValue first none, false, ?_, .returnValue word .absent ended, fun _ => rfl⟩
    rw [Stmt.erase, Stmt.erase, sameWord]

theorem restates_break {keyword : Token} (printable : keyword.Printable)
    (word : keyword.kind = .breakWord) : (Stmt.breakLoop keyword).Restates false := by
  have text : (Stmt.breakLoop keyword).source.toList =
      Kind.breakWord.spelling.toList ++ [';'] := by
    rw [Stmt.source]
    rfl
  refine ⟨keyword.erase :: ([] ++ [Token.unplaced .semicolon [';'] none]), ?_, ?_⟩
  · rw [text]
    exact (writes_keyword printable word (by decide)).ended
  · intro found same
    obtain ⟨first, inside, last, rfl, sameWord, sameInside, ended⟩ := found_command same
    have word : first.kind = .breakWord := (Token.kind_of_erase sameWord).trans word
    rw [List.map_eq_nil_iff.mp sameInside]
    refine ⟨.breakLoop first, false, ?_, .breakLoop word ended, fun _ => rfl⟩
    rw [Stmt.erase, Stmt.erase, sameWord]

/-- The word of a conditional or loop, its condition in parentheses, and what depends on it. -/
theorem writes_head {kind : Kind} {keyword : Token} {condition body : List Char}
    {asked rest : List Token} (word : Writes kind.spelling.toList [keyword])
    (writesCondition : Writes condition asked) (writesBody : Writes body rest) :
    Writes (kind.spelling.toList ++ ' ' :: '(' :: (condition ++ ')' :: ' ' :: body))
      (keyword :: Token.unplaced .leftParen ['('] none ::
        (asked ++ Token.unplaced .rightParen [')'] none :: rest)) := by
  have whole := word.spaced (writesCondition.parenthesized.spaced writesBody)
  simpa only [List.cons_append, List.append_assoc, List.nil_append] using whole

theorem found_head {keyword : Token} {asked rest found : List Token}
    (same : found.map Token.erase = keyword :: Token.unplaced .leftParen ['('] none ::
      (asked ++ Token.unplaced .rightParen [')'] none :: rest)) :
    ∃ word opening inside closing behind,
      found = word :: opening :: (inside ++ closing :: behind) ∧ word.erase = keyword ∧
      opening.kind = .leftParen ∧ inside.map Token.erase = asked ∧ closing.kind = .rightParen ∧
      behind.map Token.erase = rest := by
  obtain ⟨word, found, rfl, sameWord, same⟩ := List.map_eq_cons_iff.mp same
  obtain ⟨opening, found, rfl, sameOpen, same⟩ := List.map_eq_cons_iff.mp same
  obtain ⟨inside, found, rfl, sameInside, same⟩ := List.map_eq_append_iff.mp same
  obtain ⟨closing, behind, rfl, sameClose, same⟩ := List.map_eq_cons_iff.mp same
  exact ⟨word, opening, inside, closing, behind, rfl, sameWord, congrArg Token.kind sameOpen,
    sameInside, congrArg Token.kind sameClose, same⟩

theorem restates_if_then {keyword : Token} {condition : Expr} {consequent : Stmt} {waiting : Bool}
    (printable : keyword.Printable) (word : keyword.kind = .ifWord)
    (test : (Phrase.expression condition).Reprints) (first : consequent.Restates waiting) :
    (Stmt.ifThen keyword condition consequent).Restates true := by
  obtain ⟨asked, writesTest, -, rederives⟩ := test
  rw [Phrase.text] at writesTest
  obtain ⟨rest, writesFirst, reforms⟩ := first
  have text : (Stmt.ifThen keyword condition consequent).source.toList =
      Kind.ifWord.spelling.toList ++
        ' ' :: '(' :: (condition.source.toList ++ ')' :: ' ' :: consequent.source.toList) := by
    simp only [Stmt.source, String.toList_append, List.append_assoc]
    rfl
  have writes := writes_head (writes_keyword printable word (by decide)) writesTest writesFirst
  rw [← text] at writes
  refine ⟨_, writes, ?_⟩
  intro found same
  obtain ⟨again, opening, inside, closing, behind, rfl, sameWord, opened, sameInside, closed,
    sameRest⟩ := found_head same
  obtain ⟨tree, sameTree, derived⟩ := rederives inside sameInside
  obtain ⟨body, settled, sameBody, formed, -⟩ := reforms behind sameRest
  have word : again.kind = .ifWord := (Token.kind_of_erase sameWord).trans word
  refine ⟨.ifThen again tree body, true, ?_, .ifThen word opened derived closed formed, id⟩
  rw [Stmt.erase, Stmt.erase, sameWord, sameTree, sameBody]

theorem restates_loop (keyword : Token) {condition : Expr} {body : Stmt} {waiting : Bool}
    (test : (Phrase.expression condition).Reprints) (inner : body.Restates waiting) :
    (Stmt.loop keyword condition body).Restates waiting := by
  obtain ⟨asked, writesTest, -, rederives⟩ := test
  rw [Phrase.text] at writesTest
  obtain ⟨rest, writesBody, reforms⟩ := inner
  have text : (Stmt.loop keyword condition body).source.toList =
      Kind.whileWord.spelling.toList ++
        ' ' :: '(' :: (condition.source.toList ++ ')' :: ' ' :: body.source.toList) := by
    simp only [Stmt.source, String.toList_append, List.append_assoc]
    rfl
  have word := writes_fixed (show Kind.whileWord ∈ fixedKinds by decide)
  have writes := writes_head word writesTest writesBody
  rw [← text] at writes
  refine ⟨_, writes, ?_⟩
  intro found same
  obtain ⟨again, opening, inside, closing, behind, rfl, sameWord, opened, sameInside, closed,
    sameRest⟩ := found_head same
  obtain ⟨tree, sameTree, derived⟩ := rederives inside sameInside
  obtain ⟨repeated, settled, sameBody, formed, quiet⟩ := reforms behind sameRest
  have word : again.kind = .whileWord := congrArg Token.kind sameWord
  refine ⟨.loop again tree repeated, settled, ?_, .whileLoop word opened derived closed formed,
    quiet⟩
  rw [Stmt.erase, Stmt.erase, sameTree, sameBody]

/-- A statement that waits for no `else` is no conditional without alternative. -/
theorem settled_takes_no_else {tree : Stmt} {tokens : List Token}
    (formed : Forms (.statement false tree) tokens) : tree.takesElse = false := by
  cases formed with
  | expression whole => cases whole; rfl
  | print => rfl
  | returnValue => rfl
  | breakLoop => rfl
  | block => rfl
  | function => rfl
  | ifElse => rfl
  | whileLoop => rfl
  | @forLoop _ _ _ _ initial => cases initial <;> rfl

theorem restates_if_else {keyword : Token} {condition : Expr} {consequent alternative : Stmt}
    {waiting : Bool} (printable : keyword.Printable) (word : keyword.kind = .ifWord)
    (test : (Phrase.expression condition).Reprints) (apart : consequent.takesElse = false)
    (first : consequent.Restates false) (second : alternative.Restates waiting) :
    (Stmt.ifElse keyword condition consequent alternative).Restates waiting := by
  obtain ⟨asked, writesTest, -, rederives⟩ := test
  rw [Phrase.text] at writesTest
  obtain ⟨then_, writesFirst, reformsFirst⟩ := first
  obtain ⟨else_, writesSecond, reformsSecond⟩ := second
  have text : (Stmt.ifElse keyword condition consequent alternative).source.toList =
      Kind.ifWord.spelling.toList ++ ' ' :: '(' :: (condition.source.toList ++ ')' :: ' ' ::
        (consequent.source.toList ++
          ' ' :: (Kind.elseWord.spelling.toList ++ ' ' :: alternative.source.toList))) := by
    simp only [Stmt.source, apart, Bool.false_eq_true, if_false, String.toList_append,
      List.append_assoc]
    rfl
  have branches := writesFirst.spaced
    ((writes_fixed (show Kind.elseWord ∈ fixedKinds by decide)).spaced writesSecond)
  have writes := writes_head (writes_keyword printable word (by decide)) writesTest branches
  rw [← text] at writes
  refine ⟨_, writes, ?_⟩
  intro found same
  obtain ⟨again, opening, inside, closing, behind, rfl, sameWord, opened, sameInside, closed,
    sameRest⟩ := found_head same
  obtain ⟨thenFound, rest, rfl, sameFirst, same⟩ := List.map_eq_append_iff.mp sameRest
  obtain ⟨divider, elseFound, rfl, sameDivider, sameSecond⟩ := List.map_eq_cons_iff.mp same
  obtain ⟨tree, sameTree, derived⟩ := rederives inside sameInside
  obtain ⟨one, settled, sameOne, formedOne, quietOne⟩ := reformsFirst thenFound sameFirst
  obtain ⟨other, settledOther, sameOther, formedOther, quietOther⟩ :=
    reformsSecond elseFound sameSecond
  have word : again.kind = .ifWord := (Token.kind_of_erase sameWord).trans word
  have divided : divider.kind = .elseWord := congrArg Token.kind sameDivider
  rw [quietOne rfl] at formedOne
  refine ⟨.ifElse again tree one other, settledOther, ?_,
    .ifElse word opened derived closed formedOne divided formedOther, quietOther⟩
  rw [Stmt.erase, Stmt.erase, sameWord, sameTree, sameOne, sameOther]

theorem redeclares_variable {tree : Stmt} {tokens : List Token}
    (declared : VariableDeclaration tree tokens) (printable : ∀ token ∈ tokens, token.Printable) :
    tree.Redeclares := by
  cases declared with
  | @bare keyword name semicolon word named ended =>
      rw [List.forall_mem_cons, List.forall_mem_cons] at printable
      have text : (Stmt.declare name none).source.toList =
          Kind.varWord.spelling.toList ++ ' ' :: (name.lexeme.toList ++ [';']) := by
        simp only [Stmt.source, String.toList_append, List.append_assoc]
        rfl
      have writesName := (writes_name printable.2.1 named).1
      refine ⟨keyword.erase :: ([name.erase] ++ [Token.unplaced .semicolon [';'] none]), ?_, ?_⟩
      · rw [text]
        exact (writes_keyword printable.1 word (by decide)).spaced writesName.ended
      · intro found same
        obtain ⟨first, inside, last, rfl, sameWord, sameInside, ended⟩ := found_command same
        obtain ⟨again, rfl, sameName⟩ := map_erase_singleton sameInside
        have word : first.kind = .varWord := (Token.kind_of_erase sameWord).trans word
        have named : again.kind = .identifier := (Token.kind_of_erase sameName).trans named
        refine ⟨.declare again none, ?_, .declared (.bare word named ended)⟩
        rw [Stmt.erase, Stmt.erase, sameName]
  | @initialized keyword name equals semicolon value inside word named sign initial ended =>
      rw [List.forall_mem_cons, List.forall_mem_cons, List.forall_mem_cons, List.forall_mem_append]
        at printable
      obtain ⟨tokens, writes, -, rederives⟩ := reprints_of_derives initial printable.2.2.2.1
      have text : (Stmt.declare name (some value)).source.toList = Kind.varWord.spelling.toList ++
          ' ' :: (name.lexeme.toList ++ ' ' ::
            (Kind.equal.spelling.toList ++ ' ' :: (value.source.toList ++ [';']))) := by
        simp only [Stmt.source, String.toList_append, List.append_assoc]
        rfl
      have writesName := (writes_name printable.2.1 named).1
      have writesSign := writes_fixed (show Kind.equal ∈ fixedKinds by decide)
      refine ⟨keyword.erase :: name.erase :: Token.unplaced .equal ['='] none ::
        (tokens ++ [Token.unplaced .semicolon [';'] none]), ?_, ?_⟩
      · rw [text]
        exact (writes_keyword printable.1 word (by decide)).spaced
          (writesName.spaced (writesSign.spaced writes.ended))
      · intro found same
        obtain ⟨first, rest, rfl, sameWord, same⟩ := List.map_eq_cons_iff.mp same
        obtain ⟨again, rest, rfl, sameName, same⟩ := List.map_eq_cons_iff.mp same
        obtain ⟨equals, rest, rfl, sameSign, same⟩ := List.map_eq_cons_iff.mp same
        obtain ⟨inside, rest, rfl, sameInside, same⟩ := List.map_eq_append_iff.mp same
        obtain ⟨last, rfl, sameLast⟩ := map_erase_singleton same
        obtain ⟨tree, sameTree, derived⟩ := rederives inside sameInside
        have word : first.kind = .varWord := (Token.kind_of_erase sameWord).trans word
        have named : again.kind = .identifier := (Token.kind_of_erase sameName).trans named
        have sign : equals.kind = .equal := congrArg Token.kind sameSign
        have ended : last.kind = .semicolon := congrArg Token.kind sameLast
        have declared := VariableDeclaration.initialized word named sign derived ended
        refine ⟨.declare again (some tree), ?_, .declared declared⟩
        rw [Stmt.erase, Stmt.erase, sameName, Option.map_some, Option.map_some, sameTree]

def Redeclaring (trees : List Stmt) (tokens : List Token) : Prop :=
  ∀ found : List Token, found.map Token.erase = tokens → ∃ again,
    Stmt.eraseAll again = Stmt.eraseAll trees ∧ Forms (.declarations again) found

theorem redeclaring_nil : Redeclaring [] [] := by
  intro found same
  rw [List.map_eq_nil_iff.mp same]
  exact ⟨[], rfl, .none⟩

theorem redeclaring_cons {tree : Stmt} {trees : List Stmt} {before behind : List Token}
    (first : ∀ found : List Token, found.map Token.erase = before → ∃ again,
      again.erase = tree.erase ∧ Forms (.declaration again) found)
    (others : Redeclaring trees behind) : Redeclaring (tree :: trees) (before ++ behind) := by
  intro found same
  obtain ⟨foundFirst, foundOthers, rfl, sameFirst, sameOthers⟩ := List.map_eq_append_iff.mp same
  obtain ⟨again, sameTree, formed⟩ := first foundFirst sameFirst
  obtain ⟨more, sameTrees, formedOthers⟩ := others foundOthers sameOthers
  refine ⟨again :: more, ?_, .more formed formedOthers⟩
  rw [Stmt.eraseAll, Stmt.eraseAll, sameTree, sameTrees]

theorem redeclares_body {trees : List Stmt} (all : ∀ tree ∈ trees, tree.Redeclares) :
    ∃ tokens, (∀ rest, spelled ((Stmt.bodySource trees).toList ++ rest) =
        tokens.map .ok ++ spelled rest) ∧ Redeclaring trees tokens := by
  induction trees with
  | nil =>
      refine ⟨[], ?_, redeclaring_nil⟩
      intro rest
      rw [Stmt.bodySource]
      rfl
  | cons tree trees ih =>
      rw [List.forall_mem_cons] at all
      obtain ⟨before, writes, reforms⟩ := all.1
      obtain ⟨behind, written, others⟩ := ih all.2
      refine ⟨before ++ behind, ?_, redeclaring_cons reforms others⟩
      intro rest
      have text : (Stmt.bodySource (tree :: trees)).toList ++ rest =
          tree.source.toList ++ ' ' :: ((Stmt.bodySource trees).toList ++ rest) := by
        simp [Stmt.bodySource]
      rw [text, writes _ (stops_cons (by decide)), spelled_blank (by decide), written,
        List.map_append, List.append_assoc]

theorem redeclares_braces {trees : List Stmt} (all : ∀ tree ∈ trees, tree.Redeclares) :
    ∃ tokens, Writes ('\x7b' :: ' ' :: ((Stmt.bodySource trees).toList ++ ['\x7d']))
        (Token.unplaced .leftBrace ['\x7b'] none ::
          (tokens ++ [Token.unplaced .rightBrace ['\x7d'] none])) ∧ Redeclaring trees tokens := by
  obtain ⟨tokens, written, reforms⟩ := redeclares_body all
  refine ⟨tokens, ?_, reforms⟩
  have inner : Writes (' ' :: ((Stmt.bodySource trees).toList ++ ['\x7d']))
      (tokens ++ [Token.unplaced .rightBrace ['\x7d'] none]) := by
    apply Writes.indent
    intro rest stops
    have brace : spelled (['\x7d'] ++ rest) =
        .ok (Token.unplaced .rightBrace ['\x7d'] none) :: spelled rest :=
      spelled_closed (show Kind.rightBrace ∈ closedSigns by decide) rest
    rw [List.append_assoc, written, brace, List.map_append, List.append_assoc]
    rfl
  exact inner.behind_sign (show Kind.leftBrace ∈ closedSigns by decide)

theorem restates_block {body : List Stmt} (all : ∀ tree ∈ body, tree.Redeclares) (place : Span) :
    (Stmt.block body place).Restates false := by
  obtain ⟨tokens, writes, reforms⟩ := redeclares_braces all
  have text : (Stmt.block body place).source.toList =
      '\x7b' :: ' ' :: ((Stmt.bodySource body).toList ++ ['\x7d']) := by
    simp [Stmt.source]
  rw [← text] at writes
  refine ⟨_, writes, ?_⟩
  intro found same
  obtain ⟨opening, rest, rfl, sameOpen, same⟩ := List.map_eq_cons_iff.mp same
  obtain ⟨inside, rest, rfl, sameInside, same⟩ := List.map_eq_append_iff.mp same
  obtain ⟨closing, rfl, sameClose⟩ := map_erase_singleton same
  obtain ⟨again, sameTrees, formed⟩ := reforms inside sameInside
  have opened : opening.kind = .leftBrace := congrArg Token.kind sameOpen
  have closed : closing.kind = .rightBrace := congrArg Token.kind sameClose
  refine ⟨.block again _, false, ?_, .block opened formed closed, fun _ => rfl⟩
  rw [Stmt.erase, Stmt.erase, sameTrees]

def parameterText (names : List Token) : List Char :=
  (", ".intercalate (names.map Token.lexeme)).toList

theorem reprints_names {names tokens : List Token} (listed : Names names tokens)
    (printable : ∀ token ∈ tokens, token.Printable) :
    ∃ written, Writes (parameterText names) written ∧
      ∀ found : List Token, found.map Token.erase = written → ∃ again,
        again.map Token.erase = names.map Token.erase ∧ Names again found := by
  induction listed with
  | @last name word =>
      have writes := (writes_name (printable name List.mem_cons_self) word).1
      refine ⟨[name.erase], ?_, ?_⟩
      · rw [parameterText, List.map_singleton, String.intercalate_singleton]
        exact writes
      · intro found same
        obtain ⟨again, rfl, sameName⟩ := map_erase_singleton same
        refine ⟨[again], ?_, .last ?_⟩
        · rw [List.map_singleton, List.map_singleton, sameName]
        · rw [Token.kind_of_erase sameName, word]
  | @more name comma names rest word sign others ih =>
      rw [List.forall_mem_cons, List.forall_mem_cons] at printable
      obtain ⟨written, writesOthers, rereads⟩ := ih printable.2.2
      have writes := (writes_name printable.1 word).1
      have nonempty : names.map Token.lexeme ≠ [] := by
        cases others <;> exact List.cons_ne_nil _ _
      have text : parameterText (name :: names) =
          name.lexeme.toList ++ ([','] ++ ' ' :: parameterText names) := by
        rw [parameterText, List.map_cons, String.intercalate_cons_of_ne_nil nonempty]
        simp only [String.toList_append, List.append_assoc]
        rfl
      refine ⟨[name.erase] ++ ([Token.unplaced .comma [','] none] ++ written), ?_, ?_⟩
      · rw [text]
        have comma := writes_fixed (show Kind.comma ∈ fixedKinds by decide)
        exact writes.append (fun _ => stops_cons (by decide)) (comma.spaced writesOthers)
      · intro found same
        obtain ⟨again, rest, rfl, sameName, same⟩ := List.map_eq_cons_iff.mp same
        obtain ⟨comma, rest, rfl, sameComma, same⟩ := List.map_eq_cons_iff.mp same
        obtain ⟨more, sameNames, listed⟩ := rereads rest same
        refine ⟨again :: more, ?_, .more ?_ ?_ listed⟩
        · rw [List.map_cons, List.map_cons, sameName, sameNames]
        · rw [Token.kind_of_erase sameName, word]
        · exact congrArg Token.kind sameComma

theorem reprints_parameters {names tokens : List Token} (head : Parameters names tokens)
    (printable : ∀ token ∈ tokens, token.Printable) :
    ∃ written, Writes (parameterText names) written ∧
      ∀ found : List Token, found.map Token.erase = written → ∃ again,
        again.map Token.erase = names.map Token.erase ∧ Parameters again found := by
  cases head with
  | none =>
      refine ⟨[], Writes.nil, ?_⟩
      intro found same
      rw [List.map_eq_nil_iff.mp same]
      exact ⟨[], rfl, .none⟩
  | some whole =>
      obtain ⟨written, writes, rereads⟩ := reprints_names whole printable
      refine ⟨written, writes, ?_⟩
      intro found same
      obtain ⟨again, sameNames, listed⟩ := rereads found same
      exact ⟨again, sameNames, .some listed⟩

theorem restates_function {keyword name : Token} {parameters listed : List Token}
    {body : List Stmt} (printableWord : keyword.Printable) (word : keyword.kind = .funWord)
    (printableName : name.Printable) (named : name.kind = .identifier)
    (head : Parameters parameters listed) (printable : ∀ token ∈ listed, token.Printable)
    (all : ∀ tree ∈ body, tree.Redeclares) :
    (Stmt.function name parameters body).Restates false := by
  obtain ⟨written, writesHead, rereads⟩ := reprints_parameters head printable
  obtain ⟨tokens, writesBody, reforms⟩ := redeclares_braces all
  have writesName := (writes_name printableName named).1
  have text : (Stmt.function name parameters body).source.toList =
      Kind.funWord.spelling.toList ++ ' ' :: (name.lexeme.toList ++
        (('(' :: (parameterText parameters ++ [')'])) ++
          ' ' :: '\x7b' :: ' ' :: ((Stmt.bodySource body).toList ++ ['\x7d']))) := by
    simp only [Stmt.source, String.toList_append, List.append_assoc, List.cons_append]
    rfl
  have behindName := writesHead.parenthesized.spaced writesBody
  have writes := (writes_keyword printableWord word (by decide)).spaced
    (writesName.append (fun _ => stops_cons (by decide)) behindName)
  rw [← text] at writes
  refine ⟨_, writes, ?_⟩
  intro found same
  simp only [List.cons_append, List.append_assoc, List.nil_append] at same
  obtain ⟨first, rest, rfl, sameWord, same⟩ := List.map_eq_cons_iff.mp same
  obtain ⟨again, rest, rfl, sameName, same⟩ := List.map_eq_cons_iff.mp same
  obtain ⟨openParen, rest, rfl, sameOpenParen, same⟩ := List.map_eq_cons_iff.mp same
  obtain ⟨names, rest, rfl, sameNames, same⟩ := List.map_eq_append_iff.mp same
  obtain ⟨closeParen, rest, rfl, sameCloseParen, same⟩ := List.map_eq_cons_iff.mp same
  obtain ⟨openBrace, rest, rfl, sameOpenBrace, same⟩ := List.map_eq_cons_iff.mp same
  obtain ⟨inside, rest, rfl, sameInside, same⟩ := List.map_eq_append_iff.mp same
  obtain ⟨closeBrace, rfl, sameCloseBrace⟩ := map_erase_singleton same
  obtain ⟨others, sameParameters, head⟩ := rereads names sameNames
  obtain ⟨trees, sameTrees, formed⟩ := reforms inside sameInside
  refine ⟨.function again others trees, false, ?_, .function ?_ ?_ ?_ head ?_ ?_ formed ?_,
    fun _ => rfl⟩
  · rw [Stmt.erase, Stmt.erase, sameName, sameParameters, sameTrees]
  · rw [Token.kind_of_erase sameWord, word]
  · rw [Token.kind_of_erase sameName, named]
  · exact congrArg Token.kind sameOpenParen
  · exact congrArg Token.kind sameCloseParen
  · exact congrArg Token.kind sameOpenBrace
  · exact congrArg Token.kind sameCloseBrace

theorem reprints_of_primary {tree : Expr} (whole : (Phrase.primary tree).Reprints) :
    (Phrase.expression tree).Reprints := by
  apply reprints_plain
  iterate 6 apply reprints_operand
  exact reprints_called (reprints_callee whole)

theorem reprints_guard (keyword : Token) {condition : Option Expr} {asked : List Token}
    (test : Optional condition asked) (printable : ∀ token ∈ asked, token.Printable) :
    (Phrase.expression (guard keyword condition)).Reprints := by
  cases test with
  | absent => exact reprints_of_primary (reprints_keyword (by decide) rfl (fun _ => .trueWord) _ _)
  | present whole => exact reprints_of_derives whole printable

theorem restates_stepped {body : Stmt} {increment : Option Expr} {advanced : List Token}
    {waiting : Bool} (step : Optional increment advanced)
    (printable : ∀ token ∈ advanced, token.Printable) (inner : body.Restates waiting) :
    (stepped body increment).Restates waiting := by
  cases step with
  | absent => exact inner
  | present whole =>
      apply Stmt.Restates.weaken
      apply restates_block
      have counted := restates_expression (reprints_of_derives whole printable)
      rw [List.forall_mem_cons, List.forall_mem_singleton]
      exact ⟨inner.redeclares, counted.redeclares⟩

theorem redeclares_initial {first : Stmt} {begun : List Token}
    (start : Initial (some first) begun) (printable : ∀ token ∈ begun, token.Printable) :
    first.Redeclares := by
  cases start with
  | declared whole => exact redeclares_variable whole printable
  | expression whole =>
      cases whole with
      | intro derived ended =>
          rw [List.forall_mem_append] at printable
          exact (restates_expression (reprints_of_derives derived printable.1)).redeclares

/-- A `for` is printed as the loop that it stands for, in a block if it has a first clause. -/
theorem restates_while_form (keyword : Token) {initial : Option Stmt}
    {condition increment : Option Expr} {waiting : Bool} {body : Stmt}
    {begun asked advanced : List Token} (start : Initial initial begun)
    (printableStart : ∀ token ∈ begun, token.Printable) (test : Optional condition asked)
    (printableTest : ∀ token ∈ asked, token.Printable) (step : Optional increment advanced)
    (printableStep : ∀ token ∈ advanced, token.Printable) (inner : body.Restates waiting) :
    (whileForm keyword initial condition increment body).Restates waiting := by
  have loop := restates_loop keyword (reprints_guard keyword test printableTest)
    (restates_stepped step printableStep inner)
  cases initial with
  | none => exact loop
  | some first =>
      apply Stmt.Restates.weaken
      apply restates_block
      rw [List.forall_mem_cons, List.forall_mem_singleton]
      exact ⟨redeclares_initial start printableStart, loop.redeclares⟩

def Grammar.Sentence.Reprints : Sentence → Prop
  | .statement waiting tree => tree.Restates waiting
  | .declaration tree => tree.Redeclares
  | .declarations trees => ∀ tree ∈ trees, tree.Redeclares

/-- A sentence formed from the tokens of a text is formed again from its printed form. -/
theorem reprints_of_forms {sentence : Sentence} {tokens : List Token}
    (formed : Forms sentence tokens) (printable : ∀ token ∈ tokens, token.Printable) :
    sentence.Reprints := by
  induction formed with
  | expression whole =>
      cases whole with
      | intro derived ended =>
          rw [List.forall_mem_append] at printable
          exact restates_expression (reprints_of_derives derived printable.1)
  | print word shown ended =>
      rw [List.forall_mem_cons, List.forall_mem_append] at printable
      exact restates_print printable.1 word (reprints_of_derives shown printable.2.1)
  | returnValue word result ended =>
      rw [List.forall_mem_cons, List.forall_mem_append] at printable
      cases result with
      | absent => exact restates_bare_return printable.1 word
      | present whole =>
          exact restates_return printable.1 word (reprints_of_derives whole printable.2.1)
  | breakLoop word ended => exact restates_break (printable _ List.mem_cons_self) word
  | block opened _ closed ih =>
      rw [List.forall_mem_cons, List.forall_mem_append] at printable
      exact restates_block (ih printable.2.1) _
  | function word named opened head closed begun _ ended ih =>
      simp only [List.forall_mem_cons, List.forall_mem_append] at printable
      obtain ⟨printableWord, printableName, -, printableHead, -, -, printableBody, -⟩ := printable
      exact restates_function printableWord word printableName named head printableHead
        (ih printableBody)
  | ifThen word opened test closed _ ih =>
      simp only [List.forall_mem_cons, List.forall_mem_append] at printable
      obtain ⟨printableWord, -, printableTest, -, printableFirst⟩ := printable
      exact restates_if_then printableWord word (reprints_of_derives test printableTest)
        (ih printableFirst)
  | ifElse word opened test closed first divided _ ihFirst ihSecond =>
      simp only [List.forall_mem_cons, List.forall_mem_append] at printable
      obtain ⟨printableWord, -, printableTest, -, printableFirst, -, printableSecond⟩ := printable
      exact restates_if_else printableWord word (reprints_of_derives test printableTest)
        (settled_takes_no_else first) (ihFirst printableFirst) (ihSecond printableSecond)
  | whileLoop word opened test closed _ ih =>
      simp only [List.forall_mem_cons, List.forall_mem_append] at printable
      obtain ⟨-, -, printableTest, -, printableBody⟩ := printable
      exact restates_loop _ (reprints_of_derives test printableTest) (ih printableBody)
  | forLoop word opened start test divided step closed _ ih =>
      simp only [List.forall_mem_cons, List.forall_mem_append] at printable
      obtain ⟨-, -, printableStart, printableTest, -, printableStep, -, printableBody⟩ := printable
      exact restates_while_form _ start printableStart test printableTest step printableStep
        (ih printableBody)
  | declared whole => exact redeclares_variable whole printable
  | statement _ ih => exact (ih printable).redeclares
  | none => exact List.forall_mem_nil _
  | more _ _ ihFirst ihOthers =>
      rw [List.forall_mem_append] at printable
      exact List.forall_mem_cons.mpr ⟨ihFirst printable.1, ihOthers printable.2⟩

end Treewalk
