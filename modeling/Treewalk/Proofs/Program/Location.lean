import Treewalk.Proofs.Program.Moved
import Treewalk.Proofs.Program.Occurrence
import Treewalk.Proofs.Token.Slice

/-!
# Expressions stand where they say

The place of an expression is put together from operands, parentheses and operators. It is the text
of the expression's own tokens, from the first to the last, and that text by itself is read as the
same expression: cut out of what stood around it, no operator binds its parts otherwise, as whatever
is an operand or an argument is an expression as well.
-/

namespace Treewalk

set_option autoImplicit false

open Grammar

namespace Stmt

/-- The expressions of the statement itself, not those of statements inside it. -/
def expressions : Stmt → List Expr
  | expression value => [value]
  | print _ value => [value]
  | declare _ initial => initial.toList
  | ifThen _ condition _ => [condition]
  | ifElse _ condition _ _ => [condition]
  | loop _ condition _ => [condition]
  | returnValue _ value => value.toList
  | block _ _ => []
  | function _ _ _ => []
  | breakLoop _ => []

/-- The condition that a `for` gets if it is written without one. -/
def implied? : Stmt → Option Expr
  | loop keyword _ _ => if keyword.kind = .forWord then some (guard keyword none) else none
  | _ => none

end Stmt

section Order

def Rising (tokens : List Token) : Prop :=
  tokens.Pairwise fun token later =>
    token.span.start ≤ later.span.start ∧ token.span.stop ≤ later.span.stop

theorem text_rising (source : String) : Rising (Scanned.ofText source.toList).tokens := by
  have apart : (Scanned.ofText source.toList).tokens.Pairwise
      fun token later => token.span.stop ≤ later.span.start := by
    apply (List.pairwise_append.mp (text_tiles source).apart).1.filterMap Item.token?
    rintro (token | error) (other | fault) less left isLeft right isRight
    all_goals cases isLeft
    all_goals cases isRight
    exact less
  apply apart.imp_of_mem
  intro token later found foundToo less
  have tiles := text_tiles source
  have ordered := (Span.within_iff_fits.mpr (tiles.fits _ (listed_of_token found))).ordered
  have orderedToo := (Span.within_iff_fits.mpr (tiles.fits _ (listed_of_token foundToo))).ordered
  exact ⟨ordered.trans less, less.trans orderedToo⟩

namespace Span

theorem bounds_single (token : Token) : token.span.Bounds [token] :=
  ⟨⟨token, rfl, rfl⟩, ⟨token, rfl, rfl⟩⟩

variable {before behind : List Token} {left right : Span}

/-- What is put together from a place at the front and one at the back goes from the front to the
back. -/
theorem Bounds.hull (between : List Token) (first : left.Bounds before)
    (second : right.Bounds behind) (rising : Rising (before ++ (between ++ behind))) :
    (left.hull right).Bounds (before ++ (between ++ behind)) := by
  obtain ⟨⟨token, isFirst, start⟩, ⟨tokenEnd, isLast, stop⟩⟩ := first
  obtain ⟨⟨other, isFirstToo, startToo⟩, ⟨otherEnd, isLastToo, stopToo⟩⟩ := second
  have across := (List.pairwise_append.mp rising).2.2
  have starts := (across token (List.mem_of_mem_head? isFirst) other
    (List.mem_append_right _ (List.mem_of_mem_head? isFirstToo))).1
  have stops := (across tokenEnd (List.mem_of_mem_getLast? isLast) otherEnd
    (List.mem_append_right _ (List.mem_of_mem_getLast? isLastToo))).2
  refine ⟨⟨token, ?_, ?_⟩, ⟨otherEnd, ?_, ?_⟩⟩
  · rw [List.head?_append, Option.mem_def.mp isFirst]
    rfl
  · rw [start, startToo] at starts
    rw [start]
    exact (Nat.min_eq_left starts).symm
  · rw [List.getLast?_append, List.getLast?_append, Option.mem_def.mp isLastToo]
    rfl
  · rw [stop, stopToo] at stops
    rw [stopToo]
    exact (Nat.max_eq_right stops).symm

end Span

end Order

namespace Grammar.Derives

variable {tree : Expr} {tokens : List Token}

/-- An operation of any tier is an operation of every looser one, and so an expression. -/
theorem expression_of_operation {tier : Tier} (whole : Derives (.operation tier tree) tokens) :
    Derives (.expression tree) tokens := by
  have conjunction (found : Derives (.operation .conjunction tree) tokens) :
      Derives (.expression tree) tokens := .plain (.operand found)
  have equality (found : Derives (.operation .equality tree) tokens) :
      Derives (.expression tree) tokens := conjunction (.operand found)
  have comparison (found : Derives (.operation .comparison tree) tokens) :
      Derives (.expression tree) tokens := equality (.operand found)
  have term (found : Derives (.operation .term tree) tokens) :
      Derives (.expression tree) tokens := comparison (.operand found)
  cases tier with
  | disjunction => exact .plain whole
  | conjunction => exact conjunction whole
  | equality => exact equality whole
  | comparison => exact comparison whole
  | term => exact term whole
  | factor => exact term (.operand whole)

theorem expression_of_unary (whole : Derives (.unary tree) tokens) :
    Derives (.expression tree) tokens := by
  have factor : Derives (.operation .factor tree) tokens := .operand whole
  exact factor.expression_of_operation

end Grammar.Derives

section Phrases

/-- The expressions that the phrase is about, with all expressions inside them. -/
def Grammar.Phrase.parts : Phrase → List Expr
  | .expression tree => tree.parts
  | .operation _ tree => tree.parts
  | .unary tree => tree.parts
  | .call tree => tree.parts
  | .primary tree => tree.parts
  | .arguments trees => Expr.partsIn trees

theorem operand_parts (tier : Tier) (tree : Expr) : (tier.operand tree).parts = tree.parts := by
  cases tier <;> rfl

theorem node_parts (tier : Tier) (left right : Expr) (operator : Token) :
    (tier.node left operator right).parts =
      tier.node left operator right :: (left.parts ++ right.parts) := by
  cases tier <;> rw [Tier.node, Expr.parts]

/-- Tokens in a row form the expression. -/
def Expr.Within (tokens : List Token) (tree : Expr) : Prop :=
  ∃ covered, covered <:+: tokens ∧ Derives (.expression tree) covered

theorem parts_within {phrase : Phrase} {tokens all : List Token} (derived : Derives phrase tokens)
    (sub : tokens <:+: all) : ∀ part ∈ phrase.parts, part.Within all := by
  -- The tokens of a part are a stretch of those of the whole; the list around them stays the same.
  induction derived with
  | @assign name equals value rest target sign assigned ih =>
      rw [Phrase.parts, Expr.parts]
      refine List.forall_mem_cons.mpr ⟨⟨_, sub, .assign target sign assigned⟩, ih (.trans ?_ sub)⟩
      exact ⟨[name, equals], [], by simp⟩
  | plain whole ih => exact ih sub
  | @operand tier tree tokens whole ih =>
      rw [operand_parts] at ih
      exact ih sub
  | @operator tier left right operator before behind first sign second ih ihSecond =>
      rw [operand_parts] at ihSecond
      rw [Phrase.parts, node_parts]
      have whole := (Derives.operator first sign second).expression_of_operation
      refine List.forall_mem_cons.mpr ⟨⟨_, sub, whole⟩, List.forall_mem_append.mpr
        ⟨ih (.trans ?_ sub), ihSecond (.trans ?_ sub)⟩⟩
      · exact (List.prefix_append _ _).isInfix
      · exact ⟨before ++ [operator], [], by simp⟩
  | @negation operator operand rest sign negated ih =>
      have whole := Derives.negation sign negated
      rw [Phrase.parts, Expr.parts]
      refine List.forall_mem_cons.mpr ⟨⟨_, sub, whole.expression_of_unary⟩, ih (.trans ?_ sub)⟩
      exact (List.suffix_cons _ _).isInfix
  | called whole ih => exact ih sub
  | callee whole ih => exact ih sub
  | @emptyCall callee before openParen closeParen function opened closed ih =>
      have whole := Derives.called (.emptyCall function opened closed)
      rw [Phrase.parts, Expr.parts]
      refine List.forall_mem_cons.mpr ⟨⟨_, sub, whole.expression_of_unary⟩,
        List.forall_mem_append.mpr ⟨ih (.trans ?_ sub), nofun⟩⟩
      exact (List.prefix_append _ _).isInfix
  | @fullCall callee arguments before inside openParen closeParen function opened passed closed ih
      ihPassed =>
      have whole := Derives.called (.fullCall function opened passed closed)
      rw [Phrase.parts, Expr.parts]
      refine List.forall_mem_cons.mpr ⟨⟨_, sub, whole.expression_of_unary⟩,
        List.forall_mem_append.mpr ⟨ih (.trans ?_ sub), ihPassed (.trans ?_ sub)⟩⟩
      · exact (List.prefix_append _ _).isInfix
      · exact ⟨before ++ [openParen], [closeParen], by simp⟩
  | lastArgument whole ih =>
      rw [Phrase.parts, Expr.partsIn, Expr.partsIn, List.append_nil]
      exact ih sub
  | @argument tree trees before behind comma first sign others ih ihOthers =>
      rw [Phrase.parts, Expr.partsIn]
      refine List.forall_mem_append.mpr ⟨ih (.trans ?_ sub), ihOthers (.trans ?_ sub)⟩
      · exact (List.prefix_append _ _).isInfix
      · exact ⟨before ++ [comma], [], by simp⟩
  | constant denoted =>
      have whole := Derives.called (.callee (.constant denoted))
      exact List.forall_mem_singleton.mpr ⟨_, sub, whole.expression_of_unary⟩
  | reference word =>
      have whole := Derives.called (.callee (.reference word))
      exact List.forall_mem_singleton.mpr ⟨_, sub, whole.expression_of_unary⟩
  | @grouping inner inside openParen closeParen opened enclosed closed ih =>
      have whole := Derives.called (.callee (.grouping opened enclosed closed))
      rw [Phrase.parts, Expr.parts]
      refine List.forall_mem_cons.mpr ⟨⟨_, sub, whole.expression_of_unary⟩, ih (.trans ?_ sub)⟩
      exact ⟨[openParen], [closeParen], by simp⟩

/-- The place of the phrase goes from its first token to its last. Arguments have no place of their
own. -/
def Grammar.Phrase.Bounded (tokens : List Token) : Phrase → Prop
  | .expression tree => tree.location.Bounds tokens
  | .operation _ tree => tree.location.Bounds tokens
  | .unary tree => tree.location.Bounds tokens
  | .call tree => tree.location.Bounds tokens
  | .primary tree => tree.location.Bounds tokens
  | .arguments _ => True

theorem operand_bounded {tier : Tier} {tree : Expr} {tokens : List Token} :
    (tier.operand tree).Bounded tokens ↔ tree.location.Bounds tokens := by
  cases tier <;> rfl

theorem derives_bounded {phrase : Phrase} {tokens : List Token} (derived : Derives phrase tokens)
    (rising : Rising tokens) : phrase.Bounded tokens := by
  induction derived with
  | @assign name equals value rest target sign assigned ih =>
      have value := ih (rising.sublist (.cons _ (.cons _ (.refl _))))
      exact (Span.bounds_single name).hull [equals] value rising
  | plain whole ih => exact ih rising
  | operand whole ih => exact operand_bounded.mp (ih rising)
  | @operator tier left right operator before behind first sign second ih ihSecond =>
      have front := ih (rising.sublist (List.sublist_append_left _ _))
      have back := operand_bounded.mp (ihSecond (rising.sublist
        (List.sublist_append_of_sublist_right (.cons _ (.refl _)))))
      show (tier.node left operator right).location.Bounds _
      rw [node_location]
      exact front.hull [operator] back rising
  | @negation operator operand rest sign negated ih =>
      have operand := ih (rising.sublist (.cons _ (.refl _)))
      exact (Span.bounds_single operator).hull [] operand rising
  | called whole ih => exact ih rising
  | callee whole ih => exact ih rising
  | @emptyCall callee before openParen closeParen function opened closed ih =>
      have callee := ih (rising.sublist (List.sublist_append_left _ _))
      exact callee.hull [openParen] (Span.bounds_single closeParen) rising
  | @fullCall callee arguments before inside openParen closeParen function opened passed closed
      ih _ =>
      have callee := ih (rising.sublist (List.sublist_append_left _ _))
      exact callee.hull (openParen :: inside) (Span.bounds_single closeParen) rising
  | lastArgument whole ih => trivial
  | argument first sign others ih ihOthers => trivial
  | constant denoted => exact Span.bounds_single _
  | reference word => exact Span.bounds_single _
  | @grouping inner inside openParen closeParen opened enclosed closed ih =>
      exact (Span.bounds_single openParen).hull inside (Span.bounds_single closeParen) rising

end Phrases

section Sentences

/-- The expressions of the statement are formed by tokens, but for a condition that was not
written. -/
def Occurrence.Written (tokens : List Token) (occurrence : Occurrence) : Prop :=
  ∀ root ∈ occurrence.statement.expressions, root ∉ occurrence.statement.implied? →
    root.Within tokens

variable {all tokens : List Token}

theorem optional_within {value : Option Expr} (derived : Optional value tokens)
    (sub : tokens <:+: all) : ∀ root ∈ value, root.Within all := by
  cases derived with
  | absent => exact nofun
  | present whole =>
      rintro _ ⟨⟩
      exact ⟨_, sub, whole⟩

theorem single_written {around : List Around} {tree : Stmt} {root : Expr}
    (single : tree.expressions = [root]) (within : root.Within all) :
    Occurrence.Written all ⟨around, tree⟩ := by
  intro other found _
  rw [show Occurrence.statement ⟨around, tree⟩ = tree from rfl, single] at found
  rwa [List.mem_singleton.mp found]

theorem none_written {around : List Around} {tree : Stmt} (none : tree.expressions = []) :
    Occurrence.Written all ⟨around, tree⟩ := by
  intro other found _
  rw [show Occurrence.statement ⟨around, tree⟩ = tree from rfl, none] at found
  cases found

theorem variable_declaration_written {tree : Stmt} (around : List Around)
    (formed : VariableDeclaration tree tokens) (sub : tokens <:+: all) :
    ∀ occurrence ∈ tree.occurrences around, occurrence.Written all := by
  cases formed with
  | bare word named ended => exact List.forall_mem_singleton.mpr (none_written rfl)
  | @initialized keyword name equals semicolon value inside word named sign initial ended =>
      refine List.forall_mem_singleton.mpr (single_written rfl ⟨_, .trans ?_ sub, initial⟩)
      exact ⟨[keyword, name, equals], [semicolon], by simp⟩

theorem expression_statement_written {tree : Stmt} (around : List Around)
    (formed : ExpressionStatement tree tokens) (sub : tokens <:+: all) :
    ∀ occurrence ∈ tree.occurrences around, occurrence.Written all := by
  cases formed with
  | intro whole ended =>
      refine List.forall_mem_singleton.mpr (single_written rfl ⟨_, .trans ?_ sub, whole⟩)
      exact (List.prefix_append _ _).isInfix

theorem initial_written {initial : Option Stmt} (start : Initial initial tokens)
    (sub : tokens <:+: all) : ∀ first ∈ initial, ∀ around,
      ∀ occurrence ∈ first.occurrences around, occurrence.Written all := by
  cases start with
  | absent ended => exact nofun
  | declared whole =>
      rintro _ ⟨⟩ around
      exact variable_declaration_written around whole sub
  | expression whole =>
      rintro _ ⟨⟩ around
      exact expression_statement_written around whole sub

/-- Of the loop that a `for` stands for, all is written that its clauses say. -/
theorem while_form_written {keyword : Token} {initial : Option Stmt} {body : Stmt}
    {condition increment : Option Expr} (word : keyword.kind = .forWord)
    (start : ∀ first ∈ initial, ∀ around,
      ∀ occurrence ∈ first.occurrences around, occurrence.Written all)
    (test : ∀ root ∈ condition, root.Within all) (step : ∀ root ∈ increment, root.Within all)
    (inner : ∀ around, ∀ occurrence ∈ body.occurrences around, occurrence.Written all)
    (around : List Around) :
    ∀ occurrence ∈ (whileForm keyword initial condition increment body).occurrences around,
      occurrence.Written all := by
  have guarded : ∀ around, Occurrence.Written all
      ⟨around, .loop keyword (guard keyword condition) (stepped body increment)⟩ := by
    cases condition with
    | none =>
        intro around root found written
        obtain rfl := List.mem_singleton.mp found
        exact absurd (by simp [Stmt.implied?, word]) written
    | some root => exact fun around => single_written rfl (test root rfl)
  exact while_form_occurrences (fun _ _ _ => none_written rfl)
    (fun tree found _ => single_written rfl (step tree found)) guarded start inner around

theorem forms_written {sentence : Sentence} (formed : Forms sentence tokens)
    (sub : tokens <:+: all) (around : List Around) :
    ∀ occurrence ∈ sentence.occurrences around, occurrence.Written all := by
  induction formed generalizing around with
  | expression whole => exact expression_statement_written around whole sub
  | @print keyword semicolon value inside word shown ended =>
      refine List.forall_mem_singleton.mpr (single_written rfl ⟨_, .trans ?_ sub, shown⟩)
      exact ⟨[keyword], [semicolon], by simp⟩
  | @returnValue keyword semicolon value inside word result ended =>
      refine List.forall_mem_singleton.mpr fun root found _ => ?_
      refine optional_within result (.trans ?_ sub) root (Option.mem_toList.mp found)
      exact ⟨[keyword], [semicolon], by simp⟩
  | breakLoop word ended => exact List.forall_mem_singleton.mpr (none_written rfl)
  | @block openBrace closeBrace body inside opened enclosed closed ih =>
      refine List.forall_mem_cons.mpr ⟨none_written rfl, ih (.trans ?_ sub) _⟩
      exact ⟨[openBrace], [closeBrace], by simp⟩
  | @function keyword name openParen closeParen openBrace closeBrace parameters body listed inside
      word named opened head closed begun enclosed ended ih =>
      refine List.forall_mem_cons.mpr ⟨none_written rfl, ih (.trans ?_ sub) _⟩
      exact ⟨keyword :: name :: openParen :: (listed ++ [closeParen, openBrace]), [closeBrace],
        by simp⟩
  | @ifThen keyword openParen closeParen condition waiting consequent asked then_ word opened test
      closed first ih =>
      refine List.forall_mem_cons.mpr ⟨single_written rfl ⟨_, .trans ?_ sub, test⟩,
        ih (.trans ?_ sub) _⟩
      · exact ⟨[keyword, openParen], closeParen :: then_, by simp⟩
      · exact ⟨keyword :: openParen :: (asked ++ [closeParen]), [], by simp⟩
  | @ifElse keyword openParen closeParen elseWord condition waiting consequent alternative asked
      then_ else_ word opened test closed first divided second ih ihSecond =>
      refine List.forall_mem_cons.mpr ⟨single_written rfl ⟨_, .trans ?_ sub, test⟩,
        List.forall_mem_append.mpr ⟨ih (.trans ?_ sub) _, ihSecond (.trans ?_ sub) _⟩⟩
      · exact ⟨[keyword, openParen], closeParen :: (then_ ++ elseWord :: else_), by simp⟩
      · exact ⟨keyword :: openParen :: (asked ++ [closeParen]), elseWord :: else_, by simp⟩
      · exact ⟨keyword :: openParen :: (asked ++ closeParen :: (then_ ++ [elseWord])), [], by simp⟩
  | @whileLoop keyword openParen closeParen condition waiting body asked repeated word opened test
      closed inner ih =>
      refine List.forall_mem_cons.mpr ⟨single_written rfl ⟨_, .trans ?_ sub, test⟩,
        ih (.trans ?_ sub) _⟩
      · exact ⟨[keyword, openParen], closeParen :: repeated, by simp⟩
      · exact ⟨keyword :: openParen :: (asked ++ [closeParen]), [], by simp⟩
  | @forLoop keyword openParen semicolon closeParen initial condition increment waiting body begun
      asked advanced repeated word opened start test divided step closed inner ih =>
      refine while_form_written word (initial_written start (.trans ?_ sub))
        (optional_within test (.trans ?_ sub)) (optional_within step (.trans ?_ sub))
        (ih (.trans ?_ sub)) around
      · exact ⟨[keyword, openParen], asked ++ semicolon :: (advanced ++ closeParen :: repeated),
          by simp⟩
      · exact ⟨keyword :: openParen :: begun, semicolon :: (advanced ++ closeParen :: repeated),
          by simp⟩
      · exact ⟨keyword :: openParen :: (begun ++ (asked ++ [semicolon])), closeParen :: repeated,
          by simp⟩
      · exact ⟨keyword :: openParen ::
          (begun ++ (asked ++ semicolon :: (advanced ++ [closeParen]))), [], by simp⟩
  | declared whole => exact variable_declaration_written around whole sub
  | statement whole ih => exact ih sub around
  | none => exact nofun
  | more first others ih ihOthers =>
      exact List.forall_mem_append.mpr ⟨ih ((List.prefix_append _ _).isInfix.trans sub) around,
        ihOthers ((List.suffix_append _ _).isInfix.trans sub) around⟩

end Sentences

/-- The place of the node is the text of its own tokens, and this text is the node by itself. -/
structure Expr.Exact (source : String) (node : Expr) : Prop where
  /-- Tokens of the source that stand in a row form the node, and its place goes from the start of
  the first to the end of the last. -/
  covers : ∃ before covered behind,
    (Scanned.ofSource source).tokens = before ++ (covered ++ behind) ∧
      Derives (.expression node) covered ∧ node.location.Bounds covered
  /-- Scanning and parsing the text at the place comes to its end without errors, and gives the node
  where it stands alone. -/
  alone : ∃ before text behind, source.toList = before ++ (text ++ behind) ∧
    node.location = ⟨byteLength before, byteLength (before ++ text)⟩ ∧
    ∃ (again : Expr) (puller : Puller),
      Parser.expression (Puller.start (.ofText text)) = .done again puller ∧
      puller.isAtEnd = true ∧ puller.lexical = [] ∧ puller.recorded = [] ∧
      again.moved ⟨byteLength before, newlines before⟩ = node

/-- An expression of tokens that have been moved is parsed from the tokens as they were. -/
theorem expression_of_moved {shift : Shift} {scanned : Scanned} {node : Expr}
    (closed : scanned.closing.kind = .endOfInput)
    (derived : Derives (.expression node) (scanned.tokens.map (Token.moved shift))) :
    ∃ again, Parser.expression (Parser.start scanned) = .done again ⟨[], scanned.closing, []⟩ ∧
      again.moved shift = node := by
  -- The run over the moved tokens is known, and it is the run over the others, moved.
  have moves := Parser.expression_moves shift (Parser.start scanned)
  have whole : Parser.expression ((Parser.start scanned).moved shift) =
      .done node ⟨[], scanned.closing.moved shift, []⟩ :=
    Parser.expression_of_whole closed derived
  rw [whole] at moves
  cases ran : Parser.expression (Parser.start scanned) with
  | done again after =>
      rw [ran] at moves
      injection moves with same sameState
      injection sameState with noneAhead _ noneRecorded
      have closing := (Parser.expression_advances.leads ran).closing
      obtain ⟨ahead, last, recorded⟩ := after
      obtain rfl : ahead = [] := List.map_eq_nil_iff.mp noneAhead.symm
      obtain rfl : recorded = [] := List.map_eq_nil_iff.mp noneRecorded.symm
      obtain rfl : last = scanned.closing := closing
      exact ⟨again, rfl, same.symm⟩
  | failed error after =>
      rw [ran] at moves
      cases moves
  | exhausted =>
      rw [ran] at moves
      cases moves

theorem Expr.Within.exact {source : String} {node : Expr} (short : source.utf8ByteSize < 2 ^ 32)
    (clean : (Scanned.ofSource source).errors = [])
    (within : node.Within (Scanned.ofSource source).tokens) : node.Exact source := by
  have listed := of_source_of_short short
  rw [listed] at clean within
  obtain ⟨covered, ⟨before, behind, whole⟩, derived⟩ := within
  have tokens := whole.symm
  rw [List.append_assoc] at tokens
  have rising : Rising covered := by
    have all := text_rising source
    rw [tokens] at all
    exact all.sublist (List.sublist_append_of_sublist_right (List.sublist_append_left _ _))
  have bounds : node.location.Bounds covered := derives_bounded derived rising
  refine ⟨⟨before, covered, behind, listed ▸ tokens, derived, bounds⟩, ?_⟩
  obtain ⟨front, text, rest, same, span, cleanText, moved⟩ := scanned_slice clean tokens bounds
  rw [← moved] at derived
  have shortText : byteLength text < 2 ^ 32 := by
    rw [← byte_length_to_list, same, byte_length_append, byte_length_append] at short
    omega
  obtain ⟨again, parsed, place⟩ := expression_of_moved rfl derived
  rw [← of_pulls_of_short shortText] at cleanText parsed
  obtain ⟨puller, pulled, ended, lexical, recorded⟩ := expression_pulled cleanText parsed
  exact ⟨front, text, rest, same, span, again, puller, pulled, ended, lexical, recorded, place⟩

/-- In an accepted source whose places fit in 32 bits, every expression stands where it says, from
the first to the last of its tokens, and what stands there by itself is the same expression. The
condition `true` of a `for` without one is not in the text. -/
theorem expression_locations_exact (source : String) (program : Program)
    (short : source.utf8ByteSize < 2 ^ 32) (parsed : parse source = .ok program) :
    ∀ occurrence ∈ Stmt.occurrencesIn [] program, ∀ root ∈ occurrence.statement.expressions,
      root ∉ occurrence.statement.implied? → ∀ node ∈ root.parts, node.Exact source := by
  obtain ⟨tokens, lexed, derived⟩ := parse_ok_iff.mp parsed
  obtain ⟨clean, scanned⟩ := scan_ok_iff.mp lexed
  cases derived with
  | @intro _ inside closing whole ended =>
      obtain ⟨rfl, -⟩ := List.append_inj' scanned rfl
      intro occurrence found root among written node part
      have within := forms_written whole (List.infix_refl _) [] occurrence found root among written
      obtain ⟨covered, sub, derived⟩ := within
      exact (parts_within derived sub node part).exact short clean

/-- A call inside a loop without condition, with an argument that goes over two lines. -/
theorem expression_locations_exact_call :
    let source := "for (;;) \x7b\n  print -(a + f(b, \"x\ny\")) and c;\n  break;\n\x7d"
    ∃ (program : Program) (node : Expr), source.utf8ByteSize < 2 ^ 32 ∧
      parse source = .ok program ∧ node.location = ⟨25, 36⟩ ∧ node.line = 3 ∧
        node.Exact source := by
  intro source
  have short : source.utf8ByteSize < 2 ^ 32 := by decide
  obtain ⟨program, parsed, found⟩ : ∃ program, parse source = .ok program ∧
      ((Stmt.occurrencesIn [] program).any fun occurrence =>
        occurrence.statement.implied?.isNone &&
          occurrence.statement.expressions.any fun root =>
            root.parts.any fun node => node.location == ⟨25, 36⟩ && node.line == 3) = true :=
    exists_ok_of_any (by decide +kernel)
  obtain ⟨occurrence, listed, found⟩ := List.any_eq_true.mp found
  obtain ⟨none, found⟩ := Bool.and_eq_true_iff.mp found
  obtain ⟨root, among, found⟩ := List.any_eq_true.mp found
  obtain ⟨node, part, found⟩ := List.any_eq_true.mp found
  obtain ⟨location, line⟩ := Bool.and_eq_true_iff.mp found
  have written : root ∉ occurrence.statement.implied? := by
    rw [Option.isNone_iff_eq_none.mp none]
    exact nofun
  exact ⟨program, node, short, parsed, beq_iff_eq.mp location, beq_iff_eq.mp line,
    expression_locations_exact source program short parsed occurrence listed root among written node
      part⟩

/-- The place of an operation that goes over the bound runs from the end of its text to the start.
No tokens of the source that stand in a row are between these. -/
theorem far_expression_is_misplaced :
    ∃ program, parse (behindBlanks (2 ^ 32 - 2) "a + b;") = .ok program ∧
      ∃ occurrence ∈ Stmt.occurrencesIn [] program, ∃ root ∈ occurrence.statement.expressions,
        root ∉ occurrence.statement.implied? ∧ ∃ node ∈ root.parts,
          ¬node.Exact (behindBlanks (2 ^ 32 - 2) "a + b;") := by
  generalize written : behindBlanks (2 ^ 32 - 2) "a + b;" = source
  have scanned := of_source_behind_blanks (2 ^ 32 - 2) "a + b;"
  rw [written] at scanned
  have count : (Scanned.ofSource source).tokens.length = 4 := by
    rw [scanned]
    decide +kernel
  obtain ⟨program, parsed, found⟩ : ∃ program, parse source = .ok program ∧
      ((Stmt.occurrencesIn [] program).any fun occurrence =>
        occurrence.statement.implied?.isNone && occurrence.statement.expressions.any fun root =>
          (List.range 5).all fun front => (List.range 5).all fun size =>
            !decide (root.location.Bounds
              (((Scanned.ofSource source).tokens.drop front).take size))) = true :=
    exists_ok_of_any (by
      rw [parse_eq_parsed, scanned]
      decide +kernel)
  obtain ⟨occurrence, listed, found⟩ := List.any_eq_true.mp found
  obtain ⟨none, found⟩ := Bool.and_eq_true_iff.mp found
  obtain ⟨root, among, outside⟩ := List.any_eq_true.mp found
  have itself : root ∈ root.parts := by cases root <;> exact List.mem_cons_self
  refine ⟨program, parsed, occurrence, listed, root, among, ?_, root, itself, fun exact => ?_⟩
  · rw [Option.isNone_iff_eq_none.mp none]
    exact nofun
  · obtain ⟨before, covered, behind, tokens, -, bounds⟩ := exact.covers
    rw [tokens] at outside count
    simp only [List.length_append] at count
    have front := List.all_eq_true.mp outside before.length (List.mem_range.mpr (by omega))
    have cut := List.all_eq_true.mp front covered.length (List.mem_range.mpr (by omega))
    rw [List.drop_left, List.take_left] at cut
    simp [bounds] at cut

end Treewalk
