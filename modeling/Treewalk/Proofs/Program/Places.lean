import Treewalk.Check
import Treewalk.Proofs.Program.Grammar

/-!
# Where the nodes of a tree lie

The place of a node is put together from the spans of tokens, by taking hulls. Hulls may go over
tokens that do not belong to the node, as the increment of a `for` stands in front of the body that
it follows; but whatever is put together begins where some token begins and ends where some token
ends. This holds of every place that the static check can report. A stray exit, moreover, begins
with its own keyword, since nothing of it stands further to the left.
-/

namespace Treewalk

set_option autoImplicit false

open Grammar

/-- The span begins where one of the tokens begins, and ends where one of them ends. -/
structure Span.Spanned (tokens : List Token) (span : Span) : Prop where
  ordered : span.start ≤ span.stop
  begins : ∃ token ∈ tokens, token.span.start = span.start
  ends : ∃ token ∈ tokens, token.span.stop = span.stop

def TokensOrdered (tokens : List Token) : Prop :=
  ∀ token ∈ tokens, token.span.start ≤ token.span.stop

section Spans

variable {tokens more : List Token} {left right : Span}

theorem TokensOrdered.of_subset (ordered : TokensOrdered more) (fewer : tokens ⊆ more) :
    TokensOrdered tokens :=
  fun token found => ordered token (fewer found)

theorem TokensOrdered.spanned {token : Token} (ordered : TokensOrdered tokens)
    (found : token ∈ tokens) : token.span.Spanned tokens :=
  ⟨ordered token found, ⟨token, found, rfl⟩, ⟨token, found, rfl⟩⟩

namespace Span.Spanned

theorem of_subset (spanned : left.Spanned tokens) (fewer : tokens ⊆ more) : left.Spanned more := by
  obtain ⟨ordered, ⟨first, found, start⟩, ⟨last, foundToo, stop⟩⟩ := spanned
  exact ⟨ordered, ⟨first, fewer found, start⟩, ⟨last, fewer foundToo, stop⟩⟩

theorem hull (first : left.Spanned tokens) (second : right.Spanned tokens) :
    (left.hull right).Spanned tokens := by
  refine ⟨?_, ?_, ?_⟩
  · have ordered := first.ordered
    simp only [Span.hull]
    omega
  · rcases Nat.le_total left.start right.start with less | less
    · rw [Span.hull, Nat.min_eq_left less]
      exact first.begins
    · rw [Span.hull, Nat.min_eq_right less]
      exact second.begins
  · rcases Nat.le_total left.stop right.stop with less | less
    · rw [Span.hull, Nat.max_eq_right less]
      exact second.ends
    · rw [Span.hull, Nat.max_eq_left less]
      exact first.ends

end Span.Spanned

end Spans

def HullClosed (place : Span → Prop) : Prop :=
  ∀ {left right : Span}, place left → place right → place (left.hull right)

/-- The tree of the phrase lies between two of the tokens. Arguments have no place of their own. -/
def Grammar.Phrase.Spanned (tokens : List Token) : Phrase → Prop
  | .expression tree => tree.location.Spanned tokens
  | .operation _ tree => tree.location.Spanned tokens
  | .unary tree => tree.location.Spanned tokens
  | .call tree => tree.location.Spanned tokens
  | .primary tree => tree.location.Spanned tokens
  | .arguments _ => True

theorem operand_spanned {tier : Tier} {tree : Expr} {tokens : List Token} :
    (tier.operand tree).Spanned tokens ↔ tree.location.Spanned tokens := by
  cases tier <;> rfl

theorem node_location (tier : Tier) (left right : Expr) (operator : Token) :
    (tier.node left operator right).location = left.location.hull right.location := by
  cases tier <;> rfl

theorem derives_spanned {phrase : Phrase} {tokens : List Token} (derived : Derives phrase tokens)
    (ordered : TokensOrdered tokens) : phrase.Spanned tokens := by
  induction derived with
  | @assign name equals value rest target sign assigned ih =>
      have value := ih (ordered.of_subset (by simp))
      exact (ordered.spanned (by simp)).hull (value.of_subset (by simp))
  | plain whole ih => exact ih ordered
  | operand whole ih => exact operand_spanned.mp (ih ordered)
  | @operator tier left right operator before behind first sign second ihFirst ihSecond =>
      have first := ihFirst (ordered.of_subset (by simp))
      have second := operand_spanned.mp (ihSecond (ordered.of_subset (by simp)))
      show (tier.node left operator right).location.Spanned _
      rw [node_location]
      exact (first.of_subset (by simp)).hull (second.of_subset (by simp))
  | @negation operator operand rest sign negated ih =>
      have operand := ih (ordered.of_subset (by simp))
      exact (ordered.spanned (by simp)).hull (operand.of_subset (by simp))
  | called whole ih => exact ih ordered
  | callee whole ih => exact ih ordered
  | @emptyCall callee before openParen closeParen function opened closed ih =>
      have callee := ih (ordered.of_subset (by simp))
      exact (callee.of_subset (by simp)).hull (ordered.spanned (by simp))
  | @fullCall callee arguments before inside openParen closeParen function opened passed closed
      ihFunction ihPassed =>
      have callee := ihFunction (ordered.of_subset (by simp))
      exact (callee.of_subset (by simp)).hull (ordered.spanned (by simp))
  | lastArgument whole ih => trivial
  | argument first sign others ihFirst ihOthers => trivial
  | constant denoted => exact ordered.spanned (by simp)
  | reference word => exact ordered.spanned (by simp)
  | grouping opened enclosed closed ih =>
      exact (ordered.spanned (by simp)).hull (ordered.spanned (by simp))

namespace Stmt

mutual

/-- Every place that can be reported about the statement has the first property; every exit, by its
place and its line, has the second. -/
def Placed (place : Span → Prop) (exit : Span → Nat → Prop) : Stmt → Prop
  | expression value => place value.location
  | print keyword value => place (keyword.span.hull value.location)
  | declare name initial => place (declare name initial).location ∧ place name.span
  | block body location => place location ∧ AllPlaced place exit body
  | ifThen keyword condition consequent =>
      place (ifThen keyword condition consequent).location ∧ consequent.Placed place exit
  | ifElse keyword condition consequent alternative =>
      place (ifElse keyword condition consequent alternative).location ∧
        consequent.Placed place exit ∧ alternative.Placed place exit
  | loop keyword condition body =>
      place (loop keyword condition body).location ∧
        place (keyword.span.hull condition.location) ∧ body.Placed place exit
  | function name _ body => place name.span ∧ AllPlaced place exit body
  | returnValue keyword value =>
      place (returnValue keyword value).location ∧
        exit (returnValue keyword value).location keyword.line
  | breakLoop keyword => place keyword.span ∧ exit keyword.span keyword.line

def AllPlaced (place : Span → Prop) (exit : Span → Nat → Prop) : List Stmt → Prop
  | [] => True
  | first :: rest => first.Placed place exit ∧ AllPlaced place exit rest

end

variable {place : Span → Prop} {exit : Span → Nat → Prop}

theorem Placed.location {statement : Stmt} (placed : statement.Placed place exit) :
    place statement.location := by
  cases statement with
  | expression value => exact placed
  | print keyword value => exact placed
  | _ => exact placed.1

theorem all_placed_iff {body : List Stmt} :
    AllPlaced place exit body ↔ ∀ statement ∈ body, statement.Placed place exit := by
  induction body with
  | nil => simp [AllPlaced]
  | cons first rest ih => simp [AllPlaced, ih]

end Stmt

/-- An exit with this place and this line begins with one of the words that leave something. -/
def Exits (tokens : List Token) (span : Span) (line : Nat) : Prop :=
  span.Spanned tokens ∧ ∃ keyword ∈ tokens, keyword.kind ∈ [Kind.returnWord, Kind.breakWord] ∧
    keyword.span.start = span.start ∧ keyword.line = line

def Grammar.Sentence.Placed (place : Span → Prop) (exit : Span → Nat → Prop) : Sentence → Prop
  | .statement _ tree => tree.Placed place exit
  | .declaration tree => tree.Placed place exit
  | .declarations trees => Stmt.AllPlaced place exit trees

section Loops

variable {place : Span → Prop} {exit : Span → Nat → Prop} (joined : HullClosed place)

include joined

end Loops

section Derived

variable {all tokens : List Token} (ordered : TokensOrdered all)

include ordered

variable {exit : Span → Nat → Prop}

end Derived

section Formed

variable {all tokens : List Token} (ordered : TokensOrdered all)
  (sorted : all.Pairwise fun token later => token.span.start ≤ later.span.start)

include ordered sorted

end Formed

end Treewalk
