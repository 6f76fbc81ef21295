import Treewalk.Proofs.Program.Acceptance

/-!
# Operators of a parsed program

The evaluator gives a meaning to some kinds of operators only. In a program that comes from the
parser every operator has one of these kinds, in function bodies as well.
-/

namespace Treewalk

set_option autoImplicit false

open Grammar

def binaryKinds : List Kind :=
  [.bangEqual, .equalEqual, .greater, .greaterEqual, .less, .lessEqual, .minus, .plus, .slash,
    .star]

namespace Expr

mutual

def Meaningful : Expr → Prop
  | literal _ _ _ => True
  | grouping inner _ => inner.Meaningful
  | unary operator operand => operator.kind ∈ [Kind.bang, Kind.minus] ∧ operand.Meaningful
  | binary left operator right =>
      operator.kind ∈ binaryKinds ∧ left.Meaningful ∧ right.Meaningful
  | logical left operator right =>
      operator.kind ∈ [Kind.orWord, Kind.andWord] ∧ left.Meaningful ∧ right.Meaningful
  | reference _ => True
  | assign _ value => value.Meaningful
  | call callee _ arguments => callee.Meaningful ∧ AllMeaningful arguments

def AllMeaningful : List Expr → Prop
  | [] => True
  | first :: rest => first.Meaningful ∧ AllMeaningful rest

end

def OptionMeaningful : Option Expr → Prop
  | none => True
  | some expression => expression.Meaningful

end Expr

namespace Stmt

mutual

def Meaningful : Stmt → Prop
  | expression value => value.Meaningful
  | print _ value => value.Meaningful
  | declare _ initial => Expr.OptionMeaningful initial
  | block body _ => AllMeaningful body
  | ifThen _ condition consequent => condition.Meaningful ∧ consequent.Meaningful
  | ifElse _ condition consequent alternative =>
      condition.Meaningful ∧ consequent.Meaningful ∧ alternative.Meaningful
  | loop _ condition body => condition.Meaningful ∧ body.Meaningful
  | function _ _ body => AllMeaningful body
  | returnValue _ value => Expr.OptionMeaningful value
  | breakLoop _ => True

def AllMeaningful : List Stmt → Prop
  | [] => True
  | first :: rest => first.Meaningful ∧ AllMeaningful rest

end

end Stmt

def Grammar.Phrase.Meaningful : Phrase → Prop
  | .expression tree => tree.Meaningful
  | .operation _ tree => tree.Meaningful
  | .unary tree => tree.Meaningful
  | .call tree => tree.Meaningful
  | .primary tree => tree.Meaningful
  | .arguments trees => Expr.AllMeaningful trees

theorem operand_meaningful {tier : Tier} {tree : Expr} :
    (tier.operand tree).Meaningful ↔ tree.Meaningful := by
  cases tier <;> rfl

theorem node_meaningful {tier : Tier} {left right : Expr} {operator : Token}
    (sign : operator.kind ∈ tier.operators) (first : left.Meaningful) (second : right.Meaningful) :
    (tier.node left operator right).Meaningful := by
  cases tier
  all_goals refine ⟨?_, first, second⟩
  all_goals
    revert sign
    generalize operator.kind = kind
    revert kind
    decide

theorem derives_meaningful {phrase : Phrase} {tokens : List Token}
    (derived : Derives phrase tokens) : phrase.Meaningful := by
  induction derived with
  | assign target sign assigned ih => exact ih
  | plain whole ih => exact ih
  | operand whole ih => exact operand_meaningful.mp ih
  | operator first sign second ih ihSecond =>
      exact node_meaningful sign ih (operand_meaningful.mp ihSecond)
  | negation sign negated ih => exact ⟨by simpa using sign, ih⟩
  | called whole ih => exact ih
  | callee whole ih => exact ih
  | emptyCall function opened closed ih => exact ⟨ih, trivial⟩
  | fullCall function opened passed closed ih ihPassed => exact ⟨ih, ihPassed⟩
  | lastArgument whole ih => exact ⟨ih, trivial⟩
  | argument first sign others ih ihOthers => exact ⟨ih, ihOthers⟩
  | constant denoted => trivial
  | reference word => trivial
  | grouping opened enclosed closed ih => exact ih

theorem optional_meaningful {found : Option Expr} {tokens : List Token}
    (optional : Optional found tokens) : Expr.OptionMeaningful found := by
  cases optional with
  | absent => trivial
  | present whole => exact derives_meaningful whole

theorem variable_declaration_meaningful {tree : Stmt} {tokens : List Token}
    (formed : VariableDeclaration tree tokens) : tree.Meaningful := by
  cases formed with
  | bare word named ended => trivial
  | initialized word named sign initial ended => exact derives_meaningful initial

theorem expression_statement_meaningful {tree : Stmt} {tokens : List Token}
    (formed : ExpressionStatement tree tokens) : tree.Meaningful := by
  cases formed with
  | intro whole ended => exact derives_meaningful whole

theorem while_form_meaningful {keyword : Token} {initial : Option Stmt}
    {condition increment : Option Expr} {body : Stmt}
    (start : ∀ first ∈ initial, first.Meaningful) (test : Expr.OptionMeaningful condition)
    (step : Expr.OptionMeaningful increment) (inner : body.Meaningful) :
    (whileForm keyword initial condition increment body).Meaningful := by
  have guarded : (guard keyword condition).Meaningful := by
    cases condition with
    | none => trivial
    | some condition => exact test
  have repeated : (stepped body increment).Meaningful := by
    cases increment with
    | none => exact inner
    | some increment => exact ⟨inner, step, trivial⟩
  cases initial with
  | none => exact ⟨guarded, repeated⟩
  | some first => exact ⟨start first rfl, ⟨guarded, repeated⟩, trivial⟩

theorem initial_meaningful {initial : Option Stmt} {tokens : List Token}
    (formed : Initial initial tokens) : ∀ first ∈ initial, first.Meaningful := by
  rintro first found
  cases formed with
  | absent ended => cases found
  | declared whole =>
      cases found
      exact variable_declaration_meaningful whole
  | expression whole =>
      cases found
      exact expression_statement_meaningful whole

def Grammar.Sentence.Meaningful : Sentence → Prop
  | .statement _ tree => tree.Meaningful
  | .declaration tree => tree.Meaningful
  | .declarations trees => Stmt.AllMeaningful trees

theorem forms_meaningful {sentence : Sentence} {tokens : List Token}
    (formed : Forms sentence tokens) : sentence.Meaningful := by
  induction formed with
  | expression whole => exact expression_statement_meaningful whole
  | print word shown ended => exact derives_meaningful shown
  | returnValue word result ended => exact optional_meaningful result
  | breakLoop word ended => trivial
  | block opened enclosed closed ih => exact ih
  | function word named opened head closed begun enclosed ended ih => exact ih
  | ifThen word opened test closed first ih => exact ⟨derives_meaningful test, ih⟩
  | ifElse word opened test closed first divided second ih ihSecond =>
      exact ⟨derives_meaningful test, ih, ihSecond⟩
  | whileLoop word opened test closed inner ih => exact ⟨derives_meaningful test, ih⟩
  | forLoop word opened start test divided step closed inner ih =>
      exact while_form_meaningful (initial_meaningful start) (optional_meaningful test)
        (optional_meaningful step) ih
  | declared whole => exact variable_declaration_meaningful whole
  | statement whole ih => exact ih
  | none => trivial
  | more first others ih ihOthers => exact ⟨ih, ihOthers⟩

theorem meaningful_of_parse {source : String} {program : Program}
    (parsed : parse source = .ok program) : Stmt.AllMeaningful program := by
  obtain ⟨tokens, -, derived⟩ := parse_ok_iff.mp parsed
  cases derived with
  | intro whole ended => exact forms_meaningful whole

end Treewalk
