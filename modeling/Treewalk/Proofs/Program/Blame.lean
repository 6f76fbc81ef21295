import Treewalk.Evaluation
import Treewalk.Proofs.Program.Meaning

/-!
# Which errors a program can raise

Every error of a running program is raised by one node of a tree, at the operator, the closing
parenthesis or the name that the node keeps. `CanRaise` lists the errors of a tree, those of the
functions that it declares included. In a parsed program they stand at tokens of its text, of a kind
that goes with the cause.
-/

namespace Treewalk

set_option autoImplicit false

open Grammar

namespace RuntimeCause

inductive OfCall : RuntimeCause → Prop where
  | notCallable : OfCall .notCallable
  | arityMismatch (expected got : Nat) : OfCall (.arityMismatch expected got)
  | stackOverflow : OfCall .stackOverflow

end RuntimeCause

namespace RuntimeError

/-- The token at which the error is raised is one that goes with the cause: the name that is not
bound, the operator whose operands do not fit, or the parenthesis that closes the call. -/
def Apt (error : RuntimeError) : Prop :=
  match error.cause with
  | .undefinedVariable name => error.site.kind = .identifier ∧ error.site.lexeme = name
  | .operandMustBeNumber => error.site.kind = .minus
  | .operandsMustBeNumbers =>
      error.site.kind ∈ [Kind.greater, .greaterEqual, .less, .lessEqual, .minus, .slash, .star]
  | .invalidAddition => error.site.kind = .plus
  | .divisionByZero => error.site.kind = .slash
  | .notCallable => error.site.kind = .rightParen
  | .arityMismatch _ _ => error.site.kind = .rightParen
  | .stackOverflow => error.site.kind = .rightParen

def unbound (name : Token) : RuntimeError :=
  ⟨.undefinedVariable name.lexeme, name⟩

theorem apt_unbound {name : Token} (word : name.kind = .identifier) : (unbound name).Apt :=
  ⟨word, rfl⟩

theorem apt_of_call {error : RuntimeError} (cause : error.cause.OfCall)
    (closed : error.site.kind = .rightParen) : error.Apt := by
  obtain ⟨cause_, site⟩ := error
  cases cause <;> exact closed

theorem apt_of_unary {error : RuntimeError} {operand : Value}
    (sign : error.site.kind = .bang ∨ error.site.kind = .minus)
    (failed : applyUnary error.site.kind operand = .error error.cause) : error.Apt := by
  obtain ⟨cause, site⟩ := error
  dsimp only at sign failed
  rcases sign with sign | sign
  · rw [sign] at failed
    cases failed
  · rw [sign] at failed
    unfold applyUnary at failed
    split at failed
    · cases failed
    · split at failed
      · cases failed
      · injection failed with isCause
        subst isCause
        exact sign

theorem apply_plus_error {left right : Value} {cause : RuntimeCause}
    (failed : applyPlus left right = .error cause) : cause = .invalidAddition := by
  unfold applyPlus at failed
  split at failed
  all_goals cases failed
  rfl

theorem apply_numeric_error {operator : Kind} {left right : Float} {cause : RuntimeCause}
    (failed : applyNumeric operator left right = .error cause) :
    operator = .slash ∧ cause = .divisionByZero := by
  unfold applyNumeric at failed
  split at failed
  case h_3 =>
    split at failed
    · cases failed
      exact ⟨rfl, rfl⟩
    · cases failed
  all_goals cases failed

theorem apt_of_binary {error : RuntimeError} {left right : Value}
    (sign : error.site.kind ∈ binaryKinds)
    (failed : applyBinary error.site.kind left right = .error error.cause) : error.Apt := by
  obtain ⟨cause, site⟩ := error
  dsimp only at sign failed
  unfold applyBinary at failed
  split at failed
  · cases failed
  · cases failed
  · rename_i isPlus
    rw [apply_plus_error failed]
    exact isPlus
  · rename_i notEqual notUnequal notPlus
    split at failed
    · obtain ⟨isSlash, isCause⟩ := apply_numeric_error failed
      rw [isCause]
      exact isSlash
    · injection failed with isCause
      subst isCause
      simp only [binaryKinds, List.mem_cons, List.not_mem_nil, or_false] at sign
      simp only [Apt, List.mem_cons, List.not_mem_nil, or_false]
      simp_all

end RuntimeError

namespace Expr

mutual

def CanRaise (error : RuntimeError) : Expr → Prop
  | literal _ _ _ => False
  | grouping inner _ => inner.CanRaise error
  | unary operator operand =>
      (error.site = operator ∧ ∃ value, applyUnary operator.kind value = .error error.cause) ∨
        operand.CanRaise error
  | binary left operator right =>
      (error.site = operator ∧
        ∃ first second, applyBinary operator.kind first second = .error error.cause) ∨
        left.CanRaise error ∨ right.CanRaise error
  | logical left _ right => left.CanRaise error ∨ right.CanRaise error
  | reference name => error = RuntimeError.unbound name
  | assign name value => error = RuntimeError.unbound name ∨ value.CanRaise error
  | call callee paren arguments =>
      (error.site = paren ∧ error.cause.OfCall) ∨ callee.CanRaise error ∨
        AnyCanRaise error arguments

def AnyCanRaise (error : RuntimeError) : List Expr → Prop
  | [] => False
  | first :: rest => first.CanRaise error ∨ AnyCanRaise error rest

end

def OptionCanRaise (error : RuntimeError) : Option Expr → Prop
  | none => False
  | some expression => expression.CanRaise error

end Expr

namespace Stmt

mutual

/-- A node of the statement, or of a function that it declares, can raise the error. -/
def CanRaise (error : RuntimeError) : Stmt → Prop
  | expression value => value.CanRaise error
  | print _ value => value.CanRaise error
  | declare _ initial => Expr.OptionCanRaise error initial
  | block body _ => AnyCanRaise error body
  | ifThen _ condition consequent => condition.CanRaise error ∨ consequent.CanRaise error
  | ifElse _ condition consequent alternative =>
      condition.CanRaise error ∨ consequent.CanRaise error ∨ alternative.CanRaise error
  | loop _ condition body => condition.CanRaise error ∨ body.CanRaise error
  | function _ _ body => AnyCanRaise error body
  | returnValue _ value => Expr.OptionCanRaise error value
  | breakLoop _ => False

/-- A node of one of the statements, or of a function that they declare, can raise the error. -/
def AnyCanRaise (error : RuntimeError) : List Stmt → Prop
  | [] => False
  | first :: rest => first.CanRaise error ∨ AnyCanRaise error rest

end

end Stmt

def FunctionDecl.CanRaise (error : RuntimeError) (declaration : FunctionDecl) : Prop :=
  Stmt.AnyCanRaise error declaration.body

/-- The error stands at one of the tokens, and that token goes with its cause. -/
structure RuntimeError.Among (tokens : List Token) (error : RuntimeError) : Prop where
  apt : error.Apt
  site : error.site ∈ tokens

theorem RuntimeError.Among.of_subset {error : RuntimeError} {tokens more : List Token}
    (among : error.Among tokens) (inside : tokens ⊆ more) : error.Among more :=
  ⟨among.apt, inside among.site⟩

def Grammar.Phrase.CanRaise (error : RuntimeError) : Phrase → Prop
  | .expression tree => tree.CanRaise error
  | .operation _ tree => tree.CanRaise error
  | .unary tree => tree.CanRaise error
  | .call tree => tree.CanRaise error
  | .primary tree => tree.CanRaise error
  | .arguments trees => Expr.AnyCanRaise error trees

section Derived

variable {error : RuntimeError}

theorem operand_can_raise {tier : Tier} {tree : Expr} :
    (tier.operand tree).CanRaise error ↔ tree.CanRaise error := by
  cases tier <;> rfl

theorem node_can_raise {tier : Tier} {left right : Expr} {operator : Token}
    (sign : operator.kind ∈ tier.operators)
    (raises : (tier.node left operator right).CanRaise error) :
    (error.Apt ∧ error.site = operator) ∨ left.CanRaise error ∨ right.CanRaise error := by
  have binary : operator.kind ∈ binaryKinds → (Expr.binary left operator right).CanRaise error →
      (error.Apt ∧ error.site = operator) ∨ left.CanRaise error ∨ right.CanRaise error := by
    rintro meaningful (⟨same, first, second, failed⟩ | inside)
    · subst same
      exact .inl ⟨RuntimeError.apt_of_binary meaningful failed, rfl⟩
    · exact .inr inside
  have known : operator.kind ∈ tier.operators → tier ∉ [Tier.disjunction, .conjunction] →
      operator.kind ∈ binaryKinds := by
    generalize operator.kind = kind
    revert kind
    cases tier <;> decide
  cases tier with
  | disjunction => exact .inr raises
  | conjunction => exact .inr raises
  | equality => exact binary (known sign (by decide)) raises
  | comparison => exact binary (known sign (by decide)) raises
  | term => exact binary (known sign (by decide)) raises
  | factor => exact binary (known sign (by decide)) raises

theorem derives_among {phrase : Phrase} {tokens : List Token} (derived : Derives phrase tokens)
    (raises : phrase.CanRaise error) : error.Among tokens := by
  induction derived with
  | assign target sign assigned ih =>
      rcases raises with rfl | inside
      · exact ⟨RuntimeError.apt_unbound target, List.mem_cons_self⟩
      · exact (ih inside).of_subset fun token found =>
          List.mem_cons_of_mem _ (List.mem_cons_of_mem _ found)
  | plain whole ih => exact ih raises
  | operand whole ih => exact ih (operand_can_raise.mpr raises)
  | operator first sign second ihFirst ihSecond =>
      rcases node_can_raise sign raises with ⟨apt, site⟩ | inside | inside
      · exact ⟨apt, by simp [site]⟩
      · exact (ihFirst inside).of_subset (by simp)
      · exact (ihSecond (operand_can_raise.mpr inside)).of_subset (by simp)
  | negation sign negated ih =>
      rcases raises with ⟨same, operand, failed⟩ | inside
      · subst same
        exact ⟨RuntimeError.apt_of_unary sign failed, List.mem_cons_self⟩
      · exact (ih inside).of_subset (by simp)
  | called whole ih => exact ih raises
  | callee whole ih => exact ih raises
  | emptyCall function opened closed ih =>
      rcases raises with ⟨same, cause⟩ | inside | inside
      · subst same
        exact ⟨RuntimeError.apt_of_call cause closed, by simp⟩
      · exact (ih inside).of_subset (by simp)
      · exact inside.elim
  | fullCall function opened passed closed ihFunction ihPassed =>
      rcases raises with ⟨same, cause⟩ | inside | inside
      · subst same
        exact ⟨RuntimeError.apt_of_call cause closed, by simp⟩
      · exact (ihFunction inside).of_subset (by simp)
      · exact (ihPassed inside).of_subset fun token found => by simp [found]
  | lastArgument whole ih =>
      rcases raises with inside | inside
      · exact ih inside
      · exact inside.elim
  | argument first sign others ihFirst ihOthers =>
      rcases raises with inside | inside
      · exact (ihFirst inside).of_subset (by simp)
      · exact (ihOthers inside).of_subset fun token found => by simp [found]
  | constant denoted => exact raises.elim
  | reference word =>
      have same : error = RuntimeError.unbound _ := raises
      subst same
      exact ⟨RuntimeError.apt_unbound word, List.mem_cons_self⟩
  | grouping opened enclosed closed ih =>
      exact (ih raises).of_subset fun token found => by simp [found]

theorem optional_among {value : Option Expr} {tokens : List Token} (derived : Optional value tokens)
    (raises : Expr.OptionCanRaise error value) : error.Among tokens := by
  cases derived with
  | absent => exact raises.elim
  | present whole => exact derives_among whole raises

theorem variable_declaration_among {tree : Stmt} {tokens : List Token}
    (declared : VariableDeclaration tree tokens) (raises : tree.CanRaise error) :
    error.Among tokens := by
  cases declared with
  | bare word named ended => exact raises.elim
  | initialized word named sign initial ended =>
      exact (derives_among initial raises).of_subset fun token found => by simp [found]

theorem expression_statement_among {tree : Stmt} {tokens : List Token}
    (formed : ExpressionStatement tree tokens) (raises : tree.CanRaise error) :
    error.Among tokens := by
  cases formed with
  | intro whole ended => exact (derives_among whole raises).of_subset (by simp)

theorem initial_among {initial : Option Stmt} {tokens : List Token} (start : Initial initial tokens)
    {first : Stmt} (found : initial = some first) (raises : first.CanRaise error) :
    error.Among tokens := by
  cases start with
  | absent ended => cases found
  | declared whole =>
      cases found
      exact variable_declaration_among whole raises
  | expression whole =>
      cases found
      exact expression_statement_among whole raises

/-- What a `for` stands for raises the errors of its clauses and of its body. -/
theorem while_form_can_raise {keyword : Token} {initial : Option Stmt}
    {condition increment : Option Expr} {body : Stmt}
    (raises : (whileForm keyword initial condition increment body).CanRaise error) :
    (∃ first, initial = some first ∧ first.CanRaise error) ∨ Expr.OptionCanRaise error condition ∨
      Expr.OptionCanRaise error increment ∨ body.CanRaise error := by
  have guarded :
      (guard keyword condition).CanRaise error → Expr.OptionCanRaise error condition := by
    cases condition with
    | none => exact id
    | some condition => exact id
  have repeated : (stepped body increment).CanRaise error →
      Expr.OptionCanRaise error increment ∨ body.CanRaise error := by
    cases increment with
    | none => exact .inr
    | some increment =>
        rintro (inside | inside | inside)
        · exact .inr inside
        · exact .inl inside
        · exact inside.elim
  have looped : (Stmt.loop keyword (guard keyword condition) (stepped body increment)).CanRaise
      error → Expr.OptionCanRaise error condition ∨ Expr.OptionCanRaise error increment ∨
        body.CanRaise error := by
    rintro (inside | inside)
    · exact .inl (guarded inside)
    · exact .inr (repeated inside)
  cases initial with
  | none => exact .inr (looped raises)
  | some first =>
      rcases raises with inside | inside | inside
      · exact .inl ⟨first, rfl, inside⟩
      · exact .inr (looped inside)
      · exact inside.elim

def Grammar.Sentence.CanRaise (error : RuntimeError) : Sentence → Prop
  | .statement _ tree => tree.CanRaise error
  | .declaration tree => tree.CanRaise error
  | .declarations trees => Stmt.AnyCanRaise error trees

theorem forms_among {sentence : Sentence} {tokens : List Token} (formed : Forms sentence tokens)
    (raises : sentence.CanRaise error) : error.Among tokens := by
  induction formed with
  | expression whole => exact expression_statement_among whole raises
  | print word shown ended =>
      exact (derives_among shown raises).of_subset fun token found => by simp [found]
  | returnValue word result ended =>
      exact (optional_among result raises).of_subset fun token found => by simp [found]
  | breakLoop word ended => exact raises.elim
  | block opened enclosed closed ih =>
      exact (ih raises).of_subset fun token found => by simp [found]
  | function word named opened head closed begun enclosed ended ih =>
      exact (ih raises).of_subset fun token found => by simp [found]
  | ifThen word opened test closed first ih =>
      rcases raises with inside | inside
      · exact (derives_among test inside).of_subset fun token found => by simp [found]
      · exact (ih inside).of_subset fun token found => by simp [found]
  | ifElse word opened test closed first divided second ihFirst ihSecond =>
      rcases raises with inside | inside | inside
      · exact (derives_among test inside).of_subset fun token found => by simp [found]
      · exact (ihFirst inside).of_subset fun token found => by simp [found]
      · exact (ihSecond inside).of_subset fun token found => by simp [found]
  | whileLoop word opened test closed inner ih =>
      rcases raises with inside | inside
      · exact (derives_among test inside).of_subset fun token found => by simp [found]
      · exact (ih inside).of_subset fun token found => by simp [found]
  | forLoop word opened start test divided step closed inner ih =>
      rcases while_form_can_raise raises with ⟨first, isFirst, inside⟩ | inside | inside | inside
      · exact (initial_among start isFirst inside).of_subset fun token found => by simp [found]
      · exact (optional_among test inside).of_subset fun token found => by simp [found]
      · exact (optional_among step inside).of_subset fun token found => by simp [found]
      · exact (ih inside).of_subset fun token found => by simp [found]
  | declared whole => exact variable_declaration_among whole raises
  | statement whole ih => exact ih raises
  | none => exact raises.elim
  | more first others ihFirst ihOthers =>
      rcases raises with inside | inside
      · exact (ihFirst inside).of_subset (by simp)
      · exact (ihOthers inside).of_subset (by simp)

theorem parse_among {source : String} {program : Program} (parsed : parse source = .ok program)
    (raises : Stmt.AnyCanRaise error program) :
    error.Among (Scanned.ofSource source).tokens := by
  obtain ⟨tokens, lexed, derived⟩ := parse_ok_iff.mp parsed
  cases derived with
  | intro whole ended =>
      obtain ⟨-, scanned⟩ := scan_ok_iff.mp lexed
      obtain ⟨same, -⟩ := List.append_inj' scanned rfl
      rw [same]
      exact forms_among whole raises

end Derived

end Treewalk
