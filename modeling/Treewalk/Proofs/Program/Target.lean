import Treewalk.Proofs.Program.Grammar

/-!
# Targets of assignments

In the tokens of a program an equals sign stands only behind a name, and that name is not the
operand of an operator. To see this, read the tokens from left to right and remember whether the
last one was an operator, a name on its own, or anything else. So whatever operation ends right in
front of an equals sign is one name.
-/

namespace Treewalk.Grammar

set_option autoImplicit false

def operatorKinds : List Kind :=
  [.orWord, .andWord, .bangEqual, .equalEqual, .greater, .greaterEqual, .less, .lessEqual, .minus,
    .plus, .slash, .star, .bang]

inductive Footing where
  | operator
  | name
  | other
deriving DecidableEq

namespace Footing

def step (footing : Footing) (kind : Kind) : Option Footing :=
  if kind = .equal then if footing = name then some other else none
  else if kind = .identifier then some (if footing = operator then other else name)
  else if kind ∈ operatorKinds then some operator
  else some other

def run : Footing → List Token → Option Footing
  | footing, [] => some footing
  | footing, token :: rest => (footing.step token.kind).bind fun next => next.run rest

theorem run_append (footing : Footing) (first second : List Token) :
    footing.run (first ++ second) = (footing.run first).bind fun next => next.run second := by
  induction first generalizing footing with
  | nil => rfl
  | cons token rest ih =>
      simp only [List.cons_append, run, Option.bind_assoc]
      congr 1
      funext next
      exact ih next

theorem run_append_of_run {footing next : Footing} {first second : List Token}
    (read : footing.run first = some next) : footing.run (first ++ second) = next.run second := by
  rw [run_append, read, Option.bind_some]

theorem step_of_operator (footing : Footing) {kind : Kind} (sign : kind ∈ operatorKinds) :
    footing.step kind = some operator := by
  revert kind
  cases footing <;> decide

def isPlain (kind : Kind) : Bool :=
  kind != .equal && kind != .identifier && kind ∉ operatorKinds

theorem step_of_plain (footing : Footing) {kind : Kind} (plain : isPlain kind) :
    footing.step kind = some other := by
  simp only [isPlain, Bool.and_eq_true, bne_iff_ne, decide_eq_true_eq] at plain
  rw [step, if_neg plain.1.1, if_neg plain.1.2, if_neg plain.2]

end Footing

open Footing

/-- The tokens can be read wherever an operand need not follow, and do not end in an operator. -/
def Steady (tokens : List Token) : Prop :=
  ∀ footing, footing ≠ operator → ∃ next, footing.run tokens = some next ∧ next ≠ operator

/-- The tokens can be read anywhere. They end in a name on its own only if they are one. -/
def Firm (tokens : List Token) : Prop :=
  ∀ footing, ∃ next, footing.run tokens = some next ∧ next ≠ operator ∧
    (next = name → footing ≠ operator ∧ ∃ token, tokens = [token] ∧ token.kind = .identifier)

theorem Firm.steady {tokens : List Token} (firm : Firm tokens) : Steady tokens := by
  intro footing _
  obtain ⟨next, read, ended, -⟩ := firm footing
  exact ⟨next, read, ended⟩

theorem steady_nil : Steady [] :=
  fun footing loose => ⟨footing, rfl, loose⟩

theorem steady_append {first second : List Token} (before : Steady first) (behind : Steady second) :
    Steady (first ++ second) := by
  intro footing loose
  obtain ⟨between, readFirst, looseBetween⟩ := before footing loose
  obtain ⟨next, readSecond, ended⟩ := behind between looseBetween
  exact ⟨next, by rw [run_append_of_run readFirst, readSecond], ended⟩

theorem steady_plain {token : Token} {rest : List Token} (plain : isPlain token.kind)
    (behind : Steady rest) : Steady (token :: rest) := by
  intro footing _
  obtain ⟨next, read, ended⟩ := behind other (by decide)
  exact ⟨next, by rw [run, step_of_plain footing plain, Option.bind_some, read], ended⟩

theorem step_identifier {footing : Footing} (loose : footing ≠ operator) :
    footing.step .identifier = some name := by
  simp [step, loose]

theorem steady_name {token : Token} {rest : List Token} (word : token.kind = .identifier)
    (behind : Steady rest) : Steady (token :: rest) := by
  intro footing loose
  obtain ⟨next, read, ended⟩ := behind name (by decide)
  refine ⟨next, ?_, ended⟩
  rw [run, word, step_identifier loose, Option.bind_some, read]

theorem steady_assign {token equals : Token} {rest : List Token}
    (word : token.kind = .identifier) (sign : equals.kind = .equal) (behind : Steady rest) :
    Steady (token :: equals :: rest) := by
  intro footing loose
  obtain ⟨next, read, ended⟩ := behind other (by decide)
  refine ⟨next, ?_, ended⟩
  have accepted : name.step .equal = some other := rfl
  rw [run, word, step_identifier loose, Option.bind_some, run, sign, accepted, Option.bind_some,
    read]

theorem firm_operator {first second : List Token} {sign : Token} (before : Firm first)
    (operates : sign.kind ∈ operatorKinds) (behind : Firm second) :
    Firm (first ++ sign :: second) := by
  intro footing
  obtain ⟨between, readFirst, -⟩ := before footing
  obtain ⟨next, readSecond, ended, named⟩ := behind operator
  refine ⟨next, ?_, ended, fun isName => absurd rfl (named isName).1⟩
  rw [run_append_of_run readFirst, run, step_of_operator between operates, Option.bind_some,
    readSecond]

theorem firm_negation {sign : Token} {rest : List Token} (operates : sign.kind ∈ operatorKinds)
    (behind : Firm rest) : Firm (sign :: rest) := by
  intro footing
  obtain ⟨next, read, ended, named⟩ := behind operator
  refine ⟨next, ?_, ended, fun isName => absurd rfl (named isName).1⟩
  rw [run, step_of_operator footing operates, Option.bind_some, read]

/-- Tokens that end in a plain one behind others that can be read behind a plain one. -/
theorem firm_closed {first inside : List Token} {opening closing : Token}
    (before : ∀ footing : Footing, ∃ next, footing.run first = some next)
    (opens : isPlain opening.kind) (enclosed : Steady inside) (closes : isPlain closing.kind) :
    Firm (first ++ opening :: (inside ++ [closing])) := by
  intro footing
  obtain ⟨between, readFirst⟩ := before footing
  obtain ⟨next, readInside, -⟩ := enclosed other (by decide)
  refine ⟨other, ?_, by decide, by intro same; cases same⟩
  rw [run_append_of_run readFirst, run, step_of_plain between opens, Option.bind_some,
    run_append_of_run readInside, run, step_of_plain next closes, Option.bind_some, run]

def Phrase.Readable : Phrase → List Token → Prop
  | .expression _, tokens => Steady tokens
  | .arguments _, tokens => Steady tokens
  | _, tokens => Firm tokens

theorem Tier.operators_subset (tier : Tier) : tier.operators ⊆ operatorKinds := by
  cases tier <;> decide

theorem Tier.operand_readable {tier : Tier} {tree : Expr} {tokens : List Token} :
    (tier.operand tree).Readable tokens ↔ Firm tokens := by
  cases tier <;> rfl

theorem constant_firm {token : Token} {value : Literal} (denoted : Constant token value) :
    Firm [token] := by
  have plain : isPlain token.kind := by
    cases denoted with
    | trueWord word => rw [word]; rfl
    | falseWord word => rw [word]; rfl
    | nilWord word => rw [word]; rfl
    | number digits read => rw [digits]; rfl
    | string quoted read => rw [quoted]; rfl
  intro footing
  refine ⟨other, ?_, by decide, by intro same; cases same⟩
  rw [run, step_of_plain footing plain, Option.bind_some, run]

theorem reference_firm {token : Token} (word : token.kind = .identifier) : Firm [token] := by
  intro footing
  by_cases tight : footing = operator
  · refine ⟨other, ?_, by decide, by intro same; cases same⟩
    rw [run, word, tight]
    rfl
  · refine ⟨name, ?_, by decide, fun _ => ⟨tight, token, rfl, word⟩⟩
    rw [run, word, step_identifier tight, Option.bind_some, run]

theorem derives_readable {phrase : Phrase} {tokens : List Token} (derived : Derives phrase tokens) :
    phrase.Readable tokens := by
  induction derived with
  | assign target sign assigned ih => exact steady_assign target sign ih
  | plain whole ih => exact Firm.steady ih
  | operand whole ih => exact Tier.operand_readable.mp ih
  | operator first sign second ih ihSecond =>
      exact firm_operator ih (Tier.operators_subset _ sign) (Tier.operand_readable.mp ihSecond)
  | negation sign negated ih =>
      apply firm_negation _ ih
      rcases sign with sign | sign <;> rw [sign] <;> decide
  | called whole ih => exact ih
  | callee whole ih => exact ih
  | emptyCall function opened closed ih =>
      apply firm_closed _ (by rw [opened]; rfl) steady_nil (by rw [closed]; rfl)
      intro footing
      obtain ⟨next, read, -⟩ := ih footing
      exact ⟨next, read⟩
  | fullCall function opened passed closed ih ihPassed =>
      apply firm_closed _ (by rw [opened]; rfl) ihPassed (by rw [closed]; rfl)
      intro footing
      obtain ⟨next, read, -⟩ := ih footing
      exact ⟨next, read⟩
  | lastArgument whole ih => exact ih
  | argument first sign others ih ihOthers =>
      exact steady_append ih (steady_plain (by rw [sign]; rfl) ihOthers)
  | constant denoted => exact constant_firm denoted
  | reference word => exact reference_firm word
  | grouping opened enclosed closed ih =>
      apply @firm_closed [] _ _ _ (fun footing => ⟨footing, rfl⟩) (by rw [opened]; rfl) ih
        (by rw [closed]; rfl)

theorem optional_steady {found : Option Expr} {tokens : List Token}
    (optional : Optional found tokens) : Steady tokens := by
  cases optional with
  | absent => exact steady_nil
  | present whole => exact derives_readable whole

theorem variable_declaration_steady {tree : Stmt} {tokens : List Token}
    (formed : VariableDeclaration tree tokens) : Steady tokens := by
  cases formed with
  | bare word named ended =>
      apply steady_plain (by rw [word]; rfl)
      exact steady_name named (steady_plain (by rw [ended]; rfl) steady_nil)
  | initialized word named sign initial ended =>
      apply steady_plain (by rw [word]; rfl)
      apply steady_assign named sign
      exact steady_append (derives_readable initial) (steady_plain (by rw [ended]; rfl) steady_nil)

theorem expression_statement_steady {tree : Stmt} {tokens : List Token}
    (formed : ExpressionStatement tree tokens) : Steady tokens := by
  cases formed with
  | intro whole ended =>
      exact steady_append (derives_readable whole) (steady_plain (by rw [ended]; rfl) steady_nil)

theorem initial_steady {found : Option Stmt} {tokens : List Token}
    (initial : Initial found tokens) : Steady tokens := by
  cases initial with
  | absent ended => exact steady_plain (by rw [ended]; rfl) steady_nil
  | declared whole => exact variable_declaration_steady whole
  | expression whole => exact expression_statement_steady whole

theorem names_steady {names tokens : List Token} (listed : Names names tokens) : Steady tokens := by
  induction listed with
  | last word => exact steady_name word steady_nil
  | more word sign others ih => exact steady_name word (steady_plain (by rw [sign]; rfl) ih)

theorem parameters_steady {names tokens : List Token} (listed : Parameters names tokens) :
    Steady tokens := by
  cases listed with
  | none => exact steady_nil
  | some whole => exact names_steady whole

theorem forms_steady {sentence : Sentence} {tokens : List Token} (formed : Forms sentence tokens) :
    Steady tokens := by
  induction formed with
  | expression whole => exact expression_statement_steady whole
  | print word shown ended =>
      apply steady_plain (by rw [word]; rfl)
      exact steady_append (derives_readable shown) (steady_plain (by rw [ended]; rfl) steady_nil)
  | returnValue word result ended =>
      apply steady_plain (by rw [word]; rfl)
      exact steady_append (optional_steady result) (steady_plain (by rw [ended]; rfl) steady_nil)
  | breakLoop word ended =>
      apply steady_plain (by rw [word]; rfl)
      exact steady_plain (by rw [ended]; rfl) steady_nil
  | block opened enclosed closed ih =>
      apply steady_plain (by rw [opened]; rfl)
      exact steady_append ih (steady_plain (by rw [closed]; rfl) steady_nil)
  | function word named opened head closed begun enclosed ended ih =>
      apply steady_plain (by rw [word]; rfl)
      apply steady_name named
      apply steady_plain (by rw [opened]; rfl)
      apply steady_append (parameters_steady head)
      apply steady_plain (by rw [closed]; rfl)
      apply steady_plain (by rw [begun]; rfl)
      exact steady_append ih (steady_plain (by rw [ended]; rfl) steady_nil)
  | ifThen word opened test closed first ih =>
      apply steady_plain (by rw [word]; rfl)
      apply steady_plain (by rw [opened]; rfl)
      exact steady_append (derives_readable test) (steady_plain (by rw [closed]; rfl) ih)
  | ifElse word opened test closed first divided second ih ihSecond =>
      apply steady_plain (by rw [word]; rfl)
      apply steady_plain (by rw [opened]; rfl)
      apply steady_append (derives_readable test)
      apply steady_plain (by rw [closed]; rfl)
      exact steady_append ih (steady_plain (by rw [divided]; rfl) ihSecond)
  | whileLoop word opened test closed inner ih =>
      apply steady_plain (by rw [word]; rfl)
      apply steady_plain (by rw [opened]; rfl)
      exact steady_append (derives_readable test) (steady_plain (by rw [closed]; rfl) ih)
  | forLoop word opened start test divided step closed inner ih =>
      apply steady_plain (by rw [word]; rfl)
      apply steady_plain (by rw [opened]; rfl)
      apply steady_append (initial_steady start)
      apply steady_append (optional_steady test)
      apply steady_plain (by rw [divided]; rfl)
      exact steady_append (optional_steady step) (steady_plain (by rw [closed]; rfl) ih)
  | declared whole => exact variable_declaration_steady whole
  | statement whole ih => exact ih
  | none => exact steady_nil
  | more first others ih ihOthers => exact steady_append ih ihOthers

/-- An operation that ends right in front of an equals sign of a program is one name. -/
theorem target_is_name {tokens : List Token} {program : Treewalk.Program} {left : Expr}
    {before target behind : List Token} {equals : Token} (derived : Program tokens program)
    (found : tokens = before ++ (target ++ equals :: behind)) (sign : equals.kind = .equal)
    (operation : Derives (.operation .disjunction left) target) :
    ∃ name, target = [name] ∧ name.kind = .identifier := by
  have steady : Steady tokens := by
    cases derived with
    | intro whole ended =>
        exact steady_append (forms_steady whole) (steady_plain (by rw [ended]; rfl) steady_nil)
  obtain ⟨last, read, -⟩ := steady other (by decide)
  rw [found, run_append, Option.bind_eq_some_iff] at read
  obtain ⟨footing, -, read⟩ := read
  obtain ⟨next, readTarget, -, named⟩ := derives_readable operation footing
  rw [run_append_of_run readTarget, run, sign, Option.bind_eq_some_iff] at read
  obtain ⟨behindSign, accepted, -⟩ := read
  cases next with
  | name => exact (named rfl).2
  | operator => cases accepted
  | other => cases accepted

end Treewalk.Grammar
