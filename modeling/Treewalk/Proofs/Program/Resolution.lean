import Treewalk.Check.Usage
import Treewalk.Proofs.Program.Occurrence
import Treewalk.Proofs.Program.Variables

/-!
# What a name means in the text of a program

For the meaning of names, a program is a list of what is mentioned in it: scopes that are opened and
closed again, variables that are declared, and names that are read. A read name means the latest
declaration of it in the innermost open scope that has one. Where something stands is told by its
place in the list, and a scope is named by the place where it was opened.
-/

namespace Treewalk

set_option autoImplicit false

/-- What can be mentioned. Parameters, functions and the targets of assignments are not. -/
inductive Mention where
  | opens
  | closes
  | declares (name : Token)
  | reads (name : String)
deriving Inhabited

namespace Expr

def mention? : Expr → Option Mention
  | reference name => some (.reads name.lexeme)
  | _ => none

def mentions (expression : Expr) : List Mention :=
  expression.parts.filterMap mention?

mutual

theorem mentions_eq (expression : Expr) : expression.mentions = expression.reads.map .reads := by
  cases expression with
  | literal value line location => rfl
  | grouping inner location => exact mentions_eq inner
  | unary operator operand => exact mentions_eq operand
  | binary left operator right =>
      rw [mentions, parts, List.filterMap_cons_none rfl, List.filterMap_append, reads,
        List.map_append, ← mentions_eq left, ← mentions_eq right]
      rfl
  | logical left operator right =>
      rw [mentions, parts, List.filterMap_cons_none rfl, List.filterMap_append, reads,
        List.map_append, ← mentions_eq left, ← mentions_eq right]
      rfl
  | reference name => rfl
  | assign name value => exact mentions_eq value
  | call callee paren arguments =>
      rw [mentions, parts, List.filterMap_cons_none rfl, List.filterMap_append, reads,
        List.map_append, ← mentions_eq callee, ← mentions_in_eq arguments]
      rfl

theorem mentions_in_eq (arguments : List Expr) :
    (partsIn arguments).filterMap mention? = (argumentReads arguments).map .reads := by
  cases arguments with
  | nil => rfl
  | cons first rest =>
      rw [partsIn, List.filterMap_append, argumentReads, List.map_append, ← mentions_eq first,
        ← mentions_in_eq rest]
      rfl

end

end Expr

namespace Stmt

mutual

/-- What a statement mentions, in the order in which it is gone through: a variable is declared
behind its initial value, a block and the body of a function are scopes. -/
def mentions : Stmt → List Mention
  | expression value => value.mentions
  | print _ value => value.mentions
  | declare name (some initial) => initial.mentions ++ [.declares name]
  | declare name none => [.declares name]
  | block body _ => .opens :: (mentionsIn body ++ [.closes])
  | ifThen _ condition consequent => condition.mentions ++ consequent.mentions
  | ifElse _ condition consequent alternative =>
      condition.mentions ++ (consequent.mentions ++ alternative.mentions)
  | loop _ condition body => condition.mentions ++ body.mentions
  | function _ _ body => .opens :: (mentionsIn body ++ [.closes])
  | returnValue _ (some value) => value.mentions
  | returnValue _ none => []
  | breakLoop _ => []

def mentionsIn : List Stmt → List Mention
  | [] => []
  | first :: rest => first.mentions ++ mentionsIn rest

end

end Stmt

namespace Mention

section Definitions

variable (text : List Mention)

def openAt : Nat → List Nat
  | 0 => []
  | place + 1 =>
      match text[place]? with
      | some .opens => place :: openAt place
      | some .closes => (openAt place).tail
      | _ => openAt place

def declared? (scope place : Nat) : Option String :=
  match text[place]? with
  | some (.declares name) =>
      if (openAt text place).head? = some scope then some name.lexeme else none
  | _ => none

/-- The latest declaration of a name in a scope, among those in front of a place. -/
def latest? (scope : Nat) (name : String) : Nat → Option Nat
  | 0 => none
  | place + 1 =>
      if declared? text scope place = some name then some place else latest? scope name place

/-- The declaration that a name means which is read at a place. -/
def target? (place : Nat) : Option Nat :=
  match text[place]? with
  | some (.reads name) => (openAt text place).findSome? fun scope => latest? text scope name place
  | _ => none

/-- The declaration is meant by something that is read in front of a place. -/
def isRead (bound declaration : Nat) : Bool :=
  (List.range bound).any fun place => target? text place = some declaration

/-- The variable that is declared at a place, if that is in some scope. -/
def local? (place : Nat) : Option Token :=
  match text[place]? with
  | some (.declares name) => if openAt text place = [] then none else some name
  | _ => none

/-- The variables in scopes that no read name means, as they are declared. -/
def unread : List Token :=
  ((List.range text.length).filter fun place => !isRead text text.length place).filterMap
    (local? text)

end Definitions

section Scopes

variable {text : List Mention} {place bound scope : Nat} {name : String}

/-- A scope is opened in front of the places where it is open, and an outer one in front of an inner
one. -/
theorem open_at_lt : ∀ scope ∈ openAt text place, scope < place := by
  induction place with
  | zero => exact nofun
  | succ place ih =>
      intro scope inside
      rw [openAt] at inside
      split at inside
      · rcases List.mem_cons.mp inside with rfl | outer
        · exact Nat.lt_succ_self _
        · exact Nat.lt_succ_of_lt (ih scope outer)
      · exact Nat.lt_succ_of_lt (ih scope (List.mem_of_mem_tail inside))
      · exact Nat.lt_succ_of_lt (ih scope inside)

theorem open_at_nodup : (openAt text place).Nodup := by
  induction place with
  | zero => exact .nil
  | succ place ih =>
      rw [openAt]
      split
      · exact List.nodup_cons.mpr ⟨fun inside => Nat.lt_irrefl _ (open_at_lt _ inside), ih⟩
      · exact ih.sublist (List.tail_sublist _)
      · exact ih

theorem declared_lt (found : declared? text scope place = some name) : scope < place := by
  unfold declared? at found
  split at found
  · split at found
    · rename_i innermost
      exact open_at_lt _ (List.mem_of_head? innermost)
    · cases found
  · cases found

/-- The latest declaration is one of the name in the scope, and there is none between. -/
theorem latest_eq_some_iff : latest? text scope name bound = some place ↔
    place < bound ∧ declared? text scope place = some name ∧
      ∀ later, place < later → later < bound → declared? text scope later ≠ some name := by
  induction bound with
  | zero => simp [latest?]
  | succ bound ih =>
      rw [latest?]
      split
      · rename_i last
        constructor
        · rintro ⟨⟩
          exact ⟨Nat.lt_succ_self _, last, fun later above below =>
            absurd (Nat.lt_of_lt_of_le above (Nat.le_of_lt_succ below)) (Nat.lt_irrefl _)⟩
        · rintro ⟨below, -, none⟩
          rcases Nat.lt_succ_iff_lt_or_eq.mp below with inside | rfl
          · exact absurd last (none bound inside (Nat.lt_succ_self _))
          · rfl
      · rename_i other
        rw [ih]
        constructor
        · rintro ⟨below, found, none⟩
          refine ⟨Nat.lt_succ_of_lt below, found, fun later above inside => ?_⟩
          rcases Nat.lt_succ_iff_lt_or_eq.mp inside with inside | rfl
          · exact none later above inside
          · exact other
        · rintro ⟨below, found, none⟩
          rcases Nat.lt_succ_iff_lt_or_eq.mp below with inside | rfl
          · exact ⟨inside, found, fun later above before =>
              none later above (Nat.lt_succ_of_lt before)⟩
          · exact absurd found other

/-- What a read name means is the latest declaration of some name in some scope. -/
theorem latest_of_target (found : target? text bound = some place) :
    ∃ scope name, latest? text scope name bound = some place := by
  unfold target? at found
  split at found
  · rename_i name _
    obtain ⟨scope, -, latest⟩ := List.exists_of_findSome?_eq_some found
    exact ⟨scope, name, latest⟩
  · cases found

theorem not_read_early (early : bound ≤ place) : isRead text bound place = false := by
  rw [isRead, List.any_eq_false]
  intro use inside
  simp only [decide_eq_true_eq]
  intro found
  obtain ⟨scope, name, latest⟩ := latest_of_target found
  have below := (latest_eq_some_iff.mp latest).1
  have before := List.mem_range.mp inside
  omega

theorem is_read_succ : isRead text (bound + 1) place =
    (isRead text bound place || decide (target? text bound = some place)) := by
  rw [isRead, List.range_succ, List.any_append]
  simp [isRead]

theorem declared_eq_some_iff : declared? text scope place = some name ↔
    ∃ token, text[place]? = some (.declares token) ∧ token.lexeme = name ∧
      (openAt text place).head? = some scope := by
  unfold declared?
  split
  · rename_i token found
    simp only [found, Option.some.injEq, Mention.declares.injEq, exists_eq_left',
      Option.ite_none_right_eq_some]
    exact And.comm
  · rename_i other
    simp only [reduceCtorEq, false_iff]
    rintro ⟨token, found, -⟩
    exact other token found

end Scopes

/-- The part of the text from a place on leaves the scopes open that it finds, and declares these
variables in scopes. -/
structure Balanced (text : List Mention) (place : Nat) (part : List Mention)
    (names : List Token) : Prop where
  scopes : openAt text (place + part.length) = openAt text place
  names : (List.range' place part.length).filterMap (local? text) = names

section Parts

variable {text part more : List Mention} {place : Nat} {names others : List Token}

theorem stands_left (stands : part ++ more <+: text.drop place) : part <+: text.drop place :=
  (List.prefix_append part more).trans stands

theorem stands_right (stands : part ++ more <+: text.drop place) :
    more <+: text.drop (place + part.length) := by
  obtain ⟨rest, whole⟩ := stands
  rw [← List.drop_drop, ← whole, List.append_assoc, List.drop_left]
  exact List.prefix_append _ _

theorem stands_rest {mention : Mention} (stands : mention :: more <+: text.drop place) :
    more <+: text.drop (place + 1) := by
  rw [← List.singleton_append] at stands
  exact stands_right stands

theorem stands_first {mention : Mention} (stands : mention :: more <+: text.drop place) :
    text[place]? = some mention := by
  obtain ⟨rest, whole⟩ := stands
  have first := congrArg List.head? whole
  simpa using first.symm

theorem balanced_nil : Balanced text place [] [] :=
  ⟨rfl, rfl⟩

theorem Balanced.append (front : Balanced text place part names)
    (behind : Balanced text (place + part.length) more others) :
    Balanced text place (part ++ more) (names ++ others) := by
  constructor
  · rw [List.length_append, ← Nat.add_assoc, behind.scopes, front.scopes]
  · rw [List.length_append, ← List.range'_append_1, List.filterMap_append, front.names,
      behind.names]

theorem balanced_reads {read : List String}
    (stands : read.map Mention.reads <+: text.drop place) :
    Balanced text place (read.map Mention.reads) [] := by
  induction read generalizing place with
  | nil => exact balanced_nil
  | cons name rest ih =>
      have here := stands_first stands
      have first : Balanced text place [.reads name] [] :=
        ⟨by simp [openAt, here], by simp [local?, here]⟩
      exact first.append (ih (stands_rest stands))

theorem balanced_declares {name : Token} (stands : [.declares name] <+: text.drop place) :
    Balanced text place [.declares name] (if openAt text place = [] then [] else [name]) := by
  have here := stands_first stands
  constructor
  · simp [openAt, here]
  · by_cases outside : openAt text place = []
    all_goals simp [local?, here, outside]

theorem open_at_opens (stands : .opens :: more <+: text.drop place) :
    openAt text (place + 1) = place :: openAt text place := by
  rw [openAt, stands_first stands]

theorem Balanced.scope (inner : Balanced text (place + 1) part names)
    (stands : .opens :: (part ++ [.closes]) <+: text.drop place) :
    Balanced text place (.opens :: (part ++ [.closes])) names := by
  have opened := stands_first stands
  have closed := stands_first (stands_right (stands_rest stands))
  have length : (Mention.opens :: (part ++ [.closes])).length = 1 + (part.length + 1) := by
    simp [Nat.add_comm]
  constructor
  · rw [length, ← Nat.add_assoc, ← Nat.add_assoc, openAt, closed, inner.scopes,
      open_at_opens stands]
    rfl
  · rw [length, ← List.range'_append_1, ← List.range'_append_1, List.filterMap_append,
      List.filterMap_append, inner.names]
    simp [local?, opened, closed]

end Parts

end Mention

def Around.isScope : Around → Bool
  | block => true
  | branch => false
  | loop => false
  | function => true

def Occurrence.local? (occurrence : Occurrence) : Option Token :=
  match occurrence.statement with
  | .declare name _ => if occurrence.around.any Around.isScope then some name else none
  | _ => none

section Statements

open Mention

variable {text : List Mention} {place : Nat} {around : List Around}

theorem balanced_expression {value : Expr} (stands : value.mentions <+: text.drop place) :
    Balanced text place value.mentions [] := by
  rw [value.mentions_eq] at stands ⊢
  exact balanced_reads stands

theorem balanced_declaration {name : Token} {initial : Option Expr}
    (stands : [.declares name] <+: text.drop place)
    (inside : openAt text place = [] ↔ around.any Around.isScope = false) :
    Balanced text place [.declares name]
      ([⟨around, .declare name initial⟩].filterMap Occurrence.local?) := by
  have balanced := balanced_declares stands
  by_cases outside : openAt text place = []
  · have none := inside.mp outside
    rw [if_pos outside] at balanced
    simpa [Occurrence.local?, none] using balanced
  · have some := Bool.eq_true_of_not_eq_false fun none => outside (inside.mpr none)
    rw [if_neg outside] at balanced
    simpa [Occurrence.local?, some] using balanced

mutual

/-- The variables declared in scopes are those that statements inside of scopes declare. -/
theorem balanced_statement (statement : Stmt) (around : List Around) {place : Nat}
    (stands : statement.mentions <+: text.drop place)
    (inside : openAt text place = [] ↔ around.any Around.isScope = false) :
    Balanced text place statement.mentions
      ((statement.occurrences around).filterMap Occurrence.local?) := by
  cases statement with
  | expression value => exact balanced_expression stands
  | print keyword value => exact balanced_expression stands
  | declare name initial =>
      cases initial with
      | none => exact balanced_declaration stands inside
      | some initial =>
          have front := balanced_expression (stands_left stands)
          exact front.append (balanced_declaration (stands_right stands) (front.scopes ▸ inside))
  | block body location =>
      have inner := balanced_statements body (.block :: around)
        (stands_left (stands_rest stands))
        (by simp [open_at_opens stands, Around.isScope])
      exact inner.scope stands
  | ifThen keyword condition consequent =>
      have front := balanced_expression (stands_left stands)
      exact front.append (balanced_statement consequent (.branch :: around) (stands_right stands)
        (by rw [front.scopes, inside]; rfl))
  | ifElse keyword condition consequent alternative =>
      have front := balanced_expression (stands_left stands)
      have middle := balanced_statement consequent (.branch :: around)
        (stands_left (stands_right stands)) (by rw [front.scopes, inside]; rfl)
      have behind := balanced_statement alternative (.branch :: around)
        (stands_right (stands_right stands)) (by rw [middle.scopes, front.scopes, inside]; rfl)
      have whole := front.append (middle.append behind)
      rw [← List.filterMap_append] at whole
      exact whole
  | loop keyword condition body =>
      have front := balanced_expression (stands_left stands)
      exact front.append (balanced_statement body (.loop :: around) (stands_right stands)
        (by rw [front.scopes, inside]; rfl))
  | function name parameters body =>
      have inner := balanced_statements body (.function :: around)
        (stands_left (stands_rest stands))
        (by simp [open_at_opens stands, Around.isScope])
      exact inner.scope stands
  | returnValue keyword value =>
      cases value with
      | none => exact balanced_nil
      | some value => exact balanced_expression stands
  | breakLoop keyword => exact balanced_nil

theorem balanced_statements (body : List Stmt) (around : List Around) {place : Nat}
    (stands : Stmt.mentionsIn body <+: text.drop place)
    (inside : openAt text place = [] ↔ around.any Around.isScope = false) :
    Balanced text place (Stmt.mentionsIn body)
      ((Stmt.occurrencesIn around body).filterMap Occurrence.local?) := by
  cases body with
  | nil => exact balanced_nil
  | cons first rest =>
      have front := balanced_statement first around (stands_left stands) inside
      rw [Stmt.occurrencesIn, List.filterMap_append]
      exact front.append (balanced_statements rest around (stands_right stands)
        (by rw [front.scopes, inside]))

end

mutual

theorem locals_sublist (statement : Stmt) (around : List Around) :
    ((statement.occurrences around).filterMap Occurrence.local?).Sublist statement.declared := by
  cases statement with
  | declare name initial =>
      by_cases inside : around.any Around.isScope = true
      all_goals simp [Stmt.occurrences, Occurrence.local?, inside, Stmt.declared]
  | block body location => exact locals_in_sublist body (.block :: around)
  | ifThen keyword condition consequent => exact locals_sublist consequent (.branch :: around)
  | ifElse keyword condition consequent alternative =>
      have both := (locals_sublist consequent (.branch :: around)).append
        (locals_sublist alternative (.branch :: around))
      rw [← List.filterMap_append] at both
      exact both
  | loop keyword condition body => exact locals_sublist body (.loop :: around)
  | function name parameters body => exact locals_in_sublist body (.function :: around)
  | expression value => exact .slnil
  | print keyword value => exact .slnil
  | returnValue keyword value => exact .slnil
  | breakLoop keyword => exact .slnil

theorem locals_in_sublist (body : List Stmt) (around : List Around) :
    ((Stmt.occurrencesIn around body).filterMap Occurrence.local?).Sublist
      (Stmt.declaredIn body) := by
  cases body with
  | nil => exact .slnil
  | cons first rest =>
      rw [Stmt.occurrencesIn, List.filterMap_append]
      exact (locals_sublist first around).append (locals_in_sublist rest around)

end

/-- The scopes of a program are closed at its end, and the variables that it declares in scopes are
those of its statements inside of scopes. -/
theorem balanced_program (program : Program) :
    openAt (Stmt.mentionsIn program) (Stmt.mentionsIn program).length = [] ∧
      (List.range (Stmt.mentionsIn program).length).filterMap
          (local? (Stmt.mentionsIn program)) =
        (Stmt.occurrencesIn [] program).filterMap Occurrence.local? := by
  have stands : Stmt.mentionsIn program <+: (Stmt.mentionsIn program).drop 0 :=
    List.prefix_refl _
  obtain ⟨scopes, names⟩ := balanced_statements program [] stands (by simp [openAt])
  rw [Nat.zero_add] at scopes
  rw [List.range_eq_range']
  exact ⟨scopes, names⟩

/-- Variables are declared in the order of the text, each at a place of its own. -/
theorem declared_ordered {source : String} {program : Program}
    (short : source.utf8ByteSize < 2 ^ 32) (parsed : parse source = .ok program) :
    (Stmt.declaredIn program).Pairwise fun name later => name.span.start < later.span.start := by
  obtain ⟨tokens, lexed, derived⟩ := parse_ok_iff.mp parsed
  cases derived with
  | intro whole ended =>
      have starts := (List.pairwise_append.mp (token_starts short lexed)).1
      exact starts.sublist (forms_declared whole)

end Statements

end Treewalk
