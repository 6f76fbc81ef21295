import Treewalk.Proofs.Program.Places
import Treewalk.Proofs.Program.Variables

/-!
# Where statements begin

The name in the declaration of a variable is a token at which nothing else begins: statements begin
with a keyword, a brace or the first token of an expression, functions lie at their own names. So
the place of anything in a program begins elsewhere than every declared variable, with one
exception, the place of the declaration itself.
-/

namespace Treewalk

set_option autoImplicit false

open Grammar

theorem Span.hull_start_cases (left right : Span) :
    (left.hull right).start = left.start ∨ (left.hull right).start = right.start := by
  simp only [Span.hull]
  omega

namespace Stmt

mutual

/-- Everything in the statement that has a place has the property, except for the names of declared
variables. -/
def Headed (place : Span → Prop) : Stmt → Prop
  | expression value => place value.location
  | print keyword value => place (keyword.span.hull value.location)
  | declare _ initial => ∀ value ∈ initial, place value.location
  | block body location => place location ∧ AllHeaded place body
  | ifThen keyword condition consequent =>
      place (ifThen keyword condition consequent).location ∧ place consequent.location ∧
        consequent.Headed place
  | ifElse keyword condition consequent alternative =>
      place (ifElse keyword condition consequent alternative).location ∧
        (place consequent.location ∧ consequent.Headed place) ∧
        place alternative.location ∧ alternative.Headed place
  | loop keyword condition body =>
      place (loop keyword condition body).location ∧
        place (keyword.span.hull condition.location) ∧ place body.location ∧ body.Headed place
  | function name _ body => place name.span ∧ AllHeaded place body
  | returnValue keyword value => place (returnValue keyword value).location
  | breakLoop keyword => place keyword.span

def AllHeaded (place : Span → Prop) : List Stmt → Prop
  | [] => True
  | first :: rest => first.Headed place ∧ AllHeaded place rest

end

variable {place : Span → Prop}

/-- The place of a statement has the property or begins at a variable that the statement declares.
-/
theorem Headed.location {statement : Stmt} (headed : statement.Headed place) :
    (∃ span, place span ∧ span.start = statement.location.start) ∨
      ∃ name ∈ statement.declared, name.span.start = statement.location.start := by
  cases statement with
  | declare name initial =>
      cases initial with
      | none => exact .inr ⟨name, List.mem_cons_self, rfl⟩
      | some initial =>
          rcases Span.hull_start_cases name.span initial.location with start | start
          · exact .inr ⟨name, List.mem_cons_self, start.symm⟩
          · exact .inl ⟨initial.location, headed initial rfl, start.symm⟩
  | expression value => exact .inl ⟨_, headed, rfl⟩
  | print keyword value => exact .inl ⟨_, headed, rfl⟩
  | returnValue keyword value => exact .inl ⟨_, headed, rfl⟩
  | breakLoop keyword => exact .inl ⟨_, headed, rfl⟩
  | _ => exact .inl ⟨_, headed.1, rfl⟩

theorem all_headed_iff {body : List Stmt} :
    AllHeaded place body ↔ ∀ statement ∈ body, statement.Headed place := by
  induction body with
  | nil => simp [AllHeaded]
  | cons first rest ih => simp [AllHeaded, ih]

end Stmt

def Span.BeginsApart (all names : List Token) (span : Span) : Prop :=
  ∃ token ∈ all, token ∉ names ∧ token.span.start = span.start

theorem Span.BeginsApart.hull {all names : List Token} {left right : Span}
    (first : left.BeginsApart all names) (second : right.BeginsApart all names) :
    (left.hull right).BeginsApart all names := by
  rcases Span.hull_start_cases left right with start | start
  · obtain ⟨token, found, apart, begins⟩ := first
    exact ⟨token, found, apart, begins.trans start.symm⟩
  · obtain ⟨token, found, apart, begins⟩ := second
    exact ⟨token, found, apart, begins.trans start.symm⟩

/-- The trees of the sentence are headed; a statement is so as a whole as well. -/
def Grammar.Sentence.Headed (place : Span → Prop) : Sentence → Prop
  | .statement _ tree => place tree.location ∧ tree.Headed place
  | .declaration tree => tree.Headed place
  | .declarations trees => Stmt.AllHeaded place trees

section Loops

variable {place : Span → Prop} (joined : HullClosed place)

include joined

theorem stepped_headed {body : Stmt} {increment : Option Expr} (begins : place body.location)
    (headed : body.Headed place) (step : ∀ tree ∈ increment, place tree.location) :
    place (stepped body increment).location ∧ (stepped body increment).Headed place := by
  cases increment with
  | none => exact ⟨begins, headed⟩
  | some tree =>
      have advanced := step tree rfl
      have whole := joined begins advanced
      exact ⟨whole, whole, headed, advanced, trivial⟩

theorem while_form_headed {keyword : Token} {initial : Option Stmt}
    {condition increment : Option Expr} {body : Stmt} (word : place keyword.span)
    (start : ∀ first ∈ initial, first.Headed place)
    (test : ∀ tree ∈ condition, place tree.location)
    (step : ∀ tree ∈ increment, place tree.location) (begins : place body.location)
    (headed : body.Headed place) :
    place (whileForm keyword initial condition increment body).location ∧
      (whileForm keyword initial condition increment body).Headed place := by
  obtain ⟨repeated, inside⟩ := stepped_headed joined begins headed step
  have guarded : place (guard keyword condition).location := by
    cases condition with
    | none => exact word
    | some tree => exact test tree rfl
  have whole := joined word repeated
  have loop : (Stmt.loop keyword (guard keyword condition) (stepped body increment)).Headed place :=
    ⟨whole, joined word guarded, repeated, inside⟩
  cases initial with
  | none => exact ⟨whole, loop⟩
  | some first => exact ⟨whole, whole, start first rfl, loop, trivial⟩

end Loops

/-- The tokens are some of all tokens, each one once, and the names among them are the declared
ones. -/
structure Owns (all names declared tokens : List Token) : Prop where
  inside : tokens ⊆ all
  distinct : tokens.Nodup
  own : ∀ token ∈ tokens, token ∈ names → token ∈ declared

namespace Owns

variable {all names declared first second before behind : List Token} {token : Token}

theorem split (owns : Owns all names (first ++ second) (before ++ behind)) (left : first ⊆ before)
    (right : second ⊆ behind) : Owns all names first before ∧ Owns all names second behind := by
  obtain ⟨inside, distinct, own⟩ := owns
  obtain ⟨distinctBefore, distinctBehind, apart⟩ := List.nodup_append.mp distinct
  rw [List.append_subset] at inside
  refine ⟨⟨inside.1, distinctBefore, fun token found isName => ?_⟩,
    ⟨inside.2, distinctBehind, fun token found isName => ?_⟩⟩
  · rcases List.mem_append.mp (own token (List.mem_append_left _ found) isName) with mine | other
    · exact mine
    · exact absurd rfl (apart token found token (right other))
  · rcases List.mem_append.mp (own token (List.mem_append_right _ found) isName) with other | mine
    · exact absurd rfl (apart token (left other) token found)
    · exact mine

theorem skip (owns : Owns all names declared (before ++ behind)) (right : declared ⊆ behind) :
    Owns all names [] before ∧ Owns all names declared behind :=
  split owns (List.nil_subset _) right

/-- What is declared in front of some tokens is not declared among them. -/
theorem cut (owns : Owns all names declared (before ++ behind)) (left : declared ⊆ before) :
    Owns all names declared before ∧ Owns all names [] behind := by
  rw [← List.append_nil declared] at owns
  exact split owns left (List.nil_subset _)

theorem begins (owns : Owns all names [] before) (found : token ∈ before) :
    token.span.BeginsApart all names :=
  ⟨token, owns.inside found, fun isName => absurd (owns.own token found isName) List.not_mem_nil,
    rfl⟩

/-- A word in front of everything that is declared begins apart from the names. -/
theorem word (owns : Owns all names declared (token :: behind)) (right : declared ⊆ behind) :
    token.span.BeginsApart all names ∧ Owns all names declared behind := by
  obtain ⟨front, rest⟩ := skip (show Owns all names declared ([token] ++ behind) from owns) right
  exact ⟨front.begins List.mem_cons_self, rest⟩

end Owns

section Formed

variable {all names tokens : List Token} (ordered : TokensOrdered all)

include ordered

theorem expression_begins {tree : Expr} (derived : Derives (.expression tree) tokens)
    (owns : Owns all names [] tokens) : tree.location.BeginsApart all names := by
  obtain ⟨-, ⟨token, found, begins⟩, -⟩ := derives_spanned derived (ordered.of_subset owns.inside)
  obtain ⟨other, listed, apart, same⟩ := owns.begins found
  exact ⟨other, listed, apart, same.trans begins⟩

theorem optional_begins {value : Option Expr} (derived : Optional value tokens)
    (owns : Owns all names [] tokens) : ∀ tree ∈ value, tree.location.BeginsApart all names := by
  cases derived with
  | absent => exact nofun
  | present whole =>
      rintro _ ⟨⟩
      exact expression_begins ordered whole owns

theorem variable_declaration_headed {tree : Stmt} (formed : VariableDeclaration tree tokens)
    (owns : Owns all names tree.declared tokens) : tree.Headed (Span.BeginsApart all names) := by
  cases formed with
  | bare word named ended => exact nofun
  | @initialized keyword name equals semicolon value tokens word named sign initial ended =>
      rintro _ ⟨⟩
      obtain ⟨-, behind⟩ := Owns.cut
        (show Owns all names [name] ([keyword, name, equals] ++ (tokens ++ [semicolon])) from owns)
        (by simp)
      exact expression_begins ordered initial (behind.cut (List.nil_subset _)).1

theorem initial_headed {initial : Option Stmt} (start : Initial initial tokens)
    (owns : Owns all names (initial.elim [] Stmt.declared) tokens) :
    ∀ first ∈ initial, first.Headed (Span.BeginsApart all names) := by
  cases start with
  | absent ended => exact nofun
  | declared whole =>
      rintro _ ⟨⟩
      exact variable_declaration_headed ordered whole owns
  | expression whole =>
      rintro _ ⟨⟩
      cases whole with
      | intro whole ended =>
          exact expression_begins ordered whole (owns.cut (List.nil_subset _)).1

/-- Everything in a sentence begins apart from the names, if those among its tokens are the
variables that it declares. -/
theorem forms_headed {sentence : Sentence} (formed : Forms sentence tokens)
    (owns : Owns all names sentence.declared tokens) :
    sentence.Headed (Span.BeginsApart all names) := by
  have joined : HullClosed (Span.BeginsApart all names) := Span.BeginsApart.hull
  induction formed with
  | expression whole =>
      cases whole with
      | intro whole ended =>
          have begins := expression_begins ordered whole (owns.cut (List.nil_subset _)).1
          exact ⟨begins, begins⟩
  | print word shown ended =>
      obtain ⟨keyword, behind⟩ := owns.word (List.nil_subset _)
      have value := expression_begins ordered shown (behind.cut (List.nil_subset _)).1
      exact ⟨joined keyword value, joined keyword value⟩
  | @returnValue keyword semicolon value tokens word result ended =>
      obtain ⟨first, behind⟩ := owns.word (List.nil_subset _)
      have begins : (Stmt.returnValue keyword value).location.BeginsApart all names := by
        have found := optional_begins ordered result (behind.cut (List.nil_subset _)).1
        cases value with
        | none => exact first
        | some tree => exact joined first (found tree rfl)
      exact ⟨begins, begins⟩
  | breakLoop word ended =>
      obtain ⟨begins, -⟩ := owns.word (List.nil_subset _)
      exact ⟨begins, begins⟩
  | block opened enclosed closed ih =>
      have sub := (forms_declared enclosed).subset
      obtain ⟨first, behind⟩ := owns.word (List.subset_append_of_subset_left _ sub)
      obtain ⟨inner, last⟩ := behind.cut sub
      have begins := joined first (last.begins List.mem_cons_self)
      exact ⟨begins, begins, ih inner⟩
  | @function keyword name openParen closeParen openBrace closeBrace parameters body listed tokens
      word named opened head closed begun enclosed ended ih =>
      have sub := (forms_declared enclosed).subset
      have parts : Owns all names (Stmt.declaredIn body)
          ((keyword :: name :: openParen :: (listed ++ [closeParen, openBrace])) ++
            (tokens ++ [closeBrace])) := by
        simpa [Sentence.declared, Stmt.declared] using owns
      obtain ⟨front, behind⟩ := parts.skip (List.subset_append_of_subset_left _ sub)
      have begins : name.span.BeginsApart all names := front.begins (by simp)
      exact ⟨begins, begins, ih (behind.cut sub).1⟩
  | @ifThen keyword openParen closeParen condition waiting consequent asked then_ word opened test
      closed first ih =>
      have sub := (forms_declared first).subset
      have parts : Owns all names consequent.declared
          ((keyword :: openParen :: (asked ++ [closeParen])) ++ then_) := by
        simpa [Sentence.declared, Stmt.declared] using owns
      obtain ⟨front, behind⟩ := parts.skip sub
      have consequent := ih behind
      have begins := joined (front.begins List.mem_cons_self) consequent.1
      exact ⟨begins, begins, consequent⟩
  | @ifElse keyword openParen closeParen elseWord condition waiting consequent alternative asked
      then_ else_ word opened test closed first divided second ihFirst ihSecond =>
      have subFirst := (forms_declared first).subset
      have subSecond := (forms_declared second).subset
      have parts : Owns all names (consequent.declared ++ alternative.declared)
          ((keyword :: openParen :: (asked ++ [closeParen])) ++ (then_ ++ elseWord :: else_)) := by
        simpa [Sentence.declared, Stmt.declared] using owns
      obtain ⟨front, behind⟩ := parts.skip
        (List.append_subset.mpr ⟨List.subset_append_of_subset_left _ subFirst,
          List.subset_append_of_subset_right _ (List.subset_cons_of_subset _ subSecond)⟩)
      obtain ⟨inFirst, behind⟩ := behind.split subFirst (List.subset_cons_of_subset _ subSecond)
      have consequent := ihFirst inFirst
      have alternative := ihSecond (behind.word subSecond).2
      have begins := joined (joined (front.begins List.mem_cons_self) consequent.1) alternative.1
      exact ⟨begins, begins, consequent, alternative⟩
  | @whileLoop keyword openParen closeParen condition waiting body asked repeated word opened test
      closed inner ih =>
      have sub := (forms_declared inner).subset
      have parts : Owns all names body.declared
          (([keyword, openParen] ++ (asked ++ [closeParen])) ++ repeated) := by
        simpa [Sentence.declared, Stmt.declared] using owns
      obtain ⟨front, behind⟩ := parts.skip sub
      have body := ih behind
      have keyword := front.begins List.mem_cons_self
      obtain ⟨-, tested⟩ := front.cut (List.nil_subset _)
      have condition := expression_begins ordered test (tested.cut (List.nil_subset _)).1
      have begins := joined keyword body.1
      exact ⟨begins, begins, joined keyword condition, body⟩
  | @forLoop keyword openParen semicolon closeParen initial condition increment waiting body begun
      asked advanced repeated word opened start test divided step closed inner ih =>
      have subStart := (initial_declared start).subset
      have subBody := (forms_declared inner).subset
      have parts : Owns all names (initial.elim [] Stmt.declared ++ body.declared)
          ([keyword, openParen] ++
            (begun ++ ((asked ++ [semicolon]) ++ (advanced ++ [closeParen]) ++ repeated))) := by
        rw [← while_form_declared keyword initial condition increment body]
        simpa [Sentence.declared] using owns
      obtain ⟨front, behind⟩ := parts.skip
        (List.append_subset.mpr ⟨List.subset_append_of_subset_left _ subStart,
          List.subset_append_of_subset_right _ (List.subset_append_of_subset_right _ subBody)⟩)
      obtain ⟨begun, behind⟩ := behind.split subStart (List.subset_append_of_subset_right _ subBody)
      obtain ⟨clauses, behind⟩ := behind.skip subBody
      obtain ⟨asked, advanced⟩ := clauses.cut (List.nil_subset _)
      have body := ih behind
      exact while_form_headed joined (front.begins List.mem_cons_self)
        (initial_headed ordered start begun)
        (optional_begins ordered test (asked.cut (List.nil_subset _)).1)
        (optional_begins ordered step (advanced.cut (List.nil_subset _)).1) body.1 body.2
  | declared whole => exact variable_declaration_headed ordered whole owns
  | statement whole ih => exact (ih owns).2
  | none => trivial
  | more first others ihFirst ihOthers =>
      obtain ⟨before, behind⟩ := owns.split (forms_declared first).subset
        (forms_declared others).subset
      exact ⟨ihFirst before, ihOthers behind⟩

end Formed

end Treewalk
