import Treewalk.Check.Usage
import Treewalk.Proofs.Program.Acceptance
import Treewalk.Proofs.Token.Tiling

/-!
# Variables in the text of a program

Where names are looked up and where variables are declared, as far as the text tells. A statement
looks a name up by itself or in the functions that it declares; the latter can happen much later
than the statement runs, so the two are told apart. Blocks and functions run their statements in a
scope of their own, and a declaration always stands directly in one of these lists, never as a
branch or as the body of a loop. No two declarations of a program have the same place.
-/

namespace Treewalk

set_option autoImplicit false

open Grammar

def Expr.looksUp (direct : Bool) (name : String) (expression : Expr) : Bool :=
  direct && expression.reads.contains name

namespace Stmt

/-- The statement declares a variable of this name in the scope in which it runs. -/
def declares (name : String) : Stmt → Bool
  | declare token _ => token.lexeme == name
  | _ => false

mutual

/-- Whether the statement looks the name up outside of its own scopes: in a function that it
declares, or, if `direct` is on, also by itself. -/
def looksUp (direct : Bool) (name : String) : Stmt → Bool
  | expression value => value.looksUp direct name
  | print _ value => value.looksUp direct name
  | declare _ none => false
  | declare _ (some initial) => initial.looksUp direct name
  | block body _ => looksUpIn direct name body
  | ifThen _ condition consequent =>
      condition.looksUp direct name || consequent.looksUp direct name
  | ifElse _ condition consequent alternative =>
      condition.looksUp direct name || consequent.looksUp direct name
        || alternative.looksUp direct name
  | loop _ condition body => condition.looksUp direct name || body.looksUp direct name
  | function _ parameters body =>
      !(parameters.any fun parameter => parameter.lexeme == name) && looksUpIn true name body
  | returnValue _ none => false
  | returnValue _ (some value) => value.looksUp direct name
  | breakLoop _ => false

/-- A declaration of the name hides what is around from the statements behind it. -/
def looksUpIn (direct : Bool) (name : String) : List Stmt → Bool
  | [] => false
  | first :: rest =>
      first.looksUp direct name || !first.declares name && looksUpIn direct name rest

end

mutual

/-- The lists of statements inside the statement that run in a scope of their own. -/
def bodies : Stmt → List (List Stmt)
  | block body _ => body :: bodiesIn body
  | ifThen _ _ consequent => consequent.bodies
  | ifElse _ _ consequent alternative => consequent.bodies ++ alternative.bodies
  | loop _ _ body => body.bodies
  | function _ _ body => body :: bodiesIn body
  | expression _ => []
  | print _ _ => []
  | declare _ _ => []
  | returnValue _ _ => []
  | breakLoop _ => []

def bodiesIn : List Stmt → List (List Stmt)
  | [] => []
  | first :: rest => first.bodies ++ bodiesIn rest

end

mutual

/-- The names of the variables that are declared in the statement, in the order of the text. -/
def declared : Stmt → List Token
  | declare name _ => [name]
  | block body _ => declaredIn body
  | ifThen _ _ consequent => consequent.declared
  | ifElse _ _ consequent alternative => consequent.declared ++ alternative.declared
  | loop _ _ body => body.declared
  | function _ _ body => declaredIn body
  | expression _ => []
  | print _ _ => []
  | returnValue _ _ => []
  | breakLoop _ => []

def declaredIn : List Stmt → List Token
  | [] => []
  | first :: rest => first.declared ++ declaredIn rest

end

def Plain : Stmt → Prop
  | declare _ _ => False
  | _ => True

def Opens (name : Token) (statement : Stmt) : Prop :=
  ∃ initial, statement = declare name initial

mutual

def Orderly (fits : Stmt → Prop) : Stmt → Prop
  | block body _ => AllOrderly fits body
  | ifThen _ _ consequent => fits consequent ∧ consequent.Orderly fits
  | ifElse _ _ consequent alternative =>
      (fits consequent ∧ consequent.Orderly fits) ∧ fits alternative ∧ alternative.Orderly fits
  | loop _ _ body => fits body ∧ body.Orderly fits
  | function _ _ body => AllOrderly fits body
  | expression _ => True
  | print _ _ => True
  | declare _ _ => True
  | returnValue _ _ => True
  | breakLoop _ => True

def AllOrderly (fits : Stmt → Prop) : List Stmt → Prop
  | [] => True
  | first :: rest => first.Orderly fits ∧ AllOrderly fits rest

end

/-- Behind its declaration in the body, before the next declaration of the name, the variable is
looked up. -/
def ReadBehind (name : Token) (body : List Stmt) : Prop :=
  ∃ before initial behind, body = before ++ declare name initial :: behind ∧
    looksUpIn true name.lexeme behind = true

/-- In front of its declaration in the body, a function is declared that looks the variable up. -/
def CaughtBefore (name : Token) (body : List Stmt) : Prop :=
  ∃ before initial behind, body = before ++ declare name initial :: behind ∧
    ∃ statement ∈ before, statement.looksUp false name.lexeme = true

end Stmt

theorem Expr.not_looks_up_indirectly (name : String) (expression : Expr) :
    expression.looksUp false name = false :=
  rfl

namespace Stmt

mutual

/-- What a function looks up, the statement that declares it looks up. -/
theorem looks_up_of_indirect {name : String} (statement : Stmt)
    (indirect : statement.looksUp false name = true) : statement.looksUp true name = true := by
  cases statement with
  | expression value => cases indirect
  | print keyword value => cases indirect
  | declare token initial =>
      cases initial with
      | none => cases indirect
      | some initial => cases indirect
  | block body location => exact looks_up_in_of_indirect body indirect
  | ifThen keyword condition consequent =>
      simp only [looksUp, Expr.not_looks_up_indirectly, Bool.false_or, Bool.or_eq_true]
        at indirect ⊢
      exact .inr (looks_up_of_indirect consequent indirect)
  | ifElse keyword condition consequent alternative =>
      simp only [looksUp, Expr.not_looks_up_indirectly, Bool.false_or, Bool.or_eq_true]
        at indirect ⊢
      rcases indirect with indirect | indirect
      · exact .inl (.inr (looks_up_of_indirect consequent indirect))
      · exact .inr (looks_up_of_indirect alternative indirect)
  | loop keyword condition body =>
      simp only [looksUp, Expr.not_looks_up_indirectly, Bool.false_or, Bool.or_eq_true]
        at indirect ⊢
      exact .inr (looks_up_of_indirect body indirect)
  | function token parameters body => exact indirect
  | returnValue keyword value =>
      cases value with
      | none => cases indirect
      | some value => cases indirect
  | breakLoop keyword => cases indirect

theorem looks_up_in_of_indirect {name : String} (body : List Stmt)
    (indirect : looksUpIn false name body = true) : looksUpIn true name body = true := by
  cases body with
  | nil => cases indirect
  | cons first rest =>
      simp only [looksUpIn, Bool.or_eq_true, Bool.and_eq_true] at indirect ⊢
      rcases indirect with indirect | ⟨open_, indirect⟩
      · exact .inl (looks_up_of_indirect first indirect)
      · exact .inr ⟨open_, looks_up_in_of_indirect rest indirect⟩

end

theorem declared_in_append (before behind : List Stmt) :
    declaredIn (before ++ behind) = declaredIn before ++ declaredIn behind := by
  induction before with
  | nil => rfl
  | cons first rest ih => simp only [List.cons_append, declaredIn, ih, List.append_assoc]

section Declared

variable {name : Token}

mutual

/-- What a body inside the statement declares, the statement declares. -/
theorem declared_of_bodies (statement : Stmt) {body : List Stmt}
    (inside : body ∈ statement.bodies) : declaredIn body ⊆ statement.declared := by
  cases statement with
  | expression value => cases inside
  | print keyword value => cases inside
  | declare token initial => cases inside
  | block inner location =>
      rcases List.mem_cons.mp inside with rfl | inside
      · exact List.Subset.refl _
      · exact declared_in_of_bodies_in inner inside
  | ifThen keyword condition consequent => exact declared_of_bodies consequent inside
  | ifElse keyword condition consequent alternative =>
      rcases List.mem_append.mp inside with inside | inside
      · exact List.subset_append_of_subset_left _ (declared_of_bodies consequent inside)
      · exact List.subset_append_of_subset_right _ (declared_of_bodies alternative inside)
  | loop keyword condition repeated => exact declared_of_bodies repeated inside
  | function token parameters inner =>
      rcases List.mem_cons.mp inside with rfl | inside
      · exact List.Subset.refl _
      · exact declared_in_of_bodies_in inner inside
  | returnValue keyword value => cases inside
  | breakLoop keyword => cases inside

theorem declared_in_of_bodies_in (statements : List Stmt) {body : List Stmt}
    (inside : body ∈ bodiesIn statements) : declaredIn body ⊆ declaredIn statements := by
  cases statements with
  | nil => cases inside
  | cons first rest =>
      rcases List.mem_append.mp inside with inside | inside
      · exact List.subset_append_of_subset_left _ (declared_of_bodies first inside)
      · exact List.subset_append_of_subset_right _ (declared_in_of_bodies_in rest inside)

end

theorem all_orderly_append {fits : Stmt → Prop} {before behind : List Stmt}
    (orderly : AllOrderly fits (before ++ behind)) :
    AllOrderly fits before ∧ AllOrderly fits behind := by
  induction before with
  | nil => exact ⟨trivial, orderly⟩
  | cons first rest ih =>
      obtain ⟨inside, further⟩ := ih orderly.2
      exact ⟨⟨orderly.1, inside⟩, further⟩

mutual

theorem Orderly.imp {fits better : Stmt → Prop} (improves : ∀ branch, fits branch → better branch)
    (statement : Stmt) (orderly : statement.Orderly fits) : statement.Orderly better := by
  cases statement with
  | block body location => exact AllOrderly.imp improves body orderly
  | ifThen keyword condition consequent =>
      exact ⟨improves _ orderly.1, Orderly.imp improves consequent orderly.2⟩
  | ifElse keyword condition consequent alternative =>
      exact ⟨⟨improves _ orderly.1.1, Orderly.imp improves consequent orderly.1.2⟩,
        improves _ orderly.2.1, Orderly.imp improves alternative orderly.2.2⟩
  | loop keyword condition body =>
      exact ⟨improves _ orderly.1, Orderly.imp improves body orderly.2⟩
  | function token parameters body => exact AllOrderly.imp improves body orderly
  | expression value => trivial
  | print keyword value => trivial
  | declare token initial => trivial
  | returnValue keyword value => trivial
  | breakLoop keyword => trivial

theorem AllOrderly.imp {fits better : Stmt → Prop}
    (improves : ∀ branch, fits branch → better branch) (body : List Stmt)
    (orderly : AllOrderly fits body) : AllOrderly better body := by
  cases body with
  | nil => trivial
  | cons first rest =>
      exact ⟨Orderly.imp improves first orderly.1, AllOrderly.imp improves rest orderly.2⟩

end

theorem Plain.not_opens {statement : Stmt} (plain : statement.Plain) : ¬statement.Opens name := by
  rintro ⟨initial, rfl⟩
  exact plain

theorem Opens.declared {statement : Stmt} (opens : statement.Opens name) :
    name ∈ statement.declared := by
  obtain ⟨initial, rfl⟩ := opens
  exact List.mem_cons_self

mutual

theorem orderly_of_foreign (statement : Stmt) (foreign : name ∉ statement.declared) :
    statement.Orderly fun branch => ¬branch.Opens name := by
  cases statement with
  | block body location => exact all_orderly_of_foreign body foreign
  | ifThen keyword condition consequent =>
      exact ⟨fun opens => foreign opens.declared, orderly_of_foreign consequent foreign⟩
  | ifElse keyword condition consequent alternative =>
      have first : name ∉ consequent.declared := fun inside =>
        foreign (List.mem_append_left _ inside)
      have second : name ∉ alternative.declared := fun inside =>
        foreign (List.mem_append_right _ inside)
      exact ⟨⟨fun opens => first opens.declared, orderly_of_foreign consequent first⟩,
        fun opens => second opens.declared, orderly_of_foreign alternative second⟩
  | loop keyword condition body =>
      exact ⟨fun opens => foreign opens.declared, orderly_of_foreign body foreign⟩
  | function token parameters body => exact all_orderly_of_foreign body foreign
  | expression value => trivial
  | print keyword value => trivial
  | declare token initial => trivial
  | returnValue keyword value => trivial
  | breakLoop keyword => trivial

theorem all_orderly_of_foreign (body : List Stmt) (foreign : name ∉ declaredIn body) :
    AllOrderly (fun branch => ¬branch.Opens name) body := by
  cases body with
  | nil => trivial
  | cons first rest =>
      exact ⟨orderly_of_foreign first fun inside => foreign (List.mem_append_left _ inside),
        all_orderly_of_foreign rest fun inside => foreign (List.mem_append_right _ inside)⟩

end

theorem declared_in_at (before behind : List Stmt) (initial : Option Expr) :
    name ∈ declaredIn (before ++ declare name initial :: behind) := by
  rw [declared_in_append]
  exact List.mem_append_right _ List.mem_cons_self

theorem ReadBehind.declared {body : List Stmt} (read : ReadBehind name body) :
    name ∈ declaredIn body := by
  obtain ⟨before, initial, behind, rfl, -⟩ := read
  exact declared_in_at before behind initial

theorem CaughtBefore.declared {body : List Stmt} (caught : CaughtBefore name body) :
    name ∈ declaredIn body := by
  obtain ⟨before, initial, behind, rfl, -⟩ := caught
  exact declared_in_at before behind initial

end Declared

end Stmt

section Derived

theorem variable_declaration_declared {tree : Stmt} {tokens : List Token}
    (formed : VariableDeclaration tree tokens) : tree.declared.Sublist tokens := by
  cases formed with
  | bare word named ended => simp [Stmt.declared]
  | initialized word named sign initial ended => simp [Stmt.declared]

theorem expression_statement_declared {tree : Stmt} {tokens : List Token}
    (formed : ExpressionStatement tree tokens) : tree.declared = [] := by
  cases formed with
  | intro whole ended => rfl

theorem initial_declared {initial : Option Stmt} {tokens : List Token}
    (start : Initial initial tokens) : (initial.elim [] Stmt.declared).Sublist tokens := by
  cases start with
  | absent ended => exact List.nil_sublist _
  | declared whole => exact variable_declaration_declared whole
  | expression whole =>
      rw [Option.elim_some, expression_statement_declared whole]
      exact List.nil_sublist _

theorem while_form_declared (keyword : Token) (initial : Option Stmt)
    (condition increment : Option Expr) (body : Stmt) :
    (whileForm keyword initial condition increment body).declared =
      initial.elim [] Stmt.declared ++ body.declared := by
  have repeated : (stepped body increment).declared = body.declared := by
    cases increment with
    | none => rfl
    | some increment => simp [stepped, Stmt.declared, Stmt.declaredIn]
  cases initial with
  | none => exact repeated
  | some first => simp [whileForm, Stmt.declared, Stmt.declaredIn, repeated]

def Grammar.Sentence.declared : Sentence → List Token
  | .statement _ tree => tree.declared
  | .declaration tree => tree.declared
  | .declarations trees => Stmt.declaredIn trees

theorem forms_declared {sentence : Sentence} {tokens : List Token}
    (formed : Forms sentence tokens) : sentence.declared.Sublist tokens := by
  induction formed with
  | expression whole =>
      rw [Sentence.declared, expression_statement_declared whole]
      exact List.nil_sublist _
  | print word shown ended => exact List.nil_sublist _
  | returnValue word result ended => exact List.nil_sublist _
  | breakLoop word ended => exact List.nil_sublist _
  | block opened enclosed closed ih =>
      exact (ih.trans (List.sublist_append_left _ _)).cons _
  | function word named opened head closed begun enclosed ended ih =>
      refine (((List.Sublist.trans ?_ (List.sublist_append_right _ _)).cons _).cons _).cons _
      exact ((ih.trans (List.sublist_append_left _ _)).cons _).cons _
  | ifThen word opened test closed first ih =>
      exact (((ih.cons _).trans (List.sublist_append_right _ _)).cons _).cons _
  | ifElse word opened test closed first divided second ih ihSecond =>
      refine ((List.Sublist.trans ?_ (List.sublist_append_right _ _)).cons _).cons _
      exact (ih.append (ihSecond.cons _)).cons _
  | whileLoop word opened test closed inner ih =>
      exact (((ih.cons _).trans (List.sublist_append_right _ _)).cons _).cons _
  | forLoop word opened start test divided step closed inner ih =>
      rw [Sentence.declared, while_form_declared]
      refine (((initial_declared start).append ?_).cons _).cons _
      refine List.Sublist.trans ?_ (List.sublist_append_right _ _)
      exact ((ih.cons _).trans (List.sublist_append_right _ _)).cons _
  | declared whole => exact variable_declaration_declared whole
  | statement whole ih => exact ih
  | none => exact List.nil_sublist _
  | more first others ih ihOthers => exact ih.append ihOthers

/-- What the trees of a sentence have to be like; a statement is no declaration. -/
def Grammar.Sentence.Orderly : Sentence → Prop
  | .statement _ tree => tree.Plain ∧ tree.Orderly Stmt.Plain
  | .declaration tree => tree.Orderly Stmt.Plain
  | .declarations trees => Stmt.AllOrderly Stmt.Plain trees

theorem initial_orderly {initial : Option Stmt} {tokens : List Token}
    (start : Initial initial tokens) : ∀ first ∈ initial, first.Orderly Stmt.Plain := by
  rintro first ⟨⟩
  cases start with
  | declared whole => cases whole <;> trivial
  | expression whole => cases whole; trivial

theorem while_form_orderly {keyword : Token} {initial : Option Stmt}
    {condition increment : Option Expr} {body : Stmt}
    (first : ∀ first ∈ initial, first.Orderly Stmt.Plain) (plain : body.Plain)
    (orderly : body.Orderly Stmt.Plain) :
    (whileForm keyword initial condition increment body).Plain ∧
      (whileForm keyword initial condition increment body).Orderly Stmt.Plain := by
  have repeated : (stepped body increment).Plain ∧ (stepped body increment).Orderly Stmt.Plain := by
    cases increment with
    | none => exact ⟨plain, orderly⟩
    | some increment => exact ⟨trivial, orderly, trivial, trivial⟩
  cases initial with
  | none => exact ⟨trivial, repeated⟩
  | some start => exact ⟨trivial, first start rfl, repeated, trivial⟩

theorem forms_orderly {sentence : Sentence} {tokens : List Token}
    (formed : Forms sentence tokens) : sentence.Orderly := by
  induction formed with
  | expression whole =>
      cases whole
      exact ⟨trivial, trivial⟩
  | print word shown ended => exact ⟨trivial, trivial⟩
  | returnValue word result ended => exact ⟨trivial, trivial⟩
  | breakLoop word ended => exact ⟨trivial, trivial⟩
  | block opened enclosed closed ih => exact ⟨trivial, ih⟩
  | function word named opened head closed begun enclosed ended ih => exact ⟨trivial, ih⟩
  | ifThen word opened test closed first ih => exact ⟨trivial, ih⟩
  | ifElse word opened test closed first divided second ih ihSecond =>
      exact ⟨trivial, ih, ihSecond⟩
  | whileLoop word opened test closed inner ih => exact ⟨trivial, ih⟩
  | forLoop word opened start test divided step closed inner ih =>
      exact while_form_orderly (initial_orderly start) ih.1 ih.2
  | declared whole => cases whole <;> trivial
  | statement whole ih => exact ih.2
  | none => trivial
  | more first others ih ihOthers => exact ⟨ih, ihOthers⟩

end Derived

theorem tokens_apart (text : List Char) :
    (Scanned.ofText text).tokens.Pairwise fun token later => token.span ≠ later.span := by
  have tiled : Tiled 0 1 text (Scanned.ofText text).items (Scanned.ofText text).closing :=
    tiled_items text 0 1
  have apart := (List.pairwise_append.mp tiled.spans_apart.1).1
  have located := tiled.located (List.nil_append text).symm rfl rfl
  have filled : ∀ item ∈ (Scanned.ofText text).items, item.span.start < item.span.stop := by
    intro item inside
    obtain ⟨lexeme, nonempty, -, before, behind, -, span, -⟩ := located item inside
    rw [span, byte_length_append]
    exact Nat.lt_add_of_pos_right (byte_length_pos nonempty)
  have distinct : (Scanned.ofText text).items.Pairwise fun item later =>
    item.span ≠ later.span := by
    apply apart.imp_of_mem
    intro item later inside _ ordered same
    rw [← same] at ordered
    exact absurd (filled item inside) (Nat.not_lt.mpr ordered)
  unfold Scanned.tokens
  apply List.Pairwise.filterMap _ _ distinct
  intro item later different token isToken other isOther
  cases item with
  | error fault => cases isToken
  | token found =>
      cases later with
      | error fault => cases isOther
      | token foundToo =>
          cases isToken
          cases isOther
          exact different

/-- A parsed program has no declaration as a branch, and its declarations stand at different places
if these fit in 32 bits. -/
theorem variables_of_parse {source : String} {program : Program}
    (parsed : parse source = .ok program) :
    Stmt.AllOrderly Stmt.Plain program ∧ (source.utf8ByteSize < 2 ^ 32 →
      (Stmt.declaredIn program).Pairwise fun name later => name.span ≠ later.span) := by
  obtain ⟨tokens, lexed, derived⟩ := parse_ok_iff.mp parsed
  cases derived with
  | intro whole ended =>
      obtain ⟨-, scanned⟩ := scan_ok_iff.mp lexed
      obtain ⟨same, -⟩ := List.append_inj' scanned rfl
      rw [← same] at whole
      refine ⟨forms_orderly whole, fun short => ?_⟩
      rw [of_source_of_short short] at whole
      exact (tokens_apart source.toList).sublist (forms_declared whole)

end Treewalk
