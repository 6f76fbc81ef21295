import Treewalk.Proofs.Program.Earliest
import Treewalk.Proofs.Session.Reports

/-!
# The statements of a program, each in its place

A program consists of statements inside of statements, and these of expressions inside of
expressions. They are listed here in the order of the text, statements with the constructs around
them. A statement that begins with a keyword keeps that token, and these
are all tokens of such words in the text, each one once and in order: so nothing is left out of the
list and nothing is in it twice.
-/

namespace Treewalk

set_option autoImplicit false

open Grammar

namespace Expr

mutual

def parts : Expr → List Expr
  | literal value line location => [literal value line location]
  | grouping inner location => grouping inner location :: inner.parts
  | unary operator operand => unary operator operand :: operand.parts
  | binary left operator right => binary left operator right :: (left.parts ++ right.parts)
  | logical left operator right => logical left operator right :: (left.parts ++ right.parts)
  | reference name => [reference name]
  | assign name value => assign name value :: value.parts
  | call callee paren arguments =>
      call callee paren arguments :: (callee.parts ++ partsIn arguments)

def partsIn : List Expr → List Expr
  | [] => []
  | first :: rest => first.parts ++ partsIn rest

end

end Expr

inductive Around where
  | block
  | branch
  | loop
  | function
deriving DecidableEq, Inhabited

/-- A statement with the constructs around it, the innermost first. -/
structure Occurrence where
  around : List Around
  statement : Stmt

namespace Stmt

mutual

def occurrences (around : List Around) : Stmt → List Occurrence
  | expression value => [⟨around, expression value⟩]
  | print keyword value => [⟨around, print keyword value⟩]
  | declare name initial => [⟨around, declare name initial⟩]
  | block body location => ⟨around, block body location⟩ :: occurrencesIn (.block :: around) body
  | ifThen keyword condition consequent =>
      ⟨around, ifThen keyword condition consequent⟩ :: consequent.occurrences (.branch :: around)
  | ifElse keyword condition consequent alternative =>
      ⟨around, ifElse keyword condition consequent alternative⟩ ::
        (consequent.occurrences (.branch :: around) ++ alternative.occurrences (.branch :: around))
  | loop keyword condition body =>
      ⟨around, loop keyword condition body⟩ :: body.occurrences (.loop :: around)
  | function name parameters body =>
      ⟨around, function name parameters body⟩ :: occurrencesIn (.function :: around) body
  | returnValue keyword value => [⟨around, returnValue keyword value⟩]
  | breakLoop keyword => [⟨around, breakLoop keyword⟩]

def occurrencesIn (around : List Around) : List Stmt → List Occurrence
  | [] => []
  | first :: rest => first.occurrences around ++ occurrencesIn around rest

end

def word? : Stmt → Option Token
  | print keyword _ => some keyword
  | ifThen keyword _ _ => some keyword
  | ifElse keyword _ _ _ => some keyword
  | loop keyword _ _ => some keyword
  | returnValue keyword _ => some keyword
  | breakLoop keyword => some keyword
  | _ => none

/-- The keyword is the one that the statement has to have, and in a text whose places are in order,
what can be reported together with it stands behind it. -/
def Worded (inOrder : Prop) : Stmt → Prop
  | print keyword _ => keyword.kind = .printWord
  | ifThen keyword _ _ => keyword.kind = .ifWord
  | ifElse keyword _ _ _ => keyword.kind = .ifWord
  | loop keyword condition _ =>
      (keyword.kind = .whileWord ∨ keyword.kind = .forWord) ∧
        (inOrder → keyword.span.start ≤ condition.location.start)
  | returnValue keyword value =>
      keyword.kind = .returnWord ∧
        (inOrder → ∀ tree ∈ value, keyword.span.start ≤ tree.location.start)
  | breakLoop keyword => keyword.kind = .breakWord
  | _ => True

end Stmt

namespace Occurrence

def word? (occurrence : Occurrence) : Option Token :=
  occurrence.statement.word?

def Worded (inOrder : Prop) (occurrence : Occurrence) : Prop :=
  occurrence.statement.Worded inOrder

end Occurrence

def Token.isWord (token : Token) : Bool :=
  [Kind.printWord, .ifWord, .whileWord, .forWord, .returnWord, .breakWord].contains token.kind

def Grammar.Sentence.occurrences (around : List Around) : Sentence → List Occurrence
  | .statement _ tree => tree.occurrences around
  | .declaration tree => tree.occurrences around
  | .declarations trees => Stmt.occurrencesIn around trees

section Words

theorem constant_wordless {token : Token} {value : Literal} (denoted : Constant token value) :
    token.isWord = false := by
  cases denoted with
  | trueWord word => simp [Token.isWord, word]
  | falseWord word => simp [Token.isWord, word]
  | nilWord word => simp [Token.isWord, word]
  | number digits read => simp [Token.isWord, digits]
  | string quoted read => simp [Token.isWord, quoted]

theorem operator_wordless {tier : Tier} {operator : Token}
    (sign : operator.kind ∈ tier.operators) : operator.isWord = false := by
  have none : ∀ kind ∈ tier.operators,
      [Kind.printWord, .ifWord, .whileWord, .forWord, .returnWord, .breakWord].contains kind =
        false := by
    cases tier <;> decide
  exact none _ sign

theorem derives_wordless {phrase : Phrase} {tokens : List Token}
    (derived : Derives phrase tokens) : tokens.filter Token.isWord = [] := by
  induction derived with
  | assign target sign assigned ih => simp [Token.isWord, target, sign, ih]
  | plain whole ih => exact ih
  | operand whole ih => exact ih
  | operator first sign second ih ihSecond =>
      simp [List.filter_append, operator_wordless sign, ih, ihSecond]
  | negation sign negated ih =>
      rcases sign with sign | sign
      all_goals simp [Token.isWord, sign, ih]
  | called whole ih => exact ih
  | callee whole ih => exact ih
  | emptyCall function opened closed ih =>
      simp [List.filter_append, Token.isWord, opened, closed, ih]
  | fullCall function opened passed closed ih ihPassed =>
      simp [List.filter_append, Token.isWord, opened, closed, ih, ihPassed]
  | lastArgument whole ih => exact ih
  | argument first sign others ih ihOthers =>
      simp [List.filter_append, Token.isWord, sign, ih, ihOthers]
  | constant denoted => simp [constant_wordless denoted]
  | reference word => simp [Token.isWord, word]
  | grouping opened enclosed closed ih =>
      simp [List.filter_append, Token.isWord, opened, closed, ih]

theorem optional_wordless {value : Option Expr} {tokens : List Token}
    (derived : Optional value tokens) : tokens.filter Token.isWord = [] := by
  cases derived with
  | absent => rfl
  | present whole => exact derives_wordless whole

theorem names_wordless {names tokens : List Token} (listed : Names names tokens) :
    tokens.filter Token.isWord = [] := by
  induction listed with
  | last word => simp [Token.isWord, word]
  | more word sign others ih => simp [Token.isWord, word, sign, ih]

theorem parameters_wordless {names tokens : List Token} (head : Parameters names tokens) :
    tokens.filter Token.isWord = [] := by
  cases head with
  | none => rfl
  | some whole => exact names_wordless whole

/-- No statement with a keyword that the tree keeps stands in a variable declaration. -/
theorem variable_declaration_wordless {tree : Stmt} {tokens : List Token} (around : List Around)
    (formed : VariableDeclaration tree tokens) :
    (tree.occurrences around).filterMap Occurrence.word? = [] ∧
      tokens.filter Token.isWord = [] := by
  cases formed with
  | bare word named ended =>
      exact ⟨rfl, by simp [Token.isWord, word, named, ended]⟩
  | initialized word named sign initial ended =>
      refine ⟨rfl, ?_⟩
      simp [List.filter_append, derives_wordless initial, Token.isWord, word, named, sign, ended]

theorem expression_statement_wordless {tree : Stmt} {tokens : List Token} (around : List Around)
    (formed : ExpressionStatement tree tokens) :
    (tree.occurrences around).filterMap Occurrence.word? = [] ∧
      tokens.filter Token.isWord = [] := by
  cases formed with
  | intro whole ended =>
      exact ⟨rfl, by simp [List.filter_append, derives_wordless whole, Token.isWord, ended]⟩

theorem initial_wordless {initial : Option Stmt} {tokens : List Token}
    (start : Initial initial tokens) :
    (∀ first ∈ initial, ∀ around, (first.occurrences around).filterMap Occurrence.word? = []) ∧
      tokens.filter Token.isWord = [] := by
  cases start with
  | absent ended => exact ⟨nofun, by simp [Token.isWord, ended]⟩
  | declared whole =>
      refine ⟨?_, (variable_declaration_wordless [] whole).2⟩
      rintro _ ⟨⟩ around
      exact (variable_declaration_wordless around whole).1
  | expression whole =>
      refine ⟨?_, (expression_statement_wordless [] whole).2⟩
      rintro _ ⟨⟩ around
      exact (expression_statement_wordless around whole).1

theorem stepped_words {words : List Token} {body : Stmt} (increment : Option Expr)
    (inner : ∀ around, (body.occurrences around).filterMap Occurrence.word? = words)
    (around : List Around) :
    ((stepped body increment).occurrences around).filterMap Occurrence.word? = words := by
  cases increment with
  | none => exact inner around
  | some increment =>
      simp [stepped, Stmt.occurrences, Stmt.occurrencesIn, List.filterMap_cons, Occurrence.word?,
        Stmt.word?, inner (.block :: around)]

/-- The loop that a `for` stands for keeps its keyword; the blocks around have none. -/
theorem while_form_words {words : List Token} {keyword : Token} {initial : Option Stmt}
    {body : Stmt} (condition increment : Option Expr)
    (start : ∀ first ∈ initial, ∀ around,
      (first.occurrences around).filterMap Occurrence.word? = [])
    (inner : ∀ around, (body.occurrences around).filterMap Occurrence.word? = words)
    (around : List Around) :
    ((whileForm keyword initial condition increment body).occurrences around).filterMap
      Occurrence.word? = keyword :: words := by
  have repeated := stepped_words increment inner
  cases initial with
  | none =>
      simp [whileForm, Stmt.occurrences, Occurrence.word?, Stmt.word?, repeated (.loop :: around)]
  | some first =>
      simp [whileForm, Stmt.occurrences, Stmt.occurrencesIn, List.filterMap_cons, Occurrence.word?,
        Stmt.word?, start first rfl, repeated (.loop :: .block :: around)]

/-- The keywords of the statements in a sentence are those among its tokens, in order. -/
theorem forms_words {sentence : Sentence} {tokens : List Token} (formed : Forms sentence tokens)
    (around : List Around) :
    (sentence.occurrences around).filterMap Occurrence.word? = tokens.filter Token.isWord := by
  induction formed generalizing around with
  | expression whole =>
      obtain ⟨inside, outside⟩ := expression_statement_wordless around whole
      exact inside.trans outside.symm
  | print word shown ended =>
      simp [Sentence.occurrences, Stmt.occurrences, Occurrence.word?, Stmt.word?,
        List.filter_append, derives_wordless shown, Token.isWord, word, ended]
  | returnValue word result ended =>
      simp [Sentence.occurrences, Stmt.occurrences, Occurrence.word?, Stmt.word?,
        List.filter_append, optional_wordless result, Token.isWord, word, ended]
  | breakLoop word ended =>
      simp [Sentence.occurrences, Stmt.occurrences, Occurrence.word?, Stmt.word?, Token.isWord,
        word, ended]
  | block opened enclosed closed ih =>
      have inside := ih (.block :: around)
      simp only [Sentence.occurrences] at inside
      simp [Sentence.occurrences, Stmt.occurrences, List.filterMap_cons, Occurrence.word?,
        Stmt.word?, List.filter_append, inside, Token.isWord, opened, closed]
  | function word named opened head closed begun enclosed ended ih =>
      have inside := ih (.function :: around)
      simp only [Sentence.occurrences] at inside
      simp [Sentence.occurrences, Stmt.occurrences, List.filterMap_cons, Occurrence.word?,
        Stmt.word?, List.filter_append, inside, parameters_wordless head, Token.isWord, word, named,
        opened, closed, begun, ended]
  | ifThen word opened test closed first ih =>
      have inside := ih (.branch :: around)
      simp only [Sentence.occurrences] at inside
      simp [Sentence.occurrences, Stmt.occurrences, Occurrence.word?,
        Stmt.word?, List.filter_append, inside, derives_wordless test, Token.isWord, word, opened,
        closed]
  | ifElse word opened test closed first divided second ih ihSecond =>
      have inside := ih (.branch :: around)
      have insideToo := ihSecond (.branch :: around)
      simp only [Sentence.occurrences] at inside insideToo
      simp [Sentence.occurrences, Stmt.occurrences, Occurrence.word?,
        Stmt.word?, List.filter_append, inside, insideToo, derives_wordless test, Token.isWord,
        word, opened, closed, divided]
  | whileLoop word opened test closed inner ih =>
      have inside := ih (.loop :: around)
      simp only [Sentence.occurrences] at inside
      simp [Sentence.occurrences, Stmt.occurrences, Occurrence.word?,
        Stmt.word?, List.filter_append, inside, derives_wordless test, Token.isWord, word, opened,
        closed]
  | forLoop word opened start test divided step closed inner ih =>
      obtain ⟨begins, outside⟩ := initial_wordless start
      rw [Sentence.occurrences, while_form_words _ _ begins ih]
      simp [List.filter_append, outside, optional_wordless test, optional_wordless step,
        Token.isWord, word, opened, divided, closed]
  | declared whole =>
      obtain ⟨inside, outside⟩ := variable_declaration_wordless around whole
      exact inside.trans outside.symm
  | statement whole ih => exact ih around
  | none => rfl
  | more first others ih ihOthers =>
      have front := ih around
      have behind := ihOthers around
      simp only [Sentence.occurrences] at front behind
      rw [Sentence.occurrences, Stmt.occurrencesIn, List.filterMap_append, front, behind,
        List.filter_append]

end Words

section Loops

variable {holds : Occurrence → Prop} {body : Stmt} {increment : Option Expr}
  (blocks : ∀ around statements location, holds ⟨around, .block statements location⟩)
  (step : ∀ tree ∈ increment, ∀ around, holds ⟨around, .expression tree⟩)

include blocks step

/-- The block that an increment makes of a body has no statements but these two and itself. -/
theorem stepped_occurrences
    (inner : ∀ around, ∀ occurrence ∈ body.occurrences around, holds occurrence)
    (around : List Around) :
    ∀ occurrence ∈ (stepped body increment).occurrences around, holds occurrence := by
  cases increment with
  | none => exact inner around
  | some increment =>
      rw [stepped, Stmt.occurrences]
      refine List.forall_mem_cons.mpr ⟨blocks _ _ _, List.forall_mem_append.mpr ⟨inner _, ?_⟩⟩
      exact List.forall_mem_singleton.mpr (step increment rfl _)

/-- The statements of the loop that a `for` stands for are this loop, the statements of its clauses
and of its body, and blocks around them. -/
theorem while_form_occurrences {keyword : Token} {initial : Option Stmt} {condition : Option Expr}
    (loop : ∀ around, holds ⟨around, .loop keyword (guard keyword condition)
      (stepped body increment)⟩)
    (start : ∀ first ∈ initial, ∀ around, ∀ occurrence ∈ first.occurrences around,
      holds occurrence)
    (inner : ∀ around, ∀ occurrence ∈ body.occurrences around, holds occurrence)
    (around : List Around) :
    ∀ occurrence ∈ (whileForm keyword initial condition increment body).occurrences around,
      holds occurrence := by
  have looped : ∀ around, ∀ occurrence ∈ (Stmt.loop keyword (guard keyword condition)
      (stepped body increment)).occurrences around, holds occurrence := fun around =>
    List.forall_mem_cons.mpr ⟨loop around, stepped_occurrences blocks step inner _⟩
  cases initial with
  | none => exact looped around
  | some first =>
      rw [whileForm, Stmt.occurrences]
      refine List.forall_mem_cons.mpr ⟨blocks _ _ _, List.forall_mem_append.mpr
        ⟨start first rfl _, ?_⟩⟩
      exact List.forall_mem_append.mpr ⟨looped _, List.forall_mem_nil _⟩

end Loops

section Places

variable {inOrder : Prop}

theorem wordless_worded {tree : Stmt} {around : List Around}
    (single : tree.occurrences around = [⟨around, tree⟩]) (plain : tree.Worded inOrder) :
    ∀ occurrence ∈ tree.occurrences around, occurrence.Worded inOrder := by
  rw [single]
  exact List.forall_mem_singleton.mpr plain

theorem initial_worded {initial : Option Stmt} {tokens : List Token}
    (start : Initial initial tokens) : ∀ first ∈ initial, ∀ around,
      ∀ occurrence ∈ first.occurrences around, occurrence.Worded inOrder := by
  rintro first ⟨⟩ around
  cases start with
  | declared whole => cases whole <;> exact wordless_worded rfl trivial
  | expression whole => cases whole; exact wordless_worded rfl trivial

theorem while_form_worded {keyword : Token} {initial : Option Stmt} {body : Stmt}
    {condition increment : Option Expr} (word : keyword.kind = .forWord)
    (start : ∀ first ∈ initial, ∀ around, ∀ occurrence ∈ first.occurrences around,
      occurrence.Worded inOrder)
    (behind : inOrder → ∀ tree ∈ condition, keyword.span.start ≤ tree.location.start)
    (inner : ∀ around, ∀ occurrence ∈ body.occurrences around, occurrence.Worded inOrder)
    (around : List Around) :
    ∀ occurrence ∈ (whileForm keyword initial condition increment body).occurrences around,
      occurrence.Worded inOrder := by
  have guarded (places : inOrder) :
      keyword.span.start ≤ (guard keyword condition).location.start := by
    cases condition with
    | none => exact Nat.le_refl _
    | some tree => exact behind places tree rfl
  exact while_form_occurrences (fun _ _ _ => trivial) (fun _ _ _ => trivial)
    (fun _ => ⟨.inr word, guarded⟩) start inner around

variable {all : List Token} (ordered : inOrder → TokensOrdered all)
  (sorted : inOrder → all.Pairwise fun token later => token.span.start ≤ later.span.start)

include ordered sorted

theorem expression_behind {keyword : Token} {tree : Expr} {tokens : List Token}
    (derived : Derives (.expression tree) tokens) (sub : (keyword :: tokens).Sublist all)
    (places : inOrder) : keyword.span.start ≤ tree.location.start := by
  have inside : tokens ⊆ all := fun token found => sub.subset (List.mem_cons_of_mem _ found)
  obtain ⟨-, ⟨token, among, begins⟩, -⟩ :=
    derives_spanned derived ((ordered places).of_subset inside)
  rw [← begins]
  exact (List.pairwise_cons.mp ((sorted places).sublist sub)).1 token among

theorem optional_behind {keyword : Token} {value : Option Expr} {tokens : List Token}
    (derived : Optional value tokens) (sub : (keyword :: tokens).Sublist all) (places : inOrder) :
    ∀ tree ∈ value, keyword.span.start ≤ tree.location.start := by
  cases derived with
  | absent => exact nofun
  | present whole =>
      rintro _ ⟨⟩
      exact expression_behind ordered sorted whole sub places

/-- Every statement in a sentence begins with the keyword that it has to have. -/
theorem forms_worded {sentence : Sentence} {tokens : List Token} (formed : Forms sentence tokens)
    (sub : tokens.Sublist all) (around : List Around) :
    ∀ occurrence ∈ sentence.occurrences around, occurrence.Worded inOrder := by
  induction formed generalizing around with
  | expression whole =>
      cases whole
      exact wordless_worded rfl trivial
  | print word shown ended => exact List.forall_mem_singleton.mpr word
  | returnValue word result ended =>
      refine List.forall_mem_singleton.mpr ⟨word, ?_⟩
      exact optional_behind ordered sorted result
        (.trans (.cons_cons _ (List.sublist_append_left _ _)) sub)
  | breakLoop word ended => exact List.forall_mem_singleton.mpr word
  | block opened enclosed closed ih =>
      refine List.forall_mem_cons.mpr ⟨trivial, ih (.trans ?_ sub) _⟩
      exact .cons _ (List.sublist_append_left _ _)
  | function word named opened head closed begun enclosed ended ih =>
      refine List.forall_mem_cons.mpr ⟨trivial, ih (.trans ?_ sub) _⟩
      exact .cons _ (.cons _ (.cons _ (List.sublist_append_of_sublist_right
        (.cons _ (.cons _ (List.sublist_append_left _ _))))))
  | ifThen word opened test closed first ih =>
      refine List.forall_mem_cons.mpr ⟨word, ih (.trans ?_ sub) _⟩
      exact .cons _ (.cons _ (List.sublist_append_of_sublist_right (.cons _ (.refl _))))
  | ifElse word opened test closed first divided second ih ihSecond =>
      refine List.forall_mem_cons.mpr ⟨word, List.forall_mem_append.mpr
        ⟨ih (.trans ?_ sub) _, ihSecond (.trans ?_ sub) _⟩⟩
      · exact .cons _ (.cons _ (List.sublist_append_of_sublist_right
          (.cons _ (List.sublist_append_left _ _))))
      · exact .cons _ (.cons _ (List.sublist_append_of_sublist_right
          (.cons _ (List.sublist_append_of_sublist_right (.cons _ (.refl _))))))
  | whileLoop word opened test closed inner ih =>
      have behind := expression_behind ordered sorted test
        (.trans (.cons_cons _ (.cons _ (List.sublist_append_left _ _))) sub)
      refine List.forall_mem_cons.mpr ⟨⟨.inl word, behind⟩, ih (.trans ?_ sub) _⟩
      exact .cons _ (.cons _ (List.sublist_append_of_sublist_right (.cons _ (.refl _))))
  | forLoop word opened start test divided step closed inner ih =>
      apply while_form_worded word (initial_worded start)
      · exact optional_behind ordered sorted test (.trans (.cons_cons _ (.cons _
          (List.sublist_append_of_sublist_right (List.sublist_append_left _ _)))) sub)
      · apply ih
        exact .trans (.cons _ (.cons _ (List.sublist_append_of_sublist_right
          (List.sublist_append_of_sublist_right (.cons _ (List.sublist_append_of_sublist_right
            (.cons _ (.refl _)))))))) sub
  | declared whole => cases whole <;> exact wordless_worded rfl trivial
  | statement whole ih => exact ih sub around
  | none => exact nofun
  | more first others ih ihOthers =>
      exact List.forall_mem_append.mpr ⟨ih ((List.sublist_append_left _ _).trans sub) around,
        ihOthers ((List.sublist_append_right _ _).trans sub) around⟩

end Places

/-- The keywords of a parsed program are those of its text, and every statement begins with the one
that it has to have. If places fit in 32 bits, they are in order. -/
theorem words_of_parse {source : String} {program : Program}
    (parsed : parse source = .ok program) :
    ∃ tokens, scan source = .ok tokens ∧
      (Stmt.occurrencesIn [] program).filterMap Occurrence.word? = tokens.filter Token.isWord ∧
      (∀ occurrence ∈ Stmt.occurrencesIn [] program,
        occurrence.Worded (source.utf8ByteSize < 2 ^ 32)) ∧
      (source.utf8ByteSize < 2 ^ 32 →
        tokens.Pairwise fun token later => token.span.start < later.span.start) := by
  obtain ⟨tokens, lexed, derived⟩ := parse_ok_iff.mp parsed
  refine ⟨tokens, lexed, ?_⟩
  cases derived with
  | @intro _ inside closing whole ended =>
      obtain ⟨-, scanned⟩ := scan_ok_iff.mp lexed
      obtain ⟨same, -⟩ := List.append_inj' scanned rfl
      have starts (short : source.utf8ByteSize < 2 ^ 32) := token_starts short lexed
      have ordered (short : source.utf8ByteSize < 2 ^ 32) : TokensOrdered inside := by
        rw [← same]
        exact tokens_ordered short
      have sorted (short : source.utf8ByteSize < 2 ^ 32) :=
        (List.pairwise_append.mp (starts short)).1.imp Nat.le_of_lt
      refine ⟨?_, forms_worded ordered sorted whole (.refl _) [], starts⟩
      have words := forms_words whole []
      rw [Sentence.occurrences] at words
      rw [words, List.filter_append]
      simp [Token.isWord, ended]

def Occurrence.Apart (occurrence other : Occurrence) : Prop :=
  ∀ keyword ∈ occurrence.word?, ∀ second ∈ other.word?, keyword.span.start ≠ second.span.start

instance : Std.Symm Occurrence.Apart where
  symm _ _ apart keyword word second wordToo := (apart second wordToo keyword word).symm

/-- Statements whose keywords begin at one place are the same statement in the same place. -/
theorem Occurrence.eq_of_start {occurrences : List Occurrence}
    (ordered : (occurrences.filterMap Occurrence.word?).Pairwise fun keyword later =>
      keyword.span.start < later.span.start)
    {occurrence other : Occurrence} (found : occurrence ∈ occurrences)
    (foundToo : other ∈ occurrences) {keyword second : Token}
    (word : occurrence.word? = some keyword) (wordToo : other.word? = some second)
    (start : keyword.span.start = second.span.start) : occurrence = other := by
  have apart : occurrences.Pairwise Occurrence.Apart := by
    refine (List.pairwise_filterMap.mp ordered).imp ?_
    exact fun less keyword word second wordToo => Nat.ne_of_lt (less keyword word second wordToo)
  by_contra different
  exact apart.forall found foundToo different keyword word second wordToo start

end Treewalk
