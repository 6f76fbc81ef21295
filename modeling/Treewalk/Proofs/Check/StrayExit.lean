import Treewalk.Check
import Treewalk.Proofs.Program.Occurrence

/-!
# The errors of the check

The check goes down into a program with two flags. They say the same as the constructs around a
statement: whether a function is among them, and whether a loop is among those inside the nearest
function. So the errors are those of the single exits, each at its keyword, and since the keywords
of a program stand in the order of its text, there is nothing to sort as long as places fit in 32
bits.
-/

namespace Treewalk

set_option autoImplicit false

def Context.inside (around : List Around) : Context where
  inFunction := Around.function ∈ around
  inLoop := Around.loop ∈ around.takeWhile (· ≠ .function)

namespace Occurrence

def exit? (occurrence : Occurrence) : Option Token :=
  match occurrence.statement with
  | .returnValue keyword _ => some keyword
  | .breakLoop keyword => some keyword
  | _ => none

/-- What is wrong with the statement in its place: a `return` without a function around it, or a
`break` without a loop between it and the nearest function. -/
def error? (occurrence : Occurrence) : Option StaticError :=
  match occurrence.statement with
  | .returnValue keyword value =>
      if Around.function ∈ occurrence.around then none
      else some (.returnOutsideFunction (Stmt.returnValue keyword value).location keyword.line)
  | .breakLoop keyword =>
      if Around.loop ∈ occurrence.around.takeWhile (· ≠ .function) then none
      else some (.breakOutsideLoop keyword.span keyword.line)
  | _ => none

end Occurrence

def Token.isExit (token : Token) : Bool :=
  [Kind.returnWord, .breakWord].contains token.kind

section Flags

variable (around : List Around)

theorem Context.inside_block : Context.inside (.block :: around) = Context.inside around := by
  simp [Context.inside]

theorem Context.inside_branch : Context.inside (.branch :: around) = Context.inside around := by
  simp [Context.inside]

theorem Context.inside_loop : Context.inside (.loop :: around) = (Context.inside around).loop := by
  simp [Context.inside, Context.loop]

theorem Context.inside_function : Context.inside (.function :: around) = Context.body := by
  simp [Context.inside, Context.body]

end Flags

mutual

/-- The check reports the wrong ones among the statements inside a statement. -/
theorem stray_exits_eq (around : List Around) (statement : Stmt) :
    statement.strayExits (Context.inside around) =
      (statement.occurrences around).filterMap Occurrence.error? := by
  cases statement with
  | expression value => rfl
  | print keyword value => rfl
  | declare name initial => rfl
  | block body location =>
      have inner := stray_exits_in_eq (.block :: around) body
      rw [Context.inside_block] at inner
      simp [Stmt.strayExits, Stmt.occurrences, Occurrence.error?, List.filterMap_cons, inner]
  | ifThen keyword condition consequent =>
      have inner := stray_exits_eq (.branch :: around) consequent
      rw [Context.inside_branch] at inner
      simp [Stmt.strayExits, Stmt.occurrences, Occurrence.error?, List.filterMap_cons, inner]
  | ifElse keyword condition consequent alternative =>
      have inner := stray_exits_eq (.branch :: around) consequent
      have innerToo := stray_exits_eq (.branch :: around) alternative
      rw [Context.inside_branch] at inner innerToo
      simp [Stmt.strayExits, Stmt.occurrences, Occurrence.error?, List.filterMap_cons, inner,
        innerToo]
  | loop keyword condition body =>
      have inner := stray_exits_eq (.loop :: around) body
      rw [Context.inside_loop] at inner
      simp [Stmt.strayExits, Stmt.occurrences, Occurrence.error?, List.filterMap_cons, inner]
  | function name parameters body =>
      have inner := stray_exits_in_eq (.function :: around) body
      rw [Context.inside_function] at inner
      simp [Stmt.strayExits, Stmt.occurrences, Occurrence.error?, List.filterMap_cons, inner]
  | returnValue keyword value =>
      by_cases inFunction : Around.function ∈ around
      all_goals
        simp [Stmt.strayExits, Stmt.occurrences, Occurrence.error?, Context.inside, inFunction]
  | breakLoop keyword =>
      by_cases inLoop : Around.loop ∈ around.takeWhile (· ≠ .function)
      all_goals simp_all [Stmt.strayExits, Stmt.occurrences, Occurrence.error?, Context.inside]

theorem stray_exits_in_eq (around : List Around) (body : List Stmt) :
    Stmt.strayExitsIn (Context.inside around) body =
      (Stmt.occurrencesIn around body).filterMap Occurrence.error? := by
  cases body with
  | nil => rfl
  | cons first rest =>
      rw [Stmt.strayExitsIn, stray_exits_eq around first, stray_exits_in_eq around rest,
        Stmt.occurrencesIn, List.filterMap_append]

end

namespace Occurrence

variable {occurrence : Occurrence} {inOrder : Prop}

theorem start_of_error (worded : occurrence.Worded inOrder) (places : inOrder) {error : StaticError}
    (wrong : occurrence.error? = some error) :
    ∃ keyword, occurrence.word? = some keyword ∧
      error.location.start = keyword.span.start := by
  obtain ⟨around, statement⟩ := occurrence
  cases statement with
  | returnValue keyword value =>
      refine ⟨keyword, rfl, ?_⟩
      have located : error.location = (Stmt.returnValue keyword value).location := by
        simp only [error?] at wrong
        split at wrong
        · cases wrong
        · cases wrong
          rfl
      rw [located]
      cases value with
      | none => rfl
      | some tree => exact Nat.min_eq_left (worded.2 places tree rfl)
  | breakLoop keyword =>
      refine ⟨keyword, rfl, ?_⟩
      simp only [error?] at wrong
      split at wrong
      · cases wrong
      · cases wrong
        rfl
  | _ => cases wrong

theorem exit_eq (worded : occurrence.Worded inOrder) :
    occurrence.exit? = occurrence.word?.filter Token.isExit := by
  obtain ⟨around, statement⟩ := occurrence
  cases statement with
  | print keyword value =>
      have word : keyword.kind = .printWord := worded
      simp [exit?, word?, Stmt.word?, Option.filter_some, Token.isExit, word]
  | ifThen keyword condition consequent =>
      have word : keyword.kind = .ifWord := worded
      simp [exit?, word?, Stmt.word?, Option.filter_some, Token.isExit, word]
  | ifElse keyword condition consequent alternative =>
      have word : keyword.kind = .ifWord := worded
      simp [exit?, word?, Stmt.word?, Option.filter_some, Token.isExit, word]
  | loop keyword condition body =>
      obtain ⟨word | word, -⟩ := worded
      all_goals simp [exit?, word?, Stmt.word?, Option.filter_some, Token.isExit, word]
  | returnValue keyword value =>
      have word : keyword.kind = .returnWord := worded.1
      simp [exit?, word?, Stmt.word?, Option.filter_some, Token.isExit, word]
  | breakLoop keyword =>
      have word : keyword.kind = .breakWord := worded
      simp [exit?, word?, Stmt.word?, Option.filter_some, Token.isExit, word]
  | expression value => rfl
  | declare name initial => rfl
  | block body location => rfl
  | function name parameters body => rfl

end Occurrence

section Order

variable {occurrences : List Occurrence} {inOrder : Prop}
  (worded : ∀ occurrence ∈ occurrences, occurrence.Worded inOrder)

include worded

theorem errors_ordered (places : inOrder)
    (ordered : (occurrences.filterMap Occurrence.word?).Pairwise fun keyword later =>
      keyword.span.start < later.span.start) :
    (occurrences.filterMap Occurrence.error?).Pairwise fun error later =>
      error.location.start < later.location.start := by
  apply List.pairwise_filterMap.mpr
  refine (List.pairwise_filterMap.mp ordered).imp_of_mem ?_
  intro occurrence later found foundLater apart error wrong errorLater wrongLater
  obtain ⟨keyword, word, start⟩ := Occurrence.start_of_error (worded _ found) places wrong
  obtain ⟨keywordLater, wordLater, startLater⟩ :=
    Occurrence.start_of_error (worded _ foundLater) places wrongLater
  rw [start, startLater]
  exact apart keyword word keywordLater wordLater

theorem exits_eq_filter : occurrences.filterMap Occurrence.exit? =
    (occurrences.filterMap Occurrence.word?).filter Token.isExit := by
  rw [List.filter_filterMap]
  exact List.filterMap_congr fun occurrence found => Occurrence.exit_eq (worded _ found)

end Order

theorem word_of_exit {token : Token} (exit : token.isExit = true) : token.isWord = true := by
  have kinds : ∀ kind ∈ [Kind.returnWord, .breakWord],
      [Kind.printWord, .ifWord, .whileWord, .forWord, .returnWord, .breakWord].contains kind =
        true := by
    decide
  exact kinds _ (List.contains_iff_mem.mp exit)

theorem problems_errors (program : Program) :
    program.problems.errors = sortOn (fun error => error.location.start)
      ((Stmt.occurrencesIn [] program).filterMap Occurrence.error?) := by
  rw [← stray_exits_in_eq]
  rfl

/-- The errors for a parsed program are one for each `return` with no function around it and one for
each `break` with no loop between it and the nearest function, with the line of the keyword. If
places fit in 32 bits, they are in the order of the text. The statements that are looked at have all
`return` and `break` tokens of the text as their keywords, each one once and in order; code that is
never reached is no exception. -/
theorem static_errors_are_stray_exits (source : String) (program : Program)
    (parsed : parse source = .ok program) :
    program.problems.errors.Perm ((Stmt.occurrencesIn [] program).filterMap Occurrence.error?) ∧
      (source.utf8ByteSize < 2 ^ 32 →
        program.problems.errors = (Stmt.occurrencesIn [] program).filterMap Occurrence.error? ∧
        program.problems.errors.Pairwise fun error later =>
          error.location.start < later.location.start) ∧
      ∃ tokens, scan source = .ok tokens ∧
        (Stmt.occurrencesIn [] program).filterMap Occurrence.exit? =
          tokens.filter Token.isExit := by
  obtain ⟨tokens, lexed, words, worded, starts⟩ := words_of_parse parsed
  rw [problems_errors]
  refine ⟨List.mergeSort_perm _ _, ?_, tokens, lexed, ?_⟩
  · intro short
    have ordered := errors_ordered worded short (words ▸ (starts short).filter Token.isWord)
    rw [sort_on_of_sorted (ordered.imp Nat.le_of_lt)]
    exact ⟨rfl, ordered⟩
  · rw [exits_eq_filter worded, words, List.filter_filter]
    refine List.filter_congr fun token _ => ?_
    by_cases exit : token.isExit = true
    · rw [exit, word_of_exit exit]
      rfl
    · rw [Bool.eq_false_of_not_eq_true exit]
      rfl

/-- A stray `return`, a `break` in a function in a loop, and one in a branch that is never taken. -/
theorem static_errors_are_stray_exits_branches :
    ∃ program,
      parse "return; while (true) { fun f() { break; return; } }\nif (false) break;" =
        .ok program ∧
      program.problems.errors = [.returnOutsideFunction ⟨0, 6⟩ 1, .breakOutsideLoop ⟨33, 38⟩ 1,
        .breakOutsideLoop ⟨63, 68⟩ 2] := by
  obtain ⟨program, parsed, wrong⟩ : ∃ program,
      parse "return; while (true) { fun f() { break; return; } }\nif (false) break;" =
        .ok program ∧
      decide ((Stmt.occurrencesIn [] program).filterMap Occurrence.error? =
        [.returnOutsideFunction ⟨0, 6⟩ 1, .breakOutsideLoop ⟨33, 38⟩ 1,
          .breakOutsideLoop ⟨63, 68⟩ 2]) = true :=
    exists_ok_of_any (by decide +kernel)
  refine ⟨program, parsed, ?_⟩
  rw [((static_errors_are_stray_exits _ program parsed).2.1 (by decide)).1]
  exact of_decide_eq_true wrong

/-- Of two stray exits, one in front of the bound and one behind it, the second has the smaller
start and is reported first. -/
theorem far_exits_change_places :
    ∃ program, parse (behindBlanks (2 ^ 32 - 10) "return;        return;") = .ok program ∧
      program.problems.errors ≠ (Stmt.occurrencesIn [] program).filterMap Occurrence.error? := by
  obtain ⟨program, parsed, unordered⟩ : ∃ program,
      parse (behindBlanks (2 ^ 32 - 10) "return;        return;") = .ok program ∧
      decide (¬((Stmt.occurrencesIn [] program).filterMap Occurrence.error?).Pairwise
        fun error later => error.location.start ≤ later.location.start) = true :=
    exists_ok_of_any (by
      rw [parse_eq_parsed, of_source_behind_blanks]
      decide +kernel)
  refine ⟨program, parsed, fun same => of_decide_eq_true unordered ?_⟩
  rw [← same, problems_errors]
  exact sort_on_sorted _ _

end Treewalk
