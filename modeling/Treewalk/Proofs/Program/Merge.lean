import Treewalk.Proofs.Program.Acceptance
import Treewalk.Proofs.Token.Moved

/-!
# Lexical and syntax errors in one list

Lexical errors and syntax errors are found apart from each other and sorted into one list. A stable
sort of two lists sorts each of them, so neither part of the result depends on the other one: the
lexical part is what scanning reports, which is in order already, and the rest depends on the tokens
only.
-/

namespace Treewalk

set_option autoImplicit false

section Sorting

variable {α β : Type}

/-- The list in the order of the keys; elements with the same key stay in the order they have. -/
def sortOn (key : α → Nat) (list : List α) : List α :=
  list.mergeSort fun left right => key left ≤ key right

theorem sort_on_eq_nil {key : α → Nat} {list : List α} : sortOn key list = [] ↔ list = [] := by
  rw [sortOn, ← List.length_eq_zero_iff, List.length_mergeSort, List.length_eq_zero_iff]

theorem sort_on_sorted (key : α → Nat) (list : List α) :
    (sortOn key list).Pairwise fun left right => key left ≤ key right := by
  have sorted := @List.pairwise_mergeSort α (fun left right => key left ≤ key right)
    (by simpa using fun a b c => Nat.le_trans) (by simpa using fun a b => Nat.le_total _ _) list
  exact sorted.imp of_decide_eq_true

theorem sort_on_of_sorted {key : α → Nat} {list : List α}
    (sorted : list.Pairwise fun left right => key left ≤ key right) : sortOn key list = list :=
  List.mergeSort_of_pairwise (sorted.imp decide_eq_true)

/-- The first element goes in front of all that are not smaller, and behind all others. -/
theorem sort_on_cons (key : α → Nat) (first : α) (rest : List α) :
    ∃ smaller others, sortOn key (first :: rest) = smaller ++ first :: others ∧
      sortOn key rest = smaller ++ others ∧
      (∀ element ∈ smaller, ¬key first ≤ key element) ∧
      ∀ element ∈ others, key first ≤ key element := by
  obtain ⟨smaller, others, whole, split, less⟩ :=
    @List.mergeSort_cons α (fun left right => key left ≤ key right)
      (by simpa using fun a b c => Nat.le_trans) (by simpa using fun a b => Nat.le_total _ _)
      first rest
  have sorted := sort_on_sorted key (first :: rest)
  rw [sortOn, whole] at sorted
  have behind := (List.pairwise_append.mp sorted).2.1
  exact ⟨smaller, others, whole, split, by simpa using less, (List.pairwise_cons.mp behind).1⟩

/-- A list is cut in one way only between elements without and with a property. -/
theorem cut_unique (property : α → Prop) [DecidablePred property]
    {first second before behind : List α} (same : first ++ second = before ++ behind)
    (outside : ∀ element ∈ first, ¬property element)
    (inside : ∀ element ∈ second, property element)
    (outsideToo : ∀ element ∈ before, ¬property element)
    (insideToo : ∀ element ∈ behind, property element) : first = before ∧ second = behind := by
  have none : ∀ {list : List α}, (∀ element ∈ list, ¬property element) →
      list.filter property = [] :=
    fun outside => List.filter_eq_nil_iff.mpr (by simpa using outside)
  have all : ∀ {list : List α}, (∀ element ∈ list, property element) →
      list.filter property = list :=
    fun inside => List.filter_eq_self.mpr (by simpa using inside)
  have filtered := congrArg (List.filter property) same
  rw [List.filter_append, List.filter_append, none outside, none outsideToo, all inside,
    all insideToo, List.nil_append, List.nil_append] at filtered
  subst filtered
  exact ⟨List.append_cancel_right same, rfl⟩

theorem filter_map_sort_on {key : α → Nat} (keyOfPart : β → Nat) {part : α → Option β}
    (kept : ∀ element inside, part element = some inside → key element = keyOfPart inside)
    (list : List α) :
    (sortOn key list).filterMap part = sortOn keyOfPart (list.filterMap part) := by
  induction list with
  | nil => simp [sortOn]
  | cons first rest ih =>
      obtain ⟨smaller, others, whole, split, less, more⟩ := sort_on_cons key first rest
      rw [split, List.filterMap_append] at ih
      rw [whole, List.filterMap_append]
      cases found : part first with
      | none => rw [List.filterMap_cons_none found, List.filterMap_cons_none found, ih]
      | some inside =>
          rw [List.filterMap_cons_some found, List.filterMap_cons_some found]
          obtain ⟨smallerToo, othersToo, wholeToo, splitToo, lessToo, moreToo⟩ :=
            sort_on_cons keyOfPart inside (rest.filterMap part)
          have keys := kept first inside found
          obtain ⟨sameSmaller, sameOthers⟩ :=
            cut_unique (fun element => keyOfPart inside ≤ keyOfPart element)
              (ih.trans splitToo)
              (fun element listed => by
                obtain ⟨origin, present, isPart⟩ := List.mem_filterMap.mp listed
                rw [← keys, ← kept origin element isPart]
                exact less origin present)
              (fun element listed => by
                obtain ⟨origin, present, isPart⟩ := List.mem_filterMap.mp listed
                rw [← keys, ← kept origin element isPart]
                exact more origin present)
              lessToo moreToo
          rw [wholeToo, sameSmaller, sameOthers]

end Sorting

namespace ParseError

def lexical? : ParseError → Option LexError
  | lexical error => some error
  | grammar _ => none

def grammar? : ParseError → Option SyntaxError
  | lexical _ => none
  | grammar error => some error

def start (error : ParseError) : Nat :=
  error.span.start

theorem merge_eq_sort_on (lexical : List LexError) (grammar : List SyntaxError) :
    merge lexical grammar =
      sortOn start (lexical.map ParseError.lexical ++ grammar.map ParseError.grammar) :=
  rfl

theorem merge_lexical (lexical : List LexError) (grammar : List SyntaxError) :
    (merge lexical grammar).filterMap lexical? =
      sortOn (fun error => error.span.start) lexical := by
  rw [merge_eq_sort_on, filter_map_sort_on fun error : LexError => error.span.start]
  · rw [List.filterMap_append, List.filterMap_map, List.filterMap_map]
    have all : (lexical? ∘ ParseError.lexical) = some := rfl
    have none : (lexical? ∘ ParseError.grammar) = fun _ => none := rfl
    rw [all, none, List.filterMap_some, List.filterMap_none, List.append_nil]
  · rintro (error | error) inside found
    · cases found
      rfl
    · cases found

theorem merge_grammar (lexical : List LexError) (grammar : List SyntaxError) :
    (merge lexical grammar).filterMap grammar? =
      sortOn (fun error => error.found.span.start) grammar := by
  rw [merge_eq_sort_on, filter_map_sort_on fun error : SyntaxError => error.found.span.start]
  · rw [List.filterMap_append, List.filterMap_map, List.filterMap_map]
    have all : (grammar? ∘ ParseError.grammar) = some := rfl
    have none : (grammar? ∘ ParseError.lexical) = fun _ => none := rfl
    rw [all, none, List.filterMap_some, List.filterMap_none, List.nil_append]
  · rintro (error | error) inside found
    · cases found
    · cases found
      rfl

end ParseError

/-- Tokens and lexical errors stand in the order of their starts, no two at the same one. -/
theorem listed_starts (source : String) :
    (Scanned.ofText source.toList).listed.Pairwise
      fun item later => item.span.start < later.span.start := by
  have tiles := text_tiles source
  obtain ⟨inside, -, toClosing⟩ := List.pairwise_append.mp tiles.apart
  apply List.pairwise_append.mpr
  refine ⟨?_, List.pairwise_singleton _ _, ?_⟩
  · apply inside.imp_of_mem
    intro item later among _ apart
    exact Nat.lt_of_lt_of_le (tiles.nonempty item among) apart
  · intro item among later ending
    exact Nat.lt_of_lt_of_le (tiles.nonempty item among) (toClosing item among later ending)

theorem lexical_errors_sorted {source : String} (short : source.utf8ByteSize < 2 ^ 32) :
    (Scanned.ofSource source).errors.Pairwise
      fun left right => left.span.start ≤ right.span.start := by
  rw [of_source_of_short short]
  have ordered := (List.pairwise_append.mp (listed_starts source)).1
  apply ordered.filterMap Item.error?
  rintro (token | error) (other | later) starts left isLeft right isRight
  all_goals cases isLeft
  all_goals cases isRight
  exact Nat.le_of_lt starts

theorem errors_of_parse (source : String) :
    ∃ program after,
      Parser.program (Parser.start (Scanned.ofSource source)) = .done program after ∧
      errorsOf (parse source) =
        ParseError.merge (Scanned.ofSource source).errors after.recorded := by
  obtain ⟨program, after, done⟩ :=
    @Parser.program_done (Parser.start (Scanned.ofSource source)) rfl
  refine ⟨program, after, done, ?_⟩
  rw [parse_eq_parsed, Scanned.parsed, done]
  dsimp only
  split
  · rename_i none
    exact none.symm
  · rfl

theorem lexical_of_parse (source : String) :
    (errorsOf (parse source)).filterMap ParseError.lexical? =
      sortOn (fun error => error.span.start) (Scanned.ofSource source).errors := by
  obtain ⟨_, _, -, errors⟩ := errors_of_parse source
  rw [errors, ParseError.merge_lexical]

/-- The errors of a text are in the order of their starts. Their lexical part has what scanning
reports, in this order if places fit in 32 bits, and the rest is what parsing reports if the
characters that start no token are blanks. A text without errors of either kind is accepted. -/
theorem errors_merged_without_loss (source : String) :
    ((errorsOf (parse source)).Pairwise fun left right => left.span.start ≤ right.span.start) ∧
      ((errorsOf (parse source)).filterMap ParseError.lexical?).Perm (errorsOf (scan source)) ∧
      (source.utf8ByteSize < 2 ^ 32 →
        (errorsOf (parse source)).filterMap ParseError.lexical? = errorsOf (scan source)) ∧
      (errorsOf (parse source)).filterMap ParseError.grammar? =
        (errorsOf (parse (withoutStrays source))).filterMap ParseError.grammar? ∧
      ((∃ program, parse source = .ok program) ↔
        (errorsOf (parse source)).filterMap ParseError.lexical? = [] ∧
          (errorsOf (parse source)).filterMap ParseError.grammar? = []) := by
  obtain ⟨program, after, done, errors⟩ := errors_of_parse source
  obtain ⟨_, afterBlanks, doneBlanks, errorsBlanks⟩ := errors_of_parse (withoutStrays source)
  obtain ⟨tokens, closing⟩ := scanned_without_strays source
  have same : after = afterBlanks := by
    rw [Parser.start, tokens, closing, ← Parser.start, done] at doneBlanks
    cases doneBlanks
    rfl
  have lexical := lexical_of_parse source
  refine ⟨?_, ?_, ?_, ?_, ?_⟩
  · rw [errors]
    exact sort_on_sorted ParseError.start _
  · rw [lexical, errors_of_scan]
    exact List.mergeSort_perm _ _
  · intro short
    rw [lexical, errors_of_scan, sort_on_of_sorted (lexical_errors_sorted short)]
  · rw [errors, errorsBlanks, ParseError.merge_grammar, ParseError.merge_grammar, same]
  · rw [lexical, errors, ParseError.merge_grammar, sort_on_eq_nil, sort_on_eq_nil]
    constructor
    · rintro ⟨accepted, parsed⟩
      obtain ⟨clean, _, recorded, ran⟩ := parse_ok_iff_done.mp parsed
      rw [done] at ran
      cases ran
      exact ⟨clean, recorded⟩
    · rintro ⟨clean, recorded⟩
      exact ⟨program, parse_ok_iff_done.mpr ⟨clean, after, recorded, done⟩⟩

theorem errors_merged_stray :
    "print @1 + ;".utf8ByteSize < 2 ^ 32 ∧
      (errorsOf (parse "print @1 + ;")).filterMap ParseError.lexical? =
        errorsOf (scan "print @1 + ;") :=
  have short : "print @1 + ;".utf8ByteSize < 2 ^ 32 := by decide
  ⟨short, (errors_merged_without_loss "print @1 + ;").2.2.1 short⟩

/-- Of two characters that start no token, one in front of the bound and one behind it, the second
has the smaller start and is listed first. -/
theorem far_errors_change_places :
    (errorsOf (parse (behindBlanks (2 ^ 32 - 10) "@              @"))).filterMap
        ParseError.lexical? ≠
      errorsOf (scan (behindBlanks (2 ^ 32 - 10) "@              @")) := by
  intro same
  have sorted := sort_on_sorted (fun error : LexError => error.span.start)
    (Scanned.ofSource (behindBlanks (2 ^ 32 - 10) "@              @")).errors
  rw [← lexical_of_parse, same, errors_of_scan, of_source_behind_blanks] at sorted
  revert sorted
  decide +kernel

end Treewalk
