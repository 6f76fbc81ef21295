import Mathlib.Data.List.Perm.Subperm
import Treewalk.Proofs.Program.Concatenation

/-!
# Each token is blamed at most once

A rule that fails leaves the token that it blames ahead, and recovery drops this token before
anything else; a wrong target is blamed on an equals sign that has been taken. So every error that a
rule records can be charged to a token that the rule has taken, no two errors to the same one. Only
the closing token, which is never taken, can be blamed again and again.
-/

namespace Treewalk

set_option autoImplicit false

namespace ParseState

/-- The errors recorded between two states are charged to the tokens taken between them, at most one
to each, or to the closing token. -/
def Charges (before after : ParseState) : Prop :=
  ∃ taken fresh ends, before.ahead = taken ++ after.ahead ∧ after.closing = before.closing ∧
    after.recorded = before.recorded ++ fresh ∧
    (fresh.map SyntaxError.found).Subperm (taken ++ List.replicate ends before.closing)

theorem charges_of_suffix {before after : ParseState} (shorter : after.ahead <:+ before.ahead)
    (closing : after.closing = before.closing) (recorded : after.recorded = before.recorded) :
    before.Charges after := by
  obtain ⟨taken, split⟩ := shorter
  exact ⟨taken, [], 0, split.symm, closing, by rw [recorded, List.append_nil],
    List.nil_subperm⟩

theorem charges_refl (state : ParseState) : state.Charges state :=
  charges_of_suffix (List.suffix_refl _) rfl rfl

theorem charges_skip (state : ParseState) : state.Charges state.skip :=
  charges_of_suffix (List.tail_suffix _) rfl rfl

theorem Charges.trans {first second third : ParseState} (earlier : first.Charges second)
    (later : second.Charges third) : first.Charges third := by
  obtain ⟨taken, fresh, ends, split, closing, recorded, charged⟩ := earlier
  obtain ⟨more, others, further, splitMore, closingMore, recordedMore, chargedMore⟩ := later
  refine ⟨taken ++ more, fresh ++ others, ends + further, ?_, ?_, ?_, ?_⟩
  · rw [split, splitMore, List.append_assoc]
  · rw [closingMore, closing]
  · rw [recordedMore, recorded, List.append_assoc]
  · rw [closing] at chargedMore
    rw [List.map_append, List.replicate_add]
    apply (charged.append chargedMore).trans
    apply List.Perm.subperm
    simp only [List.append_assoc]
    apply List.Perm.append_left
    rw [← List.append_assoc, ← List.append_assoc]
    exact List.Perm.append_right _ List.perm_append_comm

/-- An error at a token that has been taken, with nothing charged to this token so far. -/
theorem Charges.blame {state after : ParseState} (cause : SyntaxCause)
    (later : state.skip.Charges after) :
    state.Charges (after.record ⟨cause, state.current⟩) := by
  obtain ⟨taken, fresh, ends, split, closing, recorded, charged⟩ := later
  have appended : (after.record ⟨cause, state.current⟩).recorded =
      state.recorded ++ (fresh ++ [⟨cause, state.current⟩]) := by
    rw [← List.append_assoc]
    exact congrArg (· ++ _) recorded
  cases tokens : state.ahead with
  | nil =>
      have isClosing : state.current = state.closing := by rw [current, tokens]; rfl
      have none : taken ++ after.ahead = [] := by rw [← split, skip, tokens]; rfl
      refine ⟨taken, _, ends + 1, tokens.trans none.symm, closing, appended, ?_⟩
      rw [List.map_append, List.replicate_add, ← List.append_assoc, isClosing]
      exact (List.subperm_append_right _).mpr charged
  | cons token rest =>
      have isFirst : state.current = token := by rw [current, tokens]; rfl
      have others : rest = taken ++ after.ahead := by rw [← split, skip, tokens]; rfl
      refine ⟨token :: taken, _, ends, ?_, closing, appended, ?_⟩
      · rw [tokens, others]
        rfl
      · rw [List.map_append, isFirst]
        exact (List.perm_append_singleton _ _).subperm.trans
          ((List.subperm_cons token).mpr charged)

end ParseState

/-- The errors that the rule records are charged to tokens, and if it fails, it blames the token
that is looked at then. -/
def Parsed.Charges {α : Type} (before : ParseState) : Parsed ParseState α → Prop
  | .done _ after => before.Charges after
  | .failed error after => before.Charges after ∧ error.found = after.current
  | .exhausted => True

theorem Parsed.Charges.trans {α : Type} {before between : ParseState} {parsed : Parsed ParseState α}
    (earlier : before.Charges between) (later : parsed.Charges between) :
    parsed.Charges before := by
  cases parsed with
  | done value after => exact ParseState.Charges.trans earlier later
  | failed error after => exact ⟨ParseState.Charges.trans earlier later.1, later.2⟩
  | exhausted => trivial

namespace Rule

open ParseState

variable {α β : Type}

def Charges (rule : Rule ParseState α) : Prop :=
  ∀ state, (rule state).Charges state

theorem pure_charges (value : α) : (pure value : Rule ParseState α).Charges :=
  fun state => charges_refl state

theorem bind_charges {rule : Rule ParseState α} {next : α → Rule ParseState β}
    (first : rule.Charges)
    (second : ∀ value, (next value).Charges) : (rule >>= next).Charges := by
  intro state
  have charged := first state
  rw [bind_eq]
  cases ran : rule state with
  | done value between =>
      rw [ran] at charged
      exact Parsed.Charges.trans charged (second value between)
  | failed error between =>
      rw [ran] at charged
      exact charged
  | exhausted => trivial

theorem accept_charges (kinds : List Kind) : (Rule.accept kinds).Charges := by
  intro state
  unfold Rule.accept
  split
  · exact charges_skip state
  · exact charges_refl state

theorem expect_charges (slot : Slot) : (Rule.expect slot).Charges := by
  intro state
  unfold Rule.expect
  split
  · exact charges_skip state
  · exact ⟨charges_refl state, rfl⟩

theorem exhausted_charges : (Rule.exhausted : Rule ParseState α).Charges :=
  fun _ => trivial

end Rule

namespace Parser

open Rule ParseState ParseState

theorem assigned_charges (left : Expr) {value : Rule ParseState Expr} (inner : value.Charges) :
    (assigned left value).Charges := by
  intro state
  by_cases sign : state.current.kind = .equal
  · by_cases name : ∃ name, left = .reference name
    · obtain ⟨name, rfl⟩ := name
      rw [assigned_name sign]
      apply Parsed.Charges.trans (charges_skip state)
      exact bind_charges inner (fun tree => pure_charges _) state.skip
    · rw [assigned_other (fun found same => name ⟨found, same⟩) sign]
      have charged := inner state.skip
      rw [bind_eq]
      cases ran : value state.skip with
      | done tree after =>
          rw [ran] at charged
          exact Charges.blame .badTarget charged
      | failed error after =>
          rw [ran] at charged
          exact Parsed.Charges.trans (charges_skip state) charged
      | exhausted => trivial
  · rw [assigned_absent sign]
    exact charges_refl state

theorem synchronized_drops (tokens : List Token) : synchronized tokens <:+ tokens.tail := by
  cases tokens with
  | nil => exact List.suffix_refl _
  | cons token rest =>
      unfold synchronized
      split
      · exact List.suffix_refl _
      · split
        · exact List.nil_suffix
        · split
          · exact List.suffix_refl _
          · exact synchronized_suffix _

theorem recover_charges {rule : Rule ParseState Stmt} (inner : rule.Charges) :
    (recover rule).Charges := by
  intro state
  have charged := inner state
  cases ran : rule state with
  | done statement after =>
      rw [ran] at charged
      rw [recover_done ran]
      exact charged
  | failed error after =>
      rw [ran] at charged
      rw [recover_failed ran]
      obtain ⟨cause, found⟩ := error
      obtain ⟨before, rfl⟩ := charged
      have dropped : after.skip.Charges { after with ahead := synchronized after.ahead } :=
        charges_of_suffix (synchronized_drops after.ahead) rfl rfl
      exact before.trans (dropped.blame cause)
  | exhausted =>
      rw [recover_exhausted ran]
      trivial

theorem charges_congruence : Congruence fun α (rule _ : Rule ParseState α) => rule.Charges where
  succeed := pure_charges
  andThen := bind_charges
  fail _ state := ⟨charges_refl state, rfl⟩
  current := charges_refl
  isAt _ := charges_refl
  atEnd := charges_refl
  take := charges_skip
  accept := accept_charges
  expect := expect_charges
  assigned left _ _ inner := assigned_charges left inner
  recover := recover_charges

theorem expressions_charge (units : Nat) :
    ExpressionsRelated (fun α (rule _ : Rule ParseState α) => rule.Charges) units units := by
  induction units with
  | zero =>
      constructor
      all_goals intros
      all_goals exact exhausted_charges
  | succ units below => exact charges_congruence.expressions_succ below

theorem expression_charges : expression.Charges :=
  fun state => (expressions_charge _).assignment state

theorem parameters_charge (units : Nat) : (parameters units).Charges := by
  induction units with
  | zero => exact exhausted_charges
  | succ units below =>
      exact @Congruence.parameters_succ _ _ _ _ _ units units charges_congruence below

theorem statements_charge (units : Nat) :
    StatementsRelated (fun α (rule _ : Rule ParseState α) => rule.Charges) units units := by
  induction units with
  | zero =>
      constructor
      all_goals intros
      all_goals exact exhausted_charges
  | succ units below =>
      exact charges_congruence.statements_succ expression_charges
        (fun state => parameters_charge _ state) below

theorem program_charges : program.Charges :=
  fun state => (statements_charge _).declarations false state

/-- The loop over declarations is at its end: at the end of the input or, inside a block, at a
closing brace. -/
def Halts (insideBlock : Bool) (state : ParseState) : Prop :=
  state.ahead = [] ∨ insideBlock = true ∧ state.current.kind = .rightBrace

/-- The turns of the loop over declarations. Each of them takes a token or more. -/
inductive Turns (insideBlock : Bool) : ParseState → List Stmt → ParseState → Prop where
  | stop {state : ParseState} (halts : Halts insideBlock state) :
      Turns insideBlock state [] state
  | turn {before between after : ParseState} {units : Nat} {first : Option Stmt}
      {rest : List Stmt} {token : Token} {taken : List Token} (goes : ¬Halts insideBlock before)
      (ran : declaration units before = .done first between)
      (progress : before.ahead = token :: (taken ++ between.ahead))
      (later : Turns insideBlock between rest after) :
      Turns insideBlock before (first.toList ++ rest) after

theorem declaration_progress {units : Nat} {before between : ParseState} {first : Option Stmt}
    (closed : before.Closed) (some : before.ahead ≠ [])
    (ran : declaration units before = .done first between) :
    ∃ token taken, before.ahead = token :: (taken ++ between.ahead) := by
  have shorter : between.ahead.length < before.ahead.length := by
    let more := 12 * before.ahead.length + 3
    have ends := (statements_end (units + more)).declaration before closed some
      (Nat.le_add_left _ _)
    have same := (statements_extend (Nat.le_add_right units more)).declaration before
      (by rw [ran]; exact nofun)
    rw [same, ran] at ends
    exact ends.2
  obtain ⟨taken, split⟩ := ((statements_advance units).declaration.leads ran).ahead
  cases taken with
  | nil =>
      rw [← split] at shorter
      exact absurd shorter (Nat.lt_irrefl _)
  | cons token taken => exact ⟨token, taken, split.symm⟩

/-- Every turn of a loop over declarations takes a token, and the loop stops where it should. -/
theorem declarations_turn {units : Nat} {insideBlock : Bool} {before after : ParseState}
    {trees : List Stmt} (closed : before.Closed)
    (done : declarations units insideBlock before = .done trees after) :
    Turns insideBlock before trees after := by
  induction units generalizing before trees with
  | zero => cases done
  | succ units ih =>
      unfold declarations at done
      rw [bind_of_done (is_at_eq _ _), bind_of_done (at_end_done.mpr ⟨rfl, rfl⟩)] at done
      have halts_iff : (before.ahead.isEmpty || (insideBlock &&
          decide (before.current.kind = .rightBrace))) = true ↔ Halts insideBlock before := by
        simp [Halts]
      split at done
      · rename_i halts
        obtain ⟨rfl, rfl⟩ := pure_done.mp done
        exact .stop (halts_iff.mp halts)
      · rename_i going
        have goes : ¬Halts insideBlock before := fun halts => going (halts_iff.mpr halts)
        obtain ⟨first, between, ran, done⟩ := bind_done.mp done
        obtain ⟨rest, last, later, done⟩ := bind_done.mp done
        obtain ⟨rfl, rfl⟩ := pure_done.mp done
        obtain ⟨token, taken, progress⟩ :=
          declaration_progress closed (fun ended => goes (.inl ended)) ran
        have leads := (statements_advance units).declaration.leads ran
        exact .turn goes ran progress (ih (leads.closed closed) later)

theorem Turns.halts {insideBlock : Bool} {before after : ParseState} {trees : List Stmt}
    (turns : Turns insideBlock before trees after) : Halts insideBlock after := by
  induction turns with
  | stop halts => exact halts
  | turn goes ran progress later ih => exact ih

end Parser

def Token.Apart (closing first second : Token) : Prop :=
  first.span.start ≠ second.span.start ∨ first = closing ∧ second = closing

theorem Token.Apart.symm {closing first second : Token} (apart : Apart closing first second) :
    Apart closing second first :=
  apart.imp Ne.symm And.symm

/-- The tokens of a text start in different places, however often the closing token is listed. -/
theorem blamed_tokens_apart (source : String) (ends : Nat) :
    ((Scanned.ofText source.toList).tokens ++
      List.replicate ends (Scanned.ofText source.toList).closing).Pairwise
      (Token.Apart (Scanned.ofText source.toList).closing) := by
  obtain ⟨inside, -, toClosing⟩ := List.pairwise_append.mp (listed_starts source)
  refine List.pairwise_append.mpr ⟨?_, ?_, ?_⟩
  · apply inside.filterMap Item.token?
    rintro (token | error) (other | later) starts left isLeft right isRight
    all_goals cases isLeft
    all_goals cases isRight
    exact .inl (Nat.ne_of_lt starts)
  · exact List.pairwise_replicate.mpr (.inr (.inr ⟨rfl, rfl⟩))
  · intro token among closing listed
    obtain ⟨item, listedItem, isToken⟩ := List.mem_filterMap.mp among
    obtain rfl := List.eq_of_mem_replicate listed
    cases item with
    | error fault => cases isToken
    | token same =>
        cases isToken
        exact .inl (Nat.ne_of_lt (toClosing _ listedItem _ (List.mem_singleton.mpr rfl)))

/-- The errors of a run are at its tokens, one at most at each, or at the closing one. -/
theorem recorded_subperm {scanned : Scanned} {program : Program} {after : ParseState}
    (done : Parser.program (Parser.start scanned) = .done program after) :
    ∃ ends, (after.recorded.map SyntaxError.found).Subperm
      (scanned.tokens ++ List.replicate ends scanned.closing) := by
  have charged := Parser.program_charges (Parser.start scanned)
  rw [done] at charged
  obtain ⟨taken, fresh, ends, split, -, recorded, charged⟩ := charged
  change scanned.tokens = _ at split
  refine ⟨ends, ?_⟩
  rw [recorded, split]
  exact charged.trans (List.sublist_append_left taken _ |>.append_right _).subperm

theorem sorted_apart {closing : Token} {recorded : List SyntaxError}
    (apart : recorded.Pairwise fun error later => Token.Apart closing error.found later.found) :
    (sortOn (fun error => error.found.span.start) recorded).Pairwise fun error later =>
      error.found.span.start < later.found.span.start ∨
        error.found = closing ∧ later.found = closing := by
  let start : SyntaxError → Nat := fun error => error.found.span.start
  have perm : (sortOn start recorded).Perm recorded := List.mergeSort_perm _ _
  have apartToo := (perm.pairwise_iff fun {first second} => Token.Apart.symm).mpr apart
  apply ((sort_on_sorted start recorded).and apartToo).imp
  rintro error later ⟨ordered, different | same⟩
  · exact .inl (Nat.lt_of_le_of_ne ordered different)
  · exact .inr same

/-- Parsing ends at the closing token, with the whole text read and no token left that was scanned.
Every turn of a loop over declarations takes a token or more, in a block and outside of all blocks.
The syntax errors are at tokens, one at most at each but the closing one; if places fit in 32 bits,
they are listed by where these tokens start. -/
theorem parsing_ends_and_blames_once (source : String) :
    let scanned := Scanned.ofSource source
    let pulls := source.toList.map Pull.char
    (∃ program after puller,
      Parser.program (Puller.start (.ofText source.toList)) = .done program puller ∧
      puller.current = scanned.closing ∧ puller.scanner.feed.pulls = [] ∧
      after.Mirrors pulls scanned.errors puller ∧ after.ahead = [] ∧
      Parser.Turns false (Parser.start scanned) program after) ∧
    (∀ errors units more insideBlock before puller trees after, units ≤ more →
      before.Mirrors pulls errors puller →
      Parser.declarations units insideBlock before = .done trees after →
      Parser.Turns insideBlock before trees after ∧
      ∃ behind, Parser.declarations more insideBlock puller = .done trees behind ∧
        after.Mirrors pulls errors behind) ∧
    (∃ ends, (((errorsOf (parse source)).filterMap ParseError.grammar?).map
      SyntaxError.found).Subperm (scanned.tokens ++ List.replicate ends scanned.closing)) ∧
    (source.utf8ByteSize < 2 ^ 32 →
      ((errorsOf (parse source)).filterMap ParseError.grammar?).Pairwise fun error later =>
        error.found.span.start < later.found.span.start ∨
          error.found = scanned.closing ∧ later.found = scanned.closing) := by
  intro scanned pulls
  obtain ⟨program, after, done, errors⟩ := errors_of_parse source
  rw [errors, ParseError.merge_grammar]
  obtain ⟨ends, charged⟩ := recorded_subperm done
  refine ⟨?_, ?_, ⟨ends, ?_⟩, ?_⟩
  · obtain ⟨program, after, puller, ran⟩ := puller_ran pulls
    have read := ran.drained.pulls_of_none
      ((Feed.fault_none_iff ran.reads ran.drained).mpr (clean_chars source.toList))
    have listed := ran.listed
    have mirrors := ran.mirrors
    have current := ran.current
    rw [of_pulls_of_chars] at listed mirrors current
    refine ⟨program, after, puller, ?_, current, read, mirrors, ran.ended, ?_⟩
    · rw [Feed.of_text]
      exact ran.pulled
    · exact Parser.declarations_turn rfl listed
  · intro errors units more insideBlock before puller trees after enough mirrors ran
    exact ⟨Parser.declarations_turn mirrors.closed ran,
      ((Parser.statements_mirror enough).declarations insideBlock).done mirrors ran⟩
  · exact ((List.mergeSort_perm _ _).map _).subperm.trans charged
  · intro short
    apply sorted_apart
    have apart := blamed_tokens_apart source ends
    rw [← of_source_of_short short] at apart
    obtain ⟨listed, same, sublist⟩ := charged
    have founds := (same.pairwise_iff fun {first second} => Token.Apart.symm).mp
      (apart.sublist sublist)
    exact List.pairwise_map.mp founds

end Treewalk
