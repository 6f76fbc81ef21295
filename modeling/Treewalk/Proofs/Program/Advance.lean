import Treewalk.Proofs.Program.Congruence

/-!
# The parser moves forward

All rules of the grammar advance: each is put together from steps that do.
-/

namespace Treewalk.Parser

set_option autoImplicit false

open Rule

def synchronized : List Token → List Token
  | [] => []
  | token :: rest =>
      if token.kind = .semicolon then rest
      else
        match rest with
        | [] => []
        | next :: _ => if next.kind.startsStatement then rest else synchronized rest

section Synchronize

variable {σ : Type} [Supply σ] {state : σ}

theorem synchronize_ended {units : Nat} (ended : Supply.isAtEnd state = true) :
    synchronize units state = state := by
  cases units with
  | zero => rfl
  | succ units => rw [synchronize, if_pos ended]

theorem synchronize_inside (units : Nat) (inside : Supply.isAtEnd state = false) :
    synchronize (units + 1) state =
      if (Supply.current state).kind = .semicolon then Supply.advance state
      else if (Supply.current (Supply.advance state)).kind.startsStatement then Supply.advance state
      else synchronize units (Supply.advance state) := by
  rw [synchronize, if_neg (by simp [inside])]

end Synchronize

theorem synchronize_cons (units : Nat) (token : Token) (rest : List Token) (closing : Token)
    (recorded : List SyntaxError) :
    synchronize (units + 1) (⟨token :: rest, closing, recorded⟩ : ParseState) =
      if token.kind = .semicolon then ⟨rest, closing, recorded⟩
      else if (rest.headD closing).kind.startsStatement = true then ⟨rest, closing, recorded⟩
      else synchronize units ⟨rest, closing, recorded⟩ :=
  rfl

theorem synchronize_listed {units : Nat} {state : ParseState}
    (enough : state.ahead.length ≤ units) :
    synchronize units state = { state with ahead := synchronized state.ahead } := by
  obtain ⟨ahead, closing, recorded⟩ := state
  induction units generalizing ahead with
  | zero =>
      obtain rfl := List.length_eq_zero_iff.mp (Nat.le_zero.mp enough)
      rfl
  | succ units ih =>
      cases ahead with
      | nil => rfl
      | cons token rest =>
          rw [synchronize_cons, ih rest (Nat.le_of_succ_le_succ enough)]
          by_cases last : token.kind = .semicolon
          · simp [synchronized, last]
          · cases rest with
            | nil => simp [synchronized, last]
            | cons next others =>
                by_cases starts : next.kind.startsStatement = true
                · simp [synchronized, last, starts]
                · rw [if_neg last, List.headD_cons, if_neg starts]
                  rw [synchronized.eq_def (token :: next :: others)]
                  simp [last, starts]

theorem recover_done {rule : Rule ParseState Stmt} {before after : ParseState} {tree : Stmt}
    (done : rule before = .done tree after) : recover rule before = .done (some tree) after := by
  rw [recover, done]

theorem recover_failed {rule : Rule ParseState Stmt} {before after : ParseState}
    {error : SyntaxError} (failed : rule before = .failed error after) :
    recover rule before =
      .done none { after.record error with ahead := synchronized after.ahead } := by
  rw [recover, failed]
  exact congrArg (Parsed.done none) (synchronize_listed (Nat.le_refl _))

theorem recover_exhausted {rule : Rule ParseState Stmt} {before : ParseState}
    (exhausted : rule before = .exhausted) : recover rule before = .exhausted := by
  rw [recover, exhausted]

theorem synchronized_suffix (tokens : List Token) : synchronized tokens <:+ tokens := by
  induction tokens with
  | nil => exact List.suffix_refl _
  | cons token rest ih =>
      unfold synchronized
      split
      · exact List.suffix_cons token rest
      · split
        · exact List.nil_suffix
        · split
          · exact List.suffix_cons token _
          · exact ih.trans (List.suffix_cons token _)

theorem recover_advances {rule : Rule ParseState Stmt} (inner : rule.Advances) :
    (recover rule).Advances := by
  intro state
  have moved := inner state
  cases ran : rule state with
  | done statement after =>
      rw [ran] at moved
      rw [recover_done ran]
      exact moved
  | failed error after =>
      rw [ran] at moved
      rw [recover_failed ran]
      apply ParseState.Leads.trans moved
      exact ⟨rfl, synchronized_suffix _, List.prefix_append _ _⟩
  | exhausted =>
      rw [recover_exhausted ran]
      trivial

theorem recover_clean {rule : Rule ParseState Stmt} {before after : ParseState}
    {found : Option Stmt}
    (done : recover rule before = .done found after) (clean : after.recorded = []) :
    ∃ tree, found = some tree ∧ rule before = .done tree after := by
  cases ran : rule before with
  | done tree ended =>
      rw [recover_done ran] at done
      cases done
      exact ⟨tree, rfl, rfl⟩
  | failed error ended =>
      rw [recover_failed ran] at done
      cases done
      simp [ParseState.record] at clean
  | exhausted =>
      rw [recover_exhausted ran] at done
      cases done

theorem assigned_advances (left : Expr) {value : Rule ParseState Expr} (inner : value.Advances) :
    (assigned left value).Advances := by
  unfold assigned
  refine bind_advances (accept_advances _) fun equals => ?_
  cases equals with
  | none => exact pure_advances _
  | some equals =>
      refine bind_advances inner fun value => ?_
      cases left with
      | reference name => exact pure_advances _
      | _ => exact bind_advances (record_advances _ _) fun _ => pure_advances _

theorem advances_congruence : Congruence fun α (rule _ : Rule ParseState α) => rule.Advances where
  succeed := pure_advances
  andThen := bind_advances
  fail := fail_advances
  current := current_advances
  isAt := is_at_advances
  atEnd := at_end_advances
  take := take_advances
  accept := accept_advances
  expect := expect_advances
  assigned left _ _ inner := assigned_advances left inner
  recover := recover_advances

theorem expressions_advance (units : Nat) :
    ExpressionsRelated (fun α (rule _ : Rule ParseState α) => rule.Advances) units units := by
  induction units with
  | zero =>
      constructor
      all_goals intros
      all_goals exact exhausted_advances
  | succ units below => exact advances_congruence.expressions_succ below

theorem expression_advances : expression.Advances :=
  fun state => (expressions_advance _).assignment state

theorem parameters_advances (units : Nat) : (parameters units).Advances := by
  induction units with
  | zero => exact exhausted_advances
  | succ units below =>
      exact @Congruence.parameters_succ _ _ _ _ _ units units advances_congruence below

theorem parameter_list_advances : parameterList.Advances :=
  fun state => parameters_advances _ state

theorem variable_declaration_advances : variableDeclaration.Advances :=
  advances_congruence.variable_declaration expression_advances

theorem for_initial_advances : forInitial.Advances :=
  advances_congruence.for_initial expression_advances

theorem for_clauses_advances : forClauses.Advances :=
  advances_congruence.for_clauses expression_advances

theorem function_head_advances : functionHead.Advances :=
  advances_congruence.function_head parameter_list_advances

theorem statements_advance (units : Nat) :
    StatementsRelated (fun α (rule _ : Rule ParseState α) => rule.Advances) units units := by
  induction units with
  | zero =>
      constructor
      all_goals intros
      all_goals exact exhausted_advances
  | succ units below =>
      exact advances_congruence.statements_succ expression_advances parameter_list_advances below

end Treewalk.Parser
