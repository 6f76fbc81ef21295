import Treewalk.Proofs.Program.Advance

/-!
# The parser reads from left to right

What a run does up to some token depends on the tokens up to there. So if a run over some tokens
goes without errors, then a run over other tokens that begin in the same way has no error in the
common part: either both runs are still in step, or the second one has left the common part, and
from then on its errors stand behind it.
-/

namespace Treewalk

set_option autoImplicit false

/-- The state is among the tokens `rest`, and so are its errors; an error may also stand at the
closing token. -/
structure ParseState.Among (rest : List Token) (closing : Token) (state : ParseState) : Prop where
  ahead : state.ahead <:+ rest
  closed : state.closing = closing
  recorded : ∀ error ∈ state.recorded, error.found ∈ rest ++ [closing]

def Parsed.Among {α : Type} (rest : List Token) (closing : Token) : Parsed ParseState α → Prop
  | .done _ after => after.Among rest closing
  | .failed error after => after.Among rest closing ∧ error.found ∈ rest ++ [closing]
  | .exhausted => True

namespace ParseState.Among

variable {rest : List Token} {closing : Token} {state : ParseState}

theorem skip (among : state.Among rest closing) : state.skip.Among rest closing :=
  ⟨(List.tail_suffix _).trans among.ahead, among.closed, among.recorded⟩

theorem current (among : state.Among rest closing) : state.current ∈ rest ++ [closing] := by
  unfold ParseState.current
  cases tokens : state.ahead with
  | nil =>
      rw [List.headD_nil, among.closed]
      exact List.mem_append_right _ (List.mem_singleton.mpr rfl)
  | cons token others =>
      have inside := among.ahead
      rw [tokens] at inside
      exact List.mem_append_left _ (inside.subset List.mem_cons_self)

theorem record {error : SyntaxError} (among : state.Among rest closing)
    (inside : error.found ∈ rest ++ [closing]) : (state.record error).Among rest closing := by
  refine ⟨among.ahead, among.closed, ?_⟩
  intro other found
  rcases List.mem_append.mp found with earlier | last
  · exact among.recorded other earlier
  · rw [List.mem_singleton.mp last]
    exact inside

end ParseState.Among

namespace Rule

open ParseState

variable {α β : Type} {rest : List Token} {closing : Token} {state : ParseState}

def Confined (rule : Rule ParseState α) : Prop :=
  ∀ rest closing state, state.Among rest closing → (rule state).Among rest closing

theorem bind_among {rule : Rule ParseState α} {next : α → Rule ParseState β}
    (first : (rule state).Among rest closing)
    (second : ∀ value, (next value).Confined) : ((rule >>= next) state).Among rest closing := by
  rw [bind_eq]
  cases ran : rule state with
  | done value between =>
      rw [ran] at first
      exact second value rest closing between first
  | failed error between =>
      rw [ran] at first
      exact first
  | exhausted => trivial

theorem pure_confined (value : α) : (pure value : Rule ParseState α).Confined :=
  fun _ _ _ among => among

theorem bind_confined {rule : Rule ParseState α} {next : α → Rule ParseState β}
    (first : rule.Confined)
    (second : ∀ value, (next value).Confined) : (rule >>= next).Confined :=
  fun rest closing state among => bind_among (first rest closing state among) second

theorem exhausted_confined : (Rule.exhausted : Rule ParseState α).Confined :=
  fun _ _ _ _ => trivial

theorem fail_confined (cause : SyntaxCause) : (Rule.fail cause : Rule ParseState α).Confined :=
  fun _ _ _ among => ⟨among, among.current⟩

theorem accept_confined (kinds : List Kind) : (Rule.accept kinds).Confined := by
  intro rest closing state among
  unfold Rule.accept
  split
  · exact among.skip
  · exact among

theorem expect_confined (slot : Slot) : (Rule.expect slot).Confined := by
  intro rest closing state among
  unfold Rule.expect
  split
  · exact among.skip
  · exact ⟨among, among.current⟩

end Rule

namespace Parser

open Rule ParseState ParseState

theorem recover_among {rule : Rule ParseState Stmt} {rest : List Token} {closing : Token}
    {state : ParseState}
    (ended : (rule state).Among rest closing) : (recover rule state).Among rest closing := by
  cases ran : rule state with
  | done statement after =>
      rw [ran] at ended
      rw [recover_done ran]
      exact ended
  | failed error after =>
      rw [ran] at ended
      rw [recover_failed ran]
      have recorded := ended.1.record ended.2
      exact ⟨(synchronized_suffix _).trans recorded.ahead, recorded.closed, recorded.recorded⟩
  | exhausted =>
      rw [recover_exhausted ran]
      trivial

theorem assigned_confined (left : Expr) {value : Rule ParseState Expr} (inner : value.Confined) :
    (assigned left value).Confined := by
  intro rest closing state among
  by_cases sign : state.current.kind = .equal
  · have ended := inner rest closing state.skip among.skip
    by_cases named : ∃ name, left = .reference name
    · obtain ⟨name, rfl⟩ := named
      rw [assigned_name sign]
      exact bind_among ended fun value => pure_confined _
    · -- The error about the target stands at the equals sign, in front of the value.
      rw [assigned_other (by simpa using named) sign, bind_eq]
      cases ran : value state.skip with
      | done tree after =>
          rw [ran] at ended
          exact ended.record among.current
      | failed error after =>
          rw [ran] at ended
          exact ended
      | exhausted => trivial
  · rw [assigned_absent sign]
    exact among

/-- To stay among the tokens ahead is a property that the grammar keeps. -/
theorem confined_congruence : Congruence fun α (rule _ : Rule ParseState α) => rule.Confined where
  succeed := pure_confined
  andThen := bind_confined
  fail := fail_confined
  current _ _ _ among := among
  isAt _ _ _ _ among := among
  atEnd _ _ _ among := among
  take _ _ _ among := among.skip
  accept := accept_confined
  expect := expect_confined
  assigned left _ _ inner := assigned_confined left inner
  recover inner rest closing state among := recover_among (inner rest closing state among)

theorem expressions_confined (units : Nat) :
    ExpressionsRelated (fun α (rule _ : Rule ParseState α) => rule.Confined) units units := by
  induction units with
  | zero =>
      constructor
      all_goals intros
      all_goals exact exhausted_confined
  | succ units below => exact confined_congruence.expressions_succ below

theorem expression_confined : expression.Confined :=
  fun rest closing state => (expressions_confined _).assignment rest closing state

theorem parameters_confined (units : Nat) : (parameters units).Confined := by
  induction units with
  | zero => exact exhausted_confined
  | succ units below =>
      exact @Congruence.parameters_succ _ _ _ _ _ units units confined_congruence below

theorem parameter_list_confined : parameterList.Confined :=
  fun rest closing state => parameters_confined _ rest closing state

theorem statements_confined (units : Nat) :
    StatementsRelated (fun α (rule _ : Rule ParseState α) => rule.Confined) units units := by
  induction units with
  | zero =>
      constructor
      all_goals intros
      all_goals exact exhausted_confined
  | succ units below =>
      exact confined_congruence.statements_succ expression_confined parameter_list_confined below

end Parser

section Tracking

open Rule ParseState ParseState

variable (mine theirs : List Token) (closing : Token)

/-- Two runs are in the same place in front of `mine` and `theirs`; the first has no errors. -/
def Abreast (left right : ParseState) : Prop :=
  ∃ seen, seen ≠ [] ∧ left = ⟨seen ++ mine, closing, []⟩ ∧ right.ahead = seen ++ theirs

/-- Where the second rule has no errors, the first one does the same or has come among `mine`. -/
structure Tracks {α : Type} (rule other : Rule ParseState α) : Prop where
  confined : rule.Confined
  advances : other.Advances
  inStep : ∀ left right value after, Abreast mine theirs closing left right →
    other right = .done value after → after.recorded = [] →
    (rule left).Among mine closing ∨
      ∃ here, rule left = .done value here ∧ Abreast mine theirs closing here after

end Tracking

section Steps

open Rule ParseState ParseState

variable {mine theirs : List Token} {closing : Token} {left right : ParseState}

theorem Abreast.current (abreast : Abreast mine theirs closing left right) :
    left.current = right.current := by
  obtain ⟨seen, nonempty, rfl, ahead⟩ := abreast
  cases seen with
  | nil => exact absurd rfl nonempty
  | cons token seen => simp [ParseState.current, ahead]

/-- Behind the next token the runs are still in the same place, or the first is in front of `mine`.
-/
theorem Abreast.skip (abreast : Abreast mine theirs closing left right) :
    left.skip.Among mine closing ∨ Abreast mine theirs closing left.skip right.skip := by
  obtain ⟨seen, nonempty, rfl, ahead⟩ := abreast
  cases seen with
  | nil => exact absurd rfl nonempty
  | cons token seen =>
      cases seen with
      | nil => exact .inl ⟨List.suffix_refl _, rfl, fun _ none => by cases none⟩
      | cons next seen =>
          refine .inr ⟨next :: seen, List.cons_ne_nil _ _, rfl, ?_⟩
          rw [ParseState.skip, ahead]
          rfl

variable {α β : Type}

theorem exhausted_tracks {other : Rule ParseState α} (advances : other.Advances) :
    Tracks mine theirs closing Rule.exhausted other :=
  ⟨exhausted_confined, advances, fun _ _ _ _ _ _ _ => .inl trivial⟩

theorem tracks_exhausted {rule : Rule ParseState α} (confined : rule.Confined) :
    Tracks mine theirs closing rule Rule.exhausted :=
  ⟨confined, exhausted_advances, fun _ _ _ _ _ done => by cases done⟩

theorem pure_tracks (value : α) :
    Tracks mine theirs closing (pure value : Rule ParseState α) (pure value) where
  confined := pure_confined value
  advances := pure_advances value
  inStep left right _ _ abreast done _ := by
    obtain ⟨rfl, rfl⟩ := pure_done.mp done
    exact .inr ⟨left, rfl, abreast⟩

theorem bind_tracks {rule other : Rule ParseState α} {next following : α → Rule ParseState β}
    (first : Tracks mine theirs closing rule other)
    (second : ∀ value, Tracks mine theirs closing (next value) (following value)) :
    Tracks mine theirs closing (rule >>= next) (other >>= following) where
  confined := bind_confined first.confined fun value => (second value).confined
  advances := bind_advances first.advances fun value => (second value).advances
  inStep left right value after abreast done clean := by
    obtain ⟨found, between, ran, done⟩ := bind_done.mp done
    have cleanBetween := ((second found).advances.leads done).clean clean
    rcases first.inStep left right found between abreast ran cleanBetween with
      past | ⟨here, same, still⟩
    · exact .inl (bind_among past fun value => (second value).confined)
    · rw [bind_eq, same]
      exact (second found).inStep here between value after still done clean

theorem fail_tracks (cause : SyntaxCause) :
    Tracks mine theirs closing (Rule.fail cause : Rule ParseState α) (Rule.fail cause) :=
  ⟨fail_confined cause, fail_advances cause, fun _ _ _ _ _ done => (fail_done.mp done).elim⟩

theorem look_tracks {look : ParseState → α}
    (advances : Rule.Advances fun state => .done (look state) state)
    (same : ∀ left right, Abreast mine theirs closing left right → look left = look right) :
    Tracks mine theirs closing (fun state => .done (look state) state)
      (fun state => .done (look state) state) where
  confined _ _ _ among := among
  advances := advances
  inStep left right _ _ abreast done _ := by
    cases done
    exact .inr ⟨left, by rw [same left right abreast], abreast⟩

theorem take_tracks : Tracks mine theirs closing Rule.take Rule.take where
  confined _ _ _ among := among.skip
  advances := take_advances
  inStep left right _ _ abreast done _ := by
    obtain ⟨rfl, rfl⟩ := take_done.mp done
    rcases abreast.skip with past | still
    · exact .inl past
    · exact .inr ⟨left.skip, take_done.mpr ⟨abreast.current, rfl⟩, still⟩

theorem accept_tracks (kinds : List Kind) :
    Tracks mine theirs closing (Rule.accept kinds) (Rule.accept kinds) where
  confined := accept_confined kinds
  advances := accept_advances kinds
  inStep left right found after abreast done _ := by
    cases found with
    | none =>
        obtain ⟨missing, rfl⟩ := accept_none.mp done
        rw [← abreast.current] at missing
        exact .inr ⟨left, accept_none.mpr ⟨missing, rfl⟩, abreast⟩
    | some token =>
        obtain ⟨found, rfl, rfl⟩ := accept_some.mp done
        rw [← abreast.current] at found
        have taken := accept_some.mpr ⟨found, abreast.current, rfl⟩
        rcases abreast.skip with past | still
        · rw [taken]
          exact .inl past
        · exact .inr ⟨left.skip, taken, still⟩

theorem expect_tracks (slot : Slot) :
    Tracks mine theirs closing (Rule.expect slot) (Rule.expect slot) where
  confined := expect_confined slot
  advances := expect_advances slot
  inStep left right _ _ abreast done _ := by
    obtain ⟨found, rfl, rfl⟩ := expect_done.mp done
    rw [← abreast.current] at found
    have taken := expect_done.mpr ⟨found, abreast.current, rfl⟩
    rcases abreast.skip with past | still
    · rw [taken]
      exact .inl past
    · exact .inr ⟨left.skip, taken, still⟩

theorem recover_tracks {rule other : Rule ParseState Stmt}
    (inner : Tracks mine theirs closing rule other) :
    Tracks mine theirs closing (Parser.recover rule) (Parser.recover other) where
  confined rest closing state among :=
    Parser.recover_among (inner.confined rest closing state among)
  advances := Parser.recover_advances inner.advances
  inStep left right found after abreast done clean := by
    obtain ⟨tree, rfl, ran⟩ := Parser.recover_clean done clean
    rcases inner.inStep left right tree after abreast ran clean with past | ⟨here, same, still⟩
    · exact .inl (Parser.recover_among past)
    · right
      unfold Parser.recover
      rw [same]
      exact ⟨here, rfl, still⟩

theorem assigned_tracks (target : Expr) {value other : Rule ParseState Expr}
    (inner : Tracks mine theirs closing value other) :
    Tracks mine theirs closing (Parser.assigned target value) (Parser.assigned target other) where
  confined := Parser.assigned_confined target inner.confined
  advances := Parser.assigned_advances target inner.advances
  inStep left right tree after abreast done clean := by
    by_cases sign : right.current.kind = .equal
    · have signLeft : left.current.kind = .equal := by rw [abreast.current, sign]
      obtain ⟨name, rfl⟩ := Parser.assigned_clean sign done clean
      rw [Parser.assigned_name sign] at done
      rw [Parser.assigned_name signLeft]
      have later := bind_tracks inner fun tree => pure_tracks (Expr.assign name tree)
      rcases abreast.skip with past | still
      · exact .inl (later.confined _ _ _ past)
      · exact later.inStep _ _ tree after still done clean
    · rw [Parser.assigned_absent sign] at done
      cases done
      exact .inr ⟨left, Parser.assigned_absent (by rw [abreast.current]; exact sign), abreast⟩

theorem tracks_congruence : Congruence fun _ => Tracks mine theirs closing where
  succeed := pure_tracks
  andThen := bind_tracks
  fail := fail_tracks
  current := look_tracks current_advances fun _ _ abreast => abreast.current
  isAt kind := look_tracks (is_at_advances kind) fun _ _ abreast => by
    simp only [supply_current, abreast.current]
  atEnd := look_tracks at_end_advances fun left right abreast => by
    obtain ⟨seen, nonempty, rfl, ahead⟩ := abreast
    cases seen with
    | nil => exact absurd rfl nonempty
    | cons token seen => simp [ahead]
  take := take_tracks
  accept := accept_tracks
  expect := expect_tracks
  assigned := assigned_tracks
  recover := recover_tracks

end Steps

namespace Parser

open Rule ParseState ParseState

variable (mine theirs : List Token) (closing : Token)

theorem expressions_track (units others : Nat) :
    ExpressionsRelated (fun _ => Tracks mine theirs closing) units others := by
  induction units generalizing others with
  | zero =>
      have advance := expressions_advance others
      constructor
      · exact exhausted_tracks advance.assignment
      · exact fun levels => exhausted_tracks (advance.operation levels)
      · exact fun level tighter left => exhausted_tracks (advance.operators level tighter left)
      · exact exhausted_tracks advance.unary
      · exact fun callee => exhausted_tracks (advance.calls callee)
      · exact exhausted_tracks advance.arguments
      · exact exhausted_tracks advance.primary
  | succ units below =>
      cases others with
      | zero =>
          have confined := expressions_confined (units + 1)
          constructor
          · exact tracks_exhausted confined.assignment
          · exact fun levels => tracks_exhausted (confined.operation levels)
          · exact fun level tighter left => tracks_exhausted (confined.operators level tighter left)
          · exact tracks_exhausted confined.unary
          · exact fun callee => tracks_exhausted (confined.calls callee)
          · exact tracks_exhausted confined.arguments
          · exact tracks_exhausted confined.primary
      | succ others => exact tracks_congruence.expressions_succ (below others)

theorem budgeted_tracks {α : Type} {rule : Nat → Rule ParseState α}
    (inner : ∀ units others, Tracks mine theirs closing (rule units) (rule others)) :
    Tracks mine theirs closing (fun state => rule (budget state.ahead.length) state)
      (fun state => rule (budget state.ahead.length) state) where
  confined rest closing state := (inner _ 0).confined rest closing state
  advances state := (inner 0 _).advances state
  inStep left right := (inner _ _).inStep left right

theorem parameters_track (units others : Nat) :
    Tracks mine theirs closing (parameters units) (parameters others) := by
  induction units generalizing others with
  | zero => exact exhausted_tracks (parameters_advances others)
  | succ units below =>
      cases others with
      | zero => exact tracks_exhausted (parameters_confined (units + 1))
      | succ others => exact tracks_congruence.parameters_succ (below others)

theorem statements_track (units others : Nat) :
    StatementsRelated (fun _ => Tracks mine theirs closing) units others := by
  have expression : Tracks mine theirs closing expression expression :=
    budgeted_tracks mine theirs closing fun units others =>
      (expressions_track mine theirs closing units others).assignment
  have parameters : Tracks mine theirs closing parameterList parameterList :=
    budgeted_tracks mine theirs closing (parameters_track mine theirs closing)
  induction units generalizing others with
  | zero =>
      have advance := statements_advance others
      constructor
      · exact exhausted_tracks advance.statement
      · exact exhausted_tracks advance.forStatement
      · exact exhausted_tracks advance.ifStatement
      · exact exhausted_tracks advance.whileStatement
      · exact exhausted_tracks advance.blockStatement
      · exact exhausted_tracks advance.functionStatement
      · exact fun insideBlock => exhausted_tracks (advance.declarations insideBlock)
      · exact exhausted_tracks advance.declaration
  | succ units below =>
      cases others with
      | zero =>
          have confined := statements_confined (units + 1)
          constructor
          · exact tracks_exhausted confined.statement
          · exact tracks_exhausted confined.forStatement
          · exact tracks_exhausted confined.ifStatement
          · exact tracks_exhausted confined.whileStatement
          · exact tracks_exhausted confined.blockStatement
          · exact tracks_exhausted confined.functionStatement
          · exact fun insideBlock => tracks_exhausted (confined.declarations insideBlock)
          · exact tracks_exhausted confined.declaration
      | succ others => exact tracks_congruence.statements_succ expression parameters (below others)

/-- If tokens can go on to a program, then a run over them has no error in them, however they do go
on. -/
theorem program_local {seen mine theirs : List Token} {closing : Token} {right after : ParseState}
    {trees : Program} (nonempty : seen ≠ []) (ahead : right.ahead = seen ++ theirs)
    (done : program right = .done trees after) (clean : after.recorded = [])
    (ended : after.ahead = []) :
    (program ⟨seen ++ mine, closing, []⟩).Among mine closing := by
  have tracks : Tracks mine theirs closing program program :=
    budgeted_tracks mine theirs closing fun units others =>
      (statements_track mine theirs closing units others).declarations false
  rcases tracks.inStep _ right trees after ⟨seen, nonempty, rfl, ahead⟩ done clean with
    past | ⟨here, -, behind, some, -, left⟩
  · exact past
  · rw [ended] at left
    exact absurd (List.append_eq_nil_iff.mp left.symm).1 some

end Parser

end Treewalk
