import Treewalk.Program.Parser

/-!
# How rules move

Every rule of the parser only moves forward: what is ahead afterwards is the end of what was ahead
before, the closing token stays, and errors that have been recorded stay recorded. This holds
whether the rule succeeds or fails. A rule that succeeds falls apart into the steps of its body,
each of which succeeded.
-/

namespace Treewalk

set_option autoImplicit false

namespace ParseState

@[simp]
theorem supply_current (state : ParseState) : Supply.current state = state.current :=
  rfl

@[simp]
theorem supply_is_at_end (state : ParseState) : Supply.isAtEnd state = state.ahead.isEmpty :=
  rfl

@[simp]
theorem supply_advance (state : ParseState) : Supply.advance state = state.skip :=
  rfl

@[simp]
theorem supply_record (error : SyntaxError) (state : ParseState) :
    Supply.record error state = state.record error :=
  rfl

@[simp]
theorem supply_room (state : ParseState) : Supply.room state = state.ahead.length :=
  rfl

structure Leads (before after : ParseState) : Prop where
  closing : after.closing = before.closing
  ahead : after.ahead <:+ before.ahead
  recorded : before.recorded <+: after.recorded

theorem leads_refl (state : ParseState) : state.Leads state :=
  ⟨rfl, List.suffix_refl _, List.prefix_refl _⟩

theorem Leads.trans {first second third : ParseState} (earlier : first.Leads second)
    (later : second.Leads third) : first.Leads third :=
  ⟨later.closing.trans earlier.closing, later.ahead.trans earlier.ahead,
    earlier.recorded.trans later.recorded⟩

theorem leads_skip (state : ParseState) : state.Leads state.skip :=
  ⟨rfl, List.tail_suffix _, List.prefix_refl _⟩

theorem leads_record (error : SyntaxError) (state : ParseState) :
    state.Leads (state.record error) :=
  ⟨rfl, List.suffix_refl _, List.prefix_append _ _⟩

def Closed (state : ParseState) : Prop :=
  state.closing.kind = .endOfInput

theorem Leads.closed {before after : ParseState} (leads : before.Leads after)
    (closed : before.Closed) : after.Closed := by
  unfold Closed
  rw [leads.closing]
  exact closed

theorem Closed.skip {state : ParseState} (closed : state.Closed) : state.skip.Closed :=
  closed

/-- No error has been recorded earlier if none has been recorded later. -/
theorem Leads.clean {before after : ParseState} (leads : before.Leads after)
    (clean : after.recorded = []) : before.recorded = [] := by
  have shorter := leads.recorded
  rw [clean] at shorter
  exact List.prefix_nil.mp shorter

/-- A token of another kind than the closing one is the first of those ahead. -/
theorem ahead_eq_current_cons {state : ParseState} (closed : state.Closed)
    (inside : state.current.kind ≠ .endOfInput) :
    state.ahead = state.current :: state.skip.ahead := by
  cases tokens : state.ahead with
  | nil =>
      have looked : state.current = state.closing := by simp [current, tokens]
      rw [looked] at inside
      exact absurd closed inside
  | cons token rest => simp [current, skip, tokens]

end ParseState

/-- How a rule ends, the state in which it ends comes behind the one in which it began. -/
def Parsed.Follows {α : Type} (before : ParseState) : Parsed ParseState α → Prop
  | .done _ after => before.Leads after
  | .failed _ after => before.Leads after
  | .exhausted => True

theorem Parsed.Follows.trans {α : Type} {before between : ParseState} {parsed : Parsed ParseState α}
    (earlier : before.Leads between) (later : parsed.Follows between) : parsed.Follows before := by
  cases parsed with
  | done value after => exact ParseState.Leads.trans earlier later
  | failed error after => exact ParseState.Leads.trans earlier later
  | exhausted => trivial

namespace Rule

open ParseState

variable {α β : Type}

def Advances (rule : Rule ParseState α) : Prop :=
  ∀ state, (rule state).Follows state

theorem Advances.leads {rule : Rule ParseState α} (advances : rule.Advances)
    {before after : ParseState}
    {value : α} (done : rule before = .done value after) : before.Leads after := by
  have moved := advances before
  rw [done] at moved
  exact moved

theorem bind_eq {σ α β : Type} (rule : Rule σ α) (next : α → Rule σ β) (state : σ) :
    (rule >>= next) state =
      match rule state with
      | .done value after => next value after
      | .failed error after => .failed error after
      | .exhausted => .exhausted :=
  rfl

/-- Two rules in a row succeed if the second succeeds behind the first. -/
theorem bind_done {rule : Rule ParseState α} {next : α → Rule ParseState β}
    {before after : ParseState} {value : β} :
    (rule >>= next) before = .done value after ↔
      ∃ first between, rule before = .done first between ∧
        next first between = .done value after := by
  rw [bind_eq]
  cases rule before with
  | done first between =>
      constructor
      · intro done
        exact ⟨first, between, rfl, done⟩
      · rintro ⟨_, _, same, done⟩
        cases same
        exact done
  | failed error between => simp
  | exhausted => simp

theorem pure_done {before after : ParseState} {given value : α} :
    (pure given : Rule ParseState α) before = .done value after ↔
      given = value ∧ before = after := by
  change Parsed.done given before = _ ↔ _
  simp

theorem map_eq (change : α → β) (rule : Rule ParseState α) :
    change <$> rule = rule >>= fun value => pure (change value) :=
  rfl

theorem fail_done {before after : ParseState} {value : α} {cause : SyntaxCause} :
    (Rule.fail cause : Rule ParseState α) before = .done value after ↔ False := by
  simp [Rule.fail]

theorem current_done {before after : ParseState} {token : Token} :
    Rule.current before = .done token after ↔ before.current = token ∧ before = after := by
  simp [Rule.current]

theorem is_at_done {before after : ParseState} {kind : Kind} {found : Bool} :
    Rule.isAt kind before = .done found after ↔
      decide (before.current.kind = kind) = found ∧ before = after := by
  simp [Rule.isAt]

theorem take_done {before after : ParseState} {token : Token} :
    Rule.take before = .done token after ↔ before.current = token ∧ before.skip = after := by
  simp [Rule.take]

theorem at_end_done {before after : ParseState} {ended : Bool} :
    Rule.atEnd before = .done ended after ↔ before.ahead.isEmpty = ended ∧ before = after := by
  simp [Rule.atEnd]

theorem record_done {before after : ParseState} {cause : SyntaxCause} {found : Token}
    {value : Unit} :
    Rule.record cause found before = .done value after ↔ before.record ⟨cause, found⟩ = after := by
  simp [Rule.record]

theorem accept_none {before after : ParseState} {kinds : List Kind} :
    Rule.accept kinds before = .done none after ↔
      before.current.kind ∉ kinds ∧ before = after := by
  unfold Rule.accept
  simp only [List.contains_eq_mem, decide_eq_true_eq, supply_current]
  split
  · rename_i found
    simp [found]
  · rename_i missing
    simp [missing]

theorem accept_some {before after : ParseState} {kinds : List Kind} {token : Token} :
    Rule.accept kinds before = .done (some token) after ↔
      before.current.kind ∈ kinds ∧ before.current = token ∧ before.skip = after := by
  unfold Rule.accept
  simp only [List.contains_eq_mem, decide_eq_true_eq, supply_current, supply_advance]
  split
  · rename_i found
    simp [found]
  · rename_i missing
    simp [missing]

theorem expect_done {before after : ParseState} {slot : Slot} {token : Token} :
    Rule.expect slot before = .done token after ↔
      before.current.kind = slot.kind ∧ before.current = token ∧ before.skip = after := by
  unfold Rule.expect
  simp only [supply_current, supply_advance]
  split
  · rename_i found
    simp [found]
  · rename_i missing
    simp [missing]

theorem expect_missing {state : ParseState} {slot : Slot}
    (missing : state.current.kind ≠ slot.kind) :
    Rule.expect slot state = .failed ⟨.missing slot, state.current⟩ state :=
  if_neg missing

theorem pure_advances (value : α) : (pure value : Rule ParseState α).Advances :=
  fun state => leads_refl state

theorem bind_advances {rule : Rule ParseState α} {next : α → Rule ParseState β}
    (first : rule.Advances)
    (second : ∀ value, (next value).Advances) : (rule >>= next).Advances := by
  intro state
  rw [bind_eq]
  have moved := first state
  cases ran : rule state with
  | done value between =>
      rw [ran] at moved
      exact Parsed.Follows.trans moved (second value between)
  | failed error between =>
      rw [ran] at moved
      exact moved
  | exhausted => trivial

theorem exhausted_advances : (Rule.exhausted : Rule ParseState α).Advances :=
  fun _ => trivial

theorem fail_advances (cause : SyntaxCause) : (Rule.fail cause : Rule ParseState α).Advances :=
  fun state => leads_refl state

theorem current_advances : Rule.current.Advances :=
  fun state => leads_refl state

theorem is_at_advances (kind : Kind) : (Rule.isAt kind).Advances :=
  fun state => leads_refl state

theorem at_end_advances : Rule.atEnd.Advances :=
  fun state => leads_refl state

theorem take_advances : Rule.take.Advances :=
  fun state => leads_skip state

theorem record_advances (cause : SyntaxCause) (found : Token) :
    (Rule.record cause found).Advances :=
  fun state => leads_record _ state

theorem accept_advances (kinds : List Kind) : (Rule.accept kinds).Advances := by
  intro state
  unfold Rule.accept
  split
  · exact leads_skip state
  · exact leads_refl state

theorem expect_advances (slot : Slot) : (Rule.expect slot).Advances := by
  intro state
  unfold Rule.expect
  split
  · exact leads_skip state
  · exact leads_refl state

end Rule

end Treewalk
