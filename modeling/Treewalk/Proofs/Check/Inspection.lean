import Treewalk.Check

/-!
# The two parts of the check for warnings

One walk through a program finds the warnings about control flow among those about variables. They
have nothing to do with each other: a walk that looks at control flow only finds the ones, a walk
that only follows variables finds the others, each in the order of the one walk.
-/

namespace Treewalk

set_option autoImplicit false

namespace Stmt

mutual

def flowWarnings : Stmt → List Warning
  | expression _ => []
  | print _ _ => []
  | declare _ _ => []
  | block body _ => flowWarningsIn false body
  | ifThen _ condition consequent =>
      consequent.flowWarnings ++ consequentWarning condition consequent
  | ifElse _ condition consequent alternative =>
      consequent.flowWarnings ++ alternative.flowWarnings
        ++ alternativeWarning condition alternative ++ consequentWarning condition consequent
  | loop keyword condition body => body.flowWarnings ++ loopWarning keyword condition body
  | function _ _ body => flowWarningsIn false body
  | returnValue _ _ => []
  | breakLoop _ => []

/-- The warnings of a sequence; `exited` says that an exit stands in front of it. Only the first
exit of a sequence makes what follows it unreachable. -/
def flowWarningsIn (exited : Bool) : List Stmt → List Warning
  | [] => []
  | first :: rest =>
      first.flowWarnings
        ++ (if !exited && first.alwaysExits then unreachableRest rest else [])
        ++ flowWarningsIn (exited || first.alwaysExits) rest

end

mutual

def track (arrange : List Local → List Local) : Stmt → Usage → Usage
  | expression value, usage => usage.readAll value
  | print _ value, usage => usage.readAll value
  | declare name (some initial), usage => (usage.readAll initial).declare name.lexeme name.span
  | declare name none, usage => usage.declare name.lexeme name.span
  | block body _, usage => (trackAll arrange body usage.openScope).closeScope arrange
  | ifThen _ condition consequent, usage => consequent.track arrange (usage.readAll condition)
  | ifElse _ condition consequent alternative, usage =>
      alternative.track arrange (consequent.track arrange (usage.readAll condition))
  | loop _ condition body, usage => body.track arrange (usage.readAll condition)
  | function _ _ body, usage => (trackAll arrange body usage.openScope).closeScope arrange
  | returnValue _ (some value), usage => usage.readAll value
  | returnValue _ none, usage => usage
  | breakLoop _, usage => usage

def trackAll (arrange : List Local → List Local) : List Stmt → Usage → Usage
  | [], usage => usage
  | first :: rest, usage => trackAll arrange rest (first.track arrange usage)

end

end Stmt

def Program.unusedVariables (program : Program) (arrange : List Local → List Local) :
    List Warning :=
  (Stmt.trackAll arrange program Usage.start).found

def Warning.isUnused (warning : Warning) : Bool :=
  match warning.suspicion with
  | .unusedVariable _ => true
  | _ => false

namespace Stmt

section Flow

variable {warning : Warning} {unread : String}

theorem consequent_warning_flow {condition : Expr} {consequent : Stmt}
    (reported : warning ∈ consequentWarning condition consequent) :
    warning.suspicion ≠ .unusedVariable unread := by
  unfold consequentWarning at reported
  split at reported
  · rw [List.mem_singleton.mp reported]
    exact nofun
  · cases reported

theorem alternative_warning_flow {condition : Expr} {alternative : Stmt}
    (reported : warning ∈ alternativeWarning condition alternative) :
    warning.suspicion ≠ .unusedVariable unread := by
  unfold alternativeWarning at reported
  split at reported
  · rw [List.mem_singleton.mp reported]
    exact nofun
  · cases reported

theorem loop_warning_flow {keyword : Token} {condition : Expr} {body : Stmt}
    (reported : warning ∈ loopWarning keyword condition body) :
    warning.suspicion ≠ .unusedVariable unread := by
  unfold loopWarning at reported
  split at reported
  · split at reported
    · cases reported
    · rw [List.mem_singleton.mp reported]
      exact nofun
  · rw [List.mem_singleton.mp reported]
    exact nofun
  · cases reported

theorem unreachable_rest_flow {exits : Bool} {rest : List Stmt}
    (reported : warning ∈ if exits then unreachableRest rest else []) :
    warning.suspicion ≠ .unusedVariable unread := by
  cases exits with
  | false => cases reported
  | true =>
      cases rest with
      | nil => cases reported
      | cons first rest =>
          rw [List.mem_singleton.mp reported]
          exact nofun

mutual

theorem flow_warnings_flow (statement : Stmt) (reported : warning ∈ statement.flowWarnings) :
    warning.suspicion ≠ .unusedVariable unread := by
  cases statement with
  | expression value => cases reported
  | print keyword value => cases reported
  | declare name initial => cases reported
  | block body location => exact flow_warnings_in_flow false body reported
  | ifThen keyword condition consequent =>
      rcases List.mem_append.mp reported with inside | here
      · exact flow_warnings_flow consequent inside
      · exact consequent_warning_flow here
  | ifElse keyword condition consequent alternative =>
      rcases List.mem_append.mp reported with reported | here
      · rcases List.mem_append.mp reported with reported | here
        · rcases List.mem_append.mp reported with inside | inside
          · exact flow_warnings_flow consequent inside
          · exact flow_warnings_flow alternative inside
        · exact alternative_warning_flow here
      · exact consequent_warning_flow here
  | loop keyword condition body =>
      rcases List.mem_append.mp reported with inside | here
      · exact flow_warnings_flow body inside
      · exact loop_warning_flow here
  | function name parameters body => exact flow_warnings_in_flow false body reported
  | returnValue keyword value => cases reported
  | breakLoop keyword => cases reported

theorem flow_warnings_in_flow (exited : Bool) (body : List Stmt)
    (reported : warning ∈ flowWarningsIn exited body) :
    warning.suspicion ≠ .unusedVariable unread := by
  cases body with
  | nil => cases reported
  | cons first rest =>
      rcases List.mem_append.mp reported with reported | inside
      · rcases List.mem_append.mp reported with inside | here
        · exact flow_warnings_flow first inside
        · exact unreachable_rest_flow here
      · exact flow_warnings_in_flow _ rest inside

end

end Flow

end Stmt

theorem is_unused_of_warning {locals : List Local} :
    ∀ warning ∈ locals.filterMap Local.warning?, warning.isUnused = true := by
  intro warning reported
  obtain ⟨declared, -, isWarning⟩ := List.mem_filterMap.mp reported
  unfold Local.warning? at isWarning
  split at isWarning
  · cases isWarning
  · cases isWarning
    rfl

theorem is_unused_eq_false {warning : Warning}
    (flow : ∀ unread, warning.suspicion ≠ .unusedVariable unread) : warning.isUnused = false := by
  cases unused : warning.isUnused with
  | false => rfl
  | true =>
      unfold Warning.isUnused at unused
      split at unused
      · rename_i unread same
        exact absurd same (flow unread)
      · cases unused

/-- The one walk has found the warnings about control flow and those of the other walk, each in
order. -/
structure Usage.Splits (whole usage : Usage) (flow : List Warning) : Prop where
  scopes : whole.scopes = usage.scopes
  flow : (whole.found.filter fun warning => !warning.isUnused) = flow
  unused : whole.found.filter Warning.isUnused = usage.found

namespace Usage.Splits

variable {whole usage : Usage} {flow : List Warning}

theorem open_scope (splits : whole.Splits usage flow) :
    whole.openScope.Splits usage.openScope flow :=
  ⟨congrArg (List.cons []) splits.scopes, splits.flow, splits.unused⟩

theorem add_unused {added : List Warning} (splits : whole.Splits usage flow)
    (all : ∀ warning ∈ added, warning.isUnused = true) (scopes : List (List Local)) :
    Splits ⟨scopes, whole.found ++ added⟩ ⟨scopes, usage.found ++ added⟩ flow := by
  refine ⟨rfl, ?_, ?_⟩
  · rw [List.filter_append, splits.flow, List.filter_eq_nil_iff.mpr, List.append_nil]
    intro warning inside
    simp [all warning inside]
  · rw [List.filter_append, splits.unused, List.filter_eq_self.mpr all]

theorem close_scope (splits : whole.Splits usage flow) (arrange : List Local → List Local) :
    (whole.closeScope arrange).Splits (usage.closeScope arrange) flow := by
  unfold closeScope
  rw [splits.scopes]
  split
  · exact splits
  · exact splits.add_unused is_unused_of_warning _

theorem declare (splits : whole.Splits usage flow) (name : String) (location : Span) :
    (whole.declare name location).Splits (usage.declare name location) flow := by
  unfold Usage.declare
  rw [splits.scopes]
  split
  · exact splits
  · exact splits.add_unused is_unused_of_warning _

theorem read_all (splits : whole.Splits usage flow) (expression : Expr) :
    (whole.readAll expression).Splits (usage.readAll expression) flow := by
  unfold readAll
  induction expression.reads generalizing whole usage with
  | nil => exact splits
  | cons name rest ih =>
      exact ih ⟨congrArg (markIn name) splits.scopes, splits.flow, splits.unused⟩

theorem warn {added : List Warning} (splits : whole.Splits usage flow)
    (others : ∀ warning ∈ added, ∀ unread, warning.suspicion ≠ .unusedVariable unread) :
    (whole.warn added).Splits usage (flow ++ added) := by
  have all : ∀ warning ∈ added, warning.isUnused = false :=
    fun warning inside => is_unused_eq_false (others warning inside)
  refine ⟨splits.scopes, ?_, ?_⟩
  · rw [Usage.warn, List.filter_append, splits.flow, List.filter_eq_self.mpr]
    intro warning inside
    simp [all warning inside]
  · rw [Usage.warn, List.filter_append, splits.unused, List.filter_eq_nil_iff.mpr, List.append_nil]
    intro warning inside
    simp [all warning inside]

end Usage.Splits

namespace Stmt

variable (arrange : List Local → List Local)

mutual

theorem inspect_splits (statement : Stmt) {whole usage : Usage} {flow : List Warning}
    (splits : whole.Splits usage flow) :
    (statement.inspect arrange whole).Splits (statement.track arrange usage)
      (flow ++ statement.flowWarnings) := by
  cases statement with
  | expression value => simpa [inspect, track, flowWarnings] using splits.read_all value
  | print keyword value => simpa [inspect, track, flowWarnings] using splits.read_all value
  | declare name initial =>
      cases initial with
      | none => simpa [inspect, track, flowWarnings] using splits.declare name.lexeme name.span
      | some initial =>
          simpa [inspect, track, flowWarnings] using
            (splits.read_all initial).declare name.lexeme name.span
  | block body location =>
      exact (inspect_all_splits false body splits.open_scope).close_scope arrange
  | ifThen keyword condition consequent =>
      have inner := inspect_splits consequent (splits.read_all condition)
      simpa [inspect, track, flowWarnings] using
        inner.warn fun _ reported _ => consequent_warning_flow reported
  | ifElse keyword condition consequent alternative =>
      have first := inspect_splits consequent (splits.read_all condition)
      have second := inspect_splits alternative first
      simpa [inspect, track, flowWarnings] using second.warn fun _ reported _ =>
        (List.mem_append.mp reported).elim alternative_warning_flow consequent_warning_flow
  | loop keyword condition body =>
      have inner := inspect_splits body (splits.read_all condition)
      simpa [inspect, track, flowWarnings] using
        inner.warn fun _ reported _ => loop_warning_flow reported
  | function name parameters body =>
      exact (inspect_all_splits false body splits.open_scope).close_scope arrange
  | returnValue keyword value =>
      cases value with
      | none => simpa [inspect, track, flowWarnings] using splits
      | some value => simpa [inspect, track, flowWarnings] using splits.read_all value
  | breakLoop keyword => simpa [inspect, track, flowWarnings] using splits

theorem inspect_all_splits (exited : Bool) (body : List Stmt) {whole usage : Usage}
    {flow : List Warning} (splits : whole.Splits usage flow) :
    (inspectAll arrange exited body whole).Splits (trackAll arrange body usage)
      (flow ++ flowWarningsIn exited body) := by
  cases body with
  | nil => simpa [inspectAll, trackAll, flowWarningsIn] using splits
  | cons first rest =>
      have head := (inspect_splits first splits).warn fun _ reported _ =>
        @unreachable_rest_flow _ _ (!exited && first.alwaysExits) rest reported
      simpa [inspectAll, trackAll, flowWarningsIn] using inspect_all_splits _ rest head

end

end Stmt

theorem problems_warnings_perm (program : Program) (arrange : List Local → List Local) :
    (program.problemsWith arrange).warnings.Perm
      (Stmt.flowWarningsIn false program ++ program.unusedVariables arrange) := by
  have splits : (Stmt.inspectAll arrange false program Usage.start).Splits
      (Stmt.trackAll arrange program Usage.start) (Stmt.flowWarningsIn false program) :=
    Stmt.inspect_all_splits arrange false program ⟨rfl, rfl, rfl⟩
  have parts := List.filter_append_perm Warning.isUnused
    (Stmt.inspectAll arrange false program Usage.start).found
  rw [splits.unused, splits.flow] at parts
  exact (List.mergeSort_perm _ _).trans (parts.symm.trans List.perm_append_comm)

theorem warning_iff (program : Program) (warning : Warning) :
    warning ∈ program.problems.warnings ↔
      warning ∈ Stmt.flowWarningsIn false program ∨ warning ∈ program.unusedVariables id := by
  rw [Program.problems, (problems_warnings_perm program id).mem_iff, List.mem_append]

end Treewalk
