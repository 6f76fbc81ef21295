import Treewalk.Proofs.Check.InStep
import Treewalk.Proofs.Check.Resolved
import Treewalk.Proofs.Evaluation.Invariant
import Treewalk.Proofs.Program.Occurrence
import Treewalk.Proofs.Session.Reached

/-!
# Loops that never end

The check reports a loop as endless if its condition is constantly true and its body holds no exit
from it. That is right: a statement leaves a function or a loop only by a `return` or a `break` that
the check sees in it. Calls do not matter, since what a function returns ends the call, and a loop
inside the body keeps its own `break`.
-/

namespace Treewalk

set_option autoImplicit false

/-- The flow is one that the exits of a statement allow: whether it holds a `return`, and whether it
can leave the loop around it. -/
def Flow.Within (returns leaves : Bool) : Flow → Prop
  | .normal => True
  | .broke => leaves = true
  | .returned _ => returns = true ∧ leaves = true

def Outcome.Leaves (returns leaves : Bool) (outcome : Outcome Flow) : Prop :=
  outcome.Meets (fun flow _ => flow.Within returns leaves) (fun _ _ => True) True

section Flows

open Outcome

variable {returns leaves more others : Bool}

theorem Flow.Within.mono {flow : Flow} (within : flow.Within returns leaves)
    (returning : returns = true → more = true) (leaving : leaves = true → others = true) :
    flow.Within more others := by
  cases flow with
  | normal => trivial
  | broke => exact leaving within
  | returned value => exact ⟨returning within.1, leaving within.2⟩

theorem leaves_of_leaves {outcome : Outcome Flow} (left : outcome.Leaves returns leaves)
    (returning : returns = true → more = true) (leaving : leaves = true → others = true) :
    outcome.Leaves more others :=
  meets_of_meets left (fun _ _ within => within.mono returning leaving) (fun _ _ => id) id

theorem leaves_and_then {α : Type} {outcome : Outcome α} {next : α → Machine → Outcome Flow}
    (later : ∀ value machine, (next value machine).Leaves returns leaves) :
    (outcome.andThen next).Leaves returns leaves :=
  meets_and_then (meets_anything outcome) fun value machine _ _ => later value machine

end Flows

/-- With `units` of budget, code leaves only by the exits that the check sees in it. -/
structure LeavesWith (config : Config) (units : Nat) : Prop where
  execute : ∀ statement machine,
    (execute config units statement machine).Leaves statement.containsReturn statement.canLeaveLoop
  iterate : ∀ condition body machine,
    (iterate config units condition body machine).Leaves body.containsReturn body.containsReturn
  executeIn : ∀ body scope machine,
    (executeIn config units body scope machine).Leaves
      (Stmt.anyContainsReturn body) (Stmt.anyCanLeaveLoop body)
  executeAll : ∀ body machine,
    (executeAll config units body machine).Leaves
      (Stmt.anyContainsReturn body) (Stmt.anyCanLeaveLoop body)

namespace LeavesWith

open Outcome

variable {config : Config} {units : Nat}

theorem execute_succ (below : LeavesWith config units) (statement : Stmt) (machine : Machine) :
    (Treewalk.execute config (units + 1) statement machine).Leaves statement.containsReturn
      statement.canLeaveLoop := by
  cases statement with
  | expression value => exact leaves_and_then fun _ _ => trivial
  | print keyword value => exact leaves_and_then fun _ _ => trivial
  | declare name initial =>
      cases initial with
      | none => trivial
      | some initial => exact leaves_and_then fun _ _ => trivial
  | block body location => exact below.executeIn body _ _
  | ifThen keyword condition consequent =>
      apply leaves_and_then
      intro value between
      split
      · exact below.execute consequent between
      · trivial
  | ifElse keyword condition consequent alternative =>
      apply leaves_and_then
      intro value between
      split
      · exact leaves_of_leaves (below.execute consequent between)
          (Bool.or_eq_true_iff.mpr ∘ .inl) (Bool.or_eq_true_iff.mpr ∘ .inl)
      · exact leaves_of_leaves (below.execute alternative between)
          (Bool.or_eq_true_iff.mpr ∘ .inr) (Bool.or_eq_true_iff.mpr ∘ .inr)
  | loop keyword condition body => exact below.iterate condition body machine
  | function name parameters body => trivial
  | returnValue keyword value =>
      cases value with
      | none => exact ⟨rfl, rfl⟩
      | some value => exact leaves_and_then fun _ _ => ⟨rfl, rfl⟩
  | breakLoop keyword => exact rfl

theorem iterate_succ (below : LeavesWith config units) (condition : Expr) (body : Stmt)
    (machine : Machine) :
    (Treewalk.iterate config (units + 1) condition body machine).Leaves body.containsReturn
      body.containsReturn := by
  apply leaves_and_then
  intro value between
  split
  · apply meets_and_then (below.execute body between)
    intro flow after _ within
    cases flow with
    | normal => exact below.iterate condition body after
    | broke => trivial
    | returned result => exact ⟨within.1, within.1⟩
  · trivial

theorem execute_in_succ (below : LeavesWith config units) (body : List Stmt) (scope : ScopeId)
    (machine : Machine) :
    (Treewalk.executeIn config (units + 1) body scope machine).Leaves
      (Stmt.anyContainsReturn body) (Stmt.anyCanLeaveLoop body) :=
  meets_on_exit (below.executeAll body _) (fun _ _ => id) (fun _ _ => id)

theorem execute_all_succ (below : LeavesWith config units) (body : List Stmt) (machine : Machine) :
    (Treewalk.executeAll config (units + 1) body machine).Leaves
      (Stmt.anyContainsReturn body) (Stmt.anyCanLeaveLoop body) := by
  cases body with
  | nil => trivial
  | cons first rest =>
      apply meets_and_then (below.execute first machine)
      intro flow after _ within
      have here : flow.Within (Stmt.anyContainsReturn (first :: rest))
          (Stmt.anyCanLeaveLoop (first :: rest)) :=
        within.mono (Bool.or_eq_true_iff.mpr ∘ .inl) (Bool.or_eq_true_iff.mpr ∘ .inl)
      cases flow with
      | normal =>
          exact leaves_of_leaves (below.executeAll rest after)
            (Bool.or_eq_true_iff.mpr ∘ .inr) (Bool.or_eq_true_iff.mpr ∘ .inr)
      | broke => exact here
      | returned value => exact here

end LeavesWith

theorem leaves_with (config : Config) (units : Nat) : LeavesWith config units := by
  induction units with
  | zero =>
      constructor
      all_goals intros
      all_goals trivial
  | succ units below =>
      constructor
      · exact below.execute_succ
      · exact below.iterate_succ
      · exact below.execute_in_succ
      · exact below.execute_all_succ

/-- A loop with a condition that is constantly true and without an exit in its body never ends with
a flow, whatever budget it is given. -/
theorem iterate_never_done (config : Config) {condition : Expr} {body : Stmt}
    (constant : condition.constant? = some true) (closed : body.canLeaveLoop = false) (units : Nat)
    (machine : Machine) :
    (iterate config units condition body machine).Meets (fun _ _ => False) (fun _ _ => True)
      True := by
  induction units generalizing machine with
  | zero => trivial
  | succ units ih =>
      apply Outcome.meets_and_then (meets_anything _)
      intro value between evaluated _
      rw [if_pos (constant_value constant evaluated)]
      apply Outcome.meets_and_then ((leaves_with config units).execute body between)
      intro flow after _ within
      -- The body can only end normally, and the next round has less budget.
      rw [closed] at within
      cases flow with
      | normal => exact ih after
      | broke => cases within
      | returned result => cases within.2

theorem loop_never_done (config : Config) {condition : Expr} {body : Stmt}
    (constant : condition.constant? = some true) (closed : body.canLeaveLoop = false)
    (keyword : Token) (units : Nat) (machine : Machine) (flow : Flow) (after : Machine) :
    execute config units (.loop keyword condition body) machine ≠ .done flow after := by
  cases units with
  | zero => exact nofun
  | succ units =>
      intro done
      have never := iterate_never_done config constant closed units machine
      rw [execute] at done
      rw [done] at never
      exact never

namespace Occurrence

def loopPlace? (occurrence : Occurrence) : Option Span :=
  match occurrence.statement with
  | .loop keyword condition _ => some (keyword.span.hull condition.location)
  | _ => none

/-- The condition is constantly true, and the check sees no exit in the body. -/
def isEndless (occurrence : Occurrence) : Bool :=
  match occurrence.statement with
  | .loop _ condition body => condition.constant? = some true && !body.canLeaveLoop
  | _ => false

def endlessPlace? (occurrence : Occurrence) : Option Span :=
  if occurrence.isEndless then occurrence.loopPlace? else none

end Occurrence

def Warning.endless? (warning : Warning) : Option Span :=
  if warning.suspicion = .endlessLoop then some warning.location else none

section Reported

theorem loop_warning_endless (keyword : Token) (condition : Expr) (body : Stmt)
    (around : List Around) :
    (Stmt.loopWarning keyword condition body).filterMap Warning.endless? =
      (Occurrence.endlessPlace? ⟨around, .loop keyword condition body⟩).toList := by
  unfold Stmt.loopWarning
  cases constant : condition.constant? with
  | none => simp [Occurrence.endlessPlace?, Occurrence.isEndless, constant]
  | some value =>
      cases value with
      | false => simp [Occurrence.endlessPlace?, Occurrence.isEndless, constant, Warning.endless?]
      | true =>
          cases closed : body.canLeaveLoop with
          | true => simp [Occurrence.endlessPlace?, Occurrence.isEndless, closed]
          | false =>
              simp [Occurrence.endlessPlace?, Occurrence.isEndless, Occurrence.loopPlace?, constant,
                closed, Warning.endless?]

theorem consequent_not_endless (condition : Expr) (consequent : Stmt) :
    (Stmt.consequentWarning condition consequent).filterMap Warning.endless? = [] := by
  unfold Stmt.consequentWarning
  split <;> rfl

theorem alternative_not_endless (condition : Expr) (alternative : Stmt) :
    (Stmt.alternativeWarning condition alternative).filterMap Warning.endless? = [] := by
  unfold Stmt.alternativeWarning
  split <;> rfl

theorem rest_not_endless (dead : Bool) (rest : List Stmt) :
    (if dead then Stmt.unreachableRest rest else []).filterMap Warning.endless? = [] := by
  cases rest <;> cases dead <;> rfl

mutual

/-- What is reported as endless are the loops in the program that deserve it. -/
theorem endless_perm (statement : Stmt) (around : List Around) :
    (statement.flowWarnings.filterMap Warning.endless?).Perm
      ((statement.occurrences around).filterMap Occurrence.endlessPlace?) := by
  cases statement with
  | expression value => exact .refl _
  | print keyword value => exact .refl _
  | declare name initial => exact .refl _
  | block body location => exact endless_in_perm body false (.block :: around)
  | ifThen keyword condition consequent =>
      rw [Stmt.flowWarnings, List.filterMap_append, consequent_not_endless, List.append_nil]
      exact endless_perm consequent (.branch :: around)
  | ifElse keyword condition consequent alternative =>
      rw [Stmt.flowWarnings, List.filterMap_append, consequent_not_endless, List.append_nil,
        List.filterMap_append, alternative_not_endless, List.append_nil, List.filterMap_append,
        Stmt.occurrences, List.filterMap_cons_none rfl, List.filterMap_append]
      exact (endless_perm consequent (.branch :: around)).append
        (endless_perm alternative (.branch :: around))
  | loop keyword condition body =>
      have split : ((Stmt.loop keyword condition body).occurrences around).filterMap
          Occurrence.endlessPlace? =
          (Occurrence.endlessPlace? ⟨around, .loop keyword condition body⟩).toList ++
            (body.occurrences (.loop :: around)).filterMap Occurrence.endlessPlace? := by
        rw [Stmt.occurrences, List.filterMap_cons]
        split
        · rename_i none
          rw [none]
          rfl
        · rename_i some
          rw [some]
          rfl
      -- The warning about the loop comes behind those about its body.
      rw [Stmt.flowWarnings, List.filterMap_append, loop_warning_endless _ _ _ around, split]
      exact ((endless_perm body (.loop :: around)).append_right _).trans List.perm_append_comm
  | function name parameters body => exact endless_in_perm body false (.function :: around)
  | returnValue keyword value => exact .refl _
  | breakLoop keyword => exact .refl _

theorem endless_in_perm (body : List Stmt) (exited : Bool) (around : List Around) :
    ((Stmt.flowWarningsIn exited body).filterMap Warning.endless?).Perm
      ((Stmt.occurrencesIn around body).filterMap Occurrence.endlessPlace?) := by
  cases body with
  | nil => exact .refl _
  | cons first rest =>
      rw [Stmt.flowWarningsIn, List.filterMap_append, List.filterMap_append, rest_not_endless,
        List.append_nil, Stmt.occurrencesIn, List.filterMap_append]
      exact (endless_perm first around).append (endless_in_perm rest _ around)

end

/-- The warnings of a program about endless loops are one for each of these. -/
theorem endless_warnings_perm (program : Program) :
    (program.problems.warnings.filterMap Warning.endless?).Perm
      (((Stmt.occurrencesIn [] program).filter Occurrence.isEndless).filterMap
        Occurrence.loopPlace?) := by
  have unread : (program.unusedVariables id).filterMap Warning.endless? = [] := by
    apply List.filterMap_eq_nil_iff.mpr
    intro warning found
    obtain ⟨name, -, rfl⟩ :=
      List.mem_map.mp ((unused_variables_perm program).mem_iff.mp found)
    rfl
  rw [List.filterMap_filter]
  apply ((problems_warnings_perm program id).filterMap Warning.endless?).trans
  rw [List.filterMap_append, unread, List.append_nil]
  exact endless_in_perm program false []

end Reported

mutual

/-- The operators of a statement inside have a meaning if those of the whole statement have one. -/
theorem meaningful_of_occurrence (statement : Stmt) (around : List Around)
    (meaningful : statement.Meaningful) :
    ∀ occurrence ∈ statement.occurrences around, occurrence.statement.Meaningful := by
  cases statement with
  | expression value => exact List.forall_mem_singleton.mpr meaningful
  | print keyword value => exact List.forall_mem_singleton.mpr meaningful
  | declare name initial => exact List.forall_mem_singleton.mpr meaningful
  | block body location =>
      exact List.forall_mem_cons.mpr
        ⟨meaningful, meaningful_of_occurrence_in body (.block :: around) meaningful⟩
  | ifThen keyword condition consequent =>
      exact List.forall_mem_cons.mpr
        ⟨meaningful, meaningful_of_occurrence consequent (.branch :: around) meaningful.2⟩
  | ifElse keyword condition consequent alternative =>
      exact List.forall_mem_cons.mpr ⟨meaningful, List.forall_mem_append.mpr
        ⟨meaningful_of_occurrence consequent (.branch :: around) meaningful.2.1,
          meaningful_of_occurrence alternative (.branch :: around) meaningful.2.2⟩⟩
  | loop keyword condition body =>
      exact List.forall_mem_cons.mpr
        ⟨meaningful, meaningful_of_occurrence body (.loop :: around) meaningful.2⟩
  | function name parameters body =>
      exact List.forall_mem_cons.mpr
        ⟨meaningful, meaningful_of_occurrence_in body (.function :: around) meaningful⟩
  | returnValue keyword value => exact List.forall_mem_singleton.mpr meaningful
  | breakLoop keyword => exact List.forall_mem_singleton.mpr meaningful

theorem meaningful_of_occurrence_in (body : List Stmt) (around : List Around)
    (meaningful : Stmt.AllMeaningful body) :
    ∀ occurrence ∈ Stmt.occurrencesIn around body, occurrence.statement.Meaningful := by
  cases body with
  | nil => exact nofun
  | cons first rest =>
      exact List.forall_mem_append.mpr ⟨meaningful_of_occurrence first around meaningful.1,
        meaningful_of_occurrence_in rest around meaningful.2⟩

end

/-- A statement that never ends with a flow runs forever or is stopped by an error, if its operators
and those of the functions that it can call have a meaning. -/
theorem forever_or_raised {config : Config} {statement : Stmt} {machine : Machine}
    (meaningful : statement.Meaningful)
    (stored : machine.Stores fun declaration => Stmt.AllMeaningful declaration.body)
    (never : ∀ units flow after, execute config units statement machine ≠ .done flow after) :
    (∀ units, execute config units statement machine = .exhausted) ∨
      ∃ units error after, execute config units statement machine = .raised error after := by
  by_cases forever : ∀ units, execute config units statement machine = .exhausted
  · exact .inl forever
  · obtain ⟨units, ended⟩ := not_forall.mp forever
    have kept := (kept_with .meaningful config units).execute statement machine
      (fun _ => meaningful) ⟨stored, trivial⟩
    cases outcome : execute config units statement machine with
    | done flow after => exact absurd outcome (never units flow after)
    | raised error after => exact .inr ⟨units, error, after, outcome⟩
    | exhausted => exact absurd outcome ended
    | stuck =>
        rw [outcome] at kept
        exact absurd trivial kept

/-- The statement is a loop that never ends with a flow, on any machine and with any budget. It runs
forever or an error stops it, if functions in the heap have no operator without a meaning. -/
def Occurrence.NeverEnds (config : Config) (occurrence : Occurrence) : Prop :=
  ∃ keyword condition body, occurrence.statement = .loop keyword condition body ∧ ∀ machine,
    (∀ units flow after,
      execute config units (.loop keyword condition body) machine ≠ .done flow after) ∧
    ((machine.Stores fun declaration => Stmt.AllMeaningful declaration.body) →
      (∀ units, execute config units (.loop keyword condition body) machine = .exhausted) ∨
        ∃ units error after,
          execute config units (.loop keyword condition body) machine = .raised error after)

theorem never_ends_of_endless {source : String} {program : Program}
    (parsed : parse source = .ok program) (config : Config) {occurrence : Occurrence}
    (found : occurrence ∈ Stmt.occurrencesIn [] program) (endless : occurrence.isEndless = true) :
    occurrence.NeverEnds config := by
  obtain ⟨around, statement⟩ := occurrence
  have meaningful := meaningful_of_occurrence_in program [] (meaningful_of_parse parsed) _ found
  cases statement with
  | loop keyword condition body =>
      simp only [Occurrence.isEndless, Bool.and_eq_true, decide_eq_true_eq, Bool.not_eq_true']
        at endless
      refine ⟨keyword, condition, body, rfl, fun machine => ?_⟩
      have never := fun units flow after =>
        loop_never_done config endless.1 endless.2 keyword units machine flow after
      exact ⟨never, fun stored => forever_or_raised meaningful stored never⟩
  | _ => cases endless

/-- If places fit in 32 bits, the place of a loop is that of one loop of a parsed program only. -/
theorem loop_unique {source : String} {program : Program} (short : source.utf8ByteSize < 2 ^ 32)
    (parsed : parse source = .ok program) {first second : Occurrence} {place : Span}
    (found : first ∈ Stmt.occurrencesIn [] program)
    (foundToo : second ∈ Stmt.occurrencesIn [] program) (placed : first.loopPlace? = some place)
    (placedToo : second.loopPlace? = some place) : first = second := by
  obtain ⟨tokens, -, words, worded, starts⟩ := words_of_parse parsed
  have ordered : ((Stmt.occurrencesIn [] program).filterMap Occurrence.word?).Pairwise
      fun keyword later => keyword.span.start < later.span.start :=
    words ▸ (starts short).filter Token.isWord
  obtain ⟨around, statement⟩ := first
  obtain ⟨aroundToo, statementToo⟩ := second
  cases statement with
  | loop keyword condition body =>
      cases statementToo with
      | loop keywordToo conditionToo bodyToo =>
          have behind := (worded _ found).2 short
          have behindToo := (worded _ foundToo).2 short
          have start := congrArg (Option.map Span.start) (placed.trans placedToo.symm)
          simp only [Occurrence.loopPlace?, Option.map_some, Option.some.injEq, Span.hull,
            Nat.min_eq_left behind, Nat.min_eq_left behindToo] at start
          -- No two keywords begin at one place.
          exact Occurrence.eq_of_start ordered found foundToo rfl rfl start
      | _ => cases placedToo
  | _ => cases placed

/-- The warnings about endless loops of an accepted source are one for each of some loops of the
program, at their places, and these loops never end. If places fit in 32 bits, every loop at such a
place is one of them. -/
theorem reported_loop_never_ends (config : Config) (source : String) (program : Program)
    (accepted : (analyze source).result = .ok program) :
    (∃ flagged : List Occurrence, flagged.Sublist (Stmt.occurrencesIn [] program) ∧
      ((analyze source).warnings.filterMap Warning.endless?).Perm
        (flagged.filterMap Occurrence.loopPlace?) ∧
      ∀ occurrence ∈ flagged, occurrence.NeverEnds config) ∧
    (source.utf8ByteSize < 2 ^ 32 → ∀ place, ⟨.endlessLoop, place⟩ ∈ (analyze source).warnings →
      ∀ occurrence ∈ Stmt.occurrencesIn [] program, occurrence.loopPlace? = some place →
        occurrence.NeverEnds config) := by
  obtain ⟨parsed, -, warnings⟩ := analyze_accepted accepted
  rw [warnings]
  have flagged := endless_warnings_perm program
  constructor
  · refine ⟨_, List.filter_sublist, flagged, ?_⟩
    intro occurrence found
    obtain ⟨inside, endless⟩ := List.mem_filter.mp found
    exact never_ends_of_endless parsed config inside endless
  · intro short place reported occurrence found placed
    have among := flagged.mem_iff.mp (List.mem_filterMap.mpr ⟨_, reported, rfl⟩)
    obtain ⟨other, listed, placedToo⟩ := List.mem_filterMap.mp among
    obtain ⟨inside, endless⟩ := List.mem_filter.mp listed
    obtain rfl := loop_unique short parsed found inside placed placedToo
    exact never_ends_of_endless parsed config found endless

/-- In the body of the loop there are a `return` in a function, a `break` out of another loop, and a
call. -/
theorem reported_loop_never_ends_nested :
    ∃ program,
      (analyze "for (;;) { fun f() { return; } while (true) break; f(); }").result = .ok program ∧
      ∃ occurrence ∈ Stmt.occurrencesIn [] program, occurrence.loopPlace? = some ⟨0, 3⟩ ∧
        occurrence.NeverEnds ⟨8, fun _ => 0⟩ := by
  obtain ⟨program, accepted⟩ : ∃ program,
      (analyze "for (;;) { fun f() { return; } while (true) break; f(); }").result = .ok program :=
    exists_ok (by decide +kernel)
  have reported : ⟨.endlessLoop, ⟨0, 3⟩⟩ ∈
      (analyze "for (;;) { fun f() { return; } while (true) break; f(); }").warnings := by
    decide +kernel
  obtain ⟨⟨flagged, inside, places, never⟩, -⟩ :=
    reported_loop_never_ends ⟨8, fun _ => 0⟩ _ program accepted
  have among := places.mem_iff.mp (List.mem_filterMap.mpr ⟨_, reported, rfl⟩)
  obtain ⟨occurrence, found, placed⟩ := List.mem_filterMap.mp among
  exact ⟨program, accepted, occurrence, inside.subset found, placed, never occurrence found⟩

end Treewalk
