import Treewalk.Proofs.Check.Inspection
import Treewalk.Proofs.Program.Places

/-!
# Where the problems of a program lie

The static check reports places of the tree, hulls of them, and names of variables. So if every
place of a program has some property that hulls keep, every warning has it; and what is true of
every exit of a program is true of the stray ones.
-/

namespace Treewalk

set_option autoImplicit false

variable {place : Span → Prop} {exit : Span → Nat → Prop}

namespace Stmt

mutual

theorem stray_exits_placed {context : Context} {statement : Stmt}
    (placed : statement.Placed place exit) :
    ∀ error ∈ statement.strayExits context, exit error.location error.line := by
  cases statement with
  | expression value => exact nofun
  | print keyword value => exact nofun
  | declare name initial => exact nofun
  | block body location => exact stray_exits_in_placed placed.2
  | ifThen keyword condition consequent =>
      unfold strayExits
      exact stray_exits_placed placed.2
  | ifElse keyword condition consequent alternative =>
      exact List.forall_mem_append.mpr
        ⟨stray_exits_placed placed.2.1, stray_exits_placed placed.2.2⟩
  | loop keyword condition body =>
      unfold strayExits
      exact stray_exits_placed placed.2.2
  | function name parameters body => exact stray_exits_in_placed placed.2
  | returnValue keyword value =>
      unfold strayExits
      split
      · exact nofun
      · exact List.forall_mem_singleton.mpr placed.2
  | breakLoop keyword =>
      unfold strayExits
      split
      · exact nofun
      · exact List.forall_mem_singleton.mpr placed.2

theorem stray_exits_in_placed {context : Context} {body : List Stmt}
    (placed : AllPlaced place exit body) :
    ∀ error ∈ strayExitsIn context body, exit error.location error.line := by
  cases body with
  | nil => exact nofun
  | cons first rest =>
      exact List.forall_mem_append.mpr
        ⟨stray_exits_placed placed.1, stray_exits_in_placed placed.2⟩

end

theorem unreachable_rest_placed (joined : HullClosed place) {body : List Stmt}
    (placed : AllPlaced place exit body) :
    ∀ warning ∈ unreachableRest body, place warning.location := by
  cases body with
  | nil => exact nofun
  | cons first rest =>
      have last : place ((rest.getLast?.getD first).location) := by
        cases found : rest.getLast? with
        | none => exact placed.1.location
        | some statement =>
            exact (all_placed_iff.mp placed.2 statement (List.mem_of_getLast? found)).location
      exact List.forall_mem_singleton.mpr (joined placed.1.location last)

theorem loop_warning_placed {keyword : Token} {condition : Expr} {body : Stmt}
    (placed : (loop keyword condition body).Placed place exit) :
    ∀ warning ∈ loopWarning keyword condition body, place warning.location := by
  unfold loopWarning
  split
  · split
    · exact nofun
    · exact List.forall_mem_singleton.mpr placed.2.1
  · exact List.forall_mem_singleton.mpr placed.2.2.location
  · exact nofun

theorem branch_warning_placed {statement : Stmt} {suspicion : Suspicion} {dead : Prop}
    [Decidable dead] (placed : statement.Placed place exit) :
    ∀ warning ∈ (if dead then [(⟨suspicion, statement.location⟩ : Warning)] else []),
      place warning.location := by
  split
  · exact List.forall_mem_singleton.mpr placed.location
  · exact nofun

mutual

theorem flow_warnings_placed (joined : HullClosed place) {statement : Stmt}
    (placed : statement.Placed place exit) :
    ∀ warning ∈ statement.flowWarnings, place warning.location := by
  cases statement with
  | expression value => exact nofun
  | print keyword value => exact nofun
  | declare name initial => exact nofun
  | block body location => exact flow_warnings_in_placed joined placed.2
  | ifThen keyword condition consequent =>
      exact List.forall_mem_append.mpr
        ⟨flow_warnings_placed joined placed.2, branch_warning_placed placed.2⟩
  | ifElse keyword condition consequent alternative =>
      simp only [flowWarnings, List.forall_mem_append]
      exact ⟨⟨⟨flow_warnings_placed joined placed.2.1, flow_warnings_placed joined placed.2.2⟩,
        branch_warning_placed placed.2.2⟩, branch_warning_placed placed.2.1⟩
  | loop keyword condition body =>
      exact List.forall_mem_append.mpr
        ⟨flow_warnings_placed joined placed.2.2, loop_warning_placed placed⟩
  | function name parameters body => exact flow_warnings_in_placed joined placed.2
  | returnValue keyword value => exact nofun
  | breakLoop keyword => exact nofun

theorem flow_warnings_in_placed (joined : HullClosed place) {exited : Bool} {body : List Stmt}
    (placed : AllPlaced place exit body) :
    ∀ warning ∈ flowWarningsIn exited body, place warning.location := by
  cases body with
  | nil => exact nofun
  | cons first rest =>
      simp only [flowWarningsIn, List.forall_mem_append]
      refine ⟨⟨flow_warnings_placed joined placed.1, ?_⟩, flow_warnings_in_placed joined placed.2⟩
      split
      · exact unreachable_rest_placed joined placed.2
      · exact nofun

end

end Stmt

/-- Variables that are followed, and warnings that have been found, lie at such places. -/
structure Usage.Placed (place : Span → Prop) (usage : Usage) : Prop where
  scopes : ∀ scope ∈ usage.scopes, ∀ declared ∈ scope, place declared.location
  found : ∀ warning ∈ usage.found, place warning.location

namespace Usage

variable {usage : Usage}

theorem warnings_placed {locals : List Local}
    (placed : ∀ declared ∈ locals, place declared.location) :
    ∀ warning ∈ locals.filterMap Local.warning?, place warning.location := by
  intro warning reported
  obtain ⟨declared, among, isWarning⟩ := List.mem_filterMap.mp reported
  unfold Local.warning? at isWarning
  split at isWarning
  · cases isWarning
  · cases isWarning
    exact placed declared among

theorem Placed.open_scope (placed : usage.Placed place) : usage.openScope.Placed place :=
  ⟨List.forall_mem_cons.mpr ⟨nofun, placed.scopes⟩, placed.found⟩

theorem Placed.close_scope (placed : usage.Placed place) : (usage.closeScope id).Placed place := by
  obtain ⟨scopes, found⟩ := usage
  obtain ⟨inScopes, inFound⟩ := placed
  cases scopes with
  | nil => exact ⟨inScopes, inFound⟩
  | cons inner outer =>
      obtain ⟨inInner, inOuter⟩ := List.forall_mem_cons.mp inScopes
      exact ⟨inOuter, List.forall_mem_append.mpr ⟨inFound, warnings_placed inInner⟩⟩

theorem Placed.declare (placed : usage.Placed place) (name : String) {location : Span}
    (here : place location) : (usage.declare name location).Placed place := by
  obtain ⟨scopes, found⟩ := usage
  obtain ⟨inScopes, inFound⟩ := placed
  cases scopes with
  | nil => exact ⟨inScopes, inFound⟩
  | cons inner outer =>
      obtain ⟨inInner, inOuter⟩ := List.forall_mem_cons.mp inScopes
      refine ⟨List.forall_mem_cons.mpr ⟨List.forall_mem_append.mpr ⟨?_, ?_⟩, inOuter⟩,
        List.forall_mem_append.mpr ⟨inFound, warnings_placed ?_⟩⟩
      · exact fun declared among => inInner declared (List.mem_filter.mp among).1
      · exact List.forall_mem_singleton.mpr here
      · exact fun declared among => inInner declared (List.mem_filter.mp among).1

theorem mark_in_placed {name : String} {scopes : List (List Local)}
    (placed : ∀ scope ∈ scopes, ∀ declared ∈ scope, place declared.location) :
    ∀ scope ∈ markIn name scopes, ∀ declared ∈ scope, place declared.location := by
  induction scopes with
  | nil => exact nofun
  | cons inner outer ih =>
      obtain ⟨inInner, inOuter⟩ := List.forall_mem_cons.mp placed
      unfold markIn
      split
      · refine List.forall_mem_cons.mpr ⟨?_, inOuter⟩
        intro declared among
        obtain ⟨earlier, present, rfl⟩ := List.mem_map.mp among
        split
        · exact inInner earlier present
        · exact inInner earlier present
      · exact List.forall_mem_cons.mpr ⟨inInner, ih inOuter⟩

theorem Placed.read_all (placed : usage.Placed place) (expression : Expr) :
    (usage.readAll expression).Placed place := by
  unfold readAll
  induction expression.reads generalizing usage with
  | nil => exact placed
  | cons name rest ih => exact ih ⟨mark_in_placed placed.scopes, placed.found⟩

end Usage

namespace Stmt

mutual

theorem track_placed {statement : Stmt} {usage : Usage} (placed : statement.Placed place exit)
    (followed : usage.Placed place) : (statement.track id usage).Placed place := by
  cases statement with
  | expression value => exact followed.read_all value
  | print keyword value => exact followed.read_all value
  | declare name initial =>
      cases initial with
      | none => exact followed.declare _ placed.2
      | some initial => exact (followed.read_all initial).declare _ placed.2
  | block body location => exact (track_all_placed placed.2 followed.open_scope).close_scope
  | ifThen keyword condition consequent =>
      unfold track
      exact track_placed placed.2 (followed.read_all condition)
  | ifElse keyword condition consequent alternative =>
      unfold track
      exact track_placed placed.2.2 (track_placed placed.2.1 (followed.read_all condition))
  | loop keyword condition body =>
      unfold track
      exact track_placed placed.2.2 (followed.read_all condition)
  | function name parameters body =>
      exact (track_all_placed placed.2 followed.open_scope).close_scope
  | returnValue keyword value =>
      cases value with
      | none => exact followed
      | some value => exact followed.read_all value
  | breakLoop keyword => exact followed

theorem track_all_placed {body : List Stmt} {usage : Usage} (placed : AllPlaced place exit body)
    (followed : usage.Placed place) : (trackAll id body usage).Placed place := by
  cases body with
  | nil => exact followed
  | cons first rest =>
      unfold trackAll
      exact track_all_placed placed.2 (track_placed placed.1 followed)

end

end Stmt

end Treewalk
