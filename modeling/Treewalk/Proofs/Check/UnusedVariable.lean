import Treewalk.Proofs.Check.Unread
import Treewalk.Proofs.Evaluation.Unread
import Treewalk.Proofs.Scope.Stored
import Treewalk.Proofs.Session.Linked

/-!
# Variables that are reported as unused

A local variable that the check reports is not looked up behind its declaration. So when the program
runs, nothing that is read comes from the declaration, unless a function in front of the
declaration, in the same body, looks the name up: such a function finds the variable when it is
called later, and the check, which resolves names in the order of the text, has counted its lookup
for another one.
-/

namespace Treewalk

set_option autoImplicit false

open Watch

namespace Watch

/-- The code of a program runs in a scope that existed at the start, where nothing is watched. -/
structure Outside (watch : Watch) (start : Heap) (machine : Machine) : Prop where
  steady : watch.Steady machine
  grounded : start.Grounded
  heap : start.Extends watch.name.lexeme machine.heap
  current : machine.current < start.next
  far : ∀ holder, watch.origins holder = some watch.name → start.next ≤ holder
  idle : ∀ scope, ¬watch.pending scope

variable {watch : Watch} {start : Heap} {machine after : Machine} {events : List Event}

theorem Outside.mute (outside : watch.Outside start machine) (looksUp : Bool → Bool) :
    watch.Mute machine.heap machine.current looksUp := by
  intro direct holder covers passes
  obtain ⟨-, old⟩ := outside.heap.passes_back outside.grounded passes outside.current
  cases direct with
  | true => exact absurd old (Nat.not_lt.mpr (outside.far holder covers))
  | false => exact absurd covers (outside.idle holder)

theorem Outside.later (outside : watch.Outside start machine)
    (leads : watch.Leads nowhere events machine after) :
    (watch.after events).Outside start after := by
  refine ⟨leads.steady, outside.grounded, outside.heap.trans leads.heap, ?_, ?_, outside.idle⟩
  · rw [leads.current]
    exact outside.current
  · intro holder covered
    rcases leads.fresh holder covered with covered | new | impossible
    · exact outside.far holder covered
    · exact Nat.le_trans outside.heap.grown new
    · exact impossible.elim

end Watch

/-- A tidy program that does not declare the watched variable itself reads nothing that comes from
the declaration. -/
theorem program_misses (config : Config) (units : Nat) {start : Heap} (program : Program)
    {watch : Watch} {machine : Machine} (outside : watch.Outside start machine)
    (tidy : Stmt.AllTidy watch.name program)
    (nested : ∀ initial, .declare watch.name initial ∉ program) :
    watch.origins.Misses watch.name (Program.trace config units program machine) := by
  have parts := passes_by_with config units
  induction program generalizing watch machine with
  | nil => trivial
  | cons first rest ih =>
      have further : ∀ {events : List Event} {between : Machine},
          watch.Leads nowhere events machine between →
          (watch.after events).origins.Misses watch.name
            (Program.trace config units rest between) := fun leads =>
        ih (outside.later leads) tidy.rest fun initial inside =>
          nested initial (List.mem_cons_of_mem _ inside)
      by_cases isExpression : ∃ value, first = .expression value
      · obtain ⟨value, rfl⟩ := isExpression
        have safe := parts.evaluate watch value machine outside.steady (outside.mute _)
        refine misses_append safe.misses ?_
        cases done : evaluate config units value machine with
        | done result between => exact further (safe.ends result between done).1
        | _ => exact misses_nil
      · have closed : ¬first.Opens watch.name := by
          rintro ⟨initial, rfl⟩
          exact nested initial List.mem_cons_self
        have safe : watch.Safe nowhere machine (trace config units (.execute first) machine)
            Flow.Blind (execute config units first machine) :=
          parts.execute_branch outside.steady ⟨closed, tidy.first⟩ (outside.mute _)
        rw [program_trace_statement rest machine fun value same => isExpression ⟨value, same⟩]
        refine misses_append safe.misses ?_
        cases done : execute config units first machine with
        | done flow between =>
            cases flow with
            | normal => exact further (safe.ends .normal between done).1
            | _ => exact misses_nil
        | _ => exact misses_nil

/-- In a session that can be reached, no function is concerned with a declaration of another
source. -/
theorem outside_of_reached {config : Config} {session : Session} {name : Token}
    (reached : Session.Reached config session)
    (foreign : session.machine.Stores fun declaration => name ∉ Stmt.declaredIn declaration.body) :
    Watch.Outside ⟨name, Origins.none, fun _ => False⟩ session.machine.heap session.cleared := by
  have linked := reached_linked reached
  have grounded : session.machine.heap.Grounded := fun index found outer at_ around =>
    linked.heap index outer (.enclosing at_ around)
  have unwatched : ∀ holder, ¬Watch.Minds ⟨name, Origins.none, fun _ => False⟩ holder := by
    rintro holder ⟨direct, covers⟩
    cases direct with
    | true => cases covers
    | false => exact covers
  refine ⟨⟨⟨grounded, fun holder minds => absurd minds (unwatched holder), ?_⟩, linked.current⟩,
    grounded, .refl _ _, linked.current, fun holder covered => ?_, fun _ => id⟩
  · intro index found at_ binding inside identity declaration closure same
    have captured : binding.2.Captures closure := ⟨identity, declaration, same⟩
    refine ⟨linked.heap index closure (.closure at_ inside captured), ?_, ?_⟩
    · exact Stmt.tidy_body_of_foreign
        (foreign index found at_ binding inside identity declaration closure same)
    · exact fun holder minds => absurd minds (unwatched holder)
  · cases covered

/-- Running an accepted program reads nothing that comes from a declaration which the check reports
as an unused variable, if no function in front of the declaration, in the same body, looks the name
up. Every reading of a variable is in the trace of the program, and so is every time the declaration
is carried out. Places fit in 32 bits; functions of earlier sources must not declare a variable with
the very same token. -/
theorem unused_variable_never_read (config : Config) (session : Session)
    (reached : Session.Reached config session) (source : String)
    (short : source.utf8ByteSize < 2 ^ 32) (program : Program)
    (accepted : (analyze source).result = .ok program) (name : Token)
    (reported : ⟨.unusedVariable name.lexeme, name.span⟩ ∈ (analyze source).warnings)
    (foreign : session.machine.Stores fun declaration => name ∉ Stmt.declaredIn declaration.body)
    (uncaught : ∀ body ∈ Stmt.bodiesIn program, ¬Stmt.CaughtBefore name body) (units : Nat) :
    (∀ left token machine holder,
      Happens config units program session.cleared
        ⟨left + 1, .evaluate (.reference token), machine⟩ →
      machine.heap.resolve machine.current token.lexeme = some holder →
      .read holder token ∈ Program.trace config units program session.cleared) ∧
    (∀ left initial machine flow after,
      Happens config units program session.cleared
        ⟨left + 1, .execute (.declare name initial), machine⟩ →
      execute config (left + 1) (.declare name initial) machine = .done flow after →
      .declared after.current name ∈ Program.trace config units program session.cleared) ∧
    ∀ past future holder token,
      Program.trace config units program session.cleared = past ++ .read holder token :: future →
      origin past holder token.lexeme ≠ some name := by
  refine ⟨?_, ?_, ?_⟩
  · intro left token machine holder happens resolved
    apply (trace_of_happens happens).subset
    simp [Run.trace, trace, resolved]
  · intro left initial machine flow after happens done
    apply (trace_of_happens happens).subset
    obtain ⟨_, _, past, -, events⟩ := declared_of_done done
    simp only [Run.trace, events]
    exact List.mem_append_right past List.mem_cons_self
  · obtain ⟨parsed, -, warnings⟩ := analyze_accepted accepted
    rw [warnings] at reported
    obtain ⟨nested, unread⟩ := reported_variable short parsed reported
    have tidy : Stmt.AllTidy name program :=
      ⟨fun body inside => ⟨unread body inside, uncaught body inside⟩,
        Stmt.AllOrderly.imp (fun _ plain => plain.not_opens) program (variables_of_parse parsed).1⟩
    have misses := program_misses config units program (outside_of_reached reached foreign) tidy
      nested
    intro past future holder token whole isOrigin
    rw [whole] at misses
    have same := lexeme_of_origin isOrigin
    rw [origin, ← same] at isOrigin
    exact origin_of_misses misses same.symm isOrigin

/-- A variable that is assigned to and shadowed, but never read; the variable that shadows it is. -/
theorem unused_variable_never_read_shadowed :
    ∃ program name,
      (analyze "{ var x = 1; x = 2; { var x = 3; print x; } }").result = .ok program ∧
      ⟨.unusedVariable name.lexeme, name.span⟩ ∈
        (analyze "{ var x = 1; x = 2; { var x = 3; print x; } }").warnings ∧
      (∃ holder token, token.lexeme = name.lexeme ∧
        .read holder token ∈ Program.trace ⟨4, fun _ => 0⟩ 20 program
          (Session.start ⟨4, fun _ => 0⟩).cleared) ∧
      ∀ past future holder token,
        Program.trace ⟨4, fun _ => 0⟩ 20 program (Session.start ⟨4, fun _ => 0⟩).cleared =
          past ++ .read holder token :: future →
        origin past holder token.lexeme ≠ some name := by
  have short : "{ var x = 1; x = 2; { var x = 3; print x; } }".utf8ByteSize < 2 ^ 32 := by decide
  generalize written : "{ var x = 1; x = 2; { var x = 3; print x; } }" = source at short
  have checked : (analyze source).result.toOption.any (fun program =>
      (Stmt.declaredIn program).any fun name =>
        decide (⟨.unusedVariable name.lexeme, name.span⟩ ∈ (analyze source).warnings) &&
          ((Stmt.bodiesIn program).all fun body =>
            body.all fun statement => !statement.looksUp false name.lexeme) &&
          (Program.trace ⟨4, fun _ => 0⟩ 20 program
            (Session.start ⟨4, fun _ => 0⟩).cleared).any fun event =>
              event.reading?.any fun found => found.2.lexeme == name.lexeme) = true := by
    rw [← written]
    decide +kernel
  obtain ⟨program, accepted, checked⟩ := exists_ok_of_any checked
  obtain ⟨name, -, checked⟩ := List.any_eq_true.mp checked
  simp only [Bool.and_eq_true, decide_eq_true_eq, List.all_eq_true, Bool.not_eq_true',
    List.any_eq_true] at checked
  obtain ⟨⟨reported, free⟩, event, inside, reads⟩ := checked
  have never :=
    unused_variable_never_read ⟨4, fun _ => 0⟩ _ .start source short _ accepted name reported
    Machine.initial_stores (fun body among => Stmt.not_caught_of_all (free body among)) 20
  refine ⟨_, name, accepted, reported, ?_, never.2.2⟩
  obtain ⟨⟨holder, token⟩, reading, same⟩ := (Option.any_eq_true _ _).mp reads
  rw [Event.eq_read reading] at inside
  exact ⟨holder, token, beq_iff_eq.mp same, inside⟩

/-- A function that stands in front of the variable reads it when it is called behind the
declaration, and yet the variable is reported. -/
theorem unused_variable_is_read :
    ∃ program name past future holder token,
      (analyze "{ fun f() { print x; } var x = 1; f(); }").result = .ok program ∧
      ⟨.unusedVariable name.lexeme, name.span⟩ ∈
        (analyze "{ fun f() { print x; } var x = 1; f(); }").warnings ∧
      Program.trace ⟨4, fun _ => 0⟩ 20 program (Session.start ⟨4, fun _ => 0⟩).cleared =
        past ++ .read holder token :: future ∧
      origin past holder token.lexeme = some name := by
  generalize written : "{ fun f() { print x; } var x = 1; f(); }" = source
  have checked : (analyze source).result.toOption.any (fun program =>
      let events := Program.trace ⟨4, fun _ => 0⟩ 20 program
        (Session.start ⟨4, fun _ => 0⟩).cleared
      (List.range events.length).any fun count =>
        (events[count]?.bind Event.reading?).any fun found =>
          (origin (events.take count) found.1 found.2.lexeme).any fun name =>
            decide (⟨.unusedVariable name.lexeme, name.span⟩ ∈ (analyze source).warnings)) =
      true := by
    rw [← written]
    decide +kernel
  obtain ⟨program, accepted, checked⟩ := exists_ok_of_any checked
  obtain ⟨count, -, checked⟩ := List.any_eq_true.mp checked
  obtain ⟨⟨holder, token⟩, reading, checked⟩ := (Option.any_eq_true _ _).mp checked
  obtain ⟨event, isEvent, reading⟩ := Option.bind_eq_some_iff.mp reading
  obtain ⟨name, isOrigin, reported⟩ := (Option.any_eq_true _ _).mp checked
  rw [Event.eq_read reading] at isEvent
  obtain ⟨inside, isRead⟩ := List.getElem?_eq_some_iff.mp isEvent
  have whole := List.take_append_drop count
    (Program.trace ⟨4, fun _ => 0⟩ 20 program (Session.start ⟨4, fun _ => 0⟩).cleared)
  rw [List.drop_eq_getElem_cons inside, isRead] at whole
  exact ⟨program, name, _, _, holder, token, accepted, of_decide_eq_true reported, whole.symm,
    isOrigin⟩

end Treewalk
