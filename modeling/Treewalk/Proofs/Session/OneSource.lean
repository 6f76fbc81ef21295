import Treewalk.Proofs.Check.Soundness
import Treewalk.Proofs.Evaluation.Erased
import Treewalk.Proofs.Evaluation.Limit
import Treewalk.Proofs.Evaluation.Printing
import Treewalk.Proofs.Program.Placement
import Treewalk.Proofs.Session.Accepted
import Treewalk.Proofs.Token.Joined

/-!
# A session as one source

Sources that succeed one after the other in a session succeed as one source, joined by line breaks.
Each stage is followed on its own: a line break ends every token, tokens of programs in a row form
the programs in a row, no exit becomes stray, and a program that has run every statement leaves the
rest to the next one. Functions keep other places in the one source, and nothing else is different.
-/

namespace Treewalk

set_option autoImplicit false

open Grammar

theorem items_without_errors {items : List Item} (clean : items.filterMap Item.error? = []) :
    items.map Item.erase = ((items.filterMap Item.token?).map Token.erase).map .ok := by
  induction items with
  | nil => rfl
  | cons item items ih =>
      cases item with
      | token found => exact congrArg (List.cons _) (ih clean)
      | error found => cases clean

/-- A parsed source spells tokens of its program, in whatever places. -/
theorem spells_of_parse {source : String} {program : Program}
    (parsed : parse source = .ok program) :
    ∃ tokens, spelled source.toList = tokens.map .ok ∧ Redeclaring program tokens := by
  obtain ⟨tokens, lexed, derived⟩ := parse_ok_iff.mp parsed
  cases derived with
  | @intro _ inside closing whole ended =>
      obtain ⟨clean, scanned⟩ := scan_ok_iff.mp lexed
      obtain ⟨same, -⟩ := List.append_inj' scanned rfl
      refine ⟨inside.map Token.erase, ?_, redeclaring_of_forms whole⟩
      have items := items_without_errors clean
      rw [← same]
      exact (source_items_erase source).symm.trans items

section Joined

variable {sources : List String} {programs : List Program}

theorem joined_spells
    (parsed : List.Forall₂ (fun source program => parse source = .ok program) sources programs) :
    ∃ tokens, spelled ("\n".intercalate sources).toList = tokens.map .ok ∧
      Redeclaring programs.flatten tokens := by
  induction parsed with
  | nil => exact ⟨[], rfl, redeclaring_nil⟩
  | @cons source program sources programs first others ih =>
      obtain ⟨before, spells, reforms⟩ := spells_of_parse first
      obtain ⟨behind, spellsOthers, reformsOthers⟩ := ih
      cases sources with
      | nil =>
          cases others
          rw [String.intercalate_singleton, List.flatten_singleton]
          exact ⟨before, spells, reforms⟩
      | cons second sources =>
          refine ⟨before ++ behind, ?_, redeclaring_append reforms reformsOthers⟩
          have text : ("\n".intercalate (source :: second :: sources)).toList =
              source.toList ++ '\n' :: ("\n".intercalate (second :: sources)).toList := by
            rw [String.intercalate_cons_cons]
            simp only [String.toList_append, List.append_assoc]
            rfl
          rw [text, spelled_line spells, spellsOthers, List.map_append]

/-- Accepted sources, joined by line breaks, are accepted, and their programs are joined. -/
theorem joined_accepted (accepted : List.Forall₂
      (fun source program => (analyze source).result = .ok program) sources programs) :
    ∃ program, (analyze ("\n".intercalate sources)).result = .ok program ∧
      Program.erase programs.flatten = Program.erase program := by
  have settled : Stmt.strayExitsIn Context.top programs.flatten = [] := by
    induction accepted with
    | nil => rfl
    | cons first others ih =>
        rw [List.flatten_cons, stray_exits_in_append, (analyze_ok_iff.mp first).2, ih]
        rfl
  have parsed : List.Forall₂ (fun source program => parse source = .ok program) sources programs :=
    accepted.imp fun source program found => (analyze_ok_iff.mp found).1
  obtain ⟨tokens, spells, reforms⟩ := joined_spells parsed
  obtain ⟨program, joined, same⟩ := parse_of_spelled spells reforms
  exact ⟨program, analyze_ok_iff.mpr ⟨joined, settled_of_erase _ same.symm settled⟩, same.symm⟩

end Joined

/-- A program that has run every statement leaves the rest to the program behind it. -/
theorem interpret_append {config : Config} {units : Nat} {program more : Program}
    {machine between : Machine} {shown : Option Value}
    (completes : Completes config units program machine shown between) (inside : more ≠ []) :
    interpret config units (program ++ more) machine = interpret config units more between := by
  induction completes with
  | empty => rfl
  | trailing done =>
      rw [List.singleton_append, interpret_expression config units _ _ inside, done]
      rfl
  | expression _ done later ih =>
      rw [List.cons_append, interpret_expression config units _ _ (by simp [inside]), done]
      exact ih
  | statement other done later ih =>
      rw [List.cons_append, interpret_statement config units _ _ other, done]
      exact ih

theorem interpret_done_of_le {config : Config} {less more : Nat} {program : Program}
    {machine after : Machine} {shown : Option Value} (enough : less ≤ more)
    (done : interpret config less program machine = .done shown after) :
    interpret config more program machine = .done shown after := by
  have kept : (interpret config less program machine).KeptBy
      (interpret config more program machine) := interpret_kept enough program machine
  rcases kept with cut | same
  · rw [done] at cut
    cases cut
  · rw [same, done]

namespace Session

/-- The sources run one after the other without failure, and print these lines. -/
inductive RunsThrough : Session → List String → Array String → Session → Prop where
  | none {session : Session} : RunsThrough session [] #[] session
  | source {session between after : Session} {source : String} {sources : List String}
      {units : Nat} {shown : Ran} {value : Option Value} {lines : Array String}
      (ran : session.run units source = some (shown, between))
      (succeeded : shown.result = .ok value)
      (others : RunsThrough between sources lines after) :
      RunsThrough session (source :: sources) (shown.output ++ lines) after

/-- Running a source without failure evaluates an accepted program to its end. -/
theorem run_succeeded {session between : Session} {source : String} {units : Nat} {shown : Ran}
    {value : Option Value} (ran : session.run units source = some (shown, between))
    (succeeded : shown.result = .ok value) :
    ∃ program machine, (analyze source).result = .ok program ∧
      interpret session.config units program session.cleared = .done value machine ∧
      between = ⟨session.config, machine⟩ ∧ shown.output = machine.output := by
  unfold Session.run Session.runAnalysis at ran
  split at ran
  · cases ran
    cases succeeded
  · rename_i program accepted
    split at ran
    · rename_i result machine evaluated
      cases ran
      cases succeeded
      exact ⟨program, machine, accepted, evaluated, rfl, rfl⟩
    · cases ran
      cases succeeded
    · cases ran
    · cases ran

/-- The programs of the sources, in a row, do on one machine what the sources did in turn. -/
theorem interpret_of_runs_through {config : Config} {session after : Session}
    {sources : List String} {lines : Array String} (same : session.config = config)
    (checked : session.machine.Checked) (runs : session.RunsThrough sources lines after) :
    ∃ programs, List.Forall₂ (fun source program => (analyze source).result = .ok program)
        sources programs ∧
      ∃ bound, ∀ units, bound ≤ units → ∃ value,
        interpret config units programs.flatten session.cleared =
          .done value (after.cleared.behind lines) := by
  induction runs with
  | @none session =>
      refine ⟨[], .nil, 0, fun units _ => ⟨none, ?_⟩⟩
      rw [Machine.behind_empty]
      rfl
  | @source session between after source sources units shown value lines ran succeeded others ih =>
      obtain ⟨program, machine, accepted, evaluated, rfl, printed⟩ := run_succeeded ran succeeded
      rw [same] at evaluated
      have checkedCleared : session.cleared.Checked := checked
      have ended : ∀ units, (interpret config units program session.cleared).Meets
          (fun shown after => Completes config units program session.cleared shown after ∧
            after.Checked) (fun _ after => after.Checked) False :=
        fun units => interpret_checked (analyze_checked accepted) checkedCleared
      have checkedBetween := ended units
      rw [evaluated] at checkedBetween
      obtain ⟨programs, acceptedOthers, bound, later⟩ := ih same checkedBetween.2
      refine ⟨program :: programs, .cons accepted acceptedOthers, max units bound, ?_⟩
      intro more enough
      obtain ⟨result, done⟩ := later more (by omega)
      have again : interpret config more program session.cleared = .done value machine :=
        interpret_done_of_le (by omega) evaluated
      -- The machine behind the first source is the cleared one behind the lines of that source.
      have whole : machine =
          (Session.cleared ⟨session.config, machine⟩).behind machine.output := by
        simp [Session.cleared, Machine.behind]
      have joined : (after.cleared.behind lines).behind machine.output =
          after.cleared.behind (shown.output ++ lines) := by
        rw [printed]
        simp [Machine.behind, Array.append_assoc]
      by_cases empty : programs.flatten = []
      · refine ⟨value, ?_⟩
        rw [empty] at done
        injection done with _ unchanged
        rw [List.flatten_cons, empty, List.append_nil, again, ← joined, ← unchanged, ← whole]
      · refine ⟨result, ?_⟩
        have completes := ended more
        rw [again] at completes
        rw [List.flatten_cons, interpret_append completes.1 empty, whole, interpret_behind, done]
        exact congrArg (Outcome.done result) joined

end Session

theorem merge_sort_alike {like : Likeness} {bindings others : List (String × Value)}
    (alike : List.Forall₂ (fun first second => first.1 = second.1 ∧ first.2.Alike like second.2)
      bindings others) :
    List.Forall₂ (fun first second => first.1 = second.1 ∧ first.2.Alike like second.2)
      (bindings.mergeSort fun left right => left.1 ≤ right.1)
      (others.mergeSort fun left right => left.1 ≤ right.1) := by
  obtain ⟨pairs, rfl, rfl, related⟩ : ∃ pairs : List ((String × Value) × (String × Value)),
      bindings = pairs.map Prod.fst ∧ others = pairs.map Prod.snd ∧
      ∀ pair ∈ pairs, pair.1.1 = pair.2.1 ∧ pair.1.2.Alike like pair.2.2 := by
    induction alike with
    | nil => exact ⟨[], rfl, rfl, by simp⟩
    | @cons first second rest more head tail ih =>
        obtain ⟨pairs, rfl, rfl, related⟩ := ih
        exact ⟨(first, second) :: pairs, rfl, rfl, List.forall_mem_cons.mpr ⟨head, related⟩⟩
  have firsts : (pairs.mergeSort fun left right => left.1.1 ≤ right.1.1).map Prod.fst =
      (pairs.map Prod.fst).mergeSort fun left right => left.1 ≤ right.1 := by
    apply List.map_mergeSort
    intro left _ right _
    rfl
  have seconds : (pairs.mergeSort fun left right => left.1.1 ≤ right.1.1).map Prod.snd =
      (pairs.map Prod.snd).mergeSort fun left right => left.1 ≤ right.1 := by
    apply List.map_mergeSort
    intro left leftIn right rightIn
    rw [(related left leftIn).1, (related right rightIn).1]
  rw [← firsts, ← seconds, List.forall₂_map_left_iff, List.forall₂_map_right_iff,
    List.forall₂_same]
  exact fun pair found => related pair (List.mem_mergeSort.mp found)

theorem Session.globals_alike {like : Likeness} {session other : Session}
    (alike : session.machine.heap.Alike like other.machine.heap) :
    List.Forall₂ (fun first second => first.1 = second.1 ∧ first.2.Alike like second.2)
      session.globals other.globals := by
  have rel := alike.scopes Heap.global
  unfold Session.globals Heap.bindings
  generalize session.machine.heap.scopes[Heap.global]? = found at rel ⊢
  generalize other.machine.heap.scopes[Heap.global]? = foundToo at rel ⊢
  cases rel with
  | none => exact .nil
  | some same => exact merge_sort_alike same.bindings

/-- Sources that run without failure one after the other run without failure as one source, joined
by line breaks: with every budget that is large enough it prints their lines in order, and leaves
the same machine, so the same globals, up to the places of functions. -/
theorem session_runs_as_one_source (config : Config) (sources : List String) (lines : Array String)
    (after : Session) (runs : (Session.start config).RunsThrough sources lines after) :
    ∃ bound, ∀ units, bound ≤ units → ∃ shown value joined,
      (Session.start config).run units ("\n".intercalate sources) = some (shown, joined) ∧
      shown.result = .ok value ∧ shown.output = lines ∧
      List.Forall₂ (fun first second => first.1 = second.1 ∧ first.2.Alike .erased second.2)
        after.globals joined.globals ∧
      after.cleared.Alike .erased joined.cleared := by
  have checked : (Session.start config).machine.Checked := Machine.initial_stores
  obtain ⟨programs, accepted, bound, done⟩ :=
    Session.interpret_of_runs_through (show _ = config from rfl) checked runs
  obtain ⟨program, acceptedJoined, same⟩ := joined_accepted accepted
  refine ⟨bound, ?_⟩
  intro units enough
  obtain ⟨value, evaluated⟩ := done units enough
  have placeless := interpret_placeless config units same
    (show (Session.start config).cleared.Alike .erased (Session.start config).cleared from
      Machine.alike_initial)
  rw [evaluated] at placeless
  generalize ran : interpret config units program (Session.start config).cleared =
    outcome at placeless
  cases placeless with
  | @done _ valueToo _ machine fits alike =>
      refine ⟨⟨machine.output, (analyze ("\n".intercalate sources)).warnings, .ok valueToo⟩,
        valueToo,
        ⟨config, machine⟩, ?_, rfl, ?_, ?_, ?_⟩
      · unfold Session.run Session.runAnalysis
        rw [acceptedJoined]
        dsimp only
        rw [show (Session.start config).config = config from rfl, ran]
      · rw [← alike.output]
        simp [Machine.behind, Session.cleared]
      · exact Session.globals_alike alike.heap
      · exact { alike with output := rfl }

theorem session_runs_as_one_source_call :
    ∃ after bound, (Session.start ⟨4, fun _ => 0⟩).RunsThrough
        ["fun f(a) { n = n + a; return f; } // f", "var n = 1; print f(2); n;"] #["<fn f>"] after ∧
      ∀ units, bound ≤ units → ∃ shown value joined,
        (Session.start ⟨4, fun _ => 0⟩).run units
          ("\n".intercalate ["fun f(a) { n = n + a; return f; } // f",
            "var n = 1; print f(2); n;"]) =
            some (shown, joined) ∧
        shown.result = .ok value ∧ shown.output = #["<fn f>"] ∧
        List.Forall₂ (fun first second => first.1 = second.1 ∧ first.2.Alike .erased second.2)
          after.globals joined.globals ∧
        after.cleared.Alike .erased joined.cleared := by
  generalize declared : "fun f(a) { n = n + a; return f; } // f" = declaration
  generalize called : "var n = 1; print f(2); n;" = call
  have ran : ((Session.start ⟨4, fun _ => 0⟩).run 20 declaration).any (fun first =>
      first.1.result.toOption.isSome && (first.2.run 20 call).any fun second =>
        second.1.result.toOption.isSome &&
          decide (first.1.output ++ second.1.output = #["<fn f>"])) = true := by
    rw [← declared, ← called]
    decide +kernel
  rw [Option.any_eq_true] at ran
  obtain ⟨⟨shown, between⟩, ranFirst, ran⟩ := ran
  rw [Bool.and_eq_true, Option.any_eq_true] at ran
  obtain ⟨succeeded, ⟨again, after⟩, ranSecond, ran⟩ := ran
  rw [Bool.and_eq_true, decide_eq_true_eq] at ran
  obtain ⟨value, ended⟩ := exists_ok succeeded
  obtain ⟨result, endedAgain⟩ := exists_ok ran.1
  have runs : (Session.start ⟨4, fun _ => 0⟩).RunsThrough [declaration,
    call] #["<fn f>"] after := by
    have lines : shown.output ++ (again.output ++ #[]) = #["<fn f>"] := by
      rw [Array.append_empty]
      exact ran.2
    rw [← lines]
    exact .source ranFirst ended (.source ranSecond endedAgain .none)
  obtain ⟨bound, same⟩ := session_runs_as_one_source _ _ _ _ runs
  exact ⟨after, bound, runs, same⟩

end Treewalk
