import Treewalk.Proofs.Check.Soundness
import Treewalk.Proofs.Evaluation.Limit
import Treewalk.Proofs.Evaluation.LoopFree
import Treewalk.Proofs.Session.Blame

/-!
# Sessions without loops

Functions call each other in any way, are passed around and called from later sources; all the same,
if no source that was ever run has a loop, every source runs to its end. The limit on active calls
is enough: it stops recursion, and what a body does between two calls is bounded by its text. The
largest text of a session so far bounds every function in its heap.
-/

namespace Treewalk

set_option autoImplicit false

open Grammar

/-- No word that begins a loop stands among the tokens of the source. -/
def LoopFree (source : String) : Prop :=
  ∀ token ∈ (Scanned.ofText source.toList).tokens, token.kind ∉ [Kind.whileWord, Kind.forWord]

instance (source : String) : Decidable (LoopFree source) :=
  inferInstanceAs (Decidable (∀ token ∈ (Scanned.ofText source.toList).tokens,
    token.kind ∉ [Kind.whileWord, Kind.forWord]))

def Executed (source : String) : Prop :=
  ∃ program, (analyze source).result = .ok program

def Grammar.Sentence.loopFree : Sentence → Bool
  | .statement _ tree => tree.loopFree
  | .declaration tree => tree.loopFree
  | .declarations trees => Stmt.allLoopFree trees

theorem variable_declaration_loop_free {tree : Stmt} {tokens : List Token}
    (formed : VariableDeclaration tree tokens) : tree.loopFree = true := by
  cases formed <;> rfl

theorem forms_loop_free {sentence : Sentence} {tokens : List Token}
    (formed : Forms sentence tokens)
    (free : ∀ token ∈ tokens, token.kind ∉ [Kind.whileWord, Kind.forWord]) :
    sentence.loopFree = true := by
  induction formed with
  | expression whole =>
      cases whole
      rfl
  | print word shown ended => rfl
  | returnValue word result ended => rfl
  | breakLoop word ended => rfl
  | block opened enclosed closed ih =>
      exact ih fun token inside => free token (by simp [inside])
  | function word named opened head closed begun enclosed ended ih =>
      exact ih fun token inside => free token (by simp [inside])
  | ifThen word opened test closed first ih =>
      exact ih fun token inside => free token (by simp [inside])
  | ifElse word opened test closed first divided second ih ihSecond =>
      have freeFirst := ih fun token inside => free token (by simp [inside])
      have freeSecond := ihSecond fun token inside => free token (by simp [inside])
      exact Bool.and_eq_true_iff.mpr ⟨freeFirst, freeSecond⟩
  | whileLoop word opened test closed inner ih =>
      have other := free _ List.mem_cons_self
      simp [word] at other
  | forLoop word opened start test divided step closed inner ih =>
      have other := free _ List.mem_cons_self
      simp [word] at other
  | declared whole => exact variable_declaration_loop_free whole
  | statement whole ih => exact ih free
  | none => rfl
  | more first others ih ihOthers =>
      have freeFirst := ih fun token inside => free token (List.mem_append_left _ inside)
      have freeOthers := ihOthers fun token inside => free token (List.mem_append_right _ inside)
      exact Bool.and_eq_true_iff.mpr ⟨freeFirst, freeOthers⟩

theorem loop_free_of_parse {source : String} {program : Program} (free : LoopFree source)
    (parsed : parse source = .ok program) : Stmt.allLoopFree program = true := by
  obtain ⟨tokens, lexed, derived⟩ := parse_ok_iff.mp parsed
  obtain ⟨-, whole⟩ := scan_ok_iff.mp lexed
  cases derived with
  | intro formed ended =>
      obtain ⟨same, -⟩ := List.append_inj' whole rfl
      rw [← same, tokens_of_source] at formed
      exact forms_loop_free formed (List.forall_mem_map.mpr free)

theorem Machine.Tame.mono {machine : Machine} {bound more : Nat} (less : bound ≤ more)
    (tame : machine.Tame bound) : machine.Tame more := by
  intro index scope at_ binding inside identity declaration closure same
  have body := tame index scope at_ binding inside identity declaration closure same
  exact ⟨body.loopFree, body.light.trans less⟩

namespace Session

variable {config : Config} {sources : List String} {session : Session}

theorem reached_of_history (history : History config sources session) :
    Reached config session := by
  induction history with
  | start => exact .start
  | run earlier ended ih => exact .run ih ended

theorem run_of_le {source : String} {less more : Nat} {shown : Ran} {after : Session}
    (enough : less ≤ more) (ran : session.run less source = some (shown, after)) :
    session.run more source = some (shown, after) := by
  unfold Session.run Session.runAnalysis at ran ⊢
  split at ran
  · exact ran
  · rename_i program accepted
    rcases interpret_kept enough program session.cleared with cut | same
    · rw [cut] at ran
      cases ran
    · rw [same]
      exact ran

/-- A source without loops runs to its end on a heap that is tame, with any budget from some one on,
and the heap is tame afterwards. -/
theorem run_settles {source : String} {program : Program} {bound : Nat}
    (reached : Reached config session) (tame : session.machine.Tame bound)
    (accepted : (analyze source).result = .ok program) (free : LoopFree source) :
    ∃ more enough shown after, after.machine.Tame more ∧
      (∀ units, enough ≤ units → session.run units source = some (shown, after)) ∧
      ((∃ value, shown.result = .ok value) ∨ ∃ error, shown.result = .error (.running error)) := by
  have light : Stmt.AllTame (bound + Stmt.totalWeight program) program :=
    ⟨loop_free_of_parse free (analyze_accepted accepted).1, Nat.le_add_left _ _⟩
  have held : session.cleared.Tame (bound + Stmt.totalWeight program) :=
    Machine.Tame.mono (Nat.le_add_right _ _) tame
  generalize bound + Stmt.totalWeight program = more at light held
  generalize least : more + session.cleared.room config more + 1 = enough
  have settles : (interpret config enough program session.cleared).Settles more fun _ => True :=
    interpret_settles program light held (by omega)
  have sound : (interpret config enough program session.cleared).Meets _ _ False :=
    interpret_checked (analyze_checked accepted) (reached_checked reached)
  have same : ∀ units, enough ≤ units →
      (interpret config enough program session.cleared).KeptBy
        (interpret config units program session.cleared) :=
    fun units larger => interpret_kept larger program session.cleared
  have setting := config_of_reached reached
  generalize outcome : interpret config enough program session.cleared = ended at settles sound same
  cases ended with
  | exhausted => exact settles.elim
  | stuck => exact sound.elim
  | done value machine =>
      refine ⟨more, enough, ⟨machine.output, (analyze source).warnings, .ok value⟩,
        { session with machine := machine }, settles.2, ?_, .inl ⟨value, rfl⟩⟩
      intro units larger
      rcases same units larger with cut | same
      · cases cut
      · simp only [Session.run, Session.runAnalysis, accepted, setting, same]
  | raised error machine =>
      refine ⟨more, enough, ⟨machine.output, (analyze source).warnings, .error (.running error)⟩,
        { session with machine := machine }, settles, ?_, .inr ⟨error, rfl⟩⟩
      intro units larger
      rcases same units larger with cut | same
      · cases cut
      · simp only [Session.run, Session.runAnalysis, accepted, setting, same]

/-- Between two sources of a session without loops, some weight bounds all functions in the heap. -/
theorem history_tame (history : History config sources session)
    (free : ∀ source ∈ sources, Executed source → LoopFree source) :
    ∃ bound, session.machine.Tame bound := by
  induction history with
  | start => exact ⟨0, Machine.initial_stores⟩
  | @run sources session after units source shown earlier ended ih =>
      obtain ⟨bound, tame⟩ := ih fun other inside => free other (List.mem_cons_of_mem source inside)
      cases accepted : (analyze source).result with
      | error failure =>
          rcases run_cases ended with rfl | ⟨program, machine, isAccepted, -, -⟩
          · exact ⟨bound, tame⟩
          · rw [accepted] at isAccepted
            cases isAccepted
      | ok program =>
          obtain ⟨more, enough, result, final, tameFinal, runs, -⟩ :=
            run_settles (reached_of_history earlier) tame accepted
              (free source List.mem_cons_self ⟨program, accepted⟩)
          -- The run that the history knows of is one of those with a larger budget.
          have again := run_of_le (Nat.le_max_left units enough) ended
          rw [runs _ (Nat.le_max_right units enough)] at again
          cases again
          exact ⟨more, tameFinal⟩

end Session

/-- Whatever the limit on active calls, a source that is run in a session whose sources have no loop
ends: there is a budget with which, as with any larger one, it shows the same value or the same
error. -/
theorem loop_free_session_ends (config : Config) (sources : List String) (session : Session)
    (history : Session.History config sources session) (source : String)
    (accepted : Executed source)
    (free : ∀ run ∈ source :: sources, Executed run → LoopFree run) :
    ∃ enough shown after,
      (∀ units, enough ≤ units → session.run units source = some (shown, after)) ∧
      ((∃ value, shown.result = .ok value) ∨ ∃ error, shown.result = .error (.running error)) := by
  obtain ⟨bound, tame⟩ :=
    Session.history_tame history fun other inside => free other (List.mem_cons_of_mem source inside)
  have loopFree : LoopFree source := free source List.mem_cons_self accepted
  obtain ⟨program, accepted⟩ := accepted
  obtain ⟨more, enough, shown, after, -, runs, ended⟩ :=
    Session.run_settles (Session.reached_of_history history) tame accepted loopFree
  exact ⟨enough, shown, after, runs, ended⟩

/-- Two functions of different sources call each other without end. -/
theorem loop_free_session_ends_recursion :
    ∃ session, Session.History ⟨3, fun _ => 0⟩ ["fun f(g) { return g(f); }"] session ∧
      ∃ enough shown after,
        (∀ units, enough ≤ units →
          session.run units "fun h(f) { print f; return f(h); } f(h);" = some (shown, after)) ∧
        ((∃ value, shown.result = .ok value) ∨ ∃ error,
          shown.result = .error (.running error)) := by
  generalize declared : "fun f(g) { return g(f); }" = first
  generalize written : "fun h(f) { print f; return f(h); } f(h);" = second
  have runs : ((Session.start ⟨3, fun _ => 0⟩).run 20 first).isSome = true := by
    rw [← declared]
    decide +kernel
  obtain ⟨⟨shown, session⟩, ran⟩ := Option.isSome_iff_exists.mp runs
  have history : Session.History ⟨3, fun _ => 0⟩ [first] session := .run .start ran
  have accepted : Executed second := by
    apply exists_ok
    rw [← written]
    decide +kernel
  have free : ∀ run ∈ [second, first], LoopFree run := by
    rw [← written, ← declared]
    decide +kernel
  exact ⟨session, history, loop_free_session_ends _ _ session history second accepted
    fun run inside _ => free run inside⟩

end Treewalk
