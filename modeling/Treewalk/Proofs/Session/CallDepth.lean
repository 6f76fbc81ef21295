import Treewalk.Proofs.Evaluation.Overflow
import Treewalk.Proofs.Session.Blame

/-!
# What the limit on calls counts

A call with as many arguments as the function takes is refused exactly if as many declared functions
are being run around it as the limit allows. Native functions do not count; but at the limit a
native function is refused as a declared one is, although it would start nothing that counts.
-/

namespace Treewalk

set_option autoImplicit false

/-- A function that is called on a machine, with the budget that is left for it. -/
structure Attempt where
  units : Nat
  paren : Token
  callable : Callable
  values : List Value
  machine : Machine

namespace Attempt

def run (attempt : Attempt) : Run :=
  ⟨attempt.units + 1, .call attempt.paren (.callable attempt.callable) attempt.values,
    attempt.machine⟩

def outcome (config : Config) (attempt : Attempt) : Outcome Value :=
  call config (attempt.units + 1) attempt.paren (.callable attempt.callable) attempt.values
    attempt.machine

end Attempt

/-- While a program runs, a function is called with as many arguments as it takes, and at that time
`active` declared functions are being run. -/
structure Attempted (config : Config) (units : Nat) (program : Program) (machine : Machine)
    (active : Nat) (attempt : Attempt) : Prop where
  happens : ∃ top, Begins config units program machine top ∧ Nested config top active attempt.run
  fits : attempt.values.length = attempt.callable.arity

section Attempts

variable {config : Config} {units : Nat} {program : Program} {machine : Machine} {active : Nat}
  {attempt : Attempt}

theorem call_depth_within {top run : Run} (nested : Nested config top active run)
    (within : top.machine.callDepth ≤ config.maxCallDepth) :
    run.machine.callDepth ≤ config.maxCallDepth := by
  induction nested with
  | top => exact within
  | inside earlier starts ih =>
      have depth := call_depth_of_starts starts
      cases starts with
      | invoke fits allowed => exact allowed
      | _ => exact Nat.le_trans (Nat.le_of_eq depth) ih

/-- From a machine at rest, the counter shows what is being run around the call. -/
theorem Attempted.call_depth (attempted : Attempted config units program machine active attempt)
    (rest : machine.callDepth = 0) :
    attempt.machine.callDepth = active ∧ active ≤ config.maxCallDepth := by
  obtain ⟨top, begins, nested⟩ := attempted.happens
  obtain ⟨outside, same⟩ := begins_outside begins
  have depth : attempt.machine.callDepth = top.machine.callDepth + active + 0 :=
    call_depth_of_nested nested outside
  have within : attempt.machine.callDepth ≤ config.maxCallDepth := by
    apply call_depth_within nested
    rw [same, rest]
    exact Nat.zero_le _
  omega

theorem Attempted.runs (attempted : Attempted config units program machine active attempt)
    (rest : machine.callDepth = 0) (below : active < config.maxCallDepth) :
    attempt.outcome config =
      (invoke config attempt.units attempt.callable attempt.values
        attempt.machine.enterCall).onExit Machine.leaveCall := by
  have allowed : ¬config.maxCallDepth ≤ attempt.machine.callDepth := by
    rw [(attempted.call_depth rest).1]
    exact Nat.not_le.mpr below
  unfold Attempt.outcome call
  dsimp only
  rw [if_neg (Decidable.not_not.mpr attempted.fits), if_neg allowed]

/-- A program ends with a stack overflow exactly if it comes to a call at the limit. -/
theorem interpret_raises_overflow_iff (rest : machine.callDepth = 0) (paren : Token) :
    (interpret config units program machine).Raises ⟨.stackOverflow, paren⟩ ↔
      ∃ attempt, Attempted config units program machine config.maxCallDepth attempt ∧
        attempt.paren = paren := by
  constructor
  · intro raises
    obtain ⟨top, begins, raises⟩ := begins_of_raised raises
    obtain ⟨active, inner, nested, refused⟩ := refused_of_raises top.units rfl .top raises
    cases refused with
    | @intro left callable values found fits full =>
        have attempted : Attempted config units program machine active
            ⟨left, paren, callable, values, found⟩ := ⟨⟨top, begins, nested⟩, fits⟩
        have depth := attempted.call_depth rest
        have limit : active = config.maxCallDepth := by
          have same : found.callDepth = active := depth.1
          omega
        exact ⟨_, limit ▸ attempted, rfl⟩
  · rintro ⟨attempt, attempted, rfl⟩
    have full := Nat.le_of_eq (attempted.call_depth rest).1.symm
    obtain ⟨top, begins, nested⟩ := attempted.happens
    apply interpret_raises begins
    exact raises_of_reached nested.reached (refused_raises (.intro attempted.fits full))

end Attempts

/-- A source that is accepted fails with the error exactly if its program raises it. -/
theorem Session.run_raises_iff {session : Session} {source : String} {program : Program}
    (accepted : (analyze source).result = .ok program) (units : Nat) (error : RuntimeError) :
    (∃ shown after, session.run units source = some (shown, after) ∧
        shown.result = .error (.running error)) ↔
      (interpret session.config units program session.cleared).Raises error := by
  constructor
  · rintro ⟨shown, after, ended, failed⟩
    obtain ⟨found, machine, again, raised⟩ := Session.run_raised ended failed
    rw [accepted] at again
    cases again
    exact ⟨machine, raised⟩
  · rintro ⟨machine, raised⟩
    unfold Session.run Session.runAnalysis
    rw [accepted]
    dsimp only
    rw [raised]
    exact ⟨_, _, rfl, rfl⟩

/-- In every session and for every limit, an accepted source ends with a stack overflow exactly if
it comes to a call of a function, native or declared, with the right number of arguments while as
many declared functions are being run as the limit allows. The error is at that call. Below the
limit a call runs its function, and above the limit there is none. -/
theorem overflow_iff_call_at_limit (config : Config) (session : Session)
    (reached : Session.Reached config session) (source : String) (program : Program)
    (accepted : (analyze source).result = .ok program) (units : Nat) :
    (∀ paren, (∃ shown after, session.run units source = some (shown, after) ∧
        shown.result = .error (.running ⟨.stackOverflow, paren⟩)) ↔
      ∃ attempt, Attempted config units program session.cleared config.maxCallDepth attempt ∧
        attempt.paren = paren) ∧
    ∀ active attempt, Attempted config units program session.cleared active attempt →
      active ≤ config.maxCallDepth ∧
      (active < config.maxCallDepth → attempt.outcome config =
        (invoke config attempt.units attempt.callable attempt.values
          attempt.machine.enterCall).onExit Machine.leaveCall) := by
  have rest : session.cleared.callDepth = 0 := (reached_at_rest reached).callDepth
  constructor
  · intro paren
    rw [Session.run_raises_iff accepted, Session.config_of_reached reached]
    exact interpret_raises_overflow_iff rest paren
  · intro active attempt attempted
    exact ⟨(attempted.call_depth rest).2, attempted.runs rest⟩

theorem overflow_iff_call_at_limit_recursion :
    ∃ program shown after attempt,
      (analyze "fun f() { return f(); } f();").result = .ok program ∧
      (Session.start ⟨2, fun _ => 0⟩).run 30 "fun f() { return f(); } f();" = some (shown, after) ∧
      shown.result = .error (.running ⟨.stackOverflow, attempt.paren⟩) ∧
      Attempted ⟨2, fun _ => 0⟩ 30 program (Session.start ⟨2, fun _ => 0⟩).cleared 2 attempt := by
  generalize written : "fun f() { return f(); } f();" = source
  have ran : ((Session.start ⟨2, fun _ => 0⟩).run 30 source).any (fun ran =>
      (runtimeError? ran.1.result).any fun error => decide (error.cause = .stackOverflow)) =
        true := by
    rw [← written]
    decide +kernel
  rw [Option.any_eq_true] at ran
  obtain ⟨⟨shown, after⟩, ended, ran⟩ := ran
  obtain ⟨⟨cause, paren⟩, failed, same⟩ := raised_of_any ran
  cases of_decide_eq_true same
  obtain ⟨program, -, accepted, -⟩ := Session.run_raised ended failed
  obtain ⟨attempt, attempted, rfl⟩ :=
    ((overflow_iff_call_at_limit _ _ .start source program accepted 30).1 paren).mp
      ⟨shown, after, ended, failed⟩
  exact ⟨program, shown, after, attempt, accepted, ended, failed, attempted⟩

section Clock

variable {clock : Nat → Float} {units active : Nat} {name paren : Token}

theorem clock_found {value : Value} {after : Machine} (named : name.lexeme = "clock")
    (done : evaluate ⟨0, clock⟩ units (.reference name) Machine.initial = .done value after) :
    value = .callable ⟨0, .native .clock⟩ ∧ after = Machine.initial := by
  cases units with
  | zero => cases done
  | succ units =>
      unfold evaluate readVariable at done
      dsimp only at done
      rw [named] at done
      cases done
      exact ⟨rfl, rfl⟩

theorem clock_not_shown {value : Value} {after : Machine} (named : name.lexeme = "clock") :
    evaluate ⟨0, clock⟩ units (.call (.reference name) paren []) Machine.initial ≠
      .done value after := by
  intro done
  cases units with
  | zero => cases done
  | succ units =>
      unfold evaluate at done
      dsimp only at done
      cases read : evaluate ⟨0, clock⟩ units (.reference name) Machine.initial with
      | done callee between =>
          obtain ⟨rfl, rfl⟩ := clock_found named read
          rw [read] at done
          cases units with
          | zero => cases read
          | succ units => cases done
      | raised error between =>
          rw [read] at done
          cases done
      | exhausted =>
          rw [read] at done
          cases done
      | stuck =>
          rw [read] at done
          cases done

/-- The runs of a program that begins with printing what the clock shows, where no call is allowed:
they go up to the call, and none comes behind it. -/
inductive ClockRun (name paren : Token) : Run → Prop where
  | printed {units : Nat} {keyword operator : Token} {right : Expr} :
      ClockRun name paren ⟨units, .execute
        (.print keyword (.binary (.call (.reference name) paren []) operator right)),
        Machine.initial⟩
  | compared {units : Nat} {operator : Token} {right : Expr} :
      ClockRun name paren ⟨units,
        .evaluate (.binary (.call (.reference name) paren []) operator right), Machine.initial⟩
  | called {units : Nat} :
      ClockRun name paren ⟨units, .evaluate (.call (.reference name) paren []), Machine.initial⟩
  | callee {units : Nat} :
      ClockRun name paren ⟨units, .evaluate (.reference name), Machine.initial⟩
  | arguments {units : Nat} : ClockRun name paren ⟨units, .evaluateAll [], Machine.initial⟩
  | refused {units : Nat} :
      ClockRun name paren ⟨units, .call paren (.callable ⟨0, .native .clock⟩) [], Machine.initial⟩

theorem clock_run_starts {outer inner : Run} (named : name.lexeme = "clock")
    (run : ClockRun name paren outer) (starts : Starts ⟨0, clock⟩ outer inner) :
    ClockRun name paren inner := by
  cases run with
  | printed =>
      cases starts with
      | printed => exact .compared
  | compared =>
      cases starts with
      | binaryLeft => exact .called
      | binaryRight done => exact absurd done (clock_not_shown named)
  | called =>
      cases starts with
      | callee => exact .callee
      | arguments done =>
          obtain ⟨-, rfl⟩ := clock_found named done
          exact .arguments
      | @call units _ _ _ _ _ _ _ _ done passed =>
          obtain ⟨rfl, rfl⟩ := clock_found named done
          cases units with
          | zero => cases passed
          | succ units =>
              cases passed
              exact .refused
  | callee => cases starts
  | arguments => cases starts
  | refused =>
      cases starts with
      | invoke fits allowed => exact absurd allowed (Nat.not_lt_zero _)

/-- The only call that such a program comes to is the one of the clock. -/
theorem attempted_clock {keyword operator : Token} {right : Expr} {attempt : Attempt}
    (named : name.lexeme = "clock")
    (attempted : Attempted ⟨0, clock⟩ units
      [.print keyword (.binary (.call (.reference name) paren []) operator right)] Machine.initial
      active attempt) :
    attempt.callable.code = .native .clock := by
  obtain ⟨top, begins, nested⟩ := attempted.happens
  have first : ClockRun name paren top := by
    cases begins with
    | statement other => exact .printed
    | behindStatement other done later => cases later
  have every : ∀ run, Relation.ReflTransGen (Starts ⟨0, clock⟩) top run →
      ClockRun name paren run := by
    intro run reached
    induction reached with
    | refl => exact first
    | tail _ starts ih => exact clock_run_starts named ih starts
  have last := every _ nested.reached
  obtain ⟨left, closing, callable, values, machine⟩ := attempt
  cases last
  rfl

end Clock

def asksClock : Program → Bool
  | [.print _ (.binary (.call (.reference name) _ []) _ _)] => decide (name.lexeme = "clock")
  | _ => false

/-- The clock, a native function, is refused where no call is allowed, although no declared function
is called at all. -/
theorem native_call_refused_at_limit :
    ∃ program shown after paren, (analyze "print clock() == nil;").result = .ok program ∧
      (Session.start ⟨0, fun _ => 0⟩).run 20 "print clock() == nil;" = some (shown, after) ∧
      shown.result = .error (.running ⟨.stackOverflow, paren⟩) ∧
      ∀ active attempt, Attempted ⟨0, fun _ => 0⟩ 20 program
        (Session.start ⟨0, fun _ => 0⟩).cleared active attempt →
          attempt.callable.code = .native .clock := by
  generalize written : "print clock() == nil;" = source
  have ran : ((Session.start ⟨0, fun _ => 0⟩).run 20 source).any (fun ran =>
      (runtimeError? ran.1.result).any fun error => decide (error.cause = .stackOverflow)) =
        true := by
    rw [← written]
    decide +kernel
  have asks : (parse source).toOption.any asksClock = true := by
    rw [← written]
    decide +kernel
  rw [Option.any_eq_true] at ran
  obtain ⟨⟨shown, after⟩, ended, ran⟩ := ran
  obtain ⟨⟨cause, paren⟩, failed, same⟩ := raised_of_any ran
  cases of_decide_eq_true same
  obtain ⟨program, -, accepted, -⟩ := Session.run_raised ended failed
  refine ⟨program, shown, after, paren, accepted, ended, failed, ?_⟩
  intro active attempt attempted
  obtain ⟨found, parsed, asks⟩ := exists_ok_of_any asks
  rw [(analyze_accepted accepted).1] at parsed
  cases parsed
  unfold asksClock at asks
  split at asks
  · exact attempted_clock (of_decide_eq_true asks) attempted
  · cases asks

end Treewalk
