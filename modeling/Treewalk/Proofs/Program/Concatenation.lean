import Treewalk.Proofs.Program.Merge
import Treewalk.Proofs.Program.Moved

/-!
# Programs behind other programs

No statement looks past its end, except for an `else`. So declarations that the parser accepts on
their own are accepted in front of anything that does not start with `else`, and the rest is parsed
as if nothing stood in front of it: with the same statements and the same errors, all of them moved.
What is left of the budget behind the first declarations is more than the rest needs, and budget
that is not needed makes no difference.
-/

namespace Treewalk

set_option autoImplicit false

open Grammar

namespace Rule

/-- The second rule ends as the first one does, unless that one runs out of budget. -/
def Extends (α : Type) (rule other : Rule ParseState α) : Prop :=
  ∀ state, rule state ≠ .exhausted → other state = rule state

section Steps

variable {α β : Type}

theorem extends_refl (rule : Rule ParseState α) : Extends α rule rule :=
  fun _ _ => rfl

theorem exhausted_extends (rule : Rule ParseState α) : Extends α Rule.exhausted rule :=
  fun _ enough => absurd rfl enough

theorem bind_extends {rule other : Rule ParseState α} {next following : α → Rule ParseState β}
    (first : Extends α rule other) (second : ∀ value, Extends β (next value) (following value)) :
    Extends β (rule >>= next) (other >>= following) := by
  intro state enough
  have same : other state = rule state := by
    apply first
    intro usedUp
    apply enough
    rw [bind_eq, usedUp]
  rw [bind_eq] at enough
  rw [bind_eq, bind_eq, same]
  cases ran : rule state with
  | done value between =>
      rw [ran] at enough
      exact second value between enough
  | failed error between => rfl
  | exhausted => rfl

theorem assigned_extends (left : Expr) {value other : Rule ParseState Expr}
    (inner : Extends Expr value other) :
    Extends Expr (Parser.assigned left value) (Parser.assigned left other) := by
  refine bind_extends (extends_refl _) fun equals => ?_
  cases equals with
  | none => exact extends_refl _
  | some equals => exact bind_extends inner fun tree => extends_refl _

theorem recover_extends {rule other : Rule ParseState Stmt} (inner : Extends Stmt rule other) :
    Extends (Option Stmt) (Parser.recover rule) (Parser.recover other) := by
  intro state enough
  have same : other state = rule state := by
    apply inner
    intro usedUp
    apply enough
    rw [Parser.recover, usedUp]
  unfold Parser.recover
  rw [same]

end Steps

theorem extends_congruence : Congruence Extends where
  succeed value := extends_refl (pure value)
  andThen := bind_extends
  fail cause := extends_refl (Rule.fail cause)
  current := extends_refl Rule.current
  isAt kind := extends_refl (Rule.isAt kind)
  atEnd := extends_refl Rule.atEnd
  take := extends_refl Rule.take
  accept kinds := extends_refl (Rule.accept kinds)
  expect slot := extends_refl (Rule.expect slot)
  assigned := assigned_extends
  recover := recover_extends

theorem map_nil_append {α : Type} (rule : Rule ParseState (List α)) :
    (fun rest => [] ++ rest) <$> rule = rule := by
  funext state
  rw [map_eq, bind_eq]
  cases rule state <;> rfl

end Rule

namespace Parser

open Rule ParseState ParseState

/-- A larger budget makes no difference to a rule of statements that ends. -/
theorem statements_extend {units others : Nat} (more : units ≤ others) :
    StatementsRelated Extends units others := by
  induction units generalizing others with
  | zero =>
      constructor
      all_goals intros
      all_goals exact exhausted_extends _
  | succ units below =>
      obtain ⟨others, rfl, -⟩ := exists_succ (Nat.lt_of_lt_of_le (Nat.succ_pos units) more)
      exact extends_congruence.statements_succ (extends_refl _) (extends_refl _)
        (below (Nat.le_of_succ_le_succ more))

theorem declarations_of_budget {units : Nat} {state : ParseState} (closed : state.Closed)
    (enough : budget state.ahead.length ≤ units) :
    declarations units false state = program state := by
  obtain ⟨trees, after, done⟩ := program_done closed
  apply (statements_extend enough).declarations false state
  intro usedUp
  have ran : program state = .exhausted := usedUp
  rw [ran] at done
  cases done

theorem declaration_nonempty {tree : Stmt} {tokens : List Token}
    (formed : Forms (.declaration tree) tokens) : 0 < tokens.length := by
  obtain ⟨token, rest, rfl, -⟩ := declaration_starts formed
  exact Nat.succ_pos _

theorem declarations_few {trees : List Stmt} {tokens : List Token}
    (formed : Forms (.declarations trees) tokens) : trees.length ≤ tokens.length := by
  induction trees generalizing tokens with
  | nil => exact Nat.zero_le _
  | cons tree trees ih =>
      cases formed with
      | more first others =>
          have nonempty := declaration_nonempty first
          have fewer := ih others
          simp only [List.length_cons, List.length_append]
          omega

/-- Declarations are read in front of anything but an `else`, and what follows is read by itself. -/
theorem declarations_prepend {trees : List Stmt} {tokens : List Token} {units : Nat}
    {state : ParseState} (formed : Forms (.declarations trees) tokens)
    (apart : state.current.kind ≠ .elseWord)
    (enough : 12 * tokens.length + 2 ≤ units + trees.length) :
    declarations (units + trees.length) false (state.prepend tokens) =
      ((fun rest => trees ++ rest) <$> declarations units false) state := by
  induction trees generalizing tokens with
  | nil =>
      cases formed
      rw [map_nil_append]
      rfl
  | cons tree trees ih =>
      cases formed with
      | @more _ _ before behind first others =>
          simp only [List.length_append, List.length_cons] at enough
          have nonempty := declaration_nonempty first
          have parsedFirst :
              declaration (units + trees.length) ((state.prepend behind).prepend before) =
                .done (some tree) (state.prepend behind) :=
            admits_of_forms first _ _ (by omega) (declarations_apart others apart)
          have goesOn : ((state.prepend behind).prepend before).ahead.isEmpty = false := by
            apply List.isEmpty_eq_false_iff.mpr
            exact List.append_ne_nil_of_left_ne_nil (List.length_pos_iff.mp nonempty) _
          rw [prepend_append, List.length_cons, ← Nat.add_assoc, declarations,
            bind_of_done (is_at_eq _ _), bind_of_done (at_end_done.mpr ⟨goesOn, rfl⟩),
            if_neg (by simp), bind_of_done parsedFirst, bind_eq, ih others (by omega), map_eq,
            map_eq, bind_eq, bind_eq]
          cases declarations units false state <;> rfl

theorem program_prepend {trees : List Stmt} {tokens : List Token} {state : ParseState}
    (formed : Forms (.declarations trees) tokens) (closed : state.Closed)
    (apart : state.current.kind ≠ .elseWord) :
    program (state.prepend tokens) = ((fun rest => trees ++ rest) <$> program) state := by
  have few := declarations_few formed
  -- One unit goes to each declaration, and a declaration has a token, which is worth twelve.
  obtain ⟨units, whole, enough, enoughFirst⟩ : ∃ units,
      budget (state.prepend tokens).ahead.length = units + trees.length ∧
        budget state.ahead.length ≤ units ∧ 12 * tokens.length + 2 ≤ units + trees.length := by
    refine ⟨budget (state.prepend tokens).ahead.length - trees.length, ?_⟩
    simp only [prepend, List.length_append, budget]
    omega
  rw [program, supply_room, whole, declarations_prepend formed apart enoughFirst, map_eq, map_eq,
    bind_eq, bind_eq, declarations_of_budget closed enough]

end Parser

/-- Errors are sorted by where they start, so moving all of them does not change their order. -/
theorem ParseError.merge_moved (shift : Shift) (lexical : List LexError)
    (grammar : List SyntaxError) :
    merge (lexical.map (LexError.moved shift)) (grammar.map (SyntaxError.moved shift)) =
      (merge lexical grammar).map (ParseError.moved shift) := by
  have starts : ∀ error : ParseError, (error.moved shift).span.start =
      error.span.start + shift.bytes := by
    rintro (error | error) <;> rfl
  unfold merge
  rw [List.map_mergeSort (s := fun left right => decide (left.span.start ≤ right.span.start)),
    List.map_append, List.map_map, List.map_map, List.map_map, List.map_map]
  · rfl
  · intro left _ right _
    simp only [starts, Nat.add_le_add_iff_right]

/-- Behind a text without faults and a line break, a text is read from the state in which it is read
alone, moved, with the tokens of the first text in front. -/
theorem start_joined {first : List Char} (second : List Char)
    (clean : (Scanned.ofText first).errors = []) :
    Parser.start (Scanned.ofText (first ++ '\n' :: second)) =
        ((Parser.start (Scanned.ofText second)).moved (Shift.behind first)).prepend
          (Scanned.ofText first).tokens ∧
      (Scanned.ofText (first ++ '\n' :: second)).errors =
        (Scanned.ofText second).errors.map (LexError.moved (Shift.behind first)) := by
  obtain ⟨items, closing⟩ := scanned_joined second clean
  have tokens : (Scanned.ofText (first ++ '\n' :: second)).tokens = (Scanned.ofText first).tokens ++
      (Scanned.ofText second).tokens.map (Token.moved (Shift.behind first)) := by
    unfold Scanned.tokens
    rw [items, List.filterMap_append, tokens_moved]
  constructor
  · unfold Parser.start
    rw [tokens, closing]
    rfl
  · unfold Scanned.errors at clean ⊢
    rw [items, List.filterMap_append, clean, errors_moved, List.nil_append]

theorem start_apart {text : List Char}
    (apart : (Scanned.ofText text).tokens.head?.map Token.kind ≠ some .elseWord) :
    (Parser.start (Scanned.ofText text)).current.kind ≠ .elseWord := by
  unfold Parser.start ParseState.current
  cases tokens : (Scanned.ofText text).tokens with
  | nil => exact fun same => Kind.noConfusion same
  | cons token rest =>
      rw [tokens] at apart
      simpa using apart

/-- The run over both texts: what the first one derives, and behind it the run over the second. -/
theorem program_joined {first second : List Char} {trees more : Program} {after : ParseState}
    (clean : (Scanned.ofText first).errors = [])
    (formed : Forms (.declarations trees) (Scanned.ofText first).tokens)
    (apart : (Scanned.ofText second).tokens.head?.map Token.kind ≠ some .elseWord)
    (done : Parser.program (Parser.start (Scanned.ofText second)) = .done more after) :
    Parser.program (Parser.start (Scanned.ofText (first ++ '\n' :: second))) =
      .done (trees ++ Stmt.movedAll (Shift.behind first) more)
        (after.moved (Shift.behind first)) := by
  have closed : (Parser.start (Scanned.ofText second)).Closed := rfl
  have follows : ((Parser.start (Scanned.ofText second)).moved (Shift.behind first)).current.kind ≠
      .elseWord := by
    rw [ParseState.current_moved, Token.kind_moved]
    exact start_apart apart
  have alone := Parser.program_moves (Shift.behind first) (Parser.start (Scanned.ofText second))
  rw [done] at alone
  rw [(start_joined second clean).1, Parser.program_prepend formed (closed.moved _) follows]
  exact Rule.map_of_done alone

/-- An accepted text in front of another one that does not start with `else`, with a line break
between them, all of it within the bound of places: the statements of both if the second text is
accepted, and else its errors. What comes from the second text is moved by the bytes of the first
and by its lines. -/
theorem parse_joined (first second : String) (program : Program)
    (parsed : parse first = .ok program)
    (short : (first ++ "\n" ++ second).utf8ByteSize < 2 ^ 32)
    (apart : (Scanned.ofText second.toList).tokens.head?.map Token.kind ≠ some .elseWord) :
    let shift : Shift := ⟨first.utf8ByteSize + 1, newlines first.toList + 1⟩
    parse (first ++ "\n" ++ second) =
      match parse second with
      | .ok more => .ok (program ++ Stmt.movedAll shift more)
      | .error errors => .error (errors.map (ParseError.moved shift)) := by
  intro shift
  have closed : ∀ text, (Parser.start (Scanned.ofText text)).Closed := fun _ => rfl
  have sizes := short
  rw [String.utf8ByteSize_append, String.utf8ByteSize_append] at sizes
  have exactFirst := of_source_of_short (show first.utf8ByteSize < 2 ^ 32 by omega)
  have exactSecond := of_source_of_short (show second.utf8ByteSize < 2 ^ 32 by omega)
  obtain ⟨clean, _, recorded, done⟩ := parse_ok_iff_done.mp parsed
  rw [exactFirst] at clean done
  obtain ⟨more, after, doneSecond⟩ := Parser.program_done (closed second.toList)
  have formed := Parser.program_sound (closed first.toList) done recorded
  have ran := program_joined clean formed apart doneSecond
  have errors := (start_joined second.toList clean).2
  have behind : Shift.behind first.toList = shift := by
    rw [Shift.behind, byte_length_to_list]
  rw [behind] at ran errors
  have text : (first ++ "\n" ++ second).toList = first.toList ++ '\n' :: second.toList := by
    simp
  have recordedToo : (after.moved shift).recorded =
      after.recorded.map (SyntaxError.moved shift) := rfl
  rw [parse_eq_parsed, parse_eq_parsed, of_source_of_short short, exactSecond, text]
  unfold Scanned.parsed
  rw [ran, doneSecond, errors]
  dsimp only
  rw [recordedToo, ParseError.merge_moved]
  -- Both runs have errors, or none of them has.
  cases ParseError.merge (Scanned.ofText second.toList).errors after.recorded with
  | nil => rfl
  | cons error errors => rfl

/-- A comment at the end of the first text stops at the line break, and its `if` stays without
`else`; the second text is once accepted and once not. -/
theorem parse_joined_conditional :
    ∃ program more errors, parse "if (a) print 1; // \"" = .ok program ∧
      parse "print 2;" = .ok more ∧ parse "print ;" = .error errors ∧
      parse "if (a) print 1; // \"\nprint 2;" = .ok (program ++ Stmt.movedAll ⟨21, 1⟩ more) ∧
      parse "if (a) print 1; // \"\nprint ;" =
        .error (errors.map (ParseError.moved ⟨21, 1⟩)) := by
  obtain ⟨program, parsed⟩ : ∃ program, parse "if (a) print 1; // \"" = .ok program :=
    exists_ok (by decide +kernel)
  obtain ⟨more, accepted⟩ : ∃ more, parse "print 2;" = .ok more := exists_ok (by decide +kernel)
  have joined := parse_joined _ "print 2;" program parsed (by decide) (by decide +kernel)
  have joinedToo := parse_joined _ "print ;" program parsed (by decide) (by decide +kernel)
  have faulty : (parse "print ;").toOption.isNone = true := by decide +kernel
  cases refused : parse "print ;" with
  | ok others =>
      rw [refused] at faulty
      cases faulty
  | error errors =>
      rw [accepted] at joined
      rw [refused] at joinedToo
      exact ⟨program, more, errors, parsed, accepted, rfl, joined, joinedToo⟩

end Treewalk
