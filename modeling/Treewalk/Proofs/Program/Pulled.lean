import Treewalk.Program.Pull
import Treewalk.Proofs.Program.Budget
import Treewalk.Proofs.Program.Advance
import Treewalk.Proofs.Token.Tiling

/-!
# Parsing while scanning is parsing what scanning lists

A parser that pulls its tokens out of a scanner does what the parser of a list does. `Mirrors`
relates their states: they look at the same token, and what the scanner still has to give are the
tokens behind it in the list, with the lexical errors that have not been noted yet. One pull keeps
the relation, and so the rules of the grammar keep it. At its end the parser has pulled the whole
file up to the first fault, so no lexical error is missing, whatever was parsed.
-/

namespace Treewalk

set_option autoImplicit false

/-- The scanner still has these items and this closing token to give, in fewer rounds. -/
def Scanner.Gives (pulls : List Pull) (rounds : Nat) (left : Scanned) (scanner : Scanner) : Prop :=
  ∃ origin line taken text, Scanner.Stands pulls origin line taken text scanner ∧
    text.length < rounds ∧
    left = Scanned.narrowed
      ⟨Cursor.itemsFrom (chunks text)
          ⟨chunks text, origin + byteLength taken, line + newlines taken⟩,
        (Cursor.last (chunks text)
          ⟨chunks text, origin + byteLength taken, line + newlines taken⟩).finish⟩

namespace Scanner

variable {pulls : List Pull} {rounds more : Nat} {left : Scanned} {scanner : Scanner}

theorem Gives.mono (gives : Gives pulls rounds left scanner) (enough : rounds ≤ more) :
    Gives pulls more left scanner := by
  obtain ⟨origin, line, taken, text, stands, few, same⟩ := gives
  exact ⟨origin, line, taken, text, stands, Nat.lt_of_lt_of_le few enough, same⟩

theorem gives_start (pulls : List Pull) :
    Gives pulls (pulls.length + 1) (Scanned.ofPulls pulls) (start (.ofPulls pulls)) :=
  ⟨0, 1, [], leadingText pulls, stands_start pulls,
    Nat.lt_succ_of_le (leading_text_length pulls), rfl⟩

/-- A round skips layout, gives the next item, or gives the closing token when nothing is left. -/
inductive Gives.Turn (pulls : List Pull) (rounds : Nat) (left : Scanned) :
    Round × Scanner → Prop where
  | layout {after : Scanner} (gives : Gives pulls rounds left after) :
      Turn pulls rounds left (.layout, after)
  | item {item : Item} {items : List Item} {after : Scanner} (first : left.items = item :: items)
      (gives : Gives pulls rounds ⟨items, left.closing⟩ after) :
      Turn pulls rounds left (.item item, after)
  | finished {after : Scanner} (none : left.items = []) (reads : after.feed.Reads pulls)
      (drained : after.feed.Drained) : Turn pulls rounds left (.finished left.closing, after)

theorem Gives.round (gives : Gives pulls (rounds + 1) left scanner) :
    Gives.Turn pulls rounds left (scanner.round rounds) := by
  obtain ⟨origin, line, taken, text, stands, few, rfl⟩ := gives
  cases text with
  | nil =>
      obtain ⟨finished, reads, drained⟩ := round_at_end rounds stands
      generalize scanner.round rounds = result at finished reads drained
      obtain ⟨round, after⟩ := result
      dsimp only at finished
      subst finished
      exact .finished rfl reads drained
  | cons first rest =>
      rw [List.length_cons] at few
      -- The round takes at least one character, so one round less is enough for the others.
      have took := took_round rounds stands (by omega)
      have shorter := Chunk.munch_length first rest
      rw [chunks_cons]
      generalize Chunk.munch first rest = cut at took shorter
      generalize scanner.round rounds = result at took
      obtain ⟨⟨sort, lexeme⟩, behind⟩ := cut
      obtain ⟨round, after⟩ := result
      obtain ⟨same, stands⟩ := took
      dsimp only at same stands shorter
      subst same
      cases sort with
      | layout => exact .layout ⟨_, _, lexeme, behind, stands, by omega, rfl⟩
      | token kind literal => exact .item rfl ⟨_, _, lexeme, behind, stands, by omega, rfl⟩
      | fault cause => exact .item rfl ⟨_, _, lexeme, behind, stands, by omega, rfl⟩

end Scanner

/-- The parser that pulls looks at the first of these tokens, or at the closing one if there are
none. What its scanner still has to give are the others and the lexical errors that it has not
noted. -/
inductive Puller.Shows (pulls : List Pull) (errors : List LexError) (closing : Token) :
    List Token → Puller → Prop where
  | inside {token : Token} {left : Scanned} {puller : Puller} (current : puller.current = token)
      (gives : puller.scanner.Gives pulls puller.room left) (ending : left.closing = closing)
      (noted : puller.lexical ++ left.errors = errors) :
      Shows pulls errors closing (token :: left.tokens) puller
  | ended {puller : Puller} (current : puller.current = closing) (noted : puller.lexical = errors)
      (reads : puller.scanner.feed.Reads pulls) (drained : puller.scanner.feed.Drained) :
      Shows pulls errors closing [] puller

namespace Puller

variable {pulls : List Pull} {errors : List LexError} {rounds : Nat} {left : Scanned}

theorem shows_pull_up_to {puller : Puller} (gives : puller.scanner.Gives pulls rounds left)
    (noted : puller.lexical ++ left.errors = errors) (enough : rounds ≤ puller.room) :
    Shows pulls errors left.closing left.tokens (puller.pullUpTo rounds) ∧
      (puller.pullUpTo rounds).recorded = puller.recorded ∧
      (puller.pullUpTo rounds).room = puller.room := by
  induction rounds generalizing puller left with
  | zero =>
      obtain ⟨_, _, _, _, _, few, _⟩ := gives
      exact absurd few (Nat.not_lt_zero _)
  | succ rounds ih =>
      have turn := gives.round
      unfold pullUpTo
      generalize puller.scanner.round rounds = result at turn
      cases turn with
      | layout gives => exact ih gives noted (Nat.le_of_succ_le enough)
      | finished none reads drained =>
          obtain ⟨_, closing⟩ := left
          subst none
          refine ⟨?_, rfl, rfl⟩
          exact .ended rfl ((List.append_nil _).symm.trans noted) reads drained
      | @item item items after first gives =>
          obtain ⟨_, closing⟩ := left
          subst first
          cases item with
          | token token =>
              refine ⟨?_, rfl, rfl⟩
              exact @Shows.inside pulls errors closing token ⟨items, closing⟩
                { puller with current := token, scanner := after } rfl
                (gives.mono (Nat.le_of_succ_le enough)) rfl noted
          | error error =>
              exact @ih ⟨items, closing⟩
                { puller with scanner := after, lexical := puller.lexical ++ [error] } gives
                ((List.append_assoc _ _ _).trans noted) (Nat.le_of_succ_le enough)

@[simp]
theorem supply_current (puller : Puller) : Supply.current puller = puller.current :=
  rfl

@[simp]
theorem supply_is_at_end (puller : Puller) : Supply.isAtEnd puller = puller.isAtEnd :=
  rfl

@[simp]
theorem supply_advance (puller : Puller) : Supply.advance puller = puller.advance :=
  rfl

@[simp]
theorem supply_record (error : SyntaxError) (puller : Puller) :
    Supply.record error puller = puller.record error :=
  rfl

@[simp]
theorem supply_room (puller : Puller) : Supply.room puller = puller.room :=
  rfl

end Puller

/-- A parser in front of listed tokens and one that pulls are in the same place. -/
structure ParseState.Mirrors (pulls : List Pull) (errors : List LexError) (state : ParseState)
    (puller : Puller) : Prop where
  shows : puller.Shows pulls errors state.closing state.ahead
  closed : state.Closed
  /-- No token of the list is a closing one. -/
  inside : ∀ token ∈ state.ahead, token.kind ≠ .endOfInput
  recorded : puller.recorded = state.recorded
  room : state.ahead.length ≤ puller.room

section Steps

variable {pulls : List Pull} {errors : List LexError} {state : ParseState} {puller : Puller}

namespace ParseState.Mirrors

theorem current (mirrors : state.Mirrors pulls errors puller) :
    puller.current = state.current := by
  obtain ⟨ahead, closing, recorded⟩ := state
  obtain ⟨shows, -⟩ := mirrors
  cases shows with
  | inside current => exact current
  | ended current => exact current

theorem at_end (mirrors : state.Mirrors pulls errors puller) :
    puller.isAtEnd = state.ahead.isEmpty := by
  unfold Puller.isAtEnd
  rw [mirrors.current]
  obtain ⟨ahead, closing, recorded⟩ := state
  cases ahead with
  | nil => exact decide_eq_true mirrors.closed
  | cons token rest => exact decide_eq_false (mirrors.inside token List.mem_cons_self)

theorem advance (mirrors : state.Mirrors pulls errors puller) :
    state.skip.Mirrors pulls errors puller.advance := by
  have ended := mirrors.at_end
  obtain ⟨ahead, closing, recorded⟩ := state
  obtain ⟨shows, closed, inside, same, room⟩ := mirrors
  dsimp only at shows ended
  unfold Puller.advance
  cases shows with
  | ended current noted reads drained =>
      rw [if_pos (by simpa using ended)]
      exact ⟨.ended current noted reads drained, closed, inside, same, room⟩
  | inside current gives ending noted =>
      subst ending
      obtain ⟨shows, kept, roomKept⟩ := Puller.shows_pull_up_to gives noted (Nat.le_refl _)
      rw [if_neg (by simp [ended])]
      refine ⟨shows, closed, fun token found => ?_, kept.trans same, ?_⟩
      · exact inside token (List.mem_cons_of_mem _ found)
      · exact roomKept.symm ▸ Nat.le_of_succ_le room

theorem record (mirrors : state.Mirrors pulls errors puller) (error : SyntaxError) :
    (state.record error).Mirrors pulls errors (puller.record error) := by
  obtain ⟨ahead, closing, recorded⟩ := state
  obtain ⟨shows, closed, inside, same, room⟩ := mirrors
  refine ⟨?_, closed, inside, congrArg (· ++ [error]) same, room⟩
  cases shows with
  | inside current gives ending noted => exact .inside current gives ending noted
  | ended current noted reads drained => exact .ended current noted reads drained

/-- Recovery drops the same tokens, whatever bounds it, if all of them may be dropped. -/
theorem synchronize {units others : Nat} (mirrors : state.Mirrors pulls errors puller)
    (enough : state.ahead.length ≤ units) (enoughToo : state.ahead.length ≤ others) :
    (Parser.synchronize units state).Mirrors pulls errors (Parser.synchronize others puller) := by
  induction units generalizing others state puller with
  | zero =>
      have ended : state.ahead.isEmpty = true := by simpa using enough
      rw [Parser.synchronize_ended ended, Parser.synchronize_ended (mirrors.at_end.trans ended)]
      exact mirrors
  | succ units ih =>
      cases ended : state.ahead.isEmpty with
      | true =>
          rw [Parser.synchronize_ended ended, Parser.synchronize_ended (mirrors.at_end.trans ended)]
          exact mirrors
      | false =>
          have after := mirrors.advance
          obtain ⟨token, rest, ahead⟩ := List.exists_cons_of_ne_nil (by simpa using ended)
          have shorter : state.skip.ahead.length + 1 = state.ahead.length := by
            simp [ParseState.skip, ahead]
          obtain ⟨others, rfl⟩ : ∃ fewer, others = fewer + 1 := ⟨others - 1, by omega⟩
          rw [Parser.synchronize_inside units ended,
            Parser.synchronize_inside others (mirrors.at_end.trans ended)]
          simp only [Puller.supply_current, Puller.supply_advance, ParseState.supply_current,
            ParseState.supply_advance, mirrors.current, after.current]
          split
          · exact after
          split
          · exact after
          · exact ih after (by omega) (by omega)

end ParseState.Mirrors

/-- The rules end in the same way, in states that mirror each other. Of a rule that used up its
budget nothing is asked. -/
def Parsed.Mirrors {α : Type} (pulls : List Pull) (errors : List LexError) :
    Parsed ParseState α → Parsed Puller α → Prop
  | .done value state, .done found puller => value = found ∧ state.Mirrors pulls errors puller
  | .failed error state, .failed found puller => error = found ∧ state.Mirrors pulls errors puller
  | .exhausted, _ => True
  | _, _ => False

namespace Parsed.Mirrors

variable {α : Type} {result : Parsed Puller α}

theorem of_done {value : α} (mirrors : (Parsed.done value state).Mirrors pulls errors result) :
    ∃ behind, result = .done value behind ∧ state.Mirrors pulls errors behind := by
  cases result with
  | done found behind =>
      obtain ⟨rfl, mirrored⟩ := mirrors
      exact ⟨behind, rfl, mirrored⟩
  | failed found behind => exact mirrors.elim
  | exhausted => exact mirrors.elim

theorem of_failed {error : SyntaxError}
    (mirrors : (Parsed.failed error state).Mirrors pulls errors result) :
    ∃ behind, result = .failed error behind ∧ state.Mirrors pulls errors behind := by
  cases result with
  | done found behind => exact mirrors.elim
  | failed found behind =>
      obtain ⟨rfl, mirrored⟩ := mirrors
      exact ⟨behind, rfl, mirrored⟩
  | exhausted => exact mirrors.elim

end Parsed.Mirrors

/-- The second rule does on a scanner what the first one does on its list. -/
def Rule.Mirrors {α : Type} (pulls : List Pull) (errors : List LexError) (rule : Rule ParseState α)
    (other : Rule Puller α) : Prop :=
  ∀ state puller, state.Mirrors pulls errors puller →
    (rule state).Mirrors pulls errors (other puller)

namespace Rule

variable {α β : Type}

theorem Mirrors.done {rule : Rule ParseState α} {other : Rule Puller α} {value : α}
    {after : ParseState} (same : rule.Mirrors pulls errors other)
    (mirrors : state.Mirrors pulls errors puller) (ran : rule state = .done value after) :
    ∃ behind, other puller = .done value behind ∧ after.Mirrors pulls errors behind := by
  have ended := same state puller mirrors
  rw [ran] at ended
  exact ended.of_done

theorem bind_mirrors {rule : Rule ParseState α} {other : Rule Puller α}
    {next : α → Rule ParseState β} {following : α → Rule Puller β}
    (first : rule.Mirrors pulls errors other)
    (second : ∀ value, (next value).Mirrors pulls errors (following value)) :
    (rule >>= next).Mirrors pulls errors (other >>= following) := by
  intro state puller mirrors
  have ended := first state puller mirrors
  rw [bind_eq, bind_eq]
  cases ran : rule state with
  | exhausted => trivial
  | done value after =>
      rw [ran] at ended
      obtain ⟨behind, ranToo, mirrored⟩ := ended.of_done
      rw [ranToo]
      exact second value after behind mirrored
  | failed error after =>
      rw [ran] at ended
      obtain ⟨behind, ranToo, mirrored⟩ := ended.of_failed
      rw [ranToo]
      exact ⟨rfl, mirrored⟩

theorem pure_mirrors (value : α) :
    (pure value : Rule ParseState α).Mirrors pulls errors (pure value) :=
  fun _ _ mirrors => ⟨rfl, mirrors⟩

theorem take_mirrors : (Rule.take : Rule ParseState Token).Mirrors pulls errors Rule.take :=
  fun _ _ mirrors => ⟨mirrors.current.symm, mirrors.advance⟩

theorem accept_mirrors (kinds : List Kind) :
    (Rule.accept kinds : Rule ParseState _).Mirrors pulls errors (Rule.accept kinds) := by
  intro state puller mirrors
  unfold Rule.accept
  rw [Puller.supply_current, ParseState.supply_current, mirrors.current]
  by_cases found : kinds.contains state.current.kind = true
  · rw [if_pos found, if_pos found]
    exact ⟨rfl, mirrors.advance⟩
  · rw [if_neg found, if_neg found]
    exact ⟨rfl, mirrors⟩

theorem expect_mirrors (slot : Slot) :
    (Rule.expect slot : Rule ParseState _).Mirrors pulls errors (Rule.expect slot) := by
  intro state puller mirrors
  unfold Rule.expect
  rw [Puller.supply_current, ParseState.supply_current, mirrors.current]
  by_cases found : state.current.kind = slot.kind
  · rw [if_pos found, if_pos found]
    exact ⟨rfl, mirrors.advance⟩
  · rw [if_neg found, if_neg found]
    exact ⟨rfl, mirrors⟩

theorem record_mirrors (cause : SyntaxCause) (found : Token) :
    (Rule.record cause found : Rule ParseState _).Mirrors pulls errors (Rule.record cause found) :=
  fun _ _ mirrors => ⟨rfl, mirrors.record _⟩

theorem assigned_mirrors (left : Expr) {value : Rule ParseState Expr} {other : Rule Puller Expr}
    (inner : value.Mirrors pulls errors other) :
    (Parser.assigned left value).Mirrors pulls errors (Parser.assigned left other) := by
  refine bind_mirrors (accept_mirrors _) fun equals => ?_
  cases equals with
  | none => exact pure_mirrors left
  | some equals =>
      refine bind_mirrors inner fun value => ?_
      cases left with
      | reference name => exact pure_mirrors _
      | _ => exact bind_mirrors (record_mirrors _ _) fun _ => pure_mirrors _

theorem recover_mirrors {rule : Rule ParseState Stmt} {other : Rule Puller Stmt}
    (inner : rule.Mirrors pulls errors other) :
    (Parser.recover rule).Mirrors pulls errors (Parser.recover other) := by
  intro state puller mirrors
  have ended := inner state puller mirrors
  unfold Parser.recover
  cases ran : rule state with
  | exhausted => trivial
  | done tree after =>
      rw [ran] at ended
      obtain ⟨behind, ranToo, mirrored⟩ := ended.of_done
      rw [ranToo]
      exact ⟨rfl, mirrored⟩
  | failed error after =>
      rw [ran] at ended
      obtain ⟨behind, ranToo, mirrored⟩ := ended.of_failed
      rw [ranToo]
      have recorded := mirrored.record error
      exact ⟨rfl, recorded.synchronize (Nat.le_refl _) recorded.room⟩

theorem mirrors_congruence :
    Congruence fun α rule other => Rule.Mirrors (α := α) pulls errors rule other where
  succeed := pure_mirrors
  andThen := bind_mirrors
  fail cause := fun _ _ mirrors => ⟨congrArg (SyntaxError.mk cause) mirrors.current.symm, mirrors⟩
  current := fun _ _ mirrors => ⟨mirrors.current.symm, mirrors⟩
  isAt kind := fun _ _ mirrors =>
    ⟨congrArg (fun token => decide (Token.kind token = kind)) mirrors.current.symm, mirrors⟩
  atEnd := fun _ _ mirrors => ⟨mirrors.at_end.symm, mirrors⟩
  take := take_mirrors
  accept := accept_mirrors
  expect := expect_mirrors
  assigned := assigned_mirrors
  recover := recover_mirrors

end Rule

end Steps

namespace Parser

variable {pulls : List Pull} {errors : List LexError}

/-- With no less budget, the rules of expressions do on a scanner what they do on a list. -/
theorem expressions_mirror {units others : Nat} (enough : units ≤ others) :
    ExpressionsRelated (fun _ => Rule.Mirrors pulls errors) units others := by
  induction units generalizing others with
  | zero =>
      constructor
      all_goals intros
      all_goals exact fun _ _ _ => trivial
  | succ units ih =>
      obtain ⟨others, rfl⟩ : ∃ fewer, others = fewer + 1 := ⟨others - 1, by omega⟩
      exact Rule.mirrors_congruence.expressions_succ (ih (Nat.le_of_succ_le_succ enough))

theorem expression_mirrors :
    (expression : Rule ParseState Expr).Mirrors pulls errors expression :=
  fun state puller mirrors =>
    (expressions_mirror (Nat.mul_le_mul_left 12 (Nat.succ_le_succ mirrors.room))).assignment
      state puller mirrors

theorem parameters_mirror {units others : Nat} (enough : units ≤ others) :
    (parameters units : Rule ParseState _).Mirrors pulls errors (parameters others) := by
  induction units generalizing others with
  | zero => exact fun _ _ _ => trivial
  | succ units ih =>
      obtain ⟨others, rfl⟩ : ∃ fewer, others = fewer + 1 := ⟨others - 1, by omega⟩
      exact Rule.mirrors_congruence.parameters_succ (ih (Nat.le_of_succ_le_succ enough))

theorem parameter_list_mirrors :
    (parameterList : Rule ParseState _).Mirrors pulls errors parameterList :=
  fun state puller mirrors =>
    parameters_mirror (Nat.mul_le_mul_left 12 (Nat.succ_le_succ mirrors.room)) state puller mirrors

theorem statements_mirror {units others : Nat} (enough : units ≤ others) :
    StatementsRelated (fun _ => Rule.Mirrors pulls errors) units others := by
  induction units generalizing others with
  | zero =>
      constructor
      all_goals intros
      all_goals exact fun _ _ _ => trivial
  | succ units ih =>
      obtain ⟨others, rfl⟩ : ∃ fewer, others = fewer + 1 := ⟨others - 1, by omega⟩
      exact Rule.mirrors_congruence.statements_succ expression_mirrors parameter_list_mirrors
        (ih (Nat.le_of_succ_le_succ enough))

theorem program_mirrors : (program : Rule ParseState Program).Mirrors pulls errors program :=
  fun state puller mirrors =>
    (statements_mirror (Nat.mul_le_mul_left 12 (Nat.succ_le_succ mirrors.room))).declarations
      false state puller mirrors

end Parser

theorem mirrors_start (pulls : List Pull) :
    (Parser.start (Scanned.ofPulls pulls)).Mirrors pulls (Scanned.ofPulls pulls).errors
      (Puller.start (.ofPulls pulls)) := by
  obtain ⟨shows, recorded, room⟩ := @Puller.shows_pull_up_to pulls (Scanned.ofPulls pulls).errors
    (pulls.length + 1) (Scanned.ofPulls pulls)
    ⟨⟨.endOfInput, "", none, 1, ⟨0, 0⟩⟩, Scanner.start (.ofPulls pulls), [], [], pulls.length + 1⟩
    (Scanner.gives_start pulls) rfl (Nat.le_refl _)
  have same : Puller.pullUpTo (pulls.length + 1)
      ⟨⟨.endOfInput, "", none, 1, ⟨0, 0⟩⟩, Scanner.start (.ofPulls pulls), [], [],
        pulls.length + 1⟩ = Puller.start (.ofPulls pulls) := by
    rw [Puller.start, Puller.pull, Feed.of_pulls_length]
  rw [same] at shows recorded room
  have tokens : (Scanned.ofPulls pulls).tokens =
      (Scanned.ofText (leadingText pulls)).tokens.map Token.narrowed := tokens_narrowed _
  refine ⟨shows, rfl, ?_, recorded, ?_⟩
  · show ∀ token ∈ (Scanned.ofPulls pulls).tokens, _
    rw [tokens]
    have tiled := text_tiles (String.ofList (leadingText pulls))
    rw [String.toList_ofList] at tiled
    exact List.forall_mem_map.mpr tiled.single
  · show (Scanned.ofPulls pulls).tokens.length ≤ _
    rw [tokens, List.length_map]
    have short := Nat.le_trans (tokens_length (leadingText pulls)) (leading_text_length pulls)
    exact Nat.le_trans (Nat.le_succ_of_le short) (Nat.le_of_eq room.symm)

/-- An expression that takes up a whole text is pulled out of it, and no error is met. -/
theorem expression_pulled {text : List Char} {node : Expr} {closing : Token}
    (clean : (Scanned.ofPulls (text.map .char)).errors = [])
    (listed : Parser.expression (Parser.start (Scanned.ofPulls (text.map .char))) =
      .done node ⟨[], closing, []⟩) :
    ∃ puller : Puller, Parser.expression (Puller.start (.ofText text)) = .done node puller ∧
      puller.isAtEnd = true ∧ puller.lexical = [] ∧ puller.recorded = [] := by
  obtain ⟨puller, pulled, mirrors⟩ := Parser.expression_mirrors.done (mirrors_start _) listed
  rw [Feed.of_text]
  refine ⟨puller, pulled, mirrors.at_end, ?_, mirrors.recorded⟩
  have shows := mirrors.shows
  cases shows with
  | ended current noted reads drained => exact noted.trans clean

/-- A whole run of the parser that pulls: it ends as the parser of the listed tokens does, with the
same statements and syntax errors and with no token left. All lexical errors have been noted by
then, and the file has been read to its end or to its first fault. -/
structure Puller.Ran (pulls : List Pull) (program : Program) (after : ParseState)
    (puller : Puller) : Prop where
  listed : Parser.program (Parser.start (Scanned.ofPulls pulls)) = .done program after
  pulled : Parser.program (Puller.start (.ofPulls pulls)) = .done program puller
  mirrors : after.Mirrors pulls (Scanned.ofPulls pulls).errors puller
  ended : after.ahead = []
  current : puller.current = (Scanned.ofPulls pulls).closing
  lexical : puller.lexical = (Scanned.ofPulls pulls).errors
  reads : puller.scanner.feed.Reads pulls
  drained : puller.scanner.feed.Drained

theorem puller_ran (pulls : List Pull) :
    ∃ program after puller, Puller.Ran pulls program after puller := by
  obtain ⟨program, after, done⟩ := @Parser.program_done (Parser.start (Scanned.ofPulls pulls)) rfl
  have ended : after.ahead = [] := Parser.declarations_ahead done
  have closing := ((Parser.statements_advance _).declarations false).leads done
  obtain ⟨puller, ran, mirrors⟩ := Parser.program_mirrors.done (mirrors_start pulls) done
  have shows := mirrors.shows
  rw [ended] at shows
  cases shows with
  | ended current noted reads drained =>
      refine ⟨program, after, puller, done, ran, mirrors, ended, ?_, noted, reads, drained⟩
      exact current.trans closing.closing

def Scanned.parsed (scanned : Scanned) : Except (List ParseError) Program :=
  match Parser.program (Parser.start scanned) with
  | .done program after =>
      match ParseError.merge scanned.errors after.recorded with
      | [] => .ok program
      | errors => .error errors
  | .failed _ _ => .error []
  | .exhausted => .error []

theorem parsed_of_pulls (pulls : List Pull) :
    (parseFeed (.ofPulls pulls)).1 = (Scanned.ofPulls pulls).parsed := by
  obtain ⟨program, after, puller, ran⟩ := puller_ran pulls
  have merged : ParseError.merge puller.lexical puller.recorded =
      ParseError.merge (Scanned.ofPulls pulls).errors after.recorded := by
    rw [ran.lexical, ran.mirrors.recorded]
  unfold parseFeed Scanned.parsed Puller.conclude
  rw [ran.pulled, ran.listed]
  cases shown : ParseError.merge (Scanned.ofPulls pulls).errors after.recorded with
  | nil => simp only [merged, shown]
  | cons first rest => simp only [merged, shown]

/-- Parsing reads a file to its end or to a fault, whatever it makes of the tokens. -/
theorem feed_of_pulls (pulls : List Pull) :
    (parseFeed (.ofPulls pulls)).2.Reads pulls ∧ (parseFeed (.ofPulls pulls)).2.Drained := by
  obtain ⟨program, after, puller, ran⟩ := puller_ran pulls
  unfold parseFeed
  rw [ran.pulled]
  exact ⟨ran.reads, ran.drained⟩

theorem parse_eq_parsed (source : String) : parse source = (Scanned.ofSource source).parsed := by
  rw [parse, Feed.of_text, parsed_of_pulls, of_pulls_of_chars]

end Treewalk
