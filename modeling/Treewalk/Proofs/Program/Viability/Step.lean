import Treewalk.Proofs.Program.Soundness.Expression
import Treewalk.Proofs.Token.Lexed

/-!
# Tokens that begin a phrase

Where a run meets an error, the tokens in front of it begin a phrase: some of the tokens that
follow, and then a few names, parentheses, braces and semicolons, finish it. The one exception is an
equals sign behind an operation that is no name, which the parser takes before it complains.

A rule is described by what has been read when it starts and by what has been read when it ends,
both from the start of the phrase on. So rules in a row are put together like this: what the first
leaves is what the second starts from.
-/

namespace Treewalk

set_option autoImplicit false

open Grammar

def Kind.filler (kind : Kind) : Token :=
  Token.unplaced kind kind.spelling.toList none

def fillerKinds : List Kind :=
  [.identifier, .semicolon, .leftParen, .rightParen, .leftBrace, .rightBrace, .varWord, .funWord]

def fillers : List Token :=
  fillerKinds.map Kind.filler

theorem Kind.filler_mem {kind : Kind} (listed : kind ∈ fillerKinds) : kind.filler ∈ fillers :=
  List.mem_map_of_mem listed

theorem Slot.kind_mem (slot : Slot) : slot.kind ∈ fillerKinds := by
  cases slot <;> decide

def Misassigns (tokens : List Token) : Prop :=
  ∃ front target equals behind left, tokens = front ++ (target ++ equals :: behind) ∧
    equals.kind = .equal ∧ Derives (.operation .disjunction left) target ∧
    ∀ name, left ≠ .reference name

theorem Misassigns.sign {tokens : List Token} (misassigns : Misassigns tokens) :
    ∃ equals ∈ tokens, equals.kind = .equal := by
  obtain ⟨before, target, equals, behind, left, rfl, sign, -⟩ := misassigns
  exact ⟨equals, by simp, sign⟩

theorem Misassigns.behind {tokens : List Token} (misassigns : Misassigns tokens)
    (front : List Token) : Misassigns (front ++ tokens) := by
  obtain ⟨before, target, equals, behind, left, rfl, found⟩ := misassigns
  exact ⟨front ++ before, target, equals, behind, left, by rw [List.append_assoc], found⟩

def Parsed.errors {α : Type} : Parsed ParseState α → List SyntaxError
  | .done _ after => after.recorded
  | .failed error after => after.recorded ++ [error]
  | .exhausted => []

section Phrases

variable {α : Type} (covers : α → List Token → Prop)

def Fillable (tokens : List Token) : Prop :=
  ∃ value more, more ⊆ fillers ∧ covers value (tokens ++ more)

def Continues (tokens rest : List Token) : Prop :=
  ∃ known, known <+: rest ∧ Fillable covers (tokens ++ known)

variable {covers} {tokens : List Token}

theorem fillable_of_fillers (value : α) {kinds : List Kind} (listed : kinds ⊆ fillerKinds)
    (covered : covers value (tokens ++ kinds.map Kind.filler)) : Fillable covers tokens :=
  ⟨value, kinds.map Kind.filler, List.map_subset _ listed, covered⟩

theorem fillable_of_whole (value : α) (covered : covers value tokens) : Fillable covers tokens :=
  ⟨value, [], List.nil_subset _, by rw [List.append_nil]; exact covered⟩

end Phrases

namespace Rule

open ParseState

variable {α β : Type}

/-- Where a run from the state has errors, the tokens in front of all of them begin a phrase,
together with the tokens `front` that have been read before. -/
def BeginsAt (rule : Rule ParseState α) (covers : α → List Token → Prop) (front : List Token)
    (state : ParseState) : Prop :=
  ∀ seen rest, state.ahead = seen ++ rest → (rule state).errors ≠ [] →
    (∀ error ∈ (rule state).errors, error.found ∉ seen) →
    Continues covers (front ++ seen) rest ∨ Misassigns (front ++ seen)

/-- The rule goes on from tokens with the one property to tokens with the other. -/
structure Begins (rule : Rule ParseState α) (before : List Token → Prop)
    (covers : α → List Token → Prop) :
    Prop where
  advances : rule.Advances
  fillable : ∀ front, before front → Fillable covers front
  run : ∀ front state, before front → state.Closed → state.recorded = [] →
    rule.BeginsAt covers front state

def BeginsFrom (kind : Kind) (rule : Rule ParseState α) (before : List Token → Prop)
    (covers : α → List Token → Prop) : Prop :=
  ∀ front state, before front → state.Closed → state.recorded = [] → state.current.kind = kind →
    rule.BeginsAt covers front state

theorem Advances.errors {rule : Rule ParseState α} (advances : rule.Advances) {state : ParseState}
    (ended : (rule state).errors ≠ []) : state.recorded ⊆ (rule state).errors := by
  have moved := advances state
  cases ran : rule state with
  | done value after =>
      rw [ran] at moved
      have leads : state.Leads after := moved
      exact leads.recorded.subset
  | failed error after =>
      rw [ran] at moved
      have leads : state.Leads after := moved
      exact fun found earlier => List.mem_append_left _ (leads.recorded.subset earlier)
  | exhausted =>
      rw [ran] at ended
      exact absurd rfl ended

variable {front : List Token} {state : ParseState} {covers : β → List Token → Prop}

/-- What can be finished as the first of two phrases can be finished as both. -/
theorem continues_bind {first : α → List Token → Prop} {tokens rest : List Token}
    (begun : Continues first tokens rest)
    (fillable : ∀ value used, first value used → Fillable covers (front ++ used)) :
    Continues covers (front ++ tokens) rest := by
  obtain ⟨known, inside, value, more, filled, covered⟩ := begun
  obtain ⟨result, others, filledToo, whole⟩ := fillable value _ covered
  refine ⟨known, inside, result, more ++ others, ?_, by simpa using whole⟩
  exact List.append_subset.mpr ⟨filled, filledToo⟩

/-- Two rules in a row, where what is known about the second may depend on how the first ended. -/
theorem bind_begins_at {rule : Rule ParseState α} {next : α → Rule ParseState β}
    {first : α → List Token → Prop}
    (sound : ∀ value after, rule state = .done value after → after.recorded = [] →
      ∃ used, state.ahead = used ++ after.ahead ∧ first value used)
    (head : rule.BeginsAt first [] state) (advances : ∀ value, (next value).Advances)
    (fillable : ∀ value used, first value used → Fillable covers (front ++ used))
    (later : ∀ value after used, rule state = .done value after → after.recorded = [] →
      state.ahead = used ++ after.ahead → first value used →
      (next value).BeginsAt covers (front ++ used) after) :
    (rule >>= next).BeginsAt covers front state := by
  intro seen rest ahead unclean none
  rw [bind_eq] at unclean none
  have ofHead : (rule state).errors ≠ [] → (∀ error ∈ (rule state).errors, error.found ∉ seen) →
      Continues covers (front ++ seen) rest ∨ Misassigns (front ++ seen) := by
    intro uncleanHead noneHead
    rcases head seen rest ahead uncleanHead noneHead with begun | misassigns
    · exact .inl (continues_bind begun fillable)
    · exact .inr (misassigns.behind front)
  cases ran : rule state with
  | exhausted =>
      rw [ran] at unclean
      exact absurd rfl unclean
  | failed error after =>
      rw [ran] at ofHead unclean none
      exact ofHead unclean none
  | done value after =>
      rw [ran] at ofHead unclean none
      by_cases clean : after.recorded = []
      · obtain ⟨used, split, read⟩ := sound value after ran clean
        rcases List.append_eq_append_iff.mp (split.symm.trans ahead) with
          ⟨left, rfl, behind⟩ | ⟨known, rfl, behind⟩
        · -- The first rule ended inside of what has been seen.
          have begun := later value after used ran clean split read left rest behind unclean
            fun error found among => none error found (List.mem_append_right _ among)
          simpa using begun
        · refine .inl ⟨known, ⟨after.ahead, behind.symm⟩, ?_⟩
          simpa using fillable value (seen ++ known) read
      · exact ofHead clean fun error found =>
          none error ((advances value).errors unclean found)

theorem phrase_begins {rule : Rule ParseState α} {next : α → Rule ParseState β}
    {before : List Token → Prop}
    {first : α → List Token → Prop} (sound : rule.Yields first) (head : rule.Begins (· = []) first)
    (later : ∀ value, (next value).Begins
      (fun tokens => ∃ front used, before front ∧ first value used ∧
        tokens = front ++ used) covers) :
    (rule >>= next).Begins before covers where
  advances := bind_advances head.advances fun value => (later value).advances
  fillable front begun := by
    obtain ⟨value, more, filled, covered⟩ := head.fillable [] rfl
    obtain ⟨result, others, filledToo, whole⟩ :=
      (later value).fillable (front ++ more) ⟨front, more, begun, covered, rfl⟩
    refine ⟨result, more ++ others, List.append_subset.mpr ⟨filled, filledToo⟩, ?_⟩
    simpa using whole
  run front state begun closed clean := by
    apply bind_begins_at (fun value after => sound state value after closed)
      (head.run [] state rfl closed clean) fun value => (later value).advances
    · intro value used read
      exact (later value).fillable (front ++ used) ⟨front, used, begun, read, rfl⟩
    · intro value after used ran cleanAfter _ read
      have closedAfter := (head.advances.leads ran).closed closed
      exact (later value).run (front ++ used) after ⟨front, used, begun, read, rfl⟩ closedAfter
        cleanAfter

section Steps

variable {before : List Token → Prop}

theorem Begins.of_before {rule : Rule ParseState β} {other : List Token → Prop}
    (begins : rule.Begins before covers) (implied : ∀ tokens, other tokens → before tokens) :
    rule.Begins other covers where
  advances := begins.advances
  fillable front begun := begins.fillable front (implied front begun)
  run front state begun := begins.run front state (implied front begun)

theorem BeginsAt.of_run {rule other : Rule ParseState β}
    (begins : other.BeginsAt covers front state)
    (same : rule state = other state) : rule.BeginsAt covers front state := by
  unfold BeginsAt
  rw [same]
  exact begins

theorem BeginsAt.of_covers {rule : Rule ParseState β} {other : β → List Token → Prop}
    (begins : rule.BeginsAt covers front state)
    (implied : ∀ value tokens, covers value tokens → other value tokens) :
    rule.BeginsAt other front state := by
  intro seen rest ahead unclean none
  rcases begins seen rest ahead unclean none with begun | misassigns
  · obtain ⟨known, inside, value, more, filled, covered⟩ := begun
    exact .inl ⟨known, inside, value, more, filled, implied value _ covered⟩
  · exact .inr misassigns

theorem Begins.of_covers {rule : Rule ParseState β} {other : β → List Token → Prop}
    (begins : rule.Begins before covers)
    (implied : ∀ value tokens, covers value tokens → other value tokens) :
    rule.Begins before other where
  advances := begins.advances
  fillable front begun := by
    obtain ⟨value, more, filled, covered⟩ := begins.fillable front begun
    exact ⟨value, more, filled, implied value _ covered⟩
  run front state begun closed clean :=
    (begins.run front state begun closed clean).of_covers implied

theorem pure_begins_at {value : β} (clean : state.recorded = []) :
    (pure value : Rule ParseState β).BeginsAt covers front state :=
  fun _ _ _ unclean => absurd clean unclean

theorem pure_begins {value : β} (covered : ∀ tokens, before tokens → covers value tokens) :
    (pure value : Rule ParseState β).Begins before covers where
  advances := pure_advances value
  fillable front begun := fillable_of_whole value (covered front begun)
  run _ _ _ _ clean := pure_begins_at clean

theorem exhausted_begins (fillable : ∀ tokens, before tokens → Fillable covers tokens) :
    (Rule.exhausted : Rule ParseState β).Begins before covers where
  advances := exhausted_advances
  fillable := fillable
  run _ _ _ _ _ := fun _ _ _ unclean => absurd rfl unclean

/-- Where nothing has been seen yet, it is enough that the tokens in front can be finished. -/
theorem begins_at_of_seen {rule : Rule ParseState β} (fillable : Fillable covers front)
    (viable : ∀ seen rest, state.ahead = state.current :: seen ++ rest → (rule state).errors ≠ [] →
      (∀ error ∈ (rule state).errors, error.found ∉ state.current :: seen) →
      Continues covers (front ++ state.current :: seen) rest ∨
        Misassigns (front ++ state.current :: seen)) :
    rule.BeginsAt covers front state := by
  intro seen rest ahead unclean none
  cases seen with
  | nil => exact .inl ⟨[], List.nil_prefix, by simpa using fillable⟩
  | cons token seen =>
      have looked : state.current = token := by simp [ParseState.current, ahead]
      rw [← looked] at ahead none ⊢
      exact viable seen rest ahead unclean none

theorem failed_begins_at {rule : Rule ParseState β} {cause : SyntaxCause}
    (fillable : Fillable covers front)
    (failed : rule state = .failed ⟨cause, state.current⟩ state) :
    rule.BeginsAt covers front state := by
  apply begins_at_of_seen fillable
  intro seen rest ahead _ none
  rw [failed] at none
  exact absurd List.mem_cons_self (none ⟨cause, state.current⟩ (by simp [Parsed.errors]))

theorem taken_begins_at {rule rest : Rule ParseState β} (ran : rule state = rest state.skip)
    (fillable : Fillable covers front)
    (later : rest.BeginsAt covers (front ++ [state.current]) state.skip) :
    rule.BeginsAt covers front state := by
  apply begins_at_of_seen fillable
  intro seen others split unclean none
  rw [ran] at unclean none
  have behind : state.skip.ahead = seen ++ others := by
    rw [ParseState.skip, split]
    rfl
  have begun := later seen others behind unclean
    fun error found among => none error found (List.mem_cons_of_mem _ among)
  simpa using begun

theorem take_begins_from {kind : Kind} {next : Token → Rule ParseState β}
    (fillable : ∀ tokens, before tokens → Fillable covers tokens)
    (later : ∀ token, token.kind = kind →
      (next token).Begins (fun tokens => ∃ front, before front ∧
        tokens = front ++ [token]) covers) :
    BeginsFrom kind (Rule.take >>= next) before covers := by
  intro front state begun closed clean found
  apply taken_begins_at rfl (fillable front begun)
  exact (later state.current found).run _ state.skip ⟨front, begun, rfl⟩ closed.skip clean

theorem expect_begins {slot : Slot} {next : Token → Rule ParseState β}
    (later : ∀ token, token.kind = slot.kind →
      (next token).Begins (fun tokens => ∃ front, before front ∧
        tokens = front ++ [token]) covers) :
    (Rule.expect slot >>= next).Begins before covers := by
  have fillable : ∀ front, before front → Fillable covers front := by
    intro front begun
    obtain ⟨value, more, filled, covered⟩ :=
      (later slot.kind.filler rfl).fillable _ ⟨front, begun, rfl⟩
    refine ⟨value, slot.kind.filler :: more, ?_, by simpa using covered⟩
    exact List.cons_subset.mpr ⟨Kind.filler_mem slot.kind_mem, filled⟩
  have taken : ∀ state : ParseState, state.current.kind = slot.kind →
      (Rule.expect slot >>= next) state = next state.current state.skip := by
    intro state found
    rw [bind_eq, expect_done.mpr ⟨found, rfl, rfl⟩]
  have refused : ∀ state : ParseState, state.current.kind ≠ slot.kind →
      (Rule.expect slot >>= next) state = .failed ⟨.missing slot, state.current⟩ state := by
    intro state missing
    rw [bind_eq, expect_missing missing]
  refine ⟨?_, fillable, ?_⟩
  · intro state
    by_cases found : state.current.kind = slot.kind
    · rw [taken state found]
      exact Parsed.Follows.trans (leads_skip state) ((later _ found).advances state.skip)
    · rw [refused state found]
      exact leads_refl state
  · intro front state begun closed clean
    by_cases found : state.current.kind = slot.kind
    · apply taken_begins_at (taken state found) (fillable front begun)
      exact (later state.current found).run _ state.skip ⟨front, begun, rfl⟩ closed.skip clean
    · exact failed_begins_at (fillable front begun) (refused state found)

theorem accept_begins {kinds : List Kind} {next : Option Token → Rule ParseState β}
    (absent : (next none).Begins before covers)
    (present : ∀ token, token.kind ∈ kinds → (next (some token)).Begins
      (fun tokens => ∃ front, before front ∧ tokens = front ++ [token]) covers) :
    (Rule.accept kinds >>= next).Begins before covers := by
  have taken : ∀ state : ParseState, state.current.kind ∈ kinds →
      (Rule.accept kinds >>= next) state = next (some state.current) state.skip := by
    intro state found
    rw [bind_eq, accept_some.mpr ⟨found, rfl, rfl⟩]
  have left : ∀ state : ParseState, state.current.kind ∉ kinds →
      (Rule.accept kinds >>= next) state = next none state := by
    intro state missing
    rw [bind_eq, accept_none.mpr ⟨missing, rfl⟩]
  refine ⟨?_, absent.fillable, ?_⟩
  · intro state
    by_cases found : state.current.kind ∈ kinds
    · rw [taken state found]
      exact Parsed.Follows.trans (leads_skip state) ((present _ found).advances state.skip)
    · rw [left state found]
      exact absent.advances state
  · intro front state begun closed clean
    by_cases found : state.current.kind ∈ kinds
    · apply taken_begins_at (taken state found) (absent.fillable front begun)
      exact (present state.current found).run _ state.skip ⟨front, begun, rfl⟩ closed.skip clean
    · exact (absent.run front state begun closed clean).of_run (left state found)

theorem look_begins {look : ParseState → α} {next : α → Rule ParseState β}
    (later : ∀ value, (next value).Begins before covers) :
    ((fun state => .done (look state) state : Rule ParseState α) >>= next).Begins
      before covers where
  advances state := (later (look state)).advances state
  fillable := (later (look default)).fillable
  run front state begun closed clean :=
    ((later (look state)).run front state begun closed clean).of_run rfl

end Steps

end Rule

end Treewalk
