import Treewalk.Proofs.Program.Locality
import Treewalk.Proofs.Program.Merge
import Treewalk.Proofs.Program.Placement
import Treewalk.Proofs.Program.Viability.Statement
import Treewalk.Proofs.Token.Extended

/-!
# The first error is the earliest

The first error of a text that is not accepted stands at the first token that no accepted text has
in its place. The tokens in front of it are those of the beginning of an accepted text, unless the
parser has taken an equals sign behind something that is not a name: it complains about that only
when it has read what is assigned.
-/

namespace Treewalk

set_option autoImplicit false

open Grammar

/-- Tokens up to one at which they stop being the beginning of an accepted text. -/
structure Earliest (before : List Token) (found : Token) : Prop where
  /-- No accepted text begins with the tokens and this one, wherever they stand in it. -/
  refused : ∀ other others program, scan other = .ok others → parse other = .ok program →
    ¬(before ++ [found]).map Token.erase <+: others.map Token.erase
  /-- Some accepted text begins with the tokens if all that is assigned to are names. -/
  viable : ¬Misassigns before ↔ ∃ other others program, scan other = .ok others ∧
    parse other = .ok program ∧ before <+: others

section Fillers

def lines (tokens : List Token) : List Char :=
  tokens.flatMap fun token => token.lexeme.toList ++ ['\n']

theorem spelled_filler {kind : Kind} (listed : kind ∈ fillerKinds) {rest : List Char}
    (stops : Stops rest) :
    spelled (kind.spelling.toList ++ rest) = .ok kind.filler :: spelled rest := by
  by_cases word : kind = .identifier
  · subst word
    have starts : Chunk.startsWord 'i' = true := by decide
    have inside : ∀ char ∈ "dentifier".toList, Chunk.continuesWord char = true :=
      List.all_eq_true.mp (by decide +kernel)
    exact @spelled_word 'i' "dentifier".toList rest starts inside stops
  · apply spelled_fixed _ stops
    revert word
    revert kind
    decide

theorem spelled_lines {more : List Token} (filled : more ⊆ fillers) :
    spelled (lines more) = more.map .ok := by
  induction more with
  | nil => rfl
  | cons token more ih =>
      obtain ⟨isFiller, others⟩ := List.cons_subset.mp filled
      obtain ⟨kind, listed, rfl⟩ := List.mem_map.mp isFiller
      have text : lines (kind.filler :: more) = kind.spelling.toList ++ '\n' :: lines more := by
        simp [lines, Kind.filler, Token.unplaced]
      rw [text, spelled_filler listed (stops_cons (by decide)), spelled_blank (by decide),
        ih others]
      rfl

end Fillers

/-- Tokens that are the beginning of a program are that of a text which is accepted. -/
theorem accepted_of_continues {source : String} {before rest : List Token} {closing : Token}
    (lexed : scan source = .ok (before ++ rest ++ [closing]))
    (continues : Continues (fun trees => Forms (.declarations trees)) before rest) :
    ∃ other others program, scan other = .ok others ∧ parse other = .ok program ∧
      before <+: others := by
  obtain ⟨known, ⟨behind, rfl⟩, trees, more, filled, formed⟩ := continues
  rw [← List.append_assoc] at lexed
  obtain ⟨other, found, ending, scanned, ended, same⟩ :=
    scan_extended lexed (spelled_lines filled)
  have places : (before ++ known ++ found).map Token.erase =
      (before ++ known ++ more).map Token.erase := by
    have erased : more.map Token.erase = found.map Token.erase := by
      rw [← same, List.map_map]
      rfl
    rw [List.map_append, List.map_append, List.map_append, List.map_append, erased]
  obtain ⟨again, -, formedAgain⟩ := reforms_of_forms formed places
  refine ⟨other, _, again, scanned, parse_ok_iff.mpr ⟨_, scanned, .intro formedAgain ended⟩, ?_⟩
  rw [List.append_assoc, List.append_assoc]
  exact List.prefix_append _ _

theorem Grammar.Derives.reference_of_name {phrase : Phrase} {tokens : List Token} {tree : Expr}
    {name : Token} (derived : Derives phrase tokens) (single : tokens = [name])
    (word : name.kind = .identifier) (operand : phrase.operand? = some tree) :
    tree = .reference name := by
  induction derived with
  | assign | plain | lastArgument | argument => simp [Phrase.operand?] at operand
  | operand whole ih =>
      apply ih single
      rw [Tier.operand_tree]
      exact operand
  | operator first sign second =>
      have size := congrArg List.length single
      have nonempty := first.length_pos
      simp only [List.length_append, List.length_cons, List.length_nil] at size
      omega
  | negation sign negated =>
      have size := congrArg List.length single
      have nonempty := negated.length_pos
      simp only [List.length_cons, List.length_nil] at size
      omega
  | called whole ih => exact ih single operand
  | callee whole ih => exact ih single operand
  | emptyCall | fullCall | grouping =>
      have size := congrArg List.length single
      simp only [List.length_append, List.length_cons, List.length_nil] at size
      omega
  | constant denoted =>
      cases single
      cases denoted <;> simp_all
  | reference isName =>
      cases single
      exact (Option.some.inj operand).symm

theorem not_misassigns_of_accepted {other : String} {before others : List Token}
    {program : Program} (scanned : scan other = .ok others) (parsed : parse other = .ok program)
    (begins : before <+: others) : ¬Misassigns before := by
  rintro ⟨front, target, equals, behind, left, rfl, sign, derived, unnamed⟩
  obtain ⟨rest, rfl⟩ := begins
  obtain ⟨tokens, lexed, formed⟩ := parse_ok_iff.mp parsed
  rw [scanned] at lexed
  cases lexed
  have split : front ++ (target ++ equals :: behind) ++ rest =
      front ++ (target ++ equals :: (behind ++ rest)) := by simp
  obtain ⟨name, single, word⟩ := target_is_name formed split sign derived
  exact unnamed name (derived.reference_of_name single word rfl)

/-- The tokens of a text stand in the order of their starts, no two at the same one. -/
theorem token_starts {source : String} {tokens : List Token} (short : source.utf8ByteSize < 2 ^ 32)
    (lexed : scan source = .ok tokens) :
    tokens.Pairwise fun token later => token.span.start < later.span.start := by
  obtain ⟨clean, rfl⟩ := scan_ok_iff.mp lexed
  rw [of_source_of_short short] at clean ⊢
  have starts := listed_starts source
  have listed : (Scanned.ofText source.toList).listed =
      ((Scanned.ofText source.toList).tokens ++
        [(Scanned.ofText source.toList).closing]).map .token := by
    rw [Scanned.listed, items_of_clean clean, List.map_append]
    rfl
  rw [listed, List.pairwise_map] at starts
  exact starts

theorem kinds_of_scan {source : String} {tokens : List Token} {closing : Token}
    (lexed : scan source = .ok (tokens ++ [closing])) :
    (∀ token ∈ tokens, token.kind ≠ .endOfInput) ∧ closing.kind = .endOfInput := by
  have tiles := text_tiles source
  obtain ⟨-, whole⟩ := scan_ok_iff.mp lexed
  obtain ⟨rfl, last⟩ := List.append_inj' whole rfl
  cases last
  rw [tokens_of_source]
  exact ⟨List.forall_mem_map.mpr tiles.single, tiles.closing.1⟩

theorem split_at_last {α : Type} {ahead before behind : List α} {closing found : α}
    (split : ahead ++ [closing] = before ++ found :: behind) :
    (ahead = before ∧ closing = found) ∨
      ∃ mine, ahead = before ++ found :: mine ∧ behind = mine ++ [closing] := by
  rcases List.eq_nil_or_concat behind with rfl | ⟨mine, last, rfl⟩
  · obtain ⟨same, sameLast⟩ := List.append_inj' split rfl
    exact .inl ⟨same, List.singleton_inj.mp sameLast⟩
  · rw [List.concat_eq_append, ← List.cons_append, ← List.append_assoc] at split
    obtain ⟨same, sameLast⟩ := List.append_inj' split rfl
    exact .inr ⟨mine, same, by rw [List.concat_eq_append, List.singleton_inj.mp sameLast]⟩

theorem ahead_begins {α : Type} {ahead before behind : List α} {closing found : α}
    (split : ahead ++ [closing] = before ++ found :: behind) : ∃ rest, ahead = before ++ rest := by
  rcases split_at_last split with ⟨same, -⟩ | ⟨mine, same, -⟩
  · exact ⟨[], by rw [same, List.append_nil]⟩
  · exact ⟨found :: mine, same⟩

section Rejected

variable {source : String} {tokens : List Token} {errors : List ParseError}

/-- A text without lexical errors is rejected by a run over its tokens. -/
theorem rejected_run (lexed : scan source = .ok tokens) (rejected : parse source = .error errors) :
    ∃ ahead closing trees, ∃ after : ParseState, tokens = ahead ++ [closing] ∧
      closing.kind = .endOfInput ∧ Parser.program ⟨ahead, closing, []⟩ = .done trees after ∧
      after.recorded ≠ [] ∧ errors = sortOn ParseError.start (after.recorded.map .grammar) := by
  obtain ⟨clean, rfl⟩ := scan_ok_iff.mp lexed
  obtain ⟨trees, after, done, merged⟩ := errors_of_parse source
  refine ⟨_, _, trees, after, rfl, rfl, done, ?_, ?_⟩
  · intro none
    have accepted := parse_ok_iff_done.mpr ⟨clean, after, none, done⟩
    rw [rejected] at accepted
    cases accepted
  · rw [rejected, clean] at merged
    exact merged

/-- The first of the sorted errors is one of those recorded, and starts where none starts earlier.
-/
theorem first_of_recorded {recorded : List SyntaxError} (some : recorded ≠ []) :
    ∃ first later, sortOn ParseError.start (recorded.map .grammar) = .grammar first :: later ∧
      first ∈ recorded ∧ ∀ error ∈ recorded, first.found.span.start ≤ error.found.span.start := by
  have sorted := sort_on_sorted ParseError.start (recorded.map .grammar)
  have listed : ∀ error, error ∈ sortOn ParseError.start (recorded.map .grammar) ↔
      error ∈ recorded.map .grammar := fun error => (List.mergeSort_perm _ _).mem_iff
  cases whole : sortOn ParseError.start (recorded.map .grammar) with
  | nil => exact absurd (List.map_eq_nil_iff.mp (sort_on_eq_nil.mp whole)) some
  | cons head later =>
      rw [whole] at sorted listed
      obtain ⟨first, among, rfl⟩ := List.mem_map.mp ((listed head).mp List.mem_cons_self)
      refine ⟨first, later, rfl, among, ?_⟩
      intro error found
      rcases List.mem_cons.mp ((listed (.grammar error)).mpr (List.mem_map_of_mem found)) with
        same | behind
      · cases same
        exact Nat.le_refl _
      · exact (List.pairwise_cons.mp sorted).1 _ behind

theorem recorded_among {ahead : List Token} {closing : Token} {trees : Program}
    {after : ParseState} (done : Parser.program ⟨ahead, closing, []⟩ = .done trees after) :
    ∀ error ∈ after.recorded, error.found ∈ ahead ++ [closing] := by
  have among := ((Parser.statements_confined (budget ahead.length)).declarations false) ahead
    closing
    ⟨ahead, closing, []⟩ ⟨List.suffix_refl _, rfl, List.forall_mem_nil _⟩
  change (Parser.program (ParseState.mk ahead closing [])).Among ahead closing at among
  rw [done] at among
  exact among.recorded

theorem recorded_of_forms {ahead others : List Token} {closing : Token} {trees again : Program}
    {after : ParseState} (ended : closing.kind = .endOfInput)
    (done : Parser.program ⟨ahead, closing, []⟩ = .done trees after)
    (formed : Forms (.declarations again) others)
    (same : ahead.map Token.erase = others.map Token.erase) : after.recorded = [] := by
  obtain ⟨_, -, formedAhead⟩ := reforms_of_forms formed same
  rw [@Parser.program_complete ⟨ahead, closing, []⟩ _ ended formedAhead] at done
  cases done
  rfl

/-- A run over tokens that begin as a program does has its errors behind the common part. -/
theorem recorded_behind {seen mine front theirs : List Token} {closing : Token}
    {trees again : Program} {after : ParseState} (nonempty : seen ≠ [])
    (ended : closing.kind = .endOfInput)
    (done : Parser.program ⟨seen ++ mine, closing, []⟩ = .done trees after)
    (formed : Forms (.declarations again) (front ++ theirs))
    (same : seen.map Token.erase = front.map Token.erase) :
    ∀ error ∈ after.recorded, error.found ∈ mine ++ [closing] := by
  have places : (seen ++ theirs).map Token.erase = (front ++ theirs).map Token.erase := by
    rw [List.map_append, List.map_append, same]
  obtain ⟨_, -, formedSeen⟩ := reforms_of_forms formed places
  have clean := @Parser.program_complete ⟨seen ++ theirs, closing, []⟩ _ ended formedSeen
  have among := @Parser.program_local seen mine theirs closing _ _ _ nonempty rfl clean rfl rfl
  rw [done] at among
  exact among.recorded

/-- Behind the tokens in front of an error, no program goes on with the token of the error if this
token does not come again. -/
theorem refused_of_error {before behind ahead : List Token} {closing : Token} {trees : Program}
    {after : ParseState} {first : SyntaxError}
    (lexed : scan source = .ok (ahead ++ [closing]))
    (done : Parser.program ⟨ahead, closing, []⟩ = .done trees after)
    (recorded : first ∈ after.recorded)
    (split : ahead ++ [closing] = before ++ first.found :: behind)
    (once : first.found ∉ behind)
    {other : String} {others : List Token} {program : Program} (scanned : scan other = .ok others)
    (parsed : parse other = .ok program) :
    ¬(before ++ [first.found]).map Token.erase <+: others.map Token.erase := by
  intro begins
  obtain ⟨_, lexedOther, derived⟩ := parse_ok_iff.mp parsed
  rw [scanned] at lexedOther
  cases lexedOther
  obtain ⟨inside, ended⟩ := kinds_of_scan lexed
  cases derived with
  | @intro again theirs last formed _ =>
      obtain ⟨insideToo, endedToo⟩ := kinds_of_scan scanned
      have cut : (theirs ++ [last]).map Token.erase = theirs.map Token.erase ++ [last.erase] := by
        rw [List.map_append, List.map_singleton]
      rw [cut, List.prefix_concat_iff] at begins
      rw [List.map_append, List.map_singleton] at begins
      rcases split_at_last split with ⟨rfl, atEnd⟩ | ⟨mine, rfl, rfl⟩
      · rcases begins with same | ⟨rest, same⟩
        · -- Both texts end in front of the error, so this one is a program as well.
          obtain ⟨sameTokens, -⟩ := List.append_inj' same rfl
          rw [recorded_of_forms ended done formed sameTokens] at recorded
          cases recorded
        · have among : first.found.erase ∈ theirs.map Token.erase := by
            rw [← same]
            simp
          obtain ⟨token, listed, sameToken⟩ := List.mem_map.mp among
          rw [atEnd, ← Token.kind_of_erase sameToken] at ended
          exact insideToo token listed ended
      · rcases begins with same | ⟨rest, same⟩
        · obtain ⟨-, sameLast⟩ := List.append_inj' same rfl
          rw [← Token.kind_of_erase (List.singleton_inj.mp sameLast)] at endedToo
          exact inside first.found (by simp) endedToo
        · -- The other text goes on behind the token of the error, so this run does not stop there.
          obtain ⟨front, more, rfl, sameFront, -⟩ := List.map_eq_append_iff.mp same.symm
          have whole : before ++ first.found :: mine = before ++ [first.found] ++ mine := by simp
          rw [whole] at done
          exact once (recorded_behind (by simp) ended done formed
            (by rw [List.map_append, sameFront, List.map_singleton]) first recorded)

/-- No program begins with tokens among which is that of an error, if no two tokens are the same. -/
theorem refused_behind_error {before behind ahead : List Token} {closing : Token} {trees : Program}
    {after : ParseState} {first : SyntaxError}
    (lexed : scan source = .ok (ahead ++ [closing]))
    (done : Parser.program ⟨ahead, closing, []⟩ = .done trees after)
    (recorded : first ∈ after.recorded) (split : ahead ++ [closing] = before ++ behind)
    (distinct : (ahead ++ [closing]).Nodup) (inside : first.found ∈ before)
    {other : String} {others : List Token} {program : Program} (scanned : scan other = .ok others)
    (parsed : parse other = .ok program) : ¬before <+: others := by
  intro begins
  obtain ⟨front, rest, rfl⟩ := List.append_of_mem inside
  have whole : ahead ++ [closing] = front ++ first.found :: (rest ++ behind) := by
    rw [split, List.append_assoc, List.cons_append]
  rw [whole, List.nodup_append, List.nodup_cons] at distinct
  apply refused_of_error lexed done recorded whole distinct.2.1.1 scanned parsed
  apply List.IsPrefix.map
  have shorter : front ++ [first.found] <+: front ++ first.found :: rest :=
    List.prefix_append_right_inj front |>.mpr (List.prefix_append [first.found] rest)
  exact shorter.trans begins

end Rejected

/-- The first error of a rejected text without lexical errors is at the first token that cannot
stand there, and the tokens in front of it can, if places fit in 32 bits. -/
theorem first_error_is_earliest (source : String) (tokens : List Token) (errors : List ParseError)
    (short : source.utf8ByteSize < 2 ^ 32) (lexed : scan source = .ok tokens)
    (rejected : parse source = .error errors) :
    ∃ first later before behind, errors = .grammar first :: later ∧
      tokens = before ++ first.found :: behind ∧ Earliest before first.found := by
  obtain ⟨ahead, closing, trees, after, rfl, ended, done, unclean, rfl⟩ :=
    rejected_run lexed rejected
  obtain ⟨first, later, whole, recorded, earliest⟩ := first_of_recorded unclean
  obtain ⟨before, behind, split⟩ := List.append_of_mem (recorded_among done first recorded)
  refine ⟨first, later, before, behind, whole, split, ?_⟩
  -- The closing token is the last one, so what is ahead begins with the tokens in front of the
  -- error.
  obtain ⟨rest, rfl⟩ := ahead_begins split
  have apart := token_starts short lexed
  rw [split, List.pairwise_append] at apart
  have outside : ∀ error ∈ after.recorded, error.found ∉ before := by
    intro error found inside
    have less := apart.2.2 error.found inside first.found List.mem_cons_self
    exact absurd (earliest error found) (Nat.not_le_of_lt less)
  refine ⟨?_, ?_, ?_⟩
  · intro other others program scanned parsed
    have once : first.found ∉ behind := fun again =>
      Nat.lt_irrefl _ ((List.pairwise_cons.mp apart.2.1).1 first.found again)
    exact refused_of_error lexed done recorded split once scanned parsed
  · intro named
    have viable := @Parser.program_viable ⟨before ++ rest, closing, []⟩ before rest ended rfl rfl
      (by rw [done]; exact unclean) (by rw [done]; exact outside)
    exact accepted_of_continues lexed (viable.resolve_right named)
  · rintro ⟨other, others, program, scanned, parsed, begins⟩
    exact not_misassigns_of_accepted scanned parsed begins

theorem first_error_is_earliest_operand :
    ∃ tokens errors before found behind, "a = (1 + ) 2;".utf8ByteSize < 2 ^ 32 ∧
      scan "a = (1 + ) 2;" = .ok tokens ∧
      parse "a = (1 + ) 2;" = .error errors ∧ tokens = before ++ found :: behind ∧
      found.lexeme = ")" ∧ Earliest before found := by
  have short : "a = (1 + ) 2;".utf8ByteSize < 2 ^ 32 := by decide
  obtain ⟨tokens, lexed⟩ : ∃ tokens, scan "a = (1 + ) 2;" = .ok tokens :=
    exists_ok (by decide +kernel)
  have shown : ((errorsOf (parse "a = (1 + ) 2;")).filterMap ParseError.grammar?).head?.map
      (fun error => error.found.lexeme) = some ")" := by decide +kernel
  cases rejected : parse "a = (1 + ) 2;" with
  | ok program =>
      rw [rejected] at shown
      cases shown
  | error errors =>
      obtain ⟨first, later, before, behind, head, split, earliest⟩ :=
        first_error_is_earliest _ tokens errors short lexed rejected
      rw [rejected, head] at shown
      exact ⟨tokens, errors, before, first.found, behind, short, lexed, rfl, split,
        Option.some.inj shown,
        earliest⟩

def Parsed.blamed {α : Type} : Parsed ParseState α → List Nat
  | .done _ after => after.recorded.map fun error => error.found.span.start
  | _ => []

/-- Of two errors, one in front of the bound and one behind it, the second has the smaller start and
is listed first, though no accepted text begins with the tokens in front of it. -/
theorem far_first_error_is_late :
    ∃ tokens errors, scan (behindBlanks (2 ^ 32 - 10) ");             );") = .ok tokens ∧
      parse (behindBlanks (2 ^ 32 - 10) ");             );") = .error errors ∧
      ¬∃ first later before behind, errors = .grammar first :: later ∧
        tokens = before ++ first.found :: behind ∧ Earliest before first.found := by
  generalize written : behindBlanks (2 ^ 32 - 10) ");             );" = source
  have scanned := of_source_behind_blanks (2 ^ 32 - 10) ");             );"
  rw [written] at scanned
  have clean : (Scanned.ofSource source).errors = [] := by
    rw [scanned]
    decide +kernel
  have starts : ((Scanned.ofSource source).tokens ++ [(Scanned.ofSource source).closing]).map
      (fun token => token.span.start) = [4294967286, 4294967287, 5, 6, 7] := by
    rw [scanned]
    decide +kernel
  have kinds : ∀ token ∈ (Scanned.ofSource source).tokens, token.kind ≠ .equal := by
    rw [scanned]
    decide +kernel
  have blamed : (Parser.program (Parser.start (Scanned.ofSource source))).blamed =
      [4294967286, 5] := by
    rw [scanned]
    decide +kernel
  have lexed := scan_ok_iff.mpr ⟨clean, rfl⟩
  obtain ⟨program, after, done, errors⟩ := errors_of_parse source
  rw [done] at blamed
  obtain ⟨early, others, recorded, startsEarly, blamed⟩ := List.map_eq_cons_iff.mp blamed
  obtain ⟨late, none, rfl, startsLate, blamed⟩ := List.map_eq_cons_iff.mp blamed
  obtain rfl := List.map_eq_nil_iff.mp blamed
  obtain ⟨first, later, whole, among, least⟩ :=
    first_of_recorded (recorded ▸ List.cons_ne_nil _ _)
  rw [clean, ParseError.merge_eq_sort_on, List.map_nil, List.nil_append, whole] at errors
  refine ⟨_, _, lexed, error_of_errors errors, ?_⟩
  rintro ⟨_, _, before, behind, ⟨⟩, split, earliest⟩
  have isLate : first.found.span.start = 5 := by
    have below := least late (recorded ▸ by simp)
    rw [recorded] at among
    rcases List.mem_pair.mp among with rfl | rfl
    · omega
    · exact startsLate
  -- In front of the late error stands at least the token of the early one.
  have distinct : (((Scanned.ofSource source).tokens ++ [(Scanned.ofSource source).closing]).map
      fun token => token.span.start).Nodup := by
    rw [starts]
    decide
  have reported : early ∈ after.recorded := recorded ▸ List.mem_cons_self
  have listed := recorded_among done early reported
  rw [split] at starts distinct listed
  cases before with
  | nil =>
      have start : first.found.span.start = 4294967286 := (List.cons.inj starts).1
      omega
  | cons head front =>
      have same : early.found = head := List.inj_on_of_nodup_map distinct listed
        List.mem_cons_self (startsEarly.trans (List.cons.inj starts).1.symm)
      have named : ¬Misassigns (head :: front) := by
        intro misassigns
        obtain ⟨equals, found, sign⟩ := misassigns.sign
        obtain ⟨rest, tokens⟩ := ahead_begins split
        exact kinds equals (tokens ▸ List.mem_append_left rest found) sign
      obtain ⟨other, others, program, scannedToo, parsedToo, begins⟩ := earliest.viable.mp named
      rw [← split] at distinct
      exact refused_behind_error lexed done reported split distinct.of_map
        (same ▸ List.mem_cons_self) scannedToo parsedToo begins

end Treewalk
