import Treewalk.Proofs.Token.Lexed

/-!
# Where a chunk ends

A chunk ends because of the character behind it, or of the two behind it where a number stands in
front of a point. So it stays the first chunk of a text if what follows is replaced by another text
that stops it: a line break stops every chunk, a blank stops every chunk but a line comment, and a
text that begins like the old one stops whatever that one stopped. A string or a block comment that
is still open goes to the end of the text, and nothing may be put behind it.
-/

namespace Treewalk

set_option autoImplicit false

namespace Chunk

inductive StopsAlike : List Char → List Char → Prop where
  | ended : StopsAlike [] []
  | line (behind rest : List Char) : StopsAlike behind ('\n' :: rest)
  | blank {char : Char} (inside : char ≠ '\n') (behind rest : List Char) :
      StopsAlike (char :: behind) (' ' :: rest)
  | same {char : Char} {behind rest : List Char}
      (point : char = '.' → ∀ digit ∈ rest.head?, isDigit digit = true →
        ∃ found ∈ behind.head?, isDigit found = true) :
      StopsAlike (char :: behind) (char :: rest)

namespace StopsAlike

variable {behind other : List Char}

/-- A class without blanks that ends in front of the one text ends in front of the other. -/
theorem outside {class_ : Char → Bool} (alike : StopsAlike behind other)
    (blank : class_ ' ' = false) (line : class_ '\n' = false)
    (ended : ∀ char ∈ behind.head?, class_ char = false) :
    ∀ char ∈ other.head?, class_ char = false := by
  intro char found
  cases alike with
  | ended => cases found
  | line behind rest =>
      cases found
      exact line
  | blank inside behind rest =>
      cases found
      exact blank
  | same point =>
      cases found
      exact ended _ rfl

theorem end_of_line (alike : StopsAlike behind other)
    (ended : ∀ char ∈ behind.head?, (char != '\n') = false) :
    ∀ char ∈ other.head?, (char != '\n') = false := by
  intro char found
  cases alike with
  | ended => cases found
  | line behind rest =>
      cases found
      rfl
  | @blank first inside behind rest =>
      have isBreak := ended first rfl
      simp [inside] at isBreak
  | same point =>
      cases found
      exact ended _ rfl

theorem point {second : Char} {after : List Char}
    (alike : StopsAlike behind ('.' :: second :: after))
    (digit : isDigit second = true) :
    ∃ found more, behind = '.' :: found :: more ∧ isDigit found = true := by
  cases alike with
  | @same _ behind _ point =>
      obtain ⟨found, isHead, isNumber⟩ := point rfl second rfl digit
      cases behind with
      | nil => cases isHead
      | cons first behind =>
          cases isHead
          exact ⟨_, _, rfl, isNumber⟩

end StopsAlike

section Classes

variable {class_ : Char → Bool} {body behind other : List Char}

theorem inside_of_cut (cut : (body ++ behind).dropWhile class_ = behind) :
    (body ++ behind).takeWhile class_ = body ∧ ∀ char ∈ body, class_ char = true := by
  have whole := List.takeWhile_append_dropWhile (p := class_) (l := body ++ behind)
  rw [cut] at whole
  have taken := List.append_cancel_right whole
  refine ⟨taken, ?_⟩
  rw [← taken]
  exact List.all_eq_true.mp List.all_takeWhile

theorem outside_of_cut {text : List Char} (cut : text.dropWhile class_ = behind) :
    ∀ char ∈ behind.head?, class_ char = false := by
  intro char found
  have boundary := List.head?_dropWhile_not class_ text
  rw [cut, found] at boundary
  simpa using boundary

end Classes

theorem number_digits_spec (text : List Char) :
    (∀ char ∈ (numberDigits text).1, isDigit char = true) ∧
      (∀ char ∈ (numberDigits text).2.1, isDigit char = true) ∧
      (∀ char ∈ (numberDigits text).2.2.head?, isDigit char = false) ∧
      ((numberDigits text).2.1 = [] → ∀ second after,
        (numberDigits text).2.2 = '.' :: second :: after → isDigit second = false) := by
  have inside : ∀ text : List Char, ∀ char ∈ text.takeWhile isDigit, isDigit char = true :=
    fun _ => List.all_eq_true.mp List.all_takeWhile
  have outside := outside_of_cut (rfl : text.dropWhile isDigit = _)
  unfold numberDigits
  dsimp only
  split
  · rename_i digit after found
    split
    · rename_i isNumber
      refine ⟨inside text, ?_, outside_of_cut rfl, nofun⟩
      intro char listed
      rcases List.mem_cons.mp listed with rfl | listed
      · exact isNumber
      · exact inside after char listed
    · rename_i notNumber
      rw [found] at outside
      refine ⟨inside text, nofun, outside, ?_⟩
      intro _ second rest same
      cases same
      simpa using notNumber
  · rename_i other
    refine ⟨inside text, nofun, outside, ?_⟩
    intro _ second rest same
    exact absurd same (other second rest)

section Stable

variable {chunk : Chunk} {behind other : List Char} {first : Char} {body : List Char}

theorem word_stable (munched : word first (body ++ behind) = (chunk, behind))
    (alike : StopsAlike behind other) : word first (body ++ other) = (chunk, other) := by
  have cut : (body ++ behind).dropWhile continuesWord = behind := congrArg Prod.snd munched
  obtain ⟨taken, inside⟩ := inside_of_cut cut
  have outside := alike.outside (by decide) (by decide) (outside_of_cut cut)
  have isChunk : (word first (body ++ behind)).1 = chunk := congrArg Prod.fst munched
  rw [← isChunk]
  simp only [word, taken, take_while_exact inside outside, drop_while_exact inside outside]

theorem number_stable (munched : number first (body ++ behind) = (chunk, behind))
    (alike : StopsAlike behind other) : number first (body ++ other) = (chunk, other) := by
  have covers := number_digits_covers (body ++ behind)
  obtain ⟨insideWhole, insideFraction, outside, apart⟩ := number_digits_spec (body ++ behind)
  have cut : (numberDigits (body ++ behind)).2.2 = behind := congrArg Prod.snd munched
  have isChunk : (number first (body ++ behind)).1 = chunk := congrArg Prod.fst munched
  rw [← isChunk]
  simp only [number]
  generalize numberDigits (body ++ behind) = parts at *
  obtain ⟨whole, fraction, after⟩ := parts
  dsimp only at covers insideWhole insideFraction outside apart cut ⊢
  subst cut
  rw [← List.append_assoc] at covers
  rw [← List.append_cancel_right covers, List.append_assoc,
    number_digits_exact insideWhole insideFraction
      (alike.outside (by decide) (by decide) outside)]
  intro bare second rest same
  rw [same] at alike
  apply Bool.eq_false_iff.mpr
  intro digit
  obtain ⟨found, more, rfl, isNumber⟩ := alike.point digit
  rw [apart bare found more rfl] at isNumber
  cases isNumber

theorem string_stable (munched : string (body ++ behind) = (chunk, behind))
    (closed : behind = [] → other ≠ [] → ∀ cause, chunk.sort ≠ .fault cause) :
    string (body ++ other) = (chunk, other) := by
  have whole := List.takeWhile_append_dropWhile (p := (· != '"')) (l := body ++ behind)
  have inside : ∀ char ∈ (body ++ behind).takeWhile (· != '"'), (char != '"') = true :=
    List.all_eq_true.mp List.all_takeWhile
  have outside := outside_of_cut (rfl : (body ++ behind).dropWhile (· != '"') = _)
  unfold string at munched
  dsimp only at munched
  split at munched
  · rename_i quote after found
    cases munched
    rw [found] at whole outside
    have joined : (body ++ behind).takeWhile (· != '"') ++ [quote] ++ behind = body ++ behind := by
      rw [List.append_assoc]
      exact whole
    have split := List.append_cancel_right joined
    have outsideToo : ∀ char ∈ (quote :: other).head?, (char != '"') = false := by
      intro char isHead
      exact outside char isHead
    generalize (body ++ behind).takeWhile (· != '"') = quoted at split inside
    subst split
    rw [List.append_assoc, List.singleton_append]
    simp only [string, take_while_exact inside outsideToo, drop_while_exact inside outsideToo]
  · rename_i found
    cases munched
    by_cases empty : other = []
    · rw [empty]
      simp only [string, found]
    · exact absurd rfl (closed rfl empty _)

theorem sign_alone {text : List Char}
    (apart : ∀ kind after, signEqual? first = some kind → text ≠ '=' :: after) :
    sign first text = match sign? first with
      | some kind => (⟨.token kind none, [first]⟩, text)
      | none => (⟨.fault (.unexpectedCharacter first), [first]⟩, text) := by
  unfold sign
  split
  · rename_i found
    exact absurd rfl (apart _ _ found)
  · rfl

theorem sign_stable (munched : sign first (body ++ behind) = (chunk, behind))
    (alike : StopsAlike behind other) : sign first (body ++ other) = (chunk, other) := by
  by_cases continued : ∃ kind after, signEqual? first = some kind ∧ body ++ behind = '=' :: after
  · obtain ⟨kind, after, found, same⟩ := continued
    rw [same] at munched
    simp only [sign, found, Prod.mk.injEq] at munched
    obtain ⟨rfl, rfl⟩ := munched
    have equals : body = ['='] := List.append_cancel_right same
    rw [equals]
    simp only [sign, found, List.cons_append, List.nil_append]
  · have apart : ∀ kind after, signEqual? first = some kind → body ++ behind ≠ '=' :: after :=
      fun kind after found same => continued ⟨kind, after, found, same⟩
    rw [sign_alone apart] at munched
    have bare : body = [] := by
      have same : body ++ behind = behind := by
        cases single : sign? first with
        | some kind =>
            rw [single] at munched
            exact congrArg Prod.snd munched
        | none =>
            rw [single] at munched
            exact congrArg Prod.snd munched
      simpa using same
    subst bare
    rw [List.nil_append] at apart munched ⊢
    have apartToo : ∀ kind after, signEqual? first = some kind → other ≠ '=' :: after := by
      intro kind after found same
      have outside : ∀ char ∈ other.head?, (char == '=') = false := by
        apply alike.outside rfl rfl
        intro char isHead
        apply Bool.eq_false_iff.mpr
        intro equals
        cases behind with
        | nil => cases isHead
        | cons second behind =>
            cases isHead
            exact apart kind behind found (by rw [beq_iff_eq.mp equals])
      have isEquals := outside '=' (by rw [same]; rfl)
      cases isEquals
    rw [sign_alone apartToo]
    cases single : sign? first with
    | some kind =>
        rw [single] at munched
        cases munched
        rfl
    | none =>
        rw [single] at munched
        cases munched
        rfl

theorem block_comment_nonempty {text body after : List Char}
    (closed : blockComment text = some (body, after)) : body ≠ [] := by
  unfold blockComment at closed
  split at closed
  · cases closed
    exact List.cons_ne_nil _ _
  · rw [Option.map_eq_some_iff] at closed
    obtain ⟨_, _, pair⟩ := closed
    cases pair
    exact List.cons_ne_nil _ _
  · cases closed

theorem block_comment_stable {text after : List Char}
    (closed : blockComment text = some (body, after)) (other : List Char) :
    blockComment (body ++ other) = some (body, other) := by
  fun_induction blockComment text generalizing body with
  | case1 inside =>
      cases closed
      rfl
  | case2 char inside apart ih =>
      rw [Option.map_eq_some_iff] at closed
      obtain ⟨⟨inner, behind⟩, closed, pair⟩ := closed
      cases pair
      have again := ih closed
      have covers := block_comment_covers closed
      cases inner with
      | nil => exact absurd rfl (block_comment_nonempty closed)
      | cons second inner =>
          rw [List.cons_append, List.cons_append]
          unfold blockComment
          split
          · rename_i same
            cases same
            exact absurd covers.symm (apart _ rfl)
          · rename_i same
            cases same
            exact congrArg (Option.map _) again
          · rename_i same
            cases same
  | case3 => cases closed

theorem slash_stable (munched : slash (body ++ behind) = (chunk, behind))
    (alike : StopsAlike behind other)
    (closed : behind = [] → other ≠ [] → ∀ cause, chunk.sort ≠ .fault cause) :
    slash (body ++ other) = (chunk, other) := by
  unfold slash at munched
  split at munched
  · rename_i tail same
    have cut : (body ++ behind).dropWhile (· != '\n') = behind := congrArg Prod.snd munched
    obtain ⟨taken, inside⟩ := inside_of_cut cut
    have outside := alike.end_of_line (outside_of_cut cut)
    cases body with
    | nil =>
        have notBreak := outside_of_cut cut '/' (by rw [List.nil_append] at same; rw [same]; rfl)
        cases notBreak
    | cons second body =>
        cases same
        rw [taken] at munched
        have isChunk : (⟨.layout, '/' :: '/' :: body⟩ : Chunk) = chunk := congrArg Prod.fst munched
        rw [← isChunk]
        have takenToo := take_while_exact inside outside
        have cutToo := drop_while_exact inside outside
        rw [List.cons_append] at takenToo cutToo ⊢
        simp only [slash, takenToo, cutToo]
  · rename_i inside same
    cases found : blockComment inside with
    | some parts =>
        obtain ⟨comment, after⟩ := parts
        rw [found] at munched
        cases munched
        have covers := block_comment_covers found
        have joined : body ++ behind = '*' :: comment ++ behind := by
          rw [same, ← covers]
          rfl
        have starred : body = '*' :: comment := List.append_cancel_right joined
        rw [starred, List.cons_append]
        simp only [slash, block_comment_stable found]
    | none =>
        rw [found] at munched
        cases munched
        by_cases empty : other = []
        · rw [empty, same]
          simp only [slash, found]
        · exact absurd rfl (closed rfl empty _)
  · rename_i notSlash notStar
    have bare : body = [] := by simpa using congrArg Prod.snd munched
    subst bare
    rw [List.nil_append] at munched notSlash notStar ⊢
    have outside : ∀ char ∈ other.head?, (char == '/' || char == '*') = false := by
      apply alike.outside rfl rfl
      intro char isHead
      cases behind with
      | nil => cases isHead
      | cons second behind =>
          cases isHead
          simp only [Bool.or_eq_false_iff, beq_eq_false_iff_ne]
          constructor
          · rintro rfl
            exact notSlash _ rfl
          · rintro rfl
            exact notStar _ rfl
    unfold slash
    split
    · exact absurd (outside '/' rfl) (by decide)
    · exact absurd (outside '*' rfl) (by decide)
    · cases munched
      rfl

theorem munch_split (first : Char) (text : List Char) :
    ∃ body, (munch first text).1.lexeme = first :: body ∧ text = body ++ (munch first text).2 := by
  have covers := munch_covers first text
  cases lexeme : (munch first text).1.lexeme with
  | nil => exact absurd lexeme (munch_lexeme_ne_nil first text)
  | cons char body =>
      rw [lexeme] at covers
      injection covers with same covers
      exact ⟨body, by rw [same], covers.symm⟩

/-- The first chunk of a text stays its first chunk if what follows is replaced by a text that stops
it. -/
theorem munch_stable (munched : munch first (body ++ behind) = (chunk, behind))
    (alike : StopsAlike behind other)
    (closed : behind = [] → other ≠ [] → ∀ cause, chunk.sort ≠ .fault cause) :
    munch first (body ++ other) = (chunk, other) := by
  unfold munch at munched ⊢
  split at munched
  · rename_i blank
    have bare : body = [] := by simpa using congrArg Prod.snd munched
    subst bare
    cases munched
    rw [if_pos blank]
    rfl
  · rename_i solid
    rw [if_neg solid]
    split at munched
    · rename_i isSlash
      rw [if_pos isSlash]
      exact slash_stable munched alike closed
    · rename_i notSlash
      rw [if_neg notSlash]
      split at munched
      · rename_i isQuote
        rw [if_pos isQuote]
        exact string_stable munched closed
      · rename_i notQuote
        rw [if_neg notQuote]
        split at munched
        · rename_i digit
          rw [if_pos digit]
          exact number_stable munched alike
        · rename_i notDigit
          rw [if_neg notDigit]
          split at munched
          · rename_i starts
            rw [if_pos starts]
            exact word_stable munched alike
          · rename_i notWord
            rw [if_neg notWord]
            exact sign_stable munched alike

end Stable

end Chunk

end Treewalk
