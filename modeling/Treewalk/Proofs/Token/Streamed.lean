import Treewalk.Token.Scanner
import Treewalk.Proofs.Source.Decoding
import Treewalk.Proofs.Token.Narrowed

/-!
# Scanning while reading gives the chunks of the text

The scanner works with two characters in view and a file that goes on behind its faults; scanning a
text cuts it into chunks. `Stands` relates the two: it says which characters a round has taken,
which text is ahead, and how much of the file has been read. Taking a character moves it from the
text to the lexeme. From this, each part of a round takes the lexeme that the corresponding chunk
has, and all rounds together give the items of the text in front of the first fault. At the end the
whole file has been read, or a fault has been met.
-/

namespace Treewalk

set_option autoImplicit false

def leadingText : List Pull → List Char
  | .char value :: rest => value :: leadingText rest
  | _ => []

theorem leading_text_chars (text : List Char) : leadingText (text.map .char) = text := by
  induction text with
  | nil => rfl
  | cons char text ih => exact congrArg (List.cons char) ih

theorem leading_text_length (pulls : List Pull) : (leadingText pulls).length ≤ pulls.length := by
  fun_induction leadingText pulls with
  | case1 value rest ih => exact Nat.succ_le_succ ih
  | case2 pulls other => exact Nat.zero_le _

def Scanned.ofPulls (pulls : List Pull) : Scanned :=
  (Scanned.ofText (leadingText pulls)).narrowed

theorem of_pulls_of_chars (source : String) :
    Scanned.ofPulls (source.toList.map .char) = Scanned.ofSource source := by
  rw [Scanned.ofPulls, leading_text_chars]
  rfl

theorem chars_of_chars (text : List Char) :
    (text.map Pull.char).filterMap Pull.char? = text := by
  induction text with
  | nil => rfl
  | cons char text ih => exact congrArg (List.cons char) ih

theorem clean_chars (text : List Char) : Clean (text.map .char) := by
  intro pull found
  obtain ⟨char, -, rfl⟩ := List.mem_map.mp found
  rfl

theorem clean_iff {pulls : List Pull} : Clean pulls ↔ pulls.filterMap Pull.fault? = [] := by
  rw [List.filterMap_eq_nil_iff]
  exact Iff.rfl

theorem of_pulls_of_short {text : List Char} (short : byteLength text < 2 ^ 32) :
    Scanned.ofPulls (text.map .char) = Scanned.ofText text := by
  rw [Scanned.ofPulls, leading_text_chars, of_text_narrowed short]

namespace Feed

/-- The feed has come so far in the file: it holds the characters in front of this place, and the
last fault. -/
def Reads (pulls : List Pull) (feed : Feed) : Prop :=
  ∃ front, pulls = front ++ feed.pulls.map Prod.snd ∧
    feed.text = String.ofList (front.filterMap Pull.char?) ∧
    feed.fault = (front.filterMap Pull.fault?).getLast?

def Drained (feed : Feed) : Prop :=
  feed.pulls = [] ∨ feed.fault.isSome = true

variable {pulls : List Pull} {feed : Feed}

def Counts (offset : Nat) (feed : Feed) : Prop :=
  feed.pulls = counted offset (feed.pulls.map Prod.snd)

theorem counted_pulls (offset : Nat) (pulls : List Pull) :
    (counted offset pulls).map Prod.snd = pulls := by
  fun_induction counted offset pulls with
  | case1 => rfl
  | case2 offset value rest ih => exact congrArg (List.cons (.fault value)) ih
  | case3 offset value rest ih => exact congrArg (List.cons (.char value)) ih

theorem of_pulls_pulls (pulls : List Pull) : (ofPulls pulls).pulls.map Prod.snd = pulls :=
  counted_pulls 0 pulls

theorem of_pulls_length (pulls : List Pull) : (ofPulls pulls).pulls.length = pulls.length := by
  rw [← List.length_map Prod.snd, of_pulls_pulls]

theorem counts_start (pulls : List Pull) : (ofPulls pulls).Counts 0 :=
  congrArg (counted 0) (of_pulls_pulls pulls).symm

theorem indexed_counted (offset : Nat) (text : List Char) :
    indexed offset text = counted (narrow offset) (text.map .char) := by
  induction text generalizing offset with
  | nil => rfl
  | cons char text ih =>
      rw [indexed, ih, ← narrow_add]
      rfl

theorem of_text (text : List Char) : ofText text = ofPulls (text.map .char) :=
  congrArg (Feed.mk · "" none) (indexed_counted 0 text)

theorem reads_start (pulls : List Pull) : (ofPulls pulls).Reads pulls :=
  ⟨[], (of_pulls_pulls pulls).symm, rfl, rfl⟩

theorem Reads.next (reads : feed.Reads pulls) : feed.next.2.Reads pulls := by
  obtain ⟨front, whole, text, fault⟩ := reads
  obtain ⟨left, _, _⟩ := feed
  dsimp only at whole text fault
  subst whole text fault
  cases left with
  | nil => exact ⟨front, rfl, rfl, rfl⟩
  | cons first rest =>
      obtain ⟨place, pull⟩ := first
      refine ⟨front ++ [pull], ?_, ?_, ?_⟩
      · rw [List.append_assoc]
        cases pull <;> rfl
      · cases pull <;> simp [next, List.filterMap_cons, Pull.char?]
      · cases pull <;> simp [next, List.filterMap_cons, Pull.fault?]

theorem Drained.next (drained : feed.Drained) : feed.next.2.Drained := by
  obtain ⟨_ | ⟨⟨place, pull⟩, rest⟩, text, fault⟩ := feed
  · exact drained
  · cases pull with
    | fault value => exact .inr rfl
    | char value => exact .inr (drained.resolve_left (List.cons_ne_nil _ _))

theorem drained_of_none (none : feed.next.1 = none) : feed.next.2.Drained := by
  obtain ⟨_ | ⟨⟨place, pull⟩, rest⟩, text, fault⟩ := feed
  · exact .inl rfl
  · cases pull with
    | fault value => exact .inr rfl
    | char value => cases none

theorem Drained.pulls_of_none (drained : feed.Drained) (none : feed.fault = none) :
    feed.pulls = [] :=
  drained.resolve_right (by simp [none])

/-- A feed that has come to the end or to a fault holds a fault unless there is none in the file. -/
theorem fault_none_iff (reads : feed.Reads pulls) (drained : feed.Drained) :
    feed.fault = none ↔ Clean pulls := by
  obtain ⟨front, whole, -, last⟩ := reads
  constructor
  · intro none
    rw [drained.pulls_of_none none, List.map_nil, List.append_nil] at whole
    rw [clean_iff, whole, ← List.getLast?_eq_none_iff, ← last]
    exact none
  · intro clean
    rw [last, List.getLast?_eq_none_iff, ← clean_iff]
    exact fun pull found => clean pull (whole ▸ List.mem_append_left _ found)

theorem text_of_clean (reads : feed.Reads pulls) (drained : feed.Drained) (clean : Clean pulls) :
    feed.text = String.ofList (pulls.filterMap Pull.char?) := by
  have ended := drained.pulls_of_none ((fault_none_iff reads drained).mpr clean)
  obtain ⟨front, whole, text, -⟩ := reads
  rw [ended, List.map_nil, List.append_nil] at whole
  rw [text, whole]

def textFrom (pulled : Option (Nat × Char)) (feed : Feed) : List Char :=
  match pulled with
  | none => []
  | some (_, char) => char :: leadingText (feed.pulls.map Prod.snd)

theorem text_from_next (feed : Feed) :
    textFrom feed.next.1 feed.next.2 = leadingText (feed.pulls.map Prod.snd) := by
  obtain ⟨_ | ⟨⟨place, pull⟩, rest⟩, text, fault⟩ := feed
  · rfl
  · cases pull <;> rfl

theorem Counts.next {offset position : Nat} {char : Char} (counts : feed.Counts offset)
    (pulled : feed.next.1 = some (position, char)) :
    position = offset ∧ feed.next.2.Counts (narrow (position + char.utf8Size)) := by
  obtain ⟨_ | ⟨⟨place, pull⟩, rest⟩, text, fault⟩ := feed
  · cases pulled
  · cases pull with
    | fault value => cases pulled
    | char value =>
        cases pulled
        obtain ⟨⟨rfl, -⟩, rest⟩ := List.cons.inj counts
        exact ⟨rfl, rest⟩

end Feed

namespace Scanner

/-- The text that the scanner will take. What comes behind a fault is not part of it, even if it is
in view. -/
def ahead (scanner : Scanner) : List Char :=
  match scanner.current with
  | none => []
  | some (_, char) => char :: scanner.feed.textFrom scanner.following

/-- In a file with these pulls a round has started at the byte `origin` on the line `line`; since
then, `taken` has been taken, and `text` is ahead. -/
structure Stands (pulls : List Pull) (origin line : Nat) (taken text : List Char)
    (scanner : Scanner) : Prop where
  ahead : scanner.ahead = text
  lexeme : scanner.lexeme = String.ofList taken
  line : scanner.line = line + newlines taken
  stop : scanner.stop = narrow (origin + byteLength taken)
  current : ∀ found, scanner.current = some found → found.1 = scanner.stop
  following : ∀ found next, scanner.current = some found → scanner.following = some next →
    next.1 = narrow (found.1 + found.2.utf8Size) ∧
      scanner.feed.Counts (narrow (next.1 + next.2.utf8Size))
  reads : scanner.feed.Reads pulls
  drained : scanner.current = none ∨ scanner.following = none → scanner.feed.Drained

section Stands

variable {pulls : List Pull} {origin line bound : Nat} {taken text rest : List Char} {first : Char}
  {scanner : Scanner}

theorem Stands.peek (stands : Stands pulls origin line taken text scanner) :
    scanner.peek = text.head? := by
  rw [← stands.ahead]
  unfold Scanner.peek Scanner.ahead
  cases scanner.current <;> rfl

theorem Stands.peek_next (stands : Stands pulls origin line taken (first :: rest) scanner) :
    scanner.peekNext = rest.head? := by
  have same := stands.ahead
  unfold Scanner.ahead at same
  split at same
  · cases same
  · cases same
    unfold Scanner.peekNext
    cases scanner.following <;> rfl

theorem Stands.offset (stands : Stands pulls origin line taken text scanner) :
    scanner.offset = narrow (origin + byteLength taken) := by
  unfold Scanner.offset
  split
  · rename_i position char found
    exact (stands.current _ found).trans stands.stop
  · exact stands.stop

theorem Stands.clear (stands : Stands pulls origin line taken text scanner) :
    Stands pulls (origin + byteLength taken) (line + newlines taken) [] text
      { scanner with lexeme := "" } where
  ahead := stands.ahead
  lexeme := rfl
  line := stands.line
  stop := stands.stop
  current := stands.current
  following := stands.following
  reads := stands.reads
  drained := stands.drained

theorem Stands.take (stands : Stands pulls origin line taken (first :: rest) scanner) :
    scanner.take.1 = some first ∧
      Stands pulls origin line (taken ++ [first]) rest scanner.advance := by
  obtain ⟨current, following, stop, row, lexeme, feed⟩ := scanner
  obtain ⟨visible, rfl, rfl, rfl, placed, placedNext, reads, drained⟩ := stands
  dsimp only at placed placedNext reads drained
  -- What comes behind a fault may be in view, but only as the following character.
  cases current with
  | none => cases visible
  | some found =>
      obtain ⟨position, char⟩ := found
      have here : position = narrow (origin + byteLength taken) := placed _ rfl
      have beyond : narrow (position + char.utf8Size) =
          narrow (origin + byteLength (taken ++ [char])) := by
        rw [byte_length_append, here, narrow_add, Nat.add_assoc]
        rfl
      obtain ⟨rfl, rfl⟩ : char = first ∧ feed.textFrom following = rest := List.cons.inj visible
      refine ⟨rfl, ?_, ?_, ?_, ?_, ?_, ?_, ?_, ?_⟩
      · cases following with
        | none => rfl
        | some next => exact congrArg (List.cons next.2) (Feed.text_from_next feed)
      · simp [advance, Scanner.take]
      · simp only [advance, Scanner.take, newlines_append]
        split
        · rename_i isNewline
          subst isNewline
          rfl
        · rename_i other
          simp [newlines, other]
      · exact beyond
      · exact fun next found => (placedNext _ next rfl found).1
      · intro next pulled found asked
        exact (placedNext _ next rfl found).2.next asked
      · exact reads.next
      · rintro (none | none)
        · exact (drained (.inr none)).next
        · exact Feed.drained_of_none none

/-- Taking the characters of a class takes the longest lexeme of the class. -/
theorem Stands.skip_while (stands : Stands pulls origin line taken text scanner)
    (inside : Char → Bool) (enough : text.length ≤ bound) :
    Stands pulls origin line (taken ++ text.takeWhile inside) (text.dropWhile inside)
      (scanner.skipWhile inside bound) := by
  induction bound generalizing taken text scanner with
  | zero =>
      obtain rfl := List.length_eq_zero_iff.mp (Nat.le_zero.mp enough)
      simpa [skipWhile] using stands
  | succ bound ih =>
      unfold skipWhile
      rw [stands.peek]
      cases text with
      | nil => simpa using stands
      | cons first rest =>
          cases member : inside first with
          | false => simpa [member] using stands
          | true =>
              have later := ih stands.take.2 (Nat.le_of_succ_le_succ enough)
              simpa [member] using later

/-- A block comment is taken up to its end, or to the end of the text if it is not closed. -/
theorem Stands.skip_comment (stands : Stands pulls origin line taken text scanner)
    (enough : text.length ≤ bound) :
    (scanner.skipComment bound).1 = (Chunk.blockComment text).isSome ∧
      Stands pulls origin line (taken ++ ((Chunk.blockComment text).getD (text, [])).1)
        ((Chunk.blockComment text).getD (text, [])).2 (scanner.skipComment bound).2 := by
  induction bound generalizing taken text scanner with
  | zero =>
      obtain rfl := List.length_eq_zero_iff.mp (Nat.le_zero.mp enough)
      refine ⟨rfl, ?_⟩
      simpa [Chunk.blockComment, skipComment] using stands
  | succ bound ih =>
      unfold skipComment
      cases text with
      | nil =>
          rw [stands.peek]
          refine ⟨rfl, ?_⟩
          simpa [Chunk.blockComment] using stands
      | cons first rest =>
          rw [stands.peek, stands.peek_next, List.head?_cons]
          have step := stands.take.2
          split
          · rename_i isStar isSlash
            cases isStar
            obtain ⟨after, rfl⟩ := List.head?_eq_some_iff.mp isSlash
            refine ⟨rfl, ?_⟩
            simpa [Chunk.blockComment] using step.take.2
          · rename_i same other
            cases same
            obtain ⟨closed, later⟩ := ih step (Nat.le_of_succ_le_succ enough)
            have inside : Chunk.blockComment (first :: rest) =
                (Chunk.blockComment rest).map fun cut => (first :: cut.1, cut.2) := by
              rw [Chunk.blockComment]
              rintro following rfl rfl
              exact other rfl rfl
            rw [closed, inside]
            refine ⟨by simp, ?_⟩
            cases found : Chunk.blockComment rest with
            | none => simpa [found] using later
            | some cut => simpa [found] using later
          · rename_i none
            cases none

def roundOf (origin line : Nat) (chunk : Chunk) : Round :=
  match chunk.sort with
  | .layout => .layout
  | .token kind literal =>
      .item (.token ⟨kind, String.ofList chunk.lexeme, literal, line + newlines chunk.lexeme,
        Span.narrowed ⟨origin, origin + byteLength chunk.lexeme⟩⟩)
  | .fault cause =>
      .item (.error ⟨cause, Span.narrowed ⟨origin, origin + byteLength chunk.lexeme⟩,
        line + newlines chunk.lexeme⟩)

/-- A part of the scanner has taken the chunk that has been cut off the text. -/
structure Took (pulls : List Pull) (origin line : Nat) (cut : Chunk × List Char)
    (result : Round × Scanner) : Prop where
  round : result.1 = roundOf origin line cut.1
  stands : Stands pulls origin line cut.1.lexeme cut.2 result.2

theorem Stands.token (stands : Stands pulls origin line taken text scanner) (kind : Kind)
    (literal : Option Literal) :
    scanner.token kind literal (narrow origin) = roundOf origin line ⟨.token kind literal,
      taken⟩ := by
  simp only [Scanner.token, roundOf, stands.lexeme, stands.line, stands.offset,
    Span.narrowed]

theorem Stands.error (stands : Stands pulls origin line taken text scanner) (cause : LexCause) :
    scanner.error cause (narrow origin) = roundOf origin line ⟨.fault cause, taken⟩ := by
  simp only [Scanner.error, roundOf, stands.line, stands.offset, Span.narrowed]

theorem took_slash (stands : Stands pulls origin line ['/'] rest scanner)
    (enough : rest.length ≤ bound) :
    Took pulls origin line (Chunk.slash rest) (scanner.slash bound (narrow origin)) := by
  unfold Scanner.slash Chunk.slash
  rw [stands.peek]
  split
  · exact ⟨rfl, stands.skip_while (· != '\n') enough⟩
  · rename_i inside
    obtain ⟨closed, taken⟩ := stands.take.2.skip_comment (Nat.le_of_succ_le enough)
    rw [List.head?_cons]
    generalize scanner.advance.skipComment bound = result at closed taken
    obtain ⟨flag, after⟩ := result
    dsimp only at closed taken ⊢
    cases found : Chunk.blockComment inside with
    | some cut =>
        rw [found] at closed taken
        subst closed
        exact ⟨rfl, taken⟩
    | none =>
        rw [found] at closed taken
        subst closed
        exact ⟨taken.error .unterminatedComment, taken⟩
  · rename_i notSlash notStar
    split
    · rename_i isSlash
      obtain ⟨after, same⟩ := List.head?_eq_some_iff.mp isSlash
      exact (notSlash after same).elim
    · rename_i isStar
      obtain ⟨after, same⟩ := List.head?_eq_some_iff.mp isStar
      exact (notStar after same).elim
    · exact ⟨stands.token .slash none, stands⟩

theorem took_string (stands : Stands pulls origin line ['"'] rest scanner)
    (enough : rest.length ≤ bound) :
    Took pulls origin line (Chunk.string rest) (scanner.string bound (narrow origin)) := by
  have inside := stands.skip_while (· != '"') enough
  unfold Scanner.string Chunk.string
  dsimp only
  rw [inside.peek]
  cases found : rest.dropWhile (· != '"') with
  | nil =>
      rw [found] at inside
      have whole : rest.takeWhile (· != '"') = rest := by
        have split := List.takeWhile_append_dropWhile (p := (· != '"')) (l := rest)
        rwa [found, List.append_nil] at split
      rw [whole] at inside
      exact ⟨inside.error .unterminatedString, inside⟩
  | cons quote after =>
      rw [found] at inside
      have closed := inside.take.2
      refine ⟨?_, closed⟩
      dsimp only [List.head?_cons]
      rw [closed.token, closed.lexeme]
      simp [roundOf]

theorem took_word (stands : Stands pulls origin line [first] rest scanner)
    (enough : rest.length ≤ bound) :
    Took pulls origin line (Chunk.word first rest) (scanner.word bound (narrow origin)) := by
  have whole := stands.skip_while Chunk.continuesWord enough
  refine ⟨?_, whole⟩
  dsimp only [Scanner.word]
  rw [whole.token, whole.lexeme]
  rfl

theorem took_single (stands : Stands pulls origin line [first] rest scanner)
    (apart : ∀ kind, Chunk.signEqual? first = some kind → rest.head? ≠ some '=') :
    Took pulls origin line (Chunk.sign first rest)
      (scanner.single (narrow origin) first, scanner) := by
  unfold Scanner.single Chunk.sign
  split
  · rename_i kind after double
    exact absurd rfl (apart kind double)
  · cases Chunk.sign? first with
    | none => exact ⟨stands.error (.unexpectedCharacter first), stands⟩
    | some kind => exact ⟨stands.token kind none, stands⟩

theorem took_sign (stands : Stands pulls origin line [first] rest scanner) :
    Took pulls origin line (Chunk.sign first rest) (scanner.sign (narrow origin) first) := by
  unfold Scanner.sign
  split
  · rename_i kind double
    rw [stands.peek]
    split
    · rename_i isEqual
      obtain ⟨after, rfl⟩ := List.head?_eq_some_iff.mp isEqual
      unfold Chunk.sign
      rw [double]
      exact ⟨stands.take.2.token kind none, stands.take.2⟩
    · rename_i other
      exact took_single stands fun _ _ => other
  · rename_i none
    exact took_single stands (by simp [none])

theorem digit_not_point {char : Char} (digit : Chunk.isDigit char = true) :
    (char != '.') = true := by
  rw [bne_iff_ne]
  rintro rfl
  cases digit

theorem number_of_digits {whole fraction : List Char}
    (digits : ∀ char ∈ whole, Chunk.isDigit char = true) :
    numberOf (String.ofList (whole ++ if fraction.isEmpty then [] else '.' :: fraction)) =
      (Decimal.ofDigits whole fraction).toFloat := by
  have inside : ∀ char ∈ whole, (char != '.') = true :=
    fun char found => digit_not_point (digits char found)
  unfold numberOf
  rw [String.toList_ofList, List.takeWhile_append_of_pos inside,
    List.dropWhile_append_of_pos inside]
  cases fraction with
  | nil => simp
  | cons digit fraction => simp

theorem took_digits {whole fraction after : List Char}
    (cut : Chunk.numberDigits rest = (whole, fraction, after))
    (digits : ∀ char ∈ first :: whole, Chunk.isDigit char = true)
    (stands : Stands pulls origin line
      (first :: whole ++ if fraction.isEmpty then [] else '.' :: fraction) after scanner) :
    Took pulls origin line (Chunk.number first rest)
      (scanner.token .number (some (.number (numberOf scanner.lexeme))) (narrow origin),
        scanner) := by
  unfold Chunk.number
  rw [cut]
  refine ⟨?_, stands⟩
  dsimp only
  rw [stands.token, stands.lexeme, number_of_digits digits]

theorem took_number (stands : Stands pulls origin line [first] rest scanner)
    (starts : Chunk.isDigit first = true) (enough : rest.length ≤ bound) :
    Took pulls origin line (Chunk.number first rest) (scanner.number bound (narrow origin)) := by
  have whole := stands.skip_while Chunk.isDigit enough
  have digits : ∀ char ∈ first :: rest.takeWhile Chunk.isDigit, Chunk.isDigit char = true := by
    intro char found
    rcases List.mem_cons.mp found with rfl | found
    · exact starts
    · exact List.all_eq_true.mp List.all_takeWhile char found
  unfold Scanner.number
  dsimp only
  by_cases fraction : ∃ digit after, rest.dropWhile Chunk.isDigit = '.' :: digit :: after ∧
      Chunk.isDigit digit = true
  · obtain ⟨digit, after, found, isDigit⟩ := fraction
    rw [found] at whole
    have cut : Chunk.numberDigits rest = (rest.takeWhile Chunk.isDigit,
        digit :: after.takeWhile Chunk.isDigit, after.dropWhile Chunk.isDigit) := by
      simp [Chunk.numberDigits, found, isDigit]
    have short : (digit :: after).length ≤ bound := by
      have split := congrArg List.length
        (List.takeWhile_append_dropWhile (p := Chunk.isDigit) (l := rest))
      rw [found, List.length_append, List.length_cons] at split
      omega
    have behind := whole.take.2.skip_while Chunk.isDigit short
    rw [whole.peek, whole.peek_next, if_pos (by simp [isDigit])]
    apply took_digits cut digits
    simpa [isDigit] using behind
  · have cut : Chunk.numberDigits rest =
        (rest.takeWhile Chunk.isDigit, [], rest.dropWhile Chunk.isDigit) := by
      unfold Chunk.numberDigits
      dsimp only
      split
      · rename_i digit after found
        rw [if_neg fun isDigit => fraction ⟨digit, after, found, isDigit⟩, found]
      · rfl
    rw [if_neg]
    · apply took_digits cut digits
      simpa using whole
    · rw [whole.peek, Bool.and_eq_true, decide_eq_true_eq]
      rintro ⟨isPoint, isDigit⟩
      obtain ⟨behind, found⟩ := List.head?_eq_some_iff.mp isPoint
      rw [found] at whole
      rw [whole.peek_next] at isDigit
      cases behind with
      | nil => cases isDigit
      | cons digit after => exact fraction ⟨digit, after, found, isDigit⟩

theorem took_proceed (stands : Stands pulls origin line [first] rest scanner)
    (enough : rest.length ≤ bound) :
    Took pulls origin line (Chunk.munch first rest)
      (scanner.proceed bound (narrow origin) first) := by
  unfold proceed Chunk.munch
  split
  · exact ⟨rfl, stands⟩
  split
  · rename_i isSlash
    subst isSlash
    exact took_slash stands enough
  split
  · rename_i isQuote
    subst isQuote
    exact took_string stands enough
  split
  · rename_i isDigit
    exact took_number stands isDigit enough
  split
  · exact took_word stands enough
  · exact took_sign stands

theorem took_round (bound : Nat)
    (stands : Stands pulls origin line taken (first :: rest) scanner)
    (enough : rest.length ≤ bound) :
    Took pulls (origin + byteLength taken) (line + newlines taken) (Chunk.munch first rest)
      (scanner.round bound) := by
  obtain ⟨found, step⟩ := stands.clear.take
  have parts : { scanner with lexeme := "" }.take =
      (some first, { scanner with lexeme := "" }.advance) := Prod.ext found rfl
  unfold Scanner.round
  dsimp only
  rw [stands.offset, parts]
  exact took_proceed step enough

/-- At the end of the text a round gives the closing token, and asks for one more character. -/
theorem round_at_end (bound : Nat) (stands : Stands pulls origin line taken [] scanner) :
    (scanner.round bound).1 = .finished ⟨.endOfInput, "", none, line + newlines taken,
        Span.narrowed ⟨origin + byteLength taken, origin + byteLength taken⟩⟩ ∧
      (scanner.round bound).2.feed.Reads pulls ∧ (scanner.round bound).2.feed.Drained := by
  have ended : scanner.current = none := by
    have same := stands.ahead
    unfold Scanner.ahead at same
    split at same
    · assumption
    · cases same
  have parts : { scanner with lexeme := "" }.take = (none,
      { scanner with
        lexeme := ""
        current := scanner.following
        following := scanner.feed.next.1
        feed := scanner.feed.next.2 }) := by
    unfold Scanner.take
    simp only [ended]
  unfold Scanner.round
  dsimp only
  rw [stands.offset, parts]
  refine ⟨?_, stands.reads.next, (stands.drained (.inl ended)).next⟩
  dsimp only
  rw [stands.line]
  rfl

end Stands

theorem scan_up_to {pulls : List Pull} {origin line count : Nat} {taken text : List Char}
    {scanner : Scanner} (stands : Stands pulls origin line taken text scanner)
    (enough : text.length < count) :
    (scanner.scanUpTo count).1 =
        Scanned.narrowed
          ⟨Cursor.itemsFrom (chunks text)
              ⟨chunks text, origin + byteLength taken, line + newlines taken⟩,
            (Cursor.last (chunks text)
              ⟨chunks text, origin + byteLength taken, line + newlines taken⟩).finish⟩ ∧
      (scanner.scanUpTo count).2.Reads pulls ∧ (scanner.scanUpTo count).2.Drained := by
  induction count generalizing origin line taken text scanner with
  | zero => exact absurd enough (Nat.not_lt_zero _)
  | succ count ih =>
      unfold scanUpTo
      cases text with
      | nil =>
          obtain ⟨finished, reads, drained⟩ := round_at_end count stands
          generalize scanner.round count = result at finished reads drained
          obtain ⟨round, after⟩ := result
          dsimp only at finished
          subst finished
          exact ⟨rfl, reads, drained⟩
      | cons first rest =>
          rw [List.length_cons] at enough
          -- The round takes at least one character, so the bound of the others is large enough.
          have took := took_round count stands (by omega)
          have shorter := Chunk.munch_length first rest
          rw [chunks_cons]
          generalize Chunk.munch first rest = cut at took shorter
          generalize scanner.round count = result at took
          obtain ⟨⟨sort, lexeme⟩, behind⟩ := cut
          obtain ⟨round, after⟩ := result
          obtain ⟨same, stands⟩ := took
          dsimp only at same stands shorter
          subst same
          obtain ⟨later, ended⟩ := ih stands (by omega)
          cases sort with
          | layout => exact ⟨later, ended⟩
          | token kind literal =>
              refine ⟨?_, ended⟩
              simp only [roundOf, later]
              rfl
          | fault cause =>
              refine ⟨?_, ended⟩
              simp only [roundOf, later]
              rfl

theorem stands_start (pulls : List Pull) :
    Stands pulls 0 1 [] (leadingText pulls) (start (.ofPulls pulls)) := by
  have counts := Feed.counts_start pulls
  have first := Feed.text_from_next (.ofPulls pulls)
  have second := Feed.text_from_next (Feed.ofPulls pulls).next.2
  rw [Feed.of_pulls_pulls] at first
  refine ⟨?_, rfl, rfl, rfl, ?_, ?_, (Feed.reads_start pulls).next.next, ?_⟩
  · apply Eq.trans _ first
    have same : (start (.ofPulls pulls)).current = (Feed.ofPulls pulls).next.1 := rfl
    unfold Scanner.ahead
    rw [same]
    cases (Feed.ofPulls pulls).next.1 with
    | none => rfl
    | some found => exact congrArg (List.cons found.2) second
  · exact fun _ pulled => (counts.next pulled).1
  · exact fun found next pulled asked => (counts.next pulled).2.next asked
  · rintro (none | none)
    · exact (Feed.drained_of_none none).next
    · exact Feed.drained_of_none none

/-- Scanning a file gives the items of its text up to the first fault; it has been read to its end,
or a fault has been met. -/
theorem scan_streamed (pulls : List Pull) :
    (scan (.ofPulls pulls)).1 = Scanned.ofPulls pulls ∧ (scan (.ofPulls pulls)).2.Reads pulls ∧
      (scan (.ofPulls pulls)).2.Drained := by
  refine scan_up_to (stands_start pulls) (Nat.lt_succ_of_le ?_)
  rw [Feed.of_pulls_length]
  exact leading_text_length pulls

theorem scan_source (source : String) :
    (scan (.ofText source.toList)).1 = Scanned.ofSource source := by
  rw [Feed.of_text, (scan_streamed _).1, of_pulls_of_chars]

end Scanner

end Treewalk
