import Mathlib.Algebra.Ring.Nat
import Treewalk.Source.Decoding

/-!
# Reading characters is the inverse of encoding

A sound reader gives the characters of a text and no fault. The other way round, bytes that are read
without a fault are those of the text that comes out, so it meets a fault in all other bytes.
Decoding is sound: behind its first byte a character owes the groups of six bits of its code point,
the highest first, and both directions follow these groups.
-/

namespace Treewalk

set_option autoImplicit false

/-- The bytes that a code point owes, one for each of its lowest groups of six bits. -/
def owedBytes : Nat → Nat → List UInt8
  | 0, _ => []
  | owed + 1, code => UInt8.ofNat (code / 64 ^ owed % 64 + 128) :: owedBytes owed code

def encoded (text : List Char) : List UInt8 :=
  text.flatMap String.utf8EncodeChar

theorem bytes_of_text (source : String) : source.toUTF8.data.toList = encoded source.toList := by
  rw [String.toUTF8_eq_toByteArray]
  conv => lhs; rw [← String.ofList_toList (s := source)]
  rw [String.toByteArray_ofList, List.utf8Encode, List.data_toByteArray]
  rfl

theorem to_nat_of_valid {code : Nat} (valid : code.isValidChar) :
    (Char.ofNat code).val.toNat = code := by
  rw [Char.ofNat, dif_pos valid]
  rfl

section Bytes

variable {byte : UInt8} {bytes rest : List UInt8} {code owed least : Nat}

theorem finish_of_valid (valid : code.isValidChar) (long : least ≤ code) :
    Pending.finish code least = .char (Char.ofNat code) := by
  rw [Pending.finish, if_neg (Nat.not_lt.mpr long), if_pos valid]

theorem finish_eq_char {char : Char} (finished : Pending.finish code least = .char char) :
    code.isValidChar ∧ least ≤ code ∧ char = Char.ofNat code := by
  unfold Pending.finish at finished
  split at finished
  · cases finished
  split at finished
  · cases finished
    exact ⟨by assumption, by omega, rfl⟩
  · cases finished

theorem group_to_nat (group : Nat) :
    (UInt8.ofNat (group % 64 + 128)).toNat = group % 64 + 128 := by
  have small : group % 64 + 128 < UInt8.size := by
    have below := Nat.mod_lt group (show 0 < 64 by decide)
    show group % 64 + 128 < 256
    omega
  exact UInt8.toNat_ofNat_of_lt' small

theorem group_continues (group : Nat) :
    isContinuation (UInt8.ofNat (group % 64 + 128)) = true := by
  have below := Nat.mod_lt group (show 0 < 64 by decide)
  rw [isContinuation, group_to_nat, Bool.and_eq_true, decide_eq_true_eq, decide_eq_true_eq]
  omega

theorem byte_of_group (continues : isContinuation byte = true) :
    byte = UInt8.ofNat (byte.toNat % 64 + 128) := by
  rw [isContinuation, Bool.and_eq_true, decide_eq_true_eq, decide_eq_true_eq] at continues
  rw [← UInt8.toNat_inj, group_to_nat]
  omega

theorem group_joins (code owed : Nat) :
    code / 64 ^ (owed + 1) * 64 + code / 64 ^ owed % 64 = code / 64 ^ owed := by
  rw [Nat.pow_succ, ← Nat.div_div_eq_div_mul]
  omega

/-- A byte that continues a character adds its group; the last one completes the character. -/
theorem decode_continuation (continues : isContinuation byte = true) :
    decodeFrom (some ⟨owed + 1, code, least⟩) (byte :: rest) =
      if owed = 0 then Pending.finish (code * 64 + byte.toNat % 64) least :: decodeFrom none rest
      else decodeFrom (some ⟨owed, code * 64 + byte.toNat % 64, least⟩) rest := by
  rw [decodeFrom, if_pos continues]
  cases owed with
  | zero => rfl
  | succ owed => rfl

theorem decode_owed (owed code least : Nat) (rest : List UInt8) :
    decodeFrom (some ⟨owed + 1, code / 64 ^ (owed + 1), least⟩)
        (owedBytes (owed + 1) code ++ rest) =
      Pending.finish code least :: decodeFrom none rest := by
  induction owed with
  | zero =>
      have joins := group_joins code 0
      have same : (code / 64 ^ 0 % 64 + 128) % 64 = code / 64 ^ 0 % 64 := by omega
      rw [owedBytes, List.cons_append, decode_continuation (group_continues _), if_pos rfl,
        group_to_nat, same, joins, Nat.pow_zero, Nat.div_one]
      rfl
  | succ owed ih =>
      have joins := group_joins code (owed + 1)
      have same : (code / 64 ^ (owed + 1) % 64 + 128) % 64 = code / 64 ^ (owed + 1) % 64 := by omega
      rw [owedBytes, List.cons_append, decode_continuation (group_continues _),
        if_neg (Nat.succ_ne_zero owed), group_to_nat, same, joins]
      exact ih

def StartsClean (pulls : List Pull) : Prop :=
  ∀ value behind, pulls ≠ .fault value :: behind

theorem char_of_starts_clean {pull : Pull} {behind : List Pull}
    (starts : StartsClean (pull :: behind)) :
    ∃ char, pull = .char char := by
  cases pull with
  | char value => exact ⟨value, rfl⟩
  | fault value => exact absurd rfl (starts value behind)

theorem continuation_of_starts_clean {pending : Pending}
    (starts : StartsClean (decodeFrom (some pending) bytes)) :
    ∃ byte rest, bytes = byte :: rest ∧ isContinuation byte = true := by
  cases bytes with
  | nil =>
      obtain ⟨char, same⟩ := char_of_starts_clean starts
      cases same
  | cons byte rest =>
      cases continues : isContinuation byte with
      | true => exact ⟨byte, rest, rfl, continues⟩
      | false =>
          rw [decodeFrom, if_neg (by simp [continues])] at starts
          obtain ⟨char, same⟩ := char_of_starts_clean starts
          cases same

/-- If no fault is met behind the first byte of a character, the bytes that it owes are there. -/
theorem owed_of_starts_clean
    (starts : StartsClean (decodeFrom (some ⟨owed + 1, code, least⟩) bytes)) :
    ∃ found rest, bytes = owedBytes (owed + 1) found ++ rest ∧ found / 64 ^ (owed + 1) = code ∧
      found.isValidChar ∧ least ≤ found := by
  induction owed generalizing code bytes with
  | zero =>
      obtain ⟨byte, rest, rfl, continues⟩ := continuation_of_starts_clean starts
      rw [decode_continuation continues, if_pos rfl] at starts
      obtain ⟨char, finished⟩ := char_of_starts_clean starts
      obtain ⟨valid, long, -⟩ := finish_eq_char finished
      refine ⟨_, rest, ?_, ?_, valid, long⟩
      · have same : (code * 64 + byte.toNat % 64) / 64 ^ 0 % 64 = byte.toNat % 64 := by omega
        rw [owedBytes, same, ← byte_of_group continues]
        rfl
      · omega
  | succ owed ih =>
      obtain ⟨byte, rest, rfl, continues⟩ := continuation_of_starts_clean starts
      rw [decode_continuation continues, if_neg (Nat.succ_ne_zero owed)] at starts
      obtain ⟨found, after, rfl, upper, valid, long⟩ := ih starts
      refine ⟨found, after, ?_, ?_, valid, long⟩
      · have same : found / 64 ^ (owed + 1) % 64 = byte.toNat % 64 := by omega
        conv => rhs; rw [owedBytes, same, ← byte_of_group continues]
        rfl
      · rw [Nat.pow_succ, ← Nat.div_div_eq_div_mul, upper]
        omega

/-- The forms of characters with several bytes: the least first byte, the number of first bytes, how
many bytes are owed behind the second one, and the least code point. -/
inductive Form : Nat → Nat → Nat → Nat → Prop where
  | two : Form 0xc0 0x20 0 0x80
  | three : Form 0xe0 0x10 1 0x800
  | four : Form 0xf0 0x08 2 0x10000

variable {marker room : Nat}

/-- The first byte of a form is its marker with the highest group of the code point. -/
theorem form_split (form : Form marker room owed least) {value : Nat} (above : marker ≤ value)
    (below : value < marker + room) : value % room + marker = value ∧ value % room < room := by
  cases form <;> omega

theorem form_lead (form : Form marker room owed least) {group : Nat} (below : group < room) :
    (UInt8.ofNat (group + marker)).toNat = group + marker ∧ (group + marker) % room = group := by
  refine ⟨UInt8.toNat_ofNat_of_lt' ?_, ?_⟩
  · show group + marker < 256
    cases form <;> omega
  · cases form <;> omega

theorem decode_lead_form (form : Form marker room owed least) (above : marker ≤ byte.toNat)
    (below : byte.toNat < marker + room) :
    decodeLead byte = ([], some ⟨owed + 1, byte.toNat % room, least⟩) := by
  unfold decodeLead
  dsimp only
  cases form with
  | two => rw [if_neg (by omega), if_neg (by omega), if_pos (by omega)]
  | three => rw [if_neg (by omega), if_neg (by omega), if_neg (by omega), if_pos (by omega)]
  | four =>
      rw [if_neg (by omega), if_neg (by omega), if_neg (by omega), if_neg (by omega),
        if_pos (by omega)]

theorem encode_form (form : Form marker room owed least) (valid : code.isValidChar)
    (above : least ≤ code) (below : code / 64 ^ (owed + 1) < room) :
    String.utf8EncodeChar (Char.ofNat code) =
      UInt8.ofNat (code / 64 ^ (owed + 1) + marker) :: owedBytes (owed + 1) code := by
  unfold String.utf8EncodeChar
  dsimp only
  rw [to_nat_of_valid valid]
  cases form with
  | two =>
      rw [if_neg (by omega), if_pos (by omega), Nat.mod_eq_of_lt (by omega)]
      simp [owedBytes]
  | three =>
      rw [if_neg (by omega), if_neg (by omega), if_pos (by omega), Nat.mod_eq_of_lt (by omega)]
      simp [owedBytes]
  | four =>
      rw [if_neg (by omega), if_neg (by omega), if_neg (by omega), Nat.mod_eq_of_lt (by omega)]
      simp [owedBytes]

theorem form_of_code {code : Nat} (valid : code.isValidChar) :
    code < 128 ∨ ∃ marker room owed least, Form marker room owed least ∧ least ≤ code ∧
      code / 64 ^ (owed + 1) < room := by
  have limit : code < 1114112 := by
    rcases valid with low | high
    · omega
    · omega
  rcases Nat.lt_or_ge code 128 with one | more
  · exact .inl one
  rcases Nat.lt_or_ge code 2048 with two | more
  · exact .inr ⟨_, _, _, _, .two, by omega, by omega⟩
  rcases Nat.lt_or_ge code 65536 with three | more
  · exact .inr ⟨_, _, _, _, .three, by omega, by omega⟩
  · exact .inr ⟨_, _, _, _, .four, by omega, by omega⟩

theorem decode_lead_ascii (low : byte.toNat < 128) :
    decodeLead byte = ([.char (Char.ofNat byte.toNat)], none) := by
  rw [decodeLead]
  exact if_pos low

/-- A byte starts a character of one byte or of one of the forms, or it is a fault. -/
theorem decode_lead_cases (byte : UInt8) :
    byte.toNat < 128 ∨ (decodeLead byte = ([.fault .invalidData], none)) ∨
      ∃ marker room owed least, Form marker room owed least ∧ marker ≤ byte.toNat ∧
        byte.toNat < marker + room := by
  rcases Nat.lt_or_ge byte.toNat 128 with one | more
  · exact .inl one
  right
  rcases Nat.lt_or_ge byte.toNat 192 with stray | more
  · left
    unfold decodeLead
    dsimp only
    rw [if_neg (by omega), if_pos (by omega)]
  rcases Nat.lt_or_ge byte.toNat 224 with two | more
  · exact .inr ⟨_, _, _, _, .two, by omega, by omega⟩
  rcases Nat.lt_or_ge byte.toNat 240 with three | more
  · exact .inr ⟨_, _, _, _, .three, by omega, by omega⟩
  rcases Nat.lt_or_ge byte.toNat 248 with four | more
  · exact .inr ⟨_, _, _, _, .four, by omega, by omega⟩
  · left
    unfold decodeLead
    dsimp only
    rw [if_neg (by omega), if_neg (by omega), if_neg (by omega), if_neg (by omega),
      if_neg (by omega)]

theorem encode_ascii {code : Nat} (low : code < 128) :
    String.utf8EncodeChar (Char.ofNat code) = [UInt8.ofNat code] := by
  have valid : code.isValidChar := .inl (by omega)
  unfold String.utf8EncodeChar
  dsimp only
  rw [to_nat_of_valid valid, if_pos (by omega)]

theorem decode_encoded_char (char : Char) (rest : List UInt8) :
    decodeFrom none (String.utf8EncodeChar char ++ rest) = .char char :: decodeFrom none rest := by
  have same : Char.ofNat char.val.toNat = char := Char.ofNat_toNat char
  rw [← same]
  have valid : char.val.toNat.isValidChar := char.valid
  generalize char.val.toNat = code at valid
  rcases form_of_code valid with low | ⟨marker, room, owed, least, form, above, below⟩
  · have value : (UInt8.ofNat code).toNat = code :=
      UInt8.toNat_ofNat_of_lt' (Nat.lt_trans low (by decide))
    rw [encode_ascii low, List.singleton_append, decodeFrom,
      decode_lead_ascii (by rw [value]; exact low), value]
    rfl
  · obtain ⟨value, group⟩ := form_lead form below
    rw [encode_form form valid above below, List.cons_append, decodeFrom,
      decode_lead_form form (by omega) (by omega), value, group, List.nil_append, decode_owed,
      finish_of_valid valid above]

theorem encoded_of_starts_clean {byte : UInt8} (starts : StartsClean (decode (byte :: rest))) :
    ∃ char behind, byte :: rest = String.utf8EncodeChar char ++ behind := by
  rw [decode, decodeFrom] at starts
  rcases decode_lead_cases byte with low | stray | ⟨marker, room, owed, least, form, above, below⟩
  · refine ⟨Char.ofNat byte.toNat, rest, ?_⟩
    rw [encode_ascii low, UInt8.ofNat_toNat]
    rfl
  · rw [stray] at starts
    obtain ⟨char, same⟩ := char_of_starts_clean starts
    cases same
  · obtain ⟨whole, small⟩ := form_split form above below
    rw [decode_lead_form form above below, List.nil_append] at starts
    obtain ⟨found, after, rfl, upper, valid, long⟩ := owed_of_starts_clean starts
    have encode := encode_form form valid long (by rw [upper]; exact small)
    refine ⟨Char.ofNat found, after, ?_⟩
    rw [encode, upper, whole, UInt8.ofNat_toNat, List.cons_append]

end Bytes

/-- What is assumed of a reader of characters: it takes one character after the other, and where the
bytes do not begin with one it lists a fault. -/
structure CharReader.Sound [CharReader] : Prop where
  ended : CharReader.pulls [] = []
  char : ∀ value rest, CharReader.pulls (String.utf8EncodeChar value ++ rest) =
    .char value :: CharReader.pulls rest
  fault : ∀ bytes, bytes ≠ [] → (∀ value rest, bytes ≠ String.utf8EncodeChar value ++ rest) →
    ∃ value behind, CharReader.pulls bytes = .fault value :: behind

theorem decode_sound : CharReader.Sound where
  ended := rfl
  char := decode_encoded_char
  fault bytes nonempty other := by
    cases bytes with
    | nil => exact absurd rfl nonempty
    | cons byte rest =>
        by_cases starts : StartsClean (decode (byte :: rest))
        · obtain ⟨char, behind, same⟩ := encoded_of_starts_clean starts
          exact absurd same (other char behind)
        · obtain ⟨value, behind, same⟩ : ∃ value behind,
              decode (byte :: rest) = .fault value :: behind := by simpa [StartsClean] using starts
          exact ⟨value, behind, same⟩

def Clean (pulls : List Pull) : Prop :=
  ∀ pull ∈ pulls, pull.fault? = none

section Reader

variable [CharReader] (sound : CharReader.Sound)
include sound

theorem pulls_encoded (text : List Char) :
    CharReader.pulls (encoded text) = text.map .char := by
  induction text with
  | nil => exact sound.ended
  | cons char text ih =>
      have first := sound.char char (encoded text)
      rw [ih] at first
      exact first

theorem encoded_of_clean (bytes : List UInt8) (clean : Clean (CharReader.pulls bytes)) :
    ∃ text, bytes = encoded text := by
  induction size : bytes.length using Nat.strongRecOn generalizing bytes with
  | ind count ih =>
      subst size
      by_cases nonempty : bytes = []
      · exact ⟨[], nonempty⟩
      by_cases starts : ∃ char rest, bytes = String.utf8EncodeChar char ++ rest
      · obtain ⟨char, rest, rfl⟩ := starts
        rw [sound.char] at clean
        have shorter : rest.length < (String.utf8EncodeChar char ++ rest).length := by
          have positive := String.length_utf8EncodeChar char ▸ char.utf8Size_pos
          rw [List.length_append]
          omega
        obtain ⟨text, rfl⟩ := ih _ shorter rest
          (fun pull found => clean pull (List.mem_cons_of_mem _ found)) rfl
        exact ⟨char :: text, rfl⟩
      · obtain ⟨value, behind, same⟩ := sound.fault bytes nonempty
          fun char rest same => starts ⟨char, rest, same⟩
        rw [same] at clean
        cases clean _ List.mem_cons_self

end Reader

end Treewalk
