import Treewalk.Source.Span

/-!
# Positions behind a text

The length of a text in front of another one is a position between two characters; the newlines
before it are those of the text in front.
-/

namespace Treewalk

set_option autoImplicit false

theorem byte_length_cons (char : Char) (text : List Char) :
    byteLength (char :: text) = char.utf8Size + byteLength text :=
  rfl

theorem byte_length_append (left right : List Char) :
    byteLength (left ++ right) = byteLength left + byteLength right := by
  induction left with
  | nil => exact (Nat.zero_add _).symm
  | cons char left ih =>
      rw [List.cons_append, byte_length_cons, byte_length_cons, ih, Nat.add_assoc]

theorem byte_length_pos {text : List Char} (nonempty : text ≠ []) : 0 < byteLength text := by
  cases text with
  | nil => exact absurd rfl nonempty
  | cons char text =>
      rw [byte_length_cons]
      exact Nat.add_pos_left char.utf8Size_pos _

theorem byte_length_to_list (source : String) : byteLength source.toList = source.utf8ByteSize := by
  rw [← String.ofList_toList (s := source), String.toList_ofList]
  induction source.toList with
  | nil => rfl
  | cons char text ih =>
      rw [byte_length_cons, ih]
      simp

theorem newlines_append (left right : List Char) :
    newlines (left ++ right) = newlines left + newlines right :=
  List.count_append

theorem boundary_behind (before after : List Char) :
    isBoundary (byteLength before) (before ++ after) = true := by
  induction before with
  | nil => cases after <;> rfl
  | cons char before ih =>
      rw [List.cons_append, isBoundary, byte_length_cons, Nat.add_sub_cancel_left, ih]
      simp

/-- No position between two characters lies behind the end of the text. -/
theorem le_of_boundary {position : Nat} {text : List Char}
    (boundary : isBoundary position text = true) :
    position ≤ byteLength text := by
  induction text generalizing position with
  | nil =>
      rw [beq_iff_eq.mp boundary]
      exact Nat.le_refl _
  | cons char text ih =>
      rw [isBoundary, Bool.or_eq_true, Bool.and_eq_true, beq_iff_eq, decide_eq_true_eq] at boundary
      rw [byte_length_cons]
      rcases boundary with isStart | ⟨behind, later⟩
      · omega
      · have less := ih later
        omega

theorem newlines_before_behind (before after : List Char) :
    newlinesBefore (byteLength before) (before ++ after) = newlines before := by
  induction before with
  | nil => cases after <;> rfl
  | cons char before ih =>
      have positive := char.utf8Size_pos
      rw [List.cons_append, newlinesBefore, byte_length_cons, Nat.add_sub_cancel_left, ih,
        if_neg (by omega)]
      simp only [newlines, List.count_cons, beq_iff_eq]
      omega

end Treewalk
