import Treewalk.Proofs.Program.Erase
import Treewalk.Proofs.Session.Reached

/-!
# Accepted sources

The front end accepts what parses and has no stray exits. Whether an exit is stray does not depend
on places, and the stray exits of two programs in a row are those of each.
-/

namespace Treewalk

set_option autoImplicit false

theorem analyze_ok_iff {source : String} {program : Program} :
    (analyze source).result = .ok program ↔
      parse source = .ok program ∧ Stmt.strayExitsIn Context.top program = [] := by
  constructor
  · intro accepted
    obtain ⟨parsed, settled, -⟩ := analyze_accepted accepted
    exact ⟨parsed, settled⟩
  · rintro ⟨parsed, settled⟩
    have none : program.problems.errors = [] := by
      simp only [Program.problems, Program.problemsWith, Problems.sorted, settled,
        List.mergeSort_nil]
    unfold analyze checkParsed
    rw [parsed]
    dsimp only
    rw [none]

mutual

theorem length_stray_exits_erase (context : Context) (statement : Stmt) :
    (statement.erase.strayExits context).length = (statement.strayExits context).length := by
  cases statement with
  | expression value => rfl
  | print keyword value => rfl
  | declare name initial => rfl
  | block body location => exact length_stray_exits_in_erase context body
  | ifThen keyword condition consequent => exact length_stray_exits_erase context consequent
  | ifElse keyword condition consequent alternative =>
      simp only [Stmt.erase, Stmt.strayExits, List.length_append]
      rw [length_stray_exits_erase context consequent, length_stray_exits_erase context alternative]
  | loop keyword condition body => exact length_stray_exits_erase context.loop body
  | function name parameters body => exact length_stray_exits_in_erase Context.body body
  | returnValue keyword value =>
      unfold Stmt.erase Stmt.strayExits
      split <;> rfl
  | breakLoop keyword =>
      unfold Stmt.erase Stmt.strayExits
      split <;> rfl

theorem length_stray_exits_in_erase (context : Context) (body : List Stmt) :
    (Stmt.strayExitsIn context (Stmt.eraseAll body)).length =
      (Stmt.strayExitsIn context body).length := by
  cases body with
  | nil => rfl
  | cons first rest =>
      simp only [Stmt.eraseAll, Stmt.strayExitsIn, List.length_append]
      rw [length_stray_exits_erase context first, length_stray_exits_in_erase context rest]

end

/-- Programs that differ in places only have no stray exits, or both have some. -/
theorem settled_of_erase {program twin : Program} (context : Context)
    (same : Program.erase program = Program.erase twin)
    (settled : Stmt.strayExitsIn context program = []) : Stmt.strayExitsIn context twin = [] := by
  have counted := length_stray_exits_in_erase context program
  rw [show Stmt.eraseAll program = Stmt.eraseAll twin from same,
    length_stray_exits_in_erase context twin, settled] at counted
  exact List.length_eq_zero_iff.mp counted

theorem stray_exits_in_append (context : Context) (program more : Program) :
    Stmt.strayExitsIn context (program ++ more) =
      Stmt.strayExitsIn context program ++ Stmt.strayExitsIn context more := by
  induction program with
  | nil => rfl
  | cons first rest ih => simp only [List.cons_append, Stmt.strayExitsIn, ih, List.append_assoc]

end Treewalk
