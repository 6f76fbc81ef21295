import Mathlib.Logic.Relation
import Treewalk.Proofs.Check.Edit
import Treewalk.Proofs.Program.Variables

/-!
# What the report of an unread variable says about the text

While a variable is open, reading its name marks it; once it is marked, nothing is reported at its
place any more. Seen from outside, a statement does nothing else to the open scopes than mark some
names. So if a variable is reported, no statement behind its declaration looks its name up before
the name is declared anew. What stands in front of the declaration is not covered by this.
-/

namespace Treewalk

set_option autoImplicit false

namespace Usage

def Absent (place : Span) (scopes : List (List Local)) : Prop :=
  ∀ layer ∈ scopes, ∀ seen ∈ layer, seen.location ≠ place

/-- Nothing has been reported at the place, nor will it be: every open variable at the place has
been read, and there is one only if `present`. -/
structure Quiet (place : Span) (present : Prop) (usage : Usage) : Prop where
  read : ∀ layer ∈ usage.scopes, ∀ seen ∈ layer, seen.location = place → present ∧ seen.used = true
  silent : ∀ warning ∈ usage.found, warning.location ≠ place

def Awaited (name : String) (place : Span) : List (List Local) → Prop
  | [] => True
  | inner :: outer =>
      (∀ seen ∈ inner, seen.location = place → seen.name = name) ∧
        (Absent place outer ∨ (∀ seen ∈ inner, seen.name ≠ name) ∧ Awaited name place outer)

structure Awaits (name : String) (place : Span) (usage : Usage) : Prop where
  open_ : Awaited name place usage.scopes
  silent : ∀ warning ∈ usage.found, warning.location ≠ place

def Marks : List (List Local) → List (List Local) → Prop :=
  Relation.ReflTransGen fun before after => ∃ name, after = markIn name before

/-- The effect of a statement on what is open around it, as far as one place is concerned: names
have been marked, and nothing has been reported there. -/
structure Grows (place : Span) (before after : Usage) : Prop where
  scopes : Marks before.scopes after.scopes
  silent : ∀ warning ∈ after.found, warning.location = place → warning ∈ before.found

section Marking

variable {name other : String} {place : Span} {present : Prop}

/-- Marking changes a variable of the innermost scope or leaves that scope alone. -/
theorem mark_in_cons (name : String) (inner : List Local) (outer : List (List Local)) :
    (∃ seen ∈ inner, seen.name = name) ∧
        markIn name (inner :: outer) = (inner.map fun declared =>
          if declared.name = name then { declared with used := true } else declared) :: outer ∨
      (∀ seen ∈ inner, seen.name ≠ name) ∧
        markIn name (inner :: outer) = inner :: markIn name outer := by
  rw [markIn]
  split
  · rename_i present
    exact .inl ⟨by simpa using present, rfl⟩
  · rename_i missing
    exact .inr ⟨by simpa using missing, rfl⟩

/-- A marked scope has the variables that it had; one that was read stays read. -/
theorem mem_marked {inner : List Local} {seen : Local}
    (inside : seen ∈ inner.map fun declared =>
      if declared.name = name then { declared with used := true } else declared) :
    ∃ earlier ∈ inner, earlier.name = seen.name ∧ earlier.location = seen.location ∧
      (earlier.used = true → seen.used = true) ∧ (earlier.name = name → seen.used = true) := by
  obtain ⟨earlier, among, rfl⟩ := List.mem_map.mp inside
  refine ⟨earlier, among, ?_⟩
  split
  · exact ⟨rfl, rfl, fun _ => rfl, fun _ => rfl⟩
  · rename_i different
    exact ⟨rfl, rfl, id, fun same => absurd same different⟩

theorem mem_mark_in {scopes : List (List Local)} {layer : List Local} {seen : Local}
    (open_ : layer ∈ markIn name scopes) (inside : seen ∈ layer) :
    ∃ earlier ∈ scopes, ∃ before ∈ earlier, before.location = seen.location ∧
      (before.used = true → seen.used = true) := by
  induction scopes with
  | nil => cases open_
  | cons inner outer ih =>
      rcases mark_in_cons name inner outer with ⟨-, same⟩ | ⟨-, same⟩
      · rw [same] at open_
        rcases List.mem_cons.mp open_ with rfl | open_
        · obtain ⟨before, among, -, location, used, -⟩ := mem_marked inside
          exact ⟨inner, List.mem_cons_self, before, among, location, used⟩
        · exact ⟨layer, List.mem_cons_of_mem _ open_, seen, inside, rfl, id⟩
      · rw [same] at open_
        rcases List.mem_cons.mp open_ with rfl | open_
        · exact ⟨layer, List.mem_cons_self, seen, inside, rfl, id⟩
        · obtain ⟨earlier, among, found⟩ := ih open_
          exact ⟨earlier, List.mem_cons_of_mem _ among, found⟩

theorem Absent.mark {scopes : List (List Local)} (absent : Absent place scopes) :
    Absent place (markIn name scopes) := by
  intro layer open_ seen inside
  obtain ⟨earlier, among, before, found, location, -⟩ := mem_mark_in open_ inside
  rw [← location]
  exact absent earlier among before found

theorem Awaited.mark {scopes : List (List Local)} (awaited : Awaited name place scopes) :
    Awaited name place (markIn other scopes) := by
  induction scopes with
  | nil => trivial
  | cons inner outer ih =>
      obtain ⟨here, around⟩ := awaited
      rcases mark_in_cons other inner outer with ⟨-, same⟩ | ⟨-, same⟩
      · rw [same]
        refine ⟨?_, around.imp_right fun further => ⟨?_, further.2⟩⟩
        · intro seen inside
          obtain ⟨before, among, isName, location, -⟩ := mem_marked inside
          rw [← isName, ← location]
          exact here before among
        · intro seen inside
          obtain ⟨before, among, isName, -⟩ := mem_marked inside
          rw [← isName]
          exact further.1 before among
      · rw [same]
        exact ⟨here, around.imp Absent.mark fun further => ⟨further.1, ih further.2⟩⟩

theorem Awaited.read {scopes : List (List Local)} (awaited : Awaited name place scopes) :
    ∀ layer ∈ markIn name scopes, ∀ seen ∈ layer, seen.location = place → seen.used = true := by
  induction scopes with
  | nil => exact nofun
  | cons inner outer ih =>
      obtain ⟨here, around⟩ := awaited
      intro layer open_ seen inside location
      rcases mark_in_cons name inner outer with ⟨⟨bound, among, isBound⟩, same⟩ | ⟨missing, same⟩
      · rw [same] at open_
        rcases List.mem_cons.mp open_ with rfl | open_
        · obtain ⟨before, found, -, unmoved, -, marked⟩ := mem_marked inside
          exact marked (here before found (unmoved.trans location))
        · rcases around with absent | ⟨free, -⟩
          · exact absurd location (absent layer open_ seen inside)
          · exact absurd isBound (free bound among)
      · rw [same] at open_
        rcases List.mem_cons.mp open_ with rfl | open_
        · exact absurd (here seen inside location) (missing seen inside)
        · rcases around with absent | ⟨-, further⟩
          · exact absurd location (absent.mark layer open_ seen inside)
          · exact ih further layer open_ seen inside location

theorem Marks.of_nil {after : List (List Local)} (marks : Marks [] after) : after = [] := by
  induction marks with
  | refl => rfl
  | tail _ step ih =>
      obtain ⟨marked, rfl⟩ := step
      rw [ih]
      rfl

theorem Marks.split {inner : List Local} {outer after : List (List Local)}
    (marks : Marks (inner :: outer) after) :
    ∃ innerToo outerToo, after = innerToo :: outerToo ∧ Marks outer outerToo ∧
      ∀ seen ∈ innerToo, ∃ earlier ∈ inner, earlier.location = seen.location := by
  induction marks with
  | refl => exact ⟨inner, outer, rfl, .refl, fun seen inside => ⟨seen, inside, rfl⟩⟩
  | tail _ step ih =>
      obtain ⟨innerToo, outerToo, rfl, around, known⟩ := ih
      obtain ⟨marked, rfl⟩ := step
      rcases mark_in_cons marked innerToo outerToo with ⟨-, same⟩ | ⟨-, same⟩
      · refine ⟨_, outerToo, same, around, ?_⟩
        intro seen inside
        obtain ⟨before, among, -, location, -⟩ := mem_marked inside
        obtain ⟨earlier, found, unmoved⟩ := known before among
        exact ⟨earlier, found, unmoved.trans location⟩
      · exact ⟨innerToo, _, same, around.tail ⟨marked, rfl⟩, known⟩

end Marking

namespace Grows

variable {place : Span} {present : Prop} {name : String} {usage before between after : Usage}

theorem refl (place : Span) (usage : Usage) : usage.Grows place usage :=
  ⟨.refl, fun _ found _ => found⟩

theorem trans (first : before.Grows place between) (second : between.Grows place after) :
    before.Grows place after :=
  ⟨first.scopes.trans second.scopes, fun warning found location =>
    first.silent warning (second.silent warning found location) location⟩

theorem mark (place : Span) (usage : Usage) (name : String) : usage.Grows place (usage.mark name) :=
  ⟨.single ⟨name, rfl⟩, fun _ found _ => found⟩

theorem read_all (place : Span) (usage : Usage) (expression : Expr) :
    usage.Grows place (usage.readAll expression) := by
  unfold readAll
  generalize expression.reads = names
  induction names generalizing usage with
  | nil => exact .refl place usage
  | cons name names ih => exact (mark place usage name).trans (ih (usage.mark name))

theorem quiet (grows : before.Grows place after) (quiet : before.Quiet place present) :
    after.Quiet place present := by
  refine ⟨?_, fun warning found location =>
    quiet.silent warning (grows.silent warning found location) location⟩
  have read := quiet.read
  have marks := grows.scopes
  generalize after.scopes = scopes at marks
  induction marks with
  | refl => exact read
  | tail _ step ih =>
      obtain ⟨marked, rfl⟩ := step
      intro layer open_ seen inside location
      obtain ⟨earlier, among, old, found, unmoved, used⟩ := mem_mark_in open_ inside
      exact (ih earlier among old found (unmoved.trans location)).imp_right used

theorem awaits (grows : before.Grows place after) (awaits : before.Awaits name place) :
    after.Awaits name place := by
  refine ⟨?_, fun warning found location =>
    awaits.silent warning (grows.silent warning found location) location⟩
  have marks := grows.scopes
  generalize after.scopes = scopes at marks
  induction marks with
  | refl => exact awaits.open_
  | tail _ step ih =>
      obtain ⟨marked, rfl⟩ := step
      exact ih.mark

end Grows

section Steps

variable {place location : Span} {present : Prop} {name other : String} {usage : Usage}

theorem Awaits.read_all (awaits : usage.Awaits name place) {expression : Expr}
    (reads : expression.looksUp true name = true) :
    (usage.readAll expression).Quiet place True := by
  have among : name ∈ expression.reads := by simpa [Expr.looksUp] using reads
  obtain ⟨before, behind, split⟩ := List.append_of_mem among
  have earlier : usage.Grows place (before.foldl Usage.mark usage) := by
    clear split
    induction before generalizing usage with
    | nil => exact .refl place usage
    | cons first rest ih =>
        have marked := Grows.mark place usage first
        exact marked.trans (ih (marked.awaits awaits))
  have waiting := earlier.awaits awaits
  have settled : ((before.foldl Usage.mark usage).mark name).Quiet place True :=
    ⟨fun layer open_ seen inside at_ => ⟨trivial, waiting.open_.read layer open_ seen inside at_⟩,
      waiting.silent⟩
  unfold readAll
  rw [split, List.foldl_append, List.foldl_cons]
  generalize (before.foldl Usage.mark usage).mark name = marked at settled
  clear split
  induction behind generalizing marked with
  | nil => exact settled
  | cons first rest ih =>
      exact ih (marked.mark first) ((Grows.mark place marked first).quiet settled)

theorem warning_of_local {warning : Warning} {layer : List Local}
    (reported : warning ∈ layer.filterMap Local.warning?) :
    ∃ seen ∈ layer, seen.used = false ∧ seen.location = warning.location := by
  obtain ⟨seen, inside, reported⟩ := List.mem_filterMap.mp reported
  unfold Local.warning? at reported
  split at reported
  · cases reported
  · rename_i unread
    cases reported
    exact ⟨seen, inside, by simpa using unread, rfl⟩

theorem silent_of_read {found : List Warning} {layer : List Local}
    (silent : ∀ warning ∈ found, warning.location ≠ place)
    (read : ∀ seen ∈ layer, seen.location = place → seen.used = true) :
    ∀ warning ∈ found ++ layer.filterMap Local.warning?, warning.location ≠ place := by
  intro warning reported at_
  rcases List.mem_append.mp reported with earlier | reported
  · exact silent warning earlier at_
  · obtain ⟨seen, inside, unread, location⟩ := warning_of_local reported
    rw [read seen inside (location.trans at_)] at unread
    cases unread

theorem declare_outside (outside : usage.scopes = []) : usage.declare name location = usage := by
  unfold Usage.declare
  rw [outside]

theorem Quiet.declare (quiet : usage.Quiet place present) (elsewhere : location ≠ place) :
    (usage.declare name location).Quiet place present := by
  unfold Usage.declare
  split
  · exact quiet
  · rename_i inner outer scopes
    have here := quiet.read inner (by simp [scopes])
    refine ⟨?_, silent_of_read quiet.silent fun seen inside at_ =>
      (here seen (List.mem_filter.mp inside).1 at_).2⟩
    intro layer open_ seen inside at_
    rcases List.mem_cons.mp open_ with rfl | open_
    · rcases List.mem_append.mp inside with kept | new
      · exact here seen (List.mem_filter.mp kept).1 at_
      · rw [List.mem_singleton.mp new] at at_
        exact absurd at_ elsewhere
    · exact quiet.read layer (by simp [scopes, open_]) seen inside at_

theorem Quiet.open_scope (quiet : usage.Quiet place present) :
    usage.openScope.Quiet place present := by
  refine ⟨?_, quiet.silent⟩
  intro layer open_ seen inside
  rcases List.mem_cons.mp open_ with rfl | open_
  · cases inside
  · exact quiet.read layer open_ seen inside

theorem Quiet.close_scope (quiet : usage.Quiet place present) :
    (usage.closeScope id).Quiet place present := by
  unfold closeScope
  split
  · exact quiet
  · rename_i inner outer scopes
    refine ⟨?_, silent_of_read quiet.silent fun seen inside at_ =>
      (quiet.read inner (by simp [scopes]) seen inside at_).2⟩
    exact fun layer open_ => quiet.read layer (by simp [scopes, open_])

theorem Awaits.open_scope (awaits : usage.Awaits name place) :
    usage.openScope.Awaits name place :=
  ⟨⟨nofun, .inr ⟨nofun, awaits.open_⟩⟩, awaits.silent⟩

/-- Declaring another name elsewhere leaves the awaited variable visible. -/
theorem Awaits.declare (awaits : usage.Awaits name place) (different : other ≠ name)
    (elsewhere : location ≠ place) : (usage.declare other location).Awaits name place := by
  unfold Usage.declare
  split
  · exact awaits
  · rename_i inner outer scopes
    have awaited := awaits.open_
    rw [scopes] at awaited
    obtain ⟨named, around⟩ := awaited
    constructor
    · refine ⟨?_, around.imp_right fun further => ⟨?_, further.2⟩⟩
      · intro seen inside at_
        rcases List.mem_append.mp inside with kept | new
        · exact named seen (List.mem_filter.mp kept).1 at_
        · rw [List.mem_singleton.mp new] at at_
          exact absurd at_ elsewhere
      · intro seen inside
        rcases List.mem_append.mp inside with kept | new
        · exact further.1 seen (List.mem_filter.mp kept).1
        · rw [List.mem_singleton.mp new]
          exact different
    · apply silent_of_read awaits.silent
      intro seen inside at_
      obtain ⟨among, isOther⟩ := List.mem_filter.mp inside
      exact absurd ((of_decide_eq_true isOther).symm.trans (named seen among at_)) different

theorem Quiet.await (quiet : usage.Quiet place False) (name : String) :
    (usage.declare name place).Awaits name place := by
  unfold Usage.declare
  split
  · rename_i scopes
    refine ⟨?_, quiet.silent⟩
    rw [scopes]
    trivial
  · rename_i inner outer scopes
    have here := quiet.read inner (by simp [scopes])
    refine ⟨⟨?_, .inl ?_⟩, silent_of_read quiet.silent fun seen inside at_ =>
      (here seen (List.mem_filter.mp inside).1 at_).2⟩
    · intro seen inside at_
      rcases List.mem_append.mp inside with kept | new
      · exact (here seen (List.mem_filter.mp kept).1 at_).1.elim
      · rw [List.mem_singleton.mp new]
    · intro layer open_ seen inside at_
      exact (quiet.read layer (by simp [scopes, open_]) seen inside at_).1.elim

/-- The scopes around one that was opened on `start`, as far as one place is concerned: names have
been marked in them, and neither has anything been reported at the place nor is it open further in.
-/
structure Within (place : Span) (usage start : Usage) : Prop where
  scopes : ∃ inner outer, usage.scopes = inner :: outer ∧ Marks start.scopes outer ∧
    ∀ seen ∈ inner, seen.location ≠ place
  silent : ∀ warning ∈ usage.found, warning.location = place → warning ∈ start.found

namespace Within

variable {start after : Usage}

theorem open_scope (place : Span) (start : Usage) : start.openScope.Within place start :=
  ⟨⟨[], start.scopes, rfl, .refl, nofun⟩, fun _ found _ => found⟩

theorem grows (within : usage.Within place start) (grows : usage.Grows place after) :
    after.Within place start := by
  obtain ⟨inner, outer, scopes, marks, absent⟩ := within.scopes
  have further := grows.scopes
  rw [scopes] at further
  obtain ⟨innerToo, outerToo, same, around, known⟩ := further.split
  refine ⟨⟨innerToo, outerToo, same, marks.trans around, ?_⟩, fun warning found at_ =>
    within.silent warning (grows.silent warning found at_) at_⟩
  intro seen inside
  obtain ⟨earlier, among, unmoved⟩ := known seen inside
  rw [← unmoved]
  exact absent earlier among

theorem declare (within : usage.Within place start) (elsewhere : location ≠ place) :
    (usage.declare name location).Within place start := by
  obtain ⟨inner, outer, scopes, marks, absent⟩ := within.scopes
  unfold Usage.declare
  rw [scopes]
  refine ⟨⟨_, outer, rfl, marks, ?_⟩, ?_⟩
  · intro seen inside
    rcases List.mem_append.mp inside with kept | new
    · exact absent seen (List.mem_filter.mp kept).1
    · rw [List.mem_singleton.mp new]
      exact elsewhere
  · intro warning found at_
    rcases List.mem_append.mp found with earlier | reported
    · exact within.silent warning earlier at_
    · obtain ⟨seen, inside, -, same⟩ := warning_of_local reported
      exact absurd (same.trans at_) (absent seen (List.mem_filter.mp inside).1)

theorem close_scope (within : usage.Within place start) :
    start.Grows place (usage.closeScope id) := by
  obtain ⟨inner, outer, scopes, marks, absent⟩ := within.scopes
  unfold closeScope
  rw [scopes]
  refine ⟨marks, ?_⟩
  intro warning found at_
  rcases List.mem_append.mp found with earlier | reported
  · exact within.silent warning earlier at_
  · obtain ⟨seen, inside, -, same⟩ := warning_of_local reported
    exact absurd (same.trans at_) (absent seen inside)

end Within

end Steps

end Usage

namespace Stmt

open Usage

def Avoids (place : Span) (names : List Token) : Prop :=
  ∀ name ∈ names, name.span ≠ place

section Frames

variable {place : Span}

theorem Avoids.left {names more : List Token} (avoids : Avoids place (names ++ more)) :
    Avoids place names :=
  fun name inside => avoids name (List.mem_append_left more inside)

theorem Avoids.right {names more : List Token} (avoids : Avoids place (names ++ more)) :
    Avoids place more :=
  fun name inside => avoids name (List.mem_append_right names inside)

mutual

/-- Seen from outside, a statement only marks names, unless it is a declaration. -/
theorem track_grows (statement : Stmt) (usage : Usage) (plain : statement.Plain)
    (orderly : statement.Orderly Plain) (avoids : Avoids place statement.declared) :
    usage.Grows place (statement.track id usage) := by
  cases statement with
  | expression value => exact .read_all place usage value
  | print keyword value => exact .read_all place usage value
  | declare name initial => cases plain
  | block body location =>
      exact (track_all_within body (.open_scope place usage) orderly avoids).close_scope
  | ifThen keyword condition consequent =>
      have first := Grows.read_all place usage condition
      exact first.trans (track_grows consequent _ orderly.1 orderly.2 avoids)
  | ifElse keyword condition consequent alternative =>
      have first := Grows.read_all place usage condition
      have second := track_grows consequent (usage.readAll condition) orderly.1.1 orderly.1.2
        avoids.left
      exact (first.trans second).trans
        (track_grows alternative _ orderly.2.1 orderly.2.2 avoids.right)
  | loop keyword condition body =>
      have first := Grows.read_all place usage condition
      exact first.trans (track_grows body _ orderly.1 orderly.2 avoids)
  | function name parameters body =>
      exact (track_all_within body (.open_scope place usage) orderly avoids).close_scope
  | returnValue keyword value =>
      cases value with
      | none => exact .refl place usage
      | some value => exact .read_all place usage value
  | breakLoop keyword => exact .refl place usage

/-- Statements in a scope of their own only mark names of the scopes around it. -/
theorem track_all_within {start usage : Usage} (body : List Stmt)
    (within : usage.Within place start) (orderly : AllOrderly Plain body)
    (avoids : Avoids place (declaredIn body)) : (trackAll id body usage).Within place start := by
  cases body with
  | nil => exact within
  | cons first rest =>
      apply track_all_within rest _ orderly.2 avoids.right
      cases first with
      | declare name initial =>
          have elsewhere : name.span ≠ place := avoids name List.mem_cons_self
          cases initial with
          | none => exact within.declare elsewhere
          | some initial => exact (within.grows (.read_all place usage initial)).declare elsewhere
      | _ => exact within.grows (track_grows _ usage (by trivial) orderly.1 avoids.left)

end

theorem track_quiet {present : Prop} {usage : Usage} (statement : Stmt)
    (quiet : usage.Quiet place present) (orderly : statement.Orderly Plain)
    (avoids : Avoids place statement.declared) :
    (statement.track id usage).Quiet place present := by
  cases statement with
  | declare name initial =>
      have elsewhere : name.span ≠ place := avoids name List.mem_cons_self
      cases initial with
      | none => exact quiet.declare elsewhere
      | some initial => exact ((Grows.read_all place usage initial).quiet quiet).declare elsewhere
  | _ => exact (track_grows _ usage (by trivial) orderly avoids).quiet quiet

theorem track_all_quiet {present : Prop} {usage : Usage} (body : List Stmt)
    (quiet : usage.Quiet place present) (orderly : AllOrderly Plain body)
    (avoids : Avoids place (declaredIn body)) : (trackAll id body usage).Quiet place present := by
  induction body generalizing usage with
  | nil => exact quiet
  | cons first rest ih =>
      exact ih (track_quiet first quiet orderly.1 avoids.left) orderly.2 avoids.right

end Frames

section Readings

variable {name : String} {place : Span}

mutual

theorem track_settles (statement : Stmt) {usage : Usage} (plain : statement.Plain)
    (orderly : statement.Orderly Plain) (avoids : Avoids place statement.declared)
    (awaits : usage.Awaits name place) (reads : statement.looksUp true name = true) :
    (statement.track id usage).Quiet place True := by
  cases statement with
  | expression value => exact awaits.read_all reads
  | print keyword value => exact awaits.read_all reads
  | declare token initial => cases plain
  | block body location =>
      exact (track_all_settles body orderly avoids awaits.open_scope reads).close_scope
  | ifThen keyword condition consequent =>
      rcases Bool.or_eq_true_iff.mp reads with reads | reads
      · exact track_quiet consequent (awaits.read_all reads) orderly.2 avoids
      · have still := (Grows.read_all place usage condition).awaits awaits
        exact track_settles consequent orderly.1 orderly.2 avoids still reads
  | ifElse keyword condition consequent alternative =>
      have still := (Grows.read_all place usage condition).awaits awaits
      rcases Bool.or_eq_true_iff.mp reads with reads | reads
      · apply track_quiet alternative _ orderly.2.2 avoids.right
        rcases Bool.or_eq_true_iff.mp reads with reads | reads
        · exact track_quiet consequent (awaits.read_all reads) orderly.1.2 avoids.left
        · exact track_settles consequent orderly.1.1 orderly.1.2 avoids.left still reads
      · have further := track_grows consequent (usage.readAll condition) orderly.1.1 orderly.1.2
          avoids.left
        exact track_settles alternative orderly.2.1 orderly.2.2 avoids.right (further.awaits still)
          reads
  | loop keyword condition body =>
      rcases Bool.or_eq_true_iff.mp reads with reads | reads
      · exact track_quiet body (awaits.read_all reads) orderly.2 avoids
      · have still := (Grows.read_all place usage condition).awaits awaits
        exact track_settles body orderly.1 orderly.2 avoids still reads
  | function token parameters body =>
      have inside := (Bool.and_eq_true_iff.mp reads).2
      exact (track_all_settles body orderly avoids awaits.open_scope inside).close_scope
  | returnValue keyword value =>
      cases value with
      | none => cases reads
      | some value => exact awaits.read_all reads
  | breakLoop keyword => cases reads

theorem track_all_settles (body : List Stmt) {usage : Usage} (orderly : AllOrderly Plain body)
    (avoids : Avoids place (declaredIn body)) (awaits : usage.Awaits name place)
    (reads : looksUpIn true name body = true) : (trackAll id body usage).Quiet place True := by
  cases body with
  | nil => cases reads
  | cons first rest =>
      rcases Bool.or_eq_true_iff.mp reads with reads | reads
      · apply track_all_quiet rest _ orderly.2 avoids.right
        cases first with
        | declare token initial =>
            cases initial with
            | none => cases reads
            | some initial =>
                exact (awaits.read_all reads).declare (avoids token List.mem_cons_self)
        | _ => exact track_settles _ (by trivial) orderly.1 avoids.left awaits reads
      · obtain ⟨open_, reads⟩ := Bool.and_eq_true_iff.mp reads
        apply track_all_settles rest orderly.2 avoids.right _ reads
        cases first with
        | declare token initial =>
            have elsewhere : token.span ≠ place := avoids token List.mem_cons_self
            have different : token.lexeme ≠ name := by simpa [declares] using open_
            cases initial with
            | none => exact awaits.declare different elsewhere
            | some initial =>
                have still := (Grows.read_all place usage initial).awaits awaits
                exact still.declare different elsewhere
        | _ => exact (track_grows _ usage (by trivial) orderly.1 avoids.left).awaits awaits

end

end Readings

def Apart (names : List Token) : Prop :=
  names.Pairwise fun name later => name.span ≠ later.span

section Reports

variable {name : Token}

theorem Apart.avoids_right {names more : List Token} (apart : Apart (names ++ more))
    (inside : name ∈ names) : Avoids name.span more :=
  fun later among => ((List.pairwise_append.mp apart).2.2 name inside later among).symm

theorem Apart.avoids_left {names more : List Token} (apart : Apart (names ++ more))
    (inside : name ∈ more) : Avoids name.span names :=
  fun earlier among => (List.pairwise_append.mp apart).2.2 earlier among name inside

theorem Apart.left {names more : List Token} (apart : Apart (names ++ more)) : Apart names :=
  (List.pairwise_append.mp apart).1

theorem Apart.right {names more : List Token} (apart : Apart (names ++ more)) : Apart more :=
  (List.pairwise_append.mp apart).2.1

theorem track_all_append (before behind : List Stmt) (usage : Usage) :
    trackAll id (before ++ behind) usage = trackAll id behind (trackAll id before usage) := by
  induction before generalizing usage with
  | nil => rfl
  | cons first rest ih => exact ih (first.track id usage)

theorem ReadBehind.quiet {body : List Stmt} {usage : Usage} (read : ReadBehind name body)
    (orderly : AllOrderly Plain body) (apart : Apart (declaredIn body))
    (fresh : usage.Quiet name.span False) : (trackAll id body usage).Quiet name.span True := by
  obtain ⟨before, initial, behind, rfl, reads⟩ := read
  rw [declared_in_append] at apart
  obtain ⟨orderlyBefore, -, orderlyBehind⟩ := all_orderly_append orderly
  have further : Apart ([name] ++ declaredIn behind) := apart.right
  have avoidsBehind := further.avoids_right List.mem_cons_self
  have earlier := track_all_quiet before fresh orderlyBefore
    (apart.avoids_left List.mem_cons_self)
  rw [track_all_append]
  apply track_all_settles behind orderlyBehind avoidsBehind _ reads
  cases initial with
  | none => exact earlier.await name.lexeme
  | some initial =>
      exact ((Grows.read_all name.span _ initial).quiet earlier).await name.lexeme

mutual

/-- A variable that is read behind its declaration, anywhere in the statement, is not reported. -/
theorem track_read (statement : Stmt) {usage : Usage} {body : List Stmt}
    (inside : body ∈ statement.bodies) (read : ReadBehind name body)
    (orderly : statement.Orderly Plain)
    (apart : Apart statement.declared) (fresh : usage.Quiet name.span False) :
    (statement.track id usage).Quiet name.span True := by
  cases statement with
  | expression value => cases inside
  | print keyword value => cases inside
  | declare token initial => cases inside
  | block inner location =>
      apply Quiet.close_scope
      rcases List.mem_cons.mp inside with rfl | inside
      · exact read.quiet orderly apart fresh.open_scope
      · exact track_all_read inner inside read orderly apart fresh.open_scope
  | ifThen keyword condition consequent =>
      have still := (Grows.read_all name.span usage condition).quiet fresh
      exact track_read consequent inside read orderly.2 apart still
  | ifElse keyword condition consequent alternative =>
      have still := (Grows.read_all name.span usage condition).quiet fresh
      rcases List.mem_append.mp inside with inside | inside
      · have settled := track_read consequent inside read orderly.1.2 apart.left still
        exact track_quiet alternative settled orderly.2.2
          (apart.avoids_right (declared_of_bodies consequent inside read.declared))
      · have further := track_quiet consequent still orderly.1.2
          (apart.avoids_left (declared_of_bodies alternative inside read.declared))
        exact track_read alternative inside read orderly.2.2 apart.right further
  | loop keyword condition repeated =>
      have still := (Grows.read_all name.span usage condition).quiet fresh
      exact track_read repeated inside read orderly.2 apart still
  | function token parameters inner =>
      apply Quiet.close_scope
      rcases List.mem_cons.mp inside with rfl | inside
      · exact read.quiet orderly apart fresh.open_scope
      · exact track_all_read inner inside read orderly apart fresh.open_scope
  | returnValue keyword value => cases inside
  | breakLoop keyword => cases inside

theorem track_all_read (statements : List Stmt) {usage : Usage} {body : List Stmt}
    (inside : body ∈ bodiesIn statements) (read : ReadBehind name body)
    (orderly : AllOrderly Plain statements) (apart : Apart (declaredIn statements))
    (fresh : usage.Quiet name.span False) :
    (trackAll id statements usage).Quiet name.span True := by
  cases statements with
  | nil => cases inside
  | cons first rest =>
      rcases List.mem_append.mp inside with inside | inside
      · have settled := track_read first inside read orderly.1 apart.left fresh
        exact track_all_quiet rest settled orderly.2
          (apart.avoids_right (declared_of_bodies first inside read.declared))
      · have still := track_quiet first fresh orderly.1
          (apart.avoids_left (declared_in_of_bodies_in rest inside read.declared))
        exact track_all_read rest inside read orderly.2 apart.right still

end

theorem track_all_outside {place : Span} {statements : List Stmt} {usage : Usage}
    (orderly : AllOrderly Plain statements) (avoids : Avoids place (declaredIn statements))
    (outside : usage.scopes = []) : (trackAll id statements usage).scopes = [] := by
  induction statements generalizing usage with
  | nil => exact outside
  | cons first rest ih =>
      have grown : ∀ after, usage.Grows place after → after.scopes = [] := by
        intro after grows
        have marks := grows.scopes
        rw [outside] at marks
        exact marks.of_nil
      apply ih orderly.2 avoids.right
      cases first with
      | declare name initial =>
          cases initial with
          | none =>
              rw [track, declare_outside outside]
              exact outside
          | some initial =>
              have read := grown _ (.read_all place usage initial)
              rw [track, declare_outside read]
              exact read
      | _ => exact grown _ (track_grows _ usage (by trivial) orderly.1 avoids.left)

theorem track_all_global {program : List Stmt} {initial : Option Expr} {usage : Usage}
    (inside : declare name initial ∈ program) (orderly : AllOrderly Plain program)
    (apart : Apart (declaredIn program)) (outside : usage.scopes = [])
    (fresh : usage.Quiet name.span False) : (trackAll id program usage).Quiet name.span False := by
  obtain ⟨before, behind, rfl⟩ := List.append_of_mem inside
  rw [declared_in_append] at apart
  obtain ⟨orderlyBefore, -, orderlyBehind⟩ := all_orderly_append orderly
  have further : Apart ([name] ++ declaredIn behind) := apart.right
  have avoidsBefore := apart.avoids_left List.mem_cons_self
  have earlier := track_all_quiet before fresh orderlyBefore avoidsBefore
  have still := track_all_outside orderlyBefore avoidsBefore outside
  rw [track_all_append]
  apply track_all_quiet behind _ orderlyBehind (further.avoids_right List.mem_cons_self)
  cases initial with
  | none =>
      rw [track, declare_outside still]
      exact earlier
  | some initial =>
      have grows := Grows.read_all name.span (trackAll id before usage) initial
      have marks := grows.scopes
      rw [still] at marks
      rw [track, declare_outside marks.of_nil]
      exact grows.quiet earlier

end Reports

end Stmt

/-- A reported variable is local, and behind its declaration it is not looked up. -/
theorem reported_variable {source : String} {program : Program} {name : Token}
    (short : source.utf8ByteSize < 2 ^ 32) (parsed : parse source = .ok program)
    (reported : ⟨.unusedVariable name.lexeme, name.span⟩ ∈ program.problems.warnings) :
    (∀ initial, .declare name initial ∉ program) ∧
      ∀ body ∈ Stmt.bodiesIn program, ¬Stmt.ReadBehind name body := by
  obtain ⟨orderly, apart⟩ := variables_of_parse parsed
  have apart := apart short
  have found : ⟨.unusedVariable name.lexeme, name.span⟩ ∈ program.unusedVariables id := by
    apply ((warning_iff program _).mp reported).resolve_left
    exact fun flow => Stmt.flow_warnings_in_flow false program flow rfl
  have fresh : Usage.start.Quiet name.span False := ⟨nofun, nofun⟩
  constructor
  · intro initial inside
    exact (Stmt.track_all_global inside orderly apart rfl fresh).silent _ found rfl
  · intro body inside read
    exact (Stmt.track_all_read program inside read orderly apart fresh).silent _ found rfl

end Treewalk
