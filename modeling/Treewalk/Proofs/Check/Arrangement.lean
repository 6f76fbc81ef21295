import Mathlib.Data.List.Perm.Subperm
import Treewalk.Proofs.Check.Unread
import Treewalk.Proofs.Program.Earliest
import Treewalk.Proofs.Program.Heads
import Treewalk.Proofs.Session.Reports

/-!
# The order in which scopes are emptied

When a scope ends, its unread variables are reported in any order, among the warnings about control
flow that have been found on the way. As long as places fit in 32 bits, sorting by starts hides the
order: no two variables have one start, and a warning about control flow that has the start of a
variable is always found first, since it can only be about unreachable code that begins with the
declaration.
-/

namespace Treewalk

set_option autoImplicit false

section Sorting

variable {α : Type} {key : α → Nat} {list other : List α}

theorem filter_sort_on (key : α → Nat) (value : Nat) (list : List α) :
    (sortOn key list).filter (fun element => key element = value) =
      list.filter fun element => key element = value := by
  have part := @filter_map_sort_on α α key key
    (Option.guard fun element => decide (key element = value)) ?_ list
  · rw [List.filterMap_eq_filter] at part
    rw [part]
    apply sort_on_of_sorted
    apply List.pairwise_of_forall_mem_list
    intro left leftIn right rightIn
    simp only [List.mem_filter, decide_eq_true_eq] at leftIn rightIn
    rw [leftIn.2, rightIn.2]
  · intro element inside found
    rw [Option.guard_eq_some_iff] at found
    rw [found.1]

theorem eq_of_sorted_of_filter (sorted : list.Pairwise fun left right => key left ≤ key right)
    (sortedToo : other.Pairwise fun left right => key left ≤ key right)
    (same : ∀ value, (list.filter fun element => key element = value) =
      other.filter fun element => key element = value) : list = other := by
  induction list generalizing other with
  | nil =>
      cases other with
      | nil => rfl
      | cons second rest =>
          have none := same (key second)
          simp at none
  | cons first rest ih =>
      cases other with
      | nil =>
          have none := same (key first)
          simp at none
      | cons second more =>
          have among : ∀ element, element ∈ first :: rest ↔ element ∈ second :: more := by
            intro element
            have filtered := congrArg (element ∈ ·) (same (key element))
            simpa only [List.mem_filter, decide_true, and_true, eq_iff_iff] using filtered
          obtain ⟨least, sortedRest⟩ := List.pairwise_cons.mp sorted
          obtain ⟨leastToo, sortedMore⟩ := List.pairwise_cons.mp sortedToo
          have keys : key first = key second := by
            apply Nat.le_antisymm
            · rcases List.mem_cons.mp ((among second).mpr List.mem_cons_self) with rfl | inside
              · exact Nat.le_refl _
              · exact least second inside
            · rcases List.mem_cons.mp ((among first).mp List.mem_cons_self) with rfl | inside
              · exact Nat.le_refl _
              · exact leastToo first inside
          have heads := same (key first)
          simp only [List.filter_cons, keys, decide_true, if_true, List.cons.injEq] at heads
          obtain ⟨rfl, -⟩ := heads
          refine congrArg (List.cons first) (ih sortedRest sortedMore fun value => ?_)
          have tails := same value
          simp only [List.filter_cons] at tails
          split at tails
          · exact (List.cons.inj tails).2
          · exact tails

/-- Sorting has one result for all lists that have the elements of every key in the same order. -/
theorem sort_on_eq_of_filter (same : ∀ value, (list.filter fun element => key element = value) =
    other.filter fun element => key element = value) : sortOn key list = sortOn key other := by
  apply eq_of_sorted_of_filter (sort_on_sorted key list) (sort_on_sorted key other)
  intro value
  rw [filter_sort_on, filter_sort_on, same value]

theorem filter_eq_of_perm (perm : list.Perm other) (distinct : (list.map key).Nodup) (value : Nat) :
    (list.filter fun element => key element = value) =
      other.filter fun element => key element = value := by
  have permuted := perm.filter fun element => decide (key element = value)
  have few := distinct.sublist
    ((List.filter_sublist (p := fun element => decide (key element = value))).map key)
  generalize found : (list.filter fun element => decide (key element = value)) = part
    at permuted few
  cases part with
  | nil => exact permuted.nil_eq
  | cons first rest =>
      cases rest with
      | nil => exact (List.singleton_perm.mp permuted)
      | cons second rest =>
          have both : ∀ element ∈ first :: second :: rest, key element = value := by
            rw [← found]
            exact fun element inside => of_decide_eq_true (List.mem_filter.mp inside).2
          simp [both first (by simp), both second (by simp)] at few

end Sorting

def Warning.start (warning : Warning) : Nat :=
  warning.location.start

def Local.start (declared : Local) : Nat :=
  declared.location.start

/-- The walks have the same scopes open and have found the same warnings, in some order. -/
structure Usage.Rearranged (usage other : Usage) : Prop where
  scopes : usage.scopes = other.scopes
  found : usage.found.Perm other.found

namespace Usage.Rearranged

variable {usage other : Usage}

theorem open_scope (same : usage.Rearranged other) : usage.openScope.Rearranged other.openScope :=
  ⟨congrArg (List.cons []) same.scopes, same.found⟩

/-- Here, and nowhere else, the order in which a scope is emptied is made use of. -/
theorem close_scope {arrange : List Local → List Local}
    (permutes : ∀ locals, (arrange locals).Perm locals) (same : usage.Rearranged other) :
    (usage.closeScope arrange).Rearranged (other.closeScope id) := by
  unfold closeScope
  rw [same.scopes]
  split
  · exact same
  · exact ⟨rfl, same.found.append ((permutes _).filterMap _)⟩

theorem declare (same : usage.Rearranged other) (name : String) (location : Span) :
    (usage.declare name location).Rearranged (other.declare name location) := by
  unfold Usage.declare
  rw [same.scopes]
  split
  · exact same
  · exact ⟨rfl, same.found.append (.refl _)⟩

theorem read_all (same : usage.Rearranged other) (expression : Expr) :
    (usage.readAll expression).Rearranged (other.readAll expression) := by
  unfold readAll
  induction expression.reads generalizing usage other with
  | nil => exact same
  | cons name rest ih => exact ih ⟨congrArg (markIn name) same.scopes, same.found⟩

end Usage.Rearranged

namespace Stmt

variable {arrange : List Local → List Local}

mutual

theorem track_rearranged (permutes : ∀ locals, (arrange locals).Perm locals) (statement : Stmt)
    {usage other : Usage} (same : usage.Rearranged other) :
    (statement.track arrange usage).Rearranged (statement.track id other) := by
  cases statement with
  | expression value => exact same.read_all value
  | print keyword value => exact same.read_all value
  | declare name initial =>
      cases initial with
      | none => exact same.declare name.lexeme name.span
      | some initial => exact (same.read_all initial).declare name.lexeme name.span
  | block body location =>
      exact (track_all_rearranged permutes body same.open_scope).close_scope permutes
  | ifThen keyword condition consequent =>
      unfold track
      exact track_rearranged permutes consequent (same.read_all condition)
  | ifElse keyword condition consequent alternative =>
      unfold track
      exact track_rearranged permutes alternative
        (track_rearranged permutes consequent (same.read_all condition))
  | loop keyword condition body =>
      unfold track
      exact track_rearranged permutes body (same.read_all condition)
  | function name parameters body =>
      exact (track_all_rearranged permutes body same.open_scope).close_scope permutes
  | returnValue keyword value =>
      cases value with
      | none => exact same
      | some value => exact same.read_all value
  | breakLoop keyword => exact same

theorem track_all_rearranged (permutes : ∀ locals, (arrange locals).Perm locals)
    (body : List Stmt) {usage other : Usage} (same : usage.Rearranged other) :
    (trackAll arrange body usage).Rearranged (trackAll id body other) := by
  cases body with
  | nil => exact same
  | cons first rest =>
      unfold trackAll
      exact track_all_rearranged permutes rest (track_rearranged permutes first same)

end

end Stmt

/-- Variables that are followed or have been reported are declared at different ones of the starts
that are taken, and no warning about control flow comes behind the report of a variable with the
same start. -/
structure Usage.Tidy (taken : List Nat) (usage : Usage) : Prop where
  once : ((usage.found.filter Warning.isUnused).map Warning.start ++
    usage.scopes.flatten.map Local.start).Subperm taken
  order : usage.found.Pairwise fun earlier later =>
    earlier.isUnused = true → later.isUnused = false → earlier.start ≠ later.start

namespace Usage.Tidy

variable {taken : List Nat} {usage : Usage}

theorem report_subperm {locals others : List Local} (perm : locals.Perm others) :
    ((locals.filterMap Local.warning?).map Warning.start).Subperm (others.map Local.start) := by
  have reported : ∀ locals : List Local,
      ((locals.filterMap Local.warning?).map Warning.start).Sublist (locals.map Local.start) := by
    intro locals
    induction locals with
    | nil => exact List.Sublist.refl _
    | cons first rest ih =>
        rw [List.filterMap_cons]
        cases found : first.warning? with
        | none => exact ih.cons _
        | some warning =>
            have start : warning.start = first.start := by
              unfold Local.warning? at found
              split at found
              · cases found
              · cases found
                rfl
            rw [List.map_cons, List.map_cons, start]
            exact ih.cons_cons _
  exact (reported locals).subperm.trans (perm.map _).subperm

theorem add_unused {added : List Warning} {scopes : List (List Local)} {more : List Nat}
    (tidy : usage.Tidy taken) (all : ∀ warning ∈ added, warning.isUnused = true)
    (once : ((usage.found.filter Warning.isUnused).map Warning.start ++
      (added.map Warning.start ++ scopes.flatten.map Local.start)).Subperm more) :
    Tidy more ⟨scopes, usage.found ++ added⟩ := by
  refine ⟨?_, List.pairwise_append.mpr ⟨tidy.order, ?_, ?_⟩⟩
  · rw [List.filter_append, List.filter_eq_self.mpr all, List.map_append, List.append_assoc]
    exact once
  · apply List.pairwise_of_forall_mem_list
    intro earlier _ later inside _ flow
    rw [all later inside] at flow
    cases flow
  · intro earlier _ later inside _ flow
    rw [all later inside] at flow
    cases flow

theorem open_scope (tidy : usage.Tidy taken) : usage.openScope.Tidy taken :=
  ⟨tidy.once, tidy.order⟩

theorem close_scope {arrange : List Local → List Local}
    (permutes : ∀ locals, (arrange locals).Perm locals) (tidy : usage.Tidy taken) :
    (usage.closeScope arrange).Tidy taken := by
  unfold closeScope
  split
  · exact tidy
  · rename_i inner outer open_
    apply tidy.add_unused is_unused_of_warning
    have once := tidy.once
    rw [open_, List.flatten_cons, List.map_append] at once
    exact .trans (.append (.refl _) (.append (report_subperm (permutes inner)) (.refl _))) once

theorem declare (tidy : usage.Tidy taken) (name : String) (location : Span) :
    (usage.declare name location).Tidy (taken ++ [location.start]) := by
  unfold Usage.declare
  split
  · exact ⟨tidy.once.trans (List.sublist_append_left _ _).subperm, tidy.order⟩
  · rename_i inner outer open_
    apply tidy.add_unused is_unused_of_warning
    have once := tidy.once
    rw [open_, List.flatten_cons, List.map_append] at once
    generalize (usage.found.filter Warning.isUnused).map Warning.start = reported at once ⊢
    -- The variables of the scope are kept or replaced, and those that are replaced may be reported.
    have parts : (((inner.filter fun earlier => earlier.name = name).filterMap
        Local.warning?).map Warning.start ++ (inner.filter fun earlier => earlier.name ≠ name).map
          Local.start).Subperm (inner.map Local.start) := by
      refine .trans (.append (report_subperm (.refl _)) (.refl _)) ?_
      rw [← List.map_append]
      have split := List.filter_append_perm
        (fun earlier : Local => decide (earlier.name = name)) inner
      simp only [← decide_not] at split
      exact (split.map Local.start).subperm
    have whole := List.Subperm.append
      (.trans (.append (.refl reported)
        (.append parts (.refl (outer.flatten.map Local.start)))) once)
      (.refl [location.start])
    refine .trans (List.Perm.subperm ?_) whole
    rw [List.perm_iff_count]
    intro start
    simp only [List.flatten_cons, List.map_append, List.count_append, List.map_cons, List.map_nil]
    show _ + (_ + (_ + List.count start [location.start] + _)) = _
    omega

theorem mark_in_starts (name : String) (scopes : List (List Local)) :
    (markIn name scopes).flatten.map Local.start = scopes.flatten.map Local.start := by
  induction scopes with
  | nil => rfl
  | cons inner outer ih =>
      unfold markIn
      split
      · rw [List.flatten_cons, List.flatten_cons, List.map_append, List.map_append, List.map_map]
        congr 2
        funext declared
        show Local.start (if declared.name = name then _ else _) = _
        split
        · rfl
        · rfl
      · rw [List.flatten_cons, List.flatten_cons, List.map_append, List.map_append, ih]

theorem read_all (tidy : usage.Tidy taken) (expression : Expr) :
    (usage.readAll expression).Tidy taken := by
  unfold readAll
  induction expression.reads generalizing usage with
  | nil => exact tidy
  | cons name rest ih =>
      refine ih ⟨?_, tidy.order⟩
      rw [mark, mark_in_starts]
      exact tidy.once

/-- Warnings about control flow that begin at no start that is taken may come behind everything. -/
theorem warn {added : List Warning} (tidy : usage.Tidy taken)
    (others : ∀ warning ∈ added, ∀ unread, warning.suspicion ≠ .unusedVariable unread)
    (apart : ∀ warning ∈ added, warning.start ∉ taken) : (usage.warn added).Tidy taken := by
  have all : ∀ warning ∈ added, warning.isUnused = false :=
    fun warning inside => is_unused_eq_false (others warning inside)
  refine ⟨?_, List.pairwise_append.mpr ⟨tidy.order, ?_, ?_⟩⟩
  · have none : added.filter Warning.isUnused = [] := by
      rw [List.filter_eq_nil_iff]
      intro warning inside
      simp [all warning inside]
    rw [Usage.warn, List.filter_append, none, List.append_nil]
    exact tidy.once
  · apply List.pairwise_of_forall_mem_list
    intro earlier inside later _ unused
    rw [all earlier inside] at unused
    cases unused
  · intro earlier found later inside unused _ same
    apply apart later inside
    rw [← same]
    apply tidy.once.subset
    exact List.mem_append_left _ (List.mem_map_of_mem (List.mem_filter.mpr ⟨found, unused⟩))

end Usage.Tidy

def Token.start (token : Token) : Nat :=
  token.span.start

/-- The starts of the variables that are declared in a program, no two of them the same, and places
that begin at none of them. -/
structure Declarations where
  starts : List Nat
  place : Span → Prop
  distinct : starts.Nodup
  apart : ∀ span, place span → span.start ∉ starts

theorem Stmt.declared_in_of_mem {statement : Stmt} {body : List Stmt} {name : Token}
    (among : statement ∈ body) (declared : name ∈ statement.declared) : name ∈ declaredIn body := by
  induction body with
  | nil => cases among
  | cons first rest ih =>
      rcases List.mem_cons.mp among with rfl | among
      · exact List.mem_append_left _ declared
      · exact List.mem_append_right _ (ih among)

namespace Declarations

variable {declarations : Declarations} {taken : List Nat}

theorem branch_apart {condition : Expr} {statement : Stmt} (all : taken ⊆ declarations.starts)
    (headed : declarations.place statement.location) :
    (∀ warning ∈ Stmt.consequentWarning condition statement, warning.start ∉ taken) ∧
      ∀ warning ∈ Stmt.alternativeWarning condition statement, warning.start ∉ taken := by
  have apart : statement.location.start ∉ taken :=
    fun inside => declarations.apart _ headed (all inside)
  unfold Stmt.consequentWarning Stmt.alternativeWarning
  constructor
  · split
    · exact List.forall_mem_singleton.mpr apart
    · exact nofun
  · split
    · exact List.forall_mem_singleton.mpr apart
    · exact nofun

theorem loop_apart {keyword : Token} {condition : Expr} {body : Stmt}
    (all : taken ⊆ declarations.starts)
    (headed : (Stmt.loop keyword condition body).Headed declarations.place) :
    ∀ warning ∈ Stmt.loopWarning keyword condition body, warning.start ∉ taken := by
  obtain ⟨-, asked, repeated, -⟩ := headed
  unfold Stmt.loopWarning
  split
  · split
    · exact nofun
    · exact List.forall_mem_singleton.mpr fun inside => declarations.apart _ asked (all inside)
  · exact List.forall_mem_singleton.mpr fun inside => declarations.apart _ repeated (all inside)
  · exact nofun

/-- Unreachable code begins at a variable only if that is declared there, and not before. -/
theorem rest_apart {dead : Bool} {rest : List Stmt}
    (headed : Stmt.AllHeaded declarations.place rest)
    (within : (taken ++ (Stmt.declaredIn rest).map Token.start).Sublist declarations.starts) :
    ∀ warning ∈ (if dead then Stmt.unreachableRest rest else []), warning.start ∉ taken := by
  have later : ∀ statement ∈ rest, statement.location.start ∉ taken := by
    intro statement among inside
    rcases (Stmt.all_headed_iff.mp headed statement among).location with
      ⟨span, begins, start⟩ | ⟨name, declared, start⟩
    · rw [← start] at inside
      exact declarations.apart span begins (within.subset (List.mem_append_left _ inside))
    · rw [← start] at inside
      have behind : name.start ∈ (Stmt.declaredIn rest).map Token.start :=
        List.mem_map_of_mem (Stmt.declared_in_of_mem among declared)
      exact (List.nodup_append.mp (declarations.distinct.sublist within)).2.2 _ inside _ behind rfl
  split
  · cases rest with
    | nil => exact nofun
    | cons first rest =>
        refine List.forall_mem_singleton.mpr ?_
        have last : (rest.getLast?.getD first).location.start ∉ taken := by
          cases found : rest.getLast? with
          | none => exact later first List.mem_cons_self
          | some statement =>
              exact later statement (List.mem_cons_of_mem _ (List.mem_of_getLast? found))
        intro inside
        rcases Span.hull_start_cases first.location (rest.getLast?.getD first).location with
          start | start
        · exact later first List.mem_cons_self (start ▸ inside)
        · exact last (start ▸ inside)
  · exact nofun

end Declarations

namespace Stmt

variable {declarations : Declarations} {arrange : List Local → List Local}

mutual

theorem inspect_tidy (permutes : ∀ locals, (arrange locals).Perm locals) {statement : Stmt}
    {usage : Usage} {taken : List Nat} (headed : statement.Headed declarations.place)
    (within : (taken ++ statement.declared.map Token.start).Sublist declarations.starts)
    (tidy : usage.Tidy taken) :
    (statement.inspect arrange usage).Tidy (taken ++ statement.declared.map Token.start) := by
  cases statement with
  | expression value => simpa [inspect, declared] using tidy.read_all value
  | print keyword value => simpa [inspect, declared] using tidy.read_all value
  | declare name initial =>
      cases initial with
      | none => exact tidy.declare name.lexeme name.span
      | some initial => exact (tidy.read_all initial).declare name.lexeme name.span
  | block body location =>
      exact (inspect_all_tidy permutes headed.2 within tidy.open_scope).close_scope permutes
  | ifThen keyword condition consequent =>
      have inner := inspect_tidy permutes headed.2.2 within (tidy.read_all condition)
      unfold inspect
      exact inner.warn (fun _ reported _ => consequent_warning_flow reported)
        (Declarations.branch_apart within.subset headed.2.1).1
  | ifElse keyword condition consequent alternative =>
      obtain ⟨-, ⟨beginsFirst, headedFirst⟩, beginsSecond, headedSecond⟩ := headed
      simp only [declared, List.map_append, ← List.append_assoc] at within ⊢
      have first := inspect_tidy permutes headedFirst ((List.sublist_append_left _ _).trans within)
        (tidy.read_all condition)
      have second := inspect_tidy permutes headedSecond within first
      unfold inspect
      exact second.warn
        (fun _ reported _ =>
          (List.mem_append.mp reported).elim alternative_warning_flow consequent_warning_flow)
        (List.forall_mem_append.mpr ⟨(Declarations.branch_apart within.subset beginsSecond).2,
          (Declarations.branch_apart within.subset beginsFirst).1⟩)
  | loop keyword condition body =>
      have inner := inspect_tidy permutes headed.2.2.2 within (tidy.read_all condition)
      unfold inspect
      exact inner.warn (fun _ reported _ => loop_warning_flow reported)
        (Declarations.loop_apart within.subset headed)
  | function name parameters body =>
      exact (inspect_all_tidy permutes headed.2 within tidy.open_scope).close_scope permutes
  | returnValue keyword value =>
      cases value with
      | none => simpa [inspect, declared] using tidy
      | some value => simpa [inspect, declared] using tidy.read_all value
  | breakLoop keyword => simpa [inspect, declared] using tidy

theorem inspect_all_tidy (permutes : ∀ locals, (arrange locals).Perm locals) {exited : Bool}
    {body : List Stmt} {usage : Usage} {taken : List Nat}
    (headed : AllHeaded declarations.place body)
    (within : (taken ++ (declaredIn body).map Token.start).Sublist declarations.starts)
    (tidy : usage.Tidy taken) :
    (inspectAll arrange exited body usage).Tidy (taken ++ (declaredIn body).map Token.start) := by
  cases body with
  | nil => simpa [inspectAll, declaredIn] using tidy
  | cons first rest =>
      simp only [declaredIn, List.map_append, ← List.append_assoc] at within ⊢
      have head := inspect_tidy permutes headed.1 ((List.sublist_append_left _ _).trans within) tidy
      unfold inspectAll
      exact inspect_all_tidy permutes headed.2 within
        (head.warn (fun _ reported _ => unreachable_rest_flow reported)
          (Declarations.rest_apart headed.2 within))

end

end Stmt

/-- The warnings with one start are those about control flow and then those about variables. -/
theorem filter_start_of_order {warnings : List Warning}
    (order : warnings.Pairwise fun earlier later =>
      earlier.isUnused = true → later.isUnused = false → earlier.start ≠ later.start)
    (start : Nat) :
    (warnings.filter fun warning => warning.start = start) =
      ((warnings.filter fun warning => !warning.isUnused) ++
        warnings.filter Warning.isUnused).filter fun warning => warning.start = start := by
  induction warnings with
  | nil => rfl
  | cons first rest ih =>
      obtain ⟨behind, others⟩ := List.pairwise_cons.mp order
      have tail := ih others
      rw [List.filter_append] at tail ⊢
      by_cases here : first.start = start
      · cases kind : first.isUnused with
        | false => simp [here, kind, tail]
        | true =>
            have none : (rest.filter fun warning => !warning.isUnused).filter
                (fun warning => warning.start = start) = [] := by
              simp only [List.filter_filter, List.filter_eq_nil_iff, Bool.and_eq_true,
                Bool.not_eq_true', decide_eq_true_eq]
              rintro later inside ⟨same, flow⟩
              exact behind later inside kind flow (here.trans same.symm)
            rw [none, List.nil_append] at tail
            simp only [List.filter_cons, here, kind, decide_true, if_true, Bool.not_true, tail]
            simp [none]
      · cases kind : first.isUnused with
        | false => simp [here, kind, tail]
        | true => simp [here, kind, tail]

/-- A parsed program declares its variables at different places, and nothing else begins there. -/
theorem declarations_of_parse {source : String} {program : Program}
    (short : source.utf8ByteSize < 2 ^ 32) (parsed : parse source = .ok program) :
    ∃ declarations : Declarations,
      declarations.starts = (Stmt.declaredIn program).map Token.start ∧
      Stmt.AllHeaded declarations.place program := by
  obtain ⟨tokens, lexed, derived⟩ := parse_ok_iff.mp parsed
  cases derived with
  | @intro _ inside closing whole ended =>
      obtain ⟨-, scanned⟩ := scan_ok_iff.mp lexed
      obtain ⟨same, -⟩ := List.append_inj' scanned rfl
      have ordered : TokensOrdered inside := by
        rw [← same]
        exact tokens_ordered short
      have starts := (List.pairwise_append.mp (token_starts short lexed)).1
      have distinct : (inside.map Token.start).Nodup :=
        List.pairwise_map.mpr (starts.imp Nat.ne_of_lt)
      have declared := forms_declared whole
      refine ⟨⟨(Stmt.declaredIn program).map Token.start,
        Span.BeginsApart inside (Stmt.declaredIn program), ?_, ?_⟩, rfl, ?_⟩
      · exact distinct.sublist (declared.map Token.start)
      · rintro span ⟨token, found, apart, begins⟩ taken
        obtain ⟨name, listed, start⟩ := List.mem_map.mp taken
        have one : token = name := List.inj_on_of_nodup_map distinct found (declared.subset listed)
          (begins.trans start.symm)
        exact apart (one ▸ listed)
      · apply forms_headed ordered whole
        exact ⟨List.Subset.refl _, distinct.of_map, fun _ _ isName => isName⟩

/-- Problems with the same errors are sorted alike if their warnings with one start, whatever that
is, are the same in the same order. -/
theorem sorted_eq_of_filter {errors : List StaticError} {warnings others : List Warning}
    (same : ∀ start, (warnings.filter fun warning => warning.start = start) =
      others.filter fun warning => warning.start = start) :
    Problems.sorted ⟨errors, warnings⟩ = Problems.sorted ⟨errors, others⟩ := by
  have sorted : sortOn Warning.start warnings = sortOn Warning.start others :=
    sort_on_eq_of_filter same
  exact congrArg (Problems.mk (Problems.sorted ⟨errors, warnings⟩).errors) sorted

theorem problems_warnings (program : Program) (arrange : List Local → List Local) :
    (program.problemsWith arrange).warnings =
      sortOn Warning.start (Stmt.inspectAll arrange false program Usage.start).found :=
  rfl

theorem warnings_rearranged (program : Program) {arrange : List Local → List Local}
    (permutes : ∀ locals, (arrange locals).Perm locals) :
    (program.problemsWith arrange).warnings.Perm program.problems.warnings := by
  have same : (Stmt.trackAll arrange program Usage.start).Rearranged
      (Stmt.trackAll id program Usage.start) :=
    Stmt.track_all_rearranged permutes program ⟨rfl, .refl _⟩
  exact (problems_warnings_perm program arrange).trans
    ((same.found.append_left _).trans (problems_warnings_perm program id).symm)

/-- Where all variables are declared at different places, the order does not matter. -/
theorem problems_with_eq {program : Program} {declarations : Declarations}
    (starts : declarations.starts = (Stmt.declaredIn program).map Token.start)
    (headed : Stmt.AllHeaded declarations.place program) {arrange : List Local → List Local}
    (permutes : ∀ locals, (arrange locals).Perm locals) :
    program.problemsWith arrange = Problems.sorted
      ⟨Stmt.strayExitsIn Context.top program,
        Stmt.flowWarningsIn false program ++ program.unusedVariables id⟩ := by
  have within : ([] ++ (Stmt.declaredIn program).map Token.start).Sublist declarations.starts := by
    rw [starts, List.nil_append]
  have tidy : (Stmt.inspectAll arrange false program Usage.start).Tidy _ :=
    Stmt.inspect_all_tidy permutes headed within ⟨List.nil_subperm, .nil⟩
  have splits : (Stmt.inspectAll arrange false program Usage.start).Splits
      (Stmt.trackAll arrange program Usage.start) (Stmt.flowWarningsIn false program) :=
    Stmt.inspect_all_splits arrange false program ⟨rfl, rfl, rfl⟩
  have same : (Stmt.trackAll arrange program Usage.start).Rearranged
      (Stmt.trackAll id program Usage.start) :=
    Stmt.track_all_rearranged permutes program ⟨rfl, .refl _⟩
  have distinct : ((Stmt.trackAll arrange program Usage.start).found.map Warning.start).Nodup := by
    obtain ⟨listed, perm, sub⟩ := tidy.once
    rw [splits.unused] at perm
    have apart := perm.nodup_iff.mp ((declarations.distinct.sublist within).sublist sub)
    exact (List.nodup_append.mp apart).1
  refine sorted_eq_of_filter fun start => ?_
  rw [filter_start_of_order tidy.order start, splits.flow, splits.unused, List.filter_append,
    List.filter_append, filter_eq_of_perm same.found distinct start]
  rfl

/-- The order in which the scopes of a parsed program are emptied does not show in which problems it
has. If places fit in 32 bits, it does not show in their order either. -/
theorem warnings_independent_of_arrangement (source : String) (program : Program)
    (parsed : parse source = .ok program) (arrange : List Local → List Local)
    (permutes : ∀ locals, (arrange locals).Perm locals) :
    (program.problemsWith arrange).errors = program.problems.errors ∧
      (program.problemsWith arrange).warnings.Perm program.problems.warnings ∧
      (source.utf8ByteSize < 2 ^ 32 → program.problemsWith arrange = program.problems) := by
  refine ⟨rfl, warnings_rearranged program permutes, fun short => ?_⟩
  obtain ⟨declarations, starts, headed⟩ := declarations_of_parse short parsed
  exact (problems_with_eq starts headed permutes).trans
    (problems_with_eq starts headed fun _ => .refl _).symm

theorem warnings_independent_of_arrangement_return :
    ∃ program, parse "fun f() { return; var a; var b = 1; }" = .ok program ∧
      (Stmt.inspectAll List.reverse false program Usage.start).found ≠
        (Stmt.inspectAll id false program Usage.start).found ∧
      program.problemsWith List.reverse = program.problems := by
  obtain ⟨program, parsed, differ⟩ : ∃ program,
      parse "fun f() { return; var a; var b = 1; }" = .ok program ∧
        decide ((Stmt.inspectAll List.reverse false program Usage.start).found ≠
          (Stmt.inspectAll id false program Usage.start).found) = true :=
    exists_ok_of_any (by decide +kernel)
  exact ⟨program, parsed, of_decide_eq_true differ, (warnings_independent_of_arrangement _ program
    parsed List.reverse List.reverse_perm).2.2 (by decide)⟩

/-- Two variables of one scope that are as far apart as the bound have the same start, so their
reports stay in the order in which the scope is emptied. -/
theorem far_locals_show_arrangement :
    ∃ program, parse (setApart (2 ^ 32 - 7) "\x7b var a;" "var b; \x7d") = .ok program ∧
      program.problemsWith List.reverse ≠ program.problems := by
  obtain ⟨program, parsed, tied⟩ : ∃ program,
      parse (setApart (2 ^ 32 - 7) "\x7b var a;" "var b; \x7d") = .ok program ∧
      decide ((Stmt.inspectAll List.reverse false program Usage.start).found ≠
          (Stmt.inspectAll id false program Usage.start).found ∧
        ∀ arrange ∈ [List.reverse, id],
          (Stmt.inspectAll arrange false program Usage.start).found.Pairwise
            fun warning later => warning.start ≤ later.start) = true :=
    exists_ok_of_any (by
      rw [parse_eq_parsed, of_source_set_apart _ _ (by decide +kernel)]
      decide +kernel)
  obtain ⟨differ, sorted⟩ := of_decide_eq_true tied
  refine ⟨program, parsed, fun same => differ ?_⟩
  have warnings := congrArg Problems.warnings same
  rwa [Program.problems, problems_warnings, problems_warnings,
    sort_on_of_sorted (sorted _ (by simp)), sort_on_of_sorted (sorted _ (by simp))] at warnings

end Treewalk
