import Treewalk.Proofs.Check.Inspection

/-!
# Edits of code that is reported as unreachable

The check reports the rest of a sequence behind an exit, and branches and loop bodies behind
constant conditions. An edit of a program puts other statements in the place of some of these parts
and keeps everything else. It is logged: for each part the warning about it and the statements that
are there now. The warnings of a log are among those that the check gives, and each warning of the
check about unreachable code allows an edit with any statement.
-/

namespace Treewalk

set_option autoImplicit false

def Suspicion.isUnreachable : Suspicion → Bool
  | .unreachableConsequent => true
  | .unreachableAlternative => true
  | .unreachableBody => true
  | .unreachableCode => true
  | .unusedVariable _ => false
  | .endlessLoop => false

/-- One part of an edit: the warning about the part that was there, and what is there now. -/
structure Replacement where
  warning : Warning
  statements : List Stmt

namespace Stmt

mutual

/-- The second statement is an edit of the first; of what stands at its root, nothing changes. -/
inductive Edits : List Replacement → Stmt → Stmt → Prop where
  | expression (value : Expr) : Edits [] (.expression value) (.expression value)
  | print (keyword : Token) (value : Expr) : Edits [] (.print keyword value) (.print keyword value)
  | declare (name : Token) (initial : Option Expr) :
      Edits [] (.declare name initial) (.declare name initial)
  | block {log : List Replacement} {body edited : List Stmt} (location : Span)
      (inside : EditsIn false log body edited) :
      Edits log (.block body location) (.block edited location)
  | ifThen {log : List Replacement} {consequent edited : Stmt} (keyword : Token)
      (condition : Expr)
      (part : EditsPart (consequentWarning condition consequent) log consequent edited) :
      Edits log (.ifThen keyword condition consequent) (.ifThen keyword condition edited)
  | ifElse {log more : List Replacement} {consequent alternative edited other : Stmt}
      (keyword : Token) (condition : Expr)
      (first : EditsPart (consequentWarning condition consequent) log consequent edited)
      (second : EditsPart (alternativeWarning condition alternative) more alternative other) :
      Edits (log ++ more) (.ifElse keyword condition consequent alternative)
        (.ifElse keyword condition edited other)
  | loop {log : List Replacement} {body edited : Stmt} (keyword : Token) (condition : Expr)
      (part : EditsPart (loopWarning keyword condition body) log body edited) :
      Edits log (.loop keyword condition body) (.loop keyword condition edited)
  | function {log : List Replacement} {body edited : List Stmt} (name : Token)
      (parameters : List Token) (inside : EditsIn false log body edited) :
      Edits log (.function name parameters body) (.function name parameters edited)
  | returnValue (keyword : Token) (value : Option Expr) :
      Edits [] (.returnValue keyword value) (.returnValue keyword value)
  | breakLoop (keyword : Token) : Edits [] (.breakLoop keyword) (.breakLoop keyword)

/-- A branch or a body about which the check gives the warnings: it is edited, or it is another
statement because the check reports it. -/
inductive EditsPart : List Warning → List Replacement → Stmt → Stmt → Prop where
  | kept {warnings : List Warning} {log : List Replacement} {part edited : Stmt}
      (inside : Edits log part edited) : EditsPart warnings log part edited
  | replaced {warnings : List Warning} {warning : Warning} (part other : Stmt)
      (reported : warning ∈ warnings) (unreachable : warning.suspicion.isUnreachable = true) :
      EditsPart warnings [⟨warning, [other]⟩] part other

/-- The second sequence is an edit of the first; `exited` says that an exit stands in front of it.
-/
inductive EditsIn : Bool → List Replacement → List Stmt → List Stmt → Prop where
  | nil (exited : Bool) : EditsIn exited [] [] []
  | cons {exited : Bool} {log more : List Replacement} {first edited : Stmt}
      {rest others : List Stmt} (inside : Edits log first edited)
      (later : EditsIn (exited || first.alwaysExits) more rest others) :
      EditsIn exited (log ++ more) (first :: rest) (edited :: others)
  | replaced {log : List Replacement} {first edited : Stmt} {rest : List Stmt}
      {warning : Warning} (others : List Stmt) (inside : Edits log first edited)
      (exits : first.alwaysExits = true) (reported : warning ∈ unreachableRest rest) :
      EditsIn false (log ++ [⟨warning, others⟩]) (first :: rest) (edited :: others)

end

mutual

theorem edits_refl (statement : Stmt) : Edits [] statement statement := by
  cases statement with
  | expression value => exact .expression value
  | print keyword value => exact .print keyword value
  | declare name initial => exact .declare name initial
  | block body location => exact .block location (edits_in_refl false body)
  | ifThen keyword condition consequent =>
      exact .ifThen keyword condition (.kept (edits_refl consequent))
  | ifElse keyword condition consequent alternative =>
      exact .ifElse keyword condition (.kept (edits_refl consequent))
        (.kept (edits_refl alternative))
  | loop keyword condition body => exact .loop keyword condition (.kept (edits_refl body))
  | function name parameters body =>
      exact .function name parameters (edits_in_refl false body)
  | returnValue keyword value => exact .returnValue keyword value
  | breakLoop keyword => exact .breakLoop keyword

theorem edits_in_refl (exited : Bool) (body : List Stmt) : EditsIn exited [] body body := by
  cases body with
  | nil => exact .nil exited
  | cons first rest => exact .cons (edits_refl first) (edits_in_refl _ rest)

end

theorem consequent_warning_cases {condition : Expr} {consequent : Stmt} {warning : Warning}
    (reported : warning ∈ consequentWarning condition consequent) :
    condition.constant? = some false := by
  unfold consequentWarning at reported
  split at reported
  · assumption
  · cases reported

theorem alternative_warning_cases {condition : Expr} {alternative : Stmt} {warning : Warning}
    (reported : warning ∈ alternativeWarning condition alternative) :
    condition.constant? = some true := by
  unfold alternativeWarning at reported
  split at reported
  · assumption
  · cases reported

theorem loop_warning_cases {keyword : Token} {condition : Expr} {body : Stmt} {warning : Warning}
    (reported : warning ∈ loopWarning keyword condition body)
    (unreachable : warning.suspicion.isUnreachable = true) :
    condition.constant? = some false := by
  unfold loopWarning at reported
  split at reported
  · split at reported
    · cases reported
    · rw [List.mem_singleton.mp reported] at unreachable
      cases unreachable
  · assumption
  · cases reported

/-- What an edit of a branch or a body replaces has been reported, inside or as a whole. -/
theorem edits_part_reported {warnings : List Warning} {log : List Replacement}
    {part edited : Stmt} (edits : EditsPart warnings log part edited)
    (deeper : ∀ {log edited}, Edits log part edited →
      ∀ replacement ∈ log, replacement.warning ∈ part.flowWarnings) :
    ∀ replacement ∈ log,
      replacement.warning ∈ part.flowWarnings ∨ replacement.warning ∈ warnings := by
  intro replacement found
  cases edits with
  | kept inside => exact .inl (deeper inside replacement found)
  | replaced part other reported unreachable =>
      rw [List.mem_singleton.mp found]
      exact .inr reported

mutual

theorem edits_reported {log : List Replacement} (statement : Stmt) {edited : Stmt}
    (edits : Edits log statement edited) :
    ∀ replacement ∈ log, replacement.warning ∈ statement.flowWarnings := by
  intro replacement found
  cases statement with
  | block body location =>
      cases edits with
      | block location inside => exact edits_in_reported body inside replacement found
  | ifThen keyword condition consequent =>
      cases edits with
      | ifThen keyword condition part =>
          exact List.mem_append.mpr
            (edits_part_reported part (edits_reported consequent) replacement found)
  | ifElse keyword condition consequent alternative =>
      cases edits with
      | ifElse keyword condition first second =>
          simp only [flowWarnings, List.mem_append]
          rcases List.mem_append.mp found with found | found
          · rcases edits_part_reported first (edits_reported consequent) replacement found with
              inside | here
            · exact .inl (.inl (.inl inside))
            · exact .inr here
          · rcases edits_part_reported second (edits_reported alternative) replacement found with
              inside | here
            · exact .inl (.inl (.inr inside))
            · exact .inl (.inr here)
  | loop keyword condition body =>
      cases edits with
      | loop keyword condition part =>
          exact List.mem_append.mpr
            (edits_part_reported part (edits_reported body) replacement found)
  | function name parameters body =>
      cases edits with
      | function name parameters inside => exact edits_in_reported body inside replacement found
  | expression value =>
      cases edits
      cases found
  | print keyword value =>
      cases edits
      cases found
  | declare name initial =>
      cases edits
      cases found
  | returnValue keyword value =>
      cases edits
      cases found
  | breakLoop keyword =>
      cases edits
      cases found

theorem edits_in_reported {exited : Bool} {log : List Replacement} (body : List Stmt)
    {edited : List Stmt} (edits : EditsIn exited log body edited) :
    ∀ replacement ∈ log, replacement.warning ∈ flowWarningsIn exited body := by
  intro replacement found
  cases body with
  | nil =>
      cases edits
      cases found
  | cons first rest =>
      simp only [flowWarningsIn, List.mem_append]
      cases edits with
      | cons inside later =>
          rcases List.mem_append.mp found with found | found
          · exact .inl (.inl (edits_reported first inside replacement found))
          · exact .inr (edits_in_reported rest later replacement found)
      | replaced others inside exits reported =>
          rcases List.mem_append.mp found with found | found
          · exact .inl (.inl (edits_reported first inside replacement found))
          · rw [List.mem_singleton.mp found]
            left
            right
            rw [if_pos (by simp [exits])]
            exact reported

end

/-- A branch or body that is reported, itself or inside, can be edited. -/
theorem edits_part_allowed {warning : Warning} {warnings : List Warning} {part : Stmt}
    (unreachable : warning.suspicion.isUnreachable = true) (other : Stmt)
    (reported : warning ∈ part.flowWarnings ∨ warning ∈ warnings)
    (inside : warning ∈ part.flowWarnings → ∃ edited, Edits [⟨warning, [other]⟩] part edited) :
    ∃ edited, EditsPart warnings [⟨warning, [other]⟩] part edited := by
  rcases reported with deeper | here
  · obtain ⟨edited, edits⟩ := inside deeper
    exact ⟨edited, .kept edits⟩
  · exact ⟨other, .replaced part other here unreachable⟩

mutual

/-- Whatever the check reports as unreachable can be replaced by any statement. -/
theorem edits_allowed {warning : Warning} (unreachable : warning.suspicion.isUnreachable = true)
    (other statement : Stmt) (reported : warning ∈ statement.flowWarnings) :
    ∃ edited, Edits [⟨warning, [other]⟩] statement edited := by
  cases statement with
  | block body location =>
      obtain ⟨edited, edits⟩ := edits_in_allowed unreachable other false body reported
      exact ⟨_, .block location edits⟩
  | ifThen keyword condition consequent =>
      obtain ⟨edited, edits⟩ := edits_part_allowed unreachable other (List.mem_append.mp reported)
        (edits_allowed unreachable other consequent)
      exact ⟨_, .ifThen keyword condition edits⟩
  | ifElse keyword condition consequent alternative =>
      have unchanged : ∀ warnings part, EditsPart warnings [] part part :=
        fun _ part => .kept (edits_refl part)
      have first : (warning ∈ consequent.flowWarnings ∨
          warning ∈ consequentWarning condition consequent) → ∃ edited,
          Edits [⟨warning, [other]⟩] (.ifElse keyword condition consequent alternative) edited := by
        intro reported
        obtain ⟨edited, edits⟩ := edits_part_allowed unreachable other reported
          (edits_allowed unreachable other consequent)
        exact ⟨_, .ifElse keyword condition edits (unchanged _ _)⟩
      have second : (warning ∈ alternative.flowWarnings ∨
          warning ∈ alternativeWarning condition alternative) → ∃ edited,
          Edits [⟨warning, [other]⟩] (.ifElse keyword condition consequent alternative) edited := by
        intro reported
        obtain ⟨edited, edits⟩ := edits_part_allowed unreachable other reported
          (edits_allowed unreachable other alternative)
        exact ⟨_, .ifElse keyword condition (unchanged _ _) edits⟩
      simp only [flowWarnings, List.mem_append] at reported
      rcases reported with ((inside | inside) | here) | here
      · exact first (.inl inside)
      · exact second (.inl inside)
      · exact second (.inr here)
      · exact first (.inr here)
  | loop keyword condition body =>
      obtain ⟨edited, edits⟩ := edits_part_allowed unreachable other (List.mem_append.mp reported)
        (edits_allowed unreachable other body)
      exact ⟨_, .loop keyword condition edits⟩
  | function name parameters body =>
      obtain ⟨edited, edits⟩ := edits_in_allowed unreachable other false body reported
      exact ⟨_, .function name parameters edits⟩
  | expression value => cases reported
  | print keyword value => cases reported
  | declare name initial => cases reported
  | returnValue keyword value => cases reported
  | breakLoop keyword => cases reported

theorem edits_in_allowed {warning : Warning}
    (unreachable : warning.suspicion.isUnreachable = true) (other : Stmt) (exited : Bool)
    (body : List Stmt) (reported : warning ∈ flowWarningsIn exited body) :
    ∃ edited, EditsIn exited [⟨warning, [other]⟩] body edited := by
  cases body with
  | nil => cases reported
  | cons first rest =>
      simp only [flowWarningsIn, List.mem_append] at reported
      rcases reported with (inside | here) | later
      · obtain ⟨edited, edits⟩ := edits_allowed unreachable other first inside
        exact ⟨_, .cons edits (edits_in_refl _ rest)⟩
      · split at here
        · rename_i exits
          rw [Bool.and_eq_true, Bool.not_eq_true'] at exits
          obtain ⟨rfl, exits⟩ := exits
          exact ⟨_, .replaced [other] (edits_refl first) exits here⟩
        · cases here
      · obtain ⟨others, edits⟩ := edits_in_allowed unreachable other _ rest later
        exact ⟨_, .cons (edits_refl first) edits⟩

end

end Stmt

def Usage.OnlyUnread (usage : Usage) : Prop :=
  ∀ warning ∈ usage.found, warning.suspicion.isUnreachable = false

namespace Usage

variable {usage : Usage}

theorem unread_warning {declared : List Local} {warning : Warning}
    (found : warning ∈ declared.filterMap Local.warning?) :
    warning.suspicion.isUnreachable = false := by
  obtain ⟨variableSeen, -, reported⟩ := List.mem_filterMap.mp found
  unfold Local.warning? at reported
  split at reported
  · cases reported
  · cases reported
    rfl

theorem OnlyUnread.more (unread : usage.OnlyUnread) {declared : List Local}
    {scopes : List (List Local)} :
    OnlyUnread ⟨scopes, usage.found ++ declared.filterMap Local.warning?⟩ := by
  intro warning found
  exact (List.mem_append.mp found).elim (unread warning) unread_warning

theorem OnlyUnread.read_all (unread : usage.OnlyUnread) (expression : Expr) :
    (usage.readAll expression).OnlyUnread := by
  unfold readAll
  generalize expression.reads = names
  induction names generalizing usage with
  | nil => exact unread
  | cons name names ih =>
      apply ih
      exact unread

theorem OnlyUnread.declare (unread : usage.OnlyUnread) (name : String) (location : Span) :
    (usage.declare name location).OnlyUnread := by
  unfold Usage.declare
  split
  · exact unread
  · exact unread.more

theorem OnlyUnread.close_scope (unread : usage.OnlyUnread)
    (arrange : List Local → List Local) : (usage.closeScope arrange).OnlyUnread := by
  unfold closeScope
  split
  · exact unread
  · exact unread.more

end Usage

namespace Stmt

mutual

theorem track_only_unread (arrange : List Local → List Local) (statement : Stmt) {usage : Usage}
    (unread : usage.OnlyUnread) : (statement.track arrange usage).OnlyUnread := by
  cases statement with
  | expression value => exact unread.read_all value
  | print keyword value => exact unread.read_all value
  | declare name initial =>
      cases initial with
      | none => exact unread.declare _ _
      | some initial => exact (unread.read_all initial).declare _ _
  | block body location =>
      have opened : usage.openScope.OnlyUnread := unread
      exact (track_all_only_unread arrange body opened).close_scope arrange
  | ifThen keyword condition consequent =>
      exact track_only_unread arrange consequent (unread.read_all condition)
  | ifElse keyword condition consequent alternative =>
      have first := track_only_unread arrange consequent (unread.read_all condition)
      exact track_only_unread arrange alternative first
  | loop keyword condition body => exact track_only_unread arrange body (unread.read_all condition)
  | function name parameters body =>
      have opened : usage.openScope.OnlyUnread := unread
      exact (track_all_only_unread arrange body opened).close_scope arrange
  | returnValue keyword value =>
      cases value with
      | none => exact unread
      | some value => exact unread.read_all value
  | breakLoop keyword => exact unread

theorem track_all_only_unread (arrange : List Local → List Local) (body : List Stmt)
    {usage : Usage} (unread : usage.OnlyUnread) :
    (trackAll arrange body usage).OnlyUnread := by
  cases body with
  | nil => exact unread
  | cons first rest =>
      exact track_all_only_unread arrange rest (track_only_unread arrange first unread)

end

end Stmt

/-- What the check reports as unreachable, it finds by following control. -/
theorem flow_warning_of_unreachable {program : Program} {warning : Warning}
    (reported : warning ∈ program.problems.warnings)
    (unreachable : warning.suspicion.isUnreachable = true) :
    warning ∈ Stmt.flowWarningsIn false program := by
  apply ((warning_iff program warning).mp reported).resolve_right
  intro found
  have start : Usage.start.OnlyUnread := nofun
  rw [Stmt.track_all_only_unread id program start warning found] at unreachable
  cases unreachable

end Treewalk
