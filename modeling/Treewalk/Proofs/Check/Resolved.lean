import Treewalk.Proofs.Check.Arrangement
import Treewalk.Proofs.Program.Resolution

/-!
# Unread variables

The check keeps a stack of scopes with the variables that can still be read, each with a flag.
Walking through the mentions of a program, the stack has a layer for each open scope, which holds
the latest declaration of every name in it, and the flag of a variable says whether a read name has
meant it. A variable leaves the stack when it is declared again or its scope is closed; no name
means it after that, so the flag is right when the variable is reported.
-/

namespace Treewalk

set_option autoImplicit false

open Mention

def Usage.follow (usage : Usage) : Mention → Usage
  | .opens => usage.openScope
  | .closes => usage.closeScope id
  | .declares name => usage.declare name.lexeme name.span
  | .reads name => usage.mark name

theorem Usage.read_all_eq (usage : Usage) (expression : Expr) :
    usage.readAll expression = expression.mentions.foldl Usage.follow usage := by
  rw [Usage.readAll, expression.mentions_eq, List.foldl_map]
  rfl

namespace Stmt

mutual

theorem track_eq (statement : Stmt) (usage : Usage) :
    statement.track id usage = statement.mentions.foldl Usage.follow usage := by
  cases statement with
  | expression value => exact usage.read_all_eq value
  | print keyword value => exact usage.read_all_eq value
  | declare name initial =>
      cases initial with
      | none => rfl
      | some initial =>
          rw [track, mentions, List.foldl_append, Usage.read_all_eq]
          rfl
  | block body location =>
      rw [track, track_all_eq body, mentions, List.foldl_cons, List.foldl_append]
      rfl
  | ifThen keyword condition consequent =>
      rw [track, track_eq consequent, mentions, List.foldl_append, Usage.read_all_eq]
  | ifElse keyword condition consequent alternative =>
      rw [track, track_eq alternative, track_eq consequent, mentions, List.foldl_append,
        List.foldl_append, Usage.read_all_eq]
  | loop keyword condition body =>
      rw [track, track_eq body, mentions, List.foldl_append, Usage.read_all_eq]
  | function name parameters body =>
      rw [track, track_all_eq body, mentions, List.foldl_cons, List.foldl_append]
      rfl
  | returnValue keyword value =>
      cases value with
      | none => rfl
      | some value => exact usage.read_all_eq value
  | breakLoop keyword => rfl

theorem track_all_eq (body : List Stmt) (usage : Usage) :
    trackAll id body usage = (mentionsIn body).foldl Usage.follow usage := by
  cases body with
  | nil => rfl
  | cons first rest =>
      rw [trackAll, track_all_eq rest, track_eq first, mentionsIn, List.foldl_append]

end

end Stmt

namespace Mention

variable {text : List Mention}

/-- The variable that is declared at a place, as the check knows it in front of another place. -/
def localAt (text : List Mention) (bound place : Nat) : Local :=
  match text[place]? with
  | some (.declares name) => ⟨name.lexeme, name.span, isRead text bound place⟩
  | _ => default

/-- The places in front of another one where variables are declared in scopes. -/
def localsBefore (text : List Mention) (bound : Nat) : List Nat :=
  (List.range bound).filter fun place => (local? text place).isSome

def Holds (text : List Mention) (bound : Nat) (layer : List Nat) (scope : Nat) : Prop :=
  ∀ place, place ∈ layer ↔ ∃ name, latest? text scope name bound = some place

end Mention

/-- What the check knows in front of a place: the variables on the stack, layer by layer, and those
that have left it. -/
structure Usage.Tracks (usage : Usage) (text : List Mention) (bound : Nat)
    (layers : List (List Nat)) (left : List Nat) : Prop where
  scopes : usage.scopes = layers.map fun layer => layer.map (localAt text bound)
  found : usage.found = (left.map (localAt text bound)).filterMap Local.warning?
  all : (left ++ layers.flatten).Perm (localsBefore text bound)
  holds : List.Forall₂ (Holds text bound) layers (openAt text bound)

namespace Mention

section Steps

variable {text : List Mention} {bound place scope : Nat} {layer : List Nat} {name : String}

/-- The name of a variable on the stack is the one that it is the latest declaration of. -/
theorem Holds.name_eq (holds : Holds text bound layer scope) (inside : place ∈ layer) :
    (localAt text bound place).name = name ↔ latest? text scope name bound = some place := by
  obtain ⟨own, latest⟩ := (holds place).mp inside
  obtain ⟨token, found, lexeme, -⟩ := declared_eq_some_iff.mp (latest_eq_some_iff.mp latest).2.1
  have named : (localAt text bound place).name = own := by
    rw [localAt, found]
    exact lexeme
  rw [named]
  constructor
  · rintro rfl
    exact latest
  · intro latestToo
    have both := (latest_eq_some_iff.mp latest).2.1.symm.trans (latest_eq_some_iff.mp latestToo).2.1
    exact Option.some.inj both

theorem Holds.keep (holds : Holds text bound layer scope)
    (none : declared? text scope bound = none) : Holds text (bound + 1) layer scope := by
  intro place
  rw [holds place]
  simp [latest?, none]

theorem Holds.replace (holds : Holds text bound layer scope)
    (declared : declared? text scope bound = some name) :
    Holds text (bound + 1)
      ((layer.filter fun place => (localAt text bound place).name ≠ name) ++ [bound]) scope := by
  intro place
  rw [List.mem_append, List.mem_filter, List.mem_singleton, decide_eq_true_eq]
  constructor
  · rintro (⟨inside, different⟩ | rfl)
    · obtain ⟨own, latest⟩ := (holds place).mp inside
      have named := (holds.name_eq inside).mpr latest
      refine ⟨own, ?_⟩
      rw [latest?, if_neg]
      · exact latest
      · rw [declared]
        rintro ⟨⟩
        exact different named
    · exact ⟨name, by rw [latest?, if_pos declared]⟩
  · rintro ⟨other, latest⟩
    rw [latest?] at latest
    split at latest
    · exact .inr (Option.some.inj latest).symm
    · rename_i different
      have inside := (holds place).mpr ⟨other, latest⟩
      refine .inl ⟨inside, ?_⟩
      rw [(holds.name_eq inside).mpr latest]
      rintro rfl
      exact different declared

/-- The other layers stay as they are where something is declared in a scope. -/
theorem keep_all {layers : List (List Nat)} {scopes : List Nat}
    (holds : List.Forall₂ (Holds text bound) layers scopes)
    (none : ∀ scope ∈ scopes, declared? text scope bound = none) :
    List.Forall₂ (Holds text (bound + 1)) layers scopes := by
  induction holds with
  | nil => exact .nil
  | cons first others ih =>
      obtain ⟨here, behind⟩ := List.forall_mem_cons.mp none
      exact .cons (first.keep here) (ih behind)

theorem local_at_succ (unmeant : target? text bound ≠ some place) :
    localAt text (bound + 1) place = localAt text bound place := by
  simp [localAt, is_read_succ, unmeant]

/-- Where no name is read, what is known of the variables stays as it is. -/
theorem local_at_quiet (silent : target? text bound = none) :
    localAt text (bound + 1) = localAt text bound :=
  funext fun _ => local_at_succ (by simp [silent])

theorem local_at_meant (meant : target? text bound = some place) :
    localAt text (bound + 1) place = { localAt text bound place with used := true } := by
  obtain ⟨scope, name, latest⟩ := latest_of_target meant
  obtain ⟨token, found, -⟩ := declared_eq_some_iff.mp (latest_eq_some_iff.mp latest).2.1
  simp [localAt, found, is_read_succ, meant]

theorem meant_mem {layers : List (List Nat)} {scopes : List Nat}
    (holds : List.Forall₂ (Holds text bound) layers scopes)
    (meant : (scopes.findSome? fun scope => latest? text scope name bound) = some place) :
    place ∈ layers.flatten := by
  induction holds with
  | nil => cases meant
  | cons first others ih =>
      rw [List.findSome?_cons] at meant
      split at meant
      · rename_i latest
        cases meant
        exact List.mem_append_left _ ((first place).mpr ⟨name, latest⟩)
      · exact List.mem_append_right _ (ih meant)

theorem mark_in_layers {layers : List (List Nat)} {scopes : List Nat}
    (holds : List.Forall₂ (Holds text bound) layers scopes) (distinct : layers.flatten.Nodup)
    {after : Nat → Local}
    (meant : ∀ place, (scopes.findSome? fun scope => latest? text scope name bound) = some place →
      after place = { localAt text bound place with used := true })
    (others : ∀ place, (scopes.findSome? fun scope => latest? text scope name bound) ≠ some place →
      after place = localAt text bound place) :
    Usage.markIn name (layers.map fun layer => layer.map (localAt text bound)) =
      layers.map fun layer => layer.map after := by
  induction holds with
  | nil => rfl
  | @cons inner scope outer scopes first behind ih =>
      obtain ⟨-, distinctOuter, apart⟩ := List.nodup_append.mp distinct
      rw [List.map_cons, List.map_cons]
      rcases Usage.mark_in_cons name (inner.map (localAt text bound))
          (outer.map fun layer => layer.map (localAt text bound)) with
        ⟨⟨seen, listed, named⟩, marked⟩ | ⟨missing, marked⟩
      · obtain ⟨found, inside, rfl⟩ := List.mem_map.mp listed
        have latest := (first.name_eq inside).mp named
        rw [List.findSome?_cons, latest] at meant others
        rw [marked]
        congr 1
        · rw [List.map_map]
          refine List.map_congr_left fun place here => ?_
          by_cases same : (localAt text bound place).name = name
          · rw [Function.comp_apply, if_pos same, meant place]
            exact latest.symm.trans ((first.name_eq here).mp same)
          · rw [Function.comp_apply, if_neg same, others place]
            rintro ⟨⟩
            exact same named
        · -- What the name means is in this layer, so it is in no outer one.
          refine List.map_congr_left fun layer isLayer => List.map_congr_left fun place here => ?_
          rw [others place]
          rintro ⟨⟩
          exact apart found inside found (List.mem_flatten_of_mem isLayer here) rfl
      · have latest : latest? text scope name bound = none := by
          rw [Option.eq_none_iff_forall_ne_some]
          intro place latest
          have inside : place ∈ inner := (first place).mpr ⟨name, latest⟩
          exact missing _ (List.mem_map_of_mem inside) ((first.name_eq inside).mpr latest)
        rw [List.findSome?_cons, latest] at meant others
        rw [marked, ih distinctOuter meant others]
        congr 1
        refine List.map_congr_left fun place here => ?_
        rw [others place]
        intro target
        exact apart place here place (meant_mem behind target) rfl

theorem locals_before_succ (text : List Mention) (bound : Nat) :
    localsBefore text (bound + 1) =
      localsBefore text bound ++ if (local? text bound).isSome then [bound] else [] := by
  rw [localsBefore, List.range_succ, List.filter_append]
  by_cases here : (local? text bound).isSome = true
  all_goals simp [localsBefore, here]

/-- What is replaced goes to the left, and what is new comes behind what is kept. -/
theorem replaced_perm {replaced kept inner : List Nat} (left outer : List Nat) (new : Nat)
    (split : (replaced ++ kept).Perm inner) :
    (left ++ replaced ++ (kept ++ [new] ++ outer)).Perm (left ++ (inner ++ outer) ++ [new]) := by
  rw [List.perm_iff_count]
  intro place
  have parts := List.perm_iff_count.mp split place
  simp only [List.count_append] at parts ⊢
  omega

theorem locals_before_nodup : (localsBefore text bound).Nodup :=
  List.nodup_range.filter _

end Steps

end Mention

namespace Usage.Tracks

variable {text : List Mention} {bound : Nat} {usage : Usage} {layers : List (List Nat)}
  {left : List Nat}

theorem nodup (tracks : usage.Tracks text bound layers left) : (left ++ layers.flatten).Nodup :=
  tracks.all.nodup_iff.mpr locals_before_nodup

theorem outside (tracks : usage.Tracks text bound [] left) (silent : target? text bound = none)
    (plain : local? text bound = none) (nowhere : openAt text (bound + 1) = []) :
    usage.Tracks text (bound + 1) [] left := by
  refine ⟨tracks.scopes, ?_, ?_, ?_⟩
  · rw [local_at_quiet silent]
    exact tracks.found
  · simpa [locals_before_succ, plain] using tracks.all
  · rw [nowhere]
    exact .nil

/-- A new scope holds nothing, since all declarations stand in front of it. -/
theorem opens (tracks : usage.Tracks text bound layers left) (here : text[bound]? = some .opens) :
    usage.openScope.Tracks text (bound + 1) ([] :: layers) left := by
  have known : localAt text (bound + 1) = localAt text bound :=
    local_at_quiet (by simp [target?, here])
  refine ⟨?_, ?_, ?_, ?_⟩
  · rw [known]
    exact congrArg (List.cons []) tracks.scopes
  · rw [known]
    exact tracks.found
  · simpa [locals_before_succ, local?, here] using tracks.all
  · rw [openAt, here]
    refine .cons ?_ (keep_all tracks.holds (by simp [declared?, here]))
    intro place
    constructor
    · exact fun inside => absurd inside List.not_mem_nil
    · rintro ⟨name, latest⟩
      obtain ⟨below, declared, -⟩ := latest_eq_some_iff.mp latest
      have := declared_lt declared
      omega

theorem closes_inner {inner : List Nat} (tracks : usage.Tracks text bound (inner :: layers) left)
    (here : text[bound]? = some .closes) :
    (usage.closeScope id).Tracks text (bound + 1) layers (left ++ inner) := by
  have known : localAt text (bound + 1) = localAt text bound :=
    local_at_quiet (by simp [target?, here])
  have holds := keep_all tracks.holds (by simp [declared?, here])
  obtain ⟨scope, others, -, holdsOuter, isOpen⟩ := List.forall₂_cons_left_iff.mp holds
  refine ⟨?_, ?_, ?_, ?_⟩
  · rw [closeScope, tracks.scopes, known]
    rfl
  · rw [closeScope, tracks.scopes, known, List.map_append, List.filterMap_append, ← tracks.found]
    rfl
  · rw [List.append_assoc]
    simpa [locals_before_succ, local?, here] using tracks.all
  · rw [openAt, here, isOpen]
    exact holdsOuter

theorem closes (tracks : usage.Tracks text bound layers left) (here : text[bound]? = some .closes) :
    ∃ layers left, (usage.closeScope id).Tracks text (bound + 1) layers left := by
  cases layers with
  | nil =>
      have nowhere := List.forall₂_nil_left_iff.mp tracks.holds
      have same : usage.closeScope id = usage := by
        rw [closeScope, tracks.scopes]
        rfl
      rw [same]
      exact ⟨[], left, tracks.outside (by simp [target?, here]) (by simp [local?, here])
        (by rw [openAt, here, nowhere]; rfl)⟩
  | cons inner outer => exact ⟨outer, left ++ inner, tracks.closes_inner here⟩

theorem declares_inner {inner : List Nat} {name : Token}
    (tracks : usage.Tracks text bound (inner :: layers) left)
    (here : text[bound]? = some (.declares name)) :
    (usage.declare name.lexeme name.span).Tracks text (bound + 1)
      (((inner.filter fun place => (localAt text bound place).name ≠ name.lexeme) ++ [bound]) ::
        layers)
      (left ++ inner.filter fun place => (localAt text bound place).name = name.lexeme) := by
  have known : localAt text (bound + 1) = localAt text bound :=
    local_at_quiet (by simp [target?, here])
  obtain ⟨scope, others, holdsInner, holdsOuter, isOpen⟩ :=
    List.forall₂_cons_left_iff.mp tracks.holds
  refine ⟨?_, ?_, ?_, ?_⟩
  · have fresh : localAt text bound bound = ⟨name.lexeme, name.span, false⟩ := by
      simp [localAt, here, not_read_early (Nat.le_refl bound)]
    rw [Usage.declare, tracks.scopes, known]
    simp [List.filter_map, Function.comp_def, fresh]
  · rw [Usage.declare, tracks.scopes, known]
    simp [List.filter_map, Function.comp_def, tracks.found]
  · have split : ((inner.filter fun place => (localAt text bound place).name = name.lexeme) ++
        inner.filter fun place => (localAt text bound place).name ≠ name.lexeme).Perm inner := by
      simpa using List.filter_append_perm
        (fun place => decide ((localAt text bound place).name = name.lexeme)) inner
    have isLocal : (local? text bound).isSome = true := by
      simp [local?, here, isOpen]
    rw [locals_before_succ, if_pos isLocal]
    exact (replaced_perm left layers.flatten bound split).trans (tracks.all.append_right _)
  · have distinct : (openAt text bound).Nodup := open_at_nodup
    rw [isOpen] at distinct
    rw [openAt, here, isOpen]
    refine .cons (holdsInner.replace (by simp [declared?, here, isOpen])) ?_
    refine keep_all holdsOuter fun other inside => ?_
    simp only [declared?, here, isOpen, List.head?_cons, Option.some.injEq]
    apply if_neg
    rintro rfl
    exact (List.nodup_cons.mp distinct).1 inside

theorem declares {name : Token} (tracks : usage.Tracks text bound layers left)
    (here : text[bound]? = some (.declares name)) :
    ∃ layers left, (usage.declare name.lexeme name.span).Tracks text (bound + 1) layers left := by
  cases layers with
  | nil =>
      have nowhere := List.forall₂_nil_left_iff.mp tracks.holds
      rw [declare_outside tracks.scopes]
      exact ⟨[], left, tracks.outside (by simp [target?, here]) (by simp [local?, here, nowhere])
        (by rw [openAt, here, nowhere])⟩
  | cons inner outer => exact ⟨_, _, tracks.declares_inner here⟩

theorem reads {name : String} (tracks : usage.Tracks text bound layers left)
    (here : text[bound]? = some (.reads name)) :
    (usage.mark name).Tracks text (bound + 1) layers left := by
  have target : target? text bound =
      (openAt text bound).findSome? fun scope => latest? text scope name bound := by
    rw [target?, here]
  have distinct := tracks.nodup
  obtain ⟨-, distinctLayers, apart⟩ := List.nodup_append.mp distinct
  refine ⟨?_, ?_, ?_, ?_⟩
  · rw [Usage.mark, tracks.scopes]
    apply mark_in_layers tracks.holds distinctLayers
    · exact fun place meant => local_at_meant (target.trans meant)
    · exact fun place unmeant => local_at_succ (target ▸ unmeant)
  · rw [Usage.mark, tracks.found]
    refine congrArg (List.filterMap Local.warning?) (List.map_congr_left fun place gone => ?_)
    refine (local_at_succ ?_).symm
    rw [target]
    intro meant
    exact apart place gone place (meant_mem tracks.holds meant) rfl
  · simpa [locals_before_succ, local?, here] using tracks.all
  · rw [openAt, here]
    exact keep_all tracks.holds (by simp [declared?, here])

theorem follow (tracks : usage.Tracks text bound layers left) {mention : Mention}
    (here : text[bound]? = some mention) :
    ∃ layers left, (usage.follow mention).Tracks text (bound + 1) layers left := by
  cases mention with
  | opens => exact ⟨_, _, tracks.opens here⟩
  | closes => exact tracks.closes here
  | declares name => exact tracks.declares here
  | reads name => exact ⟨_, _, tracks.reads here⟩

end Usage.Tracks

theorem tracks_at {text : List Mention} {bound : Nat} (inside : bound ≤ text.length) :
    ∃ layers left,
      ((text.take bound).foldl Usage.follow Usage.start).Tracks text bound layers left := by
  induction bound with
  | zero => exact ⟨[], [], rfl, rfl, .nil, .nil⟩
  | succ bound ih =>
      obtain ⟨layers, left, tracks⟩ := ih (Nat.le_of_succ_le inside)
      rw [List.take_succ_eq_append_getElem inside, List.foldl_append]
      exact tracks.follow (List.getElem?_eq_getElem inside)

def Token.unusedWarning (name : Token) : Warning :=
  ⟨.unusedVariable name.lexeme, name.span⟩

/-- The variables that have left the stack without being read are the unread ones. -/
theorem unread_eq (text : List Mention) :
    ((localsBefore text text.length).map (localAt text text.length)).filterMap Local.warning? =
      (unread text).map Token.unusedWarning := by
  rw [localsBefore, unread, List.filterMap_map, List.filterMap_filter, List.filterMap_filter,
    List.map_filterMap]
  refine List.filterMap_congr fun place _ => ?_
  unfold local?
  split
  · rename_i name found
    by_cases outside : openAt text place = []
    · simp [outside]
    · by_cases read : isRead text text.length place = true
      all_goals simp [outside, read, localAt, found, Local.warning?, Token.unusedWarning]
  · simp

/-- At the end of a program the check has reported all unread variables. -/
theorem unused_variables_perm (program : Program) :
    (program.unusedVariables id).Perm
      ((unread (Stmt.mentionsIn program)).map Token.unusedWarning) := by
  obtain ⟨layers, left, tracks⟩ := tracks_at (Nat.le_refl (Stmt.mentionsIn program).length)
  rw [List.take_length] at tracks
  have empty : layers = [] := by
    have holds := tracks.holds
    rw [(balanced_program program).1] at holds
    exact List.forall₂_nil_right_iff.mp holds
  have all := tracks.all
  rw [empty, List.flatten_nil, List.append_nil] at all
  rw [Program.unusedVariables, Stmt.track_all_eq, tracks.found, ← unread_eq]
  exact (all.map _).filterMap _

/-- The reports about variables are those of the walk that follows variables, sorted. -/
theorem unused_warnings_perm (program : Program) :
    (program.problems.warnings.filter Warning.isUnused).Perm
      ((unread (Stmt.mentionsIn program)).map Token.unusedWarning) := by
  have perm := unused_variables_perm program
  have flow : (Stmt.flowWarningsIn false program).filter Warning.isUnused = [] := by
    rw [List.filter_eq_nil_iff]
    intro warning found
    have other : warning.isUnused = false :=
      is_unused_eq_false fun _ => Stmt.flow_warnings_in_flow false program found
    simp [other]
  have unused : (program.unusedVariables id).filter Warning.isUnused =
      program.unusedVariables id := by
    rw [List.filter_eq_self]
    intro warning found
    obtain ⟨name, -, rfl⟩ := List.mem_map.mp (perm.mem_iff.mp found)
    rfl
  have parts := (problems_warnings_perm program id).filter Warning.isUnused
  rw [List.filter_append, flow, unused, List.nil_append] at parts
  exact parts.trans perm

/-- Among the sorted warnings of a program, the reports about variables are sorted. -/
theorem unused_warnings_sorted (program : Program)
    (ordered : ((unread (Stmt.mentionsIn program)).map Token.unusedWarning).Pairwise
      fun warning later => warning.start < later.start) :
    program.problems.warnings.filter Warning.isUnused =
      (unread (Stmt.mentionsIn program)).map Token.unusedWarning := by
  have perm := unused_warnings_perm program
  have sorted : (program.problems.warnings.filter Warning.isUnused).Pairwise
      fun warning later => warning.start ≤ later.start :=
    (sort_on_sorted Warning.start _).filter _
  have distinct :
      ((program.problems.warnings.filter Warning.isUnused).map Warning.start).Nodup := by
    rw [(perm.map Warning.start).nodup_iff]
    exact List.pairwise_map.mpr (ordered.imp Nat.ne_of_lt)
  exact eq_of_sorted_of_filter sorted (ordered.imp Nat.le_of_lt)
    (filter_eq_of_perm perm distinct)

/-- The reports about variables are one for each variable that is declared inside of a block or a
function and that no read name means; a name means the latest declaration in front of it in the
innermost open scope that has one. If places fit in 32 bits, they are in the order of the text. -/
theorem unused_warnings_are_unread_locals (source : String) (program : Program)
    (parsed : parse source = .ok program) :
    (program.problems.warnings.filter Warning.isUnused).Perm
        ((unread (Stmt.mentionsIn program)).map Token.unusedWarning) ∧
      (List.range (Stmt.mentionsIn program).length).filterMap
          (local? (Stmt.mentionsIn program)) =
        (Stmt.occurrencesIn [] program).filterMap Occurrence.local? ∧
      (source.utf8ByteSize < 2 ^ 32 →
        program.problems.warnings.filter Warning.isUnused =
            (unread (Stmt.mentionsIn program)).map Token.unusedWarning ∧
          (unread (Stmt.mentionsIn program)).Pairwise fun name later =>
            name.span.start < later.span.start) := by
  have locals := (balanced_program program).2
  refine ⟨unused_warnings_perm program, locals, fun short => ?_⟩
  have ordered : (unread (Stmt.mentionsIn program)).Pairwise fun name later =>
      name.span.start < later.span.start := by
    have sub : (unread (Stmt.mentionsIn program)).Sublist (Stmt.declaredIn program) := by
      refine .trans ?_ (locals_in_sublist program [])
      rw [← locals]
      exact List.filter_sublist.filterMap _
    exact (declared_ordered short parsed).sublist sub
  exact ⟨unused_warnings_sorted program (List.pairwise_map.mpr ordered), ordered⟩

/-- An initial value that reads the variable around, a variable that is declared again and read in a
function, and one that is assigned only. -/
theorem unused_warnings_are_unread_locals_shadowed :
    ∃ program,
      parse "var g; { var a = 1; { var a = a; } var a = 2; fun f(b) { print a; } var c; c = 1; }" =
        .ok program ∧
      program.problems.warnings.filter Warning.isUnused =
        [⟨.unusedVariable "a", ⟨26, 27⟩⟩, ⟨.unusedVariable "c", ⟨72, 73⟩⟩] := by
  obtain ⟨program, parsed, listed⟩ : ∃ program,
      parse "var g; { var a = 1; { var a = a; } var a = 2; fun f(b) { print a; } var c; c = 1; }" =
        .ok program ∧
      decide ((unread (Stmt.mentionsIn program)).map Token.unusedWarning =
        [⟨.unusedVariable "a", ⟨26, 27⟩⟩, ⟨.unusedVariable "c", ⟨72, 73⟩⟩]) = true :=
    exists_ok_of_any (by decide +kernel)
  refine ⟨program, parsed, ?_⟩
  rw [((unused_warnings_are_unread_locals _ program parsed).2.2 (by decide)).1]
  exact of_decide_eq_true listed

end Treewalk
