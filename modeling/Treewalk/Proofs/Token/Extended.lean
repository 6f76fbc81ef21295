import Treewalk.Proofs.Token.Joined
import Treewalk.Proofs.Token.Strays

/-!
# Texts that go on in another way

A text without faults can be cut behind any of its tokens and go on in another way from there, if it
does so on a new line: the tokens in front of the cut stay, with their places.
-/

namespace Treewalk

set_option autoImplicit false

theorem items_of_clean {items : List Item} (clean : items.filterMap Item.error? = []) :
    items = (items.filterMap Item.token?).map .token := by
  induction items with
  | nil => rfl
  | cons item items ih =>
      cases item with
      | token found => exact congrArg (List.cons _) (ih clean)
      | error found => cases clean

theorem errors_of_tokens (tokens : List Token) :
    (tokens.map Item.token).filterMap Item.error? = [] := by
  rw [List.filterMap_map]
  exact List.filterMap_eq_nil_iff.mpr fun _ _ => rfl

theorem tokens_of_tokens (tokens : List Token) :
    (tokens.map Item.token).filterMap Item.token? = tokens := by
  rw [List.filterMap_map]
  exact List.filterMap_some

/-- Some of the chunks give the first tokens, whatever follows these chunks. -/
theorem Cursor.items_cut {ahead : List Chunk} {cursor : Cursor} {front behind : List Token}
    (items : itemsFrom ahead cursor = (front ++ behind).map .token) :
    ∃ first second, ahead = first ++ second ∧
      (∀ chunk ∈ first, ∀ cause, chunk.sort ≠ .fault cause) ∧
      ∀ (more : List Chunk) (other : Cursor), cursor.Meets other →
        ∃ after, itemsFrom (first ++ more) other = front.map .token ++ itemsFrom more after := by
  induction ahead generalizing cursor front with
  | nil =>
      have none : front = [] := (List.append_eq_nil_iff.mp (List.map_eq_nil_iff.mp items.symm)).1
      subst none
      exact ⟨[], [], rfl, List.forall_mem_nil _, fun more other _ => ⟨other, rfl⟩⟩
  | cons chunk ahead ih =>
      cases front with
      | nil =>
          exact ⟨[], chunk :: ahead, rfl, List.forall_mem_nil _, fun more other _ => ⟨other, rfl⟩⟩
      | cons token front =>
          rcases chunk with ⟨sort, lexeme⟩
          cases sort with
          | layout =>
              obtain ⟨first, second, rfl, sound, later⟩ :=
                @ih (cursor.past lexeme ahead) (token :: front) items
              refine ⟨⟨.layout, lexeme⟩ :: first, second, rfl, ?_, ?_⟩
              · exact List.forall_mem_cons.mpr ⟨fun cause => by simp, sound⟩
              · intro more other meets
                exact later more _ (meets.past lexeme (first ++ second) (first ++ more))
          | token kind literal =>
              injection items with head tail
              obtain ⟨first, second, rfl, sound, later⟩ := ih tail
              refine ⟨⟨.token kind literal, lexeme⟩ :: first, second, rfl, ?_, ?_⟩
              · exact List.forall_mem_cons.mpr ⟨fun cause => by simp, sound⟩
              · intro more other meets
                obtain ⟨after, same⟩ :=
                  later more _ (meets.past lexeme (first ++ second) (first ++ more))
                have placed : itemsFrom (⟨.token kind literal, lexeme⟩ :: first ++ more) other =
                    .token token :: itemsFrom (first ++ more)
                      (other.past lexeme (first ++ more)) := by
                  rw [← head]
                  simp only [List.cons_append, itemsFrom, item?, Cursor.past, meets.1, meets.2]
                exact ⟨after, placed.trans (congrArg (List.cons _) same)⟩
          | fault cause =>
              injection items with head
              cases head

/-- Tokens that begin the tokens of a text also begin those of a text in which other tokens follow.
-/
theorem scan_extended {source : String} {front behind more : List Token} {text : List Char}
    {ending : Token} (lexed : scan source = .ok (front ++ behind ++ [ending]))
    (spells : spelled text = more.map .ok) :
    ∃ other found closing, scan other = .ok (front ++ found ++ [closing]) ∧
      closing.kind = .endOfInput ∧ found.map Token.erase = more := by
  obtain ⟨clean, whole⟩ := scan_ok_iff.mp lexed
  obtain ⟨tokens, -⟩ := List.append_inj' whole rfl
  rw [errors_of_source, List.map_eq_nil_iff] at clean
  rw [tokens_of_source] at tokens
  obtain ⟨front, behind, cutTokens, rfl, rfl⟩ := List.map_eq_append_iff.mp tokens
  have items : (Scanned.ofText source.toList).items = (front ++ behind).map .token := by
    rw [items_of_clean clean, ← cutTokens]
    rfl
  obtain ⟨first, second, cut, sound, later⟩ := Cursor.items_cut items
  let longer := first.flatMap Chunk.lexeme ++ '\n' :: text
  have joined : chunks longer = first ++ chunks ('\n' :: text) := chunks_cut cut sound text
  obtain ⟨after, listed⟩ := later (chunks ('\n' :: text)) (Cursor.start longer) ⟨rfl, rfl⟩
  rw [← joined] at listed
  have erased : (Cursor.itemsFrom (chunks ('\n' :: text)) after).map Item.erase = more.map .ok := by
    rw [items_erase, ← spells, ← spelled_blank (show Chunk.isBlank '\n' = true by decide)]
    rfl
  obtain ⟨none, same⟩ := tokens_of_items erased
  have scanned : (Scanned.ofText (String.ofList longer).toList).items =
      front.map .token ++ Cursor.itemsFrom (chunks ('\n' :: text)) after := by
    rw [String.toList_ofList]
    exact listed
  refine ⟨String.ofList longer, _, (Scanned.ofSource (String.ofList longer)).closing,
    scan_ok_iff.mpr ⟨?_, ?_⟩, rfl, (erase_narrowed _).trans same⟩
  · rw [errors_of_source, Scanned.errors, scanned, List.filterMap_append, errors_of_tokens, none]
    rfl
  · rw [tokens_of_source, Scanned.tokens, scanned, List.filterMap_append, tokens_of_tokens,
      List.map_append]

end Treewalk
