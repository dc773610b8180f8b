import Mathlib.Data.List.Nodup

/-!
# Reading a growing list by pages

A reader collects a list page by page, while items are inserted anywhere between two reads. Its cursor is the last
item collected: a page is read from what comes after the cursor. At the end all items of the first list have been
collected, in the order of the list, whatever has been inserted before the cursor and after it.
-/

namespace SecretsManager.CursorPages

variable {α : Type} {first items items' collected rest before after before' after' : List α} {cursor : α}

/-- An item that occurs once splits a sublist where it splits the list. -/
theorem sublist_split (hnodup : (before' ++ cursor :: after').Nodup)
    (h : (before ++ cursor :: after).Sublist (before' ++ cursor :: after')) :
    before.Sublist before' ∧ after.Sublist after' := by
  obtain ⟨left, right, hsplit, hleft, hright⟩ := List.sublist_append_iff.mp h
  have hcursor := List.disjoint_of_nodup_append hnodup
  obtain ⟨hafter', -⟩ := List.nodup_cons.mp (List.nodup_append'.mp hnodup).2.1
  rcases List.append_eq_append_iff.mp hsplit with ⟨between, hbefore, hrest⟩ | ⟨between, rfl, rfl⟩
  · -- the cursor is not left of where the list has it
    cases between with
    | nil =>
        rw [List.append_nil] at hbefore
        rw [List.nil_append] at hrest
        rw [← hbefore]
        rw [← hrest] at hright
        exact ⟨hleft, List.cons_sublist_cons.mp hright⟩
    | cons c between =>
        obtain ⟨rfl, -⟩ := List.cons.inj hrest
        rw [hbefore] at hleft
        exact absurd (List.mem_cons_self) (hcursor (hleft.subset (by simp)))
  · cases between with
    | nil =>
        rw [List.append_nil]
        exact ⟨hleft, List.cons_sublist_cons.mp hright⟩
    | cons c between =>
        -- nor right of it
        refine absurd ?_ hafter'
        have htail := hright.tail
        exact htail.subset (by simp)

/-- Of two sublists of a list without duplicates, the one with fewer items is a sublist of the other. -/
theorem sublist_of_subset (hnodup : items.Nodup) (hfirst : first.Sublist items) (hcollected : collected.Sublist items)
    (hsubset : first ⊆ collected) : first.Sublist collected := by
  induction hcollected generalizing first with
  | slnil => exact hfirst
  | cons item hcollected ih =>
      obtain ⟨hitem, hnodup⟩ := List.nodup_cons.mp hnodup
      cases hfirst with
      | cons _ hfirst => exact ih hnodup hfirst hsubset
      | cons_cons _ hfirst => exact absurd (hcollected.subset (hsubset List.mem_cons_self)) hitem
  | cons_cons item hcollected ih =>
      obtain ⟨hitem, hnodup⟩ := List.nodup_cons.mp hnodup
      cases hfirst with
      | cons _ hfirst =>
          refine (ih hnodup hfirst fun s hs => ?_).cons item
          exact (List.mem_cons.mp (hsubset hs)).resolve_left fun heq => hitem (heq ▸ hfirst.subset hs)
      | cons_cons _ hfirst =>
          refine (ih hnodup hfirst fun s hs => ?_).cons_cons item
          exact (List.mem_cons.mp (hsubset (List.mem_cons_of_mem _ hs))).resolve_left fun heq =>
            hitem (heq ▸ hfirst.subset hs)

/-- The items before `rest` have been passed: those that are in the first list are collected, and the last one
is the cursor. -/
structure Collects (first items collected rest : List α) (passed : List α) : Prop where
  items_eq : items = passed ++ rest
  sublist : collected.Sublist passed
  cursor : passed.getLast? = collected.getLast?
  complete : ∀ s ∈ first, s ∈ passed → s ∈ collected

namespace Collects

variable {passed : List α}

theorem start (first items : List α) : Collects first items [] items [] := ⟨rfl, .refl _, rfl, nofun⟩

theorem read (h : Collects first items collected rest passed) (n : Nat) :
    Collects first items (collected ++ rest.take n) (rest.drop n) (passed ++ rest.take n) where
  items_eq := by rw [List.append_assoc, List.take_append_drop, h.items_eq]
  sublist := h.sublist.append (.refl _)
  cursor := by rw [List.getLast?_append, List.getLast?_append, h.cursor]
  complete s hs hmem := by
    rcases List.mem_append.mp hmem with hmem | hmem
    · exact List.mem_append_left _ (h.complete s hs hmem)
    · exact List.mem_append_right _ hmem

/-- What has been collected is found again in the grown list, with the rest after the cursor. -/
theorem grow (h : Collects first items collected rest passed) (hfirst : first ⊆ items) (hgrow : items.Sublist items')
    (hnodup : items'.Nodup) (hcursor : collected.getLast? = some cursor) (hitems' : items' = before' ++ cursor :: after') :
    Collects first items' collected after' (before' ++ [cursor]) := by
  obtain ⟨before, hpassed⟩ := List.getLast?_eq_some_iff.mp (h.cursor.trans hcursor)
  obtain ⟨kept, hkept⟩ := List.getLast?_eq_some_iff.mp hcursor
  have hitems : items = before ++ cursor :: rest := by rw [h.items_eq, hpassed, List.append_assoc]; rfl
  rw [hitems, hitems'] at hgrow
  rw [hitems'] at hnodup
  obtain ⟨hbefore, hrest⟩ := sublist_split hnodup hgrow
  refine ⟨by rw [hitems', List.append_assoc]; rfl, ?_, by rw [hcursor, List.getLast?_concat], fun s hs hmem => ?_⟩
  · exact h.sublist.trans (hpassed ▸ hbefore.append (.refl _))
  · refine h.complete s hs ?_
    have hitem := hfirst hs
    rw [h.items_eq] at hitem
    refine (List.mem_append.mp hitem).resolve_right fun hlater => ?_
    -- an item of the rest would come after the cursor in the grown list too
    rw [List.append_cons] at hnodup
    exact List.disjoint_of_nodup_append hnodup hmem (hrest.subset hlater)

theorem sublist_items (h : Collects first items collected rest passed) : collected.Sublist items := by
  rw [h.items_eq]
  exact h.sublist.trans (List.sublist_append_left _ _)

/-- When nothing is left to read, the first list has been collected in its order. -/
theorem first_sublist (h : Collects first items collected [] passed) (hfirst : first.Sublist items) (hnodup : items.Nodup) :
    first.Sublist collected := by
  refine sublist_of_subset hnodup hfirst h.sublist_items fun s hs => h.complete s hs ?_
  have hitem := hfirst.subset hs
  rw [h.items_eq, List.append_nil] at hitem
  exact hitem

end Collects

end SecretsManager.CursorPages
