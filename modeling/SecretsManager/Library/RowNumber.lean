import Mathlib.Data.List.MinMax
import Mathlib.Data.List.Nodup

/-!
# The window function ROW_NUMBER

Rows are numbered inside the partition of their key, in the order of a rank. The rows with number 1 are the least
ones: when the rank tells the rows apart, one for each key.
-/

namespace SecretsManager.RowNumber

variable {α K L : Type} [DecidableEq K] [LinearOrder L] {key : α → K} {rank : α → L} {rows : List α} {row r : α}

/-- `ROW_NUMBER() OVER (PARTITION BY key ORDER BY rank)`, for a rank without ties inside a partition. -/
def rowNumber (key : α → K) (rank : α → L) (rows : List α) (row : α) : Nat :=
  rows.countP (fun r => key r = key row ∧ rank r < rank row) + 1

theorem rowNumber_eq_one_iff :
    rowNumber key rank rows row = 1 ↔ ∀ r ∈ rows, key r = key row → rank row ≤ rank r := by
  rw [rowNumber, Nat.add_eq_right, List.countP_eq_zero]
  refine forall₂_congr fun r _ => ?_
  rw [decide_eq_true_eq, not_and, not_lt]

/-- Every key of a row has a first row. -/
theorem exists_first (h : row ∈ rows) : ∃ r ∈ rows, key r = key row ∧ rowNumber key rank rows r = 1 := by
  have hpartition : row ∈ rows.filter fun r => key r = key row := List.mem_filter.mpr ⟨h, decide_eq_true rfl⟩
  cases hmin : (rows.filter fun r => key r = key row).argmin rank with
  | none => exact absurd (List.argmin_eq_none.mp hmin) (List.ne_nil_of_mem hpartition)
  | some r =>
      obtain ⟨hr, hkey⟩ := List.mem_filter.mp (List.argmin_mem hmin)
      refine ⟨r, hr, of_decide_eq_true hkey, rowNumber_eq_one_iff.mpr fun s hs hsr => ?_⟩
      have hs' : s ∈ rows.filter fun r => key r = key row :=
        List.mem_filter.mpr ⟨hs, decide_eq_true (hsr.trans (of_decide_eq_true hkey))⟩
      exact List.le_of_mem_argmin hs' hmin

/-- The first row of a key is the only one, when no two rows have the same rank. -/
theorem first_unique (hrank : ∀ r ∈ rows, ∀ s ∈ rows, rank r = rank s → r = s) (hrow : row ∈ rows) (hr : r ∈ rows)
    (hkey : key r = key row) (hfirst : rowNumber key rank rows row = 1) (hfirst' : rowNumber key rank rows r = 1) :
    r = row := by
  have hle := rowNumber_eq_one_iff.mp hfirst r hr hkey
  have hge := rowNumber_eq_one_iff.mp hfirst' row hrow hkey.symm
  exact hrank r hr row hrow (le_antisymm hge hle)

/-- Of the rows with number 1 one has the key. -/
theorem filter_first (hnodup : rows.Nodup) (hrank : ∀ r ∈ rows, ∀ s ∈ rows, rank r = rank s → r = s) (hrow : row ∈ rows) :
    ∃ r ∈ rows, rowNumber key rank rows r = 1 ∧
      ((rows.filter fun s => rowNumber key rank rows s = 1).filter fun s => key s = key row) = [r] := by
  obtain ⟨r, hr, hkey, hfirst⟩ : ∃ r ∈ rows, key r = key row ∧ rowNumber key rank rows r = 1 := exists_first hrow
  refine ⟨r, hr, hfirst, List.perm_singleton.mp ?_⟩
  refine (List.perm_ext_iff_of_nodup ((hnodup.filter _).filter _) (List.nodup_singleton r)).mpr fun s => ?_
  rw [List.mem_filter, List.mem_filter, List.mem_singleton, decide_eq_true_eq, decide_eq_true_eq]
  constructor
  · rintro ⟨⟨hs, hsfirst⟩, hskey⟩
    exact first_unique hrank hr hs (hskey.trans hkey.symm) hfirst hsfirst
  · rintro rfl
    exact ⟨⟨hr, hfirst⟩, hkey⟩

end SecretsManager.RowNumber
