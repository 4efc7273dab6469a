import Mathlib.Data.List.Basic
import Mathlib.Data.List.Perm.Basic

/-!
# Removal by swapping with the last element

`swapRemove l i` takes element `i` out of a vector in constant time: the last element moves into
its slot. The order after `i` changes, so a sweep that removes while it walks needs the split form:
what is before `i` stays, and what is after `i` stays after `i` up to order (`swapRemove_split`).
-/

namespace Nwep.Lib

universe u

variable {α : Type u}

/-- The last element, moved to the front. -/
def lastFirst (l : List α) : List α :=
  match l.getLast? with
  | none => []
  | some x => x :: l.dropLast

/-- `Vec::swap_remove`. -/
def swapRemove (l : List α) (i : Nat) : List α :=
  match l.getLast? with
  | none => []
  | some x => (l.set i x).dropLast

theorem lastFirst_snoc (l : List α) (x : α) : lastFirst (l ++ [x]) = x :: l := by
  simp [lastFirst]

theorem lastFirst_perm (l : List α) : (lastFirst l).Perm l := by
  rcases List.eq_nil_or_concat l with rfl | ⟨l', x, rfl⟩
  · exact List.Perm.refl _
  · rw [List.concat_eq_append, lastFirst_snoc]
    exact (List.perm_append_singleton x l').symm

/-- **What `swap_remove` does**: the part before stays, the part after is rotated once. -/
theorem swapRemove_split (pre : List α) (a : α) (post : List α) :
    swapRemove (pre ++ a :: post) pre.length = pre ++ lastFirst post := by
  rcases List.eq_nil_or_concat post with rfl | ⟨post', x, rfl⟩
  · simp [swapRemove, lastFirst]
  · rw [List.concat_eq_append, lastFirst_snoc]
    have hl : (pre ++ a :: (post' ++ [x])).getLast? = some x := by
      rw [← List.cons_append, ← List.append_assoc, List.getLast?_concat]
    have hs : (pre ++ a :: (post' ++ [x])).set pre.length x = (pre ++ x :: post') ++ [x] := by
      simp
    unfold swapRemove
    simp only [hl, hs, List.dropLast_concat]

/-- An element in range splits its list. -/
theorem split_of_getElem? {l : List α} {i : Nat} {a : α} (h : l[i]? = some a) :
    ∃ pre post, l = pre ++ a :: post ∧ pre.length = i := by
  obtain ⟨hi, ha⟩ := List.getElem?_eq_some_iff.mp h
  refine ⟨l.take i, l.drop (i + 1), ?_, List.length_take_of_le (Nat.le_of_lt hi)⟩
  rw [← ha, ← List.drop_eq_getElem_cons hi, List.take_append_drop]

/-- Removing element `i` removes exactly it, up to order. -/
theorem swapRemove_perm {l : List α} {i : Nat} {a : α} (h : l[i]? = some a) :
    l.Perm (a :: swapRemove l i) := by
  obtain ⟨pre, post, rfl, rfl⟩ := split_of_getElem? h
  rw [swapRemove_split]
  exact List.perm_middle.trans (((lastFirst_perm post).symm.append_left pre).cons a)

/-- Stepping over element `i`. -/
theorem mem_drop_succ {l : List α} {i : Nat} {a b : α} (h : l[i]? = some a) (hb : b ∈ l.drop i) :
    b = a ∨ b ∈ l.drop (i + 1) := by
  obtain ⟨hi, ha⟩ := List.getElem?_eq_some_iff.mp h
  rw [List.drop_eq_getElem_cons hi, ha] at hb
  exact List.mem_cons.mp hb

/-- What stood after `i` still stands at `i` or after. -/
theorem mem_drop_swapRemove {l : List α} {i : Nat} {a b : α} (h : l[i]? = some a)
    (hb : b ∈ l.drop i) : b = a ∨ b ∈ (swapRemove l i).drop i := by
  obtain ⟨pre, post, rfl, rfl⟩ := split_of_getElem? h
  rw [List.drop_left] at hb
  rw [swapRemove_split, List.drop_left]
  rcases List.mem_cons.mp hb with rfl | hb
  · exact Or.inl rfl
  · exact Or.inr ((lastFirst_perm post).mem_iff.mpr hb)

end Nwep.Lib
