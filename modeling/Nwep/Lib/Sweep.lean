import Nwep.Lib.Vec

/-!
# Sweeping a vector that shrinks under the index

`while i < v.len() { if remove(v[i]) { v.swap_remove(i) } else { i += 1 } }`: what `swap_remove`
moves into the slot at `i` has not been visited, so the index stays. The elements before `i` were
visited and kept, those from `i` on are not visited yet.

Results:
* `swapRemove?_length`: the measure `v.len() - i` decreases on both branches;
* **`sweep_split`**: a sweep from the end of a prefix visits the rest, each element once, and keeps
  the prefix and what it did not remove.
-/

namespace Nwep.Lib

variable {α : Type}

/-- `Vec::swap_remove`, with the element it returns. None is its panic on an index out of bounds. -/
def swapRemove? (l : List α) (i : Nat) : Option (α × List α) :=
  match l[i]? with
  | some a => some (a, swapRemove l i)
  | none => none

theorem swapRemove_length (l : List α) (i : Nat) : (swapRemove l i).length = l.length - 1 := by
  unfold swapRemove
  cases hl : l.getLast? with
  | none => simp [List.getLast?_eq_none_iff.mp hl]
  | some x => simp

/-- What a removal leaves is one shorter. -/
theorem swapRemove?_length {l rest : List α} {i : Nat} {a : α}
    (h : swapRemove? l i = some (a, rest)) : rest.length + 1 = l.length := by
  unfold swapRemove? at h
  split at h
  · rename_i b hb
    obtain ⟨hi, -⟩ := List.getElem?_eq_some_iff.mp hb
    obtain ⟨-, rfl⟩ := Prod.mk.inj (Option.some.inj h)
    rw [swapRemove_length]
    omega
  · exact absurd h (by simp)

theorem swapRemove?_of_getElem? {l : List α} {i : Nat} {a : α} (h : l[i]? = some a) :
    swapRemove? l i = some (a, swapRemove l i) := by
  unfold swapRemove?
  rw [h]

/-- The elements a sweep visits from index `i` on, in order, and the vector it leaves. -/
def sweep (remove : α → Bool) (l : List α) (i : Nat) : List α × List α :=
  if h : i < l.length then
    if remove l[i] then
      let (visited, kept) := sweep remove (swapRemove l i) i
      (l[i] :: visited, kept)
    else
      let (visited, kept) := sweep remove l (i + 1)
      (l[i] :: visited, kept)
  else ([], l)
termination_by l.length - i
decreasing_by
  · rw [swapRemove_length]
    omega
  · omega

/-- **The invariant of a sweep**: before the index the elements kept, behind it the unvisited ones,
which are visited once each, in an order of the sweep's own. -/
theorem sweep_split (remove : α → Bool) (pre post : List α) :
    ∃ order : List α, order.Perm post ∧
      sweep remove (pre ++ post) pre.length =
        (order, pre ++ order.filter fun a => !remove a) := by
  induction hn : post.length generalizing pre post with
  | zero =>
    obtain rfl := List.length_eq_zero_iff.mp hn
    refine ⟨[], List.Perm.refl _, ?_⟩
    rw [sweep]
    simp
  | succ n ih =>
    obtain ⟨a, post, rfl⟩ : ∃ a post', post = a :: post' := by
      cases post with
      | nil => exact absurd hn (by simp)
      | cons a post => exact ⟨a, post, rfl⟩
    have hlen : post.length = n := by simpa using hn
    have hi : pre.length < (pre ++ a :: post).length := by simp
    have ha : (pre ++ a :: post)[pre.length] = a := by simp
    rw [sweep, dif_pos hi, ha]
    by_cases hr : remove a = true
    · obtain ⟨order, hperm, hsweep⟩ :=
        ih pre (lastFirst post) (by rw [(lastFirst_perm post).length_eq, hlen])
      refine ⟨a :: order, (hperm.trans (lastFirst_perm post)).cons a, ?_⟩
      rw [if_pos hr, swapRemove_split, hsweep]
      simp [hr]
    · obtain ⟨order, hperm, hsweep⟩ := ih (pre ++ [a]) post hlen
      refine ⟨a :: order, hperm.cons a, ?_⟩
      rw [List.length_append, List.append_assoc] at hsweep
      rw [if_neg hr, show pre.length + 1 = pre.length + [a].length from rfl,
        show pre ++ a :: post = pre ++ ([a] ++ post) from rfl, hsweep]
      simp [hr]

end Nwep.Lib
