import Mathlib.Data.List.Range
import Nwep.Lib.Heap

/-!
# Reference counts

A box with a strong count: the last handle that is dropped frees it. `Counted heap strong handles` says
that the counts are the numbers of handles there are, wherever these are kept, and that the boxes with
a count are those not freed. Every operation on one handle keeps it.

Handles kept in the slots of a numbered table are counted by `slotsHolding`.

Results:
* `Counted.new`, `Counted.clone`, `Counted.drop_last`, `Counted.drop_more`: the operations;
* **`Counted.frees_eq`**: a box was freed once when it has no handles, and not at all while it has;
* `slotsHolding_update`: one slot is written.
-/

namespace Nwep.Lib

/-- One more handle of `c`. -/
def inc (f : Nat → Nat) (c : Nat) : Nat → Nat := Function.update f c (f c + 1)

/-- One handle of `c` less. -/
def dec (f : Nat → Nat) (c : Nat) : Nat → Nat := Function.update f c (f c - 1)

theorem inc_apply (f : Nat → Nat) (c d : Nat) : inc f c d = f d + if d = c then 1 else 0 := by
  unfold inc
  by_cases h : d = c
  · rw [h, Function.update_self, if_pos rfl]
  · rw [Function.update_of_ne h, if_neg h, Nat.add_zero]

theorem dec_apply (f : Nat → Nat) (c d : Nat) : dec f c d = f d - if d = c then 1 else 0 := by
  unfold dec
  by_cases h : d = c
  · rw [h, Function.update_self, if_pos rfl]
  · rw [Function.update_of_ne h, if_neg h, Nat.sub_zero]

/-- The strong counts are the numbers of handles, and the boxes with a count are not freed. -/
structure Counted (heap : Heap) (strong handles : Nat → Nat) : Prop where
  exact : ∀ c, strong c = handles c
  owned : heap.Owned fun c => 0 < strong c

namespace Counted

variable {heap : Heap} {strong handles handles' : Nat → Nat} {c : Nat}

theorem empty : Counted Heap.empty (fun _ => 0) fun _ => 0 :=
  ⟨fun _ => rfl, Heap.Owned.empty.congr fun _ => by simp⟩

/-- The handles are counted anew. -/
theorem congr (h : Counted heap strong handles) (hh : ∀ d, handles' d = handles d) :
    Counted heap strong handles' :=
  ⟨fun d => (h.exact d).trans (hh d).symm, h.owned⟩

/-- A box with a handle is live. -/
theorem live (h : Counted heap strong handles) (hc : 0 < handles c) : heap.Live c :=
  h.owned.live c (by rw [h.exact]; exact hc)

/-- A box not handed out yet has no handle. -/
theorem fresh (h : Counted heap strong handles) (hc : heap.next ≤ c) : handles c = 0 := by
  by_contra hn
  exact absurd (h.live (Nat.pos_of_ne_zero hn)).1 (Nat.not_lt.mpr hc)

/-- **Freed once without handles, and not while there are any.** -/
theorem frees_eq (h : Counted heap strong handles) (hc : c < heap.next) :
    heap.frees c = if handles c = 0 then 1 else 0 := by
  by_cases hz : handles c = 0
  · rw [if_pos hz]
    refine (h.owned.once c hc).resolve_left ?_
    rw [h.exact, hz]
    exact Nat.lt_irrefl 0
  · rw [if_neg hz]
    exact (h.live (Nat.pos_of_ne_zero hz)).2

/-- `Rc::new`. -/
theorem new (h : Counted heap strong handles)
    (hh : ∀ d, handles' d = handles d + if d = heap.next then 1 else 0) :
    Counted heap.alloc (inc strong heap.next) handles' where
  exact d := by rw [inc_apply, h.exact, hh]
  owned := h.owned.alloc fun d => by
    rw [inc_apply]
    by_cases hd : d = heap.next <;> simp [hd]

/-- `Rc::clone`. -/
theorem clone (h : Counted heap strong handles) (hc : 0 < strong c)
    (hh : ∀ d, handles' d = handles d + if d = c then 1 else 0) :
    Counted heap (inc strong c) handles' where
  exact d := by rw [inc_apply, h.exact, hh]
  owned := h.owned.congr fun d => by
    rw [inc_apply]
    by_cases hd : d = c
    · subst hd
      simp [hc]
    · simp [hd]

/-- `Rc::drop`, of the last handle: the box is freed. -/
theorem drop_last (h : Counted heap strong handles) (hc : strong c = 1)
    (hh : ∀ d, handles' d + (if d = c then 1 else 0) = handles d) :
    Counted (heap.free c) (dec strong c) handles' where
  exact d := by
    rw [dec_apply, h.exact, ← hh]
    omega
  owned := h.owned.free (by rw [hc]; exact Nat.one_pos) fun d => by
    rw [dec_apply]
    by_cases hd : d = c
    · subst hd
      simp [hc]
    · simp [hd]

/-- `Rc::drop`, with other handles left. -/
theorem drop_more (h : Counted heap strong handles) (hc : 1 < strong c)
    (hh : ∀ d, handles' d + (if d = c then 1 else 0) = handles d) :
    Counted heap (dec strong c) handles' where
  exact d := by
    rw [dec_apply, h.exact, ← hh]
    omega
  owned := h.owned.congr fun d => by
    rw [dec_apply]
    by_cases hd : d = c
    · subst hd
      simp
      omega
    · simp [hd]

end Counted

/-! ## Slots -/

section Slots

variable {κ : Type} [DecidableEq κ] {slots : Nat → Option κ} {n k : Nat} {c : κ}

/-- How many of the first `n` slots hold `c`. -/
def slotsHolding (slots : Nat → Option κ) (n : Nat) (c : κ) : Nat :=
  (List.range n).countP fun k => slots k = some c

theorem slotsHolding_succ :
    slotsHolding slots (n + 1) c = slotsHolding slots n c + if slots n = some c then 1 else 0 := by
  unfold slotsHolding
  rw [List.range_succ, List.countP_append]
  simp

/-- A slot beyond the table. -/
theorem slotsHolding_update_beyond (v : Option κ) (hk : n ≤ k) :
    slotsHolding (Function.update slots k v) n c = slotsHolding slots n c := by
  unfold slotsHolding
  refine List.countP_congr fun j hj => ?_
  have hjk : j ≠ k := Nat.ne_of_lt (Nat.lt_of_lt_of_le (List.mem_range.mp hj) hk)
  rw [Function.update_of_ne hjk]

/-- One slot is written. -/
theorem slotsHolding_update (v : Option κ) (hk : k < n) :
    slotsHolding (Function.update slots k v) n c + (if slots k = some c then 1 else 0) =
      slotsHolding slots n c + if v = some c then 1 else 0 := by
  induction n with
  | zero => exact absurd hk (Nat.not_lt_zero k)
  | succ n ih =>
    rw [slotsHolding_succ, slotsHolding_succ]
    rcases Nat.lt_succ_iff_lt_or_eq.mp hk with hlt | rfl
    · have hn : n ≠ k := Nat.ne_of_gt hlt
      have hrec := ih hlt
      rw [Function.update_of_ne hn]
      omega
    · rw [slotsHolding_update_beyond v (Nat.le_refl k), Function.update_self]
      omega

theorem slotsHolding_pos (hk : k < n) (h : slots k = some c) : 0 < slotsHolding slots n c := by
  unfold slotsHolding
  rw [List.countP_pos_iff]
  exact ⟨k, List.mem_range.mpr hk, by simpa using h⟩

theorem slotsHolding_eq_zero :
    slotsHolding slots n c = 0 ↔ ∀ k < n, slots k ≠ some c := by
  unfold slotsHolding
  rw [List.countP_eq_zero]
  simp

end Slots

end Nwep.Lib
