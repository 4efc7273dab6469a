import Mathlib.Logic.Function.Basic
import Mathlib.Data.Nat.Notation

/-!
# Boxes that are freed once

A heap hands out boxes in order and counts how often each was freed. `Owned h held` is the
discipline of an owner: what it holds is allocated and not freed, and what it no longer holds was
freed once. Each operation of an owner keeps it, and an owner that holds nothing has freed every
box exactly once (`Owned.clean`).
-/

namespace Nwep.Lib

/-- How many boxes there are, and how often each was freed. -/
structure Heap where
  next  : Nat
  frees : Nat → Nat

namespace Heap

/-- Nothing allocated. -/
def empty : Heap := ⟨0, fun _ => 0⟩

/-- A box at the next address. -/
def alloc (h : Heap) : Heap := { h with next := h.next + 1 }

/-- Box `b` is freed. -/
def free (h : Heap) (b : Nat) : Heap :=
  { h with frees := Function.update h.frees b (h.frees b + 1) }

/-- Allocated, and not freed yet. -/
def Live (h : Heap) (b : Nat) : Prop := b < h.next ∧ h.frees b = 0

/-- Every box was freed exactly once. -/
def Clean (h : Heap) : Prop := ∀ b, b < h.next → h.frees b = 1

instance (h : Heap) (b : Nat) : Decidable (h.Live b) := inferInstanceAs (Decidable (_ ∧ _))

@[simp] theorem free_frees_self (h : Heap) (b : Nat) : (h.free b).frees b = h.frees b + 1 :=
  Function.update_self ..

theorem free_frees_ne (h : Heap) {b c : Nat} (hc : c ≠ b) : (h.free b).frees c = h.frees c :=
  Function.update_of_ne hc ..

theorem Live.alloc {h : Heap} {b : Nat} (hb : h.Live b) : h.alloc.Live b :=
  ⟨Nat.lt_succ_of_lt hb.1, hb.2⟩

theorem Live.free {h : Heap} {b c : Nat} (hb : h.Live b) (hc : b ≠ c) : (h.free c).Live b :=
  ⟨hb.1, (h.free_frees_ne hc).trans hb.2⟩

/-- The discipline of an owner of the boxes `held`. -/
structure Owned (h : Heap) (held : Nat → Prop) : Prop where
  live   : ∀ b, held b → h.Live b
  once   : ∀ b, b < h.next → held b ∨ h.frees b = 1
  beyond : ∀ b, h.next ≤ b → h.frees b = 0

namespace Owned

variable {h : Heap} {held held' : Nat → Prop}

theorem empty : Heap.empty.Owned fun _ => False where
  live _ hb := hb.elim
  once b hb := absurd hb (Nat.not_lt_zero b)
  beyond _ _ := rfl

theorem congr (ho : h.Owned held) (hh : ∀ b, held' b ↔ held b) : h.Owned held' where
  live b hb := ho.live b ((hh b).mp hb)
  once b hb := (ho.once b hb).imp_left (hh b).mpr
  beyond := ho.beyond

theorem next_live (ho : h.Owned held) : h.alloc.Live h.next :=
  ⟨Nat.lt_succ_self _, ho.beyond _ (Nat.le_refl _)⟩

/-- An owner takes a new box. -/
theorem alloc (ho : h.Owned held) (hh : ∀ b, held' b ↔ held b ∨ b = h.next) :
    h.alloc.Owned held' where
  live b hb := by
    rcases (hh b).mp hb with hb | rfl
    · exact (ho.live b hb).alloc
    · exact ho.next_live
  once b hb := by
    rcases Nat.lt_succ_iff_lt_or_eq.mp hb with hb | hb
    · exact (ho.once b hb).imp_left fun hb => (hh b).mpr (Or.inl hb)
    · exact Or.inl ((hh b).mpr (Or.inr hb))
  beyond b hb := ho.beyond b (Nat.le_of_succ_le hb)

/-- An owner frees a box it holds. -/
theorem free {b : Nat} (ho : h.Owned held) (hb : held b) (hh : ∀ c, held' c ↔ held c ∧ c ≠ b) :
    (h.free b).Owned held' where
  live c hc := by
    obtain ⟨hc, hne⟩ := (hh c).mp hc
    exact (ho.live c hc).free hne
  once c hc := by
    by_cases hcb : c = b
    · subst hcb
      right
      rw [free_frees_self, (ho.live c hb).2]
    · rw [h.free_frees_ne hcb]
      exact (ho.once c hc).imp_left fun hc => (hh c).mpr ⟨hc, hcb⟩
  beyond c hc := by
    have hbl : b < h.next := (ho.live b hb).1
    have hne : c ≠ b := fun hcb => absurd hbl (Nat.not_lt.mpr (hcb ▸ hc))
    rw [h.free_frees_ne hne]
    exact ho.beyond c hc

/-- An owner with one slot fills it with a new box. -/
theorem alloc_slot (ho : h.Owned fun b => none = some b) :
    h.alloc.Owned fun b => some h.next = some b :=
  ho.alloc fun b => by simp [eq_comm]

/-- An owner with one slot frees what is in it. -/
theorem free_slot {b : Nat} (ho : h.Owned fun c => some b = some c) :
    (h.free b).Owned fun c => none = some c := by
  refine ho.free rfl fun c => ?_
  constructor
  · exact fun hc => absurd hc (by simp)
  · rintro ⟨hc, hne⟩
    exact absurd (Option.some.inj hc).symm hne

/-- **An owner that holds nothing has freed every box exactly once.** -/
theorem clean (ho : h.Owned held) (hn : ∀ b, ¬ held b) : h.Clean := fun b hb =>
  (ho.once b hb).resolve_left (hn b)

end Owned

end Heap

end Nwep.Lib
