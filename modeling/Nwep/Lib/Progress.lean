import Nwep.Lib.Machine

/-!
# Bounded progress

A rank that every step of one party lowers, and that no other step raises, bounds how often that
party still moves, whatever the other parties do. Where the party can move wherever it is not done
(`Moves`), it is done after that many steps of its own.

The party is a set of labels (`own`), so a step that may repeat for ever is left out of it by
leaving its label out.

Results:
* `Descends.runFrom`: the steps of the party and the rank left are at most the rank before;
* `Pays.runFrom`: the same where some steps raise the rank again, each by at most so much.
-/

namespace Nwep.Lib.Machine

universe u v

variable {σ : Type u} {α : Type v} (M : Machine σ α)

/-- From `I` on, every step of `own` lowers the rank, and no other raises it. -/
structure Descends (I : σ → Prop) (own : α → Bool) (rank : σ → Nat) : Prop where
  keep   : ∀ s a t, I s → M.step s a = some t → I t
  lowers : ∀ s a t, I s → own a = true → M.step s a = some t → rank t < rank s
  holds  : ∀ s a t, I s → own a = false → M.step s a = some t → rank t ≤ rank s

/-- A party that is not done can move. -/
def Moves (I : σ → Prop) (own : α → Bool) (done : σ → Prop) : Prop :=
  ∀ s, I s → ¬ done s → ∃ a t, own a = true ∧ M.step s a = some t

variable {M} {I : σ → Prop} {own : α → Bool} {rank : σ → Nat} {done : σ → Prop}

/-- **The rank pays for the steps of the party.** -/
theorem Descends.runFrom (h : M.Descends I own rank) :
    ∀ {as : List α} {s t : σ}, I s → M.runFrom s as = some t →
      I t ∧ as.countP own + rank t ≤ rank s
  | [], s, t, hi, hr => by
    obtain rfl := Option.some.inj hr
    exact ⟨hi, by simp⟩
  | a :: as, s, t, hi, hr => by
    obtain ⟨u, hu, hrest⟩ := M.runFrom_cons.mp hr
    obtain ⟨hit, hle⟩ := h.runFrom (h.keep s a u hi hu) hrest
    refine ⟨hit, ?_⟩
    rw [List.countP_cons]
    cases ha : own a with
    | true =>
      have hlt := h.lowers s a u hi ha hu
      rw [if_pos rfl]
      omega
    | false =>
      have hle' := h.holds s a u hi ha hu
      rw [if_neg (by simp)]
      omega

/-- The party moves at most as often as the rank says. -/
theorem Descends.countP_le (h : M.Descends I own rank) {as : List α} {s t : σ} (hi : I s)
    (hr : M.runFrom s as = some t) : as.countP own ≤ rank s :=
  Nat.le_trans (Nat.le_add_right _ _) (h.runFrom hi hr).2

/-! ## With steps that raise the rank -/

/-- From `I` on, every step of `own` lowers the rank, and only one of `feeds` raises it, by at most
`k`. -/
structure Pays (M : Machine σ α) (I : σ → Prop) (own feeds : σ → α → Bool) (rank : σ → Nat)
    (k : Nat) : Prop where
  keep : ∀ s a t, I s → M.step s a = some t → I t
  step : ∀ s a t, I s → M.step s a = some t →
    rank t + (if own s a then 1 else 0) ≤ rank s + if feeds s a then k else 0

variable {feeds owns : σ → α → Bool} {k : Nat}

/-- **The rank, and what it is fed, pay for the steps of the party.** -/
theorem Pays.runFrom (h : M.Pays I owns feeds rank k) :
    ∀ {as : List α} {s t : σ}, I s → M.runFrom s as = some t →
      I t ∧ M.countFrom owns s as + rank t ≤ rank s + k * M.countFrom feeds s as
  | [], s, t, hi, hr => by
    obtain rfl := Option.some.inj hr
    exact ⟨hi, by simp [countFrom]⟩
  | a :: as, s, t, hi, hr => by
    obtain ⟨u, hu, hrest⟩ := M.runFrom_cons.mp hr
    obtain ⟨hit, hle⟩ := h.runFrom (h.keep s a u hi hu) hrest
    refine ⟨hit, ?_⟩
    have hstep := h.step s a u hi hu
    rw [M.countFrom_cons hu, M.countFrom_cons hu, Nat.mul_add]
    have hfed : k * (if feeds s a then 1 else 0) = if feeds s a then k else 0 := by
      split <;> simp
    omega

end Nwep.Lib.Machine
