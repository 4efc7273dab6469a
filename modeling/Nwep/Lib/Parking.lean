import Nwep.Lib.Fifo

/-!
# A machine around a parking list

What one part of a loop parks in a list it shares with the rest, the rest takes out whole from time
to time and deals with item by item (`Parked`). So what was dealt with is a front of what was
parked, in its order, and the others are still held (`Parked.account`): by the list taken out, or by
the shared one.
-/

namespace Nwep.Lib

universe u v w

/-- What was taken out and is not dealt with yet, and what is parked behind it. -/
structure Parking (ι : Type w) where
  todo   : List ι
  parked : List ι

/-- All that waits, the first one first. -/
def Parking.held {ι : Type w} (p : Parking ι) : List ι := p.todo ++ p.parked

namespace Machine

variable {σ : Type u} {α : Type v} {ι : Type w} {M : Machine σ α}

/-- What one step does to the two lists: what it parks, and what it is done with. -/
inductive Parks (p : Parking ι) : Parking ι → Option ι → Option ι → Prop
  | same : Parks p p none none
  | park (x : ι) : Parks p ⟨p.todo, p.parked ++ [x]⟩ (some x) none
  | takeOut (h : p.todo = []) : Parks p ⟨p.parked, []⟩ none none
  | deal {x : ι} {xs : List ι} (h : p.todo = x :: xs) : Parks p ⟨xs, p.parked⟩ none (some x)

/-- The machine touches the two lists in the steps that `arrives` and `leaves` note, and where it
takes the parked ones out. -/
structure Parked (M : Machine σ α) (view : σ → Parking ι) (arrives leaves : σ → α → Option ι) :
    Prop where
  init : view M.init = ⟨[], []⟩
  step : ∀ s a t, M.Reachable s → M.step s a = some t →
    Parks (view s) (view t) (arrives s a) (leaves s a)

namespace Parked

variable {view : σ → Parking ι} {arrives leaves : σ → α → Option ι}

/-- **Everything parked is dealt with or held**, once and in order. -/
theorem account (h : M.Parked view arrives leaves) {as : List α} {s : σ} (hr : M.run as = some s) :
    M.notes arrives M.init as = M.notes leaves M.init as ++ (view s).held := by
  refine M.run_induction (P := fun as s =>
    M.notes arrives M.init as = M.notes leaves M.init as ++ (view s).held) ?_ ?_ hr
  · rw [h.init]
    rfl
  · intro as s a t hrun ih hst
    rw [M.notes_snoc hrun, M.notes_snoc hrun, ih]
    have hm := h.step s a t ⟨as, hrun⟩ hst
    generalize arrives s a = came, leaves s a = left, view t = p at hm
    cases hm with
    | same => simp
    | park x => simp [Parking.held]
    | takeOut hnil => simp [Parking.held, hnil]
    | deal hcons => simp [Parking.held, hcons]

/-- What was dealt with is a front of what was parked. -/
theorem inOrder (h : M.Parked view arrives leaves) {as : List α} {s : σ} (hr : M.run as = some s) :
    M.notes leaves M.init as <+: M.notes arrives M.init as :=
  ⟨(view s).held, (h.account hr).symm⟩

end Parked

end Machine

end Nwep.Lib
