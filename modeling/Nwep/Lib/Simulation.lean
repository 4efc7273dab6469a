import Nwep.Lib.Machine

/-!
# Weak simulation

`M.Simulates A R obs obs'`: every step of `M` is answered by a run of `A`, possibly an empty one,
that keeps the relation `R` between the states and shows what the step shows. What a label shows is
`obs`, and `none` for a label that is not to be seen. So whole runs show the same (`Simulates.run`).
-/

namespace Nwep.Lib.Machine

universe u v

variable {σ τ υ : Type u} {α β γ ω : Type v}

/-- What a run shows. -/
def trace (obs : α → Option ω) (as : List α) : List ω := as.filterMap obs

theorem trace_append (obs : α → Option ω) (as bs : List α) :
    trace obs (as ++ bs) = trace obs as ++ trace obs bs := by
  unfold trace
  exact List.filterMap_append

/-- A weak simulation of `M` by `A`. -/
structure Simulates (M : Machine σ α) (A : Machine τ β) (R : σ → τ → Prop) (obs : α → Option ω)
    (obs' : β → Option ω) : Prop where
  init : R M.init A.init
  step : ∀ s u a t, R s u → M.step s a = some t →
    ∃ bs v, A.runFrom u bs = some v ∧ R t v ∧ trace obs' bs = trace obs [a]

namespace Simulates

variable {M : Machine σ α} {A : Machine τ β} {R : σ → τ → Prop} {obs : α → Option ω}
  {obs' : β → Option ω}

/-- A run is answered by a run that shows the same. -/
theorem runFrom (h : M.Simulates A R obs obs') : ∀ {as : List α} {s t : σ} {u : τ}, R s u →
    M.runFrom s as = some t →
      ∃ bs v, A.runFrom u bs = some v ∧ R t v ∧ trace obs' bs = trace obs as
  | [], s, t, u, hr, hrun => by
    obtain rfl := Option.some.inj hrun
    exact ⟨[], u, rfl, hr, rfl⟩
  | a :: as, s, t, u, hr, hrun => by
    obtain ⟨s', hst, hrest⟩ := M.runFrom_cons.mp hrun
    obtain ⟨bs, u', hbs, hr', htr⟩ := h.step s u a s' hr hst
    obtain ⟨cs, v, hcs, hv, htr'⟩ := runFrom h hr' hrest
    refine ⟨bs ++ cs, v, A.runFrom_append.mpr ⟨u', hbs, hcs⟩, hv, ?_⟩
    rw [trace_append, htr, htr', ← trace_append, List.singleton_append]

theorem run (h : M.Simulates A R obs obs') {as : List α} {s : σ} (hr : M.run as = some s) :
    ∃ bs v, A.run bs = some v ∧ R s v ∧ trace obs' bs = trace obs as :=
  h.runFrom h.init hr

/-- Simulations compose. -/
theorem trans {B : Machine υ γ} {S : τ → υ → Prop} {obs'' : γ → Option ω}
    (h : M.Simulates A R obs obs') (k : A.Simulates B S obs' obs'') :
    M.Simulates B (fun s x => ∃ u, R s u ∧ S u x) obs obs'' where
  init := ⟨A.init, h.init, k.init⟩
  step s x a t hrel hst := by
    obtain ⟨u, hr, hs⟩ := hrel
    obtain ⟨bs, v, hbs, hv, htr⟩ := h.step s u a t hr hst
    obtain ⟨cs, y, hcs, hy, htr'⟩ := k.runFrom hs hbs
    exact ⟨cs, y, hcs, ⟨v, hv, hy⟩, htr'.trans htr⟩

end Simulates

end Nwep.Lib.Machine
