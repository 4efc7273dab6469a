import Mathlib.Data.List.Induction

/-!
# Machines driven by labels

A machine is an initial state and a partial step function. A label carries everything the machine
does not decide itself: which party moves, and what a foreign call answers. So a list of labels is
one run, `M.step s a = none` says that `a` is not enabled in `s`, and a statement about every label
list is a statement about every interleaving and every foreign behaviour at once.

Results:
* `run_snoc`, `runFrom_append`: runs extend at the end and split in the middle;
* `run_induction`: an invariant of the label history and the state, from one step lemma;
* `run_induction_guarded`: the same for the runs whose every step meets a condition on the state
  before it; `guarded_of_split` shows that a run is one;
* `runFrom_induction`, `runFrom_induction_guarded`: what a run keeps from some state on;
* `countFrom_snoc`, `guarded_iff_countFrom`: counting the steps that meet a condition;
* `throughout_iff`, `throughout_of_guarded`: a property of every state of a run;
  `throughout_iff_guarded`: exactly when it holds;
* `guarded_stay`, `throughout_stay`: labels that leave the state as it is;
* `watch_run`: what an observer notes beside a run does not change the run;
* `Refines.runFrom`, `Refines.reachable`: a step-by-step simulation carries over to whole runs.
-/

namespace Nwep.Lib

universe u v w x

/-- A label of a history extended by one is its last, or was there before. -/
theorem snoc_split {α : Type v} {as pre post : List α} {a b : α}
    (h : as ++ [a] = pre ++ b :: post) :
    (as = pre ∧ a = b ∧ post = []) ∨ ∃ mid, as = pre ++ b :: mid ∧ post = mid ++ [a] := by
  rcases List.eq_nil_or_concat post with rfl | ⟨mid, x, rfl⟩
  · obtain ⟨rfl, hb⟩ := List.append_inj' h rfl
    exact Or.inl ⟨rfl, List.singleton_inj.mp hb, rfl⟩
  · rw [List.concat_eq_append, ← List.cons_append, ← List.append_assoc] at h
    obtain ⟨rfl, hx⟩ := List.append_inj' h rfl
    exact Or.inr ⟨mid, rfl, by rw [List.concat_eq_append, hx]⟩

/-- A machine over states `σ` and labels `α`. -/
structure Machine (σ : Type u) (α : Type v) where
  init : σ
  step : σ → α → Option σ

namespace Machine

variable {σ : Type u} {α : Type v} (M : Machine σ α)

/-- The state a label list leads to from `s`, when every label is enabled in turn. -/
def runFrom : σ → List α → Option σ
  | s, [] => some s
  | s, a :: as => (M.step s a).bind fun t => runFrom t as

/-- The state a label list leads to from the initial state. -/
def run (as : List α) : Option σ := M.runFrom M.init as

/-- Some run ends in `s`. -/
def Reachable (s : σ) : Prop := ∃ as, M.run as = some s

@[simp] theorem runFrom_nil (s : σ) : M.runFrom s [] = some s := rfl

theorem runFrom_cons {s t : σ} {a : α} {as : List α} :
    M.runFrom s (a :: as) = some t ↔ ∃ u, M.step s a = some u ∧ M.runFrom u as = some t := by
  simp [runFrom, Option.bind_eq_some_iff]

theorem runFrom_append {s t : σ} {as bs : List α} :
    M.runFrom s (as ++ bs) = some t ↔ ∃ u, M.runFrom s as = some u ∧ M.runFrom u bs = some t := by
  induction as generalizing s with
  | nil => simp
  | cons a as ih =>
    rw [List.cons_append, runFrom_cons]
    constructor
    · rintro ⟨v, hv, hr⟩
      obtain ⟨w, hw, hb⟩ := ih.mp hr
      exact ⟨w, M.runFrom_cons.mpr ⟨v, hv, hw⟩, hb⟩
    · rintro ⟨w, hw, hb⟩
      obtain ⟨v, hv, hr⟩ := M.runFrom_cons.mp hw
      exact ⟨v, hv, ih.mpr ⟨w, hr, hb⟩⟩

@[simp] theorem run_nil : M.run [] = some M.init := rfl

theorem run_append {t : σ} {as bs : List α} :
    M.run (as ++ bs) = some t ↔ ∃ u, M.run as = some u ∧ M.runFrom u bs = some t :=
  M.runFrom_append

/-- A run extends by one enabled label. -/
theorem run_snoc {t : σ} {as : List α} {a : α} :
    M.run (as ++ [a]) = some t ↔ ∃ s, M.run as = some s ∧ M.step s a = some t := by
  rw [run_append]
  refine exists_congr fun s => and_congr_right fun _ => ?_
  rw [runFrom_cons]
  simp

theorem reachable_step {s t : σ} {a : α} (h : M.Reachable s) (hst : M.step s a = some t) :
    M.Reachable t := by
  obtain ⟨as, hr⟩ := h
  exact ⟨as ++ [a], M.run_snoc.mpr ⟨s, hr, hst⟩⟩

theorem reachable_runFrom {s t : σ} {as : List α} (h : M.Reachable s)
    (hr : M.runFrom s as = some t) : M.Reachable t := by
  obtain ⟨bs, hb⟩ := h
  exact ⟨bs ++ as, M.run_append.mpr ⟨s, hb, hr⟩⟩

/-! ## Invariants -/

/-- **Invariant rule**: what holds of the empty history and the initial state, and is kept by every
step of a run, holds at the end of every run. -/
theorem run_induction {P : List α → σ → Prop} (h0 : P [] M.init)
    (hs : ∀ as s a t, M.run as = some s → P as s → M.step s a = some t → P (as ++ [a]) t) :
    ∀ {as : List α} {s : σ}, M.run as = some s → P as s := by
  intro as
  induction as using List.reverseRecOn with
  | nil =>
    intro s h
    obtain rfl := Option.some.inj h
    exact h0
  | append_singleton as a ih =>
    intro t h
    obtain ⟨s, hr, hst⟩ := M.run_snoc.mp h
    exact hs as s a t hr (ih hr) hst

/-- The invariant rule for a property of the state alone. -/
theorem reachable_induction {P : σ → Prop} (h0 : P M.init)
    (hs : ∀ s a t, M.Reachable s → P s → M.step s a = some t → P t) {s : σ}
    (h : M.Reachable s) : P s := by
  obtain ⟨as, hr⟩ := h
  exact M.run_induction (P := fun _ s => P s) h0
    (fun as s a t hr hp hst => hs s a t ⟨as, hr⟩ hp hst) hr

/-- What every step keeps is kept by every run from `s`. -/
theorem runFrom_induction {P : σ → Prop} (hs : ∀ s a t, P s → M.step s a = some t → P t) :
    ∀ {as : List α} {s t : σ}, P s → M.runFrom s as = some t → P t
  | [], _, _, h, hr => by
    obtain rfl := Option.some.inj hr
    exact h
  | _ :: _, _, _, h, hr => by
    obtain ⟨u, hu, hr'⟩ := M.runFrom_cons.mp hr
    exact runFrom_induction hs (hs _ _ u h hu) hr'

/-! ## Runs whose steps meet a condition -/

/-- Every step of the run from `s` meets `G` in the state before it. -/
def Guarded (G : σ → α → Prop) : σ → List α → Prop
  | _, [] => True
  | s, a :: as => G s a ∧ ∀ t, M.step s a = some t → Guarded G t as

/-- A condition that can be tested makes a guarded run one that can be tested. -/
instance decidableGuarded {G : σ → α → Prop} [∀ s a, Decidable (G s a)] :
    ∀ s as, Decidable (M.Guarded G s as)
  | _, [] => isTrue trivial
  | s, a :: as =>
    have hrest : Decidable (∀ t, M.step s a = some t → M.Guarded G t as) :=
      match h : M.step s a with
      | none => isTrue fun _ ht => absurd ht (by simp)
      | some t =>
        have hdec : Decidable (M.Guarded G t as) := decidableGuarded t as
        decidable_of_iff (M.Guarded G t as) (by simp)
    inferInstanceAs (Decidable (_ ∧ _))

theorem guarded_append {G : σ → α → Prop} {s u : σ} {as bs : List α}
    (h : M.runFrom s as = some u) :
    M.Guarded G s (as ++ bs) ↔ M.Guarded G s as ∧ M.Guarded G u bs := by
  induction as generalizing s with
  | nil =>
    obtain rfl := Option.some.inj h
    simp [Guarded]
  | cons a as ih =>
    obtain ⟨v, hv, hr⟩ := M.runFrom_cons.mp h
    simp only [List.cons_append, Guarded, hv, Option.some.injEq, forall_eq', ih hr, and_assoc]

theorem guarded_snoc {G : σ → α → Prop} {s t : σ} {as : List α} {a : α}
    (h : M.runFrom s as = some t) : M.Guarded G s (as ++ [a]) ↔ M.Guarded G s as ∧ G t a := by
  rw [M.guarded_append h]
  refine and_congr_right fun _ => ?_
  constructor
  · exact And.left
  · exact fun hg => ⟨hg, fun _ _ => trivial⟩

/-- Labels that always meet the condition make a guarded run. -/
theorem guarded_of_forall {G : σ → α → Prop} {as : List α} (h : ∀ a ∈ as, ∀ s, G s a) :
    ∀ s, M.Guarded G s as := by
  induction as with
  | nil => exact fun _ => trivial
  | cons a as ih =>
    intro s
    refine ⟨h a List.mem_cons_self s, fun t _ => ?_⟩
    exact ih (fun b hb => h b (List.mem_cons_of_mem a hb)) t

/-- A run is guarded when every label meets the condition in the state its prefix leads to. -/
theorem guarded_iff {G : σ → α → Prop} {s t : σ} {as : List α} (h : M.runFrom s as = some t) :
    M.Guarded G s as ↔
      ∀ pre a post u, as = pre ++ a :: post → M.runFrom s pre = some u → G u a := by
  constructor
  · rintro hg pre a post u rfl hu
    exact ((M.guarded_append hu).mp hg).2.1
  · intro hall
    induction as generalizing s with
    | nil => trivial
    | cons a as ih =>
      obtain ⟨v, hv, hr⟩ := M.runFrom_cons.mp h
      refine ⟨hall [] a as s rfl rfl, fun w hw => ?_⟩
      obtain rfl : v = w := Option.some.inj (hv.symm.trans hw)
      refine ih hr fun pre b post u has hu => hall (a :: pre) b post u (by rw [has]; rfl) ?_
      exact M.runFrom_cons.mpr ⟨v, hv, hu⟩

/-- To show that a run is guarded: split it at any step, with the states before and after. -/
theorem guarded_of_split {G : σ → α → Prop} {t : σ} {as : List α} (h : M.run as = some t)
    (hG : ∀ pre a post u v, as = pre ++ a :: post → M.run pre = some u → M.step u a = some v →
      M.runFrom v post = some t → G u a) : M.Guarded G M.init as := by
  refine (M.guarded_iff h).mpr ?_
  intro pre a post u has hu
  subst has
  obtain ⟨w, hw, hrest⟩ := M.run_append.mp h
  obtain rfl : u = w := Option.some.inj (hu.symm.trans hw)
  obtain ⟨v, hv, hpost⟩ := M.runFrom_cons.mp hrest
  exact hG pre a post u v rfl hu hv hpost

/-- **Invariant rule for guarded runs.** -/
theorem run_induction_guarded {G : σ → α → Prop} {P : List α → σ → Prop} (h0 : P [] M.init)
    (hs : ∀ as s a t, M.run as = some s → P as s → G s a → M.step s a = some t → P (as ++ [a]) t)
    {as : List α} {s : σ} (hr : M.run as = some s) (hg : M.Guarded G M.init as) : P as s := by
  refine M.run_induction (P := fun as s => M.Guarded G M.init as → P as s) (fun _ => h0) ?_ hr hg
  intro as s a t hr ih hst hg
  obtain ⟨hg1, hg2⟩ := (M.guarded_snoc hr).mp hg
  exact hs as s a t hr (ih hg1) hg2 hst

/-- What every guarded step keeps is kept by a guarded run from `s`. -/
theorem runFrom_induction_guarded {G : σ → α → Prop} {P : σ → Prop}
    (hs : ∀ s a t, P s → G s a → M.step s a = some t → P t) :
    ∀ {as : List α} {s t : σ}, P s → M.Guarded G s as → M.runFrom s as = some t → P t
  | [], _, _, h, _, hr => by
    obtain rfl := Option.some.inj hr
    exact h
  | _ :: _, _, _, h, hg, hr => by
    obtain ⟨u, hu, hr'⟩ := M.runFrom_cons.mp hr
    exact runFrom_induction_guarded hs (hs _ _ u h hg.1 hu) (hg.2 u hu) hr'

/-! ## Counting steps -/

/-- How many steps of the run from `s` meet `p` in the state before them. -/
def countFrom (p : σ → α → Bool) : σ → List α → Nat
  | _, [] => 0
  | s, a :: as =>
    (if p s a then 1 else 0) +
      match M.step s a with
      | some t => countFrom p t as
      | none => 0

theorem countFrom_cons {p : σ → α → Bool} {s t : σ} {a : α} {as : List α}
    (h : M.step s a = some t) :
    M.countFrom p s (a :: as) = (if p s a then 1 else 0) + M.countFrom p t as := by
  simp only [countFrom, h]

theorem countFrom_singleton (p : σ → α → Bool) (s : σ) (a : α) :
    M.countFrom p s [a] = if p s a then 1 else 0 := by
  unfold countFrom
  cases M.step s a <;> rfl

theorem countFrom_snoc {p : σ → α → Bool} {s t : σ} {as : List α} {a : α}
    (h : M.runFrom s as = some t) :
    M.countFrom p s (as ++ [a]) = M.countFrom p s as + if p t a then 1 else 0 := by
  induction as generalizing s with
  | nil =>
    obtain rfl := Option.some.inj h
    rw [List.nil_append, M.countFrom_singleton]
    exact (Nat.zero_add _).symm
  | cons b as ih =>
    obtain ⟨v, hv, hr⟩ := M.runFrom_cons.mp h
    rw [List.cons_append, M.countFrom_cons hv, M.countFrom_cons hv, ih hr, Nat.add_assoc]

/-- A run none of whose steps meets `p` is one that counts to zero. -/
theorem guarded_iff_countFrom {p : σ → α → Bool} {s t : σ} {as : List α}
    (h : M.runFrom s as = some t) :
    M.Guarded (fun s a => p s a = false) s as ↔ M.countFrom p s as = 0 := by
  induction as generalizing s with
  | nil => simp [Guarded, countFrom]
  | cons a as ih =>
    obtain ⟨v, hv, hr⟩ := M.runFrom_cons.mp h
    rw [M.countFrom_cons hv]
    simp only [Guarded, hv, Option.some.injEq, forall_eq', ih hr]
    cases p s a <;> simp

/-! ## Every state of a run -/

/-- Every state of the run from `s`, both ends included, meets `P`. -/
def Throughout (P : σ → Prop) : σ → List α → Prop
  | s, [] => P s
  | s, a :: as => P s ∧ ∀ t, M.step s a = some t → Throughout P t as

theorem throughout_iff {P : σ → Prop} {s t : σ} {as : List α} (h : M.runFrom s as = some t) :
    M.Throughout P s as ↔ ∀ pre post u, as = pre ++ post → M.runFrom s pre = some u → P u := by
  induction as generalizing s with
  | nil =>
    obtain rfl := Option.some.inj h
    constructor
    · rintro hp pre post u has hu
      obtain ⟨rfl, -⟩ := List.append_eq_nil_iff.mp has.symm
      obtain rfl := Option.some.inj hu
      exact hp
    · exact fun hall => hall [] [] s rfl rfl
  | cons a as ih =>
    obtain ⟨v, hv, hr⟩ := M.runFrom_cons.mp h
    simp only [Throughout, hv, Option.some.injEq, forall_eq', ih hr]
    constructor
    · rintro ⟨hs, hall⟩ pre post u has hu
      cases pre with
      | nil =>
        obtain rfl := Option.some.inj hu
        exact hs
      | cons b pre =>
        obtain ⟨rfl, rfl⟩ := List.cons.inj has
        obtain ⟨w, hw, hu'⟩ := M.runFrom_cons.mp hu
        obtain rfl := Option.some.inj (hv.symm.trans hw)
        exact hall pre post u rfl hu'
    · intro hall
      refine ⟨hall [] (a :: as) s rfl rfl, fun pre post u has hu => ?_⟩
      exact hall (a :: pre) post u (by rw [has]; rfl) (M.runFrom_cons.mpr ⟨v, hv, hu⟩)

/-- A property of every state holds in the last one. -/
theorem throughout_last {P : σ → Prop} {s t : σ} {as : List α} (h : M.runFrom s as = some t)
    (hp : M.Throughout P s as) : P t :=
  (M.throughout_iff h).mp hp as [] t (List.append_nil as).symm h

theorem throughout_head {P : σ → Prop} {s : σ} {as : List α} (hp : M.Throughout P s as) : P s := by
  cases as with
  | nil => exact hp
  | cons a as => exact hp.1

theorem throughout_append {P : σ → Prop} {s u : σ} {as bs : List α}
    (h : M.runFrom s as = some u) :
    M.Throughout P s (as ++ bs) ↔ M.Throughout P s as ∧ M.Throughout P u bs := by
  induction as generalizing s with
  | nil =>
    obtain rfl := Option.some.inj h
    exact ⟨fun hp => ⟨M.throughout_head hp, hp⟩, And.right⟩
  | cons a as ih =>
    obtain ⟨v, hv, hr⟩ := M.runFrom_cons.mp h
    simp only [List.cons_append, Throughout, hv, Option.some.injEq, forall_eq', ih hr, and_assoc]

/-- An invariant of guarded runs that implies `P` makes `P` hold throughout them. -/
theorem throughout_of_guarded {G : σ → α → Prop} {I P : σ → Prop}
    (hs : ∀ s a t, I s → G s a → M.step s a = some t → I t) (hP : ∀ s, I s → P s) :
    ∀ {as : List α} {s : σ}, I s → M.Guarded G s as → M.Throughout P s as
  | [], s, hi, _ => hP s hi
  | _ :: _, s, hi, hg =>
    ⟨hP s hi, fun t ht => throughout_of_guarded hs hP (hs s _ t hi hg.1 ht) (hg.2 t ht)⟩

/-- A property that a step can only break by not meeting the condition, and that it does break then,
holds throughout exactly the guarded runs. -/
theorem throughout_iff_guarded {G : σ → α → Prop} {P : σ → Prop}
    (hs : ∀ s a t, P s → M.step s a = some t → (P t ↔ G s a)) {as : List α} {s t : σ} (hp : P s)
    (h : M.runFrom s as = some t) : M.Throughout P s as ↔ M.Guarded G s as := by
  induction as generalizing s with
  | nil => exact ⟨fun _ => trivial, fun _ => hp⟩
  | cons a as ih =>
    obtain ⟨v, hv, hr⟩ := M.runFrom_cons.mp h
    have hstep := hs s a v hp hv
    simp only [Throughout, Guarded, hv, Option.some.injEq, forall_eq']
    constructor
    · rintro ⟨-, hrest⟩
      have hpv := M.throughout_head hrest
      exact ⟨hstep.mp hpv, (ih hpv hr).mp hrest⟩
    · rintro ⟨hg, hrest⟩
      exact ⟨hp, (ih (hstep.mpr hg) hr).mpr hrest⟩

/-! ## Steps that stay -/

section Stay

variable {s : σ} {as : List α} (h : ∀ a ∈ as, M.step s a = some s)
include h

theorem runFrom_stay : M.runFrom s as = some s := by
  induction as with
  | nil => rfl
  | cons a as ih =>
    refine M.runFrom_cons.mpr ⟨s, h a List.mem_cons_self, ?_⟩
    exact ih fun b hb => h b (List.mem_cons_of_mem a hb)

theorem guarded_stay {G : σ → α → Prop} (hg : ∀ a ∈ as, G s a) : M.Guarded G s as := by
  induction as with
  | nil => trivial
  | cons a as ih =>
    refine ⟨hg a List.mem_cons_self, fun t ht => ?_⟩
    obtain rfl := Option.some.inj ((h a List.mem_cons_self).symm.trans ht)
    exact ih (fun b hb => h b (List.mem_cons_of_mem a hb))
      fun b hb => hg b (List.mem_cons_of_mem a hb)

theorem throughout_stay {P : σ → Prop} (hp : P s) : M.Throughout P s as := by
  induction as with
  | nil => exact hp
  | cons a as ih =>
    refine ⟨hp, fun t ht => ?_⟩
    obtain rfl := Option.some.inj ((h a List.mem_cons_self).symm.trans ht)
    exact ih fun b hb => h b (List.mem_cons_of_mem a hb)

end Stay

/-! ## Observation -/

section Watch

variable {β : Type x} {ω : Type w} (act : β → α) (ok : β → Bool) (note : β → Option ω) (o : ω)

/-- `M` under an observer. A label `b` is the label `act b` with what is observed at it, and is
taken where `ok` finds the two consistent. The last thing noted is kept beside the state. -/
def watch : Machine (σ × ω) β where
  init := (M.init, o)
  step s b := if ok b then (M.step s.1 (act b)).map fun t => (t, (note b).getD s.2) else none

variable {act ok note o}

theorem watch_step {s t : σ × ω} {b : β} :
    (M.watch act ok note o).step s b = some t ↔
      ok b = true ∧ M.step s.1 (act b) = some t.1 ∧ t.2 = (note b).getD s.2 := by
  obtain ⟨t, n⟩ := t
  simp only [watch]
  by_cases hok : ok b = true
  · rw [if_pos hok]
    simp only [Option.map_eq_some_iff, Prod.mk.injEq, hok, true_and]
    constructor
    · rintro ⟨u, hu, rfl, rfl⟩
      exact ⟨hu, rfl⟩
    · rintro ⟨hu, rfl⟩
      exact ⟨t, hu, rfl, rfl⟩
  · rw [if_neg hok]
    simp [hok]

/-- **An observed run is a run.** -/
theorem watch_run {bs : List β} {s : σ × ω} (h : (M.watch act ok note o).run bs = some s) :
    M.run (bs.map act) = some s.1 := by
  refine (M.watch act ok note o).run_induction (P := fun bs s => M.run (bs.map act) = some s.1)
    rfl ?_ h
  intro bs s b t _ ih hst
  rw [List.map_append]
  exact M.run_snoc.mpr ⟨s.1, ih, (M.watch_step.mp hst).2.1⟩

end Watch

/-! ## Simulation -/

/-- `M` refines `A` through `abs`: every step of a run of `M` is a run of `A`, possibly empty,
between the abstract states. -/
structure Refines {τ : Type w} {β : Type x} (A : Machine τ β) (abs : σ → τ) : Prop where
  init : abs M.init = A.init
  step : ∀ s a t, M.Reachable s → A.Reachable (abs s) → M.step s a = some t →
    ∃ bs, A.runFrom (abs s) bs = some (abs t)

/-- **The abstraction of a reachable state is reachable.** -/
theorem Refines.reachable {τ : Type w} {β : Type x} {A : Machine τ β} {abs : σ → τ}
    (h : M.Refines A abs) {s : σ} (hs : M.Reachable s) : A.Reachable (abs s) := by
  refine M.reachable_induction (P := fun s => A.Reachable (abs s)) ⟨[], ?_⟩ ?_ hs
  · rw [h.init, A.run_nil]
  · intro s a t hr hp hst
    obtain ⟨bs, hbs⟩ := h.step s a t hr hp hst
    exact A.reachable_runFrom hp hbs

/-- A simulation carries over to whole runs. -/
theorem Refines.runFrom {τ : Type w} {β : Type x} {A : Machine τ β} {abs : σ → τ}
    (h : M.Refines A abs) : ∀ {as : List α} {s t : σ}, M.Reachable s →
      M.runFrom s as = some t → ∃ bs, A.runFrom (abs s) bs = some (abs t)
  | [], s, t, _, hr => by
    obtain rfl := Option.some.inj hr
    exact ⟨[], rfl⟩
  | a :: as, s, t, hs, hr => by
    obtain ⟨u, hu, hr'⟩ := M.runFrom_cons.mp hr
    obtain ⟨bs, hbs⟩ := h.step s a u hs (h.reachable M hs) hu
    obtain ⟨cs, hcs⟩ := Refines.runFrom h (M.reachable_step hs hu) hr'
    exact ⟨bs ++ cs, A.runFrom_append.mpr ⟨abs u, hbs, hcs⟩⟩

end Machine

end Nwep.Lib
