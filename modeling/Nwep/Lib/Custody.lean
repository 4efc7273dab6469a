import Mathlib.Data.List.Count
import Mathlib.Data.List.Nodup
import Mathlib.Data.List.Perm.Basic
import Nwep.Lib.Machine

/-!
# Custody of things that are released once

Things are acquired and released. One may come to borrow another, and then has to be released before
it. A thing is acquired once in its life, released only while it is there, and only when nothing that
borrows it is.

`machine` takes exactly the orderly steps, so a list of acts that is a run is an orderly one. The
results read off a run what is wanted of the list itself:
* `released_eq_acquired`: when nothing is left at the end, everything was released as often as it was
  acquired, that is once or never;
* `borrower_first`: what borrows is released before its lender.
-/

namespace Nwep.Lib

universe u v

/-- What happens to the things named by `κ`. -/
inductive CustodyAct (κ : Type u)
  | acquire (k : κ)
  | borrow (k l : κ)   -- `k` needs `l` from now on
  | release (k : κ)
  deriving DecidableEq

/-- What is there, what was released, and who borrows from whom. -/
structure Custody (κ : Type u) where
  live    : List κ
  gone    : List κ
  borrows : List (κ × κ)

namespace Custody

variable {κ : Type u} [DecidableEq κ]

def step (w : Custody κ) : CustodyAct κ → Option (Custody κ)
  | .acquire k =>
    if k ∈ w.live ∨ k ∈ w.gone then none else some { w with live := k :: w.live }
  | .borrow k l =>
    if k ∈ w.live ∧ l ∈ w.live then some { w with borrows := (k, l) :: w.borrows } else none
  | .release k =>
    if k ∈ w.live ∧ ∀ p ∈ w.borrows, p.2 = k → p.1 ∉ w.live then
      some { w with live := w.live.erase k, gone := k :: w.gone }
    else none

variable (κ) in
/-- Nothing is there at first. -/
def machine : Machine (Custody κ) (CustodyAct κ) where
  init := ⟨[], [], []⟩
  step := step

/-- Every enabled step, with its guard and its effect. -/
inductive Does (w : Custody κ) : CustodyAct κ → Custody κ → Prop
  | acquire {k} (hl : k ∉ w.live) (hg : k ∉ w.gone) :
      Does w (.acquire k) { w with live := k :: w.live }
  | borrow {k l} (hk : k ∈ w.live) (hl : l ∈ w.live) :
      Does w (.borrow k l) { w with borrows := (k, l) :: w.borrows }
  | release {k} (hk : k ∈ w.live) (hb : ∀ p ∈ w.borrows, p.2 = k → p.1 ∉ w.live) :
      Does w (.release k) { w with live := w.live.erase k, gone := k :: w.gone }

theorem does_of_step {w v : Custody κ} {a : CustodyAct κ} (h : step w a = some v) : Does w a v := by
  unfold step at h
  split at h
  · split at h
    · exact absurd h (by simp)
    · rename_i hno
      obtain rfl := Option.some.inj h
      exact .acquire (fun hl => hno (Or.inl hl)) fun hg => hno (Or.inr hg)
  · split at h
    · rename_i hc
      obtain rfl := Option.some.inj h
      exact .borrow hc.1 hc.2
    · exact absurd h (by simp)
  · split at h
    · rename_i hc
      obtain rfl := Option.some.inj h
      exact .release hc.1 hc.2
    · exact absurd h (by simp)

/-- What is there, and lent to nobody, can be released. -/
theorem step_release {w : Custody κ} {k : κ} (hn : w.live.Nodup) (hk : k ∈ w.live)
    (hb : ∀ p ∈ w.borrows, p.2 = k → p.1 ∉ w.live) :
    ∃ v, (machine κ).step w (.release k) = some v ∧ (∀ j, j ∈ v.live ↔ j ≠ k ∧ j ∈ w.live) ∧
      v.gone = k :: w.gone ∧ v.borrows = w.borrows :=
  ⟨_, if_pos ⟨hk, hb⟩, fun _ => hn.mem_erase_iff, rfl, rfl⟩

/-- What was never there can be acquired. -/
theorem step_acquire {w : Custody κ} {k : κ} (hl : k ∉ w.live) (hg : k ∉ w.gone) :
    (machine κ).step w (.acquire k) = some { w with live := k :: w.live } :=
  if_neg (not_or.mpr ⟨hl, hg⟩)

/-- The acts behind a list of events count as the events do, when each has the act once or not. -/
theorem count_flatMap {ε : Type v} {acts : ε → List (CustodyAct κ)} {a : CustodyAct κ} {p : ε → Bool}
    (h : ∀ e, (acts e).count a = if p e then 1 else 0) (es : List ε) :
    (es.flatMap acts).count a = es.countP p := by
  induction es with
  | nil => rfl
  | cons e es ih =>
    rw [List.flatMap_cons, List.count_append, ih, h e, List.countP_cons]
    omega

/-- What the history knows of the things. -/
structure Recorded (acts : List (CustodyAct κ)) (w : Custody κ) : Prop where
  nodup    : w.live.Nodup
  apart    : ∀ k ∈ w.gone, k ∉ w.live
  acquired : ∀ k, acts.count (.acquire k) = if k ∈ w.live ∨ k ∈ w.gone then 1 else 0
  released : ∀ k, acts.count (.release k) = if k ∈ w.gone then 1 else 0
  borrowed : ∀ k l, .borrow k l ∈ acts → (k, l) ∈ w.borrows
  known    : ∀ p ∈ w.borrows, p.1 ∈ w.live ∨ p.1 ∈ w.gone

theorem recorded_step {acts : List (CustodyAct κ)} {w v : Custody κ} {a : CustodyAct κ}
    (h : Recorded acts w) (hd : Does w a v) : Recorded (acts ++ [a]) v := by
  have hborrow : ∀ {a : CustodyAct κ}, (∀ k l, a ≠ .borrow k l) → ∀ k l,
      .borrow k l ∈ acts ++ [a] → (k, l) ∈ w.borrows := by
    intro a ha k l hm
    rcases List.mem_append.mp hm with hm | hm
    · exact h.borrowed k l hm
    · exact absurd (List.mem_singleton.mp hm).symm (ha k l)
  cases hd with
  | @acquire k hl hg =>
    constructor
    · exact List.nodup_cons.mpr ⟨hl, h.nodup⟩
    · intro j hj hm
      rcases List.mem_cons.mp hm with rfl | hm
      · exact hg hj
      · exact h.apart j hj hm
    · intro j
      rw [List.count_append, h.acquired j]
      by_cases hjk : j = k
      · subst hjk
        simp [hl, hg]
      · simp [hjk, Ne.symm hjk]
    · intro j
      rw [List.count_append, h.released j]
      simp
    · exact hborrow (by simp)
    · exact fun p hp => (h.known p hp).imp_left (List.mem_cons_of_mem k)
  | @borrow k l hk _ =>
    constructor
    · exact h.nodup
    · exact h.apart
    · intro j
      rw [List.count_append, h.acquired j]
      simp
    · intro j
      rw [List.count_append, h.released j]
      simp
    · intro k' l' hm
      rcases List.mem_append.mp hm with hm | hm
      · exact List.mem_cons_of_mem _ (h.borrowed k' l' hm)
      · obtain ⟨rfl, rfl⟩ := CustodyAct.borrow.inj (List.mem_singleton.mp hm)
        exact List.mem_cons_self
    · intro p hp
      rcases List.mem_cons.mp hp with rfl | hp
      · exact Or.inl hk
      · exact h.known p hp
  | @release k hk _ =>
    have hmem : ∀ j, j ∈ w.live.erase k ↔ j ≠ k ∧ j ∈ w.live := fun j => h.nodup.mem_erase_iff
    constructor
    · exact h.nodup.erase k
    · intro j hj hm
      obtain ⟨hne, hlive⟩ := (hmem j).mp hm
      rcases List.mem_cons.mp hj with rfl | hj
      · exact hne rfl
      · exact h.apart j hj hlive
    · intro j
      rw [List.count_append, h.acquired j]
      by_cases hjk : j = k
      · subst hjk
        simp [hk]
      · simp [hmem, hjk]
    · intro j
      rw [List.count_append, h.released j]
      by_cases hjk : j = k
      · subst hjk
        have hno : j ∉ w.gone := fun hg => h.apart j hg hk
        simp [hno]
      · simp [hjk, Ne.symm hjk]
    · exact hborrow (by simp)
    · intro p hp
      by_cases hpk : p.1 = k
      · exact Or.inr (hpk ▸ List.mem_cons_self)
      · rcases h.known p hp with hl | hg
        · exact Or.inl ((hmem p.1).mpr ⟨hpk, hl⟩)
        · exact Or.inr (List.mem_cons_of_mem k hg)

theorem recorded_run {acts : List (CustodyAct κ)} {w : Custody κ}
    (h : (machine κ).run acts = some w) : Recorded acts w := by
  refine (machine κ).run_induction (P := Recorded) ?_
    (fun as s a t _ hp hst => recorded_step hp (does_of_step hst)) h
  exact ⟨List.nodup_nil, by simp [machine], by simp [machine], by simp [machine], by simp,
    by simp [machine]⟩

/-- **Everything is released once** when nothing is left. -/
theorem released_eq_acquired {acts : List (CustodyAct κ)} {w : Custody κ}
    (h : (machine κ).run acts = some w) (hnil : w.live = []) (k : κ) :
    acts.count (.release k) = acts.count (.acquire k) := by
  have hr := recorded_run h
  rw [hr.released, hr.acquired, hnil]
  simp

/-- Nothing is released while it is there. -/
theorem released_of_live {acts : List (CustodyAct κ)} {w : Custody κ}
    (h : (machine κ).run acts = some w) {k : κ} (hk : k ∈ w.live) :
    acts.count (.release k) = 0 ∧ acts.count (.acquire k) = 1 := by
  have hr := recorded_run h
  have hno : k ∉ w.gone := fun hg => hr.apart k hg hk
  rw [hr.released, hr.acquired]
  simp [hk, hno]

/-- What is gone stays gone. -/
theorem gone_runFrom {acts : List (CustodyAct κ)} {w v : Custody κ} {k : κ}
    (h : (machine κ).runFrom w acts = some v) (hk : k ∈ w.gone) : k ∈ v.gone := by
  refine (machine κ).runFrom_induction (P := fun w => k ∈ w.gone) ?_ hk h
  intro s a t hs hst
  cases does_of_step hst with
  | acquire _ _ | borrow _ _ => exact hs
  | release _ _ => exact List.mem_cons_of_mem _ hs

/-- **What borrows is released before its lender.** -/
theorem borrower_first {pre post : List (CustodyAct κ)} {w : Custody κ} {k l : κ}
    (h : (machine κ).run (pre ++ .release l :: post) = some w)
    (hb : .borrow k l ∈ pre ++ .release l :: post) : .release k ∈ pre := by
  obtain ⟨u, hu, hrest⟩ := (machine κ).run_append.mp h
  obtain ⟨v, hv, hpost⟩ := (machine κ).runFrom_cons.mp hrest
  have hr := recorded_run hu
  have hd : Does u (.release l) v := does_of_step hv
  cases hd with
  | release hl hfree =>
    have hpre : .borrow k l ∈ pre := by
      rcases List.mem_append.mp hb with hb | hb
      · exact hb
      · -- the lender is gone by then
        have hm : .borrow k l ∈ post := (List.mem_cons.mp hb).resolve_left (by simp)
        obtain ⟨as, bs, rfl⟩ := List.append_of_mem hm
        obtain ⟨x, hx, hlast⟩ := (machine κ).runFrom_append.mp hpost
        obtain ⟨y, hy, -⟩ := (machine κ).runFrom_cons.mp hlast
        have hgone : l ∈ x.gone := gone_runFrom hx List.mem_cons_self
        have hrun := (machine κ).run_append.mpr ⟨u, hu, (machine κ).runFrom_cons.mpr ⟨_, hv, hx⟩⟩
        have hbor : Does x (.borrow k l) y := does_of_step hy
        cases hbor with
        | borrow _ hlive => exact absurd hlive ((recorded_run hrun).apart l hgone)
    have hmem := hr.borrowed k l hpre
    have hgone : k ∈ u.gone := (hr.known _ hmem).resolve_left (hfree _ hmem rfl)
    have hone : pre.count (.release k) = 1 := by rw [hr.released, if_pos hgone]
    exact List.count_pos_iff.mp (by omega)

end Custody

end Nwep.Lib
