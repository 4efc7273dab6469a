import Mathlib.Data.Multiset.AddSub
import Mathlib.Data.Multiset.UnionInter
import Mathlib.Logic.Function.Basic
import Nwep.Lib.Channel
import Nwep.Lib.Machine

/-!
# One answer per call

The ledger of calls that a client hands to a server loop through a queue: who still waits, what
each reply cell holds, and which reply senders the server side holds (`held`). It knows nothing of
queues, threads or what a call asks for; a concrete bridge refines it by saying where it keeps the
senders.

The invariant (`Inv`) is that the server side holds the sender of a call exactly while its cell is
unwritten: never twice, and never lost for a caller that waits.

Results:
* `reachable_inv`: the invariant holds of every reachable ledger;
* `outcome_stable`: once a call has an outcome, every later state gives the same one until the
  caller leaves;
* `outcome_of_held_nil`: when no sender is held, every waiting caller has an outcome.
-/

namespace Nwep.Lib

/-- Where a caller is: its call not handed over, waiting for the reply, answered, or dropped. -/
inductive Caller (ρ : Type)
  | out
  | waiting
  | done (r : ρ)
  | gone
  deriving DecidableEq

/-- The ledger of the calls `ι`, answered by values of `ρ`. -/
structure Ledger (ι ρ : Type) where
  caller : ι → Caller ρ
  cell   : ι → Oneshot ρ
  held   : Multiset ι

namespace Ledger

/-- What can happen to one call. -/
inductive Op (ι ρ : Type)
  | accept (c : ι)
  | refuse (c : ι)
  | answer (c : ι) (r : ρ)
  | drop (c : ι)
  | take (c : ι)
  | leave (c : ι)

variable {ι ρ : Type} [DecidableEq ι]

/-- One operation. `closed` is what a caller gets when its send is refused or its sender dropped. -/
def step (closed : ρ) (l : Ledger ι ρ) : Op ι ρ → Option (Ledger ι ρ)
  | .accept c =>
    match l.caller c with
    | .out => some { l with caller := Function.update l.caller c .waiting, held := c ::ₘ l.held }
    | _ => none
  | .refuse c =>
    match l.caller c with
    | .out => some { l with caller := Function.update l.caller c (.done closed) }
    | _ => none
  | .answer c r =>
    if c ∈ l.held then
      some { l with cell := Function.update l.cell c ((l.cell c).send r), held := l.held.erase c }
    else none
  | .drop c =>
    if c ∈ l.held then
      some { l with cell := Function.update l.cell c (l.cell c).drop, held := l.held.erase c }
    else none
  | .take c =>
    match l.caller c, (l.cell c).recv with
    | .waiting, some r => some { l with
        caller := Function.update l.caller c (.done (r.getD closed)) }
    | _, _ => none
  | .leave c =>
    match l.caller c with
    | .out => some { l with caller := Function.update l.caller c .gone }
    | .waiting => some { l with caller := Function.update l.caller c .gone }
    | _ => none

/-- The ledger machine. -/
def machine (ι : Type) {ρ : Type} [DecidableEq ι] (closed : ρ) : Machine (Ledger ι ρ) (Op ι ρ) where
  init := { caller := fun _ => .out, cell := fun _ => .waiting, held := 0 }
  step := step closed

/-- What each enabled operation does, guards included. -/
inductive Does (closed : ρ) (l : Ledger ι ρ) : Op ι ρ → Ledger ι ρ → Prop
  | accept {c} (h : l.caller c = .out) :
      Does closed l (.accept c)
        { l with caller := Function.update l.caller c .waiting, held := c ::ₘ l.held }
  | refuse {c} (h : l.caller c = .out) :
      Does closed l (.refuse c) { l with caller := Function.update l.caller c (.done closed) }
  | answer {c r} (h : c ∈ l.held) :
      Does closed l (.answer c r)
        { l with cell := Function.update l.cell c ((l.cell c).send r), held := l.held.erase c }
  | drop {c} (h : c ∈ l.held) :
      Does closed l (.drop c)
        { l with cell := Function.update l.cell c (l.cell c).drop, held := l.held.erase c }
  | take {c r} (h : l.caller c = .waiting) (hr : (l.cell c).recv = some r) :
      Does closed l (.take c)
        { l with caller := Function.update l.caller c (.done (r.getD closed)) }
  | leave {c} (h : l.caller c = .out ∨ l.caller c = .waiting) :
      Does closed l (.leave c) { l with caller := Function.update l.caller c .gone }

theorem step_does {closed : ρ} {l l' : Ledger ι ρ} {o : Op ι ρ} (h : step closed l o = some l') :
    Does closed l o l' := by
  cases o with
  | accept c =>
    simp only [step] at h
    split at h
    · rename_i hc
      obtain rfl := Option.some.inj h
      exact .accept hc
    · exact absurd h (by simp)
  | refuse c =>
    simp only [step] at h
    split at h
    · rename_i hc
      obtain rfl := Option.some.inj h
      exact .refuse hc
    · exact absurd h (by simp)
  | answer c r =>
    simp only [step] at h
    split at h
    · rename_i hc
      obtain rfl := Option.some.inj h
      exact .answer hc
    · exact absurd h (by simp)
  | drop c =>
    simp only [step] at h
    split at h
    · rename_i hc
      obtain rfl := Option.some.inj h
      exact .drop hc
    · exact absurd h (by simp)
  | take c =>
    simp only [step] at h
    split at h
    · rename_i hc hr
      obtain rfl := Option.some.inj h
      exact .take hc hr
    · exact absurd h (by simp)
  | leave c =>
    simp only [step] at h
    split at h
    · rename_i hc
      obtain rfl := Option.some.inj h
      exact .leave (Or.inl hc)
    · rename_i hc
      obtain rfl := Option.some.inj h
      exact .leave (Or.inr hc)
    · exact absurd h (by simp)

/-! ## The invariant -/

/-- A sender is held exactly while its cell is unwritten and its caller may still need it. -/
structure Inv (closed : ρ) (l : Ledger ι ρ) : Prop where
  nodup   : l.held.Nodup
  unsent  : ∀ c ∈ l.held, l.cell c = .waiting
  handed  : ∀ c ∈ l.held, l.caller c = .waiting ∨ l.caller c = .gone
  kept    : ∀ c, l.caller c = .waiting → l.cell c = .waiting → c ∈ l.held
  fresh   : ∀ c, l.caller c = .out → l.cell c = .waiting
  settled : ∀ c r, l.caller c = .done r → l.cell c = .sent r ∨ r = closed

theorem inv_init (closed : ρ) : Inv closed (machine ι closed).init where
  nodup := Multiset.nodup_zero
  unsent := fun c hc => absurd hc (Multiset.notMem_zero c)
  handed := fun c hc => absurd hc (Multiset.notMem_zero c)
  kept := fun c hc => absurd hc (by simp [machine])
  fresh := fun _ _ => rfl
  settled := fun c r hc => absurd hc (by simp [machine])

theorem mem_erase_iff {s : Multiset ι} (hn : s.Nodup) {a c : ι} :
    a ∈ s.erase c ↔ a ∈ s ∧ a ≠ c := by
  rw [hn.mem_erase_iff, and_comm]

/-- What is read where one place was written. -/
theorem update_cases {α : Type} {f : ι → α} {c a : ι} {x y : α}
    (h : Function.update f c x a = y) : (a = c ∧ x = y) ∨ a ≠ c ∧ f a = y := by
  by_cases hac : a = c
  · subst hac
    rw [Function.update_self] at h
    exact Or.inl ⟨rfl, h⟩
  · rw [Function.update_of_ne hac] at h
    exact Or.inr ⟨hac, h⟩

omit [DecidableEq ι] in
/-- Only a caller that waits or is gone has its sender held. -/
theorem Inv.not_held {closed : ρ} {l : Ledger ι ρ} (h : Inv closed l) {c : ι}
    (hc : l.caller c = .out ∨ ∃ r, l.caller c = .done r) : c ∉ l.held := by
  intro hm
  rcases h.handed c hm with hw | hw <;> rw [hw] at hc <;> exact absurd hc (by simp)

/-- Giving up the sender of one call, whatever is written, keeps the invariant. -/
theorem Inv.release {closed : ρ} {l : Ledger ι ρ} (h : Inv closed l) {c : ι} (hc : c ∈ l.held)
    {v : Oneshot ρ} (hv : v ≠ .waiting) :
    Inv closed { l with cell := Function.update l.cell c v, held := l.held.erase c } where
  nodup := h.nodup.erase c
  unsent := fun a ha => by
    obtain ⟨ha, hne⟩ := (mem_erase_iff h.nodup).mp ha
    simpa [Function.update_of_ne hne] using h.unsent a ha
  handed := fun a ha => h.handed a ((mem_erase_iff h.nodup).mp ha).1
  kept := fun a ha hw => by
    rcases update_cases hw with ⟨-, hw⟩ | ⟨hac, hw⟩
    · exact absurd hw hv
    · exact (mem_erase_iff h.nodup).mpr ⟨h.kept a ha hw, hac⟩
  fresh := fun a ha => by
    have hac : a ≠ c := by
      rintro rfl
      exact h.not_held (Or.inl ha) hc
    simpa [Function.update_of_ne hac] using h.fresh a ha
  settled := fun a r ha => by
    have hac : a ≠ c := by
      rintro rfl
      exact h.not_held (Or.inr ⟨r, ha⟩) hc
    simpa [Function.update_of_ne hac] using h.settled a r ha

/-- A caller that is not held moves to a state that needs no sender. -/
theorem Inv.retire {closed : ρ} {l : Ledger ι ρ} (h : Inv closed l) {c : ι} {k : Caller ρ}
    (hk : k = .gone ∨ (c ∉ l.held ∧ ∃ r, k = .done r ∧ (l.cell c = .sent r ∨ r = closed))) :
    Inv closed { l with caller := Function.update l.caller c k } where
  nodup := h.nodup
  unsent := h.unsent
  handed := fun a ha => by
    by_cases hac : a = c
    · subst hac
      rcases hk with rfl | ⟨hn, -⟩
      · exact Or.inr (Function.update_self ..)
      · exact absurd ha hn
    · simpa [Function.update_of_ne hac] using h.handed a ha
  kept := fun a ha hw => by
    rcases update_cases ha with ⟨-, ha⟩ | ⟨-, ha⟩
    · rcases hk with rfl | ⟨-, r, rfl, -⟩ <;> exact absurd ha (by simp)
    · exact h.kept a ha hw
  fresh := fun a ha => by
    rcases update_cases ha with ⟨-, ha⟩ | ⟨-, ha⟩
    · rcases hk with rfl | ⟨-, r, rfl, -⟩ <;> exact absurd ha (by simp)
    · exact h.fresh a ha
  settled := fun a r ha => by
    rcases update_cases ha with ⟨rfl, ha⟩ | ⟨-, ha⟩
    · rcases hk with rfl | ⟨-, r', rfl, hr⟩
      · exact absurd ha (by simp)
      · obtain rfl : r' = r := by simpa using ha
        exact hr
    · exact h.settled a r ha

/-- **Every operation keeps the invariant.** -/
theorem Inv.does {closed : ρ} {l l' : Ledger ι ρ} {o : Op ι ρ} (h : Inv closed l)
    (hd : Does closed l o l') : Inv closed l' := by
  cases hd with
  | @accept c hc =>
    have hnot : c ∉ l.held := h.not_held (Or.inl hc)
    refine ⟨Multiset.nodup_cons.mpr ⟨hnot, h.nodup⟩, fun a ha => ?_, fun a ha => ?_,
      fun a ha hw => ?_, fun a ha => ?_, fun a r ha => ?_⟩
    · rcases Multiset.mem_cons.mp ha with rfl | ha
      · exact h.fresh a hc
      · exact h.unsent a ha
    · rcases Multiset.mem_cons.mp ha with rfl | ha
      · exact Or.inl (Function.update_self ..)
      · have hac : a ≠ c := fun e => hnot (e ▸ ha)
        simpa [Function.update_of_ne hac] using h.handed a ha
    · rcases update_cases ha with ⟨rfl, -⟩ | ⟨-, ha⟩
      · exact Multiset.mem_cons_self a l.held
      · exact Multiset.mem_cons_of_mem (h.kept a ha hw)
    · rcases update_cases ha with ⟨-, ha⟩ | ⟨-, ha⟩
      · exact absurd ha (by simp)
      · exact h.fresh a ha
    · rcases update_cases ha with ⟨-, ha⟩ | ⟨-, ha⟩
      · exact absurd ha (by simp)
      · exact h.settled a r ha
  | @refuse c hc =>
    have hnot : c ∉ l.held := h.not_held (Or.inl hc)
    exact h.retire (Or.inr ⟨hnot, closed, rfl, Or.inr rfl⟩)
  | @answer c r hc => exact h.release hc (Oneshot.send_ne_waiting _ r)
  | @drop c hc => exact h.release hc (Oneshot.drop_ne_waiting _)
  | @take c r hc hr =>
    have hnot : c ∉ l.held := by
      intro hm
      rw [h.unsent c hm] at hr
      exact absurd hr (by simp [Oneshot.recv])
    refine h.retire (Or.inr ⟨hnot, r.getD closed, rfl, ?_⟩)
    cases hcell : l.cell c with
    | waiting => rw [hcell] at hr; exact absurd hr (by simp [Oneshot.recv])
    | sent v =>
      rw [hcell] at hr
      obtain rfl : some v = r := by simpa [Oneshot.recv] using hr
      exact Or.inl rfl
    | dropped =>
      rw [hcell] at hr
      obtain rfl : none = r := by simpa [Oneshot.recv] using hr
      exact Or.inr rfl
  | leave hc => exact h.retire (Or.inl rfl)

/-- **Every reachable ledger satisfies the invariant.** -/
theorem reachable_inv {closed : ρ} {l : Ledger ι ρ} (h : (machine ι closed).Reachable l) :
    Inv closed l :=
  Machine.reachable_induction _ (inv_init closed)
    (fun _ _ _ _ hi hst => hi.does (step_does hst)) h

/-! ## Outcomes -/

/-- What awaiting the call now yields: nothing yet, or its result. -/
def outcome (closed : ρ) (l : Ledger ι ρ) (c : ι) : Option ρ :=
  match l.caller c with
  | .waiting => (l.cell c).recv.map (·.getD closed)
  | .done r => some r
  | _ => none

omit [DecidableEq ι] in
/-- When no sender is held, no caller is left waiting. -/
theorem outcome_of_held_nil {closed : ρ} {l : Ledger ι ρ} (h : Inv closed l) (h0 : l.held = 0)
    {c : ι} (hc : l.caller c = .waiting) : ∃ r, outcome closed l c = some r := by
  unfold outcome
  rw [hc]
  cases hcell : l.cell c with
  | waiting =>
    have := h.kept c hc hcell
    rw [h0] at this
    exact absurd this (Multiset.notMem_zero c)
  | sent v => exact ⟨v, rfl⟩
  | dropped => exact ⟨closed, rfl⟩

/-- One operation keeps an outcome, unless the caller leaves. -/
theorem outcome_does {closed : ρ} {l l' : Ledger ι ρ} {o : Op ι ρ} (h : Inv closed l)
    (hd : Does closed l o l') {c : ι} {r : ρ} (ho : outcome closed l c = some r) :
    outcome closed l' c = some r ∨ l'.caller c = .gone := by
  have hnot : c ∉ l.held := by
    intro hm
    unfold outcome at ho
    rcases h.handed c hm with hw | hw <;> rw [hw] at ho
    · rw [h.unsent c hm] at ho
      exact absurd ho (by simp [Oneshot.recv])
    · exact absurd ho (by simp)
  cases hd with
  | @accept a ha | @refuse a ha =>
    have hac : c ≠ a := by
      rintro rfl
      unfold outcome at ho
      rw [ha] at ho
      exact absurd ho (by simp)
    exact Or.inl (by simpa [outcome, Function.update_of_ne hac] using ho)
  | @answer a v ha | @drop a ha =>
    have hac : c ≠ a := fun e => hnot (e ▸ ha)
    exact Or.inl (by simpa [outcome, Function.update_of_ne hac] using ho)
  | @take a v ha hv =>
    by_cases hac : c = a
    · subst hac
      unfold outcome at ho
      rw [ha] at ho
      simp only [hv, Option.map_some, Option.some.injEq] at ho
      exact Or.inl (by simp [outcome, ho])
    · exact Or.inl (by simpa [outcome, Function.update_of_ne hac] using ho)
  | @leave a ha =>
    by_cases hac : c = a
    · exact Or.inr (by simp [hac])
    · exact Or.inl (by simpa [outcome, Function.update_of_ne hac] using ho)

/-- A caller that left stays away. -/
theorem gone_does {closed : ρ} {l l' : Ledger ι ρ} {o : Op ι ρ} (hd : Does closed l o l') {c : ι}
    (hc : l.caller c = .gone) : l'.caller c = .gone := by
  cases hd with
  | @accept a ha | @refuse a ha | @take a _ ha _ =>
    have hac : c ≠ a := by
      rintro rfl
      rw [ha] at hc
      exact absurd hc (by simp)
    simpa [Function.update_of_ne hac] using hc
  | answer _ | drop _ => exact hc
  | @leave a ha =>
    by_cases hac : c = a
    · simp [hac]
    · simpa [Function.update_of_ne hac] using hc

/-- **An outcome is final**: every later state gives the same one until the caller leaves, and a
caller that left stays away. -/
theorem outcome_stable {closed : ρ} {l l' : Ledger ι ρ} {os : List (Op ι ρ)} (h : Inv closed l)
    (hr : (machine ι closed).runFrom l os = some l') {c : ι} {r : ρ}
    (ho : outcome closed l c = some r ∨ l.caller c = .gone) :
    outcome closed l' c = some r ∨ l'.caller c = .gone := by
  have key := (machine ι closed).runFrom_induction
    (P := fun l => Inv closed l ∧ (outcome closed l c = some r ∨ l.caller c = .gone))
    (fun s o t hp hst => by
      have hd := step_does hst
      refine ⟨hp.1.does hd, ?_⟩
      rcases hp.2 with ho | hg
      · exact outcome_does hp.1 hd ho
      · exact Or.inr (gone_does hd hg))
    ⟨h, ho⟩ hr
  exact key.2

/-- Dropping a list of held senders, one by one. -/
theorem runFrom_drops {closed : ρ} (l : Ledger ι ρ) :
    ∀ (cs : List ι) (rest : Multiset ι), l.held = ↑cs + rest → l.held.Nodup →
      (machine ι closed).runFrom l (cs.map .drop) = some { l with
        cell := fun c => if c ∈ cs then (l.cell c).drop else l.cell c
        held := rest }
  | cs, rest, hh, hn => by
    induction cs generalizing l with
    | nil =>
      obtain rfl : l.held = rest := by simpa using hh
      simp
    | cons a cs ih =>
      have hmem : a ∈ l.held := by rw [hh]; simp
      have herase : l.held.erase a = ↑cs + rest := by
        rw [hh, ← Multiset.cons_coe, Multiset.cons_add, Multiset.erase_cons_head]
      have ha : a ∉ cs := by
        rw [hh, ← Multiset.cons_coe, Multiset.cons_add, Multiset.nodup_cons] at hn
        exact fun hm => hn.1 (Multiset.mem_add.mpr (Or.inl hm))
      rw [List.map_cons, Machine.runFrom_cons]
      refine ⟨_, by simp only [machine, step, if_pos hmem]; rfl, ?_⟩
      rw [ih { l with cell := Function.update l.cell a (l.cell a).drop, held := l.held.erase a }
        herase (hn.erase a)]
      congr 2
      funext c
      by_cases hca : c = a
      · subst hca
        simp [ha]
      · simp [hca]

end Ledger

end Nwep.Lib
