import Nwep.Runtime.ServerClock

/-!
# The announce cadence of the managed server

`run_server_loop` (`nwep/src/runtime.rs` 242-292) re-announces when `ANNOUNCE_INTERVAL_SECS` have
passed since the last attempt. `resolve_on_thread` (296-319) ticks the same server and dht, as often
as its deadline lets it, and never looks at the announce timer.

* `timed` is the managed server with the wall clock of every step. The clock never steps back, and a
  reading a step takes is the clock at that step.
* `announced` is when the last announce was attempted.

Results:
* `owed_step`: after a tick of the outer loop that is due, nothing but the announce comes next;
* `offTimer_step`: after a tick of a lookup no announce comes before the next tick;
* **`cadence_of_guarded`**: the cadence holds in every run in which no lookup ticks while an announce
  is due, and only such a tick breaks it;
* **`cadence_broken`**: two ticks of one lookup, with an announce due and none in between.
-/

namespace Nwep.Runtime.ServerLoop

open Nwep.Lib

/-- A step, and the wall clock in seconds it happens at. -/
structure TimedAct where
  act  : Act
  wall : Nat
  deriving DecidableEq

/-- The managed server, the wall clock, and when the last announce was attempted. -/
structure Timed where
  server    : State
  wall      : Nat
  announced : Option Nat

def Act.isTick : Act → Bool
  | .tick _ => true
  | _ => false

def Act.isAnnounce : Act → Bool
  | .announce _ => true
  | _ => false

/-- One step at its wall clock. -/
def timedStep (cfg : Config) (k : Timed) (a : TimedAct) : Option Timed :=
  if k.wall ≤ a.wall ∧ a.act.secs.getD a.wall = a.wall then
    (step cfg k.server a.act).map fun t =>
      ⟨t, a.wall, if a.act.isAnnounce then some a.wall else k.announced⟩
  else none

/-- The managed server under a wall clock. -/
def timed (cfg : Config) : Machine Timed TimedAct where
  init := ⟨init cfg, 0, none⟩
  step := timedStep cfg

/-- What an enabled step at its wall clock did. -/
theorem timedStep_inv {cfg : Config} {k l : Timed} {a : TimedAct}
    (h : timedStep cfg k a = some l) :
    Step cfg k.server a.act l.server ∧ k.wall ≤ a.wall ∧ a.act.secs.getD a.wall = a.wall ∧
      l.wall = a.wall ∧ l.announced = if a.act.isAnnounce then some a.wall else k.announced := by
  unfold timedStep at h
  split at h
  · rename_i hc
    obtain ⟨t, ht, rfl⟩ := Option.map_eq_some_iff.mp h
    exact ⟨step_inv ht, hc.1, hc.2, rfl, rfl⟩
  · exact absurd h (by simp)

/-- `ANNOUNCE_INTERVAL_SECS` have passed since the last announce attempt, or there was none. -/
def due (announced : Option Nat) (wall : Nat) : Bool :=
  match announced with
  | none => true
  | some at' => decide (at' + announceIntervalSecs ≤ wall)

theorem due_mono {announced : Option Nat} {v w : Nat} (h : due announced v = true) (hle : v ≤ w) :
    due announced w = true := by
  unfold due at h ⊢
  cases announced with
  | none => rfl
  | some at' =>
    have hv : at' + announceIntervalSecs ≤ v := of_decide_eq_true h
    exact decide_eq_true (hv.trans hle)

/-- Between two consecutive server ticks, the first of them when an announce is due, there is an
announce attempt. -/
def Cadence (cfg : Config) (acts : List TimedAct) : Prop :=
  ∀ pre a mid b post k, acts = pre ++ a :: (mid ++ b :: post) →
    a.act.isTick = true → b.act.isTick = true → (∀ m ∈ mid, m.act.isTick = false) →
    (timed cfg).run pre = some k → due k.announced a.wall = true →
    ∃ m ∈ mid, m.act.isAnnounce = true

/-- A server tick of a lookup, with an announce due. -/
def lookupTickDue (k : Timed) (a : TimedAct) : Bool :=
  match a.act, k.server.pc with
  | .tick _, .resolve _ (.tick _) => due k.announced a.wall
  | _, _ => false

/-! ## The announce timer keeps time -/

/-- `announced_at` is no later than the last announce attempt, nor that than the clock; the announce
timer runs on a reading that is not in the future. -/
structure Paced (k : Timed) : Prop where
  announcedAt : k.server.announcedAt ≤ k.announced.getD 0
  announced   : k.announced.getD 0 ≤ k.wall
  secs        : ∀ n, k.server.pc = .announce n → n ≤ k.wall

theorem Act.isAnnounce_false {a : Act} (h : ∀ rc, a ≠ .announce rc) : a.isAnnounce = false := by
  cases a with
  | announce rc => exact absurd rfl (h rc)
  | _ => rfl

theorem paced_step {cfg : Config} {k l : Timed} {a : TimedAct} (h : Paced k)
    (hst : timedStep cfg k a = some l) : Paced l := by
  obtain ⟨hs, hle, hsecs, hw, han⟩ := timedStep_inv hst
  have hsecs' : ∀ n, l.server.pc = .announce n → n ≤ l.wall := by
    intro n hn
    rw [hw]
    rcases announce_pc hs hn with ⟨hpc, -⟩ | ⟨rc, hact, -, -⟩
    · exact (h.secs n hpc).trans hle
    · rw [hact] at hsecs
      exact Nat.le_of_eq hsecs
  rcases announcedAt_step hs with ⟨heq, ha⟩ | ⟨rc, hact, hpc, -⟩
  · have hkept : l.announced = k.announced := by
      rw [han, Act.isAnnounce_false ha]
      rfl
    refine ⟨?_, ?_, hsecs'⟩
    · rw [heq, hkept]
      exact h.announcedAt
    · rw [hkept, hw]
      exact h.announced.trans hle
  · have hnow : l.announced = some a.wall := by
      rw [han, hact]
      rfl
    refine ⟨?_, ?_, hsecs'⟩
    · rw [hnow]
      exact (h.secs _ hpc).trans hle
    · rw [hnow, hw]
      exact Nat.le_refl _

theorem reachable_paced {cfg : Config} {k : Timed} (h : (timed cfg).Reachable k) : Paced k := by
  refine (timed cfg).reachable_induction (P := Paced) ?_ (fun _ _ _ _ hp hst => paced_step hp hst) h
  exact ⟨Nat.le_refl 0, Nat.le_refl 0, fun n hn => absurd hn (by simp [timed, init])⟩

/-- When an announce is due by the clock, the announce timer says so. -/
theorem announceDue_of_due {cfg : Config} {k : Timed} (h : Paced k) {secs : Nat}
    (hd : due k.announced secs = true) :
    announceDue cfg secs k.server.announcedAt = some true := by
  have hle := h.announcedAt
  unfold due at hd
  cases han : k.announced with
  | none =>
    rw [han] at hle
    have hzero : k.server.announcedAt = 0 := Nat.le_zero.mp hle
    unfold announceDue
    rw [if_pos hzero]
  | some at' =>
    rw [han] at hd hle
    have hpast : at' + announceIntervalSecs ≤ secs := of_decide_eq_true hd
    have hat : k.server.announcedAt ≤ at' := hle
    rw [announceDue_exact cfg (by omega)]
    exact congrArg some (decide_eq_true (Or.inr (by omega)))

/-! ## After a tick of the outer loop -/

/-- The owner is on its way from a tick to the announce timer, which will find an announce due, or
it has left the loop. -/
inductive Owed (k : Timed) : Prop
  | ticked (hpc : k.server.pc = .dhtTick) (hd : due k.announced k.wall = true)
  | timer (secs : Nat) (hpc : k.server.pc = .announce secs) (hd : due k.announced secs = true)
  | gone (hpc : k.server.pc = .exiting ∨ k.server.pc = .returned)

/-- There, the next step of the owner is the announce, not another tick. -/
theorem owed_step {cfg : Config} (ha : cfg.announce.isSome = true) {k l : Timed} {a : TimedAct}
    (hp : Paced k) (ho : Owed k) (hst : timedStep cfg k a = some l) :
    a.act.isTick = false ∧ (a.act.isAnnounce = true ∨ Owed l) := by
  obtain ⟨hs, hle, hsecs, hw, han⟩ := timedStep_inv hst
  obtain ⟨act, w⟩ := a
  obtain ⟨t, wall, la⟩ := l
  simp only at hs hle hsecs hw han
  subst hw han
  -- a step of another party leaves the owner where it is
  have hkeep : ∀ t : State, t.pc = k.server.pc → Owed ⟨t, wall, k.announced⟩ := by
    intro t ht
    cases ho with
    | ticked hpc hd => exact .ticked (ht.trans hpc) (due_mono hd hle)
    | timer secs hpc hd => exact .timer secs (ht.trans hpc) hd
    | gone hpc => exact .gone (by rw [ht]; exact hpc)
  cases hs with
  | start _ | send _ _ | sendClosed _ _ | reply _ _ | cancel _ | stop _ _ | dropSender _ =>
    exact ⟨rfl, Or.inr (hkeep _ rfl)⟩
  | @dhtTickAnnounce secs rc hpc _ =>
    refine ⟨rfl, Or.inr (.timer secs rfl ?_)⟩
    obtain rfl : secs = wall := hsecs
    cases ho with
    | ticked _ hd => exact due_mono hd hle
    | timer _ hpc' _ => exact absurd (hpc.symm.trans hpc') (by simp)
    | gone hpc' => exact absurd hpc' (by simp [hpc])
  | dhtTick _ hno => exact absurd (ha.symm.trans hno) (by simp)
  | announce _ _ => exact ⟨rfl, Or.inl rfl⟩
  | @skipAnnounce secs hpc hno | @ageOverflow secs hpc hno =>
    cases ho with
    | ticked hpc' _ => exact absurd (hpc.symm.trans hpc') (by simp)
    | timer n hpc' hd =>
      obtain rfl : secs = n := Pc.announce.inj (hpc.symm.trans hpc')
      rw [announceDue_of_due hp hd] at hno
      exact absurd hno (by simp)
    | gone hpc' => exact absurd hpc' (by simp [hpc])
  | dropRx hpc => exact ⟨rfl, Or.inr (.gone (Or.inr rfl))⟩
  | checkStop hpc _ | checkGo hpc _ | tickDht hpc _ _ | tickBare hpc _ _ | tickErr hpc _
  | lookupTick hpc _ | lookupTickErr hpc _ | lookupDhtTick hpc _ | lookupDhtTickErr hpc _
  | take hpc _ | metrics hpc _ | nothing hpc _ | storedHit hpc _ | storedMiss hpc _
  | resultHit hpc _ | resultMiss hpc _ | startLookup hpc _ | startLookupErr hpc _ | deadline hpc _
  | deadlinePanic hpc _ | clockOpen hpc _ | clockPast hpc _ | lookupWait hpc | wait hpc
  | unblock hpc | lookupUnblock hpc =>
    cases ho with
    | ticked hpc' _ => exact absurd (hpc.symm.trans hpc') (by simp)
    | timer _ hpc' _ => exact absurd (hpc.symm.trans hpc') (by simp)
    | gone hpc' => exact absurd hpc' (by simp [hpc])

/-- From there, a run with another tick has an announce before it. -/
theorem announced_before_tick {cfg : Config} (ha : cfg.announce.isSome = true) {b : TimedAct}
    (hb : b.act.isTick = true) : ∀ {mid : List TimedAct} {k l : Timed},
      (timed cfg).Reachable k → Owed k → (timed cfg).runFrom k (mid ++ [b]) = some l →
      ∃ m ∈ mid, m.act.isAnnounce = true := by
  intro mid
  induction mid with
  | nil =>
    intro k l hr ho hrun
    obtain ⟨v, hv, -⟩ := (timed cfg).runFrom_cons.mp hrun
    have hno := (owed_step ha (reachable_paced hr) ho hv).1
    exact absurd (hb.symm.trans hno) (by simp)
  | cons m mid ih =>
    intro k l hr ho hrun
    obtain ⟨v, hv, hrest⟩ := (timed cfg).runFrom_cons.mp hrun
    rcases (owed_step ha (reachable_paced hr) ho hv).2 with hm | ho'
    · exact ⟨m, List.mem_cons_self, hm⟩
    · obtain ⟨n, hn, hann⟩ := ih ((timed cfg).reachable_step hr hv) ho' hrest
      exact ⟨n, List.mem_cons_of_mem m hn, hann⟩

/-! ## After a tick of a lookup -/

/-- The owner is between the announce timer and the next tick of the outer loop, or it has left. -/
def Pc.offTimer : Pc → Bool
  | .dhtTick => false
  | .announce _ => false
  | _ => true

/-- There, no step but a tick leads to the announce timer, and none is an announce. -/
theorem offTimer_step {cfg : Config} {k l : Timed} {a : TimedAct}
    (hoff : k.server.pc.offTimer = true) (hst : timedStep cfg k a = some l) :
    a.act.isAnnounce = false ∧ (a.act.isTick = false → l.server.pc.offTimer = true) := by
  obtain ⟨hs, -, -, -, -⟩ := timedStep_inv hst
  obtain ⟨act, w⟩ := a
  obtain ⟨t, wall, la⟩ := l
  simp only at hs
  cases hs with
  | start _ | send _ _ | sendClosed _ _ | reply _ _ | cancel _ | stop _ _ | dropSender _
  | metrics _ _ => exact ⟨rfl, fun _ => hoff⟩
  | tickDht _ _ _ | tickBare _ _ _ | tickErr _ _ | lookupTick _ _ | lookupTickErr _ _ =>
    exact ⟨rfl, fun h => absurd h (by simp [Act.isTick])⟩
  | dhtTickAnnounce hpc _ | announce hpc _ =>
    rw [hpc] at hoff
    exact absurd hoff (by simp [Pc.offTimer])
  | checkStop _ _ | checkGo _ _ | dhtTick _ _ | lookupDhtTick _ _ | lookupDhtTickErr _ _
  | skipAnnounce _ _ | ageOverflow _ _ | take _ _ | nothing _ _ | storedHit _ _ | storedMiss _ _
  | resultHit _ _ | resultMiss _ _ | startLookup _ _ | startLookupErr _ _ | deadline _ _
  | deadlinePanic _ _ | clockOpen _ _ | clockPast _ _ | lookupWait _ | wait _ | unblock _
  | lookupUnblock _ | dropRx _ => exact ⟨rfl, fun _ => rfl⟩

/-- From there, a run without a tick has no announce. -/
theorem offTimer_run {cfg : Config} : ∀ {mid : List TimedAct} {k l : Timed},
    k.server.pc.offTimer = true → (∀ m ∈ mid, m.act.isTick = false) →
    (timed cfg).runFrom k mid = some l → ∀ m ∈ mid, m.act.isAnnounce = false := by
  intro mid
  induction mid with
  | nil => exact fun _ _ _ m hm => absurd hm (by simp)
  | cons n mid ih =>
    intro k l hoff htick hrun m hm
    obtain ⟨v, hv, hrest⟩ := (timed cfg).runFrom_cons.mp hrun
    obtain ⟨hann, hnext⟩ := offTimer_step hoff hv
    have hoff' := hnext (htick n List.mem_cons_self)
    rcases List.mem_cons.mp hm with rfl | hm'
    · exact hann
    · exact ih hoff' (fun x hx => htick x (List.mem_cons_of_mem n hx)) hrest m hm'

/-! ## The cadence -/

/-- Where a server tick leads, in a server with a dht. -/
theorem tick_phase {cfg : Config} (hd : cfg.dht = true) {k l : Timed} {a : TimedAct}
    (ha : a.act.isTick = true) (hdue : due k.announced a.wall = true)
    (hst : timedStep cfg k a = some l) :
    (lookupTickDue k a = true ∧ l.server.pc.offTimer = true) ∨
      (lookupTickDue k a = false ∧ Owed l) := by
  obtain ⟨hs, hle, hsecs, hw, han⟩ := timedStep_inv hst
  obtain ⟨act, w⟩ := a
  obtain ⟨t, wall, la⟩ := l
  simp only at hs hle hsecs hw han hdue
  subst hw han
  cases hs with
  | tickDht hpc _ _ =>
    refine Or.inr ⟨?_, .ticked rfl hdue⟩
    simp [lookupTickDue, hpc]
  | tickErr hpc _ =>
    refine Or.inr ⟨?_, .gone (Or.inl rfl)⟩
    simp [lookupTickDue, hpc]
  | tickBare _ _ hno => exact absurd (hd.symm.trans hno) (by simp)
  | lookupTick hpc _ | lookupTickErr hpc _ =>
    refine Or.inl ⟨?_, rfl⟩
    simpa [lookupTickDue, hpc] using hdue
  | _ => exact absurd ha (by simp [Act.isTick])

theorem lookupTickDue_inv {k : Timed} {a : TimedAct} (h : lookupTickDue k a = true) :
    a.act.isTick = true ∧ due k.announced a.wall = true := by
  unfold lookupTickDue at h
  split at h
  · rename_i hact _
    exact ⟨by rw [hact]; rfl, h⟩
  · exact absurd h (by simp)

/-- The first tick of a list that has one. -/
theorem first_tick {rest : List TimedAct} {b : TimedAct} (hb : b ∈ rest)
    (hbt : b.act.isTick = true) :
    ∃ mid c post, rest = mid ++ c :: post ∧ c.act.isTick = true ∧
      ∀ m ∈ mid, m.act.isTick = false := by
  have hsome : (rest.find? fun m => m.act.isTick).isSome = true :=
    List.find?_isSome.mpr ⟨b, hb, hbt⟩
  obtain ⟨c, hc⟩ := Option.isSome_iff_exists.mp hsome
  obtain ⟨htick, mid, post, hsplit, hmid⟩ := List.find?_eq_some_iff_append.mp hc
  refine ⟨mid, c, post, hsplit, htick, fun m hm => ?_⟩
  simpa using hmid m hm

/-- **The cadence holds when no lookup ticks while an announce is due**, and only such a tick breaks
it: under the cadence it is the last tick of the run. -/
theorem cadence_of_guarded {cfg : Config} (hd : cfg.dht = true) (ha : cfg.announce.isSome = true)
    {acts : List TimedAct} {l : Timed} (h : (timed cfg).run acts = some l) :
    ((timed cfg).Guarded (fun k a => lookupTickDue k a = false) (timed cfg).init acts →
      Cadence cfg acts) ∧
    (Cadence cfg acts → ∀ pre a rest k, acts = pre ++ a :: rest → (timed cfg).run pre = some k →
      lookupTickDue k a = true → ∀ b ∈ rest, b.act.isTick = false) := by
  constructor
  · rintro hg pre a mid b post k rfl hat hbt - hk hdue
    obtain ⟨u, hu, hrest⟩ := (timed cfg).run_append.mp h
    obtain rfl : k = u := Option.some.inj (hk.symm.trans hu)
    obtain ⟨v, hv, hrest⟩ := (timed cfg).runFrom_cons.mp hrest
    have hguard := (((timed cfg).guarded_append hu).mp hg).2.1
    rcases tick_phase hd hat hdue hv with ⟨hbad, -⟩ | ⟨-, ho⟩
    · exact absurd (hbad.symm.trans hguard) (by simp)
    · rw [List.append_cons] at hrest
      obtain ⟨w, hw, -⟩ := (timed cfg).runFrom_append.mp hrest
      exact announced_before_tick ha hbt ((timed cfg).reachable_step ⟨pre, hk⟩ hv) ho hw
  · rintro hcad pre a rest k rfl hk hbad b hb
    by_contra hbt
    obtain ⟨mid, c, post, rfl, hct, hmid⟩ := first_tick hb (by simpa using hbt)
    obtain ⟨hat, hdue⟩ := lookupTickDue_inv hbad
    obtain ⟨m, hm, hann⟩ := hcad pre a mid c post k rfl hat hct hmid hk hdue
    obtain ⟨u, hu, hrest⟩ := (timed cfg).run_append.mp h
    obtain rfl : k = u := Option.some.inj (hk.symm.trans hu)
    obtain ⟨v, hv, hrest⟩ := (timed cfg).runFrom_cons.mp hrest
    obtain ⟨w, hw, -⟩ := (timed cfg).runFrom_append.mp hrest
    rcases tick_phase hd hat hdue hv with ⟨-, hoff⟩ | ⟨hok, -⟩
    · have hno := offTimer_run hoff hmid hw m hm
      exact absurd (hann.symm.trans hno) (by simp)
    · exact absurd (hbad.symm.trans hok) (by simp)

/-- An outer turn that announces at wall clock `secs`, up to the wait. -/
def announceTurn (secs : Nat) : List TimedAct :=
  [⟨.check, secs⟩, ⟨.tick 0, secs⟩, ⟨.dhtTick secs 0, secs⟩, ⟨.announce 0, secs⟩,
   ⟨.nothing, secs⟩, ⟨.wait 5 7, secs⟩, ⟨.unblock, secs⟩]

/-- Two turns of the outer loop, half a minute apart. -/
theorem cadence_of_guarded_twoTurns :
    ∃ l, (timed ⟨true, some 3, true⟩).run (announceTurn 100 ++ announceTurn 130) = some l ∧
      l.announced = some 130 ∧
      Cadence ⟨true, some 3, true⟩ (announceTurn 100 ++ announceTurn 130) :=
  ⟨_, rfl, rfl, (cadence_of_guarded rfl rfl rfl).1 (by decide)⟩

/-- A lookup that is still on its way half a minute after the announce. -/
def longLookup : List TimedAct :=
  [⟨.start 0 (.resolve 5 60000000000), 100⟩, ⟨.send 0, 100⟩, ⟨.check, 100⟩, ⟨.tick 0, 100⟩,
   ⟨.dhtTick 100 0, 100⟩, ⟨.announce 0, 100⟩, ⟨.take, 100⟩, ⟨.lookupResult 5 (-503) ⟨0⟩, 100⟩,
   ⟨.startLookup 5 100 0, 100⟩, ⟨.deadline 7, 100⟩, ⟨.clock 8, 100⟩, ⟨.tick 0, 130⟩,
   ⟨.dhtTick 130 0, 130⟩, ⟨.lookupResult 5 (-503) ⟨0⟩, 130⟩, ⟨.lookupWait 3, 130⟩, ⟨.unblock, 131⟩,
   ⟨.clock 9, 131⟩, ⟨.tick 0, 131⟩]

/-- **The cadence is broken**: half a minute after the last announce the lookup ticks, and ticks
again. -/
theorem cadence_broken :
    ∃ l, (timed ⟨true, some 3, true⟩).run longLookup = some l ∧ l.announced = some 100 ∧
      ¬ Cadence ⟨true, some 3, true⟩ longLookup := by
  refine ⟨_, rfl, rfl, fun hc => ?_⟩
  obtain ⟨m, hm, hann⟩ := hc (longLookup.take 11) ⟨.tick 0, 130⟩ ((longLookup.drop 12).take 5)
    ⟨.tick 0, 131⟩ [] _ rfl rfl rfl (by decide) rfl rfl
  revert m
  decide

end Nwep.Runtime.ServerLoop
