import Nwep.Runtime.ServerLoop

/-!
# How many waits after the stop flag

The owner reads the flag only at the top of its loop, and caps every wait, "so a shutdown request
is noticed within one interval". A lookup waits too, inside the loop that drains the commands, and
reads no flag.

Results:
* `wait_le_cap`: every wait is at most `POLL_CAP_MS`;
* `serving_step`: a lookup that waits after the flag is set leads to the outer wait as well;
* **`stop_noticed`**: at most one wait follows the flag in the runs in which no lookup waits after
  it, and of the runs that leave the loop in no others;
* `stop_noticed_bare`: without a dht no run has a lookup, so it holds outright.
-/

namespace Nwep.Runtime.ServerLoop

open Nwep.Lib

/-- The label enters `wait_readable`. -/
def Act.entersWait : Act → Bool
  | .wait _ _ => true
  | .lookupWait _ => true
  | _ => false

/-- The label enters the `wait_readable` of `resolve_on_thread`. -/
def Act.entersLookupWait : Act → Bool
  | .lookupWait _ => true
  | _ => false

/-- The waits a run enters with the stop flag set. -/
def waitsAfterStop (cfg : Config) (acts : List Act) : Nat :=
  (machine cfg).countFrom (fun s a => s.stop && a.entersWait) (init cfg) acts

/-- No lookup waits with the stop flag set: by then every `Resolve` the owner serves is answered. -/
def NoOpenLookup (s : State) (a : Act) : Prop := (s.stop && a.entersLookupWait) = false

/-! ## The cap -/

/-- The wait the owner is in is at most the cap. -/
def Capped (s : State) : Prop :=
  (∀ w, s.pc = .blocked w → w ≤ pollCapMs) ∧
    ∀ job dl w, s.pc = .resolve job (.blocked dl w) → w ≤ pollCapMs

theorem waitMs_le (cfg : Config) (ms dhtMs : CInt) : waitMs cfg ms dhtMs ≤ pollCapMs := by
  unfold waitMs
  exact Nat.min_le_right _ _

theorem lookupWaitMs_le (ms : CInt) : lookupWaitMs ms ≤ pollCapMs := by
  have h20 : lookupWaitMs ms ≤ 20 := Nat.min_le_right _ _
  unfold pollCapMs
  omega

/-- A step that enters no wait leaves the owner where it is, or awake. -/
theorem awake_step {cfg : Config} {s t : State} {a : Act} (hs : Step cfg s a t)
    (ha : a.entersWait = false) : t.pc = s.pc ∨
      (∀ w, t.pc ≠ .blocked w) ∧ ∀ job dl w, t.pc ≠ .resolve job (.blocked dl w) := by
  cases hs with
  | start _ | send _ _ | sendClosed _ _ | reply _ _ | cancel _ | stop _ _ | dropSender _
  | metrics _ _ => exact Or.inl rfl
  | lookupWait _ | wait _ => exact absurd ha (by simp [Act.entersWait])
  | checkStop _ _ | checkGo _ _ | tickDht _ _ _ | tickBare _ _ _ | tickErr _ _ | lookupTick _ _
  | lookupTickErr _ _ | dhtTickAnnounce _ _ | dhtTick _ _ | lookupDhtTick _ _ | lookupDhtTickErr _ _
  | announce _ _ | skipAnnounce _ _ | ageOverflow _ _ | take _ _ | nothing _ _ | storedHit _ _
  | storedMiss _ _ | resultHit _ _ | resultMiss _ _ | startLookup _ _ | startLookupErr _ _
  | deadline _ _ | deadlinePanic _ _ | clockOpen _ _ | clockPast _ _ | unblock _ | lookupUnblock _
  | dropRx _ =>
    exact Or.inr ⟨by simp [State.finish, State.unwind], by simp [State.finish, State.unwind]⟩

theorem capped_step {cfg : Config} {s t : State} {a : Act} (h : Capped s) (hs : Step cfg s a t) :
    Capped t := by
  have hawake := awake_step hs
  cases hs with
  | @lookupWait job dl ms _ =>
    refine ⟨fun w hw => absurd hw (by simp), fun job' dl' w hw => ?_⟩
    have hw : lookupWaitMs ms = w := by
      simp only [Pc.resolve.injEq, Lookup.blocked.injEq] at hw
      exact hw.2.2
    exact hw ▸ lookupWaitMs_le ms
  | @wait ms dhtMs _ =>
    refine ⟨fun w hw => ?_, fun job dl w hw => absurd hw (by simp)⟩
    have hw : waitMs cfg ms dhtMs = w := by simpa using hw
    exact hw ▸ waitMs_le cfg ms dhtMs
  | _ =>
    rcases hawake rfl with heq | ⟨hno, hno'⟩
    · unfold Capped
      rw [heq]
      exact h
    · exact ⟨fun w hw => absurd hw (hno w), fun job dl w hw => absurd hw (hno' job dl w)⟩

/-- Every wait the owner enters is at most `POLL_CAP_MS`. -/
theorem wait_le_cap {cfg : Config} {s : State} (h : (machine cfg).Reachable s) : Capped s := by
  refine (machine cfg).reachable_induction (P := Capped) ⟨?_, ?_⟩ ?_ h
  · intro w hw
    exact absurd hw (by simp [machine, init])
  · intro job dl w hw
    exact absurd hw (by simp [machine, init])
  · intro s a t _ hp hst
    exact capped_step hp (step_inv hst)

/-! ## The flag -/

/-- Nothing clears the stop flag. -/
theorem stop_step {cfg : Config} {s t : State} {a : Act} (hs : Step cfg s a t)
    (h : s.stop = true) : t.stop = true := by
  cases hs <;> first | exact h | rfl

/-- With the flag set, the owner is on its way out: its next wait would be after a check. -/
def Leaving (s : State) : Prop :=
  (∃ w, s.pc = .blocked w) ∨ s.pc = .check ∨ s.pc = .exiting ∨ s.pc = .returned

theorem leaving_step {cfg : Config} {s t : State} {a : Act} (hs : Step cfg s a t)
    (hstop : s.stop = true) (h : Leaving s) : Leaving t ∧ a.entersWait = false := by
  have hno : s.pc ≠ .tick ∧ s.pc ≠ .dhtTick ∧ (∀ n, s.pc ≠ .announce n) ∧ s.pc ≠ .recv ∧
      (∀ job l, s.pc ≠ .resolve job l) ∧ s.pc ≠ .wait := by
    rcases h with ⟨w, h⟩ | h | h | h <;> rw [h] <;> simp
  obtain ⟨hn1, hn2, hn3, hn4, hn5, hn6⟩ := hno
  cases hs with
  | start _ | send _ _ | sendClosed _ _ | reply _ _ | cancel _ | stop _ _ | dropSender _ =>
    exact ⟨h, rfl⟩
  | checkStop _ _ => exact ⟨Or.inr (Or.inr (Or.inl rfl)), rfl⟩
  | checkGo _ hgo =>
    rw [hstop] at hgo
    exact absurd hgo (by simp)
  | tickDht hpc _ _ | tickBare hpc _ _ | tickErr hpc _ => exact absurd hpc hn1
  | dhtTickAnnounce hpc _ | dhtTick hpc _ => exact absurd hpc hn2
  | announce hpc _ | skipAnnounce hpc _ | ageOverflow hpc _ => exact absurd hpc (hn3 _)
  | take hpc _ | metrics hpc _ | nothing hpc _ => exact absurd hpc hn4
  | lookupTick hpc _ | lookupTickErr hpc _ | lookupDhtTick hpc _ | lookupDhtTickErr hpc _
  | storedHit hpc _ | storedMiss hpc _ | resultHit hpc _ | resultMiss hpc _ | startLookup hpc _
  | startLookupErr hpc _ | deadline hpc _ | deadlinePanic hpc _ | clockOpen hpc _ | clockPast hpc _
  | lookupWait hpc | lookupUnblock hpc => exact absurd hpc (hn5 _ _)
  | wait hpc => exact absurd hpc hn6
  | unblock _ => exact ⟨Or.inr (Or.inl rfl), rfl⟩
  | dropRx _ => exact ⟨Or.inr (Or.inr (Or.inr rfl)), rfl⟩

/-- A step that enters a wait is the outer wait or that of a lookup. -/
theorem entersWait_step {cfg : Config} {s t : State} {a : Act} (hs : Step cfg s a t)
    (h : a.entersWait = true) :
    a.entersLookupWait = true ∧ (∃ job l, t.pc = .resolve job l) ∨
      a.entersLookupWait = false ∧ ∃ w, t.pc = .blocked w := by
  cases hs with
  | lookupWait _ => exact Or.inl ⟨rfl, _, _, rfl⟩
  | wait _ => exact Or.inr ⟨rfl, _, rfl⟩
  | _ => exact absurd h (by simp [Act.entersWait])

/-! ## At most one wait -/

/-- No wait followed the flag yet, or one did and the owner is on its way out. -/
def AtMostOne (cfg : Config) (acts : List Act) (s : State) : Prop :=
  waitsAfterStop cfg acts = 0 ∨ waitsAfterStop cfg acts = 1 ∧ s.stop = true ∧ Leaving s

theorem waitsAfterStop_snoc {cfg : Config} {acts : List Act} {s : State} {a : Act}
    (h : (machine cfg).run acts = some s) :
    waitsAfterStop cfg (acts ++ [a]) =
      waitsAfterStop cfg acts + if s.stop && a.entersWait then 1 else 0 :=
  (machine cfg).countFrom_snoc h

theorem atMostOne_step {cfg : Config} {acts : List Act} {s t : State} {a : Act}
    (hr : (machine cfg).run acts = some s) (h : AtMostOne cfg acts s) (hg : NoOpenLookup s a)
    (hs : Step cfg s a t) : AtMostOne cfg (acts ++ [a]) t := by
  unfold AtMostOne
  rw [waitsAfterStop_snoc hr]
  rcases h with h0 | ⟨h1, hstop, hl⟩
  · by_cases hw : (s.stop && a.entersWait) = true
    · obtain ⟨hstop, hw'⟩ : s.stop = true ∧ a.entersWait = true := by simpa using hw
      rcases entersWait_step hs hw' with ⟨hlk, -⟩ | ⟨-, w, hpc⟩
      · simp [NoOpenLookup, hstop, hlk] at hg
      · right
        rw [if_pos hw, h0]
        exact ⟨rfl, stop_step hs hstop, Or.inl ⟨w, hpc⟩⟩
    · left
      rw [if_neg hw, h0]
  · obtain ⟨hl', hw⟩ := leaving_step hs hstop hl
    right
    rw [hw, h1]
    exact ⟨by simp, stop_step hs hstop, hl'⟩

/-! ## A lookup that waits after the flag -/

/-- The owner serves commands: it will enter the outer wait before it reads the flag. -/
def Serving (s : State) : Prop :=
  s.pc = .recv ∨ (∃ job l, s.pc = .resolve job l) ∨ s.pc = .wait

/-- The lookups that waited with the stop flag set. -/
def lookupsAfterStop (cfg : Config) (acts : List Act) : Nat :=
  (machine cfg).countFrom (fun s a => s.stop && a.entersLookupWait) (init cfg) acts

theorem lookupsAfterStop_snoc {cfg : Config} {acts : List Act} {s : State} {a : Act}
    (h : (machine cfg).run acts = some s) :
    lookupsAfterStop cfg (acts ++ [a]) =
      lookupsAfterStop cfg acts + if s.stop && a.entersLookupWait then 1 else 0 :=
  (machine cfg).countFrom_snoc h

/-- A served lookup stays inside the loop until the outer wait, unless the owner panics. -/
theorem serving_step {cfg : Config} {s t : State} {a : Act} (hs : Step cfg s a t)
    (h : Serving s) : Serving t ∨ a.entersWait = true ∨ t.pc = .panicked := by
  have hno : s.pc ≠ .check ∧ s.pc ≠ .tick ∧ s.pc ≠ .dhtTick ∧ (∀ n, s.pc ≠ .announce n) ∧
      (∀ w, s.pc ≠ .blocked w) ∧ s.pc ≠ .exiting := by
    rcases h with h | ⟨job, l, h⟩ | h <;> rw [h] <;> simp
  obtain ⟨hn1, hn2, hn3, hn4, hn5, hn6⟩ := hno
  cases hs with
  | start _ | send _ _ | sendClosed _ _ | reply _ _ | cancel _ | stop _ _ | dropSender _
  | metrics _ _ => exact Or.inl h
  | checkStop hpc _ | checkGo hpc _ => exact absurd hpc hn1
  | tickDht hpc _ _ | tickBare hpc _ _ | tickErr hpc _ => exact absurd hpc hn2
  | dhtTickAnnounce hpc _ | dhtTick hpc _ => exact absurd hpc hn3
  | announce hpc _ | skipAnnounce hpc _ | ageOverflow hpc _ => exact absurd hpc (hn4 _)
  | take _ _ | lookupTick _ _ | lookupDhtTick _ _ | storedMiss _ _ | resultMiss _ _
  | startLookup _ _ | deadline _ _ | clockOpen _ _ | lookupUnblock _ =>
    exact Or.inl (Or.inr (Or.inl ⟨_, _, rfl⟩))
  | lookupTickErr _ _ | lookupDhtTickErr _ _ | storedHit _ _ | resultHit _ _ | startLookupErr _ _
  | clockPast _ _ => exact Or.inl (Or.inl rfl)
  | nothing _ _ => exact Or.inl (Or.inr (Or.inr rfl))
  | deadlinePanic _ _ => exact Or.inr (Or.inr rfl)
  | lookupWait _ | wait _ => exact Or.inr (Or.inl rfl)
  | unblock hpc => exact absurd hpc (hn5 _)
  | dropRx hpc => exact absurd hpc hn6

/-- Once a lookup waited after the flag, a second wait follows before the owner leaves. -/
def SecondFollows (cfg : Config) (acts : List Act) (s : State) : Prop :=
  lookupsAfterStop cfg acts = 0 ∨ 2 ≤ waitsAfterStop cfg acts ∨
    (1 ≤ waitsAfterStop cfg acts ∧ s.stop = true ∧ Serving s) ∨ s.pc = .panicked

theorem secondFollows_step {cfg : Config} {acts : List Act} {s t : State} {a : Act}
    (hr : (machine cfg).run acts = some s) (h : SecondFollows cfg acts s) (hs : Step cfg s a t) :
    SecondFollows cfg (acts ++ [a]) t := by
  unfold SecondFollows
  rw [waitsAfterStop_snoc hr, lookupsAfterStop_snoc hr]
  rcases h with h0 | h2 | ⟨h1, hstop, hserv⟩ | hp
  · by_cases hl : (s.stop && a.entersLookupWait) = true
    · obtain ⟨hstop, hl'⟩ : s.stop = true ∧ a.entersLookupWait = true := by simpa using hl
      have hw : a.entersWait = true := by
        cases a <;> first | rfl | exact absurd hl' (by simp [Act.entersLookupWait])
      rcases entersWait_step hs hw with ⟨-, job, l, hpc⟩ | ⟨hn, -⟩
      · right; right; left
        refine ⟨?_, stop_step hs hstop, Or.inr (Or.inl ⟨job, l, hpc⟩)⟩
        simp [hstop, hw]
      · rw [hl'] at hn
        exact absurd hn (by simp)
    · left
      rw [if_neg hl, h0]
  · right; left
    omega
  · rcases serving_step hs hserv with hserv' | hw | hp
    · right; right; left
      exact ⟨by omega, stop_step hs hstop, hserv'⟩
    · right; left
      rw [hstop, hw]
      simpa using h1
    · exact Or.inr (Or.inr (Or.inr hp))
  · exact Or.inr (Or.inr (Or.inr (panicked_step hs hp)))

/-! ## The main result -/

/-- **The stop flag is noticed within one poll interval** when no lookup waits with the flag set:
then at most one wait follows the flag. A run that leaves the loop without a panic meets the bound
only so. Every wait is at most `POLL_CAP_MS`. -/
theorem stop_noticed {cfg : Config} {acts : List Act} {s : State}
    (h : (machine cfg).run acts = some s) :
    ((machine cfg).Guarded NoOpenLookup (init cfg) acts → waitsAfterStop cfg acts ≤ 1) ∧
      (s.pc = .returned → waitsAfterStop cfg acts ≤ 1 →
        (machine cfg).Guarded NoOpenLookup (init cfg) acts) ∧ Capped s := by
  refine ⟨fun hg => ?_, fun hpc hle => ?_, wait_le_cap ⟨acts, h⟩⟩
  · have hone := (machine cfg).run_induction_guarded (P := AtMostOne cfg) (Or.inl rfl)
      (fun as s a t hr hp hga hst => atMostOne_step hr hp hga (step_inv hst)) h hg
    rcases hone with h0 | ⟨h1, -⟩ <;> omega
  · have hsec := (machine cfg).run_induction (P := SecondFollows cfg) (Or.inl rfl)
      (fun as s a t hr hp hst => secondFollows_step hr hp (step_inv hst)) h
    refine ((machine cfg).guarded_iff_countFrom h).mpr ?_
    rcases hsec with h0 | h2 | ⟨-, -, hserv⟩ | hp
    · exact h0
    · omega
    · rcases hserv with hs | ⟨job, l, hs⟩ | hs <;> rw [hpc] at hs <;> exact absurd hs (by simp)
    · rw [hpc] at hp
      exact absurd hp (by simp)

/-- A server with a dht, and a lookup that is answered at once. -/
def storedRun : List Act :=
  [.start 0 (.resolve 5 1000), .send 0, .check, .tick 0, .dhtTick 100 0, .take,
   .lookupResult 5 0 ⟨9⟩, .reply 0, .stop, .dropSender, .nothing, .wait 40 (-1), .unblock, .check,
   .dropRx]

theorem stop_noticed_storedRun :
    ∃ s, (machine ⟨true, none, true⟩).run storedRun = some s ∧ s.pc = .returned ∧
      s.calls 0 = .done (.resolve (.ok 9)) ∧ waitsAfterStop ⟨true, none, true⟩ storedRun = 1 ∧
      (machine ⟨true, none, true⟩).Guarded NoOpenLookup (init ⟨true, none, true⟩) storedRun :=
  ⟨_, rfl, rfl, rfl, by decide, (stop_noticed rfl).2.1 rfl (by decide)⟩

/-- The caller gave its lookup up and the server is dropped; the lookup goes on. -/
def abandonedRun : List Act :=
  [.start 0 (.resolve 5 60000000000), .send 0, .check, .tick 0, .dhtTick 100 0, .take, .cancel 0,
   .stop, .dropSender, .lookupResult 5 (-503) ⟨0⟩, .startLookup 5 100 0, .deadline 0,
   .clock 1, .tick 0, .dhtTick 100 0, .lookupResult 5 (-503) ⟨0⟩, .lookupWait (-1), .unblock,
   .clock 20000000, .tick 0, .dhtTick 100 0, .lookupResult 5 (-503) ⟨0⟩, .lookupWait (-1), .unblock,
   .clock 40000000, .tick 0, .dhtTick 100 0, .lookupResult 5 (-503) ⟨0⟩, .lookupWait (-1)]

/-- **The flag goes unnoticed**: the owner waits three times after it is set, and is still in the
lookup. -/
theorem stop_unnoticed :
    ∃ s, (machine ⟨true, none, true⟩).run abandonedRun = some s ∧ s.stop = true ∧
      waitsAfterStop ⟨true, none, true⟩ abandonedRun = 3 :=
  ⟨_, rfl, rfl, by decide⟩

/-! ## Without a dht -/

/-- Where the owner of a server without a dht can be. -/
def Bare (s : State) : Prop :=
  s.pc = .tick ∨ s.pc = .wait ∨ Leaving s

theorem bare_step {cfg : Config} {s t : State} {a : Act} (hd : cfg.dht = false)
    (hs : Step cfg s a t) (h : Bare s) : Bare t ∧ a.entersLookupWait = false := by
  have hno : s.pc ≠ .dhtTick ∧ (∀ n, s.pc ≠ .announce n) ∧ s.pc ≠ .recv ∧
      ∀ job l, s.pc ≠ .resolve job l := by
    rcases h with h | h | ⟨w, h⟩ | h | h | h <;> rw [h] <;> simp
  obtain ⟨hn1, hn2, hn3, hn4⟩ := hno
  cases hs with
  | start _ | send _ _ | sendClosed _ _ | reply _ _ | cancel _ | stop _ _ | dropSender _ =>
    exact ⟨h, rfl⟩
  | checkStop _ _ | tickErr _ _ => exact ⟨Or.inr (Or.inr (Or.inr (Or.inr (Or.inl rfl)))), rfl⟩
  | checkGo _ _ => exact ⟨Or.inl rfl, rfl⟩
  | tickDht _ _ hdht =>
    rw [hd] at hdht
    exact absurd hdht (by simp)
  | tickBare _ _ _ => exact ⟨Or.inr (Or.inl rfl), rfl⟩
  | dhtTickAnnounce hpc _ | dhtTick hpc _ => exact absurd hpc hn1
  | announce hpc _ | skipAnnounce hpc _ | ageOverflow hpc _ => exact absurd hpc (hn2 _)
  | take hpc _ | metrics hpc _ | nothing hpc _ => exact absurd hpc hn3
  | lookupTick hpc _ | lookupTickErr hpc _ | lookupDhtTick hpc _ | lookupDhtTickErr hpc _
  | storedHit hpc _ | storedMiss hpc _ | resultHit hpc _ | resultMiss hpc _ | startLookup hpc _
  | startLookupErr hpc _ | deadline hpc _ | deadlinePanic hpc _ | clockOpen hpc _ | clockPast hpc _
  | lookupWait hpc | lookupUnblock hpc => exact absurd hpc (hn4 _ _)
  | wait _ => exact ⟨Or.inr (Or.inr (Or.inl ⟨_, rfl⟩)), rfl⟩
  | unblock _ => exact ⟨Or.inr (Or.inr (Or.inr (Or.inl rfl))), rfl⟩
  | dropRx _ => exact ⟨Or.inr (Or.inr (Or.inr (Or.inr (Or.inr rfl)))), rfl⟩

/-- **Without a dht at most one wait follows the flag**, in every run. -/
theorem stop_noticed_bare {cfg : Config} (hd : cfg.dht = false) {acts : List Act} {s : State}
    (h : (machine cfg).run acts = some s) : waitsAfterStop cfg acts ≤ 1 := by
  have key := (machine cfg).run_induction (P := fun as s => Bare s ∧ AtMostOne cfg as s)
    ⟨Or.inr (Or.inr (Or.inr (Or.inl rfl))), Or.inl rfl⟩
    (fun as s a t hr hp hst => by
      obtain ⟨hb, hl⟩ := bare_step hd (step_inv hst) hp.1
      refine ⟨hb, atMostOne_step hr hp.2 ?_ (step_inv hst)⟩
      simp [NoOpenLookup, hl]) h
  rcases key.2 with h0 | ⟨h1, -⟩ <;> omega

end Nwep.Runtime.ServerLoop
