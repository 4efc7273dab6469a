import Nwep.Runtime.ServerReplies

/-!
# The two panics of the owner thread

`resolve_on_thread` computes `Instant::now() + timeout` and `run_server_loop` computes
`secs - announced_at` (`nwep/src/runtime.rs` 307, 260). Neither is checked. Both depend on clock
readings, so both are about whole runs: the deadline on the instant the owner serves the command at,
the age on every reading since the last announce.

* `readings` is what the label history says of the wall clock: the last reading of the outer loop,
  and the one in force at the last announce attempt.
* `SystemTime` may step back, `Instant` does not; neither is assumed here.

Results:
* **`lookups_survive_iff`**: lookups leave the owner alone exactly in the runs whose deadlines are
  instants;
* `announced_run`: `announced_at` is the reading at the last announce;
* **`ages_exact_iff`**: the age is exact exactly in the runs in which no reading is below that one;
* `neverBehind_of_monotone`, `not_panicked`: so it is with a clock that never steps back.
-/

namespace Nwep.Runtime.ServerLoop

open Nwep.Lib

/-! ## The deadline of a lookup -/

/-- A step that computes the deadline of a lookup: the sum is an `Instant`. -/
def deadlineFits (s : State) (a : Act) : Bool :=
  match a, s.pc with
  | .deadline now, .resolve job .deadline => decide (now + job.timeout ≤ instantMax)
  | _, _ => true

/-- The deadline is an `Instant`. -/
def DeadlineFits (s : State) (a : Act) : Prop := deadlineFits s a = true

instance (s : State) (a : Act) : Decidable (DeadlineFits s a) :=
  inferInstanceAs (Decidable (deadlineFits s a = true))

theorem deadlineFits_iff {s : State} {job : Job} (h : s.pc = .resolve job .deadline)
    (now : Instant) : DeadlineFits s (.deadline now) ↔ now + job.timeout ≤ instantMax := by
  unfold DeadlineFits deadlineFits
  rw [h]
  exact decide_eq_true_iff

/-- Lookups never take the server down. -/
structure LookupsSurvive (cfg : Config) (acts : List Act) : Prop where
  /-- Every deadline is computed, -/
  computed : ∀ pre now post s t job, acts = pre ++ .deadline now :: post →
    (machine cfg).run pre = some s → s.pc = .resolve job .deadline →
    (machine cfg).step s (.deadline now) = some t →
    t.pc = .resolve job (.clock (now + job.timeout))
  /-- the owner loop does not panic but in the announce timer, -/
  alive : ∀ pre post s, acts = pre ++ post → (machine cfg).run pre = some s →
    s.pc = .panicked → .ageOverflow ∈ pre
  /-- and a lookup that is no longer served was answered, with an address or an error. -/
  answered : ∀ pre mid post s t job l, acts = pre ++ (mid ++ post) →
    (machine cfg).run pre = some s → s.pc = .resolve job l →
    (machine cfg).runFrom s mid = some t →
    (∃ l', t.pc = .resolve job l') ∨ ∃ r, t.replies job.reply = .sent (.resolve r)

/-- The owner is at the lookup, or its caller's cell is filled. -/
def ServedOrAnswered (job : Job) (s : State) : Prop :=
  (∃ l, s.pc = .resolve job l) ∨ ∃ r, s.replies job.reply = .sent (.resolve r)

/-- The reply of the command being served is written by no one else. -/
theorem waiting_of_served {cfg : Config} {s : State} (hre : (machine cfg).Reachable s) {job : Job}
    {l : Lookup} (h : s.pc = .resolve job l) : s.replies job.reply = .waiting := by
  have hmem : job.reply ∈ (ledger s).held := by
    simp [ledger, heldList, h, Pc.serving]
  exact Oneshot.map_eq_waiting.mp ((reachable_ledger hre).unsent _ hmem)

theorem finish_answers {s : State} {job : Job} (h : s.replies job.reply = .waiting)
    (r : Result Address) : (s.finish job r).replies job.reply = .sent (.resolve r) := by
  have hself := s.answer_self job.reply (.resolve r)
  rw [h] at hself
  exact hself

/-- A step of the owner out of a lookup answers it, unless it is the panic. -/
theorem served_step {cfg : Config} {s t : State} {a : Act} (hre : (machine cfg).Reachable s)
    (hs : Step cfg s a t) (hg : DeadlineFits s a) {job : Job} (h : ServedOrAnswered job s) :
    ServedOrAnswered job t := by
  rcases h with ⟨l, hpc⟩ | ⟨r, hr⟩
  · have hw := waiting_of_served hre hpc
    have hjob : ∀ {job' : Job} {l' : Lookup}, s.pc = .resolve job' l' → job' = job := by
      intro job' l' h'
      rw [hpc] at h'
      exact (Pc.resolve.inj h').1.symm
    cases hs with
    | start _ | send _ _ | sendClosed _ _ | reply _ _ | cancel _ | stop _ _ | dropSender _ =>
      exact Or.inl ⟨l, hpc⟩
    | lookupTick h' _ | lookupDhtTick h' _ | storedMiss h' _ | resultMiss h' _ | startLookup h' _
    | deadline h' _ | clockOpen h' _ | lookupWait h' | lookupUnblock h' =>
      exact Or.inl ⟨_, by rw [hjob h']⟩
    | lookupTickErr h' _ | lookupDhtTickErr h' _ | storedHit h' _ | resultHit h' _
    | startLookupErr h' _ | clockPast h' _ =>
      obtain rfl := hjob h'
      exact Or.inr ⟨_, finish_answers hw _⟩
    | deadlinePanic h' hd =>
      have hfit := (deadlineFits_iff h' _).mp hg
      exact absurd (instantAdd_none.mp hd) (Nat.not_lt.mpr hfit)
    | checkStop h' _ | checkGo h' _ | tickDht h' _ _ | tickBare h' _ _ | tickErr h' _
    | dhtTickAnnounce h' _ | dhtTick h' _ | announce h' _ | skipAnnounce h' _ | ageOverflow h' _
    | take h' _ | metrics h' _ | nothing h' _ | wait h' | unblock h' | dropRx h' =>
      rw [hpc] at h'
      exact absurd h' (by simp)
  · exact Or.inr ⟨r, sent_step hs hr⟩

/-- Only the two panics lead to the panicked owner. -/
theorem panicked_cases {cfg : Config} {s t : State} {a : Act} (hs : Step cfg s a t)
    (ht : t.pc = .panicked) : s.pc = .panicked ∨ a = .ageOverflow ∨
      ∃ job now, a = .deadline now ∧ s.pc = .resolve job .deadline ∧
        instantMax < now + job.timeout := by
  cases hs with
  | start _ | send _ _ | sendClosed _ _ | reply _ _ | cancel _ | stop _ _ | dropSender _ =>
    exact Or.inl ht
  | metrics h _ =>
    have ht' : s.pc = .panicked := ht
    exact Or.inl ht'
  | ageOverflow _ _ => exact Or.inr (Or.inl rfl)
  | deadlinePanic h hd => exact Or.inr (Or.inr ⟨_, _, rfl, h, instantAdd_none.mp hd⟩)
  | checkStop _ _ | checkGo _ _ | tickDht _ _ _ | tickBare _ _ _ | tickErr _ _ | lookupTick _ _
  | lookupTickErr _ _ | dhtTickAnnounce _ _ | dhtTick _ _ | lookupDhtTick _ _ | lookupDhtTickErr _ _
  | announce _ _ | skipAnnounce _ _ | take _ _ | nothing _ _ | storedHit _ _ | storedMiss _ _
  | resultHit _ _ | resultMiss _ _ | startLookup _ _ | startLookupErr _ _ | deadline _ _
  | clockOpen _ _ | clockPast _ _ | lookupWait _ | wait _ | unblock _ | lookupUnblock _
  | dropRx _ => exact absurd ht (by simp [State.finish])

/-- A deadline that is an instant is computed. -/
theorem deadline_computed {cfg : Config} {s t : State} {job : Job} {now : Instant}
    (hpc : s.pc = .resolve job .deadline) (hfit : now + job.timeout ≤ instantMax)
    (hst : (machine cfg).step s (.deadline now) = some t) :
    t.pc = .resolve job (.clock (now + job.timeout)) := by
  have hst' : step cfg s (.deadline now) = some t := hst
  simp only [step, hpc, instantAdd_fits hfit] at hst'
  obtain rfl := Option.some.inj hst'
  rfl

/-- The owner of a run whose deadlines are instants panics in the announce timer only. -/
theorem alive_run {cfg : Config} {acts : List Act} {s : State} (h : (machine cfg).run acts = some s)
    (hg : (machine cfg).Guarded DeadlineFits (init cfg) acts) :
    s.pc = .panicked → .ageOverflow ∈ acts := by
  refine (machine cfg).run_induction_guarded
    (P := fun as s => s.pc = .panicked → .ageOverflow ∈ as) ?_ ?_ h hg
  · intro hp
    exact absurd hp (by simp [machine, init])
  · intro as s a t _ hp hga hst hpan
    rcases panicked_cases (step_inv hst) hpan with hs | rfl | ⟨job, now, rfl, hpc, hover⟩
    · exact List.mem_append_left _ (hp hs)
    · simp
    · exact absurd hover (Nat.not_lt.mpr ((deadlineFits_iff hpc now).mp hga))

/-- A lookup is served until it is answered, as long as the deadlines are instants. -/
theorem served_runFrom {cfg : Config} {s t : State} {mid : List Act}
    (hre : (machine cfg).Reachable s) (h : (machine cfg).runFrom s mid = some t)
    (hg : (machine cfg).Guarded DeadlineFits s mid) {job : Job} (hs : ServedOrAnswered job s) :
    ServedOrAnswered job t := by
  have key := (machine cfg).runFrom_induction_guarded
    (P := fun s => (machine cfg).Reachable s ∧ ServedOrAnswered job s)
    (fun s a t hs hga hst => ⟨(machine cfg).reachable_step hs.1 hst,
      served_step hs.1 (step_inv hst) hga hs.2⟩) ⟨hre, hs⟩ hg h
  exact key.2

/-- **Lookups leave the owner alone** exactly in the runs whose deadlines are instants. -/
theorem lookups_survive_iff {cfg : Config} {acts : List Act} {s : State}
    (h : (machine cfg).run acts = some s) :
    LookupsSurvive cfg acts ↔ (machine cfg).Guarded DeadlineFits (init cfg) acts := by
  constructor
  · intro hsv
    refine (machine cfg).guarded_of_split h ?_
    intro pre a post u v has hu hv _
    by_contra hover
    have hstep : Step cfg u a v := step_inv hv
    cases hstep with
    | @deadline job now dl hpc hd =>
      obtain rfl := instantAdd_some hd
      refine hover ((deadlineFits_iff hpc now).mpr ?_)
      by_contra hn
      rw [instantAdd_none.mpr (Nat.lt_of_not_le hn)] at hd
      exact absurd hd (by simp)
    | @deadlinePanic job now hpc hd =>
      have hgo := hsv.computed pre now post u _ job has hu hpc hv
      exact absurd hgo (by simp [State.unwind])
    | _ => exact hover rfl
  · intro hg
    constructor
    · rintro pre now post u v job rfl hu hpc hv
      have hgd := (((machine cfg).guarded_append hu).mp hg).2.1
      exact deadline_computed hpc ((deadlineFits_iff hpc now).mp hgd) hv
    · rintro pre post u rfl hu
      exact alive_run hu (((machine cfg).guarded_append hu).mp hg).1
    · rintro pre mid post u v job l rfl hu hpc hv
      have hgm := (((machine cfg).guarded_append hu).mp hg).2
      exact served_runFrom ⟨pre, hu⟩ hv (((machine cfg).guarded_append hv).mp hgm).1
        (Or.inl ⟨l, hpc⟩)

/-- A lookup of one second that is answered at its second turn. -/
def secondTurn : List Act :=
  [.start 0 (.resolve 5 1000000000), .send 0, .check, .tick 0, .dhtTick 100 0, .take,
   .lookupResult 5 (-503) ⟨0⟩, .startLookup 5 100 0, .deadline 7, .clock 8, .tick 0, .dhtTick 100 0,
   .lookupResult 5 (-503) ⟨0⟩, .lookupWait 3, .unblock, .clock 3000009, .tick 0, .dhtTick 100 0,
   .lookupResult 5 0 ⟨9⟩, .reply 0]

theorem lookups_survive_iff_secondTurn :
    ∃ s, (machine ⟨true, none, true⟩).run secondTurn = some s ∧
      s.calls 0 = .done (.resolve (.ok 9)) ∧ LookupsSurvive ⟨true, none, true⟩ secondTurn :=
  ⟨_, rfl, rfl, (lookups_survive_iff rfl).mpr (by decide)⟩

/-- `Duration::MAX`. -/
def durationMax : Duration := u64Max * 1000000000 + 999999999

/-- No instant is early enough for the largest timeout. -/
theorem instantAdd_durationMax (now : Instant) : instantAdd now durationMax = none := by
  have hlt : instantMax < durationMax := by decide
  exact instantAdd_none.mpr (Nat.lt_of_lt_of_le hlt (Nat.le_add_left durationMax now))

/-- A lookup without a timeout to speak of. -/
def foreverRun : List Act :=
  [.start 0 (.resolve 5 durationMax), .send 0, .check, .tick 0, .dhtTick 100 0, .take,
   .lookupResult 5 (-503) ⟨0⟩, .startLookup 5 100 0, .deadline 7, .reply 0]

/-- **A lookup takes the server down**: the owner panics at its deadline. -/
theorem lookup_panics :
    ∃ s, (machine ⟨true, none, true⟩).run foreverRun = some s ∧ s.pc = .panicked ∧
      s.calls 0 = .done (.resolve (.error .networkClosed)) ∧
      ¬ LookupsSurvive ⟨true, none, true⟩ foreverRun := by
  refine ⟨_, rfl, rfl, rfl, fun h => ?_⟩
  exact absurd (h.alive foreverRun [] _ (List.append_nil _).symm rfl rfl) (by decide)

/-! ## The age of the last announce -/

/-- The last reading of the wall clock for `dht.tick`, and the one at the last announce attempt. -/
structure Readings where
  last      : Nat
  announced : Option Nat
  deriving DecidableEq

def Readings.next (r : Readings) : Act → Readings
  | .dhtTick secs _ => { r with last := secs }
  | .announce _ => { r with announced := some r.last }
  | _ => r

/-- The readings of a history. -/
def readings (acts : List Act) : Readings := acts.foldl Readings.next ⟨0, none⟩

theorem readings_snoc (acts : List Act) (a : Act) :
    readings (acts ++ [a]) = (readings acts).next a := by
  unfold readings
  rw [List.foldl_append]
  rfl

/-- `announced_at` is the reading at the last announce, and the announce timer runs on the last
reading, where there is an address to announce. -/
structure Announced (cfg : Config) (acts : List Act) (s : State) : Prop where
  at'    : s.announcedAt = (readings acts).announced.getD 0
  secs   : ∀ n, s.pc = .announce n → (readings acts).last = n ∧ cfg.announce.isSome = true
  source : ∀ n, (readings acts).announced = some n → cfg.announce.isSome = true

/-- Only a reading changes the last reading, -/
theorem Readings.next_last (r : Readings) {a : Act} (h : ∀ secs rc, a ≠ .dhtTick secs rc) :
    (r.next a).last = r.last := by
  cases a with
  | dhtTick secs rc => exact absurd rfl (h secs rc)
  | _ => rfl

/-- and only an announce the announced one. -/
theorem Readings.next_announced (r : Readings) {a : Act} (h : ∀ rc, a ≠ .announce rc) :
    (r.next a).announced = r.announced := by
  cases a with
  | announce rc => exact absurd rfl (h rc)
  | _ => rfl

theorem announced_step {cfg : Config} {acts : List Act} {s t : State} {a : Act}
    (h : Announced cfg acts s) (hs : Step cfg s a t) : Announced cfg (acts ++ [a]) t := by
  constructor
  · rw [readings_snoc]
    rcases announcedAt_step hs with ⟨heq, ha⟩ | ⟨rc, rfl, hpc, -⟩
    · rw [Readings.next_announced _ ha, heq]
      exact h.at'
    · exact (h.secs _ hpc).1.symm
  · intro n hn
    rw [readings_snoc]
    rcases announce_pc hs hn with ⟨hpc, ha⟩ | ⟨rc, rfl, -, hsome⟩
    · rw [Readings.next_last _ ha]
      exact h.secs n hpc
    · exact ⟨rfl, hsome⟩
  · intro n hn
    rw [readings_snoc] at hn
    rcases announcedAt_step hs with ⟨-, ha⟩ | ⟨rc, rfl, hpc, -⟩
    · rw [Readings.next_announced _ ha] at hn
      exact h.source n hn
    · exact (h.secs _ hpc).2

/-- **`announced_at` is the reading at the last announce**, in every run. -/
theorem announced_run {cfg : Config} {acts : List Act} {s : State}
    (h : (machine cfg).run acts = some s) : Announced cfg acts s := by
  refine (machine cfg).run_induction (P := Announced cfg) ?_ ?_ h
  · exact ⟨rfl, fun n hn => absurd hn (by simp [machine, init]),
      fun n hn => absurd hn (by simp [readings])⟩
  · intro as s a t _ hp hst
    exact announced_step hp (step_inv hst)

/-- Whenever the announce timer is evaluated, the subtraction is not below zero, and the timer says
whether `ANNOUNCE_INTERVAL_SECS` have passed. -/
def AgesExact (cfg : Config) (acts : List Act) : Prop :=
  ∀ pre post s secs, acts = pre ++ post → (machine cfg).run pre = some s →
    s.pc = .announce secs → (s.announcedAt ≠ 0 → s.announcedAt ≤ secs) ∧
      announceDue cfg secs s.announcedAt =
        some (decide (s.announcedAt = 0 ∨ s.announcedAt + announceIntervalSecs ≤ secs))

/-- No reading of the outer loop is below the one at the last announce. -/
def NeverBehind (cfg : Config) (acts : List Act) : Prop :=
  ∀ pre secs rc post s, acts = pre ++ .dhtTick secs rc :: post →
    (machine cfg).run pre = some s → s.pc = .dhtTick →
    ∀ n, (readings pre).announced = some n → n ≤ secs

/-- With the last announce not in the future the timer is exact. -/
theorem announceDue_exact (cfg : Config) {secs at' : Nat} (h : at' ≤ secs) :
    announceDue cfg secs at' = some (decide (at' = 0 ∨ at' + announceIntervalSecs ≤ secs)) := by
  unfold announceDue age
  by_cases h0 : at' = 0
  · simp [h0]
  · rw [if_neg h0, if_pos h, Option.map_some]
    refine congrArg some (decide_eq_decide.mpr ?_)
    unfold announceIntervalSecs
    omega

/-- The reading the announce timer runs on is not behind. -/
theorem announcedAt_le {cfg : Config} {acts : List Act} (hn : NeverBehind cfg acts) {pre : List Act}
    {s : State} (hr : (machine cfg).run pre = some s) :
    ∀ post, acts = pre ++ post → ∀ secs, s.pc = .announce secs → s.announcedAt ≤ secs := by
  refine (machine cfg).run_induction (P := fun pre s => ∀ post, acts = pre ++ post →
    ∀ secs, s.pc = .announce secs → s.announcedAt ≤ secs) ?_ ?_ hr
  · intro post _ secs hpc
    exact absurd hpc (by simp [machine, init])
  · intro as s a t hr hp hst post has secs hpc
    have hsplit : acts = as ++ a :: post := by simpa using has
    have hstep : Step cfg s a t := step_inv hst
    have hat : t.announcedAt = s.announcedAt := by
      rcases announcedAt_step hstep with ⟨heq, -⟩ | ⟨_, -, -, hrecv⟩
      · exact heq
      · rw [hpc] at hrecv
        exact absurd hrecv (by simp)
    rw [hat]
    rcases announce_pc hstep hpc with ⟨hpc', -⟩ | ⟨rc, rfl, hpc', -⟩
    · exact hp _ hsplit secs hpc'
    · rw [(announced_run hr).at']
      cases hann : (readings as).announced with
      | none => exact Nat.zero_le secs
      | some k => exact hn as secs rc post s hsplit hr hpc' k hann

/-- **The age is exact** exactly in the runs in which no reading is below the one at the last
announce. -/
theorem ages_exact_iff (cfg : Config) (acts : List Act) :
    AgesExact cfg acts ↔ NeverBehind cfg acts := by
  constructor
  · intro hall pre secs rc post u has hu hpc n hn
    have hann := announced_run hu
    have hsome := hann.source n hn
    have hv : (machine cfg).run (pre ++ [.dhtTick secs rc]) =
        some { u with pc := .announce secs } := by
      refine (machine cfg).run_snoc.mpr ⟨u, hu, ?_⟩
      simp [machine, step, hpc, hsome]
    obtain ⟨hle, -⟩ := hall (pre ++ [.dhtTick secs rc]) post _ secs (by simp [has]) hv rfl
    have hat : u.announcedAt = n := by rw [hann.at', hn, Option.getD_some]
    by_cases h0 : n = 0
    · exact h0 ▸ Nat.zero_le secs
    · exact hat ▸ hle (hat ▸ h0)
  · intro hn pre post u secs has hu hpc
    have hle := announcedAt_le hn hu post has secs hpc
    exact ⟨fun _ => hle, announceDue_exact cfg hle⟩

/-! ## A clock that never steps back -/

/-- The wall clock reading a step takes. -/
def Act.secs : Act → Option Nat
  | .dhtTick secs _ => some secs
  | .startLookup _ secs _ => some secs
  | _ => none

/-- The wall clock never steps back. -/
def Monotone (acts : List Act) : Prop := (acts.filterMap Act.secs).Pairwise (· ≤ ·)

instance (acts : List Act) : Decidable (Monotone acts) :=
  inferInstanceAs (Decidable (List.Pairwise _ _))

/-- What the history remembers of the clock was read. -/
theorem readings_mem (acts : List Act) :
    ((readings acts).last = 0 ∨ (readings acts).last ∈ acts.filterMap Act.secs) ∧
      ∀ n, (readings acts).announced = some n → n = 0 ∨ n ∈ acts.filterMap Act.secs := by
  induction acts using List.reverseRecOn with
  | nil => exact ⟨Or.inl rfl, fun n hn => absurd hn (by simp [readings])⟩
  | append_singleton acts a ih =>
    obtain ⟨hl, hn⟩ := ih
    have hmem : ∀ n, n = 0 ∨ n ∈ acts.filterMap Act.secs →
        n = 0 ∨ n ∈ (acts ++ [a]).filterMap Act.secs := by
      intro n hn
      rw [List.filterMap_append]
      exact hn.imp_right (List.mem_append_left _)
    rw [readings_snoc]
    cases a with
    | dhtTick secs rc =>
      refine ⟨Or.inr ?_, fun n h => hmem n (hn n h)⟩
      simp [List.filterMap_append, Act.secs, Readings.next]
    | announce rc =>
      refine ⟨hmem _ hl, fun n h => ?_⟩
      obtain rfl : (readings acts).last = n := Option.some.inj h
      exact hmem _ hl
    | _ => exact ⟨hmem _ hl, fun n h => hmem n (hn n h)⟩

/-- With a clock that never steps back no reading is behind. -/
theorem neverBehind_of_monotone {cfg : Config} {acts : List Act} (h : Monotone acts) :
    NeverBehind cfg acts := by
  rintro pre secs rc post s rfl _ _ n hn
  rcases (readings_mem pre).2 n hn with rfl | hmem
  · exact Nat.zero_le secs
  · unfold Monotone at h
    rw [List.filterMap_append, List.pairwise_append] at h
    exact h.2.2 n hmem secs (by simp [Act.secs])

/-- No panic of the owner: the deadlines are instants, and the clock never steps back. -/
theorem not_panicked {cfg : Config} {acts : List Act} {s : State}
    (h : (machine cfg).run acts = some s)
    (hd : (machine cfg).Guarded DeadlineFits (init cfg) acts) (hm : Monotone acts) :
    s.pc ≠ .panicked := by
  intro hpan
  have hmem := ((lookups_survive_iff h).mpr hd).alive acts [] s (List.append_nil _).symm h hpan
  obtain ⟨pre, post, rfl⟩ := List.append_of_mem hmem
  obtain ⟨u, hu, hrest⟩ := (machine cfg).run_append.mp h
  obtain ⟨v, hv, -⟩ := (machine cfg).runFrom_cons.mp hrest
  have hstep : Step cfg u .ageOverflow v := step_inv hv
  cases hstep with
  | @ageOverflow secs hpc hdue =>
    have hle := announcedAt_le (neverBehind_of_monotone hm) hu _ rfl secs hpc
    rw [announceDue_exact cfg hle] at hdue
    exact absurd hdue (by simp)

/-- The clock steps back by one second after an announce. -/
def backRun : List Act :=
  [.check, .tick 0, .dhtTick 1000 0, .announce 0, .nothing, .wait 5 7, .unblock, .check, .tick 0,
   .dhtTick 999 0]

/-- **The owner panics on a clock that steps back**, or takes a wrapped age. -/
theorem age_underflows :
    (∃ s, (machine ⟨true, some 3, true⟩).run (backRun ++ [.ageOverflow]) = some s ∧
      s.pc = .panicked) ∧
    (∃ s, (machine ⟨true, some 3, false⟩).run backRun = some s ∧ s.pc = .announce 999 ∧
      age ⟨true, some 3, false⟩ 999 s.announcedAt = some u64Max) ∧
    ¬ AgesExact ⟨true, some 3, true⟩ backRun := by
  refine ⟨⟨_, rfl, rfl⟩, ⟨_, rfl, rfl, by decide⟩, fun h => ?_⟩
  exact absurd ((h backRun [] _ 999 (List.append_nil _).symm rfl rfl).1 (by decide)) (by decide)

end Nwep.Runtime.ServerLoop
