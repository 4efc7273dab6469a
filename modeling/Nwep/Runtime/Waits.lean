import Nwep.Runtime.ClientLoop
import Nwep.Runtime.ServerStop

/-!
# The waits of the owner threads

`run_client_loop` (`nwep/src/runtime.rs` 480-490), `run_server_loop` (282-291) and
`resolve_on_thread` (308-317) each compute how long to block in `wait_readable`. `next_timeout` of a
handle says in how many milliseconds its next tick is required.

* Both machines run under an observer that keeps what the handles report at a wait. Where a loop
  asks at the wait, the answer it gets is what the handle reports.
* `run_server_loop` asks every handle it drives. `run_client_loop` asks the client only with a request
  in flight. `resolve_on_thread` does not ask the server, and asks the dht for the reading `secs` it
  took before `dht.tick` and `lookup_result` (310-315): that answer need not be what the dht reports
  at the wait.

Results:
* `waitMs_inTime`: the wait of the server loop is in time for both handles;
* **`waits_timely_iff`**: a run is in time exactly when no timer is due before the waits of lookups
  and of an idle client that do not ask for it;
* **`waits_oversleep`**: runs of both loops that sleep past a timer that is due now.
-/

namespace Nwep.Runtime

open Nwep.Client Nwep.Lib

/-- A wait that is not past what `next_timeout` reports, if a timer is pending at all. -/
def inTime (wait : Nat) (timer : Option Nat) : Bool :=
  match timer with
  | none => true
  | some ms => decide (wait ≤ ms)

theorem inTime_mono {v w : Nat} {timer : Option Nat} (h : inTime w timer = true) (hle : v ≤ w) :
    inTime v timer = true := by
  unfold inTime at h ⊢
  cases timer with
  | none => rfl
  | some ms =>
    have hw : w ≤ ms := of_decide_eq_true h
    exact decide_eq_true (Nat.le_trans hle hw)

/-- The least of a timer and a cap is in time for the timer. -/
theorem inTime_min (timer : Option Nat) (cap : Nat) :
    inTime (min (timer.getD cap) cap) timer = true := by
  cases timer with
  | none => rfl
  | some ms => exact decide_eq_true (Nat.min_le_left ms cap)

namespace ClientLoop

/-- What the client reports at a wait. -/
def Act.report : Act → Option CInt
  | .block ms => some ms
  | _ => none

/-- The managed client, and what the client reported at the last wait. -/
def watched : Machine (State × CInt) Act := machine.watch id (fun _ => true) Act.report (-1)

/-- A blocked owner is in time, and notices a shutdown within the cap. -/
def Timely (k : State × CInt) : Prop :=
  ∀ w, k.1.pc = .blocked w → w ≤ pollCapMs ∧ inTime w (Client.nextTimeout k.2) = true

/-- At a wait with no request in flight the client has no timer due within the cap. -/
def idleTimer (k : State × CInt) (a : Act) : Bool :=
  match a with
  | .block ms => !k.1.pending.isEmpty || inTime pollCapMs (Client.nextTimeout ms)
  | _ => true

theorem waitMs_le (pending : List (RequestId × CallId)) (ms : CInt) :
    waitMs pending ms ≤ pollCapMs := by
  unfold waitMs
  split
  · exact Nat.le_refl _
  · exact Nat.min_le_right _ _

/-- The wait is in time but for an idle client. -/
theorem waitMs_inTime (pending : List (RequestId × CallId)) (ms : CInt) :
    inTime (waitMs pending ms) (Client.nextTimeout ms) =
      (!pending.isEmpty || inTime pollCapMs (Client.nextTimeout ms)) := by
  unfold waitMs
  cases pending with
  | nil => rfl
  | cons p ps =>
    rw [if_neg (List.cons_ne_nil p ps)]
    exact inTime_min (Client.nextTimeout ms) pollCapMs

/-- A step into a wait is in time exactly when it meets the condition, no other step matters. -/
theorem timely_step (k : State × CInt) (a : Act) (l : State × CInt) (h : Timely k)
    (hst : watched.step k a = some l) : Timely l ↔ idleTimer k a = true := by
  obtain ⟨-, hm, hr⟩ := machine.watch_step.mp hst
  have hstep : Step k.1 a l.1 := step_inv hm
  obtain ⟨s, r⟩ := k
  obtain ⟨t, n⟩ := l
  simp only at hstep hr
  subst hr
  have hawake : (∀ w, t.pc ≠ .blocked w) → Timely (t, (a.report).getD r) :=
    fun hno w hw => absurd hw (hno w)
  cases hstep with
  | @block ms hpc =>
    constructor
    · intro ht
      obtain ⟨-, hin⟩ := ht _ rfl
      exact (waitMs_inTime s.pending ms).symm.trans hin
    · rintro hg w hw
      obtain rfl := Pc.blocked.inj hw
      exact ⟨waitMs_le s.pending ms, (waitMs_inTime s.pending ms).trans hg⟩
  | start _ | send _ _ | sendClosed _ _ | wake _ | reply _ _ | cancel _ | takeSender _ _ | dropWake _
  | submitOk _ _ _ _ | submitErr _ _ _ | pollReady _ _ _ | pollErr _ _ _ | readWake _ _
  | failNext _ _ => exact ⟨fun _ => rfl, fun _ => h⟩
  | empty _ _ | disconnected _ _ | tickClosed _ _ | tickOk _ _ | pollNone _ _ _ | sweepEnd _ _
  | unblock _ | readDone _ _ | failEnd _ _ | dropRx _ =>
    exact ⟨fun _ => rfl, fun _ => hawake fun w => by simp⟩

end ClientLoop

namespace ServerLoop

/-- What the server and the dht report. -/
structure Reports where
  server : CInt
  dht    : CInt
  deriving DecidableEq

/-- A step, and what the handles report at it. -/
structure Observed where
  act     : Act
  reports : Reports
  deriving DecidableEq

/-- What the loop is answered at its wait is what the handles report. A lookup asks at the reading
of its tick, so nothing ties its answer to the reports. -/
def Observed.consistent (a : Observed) : Bool :=
  match a.act with
  | .wait ms dhtMs => decide (a.reports = ⟨ms, dhtMs⟩)
  | _ => true

/-- The reports at a wait. -/
def Observed.note (a : Observed) : Option Reports :=
  match a.act with
  | .wait _ _ => some a.reports
  | .lookupWait _ => some a.reports
  | _ => none

/-- The managed server, and what its handles reported at the last wait. -/
def watched (cfg : Config) : Machine (State × Reports) Observed :=
  (machine cfg).watch Observed.act Observed.consistent Observed.note ⟨-1, -1⟩

/-- The owner is blocked, for so many milliseconds. -/
def Pc.asleep : Pc → Option Nat
  | .blocked ms => some ms
  | .resolve _ (.blocked _ ms) => some ms
  | _ => none

theorem Pc.asleep_eq_some {pc : Pc} {w : Nat} (h : pc.asleep = some w) :
    pc = .blocked w ∨ ∃ job dl, pc = .resolve job (.blocked dl w) := by
  unfold Pc.asleep at h
  split at h
  · exact Or.inl (by rw [Option.some.inj h])
  · exact Or.inr ⟨_, _, by rw [Option.some.inj h]⟩
  · exact absurd h (by simp)

/-- A blocked owner is in time for the server and, when attached, for the dht, and notices a
shutdown within the cap. -/
def Timely (cfg : Config) (k : State × Reports) : Prop :=
  ∀ w, k.1.pc.asleep = some w → w ≤ pollCapMs ∧
    inTime w (Server.nextTimeout k.2.server) = true ∧
    (cfg.dht = true → inTime w (Dht.nextTimeout k.2.dht) = true)

/-- The timer is not due before 20 ms, or not before the one the dht answered with. -/
def beforeLookup (ms : CInt) (timer : Option Nat) : Bool :=
  inTime 20 timer || (Dht.nextTimeout ms).any fun d => inTime d timer

/-- At the wait of a lookup neither the server nor the dht has a timer due before 20 ms, or none
before the timer of the dht at the reading of the tick. -/
def lookupTimer (cfg : Config) (a : Observed) : Bool :=
  match a.act with
  | .lookupWait ms =>
    beforeLookup ms (Server.nextTimeout a.reports.server) &&
      (!cfg.dht || beforeLookup ms (Dht.nextTimeout a.reports.dht))
  | _ => true

/-- **The wait of the server loop** is in time for both handles. -/
theorem waitMs_inTime (cfg : Config) (ms dhtMs : CInt) :
    inTime (waitMs cfg ms dhtMs) (Server.nextTimeout ms) = true ∧
      (cfg.dht = true → inTime (waitMs cfg ms dhtMs) (Dht.nextTimeout dhtMs) = true) := by
  have hserver := inTime_min (Server.nextTimeout ms) pollCapMs
  unfold waitMs
  simp only
  split
  · rename_i hd
    cases Dht.nextTimeout dhtMs with
    | none => exact ⟨hserver, fun _ => rfl⟩
    | some d =>
      refine ⟨inTime_mono hserver ?_, fun _ => decide_eq_true ?_⟩
      · simp only
        omega
      · simp only
        omega
  · rename_i hd
    exact ⟨hserver, fun h => absurd h hd⟩

/-- The wait of a lookup is in time for a timer when that allows it. -/
theorem lookupWaitMs_inTime (ms : CInt) (timer : Option Nat) :
    inTime (lookupWaitMs ms) timer = beforeLookup ms timer := by
  unfold lookupWaitMs beforeLookup
  cases Dht.nextTimeout ms with
  | none => simp
  | some d =>
    cases timer with
    | none => rfl
    | some t =>
      simp only [inTime, Option.getD_some, Option.any_some, ← Bool.decide_or, decide_eq_decide]
      omega

/-- A step into a wait is in time exactly when it meets the condition, no other step matters. -/
theorem timely_step (cfg : Config) (k : State × Reports) (a : Observed) (l : State × Reports)
    (h : Timely cfg k) (hst : (watched cfg).step k a = some l) :
    Timely cfg l ↔ lookupTimer cfg a = true := by
  obtain ⟨hok, hm, hr⟩ := (machine cfg).watch_step.mp hst
  have hstep : Step cfg k.1 a.act l.1 := step_inv hm
  obtain ⟨act, reports⟩ := a
  obtain ⟨s, r⟩ := k
  obtain ⟨t, n⟩ := l
  simp only at hstep hr
  subst hr
  have hawake := awake_step hstep
  cases hstep with
  | @wait ms dhtMs hpc =>
    obtain rfl : reports = ⟨ms, dhtMs⟩ := of_decide_eq_true hok
    refine ⟨fun _ => rfl, fun _ w hw => ?_⟩
    obtain rfl := Option.some.inj hw
    exact ⟨waitMs_le cfg ms dhtMs, waitMs_inTime cfg ms dhtMs⟩
  | @lookupWait job dl ms hpc =>
    have hserver := lookupWaitMs_inTime ms (Server.nextTimeout reports.server)
    have hdht := lookupWaitMs_inTime ms (Dht.nextTimeout reports.dht)
    simp only [lookupTimer, ← hserver, ← hdht, Bool.and_eq_true, Bool.or_eq_true,
      Bool.not_eq_true', ← Bool.not_eq_true, ← imp_iff_not_or]
    constructor
    · intro ht
      exact (ht _ rfl).2
    · rintro hg w hw
      obtain rfl := Option.some.inj hw
      exact ⟨lookupWaitMs_le ms, hg⟩
  | _ =>
    refine ⟨fun _ => rfl, fun _ w hw => ?_⟩
    rcases hawake rfl with heq | ⟨hno, hno'⟩
    · rw [heq] at hw
      exact h w hw
    · rcases Pc.asleep_eq_some hw with hpc | ⟨job, dl, hpc⟩
      · exact absurd hpc (hno w)
      · exact absurd hpc (hno' job dl w)

end ServerLoop

/-- A client that turns idle and waits, with its next tick required in `ms` milliseconds. -/
def ClientLoop.idleRun (ms : CInt) : List ClientLoop.Act :=
  [.empty, .tick 0 1, .sweepEnd, .block ms]

/-- A lookup up to its first wait, with what the handles report at it. At the reading of the tick no
timer of the dht was pending. -/
def ServerLoop.lookupRun (reports : ServerLoop.Reports) : List ServerLoop.Observed :=
  [.start 0 (.resolve 5 1000000000), .send 0, .check, .tick 0, .dhtTick 100 0, .take,
   .lookupResult 5 (-503) ⟨0⟩, .startLookup 5 100 0, .deadline 7, .clock 8, .tick 0, .dhtTick 100 0,
   .lookupResult 5 (-503) ⟨0⟩, .lookupWait (-1)].map fun a => ⟨a, reports⟩

/-- **The owner loops sleep past no timer** exactly in the runs in which an idle client has no timer
due within the poll cap, and neither the server nor the dht has one due before the wait of a
lookup. -/
theorem waits_timely_iff (acts : List ClientLoop.Act) (cfg : ServerLoop.Config)
    (obs : List ServerLoop.Observed) :
    (∀ k, ClientLoop.watched.run acts = some k →
      (ClientLoop.watched.Throughout ClientLoop.Timely ClientLoop.watched.init acts ↔
        ClientLoop.watched.Guarded (fun k a => ClientLoop.idleTimer k a = true)
          ClientLoop.watched.init acts)) ∧
    (∀ k, (ServerLoop.watched cfg).run obs = some k →
      ((ServerLoop.watched cfg).Throughout (ServerLoop.Timely cfg) (ServerLoop.watched cfg).init
          obs ↔
        (ServerLoop.watched cfg).Guarded (fun _ a => ServerLoop.lookupTimer cfg a = true)
          (ServerLoop.watched cfg).init obs)) := by
  constructor
  · intro k h
    refine ClientLoop.watched.throughout_iff_guarded ClientLoop.timely_step ?_ h
    exact fun w hw => absurd hw (by simp [ClientLoop.watched, Machine.watch, ClientLoop.machine,
      ClientLoop.init])
  · intro k h
    refine (ServerLoop.watched cfg).throughout_iff_guarded (ServerLoop.timely_step cfg) ?_ h
    exact fun w hw => absurd hw (by simp [ServerLoop.watched, Machine.watch, ServerLoop.machine,
      ServerLoop.init, ServerLoop.Pc.asleep])

/-- Both loops in a wait, with a timer that is due after it. -/
theorem waits_timely_iff_later :
    (∃ k, ClientLoop.watched.run (ClientLoop.idleRun 500) = some k ∧ k.1.pc = .blocked 200 ∧
      ClientLoop.watched.Throughout ClientLoop.Timely ClientLoop.watched.init
        (ClientLoop.idleRun 500)) ∧
    (∃ k, (ServerLoop.watched ⟨true, none, true⟩).run (ServerLoop.lookupRun ⟨25, 30⟩) = some k ∧
      k.1.pc.asleep = some 20 ∧
      (ServerLoop.watched ⟨true, none, true⟩).Throughout (ServerLoop.Timely ⟨true, none, true⟩)
        (ServerLoop.watched ⟨true, none, true⟩).init (ServerLoop.lookupRun ⟨25, 30⟩)) :=
  ⟨⟨_, rfl, rfl, ((waits_timely_iff (ClientLoop.idleRun 500) ⟨true, none, true⟩ []).1 _ rfl).mpr
      (by decide)⟩,
    ⟨_, rfl, rfl,
      ((waits_timely_iff [] ⟨true, none, true⟩ (ServerLoop.lookupRun ⟨25, 30⟩)).2 _ rfl).mpr
        (by decide)⟩⟩

/-- **Both loops sleep past a timer**: a tick is required now, and the owner of an idle client blocks
for 200 ms, the owner in a lookup for 20 ms, be it the server that is due or the dht. -/
theorem waits_oversleep :
    (∃ k, ClientLoop.watched.run (ClientLoop.idleRun 0) = some k ∧
      ClientLoop.machine.Reachable k.1 ∧ k.1.pc = .blocked 200 ∧ k.2 = 0 ∧
      ¬ ClientLoop.Timely k) ∧
    (∃ k, (ServerLoop.watched ⟨true, none, true⟩).run (ServerLoop.lookupRun ⟨0, -1⟩) = some k ∧
      (ServerLoop.machine ⟨true, none, true⟩).Reachable k.1 ∧ k.1.pc.asleep = some 20 ∧
      k.2.server = 0 ∧ ¬ ServerLoop.Timely ⟨true, none, true⟩ k) ∧
    (∃ k, (ServerLoop.watched ⟨true, none, true⟩).run (ServerLoop.lookupRun ⟨-1, 0⟩) = some k ∧
      (ServerLoop.machine ⟨true, none, true⟩).Reachable k.1 ∧ k.1.pc.asleep = some 20 ∧
      k.2.dht = 0 ∧ ¬ ServerLoop.Timely ⟨true, none, true⟩ k) := by
  refine ⟨?_, ?_, ?_⟩
  · have hrun : ∃ k, ClientLoop.watched.run (ClientLoop.idleRun 0) = some k ∧
        k.1.pc = .blocked 200 ∧ k.2 = 0 := ⟨_, rfl, rfl, rfl⟩
    obtain ⟨k, hk, hpc, hr⟩ := hrun
    refine ⟨k, hk, ⟨_, Machine.watch_run _ hk⟩, hpc, hr, fun h => ?_⟩
    have hin := (h 200 hpc).2
    rw [hr] at hin
    exact absurd hin (by decide)
  · have hrun : ∃ k,
        (ServerLoop.watched ⟨true, none, true⟩).run (ServerLoop.lookupRun ⟨0, -1⟩) = some k ∧
        k.1.pc.asleep = some 20 ∧ k.2.server = 0 := ⟨_, rfl, rfl, rfl⟩
    obtain ⟨k, hk, hpc, hr⟩ := hrun
    refine ⟨k, hk, ⟨_, Machine.watch_run _ hk⟩, hpc, hr, fun h => ?_⟩
    have hin := (h 20 hpc).2.1
    rw [hr] at hin
    exact absurd hin (by decide)
  · have hrun : ∃ k,
        (ServerLoop.watched ⟨true, none, true⟩).run (ServerLoop.lookupRun ⟨-1, 0⟩) = some k ∧
        k.1.pc.asleep = some 20 ∧ k.2.dht = 0 := ⟨_, rfl, rfl, rfl⟩
    obtain ⟨k, hk, hpc, hr⟩ := hrun
    refine ⟨k, hk, ⟨_, Machine.watch_run _ hk⟩, hpc, hr, fun h => ?_⟩
    have hin := (h 20 hpc).2.2 rfl
    rw [hr] at hin
    exact absurd hin (by decide)

end Nwep.Runtime
