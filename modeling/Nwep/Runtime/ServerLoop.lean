import Mathlib.Logic.Function.Basic
import Nwep.Dht
import Nwep.Lib.Channel
import Nwep.Lib.Machine

/-!
# The managed server: callers and the owner thread

Model of `RunningServer` (`nwep/src/runtime.rs`): `run_server_loop` (242-292) with the nested
`resolve_on_thread` (296-319) on the owner thread, any number of `resolve` and `dht_metrics` futures
(103-122), and `shutdown` / `drop` of the handle (124-143), over the command channel and the stop
flag.

* The owner's place is `Pc`; inside a lookup it is `Lookup`. There is one for every C call, clock
  reading and wait, so other parties move between any two of them.
* Labels carry what the C calls answer and what the clocks read. `tick` and `dhtTick` are the same
  calls in both loops.
* An `Instant` is its nanoseconds. Adding a `Duration` past the largest instant panics. The owner's
  panic drops what its frames hold: the reply sender of the command it serves and the receiver.
* The age subtraction is of `u64`: with overflow checks it panics, without it wraps (`Config`).
* The monotonic clock passed to `server.tick` is not read by the loop and is left out. Wall clock
  readings are `now_secs()` values, so at or after 1970.
* The handle is stopped or dropped only when no `resolve` or `dht_metrics` future borrows it. The
  sender is dropped after the flag is set, at once or after the join.
-/

namespace Nwep

/-- `Server::tick`. -/
def Server.tick (rc : CInt) : Result Unit := Error.check rc

/-- `Server::next_timeout`. -/
def Server.nextTimeout (ms : CInt) : Option Nat := timeoutMs ms

namespace Runtime.ServerLoop

open Nwep.Lib

/-- The number of a `resolve` or `dht_metrics` call, and the name of its reply channel. -/
abbrev CallId := Nat

/-- `Instant`, in nanoseconds. -/
abbrev Instant := Nat

/-- `Duration`, in nanoseconds. -/
abbrev Duration := Nat

/-- The largest `Instant`: signed 64-bit seconds and 999999999 nanoseconds. -/
def instantMax : Instant := i64Max * 1000000000 + 999999999

/-- `Instant + Duration`; none is the panic. -/
def instantAdd (now : Instant) (d : Duration) : Option Instant :=
  if now + d ≤ instantMax then some (now + d) else none

theorem instantAdd_fits {now d : Nat} (h : now + d ≤ instantMax) :
    instantAdd now d = some (now + d) := by
  unfold instantAdd
  rw [if_pos h]

theorem instantAdd_none {now d : Nat} : instantAdd now d = none ↔ instantMax < now + d := by
  unfold instantAdd
  by_cases h : now + d ≤ instantMax
  · simp [h]
  · simp [Nat.lt_of_not_le h]

theorem instantAdd_some {now d dl : Nat} (h : instantAdd now d = some dl) : dl = now + d := by
  unfold instantAdd at h
  split at h
  · exact (Option.some.inj h).symm
  · exact absurd h (by simp)

/-- `ANNOUNCE_INTERVAL_SECS`. -/
def announceIntervalSecs : Nat := 30

/-- How the server was built: with a managed dht, with an address to announce, and whether integer
overflow panics. -/
structure Config where
  dht            : Bool
  announce       : Option Address
  overflowChecks : Bool

/-- `secs - announced_at` on `u64`; none is the panic. -/
def age (cfg : Config) (secs announcedAt : Nat) : Option Nat :=
  if announcedAt ≤ secs then some (secs - announcedAt)
  else if cfg.overflowChecks then none
  else some ((secs + (u64Max + 1) - announcedAt) % (u64Max + 1))

/-- `announced_at == 0 || secs - announced_at >= ANNOUNCE_INTERVAL_SECS`. -/
def announceDue (cfg : Config) (secs announcedAt : Nat) : Option Bool :=
  if announcedAt = 0 then some true
  else (age cfg secs announcedAt).map fun a => decide (announceIntervalSecs ≤ a)

/-- The payload of `ServerCommand::Resolve`. -/
structure Job where
  target  : NodeId
  timeout : Duration
  reply   : CallId
  deriving DecidableEq

/-- `ServerCommand`. -/
inductive ServerCommand
  | resolve (job : Job)
  | dhtMetrics (reply : CallId)
  deriving DecidableEq

def ServerCommand.reply : ServerCommand → CallId
  | .resolve job => job.reply
  | .dhtMetrics c => c

/-- What a call asks for. -/
inductive Ask
  | resolve (target : NodeId) (timeout : Duration)
  | dhtMetrics
  deriving DecidableEq

/-- What a call returns. -/
inductive Outcome
  | resolve (r : Result Address)
  | dhtMetrics (m : Option DhtMetrics)
  deriving DecidableEq

def Ask.command : Ask → CallId → ServerCommand
  | .resolve target timeout, c => .resolve ⟨target, timeout, c⟩
  | .dhtMetrics, c => .dhtMetrics c

/-- What a call returns without a managed dht. -/
def Ask.unattached : Ask → Outcome
  | .resolve _ _ => .resolve (.error .configMissing)
  | .dhtMetrics => .dhtMetrics none

/-- What a call returns when the channel or its reply sender is gone. -/
def Ask.closed : Ask → Outcome
  | .resolve _ _ => .resolve (.error .networkClosed)
  | .dhtMetrics => .dhtMetrics none

/-- Where a `resolve` or `dht_metrics` future is. -/
inductive Call
  | idle
  | sending (ask : Ask)    -- at `cmd.send(..).await`
  | awaiting (ask : Ask)   -- at `rx.await`
  | done (o : Outcome)
  | cancelled
  deriving DecidableEq

/-- The future no longer borrows the server. -/
def Call.finished : Call → Bool
  | .idle => true
  | .done _ => true
  | .cancelled => true
  | _ => false

/-- The `RunningServer` handle; `stopping` is between the store of the flag and the drop of the
sender. -/
inductive Handle
  | alive | stopping | dropped
  deriving DecidableEq

/-- Where the owner is in `resolve_on_thread`; `dl` is the deadline. -/
inductive Lookup
  | stored                      -- the first `lookup_result`
  | start                       -- `start_lookup`
  | deadline                    -- `Instant::now() + timeout`
  | clock (dl : Instant)        -- `while Instant::now() < deadline`
  | tick (dl : Instant)         -- `server.tick(..)?`
  | dhtTick (dl : Instant)      -- `dht.tick(secs)?`
  | result (dl : Instant)       -- `lookup_result`
  | wait (dl : Instant)         -- before `wait_readable`
  | blocked (dl : Instant) (ms : Nat)
  deriving DecidableEq

/-- Where the owner thread is in `run_server_loop`. -/
inductive Pc
  | check                            -- `while !stop.load(..)`
  | tick                             -- `server.tick(..)`
  | dhtTick                          -- `dht.tick(secs)`
  | announce (secs : Nat)            -- the announce timer
  | recv                             -- `cmd_rx.try_recv()`
  | resolve (job : Job) (at' : Lookup)
  | wait                             -- before `wait_readable`
  | blocked (ms : Nat)
  | exiting                          -- returning, `cmd_rx` not dropped yet
  | returned
  | panicked
  deriving DecidableEq

structure State where
  pc          : Pc
  stop        : Bool
  cmds        : Mpsc ServerCommand 32
  announcedAt : Nat
  handle      : Handle
  started     : Nat
  calls       : CallId → Call
  replies     : CallId → Oneshot Outcome

inductive Act
  | start (c : CallId) (ask : Ask)
  | send (c : CallId)
  | sendClosed (c : CallId)
  | reply (c : CallId)
  | cancel (c : CallId)
  | stop
  | dropSender
  | check
  | tick (rc : CInt)
  | dhtTick (secs : Nat) (rc : CInt)
  | announce (rc : CInt)
  | skipAnnounce
  | ageOverflow
  | take
  | metrics (m : DhtMetrics)
  | nothing
  | lookupResult (target : NodeId) (rc : CInt) (out : Record)
  | startLookup (target : NodeId) (secs : Nat) (rc : CInt)
  | deadline (now : Instant)
  | clock (now : Instant)
  | lookupWait (ms : CInt)
  | wait (ms dhtMs : CInt)
  | unblock
  | dropRx
  deriving DecidableEq

/-- The wait of `resolve_on_thread`. -/
def lookupWaitMs (ms : CInt) : Nat := min ((Dht.nextTimeout ms).getD 20) 20

/-- The wait of `run_server_loop`. -/
def waitMs (cfg : Config) (ms dhtMs : CInt) : Nat :=
  let wait := (Server.nextTimeout ms).getD pollCapMs
  let wait := if cfg.dht then
      match Dht.nextTimeout dhtMs with
      | some d => min wait d
      | none => wait
    else wait
  min wait pollCapMs

namespace State

/-- One future moves. -/
def setCall (s : State) (c : CallId) (k : Call) : State :=
  { s with calls := Function.update s.calls c k }

/-- `let _ = reply.send(o)`. -/
def answer (s : State) (c : CallId) (o : Outcome) : State :=
  { s with replies := Function.update s.replies c ((s.replies c).send o) }

/-- `resolve_on_thread` returned: its result is sent, and the next command is looked for. -/
def finish (s : State) (job : Job) (r : Result Address) : State :=
  { s.answer job.reply (.resolve r) with pc := .recv }

/-- Dropping `cmd_rx` drops the queued commands and their reply senders. -/
def dropRx (s : State) : State :=
  { s with
    cmds := s.cmds.closeRx
    replies := fun c =>
      if c ∈ s.cmds.queue.map ServerCommand.reply then (s.replies c).drop else s.replies c }

/-- The reply sender of the command being served is dropped. -/
def dropReply (s : State) (c : CallId) : State :=
  { s with replies := Function.update s.replies c (s.replies c).drop }

/-- The owner panics out of `run_server_loop`. -/
def unwind (s : State) : State := { s.dropRx with pc := .panicked }

end State

/-- The top of `run_server_loop`. -/
def init (cfg : Config) : State where
  pc := .check
  stop := false
  cmds := if cfg.dht then Mpsc.new ServerCommand 32 else (Mpsc.new ServerCommand 32).closeTx
  announcedAt := 0
  handle := .alive
  started := 0
  calls := fun _ => .idle
  replies := fun _ => .waiting

/-- One step of one party. -/
def step (cfg : Config) (s : State) : Act → Option State
  | .start c ask =>
    if s.handle = .alive ∧ c = s.started then
      some { s.setCall c (if cfg.dht then .sending ask else .done ask.unattached) with
        started := c + 1 }
    else none
  | .send c =>
    match s.calls c with
    | .sending ask =>
      (s.cmds.push (ask.command c)).map fun ch => { s.setCall c (.awaiting ask) with cmds := ch }
    | _ => none
  | .sendClosed c =>
    match s.calls c with
    | .sending ask => if s.cmds.rxOpen then none else some (s.setCall c (.done ask.closed))
    | _ => none
  | .reply c =>
    match s.calls c with
    | .awaiting ask => (s.replies c).recv.map fun o => s.setCall c (.done (o.getD ask.closed))
    | _ => none
  | .cancel c =>
    match s.calls c with
    | .sending _ => some (s.setCall c .cancelled)
    | .awaiting _ => some (s.setCall c .cancelled)
    | _ => none
  | .stop =>
    if s.handle = .alive ∧ ∀ c < s.started, (s.calls c).finished = true then
      some { s with handle := .stopping, stop := true }
    else none
  | .dropSender =>
    if s.handle = .stopping then some { s with handle := .dropped, cmds := s.cmds.closeTx } else none
  | .check =>
    if s.pc = .check then some { s with pc := if s.stop then .exiting else .tick } else none
  | .tick rc =>
    match s.pc with
    | .tick =>
      match Server.tick rc with
      | .ok _ => some { s with pc := if cfg.dht then .dhtTick else .wait }
      | .error _ => some { s with pc := .exiting }
    | .resolve job (.tick dl) =>
      match Server.tick rc with
      | .ok _ => some { s with pc := .resolve job (.dhtTick dl) }
      | .error e => some (s.finish job (.error e))
    | _ => none
  | .dhtTick secs rc =>
    match s.pc with
    -- the outer loop ignores the result
    | .dhtTick => some { s with pc := if cfg.announce.isSome then .announce secs else .recv }
    | .resolve job (.dhtTick dl) =>
      match Dht.tick rc with
      | .ok _ => some { s with pc := .resolve job (.result dl) }
      | .error e => some (s.finish job (.error e))
    | _ => none
  -- `let _ = dht.announce(addr, secs)`
  | .announce _ =>
    match s.pc with
    | .announce secs =>
      if announceDue cfg secs s.announcedAt = some true then
        some { s with pc := .recv, announcedAt := secs }
      else none
    | _ => none
  | .skipAnnounce =>
    match s.pc with
    | .announce secs =>
      if announceDue cfg secs s.announcedAt = some false then some { s with pc := .recv } else none
    | _ => none
  | .ageOverflow =>
    match s.pc with
    | .announce secs => if announceDue cfg secs s.announcedAt = none then some s.unwind else none
    | _ => none
  | .take =>
    match s.pc, s.cmds.tryRecv with
    | .recv, .item (.resolve job) ch => some { s with pc := .resolve job .stored, cmds := ch }
    | _, _ => none
  | .metrics m =>
    match s.pc, s.cmds.tryRecv with
    | .recv, .item (.dhtMetrics c) ch => some { s.answer c (.dhtMetrics (some m)) with cmds := ch }
    | _, _ => none
  -- `while let Ok(cmd)` ends on an empty and on a disconnected channel alike
  | .nothing =>
    match s.pc, s.cmds.tryRecv with
    | .recv, .item _ _ => none
    | .recv, _ => some { s with pc := .wait }
    | _, _ => none
  | .lookupResult target rc out =>
    match s.pc with
    | .resolve job .stored =>
      if target = job.target then
        match Dht.lookupResult rc out with
        | some r => some (s.finish job (.ok r.address))
        | none => some { s with pc := .resolve job .start }
      else none
    | .resolve job (.result dl) =>
      if target = job.target then
        match Dht.lookupResult rc out with
        | some r => some (s.finish job (.ok r.address))
        | none => some { s with pc := .resolve job (.wait dl) }
      else none
    | _ => none
  | .startLookup target _ rc =>
    match s.pc with
    | .resolve job .start =>
      if target = job.target then
        match Dht.startLookup rc with
        | .ok _ => some { s with pc := .resolve job .deadline }
        | .error e => some (s.finish job (.error e))
      else none
    | _ => none
  | .deadline now =>
    match s.pc with
    | .resolve job .deadline =>
      match instantAdd now job.timeout with
      | some dl => some { s with pc := .resolve job (.clock dl) }
      | none => some (s.dropReply job.reply).unwind
    | _ => none
  | .clock now =>
    match s.pc with
    | .resolve job (.clock dl) =>
      if now < dl then some { s with pc := .resolve job (.tick dl) }
      else some (s.finish job (.error .identityNotFound))
    | _ => none
  | .lookupWait ms =>
    match s.pc with
    | .resolve job (.wait dl) => some { s with pc := .resolve job (.blocked dl (lookupWaitMs ms)) }
    | _ => none
  | .wait ms dhtMs =>
    if s.pc = .wait then some { s with pc := .blocked (waitMs cfg ms dhtMs) } else none
  | .unblock =>
    match s.pc with
    | .blocked _ => some { s with pc := .check }
    | .resolve job (.blocked dl _) => some { s with pc := .resolve job (.clock dl) }
    | _ => none
  | .dropRx => if s.pc = .exiting then some { s.dropRx with pc := .returned } else none

/-- The managed server. -/
def machine (cfg : Config) : Machine State Act where
  init := init cfg
  step := step cfg

/-! ## What each step does -/

/-- Every enabled step, with its guard and its effect. -/
inductive Step (cfg : Config) (s : State) : Act → State → Prop
  | start {ask} (h : s.handle = .alive) :
      Step cfg s (.start s.started ask)
        { s.setCall s.started (if cfg.dht then .sending ask else .done ask.unattached) with
          started := s.started + 1 }
  | send {c ask ch} (h : s.calls c = .sending ask)
      (hp : s.cmds.push (ask.command c) = some ch) :
      Step cfg s (.send c) { s.setCall c (.awaiting ask) with cmds := ch }
  | sendClosed {c ask} (h : s.calls c = .sending ask) (hr : s.cmds.rxOpen = false) :
      Step cfg s (.sendClosed c) (s.setCall c (.done ask.closed))
  | reply {c ask o} (h : s.calls c = .awaiting ask) (hr : (s.replies c).recv = some o) :
      Step cfg s (.reply c) (s.setCall c (.done (o.getD ask.closed)))
  | cancel {c ask} (h : s.calls c = .sending ask ∨ s.calls c = .awaiting ask) :
      Step cfg s (.cancel c) (s.setCall c .cancelled)
  | stop (h : s.handle = .alive) (hf : ∀ c < s.started, (s.calls c).finished = true) :
      Step cfg s .stop { s with handle := .stopping, stop := true }
  | dropSender (h : s.handle = .stopping) :
      Step cfg s .dropSender { s with handle := .dropped, cmds := s.cmds.closeTx }
  | checkStop (h : s.pc = .check) (hs : s.stop = true) : Step cfg s .check { s with pc := .exiting }
  | checkGo (h : s.pc = .check) (hs : s.stop = false) : Step cfg s .check { s with pc := .tick }
  | tickDht {rc} (h : s.pc = .tick) (hr : Server.tick rc = .ok ()) (hd : cfg.dht = true) :
      Step cfg s (.tick rc) { s with pc := .dhtTick }
  | tickBare {rc} (h : s.pc = .tick) (hr : Server.tick rc = .ok ()) (hd : cfg.dht = false) :
      Step cfg s (.tick rc) { s with pc := .wait }
  | tickErr {rc e} (h : s.pc = .tick) (hr : Server.tick rc = .error e) :
      Step cfg s (.tick rc) { s with pc := .exiting }
  | lookupTick {rc job dl} (h : s.pc = .resolve job (.tick dl)) (hr : Server.tick rc = .ok ()) :
      Step cfg s (.tick rc) { s with pc := .resolve job (.dhtTick dl) }
  | lookupTickErr {rc job dl e} (h : s.pc = .resolve job (.tick dl))
      (hr : Server.tick rc = .error e) : Step cfg s (.tick rc) (s.finish job (.error e))
  | dhtTickAnnounce {secs rc} (h : s.pc = .dhtTick) (ha : cfg.announce.isSome = true) :
      Step cfg s (.dhtTick secs rc) { s with pc := .announce secs }
  | dhtTick {secs rc} (h : s.pc = .dhtTick) (ha : cfg.announce.isSome = false) :
      Step cfg s (.dhtTick secs rc) { s with pc := .recv }
  | lookupDhtTick {secs rc job dl} (h : s.pc = .resolve job (.dhtTick dl))
      (hr : Dht.tick rc = .ok ()) :
      Step cfg s (.dhtTick secs rc) { s with pc := .resolve job (.result dl) }
  | lookupDhtTickErr {secs rc job dl e} (h : s.pc = .resolve job (.dhtTick dl))
      (hr : Dht.tick rc = .error e) : Step cfg s (.dhtTick secs rc) (s.finish job (.error e))
  | announce {rc secs} (h : s.pc = .announce secs)
      (hd : announceDue cfg secs s.announcedAt = some true) :
      Step cfg s (.announce rc) { s with pc := .recv, announcedAt := secs }
  | skipAnnounce {secs} (h : s.pc = .announce secs)
      (hd : announceDue cfg secs s.announcedAt = some false) :
      Step cfg s .skipAnnounce { s with pc := .recv }
  | ageOverflow {secs} (h : s.pc = .announce secs)
      (hd : announceDue cfg secs s.announcedAt = none) : Step cfg s .ageOverflow s.unwind
  | take {job ch} (h : s.pc = .recv) (hq : s.cmds.tryRecv = .item (.resolve job) ch) :
      Step cfg s .take { s with pc := .resolve job .stored, cmds := ch }
  | metrics {m c ch} (h : s.pc = .recv) (hq : s.cmds.tryRecv = .item (.dhtMetrics c) ch) :
      Step cfg s (.metrics m) { s.answer c (.dhtMetrics (some m)) with cmds := ch }
  | nothing (h : s.pc = .recv) (hq : s.cmds.queue = []) : Step cfg s .nothing { s with pc := .wait }
  | storedHit {job rc out r} (h : s.pc = .resolve job .stored)
      (hr : Dht.lookupResult rc out = some r) :
      Step cfg s (.lookupResult job.target rc out) (s.finish job (.ok r.address))
  | storedMiss {job rc out} (h : s.pc = .resolve job .stored)
      (hr : Dht.lookupResult rc out = none) :
      Step cfg s (.lookupResult job.target rc out) { s with pc := .resolve job .start }
  | resultHit {job dl rc out r} (h : s.pc = .resolve job (.result dl))
      (hr : Dht.lookupResult rc out = some r) :
      Step cfg s (.lookupResult job.target rc out) (s.finish job (.ok r.address))
  | resultMiss {job dl rc out} (h : s.pc = .resolve job (.result dl))
      (hr : Dht.lookupResult rc out = none) :
      Step cfg s (.lookupResult job.target rc out) { s with pc := .resolve job (.wait dl) }
  | startLookup {job secs rc} (h : s.pc = .resolve job .start) (hr : Dht.startLookup rc = .ok ()) :
      Step cfg s (.startLookup job.target secs rc) { s with pc := .resolve job .deadline }
  | startLookupErr {job secs rc e} (h : s.pc = .resolve job .start)
      (hr : Dht.startLookup rc = .error e) :
      Step cfg s (.startLookup job.target secs rc) (s.finish job (.error e))
  | deadline {job now dl} (h : s.pc = .resolve job .deadline)
      (hd : instantAdd now job.timeout = some dl) :
      Step cfg s (.deadline now) { s with pc := .resolve job (.clock dl) }
  | deadlinePanic {job now} (h : s.pc = .resolve job .deadline)
      (hd : instantAdd now job.timeout = none) :
      Step cfg s (.deadline now) (s.dropReply job.reply).unwind
  | clockOpen {job dl now} (h : s.pc = .resolve job (.clock dl)) (hn : now < dl) :
      Step cfg s (.clock now) { s with pc := .resolve job (.tick dl) }
  | clockPast {job dl now} (h : s.pc = .resolve job (.clock dl)) (hn : dl ≤ now) :
      Step cfg s (.clock now) (s.finish job (.error .identityNotFound))
  | lookupWait {job dl ms} (h : s.pc = .resolve job (.wait dl)) :
      Step cfg s (.lookupWait ms) { s with pc := .resolve job (.blocked dl (lookupWaitMs ms)) }
  | wait {ms dhtMs} (h : s.pc = .wait) :
      Step cfg s (.wait ms dhtMs) { s with pc := .blocked (waitMs cfg ms dhtMs) }
  | unblock {w} (h : s.pc = .blocked w) : Step cfg s .unblock { s with pc := .check }
  | lookupUnblock {job dl w} (h : s.pc = .resolve job (.blocked dl w)) :
      Step cfg s .unblock { s with pc := .resolve job (.clock dl) }
  | dropRx (h : s.pc = .exiting) : Step cfg s .dropRx { s.dropRx with pc := .returned }

/-- **The inversion of `step`**: what an enabled label did. -/
theorem step_inv {cfg : Config} {s t : State} {a : Act} (h : step cfg s a = some t) :
    Step cfg s a t := by
  cases a with
  | start c ask =>
    simp only [step] at h
    split at h
    · rename_i hc
      obtain ⟨ha, rfl⟩ := hc
      obtain rfl := Option.some.inj h
      exact .start ha
    · exact absurd h (by simp)
  | send c =>
    simp only [step] at h
    split at h
    · rename_i ask hc
      obtain ⟨ch, hp, rfl⟩ := Option.map_eq_some_iff.mp h
      exact .send hc hp
    · exact absurd h (by simp)
  | sendClosed c =>
    simp only [step] at h
    split at h
    · rename_i ask hc
      split at h
      · exact absurd h (by simp)
      · rename_i hr
        obtain rfl := Option.some.inj h
        exact .sendClosed hc (by simpa using hr)
    · exact absurd h (by simp)
  | reply c =>
    simp only [step] at h
    split at h
    · rename_i ask hc
      obtain ⟨o, ho, rfl⟩ := Option.map_eq_some_iff.mp h
      exact .reply hc ho
    · exact absurd h (by simp)
  | cancel c =>
    simp only [step] at h
    split at h
    · rename_i ask hc
      obtain rfl := Option.some.inj h
      exact .cancel (Or.inl hc)
    · rename_i ask hc
      obtain rfl := Option.some.inj h
      exact .cancel (Or.inr hc)
    · exact absurd h (by simp)
  | stop =>
    simp only [step] at h
    split at h
    · rename_i hc
      obtain rfl := Option.some.inj h
      exact .stop hc.1 hc.2
    · exact absurd h (by simp)
  | dropSender =>
    simp only [step] at h
    split at h
    · rename_i hc
      obtain rfl := Option.some.inj h
      exact .dropSender hc
    · exact absurd h (by simp)
  | check =>
    simp only [step] at h
    split at h
    · rename_i hpc
      obtain rfl := Option.some.inj h
      by_cases hs : s.stop = true
      · simp only [if_pos hs]
        exact .checkStop hpc hs
      · simp only [if_neg hs]
        exact .checkGo hpc (by simpa using hs)
    · exact absurd h (by simp)
  | tick rc =>
    simp only [step] at h
    split at h
    · rename_i hpc
      split at h
      · rename_i hr
        obtain rfl := Option.some.inj h
        cases hd : cfg.dht with
        | true => exact .tickDht hpc hr hd
        | false => exact .tickBare hpc hr hd
      · rename_i e hr
        obtain rfl := Option.some.inj h
        exact .tickErr hpc hr
    · rename_i job dl hpc
      split at h
      · rename_i hr
        obtain rfl := Option.some.inj h
        exact .lookupTick hpc hr
      · rename_i e hr
        obtain rfl := Option.some.inj h
        exact .lookupTickErr hpc hr
    · exact absurd h (by simp)
  | dhtTick secs rc =>
    simp only [step] at h
    split at h
    · rename_i hpc
      obtain rfl := Option.some.inj h
      cases ha : cfg.announce.isSome with
      | true => exact .dhtTickAnnounce hpc ha
      | false => exact .dhtTick hpc ha
    · rename_i job dl hpc
      split at h
      · rename_i hr
        obtain rfl := Option.some.inj h
        exact .lookupDhtTick hpc hr
      · rename_i e hr
        obtain rfl := Option.some.inj h
        exact .lookupDhtTickErr hpc hr
    · exact absurd h (by simp)
  | announce rc =>
    simp only [step] at h
    split at h
    · rename_i secs hpc
      split at h
      · rename_i hd
        obtain rfl := Option.some.inj h
        exact .announce hpc hd
      · exact absurd h (by simp)
    · exact absurd h (by simp)
  | skipAnnounce =>
    simp only [step] at h
    split at h
    · rename_i secs hpc
      split at h
      · rename_i hd
        obtain rfl := Option.some.inj h
        exact .skipAnnounce hpc hd
      · exact absurd h (by simp)
    · exact absurd h (by simp)
  | ageOverflow =>
    simp only [step] at h
    split at h
    · rename_i secs hpc
      split at h
      · rename_i hd
        obtain rfl := Option.some.inj h
        exact .ageOverflow hpc hd
      · exact absurd h (by simp)
    · exact absurd h (by simp)
  | take =>
    simp only [step] at h
    split at h
    · rename_i job ch hpc hq
      obtain rfl := Option.some.inj h
      exact .take hpc hq
    · exact absurd h (by simp)
  | metrics m =>
    simp only [step] at h
    split at h
    · rename_i c ch hpc hq
      obtain rfl := Option.some.inj h
      exact .metrics hpc hq
    · exact absurd h (by simp)
  | nothing =>
    simp only [step] at h
    split at h
    · exact absurd h (by simp)
    · rename_i hpc hno
      obtain rfl := Option.some.inj h
      refine .nothing hpc ?_
      cases hq : s.cmds.tryRecv with
      | item a ch => exact absurd hq (hno a ch)
      | empty => exact (Mpsc.tryRecv_empty hq).1
      | disconnected => exact (Mpsc.tryRecv_disconnected hq).1
    · exact absurd h (by simp)
  | lookupResult target rc out =>
    simp only [step] at h
    split at h
    · rename_i job hpc
      split at h
      · rename_i ht
        subst ht
        split at h
        · rename_i r hr
          obtain rfl := Option.some.inj h
          exact .storedHit hpc hr
        · rename_i hr
          obtain rfl := Option.some.inj h
          exact .storedMiss hpc hr
      · exact absurd h (by simp)
    · rename_i job dl hpc
      split at h
      · rename_i ht
        subst ht
        split at h
        · rename_i r hr
          obtain rfl := Option.some.inj h
          exact .resultHit hpc hr
        · rename_i hr
          obtain rfl := Option.some.inj h
          exact .resultMiss hpc hr
      · exact absurd h (by simp)
    · exact absurd h (by simp)
  | startLookup target secs rc =>
    simp only [step] at h
    split at h
    · rename_i job hpc
      split at h
      · rename_i ht
        subst ht
        split at h
        · rename_i hr
          obtain rfl := Option.some.inj h
          exact .startLookup hpc hr
        · rename_i e hr
          obtain rfl := Option.some.inj h
          exact .startLookupErr hpc hr
      · exact absurd h (by simp)
    · exact absurd h (by simp)
  | deadline now =>
    simp only [step] at h
    split at h
    · rename_i job hpc
      split at h
      · rename_i dl hd
        obtain rfl := Option.some.inj h
        exact .deadline hpc hd
      · rename_i hd
        obtain rfl := Option.some.inj h
        exact .deadlinePanic hpc hd
    · exact absurd h (by simp)
  | clock now =>
    simp only [step] at h
    split at h
    · rename_i job dl hpc
      split at h
      · rename_i hn
        obtain rfl := Option.some.inj h
        exact .clockOpen hpc hn
      · rename_i hn
        obtain rfl := Option.some.inj h
        exact .clockPast hpc (Nat.le_of_not_lt hn)
    · exact absurd h (by simp)
  | lookupWait ms =>
    simp only [step] at h
    split at h
    · rename_i job dl hpc
      obtain rfl := Option.some.inj h
      exact .lookupWait hpc
    · exact absurd h (by simp)
  | wait ms dhtMs =>
    simp only [step] at h
    split at h
    · rename_i hpc
      obtain rfl := Option.some.inj h
      exact .wait hpc
    · exact absurd h (by simp)
  | unblock =>
    simp only [step] at h
    split at h
    · rename_i w hpc
      obtain rfl := Option.some.inj h
      exact .unblock hpc
    · rename_i job dl w hpc
      obtain rfl := Option.some.inj h
      exact .lookupUnblock hpc
    · exact absurd h (by simp)
  | dropRx =>
    simp only [step] at h
    split at h
    · rename_i hpc
      obtain rfl := Option.some.inj h
      exact .dropRx hpc
    · exact absurd h (by simp)

/-! ## Where steps lead -/

/-- An owner that left its loop only drops the receiver. -/
theorem left_step {cfg : Config} {s t : State} {a : Act} (hs : Step cfg s a t)
    (h : s.pc = .exiting ∨ s.pc = .returned ∨ s.pc = .panicked) :
    t.pc = s.pc ∨ s.pc = .exiting ∧ t.pc = .returned := by
  cases hs with
  | start _ | send _ _ | sendClosed _ _ | reply _ _ | cancel _ | stop _ _ | dropSender _ =>
    exact Or.inl rfl
  | dropRx hpc => exact Or.inr ⟨hpc, rfl⟩
  | checkStop hpc _ | checkGo hpc _ | tickDht hpc _ _ | tickBare hpc _ _ | tickErr hpc _
  | lookupTick hpc _ | lookupTickErr hpc _ | dhtTickAnnounce hpc _ | dhtTick hpc _
  | lookupDhtTick hpc _ | lookupDhtTickErr hpc _ | announce hpc _ | skipAnnounce hpc _
  | ageOverflow hpc _ | take hpc _ | metrics hpc _ | nothing hpc _ | storedHit hpc _
  | storedMiss hpc _ | resultHit hpc _ | resultMiss hpc _ | startLookup hpc _
  | startLookupErr hpc _ | deadline hpc _ | deadlinePanic hpc _ | clockOpen hpc _ | clockPast hpc _
  | lookupWait hpc | wait hpc | unblock hpc | lookupUnblock hpc =>
    rw [hpc] at h
    exact absurd h (by simp)

/-- A panicked owner stays so. -/
theorem panicked_step {cfg : Config} {s t : State} {a : Act} (hs : Step cfg s a t)
    (h : s.pc = .panicked) : t.pc = .panicked := by
  rcases left_step hs (Or.inr (Or.inr h)) with heq | ⟨he, -⟩
  · exact heq.trans h
  · exact absurd (h.symm.trans he) (by simp)

/-- An owner that left its loop does not come back. -/
theorem exited_step {cfg : Config} {s t : State} {a : Act} (hs : Step cfg s a t)
    (h : s.pc = .exiting ∨ s.pc = .returned) : t.pc = .exiting ∨ t.pc = .returned := by
  rcases left_step hs (h.imp_right Or.inl) with heq | ⟨-, hret⟩
  · rw [heq]
    exact h
  · exact Or.inr hret

/-- The announce timer is reached by the reading for `dht.tick` in the outer loop, and then kept by
the steps beside the owner. -/
theorem announce_pc {cfg : Config} {s t : State} {a : Act} (hs : Step cfg s a t) {n : Nat}
    (h : t.pc = .announce n) : (s.pc = .announce n ∧ ∀ secs rc, a ≠ .dhtTick secs rc) ∨
      ∃ rc, a = .dhtTick n rc ∧ s.pc = .dhtTick ∧ cfg.announce.isSome = true := by
  cases hs with
  | start _ | send _ _ | sendClosed _ _ | reply _ _ | cancel _ | stop _ _ | dropSender _
  | metrics _ _ => exact Or.inl ⟨h, by simp⟩
  | @dhtTickAnnounce secs rc hpc ha =>
    obtain rfl : secs = n := Pc.announce.inj h
    exact Or.inr ⟨rc, rfl, hpc, ha⟩
  | checkStop _ _ | checkGo _ _ | tickDht _ _ _ | tickBare _ _ _ | tickErr _ _ | lookupTick _ _
  | lookupTickErr _ _ | dhtTick _ _ | lookupDhtTick _ _ | lookupDhtTickErr _ _ | announce _ _
  | skipAnnounce _ _ | ageOverflow _ _ | take _ _ | nothing _ _ | storedHit _ _ | storedMiss _ _
  | resultHit _ _ | resultMiss _ _ | startLookup _ _ | startLookupErr _ _ | deadline _ _
  | deadlinePanic _ _ | clockOpen _ _ | clockPast _ _ | lookupWait _ | wait _ | unblock _
  | lookupUnblock _ | dropRx _ => exact absurd h (by simp [State.finish, State.unwind])

/-- `announced_at` is set by an announce, to the reading the timer runs on. -/
theorem announcedAt_step {cfg : Config} {s t : State} {a : Act} (hs : Step cfg s a t) :
    (t.announcedAt = s.announcedAt ∧ ∀ rc, a ≠ .announce rc) ∨
      ∃ rc, a = .announce rc ∧ s.pc = .announce t.announcedAt ∧ t.pc = .recv := by
  cases hs with
  | announce hpc _ => exact Or.inr ⟨_, rfl, hpc, rfl⟩
  | _ => exact Or.inl ⟨rfl, by simp⟩

end Runtime.ServerLoop

end Nwep
