import Mathlib.Logic.Function.Basic
import Nwep.Client.Request
import Nwep.Lib.Channel
import Nwep.Lib.Machine
import Nwep.Lib.Vec

/-!
# The managed client: dispatching tasks and the owner thread

Model of `AsyncClient` (`nwep/src/runtime.rs`): `run_client_loop` (415-492) on the owner thread,
any number of `AsyncClient::dispatch` futures (524-545) and `AsyncClient::drop` (403-410), over the
command channel and the eventfd waker (`nwep/src/poll.rs` 24-55).

* The owner's place in its loop is `Pc`, one per point where another party can step in between.
* Everything a C call answers is in the label (`submit`, `tick`, `poll`, `block`), so the runs
  range over every C client. The one thing asked of it is in `submit`: an id it hands out is not
  in flight.
* A `dispatch` future is dropped only where it awaits (`sending`, `awaiting`): between the send and
  the wake there is no await. `AsyncClient` is dropped only when no `dispatch` borrows it.
* Reply senders are named by the call they answer: `cmd.reply` in the queue, the second component
  in `pending`.
-/

namespace Nwep.Runtime.ClientLoop

open Nwep.Client Nwep.Lib

/-- The number of a `dispatch` call, and the name of its reply channel. -/
abbrev CallId := Nat

/-- `ClientCommand::Send`. -/
structure ClientCommand where
  req   : Request
  reply : CallId
  deriving DecidableEq

/-- Where a `dispatch` future is. -/
inductive Dispatch
  | idle
  | sending (req : Request)   -- at `cmd.send(..).await`
  | enqueued                  -- accepted by the channel, `wake` comes next
  | awaiting                  -- at `reply_rx.await`
  | done (r : Result Response)
  | cancelled
  deriving DecidableEq

/-- The future no longer borrows the client. -/
def Dispatch.finished : Dispatch → Bool
  | .idle => true
  | .done _ => true
  | .cancelled => true
  | _ => false

/-- The `AsyncClient` handle; `dropping` is between `cmd.take()` and `wake()`. -/
inductive Handle
  | alive | dropping | dropped
  deriving DecidableEq

/-- Where the owner thread is in `run_client_loop`. -/
inductive Pc
  | recv                -- `cmd_rx.try_recv()`
  | tick                -- `client.tick(..).is_err() || !client.is_alive()`
  | sweep (i : Nat)     -- `while i < pending.len()`
  | wait                -- before `wait_readable2`
  | blocked (ms : Nat)  -- inside `wait_readable2`
  | drainWake           -- `wake.drain()`
  | failing             -- `for (_, reply) in pending.drain(..)`
  | exiting             -- returning, `cmd_rx` not dropped yet
  | returned
  deriving DecidableEq

structure State where
  pc      : Pc
  cmds    : Mpsc ClientCommand 64
  wake    : Nat
  pending : List (RequestId × CallId)
  handle  : Handle
  started : Nat
  calls   : CallId → Dispatch
  replies : CallId → Oneshot (Result Response)

inductive Act
  | start (c : CallId) (req : Request)
  | send (c : CallId)
  | sendClosed (c : CallId)
  | wake (c : CallId)
  | reply (c : CallId)
  | cancel (c : CallId)
  | takeSender
  | dropWake
  | submit (cmd : ClientCommand) (rc : CInt) (id : RequestId)
  | empty
  | disconnected
  | tick (rc alive : CInt)
  | poll (id : RequestId) (rc : CInt) (out : Msg)
  | sweepEnd
  | block (ms : CInt)
  | unblock
  | readWake
  | failNext
  | dropRx
  deriving DecidableEq

/-- `write` of 1 to a non-blocking eventfd: the counter stops one below its maximum. -/
def eventfdWrite (n : Nat) : Nat := if n + 1 < u64Max then n + 1 else n

theorem eventfdWrite_pos (n : Nat) : 0 < eventfdWrite n := by
  unfold eventfdWrite
  split
  · exact Nat.succ_pos n
  · rename_i h
    unfold u64Max at h
    omega

/-- The wait the owner passes to `wait_readable2`. -/
def waitMs (pending : List (RequestId × CallId)) (ms : CInt) : Nat :=
  if pending = [] then pollCapMs else min ((nextTimeout ms).getD pollCapMs) pollCapMs

namespace State

/-- One `dispatch` future moves. -/
def setCall (s : State) (c : CallId) (d : Dispatch) : State :=
  { s with calls := Function.update s.calls c d }

/-- `let _ = reply.send(r)`. -/
def answer (s : State) (c : CallId) (r : Result Response) : State :=
  { s with replies := Function.update s.replies c ((s.replies c).send r) }

@[simp] theorem setCall_replies (s : State) (c : CallId) (d : Dispatch) :
    (s.setCall c d).replies = s.replies := rfl
@[simp] theorem setCall_calls (s : State) (c : CallId) (d : Dispatch) :
    (s.setCall c d).calls = Function.update s.calls c d := rfl
@[simp] theorem setCall_pc (s : State) (c : CallId) (d : Dispatch) :
    (s.setCall c d).pc = s.pc := rfl
@[simp] theorem setCall_cmds (s : State) (c : CallId) (d : Dispatch) :
    (s.setCall c d).cmds = s.cmds := rfl
@[simp] theorem setCall_pending (s : State) (c : CallId) (d : Dispatch) :
    (s.setCall c d).pending = s.pending := rfl
@[simp] theorem setCall_wake (s : State) (c : CallId) (d : Dispatch) :
    (s.setCall c d).wake = s.wake := rfl
@[simp] theorem setCall_handle (s : State) (c : CallId) (d : Dispatch) :
    (s.setCall c d).handle = s.handle := rfl
@[simp] theorem setCall_started (s : State) (c : CallId) (d : Dispatch) :
    (s.setCall c d).started = s.started := rfl

end State

/-- The top of `run_client_loop`: nothing queued, nothing in flight. -/
def init : State where
  pc := .recv
  cmds := Mpsc.new ClientCommand 64
  wake := 0
  pending := []
  handle := .alive
  started := 0
  calls := fun _ => .idle
  replies := fun _ => .waiting

/-- One step of one party. -/
def step (s : State) : Act → Option State
  -- `dispatch` is first polled; the handle it borrows is alive, so `cmd` is there
  | .start c req =>
    if s.handle = .alive ∧ c = s.started then
      some { s.setCall c (.sending req) with started := c + 1 }
    else none
  | .send c =>
    match s.calls c with
    | .sending req =>
      (s.cmds.push ⟨req, c⟩).map fun ch => { s.setCall c .enqueued with cmds := ch }
    | _ => none
  -- the receiver is gone: `map_err(|_| Error::NetworkClosed)`
  | .sendClosed c =>
    match s.calls c with
    | .sending _ =>
      if s.cmds.rxOpen then none else some (s.setCall c (.done (.error .networkClosed)))
    | _ => none
  | .wake c =>
    if s.calls c = .enqueued then
      some { s.setCall c .awaiting with wake := eventfdWrite s.wake }
    else none
  -- `reply_rx.await.map_err(|_| Error::NetworkClosed)?`
  | .reply c =>
    if s.calls c = .awaiting then
      (s.replies c).recv.map fun r => s.setCall c (.done (r.getD (.error .networkClosed)))
    else none
  | .cancel c =>
    match s.calls c with
    | .sending _ => some (s.setCall c .cancelled)
    | .awaiting => some (s.setCall c .cancelled)
    | _ => none
  | .takeSender =>
    if s.handle = .alive ∧ ∀ c < s.started, (s.calls c).finished = true then
      some { s with handle := .dropping, cmds := s.cmds.closeTx }
    else none
  | .dropWake =>
    if s.handle = .dropping then
      some { s with handle := .dropped, wake := eventfdWrite s.wake }
    else none
  | .submit cmd rc id =>
    match s.pc, s.cmds.tryRecv with
    | .recv, .item cmd' ch =>
      if cmd' = cmd then
        match submitRequest cmd.req rc id with
        | .ok id =>
          if id ∈ s.pending.map Prod.fst then none
          else some { s with cmds := ch, pending := s.pending ++ [(id, cmd.reply)] }
        | .error e => some { s.answer cmd.reply (.error e) with cmds := ch }
      else none
    | _, _ => none
  | .empty =>
    match s.pc, s.cmds.tryRecv with
    | .recv, .empty => some { s with pc := .tick }
    | _, _ => none
  | .disconnected =>
    match s.pc, s.cmds.tryRecv with
    | .recv, .disconnected => some { s with pc := .failing }
    | _, _ => none
  | .tick rc alive =>
    if s.pc = .tick then
      if (Client.tick rc).isOk = false ∨ isAlive alive = false then some { s with pc := .failing }
      else some { s with pc := .sweep 0 }
    else none
  | .poll id rc out =>
    match s.pc with
    | .sweep i =>
      match s.pending[i]? with
      | some (id', c) =>
        if id' = id then
          match pollRequest rc out with
          | .ok (some resp) =>
            some { s.answer c (.ok resp) with pending := swapRemove s.pending i }
          | .ok none => some { s with pc := .sweep (i + 1) }
          | .error e => some { s.answer c (.error e) with pending := swapRemove s.pending i }
        else none
      | none => none
    | _ => none
  | .sweepEnd =>
    match s.pc with
    | .sweep i => if s.pending.length ≤ i then some { s with pc := .wait } else none
    | _ => none
  | .block ms =>
    if s.pc = .wait then some { s with pc := .blocked (waitMs s.pending ms) } else none
  -- a readable handle, the timeout or a signal
  | .unblock =>
    match s.pc with
    | .blocked _ => some { s with pc := .drainWake }
    | _ => none
  -- `while read(..) > 0 {}`
  | .readWake =>
    if s.pc = .drainWake then
      if 0 < s.wake then some { s with wake := 0 } else some { s with pc := .recv }
    else none
  | .failNext =>
    if s.pc = .failing then
      match s.pending with
      | [] => some { s with pc := .exiting }
      | (_, c) :: rest => some { s.answer c (.error .networkClosed) with pending := rest }
    else none
  -- dropping `cmd_rx` drops the queued commands and their reply senders
  | .dropRx =>
    if s.pc = .exiting then
      some { s with
        pc := .returned
        cmds := s.cmds.closeRx
        replies := fun c =>
          if c ∈ s.cmds.queue.map (·.reply) then (s.replies c).drop else s.replies c }
    else none

/-- The managed client. -/
def machine : Machine State Act where
  init := init
  step := step

/-! ## What each step does -/

/-- Every enabled step, with its guard and its effect. -/
inductive Step (s : State) : Act → State → Prop
  | start {req} (h : s.handle = .alive) :
      Step s (.start s.started req)
        { s.setCall s.started (.sending req) with started := s.started + 1 }
  | send {c req ch} (h : s.calls c = .sending req) (hp : s.cmds.push ⟨req, c⟩ = some ch) :
      Step s (.send c) { s.setCall c .enqueued with cmds := ch }
  | sendClosed {c req} (h : s.calls c = .sending req) (hr : s.cmds.rxOpen = false) :
      Step s (.sendClosed c) (s.setCall c (.done (.error .networkClosed)))
  | wake {c} (h : s.calls c = .enqueued) :
      Step s (.wake c) { s.setCall c .awaiting with wake := eventfdWrite s.wake }
  | reply {c r} (h : s.calls c = .awaiting) (hr : (s.replies c).recv = some r) :
      Step s (.reply c) (s.setCall c (.done (r.getD (.error .networkClosed))))
  | cancel {c} (h : (∃ req, s.calls c = .sending req) ∨ s.calls c = .awaiting) :
      Step s (.cancel c) (s.setCall c .cancelled)
  | takeSender (h : s.handle = .alive) (hf : ∀ c < s.started, (s.calls c).finished = true) :
      Step s .takeSender { s with handle := .dropping, cmds := s.cmds.closeTx }
  | dropWake (h : s.handle = .dropping) :
      Step s .dropWake { s with handle := .dropped, wake := eventfdWrite s.wake }
  | submitOk {cmd rc id ch} (h : s.pc = .recv) (hq : s.cmds.tryRecv = .item cmd ch)
      (hs : submitRequest cmd.req rc id = .ok id) (hf : id ∉ s.pending.map Prod.fst) :
      Step s (.submit cmd rc id)
        { s with cmds := ch, pending := s.pending ++ [(id, cmd.reply)] }
  | submitErr {cmd rc id ch e} (h : s.pc = .recv) (hq : s.cmds.tryRecv = .item cmd ch)
      (hs : submitRequest cmd.req rc id = .error e) :
      Step s (.submit cmd rc id) { s.answer cmd.reply (.error e) with cmds := ch }
  | empty (h : s.pc = .recv) (hq : s.cmds.tryRecv = .empty) : Step s .empty { s with pc := .tick }
  | disconnected (h : s.pc = .recv) (hq : s.cmds.tryRecv = .disconnected) :
      Step s .disconnected { s with pc := .failing }
  | tickClosed {rc alive} (h : s.pc = .tick)
      (hc : (Client.tick rc).isOk = false ∨ isAlive alive = false) :
      Step s (.tick rc alive) { s with pc := .failing }
  | tickOk {rc alive} (h : s.pc = .tick)
      (hc : ¬ ((Client.tick rc).isOk = false ∨ isAlive alive = false)) :
      Step s (.tick rc alive) { s with pc := .sweep 0 }
  | pollReady {i id c rc out resp} (h : s.pc = .sweep i) (hi : s.pending[i]? = some (id, c))
      (hp : pollRequest rc out = .ok (some resp)) :
      Step s (.poll id rc out) { s.answer c (.ok resp) with pending := swapRemove s.pending i }
  | pollNone {i id c rc out} (h : s.pc = .sweep i) (hi : s.pending[i]? = some (id, c))
      (hp : pollRequest rc out = .ok none) :
      Step s (.poll id rc out) { s with pc := .sweep (i + 1) }
  | pollErr {i id c rc out e} (h : s.pc = .sweep i) (hi : s.pending[i]? = some (id, c))
      (hp : pollRequest rc out = .error e) :
      Step s (.poll id rc out) { s.answer c (.error e) with pending := swapRemove s.pending i }
  | sweepEnd {i} (h : s.pc = .sweep i) (hi : s.pending.length ≤ i) :
      Step s .sweepEnd { s with pc := .wait }
  | block {ms} (h : s.pc = .wait) :
      Step s (.block ms) { s with pc := .blocked (waitMs s.pending ms) }
  | unblock {w} (h : s.pc = .blocked w) : Step s .unblock { s with pc := .drainWake }
  | readWake (h : s.pc = .drainWake) (hw : 0 < s.wake) : Step s .readWake { s with wake := 0 }
  | readDone (h : s.pc = .drainWake) (hw : s.wake = 0) : Step s .readWake { s with pc := .recv }
  | failNext {id c rest} (h : s.pc = .failing) (hp : s.pending = (id, c) :: rest) :
      Step s .failNext { s.answer c (.error .networkClosed) with pending := rest }
  | failEnd (h : s.pc = .failing) (hp : s.pending = []) :
      Step s .failNext { s with pc := .exiting }
  | dropRx (h : s.pc = .exiting) :
      Step s .dropRx { s with
        pc := .returned
        cmds := s.cmds.closeRx
        replies := fun c =>
          if c ∈ s.cmds.queue.map (·.reply) then (s.replies c).drop else s.replies c }

/-- **The inversion of `step`**: what an enabled label did. -/
theorem step_inv {s t : State} {a : Act} (h : step s a = some t) : Step s a t := by
  cases a with
  | start c req =>
    simp only [step] at h
    split at h
    · rename_i hc
      obtain ⟨ha, rfl⟩ := hc
      obtain rfl := Option.some.inj h
      exact .start ha
    · exact absurd h (by simp)
  | send c =>
    simp only [step] at h
    split at h
    · rename_i req hc
      obtain ⟨ch, hp, rfl⟩ := Option.map_eq_some_iff.mp h
      exact .send hc hp
    · exact absurd h (by simp)
  | sendClosed c =>
    simp only [step] at h
    split at h
    · rename_i req hc
      split at h
      · exact absurd h (by simp)
      · rename_i hr
        obtain rfl := Option.some.inj h
        exact .sendClosed hc (by simpa using hr)
    · exact absurd h (by simp)
  | wake c =>
    simp only [step] at h
    split at h
    · rename_i hc
      obtain rfl := Option.some.inj h
      exact .wake hc
    · exact absurd h (by simp)
  | reply c =>
    simp only [step] at h
    split at h
    · rename_i hc
      obtain ⟨r, hr, rfl⟩ := Option.map_eq_some_iff.mp h
      exact .reply hc hr
    · exact absurd h (by simp)
  | cancel c =>
    simp only [step] at h
    split at h
    · rename_i req hc
      obtain rfl := Option.some.inj h
      exact .cancel (Or.inl ⟨req, hc⟩)
    · rename_i hc
      obtain rfl := Option.some.inj h
      exact .cancel (Or.inr hc)
    · exact absurd h (by simp)
  | takeSender =>
    simp only [step] at h
    split at h
    · rename_i hc
      obtain rfl := Option.some.inj h
      exact .takeSender hc.1 hc.2
    · exact absurd h (by simp)
  | dropWake =>
    simp only [step] at h
    split at h
    · rename_i hc
      obtain rfl := Option.some.inj h
      exact .dropWake hc
    · exact absurd h (by simp)
  | submit cmd rc id =>
    simp only [step] at h
    split at h
    · rename_i cmd' ch hpc hq
      split at h
      · rename_i hcmd
        subst hcmd
        split at h
        · rename_i id' hs
          obtain rfl := submitRequest_ok hs
          split at h
          · exact absurd h (by simp)
          · rename_i hf
            obtain rfl := Option.some.inj h
            exact .submitOk hpc hq hs hf
        · rename_i e hs
          obtain rfl := Option.some.inj h
          exact .submitErr hpc hq hs
      · exact absurd h (by simp)
    · exact absurd h (by simp)
  | empty =>
    simp only [step] at h
    split at h
    · rename_i hpc hq
      obtain rfl := Option.some.inj h
      exact .empty hpc hq
    · exact absurd h (by simp)
  | disconnected =>
    simp only [step] at h
    split at h
    · rename_i hpc hq
      obtain rfl := Option.some.inj h
      exact .disconnected hpc hq
    · exact absurd h (by simp)
  | tick rc alive =>
    simp only [step] at h
    split at h
    · rename_i hpc
      split at h
      · rename_i hc
        obtain rfl := Option.some.inj h
        exact .tickClosed hpc hc
      · rename_i hc
        obtain rfl := Option.some.inj h
        exact .tickOk hpc hc
    · exact absurd h (by simp)
  | poll id rc out =>
    simp only [step] at h
    split at h
    · rename_i i hpc
      split at h
      · rename_i id' c hi
        split at h
        · rename_i hid
          subst hid
          split at h
          · rename_i resp hp
            obtain rfl := Option.some.inj h
            exact .pollReady hpc hi hp
          · rename_i hp
            obtain rfl := Option.some.inj h
            exact .pollNone hpc hi hp
          · rename_i e hp
            obtain rfl := Option.some.inj h
            exact .pollErr hpc hi hp
        · exact absurd h (by simp)
      · exact absurd h (by simp)
    · exact absurd h (by simp)
  | sweepEnd =>
    simp only [step] at h
    split at h
    · rename_i i hpc
      split at h
      · rename_i hi
        obtain rfl := Option.some.inj h
        exact .sweepEnd hpc hi
      · exact absurd h (by simp)
    · exact absurd h (by simp)
  | block ms =>
    simp only [step] at h
    split at h
    · rename_i hpc
      obtain rfl := Option.some.inj h
      exact .block hpc
    · exact absurd h (by simp)
  | unblock =>
    simp only [step] at h
    split at h
    · rename_i w hpc
      obtain rfl := Option.some.inj h
      exact .unblock hpc
    · exact absurd h (by simp)
  | readWake =>
    simp only [step] at h
    split at h
    · rename_i hpc
      split at h
      · rename_i hw
        obtain rfl := Option.some.inj h
        exact .readWake hpc hw
      · rename_i hw
        obtain rfl := Option.some.inj h
        exact .readDone hpc (by omega)
    · exact absurd h (by simp)
  | failNext =>
    simp only [step] at h
    split at h
    · rename_i hpc
      split at h
      · rename_i hp
        obtain rfl := Option.some.inj h
        exact .failEnd hpc hp
      · rename_i id c rest hp
        obtain rfl := Option.some.inj h
        exact .failNext hpc hp
    · exact absurd h (by simp)
  | dropRx =>
    simp only [step] at h
    split at h
    · rename_i hpc
      obtain rfl := Option.some.inj h
      exact .dropRx hpc
    · exact absurd h (by simp)

end Nwep.Runtime.ClientLoop
