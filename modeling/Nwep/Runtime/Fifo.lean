import Nwep.Lib.Fifo
import Nwep.Runtime.ClientLoop
import Nwep.Runtime.ServerLoop

/-!
# The order in which the managed loops serve

The command channels of `run_client_loop` and `run_server_loop` (`nwep/src/runtime.rs` 242-292,
415-492) as instances of `Lib.Fifo`: everything a caller, the drop of the handle or the owner does to
a channel is a send, a receive or a close.

Results:
* **`submits_in_order`**: the client makes its submissions in the order in which the sends of the
  `dispatch` calls completed, and fewer than 64 of them between a send and its own;
* **`serves_in_order`**: the server serves `resolve` and `dht_metrics` so, with 32 for 64.
-/

namespace Nwep.Runtime

open Nwep.Lib

namespace ClientLoop

/-- The call whose send completes. -/
def accepts (_ : State) : Act → Option CallId
  | .send c => some c
  | _ => none

/-- The call whose command is received. -/
def receives (_ : State) : Act → Option CallId
  | .submit cmd _ _ => some cmd.reply
  | _ => none

theorem queued : machine.Queued State.cmds ClientCommand.reply accepts receives where
  init := Or.inl rfl
  step s a t hst := by
    cases step_inv hst with
    | send _ hp => exact .sent hp
    | submitOk _ hq _ _ | submitErr _ hq _ => exact .took hq
    | takeSender _ _ => exact .closedTx rfl
    | dropRx _ => exact .closedRx rfl
    | _ => exact .same rfl

/-- **The managed client submits in the order of the accepted sends**, for any callers and any C
client, and nobody who has sent waits for 64 others. -/
theorem submits_in_order {acts : List Act} {s : State} (h : machine.run acts = some s) :
    Machine.Queued.InOrder machine State.cmds ClientCommand.reply accepts receives acts s :=
  queued.ordered h

/-- Two calls; the second one sends first. -/
def secondFirst : List Act :=
  [.start 0 ⟨.read, [47], [], []⟩, .start 1 ⟨.read, [48], [], []⟩, .send 1, .send 0, .wake 1,
   .submit ⟨⟨.read, [48], [], []⟩, 1⟩ 0 7]

theorem submits_in_order_secondFirst :
    ∃ s, machine.run secondFirst = some s ∧
      machine.notes receives machine.init secondFirst = [1] ∧
      Machine.Queued.InOrder machine State.cmds ClientCommand.reply accepts receives secondFirst s :=
  ⟨_, rfl, rfl, submits_in_order rfl⟩

end ClientLoop

namespace ServerLoop

/-- The call whose send completes. -/
def accepts (_ : State) : Act → Option CallId
  | .send c => some c
  | _ => none

/-- The call whose command is received, to be served. -/
def serves (s : State) : Act → Option CallId
  | .take => s.cmds.queue.head?.map ServerCommand.reply
  | .metrics _ => s.cmds.queue.head?.map ServerCommand.reply
  | _ => none

theorem command_reply (ask : Ask) (c : CallId) : (ask.command c).reply = c := by
  cases ask <;> rfl

variable {cfg : Config}

theorem queued : (machine cfg).Queued State.cmds ServerCommand.reply accepts serves where
  init := by
    cases hd : cfg.dht with
    | true => exact Or.inl (by simp [machine, init, hd])
    | false => exact Or.inr (by simp [machine, init, hd])
  step s a t hst := by
    have htook : ∀ {x ch}, s.cmds.tryRecv = .item x ch →
        s.cmds.queue.head?.map ServerCommand.reply = some x.reply := by
      intro x ch hq
      rw [(Mpsc.tryRecv_item hq).1]
      rfl
    cases step_inv hst with
    | @send c ask ch _ hp =>
      have hm : Machine.Moved ServerCommand.reply s.cmds ch _ _ := .sent hp
      rw [command_reply] at hm
      exact hm
    | take _ hq | metrics _ hq =>
      have hm : Machine.Moved ServerCommand.reply s.cmds _ _ _ := .took hq
      rw [← htook hq] at hm
      exact hm
    | dropSender _ => exact .closedTx rfl
    | ageOverflow _ _ | deadlinePanic _ _ | dropRx _ => exact .closedRx rfl
    | _ => exact .same rfl

/-- **The managed server serves in the order of the accepted sends**, for any callers, lookups and
ends of the thread, and nobody who has sent waits for 32 others. -/
theorem serves_in_order {acts : List Act} {s : State} (h : (machine cfg).run acts = some s) :
    Machine.Queued.InOrder (machine cfg) State.cmds ServerCommand.reply accepts serves acts s :=
  queued.ordered h

/-- A lookup that is in the store, then the counters, asked for by the first call. -/
def lookupFirst : List Act :=
  [.start 0 .dhtMetrics, .start 1 (.resolve 9 0), .send 1, .send 0, .check, .tick 0, .dhtTick 5 0,
   .take, .lookupResult 9 0 ⟨4⟩, .metrics ⟨0, 0, 0, 0⟩]

theorem serves_in_order_lookupFirst :
    ∃ s, (machine ⟨true, none, true⟩).run lookupFirst = some s ∧
      (machine ⟨true, none, true⟩).notes serves (init ⟨true, none, true⟩) lookupFirst = [1, 0] ∧
      Machine.Queued.InOrder (machine ⟨true, none, true⟩) State.cmds ServerCommand.reply accepts
        serves lookupFirst s :=
  ⟨_, rfl, rfl, serves_in_order rfl⟩

end ServerLoop

end Nwep.Runtime
