import Nwep.Lib.Progress
import Nwep.Lib.Sweep
import Nwep.Runtime.ClientWake

/-!
# Dropping the managed client ends its owner thread

`AsyncClient::drop` (`nwep/src/runtime.rs` 403-410) drops the sender and wakes the owner. From then
on nothing enters the channel, so what the owner still does is bounded by what it holds: one
submission a queued command, the sweep it may be in, one wait, and the replies it fails on its way
out. This does not depend on what the C calls answer.

Results:
* `released_of_reachable`: once the sender is gone no call is under way, and none can start;
* `descends`: the rank of the owner in its loop;
* **`drop_stops`**: from the drop on, the owner makes a bounded number of steps and at most one
  tick, is not stuck before it returns, and sleeps through no wait once the wake is out.
-/

namespace Nwep.Runtime.ClientLoop

open Nwep.Client Nwep.Lib

/-- The label is a step of the owner thread. -/
def Act.ofOwner : Act → Bool
  | .start _ _ => false
  | .send _ => false
  | .sendClosed _ => false
  | .wake _ => false
  | .reply _ => false
  | .cancel _ => false
  | .takeSender => false
  | .dropWake => false
  | _ => true

/-- The label is a tick of the client. -/
def Act.ticks : Act → Bool
  | .tick _ _ => true
  | _ => false

/-- Nobody can use the client any more, and nobody does. -/
structure Released (s : State) : Prop where
  handle : s.handle ≠ .alive
  closed : s.cmds.txOpen = false
  calls  : ∀ c, (s.calls c).finished = true

/-- No future is under way. -/
theorem Released.not_busy {s : State} (h : Released s) {c : CallId} {d : Dispatch}
    (hcd : s.calls c = d) (hd : d.finished = false) : False := by
  have hf := h.calls c
  rw [hcd, hd] at hf
  exact absurd hf (by simp)

theorem released_step {s t : State} {a : Act} (h : Released s) (hs : Step s a t) : Released t := by
  cases hs with
  | start ha => exact absurd ha h.handle
  | takeSender ha _ => exact absurd ha h.handle
  | send hcall _ => exact (h.not_busy hcall rfl).elim
  | wake hcall => exact (h.not_busy hcall rfl).elim
  | reply hcall _ => exact (h.not_busy hcall rfl).elim
  | sendClosed hcall _ => exact (h.not_busy hcall rfl).elim
  | cancel hcall =>
    rcases hcall with ⟨req, hcall⟩ | hcall
    · exact (h.not_busy hcall rfl).elim
    · exact (h.not_busy hcall rfl).elim
  | dropWake _ => exact ⟨by simp, h.closed, h.calls⟩
  | submitOk _ hq _ _ | submitErr _ hq _ =>
    obtain ⟨-, htx', -⟩ := Mpsc.tryRecv_item hq
    exact ⟨h.handle, htx'.trans h.closed, h.calls⟩
  | _ => exact ⟨h.handle, h.closed, h.calls⟩

/-- **The drop happens when no call is under way, and no call starts after it.** -/
theorem released_of_reachable {s : State} (h : machine.Reachable s) (hh : s.handle ≠ .alive) :
    Released s := by
  refine machine.reachable_induction (P := fun s => s.handle ≠ .alive → Released s)
    (fun hn => absurd rfl hn) ?_ h hh
  intro s a t hr hp hst ht
  have hs := step_inv hst
  by_cases ha : s.handle = .alive
  · cases hs with
    | takeSender _ hf =>
      refine ⟨ht, rfl, fun c => ?_⟩
      by_cases hlt : c < s.started
      · exact hf c hlt
      · have hidle := (reachable_shape hr).fresh c (Nat.le_of_not_lt hlt)
        exact congrArg Dispatch.finished hidle
    | dropWake hd => exact absurd (ha.symm.trans hd) (by simp)
    | _ => exact absurd ha ht
  · exact released_step (hp ha) hs

/-- The owner moves neither the handle nor the count of calls. -/
theorem owner_keeps {s t : State} {a : Act} (hs : Step s a t) (ha : a.ofOwner = true) :
    t.handle = s.handle ∧ t.started = s.started := by
  cases hs with
  | start _ | takeSender _ _ | dropWake _ => exact absurd ha (by simp [Act.ofOwner])
  | _ => exact ⟨rfl, rfl⟩

/-! ## The rank -/

/-- The owner before it reads the channel: two steps a queued command, as it may stay in flight. -/
def topRank (s : State) : Nat := 2 * s.cmds.queue.length + s.pending.length + 3

/-- The reads of the eventfd that find something. -/
def wakeRank (s : State) : Nat :=
  (if 0 < s.wake then 1 else 0) + (if s.handle = .dropping then 1 else 0)

/-- What the owner still does, by where it is in its loop. -/
def ownerRank (s : State) : Nat :=
  match s.pc with
  | .recv => topRank s
  | .tick => topRank s + wakeRank s + s.pending.length + 5
  | .sweep i => topRank s + wakeRank s + (s.pending.length - i) + 4
  | .wait => topRank s + wakeRank s + 3
  | .blocked _ => topRank s + wakeRank s + 2
  | .drainWake => topRank s + wakeRank s + 1
  | .failing => s.pending.length + 2
  | .exiting => 1
  | .returned => 0

theorem wakeRank_le (s : State) : wakeRank s ≤ 2 := by
  unfold wakeRank
  split <;> split <;> omega

theorem ownerRank_le (s : State) :
    ownerRank s ≤ 2 * s.cmds.queue.length + 2 * s.pending.length + 10 := by
  have hw := wakeRank_le s
  unfold ownerRank topRank
  split <;> omega

/-- The wake of the drop is counted before it is made. -/
theorem wakeRank_dropWake {s : State} (h : s.handle = .dropping) :
    wakeRank { s with handle := .dropped, wake := eventfdWrite s.wake } ≤ wakeRank s := by
  unfold wakeRank
  rw [if_pos (eventfdWrite_pos s.wake), if_pos h]
  simp

/-- The wake moves nothing but the eventfd. -/
theorem ownerRank_dropWake {s : State} (h : s.handle = .dropping) :
    ownerRank { s with handle := .dropped, wake := eventfdWrite s.wake } ≤ ownerRank s := by
  have hw := wakeRank_dropWake h
  unfold ownerRank topRank
  revert hw
  cases s.pc <;> intro hw <;> simp only <;> omega

theorem length_of_item {ch ch' : Mpsc ClientCommand 64} {cmd : ClientCommand}
    (h : ch.tryRecv = .item cmd ch') : ch.queue.length = ch'.queue.length + 1 := by
  rw [(Mpsc.tryRecv_item h).1]
  rfl

/-- Every step of the owner lowers the rank. -/
theorem ownerRank_lt {s t : State} {a : Act} (h : Released s) (ha : a.ofOwner = true)
    (hs : Step s a t) : ownerRank t < ownerRank s := by
  cases hs with
  | start _ | send _ _ | sendClosed _ _ | wake _ | reply _ _ | cancel _ | takeSender _ _
  | dropWake _ => exact absurd ha (by simp [Act.ofOwner])
  | empty _ hq =>
    have htx := (Mpsc.tryRecv_empty hq).2
    rw [h.closed] at htx
    exact absurd htx (by simp)
  | submitOk hpc hq _ _ =>
    have hlen := length_of_item hq
    simp only [ownerRank, topRank, hpc, List.length_append, List.length_singleton]
    omega
  | submitErr hpc hq _ =>
    have hlen := length_of_item hq
    simp only [ownerRank, topRank, State.answer, hpc]
    omega
  | disconnected hpc _ =>
    simp only [ownerRank, topRank, hpc]
    omega
  | tickClosed hpc _ =>
    simp only [ownerRank, topRank, hpc]
    omega
  | tickOk hpc _ =>
    simp only [ownerRank, topRank, wakeRank, hpc]
    omega
  | @pollReady i _ _ _ _ _ hpc hi _ | @pollErr i _ _ _ _ _ hpc hi _ =>
    have hlt := (List.getElem?_eq_some_iff.mp hi).1
    simp only [ownerRank, topRank, wakeRank, State.answer, hpc, swapRemove_length]
    omega
  | @pollNone i _ _ _ _ hpc hi _ =>
    have hlt := (List.getElem?_eq_some_iff.mp hi).1
    simp only [ownerRank, topRank, wakeRank, hpc]
    omega
  | sweepEnd hpc _ | block hpc | unblock hpc =>
    simp only [ownerRank, topRank, wakeRank, hpc]
    omega
  | readWake hpc hw =>
    simp only [ownerRank, topRank, wakeRank, hpc, if_pos hw]
    simp
  | readDone hpc _ =>
    simp only [ownerRank, topRank, wakeRank, hpc]
    omega
  | failNext hpc hp =>
    simp only [ownerRank, State.answer, hpc, hp, List.length_cons]
    omega
  | failEnd hpc _ =>
    simp only [ownerRank, hpc]
    omega
  | dropRx hpc =>
    simp only [ownerRank, hpc]
    omega

/-- **What the owner still does is bounded by what it holds.** -/
theorem descends : machine.Descends Released Act.ofOwner ownerRank where
  keep _ _ _ h hst := released_step h (step_inv hst)
  lowers _ _ _ h ha hst := ownerRank_lt h ha (step_inv hst)
  holds s a t h ha hst := by
    cases step_inv hst with
    | start hh | takeSender hh _ => exact absurd hh h.handle
    | send hc _ | wake hc | reply hc _ | sendClosed hc _ => exact (h.not_busy hc rfl).elim
    | cancel hc =>
      rcases hc with ⟨req, hc⟩ | hc
      · exact (h.not_busy hc rfl).elim
      · exact (h.not_busy hc rfl).elim
    | dropWake hd => exact ownerRank_dropWake hd
    | _ => exact absurd ha (by simp [Act.ofOwner])

/-! ## The owner is never stuck -/

/-- The owner thread has a step wherever it has not returned. -/
theorem owner_moves : machine.Moves Released Act.ofOwner (·.pc = .returned) := by
  intro s _ hn
  cases hpc : s.pc with
  | recv =>
    cases hq : s.cmds.tryRecv with
    | item cmd ch =>
      have hfail : ∃ e, submitRequest cmd.req (-1) 0 = .error e := by
        unfold submitRequest
        cases submitArgs cmd.req with
        | error e => exact ⟨e, rfl⟩
        | ok _ => exact ⟨_, rfl⟩
      obtain ⟨e, he⟩ := hfail
      refine ⟨.submit cmd (-1) 0, { s.answer cmd.reply (.error e) with cmds := ch }, rfl, ?_⟩
      simp [machine, step, hpc, hq, he]
    | empty => exact ⟨.empty, { s with pc := .tick }, rfl, by simp [machine, step, hpc, hq]⟩
    | disconnected =>
      exact ⟨.disconnected, { s with pc := .failing }, rfl, by simp [machine, step, hpc, hq]⟩
  | tick =>
    refine ⟨.tick 0 0, { s with pc := .failing }, rfl, ?_⟩
    simp [machine, step, hpc, isAlive]
  | sweep i =>
    by_cases hi : s.pending.length ≤ i
    · exact ⟨.sweepEnd, { s with pc := .wait }, rfl, by simp [machine, step, hpc, hi]⟩
    · have hlt : i < s.pending.length := Nat.lt_of_not_le hi
      refine ⟨.poll s.pending[i].1 0 0, { s.answer s.pending[i].2 (.ok ⟨0⟩) with
        pending := swapRemove s.pending i }, rfl, ?_⟩
      simp [machine, step, hpc, List.getElem?_eq_getElem hlt, pollRequest]
  | wait => exact ⟨.block 0, _, rfl, by simp [machine, step, hpc]; rfl⟩
  | blocked w => exact ⟨.unblock, { s with pc := .drainWake }, rfl, by simp [machine, step, hpc]⟩
  | drainWake =>
    by_cases hw : 0 < s.wake
    · exact ⟨.readWake, { s with wake := 0 }, rfl, by simp [machine, step, hpc, hw]⟩
    · exact ⟨.readWake, { s with pc := .recv }, rfl, by simp [machine, step, hpc, hw]⟩
  | failing =>
    cases hp : s.pending with
    | nil => exact ⟨.failNext, { s with pc := .exiting }, rfl, by simp [machine, step, hpc, hp]⟩
    | cons e rest =>
      refine ⟨.failNext, { s.answer e.2 (.error .networkClosed) with pending := rest }, rfl, ?_⟩
      simp [machine, step, hpc, hp]
  | exiting => exact ⟨.dropRx, _, rfl, by simp [machine, step, hpc]; rfl⟩
  | returned => exact absurd hpc hn

/-! ## The waits -/

/-- One tick, if the owner is about to make it. -/
def tickRank (s : State) : Nat := if s.pc = .tick then 1 else 0

/-- The ticks the owner still makes: it reaches the tick only past an empty channel. -/
theorem ticks_descend : machine.Descends Released Act.ticks tickRank where
  keep _ _ _ h hst := released_step h (step_inv hst)
  lowers s a t h ha hst := by
    cases step_inv hst with
    | tickClosed hpc _ | tickOk hpc _ =>
      unfold tickRank
      rw [if_pos hpc]
      simp
    | _ => exact absurd ha (by simp [Act.ticks])
  holds s a t h ha hst := by
    cases step_inv hst with
    | empty _ hq =>
      have htx := (Mpsc.tryRecv_empty hq).2
      rw [h.closed] at htx
      exact absurd htx (by simp)
    | start _ | send _ _ | sendClosed _ _ | wake _ | reply _ _ | cancel _ | takeSender _ _
    | dropWake _ | submitOk _ _ _ _ | submitErr _ _ _ | failNext _ _ | pollReady _ _ _
    | pollErr _ _ _ | readWake _ _ => exact Nat.le_refl _
    | _ => simp [tickRank]

/-! ## The main result -/

/-- What the drop of the client leads to, from the state after its first half on. -/
structure DropStops (s : State) : Prop where
  /-- The owner makes a bounded number of steps, whatever the C calls answer, -/
  bounded : ∀ acts t, machine.runFrom s acts = some t →
    acts.countP Act.ofOwner ≤ 2 * s.cmds.queue.length + 2 * s.pending.length + 10
  /-- is never stuck before it has returned, -/
  moves : ∀ acts t, machine.runFrom s acts = some t → t.pc ≠ .returned →
    ∃ a u, a.ofOwner = true ∧ machine.step t a = some u
  /-- ticks the client at most once more, -/
  oneTick : ∀ acts t, machine.runFrom s acts = some t → acts.countP Act.ticks ≤ 1
  /-- and once the wake is out, finds the eventfd readable at every wait. -/
  awake : ∀ acts t w, machine.runFrom s acts = some t → t.handle = .dropped →
    t.pc = .blocked w → 0 < t.wake

/-- **Dropping the client stops its thread.** -/
theorem drop_stops {s : State} (h : machine.Reachable s) (hh : s.handle ≠ .alive) :
    DropStops s := by
  have hrel := released_of_reachable h hh
  refine ⟨fun acts t hr => ?_, fun acts t hr hn => ?_, fun acts t hr => ?_,
    fun acts t w hr hd hb => ?_⟩
  · exact Nat.le_trans (descends.countP_le hrel hr) (ownerRank_le s)
  · exact owner_moves t (descends.runFrom hrel hr).1 hn
  · have hle := ticks_descend.countP_le hrel hr
    unfold tickRank at hle
    split at hle <;> omega
  · by_contra hw
    have hre := machine.reachable_runFrom h hr
    have hun := drained_reachable hre (Or.inr (Or.inr (Or.inr ⟨w, hb⟩))) (Nat.eq_zero_of_not_pos hw)
    have hclosed := (descends.runFrom hrel hr).1.closed
    exact absurd (hd.symm.trans (hun.closed hclosed)) (by simp)

/-- A cancelled call leaves its command in the channel, and the client is dropped under the blocked
owner. -/
def droppedBlocked : List Act :=
  [.empty, .tick 0 1, .sweepEnd, .block 10, .start 0 ⟨.read, [47], [], []⟩, .send 0, .wake 0,
   .cancel 0, .takeSender]

theorem drop_stops_droppedBlocked :
    ∃ s, machine.run droppedBlocked = some s ∧ s.pc = .blocked 200 ∧ s.cmds.queue.length = 1 ∧
      DropStops s :=
  ⟨_, rfl, rfl, rfl, drop_stops ⟨droppedBlocked, rfl⟩ (by decide)⟩

end Nwep.Runtime.ClientLoop
