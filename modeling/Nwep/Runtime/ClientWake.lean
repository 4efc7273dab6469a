import Nwep.Runtime.ClientReplies

/-!
# No wake-up is lost

The eventfd counts wakes, and the owner's drain swallows them all at once, after the wait and
before it reads the channel again. So a zero counter says something only while the owner is past an
empty `try_recv` and has not waited yet (`Past`): whoever put something into the channel since then
has still to wake (`Unwoken`).

Results:
* `drained_reachable`: the invariant;
* **`no_lost_wake`**: it holds while the owner is blocked;
* `next_wakes`: and the wake it waits for makes the eventfd readable.
-/

namespace Nwep.Runtime.ClientLoop

open Nwep.Client Nwep.Lib

/-- The owner found the channel empty and has not come back from its wait. -/
def Past (s : State) : Prop :=
  s.pc = .tick ∨ (∃ i, s.pc = .sweep i) ∨ s.pc = .wait ∨ ∃ w, s.pc = .blocked w

/-- Every command in the channel, and a disconnect, belongs to a sender that is before its wake. -/
structure Unwoken (s : State) : Prop where
  queued : ∀ cmd ∈ s.cmds.queue, s.calls cmd.reply = .enqueued
  closed : s.cmds.txOpen = false → s.handle = .dropping

/-- **The invariant of the wake counter.** -/
def Drained (s : State) : Prop := Past s → s.wake = 0 → Unwoken s

/-- A call that moves on from anywhere but its wake takes nothing out of the channel's account. -/
theorem Unwoken.setCall {s : State} (h : Unwoken s) {c : CallId} {d : Dispatch}
    (hc : s.calls c ≠ .enqueued) : Unwoken (s.setCall c d) := by
  refine ⟨fun cmd hcmd => ?_, h.closed⟩
  have henq := h.queued cmd hcmd
  have hne : cmd.reply ≠ c := by
    intro heq
    rw [heq] at henq
    exact hc henq
  rw [State.setCall_calls, Function.update_of_ne hne]
  exact henq

theorem drained_step {s t : State} {a : Act} (hsh : Shape s) (h : Drained s) (hs : Step s a t) :
    Drained t := by
  intro hp hw
  cases hs with
  | @start req _ =>
    have hidle := hsh.fresh s.started (Nat.le_refl _)
    have hu := (h hp hw).setCall (c := s.started) (d := .sending req) (by rw [hidle]; simp)
    exact ⟨hu.queued, hu.closed⟩
  | @send c req ch hc hpush =>
    -- the new command's sender has its wake before it
    obtain ⟨-, -, -, hq, htx, -⟩ := Mpsc.push_spec hpush
    have hu := h hp hw
    refine ⟨fun cmd hcmd => ?_, fun htx' => hu.closed (htx.symm.trans htx')⟩
    rw [hq] at hcmd
    by_cases hb : cmd.reply = c
    · simp [hb]
    · simp only [State.setCall_calls, Function.update_of_ne hb]
      rcases List.mem_append.mp hcmd with hcmd | hcmd
      · exact hu.queued cmd hcmd
      · rw [List.mem_singleton.mp hcmd] at hb
        exact absurd rfl hb
  | sendClosed hc _ | reply hc _ => exact (h hp hw).setCall (by rw [hc]; simp)
  | cancel hc =>
    refine (h hp hw).setCall ?_
    rcases hc with ⟨req, hc⟩ | hc <;> rw [hc] <;> simp
  | wake _ | dropWake _ =>
    have hpos := eventfdWrite_pos s.wake
    have hz : eventfdWrite s.wake = 0 := hw
    omega
  | takeSender _ _ => exact ⟨(h hp hw).queued, fun _ => rfl⟩
  | empty _ hq =>
    -- the channel was seen empty, with a sender alive
    obtain ⟨hnil, htx⟩ := Mpsc.tryRecv_empty hq
    refine ⟨fun cmd hcmd => ?_, fun hf => ?_⟩
    · have hcmd : cmd ∈ s.cmds.queue := hcmd
      rw [hnil] at hcmd
      exact absurd hcmd List.not_mem_nil
    · have hf : s.cmds.txOpen = false := hf
      rw [htx] at hf
      exact absurd hf (by simp)
  | tickOk hpc _ =>
    have hu := h (Or.inl hpc) hw
    exact ⟨hu.queued, hu.closed⟩
  | pollReady hpc _ _ | pollNone hpc _ _ | pollErr hpc _ _ | sweepEnd hpc _ =>
    have hu := h (Or.inr (Or.inl ⟨_, hpc⟩)) hw
    exact ⟨hu.queued, hu.closed⟩
  | block hpc =>
    have hu := h (Or.inr (Or.inr (Or.inl hpc))) hw
    exact ⟨hu.queued, hu.closed⟩
  -- everywhere else the owner is not past its `try_recv`
  | submitOk hpc _ _ _ | submitErr hpc _ _ | readWake hpc _ | failNext hpc _ =>
    simp [Past, State.answer, hpc] at hp
  | disconnected _ _ | tickClosed _ _ | unblock _ | readDone _ _ | failEnd _ _ | dropRx _ =>
    simp [Past] at hp

theorem drained_reachable {s : State} (h : machine.Reachable s) : Drained s := by
  refine machine.reachable_induction ?_ ?_ h
  · intro hp
    simp [Past, machine, init] at hp
  · intro s a t hr hp hst
    exact drained_step (reachable_shape hr) hp (step_inv hst)

/-- **No lost wake-up**: while the owner is blocked and no wake is pending on the eventfd, whoever
put a command into the channel, or closed it, has not executed its wake yet. -/
theorem no_lost_wake {s : State} {w : Nat} (h : machine.Reachable s) (hb : s.pc = .blocked w)
    (hw : s.wake = 0) : Unwoken s :=
  drained_reachable h (Or.inr (Or.inr (Or.inr ⟨w, hb⟩))) hw

/-- The wake the blocked owner waits for is enabled, and makes the eventfd readable. -/
theorem next_wakes {s : State} {w : Nat} (h : machine.Reachable s) (hb : s.pc = .blocked w)
    (hw : s.wake = 0) (hq : s.cmds.queue ≠ [] ∨ s.cmds.txOpen = false) :
    ∃ a t, machine.step s a = some t ∧ t.pc = .blocked w ∧ 0 < t.wake := by
  have hu := drained_reachable h (Or.inr (Or.inr (Or.inr ⟨w, hb⟩))) hw
  rcases hq with hq | htx
  · obtain ⟨cmd, hcmd⟩ := List.exists_mem_of_ne_nil _ hq
    have henq := hu.queued cmd hcmd
    have hst : machine.step s (.wake cmd.reply) =
        some { s.setCall cmd.reply .awaiting with wake := eventfdWrite s.wake } := if_pos henq
    exact ⟨_, _, hst, hb, eventfdWrite_pos s.wake⟩
  · have hd := hu.closed htx
    have hst : machine.step s .dropWake =
        some { s with handle := .dropped, wake := eventfdWrite s.wake } := if_pos hd
    exact ⟨_, _, hst, hb, eventfdWrite_pos s.wake⟩

/-- The owner blocks, then a call enters the channel. -/
def blockedQueued : List Act :=
  [.empty, .tick 0 1, .sweepEnd, .block 10, .start 0 ⟨.read, [47], [], []⟩, .send 0]

theorem no_lost_wake_blockedQueued :
    ∃ s, machine.run blockedQueued = some s ∧ s.cmds.queue.length = 1 ∧ Unwoken s :=
  ⟨_, rfl, rfl, no_lost_wake (w := 200) ⟨blockedQueued, rfl⟩ rfl rfl⟩

end Nwep.Runtime.ClientLoop
