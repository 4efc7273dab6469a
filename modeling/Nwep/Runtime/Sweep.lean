import Nwep.Lib.Sweep
import Nwep.Runtime.ClientLoop

/-!
# The pending sweep

Model of the loop of `run_client_loop` that polls what is in flight (`nwep/src/runtime.rs` 464-478),
as the code runs it: to its end, with both index operations checked. `answers` is what
`nwep_client_request_poll` answers for an id; the loop is modelled by the polls and the replies it
makes, in order.

Results:
* `sweepPending_eq`: the loop is the sweep of `Lib/Sweep.lean`, and does not panic;
* **`sweep_once`**: one poll for each id, each outcome to the sender paired with its id, and the
  rest stays pending;
* `sweep_runFrom`: the owner thread of `ClientLoop` goes from the first poll to the wait by these
  steps.
-/

namespace Nwep.Runtime.ClientLoop

open Nwep.Client Nwep.Lib

/-- What the loop does to the outside. -/
inductive SweepEvent
  | poll (id : RequestId)
  | send (reply : CallId) (r : Result Response)

/-- An outcome the caller is told of; none while the request is in flight. -/
def finished : Result (Option Response) → Option (Result Response)
  | .ok (some resp) => some (.ok resp)
  | .ok none => none
  | .error e => some (.error e)

variable (answers : RequestId → CInt × Msg)

/-- What `poll_request` returns for an id. -/
def outcome (id : RequestId) : Result (Option Response) :=
  pollRequest (answers id).1 (answers id).2

/-- `while i < pending.len()`, after `events`. None is a panic. -/
def sweepPending (pending : List (RequestId × CallId)) (i : Nat) (events : List SweepEvent) :
    Option (List (RequestId × CallId) × List SweepEvent) :=
  if i < pending.length then
    match pending[i]? with
    | none => none
    | some (id, _) =>
      match outcome answers id with
      | .ok (some resp) =>
        match h : swapRemove? pending i with
        | none => none
        | some ((_, reply), rest) =>
          have : rest.length + 1 = pending.length := swapRemove?_length h
          sweepPending rest i (events ++ [.poll id, .send reply (.ok resp)])
      | .ok none => sweepPending pending (i + 1) (events ++ [.poll id])
      | .error e =>
        match h : swapRemove? pending i with
        | none => none
        | some ((_, reply), rest) =>
          have : rest.length + 1 = pending.length := swapRemove?_length h
          sweepPending rest i (events ++ [.poll id, .send reply (.error e)])
  else some (pending, events)
termination_by pending.length - i

theorem finished_eq_none {o : Result (Option Response)} : finished o = none ↔ o = .ok none := by
  unfold finished
  split <;> simp

/-- One turn of the loop. -/
theorem sweepPending_turn {pending : List (RequestId × CallId)} {i : Nat} {id : RequestId}
    {c : CallId} (events : List SweepEvent) (hget : pending[i]? = some (id, c)) :
    sweepPending answers pending i events =
      match finished (outcome answers id) with
      | some r => sweepPending answers (swapRemove pending i) i (events ++ [.poll id, .send c r])
      | none => sweepPending answers pending (i + 1) (events ++ [.poll id]) := by
  obtain ⟨hi, -⟩ := List.getElem?_eq_some_iff.mp hget
  have hswap := swapRemove?_of_getElem? hget
  rw [sweepPending, if_pos hi, hget]
  simp only
  cases ho : outcome answers id with
  | error e =>
    simp only [finished]
    split
    · rename_i h
      exact absurd (hswap.symm.trans h) (by simp)
    · rename_i reply rest h
      rw [hswap] at h
      cases h
      rfl
  | ok o =>
    cases o with
    | none => rfl
    | some resp =>
      simp only [finished]
      split
      · rename_i h
        exact absurd (hswap.symm.trans h) (by simp)
      · rename_i reply rest h
        rw [hswap] at h
        cases h
        rfl

/-- The sweep removes a pair whose outcome is finished. -/
def removes (p : RequestId × CallId) : Bool := (finished (outcome answers p.1)).isSome

theorem removes_of_some {p : RequestId × CallId} {r : Result Response}
    (h : finished (outcome answers p.1) = some r) : removes answers p = true := by
  unfold removes
  rw [h]
  rfl

theorem removes_of_none {p : RequestId × CallId} (h : finished (outcome answers p.1) = none) :
    ¬ removes answers p = true := by
  unfold removes
  rw [h]
  exact Bool.false_ne_true

/-- What a visit of a pair does. -/
def visitEvents (p : RequestId × CallId) : List SweepEvent :=
  .poll p.1 :: ((finished (outcome answers p.1)).map (SweepEvent.send p.2)).toList

/-- **The loop is the sweep**, and it does not panic. -/
theorem sweepPending_eq (pending : List (RequestId × CallId)) (i : Nat)
    (events : List SweepEvent) :
    sweepPending answers pending i events =
      some ((sweep (removes answers) pending i).2,
        events ++ (sweep (removes answers) pending i).1.flatMap (visitEvents answers)) := by
  induction hn : pending.length - i generalizing pending i events with
  | zero =>
    have hi : ¬ i < pending.length := by omega
    rw [sweepPending, sweep, if_neg hi, dif_neg hi]
    simp
  | succ n ih =>
    have hi : i < pending.length := by omega
    have hget : pending[i]? = some (pending[i].1, pending[i].2) := List.getElem?_eq_getElem hi
    rw [sweepPending_turn answers events hget, sweep, dif_pos hi]
    cases hf : finished (outcome answers pending[i].1) with
    | some r =>
      have hlen : (swapRemove pending i).length - i = n := by
        rw [swapRemove_length]
        omega
      rw [if_pos (removes_of_some answers hf)]
      simp [ih _ i _ hlen, visitEvents, hf]
    | none =>
      rw [if_neg (removes_of_none answers hf)]
      simp [ih pending (i + 1) _ (by omega), visitEvents, hf]

/-! ## What the sweep did -/

/-- The ids polled, in order. -/
def polls (events : List SweepEvent) : List RequestId :=
  events.filterMap fun
    | .poll id => some id
    | .send _ _ => none

/-- The replies sent, in order. -/
def sends (events : List SweepEvent) : List (CallId × Result Response) :=
  events.filterMap fun
    | .poll _ => none
    | .send reply r => some (reply, r)

theorem polls_visits (order : List (RequestId × CallId)) :
    polls (order.flatMap (visitEvents answers)) = order.map Prod.fst := by
  unfold polls
  induction order with
  | nil => rfl
  | cons p order ih =>
    rw [List.flatMap_cons, List.filterMap_append, ih]
    unfold visitEvents
    cases finished (outcome answers p.1) <;> rfl

theorem sends_visits (order : List (RequestId × CallId)) :
    sends (order.flatMap (visitEvents answers)) =
      order.filterMap fun p => (finished (outcome answers p.1)).map (p.2, ·) := by
  unfold sends
  induction order with
  | nil => rfl
  | cons p order ih =>
    rw [List.flatMap_cons, List.filterMap_append, ih, List.filterMap_cons]
    unfold visitEvents
    cases finished (outcome answers p.1) <;> rfl

/-- **The sweep visits each request once**: it ends without a panic, polls every id that was pending
once and no other, sends each finished outcome to the sender paired with its id, and leaves the pairs
whose outcome was none, up to order. -/
theorem sweep_once (pending : List (RequestId × CallId)) (h : (pending.map Prod.fst).Nodup) :
    ∃ kept events, sweepPending answers pending 0 [] = some (kept, events) ∧
      (∀ id, (polls events).count id = if id ∈ pending.map Prod.fst then 1 else 0) ∧
      (sends events).Perm
        (pending.filterMap fun p => (finished (outcome answers p.1)).map (p.2, ·)) ∧
      kept.Perm (pending.filter fun p => outcome answers p.1 = .ok none) := by
  obtain ⟨order, hperm, hsweep⟩ := sweep_split (removes answers) [] pending
  rw [List.nil_append, List.length_nil] at hsweep
  refine ⟨_, _, sweepPending_eq answers pending 0 [], ?_⟩
  rw [hsweep]
  refine ⟨?_, ?_, ?_⟩
  · intro id
    rw [List.nil_append, polls_visits, (hperm.map Prod.fst).count_eq]
    exact h.count
  · rw [List.nil_append, sends_visits]
    exact hperm.filterMap _
  · have hkeep : (fun p : RequestId × CallId => !removes answers p) =
        fun p => decide (outcome answers p.1 = .ok none) := by
      funext p
      simp only [← finished_eq_none]
      unfold removes
      cases finished (outcome answers p.1) <;> rfl
    rw [hkeep]
    exact hperm.filter _

/-- Two requests in flight, the first answered: one poll each, one reply, one kept. -/
theorem sweep_once_two :
    ∃ kept events,
      sweepPending (fun id => if id = 4 then (0, 9) else (-803, 0)) [(4, 0), (6, 1)] 0 [] =
        some (kept, events) ∧
      (∀ id, (polls events).count id = if id ∈ [4, 6] then 1 else 0) ∧
      (sends events).Perm [(0, .ok ⟨9⟩)] ∧ kept.Perm [(6, 1)] :=
  sweep_once _ [(4, 0), (6, 1)] (by decide)

/-! ## The owner thread -/

/-- The label of a poll. -/
def pollAct (p : RequestId × CallId) : Act := .poll p.1 (answers p.1).1 (answers p.1).2

/-- The reply cells after a list of replies. -/
def afterSends (replies : CallId → Oneshot (Result Response))
    (sent : List (CallId × Result Response)) : CallId → Oneshot (Result Response) :=
  sent.foldl (fun replies cr => Function.update replies cr.1 ((replies cr.1).send cr.2)) replies

/-- A poll that is finished answers its sender and removes the pair. -/
theorem step_poll_finished {s : State} {i : Nat} {p : RequestId × CallId} {r : Result Response}
    (hpc : s.pc = .sweep i) (hget : s.pending[i]? = some p)
    (hf : finished (outcome answers p.1) = some r) :
    machine.step s (pollAct answers p) =
      some { s.answer p.2 r with pending := swapRemove s.pending i } := by
  unfold outcome at hf
  simp only [machine, step, pollAct, hpc, hget, if_true]
  cases ho : pollRequest (answers p.1).1 (answers p.1).2 with
  | error e =>
    rw [ho] at hf
    cases hf
    rfl
  | ok o =>
    cases o with
    | none =>
      rw [ho] at hf
      exact absurd hf (by simp [finished])
    | some resp =>
      rw [ho] at hf
      cases hf
      rfl

/-- A poll that would block steps over the pair. -/
theorem step_poll_pending {s : State} {i : Nat} {p : RequestId × CallId} (hpc : s.pc = .sweep i)
    (hget : s.pending[i]? = some p) (hf : finished (outcome answers p.1) = none) :
    machine.step s (pollAct answers p) = some { s with pc := .sweep (i + 1) } := by
  have ho : pollRequest (answers p.1).1 (answers p.1).2 = .ok none := finished_eq_none.mp hf
  simp only [machine, step, pollAct, hpc, hget, if_true, ho]

/-- **The owner thread sweeps**: its poll steps, in the order of the sweep's visits, take it from an
index to the wait, with what the sweep keeps and the replies it sends. -/
theorem sweep_runFrom (s : State) (i : Nat) (hpc : s.pc = .sweep i) :
    machine.runFrom s
        ((sweep (removes answers) s.pending i).1.map (pollAct answers) ++ [.sweepEnd]) =
      some { s with
        pc := .wait
        pending := (sweep (removes answers) s.pending i).2
        replies := afterSends s.replies
          (sends ((sweep (removes answers) s.pending i).1.flatMap (visitEvents answers))) } := by
  induction hn : s.pending.length - i generalizing s i with
  | zero =>
    have hi : s.pending.length ≤ i := by omega
    rw [sweep, dif_neg (Nat.not_lt.mpr hi)]
    simp [Machine.runFrom, machine, step, hpc, hi, afterSends, sends]
  | succ n ih =>
    have hi : i < s.pending.length := by omega
    have hget : s.pending[i]? = some s.pending[i] := List.getElem?_eq_getElem hi
    rw [sweep, dif_pos hi]
    cases hf : finished (outcome answers s.pending[i].1) with
    | some r =>
      have hlen : (swapRemove s.pending i).length - i = n := by
        rw [swapRemove_length]
        omega
      have hrest := ih { s.answer s.pending[i].2 r with pending := swapRemove s.pending i } i hpc
        hlen
      rw [if_pos (removes_of_some answers hf), List.map_cons, List.cons_append]
      refine (machine.runFrom_cons).mpr ⟨_, step_poll_finished answers hpc hget hf, ?_⟩
      rw [hrest]
      simp [State.answer, afterSends, sends, visitEvents, hf]
    | none =>
      have hrest := ih { s with pc := .sweep (i + 1) } (i + 1) rfl (by simp; omega)
      rw [if_neg (removes_of_none answers hf), List.map_cons, List.cons_append]
      refine (machine.runFrom_cons).mpr ⟨_, step_poll_pending answers hpc hget hf, ?_⟩
      rw [hrest]
      simp [sends, visitEvents, hf]

end Nwep.Runtime.ClientLoop
