import Nwep.Lib.Custody
import Nwep.Lib.Fifo
import Nwep.Runtime.ClientRouting

/-!
# The response messages of the managed client

A response that a poll hands over owns a message of the C side, which its destructor frees
(`nwep/src/client.rs` 55-65, 146-151). In the managed client it goes from the owner thread into a
reply channel and from there to the caller (`nwep/src/runtime.rs` 464-478, 524-545), and on every leg
somebody may be gone: a reply whose receiver was dropped comes back to the owner and is dropped there,
a future that is dropped takes with it what its channel holds, and a caller drops its response when
it likes.

* `Act.free` is the caller dropping the `Response` it got; the other labels are those of the client.
* `handling` is what a step does with the messages. A message is named by the call it answers and
  its pointer.

Results:
* `keeps_step`: a message is in one reply channel or with one caller, from its poll to its free;
* **`messages_freed_once`**: whoever leaves when, each is freed once, and never under its caller.
-/

namespace Nwep.Runtime.ClientMessages

open Nwep.Client Nwep.Lib
open Nwep.Runtime.ClientLoop (CallId Dispatch)

/-- A message: the call it answers, and its pointer. -/
abbrev Message := CallId × Msg

structure State where
  client : ClientLoop.State
  freed  : CallId → Bool   -- the caller dropped what it got

inductive Act
  | client (a : ClientLoop.Act)
  | free (c : CallId)
  deriving DecidableEq

def step (s : State) : Act → Option State
  | .client a => (ClientLoop.step s.client a).map fun v => { s with client := v }
  | .free c =>
    match s.client.calls c with
    | .done (.ok _) =>
      if s.freed c then none else some { s with freed := Function.update s.freed c true }
    | _ => none

def machine : Machine State Act := ⟨⟨ClientLoop.init, fun _ => false⟩, step⟩

/-- The receiver of the reply channel is there. -/
def receives : Dispatch → Bool
  | .enqueued => true
  | .awaiting => true
  | _ => false

/-- What a step does with the messages. -/
def handling (s : State) : Act → List (CustodyAct Message)
  | .client (.poll _ rc out) =>
    match s.client.pc with
    | .sweep i =>
      match s.client.pending[i]?, pollRequest rc out with
      | some (_, c), .ok (some resp) =>
        -- `let _ = reply.send(Ok(resp))`
        .acquire (c, resp.msg) ::
          if receives (s.client.calls c) then [] else [.release (c, resp.msg)]
      | _, _ => []
    | _ => []
  -- the future is dropped, and its receiver with it
  | .client (.cancel c) =>
    match s.client.calls c, s.client.replies c with
    | .awaiting, .sent (.ok resp) => [.release (c, resp.msg)]
    | _, _ => []
  | .client _ => []
  | .free c =>
    match s.client.calls c with
    | .done (.ok resp) => [.release (c, resp.msg)]
    | _ => []

/-- What a run did with them. -/
def handled (acts : List Act) : List (CustodyAct Message) :=
  (machine.notes (fun s a => some (handling s a)) machine.init acts).flatten

theorem handled_snoc {acts : List Act} {s : State} (h : machine.run acts = some s) (a : Act) :
    handled (acts ++ [a]) = handled acts ++ handling s a := by
  rw [handled, machine.notes_snoc h, List.flatten_append]
  simp [handled]

/-- Where a message is: in the reply channel of its call, or with the caller. -/
def Held (s : State) (m : Message) : Prop :=
  match s.client.calls m.1 with
  | .enqueued => s.client.replies m.1 = .sent (.ok ⟨m.2⟩)
  | .awaiting => s.client.replies m.1 = .sent (.ok ⟨m.2⟩)
  | .done r => r = .ok ⟨m.2⟩ ∧ s.freed m.1 = false
  | _ => False

/-! ## Custody -/

/-- Custody agrees with where the messages are. -/
structure Keeps (s : State) (w : Custody Message) : Prop where
  live    : ∀ m, m ∈ w.live ↔ Held s m
  gone    : ∀ m ∈ w.gone, s.client.replies m.1 ≠ .waiting
  borrows : w.borrows = []
  freed   : ∀ c, s.freed c = true → ∃ resp, s.client.calls c = .done (.ok resp)

/-- A message that is held was written to its channel. -/
theorem written_of_held {s : State} (hr : ClientLoop.machine.Reachable s.client) {m : Message}
    (h : Held s m) : s.client.replies m.1 = .sent (.ok ⟨m.2⟩) := by
  unfold Held at h
  have hl := ClientLoop.reachable_ledger hr
  cases hc : s.client.calls m.1 with
  | enqueued | awaiting =>
    rw [hc] at h
    exact h
  | done r =>
    rw [hc] at h
    obtain ⟨rfl, -⟩ := h
    have hd : (ClientLoop.ledger s.client).caller m.1 = .done (.ok ⟨m.2⟩) := by
      simp [ClientLoop.ledger, hc, Dispatch.caller]
    exact (hl.settled _ _ hd).resolve_right (by simp [ClientLoop.closed])
  | idle | sending _ | cancelled =>
    rw [hc] at h
    exact h.elim

/-- A channel that was written stays written. -/
theorem written_step {s t : ClientLoop.State} {a : ClientLoop.Act} (h : ClientLoop.Step s a t)
    {c : CallId} (hc : s.replies c ≠ .waiting) : t.replies c ≠ .waiting := by
  have hanswer : ∀ (b : CallId) (r : Result Response), (s.answer b r).replies c ≠ .waiting := by
    intro b r
    unfold ClientLoop.State.answer
    by_cases hb : c = b
    · subst hb
      simpa using Oneshot.send_ne_waiting (s.replies c) r
    · simpa [Function.update_of_ne hb] using hc
  cases h with
  | submitErr _ _ _ | pollReady _ _ _ | pollErr _ _ _ | failNext _ _ => exact hanswer _ _
  | dropRx _ =>
    show (if c ∈ s.cmds.queue.map (·.reply) then (s.replies c).drop else s.replies c) ≠ .waiting
    split
    · exact Oneshot.drop_ne_waiting _
    · exact hc
  | _ => exact hc

/-- Who is answered is in neither place yet. -/
theorem not_held_of_waiting {s : State} (hr : ClientLoop.machine.Reachable s.client) {m : Message}
    (hw : s.client.replies m.1 = .waiting) : ¬ Held s m := by
  intro h
  have hsent := written_of_held hr h
  rw [hw] at hsent
  exact absurd hsent (by simp)

section Custody

variable {s t : State} {w : Custody Message}

/-- A step that moves no message. -/
theorem Keeps.still (hk : Keeps s w) (hheld : ∀ m, Held t m ↔ Held s m)
    (hwritten : ∀ c, s.client.replies c ≠ .waiting → t.client.replies c ≠ .waiting)
    (hfreed : ∀ c, t.freed c = true → ∃ resp, t.client.calls c = .done (.ok resp)) : Keeps t w where
  live m := (hk.live m).trans (hheld m).symm
  gone m hm := hwritten _ (hk.gone m hm)
  borrows := hk.borrows
  freed := hfreed

/-- A message that is held is released, and is nowhere then. -/
theorem Keeps.release (hk : Keeps s w) (hn : w.live.Nodup) {m : Message} (hm : Held s m)
    (hheld : ∀ k, Held t k ↔ k ≠ m ∧ Held s k)
    (hwritten : ∀ c, s.client.replies c ≠ .waiting → t.client.replies c ≠ .waiting)
    (hsent : s.client.replies m.1 ≠ .waiting)
    (hfreed : ∀ c, t.freed c = true → ∃ resp, t.client.calls c = .done (.ok resp)) :
    ∃ v, (Custody.machine Message).runFrom w [.release m] = some v ∧ Keeps t v := by
  have hfree : ∀ p ∈ w.borrows, p.2 = m → p.1 ∉ w.live := by
    rw [hk.borrows]
    exact fun p hp => absurd hp List.not_mem_nil
  obtain ⟨v, hv, hlive, hgone, hborrows⟩ := Custody.step_release hn ((hk.live m).mpr hm) hfree
  refine ⟨v, (Custody.machine Message).runFrom_cons.mpr ⟨v, hv, rfl⟩, fun k => ?_, fun k hmem => ?_,
    hborrows.trans hk.borrows, hfreed⟩
  · rw [hlive, hk.live, hheld]
  · rw [hgone] at hmem
    rcases List.mem_cons.mp hmem with rfl | hmem
    · exact hwritten _ hsent
    · exact hwritten _ (hk.gone k hmem)

/-- Only one call is touched. -/
theorem held_of_ne {c : CallId} (hcalls : ∀ b, b ≠ c → t.client.calls b = s.client.calls b)
    (hreplies : ∀ b, b ≠ c → t.client.replies b = s.client.replies b)
    (hfreed : ∀ b, b ≠ c → t.freed b = s.freed b) {m : Message} (hm : m.1 ≠ c) :
    Held t m ↔ Held s m := by
  unfold Held
  rw [hcalls _ hm, hreplies _ hm, hfreed _ hm]

/-- One future moves, and its message, if there is one, stays where it is. -/
theorem Keeps.callMoves (hk : Keeps s w) {a : ClientLoop.Act} {v : ClientLoop.State} {c : CallId}
    {d : Dispatch} (hst : ClientLoop.Step s.client a v)
    (hcalls : v.calls = Function.update s.client.calls c d)
    (hreplies : v.replies = s.client.replies) (hc : ∀ r, s.client.calls c ≠ .done r)
    (hheld : ∀ x, Held { s with client := v } (c, x) ↔ Held s (c, x)) :
    Keeps { s with client := v } w := by
  have hne : ∀ b, b ≠ c → v.calls b = s.client.calls b := by
    intro b hb
    rw [hcalls, Function.update_of_ne hb]
  refine hk.still (fun m => ?_) (fun b => written_step hst) fun b hb => ?_
  · by_cases hm : m.1 = c
    · obtain ⟨b, x⟩ := m
      obtain rfl : b = c := hm
      exact hheld x
    · exact held_of_ne (s := s) (t := { s with client := v }) hne (fun b _ => by rw [hreplies])
        (fun _ _ => rfl) hm
  · obtain ⟨resp, hresp⟩ := hk.freed b hb
    have hbc : b ≠ c := by
      rintro rfl
      exact hc _ hresp
    exact ⟨resp, (hne b hbc).trans hresp⟩

/-- The owner answers a call with an error. -/
theorem Keeps.answered (hk : Keeps s w) (hr : ClientLoop.machine.Reachable s.client)
    {a : ClientLoop.Act} {v : ClientLoop.State} {c : CallId} {e : Error}
    (hv : ClientLoop.machine.Reachable v) (hst : ClientLoop.Step s.client a v)
    (hheld : c ∈ ClientLoop.held s.client) (hcalls : v.calls = s.client.calls)
    (hreplies : v.replies = (s.client.answer c (.error e)).replies) :
    Keeps { s with client := v } w := by
  have hw : s.client.replies c = .waiting := (ClientLoop.reachable_ledger hr).unsent c hheld
  refine hk.still (fun m => ?_) (fun b => written_step hst) fun b hb => ?_
  · by_cases hm : m.1 = c
    · refine iff_of_false (fun h => ?_) (not_held_of_waiting hr (hm ▸ hw))
      have hsent := written_of_held (s := { s with client := v }) hv h
      rw [hm] at hsent
      simp [hreplies, ClientLoop.State.answer, hw] at hsent
    · refine held_of_ne (s := s) (t := { s with client := v }) (fun b _ => by rw [hcalls])
        (fun b hb => ?_) (fun _ _ => rfl) hm
      simp [hreplies, ClientLoop.State.answer, Function.update_of_ne hb]
  · obtain ⟨resp, hresp⟩ := hk.freed b hb
    exact ⟨resp, by rw [hcalls]; exact hresp⟩

/-- A poll hands over the response of a call: it goes to the reply channel, or comes back from it. -/
theorem Keeps.polled (hk : Keeps s w) (hn : w.live.Nodup)
    (hr : ClientLoop.machine.Reachable s.client) {a : ClientLoop.Act} {v : ClientLoop.State}
    {c : CallId} {resp : Response} (hst : ClientLoop.Step s.client a v)
    (hheld : c ∈ ClientLoop.held s.client) (hcalls : v.calls = s.client.calls)
    (hreplies : v.replies = (s.client.answer c (.ok resp)).replies) :
    ∃ u, (Custody.machine Message).runFrom w (.acquire (c, resp.msg) ::
        if receives (s.client.calls c) then [] else [.release (c, resp.msg)]) = some u ∧
      Keeps { s with client := v } u := by
  have hl := ClientLoop.reachable_ledger hr
  have hw : s.client.replies c = .waiting := hl.unsent c hheld
  have hcell : v.replies c = .sent (.ok resp) := by
    simp [hreplies, ClientLoop.State.answer, hw]
  have hne : ∀ m : Message, m.1 ≠ c → (Held { s with client := v } m ↔ Held s m) := by
    intro m hm
    refine held_of_ne (s := s) (t := { s with client := v }) (fun b _ => by rw [hcalls])
      (fun b hb => ?_) (fun _ _ => rfl) hm
    simp [hreplies, ClientLoop.State.answer, Function.update_of_ne hb]
  have hno : ¬ Held s (c, resp.msg) := not_held_of_waiting hr hw
  have hlive : (c, resp.msg) ∉ w.live := fun h => hno ((hk.live _).mp h)
  have hacquire := Custody.step_acquire hlive fun h => hk.gone _ h hw
  have hfreed : ∀ b, s.freed b = true → ∃ resp, v.calls b = .done (.ok resp) := by
    rw [hcalls]
    exact hk.freed
  cases hrec : receives (s.client.calls c) with
  | true =>
    refine ⟨_, (Custody.machine Message).runFrom_cons.mpr ⟨_, hacquire, rfl⟩, fun m => ?_,
      fun m hm => written_step hst (hk.gone m hm), hk.borrows, hfreed⟩
    rw [List.mem_cons, hk.live]
    by_cases hm : m.1 = c
    · obtain ⟨b, x⟩ := m
      obtain rfl : b = c := hm
      have hnot : ¬ Held s (b, x) := not_held_of_waiting hr hw
      have hx : Held { s with client := v } (b, x) ↔ resp = ⟨x⟩ := by
        unfold Held
        simp only [hcalls, hcell]
        cases hd : s.client.calls b with
        | enqueued | awaiting => simp
        | idle | sending _ | done _ | cancelled =>
          rw [hd] at hrec
          exact absurd hrec (by simp [receives])
      rw [hx, or_iff_left hnot, Prod.mk.injEq, and_iff_right rfl]
      exact ⟨fun h => by rw [h], fun h => by rw [h]⟩
    · rw [hne m hm, or_iff_right fun heq => hm (congrArg Prod.fst heq)]
  | false =>
    have hgone : s.client.calls c = .cancelled := by
      have hcaller := hl.handed c hheld
      simp only [ClientLoop.ledger, Function.comp_apply] at hcaller
      cases hd : s.client.calls c with
      | cancelled => rfl
      | enqueued | awaiting =>
        rw [hd] at hrec
        exact absurd hrec (by simp [receives])
      | idle | sending _ | done _ =>
        rw [hd] at hcaller
        exact absurd hcaller (by simp [Dispatch.caller])
    have hfree : ∀ p ∈ w.borrows, p.2 = (c, resp.msg) → p.1 ∉ (c, resp.msg) :: w.live := by
      rw [hk.borrows]
      exact fun p hp => absurd hp List.not_mem_nil
    obtain ⟨u, hu, hulive, hugone, huborrows⟩ := Custody.step_release
      (w := { w with live := (c, resp.msg) :: w.live }) (List.nodup_cons.mpr ⟨hlive, hn⟩)
      List.mem_cons_self hfree
    refine ⟨u, (Custody.machine Message).runFrom_cons.mpr ⟨_, hacquire,
      (Custody.machine Message).runFrom_cons.mpr ⟨u, hu, rfl⟩⟩, fun m => ?_, fun m hm => ?_,
      huborrows.trans hk.borrows, hfreed⟩
    · have hback : m ∈ u.live ↔ m ∈ w.live := by
        rw [hulive, List.mem_cons]
        constructor
        · rintro ⟨hmc, h⟩
          exact h.resolve_left hmc
        · exact fun h => ⟨fun heq => hlive (heq ▸ h), Or.inr h⟩
      rw [hback, hk.live]
      by_cases hm : m.1 = c
      · refine iff_of_false (not_held_of_waiting hr (hm ▸ hw)) fun h => ?_
        unfold Held at h
        rw [hcalls, hm, hgone] at h
        exact h
      · exact (hne m hm).symm
    · rw [hugone] at hm
      rcases List.mem_cons.mp hm with rfl | hm
      · simp [hcell]
      · exact written_step hst (hk.gone m hm)

end Custody

/-- A future is dropped, and its receiver with it. -/
theorem cancel_step {s : State} {c : CallId} {w : Custody Message}
    (hr : ClientLoop.machine.Reachable s.client) (hn : w.live.Nodup) (hk : Keeps s w)
    (hs : ClientLoop.Step s.client (.cancel c) (s.client.setCall c .cancelled))
    (hc : (∃ req, s.client.calls c = .sending req) ∨ s.client.calls c = .awaiting) :
    ∃ u, (Custody.machine Message).runFrom w (handling s (.client (.cancel c))) = some u ∧
      Keeps { s with client := s.client.setCall c .cancelled } u := by
  by_cases hm : ∃ resp, s.client.calls c = .awaiting ∧ s.client.replies c = .sent (.ok resp)
  · obtain ⟨resp, hcall, hcell⟩ := hm
    have hheld : Held s (c, resp.msg) := by simp [Held, hcall, hcell]
    have hhandling : handling s (.client (.cancel c)) = [.release (c, resp.msg)] := by
      simp [handling, hcall, hcell]
    rw [hhandling]
    refine hk.release hn hheld (fun k => ?_) (fun b => written_step hs) (by simp [hcell])
      fun b hb => ?_
    · by_cases hkc : k.1 = c
      · obtain ⟨b, x⟩ := k
        obtain rfl : b = c := hkc
        refine iff_of_false (fun h => ?_) fun h => h.1 ?_
        · simp [Held, ClientLoop.State.setCall] at h
        · have hsent := written_of_held hr h.2
          rw [hcell] at hsent
          obtain rfl := Except.ok.inj (Oneshot.sent.inj hsent)
          rfl
      · rw [and_iff_right fun heq => hkc (congrArg Prod.fst heq)]
        exact held_of_ne (s := s) (t := { s with client := s.client.setCall c .cancelled })
          (fun b hb => Function.update_of_ne hb _ _) (fun _ _ => rfl) (fun _ _ => rfl) hkc
    · obtain ⟨r, hr⟩ := hk.freed b hb
      have hbc : b ≠ c := by
        rintro rfl
        rw [hcall] at hr
        exact absurd hr (by simp)
      exact ⟨r, by simpa [ClientLoop.State.setCall, Function.update_of_ne hbc] using hr⟩
  · have hno : ∀ x, ¬ Held s (c, x) := by
      intro x h
      rcases hc with ⟨req, hc⟩ | hc
      · simp [Held, hc] at h
      · exact hm ⟨⟨x⟩, hc, written_of_held hr h⟩
    have hhandling : handling s (.client (.cancel c)) = [] := by
      rcases hc with ⟨req, hc⟩ | hc
      · simp [handling, hc]
      · cases hcell : s.client.replies c with
        | waiting | dropped => simp [handling, hc, hcell]
        | sent r =>
          cases r with
          | ok resp => exact absurd ⟨resp, hc, hcell⟩ hm
          | error e => simp [handling, hc, hcell]
    rw [hhandling]
    refine ⟨w, rfl, hk.callMoves hs rfl rfl (fun r hdone => ?_) fun x => ?_⟩
    · rcases hc with ⟨req, hc⟩ | hc <;> rw [hc] at hdone <;> exact absurd hdone (by simp)
    · refine iff_of_false (fun h => ?_) (hno x)
      simp [Held, ClientLoop.State.setCall] at h

theorem client_step {s : State} {a : ClientLoop.Act} {v : ClientLoop.State} {w : Custody Message}
    (hr : ClientLoop.machine.Reachable s.client) (hn : w.live.Nodup) (hk : Keeps s w)
    (hst : ClientLoop.step s.client a = some v) :
    ∃ u, (Custody.machine Message).runFrom w (handling s (.client a)) = some u ∧
      Keeps { s with client := v } u := by
  have hl := ClientLoop.reachable_ledger hr
  have hv : ClientLoop.machine.Reachable v := ClientLoop.machine.reachable_step hr hst
  have hs := ClientLoop.step_inv hst
  have hunsent : ∀ {c req}, s.client.calls c = .sending req → s.client.replies c = .waiting := by
    intro c req hc
    exact hl.fresh c (by simp [ClientLoop.ledger, hc, Dispatch.caller])
  cases ClientLoop.step_inv hst with
  | @start req ha =>
    have hid := (ClientLoop.reachable_shape hr).fresh _ (Nat.le_refl s.client.started)
    refine ⟨w, rfl, hk.callMoves hs rfl rfl (by simp [hid]) fun x => ?_⟩
    simp [Held, ClientLoop.State.setCall, hid]
  | send hc hp =>
    refine ⟨w, rfl, hk.callMoves hs rfl rfl (by simp [hc]) fun x => ?_⟩
    simp [Held, ClientLoop.State.setCall, hc, hunsent hc]
  | sendClosed hc _ =>
    refine ⟨w, rfl, hk.callMoves hs rfl rfl (by simp [hc]) fun x => ?_⟩
    simp [Held, ClientLoop.State.setCall, hc]
  | wake hc =>
    refine ⟨w, rfl, hk.callMoves hs rfl rfl (by simp [hc]) fun x => ?_⟩
    simp [Held, ClientLoop.State.setCall, hc]
  | @reply c r hc hrecv =>
    refine ⟨w, rfl, hk.callMoves hs rfl rfl (by simp [hc]) fun x => ?_⟩
    have hfreed : s.freed c = false := by
      by_contra hf
      obtain ⟨resp, hresp⟩ := hk.freed c (by simpa using hf)
      rw [hc] at hresp
      exact absurd hresp (by simp)
    simp only [Held, ClientLoop.State.setCall, Function.update_self, hc, hfreed, and_true]
    cases hcell : s.client.replies c with
    | waiting =>
      rw [hcell] at hrecv
      exact absurd hrecv (by simp [Oneshot.recv])
    | sent a =>
      rw [hcell] at hrecv
      obtain rfl := Option.some.inj hrecv
      simp
    | dropped =>
      rw [hcell] at hrecv
      obtain rfl := Option.some.inj hrecv
      simp
  | cancel hc => exact cancel_step hr hn hk hs hc
  | @submitErr cmd rc id ch e _ hq _ =>
    exact ⟨w, rfl, hk.answered hr hv hs (by rw [ClientLoop.held_pop hq]; simp) rfl rfl⟩
  | @pollReady i id c rc out resp hpc hi hp =>
    have hhandling : handling s (.client (.poll id rc out)) = .acquire (c, resp.msg) ::
        if receives (s.client.calls c) then [] else [.release (c, resp.msg)] := by
      simp [handling, hpc, hi, hp]
    rw [hhandling]
    exact hk.polled hn hr hs (by rw [ClientLoop.held_swapRemove hi]; simp) rfl rfl
  | @pollNone i id c rc out hpc hi hp =>
    have hhandling : handling s (.client (.poll id rc out)) = [] := by
      simp [handling, hpc, hi, hp]
    rw [hhandling]
    exact ⟨w, rfl, hk.still (fun _ => Iff.rfl) (fun b => written_step hs) hk.freed⟩
  | @pollErr i id c rc out e hpc hi hp =>
    have hhandling : handling s (.client (.poll id rc out)) = [] := by
      simp [handling, hpc, hi, hp]
    rw [hhandling]
    exact ⟨w, rfl, hk.answered hr hv hs (by rw [ClientLoop.held_swapRemove hi]; simp) rfl rfl⟩
  | @failNext id c rest _ hp =>
    exact ⟨w, rfl, hk.answered hr hv hs (by simp [ClientLoop.held, hp]) rfl rfl⟩
  | dropRx _ =>
    refine ⟨w, rfl, hk.still (fun m => ?_) (fun b => written_step hs) hk.freed⟩
    have hdrop : ∀ (o : Oneshot (Result Response)) (r : Result Response),
        o.drop = .sent r ↔ o = .sent r := by
      intro o r
      cases o <;> simp [Oneshot.drop]
    unfold Held
    cases s.client.calls m.1 with
    | enqueued | awaiting =>
      by_cases hq : m.1 ∈ s.client.cmds.queue.map (·.reply)
      · simp only [if_pos hq, hdrop]
      · simp only [if_neg hq]
    | _ => exact Iff.rfl
  | _ => exact ⟨w, rfl, hk.still (fun _ => Iff.rfl) (fun b => written_step hs) hk.freed⟩

/-- The caller drops the response it got. -/
theorem free_step {s t : State} {c : CallId} {w : Custody Message}
    (hr : ClientLoop.machine.Reachable s.client) (hn : w.live.Nodup) (hk : Keeps s w)
    (hst : step s (.free c) = some t) :
    t.client = s.client ∧
      ∃ u, (Custody.machine Message).runFrom w (handling s (.free c)) = some u ∧ Keeps t u := by
  simp only [step] at hst
  split at hst
  · rename_i resp hc
    split at hst
    · exact absurd hst (by simp)
    · rename_i hfreed
      obtain rfl := Option.some.inj hst
      have hheld : Held s (c, resp.msg) := by simpa [Held, hc] using hfreed
      have hhandling : handling s (.free c) = [.release (c, resp.msg)] := by simp [handling, hc]
      rw [hhandling]
      refine ⟨rfl, hk.release hn hheld (fun k => ?_) (fun _ h => h) ?_ fun b hb => ?_⟩
      · by_cases hkc : k.1 = c
        · obtain ⟨b, x⟩ := k
          obtain rfl : b = c := hkc
          refine iff_of_false (fun h => ?_) fun h => h.1 ?_
          · simp [Held, hc] at h
          · have hresp : resp = ⟨x⟩ := by
              have hboth : resp = ⟨x⟩ ∧ s.freed b = false := by simpa [Held, hc] using h.2
              exact hboth.1
            rw [hresp]
        · rw [and_iff_right fun heq => hkc (congrArg Prod.fst heq)]
          exact held_of_ne (s := s) (t := { s with freed := Function.update s.freed c true })
            (fun _ _ => rfl) (fun _ _ => rfl) (fun b hb => Function.update_of_ne hb _ _) hkc
      · rw [written_of_held hr hheld]
        simp
      · by_cases hbc : b = c
        · exact ⟨resp, by rw [hbc]; exact hc⟩
        · exact hk.freed b (by simpa [Function.update_of_ne hbc] using hb)
  · exact absurd hst (by simp)

/-! ## Whole runs -/

/-- **One step** moves the messages it moves in order. -/
theorem keeps_step {s t : State} {a : Act} {w : Custody Message}
    (hr : ClientLoop.machine.Reachable s.client) (hn : w.live.Nodup) (hk : Keeps s w)
    (hst : step s a = some t) :
    ClientLoop.machine.Reachable t.client ∧
      ∃ u, (Custody.machine Message).runFrom w (handling s a) = some u ∧ Keeps t u := by
  cases a with
  | client a =>
    obtain ⟨v, hv, rfl⟩ := Option.map_eq_some_iff.mp hst
    exact ⟨ClientLoop.machine.reachable_step hr hv, client_step hr hn hk hv⟩
  | free c =>
    obtain ⟨hclient, hu⟩ := free_step hr hn hk hst
    exact ⟨hclient ▸ hr, hu⟩

theorem keeps_run {acts : List Act} {s : State} (h : machine.run acts = some s) :
    ClientLoop.machine.Reachable s.client ∧
      ∃ w, (Custody.machine Message).run (handled acts) = some w ∧ Keeps s w := by
  refine machine.run_induction (P := fun acts s => ClientLoop.machine.Reachable s.client ∧
    ∃ w, (Custody.machine Message).run (handled acts) = some w ∧ Keeps s w) ?_ ?_ h
  · refine ⟨⟨[], rfl⟩, _, rfl, fun m => ?_, ?_, rfl, ?_⟩
    · simp [machine, Custody.machine, Held, ClientLoop.init]
    · simp [Custody.machine]
    · simp [machine]
  · rintro acts s a t hrun ⟨hr, w, hw, hk⟩ hst
    obtain ⟨hr', u, hu, hk'⟩ := keeps_step hr (Custody.recorded_run hw).nodup hk hst
    refine ⟨hr', u, ?_, hk'⟩
    rw [handled_snoc hrun]
    exact (Custody.machine Message).run_append.mpr ⟨w, hw, hu⟩

instance (s : State) (m : Message) : Decidable (Held s m) := by
  unfold Held
  split <;> infer_instance

/-- What becomes of the messages the polls of a run handed over. -/
structure FreedOnce (acts : List Act) (s : State) : Prop where
  /-- A message is handed over once, and freed once unless it is still held. -/
  once : ∀ m, .acquire m ∈ handled acts → (handled acts).count (.acquire m) = 1 ∧
    (handled acts).count (.release m) = if Held s m then 0 else 1
  /-- Nothing else is freed. -/
  only : ∀ m, .release m ∈ handled acts → .acquire m ∈ handled acts
  /-- A response that its caller has not dropped is not freed under it. -/
  kept : ∀ c resp, s.client.calls c = .done (.ok resp) → s.freed c = false →
    .acquire (c, resp.msg) ∈ handled acts ∧ .release (c, resp.msg) ∉ handled acts
  /-- Once no caller waits and every response that was returned was dropped, all are freed. -/
  all : (∀ c, receives (s.client.calls c) = false) →
    (∀ c resp, s.client.calls c = .done (.ok resp) → s.freed c = true) →
    ∀ m, (handled acts).count (.release m) = (handled acts).count (.acquire m)

/-- **Every response message is freed once**, whoever is dropped when. -/
theorem messages_freed_once {acts : List Act} {s : State} (h : machine.run acts = some s) :
    FreedOnce acts s := by
  obtain ⟨hr, w, hw, hk⟩ := keeps_run h
  have hrec := Custody.recorded_run hw
  have hheld : ∀ m, Held s m → (handled acts).count (.release m) = 0 ∧
      (handled acts).count (.acquire m) = 1 :=
    fun m hm => Custody.released_of_live hw ((hk.live m).mpr hm)
  have hthere : ∀ m, .acquire m ∈ handled acts → m ∈ w.live ∨ m ∈ w.gone := by
    intro m hm
    by_contra hno
    have hpos := List.count_pos_iff.mpr hm
    rw [hrec.acquired, if_neg hno] at hpos
    exact Nat.lt_irrefl 0 hpos
  constructor
  · intro m hm
    refine ⟨by rw [hrec.acquired, if_pos (hthere m hm)], ?_⟩
    split
    · rename_i h
      exact (hheld m h).1
    · rename_i h
      have hgone : m ∈ w.gone := (hthere m hm).resolve_left fun hl => h ((hk.live m).mp hl)
      rw [hrec.released, if_pos hgone]
  · intro m hm
    have hgone : m ∈ w.gone := by
      by_contra hno
      have hpos := List.count_pos_iff.mpr hm
      rw [hrec.released, if_neg hno] at hpos
      exact Nat.lt_irrefl 0 hpos
    have hcount := hrec.acquired m
    rw [if_pos (Or.inr hgone)] at hcount
    exact List.count_pos_iff.mp (by omega)
  · intro c resp hc hfreed
    obtain ⟨hr0, ha1⟩ := hheld (c, resp.msg) (by simp [Held, hc, hfreed])
    exact ⟨List.count_pos_iff.mp (by omega), List.count_eq_zero.mp hr0⟩
  · intro hwait hdropped
    have hnil : w.live = [] := by
      refine List.eq_nil_iff_forall_not_mem.mpr fun m hm => ?_
      have h := (hk.live m).mp hm
      unfold Held at h
      have hrecv := hwait m.1
      cases hc : s.client.calls m.1 with
      | enqueued | awaiting =>
        rw [hc] at hrecv
        exact absurd hrecv (by simp [receives])
      | done r =>
        rw [hc] at h
        obtain ⟨rfl, hkept⟩ := h
        rw [hdropped _ _ hc] at hkept
        exact absurd hkept (by simp)
      | idle | sending _ | cancelled =>
        rw [hc] at h
        exact h
    exact Custody.released_eq_acquired hw hnil

/-- Three calls are answered: the first caller drops its response, the second future is dropped with
its response in the channel, the third before its response is there. -/
def leftRun : List Act :=
  let get : Request := ⟨.read, [47], [], []⟩
  [.start 0 get, .send 0, .wake 0, .start 1 get, .send 1, .wake 1, .start 2 get, .send 2,
    .wake 2, .submit ⟨get, 0⟩ 0 7, .submit ⟨get, 1⟩ 0 8, .submit ⟨get, 2⟩ 0 9, .empty, .tick 0 1,
    .cancel 2, .poll 7 0 42, .poll 9 0 44, .poll 8 0 43, .reply 0, .cancel 1].map .client
    ++ [.free 0]

theorem messages_freed_once_leftRun : ∃ s, machine.run leftRun = some s ∧ FreedOnce leftRun s ∧
    handled leftRun = [.acquire (0, 42), .acquire (2, 44), .release (2, 44), .acquire (1, 43),
      .release (1, 43), .release (0, 42)] :=
  ⟨_, rfl, messages_freed_once rfl, rfl⟩

end Nwep.Runtime.ClientMessages
