import Nwep.Runtime.ClientReplies

/-!
# Exactly-once, correctly routed replies

What a caller of the managed client gets, over every interleaving and every C client.

* A command is *in flight* under an id when the history holds its submission returning that id, and
  no later label hands the id out again or retires it (`InFlight`).
* A response is *routed* to a call when the history polls it for an id under which that call's own
  command is in flight (`Routed`).

Results:
* `routing_run`: every entry of `pending` is in flight, every response in a reply cell is routed;
* `submits_run`: a command is submitted at most once;
* `result_runFrom`: the result of a call is final;
* `exit_runFrom`: what is queued or in flight when the owner leaves its loop ends as NetworkClosed;
* **`dispatch_exactly_once`**: the four together, with every live call resolved once the owner has
  returned.
-/

namespace Nwep.Runtime.ClientLoop

open Nwep.Client Nwep.Lib

/-! ## The history of an id -/

/-- The label hands out `id`: a submission that returns it. -/
def Act.Issues (id : RequestId) : Act → Prop
  | .submit cmd rc id' => submitRequest cmd.req rc id' = .ok id
  | _ => False

/-- The label retires `id`: a poll of it that finds it finished or failed. -/
def Act.Retires (id : RequestId) : Act → Prop
  | .poll id' rc out => id' = id ∧ pollRequest rc out ≠ .ok none
  | _ => False

/-- The label submits the command of call `c`. -/
def Act.submitsFor (c : CallId) : Act → Bool
  | .submit cmd _ _ => cmd.reply == c
  | _ => false

/-- How often the command of call `c` was submitted. -/
def submits (c : CallId) (acts : List Act) : Nat := acts.countP (Act.submitsFor c)

/-- The command is in flight under `id` at the end of the history, and its call was started with
this very request. -/
def InFlight (acts : List Act) (cmd : ClientCommand) (id : RequestId) : Prop :=
  ∃ pre rc post, acts = pre ++ .submit cmd rc id :: post ∧ .start cmd.reply cmd.req ∈ pre ∧
    submitRequest cmd.req rc id = .ok id ∧ ∀ a ∈ post, ¬ a.Issues id ∧ ¬ a.Retires id

/-- `resp` is what a poll returned for the id of call `c`'s own submission. -/
def Routed (acts : List Act) (c : CallId) (resp : Response) : Prop :=
  ∃ cmd id pre rc out post, acts = pre ++ .poll id rc out :: post ∧ cmd.reply = c ∧
    InFlight pre cmd id ∧ pollRequest rc out = .ok (some resp)

theorem InFlight.snoc {acts : List Act} {cmd : ClientCommand} {id : RequestId}
    (h : InFlight acts cmd id) {a : Act} (ha : ¬ a.Issues id ∧ ¬ a.Retires id) :
    InFlight (acts ++ [a]) cmd id := by
  obtain ⟨pre, rc, post, rfl, hst, hs, hp⟩ := h
  refine ⟨pre, rc, post ++ [a], by simp, hst, hs, fun b hb => ?_⟩
  rcases List.mem_append.mp hb with hb | hb
  · exact hp b hb
  · rw [List.mem_singleton.mp hb]
    exact ha

theorem Routed.snoc {acts : List Act} {c : CallId} {resp : Response} (h : Routed acts c resp)
    (a : Act) : Routed (acts ++ [a]) c resp := by
  obtain ⟨cmd, id, pre, rc, out, post, rfl, hc, hf, hp⟩ := h
  exact ⟨cmd, id, pre, rc, out, post ++ [a], by simp, hc, hf, hp⟩

/-! ## Routing -/

/-- What the history knows of the state: where queued and pending commands come from, and where a
response in a reply cell does. -/
structure Routing (acts : List Act) (s : State) : Prop where
  ids      : (s.pending.map Prod.fst).Nodup
  sending  : ∀ c req, s.calls c = .sending req → .start c req ∈ acts
  queued   : ∀ cmd ∈ s.cmds.queue, .start cmd.reply cmd.req ∈ acts
  pending  : ∀ e ∈ s.pending, ∃ cmd, cmd.reply = e.2 ∧ InFlight acts cmd e.1
  answered : ∀ c resp, s.replies c = .sent (.ok resp) → Routed acts c resp

section Keep

variable {acts : List Act} {s : State}

/-- A request that was pending and is neither issued nor retired now is still in flight. -/
theorem Routing.flying (h : Routing acts s) {e : RequestId × CallId} (he : e ∈ s.pending) {a : Act}
    (ha : ¬ a.Issues e.1 ∧ ¬ a.Retires e.1) :
    ∃ cmd, cmd.reply = e.2 ∧ InFlight (acts ++ [a]) cmd e.1 := by
  obtain ⟨cmd, hcmd, hf⟩ := h.pending e he
  exact ⟨cmd, hcmd, hf.snoc ha⟩

theorem Routing.still_sending (h : Routing acts s) (a : Act) (c : CallId) (req : Request)
    (hc : s.calls c = .sending req) : .start c req ∈ acts ++ [a] :=
  List.mem_append_left _ (h.sending c req hc)

theorem Routing.still_queued (h : Routing acts s) (a : Act) {cmd : ClientCommand}
    (hcmd : cmd ∈ s.cmds.queue) : .start cmd.reply cmd.req ∈ acts ++ [a] :=
  List.mem_append_left _ (h.queued cmd hcmd)

end Keep

/-- A label that touches no id, and leaves queue, ids and reply cells alone. -/
theorem Routing.quiet {acts : List Act} {s t : State} {a : Act} (h : Routing acts s)
    (hq : t.cmds.queue = s.cmds.queue) (hp : t.pending = s.pending) (hr : t.replies = s.replies)
    (hc : ∀ c req, t.calls c = .sending req → s.calls c = .sending req)
    (ha : ∀ id, ¬ a.Issues id ∧ ¬ a.Retires id) : Routing (acts ++ [a]) t where
  ids := by rw [hp]; exact h.ids
  sending := fun c req hcr => h.still_sending a c req (hc c req hcr)
  queued := fun cmd hcmd => h.still_queued a (hq ▸ hcmd)
  pending := fun e he => h.flying (hp ▸ he) (ha e.1)
  answered := fun c resp hs => (h.answered c resp (hr ▸ hs)).snoc a

theorem not_sending_update {s : State} {c : CallId} {d : Dispatch} (hd : ∀ req, d ≠ .sending req)
    (a : CallId) (req : Request) (h : (s.setCall c d).calls a = .sending req) :
    s.calls a = .sending req := by
  by_cases hac : a = c
  · subst hac
    simp only [State.setCall_calls, Function.update_self] at h
    exact absurd h (hd req)
  · simpa [Function.update_of_ne hac] using h

/-- An answer that is no response leaves the routing of the others. -/
theorem answered_error {acts : List Act} {s : State} (h : Routing acts s) {c : CallId} {e : Error}
    (a : Act) (b : CallId) (resp : Response)
    (hb : (s.answer c (.error e)).replies b = .sent (.ok resp)) : Routed (acts ++ [a]) b resp := by
  refine (h.answered b resp ?_).snoc a
  by_cases hbc : b = c
  · subst hbc
    simp only [State.answer, Function.update_self] at hb
    cases hcell : s.replies b with
    | waiting => rw [hcell] at hb; simp [Oneshot.send] at hb
    | sent v => rw [hcell] at hb; exact hb
    | dropped => rw [hcell] at hb; exact hb
  · simpa [State.answer, Function.update_of_ne hbc] using hb

/-- The ids left after removing element `i` are those of the other entries. -/
theorem mem_swapRemove_ids {l : List (RequestId × CallId)} {i : Nat} {id : RequestId} {c : CallId}
    (h : l[i]? = some (id, c)) (hn : (l.map Prod.fst).Nodup) :
    ((swapRemove l i).map Prod.fst).Nodup ∧
      ∀ e ∈ swapRemove l i, e ∈ l ∧ e.1 ≠ id := by
  have hp := swapRemove_perm h
  have hn' := (hp.map Prod.fst).nodup_iff.mp hn
  rw [List.map_cons, List.nodup_cons] at hn'
  refine ⟨hn'.2, fun e he => ⟨hp.mem_iff.mpr (List.mem_cons_of_mem _ he), fun hid => ?_⟩⟩
  exact hn'.1 (List.mem_map.mpr ⟨e, he, hid⟩)

theorem routing_step {acts : List Act} {s t : State} {a : Act} (h : Routing acts s)
    (hs : Step s a t) : Routing (acts ++ [a]) t := by
  have none : ∀ {b : Act}, (∀ id, ¬ b.Issues id) → (∀ id, ¬ b.Retires id) →
      ∀ id, ¬ b.Issues id ∧ ¬ b.Retires id := fun h1 h2 id => ⟨h1 id, h2 id⟩
  cases hs with
  | @start req _ =>
    refine ⟨h.ids, fun c r hc => ?_, fun cmd hcmd => h.still_queued _ hcmd,
      fun e he => h.flying he ⟨id, id⟩, fun c resp hr => (h.answered c resp hr).snoc _⟩
    · by_cases hcs : c = s.started
      · subst hcs
        simp only [State.setCall, Function.update_self, Dispatch.sending.injEq] at hc
        simp [hc]
      · simp only [State.setCall, Function.update_of_ne hcs] at hc
        exact h.still_sending _ c r hc
  | @send c req ch hc hp =>
    obtain ⟨-, -, -, hq, -, -⟩ := Mpsc.push_spec hp
    refine ⟨h.ids, fun b r hb => ?_, fun cmd hcmd => ?_, fun e he => h.flying he ⟨id, id⟩,
      fun b resp hr => (h.answered b resp hr).snoc _⟩
    · exact h.still_sending _ b r (not_sending_update (by simp) b r hb)
    · rw [hq] at hcmd
      rcases List.mem_append.mp hcmd with hcmd | hcmd
      · exact h.still_queued _ hcmd
      · rw [List.mem_singleton.mp hcmd]
        exact h.still_sending _ c req hc
  | sendClosed _ _ | wake _ | reply _ _ | cancel _ =>
    exact h.quiet rfl rfl rfl (not_sending_update (by simp)) (none (fun _ => id) fun _ => id)
  | takeSender _ _ | dropWake _ | empty _ _ | disconnected _ _ | tickClosed _ _ | tickOk _ _
  | sweepEnd _ _ | block _ | unblock _ | readWake _ _ | readDone _ _ | failEnd _ _ =>
    exact h.quiet rfl rfl rfl (fun _ _ => id) (none (fun _ => id) fun _ => id)
  | @submitOk cmd rc i ch _ hq hsub hfresh =>
    obtain ⟨hqq, -, -⟩ := Mpsc.tryRecv_item hq
    have hstart : .start cmd.reply cmd.req ∈ acts := h.queued cmd (by rw [hqq]; simp)
    refine ⟨?_, h.still_sending _, fun cmd' hcmd => ?_, fun e he => ?_,
      fun c resp hr => (h.answered c resp hr).snoc _⟩
    · rw [List.map_append, List.map_singleton, List.nodup_append]
      refine ⟨h.ids, List.nodup_singleton _, fun x hx y hy hxy => ?_⟩
      have hxi : x = i := by rw [hxy, List.mem_singleton.mp hy]
      exact hfresh (hxi ▸ hx)
    · exact h.still_queued _ (by rw [hqq]; exact List.mem_cons_of_mem _ hcmd)
    · rcases List.mem_append.mp he with he | he
      · refine h.flying he ⟨fun hi => ?_, id⟩
        -- the id handed out is not one of those pending
        have : i = e.1 := by
          simp only [Act.Issues, hsub] at hi
          exact Except.ok.inj hi
        exact hfresh (this ▸ List.mem_map_of_mem he)
      · rw [List.mem_singleton.mp he]
        exact ⟨cmd, rfl, acts, rc, [], rfl, hstart, hsub, fun b hb => absurd hb List.not_mem_nil⟩
  | @submitErr cmd rc i ch e _ hq hsub =>
    obtain ⟨hqq, -, -⟩ := Mpsc.tryRecv_item hq
    refine ⟨h.ids, h.still_sending _, fun cmd' hcmd => ?_, fun e' he' => ?_, answered_error h _⟩
    · exact h.still_queued _ (by rw [hqq]; exact List.mem_cons_of_mem _ hcmd)
    · refine h.flying he' ⟨fun hi => ?_, id⟩
      simp only [Act.Issues, hsub] at hi
      exact absurd hi (by simp)
  | @pollReady k i c rc out resp _ hi hp =>
    obtain ⟨hn, hne⟩ := mem_swapRemove_ids hi h.ids
    obtain ⟨cmd, hcmd, hf⟩ := h.pending (i, c) (List.mem_of_getElem? hi)
    refine ⟨hn, h.still_sending _, fun cmd' hcmd' => h.still_queued _ hcmd', fun e he => ?_,
      fun b resp' hb => ?_⟩
    · exact h.flying (hne e he).1 ⟨id, fun hr => (hne e he).2 hr.1.symm⟩
    · by_cases hbc : b = c
      · subst hbc
        simp only [State.answer, Function.update_self] at hb
        cases hcell : s.replies b with
        | waiting =>
          rw [hcell] at hb
          obtain rfl : resp = resp' := by simpa [Oneshot.send] using hb
          exact ⟨cmd, i, acts, rc, out, [], rfl, hcmd, hf, hp⟩
        | sent v =>
          rw [hcell] at hb
          exact (h.answered b resp' (hcell.trans hb)).snoc _
        | dropped => rw [hcell] at hb; exact absurd hb (by simp [Oneshot.send])
      · have : s.replies b = .sent (.ok resp') := by
          simpa [State.answer, Function.update_of_ne hbc] using hb
        exact (h.answered b resp' this).snoc _
  | @pollNone k i c rc out _ hi hp =>
    refine h.quiet rfl rfl rfl (fun _ _ => id) fun _ => ⟨id, fun hr => hr.2 hp⟩
  | @pollErr k i c rc out e _ hi hp =>
    obtain ⟨hn, hne⟩ := mem_swapRemove_ids hi h.ids
    refine ⟨hn, h.still_sending _, fun cmd' hcmd' => h.still_queued _ hcmd', fun e' he' => ?_,
      answered_error h _⟩
    exact h.flying (hne e' he').1 ⟨id, fun hr => (hne e' he').2 hr.1.symm⟩
  | @failNext i c rest _ hp =>
    have hids := h.ids
    rw [hp, List.map_cons, List.nodup_cons] at hids
    refine ⟨hids.2, h.still_sending _, fun cmd' hcmd' => h.still_queued _ hcmd', fun e' he' => ?_,
      answered_error h _⟩
    exact h.flying (by rw [hp]; exact List.mem_cons_of_mem _ he') ⟨id, id⟩
  | dropRx _ =>
    refine ⟨h.ids, h.still_sending _, fun cmd hcmd => absurd hcmd List.not_mem_nil,
      fun e he => h.flying he ⟨id, id⟩, fun c resp hr => ?_⟩
    refine (h.answered c resp ?_).snoc _
    simp only at hr
    split at hr
    · cases hcell : s.replies c with
      | waiting => rw [hcell] at hr; exact absurd hr (by simp)
      | sent v => rw [hcell] at hr; exact hr
      | dropped => rw [hcell] at hr; exact absurd hr (by simp [Oneshot.drop])
    · exact hr

/-- **Every run keeps the routing.** -/
theorem routing_run {acts : List Act} {s : State} (h : machine.run acts = some s) :
    Routing acts s := by
  refine machine.run_induction (P := Routing) ?_ ?_ h
  · refine ⟨List.nodup_nil, fun c r hc => ?_, fun cmd hcmd => absurd hcmd List.not_mem_nil,
      fun e he => absurd he List.not_mem_nil, fun c r hr => ?_⟩
    · exact absurd hc (by simp [machine, init])
    · exact absurd hr (by simp [machine, init])
  · intro as s a t _ hp hst
    exact routing_step hp (step_inv hst)

/-! ## Submitted at most once -/

theorem submits_snoc (c : CallId) (acts : List Act) (a : Act) :
    submits c (acts ++ [a]) = submits c acts + if a.submitsFor c then 1 else 0 := by
  simp [submits, List.countP_append, List.countP_singleton]

/-- A call is submitted at most once, and not before its command leaves the queue. -/
def SubmitsOnce (acts : List Act) (s : State) : Prop :=
  ∀ c, submits c acts ≤ 1 ∧
    ((s.calls c).caller = .out ∨ c ∈ s.cmds.queue.map (·.reply) → submits c acts = 0)

/-- A label that submits nothing, queues nothing and puts no call back. -/
theorem SubmitsOnce.quiet {acts : List Act} {s t : State} {a : Act} (h : SubmitsOnce acts s)
    (ha : ∀ c, a.submitsFor c = false) (hq : ∀ cmd ∈ t.cmds.queue, cmd ∈ s.cmds.queue)
    (hc : ∀ c, (t.calls c).caller = .out → (s.calls c).caller = .out) :
    SubmitsOnce (acts ++ [a]) t := by
  intro c
  rw [submits_snoc, ha c]
  refine ⟨(h c).1, fun ht => (h c).2 ?_⟩
  rcases ht with ht | ht
  · exact Or.inl (hc c ht)
  · obtain ⟨cmd, hcmd, rfl⟩ := List.mem_map.mp ht
    exact Or.inr (List.mem_map_of_mem (hq cmd hcmd))

theorem caller_setCall {s : State} {c : CallId} {d : Dispatch}
    (hd : d.caller = .out → (s.calls c).caller = .out) (b : CallId)
    (hb : ((s.setCall c d).calls b).caller = .out) : (s.calls b).caller = .out := by
  by_cases hbc : b = c
  · subst hbc
    rw [State.setCall_calls, Function.update_self] at hb
    exact hd hb
  · rwa [State.setCall_calls, Function.update_of_ne hbc] at hb

/-- The command at the head of the queue is submitted: no other queued command has its name. -/
theorem SubmitsOnce.pop {acts : List Act} {s t : State} {cmd : ClientCommand} {rc : CInt}
    {id : RequestId} {ch : Mpsc ClientCommand 64} (h : SubmitsOnce acts s)
    (hinv : Ledger.Inv closed (ledger s)) (hq : s.cmds.tryRecv = .item cmd ch)
    (htq : t.cmds.queue = ch.queue) (htc : t.calls = s.calls) :
    SubmitsOnce (acts ++ [.submit cmd rc id]) t := by
  obtain ⟨hqq, -, -⟩ := Mpsc.tryRecv_item hq
  have hnd : cmd.reply ∉ ch.queue.map (·.reply) := by
    have := hinv.nodup
    rw [show (ledger s).held = held s from rfl, held_pop hq, Multiset.nodup_cons] at this
    exact fun hm => this.1 (Multiset.mem_add.mpr (Or.inl (Multiset.mem_coe.mpr hm)))
  have hheld : cmd.reply ∈ (ledger s).held := by
    rw [show (ledger s).held = held s from rfl, held_pop hq]
    exact Multiset.mem_cons_self _ _
  have hout : (s.calls cmd.reply).caller ≠ .out := by
    intro ho
    have ho' : (ledger s).caller cmd.reply = .out := ho
    rcases hinv.handed _ hheld with hw | hw <;> rw [ho'] at hw <;> exact absurd hw (by simp)
  intro c
  rw [submits_snoc]
  by_cases hc : cmd.reply = c
  · subst hc
    have h0 := (h cmd.reply).2 (Or.inr (by rw [hqq]; simp))
    refine ⟨by simp [Act.submitsFor, h0], fun ht => ?_⟩
    rcases ht with ht | ht
    · rw [htc] at ht
      exact absurd ht hout
    · rw [htq] at ht
      exact absurd ht hnd
  · have hf : Act.submitsFor c (.submit cmd rc id) = false := by simp [Act.submitsFor, hc]
    rw [hf]
    refine ⟨(h c).1, fun ht => (h c).2 ?_⟩
    rcases ht with ht | ht
    · exact Or.inl (htc ▸ ht)
    · rw [htq] at ht
      exact Or.inr (by rw [hqq]; exact List.mem_cons_of_mem _ ht)

theorem submits_step {acts : List Act} {s t : State} {a : Act} (h : SubmitsOnce acts s)
    (hsh : Shape s) (hinv : Ledger.Inv closed (ledger s)) (hs : Step s a t) :
    SubmitsOnce (acts ++ [a]) t := by
  cases hs with
  | start _ =>
    refine h.quiet (fun _ => rfl) (fun _ => id) (caller_setCall fun _ => ?_)
    rw [hsh.fresh s.started (Nat.le_refl _)]
    rfl
  | @send c req ch hc hp =>
    obtain ⟨-, -, -, hq, -, -⟩ := Mpsc.push_spec hp
    intro b
    rw [submits_snoc]
    refine ⟨(h b).1, fun hb => (h b).2 ?_⟩
    rcases hb with hb | hb
    · exact Or.inl (caller_setCall (by simp [Dispatch.caller]) b hb)
    · rw [hq, List.map_append] at hb
      rcases List.mem_append.mp hb with hb | hb
      · exact Or.inr hb
      · obtain rfl : b = c := by simpa using hb
        exact Or.inl (by rw [hc]; rfl)
  | sendClosed _ _ | wake _ | reply _ _ | cancel _ =>
    exact h.quiet (fun _ => rfl) (fun _ => id) (caller_setCall (by simp [Dispatch.caller]))
  | submitOk _ hq _ _ => exact h.pop hinv hq rfl rfl
  | submitErr _ hq _ => exact h.pop hinv hq rfl rfl
  | dropRx _ => exact h.quiet (fun _ => rfl) (fun cmd hc => absurd hc List.not_mem_nil) fun _ => id
  | takeSender _ _ | dropWake _ | empty _ _ | disconnected _ _ | tickClosed _ _ | tickOk _ _
  | pollReady _ _ _ | pollNone _ _ _ | pollErr _ _ _ | sweepEnd _ _ | block _ | unblock _
  | readWake _ _ | readDone _ _ | failNext _ _ | failEnd _ _ =>
    exact h.quiet (fun _ => rfl) (fun _ => id) fun _ => id

/-- The ledger of a reachable state meets the ledger's invariant. -/
theorem reachable_ledger {s : State} (h : machine.Reachable s) : Ledger.Inv closed (ledger s) :=
  Ledger.reachable_inv (refines.reachable machine h)

theorem submits_run {acts : List Act} {s : State} (h : machine.run acts = some s) :
    SubmitsOnce acts s := by
  refine machine.run_induction (P := SubmitsOnce) ?_ ?_ h
  · intro c
    exact ⟨Nat.zero_le 1, fun _ => rfl⟩
  · intro as s a t hr hp hst
    exact submits_step hp (reachable_shape ⟨as, hr⟩) (reachable_ledger ⟨as, hr⟩) (step_inv hst)

/-! ## Results -/

/-- The future was started and not dropped. -/
def Dispatch.Live (d : Dispatch) : Prop := d ≠ .idle ∧ d ≠ .cancelled

/-- What the future of call `c` resolves to when it is polled now; none while it has to wait. -/
def result (s : State) (c : CallId) : Option (Result Response) :=
  match s.calls c with
  | .sending _ => if s.cmds.rxOpen then none else some closed
  | .enqueued => (s.replies c).recv.map (·.getD closed)
  | .awaiting => (s.replies c).recv.map (·.getD closed)
  | .done r => some r
  | _ => none

/-- A label of the future of call `c` itself. -/
def Act.Own (c : CallId) : Act → Prop
  | .sendClosed b => b = c
  | .wake b => b = c
  | .reply b => b = c
  | _ => False

theorem caller_eq_gone {d : Dispatch} : d.caller = .gone ↔ d = .cancelled := by
  cases d <;> simp [Dispatch.caller]

/-- Past the send, the result is the outcome the ledger keeps. -/
theorem result_eq_outcome {s : State} {c : CallId} (h : ∀ req, s.calls c ≠ .sending req) :
    result s c = Ledger.outcome closed (ledger s) c := by
  unfold result Ledger.outcome ledger
  cases hc : s.calls c with
  | sending req => exact absurd hc (h req)
  | idle | enqueued | awaiting | done _ | cancelled => simp [hc, Dispatch.caller]

/-- A receiver that is gone stays gone. -/
theorem rx_step {s t : State} {a : Act} (hs : Step s a t) (h : s.cmds.rxOpen = false) :
    t.cmds.rxOpen = false := by
  cases hs with
  | send _ hp =>
    obtain ⟨-, hr, -⟩ := Mpsc.push_spec hp
    rw [h] at hr
    exact absurd hr (by simp)
  | submitOk _ hq _ _ | submitErr _ hq _ => exact (Mpsc.tryRecv_item hq).2.2.trans h
  | dropRx _ => rfl
  | start _ | sendClosed _ _ | wake _ | reply _ _ | cancel _ | takeSender _ _ | dropWake _
  | empty _ _ | disconnected _ _ | tickClosed _ _ | tickOk _ _ | pollReady _ _ _ | pollNone _ _ _
  | pollErr _ _ _ | sweepEnd _ _ | block _ | unblock _ | readWake _ _ | readDone _ _
  | failNext _ _ | failEnd _ _ => exact h

theorem setCall_cases (s : State) (b c : CallId) (d : Dispatch) :
    (b = c ∧ (s.setCall b d).calls c = d) ∨ (s.setCall b d).calls c = s.calls c := by
  by_cases hbc : b = c
  · subst hbc
    exact Or.inl ⟨rfl, Function.update_self ..⟩
  · exact Or.inr (Function.update_of_ne (Ne.symm hbc) ..)

/-- How a call leaves the wait for a free slot once the receiver is gone. -/
theorem sending_step {s t : State} {a : Act} (hsh : Shape s) (hs : Step s a t) {c : CallId}
    {req : Request} (h : s.calls c = .sending req) (hr : s.cmds.rxOpen = false) :
    t.calls c = .sending req ∨ t.calls c = .done closed ∨ t.calls c = .cancelled := by
  cases hs with
  | @start req' _ =>
    rcases setCall_cases s s.started c (.sending req') with ⟨rfl, -⟩ | hc
    · rw [hsh.fresh _ (Nat.le_refl _)] at h
      exact absurd h (by simp)
    · exact Or.inl (hc.trans h)
  | send _ hp =>
    obtain ⟨-, hr', -⟩ := Mpsc.push_spec hp
    rw [hr] at hr'
    exact absurd hr' (by simp)
  | @sendClosed b _ hb _ =>
    rcases setCall_cases s b c (.done (.error .networkClosed)) with ⟨-, hc⟩ | hc
    · exact Or.inr (Or.inl hc)
    · exact Or.inl (hc.trans h)
  | @wake b hb =>
    rcases setCall_cases s b c .awaiting with ⟨rfl, -⟩ | hc
    · rw [hb] at h
      exact absurd h (by simp)
    · exact Or.inl (hc.trans h)
  | @reply b r hb _ =>
    rcases setCall_cases s b c (.done (r.getD (.error .networkClosed))) with ⟨rfl, -⟩ | hc
    · rw [hb] at h
      exact absurd h (by simp)
    · exact Or.inl (hc.trans h)
  | @cancel b _ =>
    rcases setCall_cases s b c .cancelled with ⟨-, hc⟩ | hc
    · exact Or.inr (Or.inr hc)
    · exact Or.inl (hc.trans h)
  | takeSender _ _ | dropWake _ | submitOk _ _ _ _ | submitErr _ _ _ | empty _ _ | disconnected _ _
  | tickClosed _ _ | tickOk _ _ | pollReady _ _ _ | pollNone _ _ _ | pollErr _ _ _ | sweepEnd _ _
  | block _ | unblock _ | readWake _ _ | readDone _ _ | failNext _ _ | failEnd _ _ | dropRx _ =>
    exact Or.inl h

theorem result_step {s t : State} {a : Act} (hre : machine.Reachable s)
    (hst : machine.step s a = some t) {c : CallId} {r : Result Response}
    (h : result s c = some r ∨ s.calls c = .cancelled) :
    result t c = some r ∨ t.calls c = .cancelled := by
  by_cases hsend : ∃ req, s.calls c = .sending req
  · -- still at the channel: the receiver is gone, and stays gone
    obtain ⟨req, hreq⟩ := hsend
    have h' : result s c = some r := h.resolve_right (by rw [hreq]; simp)
    simp only [result, hreq] at h'
    split at h'
    · exact absurd h' (by simp)
    · rename_i hrx
      obtain rfl := Option.some.inj h'
      have hrx : s.cmds.rxOpen = false := by simpa using hrx
      have hrt := rx_step (step_inv hst) hrx
      rcases sending_step (reachable_shape hre) (step_inv hst) hreq hrx with hc | hc | hc
      · exact Or.inl (by simp [result, hc, hrt])
      · exact Or.inl (by simp [result, hc])
      · exact Or.inr hc
  · have hne : ∀ req, s.calls c ≠ .sending req := fun req hc => hsend ⟨req, hc⟩
    rw [result_eq_outcome hne, ← caller_eq_gone] at h
    obtain ⟨bs, hbs⟩ := refines.step s a t hre (refines.reachable machine hre) hst
    have hout := Ledger.outcome_stable (reachable_ledger hre) hbs h
    rcases hout with ho | hg
    · have hnt : ∀ req, t.calls c ≠ .sending req := by
        intro req hc
        have hcl : (ledger t).caller c = .out := by simp [ledger, hc, Dispatch.caller]
        rw [Ledger.outcome, hcl] at ho
        exact absurd ho (by simp)
      exact Or.inl ((result_eq_outcome hnt).trans ho)
    · exact Or.inr (caller_eq_gone.mp hg)

/-- A call whose reply sender the owner side holds has no result yet. -/
theorem result_of_held {s : State} (hre : machine.Reachable s) {c : CallId} (h : c ∈ held s) :
    result s c = none := by
  have hinv := reachable_ledger hre
  have hcell : s.replies c = .waiting := hinv.unsent c h
  have hcaller : (s.calls c).caller = .waiting ∨ (s.calls c).caller = .gone := hinv.handed c h
  unfold result
  cases hc : s.calls c with
  | sending _ | done _ => rw [hc] at hcaller; simp [Dispatch.caller] at hcaller
  | idle | cancelled => rfl
  | enqueued | awaiting => simp [hcell, Oneshot.recv]

/-- **The result of a call is final**, until its future is dropped. -/
theorem result_runFrom {s t : State} {acts : List Act} (hre : machine.Reachable s)
    (hr : machine.runFrom s acts = some t) {c : CallId} {r : Result Response}
    (h : result s c = some r) : result t c = some r ∨ t.calls c = .cancelled := by
  have key := machine.runFrom_induction
    (P := fun u => machine.Reachable u ∧ (result u c = some r ∨ u.calls c = .cancelled))
    (fun u a v hp hst => ⟨machine.reachable_step hp.1 hst, result_step hp.1 hst hp.2⟩)
    ⟨hre, Or.inl h⟩ hr
  exact key.2

/-- A future with a result resolves to it by its own steps alone. -/
theorem result_taken {s : State} {c : CallId} {r : Result Response} (h : result s c = some r) :
    ∃ acts t, (∀ a ∈ acts, a.Own c) ∧ machine.runFrom s acts = some t ∧ t.calls c = .done r := by
  unfold result at h
  split at h
  · rename_i req hc
    split at h
    · exact absurd h (by simp)
    · rename_i hrx
      obtain rfl := Option.some.inj h
      refine ⟨[.sendClosed c], s.setCall c (.done closed), by simp [Act.Own], ?_, by simp⟩
      simp [Machine.runFrom, machine, step, hc, hrx, closed]
  · rename_i hc
    obtain ⟨v, hv, rfl⟩ := Option.map_eq_some_iff.mp h
    refine ⟨[.wake c, .reply c], ?_⟩
    simp [Machine.runFrom, machine, step, hc, hv, Act.Own, closed]
  · rename_i hc
    obtain ⟨v, hv, rfl⟩ := Option.map_eq_some_iff.mp h
    refine ⟨[.reply c], s.setCall c (.done (v.getD closed)), by simp [Act.Own], ?_, by simp⟩
    simp [Machine.runFrom, machine, step, hc, hv, closed]
  · rename_i v hc
    obtain rfl := Option.some.inj h
    exact ⟨[], s, by simp, rfl, hc⟩
  · exact absurd h (by simp)

/-- **Nobody is left waiting**: once the owner has returned every live future has its result. -/
theorem result_of_returned {s : State} (hre : machine.Reachable s) (hpc : s.pc = .returned)
    {c : CallId} (hl : (s.calls c).Live) : ∃ r, result s c = some r := by
  have hsh := reachable_shape hre
  have hrx : s.cmds.rxOpen = false := hsh.rx.mpr hpc
  have hheld : (ledger s).held = 0 := by
    simp [ledger, held, s.cmds.drained hrx, hsh.failed (Or.inr hpc)]
  have hwait : (ledger s).caller c = .waiting → ∃ r, Ledger.outcome closed (ledger s) c = some r :=
    Ledger.outcome_of_held_nil (reachable_ledger hre) hheld
  cases hc : s.calls c with
  | idle => exact absurd hc hl.1
  | cancelled => exact absurd hc hl.2
  | done r => exact ⟨r, by simp [result, hc]⟩
  | sending req => exact ⟨closed, by simp [result, hc, hrx]⟩
  | enqueued =>
    rw [result_eq_outcome (by simp [hc])]
    exact hwait (by simp [ledger, hc, Dispatch.caller])
  | awaiting =>
    rw [result_eq_outcome (by simp [hc])]
    exact hwait (by simp [ledger, hc, Dispatch.caller])

/-! ## The exits -/

/-- The owner has left its loop. -/
def Leaving (s : State) : Prop := s.pc = .failing ∨ s.pc = .exiting ∨ s.pc = .returned

/-- The call has no result yet, or it is NetworkClosed. -/
def OnlyClosed (s : State) (c : CallId) : Prop :=
  (∀ v, s.replies c = .sent v → v = closed) ∧ ∀ r, s.calls c = .done r → r = closed

theorem OnlyClosed.setCall {s : State} {c : CallId} (h : OnlyClosed s c) {b : CallId} {d : Dispatch}
    (hd : b = c → ∀ r, d = .done r → r = closed) : OnlyClosed (s.setCall b d) c := by
  refine ⟨h.1, fun r hr => ?_⟩
  rcases setCall_cases s b c d with ⟨hb, hc⟩ | hc
  · exact hd hb r (hc.symm.trans hr)
  · exact h.2 r (hc.symm.trans hr)

theorem onlyClosed_step {s t : State} {a : Act} (hs : Step s a t) {c : CallId} (hl : Leaving s)
    (h : OnlyClosed s c) : Leaving t ∧ OnlyClosed t c := by
  have hno : s.pc ≠ .recv ∧ s.pc ≠ .tick ∧ (∀ i, s.pc ≠ .sweep i) ∧ s.pc ≠ .wait ∧
      (∀ w, s.pc ≠ .blocked w) ∧ s.pc ≠ .drainWake := by
    rcases hl with hl | hl | hl <;> rw [hl] <;> simp
  obtain ⟨hn1, hn2, hn3, hn4, hn5, hn6⟩ := hno
  cases hs with
  | start _ | send _ _ | wake _ | cancel _ => exact ⟨hl, h.setCall (by simp)⟩
  | sendClosed _ _ => exact ⟨hl, h.setCall fun _ r hr => by simpa [closed] using hr.symm⟩
  | @reply b r hb hrecv =>
    refine ⟨hl, h.setCall fun hbc v hv => ?_⟩
    subst hbc
    obtain rfl := Dispatch.done.inj hv
    cases hcell : s.replies b with
    | waiting => rw [hcell] at hrecv; exact absurd hrecv (by simp [Oneshot.recv])
    | sent v =>
      rw [hcell] at hrecv
      obtain rfl : some v = r := by simpa [Oneshot.recv] using hrecv
      exact h.1 v hcell
    | dropped =>
      rw [hcell] at hrecv
      obtain rfl : none = r := by simpa [Oneshot.recv] using hrecv
      rfl
  | takeSender _ _ | dropWake _ => exact ⟨hl, h⟩
  | submitOk hpc _ _ _ | submitErr hpc _ _ | empty hpc _ | disconnected hpc _ =>
    exact absurd hpc hn1
  | tickClosed hpc _ | tickOk hpc _ => exact absurd hpc hn2
  | pollReady hpc _ _ | pollNone hpc _ _ | pollErr hpc _ _ | sweepEnd hpc _ =>
    exact absurd hpc (hn3 _)
  | block hpc => exact absurd hpc hn4
  | unblock hpc => exact absurd hpc (hn5 _)
  | readWake hpc _ | readDone hpc _ => exact absurd hpc hn6
  | @failNext id b rest hpc _ =>
    refine ⟨hl, fun v hv => ?_, h.2⟩
    by_cases hbc : c = b
    · subst hbc
      simp only [State.answer, Function.update_self] at hv
      cases hcell : s.replies c with
      | waiting => rw [hcell] at hv; exact (Oneshot.sent.inj hv).symm
      | sent w => rw [hcell] at hv; exact h.1 v (hcell.trans hv)
      | dropped => rw [hcell] at hv; exact absurd hv (by simp [Oneshot.send])
    · exact h.1 v (by simpa [State.answer, Function.update_of_ne hbc] using hv)
  | failEnd _ _ => exact ⟨Or.inr (Or.inl rfl), h⟩
  | dropRx _ =>
    refine ⟨Or.inr (Or.inr rfl), fun v hv => h.1 v ?_, h.2⟩
    simp only at hv
    split at hv
    · cases hcell : s.replies c with
      | waiting => rw [hcell] at hv; exact absurd hv (by simp)
      | sent w => rw [hcell] at hv; exact hv
      | dropped => rw [hcell] at hv; exact absurd hv (by simp [Oneshot.drop])
    · exact hv

/-- A call that is queued, in flight or not sent yet has no result. -/
theorem onlyClosed_of_held {s : State} (hre : machine.Reachable s) {c : CallId}
    (h : c ∈ held s ∨ (s.calls c).caller = .out) : OnlyClosed s c := by
  have hinv := reachable_ledger hre
  have hcell : s.replies c = .waiting := by
    rcases h with h | h
    · exact hinv.unsent c h
    · exact hinv.fresh c h
  refine ⟨fun v hv => ?_, fun r hr => ?_⟩
  · rw [hcell] at hv
    exact absurd hv (by simp)
  · have hdone : (ledger s).caller c = .done r := by simp [ledger, hr, Dispatch.caller]
    rcases h with h | h
    · rcases hinv.handed c h with hw | hw <;> rw [hdone] at hw <;> exact absurd hw (by simp)
    · rw [hr] at h
      exact absurd h (by simp [Dispatch.caller])

/-- **What is queued or in flight at an exit ends as NetworkClosed.** -/
theorem exit_runFrom {s t : State} {acts : List Act} (hre : machine.Reachable s) (hl : Leaving s)
    (hr : machine.runFrom s acts = some t) {c : CallId}
    (h : c ∈ held s ∨ (s.calls c).caller = .out) {r : Result Response}
    (ht : result t c = some r) : r = closed := by
  have key := machine.runFrom_induction (P := fun u => Leaving u ∧ OnlyClosed u c)
    (fun u a v hp hst => onlyClosed_step (step_inv hst) hp.1 hp.2)
    ⟨hl, onlyClosed_of_held hre h⟩ hr
  obtain ⟨-, hcell, hdone⟩ := key
  have hrecv : (t.replies c).recv.map (·.getD closed) = some r → r = closed := by
    intro hv
    cases hc : t.replies c with
    | waiting => rw [hc] at hv; exact absurd hv (by simp [Oneshot.recv])
    | sent v =>
      rw [hc] at hv
      obtain rfl : v = r := by simpa [Oneshot.recv] using hv
      exact hcell v hc
    | dropped =>
      rw [hc] at hv
      exact (by simpa [Oneshot.recv] using hv : closed = r).symm
  unfold result at ht
  split at ht
  · split at ht
    · exact absurd ht (by simp)
    · exact (Option.some.inj ht).symm
  · exact hrecv ht
  · exact hrecv ht
  · rename_i v hc
    obtain rfl := Option.some.inj ht
    exact hdone v hc
  · exact absurd ht (by simp)

/-! ## The main result -/

/-- Calls are numbered in the order they start, so a call is started with one request. -/
def StartedOnce (acts : List Act) (s : State) : Prop :=
  ∀ c req, .start c req ∈ acts → c < s.started ∧ ∀ req', .start c req' ∈ acts → req' = req

theorem startedOnce_quiet {acts : List Act} {s t : State} {a : Act} (h : StartedOnce acts s)
    (hs : t.started = s.started) (ha : ∀ c req, a ≠ .start c req) :
    StartedOnce (acts ++ [a]) t := by
  have hmem : ∀ c req, .start c req ∈ acts ++ [a] → .start c req ∈ acts := by
    intro c req hm
    rcases List.mem_append.mp hm with hm | hm
    · exact hm
    · exact absurd (List.mem_singleton.mp hm).symm (ha c req)
  intro c req hm
  obtain ⟨hlt, huniq⟩ := h c req (hmem c req hm)
  exact ⟨hs ▸ hlt, fun req' hm' => huniq req' (hmem c req' hm')⟩

theorem startedOnce_run {acts : List Act} {s : State} (h : machine.run acts = some s) :
    StartedOnce acts s := by
  refine machine.run_induction (P := StartedOnce) ?_ ?_ h
  · intro c req hm
    exact absurd hm List.not_mem_nil
  · intro as s a t _ hp hst
    cases step_inv hst with
    | @start req _ =>
      intro c req' hm
      rcases List.mem_append.mp hm with hm | hm
      · obtain ⟨hlt, huniq⟩ := hp c req' hm
        refine ⟨Nat.lt_succ_of_lt hlt, fun req'' hm' => ?_⟩
        rcases List.mem_append.mp hm' with hm' | hm'
        · exact huniq req'' hm'
        · obtain ⟨rfl, -⟩ : c = s.started ∧ req'' = req := by simpa using hm'
          exact absurd hlt (Nat.lt_irrefl _)
      · obtain ⟨rfl, rfl⟩ : c = s.started ∧ req' = req := by simpa using hm
        refine ⟨Nat.lt_succ_self _, fun req'' hm' => ?_⟩
        rcases List.mem_append.mp hm' with hm' | hm'
        · exact absurd (hp _ _ hm').1 (Nat.lt_irrefl _)
        · simpa using hm'
    | send _ _ | sendClosed _ _ | wake _ | reply _ _ | cancel _ | takeSender _ _ | dropWake _
    | submitOk _ _ _ _ | submitErr _ _ _ | empty _ _ | disconnected _ _ | tickClosed _ _
    | tickOk _ _ | pollReady _ _ _ | pollNone _ _ _ | pollErr _ _ _ | sweepEnd _ _ | block _
    | unblock _ | readWake _ _ | readDone _ _ | failNext _ _ | failEnd _ _ | dropRx _ =>
      exact startedOnce_quiet hp rfl (by simp)

theorem result_routed {acts : List Act} {s : State} (h : machine.run acts = some s) {c : CallId}
    {resp : Response} (hr : result s c = some (.ok resp)) : Routed acts c resp := by
  refine (routing_run h).answered c resp ?_
  have hrecv : (s.replies c).recv.map (·.getD closed) = some (.ok resp) →
      s.replies c = .sent (.ok resp) := by
    intro hv
    cases hc : s.replies c with
    | waiting => rw [hc] at hv; exact absurd hv (by simp [Oneshot.recv])
    | sent v => rw [hc] at hv; simpa [Oneshot.recv] using hv
    | dropped => rw [hc] at hv; exact absurd hv (by simp [Oneshot.recv, closed])
  unfold result at hr
  split at hr
  · split at hr <;> exact absurd hr (by simp [closed])
  · exact hrecv hr
  · exact hrecv hr
  · rename_i v hc
    obtain rfl := Option.some.inj hr
    have hdone : (ledger s).caller c = .done (.ok resp) := by simp [ledger, hc, Dispatch.caller]
    exact ((reachable_ledger ⟨acts, h⟩).settled c _ hdone).resolve_right (by simp [closed])
  · exact absurd hr (by simp)

/-- What the managed client owes its callers at the end of the history `acts`. -/
structure ExactlyOnce (acts : List Act) (s : State) : Prop where
  /-- An accepted command is submitted at most once. -/
  submitted : ∀ c, submits c acts ≤ 1
  /-- A call has one result: it never changes while the future lives, -/
  final : ∀ c r more t, result s c = some r → machine.runFrom s more = some t →
    result t c = some r ∨ t.calls c = .cancelled
  /-- and the future takes it by its own steps. -/
  taken : ∀ c r, result s c = some r → ∃ own t, (∀ a ∈ own, a.Own c) ∧
    machine.runFrom s own = some t ∧ t.calls c = .done r
  /-- Nobody is left waiting once the owner has returned. -/
  resolved : s.pc = .returned → ∀ c, (s.calls c).Live → ∃ r, result s c = some r
  /-- What was queued, in flight or not sent yet when the owner left its loop gets NetworkClosed. -/
  atExit : Leaving s → ∀ c, c ∈ held s ∨ (s.calls c).caller = .out → ∀ more t r,
    machine.runFrom s more = some t → result t c = some r → r = .error .networkClosed
  /-- A call has one request, -/
  request : ∀ c req req', .start c req ∈ acts → .start c req' ∈ acts → req' = req
  /-- and a response it gets is the one polled for the id its own request was submitted under. -/
  routed : ∀ c resp, result s c = some (.ok resp) → Routed acts c resp

/-- **Exactly-once, correctly routed replies**, over every interleaving of any number of calls with
the owner thread, every C client and all three exits. -/
theorem dispatch_exactly_once {acts : List Act} {s : State} (h : machine.run acts = some s) :
    ExactlyOnce acts s where
  submitted := fun c => (submits_run h c).1
  final := fun _ _ _ _ hr hrun => result_runFrom ⟨acts, h⟩ hrun hr
  taken := fun _ _ hr => result_taken hr
  resolved := fun hpc _ hl => result_of_returned ⟨acts, h⟩ hpc hl
  atExit := fun hl _ hc _ _ _ hrun hr => exit_runFrom ⟨acts, h⟩ hl hrun hc hr
  request := fun c req req' hm hm' => (startedOnce_run h c req hm).2 req' hm'
  routed := fun _ _ hr => result_routed h hr

/-- One call is answered, the other is in flight when the tick fails. -/
def twoCalls : List Act :=
  [.start 0 ⟨.read, [47], [], []⟩, .send 0, .start 1 ⟨.write, [47], [([97], [98])], [1]⟩, .wake 0,
   .submit ⟨⟨.read, [47], [], []⟩, 0⟩ 0 7, .send 1,
   .submit ⟨⟨.write, [47], [([97], [98])], [1]⟩, 1⟩ 0 9, .empty, .tick 0 1, .poll 7 0 42,
   .poll 9 (-803) 0, .wake 1, .reply 0, .sweepEnd, .block 10, .unblock, .readWake, .readWake, .empty,
   .tick (-203) 1, .failNext, .failNext, .dropRx]

theorem dispatch_exactly_once_twoCalls :
    ∃ s, machine.run twoCalls = some s ∧ s.pc = .returned ∧ ExactlyOnce twoCalls s ∧
      result s 0 = some (.ok ⟨42⟩) ∧ result s 1 = some (.error .networkClosed) :=
  ⟨_, rfl, rfl, dispatch_exactly_once rfl, rfl, rfl⟩

end Nwep.Runtime.ClientLoop
