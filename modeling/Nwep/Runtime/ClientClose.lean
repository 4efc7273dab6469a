import Nwep.Runtime.ClientRouting

/-!
# Completed responses when the connection closes

`conn` is the managed client together with the responses its C client holds: a request completes
inside some call, stays pollable until it is polled, and `poll_request` answers accordingly. A tick
may complete requests and report the connection closed in the same call.

The owner looks at the liveness before it sweeps (`nwep/src/runtime.rs` 454-478), so what the
closing tick completed is failed unseen.

Results:
* `sweep_step`: after a tick that keeps the loop going, a completed request is still ahead of the
  sweep, or answered with its response;
* **`none_discarded_iff`**: no completed response is discarded exactly in the runs whose closing
  tick finds nothing completed for a live caller.
-/

namespace Nwep.Runtime.ClientLoop

open Nwep.Client Nwep.Lib

/-- The managed client and the responses its C client holds. -/
structure Conn where
  owner : State
  ready : RequestId → Option Msg

/-- A step, with the requests that complete inside it. -/
structure ConnAct where
  act       : Act
  completed : List (RequestId × Msg)

/-- Completions are added; one that is held already stays. -/
def complete (ready : RequestId → Option Msg) (done : List (RequestId × Msg)) (id : RequestId) :
    Option Msg :=
  (ready id).or (done.lookup id)

/-- `nwep_client_request_poll` answers what is held. -/
def answers (held : Option Msg) (rc : CInt) (out : Msg) : Bool :=
  match held with
  | some m => rc = 0 ∧ out = m
  | none => rc ≠ 0

/-- What is held after the C calls of a step, or none when its answers are not what is held. -/
def Conn.readyAfter (k : Conn) (a : ConnAct) : Option (RequestId → Option Msg) :=
  match a.act with
  | .poll id rc out =>
    if answers (k.ready id) rc out then
      some (complete (Function.update k.ready id none) a.completed)
    else none
  | _ => some (complete k.ready a.completed)

/-- The managed client over a C client that keeps completed requests pollable. -/
def conn : Machine Conn ConnAct where
  init := ⟨init, fun _ => none⟩
  step k a := (step k.owner a.act).bind fun t => (k.readyAfter a).map fun ready => ⟨t, ready⟩

theorem conn_step {k j : Conn} {a : ConnAct} (h : conn.step k a = some j) :
    machine.step k.owner a.act = some j.owner ∧ k.readyAfter a = some j.ready := by
  obtain ⟨t, ht, hr⟩ := Option.bind_eq_some_iff.mp h
  obtain ⟨ready, hready, rfl⟩ := Option.map_eq_some_iff.mp hr
  exact ⟨ht, hready⟩

/-- A run of the connection is one of the managed client. -/
theorem conn_owner {acts : List ConnAct} {k : Conn} (h : conn.run acts = some k) :
    machine.run (acts.map (·.act)) = some k.owner := by
  refine conn.run_induction (P := fun as k => machine.run (as.map (·.act)) = some k.owner) rfl ?_ h
  intro as s a t _ hp hst
  rw [List.map_append]
  exact machine.run_snoc.mpr ⟨s.owner, hp, (conn_step hst).1⟩

theorem conn_reachable {k : Conn} (h : conn.Reachable k) : machine.Reachable k.owner := by
  obtain ⟨acts, hr⟩ := h
  exact ⟨_, conn_owner hr⟩

theorem complete_of_ready {ready : RequestId → Option Msg} {id : RequestId} {m : Msg}
    (h : ready id = some m) (done : List (RequestId × Msg)) : complete ready done id = some m := by
  simp [complete, h]

/-! ## The property and its condition -/

/-- The label is the owner's `client.tick` and `client.is_alive`. -/
def Act.IsTick : Act → Prop
  | .tick _ _ => True
  | _ => False

/-- The liveness check takes the exit. -/
def Act.Closes : Act → Prop
  | .tick rc alive => (Client.tick rc).isOk = false ∨ isAlive alive = false
  | _ => False

/-- The caller of `c` gets the response `m` and nothing else: at once when the sweep is over. -/
structure Delivered (s : State) (c : CallId) (m : Msg) : Prop where
  only : ∀ r, result s c = some r → r = .ok ⟨m⟩
  told : (∀ i, s.pc ≠ .sweep i) → (s.calls c).Live → result s c = some (.ok ⟨m⟩)

/-- No completed response is discarded: whatever `poll_request` would answer after a tick for an id
in `pending`, the caller gets, in every later state of the run. -/
def NoneDiscarded (acts : List ConnAct) : Prop :=
  ∀ pre a mid post j k, acts = pre ++ a :: (mid ++ post) → a.act.IsTick →
    conn.run (pre ++ [a]) = some j → conn.runFrom j mid = some k →
    ∀ id c m, (id, c) ∈ j.owner.pending → j.ready id = some m → Delivered k.owner c m

/-- A step that closes leaves nothing completed for a caller that is still there. -/
def ClosesEmpty (k : Conn) (a : ConnAct) : Prop :=
  a.act.Closes → ∀ id c, (id, c) ∈ k.owner.pending →
    complete k.ready a.completed id ≠ none → k.owner.calls c = .cancelled

/-! ## The sweep -/

/-- A completed request the sweep has still to reach. -/
structure Ahead (k : Conn) (id : RequestId) (c : CallId) (m : Msg) : Prop where
  sweeping : ∃ i, k.owner.pc = .sweep i ∧ (id, c) ∈ k.owner.pending.drop i
  ready    : k.ready id = some m

/-- The caller has the response, or is gone. -/
def Answered (s : State) (c : CallId) (m : Msg) : Prop :=
  result s c = some (.ok ⟨m⟩) ∨ s.calls c = .cancelled

theorem mem_held_of_pending {s : State} {id : RequestId} {c : CallId} (h : (id, c) ∈ s.pending) :
    c ∈ held s := by
  unfold held
  refine Multiset.mem_add.mpr (Or.inr (Multiset.mem_coe.mpr ?_))
  exact List.mem_map.mpr ⟨(id, c), h, rfl⟩

/-- One id answers one call. -/
theorem pending_call {s : State} (hre : machine.Reachable s) {id : RequestId} {c c' : CallId}
    (h : (id, c) ∈ s.pending) (h' : (id, c') ∈ s.pending) : c = c' := by
  obtain ⟨acts, hr⟩ := hre
  have := List.inj_on_of_nodup_map (routing_run hr).ids h h' rfl
  exact congrArg Prod.snd this

/-- The owner answers a call it holds: its caller has the answer, or is gone. -/
theorem answered_of_held {s : State} (hre : machine.Reachable s) {c : CallId} (h : c ∈ held s)
    (m : Msg) (p : List (RequestId × CallId)) :
    Answered { s.answer c (.ok ⟨m⟩) with pending := p } c m := by
  have hinv := reachable_ledger hre
  have hcell : s.replies c = .waiting := hinv.unsent c h
  have hcaller : (s.calls c).caller = .waiting ∨ (s.calls c).caller = .gone := hinv.handed c h
  cases hc : s.calls c with
  | idle | sending _ | done _ => rw [hc] at hcaller; simp [Dispatch.caller] at hcaller
  | cancelled => exact Or.inr hc
  | enqueued | awaiting => exact Or.inl (by simp [result, State.answer, hc, hcell, Oneshot.recv])

/-- What a poll shows of the C client, and what it leaves. -/
theorem readyAfter_poll {k : Conn} {a : ConnAct} {ready : RequestId → Option Msg} {id : RequestId}
    {rc : CInt} {out : Msg} (ha : a.act = .poll id rc out) (h : k.readyAfter a = some ready) :
    answers (k.ready id) rc out = true ∧
      ready = complete (Function.update k.ready id none) a.completed := by
  simp only [Conn.readyAfter, ha] at h
  split at h
  · rename_i hans
    exact ⟨hans, (Option.some.inj h).symm⟩
  · exact absurd h (by simp)

theorem readyAfter_quiet {k : Conn} {a : ConnAct} {ready : RequestId → Option Msg}
    (ha : ∀ id rc out, a.act ≠ .poll id rc out) (h : k.readyAfter a = some ready) :
    ready = complete k.ready a.completed := by
  unfold Conn.readyAfter at h
  split at h
  · rename_i id rc out heq
    exact absurd heq (ha id rc out)
  · exact (Option.some.inj h).symm

/-- What is held is answered with code 0. -/
theorem answers_some {m : Msg} {rc : CInt} {out : Msg} (h : answers (some m) rc out = true) :
    rc = 0 ∧ out = m := by
  simpa [answers] using h

/-- A poll that yields no response is not of a completed request. -/
theorem ne_of_unanswered {ready : RequestId → Option Msg} {id id' : RequestId} {m : Msg} {rc : CInt}
    {out : Msg} (hready : ready id = some m) (hans : answers (ready id') rc out = true)
    (hpoll : ∀ resp, pollRequest rc out ≠ .ok (some resp)) : id ≠ id' := by
  rintro rfl
  rw [hready] at hans
  obtain ⟨rfl, rfl⟩ := answers_some hans
  exact hpoll ⟨out⟩ (pollRequest_some.mpr ⟨rfl, rfl⟩)

/-- A poll of another request leaves it ready. -/
theorem complete_of_other {ready : RequestId → Option Msg} {id id' : RequestId} {m : Msg}
    (hid : id ≠ id') (hready : ready id = some m) (done : List (RequestId × Msg)) :
    complete (Function.update ready id' none) done id = some m := by
  refine complete_of_ready ?_ done
  rw [Function.update_of_ne hid]
  exact hready

/-- **One step of the sweep**: a completed request stays ahead of it, or is answered. -/
theorem sweep_step {k j : Conn} {a : ConnAct} (hre : conn.Reachable k)
    (hst : conn.step k a = some j) {id : RequestId} {c : CallId} {m : Msg} (h : Ahead k id c m) :
    Ahead j id c m ∨ Answered j.owner c m := by
  obtain ⟨⟨i, hpc, hmem⟩, hready⟩ := h
  obtain ⟨hown, hafter⟩ := conn_step hst
  have hre' := conn_reachable hre
  have hpend : (id, c) ∈ k.owner.pending := List.mem_of_mem_drop hmem
  have ho := step_inv hown
  generalize hact : a.act = b at ho
  generalize hjo : j.owner = u at ho
  cases ho with
  | start _ | send _ _ | sendClosed _ _ | wake _ | reply _ _ | cancel _ | takeSender _ _
  | dropWake _ =>
    -- another party moves, the sweep stays where it is
    refine Or.inl ⟨⟨i, (congrArg State.pc hjo).trans hpc, ?_⟩, ?_⟩
    · rw [congrArg State.pending hjo]
      exact hmem
    · rw [readyAfter_quiet (by simp [hact]) hafter]
      exact complete_of_ready hready _
  | submitOk hp _ _ _ | submitErr hp _ _ | empty hp _ | disconnected hp _ | tickClosed hp _
  | tickOk hp _ | block hp | unblock hp | readWake hp _ | readDone hp _ | failNext hp _
  | failEnd hp _ | dropRx hp => rw [hpc] at hp; exact absurd hp (by simp)
  | @sweepEnd i' hp hlen =>
    obtain rfl : i = i' := Pc.sweep.inj (hpc.symm.trans hp)
    rw [List.drop_eq_nil_of_le hlen] at hmem
    exact absurd hmem List.not_mem_nil
  | @pollReady i' id' c' rc out resp hp hi hpoll =>
    obtain rfl : i = i' := Pc.sweep.inj (hpc.symm.trans hp)
    obtain ⟨-, rfl⟩ := pollRequest_some.mp hpoll
    obtain ⟨hans, hj⟩ := readyAfter_poll hact hafter
    by_cases hid : id = id'
    · subst hid
      rw [hready] at hans
      obtain ⟨-, rfl⟩ := answers_some hans
      obtain rfl := pending_call hre' hpend (List.mem_of_getElem? hi)
      exact Or.inr (hjo ▸ answered_of_held hre' (mem_held_of_pending hpend) _ _)
    · refine Or.inl ⟨⟨i, (congrArg State.pc hjo).trans hp, ?_⟩, ?_⟩
      · rw [congrArg State.pending hjo]
        exact (mem_drop_swapRemove hi hmem).resolve_left fun heq => hid (congrArg Prod.fst heq)
      · rw [hj]
        exact complete_of_other hid hready _
  | @pollNone i' id' c' rc out hp hi hpoll =>
    obtain rfl : i = i' := Pc.sweep.inj (hpc.symm.trans hp)
    obtain ⟨hans, hj⟩ := readyAfter_poll hact hafter
    have hid : id ≠ id' := ne_of_unanswered hready hans (by simp [hpoll])
    refine Or.inl ⟨⟨i + 1, congrArg State.pc hjo, ?_⟩, ?_⟩
    · rw [congrArg State.pending hjo]
      exact (mem_drop_succ hi hmem).resolve_left fun heq => hid (congrArg Prod.fst heq)
    · rw [hj]
      exact complete_of_other hid hready _
  | @pollErr i' id' c' rc out e hp hi hpoll =>
    obtain rfl : i = i' := Pc.sweep.inj (hpc.symm.trans hp)
    obtain ⟨hans, hj⟩ := readyAfter_poll hact hafter
    have hid : id ≠ id' := ne_of_unanswered hready hans (by simp [hpoll])
    refine Or.inl ⟨⟨i, (congrArg State.pc hjo).trans hp, ?_⟩, ?_⟩
    · rw [congrArg State.pending hjo]
      exact (mem_drop_swapRemove hi hmem).resolve_left fun heq => hid (congrArg Prod.fst heq)
    · rw [hj]
      exact complete_of_other hid hready _

/-! ## From a tick on -/

/-- What is kept from a tick on: the response is ahead of the sweep, or its caller has it. -/
def Safe (k : Conn) (id : RequestId) (c : CallId) (m : Msg) : Prop :=
  conn.Reachable k ∧ (Ahead k id c m ∨ Answered k.owner c m)

theorem safe_step {k j : Conn} {a : ConnAct} {id : RequestId} {c : CallId} {m : Msg}
    (h : Safe k id c m) (hst : conn.step k a = some j) : Safe j id c m := by
  obtain ⟨hre, h⟩ := h
  refine ⟨conn.reachable_step hre hst, ?_⟩
  rcases h with h | h
  · exact sweep_step hre hst h
  · exact Or.inr (result_step (conn_reachable hre) (conn_step hst).1 h)

theorem Safe.delivered {k : Conn} {id : RequestId} {c : CallId} {m : Msg} (h : Safe k id c m) :
    Delivered k.owner c m := by
  obtain ⟨hre, h⟩ := h
  rcases h with ⟨⟨i, hpc, hmem⟩, -⟩ | h
  · have hheld := mem_held_of_pending (List.mem_of_mem_drop hmem)
    have hnone := result_of_held (conn_reachable hre) hheld
    exact ⟨fun r hr => absurd (hnone.symm.trans hr) (by simp), fun hns => absurd hpc (hns i)⟩
  · rcases h with hr | hc
    · exact ⟨fun r hr' => Option.some.inj (hr'.symm.trans hr), fun _ _ => hr⟩
    · have hnone : result k.owner c = none := by simp [result, hc]
      exact ⟨fun r hr => absurd (hnone.symm.trans hr) (by simp), fun _ hl => absurd hc hl.2⟩

/-- The tick itself: it closes, or the sweep starts at the first entry. -/
theorem tick_step {k j : Conn} {a : ConnAct} (hst : conn.step k a = some j) (ht : a.act.IsTick) :
    j.owner.pending = k.owner.pending ∧ j.owner.calls = k.owner.calls ∧
      j.ready = complete k.ready a.completed ∧
      (a.act.Closes ∧ j.owner.pc = .failing ∨ ¬ a.act.Closes ∧ j.owner.pc = .sweep 0) := by
  obtain ⟨hown, hafter⟩ := conn_step hst
  cases hact : a.act with
  | tick rc alive =>
    have hready := readyAfter_quiet (by simp [hact]) hafter
    rw [hact] at hown
    have ho : Step k.owner (.tick rc alive) j.owner := step_inv hown
    generalize hjo : j.owner = u at ho
    cases ho with
    | tickClosed _ hc => exact ⟨rfl, rfl, hready, Or.inl ⟨hc, rfl⟩⟩
    | tickOk _ hc => exact ⟨rfl, rfl, hready, Or.inr ⟨hc, rfl⟩⟩
  | _ => rw [hact] at ht; exact absurd ht (by simp [Act.IsTick])

theorem isTick_of_closes {a : Act} (h : a.Closes) : a.IsTick := by
  cases a with
  | tick _ _ => trivial
  | _ => exact absurd h (by simp [Act.Closes])

/-- Who is in `pending` has started its call. -/
theorem live_of_pending {s : State} (h : machine.Reachable s) {id : RequestId} {c : CallId}
    (hmem : (id, c) ∈ s.pending) (hc : s.calls c ≠ .cancelled) : (s.calls c).Live := by
  refine ⟨fun hidle => ?_, hc⟩
  have hcaller : (s.calls c).caller = .waiting ∨ (s.calls c).caller = .gone :=
    (reachable_ledger h).handed c (mem_held_of_pending hmem)
  rw [hidle] at hcaller
  simp [Dispatch.caller] at hcaller

/-- A closing tick with a completed response of a live caller does not deliver it. -/
theorem not_delivered_of_closes {k j : Conn} {a : ConnAct} (hj : conn.step k a = some j)
    (hre : conn.Reachable j) (hcl : a.act.Closes) {id : RequestId} {c : CallId} {m : Msg}
    (hmem : (id, c) ∈ k.owner.pending) (hlive : k.owner.calls c ≠ .cancelled) :
    ¬ Delivered j.owner c m := by
  intro hd
  obtain ⟨hp, hc, -, hpc⟩ := tick_step hj (isTick_of_closes hcl)
  have hfail : j.owner.pc = .failing := by
    rcases hpc with ⟨-, hpc⟩ | ⟨hncl, -⟩
    · exact hpc
    · exact absurd hcl hncl
  have hmemJ : (id, c) ∈ j.owner.pending := by
    rw [hp]
    exact hmem
  have hliveJ := live_of_pending (conn_reachable hre) hmemJ (by rw [hc]; exact hlive)
  have hsome := hd.told (by rw [hfail]; simp) hliveJ
  rw [result_of_held (conn_reachable hre) (mem_held_of_pending hmemJ)] at hsome
  exact absurd hsome (by simp)

/-- A tick that meets the condition leaves every completed response safe. -/
theorem safe_of_tick {k j : Conn} {a : ConnAct} (hst : conn.step k a = some j)
    (hre : conn.Reachable j) (htick : a.act.IsTick) (hcl : ClosesEmpty k a) {id : RequestId}
    {c : CallId} {m : Msg} (hmem : (id, c) ∈ j.owner.pending) (hm : j.ready id = some m) :
    Safe j id c m := by
  obtain ⟨hp, hc, hready, hpc⟩ := tick_step hst htick
  refine ⟨hre, ?_⟩
  rcases hpc with ⟨hcloses, -⟩ | ⟨-, hpc⟩
  · rw [hp] at hmem
    rw [hready] at hm
    have hgone := hcl hcloses id c hmem (by rw [hm]; simp)
    exact Or.inr (Or.inr (by rw [hc]; exact hgone))
  · exact Or.inl ⟨⟨0, hpc, by rwa [List.drop_zero]⟩, hm⟩

/-- **No completed response is discarded** exactly in the runs in which no closing tick leaves a
completed request of a live caller in `pending`. -/
theorem none_discarded_iff {acts : List ConnAct} {k : Conn} (h : conn.run acts = some k) :
    NoneDiscarded acts ↔ conn.Guarded ClosesEmpty conn.init acts := by
  constructor
  · intro hall
    refine conn.guarded_of_split h ?_
    rintro pre a post u j rfl hu hj - hcl id c hmem hne
    by_contra hlive
    have htick := isTick_of_closes hcl
    have hrun : conn.run (pre ++ [a]) = some j := conn.run_snoc.mpr ⟨u, hu, hj⟩
    obtain ⟨hp, -, hready, -⟩ := tick_step hj htick
    obtain ⟨m, hm⟩ := Option.ne_none_iff_exists'.mp hne
    -- the closing tick itself: the response is due, and the caller is still waiting
    have hd := hall pre a [] post j j (by simp) htick hrun rfl id c m (by rw [hp]; exact hmem)
      (by rw [hready]; exact hm)
    exact not_delivered_of_closes hj ⟨_, hrun⟩ hcl hmem hlive hd
  · rintro hg pre a mid post j k' rfl htick hj hk id c m hmem hm
    obtain ⟨u, hu, hst⟩ := conn.run_snoc.mp hj
    have hcl := (conn.guarded_iff h).mp hg pre a (mid ++ post) u rfl hu
    have hsafe := safe_of_tick hst ⟨_, hj⟩ htick hcl hmem hm
    exact (conn.runFrom_induction (P := fun u => Safe u id c m)
      (fun _ _ _ hs hst => safe_step hs hst) hsafe hk).delivered

/-- One request is in flight. -/
def inFlight : List ConnAct :=
  [⟨.start 0 ⟨.read, [47], [], []⟩, []⟩, ⟨.send 0, []⟩, ⟨.wake 0, []⟩,
   ⟨.submit ⟨⟨.read, [47], [], []⟩, 0⟩ 0 7, []⟩, ⟨.empty, []⟩]

/-- The sweep that delivers a response. -/
def sweepRun : List ConnAct := inFlight ++ [⟨.tick 0 1, [(7, 42)]⟩, ⟨.poll 7 0 42, []⟩, ⟨.reply 0, []⟩]

theorem none_discarded_iff_sweepRun :
    ∃ k, conn.run sweepRun = some k ∧ k.owner.calls 0 = .done (.ok ⟨42⟩) ∧ NoneDiscarded sweepRun :=
  ⟨_, rfl, rfl, (none_discarded_iff rfl).mpr
    (conn.guarded_of_forall (by simp [sweepRun, inFlight, ClosesEmpty, Act.Closes, Client.tick,
      Error.check, isAlive, Except.isOk, Except.toBool]) _)⟩

/-- The tick that completes request 7 finds the connection closed. -/
def closingRun : List ConnAct :=
  [⟨.failNext, []⟩, ⟨.failNext, []⟩, ⟨.dropRx, []⟩, ⟨.reply 0, []⟩]

/-- **A response is discarded**: the caller of a completed request is told NetworkClosed. -/
theorem closing_tick_discards :
    ∃ k, conn.run (inFlight ++ ⟨.tick 0 0, [(7, 42)]⟩ :: closingRun) = some k ∧
      k.owner.calls 0 = .done (.error .networkClosed) ∧
      ¬ NoneDiscarded (inFlight ++ ⟨.tick 0 0, [(7, 42)]⟩ :: closingRun) := by
  refine ⟨_, rfl, rfl, fun h => ?_⟩
  have hd := h inFlight ⟨.tick 0 0, [(7, 42)]⟩ closingRun [] _ _ (by simp) trivial rfl rfl 7 0 42
    List.mem_cons_self rfl
  exact absurd (hd.only _ rfl) (by simp)

end Nwep.Runtime.ClientLoop
