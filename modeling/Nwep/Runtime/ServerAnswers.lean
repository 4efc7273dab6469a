import Nwep.Runtime.ServerRouting

/-!
# One right answer for every managed command

What a `resolve` or `dht_metrics` call gets (`nwep/src/runtime.rs` 103-122), over every interleaving
with the owner, every dht and every exit.

Results:
* `takes_run`: the owner serves a command at most once, and never one that is still queued;
* `outcome_runFrom`: the outcome of a call is final;
* `outcome_right`: it is the answer of the command's own run, or the command was never served;
* `exit_runFrom`: what is queued when the loop exits ends as `NetworkClosed`, or none;
* **`command_exactly_once`**: the parts together, for deadlines that are instants and a clock that
  never steps back.
-/

namespace Nwep.Runtime.ServerLoop

open Nwep.Lib

/-! ## Asked once -/

/-- Calls are numbered in the order they start, so a call asks for one thing. -/
def AskedOnce (acts : List Act) (s : State) : Prop :=
  ∀ c ask, .start c ask ∈ acts → c < s.started ∧ ∀ ask', .start c ask' ∈ acts → ask' = ask

theorem started_step {cfg : Config} {s t : State} {a : Act} (hs : Step cfg s a t) :
    t.started = s.started ∧ (∀ c ask, a ≠ .start c ask) ∨
      ∃ ask, a = .start s.started ask ∧ t.started = s.started + 1 := by
  cases hs with
  | @start ask _ => exact Or.inr ⟨ask, rfl, rfl⟩
  | _ => exact Or.inl ⟨rfl, by simp⟩

theorem askedOnce_run {cfg : Config} {acts : List Act} {s : State}
    (h : (machine cfg).run acts = some s) : AskedOnce acts s := by
  refine (machine cfg).run_induction (P := AskedOnce) ?_ ?_ h
  · intro c ask hm
    exact absurd hm List.not_mem_nil
  · intro as s a t _ hp hst
    rcases started_step (step_inv hst) with ⟨heq, ha⟩ | ⟨ask, rfl, hnext⟩
    · have hmem : ∀ {c ask}, .start c ask ∈ as ++ [a] → .start c ask ∈ as := by
        intro c ask hm
        rcases List.mem_append.mp hm with hm | hm
        · exact hm
        · exact absurd (List.mem_singleton.mp hm).symm (ha c ask)
      intro c ask hm
      obtain ⟨hlt, huniq⟩ := hp c ask (hmem hm)
      exact ⟨heq ▸ hlt, fun ask' hm' => huniq ask' (hmem hm')⟩
    · intro c ask' hm
      have hother : ∀ {ask''}, .start c ask'' ∈ as ++ [Act.start s.started ask] →
          .start c ask'' ∈ as ∨ c = s.started ∧ ask'' = ask := by
        intro ask'' hm'
        simpa using hm'
      rcases hother hm with hm | ⟨rfl, rfl⟩
      · obtain ⟨hlt, huniq⟩ := hp c ask' hm
        refine ⟨hnext ▸ Nat.lt_succ_of_lt hlt, fun ask'' hm' => ?_⟩
        rcases hother hm' with hm' | ⟨rfl, -⟩
        · exact huniq ask'' hm'
        · exact absurd hlt (Nat.lt_irrefl _)
      · refine ⟨hnext ▸ Nat.lt_succ_self _, fun ask'' hm' => ?_⟩
        rcases hother hm' with hm' | ⟨-, h⟩
        · exact absurd (hp _ _ hm').1 (Nat.lt_irrefl _)
        · exact h

/-! ## Served at most once -/

/-- The label takes the command at the head of the queue. -/
def Act.serves : Act → Bool
  | .take => true
  | .metrics _ => true
  | _ => false

/-- The command of call `c` is at the head of the queue. -/
def atHead (s : State) (c : CallId) : Bool :=
  decide (s.cmds.queue.head?.map ServerCommand.reply = some c)

/-- How often the owner took the command of call `c`. -/
def takes (cfg : Config) (c : CallId) (acts : List Act) : Nat :=
  (machine cfg).countFrom (fun s a => a.serves && atHead s c) (init cfg) acts

theorem takes_snoc {cfg : Config} {acts : List Act} {s : State} {a : Act} (c : CallId)
    (h : (machine cfg).run acts = some s) :
    takes cfg c (acts ++ [a]) = takes cfg c acts + if a.serves && atHead s c then 1 else 0 :=
  (machine cfg).countFrom_snoc h

/-- The head of the queue is one command of one waiting or dropped call. -/
theorem head_held {cfg : Config} {s : State} (hre : (machine cfg).Reachable s) {cmd : ServerCommand}
    {q : List ServerCommand} (hq : s.cmds.queue = cmd :: q) :
    cmd.reply ∉ q.map ServerCommand.reply ∧ s.replies cmd.reply = .waiting ∧
      ((s.calls cmd.reply).caller = .waiting ∨ (s.calls cmd.reply).caller = .gone) := by
  have hinv := reachable_ledger hre
  have hmem : cmd.reply ∈ (ledger s).held := by
    simp [ledger, heldList, hq]
  have hnd : (heldList s).Nodup := Multiset.coe_nodup.mp hinv.nodup
  rw [heldList, hq, List.map_cons, List.nodup_append] at hnd
  exact ⟨(List.nodup_cons.mp hnd.2.1).1, Oneshot.map_eq_waiting.mp (hinv.unsent _ hmem),
    hinv.handed _ hmem⟩

/-- A call is served at most once, and not before its command leaves the queue. -/
def TakenOnce (cfg : Config) (acts : List Act) (s : State) : Prop :=
  ∀ c, takes cfg c acts ≤ 1 ∧
    ((s.calls c).caller = .out ∨ c ∈ s.cmds.queue.map ServerCommand.reply ∨ s.replies c = .dropped →
      takes cfg c acts = 0)

theorem out_step {cfg : Config} {s t : State} {a : Act} (hsh : Shape s) (hs : Step cfg s a t)
    {c : CallId} (h : (t.calls c).caller = .out) : (s.calls c).caller = .out := by
  rcases calls_step hs c with heq | hm
  · rwa [heq] at h
  · generalize t.calls c = k at h hm
    cases hm with
    | start hc => rw [hc, hsh.fresh _ (Nat.le_refl _)]; rfl
    | send _ _ | sendClosed _ _ | reply _ _ | cancel _ => exact absurd h (by simp [Call.caller])

theorem queued_step {cfg : Config} {s t : State} {a : Act} (hs : Step cfg s a t) {c : CallId}
    (h : c ∈ t.cmds.queue.map ServerCommand.reply) :
    c ∈ s.cmds.queue.map ServerCommand.reply ∨ (s.calls c).caller = .out := by
  obtain ⟨cmd, hcmd, rfl⟩ := List.mem_map.mp h
  rcases queue_step hs hcmd with hold | ⟨c, ask, -, hc, rfl⟩
  · exact Or.inl (List.mem_map_of_mem hold)
  · rw [ask.command_reply, hc]
    exact Or.inr rfl

theorem dropped_step {cfg : Config} {s t : State} {a : Act} (hs : Step cfg s a t)
    (hg : DeadlineFits s a) {c : CallId} (h : t.replies c = .dropped) :
    s.replies c = .dropped ∨ c ∈ s.cmds.queue.map ServerCommand.reply := by
  have hcell := cell_step hs c
  generalize t.replies c = v at h hcell
  cases hcell with
  | same => exact Or.inl h
  | lookup _ _ | metrics _ _ _ => exact Or.inl (Oneshot.dropped_of_send h)
  | dropped hq _ => exact Or.inr hq
  | panicked hpc ha hd =>
    subst ha
    exact absurd hd (Nat.not_lt.mpr ((deadlineFits_iff hpc _).mp hg))

theorem takenOnce_step {cfg : Config} {acts : List Act} {s t : State} {a : Act}
    (hr : (machine cfg).run acts = some s) (h : TakenOnce cfg acts s) (hg : DeadlineFits s a)
    (hs : Step cfg s a t) : TakenOnce cfg (acts ++ [a]) t := by
  have hsh := reachable_shape ⟨acts, hr⟩
  intro c
  rw [takes_snoc c hr]
  have hback : (t.calls c).caller = .out ∨ c ∈ t.cmds.queue.map ServerCommand.reply ∨
      t.replies c = .dropped → takes cfg c acts = 0 := by
    intro ht
    refine (h c).2 ?_
    rcases ht with ht | ht | ht
    · exact Or.inl (out_step hsh hs ht)
    · exact (queued_step hs ht).elim (fun h => Or.inr (Or.inl h)) Or.inl
    · exact (dropped_step hs hg ht).elim (fun h => Or.inr (Or.inr h)) fun h => Or.inr (Or.inl h)
  by_cases hserve : (a.serves && atHead s c) = true
  · -- the command of `c` leaves the queue: nothing else of it is left there
    rw [if_pos hserve]
    simp only [atHead, Bool.and_eq_true, decide_eq_true_eq] at hserve
    obtain ⟨ha, hhead⟩ := hserve
    have htaken : ∃ cmd ch, s.cmds.tryRecv = .item cmd ch ∧ t.cmds = ch ∧ t.calls = s.calls := by
      cases hs with
      | take _ hq => exact ⟨_, _, hq, rfl, rfl⟩
      | metrics _ hq => exact ⟨_, _, hq, rfl, rfl⟩
      | _ => exact absurd ha (by simp [Act.serves])
    obtain ⟨cmd, ch, hq, htq, htc⟩ := htaken
    obtain ⟨hqq, -, -⟩ := Mpsc.tryRecv_item hq
    rw [hqq] at hhead
    obtain rfl : cmd.reply = c := by simpa using hhead
    obtain ⟨hnot, hcell, hcaller⟩ := head_held ⟨acts, hr⟩ hqq
    have h0 : takes cfg cmd.reply acts = 0 := (h cmd.reply).2 (Or.inr (Or.inl (by simp [hqq])))
    refine ⟨by omega, fun ht => ?_⟩
    rcases ht with ht | ht | ht
    · rw [htc] at ht
      rcases hcaller with hw | hw <;> rw [hw] at ht <;> exact absurd ht (by simp)
    · rw [htq] at ht
      exact absurd ht hnot
    · have hcell' := cell_step hs cmd.reply
      generalize t.replies cmd.reply = v at ht hcell'
      cases hcell' with
      | same => rw [hcell] at ht; exact absurd ht (by simp)
      | lookup _ _ | metrics _ _ _ => rw [hcell] at ht; exact absurd ht (by simp)
      | dropped _ hb => rcases hb with rfl | rfl <;> exact absurd ha (by simp [Act.serves])
      | panicked _ hb _ => subst hb; exact absurd ha (by simp [Act.serves])
  · rw [if_neg hserve]
    exact ⟨(h c).1, hback⟩

/-- **The owner serves a command at most once**, in a run whose deadlines are instants. -/
theorem takes_run {cfg : Config} {acts : List Act} {s : State} (h : (machine cfg).run acts = some s)
    (hg : (machine cfg).Guarded DeadlineFits (init cfg) acts) : TakenOnce cfg acts s := by
  refine (machine cfg).run_induction_guarded (P := TakenOnce cfg) ?_ ?_ h hg
  · intro c
    exact ⟨Nat.zero_le 1, fun _ => rfl⟩
  · intro as s a t hr hp hga hst
    exact takenOnce_step hr hp hga (step_inv hst)

/-! ## Outcomes -/

/-- The future was started and not dropped. -/
def Call.Live (k : Call) : Prop := k ≠ .idle ∧ k ≠ .cancelled

/-- What call `c` returns when its future is polled now; none while it has to wait. -/
def outcome (s : State) (c : CallId) : Option Outcome :=
  match s.calls c with
  | .sending ask => if s.cmds.rxOpen then none else some ask.closed
  | .awaiting ask => (s.replies c).recv.map (·.getD ask.closed)
  | .done o => some o
  | _ => none

/-- A label of the future of call `c` itself. -/
def Act.Own (c : CallId) : Act → Prop
  | .sendClosed b => b = c
  | .reply b => b = c
  | _ => False

/-- A receiver that is gone stays gone. -/
theorem rx_step {cfg : Config} {s t : State} {a : Act} (hs : Step cfg s a t)
    (h : s.cmds.rxOpen = false) : t.cmds.rxOpen = false := by
  cases hs with
  | send _ hp =>
    obtain ⟨-, hr, -⟩ := Mpsc.push_spec hp
    rw [h] at hr
    exact absurd hr (by simp)
  | take _ hq | metrics _ hq => exact (Mpsc.tryRecv_item hq).2.2.trans h
  | ageOverflow _ _ | deadlinePanic _ _ | dropRx _ => rfl
  | _ => exact h

/-- What awaiting a cell yields is final. -/
theorem recv_step {cfg : Config} {s t : State} {a : Act} (hs : Step cfg s a t) {c : CallId}
    {v : Option Outcome} (h : (s.replies c).recv = some v) : (t.replies c).recv = some v := by
  have hcell := cell_step hs c
  generalize t.replies c = w at hcell
  cases hcell with
  | same => exact h
  | lookup _ _ | metrics _ _ _ => exact Oneshot.recv_send h _
  | dropped _ _ | panicked _ _ _ => exact Oneshot.recv_drop h

theorem outcome_step {cfg : Config} {s t : State} {a : Act} (hsh : Shape s) (hs : Step cfg s a t)
    {c : CallId} {o : Outcome} (h : outcome s c = some o ∨ s.calls c = .cancelled) :
    outcome t c = some o ∨ t.calls c = .cancelled := by
  rcases calls_step hs c with heq | hm
  · rcases h with h | h
    · left
      unfold outcome at h ⊢
      rw [heq]
      cases hc : s.calls c with
      | sending ask =>
        simp only [hc] at h ⊢
        split at h
        · exact absurd h (by simp)
        · rename_i hrx
          rw [rx_step hs (by simpa using hrx)]
          exact h
      | awaiting ask =>
        simp only [hc] at h ⊢
        obtain ⟨v, hv, hov⟩ := Option.map_eq_some_iff.mp h
        rw [recv_step hs hv]
        exact congrArg some hov
      | done _ => simpa only [hc] using h
      | idle | cancelled => simp only [hc] at h; exact absurd h (by simp)
    · exact Or.inr (heq.trans h)
  · generalize hk : t.calls c = k at hm
    cases hm with
    | start hc =>
      have hidle : s.calls c = .idle := hsh.fresh c (Nat.le_of_eq hc.symm)
      simp [outcome, hidle] at h
    | send hc hrx => simp [outcome, hc, hrx] at h
    | sendClosed hc hrx =>
      have h' : outcome s c = some o := h.resolve_right (by simp [hc])
      simp only [outcome, hc, hrx] at h'
      exact Or.inl (by simpa [outcome, hk] using h')
    | reply hc hrecv =>
      have h' : outcome s c = some o := h.resolve_right (by simp [hc])
      simp only [outcome, hc, hrecv, Option.map_some] at h'
      exact Or.inl (by simpa [outcome, hk] using h')
    | cancel _ => exact Or.inr rfl

/-- **The outcome of a call is final**, until its future is dropped. -/
theorem outcome_runFrom {cfg : Config} {s t : State} {acts : List Act}
    (hre : (machine cfg).Reachable s) (hr : (machine cfg).runFrom s acts = some t) {c : CallId}
    {o : Outcome} (h : outcome s c = some o) : outcome t c = some o ∨ t.calls c = .cancelled := by
  have key := (machine cfg).runFrom_induction
    (P := fun u => (machine cfg).Reachable u ∧ (outcome u c = some o ∨ u.calls c = .cancelled))
    (fun u a v hp hst => ⟨(machine cfg).reachable_step hp.1 hst,
      outcome_step (reachable_shape hp.1) (step_inv hst) hp.2⟩)
    ⟨hre, Or.inl h⟩ hr
  exact key.2

/-- A future with an outcome returns it by its own steps alone. -/
theorem outcome_taken {cfg : Config} {s : State} {c : CallId} {o : Outcome}
    (h : outcome s c = some o) : ∃ own t, (∀ a ∈ own, a.Own c) ∧
      (machine cfg).runFrom s own = some t ∧ t.calls c = .done o := by
  unfold outcome at h
  split at h
  · rename_i ask hc
    split at h
    · exact absurd h (by simp)
    · rename_i hrx
      obtain rfl := Option.some.inj h
      refine ⟨[.sendClosed c], s.setCall c (.done ask.closed), by simp [Act.Own], ?_, by simp⟩
      simp [Machine.runFrom, machine, step, hc, hrx]
  · rename_i ask hc
    obtain ⟨v, hv, rfl⟩ := Option.map_eq_some_iff.mp h
    refine ⟨[.reply c], s.setCall c (.done (v.getD ask.closed)), by simp [Act.Own], ?_, by simp⟩
    simp [Machine.runFrom, machine, step, hc, hv]
  · rename_i v hc
    obtain rfl := Option.some.inj h
    exact ⟨[], s, by simp, rfl, hc⟩
  · exact absurd h (by simp)

/-- A call that waits without an outcome is queued or being served. -/
theorem held_of_awaiting {cfg : Config} {s : State} (hre : (machine cfg).Reachable s) {c : CallId}
    {ask : Ask} (hc : s.calls c = .awaiting ask) (h : outcome s c = none) : c ∈ heldList s := by
  have hw : (ledger s).caller c = .waiting := by simp [ledger, hc, Call.caller]
  have hcell : (ledger s).cell c = .waiting := by
    simp only [outcome, hc] at h
    cases hrep : s.replies c with
    | waiting => simp [ledger, hrep]
    | sent v => simp [hrep, Oneshot.recv] at h
    | dropped => simp [hrep, Oneshot.recv] at h
  exact Multiset.mem_coe.mp ((reachable_ledger hre).kept c hw hcell)

/-- **Nobody is left waiting**: once the owner has returned every live future has its outcome. -/
theorem outcome_of_returned {cfg : Config} {s : State} (hre : (machine cfg).Reachable s)
    (hpc : s.pc = .returned) {c : CallId} (hl : (s.calls c).Live) : ∃ o, outcome s c = some o := by
  have hrx : s.cmds.rxOpen = false := (reachable_shape hre).rx.mpr (Or.inl hpc)
  have hnone : heldList s = [] := by simp [heldList, hpc, Pc.serving, s.cmds.drained hrx]
  cases hc : s.calls c with
  | idle => exact absurd hc hl.1
  | cancelled => exact absurd hc hl.2
  | done o => exact ⟨o, by simp [outcome, hc]⟩
  | sending ask => exact ⟨ask.closed, by simp [outcome, hc, hrx]⟩
  | awaiting ask =>
    cases ho : outcome s c with
    | some o => exact ⟨o, rfl⟩
    | none =>
      have hmem := held_of_awaiting hre hc ho
      rw [hnone] at hmem
      exact absurd hmem List.not_mem_nil

/-! ## The right answer -/

/-- What a call may return: the answer of its command's own run; `NetworkClosed`, or none, when the
receiver is dropped before the command is served; and what there is without a dht. -/
inductive Right (cfg : Config) (acts : List Act) (c : CallId) : Ask → Outcome → Prop
  | ran {target timeout r} (h : Ran cfg acts ⟨target, timeout, c⟩ r) :
      Right cfg acts c (.resolve target timeout) (.resolve r)
  | counted {m} (h : Counted cfg acts c m) : Right cfg acts c .dhtMetrics (.dhtMetrics (some m))
  | closed {ask} (h : takes cfg c acts = 0) (hd : .dropRx ∈ acts) : Right cfg acts c ask ask.closed
  | unattached {ask} (h : cfg.dht = false) : Right cfg acts c ask ask.unattached

/-- The steps of a run without a panic. -/
def Calm (s : State) (a : Act) : Prop := DeadlineFits s a ∧ a ≠ .ageOverflow

theorem guarded_calm {cfg : Config} {acts : List Act} {s : State}
    (h : (machine cfg).run acts = some s)
    (hd : (machine cfg).Guarded DeadlineFits (init cfg) acts) (hm : Monotone acts) :
    (machine cfg).Guarded Calm (init cfg) acts := by
  refine (machine cfg).guarded_of_split h ?_
  rintro pre a post u v rfl hu hv _
  have hdu : DeadlineFits u a := (((machine cfg).guarded_append hu).mp hd).2.1
  refine ⟨hdu, ?_⟩
  rintro rfl
  have hstep : Step cfg u .ageOverflow v := step_inv hv
  have hpan : v.pc = .panicked := by
    cases hstep with
    | ageOverflow _ _ => rfl
  have hgp := ((machine cfg).guarded_snoc hu).mpr
    ⟨(((machine cfg).guarded_append hu).mp hd).1, hdu⟩
  have hmp : Monotone (pre ++ [.ageOverflow]) := by
    have hsame : (pre ++ [Act.ageOverflow]).filterMap Act.secs = pre.filterMap Act.secs := by
      simp [List.filterMap_append, Act.secs]
    unfold Monotone at hm ⊢
    rw [List.filterMap_append, List.pairwise_append] at hm
    rw [hsame]
    exact hm.1
  exact not_panicked ((machine cfg).run_snoc.mpr ⟨u, hu, hv⟩) hgp hmp hpan

/-- An answer in the cell of a call is the right one. -/
theorem right_of_sent {cfg : Config} {acts : List Act} {s : State}
    (h : (machine cfg).run acts = some s) {c : CallId} {ask : Ask} {o : Outcome}
    (hstart : .start c ask ∈ acts) (hc : s.replies c = .sent o) : Right cfg acts c ask o := by
  have hist := history_run h
  have huniq := (askedOnce_run h c ask hstart).2
  cases o with
  | resolve r =>
    obtain ⟨⟨target, timeout, b⟩, rfl, hran⟩ := hist.lookups c r hc
    have ⟨pre, mid, a, post, hacts, hu, _⟩ := hran
    have hmem : .start b (.resolve target timeout) ∈ acts := by
      rw [hacts]
      exact List.mem_append_left _ hu.started
    obtain rfl := huniq _ hmem
    exact .ran hran
  | dhtMetrics m =>
    obtain ⟨n, rfl, hcount⟩ := hist.metrics c m hc
    have ⟨pre, post, u, ch, hacts, hs, _⟩ := hcount
    have hmem : .start c .dhtMetrics ∈ acts := by
      rw [hacts]
      exact List.mem_append_left _ hs
    obtain rfl := huniq _ hmem
    exact .counted hcount

/-- What is settled stays right. -/
theorem Right.snoc {cfg : Config} {acts : List Act} {s : State}
    (hr : (machine cfg).run acts = some s) {c : CallId} {ask : Ask} {o : Outcome}
    (h : Right cfg acts c ask o) {a : Act} (hc : (a.serves && atHead s c) = false) :
    Right cfg (acts ++ [a]) c ask o := by
  cases h with
  | ran h => exact .ran (h.snoc a)
  | counted h => exact .counted (h.snoc a)
  | closed h hd =>
    refine .closed ?_ (List.mem_append_left _ hd)
    rw [takes_snoc c hr, hc, h]
    rfl
  | unattached h => exact .unattached h

/-- What a call has returned is right, and a sender or a receiver is dropped by the owner only. -/
structure Settled (cfg : Config) (acts : List Act) (s : State) : Prop where
  done    : ∀ c o, s.calls c = .done o → ∃ ask, .start c ask ∈ acts ∧ Right cfg acts c ask o
  gone    : s.cmds.rxOpen = false → .dropRx ∈ acts
  dropped : ∀ c, s.replies c = .dropped → .dropRx ∈ acts

theorem notHead_of_done {cfg : Config} {s : State} (hre : (machine cfg).Reachable s) {c : CallId}
    {o : Outcome} (h : s.calls c = .done o) : atHead s c = false := by
  unfold atHead
  refine decide_eq_false fun hhead => ?_
  cases hq : s.cmds.queue with
  | nil => rw [hq] at hhead; exact absurd hhead (by simp)
  | cons cmd q =>
    rw [hq] at hhead
    obtain rfl : cmd.reply = c := by simpa using hhead
    rcases (head_held hre hq).2.2 with hw | hw <;> rw [h] at hw <;> exact absurd hw (by simp [Call.caller])

theorem settled_step {cfg : Config} {acts : List Act} {s t : State} {a : Act}
    (hr : (machine cfg).run acts = some s) (ht : TakenOnce cfg acts s) (h : Settled cfg acts s)
    (hg : Calm s a) (hs : Step cfg s a t) : Settled cfg (acts ++ [a]) t := by
  have hre : (machine cfg).Reachable s := ⟨acts, hr⟩
  refine ⟨fun c o hc => ?_, fun hrx => ?_, fun c hc => ?_⟩
  · rcases calls_step hs c with heq | hm
    · rw [heq] at hc
      obtain ⟨ask, hstart, hright⟩ := h.done c o hc
      refine ⟨ask, List.mem_append_left _ hstart, hright.snoc hr ?_⟩
      rw [notHead_of_done hre hc, Bool.and_false]
    · generalize t.calls c = k at hc hm
      cases hm with
      | @start ask _ =>
        cases hd : cfg.dht with
        | true => simp [hd] at hc
        | false =>
          obtain rfl : ask.unattached = o := by simpa [hd] using hc
          exact ⟨ask, by simp, .unattached hd⟩
      | send _ _ | cancel _ => exact absurd hc (by simp)
      | @sendClosed ask hsend hrx =>
        obtain rfl := Call.done.inj hc
        have hstart := (history_run hr).asked c ask (Or.inl hsend)
        have h0 := (ht c).2 (Or.inl (by rw [hsend]; rfl))
        exact ⟨ask, List.mem_append_left _ hstart, (Right.closed h0 (h.gone hrx)).snoc hr rfl⟩
      | @reply ask v hwait hrecv =>
        obtain rfl := Call.done.inj hc
        have hstart := (history_run hr).asked c ask (Or.inr hwait)
        refine ⟨ask, List.mem_append_left _ hstart, ?_⟩
        cases hcell : s.replies c with
        | waiting => rw [hcell] at hrecv; exact absurd hrecv (by simp [Oneshot.recv])
        | sent w =>
          rw [hcell] at hrecv
          obtain rfl : some w = v := by simpa [Oneshot.recv] using hrecv
          exact (right_of_sent hr hstart hcell).snoc hr rfl
        | dropped =>
          rw [hcell] at hrecv
          obtain rfl : none = v := by simpa [Oneshot.recv] using hrecv
          have h0 := (ht c).2 (Or.inr (Or.inr hcell))
          exact (Right.closed h0 (h.dropped c hcell)).snoc hr rfl
  · cases hs with
    | send _ hp =>
      obtain ⟨-, hopen, -, -, -, hrx'⟩ := Mpsc.push_spec hp
      exact List.mem_append_left _ (h.gone (hrx'.symm.trans hrx))
    | take _ hq | metrics _ hq =>
      exact List.mem_append_left _ (h.gone ((Mpsc.tryRecv_item hq).2.2.symm.trans hrx))
    | ageOverflow _ _ => exact absurd rfl hg.2
    | deadlinePanic hpc hd =>
      have hfit := (deadlineFits_iff hpc _).mp hg.1
      exact absurd (instantAdd_none.mp hd) (Nat.not_lt.mpr hfit)
    | dropRx _ => simp
    | _ => exact List.mem_append_left _ (h.gone hrx)
  · have hcell := cell_step hs c
    generalize t.replies c = v at hc hcell
    cases hcell with
    | same => exact List.mem_append_left _ (h.dropped c hc)
    | lookup _ _ | metrics _ _ _ =>
      exact List.mem_append_left _ (h.dropped c (Oneshot.dropped_of_send hc))
    | dropped _ ha =>
      rcases ha with rfl | rfl
      · exact absurd rfl hg.2
      · simp
    | panicked hpc ha hd =>
      subst ha
      exact absurd hd (Nat.not_lt.mpr ((deadlineFits_iff hpc _).mp hg.1))

theorem settled_run {cfg : Config} {acts : List Act} {s : State}
    (h : (machine cfg).run acts = some s) (hg : (machine cfg).Guarded Calm (init cfg) acts) :
    TakenOnce cfg acts s ∧ Settled cfg acts s := by
  refine (machine cfg).run_induction_guarded
    (P := fun as s => TakenOnce cfg as s ∧ Settled cfg as s) ?_ ?_ h hg
  · refine ⟨fun c => ⟨Nat.zero_le 1, fun _ => rfl⟩, fun c o hc => ?_, fun hrx => ?_, fun c hc => ?_⟩
    · exact absurd hc (by simp [machine, init])
    · exact absurd hrx (by cases hd : cfg.dht <;> simp [machine, init, hd])
    · exact absurd hc (by simp [machine, init])
  · intro as s a t hr hp hga hst
    have hs : Step cfg s a t := step_inv hst
    exact ⟨takenOnce_step hr hp.1 hga.1 hs, settled_step hr hp.1 hp.2 hga hs⟩

/-- **The outcome of a call is right.** -/
theorem outcome_right {cfg : Config} {acts : List Act} {s : State}
    (h : (machine cfg).run acts = some s) (hg : (machine cfg).Guarded Calm (init cfg) acts)
    {c : CallId} {ask : Ask} {o : Outcome} (hstart : .start c ask ∈ acts)
    (ho : outcome s c = some o) : Right cfg acts c ask o := by
  obtain ⟨htaken, hset⟩ := settled_run h hg
  have hist := history_run h
  have huniq := (askedOnce_run h c ask hstart).2
  unfold outcome at ho
  split at ho
  · rename_i ask' hc
    obtain rfl := huniq ask' (hist.asked c ask' (Or.inl hc))
    split at ho
    · exact absurd ho (by simp)
    · rename_i hrx
      obtain rfl := Option.some.inj ho
      exact .closed ((htaken c).2 (Or.inl (by rw [hc]; rfl))) (hset.gone (by simpa using hrx))
  · rename_i ask' hc
    obtain rfl := huniq ask' (hist.asked c ask' (Or.inr hc))
    cases hcell : s.replies c with
    | waiting => rw [hcell] at ho; exact absurd ho (by simp [Oneshot.recv])
    | sent v =>
      rw [hcell] at ho
      obtain rfl : v = o := by simpa [Oneshot.recv] using ho
      exact right_of_sent h hstart hcell
    | dropped =>
      rw [hcell] at ho
      obtain rfl : ask'.closed = o := by simpa [Oneshot.recv] using ho
      exact .closed ((htaken c).2 (Or.inr (Or.inr hcell))) (hset.dropped c hcell)
  · rename_i v hc
    obtain rfl := Option.some.inj ho
    obtain ⟨ask', hstart', hright⟩ := hset.done c v hc
    obtain rfl := huniq ask' hstart'
    exact hright
  · exact absurd ho (by simp)

/-! ## The exit -/

/-- The owner has left its loop, and call `c` got nothing from it. -/
structure Unserved (s : State) (c : CallId) (ask : Ask) : Prop where
  pc    : s.pc = .exiting ∨ s.pc = .returned
  cell  : ∀ o, s.replies c ≠ .sent o
  call  : s.calls c = .sending ask ∨ s.calls c = .awaiting ask ∨ s.calls c = .done ask.closed ∨
    s.calls c = .cancelled

theorem unserved_step {cfg : Config} {s t : State} {a : Act} (hsh : Shape s)
    (hs : Step cfg s a t) {c : CallId} {ask : Ask} (h : Unserved s c ask) : Unserved t c ask := by
  refine ⟨exited_step hs h.pc, fun o ho => ?_, ?_⟩
  · have hcell := cell_step hs c
    have hno : s.pc ≠ .recv ∧ ∀ job l, s.pc ≠ .resolve job l := by
      rcases h.pc with hpc | hpc <;> rw [hpc] <;> simp
    generalize t.replies c = v at ho hcell
    cases hcell with
    | same => exact h.cell o ho
    | lookup _ hf =>
      obtain ⟨l, hl⟩ := hf.pc
      exact hno.2 _ _ hl
    | metrics hpc _ _ => exact hno.1 hpc
    | dropped _ _ => exact h.cell o (Oneshot.sent_of_drop ho)
    | panicked hpc _ _ => exact hno.2 _ _ hpc
  · rcases calls_step hs c with heq | hm
    · rw [heq]
      exact h.call
    · have hcall := h.call
      generalize t.calls c = k at hm ⊢
      cases hm with
      | start hc =>
        rw [hsh.fresh c (Nat.le_of_eq hc.symm)] at hcall
        simp at hcall
      | send hc _ =>
        obtain rfl : _ = ask := by simpa [hc] using hcall
        exact Or.inr (Or.inl rfl)
      | sendClosed hc _ =>
        obtain rfl : _ = ask := by simpa [hc] using hcall
        exact Or.inr (Or.inr (Or.inl rfl))
      | @reply ask' v hc hrecv =>
        obtain rfl : ask' = ask := by simpa [hc] using hcall
        right; right; left
        cases hcell : s.replies c with
        | waiting => rw [hcell] at hrecv; exact absurd hrecv (by simp [Oneshot.recv])
        | sent w => exact absurd hcell (h.cell w)
        | dropped =>
          rw [hcell] at hrecv
          obtain rfl : none = v := by simpa [Oneshot.recv] using hrecv
          rfl
      | cancel _ => exact Or.inr (Or.inr (Or.inr rfl))

/-- A call that is queued, or not sent yet, when the loop exits was not served. -/
theorem unserved_of_exiting {cfg : Config} {acts : List Act} {s : State}
    (h : (machine cfg).run acts = some s) (hpc : s.pc = .exiting) {c : CallId} {ask : Ask}
    (hstart : .start c ask ∈ acts)
    (hc : c ∈ s.cmds.queue.map ServerCommand.reply ∨ s.calls c = .sending ask) :
    Unserved s c ask := by
  have hinv := reachable_ledger ⟨acts, h⟩
  have hist := history_run h
  have huniq := (askedOnce_run h c ask hstart).2
  have hheld : c ∈ s.cmds.queue.map ServerCommand.reply → c ∈ (ledger s).held := fun hq => by
    simpa [ledger, heldList, hpc, Pc.serving] using hq
  have hcell : s.replies c = .waiting := by
    have hled : (ledger s).cell c = .waiting := by
      rcases hc with hc | hc
      · exact hinv.unsent c (hheld hc)
      · exact hinv.fresh c (by simp [ledger, hc, Call.caller])
    exact Oneshot.map_eq_waiting.mp hled
  refine ⟨Or.inl hpc, fun o ho => by rw [hcell] at ho; exact absurd ho (by simp), ?_⟩
  rcases hc with hc | hc
  · have hcaller : (s.calls c).caller = .waiting ∨ (s.calls c).caller = .gone :=
      hinv.handed c (hheld hc)
    cases hcall : s.calls c with
    | awaiting ask' => exact Or.inr (Or.inl (by rw [huniq ask' (hist.asked c ask' (Or.inr hcall))]))
    | cancelled => exact Or.inr (Or.inr (Or.inr rfl))
    | idle | sending _ | done _ => rw [hcall] at hcaller; simp [Call.caller] at hcaller
  · exact Or.inl hc

/-- **What is queued when the loop exits ends as `NetworkClosed`**, or none for `dht_metrics`. -/
theorem exit_runFrom {cfg : Config} {acts more : List Act} {s t : State}
    (h : (machine cfg).run acts = some s) (hpc : s.pc = .exiting) {c : CallId} {ask : Ask}
    (hstart : .start c ask ∈ acts)
    (hc : c ∈ s.cmds.queue.map ServerCommand.reply ∨ s.calls c = .sending ask)
    (hr : (machine cfg).runFrom s more = some t) {o : Outcome} (ho : outcome t c = some o) :
    o = ask.closed := by
  have key := (machine cfg).runFrom_induction
    (P := fun u => (machine cfg).Reachable u ∧ Unserved u c ask)
    (fun u a v hp hst => ⟨(machine cfg).reachable_step hp.1 hst,
      unserved_step (reachable_shape hp.1) (step_inv hst) hp.2⟩)
    ⟨⟨acts, h⟩, unserved_of_exiting h hpc hstart hc⟩ hr
  obtain ⟨-, -, hcell, hcall⟩ := key
  unfold outcome at ho
  rcases hcall with hcall | hcall | hcall | hcall <;> rw [hcall] at ho
  · simp only at ho
    split at ho
    · exact absurd ho (by simp)
    · exact (Option.some.inj ho).symm
  · simp only at ho
    cases hrep : t.replies c with
    | waiting => rw [hrep] at ho; exact absurd ho (by simp [Oneshot.recv])
    | sent v => exact absurd hrep (hcell v)
    | dropped =>
      rw [hrep] at ho
      exact (by simpa [Oneshot.recv] using ho : ask.closed = o).symm
  · exact (Option.some.inj ho).symm
  · exact absurd ho (by simp)

/-! ## The main result -/

/-- What the managed server owes its callers at the end of the history `acts`. -/
structure OneRightAnswer (cfg : Config) (acts : List Act) (s : State) : Prop where
  /-- A call asks for one thing, -/
  request : ∀ c ask ask', .start c ask ∈ acts → .start c ask' ∈ acts → ask' = ask
  /-- and its command is served at most once. -/
  served : ∀ c, takes cfg c acts ≤ 1
  /-- A call has one outcome: it never changes while the future lives, -/
  final : ∀ c o more t, outcome s c = some o → (machine cfg).runFrom s more = some t →
    outcome t c = some o ∨ t.calls c = .cancelled
  /-- and the future returns it by its own steps. -/
  taken : ∀ c o, outcome s c = some o → ∃ own t, (∀ a ∈ own, a.Own c) ∧
    (machine cfg).runFrom s own = some t ∧ t.calls c = .done o
  /-- A call that waits without an outcome is queued or being served, -/
  waiting : ∀ c ask, s.calls c = .awaiting ask → outcome s c = none → c ∈ heldList s
  /-- and nobody is left waiting once the owner has returned. -/
  resolved : s.pc = .returned → ∀ c, (s.calls c).Live → ∃ o, outcome s c = some o
  /-- The outcome is right. -/
  right : ∀ c ask o, .start c ask ∈ acts → outcome s c = some o → Right cfg acts c ask o
  /-- What is queued, or not sent yet, when the loop exits gets `NetworkClosed`, or none. -/
  atExit : s.pc = .exiting → ∀ c ask, .start c ask ∈ acts →
    c ∈ s.cmds.queue.map ServerCommand.reply ∨ s.calls c = .sending ask →
    ∀ more t o, (machine cfg).runFrom s more = some t → outcome t c = some o → o = ask.closed

/-- **One right answer for every managed command**, over every interleaving of any number of calls
with the owner, every dht and every exit, when every deadline is an instant and the wall clock
never steps back. -/
theorem command_exactly_once {cfg : Config} {acts : List Act} {s : State}
    (h : (machine cfg).run acts = some s)
    (hd : (machine cfg).Guarded DeadlineFits (init cfg) acts) (hm : Monotone acts) :
    OneRightAnswer cfg acts s where
  request := fun c ask ask' hs hs' => (askedOnce_run h c ask hs).2 ask' hs'
  served := fun c => (takes_run h hd c).1
  final := fun _ _ _ _ ho hr => outcome_runFrom ⟨acts, h⟩ hr ho
  taken := fun _ _ ho => outcome_taken ho
  waiting := fun _ _ hc ho => held_of_awaiting ⟨acts, h⟩ hc ho
  resolved := fun hpc _ hl => outcome_of_returned ⟨acts, h⟩ hpc hl
  right := fun _ _ _ hs ho => outcome_right h (guarded_calm h hd hm) hs ho
  atExit := fun hpc _ _ hs hc _ _ _ hr ho => exit_runFrom h hpc hs hc hr ho

/-- One lookup times out, the other is still queued when the next tick fails. -/
def twoLookups : List Act :=
  [.start 0 (.resolve 5 1000000), .start 1 .dhtMetrics, .send 0, .send 1, .check, .tick 0,
   .dhtTick 100 0, .announce 0, .take, .lookupResult 5 (-503) ⟨0⟩, .startLookup 5 100 0,
   .deadline 7, .clock 8, .tick 0, .dhtTick 100 0, .lookupResult 5 (-503) ⟨0⟩, .lookupWait 3,
   .unblock, .clock 3000009, .metrics ⟨1, 2, 3, 4⟩, .nothing, .wait 5 (-1), .reply 0, .reply 1,
   .start 2 (.resolve 6 1000000), .send 2, .unblock, .check, .tick (-203), .dropRx]

theorem command_exactly_once_twoLookups :
    ∃ s, (machine ⟨true, some 3, true⟩).run twoLookups = some s ∧ s.pc = .returned ∧
      OneRightAnswer ⟨true, some 3, true⟩ twoLookups s ∧
      outcome s 0 = some (.resolve (.error .identityNotFound)) ∧
      outcome s 1 = some (.dhtMetrics (some ⟨1, 2, 3, 4⟩)) ∧
      outcome s 2 = some (.resolve (.error .networkClosed)) :=
  ⟨_, rfl, rfl, command_exactly_once rfl (by decide) (by decide), rfl, rfl, rfl⟩

/-- `IdentityNotFound` is told after the deadline only. -/
def OnlyAtDeadline (acts : List Act) (s : State) : Prop :=
  ∀ c target timeout, .start c (.resolve target timeout) ∈ acts →
    outcome s c = some (.resolve (.error .identityNotFound)) →
    ∃ begun now, .deadline begun ∈ acts ∧ .clock now ∈ acts ∧ begun + timeout ≤ now

/-- The lookup cannot start, and the C call says why in the same words. -/
def refusedRun : List Act :=
  [.start 0 (.resolve 5 1000000), .send 0, .check, .tick 0, .dhtTick 100 0, .take,
   .lookupResult 5 (-503) ⟨0⟩, .startLookup 5 100 (-503)]

/-- **`IdentityNotFound` before any deadline**: the error of `start_lookup` is passed on. -/
theorem early_identityNotFound :
    ∃ s, (machine ⟨true, none, true⟩).run refusedRun = some s ∧
      (machine ⟨true, none, true⟩).Guarded DeadlineFits (init ⟨true, none, true⟩) refusedRun ∧
      Monotone refusedRun ∧ ¬ OnlyAtDeadline refusedRun s := by
  refine ⟨_, rfl, by decide, by decide, fun h => ?_⟩
  obtain ⟨begun, now, hb, -, -⟩ := h 0 5 1000000 (by decide) rfl
  simp [refusedRun] at hb

end Nwep.Runtime.ServerLoop
