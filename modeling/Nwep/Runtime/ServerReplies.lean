import Nwep.Lib.Ledger
import Nwep.Runtime.ServerLoop

/-!
# The managed server refines the call ledger

The reply senders live in two places: in the queued commands and in the frame of the command the
owner serves. `ledger` forgets which, and what the answers say: a `resolve` and a `dht_metrics` call
answer in different types, and what matters here is that each is answered once. Every step of the
futures, of the handle and of the owner is then a step of the ledger of `Lib/Ledger.lean`, or none
(`refines`), the two panics of the owner included.

`cell_step` says what a step does to one reply cell, and with what: the answers themselves.
-/

namespace Nwep.Runtime.ServerLoop

open Nwep.Lib

namespace State

@[simp] theorem setCall_calls (s : State) (c : CallId) (k : Call) :
    (s.setCall c k).calls = Function.update s.calls c k := rfl

@[simp] theorem setCall_pc (s : State) (c : CallId) (k : Call) : (s.setCall c k).pc = s.pc := rfl
@[simp] theorem setCall_cmds (s : State) (c : CallId) (k : Call) :
    (s.setCall c k).cmds = s.cmds := rfl
@[simp] theorem setCall_replies (s : State) (c : CallId) (k : Call) :
    (s.setCall c k).replies = s.replies := rfl

theorem setCall_self (s : State) (c : CallId) (k : Call) : (s.setCall c k).calls c = k :=
  Function.update_self ..

theorem setCall_ne (s : State) {b c : CallId} (k : Call) (h : b ≠ c) :
    (s.setCall c k).calls b = s.calls b := Function.update_of_ne h ..

theorem answer_self (s : State) (c : CallId) (o : Outcome) :
    (s.answer c o).replies c = (s.replies c).send o := Function.update_self ..

theorem answer_ne (s : State) {b c : CallId} (o : Outcome) (h : b ≠ c) :
    (s.answer c o).replies b = s.replies b := Function.update_of_ne h ..

end State

/-- A call that moves is the one that was moved, or as before. -/
theorem setCall_cases (s : State) (c b : CallId) (k : Call) :
    (b = c ∧ (s.setCall c k).calls b = k) ∨ (s.setCall c k).calls b = s.calls b := by
  by_cases h : b = c
  · subst h
    exact Or.inl ⟨rfl, s.setCall_self b k⟩
  · exact Or.inr (s.setCall_ne k h)

/-! ## The ledger of a state -/

/-- What a future is to the ledger. -/
def Call.caller : Call → Caller Unit
  | .idle => .out
  | .sending _ => .out
  | .awaiting _ => .waiting
  | .done _ => .done ()
  | .cancelled => .gone

/-- The command the owner serves. -/
def Pc.serving : Pc → List CallId
  | .resolve job _ => [job.reply]
  | _ => []

/-- The reply senders the owner side holds: the one being served and the queued ones. -/
def heldList (s : State) : List CallId := s.pc.serving ++ s.cmds.queue.map ServerCommand.reply

/-- The ledger of a state. -/
def ledger (s : State) : Ledger CallId Unit where
  caller := Call.caller ∘ s.calls
  cell := fun c => (s.replies c).map fun _ => ()
  held := heldList s

/-! ## The shape of the exits -/

/-- The receiver lives until the owner is gone, and call numbers are handed out in order. -/
structure Shape (s : State) : Prop where
  rx    : s.cmds.rxOpen = false ↔ s.pc = .returned ∨ s.pc = .panicked
  fresh : ∀ c, s.started ≤ c → s.calls c = .idle

theorem Shape.lt_started {s : State} (h : Shape s) {c : CallId} (hc : s.calls c ≠ .idle) :
    c < s.started := by
  by_contra hn
  exact hc (h.fresh c (Nat.le_of_not_lt hn))

theorem fresh_setCall {s : State} (h : Shape s) {c : CallId} (hc : s.calls c ≠ .idle) (k : Call) :
    ∀ a, s.started ≤ a → (s.setCall c k).calls a = .idle := by
  intro a ha
  have hac : a ≠ c := (Nat.lt_of_lt_of_le (h.lt_started hc) ha).ne'
  rw [s.setCall_ne k hac]
  exact h.fresh a ha

theorem shape_step {cfg : Config} {s t : State} {a : Act} (h : Shape s) (hs : Step cfg s a t) :
    Shape t := by
  have hsh := h
  obtain ⟨hrx, hfr⟩ := h
  cases hs with
  | @start ask _ =>
    refine ⟨hrx, fun c hc => ?_⟩
    have hne : c ≠ s.started := by
      rintro rfl
      exact absurd hc (Nat.not_succ_le_self _)
    exact (s.setCall_ne _ hne).trans (hfr c (Nat.le_of_succ_le hc))
  | send hc hp =>
    obtain ⟨-, -, -, -, -, hrx'⟩ := Mpsc.push_spec hp
    exact ⟨by simpa [hrx'] using hrx, fresh_setCall hsh (by rw [hc]; simp) _⟩
  | sendClosed hc _ | reply hc _ =>
    exact ⟨hrx, fresh_setCall hsh (by rw [hc]; simp) _⟩
  | cancel hc =>
    refine ⟨hrx, fresh_setCall hsh ?_ _⟩
    rcases hc with hc | hc <;> rw [hc] <;> simp
  | stop _ _ | dropSender _ => exact ⟨hrx, hfr⟩
  | take hpc hq | metrics hpc hq =>
    obtain ⟨-, -, hrx'⟩ := Mpsc.tryRecv_item hq
    exact ⟨by simpa [hpc, hrx', State.answer] using hrx, hfr⟩
  | checkStop hpc _ | checkGo hpc _ | tickDht hpc _ _ | tickBare hpc _ _ | tickErr hpc _
  | lookupTick hpc _ | lookupTickErr hpc _ | dhtTickAnnounce hpc _ | dhtTick hpc _
  | lookupDhtTick hpc _ | lookupDhtTickErr hpc _ | announce hpc _ | skipAnnounce hpc _
  | nothing hpc _ | storedHit hpc _ | storedMiss hpc _ | resultHit hpc _ | resultMiss hpc _
  | startLookup hpc _ | startLookupErr hpc _ | deadline hpc _ | clockOpen hpc _ | clockPast hpc _
  | lookupWait hpc | wait hpc | unblock hpc | lookupUnblock hpc =>
    exact ⟨by simpa [hpc, State.finish, State.answer] using hrx, hfr⟩
  | ageOverflow _ _ | deadlinePanic _ _ | dropRx _ =>
    exact ⟨by simp [State.unwind, State.dropRx], hfr⟩

theorem reachable_shape {cfg : Config} {s : State} (h : (machine cfg).Reachable s) : Shape s := by
  refine (machine cfg).reachable_induction (P := Shape) ⟨?_, fun _ _ => rfl⟩ ?_ h
  · cases hd : cfg.dht <;> simp [machine, init, hd]
  · intro s a t _ hp hst
    exact shape_step hp (step_inv hst)

/-! ## The simulation -/

/-- Moving a future moves it in the ledger. -/
theorem ledger_setCall (s : State) (c : CallId) (k : Call) :
    ledger (s.setCall c k) =
      { ledger s with caller := Function.update (ledger s).caller c k.caller } := by
  simp only [ledger, State.setCall, Function.comp_update]
  rfl

/-- Answering one call. -/
theorem cell_answer (s : State) (c : CallId) (o : Outcome) :
    (fun b => ((s.answer c o).replies b).map fun _ => ()) =
      Function.update (ledger s).cell c (((ledger s).cell c).send ()) := by
  funext b
  by_cases hb : b = c
  · subst hb
    rw [s.answer_self, Oneshot.map_send, Function.update_self]
    rfl
  · rw [s.answer_ne o hb, Function.update_of_ne hb]
    rfl

/-- The owner answers the command it serves. -/
theorem ledger_finish {s : State} {job : Job} {l : Lookup} (h : s.pc = .resolve job l)
    (r : Result Address) :
    (Ledger.machine CallId ()).runFrom (ledger s) [.answer job.reply ()] =
      some (ledger (s.finish job r)) := by
  have hheld : (ledger s).held =
      job.reply ::ₘ ((s.cmds.queue.map ServerCommand.reply : List CallId) : Multiset CallId) := by
    simp [ledger, heldList, h, Pc.serving]
  have hcell := cell_answer s job.reply (.resolve r)
  simp only [Machine.runFrom, Ledger.machine, Ledger.step, hheld, Multiset.mem_cons_self, if_true,
    Option.bind_some, Multiset.erase_cons_head]
  simp only [ledger, heldList, State.finish, Pc.serving, List.nil_append] at hcell ⊢
  rw [hcell]
  rfl

/-- The owner drops every sender it holds. -/
theorem ledger_dropAll {s t : State} (hn : (ledger s).held.Nodup) (hc : t.calls = s.calls)
    (hr : ∀ c, t.replies c = if c ∈ heldList s then (s.replies c).drop else s.replies c)
    (hh : heldList t = []) :
    (Ledger.machine CallId ()).runFrom (ledger s) ((heldList s).map .drop) =
      some (ledger t) := by
  rw [Ledger.runFrom_drops (ledger s) (heldList s) 0 (by simp [ledger]) hn]
  simp only [ledger, hc, hh]
  congr 2
  funext c
  rw [hr c]
  by_cases hcs : c ∈ heldList s
  · rw [if_pos hcs, if_pos hcs, Oneshot.map_drop]
  · rw [if_neg hcs, if_neg hcs]

/-- **The managed server refines the ledger.** -/
theorem refines (cfg : Config) : (machine cfg).Refines (Ledger.machine CallId ()) ledger where
  init := by
    cases hd : cfg.dht <;> simp [machine, init, hd, ledger, heldList, Pc.serving, Ledger.machine] <;>
      rfl
  step := by
    intro s a t hr hl hst
    have hsh := reachable_shape hr
    have hn := (Ledger.reachable_inv hl).nodup
    cases step_inv hst with
    | @start ask _ =>
      have hout : (ledger s).caller s.started = .out := by
        simp [ledger, hsh.fresh s.started (Nat.le_refl _), Call.caller]
      cases hd : cfg.dht with
      | true =>
        refine ⟨[], congrArg some ?_⟩
        have hcl := ledger_setCall s s.started (.sending ask)
        simp only [Call.caller, ← hout, Function.update_eq_self] at hcl
        exact hcl.symm
      | false =>
        refine ⟨[.refuse s.started], ?_⟩
        simp only [Machine.runFrom, Ledger.machine, Ledger.step, hout, Option.bind_some]
        exact congrArg some (ledger_setCall s s.started (.done ask.unattached)).symm
    | @send c ask ch hc hp =>
      refine ⟨[.accept c], ?_⟩
      obtain ⟨-, -, -, hq, -, -⟩ := Mpsc.push_spec hp
      have hout : (ledger s).caller c = .out := by simp [ledger, hc, Call.caller]
      have hreply : (ask.command c).reply = c := by cases ask <;> rfl
      have hheld : ((heldList { s with cmds := ch } : List CallId) : Multiset CallId) =
          c ::ₘ (heldList s : List CallId) := by
        simp only [heldList, hq, List.map_append, List.map_cons, List.map_nil, hreply,
          ← List.append_assoc, Multiset.cons_coe]
        exact Multiset.coe_eq_coe.mpr (List.perm_append_singleton _ _)
      simp only [Machine.runFrom, Ledger.machine, Ledger.step, hout, Option.bind_some]
      have hcl := ledger_setCall { s with cmds := ch } c (.awaiting ask)
      refine congrArg some (Eq.trans ?_ hcl.symm)
      simp only [ledger, hheld]
      rfl
    | @sendClosed c ask hc _ =>
      refine ⟨[.refuse c], ?_⟩
      have hout : (ledger s).caller c = .out := by simp [ledger, hc, Call.caller]
      simp only [Machine.runFrom, Ledger.machine, Ledger.step, hout, Option.bind_some]
      exact congrArg some (ledger_setCall s c (.done ask.closed)).symm
    | @reply c ask o hc hrecv =>
      refine ⟨[.take c], ?_⟩
      have hw : (ledger s).caller c = .waiting := by simp [ledger, hc, Call.caller]
      have hrecv' : ((ledger s).cell c).recv = some (o.map fun _ => ()) := by
        simp [ledger, Oneshot.map_recv, hrecv]
      simp only [Machine.runFrom, Ledger.machine, Ledger.step, hw, hrecv', Option.bind_some]
      exact congrArg some (ledger_setCall s c (.done (o.getD ask.closed))).symm
    | @cancel c ask hc =>
      refine ⟨[.leave c], ?_⟩
      rcases hc with hc | hc
      · have hout : (ledger s).caller c = .out := by simp [ledger, hc, Call.caller]
        simp only [Machine.runFrom, Ledger.machine, Ledger.step, hout, Option.bind_some]
        exact congrArg some (ledger_setCall s c .cancelled).symm
      · have hw : (ledger s).caller c = .waiting := by simp [ledger, hc, Call.caller]
        simp only [Machine.runFrom, Ledger.machine, Ledger.step, hw, Option.bind_some]
        exact congrArg some (ledger_setCall s c .cancelled).symm
    | stop _ _ | dropSender _ => exact ⟨[], rfl⟩
    | checkStop hpc _ | checkGo hpc _ | tickDht hpc _ _ | tickBare hpc _ _ | tickErr hpc _
    | lookupTick hpc _ | dhtTickAnnounce hpc _ | dhtTick hpc _ | lookupDhtTick hpc _
    | announce hpc _ | skipAnnounce hpc _ | nothing hpc _ | storedMiss hpc _ | resultMiss hpc _
    | startLookup hpc _ | deadline hpc _ | clockOpen hpc _ | lookupWait hpc | wait hpc
    | unblock hpc | lookupUnblock hpc =>
      -- the owner moves on, holding what it held
      refine ⟨[], ?_⟩
      simp [ledger, heldList, hpc, Pc.serving]
    | lookupTickErr hpc _ | lookupDhtTickErr hpc _ | storedHit hpc _ | resultHit hpc _
    | startLookupErr hpc _ | clockPast hpc _ => exact ⟨_, ledger_finish hpc _⟩
    | @take job ch hpc hq =>
      -- the sender moves from the queue to the frame
      refine ⟨[], ?_⟩
      obtain ⟨hqq, -, -⟩ := Mpsc.tryRecv_item hq
      simp [ledger, heldList, hpc, Pc.serving, hqq, ServerCommand.reply]
    | @metrics m c ch hpc hq =>
      refine ⟨[.answer c ()], ?_⟩
      obtain ⟨hqq, -, -⟩ := Mpsc.tryRecv_item hq
      have hheld : (ledger s).held =
          c ::ₘ ((ch.queue.map ServerCommand.reply : List CallId) : Multiset CallId) := by
        simp [ledger, heldList, hpc, Pc.serving, hqq, ServerCommand.reply]
      have hcell := cell_answer s c (.dhtMetrics (some m))
      simp only [Machine.runFrom, Ledger.machine, Ledger.step, hheld, Multiset.mem_cons_self,
        if_true, Option.bind_some, Multiset.erase_cons_head]
      simp only [ledger, heldList, State.answer, hpc, Pc.serving, List.nil_append] at hcell ⊢
      rw [hcell]
    | ageOverflow hpc _ =>
      refine ⟨_, ledger_dropAll hn rfl (fun c => ?_) rfl⟩
      simp [State.unwind, State.dropRx, heldList, hpc, Pc.serving]
    | dropRx hpc =>
      refine ⟨_, ledger_dropAll hn rfl (fun c => ?_) rfl⟩
      simp [State.dropRx, heldList, hpc, Pc.serving]
    | @deadlinePanic job now hpc _ =>
      refine ⟨_, ledger_dropAll hn rfl (fun c => ?_) rfl⟩
      have hnd : job.reply ∉ s.cmds.queue.map ServerCommand.reply := by
        have hcons : (job.reply :: s.cmds.queue.map ServerCommand.reply).Nodup := by
          simpa only [ledger, heldList, hpc, Pc.serving, Multiset.coe_nodup, List.cons_append,
            List.nil_append] using hn
        exact (List.nodup_cons.mp hcons).1
      simp only [State.unwind, State.dropRx, State.dropReply, heldList, hpc, Pc.serving]
      by_cases hcj : c = job.reply
      · subst hcj
        rw [if_neg hnd, Function.update_self, if_pos (by simp)]
      · rw [Function.update_of_ne hcj]
        simp [hcj]

theorem reachable_ledger {cfg : Config} {s : State} (h : (machine cfg).Reachable s) :
    Ledger.Inv () (ledger s) :=
  Ledger.reachable_inv ((refines cfg).reachable _ h)

/-! ## What a step does to a cell -/

/-- The step that ends the run of `job`, and with what. -/
inductive Finishes (s : State) (job : Job) : Act → Result Address → Prop
  | found {l rc out r} (hpc : s.pc = .resolve job l) (h : Dht.lookupResult rc out = some r) :
      Finishes s job (.lookupResult job.target rc out) (.ok r.address)
  | startLookup {l secs rc e} (hpc : s.pc = .resolve job l) (h : Dht.startLookup rc = .error e) :
      Finishes s job (.startLookup job.target secs rc) (.error e)
  | tick {l rc e} (hpc : s.pc = .resolve job l) (h : Server.tick rc = .error e) :
      Finishes s job (.tick rc) (.error e)
  | dhtTick {l secs rc e} (hpc : s.pc = .resolve job l) (h : Dht.tick rc = .error e) :
      Finishes s job (.dhtTick secs rc) (.error e)
  | timeout {dl now} (hpc : s.pc = .resolve job (.clock dl)) (h : dl ≤ now) :
      Finishes s job (.clock now) (.error .identityNotFound)

theorem Finishes.pc {s : State} {job : Job} {a : Act} {r : Result Address}
    (h : Finishes s job a r) : ∃ l, s.pc = .resolve job l := by
  cases h with
  | found hpc _ | startLookup hpc _ | tick hpc _ | dhtTick hpc _ | timeout hpc _ => exact ⟨_, hpc⟩

/-- How a cell is written, dropped or left alone. -/
inductive Cell (s : State) (c : CallId) (a : Act) : Oneshot Outcome → Prop
  | same : Cell s c a (s.replies c)
  | lookup {job r} (hc : job.reply = c) (h : Finishes s job a r) :
      Cell s c a ((s.replies c).send (.resolve r))
  | metrics {m} (hpc : s.pc = .recv) (hq : s.cmds.queue.head? = some (.dhtMetrics c))
      (ha : a = .metrics m) : Cell s c a ((s.replies c).send (.dhtMetrics (some m)))
  | dropped (h : c ∈ s.cmds.queue.map ServerCommand.reply) (ha : a = .ageOverflow ∨ a = .dropRx) :
      Cell s c a (s.replies c).drop
  | panicked {job now} (hpc : s.pc = .resolve job .deadline) (ha : a = .deadline now)
      (hd : instantMax < now + job.timeout) : Cell s c a (s.replies c).drop

theorem cell_finish {s : State} {job : Job} {a : Act} {r : Result Address}
    (h : Finishes s job a r) (c : CallId) : Cell s c a ((s.finish job r).replies c) := by
  by_cases hc : c = job.reply
  · subst hc
    have hself := s.answer_self job.reply (.resolve r)
    exact (congrArg (Cell s job.reply a) hself.symm).mp (.lookup rfl h)
  · have hne := s.answer_ne (.resolve r) hc
    exact (congrArg (Cell s c a) hne.symm).mp .same

theorem cell_dropRx {s : State} {a : Act} (ha : a = .ageOverflow ∨ a = .dropRx) (c : CallId) :
    Cell s c a (s.dropRx.replies c) := by
  simp only [State.dropRx]
  split
  · rename_i hc
    exact .dropped hc ha
  · exact .same

theorem dropRx_replies (s : State) (c : CallId) :
    s.dropRx.replies c = (s.replies c).drop ∨ s.dropRx.replies c = s.replies c := by
  simp only [State.dropRx]
  split
  · exact Or.inl rfl
  · exact Or.inr rfl

theorem cell_step {cfg : Config} {s t : State} {a : Act} (hs : Step cfg s a t) (c : CallId) :
    Cell s c a (t.replies c) := by
  cases hs with
  | lookupTickErr hpc hr => exact cell_finish (.tick hpc hr) c
  | lookupDhtTickErr hpc hr => exact cell_finish (.dhtTick hpc hr) c
  | storedHit hpc hr | resultHit hpc hr => exact cell_finish (.found hpc hr) c
  | startLookupErr hpc hr => exact cell_finish (.startLookup hpc hr) c
  | clockPast hpc hn => exact cell_finish (.timeout hpc hn) c
  | @metrics m b ch hpc hq =>
    obtain ⟨hqq, -, -⟩ := Mpsc.tryRecv_item hq
    by_cases hc : c = b
    · subst hc
      have hself := s.answer_self c (.dhtMetrics (some m))
      refine (congrArg (Cell s c _) hself.symm).mp (.metrics hpc ?_ rfl)
      rw [hqq]
      rfl
    · have hne := s.answer_ne (.dhtMetrics (some m)) hc
      exact (congrArg (Cell s c _) hne.symm).mp .same
  | ageOverflow _ _ => exact cell_dropRx (Or.inl rfl) c
  | dropRx _ => exact cell_dropRx (Or.inr rfl) c
  | @deadlinePanic job now hpc hd =>
    have hover := instantAdd_none.mp hd
    have hone : (s.dropReply job.reply).replies c = (s.replies c).drop ∨
        (s.dropReply job.reply).replies c = s.replies c := by
      by_cases hc : c = job.reply
      · subst hc
        exact Or.inl (Function.update_self ..)
      · exact Or.inr (Function.update_of_ne hc ..)
    have hall : (s.dropReply job.reply).dropRx.replies c = (s.replies c).drop ∨
        (s.dropReply job.reply).dropRx.replies c = s.replies c := by
      rcases dropRx_replies (s.dropReply job.reply) c with hx | hx <;>
        rcases hone with hy | hy <;> rw [hx, hy] <;> simp
    rcases hall with hx | hx
    · exact (congrArg (Cell s c _) hx.symm).mp (.panicked hpc rfl hover)
    · exact (congrArg (Cell s c _) hx.symm).mp .same
  | _ => exact .same

/-- What is in a reply cell stays there. -/
theorem sent_step {cfg : Config} {s t : State} {a : Act} (hs : Step cfg s a t) {c : CallId}
    {o : Outcome} (h : s.replies c = .sent o) : t.replies c = .sent o := by
  have hcell := cell_step hs c
  generalize t.replies c = v at hcell ⊢
  cases hcell with
  | same => exact h
  | lookup _ _ | metrics _ _ _ | dropped _ _ | panicked _ _ _ =>
    rw [h]
    rfl

end Nwep.Runtime.ServerLoop
