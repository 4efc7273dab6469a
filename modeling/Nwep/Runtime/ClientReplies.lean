import Nwep.Lib.Ledger
import Nwep.Runtime.ClientLoop

/-!
# The managed client refines the call ledger

The reply senders live in two places: in the queued commands and in `pending`. `ledger` forgets
which. Every step of the dispatching tasks and of the owner thread is then a step of the ledger of
`Lib/Ledger.lean`, or none (`refines`): a send gives a sender to the server side, a failed
submission, a finished poll and the two exits give it up, each writing its cell once.
-/

namespace Nwep.Runtime.ClientLoop

open Nwep.Client Nwep.Lib

/-- What a `dispatch` future is to the ledger. -/
def Dispatch.caller : Dispatch → Caller (Result Response)
  | .idle => .out
  | .sending _ => .out
  | .enqueued => .waiting
  | .awaiting => .waiting
  | .done r => .done r
  | .cancelled => .gone

/-- The reply senders the owner side holds: the queued ones and those in `pending`. -/
def held (s : State) : Multiset CallId :=
  ↑(s.cmds.queue.map (·.reply)) + ↑(s.pending.map Prod.snd)

/-- The ledger of a state. -/
def ledger (s : State) : Ledger CallId (Result Response) where
  caller := Dispatch.caller ∘ s.calls
  cell := s.replies
  held := held s

/-- What a caller gets when the channel or the reply sender is gone. -/
def closed : Result Response := .error .networkClosed

/-! ## The shape of the exits -/

/-- `pending` is empty once it has been failed, the receiver lives until the owner returns, and
call numbers are handed out in order. -/
structure Shape (s : State) : Prop where
  failed : s.pc = .exiting ∨ s.pc = .returned → s.pending = []
  rx     : s.cmds.rxOpen = false ↔ s.pc = .returned
  fresh  : ∀ c, s.started ≤ c → s.calls c = .idle

/-- A call that moves, or has moved, was started. -/
theorem Shape.lt_started {s : State} (h : Shape s) {c : CallId} (hc : s.calls c ≠ .idle) :
    c < s.started := by
  by_contra hn
  exact hc (h.fresh c (Nat.le_of_not_lt hn))

theorem fresh_setCall {s : State} (h : Shape s) {c : CallId} (hc : s.calls c ≠ .idle)
    (d : Dispatch) : ∀ a, s.started ≤ a → (s.setCall c d).calls a = .idle := by
  intro a ha
  have hac : a ≠ c := (Nat.lt_of_lt_of_le (h.lt_started hc) ha).ne'
  rw [State.setCall_calls, Function.update_of_ne hac]
  exact h.fresh a ha

theorem shape_step {s t : State} {a : Act} (h : Shape s) (hs : Step s a t) : Shape t := by
  have hsh := h
  obtain ⟨hf, hrx, hfr⟩ := h
  cases hs with
  | @start req _ =>
    refine ⟨hf, hrx, fun c hc => ?_⟩
    have hne : c ≠ s.started := by
      rintro rfl
      exact absurd hc (Nat.not_succ_le_self _)
    simp only [State.setCall, Function.update_of_ne hne]
    exact hfr c (Nat.le_of_succ_le hc)
  | send hc hp =>
    obtain ⟨-, -, -, -, -, hrx'⟩ := Mpsc.push_spec hp
    exact ⟨hf, by simpa [hrx'] using hrx, fresh_setCall hsh (by rw [hc]; simp) _⟩
  | sendClosed hc _ | wake hc | reply hc _ =>
    exact ⟨hf, hrx, fresh_setCall hsh (by rw [hc]; simp) _⟩
  | cancel hc =>
    refine ⟨hf, hrx, fresh_setCall hsh ?_ _⟩
    rcases hc with ⟨req, hc⟩ | hc <;> rw [hc] <;> simp
  | takeSender _ _ | dropWake _ | readWake _ _ => exact ⟨hf, hrx, hfr⟩
  | submitOk hpc hq _ _ | submitErr hpc hq _ =>
    obtain ⟨-, -, hrx'⟩ := Mpsc.tryRecv_item hq
    exact ⟨by simp [hpc, State.answer], by simpa [hrx', State.answer] using hrx, hfr⟩
  | empty hpc _ | disconnected hpc _ | tickClosed hpc _ | tickOk hpc _ | sweepEnd hpc _ | block hpc
  | unblock hpc | readDone hpc _ | pollNone hpc _ _ =>
    exact ⟨by simp, by simpa [hpc] using hrx, hfr⟩
  | pollReady hpc _ _ | pollErr hpc _ _ | failNext hpc _ =>
    exact ⟨by simp [hpc, State.answer], by simpa [State.answer] using hrx, hfr⟩
  | failEnd hpc hp => exact ⟨fun _ => hp, by simpa [hpc] using hrx, hfr⟩
  | dropRx hpc => exact ⟨fun _ => hf (Or.inl hpc), by simp, hfr⟩

theorem reachable_shape {s : State} (h : machine.Reachable s) : Shape s := by
  refine machine.reachable_induction ⟨fun _ => rfl, by simp [machine, init], fun _ _ => rfl⟩ ?_ h
  intro s a t _ hp hst
  exact shape_step hp (step_inv hst)

/-! ## The simulation -/

theorem held_push {s : State} {cmd : ClientCommand} {ch : Mpsc ClientCommand 64}
    (h : s.cmds.push cmd = some ch) : held { s with cmds := ch } = cmd.reply ::ₘ held s := by
  obtain ⟨-, -, -, hq, -, -⟩ := Mpsc.push_spec h
  simp only [held, hq, List.map_append, List.map_cons, List.map_nil, Multiset.coe_add,
    Multiset.cons_coe, List.append_assoc, List.singleton_append]
  exact Multiset.coe_eq_coe.mpr List.perm_middle

theorem held_pop {s : State} {cmd : ClientCommand} {ch : Mpsc ClientCommand 64}
    (h : s.cmds.tryRecv = .item cmd ch) :
    held s = cmd.reply ::ₘ held { s with cmds := ch } := by
  obtain ⟨hq, -, -⟩ := Mpsc.tryRecv_item h
  simp [held, hq]

theorem held_swapRemove {s : State} {i : Nat} {id : RequestId} {c : CallId}
    (h : s.pending[i]? = some (id, c)) :
    held s = c ::ₘ held { s with pending := swapRemove s.pending i } := by
  have hp : (s.pending.map Prod.snd).Perm (c :: (swapRemove s.pending i).map Prod.snd) :=
    (swapRemove_perm h).map Prod.snd
  simp only [held]
  rw [Multiset.coe_eq_coe.mpr hp, ← Multiset.cons_coe, Multiset.add_cons]

/-- Moving a caller moves it in the ledger. -/
theorem ledger_setCall (s : State) (c : CallId) (d : Dispatch) :
    ledger (s.setCall c d) =
      { ledger s with caller := Function.update (ledger s).caller c d.caller } := by
  simp only [ledger, State.setCall, Function.comp_update]
  rfl

/-- A move the ledger does not see. -/
theorem ledger_setCall_same {s : State} {c : CallId} {d : Dispatch}
    (h : d.caller = (s.calls c).caller) : ledger (s.setCall c d) = ledger s := by
  rw [ledger_setCall, h]
  have : Function.update (ledger s).caller c (s.calls c).caller = (ledger s).caller :=
    Function.update_eq_self c (ledger s).caller
  rw [this]

/-- Answering a held call is a step of the ledger. -/
theorem run_answer {l : Ledger CallId (Result Response)} {c : CallId} {r : Result Response}
    {rest : Multiset CallId} (h : l.held = c ::ₘ rest) :
    (Ledger.machine CallId closed).runFrom l [.answer c r] =
      some { l with cell := Function.update l.cell c ((l.cell c).send r), held := rest } := by
  simp [Machine.runFrom, Ledger.machine, Ledger.step, h]

/-- **The managed client refines the ledger.** -/
theorem refines : machine.Refines (Ledger.machine CallId closed) ledger where
  init := rfl
  step := by
    intro s a t hr hl hst
    have hsh := reachable_shape hr
    have hnd := (Ledger.reachable_inv hl).nodup
    cases step_inv hst with
    | @start req _ =>
      have hid := hsh.fresh s.started (Nat.le_refl _)
      exact ⟨[], congrArg some (ledger_setCall_same (by rw [hid]; rfl)).symm⟩
    | @send c req ch hc hp =>
      refine ⟨[.accept c], ?_⟩
      have hout : (ledger s).caller c = .out := by simp [ledger, hc, Dispatch.caller]
      have hheld := held_push hp
      simp only [Machine.runFrom, Ledger.machine, Ledger.step, hout, Option.bind_some]
      congr 1
      simp only [ledger, State.setCall, Function.comp_update]
      congr 1
      exact hheld.symm
    | @sendClosed c req hc _ =>
      refine ⟨[.refuse c], ?_⟩
      have hout : (ledger s).caller c = .out := by simp [ledger, hc, Dispatch.caller]
      simp only [Machine.runFrom, Ledger.machine, Ledger.step, hout, Option.bind_some]
      rw [ledger_setCall]
      rfl
    | @wake c hc => exact ⟨[], congrArg some (ledger_setCall_same (by rw [hc]; rfl)).symm⟩
    | @reply c r hc hrecv =>
      refine ⟨[.take c], ?_⟩
      have hw : (ledger s).caller c = .waiting := by simp [ledger, hc, Dispatch.caller]
      have hrecv' : ((ledger s).cell c).recv = some r := hrecv
      simp only [Machine.runFrom, Ledger.machine, Ledger.step, hw, hrecv', Option.bind_some]
      rw [ledger_setCall]
      rfl
    | @cancel c hc =>
      refine ⟨[.leave c], ?_⟩
      rcases hc with ⟨req, hc⟩ | hc
      · have hout : (ledger s).caller c = .out := by simp [ledger, hc, Dispatch.caller]
        simp only [Machine.runFrom, Ledger.machine, Ledger.step, hout, Option.bind_some]
        rw [ledger_setCall]
        rfl
      · have hw : (ledger s).caller c = .waiting := by simp [ledger, hc, Dispatch.caller]
        simp only [Machine.runFrom, Ledger.machine, Ledger.step, hw, Option.bind_some]
        rw [ledger_setCall]
        rfl
    | takeSender _ _ | dropWake _ | empty _ _ | disconnected _ _ | tickClosed _ _ | tickOk _ _
    | pollNone _ _ _ | sweepEnd _ _ | block _ | unblock _ | readWake _ _ | readDone _ _
    | failEnd _ _ => exact ⟨[], rfl⟩
    | @submitOk cmd rc id ch _ hq _ _ =>
      -- the sender moves from the queue to `pending`
      refine ⟨[], ?_⟩
      obtain ⟨hqq, -, -⟩ := Mpsc.tryRecv_item hq
      have hheld : held s =
          held { s with cmds := ch, pending := s.pending ++ [(id, cmd.reply)] } := by
        simp only [held, hqq, List.map_append, List.map_cons, List.map_nil, Multiset.coe_add]
        rw [Multiset.coe_eq_coe, ← List.append_assoc]
        exact (List.perm_append_singleton _ _).symm
      simp only [Machine.runFrom_nil, ledger, hheld]
    | @submitErr cmd rc id ch e _ hq _ =>
      exact ⟨[.answer cmd.reply (.error e)], run_answer (l := ledger s) (held_pop hq)⟩
    | @pollReady i id c rc out resp _ hi _ =>
      exact ⟨[.answer c (.ok resp)], run_answer (l := ledger s) (held_swapRemove hi)⟩
    | @pollErr i id c rc out e _ hi _ =>
      exact ⟨[.answer c (.error e)], run_answer (l := ledger s) (held_swapRemove hi)⟩
    | @failNext id c rest _ hp =>
      have hheld : held s = c ::ₘ held { s with pending := rest } := by
        simp only [held, hp, List.map_cons]
        rw [← Multiset.cons_coe, Multiset.add_cons]
      exact ⟨[.answer c (.error .networkClosed)], run_answer (l := ledger s) hheld⟩
    | dropRx hpc =>
      refine ⟨(s.cmds.queue.map (·.reply)).map .drop, ?_⟩
      have hp := hsh.failed (Or.inl hpc)
      have hheld : (ledger s).held = ↑(s.cmds.queue.map (·.reply)) + 0 := by
        simp [ledger, held, hp]
      rw [Ledger.runFrom_drops (ledger s) _ 0 hheld hnd]
      simp [ledger, held, hp]

end Nwep.Runtime.ClientLoop
