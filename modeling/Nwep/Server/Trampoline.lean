import Nwep.LogServer

/-!
# Requests through the trampoline

Model of `trampoline` (`nwep/src/server.rs` 599-634) with the handlers behind it. The trampoline
puts the result cell on its stack, builds the `Responder` over it and runs the handler; the cell is
what it returns, or `Error::Internal` when the handler panicked. What a handler does in between is
any safe code over the API. It may keep a `Responder` or a `Reply` anywhere and use it later, in
another call or in none. So a run is a list of the things such code can do, in any order:

* `request`: the C side calls the trampoline, also from a tick inside a handler or for a server on
  another thread;
* `header`, `terminal`, `logDispatch`: a `Responder` that was not consumed yet is used;
* `ret`: a running handler returns, which takes a `Reply`; `panic`: it panics, which takes none.

A terminal on a `Responder` whose trampoline has returned writes to a cell that is gone.

Results:
* `step_once`: a `Responder` is consumed by at most one terminal, whoever calls it;
* **`answered_once_iff`**: every request is answered exactly once, before its trampoline returns,
  exactly in the runs whose handlers return with their own `Responder` consumed;
* `answered_of_no_panic`: that is so when no handler panics and one trampoline runs at a time.
-/

namespace Nwep.Server.Trampoline

open Nwep.Lib Nwep.LogServer

/-- A running trampoline: its invocation, and the result cell. -/
structure Frame where
  req : ReqId
  rc  : CInt
  deriving DecidableEq

/-- What is observed: a terminal with what it wrote, and a return to the C side. -/
inductive Event
  | terminal (q : ReqId) (code : CInt)
  | returned (q : ReqId) (code : CInt)
  deriving DecidableEq

/-- The invocations so far, the `Responder`s and the `Reply`s that exist, the running trampolines
and what was observed. -/
structure State where
  next    : ReqId
  live    : List Responder
  replies : Nat
  frames  : List Frame
  trace   : List Event

def init : State := ⟨0, [], 0, [], []⟩

inductive Act
  | request (req : Request) (buf : Ptr)
  | header (res : Responder) (name value : Bytes)
  | terminal (res : Responder) (op : Op) (a : Answers)
  | logDispatch (res : Responder) (rc : CInt)
  | ret (q : ReqId)
  | panic (q : ReqId)
  deriving DecidableEq

/-- The `Responder` of a new invocation. -/
def responder (q : ReqId) (req : Request) (buf : Ptr) : Responder :=
  ⟨buf, q, req.server, req.connId, req.streamId, []⟩

/-- A terminal consumes `res`, fills its cell if that is still there, and makes a `Reply`. -/
def State.answer (s : State) (res : Responder) (t : Terminal) (a : Answers) : State :=
  { s with
    live := s.live.erase res
    replies := s.replies + 1
    frames := s.frames.map fun f => if f.req = t.cell then { f with rc := t.code a } else f
    trace := s.trace ++ [.terminal t.cell (t.code a)] }

/-- `finish` makes no C call. -/
def noAnswers : Answers := ⟨0, (0, 0), (0, [], 0)⟩

/-- A trampoline returns. -/
def State.leave (s : State) (f : Frame) (code : CInt) : State :=
  { s with frames := s.frames.erase f, trace := s.trace ++ [.returned f.req code] }

def step (s : State) : Act → Option State
  | .request req buf => some { s with
      next := s.next + 1
      live := responder s.next req buf :: s.live
      frames := ⟨s.next, 0⟩ :: s.frames }
  | .header res name value =>
    if res ∈ s.live then some { s with live := res.header name value :: s.live.erase res } else none
  | .terminal res op a => if res ∈ s.live then some (s.answer res (res.call op) a) else none
  | .logDispatch res rc =>
    if res ∈ s.live then
      match dispatchOutcome res rc with
      | .notMine _ => some s
      | .handled reply => some (s.answer res reply noAnswers)
    else none
  | .ret q =>
    match s.frames.find? (·.req = q) with
    | some f =>
      if 0 < s.replies then some ({ s with replies := s.replies - 1 }.leave f f.rc) else none
    | none => none
  | .panic q =>
    match s.frames.find? (·.req = q) with
    | some f => some (s.leave f Error.internal.code)
    | none => none

/-- The runs of a server's handlers. -/
def machine : Machine State Act := ⟨init, step⟩

/-! ## What a step does -/

/-- The enabled steps and what each does. -/
inductive Step (s : State) : Act → State → Prop
  | request (req : Request) (buf : Ptr) : Step s (.request req buf) { s with
      next := s.next + 1
      live := responder s.next req buf :: s.live
      frames := ⟨s.next, 0⟩ :: s.frames }
  | header {res : Responder} (h : res ∈ s.live) (name value : Bytes) :
      Step s (.header res name value) { s with live := res.header name value :: s.live.erase res }
  | terminal {res : Responder} (h : res ∈ s.live) (op : Op) (a : Answers) :
      Step s (.terminal res op a) (s.answer res (res.call op) a)
  | notMine {res : Responder} (h : res ∈ s.live) : Step s (.logDispatch res 1) s
  | handled {res : Responder} (h : res ∈ s.live) {rc : CInt} (hrc : rc ≠ 1) :
      Step s (.logDispatch res rc) (s.answer res (res.finish rc) noAnswers)
  | ret {f : Frame} (hf : f ∈ s.frames) (hr : 0 < s.replies) :
      Step s (.ret f.req) ({ s with replies := s.replies - 1 }.leave f f.rc)
  | panic {f : Frame} (hf : f ∈ s.frames) : Step s (.panic f.req) (s.leave f Error.internal.code)

theorem find_frame {frames : List Frame} {q : ReqId} {f : Frame}
    (h : frames.find? (·.req = q) = some f) : f ∈ frames ∧ f.req = q :=
  ⟨List.mem_of_find?_eq_some h, by simpa using List.find?_some h⟩

theorem step_inv {s t : State} {a : Act} (h : step s a = some t) : Step s a t := by
  cases a with
  | request req buf =>
    obtain rfl := Option.some.inj h
    exact .request req buf
  | header res name value =>
    obtain ⟨hm, h⟩ := Option.ite_none_right_eq_some.mp h
    obtain rfl := Option.some.inj h
    exact .header hm name value
  | terminal res op a =>
    obtain ⟨hm, h⟩ := Option.ite_none_right_eq_some.mp h
    obtain rfl := Option.some.inj h
    exact .terminal hm op a
  | logDispatch res rc =>
    obtain ⟨hm, h⟩ := Option.ite_none_right_eq_some.mp h
    by_cases hrc : rc = 1
    · subst hrc
      obtain rfl := Option.some.inj h
      exact .notMine hm
    · simp only [dispatchOutcome, if_neg hrc] at h
      obtain rfl := Option.some.inj h
      exact .handled hm hrc
  | ret q =>
    cases hf : s.frames.find? (·.req = q) with
    | none => exact absurd h (by simp [step, hf])
    | some f =>
      obtain ⟨hm, rfl⟩ := find_frame hf
      simp only [step, hf] at h
      obtain ⟨hr, h⟩ := Option.ite_none_right_eq_some.mp h
      obtain rfl := Option.some.inj h
      exact .ret hm hr
  | panic q =>
    cases hf : s.frames.find? (·.req = q) with
    | none => exact absurd h (by simp [step, hf])
    | some f =>
      obtain ⟨hm, rfl⟩ := find_frame hf
      simp only [step, hf] at h
      obtain rfl := Option.some.inj h
      exact .panic hm

/-! ## The property and its condition -/

/-- The terminals on the `Responder` of `q`. -/
def terminals (q : ReqId) (trace : List Event) : Nat :=
  trace.countP fun e => match e with
    | .terminal r _ => r = q
    | .returned _ _ => false

/-- A trampoline that returns a non-negative code was answered once before, and not again. -/
def AnsweredOnce (trace : List Event) : Prop :=
  ∀ pre q code post, trace = pre ++ .returned q code :: post → 0 ≤ code →
    terminals q pre = 1 ∧ terminals q post = 0

/-- A handler that returns has consumed the `Responder` of its own call. -/
def OwnConsumed (s : State) (a : Act) : Prop :=
  ∀ q, a = .ret q → ∀ res ∈ s.live, res.rc ≠ q

instance (s : State) (a : Act) : Decidable (OwnConsumed s a) :=
  match a with
  | .ret q => decidable_of_iff (∀ res ∈ s.live, res.rc ≠ q) (by simp [OwnConsumed])
  | .request _ _ | .header _ _ _ | .terminal _ _ _ | .logDispatch _ _ | .panic _ =>
    isTrue fun _ hq => absurd hq (by simp)

@[simp] theorem terminals_terminal (q r : ReqId) (code : CInt) (trace : List Event) :
    terminals q (trace ++ [.terminal r code]) = terminals q trace + if r = q then 1 else 0 := by
  simp [terminals, List.countP_append, List.countP_singleton]

@[simp] theorem terminals_returned (q r : ReqId) (code : CInt) (trace : List Event) :
    terminals q (trace ++ [.returned r code]) = terminals q trace := by
  simp [terminals, List.countP_append]

/-- A return in a longer trace is the last event, or was there before. -/
theorem snoc_eq_append_cons {trace pre post : List Event} {e r : Event}
    (h : trace ++ [e] = pre ++ r :: post) :
    (pre = trace ∧ r = e ∧ post = []) ∨ ∃ mid, trace = pre ++ r :: mid ∧ post = mid ++ [e] := by
  rcases List.eq_nil_or_concat post with rfl | ⟨mid, x, rfl⟩
  · obtain ⟨rfl, hx⟩ := List.append_inj' h rfl
    exact Or.inl ⟨rfl, (List.singleton_inj.mp hx).symm, rfl⟩
  · rw [List.concat_eq_append, ← List.cons_append, ← List.append_assoc] at h
    obtain ⟨rfl, hx⟩ := List.append_inj' h rfl
    exact Or.inr ⟨mid, rfl, by rw [List.concat_eq_append, hx]⟩

/-- A terminal on a `Responder` whose trampoline has not returned. -/
theorem AnsweredOnce.terminal {trace : List Event} (h : AnsweredOnce trace) {r : ReqId}
    (hr : ∀ code, .returned r code ∈ trace → code < 0) (c : CInt) :
    AnsweredOnce (trace ++ [.terminal r c]) := by
  intro pre q code post heq hcode
  rcases snoc_eq_append_cons heq with ⟨-, he, -⟩ | ⟨mid, rfl, rfl⟩
  · exact absurd he (by simp)
  · obtain ⟨h1, h2⟩ := h pre q code mid rfl hcode
    refine ⟨h1, ?_⟩
    rw [terminals_terminal, h2, if_neg]
    rintro rfl
    exact absurd (hr code (List.mem_append_right pre List.mem_cons_self)) (Int.not_lt.mpr hcode)

/-- A return of a trampoline that was answered once. -/
theorem AnsweredOnce.returned {trace : List Event} (h : AnsweredOnce trace) {r : ReqId} {c : CInt}
    (hr : 0 ≤ c → terminals r trace = 1) : AnsweredOnce (trace ++ [.returned r c]) := by
  intro pre q code post heq hcode
  rcases snoc_eq_append_cons heq with ⟨rfl, he, rfl⟩ | ⟨mid, rfl, rfl⟩
  · obtain ⟨rfl, rfl⟩ := Event.returned.inj he
    exact ⟨hr hcode, rfl⟩
  · obtain ⟨h1, h2⟩ := h pre q code mid rfl hcode
    exact ⟨h1, by rw [terminals_returned, h2]⟩

/-! ## The accounting invariant -/

/-- The invocations whose `Responder` was not consumed. -/
def State.unanswered (s : State) : List ReqId := s.live.map (·.rc)

/-- Each invocation has an unconsumed `Responder` and an unwritten cell, or one terminal. -/
structure Inv (s : State) : Prop where
  nodup  : s.unanswered.Nodup
  frames : ∀ f ∈ s.frames, f.req < s.next
  known  : ∀ q ∈ s.unanswered, q < s.next
  cell   : ∀ f ∈ s.frames, f.req ∈ s.unanswered → f.rc = 0
  zero   : ∀ q ∈ s.unanswered, terminals q s.trace = 0
  once   : ∀ q, q < s.next → q ∉ s.unanswered → terminals q s.trace = 1
  future : ∀ q code, s.next ≤ q → terminals q s.trace = 0 ∧ .returned q code ∉ s.trace

theorem inv_init : Inv init where
  nodup := List.nodup_nil
  frames _ hf := absurd hf List.not_mem_nil
  known _ hq := absurd hq List.not_mem_nil
  cell _ hf := absurd hf List.not_mem_nil
  zero _ hq := absurd hq List.not_mem_nil
  once q hq := absurd hq (Nat.not_lt_zero q)
  future _ _ _ := ⟨rfl, List.not_mem_nil⟩

/-- Using a `Responder` takes it out of the list it is in. -/
theorem unanswered_perm {s : State} {res : Responder} (h : res ∈ s.live) :
    s.unanswered.Perm (res.rc :: (s.live.erase res).map (·.rc)) :=
  (List.perm_cons_erase h).map _

theorem Inv.request {s : State} (h : Inv s) (req : Request) (buf : Ptr) : Inv { s with
    next := s.next + 1
    live := responder s.next req buf :: s.live
    frames := ⟨s.next, 0⟩ :: s.frames } := by
  have hfresh : s.next ∉ s.unanswered := fun hn => Nat.lt_irrefl _ (h.known _ hn)
  have hzero : terminals s.next s.trace = 0 := (h.future s.next 0 (Nat.le_refl _)).1
  refine ⟨List.nodup_cons.mpr ⟨hfresh, h.nodup⟩, ?_, ?_, ?_, ?_, ?_, ?_⟩
  · intro f hf
    rcases List.mem_cons.mp hf with rfl | hf
    · exact Nat.lt_succ_self _
    · exact Nat.lt_succ_of_lt (h.frames f hf)
  · intro q hq
    rcases List.mem_cons.mp hq with rfl | hq
    · exact Nat.lt_succ_self _
    · exact Nat.lt_succ_of_lt (h.known q hq)
  · intro f hf hq
    rcases List.mem_cons.mp hf with rfl | hf
    · rfl
    · rcases List.mem_cons.mp hq with hq | hq
      · exact absurd hq (Nat.ne_of_lt (h.frames f hf))
      · exact h.cell f hf hq
  · intro q hq
    rcases List.mem_cons.mp hq with rfl | hq
    · exact hzero
    · exact h.zero q hq
  · intro q hq hn
    have hne : q ≠ s.next := fun he => hn (he ▸ List.mem_cons_self)
    refine h.once q (Nat.lt_of_le_of_ne (Nat.le_of_lt_succ hq) hne) fun hm => ?_
    exact hn (List.mem_cons_of_mem _ hm)
  · exact fun q code hq => h.future q code (Nat.le_of_succ_le hq)

theorem Inv.header {s : State} (h : Inv s) {res : Responder} (hm : res ∈ s.live)
    (name value : Bytes) :
    Inv { s with live := res.header name value :: s.live.erase res } := by
  have hp : (State.unanswered { s with live := res.header name value :: s.live.erase res }).Perm
      s.unanswered := by
    refine List.Perm.trans ?_ (unanswered_perm hm).symm
    simp [State.unanswered]
  exact
    { nodup := hp.nodup_iff.mpr h.nodup
      frames := h.frames
      known := fun q hq => h.known q (hp.mem_iff.mp hq)
      cell := fun f hf hq => h.cell f hf (hp.mem_iff.mp hq)
      zero := fun q hq => h.zero q (hp.mem_iff.mp hq)
      once := fun q hq hn => h.once q hq (fun hm => hn (hp.mem_iff.mpr hm))
      future := h.future }

/-- A terminal: its invocation, and no other, moves from unanswered to answered once. -/
theorem Inv.answer {s : State} (h : Inv s) {res : Responder} (hm : res ∈ s.live) {t : Terminal}
    (ht : t.cell = res.rc) (a : Answers) : Inv (s.answer res t a) := by
  have hp := unanswered_perm hm
  obtain ⟨hout, hnodup⟩ := List.nodup_cons.mp (hp.nodup_iff.mp h.nodup)
  have hres : res.rc ∈ s.unanswered := hp.mem_iff.mpr List.mem_cons_self
  have hsub : ∀ q ∈ (s.answer res t a).unanswered, q ∈ s.unanswered ∧ q ≠ res.rc := by
    intro q hq
    refine ⟨hp.mem_iff.mpr (List.mem_cons_of_mem _ hq), ?_⟩
    rintro rfl
    exact hout hq
  have htrace : ∀ q, terminals q (s.answer res t a).trace =
      terminals q s.trace + if res.rc = q then 1 else 0 := by
    intro q
    rw [← ht]
    exact terminals_terminal ..
  refine ⟨hnodup, ?_, fun q hq => h.known q (hsub q hq).1, ?_, ?_, ?_, ?_⟩
  · intro f hf
    obtain ⟨g, hg, rfl⟩ := List.mem_map.mp hf
    rw [apply_ite Frame.req, ite_self]
    exact h.frames g hg
  · intro f hf hq
    obtain ⟨g, hg, rfl⟩ := List.mem_map.mp hf
    rw [apply_ite Frame.req, ite_self] at hq
    obtain ⟨hq, hne⟩ := hsub _ hq
    rw [ht, if_neg hne]
    exact h.cell g hg hq
  · intro q hq
    obtain ⟨hq, hne⟩ := hsub q hq
    rw [htrace, h.zero q hq, if_neg hne.symm]
  · intro q hq hn
    rw [htrace]
    by_cases hqr : res.rc = q
    · subst hqr
      rw [h.zero _ hres, if_pos rfl]
    · have hnq : q ∉ s.unanswered := by
        intro hmem
        rcases List.mem_cons.mp (hp.mem_iff.mp hmem) with rfl | hmem
        · exact hqr rfl
        · exact hn hmem
      rw [h.once q hq hnq, if_neg hqr]
  · intro q code hq
    obtain ⟨hz, hnr⟩ := h.future q code hq
    have hne : res.rc ≠ q := fun he => absurd (h.known _ hres) (Nat.not_lt.mpr (he ▸ hq))
    refine ⟨by rw [htrace, hz, if_neg hne], fun hmem => ?_⟩
    rcases List.mem_append.mp hmem with hmem | hmem
    · exact hnr hmem
    · exact absurd (List.mem_singleton.mp hmem) (by simp)

/-- A return, normal or not, with any number of `Reply`s left. -/
theorem Inv.leave {s : State} (h : Inv s) {f : Frame} (hf : f ∈ s.frames) (code : CInt)
    (replies : Nat) : Inv ({ s with replies := replies }.leave f code) := by
  have hsub : ∀ g ∈ s.frames.erase f, g ∈ s.frames := fun g hg => List.mem_of_mem_erase hg
  have hlt : f.req < s.next := h.frames f hf
  refine ⟨h.nodup, fun g hg => h.frames g (hsub g hg), h.known,
    fun g hg => h.cell g (hsub g hg), ?_, ?_, ?_⟩
  · exact fun q hq => (terminals_returned ..).trans (h.zero q hq)
  · exact fun q hq hn => (terminals_returned ..).trans (h.once q hq hn)
  · intro q c hq
    obtain ⟨hz, hnr⟩ := h.future q c hq
    refine ⟨(terminals_returned ..).trans hz, fun hmem => ?_⟩
    rcases List.mem_append.mp hmem with hmem | hmem
    · exact hnr hmem
    · obtain ⟨rfl, -⟩ := Event.returned.inj (List.mem_singleton.mp hmem)
      exact absurd hlt (Nat.not_lt.mpr hq)

/-- **Every step keeps the accounting**, whoever takes it. -/
theorem inv_step {s t : State} {a : Act} (h : Inv s) (hst : step s a = some t) : Inv t := by
  cases step_inv hst with
  | request req buf => exact h.request req buf
  | header hm name value => exact h.header hm name value
  | terminal hm op a => exact h.answer hm (Responder.call_cell _ op) a
  | notMine _ => exact h
  | handled hm _ => exact h.answer hm rfl noAnswers
  | ret hf _ => exact h.leave hf _ _
  | panic hf => exact h.leave hf _ s.replies

theorem inv_run {acts : List Act} {s : State} (h : machine.run acts = some s) : Inv s :=
  machine.reachable_induction inv_init (fun _ _ _ _ hi hst => inv_step hi hst) ⟨acts, h⟩

/-! ## Answered exactly once -/

/-- A trampoline that returned a non-negative code has no unconsumed `Responder`. -/
def Settled (s : State) : Prop :=
  ∀ q code, .returned q code ∈ s.trace → 0 ≤ code → q ∉ s.unanswered

/-- What a terminal keeps: its `Responder` was not consumed, so its trampoline is not settled. -/
theorem settled_answer {s : State} (hs : Settled s) (ha : AnsweredOnce s.trace) {res : Responder}
    (hm : res ∈ s.live) {t : Terminal} (ht : t.cell = res.rc) (a : Answers) :
    Settled (s.answer res t a) ∧ AnsweredOnce (s.answer res t a).trace := by
  have hp := unanswered_perm hm
  constructor
  · intro q code hmem hcode hq
    rcases List.mem_append.mp hmem with hmem | hmem
    · exact hs q code hmem hcode (hp.mem_iff.mpr (List.mem_cons_of_mem _ hq))
    · exact absurd (List.mem_singleton.mp hmem) (by simp)
  · refine ha.terminal (fun code hmem => ?_) _
    by_contra hneg
    rw [ht] at hmem
    exact hs res.rc code hmem (Int.not_lt.mp hneg) (hp.mem_iff.mpr List.mem_cons_self)

/-- What a return keeps, when its trampoline is settled by then. -/
theorem settled_leave {s : State} (hi : Inv s) (hs : Settled s) (ha : AnsweredOnce s.trace)
    {f : Frame} (hf : f ∈ s.frames) {code : CInt} (hown : 0 ≤ code → f.req ∉ s.unanswered)
    (replies : Nat) :
    Settled ({ s with replies := replies }.leave f code) ∧
      AnsweredOnce ({ s with replies := replies }.leave f code).trace := by
  have hlt : f.req < s.next := hi.frames f hf
  constructor
  · intro q c hmem hc
    rcases List.mem_append.mp hmem with hmem | hmem
    · exact hs q c hmem hc
    · obtain ⟨rfl, rfl⟩ := Event.returned.inj (List.mem_singleton.mp hmem)
      exact hown hc
  · exact ha.returned fun hc => hi.once f.req hlt (hown hc)

/-- **Step lemma**: a step whose handler, if it returns, has consumed its own `Responder`. -/
theorem step_once {s t : State} {a : Act} (hi : Inv s) (hs : Settled s) (ha : AnsweredOnce s.trace)
    (hown : OwnConsumed s a) (hst : step s a = some t) : Settled t ∧ AnsweredOnce t.trace := by
  cases step_inv hst with
  | request req buf =>
    refine ⟨fun q code hmem hcode hq => ?_, ha⟩
    rcases List.mem_cons.mp hq with rfl | hq
    · exact (hi.future s.next code (Nat.le_refl _)).2 hmem
    · exact hs q code hmem hcode hq
  | @header res hm name value =>
    refine ⟨fun q code hmem hcode hq => hs q code hmem hcode ?_, ha⟩
    refine (unanswered_perm hm).mem_iff.mpr ?_
    simpa [State.unanswered] using hq
  | terminal hm op a => exact settled_answer hs ha hm (Responder.call_cell _ op) a
  | notMine _ => exact ⟨hs, ha⟩
  | handled hm _ => exact settled_answer hs ha hm rfl noAnswers
  | @ret f hf _ =>
    refine settled_leave hi hs ha hf (fun _ hq => ?_) _
    obtain ⟨res, hres, hrc⟩ := List.mem_map.mp hq
    exact hown f.req rfl res hres hrc
  | panic hf => exact settled_leave hi hs ha hf (fun hc => absurd hc (by decide)) s.replies

theorem once_of_guarded {acts : List Act} {s : State} (h : machine.run acts = some s)
    (hg : machine.Guarded OwnConsumed machine.init acts) : AnsweredOnce s.trace := by
  have hboth : Settled s ∧ AnsweredOnce s.trace := by
    refine machine.run_induction_guarded (P := fun _ s => Settled s ∧ AnsweredOnce s.trace)
      ⟨?_, ?_⟩ ?_ h hg
    · exact fun _ _ hmem => absurd hmem List.not_mem_nil
    · intro pre q code post heq
      exact absurd heq (by simp [machine, init])
    · rintro acts s a t hr ⟨hs, ha⟩ hown hst
      exact step_once (inv_run hr) hs ha hown hst
  exact hboth.2

/-- What was observed stays. -/
theorem trace_runFrom {acts : List Act} {s t : State} (h : machine.runFrom s acts = some t) :
    ∃ rest, t.trace = s.trace ++ rest := by
  refine machine.runFrom_induction (P := fun t => ∃ rest, t.trace = s.trace ++ rest) ?_
    ⟨[], (List.append_nil _).symm⟩ h
  rintro u a v ⟨rest, hu⟩ hst
  cases step_inv hst with
  | request _ _ => exact ⟨rest, hu⟩
  | header _ _ _ => exact ⟨rest, hu⟩
  | notMine _ => exact ⟨rest, hu⟩
  | terminal hm op a => exact ⟨_, (congrArg (· ++ _) hu).trans (List.append_assoc ..)⟩
  | handled hm _ => exact ⟨_, (congrArg (· ++ _) hu).trans (List.append_assoc ..)⟩
  | ret _ _ => exact ⟨_, (congrArg (· ++ _) hu).trans (List.append_assoc ..)⟩
  | panic _ => exact ⟨_, (congrArg (· ++ _) hu).trans (List.append_assoc ..)⟩

/-- A handler that returns with its own `Responder` unconsumed: the cell still holds its default,
and the trampoline reports success with nothing answered. -/
theorem unanswered_return {s t : State} (hi : Inv s) {q : ReqId} (h : step s (.ret q) = some t)
    {res : Responder} (hres : res ∈ s.live) (hrc : res.rc = q) :
    t.trace = s.trace ++ [.returned q 0] ∧ terminals q s.trace = 0 := by
  have hq : q ∈ s.unanswered := List.mem_map.mpr ⟨res, hres, hrc⟩
  refine ⟨?_, hi.zero _ hq⟩
  cases step_inv h with
  | @ret f hf _ =>
    have hzero : f.rc = 0 := hi.cell f hf hq
    rw [← hzero]
    rfl

/-- **Every request is answered exactly once**, before its trampoline returns, in exactly the runs
whose handlers return with their own `Responder` consumed. -/
theorem answered_once_iff {acts : List Act} {s : State} (h : machine.run acts = some s) :
    AnsweredOnce s.trace ↔ machine.Guarded OwnConsumed machine.init acts := by
  constructor
  · intro ha
    refine machine.guarded_of_split h ?_
    rintro pre a post u w rfl hu hw hrest q rfl res hres hrc
    obtain ⟨htrace, hzero⟩ := unanswered_return (inv_run hu) hw hres hrc
    obtain ⟨rest, hs⟩ := trace_runFrom hrest
    rw [htrace, List.append_assoc] at hs
    have hone := (ha u.trace q 0 rest hs (Int.le_refl 0)).1
    omega
  · exact once_of_guarded h

/-- A request with a header and a body, and one the log server hands back. -/
def answeredRun : List Act :=
  let res : ReqId → Responder := fun q => ⟨5, q, 1, 2, 0, []⟩
  [.request ⟨7, 1, 2, 0⟩ 5, .header (res 0) (str "etag") (str "a"),
   .terminal ((res 0).header (str "etag") (str "a")) (.ok [1]) ⟨0, (0, 0), (0, [], 0)⟩, .ret 0,
   .request ⟨8, 1, 2, 0⟩ 5, .logDispatch (res 1) 1, .terminal (res 1) .defer noAnswers, .ret 1]

theorem answered_once_iff_answeredRun :
    ∃ s, machine.run answeredRun = some s ∧
      s.trace = [.terminal 0 0, .returned 0 0, .terminal 1 1, .returned 1 1] ∧
      AnsweredOnce s.trace := by
  have h : machine.run answeredRun = some _ := rfl
  exact ⟨_, h, rfl, (answered_once_iff h).mpr (by decide)⟩

/-- The first handler answers, keeps the `Reply` and panics; the second returns that `Reply`. -/
def strayRun : List Act :=
  [.request ⟨7, 1, 2, 0⟩ 5, .terminal ⟨5, 0, 1, 2, 0, []⟩ (.ok [1]) ⟨0, (0, 0), (0, [], 0)⟩,
   .panic 0, .request ⟨8, 1, 2, 0⟩ 5, .ret 1]

/-- **A request reported as answered with nothing written**: a `Reply` is not tied to its call. -/
theorem stray_reply :
    ∃ s, machine.run strayRun = some s ∧
      s.trace = [.terminal 0 0, .returned 0 (-801), .returned 1 0] ∧ ¬ AnsweredOnce s.trace := by
  refine ⟨_, rfl, rfl, fun h => ?_⟩
  have hone := (h [.terminal 0 0, .returned 0 (-801)] 1 0 [] rfl (Int.le_refl 0)).1
  exact absurd hone (by decide)

/-! ## Without panics -/

/-- No handler panics, and one trampoline runs at a time. -/
def Calm (s : State) (a : Act) : Prop :=
  (∀ q, a ≠ .panic q) ∧ ∀ req buf, a = .request req buf → s.frames = []

/-- While nothing panics, the `Reply`s and the unconsumed `Responder`s make up the running calls. -/
def Balanced (s : State) : Prop :=
  s.replies + s.live.length = s.frames.length ∧ s.frames.length ≤ 1

theorem balanced_answer {s : State} (h : Balanced s) {res : Responder} (hm : res ∈ s.live)
    (t : Terminal) (a : Answers) : Balanced (s.answer res t a) := by
  obtain ⟨hsum, hone⟩ := h
  have hlen := List.length_erase_of_mem hm
  have hpos := List.length_pos_of_mem hm
  unfold Balanced State.answer
  simp only [List.length_map, hlen]
  omega

theorem balanced_step {s t : State} {a : Act} (h : Balanced s) (hc : Calm s a)
    (hst : step s a = some t) : Balanced t := by
  obtain ⟨hsum, hone⟩ := h
  cases step_inv hst with
  | request req buf =>
    have hf : s.frames.length = 0 := by rw [hc.2 req buf rfl]; rfl
    unfold Balanced
    simp only [List.length_cons]
    omega
  | @header res hm name value =>
    have hlen := List.length_erase_of_mem hm
    have hpos := List.length_pos_of_mem hm
    unfold Balanced
    simp only [List.length_cons, hlen]
    omega
  | terminal hm op a => exact balanced_answer ⟨hsum, hone⟩ hm _ a
  | notMine _ => exact ⟨hsum, hone⟩
  | handled hm _ => exact balanced_answer ⟨hsum, hone⟩ hm _ noAnswers
  | ret hf hr =>
    have hlen := List.length_erase_of_mem hf
    have hpos := List.length_pos_of_mem hf
    unfold Balanced State.leave
    simp only [hlen]
    omega
  | @panic f _ => exact absurd rfl (hc.1 f.req)

/-- A balanced call returns with nothing left unconsumed: its `Reply` is its own. -/
theorem ownConsumed_of_balanced {s t : State} {a : Act} (h : Balanced s)
    (hst : step s a = some t) : OwnConsumed s a := by
  rintro q rfl res hres
  obtain ⟨hsum, hone⟩ := h
  have hpos := List.length_pos_of_mem hres
  cases step_inv hst with
  | ret hf hr => omega

/-- **Where the type of `Reply` is enough**: no handler panics, one trampoline runs at a time. -/
theorem answered_of_no_panic {acts : List Act} {s : State} (h : machine.run acts = some s)
    (hc : machine.Guarded Calm machine.init acts) : AnsweredOnce s.trace := by
  refine once_of_guarded h ?_
  have hboth : Balanced s ∧ machine.Guarded OwnConsumed machine.init acts := by
    refine machine.run_induction_guarded
      (P := fun as s => Balanced s ∧ machine.Guarded OwnConsumed machine.init as)
      ⟨⟨rfl, Nat.zero_le 1⟩, trivial⟩ ?_ h hc
    rintro acts s a t hr ⟨hb, hg⟩ hca hst
    exact ⟨balanced_step hb hca hst,
      (machine.guarded_snoc hr).mpr ⟨hg, ownConsumed_of_balanced hb hst⟩⟩
  exact hboth.2

end Nwep.Server.Trampoline
