import Nwep.Runtime.StreamProgress

/-!
# Starting a managed stream

Model of `ClientBuilder::stream` (`nwep/src/runtime.rs` 590-747) around the owner thread: the task that
polls or drops the future, the spawn, and the join of a thread that failed. What the thread does, and
what the caller does to the cell and the channel, are steps of `Runtime.Stream`.

* The `AsyncStream` exists from the moment the future takes an `Ok` out of `ready`; only then do the
  steps of its consumer happen (`Act.ofConsumer`).
* The future can be dropped where it awaits: before its first poll, or at `ready_rx.await`. The join
  of a failed thread happens inside one poll.
* A call of the set-up may panic; that drops `ready_tx` unsent. What follows the last of them, reading
  the status and the headers off the metadata, does not: each read is total, and the headers counted
  are taken to fit a `Vec`.

Results:
* `inv_step`: what the future knows of the thread;
* **`stream_reachable`**: what thread and caller do to the stream is a run of `Runtime.Stream`.
-/

namespace Nwep.Runtime

namespace Stream

/-- The label is a step of the holder of the `AsyncStream`. -/
def Act.ofConsumer : Act → Bool
  | .next => true
  | .drop => true
  | _ => false

/-- The owner is at a call of the set-up. -/
def Pc.calls : Pc → Bool
  | .connect => true
  | .openStream => true
  | .response => true
  | _ => false

/-- Past the set-up the report stays as it is, and the set-up does not come back. -/
theorem past_step {s t : State} {a : Act} (hs : Step s a t) (hp : s.pc.setsUp = false) :
    t.pc.setsUp = false ∧ t.ready = s.ready := by
  cases hs with
  | connect hpc | connectErr hpc | openStream hpc | openErr hpc | response hpc | responseErr hpc
  | sendReady hpc _ | callerGone hpc _ =>
    rw [hpc] at hp
    exact absurd hp (by simp [Pc.setsUp])
  | @recv a buf n ended hpc _ _ =>
    refine ⟨?_, rfl⟩
    unfold afterRecv
    split
    · cases ended <;> rfl
    · rfl
  | @pushChunk _ ended _ _ _ => cases ended <;> exact ⟨rfl, rfl⟩
  | peer _ | recvPanic _ _ _ | recvErr _ _ | pushLast _ _ | pushFails _ _ | verify _ | finish _ =>
    exact ⟨rfl, rfl⟩
  | receiveOk _ _ | receiveErr _ _ | nextItem _ _ | nextClosed _ _ | drop _ => exact ⟨hp, rfl⟩

/-- What the thread does leaves the caller where it is. -/
theorem owner_keeps {s t : State} {a : Act} (hs : Step s a t) (ha : a.ofOwner = true) :
    t.caller = s.caller := by
  cases hs with
  | receiveOk _ _ | receiveErr _ _ | nextItem _ _ | nextClosed _ _ | drop _ =>
    exact absurd ha (by simp [Act.ofOwner])
  | _ => rfl

/-- What the thread does in its set-up keeps it there, ends it, or leads to its report. -/
theorem setUp_step {s t : State} {a : Act} (hs : Step s a t) (hp : s.pc.setsUp = true)
    (ha : a.ofOwner = true) :
    t.pc.setsUp = true ∨ t.pc.over = true ∨ t.pc = .peer ∧ t.ready = s.ready.send (.ok ()) := by
  cases hs with
  | connect _ | openStream _ | response _ => exact Or.inl rfl
  | connectErr _ | openErr _ | responseErr _ | callerGone _ _ => exact Or.inr (Or.inl rfl)
  | sendReady _ _ => exact Or.inr (Or.inr ⟨rfl, rfl⟩)
  | peer hpc | recv hpc _ _ | recvPanic hpc _ _ | recvErr hpc _ | pushChunk hpc _ | pushLast hpc _
  | verify hpc | finish hpc =>
    rw [hpc] at hp
    exact absurd hp (by simp [Pc.setsUp])
  | pushFails hpc _ =>
    rcases hpc with ⟨_, _, hpc⟩ | ⟨_, hpc⟩ <;> rw [hpc] at hp <;>
      exact absurd hp (by simp [Pc.setsUp])
  | receiveOk _ _ | receiveErr _ _ | nextItem _ _ | nextClosed _ _ | drop _ =>
    exact absurd ha (by simp [Act.ofOwner])

end Stream

namespace StreamStart

open Nwep.Lib

/-- Where the `stream` future is. -/
inductive Future
  | created                -- not polled yet, no thread
  | waiting                -- at `ready_rx.await`
  | joining (e : Error)    -- at `join.join()`
  | failed (e : Error)     -- returned an error
  | streaming              -- returned the `AsyncStream`
  | dropped
  deriving DecidableEq

/-- Where the owner thread is, with the stream it works on. -/
inductive Owner
  | unspawned
  | setUp (s : Stream.State)       -- up to `ready_tx.send(Ok(..))`
  | panicked (s : Stream.State)    -- in a call of the set-up
  | body (s : Stream.State)        -- past it

namespace Owner

/-- The stream, once the thread was spawned. -/
def stream : Owner → Option Stream.State
  | .unspawned => none
  | .setUp s => some s
  | .panicked s => some s
  | .body s => some s

/-- The caller acts on the stream. -/
def set : Owner → Stream.State → Owner
  | .unspawned, _ => .unspawned
  | .setUp _, t => .setUp t
  | .panicked _, t => .panicked t
  | .body _, t => .body t

/-- The `ready` cell. -/
def report : Owner → Oneshot (Result Unit)
  | .unspawned => .waiting
  | .setUp s => s.ready
  | .panicked _ => .dropped
  | .body s => s.ready

/-- The thread has ended. -/
def ended : Owner → Bool
  | .unspawned => false
  | .setUp s => s.pc.over
  | .panicked _ => true
  | .body s => s.pc.over

/-- The place of a thread that took a step of the set-up. -/
def after (t : Stream.State) : Owner := if t.pc = .peer then .body t else .setUp t

theorem stream_set {o : Owner} {st : Stream.State} (h : o.stream = some st) (t : Stream.State) :
    (o.set t).stream = some t := by
  cases o with
  | unspawned => exact absurd h (by simp [stream])
  | setUp _ | panicked _ | body _ => rfl

theorem setUp_of_set {o : Owner} {t u : Stream.State} (h : o.set t = .setUp u) :
    u = t ∧ ∃ st, o = .setUp st := by
  cases o with
  | setUp st => exact ⟨(Owner.setUp.inj h).symm, st, rfl⟩
  | unspawned | panicked _ | body _ => exact absurd h (by simp [set])

theorem body_of_set {o : Owner} {t u : Stream.State} (h : o.set t = .body u) :
    u = t ∧ ∃ st, o = .body st := by
  cases o with
  | body st => exact ⟨(Owner.body.inj h).symm, st, rfl⟩
  | unspawned | setUp _ | panicked _ => exact absurd h (by simp [set])

/-- The caller does not end the thread. -/
theorem ended_set {o : Owner} {st t : Stream.State} (h : o.stream = some st) (hpc : t.pc = st.pc) :
    (o.set t).ended = o.ended := by
  cases o with
  | unspawned | panicked _ => rfl
  | setUp u | body u =>
    obtain rfl := Option.some.inj h
    simp only [set, ended, hpc]

end Owner

structure State where
  future : Future
  owner  : Owner

inductive Act
  | poll
  | spawnFails
  | dropFuture
  | receive
  | joined
  | panic
  | stream (a : Stream.Act)

def init : State where
  future := .created
  owner := .unspawned

/-- What the future does to the stream. -/
def State.caller (s : State) (a : Stream.Act) : Option Owner :=
  s.owner.stream.bind fun st => (Stream.step st a).map s.owner.set

/-- One step of the task, of the owner thread or of the consumer. -/
def step (s : State) : Act → Option State
  | .poll => if s.future = .created then some ⟨.waiting, .setUp Stream.init⟩ else none
  -- `.spawn(..).map_err(|_| Error::Internal)?`
  | .spawnFails =>
    if s.future = .created then some { s with future := .failed .internal } else none
  | .dropFuture =>
    match s.future with
    | .created => some { s with future := .dropped }
    | .waiting => (s.caller .drop).map fun o => ⟨.dropped, o⟩
    | _ => none
  | .receive =>
    match s.future, s.owner.report with
    | .waiting, .sent (.ok _) => (s.caller .receive).map fun o => ⟨.streaming, o⟩
    | .waiting, .sent (.error e) => (s.caller .receive).map fun o => ⟨.joining e, o⟩
    | .waiting, .dropped => some { s with future := .joining .internal }
    | _, _ => none
  | .joined =>
    match s.future with
    | .joining e => if s.owner.ended then some { s with future := .failed e } else none
    | _ => none
  | .panic =>
    match s.owner with
    | .setUp st => if st.pc.calls then some { s with owner := .panicked st } else none
    | _ => none
  | .stream a =>
    match s.owner with
    | .setUp st =>
      if a.ofOwner then (Stream.step st a).map fun t => { s with owner := .after t } else none
    | .body st =>
      if a.ofOwner = true ∨ a.ofConsumer = true ∧ s.future = .streaming then
        (Stream.step st a).map fun t => { s with owner := .body t }
      else none
    | _ => none

/-- Starting a managed stream. -/
def machine : Machine State Act where
  init := init
  step := step

/-! ## What each step does -/

/-- Every enabled step, with its guard and its effect. -/
inductive Step (s : State) : Act → State → Prop
  | poll (h : s.future = .created) : Step s .poll ⟨.waiting, .setUp Stream.init⟩
  | spawnFails (h : s.future = .created) : Step s .spawnFails { s with future := .failed .internal }
  | dropCreated (h : s.future = .created) : Step s .dropFuture { s with future := .dropped }
  | dropWaiting {st t} (h : s.future = .waiting) (ho : s.owner.stream = some st)
      (hs : Stream.step st .drop = some t) : Step s .dropFuture ⟨.dropped, s.owner.set t⟩
  | receiveOk {st t u} (h : s.future = .waiting) (hr : s.owner.report = .sent (.ok u))
      (ho : s.owner.stream = some st) (hs : Stream.step st .receive = some t) :
      Step s .receive ⟨.streaming, s.owner.set t⟩
  | receiveErr {st t e} (h : s.future = .waiting) (hr : s.owner.report = .sent (.error e))
      (ho : s.owner.stream = some st) (hs : Stream.step st .receive = some t) :
      Step s .receive ⟨.joining e, s.owner.set t⟩
  | receiveDropped (h : s.future = .waiting) (hr : s.owner.report = .dropped) :
      Step s .receive { s with future := .joining .internal }
  | joined {e} (h : s.future = .joining e) (ho : s.owner.ended = true) :
      Step s .joined { s with future := .failed e }
  | panic {st} (ho : s.owner = .setUp st) (hc : st.pc.calls = true) :
      Step s .panic { s with owner := .panicked st }
  | setUp {a st t} (ho : s.owner = .setUp st) (ha : a.ofOwner = true)
      (hs : Stream.step st a = some t) : Step s (.stream a) { s with owner := .after t }
  | body {a st t} (ho : s.owner = .body st)
      (ha : a.ofOwner = true ∨ a.ofConsumer = true ∧ s.future = .streaming)
      (hs : Stream.step st a = some t) : Step s (.stream a) { s with owner := .body t }

theorem caller_some {s : State} {a : Stream.Act} {o : Owner} (h : s.caller a = some o) :
    ∃ st t, s.owner.stream = some st ∧ Stream.step st a = some t ∧ s.owner.set t = o := by
  obtain ⟨st, ho, hst⟩ := Option.bind_eq_some_iff.mp h
  obtain ⟨t, ht, heq⟩ := Option.map_eq_some_iff.mp hst
  exact ⟨st, t, ho, ht, heq⟩

theorem step_inv {s t : State} {a : Act} (h : step s a = some t) : Step s a t := by
  cases a with
  | poll =>
    simp only [step] at h
    split at h
    · rename_i hf
      obtain rfl := Option.some.inj h
      exact .poll hf
    · exact absurd h (by simp)
  | spawnFails =>
    simp only [step] at h
    split at h
    · rename_i hf
      obtain rfl := Option.some.inj h
      exact .spawnFails hf
    · exact absurd h (by simp)
  | dropFuture =>
    simp only [step] at h
    split at h
    · rename_i hf
      obtain rfl := Option.some.inj h
      exact .dropCreated hf
    · rename_i hf
      obtain ⟨o, hc, rfl⟩ := Option.map_eq_some_iff.mp h
      obtain ⟨st, t, ho, hs, rfl⟩ := caller_some hc
      exact .dropWaiting hf ho hs
    · exact absurd h (by simp)
  | receive =>
    simp only [step] at h
    split at h
    · rename_i u hf hr
      obtain ⟨o, hc, rfl⟩ := Option.map_eq_some_iff.mp h
      obtain ⟨st, t, ho, hs, rfl⟩ := caller_some hc
      exact .receiveOk hf hr ho hs
    · rename_i e hf hr
      obtain ⟨o, hc, rfl⟩ := Option.map_eq_some_iff.mp h
      obtain ⟨st, t, ho, hs, rfl⟩ := caller_some hc
      exact .receiveErr hf hr ho hs
    · rename_i hf hr
      obtain rfl := Option.some.inj h
      exact .receiveDropped hf hr
    · exact absurd h (by simp)
  | joined =>
    simp only [step] at h
    split at h
    · rename_i e hf
      split at h
      · rename_i ho
        obtain rfl := Option.some.inj h
        exact .joined hf ho
      · exact absurd h (by simp)
    · exact absurd h (by simp)
  | panic =>
    simp only [step] at h
    split at h
    · rename_i st ho
      split at h
      · rename_i hc
        obtain rfl := Option.some.inj h
        exact .panic ho hc
      · exact absurd h (by simp)
    · exact absurd h (by simp)
  | stream a =>
    simp only [step] at h
    split at h
    · rename_i st ho
      split at h
      · rename_i ha
        obtain ⟨t, ht, rfl⟩ := Option.map_eq_some_iff.mp h
        exact .setUp ho ha ht
      · exact absurd h (by simp)
    · rename_i st ho
      split at h
      · rename_i ha
        obtain ⟨t, ht, rfl⟩ := Option.map_eq_some_iff.mp h
        exact .body ho ha ht
      · exact absurd h (by simp)
    · exact absurd h (by simp)

/-! ## What every run keeps -/

/-- The future and the thread, by the places they are at. -/
structure Inv (s : State) : Prop where
  created : s.future = .created → s.owner = .unspawned
  reach   : ∀ st, s.owner.stream = some st → Stream.machine.Reachable st
  waiting : ∀ st, s.future = .waiting → s.owner.stream = some st → st.caller = .waiting
  setUp   : ∀ st, s.owner = .setUp st → st.pc.setsUp = true ∨ st.pc.over = true
  body    : ∀ st, s.owner = .body st → st.pc.setsUp = false ∧ st.ready = .sent (.ok ())
  joining : ∀ e, s.future = .joining e → s.owner.ended = true ∧ ∀ st, s.owner ≠ .body st

theorem inv_init : Inv init where
  created _ := rfl
  reach st h := absurd h (by simp [init, Owner.stream])
  waiting st h := absurd h (by simp [init])
  setUp st h := absurd h (by simp [init])
  body st h := absurd h (by simp [init])
  joining e h := absurd h (by simp [init])

/-- A report that is not good news comes from a thread that is over, and not past its set-up. -/
theorem Inv.refused {s : State} (h : Inv s) (hr : (∃ e, s.owner.report = .sent (.error e)) ∨
    s.owner.report = .dropped) : s.owner.ended = true ∧ ∀ st, s.owner ≠ .body st := by
  cases ho : s.owner with
  | unspawned =>
    rw [ho] at hr
    exact absurd hr (by simp [Owner.report])
  | panicked st => exact ⟨rfl, by simp⟩
  | setUp st =>
    refine ⟨(h.setUp st ho).resolve_left fun hp => ?_, by simp⟩
    have hw := (Stream.present_reachable (h.reach st (by rw [ho]; rfl))).unsent hp
    simp [ho, Owner.report, hw] at hr
  | body st =>
    have hok := (h.body st ho).2
    simp [ho, Owner.report, hok] at hr

/-- The caller acts on the stream, and is no longer waiting. -/
theorem Inv.acts {s : State} (h : Inv s) {st t : Stream.State} {a : Stream.Act}
    (ho : s.owner.stream = some st) (hs : Stream.step st a = some t) (ha : a.ofOwner = false)
    {f : Future} (hc : f ≠ .created) (hw : f ≠ .waiting)
    (hj : ∀ e, f = .joining e → s.owner.ended = true ∧ ∀ st, s.owner ≠ .body st) :
    Inv ⟨f, s.owner.set t⟩ := by
  obtain ⟨hpc, hready⟩ := Stream.caller_keeps (Stream.step_inv hs) ha
  have hsame : ∀ v, s.owner.stream = some v → v = st := fun v hv => Option.some.inj (hv.symm.trans ho)
  refine ⟨fun hf => absurd hf hc, fun u hu => ?_, fun u hf => absurd hf hw, fun u hu => ?_,
    fun u hu => ?_, fun e hf => ?_⟩
  · obtain rfl := Option.some.inj ((Owner.stream_set ho t).symm.trans hu)
    exact Stream.machine.reachable_step (h.reach st ho) hs
  · obtain ⟨rfl, v, hv⟩ := Owner.setUp_of_set hu
    obtain rfl := hsame v (by rw [hv]; rfl)
    rw [hpc]
    exact h.setUp v hv
  · obtain ⟨rfl, v, hv⟩ := Owner.body_of_set hu
    obtain rfl := hsame v (by rw [hv]; rfl)
    rw [hpc, hready]
    exact h.body v hv
  · obtain ⟨hover, hno⟩ := hj e hf
    refine ⟨(Owner.ended_set ho hpc).trans hover, fun u hu => ?_⟩
    obtain ⟨-, v, hv⟩ := Owner.body_of_set hu
    exact hno v hv

/-- The thread takes a step of the set-up. -/
theorem Inv.setsUp {s : State} (h : Inv s) {st t : Stream.State} {a : Stream.Act}
    (ho : s.owner = .setUp st) (ha : a.ofOwner = true) (hs : Stream.step st a = some t) :
    Inv { s with owner := .after t } := by
  have hst := Stream.step_inv hs
  have hreach := h.reach st (by rw [ho]; rfl)
  have hgoing : st.pc.over = false := by
    by_contra hn
    exact absurd (ha.symm.trans (Stream.not_ofOwner_of_over hst (by simpa using hn))) (by simp)
  have hset : st.pc.setsUp = true := (h.setUp st ho).resolve_right (by simp [hgoing])
  have hunsent := (Stream.present_reachable hreach).unsent hset
  have hafter : ∀ u, (Owner.after t).stream = some u → u = t := by
    intro u hu
    unfold Owner.after at hu
    split at hu <;> exact (Option.some.inj hu).symm
  refine ⟨fun hf => ?_, fun u hu => ?_, fun u hf hu => ?_, fun u hu => ?_, fun u hu => ?_,
    fun e hf => ?_⟩
  · exact absurd (ho.symm.trans (h.created hf)) (by simp)
  · obtain rfl := hafter u hu
    exact Stream.machine.reachable_step hreach hs
  · obtain rfl := hafter u hu
    exact (Stream.owner_keeps hst ha).trans (h.waiting st hf (by rw [ho]; rfl))
  · have hu : Owner.after t = .setUp u := hu
    unfold Owner.after at hu
    split at hu
    · exact absurd hu (by simp)
    · rename_i hne
      obtain rfl := Owner.setUp.inj hu
      rcases Stream.setUp_step hst hset ha with hp | hp | ⟨hp, -⟩
      · exact Or.inl hp
      · exact Or.inr hp
      · exact absurd hp hne
  · have hu : Owner.after t = .body u := hu
    unfold Owner.after at hu
    split at hu
    · rename_i hpeer
      obtain rfl := Owner.body.inj hu
      refine ⟨by rw [hpeer]; rfl, ?_⟩
      rcases Stream.setUp_step hst hset ha with hp | hp | ⟨-, hready⟩
      · rw [hpeer] at hp
        exact absurd hp (by simp [Stream.Pc.setsUp])
      · rw [hpeer] at hp
        exact absurd hp (by simp [Stream.Pc.over])
      · rw [hready, hunsent]
        rfl
    · exact absurd hu (by simp)
  · have hover := (h.joining e hf).1
    rw [ho] at hover
    exact absurd (hgoing.symm.trans hover) (by simp)

theorem inv_step {s t : State} {a : Act} (h : Inv s) (hs : Step s a t) : Inv t := by
  cases hs with
  | poll hf =>
    refine ⟨by simp, fun u hu => ?_, fun u _ hu => ?_, fun u hu => ?_, by simp, by simp⟩
    · obtain rfl := Option.some.inj hu
      exact ⟨[], rfl⟩
    · obtain rfl := Option.some.inj hu
      rfl
    · obtain rfl := Owner.setUp.inj hu
      exact Or.inl rfl
  | spawnFails hf | dropCreated hf =>
    have hun := h.created hf
    exact ⟨by simp, h.reach, by simp, h.setUp, h.body, by simp⟩
  | dropWaiting _ ho hst => exact h.acts ho hst rfl (by simp) (by simp) (by simp)
  | receiveOk _ _ ho hst => exact h.acts ho hst rfl (by simp) (by simp) (by simp)
  | receiveErr _ hr ho hst =>
    exact h.acts ho hst rfl (by simp) (by simp) fun _ _ => h.refused (Or.inl ⟨_, hr⟩)
  | receiveDropped _ hr =>
    exact ⟨by simp, h.reach, by simp, h.setUp, h.body, fun _ _ => h.refused (Or.inr hr)⟩
  | joined _ _ => exact ⟨by simp, h.reach, by simp, h.setUp, h.body, by simp⟩
  | @panic st ho _ =>
    have hstream : s.owner.stream = some st := by rw [ho]; rfl
    refine ⟨fun hf => ?_, fun u hu => ?_, fun u hf hu => ?_, by simp, by simp, fun _ _ => ⟨rfl, by simp⟩⟩
    · exact absurd (ho.symm.trans (h.created hf)) (by simp)
    · exact h.reach u (hstream.trans hu)
    · exact h.waiting u hf (hstream.trans hu)
  | setUp ho ha hst => exact h.setsUp ho ha hst
  | @body a st t ho ha hst =>
    have hstream : s.owner.stream = some st := by rw [ho]; rfl
    obtain ⟨hpast, hok⟩ := h.body st ho
    obtain ⟨hpast', hready⟩ := Stream.past_step (Stream.step_inv hst) hpast
    refine ⟨fun hf => ?_, fun u hu => ?_, fun u hf hu => ?_, by simp, fun u hu => ?_, fun e hf => ?_⟩
    · exact absurd (ho.symm.trans (h.created hf)) (by simp)
    · obtain rfl := Option.some.inj hu
      exact Stream.machine.reachable_step (h.reach st hstream) hst
    · obtain rfl := Option.some.inj hu
      have hf : s.future = .waiting := hf
      rcases ha with ha | ⟨-, hstreaming⟩
      · exact (Stream.owner_keeps (Stream.step_inv hst) ha).trans (h.waiting st hf hstream)
      · exact absurd (hf.symm.trans hstreaming) (by simp)
    · obtain rfl := Owner.body.inj hu
      exact ⟨hpast', hready.trans hok⟩
    · exact absurd ho ((h.joining e hf).2 st)

theorem inv_reachable {s : State} (h : machine.Reachable s) : Inv s :=
  machine.reachable_induction (P := Inv) inv_init (fun _ _ _ _ hp hst => inv_step hp (step_inv hst)) h

/-- **What the thread and the caller do to the stream is a run of it.** -/
theorem stream_reachable {s : State} (h : machine.Reachable s) {st : Stream.State}
    (ho : s.owner.stream = some st) : Stream.machine.Reachable st := (inv_reachable h).reach st ho

end StreamStart

end Nwep.Runtime
