import Nwep.Runtime.StreamBody

/-!
# What the end of a managed stream says

The end reaches the consumer in two ways: as the explicit item `Ok(None)`, sent once the signature
verified, and as the closed channel, which `AsyncStream::recv` turns into `Ok(None)` too. The owner
closes the channel on every way out, so the second says nothing about the signature.

Results:
* `closed_channel`: the channel of a consumer that is still there closes after a last item or a
  panic;
* **`ends_verified_iff`**: no unverified end is reported exactly in the runs in which the consumer
  reads nothing more after an error, and nothing past what a panicked owner sent.
-/

namespace Nwep.Runtime.Stream

open Nwep.Client Nwep.Lib

/-- The label is a signature check that succeeds. -/
def Act.Verifies : Act → Prop
  | .verify _ rc => streamVerify rc = .ok ()
  | _ => False

/-- The stream ended, and then its signature verified. -/
def Verified (acts : List Act) : Prop :=
  ∃ pre key rc post r, acts = pre ++ .verify key rc :: post ∧ streamVerify rc = .ok () ∧
    handDriven pre = .ended r

/-- No signature check succeeded. -/
def Unverified (acts : List Act) : Prop := ∀ a ∈ acts, ¬ a.Verifies

theorem Verified.snoc {acts : List Act} (h : Verified acts) (a : Act) : Verified (acts ++ [a]) := by
  obtain ⟨pre, key, rc, post, r, rfl, hv, hd⟩ := h
  exact ⟨pre, key, rc, post ++ [a], r, by simp, hv, hd⟩

theorem Unverified.snoc {acts : List Act} (h : Unverified acts) {a : Act} (ha : ¬ a.Verifies) :
    Unverified (acts ++ [a]) := by
  intro b hb
  rcases List.mem_append.mp hb with hb | hb
  · exact h b hb
  · rw [List.mem_singleton.mp hb]
    exact ha

theorem Verified.not_unverified {acts : List Act} (h : Verified acts) : ¬ Unverified acts := by
  obtain ⟨pre, key, rc, post, r, rfl, hv, -⟩ := h
  exact fun hu => hu (.verify key rc) (by simp) hv

/-- No recv of the consumer reported an end that did not happen. -/
def EndsVerified (acts : List Act) (s : State) : Prop :=
  .ok none ∈ s.got.map asyncRecv → Verified acts

/-- The consumer reads on only while no recv returned an error, and no further than what the owner
sent before it panicked. -/
def ReadsOn (s : State) (a : Act) : Prop :=
  a = .next → (∀ e, some (.error e) ∉ s.got) ∧ (s.pc = .panicked → s.chunks.queue ≠ [])

/-- What the consumer got is an error. -/
def isErr : Option StreamItem → Bool
  | some (.error _) => true
  | _ => false

theorem not_mem_error_iff {got : List (Option StreamItem)} :
    (∀ o ∈ got, isErr o = false) ↔ ∀ e, some (.error e) ∉ got := by
  constructor
  · exact fun h e he => absurd (h _ he) (by simp [isErr])
  · intro h o ho
    match o with
    | none => rfl
    | some (.ok _) => rfl
    | some (.error e) => exact absurd ho (h e)

instance (s : State) (a : Act) : Decidable (ReadsOn s a) :=
  match a with
  | .next => decidable_of_iff ((∀ o ∈ s.got, isErr o = false) ∧
      (s.pc = .panicked → s.chunks.queue ≠ [])) (by simp [ReadsOn, not_mem_error_iff])
  | .connect _ | .openStream _ | .response _ | .sendReady | .receive | .peer _ _ | .recv _
  | .push _ | .pushFails | .verify _ _ | .finish | .drop => isTrue fun h => absurd h (by simp)

/-! ## Who is there -/

/-- The owner has not reported yet. -/
def Pc.setsUp : Pc → Bool
  | .connect => true
  | .openStream => true
  | .response => true
  | .ready => true
  | _ => false

/-- The caller holds the receiver, and streams only what was reported to it. -/
structure Present (s : State) : Prop where
  unsent    : s.pc.setsUp = true → s.ready = .waiting
  open'     : s.caller = .waiting ∨ s.caller = .streaming → s.chunks.rxOpen = true
  streaming : s.caller = .streaming → s.ready = .sent (.ok ())
  closed    : s.chunks.txOpen = false → s.pc = .returned ∨ s.pc = .panicked

theorem present_step {s t : State} {a : Act} (h : Present s) (hs : Step s a t) : Present t := by
  obtain ⟨hu, ho, hst, hc⟩ := h
  cases hs with
  | connect hpc | openStream hpc | response hpc =>
    have hw := hu (by rw [hpc]; rfl)
    refine ⟨fun _ => hw, ho, hst, fun htx => ?_⟩
    rcases hc htx with hc | hc <;> rw [hpc] at hc <;> exact absurd hc (by simp)
  | connectErr hpc | openErr hpc | responseErr hpc =>
    have hw := hu (by rw [hpc]; rfl)
    refine ⟨fun hsu => absurd hsu (by simp [State.fail, Pc.setsUp]), ho, fun hs => ?_,
      fun _ => Or.inl rfl⟩
    have hsent := hst hs
    rw [hw] at hsent
    exact absurd hsent (by simp)
  | sendReady hpc hcall =>
    refine ⟨fun hsu => absurd hsu (by simp [Pc.setsUp]), ho, fun hs => ?_, fun htx => ?_⟩
    · exact absurd (hcall.symm.trans hs) (by simp)
    · rcases hc htx with hc | hc <;> rw [hpc] at hc <;> exact absurd hc (by simp)
  | callerGone _ _ =>
    exact ⟨fun hsu => absurd hsu (by simp [Pc.setsUp]), ho, hst, fun _ => Or.inl rfl⟩
  | peer hpc | recvErr hpc _ | verify hpc =>
    refine ⟨fun hsu => absurd hsu (by simp [Pc.setsUp]), ho, hst, fun htx => ?_⟩
    rcases hc htx with hc | hc <;> rw [hpc] at hc <;> exact absurd hc (by simp)
  | @recv a buf n ended hpc _ _ =>
    refine ⟨fun hsu => ?_, ho, hst, fun htx => ?_⟩
    · refine absurd hsu ?_
      unfold afterRecv
      split
      · cases ended <;> simp [Pc.setsUp]
      · simp [Pc.setsUp]
    · rcases hc htx with hc | hc <;> rw [hpc] at hc <;> exact absurd hc (by simp)
  | recvPanic _ _ _ =>
    exact ⟨fun hsu => absurd hsu (by simp [Pc.setsUp]), ho, hst, fun _ => Or.inr rfl⟩
  | @pushChunk chunk ended ch hpc hp =>
    obtain ⟨htx, hrx, -, -, htx', hrx'⟩ := Mpsc.push_spec hp
    refine ⟨fun hsu => ?_, fun _ => hrx'.trans hrx, hst, fun hf => ?_⟩
    · cases ended <;> exact absurd hsu (by simp [Pc.setsUp])
    · exact absurd ((htx'.trans htx).symm.trans hf) (by simp)
  | @pushLast last ch hpc hp =>
    obtain ⟨htx, hrx, -, -, htx', hrx'⟩ := Mpsc.push_spec hp
    refine ⟨fun hsu => absurd hsu (by simp [Pc.setsUp]), fun _ => hrx'.trans hrx, hst, fun hf => ?_⟩
    exact absurd ((htx'.trans htx).symm.trans hf) (by simp)
  | pushFails hpc _ =>
    refine ⟨fun hsu => absurd hsu (by simp [Pc.setsUp]), ho, hst, fun htx => ?_⟩
    rcases hpc with ⟨_, _, hpc⟩ | ⟨_, hpc⟩ <;> rcases hc htx with hc | hc <;> rw [hpc] at hc <;>
      exact absurd hc (by simp)
  | finish _ => exact ⟨fun hsu => absurd hsu (by simp [Pc.setsUp]), ho, hst, fun _ => Or.inl rfl⟩
  | @receiveOk u hcall hr => exact ⟨hu, fun _ => ho (Or.inl hcall), fun _ => hr, hc⟩
  | receiveErr _ _ | drop _ =>
    refine ⟨hu, fun hcall => ?_, fun hcall => absurd hcall (by simp), hc⟩
    rcases hcall with hcall | hcall <;> exact absurd hcall (by simp)
  | nextItem hcall hq =>
    obtain ⟨-, htx, hrx⟩ := Mpsc.tryRecv_item hq
    exact ⟨hu, fun _ => hrx.trans (ho (Or.inr hcall)), hst, fun hf => hc (htx.symm.trans hf)⟩
  | nextClosed _ _ => exact ⟨hu, ho, hst, hc⟩

theorem present_reachable {s : State} (h : machine.Reachable s) : Present s := by
  refine machine.reachable_induction (P := Present) ?_
    (fun _ _ _ _ hp hst => present_step hp (step_inv hst)) h
  exact ⟨fun _ => rfl, fun _ => rfl, fun hs => absurd hs (by simp [machine, init]),
    fun htx => absurd htx (by simp [machine, init])⟩

/-! ## What the last item says -/

/-- The signature has not been looked at, or never will be. -/
def Pc.unchecked : Pc → Bool
  | .sendLast _ => false
  | .returning => false
  | .returned => false
  | _ => true

/-- The last item is the end exactly when the signature was found good. -/
def Honest (acts : List Act) (last : Result Unit) : Prop :=
  (last.isOk = true → Verified acts) ∧ (last.isOk = false → Unverified acts)

theorem Honest.snoc {acts : List Act} {last : Result Unit} (h : Honest acts last) {a : Act}
    (ha : ¬ a.Verifies) : Honest (acts ++ [a]) last :=
  ⟨fun hok => (h.1 hok).snoc a, fun herr => (h.2 herr).snoc ha⟩

/-- What the history knows of the signature. -/
structure Checked (acts : List Act) (s : State) : Prop where
  unchecked : s.pc.unchecked = true → Unverified acts
  held      : ∀ last, s.pc = .sendLast last → Honest acts last
  arrived   : ∀ last, lastItem last ∈ sent acts → Honest acts last
  left      : s.pc = .returning ∨ s.pc = .returned → s.chunks.rxOpen = true →
    s.ready = .sent (.ok ()) → ∃ last, lastItem last ∈ sent acts

/-- A label that checks nothing, sends nothing, and leads to no last item and out of the thread only
from there. -/
theorem Checked.keep {acts : List Act} {s t : State} {a : Act} (h : Checked acts s)
    (ha : ¬ a.Verifies) (hs : sent (acts ++ [a]) = sent acts)
    (hu : t.pc.unchecked = true → s.pc.unchecked = true)
    (hh : ∀ last, t.pc = .sendLast last → s.pc = .sendLast last)
    (hl : t.pc = .returning ∨ t.pc = .returned → t.chunks.rxOpen = true →
      t.ready = .sent (.ok ()) → (s.pc = .returning ∨ s.pc = .returned) ∧
        s.chunks.rxOpen = true ∧ s.ready = .sent (.ok ())) : Checked (acts ++ [a]) t where
  unchecked := fun hut => (h.unchecked (hu hut)).snoc ha
  held := fun last hpc => (h.held last (hh last hpc)).snoc ha
  arrived := fun last hm => (h.arrived last (hs ▸ hm)).snoc ha
  left := fun hpc hrx hr => by
    obtain ⟨hpc', hrx', hr'⟩ := hl hpc hrx hr
    rw [hs]
    exact h.left hpc' hrx' hr'

theorem checked_step {acts : List Act} {s t : State} {a : Act} (h : Checked acts s)
    (hown : Owner acts s) (hpr : Present s) (hs : Step s a t) : Checked (acts ++ [a]) t := by
  cases hs with
  | connect hpc | openStream hpc | response hpc | sendReady hpc _ | peer hpc =>
    exact h.keep (by simp [Act.Verifies]) (sent_other (by simp) acts) (fun _ => by rw [hpc]; rfl)
      (fun last hl => absurd hl (by simp)) (fun hl => absurd hl (by simp))
  | connectErr hpc | openErr hpc | responseErr hpc =>
    have hw := hpr.unsent (by rw [hpc]; rfl)
    exact h.keep (by simp [Act.Verifies]) (sent_other (by simp) acts) (fun _ => by rw [hpc]; rfl)
      (fun last hl => absurd hl (by simp [State.fail]))
      (fun _ _ hr => absurd hr (by simp [State.fail, hw]))
  | callerGone hpc _ =>
    have hw := hpr.unsent (by rw [hpc]; rfl)
    exact h.keep (by simp [Act.Verifies]) (sent_other (by simp) acts) (fun _ => by rw [hpc]; rfl)
      (fun last hl => absurd hl (by simp)) (fun _ _ hr => absurd (hw.symm.trans hr) (by simp))
  | @recv a buf n ended hpc _ _ =>
    have hno : (∀ last, afterRecv buf n ended ≠ .sendLast last) ∧
        ¬ (afterRecv buf n ended = .returning ∨ afterRecv buf n ended = .returned) := by
      unfold afterRecv
      split
      · cases ended <;> simp
      · simp
    exact h.keep (by simp [Act.Verifies]) (sent_other (by simp) acts) (fun _ => by rw [hpc]; rfl)
      (fun last hl => absurd hl (hno.1 last)) (fun hl => absurd hl hno.2)
  | recvPanic hpc _ _ =>
    exact h.keep (by simp [Act.Verifies]) (sent_other (by simp) acts) (fun _ => by rw [hpc]; rfl)
      (fun last hl => absurd hl (by simp)) (fun hl => absurd hl (by simp))
  | @recvErr a e hpc _ =>
    have hun := h.unchecked (by rw [hpc]; rfl)
    have hsent := sent_other (a := .recv a) (by simp) acts
    refine ⟨fun hu => absurd hu (by simp [Pc.unchecked]), fun last hl => ?_, fun last hm => ?_,
      fun hl => absurd hl (by simp)⟩
    · obtain rfl := Pc.sendLast.inj hl
      exact ⟨fun hok => absurd hok (by simp [Except.isOk, Except.toBool]),
        fun _ => hun.snoc (by simp [Act.Verifies])⟩
    · exact (h.arrived last (hsent ▸ hm)).snoc (by simp [Act.Verifies])
  | @pushChunk chunk ended ch hpc _ =>
    have hpc' : ∀ b : Bool, (∀ last, (if b then Pc.verify else .recv) ≠ .sendLast last) ∧
        ¬ ((if b then Pc.verify else .recv) = .returning ∨
          (if b then Pc.verify else .recv) = .returned) := by
      intro b
      cases b <;> simp
    refine ⟨fun _ => ?_, fun last hl => absurd hl ((hpc' ended).1 last), fun last hm => ?_,
      fun hl => absurd hl (hpc' ended).2⟩
    · exact (h.unchecked (by rw [hpc]; rfl)).snoc (by simp [Act.Verifies])
    · rw [sent_push] at hm
      rcases List.mem_append.mp hm with hm | hm
      · exact (h.arrived last hm).snoc (by simp [Act.Verifies])
      · exact absurd (List.mem_singleton.mp hm) (by cases last <;> simp [lastItem])
  | @pushLast last ch hpc _ =>
    have hhonest := (h.held last hpc).snoc (a := .push (lastItem last)) (by simp [Act.Verifies])
    refine ⟨fun hu => absurd hu (by simp [Pc.unchecked]), fun last' hl => absurd hl (by simp),
      fun last' hm => ?_, fun _ _ _ => ⟨last, by rw [sent_push]; simp⟩⟩
    rw [sent_push] at hm
    rcases List.mem_append.mp hm with hm | hm
    · exact (h.arrived last' hm).snoc (by simp [Act.Verifies])
    · have heq : last' = last := by
        have hi := List.mem_singleton.mp hm
        cases last' <;> cases last <;> simp [lastItem] at hi ⊢
        exact hi
      exact heq ▸ hhonest
  | pushFails hpc hrx =>
    refine ⟨fun hu => absurd hu (by simp [Pc.unchecked]), fun last hl => absurd hl (by simp),
      fun last hm => ?_, fun _ hrx' => absurd (hrx.symm.trans hrx') (by simp)⟩
    rw [sent_other (by simp)] at hm
    exact (h.arrived last hm).snoc (by simp [Act.Verifies])
  | @verify rc hpc =>
    -- nothing but chunks was sent before the signature is looked at
    have hun := h.unchecked (by rw [hpc]; rfl)
    have hchunks := hown.active (by rw [hpc]; rfl)
    obtain ⟨r, hended⟩ := hown.ended (by rw [hpc]; rfl)
    refine ⟨fun hu => absurd hu (by simp [Pc.unchecked]), fun last hl => ?_, fun last hm => ?_,
      fun hl => absurd hl (by simp)⟩
    · obtain rfl := Pc.sendLast.inj hl
      refine ⟨fun hok => ?_, fun herr => hun.snoc fun hv => ?_⟩
      · refine ⟨acts, s.peer, rc, [], r, rfl, ?_, hended⟩
        cases hv : streamVerify rc with
        | ok _ => rfl
        | error e => rw [hv] at hok; exact absurd hok (by simp [Except.isOk, Except.toBool])
      · have hv : streamVerify rc = .ok () := hv
        rw [hv] at herr
        exact absurd herr (by simp [Except.isOk, Except.toBool])
    · rw [sent_other (by simp)] at hm
      exact absurd (hchunks _ hm) (not_isChunk_lastItem last)
  | finish hpc =>
    exact h.keep (by simp [Act.Verifies]) (sent_other (by simp) acts)
      (fun hu => absurd hu (by simp [Pc.unchecked])) (fun last hl => absurd hl (by simp))
      (fun _ hrx hr => ⟨Or.inl hpc, hrx, hr⟩)
  | receiveOk _ _ | nextClosed _ _ =>
    exact h.keep (by simp [Act.Verifies]) (sent_other (by simp) acts) id (fun _ => id)
      fun hl hrx hr => ⟨hl, hrx, hr⟩
  | receiveErr _ _ | drop _ =>
    exact h.keep (by simp [Act.Verifies]) (sent_other (by simp) acts) id (fun _ => id)
      fun _ hrx => absurd hrx (by simp)
  | nextItem _ hq =>
    obtain ⟨-, -, hrx⟩ := Mpsc.tryRecv_item hq
    exact h.keep (by simp [Act.Verifies]) (sent_other (by simp) acts) id (fun _ => id)
      fun hl hrx' hr => ⟨hl, hrx.symm.trans hrx', hr⟩

theorem checked_run {acts : List Act} {s : State} (h : machine.run acts = some s) :
    Checked acts s := by
  refine machine.run_induction (P := Checked) ?_ (fun as s a t hr hp hst =>
    checked_step hp (owner_run hr) (present_reachable ⟨as, hr⟩) (step_inv hst)) h
  exact ⟨fun _ a ha => absurd ha List.not_mem_nil,
    fun last hl => absurd hl (by simp [machine, init]),
    fun last hm => absurd hm List.not_mem_nil, fun hl => absurd hl (by simp [machine, init])⟩

/-! ## The closed channel -/

/-- **The channel closes for a consumer that is there** after a last item that it received, or after
a panic. -/
theorem closed_channel {acts : List Act} {s : State} (h : machine.run acts = some s)
    (hc : s.caller = .streaming) (hq : s.chunks.tryRecv = .disconnected) :
    s.pc = .panicked ∨ ∃ last, some (lastItem last) ∈ s.got ∧ lastItem last ∈ sent acts := by
  have hpr := present_reachable ⟨acts, h⟩
  have hrx := hpr.open' (Or.inr hc)
  obtain ⟨hnil, htx⟩ := Mpsc.tryRecv_disconnected hq
  rcases hpr.closed htx with hpc | hpc
  · obtain ⟨last, hlast⟩ := (checked_run h).left (Or.inr hpc) hrx (hpr.streaming hc)
    have hall := (delivers_run h).queued hrx
    rw [hnil, List.append_nil] at hall
    refine Or.inr ⟨last, ?_, hlast⟩
    rw [hall] at hlast
    obtain ⟨o, ho, hoe⟩ := List.mem_filterMap.mp hlast
    exact hoe ▸ ho
  · exact Or.inl hpc

/-- After an error reached the consumer, nothing is queued. -/
theorem queue_of_error {acts : List Act} {s : State} (h : machine.run acts = some s)
    {e : Error} (he : some (.error e) ∈ s.got) : .error e ∈ sent acts ∧
      (s.chunks.rxOpen = true → s.chunks.queue = []) := by
  have hown := owner_run h
  have hdel := delivers_run h
  have hitem : lastItem (.error e) ∈ items s := List.mem_filterMap.mpr ⟨_, he, rfl⟩
  have hsent := hdel.inOrder.subset hitem
  refine ⟨hsent, fun hrx => ?_⟩
  have hno : ¬ ∀ item ∈ sent acts, IsChunk item := fun hall =>
    not_isChunk_lastItem _ (hall _ hsent)
  have hclosed : Closed acts := by
    by_cases hq : s.pc.quiet = true
    · exact (hown.closed hq).resolve_left hno
    · exact absurd (hown.active (by simpa using hq)) hno
  obtain ⟨q, last, hs, hall, -, -⟩ := hclosed
  have hlast : lastItem (.error e) = lastItem last := by
    rw [hs] at hsent
    rcases List.mem_append.mp hsent with hm | hm
    · exact absurd (hall _ hm) (not_isChunk_lastItem _)
    · exact List.mem_singleton.mp hm
  have hqueued := hdel.queued hrx
  rw [hs] at hdel hqueued
  have hitems := hdel.all_of_last (fun hm => not_isChunk_lastItem last (hall _ hm)) (hlast ▸ hitem)
  rw [hitems] at hqueued
  exact List.append_right_eq_self.mp hqueued.symm

/-! ## The main result -/

/-- What the consumer got stays in its log. -/
theorem got_runFrom {acts : List Act} {s t : State} (h : machine.runFrom s acts = some t) :
    s.got <+: t.got := by
  refine machine.runFrom_induction (P := fun u => s.got <+: u.got) ?_ (List.prefix_refl _) h
  intro u a v hp hst
  cases step_inv hst with
  | nextItem _ _ | nextClosed _ _ => exact hp.trans (List.prefix_append _ _)
  | _ => exact hp

theorem panicked_runFrom {acts : List Act} {s t : State} (h : machine.runFrom s acts = some t)
    (hpc : s.pc = .panicked) : t.pc = .panicked := by
  refine machine.runFrom_induction (P := fun u => u.pc = .panicked) ?_ hpc h
  intro u a v hp hst
  cases step_inv hst with
  | receiveOk _ _ | receiveErr _ _ | nextItem _ _ | nextClosed _ _ | drop _ => exact hp
  | recvPanic _ _ _ => rfl
  | pushFails hpc _ =>
    rcases hpc with ⟨_, _, hpc⟩ | ⟨_, hpc⟩ <;> rw [hp] at hpc <;> exact absurd hpc (by simp)
  | connect hpc | connectErr hpc | openStream hpc | openErr hpc | response hpc | responseErr hpc
  | sendReady hpc _ | callerGone hpc _ | peer hpc | recv hpc _ _ | recvErr hpc _ | pushChunk hpc _
  | pushLast hpc _ | verify hpc | finish hpc =>
    rw [hp] at hpc
    exact absurd hpc (by simp)

/-- A closed channel is read as an end. -/
theorem ends_of_closed {s : State} (h : none ∈ s.got) : .ok none ∈ s.got.map asyncRecv :=
  List.mem_map.mpr ⟨none, h, rfl⟩

/-- A recv on the closed channel reports an end, whatever came before. -/
theorem ends_of_recv {u t s : State} {post : List Act} (hst : Step u .next t)
    (hpost : machine.runFrom t post = some s) (hnil : u.chunks.queue = []) :
    .ok none ∈ s.got.map asyncRecv := by
  refine ends_of_closed ((got_runFrom hpost).subset ?_)
  cases hst with
  | nextItem _ hq => exact absurd (Mpsc.tryRecv_item hq).1 (by rw [hnil]; simp)
  | nextClosed _ _ => exact List.mem_append_right _ List.mem_cons_self

theorem mem_sent_append {pre post : List Act} {item : StreamItem} (h : item ∈ sent pre) :
    item ∈ sent (pre ++ post) := by
  unfold sent at h ⊢
  rw [List.filterMap_append]
  exact List.mem_append_left _ h

/-- Where no unverified end is reported, the consumer reads on as `ReadsOn` says. -/
theorem readsOn_of_endsVerified {acts : List Act} {s : State} (h : machine.run acts = some s)
    (hends : EndsVerified acts s) : machine.Guarded ReadsOn init acts := by
  refine machine.guarded_of_split h ?_
  rintro pre a post u t rfl hu ht hpost rfl
  have hst : Step u .next t := step_inv ht
  have hclosed : u.chunks.queue = [] → Verified (pre ++ .next :: post) := fun hnil =>
    hends (ends_of_recv hst hpost hnil)
  refine ⟨fun e he => ?_, fun hpc hnil => ?_⟩
  · obtain ⟨hsent, hqueue⟩ := queue_of_error hu he
    have hrx : u.chunks.rxOpen = true := by
      refine (present_reachable ⟨pre, hu⟩).open' (Or.inr ?_)
      cases hst with
      | nextItem hc _ | nextClosed hc _ => exact hc
    have hsent' : lastItem (.error e) ∈ sent (pre ++ .next :: post) := mem_sent_append hsent
    exact (hclosed (hqueue hrx)).not_unverified (((checked_run h).arrived _ hsent').2 rfl)
  · have htp : s.pc = .panicked := by
      refine panicked_runFrom hpost ?_
      cases hst with
      | nextItem _ _ | nextClosed _ _ => exact hpc
    exact (hclosed hnil).not_unverified ((checked_run h).unchecked (by rw [htp]; rfl))

/-- Where the consumer reads on so, a closed channel is seen after a verified end only. -/
theorem verified_of_closed {acts : List Act} {s : State} (h : machine.run acts = some s)
    (hg : machine.Guarded ReadsOn init acts) : none ∈ s.got → Verified acts := by
  refine machine.run_induction_guarded (P := fun as s => none ∈ s.got → Verified as) ?_ ?_ h hg
  · exact fun hn => absurd hn List.not_mem_nil
  · intro as u a t hr hp hga hst hn
    by_cases hu : none ∈ u.got
    · exact (hp hu).snoc a
    · cases step_inv hst with
      | nextItem _ _ =>
        rcases List.mem_append.mp hn with hn | hn
        · exact absurd hn hu
        · exact absurd (List.mem_singleton.mp hn) (by simp)
      | nextClosed hc hq =>
        obtain ⟨hne, hpan⟩ := hga rfl
        rcases closed_channel hr hc hq with hpc | ⟨last, hgot, hsent⟩
        · exact absurd (Mpsc.tryRecv_disconnected hq).1 (hpan hpc)
        · have hhonest := (checked_run hr).arrived last hsent
          cases last with
          | ok _ => exact (hhonest.1 rfl).snoc .next
          | error e => exact absurd hgot (hne e)
      | _ => exact absurd hn hu

/-- **No unverified end**, exactly in the runs in which the consumer reads nothing more after an
error, and nothing past what a panicked owner sent. -/
theorem ends_verified_iff {acts : List Act} {s : State} (h : machine.run acts = some s) :
    EndsVerified acts s ↔ machine.Guarded ReadsOn init acts := by
  constructor
  · exact readsOn_of_endsVerified h
  · intro hg hend
    obtain ⟨o, ho, hoe⟩ := List.mem_map.mp hend
    cases o with
    | none => exact verified_of_closed h hg ho
    | some item =>
      obtain rfl : item = .ok none := hoe
      have hsent := (delivers_run h).inOrder.subset (List.mem_filterMap.mpr ⟨_, ho, rfl⟩)
      exact ((checked_run h).arrived (.ok ()) hsent).1 rfl

/-- A verified stream, read past its end. -/
def verifiedRun : List Act :=
  [.connect (.ok ()), .openStream (.ok ()), .response (.ok ()), .sendReady, .receive, .peer 0 [5],
   .recv ⟨0, [1], 1, 1⟩, .push (.ok (some [1])), .verify [5] 0, .push (.ok none), .finish, .next,
   .next, .next]

theorem ends_verified_iff_verifiedRun :
    ∃ s, machine.run verifiedRun = some s ∧
      s.got.map asyncRecv = [.ok (some [1]), .ok none, .ok none] ∧
      EndsVerified verifiedRun s :=
  ⟨_, rfl, rfl, (ends_verified_iff rfl).mpr (by decide)⟩

/-- A signature that does not verify, and a consumer that asks once more. -/
def forgedRun : List Act :=
  [.connect (.ok ()), .openStream (.ok ()), .response (.ok ()), .sendReady, .receive, .peer 0 [5],
   .recv ⟨0, [1], 1, 1⟩, .push (.ok (some [1])), .verify [5] (-304), .push (.error .cryptoVerify),
   .finish, .next, .next, .next]

/-- **An end that did not happen**: after `CryptoVerify` the next recv reports the end. -/
theorem forged_end :
    ∃ s, machine.run forgedRun = some s ∧
      s.got.map asyncRecv = [.ok (some [1]), .error .cryptoVerify, .ok none] ∧
      ¬ EndsVerified forgedRun s := by
  refine ⟨_, rfl, rfl, fun h => ?_⟩
  obtain ⟨pre, key, rc, post, r, heq, hv, -⟩ := h (by decide)
  have hm : Act.verify key rc ∈ forgedRun := heq ▸ List.mem_append_right pre List.mem_cons_self
  obtain ⟨rfl, rfl⟩ : key = [5] ∧ rc = -304 := by simpa [forgedRun] using hm
  exact absurd hv (by decide)

end Nwep.Runtime.Stream
