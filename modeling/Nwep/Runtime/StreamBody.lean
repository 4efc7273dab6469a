import Nwep.Runtime.Stream

/-!
# The body the consumer receives

The owner is a sequential program: what it sent, and the chunk it is blocked sending, are what it
read (`Owner`). The channel delivers what was sent in order (`Mpsc.Delivers`). Together: what the
consumer received is a prefix of what was read.

`answers` are the C calls of the history. The loop a caller would write over `Stream::recv`
(`HandDriven`), on the same answers, is the reference.

Results:
* `owner_step`: one step of the owner keeps `Owner`;
* `delivers_run`: the consumer's items are the sent ones, in order;
* **`body_exact`**: the received bytes are a prefix of the read ones, in non-empty chunks, and with
  the explicit end item they are all of them, which the hand-driven loop has at its end.
-/

namespace Nwep.Runtime.Stream

open Nwep.Client Nwep.Lib

/-! ## The history -/

/-- What the C side answered to `Stream::recv`, in order. -/
def answers (acts : List Act) : List RecvAnswer :=
  acts.filterMap fun
    | .recv a => some a
    | _ => none

/-- The hand-driven loop on the same answers. -/
def handDriven (acts : List Act) : HandDriven := HandDriven.run (answers acts)

/-- The items the channel accepted, in order. -/
def sent (acts : List Act) : List StreamItem :=
  acts.filterMap fun
    | .push item => some item
    | _ => none

/-- The items the consumer received. -/
def items (s : State) : List StreamItem := s.got.filterMap id

theorem handDriven_recv (acts : List Act) (a : RecvAnswer) :
    handDriven (acts ++ [.recv a]) = (handDriven acts).next a := by
  unfold handDriven answers
  rw [List.filterMap_append]
  exact HandDriven.run_snoc _ a

theorem handDriven_other {a : Act} (ha : ∀ r, a ≠ .recv r) (acts : List Act) :
    handDriven (acts ++ [a]) = handDriven acts := by
  unfold handDriven answers
  rw [List.filterMap_append]
  cases a with
  | recv r => exact absurd rfl (ha r)
  | _ => simp

theorem sent_push (acts : List Act) (item : StreamItem) :
    sent (acts ++ [.push item]) = sent acts ++ [item] := by
  simp [sent]

theorem sent_other {a : Act} (ha : ∀ item, a ≠ .push item) (acts : List Act) :
    sent (acts ++ [a]) = sent acts := by
  unfold sent
  rw [List.filterMap_append]
  cases a with
  | push item => exact absurd rfl (ha item)
  | _ => simp

/-! ## Items -/

/-- The bytes an item carries. -/
def itemBytes : StreamItem → Bytes
  | .ok (some chunk) => chunk
  | _ => []

/-- The bytes of the chunks in a list of items. -/
def bytesOf (l : List StreamItem) : Bytes := l.flatMap itemBytes

/-- A chunk, and one that is not empty. -/
def IsChunk (item : StreamItem) : Prop := ∃ chunk, item = .ok (some chunk) ∧ chunk ≠ []

theorem not_isChunk_lastItem (last : Result Unit) : ¬ IsChunk (lastItem last) := by
  rintro ⟨chunk, hc, -⟩
  cases last <;> exact absurd hc (by simp [lastItem])

@[simp] theorem itemBytes_lastItem (last : Result Unit) : itemBytes (lastItem last) = [] := by
  cases last <;> rfl

theorem bytesOf_append (l l' : List StreamItem) : bytesOf (l ++ l') = bytesOf l ++ bytesOf l' :=
  List.flatMap_append

theorem bytesOf_mono {l l' : List StreamItem} (h : l <+: l') : bytesOf l <+: bytesOf l' := by
  obtain ⟨r, rfl⟩ := h
  rw [bytesOf_append]
  exact List.prefix_append _ _

/-! ## The owner -/

/-- The owner is before or in its reading loop. -/
def Pc.reads : Pc → Bool
  | .sendChunk _ ended => !ended
  | .verify => false
  | .sendLast _ => false
  | .returning => false
  | .returned => false
  | .panicked => false
  | _ => true

/-- The owner has read the end: it sends the last chunk, looks at the signature or sends the end. -/
def Pc.atEnd : Pc → Bool
  | .sendChunk _ ended => ended
  | .verify => true
  | .sendLast (.ok _) => true
  | _ => false

/-- The owner sends nothing more. -/
def Pc.quiet : Pc → Bool
  | .returning => true
  | .returned => true
  | .panicked => true
  | _ => false

/-- The chunk the owner is blocked sending. -/
def Pc.chunk : Pc → Bytes
  | .sendChunk chunk _ => chunk
  | _ => []

/-- The owner sent a last item: what it read is what the chunks before carry, and a verified end
follows only a body that ended. -/
def Closed (acts : List Act) : Prop :=
  ∃ q last, sent acts = q ++ [lastItem last] ∧ (∀ item ∈ q, IsChunk item) ∧
    bytesOf q = (handDriven acts).received ∧
    (last.isOk = true → ∃ r, handDriven acts = .ended r)

/-- What the owner read is what it sent and what it is blocked sending. -/
structure Owner (acts : List Act) (s : State) : Prop where
  active  : s.pc.quiet = false → ∀ item ∈ sent acts, IsChunk item
  closed  : s.pc.quiet = true → (∀ item ∈ sent acts, IsChunk item) ∨ Closed acts
  reading : s.pc.reads = true → ∃ r, handDriven acts = .reading s.buf r
  ended   : s.pc.atEnd = true → ∃ r, handDriven acts = .ended r
  chunk   : ∀ chunk ended, s.pc = .sendChunk chunk ended → chunk ≠ []
  all     : s.pc.quiet = false → bytesOf (sent acts) ++ s.pc.chunk = (handDriven acts).received
  pre     : bytesOf (sent acts) <+: (handDriven acts).received

/-- The label neither reads nor sends. -/
def Act.Other (a : Act) : Prop := (∀ r, a ≠ .recv r) ∧ ∀ item, a ≠ .push item

/-- Another party moves. -/
theorem Owner.other {acts : List Act} {s t : State} {a : Act} (h : Owner acts s) (ha : a.Other)
    (hpc : t.pc = s.pc) (hbuf : t.buf = s.buf) : Owner (acts ++ [a]) t := by
  have hs := sent_other ha.2 acts
  have hd := handDriven_other ha.1 acts
  refine ⟨?_, ?_, ?_, ?_, ?_, ?_, ?_⟩
  · rw [hpc, hs]
    exact h.active
  · rw [hpc, hs, Closed, hs, hd]
    exact h.closed
  · rw [hpc, hbuf, hd]
    exact h.reading
  · rw [hpc, hd]
    exact h.ended
  · rw [hpc]
    exact h.chunk
  · rw [hpc, hs, hd]
    exact h.all
  · rw [hs, hd]
    exact h.pre

/-- The owner moves on without reading or sending: it keeps reading, or it keeps the end. -/
theorem Owner.advance {acts : List Act} {s t : State} {a : Act} (h : Owner acts s) (ha : a.Other)
    (hq : s.pc.quiet = false) (hc : s.pc.chunk = []) (hbuf : t.buf = s.buf)
    (hq' : t.pc.quiet = false) (hc' : t.pc.chunk = []) (hn : ∀ c e, t.pc ≠ .sendChunk c e)
    (hr : t.pc.reads = true → s.pc.reads = true) (he : t.pc.atEnd = true → s.pc.atEnd = true) :
    Owner (acts ++ [a]) t := by
  have hs := sent_other ha.2 acts
  have hd := handDriven_other ha.1 acts
  refine ⟨fun _ => ?_, fun hqt => ?_, fun hrt => ?_, fun het => ?_,
    fun c e hpc => absurd hpc (hn c e), fun _ => ?_, ?_⟩
  · rw [hs]
    exact h.active hq
  · rw [hq'] at hqt
    exact absurd hqt (by simp)
  · rw [hbuf, hd]
    exact h.reading (hr hrt)
  · rw [hd]
    exact h.ended (he het)
  · rw [hs, hd, hc', ← hc]
    exact h.all hq
  · rw [hs, hd]
    exact h.pre

/-- The owner gives up without a last item. -/
theorem Owner.stop {acts : List Act} {s t : State} {a : Act} (h : Owner acts s) (ha : a.Other)
    (hq : s.pc.quiet = false) (hpc : t.pc = .returning ∨ t.pc = .returned) :
    Owner (acts ++ [a]) t := by
  have hs := sent_other ha.2 acts
  have hd := handDriven_other ha.1 acts
  have hno : t.pc.quiet = true ∧ t.pc.reads = false ∧ t.pc.atEnd = false ∧
      ∀ c e, t.pc ≠ .sendChunk c e := by
    rcases hpc with hpc | hpc <;> rw [hpc] <;> simp [Pc.quiet, Pc.reads, Pc.atEnd]
  obtain ⟨hq', hr', he', hn⟩ := hno
  refine ⟨fun hqt => ?_, fun _ => Or.inl ?_, fun hrt => ?_, fun het => ?_,
    fun c e hpc => absurd hpc (hn c e), fun hqt => ?_, ?_⟩
  · rw [hq'] at hqt
    exact absurd hqt (by simp)
  · rw [hs]
    exact h.active hq
  · rw [hr'] at hrt
    exact absurd hrt (by simp)
  · rw [he'] at het
    exact absurd het (by simp)
  · rw [hq'] at hqt
    exact absurd hqt (by simp)
  · rw [hs, hd]
    exact h.pre

/-- A read that succeeds, in the hand-driven loop. -/
theorem next_reading {buf buf' : Buf} {r : Bytes} {a : RecvAnswer} {n : Nat} {ended : Bool}
    (h : streamRecv buf a = .ok (buf', n, ended)) :
    (HandDriven.reading buf r).next a =
      if ended then .ended (r ++ buf'.slice n) else .reading buf' (r ++ buf'.slice n) := by
  cases ended <;> simp [HandDriven.next, h]

/-- Where a read leads, and the chunk it leaves to send. -/
theorem afterRecv_spec (buf : Buf) {n : Nat} (hn : n ≤ streamChunk) (ended : Bool) :
    (afterRecv buf n ended).quiet = false ∧ (afterRecv buf n ended).chunk = buf.slice n ∧
      (afterRecv buf n ended).reads = !ended ∧ (afterRecv buf n ended).atEnd = ended ∧
      ∀ c e, afterRecv buf n ended = .sendChunk c e → c ≠ [] := by
  unfold afterRecv
  by_cases h0 : n = 0
  · subst h0
    cases ended <;> simp [Pc.quiet, Pc.chunk, Pc.reads, Pc.atEnd]
  · rw [if_neg h0, if_pos hn]
    refine ⟨rfl, rfl, rfl, rfl, fun c e hc => ?_⟩
    obtain ⟨rfl, -⟩ := Pc.sendChunk.inj hc
    exact buf.slice_ne_nil (Nat.pos_of_ne_zero h0)

/-- The owner reads: what it read before and the chunk at hand is what it read now. -/
theorem Owner.recv {acts : List Act} {s : State} {a : RecvAnswer} {buf : Buf} {n : Nat}
    {ended : Bool} (h : Owner acts s) (hpc : s.pc = .recv)
    (hr : streamRecv s.buf a = .ok (buf, n, ended)) (hn : n ≤ streamChunk) :
    Owner (acts ++ [.recv a]) { s with pc := afterRecv buf n ended, buf := buf } := by
  obtain ⟨r, hread⟩ := h.reading (by rw [hpc]; rfl)
  obtain ⟨hq, hc, hrd, he, hne⟩ := afterRecv_spec buf hn ended
  have hsent := sent_other (a := .recv a) (by simp) acts
  have hnext : handDriven (acts ++ [.recv a]) =
      if ended then .ended (r ++ buf.slice n) else .reading buf (r ++ buf.slice n) := by
    rw [handDriven_recv, hread, next_reading hr]
  have hrec : (handDriven (acts ++ [.recv a])).received = r ++ buf.slice n := by
    rw [hnext]
    cases ended <;> rfl
  have hbytes : bytesOf (sent acts) = r := by
    have hall := h.all (by rw [hpc]; rfl)
    rw [hpc, hread] at hall
    simpa [Pc.chunk, HandDriven.received] using hall
  refine ⟨fun _ => ?_, fun hqt => ?_, fun hrt => ?_, fun het => ?_, hne, fun _ => ?_, ?_⟩
  · rw [hsent]
    exact h.active (by rw [hpc]; rfl)
  · exact absurd (hq.symm.trans hqt) (by simp)
  · have hf : ended = false := by simpa using hrd.symm.trans hrt
    exact ⟨r ++ buf.slice n, by rw [hnext, hf]; rfl⟩
  · have ht : ended = true := he.symm.trans het
    exact ⟨r ++ buf.slice n, by rw [hnext, ht]; rfl⟩
  · rw [hsent, hrec, hbytes]
    exact congrArg (r ++ ·) hc
  · rw [hsent, hrec, hbytes]
    exact List.prefix_append _ _

/-- A read that reports too much ends the owner, with nothing more sent. -/
theorem Owner.recvPanic {acts : List Act} {s : State} {a : RecvAnswer} {buf : Buf} {n : Nat}
    {ended : Bool} (h : Owner acts s) (hpc : s.pc = .recv)
    (hr : streamRecv s.buf a = .ok (buf, n, ended)) :
    Owner (acts ++ [.recv a])
      { s with pc := .panicked, buf := buf, chunks := s.chunks.closeTx } := by
  obtain ⟨r, hread⟩ := h.reading (by rw [hpc]; rfl)
  have hsent := sent_other (a := .recv a) (by simp) acts
  have hrec : (handDriven (acts ++ [.recv a])).received = r ++ buf.slice n := by
    rw [handDriven_recv, hread, next_reading hr]
    cases ended <;> rfl
  refine ⟨fun hqt => absurd hqt (by simp [Pc.quiet]), fun _ => Or.inl ?_,
    fun hrt => absurd hrt (by simp [Pc.reads]), fun het => absurd het (by simp [Pc.atEnd]),
    fun c e hc => absurd hc (by simp), fun hqt => absurd hqt (by simp [Pc.quiet]), ?_⟩
  · rw [hsent]
    exact h.active (by rw [hpc]; rfl)
  · have hpre := h.pre
    rw [hread] at hpre
    rw [hsent, hrec]
    exact hpre.trans (List.prefix_append _ _)

/-- A read that fails brings nothing. -/
theorem Owner.recvErr {acts : List Act} {s : State} {a : RecvAnswer} {e : Error} (h : Owner acts s)
    (hpc : s.pc = .recv) (hr : streamRecv s.buf a = .error e) :
    Owner (acts ++ [.recv a]) { s with pc := .sendLast (.error e) } := by
  obtain ⟨r, hread⟩ := h.reading (by rw [hpc]; rfl)
  have hsent := sent_other (a := .recv a) (by simp) acts
  have hrec : (handDriven (acts ++ [.recv a])).received = (handDriven acts).received := by
    rw [handDriven_recv, hread]
    simp [HandDriven.next, hr, HandDriven.received]
  refine ⟨fun _ => ?_, fun hqt => absurd hqt (by simp [Pc.quiet]),
    fun hrt => absurd hrt (by simp [Pc.reads]), fun het => absurd het (by simp [Pc.atEnd]),
    fun c e hc => absurd hc (by simp), fun _ => ?_, ?_⟩
  · rw [hsent]
    exact h.active (by rw [hpc]; rfl)
  · have hall := h.all (by rw [hpc]; rfl)
    rw [hpc] at hall
    rw [hsent, hrec]
    exact hall
  · rw [hsent, hrec]
    exact h.pre

/-- The chunk at hand is sent. -/
theorem Owner.pushChunk {acts : List Act} {s : State} {chunk : Bytes} {ended : Bool}
    (h : Owner acts s) (hpc : s.pc = .sendChunk chunk ended) (ch : Mpsc StreamItem 8) :
    Owner (acts ++ [.push (.ok (some chunk))])
      { s with pc := if ended then .verify else .recv, chunks := ch } := by
  have hsent := sent_push acts (.ok (some chunk))
  have hd := handDriven_other (a := .push (.ok (some chunk))) (by simp) acts
  have hall := h.all (by rw [hpc]; rfl)
  rw [hpc] at hall
  have hbytes : bytesOf (sent acts ++ [.ok (some chunk)]) = (handDriven acts).received := by
    rw [bytesOf_append]
    simpa [bytesOf, itemBytes, Pc.chunk] using hall
  have hnow : (if ended then Pc.verify else .recv).quiet = false ∧
      (if ended then Pc.verify else .recv).chunk = [] ∧
      (if ended then Pc.verify else .recv).reads = !ended ∧
      (if ended then Pc.verify else .recv).atEnd = ended ∧
      ∀ c e, (if ended then Pc.verify else .recv) ≠ .sendChunk c e := by
    cases ended <;> simp [Pc.quiet, Pc.chunk, Pc.reads, Pc.atEnd]
  obtain ⟨hq, hc, hrd, he, hn⟩ := hnow
  refine ⟨fun _ item hitem => ?_, fun hqt => absurd (hq.symm.trans hqt) (by simp), fun hrt => ?_,
    fun het => ?_, fun c e hce => absurd hce (hn c e), fun _ => ?_, ?_⟩
  · rw [hsent] at hitem
    rcases List.mem_append.mp hitem with hitem | hitem
    · exact h.active (by rw [hpc]; rfl) item hitem
    · rw [List.mem_singleton.mp hitem]
      exact ⟨chunk, rfl, h.chunk chunk ended hpc⟩
  · rw [hd]
    exact h.reading (by rw [hpc]; exact hrd.symm.trans hrt)
  · rw [hd]
    exact h.ended (by rw [hpc]; exact he.symm.trans het)
  · rw [hsent, hd, hbytes]
    exact (congrArg (_ ++ ·) hc).trans (List.append_nil _)
  · rw [hsent, hd]
    exact ⟨[], (List.append_nil _).trans hbytes⟩

/-- The last item is sent, behind everything that was read. -/
theorem Owner.pushLast {acts : List Act} {s : State} {last : Result Unit} (h : Owner acts s)
    (hpc : s.pc = .sendLast last) (ch : Mpsc StreamItem 8) :
    Owner (acts ++ [.push (lastItem last)]) { s with pc := .returning, chunks := ch } := by
  have hsent := sent_push acts (lastItem last)
  have hd := handDriven_other (a := .push (lastItem last)) (by simp) acts
  have hall := h.all (by rw [hpc]; rfl)
  rw [hpc] at hall
  have hbytes : bytesOf (sent acts) = (handDriven acts).received := by
    simpa [Pc.chunk] using hall
  refine ⟨fun hqt => absurd hqt (by simp [Pc.quiet]), fun _ => Or.inr ?_,
    fun hrt => absurd hrt (by simp [Pc.reads]), fun het => absurd het (by simp [Pc.atEnd]),
    fun c e hc => absurd hc (by simp), fun hqt => absurd hqt (by simp [Pc.quiet]), ?_⟩
  · refine ⟨sent acts, last, hsent, h.active (by rw [hpc]; rfl), ?_, fun hok => ?_⟩
    · rw [hd]
      exact hbytes
    · rw [hd]
      refine h.ended ?_
      rw [hpc]
      cases last with
      | ok _ => rfl
      | error _ => exact absurd hok (by simp [Except.isOk, Except.toBool])
  · rw [hsent, hd, bytesOf_append, hbytes]
    simp [bytesOf]

/-- **One step keeps what the owner owes.** -/
theorem owner_step {acts : List Act} {s t : State} {a : Act} (h : Owner acts s)
    (hs : Step s a t) : Owner (acts ++ [a]) t := by
  have other : ∀ {b : Act}, (∀ r, b ≠ .recv r) → (∀ item, b ≠ .push item) → b.Other :=
    fun h1 h2 => ⟨h1, h2⟩
  cases hs with
  | connect hpc | openStream hpc | response hpc | sendReady hpc _ | peer hpc =>
    exact h.advance (other (by simp) (by simp)) (by rw [hpc]; rfl) (by rw [hpc]; rfl) rfl rfl rfl
      (by simp) (fun _ => by rw [hpc]; rfl) (fun he => absurd he (by simp [Pc.atEnd]))
  | connectErr hpc | openErr hpc | responseErr hpc | callerGone hpc _ =>
    exact h.stop (other (by simp) (by simp)) (by rw [hpc]; rfl) (Or.inr rfl)
  | pushFails hpc _ =>
    refine h.stop (other (by simp) (by simp)) ?_ (Or.inl rfl)
    rcases hpc with ⟨c, e, hpc⟩ | ⟨last, hpc⟩ <;> rw [hpc] <;> rfl
  | recv hpc hr hn => exact h.recv hpc hr hn
  | recvPanic hpc hr _ => exact h.recvPanic hpc hr
  | recvErr hpc hr => exact h.recvErr hpc hr
  | pushChunk hpc _ => exact h.pushChunk hpc _
  | pushLast hpc _ => exact h.pushLast hpc _
  | @verify rc hpc =>
    refine h.advance (other (by simp) (by simp)) (by rw [hpc]; rfl) (by rw [hpc]; rfl) rfl rfl rfl
      (by simp) (fun hr => absurd hr (by simp [Pc.reads])) (fun _ => by rw [hpc]; rfl)
  | finish hpc =>
    have hother : Act.Other .finish := other (by simp) (by simp)
    have hsent := sent_other hother.2 acts
    have hd := handDriven_other hother.1 acts
    refine ⟨fun hqt => absurd hqt (by simp [Pc.quiet]), fun _ => ?_,
      fun hrt => absurd hrt (by simp [Pc.reads]), fun het => absurd het (by simp [Pc.atEnd]),
      fun c e hc => absurd hc (by simp), fun hqt => absurd hqt (by simp [Pc.quiet]), ?_⟩
    · rw [Closed, hsent, hd]
      exact h.closed (by rw [hpc]; rfl)
    · rw [hsent, hd]
      exact h.pre
  | receiveOk _ _ | receiveErr _ _ | nextItem _ _ | nextClosed _ _ | drop _ =>
    exact h.other (other (by simp) (by simp)) rfl rfl

theorem owner_run {acts : List Act} {s : State} (h : machine.run acts = some s) : Owner acts s := by
  refine machine.run_induction (P := Owner) ?_
    (fun _ _ _ _ _ hp hst => owner_step hp (step_inv hst)) h
  refine ⟨fun _ item hitem => absurd hitem List.not_mem_nil,
    fun hq => absurd hq (by simp [machine, init, Pc.quiet]),
    fun _ => ⟨[], rfl⟩, fun he => absurd he (by simp [machine, init, Pc.atEnd]),
    fun c e hc => absurd hc (by simp [machine, init]), fun _ => rfl, List.prefix_refl _⟩

/-! ## The channel -/

/-- **The channel delivers what was sent, in order.** -/
theorem delivers_run {acts : List Act} {s : State} (h : machine.run acts = some s) :
    Mpsc.Delivers (sent acts) (items s) s.chunks := by
  refine machine.run_induction (P := fun as s => Mpsc.Delivers (sent as) (items s) s.chunks)
    Mpsc.Delivers.new ?_ h
  intro as s a t _ hp hst
  cases step_inv hst with
  | connect _ | openStream _ | response _ | sendReady _ _ | peer _ | recv _ _ _ | recvErr _ _
  | pushFails _ _ | verify _ | receiveOk _ _ =>
    rw [sent_other (by simp)]
    exact hp
  | connectErr _ | openErr _ | responseErr _ | callerGone _ _ | recvPanic _ _ _ | finish _ =>
    rw [sent_other (by simp)]
    exact hp.closeTx
  | receiveErr _ _ | drop _ =>
    rw [sent_other (by simp)]
    exact hp.closeRx
  | pushChunk _ hpush | pushLast _ hpush =>
    rw [sent_push]
    exact hp.push hpush
  | nextItem _ hq =>
    rw [sent_other (by simp), items, List.filterMap_append]
    exact hp.recv hq
  | nextClosed _ _ =>
    rw [sent_other (by simp), items, List.filterMap_append]
    exact (List.append_nil (items s)).symm ▸ hp

/-! ## The main result -/

/-- The bytes the consumer received. -/
def received (s : State) : Bytes := bytesOf (items s)

/-- What the managed stream owes its consumer. -/
structure BodyExact (acts : List Act) (s : State) : Prop where
  /-- The chunks are, in order, a prefix of what `stream.recv` reported. -/
  inOrder : received s <+: (handDriven acts).received
  /-- No chunk is empty. -/
  nonempty : ∀ chunk, some (.ok (some chunk)) ∈ s.got → chunk ≠ []
  /-- With the explicit end they are all of it, and the hand-driven loop is at its end with them. -/
  whole : some (.ok none) ∈ s.got → handDriven acts = .ended (received s)

/-- What the consumer got was sent. -/
theorem sent_of_got {acts : List Act} {s : State} (h : machine.run acts = some s)
    {item : StreamItem} (hi : some item ∈ s.got) : item ∈ sent acts :=
  (delivers_run h).inOrder.subset (List.mem_filterMap.mpr ⟨_, hi, rfl⟩)

/-- A chunk that was sent is not empty. -/
theorem chunk_ne_nil {acts : List Act} {s : State} (h : Owner acts s) {chunk : Bytes}
    (hsent : .ok (some chunk) ∈ sent acts) : chunk ≠ [] := by
  have hchunk : IsChunk (.ok (some chunk)) := by
    by_cases hq : s.pc.quiet = true
    · rcases h.closed hq with hall | ⟨q, last, hs, hall, -, -⟩
      · exact hall _ hsent
      · rw [hs] at hsent
        rcases List.mem_append.mp hsent with hm | hm
        · exact hall _ hm
        · exact absurd (List.mem_singleton.mp hm) (by cases last <;> simp [lastItem])
    · exact h.active (by simpa using hq) _ hsent
  obtain ⟨c, hc, hne⟩ := hchunk
  obtain rfl : chunk = c := by simpa using hc
  exact hne

/-- Once the explicit end was sent, it is the last item, and the loop on the same answers ended. -/
theorem ended_of_sent {acts : List Act} {s : State} (h : Owner acts s)
    (hsent : .ok none ∈ sent acts) :
    ∃ q, sent acts = q ++ [.ok none] ∧ (∀ item ∈ q, IsChunk item) ∧
      bytesOf q = (handDriven acts).received ∧ ∃ r, handDriven acts = .ended r := by
  have hno : ¬ ∀ item ∈ sent acts, IsChunk item := by
    intro hall
    exact not_isChunk_lastItem (.ok ()) (hall _ hsent)
  have hclosed : Closed acts := by
    by_cases hq : s.pc.quiet = true
    · exact (h.closed hq).resolve_left hno
    · exact absurd (h.active (by simpa using hq)) hno
  obtain ⟨q, last, hs, hall, hbytes, hend⟩ := hclosed
  have hlast : lastItem last = .ok none := by
    rw [hs] at hsent
    rcases List.mem_append.mp hsent with hm | hm
    · exact absurd (hall _ hm) (not_isChunk_lastItem (.ok ()))
    · exact (List.mem_singleton.mp hm).symm
  have hok : last.isOk = true := by
    cases last with
    | ok _ => rfl
    | error _ => exact absurd hlast (by simp [lastItem])
  exact ⟨q, by rw [hs, hlast], hall, hbytes, hend hok⟩

/-- **The body arrives exactly**, for every C stream, every schedule of the channel and every point
at which the consumer leaves. -/
theorem body_exact {acts : List Act} {s : State} (h : machine.run acts = some s) :
    BodyExact acts s where
  inOrder := (bytesOf_mono (delivers_run h).inOrder).trans (owner_run h).pre
  nonempty _ hc := chunk_ne_nil (owner_run h) (sent_of_got h hc)
  whole he := by
    obtain ⟨q, hs, hall, hbytes, r, hr⟩ := ended_of_sent (owner_run h) (sent_of_got h he)
    have hdel := delivers_run h
    rw [hs] at hdel
    have hitems : items s = q ++ [.ok none] := by
      refine hdel.all_of_last (fun hm => not_isChunk_lastItem (.ok ()) (hall _ hm)) ?_
      exact List.mem_filterMap.mpr ⟨_, he, rfl⟩
    have hrec : received s = (handDriven acts).received := by
      unfold received
      rw [hitems, bytesOf_append, hbytes]
      simp [bytesOf, itemBytes]
    rw [hr] at hrec
    rw [hr, hrec]
    rfl

/-- Three reads, the second empty and the third with the end, over a key the signature meets. -/
def threeReads : List Act :=
  [.connect (.ok ()), .openStream (.ok ()), .response (.ok ()), .sendReady, .receive, .peer 0 [5],
   .recv ⟨0, [1, 2], 2, 0⟩, .push (.ok (some [1, 2])), .next, .recv ⟨0, [], 0, 0⟩,
   .recv ⟨0, [3], 1, 1⟩, .push (.ok (some [3])), .verify [5] 0, .next, .push (.ok none), .next]

theorem body_exact_threeReads :
    ∃ s, machine.run threeReads = some s ∧ BodyExact threeReads s ∧ received s = [1, 2, 3] ∧
      some (.ok none) ∈ s.got :=
  ⟨_, rfl, body_exact rfl, rfl, by decide⟩

end Nwep.Runtime.Stream
