import Nwep.Lib.Progress
import Nwep.Runtime.StreamEnd

/-!
# Progress of the managed stream

The owner thread blocks in one place, `chunk_tx.blocking_send` (`nwep/src/runtime.rs` 707, 717, 722),
for as long as the channel is full and the consumer there. And it looks at the channel in no other
place: an owner whose reads bring nothing does not see that the consumer is gone.

Results:
* **`never_stuck`**: in every reachable state the owner has ended, or can move, or waits for a slot
  that the other side can free;
* **`abandoned_ends`**: once the consumer is gone the owner makes at most five steps besides reads
  that bring nothing, and those it may make for ever;
* **`read_ahead_bounded`**: the owner is never more than nine chunks ahead of its consumer.
-/

namespace Nwep.Runtime.Stream

open Nwep.Client Nwep.Lib

/-- The label is a step of the owner thread. -/
def Act.ofOwner : Act → Bool
  | .receive => false
  | .next => false
  | .drop => false
  | _ => true

/-- The owner thread has ended. -/
def Pc.over : Pc → Bool
  | .returned => true
  | .panicked => true
  | _ => false

/-- A thread that is over takes no step. -/
theorem not_ofOwner_of_over {s t : State} {a : Act} (hs : Step s a t) (ho : s.pc.over = true) :
    a.ofOwner = false := by
  cases hs with
  | receiveOk _ _ | receiveErr _ _ | nextItem _ _ | nextClosed _ _ | drop _ => rfl
  | pushFails hpc _ =>
    rcases hpc with ⟨_, _, hpc⟩ | ⟨_, hpc⟩ <;> rw [hpc] at ho <;> exact absurd ho (by simp [Pc.over])
  | connect hpc | connectErr hpc | openStream hpc | openErr hpc | response hpc | responseErr hpc
  | sendReady hpc _ | callerGone hpc _ | peer hpc | recv hpc _ _ | recvPanic hpc _ _
  | recvErr hpc _ | pushChunk hpc _ | pushLast hpc _ | verify hpc | finish hpc =>
    rw [hpc] at ho
    exact absurd ho (by simp [Pc.over])

/-- What the caller does leaves the thread where it is, and its report. -/
theorem caller_keeps {s t : State} {a : Act} (hs : Step s a t) (ha : a.ofOwner = false) :
    t.pc = s.pc ∧ t.ready = s.ready := by
  cases hs with
  | receiveOk _ _ | receiveErr _ _ | nextItem _ _ | nextClosed _ _ | drop _ => exact ⟨rfl, rfl⟩
  | _ => exact absurd ha (by simp [Act.ofOwner])

/-! ## Nobody waits for nothing -/

/-- The owner can take a step. -/
def OwnerMoves (s : State) : Prop := ∃ a t, a.ofOwner = true ∧ machine.step s a = some t

/-- A blocking send goes on when a slot is free or the receiver gone. -/
theorem sending_moves {s : State} {item : StreamItem} {pc : Pc}
    (h : s.pc.sending = some (item, pc)) (htx : s.chunks.txOpen = true)
    (hq : s.chunks.rxOpen = true → s.chunks.queue.length < 8) : OwnerMoves s := by
  by_cases hrx : s.chunks.rxOpen = true
  · have hpush : ∃ ch, s.chunks.push item = some ch := by
      unfold Mpsc.push
      exact ⟨_, dif_pos ⟨htx, hrx, hq hrx⟩⟩
    obtain ⟨ch, hch⟩ := hpush
    exact ⟨.push item, { s with pc := pc, chunks := ch }, rfl, by simp [machine, step, h, hch]⟩
  · exact ⟨.pushFails, { s with pc := .returning }, rfl, by simp [machine, step, h, hrx]⟩

/-- What the owner thread waits for, when it cannot move. -/
structure WaitsForSlot (s : State) : Prop where
  sending : (∃ chunk ended, s.pc = .sendChunk chunk ended) ∨ ∃ last, s.pc = .sendLast last
  full    : s.chunks.queue.length = 8
  open'   : s.chunks.rxOpen = true

theorem tx_open {s : State} (h : machine.Reachable s) (hpc : s.pc.over = false) :
    s.chunks.txOpen = true := by
  by_contra hn
  rcases (present_reachable h).closed (by simpa using hn) with hc | hc <;> rw [hc] at hpc <;>
    exact absurd hpc (by simp [Pc.over])

/-- The owner can move everywhere but at the end of its thread and at a full channel. -/
theorem moves_or_waits {s : State} (h : machine.Reachable s) (hpc : s.pc.over = false) :
    OwnerMoves s ∨ WaitsForSlot s := by
  have htx := tx_open h hpc
  have hsend : ∀ {item pc}, s.pc.sending = some (item, pc) →
      ((∃ chunk ended, s.pc = .sendChunk chunk ended) ∨ ∃ last, s.pc = .sendLast last) →
      OwnerMoves s ∨ WaitsForSlot s := by
    intro item pc hs hp
    by_cases hw : s.chunks.rxOpen = true ∧ 8 ≤ s.chunks.queue.length
    · exact Or.inr ⟨hp, Nat.le_antisymm s.chunks.bounded hw.2, hw.1⟩
    · exact Or.inl (sending_moves hs htx fun hrx => Nat.lt_of_not_le fun hle => hw ⟨hrx, hle⟩)
  cases hp : s.pc with
  | connect => exact Or.inl ⟨.connect (.ok ()), _, rfl, by simp [machine, step, hp]; rfl⟩
  | openStream => exact Or.inl ⟨.openStream (.ok ()), _, rfl, by simp [machine, step, hp]; rfl⟩
  | response => exact Or.inl ⟨.response (.ok ()), _, rfl, by simp [machine, step, hp]; rfl⟩
  | ready =>
    by_cases hc : s.caller = .waiting
    · exact Or.inl ⟨.sendReady, _, rfl, by simp [machine, step, hp, hc]; rfl⟩
    · exact Or.inl ⟨.sendReady, _, rfl, by simp [machine, step, hp, hc]; rfl⟩
  | peer => exact Or.inl ⟨.peer 0 [], _, rfl, by simp [machine, step, hp]; rfl⟩
  | recv =>
    refine Or.inl ⟨.recv ⟨-1, [], 0, 0⟩, { s with pc := .sendLast (.error (Error.fromCode (-1))) },
      rfl, ?_⟩
    simp [machine, step, hp, streamRecv, Error.check, bind, Except.bind]
  | sendChunk chunk ended =>
    exact hsend (by rw [hp]; rfl) (Or.inl ⟨chunk, ended, hp⟩)
  | verify => exact Or.inl ⟨.verify s.peer 0, _, rfl, by simp [machine, step, hp]; rfl⟩
  | sendLast last => exact hsend (by rw [hp]; rfl) (Or.inr ⟨last, hp⟩)
  | returning => exact Or.inl ⟨.finish, _, rfl, by simp [machine, step, hp]; rfl⟩
  | returned | panicked =>
    rw [hp] at hpc
    exact absurd hpc (by simp [Pc.over])

/-- The owner has reported, and works on the body. -/
def Pc.streams : Pc → Bool
  | .peer => true
  | .recv => true
  | .sendChunk _ _ => true
  | .verify => true
  | .sendLast _ => true
  | .returning => true
  | _ => false

/-- The owner reports before it reads, closes the channel on its way out, and an open receiver is in
the hands of the caller. -/
structure Reported (s : State) : Prop where
  sent   : s.pc.streams = true → s.ready = .sent (.ok ())
  holder : s.chunks.rxOpen = true → s.caller = .waiting ∨ s.caller = .streaming
  closed : s.pc.over = true → s.chunks.txOpen = false

theorem afterRecv_streams {buf : Buf} {n : Nat} (hn : n ≤ streamChunk) (ended : Bool) :
    (afterRecv buf n ended).streams = true ∧ (afterRecv buf n ended).over = false := by
  unfold afterRecv
  split
  · cases ended <;> exact ⟨rfl, rfl⟩
  · exact ⟨rfl, rfl⟩

theorem reported_step {s t : State} {a : Act} (hp : Present s) (h : Reported s) (hs : Step s a t) :
    Reported t := by
  obtain ⟨hsent, hhold, hover⟩ := h
  cases hs with
  | connect _ | openStream _ | response _ => exact ⟨by simp [Pc.streams], hhold, by simp [Pc.over]⟩
  | connectErr _ | openErr _ | responseErr _ | callerGone _ _ =>
    exact ⟨by simp [Pc.streams, State.fail], hhold, fun _ => rfl⟩
  | sendReady hpc _ =>
    have hw := hp.unsent (by rw [hpc]; rfl)
    exact ⟨fun _ => by rw [hw]; rfl, hhold, by simp [Pc.over]⟩
  | peer hpc | recvErr hpc _ | verify hpc =>
    exact ⟨fun _ => hsent (by rw [hpc]; rfl), hhold, by simp [Pc.over]⟩
  | @recv a buf n ended hpc _ hn =>
    refine ⟨fun _ => hsent (by rw [hpc]; rfl), hhold, fun ho => ?_⟩
    exact absurd ((afterRecv_streams hn ended).2.symm.trans ho) (by simp)
  | recvPanic _ _ _ => exact ⟨by simp [Pc.streams], hhold, fun _ => rfl⟩
  | @pushChunk _ ended _ hpc hpush =>
    obtain ⟨-, -, -, -, -, hrx⟩ := Mpsc.push_spec hpush
    refine ⟨fun _ => hsent (by rw [hpc]; rfl), fun hr => hhold (hrx.symm.trans hr), fun ho => ?_⟩
    cases ended <;> exact absurd ho (by simp [Pc.over])
  | pushLast hpc hpush =>
    obtain ⟨-, -, -, -, -, hrx⟩ := Mpsc.push_spec hpush
    exact ⟨fun _ => hsent (by rw [hpc]; rfl), fun hr => hhold (hrx.symm.trans hr), by simp [Pc.over]⟩
  | pushFails hpc _ =>
    refine ⟨fun _ => hsent ?_, hhold, by simp [Pc.over]⟩
    rcases hpc with ⟨_, _, hpc⟩ | ⟨_, hpc⟩ <;> rw [hpc] <;> rfl
  | finish _ => exact ⟨by simp [Pc.streams], hhold, fun _ => rfl⟩
  | receiveOk _ _ => exact ⟨hsent, fun _ => Or.inr rfl, hover⟩
  | receiveErr _ _ | drop _ => exact ⟨hsent, fun hr => absurd hr (by simp), hover⟩
  | nextItem hc hq =>
    obtain ⟨-, htx, -⟩ := Mpsc.tryRecv_item hq
    exact ⟨hsent, fun _ => Or.inr hc, fun ho => htx.trans (hover ho)⟩
  | nextClosed hc _ => exact ⟨hsent, fun _ => Or.inr hc, hover⟩

theorem reported_reachable {s : State} (h : machine.Reachable s) : Reported s := by
  refine machine.reachable_induction (P := Reported) ?_
    (fun _ _ _ hr hp hst => reported_step (present_reachable hr) hp (step_inv hst)) h
  exact ⟨fun hs => absurd hs (by simp [machine, init, Pc.streams]), fun _ => Or.inl rfl,
    fun ho => absurd ho (by simp [machine, init, Pc.over])⟩

/-- The consumer takes an item, and a slot is free. -/
theorem next_frees {s : State} (h : machine.Reachable s) (hw : WaitsForSlot s)
    (hc : s.caller = .streaming) : ∃ t, machine.step s .next = some t ∧ t.pc = s.pc ∧
      OwnerMoves t := by
  have hover : s.pc.over = false := by
    rcases hw.sending with ⟨_, _, hp⟩ | ⟨_, hp⟩ <;> rw [hp] <;> rfl
  cases hq : s.chunks.tryRecv with
  | item item ch =>
    obtain ⟨hqq, htx, -⟩ := Mpsc.tryRecv_item hq
    have hlen : ch.queue.length < 8 := by
      have hfull := hw.full
      rw [hqq, List.length_cons] at hfull
      omega
    refine ⟨{ s with chunks := ch, got := s.got ++ [some item] }, by simp [machine, step, hc, hq],
      rfl, ?_⟩
    have hopen : ch.txOpen = true := htx.trans (tx_open h hover)
    rcases hw.sending with ⟨chunk, ended, hp⟩ | ⟨last, hp⟩
    · exact sending_moves (s := { s with chunks := ch, got := s.got ++ [some item] })
        (by simp only [hp]; rfl) hopen fun _ => hlen
    · exact sending_moves (s := { s with chunks := ch, got := s.got ++ [some item] })
        (by simp only [hp]; rfl) hopen fun _ => hlen
  | empty | disconnected =>
    have hnil : s.chunks.queue = [] := by
      first
        | exact (Mpsc.tryRecv_empty hq).1
        | exact (Mpsc.tryRecv_disconnected hq).1
    have hfull := hw.full
    rw [hnil] at hfull
    exact absurd hfull (by simp)

/-- A slot is free after at most two steps of the caller. -/
theorem caller_frees {s : State} (h : machine.Reachable s) (hw : WaitsForSlot s) :
    ∃ acts t, (∀ a ∈ acts, a = .receive ∨ a = .next) ∧ acts.length ≤ 2 ∧
      machine.runFrom s acts = some t ∧ t.pc = s.pc ∧ OwnerMoves t := by
  have hrep := reported_reachable h
  rcases hrep.holder hw.open' with hc | hc
  · have hstreams : s.pc.streams = true := by
      rcases hw.sending with ⟨_, _, hp⟩ | ⟨_, hp⟩ <;> rw [hp] <;> rfl
    have hst : machine.step s .receive = some { s with caller := .streaming } := by
      simp [machine, step, hc, hrep.sent hstreams]
    obtain ⟨t, ht, hpc, hm⟩ := next_frees (machine.reachable_step h hst)
      ⟨hw.sending, hw.full, hw.open'⟩ rfl
    refine ⟨[.receive, .next], t, by simp, by simp, ?_, hpc, hm⟩
    exact machine.runFrom_cons.mpr ⟨_, hst, machine.runFrom_cons.mpr ⟨t, ht, rfl⟩⟩
  · obtain ⟨t, ht, hpc, hm⟩ := next_frees h hw hc
    exact ⟨[.next], t, by simp, by simp, machine.runFrom_cons.mpr ⟨t, ht, rfl⟩, hpc, hm⟩

/-- Reading on takes what is queued, in order, and then finds the channel closed. -/
theorem drain_queue {s : State} (hc : s.caller = .streaming) (htx : s.chunks.txOpen = false) :
    ∃ t, machine.runFrom s (List.replicate (s.chunks.queue.length + 1) .next) = some t ∧
      t.got = s.got ++ s.chunks.queue.map some ++ [none] := by
  induction hn : s.chunks.queue.length generalizing s with
  | zero =>
    have hnil := List.length_eq_zero_iff.mp hn
    have hq : s.chunks.tryRecv = .disconnected := by
      cases hq : s.chunks.tryRecv with
      | disconnected => rfl
      | item _ _ =>
        rw [(Mpsc.tryRecv_item hq).1] at hnil
        exact absurd hnil (by simp)
      | empty =>
        have hopen := (Mpsc.tryRecv_empty hq).2
        rw [htx] at hopen
        exact absurd hopen (by simp)
    refine ⟨{ s with got := s.got ++ [none] }, machine.runFrom_cons.mpr ⟨_, ?_, rfl⟩, ?_⟩
    · simp [machine, step, hc, hq]
    · simp [hnil]
  | succ n ih =>
    cases hq : s.chunks.tryRecv with
    | item item ch =>
      obtain ⟨hqq, htx', -⟩ := Mpsc.tryRecv_item hq
      have hlen : ch.queue.length = n := by
        rw [hqq, List.length_cons] at hn
        omega
      obtain ⟨t, ht, hgot⟩ := ih (s := { s with chunks := ch, got := s.got ++ [some item] }) hc
        (htx'.trans htx) hlen
      refine ⟨t, ?_, ?_⟩
      · rw [List.replicate_succ]
        exact machine.runFrom_cons.mpr ⟨_, by simp [machine, step, hc, hq], ht⟩
      · rw [hgot, hqq]
        simp
    | empty =>
      rw [(Mpsc.tryRecv_empty hq).1] at hn
      exact absurd hn (by simp)
    | disconnected =>
      rw [(Mpsc.tryRecv_disconnected hq).1] at hn
      exact absurd hn (by simp)

/-- Nobody waits for nothing. -/
structure NeverStuck (s : State) : Prop where
  /-- The owner has ended, can move, or waits for a slot. -/
  owner : s.pc.over = true ∨ OwnerMoves s ∨ WaitsForSlot s
  /-- The slot it waits for is freed by the caller, in at most two steps. -/
  freed : WaitsForSlot s → ∃ acts t, (∀ a ∈ acts, a = .receive ∨ a = .next) ∧ acts.length ≤ 2 ∧
    machine.runFrom s acts = some t ∧ t.pc = s.pc ∧ OwnerMoves t
  /-- A consumer that reads on gets all that an ended owner sent, and then the closed channel. -/
  drained : s.caller = .streaming → s.pc.over = true →
    ∃ t, machine.runFrom s (List.replicate (s.chunks.queue.length + 1) .next) = some t ∧
      t.got = s.got ++ s.chunks.queue.map some ++ [none]

/-- **No deadlock**, in any reachable state, for any answers of the C stream. -/
theorem never_stuck {s : State} (h : machine.Reachable s) : NeverStuck s where
  owner := by
    cases ho : s.pc.over with
    | true => exact Or.inl rfl
    | false => exact Or.inr (moves_or_waits h ho)
  freed := caller_frees h
  drained hc ho := drain_queue hc ((reported_reachable h).closed ho)

/-- Eight chunks are queued, the owner holds the ninth. -/
def fullChannel : List Act :=
  [.connect (.ok ()), .openStream (.ok ()), .response (.ok ()), .sendReady, .peer 0 [5]] ++
    (List.replicate 8 [.recv ⟨0, [1], 1, 0⟩, .push (.ok (some [1]))]).flatten ++
    [.recv ⟨0, [1], 1, 0⟩]

theorem never_stuck_fullChannel :
    ∃ s, machine.run fullChannel = some s ∧ s.chunks.queue.length = 8 ∧ NeverStuck s :=
  ⟨_, rfl, rfl, never_stuck ⟨fullChannel, rfl⟩⟩

/-! ## The abandoned owner -/

/-- The label is a read that brings nothing: no bytes, no end, no error. -/
def Act.idleRead : Act → Bool
  | .recv a => decide (0 ≤ a.rc ∧ a.len = 0 ∧ a.ended = 0)
  | _ => false

/-- The label is a step of the owner other than a read that brings nothing. -/
def Act.works (a : Act) : Bool := a.ofOwner && !a.idleRead

/-- What an owner whose consumer is gone still does. -/
def goneRank (s : State) : Nat :=
  match s.pc with
  | .connect => 4
  | .openStream => 3
  | .response => 2
  | .ready => 1
  | .peer => 5
  | .recv => 4
  | .verify => 3
  | .sendChunk _ _ => 2
  | .sendLast _ => 2
  | .returning => 1
  | .returned => 0
  | .panicked => 0

/-- Where a read leads an abandoned owner: nearer to its end, unless it brings nothing. -/
theorem goneRank_afterRecv {s : State} {buf : Buf} {n : Nat} {ended : Bool} (hn : n ≤ streamChunk)
    (h : n ≠ 0 ∨ ended = true) : goneRank { s with pc := afterRecv buf n ended, buf := buf } < 4 := by
  unfold afterRecv
  by_cases h0 : n = 0
  · obtain rfl := h.resolve_left fun hc => hc h0
    rw [if_pos h0]
    exact Nat.lt_succ_self 3
  · rw [if_neg h0, if_pos hn]
    exact Nat.lt_of_lt_of_le (Nat.lt_succ_self 2) (by decide)

/-- The consumer is gone, or was never there. -/
def Abandoned (s : State) : Prop := machine.Reachable s ∧ s.chunks.rxOpen = false

theorem abandoned_step {s t : State} {a : Act} (h : Abandoned s) (hst : machine.step s a = some t) :
    Abandoned t := by
  refine ⟨machine.reachable_step h.1 hst, ?_⟩
  have hrx := h.2
  cases step_inv hst with
  | pushChunk _ hp | pushLast _ hp =>
    exact (Mpsc.push_spec hp).2.2.2.2.2.trans hrx
  | nextItem _ hq => exact (Mpsc.tryRecv_item hq).2.2.trans hrx
  | receiveErr _ _ | drop _ => rfl
  | _ => exact hrx

/-- A read that works brings bytes, the end or an error. -/
theorem brings_of_works {buf buf' : Buf} {a : RecvAnswer} {n : Nat} {ended : Bool}
    (h : streamRecv buf a = .ok (buf', n, ended)) :
    (Act.recv a).works = true ↔ n ≠ 0 ∨ ended = true := by
  obtain ⟨h0, -, rfl, rfl⟩ := streamRecv_ok.mp h
  by_cases hl : a.len = 0 <;> by_cases he : a.ended = 0 <;>
    simp [Act.works, Act.ofOwner, Act.idleRead, h0, hl, he]

theorem abandoned_descends : machine.Descends Abandoned Act.works goneRank where
  keep _ _ _ h hst := abandoned_step h hst
  lowers s a t h ha hst := by
    have hrx := h.2
    cases step_inv hst with
    | connect hpc | connectErr hpc | openStream hpc | openErr hpc | response hpc | responseErr hpc
    | callerGone hpc _ | peer hpc | recvPanic hpc _ _ | recvErr hpc _ | verify hpc | finish hpc =>
      simp [goneRank, State.fail, hpc]
    | sendReady _ hc =>
      have hopen := (present_reachable h.1).open' (Or.inl hc)
      rw [hrx] at hopen
      exact absurd hopen (by simp)
    | @recv a buf n ended hpc hr hn =>
      have hlt := @goneRank_afterRecv s buf n ended hn ((brings_of_works hr).mp ha)
      simpa only [goneRank, hpc] using hlt
    | pushChunk _ hp | pushLast _ hp =>
      have hopen := (Mpsc.push_spec hp).2.1
      rw [hrx] at hopen
      exact absurd hopen (by simp)
    | pushFails hpc _ =>
      rcases hpc with ⟨_, _, hpc⟩ | ⟨_, hpc⟩ <;> simp [goneRank, hpc]
    | receiveOk _ _ | receiveErr _ _ | nextItem _ _ | nextClosed _ _ | drop _ =>
      exact absurd ha (by simp [Act.works, Act.ofOwner])
  holds s a t h ha hst := by
    cases step_inv hst with
    | recv hpc hr hn =>
      have hno := mt (brings_of_works hr).mpr (by simp [ha])
      obtain ⟨h0, he⟩ := not_or.mp hno
      obtain rfl := not_not.mp h0
      obtain rfl : _ = false := by simpa using he
      simp [goneRank, afterRecv, hpc]
    | receiveOk _ _ | receiveErr _ _ | nextItem _ _ | nextClosed _ _ | drop _ => exact Nat.le_refl _
    | recvPanic hpc hr hn =>
      have hwork := (brings_of_works hr).mpr (Or.inl (Nat.ne_of_gt (Nat.lt_of_le_of_lt
        (Nat.zero_le _) hn)))
      exact absurd (ha.symm.trans hwork) (by simp)
    | recvErr hpc hr =>
      have hneg := streamRecv_error hr
      exact absurd ha (by simp [Act.works, Act.ofOwner, Act.idleRead, Int.not_le.mpr hneg])
    | _ => exact absurd ha (by simp [Act.works, Act.ofOwner, Act.idleRead])

/-- An abandoned owner is never stuck: nothing makes it wait for a slot. -/
theorem abandoned_moves : machine.Moves Abandoned Act.works (·.pc.over = true) := by
  intro s h hn
  have hover : s.pc.over = false := by simpa using hn
  rcases moves_or_waits h.1 hover with ⟨a, t, ha, hst⟩ | hw
  · cases hi : a.idleRead with
    | false => exact ⟨a, t, by simp [Act.works, ha, hi], hst⟩
    | true =>
      have hpc : s.pc = .recv := by
        cases a with
        | recv r =>
          have hst : step s (.recv r) = some t := hst
          cases step_inv hst with
          | recv hpc _ _ | recvPanic hpc _ _ | recvErr hpc _ => exact hpc
        | _ => exact absurd hi (by simp [Act.idleRead])
      refine ⟨.recv ⟨-1, [], 0, 0⟩,
        { s with pc := .sendLast (.error (Error.fromCode (-1))) }, rfl, ?_⟩
      simp [machine, step, hpc, streamRecv, Error.check, bind, Except.bind]
  · have hopen := hw.open'
    rw [h.2] at hopen
    exact absurd hopen (by simp)

/-- What becomes of an owner whose consumer is gone. -/
structure AbandonedEnds (s : State) : Prop where
  /-- It makes at most five steps besides reads that bring nothing, -/
  bounded : ∀ acts t, machine.runFrom s acts = some t → acts.countP Act.works ≤ 5
  /-- sends nothing, -/
  silent : ∀ acts t, machine.runFrom s acts = some t → sent acts = []
  /-- and is never stuck. -/
  moves : ∀ acts t, machine.runFrom s acts = some t → t.pc.over = false →
    ∃ a u, a.works = true ∧ machine.step t a = some u
  /-- In its reading loop it reads on for as long as its reads bring nothing. -/
  lingers : s.pc = .recv → ∀ n, ∃ t,
    machine.runFrom s (List.replicate n (.recv ⟨0, [], 0, 0⟩)) = some t ∧ t.pc = .recv

theorem goneRank_le (s : State) : goneRank s ≤ 5 := by
  unfold goneRank
  split <;> omega

/-- A read that brings nothing leads back to the next one. -/
theorem idle_runFrom {s : State} (hpc : s.pc = .recv) (n : Nat) : ∃ t,
    machine.runFrom s (List.replicate n (.recv ⟨0, [], 0, 0⟩)) = some t ∧ t.pc = .recv := by
  induction n generalizing s with
  | zero => exact ⟨s, rfl, hpc⟩
  | succ n ih =>
    have hst : machine.step s (.recv ⟨0, [], 0, 0⟩) = some { s with buf := s.buf.write [] } := by
      simp [machine, step, hpc, streamRecv, Error.check, bind, Except.bind, afterRecv]
    obtain ⟨t, ht, hpc'⟩ := ih (s := { s with buf := s.buf.write [] }) hpc
    rw [List.replicate_succ]
    exact ⟨t, machine.runFrom_cons.mpr ⟨_, hst, ht⟩, hpc'⟩

/-- **The owner of a dropped stream ends in five steps**, but for reads that bring nothing. -/
theorem abandoned_ends {s : State} (h : machine.Reachable s) (hrx : s.chunks.rxOpen = false) :
    AbandonedEnds s := by
  have ha : Abandoned s := ⟨h, hrx⟩
  refine ⟨fun acts t hr => ?_, fun acts t hr => ?_, fun acts t hr ho => ?_, fun hpc n => ?_⟩
  · exact Nat.le_trans (abandoned_descends.countP_le ha hr) (goneRank_le s)
  · induction acts generalizing s with
    | nil => rfl
    | cons a acts ih =>
      obtain ⟨u, hu, hrest⟩ := machine.runFrom_cons.mp hr
      have hu' := abandoned_step ha hu
      have hsil := ih hu'.1 hu'.2 hu' hrest
      cases step_inv hu with
      | pushChunk _ hp | pushLast _ hp =>
        have hopen := (Mpsc.push_spec hp).2.1
        rw [hrx] at hopen
        exact absurd hopen (by simp)
      | _ => exact hsil
  · exact abandoned_moves t (abandoned_descends.runFrom ha hr).1 (by simp [ho])
  · exact idle_runFrom hpc n

/-- The consumer drops the stream while the owner reads. -/
def droppedReading : List Act :=
  [.connect (.ok ()), .openStream (.ok ()), .response (.ok ()), .sendReady, .receive, .peer 0 [5],
   .recv ⟨0, [1], 1, 0⟩, .push (.ok (some [1])), .drop]

theorem abandoned_ends_droppedReading :
    ∃ s, machine.run droppedReading = some s ∧ s.pc = .recv ∧ AbandonedEnds s :=
  ⟨_, rfl, rfl, abandoned_ends ⟨droppedReading, rfl⟩ rfl⟩

/-! ## Reading ahead -/

/-- No chunk is longer than a read, and the owner holds back at most one. -/
structure Ahead (acts : List Act) (s : State) : Prop where
  items : ∀ item ∈ sent acts, (itemBytes item).length ≤ streamChunk
  chunk : s.pc.chunk.length ≤ streamChunk
  read  : (handDriven acts).received.length ≤ (bytesOf (sent acts)).length + streamChunk

theorem slice_length_le (buf : Buf) (n : Nat) : (buf.slice n).length ≤ streamChunk := by
  unfold Buf.slice
  exact Nat.le_trans (List.length_take_le' n buf.bytes) (Nat.le_of_eq buf.size)

theorem Ahead.other {acts : List Act} {s t : State} {a : Act} (h : Ahead acts s) (ha : a.Other)
    (hc : t.pc.chunk.length ≤ streamChunk) : Ahead (acts ++ [a]) t := by
  refine ⟨?_, hc, ?_⟩
  · rw [sent_other ha.2]
    exact h.items
  · rw [sent_other ha.2, handDriven_other ha.1]
    exact h.read

theorem ahead_step {acts : List Act} {s t : State} {a : Act} (ho : Owner acts s) (h : Ahead acts s)
    (hs : Step s a t) : Ahead (acts ++ [a]) t := by
  have hread : ∀ {a buf n ended}, s.pc = .recv → streamRecv s.buf a = .ok (buf, n, ended) →
      (handDriven (acts ++ [.recv a])).received.length ≤
        (bytesOf (sent (acts ++ [.recv a]))).length + streamChunk := by
    intro a buf n ended hpc hr
    obtain ⟨r, hrd⟩ := ho.reading (by rw [hpc]; rfl)
    have hall := ho.all (by rw [hpc]; rfl)
    have hbytes : bytesOf (sent acts) = r := by
      rw [hpc, hrd] at hall
      simpa [Pc.chunk, HandDriven.received] using hall
    have hrec : (handDriven (acts ++ [.recv a])).received = r ++ buf.slice n := by
      rw [handDriven_recv, hrd, next_reading hr]
      cases ended <;> rfl
    rw [hrec, sent_other (by simp), hbytes, List.length_append]
    exact Nat.add_le_add_left (slice_length_le buf n) _
  cases hs with
  | connect _ | openStream _ | response _ | sendReady _ _ | peer _ | verify _ | connectErr _
  | openErr _ | responseErr _ | callerGone _ _ | pushFails _ _ | finish _ =>
    exact h.other ⟨by simp, by simp⟩ (Nat.zero_le _)
  | receiveOk _ _ | receiveErr _ _ | nextItem _ _ | nextClosed _ _ | drop _ =>
    exact h.other ⟨by simp, by simp⟩ h.chunk
  | @recv a buf n ended hpc hr hn =>
    refine ⟨?_, ?_, hread hpc hr⟩
    · rw [sent_other (by simp)]
      exact h.items
    · rw [(afterRecv_spec buf hn ended).2.1]
      exact slice_length_le buf n
  | recvPanic hpc hr _ =>
    refine ⟨?_, Nat.zero_le _, hread hpc hr⟩
    rw [sent_other (by simp)]
    exact h.items
  | @recvErr a e hpc hr =>
    obtain ⟨r, hrd⟩ := ho.reading (by rw [hpc]; rfl)
    have hrec : (handDriven (acts ++ [.recv a])).received = (handDriven acts).received := by
      rw [handDriven_recv, hrd]
      simp [HandDriven.next, hr, HandDriven.received]
    refine ⟨?_, Nat.zero_le _, ?_⟩
    · rw [sent_other (by simp)]
      exact h.items
    · rw [hrec, sent_other (by simp)]
      exact h.read
  | @pushChunk chunk ended ch hpc hp =>
    have hc := h.chunk
    rw [hpc] at hc
    refine ⟨fun item hi => ?_, by cases ended <;> exact Nat.zero_le _, ?_⟩
    · rw [sent_push] at hi
      rcases List.mem_append.mp hi with hi | hi
      · exact h.items item hi
      · rw [List.mem_singleton.mp hi]
        exact hc
    · rw [handDriven_other (by simp), sent_push, bytesOf_append, List.length_append]
      exact Nat.le_trans h.read (by omega)
  | @pushLast last ch hpc hp =>
    refine ⟨fun item hi => ?_, Nat.zero_le _, ?_⟩
    · rw [sent_push] at hi
      rcases List.mem_append.mp hi with hi | hi
      · exact h.items item hi
      · rw [List.mem_singleton.mp hi, itemBytes_lastItem]
        exact Nat.zero_le _
    · rw [handDriven_other (by simp), sent_push, bytesOf_append, List.length_append]
      exact Nat.le_trans h.read (by omega)

theorem ahead_run {acts : List Act} {s : State} (h : machine.run acts = some s) : Ahead acts s := by
  refine machine.run_induction (P := Ahead) ?_
    (fun as s a t hr hp hst => ahead_step (owner_run hr) hp (step_inv hst)) h
  exact ⟨by simp [sent], Nat.zero_le _, Nat.zero_le _⟩

theorem bytesOf_length_le {l : List StreamItem}
    (h : ∀ item ∈ l, (itemBytes item).length ≤ streamChunk) :
    (bytesOf l).length ≤ l.length * streamChunk := by
  induction l with
  | nil => exact Nat.zero_le _
  | cons item l ih =>
    have hi := h item List.mem_cons_self
    have hl := ih fun item' hm => h item' (List.mem_cons_of_mem _ hm)
    rw [bytesOf, List.flatMap_cons, List.length_append, List.length_cons, Nat.succ_mul, Nat.add_comm]
    exact Nat.add_le_add hl hi

/-- **Back-pressure**: while the consumer is there, the owner has read at most nine chunks more than
it received: the eight the channel holds and the one it waits to send. -/
theorem read_ahead_bounded {acts : List Act} {s : State} (h : machine.run acts = some s)
    (hrx : s.chunks.rxOpen = true) :
    (handDriven acts).received.length ≤ (received s).length + 9 * streamChunk := by
  have ha := ahead_run h
  have hsent := (delivers_run h).queued hrx
  have hqueue : (bytesOf s.chunks.queue).length ≤ 8 * streamChunk := by
    refine Nat.le_trans (bytesOf_length_le fun item hi => ha.items item ?_)
      (Nat.mul_le_mul_right _ s.chunks.bounded)
    rw [hsent]
    exact List.mem_append_right _ hi
  have hread := ha.read
  rw [hsent, bytesOf_append, List.length_append] at hread
  unfold received
  omega

theorem read_ahead_bounded_fullChannel :
    ∃ s, machine.run fullChannel = some s ∧ s.got = [] ∧
      (handDriven fullChannel).received.length ≤ (received s).length + 9 * streamChunk :=
  ⟨_, rfl, rfl, read_ahead_bounded rfl rfl⟩

end Nwep.Runtime.Stream
