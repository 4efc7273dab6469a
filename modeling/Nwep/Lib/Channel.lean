import Mathlib.Data.List.Basic

/-!
# Channels: a bounded queue and a one-shot cell

`Mpsc α cap` is a bounded first-in first-out channel with many senders and one receiver. Its two
well-formedness facts are fields, so no state of a model can hold an overfull queue, or a value
queued on a channel whose receiver is gone. `Oneshot α` is a cell written at most once by its one
sender.

The behaviour is the documented one of the asynchronous channels they stand for: an accepted value
is delivered once and in order; a send is refused when the receiver is gone; dropping the receiver
drops what is queued; an empty queue reads as disconnected only when every sender is gone; a cell
whose sender is dropped unwritten reads as an error.
-/

namespace Nwep.Lib

universe u

/-- A bounded channel. `txOpen`: some sender is alive. `rxOpen`: the receiver is. -/
structure Mpsc (α : Type u) (cap : Nat) where
  queue   : List α
  txOpen  : Bool
  rxOpen  : Bool
  bounded : queue.length ≤ cap
  drained : rxOpen = false → queue = []

namespace Mpsc

variable {α : Type u} {cap : Nat}

/-- A fresh channel. -/
def new (α : Type u) (cap : Nat) : Mpsc α cap where
  queue := []
  txOpen := true
  rxOpen := true
  bounded := Nat.zero_le cap
  drained := fun _ => rfl

/-- A send that completes with the value accepted: both ends are alive and a slot is free. -/
def push (ch : Mpsc α cap) (a : α) : Option (Mpsc α cap) :=
  if h : ch.txOpen = true ∧ ch.rxOpen = true ∧ ch.queue.length < cap then
    some { ch with
      queue := ch.queue ++ [a]
      bounded := by simpa [Nat.succ_le_iff] using h.2.2
      drained := fun hr => absurd (h.2.1.symm.trans hr) (by decide) }
  else none

/-- What `try_recv` finds. -/
inductive TryRecv (α : Type u) (cap : Nat)
  | item (a : α) (rest : Mpsc α cap)
  | empty
  | disconnected

/-- `try_recv`: the oldest value, or whether more can come. -/
def tryRecv (ch : Mpsc α cap) : TryRecv α cap :=
  match h : ch.queue with
  | a :: q => .item a { ch with
      queue := q
      bounded := Nat.le_of_succ_le (by simpa [h] using ch.bounded)
      drained := fun hr => absurd (ch.drained hr) (by simp [h]) }
  | [] => if ch.txOpen then .empty else .disconnected

/-- The last sender is dropped. -/
def closeTx (ch : Mpsc α cap) : Mpsc α cap := { ch with txOpen := false }

/-- The receiver is dropped, and what is queued with it. -/
def closeRx (ch : Mpsc α cap) : Mpsc α cap where
  queue := []
  txOpen := ch.txOpen
  rxOpen := false
  bounded := Nat.zero_le cap
  drained := fun _ => rfl

@[simp] theorem new_queue : (new α cap).queue = [] := rfl
@[simp] theorem new_txOpen : (new α cap).txOpen = true := rfl
@[simp] theorem new_rxOpen : (new α cap).rxOpen = true := rfl
@[simp] theorem closeTx_queue (ch : Mpsc α cap) : ch.closeTx.queue = ch.queue := rfl
@[simp] theorem closeTx_txOpen (ch : Mpsc α cap) : ch.closeTx.txOpen = false := rfl
@[simp] theorem closeTx_rxOpen (ch : Mpsc α cap) : ch.closeTx.rxOpen = ch.rxOpen := rfl
@[simp] theorem closeRx_queue (ch : Mpsc α cap) : ch.closeRx.queue = [] := rfl
@[simp] theorem closeRx_txOpen (ch : Mpsc α cap) : ch.closeRx.txOpen = ch.txOpen := rfl
@[simp] theorem closeRx_rxOpen (ch : Mpsc α cap) : ch.closeRx.rxOpen = false := rfl

/-- Everything an accepted send does. -/
theorem push_spec {ch ch' : Mpsc α cap} {a : α} (h : ch.push a = some ch') :
    ch.txOpen = true ∧ ch.rxOpen = true ∧ ch.queue.length < cap ∧
      ch'.queue = ch.queue ++ [a] ∧ ch'.txOpen = ch.txOpen ∧ ch'.rxOpen = ch.rxOpen := by
  unfold push at h
  split at h
  · rename_i hc
    obtain rfl := Option.some.inj h
    exact ⟨hc.1, hc.2.1, hc.2.2, rfl, rfl, rfl⟩
  · exact absurd h (by simp)

/-- A receive takes the head and leaves both ends as they were. -/
theorem tryRecv_item {ch ch' : Mpsc α cap} {a : α} (h : ch.tryRecv = .item a ch') :
    ch.queue = a :: ch'.queue ∧ ch'.txOpen = ch.txOpen ∧ ch'.rxOpen = ch.rxOpen := by
  unfold tryRecv at h
  split at h
  · rename_i a' q hq
    cases h
    exact ⟨hq, rfl, rfl⟩
  · split at h <;> exact absurd h (by simp)

theorem tryRecv_empty {ch : Mpsc α cap} (h : ch.tryRecv = .empty) :
    ch.queue = [] ∧ ch.txOpen = true := by
  unfold tryRecv at h
  split at h
  · exact absurd h (by simp)
  · rename_i hq
    split at h
    · rename_i ht
      exact ⟨hq, ht⟩
    · exact absurd h (by simp)

theorem tryRecv_disconnected {ch : Mpsc α cap} (h : ch.tryRecv = .disconnected) :
    ch.queue = [] ∧ ch.txOpen = false := by
  unfold tryRecv at h
  split at h
  · exact absurd h (by simp)
  · rename_i hq
    split at h
    · exact absurd h (by simp)
    · rename_i ht
      exact ⟨hq, by simpa using ht⟩

/-! ### What was sent and what arrived -/

/-- The receiver got the sent values in order, and while it lives what it did not get is queued. -/
structure Delivers (sent got : List α) (ch : Mpsc α cap) : Prop where
  inOrder : got <+: sent
  queued  : ch.rxOpen = true → sent = got ++ ch.queue

namespace Delivers

variable {sent got : List α} {ch ch' : Mpsc α cap} {a : α}

theorem new : Delivers [] [] (Mpsc.new α cap) := ⟨List.prefix_refl [], fun _ => rfl⟩

theorem push (h : Delivers sent got ch) (hp : ch.push a = some ch') :
    Delivers (sent ++ [a]) got ch' := by
  obtain ⟨-, hr, -, hq, -, -⟩ := push_spec hp
  refine ⟨h.inOrder.trans (List.prefix_append sent [a]), fun _ => ?_⟩
  rw [hq, h.queued hr, List.append_assoc]

theorem recv (h : Delivers sent got ch) (hq : ch.tryRecv = .item a ch') :
    Delivers sent (got ++ [a]) ch' := by
  obtain ⟨hqq, -, hr⟩ := tryRecv_item hq
  have hopen : ch.rxOpen = true := by
    by_contra hn
    rw [ch.drained (by simpa using hn)] at hqq
    exact absurd hqq (by simp)
  have hsent : sent = got ++ [a] ++ ch'.queue := by
    rw [h.queued hopen, hqq, List.append_assoc]
    rfl
  exact ⟨⟨ch'.queue, hsent.symm⟩, fun _ => hsent⟩

theorem closeTx (h : Delivers sent got ch) : Delivers sent got ch.closeTx := ⟨h.inOrder, h.queued⟩

theorem closeRx (h : Delivers sent got ch) : Delivers sent got ch.closeRx :=
  ⟨h.inOrder, fun hr => absurd hr (by simp)⟩

/-- A value that was sent last and arrived: everything arrived. -/
theorem all_of_last {last : α} (h : Delivers (sent ++ [last]) got ch) (hn : last ∉ sent)
    (hl : last ∈ got) : got = sent ++ [last] := by
  rcases List.prefix_concat_iff.mp h.inOrder with heq | hpre
  · exact heq
  · exact absurd (hpre.subset hl) hn

end Delivers

end Mpsc

/-! ## The one-shot cell -/

/-- A one-shot cell: unwritten with its sender alive, written, or its sender dropped. -/
inductive Oneshot (α : Type u)
  | waiting
  | sent (a : α)
  | dropped
  deriving DecidableEq

namespace Oneshot

variable {α : Type u}

/-- The sender writes. It is consumed by the call, so a second write has no effect. -/
def send (c : Oneshot α) (a : α) : Oneshot α :=
  match c with
  | .waiting => .sent a
  | c => c

/-- The sender is dropped. -/
def drop : Oneshot α → Oneshot α
  | .waiting => .dropped
  | c => c

/-- What awaiting the cell yields: nothing yet, the value, or (the inner none) a receive error. -/
def recv : Oneshot α → Option (Option α)
  | .waiting => none
  | .sent a => some (some a)
  | .dropped => some none

@[simp] theorem send_waiting (a : α) : (waiting : Oneshot α).send a = .sent a := rfl
@[simp] theorem drop_waiting : (waiting : Oneshot α).drop = .dropped := rfl

theorem send_ne_waiting (c : Oneshot α) (a : α) : c.send a ≠ .waiting := by
  cases c <;> simp [send]

@[simp] theorem drop_drop (c : Oneshot α) : c.drop.drop = c.drop := by
  cases c <;> rfl

theorem drop_ne_waiting (c : Oneshot α) : c.drop ≠ .waiting := by
  cases c <;> simp [drop]

/-- What was received stays received: neither a send nor a drop changes it. -/
theorem recv_send {c : Oneshot α} {o : Option α} (h : c.recv = some o) (a : α) :
    (c.send a).recv = some o := by
  cases c with
  | waiting => exact absurd h (by simp [recv])
  | sent _ | dropped => exact h

theorem recv_drop {c : Oneshot α} {o : Option α} (h : c.recv = some o) :
    c.drop.recv = some o := by
  cases c with
  | waiting => exact absurd h (by simp [recv])
  | sent _ | dropped => exact h

/-- A value that is in the cell was there before, or was just written. -/
theorem sent_of_send {c : Oneshot α} {a v : α} (h : c.send a = .sent v) : c = .sent v ∨ v = a := by
  cases c with
  | waiting => exact Or.inr (sent.inj h).symm
  | sent _ => exact Or.inl h
  | dropped => exact absurd h (by simp [send])

theorem dropped_of_send {c : Oneshot α} {a : α} (h : c.send a = .dropped) : c = .dropped := by
  cases c with
  | waiting => exact absurd h (by simp)
  | sent _ => exact absurd h (by simp [send])
  | dropped => rfl

theorem sent_of_drop {c : Oneshot α} {v : α} (h : c.drop = .sent v) : c = .sent v := by
  cases c with
  | waiting => exact absurd h (by simp)
  | sent _ => exact h
  | dropped => exact absurd h (by simp [drop])

variable {β : Type u}

/-- The cell with its value seen through `f`. -/
def map (f : α → β) : Oneshot α → Oneshot β
  | .waiting => .waiting
  | .sent a => .sent (f a)
  | .dropped => .dropped

@[simp] theorem map_waiting (f : α → β) : (waiting : Oneshot α).map f = .waiting := rfl

theorem map_eq_waiting {f : α → β} {c : Oneshot α} : c.map f = .waiting ↔ c = .waiting := by
  cases c <;> simp [map]

theorem map_send (f : α → β) (c : Oneshot α) (a : α) : (c.send a).map f = (c.map f).send (f a) := by
  cases c <;> rfl

theorem map_drop (f : α → β) (c : Oneshot α) : c.drop.map f = (c.map f).drop := by
  cases c <;> rfl

theorem map_recv (f : α → β) (c : Oneshot α) : (c.map f).recv = c.recv.map (·.map f) := by
  cases c <;> rfl

end Oneshot

end Nwep.Lib
