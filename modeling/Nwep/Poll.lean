import Nwep.Runtime.ClientLoop

/-!
# The wakers of the two platforms

Model of the two `Waker`s of `nwep/src/poll.rs`: the eventfd (24-70) and the loopback udp socket
connected to itself (104-236). Both are `Lib.Waker`s, so what is proved over any waker holds of
both.

* The socket's receive buffer holds a number of datagrams, at least one, fixed by the system. A
  datagram that finds it full is discarded, and `send`'s answer is not looked at.
* Only the socket itself sends to it (it is connected), so every datagram is the one byte of `wake`.
  This is a field of `SelfPipe`: a datagram of no bytes would end the drain loop early, and one of
  more than 64 would make `recv` fail.
* `ioctlsocket` is taken to have set the socket non-blocking.
-/

/-! ## Wakers

A waker is woken from anywhere and drained by its one owner, who reads it until a read brings
nothing. What a waker keeps of many wakes is its own affair (a counter, a queue, one bit), so its
laws speak of `left`, the reads until it is drained: a wake leaves something to read, a read brings
something exactly as long as something is left, and takes some of it. -/

namespace Nwep.Lib

universe u

/-- A waker over states `ω`. `read` is one read of the drain loop: its count, and what is left. -/
structure Waker (ω : Type u) where
  init  : ω
  wake  : ω → ω
  read  : ω → Int × ω
  left  : ω → Nat
  fresh : left init = 0
  woken : ∀ w, 0 < left (wake w)
  dry   : ∀ w, left w = 0 → (read w).1 ≤ 0 ∧ (read w).2 = w
  takes : ∀ w, 0 < left w → 0 < (read w).1 ∧ left (read w).2 < left w

namespace Waker

variable {ω : Type u} (W : Waker ω)

/-- The waker's handle polls readable. -/
def Readable (w : ω) : Prop := 0 < W.left w

/-- A read of the drain loop brings something exactly when the handle is readable. -/
theorem read_pos {w : ω} : 0 < (W.read w).1 ↔ W.Readable w := by
  constructor
  · intro h
    by_contra hn
    have hdry := (W.dry w (Nat.eq_zero_of_not_pos hn)).1
    omega
  · intro h
    exact (W.takes w h).1

theorem readable_wake (w : ω) : W.Readable (W.wake w) := W.woken w

theorem not_readable_init : ¬ W.Readable W.init := by
  unfold Readable
  rw [W.fresh]
  omega

end Waker

end Nwep.Lib

/-! ## The two platforms -/

namespace Nwep.Poll

open Nwep.Lib Nwep.Runtime

/-- The eventfd counter as a waker: a read takes all of it. -/
def eventfd : Waker Nat where
  init := 0
  wake := ClientLoop.eventfdWrite
  read n := if 0 < n then (8, 0) else (-1, n)
  left n := min n 1
  fresh := rfl
  woken n := by
    have hpos := ClientLoop.eventfdWrite_pos n
    omega
  dry n h := by
    have hn : n = 0 := by omega
    simp [hn]
  takes n h := by
    have hn : 0 < n := by omega
    simp only [hn, if_true]
    omega

/-- A loopback udp socket connected to itself, with room for `cap` datagrams. -/
structure SelfPipe (cap : Nat) where
  datagrams : List Bytes
  bytes     : ∀ d ∈ datagrams, d = [1]
  fits      : datagrams.length ≤ cap
  deriving DecidableEq

namespace SelfPipe

variable {cap : Nat}

/-- `new`. -/
def new : SelfPipe cap := ⟨[], fun _ h => absurd h List.not_mem_nil, Nat.zero_le cap⟩

/-- `send(self.0, &b, 1, 0)`. -/
def send (p : SelfPipe cap) : SelfPipe cap :=
  if h : p.datagrams.length < cap then
    { datagrams := p.datagrams ++ [[1]]
      bytes := fun d hd => (List.mem_append.mp hd).elim (p.bytes d) List.mem_singleton.mp
      fits := by simpa [Nat.succ_le_iff] using h }
  else p

/-- `recv` into the 64 bytes of `drain`: the length of the datagram, -1 where it fails. -/
def recv (p : SelfPipe cap) : Int × SelfPipe cap :=
  match h : p.datagrams with
  | [] => (-1, p)
  | d :: rest =>
    (if d.length ≤ 64 then d.length else -1,
      { datagrams := rest
        bytes := fun e he => p.bytes e (h ▸ List.mem_cons_of_mem d he)
        fits := Nat.le_of_succ_le (by simpa [h] using p.fits) })

/-- A send leaves something to receive, also when it is discarded. -/
theorem send_pos (hc : 0 < cap) (p : SelfPipe cap) : 0 < p.send.datagrams.length := by
  unfold send
  split
  · simp
  · omega

theorem recv_nil {p : SelfPipe cap} (h : p.datagrams = []) : p.recv = (-1, p) := by
  unfold recv
  split
  · rfl
  · rename_i d rest hd
    rw [h] at hd
    exact absurd hd (by simp)

/-- A receive brings the one byte of a wake and leaves the other datagrams. -/
theorem recv_cons {p : SelfPipe cap} (h : 0 < p.datagrams.length) :
    p.recv.1 = 1 ∧ p.recv.2.datagrams = p.datagrams.tail := by
  unfold recv
  split
  · rename_i hd
    rw [hd] at h
    exact absurd h (by simp)
  · rename_i d rest hd
    have hone : d = [1] := p.bytes d (hd ▸ List.mem_cons_self)
    simp [hone, hd]

end SelfPipe

/-- The socket as a waker. -/
def selfPipe (cap : Nat) (hc : 0 < cap) : Waker (SelfPipe cap) where
  init := SelfPipe.new
  wake := SelfPipe.send
  read := SelfPipe.recv
  left p := p.datagrams.length
  fresh := rfl
  woken := SelfPipe.send_pos hc
  dry p h := by
    rw [SelfPipe.recv_nil (List.eq_nil_of_length_eq_zero h)]
    exact ⟨by simp, rfl⟩
  takes p h := by
    obtain ⟨hone, htail⟩ := SelfPipe.recv_cons h
    rw [hone, htail, List.length_tail]
    omega

end Nwep.Poll
