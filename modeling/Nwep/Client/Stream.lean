import Nwep.Sys

/-!
# A streamed response

Model of `Stream::recv` and `Stream::verify` (`nwep/src/client.rs` 636-671) and of
`Client::peer_pubkey` (408-419). `recv` reads into a buffer of the caller's: the C call overwrites
its front and reports how much of it to use, so what is read is a prefix of the buffer after the
call, and a report longer than what was written shows what an earlier call left there.

`HandDriven` is the loop a caller writes over `Stream::recv`, as `nwep/tests/streaming.rs` has it.
-/

namespace Nwep.Client

/-- `STREAM_CHUNK`. -/
def streamChunk : Nat := 64 * 1024

/-- A read buffer of `STREAM_CHUNK` bytes. -/
structure Buf where
  bytes : Bytes
  size  : bytes.length = streamChunk

/-- `vec![0u8; STREAM_CHUNK]`. -/
def Buf.new : Buf := ⟨List.replicate streamChunk 0, List.length_replicate⟩

/-- The C side writes to the front of the buffer. -/
def Buf.write (b : Buf) (w : Bytes) : Buf where
  bytes := (w ++ b.bytes.drop w.length).take streamChunk
  size := by
    have hb := b.size
    rw [List.length_take, List.length_append, List.length_drop]
    omega

/-- `&buf[..n]`. -/
def Buf.slice (b : Buf) (n : Nat) : Bytes := b.bytes.take n

/-- A slice that is asked for holds something. -/
theorem Buf.slice_ne_nil (b : Buf) {n : Nat} (h : 0 < n) : b.slice n ≠ [] := by
  intro hnil
  have hlen := congrArg List.length hnil
  have hb := b.size
  unfold Buf.slice at hlen
  unfold streamChunk at hb
  rw [List.length_take, List.length_nil] at hlen
  omega

@[simp] theorem Buf.slice_zero (b : Buf) : b.slice 0 = [] := rfl

/-- What `nwep_client_stream_recv` answers: its code, what it wrote, and the two out values. -/
structure RecvAnswer where
  rc      : CInt
  written : Bytes
  len     : Nat
  ended   : CInt
  deriving DecidableEq

/-- `Stream::recv`: the buffer after the call, the number of bytes and whether the stream ended. -/
def streamRecv (buf : Buf) (a : RecvAnswer) : Result (Buf × Nat × Bool) := do
  Error.check a.rc
  .ok (buf.write a.written, a.len, a.ended != 0)

/-- A read that succeeds, and what it returns. -/
theorem streamRecv_ok {buf buf' : Buf} {a : RecvAnswer} {n : Nat} {ended : Bool} :
    streamRecv buf a = .ok (buf', n, ended) ↔
      0 ≤ a.rc ∧ buf' = buf.write a.written ∧ n = a.len ∧ ended = (a.ended != 0) := by
  unfold streamRecv
  rcases Error.check_cases a.rc with ⟨h0, hc⟩ | ⟨h0, e, hc⟩
  · rw [hc]
    simp only [bind, Except.bind, Except.ok.injEq, Prod.mk.injEq, h0, true_and]
    constructor
    · rintro ⟨rfl, rfl, rfl⟩
      exact ⟨rfl, rfl, rfl⟩
    · rintro ⟨rfl, rfl, rfl⟩
      exact ⟨rfl, rfl, rfl⟩
  · rw [hc]
    simp [bind, Except.bind, h0]

/-- A read that fails. -/
theorem streamRecv_error {buf : Buf} {a : RecvAnswer} {e : Error}
    (h : streamRecv buf a = .error e) : a.rc < 0 := by
  by_contra hn
  have hok := (@streamRecv_ok buf _ a _ _).mpr ⟨Int.not_lt.mp hn, rfl, rfl, rfl⟩
  rw [h] at hok
  exact absurd hok (by simp)

/-- `Stream::verify`. -/
def streamVerify (rc : CInt) : Result Unit := Error.check rc

/-- `Client::peer_pubkey`, when the C call answers `rc` and writes `out`. -/
def peerPubkey (rc : CInt) (out : Bytes) : Result Bytes := do
  Error.check rc
  .ok out

/-- The loop over `Stream::recv` that collects the body: still reading, at the end, or failed. -/
inductive HandDriven
  | reading (buf : Buf) (received : Bytes)
  | ended (received : Bytes)
  | failed (received : Bytes) (e : Error)

namespace HandDriven

/-- `received.extend_from_slice(&buf[..n]); if ended { break; }`. -/
def next : HandDriven → RecvAnswer → HandDriven
  | reading buf received, a =>
    match streamRecv buf a with
    | .ok (buf, n, true) => ended (received ++ buf.slice n)
    | .ok (buf, n, false) => reading buf (received ++ buf.slice n)
    | .error e => failed received e
  | l, _ => l

/-- The loop over the answers of the C calls. -/
def run (as : List RecvAnswer) : HandDriven := as.foldl next (reading Buf.new [])

/-- The bytes read so far. -/
def received : HandDriven → Bytes
  | reading _ r => r
  | ended r => r
  | failed r _ => r

theorem run_snoc (as : List RecvAnswer) (a : RecvAnswer) : run (as ++ [a]) = (run as).next a := by
  unfold run
  rw [List.foldl_append]
  rfl

end HandDriven

end Nwep.Client
