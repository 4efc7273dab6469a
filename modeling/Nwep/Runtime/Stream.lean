import Nwep.Client.Stream
import Nwep.Lib.Channel
import Nwep.Lib.Machine

/-!
# The managed stream: the owner thread and the consumer

Model of `ClientBuilder::stream` and `AsyncStream` (`nwep/src/runtime.rs` 580-747): the owner thread
that connects, opens the stream, pulls the body and verifies it, the `stream` future that waits for
the metadata, and the `AsyncStream` the consumer reads, over the chunk channel of eight items.

* Labels carry what the C calls answer. The slice `buf[..n]` panics when a call reports more than
  the buffer holds; the panic closes the channel as every other way out does.
* `chunk_tx.blocking_send` waits for a slot (`push`), or fails when the consumer is gone
  (`pushFails`).
* The `stream` future owns the receiver until it hands it to the `AsyncStream`: dropping either
  drops it.
* `got` records what `chunks.recv()` yielded: an item, or none on the closed channel.
  `AsyncStream::recv` turns these into its results (`asyncRecv`).
* The status and headers of the metadata play no part in the body and are left out.
* The spawn of the thread, a panic in its set-up and the join are in `Nwep.Runtime.StreamStart`.
-/

namespace Nwep.Runtime.Stream

open Nwep.Client Nwep.Lib

/-- `StreamItem`: a chunk, the verified end, or an error. -/
abbrev StreamItem := Result (Option Bytes)

/-- `AsyncStream::recv`, from what the channel yielded. -/
def asyncRecv : Option StreamItem → Result (Option Bytes)
  | some item => item
  | none => .ok none

/-- Where the owner thread is. -/
inductive Pc
  | connect
  | openStream
  | response
  | ready                                    -- before `ready_tx.send(Ok(..))`
  | peer                                     -- `client.peer_pubkey()`
  | recv                                     -- `stream.recv(&mut buf)`
  | sendChunk (chunk : Bytes) (ended : Bool) -- `chunk_tx.blocking_send(Ok(Some(..)))`
  | verify                                   -- `stream.verify(&peer)`
  | sendLast (last : Result Unit)            -- `chunk_tx.blocking_send(end)`
  | returning                                -- `chunk_tx` not dropped yet
  | returned
  | panicked
  deriving DecidableEq

/-- The caller's side. -/
inductive Caller
  | waiting              -- the `stream` future
  | failed (e : Error)
  | streaming            -- holds the `AsyncStream`
  | gone                 -- dropped the one or the other
  deriving DecidableEq

structure State where
  pc     : Pc
  ready  : Oneshot (Result Unit)
  chunks : Mpsc StreamItem 8
  buf    : Buf
  peer   : Bytes
  caller : Caller
  got    : List (Option StreamItem)

inductive Act
  | connect (r : Result Unit)
  | openStream (r : Result Unit)
  | response (r : Result Unit)
  | sendReady
  | peer (rc : CInt) (key : Bytes)
  | recv (a : RecvAnswer)
  | push (item : StreamItem)
  | pushFails
  | verify (key : Bytes) (rc : CInt)
  | finish
  | receive
  | next
  | drop
  deriving DecidableEq

/-- `[0u8; 32]`. -/
def zeroKey : Bytes := List.replicate 32 0

def init : State where
  pc := .connect
  ready := .waiting
  chunks := Mpsc.new StreamItem 8
  buf := Buf.new
  peer := []
  caller := .waiting
  got := []

/-- The owner ends before the body: `ready_tx.send(Err(e))`, and `chunk_tx` is dropped. -/
def State.fail (s : State) (e : Error) : State :=
  { s with ready := s.ready.send (.error e), pc := .returned, chunks := s.chunks.closeTx }

/-- Where a read of `n` bytes leads: to the send of the chunk, past it when it is empty, and out
when the slice is too long. -/
def afterRecv (buf : Buf) (n : Nat) (ended : Bool) : Pc :=
  if n = 0 then (if ended then .verify else .recv)
  else if n ≤ streamChunk then .sendChunk (buf.slice n) ended
  else .panicked

/-- The last item: the end once the signature verified, or the error. -/
def lastItem : Result Unit → StreamItem
  | .ok _ => .ok none
  | .error e => .error e

/-- The item a blocking send holds, and where the owner goes when it is taken. -/
def Pc.sending : Pc → Option (StreamItem × Pc)
  | .sendChunk chunk ended => some (.ok (some chunk), if ended then .verify else .recv)
  | .sendLast last => some (lastItem last, .returning)
  | _ => none

/-- One step of one party. -/
def step (s : State) : Act → Option State
  | .connect r =>
    match s.pc, r with
    | .connect, .ok _ => some { s with pc := .openStream }
    | .connect, .error e => some (s.fail e)
    | _, _ => none
  | .openStream r =>
    match s.pc, r with
    | .openStream, .ok _ => some { s with pc := .response }
    | .openStream, .error e => some (s.fail e)
    | _, _ => none
  | .response r =>
    match s.pc, r with
    | .response, .ok _ => some { s with pc := .ready }
    | .response, .error e => some (s.fail e)
    | _, _ => none
  | .sendReady =>
    if s.pc = .ready then
      if s.caller = .waiting then some { s with pc := .peer, ready := s.ready.send (.ok ()) }
      else some { s with pc := .returned, chunks := s.chunks.closeTx }
    else none
  -- `client.peer_pubkey().unwrap_or([0u8; 32])`
  | .peer rc key =>
    if s.pc = .peer then
      some { s with pc := .recv, peer := ((peerPubkey rc key).toOption).getD zeroKey }
    else none
  | .recv a =>
    if s.pc = .recv then
      match streamRecv s.buf a with
      | .ok (buf, n, ended) =>
        match afterRecv buf n ended with
        | .panicked => some { s with pc := .panicked, buf := buf, chunks := s.chunks.closeTx }
        | pc => some { s with pc := pc, buf := buf }
      | .error e => some { s with pc := .sendLast (.error e) }
    else none
  | .push item =>
    match s.pc.sending with
    | some (held, pc) =>
      if held = item then (s.chunks.push item).map fun ch => { s with pc := pc, chunks := ch }
      else none
    | none => none
  | .pushFails =>
    match s.pc.sending with
    | some _ => if s.chunks.rxOpen then none else some { s with pc := .returning }
    | none => none
  | .verify key rc =>
    if s.pc = .verify ∧ key = s.peer then
      some { s with pc := .sendLast (streamVerify rc) }
    else none
  | .finish =>
    if s.pc = .returning then some { s with pc := .returned, chunks := s.chunks.closeTx } else none
  | .receive =>
    match s.caller, s.ready with
    | .waiting, .sent (.ok _) => some { s with caller := .streaming }
    | .waiting, .sent (.error e) => some { s with caller := .failed e, chunks := s.chunks.closeRx }
    | _, _ => none
  | .next =>
    match s.caller, s.chunks.tryRecv with
    | .streaming, .item a ch => some { s with chunks := ch, got := s.got ++ [some a] }
    | .streaming, .disconnected => some { s with got := s.got ++ [none] }
    | _, _ => none
  | .drop =>
    match s.caller with
    | .waiting => some { s with caller := .gone, chunks := s.chunks.closeRx }
    | .streaming => some { s with caller := .gone, chunks := s.chunks.closeRx }
    | _ => none

/-- The managed stream. -/
def machine : Machine State Act where
  init := init
  step := step

/-! ## What each step does -/

/-- Every enabled step, with its guard and its effect. -/
inductive Step (s : State) : Act → State → Prop
  | connect {u} (h : s.pc = .connect) : Step s (.connect (.ok u)) { s with pc := .openStream }
  | connectErr {e} (h : s.pc = .connect) : Step s (.connect (.error e)) (s.fail e)
  | openStream {u} (h : s.pc = .openStream) :
      Step s (.openStream (.ok u)) { s with pc := .response }
  | openErr {e} (h : s.pc = .openStream) : Step s (.openStream (.error e)) (s.fail e)
  | response {u} (h : s.pc = .response) : Step s (.response (.ok u)) { s with pc := .ready }
  | responseErr {e} (h : s.pc = .response) : Step s (.response (.error e)) (s.fail e)
  | sendReady (h : s.pc = .ready) (hc : s.caller = .waiting) :
      Step s .sendReady { s with pc := .peer, ready := s.ready.send (.ok ()) }
  | callerGone (h : s.pc = .ready) (hc : s.caller ≠ .waiting) :
      Step s .sendReady { s with pc := .returned, chunks := s.chunks.closeTx }
  | peer {rc key} (h : s.pc = .peer) :
      Step s (.peer rc key)
        { s with pc := .recv, peer := ((peerPubkey rc key).toOption).getD zeroKey }
  | recv {a buf n ended} (h : s.pc = .recv) (hr : streamRecv s.buf a = .ok (buf, n, ended))
      (hn : n ≤ streamChunk) :
      Step s (.recv a) { s with pc := afterRecv buf n ended, buf := buf }
  | recvPanic {a buf n ended} (h : s.pc = .recv) (hr : streamRecv s.buf a = .ok (buf, n, ended))
      (hn : streamChunk < n) :
      Step s (.recv a) { s with pc := .panicked, buf := buf, chunks := s.chunks.closeTx }
  | recvErr {a e} (h : s.pc = .recv) (hr : streamRecv s.buf a = .error e) :
      Step s (.recv a) { s with pc := .sendLast (.error e) }
  | pushChunk {chunk ended ch} (h : s.pc = .sendChunk chunk ended)
      (hp : s.chunks.push (.ok (some chunk)) = some ch) :
      Step s (.push (.ok (some chunk)))
        { s with pc := if ended then .verify else .recv, chunks := ch }
  | pushLast {last ch} (h : s.pc = .sendLast last) (hp : s.chunks.push (lastItem last) = some ch) :
      Step s (.push (lastItem last)) { s with pc := .returning, chunks := ch }
  | pushFails (h : (∃ chunk ended, s.pc = .sendChunk chunk ended) ∨ ∃ last, s.pc = .sendLast last)
      (hr : s.chunks.rxOpen = false) : Step s .pushFails { s with pc := .returning }
  | verify {rc} (h : s.pc = .verify) :
      Step s (.verify s.peer rc) { s with pc := .sendLast (streamVerify rc) }
  | finish (h : s.pc = .returning) :
      Step s .finish { s with pc := .returned, chunks := s.chunks.closeTx }
  | receiveOk {u} (h : s.caller = .waiting) (hr : s.ready = .sent (.ok u)) :
      Step s .receive { s with caller := .streaming }
  | receiveErr {e} (h : s.caller = .waiting) (hr : s.ready = .sent (.error e)) :
      Step s .receive { s with caller := .failed e, chunks := s.chunks.closeRx }
  | nextItem {a ch} (h : s.caller = .streaming) (hq : s.chunks.tryRecv = .item a ch) :
      Step s .next { s with chunks := ch, got := s.got ++ [some a] }
  | nextClosed (h : s.caller = .streaming) (hq : s.chunks.tryRecv = .disconnected) :
      Step s .next { s with got := s.got ++ [none] }
  | drop (h : s.caller = .waiting ∨ s.caller = .streaming) :
      Step s .drop { s with caller := .gone, chunks := s.chunks.closeRx }

theorem afterRecv_panicked {buf : Buf} {n : Nat} {ended : Bool} :
    afterRecv buf n ended = .panicked ↔ streamChunk < n := by
  unfold afterRecv
  split
  · rename_i h
    subst h
    cases ended <;> simp [streamChunk]
  · split
    · rename_i h
      simp only [reduceCtorEq, false_iff]
      omega
    · rename_i h
      simp only [true_iff]
      omega

/-- **The inversion of `step`**: what an enabled label did. -/
theorem step_inv {s t : State} {a : Act} (h : step s a = some t) : Step s a t := by
  cases a with
  | connect r =>
    simp only [step] at h
    split at h
    · rename_i hpc
      obtain rfl := Option.some.inj h
      exact .connect hpc
    · rename_i hpc
      obtain rfl := Option.some.inj h
      exact .connectErr hpc
    · exact absurd h (by simp)
  | openStream r =>
    simp only [step] at h
    split at h
    · rename_i hpc
      obtain rfl := Option.some.inj h
      exact .openStream hpc
    · rename_i hpc
      obtain rfl := Option.some.inj h
      exact .openErr hpc
    · exact absurd h (by simp)
  | response r =>
    simp only [step] at h
    split at h
    · rename_i hpc
      obtain rfl := Option.some.inj h
      exact .response hpc
    · rename_i hpc
      obtain rfl := Option.some.inj h
      exact .responseErr hpc
    · exact absurd h (by simp)
  | sendReady =>
    simp only [step] at h
    split at h
    · rename_i hpc
      split at h
      · rename_i hc
        obtain rfl := Option.some.inj h
        exact .sendReady hpc hc
      · rename_i hc
        obtain rfl := Option.some.inj h
        exact .callerGone hpc hc
    · exact absurd h (by simp)
  | peer rc key =>
    simp only [step] at h
    split at h
    · rename_i hpc
      obtain rfl := Option.some.inj h
      exact .peer hpc
    · exact absurd h (by simp)
  | recv a =>
    simp only [step] at h
    split at h
    · rename_i hpc
      split at h
      · rename_i buf n ended hr
        split at h
        · rename_i hp
          obtain rfl := Option.some.inj h
          exact .recvPanic hpc hr (afterRecv_panicked.mp hp)
        · rename_i hp
          obtain rfl := Option.some.inj h
          refine .recv hpc hr (Nat.le_of_not_lt fun hn => ?_)
          exact hp (afterRecv_panicked.mpr hn)
      · rename_i e hr
        obtain rfl := Option.some.inj h
        exact .recvErr hpc hr
    · exact absurd h (by simp)
  | push item =>
    cases hpc : s.pc with
    | sendChunk chunk ended =>
      simp only [step, Pc.sending, hpc] at h
      split at h
      · rename_i heq
        subst heq
        obtain ⟨ch, hp, rfl⟩ := Option.map_eq_some_iff.mp h
        exact .pushChunk hpc hp
      · exact absurd h (by simp)
    | sendLast last =>
      simp only [step, Pc.sending, hpc] at h
      split at h
      · rename_i heq
        subst heq
        obtain ⟨ch, hp, rfl⟩ := Option.map_eq_some_iff.mp h
        exact .pushLast hpc hp
      · exact absurd h (by simp)
    | _ => simp [step, Pc.sending, hpc] at h
  | pushFails =>
    have hsend :
        (∃ chunk ended, s.pc = .sendChunk chunk ended) ∨ ∃ last, s.pc = .sendLast last := by
      cases hpc : s.pc with
      | sendChunk chunk ended => exact Or.inl ⟨chunk, ended, rfl⟩
      | sendLast last => exact Or.inr ⟨last, rfl⟩
      | _ => simp [step, Pc.sending, hpc] at h
    simp only [step] at h
    split at h
    · split at h
      · exact absurd h (by simp)
      · rename_i hr
        obtain rfl := Option.some.inj h
        exact .pushFails hsend (by simpa using hr)
    · exact absurd h (by simp)
  | verify key rc =>
    simp only [step] at h
    split at h
    · rename_i hc
      obtain ⟨hpc, rfl⟩ := hc
      obtain rfl := Option.some.inj h
      exact .verify hpc
    · exact absurd h (by simp)
  | finish =>
    simp only [step] at h
    split at h
    · rename_i hpc
      obtain rfl := Option.some.inj h
      exact .finish hpc
    · exact absurd h (by simp)
  | receive =>
    simp only [step] at h
    split at h
    · rename_i u hc hr
      obtain rfl := Option.some.inj h
      exact .receiveOk hc hr
    · rename_i e hc hr
      obtain rfl := Option.some.inj h
      exact .receiveErr hc hr
    · exact absurd h (by simp)
  | next =>
    simp only [step] at h
    split at h
    · rename_i a ch hc hq
      obtain rfl := Option.some.inj h
      exact .nextItem hc hq
    · rename_i hc hq
      obtain rfl := Option.some.inj h
      exact .nextClosed hc hq
    · exact absurd h (by simp)
  | drop =>
    simp only [step] at h
    split at h
    · rename_i hc
      obtain rfl := Option.some.inj h
      exact .drop (Or.inl hc)
    · rename_i hc
      obtain rfl := Option.some.inj h
      exact .drop (Or.inr hc)
    · exact absurd h (by simp)

end Nwep.Runtime.Stream
