import Nwep.Runtime.StreamBody
import Nwep.Server.Pump

/-!
# A streamed body from the server to the consumer

The owner loop of the server (`Server.Pump`), the managed stream of the client (`Runtime.Stream`)
and the transport between them, as one system. The transport is outside the repository. What is
asked of it is what the two C calls promise (`nwep-sys/src/lib.rs` 280-291, 673-682): the bytes
`nwep_server_stream_send` accepts are read by `nwep_client_stream_recv` in order, each once, and the
end is read behind them when `nwep_server_stream_end` wrote it. It may fail at any read, and split
the bytes as it likes.

Every interleaving of the two owner threads, the consumer and the other streams of the server is a
run, so every pattern of back-pressure on either side is.

Results:
* `sides_run`: each side runs as it does alone;
* `conserved_run`: what the server's side accepted is what the client read and what is in flight;
* **`body_end_to_end`**: the consumer gets a front of the body, and with the verified end all of it.
-/

namespace Nwep.Runtime.StreamPath

open Nwep.Client Nwep.Lib
open Nwep.Server.Pump (Key)

/-- What the transport holds of one stream: accepted and not read, and whether its end was
written. -/
structure Wire where
  inflight : Bytes
  fin      : Bool

/-- The label writes the end of the stream. -/
def finishes (k : Key) : Server.Pump.Act → Bool
  | .finish key rc => key == k && decide (0 ≤ rc)
  | _ => false

/-- The server's side moves. -/
def Wire.after (w : Wire) (k : Key) (a : Server.Pump.Act) : Wire :=
  ⟨w.inflight ++ a.accepts k, w.fin || finishes k a⟩

/-- What is left when the client reads: the call fails, or it takes the front of what is in flight,
and reports the end behind the last of it. -/
def Wire.read (w : Wire) (a : RecvAnswer) : Option Wire :=
  if a.rc < 0 then some w
  else if a.len = a.written.length ∧ a.len ≤ streamChunk ∧ a.written <+: w.inflight ∧
      (a.ended ≠ 0 → w.fin = true ∧ a.written = w.inflight) then
    some { w with inflight := w.inflight.drop a.len }
  else none

structure State where
  server : Server.Pump.State
  wire   : Wire
  client : Stream.State

inductive Act
  | server (a : Server.Pump.Act)
  | client (a : Stream.Act)

def init : State := ⟨Server.Pump.init, ⟨[], false⟩, Stream.init⟩

/-- What a step of the client does to the transport. -/
def Wire.readBy (w : Wire) : Stream.Act → Option Wire
  | .recv a => w.read a
  | _ => some w

/-- One step of one party. -/
def step (body : Bytes) (k : Key) (s : State) : Act → Option State
  | .server a =>
    (Server.Pump.step body s.server a).map fun t => { s with server := t, wire := s.wire.after k a }
  | .client a =>
    (s.wire.readBy a).bind fun w =>
      (Stream.step s.client a).map fun t => { s with wire := w, client := t }

/-- The server streams `body`, and the client reads the stream `k`. -/
def machine (body : Bytes) (k : Key) : Machine State Act where
  init := init
  step := step body k

/-- The steps of the server's owner loop. -/
def serverActs (acts : List Act) : List Server.Pump.Act :=
  acts.filterMap fun
    | .server a => some a
    | _ => none

/-- The steps of the managed stream. -/
def clientActs (acts : List Act) : List Stream.Act :=
  acts.filterMap fun
    | .client a => some a
    | _ => none

variable {body : Bytes} {k : Key}

theorem step_server {s t : State} {a : Server.Pump.Act}
    (h : (machine body k).step s (.server a) = some t) :
    Server.Pump.step body s.server a = some t.server ∧ t.wire = s.wire.after k a ∧
      t.client = s.client := by
  obtain ⟨u, hu, rfl⟩ := Option.map_eq_some_iff.mp h
  exact ⟨hu, rfl, rfl⟩

theorem step_client {s t : State} {a : Stream.Act}
    (h : (machine body k).step s (.client a) = some t) :
    s.wire.readBy a = some t.wire ∧ Stream.step s.client a = some t.client ∧
      t.server = s.server := by
  obtain ⟨w, hw, h⟩ := Option.bind_eq_some_iff.mp h
  obtain ⟨u, hu, rfl⟩ := Option.map_eq_some_iff.mp h
  exact ⟨hw, hu, rfl⟩

/-- **Each side runs as it does alone.** -/
theorem sides_run {acts : List Act} {s : State} (h : (machine body k).run acts = some s) :
    (Server.Pump.machine body).run (serverActs acts) = some s.server ∧
      Stream.machine.run (clientActs acts) = some s.client := by
  refine (machine body k).run_induction
    (P := fun as s => (Server.Pump.machine body).run (serverActs as) = some s.server ∧
      Stream.machine.run (clientActs as) = some s.client) ⟨rfl, rfl⟩ ?_ h
  intro as s a t _ hp hst
  cases a with
  | server a =>
    obtain ⟨hs, -, hc⟩ := step_server hst
    have h1 : serverActs (as ++ [.server a]) = serverActs as ++ [a] := by simp [serverActs]
    have h2 : clientActs (as ++ [.server a]) = clientActs as := by simp [clientActs]
    rw [h1, h2, hc]
    exact ⟨(Server.Pump.machine body).run_snoc.mpr ⟨s.server, hp.1, hs⟩, hp.2⟩
  | client a =>
    obtain ⟨-, hc, hs⟩ := step_client hst
    have h1 : serverActs (as ++ [.client a]) = serverActs as := by simp [serverActs]
    have h2 : clientActs (as ++ [.client a]) = clientActs as ++ [a] := by simp [clientActs]
    rw [h1, h2, hs]
    exact ⟨hp.1, Stream.machine.run_snoc.mpr ⟨s.client, hp.2, hc⟩⟩

/-! ## Nothing is lost or made up on the way -/

/-- What was accepted is what was read and what is in flight; the end is read behind all of it. -/
structure Conserved (body : Bytes) (k : Key) (acts : List Act) (s : State) : Prop where
  account : Server.Pump.accepted k (serverActs acts) =
    (Stream.handDriven (clientActs acts)).received ++ s.wire.inflight
  fin : s.wire.fin = true → 0 < Server.Pump.ends k (serverActs acts)
  whole : ∀ r, Stream.handDriven (clientActs acts) = .ended r →
    r = body ∧ 0 < Server.Pump.ends k (serverActs acts)

theorem ends_of_finishes {a : Server.Pump.Act} (h : finishes k a = true) : a.ends k = true := by
  cases a with
  | finish key rc =>
    simp only [finishes, Bool.and_eq_true] at h
    exact h.1
  | _ => exact absurd h (by simp [finishes])

/-- What was just written to the front of the buffer is read back from it. -/
theorem slice_write (buf : Buf) {w : Bytes} (h : w.length ≤ streamChunk) :
    (buf.write w).slice w.length = w := by
  simp only [Buf.slice, Buf.write, List.take_take, Nat.min_eq_left h]
  exact List.take_left

/-- What a read that succeeds takes off the transport. -/
theorem read_ok {w w' : Wire} {a : RecvAnswer} (h : w.read a = some w') (hr : ¬ a.rc < 0) :
    a.len = a.written.length ∧ a.len ≤ streamChunk ∧ w.inflight = a.written ++ w'.inflight ∧
      w'.fin = w.fin ∧ (a.ended ≠ 0 → w.fin = true ∧ w'.inflight = []) := by
  unfold Wire.read at h
  rw [if_neg hr] at h
  split at h
  · rename_i hg
    obtain ⟨hlen, hcap, ⟨rest, hrest⟩, hend⟩ := hg
    obtain rfl := Option.some.inj h
    have hdrop : w.inflight.drop a.len = rest := by
      rw [← hrest, hlen, List.drop_left]
    refine ⟨hlen, hcap, by rw [hdrop, hrest], rfl, fun he => ⟨(hend he).1, ?_⟩⟩
    rw [hlen, (hend he).2]
    exact List.drop_length
  · exact absurd h (by simp)

/-- The server's side moves: what it accepts is in flight. -/
theorem conserved_server {acts : List Act} {s t : State} {a : Server.Pump.Act}
    (h : Conserved body k acts s) (hst : (machine body k).step s (.server a) = some t) :
    Conserved body k (acts ++ [.server a]) t := by
  obtain ⟨-, hw, -⟩ := step_server hst
  have h1 : serverActs (acts ++ [.server a]) = serverActs acts ++ [a] := by simp [serverActs]
  have h2 : clientActs (acts ++ [.server a]) = clientActs acts := by simp [clientActs]
  have hmono : Server.Pump.ends k (serverActs acts) ≤
      Server.Pump.ends k (serverActs acts ++ [a]) := by
    rw [Server.Pump.ends_snoc]
    exact Nat.le_add_right _ _
  refine ⟨?_, fun hf => ?_, fun r hr => ?_⟩
  · rw [h1, h2, hw, Server.Pump.accepted_snoc, h.account, List.append_assoc]
    rfl
  · rw [h1]
    have hf : (s.wire.fin || finishes k a) = true := by
      rw [hw] at hf
      exact hf
    rcases Bool.or_eq_true_iff.mp hf with hf | hf
    · exact Nat.lt_of_lt_of_le (h.fin hf) hmono
    · rw [Server.Pump.ends_snoc, ends_of_finishes hf]
      exact Nat.succ_pos _
  · rw [h2] at hr
    rw [h1]
    obtain ⟨hbody, hends⟩ := h.whole r hr
    exact ⟨hbody, Nat.lt_of_lt_of_le hends hmono⟩

/-- The client's side moves: what it reads is off the transport. -/
theorem conserved_client {acts : List Act} {s t : State} {a : Stream.Act}
    (hr : (machine body k).run acts = some s) (h : Conserved body k acts s)
    (hst : (machine body k).step s (.client a) = some t) :
    Conserved body k (acts ++ [.client a]) t := by
  obtain ⟨hsrv, hcli⟩ := sides_run hr
  obtain ⟨hw, hc, -⟩ := step_client hst
  have h1 : serverActs (acts ++ [.client a]) = serverActs acts := by simp [serverActs]
  have h2 : clientActs (acts ++ [.client a]) = clientActs acts ++ [a] := by simp [clientActs]
  have hquiet : (∀ r, a ≠ .recv r) → Conserved body k (acts ++ [.client a]) t := by
    intro hno
    have hwire : s.wire = t.wire := by
      cases a with
      | recv r => exact absurd rfl (hno r)
      | _ => exact Option.some.inj hw
    have hd := Stream.handDriven_other hno (clientActs acts)
    refine ⟨?_, ?_, ?_⟩
    · rw [h1, h2, hd, ← hwire]
      exact h.account
    · rw [h1, ← hwire]
      exact h.fin
    · rw [h1, h2, hd]
      exact h.whole
  generalize t.client = tc at hc
  cases Stream.step_inv hc with
  | @recv a buf n ended hpc hrec hn =>
    obtain ⟨r, hread⟩ := (Stream.owner_run hcli).reading (by rw [hpc]; rfl)
    obtain ⟨h0, rfl, rfl, rfl⟩ := streamRecv_ok.mp hrec
    obtain ⟨hlen, hcap, hsplit, hfin, hend⟩ := read_ok hw (Int.not_lt.mpr h0)
    have hslice : (s.client.buf.write a.written).slice a.len = a.written := by
      rw [hlen]
      exact slice_write _ (hlen ▸ hcap)
    have hnext := Stream.next_reading (r := r) hrec
    rw [hslice] at hnext
    have hd : Stream.handDriven (clientActs acts ++ [.recv a]) =
        if a.ended != 0 then .ended (r ++ a.written)
        else .reading (s.client.buf.write a.written) (r ++ a.written) := by
      rw [Stream.handDriven_recv, hread, hnext]
    have hacc := h.account
    rw [hread] at hacc
    have hacc' : Server.Pump.accepted k (serverActs acts) = r ++ a.written ++ t.wire.inflight := by
      rw [hacc, HandDriven.received, hsplit, List.append_assoc]
    refine ⟨?_, ?_, fun r' hr' => ?_⟩
    · rw [h1, h2, hd, hacc']
      cases a.ended != 0 <;> rfl
    · rw [h1, hfin]
      exact h.fin
    · rw [h2, hd] at hr'
      rw [h1]
      by_cases he : a.ended = 0
      · rw [he] at hr'
        exact absurd hr' (by simp)
      · obtain ⟨hf, hnil⟩ := hend he
        have hends := h.fin hf
        rw [if_pos (by simpa using he)] at hr'
        obtain rfl := HandDriven.ended.inj hr'
        rw [hnil, List.append_nil] at hacc'
        exact ⟨hacc' ▸ (Server.Pump.through_of_ends (Server.Pump.inv_run hsrv) hends).accepted, hends⟩
  | @recvPanic a buf n ended hpc hrec hn =>
    obtain ⟨h0, -, rfl, -⟩ := streamRecv_ok.mp hrec
    have hcap := (read_ok hw (Int.not_lt.mpr h0)).2.1
    exact absurd hn (Nat.not_lt.mpr hcap)
  | @recvErr a e hpc hrec =>
    obtain ⟨r, hread⟩ := (Stream.owner_run hcli).reading (by rw [hpc]; rfl)
    have hneg := streamRecv_error hrec
    have hwire : s.wire = t.wire := by
      have hw : s.wire.read a = some t.wire := hw
      rw [Wire.read, if_pos hneg] at hw
      exact Option.some.inj hw
    have hd : Stream.handDriven (clientActs acts ++ [.recv a]) = .failed r e := by
      rw [Stream.handDriven_recv, hread]
      simp [HandDriven.next, hrec]
    refine ⟨?_, ?_, fun r' hr' => ?_⟩
    · have hacc := h.account
      rw [hread] at hacc
      rw [h1, h2, hd, ← hwire]
      exact hacc
    · rw [h1, ← hwire]
      exact h.fin
    · rw [h2, hd] at hr'
      exact absurd hr' (by simp)
  | _ => exact hquiet (by simp)

theorem conserved_run {acts : List Act} {s : State} (h : (machine body k).run acts = some s) :
    Conserved body k acts s := by
  refine (machine body k).run_induction (P := Conserved body k) ?_ ?_ h
  · refine ⟨rfl, fun hf => absurd hf (by simp [machine, init]), fun r hr => ?_⟩
    exact absurd hr (by simp [clientActs, Stream.handDriven, Stream.answers, HandDriven.run])
  · intro as s a t hr hp hst
    cases a with
    | server a => exact conserved_server hp hst
    | client a => exact conserved_client hr hp hst

/-! ## The main result -/

/-- With the explicit end, the hand-driven loop on the same answers is at its end with what the
consumer received. -/
theorem ended_of_got {acts : List Stream.Act} {s : Stream.State}
    (h : Stream.machine.run acts = some s) (he : some (.ok none) ∈ s.got) :
    Stream.handDriven acts = .ended (Stream.received s) := by
  obtain ⟨q, hs, hall, hbytes, r, hr⟩ :=
    Stream.ended_of_sent (Stream.owner_run h) (Stream.sent_of_got h he)
  have hdel := Stream.delivers_run h
  rw [hs] at hdel
  have hitems : Stream.items s = q ++ [.ok none] := by
    refine hdel.all_of_last (fun hm => Stream.not_isChunk_lastItem (.ok ()) (hall _ hm)) ?_
    exact List.mem_filterMap.mpr ⟨_, he, rfl⟩
  have hrec : Stream.received s = r := by
    rw [Stream.received, hitems, Stream.bytesOf_append, hbytes, hr]
    simp [Stream.bytesOf, Stream.itemBytes, HandDriven.received]
  rw [hr, hrec]

/-- What the two sides make of a body, in the run `acts` that ends in `s`. -/
structure EndToEnd (body : Bytes) (k : Key) (acts : List Act) (s : State) : Prop where
  /-- What the consumer received is a front of the body, in order. -/
  inOrder : Stream.received s.client <+: body
  /-- What the server's side accepted is what the client read and what is in flight. -/
  conserved : Server.Pump.accepted k (serverActs acts) =
    (Stream.handDriven (clientActs acts)).received ++ s.wire.inflight
  /-- A verified end comes with the whole body, of a stream the server ended, once. -/
  whole : some (.ok none) ∈ s.client.got →
    Stream.received s.client = body ∧ Server.Pump.ends k (serverActs acts) = 1
  /-- So does the end of a loop driven by hand on the same answers. -/
  handDriven : ∀ r, Stream.handDriven (clientActs acts) = .ended r →
    r = body ∧ Server.Pump.ends k (serverActs acts) = 1

/-- **The body goes through**: whatever is accepted at a time, however the transport splits it, and
whoever stops or fails at whatever point. -/
theorem body_end_to_end {acts : List Act} {s : State} (h : (machine body k).run acts = some s) :
    EndToEnd body k acts s := by
  obtain ⟨hsrv, hcli⟩ := sides_run h
  have hc := conserved_run h
  have hi := Server.Pump.inv_run hsrv
  have hwhole : ∀ r, Stream.handDriven (clientActs acts) = .ended r →
      r = body ∧ Server.Pump.ends k (serverActs acts) = 1 := by
    intro r hr
    obtain ⟨hbody, hends⟩ := hc.whole r hr
    exact ⟨hbody, (Server.Pump.through_of_ends hi hends).ended⟩
  refine ⟨?_, hc.account, fun he => hwhole _ (ended_of_got hcli he), hwhole⟩
  · have hread : Stream.received s.client <+: (Stream.handDriven (clientActs acts)).received :=
      (Stream.bytesOf_mono (Stream.delivers_run hcli).inOrder).trans (Stream.owner_run hcli).pre
    have hsent : (Stream.handDriven (clientActs acts)).received <+:
        Server.Pump.accepted k (serverActs acts) := ⟨_, hc.account.symm⟩
    exact (hread.trans hsent).trans (Server.Pump.accepted_initial hi k)

/-- Three bytes in two sends, read in two reads cut elsewhere. -/
def splitRun : List Act :=
  [.client (.connect (.ok ())), .client (.openStream (.ok ())), .server (.tick 0 [⟨1, 0⟩]),
   .server (.send ⟨1, 0⟩ [7, 8, 9] 2), .client (.response (.ok ())), .client .sendReady,
   .client .receive, .client (.peer 0 [5]), .client (.recv ⟨0, [7], 1, 0⟩),
   .client (.push (.ok (some [7]))), .server (.send ⟨1, 0⟩ [9] 1), .server (.finish ⟨1, 0⟩ 0),
   .client (.recv ⟨0, [8, 9], 2, 1⟩), .client (.push (.ok (some [8, 9]))), .client (.verify [5] 0),
   .client (.push (.ok none)), .client .next, .client .next, .client .next]

theorem body_end_to_end_splitRun :
    ∃ s, (machine [7, 8, 9] ⟨1, 0⟩).run splitRun = some s ∧ some (.ok none) ∈ s.client.got ∧
      EndToEnd [7, 8, 9] ⟨1, 0⟩ splitRun s :=
  ⟨_, rfl, by decide, body_end_to_end rfl⟩

end Nwep.Runtime.StreamPath
