import Nwep.Runtime.StreamEnd

/-!
# The key a managed stream is verified against

The owner thread asks for the peer's key once, after it reported the metadata
(`nwep/src/runtime.rs` 697), and passes it to `stream.verify` at the end (707). When
`peer_pubkey` fails it goes on with thirty-two zero bytes.

Results:
* `keyed_run`: the owner asks once, and holds the answer or the zero bytes from then on;
* `verify_answer`: a signature is checked against what the owner holds;
* **`key_trusted_iff`**: the key is the peer's exactly in the runs in which `peer_pubkey` succeeds or
  no signature is checked;
* **`zero_key_verified`**: the end of a stream verified against the zero bytes.
-/

namespace Nwep.Runtime.Stream

open Nwep.Client Nwep.Lib

/-- What `peer_pubkey` answered. -/
def Act.peerKey : Act → Option (Result Bytes)
  | .peer rc key => some (peerPubkey rc key)
  | _ => none

/-- What `peer_pubkey` answered, in order. -/
def peerKeys (acts : List Act) : List (Result Bytes) := acts.filterMap Act.peerKey

theorem peerKeys_snoc (acts : List Act) (a : Act) :
    peerKeys (acts ++ [a]) = peerKeys acts ++ a.peerKey.toList := by
  unfold peerKeys
  rw [List.filterMap_append]
  cases h : a.peerKey <;> simp [h]

/-- A signature is checked against the key of the peer only, and without it no verified end is
delivered. -/
structure KeyTrusted (acts : List Act) (s : State) : Prop where
  checked   : ∀ pre key rc post, acts = pre ++ .verify key rc :: post → .ok key ∈ peerKeys pre
  delivered : ∀ e, .error e ∈ peerKeys acts → some (.ok none) ∉ s.got

/-- The owner is not past `peer_pubkey`. -/
def Pc.unkeyed : Pc → Bool
  | .connect => true
  | .openStream => true
  | .response => true
  | .ready => true
  | .peer => true
  | _ => false

/-- The owner asks for the key once, and holds it, or the zero bytes, while it reads. -/
structure Keyed (acts : List Act) (s : State) : Prop where
  before : s.pc.unkeyed = true → peerKeys acts = []
  once   : (peerKeys acts).length ≤ 1
  after  : s.pc.unkeyed = false → s.pc ≠ .returned →
    ∃ r : Result Bytes, peerKeys acts = [r] ∧ s.peer = r.toOption.getD zeroKey

/-- A step that neither asks for the key nor gets the owner past that point. -/
theorem Keyed.keep {acts : List Act} {s t : State} {a : Act} (h : Keyed acts s)
    (ha : a.peerKey = none) (hb : t.pc.unkeyed = true → s.pc.unkeyed = true)
    (hp : t.pc.unkeyed = false → t.pc ≠ .returned →
      (s.pc.unkeyed = false ∧ s.pc ≠ .returned) ∧ t.peer = s.peer) : Keyed (acts ++ [a]) t := by
  have hk : peerKeys (acts ++ [a]) = peerKeys acts := by rw [peerKeys_snoc, ha]; simp
  constructor
  · intro hu
    rw [hk]
    exact h.before (hb hu)
  · rw [hk]
    exact h.once
  · intro hu hr
    obtain ⟨⟨hu', hr'⟩, hpeer⟩ := hp hu hr
    rw [hk, hpeer]
    exact h.after hu' hr'

theorem keyed_step {acts : List Act} {s t : State} {a : Act} (h : Keyed acts s)
    (hs : Step s a t) : Keyed (acts ++ [a]) t := by
  cases hs with
  | connect hpc | openStream hpc | response hpc | sendReady hpc _ =>
    exact h.keep rfl (fun _ => by rw [hpc]; rfl) fun hu => absurd hu (by simp [Pc.unkeyed])
  | connectErr _ | openErr _ | responseErr _ | callerGone _ _ | finish _ =>
    exact h.keep rfl (fun hu => absurd hu (by simp [State.fail, Pc.unkeyed]))
      fun _ hr => absurd rfl hr
  | @peer rc key hpc =>
    have hnil := h.before (by rw [hpc]; rfl)
    have hk : peerKeys (acts ++ [.peer rc key]) = [peerPubkey rc key] := by
      rw [peerKeys_snoc, hnil]
      rfl
    refine ⟨fun hu => absurd hu (by simp [Pc.unkeyed]), ?_, fun _ _ => ⟨_, hk, rfl⟩⟩
    rw [hk]
    exact Nat.le_refl 1
  | @recv a buf n ended hpc _ _ =>
    refine h.keep rfl (fun hu => ?_) fun _ _ => ⟨by rw [hpc]; exact ⟨rfl, by simp⟩, rfl⟩
    refine absurd hu ?_
    unfold afterRecv
    split
    · cases ended <;> simp [Pc.unkeyed]
    · simp [Pc.unkeyed]
  | recvPanic hpc _ _ | recvErr hpc _ | pushLast hpc _ | verify hpc =>
    exact h.keep rfl (fun hu => absurd hu (by simp [Pc.unkeyed]))
      fun _ _ => ⟨by rw [hpc]; exact ⟨rfl, by simp⟩, rfl⟩
  | @pushChunk chunk ended ch hpc _ =>
    refine h.keep rfl (fun hu => ?_) fun _ _ => ⟨by rw [hpc]; exact ⟨rfl, by simp⟩, rfl⟩
    cases ended <;> exact absurd hu (by simp [Pc.unkeyed])
  | pushFails hpc _ =>
    refine h.keep rfl (fun hu => absurd hu (by simp [Pc.unkeyed])) fun _ _ => ⟨?_, rfl⟩
    rcases hpc with ⟨_, _, hpc⟩ | ⟨_, hpc⟩ <;> rw [hpc] <;> exact ⟨rfl, by simp⟩
  | receiveOk _ _ | receiveErr _ _ | nextItem _ _ | nextClosed _ _ | drop _ =>
    exact h.keep rfl id fun hu hr => ⟨⟨hu, hr⟩, rfl⟩

/-- **The owner asks for the key once**, in every run. -/
theorem keyed_run {acts : List Act} {s : State} (h : machine.run acts = some s) : Keyed acts s := by
  refine machine.run_induction (P := Keyed) ?_ (fun _ _ _ _ _ hp hst => keyed_step hp (step_inv hst))
    h
  exact ⟨fun _ => rfl, Nat.zero_le 1, fun hu => absurd hu (by simp [machine, init, Pc.unkeyed])⟩

/-- **What a signature is checked against**: the answer of `peer_pubkey`, or the zero bytes. -/
theorem verify_answer {pre post : List Act} {key : Bytes} {rc : CInt} {s : State}
    (h : machine.run (pre ++ .verify key rc :: post) = some s) :
    ∃ r : Result Bytes, peerKeys pre = [r] ∧ key = r.toOption.getD zeroKey := by
  obtain ⟨u, hu, hrest⟩ := machine.run_append.mp h
  obtain ⟨v, hv, -⟩ := machine.runFrom_cons.mp hrest
  have hstep : Step u (.verify key rc) v := step_inv hv
  cases hstep with
  | verify hpc => exact (keyed_run hu).after (by rw [hpc]; rfl) (by rw [hpc]; simp)

theorem peerKeys_append (acts more : List Act) :
    peerKeys (acts ++ more) = peerKeys acts ++ peerKeys more := by
  unfold peerKeys
  rw [List.filterMap_append]

/-- A key known at some point is the only answer of the run. -/
theorem peerKeys_of_split {pre post : List Act} {s : State} {r : Result Bytes}
    (h : machine.run (pre ++ post) = some s) (hk : peerKeys pre = [r]) :
    peerKeys (pre ++ post) = [r] := by
  have honce := (keyed_run h).once
  rw [peerKeys_append, hk] at honce ⊢
  have hnil : (peerKeys post).length = 0 := by
    rw [List.length_append, List.length_singleton] at honce
    omega
  rw [List.length_eq_zero_iff.mp hnil]
  rfl

/-- The explicit end is delivered only after a signature check. -/
theorem verify_of_end {acts : List Act} {s : State} (h : machine.run acts = some s)
    (hend : some (.ok none) ∈ s.got) : ∃ key rc, .verify key rc ∈ acts := by
  have hsent := (delivers_run h).inOrder.subset (List.mem_filterMap.mpr ⟨_, hend, rfl⟩)
  obtain ⟨pre, key, rc, post, r, rfl, -, -⟩ := ((checked_run h).arrived (.ok ()) hsent).1 rfl
  exact ⟨key, rc, List.mem_append_right pre List.mem_cons_self⟩

/-- **The key is the peer's** exactly in the runs in which `peer_pubkey` succeeds or no signature is
checked. -/
theorem key_trusted_iff {acts : List Act} {s : State} (h : machine.run acts = some s) :
    KeyTrusted acts s ↔
      (∀ e, .error e ∉ peerKeys acts) ∨ ∀ key rc, .verify key rc ∉ acts := by
  constructor
  · intro ht
    by_cases hv : ∃ key rc, Act.verify key rc ∈ acts
    · obtain ⟨key, rc, hm⟩ := hv
      obtain ⟨pre, post, rfl⟩ := List.append_of_mem hm
      obtain ⟨r, hr, -⟩ := verify_answer h
      have hok := ht.checked pre key rc post rfl
      rw [hr, List.mem_singleton] at hok
      refine Or.inl fun e he => ?_
      rw [peerKeys_of_split h hr, List.mem_singleton, ← hok] at he
      exact absurd he (by simp)
    · exact Or.inr fun key rc hm => hv ⟨key, rc, hm⟩
  · intro hc
    constructor
    · rintro pre key rc post rfl
      obtain ⟨r, hr, hkey⟩ := verify_answer h
      rcases hc with hok | hno
      · cases r with
        | ok k =>
          obtain rfl : key = k := hkey
          exact hr ▸ List.mem_singleton_self _
        | error e =>
          refine absurd ?_ (hok e)
          rw [peerKeys_of_split h hr]
          exact List.mem_singleton_self _
      · exact absurd (List.mem_append_right pre List.mem_cons_self) (hno key rc)
    · intro e he hend
      rcases hc with hok | hno
      · exact hok e he
      · obtain ⟨key, rc, hm⟩ := verify_of_end h hend
        exact hno key rc hm

theorem key_trusted_iff_verifiedRun :
    ∃ s, machine.run verifiedRun = some s ∧ peerKeys verifiedRun = [.ok [5]] ∧
      KeyTrusted verifiedRun s := by
  refine ⟨_, rfl, rfl, (key_trusted_iff rfl).mpr (Or.inl fun e he => ?_)⟩
  have heq : (.error e : Result Bytes) = .ok [5] := List.mem_singleton.mp he
  exact absurd heq (by simp)

/-- The connection drops right after the metadata, with the body already here. -/
def droppedRun : List Act :=
  [.connect (.ok ()), .openStream (.ok ()), .response (.ok ()), .sendReady, .receive,
   .peer (-203) [], .recv ⟨0, [1], 1, 1⟩, .push (.ok (some [1])), .verify zeroKey 0,
   .push (.ok none), .next, .next]

/-- **A verified end without the peer's key**: the signature is checked against the zero bytes. -/
theorem zero_key_verified :
    ∃ s, machine.run droppedRun = some s ∧ s.got = [some (.ok (some [1])), some (.ok none)] ∧
      ¬ KeyTrusted droppedRun s := by
  refine ⟨_, rfl, rfl, fun h => ?_⟩
  exact h.delivered .networkClosed (by decide) (by decide)

end Nwep.Runtime.Stream
