import Nwep.Identity
import Nwep.LogServer

/-!
# Packing the inputs of a quorum

Model of `BlsKeypair::generate` (`nwep/src/trust/bls.rs` 57-63), `genesis_checkpoint`
(`nwep/src/trust/checkpoint.rs` 92-146), `finish_checkpoint` (`nwep/src/trust/anchor.rs` 230-268) and
`AnchorNode::dispatch` (143-173). The C side is a function from calls to answers; the two calls of a
sizing differ in `out`.

`genesis_checkpoint` copies each founder's keys to its offset in buffers allocated before; the other
two append. None stands for a panic of the slices.

Results:
* `copyFounders_eq`: the copies stay in bounds, and the buffers are the keys one after the other;
* `genesis_valid`, `finish_valid`: the calls made, and with what;
* **`quorum_packed`**: on valid input the sizing call and, where it succeeds, the real call are made,
  and every call gets, slot by slot, what belongs to one founder, partial or anchor.
-/

namespace Nwep.Trust

open Nwep.Lib Nwep.Server

/-- `BlsKeypair`. -/
structure BlsKeypair where
  secret    : Octets 32
  publicKey : Octets 48
  deriving DecidableEq

/-- The C call of `BlsKeypair::generate`. -/
inductive BlsCall
  | keygen
  deriving DecidableEq

/-- `BlsKeypair::generate`, when the call answers `rc` and writes the keys. The arrays are `Copy`:
the returned value is a copy of them. -/
def BlsKeypair.generate (rc : CInt) (secret publicKey : Bytes) : Ran Error BlsCall BlsKeypair :=
  let secret := received 32 secret
  let publicKey := received 48 publicKey
  let cells := [.secret secret.1, .plain publicKey.1]
  match Error.check rc with
  | .error e => ⟨.error e, [.keygen], cells⟩
  | .ok _ => ⟨.ok ⟨secret, publicKey⟩, [.keygen], cells⟩

/-! ## The genesis checkpoint -/

/-- `nwep_genesis_checkpoint_create`. `out` is the capacity of the buffer, none for null. -/
structure GenesisCall where
  secrets   : Bytes
  pubkeys   : Bytes
  indices   : Bytes
  nFounders : Nat
  threshold : Nat
  out       : Option Nat
  deriving DecidableEq

/-- The loop that copies the founders' keys, from founder `i` on. -/
def copyFounders : List (BlsKeypair × UInt8) → Nat → Bytes → Bytes → Bytes →
    Option (Bytes × Bytes × Bytes)
  | [], _, secrets, pubkeys, indices => some (secrets, pubkeys, indices)
  | (kp, index) :: founders, i, secrets, pubkeys, indices => do
    let secrets ← copyAt secrets (i * 32) kp.secret.1
    let pubkeys ← copyAt pubkeys (i * 48) kp.publicKey.1
    -- `indices[i] = *index`
    let indices ← copyAt indices i [index]
    copyFounders founders (i + 1) secrets pubkeys indices

/-- `genesis_checkpoint`. -/
def genesisCheckpoint (c : GenesisCall → OutAnswer) (founders : List (BlsKeypair × UInt8))
    (threshold : Nat) : Option (Ran Error GenesisCall Bytes) :=
  if founders = [] ∨ threshold = 0 ∨ founders.length < threshold then
    some ⟨.error .configInvalid, [], []⟩
  else do
    let n := founders.length
    let (secrets, pubkeys, indices) ← copyFounders founders 0 (List.replicate (n * 32) 0)
      (List.replicate (n * 48) 0) (List.replicate n 0)
    let probe : GenesisCall := ⟨secrets, pubkeys, indices, n, threshold, none⟩
    let cells := [(Cell.secret secrets).wipe, .plain pubkeys, .plain indices]
    match Error.check (c probe).rc with
    | .error e => some ⟨.error e, [probe], cells⟩
    | .ok _ =>
      let len := (c probe).len
      let real : GenesisCall := { probe with out := some len }
      let out := (Cell.new len).receive (c real).written false
      match Error.check (c real).rc with
      | .error e => some ⟨.error e, [probe, real], cells ++ [out]⟩
      | .ok _ => some ⟨.ok (out.bytes.take (c real).len), [probe, real], cells⟩

/-! ## The aggregate checkpoint -/

/-- `PartialSig`. -/
structure PartialSig where
  index : UInt8
  sig   : Octets 96
  deriving DecidableEq

/-- `nwep_anchor_finish_checkpoint`. -/
structure FinishCall where
  epoch      : Nat
  merkleRoot : Octets 32
  logSize    : Nat
  indices    : Bytes
  sigs       : Bytes
  nPartials  : Nat
  anchorPks  : Bytes
  nAnchors   : Nat
  out        : Option Nat
  deriving DecidableEq

/-- The loop that gathers the partials. -/
def gatherPartials : List PartialSig → Bytes → Bytes → Bytes × Bytes
  | [], indices, sigs => (indices, sigs)
  | p :: partials, indices, sigs => gatherPartials partials (indices ++ [p.index]) (sigs ++ p.sig.1)

/-- `finish_checkpoint`. An array of arrays is flat in memory. -/
def finishCheckpoint (c : FinishCall → OutAnswer) (epoch : Nat) (merkleRoot : Octets 32)
    (logSize : Nat) (partials : List PartialSig) (anchorBlsPubkeys : List (Octets 48)) :
    Ran Error FinishCall Bytes :=
  if partials = [] ∨ anchorBlsPubkeys = [] then ⟨.error .configInvalid, [], []⟩
  else
    let (indices, sigs) := gatherPartials partials [] []
    let call (out : Option Nat) : FinishCall :=
      ⟨epoch, merkleRoot, logSize, indices, sigs, partials.length,
        (anchorBlsPubkeys.map Subtype.val).flatten, anchorBlsPubkeys.length, out⟩
    let cells := [.plain indices, .plain sigs]
    match Error.check (c (call none)).rc with
    | .error e => ⟨.error e, [call none], cells⟩
    | .ok _ =>
      let len := (c (call none)).len
      let out := (Cell.new len).receive (c (call (some len))).written false
      match Error.check (c (call (some len))).rc with
      | .error e => ⟨.error e, [call none, call (some len)], cells ++ [out]⟩
      | .ok _ =>
        ⟨.ok (out.bytes.take (c (call (some len))).len), [call none, call (some len)], cells⟩

/-! ## The anchor's handler -/

/-- `nwep_anchor_node_dispatch`. -/
structure DispatchCall where
  requester : Identity.NodeId
  anchorIds : Bytes
  nAnchors  : Nat
  req       : Ptr
  resp      : Ptr
  nowSecs   : Int
  deriving DecidableEq

/-- `AnchorNode::dispatch`, when the call answers `rc`. -/
def AnchorNode.dispatch (requester : Identity.NodeId) (anchorIds : List Identity.NodeId)
    (req : Request) (res : Responder) (nowSecs : Int) (rc : CInt) :
    LogServer.DispatchOutcome × DispatchCall :=
  let ids := anchorIds.foldl (fun ids id => ids ++ id.1) []
  (LogServer.dispatchOutcome res rc,
    ⟨requester, ids, anchorIds.length, req.msg, res.buf, nowSecs⟩)

/-! ## What is packed -/

/-- **The copies stay in bounds**: founder `i` is copied to the end of what the founders before it
filled, and the buffers are filled exactly. -/
theorem copyFounders_eq (founders : List (BlsKeypair × UInt8)) :
    ∀ {i : Nat} {secrets pubkeys indices : Bytes}, secrets.length = i * 32 →
      pubkeys.length = i * 48 → indices.length = i →
      copyFounders founders i (secrets ++ List.replicate (founders.length * 32) 0)
          (pubkeys ++ List.replicate (founders.length * 48) 0)
          (indices ++ List.replicate founders.length 0) =
        some (secrets ++ (founders.map fun f => f.1.secret.1).flatten,
          pubkeys ++ (founders.map fun f => f.1.publicKey.1).flatten,
          indices ++ founders.map Prod.snd) := by
  induction founders with
  | nil =>
    intro i secrets pubkeys indices _ _ _
    simp [copyFounders]
  | cons f founders ih =>
    intro i secrets pubkeys indices hs hp hi
    obtain ⟨kp, index⟩ := f
    have hs' : (secrets ++ kp.secret.1).length = (i + 1) * 32 := by
      rw [List.length_append, hs, kp.secret.2, Nat.succ_mul]
    have hp' : (pubkeys ++ kp.publicKey.1).length = (i + 1) * 48 := by
      rw [List.length_append, hp, kp.publicKey.2, Nat.succ_mul]
    have hi' : (indices ++ [index]).length = i + 1 := by rw [List.length_append, hi]; rfl
    have hone : [index].length = 1 := rfl
    have hcopy := copyAt_blank 0 founders.length hi hone
    rw [Nat.mul_one, Nat.mul_one] at hcopy
    rw [List.length_cons, copyFounders, copyAt_blank 0 founders.length hs kp.secret.2,
      copyAt_blank 0 founders.length hp kp.publicKey.2]
    simp only [Option.bind_eq_bind, Option.bind_some, hcopy]
    rw [ih hs' hp' hi']
    simp

/-- The loop over the partials appends to both arrays at once. -/
theorem gatherPartials_eq (partials : List PartialSig) :
    ∀ indices sigs, gatherPartials partials indices sigs =
      (indices ++ partials.map (·.index), sigs ++ (partials.map fun p => p.sig.1).flatten) := by
  induction partials with
  | nil =>
    intro indices sigs
    simp [gatherPartials]
  | cons p partials ih =>
    intro indices sigs
    rw [gatherPartials, ih]
    simp

/-! ## The calls -/

section Sized

variable {κ : Type}

/-- The sizing call and, where it succeeds, the same call with a buffer of the size it reported. -/
def sizedCalls (c : κ → OutAnswer) (f : Option Nat → κ) : List κ :=
  f none :: if 0 ≤ (c (f none)).rc then [f (some (c (f none)).len)] else []

variable {c : κ → OutAnswer} {f : Option Nat → κ}

theorem sizedCalls_ok {u : Unit} (h : Error.check (c (f none)).rc = .ok u) :
    sizedCalls c f = [f none, f (some (c (f none)).len)] := by
  rw [sizedCalls, if_pos (Error.check_eq_ok.mp h)]

theorem sizedCalls_error {e : Error} (h : Error.check (c (f none)).rc = .error e) :
    sizedCalls c f = [f none] := by
  rw [sizedCalls, if_neg (Error.neg_of_check h)]

/-- Both are the same call but for the buffer. -/
theorem eq_of_mem_sizedCalls {k : κ} (h : k ∈ sizedCalls c f) : ∃ out, k = f out := by
  unfold sizedCalls at h
  split at h
  · rcases List.mem_pair.mp h with rfl | rfl
    · exact ⟨none, rfl⟩
    · exact ⟨some _, rfl⟩
  · exact ⟨none, List.mem_singleton.mp h⟩

end Sized

/-- A threshold of a network with founders. -/
def ValidGenesis (founders : List (BlsKeypair × UInt8)) (threshold : Nat) : Prop :=
  founders ≠ [] ∧ 0 < threshold ∧ threshold ≤ founders.length

/-- The call for these founders. -/
def genesisCall (founders : List (BlsKeypair × UInt8)) (threshold : Nat) (out : Option Nat) :
    GenesisCall :=
  ⟨(founders.map fun f => f.1.secret.1).flatten, (founders.map fun f => f.1.publicKey.1).flatten,
    founders.map Prod.snd, founders.length, threshold, out⟩

theorem genesis_invalid (c : GenesisCall → OutAnswer) {founders : List (BlsKeypair × UInt8)}
    {threshold : Nat} (h : ¬ ValidGenesis founders threshold) :
    genesisCheckpoint c founders threshold = some ⟨.error .configInvalid, [], []⟩ := by
  unfold genesisCheckpoint
  rw [if_pos]
  unfold ValidGenesis at h
  by_cases hf : founders = []
  · exact .inl hf
  · refine .inr ?_
    by_contra hn
    refine h ⟨hf, ?_⟩
    omega

/-- The calls of a ceremony, and that no secret is left in its buffers. -/
theorem genesis_valid (c : GenesisCall → OutAnswer) {founders : List (BlsKeypair × UInt8)}
    {threshold : Nat} (h : ValidGenesis founders threshold) :
    ∃ ran, genesisCheckpoint c founders threshold = some ran ∧
      ran.calls = sizedCalls c (genesisCall founders threshold) ∧ AllWiped ran.cells := by
  obtain ⟨hf, hpos, hle⟩ := h
  have hguard : ¬ (founders = [] ∨ threshold = 0 ∨ founders.length < threshold) := by
    rintro (h | h | h)
    · exact hf h
    · omega
    · omega
  have hcopy := @copyFounders_eq founders 0 [] [] [] rfl rfl rfl
  simp only [List.nil_append] at hcopy
  have hwiped (rest : List Cell) (hrest : AllWiped rest) :
      AllWiped ([(Cell.secret (founders.map fun f => f.1.secret.1).flatten).wipe,
        .plain (founders.map fun f => f.1.publicKey.1).flatten,
        .plain (founders.map Prod.snd)] ++ rest) :=
    allWiped_cons.mpr ⟨Cell.wipe_wiped _, allWiped_cons.mpr ⟨Cell.plain_wiped _,
      allWiped_cons.mpr ⟨Cell.plain_wiped _, hrest⟩⟩⟩
  unfold genesisCheckpoint
  rw [if_neg hguard]
  simp only [hcopy, Option.bind_eq_bind, Option.bind_some]
  cases hprobe : Error.check (c ⟨_, _, _, _, _, none⟩).rc with
  | error e => exact ⟨_, rfl, (sizedCalls_error hprobe).symm, hwiped [] allWiped_nil⟩
  | ok _ =>
    have hcalls := sizedCalls_ok (f := genesisCall founders threshold) hprobe
    simp only
    cases Error.check (c ⟨_, _, _, _, _, some _⟩).rc with
    | error e =>
      exact ⟨_, rfl, hcalls.symm, hwiped _ (allWiped_cons.mpr
        ⟨Cell.new_receive_plain _ _, allWiped_nil⟩)⟩
    | ok _ => exact ⟨_, rfl, hcalls.symm, hwiped [] allWiped_nil⟩

/-- The call for these partials. -/
def finishCall (epoch : Nat) (merkleRoot : Octets 32) (logSize : Nat) (partials : List PartialSig)
    (anchorBlsPubkeys : List (Octets 48)) (out : Option Nat) : FinishCall :=
  ⟨epoch, merkleRoot, logSize, partials.map (·.index), (partials.map fun p => p.sig.1).flatten,
    partials.length, (anchorBlsPubkeys.map Subtype.val).flatten, anchorBlsPubkeys.length, out⟩

theorem finish_invalid (c : FinishCall → OutAnswer) (epoch : Nat) (merkleRoot : Octets 32)
    (logSize : Nat) {partials : List PartialSig} {anchorBlsPubkeys : List (Octets 48)}
    (h : partials = [] ∨ anchorBlsPubkeys = []) :
    finishCheckpoint c epoch merkleRoot logSize partials anchorBlsPubkeys =
      ⟨.error .configInvalid, [], []⟩ := by
  unfold finishCheckpoint
  rw [if_pos h]

theorem finish_valid (c : FinishCall → OutAnswer) (epoch : Nat) (merkleRoot : Octets 32)
    (logSize : Nat) {partials : List PartialSig} {anchorBlsPubkeys : List (Octets 48)}
    (h : ¬ (partials = [] ∨ anchorBlsPubkeys = [])) :
    (finishCheckpoint c epoch merkleRoot logSize partials anchorBlsPubkeys).calls =
      sizedCalls c (finishCall epoch merkleRoot logSize partials anchorBlsPubkeys) := by
  unfold finishCheckpoint
  rw [if_neg h]
  simp only [gatherPartials_eq, List.nil_append]
  cases hprobe : Error.check (c ⟨_, _, _, _, _, _, _, _, none⟩).rc with
  | error e => exact (sizedCalls_error hprobe).symm
  | ok _ =>
    have hcalls := sizedCalls_ok
      (f := finishCall epoch merkleRoot logSize partials anchorBlsPubkeys) hprobe
    simp only
    cases Error.check (c ⟨_, _, _, _, _, _, _, _, some _⟩).rc with
    | error e => exact hcalls.symm
    | ok _ => exact hcalls.symm

/-! ## Slot by slot -/

/-- The slots of a genesis call are the founders. -/
structure GenesisCall.Packs (call : GenesisCall) (founders : List (BlsKeypair × UInt8)) : Prop where
  count   : call.nFounders = founders.length
  lengths : call.secrets.length = founders.length * 32 ∧
    call.pubkeys.length = founders.length * 48 ∧ call.indices.length = founders.length
  slots   : ∀ i kp index, founders[i]? = some (kp, index) →
    slot 32 i call.secrets = kp.secret.1 ∧ slot 48 i call.pubkeys = kp.publicKey.1 ∧
      slot 1 i call.indices = [index]

/-- The slots of a finish call are the partials and the anchors' keys. -/
structure FinishCall.Packs (call : FinishCall) (partials : List PartialSig)
    (anchorBlsPubkeys : List (Octets 48)) : Prop where
  counts  : call.nPartials = partials.length ∧ call.nAnchors = anchorBlsPubkeys.length
  lengths : call.indices.length = partials.length ∧ call.sigs.length = partials.length * 96 ∧
    call.anchorPks.length = anchorBlsPubkeys.length * 48
  slots   : ∀ i p, partials[i]? = some p →
    slot 1 i call.indices = [p.index] ∧ slot 96 i call.sigs = p.sig.1
  anchors : ∀ i pk, anchorBlsPubkeys[i]? = some pk → slot 48 i call.anchorPks = pk.1

section Slots

variable {α β : Type} {w : Nat}

/-- Fixed arrays packed one after the other. -/
theorem octets_width (l : List α) (f : α → Octets w) :
    ∀ r ∈ l.map fun a => (f a).1, r.length = w := by
  intro r hr
  obtain ⟨a, -, rfl⟩ := List.mem_map.mp hr
  exact (f a).2

theorem octets_slot {l : List α} (f : α → Octets w) {i : Nat} {a : α} (h : l[i]? = some a) :
    slot w i (l.map fun a => (f a).1).flatten = (f a).1 :=
  slot_flatten (octets_width l f) (by rw [List.getElem?_map, h]; rfl)

theorem octets_length (l : List α) (f : α → Octets w) :
    (l.map fun a => (f a).1).flatten.length = l.length * w := by
  rw [flatten_length (octets_width l f), List.length_map]

/-- One byte an item. -/
theorem byte_slot {l : List α} (f : α → β) {i : Nat} {a : α} (h : l[i]? = some a) :
    slot 1 i (l.map f) = [f a] := by
  obtain ⟨hi, rfl⟩ := List.getElem?_eq_some_iff.mp h
  have hi' : i < (l.map f).length := by rw [List.length_map]; exact hi
  unfold slot
  rw [Nat.mul_one, List.drop_eq_getElem_cons hi']
  simp

end Slots

theorem genesisCall_packs (founders : List (BlsKeypair × UInt8)) (threshold : Nat)
    (out : Option Nat) : (genesisCall founders threshold out).Packs founders where
  count := rfl
  lengths := ⟨octets_length founders fun f => f.1.secret,
    octets_length founders fun f => f.1.publicKey, List.length_map _⟩
  slots := fun _ _ _ h => ⟨octets_slot (fun f => f.1.secret) h,
    octets_slot (fun f => f.1.publicKey) h, byte_slot Prod.snd h⟩

theorem finishCall_packs (epoch : Nat) (merkleRoot : Octets 32) (logSize : Nat)
    (partials : List PartialSig) (anchorBlsPubkeys : List (Octets 48)) (out : Option Nat) :
    (finishCall epoch merkleRoot logSize partials anchorBlsPubkeys out).Packs partials
      anchorBlsPubkeys where
  counts := ⟨rfl, rfl⟩
  lengths := ⟨List.length_map _, octets_length partials fun p => p.sig,
    octets_length anchorBlsPubkeys id⟩
  slots := fun _ _ h => ⟨byte_slot (fun p : PartialSig => p.index) h,
    octets_slot (fun p => p.sig) h⟩
  anchors := fun _ _ h => octets_slot id h

/-- The ids are appended one after the other. -/
theorem dispatch_ids (anchorIds : List Identity.NodeId) :
    anchorIds.foldl (fun ids id => ids ++ id.1) [] = (anchorIds.map Subtype.val).flatten := by
  rw [List.foldl_append_eq_append]
  rfl

/-- **Quorum inputs are packed without loss or misalignment**: for each of the three functions, which
calls are made, and with what in each slot. Valid input leads to the sizing call and, where it
succeeds, to the real call. -/
theorem quorum_packed (cg : GenesisCall → OutAnswer) (founders : List (BlsKeypair × UInt8))
    (threshold : Nat) (cf : FinishCall → OutAnswer) (epoch : Nat) (merkleRoot : Octets 32)
    (logSize : Nat) (partials : List PartialSig) (anchorBlsPubkeys : List (Octets 48))
    (requester : Identity.NodeId) (anchorIds : List Identity.NodeId) (req : Request)
    (res : Responder) (nowSecs : Int) (rc : CInt) :
    (∃ ran, genesisCheckpoint cg founders threshold = some ran ∧
      (∀ call ∈ ran.calls, call.Packs founders ∧ call.threshold = threshold) ∧
      (founders ≠ [] ∧ 0 < threshold ∧ threshold ≤ founders.length →
        ran.calls = sizedCalls cg (genesisCall founders threshold)) ∧
      (ran.result = .error .configInvalid ∧ ran.calls = [] ↔
        founders = [] ∨ threshold = 0 ∨ founders.length < threshold)) ∧
    (let ran := finishCheckpoint cf epoch merkleRoot logSize partials anchorBlsPubkeys
     (∀ call ∈ ran.calls, call.Packs partials anchorBlsPubkeys) ∧
      (partials ≠ [] ∧ anchorBlsPubkeys ≠ [] →
        ran.calls =
          sizedCalls cf (finishCall epoch merkleRoot logSize partials anchorBlsPubkeys)) ∧
      (ran.result = .error .configInvalid ∧ ran.calls = [] ↔
        partials = [] ∨ anchorBlsPubkeys = [])) ∧
    (let call := (AnchorNode.dispatch requester anchorIds req res nowSecs rc).2
     chunks 32 call.anchorIds = anchorIds.map Subtype.val ∧
      call.nAnchors = anchorIds.length) := by
  refine ⟨?_, ?_, ?_⟩
  · by_cases hv : ValidGenesis founders threshold
    · obtain ⟨ran, hran, hcalls, -⟩ := genesis_valid cg hv
      refine ⟨ran, hran, ?_, fun _ => hcalls, ?_⟩
      · intro call hcall
        rw [hcalls] at hcall
        obtain ⟨out, rfl⟩ := eq_of_mem_sizedCalls hcall
        exact ⟨genesisCall_packs founders threshold out, rfl⟩
      · refine iff_of_false (fun h => absurd (hcalls.symm.trans h.2) (List.cons_ne_nil _ _)) ?_
        rintro (h | h | h)
        · exact hv.1 h
        · exact absurd hv.2.1 (by omega)
        · exact absurd hv.2.2 (by omega)
    · refine ⟨_, genesis_invalid cg hv, fun _ h => absurd h List.not_mem_nil,
        fun h => absurd h hv, ?_⟩
      refine iff_of_true ⟨rfl, rfl⟩ ?_
      by_contra hn
      refine hv ⟨fun h => hn (.inl h), ?_⟩
      omega
  · by_cases hv : partials = [] ∨ anchorBlsPubkeys = []
    · rw [finish_invalid cf epoch merkleRoot logSize hv]
      exact ⟨fun _ h => absurd h List.not_mem_nil, fun h => absurd hv (not_or.mpr h),
        iff_of_true ⟨rfl, rfl⟩ hv⟩
    · have hcalls := finish_valid cf epoch merkleRoot logSize hv
      refine ⟨?_, fun _ => hcalls,
        iff_of_false (fun h => absurd (hcalls.symm.trans h.2) (List.cons_ne_nil _ _)) hv⟩
      intro call hcall
      rw [hcalls] at hcall
      obtain ⟨out, rfl⟩ := eq_of_mem_sizedCalls hcall
      exact finishCall_packs epoch merkleRoot logSize partials anchorBlsPubkeys out
  · refine ⟨?_, rfl⟩
    simp only [AnchorNode.dispatch, dispatch_ids]
    exact chunks_flatten (by decide) (octets_width anchorIds id)

/-- A founder and a partial, with one byte repeated for each key. -/
def founder (b : UInt8) : BlsKeypair × UInt8 := (⟨received 32 [b], received 48 [b, b]⟩, b)

def partialSig (b : UInt8) : PartialSig := ⟨b, received 96 [b]⟩

/-- Two founders and two partials: the sizing call of the one ceremony succeeds, that of the other
fails. -/
theorem quorum_packed_twoFounders :
    (∃ ran, genesisCheckpoint (fun _ => ⟨0, [9], 1⟩) [founder 1, founder 2] 2 = some ran ∧
      ran.calls = [genesisCall [founder 1, founder 2] 2 none,
        genesisCall [founder 1, founder 2] 2 (some 1)] ∧
      ∀ call ∈ ran.calls, call.Packs [founder 1, founder 2]) ∧
    (finishCheckpoint (fun _ => ⟨-802, [], 0⟩) 5 (received 32 []) 7 [partialSig 1, partialSig 2]
        [received 48 [3]]).calls =
      [finishCall 5 (received 32 []) 7 [partialSig 1, partialSig 2] [received 48 [3]] none] := by
  obtain ⟨⟨ran, hran, hpacks, hmade, -⟩, ⟨-, hfinish, -⟩, -⟩ := quorum_packed (fun _ => ⟨0, [9], 1⟩)
    [founder 1, founder 2] 2 (fun _ => ⟨-802, [], 0⟩) 5 (received 32 []) 7
    [partialSig 1, partialSig 2] [received 48 [3]] (received 32 []) [] ⟨1, 2, 3, 4⟩
    ⟨1, 0, 2, 3, 4, []⟩ 0 0
  exact ⟨⟨ran, hran, hmade (by simp), fun call h => (hpacks call h).1⟩, hfinish (by simp)⟩

end Nwep.Trust
