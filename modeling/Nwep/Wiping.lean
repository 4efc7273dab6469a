import Nwep.Shamir
import Nwep.Trust.Quorum

/-!
# What the key functions leave behind

The nine functions that work on private keys, PEM text, founder secrets or shares, with the cells they
leave (`Lib/Buffers.lean`). The C side answers anything, and may have written before it failed.

`genesis_checkpoint` and `from_pem`'s second error path wipe before they return the error; the other
early returns through `?` do not, and the buffers the keys or shares are copied out of are freed as
they are.

Results:
* `generate_wiped` to `combine_wiped`: one lemma a function;
* **`wiped_iff`**: a use of one of the nine leaves nothing behind exactly when it takes none of these
  paths, or only zeros were stored;
* **`split_leaves_shares`**: a split that succeeds does.
-/

namespace Nwep.Wiping

open Nwep.Lib Nwep.Trust Nwep.Shamir

/-- One call of one of the nine functions, with everything its C calls answer. -/
inductive Use : Type 1
  | generate (a : KeyAnswer)
  | fromPem (pem : Bytes) (load : KeyAnswer) (derived : CInt) (nid : Bytes)
  | toPem (self : Identity) (a : OutAnswer)
  | withKeypair {α : Type} (self : Identity) (f : Octets 32 → Octets 32 → α)
  | withRawKeys {α : Type} (self : Identity) (f : Octets 32 → Octets 32 → α)
  | blsGenerate (rc : CInt) (secret publicKey : Bytes)
  | genesisCheckpoint (c : GenesisCall → OutAnswer) (founders : List (BlsKeypair × UInt8))
      (threshold : Nat)
  | split (c : CSide) (secret : Bytes) (t n : Nat)
  | combine (c : CSide) (shares : List Bytes)

/-- The cells the function leaves when it returns; none of it panics. -/
def Use.cells : Use → List Cell
  | .generate a => (Identity.generate a).cells
  | .fromPem pem load derived nid => (Identity.fromPem pem load derived nid).cells
  | .toPem self a => (self.toPem a).cells
  | .withKeypair self f => (self.withKeypair f).2
  | .withRawKeys self f => (self.withRawKeys f).2
  | .blsGenerate rc secret publicKey => (BlsKeypair.generate rc secret publicKey).cells
  | .genesisCheckpoint c founders threshold =>
    match Trust.genesisCheckpoint c founders threshold with
    | some ran => ran.cells
    | none => []
  | .split c secret t n => (Shamir.split c secret t n).cells
  | .combine c shares => (Shamir.combine c shares).cells

/-- The use takes no path that forgets the wipe, or only zeros were stored. -/
def Use.Clean : Use → Prop
  | .generate a => 0 ≤ a.rc ∨ Zero (a.priv.take 32)
  | .fromPem _ load _ _ => 0 ≤ load.rc ∨ Zero (load.priv.take 32)
  | .toPem _ a =>
    0 ≤ a.rc ∧ Identity.validUtf8 (Identity.pemText a) = true ∨ Zero (a.written.take 4096)
  | .withKeypair _ _ => True
  | .withRawKeys _ _ => True
  | .blsGenerate _ secret _ => Zero (secret.take 32)
  | .genesisCheckpoint _ _ _ => True
  | .split c secret t n =>
    InRange t n → 0 ≤ (c (.split secret t n none)).rc →
      Zero ((c (.split secret t n (some (c (.split secret t n none)).len))).written.take
        (c (.split secret t n none)).len)
  | .combine c shares =>
    Quorum shares → Zero shares.flatten ∧
      (0 ≤ (c (combineCall shares)).rc ∨
        Zero ((c (combineCall shares)).written.take ((shares.getD 0 []).length - 1)))

/-! ## One function at a time -/

theorem generate_wiped (a : KeyAnswer) :
    AllWiped (Identity.generate a).cells ↔ 0 ≤ a.rc ∨ Zero (a.priv.take 32) := by
  unfold Identity.generate
  rcases Error.check_cases a.rc with ⟨h, hc⟩ | ⟨h, e, hc⟩
  · simp only [hc, allWiped_cons, Cell.plain_wiped, Cell.wipe_wiped, allWiped_nil, h, true_or,
      and_self]
  · simp only [hc, allWiped_cons, Cell.plain_wiped, Cell.secret_wiped, zero_received,
      allWiped_nil, h, false_or, true_and, and_true]

theorem fromPem_wiped (pem : Bytes) (load : KeyAnswer) (derived : CInt) (nid : Bytes) :
    AllWiped (Identity.fromPem pem load derived nid).cells ↔
      0 ≤ load.rc ∨ Zero (load.priv.take 32) := by
  unfold Identity.fromPem
  rcases Error.check_cases load.rc with ⟨h, hc⟩ | ⟨h, e, hc⟩
  · -- whether the derivation fails or not
    rcases Error.check_cases derived with ⟨-, hd⟩ | ⟨-, e, hd⟩ <;>
      simp only [hc, hd, allWiped_cons, Cell.plain_wiped, Cell.wipe_wiped, allWiped_nil, h,
        true_or, and_self]
  · simp only [hc, allWiped_cons, Cell.plain_wiped, Cell.secret_wiped, zero_received,
      allWiped_nil, h, false_or, true_and, and_true]

theorem toPem_wiped (self : Identity) (a : OutAnswer) :
    AllWiped (self.toPem a).cells ↔
      0 ≤ a.rc ∧ Identity.validUtf8 (Identity.pemText a) = true ∨ Zero (a.written.take 4096) := by
  unfold Identity.toPem
  rcases Error.check_cases a.rc with ⟨h, hc⟩ | ⟨h, e, hc⟩
  · by_cases hv : Identity.validUtf8 (Identity.pemText a) = true
    · simp only [hc, hv, if_true, allWiped_cons, Cell.plain_wiped, Cell.wipe_wiped, allWiped_nil,
        h, true_or, and_self]
    · simp only [hc, hv, Bool.false_eq_true, if_false, List.cons_append, List.nil_append,
        allWiped_cons, Cell.plain_wiped, Cell.wipe_wiped, Cell.secret_wiped, zero_received,
        allWiped_nil, and_false, false_or, true_and, and_true]
  · simp only [hc, List.cons_append, List.nil_append, allWiped_cons, Cell.plain_wiped,
      Cell.wipe_wiped, Cell.secret_wiped, zero_received, allWiped_nil, h, false_and, false_or,
      true_and, and_true]

theorem blsGenerate_wiped (rc : CInt) (secret publicKey : Bytes) :
    AllWiped (BlsKeypair.generate rc secret publicKey).cells ↔ Zero (secret.take 32) := by
  unfold BlsKeypair.generate
  rcases Error.check_cases rc with ⟨-, hc⟩ | ⟨-, e, hc⟩ <;>
    simp only [hc, allWiped_cons, Cell.plain_wiped, Cell.secret_wiped, zero_received, allWiped_nil,
      and_true]

theorem genesis_wiped (c : GenesisCall → OutAnswer) (founders : List (BlsKeypair × UInt8))
    (threshold : Nat) : AllWiped (Use.genesisCheckpoint c founders threshold).cells := by
  by_cases h : ValidGenesis founders threshold
  · obtain ⟨ran, hran, -, hwiped⟩ := genesis_valid c h
    simp only [Use.cells, hran]
    exact hwiped
  · simp only [Use.cells, genesis_invalid c h]
    exact allWiped_nil

theorem split_wiped (c : CSide) (secret : Bytes) (t n : Nat) :
    AllWiped (Shamir.split c secret t n).cells ↔ (Use.split c secret t n).Clean := by
  unfold Use.Clean
  by_cases hr : InRange t n
  · have hguard : ¬ (¬ (2 ≤ n ∧ n ≤ 255) ∨ ¬ (2 ≤ t ∧ t ≤ n)) := by
      unfold InRange at hr
      omega
    unfold Shamir.split
    rw [if_neg hguard]
    rcases Error.check_cases (c (.split secret t n none)).rc with ⟨h, hc⟩ | ⟨h, e, hc⟩
    · -- the shares are copied out of `packed`, which is freed as it is either way
      rcases Error.check_cases (c (.split secret t n (some (c (.split secret t n none)).len))).rc with
        ⟨-, hd⟩ | ⟨-, e, hd⟩ <;>
      simp only [hc, hd, allWiped_cons, Cell.new_receive_wiped, allWiped_nil, and_true, hr, h,
        true_implies]
    · simp only [hc, h, false_implies, implies_true, allWiped_nil]
  · rw [split_out_of_range hr]
    simp only [hr, false_implies, allWiped_nil]

theorem combine_wiped (c : CSide) (shares : List Bytes) :
    AllWiped (Shamir.combine c shares).cells ↔ (Use.combine c shares).Clean := by
  unfold Use.Clean
  by_cases hq : Quorum shares
  · rw [combine_quorum hq]
    simp only
    rcases Error.check_cases (c (combineCall shares)).rc with ⟨h, hc⟩ | ⟨h, e, hc⟩
    · simp only [hc, allWiped_cons, Cell.secret_wiped, allWiped_nil, and_true, h, true_or,
        hq, true_implies]
    · simp only [hc, allWiped_cons, Cell.secret_wiped, Cell.new_receive_wiped, allWiped_nil,
        and_true, h, false_or, hq, true_implies]
  · rw [combine_not_quorum hq]
    simp only [hq, false_implies, allWiped_nil]

/-- **What is left behind**: a use of one of the nine functions leaves every buffer wiped exactly when
it is clean. -/
theorem wiped_iff (u : Use) : AllWiped u.cells ↔ u.Clean := by
  cases u with
  | generate a => exact generate_wiped a
  | fromPem pem load derived nid => exact fromPem_wiped pem load derived nid
  | toPem self a => exact toPem_wiped self a
  | withKeypair self f =>
    refine iff_of_true ?_ trivial
    exact allWiped_cons.mpr ⟨Cell.plain_wiped _, allWiped_cons.mpr
      ⟨Cell.wipe_wiped _, allWiped_nil⟩⟩
  | withRawKeys self f =>
    exact iff_of_true (allWiped_cons.mpr ⟨Cell.wipe_wiped _, allWiped_nil⟩) trivial
  | blsGenerate rc secret publicKey => exact blsGenerate_wiped rc secret publicKey
  | genesisCheckpoint c founders threshold =>
    exact iff_of_true (genesis_wiped c founders threshold) trivial
  | split c secret t n => exact split_wiped c secret t n
  | combine c shares => exact combine_wiped c shares

/-- A split that succeeds frees the packed shares as they are. -/
theorem split_leaves_shares : ¬ ∀ u : Use, AllWiped u.cells := by
  intro h
  have hclean := (split_wiped gf256 [7] 2 2).mp (h (.split gf256 [7] 2 2))
  exact absurd (hclean (by decide) (by decide)) (by decide +kernel)

end Nwep.Wiping
