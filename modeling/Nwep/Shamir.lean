import Mathlib.Data.List.Nodup
import Mathlib.Data.List.Perm.Subperm
import Mathlib.Data.List.Permutation
import Nwep.Lib.Buffers
import Nwep.Sys

/-!
# Shamir secret sharing

Model of `split` and `combine` (`nwep/src/shamir.rs`). The C side is a function from calls to answers:
`split` asks for the size and then for the shares, two calls with different arguments.

`nwep-sys/src/lib.rs` 105-124 says what it answers: `n` blobs of one index byte and the data, and the
secret again from any `t` of them. `Documented` asks this of the secret at hand.

Results:
* `split_ok`, `combine_ok`: what the wrappers return on a documented C side;
* `combine_short`: `combine` rejects shares without data;
* **`roundTrips_iff`**: so the wrappers round-trip exactly the secrets that are not empty.
-/

namespace Nwep.Shamir

open Nwep.Lib

/-- The C calls. `out` is the capacity of the buffer, none for null. -/
inductive ShamirCall
  | split (secret : Bytes) (t n : Nat) (out : Option Nat)
  | combine (shares : Bytes) (nShares shareLen outLen : Nat)
  deriving DecidableEq

/-- The C side. -/
abbrev CSide := ShamirCall → OutAnswer

/-- `split`. -/
def split (c : CSide) (secret : Bytes) (t n : Nat) : Ran Error ShamirCall (List Bytes) :=
  if ¬ (2 ≤ n ∧ n ≤ 255) ∨ ¬ (2 ≤ t ∧ t ≤ n) then ⟨.error .configInvalid, [], []⟩
  else
    let probe := ShamirCall.split secret t n none
    let total := (c probe).len
    match Error.check (c probe).rc with
    | .error e => ⟨.error e, [probe], []⟩
    | .ok _ =>
      let real := ShamirCall.split secret t n (some total)
      let packed := (Cell.new total).receive (c real).written true
      match Error.check (c real).rc with
      | .error e => ⟨.error e, [probe, real], [packed]⟩
      | .ok _ =>
        -- `packed.truncate(total)`, and every chunk is copied out of it
        ⟨.ok (chunks (1 + secret.length) (packed.bytes.take (c real).len)), [probe, real],
          [packed]⟩

/-- `combine`. -/
def combine (c : CSide) (shares : List Bytes) : Ran Error ShamirCall Bytes :=
  if shares.length < 2 then ⟨.error .configInvalid, [], []⟩
  else
    let shareLen := (shares.getD 0 []).length
    if shareLen < 2 ∨ shares.any (fun s => s.length != shareLen) then
      ⟨.error .configInvalid, [], []⟩
    else
      let packed := shares.foldl (fun packed s => packed ++ s) []
      let call := ShamirCall.combine packed shares.length shareLen (shareLen - 1)
      let out := (Cell.new (shareLen - 1)).receive (c call).written true
      match Error.check (c call).rc with
      | .error e => ⟨.error e, [call], [.secret packed, out]⟩
      | .ok _ => ⟨.ok (out.bytes.take (c call).len), [call], [.secret packed]⟩

/-- The bounds of `split`. -/
def InRange (t n : Nat) : Prop := 2 ≤ t ∧ t ≤ n ∧ n ≤ 255

instance (t n : Nat) : Decidable (InRange t n) := inferInstanceAs (Decidable (_ ∧ _ ∧ _))

/-- A call that succeeds, writes these bytes and reports their number. -/
def Writes (a : OutAnswer) (bytes : Bytes) : Prop :=
  0 ≤ a.rc ∧ a.written = bytes ∧ a.len = bytes.length

instance (a : OutAnswer) (bytes : Bytes) : Decidable (Writes a bytes) :=
  inferInstanceAs (Decidable (_ ∧ _ ∧ _))

/-- What the C side answers for a secret that it splits into these blobs. -/
structure Documented (c : CSide) (secret : Bytes) (t n : Nat) (blobs : List Bytes) : Prop where
  count : blobs.length = n
  width : ∀ b ∈ blobs, b.length = 1 + secret.length
  -- the leading byte of a blob is its index
  indices : (blobs.map List.head?).Nodup
  probe_rc : 0 ≤ (c (.split secret t n none)).rc
  probe_len : (c (.split secret t n none)).len = n * (1 + secret.length)
  real : Writes (c (.split secret t n (some (n * (1 + secret.length))))) blobs.flatten
  quorum : ∀ sel : List Bytes, sel ⊆ blobs → sel.Nodup → t ≤ sel.length →
    Writes (c (.combine sel.flatten sel.length (1 + secret.length) secret.length)) secret

/-- The law of the wrappers for one secret and its bounds. -/
structure RoundTrips (c : CSide) (secret : Bytes) (t n : Nat) : Prop where
  in_range : InRange t n → ∃ shares, (split c secret t n).result = .ok shares ∧
    shares.length = n ∧ (∀ s ∈ shares, s.length = 1 + secret.length) ∧
    ∀ sel : List Bytes, sel ⊆ shares → sel.Nodup → t ≤ sel.length →
      (combine c sel).result = .ok secret
  out_of_range : ¬ InRange t n →
    (split c secret t n).result = .error .configInvalid ∧ (split c secret t n).calls = []
  bad_shares : ∀ shares : List Bytes,
    shares.length < 2 ∨ (∃ s ∈ shares, ∃ s' ∈ shares, s.length ≠ s'.length) →
    (combine c shares).result = .error .configInvalid ∧ (combine c shares).calls = []

variable {c : CSide} {secret : Bytes} {t n : Nat} {blobs : List Bytes}

/-! ## Splitting -/

theorem split_out_of_range (h : ¬ InRange t n) :
    split c secret t n = ⟨.error .configInvalid, [], []⟩ := by
  unfold split
  rw [if_pos]
  unfold InRange at h
  omega

/-- The shares are the blobs the C side wrote. -/
theorem split_ok (hr : InRange t n) (hd : Documented c secret t n blobs) :
    (split c secret t n).result = .ok blobs := by
  obtain ⟨hrc, hwritten, hlen⟩ := hd.real
  have hflat : blobs.flatten.length = n * (1 + secret.length) := by
    rw [flatten_length hd.width, hd.count]
  have hguard : ¬ (¬ (2 ≤ n ∧ n ≤ 255) ∨ ¬ (2 ≤ t ∧ t ≤ n)) := by
    unfold InRange at hr
    omega
  unfold split
  rw [if_neg hguard]
  simp only [hd.probe_len, Error.check_eq_ok.mpr hd.probe_rc, Error.check_eq_ok.mpr hrc, hlen,
    hwritten]
  rw [Cell.new_receive_bytes hflat, List.take_length, chunks_flatten (by omega) hd.width]

/-! ## Combining -/

/-- The loop that packs the shares. -/
theorem foldl_packed (shares : List Bytes) :
    shares.foldl (fun packed s => packed ++ s) [] = shares.flatten := by
  rw [List.foldl_append_eq_append]
  simp

/-- The shares `combine` packs: enough of them, with data, and of one length. -/
def Quorum (shares : List Bytes) : Prop :=
  2 ≤ shares.length ∧ 2 ≤ (shares.getD 0 []).length ∧
    ∀ s ∈ shares, s.length = (shares.getD 0 []).length

/-- The call `combine` makes for them. -/
def combineCall (shares : List Bytes) : ShamirCall :=
  .combine shares.flatten shares.length (shares.getD 0 []).length
    ((shares.getD 0 []).length - 1)

/-- The guards of `combine`. -/
theorem combine_not_quorum {shares : List Bytes} (h : ¬ Quorum shares) :
    combine c shares = ⟨.error .configInvalid, [], []⟩ := by
  unfold combine
  by_cases hlen : shares.length < 2
  · rw [if_pos hlen]
  · rw [if_neg hlen]
    simp only
    rw [if_pos]
    by_contra hn
    obtain ⟨hshort, hany⟩ := not_or.mp hn
    refine h ⟨Nat.not_lt.mp hlen, Nat.not_lt.mp hshort, ?_⟩
    intro s hs
    by_contra hne
    exact hany (List.any_eq_true.mpr ⟨s, hs, bne_iff_ne.mpr hne⟩)

/-- Past the guards, `combine` is one call. -/
theorem combine_quorum {shares : List Bytes} (h : Quorum shares) :
    combine c shares =
      let call := combineCall shares
      let out := (Cell.new ((shares.getD 0 []).length - 1)).receive (c call).written true
      match Error.check (c call).rc with
      | .error e => ⟨.error e, [call], [.secret shares.flatten, out]⟩
      | .ok _ => ⟨.ok (out.bytes.take (c call).len), [call], [.secret shares.flatten]⟩ := by
  obtain ⟨hlen, hshort, hwidth⟩ := h
  have hguard : ¬ ((shares.getD 0 []).length < 2 ∨
      shares.any (fun s => s.length != (shares.getD 0 []).length) = true) := by
    rintro (h | h)
    · exact absurd hshort (Nat.not_le.mpr h)
    · obtain ⟨s, hs, hne⟩ := List.any_eq_true.mp h
      exact bne_iff_ne.mp hne (hwidth s hs)
  unfold combine
  rw [if_neg (Nat.not_lt.mpr hlen)]
  simp only
  rw [if_neg hguard]
  simp only [foldl_packed]
  rfl

/-- Too few shares, or shares of different lengths. -/
theorem combine_bad {shares : List Bytes}
    (h : shares.length < 2 ∨ ∃ s ∈ shares, ∃ s' ∈ shares, s.length ≠ s'.length) :
    combine c shares = ⟨.error .configInvalid, [], []⟩ := by
  refine combine_not_quorum ?_
  rintro ⟨hlen, -, hwidth⟩
  rcases h with h | ⟨s, hs, s', hs', hne⟩
  · omega
  · exact hne ((hwidth s hs).trans (hwidth s' hs').symm)

/-- Shares of one index byte each are rejected, whatever they are. -/
theorem combine_short {shares : List Bytes} (h : ∀ s ∈ shares, s.length = 1) :
    combine c shares = ⟨.error .configInvalid, [], []⟩ := by
  refine combine_not_quorum ?_
  rintro ⟨hlen, hshort, -⟩
  cases shares with
  | nil => exact absurd hlen (by simp)
  | cons s shares =>
    have hs : s.length = 1 := h s List.mem_cons_self
    have hs' : 2 ≤ s.length := hshort
    omega

/-- A quorum of shares with data gives the secret back. -/
theorem combine_ok (ht : 2 ≤ t) (hd : Documented c secret t n blobs) (hs : secret ≠ [])
    {sel : List Bytes} (hsub : sel ⊆ blobs) (hnodup : sel.Nodup) (hcount : t ≤ sel.length) :
    (combine c sel).result = .ok secret := by
  obtain ⟨hrc, hwritten, hlen⟩ := hd.quorum sel hsub hnodup hcount
  have hpos : 0 < secret.length := List.length_pos_of_ne_nil hs
  have hwidth (s : Bytes) (h : s ∈ sel) : s.length = 1 + secret.length := hd.width s (hsub h)
  have hfirst : (sel.getD 0 []).length = 1 + secret.length := by
    cases sel with
    | nil => exact absurd hcount (by simp; omega)
    | cons s sel => exact hwidth s List.mem_cons_self
  have hq : Quorum sel := by
    refine ⟨by omega, by omega, ?_⟩
    intro s hsel
    rw [hfirst]
    exact hwidth s hsel
  have hcall : combineCall sel =
      .combine sel.flatten sel.length (1 + secret.length) secret.length := by
    unfold combineCall
    rw [hfirst, Nat.add_sub_cancel_left]
  rw [combine_quorum hq]
  simp only [hcall, hfirst, Nat.add_sub_cancel_left, Error.check_eq_ok.mpr hrc, hlen, hwritten]
  rw [Cell.new_receive_bytes rfl, List.take_length]

/-- **The wrappers round-trip exactly the secrets that are not empty**, where the bounds are good: the
shares of the empty secret are an index byte each, and `combine` rejects them. -/
theorem roundTrips_iff (hc : InRange t n → ∃ blobs, Documented c secret t n blobs) :
    RoundTrips c secret t n ↔ secret ≠ [] ∨ ¬ InRange t n := by
  constructor
  · intro h
    by_cases hr : InRange t n
    · left
      rintro rfl
      obtain ⟨blobs, hd⟩ := hc hr
      obtain ⟨shares, hsplit, -, -, hquorum⟩ := h.in_range hr
      obtain rfl := Except.ok.inj ((split_ok hr hd).symm.trans hsplit)
      have hn : t ≤ blobs.length := hd.count ▸ hr.2.1
      have hall := hquorum blobs (List.Subset.refl _) (List.Nodup.of_map _ hd.indices) hn
      rw [combine_short hd.width] at hall
      exact absurd hall (by simp)
    · exact .inr hr
  · intro h
    refine ⟨?_, ?_, ?_⟩
    · intro hr
      obtain ⟨blobs, hd⟩ := hc hr
      refine ⟨blobs, split_ok hr hd, hd.count, hd.width, ?_⟩
      intro sel hsub hnodup hcount
      exact combine_ok hr.1 hd (h.resolve_right (not_not_intro hr)) hsub hnodup hcount
    · intro hr
      rw [split_out_of_range hr]
      exact ⟨rfl, rfl⟩
    · intro shares hbad
      rw [combine_bad hbad]
      exact ⟨rfl, rfl⟩

/-! ## A C side over GF(2^8) -/

/-- Multiplication modulo x^8 + x^4 + x^3 + x + 1, over the low `k` bits of `b`. -/
def gfMul : Nat → UInt8 → UInt8 → UInt8
  | 0, _, _ => 0
  | k + 1, a, b =>
    let doubled := if 128 ≤ a then (a <<< 1) ^^^ 27 else a <<< 1
    (if b &&& 1 = 1 then a else 0) ^^^ gfMul k doubled (b >>> 1)

/-- `a` to the power 2 + 4 + ... + 2^k; the inverse of `a` at 7. -/
def gfInv : Nat → UInt8 → UInt8
  | 0, _ => 1
  | k + 1, a => gfMul 8 (gfMul 8 a a) (gfInv k (gfMul 8 a a))

/-- The polynomial of degree `k` over a secret byte, its other coefficients 1. -/
def gfEval (s x : UInt8) : Nat → UInt8
  | 0 => s
  | k + 1 => gfEval s x k ^^^ (List.replicate (k + 1) x).foldl (gfMul 8) 1

/-- The Lagrange coefficient of `x` among the indices `xs`, at zero. -/
def gfLagrange (xs : List UInt8) (x : UInt8) : UInt8 :=
  (xs.filter (· ≠ x)).foldl (fun p y => gfMul 8 p (gfMul 8 y (gfInv 7 (y ^^^ x)))) 1

/-- The blobs of a secret. -/
def gfBlobs (secret : Bytes) (t n : Nat) : List Bytes :=
  (List.range n).map fun i =>
    UInt8.ofNat (i + 1) :: secret.map fun s => gfEval s (UInt8.ofNat (i + 1)) (t - 1)

/-- The secret at zero of the polynomials through the shares. -/
def gfCombine (shares : List Bytes) (len : Nat) : Bytes :=
  let xs := shares.map fun s => s.headD 0
  (List.range len).map fun j =>
    shares.foldl (fun acc s => acc ^^^ gfMul 8 (gfLagrange xs (s.headD 0)) (s.getD (j + 1) 0)) 0

/-- A C side that shares each byte by a polynomial over GF(2^8). -/
def gf256 : CSide
  | .split secret _ n none => ⟨0, [], n * (1 + secret.length)⟩
  | .split secret t n (some _) => ⟨0, (gfBlobs secret t n).flatten, n * (1 + secret.length)⟩
  | .combine shares _ shareLen outLen => ⟨0, gfCombine (chunks shareLen shares) outLen, outLen⟩

/-- The blobs of one byte, two of two. -/
theorem gf256_documented : Documented gf256 [7] 2 2 [[1, 6], [2, 5]] where
  count := rfl
  width := by decide
  indices := by decide
  probe_rc := by decide
  probe_len := by decide
  real := by decide
  quorum := by
    intro sel hsub hnodup hcount
    have hperm : sel.Perm [[1, 6], [2, 5]] :=
      (hnodup.subperm hsub).perm_of_length_le hcount
    rcases List.perm_pair.mp hperm with rfl | rfl <;> decide +kernel

/-- One byte, two of two. -/
theorem roundTrips_byte :
    RoundTrips gf256 [7] 2 2 ↔ ([7] : Bytes) ≠ [] ∨ ¬ InRange 2 2 :=
  roundTrips_iff fun _ => ⟨[[1, 6], [2, 5]], gf256_documented⟩

/-- A C side whose random coefficients are all zero: every blob carries the secret. -/
def copies : CSide
  | .split secret _ n none => ⟨0, [], n * (1 + secret.length)⟩
  | .split secret _ n (some _) =>
    ⟨0, ((List.range n).map fun i => UInt8.ofNat (i + 1) :: secret).flatten,
      n * (1 + secret.length)⟩
  | .combine shares _ shareLen outLen => ⟨0, (shares.take shareLen).tail, outLen⟩

theorem copies_width {secret b : Bytes} {n : Nat}
    (hb : b ∈ (List.range n).map fun i => UInt8.ofNat (i + 1) :: secret) :
    b.length = 1 + secret.length := by
  obtain ⟨i, -, rfl⟩ := List.mem_map.mp hb
  rw [List.length_cons, Nat.add_comm]

/-- It does what the header says, for every secret. -/
theorem copies_documented (secret : Bytes) {t n : Nat} (hr : InRange t n) :
    Documented copies secret t n ((List.range n).map fun i => UInt8.ofNat (i + 1) :: secret) where
  count := by simp
  width := fun b hb => copies_width hb
  indices := by
    rw [List.map_map]
    refine List.Nodup.map_on ?_ List.nodup_range
    intro i hi j hj h
    have hi' : i < n := List.mem_range.mp hi
    have hj' : j < n := List.mem_range.mp hj
    have hn : n ≤ 255 := hr.2.2
    have hij : (UInt8.ofNat (i + 1)).toNat = (UInt8.ofNat (j + 1)).toNat := by
      simpa using congrArg (Option.map UInt8.toNat) h
    rw [UInt8.toNat_ofNat', UInt8.toNat_ofNat'] at hij
    omega
  probe_rc := Int.le_refl 0
  probe_len := rfl
  real := by
    refine ⟨Int.le_refl 0, rfl, ?_⟩
    rw [flatten_length fun b hb => copies_width hb, List.length_map, List.length_range]
    rfl
  quorum := by
    intro sel hsub _ hcount
    cases sel with
    | nil => exact absurd (Nat.le_trans hr.1 hcount) (by decide)
    | cons s sel =>
      have hs := hsub List.mem_cons_self
      refine ⟨Int.le_refl 0, ?_, rfl⟩
      change ((s :: sel).flatten.take (1 + secret.length)).tail = secret
      rw [List.flatten_cons, List.take_left' (copies_width hs)]
      obtain ⟨i, -, rfl⟩ := List.mem_map.mp hs
      rfl

/-- The empty secret is split into shares that cannot be combined. -/
theorem empty_secret_lost :
    ¬ ∀ c : CSide,
      (∀ secret t n, InRange t n → ∃ blobs, Documented c secret t n blobs) →
      ∀ secret t n, RoundTrips c secret t n := by
  intro h
  have hd := copies_documented [] (t := 2) (n := 2) (by decide)
  obtain ⟨shares, hsplit, -, -, hquorum⟩ :=
    (h copies (fun secret _ _ hr => ⟨_, copies_documented secret hr⟩) [] 2 2).in_range (by decide)
  obtain rfl := Except.ok.inj ((split_ok (by decide) hd).symm.trans hsplit)
  have hall := hquorum _ (List.Subset.refl _) (by decide) (by decide)
  rw [combine_short hd.width] at hall
  exact absurd hall (by simp)

end Nwep.Shamir
