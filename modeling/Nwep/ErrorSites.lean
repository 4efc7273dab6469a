import Nwep.Client.DoneHook
import Nwep.Server.Responder

/-!
# Where a C code becomes an error

Model of the call sites of `Error::from_code`: `Error::check`, the catch-all arms of
`Request::range` (`nwep/src/server.rs` 161-194), `RequestHandle::poll`, `Client::poll_request`,
`Connecting::poll`, `done_trampoline` (`nwep/src/client.rs`), `EntryType::of` (`nwep/src/log.rs`
36-46) and `TrustStore::verify_key` (`nwep/src/trust/store.rs` 163-186), and the four sites that test
`rc < 0` first: `Server::stream_send`, `Server::last_handshake_error`, `Checkpoint::staleness` and
`TrustStore::update_checkpoint`. `Log::append`, whose code is an `i64`, is left out.

`from_code` says that a code which is not negative folds to `Internal`; its last arm makes it
`Other`, with the code as it was.

Results:
* `made_iff`: a site makes an error of exactly the codes it has no arm for, and it is `from_code`'s;
* **`survives_iff`**: the errors of a code survive the boundary exactly when the code is negative or
  the site has an arm for it.
-/

namespace Nwep

/-- `RangeOutcome`. -/
inductive RangeOutcome
  | full
  | unsatisfiable
  | ranges (rs : List Server.ByteRange)
  deriving DecidableEq

/-- `MAX_RANGES`. -/
def maxRanges : Nat := 16

/-- The etag argument of `nwep_request_range`, null for none. -/
def etagArg : Option Bytes → Result (Option CString)
  | some e => do
    let c ← cstring e
    .ok (some c)
  | none => .ok none

/-- `Request::range`, when the C call answers `rc` and leaves `out` and `count`. None is the panic of
`out[..count]`. -/
def requestRange (etag : Option Bytes) (rc : CInt) (out : Vector Server.ByteRange maxRanges)
    (count : Nat) : Option (Result RangeOutcome) :=
  match etagArg etag with
  | .error e => some (.error e)
  | .ok _ =>
    if rc = 0 ∧ maxRanges < count then none
    else some (
      if rc = 0 then .ok (.ranges (out.toList.take count))
      else if rc = 2 then .ok .unsatisfiable
      else if rc = 1 then .ok .full
      else .error (Error.fromCode rc))

/-- `EntryType`. -/
inductive EntryType
  | keyBinding | keyRotation | revocation | anchorChange
  deriving DecidableEq, Repr

/-- `EntryType::of`, when the C call answers `rc`. -/
def EntryType.of (rc : CInt) : Result EntryType :=
  if rc = 1 then .ok .keyBinding
  else if rc = 2 then .ok .keyRotation
  else if rc = 3 then .ok .revocation
  else if rc = 4 then .ok .anchorChange
  else .error (Error.fromCode rc)

/-- `KeyStatus`. -/
inductive KeyStatus
  | notRevoked | revoked
  deriving DecidableEq, Repr

/-- `TrustStore::verify_key`, when the C call answers `rc`. -/
def verifyKey (rc : CInt) : Result KeyStatus :=
  if rc = 0 then .ok .notRevoked
  else if rc = 1 then .ok .revoked
  else .error (Error.fromCode rc)

/-- `CheckpointStatus`. -/
inductive CheckpointStatus
  | fresh | warning | stale
  deriving DecidableEq, Repr

/-- `CheckpointStatus::from_code`. -/
def CheckpointStatus.fromCode (code : CInt) : CheckpointStatus :=
  if code = 0 then .fresh
  else if code = 1 then .warning
  else .stale

/-- `Checkpoint::staleness` and the end of `TrustStore::update_checkpoint`. -/
def staleness (rc : CInt) : Result CheckpointStatus :=
  if rc < 0 then .error (Error.fromCode rc) else .ok (CheckpointStatus.fromCode rc)

/-- The end of `Server::stream_send`. -/
def streamSent (rc : CInt) : Result Nat :=
  if rc < 0 then .error (Error.fromCode rc) else .ok rc.toNat

/-- `Server::last_handshake_error`. -/
def lastHandshakeError (rc : CInt) : Option Error :=
  if rc < 0 then some (Error.fromCode rc) else none

/-- A call site of `from_code`. -/
inductive Site
  | check | range | handlePoll | pollRequest | connectingPoll | entryTypeOf | verifyKey
  | doneTrampoline | streamSend | lastHandshakeError | staleness
  deriving DecidableEq, Repr

namespace Site

/-- The C call of the site answered a code, and the site made an error of it. -/
inductive Made : Site → CInt → Error → Prop
  | check {c e} (h : Error.check c = .error e) : Made .check c e
  | range {c e} (etag : Option Bytes) (cetag : Option CString)
      (out : Vector Server.ByteRange maxRanges) (count : Nat) (he : etagArg etag = .ok cetag)
      (h : requestRange etag c out count = some (.error e)) : Made .range c e
  | handlePoll {c e} (handle : Client.RequestHandle) (out : Client.Msg)
      (h : (handle.poll c out).2 = .error e) : Made .handlePoll c e
  | pollRequest {c e} (out : Client.Msg) (h : Client.pollRequest c out = .error e) :
      Made .pollRequest c e
  | connectingPoll {c e} (h : Client.connectPoll c = .error e) : Made .connectingPoll c e
  | entryTypeOf {c e} (h : EntryType.of c = .error e) : Made .entryTypeOf c e
  | verifyKey {c e} (h : Nwep.verifyKey c = .error e) : Made .verifyKey c e
  | doneTrampoline {c e} (resp : Client.Msg) (h : Client.DoneHook.doneResult c resp = .error e) :
      Made .doneTrampoline c e
  | streamSend {c e} (h : streamSent c = .error e) : Made .streamSend c e
  | lastHandshakeError {c e} (h : Nwep.lastHandshakeError c = some e) :
      Made .lastHandshakeError c e
  | staleness {c e} (h : Nwep.staleness c = .error e) : Made .staleness c e

/-- The codes the site handles before its catch-all. -/
def handles : Site → CInt → Bool
  | .check, c | .streamSend, c | .lastHandshakeError, c | .staleness, c => 0 ≤ c
  | .range, c => c == 0 || c == 2 || c == 1
  | .handlePoll, c | .pollRequest, c => c == 0 || c == Error.wouldBlock.code
  | .connectingPoll, c => c == 1 || c == 0
  | .verifyKey, c => c == 0 || c == 1
  | .entryTypeOf, c => c == 1 || c == 2 || c == 3 || c == 4
  | .doneTrampoline, c => c == 0

/-! ## One lemma a site -/

section Arms

variable {α : Type} {c : CInt} {e : Error}

/-- An arm that returns a value is passed by an error. -/
theorem ok_arm {p : Prop} [Decidable p] {a : α} {r : Result α} :
    (if p then .ok a else r) = .error e ↔ ¬ p ∧ r = .error e := by
  by_cases hp : p <;> simp [hp]

/-- The catch-all arm. -/
theorem catch_all : (Except.error (Error.fromCode c) : Result α) = .error e ↔
    e = Error.fromCode c := by
  constructor
  · intro h
    exact (Except.error.inj h).symm
  · rintro rfl
    rfl

/-- The sites that test `rc < 0` and then give a value. -/
theorem guarded_error {a : α} :
    (if c < 0 then Except.error (Error.fromCode c) else .ok a) = .error e ↔
      decide (0 ≤ c) = false ∧ e = Error.fromCode c := by
  by_cases hc : c < 0
  · rw [if_pos hc, catch_all]
    simp [Int.not_le.mpr hc]
  · rw [if_neg hc]
    simp [Int.not_lt.mp hc]

theorem check_error :
    Error.check c = .error e ↔ handles .check c = false ∧ e = Error.fromCode c := by
  unfold Error.check handles
  rw [ok_arm, catch_all]
  simp

theorem requestRange_error {etag : Option Bytes} {cetag : Option CString}
    {out : Vector Server.ByteRange maxRanges} {count : Nat} (he : etagArg etag = .ok cetag) :
    requestRange etag c out count = some (.error e) ↔
      handles .range c = false ∧ e = Error.fromCode c := by
  unfold requestRange handles
  rw [he]
  by_cases hp : c = 0 ∧ maxRanges < count
  · simp [hp]
  · simp only [hp, if_false, Option.some_inj]
    rw [ok_arm, ok_arm, ok_arm, catch_all]
    simp [and_assoc]

theorem pollRequest_error {out : Client.Msg} :
    Client.pollRequest c out = .error e ↔
      handles .pollRequest c = false ∧ e = Error.fromCode c := by
  unfold Client.pollRequest handles
  rw [ok_arm, ok_arm, catch_all]
  simp [and_assoc]

theorem connectPoll_error :
    Client.connectPoll c = .error e ↔
      handles .connectingPoll c = false ∧ e = Error.fromCode c := by
  unfold Client.connectPoll handles
  rw [ok_arm, ok_arm, catch_all]
  simp [and_assoc]

theorem entryType_error :
    EntryType.of c = .error e ↔ handles .entryTypeOf c = false ∧ e = Error.fromCode c := by
  unfold EntryType.of handles
  rw [ok_arm, ok_arm, ok_arm, ok_arm, catch_all]
  simp [and_assoc]

theorem verifyKey_error :
    Nwep.verifyKey c = .error e ↔ handles .verifyKey c = false ∧ e = Error.fromCode c := by
  unfold Nwep.verifyKey handles
  rw [ok_arm, ok_arm, catch_all]
  simp [and_assoc]

theorem doneResult_error {resp : Client.Msg} :
    Client.DoneHook.doneResult c resp = .error e ↔
      handles .doneTrampoline c = false ∧ e = Error.fromCode c := by
  unfold Client.DoneHook.doneResult handles
  rw [ok_arm, catch_all]
  simp

theorem lastHandshakeError_some :
    Nwep.lastHandshakeError c = some e ↔
      handles .lastHandshakeError c = false ∧ e = Error.fromCode c := by
  unfold Nwep.lastHandshakeError handles
  by_cases hc : c < 0
  · rw [if_pos hc]
    simp only [Option.some_inj, Int.not_le.mpr hc, decide_false, true_and]
    exact eq_comm
  · rw [if_neg hc]
    simp [Int.not_lt.mp hc]

end Arms

/-- A site makes an error of exactly the codes it does not handle, and it is `from_code`'s. -/
theorem made_iff {site : Site} {c : CInt} {e : Error} :
    site.Made c e ↔ site.handles c = false ∧ e = Error.fromCode c := by
  constructor
  · intro h
    cases h with
    | check h => exact check_error.mp h
    | range etag cetag out count he h => exact (requestRange_error he).mp h
    | handlePoll handle out h =>
      rw [Client.RequestHandle.poll_snd] at h
      exact pollRequest_error.mp h
    | pollRequest out h => exact pollRequest_error.mp h
    | connectingPoll h => exact connectPoll_error.mp h
    | entryTypeOf h => exact entryType_error.mp h
    | verifyKey h => exact verifyKey_error.mp h
    | doneTrampoline resp h => exact doneResult_error.mp h
    | streamSend h => exact guarded_error.mp h
    | lastHandshakeError h => exact lastHandshakeError_some.mp h
    | staleness h => exact guarded_error.mp h
  · intro h
    cases site with
    | check => exact .check (check_error.mpr h)
    | range =>
      exact .range none none (Vector.replicate _ ⟨0, 0⟩) 0 rfl ((requestRange_error rfl).mpr h)
    | handlePoll =>
      refine .handlePoll ⟨0, false⟩ 0 ?_
      rw [Client.RequestHandle.poll_snd]
      exact pollRequest_error.mpr h
    | pollRequest => exact .pollRequest 0 (pollRequest_error.mpr h)
    | connectingPoll => exact .connectingPoll (connectPoll_error.mpr h)
    | entryTypeOf => exact .entryTypeOf (entryType_error.mpr h)
    | verifyKey => exact .verifyKey (verifyKey_error.mpr h)
    | doneTrampoline => exact .doneTrampoline 0 (doneResult_error.mpr h)
    | streamSend => exact .streamSend (guarded_error.mpr h)
    | lastHandshakeError => exact .lastHandshakeError (lastHandshakeError_some.mpr h)
    | staleness => exact .staleness (guarded_error.mpr h)

end Site

/-- What the boundary promises of the error made of a code. -/
structure Error.Survives (c : CInt) (e : Error) : Prop where
  code_neg   : e.code < 0
  check_code : Error.check e.code = .error e
  same       : c < 0 → e.code = c
  folds      : 0 ≤ c → e = .internal

/-- The error of a negative code survives. -/
theorem Error.survives_of_neg {c : CInt} (h : c < 0) : (Error.fromCode c).Survives c where
  code_neg := by
    rw [code_fromCode]
    exact h
  check_code := by
    rw [code_fromCode]
    exact check_of_neg h
  same := fun _ => code_fromCode c
  folds := fun h0 => absurd h (Int.not_lt.mpr h0)

/-- The error of a code that is not negative carries it as a success code. -/
theorem Error.not_survives_of_nonneg {c : CInt} (h : 0 ≤ c) : ¬ (Error.fromCode c).Survives c := by
  intro hs
  have hneg := hs.code_neg
  rw [code_fromCode] at hneg
  exact absurd hneg (Int.not_lt.mpr h)

/-- **The errors a site makes of a code survive exactly when the code is negative or the site
handles it.** -/
theorem Site.survives_iff (site : Site) (c : CInt) :
    (∀ e, site.Made c e → e.Survives c) ↔ c < 0 ∨ site.handles c = true := by
  constructor
  · intro h
    by_cases hc : c < 0
    · exact .inl hc
    · right
      by_contra hh
      have hmade := made_iff.mpr ⟨Bool.eq_false_iff.mpr hh, rfl⟩
      exact Error.not_survives_of_nonneg (Int.not_lt.mp hc) (h _ hmade)
  · rintro (hc | hh) e he
    · obtain ⟨-, rfl⟩ := made_iff.mp he
      exact Error.survives_of_neg hc
    · exact absurd hh (by rw [(made_iff.mp he).1]; exact Bool.false_ne_true)

/-- An entry type the crate does not know is an error that passes the next `check`. -/
theorem Site.entryType_seven_escapes :
    ¬ ∀ (site : Site) (c : CInt) (e : Error), site.Made c e → e.Survives c :=
  fun h => Error.not_survives_of_nonneg (by decide) (h _ 7 _ (.entryTypeOf rfl))

end Nwep
