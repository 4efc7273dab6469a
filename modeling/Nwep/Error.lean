import Mathlib.Data.Int.Basic

/-!
# The error type and the code boundary

Model of `Error` (`nwep/src/error.rs`): one constructor per named code, `other` for a code the
crate does not name, and the three functions every C call goes through: `code`, `from_code` and
`check`. A `c_int` is an `Int`; nothing here computes with codes, so no width is needed.
-/

namespace Nwep

/-- A C return code. -/
abbrev CInt := Int

/-- `Error`: the named codes by family, and `Other(c)`. -/
inductive Error
  | configInvalid | configMissing
  | networkConnect | networkTimeout | networkClosed | networkQuic | networkTls
  | cryptoKeygen | cryptoRand | cryptoSign | cryptoVerify | cryptoFatalCert
  | cryptoFatalNodeIdMismatch | cryptoFatalChallenge | cryptoFatalServerSig | cryptoFatalClientSig
  | protoInvalidMessage | protoInvalidMethod | protoInvalidHeader | protoConnectRequired
  | protoStreamReuse | protoMaxStreams | protoFlowControl | protoMessageTooLarge
  | protoFatalVersion
  | identityGenerate | identityMismatch | identityNotFound | identityRevoked
  | appNotFound | appConflict | appRateLimited | appForbidden
  | trustInvalidEntry | trustInvalidAnchor | trustStaleCheckpoint | trustThreshold | trustRevoked
  | trustNoCheckpoint | trustFatalEquivocation | trustFatalLogCorrupt
  | internal | internalAlloc | wouldBlock
  | other (c : CInt)
  deriving DecidableEq, Repr

/-- `Result<T>`. -/
abbrev Result (α : Type) := Except Error α

namespace Error

/-- `Error::code`. -/
def code : Error → CInt
  | .configInvalid => -101
  | .configMissing => -102
  | .networkConnect => -201
  | .networkTimeout => -202
  | .networkClosed => -203
  | .networkQuic => -204
  | .networkTls => -205
  | .cryptoKeygen => -301
  | .cryptoRand => -302
  | .cryptoSign => -303
  | .cryptoVerify => -304
  | .cryptoFatalCert => -381
  | .cryptoFatalNodeIdMismatch => -382
  | .cryptoFatalChallenge => -383
  | .cryptoFatalServerSig => -384
  | .cryptoFatalClientSig => -385
  | .protoInvalidMessage => -401
  | .protoInvalidMethod => -402
  | .protoInvalidHeader => -403
  | .protoConnectRequired => -404
  | .protoStreamReuse => -405
  | .protoMaxStreams => -406
  | .protoFlowControl => -407
  | .protoMessageTooLarge => -408
  | .protoFatalVersion => -481
  | .identityGenerate => -501
  | .identityMismatch => -502
  | .identityNotFound => -503
  | .identityRevoked => -504
  | .appNotFound => -601
  | .appConflict => -602
  | .appRateLimited => -603
  | .appForbidden => -604
  | .trustInvalidEntry => -701
  | .trustInvalidAnchor => -702
  | .trustStaleCheckpoint => -703
  | .trustThreshold => -704
  | .trustRevoked => -705
  | .trustNoCheckpoint => -706
  | .trustFatalEquivocation => -781
  | .trustFatalLogCorrupt => -782
  | .internal => -801
  | .internalAlloc => -802
  | .wouldBlock => -803
  | .other c => c

/-- `Error::from_code`: every code without a name goes to `Other`. -/
def fromCode (code : CInt) : Error :=
  match code with
  | -101 => .configInvalid
  | -102 => .configMissing
  | -201 => .networkConnect
  | -202 => .networkTimeout
  | -203 => .networkClosed
  | -204 => .networkQuic
  | -205 => .networkTls
  | -301 => .cryptoKeygen
  | -302 => .cryptoRand
  | -303 => .cryptoSign
  | -304 => .cryptoVerify
  | -381 => .cryptoFatalCert
  | -382 => .cryptoFatalNodeIdMismatch
  | -383 => .cryptoFatalChallenge
  | -384 => .cryptoFatalServerSig
  | -385 => .cryptoFatalClientSig
  | -401 => .protoInvalidMessage
  | -402 => .protoInvalidMethod
  | -403 => .protoInvalidHeader
  | -404 => .protoConnectRequired
  | -405 => .protoStreamReuse
  | -406 => .protoMaxStreams
  | -407 => .protoFlowControl
  | -408 => .protoMessageTooLarge
  | -481 => .protoFatalVersion
  | -501 => .identityGenerate
  | -502 => .identityMismatch
  | -503 => .identityNotFound
  | -504 => .identityRevoked
  | -601 => .appNotFound
  | -602 => .appConflict
  | -603 => .appRateLimited
  | -604 => .appForbidden
  | -701 => .trustInvalidEntry
  | -702 => .trustInvalidAnchor
  | -703 => .trustStaleCheckpoint
  | -704 => .trustThreshold
  | -705 => .trustRevoked
  | -706 => .trustNoCheckpoint
  | -781 => .trustFatalEquivocation
  | -782 => .trustFatalLogCorrupt
  | -801 => .internal
  | -802 => .internalAlloc
  | -803 => .wouldBlock
  | c => .other c

/-- `Error::check`: a code that is not negative is success. -/
def check (code : CInt) : Result Unit :=
  if code ≥ 0 then .ok () else .error (fromCode code)

theorem check_eq_ok {c : CInt} : check c = .ok () ↔ 0 ≤ c := by
  unfold check
  split
  · rename_i h
    exact ⟨fun _ => h, fun _ => rfl⟩
  · rename_i h
    exact ⟨fun h' => absurd h' (by simp), fun h' => absurd h' h⟩

theorem check_of_neg {c : CInt} (h : c < 0) : check c = .error (fromCode c) := by
  unfold check
  rw [if_neg (Int.not_le.mpr h)]

/-- A code is checked one way or the other. -/
theorem check_cases (c : CInt) :
    (0 ≤ c ∧ check c = .ok ()) ∨ ¬ 0 ≤ c ∧ ∃ e, check c = .error e := by
  by_cases h : 0 ≤ c
  · exact .inl ⟨h, check_eq_ok.mpr h⟩
  · exact .inr ⟨h, _, check_of_neg (Int.not_le.mp h)⟩

/-- The two tables agree: `code` gives back what `from_code` was called with. -/
theorem code_fromCode (c : CInt) : (fromCode c).code = c := by
  unfold fromCode
  split <;> rfl

theorem neg_of_check {c : CInt} {e : Error} (h : check c = .error e) : ¬ 0 ≤ c := by
  intro hle
  rw [check_eq_ok.mpr hle] at h
  exact absurd h (by simp)

end Error

end Nwep
