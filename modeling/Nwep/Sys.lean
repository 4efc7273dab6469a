import Nwep.Error

/-!
# What crosses the C boundary

The argument types of the C calls: nul-terminated strings (`CString`), header arrays ended by a
null name (`nwep_header`, `nwep-sys/src/lib.rs`), and byte slices passed as pointer and length
(`slice_parts`, `nwep/src/server.rs`). Strings are their bytes. `Method` and `Status` are
`nwep/src/wire.rs`. `POLL_CAP_MS` of `nwep/src/runtime.rs` stands here for both owner loops.
-/

namespace Nwep

/-- The bytes of a `&str` or a `&[u8]`. -/
abbrev Bytes := List UInt8

/-- The bytes of a string literal. -/
def str (s : String) : Bytes := s.toUTF8.data.toList

/-- `std::ffi::CString`: bytes without an interior nul. -/
structure CString where
  bytes  : Bytes
  no_nul : (0 : UInt8) ∉ bytes
  deriving DecidableEq

/-- `CString::new`: none on an interior nul. -/
def CString.new (s : Bytes) : Option CString :=
  if h : (0 : UInt8) ∉ s then some ⟨s, h⟩ else none

theorem CString.new_eq_some {s : Bytes} {c : CString} : CString.new s = some c ↔ c.bytes = s := by
  unfold CString.new
  split
  · constructor
    · intro h
      rw [← Option.some.inj h]
    · rintro rfl
      rfl
  · rename_i hs
    constructor
    · intro h
      exact absurd h (by simp)
    · rintro rfl
      exact absurd c.no_nul hs

/-- `CString::new(s).unwrap_or_default()`. -/
def CString.newOrDefault (s : Bytes) : CString := (CString.new s).getD ⟨[], List.not_mem_nil⟩

/-- `CString::new(s).map_err(|_| Error::ProtoInvalidHeader)`. -/
def cstring (s : Bytes) : Result CString :=
  match CString.new s with
  | some c => .ok c
  | none => .error .protoInvalidHeader

/-- `nwep_header`: a name and a value pointer, `none` for null. -/
structure Header where
  name  : Option CString
  value : Option CString
  deriving DecidableEq

/-- The null-name entry that ends a header array. -/
def Header.sentinel : Header := ⟨none, none⟩

/-- A pointer and a length, null for an empty slice. -/
def sliceParts (b : Bytes) : Option Bytes × Nat :=
  if b = [] then (none, 0) else (some b, b.length)

/-- `POLL_CAP_MS`. -/
def Runtime.pollCapMs : Nat := 200

/-- `u64::MAX`. -/
def u64Max : Nat := 18446744073709551615

/-- `i64::MAX`. -/
def i64Max : Nat := 9223372036854775807

/-- What a C call with an out buffer answers: its code, the bytes it wrote there and the length it
reports. It may have written before it failed. -/
structure OutAnswer where
  rc      : CInt
  written : Bytes
  len     : Nat
  deriving DecidableEq

/-- A `*_next_timeout_ms` answer: none when negative (no timer is pending). -/
def timeoutMs (ms : CInt) : Option Nat :=
  if ms < 0 then none else some ms.toNat

/-- `Method`, with the code each verb has on the wire. -/
inductive Method
  | read | write | update | delete | heartbeat | head
  deriving DecidableEq, Repr

/-- `Method::code`. -/
def Method.code : Method → CInt
  | .read => 0
  | .write => 1
  | .update => 2
  | .delete => 3
  | .heartbeat => 6
  | .head => 7

/-- `Status`. -/
inductive Status
  | ok | created | accepted | noContent | partialContent | moved | notModified | badRequest
  | unauthorized | forbidden | notFound | notAllowed | conflict | gone | tooLarge
  | preconditionFailed | rangeNotSatisfiable | rateLimited | error | unavailable | timeout
  | notImplemented
  deriving DecidableEq, Repr

/-- `Status::code`: the index of the token. -/
def Status.code : Status → CInt
  | .ok => 0
  | .created => 1
  | .accepted => 2
  | .noContent => 3
  | .partialContent => 4
  | .moved => 5
  | .notModified => 6
  | .badRequest => 7
  | .unauthorized => 8
  | .forbidden => 9
  | .notFound => 10
  | .notAllowed => 11
  | .conflict => 12
  | .gone => 13
  | .tooLarge => 14
  | .preconditionFailed => 15
  | .rangeNotSatisfiable => 16
  | .rateLimited => 17
  | .error => 18
  | .unavailable => 19
  | .timeout => 20
  | .notImplemented => 21

end Nwep
