import Mathlib.Data.List.Basic
import Nwep.Client.Request

/-!
# Marshalling a request

Model of `RequestBuilder` (`nwep/src/client.rs` 680-787) next to `Client::submit_request` (540-584):
two copies of the code that turns a path, headers and a body into what the C call takes. A function
is modelled by what it returns and the C calls it made, when the call answers `rc` and writes its out
parameter.

`SubmitArgs.decode` is the C side: strings are read up to their nul, the header array up to the first
null name, and the body by pointer and length.

Results:
* `pushCStrings_eq`, `withC_eq`: the two copies marshal alike;
* `submitArgs_cases`: marshalling rejects exactly a nul, and what it makes decodes to the request;
* **`marshal_faithful`**: the three calls, made or not made together, with the same decoded request.
-/

/-! ## Arrays read up to a terminator

How C reads what it is given by pointer alone: element by element up to the first terminator, which
is not part of what is read. Only the object itself can be read, so an array without a terminator has
no reading. -/

namespace Nwep.Lib

variable {α β : Type}

/-- What is read up to the first terminator. -/
def readUntil (stop : α → Bool) : List α → Option (List α)
  | [] => none
  | a :: l => if stop a then some [] else (readUntil stop l).map (a :: ·)

/-- An array written without terminators and then ended reads back, whatever lies behind. -/
theorem readUntil_append {stop : α → Bool} {t : α} (ht : stop t = true) (behind : List α) :
    ∀ {l : List α}, (∀ a ∈ l, stop a = false) → readUntil stop (l ++ t :: behind) = some l := by
  intro l
  induction l with
  | nil =>
    intro _
    simp [readUntil, ht]
  | cons a l ih =>
    intro h
    rw [List.cons_append, readUntil, ih (fun x hx => h x (List.mem_cons_of_mem a hx))]
    simp [h a List.mem_cons_self]

/-- Entries read one by one, each of them readable. -/
def readAll (read : α → Option β) : List α → Option (List β)
  | [] => some []
  | a :: l => do
    let b ← read a
    let bs ← readAll read l
    some (b :: bs)

/-- Entries written one by one read back. -/
theorem readAll_map {γ : Type} {write : γ → α} {read : α → Option β} {value : γ → β}
    (h : ∀ c, read (write c) = some (value c)) (l : List γ) :
    readAll read (l.map write) = some (l.map value) := by
  induction l with
  | nil => rfl
  | cons c l ih =>
    rw [List.map_cons, readAll, h c, ih]
    rfl

/-- A pointer and a length: null is read as empty, and not past the object. -/
def readSlice : Option (List α) × Nat → Option (List α)
  | (none, n) => if n = 0 then some [] else none
  | (some l, n) => if n ≤ l.length then some (l.take n) else none

end Nwep.Lib

namespace Nwep.Client

open Nwep.Lib

/-- A `nwep_client` pointer. -/
abbrev ClientPtr := Nat

/-- The C calls a request is made with. -/
inductive RequestCall
  | send (client : ClientPtr) (args : SubmitArgs)
  | submit (client : ClientPtr) (args : SubmitArgs)
  deriving DecidableEq

/-- What a function returned, and the calls it made. -/
abbrev Called (α : Type) := Result α × List RequestCall

/-- `Client::submit_request` on the client at `raw`. -/
def submitRequestCalled (raw : ClientPtr) (r : Request) (rc : CInt) (id : RequestId) :
    Called RequestId :=
  match submitArgs r with
  | .error e => (.error e, [])
  | .ok args => (do Error.check rc; .ok id, [.submit raw args])

/-- `RequestBuilder`. -/
structure RequestBuilder where
  client  : ClientPtr
  method  : Method
  path    : Bytes
  headers : List (Bytes × Bytes)
  body    : Bytes
  deriving DecidableEq

namespace RequestBuilder

/-- `Client::request`. -/
def new (client : ClientPtr) (method : Method) (path : Bytes) : RequestBuilder :=
  ⟨client, method, path, [], []⟩

/-- `RequestBuilder::header`. -/
def header (b : RequestBuilder) (name value : Bytes) : RequestBuilder :=
  { b with headers := b.headers ++ [(name, value)] }

/-- `RequestBuilder::body`. -/
def setBody (b : RequestBuilder) (body : Bytes) : RequestBuilder := { b with body := body }

/-- The request the builder stands for. -/
def request (b : RequestBuilder) : Request := ⟨b.method, b.path, b.headers, b.body⟩

/-- The loop of `with_c`: `cstrings.push((n, v))`. -/
def pushCStrings : List (Bytes × Bytes) → List (CString × CString) →
    Result (List (CString × CString))
  | [], cs => .ok cs
  | (name, value) :: rest, cs => do
    let n ← cstring name
    let v ← cstring value
    pushCStrings rest (cs ++ [(n, v)])

/-- `RequestBuilder::with_c`. -/
def withC {α : Type} (b : RequestBuilder)
    (f : CString → List Header → Option Bytes → Nat → Called α) : Called α :=
  match cstring b.path with
  | .error e => (.error e, [])
  | .ok cpath =>
    match pushCStrings b.headers [] with
    | .error e => (.error e, [])
    | .ok cs =>
      let headerArray := cs.map (fun nv => Header.mk (some nv.1) (some nv.2)) ++ [Header.sentinel]
      if b.body = [] then f cpath headerArray none 0
      else f cpath headerArray (some b.body) b.body.length

/-- `RequestBuilder::send`, when the call writes `resp`. -/
def send (b : RequestBuilder) (rc : CInt) (resp : Msg) : Called Response :=
  b.withC fun cpath headers bptr blen =>
    (do Error.check rc; .ok ⟨resp⟩, [.send b.client ⟨b.method.code, cpath, headers, (bptr, blen)⟩])

/-- `RequestBuilder::submit`, when the call writes `id`. -/
def submit (b : RequestBuilder) (rc : CInt) (id : RequestId) : Called RequestHandle :=
  let (sent, calls) := b.withC fun cpath headers bptr blen =>
    (do Error.check rc; .ok id, [.submit b.client ⟨b.method.code, cpath, headers, (bptr, blen)⟩])
  (do let id ← sent; .ok ⟨id, false⟩, calls)

end RequestBuilder

/-! ## The C side -/

/-- The method a code stands for. -/
def methodOfCode (c : CInt) : Option Method :=
  [Method.read, .write, .update, .delete, .heartbeat, .head].find? fun m => m.code = c

/-- What a `CString` pointer points at. -/
def stringMemory (c : CString) : Bytes := c.bytes ++ [0]

/-- A string is read up to its nul. -/
def readString (c : CString) : Option Bytes := readUntil (· == 0) (stringMemory c)

/-- One header: both pointers are read. -/
def readHeader : Header → Option (Bytes × Bytes)
  | ⟨some name, some value⟩ => do
    let n ← readString name
    let v ← readString value
    some (n, v)
  | _ => none

/-- A header array is read up to the first null name. -/
def readHeaders (array : List Header) : Option (List (Bytes × Bytes)) := do
  let hs ← readUntil (fun h => h.name.isNone) array
  readAll readHeader hs

/-- The request the C side is asked for. -/
def SubmitArgs.decode (args : SubmitArgs) : Option Request := do
  let method ← methodOfCode args.method
  let path ← readString args.path
  let headers ← readHeaders args.headers
  let body ← readSlice args.body
  some ⟨method, path, headers, body⟩

theorem methodOfCode_code (m : Method) : methodOfCode m.code = some m := by
  cases m <;> rfl

theorem readString_eq (c : CString) : readString c = some c.bytes := by
  refine readUntil_append rfl [] ?_
  intro x hx
  rw [beq_eq_false_iff_ne]
  rintro rfl
  exact c.no_nul hx

/-- The header array of a list of C strings. -/
theorem readHeaders_eq (cs : List (CString × CString)) :
    readHeaders (cs.map (fun nv => ⟨some nv.1, some nv.2⟩) ++ [Header.sentinel]) =
      some (cs.map fun nv => (nv.1.bytes, nv.2.bytes)) := by
  have hentry (nv : CString × CString) :
      readHeader ⟨some nv.1, some nv.2⟩ = some (nv.1.bytes, nv.2.bytes) := by
    simp [readHeader, readString_eq]
  unfold readHeaders
  rw [readUntil_append rfl [] (by
    rintro h hh
    obtain ⟨nv, -, rfl⟩ := List.mem_map.mp hh
    rfl)]
  exact readAll_map hentry cs

/-- Null for empty, and back. -/
theorem readSlice_sliceParts (b : Bytes) : readSlice (sliceParts b) = some b := by
  unfold sliceParts
  by_cases hb : b = []
  · simp [hb, readSlice]
  · simp [hb, readSlice]

/-! ## When marshalling succeeds -/

/-- The path or some header name or value contains a nul. -/
def Request.HasNul (r : Request) : Prop :=
  0 ∈ r.path ∨ ∃ nv ∈ r.headers, 0 ∈ nv.1 ∨ 0 ∈ nv.2

instance (r : Request) : Decidable r.HasNul :=
  inferInstanceAs (Decidable (_ ∨ ∃ nv ∈ r.headers, _))

/-- A string is turned into a C string with its bytes, or has a nul and is rejected. -/
theorem cstring_cases (s : Bytes) :
    (0 ∈ s ∧ cstring s = .error .protoInvalidHeader) ∨
      0 ∉ s ∧ ∃ c : CString, cstring s = .ok c ∧ c.bytes = s := by
  unfold cstring CString.new
  by_cases h : (0 : UInt8) ∈ s
  · left
    rw [dif_neg (not_not_intro h)]
    exact ⟨h, rfl⟩
  · right
    rw [dif_pos h]
    exact ⟨h, ⟨s, h⟩, rfl, rfl⟩

/-- So is a header list. -/
theorem cstrings_cases (hs : List (Bytes × Bytes)) :
    ((∃ nv ∈ hs, 0 ∈ nv.1 ∨ 0 ∈ nv.2) ∧ cstrings hs = .error .protoInvalidHeader) ∨
      (¬ ∃ nv ∈ hs, 0 ∈ nv.1 ∨ 0 ∈ nv.2) ∧
        ∃ cs, cstrings hs = .ok cs ∧ cs.map (fun nv => (nv.1.bytes, nv.2.bytes)) = hs := by
  induction hs with
  | nil => exact .inr ⟨by simp, [], rfl, rfl⟩
  | cons nv hs ih =>
    obtain ⟨name, value⟩ := nv
    simp only [List.mem_cons, exists_eq_or_imp]
    unfold cstrings
    rcases cstring_cases name with ⟨hn, hname⟩ | ⟨hn, n, hname, rfl⟩
    · rw [hname]
      exact .inl ⟨.inl (.inl hn), rfl⟩
    · rw [hname]
      rcases cstring_cases value with ⟨hv, hvalue⟩ | ⟨hv, v, hvalue, rfl⟩
      · rw [hvalue]
        exact .inl ⟨.inl (.inr hv), rfl⟩
      · rw [hvalue]
        rcases ih with ⟨hbad, hrest⟩ | ⟨hgood, cs, hrest, hcs⟩
        · rw [hrest]
          exact .inl ⟨.inr hbad, rfl⟩
        · rw [hrest]
          refine .inr ⟨?_, (n, v) :: cs, rfl, by rw [List.map_cons, hcs]⟩
          rintro ((h | h) | h)
          · exact hn h
          · exact hv h
          · exact hgood h

/-- Marshalling rejects a request with a nul; otherwise what it makes decodes to the request. -/
theorem submitArgs_cases (r : Request) :
    (r.HasNul ∧ submitArgs r = .error .protoInvalidHeader) ∨
      ¬ r.HasNul ∧ ∃ args, submitArgs r = .ok args ∧ args.method = r.method.code ∧
        args.decode = some r := by
  unfold submitArgs Request.HasNul
  rcases cstring_cases r.path with ⟨hp, hpath⟩ | ⟨hp, cpath, hpath, hcpath⟩
  · rw [hpath]
    exact .inl ⟨.inl hp, rfl⟩
  · rw [hpath]
    rcases cstrings_cases r.headers with ⟨hbad, hheaders⟩ | ⟨hgood, cs, hheaders, hcs⟩
    · rw [hheaders]
      exact .inl ⟨.inr hbad, rfl⟩
    · rw [hheaders]
      refine .inr ⟨fun h => h.elim hp hgood, _, rfl, rfl, ?_⟩
      simp only [SubmitArgs.decode, methodOfCode_code, readString_eq, readHeaders_eq,
        readSlice_sliceParts, hcpath, hcs]
      rfl

/-! ## The two copies -/

namespace RequestBuilder

/-- The loop that pushes makes the list the other copy makes. -/
theorem pushCStrings_eq (hs : List (Bytes × Bytes)) :
    ∀ cs, pushCStrings hs cs = (cstrings hs).map (cs ++ ·) := by
  induction hs with
  | nil =>
    intro cs
    simp [pushCStrings, cstrings, Except.map]
  | cons nv hs ih =>
    intro cs
    obtain ⟨name, value⟩ := nv
    unfold pushCStrings cstrings
    cases cstring name with
    | error e => rfl
    | ok n =>
      cases cstring value with
      | error e => rfl
      | ok v =>
        have hih := ih (cs ++ [(n, v)])
        cases hc : cstrings hs with
        | error e =>
          rw [hc] at hih
          exact hih
        | ok rest =>
          rw [hc] at hih
          simpa [Except.map, bind, Except.bind] using hih

/-- `with_c` marshals what `submit_request` does. -/
theorem withC_eq {α : Type} (b : RequestBuilder)
    (f : CString → List Header → Option Bytes → Nat → Called α) :
    b.withC f = match submitArgs b.request with
      | .error e => (.error e, [])
      | .ok args => f args.path args.headers args.body.1 args.body.2 := by
  unfold withC submitArgs request
  cases cstring b.path with
  | error e => rfl
  | ok cpath =>
    rw [pushCStrings_eq]
    cases cstrings b.headers with
    | error e => rfl
    | ok cs =>
      by_cases hb : b.body = [] <;>
        simp [Except.map, bind, Except.bind, sliceParts, hb]

end RequestBuilder

/-- The marshalling calls nothing that the client's own model leaves out. -/
theorem submitRequestCalled_fst (raw : ClientPtr) (r : Request) (rc : CInt) (id : RequestId) :
    (submitRequestCalled raw r rc id).1 = submitRequest r rc id := by
  unfold submitRequestCalled submitRequest
  cases submitArgs r with
  | error e => rfl
  | ok args => rfl

/-- The handle of the driven path holds the id of the managed one. -/
theorem submit_fst (b : RequestBuilder) (rc : CInt) (id : RequestId) :
    (b.submit rc id).1 = (submitRequest b.request rc id).map fun i => ⟨i, false⟩ := by
  unfold RequestBuilder.submit submitRequest
  rw [b.withC_eq]
  cases submitArgs b.request with
  | error e => rfl
  | ok args =>
    simp only
    cases Error.check rc <;> rfl

/-- What the three calls have in common on one request: all made, with arguments that decode to it,
or none made and the request rejected, which is so exactly when it has a nul. -/
structure Faithful (raw : ClientPtr) (r : Request) (sent : Called Response)
    (built : Called RequestHandle) (submitted : Called RequestId) : Prop where
  same_calls : built.2 = submitted.2
  rejected_iff : submitted = (.error .protoInvalidHeader, []) ↔ r.HasNul
  built_iff : built = (.error .protoInvalidHeader, []) ↔ r.HasNul
  sent_iff : sent = (.error .protoInvalidHeader, []) ↔ r.HasNul
  made : ¬ r.HasNul → ∃ args, args.decode = some r ∧ submitted.2 = [.submit raw args] ∧
    built.2 = [.submit raw args] ∧ sent.2 = [.send raw args]

/-- **The driven and the managed path marshal faithfully**, whatever the calls answer. -/
theorem marshal_faithful (b : RequestBuilder) (rc rc' rc'' : CInt) (id id' : RequestId)
    (resp : Msg) :
    Faithful b.client b.request (b.send rc resp) (b.submit rc' id)
      (submitRequestCalled b.client b.request rc'' id') := by
  unfold RequestBuilder.send RequestBuilder.submit submitRequestCalled
  simp only [RequestBuilder.withC_eq]
  rcases submitArgs_cases b.request with ⟨hnul, hargs⟩ | ⟨hno, args, hargs, hmethod, hdecode⟩
  · rw [hargs]
    exact {
      same_calls := rfl
      rejected_iff := iff_of_true rfl hnul
      built_iff := iff_of_true rfl hnul
      sent_iff := iff_of_true rfl hnul
      made := fun h => absurd hnul h }
  · rw [hargs]
    simp only [show b.method.code = args.method from hmethod.symm]
    exact {
      same_calls := rfl
      rejected_iff := iff_of_false (by simp) hno
      built_iff := iff_of_false (by simp) hno
      sent_iff := iff_of_false (by simp) hno
      made := fun _ => ⟨args, hdecode, rfl, rfl, rfl⟩ }

end Nwep.Client
