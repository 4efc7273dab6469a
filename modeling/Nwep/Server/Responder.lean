import Nwep.Sys

/-!
# Answering a request

Model of `Request`, `Responder` and `CapturingResponder` (`nwep/src/server.rs` 46-577). A terminal
consumes its `Responder`: it makes C calls on the response buffer and writes a code to the result
cell, which is a local of the trampoline that built the `Responder`. The C calls are listed with
their arguments, and what they answer is an argument of `Terminal.code`.

The `Responder` is a plain value: nothing ties it, or the `Reply` a terminal returns, to the call it
was made for.
-/

namespace Nwep.Server

/-- One invocation of the trampoline. -/
abbrev ReqId := Nat

/-- A pointer of the C side: a response buffer, a message, a server. -/
abbrev Ptr := Nat

/-- `Request`. -/
structure Request where
  msg      : Ptr
  server   : Ptr
  connId   : Nat
  streamId : Nat
  deriving DecidableEq

/-- `ByteRange`. -/
structure ByteRange where
  start : Nat
  stop  : Nat
  deriving DecidableEq

/-- The C calls that build a response. A status token is given by its index. -/
inductive Call
  | header (buf : Ptr) (name value : CString)
  | ok (buf : Ptr) (body : Option Bytes × Nat)
  | status (buf : Ptr) (status : CInt) (body : Option Bytes × Nat)
  | notModified (buf : Ptr) (etag : CString)
  | ranges (buf : Ptr) (body : Option Bytes × Nat) (ranges : List ByteRange) (ctype : CString)
  | rangeNotSatisfiable (buf : Ptr) (totalLen : Nat)
  | blit (buf : Ptr) (frame : Option Bytes × Nat)
  | relay (buf : Ptr) (origin : Ptr)
  | beginStream (server : Ptr) (connId streamId : Nat) (path : CString) (status : CInt)
      (headers : List Header)
  deriving DecidableEq

/-- `Responder`: where it writes, and the C calls made through it so far. -/
structure Responder where
  buf      : Ptr
  rc       : ReqId
  server   : Ptr
  connId   : Nat
  streamId : Nat
  made     : List Call
  deriving DecidableEq

/-- What the result cell gets: the code of the last C call, what `finish_capture` makes of it after
its two calls to `nwep_response_capture`, or a code that is given. -/
inductive Finish
  | rc
  | capture
  | code (c : CInt)
  deriving DecidableEq

/-- What a terminal does: its C calls in order, and how it fills the cell of its invocation. -/
structure Terminal where
  cell   : ReqId
  calls  : List Call
  finish : Finish
  deriving DecidableEq

/-- What the C side answers to a terminal: the code of its last call, and of the two calls to
`nwep_response_capture` the code, the bytes written and the length reported. -/
structure Answers where
  rc   : CInt
  size : CInt × Nat
  copy : CInt × Bytes × Nat
  deriving DecidableEq

/-- `NWEP_DEFER`. -/
def nwepDefer : CInt := 1

namespace Responder

/-- `*self.rc = call(..)`. -/
def build (res : Responder) (call : Call) : Terminal := ⟨res.rc, res.made ++ [call], .rc⟩

/-- `Responder::header`: nothing is attached when one of the strings has an interior nul. -/
def header (res : Responder) (name value : Bytes) : Responder :=
  match CString.new name, CString.new value with
  | some n, some v => { res with made := res.made ++ [.header res.buf n v] }
  | _, _ => res

def ok (res : Responder) (body : Bytes) : Terminal := res.build (.ok res.buf (sliceParts body))

def status (res : Responder) (status : Status) (body : Bytes) : Terminal :=
  res.build (.status res.buf status.code (sliceParts body))

def notFound (res : Responder) : Terminal := res.status .notFound []

def created (res : Responder) (body : Bytes) : Terminal := res.status .created body

def accepted (res : Responder) (body : Bytes) : Terminal := res.status .accepted body

def noContent (res : Responder) : Terminal := res.status .noContent []

def moved (res : Responder) (location : Bytes) : Terminal :=
  (res.header (str "location") location).status .moved []

def badRequest (res : Responder) (body : Bytes) : Terminal := res.status .badRequest body

def unauthorized (res : Responder) (body : Bytes) : Terminal := res.status .unauthorized body

def forbidden (res : Responder) (body : Bytes) : Terminal := res.status .forbidden body

def notAllowed (res : Responder) : Terminal := res.status .notAllowed []

def conflict (res : Responder) (body : Bytes) : Terminal := res.status .conflict body

def gone (res : Responder) : Terminal := res.status .gone []

def tooLarge (res : Responder) : Terminal := res.status .tooLarge []

def preconditionFailed (res : Responder) : Terminal := res.status .preconditionFailed []

def rateLimited (res : Responder) (retryAfter : Bytes) : Terminal :=
  (res.header (str "retry-after") retryAfter).status .rateLimited []

def error (res : Responder) (body : Bytes) : Terminal := res.status .error body

def unavailable (res : Responder) : Terminal := res.status .unavailable []

def timeout (res : Responder) : Terminal := res.status .timeout []

def notImplemented (res : Responder) : Terminal := res.status .notImplemented []

def notModified (res : Responder) (etag : Bytes) : Terminal :=
  res.build (.notModified res.buf (CString.newOrDefault etag))

/-- `Responder::partial`. -/
def partialContent (res : Responder) (body : Bytes) (ranges : List ByteRange)
    (contentType : Bytes) : Terminal :=
  res.build (.ranges res.buf (sliceParts body) ranges (CString.newOrDefault contentType))

def rangeNotSatisfiable (res : Responder) (totalLen : Nat) : Terminal :=
  res.build (.rangeNotSatisfiable res.buf totalLen)

/-- The header of `stream` as C strings, dropped when one of them has an interior nul. -/
def streamHeader (nv : Bytes × Bytes) : Option Header :=
  match CString.new nv.1, CString.new nv.2 with
  | some n, some v => some ⟨some n, some v⟩
  | _, _ => none

def stream (res : Responder) (path : Bytes) (status : Status) (headers : List (Bytes × Bytes)) :
    Terminal :=
  res.build (.beginStream res.server res.connId res.streamId (CString.newOrDefault path) status.code
    (headers.filterMap streamHeader ++ [Header.sentinel]))

def blit (res : Responder) (frame : Bytes) : Terminal :=
  res.build (.blit res.buf (sliceParts frame))

def relay (res : Responder) (origin : Ptr) : Terminal := res.build (.relay res.buf origin)

/-- `*self.rc = NWEP_DEFER`. -/
def defer (res : Responder) : Terminal := ⟨res.rc, res.made, .code nwepDefer⟩

/-- `*self.rc = code`, when a lower-layer router wrote the buffer. -/
def finish (res : Responder) (code : CInt) : Terminal := ⟨res.rc, res.made, .code code⟩

/-- `CapturingResponder::ok`. -/
def capturingOk (res : Responder) (body : Bytes) : Terminal :=
  { res.ok body with finish := .capture }

/-- `CapturingResponder::status`. -/
def capturingStatus (res : Responder) (status : Status) (body : Bytes) : Terminal :=
  { res.status status body with finish := .capture }

end Responder

/-- `CapturingResponder::finish_capture`: the code for the cell and the captured frame. -/
def finishCapture (a : Answers) : CInt × Bytes :=
  if a.rc ≠ 0 then (a.rc, [])
  else if a.size.1 ≠ 0 then (0, [])
  else
    let (rc, written, len) := a.copy
    let f := (written ++ (List.replicate a.size.2 0).drop written.length).take a.size.2
    if rc = 0 then (0, f.take len) else (0, [])

/-- What the terminal writes to the result cell. -/
def Terminal.code (t : Terminal) (a : Answers) : CInt :=
  match t.finish with
  | .rc => a.rc
  | .capture => (finishCapture a).1
  | .code c => c

/-- The terminals an application can call. -/
inductive Op
  | ok (body : Bytes)
  | status (status : Status) (body : Bytes)
  | notFound
  | created (body : Bytes)
  | accepted (body : Bytes)
  | noContent
  | moved (location : Bytes)
  | badRequest (body : Bytes)
  | unauthorized (body : Bytes)
  | forbidden (body : Bytes)
  | notAllowed
  | conflict (body : Bytes)
  | gone
  | tooLarge
  | preconditionFailed
  | rateLimited (retryAfter : Bytes)
  | error (body : Bytes)
  | unavailable
  | timeout
  | notImplemented
  | notModified (etag : Bytes)
  | partialContent (body : Bytes) (ranges : List ByteRange) (contentType : Bytes)
  | rangeNotSatisfiable (totalLen : Nat)
  | stream (path : Bytes) (status : Status) (headers : List (Bytes × Bytes))
  | blit (frame : Bytes)
  | relay (origin : Ptr)
  | defer
  | capturingOk (body : Bytes)
  | capturingStatus (status : Status) (body : Bytes)
  deriving DecidableEq

/-- The terminal called on `res`. -/
def Responder.call (res : Responder) : Op → Terminal
  | .ok body => res.ok body
  | .status status body => res.status status body
  | .notFound => res.notFound
  | .created body => res.created body
  | .accepted body => res.accepted body
  | .noContent => res.noContent
  | .moved location => res.moved location
  | .badRequest body => res.badRequest body
  | .unauthorized body => res.unauthorized body
  | .forbidden body => res.forbidden body
  | .notAllowed => res.notAllowed
  | .conflict body => res.conflict body
  | .gone => res.gone
  | .tooLarge => res.tooLarge
  | .preconditionFailed => res.preconditionFailed
  | .rateLimited retryAfter => res.rateLimited retryAfter
  | .error body => res.error body
  | .unavailable => res.unavailable
  | .timeout => res.timeout
  | .notImplemented => res.notImplemented
  | .notModified etag => res.notModified etag
  | .partialContent body ranges contentType => res.partialContent body ranges contentType
  | .rangeNotSatisfiable totalLen => res.rangeNotSatisfiable totalLen
  | .stream path status headers => res.stream path status headers
  | .blit frame => res.blit frame
  | .relay origin => res.relay origin
  | .defer => res.defer
  | .capturingOk body => res.capturingOk body
  | .capturingStatus status body => res.capturingStatus status body

/-- A header goes to the buffer; the `Responder` still answers the same call. -/
@[simp] theorem Responder.header_rc (res : Responder) (name value : Bytes) :
    (res.header name value).rc = res.rc := by
  unfold Responder.header
  split <;> rfl

/-- **Every terminal writes the cell of the invocation its `Responder` was made for.** -/
@[simp] theorem Responder.call_cell (res : Responder) (op : Op) : (res.call op).cell = res.rc := by
  cases op with
  | moved location => exact res.header_rc _ location
  | rateLimited retryAfter => exact res.header_rc _ retryAfter
  | _ => rfl

/-- A capture leaves the code the plain terminal would leave. -/
theorem finishCapture_code (a : Answers) : (finishCapture a).1 = a.rc := by
  unfold finishCapture
  by_cases h : a.rc = 0
  · rw [if_neg (not_not_intro h), h]
    by_cases hs : a.size.1 = 0
    · simp only [ne_eq, hs, not_true_eq_false, if_false]
      split <;> rfl
    · rw [if_pos hs]
  · rw [if_pos h]

end Nwep.Server
