import Nwep.Sys

/-!
# Submitting and polling a request

Model of the borrow-free half of the client the managed runtime uses (`nwep/src/client.rs`):
`submit_request` (540-584), `poll_request` (591-600), `tick`, `is_alive` and `next_timeout`, and of
what a caller that drives the client has, `RequestHandle` (914-964) and `Connecting::poll` (853-860).
Each takes what the C call answered; `submitArgs` is what it is called with.
-/

namespace Nwep.Client

/-- `RequestId`. -/
abbrev RequestId := Nat

/-- A message pointer the C side hands over. -/
abbrev Msg := Nat

/-- `Response`: it owns one message. -/
structure Response where
  msg : Msg
  deriving DecidableEq, Repr

/-- The arguments of one request. -/
structure Request where
  method  : Method
  path    : Bytes
  headers : List (Bytes × Bytes)
  body    : Bytes
  deriving DecidableEq

/-- The arguments of `nwep_client_request_submit`. -/
structure SubmitArgs where
  method  : CInt
  path    : CString
  headers : List Header
  body    : Option Bytes × Nat
  deriving DecidableEq

/-- The loop that turns the headers into C strings, stopping at the first bad one. -/
def cstrings : List (Bytes × Bytes) → Result (List (CString × CString))
  | [] => .ok []
  | (name, value) :: rest => do
    let n ← cstring name
    let v ← cstring value
    let cs ← cstrings rest
    .ok ((n, v) :: cs)

/-- What `submit_request` marshals, or the error it returns before the C call. -/
def submitArgs (r : Request) : Result SubmitArgs := do
  let cpath ← cstring r.path
  let cs ← cstrings r.headers
  .ok {
    method := r.method.code
    path := cpath
    headers := cs.map (fun nv => ⟨some nv.1, some nv.2⟩) ++ [Header.sentinel]
    body := sliceParts r.body }

/-- `Client::submit_request`, when the C call answers `rc` and writes `id`. -/
def submitRequest (r : Request) (rc : CInt) (id : RequestId) : Result RequestId := do
  let _args ← submitArgs r
  Error.check rc
  .ok id

/-- `Client::poll_request`, when the C call answers `rc` and writes `out`. -/
def pollRequest (rc : CInt) (out : Msg) : Result (Option Response) :=
  if rc = 0 then .ok (some ⟨out⟩)
  else if rc = Error.wouldBlock.code then .ok none
  else .error (Error.fromCode rc)

/-- `RequestHandle`, without the client it borrows. -/
structure RequestHandle where
  id   : RequestId
  done : Bool
  deriving DecidableEq

/-- `RequestHandle::poll`, when the C call answers `rc` and writes `out`. -/
def RequestHandle.poll (h : RequestHandle) (rc : CInt) (out : Msg) :
    RequestHandle × Result (Option Response) :=
  if rc = 0 then ({ h with done := true }, .ok (some ⟨out⟩))
  else if rc = Error.wouldBlock.code then (h, .ok none)
  else ({ h with done := true }, .error (Error.fromCode rc))

/-- `RequestHandle::cancel_inner`: the handle, and the ids `nwep_client_request_cancel` gets. -/
def RequestHandle.cancelInner (h : RequestHandle) : RequestHandle × List RequestId :=
  if h.done then (h, []) else ({ h with done := true }, [h.id])

/-- `RequestHandle::drop`. -/
def RequestHandle.drop (h : RequestHandle) : List RequestId := h.cancelInner.2

/-- `RequestHandle::cancel`: the handle is dropped at its end. -/
def RequestHandle.cancel (h : RequestHandle) : List RequestId :=
  let (h, ids) := h.cancelInner
  ids ++ h.drop

/-- `Connecting::poll`, when the C call answers `rc`. -/
def connectPoll (rc : CInt) : Result Bool :=
  if rc = 1 then .ok true
  else if rc = 0 then .ok false
  else .error (Error.fromCode rc)

/-- `Client::tick`. -/
def tick (rc : CInt) : Result Unit := Error.check rc

/-- `Client::is_alive`. -/
def isAlive (rc : CInt) : Bool := rc == 1

/-- `Client::next_timeout`. -/
def nextTimeout (ms : CInt) : Option Nat := timeoutMs ms

/-- A submission that succeeds returns the id the C call wrote. -/
theorem submitRequest_ok {r : Request} {rc : CInt} {id id' : RequestId}
    (h : submitRequest r rc id = .ok id') : id' = id := by
  unfold submitRequest at h
  cases ha : submitArgs r with
  | error e => rw [ha] at h; exact absurd h (by simp [bind, Except.bind])
  | ok a =>
    cases hc : Error.check rc with
    | error e => rw [ha, hc] at h; exact absurd h (by simp [bind, Except.bind])
    | ok _ =>
      rw [ha, hc] at h
      exact (Except.ok.inj h).symm

/-- Only code 0 is a response, and it carries the message the call wrote. -/
theorem pollRequest_some {rc : CInt} {out : Msg} {resp : Response} :
    pollRequest rc out = .ok (some resp) ↔ rc = 0 ∧ resp = ⟨out⟩ := by
  unfold pollRequest
  split
  · rename_i h
    simp [h, eq_comm]
  · rename_i h
    split <;> simp [h]

/-- The managed poll and the handle's poll read the answer alike. -/
theorem RequestHandle.poll_snd (h : RequestHandle) (rc : CInt) (out : Msg) :
    (h.poll rc out).2 = pollRequest rc out := by
  unfold RequestHandle.poll pollRequest
  split
  · rfl
  · split <;> rfl

/-- Dropping a handle cancels its request unless it is done. -/
theorem RequestHandle.drop_eq (h : RequestHandle) : h.drop = if h.done then [] else [h.id] := by
  unfold RequestHandle.drop RequestHandle.cancelInner
  split <;> rfl

/-- So does `cancel`, and the drop at its end adds nothing. -/
theorem RequestHandle.cancel_eq (h : RequestHandle) : h.cancel = h.drop := by
  unfold RequestHandle.cancel RequestHandle.drop RequestHandle.cancelInner
  by_cases hd : h.done = true
  · simp [hd]
  · simp [hd]

end Nwep.Client
