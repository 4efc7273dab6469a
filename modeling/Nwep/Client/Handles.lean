import Nwep.Client.DoneHook
import Nwep.Client.Marshal
import Nwep.Identity
import Nwep.Lib.Custody

/-!
# The handles of a client

Model of the values a program drives a connection with (`nwep/src/client.rs`): `Connecting` and
`Client` (`connect` and `start_connect`, 182-213; `poll_notify`, 515-528; `Client::drop`, 809-822;
`Connecting`, 832-896), `Stream` (`open_stream`, 354-369; 615-679), `RequestHandle`
(`RequestBuilder::submit`, 733-752; 908-964), `Response` (146-151) and the done callback (789-807),
for any number of each.

* A value is named by the order it was made in; what the C side handed over with it has the same
  serial, since a pointer or an id may come back. `calls` are the calls that hand something over or
  take it back, and the polls; a call that fails hands nothing over.
* A `Stream` and a `RequestHandle` borrow their client, so it is not dropped before them, nor while
  a callback of it runs.
* `fire` is the trampoline: it may run whenever its client is open, also in the body of another
  callback, and the body may do everything else. `keep` moves its response out of the body; what is
  still there when the body ends, by a panic or not, is dropped.
* `Stream::recv` and `Stream::verify` hand nothing over. The other ways to connect differ in the
  arguments of their call.

Results:
* `inv_step`: every operation keeps the books of what was handed over and of the requests;
* **`linear`**: in every run each client, stream and message is taken back once, when its value is
  gone, streams before their client, and each request is retired once.
-/

namespace Nwep.Client.Handles

open Nwep.Lib

/-- The order a value was made in. -/
abbrev Serial := Nat

/-- The id of a stream. -/
abbrev StreamId := Nat

/-- A C client: the serial it came with, and its pointer. -/
structure ClientRef where
  serial : Serial
  raw    : ClientPtr
  deriving DecidableEq

/-- What the C side hands over. -/
inductive Thing
  | client (c : ClientRef)
  | stream (h : Serial) (c : ClientRef) (id : StreamId)
  | message (h : Serial) (msg : Msg)
  deriving DecidableEq

def Thing.serial : Thing → Serial
  | .client c => c.serial
  | .stream h _ _ => h
  | .message h _ => h

/-- The C calls, by the serial of the value they are made for. -/
inductive Call
  | connect (c : ClientRef)                                    -- `nwep_client_connect[_async]`
  | close (c : ClientRef)                                      -- `nwep_client_close`
  | openStream (h : Serial) (c : ClientRef) (id : StreamId)
  | streamClose (h : Serial) (c : ClientRef) (id : StreamId)
  | handOver (h : Serial) (msg : Msg)                          -- a call or callback with a message
  | free (h : Serial) (msg : Msg)                              -- `nwep_message_free`
  | submit (h : Serial) (c : ClientRef) (id : RequestId)
  | poll (h : Serial) (c : ClientRef) (id : RequestId) (rc : CInt)
  | cancel (h : Serial) (c : ClientRef) (id : RequestId)
  deriving DecidableEq

/-- A value of the program. -/
inductive Value
  | connecting (raw : ClientPtr)
  | client (raw : ClientPtr)
  | request (client : ClientRef) (handle : RequestHandle)
  | stream (client : ClientRef) (id : StreamId)
  | response (resp : Response)
  deriving DecidableEq

/-- The client a value borrows. -/
def Value.borrows : Value → Option ClientRef
  | .request c _ => some c
  | .stream c _ => some c
  | _ => none

/-- The calls of a value's destructor. -/
def Value.drop (h : Serial) : Value → List Call
  | .connecting raw => [.close ⟨h, raw⟩]
  | .client raw => [.close ⟨h, raw⟩]
  | .request c handle => handle.drop.map (.cancel h c)
  | .stream c id => [.streamClose h c id]
  | .response resp => [.free h resp.msg]

/-- A body that runs: whose callback it is, and the response it was called with while it has it. -/
structure Frame where
  client : Serial
  param  : Option Serial
  deriving DecidableEq

structure State where
  values : Serial → Option Value
  next   : Serial
  frames : List Frame
  calls  : List Call

def init : State := ⟨fun _ => none, 0, [], []⟩

/-! ## The operations -/

/-- `ClientBuilder::connect` and `start_connect`, when the call answers `rc` and writes `raw`; and
whether it is made. -/
def connectWith (identity : Option Identity) (rc : CInt) (raw : ClientPtr) :
    Result ClientPtr × Bool :=
  match identity with
  | none => (.error .configMissing, false)
  | some identity => (do (identity.withKeypair fun _ _ => Error.check rc).1; .ok raw, true)

/-- `Client::open_stream`, when the call answers `rc` and writes `id`; and whether it is made. -/
def openStream (path : Bytes) (rc : CInt) (id : StreamId) : Result StreamId × Bool :=
  match cstring path with
  | .error e => (.error e, false)
  | .ok _ => (do Error.check rc; .ok id, true)

/-- `Stream::response`, when the call answers `rc` and writes `resp`. -/
def streamResponse (rc : CInt) (resp : Msg) : Result Response := do
  Error.check rc
  .ok ⟨resp⟩

/-- `Client::poll_notify`, when the call returns `msg`. -/
def pollNotify (msg : Option Msg) : Option Response := msg.map Response.mk

/-- `Client::request` with the headers and the body set. -/
def builder (raw : ClientPtr) (r : Request) : RequestBuilder :=
  let b := RequestBuilder.new raw r.method r.path
  (r.headers.foldl (fun b nv => b.header nv.1 nv.2) b).setBody r.body

/-- The call, where it hands something over. -/
def handedIf (p : Prop) [Decidable p] (call : Call) : List Call := if p then [call] else []

namespace State

/-- An operation makes the next value, or none. -/
def create (s : State) (calls : List Call) (v : Option Value) : State :=
  { s with
    values := Function.update s.values s.next v
    next := s.next + 1
    calls := s.calls ++ calls }

/-- A value changes. -/
def replace (s : State) (h : Serial) (calls : List Call) (v : Value) : State :=
  { s with values := Function.update s.values h (some v), calls := s.calls ++ calls }

/-- A value is dropped. -/
def take (s : State) (h : Serial) (calls : List Call) : State :=
  { s with values := Function.update s.values h none, calls := s.calls ++ calls }

/-- A value borrows `h`, a callback of it runs, or it is the parameter of a body. -/
def Busy (s : State) (h : Serial) : Prop :=
  (∃ k < s.next, ((s.values k).bind Value.borrows).map ClientRef.serial = some h) ∨
    ∃ f ∈ s.frames, f.client = h ∨ f.param = some h

instance (s : State) (h : Serial) : Decidable (s.Busy h) :=
  inferInstanceAs (Decidable (_ ∨ _))

end State

inductive Act
  | startConnect (identity : Option Identity) (rc : CInt) (raw : ClientPtr)
  | connect (identity : Option Identity) (rc : CInt) (raw : ClientPtr)
  | connectingTick (h : Serial) (rc : CInt)
  | connectingPoll (h : Serial) (rc : CInt)
  | intoClient (h : Serial)
  | tick (h : Serial) (rc : CInt)
  | submit (h : Serial) (r : Request) (rc : CInt) (id : RequestId)
  | send (h : Serial) (r : Request) (rc : CInt) (resp : Msg)
  | openStream (h : Serial) (path : Bytes) (rc : CInt) (id : StreamId)
  | pollNotify (h : Serial) (msg : Option Msg)
  | fire (h : Serial) (id : RequestId) (status : CInt) (resp : Msg)
  | keep
  | bodyEnds (panics : Bool)
  | poll (h : Serial) (rc : CInt) (out : Msg)
  | cancel (h : Serial)
  | streamResponse (h : Serial) (rc : CInt) (resp : Msg)
  | drop (h : Serial)
  deriving DecidableEq

def step (s : State) : Act → Option State
  | .startConnect identity rc raw =>
    let (r, made) := connectWith identity rc raw
    some (s.create (handedIf (made = true ∧ 0 ≤ rc) (.connect ⟨s.next, raw⟩))
      (r.toOption.map .connecting))
  -- `Client::wrap`
  | .connect identity rc raw =>
    let (r, made) := connectWith identity rc raw
    some (s.create (handedIf (made = true ∧ 0 ≤ rc) (.connect ⟨s.next, raw⟩))
      (r.toOption.map .client))
  -- whatever they return, the handle stays as it is
  | .connectingTick h _ | .connectingPoll h _ =>
    match s.values h with
    | some (.connecting _) => some s
    | _ => none
  -- `mem::forget`: the pointer moves, and nothing is closed
  | .intoClient h =>
    match s.values h with
    | some (.connecting raw) => some (s.replace h [] (.client raw))
    | _ => none
  | .tick h _ =>
    match s.values h with
    | some (.client _) => some s
    | _ => none
  | .submit h r rc id =>
    match s.values h with
    | some (.client raw) =>
      let (built, made) := (builder raw r).submit rc id
      some (s.create (handedIf (made ≠ [] ∧ 0 ≤ rc) (.submit s.next ⟨h, raw⟩ id))
        (built.toOption.map (.request ⟨h, raw⟩)))
    | _ => none
  | .send h r rc resp =>
    match s.values h with
    | some (.client raw) =>
      let (sent, made) := (builder raw r).send rc resp
      some (s.create (handedIf (made ≠ [] ∧ 0 ≤ rc) (.handOver s.next resp))
        (sent.toOption.map .response))
    | _ => none
  | .openStream h path rc id =>
    match s.values h with
    | some (.client raw) =>
      let (opened, made) := Handles.openStream path rc id
      some (s.create (handedIf (made = true ∧ 0 ≤ rc) (.openStream s.next ⟨h, raw⟩ id))
        (opened.toOption.map (.stream ⟨h, raw⟩)))
    | _ => none
  | .pollNotify h msg =>
    match s.values h with
    | some (.client _) =>
      some (s.create (msg.toList.map (.handOver s.next)) ((Handles.pollNotify msg).map .response))
    | _ => none
  | .fire h _ status resp =>
    match s.values h with
    | some (.client _) =>
      let result := (DoneHook.doneResult status resp).toOption
      some { s.create (handedIf (status = 0) (.handOver s.next resp)) (result.map .response) with
        frames := ⟨h, result.map fun _ => s.next⟩ :: s.frames }
    | _ => none
  | .keep =>
    match s.frames with
    | f :: rest => some { s with frames := ⟨f.client, none⟩ :: rest }
    | [] => none
  -- `catch_unwind`
  | .bodyEnds _ =>
    match s.frames with
    | ⟨_, none⟩ :: rest => some { s with frames := rest }
    | ⟨_, some k⟩ :: rest =>
      match s.values k with
      | some v => some { s.take k (v.drop k) with frames := rest }
      | none => none
    | [] => none
  | .poll h rc out =>
    match s.values h with
    | some (.request c handle) =>
      let (handle', r) := handle.poll rc out
      let s := s.replace h [.poll h c handle.id rc] (.request c handle')
      some (s.create (handedIf (rc = 0) (.handOver s.next out)) (r.toOption.join.map .response))
    | _ => none
  | .cancel h =>
    match s.values h with
    | some (.request c handle) => some (s.take h (handle.cancel.map (.cancel h c)))
    | _ => none
  | .streamResponse h rc resp =>
    match s.values h with
    | some (.stream _ _) =>
      some (s.create (handedIf (0 ≤ rc) (.handOver s.next resp))
        ((Handles.streamResponse rc resp).toOption.map .response))
    | _ => none
  | .drop h =>
    match s.values h with
    | some v => if s.Busy h then none else some (s.take h (v.drop h))
    | none => none

/-- The runs of a program over its handles. -/
def machine : Machine State Act := ⟨init, step⟩

/-! ## What the calls hand over and take back -/

/-- The call that hands a thing over. -/
def Thing.handed : Thing → Call
  | .client c => .connect c
  | .stream h c id => .openStream h c id
  | .message h msg => .handOver h msg

/-- The call that takes it back. -/
def Thing.taken : Thing → Call
  | .client c => .close c
  | .stream h c id => .streamClose h c id
  | .message h msg => .free h msg

/-- The custody of a call. A stream borrows its client. -/
def Call.acts : Call → List (CustodyAct Thing)
  | .connect c => [.acquire (.client c)]
  | .close c => [.release (.client c)]
  | .openStream h c id => [.acquire (.stream h c id), .borrow (.stream h c id) (.client c)]
  | .streamClose h c id => [.release (.stream h c id)]
  | .handOver h msg => [.acquire (.message h msg)]
  | .free h msg => [.release (.message h msg)]
  | .submit _ _ _ | .poll _ _ _ _ | .cancel _ _ _ => []

def actsOf (calls : List Call) : List (CustodyAct Thing) := calls.flatMap Call.acts

@[simp] theorem actsOf_append (calls more : List Call) :
    actsOf (calls ++ more) = actsOf calls ++ actsOf more := List.flatMap_append

theorem acts_acquire (t : Thing) (call : Call) :
    call.acts.count (.acquire t) = if call == t.handed then 1 else 0 := by
  cases call <;> cases t <;> simp [Call.acts, Thing.handed, List.count_cons]

theorem acts_release (t : Thing) (call : Call) :
    call.acts.count (.release t) = if call == t.taken then 1 else 0 := by
  cases call <;> cases t <;> simp [Call.acts, Thing.taken, List.count_cons]

theorem count_acquire (t : Thing) (calls : List Call) :
    (actsOf calls).count (.acquire t) = calls.count t.handed :=
  Custody.count_flatMap (acts_acquire t) calls

theorem count_release (t : Thing) (calls : List Call) :
    (actsOf calls).count (.release t) = calls.count t.taken :=
  Custody.count_flatMap (acts_release t) calls

/-- What a value owns. -/
def Value.thing (h : Serial) : Value → Option Thing
  | .connecting raw => some (.client ⟨h, raw⟩)
  | .client raw => some (.client ⟨h, raw⟩)
  | .stream c id => some (.stream h c id)
  | .response resp => some (.message h resp.msg)
  | .request _ _ => none

/-- The custody a value comes with. -/
def Value.acts (h : Serial) : Value → List (CustodyAct Thing)
  | .connecting raw => [.acquire (.client ⟨h, raw⟩)]
  | .client raw => [.acquire (.client ⟨h, raw⟩)]
  | .stream c id => [.acquire (.stream h c id), .borrow (.stream h c id) (.client c)]
  | .response resp => [.acquire (.message h resp.msg)]
  | .request _ _ => []

/-- Some value owns the thing. -/
def Owned (values : Serial → Option Value) (t : Thing) : Prop :=
  (values t.serial).bind (Value.thing t.serial) = some t

instance (values : Serial → Option Value) (t : Thing) : Decidable (Owned values t) :=
  inferInstanceAs (Decidable (_ = _))

theorem thing_serial {h : Serial} {v : Value} {t : Thing} (hv : v.thing h = some t) :
    t.serial = h := by
  cases v with
  | request c handle => exact absurd hv (by simp [Value.thing])
  | _ =>
    obtain rfl := Option.some.inj hv
    rfl

theorem owned_iff {values : Serial → Option Value} {t : Thing} :
    Owned values t ↔ ∃ v, values t.serial = some v ∧ v.thing t.serial = some t :=
  Option.bind_eq_some_iff

/-- What is owned after one value is written. -/
theorem owned_update {values : Serial → Option Value} {h : Serial} {v : Option Value} {t : Thing} :
    Owned (Function.update values h v) t ↔
      if t.serial = h then v.bind (Value.thing h) = some t else Owned values t := by
  unfold Owned
  by_cases ht : t.serial = h
  · subst ht
    simp
  · simp [ht]

/-! ## Requests -/

/-- The handle a value is. -/
def Value.handle : Value → Option (ClientRef × RequestHandle)
  | .request c handle => some (c, handle)
  | _ => none

def State.request (s : State) (h : Serial) : Option (ClientRef × RequestHandle) :=
  (s.values h).bind Value.handle

/-- The handle a call is about. -/
def Call.request : Call → Option Serial
  | .submit h _ _ => some h
  | .poll h _ _ _ => some h
  | .cancel h _ _ => some h
  | _ => none

/-- A poll of the request that reported a terminal result. -/
def Call.ends (h : Serial) (c : ClientRef) (id : RequestId) : Call → Bool
  | .poll h' c' id' rc => h' = h ∧ c' = c ∧ id' = id ∧ rc ≠ Error.wouldBlock.code
  | _ => false

/-- A cancel for the handle, of whatever id. -/
def Call.cancels (h : Serial) : Call → Bool
  | .cancel h' _ _ => h' = h
  | _ => false

/-- A request is retired once: a poll ended it and nothing cancels it, or no poll did and it is
cancelled once. -/
def Retired (calls : List Call) (h : Serial) (c : ClientRef) (id : RequestId) : Prop :=
  (0 < calls.countP (Call.ends h c id) ∧ calls.countP (Call.cancels h) = 0) ∨
    (calls.countP (Call.ends h c id) = 0 ∧ calls.countP (Call.cancels h) = 1 ∧
      calls.count (.cancel h c id) = 1)

/-- A handle that is left is not cancelled, and is done when a poll ended it. -/
structure Pending (calls : List Call) (h : Serial) (c : ClientRef) (handle : RequestHandle) :
    Prop where
  cancels : calls.countP (Call.cancels h) = 0
  done    : handle.done = true ↔ 0 < calls.countP (Call.ends h c handle.id)

/-- A submitted request is with its handle, or retired. -/
def Settled (calls : List Call) (h : Serial) (c : ClientRef) (id : RequestId) :
    Option (ClientRef × RequestHandle) → Prop
  | some (c', handle) => c' = c ∧ handle.id = id ∧ calls.countP (Call.cancels h) = 0
  | none => Retired calls h c id

section Append

variable {calls cs : List Call} {h : Serial} {c : ClientRef} {id : RequestId}

theorem countP_quiet {p : Call → Bool} (hp : ∀ call, p call = true → call.request = some h)
    (hcs : ∀ call ∈ cs, call.request ≠ some h) : (calls ++ cs).countP p = calls.countP p := by
  rw [List.countP_append, List.countP_eq_zero.mpr fun call hm hcall => hcs call hm (hp call hcall)]
  rfl

theorem ends_request (call : Call) (hcall : call.ends h c id = true) : call.request = some h := by
  cases call with
  | poll h' c' id' rc =>
    simp only [Call.ends, decide_eq_true_eq] at hcall
    exact congrArg some hcall.1
  | _ => exact absurd hcall (by simp [Call.ends])

theorem cancels_request (call : Call) (hcall : call.cancels h = true) : call.request = some h := by
  cases call with
  | cancel h' c' id' => exact congrArg some (of_decide_eq_true hcall)
  | _ => exact absurd hcall (by simp [Call.cancels])

variable (hcs : ∀ call ∈ cs, call.request ≠ some h)
include hcs

/-- Calls for other handles leave a handle's books as they are. -/
theorem Pending.append {handle : RequestHandle} (hp : Pending calls h c handle) :
    Pending (calls ++ cs) h c handle where
  cancels := (countP_quiet cancels_request hcs).trans hp.cancels
  done := by
    rw [countP_quiet ends_request hcs]
    exact hp.done

theorem Settled.append {r : Option (ClientRef × RequestHandle)} (hr : Settled calls h c id r) :
    Settled (calls ++ cs) h c id r := by
  have hcount : (calls ++ cs).count (.cancel h c id) = calls.count (.cancel h c id) := by
    refine countP_quiet (h := h) ?_ hcs
    intro call hcall
    rw [beq_iff_eq.mp hcall]
    rfl
  cases r with
  | some r =>
    simp only [Settled, countP_quiet cancels_request hcs]
    exact hr
  | none =>
    simp only [Settled, Retired, countP_quiet cancels_request hcs, countP_quiet ends_request hcs,
      hcount]
    exact hr

end Append

/-- The books of the requests. -/
structure Requests (requests : Serial → Option (ClientRef × RequestHandle)) (next : Serial)
    (calls : List Call) : Prop where
  known   : ∀ call ∈ calls, ∀ h, call.request = some h → h < next
  pending : ∀ h c handle, requests h = some (c, handle) → Pending calls h c handle
  settled : ∀ h c id, .submit h c id ∈ calls → Settled calls h c id (requests h)

/-- An operation has to keep the books of the handles it is about. -/
theorem Requests.append {requests requests' : Serial → Option (ClientRef × RequestHandle)}
    {next next' : Serial} {calls cs : List Call} (hR : Requests requests next calls)
    (hle : next ≤ next') (hknown : ∀ call ∈ cs, ∀ h, call.request = some h → h < next')
    (hkeep : ∀ h, (requests' h = requests h ∧ ∀ call ∈ cs, call.request ≠ some h) ∨
      ((∀ c handle, requests' h = some (c, handle) → Pending (calls ++ cs) h c handle) ∧
        ∀ c id, .submit h c id ∈ calls ++ cs → Settled (calls ++ cs) h c id (requests' h))) :
    Requests requests' next' (calls ++ cs) where
  known call hm h hh := by
    rcases List.mem_append.mp hm with hm | hm
    · exact Nat.lt_of_lt_of_le (hR.known call hm h hh) hle
    · exact hknown call hm h hh
  pending h c handle hh := by
    rcases hkeep h with ⟨hsame, hother⟩ | ⟨hpending, -⟩
    · rw [hsame] at hh
      exact (hR.pending h c handle hh).append hother
    · exact hpending c handle hh
  settled h c id hm := by
    rcases hkeep h with ⟨hsame, hother⟩ | ⟨-, hsettled⟩
    · have hold : .submit h c id ∈ calls :=
        (List.mem_append.mp hm).resolve_right fun hm => hother _ hm rfl
      rw [hsame]
      exact (hR.settled h c id hold).append hother
    · exact hsettled c id hm

/-- An operation about one handle has to keep the books of that one. -/
theorem Requests.update {requests : Serial → Option (ClientRef × RequestHandle)}
    {next next' : Serial} {calls cs : List Call} (hR : Requests requests next calls)
    (hle : next ≤ next') {h : Serial} (hlt : h < next') {r : Option (ClientRef × RequestHandle)}
    (hcs : ∀ call ∈ cs, ∀ k, call.request = some k → k = h)
    (hpending : ∀ c handle, r = some (c, handle) → Pending (calls ++ cs) h c handle)
    (hsettled : ∀ c id, .submit h c id ∈ calls ++ cs → Settled (calls ++ cs) h c id r) :
    Requests (Function.update requests h r) next' (calls ++ cs) := by
  refine hR.append hle ?_ fun k => ?_
  · intro call hm k hk
    obtain rfl := hcs call hm k hk
    exact hlt
  · by_cases hk : k = h
    · subst hk
      rw [Function.update_self]
      exact Or.inr ⟨hpending, hsettled⟩
    · rw [Function.update_of_ne hk]
      exact Or.inl ⟨rfl, fun call hm hcall => hk (hcs call hm k hcall)⟩

/-- An operation about no handle keeps them all. -/
theorem Requests.quiet {requests : Serial → Option (ClientRef × RequestHandle)}
    {next next' : Serial} {calls cs : List Call} (hR : Requests requests next calls)
    (hle : next ≤ next') (hcs : ∀ call ∈ cs, call.request = none) :
    Requests requests next' (calls ++ cs) := by
  refine hR.append hle ?_ fun h => Or.inl ⟨rfl, ?_⟩
  · intro call hm h hh
    exact absurd ((hcs call hm).symm.trans hh) (by simp)
  · intro call hm hh
    exact absurd ((hcs call hm).symm.trans hh) (by simp)

/-! ## The books -/

/-- The responses the running bodies have. -/
def State.params (s : State) : List Serial := s.frames.filterMap Frame.param

/-- What is borrowed is there, and what a body has is a response of its own. -/
structure Tidy (s : State) : Prop where
  fresh    : ∀ h, s.next ≤ h → s.values h = none
  borrowed : ∀ h v c, s.values h = some v → v.borrows = some c →
    s.values c.serial = some (.client c.raw)
  params   : ∀ h ∈ s.params, ∃ resp, s.values h = some (.response resp)
  distinct : s.params.Nodup

/-- Custody agrees with what the values own. -/
structure Books (s : State) (w : Custody Thing) : Prop where
  live    : ∀ t, t ∈ w.live ↔ Owned s.values t
  gone    : ∀ t ∈ w.gone, t.serial < s.next
  lenders : ∀ p ∈ w.borrows, ∃ h c id, p = (.stream h c id, .client c)

/-- What an operation keeps. -/
structure Inv (s : State) : Prop where
  tidy     : Tidy s
  custody  : ∃ w, (Custody.machine Thing).run (actsOf s.calls) = some w ∧ Books s w
  requests : Requests s.request s.next s.calls

theorem inv_init : Inv init where
  tidy := {
    fresh := fun _ _ => rfl
    borrowed := fun h v c hv => absurd hv (by simp [init])
    params := fun h hh => absurd hh List.not_mem_nil
    distinct := List.nodup_nil }
  custody := ⟨⟨[], [], []⟩, rfl, {
    live := fun t => by simp [Owned, init]
    gone := fun t ht => absurd ht List.not_mem_nil
    lenders := fun p hp => absurd hp List.not_mem_nil }⟩
  requests := {
    known := fun call hm => absurd hm List.not_mem_nil
    pending := fun h c handle hh => absurd hh (by simp [State.request, init])
    settled := fun h c id hm => absurd hm List.not_mem_nil }

section Operations

variable {s : State} {w : Custody Thing}

theorem Tidy.lt_next (hT : Tidy s) {h : Serial} {v : Value} (hv : s.values h = some v) :
    h < s.next := by
  by_contra hn
  rw [hT.fresh h (Nat.le_of_not_lt hn)] at hv
  exact absurd hv (by simp)

theorem request_update {values : Serial → Option Value} {h : Serial} {v : Option Value} :
    (fun k => (Function.update values h v k).bind Value.handle) =
      Function.update (fun k => (values k).bind Value.handle) h (v.bind Value.handle) := by
  funext k
  by_cases hk : k = h
  · subst hk
    simp
  · simp [hk]

/-! ### Making a value -/

/-- What the calls bring is what the value owns, and what it borrows is there. -/
structure Makes (s : State) (cs : List Call) (v : Option Value) : Prop where
  acts   : actsOf cs = v.elim [] (Value.acts s.next)
  lender : ∀ c, v.bind Value.borrows = some c → s.values c.serial = some (.client c.raw)

/-- What the C side hands over, and the value made of it. -/
structure HandsOver (s : State) (cs : List Call) (v : Option Value) : Prop extends
    Makes s cs v where
  quiet : ∀ call ∈ cs, call.request = none
  other : v.bind Value.handle = none

theorem create_tidy (hT : Tidy s) {cs : List Call} {v : Option Value} (hm : Makes s cs v) :
    Tidy (s.create cs v) := by
  have hne : ∀ {h u}, s.values h = some u → h ≠ s.next := fun hu => Nat.ne_of_lt (hT.lt_next hu)
  have hold : ∀ {h u}, s.values h = some u → (s.create cs v).values h = some u := by
    intro h u hu
    exact (Function.update_of_ne (hne hu) _ _).trans hu
  constructor
  · intro h hh
    have hn : h ≠ s.next := Nat.ne_of_gt hh
    exact (Function.update_of_ne hn _ _).trans (hT.fresh h (Nat.le_of_succ_le hh))
  · intro h u c hu hc
    by_cases hn : h = s.next
    · subst hn
      simp only [State.create, Function.update_self] at hu
      exact hold (hm.lender c (by rw [hu]; exact hc))
    · have hu' : s.values h = some u := (Function.update_of_ne hn _ _).symm.trans hu
      exact hold (hT.borrowed h u c hu' hc)
  · intro h hh
    obtain ⟨resp, hr⟩ := hT.params h hh
    exact ⟨resp, hold hr⟩
  · exact hT.distinct

/-- A value that owns nothing changes nothing in custody. -/
theorem Books.create_none (hT : Tidy s) (hB : Books s w) (cs : List Call) {v : Option Value}
    (hv : v.bind (Value.thing s.next) = none) : Books (s.create cs v) w where
  live t := by
    rw [hB.live]
    unfold State.create
    simp only [owned_update, hv]
    by_cases ht : t.serial = s.next
    · simp [ht, owned_iff, hT.fresh _ (Nat.le_refl _)]
    · simp [ht]
  gone t ht := Nat.lt_succ_of_lt (hB.gone t ht)
  lenders := hB.lenders

/-- A value that owns a thing brings it into custody. -/
theorem Books.create_some (hT : Tidy s) (hB : Books s w) (cs : List Call) {v : Value} {t : Thing}
    (ht : v.thing s.next = some t) :
    Custody.step w (.acquire t) = some { w with live := t :: w.live } ∧
      Books (s.create cs (some v)) { w with live := t :: w.live } := by
  have hserial : t.serial = s.next := thing_serial ht
  have hnew : s.values s.next = none := hT.fresh _ (Nat.le_refl _)
  have hlive : t ∉ w.live := by
    rw [hB.live, owned_iff, hserial, hnew]
    simp
  have hgone : t ∉ w.gone := fun hm => Nat.ne_of_lt (hB.gone t hm) hserial
  refine ⟨if_neg (by simp [hlive, hgone]), ?_, ?_, hB.lenders⟩
  · intro u
    unfold State.create
    simp only [owned_update, List.mem_cons, hB.live, Option.bind_some, ht, Option.some.injEq]
    by_cases hu : u.serial = s.next
    · have hno : ¬ Owned s.values u := by
        rw [owned_iff, hu, hnew]
        simp
      simp [hu, hno, eq_comm]
    · have hut : u ≠ t := fun he => hu (he ▸ hserial)
      simp [hu, hut]
  · exact fun u hu => Nat.lt_succ_of_lt (hB.gone u hu)

/-- **What is handed over comes into custody** with its value. -/
theorem create_books (hT : Tidy s) (hB : Books s w) {cs : List Call} {v : Option Value}
    (hm : Makes s cs v) :
    ∃ w', (Custody.machine Thing).runFrom w (actsOf cs) = some w' ∧ Books (s.create cs v) w' := by
  have hone {u : Value} {t : Thing} (hu : u.thing s.next = some t) :
      ∃ w', (Custody.machine Thing).runFrom w [.acquire t] = some w' ∧
        Books (s.create cs (some u)) w' := by
    obtain ⟨hstep, hB'⟩ := hB.create_some hT cs hu
    exact ⟨_, (Custody.machine Thing).runFrom_cons.mpr ⟨_, hstep, rfl⟩, hB'⟩
  rw [hm.acts]
  cases v with
  | none => exact ⟨w, rfl, hB.create_none hT cs rfl⟩
  | some v =>
    cases v with
    | request c handle => exact ⟨w, rfl, hB.create_none hT cs rfl⟩
    | connecting raw => exact hone (u := .connecting raw) rfl
    | client raw => exact hone (u := .client raw) rfl
    | response resp => exact hone (u := .response resp) rfl
    | stream c id =>
      obtain ⟨hstep, hB'⟩ := hB.create_some hT cs (v := .stream c id) (t := _) rfl
      have hclient : .client c ∈ w.live := by
        rw [hB.live, owned_iff]
        exact ⟨_, hm.lender c rfl, rfl⟩
      refine ⟨_, (Custody.machine Thing).runFrom_cons.mpr ⟨_, hstep,
        (Custody.machine Thing).runFrom_cons.mpr ⟨_, if_pos ⟨List.mem_cons_self,
          List.mem_cons_of_mem _ hclient⟩, rfl⟩⟩, hB'.live, hB'.gone, ?_⟩
      intro p hp
      rcases List.mem_cons.mp hp with rfl | hp
      · exact ⟨_, c, id, rfl⟩
      · exact hB.lenders p hp

/-- The custody of a run that goes on. -/
theorem custody_append (hI : Inv s) {t : State} {cs : List Call} (hcalls : t.calls = s.calls ++ cs)
    (hbooks : ∀ w, (Custody.machine Thing).run (actsOf s.calls) = some w → Books s w →
      ∃ w', (Custody.machine Thing).runFrom w (actsOf cs) = some w' ∧ Books t w') :
    ∃ w, (Custody.machine Thing).run (actsOf t.calls) = some w ∧ Books t w := by
  obtain ⟨w, hrun, hB⟩ := hI.custody
  obtain ⟨w', hrun', hB'⟩ := hbooks w hrun hB
  refine ⟨w', ?_, hB'⟩
  rw [hcalls, actsOf_append]
  exact (Custody.machine Thing).run_append.mpr ⟨w, hrun, hrun'⟩

theorem create_inv (hI : Inv s) {cs : List Call} {v : Option Value} (hh : HandsOver s cs v) :
    Inv (s.create cs v) where
  tidy := create_tidy hI.tidy hh.toMakes
  custody := custody_append hI rfl fun w _ hB => create_books hI.tidy hB hh.toMakes
  requests := by
    have hsame : (s.create cs v).request = s.request := by
      refine request_update.trans ?_
      rw [hh.other]
      refine Function.update_eq_self_iff.mpr ?_
      simp [hI.tidy.fresh _ (Nat.le_refl _)]
    rw [hsame]
    exact hI.requests.quiet (Nat.le_succ _) hh.quiet

/-- A response handed to a body is one that no other body has. -/
theorem fire_inv (hI : Inv s) {cs : List Call} {resp : Option Response}
    (hh : HandsOver s cs (resp.map .response)) (h : Serial) :
    Inv { s.create cs (resp.map .response) with
      frames := ⟨h, resp.map fun _ => s.next⟩ :: s.frames } := by
  have hI' := create_inv hI hh
  refine ⟨⟨hI'.tidy.fresh, hI'.tidy.borrowed, ?_, ?_⟩, ?_, hI'.requests⟩
  · cases resp with
    | none => exact hI'.tidy.params
    | some resp =>
      intro k hk
      rcases List.mem_cons.mp hk with rfl | hk
      · exact ⟨resp, Function.update_self s.next _ s.values⟩
      · exact hI'.tidy.params k hk
  · cases resp with
    | none => exact hI'.tidy.distinct
    | some resp =>
      refine List.nodup_cons.mpr ⟨fun hm => ?_, hI'.tidy.distinct⟩
      obtain ⟨old, hold⟩ := hI.tidy.params s.next hm
      exact Nat.lt_irrefl _ (hI.tidy.lt_next hold)
  · obtain ⟨w, hrun, hB⟩ := hI'.custody
    exact ⟨w, hrun, hB.live, hB.gone, hB.lenders⟩

/-- A body that ends, or gives up its response. -/
theorem frames_inv (hI : Inv s) {frames : List Frame}
    (hsub : (frames.filterMap Frame.param).Sublist s.params) : Inv { s with frames := frames } where
  tidy := ⟨hI.tidy.fresh, hI.tidy.borrowed, fun h hh => hI.tidy.params h (hsub.subset hh),
    hI.tidy.distinct.sublist hsub⟩
  custody := by
    obtain ⟨w, hrun, hB⟩ := hI.custody
    exact ⟨w, hrun, hB.live, hB.gone, hB.lenders⟩
  requests := hI.requests

/-! ### Changing a value -/

/-- A value is replaced by one that owns and borrows the same. -/
structure Alike (h : Serial) (v u : Value) : Prop where
  thing    : u.thing h = v.thing h
  borrows  : u.borrows = v.borrows
  client   : ∀ raw, v = .client raw → u = v
  response : ∀ resp, v = .response resp → u = v

theorem replace_tidy (hT : Tidy s) {h : Serial} {v u : Value} (hv : s.values h = some v)
    (hvu : Alike h v u) (cs : List Call) : Tidy (s.replace h cs u) := by
  have hold : ∀ {k x}, s.values k = some x → (v = x → u = v) →
      (s.replace h cs u).values k = some x := by
    intro k x hx hkeep
    by_cases hk : k = h
    · subst hk
      obtain rfl := Option.some.inj (hv.symm.trans hx)
      rw [hkeep rfl]
      exact Function.update_self k _ s.values
    · exact (Function.update_of_ne hk _ _).trans hx
  constructor
  · intro k hk
    have hne : k ≠ h := Nat.ne_of_gt (Nat.lt_of_lt_of_le (hT.lt_next hv) hk)
    exact (Function.update_of_ne hne _ _).trans (hT.fresh k hk)
  · intro k x c hx hc
    have hlender : s.values c.serial = some (.client c.raw) := by
      by_cases hk : k = h
      · subst hk
        simp only [State.replace, Function.update_self, Option.some.injEq] at hx
        subst hx
        exact hT.borrowed k v c hv (hvu.borrows ▸ hc)
      · exact hT.borrowed k x c ((Function.update_of_ne hk _ _).symm.trans hx) hc
    exact hold hlender (hvu.client _)
  · intro k hk
    obtain ⟨resp, hr⟩ := hT.params k hk
    exact ⟨resp, hold hr (hvu.response _)⟩
  · exact hT.distinct

theorem replace_books (hB : Books s w) {h : Serial} {v u : Value} (hv : s.values h = some v)
    (hvu : Alike h v u) (cs : List Call) : Books (s.replace h cs u) w where
  live t := by
    rw [hB.live]
    unfold State.replace
    simp only [owned_update, Option.bind_some, hvu.thing]
    by_cases ht : t.serial = h
    · simp [ht, Owned, hv]
    · simp [ht]
  gone := hB.gone
  lenders := hB.lenders

theorem alike_client (h : Serial) (raw : ClientPtr) : Alike h (.connecting raw) (.client raw) :=
  ⟨rfl, rfl, fun _ he => absurd he (by simp), fun _ he => absurd he (by simp)⟩

theorem alike_request (h : Serial) (c : ClientRef) (handle handle' : RequestHandle) :
    Alike h (.request c handle) (.request c handle') :=
  ⟨rfl, rfl, fun _ he => absurd he (by simp), fun _ he => absurd he (by simp)⟩

/-- `into_client`: the client it owns stays in custody. -/
theorem intoClient_inv (hI : Inv s) {h : Serial} {raw : ClientPtr}
    (hv : s.values h = some (.connecting raw)) : Inv (s.replace h [] (.client raw)) where
  tidy := replace_tidy hI.tidy hv (alike_client h raw) []
  custody := custody_append hI rfl fun w _ hB =>
    ⟨w, rfl, replace_books hB hv (alike_client h raw) []⟩
  requests := by
    have hsame : (s.replace h [] (.client raw)).request = s.request := by
      refine request_update.trans ?_
      refine Function.update_eq_self_iff.mpr ?_
      simp [hv, Value.handle]
    rw [hsame]
    exact hI.requests.quiet (Nat.le_refl _) (by simp)

/-! ### Requests -/

theorem not_known (hR : Requests s.request s.next s.calls) {call : Call}
    (hcall : call.request = some s.next) : call ∉ s.calls :=
  fun hm => Nat.lt_irrefl _ (hR.known call hm s.next hcall)

theorem submit_makes {c : ClientRef} (hc : s.values c.serial = some (.client c.raw))
    (id : RequestId) : Makes s [.submit s.next c id] (some (.request c ⟨id, false⟩)) where
  acts := rfl
  lender := by
    rintro c' ⟨⟩
    exact hc

/-- A submitted request is with its handle. -/
theorem submit_inv (hI : Inv s) {c : ClientRef} (hc : s.values c.serial = some (.client c.raw))
    (id : RequestId) :
    Inv (s.create [.submit s.next c id] (some (.request c ⟨id, false⟩))) where
  tidy := create_tidy hI.tidy (submit_makes hc id)
  custody := custody_append hI rfl fun w _ hB => create_books hI.tidy hB (submit_makes hc id)
  requests := by
    have hnone {p : Call → Bool} (hp : ∀ call, p call = true → call.request = some s.next) :
        s.calls.countP p = 0 :=
      List.countP_eq_zero.mpr fun call hm hcall => not_known hI.requests (hp call hcall) hm
    have hpending : Pending (s.calls ++ [.submit s.next c id]) s.next c ⟨id, false⟩ := by
      constructor
      · rw [List.countP_append, hnone cancels_request]
        rfl
      · rw [List.countP_append, hnone ends_request]
        simp [Call.ends]
    have hnew : (s.create [.submit s.next c id] (some (.request c ⟨id, false⟩))).request =
        Function.update s.request s.next (some (c, ⟨id, false⟩)) := request_update
    rw [hnew]
    refine hI.requests.update (Nat.le_succ _) (Nat.lt_succ_self _) ?_ ?_ ?_
    · intro call hm k hk
      obtain rfl := List.mem_singleton.mp hm
      exact (Option.some.inj hk).symm
    · rintro c' handle' ⟨⟩
      exact hpending
    · intro c' id' hm
      have hlast := (List.mem_append.mp hm).resolve_left (not_known hI.requests rfl)
      obtain ⟨-, rfl, rfl⟩ := Call.submit.inj (List.mem_singleton.mp hlast)
      exact ⟨rfl, rfl, hpending.cancels⟩

/-- A handle is done once a poll reported a terminal result. -/
theorem poll_done (handle : RequestHandle) (rc : CInt) (out : Msg) :
    (handle.poll rc out).1 =
      { handle with done := handle.done || decide (rc ≠ Error.wouldBlock.code) } := by
  unfold RequestHandle.poll
  split
  · rename_i hrc
    subst hrc
    simp [Error.code]
  · split
    · rename_i hrc
      simp [hrc]
    · rename_i hrc
      simp [hrc]

/-- **A poll** ends the request or leaves it as it is. -/
theorem poll_inv (hI : Inv s) {h : Serial} {c : ClientRef} {handle : RequestHandle}
    (hv : s.values h = some (.request c handle)) (rc : CInt) (out : Msg) :
    Inv (s.replace h [.poll h c handle.id rc] (.request c (handle.poll rc out).1)) where
  tidy := replace_tidy hI.tidy hv (alike_request h c _ _) _
  custody := custody_append hI rfl fun w _ hB =>
    ⟨w, rfl, replace_books hB hv (alike_request h c _ _) _⟩
  requests := by
    have hreq : s.request h = some (c, handle) := by
      unfold State.request
      rw [hv]
      rfl
    have hnew : (s.replace h [.poll h c handle.id rc]
        (.request c (handle.poll rc out).1)).request =
        Function.update s.request h (some (c, (handle.poll rc out).1)) := request_update
    have hold : Pending s.calls h c handle := hI.requests.pending h c handle hreq
    have hpending : Pending (s.calls ++ [.poll h c handle.id rc]) h c (handle.poll rc out).1 := by
      rw [poll_done]
      constructor
      · rw [List.countP_append, hold.cancels]
        rfl
      · rw [List.countP_append, Bool.or_eq_true, hold.done]
        by_cases hrc : rc = Error.wouldBlock.code
        · simp [Call.ends, hrc]
        · simp [Call.ends, hrc]
    rw [hnew]
    refine hI.requests.update (Nat.le_refl _) (hI.tidy.lt_next hv) ?_ ?_ ?_
    · intro call hm k hk
      obtain rfl := List.mem_singleton.mp hm
      exact (Option.some.inj hk).symm
    · rintro c' handle' ⟨⟩
      exact hpending
    · intro c' id' hm
      have hm' : .submit h c' id' ∈ s.calls :=
        (List.mem_append.mp hm).resolve_right fun hm => by simp at hm
      have hset := hI.requests.settled h c' id' hm'
      rw [hreq] at hset
      refine ⟨hset.1, ?_, hpending.cancels⟩
      rw [poll_done]
      exact hset.2.1

/-! ### Dropping a value -/

theorem drop_acts (h : Serial) (v : Value) :
    actsOf (v.drop h) = (v.thing h).toList.map .release := by
  cases v with
  | request c handle =>
    simp only [Value.drop, Value.thing, RequestHandle.drop_eq]
    split <;> rfl
  | _ => rfl

/-- Nothing that borrows a client is left. -/
def Unborrowed (s : State) (h : Serial) : Prop :=
  ∀ k u c, s.values k = some u → u.borrows = some c → c.serial ≠ h

theorem take_tidy (hT : Tidy s) {h : Serial} (hfree : Unborrowed s h) (hparam : h ∉ s.params)
    (cs : List Call) : Tidy (s.take h cs) := by
  have hold : ∀ {k x}, k ≠ h → s.values k = some x → (s.take h cs).values k = some x :=
    fun hk hx => (Function.update_of_ne hk _ _).trans hx
  have hback : ∀ {k x}, (s.take h cs).values k = some x → s.values k = some x := by
    intro k x hx
    by_cases hk : k = h
    · subst hk
      exact absurd hx (by simp [State.take])
    · exact (Function.update_of_ne hk _ _).symm.trans hx
  constructor
  · intro k hk
    by_cases hkh : k = h
    · subst hkh
      exact Function.update_self k _ s.values
    · exact (Function.update_of_ne hkh _ _).trans (hT.fresh k hk)
  · intro k x c hx hc
    exact hold (hfree k x c (hback hx) hc) (hT.borrowed k x c (hback hx) hc)
  · intro k hk
    obtain ⟨resp, hr⟩ := hT.params k hk
    exact ⟨resp, hold (fun he => hparam (he ▸ hk)) hr⟩
  · exact hT.distinct

/-- Then nothing in custody borrows what the value owns. -/
theorem unlent (hB : Books s w) {h : Serial} {v : Value} {t : Thing} (ht : v.thing h = some t)
    (hfree : Unborrowed s h) :
    ∀ p ∈ w.borrows, p.2 = t → p.1 ∉ w.live := by
  rintro p hp rfl hlive
  obtain ⟨k, c, id, rfl⟩ := hB.lenders p hp
  obtain ⟨u, hu, hthing⟩ := owned_iff.mp ((hB.live _).mp hlive)
  have hserial : c.serial = h := thing_serial ht
  cases u with
  | stream c' id' =>
    obtain ⟨-, rfl, -⟩ := Thing.stream.inj (Option.some.inj hthing)
    exact hfree _ _ _ hu rfl hserial
  | _ => exact absurd hthing (by simp [Value.thing])

/-- **What is dropped leaves custody**: it is there, and nothing borrows it. -/
theorem take_books (hT : Tidy s) (hB : Books s w) (hnodup : w.live.Nodup) {h : Serial} {v : Value}
    (hv : s.values h = some v) (hfree : Unborrowed s h) :
    ∃ w', (Custody.machine Thing).runFrom w (actsOf (v.drop h)) = some w' ∧
      Books (s.take h (v.drop h)) w' := by
  have howned : ∀ {t : Thing}, t.serial = h → (Owned s.values t ↔ v.thing h = some t) := by
    rintro t rfl
    unfold Owned
    rw [hv]
    rfl
  rw [drop_acts]
  cases ht : v.thing h with
  | none =>
    refine ⟨w, rfl, ?_, hB.gone, hB.lenders⟩
    intro t
    rw [hB.live]
    unfold State.take
    simp only [owned_update]
    by_cases hs : t.serial = h
    · simp [howned hs, hs, ht]
    · simp [hs]
  | some t =>
    have hserial : t.serial = h := thing_serial ht
    have hlive : t ∈ w.live := (hB.live t).mpr ((howned hserial).mpr ht)
    refine ⟨_, (Custody.machine Thing).runFrom_cons.mpr
      ⟨_, if_pos ⟨hlive, unlent hB ht hfree⟩, rfl⟩, ?_, ?_, hB.lenders⟩
    · intro u
      rw [hnodup.mem_erase_iff, hB.live]
      unfold State.take
      simp only [owned_update]
      by_cases hs : u.serial = h
      · simp [howned hs, hs, ht, eq_comm]
      · have hut : u ≠ t := fun he => hs (he ▸ hserial)
        simp [hs, hut]
    · intro u hu
      rcases List.mem_cons.mp hu with rfl | hu
      · rw [hserial]
        exact hT.lt_next hv
      · exact hB.gone u hu

/-- **A dropped handle retires its request**: it cancels exactly when no poll ended it. -/
theorem retired_drop {calls : List Call} {h : Serial} {c : ClientRef} {handle : RequestHandle}
    (hp : Pending calls h c handle) :
    Retired (calls ++ handle.drop.map (.cancel h c)) h c handle.id := by
  rw [RequestHandle.drop_eq]
  by_cases hd : handle.done = true
  · rw [if_pos hd, List.map_nil, List.append_nil]
    exact Or.inl ⟨hp.done.mp hd, hp.cancels⟩
  · rw [if_neg hd, List.map_cons, List.map_nil]
    have hends : calls.countP (Call.ends h c handle.id) = 0 :=
      Nat.eq_zero_of_not_pos fun hpos => hd (hp.done.mpr hpos)
    have hnone : .cancel h c handle.id ∉ calls := fun hm =>
      List.countP_eq_zero.mp hp.cancels _ hm (by simp [Call.cancels])
    refine Or.inr ⟨?_, ?_, ?_⟩
    · rw [List.countP_append, hends]
      rfl
    · rw [List.countP_append, hp.cancels]
      simp [Call.cancels]
    · rw [List.count_append, List.count_eq_zero.mpr hnone]
      simp

theorem drop_request (h : Serial) (v : Value) :
    ∀ call ∈ v.drop h, ∀ k, call.request = some k → k = h := by
  cases v with
  | request c handle =>
    intro call hm k hk
    obtain ⟨id, -, rfl⟩ := List.mem_map.mp hm
    exact (Option.some.inj hk).symm
  | _ =>
    intro call hm k hk
    obtain rfl := List.mem_singleton.mp hm
    exact absurd hk (by simp [Call.request])

theorem take_inv (hI : Inv s) {h : Serial} {v : Value} (hv : s.values h = some v)
    (hfree : Unborrowed s h) (hparam : h ∉ s.params) : Inv (s.take h (v.drop h)) where
  tidy := take_tidy hI.tidy hfree hparam _
  custody := custody_append hI rfl fun w hrun hB =>
    take_books hI.tidy hB (Custody.recorded_run hrun).nodup hv hfree
  requests := by
    have hnew : (s.take h (v.drop h)).request = Function.update s.request h none := request_update
    have hreq : s.request h = v.handle := by
      unfold State.request
      rw [hv]
      rfl
    rw [hnew]
    refine hI.requests.update (Nat.le_refl _) (hI.tidy.lt_next hv) (drop_request h v)
      (fun c' handle' he => absurd he (by simp)) ?_
    intro c id hm
    have hm' : .submit h c id ∈ s.calls := by
      refine (List.mem_append.mp hm).resolve_right fun hm => ?_
      cases v <;> simp [Value.drop] at hm
    have hset := hI.requests.settled h c id hm'
    rw [hreq] at hset
    cases v with
    | request c' handle =>
      obtain ⟨rfl, rfl, -⟩ := hset
      exact retired_drop (hI.requests.pending h c' handle hreq)
    | _ =>
      refine Settled.append (r := none) ?_ hset
      intro call hm
      obtain rfl := List.mem_singleton.mp hm
      simp [Call.request]

theorem not_busy (hT : Tidy s) {h : Serial} (hidle : ¬ s.Busy h) :
    Unborrowed s h ∧ h ∉ s.params := by
  refine ⟨fun k u c hu hc he => hidle (Or.inl ⟨k, hT.lt_next hu, ?_⟩), fun hm => ?_⟩
  · rw [hu, Option.bind_some, hc, Option.map_some, he]
  · obtain ⟨f, hf, hparam⟩ := List.mem_filterMap.mp hm
    exact hidle (Or.inr ⟨f, hf, Or.inr hparam⟩)

/-- Only a client is borrowed. -/
theorem unborrowed_of_ne (hT : Tidy s) {h : Serial} {v : Value} (hv : s.values h = some v)
    (hne : ∀ raw, v ≠ .client raw) : Unborrowed s h := by
  rintro k u c hu hc rfl
  exact hne c.raw (Option.some.inj (hv.symm.trans (hT.borrowed k u c hu hc)))

/-- A handle that is cancelled is nobody's parameter. -/
theorem cancel_inv (hI : Inv s) {h : Serial} {c : ClientRef} {handle : RequestHandle}
    (hv : s.values h = some (.request c handle)) :
    Inv (s.take h (Value.drop h (.request c handle))) := by
  refine take_inv hI hv (unborrowed_of_ne hI.tidy hv (by simp)) fun hm => ?_
  obtain ⟨resp, hr⟩ := hI.tidy.params h hm
  exact absurd (Option.some.inj (hv.symm.trans hr)) (by simp)

/-- A body that ends with its response drops it. -/
theorem bodyEnds_inv (hI : Inv s) {h k : Serial} {rest : List Frame} {v : Value}
    (hf : s.frames = ⟨h, some k⟩ :: rest) (hv : s.values k = some v) :
    Inv { s.take k (v.drop k) with frames := rest } := by
  have hparams : s.params = k :: rest.filterMap Frame.param := by
    unfold State.params
    rw [hf]
    rfl
  have hsub : (rest.filterMap Frame.param).Sublist s.params := by
    rw [hparams]
    exact List.sublist_cons_self _ _
  have hk : k ∉ rest.filterMap Frame.param := by
    have hd := hI.tidy.distinct
    rw [hparams] at hd
    exact (List.nodup_cons.mp hd).1
  obtain ⟨resp, hr⟩ := hI.tidy.params k (hparams ▸ List.mem_cons_self)
  have hresp : v = .response resp := Option.some.inj (hv.symm.trans hr)
  have hI' : Inv { s with frames := rest } := frames_inv hI hsub
  exact take_inv hI' hv (unborrowed_of_ne hI'.tidy hv (by simp [hresp])) hk

/-! ### What a step does -/

theorem check_toOption {α : Type} (rc : CInt) (x : α) :
    (do Error.check rc; .ok x : Result α).toOption = if 0 ≤ rc then some x else none := by
  rcases Error.check_cases rc with ⟨hrc, hc⟩ | ⟨hrc, e, hc⟩
  · rw [if_pos hrc, hc]
    rfl
  · rw [if_neg hrc, hc]
    rfl

theorem connectWith_handed (identity : Option Identity) (rc : CInt) (raw : ClientPtr) :
    (connectWith identity rc raw).1.toOption =
      if (connectWith identity rc raw).2 = true ∧ 0 ≤ rc then some raw else none := by
  cases identity with
  | none => rfl
  | some identity => simp [connectWith, Identity.withKeypair, check_toOption]

theorem openStream_handed (path : Bytes) (rc : CInt) (id : StreamId) :
    (openStream path rc id).1.toOption =
      if (openStream path rc id).2 = true ∧ 0 ≤ rc then some id else none := by
  unfold openStream
  cases cstring path with
  | error e => rfl
  | ok c => simp [check_toOption]

theorem send_handed (b : RequestBuilder) (rc : CInt) (resp : Msg) :
    (b.send rc resp).1.toOption =
      if (b.send rc resp).2 ≠ [] ∧ 0 ≤ rc then some ⟨resp⟩ else none := by
  unfold RequestBuilder.send
  rw [b.withC_eq]
  cases submitArgs b.request with
  | error e => rfl
  | ok args => simp [check_toOption]

theorem submit_handed (b : RequestBuilder) (rc : CInt) (id : RequestId) :
    (b.submit rc id).1.toOption =
      if (b.submit rc id).2 ≠ [] ∧ 0 ≤ rc then some ⟨id, false⟩ else none := by
  unfold RequestBuilder.submit
  rw [b.withC_eq]
  cases submitArgs b.request with
  | error e => rfl
  | ok args =>
    rcases Error.check_cases rc with ⟨hrc, hc⟩ | ⟨hrc, e, hc⟩
    · simp [hrc, hc]
      rfl
    · simp [hrc, hc]
      rfl

theorem doneResult_handed (status : CInt) (resp : Msg) :
    (DoneHook.doneResult status resp).toOption = if status = 0 then some ⟨resp⟩ else none := by
  unfold DoneHook.doneResult
  split <;> rfl

theorem poll_handed (handle : RequestHandle) (rc : CInt) (out : Msg) :
    (handle.poll rc out).2.toOption.join = if rc = 0 then some ⟨out⟩ else none := by
  rw [RequestHandle.poll_snd]
  unfold pollRequest
  split
  · rfl
  · split <;> rfl

/-- Nothing is handed over and nothing is made. -/
theorem handsOver_none : HandsOver s [] none where
  acts := rfl
  lender c hc := absurd hc (by simp)
  quiet call hm := absurd hm List.not_mem_nil
  other := rfl

/-- A call that hands over what its wrapper returns. -/
theorem handsOver {α : Type} {p : Prop} [Decidable p] {r : Option α} {x : α}
    (hr : r = if p then some x else none) {f : α → Value} {call : Call}
    (hacts : call.acts = (f x).acts s.next) (hquiet : call.request = none)
    (hother : (f x).handle = none)
    (hlender : ∀ c, (f x).borrows = some c → s.values c.serial = some (.client c.raw)) :
    HandsOver s (handedIf p call) (r.map f) := by
  subst hr
  unfold handedIf
  by_cases hp : p
  · rw [if_pos hp, if_pos hp]
    exact {
      acts := (List.append_nil _).trans hacts
      lender := hlender
      quiet := fun call' hm => (List.mem_singleton.mp hm) ▸ hquiet
      other := hother }
  · rw [if_neg hp, if_neg hp]
    exact handsOver_none

/-- What borrows nothing needs no lender. -/
theorem handsOver_free {α : Type} {p : Prop} [Decidable p] {r : Option α} {x : α}
    (hr : r = if p then some x else none) {f : α → Value} {call : Call}
    (hacts : call.acts = (f x).acts s.next) (hquiet : call.request = none)
    (hother : (f x).handle = none) (hfree : (f x).borrows = none) :
    HandsOver s (handedIf p call) (r.map f) :=
  handsOver hr hacts hquiet hother fun c hc => absurd (hfree.symm.trans hc) (by simp)

/-- The enabled steps and what each does. -/
inductive Step (s : State) : State → Prop
  | stay : Step s s
  | create {cs : List Call} {v : Option Value} (hh : HandsOver s cs v) : Step s (s.create cs v)
  | submit {c : ClientRef} (hc : s.values c.serial = some (.client c.raw)) (id : RequestId) :
      Step s (s.create [.submit s.next c id] (some (.request c ⟨id, false⟩)))
  | fire {cs : List Call} {resp : Option Response} (hh : HandsOver s cs (resp.map .response))
      (h : Serial) :
      Step s { s.create cs (resp.map .response) with
        frames := ⟨h, resp.map fun _ => s.next⟩ :: s.frames }
  | frames {frames : List Frame} (hsub : (frames.filterMap Frame.param).Sublist s.params) :
      Step s { s with frames := frames }
  | bodyDrops {h k : Serial} {rest : List Frame} {v : Value} (hf : s.frames = ⟨h, some k⟩ :: rest)
      (hv : s.values k = some v) : Step s { s.take k (v.drop k) with frames := rest }
  | intoClient {h : Serial} {raw : ClientPtr} (hv : s.values h = some (.connecting raw)) :
      Step s (s.replace h [] (.client raw))
  | poll {h : Serial} {c : ClientRef} {handle : RequestHandle}
      (hv : s.values h = some (.request c handle)) {rc : CInt} {out : Msg} {cs : List Call}
      {v : Option Value}
      (hh : HandsOver (s.replace h [.poll h c handle.id rc] (.request c (handle.poll rc out).1))
        cs v) :
      Step s ((s.replace h [.poll h c handle.id rc]
        (.request c (handle.poll rc out).1)).create cs v)
  | cancel {h : Serial} {c : ClientRef} {handle : RequestHandle}
      (hv : s.values h = some (.request c handle)) :
      Step s (s.take h (Value.drop h (.request c handle)))
  | drop {h : Serial} {v : Value} (hv : s.values h = some v) (hidle : ¬ s.Busy h) :
      Step s (s.take h (v.drop h))

theorem step_inv {t : State} {a : Act} (h : step s a = some t) : Step s t := by
  cases a with
  | startConnect identity rc raw =>
    obtain rfl := Option.some.inj h
    exact .create (handsOver_free (connectWith_handed identity rc raw) rfl rfl rfl rfl)
  | connect identity rc raw =>
    obtain rfl := Option.some.inj h
    exact .create (handsOver_free (connectWith_handed identity rc raw) rfl rfl rfl rfl)
  | connectingTick k rc | connectingPoll k rc | tick k rc =>
    simp only [step] at h
    split at h
    · obtain rfl := Option.some.inj h
      exact .stay
    · exact absurd h (by simp)
  | intoClient k =>
    simp only [step] at h
    split at h
    · rename_i raw hv
      obtain rfl := Option.some.inj h
      exact .intoClient hv
    · exact absurd h (by simp)
  | submit k r rc id =>
    simp only [step] at h
    split at h
    · rename_i raw hv
      obtain rfl := Option.some.inj h
      rw [submit_handed]
      unfold handedIf
      by_cases hp : ((builder raw r).submit rc id).2 ≠ [] ∧ 0 ≤ rc
      · rw [if_pos hp, if_pos hp]
        exact .submit (c := ⟨k, raw⟩) hv id
      · rw [if_neg hp, if_neg hp]
        exact .create handsOver_none
    · exact absurd h (by simp)
  | send k r rc resp =>
    simp only [step] at h
    split at h
    · obtain rfl := Option.some.inj h
      exact .create (handsOver_free (send_handed _ rc resp) rfl rfl rfl rfl)
    · exact absurd h (by simp)
  | openStream k path rc id =>
    simp only [step] at h
    split at h
    · rename_i raw hv
      obtain rfl := Option.some.inj h
      refine .create (handsOver (openStream_handed path rc id) rfl rfl rfl ?_)
      rintro c ⟨⟩
      exact hv
    · exact absurd h (by simp)
  | pollNotify k msg =>
    simp only [step] at h
    split at h
    · obtain rfl := Option.some.inj h
      cases msg with
      | none => exact .create handsOver_none
      | some msg =>
        exact .create (handsOver_free (p := True) (r := Handles.pollNotify (some msg)) (x := ⟨msg⟩)
          rfl rfl rfl rfl rfl)
    · exact absurd h (by simp)
  | fire k id status resp =>
    simp only [step] at h
    split at h
    · obtain rfl := Option.some.inj h
      exact .fire (handsOver_free (doneResult_handed status resp) rfl rfl rfl rfl) k
    · exact absurd h (by simp)
  | keep =>
    simp only [step] at h
    split at h
    · rename_i f rest hf
      obtain rfl := Option.some.inj h
      refine .frames ?_
      unfold State.params
      rw [hf]
      exact (List.sublist_cons_self f rest).filterMap Frame.param
    · exact absurd h (by simp)
  | bodyEnds panics =>
    simp only [step] at h
    split at h
    · rename_i hf
      obtain rfl := Option.some.inj h
      refine .frames ?_
      unfold State.params
      rw [hf]
      exact (List.sublist_cons_self _ _).filterMap Frame.param
    · rename_i hf
      split at h
      · rename_i v hv
        obtain rfl := Option.some.inj h
        exact .bodyDrops hf hv
      · exact absurd h (by simp)
    · exact absurd h (by simp)
  | poll k rc out =>
    simp only [step] at h
    split at h
    · rename_i c handle hv
      obtain rfl := Option.some.inj h
      exact .poll hv (handsOver_free (poll_handed handle rc out) rfl rfl rfl rfl)
    · exact absurd h (by simp)
  | cancel k =>
    simp only [step] at h
    split at h
    · rename_i c handle hv
      obtain rfl := Option.some.inj h
      rw [RequestHandle.cancel_eq]
      exact .cancel hv
    · exact absurd h (by simp)
  | streamResponse k rc resp =>
    simp only [step] at h
    split at h
    · obtain rfl := Option.some.inj h
      exact .create (handsOver_free (check_toOption rc _) rfl rfl rfl rfl)
    · exact absurd h (by simp)
  | drop k =>
    simp only [step] at h
    split at h
    · rename_i v hv
      split at h
      · exact absurd h (by simp)
      · rename_i hidle
        obtain rfl := Option.some.inj h
        exact .drop hv hidle
    · exact absurd h (by simp)

/-- **Step lemma**: every operation keeps the books. -/
theorem inv_step {t : State} {a : Act} (hI : Inv s) (h : step s a = some t) : Inv t := by
  cases step_inv h with
  | stay => exact hI
  | create hh => exact create_inv hI hh
  | submit hc id => exact submit_inv hI hc id
  | fire hh k => exact fire_inv hI hh k
  | frames hsub => exact frames_inv hI hsub
  | bodyDrops hf hv => exact bodyEnds_inv hI hf hv
  | intoClient hv => exact intoClient_inv hI hv
  | poll hv hh => exact create_inv (poll_inv hI hv _ _) hh
  | cancel hv => exact cancel_inv hI hv
  | drop hv hidle =>
    obtain ⟨hfree, hparam⟩ := not_busy hI.tidy hidle
    exact take_inv hI hv hfree hparam

theorem inv_run {acts : List Act} (h : machine.run acts = some s) : Inv s :=
  machine.reachable_induction inv_init (fun _ _ _ _ hI hst => inv_step hI hst) ⟨acts, h⟩

end Operations

/-! ## Linearity -/

/-- What a run has called for, and the values it is left with. -/
structure Linear (s : State) : Prop where
  /-- What is handed over is so once, and is taken back once, unless a value still owns it. -/
  once : ∀ t : Thing, t.handed ∈ s.calls →
    s.calls.count t.handed = 1 ∧ s.calls.count t.taken = if Owned s.values t then 0 else 1
  /-- Nothing else is taken back. -/
  only : ∀ t : Thing, t.taken ∈ s.calls → t.handed ∈ s.calls
  /-- A stream is closed before its client. -/
  streams : ∀ h c id, .openStream h c id ∈ s.calls → ∀ pre post,
    s.calls = pre ++ .close c :: post → .streamClose h c id ∈ pre
  /-- A submitted request is not cancelled while its handle is there, and retired once it is not. -/
  requests : ∀ h c id, .submit h c id ∈ s.calls → Settled s.calls h c id (s.request h)

/-- **Handles are linear**, whatever the operations and what the C side answers. -/
theorem linear {acts : List Act} {s : State} (h : machine.run acts = some s) : Linear s := by
  obtain ⟨-, ⟨w, hrun, hB⟩, hR⟩ := inv_run h
  have hrec := Custody.recorded_run hrun
  constructor
  · intro t ht
    have hacq : s.calls.count t.handed = 1 ∧ (t ∈ w.live ∨ t ∈ w.gone) := by
      have hcount := hrec.acquired t
      rw [count_acquire] at hcount
      have hpos := List.count_pos_iff.mpr ht
      split at hcount
      · rename_i hthere
        exact ⟨hcount, hthere⟩
      · omega
    refine ⟨hacq.1, ?_⟩
    rw [← count_release, hrec.released]
    by_cases ho : Owned s.values t
    · rw [if_pos ho, if_neg fun hgone => hrec.apart t hgone ((hB.live t).mpr ho)]
    · rw [if_neg ho, if_pos (hacq.2.resolve_left fun hlive => ho ((hB.live t).mp hlive))]
  · intro t ht
    have hrel := hrec.released t
    rw [count_release] at hrel
    have hpos := List.count_pos_iff.mpr ht
    have hgone : t ∈ w.gone := by
      by_contra hno
      rw [if_neg hno] at hrel
      omega
    have hacq := hrec.acquired t
    rw [count_acquire, if_pos (Or.inr hgone)] at hacq
    exact List.count_pos_iff.mp (by omega)
  · intro k c id hopen pre post hcalls
    have hacts : actsOf s.calls = actsOf pre ++ .release (.client c) :: actsOf post := by
      rw [hcalls, actsOf_append]
      rfl
    have hborrow : .borrow (.stream k c id) (.client c) ∈ actsOf s.calls :=
      List.mem_flatMap.mpr ⟨_, hopen, by simp [Call.acts]⟩
    rw [hacts] at hrun hborrow
    have hclosed := Custody.borrower_first hrun hborrow
    have hpos := List.count_pos_iff.mpr hclosed
    rw [count_release] at hpos
    exact List.count_pos_iff.mp hpos
  · exact hR.settled

/-- Two requests and a stream on one client. The hook panics on the first request, which a poll ends;
the second is cancelled. -/
def session : List Act :=
  let identity : Identity := ⟨(received 32 []), (received 32 []), (received 32 [])⟩
  let hello : Request := ⟨.read, [47], [], []⟩
  [.startConnect (some identity) 0 77, .connectingTick 0 0, .connectingPoll 0 1, .intoClient 0,
   .submit 0 hello 0 5, .submit 0 hello 0 6, .openStream 0 [47] 0 4, .tick 0 0, .fire 0 5 0 901,
   .bodyEnds true, .poll 1 Error.wouldBlock.code 0, .poll 1 0 902, .cancel 2,
   .streamResponse 3 0 903, .pollNotify 0 (some 904), .drop 3, .drop 1, .drop 0, .drop 6, .drop 7,
   .drop 8]

theorem linear_session :
    ∃ s, machine.run session = some s ∧ Linear s ∧ s.calls.length = 17 ∧
      ∀ h < 9, s.values h = none := by
  have h : machine.run session = some _ := rfl
  exact ⟨_, h, linear h, by decide +kernel, by decide +kernel⟩

end Nwep.Client.Handles
