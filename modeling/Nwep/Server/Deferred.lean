import Nwep.Server.Responder

/-!
# Answering a parked stream

Model of `DeferredResponder` (`nwep/src/server.rs` 1082-1174). `send` walks the queued headers: each
is turned into C strings and attached with its own C call before the next one is looked at, so what
is already attached stays on the parked stream when a later header turns out to have an interior
nul. `RequestBuilder::with_c` (`nwep/src/client.rs` 757-786) turns all of them first.

* A terminal makes C calls one after another; the answers are given by position. It is modelled by
  what it returns and the calls it made, each with its answer.
* `nwep_server_respond_header` attaches a header to the next respond on the stream. What it accepted
  is `attached`.

Results:
* `sendHeaders_append`: how far the loop gets;
* `send_rejects`, `send_invalidHeader`: when a send rejects its own input;
* **`send_untouched_iff`**: a send that does leaves the parked stream as it was exactly when the
  first header is the bad one;
* **`retry_attaches_twice`**: where it is not, a retry delivers a header twice.
-/

namespace Nwep.Server

/-- The C calls that answer a parked stream. -/
inductive ParkedCall
  | header (server : Ptr) (connId streamId : Nat) (name value : CString)
  | respond (server : Ptr) (connId streamId : Nat) (status : CInt) (body : Option Bytes × Nat)
  | relay (server : Ptr) (connId streamId : Nat) (origin : Ptr)
  | blit (server : Ptr) (connId streamId : Nat) (frame : Option Bytes × Nat)
  deriving DecidableEq

/-- The calls made so far, with their answers. -/
abbrev Log := List (ParkedCall × CInt)

/-- `DeferredResponder`. -/
structure DeferredResponder where
  server   : Ptr
  connId   : Nat
  streamId : Nat
  headers  : List (Bytes × Bytes)
  deriving DecidableEq

namespace DeferredResponder

/-- `DeferredResponder::header`. -/
def header (d : DeferredResponder) (name value : Bytes) : DeferredResponder :=
  { d with headers := d.headers ++ [(name, value)] }

/-- `Error::check(call(..))`. -/
def call (rcs : Nat → CInt) (made : Log) (c : ParkedCall) : Result Unit × Log :=
  (Error.check (rcs made.length), made ++ [(c, rcs made.length)])

/-- The loop of `send`. -/
def sendHeaders (d : DeferredResponder) (rcs : Nat → CInt) :
    List (Bytes × Bytes) → Log → Result Unit × Log
  | [], made => (.ok (), made)
  | (name, value) :: rest, made =>
    match cstring name with
    | .error e => (.error e, made)
    | .ok n =>
      match cstring value with
      | .error e => (.error e, made)
      | .ok v =>
        match call rcs made (.header d.server d.connId d.streamId n v) with
        | (.ok _, made) => sendHeaders d rcs rest made
        | (.error e, made) => (.error e, made)

/-- `DeferredResponder::send`. -/
def send (d : DeferredResponder) (status : Status) (body : Bytes) (rcs : Nat → CInt) :
    Result Unit × Log :=
  match sendHeaders d rcs d.headers [] with
  | (.ok _, made) =>
    call rcs made (.respond d.server d.connId d.streamId status.code (sliceParts body))
  | (.error e, made) => (.error e, made)

/-- `DeferredResponder::relay`: the queued headers are ignored. -/
def relay (d : DeferredResponder) (origin : Ptr) (rcs : Nat → CInt) : Result Unit × Log :=
  call rcs [] (.relay d.server d.connId d.streamId origin)

/-- `DeferredResponder::blit`: the queued headers are ignored. -/
def blit (d : DeferredResponder) (frame : Bytes) (rcs : Nat → CInt) : Result Unit × Log :=
  call rcs [] (.blit d.server d.connId d.streamId (sliceParts frame))

end DeferredResponder

/-! ## Headers as C strings -/

/-- No interior nul in the name or the value. -/
def nulFree (nv : Bytes × Bytes) : Bool := !nv.1.contains 0 && !nv.2.contains 0

theorem CString.new_of_nulFree {s : Bytes} (h : (!s.contains 0) = true) :
    ∃ c : CString, CString.new s = some c ∧ c.bytes = s := by
  have hno : (0 : UInt8) ∉ s := by simpa using h
  exact ⟨⟨s, hno⟩, CString.new_eq_some.mpr rfl, rfl⟩

theorem CString.new_of_nul {s : Bytes} (h : s.contains 0 = true) : CString.new s = none := by
  have hmem : (0 : UInt8) ∈ s := by simpa using h
  unfold CString.new
  rw [dif_neg (not_not_intro hmem)]

theorem cstring_of_new {s : Bytes} {c : CString} (h : CString.new s = some c) :
    cstring s = .ok c := by
  unfold cstring
  rw [h]

theorem cstring_of_nul {s : Bytes} (h : s.contains 0 = true) :
    cstring s = .error .protoInvalidHeader := by
  unfold cstring
  rw [CString.new_of_nul h]

/-- The strings of a header without nuls. -/
theorem new_of_nulFree {nv : Bytes × Bytes} (h : nulFree nv = true) :
    ∃ n v : CString, CString.new nv.1 = some n ∧ CString.new nv.2 = some v ∧ n.bytes = nv.1 ∧
      v.bytes = nv.2 := by
  obtain ⟨h1, h2⟩ := Bool.and_eq_true_iff.mp h
  obtain ⟨n, hn, hnb⟩ := CString.new_of_nulFree h1
  obtain ⟨v, hv, hvb⟩ := CString.new_of_nulFree h2
  exact ⟨n, v, hn, hv, hnb, hvb⟩

/-! ## How far the loop gets -/

/-- The header a call attached: one the C side did not refuse. -/
def attachedBy : ParkedCall × CInt → Option (Bytes × Bytes)
  | (.header _ _ _ n v, rc) => if 0 ≤ rc then some (n.bytes, v.bytes) else none
  | _ => none

/-- The headers the calls attached to the parked stream. -/
def attached (made : Log) : List (Bytes × Bytes) := made.filterMap attachedBy

theorem attached_append (made more : Log) :
    attached (made ++ more) = attached made ++ attached more := List.filterMap_append

namespace DeferredResponder

/-- A call that is not refused. -/
theorem call_of_ok {rcs : Nat → CInt} {made : Log} (c : ParkedCall) (h : 0 ≤ rcs made.length) :
    call rcs made c = (.ok (), made ++ [(c, rcs made.length)]) := by
  unfold call
  rw [Error.check_eq_ok.mpr h]

/-- A header with an interior nul stops the loop before its call. -/
theorem sendHeaders_nul (d : DeferredResponder) (rcs : Nat → CInt) {nv : Bytes × Bytes}
    (h : nulFree nv = false) (rest : List (Bytes × Bytes)) (made : Log) :
    sendHeaders d rcs (nv :: rest) made = (.error .protoInvalidHeader, made) := by
  obtain ⟨name, value⟩ := nv
  unfold nulFree at h
  by_cases hn : name.contains 0 = true
  · simp only [sendHeaders, cstring_of_nul hn]
  · have hv : value.contains 0 = true := by
      simp only [hn, Bool.and_eq_false_iff] at h
      simpa using h
    obtain ⟨n, hnew, -⟩ := CString.new_of_nulFree (s := name) (by simpa using hn)
    simp only [sendHeaders, cstring_of_new hnew, cstring_of_nul hv]

/-- **How far the loop gets**: past headers without nuls that the C side accepts, each attached once
and in order. -/
theorem sendHeaders_append (d : DeferredResponder) (rcs : Nat → CInt)
    (rest : List (Bytes × Bytes)) :
    ∀ (hs : List (Bytes × Bytes)) (made : Log), (∀ nv ∈ hs, nulFree nv = true) →
      (∀ j < hs.length, 0 ≤ rcs (made.length + j)) →
      ∃ log, sendHeaders d rcs (hs ++ rest) made = sendHeaders d rcs rest (made ++ log) ∧
        attached log = hs ∧ log.length = hs.length := by
  intro hs
  induction hs with
  | nil => exact fun made _ _ => ⟨[], by simp, rfl, rfl⟩
  | cons nv hs ih =>
    intro made hfree hok
    obtain ⟨n, v, hn, hv, hnb, hvb⟩ := new_of_nulFree (hfree nv List.mem_cons_self)
    have hrc : 0 ≤ rcs made.length := hok 0 (Nat.succ_pos _)
    obtain ⟨log, hlog, hatt, hlen⟩ := ih
      (made ++ [(.header d.server d.connId d.streamId n v, rcs made.length)])
      (fun x hx => hfree x (List.mem_cons_of_mem nv hx)) (by
        intro j hj
        have hj' := hok (j + 1) (Nat.succ_lt_succ hj)
        rw [List.length_append, List.length_singleton, Nat.add_assoc, Nat.add_comm 1 j]
        exact hj')
    refine ⟨(.header d.server d.connId d.streamId n v, rcs made.length) :: log, ?_, ?_, ?_⟩
    · obtain ⟨name, value⟩ := nv
      simp only [List.cons_append, sendHeaders, cstring_of_new hn, cstring_of_new hv,
        call_of_ok _ hrc, hlog, List.append_assoc, List.nil_append]
    · unfold attached at hatt ⊢
      rw [List.filterMap_cons, hatt]
      simp [attachedBy, hrc, hnb, hvb]
    · rw [List.length_cons, hlen, List.length_cons]

/-! ## A send that rejects its input -/

/-- The headers before the first one with an interior nul. -/
def clean (d : DeferredResponder) : List (Bytes × Bytes) := d.headers.takeWhile nulFree

theorem clean_append (d : DeferredResponder) :
    ∃ rest, d.headers = d.clean ++ rest ∧ ∀ nv tl, rest = nv :: tl → nulFree nv = false := by
  refine ⟨d.headers.dropWhile nulFree, List.takeWhile_append_dropWhile.symm, ?_⟩
  intro nv tl hrest
  have hhead := List.head_dropWhile_not nulFree (l := d.headers) (by rw [hrest]; simp)
  simpa [hrest] using hhead

/-- The loop gets to a header with an interior nul: there is one, and the C side refused none of the
headers before it. -/
def Rejects (d : DeferredResponder) (rcs : Nat → CInt) : Prop :=
  d.clean ≠ d.headers ∧ ∀ j < d.clean.length, 0 ≤ rcs j

/-- **A send that rejects its input** returns the error, after it attached the headers before. -/
theorem send_rejects {d : DeferredResponder} {rcs : Nat → CInt} (h : d.Rejects rcs)
    (status : Status) (body : Bytes) :
    ∃ log, d.send status body rcs = (.error .protoInvalidHeader, log) ∧ attached log = d.clean ∧
      log.length = d.clean.length := by
  obtain ⟨hne, hok⟩ := h
  obtain ⟨rest, hsplit, hbad⟩ := d.clean_append
  obtain ⟨log, hlog, hatt, hlen⟩ := sendHeaders_append d rcs rest d.clean []
    (List.all_eq_true.mp List.all_takeWhile) (fun j hj => by simpa using hok j hj)
  refine ⟨log, ?_, hatt, hlen⟩
  cases rest with
  | nil => exact absurd (hsplit.trans (List.append_nil _)).symm hne
  | cons nv tl =>
    rw [sendHeaders_nul d rcs (hbad nv tl rfl), ← hsplit] at hlog
    unfold send
    rw [hlog]
    simp

/-- **A send whose headers have no nul** attaches them all, once and in order, when the C side
accepts them. -/
theorem send_accepts {d : DeferredResponder} (h : ∀ nv ∈ d.headers, nulFree nv = true)
    {rcs : Nat → CInt} (hok : ∀ j, 0 ≤ rcs j) (status : Status) (body : Bytes) :
    (d.send status body rcs).1 = .ok () ∧ attached (d.send status body rcs).2 = d.headers := by
  obtain ⟨log, hlog, hatt, -⟩ := sendHeaders_append d rcs [] d.headers [] h (fun j _ => hok _)
  have hloop : sendHeaders d rcs d.headers [] = (.ok (), log) := by
    simpa [sendHeaders] using hlog
  unfold send
  rw [hloop]
  simp only
  rw [call_of_ok _ (hok _)]
  refine ⟨rfl, ?_⟩
  rw [attached_append, hatt]
  simp [attached, attachedBy]

/-- A send that rejects its input leaves the parked stream as it was: no C call is made, and a retry
with corrected headers delivers each of them exactly once. -/
def Untouched (d : DeferredResponder) (status : Status) (body : Bytes) (rcs : Nat → CInt) : Prop :=
  d.Rejects rcs →
    (d.send status body rcs).2 = [] ∧
    ∀ headers rcs', (∀ nv ∈ headers, nulFree nv = true) → (∀ j, 0 ≤ rcs' j) →
      attached ((d.send status body rcs).2 ++
        ({ d with headers := headers }.send status body rcs').2) = headers

/-- **A rejected send leaves the parked stream alone** exactly when there is nothing to reject, the
first header is the bad one, or the C side refuses a header before it. -/
theorem send_untouched_iff (d : DeferredResponder) (status : Status) (body : Bytes)
    (rcs : Nat → CInt) :
    d.Untouched status body rcs ↔
      d.clean = d.headers ∨ d.clean = [] ∨ ∃ j < d.clean.length, rcs j < 0 := by
  constructor
  · intro hu
    by_cases hr : d.Rejects rcs
    · obtain ⟨log, hsend, -, hlen⟩ := send_rejects hr status body
      obtain ⟨hnil, -⟩ := hu hr
      rw [hsend] at hnil
      have hnil : log = [] := hnil
      rw [hnil, List.length_nil] at hlen
      exact Or.inr (Or.inl (List.length_eq_zero_iff.mp hlen.symm))
    · by_cases hne : d.clean = d.headers
      · exact Or.inl hne
      · have hno : ¬ ∀ j < d.clean.length, 0 ≤ rcs j := fun hall => hr ⟨hne, hall⟩
        obtain ⟨j, hj⟩ := Classical.not_forall.mp hno
        obtain ⟨hlt, hneg⟩ := Classical.not_imp.mp hj
        exact Or.inr (Or.inr ⟨j, hlt, Int.not_le.mp hneg⟩)
  · rintro hc ⟨hne, hok⟩
    have hnil : d.clean = [] := by
      rcases hc with hc | hc | ⟨j, hj, hneg⟩
      · exact absurd hc hne
      · exact hc
      · exact absurd (hok j hj) (Int.not_le.mpr hneg)
    obtain ⟨log, hsend, -, hlen⟩ := send_rejects ⟨hne, hok⟩ status body
    rw [hnil, List.length_nil] at hlen
    rw [hsend]
    have hlog : log = [] := List.length_eq_zero_iff.mp hlen
    refine ⟨hlog, fun headers rcs' hfree hok' => ?_⟩
    rw [hlog, List.nil_append]
    exact (send_accepts (d := { d with headers := headers }) hfree hok' status body).2

/-- An error of the loop is a nul it got to, or what the C side answered. -/
theorem sendHeaders_error (d : DeferredResponder) (rcs : Nat → CInt) {e : Error} :
    ∀ (hs : List (Bytes × Bytes)) (made : Log), (sendHeaders d rcs hs made).1 = .error e →
      (hs.takeWhile nulFree ≠ hs ∧
        ∀ j < (hs.takeWhile nulFree).length, 0 ≤ rcs (made.length + j)) ∨
      ∃ j, Error.check (rcs j) = .error e := by
  intro hs
  induction hs with
  | nil => exact fun made h => absurd h (by simp [sendHeaders])
  | cons nv hs ih =>
    intro made h
    by_cases hfree : nulFree nv = true
    · obtain ⟨n, v, hn, hv, -, -⟩ := new_of_nulFree hfree
      obtain ⟨name, value⟩ := nv
      simp only [sendHeaders, cstring_of_new hn, cstring_of_new hv, call] at h
      rw [List.takeWhile_cons_of_pos hfree]
      cases hrc : Error.check (rcs made.length) with
      | ok _ =>
        rw [hrc] at h
        refine (ih _ h).imp_left ?_
        rintro ⟨hne, hok⟩
        refine ⟨fun heq => hne (List.cons.inj heq).2, fun j hj => ?_⟩
        cases j with
        | zero => exact Error.check_eq_ok.mp hrc
        | succ j =>
          have hj' := hok j (Nat.lt_of_succ_lt_succ hj)
          rw [List.length_append, List.length_singleton, Nat.add_assoc, Nat.add_comm 1 j] at hj'
          exact hj'
      | error e' =>
        rw [hrc] at h
        obtain rfl : e' = e := Except.error.inj h
        exact Or.inr ⟨made.length, hrc⟩
    · rw [List.takeWhile_cons_of_neg hfree]
      exact Or.inl ⟨by simp, fun j hj => absurd hj (Nat.not_lt_zero j)⟩

/-- **When a send returns `ProtoInvalidHeader`**: it rejects its input, or the C side said so. -/
theorem send_invalidHeader {d : DeferredResponder} {rcs : Nat → CInt} {status : Status}
    {body : Bytes} (h : (d.send status body rcs).1 = .error .protoInvalidHeader) :
    d.Rejects rcs ∨ ∃ j, Error.check (rcs j) = .error .protoInvalidHeader := by
  unfold send at h
  cases hloop : sendHeaders d rcs d.headers [] with
  | mk r made =>
    rw [hloop] at h
    cases r with
    | ok _ => exact Or.inr ⟨made.length, h⟩
    | error e =>
      have hr : (sendHeaders d rcs d.headers []).1 = .error .protoInvalidHeader := by
        rw [hloop]
        exact h
      simpa [Rejects, clean] using sendHeaders_error d rcs d.headers [] hr

end DeferredResponder

/-- A good header, then one with an interior nul. -/
def badSecond : DeferredResponder := ⟨1, 2, 3, [([120], [49]), ([121, 0], [50])]⟩

/-- The same with the second header corrected. -/
def corrected : DeferredResponder := ⟨1, 2, 3, [([120], [49]), ([121], [50])]⟩

/-- **A retry delivers a header twice**: the rejected send had attached the first one. -/
theorem retry_attaches_twice :
    badSecond.Rejects (fun _ => 0) ∧
    (badSecond.send .ok [] fun _ => 0).1 = .error .protoInvalidHeader ∧
    attached ((badSecond.send .ok [] fun _ => 0).2 ++ (corrected.send .ok [] fun _ => 0).2) =
      [([120], [49]), ([120], [49]), ([121], [50])] ∧
    ¬ badSecond.Untouched .ok [] fun _ => 0 := by
  have hrej : badSecond.Rejects fun _ => 0 := ⟨by decide, fun _ _ => Int.le_refl 0⟩
  refine ⟨hrej, by rfl, by rfl, fun hu => ?_⟩
  exact absurd (hu hrej).1 (by decide)

end Nwep.Server
