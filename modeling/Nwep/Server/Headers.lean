import Mathlib.Data.List.Basic
import Mathlib.Data.List.TakeWhile
import Nwep.Server.Deferred

/-!
# What a handler hands to the C builder

A handler chains `Responder::header` calls and ends with a terminal (`nwep/src/server.rs` 237-446).
A string with an interior nul cannot go to the C side: a header of the chain or of `stream` is
skipped, a token becomes empty, and what the header call itself answers is not looked at.
`DeferredResponder::send` returns an error for each of these.

* `Handed` is a header or a token. `given` is what the handler hands over, `Terminal.accepted` what
  the C side took for the response: the strings of the calls it did not refuse.
* `nwep_response_header` attaches a header to the next response on the buffer
  (`nwep-sys/src/lib.rs` 464). `nwep_server_begin_stream` is not given that buffer, and a captured
  frame or an origin message goes out verbatim: the headers of a chain are in none of these
  (`Call.carries`).
* The header calls answer by position, `rc` is the answer to the call of the terminal, or to the call
  that responds on a parked stream.

Results:
* `call_builds`: the C calls of a chain and its terminal, and what is left of the strings;
* `accepted_headers`: when every header of a chain is taken;
* `reply_eq`, `send_ok_iff`: what the reply is, and when a send on the parked stream succeeds;
* **`nothing_lost_iff`**: the strings and answers for which nothing is silently lost, and those on
  which the two paths agree;
* **`header_lost`**: a header that is dropped while the reply says success.
-/

namespace Nwep.Server

/-- A header, or a token of a terminal: an etag, a content type, a path. -/
inductive Handed
  | header (name value : Bytes)
  | token (t : Bytes)
  deriving DecidableEq

/-- It has no interior nul. -/
def Handed.nulFree : Handed → Bool
  | .header n v => Server.nulFree (n, v)
  | .token t => !t.contains 0

/-- What goes to the C side of it. -/
def Handed.kept (h : Handed) : Option Handed :=
  match h with
  | .header _ _ => if h.nulFree then some h else none
  | .token _ => if h.nulFree then some h else some (.token [])

/-- The headers of a list. -/
def headersOf (hs : List (Bytes × Bytes)) : List Handed := hs.map fun nv => .header nv.1 nv.2

/-- A header of a `nwep_header` array; the sentinel is none. -/
def headerHanded (h : Header) : Option Handed :=
  match h.name, h.value with
  | some n, some v => some (.header n.bytes v.bytes)
  | _, _ => none

/-- The strings a C call hands over. -/
def Call.handed : Call → List Handed
  | .header _ n v => [.header n.bytes v.bytes]
  | .notModified _ etag => [.token etag.bytes]
  | .ranges _ _ _ ctype => [.token ctype.bytes]
  | .beginStream _ _ _ path _ headers => .token path.bytes :: headers.filterMap headerHanded
  | _ => []

/-- The response the call builds carries the headers attached to its buffer. -/
def Call.carries : Call → Bool
  | .blit _ _ => false
  | .relay _ _ => false
  | .beginStream _ _ _ _ _ _ => false
  | _ => true

/-- The headers a terminal chains itself. -/
def Op.headers : Op → List (Bytes × Bytes)
  | .moved location => [(str "location", location)]
  | .rateLimited retryAfter => [(str "retry-after", retryAfter)]
  | _ => []

/-- The other strings a terminal is given. -/
def Op.handed : Op → List Handed
  | .notModified etag => [.token etag]
  | .partialContent _ _ ctype => [.token ctype]
  | .stream path _ headers => .token path :: headersOf headers
  | _ => []

/-- The terminal leaves the answer of the C call that builds the response. -/
def Op.builds : Op → Bool
  | .defer => false
  | .capturingOk _ => false
  | .capturingStatus _ _ => false
  | _ => true

/-- The response of the terminal carries the headers chained before it. -/
def Op.carries : Op → Bool
  | .stream _ _ _ => false
  | .blit _ => false
  | .relay _ => false
  | _ => true

/-- `res.header(..)` for each header in turn. -/
def Responder.chain (res : Responder) (hs : List (Bytes × Bytes)) : Responder :=
  hs.foldl (fun res nv => res.header nv.1 nv.2) res

/-- What the handler gives: the chained headers, those of the terminal, and its other strings. -/
def given (hs : List (Bytes × Bytes)) (op : Op) : List Handed :=
  headersOf (hs ++ op.headers) ++ op.handed

/-- The strings of the calls that are not refused. -/
def accepted : List Call → (Nat → CInt) → List Handed
  | [], _ => []
  | c :: cs, rcs => (if 0 ≤ rcs 0 then c.handed else []) ++ accepted cs fun i => rcs (i + 1)

/-- What the C side took for the response: the headers attached to it, and what the call that builds
it hands over. -/
def Terminal.accepted (t : Terminal) (rcs : Nat → CInt) (rc : CInt) : List Handed :=
  match t.calls.getLast? with
  | some c =>
    (if c.carries then Server.accepted t.calls.dropLast rcs else []) ++
      if 0 ≤ rc then c.handed else []
  | none => []

/-- What the trampoline returns: the answer of the terminal's call. -/
def Terminal.reply (t : Terminal) (rc : CInt) : CInt := t.code ⟨rc, (0, 0), (0, [], 0)⟩

/-! ## What is left of the strings -/

theorem filterMap_kept_length (l : List Handed) : (l.filterMap Handed.kept).length ≤ l.length :=
  List.length_filterMap_le Handed.kept l

theorem kept_of_nulFree {h : Handed} (hf : h.nulFree = true) : h.kept = some h := by
  unfold Handed.kept
  cases h <;> simp [hf]

/-- Everything is left exactly of strings without nuls. -/
theorem filterMap_kept_iff (l : List Handed) :
    l.filterMap Handed.kept = l ↔ ∀ h ∈ l, h.nulFree = true := by
  induction l with
  | nil => simp
  | cons h l ih =>
    by_cases hf : h.nulFree = true
    · rw [List.filterMap_cons_some (kept_of_nulFree hf), List.cons_inj_right, ih]
      simp [hf]
    · simp only [List.forall_mem_cons, hf, Bool.false_eq_true, false_and, iff_false]
      intro heq
      cases h with
      | header n v =>
        -- a header is missing, so the lengths differ
        have hnone : (Handed.header n v).kept = none := by simp [Handed.kept, hf]
        rw [List.filterMap_cons_none hnone] at heq
        have hlen := congrArg List.length heq
        have hle := filterMap_kept_length l
        rw [List.length_cons] at hlen
        omega
      | token t =>
        have hsome : (Handed.token t).kept = some (.token []) := by simp [Handed.kept, hf]
        rw [List.filterMap_cons_some hsome] at heq
        obtain rfl : [] = t := Handed.token.inj (List.cons.inj heq).1
        exact hf rfl

theorem newOrDefault_kept (t : Bytes) :
    [Handed.token (CString.newOrDefault t).bytes] = [Handed.token t].filterMap Handed.kept := by
  by_cases h : (!t.contains 0) = true
  · obtain ⟨c, hc, hb⟩ := CString.new_of_nulFree h
    have hk : (Handed.token t).kept = some (.token t) := kept_of_nulFree h
    rw [List.filterMap_cons_some hk]
    simp [CString.newOrDefault, hc, hb]
  · have hnone := CString.new_of_nul (s := t) (by simpa using h)
    have hk : (Handed.token t).kept = some (.token []) := if_neg h
    rw [List.filterMap_cons_some hk]
    simp [CString.newOrDefault, hnone]

/-- A header in C strings, where it has no nul. -/
theorem new_none_of_nul {nv : Bytes × Bytes} (h : nulFree nv = false) :
    CString.new nv.1 = none ∨ CString.new nv.2 = none := by
  unfold nulFree at h
  rcases Bool.and_eq_false_iff.mp h with h | h
  · exact Or.inl (CString.new_of_nul (by simpa using h))
  · exact Or.inr (CString.new_of_nul (by simpa using h))

theorem streamHeader_kept (headers : List (Bytes × Bytes)) :
    (headers.filterMap Responder.streamHeader).filterMap headerHanded =
      (headersOf headers).filterMap Handed.kept := by
  unfold headersOf
  rw [List.filterMap_filterMap, List.filterMap_map]
  refine List.filterMap_congr fun nv _ => ?_
  by_cases h : nulFree nv = true
  · obtain ⟨n, v, hn, hv, hnb, hvb⟩ := new_of_nulFree h
    simp [Responder.streamHeader, hn, hv, headerHanded, hnb, hvb, Handed.kept, Handed.nulFree, h]
  · have hnul : nulFree nv = false := by simpa using h
    rcases new_none_of_nul hnul with hn | hv
    · simp [Responder.streamHeader, hn, Handed.kept, Handed.nulFree, hnul]
    · cases hn : CString.new nv.1 <;>
        simp [Responder.streamHeader, hn, hv, Handed.kept, Handed.nulFree, hnul]

/-! ## The C calls of a chain -/

/-- The call of `Responder::header`, if it makes one. -/
def headerCall (buf : Ptr) (nv : Bytes × Bytes) : Option Call :=
  match CString.new nv.1, CString.new nv.2 with
  | some n, some v => some (.header buf n v)
  | _, _ => none

theorem headerCall_of_nulFree (buf : Ptr) {nv : Bytes × Bytes} (h : nulFree nv = true) :
    ∃ c : Call, headerCall buf nv = some c ∧ c.handed = [.header nv.1 nv.2] := by
  obtain ⟨n, v, hn, hv, hnb, hvb⟩ := new_of_nulFree h
  exact ⟨.header buf n v, by simp [headerCall, hn, hv], by simp [Call.handed, hnb, hvb]⟩

theorem headerCall_of_nul (buf : Ptr) {nv : Bytes × Bytes} (h : nulFree nv = false) :
    headerCall buf nv = none := by
  unfold headerCall
  rcases new_none_of_nul h with hn | hv
  · simp [hn]
  · cases hn : CString.new nv.1 <;> simp [hv]

theorem header_made (res : Responder) (nv : Bytes × Bytes) :
    res.header nv.1 nv.2 = { res with made := res.made ++ (headerCall res.buf nv).toList } := by
  unfold Responder.header headerCall
  cases CString.new nv.1 with
  | none => simp
  | some n => cases CString.new nv.2 <;> simp

theorem chain_made (hs : List (Bytes × Bytes)) : ∀ res : Responder,
    res.chain hs = { res with made := res.made ++ hs.filterMap (headerCall res.buf) } := by
  unfold Responder.chain
  induction hs with
  | nil => intro res; simp
  | cons nv hs ih =>
    intro res
    rw [List.foldl_cons, header_made, ih, List.filterMap_cons]
    cases headerCall res.buf nv <;> simp

/-- A terminal of one call. -/
theorem build_calls (res : Responder) (c : Call) (f : Bytes × Bytes → Option Call) :
    (res.build c).calls = res.made ++ [].filterMap f ++ [c] := by simp [Responder.build]

/-- **The C calls of a terminal**: those made before, its own headers, and the one that builds the
response, which hands over what is left of the other strings. -/
theorem call_builds (res : Responder) {op : Op} (h : op.builds = true) :
    ∃ c : Call, (res.call op).calls = res.made ++ op.headers.filterMap (headerCall res.buf) ++ [c] ∧
      c.handed = op.handed.filterMap Handed.kept ∧ c.carries = op.carries ∧
      (res.call op).finish = .rc := by
  cases op with
  | defer | capturingOk _ | capturingStatus _ _ => exact absurd h (by simp [Op.builds])
  | moved location =>
    refine ⟨.status res.buf Status.moved.code (sliceParts []), ?_, rfl, rfl, rfl⟩
    have hm := header_made res (str "location", location)
    simp only [Responder.call, Responder.moved, Responder.status, Responder.build, hm, Op.headers,
      List.filterMap_cons, List.filterMap_nil]
    cases headerCall res.buf (str "location", location) <;> rfl
  | rateLimited retryAfter =>
    refine ⟨.status res.buf Status.rateLimited.code (sliceParts []), ?_, rfl, rfl, rfl⟩
    have hm := header_made res (str "retry-after", retryAfter)
    simp only [Responder.call, Responder.rateLimited, Responder.status, Responder.build, hm,
      Op.headers, List.filterMap_cons, List.filterMap_nil]
    cases headerCall res.buf (str "retry-after", retryAfter) <;> rfl
  | notModified etag =>
    exact ⟨_, build_calls res _ _, newOrDefault_kept etag, rfl, rfl⟩
  | partialContent body ranges ctype =>
    exact ⟨_, build_calls res _ _, newOrDefault_kept ctype, rfl, rfl⟩
  | stream path status headers =>
    refine ⟨_, build_calls res _ _, ?_, rfl, rfl⟩
    have hpath := newOrDefault_kept path
    have hsentinel : [Header.sentinel].filterMap headerHanded = [] := rfl
    simp only [Call.handed, Op.handed]
    rw [List.filterMap_append, streamHeader_kept, hsentinel, List.append_nil,
      ← List.singleton_append, hpath, ← List.filterMap_append, List.singleton_append]
  | _ => exact ⟨_, build_calls res _ _, rfl, rfl, rfl⟩

/-! ## What the C side takes -/

theorem accepted_length_le (buf : Ptr) (hs : List (Bytes × Bytes)) : ∀ rcs : Nat → CInt,
    (accepted (hs.filterMap (headerCall buf)) rcs).length ≤ hs.length := by
  induction hs with
  | nil => exact fun _ => Nat.le_refl 0
  | cons nv hs ih =>
    intro rcs
    by_cases hf : nulFree nv = true
    · obtain ⟨c, hc, hh⟩ := headerCall_of_nulFree buf hf
      have hle := ih fun i => rcs (i + 1)
      rw [List.filterMap_cons_some hc, accepted, List.length_append, hh, List.length_cons]
      split <;> simp <;> omega
    · rw [List.filterMap_cons_none (headerCall_of_nul buf (by simpa using hf)), List.length_cons]
      exact Nat.le_succ_of_le (ih rcs)

/-- **Every header of a chain is taken** exactly when none has a nul and none is refused. -/
theorem accepted_headers (buf : Ptr) (hs : List (Bytes × Bytes)) : ∀ rcs : Nat → CInt,
    accepted (hs.filterMap (headerCall buf)) rcs = headersOf hs ↔
      (∀ nv ∈ hs, nulFree nv = true) ∧ ∀ j < hs.length, 0 ≤ rcs j := by
  induction hs with
  | nil => intro rcs; simp [accepted, headersOf]
  | cons nv hs ih =>
    intro rcs
    have hlong : ∀ rcs' : Nat → CInt,
        accepted (hs.filterMap (headerCall buf)) rcs' ≠ headersOf (nv :: hs) := by
      intro rcs' heq
      have hlen := congrArg List.length heq
      have hle := accepted_length_le buf hs rcs'
      simp only [headersOf, List.length_map, List.length_cons] at hlen
      omega
    by_cases hf : nulFree nv = true
    · obtain ⟨c, hc, hh⟩ := headerCall_of_nulFree buf hf
      rw [List.filterMap_cons_some hc, accepted, hh]
      by_cases hrc : 0 ≤ rcs 0
      · have hrest := ih fun i => rcs (i + 1)
        rw [if_pos hrc]
        simp only [headersOf, List.map_cons, List.singleton_append, List.cons_inj_right,
          List.forall_mem_cons, hf, true_and] at hrest ⊢
        rw [hrest]
        refine and_congr_right fun _ => ⟨fun hall j hj => ?_, fun hall j hj => ?_⟩
        · cases j with
          | zero => exact hrc
          | succ j => exact hall j (Nat.lt_of_succ_lt_succ hj)
        · exact hall (j + 1) (Nat.succ_lt_succ hj)
      · rw [if_neg hrc, List.nil_append]
        exact iff_of_false (hlong _) fun hall => hrc (hall.2 0 (Nat.succ_pos _))
    · rw [List.filterMap_cons_none (headerCall_of_nul buf (by simpa using hf))]
      exact iff_of_false (hlong rcs) fun hall => hf (hall.1 nv List.mem_cons_self)

theorem headersOf_nulFree (hs : List (Bytes × Bytes)) :
    (∀ h ∈ headersOf hs, h.nulFree = true) ↔ ∀ nv ∈ hs, nulFree nv = true := by
  unfold headersOf
  rw [List.forall_mem_map]
  rfl

/-! ## The two response paths -/

/-- A fresh `Responder`. -/
def Responder.new (buf : Ptr) (rc : ReqId) (server : Ptr) (connId streamId : Nat) : Responder :=
  ⟨buf, rc, server, connId, streamId, []⟩

/-- Nothing is silently lost: the reply is success and the C side took exactly what the handler
gave, or the reply is an error. -/
def NothingLost (res : Responder) (hs : List (Bytes × Bytes)) (op : Op) (rcs : Nat → CInt)
    (rc : CInt) : Prop :=
  (((res.chain hs).call op).reply rc = 0 ∧ ((res.chain hs).call op).accepted rcs rc = given hs op) ∨
    ((res.chain hs).call op).reply rc < 0

/-- The header calls answer by position, the call after the `n` of them answers `rc`. -/
def answering (n : Nat) (rcs : Nat → CInt) (rc : CInt) (j : Nat) : CInt := if j < n then rcs j else rc

/-- Over the same answers, the handler's reply says success exactly when `send` on the parked stream
does. -/
def PathsAgree (res : Responder) (d : DeferredResponder) (hs : List (Bytes × Bytes))
    (status : Status) (body : Bytes) (rcs : Nat → CInt) (rc : CInt) : Prop :=
  ((res.chain hs).call (.status status body)).reply rc = 0 ↔
    ({ d with headers := hs }.send status body (answering hs.length rcs rc)).1 = .ok ()

/-- Every header can be delivered: none has an interior nul, and the C side refuses none. -/
def Deliverable (hs : List (Bytes × Bytes)) (rcs : Nat → CInt) : Prop :=
  (∀ nv ∈ hs, nulFree nv = true) ∧ ∀ j < hs.length, 0 ≤ rcs j

/-- A loop that gets through had no nul to stop at, and no call was refused. -/
theorem sendHeaders_ok (d : DeferredResponder) (rcs : Nat → CInt) :
    ∀ (hs : List (Bytes × Bytes)) (made : Log), (d.sendHeaders rcs hs made).1 = .ok () →
      Deliverable hs fun j => rcs (made.length + j) := by
  intro hs
  induction hs with
  | nil => exact fun made _ => ⟨by simp, by simp⟩
  | cons nv hs ih =>
    intro made h
    by_cases hfree : nulFree nv = true
    · obtain ⟨n, v, hn, hv, -, -⟩ := new_of_nulFree hfree
      obtain ⟨name, value⟩ := nv
      simp only [DeferredResponder.sendHeaders, cstring_of_new hn, cstring_of_new hv,
        DeferredResponder.call] at h
      cases hrc : Error.check (rcs made.length) with
      | ok _ =>
        rw [hrc] at h
        obtain ⟨hrest, hok⟩ := ih _ h
        refine ⟨List.forall_mem_cons.mpr ⟨hfree, hrest⟩, fun j hj => ?_⟩
        cases j with
        | zero => exact Error.check_eq_ok.mp hrc
        | succ j =>
          have hj' := hok j (Nat.lt_of_succ_lt_succ hj)
          simp only [List.length_append, List.length_singleton, Nat.add_assoc, Nat.add_comm 1] at hj'
          exact hj'
      | error e =>
        rw [hrc] at h
        exact absurd h (by simp)
    · rw [DeferredResponder.sendHeaders_nul d rcs (by simpa using hfree)] at h
      exact absurd h (by simp)

/-- **A send succeeds** exactly when every header can be delivered and the stream takes the
response. -/
theorem send_ok_iff (d : DeferredResponder) (status : Status) (body : Bytes) (rcs : Nat → CInt)
    (rc : CInt) :
    (d.send status body (answering d.headers.length rcs rc)).1 = .ok () ↔
      Deliverable d.headers rcs ∧ 0 ≤ rc := by
  have hhead : ∀ j < d.headers.length, answering d.headers.length rcs rc j = rcs j :=
    fun j hj => if_pos hj
  constructor
  · intro h
    unfold DeferredResponder.send at h
    cases hloop : d.sendHeaders (answering d.headers.length rcs rc) d.headers [] with
    | mk r made =>
      rw [hloop] at h
      cases r with
      | error e => exact absurd h (by simp)
      | ok _ =>
        have hr := sendHeaders_ok d (answering d.headers.length rcs rc) d.headers []
          (by rw [hloop])
        have hok : ∀ j < d.headers.length, 0 ≤ answering d.headers.length rcs rc j :=
          fun j hj => by simpa using hr.2 j hj
        -- the call that responds comes after one call for each header
        obtain ⟨log, hlog, -, hlen⟩ := DeferredResponder.sendHeaders_append d _ [] d.headers []
          hr.1 (fun j hj => by simpa using hok j hj)
        rw [List.append_nil, hloop] at hlog
        obtain rfl : made = log := by simpa [DeferredResponder.sendHeaders] using hlog
        have hrc := Error.check_eq_ok.mp h
        rw [hlen, answering, if_neg (Nat.lt_irrefl _)] at hrc
        exact ⟨⟨hr.1, fun j hj => hhead j hj ▸ hok j hj⟩, hrc⟩
  · rintro ⟨⟨hfree, hok⟩, hrc⟩
    refine (DeferredResponder.send_accepts hfree (fun j => ?_) status body).1
    unfold answering
    split
    · rename_i hj
      exact hok j hj
    · exact hrc

/-- The reply is what the terminal's call answers. -/
theorem reply_eq (res : Responder) {op : Op} (hop : op.builds = true) (rc : CInt) :
    (res.call op).reply rc = rc := by
  obtain ⟨_, -, -, -, hfin⟩ := call_builds res hop
  unfold Terminal.reply Terminal.code
  rw [hfin]

/-- What the C side accepts of a fresh chain and its terminal. -/
theorem accepted_chain (buf : Ptr) (inv : ReqId) (server : Ptr) (connId streamId : Nat)
    (hs : List (Bytes × Bytes)) {op : Op} (hop : op.builds = true) (rcs : Nat → CInt) (rc : CInt) :
    (((Responder.new buf inv server connId streamId).chain hs).call op).accepted rcs rc =
      (if op.carries then accepted ((hs ++ op.headers).filterMap (headerCall buf)) rcs else []) ++
        if 0 ≤ rc then op.handed.filterMap Handed.kept else [] := by
  obtain ⟨c, hcalls, hhanded, hcarries, -⟩ :=
    call_builds ((Responder.new buf inv server connId streamId).chain hs) hop
  unfold Terminal.accepted
  rw [hcalls, chain_made, List.dropLast_concat, List.getLast?_concat]
  simp [Responder.new, hhanded, hcarries, List.filterMap_append]

/-- A terminal that carries no chained header has none of its own. -/
theorem headers_of_not_carries {op : Op} (h : op.carries = false) : op.headers = [] := by
  cases op <;> first | rfl | exact absurd h (by simp [Op.carries])

/-- **Everything given is accepted**, by a terminal whose call answers success, exactly when no
string has an interior nul, no header call is refused, and the response carries the headers. -/
theorem accepted_given (buf : Ptr) (inv : ReqId) (server : Ptr) (connId streamId : Nat)
    (hs : List (Bytes × Bytes)) {op : Op} (hop : op.builds = true) (rcs : Nat → CInt) :
    (((Responder.new buf inv server connId streamId).chain hs).call op).accepted rcs 0 =
        given hs op ↔
      (∀ h ∈ given hs op, h.nulFree = true) ∧ (∀ j < (hs ++ op.headers).length, 0 ≤ rcs j) ∧
        (op.carries = true ∨ hs = []) := by
  rw [accepted_chain buf inv server connId streamId hs hop, if_pos (Int.le_refl 0), given,
    List.forall_mem_append, headersOf_nulFree, ← filterMap_kept_iff op.handed]
  have hlen : (headersOf (hs ++ op.headers)).length = (hs ++ op.headers).length :=
    List.length_map _
  have hkept := filterMap_kept_length op.handed
  cases hc : op.carries with
  | true =>
    rw [if_pos rfl]
    constructor
    · intro heq
      have hle := accepted_length_le buf (hs ++ op.headers) rcs
      have hsum := congrArg List.length heq
      rw [List.length_append, List.length_append] at hsum
      obtain ⟨h1, h2⟩ := List.append_inj heq (by omega)
      obtain ⟨hfree, hok⟩ := (accepted_headers buf _ rcs).mp h1
      exact ⟨⟨hfree, h2⟩, hok, Or.inl rfl⟩
    · rintro ⟨⟨hfree, h2⟩, hok, -⟩
      rw [(accepted_headers buf _ rcs).mpr ⟨hfree, hok⟩, h2]
  | false =>
    rw [if_neg (by simp), headers_of_not_carries hc, List.append_nil, List.nil_append]
    constructor
    · intro heq
      -- nothing of the chain is accepted, so nothing was chained
      have hsum := congrArg List.length heq
      rw [headers_of_not_carries hc, List.append_nil] at hlen
      rw [List.length_append, hlen] at hsum
      obtain rfl : hs = [] := List.length_eq_zero_iff.mp (by omega)
      exact ⟨⟨by simp, heq⟩, by simp, Or.inr rfl⟩
    · rintro ⟨⟨-, h2⟩, -, hnil⟩
      obtain rfl := hnil.resolve_left (by simp)
      exact h2

/-- **Nothing is silently lost** exactly when the terminal's call fails, or it succeeds, no string
has an interior nul, no header call is refused and no header was chained before a response that
carries none. **The two paths agree** exactly when the call that answers fails, or it succeeds and
every header can be delivered. -/
theorem nothing_lost_iff (buf : Ptr) (inv : ReqId) (server : Ptr) (connId streamId : Nat) :
    (∀ hs op rcs rc, op.builds = true →
      (NothingLost (.new buf inv server connId streamId) hs op rcs rc ↔
        rc < 0 ∨ (rc = 0 ∧ (∀ h ∈ given hs op, h.nulFree = true) ∧
          (∀ j < (hs ++ op.headers).length, 0 ≤ rcs j) ∧ (op.carries = true ∨ hs = [])))) ∧
    (∀ d hs status body rcs rc,
      PathsAgree (.new buf inv server connId streamId) d hs status body rcs rc ↔
        rc < 0 ∨ (rc = 0 ∧ Deliverable hs rcs) ∨ (0 < rc ∧ ¬ Deliverable hs rcs)) := by
  constructor
  · intro hs op rcs rc hop
    unfold NothingLost
    rw [reply_eq _ hop]
    by_cases hzero : rc = 0
    · subst hzero
      rw [accepted_given buf inv server connId streamId hs hop]
      simp
    · simp [hzero]
  · intro d hs status body rcs rc
    have hsend := send_ok_iff { d with headers := hs } status body rcs rc
    unfold PathsAgree
    rw [reply_eq _ rfl, hsend]
    rcases Int.lt_trichotomy rc 0 with hrc | rfl | hrc
    · simp [hrc, Int.ne_of_lt hrc, Int.not_le.mpr hrc]
    · simp
    · simp [hrc, (Int.ne_of_lt hrc).symm, Int.le_of_lt hrc, Int.not_lt.mpr (Int.le_of_lt hrc)]

/-- A header and an etag that reach the C side. -/
theorem nothing_lost_iff_taken :
    NothingLost (.new 1 0 2 3 4) [([120], [49])] (.notModified [101]) (fun _ => 0) 0 ∧
      PathsAgree (.new 1 0 2 3 4) ⟨2, 3, 4, []⟩ [([120], [49])] .ok [] (fun _ => 0) 0 :=
  ⟨((nothing_lost_iff 1 0 2 3 4).1 _ _ _ _ rfl).mpr
      (Or.inr ⟨rfl, by decide, fun _ _ => Int.le_refl 0, Or.inl rfl⟩),
    ((nothing_lost_iff 1 0 2 3 4).2 _ _ _ _ _ _).mpr
      (Or.inr (Or.inl ⟨rfl, by decide, fun _ _ => Int.le_refl 0⟩))⟩

/-- **A header and an etag are lost** while the reply says success: a string with a nul, a header the
C side refuses, and one chained before `stream`. The parked stream refuses the first two. -/
theorem header_lost :
    ¬ NothingLost (.new 1 0 2 3 4) [([120, 0], [49])] (.ok []) (fun _ => 0) 0 ∧
      ¬ NothingLost (.new 1 0 2 3 4) [] (.notModified [101, 0]) (fun _ => 0) 0 ∧
      ¬ NothingLost (.new 1 0 2 3 4) [([120], [49])] (.ok []) (fun _ => -802) 0 ∧
      ¬ NothingLost (.new 1 0 2 3 4) [([120], [49])] (.stream [47] .ok []) (fun _ => 0) 0 ∧
      ¬ PathsAgree (.new 1 0 2 3 4) ⟨2, 3, 4, []⟩ [([120, 0], [49])] .ok [] (fun _ => 0) 0 ∧
      ¬ PathsAgree (.new 1 0 2 3 4) ⟨2, 3, 4, []⟩ [([120], [49])] .ok [] (fun _ => -802) 0 := by
  have hlost : ∀ hs op rcs, (((Responder.new 1 0 2 3 4).chain hs).call op).reply 0 = 0 →
      (((Responder.new 1 0 2 3 4).chain hs).call op).accepted rcs 0 ≠ given hs op →
      ¬ NothingLost (.new 1 0 2 3 4) hs op rcs 0 := by
    rintro hs op rcs hzero hne (⟨-, h⟩ | h)
    · exact hne h
    · rw [hzero] at h
      exact absurd h (Int.lt_irrefl 0)
  refine ⟨hlost _ _ _ rfl (by decide), hlost _ _ _ rfl (by decide), hlost _ _ _ rfl (by decide),
    hlost _ _ _ rfl (by decide), fun h => ?_, fun h => ?_⟩
  · exact absurd (h.mp rfl) (by decide)
  · exact absurd (h.mp rfl) (by decide)

end Nwep.Server
