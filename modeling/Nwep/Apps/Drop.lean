import Mathlib.Data.List.Basic
import Nwep.Client.Marshal
import Nwep.ErrorSites
import Nwep.Identity
import Nwep.Lib.Machine

/-!
# Resumable download

Model of the two ends of `nwep/examples/nwdrop.rs`: the sender's handler (72-84), over
`Request::range` and `Responder::partial` (`nwep/src/server.rs` 161-198, 364-395), and the getter's
loop (110-133), over `RequestBuilder::send` and the accessors of `Response` (`nwep/src/client.rs`
55-115), with `Status::from_token` (`nwep/src/wire.rs`).

* The file is any file. The getter starts from the bytes it has, none in the source: a partial file
  resumes from its size.
* What the C library does between the two ends is `CSide`: how it reads a range header, and the
  message a client gets for the call a handler answered with. `Documented` is what `nwep-sys` and
  `nwep/tests/ranges.rs` say of it. Any request can fail instead, which ends the loop.
* `have` stays at most the length of the file, so its `u64` does not overflow.

Results:
* **`windows_contiguous`**: whatever a server answers, a window starts where what was received ends;
* **`download_exact`**: with the sender at the other end, what was received is a front of the file at
  every point, and the loop ends with the whole file after as many requests as there are windows.
-/

/-! ## Reading a response -/

namespace Nwep

/-- `Status::from_token`. -/
def Status.tokens : List (Bytes × Status) :=
  [(str "ok", .ok), (str "created", .created), (str "accepted", .accepted),
   (str "no-content", .noContent), (str "partial-content", .partialContent), (str "moved", .moved),
   (str "not-modified", .notModified), (str "bad-request", .badRequest),
   (str "unauthorized", .unauthorized), (str "forbidden", .forbidden), (str "not-found", .notFound),
   (str "not-allowed", .notAllowed), (str "conflict", .conflict), (str "gone", .gone),
   (str "too-large", .tooLarge), (str "precondition-failed", .preconditionFailed),
   (str "range-not-satisfiable", .rangeNotSatisfiable), (str "rate-limited", .rateLimited),
   (str "unavailable", .unavailable), (str "timeout", .timeout),
   (str "not-implemented", .notImplemented)]

/-- An unknown token is `Error`. -/
def Status.fromToken (token : Bytes) : Status :=
  match Status.tokens.find? (·.1 = token) with
  | some (_, status) => status
  | none => .error

namespace Client

/-- What the C accessors give of a message: its status token and its body, each null or not. -/
structure Message where
  status : Option Bytes
  body   : Option Bytes
  deriving DecidableEq

namespace Message

/-- `Response::status`. -/
def statusOf (m : Message) : Option Status :=
  m.status.map fun p => Status.fromToken (if Identity.validUtf8 p then p else str "error")

/-- `Response::body`, and `Response::into_body`. -/
def bodyOf (m : Message) : Bytes := m.body.getD []

end Message

end Client

end Nwep

/-! ## Decimal numbers as bytes

`decimal` writes a number as the bytes of its digits, `number` reads it back, and `split` takes two
numbers apart at a byte that is no digit. -/

namespace Nwep.Apps.Decimal

/-- The byte of an ascii character. -/
def byteOf (c : Char) : UInt8 := c.toNat.toUInt8

def decimal (n : Nat) : List UInt8 := (Nat.toDigits 10 n).map byteOf

def number (b : List UInt8) : Nat := b.foldl (fun n d => 10 * n + (d.toNat - 48)) 0

/-- The two numbers around the first `sep`. -/
def split (sep : UInt8) (b : List UInt8) : Nat × Nat :=
  (number (b.takeWhile (· != sep)), number ((b.dropWhile (· != sep)).tail))

/-- The byte is a digit. -/
def IsDigit (d : UInt8) : Prop := 48 ≤ d.toNat ∧ d.toNat ≤ 57

theorem byteOf_toNat {c : Char} (h : c.isDigit = true) : (byteOf c).toNat = c.toNat := by
  have hle : c.toNat ≤ 57 := by
    simp only [Char.isDigit, Bool.and_eq_true, decide_eq_true_eq] at h
    exact h.2
  have hlt : c.toNat < 256 := by omega
  rw [byteOf, Nat.toUInt8, UInt8.toNat_ofNat', Nat.mod_eq_of_lt hlt]

theorem isDigit_of_mem_decimal {n : Nat} {d : UInt8} (h : d ∈ decimal n) : IsDigit d := by
  obtain ⟨c, hc, rfl⟩ := List.mem_map.mp h
  have hd := Nat.isDigit_of_mem_toDigits (by decide) (by decide) hc
  rw [IsDigit, byteOf_toNat hd]
  simp only [Char.isDigit, Bool.and_eq_true, decide_eq_true_eq] at hd
  exact hd

theorem number_map {cs : List Char} (h : ∀ c ∈ cs, c.isDigit = true) (k : Nat) :
    (cs.map byteOf).foldl (fun n d => 10 * n + (d.toNat - 48)) k = Nat.ofDigitChars 10 cs k := by
  induction cs generalizing k with
  | nil => simp
  | cons c cs ih =>
    rw [List.map_cons, List.foldl_cons, Nat.ofDigitChars_cons, byteOf_toNat (h c List.mem_cons_self),
      ih fun d hd => h d (List.mem_cons_of_mem c hd)]
    rfl

/-- **A number written is read back.** -/
theorem number_decimal (n : Nat) : number (decimal n) = n := by
  have hd : ∀ c ∈ Nat.toDigits 10 n, c.isDigit = true := fun c hc =>
    Nat.isDigit_of_mem_toDigits (by decide) (by decide) hc
  rw [number, decimal, number_map hd, Nat.ofDigitChars_ten_toDigits]

/-- Two numbers around a byte that is no digit are taken apart there. -/
theorem split_decimal {sep : UInt8} (hs : ¬ IsDigit sep) (m n : Nat) :
    split sep (decimal m ++ sep :: decimal n) = (m, n) := by
  have hne : ∀ d ∈ decimal m, (d != sep) = true := by
    intro d hd
    simp only [bne_iff_ne, ne_eq]
    rintro rfl
    exact hs (isDigit_of_mem_decimal hd)
  have htake : (decimal m ++ sep :: decimal n).takeWhile (· != sep) = decimal m := by
    rw [List.takeWhile_append_of_pos hne]
    simp
  have hdrop : (decimal m ++ sep :: decimal n).dropWhile (· != sep) = sep :: decimal n := by
    rw [List.dropWhile_append_of_pos hne]
    simp
  rw [split, htake, hdrop, List.tail_cons, number_decimal, number_decimal]

end Nwep.Apps.Decimal

namespace Nwep.Apps.Drop

open Nwep.Client Nwep.Lib

/-! ## The sender -/

/-- The C library between the two ends. -/
structure CSide where
  /-- `nwep_request_range`, on the range header of a request. -/
  range   : Option Bytes → Nat → CInt × Vector Server.ByteRange maxRanges × Nat
  /-- The message the client gets for the call a handler answered with. -/
  respond : Server.Call → Message

/-- `Request::header`. -/
def headerOf (req : Request) (name : Bytes) : Option Bytes :=
  (req.headers.find? (·.1 = name)).map Prod.snd

/-- The handler. None is the panic of `Request::range`. -/
def onRequest (c : CSide) (file : Bytes) (req : Request) (res : Server.Responder) :
    Option Server.Terminal :=
  if req.path ≠ str "/blob" then some res.notFound
  else
    let total := file.length
    let (rc, out, count) := c.range (headerOf req (str "range")) total
    match requestRange none rc out count with
    | none => none
    | some (.ok (.ranges rs)) =>
      some (res.partialContent file rs (str "application/octet-stream"))
    | some (.ok .unsatisfiable) => some (res.rangeNotSatisfiable total)
    | some _ => some (res.ok file)

/-- The message the client gets for a request. -/
def answer (c : CSide) (file : Bytes) (req : Request) (res : Server.Responder) : Option Message := do
  let terminal ← onRequest c file req res
  let call ← terminal.calls.getLast?
  some (c.respond call)

/-! ## The getter -/

/-- `format!("bytes={}-{}", have, have + 15)`. -/
def rangeText (have' : Nat) : Bytes :=
  str "bytes=" ++ Decimal.decimal have' ++ str "-" ++ Decimal.decimal (have' + 15)

/-- `client.request(Method::Read, "/blob").header("range", &range)`. -/
def window (have' : Nat) : Request :=
  ((RequestBuilder.new 0 .read (str "/blob")).header (str "range") (rangeText have')).request

inductive Pc
  | request            -- the top of `loop`
  | done               -- out of it
  | failed (e : Error) -- `send()?` returned
  deriving DecidableEq

structure State where
  pc         : Pc
  have'      : Nat
  downloaded : Bytes
  deriving DecidableEq

/-- One request, with what `send` returned. -/
inductive Act
  | send (req : Request) (r : Result Message)
  deriving DecidableEq

/-- The top of the loop, with the bytes there are. -/
def init (part : Bytes) : State := ⟨.request, part.length, part⟩

/-- One turn of the loop. -/
def step (s : State) : Act → Option State
  | .send req r =>
    if s.pc = .request ∧ req = window s.have' then
      match r with
      | .error e => some { s with pc := .failed e }
      | .ok resp =>
        if resp.statusOf = some .rangeNotSatisfiable then some { s with pc := .done }
        else
          let chunk := resp.bodyOf
          if chunk = [] then some { s with pc := .done }
          else some {
            pc := if chunk.length < 16 then .done else .request
            have' := s.have' + chunk.length
            downloaded := s.downloaded ++ chunk }
    else none

/-- The getter's loop. -/
def machine (part : Bytes) : Machine State Act where
  init := init part
  step := step

/-! ## What each step does -/

/-- Every enabled step, with its guard and its effect. -/
inductive Step (s : State) : Act → State → Prop
  | fails {e} (h : s.pc = .request) :
      Step s (.send (window s.have') (.error e)) { s with pc := .failed e }
  | beyond {resp : Message} (h : s.pc = .request)
      (hs : resp.statusOf = some .rangeNotSatisfiable) :
      Step s (.send (window s.have') (.ok resp)) { s with pc := .done }
  | empty {resp : Message} (h : s.pc = .request)
      (hs : resp.statusOf ≠ some .rangeNotSatisfiable) (hb : resp.bodyOf = []) :
      Step s (.send (window s.have') (.ok resp)) { s with pc := .done }
  | chunk {resp : Message} (h : s.pc = .request)
      (hs : resp.statusOf ≠ some .rangeNotSatisfiable) (hb : resp.bodyOf ≠ []) :
      Step s (.send (window s.have') (.ok resp))
        { pc := if resp.bodyOf.length < 16 then .done else .request
          have' := s.have' + resp.bodyOf.length
          downloaded := s.downloaded ++ resp.bodyOf }

theorem step_inv {s t : State} {a : Act} (h : step s a = some t) : Step s a t := by
  obtain ⟨req, r⟩ := a
  simp only [step] at h
  split at h
  · rename_i hc
    obtain ⟨hpc, rfl⟩ := hc
    cases r with
    | error e =>
      obtain rfl := Option.some.inj h
      exact .fails hpc
    | ok resp =>
      simp only at h
      split at h
      · rename_i hs
        obtain rfl := Option.some.inj h
        exact .beyond hpc hs
      · rename_i hs
        split at h
        · rename_i hb
          obtain rfl := Option.some.inj h
          exact .empty hpc hs hb
        · rename_i hb
          obtain rfl := Option.some.inj h
          exact .chunk hpc hs hb
  · exact absurd h (by simp)

/-! ## Any server -/

/-- What the getter keeps of an answer. -/
def Act.kept : Act → Bytes
  | .send _ (.ok resp) => if resp.statusOf = some .rangeNotSatisfiable then [] else resp.bodyOf
  | .send _ (.error _) => []

/-- What was received, after the bytes there were. -/
def received (part : Bytes) (acts : List Act) : Bytes := part ++ acts.flatMap Act.kept

theorem received_snoc (part : Bytes) (acts : List Act) (a : Act) :
    received part (acts ++ [a]) = received part acts ++ a.kept := by
  simp [received]

/-- What holds of the loop whoever answers it. -/
structure Contiguous (part : Bytes) (acts : List Act) (s : State) : Prop where
  /-- What was received is what is counted and kept. -/
  kept : s.downloaded = received part acts ∧ s.have' = (received part acts).length
  /-- Each request asks for the window right after what was received before it. -/
  asked : ∀ pre req r post, acts = pre ++ .send req r :: post →
    req = window (received part pre).length
  /-- Every request before the last was answered with a full window. -/
  full : ∀ pre req r a post, acts = pre ++ .send req r :: a :: post →
    ∃ resp, r = .ok resp ∧ 16 ≤ resp.bodyOf.length
  /-- While the loop goes on, so was the last. -/
  going : s.pc = .request → ∀ pre req r, acts = pre ++ [.send req r] →
    ∃ resp, r = .ok resp ∧ 16 ≤ resp.bodyOf.length

theorem contiguous_step {part : Bytes} {acts : List Act} {s t : State} {a : Act}
    (h : Contiguous part acts s) (hs : Step s a t) : Contiguous part (acts ++ [a]) t := by
  obtain ⟨hdown, hhave⟩ := h.kept
  -- what every step keeps of the requests
  have hpc : s.pc = .request ∧ ∃ r, a = .send (window s.have') r := by
    cases hs with
    | fails hp | beyond hp _ | empty hp _ _ | chunk hp _ _ => exact ⟨hp, _, rfl⟩
  obtain ⟨hreq, r, rfl⟩ := hpc
  have hasked : ∀ pre req r' post, acts ++ [.send (window s.have') r] = pre ++ .send req r' :: post →
      req = window (received part pre).length := by
    intro pre req r' post heq
    rcases snoc_split heq with ⟨rfl, hb, -⟩ | ⟨mid, hmid, -⟩
    · obtain ⟨rfl, -⟩ := Act.send.inj hb
      rw [hhave]
    · exact h.asked pre req r' mid hmid
  have hfull : ∀ pre req r' b post,
      acts ++ [.send (window s.have') r] = pre ++ .send req r' :: b :: post →
        ∃ resp, r' = .ok resp ∧ 16 ≤ resp.bodyOf.length := by
    intro pre req r' b post heq
    rcases snoc_split heq with ⟨-, -, hnil⟩ | ⟨mid, hmid, hpost⟩
    · exact absurd hnil (by simp)
    · cases mid with
      | nil => exact h.going hreq pre req r' hmid
      | cons c mid => exact h.full pre req r' c mid hmid
  refine ⟨?_, hasked, hfull, ?_⟩
  · rw [received_snoc]
    cases hs with
    | fails _ => simpa [Act.kept] using h.kept
    | beyond _ hst => simpa [Act.kept, hst] using h.kept
    | empty _ hst hb => simpa [Act.kept, hst, hb] using h.kept
    | chunk _ hst _ => simp [Act.kept, hst, hdown, hhave]
  · intro hgo pre req r' heq
    obtain ⟨-, hb⟩ := List.append_inj' heq rfl
    obtain ⟨-, rfl⟩ := Act.send.inj (List.cons.inj hb).1
    cases hs with
    | fails _ | beyond _ _ | empty _ _ _ => exact absurd hgo (by simp)
    | @chunk resp _ _ _ =>
      refine ⟨resp, rfl, ?_⟩
      by_contra hlt
      simp [Nat.lt_of_not_le hlt] at hgo

/-- **No gap and no overlap**, whatever is answered: the requests ask for one window after the
other, each from where the bytes received end. -/
theorem windows_contiguous {part : Bytes} {acts : List Act} {s : State}
    (h : (machine part).run acts = some s) : Contiguous part acts s := by
  refine (machine part).run_induction (P := Contiguous part) ?_ ?_ h
  · exact ⟨by simp [machine, init, received], by simp, by simp, by simp⟩
  · intro as s a t _ hp hst
    exact contiguous_step hp (step_inv hst)

/-- A server that ignores the range sends all of a resource of twenty bytes, twice. -/
def ignored : List Act :=
  [.send (window 0) (.ok ⟨some (str "ok"), some (List.replicate 20 7)⟩),
   .send (window 20) (.ok ⟨some (str "ok"), some (List.replicate 20 7)⟩),
   .send (window 40) (.error .networkTimeout)]

theorem windows_contiguous_ignored :
    ∃ s, (machine []).run ignored = some s ∧ s.downloaded = List.replicate 40 7 ∧
      Contiguous [] ignored s :=
  ⟨_, rfl, rfl, windows_contiguous rfl⟩

/-! ## The sender at the other end -/

/-- The message is an answer of the sender, to some call of its handler. -/
def Served (c : CSide) (file : Bytes) : Act → Prop
  | .send req (.ok resp) => ∃ res, answer c file req res = some resp
  | .send _ (.error _) => True

/-- What is documented of the C library, for the windows the getter asks for. -/
structure Documented (c : CSide) (file : Bytes) : Prop where
  /-- A window that starts inside the file is the one range of its bytes. -/
  satisfiable : ∀ a < file.length, ∃ out, c.range (some (rangeText a)) file.length = (0, out, 1) ∧
    out.toList.take 1 = [⟨a, min (a + 15) (file.length - 1)⟩]
  /-- One that starts past its end selects no bytes. -/
  unsatisfiable : ∀ a, file.length ≤ a → (c.range (some (rangeText a)) file.length).1 = 2
  /-- One range is sent as its bytes, -/
  slice : ∀ buf r ctype, r.start ≤ r.stop → r.stop < file.length →
    c.respond (.ranges buf (sliceParts file) [r] ctype) =
      ⟨some (str "partial-content"), some ((file.drop r.start).take (r.stop - r.start + 1))⟩
  /-- and an unsatisfiable one under its status. -/
  beyond : ∀ buf, (c.respond (.rangeNotSatisfiable buf file.length)).status =
    some (str "range-not-satisfiable")

section Sender

variable {c : CSide} {file : Bytes}

theorem headerOf_window (a : Nat) : headerOf (window a) (str "range") = some (rangeText a) := by
  simp [headerOf, window, RequestBuilder.new, RequestBuilder.header, RequestBuilder.request]

theorem take_window {a : Nat} (h : a < file.length) :
    (file.drop a).take (min (a + 15) (file.length - 1) - a + 1) = (file.drop a).take 16 := by
  rcases Nat.le_total (a + 15) (file.length - 1) with hle | hle
  · rw [Nat.min_eq_left hle]
    congr 1
    omega
  · rw [Nat.min_eq_right hle, List.take_of_length_le, List.take_of_length_le]
    · rw [List.length_drop]
      omega
    · rw [List.length_drop]
      omega

/-- Inside the file, the answer is the window. -/
theorem answer_inside (hc : Documented c file) {a : Nat} (h : a < file.length)
    (res : Server.Responder) :
    answer c file (window a) res =
      some ⟨some (str "partial-content"), some ((file.drop a).take 16)⟩ := by
  obtain ⟨out, hrange, htake⟩ := hc.satisfiable a h
  have hpath : (window a).path = str "/blob" := rfl
  have hreq : requestRange none 0 out 1 =
      some (.ok (.ranges [⟨a, min (a + 15) (file.length - 1)⟩])) := by
    simp [requestRange, etagArg, maxRanges]
    exact htake
  have hfirst : a ≤ min (a + 15) (file.length - 1) := by omega
  have hlast : min (a + 15) (file.length - 1) < file.length := by omega
  have hslice := hc.slice res.buf ⟨a, min (a + 15) (file.length - 1)⟩
    (CString.newOrDefault (str "application/octet-stream")) hfirst hlast
  simp only [answer, onRequest, hpath, headerOf_window, hrange, hreq, ne_eq, not_true_eq_false,
    if_false, Server.Responder.partialContent, Server.Responder.build, Option.bind_eq_bind,
    Option.bind_some, List.getLast?_concat]
  rw [hslice, take_window h]

/-- Past its end, the answer says so. -/
theorem answer_beyond (hc : Documented c file) {a : Nat} (h : file.length ≤ a)
    (res : Server.Responder) : ∃ resp, answer c file (window a) res = some resp ∧
      resp.statusOf = some .rangeNotSatisfiable := by
  have hrc := hc.unsatisfiable a h
  have hpath : (window a).path = str "/blob" := rfl
  have hreq : ∀ out count, requestRange none 2 out count = some (.ok .unsatisfiable) := by
    intro out count
    simp [requestRange, etagArg]
  refine ⟨c.respond (.rangeNotSatisfiable res.buf file.length), ?_, ?_⟩
  · rcases hr : c.range (some (rangeText a)) file.length with ⟨rc, out, count⟩
    rw [hr] at hrc
    obtain rfl : rc = 2 := hrc
    simp only [answer, onRequest, hpath, headerOf_window, hr, hreq, ne_eq, not_true_eq_false,
      if_false, Server.Responder.rangeNotSatisfiable, Server.Responder.build, Option.bind_eq_bind,
      Option.bind_some, List.getLast?_concat]
  · rw [Message.statusOf, hc.beyond]
    decide

theorem statusOf_slice (b : Option Bytes) :
    (Message.mk (some (str "partial-content")) b).statusOf = some .partialContent := by
  simp only [Message.statusOf, Option.map_some]
  decide

/-- What an answer of the sender is, by where the window starts. -/
theorem served_window (hc : Documented c file) {a : Nat} {resp : Message}
    (hsv : Served c file (.send (window a) (.ok resp))) :
    (a < file.length ∧ resp.statusOf = some .partialContent ∧
      resp.bodyOf = (file.drop a).take 16) ∨
    (file.length ≤ a ∧ resp.statusOf = some .rangeNotSatisfiable) := by
  obtain ⟨res, hans⟩ := hsv
  rcases Nat.lt_or_ge a file.length with hlt | hge
  · rw [answer_inside hc hlt res] at hans
    obtain rfl := Option.some.inj hans
    exact Or.inl ⟨hlt, statusOf_slice _, rfl⟩
  · obtain ⟨resp', hans', hst⟩ := answer_beyond hc hge res
    rw [hans'] at hans
    obtain rfl := Option.some.inj hans
    exact Or.inr ⟨hge, hst⟩

/-- Where the download is, after `acts`. -/
structure Inv (file : Bytes) (start : Nat) (acts : List Act) (s : State) : Prop where
  front  : s.downloaded = file.take s.have'
  ge     : start ≤ s.have'
  le     : s.have' ≤ file.length
  going  : s.pc = .request → s.have' = start + 16 * acts.length
  done   : s.pc = .done → s.have' = file.length ∧ acts.length = (file.length - start) / 16 + 1
  failed : ∀ e, s.pc = .failed e → s.have' + 16 = start + 16 * acts.length

theorem inv_step (hc : Documented c file) {start : Nat} {acts : List Act} {s t : State} {a : Act}
    (h : Inv file start acts s) (hs : Step s a t) (hsv : Served c file a) :
    Inv file start (acts ++ [a]) t := by
  have hge := h.ge
  have hle := h.le
  have hlen : (acts ++ [a]).length = acts.length + 1 := by simp
  cases hs with
  | fails hpc =>
    have hgo := h.going hpc
    refine ⟨h.front, hge, hle, by simp, by simp, fun e _ => ?_⟩
    rw [hlen]
    show s.have' + 16 = _
    omega
  | @beyond resp hpc hst =>
    have hgo := h.going hpc
    rcases served_window hc hsv with ⟨-, hpart, -⟩ | ⟨hend, -⟩
    · rw [hpart] at hst
      exact absurd hst (by decide)
    · refine ⟨h.front, hge, hle, by simp, fun _ => ⟨Nat.le_antisymm hle hend, ?_⟩, by simp⟩
      rw [hlen]
      omega
  | @empty resp hpc hst hb =>
    -- inside the file the window is not empty, and past its end it has its own status
    rcases served_window hc hsv with ⟨hlt, -, hbody⟩ | ⟨-, hbey⟩
    · rw [hbody] at hb
      have hzero := congrArg List.length hb
      rw [List.length_take, List.length_drop, List.length_nil] at hzero
      omega
    · exact absurd hbey hst
  | @chunk resp hpc hst hb =>
    have hgo := h.going hpc
    rcases served_window hc hsv with ⟨hlt, -, hbody⟩ | ⟨-, hbey⟩
    · have hsize : resp.bodyOf.length = min 16 (file.length - s.have') := by
        rw [hbody, List.length_take, List.length_drop]
      have hfront : s.downloaded ++ resp.bodyOf = file.take (s.have' + resp.bodyOf.length) := by
        rw [List.take_add, ← h.front, hsize, hbody, List.take_eq_take_min, List.length_drop]
      refine ⟨hfront, Nat.le_add_right_of_le hge, ?_, fun hgo' => ?_, fun hdone => ⟨?_, ?_⟩,
        fun e he => ?_⟩
      · show s.have' + resp.bodyOf.length ≤ file.length
        omega
      · have hfull : ¬ resp.bodyOf.length < 16 := fun hl => by simp [hl] at hgo'
        show s.have' + resp.bodyOf.length = _
        omega
      · have hlast : resp.bodyOf.length < 16 := by
          by_contra hl
          simp [hl] at hdone
        show s.have' + resp.bodyOf.length = file.length
        omega
      · have hlast : resp.bodyOf.length < 16 := by
          by_contra hl
          simp [hl] at hdone
        omega
      · simp only at he
        split at he <;> exact absurd he (by simp)
    · exact absurd hbey hst

theorem inv_run (hc : Documented c file) {start : Nat} (hstart : start ≤ file.length)
    {acts : List Act} {s : State} (h : (machine (file.take start)).run acts = some s)
    (hsv : ∀ a ∈ acts, Served c file a) : Inv file start acts s := by
  refine (machine (file.take start)).run_induction
    (P := fun as s => (∀ a ∈ as, Served c file a) → Inv file start as s) ?_ ?_ h hsv
  · intro _
    have hlen : (file.take start).length = start := List.length_take_of_le hstart
    refine ⟨?_, Nat.le_of_eq hlen.symm, ?_, fun _ => ?_, by simp [machine, init],
      by simp [machine, init]⟩
    · simp [machine, init, hlen]
    · show (file.take start).length ≤ file.length
      omega
    · show (file.take start).length = start + 16 * 0
      omega
  · intro as s a t _ hp hst hall
    have hlast := hall a (List.mem_append_right _ List.mem_cons_self)
    exact inv_step hc (hp fun b hb => hall b (List.mem_append_left _ hb)) (step_inv hst) hlast

/-- A getter that goes on is led to the end by the sender's answers. -/
theorem finishes (hc : Documented c file) (part : Bytes) {s : State} (hpc : s.pc = .request) :
    ∃ more t, (∀ a ∈ more, Served c file a) ∧ (machine part).runFrom s more = some t ∧
      t.pc = .done := by
  let res : Server.Responder := ⟨0, 0, 0, 0, 0, []⟩
  induction hn : file.length - s.have' using Nat.strongRecOn generalizing s with
  | ind n ih =>
    rcases Nat.lt_or_ge s.have' file.length with hlt | hge
    · have hans := answer_inside hc hlt res
      have hst := statusOf_slice (some ((file.drop s.have').take 16))
      have hlen : ((file.drop s.have').take 16).length = min 16 (file.length - s.have') := by
        rw [List.length_take, List.length_drop]
      have hne : (file.drop s.have').take 16 ≠ [] := by
        intro hnil
        rw [hnil, List.length_nil] at hlen
        omega
      generalize (file.drop s.have').take 16 = chunk at hans hst hlen hne
      have hstep : (machine part).step s
          (.send (window s.have') (.ok ⟨some (str "partial-content"), some chunk⟩)) =
          some ⟨if chunk.length < 16 then .done else .request, s.have' + chunk.length,
            s.downloaded ++ chunk⟩ := by
        simp only [machine, step, hpc, hst, Message.bodyOf, Option.getD_some, hne, if_false,
          and_self, if_true]
        rfl
      by_cases hlast : chunk.length < 16
      · refine ⟨[_], _, fun a ha => ?_, (machine part).runFrom_cons.mpr ⟨_, hstep, rfl⟩,
          by simp [hlast]⟩
        rw [List.mem_singleton.mp ha]
        exact ⟨res, hans⟩
      · obtain ⟨more, t, hsv, hrun, hdone⟩ := ih (file.length - (s.have' + chunk.length))
          (by omega) (s := ⟨if chunk.length < 16 then .done else .request, s.have' + chunk.length,
            s.downloaded ++ chunk⟩) (by simp [hlast]) rfl
        refine ⟨_ :: more, t, fun a ha => ?_,
          (machine part).runFrom_cons.mpr ⟨_, hstep, hrun⟩, hdone⟩
        rcases List.mem_cons.mp ha with rfl | ha
        · exact ⟨res, hans⟩
        · exact hsv a ha
    · obtain ⟨resp, hans, hst⟩ := answer_beyond hc hge res
      have hstep : (machine part).step s (.send (window s.have') (.ok resp)) =
          some { s with pc := .done } := by
        simp [machine, step, hpc, hst]
      refine ⟨[_], _, fun a ha => ?_, (machine part).runFrom_cons.mpr ⟨_, hstep, rfl⟩, rfl⟩
      rw [List.mem_singleton.mp ha]
      exact ⟨res, hans⟩

/-! ## The main result -/

/-- What a download from the byte `start` on has done after the requests `acts`. -/
structure Downloads (c : CSide) (file : Bytes) (start : Nat) (acts : List Act) (s : State) :
    Prop where
  /-- What is there is a front of the file. -/
  front : s.downloaded = file.take s.have' ∧ s.have' ≤ file.length
  /-- The loop ends with the whole file, after one request for each window. -/
  whole : s.pc = .done → s.downloaded = file ∧ acts.length = (file.length - start) / 16 + 1
  /-- A request that failed cost nothing of what came before it. -/
  failed : ∀ e, s.pc = .failed e → s.have' = start + 16 * (acts.length - 1)
  /-- There are no more requests than that, -/
  bounded : acts.length ≤ (file.length - start) / 16 + 1
  /-- and answers of the sender lead to the end. -/
  finishes : s.pc = .request → ∃ more t, (∀ a ∈ more, Served c file a) ∧
    (machine (file.take start)).runFrom s more = some t ∧ t.pc = .done

/-- **The download is exact**, from any number of bytes on, over any failures. -/
theorem download_exact (hc : Documented c file) {start : Nat} (hstart : start ≤ file.length)
    {acts : List Act} {s : State} (h : (machine (file.take start)).run acts = some s)
    (hsv : ∀ a ∈ acts, Served c file a) : Downloads c file start acts s := by
  have hi := inv_run hc hstart h hsv
  have hge := hi.ge
  have hle := hi.le
  refine ⟨⟨hi.front, hle⟩, fun hd => ?_, fun e he => ?_, ?_, finishes hc _⟩
  · obtain ⟨hall, hcount⟩ := hi.done hd
    refine ⟨?_, hcount⟩
    rw [hi.front, hall, List.take_length]
  · have hf := hi.failed e he
    omega
  · cases hpc : s.pc with
    | request =>
      have hgo := hi.going hpc
      omega
    | done => exact Nat.le_of_eq (hi.done hpc).2
    | failed e =>
      have hf := hi.failed e hpc
      omega

end Sender

/-! ## A C library as documented -/

/-- Reads `bytes=a-b`. -/
def readRange (text : Bytes) : Option (Nat × Nat) :=
  if text.take 6 = str "bytes=" then some (Decimal.split 45 (text.drop 6)) else none

/-- One range, its bytes, and the statuses of the two answers. -/
def reference : CSide where
  range header total :=
    let none' := Vector.replicate maxRanges ⟨0, 0⟩
    match header.bind readRange with
    | none => (1, none', 0)
    | some (a, b) =>
      if a < total then (0, none'.set 0 ⟨a, min b (total - 1)⟩, 1) else (2, none', 0)
  respond
    | .ranges _ (body, _) [r] _ =>
      ⟨some (str "partial-content"),
        some (((body.getD []).drop r.start).take (r.stop - r.start + 1))⟩
    | .rangeNotSatisfiable _ _ => ⟨some (str "range-not-satisfiable"), none⟩
    | _ => ⟨none, none⟩

theorem readRange_rangeText (a : Nat) : readRange (rangeText a) = some (a, a + 15) := by
  have htake : (rangeText a).take 6 = str "bytes=" := by
    rw [rangeText, List.append_assoc, List.append_assoc]
    exact List.take_left' (by decide)
  have hdrop : (rangeText a).drop 6 = Decimal.decimal a ++ 45 :: Decimal.decimal (a + 15) := by
    rw [rangeText, List.append_assoc, List.append_assoc, List.drop_left' (by decide)]
    rfl
  rw [readRange, if_pos htake, hdrop, Decimal.split_decimal (by unfold Decimal.IsDigit; decide)]

theorem reference_documented (file : Bytes) : Documented reference file where
  satisfiable a h := by
    refine ⟨(Vector.replicate maxRanges ⟨0, 0⟩).set 0 ⟨a, min (a + 15) (file.length - 1)⟩, ?_, rfl⟩
    simp [reference, readRange_rangeText, h]
  unsatisfiable a h := by simp [reference, readRange_rangeText, Nat.not_lt.mpr h]
  slice buf r ctype _ hlt := by
    have hne : file ≠ [] := by
      rintro rfl
      exact absurd hlt (Nat.not_lt_zero _)
    simp [reference, sliceParts, hne]
  beyond _ := rfl

/-- A getter with three bytes of twenty asks for the window after them, and for the last byte. -/
def resumed : List Act :=
  [.send (window 3) (.ok ⟨some (str "partial-content"), some (((List.replicate 20 7).drop 3).take 16)⟩),
   .send (window 19) (.ok ⟨some (str "partial-content"), some [7]⟩)]

theorem download_exact_resumed :
    ∃ s, (machine ((List.replicate 20 7).take 3)).run resumed = some s ∧ s.pc = .done ∧
      Downloads reference (List.replicate 20 7) 3 resumed s := by
  have hdoc := reference_documented (List.replicate 20 7)
  refine ⟨_, rfl, rfl, download_exact hdoc (by decide) rfl fun a ha => ?_⟩
  rcases List.mem_cons.mp ha with rfl | ha
  · exact ⟨_, answer_inside hdoc (by decide) ⟨0, 0, 0, 0, 0, []⟩⟩
  · rw [List.mem_singleton.mp ha]
    exact ⟨_, answer_inside hdoc (by decide) ⟨0, 0, 0, 0, 0, []⟩⟩

end Nwep.Apps.Drop
