import Mathlib.Data.List.Nodup
import Nwep.ErrorSites
import Nwep.Lib.Machine

/-!
# Streaming a body under back-pressure

Model of the owner loop that feeds streamed responses (`nwep/tests/streaming.rs` 57-84; the pump is
the same in `nwep/examples/nwcurl.rs` and `managed_stream.rs`), over `Server::stream_send` and
`Server::stream_end` (`nwep/src/server.rs` 901-924). The handler notes the connection and stream of
each request for the body; after each tick the loop offers every active stream what it has not
accepted yet, until it accepts nothing or the body is through.

* Labels carry what the C calls answer and the requests a tick dispatches. The one thing asked of
  the C side is that a request does not come twice.
* An `unwrap` of an error ends the loop by a panic; the stream it was at is still in `active` after
  a failed send.

Results:
* `pump_step`: what one step keeps of the account of every stream;
* **`pump_exact`**: every stream accepts the body in order, each send offers exactly the rest, and
  its one `stream_end` comes after the whole of it, however the accepted counts fall.
-/

namespace Nwep.Server.Pump

open Nwep.Lib

/-- `(conn_id, stream_id)` of a request. -/
structure Key where
  conn   : Nat
  stream : Nat
  deriving DecidableEq

/-- An element of `active`. -/
structure Active where
  key  : Key
  sent : Nat
  deriving DecidableEq

/-- Where the loop is. -/
inductive Pc
  | tick       -- `server.tick(now_ms()).unwrap()`
  | retain     -- inside `active.retain_mut(..)`
  | check      -- `stop_thread.load(..) && active.is_empty()`
  | returned
  | panicked
  deriving DecidableEq

/-- `kept` and `todo` are `active` before and behind the element `retain_mut` is at. -/
structure State where
  pc   : Pc
  kept : List Active
  todo : List Active
  seen : List Key
  deriving DecidableEq

inductive Act
  | tick (rc : CInt) (requests : List Key)
  | send (key : Key) (offered : Bytes) (rc : CInt)
  | finish (key : Key) (rc : CInt)
  | passed
  | check (stop : Bool)
  deriving DecidableEq

def init : State := ⟨.tick, [], [], []⟩

/-- `active.push((conn, stream, 0))`. -/
def Active.new (key : Key) : Active := ⟨key, 0⟩

variable (body : Bytes)

/-- One step of the loop. -/
def step (s : State) : Act → Option State
  | .tick rc requests =>
    if s.pc = .tick ∧ requests.Nodup ∧ ∀ k ∈ requests, k ∉ s.seen then
      match Error.check rc with
      | .ok _ => some { s with
          pc := .retain
          kept := []
          todo := s.kept ++ requests.map Active.new
          seen := s.seen ++ requests }
      | .error _ => some { s with pc := .panicked }
    else none
  | .send key offered rc =>
    match s.pc, s.todo with
    | .retain, e :: rest =>
      if e.key = key ∧ e.sent < body.length ∧ offered = body.drop e.sent then
        match streamSent rc with
        | .ok n =>
          if n = 0 then some { s with kept := s.kept ++ [e], todo := rest }
          else some { s with todo := { e with sent := e.sent + n } :: rest }
        | .error _ => some { s with pc := .panicked }
      else none
    | _, _ => none
  | .finish key rc =>
    match s.pc, s.todo with
    | .retain, e :: rest =>
      if e.key = key ∧ body.length ≤ e.sent then
        match Error.check rc with
        | .ok _ => some { s with todo := rest }
        | .error _ => some { s with pc := .panicked, todo := rest }
      else none
    | _, _ => none
  | .passed =>
    match s.pc, s.todo with
    | .retain, [] => some { s with pc := .check }
    | _, _ => none
  | .check stop =>
    if s.pc = .check then
      if stop = true ∧ s.kept = [] then some { s with pc := .returned }
      else some { s with pc := .tick }
    else none

/-- The loop over a body. -/
def machine : Machine State Act where
  init := init
  step := step body

/-! ## What each step does -/

/-- Every enabled step, with its guard and its effect. -/
inductive Step (s : State) : Act → State → Prop
  | tick {rc requests} (h : s.pc = .tick) (hn : requests.Nodup) (hs : ∀ k ∈ requests, k ∉ s.seen)
      (hr : Error.check rc = .ok ()) :
      Step s (.tick rc requests) { s with
        pc := .retain
        kept := []
        todo := s.kept ++ requests.map Active.new
        seen := s.seen ++ requests }
  | tickFails {rc requests e} (h : s.pc = .tick) (hn : requests.Nodup)
      (hs : ∀ k ∈ requests, k ∉ s.seen) (hr : Error.check rc = .error e) :
      Step s (.tick rc requests) { s with pc := .panicked }
  | blocked {e rest rc} (h : s.pc = .retain) (ht : s.todo = e :: rest) (hl : e.sent < body.length)
      (hr : streamSent rc = .ok 0) :
      Step s (.send e.key (body.drop e.sent) rc) { s with kept := s.kept ++ [e], todo := rest }
  | send {e rest rc n} (h : s.pc = .retain) (ht : s.todo = e :: rest) (hl : e.sent < body.length)
      (hr : streamSent rc = .ok n) (hn : 0 < n) :
      Step s (.send e.key (body.drop e.sent) rc)
        { s with todo := { e with sent := e.sent + n } :: rest }
  | sendFails {e rest rc err} (h : s.pc = .retain) (ht : s.todo = e :: rest)
      (hl : e.sent < body.length) (hr : streamSent rc = .error err) :
      Step s (.send e.key (body.drop e.sent) rc) { s with pc := .panicked }
  | finish {e rest rc} (h : s.pc = .retain) (ht : s.todo = e :: rest) (hl : body.length ≤ e.sent)
      (hr : Error.check rc = .ok ()) : Step s (.finish e.key rc) { s with todo := rest }
  | finishFails {e rest rc err} (h : s.pc = .retain) (ht : s.todo = e :: rest)
      (hl : body.length ≤ e.sent) (hr : Error.check rc = .error err) :
      Step s (.finish e.key rc) { s with pc := .panicked, todo := rest }
  | passed (h : s.pc = .retain) (ht : s.todo = []) : Step s .passed { s with pc := .check }
  | returns (h : s.pc = .check) (hk : s.kept = []) :
      Step s (.check true) { s with pc := .returned }
  | again {stop} (h : s.pc = .check) (hk : stop = true → s.kept ≠ []) :
      Step s (.check stop) { s with pc := .tick }

variable {body}

theorem step_inv {s t : State} {a : Act} (h : step body s a = some t) : Step body s a t := by
  cases a with
  | tick rc requests =>
    simp only [step] at h
    split at h
    · rename_i hg
      obtain ⟨hpc, hn, hs⟩ := hg
      split at h
      · rename_i hr
        obtain rfl := Option.some.inj h
        exact .tick hpc hn hs hr
      · rename_i hr
        obtain rfl := Option.some.inj h
        exact .tickFails hpc hn hs hr
    · exact absurd h (by simp)
  | send key offered rc =>
    simp only [step] at h
    split at h
    · rename_i e rest hpc ht
      split at h
      · rename_i hg
        obtain ⟨rfl, hl, rfl⟩ := hg
        split at h
        · rename_i n hr
          split at h
          · rename_i hn
            subst hn
            obtain rfl := Option.some.inj h
            exact .blocked hpc ht hl hr
          · rename_i hn
            obtain rfl := Option.some.inj h
            exact .send hpc ht hl hr (Nat.pos_of_ne_zero hn)
        · rename_i hr
          obtain rfl := Option.some.inj h
          exact .sendFails hpc ht hl hr
      · exact absurd h (by simp)
    · exact absurd h (by simp)
  | finish key rc =>
    simp only [step] at h
    split at h
    · rename_i e rest hpc ht
      split at h
      · rename_i hg
        obtain ⟨rfl, hl⟩ := hg
        split at h
        · rename_i hr
          obtain rfl := Option.some.inj h
          exact .finish hpc ht hl hr
        · rename_i hr
          obtain rfl := Option.some.inj h
          exact .finishFails hpc ht hl hr
      · exact absurd h (by simp)
    · exact absurd h (by simp)
  | passed =>
    simp only [step] at h
    split at h
    · rename_i hpc ht
      obtain rfl := Option.some.inj h
      exact .passed hpc ht
    · exact absurd h (by simp)
  | check stop =>
    simp only [step] at h
    split at h
    · rename_i hpc
      split at h
      · rename_i hg
        obtain ⟨rfl, hk⟩ := hg
        obtain rfl := Option.some.inj h
        exact .returns hpc hk
      · rename_i hg
        obtain rfl := Option.some.inj h
        exact .again hpc fun hs hk => hg ⟨hs, hk⟩
    · exact absurd h (by simp)

/-! ## The account of a stream -/

/-- The requests the loop took over. -/
def started (acts : List Act) : List Key :=
  acts.flatMap fun
    | .tick rc requests => if 0 ≤ rc then requests else []
    | _ => []

/-- What a label adds to what the stream accepted: the front of what was offered. -/
def Act.accepts (k : Key) : Act → Bytes
  | .send key offered rc => if key = k ∧ 0 ≤ rc then offered.take rc.toNat else []
  | _ => []

/-- The bytes the stream accepted, in order. -/
def accepted (k : Key) (acts : List Act) : Bytes := acts.flatMap (Act.accepts k)

/-- The label ends the stream. -/
def Act.ends (k : Key) : Act → Bool
  | .finish key _ => key == k
  | _ => false

/-- How often the stream was ended. -/
def ends (k : Key) (acts : List Act) : Nat := acts.countP (Act.ends k)

/-- The label is a call for the stream. -/
def Act.about (k : Key) : Act → Bool
  | .send key _ _ => key == k
  | .finish key _ => key == k
  | _ => false

/-- The C call of the label failed. -/
def Act.fails : Act → Bool
  | .tick rc _ => decide (rc < 0)
  | .send _ _ rc => decide (rc < 0)
  | .finish _ rc => decide (rc < 0)
  | _ => false

theorem accepted_snoc (k : Key) (acts : List Act) (a : Act) :
    accepted k (acts ++ [a]) = accepted k acts ++ a.accepts k := by
  simp [accepted]

theorem ends_snoc (k : Key) (acts : List Act) (a : Act) :
    ends k (acts ++ [a]) = ends k acts + if a.ends k then 1 else 0 := by
  simp [ends, List.countP_append, List.countP_singleton]

/-- A label that is no call for a stream leaves its account alone. -/
theorem quiet_snoc {k : Key} {a : Act} (h : a.about k = false) (acts : List Act) :
    accepted k (acts ++ [a]) = accepted k acts ∧ ends k (acts ++ [a]) = ends k acts := by
  rw [accepted_snoc, ends_snoc]
  cases a with
  | send key offered rc =>
    have hne : key ≠ k := by simpa [Act.about] using h
    simp [Act.accepts, Act.ends, hne]
  | finish key rc =>
    have hne : key ≠ k := by simpa [Act.about] using h
    simp [Act.accepts, Act.ends, hne]
  | _ => simp [Act.accepts, Act.ends]

theorem streamSent_ok {rc : CInt} {n : Nat} : streamSent rc = .ok n ↔ 0 ≤ rc ∧ rc.toNat = n := by
  unfold streamSent
  split
  · rename_i h
    simp [Int.not_le.mpr h]
  · rename_i h
    simp [Int.not_lt.mp h]

theorem streamSent_error {rc : CInt} {e : Error} (h : streamSent rc = .error e) : rc < 0 := by
  unfold streamSent at h
  split at h
  · assumption
  · exact absurd h (by simp)

/-- What a send of the rest adds. -/
theorem accepts_send {e : Active} {rc : CInt} {n : Nat} (h : streamSent rc = .ok n) :
    (Act.send e.key (body.drop e.sent) rc).accepts e.key = (body.drop e.sent).take n := by
  obtain ⟨h0, rfl⟩ := streamSent_ok.mp h
  simp [Act.accepts, h0]

/-! ## The invariant -/

/-- The streams that are still fed. -/
def active (s : State) : List Active := s.kept ++ s.todo

/-- A stream that is fed accepted what its count says, and was not ended. -/
structure Feeding (body : Bytes) (acts : List Act) (e : Active) : Prop where
  accepted : accepted e.key acts = body.take e.sent
  open'    : ends e.key acts = 0

/-- A stream that is no longer fed accepted everything, and was ended once. -/
structure Through (body : Bytes) (acts : List Act) (k : Key) : Prop where
  accepted : accepted k acts = body
  ended    : ends k acts = 1

/-- The account of all streams. -/
structure Inv (body : Bytes) (acts : List Act) (s : State) : Prop where
  nodup   : ((active s).map Active.key).Nodup
  seen    : ∀ e ∈ active s, e.key ∈ s.seen
  feeding : ∀ e ∈ active s, Feeding body acts e
  through : ∀ k ∈ s.seen, k ∉ (active s).map Active.key → Through body acts k
  unseen  : ∀ k, k ∉ s.seen → accepted k acts = [] ∧ ends k acts = 0
  clean   : s.pc ≠ .retain → s.pc ≠ .panicked → s.todo = []
  blocked : ∀ e ∈ s.kept, (acts.filter (Act.about e.key)).getLast? =
    some (.send e.key (body.drop e.sent) 0)

theorem Feeding.quiet {acts : List Act} {e : Active} {a : Act} (h : Feeding body acts e)
    (ha : a.about e.key = false) : Feeding body (acts ++ [a]) e := by
  obtain ⟨hacc, hends⟩ := quiet_snoc ha acts
  exact ⟨hacc.trans h.accepted, hends.trans h.open'⟩

theorem Through.quiet {acts : List Act} {k : Key} {a : Act} (h : Through body acts k)
    (ha : a.about k = false) : Through body (acts ++ [a]) k := by
  obtain ⟨hacc, hends⟩ := quiet_snoc ha acts
  exact ⟨hacc.trans h.accepted, hends.trans h.ended⟩

/-- The other streams are other streams. -/
theorem key_ne_of_nodup {kept rest : List Active} {e : Active}
    (h : ((kept ++ e :: rest).map Active.key).Nodup) {e' : Active} (he : e' ∈ kept ++ rest) :
    e'.key ≠ e.key := by
  rw [List.map_append, List.map_cons, List.nodup_middle, List.nodup_cons, ← List.map_append] at h
  intro heq
  exact h.1 (heq ▸ List.mem_map_of_mem he)

/-- A label about other streams leaves the last call for this one. -/
theorem last_quiet {acts : List Act} {a : Act} {k : Key} (h : a.about k = false) :
    (acts ++ [a]).filter (Act.about k) = acts.filter (Act.about k) := by
  simp [List.filter_append, h]

/-- A label about no stream, in a state that feeds the same streams. -/
theorem Inv.quiet {acts : List Act} {s t : State} {a : Act} (h : Inv body acts s)
    (ha : ∀ k, a.about k = false) (hact : active t = active s) (hseen : t.seen = s.seen)
    (hkept : t.kept = s.kept) (hclean : t.pc ≠ .retain → t.pc ≠ .panicked → t.todo = []) :
    Inv body (acts ++ [a]) t where
  nodup := hact ▸ h.nodup
  seen := fun e he => hseen ▸ h.seen e (hact ▸ he)
  feeding := fun e he => (h.feeding e (hact ▸ he)).quiet (ha _)
  through := fun k hk hn => (h.through k (hseen ▸ hk) (hact ▸ hn)).quiet (ha k)
  unseen := fun k hk => by
    obtain ⟨hacc, hends⟩ := quiet_snoc (ha k) acts
    obtain ⟨h1, h2⟩ := h.unseen k (hseen ▸ hk)
    exact ⟨hacc.trans h1, hends.trans h2⟩
  clean := hclean
  blocked := fun e he => by
    rw [last_quiet (ha _)]
    exact h.blocked e (hkept ▸ he)

/-- A label about the stream the pass is at, which it leaves as `o`. -/
theorem Inv.atHead {acts : List Act} {s t : State} {a : Act} {e : Active} {rest : List Active}
    (h : Inv body acts s) (ht : s.todo = e :: rest) (ha : ∀ k, k ≠ e.key → a.about k = false)
    (hseen : t.seen = s.seen) (o : Option Active) (hact : active t = s.kept ++ (o.toList ++ rest))
    (hfeed : ∀ e' ∈ o, e'.key = e.key ∧ Feeding body (acts ++ [a]) e')
    (hthrough : o = none → Through body (acts ++ [a]) e.key)
    (hclean : t.pc ≠ .retain → t.pc ≠ .panicked → t.todo = [])
    (hblocked : ∀ e' ∈ t.kept, e' ∈ s.kept ∨ e' = e ∧ a = .send e.key (body.drop e.sent) 0) :
    Inv body (acts ++ [a]) t := by
  have hs : active s = s.kept ++ e :: rest := by rw [active, ht]
  have hne : ∀ e' ∈ s.kept ++ rest, e'.key ≠ e.key := fun e' he' =>
    key_ne_of_nodup (hs ▸ h.nodup) he'
  have hmem : ∀ e' ∈ s.kept ++ rest, e' ∈ active s := by
    intro e' he'
    rw [hs]
    exact (List.sublist_cons_self e rest).append_left s.kept |>.subset he'
  have hhead : e ∈ active s := hs ▸ List.mem_append_right _ List.mem_cons_self
  have hcases : ∀ e' ∈ active t, e' ∈ s.kept ++ rest ∨ e' ∈ o := by
    intro e' he'
    rw [hact] at he'
    simp only [List.mem_append, Option.mem_toList] at he' ⊢
    tauto
  have hkeys : ((active t).map Active.key).Sublist ((active s).map Active.key) := by
    rw [hact, hs]
    cases o with
    | none => exact ((List.sublist_cons_self e rest).append_left s.kept).map Active.key
    | some e' => simp [(hfeed e' rfl).1]
  refine ⟨h.nodup.sublist hkeys, fun e' he' => ?_, fun e' he' => ?_, fun k hk hn => ?_,
    fun k hk => ?_, hclean, fun e' he' => ?_⟩
  · rw [hseen]
    rcases hcases e' he' with hm | ho
    · exact h.seen e' (hmem e' hm)
    · exact (hfeed e' ho).1 ▸ h.seen e hhead
  · rcases hcases e' he' with hm | ho
    · exact (h.feeding e' (hmem e' hm)).quiet (ha _ (hne e' hm))
    · exact (hfeed e' ho).2
  · by_cases hke : k = e.key
    · subst hke
      refine hthrough ?_
      cases o with
      | none => rfl
      | some e' =>
        refine absurd ?_ hn
        rw [← (hfeed e' rfl).1, hact]
        exact List.mem_map_of_mem (by simp)
    · refine (h.through k (hseen ▸ hk) fun hin => hn ?_).quiet (ha k hke)
      rw [hs] at hin
      rw [hact]
      simp only [List.map_append, List.map_cons, List.mem_append, List.mem_cons] at hin ⊢
      tauto
  · have hk : k ∉ s.seen := hseen ▸ hk
    have hke : k ≠ e.key := fun heq => hk (heq ▸ h.seen e hhead)
    obtain ⟨hacc, hends⟩ := quiet_snoc (ha k hke) acts
    obtain ⟨h1, h2⟩ := h.unseen k hk
    exact ⟨hacc.trans h1, hends.trans h2⟩
  · rcases hblocked e' he' with hm | ⟨rfl, rfl⟩
    · rw [last_quiet (ha _ (hne e' (List.mem_append_left _ hm)))]
      exact h.blocked e' hm
    · simp [List.filter_append, Act.about]

theorem about_send {k key : Key} {offered : Bytes} {rc : CInt} (h : k ≠ key) :
    (Act.send key offered rc).about k = false := by
  simpa [Act.about] using Ne.symm h

theorem about_finish {k key : Key} {rc : CInt} (h : k ≠ key) :
    (Act.finish key rc).about k = false := by
  simpa [Act.about] using Ne.symm h

/-- A send that is answered leaves the stream with its count advanced. -/
theorem Feeding.send {acts : List Act} {e : Active} (h : Feeding body acts e) {rc : CInt} {n : Nat}
    (hr : streamSent rc = .ok n) :
    Feeding body (acts ++ [.send e.key (body.drop e.sent) rc]) { e with sent := e.sent + n } where
  accepted := by
    show Pump.accepted e.key _ = body.take (e.sent + n)
    rw [accepted_snoc, accepts_send hr, h.accepted, List.take_add]
  open' := by
    rw [ends_snoc]
    exact h.open'

/-- A send that fails leaves it where it was. -/
theorem Feeding.sendFails {acts : List Act} {e : Active} (h : Feeding body acts e) {rc : CInt}
    (hr : rc < 0) : Feeding body (acts ++ [.send e.key (body.drop e.sent) rc]) e where
  accepted := by
    rw [accepted_snoc, h.accepted]
    simp [Act.accepts, Int.not_le.mpr hr]
  open' := by
    rw [ends_snoc]
    exact h.open'

/-- The end comes when the count is at the length. -/
theorem Feeding.finish {acts : List Act} {e : Active} (h : Feeding body acts e) (rc : CInt)
    (hl : body.length ≤ e.sent) : Through body (acts ++ [.finish e.key rc]) e.key where
  accepted := by
    rw [accepted_snoc, h.accepted, List.take_of_length_le hl]
    simp [Act.accepts]
  ended := by
    rw [ends_snoc, h.open']
    simp [Act.ends]

/-- **One step keeps the account of every stream.** -/
theorem pump_step {acts : List Act} {s t : State} {a : Act} (h : Inv body acts s)
    (hs : Step body s a t) : Inv body (acts ++ [a]) t := by
  have hhead : ∀ {e rest}, s.todo = e :: rest → Feeding body acts e := fun ht =>
    h.feeding _ (by simp [active, ht])
  cases hs with
  | @tick rc requests hpc hn hfresh _ =>
    have htodo := h.clean (by rw [hpc]; simp) (by rw [hpc]; simp)
    have hact : active s = s.kept := by rw [active, htodo, List.append_nil]
    have hquiet : ∀ k, (Act.tick rc requests).about k = false := fun k => rfl
    have hkeys : (requests.map Active.new).map Active.key = requests := by
      rw [List.map_map]
      exact List.map_id _
    have hcases : ∀ e ∈ s.kept ++ requests.map Active.new,
        e ∈ active s ∨ e.key ∉ s.seen ∧ e.sent = 0 ∧ e.key ∈ requests := by
      intro e he
      rcases List.mem_append.mp he with he | he
      · exact Or.inl (hact ▸ he)
      · obtain ⟨k, hk, rfl⟩ := List.mem_map.mp he
        exact Or.inr ⟨hfresh k hk, rfl, hk⟩
    refine ⟨?_, fun e he => ?_, fun e he => ?_, fun k hk hnot => ?_, fun k hk => ?_,
      fun hp => absurd rfl hp, fun e he => absurd he List.not_mem_nil⟩
    · simp only [active, List.nil_append, List.map_append, hkeys]
      refine List.nodup_append.mpr ⟨hact ▸ h.nodup, hn, fun k hk k' hk' heq => ?_⟩
      obtain ⟨e, he, rfl⟩ := List.mem_map.mp hk
      exact hfresh k' hk' (heq ▸ h.seen e (hact ▸ he))
    · rcases hcases e he with he | ⟨-, -, hr⟩
      · exact List.mem_append_left _ (h.seen e he)
      · exact List.mem_append_right _ hr
    · rcases hcases e he with he | ⟨hun, hz, -⟩
      · exact (h.feeding e he).quiet (hquiet _)
      · obtain ⟨hacc, hends⟩ := quiet_snoc (hquiet e.key) acts
        obtain ⟨h1, h2⟩ := h.unseen e.key hun
        exact ⟨by rw [hacc, h1, hz, List.take_zero], hends.trans h2⟩
    · have hnot : k ∉ s.kept.map Active.key ∧ k ∉ requests := by
        simpa only [active, List.nil_append, List.map_append, hkeys, List.mem_append, not_or]
          using hnot
      have hseen := (List.mem_append.mp hk).resolve_right hnot.2
      exact (h.through k hseen (hact ▸ hnot.1)).quiet (hquiet k)
    · have hk : k ∉ s.seen := fun hm => hk (List.mem_append_left _ hm)
      obtain ⟨hacc, hends⟩ := quiet_snoc (hquiet k) acts
      obtain ⟨h1, h2⟩ := h.unseen k hk
      exact ⟨hacc.trans h1, hends.trans h2⟩
  | tickFails _ _ _ _ => exact h.quiet (fun _ => rfl) rfl rfl rfl fun _ hp => absurd rfl hp
  | passed hpc ht => exact h.quiet (fun _ => rfl) rfl rfl rfl fun _ _ => ht
  | returns hpc _ | again hpc _ =>
    exact h.quiet (fun _ => rfl) rfl rfl rfl
      fun _ _ => h.clean (by rw [hpc]; simp) (by rw [hpc]; simp)
  | @blocked e rest rc hpc ht hl hr =>
    have hz : rc = 0 := by
      have hz := (streamSent_ok.mp hr).2
      have h0 := (streamSent_ok.mp hr).1
      exact Int.le_antisymm (Int.toNat_eq_zero.mp hz) h0
    subst hz
    refine h.atHead ht (fun k hk => about_send hk) rfl (some e) (by simp [active]) (fun e' he' => ?_)
      (by simp) (fun hp => absurd hpc hp) (fun e' he' => ?_)
    · obtain rfl := Option.some.inj he'
      exact ⟨rfl, (hhead ht).send hr⟩
    · rcases List.mem_append.mp he' with he' | he'
      · exact Or.inl he'
      · exact Or.inr ⟨List.mem_singleton.mp he', rfl⟩
  | @send e rest rc n hpc ht hl hr hn =>
    refine h.atHead ht (fun k hk => about_send hk) rfl (some { e with sent := e.sent + n })
      (by simp [active]) (fun e' he' => ?_) (by simp) (fun hp => absurd hpc hp)
      (fun e' he' => Or.inl he')
    obtain rfl := Option.some.inj he'
    exact ⟨rfl, (hhead ht).send hr⟩
  | @sendFails e rest rc err hpc ht hl hr =>
    refine h.atHead ht (fun k hk => about_send hk) rfl (some e) (by simp [active, ht])
      (fun e' he' => ?_) (by simp) (fun _ hp => absurd rfl hp) (fun e' he' => Or.inl he')
    obtain rfl := Option.some.inj he'
    exact ⟨rfl, (hhead ht).sendFails (streamSent_error hr)⟩
  | @finish e rest rc hpc ht hl hr =>
    exact h.atHead ht (fun k hk => about_finish hk) rfl none (by simp [active])
      (by simp) (fun _ => (hhead ht).finish rc hl) (fun hp => absurd hpc hp)
      (fun e' he' => Or.inl he')
  | @finishFails e rest rc err hpc ht hl hr =>
    exact h.atHead ht (fun k hk => about_finish hk) rfl none (by simp [active])
      (by simp) (fun _ => (hhead ht).finish rc hl) (fun _ hp => absurd rfl hp)
      (fun e' he' => Or.inl he')

theorem inv_run {acts : List Act} {s : State} (h : (machine body).run acts = some s) :
    Inv body acts s := by
  refine (machine body).run_induction (P := Inv body) ?_
    (fun _ _ _ _ _ hp hst => pump_step hp (step_inv hst)) h
  exact ⟨List.nodup_nil, by simp [active, machine, init], by simp [active, machine, init],
    by simp [machine, init], fun _ _ => ⟨rfl, rfl⟩, fun _ _ => rfl, by simp [machine, init]⟩

/-- A stream that was ended accepted the whole body, and was ended once. -/
theorem through_of_ends {acts : List Act} {s : State} (h : Inv body acts s) {k : Key}
    (he : 0 < ends k acts) : Through body acts k := by
  have hseen : k ∈ s.seen := by
    by_contra hn
    rw [(h.unseen k hn).2] at he
    exact absurd he (by simp)
  refine h.through k hseen fun ha => ?_
  obtain ⟨e, hm, rfl⟩ := List.mem_map.mp ha
  rw [(h.feeding e hm).open'] at he
  exact absurd he (by simp)

/-- What a stream accepted is a front of the body. -/
theorem accepted_initial {acts : List Act} {s : State} (h : Inv body acts s) (k : Key) :
    accepted k acts <+: body := by
  by_cases hk : k ∈ s.seen
  · by_cases ha : k ∈ (active s).map Active.key
    · obtain ⟨e, he, rfl⟩ := List.mem_map.mp ha
      rw [(h.feeding e he).accepted]
      exact List.take_prefix _ _
    · exact ⟨[], by rw [List.append_nil, (h.through k hk ha).accepted]⟩
  · rw [(h.unseen k hk).1]
    exact List.nil_prefix

/-! ## The main result -/

/-- The streams the loop knows are those it took over, and it ends by a panic only. -/
theorem history_run {acts : List Act} {s : State} (h : (machine body).run acts = some s) :
    s.seen = started acts ∧
      (s.pc = .panicked ↔ ∃ pre a, acts = pre ++ [a] ∧ a.fails = true) := by
  refine (machine body).run_induction
    (P := fun as s => s.seen = started as ∧
      (s.pc = .panicked ↔ ∃ pre a, as = pre ++ [a] ∧ a.fails = true)) ?_ ?_ h
  · simp [machine, init, started]
  · intro as s a t _ hp hst
    have hfails : (∃ pre b, as ++ [a] = pre ++ [b] ∧ b.fails = true) ↔ a.fails = true := by
      constructor
      · rintro ⟨pre, b, heq, hb⟩
        obtain ⟨-, hab⟩ := List.append_inj' heq rfl
        exact (List.cons.inj hab).1 ▸ hb
      · exact fun ha => ⟨as, a, rfl, ha⟩
    rw [hfails, started, List.flatMap_append, ← started, ← hp.1]
    cases step_inv hst with
    | tick _ _ _ hr =>
      have h0 := Error.check_eq_ok.mp hr
      simp [h0, Act.fails]
    | tickFails _ _ _ hr =>
      have h0 := Error.neg_of_check hr
      simp [h0, Act.fails, Int.not_le.mp h0]
    | blocked hpc _ _ hr | send hpc _ _ hr _ =>
      have h0 := (streamSent_ok.mp hr).1
      simp [Act.fails, hpc, Int.not_lt.mpr h0]
    | sendFails _ _ _ hr => simp [Act.fails, streamSent_error hr]
    | finish hpc _ _ hr =>
      have h0 := Error.check_eq_ok.mp hr
      simp [Act.fails, hpc, Int.not_lt.mpr h0]
    | finishFails _ _ _ hr =>
      have h0 := Error.neg_of_check hr
      simp [Act.fails, Int.not_le.mp h0]
    | passed _ _ | returns _ _ | again _ _ => simp [Act.fails]

/-- A call is made for a stream that is fed, and offers its rest or ends it at its end. -/
theorem call_step {acts : List Act} {s t : State} {a : Act} (h : Inv body acts s)
    (hs : Step body s a t) {k : Key} (ha : a.about k = true) :
    ends k acts = 0 ∧
      ((∃ offered rc, a = .send k offered rc ∧ accepted k acts ++ offered = body ∧ offered ≠ []) ∨
        ∃ rc, a = .finish k rc ∧ accepted k acts = body) := by
  have hfeed : ∀ {e rest}, s.todo = e :: rest → Feeding body acts e := fun ht =>
    h.feeding _ (by simp [active, ht])
  have hsent : ∀ {e : Active} {rest rc}, s.todo = e :: rest → e.sent < body.length → e.key = k →
      ends k acts = 0 ∧ ∃ offered rc', Act.send e.key (body.drop e.sent) rc = .send k offered rc' ∧
        accepted k acts ++ offered = body ∧ offered ≠ [] := by
    rintro e rest rc ht hl rfl
    refine ⟨(hfeed ht).open', _, rc, rfl, ?_, ?_⟩
    · rw [(hfeed ht).accepted, List.take_append_drop]
    · intro hnil
      exact absurd (List.drop_eq_nil_iff.mp hnil) (Nat.not_le.mpr hl)
  have hended : ∀ {e : Active} {rest rc}, s.todo = e :: rest → body.length ≤ e.sent → e.key = k →
      ends k acts = 0 ∧ ∃ rc', Act.finish e.key rc = .finish k rc' ∧ accepted k acts = body := by
    rintro e rest rc ht hl rfl
    refine ⟨(hfeed ht).open', rc, rfl, ?_⟩
    rw [(hfeed ht).accepted, List.take_of_length_le hl]
  cases hs with
  | blocked _ ht hl _ | send _ ht hl _ _ | sendFails _ ht hl _ =>
    obtain ⟨h0, hc⟩ := hsent ht hl (by simpa [Act.about] using ha)
    exact ⟨h0, Or.inl hc⟩
  | finish _ ht hl _ | finishFails _ ht hl _ =>
    obtain ⟨h0, hc⟩ := hended ht hl (by simpa [Act.about] using ha)
    exact ⟨h0, Or.inr hc⟩
  | _ => exact absurd ha (by simp [Act.about])

/-- What the loop does for every stream, in the run `acts` that ends in `s`. -/
structure Exact (body : Bytes) (acts : List Act) (s : State) : Prop where
  /-- What was accepted is a front of the body, in order. -/
  inOrder : ∀ k, accepted k acts <+: body
  /-- A send offers exactly what is left, and comes before the end. -/
  rest : ∀ pre k offered rc post, acts = pre ++ .send k offered rc :: post →
    accepted k pre ++ offered = body ∧ offered ≠ [] ∧ ends k pre = 0
  /-- The end comes once, after the whole body, and nothing comes after it. -/
  ended : ∀ pre k rc post, acts = pre ++ .finish k rc :: post →
    accepted k pre = body ∧ ends k pre = 0 ∧ ∀ a ∈ post, a.about k = false
  /-- A stream that was not ended is still fed. -/
  fed : ∀ k ∈ started acts, ends k acts = 0 → k ∈ (active s).map Active.key
  /-- After a pass every such stream was left at an offer that took nothing. -/
  blocked : s.pc = .check ∨ s.pc = .tick → ∀ e ∈ active s,
    (acts.filter (Act.about e.key)).getLast? = some (.send e.key (body.drop e.sent) 0)
  /-- The loop returns with every stream through, -/
  returned : s.pc = .returned → ∀ k ∈ started acts, accepted k acts = body ∧ ends k acts = 1
  /-- and panics exactly when a C call fails. -/
  panicked : s.pc = .panicked ↔ ∃ pre a, acts = pre ++ [a] ∧ a.fails = true

/-- The loop leaves only with nothing to feed. -/
theorem active_of_returned {acts : List Act} {s : State} (h : (machine body).run acts = some s)
    (hpc : s.pc = .returned) : active s = [] := by
  refine (machine body).reachable_induction (P := fun s => s.pc = .returned → active s = [])
    (fun hc => absurd hc (by simp [machine, init])) ?_ ⟨acts, h⟩ hpc
  rintro s a t ⟨pre, hr⟩ hp hst hret
  cases step_inv hst with
  | returns hpc hk =>
    have htodo := (inv_run hr).clean (by rw [hpc]; simp) (by rw [hpc]; simp)
    simp [active, hk, htodo]
  | blocked hpc _ _ _ | send hpc _ _ _ _ | finish hpc _ _ _ =>
    have hret : s.pc = .returned := hret
    rw [hpc] at hret
    exact absurd hret (by simp)
  | _ => exact absurd hret (by simp)

/-- **Every stream gets exactly the body**, in every run: for any number of streams, any accepted
counts and any failures. -/
theorem pump_exact {acts : List Act} {s : State} (h : (machine body).run acts = some s) :
    Exact body acts s := by
  have hi := inv_run h
  obtain ⟨hseen, hpan⟩ := history_run h
  have hcall : ∀ pre a post k, acts = pre ++ a :: post → a.about k = true →
      ends k pre = 0 ∧
        ((∃ offered rc, a = .send k offered rc ∧ accepted k pre ++ offered = body ∧ offered ≠ []) ∨
          ∃ rc, a = .finish k rc ∧ accepted k pre = body) := by
    rintro pre a post k rfl ha
    obtain ⟨u, hu, hrest⟩ := (machine body).run_append.mp h
    obtain ⟨v, hv, -⟩ := (machine body).runFrom_cons.mp hrest
    exact call_step (inv_run hu) (step_inv hv) ha
  refine ⟨accepted_initial hi, fun pre k offered rc post heq => ?_, fun pre k rc post heq => ?_,
    fun k hk h0 => ?_, fun hpc e he => ?_, fun hpc k hk => ?_, hpan⟩
  · obtain ⟨h0, ⟨offered', rc', hact, hacc, hne⟩ | ⟨rc', hact, -⟩⟩ :=
      hcall pre _ post k heq (by simp [Act.about])
    · obtain ⟨-, rfl, -⟩ := Act.send.inj hact
      exact ⟨hacc, hne, h0⟩
    · exact absurd hact (by simp)
  · obtain ⟨h0, ⟨offered', rc', hact, -⟩ | ⟨rc', -, hacc⟩⟩ :=
      hcall pre _ post k heq (by simp [Act.about])
    · exact absurd hact (by simp)
    · refine ⟨hacc, h0, fun a ha => ?_⟩
      by_contra hb
      obtain ⟨mid, post', rfl⟩ := List.append_of_mem ha
      have hsplit : acts = (pre ++ .finish k rc :: mid) ++ a :: post' := by rw [heq]; simp
      obtain ⟨hz, -⟩ := hcall _ a post' k hsplit (by simpa using hb)
      simp [ends, List.countP_append, Act.ends] at hz
  · by_contra hn
    have hth := hi.through k (hseen ▸ hk) hn
    exact absurd (h0.symm.trans hth.ended) (by simp)
  · have htodo : s.todo = [] := by
      rcases hpc with hpc | hpc <;> exact hi.clean (by rw [hpc]; simp) (by rw [hpc]; simp)
    rw [active, htodo, List.append_nil] at he
    exact hi.blocked e he
  · have hth := hi.through k (hseen ▸ hk) (by rw [active_of_returned h hpc]; simp)
    exact ⟨hth.accepted, hth.ended⟩

/-- Two streams, the first held back once. -/
def twoStreams : List Act :=
  [.tick 0 [⟨1, 0⟩, ⟨1, 4⟩], .send ⟨1, 0⟩ [7, 8, 9] 2, .send ⟨1, 0⟩ [9] 0, .send ⟨1, 4⟩ [7, 8, 9] 3,
   .finish ⟨1, 4⟩ 0, .passed, .check true, .tick 0 [], .send ⟨1, 0⟩ [9] 1, .finish ⟨1, 0⟩ 0, .passed,
   .check true]

theorem pump_exact_twoStreams :
    ∃ s, (machine [7, 8, 9]).run twoStreams = some s ∧ s.pc = .returned ∧
      Exact [7, 8, 9] twoStreams s :=
  ⟨_, rfl, rfl, pump_exact rfl⟩

end Nwep.Server.Pump
