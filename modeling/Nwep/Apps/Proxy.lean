import Nwep.Lib.Parking
import Nwep.Server.Deferred

/-!
# Caching reverse proxy

Model of the frontend of `nwep/examples/nwproxy.rs` (76-114): its handler parks each request it
defers, and its loop answers the parked ones out of the cache or from the origin. With it
`Cache::put_signed` and `Cache::get_signed` (`nwep/src/cache.rs`); `DeferredResponder::relay` is
that of `Server.Deferred`.

* A label is one step with what the C side answers; `request` is one call of the handler, which only
  happens inside of `server.tick`. The lock is held across the whole `for` loop.
* `Response` is a message with the pointer it is at: a hit is a copy of what was stored.
* The clocks go to the C side only.
* `todo` is what the loop still has to answer, the request at hand first. A panic drops it.

Results:
* **`served`**: whatever the cache, the origin and the requesters do, requests are answered once
  each and in the order they came, each with what was got for it, and the origin is asked on a miss
  only; the frontend stops early exactly when a call it unwraps fails;
* **`relays_origin`**: with a cache that serves what was stored, all that is relayed came from the
  origin.
-/

namespace Nwep.Apps.Proxy

open Nwep.Lib Nwep.Server

variable {μ : Type}

/-- `Response`: a message of the C side and where it is. -/
structure Response (μ : Type) where
  raw : Ptr
  msg : μ
  deriving DecidableEq

/-! ## The cache -/

/-- `Cache::get_signed`, when the C call answers `rc` and writes `out`. -/
def getSigned (path : Bytes) (rc : CInt) (out : Option (Response μ)) : Option (Response μ) :=
  match CString.new path with
  | none => none
  | some _ => if rc = 0 then out else none

/-- `Cache::put_signed`, when the C call answers `rc`. -/
def putSigned (path : Bytes) (rc : CInt) : Result Unit :=
  match CString.new path with
  | none => .error .protoInvalidHeader
  | some _ => Error.check rc

/-! ## The frontend -/

/-- A connection and a stream on it. -/
abbrev Key := Nat × Nat

inductive Pc (μ : Type)
  | check                     -- `while !stop_t.load(..)`
  | tick                      -- in `server.tick`
  | next                      -- the top of the `for` loop
  | send                      -- a miss
  | put (origin : Response μ)
  | relay (m : Response μ)
  | returned
  | panicked
  deriving DecidableEq

structure State (μ : Type) where
  pc     : Pc μ
  todo   : List Key
  parked : List Key
  deriving DecidableEq

inductive Act (μ : Type)
  | check (stop : Bool)
  | request (req : Request) (res : Responder)
  | tick (rc : CInt)
  | lookup (rc : CInt) (out : Option (Response μ))
  | send (r : Result (Response μ))
  | put (rc : CInt)
  | relay (rc : CInt)
  | drained
  deriving DecidableEq

/-- The path of every lookup, fetch and store. -/
def doc : Bytes := str "/doc"

/-- The handler: what is parked after it, and its answer. -/
def onRequest (parked : List Key) (req : Request) (res : Responder) : List Key × Terminal :=
  (parked ++ [(req.connId, req.streamId)], res.defer)

/-- `Server::respond`. -/
def respond (server : Ptr) (k : Key) : DeferredResponder := ⟨server, k.1, k.2, []⟩

def init : State μ := ⟨.check, [], []⟩

def step (server : Ptr) (s : State μ) : Act μ → Option (State μ)
  | .check stop =>
    match s.pc with
    | .check => some { s with pc := if stop then .returned else .tick }
    | _ => none
  | .request req res =>
    match s.pc with
    | .tick => some { s with parked := (onRequest s.parked req res).1 }
    | _ => none
  | .tick rc =>
    match s.pc with
    | .tick =>
      match Error.check rc with
      | .ok _ => some ⟨.next, s.parked, []⟩
      | .error _ => some { s with pc := .panicked }
    | _ => none
  | .lookup rc out =>
    match s.pc, s.todo with
    | .next, _ :: _ =>
      match getSigned doc rc out with
      | some hit => some { s with pc := .relay hit }
      | none => some { s with pc := .send }
    | _, _ => none
  | .send r =>
    match s.pc with
    | .send =>
      match r with
      | .ok origin => some { s with pc := .put origin }
      | .error _ => some { s with pc := .panicked }
    | _ => none
  | .put rc =>
    match s.pc with
    | .put origin =>
      let _ := putSigned doc rc
      some { s with pc := .relay origin }
    | _ => none
  | .relay rc =>
    match s.pc, s.todo with
    | .relay m, k :: rest =>
      match ((respond server k).relay m.raw fun _ => rc).1 with
      | .ok _ => some { s with pc := .next, todo := rest }
      | .error _ => some { s with pc := .panicked }
    | _, _ => none
  | .drained =>
    match s.pc, s.todo with
    | .next, [] => some { s with pc := .check }
    | _, _ => none

/-- The frontend on the server handle `server`. -/
def machine (server : Ptr) : Machine (State μ) (Act μ) where
  init := init
  step := step server

/-! ## What each step does -/

/-- Every enabled step, with its guard and its effect. -/
inductive Step (s : State μ) : Act μ → State μ → Prop
  | check {stop} (h : s.pc = .check) :
      Step s (.check stop) { s with pc := if stop then .returned else .tick }
  | request {req res} (h : s.pc = .tick) :
      Step s (.request req res) { s with parked := s.parked ++ [(req.connId, req.streamId)] }
  | tick {rc} (h : s.pc = .tick) (hrc : 0 ≤ rc) : Step s (.tick rc) ⟨.next, s.parked, []⟩
  | tickFails {rc} (h : s.pc = .tick) (hrc : rc < 0) : Step s (.tick rc) { s with pc := .panicked }
  | hit {rc out k rest m} (h : s.pc = .next) (ht : s.todo = k :: rest)
      (hm : getSigned doc rc out = some m) : Step s (.lookup rc out) { s with pc := .relay m }
  | miss {rc out k rest} (h : s.pc = .next) (ht : s.todo = k :: rest)
      (hm : getSigned doc rc out = none) : Step s (.lookup rc out) { s with pc := .send }
  | send {origin} (h : s.pc = .send) : Step s (.send (.ok origin)) { s with pc := .put origin }
  | sendFails {e} (h : s.pc = .send) : Step s (.send (.error e)) { s with pc := .panicked }
  | put {rc origin} (h : s.pc = .put origin) : Step s (.put rc) { s with pc := .relay origin }
  | relay {rc m k rest} (h : s.pc = .relay m) (ht : s.todo = k :: rest) (hrc : 0 ≤ rc) :
      Step s (.relay rc) { s with pc := .next, todo := rest }
  | relayFails {rc m k rest} (h : s.pc = .relay m) (ht : s.todo = k :: rest) (hrc : rc < 0) :
      Step s (.relay rc) { s with pc := .panicked }
  | drained (h : s.pc = .next) (ht : s.todo = []) : Step s .drained { s with pc := .check }

theorem step_inv {server : Ptr} {s t : State μ} {a : Act μ} (h : step server s a = some t) :
    Step s a t := by
  cases a with
  | check stop =>
    simp only [step] at h
    split at h
    · rename_i hpc
      obtain rfl := Option.some.inj h
      exact .check hpc
    · exact absurd h (by simp)
  | request req res =>
    simp only [step] at h
    split at h
    · rename_i hpc
      obtain rfl := Option.some.inj h
      exact .request hpc
    · exact absurd h (by simp)
  | tick rc =>
    simp only [step] at h
    split at h
    · rename_i hpc
      by_cases hrc : 0 ≤ rc
      · rw [Error.check_eq_ok.mpr hrc] at h
        obtain rfl := Option.some.inj h
        exact .tick hpc hrc
      · have hneg : rc < 0 := Int.not_le.mp hrc
        rw [Error.check_of_neg hneg] at h
        obtain rfl := Option.some.inj h
        exact .tickFails hpc hneg
    · exact absurd h (by simp)
  | lookup rc out =>
    simp only [step] at h
    split at h
    · rename_i hpc ht
      cases hm : getSigned doc rc out with
      | some hit =>
        rw [hm] at h
        obtain rfl := Option.some.inj h
        exact .hit hpc ht hm
      | none =>
        rw [hm] at h
        obtain rfl := Option.some.inj h
        exact .miss hpc ht hm
    · exact absurd h (by simp)
  | send r =>
    simp only [step] at h
    split at h
    · rename_i hpc
      cases r with
      | ok origin =>
        obtain rfl := Option.some.inj h
        exact .send hpc
      | error e =>
        obtain rfl := Option.some.inj h
        exact .sendFails hpc
    · exact absurd h (by simp)
  | put rc =>
    simp only [step] at h
    split at h
    · rename_i hpc
      obtain rfl := Option.some.inj h
      exact .put hpc
    · exact absurd h (by simp)
  | relay rc =>
    simp only [step, DeferredResponder.relay, DeferredResponder.call] at h
    split at h
    · rename_i hpc ht
      by_cases hrc : 0 ≤ rc
      · rw [Error.check_eq_ok.mpr hrc] at h
        obtain rfl := Option.some.inj h
        exact .relay hpc ht hrc
      · have hneg : rc < 0 := Int.not_le.mp hrc
        rw [Error.check_of_neg hneg] at h
        obtain rfl := Option.some.inj h
        exact .relayFails hpc ht hneg
    · exact absurd h (by simp)
  | drained =>
    simp only [step] at h
    split at h
    · rename_i hpc ht
      obtain rfl := Option.some.inj h
      exact .drained hpc ht
    · exact absurd h (by simp)

/-- What the state keeps from turn to turn. -/
def Inv (s : State μ) : Prop :=
  match s.pc with
  | .check | .returned => s.todo = [] ∧ s.parked = []
  | .tick => s.todo = []
  | .next | .send | .put _ | .relay _ => s.parked = []
  | .panicked => True

theorem inv_step {s t : State μ} {a : Act μ} (h : Inv s) (hs : Step s a t) : Inv t := by
  cases hs with
  | @check stop hpc =>
    simp only [Inv, hpc] at h
    cases stop with
    | true => exact h
    | false => exact h.1
  | request hpc =>
    simp only [Inv, hpc] at h ⊢
    exact h
  | tick _ _ => rfl
  | tickFails _ _ | sendFails _ | relayFails _ _ _ => trivial
  | hit hpc _ _ | miss hpc _ _ | send hpc | put hpc | relay hpc _ _ =>
    simp only [Inv, hpc] at h
    exact h
  | drained hpc ht =>
    simp only [Inv, hpc] at h
    exact ⟨ht, h⟩

theorem inv_reachable {server : Ptr} {s : State μ} (h : (machine server).Reachable s) : Inv s := by
  refine (machine server).reachable_induction (P := Inv) ⟨rfl, rfl⟩ ?_ h
  exact fun s a t _ hi hst => inv_step hi (step_inv hst)

/-! ## What a run shows -/

/-- The requests the handler defers. -/
def deferred (_ : State μ) : Act μ → Option Key
  | .request req _ => some (req.connId, req.streamId)
  | _ => none

/-- The relays the C side accepts: to whom, and what. -/
def relayed (s : State μ) : Act μ → Option (Key × μ)
  | .relay rc =>
    match s.pc, s.todo with
    | .relay m, k :: _ => if 0 ≤ rc then some (k, m.msg) else none
    | _, _ => none
  | _ => none

/-- What is got for the request at hand. -/
def got (_ : State μ) : Act μ → Option μ
  | .lookup rc out => (getSigned doc rc out).map Response.msg
  | .send (.ok origin) => some origin.msg
  | _ => none

/-- What the origin answers. -/
def fetched (_ : State μ) : Act μ → Option μ
  | .send (.ok origin) => some origin.msg
  | _ => none

/-- What the cache takes. -/
def stored (s : State μ) : Act μ → Option μ
  | .put rc =>
    match s.pc, putSigned doc rc with
    | .put origin, .ok _ => some origin.msg
    | _, _ => none
  | _ => none

/-- A call of the loop that fails and is unwrapped. -/
def Act.Fails : Act μ → Prop
  | .tick rc | .relay rc => rc < 0
  | .send (.error _) => True
  | _ => False

/-- A lookup that finds nothing. -/
def Act.Misses : Act μ → Prop
  | .lookup rc out => getSigned doc rc out = none
  | _ => False

variable {server : Ptr} {ι : Type}

/-- What `f` notes of a run. -/
def shown (server : Ptr) (f : State μ → Act μ → Option ι) (acts : List (Act μ)) : List ι :=
  (machine server).notes f init acts

theorem shown_snoc {f : State μ → Act μ → Option ι} {acts : List (Act μ)} {s : State μ}
    (h : (machine server).run acts = some s) (a : Act μ) :
    shown server f (acts ++ [a]) = shown server f acts ++ (f s a).toList :=
  (machine server).notes_snoc h

theorem parks : (machine (μ := μ) server).Parked (fun s => ⟨s.todo, s.parked⟩) deferred
    (fun s a => (relayed s a).map Prod.fst) where
  init := rfl
  step s a t hr hst := by
    have hi := inv_reachable hr
    cases step_inv hst with
    | request _ => exact .park _
    | tick hpc _ =>
      simp only [Inv, hpc] at hi
      exact .takeOut hi
    | relay hpc ht hrc =>
      simp only [relayed, hpc, ht, if_pos hrc]
      exact .deal rfl
    | relayFails hpc ht hrc =>
      simp only [relayed, hpc, ht, if_neg (Int.not_le.mpr hrc)]
      exact .same
    | _ => exact .same

/-- **Once each and in order.** -/
theorem deferred_eq {acts : List (Act μ)} {s : State μ} (h : (machine server).run acts = some s) :
    shown server deferred acts =
      (shown server relayed acts).map Prod.fst ++ s.todo ++ s.parked := by
  have hacc := parks.account h
  rw [Machine.notes_map] at hacc
  rw [List.append_assoc]
  exact hacc

/-! ## What is relayed -/

/-- The message that waits to be relayed. -/
def State.hand (s : State μ) : List μ :=
  match s.pc with
  | .put m | .relay m => [m.msg]
  | _ => []

theorem live_of_step {s t : State μ} {a : Act μ} (h : Step s a t) : s.pc ≠ .panicked := by
  cases h with
  | check hpc | request hpc | tick hpc _ | tickFails hpc _ | hit hpc _ _ | miss hpc _ _ | send hpc
  | sendFails hpc | put hpc | relay hpc _ _ | relayFails hpc _ _ | drained hpc _ => simp [hpc]

/-- A step that ends the loop early shows nothing. -/
theorem quiet_step {s t : State μ} {a : Act μ} (h : Step s a t) (hend : t.pc = .panicked) :
    relayed s a = none ∧ got s a = none := by
  cases h with
  | tickFails _ _ | sendFails _ => exact ⟨rfl, rfl⟩
  | relayFails hpc ht hrc => exact ⟨by simp [relayed, hpc, ht, Int.not_le.mpr hrc], rfl⟩
  | @check stop _ => cases stop <;> exact absurd hend (by simp)
  | request hpc => exact absurd hend (by simp [hpc])
  | _ => exact absurd hend (by simp)

/-- Any other hands on what it gets. -/
theorem hand_step {s t : State μ} {a : Act μ} (h : Step s a t) (hgo : t.pc ≠ .panicked) :
    s.hand ++ (got s a).toList = ((relayed s a).map Prod.snd).toList ++ t.hand := by
  cases h with
  | @check stop hpc => cases stop <;> simp [State.hand, hpc, got, relayed]
  | request hpc | tick hpc _ | send hpc | put hpc | drained hpc _ =>
    simp [State.hand, hpc, got, relayed]
  | hit hpc _ hm | miss hpc _ hm => simp [State.hand, hpc, got, relayed, hm]
  | relay hpc ht hrc => simp [State.hand, hpc, ht, hrc, got, relayed]
  | tickFails _ _ | sendFails _ | relayFails _ _ _ => exact absurd rfl hgo

/-- What was got is what was relayed and what is at hand; a panic drops the latter. -/
def Accounts (server : Ptr) (acts : List (Act μ)) (s : State μ) : Prop :=
  (shown server relayed acts).map Prod.snd <+: shown server got acts ∧
    (s.pc ≠ .panicked →
      shown server got acts = (shown server relayed acts).map Prod.snd ++ s.hand)

theorem accounts_run {acts : List (Act μ)} {s : State μ} (h : (machine server).run acts = some s) :
    Accounts server acts s := by
  refine (machine server).run_induction (P := Accounts server) ?_ ?_ h
  · exact ⟨List.prefix_refl _, fun _ => rfl⟩
  · rintro as s a t hr ⟨hfront, heq⟩ hst
    have hs := step_inv hst
    by_cases hend : t.pc = .panicked
    · obtain ⟨hno, hnone⟩ := quiet_step hs hend
      unfold Accounts
      rw [shown_snoc hr, shown_snoc hr, hno, hnone]
      simpa [hend] using hfront
    · have hall : shown server got (as ++ [a]) =
          (shown server relayed (as ++ [a])).map Prod.snd ++ t.hand := by
        rw [shown_snoc hr, shown_snoc hr, heq (live_of_step hs), List.append_assoc,
          hand_step hs hend, List.map_append, Option.toList_map, List.append_assoc]
      exact ⟨⟨t.hand, hall.symm⟩, fun _ => hall⟩

/-! ## What the last step was -/

theorem panicked_iff {s t : State μ} {a : Act μ} (h : Step s a t) : t.pc = .panicked ↔ a.Fails := by
  cases h with
  | @check stop _ => cases stop <;> simp [Act.Fails]
  | request hpc => simp [Act.Fails, hpc]
  | tick _ hrc | relay _ _ hrc => simp [Act.Fails, Int.not_lt.mpr hrc]
  | tickFails _ hrc | relayFails _ _ hrc => simp [Act.Fails, hrc]
  | hit _ _ _ | miss _ _ _ | send _ | sendFails _ | put _ | drained _ _ => simp [Act.Fails]

theorem send_iff {s t : State μ} {a : Act μ} (h : Step s a t) : t.pc = .send ↔ a.Misses := by
  cases h with
  | @check stop _ => cases stop <;> simp [Act.Misses]
  | request hpc => simp [Act.Misses, hpc]
  | hit _ _ hm | miss _ _ hm => simp [Act.Misses, hm]
  | _ => simp [Act.Misses]

/-- The loop is at `pc` when its last step was one that gets there. -/
theorem last_iff {P : Act μ → Prop} {pc : Pc μ} (h0 : Pc.check ≠ pc)
    (hs : ∀ {s t a}, Step s a t → (t.pc = pc ↔ P a)) {acts : List (Act μ)} {s : State μ}
    (h : (machine server).run acts = some s) : s.pc = pc ↔ ∃ pre a, acts = pre ++ [a] ∧ P a := by
  rcases List.eq_nil_or_concat acts with rfl | ⟨pre, a, rfl⟩
  · obtain rfl := Option.some.inj h
    refine ⟨fun hp => absurd hp h0, ?_⟩
    rintro ⟨pre, a, heq, -⟩
    exact absurd heq (by simp)
  · rw [List.concat_eq_append] at h ⊢
    obtain ⟨u, -, hst⟩ := (machine server).run_snoc.mp h
    rw [hs (step_inv hst)]
    constructor
    · exact fun hp => ⟨pre, a, rfl, hp⟩
    · rintro ⟨pre', a', heq, hp⟩
      obtain ⟨-, ha⟩ := List.append_inj' heq rfl
      obtain rfl := List.singleton_inj.mp ha
      exact hp

/-- What holds of every run of the frontend. -/
structure Served (server : Ptr) (acts : List (Act μ)) (s : State μ) : Prop where
  /-- The requests are answered once each and in order; the others wait. -/
  order : shown server deferred acts =
    (shown server relayed acts).map Prod.fst ++ s.todo ++ s.parked
  /-- Nobody waits between two turns, and where the loop was told to stop. -/
  caughtUp : s.pc = .check ∨ s.pc = .returned →
    shown server deferred acts = (shown server relayed acts).map Prod.fst
  /-- Each is sent what was got for it. -/
  verbatim : (shown server relayed acts).map Prod.snd <+: shown server got acts
  /-- The origin is asked right after a miss only, -/
  asked : ∀ pre r post, acts = pre ++ .send r :: post → ∃ pre' a, pre = pre' ++ [a] ∧ a.Misses
  /-- and after every one. -/
  missed : ∀ pre a b post, acts = pre ++ a :: b :: post → a.Misses → ∃ r, b = .send r
  /-- A call that fails is the last one, -/
  ends : ∀ pre a post, acts = pre ++ a :: post → a.Fails → post = [] ∧ s.pc = .panicked
  /-- and nothing else ends the loop early. -/
  panics : s.pc = .panicked → ∃ pre a, acts = pre ++ [a] ∧ a.Fails

/-- **The proxy answers what it deferred.** -/
theorem served {acts : List (Act μ)} {s : State μ} (h : (machine server).run acts = some s) :
    Served server acts s := by
  have hi := inv_reachable ⟨acts, h⟩
  refine ⟨deferred_eq h, ?_, (accounts_run h).1, ?_, ?_, ?_, ?_⟩
  · intro hpc
    have hnone : s.todo = [] ∧ s.parked = [] := by
      rcases hpc with hpc | hpc <;> simpa [Inv, hpc] using hi
    simp [deferred_eq h, hnone]
  · rintro pre r post rfl
    obtain ⟨u, hpre, hrest⟩ := (machine server).run_append.mp h
    obtain ⟨v, hst, -⟩ := (machine server).runFrom_cons.mp hrest
    have hst : step server u (.send r) = some v := hst
    have hpc : u.pc = .send := by
      cases step_inv hst with
      | send hpc | sendFails hpc => exact hpc
    exact (last_iff (by simp) send_iff hpre).mp hpc
  · rintro pre a b post rfl hm
    obtain ⟨u, -, hrest⟩ := (machine server).run_append.mp h
    obtain ⟨v, hst, hrest⟩ := (machine server).runFrom_cons.mp hrest
    obtain ⟨w, hst', -⟩ := (machine server).runFrom_cons.mp hrest
    have hpc : v.pc = .send := (send_iff (step_inv hst)).mpr hm
    cases step_inv hst' with
    | send _ | sendFails _ => exact ⟨_, rfl⟩
    | check hpc' | request hpc' | tick hpc' _ | tickFails hpc' _ | hit hpc' _ _ | miss hpc' _ _
    | put hpc' | relay hpc' _ _ | relayFails hpc' _ _ | drained hpc' _ =>
      exact absurd (hpc.symm.trans hpc') (by simp)
  · rintro pre a post rfl hf
    obtain ⟨u, -, hrest⟩ := (machine server).run_append.mp h
    obtain ⟨v, hst, hrest⟩ := (machine server).runFrom_cons.mp hrest
    have hpc : v.pc = .panicked := (panicked_iff (step_inv hst)).mpr hf
    cases post with
    | nil =>
      obtain rfl := Option.some.inj hrest
      exact ⟨rfl, hpc⟩
    | cons b post =>
      obtain ⟨w, hst', -⟩ := (machine server).runFrom_cons.mp hrest
      exact absurd hpc (live_of_step (step_inv hst'))
  · exact (last_iff (by simp) panicked_iff h).mp

/-- The handler's side of a request on connection 1. -/
def asks (stream : Nat) : Act Nat := .request ⟨0, 9, 1, stream⟩ ⟨0, 0, 9, 1, stream, []⟩

/-- Two requests come in one turn, a third in the next; the origin answers the first one. -/
def threeRequests : List (Act Nat) :=
  [.check false, asks 0, asks 4, .tick 0,
   .lookup (-1) none, .send (.ok ⟨70, 7⟩), .put 0, .relay 0,
   .lookup 0 (some ⟨71, 7⟩), .relay 0, .drained,
   .check false, asks 8, .tick 0, .lookup 0 (some ⟨72, 7⟩), .relay 0, .drained, .check true]

theorem served_threeRequests :
    ∃ s, (machine 9).run threeRequests = some s ∧ s.pc = .returned ∧
      shown 9 relayed threeRequests = [((1, 0), 7), ((1, 4), 7), ((1, 8), 7)] ∧
      shown 9 fetched threeRequests = [7] ∧ Served 9 threeRequests s :=
  ⟨_, rfl, rfl, rfl, rfl, served rfl⟩

/-! ## With a cache that serves what was stored -/

/-- What a lookup finds. -/
def Act.hit : Act μ → Option μ
  | .lookup rc out => (getSigned doc rc out).map Response.msg
  | _ => none

/-- The hits of a run are of responses that were stored before them. -/
def ServesStored (server : Ptr) (acts : List (Act μ)) : Prop :=
  ∀ i < acts.length, ∀ m ∈ acts[i]?.bind Act.hit, m ∈ shown server stored (acts.take i)

theorem ServesStored.front {pre post : List (Act μ)} (h : ServesStored server (pre ++ post)) :
    ServesStored server pre := by
  intro i hi m hm
  have hlt : i < (pre ++ post).length := by
    rw [List.length_append]
    exact Nat.lt_add_right _ hi
  have hin := h i hlt m (by rwa [List.getElem?_append_left hi])
  rwa [List.take_append_of_le_length (Nat.le_of_lt hi)] at hin

theorem ServesStored.last {acts : List (Act μ)} {a : Act μ} {m : μ}
    (h : ServesStored server (acts ++ [a])) (hm : a.hit = some m) :
    m ∈ shown server stored acts := by
  have hin := h acts.length (by simp) m (by simpa using hm)
  rwa [List.take_left] at hin

/-- Only what is at hand is sent, -/
theorem hand_of_relayed {s : State μ} {a : Act μ} {p : Key × μ} (h : relayed s a = some p) :
    p.2 ∈ s.hand := by
  unfold relayed at h
  split at h
  · split at h
    · rename_i hpc _
      obtain ⟨-, h⟩ := Option.ite_none_right_eq_some.mp h
      obtain rfl := Option.some.inj h
      simp [State.hand, hpc]
    · exact absurd h (by simp)
  · exact absurd h (by simp)

/-- or stored. -/
theorem hand_of_stored {s : State μ} {a : Act μ} {m : μ} (h : stored s a = some m) :
    m ∈ s.hand := by
  unfold stored at h
  split at h
  · split at h
    · rename_i hpc _
      obtain rfl := Option.some.inj h
      simp [State.hand, hpc]
    · exact absurd h (by simp)
  · exact absurd h (by simp)

/-- What is got is fetched or a hit. -/
theorem got_cases {s : State μ} {a : Act μ} {m : μ} (h : got s a = some m) :
    fetched s a = some m ∨ a.hit = some m := by
  cases a with
  | lookup rc out => exact Or.inr h
  | send r => exact Or.inl (by cases r <;> exact h)
  | _ => exact absurd h (by simp [got])

/-- What the frontend holds or has sent was fetched. -/
structure Fetched (server : Ptr) (acts : List (Act μ)) (s : State μ) : Prop where
  sent : ∀ p ∈ shown server relayed acts, p.2 ∈ shown server fetched acts
  kept : ∀ m ∈ shown server stored acts, m ∈ shown server fetched acts
  hand : ∀ m ∈ s.hand, m ∈ shown server fetched acts

theorem fetched_step {acts : List (Act μ)} {s t : State μ} {a : Act μ}
    (hr : (machine server).run acts = some s) (hc : ServesStored server (acts ++ [a]))
    (h : Fetched server acts s) (hs : Step s a t) : Fetched server (acts ++ [a]) t := by
  obtain ⟨hsent, hkept, hhand⟩ := h
  have hmono : ∀ m ∈ shown server fetched acts, m ∈ shown server fetched (acts ++ [a]) := by
    intro m hm
    rw [shown_snoc hr]
    exact List.mem_append_left _ hm
  refine ⟨?_, ?_, ?_⟩
  · intro p hp
    rw [shown_snoc hr] at hp
    rcases List.mem_append.mp hp with hp | hp
    · exact hmono p.2 (hsent p hp)
    · exact hmono p.2 (hhand p.2 (hand_of_relayed (Option.mem_toList.mp hp)))
  · intro m hm
    rw [shown_snoc hr] at hm
    rcases List.mem_append.mp hm with hm | hm
    · exact hmono m (hkept m hm)
    · exact hmono m (hhand m (hand_of_stored (Option.mem_toList.mp hm)))
  · intro m hm
    have hgot : m ∈ s.hand ∨ got s a = some m := by
      have hgo : t.pc ≠ .panicked := by
        intro hend
        simp [State.hand, hend] at hm
      have hm' : m ∈ s.hand ++ (got s a).toList := hand_step hs hgo ▸ List.mem_append_right _ hm
      simpa using hm'
    rcases hgot with hold | hnew
    · exact hmono m (hhand m hold)
    · rcases got_cases hnew with hf | hhit
      · rw [shown_snoc hr]
        exact List.mem_append_right _ (Option.mem_toList.mpr hf)
      · exact hmono m (hkept m (hc.last hhit))

/-- **All that is relayed came from the origin**, when the cache serves what was stored. -/
theorem relays_origin {acts : List (Act μ)} {s : State μ} (h : (machine server).run acts = some s)
    (hc : ServesStored server acts) :
    ∀ p ∈ shown server relayed acts, p.2 ∈ shown server fetched acts := by
  have hall : ServesStored server acts → Fetched server acts s := by
    refine (machine server).run_induction
      (P := fun as s => ServesStored server as → Fetched server as s) ?_ ?_ h
    · exact fun _ => ⟨by simp [shown, Machine.notes], by simp [shown, Machine.notes],
        by simp [machine, init, State.hand]⟩
    · intro as s a t hr ih hst hca
      exact fetched_step hr hca (ih hca.front) (step_inv hst)
  exact (hall hc).sent

theorem relays_origin_threeRequests :
    ∃ s, (machine 9).run threeRequests = some s ∧ ServesStored 9 threeRequests ∧
      ∀ p ∈ shown 9 relayed threeRequests, p.2 ∈ shown 9 fetched threeRequests :=
  have hc : ServesStored 9 threeRequests := by
    unfold ServesStored
    decide
  ⟨_, rfl, hc, relays_origin rfl hc⟩

end Nwep.Apps.Proxy
