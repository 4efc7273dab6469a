import Nwep.Identity
import Nwep.Lib.Parking
import Nwep.Server.Responder

/-!
# Key-value service with notify pushes

Model of the server of `nwep/examples/nwkv.rs` (23-69), with `Request::path`, `header` and `body`
(`nwep/src/server.rs` 111-137): the handler over the map of values, and the loop that notifies the
connections of the writes.

* A label is one step with what the C side answers; `request` is one call of the handler, which only
  happens inside of `server.tick`.
* The map is a function: the values are never walked over.

Results:
* **`kv_exact`**: in every run a key holds what was last written to it and not deleted since, each
  request is answered by that, and every write is notified once, to its connection and in order,
  before the next turn.
-/

namespace Nwep.Apps.Kv

open Nwep.Lib Nwep.Server

/-- What the C accessors give of a request: two of its headers, each null or not, and the body. -/
structure Received where
  path   : Option Bytes
  method : Option Bytes
  body   : Bytes
  connId : Nat
  deriving DecidableEq

/-- `Request::header`: none for a text that is not UTF-8. -/
def text (p : Option Bytes) : Option Bytes := p.filter Identity.validUtf8

/-- `req.path().unwrap_or("")`. -/
def Received.pathOf (req : Received) : Bytes := (text req.path).getD []

/-- `req.header(":method").unwrap_or("read")`. -/
def Received.methodOf (req : Received) : Bytes := (text req.method).getD (str "read")

/-- The map of values. -/
abbrev Store := Bytes → Option Bytes

/-- The handler: the map and the list of connections after it, and its answer. -/
def onRequest (kv : Store) (toNotify : List Nat) (req : Received) (res : Responder) :
    Store × List Nat × Terminal :=
  let path := req.pathOf
  if req.methodOf = str "write" then
    (Function.update kv path (some req.body), toNotify ++ [req.connId], res.status .created [])
  else if req.methodOf = str "delete" then
    match kv path with
    | some _ => (Function.update kv path none, toNotify, res.status .noContent [])
    | none => (kv, toNotify, res.notFound)
  else
    match kv path with
    | some v => (kv, toNotify, res.ok v)
    | none => (kv, toNotify, res.notFound)

inductive Pc
  | check    -- `while !stop_t.load(..)`
  | tick     -- in `server.tick`
  | notify   -- the `for` loop
  | returned
  | panicked
  deriving DecidableEq

structure State where
  pc       : Pc
  kv       : Store
  todo     : List Nat
  toNotify : List Nat

inductive Act
  | check (stop : Bool)
  | request (req : Received) (res : Responder)
  | tick (rc : CInt)
  | notify (rc : CInt)
  | drained
  deriving DecidableEq

def init : State := ⟨.check, fun _ => none, [], []⟩

def step (s : State) : Act → Option State
  | .check stop =>
    if s.pc = .check then some { s with pc := if stop then .returned else .tick } else none
  | .request req res =>
    if s.pc = .tick then
      let (kv, toNotify, _) := onRequest s.kv s.toNotify req res
      some { s with kv := kv, toNotify := toNotify }
    else none
  | .tick rc =>
    if s.pc = .tick then
      match Error.check rc with
      | .ok _ => some { s with pc := .notify, todo := s.toNotify, toNotify := [] }
      | .error _ => some { s with pc := .panicked }
    else none
  | .notify _ =>
    -- `let _ = server.notify(..)`: a connection that is gone is passed over
    match s.pc, s.todo with
    | .notify, _ :: rest => some { s with todo := rest }
    | _, _ => none
  | .drained => if s.pc = .notify ∧ s.todo = [] then some { s with pc := .check } else none

def machine : Machine State Act := ⟨init, step⟩

/-! ## What each step does -/

/-- Every enabled step, with its guard and its effect. -/
inductive Step (s : State) : Act → State → Prop
  | check {stop} (h : s.pc = .check) :
      Step s (.check stop) { s with pc := if stop then .returned else .tick }
  | request {req res} (h : s.pc = .tick) :
      Step s (.request req res) { s with
        kv := (onRequest s.kv s.toNotify req res).1
        toNotify := (onRequest s.kv s.toNotify req res).2.1 }
  | tick {rc} (h : s.pc = .tick) :
      Step s (.tick rc) { s with pc := .notify, todo := s.toNotify, toNotify := [] }
  | tickFails {rc} (h : s.pc = .tick) : Step s (.tick rc) { s with pc := .panicked }
  | notify {rc conn rest} (h : s.pc = .notify) (ht : s.todo = conn :: rest) :
      Step s (.notify rc) { s with todo := rest }
  | drained (h : s.pc = .notify) (ht : s.todo = []) : Step s .drained { s with pc := .check }

theorem step_inv {s t : State} {a : Act} (h : step s a = some t) : Step s a t := by
  cases a with
  | check stop =>
    obtain ⟨hpc, h⟩ := Option.ite_none_right_eq_some.mp h
    obtain rfl := Option.some.inj h
    exact .check hpc
  | request req res =>
    obtain ⟨hpc, h⟩ := Option.ite_none_right_eq_some.mp h
    obtain rfl := Option.some.inj h
    exact .request hpc
  | tick rc =>
    obtain ⟨hpc, h⟩ := Option.ite_none_right_eq_some.mp h
    split at h
    · obtain rfl := Option.some.inj h
      exact .tick hpc
    · obtain rfl := Option.some.inj h
      exact .tickFails hpc
  | notify rc =>
    simp only [step] at h
    split at h
    · rename_i hpc ht
      obtain rfl := Option.some.inj h
      exact .notify hpc ht
    · exact absurd h (by simp)
  | drained =>
    obtain ⟨⟨hpc, ht⟩, h⟩ := Option.ite_none_right_eq_some.mp h
    obtain rfl := Option.some.inj h
    exact .drained hpc ht

/-- What the state keeps from turn to turn. -/
def Inv (s : State) : Prop :=
  match s.pc with
  | .check | .returned => s.todo = [] ∧ s.toNotify = []
  | .tick => s.todo = []
  | .notify => s.toNotify = []
  | .panicked => True

theorem inv_reachable {s : State} (h : machine.Reachable s) : Inv s := by
  refine machine.reachable_induction (P := Inv) ⟨rfl, rfl⟩ ?_ h
  intro s a t _ hi hst
  cases step_inv hst with
  | @check stop hpc =>
    simp only [Inv, hpc] at hi
    cases stop with
    | true => exact hi
    | false => exact hi.1
  | request hpc =>
    simp only [Inv, hpc] at hi ⊢
    exact hi
  | tick _ => rfl
  | tickFails _ => trivial
  | notify hpc _ =>
    simp only [Inv, hpc] at hi ⊢
    exact hi
  | drained hpc ht =>
    simp only [Inv, hpc] at hi
    exact ⟨ht, hi⟩

/-! ## The values -/

/-- What the request of a label makes of the key `p`, if anything. -/
def Act.sets (p : Bytes) : Act → Option (Option Bytes)
  | .request req _ =>
    if req.pathOf ≠ p then none
    else if req.methodOf = str "write" then some (some req.body)
    else if req.methodOf = str "delete" then some none
    else none
  | _ => none

/-- What was last written to the key and not deleted since. -/
def lastWritten (acts : List Act) (p : Bytes) : Option Bytes :=
  (acts.reverse.findSome? (Act.sets p)).join

theorem lastWritten_snoc (acts : List Act) (a : Act) (p : Bytes) :
    lastWritten (acts ++ [a]) p =
      match a.sets p with
      | some v => v
      | none => lastWritten acts p := by
  unfold lastWritten
  rw [List.reverse_append, List.reverse_singleton, List.singleton_append, List.findSome?_cons]
  cases a.sets p <;> rfl

/-- The answer to a request, by what its key holds. -/
def answer (found : Option Bytes) (req : Received) (res : Responder) : Terminal :=
  if req.methodOf = str "write" then res.status .created []
  else if req.methodOf = str "delete" then
    if found.isSome then res.status .noContent [] else res.notFound
  else
    match found with
    | some v => res.ok v
    | none => res.notFound

/-- **What a handler call does**: to each key, to the list of connections, and as its answer. -/
theorem onRequest_eq (kv : Store) (toNotify : List Nat) (req : Received) (res : Responder) :
    onRequest kv toNotify req res =
      (fun p =>
          match (Act.request req res).sets p with
          | some v => v
          | none => kv p,
        if req.methodOf = str "write" then toNotify ++ [req.connId] else toNotify,
        answer (kv req.pathOf) req res) := by
  unfold onRequest answer Act.sets
  by_cases hw : req.methodOf = str "write"
  · simp only [if_pos hw]
    refine Prod.ext (funext fun p => ?_) rfl
    by_cases hp : req.pathOf = p
    · simp [hp]
    · simp [hp, Function.update_of_ne (Ne.symm hp)]
  · by_cases hd : req.methodOf = str "delete"
    · simp only [if_neg hw, if_pos hd]
      cases hkv : kv req.pathOf with
      | none =>
        refine Prod.ext (funext fun p => ?_) rfl
        by_cases hp : req.pathOf = p
        · subst hp
          simp [hkv]
        · simp [hp]
      | some v =>
        refine Prod.ext (funext fun p => ?_) rfl
        by_cases hp : req.pathOf = p
        · simp [hp]
        · simp [hp, Function.update_of_ne (Ne.symm hp)]
    · simp only [if_neg hw, if_neg hd]
      cases kv req.pathOf <;> simp

/-- **The map holds what was last written.** -/
theorem kv_run {acts : List Act} {s : State} (h : machine.run acts = some s) :
    s.kv = lastWritten acts := by
  refine machine.run_induction (P := fun as s => s.kv = lastWritten as) rfl ?_ h
  intro as s a t _ ih hst
  funext p
  rw [lastWritten_snoc, ← ih]
  cases step_inv hst with
  | @request req res _ => rw [onRequest_eq]
  | _ => rfl

/-! ## The notifications -/

/-- The connection of a write. -/
def writer (_ : State) : Act → Option Nat
  | .request req _ => if req.methodOf = str "write" then some req.connId else none
  | _ => none

/-- The connection a `notify` goes to. -/
def notified (s : State) : Act → Option Nat
  | .notify _ => s.todo.head?
  | _ => none

theorem parks : machine.Parked (fun s => ⟨s.todo, s.toNotify⟩) writer notified where
  init := rfl
  step s a t hr hst := by
    have hi := inv_reachable hr
    cases step_inv hst with
    | @request req res _ =>
      simp only [writer, onRequest_eq]
      by_cases hw : req.methodOf = str "write"
      · rw [if_pos hw, if_pos hw]
        exact .park _
      · rw [if_neg hw, if_neg hw]
        exact .same
    | tick hpc =>
      simp only [Inv, hpc] at hi
      exact .takeOut hi
    | notify _ ht =>
      simp only [notified, ht]
      exact .deal rfl
    | _ => exact .same

/-- What holds of every run of the service. -/
structure Exact (acts : List Act) (s : State) : Prop where
  /-- A key holds what was last written to it and not deleted since, -/
  store : s.kv = lastWritten acts
  /-- and each request is answered by what its key held when it came. -/
  replies : ∀ pre req res post, acts = pre ++ .request req res :: post →
    ∃ u, machine.run pre = some u ∧
      (onRequest u.kv u.toNotify req res).2.2 = answer (lastWritten pre req.pathOf) req res
  /-- The writes are notified once each and in order; the others wait, -/
  notifies : machine.notes writer init acts =
    machine.notes notified init acts ++ s.todo ++ s.toNotify
  /-- but none does between two turns. -/
  caughtUp : s.pc = .check ∨ s.pc = .returned →
    machine.notes writer init acts = machine.notes notified init acts

/-- **The service is a map with a notification for each write.** -/
theorem kv_exact {acts : List Act} {s : State} (h : machine.run acts = some s) : Exact acts s := by
  have hi := inv_reachable ⟨acts, h⟩
  have hacc : machine.notes writer init acts =
      machine.notes notified init acts ++ s.todo ++ s.toNotify := by
    rw [List.append_assoc]
    exact parks.account h
  refine ⟨kv_run h, ?_, hacc, ?_⟩
  · rintro pre req res post rfl
    obtain ⟨u, hpre, -⟩ := machine.run_append.mp h
    refine ⟨u, hpre, ?_⟩
    rw [onRequest_eq, kv_run hpre]
  · intro hpc
    have hnone : s.todo = [] ∧ s.toNotify = [] := by
      rcases hpc with hpc | hpc <;> simpa [Inv, hpc] using hi
    simp [hacc, hnone]

/-- A write, a read and a delete of one key by connection 3, then a read of what is gone. -/
def lifecycle : List Act :=
  let req (method : String) (body : Bytes) : Act :=
    .request ⟨some (str "/k"), some (str method), body, 3⟩ ⟨0, 0, 9, 3, 0, []⟩
  [.check false, req "write" [7], .tick 0, .notify (-1), .drained,
   .check false, req "read" [], req "delete" [], req "read" [], .tick 0, .drained, .check true]

theorem kv_exact_lifecycle :
    ∃ s, machine.run lifecycle = some s ∧ s.pc = .returned ∧
      machine.notes notified init lifecycle = [3] ∧ s.kv (str "/k") = none ∧ Exact lifecycle s :=
  ⟨_, rfl, rfl, by decide, by decide, kv_exact rfl⟩

end Nwep.Apps.Kv
