import Nwep.Dht
import Nwep.Lib.Custody
import Nwep.Server.Responder

/-!
# Building and taking down a server

Model of `ServerBuilder::build`, `build_from_fd` and `finish_build` (`nwep/src/server.rs` 735-823),
of `Server::drop` (1219-1229), of `DhtBuilder::attach` and `Dht::drop` (`nwep/src/dht.rs` 149-169,
303-309), and of the owner thread of `serve` with `attach_managed_dht` (`nwep/src/runtime.rs`
169-240). What a function does with handles is the list of its C calls, with their answers, and of
the destructors that run, in order.

* The handler is boxed by the application. The builder owns it until `set_handler`, then the
  `Server`; whoever still owns it frees it.
* Locals are dropped in the reverse order of their declaration (`leave`), on every way out of a
  function, a panic of `run_server_loop` included.
* A C call that fails hands out no handle and registers nothing.

Results:
* `build_hands`, `buildFromFd_hands`, `thread_settles`: each list is an orderly run of
  `Lib.Custody`;
* **`teardown_order`**: everything obtained is closed once and in order, or owned by the `Server`.
-/

namespace Nwep.Teardown

open Nwep.Lib Nwep.Server

/-- A keypair, lent to the C side for the call. -/
abbrev Keypair := Nat

/-- `Bootstrap`. -/
abbrev Bootstrap := Nat

/-- `ServerBuilder`; the handler is named by its box. -/
structure ServerBuilder where
  identity      : Option Keypair
  bind          : Option Address
  handler       : Option Ptr
  reusePort     : Bool
  maxParked     : Option Nat
  dhtBootstraps : List Bootstrap
  dhtAnnounce   : Option Address
  dhtInitialSeq : Nat

/-- `Server`. -/
structure Server where
  raw     : Ptr
  handler : Option Ptr
  deriving DecidableEq

/-- The four C calls that bind or adopt a socket. -/
inductive Listen
  | addr (kp : Keypair) (bind : Address)
  | reuseport (kp : Keypair) (bind : Address)
  | fd (kp : Keypair) (fd : Nat)
  | fdSharded (kp : Keypair) (fd shard : Nat)
  deriving DecidableEq

/-- A C call with its answer, or a destructor. -/
inductive Event
  | listen (call : Listen) (rc : CInt) (raw : Ptr)
  | setMaxParked (raw : Ptr) (max : Nat)
  | setHandler (raw box : Ptr) (rc : CInt)
  | freeHandler (box : Ptr)
  | closeServer (raw : Ptr)
  | attach (server : Ptr) (contacts : List Bootstrap) (seq : Nat) (rc : CInt) (dht : Ptr)
  | join (dht : Ptr) (secs : Nat) (rc : CInt)
  | closeDht (dht : Ptr)
  | localNodeid (raw : Ptr) (rc : CInt)
  | ready (r : Result Unit)                   -- `ready_tx.send(..)`
  | serverLoop (raw : Ptr) (dht : Option Ptr) (announce : Option Address)
  deriving DecidableEq

/-- What the C calls answer. -/
structure Codes where
  listen     : CInt × Ptr
  setHandler : CInt
  attach     : CInt × Ptr
  join       : CInt
  nodeId     : CInt

/-- Dropping the builder. -/
def ServerBuilder.drop (b : ServerBuilder) : List Event := b.handler.toList.map .freeHandler

/-- `Server::drop`: the server is closed first, so no callback can fire. -/
def Server.drop (s : Server) : List Event := .closeServer s.raw :: s.handler.toList.map .freeHandler

/-- `ServerBuilder::finish_build`. -/
def ServerBuilder.finishBuild (b : ServerBuilder) (raw : Ptr) (a : Codes) :
    Result Server × List Event :=
  let parked := b.maxParked.toList.map (.setMaxParked raw)
  match b.handler with
  | none => (.ok ⟨raw, none⟩, parked)
  | some boxed =>
    match Error.check a.setHandler with
    -- unwind the half-built server, freeing the closure and socket
    | .error e =>
      (.error e, parked ++ [.setHandler raw boxed a.setHandler, .freeHandler boxed, .closeServer raw])
    | .ok _ => (.ok ⟨raw, some boxed⟩, parked ++ [.setHandler raw boxed a.setHandler])

/-- `identity.with_keypair(|kp| Error::check(call(..)))?` and then `finish_build`. -/
def ServerBuilder.bound (b : ServerBuilder) (call : Listen) (a : Codes) :
    Result Server × List Event :=
  match Error.check a.listen.1 with
  | .error e => (.error e, .listen call a.listen.1 a.listen.2 :: b.drop)
  | .ok _ =>
    let r := b.finishBuild a.listen.2 a
    (r.1, .listen call a.listen.1 a.listen.2 :: r.2)

/-- `ServerBuilder::build`. -/
def ServerBuilder.build (b : ServerBuilder) (a : Codes) : Result Server × List Event :=
  match b.identity with
  | none => (.error .configMissing, b.drop)
  | some kp =>
    match b.bind with
    | none => (.error .configMissing, b.drop)
    | some bind => b.bound (if b.reusePort then .reuseport kp bind else .addr kp bind) a

/-- `ServerBuilder::build_from_fd`. -/
def ServerBuilder.buildFromFd (b : ServerBuilder) (fd : Nat) (shardId : Option Nat) (a : Codes) :
    Result Server × List Event :=
  match b.identity with
  | none => (.error .configMissing, b.drop)
  | some kp =>
    match shardId with
    | some s => b.bound (.fdSharded kp fd s) a
    | none => b.bound (.fd kp fd) a

/-- A `build` that fails, when the destructor of the handler's captures panics: what it did up to
there, and the server that stays open. `finish_build` closes a half-built server after the box is
gone, and holds nothing that would close it on the way out. -/
def ServerBuilder.buildPanics (b : ServerBuilder) (a : Codes) : Option (Option Ptr × List Event) :=
  match b.handler, b.build a with
  | some _, (.error _, evs) =>
    match evs.getLast? with
    | some (.closeServer raw) => some (some raw, evs.dropLast)
    | _ => some (none, evs)
  | _, _ => none

/-- `ServerBuilder::take_managed_dht`. -/
def ServerBuilder.takeManagedDht (b : ServerBuilder) :
    Option (List Bootstrap × Option Address × Nat) × ServerBuilder :=
  if b.dhtBootstraps = [] then (none, b)
  else (some (b.dhtBootstraps, b.dhtAnnounce, b.dhtInitialSeq),
    { b with dhtBootstraps := [], dhtAnnounce := none })

/-- `DhtBuilder::attach`. -/
def attach (server : Server) (contacts : List Bootstrap) (seq : Nat) (a : Codes) :
    Result Ptr × List Event :=
  if contacts = [] then (.error .configMissing, [])
  else
    match Error.check a.attach.1 with
    | .error e => (.error e, [.attach server.raw contacts seq a.attach.1 a.attach.2])
    | .ok _ => (.ok a.attach.2, [.attach server.raw contacts seq a.attach.1 a.attach.2])

/-- `attach_managed_dht`: the dht is a local of it, dropped when the join fails. -/
def attachManagedDht (server : Server) (contacts : List Bootstrap) (seq secs : Nat) (a : Codes) :
    Result Ptr × List Event :=
  match attach server contacts seq a with
  | (.error e, evs) => (.error e, evs)
  | (.ok dht, evs) =>
    match Error.check a.join with
    | .error e => (.error e, evs ++ [.join dht secs a.join, .closeDht dht])
    | .ok _ => (.ok dht, evs ++ [.join dht secs a.join])

/-- Leaving a function: what the destructors of its locals do, given in the order of the
declarations. -/
def leave (locals : List (List Event)) : List Event := locals.reverse.flatten

/-- The owner thread once everything is attached; `gone` when the caller went away. -/
def listening (server : Server) (dht : Option Ptr) (announce : Option Address) (a : Codes)
    (gone : Bool) : List Event :=
  let out := leave [server.drop, dht.toList.map .closeDht]
  match Error.check a.nodeId with
  | .error e => .localNodeid server.raw a.nodeId :: .ready (.error e) :: out
  | .ok _ =>
    if gone then .localNodeid server.raw a.nodeId :: .ready (.ok ()) :: out
    else .localNodeid server.raw a.nodeId :: .ready (.ok ()) ::
      .serverLoop server.raw dht announce :: out

/-- The owner thread of `ServerBuilder::serve`. -/
def ServerBuilder.thread (b : ServerBuilder) (a : Codes) (secs : Nat) (gone : Bool) : List Event :=
  let (dhtCfg, b) := b.takeManagedDht
  match b.build a with
  | (.error e, evs) => evs ++ [.ready (.error e)]
  | (.ok server, evs) =>
    match dhtCfg with
    | none => evs ++ listening server none none a gone
    | some (contacts, announce, seq) =>
      match attachManagedDht server contacts seq secs a with
      | (.error e, dhtEvs) => evs ++ dhtEvs ++ .ready (.error e) :: leave [server.drop]
      | (.ok dht, dhtEvs) => evs ++ dhtEvs ++ listening server (some dht) announce a gone

/-! ## What is wanted -/

/-- The server handle the event obtains. -/
def Event.opens : Event → Option Ptr
  | .listen _ rc raw => if 0 ≤ rc then some raw else none
  | _ => none

/-- The dht the event obtains, and the server it is attached to. -/
def Event.attaches : Event → Option (Ptr × Ptr)
  | .attach server _ _ rc dht => if 0 ≤ rc then some (dht, server) else none
  | _ => none

/-- The server the event registers a handler with, and the handler. -/
def Event.registers : Event → Option (Ptr × Ptr)
  | .setHandler raw box rc => if 0 ≤ rc then some (raw, box) else none
  | _ => none

/-- Everything is closed once, and in order. -/
structure TornDown (handler : Option Ptr) (evs : List Event) : Prop where
  /-- Each server handle obtained is closed exactly once, -/
  servers : ∀ raw, evs.count (.closeServer raw) = evs.countP fun e => e.opens = some raw
  /-- each dht exactly once, -/
  dhts : ∀ d, evs.count (.closeDht d) = evs.countP fun e => e.attaches.map Prod.fst = some d
  /-- and before the server it was attached to. -/
  dhtFirst : ∀ pre raw post, evs = pre ++ .closeServer raw :: post →
    ∀ d, (∃ e ∈ evs, e.attaches = some (d, raw)) → .closeDht d ∈ pre
  /-- The handler is freed exactly once, -/
  handlers : ∀ box, evs.count (.freeHandler box) = if handler = some box then 1 else 0
  /-- and not while an open server has it registered. -/
  unregistered : ∀ pre box post, evs = pre ++ .freeHandler box :: post →
    ∀ raw, (∃ e ∈ evs, e.registers = some (raw, box)) → .closeServer raw ∈ pre

/-- The `Server` owns what was obtained, and takes it down when it is dropped. -/
structure Owned (boxed : Option Ptr) (server : Server) (evs : List Event) : Prop where
  opened     : evs.filterMap Event.opens = [server.raw]
  handler    : server.handler = boxed
  registered : evs.filterMap Event.registers = boxed.toList.map fun box => (server.raw, box)
  untouched  : ∀ e ∈ server.drop, e ∉ evs
  dropped    : TornDown boxed (evs ++ server.drop)

/-- A build that fails leaves nothing, one that succeeds hands everything to the `Server`. -/
def BuildOwns (handler : Option Ptr) (r : Result Server × List Event) : Prop :=
  match r.1 with
  | .error _ => TornDown handler r.2
  | .ok server => Owned handler server r.2

/-! ## Custody -/

/-- What is in custody. -/
inductive Thing
  | server (raw : Ptr)
  | dht (raw : Ptr)
  | box (raw : Ptr)
  deriving DecidableEq

/-- A dht borrows its server, a server its handler. -/
def Event.acts : Event → List (CustodyAct Thing)
  | .listen _ rc raw => if 0 ≤ rc then [.acquire (.server raw)] else []
  | .setHandler raw box rc => if 0 ≤ rc then [.borrow (.server raw) (.box box)] else []
  | .attach server _ _ rc dht =>
    if 0 ≤ rc then [.acquire (.dht dht), .borrow (.dht dht) (.server server)] else []
  | .freeHandler box => [.release (.box box)]
  | .closeServer raw => [.release (.server raw)]
  | .closeDht dht => [.release (.dht dht)]
  | _ => []

def actsOf (evs : List Event) : List (CustodyAct Thing) := evs.flatMap Event.acts

theorem actsOf_append (evs more : List Event) : actsOf (evs ++ more) = actsOf evs ++ actsOf more :=
  List.flatMap_append

theorem actsOf_cons (e : Event) (evs : List Event) : actsOf (e :: evs) = e.acts ++ actsOf evs := rfl

/-- The handler in custody. -/
def boxes (handler : Option Ptr) : List Thing := handler.toList.map .box

/-- The handler is there before the build. -/
def custodyOf (handler : Option Ptr) (evs : List Event) : List (CustodyAct Thing) :=
  (boxes handler).map .acquire ++ actsOf evs

/-! ### From the run back to the events -/

theorem mem_actsOf {evs : List Event} {a : CustodyAct Thing} :
    a ∈ actsOf evs ↔ ∃ e ∈ evs, a ∈ e.acts := List.mem_flatMap

/-- The acts of a list count as its events do, when each event has the act once or not. -/
theorem count_actsOf {a : CustodyAct Thing} {p : Event → Bool}
    (h : ∀ e : Event, e.acts.count a = if p e then 1 else 0) (evs : List Event) :
    (actsOf evs).count a = evs.countP p := Custody.count_flatMap h evs

/-- The event that releases a thing. -/
def Thing.closing : Thing → Event
  | .server s => .closeServer s
  | .dht d => .closeDht d
  | .box b => .freeHandler b

theorem acts_release (k : Thing) (e : Event) :
    e.acts.count (.release k) = if e == k.closing then 1 else 0 := by
  cases e with
  | listen _ rc _ | setHandler _ _ rc | attach _ _ _ rc _ =>
    by_cases hrc : 0 ≤ rc <;> cases k <;> simp [Event.acts, Thing.closing, hrc]
  | freeHandler _ | closeServer _ | closeDht _ =>
    cases k <;> simp [Event.acts, Thing.closing, List.count_singleton]
  | setMaxParked _ _ | join _ _ _ | localNodeid _ _ | ready _ | serverLoop _ _ _ =>
    cases k <;> simp [Event.acts, Thing.closing]

theorem acts_acquire_server (raw : Ptr) (e : Event) :
    e.acts.count (.acquire (.server raw)) = if e.opens = some raw then 1 else 0 := by
  cases e with
  | listen _ rc _ =>
    by_cases hrc : 0 ≤ rc <;> simp [Event.acts, Event.opens, hrc, List.count_singleton]
  | setHandler _ _ rc | attach _ _ _ rc _ =>
    by_cases hrc : 0 ≤ rc <;> simp [Event.acts, Event.opens, hrc]
  | _ => simp [Event.acts, Event.opens]

theorem acts_acquire_dht (d : Ptr) (e : Event) :
    e.acts.count (.acquire (.dht d)) = if e.attaches.map Prod.fst = some d then 1 else 0 := by
  cases e with
  | attach _ _ _ rc _ =>
    by_cases hrc : 0 ≤ rc <;>
      simp [Event.acts, Event.attaches, hrc, List.count_cons]
  | listen _ rc _ | setHandler _ _ rc =>
    by_cases hrc : 0 ≤ rc <;> simp [Event.acts, Event.attaches, hrc]
  | _ => simp [Event.acts, Event.attaches]

theorem acts_acquire_box (box : Ptr) (e : Event) : e.acts.count (.acquire (.box box)) = 0 := by
  cases e with
  | listen _ rc _ | setHandler _ _ rc | attach _ _ _ rc _ =>
    by_cases hrc : 0 ≤ rc <;> simp [Event.acts, hrc]
  | _ => simp [Event.acts]

/-- A thing is released in a list when its closing event is there. -/
theorem release_mem {evs : List Event} {k : Thing} (h : .release k ∈ actsOf evs) :
    k.closing ∈ evs := by
  obtain ⟨e, he, ha⟩ := mem_actsOf.mp h
  have hone := acts_release k e
  have hpos : 0 < e.acts.count (.release k) := List.count_pos_iff.mpr ha
  by_cases heq : (e == k.closing) = true
  · exact beq_iff_eq.mp heq ▸ he
  · rw [if_neg heq] at hone
    omega

theorem borrow_of_attaches {evs : List Event} {d raw : Ptr}
    (h : ∃ e ∈ evs, e.attaches = some (d, raw)) :
    .borrow (.dht d) (.server raw) ∈ actsOf evs := by
  obtain ⟨e, he, ha⟩ := h
  refine mem_actsOf.mpr ⟨e, he, ?_⟩
  cases e with
  | attach _ _ _ rc _ =>
    by_cases hrc : 0 ≤ rc
    · simp only [Event.attaches, if_pos hrc, Option.some.injEq, Prod.mk.injEq] at ha
      obtain ⟨rfl, rfl⟩ := ha
      simp [Event.acts, hrc]
    · simp [Event.attaches, hrc] at ha
  | _ => simp [Event.attaches] at ha

theorem borrow_of_registers {evs : List Event} {raw box : Ptr}
    (h : ∃ e ∈ evs, e.registers = some (raw, box)) :
    .borrow (.server raw) (.box box) ∈ actsOf evs := by
  obtain ⟨e, he, ha⟩ := h
  refine mem_actsOf.mpr ⟨e, he, ?_⟩
  cases e with
  | setHandler _ _ rc =>
    by_cases hrc : 0 ≤ rc
    · simp only [Event.registers, if_pos hrc, Option.some.injEq, Prod.mk.injEq] at ha
      obtain ⟨rfl, rfl⟩ := ha
      simp [Event.acts, hrc]
    · simp [Event.registers, hrc] at ha
  | _ => simp [Event.registers] at ha

theorem count_release_custodyOf (handler : Option Ptr) (evs : List Event) (k : Thing) :
    (custodyOf handler evs).count (.release k) = evs.count k.closing := by
  unfold custodyOf
  rw [List.count_append, count_actsOf (acts_release k)]
  simp [List.count]

section Settled

variable {handler : Option Ptr} {evs : List Event} {w : Custody Thing}

/-- The acts of a prefix that ends before a closing event. -/
theorem custodyOf_split {pre post : List Event} (k : Thing) :
    custodyOf handler (pre ++ k.closing :: post) =
      ((boxes handler).map .acquire ++ actsOf pre) ++ .release k :: actsOf post := by
  unfold custodyOf
  rw [actsOf_append, actsOf_cons, ← List.append_assoc]
  cases k <;> rfl

/-- What borrows is closed before what it borrows from. -/
theorem closing_first (h : (Custody.machine Thing).run (custodyOf handler evs) = some w)
    {k l : Thing} (hb : .borrow k l ∈ actsOf evs) {pre post : List Event}
    (hs : evs = pre ++ l.closing :: post) : k.closing ∈ pre := by
  have hb' : .borrow k l ∈ custodyOf handler evs := List.mem_append_right _ hb
  subst hs
  rw [custodyOf_split] at h hb'
  have hrel := Custody.borrower_first h hb'
  rcases List.mem_append.mp hrel with hm | hm
  · simp at hm
  · exact release_mem hm

/-- **An orderly run that leaves nothing** is a teardown. -/
theorem tornDown_of_run (h : (Custody.machine Thing).run (custodyOf handler evs) = some w)
    (hnil : w.live = []) : TornDown handler evs := by
  have hrel := count_release_custodyOf handler evs
  have hacq : ∀ k : Thing, (custodyOf handler evs).count (.acquire k) =
      (boxes handler).count k + (actsOf evs).count (.acquire k) := by
    intro k
    unfold custodyOf
    rw [List.count_append, List.count_map_of_injective]
    exact fun a b hab => CustodyAct.acquire.inj hab
  have heq := Custody.released_eq_acquired h hnil
  constructor
  · intro raw
    have hk := heq (.server raw)
    rw [hrel, hacq, count_actsOf (p := fun e => e.opens = some raw)] at hk
    · cases handler <;> simpa [boxes, Thing.closing] using hk
    · intro e
      rw [acts_acquire_server]
      simp only [decide_eq_true_eq]
  · intro d
    have hk := heq (.dht d)
    rw [hrel, hacq, count_actsOf (p := fun e => e.attaches.map Prod.fst = some d)] at hk
    · cases handler <;> simpa [boxes, Thing.closing] using hk
    · intro e
      rw [acts_acquire_dht]
      simp only [decide_eq_true_eq]
  · intro pre raw post hs d hd
    exact closing_first h (borrow_of_attaches hd) (l := .server raw) hs
  · intro box
    have hk := heq (.box box)
    rw [hrel, hacq, count_actsOf (p := fun _ => false)] at hk
    · cases handler <;> simpa [boxes, Thing.closing, List.count_singleton] using hk
    · exact acts_acquire_box box
  · intro pre box post hs raw hraw
    exact closing_first h (borrow_of_registers hraw) (l := .box box) hs

end Settled

/-! ### The runs of the code -/

/-- Custody before the build. -/
def before (handler : Option Ptr) : Custody Thing := ⟨boxes handler, [], []⟩

/-- Custody of what a `Server` owns. -/
def Server.custody (s : Server) : Custody Thing :=
  ⟨.server s.raw :: boxes s.handler, [], s.handler.toList.map fun box => (.server s.raw, .box box)⟩

theorem run_custodyOf (handler : Option Ptr) (evs : List Event) :
    (Custody.machine Thing).run (custodyOf handler evs) =
      (Custody.machine Thing).runFrom (before handler) (actsOf evs) := by
  cases handler <;> rfl

/-- An orderly run that leaves nothing. -/
def Settles (w : Custody Thing) (evs : List Event) : Prop :=
  ∃ v, (Custody.machine Thing).runFrom w (actsOf evs) = some v ∧ v.live = []

theorem settles_append {w u : Custody Thing} {evs more : List Event}
    (h : (Custody.machine Thing).runFrom w (actsOf evs) = some u) (hm : Settles u more) :
    Settles w (evs ++ more) := by
  obtain ⟨v, hv, hnil⟩ := hm
  refine ⟨v, ?_, hnil⟩
  rw [actsOf_append]
  exact (Custody.machine Thing).runFrom_append.mpr ⟨u, h, hv⟩

/-- Before its last release exactly that thing is there. -/
theorem settles_snoc {w : Custody Thing} {evs : List Event} {k : Thing}
    (h : Settles w (evs ++ [k.closing])) :
    ∃ v, (Custody.machine Thing).runFrom w (actsOf evs) = some v ∧ v.live = [k] := by
  obtain ⟨u, hu, hnil⟩ := h
  have hacts : actsOf (evs ++ [k.closing]) = actsOf evs ++ [.release k] := by
    rw [actsOf_append]
    cases k <;> rfl
  rw [hacts] at hu
  obtain ⟨v, hv, hlast⟩ := (Custody.machine Thing).runFrom_append.mp hu
  obtain ⟨u', hst, hrest⟩ := (Custody.machine Thing).runFrom_cons.mp hlast
  obtain rfl : u' = u := Option.some.inj hrest
  have hst : Custody.step v (.release k) = some u' := hst
  refine ⟨v, hv, ?_⟩
  cases Custody.does_of_step hst with
  | release hk _ =>
    have hlen := List.length_erase_of_mem hk
    have hnil : v.live.erase k = [] := hnil
    rw [hnil, List.length_nil] at hlen
    obtain ⟨j, hj⟩ := List.length_eq_one_iff.mp
      (Nat.le_antisymm (Nat.sub_eq_zero_iff_le.mp hlen.symm) (List.length_pos_of_mem hk))
    rw [hj] at hk ⊢
    rw [List.mem_singleton.mp hk]

/-- Only the acts of a list matter. -/
theorem settles_congr {w : Custody Thing} {evs more : List Event} (heq : actsOf more = actsOf evs)
    (h : Settles w evs) : Settles w more := by
  unfold Settles at h ⊢
  rwa [heq]

/-- Events that touch no handle may be left out. -/
theorem settles_cons {w : Custody Thing} {e : Event} {evs : List Event} (he : e.acts = [])
    (h : Settles w evs) : Settles w (e :: evs) := by
  refine settles_congr ?_ h
  rw [actsOf_cons, he, List.nil_append]

theorem tornDown_of_settles {handler : Option Ptr} {evs : List Event}
    (h : Settles (before handler) evs) : TornDown handler evs := by
  obtain ⟨v, hv, hnil⟩ := h
  exact tornDown_of_run ((run_custodyOf handler evs).trans hv) hnil

/-- What a build that succeeded hands over. -/
structure Handed (boxed : Option Ptr) (server : Server) (evs : List Event) : Prop where
  opened     : evs.filterMap Event.opens = [server.raw]
  handler    : server.handler = boxed
  registered : evs.filterMap Event.registers = boxed.toList.map fun box => (server.raw, box)
  run : (Custody.machine Thing).runFrom (before boxed) (actsOf evs) = some server.custody

/-- A build ends with nothing, or with what the `Server` owns. -/
def Hands (handler : Option Ptr) (r : Result Server × List Event) : Prop :=
  match r.1 with
  | .error _ => Settles (before handler) r.2
  | .ok server => Handed handler server r.2

/-- A thing may be closed once nothing that is there borrows it. -/
theorem settles_closing {w : Custody Thing} {k : Thing} {evs : List Event} (hk : k ∈ w.live)
    (hb : ∀ p ∈ w.borrows, p.2 = k → p.1 ∉ w.live)
    (h : Settles { w with live := w.live.erase k, gone := k :: w.gone } evs) :
    Settles w (k.closing :: evs) := by
  obtain ⟨v, hv, hnil⟩ := h
  refine ⟨v, ?_, hnil⟩
  have hacts : actsOf (k.closing :: evs) = .release k :: actsOf evs := by cases k <;> rfl
  rw [hacts]
  exact (Custody.machine Thing).runFrom_cons.mpr ⟨_, if_pos ⟨hk, hb⟩, hv⟩

theorem settles_nil {w : Custody Thing} (h : w.live = []) : Settles w [] := ⟨w, rfl, h⟩

theorem builder_drop_settles (b : ServerBuilder) : Settles (before b.handler) b.drop := by
  unfold ServerBuilder.drop before
  cases b.handler with
  | none => exact settles_nil rfl
  | some box =>
    refine settles_closing (k := .box box) ?_ ?_ (settles_nil ?_)
    · simp [boxes]
    · simp
    · simp [boxes]

/-- The drop of a `Server` settles when what else borrowed from it is gone. -/
theorem server_drop_settles (s : Server) {w : Custody Thing} (hl : w.live = s.custody.live)
    (hb : ∀ p ∈ w.borrows, p.1 ∈ w.live → p ∈ s.custody.borrows) : Settles w s.drop := by
  unfold Server.drop
  unfold Server.custody at hl hb
  cases hh : s.handler with
  | none =>
    rw [hh] at hl hb
    refine settles_closing (k := .server s.raw) (by simp [hl]) (fun p hp _ hlive => ?_)
      (settles_nil (by simp [hl, boxes]))
    exact absurd (hb p hp hlive) (by simp)
  | some box =>
    rw [hh] at hl hb
    have hone : ∀ p ∈ w.borrows, p.1 ∈ w.live → p = (.server s.raw, .box box) :=
      fun p hp hlive => by simpa using hb p hp hlive
    refine settles_closing (k := .server s.raw) (by simp [hl]) (fun p hp h2 hlive => ?_)
      (settles_closing (k := .box box) (by simp [hl, boxes]) (fun p hp _ hlive => ?_)
        (settles_nil (by simp [hl, boxes])))
    · rw [hone p hp hlive] at h2
      exact absurd h2 (by simp)
    · have hlive' : p.1 = .box box := by simpa [hl, boxes] using hlive
      rw [hone p hp (by simp [hl, boxes, hlive'])] at hlive'
      exact absurd hlive' (by simp)

theorem owned_drop_settles (s : Server) : Settles s.custody s.drop :=
  server_drop_settles s rfl fun _ hp _ => hp

theorem parked_acts (b : ServerBuilder) (raw : Ptr) :
    actsOf (b.maxParked.toList.map (.setMaxParked raw)) = [] := by
  cases b.maxParked <;> rfl

/-- The rest of a build, once the socket is bound. -/
theorem finishBuild_hands (b : ServerBuilder) (call : Listen) {rc : CInt} (hrc : 0 ≤ rc) (raw : Ptr)
    (a : Codes) : Hands b.handler
      ((b.finishBuild raw a).1, .listen call rc raw :: (b.finishBuild raw a).2) := by
  have hopen : (b.maxParked.toList.map (Event.setMaxParked raw)).filterMap Event.opens = [] := by
    cases b.maxParked <;> rfl
  have hreg : (b.maxParked.toList.map (Event.setMaxParked raw)).filterMap Event.registers = [] := by
    cases b.maxParked <;> rfl
  have hlisten : (Event.listen call rc raw).acts = [.acquire (.server raw)] := if_pos hrc
  unfold ServerBuilder.finishBuild
  cases hb : b.handler with
  | none =>
    constructor
    · simp [Event.opens, hrc, hopen]
    · rfl
    · rw [List.filterMap_cons_none rfl, hreg]
      rfl
    · rw [actsOf_cons, hlisten, parked_acts]
      rfl
  | some box =>
    cases hc : Error.check a.setHandler with
    | error e =>
      have hno : ¬ 0 ≤ a.setHandler := Error.neg_of_check hc
      refine ⟨⟨[], [.server raw, .box box], []⟩, ?_, rfl⟩
      rw [actsOf_cons, hlisten, actsOf_append, parked_acts]
      simp [actsOf, Event.acts, hno, before, boxes, Machine.runFrom, Custody.machine, Custody.step]
    | ok u =>
      have hyes : 0 ≤ a.setHandler := Error.check_eq_ok.mp hc
      constructor
      · simp [Event.opens, hrc, hopen]
      · rfl
      · rw [List.filterMap_cons_none rfl, List.filterMap_append, hreg]
        simp [Event.registers, hyes]
      · rw [actsOf_cons, hlisten, actsOf_append, parked_acts]
        simp [actsOf, Event.acts, hyes, before, boxes, Server.custody, Machine.runFrom,
          Custody.machine, Custody.step]

theorem bound_hands (b : ServerBuilder) (call : Listen) (a : Codes) :
    Hands b.handler (b.bound call a) := by
  unfold ServerBuilder.bound
  cases hc : Error.check a.listen.1 with
  | error e =>
    have hno : ¬ 0 ≤ a.listen.1 := Error.neg_of_check hc
    exact settles_cons (if_neg hno) (builder_drop_settles b)
  | ok u => exact finishBuild_hands b call (Error.check_eq_ok.mp hc) a.listen.2 a

theorem build_hands (b : ServerBuilder) (a : Codes) : Hands b.handler (b.build a) := by
  unfold ServerBuilder.build
  cases b.identity with
  | none => exact builder_drop_settles b
  | some kp =>
    cases b.bind with
    | none => exact builder_drop_settles b
    | some bind => exact bound_hands b _ a

/-- **A build that fails and panics** on its way out left the server it bound open, and nothing
else. -/
theorem buildPanics_leaves {b : ServerBuilder} {a : Codes} {o : Option Ptr} {evs : List Event}
    (h : b.buildPanics a = some (o, evs)) :
    ∃ v, (Custody.machine Thing).runFrom (before b.handler) (actsOf evs) = some v ∧
      v.live = o.toList.map .server := by
  have hhands := build_hands b a
  unfold ServerBuilder.buildPanics at h
  split at h
  · rename_i box e evs' hb hbuild
    rw [hbuild] at hhands
    have hhands : Settles (before b.handler) evs' := hhands
    split at h
    · rename_i raw hlast
      obtain ⟨rfl, rfl⟩ := Prod.mk.inj (Option.some.inj h)
      obtain ⟨pre, rfl⟩ := List.getLast?_eq_some_iff.mp hlast
      rw [List.dropLast_concat]
      exact settles_snoc (k := .server raw) hhands
    · obtain ⟨rfl, rfl⟩ := Prod.mk.inj (Option.some.inj h)
      exact hhands
  · exact absurd h (by simp)

theorem buildFromFd_hands (b : ServerBuilder) (fd : Nat) (shardId : Option Nat) (a : Codes) :
    Hands b.handler (b.buildFromFd fd shardId a) := by
  unfold ServerBuilder.buildFromFd
  cases b.identity with
  | none => exact builder_drop_settles b
  | some kp =>
    cases shardId with
    | none => exact bound_hands b _ a
    | some shard => exact bound_hands b _ a

/-! ### The owner thread -/

/-- Custody of a `Server` and a dht attached to it. -/
def Server.withDht (s : Server) (dht : Ptr) : Custody Thing :=
  ⟨.dht dht :: s.custody.live, [], (.dht dht, .server s.raw) :: s.custody.borrows⟩

/-- What the thread owns while it listens. -/
def Server.frame (s : Server) : Option Ptr → Custody Thing
  | none => s.custody
  | some dht => s.withDht dht

/-- The dht was declared after the server, so it is closed first. -/
theorem withDht_settles (s : Server) (dht : Ptr) :
    Settles (s.withDht dht) (.closeDht dht :: s.drop) := by
  have hfree : Thing.dht dht ∉ s.custody.live := by
    cases hh : s.handler <;> simp [Server.custody, boxes, hh]
  refine settles_closing (k := .dht dht) List.mem_cons_self (fun p hp h2 => ?_)
    (server_drop_settles s (by simp [Server.withDht]) fun p hp hlive => ?_)
  · -- nothing borrows a dht
    cases hh : s.handler <;> simp [Server.withDht, Server.custody, hh] at hp
    · rw [hp] at h2
      exact absurd h2 (by simp)
    · rcases hp with rfl | rfl <;> exact absurd h2 (by simp)
  · rcases List.mem_cons.mp hp with rfl | hp
    · exact absurd (by simpa [Server.withDht] using hlive) hfree
    · exact hp

theorem leave_settles (s : Server) (dht : Option Ptr) :
    Settles (s.frame dht) (leave [s.drop, dht.toList.map .closeDht]) := by
  cases dht with
  | none => simpa [leave, Server.frame] using owned_drop_settles s
  | some d => simpa [leave, Server.frame] using withDht_settles s d

theorem listening_settles (s : Server) (dht : Option Ptr) (announce : Option Address) (a : Codes)
    (gone : Bool) : Settles (s.frame dht) (listening s dht announce a gone) := by
  have hout := leave_settles s dht
  unfold listening
  cases Error.check a.nodeId with
  | error e => exact settles_cons rfl (settles_cons rfl hout)
  | ok u =>
    cases gone with
    | true => exact settles_cons rfl (settles_cons rfl hout)
    | false => exact settles_cons rfl (settles_cons rfl (settles_cons rfl hout))

/-- An attach ends with a dht, or with what the `Server` owned before. -/
def Attaches (s : Server) (r : Result Ptr × List Event) : Prop :=
  match r.1 with
  | .error _ => Settles s.custody (r.2 ++ s.drop)
  | .ok dht => (Custody.machine Thing).runFrom s.custody (actsOf r.2) = some (s.withDht dht)

theorem attach_attaches (s : Server) (contacts : List Bootstrap) (seq : Nat) (a : Codes) :
    Attaches s (attach s contacts seq a) := by
  unfold attach
  by_cases hcon : contacts = []
  · rw [if_pos hcon]
    exact owned_drop_settles s
  · rw [if_neg hcon]
    cases hc : Error.check a.attach.1 with
    | error e =>
      have hno : ¬ 0 ≤ a.attach.1 := Error.neg_of_check hc
      exact settles_cons (if_neg hno) (owned_drop_settles s)
    | ok u =>
      have hyes : 0 ≤ a.attach.1 := Error.check_eq_ok.mp hc
      have hfree : Thing.dht a.attach.2 ∉ boxes s.handler := by
        cases s.handler <;> simp [boxes]
      simp [Attaches, actsOf, Event.acts, hyes, Server.withDht, Server.custody, hfree,
        Machine.runFrom, Custody.machine, Custody.step]

theorem attachManagedDht_attaches (s : Server) (contacts : List Bootstrap) (seq secs : Nat)
    (a : Codes) : Attaches s (attachManagedDht s contacts seq secs a) := by
  have hatt := attach_attaches s contacts seq a
  unfold attachManagedDht
  generalize attach s contacts seq a = r at hatt ⊢
  obtain ⟨r, evs⟩ := r
  cases r with
  | error e => exact hatt
  | ok dht =>
    cases Error.check a.join with
    | error e =>
      have hout := settles_cons (e := .join dht secs a.join) rfl (withDht_settles s dht)
      simpa [Attaches] using settles_append hatt hout
    | ok u =>
      have hjoin : actsOf (evs ++ [.join dht secs a.join]) = actsOf evs := by
        rw [actsOf_append]
        exact List.append_nil _
      exact (congrArg _ hjoin).trans hatt

theorem takeManagedDht_handler (b : ServerBuilder) : b.takeManagedDht.2.handler = b.handler := by
  unfold ServerBuilder.takeManagedDht
  split <;> rfl

/-- **The owner thread leaves nothing**, whichever way it ends. -/
theorem thread_settles (b : ServerBuilder) (a : Codes) (secs : Nat) (gone : Bool) :
    Settles (before b.handler) (b.thread a secs gone) := by
  have hkept := takeManagedDht_handler b
  unfold ServerBuilder.thread
  generalize b.takeManagedDht = taken at hkept ⊢
  obtain ⟨dhtCfg, b'⟩ := taken
  have hbuild := build_hands b' a
  rw [← hkept]
  simp only
  generalize b'.build a = built at hbuild ⊢
  obtain ⟨r, evs⟩ := built
  cases r with
  | error e =>
    obtain ⟨v, hv, hnil⟩ := hbuild
    exact settles_append hv ⟨v, rfl, hnil⟩
  | ok server =>
    have hrun := Handed.run hbuild
    cases dhtCfg with
    | none => exact settles_append hrun (listening_settles server none none a gone)
    | some cfg =>
      obtain ⟨contacts, announce, seq⟩ := cfg
      have hatt := attachManagedDht_attaches server contacts seq secs a
      simp only
      generalize attachManagedDht server contacts seq secs a = attached at hatt ⊢
      obtain ⟨r, dhtEvs⟩ := attached
      cases r with
      | error e =>
        simp only [List.append_assoc]
        refine settles_append hrun (settles_congr ?_ hatt)
        simp [leave, actsOf_append, actsOf_cons, Event.acts]
      | ok dht =>
        simp only [List.append_assoc]
        exact settles_append hrun
          (settles_append hatt (listening_settles server (some dht) announce a gone))

/-! ## The theorem -/

/-- What a `Server` closes and frees is still in its custody. -/
theorem drop_closing {s : Server} {e : Event} (he : e ∈ s.drop) :
    ∃ k ∈ s.custody.live, e = k.closing := by
  unfold Server.drop at he
  rcases List.mem_cons.mp he with rfl | he
  · exact ⟨.server s.raw, List.mem_cons_self, rfl⟩
  · obtain ⟨box, hbox, rfl⟩ := List.mem_map.mp he
    exact ⟨.box box, List.mem_cons_of_mem _ (List.mem_map_of_mem hbox), rfl⟩

theorem owned_of_handed {boxed : Option Ptr} {server : Server} {evs : List Event}
    (h : Handed boxed server evs) : Owned boxed server evs := by
  constructor
  · exact h.opened
  · exact h.handler
  · exact h.registered
  · intro e he
    obtain ⟨k, hk, rfl⟩ := drop_closing he
    have hrun := (run_custodyOf boxed evs).trans h.run
    have hzero := (Custody.released_of_live hrun hk).1
    rw [count_release_custodyOf] at hzero
    exact List.count_eq_zero.mp hzero
  · exact tornDown_of_settles (settles_append h.run (owned_drop_settles server))

theorem buildOwns_of_hands {handler : Option Ptr} {r : Result Server × List Event}
    (h : Hands handler r) : BuildOwns handler r := by
  obtain ⟨r, evs⟩ := r
  cases r with
  | error e => exact tornDown_of_settles h
  | ok server => exact owned_of_handed h

/-- **Teardown order**, for every builder and all answers of the C calls: a build that fails and
every way out of the owner thread close everything once and in order, and a build that succeeds
leaves everything to its `Server`. -/
theorem teardown_order (b : ServerBuilder) (a : Codes) :
    BuildOwns b.handler (b.build a) ∧
    (∀ fd shardId, BuildOwns b.handler (b.buildFromFd fd shardId a)) ∧
    ∀ secs gone, TornDown b.handler (b.thread a secs gone) :=
  ⟨buildOwns_of_hands (build_hands b a),
    fun fd shardId => buildOwns_of_hands (buildFromFd_hands b fd shardId a),
    fun secs gone => tornDown_of_settles (thread_settles b a secs gone)⟩

end Nwep.Teardown
