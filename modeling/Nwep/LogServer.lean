import Mathlib.Data.List.Basic
import Nwep.Lib.Heap
import Nwep.Lib.Machine
import Nwep.Server.Responder

/-!
# The log server handle

Model of `LogServer` (`nwep/src/logserver.rs` 76-155): every operation is the list of calls it
makes, C calls on the handle, allocations and frees of hook boxes, the trampoline's use of one, and
the free of the `Log`. `cside` is what these calls do: whether the handle is alive, which hook
pointer it has registered, and the heap of boxes.

`Drop` frees the handle first and then runs `clear_hook`, which unregisters the hook on the handle
it just freed.

Results:
* `lifetime_run`: what every lifetime keeps, hook or no hook;
* `fires_live`: the trampoline never runs on a freed box;
* **`protocol_iff`**: a lifetime keeps the handle protocol exactly when no hook is installed when
  the server is dropped.
-/

namespace Nwep.LogServer

open Nwep.Lib Nwep.Server

/-- A hook box. -/
abbrev BoxId := Nat

/-- The calls of a lifetime, in the order they are made. -/
inductive Call
  | setOnAppend (hook : Option BoxId)
  | dispatch (connId : Nat) (msg buf : Ptr) (nowSecs : Int)
  | serverFree
  | boxNew
  | fire (hook : BoxId) (entry : Bytes) (index : Nat)
  | boxFree (hook : BoxId)
  | logFree
  deriving DecidableEq

/-- The call passes the handle to a `nwep_log_server_*` function. -/
def Call.UsesHandle : Call → Prop
  | .setOnAppend _ => True
  | .dispatch .. => True
  | .serverFree => True
  | _ => False

/-- What the calls act on. -/
structure World where
  alive      : Bool
  registered : Option BoxId
  heap       : Heap
  logFreed   : Bool

/-- What one call does. -/
def World.exec (w : World) : Call → World
  | .setOnAppend hook => { w with registered := hook }
  | .dispatch .. => w
  | .serverFree => { w with alive := false }
  | .boxNew => { w with heap := w.heap.alloc }
  | .fire .. => w
  | .boxFree b => { w with heap := w.heap.free b }
  | .logFree => { w with logFreed := true }

/-- The calls as a machine, from the handle `LogServer::new` got. -/
def cside : Machine World Call where
  init := ⟨true, none, Heap.empty, false⟩
  step w c := some (w.exec c)

/-- `LogServer`: its hook, the calls made for it so far with what they led to, and whether it was
dropped. -/
structure State where
  hook    : Option BoxId
  calls   : List Call
  world   : World
  dropped : Bool

def init : State := ⟨none, [], cside.init, false⟩

/-- Calls are made in turn. -/
def State.make (s : State) (cs : List Call) : State :=
  { s with calls := s.calls ++ cs, world := cs.foldl World.exec s.world }

/-- `LogServer::clear_hook`. -/
def clearHook (s : State) : State :=
  match s.hook with
  | some b => { s with hook := none }.make [.setOnAppend none, .boxFree b]
  | none => s

/-- `LogServer::on_append`. The destructor of the replaced hook's captures may panic: the box is
freed all the same and the call ends there. -/
def onAppend (s : State) (panics : Bool) : State :=
  let t := clearHook s
  if panics = true ∧ s.hook ≠ none then t
  else
    let b := t.world.heap.next
    { t with hook := some b }.make [.boxNew, .setOnAppend (some b)]

/-- The append callback, when one is registered, with each accepted entry. -/
def fires (w : World) (entries : List (Bytes × Nat)) : List Call :=
  match w.registered with
  | some b => entries.map fun e => .fire b e.1 e.2
  | none => []

/-- `LogServer::dispatch`: the C side accepts `entries` inside the call. -/
def dispatch (s : State) (req : Request) (res : Responder) (nowSecs : Int)
    (entries : List (Bytes × Nat)) : State :=
  s.make (.dispatch req.connId req.msg res.buf nowSecs :: fires s.world entries)

/-- `DispatchOutcome`. -/
inductive DispatchOutcome
  | handled (reply : Terminal)
  | notMine (res : Responder)

/-- What `LogServer::dispatch` returns when the C call answers `rc`. -/
def dispatchOutcome (res : Responder) (rc : CInt) : DispatchOutcome :=
  if rc = 1 then .notMine res else .handled (res.finish rc)

/-- `LogServer::drop`, and then its fields: the `Log` is the only one with a destructor. -/
def drop (s : State) : State :=
  { (clearHook (s.make [.serverFree])).make [.logFree] with dropped := true }

/-- The operations of a lifetime. -/
inductive Act
  | onAppend (panics : Bool)
  | dispatch (req : Request) (res : Responder) (nowSecs : Int) (entries : List (Bytes × Nat))
  | drop

def step (s : State) (a : Act) : Option State :=
  if s.dropped then none
  else
    match a with
    | .onAppend panics => some (onAppend s panics)
    | .dispatch req res nowSecs entries => some (dispatch s req res nowSecs entries)
    | .drop => some (drop s)

/-- The lifetimes of a log server. -/
def machine : Machine State Act := ⟨init, step⟩

/-! ## The protocol -/

/-- The handle is alive when it is used. -/
def HandleAlive (w : World) (c : Call) : Prop := c.UsesHandle → w.alive = true

/-- The `Log` is freed after the server. -/
def LogLast (w : World) (c : Call) : Prop := c = .logFree → w.alive = false

/-- The trampoline runs on a box that is live. -/
def FiresLive (w : World) (c : Call) : Prop := ∀ b e i, c = .fire b e i → w.heap.Live b

/-- While the handle is alive, what it has registered is a live box. -/
def NoDangling (w : World) : Prop := w.alive = true → ∀ b, w.registered = some b → w.heap.Live b

/-- What `drop` composes: no call on a freed handle, no dangling hook, the log last, and in the end
every box freed exactly once. -/
structure Protocol (s : State) : Prop where
  handle   : cside.Guarded HandleAlive cside.init s.calls
  dangling : cside.Throughout NoDangling cside.init s.calls
  once     : s.dropped = true → s.world.heap.Clean
  log      : cside.Guarded LogLast cside.init s.calls

/-! ## The calls so far -/

/-- What every sequence of calls keeps, hook or no hook: `w` is where they lead. -/
structure Sound (calls : List Call) (w : World) : Prop where
  world    : cside.run calls = some w
  dangling : cside.Throughout NoDangling cside.init calls
  log      : cside.Guarded LogLast cside.init calls
  runsLive : cside.Guarded FiresLive cside.init calls

/-- On a handle that is alive every call is allowed. -/
theorem handle_snoc {calls : List Call} {w : World} (h : cside.run calls = some w)
    (hh : cside.Guarded HandleAlive cside.init calls) (ha : w.alive = true) (c : Call) :
    cside.Guarded HandleAlive cside.init (calls ++ [c]) :=
  (cside.guarded_snoc h).mpr ⟨hh, fun _ => ha⟩

/-- One more call. -/
theorem Sound.snoc {calls : List Call} {w : World} (h : Sound calls w) (c : Call)
    (hd : NoDangling (w.exec c)) (hl : LogLast w c) (hf : FiresLive w c) :
    Sound (calls ++ [c]) (w.exec c) where
  world := cside.run_snoc.mpr ⟨w, h.world, rfl⟩
  dangling := by
    rw [cside.throughout_append h.world]
    refine ⟨h.dangling, cside.throughout_last h.world h.dangling, ?_⟩
    rintro t ht
    obtain rfl := Option.some.inj ht
    exact hd
  log := (cside.guarded_snoc h.world).mpr ⟨h.log, hl⟩
  runsLive := (cside.guarded_snoc h.world).mpr ⟨h.runsLive, hf⟩

/-- A call that is neither the free of the log nor a run of a hook. -/
def Call.Plain : Call → Prop
  | .logFree => False
  | .fire .. => False
  | _ => True

theorem Sound.plain {calls : List Call} {w : World} (h : Sound calls w) {c : Call} (hc : c.Plain)
    (hd : NoDangling (w.exec c)) : Sound (calls ++ [c]) (w.exec c) :=
  h.snoc c hd (fun heq => (heq ▸ hc : Call.Plain .logFree).elim)
    fun b e i heq => (heq ▸ hc : Call.Plain (.fire b e i)).elim

theorem fires_mem {w : World} {entries : List (Bytes × Nat)} {c : Call}
    (hc : c ∈ fires w entries) : ∃ b e i, w.registered = some b ∧ c = .fire b e i := by
  unfold fires at hc
  split at hc
  · rename_i b hb
    obtain ⟨e, -, rfl⟩ := List.mem_map.mp hc
    exact ⟨b, e.1, e.2, hb, rfl⟩
  · exact absurd hc List.not_mem_nil

theorem fires_stay (w : World) (entries : List (Bytes × Nat)) :
    ∀ c ∈ fires w entries, cside.step w c = some w := by
  intro c hc
  obtain ⟨b, e, i, -, rfl⟩ := fires_mem hc
  rfl

theorem fires_world (w : World) (entries : List (Bytes × Nat)) :
    (fires w entries).foldl World.exec w = w := by
  unfold fires
  split
  · rw [List.foldl_map]
    exact List.foldl_fixed' (fun _ => rfl) entries
  · rfl

/-- Running the registered hook, while the handle is alive. -/
theorem Sound.run_hook {calls : List Call} {w : World} (h : Sound calls w) (ha : w.alive = true)
    (entries : List (Bytes × Nat)) : Sound (calls ++ fires w entries) w := by
  have hw : NoDangling w := cside.throughout_last h.world h.dangling
  have hstay := fires_stay w entries
  refine ⟨cside.run_append.mpr ⟨w, h.world, cside.runFrom_stay hstay⟩, ?_, ?_, ?_⟩
  · exact (cside.throughout_append h.world).mpr ⟨h.dangling, cside.throughout_stay hstay hw⟩
  · refine (cside.guarded_append h.world).mpr ⟨h.log, cside.guarded_stay hstay fun c hc heq => ?_⟩
    obtain ⟨b, e, i, -, rfl⟩ := fires_mem hc
    exact absurd heq (by simp)
  · refine (cside.guarded_append h.world).mpr ⟨h.runsLive, cside.guarded_stay hstay ?_⟩
    intro c hc b e i heq
    obtain ⟨b', e', i', hb, rfl⟩ := fires_mem hc
    obtain ⟨rfl, -, -⟩ := Call.fire.inj heq
    exact hw ha b' hb

/-- Running a hook passes the handle to nothing. -/
theorem fires_handle {calls : List Call} {w : World} (h : cside.run calls = some w)
    (hh : cside.Guarded HandleAlive cside.init calls) (entries : List (Bytes × Nat)) :
    cside.Guarded HandleAlive cside.init (calls ++ fires w entries) := by
  refine (cside.guarded_append h).mpr ⟨hh, cside.guarded_stay (fires_stay w entries) ?_⟩
  intro c hc hu
  obtain ⟨b, e, i, -, rfl⟩ := fires_mem hc
  exact hu.elim

/-! ## The operations -/

/-- What holds of a log server whose calls so far are sound: its hook is the one box it owns. -/
structure Keeps (s : State) : Prop where
  sound : Sound s.calls s.world
  owned : s.world.heap.Owned fun b => s.hook = some b

/-- A log server in use. -/
structure Inv (s : State) : Prop extends Keeps s where
  handle     : cside.Guarded HandleAlive cside.init s.calls
  alive      : s.world.alive = true
  registered : s.world.registered = s.hook

theorem inv_init : Inv init where
  sound :=
    { world := rfl
      dangling := fun _ _ hb => absurd hb (by simp [cside])
      log := trivial
      runsLive := trivial }
  owned := Heap.Owned.empty.congr fun b => by simp [init]
  handle := trivial
  alive := rfl
  registered := rfl

theorem clearHook_none {s : State} (h : s.hook = none) : clearHook s = s := by
  simp only [clearHook, h]

theorem clearHook_some {s : State} {b : BoxId} (h : s.hook = some b) :
    clearHook s = { s with hook := none }.make [.setOnAppend none, .boxFree b] := by
  simp only [clearHook, h]

theorem clearHook_hook (s : State) : (clearHook s).hook = none := by
  cases h : s.hook with
  | none => rw [clearHook_none h, h]
  | some b => rw [clearHook_some h]; rfl

/-- Clearing the hook is sound on a handle that is alive and on one that is not. -/
theorem Keeps.clearHook {s : State} (h : Keeps s) : Keeps (clearHook s) := by
  cases hh : s.hook with
  | none => rwa [clearHook_none hh]
  | some b =>
    rw [clearHook_some hh]
    have hunset : ∀ w : World, w.registered = none → NoDangling w := by
      intro w hw _ c hc
      exact absurd (hw.symm.trans hc) (by simp)
    have h1 := h.sound.plain (c := .setOnAppend none) trivial (hunset _ rfl)
    have h2 := h1.plain (c := .boxFree b) trivial (hunset _ rfl)
    rw [List.append_assoc] at h2
    have ho := h.owned
    rw [hh] at ho
    exact ⟨h2, ho.free_slot⟩

/-- Clearing the hook neither frees the handle nor drops the server. -/
theorem clearHook_frame (s : State) :
    (clearHook s).world.alive = s.world.alive ∧ (clearHook s).dropped = s.dropped := by
  cases h : s.hook with
  | none => rw [clearHook_none h]; exact ⟨rfl, rfl⟩
  | some b => rw [clearHook_some h]; exact ⟨rfl, rfl⟩

/-- Clearing a hook uses the handle. -/
theorem clearHook_handle {s : State} (h : Keeps s)
    (hh : cside.Guarded HandleAlive cside.init s.calls) :
    cside.Guarded HandleAlive cside.init (clearHook s).calls ↔
      (s.world.alive = true ∨ s.hook = none) := by
  cases hb : s.hook with
  | none =>
    rw [clearHook_none hb]
    exact ⟨fun _ => Or.inr rfl, fun _ => hh⟩
  | some b =>
    have h1 : cside.run (s.calls ++ [.setOnAppend none]) =
        some (s.world.exec (.setOnAppend none)) :=
      cside.run_snoc.mpr ⟨s.world, h.sound.world, rfl⟩
    have hcalls : (LogServer.clearHook s).calls =
        (s.calls ++ [.setOnAppend none]) ++ [.boxFree b] := by
      rw [clearHook_some hb, List.append_assoc]
      rfl
    rw [hcalls, cside.guarded_snoc h1, cside.guarded_snoc h.sound.world]
    constructor
    · rintro ⟨⟨-, ha⟩, -⟩
      exact Or.inl (ha trivial)
    · rintro (ha | hn)
      · exact ⟨⟨hh, fun _ => ha⟩, fun hu => hu.elim⟩
      · exact absurd hn (by simp)

theorem Inv.clearHook {s : State} (h : Inv s) : Inv (clearHook s) where
  toKeeps := h.toKeeps.clearHook
  handle := (clearHook_handle h.toKeeps h.handle).mpr (Or.inl h.alive)
  alive := (clearHook_frame s).1.trans h.alive
  registered := by
    cases hh : s.hook with
    | none => rw [clearHook_none hh, h.registered]
    | some b => rw [clearHook_some hh]; rfl

/-- Registering a new box. -/
theorem Inv.install {s : State} (h : Inv s) (hn : s.hook = none) :
    Inv ({ s with hook := some s.world.heap.next }.make
      [.boxNew, .setOnAppend (some s.world.heap.next)]) := by
  have hreg : s.world.registered = none := h.registered.trans hn
  have h1 := h.sound.plain (c := .boxNew) trivial
    fun _ b hb => absurd (hreg.symm.trans hb) (by simp)
  have h2 := h1.plain (c := .setOnAppend (some s.world.heap.next)) trivial fun _ b hb => by
    obtain rfl := Option.some.inj hb
    exact h.owned.next_live
  have hg1 := handle_snoc h.sound.world h.handle h.alive .boxNew
  have hg2 := handle_snoc h1.world hg1 h.alive (.setOnAppend (some s.world.heap.next))
  rw [List.append_assoc] at h2 hg2
  have ho := h.owned
  rw [hn] at ho
  exact ⟨⟨h2, ho.alloc_slot⟩, hg2, h.alive, rfl⟩

theorem onAppend_dropped (s : State) (panics : Bool) : (onAppend s panics).dropped = s.dropped := by
  unfold onAppend
  simp only
  split
  · exact (clearHook_frame s).2
  · exact (clearHook_frame s).2

theorem Inv.onAppend {s : State} (h : Inv s) (panics : Bool) : Inv (onAppend s panics) := by
  unfold LogServer.onAppend
  simp only
  split
  · exact h.clearHook
  · exact h.clearHook.install (clearHook_hook s)

theorem Inv.dispatch {s : State} (h : Inv s) (req : Request) (res : Responder) (nowSecs : Int)
    (entries : List (Bytes × Nat)) : Inv (dispatch s req res nowSecs entries) := by
  have hw : NoDangling s.world := cside.throughout_last h.sound.world h.sound.dangling
  have h1 := h.sound.plain (c := .dispatch req.connId req.msg res.buf nowSecs) trivial hw
  have hg1 := handle_snoc h.sound.world h.handle h.alive
    (.dispatch req.connId req.msg res.buf nowSecs)
  have h2 := h1.run_hook h.alive entries
  have hg2 := fires_handle h1.world hg1 entries
  rw [List.append_assoc] at h2 hg2
  have hworld : (LogServer.dispatch s req res nowSecs entries).world = s.world :=
    fires_world s.world entries
  exact
    { sound := hworld ▸ h2
      owned := hworld ▸ h.owned
      handle := hg2
      alive := hworld ▸ h.alive
      registered := hworld ▸ h.registered }

/-- What dropping does: all but the handle protocol holds, and that when there is no hook. -/
theorem Inv.drop {s : State} (h : Inv s) :
    Keeps (drop s) ∧ (LogServer.drop s).hook = none ∧
      (cside.Guarded HandleAlive cside.init (LogServer.drop s).calls ↔ s.hook = none) := by
  have hfreed : Keeps (s.make [.serverFree]) :=
    ⟨h.sound.plain (c := .serverFree) trivial fun ha => absurd ha (by simp [World.exec]), h.owned⟩
  have hg := handle_snoc h.sound.world h.handle h.alive .serverFree
  have hdead : (LogServer.clearHook (s.make [.serverFree])).world.alive = false :=
    (clearHook_frame _).1
  have hc := hfreed.clearHook
  refine ⟨⟨?_, hc.owned⟩, clearHook_hook _, ?_⟩
  · refine hc.sound.snoc .logFree (fun ha => ?_) (fun _ => hdead) fun _ _ _ heq => ?_
    · exact absurd (hdead.symm.trans ha) (by simp)
    · exact absurd heq (by simp)
  · have hlast : HandleAlive (LogServer.clearHook (s.make [.serverFree])).world .logFree :=
      fun hu => hu.elim
    refine (cside.guarded_snoc hc.sound.world).trans ((and_iff_left hlast).trans ?_)
    refine (clearHook_handle hfreed hg).trans (or_iff_right ?_)
    simp [State.make, World.exec]

/-! ## Whole lifetimes -/

theorem step_inv {s t : State} {a : Act} (h : step s a = some t) :
    s.dropped = false ∧
      ((∃ panics, a = .onAppend panics ∧ t = onAppend s panics) ∨
        (∃ req res nowSecs entries, a = .dispatch req res nowSecs entries ∧
          t = dispatch s req res nowSecs entries) ∨
        (a = .drop ∧ t = drop s)) := by
  unfold step at h
  split at h
  · exact absurd h (by simp)
  · rename_i hd
    refine ⟨Bool.eq_false_iff.mpr hd, ?_⟩
    cases a with
    | onAppend panics => exact Or.inl ⟨panics, rfl, (Option.some.inj h).symm⟩
    | dispatch req res nowSecs entries =>
      exact Or.inr (Or.inl ⟨req, res, nowSecs, entries, rfl, (Option.some.inj h).symm⟩)
    | drop => exact Or.inr (Or.inr ⟨rfl, (Option.some.inj h).symm⟩)

/-- No hook is installed when the server is dropped. -/
def DropsBare (s : State) (a : Act) : Prop := a = .drop → s.hook = none

instance (s : State) (a : Act) : Decidable (DropsBare s a) :=
  match a with
  | .drop => decidable_of_iff (s.hook = none) (by simp [DropsBare])
  | .onAppend _ | .dispatch _ _ _ _ => isTrue fun h => absurd h (by simp)

/-- What a lifetime has kept so far, and what its handle calls say about its drop. -/
structure Lifetime (acts : List Act) (s : State) : Prop where
  keeps  : Keeps s
  inUse  : s.dropped = false → Inv s
  ended  : s.dropped = true → s.hook = none
  handle : cside.Guarded HandleAlive cside.init s.calls ↔
    machine.Guarded DropsBare machine.init acts

/-- A step of a log server that stays in use. -/
theorem Lifetime.use {acts : List Act} {s t : State} {a : Act} (h : Lifetime acts s)
    (hr : machine.run acts = some s) (hd : s.dropped = false) (ha : a ≠ .drop)
    (hdt : t.dropped = false) (ht : Inv t) : Lifetime (acts ++ [a]) t where
  keeps := ht.toKeeps
  inUse _ := ht
  ended htd := absurd (htd.symm.trans hdt) (by simp)
  handle := by
    rw [machine.guarded_snoc hr, ← h.handle]
    exact ⟨fun _ => ⟨(h.inUse hd).handle, fun hdrop => absurd hdrop ha⟩, fun _ => ht.handle⟩

theorem lifetime_run {acts : List Act} {s : State} (h : machine.run acts = some s) :
    Lifetime acts s := by
  refine machine.run_induction (P := Lifetime) ?_ ?_ h
  · exact ⟨inv_init.toKeeps, fun _ => inv_init, fun _ => rfl, Iff.rfl⟩
  · intro acts s a t hr hl hst
    have hstep : step s a = some t := hst
    obtain ⟨hd, hcases⟩ := step_inv hstep
    have hi := hl.inUse hd
    rcases hcases with ⟨panics, rfl, rfl⟩ | ⟨req, res, nowSecs, entries, rfl, rfl⟩ | ⟨rfl, rfl⟩
    · exact hl.use hr hd (by simp) ((onAppend_dropped s panics).trans hd) (hi.onAppend panics)
    · exact hl.use hr hd (by simp) hd (hi.dispatch req res nowSecs entries)
    · obtain ⟨hk, hn, hiff⟩ := hi.drop
      refine ⟨hk, fun hf => absurd hf (by simp [LogServer.drop]), fun _ => hn, hiff.trans ?_⟩
      rw [machine.guarded_snoc hr, ← hl.handle]
      exact ⟨fun hs => ⟨hi.handle, fun _ => hs⟩, fun hg => hg.2 rfl⟩

/-- The trampoline never runs on a freed box. -/
theorem fires_live {acts : List Act} {s : State} (h : machine.run acts = some s) :
    cside.Guarded FiresLive cside.init s.calls :=
  (lifetime_run h).keeps.sound.runsLive

/-- **The handle protocol** holds in exactly the lifetimes that end, if they end, without a hook. -/
theorem protocol_iff {acts : List Act} {s : State} (h : machine.run acts = some s) :
    Protocol s ↔ machine.Guarded DropsBare machine.init acts := by
  have hl := lifetime_run h
  constructor
  · exact fun hp => hl.handle.mp hp.handle
  · intro hg
    refine ⟨hl.handle.mpr hg, hl.keeps.sound.dangling, fun hd => ?_, hl.keeps.sound.log⟩
    refine hl.keeps.owned.clean fun b hb => ?_
    exact absurd ((hl.ended hd).symm.trans hb) (by simp)

/-- A hook is replaced by one whose captures' destructor panics, and the server is dropped. -/
def bareRun : List Act :=
  [.onAppend false, .dispatch ⟨7, 1, 2, 0⟩ ⟨5, 0, 1, 2, 0, []⟩ 100 [([1, 2], 0), ([3], 1)],
   .onAppend true, .drop]

theorem protocol_iff_bareRun :
    ∃ s, machine.run bareRun = some s ∧ s.calls.length = 9 ∧ s.dropped = true ∧ Protocol s := by
  have h : machine.run bareRun = some _ := rfl
  exact ⟨_, h, rfl, rfl, (protocol_iff h).mpr (by decide)⟩

/-- A hook, and the drop. -/
def hookedRun : List Act := [.onAppend false, .drop]

/-- **`Drop` with a hook installed** unregisters it on the handle it has just freed. -/
theorem freed_handle_used :
    ∃ s, machine.run hookedRun = some s ∧
      s.calls = [.boxNew, .setOnAppend (some 0), .serverFree, .setOnAppend none, .boxFree 0,
        .logFree] ∧ ¬ Protocol s := by
  refine ⟨_, rfl, rfl, fun hp => ?_⟩
  have hg := hp.handle
  exact absurd (hg.2 _ rfl |>.2 _ rfl |>.2 _ rfl |>.1 trivial) (by decide)

end Nwep.LogServer
