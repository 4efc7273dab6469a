import Nwep.Runtime.Serve
import Nwep.Server.Teardown

/-!
# The handles of the managed server

The owner thread of `ServerBuilder::serve` (`nwep/src/runtime.rs` 156-225) with its handles, while the
caller and whoever holds the `RunningServer` move. `ServerBuilder.thread` of `Nwep.Teardown` is what
the thread does with them on its own; here each step of `Serve` adds its part.

* A label is one of `Serve`, with what the C calls of the set-up answer. A panic may come before any
  of them, in `attach_managed_dht` before the join, at `now_secs()`, and in a `build` that fails, where
  it drops the handler's captures (`panicDrop`): `finish_build` closes the server it bound only after
  that (`nwep/src/server.rs` 807-815).
* `leave` is the thread leaving its frame once `run_server_loop` returned or panicked, `join` the end
  of the join in `RunningServer::shutdown` (124-133).
* Before the thread takes it the builder belongs to the future, and a spawn that fails drops it.

Results:
* `keeps_step`: a step keeps custody of the handles in agreement with the place of the thread;
* `ahead_step`: it is the next part of `ServerBuilder.thread`;
* **`handles_closed_once`**: whoever leaves when, everything is closed once and in order before the
  caller is told an error and before `shutdown` returns, and nothing while the loop runs. A panic of
  `finish_build`'s unwind leaves the server open.
-/

namespace Nwep.Runtime.ServerHandles

open Nwep.Lib Nwep.Server Nwep.Teardown

structure State where
  serve  : Serve.State
  server : Option Teardown.Server
  dht    : Option Ptr
  events : List Event
  leaked : Option Ptr   -- what nothing closes any more
  left   : Bool   -- the thread left its frame after the loop
  shut   : Bool   -- `shutdown` returned

inductive Act
  | build (a : Codes)
  | panicDrop (a : Codes)
  | attach (secs : Nat) (a : Codes)
  | panicJoin (a : Codes)
  | nodeId (rc : CInt)
  | other (a : Serve.Act)
  | leave
  | join

/-- The label is not one of the set-up calls. -/
def ofOthers : Serve.Act → Bool
  | .build _ => false
  | .attach _ => false
  | .nodeId _ => false
  | _ => true

/-- The loop is over. -/
def loopOver (ls : ServerLoop.State) : Bool := ls.pc = .returned || ls.pc = .panicked

section Machine

variable (b : ServerBuilder) (checks : Bool)

/-- What `serve` makes of the builder. -/
def config : ServerLoop.Config :=
  match b.takeManagedDht.1 with
  | some (_, announce, _) => ⟨true, announce, checks⟩
  | none => ⟨false, none, checks⟩

/-- The destructors of `server` and `dht`. -/
def State.frame (s : State) : List Event :=
  leave [s.server.toList.flatMap Teardown.Server.drop, s.dht.toList.map .closeDht]

/-- What a step of the others does with the handles. -/
def handling (s : State) : Serve.Act → List Event
  | .spawnFails => b.drop
  | .dropFuture => if s.serve.future = .created then b.drop else []
  | .panic =>
    match s.serve.owner with
    | .build => b.drop
    | _ => s.frame
  | .sendReady =>
    if s.serve.future = .waiting then
      .ready (.ok ()) ::
        s.server.toList.map fun server => .serverLoop server.raw s.dht (config b checks).announce
    else .ready (.ok ()) :: s.frame
  | _ => []

/-- One step of one party. -/
def step (s : State) : Act → Option State
  | .build a =>
    match b.takeManagedDht.2.build a with
    | (.error e, evs) =>
      (Serve.step (config b checks) s.serve (.build (.error e))).map fun v =>
        { s with serve := v, events := s.events ++ (evs ++ [.ready (.error e)]) }
    | (.ok server, evs) =>
      (Serve.step (config b checks) s.serve (.build (.ok ()))).map fun v =>
        { s with serve := v, server := some server, events := s.events ++ evs }
  | .panicDrop a =>
    match s.serve.owner, b.takeManagedDht.2.buildPanics a with
    | .build, some (leaked, evs) =>
      (Serve.step (config b checks) s.serve .panic).map fun v =>
        { s with serve := v, leaked := leaked, events := s.events ++ evs }
    | _, _ => none
  | .attach secs a =>
    match s.server, b.takeManagedDht.1 with
    | some server, some (contacts, _, seq) =>
      match attachManagedDht server contacts seq secs a with
      | (.error e, evs) =>
        (Serve.step (config b checks) s.serve (.attach (.error e))).map fun v =>
          { s with serve := v, events := s.events ++ (evs ++ .ready (.error e) :: s.frame) }
      | (.ok dht, evs) =>
        (Serve.step (config b checks) s.serve (.attach (.ok ()))).map fun v =>
          { s with serve := v, dht := some dht, events := s.events ++ evs }
    | _, _ => none
  -- the dht is a local of `attach_managed_dht`
  | .panicJoin a =>
    match s.serve.owner, s.server, b.takeManagedDht.1 with
    | .attach, some server, some (contacts, _, seq) =>
      match Teardown.attach server contacts seq a with
      | (.ok dht, evs) =>
        (Serve.step (config b checks) s.serve .panic).map fun v =>
          { s with serve := v, events := s.events ++ (evs ++ .closeDht dht :: s.frame) }
      | (.error _, _) => none
    | _, _, _ => none
  | .nodeId rc =>
    match s.server with
    | some server =>
      match Error.check rc with
      | .error e =>
        (Serve.step (config b checks) s.serve (.nodeId (.error e))).map fun v =>
          { s with
            serve := v
            events := s.events ++ (.localNodeid server.raw rc :: .ready (.error e) :: s.frame) }
      | .ok _ =>
        (Serve.step (config b checks) s.serve (.nodeId (.ok ()))).map fun v =>
          { s with serve := v, events := s.events ++ [.localNodeid server.raw rc] }
    | none => none
  | .other a =>
    if ofOthers a then
      (Serve.step (config b checks) s.serve a).map fun v =>
        { s with serve := v, events := s.events ++ handling b checks s a }
    else none
  | .leave =>
    match s.serve.owner with
    | .loop ls =>
      if loopOver ls = true ∧ s.left = false then
        some { s with left := true, events := s.events ++ s.frame }
      else none
    | _ => none
  -- `shutdown` has set the flag and still owns the sender
  | .join =>
    match s.serve.owner with
    | .loop ls =>
      if s.left = true ∧ s.serve.future = .served ∧ ls.handle = .stopping then
        some { s with shut := true }
      else none
    | _ => none

/-- The managed server with its handles. -/
def machine : Machine State Act := ⟨⟨Serve.init, none, none, [], none, false, false⟩, step b checks⟩

end Machine

variable {b : ServerBuilder} {checks : Bool} {s t : State}

/-! ## What each step does -/

section Step

variable (b : ServerBuilder) (checks : Bool)

/-- Every enabled step. -/
inductive Step (s : State) : Act → State → Prop
  | built {a server evs v} (hb : b.takeManagedDht.2.build a = (.ok server, evs))
      (hs : Serve.step (config b checks) s.serve (.build (.ok ())) = some v) :
      Step s (.build a) { s with serve := v, server := some server, events := s.events ++ evs }
  | buildErr {a e evs v} (hb : b.takeManagedDht.2.build a = (.error e, evs))
      (hs : Serve.step (config b checks) s.serve (.build (.error e)) = some v) :
      Step s (.build a) { s with serve := v, events := s.events ++ (evs ++ [.ready (.error e)]) }
  | panicDrop {a o evs v} (ho : s.serve.owner = .build)
      (hb : b.takeManagedDht.2.buildPanics a = some (o, evs))
      (hs : Serve.step (config b checks) s.serve .panic = some v) :
      Step s (.panicDrop a) { s with serve := v, leaked := o, events := s.events ++ evs }
  | attached {secs a server contacts announce seq dht evs v} (hsv : s.server = some server)
      (hc : b.takeManagedDht.1 = some (contacts, announce, seq))
      (ha : attachManagedDht server contacts seq secs a = (.ok dht, evs))
      (hs : Serve.step (config b checks) s.serve (.attach (.ok ())) = some v) :
      Step s (.attach secs a) { s with serve := v, dht := some dht, events := s.events ++ evs }
  | attachErr {secs a server contacts announce seq e evs v} (hsv : s.server = some server)
      (hc : b.takeManagedDht.1 = some (contacts, announce, seq))
      (ha : attachManagedDht server contacts seq secs a = (.error e, evs))
      (hs : Serve.step (config b checks) s.serve (.attach (.error e)) = some v) :
      Step s (.attach secs a)
        { s with serve := v, events := s.events ++ (evs ++ .ready (.error e) :: s.frame) }
  | panicJoin {a server contacts announce seq dht evs v} (ho : s.serve.owner = .attach)
      (hsv : s.server = some server) (hc : b.takeManagedDht.1 = some (contacts, announce, seq))
      (ha : Teardown.attach server contacts seq a = (.ok dht, evs))
      (hs : Serve.step (config b checks) s.serve .panic = some v) :
      Step s (.panicJoin a)
        { s with serve := v, events := s.events ++ (evs ++ .closeDht dht :: s.frame) }
  | identified {rc server u v} (hsv : s.server = some server) (hc : Error.check rc = .ok u)
      (hs : Serve.step (config b checks) s.serve (.nodeId (.ok ())) = some v) :
      Step s (.nodeId rc)
        { s with serve := v, events := s.events ++ [.localNodeid server.raw rc] }
  | nodeIdErr {rc server e v} (hsv : s.server = some server) (hc : Error.check rc = .error e)
      (hs : Serve.step (config b checks) s.serve (.nodeId (.error e)) = some v) :
      Step s (.nodeId rc)
        { s with
          serve := v
          events := s.events ++ (.localNodeid server.raw rc :: .ready (.error e) :: s.frame) }
  | other {a v} (ha : ofOthers a = true) (hs : Serve.step (config b checks) s.serve a = some v) :
      Step s (.other a) { s with serve := v, events := s.events ++ handling b checks s a }
  | leave {ls} (ho : s.serve.owner = .loop ls) (hl : loopOver ls = true) (hn : s.left = false) :
      Step s .leave { s with left := true, events := s.events ++ s.frame }
  | join {ls} (ho : s.serve.owner = .loop ls) (hl : s.left = true)
      (hf : s.serve.future = .served) (hh : ls.handle = .stopping) :
      Step s .join { s with shut := true }

end Step

theorem step_inv {a : Act} (h : step b checks s a = some t) : Step b checks s a t := by
  cases a with
  | build a =>
    simp only [step] at h
    split at h
    · rename_i e evs hb
      obtain ⟨v, hv, rfl⟩ := Option.map_eq_some_iff.mp h
      exact .buildErr hb hv
    · rename_i server evs hb
      obtain ⟨v, hv, rfl⟩ := Option.map_eq_some_iff.mp h
      exact .built hb hv
  | panicDrop a =>
    simp only [step] at h
    split at h
    · rename_i o evs ho hb
      obtain ⟨v, hv, rfl⟩ := Option.map_eq_some_iff.mp h
      exact .panicDrop ho hb hv
    · exact absurd h (by simp)
  | attach secs a =>
    simp only [step] at h
    split at h
    · rename_i server contacts announce seq hsv hc
      split at h
      · rename_i e evs ha
        obtain ⟨v, hv, rfl⟩ := Option.map_eq_some_iff.mp h
        exact .attachErr hsv hc ha hv
      · rename_i dht evs ha
        obtain ⟨v, hv, rfl⟩ := Option.map_eq_some_iff.mp h
        exact .attached hsv hc ha hv
    · exact absurd h (by simp)
  | panicJoin a =>
    simp only [step] at h
    split at h
    · rename_i server contacts announce seq ho hsv hc
      split at h
      · rename_i dht evs ha
        obtain ⟨v, hv, rfl⟩ := Option.map_eq_some_iff.mp h
        exact .panicJoin ho hsv hc ha hv
      · exact absurd h (by simp)
    · exact absurd h (by simp)
  | nodeId rc =>
    simp only [step] at h
    split at h
    · rename_i server hsv
      split at h
      · rename_i e hc
        obtain ⟨v, hv, rfl⟩ := Option.map_eq_some_iff.mp h
        exact .nodeIdErr hsv hc hv
      · rename_i u hc
        obtain ⟨v, hv, rfl⟩ := Option.map_eq_some_iff.mp h
        exact .identified hsv hc hv
    · exact absurd h (by simp)
  | other a =>
    simp only [step] at h
    split at h
    · rename_i ha
      obtain ⟨v, hv, rfl⟩ := Option.map_eq_some_iff.mp h
      exact .other ha hv
    · exact absurd h (by simp)
  | leave =>
    simp only [step] at h
    split at h
    · rename_i ls ho
      split at h
      · rename_i hc
        obtain rfl := Option.some.inj h
        exact .leave ho hc.1 hc.2
      · exact absurd h (by simp)
    · exact absurd h (by simp)
  | join =>
    simp only [step] at h
    split at h
    · rename_i ls ho
      split at h
      · rename_i hc
        obtain rfl := Option.some.inj h
        exact .join ho hc.1 hc.2.1 hc.2.2
      · exact absurd h (by simp)
    · exact absurd h (by simp)

/-- The thread and its caller are a run of `Serve`. -/
theorem serve_step {a : Act} (h : step b checks s a = some t) :
    t.serve = s.serve ∨ ∃ c, Serve.step (config b checks) s.serve c = some t.serve := by
  cases step_inv h with
  | built _ hs | buildErr _ hs | panicDrop _ _ hs | attached _ _ _ hs | attachErr _ _ _ hs
  | panicJoin _ _ _ _ hs | identified _ _ hs | nodeIdErr _ _ hs | other _ hs => exact Or.inr ⟨_, hs⟩
  | leave _ _ _ | join _ _ _ _ => exact Or.inl rfl

theorem serve_reachable (h : (machine b checks).Reachable s) :
    (Serve.machine (config b checks)).Reachable s.serve := by
  refine (machine b checks).reachable_induction
    (P := fun s => (Serve.machine (config b checks)).Reachable s.serve) ⟨[], rfl⟩ ?_ h
  intro s a t _ hr hst
  rcases serve_step hst with heq | ⟨c, hc⟩
  · exact heq ▸ hr
  · exact (Serve.machine (config b checks)).reachable_step hr hc

/-! ## Custody -/

/-- The thread is gone, or never will be. -/
def ended (s : State) : Bool :=
  match s.serve.owner with
  | .unspawned => s.serve.future ≠ .created
  | .exited => true
  | .loop _ => s.left
  | _ => false

/-- The server is a local of the thread. -/
def holding (s : State) : Bool :=
  match s.serve.owner with
  | .attach => true
  | .nodeId => true
  | .ready => true
  | .loop _ => !s.left
  | _ => false

theorem not_over_of_holding (h : holding s = true) : ended s = false := by
  unfold holding at h
  unfold ended
  cases ho : s.serve.owner <;> rw [ho] at h <;> simp_all

section Keeps

variable (b : ServerBuilder) (checks : Bool)

/-- The thread owns `server` and what is attached to it. -/
structure Holds (server : Teardown.Server) (s : State) : Prop where
  owns     : s.server = some server
  boxed    : server.handler = b.handler
  alone    : s.serve.owner = .attach → s.dht = none
  attached : s.serve.owner ≠ .attach → s.dht.isSome = (config b checks).dht
  run      : (Custody.machine Thing).runFrom (before b.handler) (actsOf s.events) =
    some (server.frame s.dht)

/-- Custody agrees with the place of the thread. -/
structure Keeps (s : State) : Prop where
  fresh   : ended s = false → holding s = false → s.events = [] ∧ s.dht = none
  holds   : holding s = true → ∃ server, Holds b checks server s
  settled : ended s = true → s.leaked = none → Settles (before b.handler) s.events
  leaked  : ∀ raw, s.leaked = some raw → s.serve.owner = .exited ∧
    ∃ v, (Custody.machine Thing).runFrom (before b.handler) (actsOf s.events) = some v ∧
      v.live = [.server raw]
  left    : s.left = true → ∃ ls, s.serve.owner = .loop ls
  shut    : s.shut = true → s.left = true

end Keeps

theorem Holds.frame {server : Teardown.Server} (h : Holds b checks server s) :
    s.frame = leave [server.drop, s.dht.toList.map .closeDht] := by
  simp [State.frame, h.owns]

/-- The thread leaves its frame, whatever it told others before. -/
theorem Holds.leaves {server : Teardown.Server} (h : Holds b checks server s) (told : List Event)
    (htold : actsOf told = []) : Settles (before b.handler) (s.events ++ (told ++ s.frame)) := by
  refine settles_append h.run (settles_congr ?_ (leave_settles server s.dht))
  rw [actsOf_append, htold, h.frame]
  rfl

/-- The thread is over: what is there was closed. -/
theorem keeps_over (ho : ended t = true) (hk : t.leaked = none)
    (h : Settles (before b.handler) t.events)
    (hl : t.left = true → ∃ ls, t.serve.owner = .loop ls) (hs : t.shut = true → t.left = true) :
    Keeps b checks t where
  fresh hn := absurd (ho.symm.trans hn) (by simp)
  holds hh := absurd (ho.symm.trans (not_over_of_holding hh)) (by simp)
  settled _ _ := h
  leaked raw hr := absurd (hk.symm.trans hr) (by simp)
  left := hl
  shut := hs

/-- The thread has the server. -/
theorem keeps_holding (server : Teardown.Server) (hh : holding t = true) (hk : t.leaked = none)
    (h : Holds b checks server t) (hl : t.left = true → ∃ ls, t.serve.owner = .loop ls)
    (hs : t.shut = true → t.left = true) : Keeps b checks t where
  fresh _ hn := absurd (hh.symm.trans hn) (by simp)
  holds _ := ⟨server, h⟩
  settled ho := absurd (ho.symm.trans (not_over_of_holding hh)) (by simp)
  leaked raw hr := absurd (hk.symm.trans hr) (by simp)
  left := hl
  shut := hs

/-- Only the caller moves. -/
theorem Keeps.caller (h : Keeps b checks s) {v : Serve.State} (ho : v.owner = s.serve.owner)
    (hs : s.serve.future ≠ .created) (hv : v.future ≠ .created) :
    Keeps b checks { s with serve := v } := by
  have hover : ended { s with serve := v } = ended s := by
    unfold ended
    simp only [ho]
    cases s.serve.owner <;> simp [hs, hv]
  have hhold : holding { s with serve := v } = holding s := by
    unfold holding
    simp only [ho]
  refine ⟨fun h1 h2 => h.fresh (hover ▸ h1) (hhold ▸ h2), fun hh => ?_,
    fun h1 => h.settled (hover ▸ h1), fun raw hr => ?_, fun hl => ?_, h.shut⟩
  · obtain ⟨server, hserver⟩ := h.holds (hhold ▸ hh)
    exact ⟨server, hserver.owns, hserver.boxed, fun ha => hserver.alone (ho ▸ ha),
      fun ha => hserver.attached (ho ▸ ha), hserver.run⟩
  · obtain ⟨hex, hrun⟩ := h.leaked raw hr
    exact ⟨ho.trans hex, hrun⟩
  · obtain ⟨ls, hls⟩ := h.left hl
    exact ⟨ls, ho.trans hls⟩

/-- The thread has not left when it is not in the loop. -/
theorem Keeps.not_left (h : Keeps b checks s) (ho : ∀ ls, s.serve.owner ≠ .loop ls) :
    s.left = false := by
  by_contra hn
  obtain ⟨ls, hls⟩ := h.left (by simpa using hn)
  exact ho ls hls

/-- Nothing is leaked while the thread goes on. -/
theorem Keeps.not_leaked (h : Keeps b checks s) (ho : s.serve.owner ≠ .exited) :
    s.leaked = none := by
  cases hk : s.leaked with
  | none => rfl
  | some raw => exact absurd (h.leaked raw hk).1 ho

/-- The thread ends before the loop. -/
theorem Keeps.ends (h : Keeps b checks s) (ho : ∀ ls, s.serve.owner ≠ .loop ls)
    (hl : t.left = s.left) (hs : t.shut = s.shut) (he : ended t = true) (hk : t.leaked = none)
    (ht : Settles (before b.handler) t.events) : Keeps b checks t := by
  have hnl := hl.trans (h.not_left ho)
  refine keeps_over he hk ht (fun hn => absurd (hnl.symm.trans hn) (by simp)) fun hn => ?_
  rw [hl]
  exact h.shut (hs ▸ hn)

/-- The thread goes on with the server, and was not in the loop yet. -/
theorem Keeps.goesOn (h : Keeps b checks s) (ho : ∀ ls, s.serve.owner ≠ .loop ls)
    (hl : t.left = s.left) (hs : t.shut = s.shut) (server : Teardown.Server)
    (hh : holding t = true) (hk : t.leaked = none) (ht : Holds b checks server t) :
    Keeps b checks t := by
  have hnl := hl.trans (h.not_left ho)
  refine keeps_holding server hh hk ht (fun hn => absurd (hnl.symm.trans hn) (by simp)) fun hn => ?_
  rw [hl]
  exact h.shut (hs ▸ hn)

/-- The server of the thread, where it is known to have one. -/
theorem Keeps.holds_server (h : Keeps b checks s) (hh : holding s = true)
    {server : Teardown.Server} (hsv : s.server = some server) : Holds b checks server s := by
  obtain ⟨sv, hserver⟩ := h.holds hh
  obtain rfl := Option.some.inj (hsv.symm.trans hserver.owns)
  exact hserver

/-- One step of the caller or of the loop, and the labels of the set-up that call nothing. -/
theorem keeps_other {a : Serve.Act} {v : Serve.State} (hi : Serve.Inv (config b checks) s.serve)
    (h : Keeps b checks s) (ha : ofOthers a = true)
    (hs : Serve.step (config b checks) s.serve a = some v) :
    Keeps b checks { s with serve := v, events := s.events ++ handling b checks s a } := by
  have hcaller : ∀ {v : Serve.State}, v.owner = s.serve.owner → s.serve.future ≠ .created →
      v.future ≠ .created → Keeps b checks { s with serve := v, events := s.events ++ [] } := by
    intro v ho hs hv
    rw [List.append_nil]
    exact h.caller ho hs hv
  -- what was still the caller's is dropped
  have hdropped : ∀ {v : Serve.State}, s.serve.future = .created → v.owner = s.serve.owner →
      v.future ≠ .created → Keeps b checks { s with serve := v, events := s.events ++ b.drop } := by
    intro v hf ho hv
    have hun := hi.created hf
    have hempty := (h.fresh (by simp [ended, hun, hf]) (by simp [holding, hun])).1
    refine h.ends (by simp [hun]) rfl rfl (by simp [ended, ho, hun, hv])
      (h.not_leaked (by simp [hun])) ?_
    rw [hempty]
    exact builder_drop_settles b
  cases Serve.step_inv hs with
  | poll hf =>
    have hun := hi.created hf
    have hempty := h.fresh (by simp [ended, hun, hf]) (by simp [holding, hun])
    have hnl := h.not_left (by simp [hun])
    have hnk := h.not_leaked (by simp [hun])
    refine ⟨fun _ _ => ⟨?_, hempty.2⟩, fun hh => absurd hh (by simp [holding]),
      fun ho => absurd ho (by simp [ended]), fun raw hr => absurd (hnk.symm.trans hr) (by simp),
      fun hl => absurd (hnl.symm.trans hl) (by simp), h.shut⟩
    rw [hempty.1]
    rfl
  | spawnFails hf => exact hdropped hf rfl (by simp)
  | dropFuture hf =>
    rcases hf with hf | hf
    · rw [handling, if_pos hf]
      exact hdropped hf rfl (by simp)
    · rw [handling, if_neg (by simp [hf])]
      exact hcaller rfl (by simp [hf]) (by simp)
  | receiveOk hf _ | receiveErr hf _ | joined hf _ => exact hcaller rfl (by simp [hf]) (by simp)
  | built _ | attached _ | identified _ | buildErr _ | attachErr _ | nodeIdErr _ =>
    exact absurd ha (by simp [ofOthers])
  | panic ho =>
    have hnk := h.not_leaked (by rcases ho with ho | ho | ho <;> simp [ho])
    refine h.ends (by rcases ho with ho | ho | ho <;> simp [ho]) rfl rfl rfl hnk ?_
    rcases ho with ho | ho | ho
    · rw [(h.fresh (by simp [ended, ho]) (by simp [holding, ho])).1]
      simpa [handling, ho] using builder_drop_settles b
    · obtain ⟨server, hserver⟩ := h.holds (by simp [holding, ho])
      simpa [handling, ho] using hserver.leaves [] rfl
    · obtain ⟨server, hserver⟩ := h.holds (by simp [holding, ho])
      simpa [handling, ho] using hserver.leaves [] rfl
  | sendReady ho hf =>
    have hnl := h.not_left (by simp [ho])
    obtain ⟨server, hserver⟩ := h.holds (by simp [holding, ho])
    refine h.goesOn (by simp [ho]) rfl rfl server (by simp [holding, hnl])
      (h.not_leaked (by simp [ho]))
      ⟨hserver.owns, hserver.boxed, fun ha => absurd ha (by simp), fun _ => ?_, ?_⟩
    · exact hserver.attached (by simp [ho])
    · rw [actsOf_append, handling, if_pos hf, hserver.owns]
      simpa [actsOf, Event.acts] using hserver.run
  | callerGone ho hf =>
    obtain ⟨server, hserver⟩ := h.holds (by simp [holding, ho])
    refine h.ends (by simp [ho]) rfl rfl rfl (h.not_leaked (by simp [ho])) ?_
    rw [handling, if_neg hf]
    exact hserver.leaves [.ready (.ok ())] rfl
  | @loop c ls lt ho _ hst =>
    have heq : s.events ++ handling b checks s (.loop c) = s.events := List.append_nil _
    rw [heq]
    have hnk := h.not_leaked (by simp [ho])
    by_cases hl : s.left = true
    · exact keeps_over hl hnk (h.settled (by simp [ended, ho, hl]) hnk) (fun _ => ⟨lt, rfl⟩) h.shut
    · obtain ⟨server, hserver⟩ := h.holds (by simp [holding, ho, hl])
      exact keeps_holding server (by simp [holding, hl]) hnk
        ⟨hserver.owns, hserver.boxed, fun ha => absurd ha (by simp),
          fun _ => hserver.attached (by simp [ho]), hserver.run⟩ (fun _ => ⟨lt, rfl⟩) h.shut

/-- **One step** of anyone keeps custody. -/
theorem keeps_step {a : Act} (hi : Serve.Inv (config b checks) s.serve) (h : Keeps b checks s)
    (hst : step b checks s a = some t) : Keeps b checks t := by
  cases step_inv hst with
  | @built a server evs v hb hs =>
    have hhands := build_hands b.takeManagedDht.2 a
    rw [hb, takeManagedDht_handler] at hhands
    have hrun := Handed.run hhands
    cases Serve.step_inv hs with
    | built ho =>
      have hempty := h.fresh (by simp [ended, ho]) (by simp [holding, ho])
      refine h.goesOn (by simp [ho]) rfl rfl server ?_ (h.not_leaked (by simp [ho]))
        ⟨rfl, Handed.handler hhands, fun _ => hempty.2, fun hne => ?_, ?_⟩
      · cases hd : (config b checks).dht <;> simp [holding]
      · cases hd : (config b checks).dht with
        | true => exact absurd (by simp [hd]) hne
        | false => simp [hempty.2]
      · rw [hempty.1, hempty.2]
        exact hrun
  | @buildErr a e evs v hb hs =>
    have hhands := build_hands b.takeManagedDht.2 a
    rw [hb, takeManagedDht_handler] at hhands
    cases Serve.step_inv hs with
    | buildErr ho =>
      have hempty := (h.fresh (by simp [ended, ho]) (by simp [holding, ho])).1
      refine h.ends (by simp [ho]) rfl rfl rfl (h.not_leaked (by simp [ho])) ?_
      obtain ⟨v, hv, hnil⟩ := hhands
      rw [hempty, List.nil_append]
      exact settles_append hv ⟨v, rfl, hnil⟩
  | @panicDrop a o evs v ho hb hs =>
    obtain ⟨w, hw, hlive⟩ := buildPanics_leaves hb
    rw [takeManagedDht_handler] at hw
    have hempty := (h.fresh (by simp [ended, ho]) (by simp [holding, ho])).1
    have hnl := h.not_left (by simp [ho])
    cases Serve.step_inv hs with
    | panic _ =>
      refine ⟨fun hn => absurd hn (by simp [ended]), fun hh => absurd hh (by simp [holding]),
        fun _ hnone => ?_, fun raw hr => ⟨rfl, ?_⟩, fun hl => absurd (hnl.symm.trans hl) (by simp),
        h.shut⟩
      · obtain rfl : o = none := hnone
        rw [hempty]
        exact ⟨w, hw, hlive⟩
      · obtain rfl : o = some raw := hr
        rw [hempty]
        exact ⟨w, hw, hlive⟩
  | @attached secs a server contacts announce seq dht evs v hsv hc ha hs =>
    have hatt := attachManagedDht_attaches server contacts seq secs a
    rw [ha] at hatt
    cases Serve.step_inv hs with
    | attached ho =>
      have hserver := h.holds_server (by simp [holding, ho]) hsv
      have hrun := hserver.run
      rw [hserver.alone ho] at hrun
      refine h.goesOn (by simp [ho]) rfl rfl server rfl (h.not_leaked (by simp [ho]))
        ⟨hsv, hserver.boxed, fun hn => absurd hn (by simp), fun _ => ?_, ?_⟩
      · simp [config, hc]
      · rw [actsOf_append]
        exact (Custody.machine Thing).runFrom_append.mpr ⟨_, hrun, hatt⟩
  | @attachErr secs a server contacts announce seq e evs v hsv hc ha hs =>
    have hatt := attachManagedDht_attaches server contacts seq secs a
    rw [ha] at hatt
    cases Serve.step_inv hs with
    | attachErr ho =>
      have hserver := h.holds_server (by simp [holding, ho]) hsv
      have hrun := hserver.run
      rw [hserver.alone ho] at hrun
      refine h.ends (by simp [ho]) rfl rfl rfl (h.not_leaked (by simp [ho])) ?_
      refine settles_append hrun (settles_congr ?_ hatt)
      simp [hserver.frame, hserver.alone ho, leave, actsOf_append, actsOf_cons, Event.acts]
  | @panicJoin a server contacts announce seq dht evs v ho hsv hc ha hs =>
    have hatt := attach_attaches server contacts seq a
    rw [ha] at hatt
    have hserver := h.holds_server (by simp [holding, ho]) hsv
    have hrun := hserver.run
    rw [hserver.alone ho] at hrun
    cases Serve.step_inv hs with
    | panic _ =>
      refine h.ends (by simp [ho]) rfl rfl rfl (h.not_leaked (by simp [ho])) ?_
      refine settles_append hrun (settles_append hatt ?_)
      simpa [hserver.frame, hserver.alone ho, leave] using withDht_settles server dht
  | @identified rc server u v hsv hc hs =>
    cases Serve.step_inv hs with
    | identified ho =>
      have hserver := h.holds_server (by simp [holding, ho]) hsv
      refine h.goesOn (by simp [ho]) rfl rfl server rfl (h.not_leaked (by simp [ho]))
        ⟨hsv, hserver.boxed, fun hn => absurd hn (by simp), fun _ => ?_, ?_⟩
      · exact hserver.attached (by simp [ho])
      · rw [actsOf_append]
        simpa [actsOf, Event.acts] using hserver.run
  | @nodeIdErr rc server e v hsv hc hs =>
    cases Serve.step_inv hs with
    | nodeIdErr ho =>
      have hserver := h.holds_server (by simp [holding, ho]) hsv
      refine h.ends (by simp [ho]) rfl rfl rfl (h.not_leaked (by simp [ho])) ?_
      exact hserver.leaves [.localNodeid server.raw rc, .ready (.error e)] rfl
  | other ha hs => exact keeps_other hi h ha hs
  | @leave ls ho hl hn =>
    obtain ⟨server, hserver⟩ := h.holds (by simp [holding, ho, hn])
    exact keeps_over (by simp [ended, ho]) (h.not_leaked (by simp [ho])) (hserver.leaves [] rfl)
      (fun _ => ⟨ls, ho⟩) fun _ => rfl
  | join ho hl _ _ =>
    have hnk := h.not_leaked (by simp [ho])
    exact keeps_over (by simp [ended, ho, hl]) hnk (h.settled (by simp [ended, ho, hl]) hnk)
      (fun _ => ⟨_, ho⟩) fun _ => hl

theorem keeps_run {acts : List Act} (h : (machine b checks).run acts = some s) :
    Keeps b checks s := by
  refine (machine b checks).reachable_induction (P := Keeps b checks) ?_ ?_ ⟨acts, h⟩
  · exact ⟨fun _ _ => ⟨rfl, rfl⟩, fun hh => absurd hh (by simp [holding, machine, Serve.init]),
      fun ho => absurd ho (by simp [ended, machine, Serve.init]),
      fun raw hr => absurd hr (by simp [machine]), fun hl => absurd hl (by simp [machine]),
      fun hl => absurd hl (by simp [machine])⟩
  · intro s a t hr hk hst
    obtain ⟨acts, hacts⟩ := serve_reachable hr
    exact keeps_step (Serve.inv_run hacts) hk hst

/-! ## The thread on its own -/

section Thread

variable {c a : Codes} {server : Teardown.Server} {evs devs : List Event}

theorem thread_buildErr {e : Error} (hb : b.takeManagedDht.2.build c = (.error e, evs)) (secs : Nat)
    (gone : Bool) : b.thread c secs gone = evs ++ [.ready (.error e)] := by
  simp [ServerBuilder.thread, hb]

theorem thread_unattached (hb : b.takeManagedDht.2.build c = (.ok server, evs))
    (hc : b.takeManagedDht.1 = none) (rc : CInt) (secs : Nat) (gone : Bool) :
    b.thread { c with nodeId := rc } secs gone =
      evs ++ listening server none none { c with nodeId := rc } gone := by
  have hb' : b.takeManagedDht.2.build { c with nodeId := rc } = (.ok server, evs) := hb
  simp [ServerBuilder.thread, hb', hc]

variable {contacts : List Bootstrap} {announce : Option Address} {seq : Nat}

theorem thread_attached {dht : Ptr} (hb : b.takeManagedDht.2.build c = (.ok server, evs))
    (hc : b.takeManagedDht.1 = some (contacts, announce, seq)) {secs : Nat}
    (ha : attachManagedDht server contacts seq secs a = (.ok dht, devs)) (rc : CInt) (gone : Bool) :
    b.thread { c with attach := a.attach, join := a.join, nodeId := rc } secs gone =
      evs ++ (devs ++ listening server (some dht) announce { c with nodeId := rc } gone) := by
  have hb' : b.takeManagedDht.2.build { c with attach := a.attach, join := a.join, nodeId := rc } =
    (.ok server, evs) := hb
  have ha' : attachManagedDht server contacts seq secs
    { c with attach := a.attach, join := a.join, nodeId := rc } = (.ok dht, devs) := ha
  simp only [ServerBuilder.thread, hb', hc, ha', List.append_assoc]
  rfl

theorem thread_attachErr {e : Error} (hb : b.takeManagedDht.2.build c = (.ok server, evs))
    (hc : b.takeManagedDht.1 = some (contacts, announce, seq)) {secs : Nat}
    (ha : attachManagedDht server contacts seq secs a = (.error e, devs)) (gone : Bool) :
    b.thread { c with attach := a.attach, join := a.join } secs gone =
      evs ++ (devs ++ .ready (.error e) :: server.drop) := by
  have hb' : b.takeManagedDht.2.build { c with attach := a.attach, join := a.join } =
    (.ok server, evs) := hb
  have ha' : attachManagedDht server contacts seq secs
    { c with attach := a.attach, join := a.join } = (.error e, devs) := ha
  simp [ServerBuilder.thread, hb', hc, ha', leave]

end Thread

section Ahead

variable (b : ServerBuilder) (checks : Bool)

/-- What the thread did so far is a front of what it does on its own, by the place it is at. -/
def Ahead (s : State) : Serve.Owner → Prop
  | .unspawned => True
  | .build => True
  | .attach => ∃ c server, s.server = some server ∧
      b.takeManagedDht.2.build c = (.ok server, s.events)
  | .nodeId => ∃ (c : Codes) (secs : Nat) (server : Teardown.Server), s.server = some server ∧
    ∀ (rc : CInt) (gone : Bool),
      b.thread { c with nodeId := rc } secs gone = s.events ++
        listening server s.dht (config b checks).announce { c with nodeId := rc } gone
  | .ready => ∃ (c : Codes) (secs : Nat) (server : Teardown.Server), s.server = some server ∧
    ∀ gone : Bool,
      b.thread c secs gone = s.events ++ .ready (.ok ()) ::
        ((if gone then [] else [.serverLoop server.raw s.dht (config b checks).announce]) ++ s.frame)
  | .loop _ => ∃ c secs, b.thread c secs false = s.events ++ if s.left then [] else s.frame
  | .exited => ∃ c secs gone, b.thread c secs gone = s.events

end Ahead

/-- The label is a panic of the set-up. -/
def Act.panics : Act → Bool
  | .panicDrop _ => true
  | .panicJoin _ => true
  | .other .panic => true
  | _ => false

/-- The caller and the loop do not touch what the thread does. -/
theorem ahead_other {a : Serve.Act} {v : Serve.State} (hi : Serve.Inv (config b checks) s.serve)
    (hk : Keeps b checks s) (h : Ahead b checks s s.serve.owner) (ha : ofOthers a = true)
    (hp : a ≠ .panic) (hs : Serve.step (config b checks) s.serve a = some v) :
    Ahead b checks { s with serve := v, events := s.events ++ handling b checks s a } v.owner := by
  cases Serve.step_inv hs with
  | poll _ => trivial
  | spawnFails hf => simp only [hi.created hf, Ahead]
  | dropFuture hf =>
    rcases hf with hf | hf
    · simp only [hi.created hf, Ahead]
    · rw [handling, if_neg (by simp [hf]), List.append_nil]
      exact h
  | receiveOk _ _ | receiveErr _ _ | joined _ _ =>
    rw [handling, List.append_nil]
    · exact h
    all_goals simp
  | built _ | attached _ | identified _ | buildErr _ | attachErr _ | nodeIdErr _ =>
    exact absurd ha (by simp [ofOthers])
  | panic _ => exact absurd rfl hp
  | sendReady ho hf =>
    have hnl := hk.not_left (by simp [ho])
    rw [ho] at h
    obtain ⟨c, secs, server, hsv, hthread⟩ := h
    refine ⟨c, secs, ?_⟩
    rw [hthread false, handling, if_pos hf, hsv]
    simp [hnl, State.frame, hsv]
  | callerGone ho hf =>
    rw [ho] at h
    obtain ⟨c, secs, server, hsv, hthread⟩ := h
    refine ⟨c, secs, true, ?_⟩
    rw [hthread true, handling, if_neg hf]
    rfl
  | loop ho _ _ =>
    rw [handling, List.append_nil]
    · rw [ho] at h
      exact h
    all_goals simp

/-- **One step** is the next part of what the thread does on its own. -/
theorem ahead_step {a : Act} (hi : Serve.Inv (config b checks) s.serve) (hk : Keeps b checks s)
    (h : Ahead b checks s s.serve.owner) (hp : a.panics = false)
    (hst : step b checks s a = some t) : Ahead b checks t t.serve.owner := by
  cases step_inv hst with
  | @built a server evs v hb hs =>
    cases Serve.step_inv hs with
    | built ho =>
      have hempty := hk.fresh (by simp [ended, ho]) (by simp [holding, ho])
      rw [hempty.1, List.nil_append]
      cases hc : b.takeManagedDht.1 with
      | some cfg =>
        have hd : (config b checks).dht = true := by simp [config, hc]
        rw [hd]
        exact ⟨a, server, rfl, hb⟩
      | none =>
        have hd : (config b checks).dht = false := by simp [config, hc]
        have hann : (config b checks).announce = none := by simp [config, hc]
        rw [hd]
        refine ⟨a, 0, server, rfl, fun rc gone => ?_⟩
        rw [hann, hempty.2]
        exact thread_unattached hb hc rc 0 gone
  | @buildErr a e evs v hb hs =>
    cases Serve.step_inv hs with
    | buildErr ho =>
      have hempty := (hk.fresh (by simp [ended, ho]) (by simp [holding, ho])).1
      refine ⟨a, 0, false, ?_⟩
      rw [hempty, List.nil_append]
      exact thread_buildErr hb 0 false
  | @attached secs a server contacts announce seq dht evs v hsv hc ha hs =>
    cases Serve.step_inv hs with
    | attached ho =>
      rw [ho] at h
      obtain ⟨c, sv, hsv', hb⟩ := h
      obtain rfl := Option.some.inj (hsv.symm.trans hsv')
      refine ⟨{ c with attach := a.attach, join := a.join }, secs, server, hsv, fun rc gone => ?_⟩
      have hann : (config b checks).announce = announce := by simp [config, hc]
      rw [hann, List.append_assoc]
      exact thread_attached hb hc ha rc gone
  | @attachErr secs a server contacts announce seq e evs v hsv hc ha hs =>
    cases Serve.step_inv hs with
    | attachErr ho =>
      have hserver := hk.holds_server (by simp [holding, ho]) hsv
      rw [ho] at h
      obtain ⟨c, sv, hsv', hb⟩ := h
      obtain rfl := Option.some.inj (hsv.symm.trans hsv')
      refine ⟨{ c with attach := a.attach, join := a.join }, secs, false, ?_⟩
      have hframe : s.frame = server.drop := by simp [hserver.frame, hserver.alone ho, leave]
      rw [hframe]
      exact thread_attachErr hb hc ha false
  | panicDrop _ _ _ | panicJoin _ _ _ _ _ => exact absurd hp (by simp [Act.panics])
  | @identified rc server u v hsv hc hs =>
    cases Serve.step_inv hs with
    | identified ho =>
      rw [ho] at h
      obtain ⟨c, secs, sv, hsv', hthread⟩ := h
      obtain rfl := Option.some.inj (hsv.symm.trans hsv')
      refine ⟨{ c with nodeId := rc }, secs, server, hsv, fun gone => ?_⟩
      rw [hthread rc gone]
      cases gone <;> simp [listening, hc, State.frame, hsv]
  | @nodeIdErr rc server e v hsv hc hs =>
    cases Serve.step_inv hs with
    | nodeIdErr ho =>
      rw [ho] at h
      obtain ⟨c, secs, sv, hsv', hthread⟩ := h
      obtain rfl := Option.some.inj (hsv.symm.trans hsv')
      refine ⟨{ c with nodeId := rc }, secs, false, ?_⟩
      rw [hthread rc false]
      simp [listening, hc, State.frame, hsv]
  | @other a v ha hs =>
    refine ahead_other hi hk h ha ?_ hs
    rintro rfl
    exact absurd hp (by simp [Act.panics])
  | @leave ls ho hl hn =>
    simp only [ho] at h ⊢
    obtain ⟨c, secs, hthread⟩ := h
    refine ⟨c, secs, ?_⟩
    rw [hthread]
    simp [hn, State.frame]
  | join ho _ _ _ =>
    simp only [ho] at h ⊢
    exact h

theorem ahead_run {acts : List Act} (h : (machine b checks).run acts = some s)
    (hp : ∀ a ∈ acts, a.panics = false) : Ahead b checks s s.serve.owner := by
  refine (machine b checks).run_induction
    (P := fun acts s => (∀ a ∈ acts, a.panics = false) → Ahead b checks s s.serve.owner)
    (fun _ => trivial) ?_ h hp
  intro acts s a t hrun hq hst hp
  obtain ⟨ls, hls⟩ := serve_reachable ⟨acts, hrun⟩
  exact ahead_step (Serve.inv_run hls) (keeps_run hrun)
    (hq fun x hx => hp x (List.mem_append_left _ hx)) (hp a (by simp)) hst

/-! ## Whole runs -/

/-- The caller is told an error only when the thread is gone, or was never there. -/
theorem over_of_failed {cfg : ServerLoop.Config} {v : Serve.State}
    (h : (Serve.machine cfg).Reachable v) {e : Error} (hf : v.future = .failed e) :
    v.owner = .exited ∨ v.owner = .unspawned := by
  refine (Serve.machine cfg).reachable_induction
    (P := fun v => ∀ e, v.future = .failed e → v.owner = .exited ∨ v.owner = .unspawned)
    (fun e hf => absurd hf (by simp [Serve.machine, Serve.init])) ?_ h e hf
  intro v a w hr hp hst e hf
  have hs := Serve.step_inv hst
  cases hs with
  | poll _ | dropFuture _ | receiveOk _ _ | receiveErr _ _ => exact absurd hf (by simp)
  | spawnFails hc =>
    obtain ⟨acts, hacts⟩ := hr
    exact Or.inr ((Serve.inv_run hacts).created hc)
  | joined _ ho => exact Or.inl ho
  | built ho | attached ho | identified ho | sendReady ho _ | loop ho _ _ =>
    rcases hp e hf with hp | hp <;> rw [ho] at hp <;> exact absurd hp (by simp)
  | buildErr _ | attachErr _ | nodeIdErr _ | panic _ | callerGone _ _ => exact Or.inl rfl

variable (b) in
/-- The server the label leaves open. -/
def Act.leaks : Act → Option Ptr
  | .panicDrop a => (b.takeManagedDht.2.buildPanics a).bind Prod.fst
  | _ => none

/-- What was leaked is told by the labels. -/
theorem leaked_run {acts : List Act} (h : (machine b checks).run acts = some s) (raw : Ptr) :
    s.leaked = some raw ↔ ∃ a ∈ acts, a.leaks b = some raw := by
  refine (machine b checks).run_induction
    (P := fun acts s => s.leaked = some raw ↔ ∃ a ∈ acts, a.leaks b = some raw)
    (by simp [machine]) ?_ h
  intro acts s a t hrun ih hst
  have hsnoc : (∃ x ∈ acts ++ [a], x.leaks b = some raw) ↔
      (∃ x ∈ acts, x.leaks b = some raw) ∨ a.leaks b = some raw := by
    simp [or_and_right, exists_or]
  rw [hsnoc, ← ih]
  have hkeep : t.leaked = s.leaked → a.leaks b = none →
      (t.leaked = some raw ↔ s.leaked = some raw ∨ a.leaks b = some raw) := by
    intro hl hn
    rw [hl, hn]
    simp
  cases step_inv hst with
  | panicDrop ho hb _ =>
    have hnone := (keeps_run hrun).not_leaked (by simp [ho])
    simp [hnone, Act.leaks, hb]
  | built _ _ | buildErr _ _ | attached _ _ _ _ | attachErr _ _ _ _ | panicJoin _ _ _ _ _
  | identified _ _ _ | nodeIdErr _ _ _ | other _ _ | leave _ _ _ | join _ _ _ _ =>
    exact hkeep rfl rfl

/-- What is wanted of the handles, at the end of the history `acts`. -/
structure ClosedOnce (b : ServerBuilder) (checks : Bool) (acts : List Act) (s : State) : Prop where
  /-- At any time: nothing was closed that was not there or that something else needed. -/
  orderly : ∃ w, (Custody.machine Thing).run (custodyOf b.handler s.events) = some w
  /-- While the loop runs the thread has the server with its handler and the dht where there is one,
  and has closed none of them. -/
  inUse : ∀ ls, s.serve.owner = .loop ls → s.left = false → ∃ server, s.server = some server ∧
    server.handler = b.handler ∧ s.dht.isSome = (config b checks).dht ∧
    (Custody.machine Thing).run (custodyOf b.handler s.events) = some (server.frame s.dht)
  /-- When the thread is over, or never will be, everything was closed once and in order. -/
  closed : (∀ a ∈ acts, a.leaks b = none) → ended s = true → TornDown b.handler s.events
  /-- So it was when the caller is told an error, and when `shutdown` returns. -/
  told : (∀ a ∈ acts, a.leaks b = none) → (∃ e, s.serve.future = .failed e) ∨ s.shut = true →
    TornDown b.handler s.events
  /-- Where the handler's captures panic in the unwind of `finish_build`, the thread is over and
  exactly the server is still open. -/
  leaked : ∀ a ∈ acts, ∀ raw, a.leaks b = some raw → ended s = true ∧
    ∃ w, (Custody.machine Thing).run (custodyOf b.handler s.events) = some w ∧
      w.live = [.server raw]
  /-- A thread that does not panic in its set-up did what it does on its own. -/
  alone : (∀ a ∈ acts, a.panics = false) → s.serve.owner ≠ .unspawned → ended s = true →
    ∃ c secs gone, s.events = b.thread c secs gone

/-- **The handles of a managed server are closed once and in order**, whoever leaves when. -/
theorem handles_closed_once {acts : List Act} (h : (machine b checks).run acts = some s) :
    ClosedOnce b checks acts s := by
  have hk := keeps_run h
  have hserve := serve_reachable ⟨acts, h⟩
  have hclosed : (∀ a ∈ acts, a.leaks b = none) → ended s = true → TornDown b.handler s.events := by
    intro hno ho
    refine tornDown_of_settles (hk.settled ho ?_)
    cases hl : s.leaked with
    | none => rfl
    | some raw =>
      obtain ⟨a, ha, hleaks⟩ := (leaked_run h raw).mp hl
      exact absurd ((hno a ha).symm.trans hleaks) (by simp)
  have hleaked : ∀ raw, s.leaked = some raw → ended s = true ∧
      ∃ w, (Custody.machine Thing).run (custodyOf b.handler s.events) = some w ∧
        w.live = [.server raw] := by
    intro raw hr
    obtain ⟨hex, w, hw, hlive⟩ := hk.leaked raw hr
    exact ⟨by simp [ended, hex], w, (run_custodyOf _ _).trans hw, hlive⟩
  constructor
  · rw [run_custodyOf]
    by_cases ho : ended s = true
    · cases hl : s.leaked with
      | none =>
        obtain ⟨w, hw, -⟩ := hk.settled ho hl
        exact ⟨w, hw⟩
      | some raw =>
        obtain ⟨-, w, hw, -⟩ := hk.leaked raw hl
        exact ⟨w, hw⟩
    · by_cases hh : holding s = true
      · obtain ⟨server, hserver⟩ := hk.holds hh
        exact ⟨_, hserver.run⟩
      · rw [(hk.fresh (by simpa using ho) (by simpa using hh)).1]
        exact ⟨_, rfl⟩
  · intro ls ho hl
    obtain ⟨server, hserver⟩ := hk.holds (by simp [holding, ho, hl])
    exact ⟨server, hserver.owns, hserver.boxed, hserver.attached (by simp [ho]),
      (run_custodyOf _ _).trans hserver.run⟩
  · exact hclosed
  · intro hno ht
    refine hclosed hno ?_
    rcases ht with ⟨e, hf⟩ | hs
    · rcases over_of_failed hserve hf with ho | ho <;> simp [ended, ho, hf]
    · have hl := hk.shut hs
      obtain ⟨ls, hls⟩ := hk.left hl
      simp [ended, hls, hl]
  · exact fun a ha raw hr => hleaked raw ((leaked_run h raw).mpr ⟨a, ha, hr⟩)
  · intro hp hspawned ho
    have hahead := ahead_run h hp
    cases howner : s.serve.owner with
    | unspawned => exact absurd howner hspawned
    | build | attach | nodeId | ready => exact absurd ho (by simp [ended, howner])
    | exited =>
      rw [howner] at hahead
      obtain ⟨c, secs, gone, hthread⟩ := hahead
      exact ⟨c, secs, gone, hthread.symm⟩
    | loop ls =>
      have hl : s.left = true := by simpa [ended, howner] using ho
      rw [howner] at hahead
      obtain ⟨c, secs, hthread⟩ := hahead
      refine ⟨c, secs, false, ?_⟩
      rw [hthread, hl, if_pos rfl, List.append_nil]

/-- A server with a handler and a dht. -/
def withDht : ServerBuilder := ⟨some 1, some 2, some 9, false, none, [5], none, 0⟩

/-- A capture of the handler panics when it is dropped: nothing closes the server. -/
example : ∃ s, (machine withDht true).run
      [.other .poll, .panicDrop ⟨(0, 7), -304, (0, 0), 0, 0⟩] = some s ∧ s.leaked = some 7 ∧
    s.events = [.listen (.addr 1 2) 0 7, .setHandler 7 9 (-304), .freeHandler 9] :=
  ⟨_, rfl, rfl, rfl⟩

/-- It is shut down while it waits. -/
def shutdownRun : List Act :=
  [.other .poll, .build ⟨(0, 7), 0, (0, 0), 0, 0⟩, .attach 60 ⟨(0, 0), 0, (0, 8), 0, 0⟩, .nodeId 0,
   .other .sendReady, .other .receive, .other (.loop .check), .other (.loop (.tick 0)),
   .other (.loop (.dhtTick 60 0)), .other (.loop .nothing), .other (.loop (.wait 10 (-1))),
   .other (.loop .stop), .other (.loop .unblock), .other (.loop .check), .other (.loop .dropRx),
   .leave, .join]

theorem handles_closed_once_shutdownRun : ∃ s, (machine withDht true).run shutdownRun = some s ∧
    s.shut = true ∧ s.events = [.listen (.addr 1 2) 0 7, .setHandler 7 9 0, .attach 7 [5] 0 0 8,
      .join 8 60 0, .localNodeid 7 0, .ready (.ok ()), .serverLoop 7 (some 8) none, .closeDht 8,
      .closeServer 7, .freeHandler 9] ∧ ClosedOnce withDht true shutdownRun s :=
  ⟨_, rfl, rfl, rfl, handles_closed_once rfl⟩

end Nwep.Runtime.ServerHandles
