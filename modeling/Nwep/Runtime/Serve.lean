import Nwep.Runtime.ServerStop

/-!
# Starting a managed server

Model of `ServerBuilder::serve` (`nwep/src/runtime.rs` 156-225): the task that polls or drops the
future, and the owner thread it spawns. The thread builds the server, attaches the dht, reads the
node id and reports over the `ready` cell; then it is the owner of `ServerLoop`, whose steps are
those of `Runtime.ServerLoop`.

* The `RunningServer` exists from the moment the future takes an `Ok` out of `ready`; only then do
  the steps of its callers, `shutdown` and `drop` happen (`Act.ofHandle`).
* The future can be dropped where it awaits: before its first poll, or at `ready_rx.await`. The join
  of a failed thread happens inside one poll.
* `ready_tx.send(Ok(..))` fails exactly when the future, and with it the receiver, is gone.

Results:
* `loop_reachable`: the loop the thread runs is a run of `ServerLoop`;
* `orphan_step`, `orphan_runFrom`: what no handle owns is never stopped;
* **`no_orphan_iff`**: a run has no orphaned server exactly when its future is not dropped while the
  owner is in the loop.
-/

namespace Nwep.Runtime

namespace ServerLoop

/-- The label is a step of the `RunningServer` or of a future that borrows it. -/
def Act.ofHandle : Act → Bool
  | .start _ _ => true
  | .send _ => true
  | .sendClosed _ => true
  | .reply _ => true
  | .cancel _ => true
  | .stop => true
  | .dropSender => true
  | _ => false

/-- The owner has not left `run_server_loop`. -/
def Pc.running : Pc → Bool
  | .exiting => false
  | .returned => false
  | .panicked => false
  | _ => true

/-- A handle that is no longer alive has set the flag. -/
theorem stop_of_handle {cfg : Config} {s : State} (h : (machine cfg).Reachable s) :
    s.handle = .alive ∨ s.stop = true := by
  refine (machine cfg).reachable_induction (P := fun s => s.handle = .alive ∨ s.stop = true)
    (Or.inl rfl) ?_ h
  intro s a t _ hp hst
  cases step_inv hst with
  | stop _ _ => exact Or.inr rfl
  | dropSender hh =>
    refine Or.inr (hp.resolve_left fun ha => ?_)
    rw [hh] at ha
    exact absurd ha (by simp)
  | _ => exact hp

/-- What has left the loop stays out of it. -/
theorem not_running_step {cfg : Config} {s t : State} {a : Act} (hs : Step cfg s a t)
    (h : s.pc.running = false) : t.pc.running = false := by
  cases hs with
  | start _ | send _ _ | sendClosed _ _ | reply _ _ | cancel _ | stop _ _ | dropSender _ => exact h
  | dropRx _ => rfl
  | checkStop hpc _ | checkGo hpc _ | tickDht hpc _ _ | tickBare hpc _ _ | tickErr hpc _
  | lookupTick hpc _ | lookupTickErr hpc _ | dhtTickAnnounce hpc _ | dhtTick hpc _
  | lookupDhtTick hpc _ | lookupDhtTickErr hpc _ | announce hpc _ | skipAnnounce hpc _
  | ageOverflow hpc _ | take hpc _ | metrics hpc _ | nothing hpc _ | storedHit hpc _
  | storedMiss hpc _ | resultHit hpc _ | resultMiss hpc _ | startLookup hpc _
  | startLookupErr hpc _ | deadline hpc _ | deadlinePanic hpc _ | clockOpen hpc _ | clockPast hpc _
  | lookupWait hpc | wait hpc | unblock hpc | lookupUnblock hpc =>
    rw [hpc] at h
    exact absurd h (by simp [Pc.running])

/-- Only the handle sets the flag. -/
theorem stop_of_owner {cfg : Config} {s t : State} {a : Act} (hs : Step cfg s a t)
    (ha : a.ofHandle = false) : t.stop = s.stop := by
  cases hs with
  | stop _ _ => exact absurd ha (by simp [Act.ofHandle])
  | _ => rfl

end ServerLoop

namespace Serve

open Nwep.Lib

/-- Where the `serve` future is. -/
inductive Future
  | created                -- not polled yet, no thread
  | waiting                -- at `ready_rx.await`
  | joining (e : Error)    -- at `join.join()`
  | failed (e : Error)     -- returned an error
  | served                 -- returned the `RunningServer`
  | dropped
  deriving DecidableEq

/-- Where the owner thread is. -/
inductive Owner
  | unspawned
  | build                              -- `self.build()`
  | attach                             -- `attach_managed_dht(..)`
  | nodeId                             -- `server.node_id()`
  | ready                              -- before `ready_tx.send(Ok(info))`
  | loop (s : ServerLoop.State)        -- `run_server_loop(..)`
  | exited

structure State where
  future : Future
  ready  : Oneshot (Result Unit)
  owner  : Owner

inductive Act
  | poll
  | spawnFails
  | dropFuture
  | receive
  | joined
  | build (r : Result Unit)
  | attach (r : Result Unit)
  | nodeId (r : Result Unit)
  | panic
  | sendReady
  | loop (a : ServerLoop.Act)

def init : State where
  future := .created
  ready := .waiting
  owner := .unspawned

/-- The thread reports an error and ends. -/
def State.fail (s : State) (e : Error) : State :=
  { s with ready := s.ready.send (.error e), owner := .exited }

/-- One step of the task or of the owner thread. -/
def step (cfg : ServerLoop.Config) (s : State) : Act → Option State
  | .poll =>
    if s.future = .created then some { s with future := .waiting, owner := .build } else none
  | .spawnFails =>
    if s.future = .created then some { s with future := .failed .internal } else none
  | .dropFuture =>
    match s.future with
    | .created => some { s with future := .dropped }
    | .waiting => some { s with future := .dropped }
    | _ => none
  | .receive =>
    match s.future, s.ready with
    | .waiting, .sent (.ok _) => some { s with future := .served }
    | .waiting, .sent (.error e) => some { s with future := .joining e }
    | .waiting, .dropped => some { s with future := .joining .internal }
    | _, _ => none
  | .joined =>
    match s.future, s.owner with
    | .joining e, .exited => some { s with future := .failed e }
    | _, _ => none
  | .build r =>
    match s.owner, r with
    | .build, .ok _ => some { s with owner := if cfg.dht then .attach else .nodeId }
    | .build, .error e => some (s.fail e)
    | _, _ => none
  | .attach r =>
    match s.owner, r with
    | .attach, .ok _ => some { s with owner := .nodeId }
    | .attach, .error e => some (s.fail e)
    | _, _ => none
  | .nodeId r =>
    match s.owner, r with
    | .nodeId, .ok _ => some { s with owner := .ready }
    | .nodeId, .error e => some (s.fail e)
    | _, _ => none
  | .panic =>
    match s.owner with
    | .build | .attach | .nodeId => some { s with ready := s.ready.drop, owner := .exited }
    | _ => none
  | .sendReady =>
    match s.owner with
    | .ready =>
      if s.future = .waiting then
        some { s with ready := s.ready.send (.ok ()), owner := .loop (ServerLoop.init cfg) }
      else some { s with owner := .exited }   -- "the caller went away before listening began"
    | _ => none
  | .loop a =>
    match s.owner with
    | .loop ls =>
      if a.ofHandle = true ∧ s.future ≠ .served then none
      else (ServerLoop.step cfg ls a).map fun ls => { s with owner := .loop ls }
    | _ => none

/-- Starting a managed server. -/
def machine (cfg : ServerLoop.Config) : Machine State Act where
  init := init
  step := step cfg

/-! ## What each step does -/

/-- Every enabled step, with its guard and its effect. -/
inductive Step (cfg : ServerLoop.Config) (s : State) : Act → State → Prop
  | poll (h : s.future = .created) :
      Step cfg s .poll { s with future := .waiting, owner := .build }
  | spawnFails (h : s.future = .created) :
      Step cfg s .spawnFails { s with future := .failed .internal }
  | dropFuture (h : s.future = .created ∨ s.future = .waiting) :
      Step cfg s .dropFuture { s with future := .dropped }
  | receiveOk {u} (h : s.future = .waiting) (hr : s.ready = .sent (.ok u)) :
      Step cfg s .receive { s with future := .served }
  | receiveErr {e} (h : s.future = .waiting)
      (hr : s.ready = .sent (.error e) ∨ s.ready = .dropped ∧ e = .internal) :
      Step cfg s .receive { s with future := .joining e }
  | joined {e} (h : s.future = .joining e) (ho : s.owner = .exited) :
      Step cfg s .joined { s with future := .failed e }
  | built {u} (h : s.owner = .build) :
      Step cfg s (.build (.ok u)) { s with owner := if cfg.dht then .attach else .nodeId }
  | attached {u} (h : s.owner = .attach) : Step cfg s (.attach (.ok u)) { s with owner := .nodeId }
  | identified {u} (h : s.owner = .nodeId) : Step cfg s (.nodeId (.ok u)) { s with owner := .ready }
  | buildErr {e} (h : s.owner = .build) : Step cfg s (.build (.error e)) (s.fail e)
  | attachErr {e} (h : s.owner = .attach) : Step cfg s (.attach (.error e)) (s.fail e)
  | nodeIdErr {e} (h : s.owner = .nodeId) : Step cfg s (.nodeId (.error e)) (s.fail e)
  | panic (h : s.owner = .build ∨ s.owner = .attach ∨ s.owner = .nodeId) :
      Step cfg s .panic { s with ready := s.ready.drop, owner := .exited }
  | sendReady (h : s.owner = .ready) (hf : s.future = .waiting) :
      Step cfg s .sendReady
        { s with ready := s.ready.send (.ok ()), owner := .loop (ServerLoop.init cfg) }
  | callerGone (h : s.owner = .ready) (hf : s.future ≠ .waiting) :
      Step cfg s .sendReady { s with owner := .exited }
  | loop {a ls lt} (h : s.owner = .loop ls) (ha : a.ofHandle = true → s.future = .served)
      (hs : ServerLoop.step cfg ls a = some lt) :
      Step cfg s (.loop a) { s with owner := .loop lt }

theorem step_inv {cfg : ServerLoop.Config} {s t : State} {a : Act} (h : step cfg s a = some t) :
    Step cfg s a t := by
  cases a with
  | poll =>
    simp only [step] at h
    split at h
    · rename_i hf
      obtain rfl := Option.some.inj h
      exact .poll hf
    · exact absurd h (by simp)
  | spawnFails =>
    simp only [step] at h
    split at h
    · rename_i hf
      obtain rfl := Option.some.inj h
      exact .spawnFails hf
    · exact absurd h (by simp)
  | dropFuture =>
    simp only [step] at h
    split at h
    · rename_i hf
      obtain rfl := Option.some.inj h
      exact .dropFuture (Or.inl hf)
    · rename_i hf
      obtain rfl := Option.some.inj h
      exact .dropFuture (Or.inr hf)
    · exact absurd h (by simp)
  | receive =>
    simp only [step] at h
    split at h
    · rename_i u hf hr
      obtain rfl := Option.some.inj h
      exact .receiveOk hf hr
    · rename_i e hf hr
      obtain rfl := Option.some.inj h
      exact .receiveErr hf (Or.inl hr)
    · rename_i hf hr
      obtain rfl := Option.some.inj h
      exact .receiveErr hf (Or.inr ⟨hr, rfl⟩)
    · exact absurd h (by simp)
  | joined =>
    simp only [step] at h
    split at h
    · rename_i e hf ho
      obtain rfl := Option.some.inj h
      exact .joined hf ho
    · exact absurd h (by simp)
  | build r =>
    simp only [step] at h
    split at h
    · rename_i u ho
      obtain rfl := Option.some.inj h
      exact .built ho
    · rename_i e ho
      obtain rfl := Option.some.inj h
      exact .buildErr ho
    · exact absurd h (by simp)
  | attach r =>
    simp only [step] at h
    split at h
    · rename_i u ho
      obtain rfl := Option.some.inj h
      exact .attached ho
    · rename_i e ho
      obtain rfl := Option.some.inj h
      exact .attachErr ho
    · exact absurd h (by simp)
  | nodeId r =>
    simp only [step] at h
    split at h
    · rename_i u ho
      obtain rfl := Option.some.inj h
      exact .identified ho
    · rename_i e ho
      obtain rfl := Option.some.inj h
      exact .nodeIdErr ho
    · exact absurd h (by simp)
  | panic =>
    simp only [step] at h
    split at h
    · rename_i ho
      obtain rfl := Option.some.inj h
      exact .panic (Or.inl ho)
    · rename_i ho
      obtain rfl := Option.some.inj h
      exact .panic (Or.inr (Or.inl ho))
    · rename_i ho
      obtain rfl := Option.some.inj h
      exact .panic (Or.inr (Or.inr ho))
    · exact absurd h (by simp)
  | sendReady =>
    simp only [step] at h
    split at h
    · rename_i ho
      split at h
      · rename_i hf
        obtain rfl := Option.some.inj h
        exact .sendReady ho hf
      · rename_i hf
        obtain rfl := Option.some.inj h
        exact .callerGone ho hf
    · exact absurd h (by simp)
  | loop a =>
    simp only [step] at h
    split at h
    · rename_i ls ho
      split at h
      · exact absurd h (by simp)
      · rename_i hg
        obtain ⟨lt, hlt, rfl⟩ := Option.map_eq_some_iff.mp h
        refine .loop ho (fun ha => ?_) hlt
        by_contra hf
        exact hg ⟨ha, hf⟩
    · exact absurd h (by simp)

/-! ## Who owns the loop -/

/-- Somebody owns the loop: the future still waits for it, a `RunningServer` exists, or it was told
to stop. -/
def Owned (s : State) : Prop :=
  ∀ ls, s.owner = .loop ls → ls.pc.running = true →
    s.future = .waiting ∨ s.future = .served ∧ ls.handle = .alive ∨ ls.stop = true

/-- No state of the run has a server nobody owns. -/
def NoOrphan (cfg : ServerLoop.Config) (acts : List Act) : Prop :=
  ∀ pre post s, acts = pre ++ post → (machine cfg).run pre = some s → Owned s

/-- The future is not dropped while the owner is in the loop. -/
def NotDroppedRunning (s : State) (a : Act) : Prop :=
  a = .dropFuture → ∀ ls, s.owner = .loop ls → ls.pc.running = false

/-- The thread is before its report. -/
def Owner.settingUp : Owner → Bool
  | .build => true
  | .attach => true
  | .nodeId => true
  | .ready => true
  | _ => false

/-- What every run keeps. Before the future is served nobody can have stopped the server. -/
structure Inv (cfg : ServerLoop.Config) (s : State) : Prop where
  created   : s.future = .created → s.owner = .unspawned
  waiting   : s.owner = .unspawned ∨ s.owner.settingUp = true → s.ready = .waiting
  reported  : ∀ ls, s.owner = .loop ls → s.ready = .sent (.ok ())
  reach     : ∀ ls, s.owner = .loop ls → (ServerLoop.machine cfg).Reachable ls
  unstopped : ∀ ls, s.owner = .loop ls → s.future ≠ .served → ls.stop = false

theorem inv_init (cfg : ServerLoop.Config) : Inv cfg init where
  created := fun _ => rfl
  waiting := fun _ => rfl
  reported := fun ls h => absurd h (by simp [init])
  reach := fun ls h => absurd h (by simp [init])
  unstopped := fun ls h => absurd h (by simp [init])

/-- Only the future moves. -/
theorem Inv.setFuture {cfg : ServerLoop.Config} {s : State} (h : Inv cfg s) {f : Future}
    (hf : f ≠ .created) (hs : f = .served ∨ s.future ≠ .served) :
    Inv cfg { s with future := f } where
  created := fun hc => absurd hc hf
  waiting := h.waiting
  reported := h.reported
  reach := h.reach
  unstopped := fun ls hl hne => h.unstopped ls hl (hs.resolve_left hne)

/-- The thread moves on in its set-up. -/
theorem Inv.setUp {cfg : ServerLoop.Config} {s : State} (h : Inv cfg s)
    (ho : s.owner.settingUp = true) {o : Owner} (ho' : o.settingUp = true) :
    Inv cfg { s with owner := o } := by
  have hnl : ∀ ls, o ≠ .loop ls := by
    rintro ls rfl
    exact absurd ho' (by simp [Owner.settingUp])
  refine ⟨fun hc => ?_, fun _ => h.waiting (Or.inr ho), fun ls hl => absurd hl (hnl ls),
    fun ls hl => absurd hl (hnl ls), fun ls hl => absurd hl (hnl ls)⟩
  have hun := h.created hc
  rw [hun] at ho
  exact absurd ho (by simp [Owner.settingUp])

/-- The thread ends before the loop. -/
theorem Inv.exit {cfg : ServerLoop.Config} {s : State} (h : Inv cfg s)
    (ho : s.owner.settingUp = true) (c : Oneshot (Result Unit)) :
    Inv cfg { s with ready := c, owner := .exited } := by
  refine ⟨fun hc => ?_, fun hw => ?_, fun ls hl => absurd hl (by simp),
    fun ls hl => absurd hl (by simp), fun ls hl => absurd hl (by simp)⟩
  · have hun := h.created hc
    rw [hun] at ho
    exact absurd ho (by simp [Owner.settingUp])
  · rcases hw with hw | hw <;> exact absurd hw (by simp [Owner.settingUp])

theorem inv_step {cfg : ServerLoop.Config} {s t : State} {a : Act} (h : Inv cfg s)
    (hs : Step cfg s a t) : Inv cfg t := by
  cases hs with
  | poll hf =>
    have hready := h.waiting (Or.inl (h.created hf))
    exact ⟨fun hc => absurd hc (by simp), fun _ => hready, fun ls hl => absurd hl (by simp),
      fun ls hl => absurd hl (by simp), fun ls hl => absurd hl (by simp)⟩
  | spawnFails hf => exact h.setFuture (by simp) (Or.inr (by rw [hf]; simp))
  | dropFuture hf =>
    refine h.setFuture (by simp) (Or.inr ?_)
    rcases hf with hf | hf <;> rw [hf] <;> simp
  | receiveOk hf _ => exact h.setFuture (by simp) (Or.inl rfl)
  | receiveErr hf _ | joined hf _ => exact h.setFuture (by simp) (Or.inr (by rw [hf]; simp))
  | built ho =>
    refine h.setUp (by rw [ho]; rfl) ?_
    cases cfg.dht <;> rfl
  | attached ho | identified ho => exact h.setUp (by rw [ho]; rfl) rfl
  | buildErr ho | attachErr ho | nodeIdErr ho => exact h.exit (by rw [ho]; rfl) _
  | panic ho =>
    refine h.exit ?_ _
    rcases ho with ho | ho | ho <;> rw [ho] <;> rfl
  | callerGone ho _ => exact h.exit (by rw [ho]; rfl) s.ready
  | sendReady ho hf =>
    have hready := h.waiting (Or.inr (by rw [ho]; rfl))
    refine ⟨fun hc => ?_, fun hw => ?_, fun ls _ => ?_, fun ls hl => ?_, fun ls hl _ => ?_⟩
    · exact absurd (hf.symm.trans hc) (by simp)
    · rcases hw with hw | hw <;> exact absurd hw (by simp [Owner.settingUp])
    · rw [hready]
      rfl
    · obtain rfl := Owner.loop.inj hl
      exact ⟨[], rfl⟩
    · obtain rfl := Owner.loop.inj hl
      rfl
  | @loop a ls lt ho ha hst =>
    refine ⟨fun hc => ?_, fun hw => ?_, fun _ _ => h.reported ls ho, fun ls' hl => ?_,
      fun ls' hl hne => ?_⟩
    · have hun := h.created hc
      rw [ho] at hun
      exact absurd hun (by simp)
    · rcases hw with hw | hw <;> exact absurd hw (by simp [Owner.settingUp])
    · obtain rfl := Owner.loop.inj hl
      exact (ServerLoop.machine cfg).reachable_step (h.reach ls ho) hst
    · obtain rfl := Owner.loop.inj hl
      cases hh : a.ofHandle with
      | true => exact absurd (ha hh) hne
      | false =>
        rw [ServerLoop.stop_of_owner (ServerLoop.step_inv hst) hh]
        exact h.unstopped ls ho hne

theorem inv_run {cfg : ServerLoop.Config} {acts : List Act} {s : State}
    (h : (machine cfg).run acts = some s) : Inv cfg s :=
  (machine cfg).reachable_induction (P := Inv cfg) (inv_init cfg)
    (fun _ _ _ _ hp hst => inv_step hp (step_inv hst)) ⟨acts, h⟩

/-- A server nobody owns: it runs, the flag is clear, and the future is gone. -/
def Orphan (s : State) : Prop :=
  s.future = .dropped ∧ ∃ ls, s.owner = .loop ls ∧ ls.stop = false

/-- An orphan stays one: the only label that sets the flag is the handle's. -/
theorem orphan_step {cfg : ServerLoop.Config} {s t : State} {a : Act} (h : Orphan s)
    (hs : Step cfg s a t) : Orphan t := by
  obtain ⟨hf, ls, ho, hstop⟩ := h
  cases hs with
  | poll hc | spawnFails hc | receiveOk hc _ | receiveErr hc _ | joined hc _ | sendReady _ hc =>
    rw [hf] at hc
    exact absurd hc (by simp)
  | dropFuture hc => rcases hc with hc | hc <;> rw [hf] at hc <;> exact absurd hc (by simp)
  | built hc | attached hc | identified hc | buildErr hc | attachErr hc | nodeIdErr hc
  | callerGone hc _ =>
    rw [ho] at hc
    exact absurd hc (by simp)
  | panic hc => rcases hc with hc | hc | hc <;> rw [ho] at hc <;> exact absurd hc (by simp)
  | @loop b ls' lt hc ha hst =>
    obtain rfl : ls = ls' := Owner.loop.inj (ho.symm.trans hc)
    refine ⟨hf, lt, rfl, ?_⟩
    cases hh : b.ofHandle with
    | true =>
      have hserved := ha hh
      rw [hf] at hserved
      exact absurd hserved (by simp)
    | false => exact (ServerLoop.stop_of_owner (ServerLoop.step_inv hst) hh).trans hstop

/-- **Nothing can stop an orphan**: its flag is clear in every later state. -/
theorem orphan_runFrom {cfg : ServerLoop.Config} {acts : List Act} {s t : State} (h : Orphan s)
    (hr : (machine cfg).runFrom s acts = some t) : Orphan t :=
  (machine cfg).runFrom_induction (P := Orphan) (fun _ _ _ hp hst => orphan_step hp (step_inv hst))
    h hr

/-! ## The main result -/

/-- The future waits for the loop, or was served. -/
def Held (s : State) : Prop :=
  ∀ ls, s.owner = .loop ls → ls.pc.running = true → s.future = .waiting ∨ s.future = .served

theorem Held.owned {cfg : ServerLoop.Config} {s : State} (hi : Inv cfg s) (h : Held s) :
    Owned s := by
  intro ls ho hrun
  rcases h ls ho hrun with hf | hf
  · exact Or.inl hf
  · rcases ServerLoop.stop_of_handle (hi.reach ls ho) with ha | hs
    · exact Or.inr (Or.inl ⟨hf, ha⟩)
    · exact Or.inr (Or.inr hs)

theorem held_step {cfg : ServerLoop.Config} {s t : State} {a : Act} (hi : Inv cfg s) (h : Held s)
    (hg : NotDroppedRunning s a) (hs : Step cfg s a t) : Held t := by
  intro lt hl hrun
  cases hs with
  | poll _ => exact absurd hl (by simp)
  | spawnFails hf =>
    have hun := hi.created hf
    have hl : s.owner = .loop lt := hl
    rw [hun] at hl
    exact absurd hl (by simp)
  | dropFuture _ =>
    rw [hg rfl lt hl] at hrun
    exact absurd hrun (by simp)
  | receiveOk _ _ => exact Or.inr rfl
  | receiveErr _ hr =>
    have hok := hi.reported lt hl
    rcases hr with hr | ⟨hr, -⟩ <;> rw [hok] at hr <;> exact absurd hr (by simp)
  | joined _ ho =>
    have hl : s.owner = .loop lt := hl
    rw [ho] at hl
    exact absurd hl (by simp)
  | built _ =>
    have hl : (if cfg.dht then Owner.attach else .nodeId) = .loop lt := hl
    split at hl <;> exact absurd hl (by simp)
  | attached _ | identified _ | buildErr _ | attachErr _ | nodeIdErr _ | panic _ | callerGone _ _ =>
    exact absurd hl (by simp [State.fail])
  | sendReady _ hf => exact Or.inl hf
  | @loop b ls _ ho _ hst =>
    obtain rfl := Owner.loop.inj hl
    refine h ls ho ?_
    cases hr : ls.pc.running with
    | true => rfl
    | false =>
      rw [ServerLoop.not_running_step (ServerLoop.step_inv hst) hr] at hrun
      exact absurd hrun (by simp)

/-- **No orphaned managed server**, exactly in the runs that do not drop the future while the owner
is in the loop. -/
theorem no_orphan_iff {cfg : ServerLoop.Config} {acts : List Act} {s : State}
    (h : (machine cfg).run acts = some s) :
    NoOrphan cfg acts ↔ (machine cfg).Guarded NotDroppedRunning init acts := by
  constructor
  · intro hall
    refine (machine cfg).guarded_of_split h ?_
    rintro pre a post u t rfl hu ht - rfl ls ho
    have hrun : (machine cfg).run (pre ++ [.dropFuture]) = some t :=
      (machine cfg).run_snoc.mpr ⟨u, hu, ht⟩
    have howned := hall (pre ++ [.dropFuture]) post t (by simp) hrun
    have hst : Step cfg u .dropFuture t := step_inv ht
    by_contra hrunning
    cases hst with
    | dropFuture hf =>
      have hne : u.future ≠ .served := by rcases hf with hf | hf <;> rw [hf] <;> simp
      have hclear := (inv_run hu).unstopped ls ho hne
      rcases howned ls ho (by simpa using hrunning) with hw' | ⟨hs', -⟩ | hst'
      · exact absurd hw' (by simp)
      · exact absurd hs' (by simp)
      · rw [hclear] at hst'
        exact absurd hst' (by simp)
  · rintro hg pre post u rfl hu
    have hgpre := (((machine cfg).guarded_append hu).mp hg).1
    have hheld : Held u := by
      refine (machine cfg).run_induction_guarded (P := fun _ s => Held s) ?_ ?_ hu hgpre
      · intro ls hl
        exact absurd hl (by simp [machine, init])
      · intro as s a t hr hp hga hst
        exact held_step (inv_run hr) hp hga (step_inv hst)
    exact hheld.owned (inv_run hu)

/-- The handle is taken, the server is shut down. -/
def servedRun : List Act :=
  [.poll, .build (.ok ()), .nodeId (.ok ()), .sendReady, .loop .check, .receive, .loop .stop,
   .loop (.tick 0), .loop (.wait 10 (-1)), .loop .unblock, .loop .check, .loop .dropRx]

theorem no_orphan_iff_servedRun :
    ∃ s, (machine ⟨false, none, true⟩).run servedRun = some s ∧ s.future = .served ∧
      NoOrphan ⟨false, none, true⟩ servedRun :=
  ⟨_, rfl, rfl, (no_orphan_iff rfl).mpr ((machine _).guarded_of_forall
    (by simp [servedRun, NotDroppedRunning]) _)⟩

/-- The future is dropped with the report still unread. -/
def droppedRun : List Act :=
  [.poll, .build (.ok ()), .nodeId (.ok ()), .sendReady, .loop .check, .dropFuture]

/-- **An orphan**: the caller is gone, the loop runs, and nothing can set its flag. -/
theorem dropped_orphan :
    ∃ s, (machine ⟨false, none, true⟩).run droppedRun = some s ∧ Orphan s ∧
      ¬ NoOrphan ⟨false, none, true⟩ droppedRun := by
  refine ⟨_, rfl, ⟨rfl, _, rfl, rfl⟩, fun h => ?_⟩
  rcases h droppedRun [] _ rfl rfl _ rfl rfl with hf | ⟨hf, -⟩ | hs
  · exact absurd hf (by simp)
  · exact absurd hf (by simp)
  · exact absurd hs (by decide)

end Serve

end Nwep.Runtime
