import Nwep.Lib.Launch
import Nwep.Runtime.Connect
import Nwep.Runtime.Serve
import Nwep.Runtime.StreamStart

/-!
# What the managed terminals return

`ServerBuilder::serve`, `ClientBuilder::connect_async` and `ClientBuilder::stream`
(`nwep/src/runtime.rs` 156-225, 352-401, 590-747) launch an owner thread in the same way: it makes
its set-up calls, reports over a oneshot and goes on; the future hands the report over, an error only
after it has joined the thread. Each of them is a `Launcher`.

Results:
* **`Serve.serve_returns`**: build, attach where there is a dht, and the node id;
* **`Connect.connect_returns`**: the connection;
* **`StreamStart.stream_returns`**: the connection, the stream and its metadata.
-/

namespace Nwep.Runtime

open Nwep.Lib

/-- The error of a call. -/
def errorOf : Result Unit → Option Error
  | .ok _ => none
  | .error e => some e

namespace Serve

/-- The calls of the set-up. -/
inductive SetUp
  | build | attach | nodeId
  deriving DecidableEq

def plan (cfg : ServerLoop.Config) : List SetUp :=
  .build :: ((if cfg.dht then [.attach] else []) ++ [.nodeId])

def Owner.thread (cfg : ServerLoop.Config) : Owner → Thread SetUp
  | .unspawned => .unspawned
  | .build => .settingUp (plan cfg)
  | .attach => .settingUp [.attach, .nodeId]
  | .nodeId => .settingUp [.nodeId]
  | .ready => .settingUp []
  | .loop _ => .running
  | .exited => .gone

def Future.waiter : Future → Waiter Error
  | .created => .waiting
  | .waiting => .waiting
  | .joining e => .joining e
  | .failed e => .failed e
  | .served => .served
  | .dropped => .left

def view (cfg : ServerLoop.Config) (s : State) : Launch SetUp Error :=
  ⟨s.owner.thread cfg, s.ready, s.future.waiter⟩

/-- The call a label makes, and the error it fails with. -/
def call (s : State) : Act → Option (SetUp × Option Error)
  | .build r => some (.build, errorOf r)
  | .attach r => some (.attach, errorOf r)
  | .nodeId r => some (.nodeId, errorOf r)
  | .panic =>
    match s.owner with
    | .build => some (.build, some .internal)
    | .attach => some (.attach, some .internal)
    | .nodeId => some (.nodeId, some .internal)
    | _ => none
  | _ => none

theorem launcher (cfg : ServerLoop.Config) :
    (machine cfg).Launcher (view cfg) call (plan cfg) .internal where
  init := rfl
  step s a t hr hst := by
    obtain ⟨as, hrun⟩ := hr
    have hi := inv_run hrun
    obtain ⟨future, ready, owner⟩ := s
    cases step_inv hst with
    | poll hf =>
      obtain rfl := hi.created hf
      obtain rfl := hf
      exact .spawn ready
    | spawnFails hf =>
      obtain rfl := hi.created hf
      obtain rfl := hf
      exact .unspawnable ready
    | dropFuture _ => exact .leave _ ready _
    | receiveOk hf hr =>
      obtain rfl := hf
      obtain rfl := hr
      exact .serve _
    | @receiveErr e hf hr =>
      obtain rfl := hf
      rcases hr with hr | ⟨hr, rfl⟩
      · obtain rfl := hr
        exact .take _ e
      · obtain rfl := hr
        exact .takeDropped _
    | @joined e hf ho =>
      obtain rfl := hf
      obtain rfl := ho
      exact .join ready e
    | built ho =>
      obtain rfl := ho
      cases hd : cfg.dht with
      | true =>
        have hplan : plan cfg = [.build, .attach, .nodeId] := by simp [plan, hd]
        simp only [view, Owner.thread, if_true, hplan]
        exact .pass _ _ ready _
      | false =>
        have hplan : plan cfg = [.build, .nodeId] := by simp [plan, hd]
        simp only [view, Owner.thread, hplan]
        exact .pass _ _ ready _
    | attached ho | identified ho =>
      obtain rfl := ho
      exact .pass _ _ ready _
    | @buildErr e ho =>
      obtain rfl := ho
      exact .fail _ _ e ready _
    | @attachErr e ho | @nodeIdErr e ho =>
      obtain rfl := ho
      exact .fail _ _ e ready _
    | panic ho =>
      rcases ho with ho | ho | ho
      all_goals
        obtain rfl := ho
        exact .panic _ _ ready _
    | sendReady ho _ =>
      obtain rfl := ho
      exact .report ready _
    | callerGone ho hf =>
      obtain rfl := ho
      refine .unheard ready _ fun hw => ?_
      cases future with
      | created => exact absurd (hi.created rfl) (by simp)
      | waiting => exact hf rfl
      | _ => exact absurd hw (by simp [Future.waiter])
    | loop ho _ _ =>
      obtain rfl := ho
      exact .same _

end Serve

namespace Connect

def Owner.thread : Owner → Thread Unit
  | .unspawned => .unspawned
  | .connect => .settingUp [()]
  | .ready => .settingUp []
  | .loop _ => .running
  | .exited => .gone

def Future.waiter : Future → Waiter Error
  | .created => .waiting
  | .waiting => .waiting
  | .joining e => .joining e
  | .failed e => .failed e
  | .connected => .served
  | .dropping => .left
  | .dropped => .left

def view (s : State) : Launch Unit Error := ⟨s.owner.thread, s.ready, s.future.waiter⟩

/-- The call a label makes, and the error it fails with: there is only the connection. -/
def call (_ : State) : Act → Option (Unit × Option Error)
  | .connect r => some ((), errorOf r)
  | .panic => some ((), some .internal)
  | _ => none

theorem launcher : machine.Launcher view call [()] .internal where
  init := rfl
  step s a t hr hst := by
    have hi := inv_reachable hr
    obtain ⟨future, ready, owner⟩ := s
    cases step_inv hst with
    | poll hf =>
      obtain rfl := hi.created hf
      obtain rfl := hf
      exact .spawn ready
    | wakerFails hf | spawnFails hf =>
      obtain rfl := hi.created hf
      obtain rfl := hf
      exact .unspawnable ready
    | dropCreated _ | dropWaiting _ | dropSender _ _ => exact .leave _ ready _
    | dropSenderLoop hf ho _ =>
      obtain rfl := hf
      obtain rfl := ho
      exact .same _
    | receiveOk hf hr =>
      obtain rfl := hf
      obtain rfl := hr
      exact .serve _
    | @receiveErr e hf hr =>
      obtain rfl := hf
      rcases hr with hr | ⟨hr, rfl⟩
      · obtain rfl := hr
        exact .take _ e
      · obtain rfl := hr
        exact .takeDropped _
    | @joined e hf ho =>
      obtain rfl := hf
      obtain rfl := ho
      exact .join ready e
    | connect ho =>
      obtain rfl := ho
      exact .pass _ _ ready _
    | @connectErr e ho =>
      obtain rfl := ho
      exact .fail _ _ e ready _
    | panic ho =>
      obtain rfl := ho
      exact .panic _ _ ready _
    | sendReady ho _ =>
      obtain rfl := ho
      exact .report ready _
    | callerGone ho hf =>
      obtain rfl := ho
      refine .unheard ready _ fun hw => ?_
      cases future with
      | created => exact absurd (hi.created rfl) (by simp)
      | waiting => exact hf rfl
      | _ => exact absurd hw (by simp [Future.waiter])
    | loop ho _ _ =>
      obtain rfl := ho
      exact .same _

/-- **What `connect_async` returns**, in every run. -/
theorem connect_returns {acts : List Act} {s : State} (h : machine.run acts = some s) :
    Returned [()] .internal (machine.notes call init acts) (view s) :=
  launcher.returns h

/-- The handshake times out; the future hands its error over once the thread is joined. -/
def refusedRun : List Act := [.poll, .connect (.error .networkTimeout), .receive, .joined]

theorem connect_returns_refused :
    ∃ s, machine.run refusedRun = some s ∧ s.future = .failed .networkTimeout ∧
      machine.notes call init refusedRun = [((), some .networkTimeout)] ∧
      Returned [()] .internal (machine.notes call init refusedRun) (view s) :=
  ⟨_, rfl, rfl, rfl, connect_returns rfl⟩

end Connect

namespace StreamStart

/-- The calls of the set-up. -/
inductive SetUp
  | connect | openStream | response
  deriving DecidableEq

def plan : List SetUp := [.connect, .openStream, .response]

/-- The calls a set-up still has to make. -/
def rest : Stream.Pc → List SetUp
  | .connect => plan
  | .openStream => [.openStream, .response]
  | .response => [.response]
  | _ => []

def Owner.thread : Owner → Thread SetUp
  | .unspawned => .unspawned
  | .setUp st => if st.pc.over then .gone else .settingUp (rest st.pc)
  | .panicked _ => .gone
  | .body _ => .running

def Future.waiter : Future → Waiter Error
  | .created => .waiting
  | .waiting => .waiting
  | .joining e => .joining e
  | .failed e => .failed e
  | .streaming => .served
  | .dropped => .left

def view (s : State) : Launch SetUp Error := ⟨s.owner.thread, s.owner.report, s.future.waiter⟩

/-- The call a label makes, and the error it fails with. -/
def call (s : State) : Act → Option (SetUp × Option Error)
  | .stream (.connect r) => some (.connect, errorOf r)
  | .stream (.openStream r) => some (.openStream, errorOf r)
  | .stream (.response r) => some (.response, errorOf r)
  | .panic =>
    match s.owner with
    | .setUp st => (rest st.pc).head?.map fun k => (k, some .internal)
    | _ => none
  | _ => none

/-- A thread that ended before the body is gone. -/
theorem Owner.thread_of_ended {o : Owner} (h : o.ended = true) (hbody : ∀ st, o ≠ .body st) :
    o.thread = .gone := by
  cases o with
  | unspawned => exact absurd h (by simp [Owner.ended])
  | setUp st => exact if_pos h
  | panicked st => rfl
  | body st => exact absurd rfl (hbody st)

/-- The caller acts on the stream: the thread and its report are the same. -/
theorem view_set {s : State} {st t : Stream.State} {a : Stream.Act} (ho : s.owner.stream = some st)
    (hs : Stream.step st a = some t) (ha : a.ofOwner = false) (f : Future) :
    view ⟨f, s.owner.set t⟩ = ⟨s.owner.thread, s.owner.report, f.waiter⟩ := by
  obtain ⟨hpc, hready⟩ := Stream.caller_keeps (Stream.step_inv hs) ha
  cases howner : s.owner with
  | unspawned | panicked _ => rfl
  | setUp u | body u =>
    rw [howner] at ho
    obtain rfl := Option.some.inj ho
    simp [view, Owner.set, Owner.thread, Owner.report, hpc, hready]

/-- A step of the thread in its set-up. -/
theorem launches_setUp {f : Future} {st t : Stream.State} {a : Stream.Act} (hp : Stream.Present st)
    (hset : st.pc.setsUp = true) (hc : f ≠ .created) (hw : f = .waiting → st.caller = .waiting)
    (ha : a.ofOwner = true) (hs : Stream.Step st a t) :
    Launches plan .internal (view ⟨f, .setUp st⟩) (view ⟨f, .after t⟩)
      (call ⟨f, .setUp st⟩ (.stream a)) := by
  have hready := hp.unsent hset
  cases hs with
  | connect hpc | openStream hpc | response hpc =>
    simp only [view, Owner.thread, Owner.report, Owner.after, hpc, hready]
    exact .pass _ _ _ _
  | @connectErr e hpc | @openErr e hpc | @responseErr e hpc =>
    simp only [view, Owner.thread, Owner.report, Owner.after, Stream.State.fail, hpc, hready]
    exact .fail _ _ e .waiting _
  | sendReady hpc _ =>
    simp only [view, Owner.thread, Owner.report, Owner.after, hpc, hready]
    exact .report .waiting _
  | callerGone hpc hgone =>
    simp only [view, Owner.thread, Owner.report, Owner.after, hpc, hready]
    refine .unheard _ _ fun hwait => ?_
    cases f with
    | created => exact hc rfl
    | waiting => exact hgone (hw rfl)
    | _ => exact absurd hwait (by simp [Future.waiter])
  | peer hpc | recv hpc _ _ | recvPanic hpc _ _ | recvErr hpc _ | pushChunk hpc _ | pushLast hpc _
  | verify hpc | finish hpc =>
    rw [hpc] at hset
    exact absurd hset (by simp [Stream.Pc.setsUp])
  | pushFails hpc _ =>
    rcases hpc with ⟨_, _, hpc⟩ | ⟨_, hpc⟩ <;> rw [hpc] at hset <;>
      exact absurd hset (by simp [Stream.Pc.setsUp])
  | receiveOk _ _ | receiveErr _ _ | nextItem _ _ | nextClosed _ _ | drop _ =>
    exact absurd ha (by simp [Stream.Act.ofOwner])

/-- A call of the set-up panics. -/
theorem launches_panic {f : Future} {st : Stream.State} (hp : Stream.Present st)
    (hc : st.pc.calls = true) :
    Launches plan .internal (view ⟨f, .setUp st⟩) (view ⟨f, .panicked st⟩)
      (call ⟨f, .setUp st⟩ .panic) := by
  simp only [view, call, Owner.thread, Owner.report]
  cases hpc : st.pc with
  | connect | openStream | response =>
    rw [hp.unsent (by rw [hpc]; rfl)]
    exact .panic _ _ .waiting _
  | _ =>
    rw [hpc] at hc
    exact absurd hc (by simp [Stream.Pc.calls])

/-- Past the set-up no label is a call of it. -/
theorem call_body {s : State} {st t : Stream.State} {a : Stream.Act} (hs : Stream.Step st a t)
    (hp : st.pc.setsUp = false) : call s (.stream a) = none := by
  cases hs with
  | connect hpc | connectErr hpc | openStream hpc | openErr hpc | response hpc | responseErr hpc =>
    rw [hpc] at hp
    exact absurd hp (by simp [Stream.Pc.setsUp])
  | _ => rfl

theorem launcher : machine.Launcher view call plan .internal where
  init := rfl
  step s a t hr hst := by
    have hi := inv_reachable hr
    have hpresent : ∀ st, s.owner.stream = some st → Stream.Present st :=
      fun st ho => Stream.present_reachable (hi.reach st ho)
    cases step_inv hst with
    | poll hf =>
      obtain ⟨future, owner⟩ := s
      obtain rfl := hi.created hf
      obtain rfl := hf
      exact .spawn .waiting
    | spawnFails hf =>
      obtain ⟨future, owner⟩ := s
      obtain rfl := hi.created hf
      obtain rfl := hf
      exact .unspawnable .waiting
    | dropCreated _ => exact .leave _ _ _
    | dropWaiting _ ho hs =>
      rw [view_set ho hs rfl]
      exact .leave _ _ _
    | receiveOk hf hr ho hs =>
      rw [view_set ho hs rfl, view, hf, hr]
      exact .serve _
    | @receiveErr st t e hf hr ho hs =>
      rw [view_set ho hs rfl, view, hf, hr]
      exact .take _ e
    | receiveDropped hf hr =>
      rw [view, view, hf, hr]
      exact .takeDropped _
    | @joined e hf ho =>
      rw [view, view, hf, Owner.thread_of_ended ho (hi.joining e hf).2]
      exact .join _ e
    | @panic st ho hc =>
      obtain ⟨future, owner⟩ := s
      obtain rfl := ho
      exact launches_panic (hpresent st rfl) hc
    | @setUp a st t ho ha hs =>
      obtain ⟨future, owner⟩ := s
      obtain rfl := ho
      have hst := Stream.step_inv hs
      have hset : st.pc.setsUp = true := by
        refine (hi.setUp st rfl).resolve_right fun hover => ?_
        exact absurd (ha.symm.trans (Stream.not_ofOwner_of_over hst hover)) (by simp)
      exact launches_setUp (hpresent st rfl) hset (fun hf => absurd (hi.created hf) (by simp))
        (fun hf => hi.waiting st hf rfl) ha hst
    | @body a st t ho ha hs =>
      have hst := Stream.step_inv hs
      obtain ⟨hpast, -⟩ := hi.body st ho
      have hready := (Stream.past_step hst hpast).2
      rw [call_body hst hpast]
      have hview : view { s with owner := .body t } = view s := by
        simp [view, ho, Owner.thread, Owner.report, hready]
      rw [hview]
      exact .same _

/-- **What `stream` returns**, in every run. -/
theorem stream_returns {acts : List Act} {s : State} (h : machine.run acts = some s) :
    Returned plan .internal (machine.notes call init acts) (view s) :=
  launcher.returns h

/-- The stream cannot be opened; the caller is told once the thread is joined. -/
def refusedRun : List Act :=
  [.poll, .stream (.connect (.ok ())), .stream (.openStream (.error .protoMaxStreams)), .receive,
   .joined]

theorem stream_returns_refused :
    ∃ s, machine.run refusedRun = some s ∧ s.future = .failed .protoMaxStreams ∧
      machine.notes call init refusedRun =
        [(.connect, none), (.openStream, some .protoMaxStreams)] ∧
      Returned plan .internal (machine.notes call init refusedRun) (view s) :=
  ⟨_, rfl, rfl, rfl, stream_returns rfl⟩

end StreamStart

end Nwep.Runtime
