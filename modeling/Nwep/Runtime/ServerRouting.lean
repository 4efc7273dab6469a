import Nwep.Runtime.ServerClock

/-!
# Where the answers of the managed server come from

* The run of a command starts where the owner takes it (`Underway`) and ends with the step that
  fills its cell (`Ends`): the record is found, a C call fails, or the clock is at the deadline.
* An answer is the command's own when the history holds that run, for the very target and timeout
  its call was started with (`Ran`).

Results:
* `calls_step`, `queue_step`: who moves a future and who queues;
* **`history_run`**: every answer in a cell is the one its own run ended with, in every run.
-/

namespace Nwep.Runtime.ServerLoop

open Nwep.Lib

/-! ## What a step does to a call and the queue -/

/-- How a future moves. -/
inductive Moves (cfg : Config) (s : State) (c : CallId) : Act → Call → Prop
  | start {ask} (h : c = s.started) :
      Moves cfg s c (.start c ask) (if cfg.dht then .sending ask else .done ask.unattached)
  | send {ask} (h : s.calls c = .sending ask) (hr : s.cmds.rxOpen = true) :
      Moves cfg s c (.send c) (.awaiting ask)
  | sendClosed {ask} (h : s.calls c = .sending ask) (hr : s.cmds.rxOpen = false) :
      Moves cfg s c (.sendClosed c) (.done ask.closed)
  | reply {ask o} (h : s.calls c = .awaiting ask) (hr : (s.replies c).recv = some o) :
      Moves cfg s c (.reply c) (.done (o.getD ask.closed))
  | cancel {ask} (h : s.calls c = .sending ask ∨ s.calls c = .awaiting ask) :
      Moves cfg s c (.cancel c) .cancelled

theorem moves_setCall {cfg : Config} {s : State} {a : Act} {c : CallId} {k : Call}
    (h : Moves cfg s c a k) (b : CallId) :
    (s.setCall c k).calls b = s.calls b ∨ Moves cfg s b a ((s.setCall c k).calls b) := by
  by_cases hb : b = c
  · subst hb
    right
    rw [s.setCall_self]
    exact h
  · exact Or.inl (s.setCall_ne k hb)

theorem calls_step {cfg : Config} {s t : State} {a : Act} (hs : Step cfg s a t) (c : CallId) :
    t.calls c = s.calls c ∨ Moves cfg s c a (t.calls c) := by
  cases hs with
  | start _ => exact moves_setCall (.start rfl) c
  | send h hp =>
    obtain ⟨-, hr, -⟩ := Mpsc.push_spec hp
    exact moves_setCall (.send h hr) c
  | sendClosed h hr => exact moves_setCall (.sendClosed h hr) c
  | reply h hr => exact moves_setCall (.reply h hr) c
  | cancel h => exact moves_setCall (.cancel h) c
  | _ => exact Or.inl rfl

/-- Where a queued command comes from. -/
theorem queue_step {cfg : Config} {s t : State} {a : Act} (hs : Step cfg s a t)
    {cmd : ServerCommand} (h : cmd ∈ t.cmds.queue) :
    cmd ∈ s.cmds.queue ∨ ∃ c ask, a = .send c ∧ s.calls c = .sending ask ∧ cmd = ask.command c := by
  cases hs with
  | @send c ask ch hc hp =>
    obtain ⟨-, -, -, hq, -, -⟩ := Mpsc.push_spec hp
    have hmem : cmd ∈ s.cmds.queue ++ [ask.command c] := hq ▸ h
    rcases List.mem_append.mp hmem with h | h
    · exact Or.inl h
    · exact Or.inr ⟨c, ask, rfl, hc, List.mem_singleton.mp h⟩
  | take _ hq | metrics _ hq =>
    obtain ⟨hqq, -, -⟩ := Mpsc.tryRecv_item hq
    exact Or.inl (hqq ▸ List.mem_cons_of_mem _ h)
  | ageOverflow _ _ | deadlinePanic _ _ | dropRx _ => exact absurd h List.not_mem_nil
  | _ => exact Or.inl h

/-! ## The run of a command -/

/-- The owner took the command of `job` after `pre` and has been at it over `mid`: it took no other
command, and every `lookup_result` was for its target and found nothing. -/
structure Underway (cfg : Config) (pre mid : List Act) (job : Job) : Prop where
  started : .start job.reply (.resolve job.target job.timeout) ∈ pre
  taken   : ∃ s ch, (machine cfg).run pre = some s ∧ s.pc = .recv ∧
    s.cmds.tryRecv = .item (.resolve job) ch
  alone   : .take ∉ mid
  missed  : ∀ target rc out, .lookupResult target rc out ∈ mid →
    target = job.target ∧ Dht.lookupResult rc out = none

/-- The deadline of `job` was computed as `dl`. -/
def Begun (mid : List Act) (job : Job) (dl : Instant) : Prop :=
  ∃ begun, .deadline begun ∈ mid ∧ instantAdd begun job.timeout = some dl

/-- The step that ends the run of `job`, and with what: the record, the error of the C call that
interrupted it, or `IdentityNotFound` at the deadline. -/
inductive Ends (mid : List Act) (job : Job) : Act → Result Address → Prop
  | found {rc out r} (h : Dht.lookupResult rc out = some r) :
      Ends mid job (.lookupResult job.target rc out) (.ok r.address)
  | startLookup {secs rc e} (h : Dht.startLookup rc = .error e) :
      Ends mid job (.startLookup job.target secs rc) (.error e)
  | tick {rc e} (h : Server.tick rc = .error e) : Ends mid job (.tick rc) (.error e)
  | dhtTick {secs rc e} (h : Dht.tick rc = .error e) : Ends mid job (.dhtTick secs rc) (.error e)
  | timeout {dl now} (hb : Begun mid job dl) (h : dl ≤ now) :
      Ends mid job (.clock now) (.error .identityNotFound)

/-- The command of `job` ran, and ended with `r`. -/
def Ran (cfg : Config) (acts : List Act) (job : Job) (r : Result Address) : Prop :=
  ∃ pre mid a post, acts = pre ++ .take :: (mid ++ a :: post) ∧ Underway cfg pre mid job ∧
    Ends mid job a r

/-- The `dht_metrics` command of call `c` was served with the snapshot `m`. -/
def Counted (cfg : Config) (acts : List Act) (c : CallId) (m : DhtMetrics) : Prop :=
  ∃ pre post s ch, acts = pre ++ .metrics m :: post ∧ .start c .dhtMetrics ∈ pre ∧
    (machine cfg).run pre = some s ∧ s.cmds.tryRecv = .item (.dhtMetrics c) ch

theorem Ran.snoc {cfg : Config} {acts : List Act} {job : Job} {r : Result Address}
    (h : Ran cfg acts job r) (a : Act) : Ran cfg (acts ++ [a]) job r := by
  obtain ⟨pre, mid, b, post, rfl, hu, he⟩ := h
  exact ⟨pre, mid, b, post ++ [a], by simp, hu, he⟩

theorem Counted.snoc {cfg : Config} {acts : List Act} {c : CallId} {m : DhtMetrics}
    (h : Counted cfg acts c m) (a : Act) : Counted cfg (acts ++ [a]) c m := by
  obtain ⟨pre, post, s, ch, rfl, hc, hr, hq⟩ := h
  exact ⟨pre, post ++ [a], s, ch, by simp, hc, hr, hq⟩

theorem Underway.snoc {cfg : Config} {pre mid : List Act} {job : Job} (h : Underway cfg pre mid job)
    {a : Act} (ha : a ≠ .take) (hm : ∀ target rc out, a = .lookupResult target rc out →
      target = job.target ∧ Dht.lookupResult rc out = none) : Underway cfg pre (mid ++ [a]) job where
  started := h.started
  taken := h.taken
  alone := by
    intro hmem
    rcases List.mem_append.mp hmem with hmem | hmem
    · exact h.alone hmem
    · exact ha (List.mem_singleton.mp hmem).symm
  missed := by
    intro target rc out hmem
    rcases List.mem_append.mp hmem with hmem | hmem
    · exact h.missed target rc out hmem
    · exact hm target rc out (List.mem_singleton.mp hmem).symm

theorem Begun.snoc {mid : List Act} {job : Job} {dl : Instant} (h : Begun mid job dl) (a : Act) :
    Begun (mid ++ [a]) job dl := by
  obtain ⟨begun, hmem, hd⟩ := h
  exact ⟨begun, List.mem_append_left _ hmem, hd⟩

/-- The deadline a lookup carries along. -/
def Lookup.due : Lookup → Option Instant
  | .clock dl => some dl
  | .tick dl => some dl
  | .dhtTick dl => some dl
  | .result dl => some dl
  | .wait dl => some dl
  | .blocked dl _ => some dl
  | _ => none

/-- The command being served is under way, with the deadline it carries. -/
def Running (cfg : Config) (acts : List Act) (s : State) : Prop :=
  ∀ job l, s.pc = .resolve job l → ∃ pre mid, acts = pre ++ .take :: mid ∧
    Underway cfg pre mid job ∧ ∀ dl, l.due = some dl → Begun mid job dl

/-- A step inside the run of a command, or beside it. -/
theorem Running.next {cfg : Config} {acts : List Act} {s t : State} {a : Act}
    (h : Running cfg acts s) (ha : a ≠ .take)
    (hl : ∀ job l', t.pc = .resolve job l' → ∃ l, s.pc = .resolve job l ∧
      (∀ target rc out, a = .lookupResult target rc out →
        target = job.target ∧ Dht.lookupResult rc out = none) ∧
      ∀ dl, l'.due = some dl → l.due = some dl ∨
        ∃ now, a = .deadline now ∧ instantAdd now job.timeout = some dl) :
    Running cfg (acts ++ [a]) t := by
  intro job l' hpc
  obtain ⟨l, hpc', hm, hdue⟩ := hl job l' hpc
  obtain ⟨pre, mid, rfl, hu, hb⟩ := h job l hpc'
  refine ⟨pre, mid ++ [a], by simp, hu.snoc ha hm, fun dl hdl => ?_⟩
  rcases hdue dl hdl with hold | ⟨now, rfl, hd⟩
  · exact (hb dl hold).snoc a
  · exact ⟨now, by simp, hd⟩

theorem running_step {cfg : Config} {acts : List Act} {s t : State} {a : Act}
    (hr : (machine cfg).run acts = some s) (h : Running cfg acts s)
    (hq : ∀ cmd ∈ s.cmds.queue, ∃ ask, .start cmd.reply ask ∈ acts ∧ cmd = ask.command cmd.reply)
    (hs : Step cfg s a t) : Running cfg (acts ++ [a]) t := by
  cases hs with
  | start _ | send _ _ | sendClosed _ _ | reply _ _ | cancel _ | stop _ _ | dropSender _
  | metrics _ _ =>
    exact h.next (by simp) fun job l' hpc => ⟨l', hpc, by simp, fun dl hdl => Or.inl hdl⟩
  | @take job ch hpc hq' =>
    intro job' l' hpc'
    obtain ⟨rfl, rfl⟩ := Pc.resolve.inj hpc'
    obtain ⟨hqq, -, -⟩ := Mpsc.tryRecv_item hq'
    obtain ⟨ask, hstart, hcmd⟩ := hq (.resolve job) (by rw [hqq]; exact List.mem_cons_self)
    have hask : ask = .resolve job.target job.timeout := by
      cases ask with
      | resolve target timeout =>
        have hjob : job = ⟨target, timeout, job.reply⟩ := ServerCommand.resolve.inj hcmd
        rw [hjob]
      | dhtMetrics => exact absurd hcmd (by simp [Ask.command])
    refine ⟨acts, [], rfl, ⟨?_, ⟨s, ch, hr, hpc, hq'⟩, List.not_mem_nil, ?_⟩, ?_⟩
    · exact hask ▸ hstart
    · intro target rc out hmem
      exact absurd hmem List.not_mem_nil
    · intro dl hdl
      exact absurd hdl (by simp [Lookup.due])
  | @storedMiss job rc out hpc hr' =>
    refine h.next (by simp) fun job' l' hpc' => ?_
    obtain ⟨rfl, rfl⟩ := Pc.resolve.inj hpc'
    refine ⟨_, hpc, fun target rc' out' ha => ?_, fun dl hdl => Or.inl hdl⟩
    obtain ⟨rfl, rfl, rfl⟩ := Act.lookupResult.inj ha
    exact ⟨rfl, hr'⟩
  | @resultMiss job dl rc out hpc hr' =>
    refine h.next (by simp) fun job' l' hpc' => ?_
    obtain ⟨rfl, rfl⟩ := Pc.resolve.inj hpc'
    refine ⟨_, hpc, fun target rc' out' ha => ?_, fun dl hdl => Or.inl hdl⟩
    obtain ⟨rfl, rfl, rfl⟩ := Act.lookupResult.inj ha
    exact ⟨rfl, hr'⟩
  | @deadline job now dl hpc hd =>
    refine h.next (by simp) fun job' l' hpc' => ?_
    obtain ⟨rfl, rfl⟩ := Pc.resolve.inj hpc'
    refine ⟨_, hpc, by simp, fun dl' hdl => Or.inr ⟨now, rfl, ?_⟩⟩
    rw [hd]
    exact hdl
  | lookupTick hpc _ | lookupDhtTick hpc _ | startLookup hpc _ | clockOpen hpc _ | lookupWait hpc
  | lookupUnblock hpc =>
    refine h.next (by simp) fun job' l' hpc' => ?_
    obtain ⟨rfl, rfl⟩ := Pc.resolve.inj hpc'
    exact ⟨_, hpc, by simp, fun dl hdl => Or.inl hdl⟩
  | checkStop _ _ | checkGo _ _ | tickDht _ _ _ | tickBare _ _ _ | tickErr _ _ | lookupTickErr _ _
  | dhtTickAnnounce _ _ | dhtTick _ _ | lookupDhtTickErr _ _ | announce _ _ | skipAnnounce _ _
  | ageOverflow _ _ | nothing _ _ | storedHit _ _ | resultHit _ _ | startLookupErr _ _
  | deadlinePanic _ _ | clockPast _ _ | wait _ | unblock _ | dropRx _ =>
    exact h.next (by simp) fun job l' hpc => absurd hpc (by simp [State.finish, State.unwind])

/-- What a finishing step answers is what the run of the command ended with. -/
theorem ran_of_finishes {cfg : Config} {acts : List Act} {s : State} {a : Act} {job : Job}
    {r : Result Address} (h : Running cfg acts s) (hf : Finishes s job a r) :
    Ran cfg (acts ++ [a]) job r := by
  obtain ⟨l, hpc⟩ := hf.pc
  obtain ⟨pre, mid, rfl, hu, hb⟩ := h job l hpc
  refine ⟨pre, mid, a, [], by simp, hu, ?_⟩
  cases hf with
  | found _ hr => exact .found hr
  | startLookup _ hr => exact .startLookup hr
  | tick _ hr => exact .tick hr
  | dhtTick _ hr => exact .dhtTick hr
  | @timeout dl now hpc' hn =>
    obtain rfl : l = .clock dl := (Pc.resolve.inj (hpc.symm.trans hpc')).2
    exact .timeout (hb dl rfl) hn

/-! ## What the history knows of every call -/

/-- Where the calls, the queued commands and the answers come from. -/
structure History (cfg : Config) (acts : List Act) (s : State) : Prop where
  asked   : ∀ c ask, s.calls c = .sending ask ∨ s.calls c = .awaiting ask → .start c ask ∈ acts
  queued  : ∀ cmd ∈ s.cmds.queue, ∃ ask, .start cmd.reply ask ∈ acts ∧ cmd = ask.command cmd.reply
  running : Running cfg acts s
  lookups : ∀ c r, s.replies c = .sent (.resolve r) → ∃ job, job.reply = c ∧ Ran cfg acts job r
  metrics : ∀ c m, s.replies c = .sent (.dhtMetrics m) → ∃ n, m = some n ∧ Counted cfg acts c n

theorem Ask.command_reply (ask : Ask) (c : CallId) : (ask.command c).reply = c := by
  cases ask <;> rfl

theorem history_step {cfg : Config} {acts : List Act} {s t : State} {a : Act}
    (hr : (machine cfg).run acts = some s) (h : History cfg acts s) (hs : Step cfg s a t) :
    History cfg (acts ++ [a]) t := by
  have hmem : ∀ {c ask}, .start c ask ∈ acts → .start c ask ∈ acts ++ [a] :=
    fun hm => List.mem_append_left _ hm
  refine ⟨fun c ask hc => ?_, fun cmd hcmd => ?_, running_step hr h.running h.queued hs,
    fun c r hc => ?_, fun c m hc => ?_⟩
  · rcases calls_step hs c with heq | hm
    · rw [heq] at hc
      exact hmem (h.asked c ask hc)
    · generalize t.calls c = k at hc hm
      cases hm with
      | @start ask' _ =>
        cases hd : cfg.dht with
        | true =>
          obtain rfl : ask' = ask := by simpa [hd] using hc
          simp
        | false => simp [hd] at hc
      | @send ask' hsend _ =>
        obtain rfl : ask' = ask := by simpa using hc
        exact hmem (h.asked c ask' (Or.inl hsend))
      | sendClosed _ _ | reply _ _ | cancel _ => simp at hc
  · rcases queue_step hs hcmd with hold | ⟨c, ask, -, hc, rfl⟩
    · obtain ⟨ask, hstart, hcmd⟩ := h.queued cmd hold
      exact ⟨ask, hmem hstart, hcmd⟩
    · rw [ask.command_reply]
      exact ⟨ask, hmem (h.asked c ask (Or.inl hc)), rfl⟩
  · have hcell := cell_step hs c
    have hold : ∀ r, s.replies c = .sent (.resolve r) →
        ∃ job, job.reply = c ∧ Ran cfg (acts ++ [a]) job r := by
      intro r hc
      obtain ⟨job, hj, hran⟩ := h.lookups c r hc
      exact ⟨job, hj, hran.snoc a⟩
    generalize t.replies c = v at hc hcell
    cases hcell with
    | same => exact hold r hc
    | @lookup job _ hj hf =>
      rcases Oneshot.sent_of_send hc with hc | hnew
      · exact hold r hc
      · obtain rfl := Outcome.resolve.inj hnew
        exact ⟨job, hj, ran_of_finishes h.running hf⟩
    | metrics _ _ _ =>
      rcases Oneshot.sent_of_send hc with hc | hnew
      · exact hold r hc
      · exact absurd hnew (by simp)
    | dropped _ _ | panicked _ _ _ => exact hold r (Oneshot.sent_of_drop hc)
  · have hcell := cell_step hs c
    have hold : ∀ m, s.replies c = .sent (.dhtMetrics m) →
        ∃ n, m = some n ∧ Counted cfg (acts ++ [a]) c n := by
      intro m hm
      obtain ⟨n, hn, hcount⟩ := h.metrics c m hm
      exact ⟨n, hn, hcount.snoc a⟩
    generalize t.replies c = v at hc hcell
    cases hcell with
    | same => exact hold m hc
    | lookup _ _ =>
      rcases Oneshot.sent_of_send hc with hc | hnew
      · exact hold m hc
      · exact absurd hnew (by simp)
    | @metrics n hpc hq ha =>
      rcases Oneshot.sent_of_send hc with hc | hnew
      · exact hold m hc
      · subst ha
        refine ⟨n, Outcome.dhtMetrics.inj hnew, ?_⟩
        cases hs with
        | @metrics n b ch hpc' hq' =>
          obtain ⟨hqq, -, -⟩ := Mpsc.tryRecv_item hq'
          rw [hqq] at hq
          obtain rfl : b = c := by simpa using hq
          obtain ⟨ask, hstart, hcmd⟩ := h.queued (.dhtMetrics b) (by rw [hqq]; simp)
          have hask : ask = .dhtMetrics := by
            cases ask with
            | resolve _ _ => exact absurd hcmd (by simp [Ask.command])
            | dhtMetrics => rfl
          exact ⟨acts, [], s, ch, rfl, hask ▸ hstart, hr, hq'⟩
    | dropped _ _ | panicked _ _ _ => exact hold m (Oneshot.sent_of_drop hc)

/-- **Every answer in a cell is the one the call's own run ended with**, in every run. -/
theorem history_run {cfg : Config} {acts : List Act} {s : State}
    (h : (machine cfg).run acts = some s) : History cfg acts s := by
  refine (machine cfg).run_induction (P := History cfg) ?_ ?_ h
  · have hq : (machine cfg).init.cmds.queue = [] := by
      cases hd : cfg.dht <;> simp [machine, init, hd]
    refine ⟨fun c ask hc => ?_, fun cmd hcmd => ?_, fun job l hpc => ?_, fun c r hc => ?_,
      fun c m hc => ?_⟩
    · exact absurd hc (by simp [machine, init])
    · exact absurd (hq ▸ hcmd) List.not_mem_nil
    · exact absurd hpc (by simp [machine, init])
    · exact absurd hc (by simp [machine, init])
    · exact absurd hc (by simp [machine, init])
  · intro as s a t hr hp hst
    exact history_step hr hp (step_inv hst)

end Nwep.Runtime.ServerLoop
