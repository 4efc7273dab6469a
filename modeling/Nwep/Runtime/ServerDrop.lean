import Nwep.Lib.Progress
import Nwep.Runtime.Serve
import Nwep.Runtime.ServerReplies

/-!
# Stopping the managed server ends its owner thread

`RunningServer::shutdown` joins the owner thread after it has set the flag, and `drop` leaves it to
end by itself (`nwep/src/runtime.rs` 124-143). No call is under way then and none can start, so what
the owner still does is bounded by the turn it is in and the commands callers gave up on, except for
the lookups it runs for them: one goes round its loop while the clock is before its deadline.

Results:
* `released_of_reachable`: once the flag is set by the handle no call is under way;
* `pays`: the rank of the owner, fed by the readings of an open lookup;
* **`stop_ends`**: from the flag on, the owner makes a bounded number of steps beside six for each
  reading before a deadline, serves no more commands than are queued, looks at the flag once, and is
  never stuck before the thread ends.
-/

namespace Nwep.Runtime.ServerLoop

open Nwep.Lib

variable {cfg : Config}

/-- The label is a step of the owner thread. -/
def Act.ofOwner (a : Act) : Bool := !a.ofHandle

/-- The clock is read by a lookup that is still open. -/
def openReading (s : State) : Act → Bool
  | .clock now =>
    match s.pc with
    | .resolve _ (.clock dl) => decide (now < dl)
    | _ => false
  | _ => false

/-- A step of the owner that is not a reading of an open lookup. -/
def ownStep (s : State) (a : Act) : Bool := a.ofOwner && !openReading s a

/-- The owner serves a command. -/
def Act.takes : Act → Bool
  | .take => true
  | .metrics _ => true
  | _ => false

/-- The owner looks at the flag. -/
def Act.checks : Act → Bool
  | .check => true
  | _ => false

/-- Nobody can use the server any more, and nobody does. -/
structure Released (s : State) : Prop where
  handle : s.handle ≠ .alive
  stop   : s.stop = true
  calls  : ∀ c, (s.calls c).finished = true

/-- What a call that is under way would do does not happen. -/
theorem Released.not_busy {s : State} (h : Released s) {c : CallId} {k : Call} (hc : s.calls c = k)
    (hk : k.finished = false) : False := by
  have hf := h.calls c
  rw [hc, hk] at hf
  exact absurd hf (by simp)

theorem released_step {s t : State} {a : Act} (h : Released s) (hs : Step cfg s a t) :
    Released t := by
  obtain ⟨hh, hstop, hc⟩ := id h
  cases hs with
  | start ha => exact absurd ha hh
  | stop ha _ => exact absurd ha hh
  | send hcall _ | sendClosed hcall _ | reply hcall _ => exact (h.not_busy hcall rfl).elim
  | cancel hcall => rcases hcall with hcall | hcall <;> exact (h.not_busy hcall rfl).elim
  | dropSender _ => exact ⟨by simp, hstop, hc⟩
  | _ => exact ⟨hh, hstop, hc⟩

/-- **The flag is set when no call is under way, and no call starts after it.** -/
theorem released_of_reachable {s : State} (h : (machine cfg).Reachable s) (hh : s.handle ≠ .alive) :
    Released s := by
  refine (machine cfg).reachable_induction (P := fun s => s.handle ≠ .alive → Released s)
    (fun hn => absurd rfl hn) ?_ h hh
  intro s a t hr hp hst ht
  have hs := step_inv hst
  by_cases ha : s.handle = .alive
  · cases hs with
    | stop _ hf =>
      refine ⟨ht, rfl, fun c => ?_⟩
      by_cases hlt : c < s.started
      · exact hf c hlt
      · have hidle := (reachable_shape hr).fresh c (Nat.le_of_not_lt hlt)
        exact congrArg Call.finished hidle
    | dropSender hd => exact absurd (ha.symm.trans hd) (by simp)
    | _ => exact absurd ha ht
  · exact released_step (hp ha) hs

/-! ## The rank -/

/-- What a lookup still does without going round its loop again. -/
def Lookup.rank : Lookup → Nat
  | .stored => 4
  | .start => 3
  | .deadline => 2
  | .clock _ => 1
  | .tick _ => 6
  | .dhtTick _ => 5
  | .result _ => 4
  | .wait _ => 3
  | .blocked _ _ => 2

theorem Lookup.rank_le (l : Lookup) : l.rank ≤ 6 := by
  cases l <;> simp [Lookup.rank]

/-- The owner before it reads the channel: a queued command takes its lookup. -/
def topRank (s : State) : Nat := 5 * s.cmds.queue.length + 5

/-- What the owner still does, by where it is in its loop. -/
def ownerRank (s : State) : Nat :=
  match s.pc with
  | .check => 2
  | .tick => topRank s + 3
  | .dhtTick => topRank s + 2
  | .announce _ => topRank s + 1
  | .recv => topRank s
  | .resolve _ l => topRank s + l.rank
  | .wait => 4
  | .blocked _ => 3
  | .exiting => 1
  | .returned => 0
  | .panicked => 0

theorem ownerRank_le (s : State) : ownerRank s ≤ 5 * s.cmds.queue.length + 11 := by
  unfold ownerRank topRank
  cases s.pc with
  | resolve job l =>
    have hl := l.rank_le
    simp only
    omega
  | _ =>
    simp only
    omega

theorem length_of_item {ch ch' : Mpsc ServerCommand 32} {cmd : ServerCommand}
    (h : ch.tryRecv = .item cmd ch') : ch.queue.length = ch'.queue.length + 1 := by
  rw [(Mpsc.tryRecv_item h).1]
  rfl

/-- **What the owner still does is bounded by what it holds**, and by what open lookups add. -/
theorem pays : (machine cfg).Pays Released ownStep openReading ownerRank 5 where
  keep _ _ _ h hst := released_step h (step_inv hst)
  step s a t h hst := by
    cases step_inv hst with
    | start hh => exact absurd hh h.handle
    | stop hh _ => exact absurd hh h.handle
    | send hcall _ | sendClosed hcall _ | reply hcall _ => exact (h.not_busy hcall rfl).elim
    | cancel hcall => rcases hcall with hcall | hcall <;> exact (h.not_busy hcall rfl).elim
    | dropSender _ => exact Nat.le_refl _
    | checkStop hpc _ | tickErr hpc _ | tickBare hpc _ _ | tickDht hpc _ _ | dhtTickAnnounce hpc _
    | dhtTick hpc _ | announce hpc _ | skipAnnounce hpc _ | nothing hpc _ | storedMiss hpc _
    | resultMiss hpc _ | startLookup hpc _ | deadline hpc _ | lookupTick hpc _
    | lookupDhtTick hpc _ | lookupWait hpc | wait hpc | unblock hpc | lookupUnblock hpc
    | dropRx hpc =>
      simp [ownStep, Act.ofOwner, Act.ofHandle, openReading, ownerRank, topRank, hpc, Lookup.rank]
    | checkGo _ hgo => exact absurd (h.stop.symm.trans hgo) (by simp)
    | take hpc hq =>
      have hlen := length_of_item hq
      simp [ownStep, Act.ofOwner, Act.ofHandle, openReading, ownerRank, topRank, hpc, Lookup.rank]
      omega
    | metrics hpc hq =>
      have hlen := length_of_item hq
      simp [ownStep, Act.ofOwner, Act.ofHandle, openReading, ownerRank, topRank, hpc, State.answer]
      omega
    | storedHit hpc _ | resultHit hpc _ | lookupTickErr hpc _ | lookupDhtTickErr hpc _
    | startLookupErr hpc _ =>
      simp [ownStep, Act.ofOwner, Act.ofHandle, openReading, ownerRank, topRank, hpc, State.finish,
        State.answer, Lookup.rank]
    | clockPast hpc hn =>
      simp [ownStep, Act.ofOwner, Act.ofHandle, openReading, ownerRank, topRank, hpc, State.finish,
        State.answer, Lookup.rank, Nat.not_lt.mpr hn]
    | ageOverflow hpc _ | deadlinePanic hpc _ =>
      simp [ownStep, Act.ofOwner, Act.ofHandle, openReading, ownerRank, topRank, hpc, State.unwind,
        Lookup.rank]
    | clockOpen hpc hn =>
      simp [ownStep, openReading, ownerRank, topRank, hpc, Lookup.rank, hn]

/-- The steps of the owner are its own and the readings of open lookups. -/
theorem countP_ofOwner {acts : List Act} {s t : State} (h : (machine cfg).runFrom s acts = some t) :
    acts.countP Act.ofOwner ≤
      (machine cfg).countFrom ownStep s acts + (machine cfg).countFrom openReading s acts := by
  induction acts generalizing s with
  | nil => exact Nat.le_refl _
  | cons a acts ih =>
    obtain ⟨u, hu, hr⟩ := (machine cfg).runFrom_cons.mp h
    have hrest := ih hr
    rw [List.countP_cons, (machine cfg).countFrom_cons hu, (machine cfg).countFrom_cons hu]
    have hone : (if a.ofOwner = true then 1 else 0) ≤
        (if ownStep s a = true then 1 else 0) + if openReading s a = true then 1 else 0 := by
      unfold ownStep
      cases a.ofOwner <;> cases openReading s a <;> simp
    omega

/-! ## The commands and the flag -/

/-- Nothing is queued any more. -/
theorem takes_descend : (machine cfg).Descends Released Act.takes (·.cmds.queue.length) where
  keep _ _ _ h hst := released_step h (step_inv hst)
  lowers s a t h ha hst := by
    cases step_inv hst with
    | take _ hq | metrics _ hq =>
      have hlen := length_of_item hq
      exact Nat.lt_of_succ_le (Nat.le_of_eq hlen.symm)
    | _ => exact absurd ha (by simp [Act.takes])
  holds s a t h ha hst := by
    cases step_inv hst with
    | take _ _ | metrics _ _ => exact absurd ha (by simp [Act.takes])
    | send hcall _ => exact (h.not_busy hcall rfl).elim
    | ageOverflow _ _ | deadlinePanic _ _ | dropRx _ => exact Nat.zero_le _
    | _ => exact Nat.le_refl _

/-- The owner finds the flag set. -/
theorem checks_descend :
    (machine cfg).Descends Released Act.checks fun s => if s.pc.running then 1 else 0 where
  keep _ _ _ h hst := released_step h (step_inv hst)
  lowers s a t h ha hst := by
    cases step_inv hst with
    | checkStop hpc _ => simp [hpc, Pc.running]
    | checkGo _ hgo => exact absurd (h.stop.symm.trans hgo) (by simp)
    | _ => exact absurd ha (by simp [Act.checks])
  holds s a t h ha hst := by
    cases hrun : s.pc.running with
    | true =>
      rw [if_pos rfl]
      split <;> simp
    | false => simp [not_running_step (step_inv hst) hrun]

/-! ## The owner is never stuck -/

/-- The thread has ended. -/
def Pc.ended : Pc → Bool
  | .returned => true
  | .panicked => true
  | _ => false

/-- The owner thread has a step wherever it has not ended. -/
theorem owner_moves : (machine cfg).Moves Released Act.ofOwner (·.pc.ended = true) := by
  intro s _ hn
  cases hpc : s.pc with
  | check => exact ⟨.check, _, rfl, by simp [machine, step, hpc]; rfl⟩
  | tick => exact ⟨.tick (-1), { s with pc := .exiting }, rfl, by simp [machine, step, hpc]; rfl⟩
  | dhtTick => exact ⟨.dhtTick 0 0, _, rfl, by simp [machine, step, hpc]; rfl⟩
  | announce secs =>
    cases hdue : announceDue cfg secs s.announcedAt with
    | none => exact ⟨.ageOverflow, s.unwind, rfl, by simp [machine, step, hpc, hdue]⟩
    | some due =>
      cases due with
      | true =>
        exact ⟨.announce 0, { s with pc := .recv, announcedAt := secs }, rfl,
          by simp [machine, step, hpc, hdue]⟩
      | false =>
        exact ⟨.skipAnnounce, { s with pc := .recv }, rfl, by simp [machine, step, hpc, hdue]⟩
  | recv =>
    cases hq : s.cmds.tryRecv with
    | item cmd ch =>
      cases cmd with
      | resolve job => exact ⟨.take, _, rfl, by simp [machine, step, hpc, hq]; rfl⟩
      | dhtMetrics c =>
        exact ⟨.metrics ⟨0, 0, 0, 0⟩, _, rfl, by simp [machine, step, hpc, hq]; rfl⟩
    | empty => exact ⟨.nothing, { s with pc := .wait }, rfl, by simp [machine, step, hpc, hq]⟩
    | disconnected =>
      exact ⟨.nothing, { s with pc := .wait }, rfl, by simp [machine, step, hpc, hq]⟩
  | resolve job l =>
    cases l with
    | stored =>
      exact ⟨.lookupResult job.target (-1) ⟨0⟩, { s with pc := .resolve job .start }, rfl,
        by simp [machine, step, hpc, Dht.lookupResult]⟩
    | start =>
      exact ⟨.startLookup job.target 0 0, _, rfl, by simp [machine, step, hpc]; rfl⟩
    | deadline =>
      cases hd : instantAdd 0 job.timeout with
      | some dl =>
        exact ⟨.deadline 0, { s with pc := .resolve job (.clock dl) }, rfl,
          by simp [machine, step, hpc, hd]⟩
      | none =>
        exact ⟨.deadline 0, (s.dropReply job.reply).unwind, rfl, by simp [machine, step, hpc, hd]⟩
    | clock dl =>
      exact ⟨.clock dl, s.finish job (.error .identityNotFound), rfl,
        by simp [machine, step, hpc]⟩
    | tick dl => exact ⟨.tick (-1), _, rfl, by simp [machine, step, hpc]; rfl⟩
    | dhtTick dl => exact ⟨.dhtTick 0 (-1), _, rfl, by simp [machine, step, hpc]; rfl⟩
    | result dl =>
      exact ⟨.lookupResult job.target (-1) ⟨0⟩, { s with pc := .resolve job (.wait dl) }, rfl,
        by simp [machine, step, hpc, Dht.lookupResult]⟩
    | wait dl => exact ⟨.lookupWait 0, _, rfl, by simp [machine, step, hpc]; rfl⟩
    | blocked dl w =>
      exact ⟨.unblock, { s with pc := .resolve job (.clock dl) }, rfl,
        by simp [machine, step, hpc]⟩
  | wait => exact ⟨.wait 0 0, _, rfl, by simp [machine, step, hpc]; rfl⟩
  | blocked w => exact ⟨.unblock, { s with pc := .check }, rfl, by simp [machine, step, hpc]⟩
  | exiting => exact ⟨.dropRx, _, rfl, by simp [machine, step, hpc]; rfl⟩
  | returned | panicked => exact absurd (congrArg Pc.ended hpc) hn

/-! ## The main result -/

/-- What the flag leads to, from the state after it was set on. -/
structure StopEnds (cfg : Config) (s : State) : Prop where
  /-- The owner makes a bounded number of steps, and at most six for each reading of the clock that
  finds a lookup before its deadline, -/
  bounded : ∀ acts t, (machine cfg).runFrom s acts = some t → acts.countP Act.ofOwner ≤
    5 * s.cmds.queue.length + 11 + 6 * (machine cfg).countFrom openReading s acts
  /-- serves no more commands than were queued, -/
  takes : ∀ acts t, (machine cfg).runFrom s acts = some t →
    acts.countP Act.takes ≤ s.cmds.queue.length
  /-- looks at the flag at most once more, -/
  checks : ∀ acts t, (machine cfg).runFrom s acts = some t → acts.countP Act.checks ≤ 1
  /-- and is never stuck before the thread has ended. -/
  moves : ∀ acts t, (machine cfg).runFrom s acts = some t → t.pc.ended = false →
    ∃ a u, a.ofOwner = true ∧ (machine cfg).step t a = some u

/-- **Stopping the server ends its thread**, as soon as the lookups it is asked for let it. -/
theorem stop_ends {s : State} (h : (machine cfg).Reachable s) (hh : s.handle ≠ .alive) :
    StopEnds cfg s := by
  have hrel := released_of_reachable h hh
  refine ⟨fun acts t hr => ?_, fun acts t hr => ?_, fun acts t hr => ?_, fun acts t hr hn => ?_⟩
  · have hsplit := countP_ofOwner hr
    have hpaid := (pays.runFrom hrel hr).2
    have hrank := ownerRank_le s
    omega
  · exact takes_descend.countP_le hrel hr
  · have hle := checks_descend.countP_le hrel hr
    split at hle <;> omega
  · refine owner_moves t (pays.runFrom hrel hr).1 ?_
    simpa using hn

/-- A caller gave its lookup up and the server is dropped while the owner is in it. -/
def droppedInLookup : List Act :=
  [.start 0 (.resolve 5 60000000000), .send 0, .check, .tick 0, .dhtTick 100 0, .take,
   .lookupResult 5 (-503) ⟨0⟩, .startLookup 5 100 0, .deadline 0, .cancel 0, .stop, .dropSender]

theorem stop_ends_droppedInLookup :
    ∃ s, (machine ⟨true, none, true⟩).run droppedInLookup = some s ∧
      s.pc = .resolve ⟨5, 60000000000, 0⟩ (.clock 60000000000) ∧ StopEnds ⟨true, none, true⟩ s :=
  ⟨_, rfl, rfl, stop_ends ⟨droppedInLookup, rfl⟩ (by decide)⟩

end Nwep.Runtime.ServerLoop
