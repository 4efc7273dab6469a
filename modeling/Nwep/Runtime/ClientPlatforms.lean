import Nwep.Lib.Simulation
import Nwep.Poll
import Nwep.Runtime.ClientWake

/-!
# The managed client on both platforms

`runtime.rs` is written against the `Waker` of `poll.rs`, which is an eventfd on unix and a socket
on windows. `client W` is the client of `Runtime.ClientLoop` over any waker: the same steps, except
that a wake and a read of the drain loop are the waker's.

One wake is one count on the eventfd and one datagram on the socket, and the drain loop takes all
counts in one read and the datagrams one by one. So the runs are not the same; what is the same is
everything but the reads, and whether the handle is readable.

Results:
* `agree`: any two wakers simulate each other;
* **`platforms_agree`**: the client over the socket and the client of `ClientLoop` have the same runs,
  but for the reads;
* **`no_lost_datagram`**: so no wake-up is lost on windows either.
-/

namespace Nwep.Runtime.ClientPlatforms

open Nwep.Client Nwep.Lib Nwep.Runtime.ClientLoop
open Nwep.Lib.Machine (trace trace_append)

universe u

/-- The client, with its waker apart. The counter of `loop` is not used. -/
structure State (ω : Type u) where
  loop  : ClientLoop.State
  waker : ω

section Client

variable {ω : Type u} (W : Waker ω)

def init : State ω where
  loop := ClientLoop.init
  waker := W.init

/-- The label is a wake or a read of the drain loop. -/
def ofWaker : Act → Bool
  | .wake _ => true
  | .dropWake => true
  | .readWake => true
  | _ => false

/-- One step of one party. -/
def step (s : State ω) : Act → Option (State ω)
  | .wake c =>
    if s.loop.calls c = .enqueued then
      some ⟨s.loop.setCall c .awaiting, W.wake s.waker⟩
    else none
  | .dropWake =>
    if s.loop.handle = .dropping then
      some ⟨{ s.loop with handle := .dropped }, W.wake s.waker⟩
    else none
  | .readWake =>
    if s.loop.pc = .drainWake then
      if 0 < (W.read s.waker).1 then some ⟨s.loop, (W.read s.waker).2⟩
      else some ⟨{ s.loop with pc := .recv }, (W.read s.waker).2⟩
    else none
  | a => (ClientLoop.step s.loop a).map fun t => ⟨t, s.waker⟩

/-- The managed client over the waker `W`. -/
def client : Machine (State ω) Act where
  init := init W
  step := step W

end Client

/-! ## What each step does -/

section Steps

variable {ω : Type u} {W : Waker ω}

/-- Every enabled step, with its guard and its effect. -/
inductive Step (W : Waker ω) (s : State ω) : Act → State ω → Prop
  | wake {c} (h : s.loop.calls c = .enqueued) :
      Step W s (.wake c) ⟨s.loop.setCall c .awaiting, W.wake s.waker⟩
  | dropWake (h : s.loop.handle = .dropping) :
      Step W s .dropWake ⟨{ s.loop with handle := .dropped }, W.wake s.waker⟩
  | read (h : s.loop.pc = .drainWake) (hr : W.Readable s.waker) :
      Step W s .readWake ⟨s.loop, (W.read s.waker).2⟩
  | readDone (h : s.loop.pc = .drainWake) (hr : ¬ W.Readable s.waker) :
      Step W s .readWake ⟨{ s.loop with pc := .recv }, s.waker⟩
  | other {a t} (ha : ofWaker a = false) (h : ClientLoop.step s.loop a = some t) :
      Step W s a ⟨t, s.waker⟩

theorem step_inv {s t : State ω} {a : Act} (h : step W s a = some t) : Step W s a t := by
  have hother : ofWaker a = false → (ClientLoop.step s.loop a).map (⟨·, s.waker⟩) = some t →
      Step W s a t := by
    intro ha hm
    obtain ⟨u, hu, rfl⟩ := Option.map_eq_some_iff.mp hm
    exact .other ha hu
  cases a with
  | wake c =>
    simp only [step] at h
    split at h
    · rename_i hc
      obtain rfl := Option.some.inj h
      exact .wake hc
    · exact absurd h (by simp)
  | dropWake =>
    simp only [step] at h
    split at h
    · rename_i hc
      obtain rfl := Option.some.inj h
      exact .dropWake hc
    · exact absurd h (by simp)
  | readWake =>
    simp only [step] at h
    split at h
    · rename_i hpc
      split at h
      · rename_i hr
        obtain rfl := Option.some.inj h
        exact .read hpc (W.read_pos.mp hr)
      · rename_i hr
        have hn : ¬ W.Readable s.waker := fun hp => hr (W.read_pos.mpr hp)
        have hsame := (W.dry s.waker (Nat.eq_zero_of_not_pos hn)).2
        obtain rfl := Option.some.inj h
        rw [hsame]
        exact .readDone hpc hn
    · exact absurd h (by simp)
  | _ => exact hother rfl h

theorem step_of {s t : State ω} {a : Act} (h : Step W s a t) : step W s a = some t := by
  cases h with
  | wake h | dropWake h => simp [step, h]
  | read h hr => simp [step, h, W.read_pos.mpr hr]
  | readDone h hr =>
    have hn : ¬ 0 < (W.read s.waker).1 := fun hp => hr (W.read_pos.mp hp)
    rw [step, if_pos h, if_neg hn, (W.dry s.waker (Nat.eq_zero_of_not_pos hr)).2]
  | @other a t ha h =>
    cases a with
    | wake _ | dropWake | readWake => exact absurd ha (by simp [ofWaker])
    | _ => simp [step, h]

end Steps

/-! ## Any two wakers -/

/-- What is seen of a run: everything but the reads of the drain loop. -/
def shown : Act → Option Act
  | .readWake => none
  | a => some a

section Agree

variable {ω υ : Type} {W : Waker ω} {V : Waker υ}

/-- The same but for what the wakers keep. -/
structure Agree (W : Waker ω) (V : Waker υ) (s : State ω) (u : State υ) : Prop where
  loop     : s.loop = u.loop
  readable : W.Readable s.waker ↔ V.Readable u.waker

/-- The drain loop reads until nothing is left. -/
theorem drained (V : Waker υ) (u : State υ) (hpc : u.loop.pc = .drainWake) :
    ∃ bs w, (client V).runFrom u bs = some ⟨u.loop, w⟩ ∧ ¬ V.Readable w ∧ trace shown bs = [] := by
  obtain ⟨loop, w⟩ := u
  induction hn : V.left w using Nat.strongRecOn generalizing w with
  | ind n ih =>
    by_cases hr : V.Readable w
    · obtain ⟨-, hlt⟩ := V.takes w hr
      obtain ⟨bs, w', hbs, hdry, htr⟩ := ih _ (hn ▸ hlt) (V.read w).2 hpc rfl
      have hst : (client V).step ⟨loop, w⟩ .readWake = some ⟨loop, (V.read w).2⟩ :=
        step_of (.read hpc hr)
      refine ⟨.readWake :: bs, w', (client V).runFrom_cons.mpr ⟨_, hst, hbs⟩, hdry, ?_⟩
      rw [← List.singleton_append, trace_append, htr]
      rfl
    · exact ⟨[], w, rfl, hr, rfl⟩

/-- **Any two wakers**: what the client does over one it does over the other, but for the reads. -/
theorem agree (W : Waker ω) (V : Waker υ) :
    (client W).Simulates (client V) (Agree W V) shown shown where
  init := ⟨rfl, iff_of_false W.not_readable_init V.not_readable_init⟩
  step s u a t hrel hst := by
    obtain ⟨sl, sw⟩ := s
    obtain ⟨ul, uw⟩ := u
    obtain ⟨rfl, hread⟩ := hrel
    have hone : ∀ {a v}, Step V ⟨sl, uw⟩ a v → Agree W V t v →
        ∃ bs v', (client V).runFrom ⟨sl, uw⟩ bs = some v' ∧ Agree W V t v' ∧
          trace shown bs = trace shown [a] := fun {a v} hv hag =>
      ⟨[a], v, (client V).runFrom_cons.mpr ⟨v, step_of hv, rfl⟩, hag, rfl⟩
    cases step_inv hst with
    | wake hc =>
      exact hone (.wake hc) ⟨rfl, iff_of_true (W.readable_wake sw) (V.readable_wake uw)⟩
    | dropWake hd =>
      exact hone (.dropWake hd) ⟨rfl, iff_of_true (W.readable_wake sw) (V.readable_wake uw)⟩
    | read hpc hr =>
      by_cases hmore : W.Readable (W.read sw).2
      · -- there is more to read: the other waker waits
        exact ⟨[], ⟨sl, uw⟩, rfl, ⟨rfl, iff_of_true hmore (hread.mp hr)⟩, rfl⟩
      · obtain ⟨bs, w, hbs, hdry, htr⟩ := drained V ⟨sl, uw⟩ hpc
        exact ⟨bs, ⟨sl, w⟩, hbs, ⟨rfl, iff_of_false hmore hdry⟩, htr⟩
    | readDone hpc hr => exact hone (.readDone hpc fun hp => hr (hread.mpr hp)) ⟨rfl, hread⟩
    | other ha hs => exact hone (.other ha hs) ⟨rfl, hread⟩

end Agree

/-! ## The eventfd -/

/-- The client over the eventfd waker, as a state of `ClientLoop`. -/
def counted (u : State Nat) : ClientLoop.State := { u.loop with wake := u.waker }

/-- The steps that are not the waker's do not look at the counter. -/
theorem step_withWake {s t : ClientLoop.State} {a : Act} (hst : ClientLoop.step s a = some t)
    (ha : ofWaker a = false) (n : Nat) :
    ClientLoop.step { s with wake := n } a = some { t with wake := n } := by
  cases ClientLoop.step_inv hst with
  | wake _ | dropWake _ | readWake _ _ | readDone _ _ => exact absurd ha (by simp [ofWaker])
  | start h => simp [ClientLoop.step, ClientLoop.State.setCall, h]
  | send h hp => simp [ClientLoop.step, ClientLoop.State.setCall, h, hp]
  | sendClosed h hr => simp [ClientLoop.step, ClientLoop.State.setCall, h, hr]
  | reply h hr => simp [ClientLoop.step, ClientLoop.State.setCall, h, hr]
  | cancel h =>
    rcases h with ⟨req, h⟩ | h <;> simp [ClientLoop.step, ClientLoop.State.setCall, h]
  | takeSender h hf =>
    simp only [ClientLoop.step, h, true_and]
    rw [if_pos hf]
  | submitOk h hq hs hf => simp [ClientLoop.step, h, hq, hs, hf]
  | submitErr h hq hs => simp [ClientLoop.step, ClientLoop.State.answer, h, hq, hs]
  | empty h hq | disconnected h hq => simp [ClientLoop.step, h, hq]
  | tickClosed h hc | tickOk h hc => simp [ClientLoop.step, h, hc]
  | pollReady h hi hp | pollErr h hi hp =>
    simp [ClientLoop.step, ClientLoop.State.answer, h, hi, hp]
  | pollNone h hi hp => simp [ClientLoop.step, h, hi, hp]
  | sweepEnd h hi => simp [ClientLoop.step, h, hi]
  | block h | unblock h | dropRx h => simp [ClientLoop.step, h]
  | failNext h hp | failEnd h hp => simp [ClientLoop.step, ClientLoop.State.answer, h, hp]

/-- Nor do they change it. -/
theorem step_keeps_wake {s t : ClientLoop.State} {a : Act} (hst : ClientLoop.step s a = some t)
    (ha : ofWaker a = false) : t.wake = s.wake := by
  have hsame : t = { t with wake := s.wake } :=
    Option.some.inj (hst.symm.trans (step_withWake hst ha s.wake))
  calc t.wake = ({ t with wake := s.wake } : ClientLoop.State).wake := congrArg _ hsame
    _ = s.wake := rfl

theorem eventfd_readable {n : Nat} : Poll.eventfd.Readable n ↔ 0 < n := by
  show 0 < min n 1 ↔ 0 < n
  omega

theorem eventfd_read {n : Nat} (h : 0 < n) : (Poll.eventfd.read n).2 = 0 := by
  show (if 0 < n then ((8 : Int), 0) else (-1, n)).2 = 0
  rw [if_pos h]

/-- The client over the eventfd waker runs as `ClientLoop`, -/
theorem eventfd_to : (client Poll.eventfd).Simulates machine (fun u x => counted u = x) shown shown
    where
  init := rfl
  step u x a t hrel hst := by
    subst hrel
    refine ⟨[a], counted t, machine.runFrom_cons.mpr ⟨_, ?_, rfl⟩, rfl, rfl⟩
    cases step_inv hst with
    | wake hc => simp [machine, ClientLoop.step, counted, hc, Poll.eventfd]
    | dropWake hd => simp [machine, ClientLoop.step, counted, hd, Poll.eventfd]
    | read hpc hr =>
      have hpos : 0 < u.waker := eventfd_readable.mp hr
      simp [machine, ClientLoop.step, counted, hpc, hpos, eventfd_read hpos]
    | readDone hpc hr =>
      have hz : ¬ 0 < u.waker := fun hp => hr (eventfd_readable.mpr hp)
      simp [machine, ClientLoop.step, counted, hpc, hz]
    | other ha hs => exact step_withWake hs ha u.waker

/-- and the other way. -/
theorem eventfd_from : machine.Simulates (client Poll.eventfd) (fun x u => counted u = x) shown shown
    where
  init := rfl
  step x u a y hrel hst := by
    subst hrel
    have hone : ∀ {t}, Step Poll.eventfd u a t → counted t = y →
        ∃ bs v, (client Poll.eventfd).runFrom u bs = some v ∧ counted v = y ∧
          trace shown bs = trace shown [a] := fun {t} ht hy =>
      ⟨[a], t, (client Poll.eventfd).runFrom_cons.mpr ⟨t, step_of ht, rfl⟩, hy, rfl⟩
    cases ha : ofWaker a with
    | false =>
      have hkeep := step_keeps_wake hst ha
      refine hone (.other ha (step_withWake hst ha u.loop.wake)) ?_
      show { y with wake := u.waker } = y
      rw [← show y.wake = u.waker from hkeep]
    | true =>
      cases ClientLoop.step_inv hst with
      | wake hc => exact hone (.wake hc) rfl
      | dropWake hd => exact hone (.dropWake hd) rfl
      | readWake hpc hw =>
        refine hone (.read hpc (eventfd_readable.mpr hw)) ?_
        simp [counted, eventfd_read (show 0 < u.waker from hw)]
      | readDone hpc hw =>
        have hw : u.waker = 0 := hw
        exact hone (.readDone hpc fun hp => absurd (eventfd_readable.mp hp) (by omega)) rfl
      | _ => exact absurd ha (by simp [ofWaker])

/-! ## The socket -/

section Socket

variable {cap : Nat} {hc : 0 < cap}

/-- The client over the socket is where `ClientLoop` is: the same parties in the same places, and
the handle readable on both platforms or on none. -/
structure Alike (s : State (Poll.SelfPipe cap)) (x : ClientLoop.State) : Prop where
  same     : { x with wake := 0 } = { s.loop with wake := 0 }
  readable : 0 < x.wake ↔ 0 < s.waker.datagrams.length

/-- The two relations together. -/
theorem alike_of {s : State (Poll.SelfPipe cap)} {u : State Nat}
    (h : Agree (Poll.selfPipe cap hc) Poll.eventfd s u) : Alike s (counted u) := by
  refine ⟨?_, (eventfd_readable.symm.trans h.readable.symm)⟩
  rw [h.loop]
  rfl

/-- A run over the socket is one over the eventfd, -/
theorem to_eventfd {as : List Act} {s : State (Poll.SelfPipe cap)}
    (h : (client (Poll.selfPipe cap hc)).run as = some s) :
    ∃ bs x, machine.run bs = some x ∧ Alike s x ∧ trace shown bs = trace shown as := by
  obtain ⟨bs, x, hx, ⟨u, hu, rfl⟩, htr⟩ :=
    ((agree (Poll.selfPipe cap hc) Poll.eventfd).trans eventfd_to).run h
  exact ⟨bs, counted u, hx, alike_of hu, htr⟩

/-- and the other way. -/
theorem from_eventfd {bs : List Act} {x : ClientLoop.State} (h : machine.run bs = some x) :
    ∃ as s, (client (Poll.selfPipe cap hc)).run as = some s ∧ Alike s x ∧
      trace shown as = trace shown bs := by
  obtain ⟨as, s, hs, ⟨u, rfl, hu⟩, htr⟩ :=
    (eventfd_from.trans (agree Poll.eventfd (Poll.selfPipe cap hc))).run h
  exact ⟨as, s, hs, alike_of ⟨hu.loop.symm, hu.readable.symm⟩, htr⟩

/-- The managed client of one platform is that of the other. -/
structure SameRuns (cap : Nat) (hc : 0 < cap) : Prop where
  toEventfd : ∀ as s, (client (Poll.selfPipe cap hc)).run as = some s →
    ∃ bs x, machine.run bs = some x ∧ Alike s x ∧ trace shown bs = trace shown as
  fromEventfd : ∀ bs x, machine.run bs = some x →
    ∃ as s, (client (Poll.selfPipe cap hc)).run as = some s ∧ Alike s x ∧
      trace shown as = trace shown bs

/-- **The platforms agree**: however many datagrams the socket's receive buffer holds, the client
over it and the client over the eventfd have the same runs, but for the reads of the drain loop. -/
theorem platforms_agree (hc : 0 < cap) : SameRuns cap hc :=
  ⟨fun _ _ h => to_eventfd h, fun _ _ h => from_eventfd h⟩

theorem platforms_agree_room : SameRuns 4 (by decide) := platforms_agree (by decide)

/-- **No wake-up is lost on windows**: while the owner is blocked and nothing is there to receive,
whoever put a command into the channel, or closed it, has not sent its datagram yet. -/
theorem no_lost_datagram {s : State (Poll.SelfPipe cap)} {w : Nat}
    (h : (client (Poll.selfPipe cap hc)).Reachable s) (hb : s.loop.pc = .blocked w)
    (hw : s.waker.datagrams = []) : Unwoken s.loop := by
  obtain ⟨as, hr⟩ := h
  obtain ⟨bs, x, hx, ⟨hsame, hread⟩, -⟩ := to_eventfd hr
  have hpc : x.pc = s.loop.pc := congrArg (·.pc) hsame
  have hcmds : x.cmds = s.loop.cmds := congrArg (·.cmds) hsame
  have hcalls : x.calls = s.loop.calls := congrArg (·.calls) hsame
  have hhandle : x.handle = s.loop.handle := congrArg (·.handle) hsame
  have hzero : x.wake = 0 := by
    rw [hw, List.length_nil] at hread
    omega
  have hu := drained_reachable ⟨bs, hx⟩ (Or.inr (Or.inr (Or.inr ⟨w, hpc.trans hb⟩))) hzero
  exact ⟨hcmds ▸ hcalls ▸ hu.queued, hcmds ▸ hhandle ▸ hu.closed⟩

/-- Two calls wake the blocked owner, whose drain loop takes one datagram, a call enters the channel,
and the loop takes the other. -/
def twoDatagrams : List Act :=
  [.empty, .tick 0 1, .sweepEnd, .block 10, .start 0 ⟨.read, [47], [], []⟩, .send 0, .wake 0,
   .start 1 ⟨.read, [47], [], []⟩, .send 1, .wake 1, .unblock, .readWake, .readWake, .readWake,
   .submit ⟨⟨.read, [47], [], []⟩, 0⟩ 0 1, .submit ⟨⟨.read, [47], [], []⟩, 1⟩ 0 2, .empty,
   .tick 0 1, .poll 1 0 0, .poll 2 0 0, .sweepEnd, .block 10, .start 2 ⟨.read, [47], [], []⟩, .send 2]

theorem no_lost_datagram_twoDatagrams :
    ∃ s, (client (Poll.selfPipe 4 (by decide))).run twoDatagrams = some s ∧
      s.loop.cmds.queue.length = 1 ∧ Unwoken s.loop :=
  ⟨_, rfl, rfl, no_lost_datagram (w := 200) ⟨twoDatagrams, rfl⟩ rfl rfl⟩

end Socket

end Nwep.Runtime.ClientPlatforms
