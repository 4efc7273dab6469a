import Nwep.Lib.Fifo

/-!
# Launching a thread that reports

A thread makes the calls of a plan one after the other, reports over a cell and goes on; a call that
fails is reported instead, and ends it. Whoever launched it waits for the report, and may leave.
A machine launches one when each of its steps does one of the things of `Launches` to the thread,
the cell and the one who waits (`Launcher`).

Results:
* `Launched.step`: each of them keeps the calls, the report and the answer in agreement;
* **`Launcher.returns`**: the calls are those of the plan up to the first failure, be it for someone
  who left; who waited is served only past the whole plan, is told the failure only when the thread is
  gone, and does not wait for a thread that has nothing more to report.
-/

namespace Nwep.Lib

universe u v

/-- Where the thread is, with the calls it still has to make. -/
inductive Thread (κ : Type u)
  | unspawned
  | settingUp (rest : List κ)
  | running                  -- went on after its report
  | gone                     -- ended with its set-up

/-- Where the one who launched it is. -/
inductive Waiter (ε : Type u)
  | waiting
  | joining (e : ε)  -- took an error, and waits for the thread to end
  | failed (e : ε)
  | served
  | left

structure Launch (κ ε : Type u) where
  thread : Thread κ
  report : Oneshot (Except ε Unit)
  waiter : Waiter ε

variable {κ ε : Type u} {plan : List κ} {closed : ε}

/-- What one step does, and the call it makes: its name, and the error it fails with. A panic, and a
thread that cannot be spawned, show as `closed`. -/
inductive Launches (plan : List κ) (closed : ε) :
    Launch κ ε → Launch κ ε → Option (κ × Option ε) → Prop
  | same (l : Launch κ ε) : Launches plan closed l l none
  | spawn (r : Oneshot (Except ε Unit)) :
      Launches plan closed ⟨.unspawned, r, .waiting⟩ ⟨.settingUp plan, r, .waiting⟩ none
  | unspawnable (r : Oneshot (Except ε Unit)) :
      Launches plan closed ⟨.unspawned, r, .waiting⟩ ⟨.unspawned, r, .failed closed⟩ none
  | pass (k : κ) (rest : List κ) (r : Oneshot (Except ε Unit)) (w : Waiter ε) :
      Launches plan closed ⟨.settingUp (k :: rest), r, w⟩ ⟨.settingUp rest, r, w⟩ (some (k, none))
  | fail (k : κ) (rest : List κ) (e : ε) (r : Oneshot (Except ε Unit)) (w : Waiter ε) :
      Launches plan closed ⟨.settingUp (k :: rest), r, w⟩ ⟨.gone, r.send (.error e), w⟩
        (some (k, some e))
  | panic (k : κ) (rest : List κ) (r : Oneshot (Except ε Unit)) (w : Waiter ε) :
      Launches plan closed ⟨.settingUp (k :: rest), r, w⟩ ⟨.gone, r.drop, w⟩
        (some (k, some closed))
  | report (r : Oneshot (Except ε Unit)) (w : Waiter ε) :
      Launches plan closed ⟨.settingUp [], r, w⟩ ⟨.running, r.send (.ok ()), w⟩ none
  | unheard (r : Oneshot (Except ε Unit)) (w : Waiter ε) (hw : w ≠ .waiting) :
      Launches plan closed ⟨.settingUp [], r, w⟩ ⟨.gone, r, w⟩ none
  | serve (t : Thread κ) :
      Launches plan closed ⟨t, .sent (.ok ()), .waiting⟩ ⟨t, .sent (.ok ()), .served⟩ none
  | take (t : Thread κ) (e : ε) :
      Launches plan closed ⟨t, .sent (.error e), .waiting⟩ ⟨t, .sent (.error e), .joining e⟩ none
  | takeDropped (t : Thread κ) :
      Launches plan closed ⟨t, .dropped, .waiting⟩ ⟨t, .dropped, .joining closed⟩ none
  | join (r : Oneshot (Except ε Unit)) (e : ε) :
      Launches plan closed ⟨.gone, r, .joining e⟩ ⟨.gone, r, .failed e⟩ none
  | leave (t : Thread κ) (r : Oneshot (Except ε Unit)) (w : Waiter ε) :
      Launches plan closed ⟨t, r, w⟩ ⟨t, r, .left⟩ none

/-- The calls of the plan, all successful. -/
def succeeded (plan : List κ) : List (κ × Option ε) := plan.map fun k => (k, none)

/-- The calls went by the plan up to one that failed with `e`. -/
def Ended (plan : List κ) (calls : List (κ × Option ε)) (e : ε) : Prop :=
  ∃ done k rest, plan = done ++ k :: rest ∧ calls = succeeded done ++ [(k, some e)]

/-- A call that failed is not one of a plan that succeeded. -/
theorem not_ended_of_succeeded {calls : List (κ × Option ε)} (h : calls = succeeded plan) (e : ε) :
    ¬ Ended plan calls e := by
  rintro ⟨done, k, rest, -, hcalls⟩
  have hmem : (k, some e) ∈ succeeded (ε := ε) plan := by
    rw [← h, hcalls]
    simp
  simp [succeeded] at hmem

/-- The calls made so far agree with the thread, its report and the one who waits. -/
structure Launched (plan : List κ) (closed : ε) (calls : List (κ × Option ε)) (l : Launch κ ε) :
    Prop where
  idle    : l.thread = .unspawned → calls = [] ∧ l.report = .waiting
  going   : ∀ rest, l.thread = .settingUp rest → l.report = .waiting ∧
    ∃ done, plan = done ++ rest ∧ calls = succeeded done
  running : l.thread = .running → calls = succeeded plan
  ok      : l.report = .sent (.ok ()) → l.thread = .running
  error   : ∀ e, l.report = .sent (.error e) → l.thread = .gone ∧ Ended plan calls e
  dropped : l.report = .dropped → l.thread = .gone ∧ Ended plan calls closed
  served  : l.waiter = .served → l.thread = .running
  joining : ∀ e, l.waiter = .joining e → l.thread = .gone ∧ Ended plan calls e
  failed  : ∀ e, l.waiter = .failed e →
    l.thread = .unspawned ∧ e = closed ∨ l.thread = .gone ∧ Ended plan calls e
  heard   : l.waiter = .waiting → l.thread = .running ∨ l.thread = .gone → l.report ≠ .waiting
  gone    : l.thread = .gone → (∃ e, Ended plan calls e) ∨ calls = succeeded plan ∧ l.waiter = .left

namespace Launched

variable {calls : List (κ × Option ε)}

/-- A thread in its set-up has not reported, and whoever waits has nothing yet. -/
theorem early {rest : List κ} {r : Oneshot (Except ε Unit)} {w : Waiter ε}
    (h : Launched plan closed calls ⟨.settingUp rest, r, w⟩) :
    r = .waiting ∧ w ≠ .served ∧ (∀ e, w ≠ .joining e) ∧ ∀ e, w ≠ .failed e := by
  refine ⟨(h.going rest rfl).1, fun hw => ?_, fun e hw => ?_, fun e hw => ?_⟩
  · exact absurd (h.served hw) (by simp)
  · exact absurd (h.joining e hw).1 (by simp)
  · rcases h.failed e hw with ⟨hu, -⟩ | ⟨hg, -⟩
    · exact absurd hu (by simp)
    · exact absurd hg (by simp)

/-- Only the one who waits moves. -/
theorem setWaiter {t : Thread κ} {r : Oneshot (Except ε Unit)} {w w' : Waiter ε}
    (h : Launched plan closed calls ⟨t, r, w⟩) (hw : w' ≠ .waiting) (hleft : w = .left → w' = .left)
    (hserved : w' = .served → t = .running)
    (hjoining : ∀ e, w' = .joining e → t = .gone ∧ Ended plan calls e)
    (hfailed : ∀ e, w' = .failed e →
      t = .unspawned ∧ e = closed ∨ t = .gone ∧ Ended plan calls e) :
    Launched plan closed calls ⟨t, r, w'⟩ :=
  ⟨h.idle, h.going, h.running, h.ok, h.error, h.dropped, hserved, hjoining, hfailed,
    fun hw' => absurd hw' hw, fun ht => (h.gone ht).imp_right fun hall => ⟨hall.1, hleft hall.2⟩⟩

/-- Only the thread moves, out of a place in its set-up. -/
theorem setThread {rest : List κ} {r : Oneshot (Except ε Unit)} {w : Waiter ε}
    (h : Launched plan closed calls ⟨.settingUp rest, r, w⟩) {calls' : List (κ × Option ε)}
    {t : Thread κ} {r' : Oneshot (Except ε Unit)} (hidle : t ≠ .unspawned)
    (hgoing : ∀ rest', t = .settingUp rest' → r' = .waiting ∧
      ∃ done, plan = done ++ rest' ∧ calls' = succeeded done)
    (hrunning : t = .running → calls' = succeeded plan)
    (hok : r' = .sent (.ok ()) → t = .running)
    (herror : ∀ e, r' = .sent (.error e) → t = .gone ∧ Ended plan calls' e)
    (hdropped : r' = .dropped → t = .gone ∧ Ended plan calls' closed)
    (hheard : w = .waiting → t = .running ∨ t = .gone → r' ≠ .waiting)
    (hgone : t = .gone → (∃ e, Ended plan calls' e) ∨ calls' = succeeded plan ∧ w = .left) :
    Launched plan closed calls' ⟨t, r', w⟩ := by
  obtain ⟨-, hserved, hjoining, hfailed⟩ := h.early
  exact ⟨fun ht => absurd ht hidle, hgoing, hrunning, hok, herror, hdropped,
    fun hw => absurd hw hserved, fun e hw => absurd hw (hjoining e),
    fun e hw => absurd hw (hfailed e), hheard, hgone⟩

/-- The next call fails: the calls went by the plan up to it. -/
theorem ended {k : κ} {rest : List κ} {r : Oneshot (Except ε Unit)} {w : Waiter ε}
    (h : Launched plan closed calls ⟨.settingUp (k :: rest), r, w⟩) (e : ε) :
    Ended plan (calls ++ [(k, some e)]) e := by
  obtain ⟨-, done, hplan, hcalls⟩ := h.going _ rfl
  exact ⟨done, k, rest, hplan, by rw [hcalls]⟩

theorem step {l l' : Launch κ ε} {call : Option (κ × Option ε)} (h : Launched plan closed calls l)
    (hs : Launches plan closed l l' call) : Launched plan closed (calls ++ call.toList) l' := by
  cases hs with
  | same => simpa using h
  | spawn r =>
    obtain ⟨hnil, rfl⟩ : calls = [] ∧ r = .waiting := h.idle rfl
    subst hnil
    exact ⟨fun ht => absurd ht (by simp), fun rest ht => ⟨rfl, [], by simpa using ht, rfl⟩,
      fun ht => absurd ht (by simp), fun hr => absurd hr (by simp), fun e hr => absurd hr (by simp),
      fun hr => absurd hr (by simp), fun hw => absurd hw (by simp), fun e hw => absurd hw (by simp),
      fun e hw => absurd hw (by simp), fun _ ht => absurd ht (by simp),
      fun ht => absurd ht (by simp)⟩
  | unspawnable r =>
    rw [Option.toList_none, List.append_nil]
    exact h.setWaiter (by simp) (by simp) (by simp) (by simp) fun e hw =>
      Or.inl ⟨rfl, (Waiter.failed.inj hw).symm⟩
  | pass k rest r w =>
    obtain ⟨rfl, done, hplan, hcalls⟩ := h.going _ rfl
    refine h.setThread (by simp) (fun rest' ht => ?_) (by simp) (by simp) (by simp) (by simp)
      (by simp) (by simp)
    obtain rfl := Thread.settingUp.inj ht
    exact ⟨rfl, done ++ [k], by simp [hplan], by simp [hcalls, succeeded]⟩
  | fail k rest e r w =>
    obtain ⟨rfl, -⟩ := h.early
    refine h.setThread (by simp) (by simp) (by simp) (by simp) (fun e' hr => ⟨rfl, ?_⟩) (by simp)
      (by simp) fun _ => Or.inl ⟨e, h.ended e⟩
    obtain rfl : e = e' := by simpa using hr
    exact h.ended e
  | panic k rest r w =>
    obtain ⟨rfl, -⟩ := h.early
    exact h.setThread (by simp) (by simp) (by simp) (by simp) (by simp)
      (fun _ => ⟨rfl, h.ended closed⟩) (by simp) fun _ => Or.inl ⟨closed, h.ended closed⟩
  | report r w =>
    obtain ⟨rfl, done, hplan, hcalls⟩ := h.going _ rfl
    rw [List.append_nil] at hplan
    subst hplan
    rw [Option.toList_none, List.append_nil]
    exact h.setThread (by simp) (by simp) (fun _ => hcalls) (fun _ => rfl) (by simp) (by simp)
      (by simp) (by simp)
  | unheard r w hw =>
    obtain ⟨-, hserved, hjoining, hfailed⟩ := h.early
    obtain ⟨rfl, done, hplan, hcalls⟩ := h.going _ rfl
    rw [List.append_nil] at hplan
    subst hplan
    rw [Option.toList_none, List.append_nil]
    refine h.setThread (by simp) (by simp) (by simp) (by simp) (by simp) (by simp)
      (fun hw' => absurd hw' hw) fun _ => Or.inr ⟨hcalls, ?_⟩
    cases w with
    | waiting => exact absurd rfl hw
    | joining e => exact absurd rfl (hjoining e)
    | failed e => exact absurd rfl (hfailed e)
    | served => exact absurd rfl hserved
    | left => rfl
  | serve t =>
    rw [Option.toList_none, List.append_nil]
    exact h.setWaiter (by simp) (by simp) (fun _ => h.ok rfl) (by simp) (by simp)
  | take t e =>
    rw [Option.toList_none, List.append_nil]
    refine h.setWaiter (by simp) (by simp) (by simp) (fun e' hw => ?_) (by simp)
    obtain rfl := Waiter.joining.inj hw
    exact h.error e rfl
  | takeDropped t =>
    rw [Option.toList_none, List.append_nil]
    refine h.setWaiter (by simp) (by simp) (by simp) (fun e' hw => ?_) (by simp)
    obtain rfl := Waiter.joining.inj hw
    exact h.dropped rfl
  | join r e =>
    rw [Option.toList_none, List.append_nil]
    refine h.setWaiter (by simp) (by simp) (by simp) (by simp) fun e' hw => Or.inr ?_
    obtain rfl := Waiter.failed.inj hw
    exact h.joining e rfl
  | leave t r w =>
    rw [Option.toList_none, List.append_nil]
    exact h.setWaiter (by simp) (fun _ => rfl) (by simp) (by simp) (by simp)

end Launched

/-- What was called, what who waited gets, and what is left then. -/
structure Returned (plan : List κ) (closed : ε) (calls : List (κ × Option ε)) (l : Launch κ ε) :
    Prop where
  /-- Without a thread nothing is called. -/
  idle : l.thread = .unspawned → calls = []
  /-- A set-up under way made the calls before the ones it still has to make, and told nothing. -/
  going : ∀ rest, l.thread = .settingUp rest →
    l.report = .waiting ∧ ∃ done, plan = done ++ rest ∧ calls = succeeded done
  /-- One that is over ended with the call that failed, or made them all for someone who left. -/
  gone : l.thread = .gone → (∃ e, Ended plan calls e) ∨ calls = succeeded plan ∧ l.waiter = .left
  /-- Who is served has a running thread that made all the calls of the plan. -/
  served : l.waiter = .served → calls = succeeded plan ∧ l.thread = .running
  /-- Who is told an error is told that of the call the set-up ended with, -/
  joining : ∀ e, l.waiter = .joining e → l.thread = .gone ∧ Ended plan calls e
  /-- once the thread is gone. Where none could be spawned it is `closed`. -/
  failed : ∀ e, l.waiter = .failed e →
    l.thread = .unspawned ∧ e = closed ∨ l.thread = .gone ∧ Ended plan calls e
  /-- Nobody is refused after a set-up that succeeded. -/
  unrefused : calls = succeeded plan → ∀ e, l.waiter ≠ .joining e ∧
    (l.waiter = .failed e → l.thread = .unspawned)
  /-- The thread goes on past the whole plan only. -/
  running : l.thread = .running → calls = succeeded plan
  /-- Nobody waits for a thread that went on or is gone without having left something to take. -/
  heard : l.waiter = .waiting → l.thread = .running ∨ l.thread = .gone → l.report ≠ .waiting

theorem Launched.returned {calls : List (κ × Option ε)} {l : Launch κ ε}
    (h : Launched plan closed calls l) : Returned plan closed calls l := by
  refine ⟨fun ht => (h.idle ht).1, h.going, h.gone,
    fun hw => ⟨h.running (h.served hw), h.served hw⟩, h.joining, h.failed,
    fun hall e => ⟨fun hw => ?_, fun hw => ?_⟩, h.running, h.heard⟩
  · exact not_ended_of_succeeded hall e (h.joining e hw).2
  · rcases h.failed e hw with ⟨hu, -⟩ | ⟨-, hx⟩
    · exact hu
    · exact absurd hx (not_ended_of_succeeded hall e)

/-- A machine whose steps launch a thread. -/
structure Machine.Launcher {σ : Type u} {α : Type v} (M : Machine σ α) (view : σ → Launch κ ε)
    (call : σ → α → Option (κ × Option ε)) (plan : List κ) (closed : ε) : Prop where
  init : view M.init = ⟨.unspawned, .waiting, .waiting⟩
  step : ∀ s a t, M.Reachable s → M.step s a = some t →
    Launches plan closed (view s) (view t) (call s a)

/-- **What a launch returns**, in every run. -/
theorem Machine.Launcher.returns {σ : Type u} {α : Type v} {M : Machine σ α} {view : σ → Launch κ ε}
    {call : σ → α → Option (κ × Option ε)} (h : M.Launcher view call plan closed) {as : List α}
    {s : σ} (hr : M.run as = some s) : Returned plan closed (M.notes call M.init as) (view s) := by
  refine Launched.returned ?_
  refine M.run_induction (P := fun as s => Launched plan closed (M.notes call M.init as) (view s))
    ?_ ?_ hr
  · rw [h.init]
    exact ⟨fun _ => ⟨rfl, rfl⟩, by simp, by simp, by simp, by simp, by simp, by simp, by simp,
      by simp, by simp, by simp⟩
  · intro as s a t hrun ih hst
    rw [M.notes_snoc hrun]
    exact ih.step (h.step s a t ⟨as, hrun⟩ hst)

end Nwep.Lib
