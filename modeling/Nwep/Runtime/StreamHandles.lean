import Nwep.Client.Handles
import Nwep.Lib.Fifo
import Nwep.Runtime.StreamProgress

/-!
# The handles of the managed stream

The owner thread of `ClientBuilder::stream` (`nwep/src/runtime.rs` 611-724) is a program over the
handles of `Nwep.Client.Handles`: it connects, opens a stream on the client and takes the message of
the metadata. What it holds goes out of scope, last first, when the thread ends, whichever way that
is. `chunk_tx` belongs to the closure and goes after them.

* An `Act` is a label of the stream with what the calls of the set-up answer.
* `handling` is what the owner does with its handles in a step, `program` what it does in a run.

Results:
* `Scope.leave`: locals that borrow only what was made before them go in the order of their scope;
* **`handles_tended`**: the owner is a program over its handles, it calls on what it holds only, and
  the consumer does not see the end of the channel before all of it was taken back.
-/

namespace Nwep.Client.Handles

open Nwep.Lib

/-! ## Scopes -/

/-- The values are the locals of a scope, named in the order they were made, and no body runs. -/
structure Scope (v : State) (locals : List Value) : Prop where
  values : ∀ h, v.values h = locals[h]?
  frames : v.frames = []
  next   : locals.length ≤ v.next

/-- The scope ends: its locals are dropped, last first. -/
def leave (n : Nat) : List Act := (List.range n).reverse.map .drop

/-- The calls of their destructors. -/
def closings (locals : List Value) : List Call :=
  (locals.zipIdx.map fun p => p.1.drop p.2).reverse.flatten

theorem leave_succ (n : Nat) : leave (n + 1) = .drop n :: leave n := by
  simp [leave, List.range_succ]

theorem closings_append (locals : List Value) (x : Value) :
    closings (locals ++ [x]) = x.drop locals.length ++ closings locals := by
  simp [closings, List.zipIdx_append]

theorem create_values (v : State) (cs : List Call) (o : Option Value) (h : Serial) :
    (v.create cs o).values h = if h = v.next then o else v.values h := by
  simp [State.create, Function.update_apply]

theorem take_values (v : State) (k : Serial) (cs : List Call) (h : Serial) :
    (v.take k cs).values h = if h = k then none else v.values h := by
  simp [State.take, Function.update_apply]

/-- What a local borrows was made before it. -/
def Scoped (locals : List Value) : Prop :=
  ∀ (h : Serial) (v : Value) (c : ClientRef), locals[h]? = some v → v.borrows = some c → c.serial < h

theorem Scoped.init {locals : List Value} {x : Value} (hb : Scoped (locals ++ [x])) :
    Scoped locals := by
  intro h v c hv hc
  refine hb h v c ?_ hc
  rw [List.getElem?_append_left (List.getElem?_eq_some_iff.mp hv).1]
  exact hv

namespace Scope

variable {v : State} {locals : List Value}

/-- The last local is free to go. -/
theorem idle {x : Value} (hs : Scope v (locals ++ [x])) (hb : Scoped (locals ++ [x])) :
    ¬ v.Busy locals.length := by
  rintro (⟨k, -, hk⟩ | ⟨f, hf, -⟩)
  · rw [hs.values] at hk
    obtain ⟨c, hc, hserial⟩ := Option.map_eq_some_iff.mp hk
    obtain ⟨y, hy, hborrows⟩ := Option.bind_eq_some_iff.mp hc
    have hlt : c.serial < k := hb k y c hy hborrows
    have hlen : k < locals.length + 1 := by
      simpa using (List.getElem?_eq_some_iff.mp hy).1
    exact absurd (Nat.lt_of_lt_of_le hlt (Nat.le_of_lt_succ hlen)) 
      (Nat.not_lt.mpr (Nat.le_of_eq hserial.symm))
  · rw [hs.frames] at hf
    exact absurd hf List.not_mem_nil

/-- Past the locals there is nothing. -/
theorem getElem?_snoc_ne {x : Value} {h : Serial} (hh : h ≠ locals.length) :
    (locals ++ [x])[h]? = locals[h]? := by
  rcases Nat.lt_or_gt_of_ne hh with hlt | hgt
  · rw [List.getElem?_append_left hlt]
  · rw [List.getElem?_eq_none (by simpa using Nat.succ_le_of_lt hgt),
      List.getElem?_eq_none (Nat.le_of_lt hgt)]

/-- The last local goes. -/
theorem dropLast {x : Value} (hs : Scope v (locals ++ [x])) (cs : List Call) :
    Scope (v.take locals.length cs) locals := by
  refine ⟨fun h => ?_, hs.frames, ?_⟩
  · rw [take_values]
    split
    · rename_i hh
      rw [hh, List.getElem?_eq_none (Nat.le_refl _)]
    · rename_i hh
      rw [hs.values, getElem?_snoc_ne hh]
  · have hnext := hs.next
    rw [List.length_append] at hnext
    exact Nat.le_of_succ_le hnext

/-- **A scope can always be left**, in the order of its locals, and nothing of it stays. -/
theorem leave (hs : Scope v locals) (hb : Scoped locals) :
    ∃ u, machine.runFrom v (Handles.leave locals.length) = some u ∧ (∀ h, u.values h = none) ∧
      u.calls = v.calls ++ closings locals := by
  induction locals using List.reverseRecOn generalizing v with
  | nil => exact ⟨v, rfl, fun h => by simpa using hs.values h, by simp [closings]⟩
  | append_singleton locals x ih =>
    have hx : v.values locals.length = some x := by
      rw [hs.values]
      simp
    have hst : machine.step v (.drop locals.length) =
        some (v.take locals.length (x.drop locals.length)) := by
      simp [machine, step, hx, hs.idle hb]
    obtain ⟨u, hu, hnone, hcalls⟩ := ih (hs.dropLast _) hb.init
    refine ⟨u, ?_, hnone, ?_⟩
    · rw [List.length_append, List.length_singleton, leave_succ]
      exact machine.runFrom_cons.mpr ⟨_, hst, hu⟩
    · rw [hcalls, closings_append, State.take, List.append_assoc]

/-- A call that makes the next local. -/
theorem made (hs : Scope v locals) (hnext : v.next = locals.length) (cs : List Call) (x : Value) :
    Scope (v.create cs (some x)) (locals ++ [x]) := by
  refine ⟨fun h => ?_, hs.frames, by simp [State.create, hnext]⟩
  rw [create_values, hnext]
  split
  · rename_i hh
    rw [hh]
    simp
  · rename_i hh
    rw [hs.values, getElem?_snoc_ne hh]

/-- A call that makes nothing. -/
theorem unmade (hs : Scope v locals) (hnext : v.next = locals.length) (cs : List Call) :
    Scope (v.create cs none) locals := by
  refine ⟨fun h => ?_, hs.frames, Nat.le_succ_of_le hs.next⟩
  rw [create_values, hnext]
  split
  · rename_i hh
    rw [hh, List.getElem?_eq_none (Nat.le_refl _)]
  · exact hs.values h

end Scope

end Nwep.Client.Handles

namespace Nwep.Runtime.StreamHandles

open Nwep.Client Nwep.Lib

/-! ## The owner and its handles -/

inductive Act
  | connect (identity : Option Identity) (rc : CInt) (raw : ClientPtr)
  | openStream (path : Bytes) (rc : CInt) (id : Handles.StreamId)
  | response (rc : CInt) (resp : Msg)
  | other (a : Stream.Act)
  deriving DecidableEq

/-- Whether a call succeeded. -/
def done {α : Type} (r : Result α) : Result Unit := r.map fun _ => ()

def Act.label : Act → Stream.Act
  | .connect identity rc raw => .connect (done (Handles.connectWith identity rc raw).1)
  | .openStream path rc id => .openStream (done (Handles.openStream path rc id).1)
  | .response rc resp => .response (done (Handles.streamResponse rc resp))
  | .other a => a

/-- The set-up goes by what its calls answer. -/
def Act.answered : Act → Bool
  | .other (.connect _) => false
  | .other (.openStream _) => false
  | .other (.response _) => false
  | _ => true

def machine : Machine Stream.State Act where
  init := Stream.init
  step s a := if a.answered then Stream.step s a.label else none

/-- The call that makes the next handle. -/
def Act.opens : Act → List Handles.Act
  | .connect identity rc raw => [.connect identity rc raw]
  | .openStream path rc id => [.openStream 0 path rc id]
  | .response rc resp => [.streamResponse 1 rc resp]
  | .other _ => []

/-- How many of `client`, `stream` and `meta` are in scope. -/
def locals : Stream.Pc → Nat
  | .connect => 0
  | .openStream => 1
  | .response => 2
  | _ => 3

/-- The step ends the thread. -/
def ends (s t : Stream.State) : Bool := t.pc.over && !s.pc.over

/-- What the owner does with its handles in a step. -/
def handling (s : Stream.State) (a : Act) : List Handles.Act :=
  a.opens ++
    match machine.step s a with
    | some t => if ends s t then Handles.leave (locals s.pc) else []
    | none => []

/-- What it does with them in a run. -/
def program (acts : List Act) : List Handles.Act :=
  (machine.notes (fun s a => some (handling s a)) machine.init acts).flatten

theorem handling_eq {s t : Stream.State} {a : Act} (h : machine.step s a = some t) :
    handling s a = a.opens ++ if ends s t then Handles.leave (locals s.pc) else [] := by
  simp [handling, h]

theorem program_snoc {acts : List Act} {s : Stream.State} (h : machine.run acts = some s) (a : Act) :
    program (acts ++ [a]) = program acts ++ handling s a := by
  rw [program, machine.notes_snoc h, List.flatten_append]
  simp [program]

/-! ## What it holds -/

/-- The locals, once all are made. -/
def values (raw : ClientPtr) (id : Handles.StreamId) (resp : Msg) : List Handles.Value :=
  [.client raw, .stream ⟨0, raw⟩ id, .response ⟨resp⟩]

/-- What the C side handed over with them. -/
def things (raw : ClientPtr) (id : Handles.StreamId) (resp : Msg) : List Handles.Thing :=
  [.client ⟨0, raw⟩, .stream 1 ⟨0, raw⟩ id, .message 2 resp]

/-- The owner has the locals of its place in the program, and called for no more than these. -/
structure Holds (pc : Stream.Pc) (v : Handles.State) (raw : ClientPtr) (id : Handles.StreamId)
    (resp : Msg) : Prop where
  scope : Handles.Scope v ((values raw id resp).take (locals pc))
  next  : v.next = locals pc
  calls : v.calls = ((things raw id resp).take (locals pc)).map Handles.Thing.handed

/-- The owner is gone: everything was handed over once and taken back once, last first. -/
structure Settled (v : Handles.State) : Prop where
  values : ∀ h, v.values h = none
  calls  : ∃ ts : List Handles.Thing,
    v.calls = ts.map Handles.Thing.handed ++ ts.reverse.map Handles.Thing.taken

/-- Where the owner is with its handles. -/
structure Keeps (s : Stream.State) (v : Handles.State) : Prop where
  going : s.pc.over = false → ∃ raw id resp, Holds s.pc v raw id resp
  ended : s.pc.over = true → Settled v

variable {raw : ClientPtr} {id : Handles.StreamId} {resp : Msg}

theorem length_values (pc : Stream.Pc) :
    ((values raw id resp).take (locals pc)).length = locals pc := by
  cases pc <;> rfl

/-- The stream borrows the client, which was made before it. -/
theorem values_scoped (pc : Stream.Pc) : Handles.Scoped ((values raw id resp).take (locals pc)) := by
  intro h v c hv hc
  rw [List.getElem?_take] at hv
  split at hv
  · match h, hv with
    | 0, h0 | 2, h0 =>
      obtain rfl := Option.some.inj h0
      exact absurd hc (by simp [Handles.Value.borrows])
    | 1, h1 =>
      obtain rfl := Option.some.inj h1
      obtain rfl := Option.some.inj hc
      exact Nat.zero_lt_one
    | n + 3, h3 => exact absurd h3 (by simp [values])
  · exact absurd hv (by simp)

theorem closings_values (pc : Stream.Pc) :
    Handles.closings ((values raw id resp).take (locals pc)) =
      ((things raw id resp).take (locals pc)).reverse.map Handles.Thing.taken := by
  cases pc <;> rfl

/-- Only the locals in scope matter. -/
theorem Holds.moved {pc pc' : Stream.Pc} {v : Handles.State} (h : Holds pc v raw id resp)
    (hpc : locals pc' = locals pc) : Holds pc' v raw id resp :=
  ⟨by rw [hpc]; exact h.scope, h.next.trans hpc.symm, by rw [hpc]; exact h.calls⟩

/-- **The owner leaves**: it can drop what it holds, and then all is settled. -/
theorem leaves {pc : Stream.Pc} {v : Handles.State}
    (hs : Handles.Scope v ((values raw id resp).take (locals pc)))
    (hcalls : v.calls = ((things raw id resp).take (locals pc)).map Handles.Thing.handed) :
    ∃ u, Handles.machine.runFrom v (Handles.leave (locals pc)) = some u ∧ Settled u := by
  obtain ⟨u, hu, hnone, hc⟩ := hs.leave (values_scoped pc)
  rw [length_values] at hu
  exact ⟨u, hu, hnone, _, by rw [hc, hcalls, closings_values]⟩

/-! ### The set-up -/

section Create

variable {α : Type} {p : Prop} [Decidable p] {r : Result α} {x : α}

/-- A call that succeeds hands over what its wrapper returns. -/
theorem create_ok (hr : r.toOption = if p then some x else none) {y : α} (hok : r = .ok y)
    (v : Handles.State) (f : α → Handles.Value) (call : Handles.Call) :
    v.create (Handles.handedIf p call) (r.toOption.map f) = v.create [call] (some (f x)) := by
  have hp : p := by
    by_contra hn
    rw [hok, if_neg hn] at hr
    exact absurd hr (by simp [Except.toOption])
  rw [hr, if_pos hp, Handles.handedIf, if_pos hp, Option.map_some]

/-- One that fails hands nothing over. -/
theorem create_error (hr : r.toOption = if p then some x else none) {e : Error} (he : r = .error e)
    (v : Handles.State) (f : α → Handles.Value) (call : Handles.Call) :
    v.create (Handles.handedIf p call) (r.toOption.map f) = v.create [] none := by
  have hp : ¬ p := by
    intro hp
    rw [he, if_pos hp] at hr
    exact absurd hr (by simp [Except.toOption])
  rw [hr, if_neg hp, Handles.handedIf, if_neg hp, Option.map_none]

end Create

/-- The set-up goes on: the next local is made. -/
theorem holds_made {pc pc' : Stream.Pc} {v : Handles.State} (h : Holds pc v raw id resp)
    (raw' : ClientPtr) (id' : Handles.StreamId) (resp' : Msg) (x : Handles.Value) (k : Handles.Thing)
    (hpc : locals pc' = locals pc + 1)
    (hvalues : (values raw' id' resp').take (locals pc') =
      (values raw id resp).take (locals pc) ++ [x])
    (hthings : (things raw' id' resp').take (locals pc') =
      (things raw id resp).take (locals pc) ++ [k]) :
    Holds pc' (v.create [k.handed] (some x)) raw' id' resp' where
  scope := by
    rw [hvalues]
    exact h.scope.made (h.next.trans (length_values pc).symm) _ x
  next := by rw [hpc, Handles.State.create, h.next]
  calls := by rw [hthings, List.map_append, Handles.State.create, h.calls, List.map_singleton]

/-- The set-up ends: nothing is made, and what was made before goes. -/
theorem holds_unmade {pc : Stream.Pc} {v : Handles.State} (h : Holds pc v raw id resp) :
    ∃ u, Handles.machine.runFrom (v.create [] none) (Handles.leave (locals pc)) = some u ∧
      Settled u := by
  refine leaves (h.scope.unmade (h.next.trans (length_values pc).symm) []) ?_
  rw [Handles.State.create, List.append_nil, h.calls]

theorem keeps_of_settled {s : Stream.State} {v : Handles.State} (ho : s.pc.over = true)
    (h : Settled v) : Keeps s v :=
  ⟨fun hn => absurd (ho.symm.trans hn) (by simp), fun _ => h⟩

theorem keeps_of_holds {s : Stream.State} {v : Handles.State} (ho : s.pc.over = false)
    (h : Holds s.pc v raw id resp) : Keeps s v :=
  ⟨fun _ => ⟨raw, id, resp, h⟩, fun hn => absurd (ho.symm.trans hn) (by simp)⟩

/-- The thread ends on the failure `e` of a call of the set-up. -/
theorem keeps_fail {s : Stream.State} {v u : Handles.State} {op : Handles.Act} {a : Act} {e : Error}
    (h : Holds s.pc v raw id resp) (hpc : s.pc.over = false)
    (hst : machine.step s a = some (s.fail e)) (hop : a.opens = [op])
    (hu : Handles.machine.step v op = some u) (hmade : u = v.create [] none) :
    ∃ u, Handles.machine.runFrom v (handling s a) = some u ∧ Keeps (s.fail e) u := by
  subst hmade
  obtain ⟨w, hw, hsettled⟩ := holds_unmade h
  refine ⟨w, ?_, keeps_of_settled rfl hsettled⟩
  have hends : ends s (s.fail e) = true := by
    rw [ends, hpc]
    rfl
  rw [handling_eq hst, hop, if_pos hends]
  exact Handles.machine.runFrom_cons.mpr ⟨_, hu, hw⟩

/-- The thread goes on with one local more. -/
theorem keeps_made {s t : Stream.State} {v u : Handles.State} {op : Handles.Act} {a : Act}
    (ht : t.pc.over = false) (hst : machine.step s a = some t) (hop : a.opens = [op])
    (hu : Handles.machine.step v op = some u) (h : Holds t.pc u raw id resp) :
    ∃ u, Handles.machine.runFrom v (handling s a) = some u ∧ Keeps t u := by
  refine ⟨u, ?_, keeps_of_holds ht h⟩
  have hends : ends s t = false := by simp [ends, ht]
  rw [handling_eq hst, hop, hends]
  exact Handles.machine.runFrom_cons.mpr ⟨u, hu, rfl⟩

theorem connect_ok {v : Handles.State} {identity : Option Identity} {rc : CInt} {raw y : ClientPtr}
    (h : (Handles.connectWith identity rc raw).1 = .ok y) :
    Handles.machine.step v (.connect identity rc raw) =
      some (v.create [.connect ⟨v.next, raw⟩] (some (.client raw))) :=
  congrArg some (create_ok (Handles.connectWith_handed identity rc raw) h v .client _)

theorem connect_error {v : Handles.State} {identity : Option Identity} {rc : CInt} {raw : ClientPtr}
    {e : Error} (h : (Handles.connectWith identity rc raw).1 = .error e) :
    Handles.machine.step v (.connect identity rc raw) = some (v.create [] none) :=
  congrArg some (create_error (Handles.connectWith_handed identity rc raw) h v .client
    (.connect ⟨v.next, raw⟩))

theorem openStream_ok {v : Handles.State} (hv : v.values 0 = some (.client raw)) {path : Bytes}
    {rc : CInt} {id y : Handles.StreamId} (h : (Handles.openStream path rc id).1 = .ok y) :
    Handles.machine.step v (.openStream 0 path rc id) =
      some (v.create [.openStream v.next ⟨0, raw⟩ id] (some (.stream ⟨0, raw⟩ id))) := by
  simp only [Handles.machine, Handles.step, hv]
  exact congrArg some (create_ok (Handles.openStream_handed path rc id) h v (.stream ⟨0, raw⟩) _)

theorem openStream_error {v : Handles.State} (hv : v.values 0 = some (.client raw)) {path : Bytes}
    {rc : CInt} {id : Handles.StreamId} {e : Error}
    (h : (Handles.openStream path rc id).1 = .error e) :
    Handles.machine.step v (.openStream 0 path rc id) = some (v.create [] none) := by
  simp only [Handles.machine, Handles.step, hv]
  exact congrArg some (create_error (Handles.openStream_handed path rc id) h v (.stream ⟨0, raw⟩) _)

theorem response_handed (rc : CInt) (resp : Msg) :
    (Handles.streamResponse rc resp).toOption = if 0 ≤ rc then some ⟨resp⟩ else none :=
  Handles.check_toOption rc _

theorem response_ok {v : Handles.State} (hv : v.values 1 = some (.stream ⟨0, raw⟩ id)) {rc : CInt}
    {resp : Msg} {y : Response} (h : Handles.streamResponse rc resp = .ok y) :
    Handles.machine.step v (.streamResponse 1 rc resp) =
      some (v.create [.handOver v.next resp] (some (.response ⟨resp⟩))) := by
  simp only [Handles.machine, Handles.step, hv]
  exact congrArg some (create_ok (response_handed rc resp) h v .response _)

theorem response_error {v : Handles.State} (hv : v.values 1 = some (.stream ⟨0, raw⟩ id)) {rc : CInt}
    {resp : Msg} {e : Error} (h : Handles.streamResponse rc resp = .error e) :
    Handles.machine.step v (.streamResponse 1 rc resp) = some (v.create [] none) := by
  simp only [Handles.machine, Handles.step, hv]
  exact congrArg some (create_error (response_handed rc resp) h v .response _)

/-! ### One step -/

theorem connect_step {s t : Stream.State} {v : Handles.State} {identity : Option Identity}
    {rc : CInt} {raw' : ClientPtr} (hk : Keeps s v)
    (hst : machine.step s (.connect identity rc raw') = some t) :
    ∃ u, Handles.machine.runFrom v (handling s (.connect identity rc raw')) = some u ∧
      Keeps t u := by
  have hs : Stream.step s (.connect (done (Handles.connectWith identity rc raw').1)) = some t := hst
  cases hr : (Handles.connectWith identity rc raw').1 with
  | ok y =>
    rw [hr] at hs
    cases Stream.step_inv hs with
    | connect hpc =>
      obtain ⟨raw, id, resp, h⟩ := hk.going (by rw [hpc]; rfl)
      rw [hpc] at h
      have hu := connect_ok (v := v) hr
      rw [h.next] at hu
      exact keeps_made rfl hst rfl hu
        (holds_made h raw' id resp (.client raw') (.client ⟨0, raw'⟩) rfl rfl rfl)
  | error e =>
    rw [hr] at hs
    cases Stream.step_inv hs with
    | connectErr hpc =>
      obtain ⟨raw, id, resp, h⟩ := hk.going (by rw [hpc]; rfl)
      exact keeps_fail h (by rw [hpc]; rfl) hst rfl (connect_error hr) rfl

theorem openStream_step {s t : Stream.State} {v : Handles.State} {path : Bytes} {rc : CInt}
    {id' : Handles.StreamId} (hk : Keeps s v)
    (hst : machine.step s (.openStream path rc id') = some t) :
    ∃ u, Handles.machine.runFrom v (handling s (.openStream path rc id')) = some u ∧
      Keeps t u := by
  have hs : Stream.step s (.openStream (done (Handles.openStream path rc id').1)) = some t := hst
  cases hr : (Handles.openStream path rc id').1 with
  | ok y =>
    rw [hr] at hs
    cases Stream.step_inv hs with
    | openStream hpc =>
      obtain ⟨raw, id, resp, h⟩ := hk.going (by rw [hpc]; rfl)
      rw [hpc] at h
      have hu := openStream_ok (h.scope.values 0) hr
      rw [h.next] at hu
      exact keeps_made rfl hst rfl hu
        (holds_made h raw id' resp (.stream ⟨0, raw⟩ id') (.stream 1 ⟨0, raw⟩ id') rfl rfl rfl)
  | error e =>
    rw [hr] at hs
    cases Stream.step_inv hs with
    | openErr hpc =>
      obtain ⟨raw, id, resp, h⟩ := hk.going (by rw [hpc]; rfl)
      have hv := h.scope.values 0
      rw [hpc] at hv
      exact keeps_fail h (by rw [hpc]; rfl) hst rfl (openStream_error hv hr) rfl

theorem response_step {s t : Stream.State} {v : Handles.State} {rc : CInt} {resp' : Msg}
    (hk : Keeps s v) (hst : machine.step s (.response rc resp') = some t) :
    ∃ u, Handles.machine.runFrom v (handling s (.response rc resp')) = some u ∧ Keeps t u := by
  have hs : Stream.step s (.response (done (Handles.streamResponse rc resp'))) = some t := hst
  cases hr : Handles.streamResponse rc resp' with
  | ok y =>
    rw [hr] at hs
    cases Stream.step_inv hs with
    | response hpc =>
      obtain ⟨raw, id, resp, h⟩ := hk.going (by rw [hpc]; rfl)
      rw [hpc] at h
      have hu := response_ok (h.scope.values 1) hr
      rw [h.next] at hu
      exact keeps_made rfl hst rfl hu
        (holds_made h raw id resp' (.response ⟨resp'⟩) (.message 2 resp') rfl rfl rfl)
  | error e =>
    rw [hr] at hs
    cases Stream.step_inv hs with
    | responseErr hpc =>
      obtain ⟨raw, id, resp, h⟩ := hk.going (by rw [hpc]; rfl)
      have hv := h.scope.values 1
      rw [hpc] at hv
      exact keeps_fail h (by rw [hpc]; rfl) hst rfl (response_error hv hr) rfl

/-- A thread that is over stays so. -/
theorem over_stays {s t : Stream.State} {a : Stream.Act} (h : Stream.Step s a t)
    (ho : s.pc.over = true) : t.pc.over = true := by
  rw [(Stream.caller_keeps h (Stream.not_ofOwner_of_over h ho)).1]
  exact ho

/-- Past the set-up the locals stay the same. -/
theorem locals_stay {s t : Stream.State} {a : Stream.Act} (h : Stream.Step s a t)
    (ha : (Act.other a).answered = true) : locals t.pc = locals s.pc := by
  cases h with
  | connect _ | connectErr _ | openStream _ | openErr _ | response _ | responseErr _ =>
    exact absurd ha (by simp [Act.answered])
  | sendReady hpc _ | callerGone hpc _ | peer hpc | recvPanic hpc _ _ | recvErr hpc _
  | pushLast hpc _ | verify hpc | finish hpc =>
    rw [hpc]
    rfl
  | @recv a buf n ended hpc _ hn =>
    rw [hpc]
    unfold Stream.afterRecv
    split
    · cases ended <;> rfl
    · rfl
  | @pushChunk _ ended _ hpc _ =>
    rw [hpc]
    cases ended <;> rfl
  | pushFails hpc _ =>
    rcases hpc with ⟨_, _, hpc⟩ | ⟨_, hpc⟩ <;> rw [hpc] <;> rfl
  | receiveOk _ _ | receiveErr _ _ | nextItem _ _ | nextClosed _ _ | drop _ => rfl

theorem other_step {s t : Stream.State} {v : Handles.State} {a : Stream.Act} (hk : Keeps s v)
    (hst : machine.step s (.other a) = some t) :
    ∃ u, Handles.machine.runFrom v (handling s (.other a)) = some u ∧ Keeps t u := by
  have ha : (Act.other a).answered = true := by
    by_contra hn
    simp [machine, hn] at hst
  have hs : Stream.Step s a t := by
    refine Stream.step_inv ?_
    simpa [machine, ha, Act.label] using hst
  rw [handling_eq hst]
  cases hso : s.pc.over with
  | true =>
    -- only the consumer moves
    have hto := over_stays hs hso
    refine ⟨v, ?_, keeps_of_settled hto (hk.ended hso)⟩
    simp [ends, hso, Act.opens]
  | false =>
    obtain ⟨raw, id, resp, h⟩ := hk.going hso
    cases hto : t.pc.over with
    | true =>
      obtain ⟨u, hu, hsettled⟩ := leaves h.scope h.calls
      refine ⟨u, ?_, keeps_of_settled hto hsettled⟩
      simpa [ends, hso, hto, Act.opens] using hu
    | false =>
      exact ⟨v, by simp [ends, hto, Act.opens], keeps_of_holds hto (h.moved (locals_stay hs ha))⟩

/-- **One step**: what the owner does with its handles it can do, and it keeps them in order. -/
theorem keeps_step {s t : Stream.State} {v : Handles.State} {a : Act} (hk : Keeps s v)
    (hst : machine.step s a = some t) :
    ∃ u, Handles.machine.runFrom v (handling s a) = some u ∧ Keeps t u := by
  cases a with
  | connect identity rc raw => exact connect_step hk hst
  | openStream path rc id => exact openStream_step hk hst
  | response rc resp => exact response_step hk hst
  | other a => exact other_step hk hst

/-- **A run of the stream is a run of the handles.** -/
theorem keeps_run {acts : List Act} {s : Stream.State} (h : machine.run acts = some s) :
    ∃ v, Handles.machine.run (program acts) = some v ∧ Keeps s v := by
  refine machine.run_induction
    (P := fun acts s => ∃ v, Handles.machine.run (program acts) = some v ∧ Keeps s v) ?_ ?_ h
  · refine ⟨Handles.init, rfl, fun _ => ⟨0, 0, 0, ⟨fun h => ?_, rfl, Nat.le_refl _⟩, rfl, rfl⟩,
      fun ho => absurd ho (by simp [machine, Stream.init, Stream.Pc.over])⟩
    simp [machine, Stream.init, locals, Handles.init]
  · rintro acts s a t hrun ⟨v, hv, hk⟩ hst
    obtain ⟨u, hu, hk'⟩ := keeps_step hk hst
    refine ⟨u, ?_, hk'⟩
    rw [program_snoc hrun]
    exact Handles.machine.run_append.mpr ⟨v, hv, hu⟩

/-! ## The theorem -/

/-- A stream run with answers is a run of the stream. -/
theorem stream_run {acts : List Act} {s : Stream.State} (h : machine.run acts = some s) :
    Stream.machine.Reachable s := by
  refine machine.reachable_induction (P := Stream.machine.Reachable) ⟨[], rfl⟩ ?_ ⟨acts, h⟩
  intro s a t _ hr hst
  refine Stream.machine.reachable_step hr (a := a.label) ?_
  simp only [machine] at hst
  split at hst
  · exact hst
  · exact absurd hst (by simp)

/-- A consumer that finds the channel closed, and a caller that was told an error, find the thread
over. -/
theorem over_of_told {s : Stream.State} (h : Stream.machine.Reachable s) :
    (none ∈ s.got → s.pc.over = true) ∧ ∀ e, s.caller = .failed e → s.pc.over = true := by
  refine Stream.machine.reachable_induction
    (P := fun s => (none ∈ s.got → s.pc.over = true) ∧ ∀ e, s.caller = .failed e → s.pc.over = true)
    ⟨by simp [Stream.machine, Stream.init], by simp [Stream.machine, Stream.init]⟩ ?_ h
  rintro s a t hr ⟨hgot, hfailed⟩ hst
  have hs := Stream.step_inv hst
  have hkeep : t.got = s.got → t.caller = s.caller →
      (none ∈ t.got → t.pc.over = true) ∧ ∀ e, t.caller = .failed e → t.pc.over = true := by
    intro hg hc
    rw [hg, hc]
    exact ⟨fun hn => over_stays hs (hgot hn), fun e he => over_stays hs (hfailed e he)⟩
  cases hs with
  | receiveOk hc _ => exact ⟨hgot, fun e he => absurd he (by simp)⟩
  | receiveErr hc hready =>
    refine ⟨hgot, fun _ _ => ?_⟩
    -- the report is written in the set-up's last step, or with it the thread ends
    have hpr := Stream.present_reachable hr
    have hrep := Stream.reported_reachable hr
    have hplace : s.pc.setsUp = true ∨ s.pc.streams = true ∨ s.pc.over = true := by
      cases s.pc <;> simp [Stream.Pc.setsUp, Stream.Pc.streams, Stream.Pc.over]
    rcases hplace with hp | hp | hp
    · exact absurd (hready.symm.trans (hpr.unsent hp)) (by simp)
    · exact absurd (hready.symm.trans (hrep.sent hp)) (by simp)
    · exact hp
  | nextItem hc _ =>
    refine ⟨fun hn => hgot ?_, hfailed⟩
    simpa using hn
  | nextClosed hc hq =>
    refine ⟨fun _ => ?_, hfailed⟩
    rcases (Stream.present_reachable hr).closed (Mpsc.tryRecv_disconnected hq).2 with hp | hp <;>
      rw [hp] <;> rfl
  | drop _ => exact ⟨hgot, fun e he => absurd he (by simp)⟩
  | _ => exact hkeep rfl rfl

/-- What the owner does with its handles is in order. -/
structure Orderly (s : Stream.State) (v : Handles.State) : Prop where
  /-- It has the client, the stream and the message for as long as it works on the body. -/
  inUse   : s.pc.streams = true → ∃ raw id resp, ∀ h, v.values h = (values raw id resp)[h]?
  /-- As long as it runs it has taken nothing back, -/
  holding : s.pc.over = false → ∃ ts : List Handles.Thing, v.calls = ts.map Handles.Thing.handed
  /-- and when it is over everything, once and last first. -/
  settled : s.pc.over = true → Settled v
  /-- So it has when the consumer finds the channel closed, or the caller is told an error. -/
  told    : (none ∈ s.got ∨ ∃ e, s.caller = .failed e) → Settled v

/-- **The owner tends its handles**, in every run: what it does with them is a run of the handle
machine, which drops nothing that is not there or is still borrowed. -/
theorem handles_tended {acts : List Act} {s : Stream.State} (h : machine.run acts = some s) :
    ∃ v, Handles.machine.run (program acts) = some v ∧ Orderly s v := by
  obtain ⟨v, hv, hk⟩ := keeps_run h
  have htold := over_of_told (stream_run h)
  refine ⟨v, hv, fun hs => ?_, fun ho => ?_, hk.ended, fun ht => hk.ended ?_⟩
  · have hpc : s.pc.over = false ∧ locals s.pc = 3 := by
      cases hp : s.pc <;> rw [hp] at hs <;>
        first
          | exact ⟨rfl, rfl⟩
          | exact absurd hs (by simp [Stream.Pc.streams])
    obtain ⟨raw, id, resp, hh⟩ := hk.going hpc.1
    have hscope := hh.scope
    rw [hpc.2] at hscope
    exact ⟨raw, id, resp, hscope.values⟩
  · obtain ⟨raw, id, resp, hh⟩ := hk.going ho
    exact ⟨_, hh.calls⟩
  · rcases ht with hn | ⟨e, he⟩
    · exact htold.1 hn
    · exact htold.2 e he

/-- The consumer leaves while the owner reads; the chunk it sends next ends it. -/
def leftRun : List Act :=
  [.connect (some ⟨(received 32 []), (received 32 []), (received 32 [])⟩) 0 77,
   .openStream [47] 0 4, .response 0 901, .other .sendReady, .other .receive,
   .other (.peer 0 [5]), .other .drop, .other (.recv ⟨0, [1], 1, 0⟩), .other .pushFails,
   .other .finish]

theorem handles_tended_leftRun :
    ∃ s v, machine.run leftRun = some s ∧ Handles.machine.run (program leftRun) = some v ∧
      v.calls = [.connect ⟨0, 77⟩, .openStream 1 ⟨0, 77⟩ 4, .handOver 2 901, .free 2 901,
        .streamClose 1 ⟨0, 77⟩ 4, .close ⟨0, 77⟩] ∧
      ∃ v, Handles.machine.run (program leftRun) = some v ∧ Orderly s v :=
  ⟨_, _, rfl, rfl, rfl, handles_tended rfl⟩

end Nwep.Runtime.StreamHandles
