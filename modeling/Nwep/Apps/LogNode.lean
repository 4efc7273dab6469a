import Mathlib.Data.List.Infix
import Nwep.LogServer

/-!
# The log node

Model of a node that keeps what its log accepts: a `Log` behind a `LogServer` with a hook, as in
`nwep/examples/nwlog.rs` 46-67, over `nwep/src/logserver.rs` 76-155.

* The C log is as documented: an accepted entry becomes the next leaf, and the callback gets it with
  its index (`nwep-sys/src/lib.rs` 986-987, 999-1004). Which entries a request makes it accept is
  free; one that is none of its routes, none.
* A hook keeps the entry it is given or panics before it does, which the trampoline swallows. It may
  be replaced, and the log may hold entries from before the server was made.

Results:
* `kept_run`: what was kept are entries of the log, with their indices, in order;
* **`restores_iff`**: appending what was kept to the first log gives the log in exactly the runs in
  which nothing is accepted without a hook, and no hook panics.
-/

namespace Nwep.Apps.LogNode

open Nwep.Lib Nwep.LogServer Nwep.Server

/-- An entry and its index. -/
abbrev Entry := Bytes × Nat

structure Node where
  server  : LogServer.State
  log     : List Bytes       -- the leaves of the `Log`
  kept    : List Entry       -- what the hooks kept
  replies : List Terminal

/-- `appended` of `nwlog.rs`, which its hook sets to `index + 1`. -/
def Node.appended (n : Node) : Nat := ((n.kept.getLast?).map fun e => e.2 + 1).getD 0

inductive Act
  | onAppend (panics : Bool)
  | request (req : Request) (res : Responder) (nowSecs : Int) (rc : CInt) (accepted : List Bytes)
      (panics : List Nat)   -- the indices at which the hook panics
  | drop

/-- The closure given to `on_request`. -/
def handler (res : Responder) (rc : CInt) : Terminal :=
  match dispatchOutcome res rc with
  | .handled reply => reply
  | .notMine res => res.notFound

/-- `append_trampoline`, by what the hook keeps. -/
def appendTrampoline (panics : List Nat) : LogServer.Call → Option Entry
  | .fire _ entry index => if index ∈ panics then none else some (entry, index)
  | _ => none

def step (n : Node) : Act → Option Node
  | .onAppend panics =>
    (LogServer.step n.server (.onAppend panics)).map fun v => { n with server := v }
  | .request req res nowSecs rc accepted panics =>
    if rc = 1 ∧ accepted ≠ [] then none
    else
      let entries := accepted.zipIdx n.log.length
      (LogServer.step n.server (.dispatch req res nowSecs entries)).map fun v =>
        { server := v
          log := n.log ++ accepted
          kept := n.kept ++ (fires n.server.world entries).filterMap (appendTrampoline panics)
          replies := n.replies ++ [handler res rc] }
  | .drop => (LogServer.step n.server .drop).map fun v => { n with server := v }

/-- The node, from a log that holds `first`. -/
def machine (first : List Bytes) : Machine Node Act := ⟨⟨LogServer.init, first, [], []⟩, step⟩

/-- Every enabled step. -/
inductive Step (n : Node) : Act → Node → Prop
  | onAppend {panics v} (h : LogServer.step n.server (.onAppend panics) = some v) :
      Step n (.onAppend panics) { n with server := v }
  | request {req res nowSecs rc accepted panics v}
      (h : LogServer.step n.server (.dispatch req res nowSecs (accepted.zipIdx n.log.length)) =
        some v) :
      Step n (.request req res nowSecs rc accepted panics)
        { server := v
          log := n.log ++ accepted
          kept := n.kept ++ (fires n.server.world (accepted.zipIdx n.log.length)).filterMap
            (appendTrampoline panics)
          replies := n.replies ++ [handler res rc] }
  | drop {v} (h : LogServer.step n.server .drop = some v) : Step n .drop { n with server := v }

theorem step_inv {n m : Node} {a : Act} (h : step n a = some m) : Step n a m := by
  cases a with
  | onAppend panics =>
    obtain ⟨v, hv, rfl⟩ := Option.map_eq_some_iff.mp h
    exact .onAppend hv
  | request req res nowSecs rc accepted panics =>
    simp only [step] at h
    split at h
    · exact absurd h (by simp)
    · obtain ⟨v, hv, rfl⟩ := Option.map_eq_some_iff.mp h
      exact .request hv
  | drop =>
    obtain ⟨v, hv, rfl⟩ := Option.map_eq_some_iff.mp h
    exact .drop hv

/-! ## What the hooks keep -/

/-- Nothing is accepted without a hook, and none panics. -/
def NoLoss (n : Node) : Act → Prop
  | .request _ _ _ _ accepted panics =>
    ∀ e ∈ accepted.zipIdx n.log.length, n.server.hook ≠ none ∧ e.2 ∉ panics
  | _ => True

instance (n : Node) (a : Act) : Decidable (NoLoss n a) :=
  match a with
  | .request _ _ _ _ accepted panics => inferInstanceAs (Decidable
      (∀ e ∈ accepted.zipIdx n.log.length, n.server.hook ≠ none ∧ e.2 ∉ panics))
  | .onAppend _ | .drop => isTrue trivial

/-- The hook that is registered keeps what it does not panic at. -/
theorem kept_fires (w : World) (entries : List Entry) (panics : List Nat) :
    (fires w entries).filterMap (appendTrampoline panics) =
      if w.registered = none then [] else entries.filter fun e => e.2 ∉ panics := by
  unfold fires
  cases w.registered with
  | none => rfl
  | some b =>
    simp only [List.filterMap_map, reduceCtorEq, if_false]
    induction entries with
    | nil => rfl
    | cons e entries ih =>
      rw [List.filterMap_cons, List.filter_cons, ih]
      by_cases he : e.2 ∈ panics <;> simp [appendTrampoline, he]

theorem kept_fires_sublist (w : World) (entries : List Entry) (panics : List Nat) :
    ((fires w entries).filterMap (appendTrampoline panics)).Sublist entries := by
  rw [kept_fires]
  split
  · exact List.nil_sublist _
  · exact List.filter_sublist

theorem kept_fires_eq_iff (w : World) (entries : List Entry) (panics : List Nat) :
    (fires w entries).filterMap (appendTrampoline panics) = entries ↔
      ∀ e ∈ entries, w.registered ≠ none ∧ e.2 ∉ panics := by
  rw [kept_fires]
  by_cases hw : w.registered = none
  · rw [if_pos hw]
    constructor
    · rintro rfl e he
      exact absurd he List.not_mem_nil
    · intro h
      exact (List.eq_nil_iff_forall_not_mem.mpr fun e he => (h e he).1 hw).symm
  · rw [if_neg hw, List.filter_eq_self]
    simp [hw]

/-- Parts of two lists make up the whole when each is its own. -/
theorem append_eq_of_sublist {α : Type} {as as' bs bs' : List α} (ha : as.Sublist as')
    (hb : bs.Sublist bs') : as ++ bs = as' ++ bs' ↔ as = as' ∧ bs = bs' := by
  constructor
  · intro h
    have hlen := congrArg List.length h
    rw [List.length_append, List.length_append] at hlen
    have hla := ha.length_le
    have hlb := hb.length_le
    exact ⟨ha.eq_of_length (by omega), hb.eq_of_length (by omega)⟩
  · rintro ⟨rfl, rfl⟩
    rfl

/-- What the log accepted past the first `base` entries. -/
def Node.accepted (base : Nat) (n : Node) : List Entry := n.log.zipIdx.drop base

/-- What a run has kept so far. -/
structure Kept (first : List Bytes) (acts : List Act) (n : Node) : Prop where
  server  : LogServer.machine.Reachable n.server
  begins  : first <+: n.log
  inOrder : n.kept.Sublist (n.accepted first.length)
  whole   : n.kept = n.accepted first.length ↔
    (machine first).Guarded NoLoss (machine first).init acts

theorem accepted_append {base : Nat} {n : Node} (h : base ≤ n.log.length) (accepted : List Bytes) :
    (n.log ++ accepted).zipIdx.drop base =
      n.accepted base ++ accepted.zipIdx n.log.length := by
  rw [List.zipIdx_append, List.drop_append_of_le_length (by simpa using h), Nat.zero_add]
  rfl

/-- A step that is no request. -/
theorem Kept.serverMoves {first : List Bytes} {acts : List Act} {n : Node} (h : Kept first acts n)
    (hr : (machine first).run acts = some n) {b : LogServer.Act} {v : LogServer.State}
    (hv : LogServer.step n.server b = some v) {a : Act} (ha : NoLoss n a) :
    Kept first (acts ++ [a]) { n with server := v } where
  server := LogServer.machine.reachable_step h.server hv
  begins := h.begins
  inOrder := h.inOrder
  whole := by
    rw [(machine first).guarded_snoc hr]
    exact h.whole.trans (and_iff_left ha).symm

theorem kept_step {first : List Bytes} {acts : List Act} {n m : Node} {a : Act}
    (h : Kept first acts n) (hr : (machine first).run acts = some n) (hs : Step n a m) :
    Kept first (acts ++ [a]) m := by
  cases hs with
  | onAppend hv | drop hv => exact h.serverMoves hr hv trivial
  | @request req res nowSecs rc accepted panics v hv =>
    have hbase : first.length ≤ n.log.length := h.begins.length_le
    have hpart := kept_fires_sublist n.server.world (accepted.zipIdx n.log.length) panics
    have hmore := accepted_append hbase accepted
    -- the C side has registered what the server has for a hook
    have hhook : n.server.world.registered = n.server.hook := by
      obtain ⟨as, has⟩ := h.server
      exact ((lifetime_run has).inUse (LogServer.step_inv hv).1).registered
    have hst : LogServer.machine.step n.server
        (.dispatch req res nowSecs (accepted.zipIdx n.log.length)) = some v := hv
    refine ⟨LogServer.machine.reachable_step h.server hst,
      h.begins.trans (List.prefix_append _ _), ?_, ?_⟩
    · rw [Node.accepted, hmore]
      exact h.inOrder.append hpart
    · rw [Node.accepted, hmore, append_eq_of_sublist h.inOrder hpart, kept_fires_eq_iff, hhook,
        h.whole, (machine first).guarded_snoc hr]
      rfl

theorem kept_run {first : List Bytes} {acts : List Act} {n : Node}
    (h : (machine first).run acts = some n) : Kept first acts n := by
  refine (machine first).run_induction (P := Kept first) ?_
    (fun _ _ _ _ hr hk hst => kept_step hk hr (step_inv hst)) h
  refine ⟨⟨[], rfl⟩, List.prefix_refl _, List.nil_sublist _, ?_⟩
  exact ⟨fun _ => trivial, fun _ => by simp [machine, Node.accepted]⟩

/-! ## The theorem -/

/-- Appending what was kept gives the log back when nothing is missing. -/
theorem restores_of_kept {first : List Bytes} {n : Node} (hfirst : first <+: n.log)
    (hkept : n.kept.Sublist (n.accepted first.length)) :
    first ++ n.kept.map Prod.fst = n.log ↔ n.kept = n.accepted first.length := by
  have haccepted : (n.accepted first.length).map Prod.fst = n.log.drop first.length := by
    rw [Node.accepted, List.map_drop, List.zipIdx_map_fst]
  have hsplit : first ++ n.log.drop first.length = n.log := by
    obtain ⟨rest, hrest⟩ := hfirst
    rw [← hrest, List.drop_left]
  constructor
  · intro h
    refine hkept.eq_of_length ?_
    have hlen := congrArg List.length (h.trans hsplit.symm)
    have hacc := congrArg List.length haccepted
    rw [List.length_append, List.length_append, List.length_map] at hlen
    rw [List.length_map] at hacc
    omega
  · intro h
    rw [h, haccepted, hsplit]

/-- The counter is the index of an entry of the log, plus one. -/
theorem appended_le {first : List Bytes} {n : Node}
    (hkept : n.kept.Sublist (n.accepted first.length)) : n.appended ≤ n.log.length := by
  unfold Node.appended
  cases hl : n.kept.getLast? with
  | none => exact Nat.zero_le _
  | some e =>
    have hmem : e ∈ n.log.zipIdx :=
      (List.drop_sublist _ _).subset (hkept.subset (List.mem_of_getLast? hl))
    exact Nat.succ_le_of_lt (by simpa using List.snd_lt_of_mem_zipIdx hmem)

theorem appended_eq {n : Node} (h : n.kept = n.log.zipIdx) : n.appended = n.log.length := by
  unfold Node.appended
  rw [h, List.getLast?_zipIdx]
  cases hlog : n.log.getLast? with
  | none =>
    rw [List.getLast?_eq_none_iff.mp hlog]
    rfl
  | some e =>
    have hpos : 0 < n.log.length := List.length_pos_of_mem (List.mem_of_getLast? hlog)
    simp only [Option.map_some, Option.getD_some]
    omega

/-- A request with what the C side answers to it. -/
def Act.answer : Act → Option Terminal
  | .request _ res _ rc _ _ => some (handler res rc)
  | _ => none

/-- What the node owes whoever has it keep the log. -/
structure Restores (first : List Bytes) (acts : List Act) (n : Node) : Prop where
  /-- What was kept are entries the log accepted, with their indices, in order and each once. -/
  inOrder  : n.kept.Sublist (n.log.zipIdx.drop first.length)
  /-- It is all of them exactly when nothing is accepted without a hook and no hook panics. -/
  restored : first ++ n.kept.map Prod.fst = n.log ↔
    (machine first).Guarded NoLoss (machine first).init acts
  /-- The counter never runs ahead of the log, and is its size when all was kept from the start. -/
  counted  : n.appended ≤ n.log.length ∧
    (first = [] → (machine first).Guarded NoLoss (machine first).init acts →
      n.appended = n.log.length)
  /-- Every request is answered once, in order. -/
  answered : n.replies = acts.filterMap Act.answer

/-- **What the hooks keep restores the log**, whatever is accepted, replaced and panics. -/
theorem restores_iff {first : List Bytes} {acts : List Act} {n : Node}
    (h : (machine first).run acts = some n) : Restores first acts n := by
  have hk := kept_run h
  refine ⟨hk.inOrder, (restores_of_kept hk.begins hk.inOrder).trans hk.whole,
    ⟨appended_le hk.inOrder, fun hfirst hg => appended_eq ?_⟩, ?_⟩
  · rw [hk.whole.mpr hg, hfirst]
    rfl
  · refine (machine first).run_induction (P := fun acts n => n.replies = acts.filterMap Act.answer)
      rfl ?_ h
    intro acts n a m _ ih hst
    rw [List.filterMap_append, ← ih]
    cases step_inv hst with
    | onAppend _ | drop _ => exact (List.append_nil _).symm
    | request _ => rfl

/-- The hook panics at the second entry, and what it captured in its drop when it is replaced, so
that nothing is installed. -/
def gappedRun : List Act :=
  [.onAppend false, .request ⟨7, 1, 2, 0⟩ ⟨5, 0, 1, 2, 0, []⟩ 100 0 [[1], [2], [3]] [2],
   .request ⟨7, 1, 2, 0⟩ ⟨5, 0, 1, 2, 0, []⟩ 101 1 [] [], .onAppend true,
   .request ⟨7, 1, 2, 0⟩ ⟨5, 0, 1, 2, 0, []⟩ 102 0 [[4]] []]

theorem restores_iff_gappedRun :
    ∃ n, (machine [[9]]).run gappedRun = some n ∧ n.log = [[9], [1], [2], [3], [4]] ∧
      n.kept = [([1], 1), ([3], 3)] ∧ n.replies.length = 3 ∧ Restores [[9]] gappedRun n :=
  ⟨_, rfl, rfl, rfl, rfl, restores_iff rfl⟩

end Nwep.Apps.LogNode
