import Nwep.Client.Request
import Nwep.Lib.Heap
import Nwep.Lib.Machine

/-!
# The request-done hook

Model of `Client::on_request_done`, `done_trampoline` and `Client::drop` (`nwep/src/client.rs`
494-513, 789-822). `on_request_done` takes `&self`, so a hook that shares its client can call it,
and `tick`, from its own body; so can the captures of a replaced hook, from their destructor.
`frames` is the call stack of these points, innermost first:

* `tick`: the C side runs, and may call the registered hook;
* `body`: a hook's body runs, called with the request's id and result;
* `replaced`: `on_request_done` is freeing the previous box, and the destructor of what it captured
  runs.

User code runs at the bottom of the stack, in `body` and in `replaced`. The previous box is freed
before the new one is registered, so in `replaced` the C side still has the freed one;
`LogServer::clear_hook` unregisters first (`nwep/src/logserver.rs` 122-130). The client is dropped
with nothing running, since every call borrows it, and closing it fires nothing.

Results:
* `freed_at_most_once`: no run frees a box twice;
* **`hooks_safe`**: the runs in which the hooks are safe are those whose user code does not replace
  a hook from its own body, does not tick while the registered box is freed, and does not leave a
  hook of its own behind when a destructor returns.
-/

namespace Nwep.Client.DoneHook

open Nwep.Lib

/-- A hook box. -/
abbrev BoxId := Nat

/-- The result the hook is called with. -/
def doneResult (status : CInt) (resp : Msg) : Result Response :=
  if status = 0 then .ok ⟨resp⟩ else .error (Error.fromCode status)

/-- What is running. -/
inductive Frame
  | tick
  | body (b : BoxId) (id : RequestId) (result : Result Response)
  | replaced

/-- What the C client has registered, the client's `done` cell, the boxes and the call stack. -/
structure State where
  registered : Option BoxId
  done       : Option BoxId
  heap       : Heap
  frames     : List Frame
  dropped    : Bool

def init : State := ⟨none, none, Heap.empty, [], false⟩

inductive Act
  | onRequestDone
  | destructorReturns
  | destructorPanics
  | tick
  | fire (id : RequestId) (status : CInt) (resp : Msg)
  | bodyReturns
  | tickReturns
  | drop
  deriving DecidableEq

/-- User code is running. -/
def State.userRuns (s : State) : Bool :=
  match s.frames with
  | .tick :: _ => false
  | _ => !s.dropped

/-- A new box is registered and remembered. -/
def State.install (s : State) : State :=
  { s with registered := some s.heap.next, done := some s.heap.next, heap := s.heap.alloc }

/-- The box in `done` is taken out and freed. -/
def State.takeDone (s : State) : State :=
  match s.done with
  | some b => { s with done := none, heap := s.heap.free b }
  | none => s

def step (s : State) : Act → Option State
  | .onRequestDone =>
    if s.userRuns then
      match s.done with
      | some _ => some { s.takeDone with frames := .replaced :: s.frames }
      | none => some s.install
    else none
  | .destructorReturns =>
    match s.frames with
    | .replaced :: frames => some { s with frames := frames }.install
    | _ => none
  | .destructorPanics =>
    match s.frames with
    | .replaced :: frames => some { s with frames := frames }
    | _ => none
  | .tick => if s.userRuns then some { s with frames := .tick :: s.frames } else none
  | .fire id status resp =>
    match s.frames, s.registered with
    | .tick :: _, some b =>
      some { s with frames := .body b id (doneResult status resp) :: s.frames }
    | _, _ => none
  -- a panic in the body is caught by the trampoline
  | .bodyReturns =>
    match s.frames with
    | .body _ _ _ :: frames => some { s with frames := frames }
    | _ => none
  | .tickReturns =>
    match s.frames with
    | .tick :: frames => some { s with frames := frames }
    | _ => none
  | .drop =>
    match s.frames, s.dropped with
    | [], false => some { s.takeDone with dropped := true }
    | _, _ => none

/-- The runs of a client and of the code that shares it. -/
def machine : Machine State Act := ⟨init, step⟩

/-! ## What a step does -/

/-- The enabled steps and what each does. -/
inductive Step (s : State) : Act → State → Prop
  | replace {b : BoxId} (hu : s.userRuns = true) (hd : s.done = some b) :
      Step s .onRequestDone
        { s with done := none, heap := s.heap.free b, frames := .replaced :: s.frames }
  | install (hu : s.userRuns = true) (hd : s.done = none) : Step s .onRequestDone s.install
  | destructorReturns {frames : List Frame} (hf : s.frames = .replaced :: frames) :
      Step s .destructorReturns { s with frames := frames }.install
  | destructorPanics {frames : List Frame} (hf : s.frames = .replaced :: frames) :
      Step s .destructorPanics { s with frames := frames }
  | tick (hu : s.userRuns = true) : Step s .tick { s with frames := .tick :: s.frames }
  | fire {frames : List Frame} {b : BoxId} (hf : s.frames = .tick :: frames)
      (hr : s.registered = some b) (id : RequestId) (status : CInt) (resp : Msg) :
      Step s (.fire id status resp)
        { s with frames := .body b id (doneResult status resp) :: s.frames }
  | bodyReturns {b : BoxId} {id : RequestId} {r : Result Response} {frames : List Frame}
      (hf : s.frames = .body b id r :: frames) : Step s .bodyReturns { s with frames := frames }
  | tickReturns {frames : List Frame} (hf : s.frames = .tick :: frames) :
      Step s .tickReturns { s with frames := frames }
  | drop (hf : s.frames = []) (hd : s.dropped = false) :
      Step s .drop { s.takeDone with dropped := true }

theorem step_inv {s t : State} {a : Act} (h : step s a = some t) : Step s a t := by
  cases a with
  | onRequestDone =>
    obtain ⟨hu, h⟩ := Option.ite_none_right_eq_some.mp h
    cases hd : s.done with
    | some b =>
      simp only [State.takeDone, hd] at h
      obtain rfl := Option.some.inj h
      exact .replace hu hd
    | none =>
      simp only [hd] at h
      obtain rfl := Option.some.inj h
      exact .install hu hd
  | tick =>
    obtain ⟨hu, h⟩ := Option.ite_none_right_eq_some.mp h
    obtain rfl := Option.some.inj h
    exact .tick hu
  | fire id status resp =>
    simp only [step] at h
    split at h
    · rename_i frames b hf hr
      obtain rfl := Option.some.inj h
      exact .fire hf hr id status resp
    · exact absurd h (by simp)
  | destructorReturns =>
    simp only [step] at h
    split at h
    · rename_i frames hf
      obtain rfl := Option.some.inj h
      exact .destructorReturns hf
    · exact absurd h (by simp)
  | destructorPanics =>
    simp only [step] at h
    split at h
    · rename_i frames hf
      obtain rfl := Option.some.inj h
      exact .destructorPanics hf
    · exact absurd h (by simp)
  | bodyReturns =>
    simp only [step] at h
    split at h
    · rename_i b id r frames hf
      obtain rfl := Option.some.inj h
      exact .bodyReturns hf
    · exact absurd h (by simp)
  | tickReturns =>
    simp only [step] at h
    split at h
    · rename_i frames hf
      obtain rfl := Option.some.inj h
      exact .tickReturns hf
    · exact absurd h (by simp)
  | drop =>
    simp only [step] at h
    split at h
    · rename_i hf hd
      obtain rfl := Option.some.inj h
      exact .drop hf hd
    · exact absurd h (by simp)

theorem takeDone_some {s : State} {b : BoxId} (h : s.done = some b) :
    s.takeDone = { s with done := none, heap := s.heap.free b } := by
  simp only [State.takeDone, h]

theorem takeDone_none {s : State} (h : s.done = none) : s.takeDone = s := by
  simp only [State.takeDone, h]

theorem userRuns_open {s : State} (h : s.userRuns = true) : s.dropped = false := by
  unfold State.userRuns at h
  split at h
  · exact absurd h (by simp)
  · simpa using h

/-- User code does not run on top of a tick. -/
theorem userRuns_head {s : State} (h : s.userRuns = true) {frames : List Frame} :
    s.frames ≠ .tick :: frames := by
  intro hf
  simp [State.userRuns, hf] at h

/-! ## The property and its condition -/

/-- The body of `b` is running. -/
def State.Executing (s : State) (b : BoxId) : Prop := ∃ id r, .body b id r ∈ s.frames

/-- The frame is a body of `b`. -/
def Frame.runs (b : BoxId) : Frame → Bool
  | .body c _ _ => c = b
  | _ => false

theorem executing_iff {s : State} {b : BoxId} :
    (∃ f ∈ s.frames, f.runs b = true) ↔ s.Executing b := by
  constructor
  · rintro ⟨f, hm, hf⟩
    cases f with
    | body c id r =>
      obtain rfl : c = b := by simpa [Frame.runs] using hf
      exact ⟨id, r, hm⟩
    | _ => exact absurd hf (by simp [Frame.runs])
  · rintro ⟨id, r, hm⟩
    exact ⟨_, hm, by simp [Frame.runs]⟩

instance (s : State) (b : BoxId) : Decidable (s.Executing b) := decidable_of_iff _ executing_iff

/-- When the C side can call its callback the registered box is live, no box is freed while its body
runs, and once the client is dropped every box was freed exactly once. -/
structure Safe (s : State) : Prop where
  fires   : s.frames.head? = some .tick → ∀ b, s.registered = some b → s.heap.Live b
  running : ∀ b, s.Executing b → s.heap.frees b = 0
  once    : s.dropped = true → s.heap.Clean

/-- What user code may do: replace a hook that is not running, tick when the registered box is live,
and return from a destructor with no hook of its own installed. -/
def Allowed (s : State) : Act → Prop
  | .onRequestDone => ∀ b, s.done = some b → ¬ s.Executing b
  | .tick => ∀ b, s.registered = some b → s.heap.Live b
  | .destructorReturns => s.done = none
  | _ => True

instance (s : State) (a : Act) : Decidable (Allowed s a) :=
  match a with
  | .onRequestDone => inferInstanceAs (Decidable (∀ b ∈ s.done, ¬ s.Executing b))
  | .tick => inferInstanceAs (Decidable (∀ b ∈ s.registered, s.heap.Live b))
  | .destructorReturns => inferInstanceAs (Decidable (s.done = none))
  | .destructorPanics | .fire _ _ _ | .bodyReturns | .tickReturns | .drop => isTrue trivial

/-! ## Runs whose user code is allowed -/

/-- What allowed steps keep. A running body is the one of the current hook, so user code in a body
cannot replace it; and a destructor runs on top of nothing but destructors. -/
structure Tidy (s : State) : Prop where
  owned   : s.heap.Owned fun b => s.done = some b
  current : .tick ∈ s.frames → ∀ b, s.registered = some b → s.done = some b
  bodies  : ∀ b, s.Executing b → s.done = some b
  order   : s.frames.Pairwise fun f g => f = .replaced → g = .replaced
  ended   : s.dropped = true → s.done = none ∧ s.frames = []

theorem tidy_init : Tidy init where
  owned := Heap.Owned.empty.congr fun b => by simp [init]
  current ht := absurd ht List.not_mem_nil
  bodies := by
    rintro b ⟨id, r, hm⟩
    exact absurd hm List.not_mem_nil
  order := List.Pairwise.nil
  ended hd := absurd hd (by simp [init])

theorem Tidy.safe {s : State} (h : Tidy s) : Safe s where
  fires ht b hb := h.owned.live b (h.current (List.mem_of_mem_head? ht) b hb)
  running b hb := (h.owned.live b (h.bodies b hb)).2
  once hd := h.owned.clean fun b hb => absurd ((h.ended hd).1.symm.trans hb) (by simp)

theorem Tidy.order_cons {s : State} (h : Tidy s) {f : Frame} {frames : List Frame}
    (hf : s.frames = f :: frames) : (∀ g ∈ frames, f = .replaced → g = .replaced) ∧
      frames.Pairwise fun f g => f = .replaced → g = .replaced := by
  have ho := h.order
  rw [hf] at ho
  exact List.pairwise_cons.mp ho

/-- A client with something running is not dropped. -/
theorem Tidy.open_cons {s : State} (h : Tidy s) {f : Frame} {frames : List Frame}
    (hf : s.frames = f :: frames) : s.dropped = false := by
  by_contra hd
  have hnil := (h.ended (by simpa using hd)).2
  exact absurd (hf.symm.trans hnil) (by simp)

/-- The stack of a tidy state without its innermost frame. -/
theorem Tidy.pop {s : State} (h : Tidy s) {f : Frame} {frames : List Frame}
    (hf : s.frames = f :: frames) : Tidy { s with frames := frames } where
  owned := h.owned
  current ht := h.current (hf ▸ List.mem_cons_of_mem f ht)
  bodies := by
    rintro b ⟨id, r, hm⟩
    exact h.bodies b ⟨id, r, hf ▸ List.mem_cons_of_mem f hm⟩
  order := (h.order_cons hf).2
  ended hd := absurd (hf.symm.trans (h.ended hd).2) (by simp)

/-- Where user code may replace the hook, only destructors are running. -/
theorem Tidy.only_replaced {s : State} (h : Tidy s) (hu : s.userRuns = true)
    (ha : Allowed s .onRequestDone) : ∀ f ∈ s.frames, f = .replaced := by
  have hnone : ∀ b id r, .body b id r ∉ s.frames := by
    intro b id r hm
    have hd := h.bodies b ⟨id, r, hm⟩
    exact ha b hd ⟨id, r, hm⟩
  cases hf : s.frames with
  | nil => exact fun f hm => absurd hm List.not_mem_nil
  | cons g frames =>
    have hg : g = .replaced := by
      cases g with
      | tick => exact absurd hf (userRuns_head hu)
      | body b id r => exact absurd (hf ▸ List.mem_cons_self) (hnone b id r)
      | replaced => rfl
    intro f hm
    rcases List.mem_cons.mp hm with rfl | hm
    · exact hg
    · exact (h.order_cons hf).1 f hm hg

theorem not_replaced {frames : List Frame} (h : ∀ f ∈ frames, f = .replaced) {f : Frame}
    (hf : f ≠ .replaced) : f ∉ frames := fun hm => hf (h f hm)

/-- A stack of destructors says nothing about the hook, so the heap alone decides. -/
theorem tidy_of_replaced {s : State} (hf : ∀ f ∈ s.frames, f = .replaced)
    (ho : s.heap.Owned fun b => s.done = some b) (hd : s.dropped = false) : Tidy s where
  owned := ho
  current ht := absurd ht (not_replaced hf (by simp))
  bodies := by
    rintro b ⟨id, r, hm⟩
    exact absurd hm (not_replaced hf (by simp))
  order := List.pairwise_of_forall_mem_list fun f _ g hg _ => hf g hg
  ended hdrop := absurd (hdrop.symm.trans hd) (by simp)

/-- Installing over an empty `done` cell. -/
theorem owned_install {s : State} (ho : s.heap.Owned fun b => s.done = some b)
    (hd : s.done = none) : s.install.heap.Owned fun b => s.install.done = some b := by
  rw [hd] at ho
  exact ho.alloc_slot

/-- Freeing what is in the `done` cell. -/
theorem owned_free {s : State} (ho : s.heap.Owned fun b => s.done = some b) {b : BoxId}
    (hd : s.done = some b) : (s.heap.free b).Owned fun c => none = some c := by
  rw [hd] at ho
  exact ho.free_slot

/-- **Step lemma**: an allowed step keeps the hooks tidy. -/
theorem tidy_step {s t : State} {a : Act} (h : Tidy s) (ha : Allowed s a)
    (hst : step s a = some t) : Tidy t := by
  cases step_inv hst with
  | @replace b hu hd =>
    have hopen : s.dropped = false := userRuns_open hu
    refine tidy_of_replaced ?_ (owned_free h.owned hd) hopen
    intro f hm
    rcases List.mem_cons.mp hm with rfl | hm
    · rfl
    · exact h.only_replaced hu ha f hm
  | install hu hd =>
    exact tidy_of_replaced (h.only_replaced hu ha) (owned_install h.owned hd) (userRuns_open hu)
  | @destructorReturns frames hf =>
    have hbelow : ∀ f ∈ frames, f = .replaced := fun f hm => (h.order_cons hf).1 f hm rfl
    have hpop := h.pop hf
    exact tidy_of_replaced hbelow (owned_install hpop.owned ha) (h.open_cons hf)
  | destructorPanics hf => exact h.pop hf
  | tick hu =>
    have hopen : s.dropped = false := userRuns_open hu
    refine ⟨h.owned, fun _ b hb => ?_, ?_, ?_, fun hd => ?_⟩
    · have hlive := ha b hb
      refine (h.owned.once b hlive.1).resolve_right fun hone => ?_
      exact absurd (hlive.2.symm.trans hone) (by simp)
    · rintro b ⟨id, r, hm⟩
      rcases List.mem_cons.mp hm with hm | hm
      · exact absurd hm (by simp)
      · exact h.bodies b ⟨id, r, hm⟩
    · exact List.pairwise_cons.mpr ⟨fun _ _ hr => absurd hr (by simp), h.order⟩
    · exact absurd (hd.symm.trans hopen) (by simp)
  | @fire frames b hf hr id status resp =>
    have hcur : s.done = some b := h.current (hf ▸ List.mem_cons_self) b hr
    refine ⟨h.owned, fun ht => ?_, ?_, ?_, fun hd => ?_⟩
    · rcases List.mem_cons.mp ht with ht | ht
      · exact absurd ht (by simp)
      · exact h.current ht
    · rintro c ⟨id', r', hm⟩
      rcases List.mem_cons.mp hm with hm | hm
      · obtain ⟨rfl, -, -⟩ := Frame.body.inj hm
        exact hcur
      · exact h.bodies c ⟨id', r', hm⟩
    · exact List.pairwise_cons.mpr ⟨fun _ _ hr => absurd hr (by simp), h.order⟩
    · exact absurd (hd.symm.trans (h.open_cons hf)) (by simp)
  | bodyReturns hf => exact h.pop hf
  | tickReturns hf => exact h.pop hf
  | drop hf _ =>
    cases hd : s.done with
    | none =>
      rw [takeDone_none hd]
      exact ⟨h.owned, h.current, h.bodies, h.order, fun _ => ⟨hd, hf⟩⟩
    | some b =>
      rw [takeDone_some hd]
      refine ⟨owned_free h.owned hd, ?_, ?_, h.order, fun _ => ⟨rfl, hf⟩⟩
      · exact fun ht => absurd (hf ▸ ht : Frame.tick ∈ []) List.not_mem_nil
      · rintro c ⟨id, r, hm⟩
        exact absurd (hf ▸ hm : Frame.body c id r ∈ []) List.not_mem_nil

theorem safe_of_allowed {acts : List Act} (hg : machine.Guarded Allowed machine.init acts) :
    machine.Throughout Safe machine.init acts :=
  machine.throughout_of_guarded (fun _ _ _ hi ha hst => tidy_step hi ha hst)
    (fun _ hi => hi.safe) tidy_init hg

/-! ## Every run -/

/-- What every step keeps, allowed or not. -/
structure Steady (s : State) : Prop where
  done   : ∀ b, s.done = some b → s.heap.Live b
  atMost : ∀ b, s.heap.frees b ≤ 1
  beyond : ∀ b, s.heap.next ≤ b → s.heap.frees b = 0

theorem steady_init : Steady init where
  done b hb := absurd hb (by simp [init])
  atMost _ := Nat.zero_le 1
  beyond _ _ := rfl

theorem Steady.install {s : State} (h : Steady s) : Steady s.install where
  done b hb := by
    obtain rfl := Option.some.inj hb
    exact ⟨Nat.lt_succ_self _, h.beyond _ (Nat.le_refl _)⟩
  atMost := h.atMost
  beyond b hb := h.beyond b (Nat.le_of_succ_le hb)

theorem Steady.free {s : State} (h : Steady s) {b : BoxId} (hd : s.done = some b)
    (frames : List Frame) (dropped : Bool) :
    Steady { s with
      done := none, heap := s.heap.free b, frames := frames, dropped := dropped } where
  done c hc := absurd hc (by simp)
  atMost c := by
    by_cases hcb : c = b
    · subst hcb
      simp only [Heap.free_frees_self, (h.done c hd).2]
      omega
    · simp only [s.heap.free_frees_ne hcb]
      exact h.atMost c
  beyond c hc := by
    have hlt := (h.done b hd).1
    have hcb : c ≠ b := fun he => absurd hlt (Nat.not_lt.mpr (he ▸ hc))
    exact (s.heap.free_frees_ne hcb).trans (h.beyond c hc)

theorem steady_step {s t : State} {a : Act} (h : Steady s) (hst : step s a = some t) :
    Steady t := by
  cases step_inv hst with
  | replace _ hd => exact h.free hd _ _
  | install _ _ => exact h.install
  | @destructorReturns frames _ =>
    have hpop : Steady { s with frames := frames } := ⟨h.done, h.atMost, h.beyond⟩
    exact hpop.install
  | drop _ _ =>
    cases hd : s.done with
    | none =>
      rw [takeDone_none hd]
      exact ⟨h.done, h.atMost, h.beyond⟩
    | some b =>
      rw [takeDone_some hd]
      exact h.free hd _ _
  | _ => exact ⟨h.done, h.atMost, h.beyond⟩

theorem steady_run {acts : List Act} {s : State} (h : machine.run acts = some s) : Steady s :=
  machine.reachable_induction steady_init (fun _ _ _ _ hi hst => steady_step hi hst) ⟨acts, h⟩

/-- No run frees a box twice. -/
theorem freed_at_most_once {acts : List Act} {s : State} (h : machine.run acts = some s)
    (b : BoxId) : s.heap.frees b ≤ 1 := (steady_run h).atMost b

/-- A box that was forgotten without being freed. -/
structure Leaked (b : BoxId) (s : State) : Prop where
  live      : s.heap.Live b
  forgotten : s.done ≠ some b

theorem Leaked.install {b : BoxId} {s : State} (h : Leaked b s) : Leaked b s.install where
  live := h.live.alloc
  forgotten hd := absurd h.live.1 (by
    rw [← Option.some.inj hd]
    exact Nat.lt_irrefl _)

/-- It stays so. -/
theorem leaked_step {b : BoxId} {s t : State} {a : Act} (h : Leaked b s)
    (hst : step s a = some t) : Leaked b t := by
  have hfree : ∀ c, s.done = some c → (s.heap.free c).Live b := fun c hc =>
    h.live.free fun hbc => h.forgotten (hbc ▸ hc)
  cases step_inv hst with
  | @replace c _ hd => exact ⟨hfree c hd, by simp⟩
  | install _ _ => exact h.install
  | @destructorReturns frames _ =>
    have hpop : Leaked b { s with frames := frames } := ⟨h.live, h.forgotten⟩
    exact hpop.install
  | drop _ _ =>
    cases hd : s.done with
    | none =>
      rw [takeDone_none hd]
      exact ⟨h.live, h.forgotten⟩
    | some c =>
      rw [takeDone_some hd]
      exact ⟨hfree c hd, by simp⟩
  | _ => exact ⟨h.live, h.forgotten⟩

/-- A destructor that returns over an installed hook forgets it. -/
theorem leaked_of_returns {s t : State} (hs : Steady s) {b : BoxId} (hd : s.done = some b)
    (hst : step s .destructorReturns = some t) : Leaked b t := by
  have hlive := hs.done b hd
  cases step_inv hst with
  | destructorReturns _ =>
    refine ⟨hlive.alloc, fun hn => ?_⟩
    have hnext : s.heap.next = b := Option.some.inj hn
    exact absurd hlive.1 (hnext ▸ Nat.lt_irrefl _)

/-- A step of a safe run that ends with the drop is allowed. -/
theorem allowed_of_safe {s t u : State} {a : Act} {acts : List Act} (hs : Steady s)
    (hst : step s a = some t) (ht : Safe t) (hr : machine.runFrom t acts = some u) (hu : Safe u)
    (hd : u.dropped = true) : Allowed s a := by
  cases a with
  | onRequestDone =>
    rintro b hb ⟨id, r, hm⟩
    cases step_inv hst with
    | @replace c _ hc =>
      obtain rfl := Option.some.inj (hb.symm.trans hc)
      have hzero := ht.running b ⟨id, r, List.mem_cons_of_mem _ hm⟩
      simp at hzero
    | install _ hn => exact absurd (hb.symm.trans hn) (by simp)
  | tick =>
    intro b hb
    cases step_inv hst with
    | tick _ => exact ht.fires rfl b hb
  | destructorReturns =>
    cases hdone : s.done with
    | none => exact hdone
    | some b =>
      have hleak : Leaked b u := machine.runFrom_induction (P := Leaked b)
        (fun _ _ _ hl h => leaked_step hl h) (leaked_of_returns hs hdone hst) hr
      have hone := hu.once hd b hleak.live.1
      exact absurd (hleak.live.2.symm.trans hone) (by simp)
  | _ => trivial

/-- **Hook safety**: allowed runs are safe in every state, and a run up to the drop of the client is
safe only when it is allowed. -/
theorem hooks_safe {acts : List Act} {s : State} (h : machine.run acts = some s) :
    (machine.Guarded Allowed machine.init acts → machine.Throughout Safe machine.init acts) ∧
      (s.dropped = true → machine.Throughout Safe machine.init acts →
        machine.Guarded Allowed machine.init acts) := by
  refine ⟨safe_of_allowed, fun hd hsafe => ?_⟩
  have hall := (machine.throughout_iff h).mp hsafe
  refine machine.guarded_of_split h ?_
  rintro pre a post u w rfl hu hw hrest
  have hsw : Safe w := by
    refine hall (pre ++ [a]) post w ?_ (machine.run_snoc.mpr ⟨u, hu, hw⟩)
    rw [List.append_assoc]
    rfl
  exact allowed_of_safe (steady_run hu) hw hsw hrest (machine.throughout_last h hsafe) hd

/-- A hook fires, and fires again from a tick in its own body; then it is replaced. -/
def replacedRun : List Act :=
  [.onRequestDone, .tick, .fire 3 0 9, .tick, .fire 4 (-601) 0, .bodyReturns, .tickReturns,
   .bodyReturns, .tickReturns, .onRequestDone, .destructorReturns, .drop]

theorem hooks_safe_replacedRun :
    ∃ s, machine.run replacedRun = some s ∧ s.dropped = true ∧ s.heap.next = 2 ∧
      machine.Throughout Safe machine.init replacedRun := by
  have h : machine.run replacedRun = some _ := rfl
  exact ⟨_, h, rfl, rfl, (hooks_safe h).1 (by decide)⟩

/-- The captures of a replaced hook tick from their destructor. -/
def destructorTicks : List Act :=
  [.onRequestDone, .onRequestDone, .tick, .fire 3 0 9, .bodyReturns, .tickReturns,
   .destructorReturns, .drop]

/-- **A freed hook runs**: while the replaced box is freed the C side still has it registered. -/
theorem freed_hook_fires :
    ∃ s, machine.run destructorTicks = some s ∧
      ¬ machine.Throughout Safe machine.init destructorTicks := by
  have h : machine.run destructorTicks = some _ := rfl
  refine ⟨_, h, fun hsafe => ?_⟩
  have hpre : machine.run (destructorTicks.take 4) = some _ := rfl
  have hrunning := ((machine.throughout_iff h).mp hsafe (destructorTicks.take 4)
    (destructorTicks.drop 4) _ rfl hpre).running 0 ⟨3, .ok ⟨9⟩, List.mem_cons_self⟩
  exact absurd hrunning (by decide)

end Nwep.Client.DoneHook
