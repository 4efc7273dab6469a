import Nwep.Error
import Nwep.Lib.Machine
import Nwep.Lib.Rc

/-!
# A cache attached to clients

Model of `Client::set_cache` and `Client::drop` (`nwep/src/client.rs` 475-492, 809-822) and
`Cache::drop` (`nwep/src/cache.rs` 140-145), for any number of clients and caches. The C side borrows
the cache a client has attached; the client holds an `Rc` of it.

* A cache and a client are named by the order they were made in. `outside` counts the `Rc` handles
  that are not in a client.
* An operation is the C calls it makes (`calls`); `cside` is what they do. A refused `set_cache`
  leaves the attachment as it is.
* `close` and `dropFields` are the two halves of dropping a client: the captures of its hook are
  dropped in between, and their destructors may drop handles.
* `clone` asks for a strong count only, so that it covers the upgrade of a weak handle.

Results:
* `inv_step`: every operation keeps the counts and the attachments;
* `refused_leaves`: a refused `set_cache` changes no attachment and no client;
* **`cache_outlives`**: between any two calls what is attached is live, and a cache is freed once, by
  then without a handle.
-/

namespace Nwep.CacheAttach

open Nwep.Lib

/-- An `Rc<Cache>` by its cache. -/
abbrev CacheId := Nat

/-- A client. -/
abbrev ClientId := Nat

/-- The C calls. -/
inductive Call
  | cacheCreate
  | cacheFree (c : CacheId)
  | connect (k : ClientId)
  | setCache (k : ClientId) (cache : Option CacheId) (rc : CInt)
  | close (k : ClientId)
  deriving DecidableEq

/-- What the calls act on: the caches, and what each open client has attached. -/
structure World where
  heap     : Heap
  attached : ClientId → Option (Option CacheId)

/-- What one call does. -/
def World.exec (w : World) : Call → World
  | .cacheCreate => { w with heap := w.heap.alloc }
  | .cacheFree c => { w with heap := w.heap.free c }
  | .connect k => { w with attached := Function.update w.attached k (some none) }
  | .setCache k cache rc =>
    if 0 ≤ rc then { w with attached := Function.update w.attached k (some cache) } else w
  | .close k => { w with attached := Function.update w.attached k none }

/-- The calls as a machine. -/
def cside : Machine World Call where
  init := ⟨Heap.empty, fun _ => none⟩
  step w c := some (w.exec c)

/-- `Client`: its `cache` cell, and whether `nwep_client_close` was called. -/
structure Client where
  held   : Option CacheId
  closed : Bool
  deriving DecidableEq

structure State where
  clients : ClientId → Option Client
  opened  : Nat
  strong  : CacheId → Nat
  outside : CacheId → Nat
  calls   : List Call
  world   : World

def init : State := ⟨fun _ => none, 0, fun _ => 0, fun _ => 0, [], cside.init⟩

namespace State

/-- A call is made. -/
def make (s : State) (c : Call) : State :=
  { s with calls := s.calls ++ [c], world := s.world.exec c }

/-- `Rc::drop`: the last handle drops the cache. -/
def release (s : State) : Option CacheId → State
  | none => s
  | some c =>
    if s.strong c = 1 then { s with strong := dec s.strong c }.make (.cacheFree c)
    else { s with strong := dec s.strong c }

def setClient (s : State) (k : ClientId) (client : Option Client) : State :=
  { s with clients := Function.update s.clients k client }

/-- The caller has a handle to pass. -/
def has (s : State) : Option CacheId → Bool
  | none => true
  | some c => decide (0 < s.outside c)

/-- The handle passed is no longer an outside one. -/
def take (s : State) : Option CacheId → State
  | none => s
  | some c => { s with outside := dec s.outside c }

/-- `Client::set_cache` on client `k`, whose cell is `held`. -/
def setCache (s : State) (k : ClientId) (held cache : Option CacheId) (rc : CInt) :
    Result Unit × State :=
  let s := (s.take cache).make (.setCache k cache rc)
  match Error.check rc with
  -- `cache` is dropped
  | .error e => (.error e, s.release cache)
  | .ok _ => (.ok (), (s.setClient k (some ⟨cache, false⟩)).release held)

end State

inductive Act
  | newCache
  | clone (c : CacheId)
  | dropRc (c : CacheId)
  | connect
  | setCache (k : ClientId) (cache : Option CacheId) (rc : CInt)
  | close (k : ClientId)
  | dropFields (k : ClientId)
  deriving DecidableEq

def step (s : State) : Act → Option State
  | .newCache =>
    let c := s.world.heap.next
    some ({ s with strong := inc s.strong c, outside := inc s.outside c }.make .cacheCreate)
  | .clone c =>
    if 0 < s.strong c then some { s with strong := inc s.strong c, outside := inc s.outside c }
    else none
  | .dropRc c => if 0 < s.outside c then some ((s.take (some c)).release (some c)) else none
  | .connect =>
    some (({ s with opened := s.opened + 1 }.setClient s.opened (some ⟨none, false⟩)).make
      (.connect s.opened))
  | .setCache k cache rc =>
    match s.clients k with
    | some ⟨held, false⟩ => if s.has cache then some (s.setCache k held cache rc).2 else none
    | _ => none
  | .close k =>
    match s.clients k with
    | some ⟨held, false⟩ => some ((s.setClient k (some ⟨held, true⟩)).make (.close k))
    | _ => none
  | .dropFields k =>
    match s.clients k with
    | some ⟨held, true⟩ => some ((s.setClient k none).release held)
    | _ => none

/-- The clients and caches of a thread. -/
def machine : Machine State Act := ⟨init, step⟩

/-! ## The books -/

/-- What is attached is live. -/
def Safe (w : World) : Prop := ∀ k c, w.attached k = some (some c) → w.heap.Live c

/-- What the C side has attached for a client. -/
def Client.attachment (client : Client) : Option (Option CacheId) :=
  if client.closed then none else some client.held

/-- The handles of a cache: the outside ones, those in the clients, and the one an operation has in
its hands. -/
def State.handles (s : State) (extra : Option CacheId) (c : CacheId) : Nat :=
  s.outside c + slotsHolding (fun k => (s.clients k).bind Client.held) s.opened c +
    if extra = some c then 1 else 0

/-- The counts are right, and the attachments are the cells of the open clients. -/
structure Books (extra : Option CacheId) (s : State) : Prop where
  counted  : Counted s.world.heap s.strong (s.handles extra)
  attached : ∀ k, s.world.attached k = (s.clients k).bind Client.attachment
  beyond   : ∀ k, s.opened ≤ k → s.clients k = none

/-- The calls made so far lead to the world, and were safe at every point. -/
structure Traced (s : State) : Prop where
  world : cside.run s.calls = some s.world
  safe  : cside.Throughout Safe cside.init s.calls

namespace Books

variable {extra : Option CacheId} {s : State}

theorem lt_opened (h : Books extra s) {k : ClientId} {client : Client}
    (hk : s.clients k = some client) : k < s.opened := by
  by_contra hn
  rw [h.beyond k (Nat.le_of_not_lt hn)] at hk
  exact absurd hk (by simp)

/-- A cache a client holds has a handle. -/
theorem handles_pos (h : Books extra s) {k : ClientId} {client : Client} {c : CacheId}
    (hk : s.clients k = some client) (hc : client.held = some c) : 0 < s.handles extra c := by
  have hslot : 0 < slotsHolding (fun k => (s.clients k).bind Client.held) s.opened c :=
    slotsHolding_pos (h.lt_opened hk) (by simp only [hk, Option.bind_some, hc])
  unfold State.handles
  omega

/-- **The counts keep what is attached alive.** -/
theorem safe (h : Books extra s) : Safe s.world := by
  intro k c hatt
  rw [h.attached] at hatt
  obtain ⟨client, hk, hclient⟩ := Option.bind_eq_some_iff.mp hatt
  unfold Client.attachment at hclient
  split at hclient
  · exact absurd hclient (by simp)
  · exact h.counted.live (h.handles_pos hk (Option.some.inj hclient))

end Books

/-- What an operation keeps. -/
structure Inv (extra : Option CacheId) (s : State) : Prop where
  books  : Books extra s
  traced : Traced s

/-- A call is safe when the books are right after it. -/
theorem traced_make {s : State} (h : Traced s) (c : Call) (hs : Safe (s.make c).world) :
    Traced (s.make c) where
  world := cside.run_snoc.mpr ⟨s.world, h.world, rfl⟩
  safe := by
    unfold State.make
    rw [cside.throughout_append h.world]
    refine ⟨h.safe, cside.throughout_last h.world h.safe, ?_⟩
    rintro t ht
    obtain rfl := Option.some.inj ht
    exact hs

/-! ## The operations -/

section Operations

variable {s : State} {k : ClientId} {client : Client}

/-- Writing a client's slot trades the handle it held for the new one. -/
theorem handles_setClient (hlt : k < s.opened) (hk : s.clients k = some client)
    (v : Option Client) (d : CacheId) :
    (s.setClient k v).handles client.held d = s.handles (v.bind Client.held) d := by
  have hslots : (fun j => ((s.setClient k v).clients j).bind Client.held) =
      Function.update (fun j => (s.clients j).bind Client.held) k (v.bind Client.held) := by
    funext j
    unfold State.setClient
    by_cases hj : j = k
    · subst hj
      simp
    · simp [hj]
  have hcount : slotsHolding (Function.update (fun j => (s.clients j).bind Client.held) k
        (v.bind Client.held)) s.opened d +
        (if (s.clients k).bind Client.held = some d then 1 else 0) =
      slotsHolding (fun j => (s.clients j).bind Client.held) s.opened d +
        if v.bind Client.held = some d then 1 else 0 := slotsHolding_update _ hlt
  simp only [hk, Option.bind_some] at hcount
  unfold State.handles
  rw [hslots]
  rw [Nat.add_assoc, Nat.add_assoc]
  exact congrArg (s.outside d + ·) hcount

/-- What is attached for a client that is written. -/
theorem attached_setClient {s : State} {att : ClientId → Option (Option CacheId)} {k : ClientId}
    (v : Option Client) (h : ∀ j, att j = (s.clients j).bind Client.attachment) (j : ClientId) :
    Function.update att k (v.bind Client.attachment) j =
      ((s.setClient k v).clients j).bind Client.attachment := by
  unfold State.setClient
  by_cases hj : j = k
  · subst hj
    simp
  · simp [hj, h]

theorem beyond_setClient (h : ∀ j, s.opened ≤ j → s.clients j = none) (hlt : k < s.opened)
    (v : Option Client) (j : ClientId) (hj : s.opened ≤ j) : (s.setClient k v).clients j = none := by
  unfold State.setClient
  have hne : j ≠ k := Nat.ne_of_gt (Nat.lt_of_lt_of_le hlt hj)
  simp [hne, h j hj]

/-- Releasing what the operation has in its hands. -/
theorem release_inv {extra : Option CacheId} (h : Inv extra s) : Inv none (s.release extra) := by
  cases extra with
  | none => exact h
  | some c =>
    have hpos : 0 < s.strong c := by
      rw [h.books.counted.exact]
      unfold State.handles
      simp
    have hhandles (d : CacheId) :
        s.handles none d + (if d = c then 1 else 0) = s.handles (some c) d := by
      unfold State.handles
      simp [eq_comm]
    simp only [State.release]
    by_cases hone : s.strong c = 1
    · rw [if_pos hone]
      have hbooks : Books none ({ s with strong := dec s.strong c }.make (.cacheFree c)) :=
        { counted := h.books.counted.drop_last hone hhandles
          attached := h.books.attached
          beyond := h.books.beyond }
      exact ⟨hbooks, traced_make (s := { s with strong := dec s.strong c })
        ⟨h.traced.world, h.traced.safe⟩ _ hbooks.safe⟩
    · rw [if_neg hone]
      have hmore : 1 < s.strong c := by omega
      exact {
        books :=
          { counted := h.books.counted.drop_more hmore hhandles
            attached := h.books.attached
            beyond := h.books.beyond }
        traced := ⟨h.traced.world, h.traced.safe⟩ }

/-- An operation takes an outside handle in its hands. -/
theorem take_inv {cache : Option CacheId} (h : Inv none s) (hhas : s.has cache = true) :
    Inv cache (s.take cache) := by
  cases cache with
  | none => exact h
  | some c =>
    have hpos : 0 < s.outside c := of_decide_eq_true hhas
    have hhandles (d : CacheId) : (s.take (some c)).handles (some c) d = s.handles none d := by
      unfold State.handles State.take
      simp only [dec_apply, Option.some.injEq]
      by_cases hd : d = c
      · subst hd
        simp
        omega
      · simp [hd, Ne.symm hd]
    exact {
      books :=
        { counted := h.books.counted.congr hhandles
          attached := h.books.attached
          beyond := h.books.beyond }
      traced := ⟨h.traced.world, h.traced.safe⟩ }

/-- **`set_cache`**: the new cache is attached and held before the old one is released. -/
theorem setCache_inv {held cache : Option CacheId} {rc : CInt} (h : Inv none s)
    (hk : s.clients k = some ⟨held, false⟩) (hhas : s.has cache = true) :
    Inv none (s.setCache k held cache rc).2 := by
  have htake : Inv cache (s.take cache) := take_inv h hhas
  have hk' : (s.take cache).clients k = some ⟨held, false⟩ := by
    cases cache <;> exact hk
  have hlt : k < (s.take cache).opened := htake.books.lt_opened hk'
  unfold State.setCache
  rcases Error.check_cases rc with ⟨hrc, hok⟩ | ⟨hrc, e, he⟩
  · simp only [hok]
    refine release_inv (s := ((s.take cache).make (.setCache k cache rc)).setClient k _) ?_
    have hbooks : Books held
        (((s.take cache).make (.setCache k cache rc)).setClient k (some ⟨cache, false⟩)) := {
      counted := by
        simp only [State.make, World.exec, if_pos hrc]
        exact htake.books.counted.congr (handles_setClient hlt hk' (some ⟨cache, false⟩))
      attached := by
        simp only [State.make, World.exec, if_pos hrc]
        exact attached_setClient (some ⟨cache, false⟩) htake.books.attached
      beyond := beyond_setClient htake.books.beyond hlt _ }
    have hmade := traced_make htake.traced (.setCache k cache rc) hbooks.safe
    exact ⟨hbooks, hmade.world, hmade.safe⟩
  · simp only [he]
    have hworld : ((s.take cache).make (.setCache k cache rc)).world = (s.take cache).world := by
      simp only [State.make, World.exec, if_neg hrc]
    have hbooks : Books cache ((s.take cache).make (.setCache k cache rc)) := {
      counted := by
        rw [hworld]
        exact htake.books.counted
      attached := by
        rw [hworld]
        exact htake.books.attached
      beyond := htake.books.beyond }
    exact release_inv ⟨hbooks, traced_make htake.traced _ hbooks.safe⟩

theorem newCache_inv (h : Inv none s) :
    Inv none ({ s with
      strong := inc s.strong s.world.heap.next
      outside := inc s.outside s.world.heap.next }.make .cacheCreate) := by
  have hbooks : Books none ({ s with
      strong := inc s.strong s.world.heap.next
      outside := inc s.outside s.world.heap.next }.make .cacheCreate) := {
    counted := h.books.counted.new fun d => by
      simp only [State.handles, State.make, inc_apply]
      omega
    attached := h.books.attached
    beyond := h.books.beyond }
  exact ⟨hbooks, traced_make (s := { s with
    strong := inc s.strong s.world.heap.next
    outside := inc s.outside s.world.heap.next }) ⟨h.traced.world, h.traced.safe⟩ _ hbooks.safe⟩

theorem clone_inv {c : CacheId} (h : Inv none s) (hc : 0 < s.strong c) :
    Inv none { s with strong := inc s.strong c, outside := inc s.outside c } where
  books :=
    { counted := h.books.counted.clone hc fun d => by
        simp only [State.handles, inc_apply]
        omega
      attached := h.books.attached
      beyond := h.books.beyond }
  traced := ⟨h.traced.world, h.traced.safe⟩

/-- A connection has nothing attached. -/
theorem connect_inv (h : Inv none s) :
    Inv none (({ s with opened := s.opened + 1 }.setClient s.opened (some ⟨none, false⟩)).make
      (.connect s.opened)) := by
  have hfree : s.clients s.opened = none := h.books.beyond _ (Nat.le_refl _)
  have hslots : (fun j => (Function.update s.clients s.opened (some ⟨none, false⟩) j).bind
      Client.held) = fun j => (s.clients j).bind Client.held := by
    funext j
    by_cases hj : j = s.opened
    · subst hj
      simp [hfree]
    · simp [hj]
  have hbooks : Books none (({ s with opened := s.opened + 1 }.setClient s.opened
      (some ⟨none, false⟩)).make (.connect s.opened)) := {
    counted := h.books.counted.congr fun d => by
      simp only [State.handles, State.make, State.setClient, hslots, slotsHolding_succ, hfree]
      simp
    attached := attached_setClient (s := { s with opened := s.opened + 1 })
      (some ⟨none, false⟩) h.books.attached
    beyond := fun j hj => by
      have hlt : s.opened < j := hj
      simp only [State.make, State.setClient, Function.update_of_ne (Nat.ne_of_gt hlt)]
      exact h.books.beyond j (Nat.le_of_lt hlt) }
  exact ⟨hbooks, traced_make
    (s := { s with opened := s.opened + 1 }.setClient s.opened (some ⟨none, false⟩))
    ⟨h.traced.world, h.traced.safe⟩ _ hbooks.safe⟩

/-- Closing a client detaches its cache, which it still holds. -/
theorem close_inv {held : Option CacheId} (h : Inv none s)
    (hk : s.clients k = some ⟨held, false⟩) :
    Inv none ((s.setClient k (some ⟨held, true⟩)).make (.close k)) := by
  have hlt := h.books.lt_opened hk
  have hbooks : Books none ((s.setClient k (some ⟨held, true⟩)).make (.close k)) := {
    counted := h.books.counted.congr fun d => by
      have heq := handles_setClient hlt hk (some ⟨held, true⟩) d
      simp only [State.handles, State.make, Option.bind_some] at heq ⊢
      omega
    attached := attached_setClient (some ⟨held, true⟩) h.books.attached
    beyond := beyond_setClient h.books.beyond hlt _ }
  exact ⟨hbooks, traced_make (s := s.setClient k (some ⟨held, true⟩))
    ⟨h.traced.world, h.traced.safe⟩ _ hbooks.safe⟩

/-- The cell of a closed client is dropped last. -/
theorem dropFields_inv {held : Option CacheId} (h : Inv none s)
    (hk : s.clients k = some ⟨held, true⟩) : Inv none ((s.setClient k none).release held) := by
  have hlt := h.books.lt_opened hk
  refine release_inv ⟨?_, h.traced.world, h.traced.safe⟩
  exact {
    counted := h.books.counted.congr fun d => handles_setClient hlt hk none d
    attached := fun j => by
      rw [← attached_setClient none h.books.attached]
      by_cases hj : j = k
      · subst hj
        simp [State.setClient, h.books.attached, hk, Client.attachment]
      · simp [State.setClient, hj]
    beyond := beyond_setClient h.books.beyond hlt _ }

end Operations

/-- **Every operation keeps the counts and the attachments.** -/
theorem inv_step {s t : State} {a : Act} (h : Inv none s) (hst : step s a = some t) :
    Inv none t := by
  cases a with
  | newCache =>
    obtain rfl := Option.some.inj hst
    exact newCache_inv h
  | clone c =>
    simp only [step] at hst
    split at hst
    · rename_i hc
      obtain rfl := Option.some.inj hst
      exact clone_inv h hc
    · exact absurd hst (by simp)
  | dropRc c =>
    simp only [step] at hst
    split at hst
    · rename_i hc
      obtain rfl := Option.some.inj hst
      exact release_inv (take_inv h (decide_eq_true hc))
    · exact absurd hst (by simp)
  | connect =>
    obtain rfl := Option.some.inj hst
    exact connect_inv h
  | setCache k cache rc =>
    simp only [step] at hst
    split at hst
    · rename_i held hk
      split at hst
      · rename_i hhas
        obtain rfl := Option.some.inj hst
        exact setCache_inv h hk hhas
      · exact absurd hst (by simp)
    · exact absurd hst (by simp)
  | close k =>
    simp only [step] at hst
    split at hst
    · rename_i held hk
      obtain rfl := Option.some.inj hst
      exact close_inv h hk
    · exact absurd hst (by simp)
  | dropFields k =>
    simp only [step] at hst
    split at hst
    · rename_i held hk
      obtain rfl := Option.some.inj hst
      exact dropFields_inv h hk
    · exact absurd hst (by simp)

theorem inv_init : Inv none init where
  books :=
    { counted := Counted.empty.congr fun d => by
        simp [State.handles, init, slotsHolding]
      attached := fun _ => rfl
      beyond := fun _ _ => rfl }
  traced := ⟨rfl, fun _ _ hc => absurd hc (by simp [cside])⟩

theorem inv_run {acts : List Act} {s : State} (h : machine.run acts = some s) : Inv none s :=
  machine.runFrom_induction (P := Inv none) (fun _ _ _ hi hst => inv_step hi hst) inv_init h

/-! ## What an attachment is good for -/

theorem release_frame (s : State) (extra : Option CacheId) :
    (s.release extra).world.attached = s.world.attached ∧ (s.release extra).clients = s.clients := by
  cases extra with
  | none => exact ⟨rfl, rfl⟩
  | some c =>
    unfold State.release
    simp only
    split <;> exact ⟨rfl, rfl⟩

/-- **A refused `set_cache` changes no attachment and no client.** -/
theorem refused_leaves {s t : State} {k : ClientId} {cache : Option CacheId} {rc : CInt}
    (hst : step s (.setCache k cache rc) = some t) (hrc : rc < 0) :
    t.world.attached = s.world.attached ∧ t.clients = s.clients := by
  simp only [step] at hst
  split at hst
  · rename_i held hk
    split at hst
    · obtain rfl := Option.some.inj hst
      simp only [State.setCache, Error.check_of_neg hrc]
      have htake : (s.take cache).world = s.world ∧ (s.take cache).clients = s.clients := by
        cases cache <;> exact ⟨rfl, rfl⟩
      have hrel := release_frame ((s.take cache).make (.setCache k cache rc)) cache
      have hworld : ((s.take cache).make (.setCache k cache rc)).world = s.world := by
        simp only [State.make, World.exec, if_neg (Int.not_le.mpr hrc), htake.1]
      rw [hworld] at hrel
      exact ⟨hrel.1, hrel.2.trans htake.2⟩
    · exact absurd hst (by simp)
  · exact absurd hst (by simp)

/-- Some client holds the cache. -/
def State.Held (s : State) (c : CacheId) : Prop :=
  ∃ k client, s.clients k = some client ∧ client.held = some c

/-- A cache has no handle left exactly when no outside one is and no client holds it. -/
theorem handles_eq_zero {s : State} (h : Books none s) (c : CacheId) :
    s.handles none c = 0 ↔ s.outside c = 0 ∧ ¬ s.Held c := by
  constructor
  · intro hz
    refine ⟨?_, ?_⟩
    · unfold State.handles at hz
      omega
    · rintro ⟨k, client, hk, hc⟩
      exact absurd hz (Nat.ne_of_gt (h.handles_pos hk hc))
  · rintro ⟨hout, hheld⟩
    have hslots : slotsHolding (fun k => (s.clients k).bind Client.held) s.opened c = 0 := by
      rw [slotsHolding_eq_zero]
      intro k _ hc
      obtain ⟨client, hk, hheld'⟩ := Option.bind_eq_some_iff.mp hc
      exact hheld ⟨k, client, hk, hheld'⟩
    simp [State.handles, hout, hslots]

/-- What holds of the caches and clients of a thread: what is attached is live between any two calls,
an open client has attached what it holds, a refused `set_cache` leaves all of it, and a cache is
freed once when it has no handle and not at all while it has. -/
structure Outlives (s : State) : Prop where
  safe     : cside.Throughout Safe cside.init s.calls
  now      : ∀ k c, s.world.attached k = some (some c) → s.world.heap.Live c
  attached : ∀ k client, s.clients k = some client → client.closed = false →
    s.world.attached k = some client.held
  refused  : ∀ k cache rc t, machine.step s (.setCache k cache rc) = some t → rc < 0 →
    t.world.attached = s.world.attached ∧ t.clients = s.clients
  once     : ∀ c < s.world.heap.next, s.outside c = 0 → ¬ s.Held c → s.world.heap.frees c = 1
  kept     : ∀ c, 0 < s.outside c ∨ s.Held c → s.world.heap.frees c = 0

/-- **An attached cache outlives its borrow**, in every run. -/
theorem cache_outlives {acts : List Act} {s : State} (h : machine.run acts = some s) :
    Outlives s := by
  obtain ⟨hbooks, htraced⟩ := inv_run h
  exact {
    safe := htraced.safe
    now := hbooks.safe
    attached := by
      intro k client hk hopen
      rw [hbooks.attached, hk]
      simp [Client.attachment, hopen]
    refused := fun _ _ _ _ hst hrc => refused_leaves hst hrc
    once := by
      intro c hc hout hheld
      rw [hbooks.counted.frees_eq hc, if_pos ((handles_eq_zero hbooks c).mpr ⟨hout, hheld⟩)]
    kept := by
      intro c hc
      refine (hbooks.counted.live (Nat.pos_of_ne_zero fun hz => ?_)).2
      obtain ⟨hout, hheld⟩ := (handles_eq_zero hbooks c).mp hz
      rcases hc with hc | hc
      · exact absurd hout (Nat.ne_of_gt hc)
      · exact hheld hc }

/-- Two clients share a cache; the second replaces it, the first is refused and then closed. -/
def sharedRun : List Act :=
  [.newCache, .clone 0, .connect, .connect, .setCache 0 (some 0) 0, .newCache,
    .setCache 1 (some 0) 0, .clone 1, .setCache 0 (some 1) (-803), .setCache 1 (some 1) 0,
    .close 0, .dropFields 0]

theorem cache_outlives_shared : ∃ s, machine.run sharedRun = some s ∧ Outlives s := by
  obtain ⟨s, hs⟩ := Option.isSome_iff_exists.mp
    (show (machine.run sharedRun).isSome = true from rfl)
  exact ⟨s, hs, cache_outlives hs⟩

end Nwep.CacheAttach
