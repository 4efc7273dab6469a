import Nwep.Lib.Channel
import Nwep.Lib.Machine

/-!
# A machine around a channel

A machine whose steps send to one bounded channel, receive from it or leave it alone (`Queued`)
receives in the order of the sends, whatever its other parties do (`Queued.delivers`). So between a
send and the receive of what it sent there is room for fewer others than the channel has slots
(`Queued.overtaken_lt`): nobody who has sent is passed by more.

What is sent and received is named by a key. `notes` collects the names along a run, as a step is
seen in the state before it.
-/

namespace Nwep.Lib.Machine

universe u v w x

variable {σ : Type u} {α : Type v} {β : Type w} {ι : Type w} {cap : Nat} (M : Machine σ α)

/-- What `f` notes of the steps of the run from `s`, in order. -/
def notes (f : σ → α → Option ι) : σ → List α → List ι
  | _, [] => []
  | s, a :: as =>
    (f s a).toList ++
      match M.step s a with
      | some t => notes f t as
      | none => []

theorem notes_cons {f : σ → α → Option ι} {s t : σ} {a : α} {as : List α}
    (h : M.step s a = some t) : M.notes f s (a :: as) = (f s a).toList ++ M.notes f t as := by
  simp only [notes, h]

theorem notes_append {f : σ → α → Option ι} {s u : σ} {as : List α}
    (h : M.runFrom s as = some u) (bs : List α) :
    M.notes f s (as ++ bs) = M.notes f s as ++ M.notes f u bs := by
  induction as generalizing s with
  | nil =>
    obtain rfl := Option.some.inj h
    rfl
  | cons a as ih =>
    obtain ⟨v, hv, hr⟩ := M.runFrom_cons.mp h
    rw [List.cons_append, M.notes_cons hv, M.notes_cons hv, ih hr, List.append_assoc]

theorem notes_snoc {f : σ → α → Option ι} {s u : σ} {as : List α} {a : α}
    (h : M.runFrom s as = some u) : M.notes f s (as ++ [a]) = M.notes f s as ++ (f u a).toList := by
  rw [M.notes_append h]
  congr 1
  unfold notes
  cases M.step u a <;> simp [notes]

theorem notes_map {κ : Type w} (g : ι → κ) (f : σ → α → Option ι) (s : σ) (as : List α) :
    M.notes (fun s a => (f s a).map g) s as = (M.notes f s as).map g := by
  induction as generalizing s with
  | nil => rfl
  | cons a as ih =>
    simp only [notes, List.map_append, Option.toList_map]
    cases M.step s a with
    | none => simp
    | some t => simp [ih]

/-- What one step does to the channel `ch`, which is `ch'` after it. -/
inductive Moved (key : β → ι) (ch ch' : Mpsc β cap) : Option ι → Option ι → Prop
  | same (h : ch' = ch) : Moved key ch ch' none none
  | sent {x} (h : ch.push x = some ch') : Moved key ch ch' (some (key x)) none
  | took {x} (h : ch.tryRecv = .item x ch') : Moved key ch ch' none (some (key x))
  | closedTx (h : ch' = ch.closeTx) : Moved key ch ch' none none
  | closedRx (h : ch' = ch.closeRx) : Moved key ch ch' none none

/-- The machine's only channel steps are those `sent` and `took` note. -/
structure Queued (chan : σ → Mpsc β cap) (key : β → ι) (sent took : σ → α → Option ι) : Prop where
  init : chan M.init = Mpsc.new β cap ∨ chan M.init = (Mpsc.new β cap).closeTx
  step : ∀ s a t, M.step s a = some t → Moved key (chan s) (chan t) (sent s a) (took s a)

namespace Queued

variable {M} {chan : σ → Mpsc β cap} {key : β → ι} {sent took : σ → α → Option ι}

/-- **First in, first out**, along the whole run. -/
theorem delivers (h : M.Queued chan key sent took) {as : List α} {s : σ} (hr : M.run as = some s) :
    ∃ xs ys, Mpsc.Delivers xs ys (chan s) ∧ M.notes sent M.init as = xs.map key ∧
      M.notes took M.init as = ys.map key := by
  refine M.run_induction (P := fun as s => ∃ xs ys, Mpsc.Delivers xs ys (chan s) ∧
    M.notes sent M.init as = xs.map key ∧ M.notes took M.init as = ys.map key) ?_ ?_ hr
  · refine ⟨[], [], ?_, rfl, rfl⟩
    rcases h.init with hi | hi
    · exact hi ▸ Mpsc.Delivers.new
    · exact hi ▸ Mpsc.Delivers.new.closeTx
  · rintro as s a t hrun ⟨xs, ys, hd, hsent, htook⟩ hst
    rw [M.notes_snoc hrun, M.notes_snoc hrun, hsent, htook]
    have hm := h.step s a t hst
    generalize sent s a = put, took s a = got at hm
    cases hm with
    | same heq => exact ⟨xs, ys, heq ▸ hd, by simp, by simp⟩
    | @sent x hp => exact ⟨xs ++ [x], ys, hd.push hp, by simp, by simp⟩
    | @took x hq => exact ⟨xs, ys ++ [x], hd.recv hq, by simp, by simp⟩
    | closedTx heq => exact ⟨xs, ys, heq ▸ hd.closeTx, by simp, by simp⟩
    | closedRx heq => exact ⟨xs, ys, heq ▸ hd.closeRx, by simp, by simp⟩

/-- What was received is a front of what was sent. -/
theorem inOrder (h : M.Queued chan key sent took) {as : List α} {s : σ} (hr : M.run as = some s) :
    M.notes took M.init as <+: M.notes sent M.init as := by
  obtain ⟨xs, ys, hd, hs, ht⟩ := h.delivers hr
  rw [hs, ht]
  exact hd.inOrder.map key

/-- While the receiver lives, the rest of it is queued. -/
theorem account (h : M.Queued chan key sent took) {as : List α} {s : σ} (hr : M.run as = some s)
    (hrx : (chan s).rxOpen = true) :
    M.notes sent M.init as = M.notes took M.init as ++ (chan s).queue.map key := by
  obtain ⟨xs, ys, hd, hs, ht⟩ := h.delivers hr
  rw [hs, ht, hd.queued hrx, List.map_append]

/-- **Bounded overtaking**: between a send and the receive of what it sent there are fewer receives
than the channel has slots. -/
theorem overtaken_lt (h : M.Queued chan key sent took) {pre post : List α} {a : α} {r u s : σ} {k : ι}
    (hpre : M.run pre = some r) (hst : M.step r a = some u) (hk : sent r a = some k)
    (hpost : M.runFrom u post = some s) (hn : k ∉ M.notes took u post) :
    (M.notes took u post).length < cap := by
  have hu : M.run (pre ++ [a]) = some u := M.run_snoc.mpr ⟨r, hpre, hst⟩
  have hs : M.run (pre ++ [a] ++ post) = some s := M.run_append.mpr ⟨u, hu, hpost⟩
  -- right after the send, `k` is the last in the queue
  have hlast : (chan u).rxOpen = true ∧ k ∈ (chan u).queue.map key := by
    have hm := h.step r a u hst
    rw [hk] at hm
    generalize took r a = got at hm
    cases hm with
    | @sent x hp =>
      obtain ⟨-, hrx, -, hq, -, hrx'⟩ := Mpsc.push_spec hp
      exact ⟨hrx'.trans hrx, by simp [hq]⟩
  have hacc := h.account hu hlast.1
  have hfront := h.inOrder hs
  rw [M.notes_append hu, M.notes_append hu, hacc, List.append_assoc] at hfront
  have hrest := (List.prefix_append_right_inj _).mp hfront
  by_contra hlt
  have hlen : ((chan u).queue.map key).length ≤ (M.notes took u post).length := by
    rw [List.length_map]
    exact Nat.le_trans (chan u).bounded (Nat.le_of_not_lt hlt)
  have hall := List.prefix_of_prefix_length_le (List.prefix_append _ _) hrest hlen
  exact hn (hall.subset hlast.2)

/-- The order of the receives in the run `as`, which ends in `s`. -/
structure InOrder (M : Machine σ α) (chan : σ → Mpsc β cap) (key : β → ι)
    (sent took : σ → α → Option ι) (as : List α) (s : σ) : Prop where
  /-- They are a front of the sends, in order, -/
  front : M.notes took M.init as <+: M.notes sent M.init as
  /-- and while the receiver lives the others are queued. -/
  rest : (chan s).rxOpen = true →
    M.notes sent M.init as = M.notes took M.init as ++ (chan s).queue.map key
  /-- What waits is overtaken by fewer than the channel has slots. -/
  overtaken : ∀ pre a post r u k, as = pre ++ a :: post → M.run pre = some r →
    M.step r a = some u → sent r a = some k → k ∉ M.notes took u post →
      (M.notes took u post).length < cap

theorem ordered (h : M.Queued chan key sent took) {as : List α} {s : σ} (hr : M.run as = some s) :
    InOrder M chan key sent took as s := by
  refine ⟨h.inOrder hr, h.account hr, fun pre a post r u k heq hpre hst hk hn => ?_⟩
  subst heq
  obtain ⟨r', hpre', hrest⟩ := M.run_append.mp hr
  obtain ⟨u', hst', hpost⟩ := M.runFrom_cons.mp hrest
  obtain rfl := Option.some.inj (hpre.symm.trans hpre')
  obtain rfl := Option.some.inj (hst.symm.trans hst')
  exact h.overtaken_lt hpre hst hk hpost hn

end Queued

end Nwep.Lib.Machine
