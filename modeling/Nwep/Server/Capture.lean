import Nwep.Server.Headers

/-!
# Captured frames

A terminal of `CapturingResponder` (`nwep/src/server.rs` 509-571) builds the response, asks the C side
for the length of the frame, and then for the frame. `Responder::blit` (453-458) and
`DeferredResponder::blit` (1159-1173) hand a frame back as it is. When one of the two capture calls
fails the reply is success all the same and the captured frame is empty.

* What the C side makes of the calls of a terminal is a function `built` of these calls.
* The one thing asked of the C side is `Captures`: a capture that succeeds with room enough wrote the
  frame and reports its length. The length the first call reports is free, and so is what a
  capture does with too little room.

Results:
* `captured_of_copied`, `captured_length_le`: what the second call leaves, with room and without;
* **`captures_exactly_iff`**: when the captured frame is the frame that was built;
* **`captured_not_built`**: replies of success whose captured frame is empty, or cut.
-/

namespace Nwep.Server

/-- A terminal of `CapturingResponder`. -/
def Op.captures : Op → Bool
  | .capturingOk _ => true
  | .capturingStatus _ _ => true
  | _ => false

/-- A capture that returns 0 with a large enough buffer wrote the frame, and its length. -/
def Captures (frame : Bytes) (a : Answers) : Prop :=
  a.copy.1 = 0 → frame.length ≤ a.size.2 → frame <+: a.copy.2.1 ∧ a.copy.2.2 = frame.length

/-- The frame a capturing terminal returns. -/
def captured (a : Answers) : Bytes := (finishCapture a).2

/-- The captured frame is the one that was built, and a blit of it hands exactly that to the C
side. -/
structure Replays (frame : Bytes) (a : Answers) : Prop where
  exact'   : captured a = frame
  blit     : ∀ res : Responder,
    (res.blit (captured a)).calls = res.made ++ [.blit res.buf (sliceParts frame)]
  deferred : ∀ (d : DeferredResponder) (rcs : Nat → CInt),
    (d.blit (captured a) rcs).2 = [(.blit d.server d.connId d.streamId (sliceParts frame), rcs 0)]

/-- A blit hands over the frame it is given. -/
theorem replays_iff (frame : Bytes) (a : Answers) : Replays frame a ↔ captured a = frame := by
  constructor
  · exact Replays.exact'
  · intro h
    exact ⟨h, fun res => by rw [h]; rfl, fun d rcs => by rw [h]; rfl⟩

/-- A terminal that leaves success returns the frame it built. -/
def CapturesExactly (built : List Call → Bytes) (t : Terminal) (a : Answers) : Prop :=
  t.code a = 0 → Replays (built t.calls) a

/-- The code of a capturing terminal is that of the build. -/
theorem captures_code (res : Responder) {op : Op} (h : op.captures = true) (a : Answers) :
    (res.call op).code a = a.rc := by
  cases op with
  | capturingOk _ | capturingStatus _ _ => exact finishCapture_code a
  | _ => exact absurd h (by simp [Op.captures])

/-! ## What the second call leaves -/

/-- The buffer after the second call, cut to the length it reports. -/
theorem captured_of_ok {a : Answers} (hrc : a.rc = 0) (hsize : a.size.1 = 0)
    (hcopy : a.copy.1 = 0) :
    captured a = ((a.copy.2.1 ++ (List.replicate a.size.2 0).drop a.copy.2.1.length).take
      a.size.2).take a.copy.2.2 := by
  unfold captured finishCapture
  simp [hrc, hsize, hcopy]

/-- A failed capture call leaves an empty frame. -/
theorem captured_of_failed {a : Answers} (h : a.size.1 ≠ 0 ∨ a.copy.1 ≠ 0) : captured a = [] := by
  unfold captured finishCapture
  by_cases hrc : a.rc = 0
  · by_cases hsize : a.size.1 = 0
    · have hcopy : a.copy.1 ≠ 0 := h.resolve_left (not_not_intro hsize)
      simp [hrc, hsize, hcopy]
    · simp [hrc, hsize]
  · simp [hrc]

/-- With room enough the frame is captured. -/
theorem captured_of_copied {frame : Bytes} {a : Answers} (hc : Captures frame a) (hrc : a.rc = 0)
    (hsize : a.size.1 = 0) (hcopy : a.copy.1 = 0) (hroom : frame.length ≤ a.size.2) :
    captured a = frame := by
  obtain ⟨⟨tail, htail⟩, hlen⟩ := hc hcopy hroom
  rw [captured_of_ok hrc hsize hcopy, hlen, List.take_take, Nat.min_eq_left hroom, ← htail,
    List.append_assoc]
  exact List.take_left

/-- No more is captured than there was room for. -/
theorem captured_length_le {a : Answers} (hrc : a.rc = 0) (hsize : a.size.1 = 0)
    (hcopy : a.copy.1 = 0) : (captured a).length ≤ a.size.2 := by
  rw [captured_of_ok hrc hsize hcopy, List.length_take, List.length_take]
  omega

/-- **The captured frame is the one that was built** exactly when the build failed, the frame is
empty, or both capture calls succeed and the first one reports no less than its length. -/
theorem captures_exactly_iff (built : List Call → Bytes) (res : Responder)
    (hs : List (Bytes × Bytes)) {op : Op} (hop : op.captures = true) {a : Answers}
    (hc : Captures (built ((res.chain hs).call op).calls) a) :
    CapturesExactly built ((res.chain hs).call op) a ↔
      a.rc ≠ 0 ∨ built ((res.chain hs).call op).calls = [] ∨
        (a.size.1 = 0 ∧ a.copy.1 = 0 ∧
          (built ((res.chain hs).call op).calls).length ≤ a.size.2) := by
  unfold CapturesExactly
  rw [captures_code _ hop, replays_iff]
  by_cases hrc : a.rc = 0
  · simp only [hrc, ne_eq, not_true_eq_false, false_or, forall_const]
    by_cases hok : a.size.1 = 0 ∧ a.copy.1 = 0
    · obtain ⟨hsize, hcopy⟩ := hok
      simp only [hsize, hcopy, true_and]
      constructor
      · intro heq
        exact Or.inr (heq ▸ captured_length_le hrc hsize hcopy)
      · rintro (hnil | hroom)
        · exact captured_of_copied hc hrc hsize hcopy (by rw [hnil]; exact Nat.zero_le _)
        · exact captured_of_copied hc hrc hsize hcopy hroom
    · have hfailed : captured a = [] := captured_of_failed (not_and_or.mp hok)
      rw [hfailed]
      constructor
      · exact fun heq => Or.inl heq.symm
      · rintro (hnil | ⟨hsize, hcopy, -⟩)
        · exact hnil.symm
        · exact absurd ⟨hsize, hcopy⟩ hok
  · simp [hrc]

/-- A frame of two bytes. -/
def twoBytes (_ : List Call) : Bytes := [7, 8]

theorem captures_exactly_iff_copied :
    CapturesExactly twoBytes
        (((Responder.new 1 0 2 3 4).chain [([120], [49])]).call (.capturingOk [5]))
        ⟨0, (0, 2), (0, [7, 8], 2)⟩ ∧
      captured ⟨0, (0, 2), (0, [7, 8], 2)⟩ = [7, 8] :=
  ⟨(captures_exactly_iff twoBytes _ _ rfl fun _ _ => ⟨List.prefix_refl _, rfl⟩).mpr
    (Or.inr (Or.inr ⟨rfl, rfl, by decide⟩)), rfl⟩

/-- **What is captured is not what was built**, while the reply says success: the capture runs out of
memory and the frame is empty, or the frame grew between the two calls and is cut. -/
theorem captured_not_built :
    ¬ CapturesExactly twoBytes ((Responder.new 1 0 2 3 4).call (.capturingOk [5]))
        ⟨0, (-802, 0), (0, [], 0)⟩ ∧
      ¬ CapturesExactly twoBytes ((Responder.new 1 0 2 3 4).call (.capturingOk [5]))
        ⟨0, (0, 1), (0, [7], 1)⟩ := by
  constructor
  · intro h
    exact absurd (h rfl).exact' (by decide)
  · intro h
    exact absurd (h rfl).exact' (by decide)

end Nwep.Server
