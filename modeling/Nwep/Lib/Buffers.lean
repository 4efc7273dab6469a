import Nwep.Lib.Packed

/-!
# Local buffers

A function that works on local byte buffers is modelled by what it returns, the foreign calls it made
and its buffers as it leaves them. A buffer moved into the returned value is not among them. A cell
remembers whether secret bytes were ever stored in it, so that a buffer that was filled and then freed
as it is can be told from one that was wiped.

Results:
* `wipe_wiped`: a cell is wiped by `wipe`, and stays as long as nothing secret is stored;
* `new_receive_wiped`: a new cell a callee wrote to is wiped exactly when it wrote zeros.
-/

namespace Nwep.Lib

/-- No byte but zero. -/
def Zero (l : List UInt8) : Prop := ∀ b ∈ l, b = 0

instance (l : List UInt8) : Decidable (Zero l) := inferInstanceAs (Decidable (∀ b ∈ l, b = 0))

theorem zero_replicate (n : Nat) : Zero (List.replicate n 0) :=
  fun _ hb => (List.mem_replicate.mp hb).2

theorem zero_append {l m : List UInt8} : Zero (l ++ m) ↔ Zero l ∧ Zero m := by
  unfold Zero
  exact List.forall_mem_append

/-- A zeroed buffer overwritten from its start. -/
theorem zero_overwrite (n : Nat) (written : List UInt8) :
    Zero (overwrite (List.replicate n 0) written) ↔ Zero (written.take n) := by
  unfold overwrite
  rw [zero_append, List.length_replicate, List.drop_replicate]
  exact and_iff_left (zero_replicate _)

/-- `[u8; n]`. -/
abbrev Octets (n : Nat) := { l : List UInt8 // l.length = n }

/-- A zeroed array a callee wrote to. -/
def received (n : Nat) (written : List UInt8) : Octets n :=
  ⟨overwrite (List.replicate n 0) written, by rw [overwrite_length, List.length_replicate]⟩

theorem zero_received {n : Nat} {written : List UInt8} :
    Zero (received n written).1 ↔ Zero (written.take n) := zero_overwrite n written

/-- A local buffer: its bytes, and whether it ever held secret ones. -/
structure Cell where
  bytes : List UInt8
  held  : Bool
  deriving DecidableEq

namespace Cell

/-- A zeroed buffer. -/
def new (n : Nat) : Cell := ⟨List.replicate n 0, false⟩

/-- A copy of bytes that are not secret. -/
def plain (bytes : List UInt8) : Cell := ⟨bytes, false⟩

/-- A copy of secret bytes. -/
def secret (bytes : List UInt8) : Cell := ⟨bytes, true⟩

/-- A callee wrote to the buffer. -/
def receive (c : Cell) (written : List UInt8) (secret : Bool) : Cell :=
  ⟨overwrite c.bytes written, c.held || secret⟩

/-- The buffer is zeroed. -/
def wipe (c : Cell) : Cell := { c with bytes := List.replicate c.bytes.length 0 }

/-- Nothing secret the buffer ever held is left in it. -/
def Wiped (c : Cell) : Prop := c.held = true → Zero c.bytes

instance (c : Cell) : Decidable c.Wiped :=
  inferInstanceAs (Decidable (c.held = true → Zero c.bytes))

theorem wipe_wiped (c : Cell) : c.wipe.Wiped := fun _ => zero_replicate _

theorem wiped_of_not_held {c : Cell} (h : c.held = false) : c.Wiped :=
  fun hc => absurd hc (by rw [h]; exact Bool.false_ne_true)

theorem plain_wiped (bytes : List UInt8) : (plain bytes).Wiped := wiped_of_not_held rfl

theorem secret_wiped {bytes : List UInt8} : (secret bytes).Wiped ↔ Zero bytes :=
  ⟨fun h => h rfl, fun h _ => h⟩

/-- A new buffer written in full. -/
theorem new_receive_bytes {n : Nat} {written : List UInt8} (h : written.length = n)
    (secret : Bool) : ((new n).receive written secret).bytes = written :=
  overwrite_full (by rw [h, new, List.length_replicate])

/-- A new buffer that received no secret. -/
theorem new_receive_plain (n : Nat) (written : List UInt8) :
    ((new n).receive written false).Wiped := wiped_of_not_held rfl

/-- A new buffer that received a secret is wiped exactly when the secret was zeros. -/
theorem new_receive_wiped {n : Nat} {written : List UInt8} :
    ((new n).receive written true).Wiped ↔ Zero (written.take n) := by
  rw [← zero_overwrite]
  exact ⟨fun h => h rfl, fun h _ => h⟩

end Cell

/-- All buffers of a function are wiped. -/
def AllWiped (cells : List Cell) : Prop := ∀ c ∈ cells, c.Wiped

instance (cells : List Cell) : Decidable (AllWiped cells) :=
  inferInstanceAs (Decidable (∀ c ∈ cells, c.Wiped))

theorem allWiped_nil : AllWiped [] := by
  intro c hc
  exact absurd hc List.not_mem_nil

theorem allWiped_cons {c : Cell} {cells : List Cell} :
    AllWiped (c :: cells) ↔ c.Wiped ∧ AllWiped cells := by
  unfold AllWiped
  exact List.forall_mem_cons

/-- What a function returned, the foreign calls it made, and the local buffers it left. -/
structure Ran (ε κ α : Type) where
  result : Except ε α
  calls  : List κ
  cells  : List Cell

end Nwep.Lib
