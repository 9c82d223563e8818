import EarlyBoot.Firmware
import EarlyBoot.Stored

/-!
# Boxes

A box owns one heap block that holds one value.  Dropping a box drops the value
and then releases the block; `Owned` says what dropping a value means, and plain
data owns nothing.  A box is itself a value of two words: which heap the block
belongs to, and the address of the block.
-/

namespace EarlyBoot

open FirmwareM

/-- What has to be released when a value goes away. -/
class Owned (α : Type) where
  drop : α → FirmwareM Unit

/-- Drops every value of a list; a halt is passed on after the last. -/
def Owned.dropAll {α : Type} [Owned α] : List α → FirmwareM Unit
  | [] => pure ()
  | x :: rest => andAlso (Owned.drop x) (Owned.dropAll rest)

namespace Owned

theorem dropAll_plain {α : Type} [Owned α] (hplain : ∀ x : α, Owned.drop x = pure ())
    (xs : List α) : dropAll xs = pure () := by
  induction xs with
  | nil => rfl
  | cons x rest ih =>
      rw [dropAll, hplain, ih]
      rfl

instance : Owned UInt8 := ⟨fun _ => pure ()⟩
instance : Owned UInt16 := ⟨fun _ => pure ()⟩
instance : Owned UInt32 := ⟨fun _ => pure ()⟩
instance : Owned UInt64 := ⟨fun _ => pure ()⟩
instance : Owned Unit := ⟨fun _ => pure ()⟩

instance {α : Type} [Owned α] {n : Nat} : Owned (Vector α n) := ⟨fun xs => dropAll xs.toList⟩

instance {α : Type} [Owned α] : Owned (Option α) where
  drop
    | some x => Owned.drop x
    | none => pure ()

end Owned

structure HeapBox (α : Type) where
  address : UInt64
  deriving DecidableEq, Repr

namespace HeapBox

variable {α : Type} [Stored α]

def heapMark : UInt64 := 1

instance : Stored (HeapBox α) :=
  Stored.via 16 8 (fun box => (heapMark, box.address)) (fun (_, address) => ⟨address⟩)
    (fun _ => rfl) (Nat.le_refl 16)

/-- A missing box has zero in place of the heap mark. -/
instance : Stored (Option (HeapBox α)) :=
  Stored.via 16 8
    (fun
      | some box => (heapMark, box.address)
      | none => ((0 : UInt64), (0 : UInt64)))
    (fun (mark, address) => if mark = 0 then none else some ⟨address⟩)
    (fun box => by cases box <;> rfl) (Nat.le_refl 16)

def read (box : HeapBox α) (m : Memory) : α :=
  Stored.decode (m.readBytes box.address.toNat (Stored.size α))

def get (box : HeapBox α) : FirmwareM α := look box.read

def set (box : HeapBox α) (value : α) : FirmwareM Unit :=
  change (·.writeBytes box.address.toNat (Stored.encode value))

/-- Releases the block without dropping the value in it. -/
def free (box : HeapBox α) : FirmwareM Unit := Heap.free box.address.toNat

instance [Owned α] : Owned (HeapBox α) where
  drop box := do
    Owned.drop (← box.get)
    box.free

/-- Moves a value onto the heap; a value for which there is no room is dropped. -/
def new [Owned α] (value : α) : FirmwareM (Except HeapError (HeapBox α)) := do
  match ← Heap.allocate (Stored.size α) (Stored.align α) with
  | .error error =>
      Owned.drop value
      pure (.error error)
  | .ok address =>
      let box : HeapBox α := ⟨UInt64.ofNat address⟩
      box.set value
      pure (.ok box)

end HeapBox

end EarlyBoot
