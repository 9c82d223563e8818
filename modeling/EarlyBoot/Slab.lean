import EarlyBoot.Bitmap
import EarlyBoot.Memory.Computation
import EarlyBoot.Memory.Word
import EarlyBoot.Text.Number
import EarlyBoot.Word

/-!
# Slabs

A slab divides a region into slots of one size.  The region starts with three
words (slot size, number of slots, bitmap size), followed by a bitmap that says
which slots are taken.  Slot 0 starts at the next multiple of the slot size.
-/

namespace EarlyBoot

inductive SlabError where
  | regionTooSmall (size objectSize : Nat)
  | invalidObjectSize
  | misaligned (address : Nat)
  | full
  | foreignAddress (address : Nat)
  | doubleFree (index : Nat)
  deriving DecidableEq, Repr

def SlabError.message : SlabError → String
  | regionTooSmall size objectSize =>
      s!"region of {size} bytes has no room for {objectSize}-byte slots"
  | invalidObjectSize => "object size must not be zero"
  | misaligned address => s!"slab region at 0x{Text.hex address} is not aligned for its header"
  | full => "all slots are in use"
  | foreignAddress address => s!"address 0x{Text.hex address} is not a slot of this slab"
  | doubleFree index => s!"slot {index} is already free"

structure Slab where
  base : Nat
  deriving DecidableEq, Repr

abbrev SlabM := MemoryM SlabError

namespace Slab

open MemoryM (inspect)

def headerSize : Nat := 24

def headerAlign : Nat := 8

def slotCount (size objectSize : Nat) : Nat :=
  let entries := size / objectSize
  let overhead := headerSize + Bitmap.byteLength entries
  entries - (overhead + (objectSize - 1)) / objectSize

def objectSize (slab : Slab) (m : Memory) : Nat := m.readWord slab.base

def capacity (slab : Slab) (m : Memory) : Nat := m.readWord (slab.base + 8)

def bitmapSize (slab : Slab) (m : Memory) : Nat := m.readWord (slab.base + 16)

def bitmapAddress (slab : Slab) : Nat := slab.base + headerSize

def bitmap (slab : Slab) (m : Memory) : Bitmap :=
  ⟨m.readBytes slab.bitmapAddress (slab.bitmapSize m)⟩

def overhead (slab : Slab) (m : Memory) : Nat :=
  Word.roundUp (headerSize + slab.bitmapSize m) (slab.objectSize m)

def inUse (slab : Slab) (m : Memory) : Nat := (slab.bitmap m).countSet (slab.capacity m)

def slotAddress? (slab : Slab) (m : Memory) (index : Nat) : Option Nat :=
  if index < slab.capacity m then
    some (slab.base + slab.overhead m + index * slab.objectSize m)
  else none

def slotIndex (slab : Slab) (m : Memory) (address : Nat) : Except SlabError Nat :=
  let first := slab.base + slab.overhead m
  let index := (address - first) / slab.objectSize m
  if first ≤ address ∧ (address - first) % slab.objectSize m = 0 ∧ index < slab.capacity m then
    .ok index
  else .error (.foreignAddress address)

/-- Lays out a slab over the region of `size` bytes from `start` on; every slot starts free. -/
def init (start size objectSize : Nat) : SlabM Slab :=
  if objectSize = 0 then throw .invalidObjectSize
  else if start = 0 ∨ start % headerAlign ≠ 0 then throw (.misaligned start)
  else
    let count := slotCount size objectSize
    if count = 0 then throw (.regionTooSmall size objectSize)
    else do
      let slab : Slab := ⟨start⟩
      let bitmapSize := Bitmap.byteLength count
      modify fun m =>
        (((m.writeWord start objectSize).writeWord (start + 8) count).writeWord
          (start + 16) bitmapSize).fill slab.bitmapAddress bitmapSize 0
      pure slab

/-- The first free slot: its address, and where its bit is with the byte that marks it taken. -/
def nextFree (slab : Slab) (m : Memory) : Except SlabError (Nat × Nat × UInt8) :=
  let bitmap := slab.bitmap m
  match bitmap.firstClear (slab.capacity m) with
  | none => .error .full
  | some index =>
      match bitmap.bytes[index / 8]?, slab.slotAddress? m index with
      | some byte, some address =>
          .ok (address, slab.bitmapAddress + index / 8, Bitmap.setBit byte (index % 8))
      | _, _ => .error .full

def allocate (slab : Slab) : SlabM Nat := do
  let (address, place, byte) ← inspect slab.nextFree
  modify (·.write place byte)
  pure address

/-- The slot at `address`: where its bit is kept, with the byte that marks it free. -/
def takenSlot (slab : Slab) (m : Memory) (address : Nat) : Except SlabError (Nat × UInt8) := do
  let index ← slab.slotIndex m address
  let bitmap := slab.bitmap m
  match bitmap.get? index, bitmap.bytes[index / 8]? with
  | some true, some byte =>
      pure (slab.bitmapAddress + index / 8, Bitmap.clearBit byte (index % 8))
  | _, _ => throw (.doubleFree index)

def release (slab : Slab) (address : Nat) : SlabM Unit := do
  let (place, byte) ← inspect (slab.takenSlot · address)
  modify (·.write place byte)

end Slab

end EarlyBoot
