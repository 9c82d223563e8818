import EarlyBoot.HeapBox

/-!
# Vectors

A vector keeps its elements side by side in one heap block.  The capacity
starts at four elements and doubles; only the first growth allocates, every
later one resizes the block.  A push that cannot grow the block drops the
rejected element and changes nothing else.
-/

namespace EarlyBoot

open FirmwareM

structure HeapVec (α : Type) where
  address : Nat
  length : Nat
  capacity : Nat
  deriving DecidableEq, Repr

namespace HeapVec

variable {α : Type} [Stored α]

def minCapacity : Nat := 4

/-- Elements without bytes need no block, so there is always room for them. -/
def empty : HeapVec α := ⟨0, 0, if Stored.size α = 0 then Word.greatest else 0⟩

def elementAddress (v : HeapVec α) (index : Nat) : Nat := v.address + index * Stored.size α

def readElement (v : HeapVec α) (index : Nat) (m : Memory) : α :=
  Stored.decode (m.readBytes (v.elementAddress index) (Stored.size α))

def toList (v : HeapVec α) (m : Memory) : List α :=
  (List.range v.length).map (v.readElement · m)

def elements (v : HeapVec α) : FirmwareM (List α) := look v.toList

def get (v : HeapVec α) (index : Nat) : FirmwareM α :=
  if index < v.length then look (v.readElement index) else halt .outOfBounds

def writeElement (v : HeapVec α) (index : Nat) (value : α) : FirmwareM Unit :=
  change (·.writeBytes (v.elementAddress index) (Stored.encode value))

def set (v : HeapVec α) (index : Nat) (value : α) : FirmwareM Unit :=
  if index < v.length then v.writeElement index value else halt .outOfBounds

def nextCapacity (v : HeapVec α) : Except HeapError (Nat × Nat) :=
  if BlockHeap.alignment < Stored.align α then .error (.unsupportedAlignment (Stored.align α))
  else
    match if v.capacity = 0 then some minCapacity else Word.mul? v.capacity 2 with
    | none => .error (.sizeOverflow v.capacity 2)
    | some capacity =>
        match Word.mul? capacity (Stored.size α) with
        | none => .error (.sizeOverflow capacity (Stored.size α))
        | some bytes => .ok (capacity, bytes)

def grow (v : HeapVec α) : FirmwareM (Except HeapError (HeapVec α)) := do
  match v.nextCapacity with
  | .error error => pure (.error error)
  | .ok (capacity, bytes) =>
      let result ← if v.capacity = 0 then Heap.malloc bytes else Heap.realloc v.address bytes
      pure (result.map fun address => { v with address, capacity })

def reserve (v : HeapVec α) : FirmwareM (Except HeapError (HeapVec α)) :=
  if v.length = v.capacity then v.grow else pure (.ok v)

def push [Owned α] (v : HeapVec α) (value : α) : FirmwareM (Except HeapError (HeapVec α)) := do
  match ← v.reserve with
  | .error error =>
      Owned.drop value
      pure (.error error)
  | .ok v =>
      v.writeElement v.length value
      pure (.ok { v with length := v.length + 1 })

def pop (v : HeapVec α) : FirmwareM (Option (α × HeapVec α)) :=
  match v.length with
  | 0 => pure none
  | last + 1 => do
      let value ← look (v.readElement last)
      pure (some (value, { v with length := last }))

def cleared (v : HeapVec α) : HeapVec α := { v with length := 0 }

def dropElements [Owned α] (v : HeapVec α) : FirmwareM Unit := do
  Owned.dropAll (← v.elements)

def clear [Owned α] (v : HeapVec α) : FirmwareM (HeapVec α) := do
  v.dropElements
  pure v.cleared

def ownsBlock (v : HeapVec α) : Bool := 0 < v.capacity && 0 < Stored.size α

instance [Owned α] : Owned (HeapVec α) where
  drop v := do
    v.dropElements
    if v.ownsBlock then Heap.free v.address

end HeapVec

def describeList (texts : List String) : String := "[" ++ ", ".intercalate texts ++ "]"

end EarlyBoot
