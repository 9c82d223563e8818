import EarlyBoot.BlockHeap.Merge

/-!
# Allocating, resizing and releasing

A request is rounded up to a multiple of the header size and served from the
first free block that has room for it.  A pointer handed back by the client is
resolved by `usedBlock`, which accepts the payload address of a block in use
and nothing else.  `resize` shrinks a block in place, lets it grow over a free
successor, or moves it.
-/

namespace EarlyBoot.BlockHeap

open MemoryM (inspect)
open HeapM (report)

def alignment : Nat := headerSize

def payloadSize? (size : Nat) : Option Nat := Word.roundUp? (max size 1) headerSize

def payloadSize (size : Nat) : Except HeapStop Nat :=
  match payloadSize? size with
  | some payload => .ok payload
  | none => .error (.report (.sizeOverflow 1 size))

def payloadAddress (h : BlockHeap) (offset : Nat) : Nat := h.base + offset + headerSize

def requireInitialized (h : BlockHeap) : HeapM Unit :=
  if h.isInitialized then pure () else report .notInitialized

/--
Takes over the region of `size` bytes from `start` on.  Start and end are moved
inwards to multiples of the header size, and the whole arena becomes one free
block.
-/
def init (h : BlockHeap) (start size : Nat) : HeapM BlockHeap :=
  if h.isInitialized then report .alreadyInitialized
  else if start = 0 then report (.arenaTooSmall 0)
  else
    let skipped := Word.roundUp start headerSize - start
    let arenaSize := (size - skipped) / headerSize * headerSize
    if arenaSize < 2 * headerSize then report (.arenaTooSmall size)
    else do
      let h := { h with base := start + skipped, arenaSize }
      h.store 0 { free := true, size := arenaSize - headerSize, previous := none, next := none }
      pure h

def allocate (h : BlockHeap) (size : Nat) : HeapM Nat := do
  h.requireInitialized
  let payload ← payloadSize size
  match ← inspect (h.findFree · payload) with
  | none => report (.outOfMemory size)
  | some (offset, header) =>
      h.settle offset { header with free := false } payload
      pure (h.payloadAddress offset)

def allocateAligned (h : BlockHeap) (size align : Nat) : HeapM Nat :=
  if align ≤ alignment then h.allocate size else report (.unsupportedAlignment align)

/-- Why a pointer whose header is not that of a block in use is rejected. -/
def classifyUnused (h : BlockHeap) (m : Memory) (address offset : Nat) : HeapError :=
  if m.readWord (h.base + offset) = freeTag then .doubleFree offset
  else if (h.blocks m).any fun block => block.free && block.offset < offset && offset < block.stop
  then .doubleFree offset
  else .foreignPointer address

def verifyPrevious (h : BlockHeap) (m : Memory) (offset : Nat) (link : Option Nat) :
    Except HeapStop Unit := do
  match link with
  | some previous =>
      let before ← h.load m previous
      unless (← h.successor previous before) = some offset do
        throw (.report (.corrupted offset))
  | none => unless offset = 0 do throw (.report (.corrupted offset))

def verifyNext (h : BlockHeap) (m : Memory) (offset : Nat) (header : Header) :
    Except HeapStop Unit := do
  match ← h.successor offset header with
  | some next =>
      let behind ← h.load m next
      unless behind.previous = some offset do throw (.report (.corrupted next))
  | none => pure ()

/-- The neighbours of the block at `offset` agree that it lies between them. -/
def verifyLinks (h : BlockHeap) (m : Memory) (offset : Nat) (header : Header) :
    Except HeapStop Unit := do
  h.verifyPrevious m offset header.previous
  h.verifyNext m offset header

def usedBlock (h : BlockHeap) (m : Memory) (address : Nat) : Except HeapStop (Nat × Header) := do
  let offset := address - (h.base + headerSize)
  if h.base + headerSize ≤ address ∧ h.InBounds offset then
    if m.readWord (h.base + offset) = usedTag then
      let header ← h.load m offset
      h.verifyLinks m offset header
      pure (offset, header)
    else throw (.report (h.classifyUnused m address offset))
  else throw (.report (.foreignPointer address))

def usableSize (h : BlockHeap) (m : Memory) (address : Nat) : Except HeapStop Nat := do
  unless h.isInitialized do throw (.report .notInitialized)
  let (_, header) ← h.usedBlock m address
  pure header.size

def contains (h : BlockHeap) (address : Nat) : Bool :=
  h.isInitialized && h.base ≤ address && address - h.base < h.arenaSize

def release (h : BlockHeap) (address : Nat) : HeapM Unit := do
  h.requireInitialized
  let (offset, header) ← inspect (h.usedBlock · address)
  h.store offset { header with free := true }
  h.coalesce offset

def allocateZeroed (h : BlockHeap) (count size : Nat) : HeapM Nat := do
  match Word.mul? count size with
  | none => report (.sizeOverflow count size)
  | some total =>
      let address ← h.allocate total
      let (_, header) ← inspect (h.usedBlock · address)
      modify (·.fill address header.size 0)
      pure address

/-- Cuts a block in use down to `payload` bytes if the rest is worth splitting off. -/
def shrink (h : BlockHeap) (offset : Nat) (header : Header) (payload : Nat) : HeapM Unit := do
  if ← h.shouldSplit header payload then
    let header ← h.splitOff offset header payload
    h.store offset header

/-- Lets a block in use grow to `payload` bytes over a free successor, if there is enough room. -/
def growInPlace (h : BlockHeap) (offset : Nat) (header : Header) (payload : Nat) :
    HeapM Bool := do
  match header.next with
  | none => pure false
  | some next =>
      let following ← inspect (h.load · next)
      let combined ← HeapStop.add header.size headerSize
      let combined ← HeapStop.add combined following.size
      if following.free ∧ payload ≤ combined then
        h.relinkPrevious following.next (some offset)
        h.erase next
        h.settle offset { header with size := combined, next := following.next } payload
        pure true
      else pure false

/-- Changes the size of the allocation at `address`, moving it if it cannot grow in place. -/
def resize (h : BlockHeap) (address newSize : Nat) : HeapM Nat := do
  h.requireInitialized
  let (offset, header) ← inspect (h.usedBlock · address)
  let payload ← payloadSize newSize
  if payload ≤ header.size then
    h.shrink offset header payload
    pure address
  else if ← h.growInPlace offset header payload then pure address
  else
    let target ← h.allocate newSize
    modify (·.copy address target (min header.size newSize))
    h.release address
    pure target

end EarlyBoot.BlockHeap
