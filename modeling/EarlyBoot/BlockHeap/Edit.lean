import EarlyBoot.BlockHeap.Walk
import EarlyBoot.Memory.Computation

/-!
# Editing the block list

Headers are stored, erased, relinked, split and fused in place.  Each edit is a
computation on memory that may stop early; what it has written by then stays
written.  `fuse_eq_ok` says what a successful fusion leaves behind: the first
block has grown over the second, and the second is no longer a header.
-/

namespace EarlyBoot

abbrev HeapM := MemoryM HeapStop

def HeapM.report {α : Type} (error : HeapError) : HeapM α := MemoryM.stop (.report error)

namespace BlockHeap

open MemoryM (inspect)
open HeapM (report)

def store (h : BlockHeap) (offset : Nat) (header : Header) : HeapM Unit := fun m =>
  if h.InBounds offset then .ok () (header.write m (h.base + offset))
  else .error (.report (.corrupted offset)) m

def erase (h : BlockHeap) (offset : Nat) : HeapM Unit := fun m =>
  if h.InBounds offset then .ok () (Header.erase m (h.base + offset))
  else .error (.report (.corrupted offset)) m

def relinkPrevious (h : BlockHeap) (block : Option Nat) (previous : Option Nat) : HeapM Unit :=
  match block with
  | none => pure ()
  | some offset => do
      let header ← inspect (h.load · offset)
      h.store offset { header with previous }

def shouldSplit (h : BlockHeap) (header : Header) (payload : Nat) : Except HeapStop Bool := do
  let rest ← HeapStop.sub header.size payload
  return Word.saturatingMul h.splitFactor headerSize < rest

/--
The size and onward link that a free block of `size` bytes gets if a block
starts right behind it: a free one is taken over and its header erased.
-/
def takeOver (h : BlockHeap) (size : Nat) (next : Option Nat) : HeapM (Nat × Option Nat) :=
  match next with
  | none => pure (size, none)
  | some offset => do
      let following ← inspect (h.load · offset)
      if following.free then
        let size ← HeapStop.add size headerSize
        let size ← HeapStop.add size following.size
        h.erase offset
        pure (size, following.next)
      else pure (size, some offset)

/--
Cuts the block at `offset` down to `payload` bytes and turns the rest, together
with a free successor, into a free block.  Answers the header of the shortened
block, which the caller stores.
-/
def splitOff (h : BlockHeap) (offset : Nat) (header : Header) (payload : Nat) :
    HeapM Header := do
  let start ← HeapStop.add offset headerSize
  let tailOffset ← HeapStop.add start payload
  let rest ← HeapStop.sub header.size payload
  let tailSize ← HeapStop.sub rest headerSize
  let (size, next) ← h.takeOver tailSize header.next
  h.relinkPrevious next (some tailOffset)
  h.store tailOffset { free := true, size, previous := some offset, next }
  pure { header with size := payload, next := some tailOffset }

def settle (h : BlockHeap) (offset : Nat) (header : Header) (payload : Nat) : HeapM Unit := do
  let header ←
    if ← h.shouldSplit header payload then h.splitOff offset header payload
    else pure header
  h.store offset header

def fuse (h : BlockHeap) (first second : Nat) : HeapM Unit := do
  let head ← inspect (h.load · first)
  let tail ← inspect (h.load · second)
  if head.next = some second ∧ tail.previous = some first then
    let size ← HeapStop.add head.size headerSize
    let size ← HeapStop.add size tail.size
    h.relinkPrevious tail.next (some first)
    h.erase second
    h.store first { head with size, next := tail.next }
  else report (.corrupted second)

theorem store_eq_ok {h : BlockHeap} {offset : Nat} {header : Header} {m m' : Memory} :
    h.store offset header m = .ok () m' ↔
      h.InBounds offset ∧ m' = header.write m (h.base + offset) := by
  unfold store
  split <;> grind

theorem erase_eq_ok {h : BlockHeap} {offset : Nat} {m m' : Memory} :
    h.erase offset m = .ok () m' ↔
      h.InBounds offset ∧ m' = Header.erase m (h.base + offset) := by
  unfold erase
  split <;> grind

theorem fuse_eq_ok {h : BlockHeap} {first second : Nat} {m m' : Memory} :
    h.fuse first second m = .ok () m' ↔
      ∃ head tail m₁, h.load m first = .ok head ∧ h.load m second = .ok tail ∧
        head.next = some second ∧ tail.previous = some first ∧
        head.size + headerSize + tail.size < Word.limit ∧
        h.relinkPrevious tail.next (some first) m = .ok () m₁ ∧
        m' = Header.write (Header.erase m₁ (h.base + second)) (h.base + first)
          { head with size := head.size + headerSize + tail.size, next := tail.next } := by
  unfold fuse
  simp only [MemoryM.bind_eq_ok, MemoryM.inspect_eq_ok]
  constructor
  · rintro ⟨head, _, ⟨hhead, rfl⟩, tail, _, ⟨htail, rfl⟩, hrest⟩
    split at hrest
    · rename_i hlinks
      simp only [MemoryM.bind_eq_ok, MemoryM.lift_eq_ok, HeapStop.add_eq_ok] at hrest
      obtain ⟨_, _, ⟨⟨rfl, hlt⟩, rfl⟩, _, _, ⟨⟨rfl, hlt'⟩, rfl⟩, _, m₁, hrelink, _, m₂, herase,
        hstore⟩ := hrest
      obtain ⟨-, rfl⟩ := erase_eq_ok.1 herase
      obtain ⟨-, rfl⟩ := store_eq_ok.1 hstore
      exact ⟨head, tail, m₁, hhead, htail, hlinks.1, hlinks.2, hlt', hrelink, rfl⟩
    · exact absurd hrest MemoryM.stop_ne_ok
  · rintro ⟨head, tail, m₁, hhead, htail, h1, h2, hlt, hrelink, rfl⟩
    refine ⟨head, m, ⟨hhead, rfl⟩, tail, m, ⟨htail, rfl⟩, ?_⟩
    rw [if_pos ⟨h1, h2⟩]
    simp only [MemoryM.bind_eq_ok, MemoryM.lift_eq_ok, HeapStop.add_eq_ok]
    refine ⟨head.size + headerSize, m, ⟨⟨rfl, Nat.lt_of_le_of_lt (Nat.le_add_right _ _) hlt⟩, rfl⟩,
      head.size + headerSize + tail.size, m, ⟨⟨rfl, hlt⟩, rfl⟩, (), m₁, hrelink, (), _,
      erase_eq_ok.2 ⟨(load_eq_ok.1 htail).1, rfl⟩, ?_⟩
    exact store_eq_ok.2 ⟨(load_eq_ok.1 hhead).1, rfl⟩

end BlockHeap

end EarlyBoot
