import EarlyBoot.Text.Number

/-!
# Heap errors

The causes for which a heap refuses a request.  Three of them mean that the
heap can no longer be trusted.
-/

namespace EarlyBoot

inductive HeapError where
  | notInitialized
  | alreadyInitialized
  | arenaTooSmall (size : Nat)
  | outOfMemory (requested : Nat)
  | sizeOverflow (count size : Nat)
  | unsupportedAlignment (align : Nat)
  | doubleFree (offset : Nat)
  | foreignPointer (address : Nat)
  | corrupted (offset : Nat)
  deriving DecidableEq, Repr

namespace HeapError

def isFatal : HeapError → Bool
  | doubleFree _ | foreignPointer _ | corrupted _ => true
  | _ => false

def message : HeapError → String
  | notInitialized => "heap is not initialized"
  | alreadyInitialized => "heap is already initialized"
  | arenaTooSmall size => s!"arena of {size} bytes cannot hold a block"
  | outOfMemory requested => s!"out of memory: no free block for {requested} bytes"
  | sizeOverflow count size => s!"allocation size overflows: {count} x {size} bytes"
  | unsupportedAlignment align => s!"alignment of {align} bytes is not supported"
  | doubleFree offset => s!"double free of block at heap offset 0x{Text.hex offset}"
  | foreignPointer address => s!"pointer 0x{Text.hex address} was not allocated from this heap"
  | corrupted offset => s!"heap corruption detected at offset 0x{Text.hex offset}"

end HeapError

/--
Why a heap operation stops early: it reports an error, or a sum or difference
that it does not check leaves the range of a machine word.
-/
inductive HeapStop where
  | report (error : HeapError)
  | overflow
  deriving DecidableEq, Repr

end EarlyBoot
