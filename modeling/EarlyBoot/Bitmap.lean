/-!
# Bitmaps

A bitmap keeps one bit for every entry: entry `i` is bit `i % 8` of byte
`i / 8`.  Looking at an entry, or changing one, fails exactly when the entry
lies beyond the last byte.  The search for a clear entry skips full bytes.
-/

namespace EarlyBoot

structure Bitmap where
  bytes : List UInt8
  deriving DecidableEq, Repr

namespace Bitmap

def byteLength (entries : Nat) : Nat := (entries + 7) / 8

def capacity (b : Bitmap) : Nat := b.bytes.length * 8

def mask (bit : Nat) : UInt8 := 1 <<< UInt8.ofNat bit

def testBit (byte : UInt8) (bit : Nat) : Bool := byte &&& mask bit != 0

def setBit (byte : UInt8) (bit : Nat) : UInt8 := byte ||| mask bit

def clearBit (byte : UInt8) (bit : Nat) : UInt8 := byte &&& ~~~mask bit

def get? (b : Bitmap) (entry : Nat) : Option Bool :=
  b.bytes[entry / 8]?.map fun byte => testBit byte (entry % 8)

def update? (b : Bitmap) (entry : Nat) (change : UInt8 → Nat → UInt8) : Option Bitmap :=
  b.bytes[entry / 8]?.map fun byte => ⟨b.bytes.set (entry / 8) (change byte (entry % 8))⟩

def set? (b : Bitmap) (entry : Nat) : Option Bitmap := b.update? entry setBit

def clear? (b : Bitmap) (entry : Nat) : Option Bitmap := b.update? entry clearBit

def clearAll (b : Bitmap) : Bitmap := ⟨b.bytes.map fun _ => 0⟩

def firstClearBit (byte : UInt8) (bit : Nat) : Nat → Option Nat
  | 0 => none
  | count + 1 => if testBit byte bit then firstClearBit byte (bit + 1) count else some bit

/-- The first clear entry below `limit`, where the bytes hold the entries from `entry` on. -/
def firstClearFrom (limit entry : Nat) : List UInt8 → Option Nat
  | [] => none
  | byte :: rest =>
      if limit ≤ entry then none
      else if byte = 0xff then firstClearFrom limit (entry + 8) rest
      else
        match firstClearBit byte 0 (min 8 (limit - entry)) with
        | some bit => some (entry + bit)
        | none => firstClearFrom limit (entry + 8) rest

def firstClear (b : Bitmap) (limit : Nat) : Option Nat := firstClearFrom limit 0 b.bytes

def countSetFrom (limit entry : Nat) : List UInt8 → Nat
  | [] => 0
  | byte :: rest =>
      (List.range (min 8 (limit - entry))).countP (testBit byte) +
        countSetFrom limit (entry + 8) rest

def countSet (b : Bitmap) (limit : Nat) : Nat := countSetFrom limit 0 b.bytes

end Bitmap

end EarlyBoot
