import EarlyBoot.Memory
import EarlyBoot.Word

/-!
# Little-endian numbers in memory

A number of `width` bytes is stored least significant byte first.  A word is a
number of eight bytes.  Reading a word back gives the number written, and
writing it changes nothing outside its eight bytes.
-/

namespace EarlyBoot.Memory

def readNat (m : Memory) (address : Nat) : Nat → Nat
  | 0 => 0
  | width + 1 => (m.read address).toNat + 256 * m.readNat (address + 1) width

def writeNat (m : Memory) (address : Nat) (width value : Nat) : Memory :=
  match width with
  | 0 => m
  | width + 1 => (m.write address (UInt8.ofNat value)).writeNat (address + 1) width (value / 256)

def readWord (m : Memory) (address : Nat) : Nat := m.readNat address 8

def writeWord (m : Memory) (address value : Nat) : Memory := m.writeNat address 8 value

theorem readNat_lt (m : Memory) (address width : Nat) :
    m.readNat address width < Nat.pow 256 width := by
  induction width generalizing address with
  | zero => simp [readNat]
  | succ width ih =>
      have h1 := ih (address + 1)
      have h2 := (m.read address).toNat_lt
      have hpow : Nat.pow 256 (width + 1) = Nat.pow 256 width * 256 := rfl
      rw [readNat, hpow]
      omega

theorem readNat_shift {m m' : Memory} {a b width : Nat}
    (h : ∀ i, i < width → m.read (a + i) = m'.read (b + i)) :
    m.readNat a width = m'.readNat b width := by
  induction width generalizing a b with
  | zero => rfl
  | succ width ih =>
      have hrest : ∀ i, i < width → m.read (a + 1 + i) = m'.read (b + 1 + i) := by
        intro i hi
        have := h (i + 1) (by omega)
        rwa [Nat.add_comm i 1, ← Nat.add_assoc, ← Nat.add_assoc] at this
      rw [readNat, readNat, ih hrest]
      have hfirst := h 0 (by omega)
      rw [Nat.add_zero, Nat.add_zero] at hfirst
      rw [hfirst]

theorem readNat_congr {m m' : Memory} {address width : Nat}
    (h : ∀ a, address ≤ a → a < address + width → m.read a = m'.read a) :
    m.readNat address width = m'.readNat address width :=
  readNat_shift fun i hi => h (address + i) (by omega) (by omega)

theorem read_writeNat_of_outside {m : Memory} {address width value a : Nat}
    (h : a < address ∨ address + width ≤ a) :
    (m.writeNat address width value).read a = m.read a := by
  induction width generalizing m address value with
  | zero => rfl
  | succ width ih =>
      rw [writeNat, ih (by omega), read_write_of_ne (by omega)]

theorem read_writeNat_congr {m m' : Memory} {a : Nat} (h : m.read a = m'.read a)
    (address width value : Nat) :
    (m.writeNat address width value).read a = (m'.writeNat address width value).read a := by
  induction width generalizing m m' address value with
  | zero => exact h
  | succ width ih =>
      rw [writeNat, writeNat]
      apply ih
      rw [read_write, read_write, h]

theorem read_writeNat_zero {m : Memory} {address width a : Nat} (hlow : address ≤ a)
    (hhigh : a < address + width) : (m.writeNat address width 0).read a = 0 := by
  induction width generalizing m address with
  | zero => omega
  | succ width ih =>
      rw [writeNat, Nat.zero_div]
      by_cases heq : a = address
      · rw [read_writeNat_of_outside (by omega), heq, read_write_self]
        rfl
      · exact ih (by omega) (by omega)

theorem readNat_of_zeros {m : Memory} {address width : Nat}
    (hz : ∀ a, address ≤ a → a < address + width → m.read a = 0) :
    m.readNat address width = 0 := by
  induction width generalizing address with
  | zero => rfl
  | succ width ih =>
      rw [readNat, hz address (by omega) (by omega),
        ih fun a hlow hhigh => hz a (by omega) (by omega)]
      rfl

theorem read_eq_of_readNat_eq {m m' : Memory} {address width : Nat}
    (heq : m.readNat address width = m'.readNat address width) {a : Nat} (hlow : address ≤ a)
    (hhigh : a < address + width) : m.read a = m'.read a := by
  induction width generalizing address with
  | zero => omega
  | succ width ih =>
      rw [readNat, readNat] at heq
      have hlt := (m.read address).toNat_lt
      have hlt' := (m'.read address).toNat_lt
      by_cases hfirst : a = address
      · rw [hfirst]
        exact UInt8.toNat_inj.1 (by omega)
      · have hrest : m.readNat (address + 1) width = m'.readNat (address + 1) width := by omega
        exact ih hrest (by omega) (by omega)

theorem readNat_writeNat (m : Memory) (address width value : Nat) :
    (m.writeNat address width value).readNat address width = value % Nat.pow 256 width := by
  induction width generalizing m address value with
  | zero => simp [readNat, Nat.mod_one]
  | succ width ih =>
      have hpow : Nat.pow 256 (width + 1) = 256 * Nat.pow 256 width := Nat.mul_comm _ _
      rw [writeNat, readNat, ih, read_writeNat_of_outside (by omega), read_write_self,
        UInt8.toNat_ofNat', hpow, Nat.mod_mul]

theorem readNat_writeNat_of_disjoint {m : Memory} {a b n k value : Nat}
    (h : b + k ≤ a ∨ a + n ≤ b) :
    (m.writeNat a n value).readNat b k = m.readNat b k :=
  readNat_congr fun _ _ _ => read_writeNat_of_outside (by omega)

theorem readWord_congr {m m' : Memory} {address : Nat}
    (h : ∀ a, address ≤ a → a < address + 8 → m.read a = m'.read a) :
    m.readWord address = m'.readWord address :=
  readNat_congr h

theorem readWord_shift {m m' : Memory} {a b : Nat}
    (h : ∀ i, i < 8 → m.read (a + i) = m'.read (b + i)) : m.readWord a = m'.readWord b :=
  readNat_shift h

theorem readWord_lt (m : Memory) (address : Nat) : m.readWord address < Word.limit :=
  readNat_lt m address 8

theorem readWord_writeWord (m : Memory) (address : Nat) {value : Nat} (h : value < Word.limit) :
    (m.writeWord address value).readWord address = value :=
  (readNat_writeNat m address 8 value).trans (Nat.mod_eq_of_lt h)

theorem readWord_writeWord_of_disjoint {m : Memory} {a b value : Nat}
    (h : b + 8 ≤ a ∨ a + 8 ≤ b) : (m.writeWord a value).readWord b = m.readWord b :=
  readNat_writeNat_of_disjoint h

theorem read_writeWord_of_outside {m : Memory} {address value a : Nat}
    (h : a < address ∨ address + 8 ≤ a) :
    (m.writeWord address value).read a = m.read a :=
  read_writeNat_of_outside h

theorem read_writeWord_congr {m m' : Memory} {a : Nat} (h : m.read a = m'.read a)
    (address value : Nat) :
    (m.writeWord address value).read a = (m'.writeWord address value).read a :=
  read_writeNat_congr h address 8 value

theorem read_writeWord_zero {m : Memory} {address a : Nat} (hlow : address ≤ a)
    (hhigh : a < address + 8) : (m.writeWord address 0).read a = 0 :=
  read_writeNat_zero hlow hhigh

theorem read_eq_of_readWord_eq {m m' : Memory} {address : Nat}
    (heq : m.readWord address = m'.readWord address) {a : Nat} (hlow : address ≤ a)
    (hhigh : a < address + 8) : m.read a = m'.read a :=
  read_eq_of_readNat_eq heq hlow hhigh

theorem readWord_of_zeros {m : Memory} {address : Nat}
    (hz : ∀ a, address ≤ a → a < address + 8 → m.read a = 0) : m.readWord address = 0 :=
  readNat_of_zeros hz

attribute [irreducible] readWord writeWord

end EarlyBoot.Memory
