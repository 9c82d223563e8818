/-!
# Byte memory

Memory maps every address to a byte.  A window of consecutive addresses is
backed by an array, so that reading and writing RAM is fast; bytes written
anywhere else are remembered in a list, newest first.  `read_write` is the only
fact about this representation that the rest of the library needs.
-/

namespace EarlyBoot

structure Memory where
  origin : Nat
  window : ByteArray
  beyond : List (Nat × UInt8)

namespace Memory

def ofBytes (origin : Nat) (bytes : ByteArray) : Memory := ⟨origin, bytes, []⟩

def filled (origin size : Nat) (byte : UInt8) : Memory :=
  ofBytes origin (Nat.fold size (fun _ _ bytes => bytes.push byte) (ByteArray.emptyWithCapacity size))

def read (m : Memory) (address : Nat) : UInt8 :=
  if m.origin ≤ address then
    if h : address - m.origin < m.window.size then m.window[address - m.origin]
    else (m.beyond.lookup address).getD 0
  else (m.beyond.lookup address).getD 0

def write (m : Memory) (address : Nat) (byte : UInt8) : Memory :=
  match m with
  | ⟨origin, window, beyond⟩ =>
    if origin ≤ address then
      if h : address - origin < window.size then
        ⟨origin, window.set (address - origin) byte h, beyond⟩
      else ⟨origin, window, (address, byte) :: beyond⟩
    else ⟨origin, window, (address, byte) :: beyond⟩

theorem read_eq (m : Memory) (a : Nat) :
    m.read a = if m.origin ≤ a ∧ a - m.origin < m.window.size
      then m.window[a - m.origin]?.getD 0 else (m.beyond.lookup a).getD 0 := by
  unfold read
  by_cases h : m.origin ≤ a
  · by_cases hs : a - m.origin < m.window.size <;> simp [h, hs]
  · simp [h]

theorem read_write (m : Memory) (a b : Nat) (byte : UInt8) :
    (m.write a byte).read b = if b = a then byte else m.read b := by
  obtain ⟨origin, window, beyond⟩ := m
  have inside : ∀ (i j : Nat) (h : i < window.size),
      (window.set i byte h)[j]? = if j = i then some byte else window[j]? := by
    intro i j h
    have hs : i < window.data.size := h
    change (window.data.set i byte hs)[j]? = if j = i then some byte else window.data[j]?
    rw [Array.getElem?_set]
    split <;> grind
  have outside : ((a, byte) :: beyond).lookup b =
      if b = a then some byte else beyond.lookup b := by
    rw [List.lookup_cons]
    by_cases h : b = a
    · simp [h]
    · simp [h, beq_eq_false_iff_ne.2 h]
  unfold write
  dsimp only
  rw [read_eq (Memory.mk origin window beyond)]
  split
  · rename_i h
    split
    · rename_i hw
      rw [read_eq]
      have hsize : (window.set (a - origin) byte hw).size = window.size := by
        change (window.data.set (a - origin) byte hw).size = window.data.size
        exact Array.size_set hw
      simp only [inside, hsize]
      by_cases hb : b = a
      · simp [hb, h, hw]
      · have : ¬ (origin ≤ b ∧ b - origin = a - origin) := by omega
        by_cases hc : origin ≤ b ∧ b - origin < window.size
        · have : b - origin ≠ a - origin := by omega
          simp [hc, this, hb]
        · simp [hc, hb]
    · rename_i hw
      rw [read_eq]
      simp only [outside]
      by_cases hb : b = a
      · simp [hb, hw]
      · simp [hb]
  · rename_i h
    rw [read_eq]
    simp only [outside]
    by_cases hb : b = a
    · simp [hb, h]
    · simp [hb]

@[simp] theorem read_write_self (m : Memory) (a : Nat) (byte : UInt8) :
    (m.write a byte).read a = byte := by
  simp [read_write]

attribute [irreducible] read write

theorem read_write_of_ne {m : Memory} {a b : Nat} {byte : UInt8} (h : b ≠ a) :
    (m.write a byte).read b = m.read b := by
  simp [read_write, h]

def readBytes (m : Memory) (address count : Nat) : List UInt8 :=
  (List.range count).map fun i => m.read (address + i)

def writeBytes (m : Memory) (address : Nat) : List UInt8 → Memory
  | [] => m
  | byte :: rest => (m.write address byte).writeBytes (address + 1) rest

def fill (m : Memory) (address : Nat) (count : Nat) (byte : UInt8) : Memory :=
  match count with
  | 0 => m
  | count + 1 => (m.write address byte).fill (address + 1) count byte

/-- Copies `count` bytes; the source is read before anything is written. -/
def copy (m : Memory) (source target count : Nat) : Memory :=
  m.writeBytes target (m.readBytes source count)

@[simp] theorem length_readBytes (m : Memory) (address count : Nat) :
    (m.readBytes address count).length = count := by
  simp [readBytes]

theorem readBytes_shift {m m' : Memory} {a b count : Nat}
    (h : ∀ i, i < count → m.read (a + i) = m'.read (b + i)) :
    m.readBytes a count = m'.readBytes b count := by
  apply List.map_congr_left
  intro i hi
  exact h i (List.mem_range.1 hi)

theorem readBytes_congr {m m' : Memory} {address count : Nat}
    (h : ∀ a, address ≤ a → a < address + count → m.read a = m'.read a) :
    m.readBytes address count = m'.readBytes address count :=
  readBytes_shift fun i hi => h (address + i) (by omega) (by omega)

theorem take_readBytes (m : Memory) (address : Nat) {count k : Nat} (hk : k ≤ count) :
    (m.readBytes address count).take k = m.readBytes address k := by
  unfold readBytes
  rw [← List.map_take, List.take_range, Nat.min_eq_left hk]

theorem readBytes_eq_replicate {m : Memory} {address count : Nat} {byte : UInt8}
    (h : ∀ i, i < count → m.read (address + i) = byte) :
    m.readBytes address count = List.replicate count byte := by
  apply List.eq_replicate_iff.2
  refine ⟨length_readBytes m address count, ?_⟩
  intro b hb
  obtain ⟨i, hi, rfl⟩ := List.mem_map.1 hb
  exact h i (List.mem_range.1 hi)

theorem readBytes_add (m : Memory) (address j k : Nat) :
    m.readBytes address (j + k) = m.readBytes address j ++ m.readBytes (address + j) k := by
  simp [readBytes, List.range_add, Nat.add_assoc]

theorem read_writeBytes (m : Memory) (address : Nat) (bytes : List UInt8) (a : Nat) :
    (m.writeBytes address bytes).read a =
      if address ≤ a then bytes[a - address]?.getD (m.read a) else m.read a := by
  induction bytes generalizing m address with
  | nil => simp [writeBytes]
  | cons byte rest ih =>
      rw [writeBytes, ih]
      by_cases h : a = address
      · have : ¬ address + 1 ≤ address := by omega
        simp [h, this]
      · by_cases hle : address + 1 ≤ a
        · have hle' : address ≤ a := by omega
          have hsub : a - address = a - (address + 1) + 1 := by omega
          simp [hle, hle', hsub, read_write_of_ne h]
        · have hle' : ¬ address ≤ a := by omega
          simp [hle, hle', read_write_of_ne h]

theorem read_writeBytes_of_outside {m : Memory} {address a : Nat} {bytes : List UInt8}
    (h : a < address ∨ address + bytes.length ≤ a) :
    (m.writeBytes address bytes).read a = m.read a := by
  rw [read_writeBytes]
  split
  · rw [List.getElem?_eq_none (by omega)]
    rfl
  · rfl

theorem readBytes_writeBytes (m : Memory) (address : Nat) (bytes : List UInt8) :
    (m.writeBytes address bytes).readBytes address bytes.length = bytes := by
  apply List.ext_getElem (by simp)
  intro i h1 h2
  simp [readBytes, read_writeBytes, List.getElem?_eq_getElem h2]

theorem read_copy (m : Memory) (source target count a : Nat) :
    (m.copy source target count).read a =
      if target ≤ a ∧ a < target + count then m.read (source + (a - target)) else m.read a := by
  unfold copy
  rw [read_writeBytes]
  by_cases hlow : target ≤ a
  · by_cases hhigh : a < target + count
    · have hlt : a - target < count := by omega
      simp [hlow, hhigh, readBytes, hlt]
    · have hle : count ≤ a - target := by omega
      simp [hlow, hhigh, readBytes, hle]
  · simp [hlow]

theorem read_fill (m : Memory) (address count : Nat) (byte : UInt8) (a : Nat) :
    (m.fill address count byte).read a =
      if address ≤ a ∧ a < address + count then byte else m.read a := by
  induction count generalizing m address with
  | zero =>
      rw [fill, if_neg (by omega)]
  | succ count ih =>
      rw [fill, ih]
      by_cases h : a = address
      · subst h
        rw [if_neg (by omega), if_pos (by omega), read_write_self]
      · rw [read_write_of_ne h]
        by_cases hin : address + 1 ≤ a ∧ a < address + 1 + count
        · rw [if_pos hin, if_pos (by omega)]
        · rw [if_neg hin, if_neg (by omega)]

end Memory

end EarlyBoot
