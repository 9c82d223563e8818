import EarlyBoot.Memory.Word

/-!
# Block headers

A block starts with four words: a tag that says whether the block is free, the
size of its payload, and the offsets of the previous and the next block.  Only
two tags make a header; an erased header has tag zero.
-/

namespace EarlyBoot

def headerSize : Nat := 32

def freeTag : Nat := 0x4652_4545_424c_4f4b

def usedTag : Nat := 0x5553_4544_424c_4f4b

def noLink : Nat := 0xffff_ffff_ffff_ffff

structure Header where
  free : Bool
  size : Nat
  previous : Option Nat
  next : Option Nat
  deriving DecidableEq, Repr

namespace Header

def encodeLink : Option Nat → Nat
  | none => noLink
  | some offset => offset

def decodeLink (word : Nat) : Option Nat :=
  if word = noLink then none else some word

def tag (header : Header) : Nat := if header.free then freeTag else usedTag

def read? (m : Memory) (address : Nat) : Option Header :=
  let tag := m.readWord address
  if tag = freeTag ∨ tag = usedTag then
    some
      { free := tag = freeTag
        size := m.readWord (address + 8)
        previous := decodeLink (m.readWord (address + 16))
        next := decodeLink (m.readWord (address + 24)) }
  else none

def write (m : Memory) (address : Nat) (header : Header) : Memory :=
  (((m.writeWord address header.tag).writeWord (address + 8) header.size).writeWord
    (address + 16) (encodeLink header.previous)).writeWord
    (address + 24) (encodeLink header.next)

def erase (m : Memory) (address : Nat) : Memory :=
  (((m.writeWord address 0).writeWord (address + 8) 0).writeWord
    (address + 16) 0).writeWord (address + 24) 0

/-- Every field fits the word it is stored in. -/
structure Storable (header : Header) : Prop where
  size_lt : header.size < Word.limit
  previous_lt : ∀ offset ∈ header.previous, offset < noLink
  next_lt : ∀ offset ∈ header.next, offset < noLink

theorem read?_eq_some {m : Memory} {address : Nat} {header : Header} :
    read? m address = some header ↔
      (m.readWord address = freeTag ∨ m.readWord address = usedTag) ∧
        header = ⟨m.readWord address = freeTag, m.readWord (address + 8),
          decodeLink (m.readWord (address + 16)), decodeLink (m.readWord (address + 24))⟩ := by
  unfold read?
  dsimp only
  split
  · rename_i htag
    simp only [Option.some.injEq, htag, true_and]
    exact eq_comm
  · rename_i htag
    simp [htag]

theorem decodeLink_encodeLink {link : Option Nat} (h : ∀ offset ∈ link, offset < noLink) :
    decodeLink (encodeLink link) = link := by
  cases link with
  | none => simp [encodeLink, decodeLink]
  | some offset =>
      have hne : offset ≠ noLink := Nat.ne_of_lt (h offset rfl)
      simp [encodeLink, decodeLink, hne]

theorem encodeLink_lt {link : Option Nat} (h : ∀ offset ∈ link, offset < noLink) :
    encodeLink link < Word.limit := by
  cases link with
  | none => simp [encodeLink, noLink, Word.limit]
  | some offset =>
      have hlt : offset < noLink := h offset rfl
      exact Nat.lt_trans hlt (by decide)

theorem tag_valid (header : Header) : header.tag = freeTag ∨ header.tag = usedTag := by
  unfold tag
  split <;> simp

theorem tag_lt (header : Header) : header.tag < Word.limit := by
  unfold tag
  split <;> decide

theorem read_write_of_outside {m : Memory} {address a : Nat} {header : Header}
    (h : a < address ∨ address + headerSize ≤ a) :
    (header.write m address).read a = m.read a := by
  unfold headerSize at h
  unfold write
  rw [Memory.read_writeWord_of_outside (by omega), Memory.read_writeWord_of_outside (by omega),
    Memory.read_writeWord_of_outside (by omega), Memory.read_writeWord_of_outside (by omega)]

theorem read_erase_of_outside {m : Memory} {address a : Nat}
    (h : a < address ∨ address + headerSize ≤ a) :
    (erase m address).read a = m.read a := by
  unfold headerSize at h
  unfold erase
  rw [Memory.read_writeWord_of_outside (by omega), Memory.read_writeWord_of_outside (by omega),
    Memory.read_writeWord_of_outside (by omega), Memory.read_writeWord_of_outside (by omega)]

theorem read_write_congr {m m' : Memory} {a : Nat} (h : m.read a = m'.read a) (address : Nat)
    (header : Header) : (header.write m address).read a = (header.write m' address).read a := by
  unfold write
  exact Memory.read_writeWord_congr (Memory.read_writeWord_congr (Memory.read_writeWord_congr
    (Memory.read_writeWord_congr h _ _) _ _) _ _) _ _

theorem read_erase_congr {m m' : Memory} {a : Nat} (h : m.read a = m'.read a) (address : Nat) :
    (erase m address).read a = (erase m' address).read a := by
  unfold erase
  exact Memory.read_writeWord_congr (Memory.read_writeWord_congr (Memory.read_writeWord_congr
    (Memory.read_writeWord_congr h _ _) _ _) _ _) _ _

theorem read_erase {m : Memory} {address a : Nat} (hlow : address ≤ a)
    (hhigh : a < address + headerSize) : (erase m address).read a = 0 := by
  unfold headerSize at hhigh
  unfold erase
  by_cases h24 : address + 24 ≤ a
  · rw [Memory.read_writeWord_zero h24 (by omega)]
  rw [Memory.read_writeWord_of_outside (by omega)]
  by_cases h16 : address + 16 ≤ a
  · rw [Memory.read_writeWord_zero h16 (by omega)]
  rw [Memory.read_writeWord_of_outside (by omega)]
  by_cases h8 : address + 8 ≤ a
  · rw [Memory.read_writeWord_zero h8 (by omega)]
  rw [Memory.read_writeWord_of_outside (by omega), Memory.read_writeWord_zero hlow (by omega)]

theorem readWord_write_of_outside {m : Memory} {address a : Nat} {header : Header}
    (h : a + 8 ≤ address ∨ address + headerSize ≤ a) :
    (header.write m address).readWord a = m.readWord a :=
  Memory.readWord_congr fun _ _ _ => read_write_of_outside (by omega)

theorem readWord_erase_of_outside {m : Memory} {address a : Nat}
    (h : a + 8 ≤ address ∨ address + headerSize ≤ a) :
    (erase m address).readWord a = m.readWord a :=
  Memory.readWord_congr fun _ _ _ => read_erase_of_outside (by omega)

theorem tag_write (m : Memory) (address : Nat) (header : Header) :
    (header.write m address).readWord address = header.tag := by
  unfold write
  rw [Memory.readWord_writeWord_of_disjoint (by omega),
    Memory.readWord_writeWord_of_disjoint (by omega),
    Memory.readWord_writeWord_of_disjoint (by omega),
    Memory.readWord_writeWord _ _ header.tag_lt]

theorem size_write {m : Memory} {address : Nat} {header : Header} (h : header.size < Word.limit) :
    (header.write m address).readWord (address + 8) = header.size := by
  unfold write
  rw [Memory.readWord_writeWord_of_disjoint (by omega),
    Memory.readWord_writeWord_of_disjoint (by omega), Memory.readWord_writeWord _ _ h]

theorem tag_erase (m : Memory) (address : Nat) : (erase m address).readWord address = 0 := by
  unfold erase
  rw [Memory.readWord_writeWord_of_disjoint (by omega),
    Memory.readWord_writeWord_of_disjoint (by omega),
    Memory.readWord_writeWord_of_disjoint (by omega),
    Memory.readWord_writeWord _ _ (by decide)]

theorem read?_write (m : Memory) (address : Nat) {header : Header} (h : header.Storable) :
    read? (header.write m address) address = some header := by
  have hprevious : (header.write m address).readWord (address + 16) =
      encodeLink header.previous := by
    unfold write
    rw [Memory.readWord_writeWord_of_disjoint (by omega),
      Memory.readWord_writeWord _ _ (encodeLink_lt h.previous_lt)]
  have hnext : (header.write m address).readWord (address + 24) = encodeLink header.next := by
    unfold write
    rw [Memory.readWord_writeWord _ _ (encodeLink_lt h.next_lt)]
  unfold read?
  simp only [tag_write, size_write h.size_lt, hprevious, hnext,
    decodeLink_encodeLink h.previous_lt, decodeLink_encodeLink h.next_lt]
  rw [if_pos header.tag_valid]
  obtain ⟨free, size, previous, next⟩ := header
  cases free <;> simp [tag, freeTag, usedTag]

theorem read?_congr {m m' : Memory} {address : Nat}
    (h : ∀ a, address ≤ a → a < address + headerSize → m.read a = m'.read a) :
    read? m address = read? m' address := by
  unfold headerSize at h
  have word : ∀ d, d + 8 ≤ 32 → m.readWord (address + d) = m'.readWord (address + d) :=
    fun d hd => Memory.readWord_congr fun a h1 h2 => h a (by omega) (by omega)
  have h0 := word 0 (by omega)
  rw [Nat.add_zero] at h0
  unfold read?
  rw [h0, word 8 (by omega), word 16 (by omega), word 24 (by omega)]

theorem decodeLink_inj {word word' : Nat} (heq : decodeLink word = decodeLink word') :
    word = word' := by
  unfold decodeLink at heq
  split at heq <;> split at heq <;> simp_all

/-- Headers that agree in all but their back links agree in all bytes but those of the link. -/
theorem read_eq_of_relinked {m m' : Memory} {address : Nat} {header : Header} {link : Option Nat}
    (hm : read? m address = some header)
    (hm' : read? m' address = some { header with previous := link }) {a : Nat}
    (hlow : address ≤ a) (hhigh : a < address + headerSize)
    (hapart : a < address + 16 ∨ address + 24 ≤ a) : m.read a = m'.read a := by
  obtain ⟨htag, rfl⟩ := read?_eq_some.1 hm
  obtain ⟨htag', heq⟩ := read?_eq_some.1 hm'
  rw [Header.mk.injEq] at heq
  obtain ⟨hfree, hsize, -, hnext⟩ := heq
  have hsame : m.readWord address = m'.readWord address := by
    by_cases hf : m.readWord address = freeTag
    · simp_all
    · have hu := htag.resolve_left hf
      simp_all
  unfold headerSize at hhigh
  rcases Nat.lt_or_ge a (address + 8) with h8 | h8
  · exact Memory.read_eq_of_readWord_eq hsame hlow h8
  rcases Nat.lt_or_ge a (address + 16) with h16 | h16
  · exact Memory.read_eq_of_readWord_eq hsize h8 h16
  · exact Memory.read_eq_of_readWord_eq (decodeLink_inj hnext) (by omega) (by omega)

theorem read_eq_of_read?_eq {m m' : Memory} {address : Nat} {header : Header}
    (hm : read? m address = some header) (hm' : read? m' address = some header) {a : Nat}
    (hlow : address ≤ a) (hhigh : a < address + headerSize) : m.read a = m'.read a := by
  by_cases hlink : address + 16 ≤ a ∧ a < address + 24
  · obtain ⟨-, rfl⟩ := read?_eq_some.1 hm
    obtain ⟨-, heq⟩ := read?_eq_some.1 hm'
    rw [Header.mk.injEq] at heq
    exact Memory.read_eq_of_readWord_eq (decodeLink_inj heq.2.2.1) hlink.1 (by omega)
  · exact read_eq_of_relinked hm hm' hlow hhigh (by omega)

end Header

end EarlyBoot
