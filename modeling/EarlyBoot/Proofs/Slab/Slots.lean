import EarlyBoot.Slab
import EarlyBoot.Proofs.Bitmap
import Mathlib.Data.Finset.Insert

/-!
# Slots of a slab

A new slab has its slots side by side behind the bitmap and inside the region.
What an operation does depends on the set of slots taken alone: an allocation
takes the least free slot, and a release frees the slot at exactly the given
address, each by changing one bit.
-/

namespace EarlyBoot.Slab

open MemoryM (bind_of_ok bind_of_error inspect_of_ok inspect_of_error)

variable {slab : Slab} {m m' : Memory} {start size object address i : Nat}

def taken (slab : Slab) (m : Memory) : Finset Nat :=
  (Finset.range (slab.capacity m)).filter (slab.bitmap m).Has

def slotAddress (slab : Slab) (m : Memory) (index : Nat) : Nat :=
  slab.base + slab.overhead m + index * slab.objectSize m

structure Ready (slab : Slab) (m : Memory) : Prop where
  objectSize_pos : 0 < slab.objectSize m
  bitmapSize_eq : slab.bitmapSize m = Bitmap.byteLength (slab.capacity m)

theorem mem_taken : i ∈ slab.taken m ↔ i < slab.capacity m ∧ (slab.bitmap m).Has i := by
  rw [taken, Finset.mem_filter, Finset.mem_range]

theorem slotAddress?_eq_some :
    slab.slotAddress? m i = some address ↔
      i < slab.capacity m ∧ slab.slotAddress m i = address := by
  unfold slotAddress? slotAddress
  split <;> simp_all

theorem byteLength_mono {n k : Nat} (h : n ≤ k) : Bitmap.byteLength n ≤ Bitmap.byteLength k := by
  unfold Bitmap.byteLength
  omega

theorem Ready.capacity_le (hr : slab.Ready m) : slab.capacity m ≤ (slab.bitmap m).capacity := by
  rw [Bitmap.capacity, bitmap, Memory.length_readBytes, hr.bitmapSize_eq, Bitmap.byteLength]
  omega

theorem roundUp_add_slots_le (hcount : slotCount size object ≠ 0) :
    Word.roundUp (headerSize + Bitmap.byteLength (slotCount size object)) object +
      slotCount size object * object ≤ size := by
  unfold slotCount at hcount ⊢
  simp only at hcount ⊢
  generalize hentries : size / object = entries at *
  generalize hlost : (headerSize + Bitmap.byteLength entries + (object - 1)) / object = lost at *
  have hentries_le : entries * object ≤ size := hentries ▸ Nat.div_mul_le_self size object
  have hfront : Word.roundUp (headerSize + Bitmap.byteLength (entries - lost)) object ≤
      lost * object := by
    have hbytes := byteLength_mono (Nat.sub_le entries lost)
    rw [Word.roundUp]
    apply Nat.mul_le_mul_right
    refine Nat.le_trans (Nat.div_le_div_right ?_) (Nat.le_of_eq hlost)
    omega
  have hsplit : entries * object = lost * object + (entries - lost) * object := by
    rw [← Nat.add_mul]
    congr 1
    omega
  omega

theorem Ready.bitmap_end_le (hr : slab.Ready m) (i : Nat) :
    slab.bitmapAddress + slab.bitmapSize m ≤ slab.slotAddress m i := by
  have hround := Word.le_roundUp (n := headerSize + slab.bitmapSize m) hr.objectSize_pos
  unfold bitmapAddress slotAddress overhead
  omega

theorem slotAddress_add_le (slab : Slab) (m : Memory) {j : Nat} (hlt : i < j) :
    slab.slotAddress m i + slab.objectSize m ≤ slab.slotAddress m j := by
  have hnext : (i + 1) * slab.objectSize m ≤ j * slab.objectSize m := Nat.mul_le_mul_right _ hlt
  rw [Nat.succ_mul] at hnext
  unfold slotAddress
  omega

theorem Ready.slotAddress_inj (hr : slab.Ready m) {j : Nat} :
    slab.slotAddress m i = slab.slotAddress m j ↔ i = j := by
  unfold slotAddress
  rw [Nat.add_left_cancel_iff, Nat.mul_right_cancel_iff hr.objectSize_pos]

theorem Ready.slotIndex_slotAddress (hr : slab.Ready m) (hi : i < slab.capacity m) :
    slab.slotIndex m (slab.slotAddress m i) = .ok i := by
  have hindex : (slab.slotAddress m i - (slab.base + slab.overhead m)) / slab.objectSize m = i := by
    rw [slotAddress, Nat.add_sub_cancel_left, Nat.mul_div_cancel _ hr.objectSize_pos]
  have hmod : (slab.slotAddress m i - (slab.base + slab.overhead m)) % slab.objectSize m = 0 := by
    rw [slotAddress, Nat.add_sub_cancel_left, Nat.mul_mod_left]
  have hfirst : slab.base + slab.overhead m ≤ slab.slotAddress m i := Nat.le_add_right _ _
  unfold slotIndex
  simp only [hindex, hmod]
  rw [if_pos ⟨hfirst, trivial, hi⟩]

theorem slotIndex_foreign (hforeign : ∀ i < slab.capacity m, slab.slotAddress m i ≠ address) :
    slab.slotIndex m address = .error (.foreignAddress address) := by
  unfold slotIndex
  simp only
  split
  · rename_i hslot
    obtain ⟨hfirst, hmod, hlt⟩ := hslot
    exfalso
    apply hforeign _ hlt
    unfold slotAddress
    have hdiv := Nat.div_add_mod (address - (slab.base + slab.overhead m)) (slab.objectSize m)
    rw [Nat.mul_comm] at hdiv
    omega
  · rfl

/-! ## What the header says -/

def SameHeader (slab : Slab) (m m' : Memory) : Prop :=
  ∀ a, slab.base ≤ a → a < slab.base + headerSize → m'.read a = m.read a

theorem SameHeader.trans {m'' : Memory} (h : slab.SameHeader m m') (h' : slab.SameHeader m' m'') :
    slab.SameHeader m m'' :=
  fun a hlow hhigh => (h' a hlow hhigh).trans (h a hlow hhigh)

theorem SameHeader.readWord_eq (h : slab.SameHeader m m') {k : Nat} (hk : k + 8 ≤ headerSize) :
    m'.readWord (slab.base + k) = m.readWord (slab.base + k) :=
  Memory.readWord_congr fun a hlow hhigh => h a (by omega) (by omega)

theorem SameHeader.objectSize_eq (h : slab.SameHeader m m') :
    slab.objectSize m' = slab.objectSize m :=
  h.readWord_eq (k := 0) (by decide)

theorem SameHeader.capacity_eq (h : slab.SameHeader m m') : slab.capacity m' = slab.capacity m :=
  h.readWord_eq (by decide)

theorem SameHeader.bitmapSize_eq (h : slab.SameHeader m m') :
    slab.bitmapSize m' = slab.bitmapSize m :=
  h.readWord_eq (by decide)

theorem SameHeader.ready (h : slab.SameHeader m m') (hr : slab.Ready m) : slab.Ready m' := by
  refine ⟨?_, ?_⟩
  · rw [h.objectSize_eq]
    exact hr.objectSize_pos
  · rw [h.bitmapSize_eq, h.capacity_eq]
    exact hr.bitmapSize_eq

theorem SameHeader.slotAddress_eq (h : slab.SameHeader m m') :
    slab.slotAddress m' = slab.slotAddress m := by
  funext i
  unfold slotAddress overhead
  rw [h.objectSize_eq, h.bitmapSize_eq]

theorem SameHeader.slotAddress?_eq (h : slab.SameHeader m m') :
    slab.slotAddress? m' = slab.slotAddress? m := by
  funext i
  apply Option.ext
  intro address
  rw [slotAddress?_eq_some, slotAddress?_eq_some, h.capacity_eq, h.slotAddress_eq]

theorem Ready.taken_of_write (hr : slab.Ready m) {bytes : List UInt8}
    (hlow : slab.slotAddress m i ≤ address) :
    slab.SameHeader m (m.writeBytes address bytes) ∧
      slab.taken (m.writeBytes address bytes) = slab.taken m := by
  have hend := hr.bitmap_end_le i
  have hbase : slab.bitmapAddress = slab.base + headerSize := rfl
  have hsame : slab.SameHeader m (m.writeBytes address bytes) := by
    intro a _ hhigh
    exact Memory.read_writeBytes_of_outside (.inl (by omega))
  have hbitmap : slab.bitmap (m.writeBytes address bytes) = slab.bitmap m := by
    unfold bitmap
    rw [hsame.bitmapSize_eq]
    congr 1
    apply Memory.readBytes_congr
    intro a _ hhigh
    exact Memory.read_writeBytes_of_outside (.inl (by omega))
  refine ⟨hsame, ?_⟩
  rw [taken, taken, hsame.capacity_eq, hbitmap]

theorem readBytes_write (m : Memory) (address count k : Nat) (byte : UInt8) :
    (m.write (address + k) byte).readBytes address count =
      (m.readBytes address count).set k byte := by
  apply List.ext_getElem (by simp)
  intro i _ _
  rw [List.getElem_set]
  simp only [Memory.readBytes, List.getElem_map, List.getElem_range]
  rw [Memory.read_write]
  by_cases hik : k = i
  · rw [if_pos hik, if_pos (by omega)]
  · rw [if_neg hik, if_neg (by omega)]

theorem bitmap_of_write (change : UInt8 → Nat → UInt8) {byte : UInt8}
    (hbyte : (slab.bitmap m).bytes[i / 8]? = some byte) :
    let m' := m.write (slab.bitmapAddress + i / 8) (change byte (i % 8))
    slab.SameHeader m m' ∧ (slab.bitmap m).update? i change = some (slab.bitmap m') := by
  intro m'
  have hsame : slab.SameHeader m m' := by
    intro a _ hhigh
    apply Memory.read_write_of_ne
    unfold bitmapAddress
    omega
  refine ⟨hsame, ?_⟩
  rw [Bitmap.update?, hbyte, Option.map_some, bitmap, bitmap, hsame.bitmapSize_eq,
    readBytes_write]

theorem taken_of_set {byte : UInt8} (hi : i < slab.capacity m)
    (hbyte : (slab.bitmap m).bytes[i / 8]? = some byte) :
    let m' := m.write (slab.bitmapAddress + i / 8) (Bitmap.setBit byte (i % 8))
    slab.SameHeader m m' ∧ slab.taken m' = insert i (slab.taken m) := by
  intro m'
  obtain ⟨hsame, hset⟩ := bitmap_of_write Bitmap.setBit hbyte
  refine ⟨hsame, ?_⟩
  ext j
  rw [Finset.mem_insert, mem_taken, mem_taken, hsame.capacity_eq, Bitmap.has_set? hset]
  by_cases hj : j = i
  · simp [hj, hi]
  · simp [hj]

theorem taken_of_clear {byte : UInt8} (hbyte : (slab.bitmap m).bytes[i / 8]? = some byte) :
    let m' := m.write (slab.bitmapAddress + i / 8) (Bitmap.clearBit byte (i % 8))
    slab.SameHeader m m' ∧ slab.taken m' = (slab.taken m).erase i := by
  intro m'
  obtain ⟨hsame, hclear⟩ := bitmap_of_write Bitmap.clearBit hbyte
  refine ⟨hsame, ?_⟩
  ext j
  rw [Finset.mem_erase, mem_taken, mem_taken, hsame.capacity_eq, Bitmap.has_clear? hclear]
  exact and_left_comm

/-! ## Operations -/

theorem Ready.allocate_cases (hr : slab.Ready m) :
    (∃ i m', i < slab.capacity m ∧ i ∉ slab.taken m ∧ (∀ j < i, j ∈ slab.taken m) ∧
      slab.allocate m = .ok (slab.slotAddress m i) m' ∧ slab.SameHeader m m' ∧
      slab.taken m' = insert i (slab.taken m)) ∨
    (∀ i < slab.capacity m, i ∈ slab.taken m) ∧ slab.allocate m = .error .full m := by
  have hsearch := Bitmap.firstClear_spec (slab.bitmap m) (slab.capacity m)
  rw [Nat.min_eq_left hr.capacity_le] at hsearch
  cases hfound : (slab.bitmap m).firstClear (slab.capacity m) with
  | none =>
      rw [hfound] at hsearch
      right
      have hnext : slab.nextFree m = .error .full := by simp only [nextFree, hfound]
      exact ⟨fun i hi => mem_taken.2 ⟨hi, hsearch i (Nat.zero_le i) hi⟩,
        bind_of_error (inspect_of_error hnext)⟩
  | some i =>
      rw [hfound] at hsearch
      obtain ⟨⟨-, hi⟩, hclear, hbelow⟩ := hsearch
      obtain ⟨byte, hbyte⟩ := Bitmap.exists_byte (Nat.lt_of_lt_of_le hi hr.capacity_le)
      obtain ⟨hsame, htaken⟩ := taken_of_set hi hbyte
      left
      have hnext : slab.nextFree m = .ok (slab.slotAddress m i, slab.bitmapAddress + i / 8,
          Bitmap.setBit byte (i % 8)) := by
        simp only [nextFree, hfound, hbyte, slotAddress?_eq_some.2 ⟨hi, rfl⟩]
      refine ⟨i, _, hi, ?_, ?_, bind_of_ok (inspect_of_ok hnext), hsame, htaken⟩
      · intro hmem
        exact hclear (mem_taken.1 hmem).2
      · intro j hj
        exact mem_taken.2 ⟨by omega, hbelow j (Nat.zero_le j) hj⟩

theorem Ready.takenSlot_slotAddress (hr : slab.Ready m) (hi : i < slab.capacity m) {byte : UInt8}
    (hbyte : (slab.bitmap m).bytes[i / 8]? = some byte) :
    slab.takenSlot m (slab.slotAddress m i) =
      if i ∈ slab.taken m then
        .ok (slab.bitmapAddress + i / 8, Bitmap.clearBit byte (i % 8))
      else .error (.doubleFree i) := by
  have hmem : i ∈ slab.taken m ↔ Bitmap.testBit byte (i % 8) = true := by
    rw [mem_taken, Bitmap.has_of_byte hbyte, and_iff_right hi]
  simp only [takenSlot, hr.slotIndex_slotAddress hi, bind, Except.bind,
    Bitmap.get?_of_byte hbyte, hbyte]
  cases hbit : Bitmap.testBit byte (i % 8) with
  | true => rw [if_pos (hmem.2 hbit)]; rfl
  | false => rw [if_neg (by simp [hmem, hbit])]; rfl

theorem Ready.release_taken (hr : slab.Ready m) (hi : i ∈ slab.taken m) :
    ∃ m', slab.release (slab.slotAddress m i) m = .ok () m' ∧ slab.SameHeader m m' ∧
      slab.taken m' = (slab.taken m).erase i := by
  have hlt := (mem_taken.1 hi).1
  obtain ⟨byte, hbyte⟩ := Bitmap.exists_byte (Nat.lt_of_lt_of_le hlt hr.capacity_le)
  obtain ⟨hsame, htaken⟩ := taken_of_clear hbyte
  have hslot := hr.takenSlot_slotAddress hlt hbyte
  rw [if_pos hi] at hslot
  exact ⟨_, bind_of_ok (inspect_of_ok hslot), hsame, htaken⟩

theorem Ready.release_free (hr : slab.Ready m) (hlt : i < slab.capacity m)
    (hi : i ∉ slab.taken m) :
    slab.release (slab.slotAddress m i) m = .error (.doubleFree i) m := by
  obtain ⟨byte, hbyte⟩ := Bitmap.exists_byte (Nat.lt_of_lt_of_le hlt hr.capacity_le)
  have hslot := hr.takenSlot_slotAddress hlt hbyte
  rw [if_neg hi] at hslot
  exact bind_of_error (inspect_of_error hslot)

theorem release_foreign (hforeign : ∀ i < slab.capacity m, slab.slotAddress m i ≠ address) :
    slab.release address m = .error (.foreignAddress address) m := by
  have hslot : slab.takenSlot m address = .error (.foreignAddress address) := by
    rw [takenSlot, slotIndex_foreign hforeign]
    rfl
  exact bind_of_error (inspect_of_error hslot)

theorem Ready.inUse_eq_card (hr : slab.Ready m) : slab.inUse m = (slab.taken m).card := by
  rw [inUse, Bitmap.countSet_eq_card, Nat.min_eq_left hr.capacity_le]
  rfl

theorem init_eq_ok (hinit : init start size object m = .ok slab m') :
    object ≠ 0 ∧ start ≠ 0 ∧ slotCount size object ≠ 0 ∧ slab = ⟨start⟩ ∧
      m' = (((m.writeWord start object).writeWord (start + 8) (slotCount size object)).writeWord
        (start + 16) (Bitmap.byteLength (slotCount size object))).fill (start + headerSize)
          (Bitmap.byteLength (slotCount size object)) 0 := by
  unfold init at hinit
  split at hinit
  · cases hinit
  rename_i hobject
  split at hinit
  · cases hinit
  rename_i hplace
  dsimp only at hinit
  split at hinit
  · cases hinit
  rename_i hcount
  cases hinit
  exact ⟨hobject, fun hzero => hplace (.inl hzero), hcount, rfl, rfl⟩

theorem readWord_of_header {start first second third count : Nat}
    (hm' : m' = (((m.writeWord start first).writeWord (start + 8) second).writeWord
      (start + 16) third).fill (start + headerSize) count 0)
    (hfirst : first < Word.limit) (hsecond : second < Word.limit) (hthird : third < Word.limit) :
    m'.readWord start = first ∧ m'.readWord (start + 8) = second ∧
      m'.readWord (start + 16) = third := by
  have hheader : headerSize = 24 := rfl
  have hfill : ∀ k, k + 8 ≤ headerSize → m'.readWord (start + k) =
      (((m.writeWord start first).writeWord (start + 8) second).writeWord
        (start + 16) third).readWord (start + k) := by
    intro k hk
    apply Memory.readWord_congr
    intro a _ hhigh
    rw [hm', Memory.read_fill, if_neg (by omega)]
  refine ⟨?_, ?_, ?_⟩
  · rw [← Nat.add_zero start, hfill 0 (by decide),
      Memory.readWord_writeWord_of_disjoint (by omega),
      Memory.readWord_writeWord_of_disjoint (by omega), Nat.add_zero,
      Memory.readWord_writeWord _ _ hfirst]
  · rw [hfill 8 (by decide), Memory.readWord_writeWord_of_disjoint (by omega),
      Memory.readWord_writeWord _ _ hsecond]
  · rw [hfill 16 (by decide), Memory.readWord_writeWord _ _ hthird]

theorem init_spec (hregion : start + size ≤ Word.limit)
    (hinit : init start size object m = .ok slab m') :
    slab = ⟨start⟩ ∧ slab.Ready m' ∧ slab.objectSize m' = object ∧
      slab.capacity m' = slotCount size object ∧ slab.taken m' = ∅ ∧
      slab.overhead m' + slab.capacity m' * slab.objectSize m' ≤ size := by
  obtain ⟨hobject, -, hcount, rfl, hm'⟩ := init_eq_ok hinit
  have hfit := roundUp_add_slots_le hcount
  generalize slotCount size object = count at *
  have hround := Word.le_roundUp (n := headerSize + Bitmap.byteLength count)
    (Nat.pos_of_ne_zero hobject)
  have hone : object ≤ count * object := Nat.le_mul_of_pos_left _ (Nat.pos_of_ne_zero hcount)
  have hmany : count ≤ count * object := Nat.le_mul_of_pos_right _ (Nat.pos_of_ne_zero hobject)
  have hheader : 0 < headerSize := by decide
  obtain ⟨hsize, hcapacity, hbitmap⟩ :=
    readWord_of_header hm' (by omega) (by omega) (by omega)
  have hsize : objectSize ⟨start⟩ m' = object := hsize
  have hcapacity : capacity ⟨start⟩ m' = count := hcapacity
  have hbitmap : bitmapSize ⟨start⟩ m' = Bitmap.byteLength count := hbitmap
  have hready : Ready ⟨start⟩ m' := by
    refine ⟨?_, ?_⟩
    · rw [hsize]
      exact Nat.pos_of_ne_zero hobject
    · rw [hbitmap, hcapacity]
  refine ⟨rfl, hready, hsize, hcapacity, ?_, ?_⟩
  · apply Finset.eq_empty_iff_forall_notMem.2
    intro i hi
    obtain ⟨hlt, hset⟩ := mem_taken.1 hi
    obtain ⟨byte, hbyte⟩ := Bitmap.exists_byte (Nat.lt_of_lt_of_le hlt hready.capacity_le)
    have hzero : byte = 0 := by
      obtain ⟨hplace, heq⟩ := List.getElem?_eq_some_iff.1 hbyte
      rw [bitmap, Memory.length_readBytes, hbitmap] at hplace
      simp only [bitmap, Memory.readBytes, List.getElem_map, List.getElem_range,
        bitmapAddress] at heq
      rw [← heq, hm', Memory.read_fill, if_pos (by omega)]
    rw [Bitmap.has_of_byte hbyte, hzero, Bitmap.testBit_zero (Nat.mod_lt i (by decide))] at hset
    cases hset
  · rw [overhead, hsize, hcapacity, hbitmap]
    exact hfit

end EarlyBoot.Slab
