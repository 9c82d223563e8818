import EarlyBoot.Proofs.Slab.Slots

/-!
# Layout of a slab

The number of slots is found with a bitmap for all slots that the region could
have, but the slots are placed behind the smaller bitmap of those that are left.
Rounding up is monotone, so they fit all the same; and as they fit, no sum and
no product on the way leaves the range of a word.  From then on a slot and its
address determine each other, and every other address is foreign.
-/

namespace EarlyBoot

namespace Word

variable {n unit : Nat}

def divCeil? (n unit : Nat) : Option Nat :=
  if n % unit = 0 then some (n / unit) else add? (n / unit) 1

theorem divCeil?_eq (hunit : 0 < unit) (hn : n < limit) :
    divCeil? n unit = some ((n + (unit - 1)) / unit) := by
  have hdiv := Nat.div_add_mod n unit
  have hmod := Nat.mod_lt n hunit
  unfold divCeil?
  split
  next hexact =>
    have hlast : unit - 1 < unit := by omega
    have hsum : n + (unit - 1) = unit * (n / unit) + (unit - 1) := by omega
    have hround : (n + (unit - 1)) / unit = n / unit := by
      rw [hsum, Nat.mul_add_div hunit, Nat.div_eq_of_lt hlast, Nat.add_zero]
    rw [hround]
  next hrest =>
    have hlast : n % unit - 1 < unit := by omega
    have hsum : n + (unit - 1) = unit * (n / unit + 1) + (n % unit - 1) := by
      rw [Nat.mul_succ]
      omega
    have hround : (n + (unit - 1)) / unit = n / unit + 1 := by
      rw [hsum, Nat.mul_add_div hunit, Nat.div_eq_of_lt hlast, Nat.add_zero]
    have hle : n / unit ≤ unit * (n / unit) := Nat.le_mul_of_pos_left _ hunit
    exact add?_eq_some.2 ⟨hround, by omega⟩

end Word

namespace Slab

variable {slab : Slab} {m m' : Memory} {start size object address i : Nat}

/-- The number of slots, or nothing if a step leaves the range of a word. -/
def slotCount? (size objectSize : Nat) : Option Nat := do
  let entries := size / objectSize
  let bytes ← Word.divCeil? entries 8
  let overhead ← Word.add? headerSize bytes
  let lost ← Word.divCeil? overhead objectSize
  pure (entries - lost)

def overhead? (slab : Slab) (m : Memory) : Option Nat := do
  let front ← Word.add? headerSize (slab.bitmapSize m)
  Word.roundUp? front (slab.objectSize m)

def place? (slab : Slab) (m : Memory) (index : Nat) : Option Nat := do
  let overhead ← slab.overhead? m
  let distance ← Word.mul? index (slab.objectSize m)
  let offset ← Word.add? overhead distance
  Word.add? slab.base offset

theorem slotCount?_eq (hobject : object ≠ 0) (hsize : size < Word.limit) :
    slotCount? size object = some (slotCount size object) := by
  have hentries : size / object ≤ size := Nat.div_le_self size object
  have hbytes : Word.divCeil? (size / object) 8 = some (Bitmap.byteLength (size / object)) :=
    Word.divCeil?_eq (by decide) (by omega)
  have hoverhead : headerSize + Bitmap.byteLength (size / object) < Word.limit := by
    unfold headerSize Bitmap.byteLength Word.limit at *
    omega
  have hlost := Word.divCeil?_eq (Nat.pos_of_ne_zero hobject) hoverhead
  unfold slotCount?
  simp only [hbytes, Word.add?_eq_some.2 ⟨rfl, hoverhead⟩, hlost, Option.bind_eq_bind,
    Option.bind_some]
  rfl

/-! ## A new slab -/

/-- How a slab lies in its region when it is new; `m` is the memory before. -/
structure LaidOut (slab : Slab) (size object : Nat) (m m' : Memory) : Prop where
  objectSize_eq : slab.objectSize m' = object
  capacity_eq : slotCount? size object = some (slab.capacity m')
  bitmapSize_eq : Word.divCeil? (slab.capacity m') 8 = some (slab.bitmapSize m')
  overhead_eq : slab.overhead? m' = some (slab.overhead m')
  place_eq : ∀ i < slab.capacity m', slab.place? m' i = slab.slotAddress? m' i
  front_le : headerSize + slab.bitmapSize m' ≤ slab.overhead m'
  dvd_overhead : object ∣ slab.overhead m'
  slots_le : slab.overhead m' + slab.capacity m' * object ≤ size
  capacity_pos : 1 ≤ slab.capacity m'
  capacity_le : slab.capacity m' ≤ 8 * slab.bitmapSize m'
  clear : ∀ i < slab.capacity m', (slab.bitmap m').get? i = some false
  elsewhere : ∀ a, a < slab.base ∨ slab.base + (headerSize + slab.bitmapSize m') ≤ a →
    m'.read a = m.read a

theorem Ready.overhead?_eq (hr : slab.Ready m) (hword : slab.overhead m < Word.limit) :
    slab.overhead? m = some (slab.overhead m) := by
  have hround := Word.le_roundUp (n := headerSize + slab.bitmapSize m) hr.objectSize_pos
  have hfront : headerSize + slab.bitmapSize m < Word.limit := Nat.lt_of_le_of_lt hround hword
  unfold overhead?
  rw [Word.add?_eq_some.2 ⟨rfl, hfront⟩, Option.bind_eq_bind, Option.bind_some]
  exact if_pos hword

theorem Ready.place?_eq (hr : slab.Ready m) (hword : slab.slotAddress m i < Word.limit) :
    slab.place? m i = some (slab.slotAddress m i) := by
  have hplace : slab.slotAddress m i =
      slab.base + (slab.overhead m + i * slab.objectSize m) := Nat.add_assoc _ _ _
  have hoffset : slab.overhead m + i * slab.objectSize m < Word.limit := by omega
  have hdistance : i * slab.objectSize m < Word.limit := by omega
  unfold place?
  rw [hr.overhead?_eq (by omega), Option.bind_eq_bind, Option.bind_some,
    Word.mul?_eq_some.2 ⟨rfl, hdistance⟩, Option.bind_some,
    Word.add?_eq_some.2 ⟨rfl, hoffset⟩, Option.bind_some]
  exact Word.add?_eq_some.2 ⟨hplace, hword⟩

theorem slotAddress_add_le_stop
    (hfit : slab.overhead m + slab.capacity m * slab.objectSize m ≤ size)
    (hi : i < slab.capacity m) : slab.slotAddress m i + slab.objectSize m ≤ slab.base + size := by
  have hend := slotAddress_add_le slab m hi
  rw [slotAddress.eq_def slab m (slab.capacity m)] at hend
  omega

theorem Ready.get?_of_not_taken (hr : slab.Ready m) (hi : i < slab.capacity m)
    (hfree : i ∉ slab.taken m) : (slab.bitmap m).get? i = some false := by
  obtain ⟨byte, hbyte⟩ := Bitmap.exists_byte (Nat.lt_of_lt_of_le hi hr.capacity_le)
  rw [mem_taken, and_iff_right hi, Bitmap.has_of_byte hbyte, Bool.not_eq_true] at hfree
  rw [Bitmap.get?_of_byte hbyte, hfree]

theorem laidOut_of_init (hregion : start + size ≤ Word.limit)
    (hinit : init start size object m = .ok slab m') : slab.LaidOut size object m m' := by
  obtain ⟨hobject, hstart, hcount, -, hm'⟩ := init_eq_ok hinit
  obtain ⟨rfl, hready, hsize, hcapacity, hempty, hfit⟩ := init_spec hregion hinit
  have hpos : 0 < capacity ⟨start⟩ m' := by omega
  have hmany : capacity ⟨start⟩ m' ≤ capacity ⟨start⟩ m' * objectSize ⟨start⟩ m' :=
    Nat.le_mul_of_pos_right _ hready.objectSize_pos
  -- every sum behind a place stays in the word range
  have hword : ∀ i < capacity ⟨start⟩ m', slotAddress ⟨start⟩ m' i < Word.limit := by
    intro i hi
    have hend := slotAddress_add_le_stop hfit hi
    have := hready.objectSize_pos
    simp only at hend
    omega
  have hoverhead : overhead ⟨start⟩ m' < Word.limit := by omega
  constructor
  · exact hsize
  · rw [hcapacity]
    exact slotCount?_eq hobject (by omega)
  · rw [hready.bitmapSize_eq]
    exact Word.divCeil?_eq (by decide) (by omega)
  · exact hready.overhead?_eq hoverhead
  · intro i hi
    rw [hready.place?_eq (hword i hi)]
    exact (slotAddress?_eq_some.2 ⟨hi, rfl⟩).symm
  · exact Word.le_roundUp hready.objectSize_pos
  · exact Nat.dvd_of_mod_eq_zero (hsize ▸ Word.roundUp_mod _ _)
  · rwa [hsize] at hfit
  · exact hpos
  · rw [hready.bitmapSize_eq, Bitmap.byteLength]
    omega
  · intro i hi
    exact hready.get?_of_not_taken hi (by simp [hempty])
  · intro a ha
    rw [hready.bitmapSize_eq, hcapacity] at ha
    have hheader : headerSize = 24 := rfl
    dsimp only at ha
    rw [hm', Memory.read_fill, if_neg (by omega), Memory.read_writeWord_of_outside (by omega),
      Memory.read_writeWord_of_outside (by omega), Memory.read_writeWord_of_outside (by omega)]

theorem init_cases (start size object : Nat) (m : Memory) :
    (∃ error, init start size object m = .error error m) ∧
        (object = 0 ∨ start = 0 ∨ start % 8 ≠ 0 ∨ slotCount size object = 0) ∨
      (∃ slab m', init start size object m = .ok slab m') ∧
        object ≠ 0 ∧ start ≠ 0 ∧ start % 8 = 0 ∧ slotCount size object ≠ 0 := by
  unfold init
  split
  next hobject => exact .inl ⟨⟨_, rfl⟩, .inl hobject⟩
  next hobject =>
    split
    next hstart => exact .inl ⟨⟨_, rfl⟩, .inr (hstart.imp id .inl)⟩
    next hstart =>
      obtain ⟨hnull, haligned⟩ := not_or.1 hstart
      dsimp only
      split
      next hcount => exact .inl ⟨⟨_, rfl⟩, .inr (.inr (.inr hcount))⟩
      next hcount => exact .inr ⟨⟨_, _, rfl⟩, hobject, hnull, not_not.1 haligned, hcount⟩

/--
Laying out a slab succeeds exactly if the start is aligned and the region has
room for a slot behind the bookkeeping.  Then header, bitmap and slots lie one
after another inside the region, with a clear bit for every slot; otherwise
nothing is written.  Either way no step of the arithmetic leaves the range of a
word.
-/
theorem init_lays_out {start size object : Nat} (hregion : start + size ≤ Word.limit)
    (m : Memory) :
    (start ≠ 0 → object ≠ 0 → slotCount? size object = some (slotCount size object)) ∧
      (∀ error m', init start size object m = .error error m' → m' = m) ∧
      ((∃ slab m', init start size object m = .ok slab m') ↔
        object ≠ 0 ∧ start ≠ 0 ∧ start % 8 = 0 ∧ slotCount size object ≠ 0) ∧
      ∀ slab m', init start size object m = .ok slab m' →
        slab.base = start ∧ slab.LaidOut size object m m' := by
  have hcases := init_cases start size object m
  refine ⟨fun hstart hobject => slotCount?_eq hobject (by omega), ?_, ?_, ?_⟩
  · intro error m' hfail
    rcases hcases with ⟨⟨error', hfail'⟩, -⟩ | ⟨⟨slab, m₁, hok⟩, -⟩
    · rw [hfail] at hfail'
      cases hfail'
      rfl
    · rw [hfail] at hok
      cases hok
  · rcases hcases with ⟨⟨error, hfail⟩, hbad⟩ | ⟨hok, hgood⟩
    · refine iff_of_false ?_ ?_
      · rintro ⟨slab, m', hok⟩
        rw [hfail] at hok
        cases hok
      · tauto
    · exact iff_of_true hok hgood
  · intro slab m' hok
    obtain ⟨-, -, -, rfl, -⟩ := init_eq_ok hok
    exact ⟨rfl, laidOut_of_init hregion hok⟩

def packed : Memory :=
  ((((Memory.filled 64 100 0x11).writeWord 64 3).writeWord 72 23).writeWord 80 3).fill 88 3 0

theorem init_packed : init 64 100 3 (Memory.filled 64 100 0x11) = .ok ⟨64⟩ packed := rfl

theorem laid_out_without_padding :
    let slab : Slab := ⟨64⟩
    64 + 100 ≤ Word.limit ∧ slab.LaidOut 100 3 (Memory.filled 64 100 0x11) packed ∧
      slab.capacity packed = 23 ∧ slab.bitmapSize packed = 3 ∧ slab.overhead packed = 27 := by
  intro slab
  obtain ⟨-, -, -, hlaid⟩ := @init_lays_out 64 100 3 (by decide) (Memory.filled 64 100 0x11)
  exact ⟨by decide, (hlaid slab packed init_packed).2, by decide +kernel, by decide +kernel,
    by decide +kernel⟩

/-! ## Slots and addresses -/

theorem Ready.slotIndex_eq_ok (hr : slab.Ready m) :
    slab.slotIndex m address = .ok i ↔ slab.slotAddress? m i = some address := by
  rw [slotAddress?_eq_some]
  by_cases hslot : ∃ j < slab.capacity m, slab.slotAddress m j = address
  · obtain ⟨j, hj, rfl⟩ := hslot
    rw [hr.slotIndex_slotAddress hj, hr.slotAddress_inj, Except.ok.injEq]
    constructor
    · rintro rfl
      exact ⟨hj, rfl⟩
    · exact fun h => h.2.symm
  · have hforeign : ∀ j < slab.capacity m, slab.slotAddress m j ≠ address :=
      fun j hj heq => hslot ⟨j, hj, heq⟩
    rw [slotIndex_foreign hforeign]
    exact iff_of_false (by simp) fun h => hforeign i h.1 h.2

theorem Ready.exists_slot_iff (hr : slab.Ready m) :
    (∃ i, slab.slotAddress? m i = some address) ↔
      slab.base + slab.overhead m ≤ address ∧
        slab.objectSize m ∣ address - (slab.base + slab.overhead m) ∧
        address < slab.base + slab.overhead m + slab.capacity m * slab.objectSize m := by
  constructor
  · rintro ⟨i, hplace⟩
    obtain ⟨hi, rfl⟩ := slotAddress?_eq_some.1 hplace
    have hlt : i * slab.objectSize m < slab.capacity m * slab.objectSize m :=
      Nat.mul_lt_mul_of_pos_right hi hr.objectSize_pos
    unfold slotAddress
    refine ⟨Nat.le_add_right _ _, ?_, by omega⟩
    rw [Nat.add_sub_cancel_left]
    exact Nat.dvd_mul_left _ _
  · rintro ⟨hlow, ⟨i, hi⟩, hhigh⟩
    rw [Nat.mul_comm] at hi
    have hlt : i < slab.capacity m := by
      apply Nat.lt_of_mul_lt_mul_right (a := slab.objectSize m)
      omega
    refine ⟨i, slotAddress?_eq_some.2 ⟨hlt, ?_⟩⟩
    unfold slotAddress
    omega

theorem Ready.slotIndex_eq_foreign (hr : slab.Ready m) :
    slab.slotIndex m address = .error (.foreignAddress address) ↔
      ∀ i, slab.slotAddress? m i ≠ some address := by
  constructor
  · intro hforeign i hplace
    rw [hr.slotIndex_eq_ok.2 hplace] at hforeign
    cases hforeign
  · intro hnone
    exact slotIndex_foreign fun i hi heq => hnone i (slotAddress?_eq_some.2 ⟨hi, heq⟩)

/--
Slots and their addresses determine each other, for as long as the header is the
one that was laid out.  Each slot has an address, a word other than null, and
every address that is none of these is foreign: it lies in front of slot 0,
between the starts of two slots, or behind the last slot.
-/
theorem slots_and_addresses_inverse {start size object : Nat} {m₀ m m' : Memory} {slab : Slab}
    (hregion : start + size ≤ Word.limit) (hinit : init start size object m₀ = .ok slab m)
    (hsame : slab.SameHeader m m') :
    (∀ i, (∃ a, slab.slotAddress? m' i = some a) ↔ i < slab.capacity m') ∧
      (∀ i a, slab.slotAddress? m' i = some a ↔ slab.slotIndex m' a = .ok i) ∧
      (∀ i a, slab.slotAddress? m' i = some a → a ≠ 0 ∧ a + object ≤ start + size) ∧
      ∀ a, ((∀ i, slab.slotAddress? m' i ≠ some a) ↔
          slab.slotIndex m' a = .error (.foreignAddress a)) ∧
        (slab.slotIndex m' a = .error (.foreignAddress a) ↔
          a < start + slab.overhead m' ∨ ¬ object ∣ a - (start + slab.overhead m') ∨
            start + slab.overhead m' + slab.capacity m' * object ≤ a) := by
  obtain ⟨-, hstart, -⟩ := init_eq_ok hinit
  obtain ⟨rfl, hready, hobject, -, -, hfit⟩ := init_spec hregion hinit
  have hr : Ready ⟨start⟩ m' := hsame.ready hready
  have hsize : objectSize ⟨start⟩ m' = object := hsame.objectSize_eq.trans hobject
  refine ⟨fun i => ?_, fun i a => hr.slotIndex_eq_ok.symm, fun i a hplace => ?_,
    fun a => ⟨hr.slotIndex_eq_foreign.symm, ?_⟩⟩
  · constructor
    · rintro ⟨a, hplace⟩
      exact (slotAddress?_eq_some.1 hplace).1
    · exact fun hi => ⟨_, slotAddress?_eq_some.2 ⟨hi, rfl⟩⟩
  · obtain ⟨hi, rfl⟩ := slotAddress?_eq_some.1 hplace
    rw [hsame.capacity_eq] at hi
    have hend := slotAddress_add_le_stop hfit hi
    rw [hobject] at hend
    rw [hsame.slotAddress_eq]
    refine ⟨?_, hend⟩
    unfold slotAddress
    dsimp only
    omega
  · rw [hr.slotIndex_eq_foreign, ← not_exists, hr.exists_slot_iff, hsize]
    rw [not_and_or, not_and_or, Nat.not_le, Nat.not_lt]

theorem inverse_behind_write :
    let slab : Slab := ⟨64⟩
    let m := packed.writeBytes 157 [1, 2, 3]
    slab.SameHeader packed m ∧ slab.slotAddress? m 22 = some 157 ∧ slab.slotIndex m 157 = .ok 22 ∧
      slab.slotIndex m 95 = .error (.foreignAddress 95) ∧ ∀ i, slab.slotAddress? m i ≠ some 160 := by
  intro slab m
  have hsame : slab.SameHeader packed m := by
    intro a _ hhigh
    have hend : a < 88 := hhigh
    exact Memory.read_writeBytes_of_outside (.inl (by omega))
  obtain ⟨-, hinverse, -, hforeign⟩ :=
    slots_and_addresses_inverse (by decide) init_packed hsame
  have hplace : slab.slotAddress? m 22 = some 157 := by decide +kernel
  refine ⟨hsame, hplace, (hinverse 22 157).1 hplace, ?_, ?_⟩
  · exact (hforeign 95).2.2 (.inr (.inl (by decide +kernel)))
  · exact (hforeign 160).1.2 (by decide +kernel)

end Slab

end EarlyBoot
