import EarlyBoot.Bitmap
import Mathlib.Data.Nat.Count

/-!
# Bitmaps as sets

The entries of a bitmap behave as a set of numbers.  Changing an entry changes
that entry and no other, the search finds the least entry that is not set
although it skips full bytes, and the count is the number of set entries.
-/

namespace EarlyBoot.Bitmap

variable {byte : UInt8} {bit bit' : Nat}

theorem toBitVec_mask (hbit : bit < 8) : (mask bit).toBitVec = BitVec.twoPow 8 bit := by
  have hall : ∀ i : Fin 8, (mask i).toBitVec = BitVec.twoPow 8 i := by decide
  exact hall ⟨bit, hbit⟩

theorem testBit_eq_getLsbD (hbit : bit < 8) : testBit byte bit = byte.toBitVec.getLsbD bit := by
  have htwo : BitVec.twoPow 8 bit ≠ 0 := by
    intro hzero
    have hlsb := congrArg (·.getLsbD bit) hzero
    simp [hbit] at hlsb
  have hzero : (byte &&& mask bit = 0) ↔ byte.toBitVec.getLsbD bit = false := by
    rw [← UInt8.toBitVec_inj, UInt8.toBitVec_and, toBitVec_mask hbit, BitVec.and_twoPow]
    cases byte.toBitVec.getLsbD bit with
    | true => simpa using htwo
    | false => simp
  unfold testBit
  cases hget : byte.toBitVec.getLsbD bit with
  | true => simp [hzero, hget]
  | false => simp [hzero.2 hget]

theorem testBit_setBit (hbit : bit < 8) (hbit' : bit' < 8) :
    testBit (setBit byte bit) bit' = (decide (bit' = bit) || testBit byte bit') := by
  rw [testBit_eq_getLsbD hbit', testBit_eq_getLsbD hbit', setBit, UInt8.toBitVec_or,
    toBitVec_mask hbit]
  simp [hbit, eq_comm, Bool.or_comm]

theorem testBit_clearBit (hbit : bit < 8) (hbit' : bit' < 8) :
    testBit (clearBit byte bit) bit' = (!decide (bit' = bit) && testBit byte bit') := by
  rw [testBit_eq_getLsbD hbit', testBit_eq_getLsbD hbit', clearBit, UInt8.toBitVec_and,
    UInt8.toBitVec_not, toBitVec_mask hbit]
  simp [hbit', eq_comm, Bool.and_comm]

theorem testBit_full (hbit : bit < 8) : testBit 0xff bit = true := by
  have hall : ∀ i : Fin 8, testBit 0xff i = true := by decide
  exact hall ⟨bit, hbit⟩

theorem testBit_zero (hbit : bit < 8) : testBit 0 bit = false := by
  have hall : ∀ i : Fin 8, testBit 0 i = false := by decide
  exact hall ⟨bit, hbit⟩

variable {b b' : Bitmap} {rest : List UInt8} {entry i limit : Nat}

def Has (b : Bitmap) (i : Nat) : Prop := b.get? i = some true

instance (b : Bitmap) : DecidablePred b.Has := fun i =>
  inferInstanceAs (Decidable (b.get? i = some true))

theorem get?_of_byte (hbyte : b.bytes[i / 8]? = some byte) :
    b.get? i = some (testBit byte (i % 8)) := by
  rw [get?, hbyte]
  rfl

theorem has_of_byte (hbyte : b.bytes[i / 8]? = some byte) :
    b.Has i ↔ testBit byte (i % 8) = true := by
  rw [Has, get?_of_byte hbyte, Option.some_inj]

theorem exists_byte (hi : i < b.capacity) : ∃ byte, b.bytes[i / 8]? = some byte := by
  unfold capacity at hi
  exact ⟨_, List.getElem?_eq_getElem (by omega)⟩

theorem get?_update? {change : UInt8 → Nat → UInt8} {after : Bool → Bool}
    (hself : ∀ byte {bit}, bit < 8 → testBit (change byte bit) bit = after (testBit byte bit))
    (hother : ∀ byte {bit bit'}, bit < 8 → bit' < 8 → bit' ≠ bit →
      testBit (change byte bit) bit' = testBit byte bit')
    (hupdate : b.update? entry change = some b') (i : Nat) :
    b'.get? i = if i = entry then (b.get? i).map after else b.get? i := by
  obtain ⟨byte, hbyte, rfl⟩ := Option.map_eq_some_iff.1 hupdate
  have hlt := (List.getElem?_eq_some_iff.1 hbyte).1
  have hbit := Nat.mod_lt entry (by decide : 0 < 8)
  have hbit' := Nat.mod_lt i (by decide : 0 < 8)
  by_cases hsame : i / 8 = entry / 8
  · have hold : b.bytes[i / 8]? = some byte := hsame ▸ hbyte
    have hnew : (b.bytes.set (entry / 8) (change byte (entry % 8)))[i / 8]? =
        some (change byte (entry % 8)) := by
      rw [hsame, List.getElem?_set_self hlt]
    rw [get?_of_byte (b := ⟨_⟩) hnew, get?_of_byte hold]
    by_cases heq : i = entry
    · rw [if_pos heq, heq, hself byte hbit]
      rfl
    · rw [if_neg heq, hother byte hbit hbit' (by omega)]
  · have hne : i ≠ entry := fun heq => hsame (by rw [heq])
    rw [if_neg hne, get?, get?, List.getElem?_set_ne (Ne.symm hsame)]

theorem get?_set? (hset : b.set? entry = some b') (i : Nat) :
    b'.get? i = if i = entry then (b.get? i).map fun _ => true else b.get? i := by
  apply get?_update? _ _ hset
  · intro byte bit hbit
    simp [testBit_setBit hbit hbit]
  · intro byte bit bit' hbit hbit' hne
    simp [testBit_setBit hbit hbit', hne]

theorem get?_clear? (hclear : b.clear? entry = some b') (i : Nat) :
    b'.get? i = if i = entry then (b.get? i).map fun _ => false else b.get? i := by
  apply get?_update? _ _ hclear
  · intro byte bit hbit
    simp [testBit_clearBit hbit hbit]
  · intro byte bit bit' hbit hbit' hne
    simp [testBit_clearBit hbit hbit', hne]

theorem has_set? (hset : b.set? entry = some b') : b'.Has i ↔ i = entry ∨ b.Has i := by
  obtain ⟨byte, hbyte, -⟩ := Option.map_eq_some_iff.1 hset
  rw [Has, get?_set? hset]
  by_cases heq : i = entry
  · rw [if_pos heq, heq, get?_of_byte hbyte]
    exact iff_of_true rfl (.inl rfl)
  · rw [if_neg heq, or_iff_right heq]
    rfl

theorem has_clear? (hclear : b.clear? entry = some b') : b'.Has i ↔ i ≠ entry ∧ b.Has i := by
  obtain ⟨byte, hbyte, -⟩ := Option.map_eq_some_iff.1 hclear
  rw [Has, get?_clear? hclear]
  by_cases heq : i = entry
  · rw [if_pos heq, heq, get?_of_byte hbyte]
    exact iff_of_false (by simp) fun h => h.1 rfl
  · rw [if_neg heq, and_iff_right heq]
    rfl

theorem has_head (hi : i < 8) : Has ⟨byte :: rest⟩ i ↔ testBit byte i = true := by
  have hbyte : (byte :: rest)[i / 8]? = some byte := by rw [Nat.div_eq_of_lt hi]; rfl
  rw [has_of_byte (b := ⟨_⟩) hbyte, Nat.mod_eq_of_lt hi]

theorem has_tail : Has ⟨byte :: rest⟩ (i + 8) ↔ Has ⟨rest⟩ i := by
  simp [Has, get?]

/-- What is found is the least number from `start` on and below `stop` that is not in `p`. -/
def LeastOutside (p : Nat → Prop) (start stop : Nat) : Option Nat → Prop
  | none => ∀ i, start ≤ i → i < stop → p i
  | some i => (start ≤ i ∧ i < stop) ∧ ¬ p i ∧ ∀ j, start ≤ j → j < i → p j

theorem LeastOutside.skip {p : Nat → Prop} {start middle stop : Nat} {found : Option Nat}
    (hle : start ≤ middle) (hskipped : ∀ i, start ≤ i → i < middle → i < stop → p i)
    (hfound : LeastOutside p middle stop found) : LeastOutside p start stop found := by
  cases found with
  | none =>
      intro i hlow hhigh
      by_cases hi : i < middle
      · exact hskipped i hlow hi hhigh
      · exact hfound i (by omega) hhigh
  | some i =>
      obtain ⟨⟨hlow, hhigh⟩, hnot, hbelow⟩ := hfound
      refine ⟨⟨by omega, hhigh⟩, hnot, ?_⟩
      intro j hj hlt
      by_cases hmiddle : j < middle
      · exact hskipped j hj hmiddle (by omega)
      · exact hbelow j (by omega) hlt

theorem firstClearBit_spec (byte : UInt8) (bit count : Nat) :
    LeastOutside (testBit byte · = true) bit (bit + count) (firstClearBit byte bit count) := by
  induction count generalizing bit with
  | zero =>
      intro i hlow hhigh
      omega
  | succ count ih =>
      rw [firstClearBit]
      split
      · rename_i hset
        have hrest := ih (bit + 1)
        rw [Nat.add_right_comm] at hrest
        apply hrest.skip (Nat.le_succ bit)
        intro i hlow hhigh _
        rwa [show i = bit by omega]
      · rename_i hclear
        refine ⟨⟨Nat.le_refl _, by omega⟩, hclear, ?_⟩
        intro j hlow hhigh
        omega

theorem firstClearFrom_spec {p : Nat → Prop} {bytes : List UInt8}
    (hp : ∀ i, Has ⟨bytes⟩ i ↔ p (entry + i)) (limit : Nat) :
    LeastOutside p entry (min limit (entry + 8 * bytes.length))
      (firstClearFrom limit entry bytes) := by
  induction bytes generalizing entry with
  | nil =>
      intro i hlow hhigh
      simp only [List.length_nil] at hhigh
      omega
  | cons byte rest ih =>
      have htail : ∀ i, Has ⟨rest⟩ i ↔ p (entry + 8 + i) := by
        intro i
        rw [← has_tail, hp, Nat.add_assoc, Nat.add_comm i 8]
      have hrest := ih htail
      have hstop : entry + 8 + 8 * rest.length = entry + 8 * (byte :: rest).length := by
        rw [List.length_cons]
        omega
      rw [hstop] at hrest
      have hhead : ∀ i, entry ≤ i → i < entry + 8 → (p i ↔ testBit byte (i - entry) = true) := by
        intro i hlow hhigh
        have hset : Has ⟨byte :: rest⟩ (i - entry) ↔ testBit byte (i - entry) = true :=
          has_head (by omega)
        rw [← hset, hp, Nat.add_sub_cancel' hlow]
      rw [firstClearFrom]
      split
      · intro i hlow hhigh
        omega
      split
      · -- all entries of this byte are set
        rename_i hfull
        apply hrest.skip (Nat.le_add_right entry 8)
        intro i hlow hhigh _
        rw [hhead i hlow hhigh, hfull]
        exact testBit_full (by omega)
      · have hbits := firstClearBit_spec byte 0 (min 8 (limit - entry))
        cases hfound : firstClearBit byte 0 (min 8 (limit - entry)) with
        | none =>
            rw [hfound] at hbits
            apply hrest.skip (Nat.le_add_right entry 8)
            intro i hlow hhigh hstop
            exact (hhead i hlow hhigh).2 (hbits _ (Nat.zero_le _) (by omega))
        | some bit =>
            rw [hfound] at hbits
            obtain ⟨⟨-, hlt⟩, hnot, hbelow⟩ := hbits
            refine ⟨⟨Nat.le_add_right entry bit, ?_⟩, ?_, ?_⟩
            · rw [List.length_cons]
              omega
            · rw [hhead _ (Nat.le_add_right entry bit) (by omega), Nat.add_sub_cancel_left]
              exact hnot
            · intro j hlow hhigh
              rw [hhead j hlow (by omega)]
              exact hbelow _ (Nat.zero_le _) (by omega)

theorem firstClear_spec (b : Bitmap) (limit : Nat) :
    LeastOutside b.Has 0 (min limit b.capacity) (b.firstClear limit) := by
  have hall : ∀ i, Has ⟨b.bytes⟩ i ↔ b.Has (0 + i) := by
    intro i
    rw [Nat.zero_add]
  have hspec := firstClearFrom_spec hall limit
  rwa [Nat.zero_add, Nat.mul_comm] at hspec

theorem countP_testBit {k : Nat} (hk : k ≤ 8) :
    (List.range k).countP (testBit byte) = Nat.count (Has ⟨byte :: rest⟩) k := by
  apply List.countP_congr
  intro i hi
  have hlt := List.mem_range.1 hi
  rw [decide_eq_true_iff, has_head (by omega)]

theorem countSetFrom_eq (bytes : List UInt8) (limit entry : Nat) :
    countSetFrom limit entry bytes =
      Nat.count (Has ⟨bytes⟩) (min (limit - entry) (8 * bytes.length)) := by
  induction bytes generalizing entry with
  | nil => simp [countSetFrom]
  | cons byte rest ih =>
      have hbyte : (List.range (min 8 (limit - entry))).countP (testBit byte) =
          Nat.count (Has ⟨byte :: rest⟩) (min 8 (limit - entry)) :=
        countP_testBit (Nat.min_le_left _ _)
      rw [countSetFrom, ih, List.length_cons, hbyte]
      by_cases hpart : limit - entry ≤ 8
      · have hnone : min (limit - (entry + 8)) (8 * rest.length) = 0 := by omega
        rw [hnone, Nat.count_zero, Nat.add_zero]
        congr 1
        omega
      · have hsum : min (limit - entry) (8 * (rest.length + 1)) =
            8 + min (limit - (entry + 8)) (8 * rest.length) := by omega
        rw [hsum, Nat.count_add, Nat.min_eq_left (by omega)]
        congr 1
        apply List.countP_congr
        intro i _
        rw [decide_eq_true_iff, decide_eq_true_iff]
        change _ ↔ Has ⟨byte :: rest⟩ (8 + i)
        rw [Nat.add_comm, has_tail]

theorem countSet_eq_card (b : Bitmap) (limit : Nat) :
    b.countSet limit = ((Finset.range (min limit b.capacity)).filter b.Has).card := by
  rw [countSet, countSetFrom_eq, Nat.sub_zero, Nat.mul_comm, Nat.count_eq_card_filter_range]
  rfl

end EarlyBoot.Bitmap
