import EarlyBoot.Word

/-!
# Values as bytes

A stored value takes a fixed number of bytes, and decoding the bytes of a value
gives the value back.  Numbers are stored least significant byte first, pairs
and vectors one component after the other, and `Stored.via` stores a type
through another one, padded with zeros.
-/

namespace EarlyBoot

abbrev BoundedList (α : Type) (limit : Nat) := { xs : List α // xs.length ≤ limit }

class Stored (α : Type) where
  size : Nat
  align : Nat
  encode : α → List UInt8
  decode : List UInt8 → α
  length_encode : ∀ x, (encode x).length = size
  decode_encode : ∀ x, decode (encode x) = x

namespace Stored

variable {α β : Type}

def natBytes : Nat → Nat → List UInt8
  | 0, _ => []
  | width + 1, n => UInt8.ofNat n :: natBytes width (n / 256)

def bytesNat : List UInt8 → Nat
  | [] => 0
  | byte :: rest => byte.toNat + 256 * bytesNat rest

@[simp] theorem length_natBytes (width n : Nat) : (natBytes width n).length = width := by
  induction width generalizing n with
  | zero => rfl
  | succ width ih => simp [natBytes, ih]

theorem bytesNat_natBytes (width n : Nat) :
    bytesNat (natBytes width n) = n % Nat.pow 256 width := by
  induction width generalizing n with
  | zero => simp [natBytes, bytesNat, Nat.mod_one]
  | succ width ih =>
      have hpow : Nat.pow 256 (width + 1) = 256 * Nat.pow 256 width := Nat.mul_comm _ _
      rw [natBytes, bytesNat, ih, UInt8.toNat_ofNat', hpow, Nat.mod_mul]

instance : Stored UInt8 where
  size := 1
  align := 1
  encode x := [x]
  decode bytes := bytes.headD 0
  length_encode _ := rfl
  decode_encode _ := rfl

instance : Stored UInt16 where
  size := 2
  align := 2
  encode x := natBytes 2 x.toNat
  decode bytes := UInt16.ofNat (bytesNat bytes)
  length_encode _ := length_natBytes _ _
  decode_encode x := by
    have hlt : x.toNat < Nat.pow 256 2 := x.toNat_lt
    rw [bytesNat_natBytes, Nat.mod_eq_of_lt hlt]
    exact UInt16.ofNat_toNat

instance : Stored UInt32 where
  size := 4
  align := 4
  encode x := natBytes 4 x.toNat
  decode bytes := UInt32.ofNat (bytesNat bytes)
  length_encode _ := length_natBytes _ _
  decode_encode x := by
    have hlt : x.toNat < Nat.pow 256 4 := x.toNat_lt
    rw [bytesNat_natBytes, Nat.mod_eq_of_lt hlt]
    exact UInt32.ofNat_toNat

instance : Stored UInt64 where
  size := 8
  align := 8
  encode x := natBytes 8 x.toNat
  decode bytes := UInt64.ofNat (bytesNat bytes)
  length_encode _ := length_natBytes _ _
  decode_encode x := by
    have hlt : x.toNat < Nat.pow 256 8 := x.toNat_lt
    rw [bytesNat_natBytes, Nat.mod_eq_of_lt hlt]
    exact UInt64.ofNat_toNat

instance : Stored Bool where
  size := 1
  align := 1
  encode x := [if x then 1 else 0]
  decode bytes := bytes.headD 0 != 0
  length_encode _ := rfl
  decode_encode x := by cases x <;> rfl

instance : Stored Unit where
  size := 0
  align := 1
  encode _ := []
  decode _ := ()
  length_encode _ := rfl
  decode_encode _ := rfl

instance [Stored α] [Stored β] : Stored (α × β) where
  size := size α + size β
  align := max (align α) (align β)
  encode x := encode x.1 ++ encode x.2
  decode bytes := (decode (bytes.take (size α)), decode (bytes.drop (size α)))
  length_encode x := by rw [List.length_append, length_encode, length_encode]
  decode_encode x := by
    rw [List.take_left' (length_encode x.1), List.drop_left' (length_encode x.1),
      decode_encode, decode_encode]

def chunk (width i : Nat) (bytes : List UInt8) : List UInt8 := (bytes.drop (i * width)).take width

theorem length_flatMap_encode [Stored α] (xs : List α) :
    (xs.flatMap encode).length = xs.length * size α := by
  induction xs with
  | nil => simp
  | cons x xs ih =>
      rw [List.flatMap_cons, List.length_append, ih, length_encode, List.length_cons,
        Nat.succ_mul, Nat.add_comm]

theorem chunk_flatMap_encode [Stored α] (xs : List α) (i : Nat) (h : i < xs.length) :
    chunk (size α) i (xs.flatMap encode) = encode xs[i] := by
  induction xs generalizing i with
  | nil => simp at h
  | cons x xs ih =>
      unfold chunk at *
      rw [List.flatMap_cons]
      cases i with
      | zero =>
          rw [Nat.zero_mul, List.drop_zero, List.take_left' (length_encode x)]
          rfl
      | succ i =>
          rw [Nat.succ_mul, Nat.add_comm, ← List.drop_drop, List.drop_left' (length_encode x),
            ih i (Nat.lt_of_succ_lt_succ h)]
          rfl

theorem chunk_append [Stored α] (xs : List α) (bytes : List UInt8) (i : Nat)
    (h : i < xs.length) :
    chunk (size α) i (xs.flatMap encode ++ bytes) = chunk (size α) i (xs.flatMap encode) := by
  have hend : i * size α + size α ≤ xs.length * size α := by
    rw [← Nat.succ_mul]
    exact Nat.mul_le_mul_right _ h
  unfold chunk
  rw [List.drop_append_of_le_length (by rw [length_flatMap_encode]; omega),
    List.take_append_of_le_length (by rw [List.length_drop, length_flatMap_encode]; omega)]

instance [Stored α] {n : Nat} : Stored (Vector α n) where
  size := n * size α
  align := align α
  encode xs := xs.toList.flatMap encode
  decode bytes := Vector.ofFn fun i : Fin n => decode (chunk (size α) i bytes)
  length_encode xs := by rw [length_flatMap_encode, Vector.length_toList]
  decode_encode xs := by
    apply Vector.ext
    intro i h
    rw [Vector.getElem_ofFn, chunk_flatMap_encode _ _ (by simpa using h), decode_encode]
    simp

/-- Stores a value that may be missing behind a byte that tells whether it is there. -/
@[reducible] def flagged [Stored α] : Stored (Option α) where
  size := 1 + size α
  align := align α
  encode
    | some x => 1 :: encode x
    | none => List.replicate (1 + size α) 0
  decode bytes := if bytes.headD 0 = 0 then none else some (decode (bytes.drop 1))
  length_encode x := by
    cases x with
    | none => exact List.length_replicate
    | some x => rw [List.length_cons, length_encode, Nat.add_comm]
  decode_encode x := by
    cases x with
    | none => simp [Nat.add_comm 1, List.replicate_succ]
    | some x => simp [decode_encode]

/-- Stores a list of bounded length: its length, its elements, and zeros for the missing ones. -/
@[reducible] def bounded [Stored α] (limit : Nat) (hlimit : limit < 256) :
    Stored (BoundedList α limit) where
  size := 1 + limit * size α
  align := align α
  encode xs := UInt8.ofNat xs.val.length ::
    (xs.val.flatMap encode ++ List.replicate ((limit - xs.val.length) * size α) 0)
  decode bytes :=
    ⟨(List.range (min (bytes.headD 0).toNat limit)).map fun i =>
        decode (chunk (size α) i (bytes.drop 1)), by
      rw [List.length_map, List.length_range]
      exact Nat.min_le_right _ _⟩
  length_encode xs := by
    rw [List.length_cons, List.length_append, length_flatMap_encode, List.length_replicate,
      ← Nat.add_mul, Nat.add_sub_cancel' xs.property, Nat.add_comm]
  decode_encode xs := by
    apply Subtype.ext
    have hlength : (UInt8.ofNat xs.val.length).toNat = xs.val.length := by
      rw [UInt8.toNat_ofNat']
      exact Nat.mod_eq_of_lt (Nat.lt_of_le_of_lt xs.property hlimit)
    simp only [List.headD_cons, List.drop_one, List.tail_cons, hlength,
      Nat.min_eq_left xs.property]
    apply List.ext_getElem
    · simp
    · intro i _ h
      rw [List.getElem_map, List.getElem_range, chunk_append _ _ _ h,
        chunk_flatMap_encode _ _ h, decode_encode]

/-- Stores a type through its fields, in `total` bytes. -/
@[reducible] def via [Stored β] (total alignment : Nat) (toFields : α → β) (ofFields : β → α)
    (roundTrip : ∀ x, ofFields (toFields x) = x) (fits : size β ≤ total) : Stored α where
  size := total
  align := alignment
  encode x := encode (toFields x) ++ List.replicate (total - size β) 0
  decode bytes := ofFields (decode (bytes.take (size β)))
  length_encode x := by
    rw [List.length_append, length_encode, List.length_replicate]
    omega
  decode_encode x := by
    rw [List.take_left' (length_encode _), decode_encode, roundTrip]

@[reducible] def coded (code : α → UInt8) (ofCode : UInt8 → α)
    (roundTrip : ∀ x, ofCode (code x) = x) : Stored α :=
  via 1 1 code ofCode roundTrip (Nat.le_refl 1)

end Stored

end EarlyBoot
