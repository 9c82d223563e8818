import EarlyBoot.HeapVec
import EarlyBoot.Proofs.BlockHeap.Sharing

/-!
# Elements of a vector

The list that a vector stands for depends on the bytes of its elements only.
Writing an element changes that place of the list and no other, whatever bytes
stood there before.
-/

namespace EarlyBoot.HeapVec

variable {α : Type} [Stored α] {v v' : HeapVec α} {m m' : Memory} {i index : Nat}

theorem readElement_shift
    (h : ∀ k, k < Stored.size α →
      m'.read (v'.address + i * Stored.size α + k) = m.read (v.address + i * Stored.size α + k)) :
    v'.readElement i m' = v.readElement i m :=
  congrArg Stored.decode (Memory.readBytes_shift h)

theorem end_le_of_lt {n : Nat} (h : i < n) :
    i * Stored.size α + Stored.size α ≤ n * Stored.size α := by
  rw [← Nat.succ_mul]
  exact Nat.mul_le_mul_right _ h

theorem toList_shift (hlength : v'.length = v.length)
    (h : ∀ k, k < v.length * Stored.size α → m'.read (v'.address + k) = m.read (v.address + k)) :
    v'.toList m' = v.toList m := by
  unfold toList
  rw [hlength]
  apply List.map_congr_left
  intro i hi
  have hend := end_le_of_lt (α := α) (List.mem_range.1 hi)
  apply readElement_shift
  intro k hk
  rw [Nat.add_assoc, Nat.add_assoc]
  exact h _ (by omega)

theorem readElement_writeBytes (v : HeapVec α) (m : Memory) (i index : Nat) (x : α) :
    v.readElement i (m.writeBytes (v.elementAddress index) (Stored.encode x)) =
      if i = index then x else v.readElement i m := by
  have hlength := Stored.length_encode x
  split
  · rename_i heq
    rw [heq, readElement, ← hlength, Memory.readBytes_writeBytes, Stored.decode_encode]
  · rename_i hne
    apply readElement_shift
    intro k hk
    apply Memory.read_writeBytes_of_outside
    rw [hlength, elementAddress]
    rcases Nat.lt_or_gt_of_ne hne with hlt | hgt
    · have := end_le_of_lt (α := α) hlt
      omega
    · have := end_le_of_lt (α := α) hgt
      omega

theorem getElem_toList (v : HeapVec α) (m : Memory) (hi : i < (v.toList m).length) :
    (v.toList m)[i] = v.readElement i m := by
  simp [toList]

@[simp] theorem length_toList (v : HeapVec α) (m : Memory) : (v.toList m).length = v.length := by
  simp [toList]

theorem toList_eq_nil (h : v.length = 0) (m : Memory) : v.toList m = [] :=
  List.length_eq_zero_iff.1 ((v.length_toList m).trans h)

theorem toList_succ {last : Nat} (h : v.length = last + 1) (m : Memory) :
    v.toList m = ({ v with length := last } : HeapVec α).toList m ++ [v.readElement last m] := by
  unfold toList
  rw [h, List.range_succ, List.map_append]
  rfl

theorem toList_write (v : HeapVec α) (m : Memory) (index : Nat) (x : α) :
    v.toList (m.writeBytes (v.elementAddress index) (Stored.encode x)) =
      (v.toList m).set index x := by
  apply List.ext_getElem (by simp)
  intro i _ _
  rw [getElem_toList, readElement_writeBytes, List.getElem_set, getElem_toList]
  simp only [eq_comm]

theorem toList_append (v : HeapVec α) (m : Memory) (x : α) :
    ({ v with length := v.length + 1 } : HeapVec α).toList
        (m.writeBytes (v.elementAddress v.length) (Stored.encode x)) =
      v.toList m ++ [x] := by
  rw [toList_succ rfl]
  change v.toList _ ++ [v.readElement v.length _] = _
  rw [toList_write, readElement_writeBytes, if_pos rfl, List.set_eq_of_length_le (by simp)]

end EarlyBoot.HeapVec
