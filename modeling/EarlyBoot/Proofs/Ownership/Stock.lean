import EarlyBoot.Proofs.Ownership.Vectors
import Mathlib.Tactic.Ring

/-!
# Vectors with room for many pushes

Pushes take room now and then only, and then for all the elements so far.  A
vector is stocked if so much is set aside that it can grow up to a limit; what
is left over is free for other uses.  Doubling pays for itself: to grow takes
no more than the places that are added.
-/

namespace EarlyBoot

namespace HeapVec

open BlockHeap (charge alignment)

variable {α : Type} [Stored α] {v v' : HeapVec α} {f : Firmware} {blocks : List BlockInfo}
  {limit : Nat} {m : Int} {xs : List α}

theorem charge_le {size : Nat} (hsize : 0 < size) : charge size ≤ size + 63 := by
  have hlt : Word.roundUp (max size 1) headerSize < max size 1 + headerSize :=
    Word.roundUp_lt (by decide)
  unfold charge headerSize at *
  omega

/-- What has to be set aside so that the vector can grow up to `limit` elements. -/
def reserveFor (limit : Nat) (v : HeapVec α) : Int :=
  (Stored.size α + 63) * (4 * limit + 8 - 2 * v.capacity)

def Within (limit : Nat) (v : HeapVec α) : Prop := v.length ≤ limit → v.capacity ≤ 2 * limit + 4

theorem reserveFor_nonneg (hlength : v.length ≤ limit) (hwithin : v.Within limit) :
    0 ≤ v.reserveFor limit := by
  have hcapacity := hwithin hlength
  exact Int.mul_nonneg (by omega) (by omega)

def nextCapacityOr (v : HeapVec α) : Nat := if v.length = v.capacity then v.doubled else v.capacity

omit [Stored α] in
theorem nextCapacityOr_le (hlength : v.length ≤ limit) (hwithin : v.Within limit) :
    v.nextCapacityOr ≤ 2 * limit + 4 := by
  unfold nextCapacityOr doubled minCapacity
  split
  next hfull => split <;> omega
  next => exact hwithin hlength

theorem charge_doubled_le (hsize : 0 < Stored.size α) :
    (charge (v.doubled * Stored.size α) : Int) ≤
      (Stored.size α + 63) * (2 * v.doubled - 2 * v.capacity) := by
  have hpos : 0 < v.doubled := by
    unfold doubled minCapacity
    split <;> omega
  have hcharge : charge (v.doubled * Stored.size α) ≤ v.doubled * Stored.size α + 63 :=
    charge_le (Nat.mul_pos hpos hsize)
  have hplaces : v.doubled * Stored.size α + 63 ≤ (Stored.size α + 63) * v.doubled := by
    rw [Nat.add_mul, Nat.mul_comm v.doubled]
    omega
  have hadded : (v.doubled : Int) ≤ 2 * v.doubled - 2 * v.capacity := by
    unfold doubled
    split <;> omega
  calc (charge (v.doubled * Stored.size α) : Int)
      ≤ (Stored.size α + 63) * v.doubled := by exact_mod_cast hcharge.trans hplaces
    _ ≤ _ := Int.mul_le_mul_of_nonneg_left hadded (by omega)

/-- What a push takes is no more than what need no longer be set aside. -/
theorem pushCharge_add_reserveFor_le (hsize : 0 < Stored.size α) (limit : Nat)
    (hcapacity : v'.capacity = v.nextCapacityOr) :
    v.pushCharge + v'.reserveFor limit ≤ v.reserveFor limit := by
  have hpush : (v.pushCharge : Int) ≤
      (Stored.size α + 63) * (2 * v'.capacity - 2 * v.capacity) := by
    rw [hcapacity]
    unfold pushCharge nextCapacityOr
    split
    · exact charge_doubled_le hsize
    · simp
  calc (v.pushCharge + v'.reserveFor limit : Int)
      ≤ (Stored.size α + 63) * (2 * v'.capacity - 2 * v.capacity) + v'.reserveFor limit := by omega
    _ = v.reserveFor limit := by
      unfold reserveFor
      ring

theorem length_of_keeps (hvalid : (v.keeps xs).Valid f blocks) : v.length = xs.length := by
  rw [← hvalid.2, length_toList]

def stocked (limit : Nat) (m : Int) (v : HeapVec α) (xs : List α) : Deed :=
  v.keeps xs + Deed.fund (m + v.reserveFor limit) + Deed.fact (v.Within limit)

def firstStock (α : Type) [Stored α] (limit : Nat) : Nat := (Stored.size α + 63) * (4 * limit + 8)

theorem reserveFor_le_firstStock (v : HeapVec α) (limit : Nat) :
    v.reserveFor limit ≤ firstStock α limit := by
  unfold reserveFor firstStock
  push_cast
  exact Int.mul_le_mul_of_nonneg_left (by omega) (by omega)

theorem empty_stocked_amounts (hsize : 0 < Stored.size α) (limit : Nat) (m : Int) (f : Firmware)
    (blocks : List BlockInfo) :
    Amounts f blocks (Deed.fund (m + firstStock α limit))
      (stocked limit m (empty : HeapVec α) []) := by
  have hcapacity : (empty : HeapVec α).capacity = 0 := if_neg (Nat.ne_of_gt hsize)
  have hreserve : (empty : HeapVec α).reserveFor limit = firstStock α limit := by
    unfold reserveFor firstStock
    rw [hcapacity]
    push_cast
    rw [sub_zero]
  have hempty : Amounts f blocks 0 ((empty : HeapVec α).keeps []) := empty_amounts f blocks
  have hstock := hempty.add (.refl f blocks (Deed.fund (m + firstStock α limit)))
  rw [zero_add] at hstock
  unfold stocked
  rw [hreserve]
  exact hstock.and_fact fun _ _ => hcapacity ▸ Nat.zero_le _

variable [Owned α]

def restocked (limit : Nat) (m : Int) (v : HeapVec α) (xs : List α) (x : α) (d : Deed) :
    Except HeapError (HeapVec α) → Deed
  | .ok v' => stocked limit m v' (xs ++ [x]) + d
  | .error error => v.keeps xs + Deed.unfunded +
      Deed.fact (error.IsExhaustion ∧ (v.length ≤ limit → m < 0))

theorem push_stocked_delivers {x : α} {d : Deed} (hsize : 0 < Stored.size α)
    (halign : Stored.align α ≤ alignment) (hbudget : d.budget = 0)
    (hdrop : ∀ f blocks, Delivers (Owned.drop x) f blocks d fun _ _ => 0) :
    Delivers (v.push x) f blocks (stocked limit m v xs + d) fun reply _ =>
      restocked limit m v xs x d reply := by
  have hparts : stocked limit m v xs + d = v.keeps xs + d + Deed.fund (m + v.reserveFor limit) +
      Deed.fact (v.Within limit) := by
    unfold stocked
    abel
  rw [hparts]
  refine .of_fact fun hwithin => ?_
  refine (push_delivers _ hbudget hdrop).leaving ?_
  rintro (error | v') f' blocks'
  · refine .of_fact fun ⟨_, hreason⟩ => Amounts.and_fact ?_ fun _ => ?_
    · exact (Amounts.refl _ _ _).add fun _ => ⟨trivial, rfl, bot_le⟩
    · obtain ⟨hexhausted, hless⟩ := hreason halign
      refine ⟨hexhausted, fun hlength => ?_⟩
      let grown : HeapVec α := { v with capacity := v.nextCapacityOr }
      -- what was set aside would have paid for the growth
      have hpaid : v.pushCharge + grown.reserveFor limit ≤ v.reserveFor limit :=
        pushCharge_add_reserveFor_le hsize limit rfl
      have hleft : 0 ≤ grown.reserveFor limit :=
        reserveFor_nonneg hlength fun _ => nextCapacityOr_le hlength hwithin
      have hrefused := hless hsize
      omega
  · change Amounts f' blocks' (v'.keeps (xs ++ [x]) + d + _ + _) _
    refine .of_fact fun ⟨hlength, hcapacity⟩ => ?_
    have hpaid := pushCharge_add_reserveFor_le hsize limit hcapacity
    have hbounds : v'.Within limit := fun hle => by
      rw [hcapacity]
      exact nextCapacityOr_le (by omega) hwithin
    have hafter : restocked limit m v xs x d (.ok v') =
        v'.keeps (xs ++ [x]) + d + Deed.fund (m + v'.reserveFor limit) +
          Deed.fact (v'.Within limit) := by
      change v'.keeps (xs ++ [x]) + Deed.fund _ + Deed.fact _ + d = _
      abel
    rw [hafter]
    exact ((Amounts.refl _ _ _).add (.fund_le (by omega))).and_fact fun _ => hbounds

section Entries

variable {γ : Type} {value : γ → α} {d : γ → Deed}

def restockedWith (limit : Nat) (m : Int) (v : HeapVec α) (value : γ → α) (d : γ → Deed)
    (es : List γ) (e : γ) : Except HeapError (HeapVec α) → Deed
  | .ok v' => stocked limit m v' ((es ++ [e]).map value) + ((es ++ [e]).map d).sum
  | .error error => v.keeps (es.map value) + (es.map d).sum + Deed.unfunded +
      Deed.fact (error.IsExhaustion ∧ (es.length ≤ limit → m < 0))

theorem push_entry_delivers (hsize : 0 < Stored.size α) (halign : Stored.align α ≤ alignment)
    (hbudget : ∀ e, (d e).budget = 0)
    (hdrop : ∀ e f blocks, Delivers (Owned.drop (value e)) f blocks (d e) fun _ _ => 0)
    (es : List γ) (e : γ) :
    Delivers (v.push (value e)) f blocks
      (stocked limit m v (es.map value) + (es.map d).sum + d e) fun reply _ =>
        restockedWith limit m v value d es e reply := by
  have hwaiting : 0 ≤ (es.map d).sum.budget := (budget_sum_map fun e _ => hbudget e).ge
  rw [add_right_comm]
  refine ((push_stocked_delivers hsize halign (hbudget e) (hdrop e)).frame
    (.inr hwaiting)).leaving ?_
  rintro (error | v') f' blocks'
  · have hleft : restocked limit m v (es.map value) (value e) (d e) (.error error) +
        (es.map d).sum = v.keeps (es.map value) + (es.map d).sum + Deed.unfunded +
          Deed.fact (error.IsExhaustion ∧ (v.length ≤ limit → m < 0)) := by
      change v.keeps _ + Deed.unfunded + Deed.fact _ + _ = _
      abel
    rw [hleft]
    refine .of_fact fun ⟨hexhausted, hless⟩ => (Amounts.refl _ _ _).and_fact fun hv => ?_
    refine ⟨hexhausted, fun hlength => hless ?_⟩
    rwa [length_of_keeps hv.1.1, List.length_map]
  · have hleft : restocked limit m v (es.map value) (value e) (d e) (.ok v') + (es.map d).sum =
        restockedWith limit m v value d es e (.ok v') := by
      change stocked limit m v' _ + d e + _ = stocked limit m v' _ + _
      rw [List.map_append, List.map_append, List.sum_append, List.map_singleton,
        List.map_singleton, List.sum_singleton]
      abel
    rw [hleft]
    exact .refl _ _ _

end Entries

end HeapVec

theorem sub_shares (each first second : Nat) (m : Int) :
    m - each * first - each * second = m - each * (first + second : Nat) := by
  rw [Nat.cast_add, Int.mul_add, Int.sub_sub]

/-- If each takes `each` bytes, so many more may not find room behind those already there. -/
def Short (each limit : Nat) (m : Int) (length count : Nat) : Prop :=
  length + count ≤ limit → m < each * count

namespace Short

variable {each limit length first second : Nat} {m : Int}

theorem lt_room {count stock : Nat} {n reserve : Int}
    (h : Short each limit (n - reserve) length count) (hlength : length + count ≤ limit)
    (hreserve : reserve ≤ stock) : n < (stock + each * count : Nat) := by
  have hless := h hlength
  push_cast
  omega

theorem left (h : Short each limit m length first) :
    Short each limit m length (first + second) := by
  intro hlength
  calc m < each * first := h (by omega)
    _ ≤ each * (first + second : Nat) :=
      Int.mul_le_mul_of_nonneg_left (by omega) (Int.natCast_nonneg _)

theorem right (h : Short each limit (m - each * first) (length + first) second) :
    Short each limit m length (first + second) := by
  intro hlength
  have hless := h (by omega)
  have hshares := sub_shares each first second m
  omega

end Short

end EarlyBoot
