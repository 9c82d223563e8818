import EarlyBoot.Proofs.Ownership.Devices
import EarlyBoot.Proofs.Ownership.Vectors

/-!
# Shapes of values

Values are built from plain data and devices by boxes and vectors, to any
depth.  A shape says how, and thereby how a value is stored, what it owns and
how it is dropped.  A vector that is kept in a box or in another vector takes
four words: which heap its block belongs to, where the block is, and how many
elements it has and has room for.
-/

namespace EarlyBoot

variable {f : Firmware} {blocks : List BlockInfo}

structure VecWords (α : Type) where
  address : UInt64
  length : UInt64
  capacity : UInt64
  deriving DecidableEq, Repr

namespace VecWords

variable {α : Type}

def toVec (w : VecWords α) : HeapVec α := ⟨w.address.toNat, w.length.toNat, w.capacity.toNat⟩

def ofVec (v : HeapVec α) : VecWords α :=
  ⟨UInt64.ofNat v.address, UInt64.ofNat v.length, UInt64.ofNat v.capacity⟩

variable [Stored α]

theorem toVec_ofVec {v : HeapVec α} (hs : v.Sized) : (ofVec v).toVec = v := by
  have hlength : v.length < Word.limit := Nat.lt_of_le_of_lt hs.length_le hs.capacity_lt
  unfold toVec ofVec
  rw [UInt64.toNat_ofNat_of_lt' hs.address_lt, UInt64.toNat_ofNat_of_lt' hlength,
    UInt64.toNat_ofNat_of_lt' hs.capacity_lt]

instance : Stored (VecWords α) :=
  Stored.via 32 8 (fun w => (HeapBox.heapMark, w.address, w.length, w.capacity))
    (fun (_, address, length, capacity) => ⟨address, length, capacity⟩)
    (fun _ => rfl) (Nat.le_refl 32)

instance [Owned α] : Owned (VecWords α) := ⟨fun w => Owned.drop w.toVec⟩

instance [HasDeed α] : HasDeed (VecWords α) :=
  ⟨fun w => deed w.toVec, fun w => HasDeed.budget_deed w.toVec⟩

theorem deed_eq [HasDeed α] (w : VecWords α) : deed w = deed w.toVec := rfl

instance [Owned α] [HasDeed α] [Disposable α] : Disposable (VecWords α) :=
  ⟨fun w => drop_delivers w.toVec⟩

theorem amounts_ofVec [HasDeed α] (v : HeapVec α) (xs : List α) (f : Firmware)
    (blocks : List BlockInfo) : Amounts f blocks (v.keeps xs + deed xs) (deed (ofVec v)) := by
  intro hv
  have hsized : v.Sized := hv.1.1.2
  rw [deed_eq, toVec_ofVec hsized]
  exact v.amounts_closed xs f blocks hv

def push [Owned α] (w : VecWords α) (x : α) : FirmwareM (VecWords α) := do
  match ← w.toVec.push x with
  | .ok v => pure (ofVec v)
  | .error _ => pure w

def pop (w : VecWords α) : FirmwareM (VecWords α × Option α) := do
  match ← w.toVec.pop with
  | some (x, v) => pure (ofVec v, some x)
  | none => pure (w, none)

def clear [Owned α] (w : VecWords α) : FirmwareM (VecWords α) := return ofVec (← w.toVec.clear)

variable [HasDeed α]

theorem pop_delivers (w : VecWords α) (f : Firmware) (blocks : List BlockInfo) :
    Delivers w.pop f blocks (deed w) fun reply _ => deed reply.1 + deed reply.2 := by
  refine .amounts ?_ (w.toVec.amounts_opened f blocks)
  generalize w.toVec.toList f.memory = xs
  unfold pop
  refine HeapVec.pop_delivers.bind_frame (by simp) ?_
  rintro (_ | ⟨x, v⟩) f' blocks' -
  · change Delivers _ f' blocks' (w.toVec.keeps xs + Deed.fact _ + deed xs) _
    rw [add_right_comm]
    refine .of_fact fun _ => .pure ?_
    rw [deed_none, add_zero]
    exact w.toVec.amounts_closed xs f' blocks'
  · change Delivers _ f' blocks' (v.keeps xs.dropLast + Deed.fact _ + deed xs) _
    rw [add_right_comm]
    refine .of_fact fun hlast => .pure ?_
    have hparts : deed xs = deed xs.dropLast + deed x := by
      conv_lhs => rw [hlast]
      rw [deed_append, deed_cons, deed_nil, add_zero]
    rw [hparts, ← add_assoc, deed_some]
    exact (amounts_ofVec v xs.dropLast f' blocks').add (.refl _ _ _)

variable [Owned α] [Disposable α]

theorem push_delivers (w : VecWords α) (x : α) (f : Firmware) (blocks : List BlockInfo) :
    Delivers (w.push x) f blocks (deed w + deed x) fun w' _ => deed w' + Deed.unfunded := by
  have hopened := (w.toVec.amounts_opened f blocks).add (.refl f blocks (deed x))
  refine .amounts ?_ hopened
  generalize w.toVec.toList f.memory = xs
  have hparts : w.toVec.keeps xs + deed xs + deed x =
      w.toVec.keeps xs + deed x + Deed.fund 0 + deed xs := by
    rw [Deed.fund_zero, add_zero, add_right_comm]
  rw [hparts]
  unfold push
  refine (HeapVec.push_delivers 0 (by simp) (drop_delivers x)).bind_frame (by simp) ?_
  rintro (error | v) f' blocks' -
  · change Delivers _ f' blocks' (w.toVec.keeps xs + Deed.fund 0 + Deed.fact _ + deed xs) _
    rw [add_right_comm, Deed.fund_zero, add_zero]
    exact .of_fact fun _ => .pure (w.toVec.amounts_closed xs f' blocks').and_unfunded
  · have hgrown : w.toVec.pushed xs x (deed x) 0 (.ok v) + deed xs =
        v.keeps (xs ++ [x]) + deed (xs ++ [x]) + Deed.fund (0 - w.toVec.pushCharge) +
          Deed.fact (v.length = w.toVec.length + 1 ∧ v.capacity =
            if w.toVec.length = w.toVec.capacity then w.toVec.doubled else w.toVec.capacity) := by
      rw [deed_append, deed_cons, deed_nil, add_zero]
      change v.keeps _ + deed x + Deed.fund _ + Deed.fact _ + deed xs = _
      abel
    dsimp only
    rw [hgrown]
    refine .of_fact fun _ => .pure ((amounts_ofVec v _ f' blocks').add fun _ => ?_)
    exact ⟨trivial, rfl, bot_le⟩

theorem clear_delivers (w : VecWords α) (f : Firmware) (blocks : List BlockInfo) :
    Delivers w.clear f blocks (deed w) fun w' _ => deed w' := by
  refine .amounts ?_ (w.toVec.amounts_opened f blocks)
  refine (HeapVec.clear_delivers (by simp) (dropAll_deed_delivers _)).bind ?_
  rintro v f' blocks' -
  have hclosed := amounts_ofVec v [] f' blocks'
  rw [deed_nil, add_zero] at hclosed
  exact .pure hclosed

end VecWords

inductive Shape where
  | data (size align : Nat)
  | box (content : Shape)
  | vector (element : Shape)
  | device
  deriving DecidableEq, Repr

structure Data (size align : Nat) where
  bytes : Vector UInt8 size
  deriving DecidableEq, Repr

namespace Data

variable {size align : Nat}

instance : Stored (Data size align) :=
  Stored.via size align (fun d => d.bytes) (fun bytes => ⟨bytes⟩) (fun _ => rfl)
    (Nat.le_of_eq (Nat.mul_one size))

instance : Owned (Data size align) := ⟨fun _ => pure ()⟩

instance : HasDeed (Data size align) := .plain

instance : Disposable (Data size align) := ⟨fun _ _ _ => drop_plain_delivers⟩

end Data

namespace Shape

def Value : Shape → Type
  | data size align => Data size align
  | box content => HeapBox content.Value
  | vector element => VecWords element.Value
  | device => DeviceRecord

instance stored : (s : Shape) → Stored s.Value
  | data size align => inferInstanceAs (Stored (Data size align))
  | box content =>
      have := content.stored
      inferInstanceAs (Stored (HeapBox content.Value))
  | vector element =>
      have := element.stored
      inferInstanceAs (Stored (VecWords element.Value))
  | device => inferInstanceAs (Stored DeviceRecord)

instance owned : (s : Shape) → Owned s.Value
  | data size align => inferInstanceAs (Owned (Data size align))
  | box content =>
      have := content.owned
      inferInstanceAs (Owned (HeapBox content.Value))
  | vector element =>
      have := element.owned
      inferInstanceAs (Owned (VecWords element.Value))
  | device => inferInstanceAs (Owned DeviceRecord)

instance hasDeed : (s : Shape) → HasDeed s.Value
  | data size align => inferInstanceAs (HasDeed (Data size align))
  | box content =>
      have := content.hasDeed
      inferInstanceAs (HasDeed (HeapBox content.Value))
  | vector element =>
      have := element.hasDeed
      inferInstanceAs (HasDeed (VecWords element.Value))
  | device => inferInstanceAs (HasDeed DeviceRecord)

/-- By induction on the shape: what a value keeps is dropped with it. -/
instance disposable : (s : Shape) → Disposable s.Value
  | data size align => inferInstanceAs (Disposable (Data size align))
  | box content =>
      have := content.disposable
      inferInstanceAs (Disposable (HeapBox content.Value))
  | vector element =>
      have := element.disposable
      inferInstanceAs (Disposable (VecWords element.Value))
  | device => inferInstanceAs (Disposable DeviceRecord)

end Shape

structure AnyValue where
  shape : Shape
  value : shape.Value

namespace AnyValue

instance : Owned AnyValue := ⟨fun x => Owned.drop x.value⟩

instance : HasDeed AnyValue := ⟨fun x => deed x.value, fun x => HasDeed.budget_deed x.value⟩

instance : Disposable AnyValue := ⟨fun x => drop_delivers x.value⟩

theorem deed_mk (s : Shape) (x : s.Value) : deed (AnyValue.mk s x) = deed x := rfl

end AnyValue

end EarlyBoot
