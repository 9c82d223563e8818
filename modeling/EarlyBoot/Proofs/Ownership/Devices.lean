import EarlyBoot.Device
import EarlyBoot.Proofs.Ownership.Boxes

/-!
# What a device owns

A device owns its payload, and a record of it owns the same.  Attaching a
payload makes a box for it before the payload from before is dropped, so a
device for whose payload there is no room keeps what it had.
-/

namespace EarlyBoot

open BlockHeap (charge alignment)

variable {f : Firmware} {blocks : List BlockInfo} {n : Int}

instance : HasDeed Payload := .plain

instance : Disposable Payload := ⟨fun _ _ _ => drop_plain_delivers⟩

theorem Payload.deed_eq (payload : Payload) : deed payload = 0 := rfl

instance : HasDeed DeviceRecord :=
  ⟨fun record => deed record.payload, fun _ => HasDeed.budget_deed _⟩

instance : Disposable DeviceRecord := ⟨fun record => drop_delivers record.payload⟩

instance : HasDeed Device := ⟨fun device => deed device.payload, fun _ => HasDeed.budget_deed _⟩

instance : Disposable Device := ⟨fun device => drop_delivers device.payload⟩

namespace Device

theorem deed_eq (device : Device) : deed device = deed device.payload := rfl

/-- The block of a payload, if there is one, with the bytes of a certain payload in it. -/
def carries (device : Device) (payload : Option Payload) : Deed :=
  match device.payload, payload with
  | some box, some payload => box.keeps payload
  | none, none => 0
  | _, _ => Deed.fact False

@[simp] theorem budget_carries (device : Device) (payload : Option Payload) :
    (device.carries payload).budget = 0 := by
  unfold carries
  split <;> rfl

theorem carries_amounts (device : Device) (payload : Option Payload) (f : Firmware)
    (blocks : List BlockInfo) : Amounts f blocks (device.carries payload) (deed device) := by
  unfold carries
  rw [deed_eq]
  split
  next box payload hbox =>
    have hclosed := box.amounts_closed payload f blocks
    rw [payload.deed_eq, add_zero] at hclosed
    rw [hbox, deed_some]
    exact hclosed
  next hnone =>
    rw [hnone]
    exact .refl _ _ _
  next => exact fun hfalse => absurd hfalse id

theorem amounts_carries (device : Device) (f : Firmware) (blocks : List BlockInfo) :
    Amounts f blocks (deed device) (device.carries (device.payload? f.memory)) := by
  unfold carries DeviceRecord.payload?
  rw [deed_eq]
  cases device.payload with
  | none => exact .refl _ _ _
  | some box =>
      have hopened := box.amounts_opened f blocks
      rw [Payload.deed_eq, add_zero] at hopened
      rw [deed_some]
      exact hopened

theorem payload?_of_carries {device : Device} {payload : Option Payload}
    (hvalid : (device.carries payload).Valid f blocks) : device.payload? f.memory = payload := by
  unfold carries at hvalid
  unfold DeviceRecord.payload?
  split at hvalid
  next box payload hbox =>
    rw [hbox]
    exact congrArg some hvalid.2
  next hnone => rw [hnone]; rfl
  next => exact absurd hvalid id

theorem drop_record_delivers (device : Device) (payload : Option Payload) (f : Firmware)
    (blocks : List BlockInfo) :
    Delivers (Owned.drop device.toDeviceRecord) f blocks (device.carries payload) fun _ _ => 0 :=
  (drop_delivers device.toDeviceRecord f blocks).amounts (device.carries_amounts payload f blocks)

def attached (device : Device) (old : Option Payload) (payload : Payload) (n : Int) :
    Except HeapError Device → Deed
  | .ok device' => device'.carries (some payload) +
      Deed.fund (n - charge (Stored.size Payload)) +
      Deed.fact (device' = { device with payload := device'.payload })
  | .error error => device.carries old + Deed.fund n +
      Deed.fact (error.IsExhaustion ∧ n < charge (Stored.size Payload))

theorem attach_delivers (device : Device) (old : Option Payload) (payload : Payload) (n : Int) :
    Delivers (device.attach payload) f blocks (device.carries old + Deed.fund n) fun reply _ =>
      device.attached old payload n reply := by
  have hnew : Delivers (HeapBox.new payload) f blocks (0 + Deed.fund n) _ :=
    HeapBox.new_delivers n rfl fun _ _ => drop_plain_delivers
  unfold attach
  rw [zero_add] at hnew
  rw [add_comm]
  refine hnew.bind_frame (by simp) ?_
  rintro (error | box) f' blocks' -
  · refine .pure ?_
    change Amounts f' blocks' (Deed.fund n + Deed.fact _ + device.carries old) _
    rw [add_right_comm, add_comm (Deed.fund n)]
    refine .of_fact fun ⟨_, hreason⟩ => (Amounts.refl _ _ _).and_fact fun _ => ?_
    exact hreason (by decide)
  · have hparts : HeapBox.boxed payload 0 n (.ok box) + device.carries old =
        device.carries old +
          (box.keeps payload + Deed.fund (n - charge (Stored.size Payload))) := by
      change box.keeps payload + 0 + Deed.fund _ + _ = _
      abel
    rw [hparts]
    refine (device.drop_record_delivers old f' blocks').unwinding.bind_frame (by simp) ?_
    rintro _ f'' blocks'' -
    rw [zero_add]
    exact .pure ((Amounts.refl _ _ _).and_fact fun _ => rfl)

def completed (device : Device) (old : Option Payload) (payload : Payload) (n : Int) :
    DeviceStatus × Device → Deed
  | (.initialised, device') => device.attached old payload n (.ok device')
  | (status, device') => device.carries old + Deed.fund n + Deed.fact (status = .faulty ∧
      device' = device ∧ n < charge (Stored.size Payload))

theorem complete_delivers (device : Device) (old : Option Payload) (payload : Payload)
    (n : Int) :
    Delivers (device.complete payload) f blocks (device.carries old + Deed.fund n)
      fun reply _ => device.completed old payload n reply := by
  unfold complete
  refine (device.attach_delivers old payload n).bind ?_
  rintro (error | device') f' blocks' -
  · refine .of_fact fun ⟨hexhausted, hless⟩ => ?_
    have hskip : FirmwareM.unwinding (Owned.drop device) (FirmwareM.haltIfFatal error) f' =
        .ok () f' := by
      rw [FirmwareM.haltIfFatal_of_recoverable hexhausted.recoverable]
      rfl
    refine .bind_ok hskip ?_ rfl
    refine (Delivers.log .error _).bind ?_
    rintro _ f'' blocks'' -
    exact .pure ((Amounts.refl _ _ _).and_fact fun _ => ⟨rfl, rfl, hless⟩)
  · exact .pure (.refl _ _ _)

end Device

end EarlyBoot
