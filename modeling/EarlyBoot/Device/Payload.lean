import EarlyBoot.HeapBox
import EarlyBoot.Pci.Function

/-!
# Device payloads

What bring-up learns about a device is kept with its record.  A payload takes
fourteen bytes: the fields of its kind, and a last byte that tells the kind.
For a PCI function that byte is also the flag that its self test was started.
-/

namespace EarlyBoot

structure UartSettings where
  basePort : UInt16
  divisor : UInt16
  lineControl : UInt8
  fifoControl : UInt8
  deriving DecidableEq, Repr

structure PicSettings where
  primaryOffset : UInt8
  secondaryOffset : UInt8
  primaryMask : UInt8
  secondaryMask : UInt8
  /-- Which lines are level triggered. -/
  levelTriggered : UInt16
  deriving DecidableEq, Repr

structure PitSettings where
  reload : UInt16
  deriving DecidableEq, Repr

structure KeyboardSettings where
  configuration : UInt8
  dualChannel : Bool
  deriving DecidableEq, Repr

structure CmosSettings where
  ioDelay : UInt16
  bcd : Bool
  twelveHour : Bool
  deriving DecidableEq, Repr

inductive Payload where
  | uart (settings : UartSettings)
  | pic (settings : PicSettings)
  | pit (settings : PitSettings)
  | keyboard (settings : KeyboardSettings)
  | cmos (settings : CmosSettings)
  | pci (function : PciFunction)
  deriving DecidableEq, Repr

namespace Payload

instance : Stored UartSettings :=
  Stored.via 6 2 (fun s => (s.basePort, s.divisor, s.lineControl, s.fifoControl))
    (fun (basePort, divisor, lineControl, fifoControl) =>
      ⟨basePort, divisor, lineControl, fifoControl⟩)
    (fun _ => rfl) (Nat.le_refl 6)

instance : Stored PicSettings :=
  Stored.via 6 2
    (fun s => (s.levelTriggered, s.primaryOffset, s.secondaryOffset, s.primaryMask,
      s.secondaryMask))
    (fun (levelTriggered, primaryOffset, secondaryOffset, primaryMask, secondaryMask) =>
      ⟨primaryOffset, secondaryOffset, primaryMask, secondaryMask, levelTriggered⟩)
    (fun _ => rfl) (Nat.le_refl 6)

instance : Stored PitSettings :=
  Stored.via 2 2 (fun s => s.reload) (fun reload => ⟨reload⟩) (fun _ => rfl) (Nat.le_refl 2)

instance : Stored KeyboardSettings :=
  Stored.via 2 1 (fun s => (s.configuration, s.dualChannel))
    (fun (configuration, dualChannel) => ⟨configuration, dualChannel⟩)
    (fun _ => rfl) (Nat.le_refl 2)

instance : Stored CmosSettings :=
  Stored.via 4 2 (fun s => (s.ioDelay, s.bcd, s.twelveHour))
    (fun (ioDelay, bcd, twelveHour) => ⟨ioDelay, bcd, twelveHour⟩)
    (fun _ => rfl) (Nat.le_refl 4)

instance : Stored PciFunction :=
  Stored.via 14 2
    (fun f => (f.vendorId, f.deviceId, f.address.bus, f.address.device, f.address.function,
      f.classCode, f.subclass, f.progIf, f.revision, f.headerType, f.interruptLine,
      f.selfTestStarted))
    (fun (vendorId, deviceId, bus, device, function, classCode, subclass, progIf, revision,
        headerType, interruptLine, selfTestStarted) =>
      ⟨⟨bus, device, function⟩, vendorId, deviceId, classCode, subclass, progIf, revision,
        headerType, interruptLine, selfTestStarted⟩)
    (fun _ => rfl) (Nat.le_refl 14)

def kindAt : Nat := 13

def withKind {α : Type} [Stored α] (kind : UInt8) (value : α) : List UInt8 :=
  Stored.encode value ++ List.replicate (kindAt - Stored.size α) 0 ++ [kind]

def encode : Payload → List UInt8
  | uart settings => withKind 2 settings
  | pic settings => withKind 3 settings
  | pit settings => withKind 4 settings
  | keyboard settings => withKind 5 settings
  | cmos settings => withKind 6 settings
  | pci function => Stored.encode function

def decodeAs (α : Type) [Stored α] (bytes : List UInt8) : α :=
  Stored.decode (bytes.take (Stored.size α))

def decode (bytes : List UInt8) : Payload :=
  match (bytes[kindAt]?.getD 0).toNat with
  | 2 => uart (decodeAs _ bytes)
  | 3 => pic (decodeAs _ bytes)
  | 4 => pit (decodeAs _ bytes)
  | 5 => keyboard (decodeAs _ bytes)
  | 6 => cmos (decodeAs _ bytes)
  | _ => pci (decodeAs _ bytes)

theorem length_withKind {α : Type} [Stored α] (kind : UInt8) (value : α)
    (h : Stored.size α ≤ kindAt) : (withKind kind value).length = 14 := by
  unfold withKind
  rw [List.length_append, List.length_append, Stored.length_encode, List.length_replicate]
  simp only [List.length_cons, List.length_nil]
  unfold kindAt at *
  omega

theorem kind_withKind {α : Type} [Stored α] (kind : UInt8) (value : α)
    (h : Stored.size α ≤ kindAt) : (withKind kind value)[kindAt]? = some kind := by
  unfold withKind
  have hlength : (Stored.encode value ++ List.replicate (kindAt - Stored.size α) 0).length =
      kindAt := by
    rw [List.length_append, Stored.length_encode, List.length_replicate]
    omega
  rw [List.getElem?_append_right (by omega), hlength]
  simp

theorem decodeAs_withKind {α : Type} [Stored α] (kind : UInt8) (value : α) :
    decodeAs α (withKind kind value) = value := by
  unfold decodeAs withKind
  rw [List.append_assoc, List.take_left' (Stored.length_encode value), Stored.decode_encode]

theorem decode_encode (payload : Payload) : decode payload.encode = payload := by
  cases payload with
  | uart settings =>
      unfold decode encode
      rw [kind_withKind _ _ (by decide), decodeAs_withKind]
      rfl
  | pic settings =>
      unfold decode encode
      rw [kind_withKind _ _ (by decide), decodeAs_withKind]
      rfl
  | pit settings =>
      unfold decode encode
      rw [kind_withKind _ _ (by decide), decodeAs_withKind]
      rfl
  | keyboard settings =>
      unfold decode encode
      rw [kind_withKind _ _ (by decide), decodeAs_withKind]
      rfl
  | cmos settings =>
      unfold decode encode
      rw [kind_withKind _ _ (by decide), decodeAs_withKind]
      rfl
  | pci function =>
      have hkind : (Stored.encode function)[kindAt]? =
          some (if function.selfTestStarted then 1 else 0) := rfl
      have hall : decodeAs PciFunction (Stored.encode function) = function := by
        unfold decodeAs
        rw [List.take_of_length_le (Nat.le_of_eq (Stored.length_encode function)),
          Stored.decode_encode]
      unfold decode encode
      rw [hkind, hall]
      cases function.selfTestStarted <;> rfl

instance : Stored Payload where
  size := 14
  align := 2
  encode := encode
  decode := decode
  length_encode payload := by
    cases payload with
    | uart settings => exact length_withKind _ _ (by decide)
    | pic settings => exact length_withKind _ _ (by decide)
    | pit settings => exact length_withKind _ _ (by decide)
    | keyboard settings => exact length_withKind _ _ (by decide)
    | cmos settings => exact length_withKind _ _ (by decide)
    | pci function => exact Stored.length_encode function
  decode_encode := decode_encode

instance : Owned Payload := ⟨fun _ => pure ()⟩

end Payload

end EarlyBoot
