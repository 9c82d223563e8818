import EarlyBoot.Pci.Config
import EarlyBoot.Port.Scripted
import EarlyBoot.Proofs.Bus.Answers

/-!
# Configuration space of a scripted bus

The address register tells the function and the register that the data
register stands for.  Between the two accesses nothing else happens, so a
register read has the value of the function's register, and a register written
is the only one that changes.
-/

namespace EarlyBoot

open MachineM (Answers)

theorem forall_byte {P : UInt8 → Prop} (h : ∀ i : Fin 256, P ⟨⟨i⟩⟩) (b : UInt8) : P b :=
  h b.toBitVec.toFin

theorem or_and_distrib (x y z : UInt32) : (x ||| y) &&& z = x &&& z ||| y &&& z :=
  UInt32.toBitVec_inj.1 BitVec.and_or_distrib_right

namespace PciAddress

variable {a : PciAddress}

/-- The address of one of 32 devices with eight functions each. -/
structure Addressable (a : PciAddress) : Prop where
  device_lt : a.device < 32
  function_lt : a.function < 8

def key (a : PciAddress) : UInt32 := ScriptedBus.pciKey a.bus a.device a.function

theorem configAddress_and_key (h : a.Addressable) (offset : UInt8) :
    a.configAddress offset &&& 0x00ffff00 = a.key := by
  have hbus : ∀ b : UInt8, (b.toUInt32 <<< 16) &&& (0x00ffff00 : UInt32) = b.toUInt32 <<< 16 :=
    forall_byte (by decide +kernel)
  have hdevice : ∀ d : UInt8, d < 32 →
      ((d &&& 0x1f).toUInt32 <<< 11) &&& (0x00ffff00 : UInt32) = d.toUInt32 <<< 11 :=
    forall_byte (by decide +kernel)
  have hfunction : ∀ f : UInt8, f < 8 →
      ((f &&& 0x07).toUInt32 <<< 8) &&& (0x00ffff00 : UInt32) = f.toUInt32 <<< 8 :=
    forall_byte (by decide +kernel)
  have hoffset : ∀ o : UInt8, (o &&& 0xfc).toUInt32 &&& (0x00ffff00 : UInt32) = 0 :=
    forall_byte (by decide +kernel)
  unfold configAddress
  rw [or_and_distrib, or_and_distrib, or_and_distrib, or_and_distrib, hbus,
    hdevice _ h.device_lt, hfunction _ h.function_lt, hoffset, UInt32.or_zero]
  change (0 : UInt32) ||| a.bus.toUInt32 <<< 16 ||| _ ||| _ = _
  rw [UInt32.zero_or]
  rfl

theorem configAddress_and_offset (a : PciAddress) (offset : UInt8) :
    (a.configAddress offset &&& 0xfc).toNat / 4 = offset.toNat / 4 := by
  have hbus : ∀ b : UInt8, (b.toUInt32 <<< 16) &&& (0xfc : UInt32) = 0 :=
    forall_byte (by decide +kernel)
  have hdevice : ∀ d : UInt8, ((d &&& 0x1f).toUInt32 <<< 11) &&& (0xfc : UInt32) = 0 :=
    forall_byte (by decide +kernel)
  have hfunction : ∀ f : UInt8, ((f &&& 0x07).toUInt32 <<< 8) &&& (0xfc : UInt32) = 0 :=
    forall_byte (by decide +kernel)
  have hoffset : ∀ o : UInt8, ((o &&& 0xfc).toUInt32 &&& (0xfc : UInt32)).toNat / 4 =
      o.toNat / 4 := forall_byte (by decide +kernel)
  unfold configAddress
  rw [or_and_distrib, or_and_distrib, or_and_distrib, or_and_distrib, hbus, hdevice, hfunction]
  change ((0 : UInt32) ||| _).toNat / 4 = _
  rw [UInt32.zero_or]
  exact hoffset offset

theorem configAddress_enabled (a : PciAddress) (offset : UInt8) :
    a.configAddress offset &&& 0x80000000 ≠ 0 := by
  intro hzero
  unfold configAddress at hzero
  rw [or_and_distrib, or_and_distrib, or_and_distrib, or_and_distrib, UInt32.or_eq_zero_iff,
    UInt32.or_eq_zero_iff, UInt32.or_eq_zero_iff, UInt32.or_eq_zero_iff] at hzero
  exact absurd hzero.1.1.1.1 (by decide)

end PciAddress

namespace ScriptedBus

variable {bus : ScriptedBus} {a : PciAddress} {registers : PciRegisters}

def registers? (bus : ScriptedBus) (a : PciAddress) : Option PciRegisters :=
  bus.pciFunctions.get? a.key

def allOnes : UInt32 := 0xffffffff

def register (bus : ScriptedBus) (a : PciAddress) (offset : UInt8) : UInt32 :=
  ((bus.registers? a).bind fun registers => registers[offset.toNat / 4]?).getD allOnes

theorem selected_of_configAddress {offset : UInt8} (ha : a.Addressable)
    (hselects : bus.pciAddress = a.configAddress offset) :
    bus.selected? = (bus.registers? a).map fun registers =>
      (a.key, registers, offset.toNat / 4) := by
  unfold selected?
  rw [hselects, if_neg (a.configAddress_enabled offset), a.configAddress_and_offset,
    PciAddress.configAddress_and_key ha]
  rfl

theorem readPci_of_configAddress {offset : UInt8} (ha : a.Addressable)
    (hselects : bus.pciAddress = a.configAddress offset) :
    bus.readPci = bus.register a offset := by
  unfold readPci register
  rw [selected_of_configAddress ha hselects]
  cases bus.registers? a <;> rfl

theorem writePci_of_configAddress {offset : UInt8} (ha : a.Addressable)
    (hselects : bus.pciAddress = a.configAddress offset)
    (hregisters : bus.registers? a = some registers) (value : UInt32) :
    bus.writePci value = { bus with
      pciFunctions := bus.pciFunctions.insert a.key
        (registers.setIfInBounds (offset.toNat / 4) value) } := by
  unfold writePci
  rw [selected_of_configAddress ha hselects, hregisters]
  rfl

end ScriptedBus

namespace Pci

variable {bus : ScriptedBus} {a : PciAddress} {registers : PciRegisters}

theorem readRegister_answers (ha : a.Addressable) (bus : ScriptedBus) (offset : UInt8) :
    ∃ bus' accesses, Answers (readRegister a offset) bus (bus.register a offset) bus' accesses ∧
      bus'.pciFunctions = bus.pciFunctions := by
  let selected : ScriptedBus := bus.write addressPort (a.configAddress offset)
  have hread : (PortBus.read selected .dword dataPort).1 &&& Width.dword.mask =
      bus.register a offset := by
    change selected.readPci &&& (0xffffffff : UInt32) = _
    rw [ScriptedBus.readPci_of_configAddress ha rfl]
    exact UInt32.and_neg_one
  have hanswers := Answers.readPort .dword dataPort selected
  rw [hread] at hanswers
  exact ⟨selected, _, (Answers.writePort _ _ _ _).bind hanswers, rfl⟩

theorem writeRegister_answers (ha : a.Addressable) (hregisters : bus.registers? a = some registers)
    (offset : UInt8) (value : UInt32) :
    ∃ bus' accesses, Answers (writeRegister a offset value) bus () bus' accesses ∧
      bus'.pciFunctions = bus.pciFunctions.insert a.key
        (registers.setIfInBounds (offset.toNat / 4) value) := by
  let selected : ScriptedBus := bus.write addressPort (a.configAddress offset)
  have hselected : selected.registers? a = some registers := hregisters
  refine ⟨_, _, (Answers.writePort _ _ _ _).bind (.writePort .dword dataPort value selected), ?_⟩
  change (selected.writePci value).pciFunctions = _
  rw [ScriptedBus.writePci_of_configAddress ha rfl hselected]
  rfl

end Pci

end EarlyBoot
