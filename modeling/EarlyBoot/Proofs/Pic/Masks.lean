import EarlyBoot.Pic
import EarlyBoot.Proofs.Bitmap
import EarlyBoot.Proofs.Bus.Polling

/-!
# Masks of the interrupt controllers

A line is unmasked by reading the mask and writing it back with one bit cleared.
All other bits are kept, and it is the only write to the interrupt controllers.
-/

namespace EarlyBoot.Pic

open MachineM (Answers Sends)
open PortBus (byteAt behind)

def unmasked (bit mask : UInt8) : UInt8 := mask &&& ~~~((1 : UInt8) <<< bit)

theorem testBit_unmasked {bit : UInt8} (mask : UInt8) {i : Nat} (hbit : bit < 8) (hi : i < 8) :
    (unmasked bit mask).toNat.testBit i = (decide (i ≠ bit.toNat) && mask.toNat.testBit i) := by
  have hbits (value : UInt8) : value.toNat.testBit i = Bitmap.testBit value i :=
    (Bitmap.testBit_eq_getLsbD hi).symm
  have hclear : unmasked bit mask = Bitmap.clearBit mask bit.toNat := by
    simp [unmasked, Bitmap.clearBit, Bitmap.mask]
  rw [hbits, hbits, hclear, Bitmap.testBit_clearBit (UInt8.lt_iff_toNat_lt.1 hbit) hi, decide_not]

def unmasking (irq mask : UInt8) : List Access :=
  .ofByte (line irq).1 mask ::
    .write .byte (line irq).1 (unmasked (line irq).2 mask).toUInt32 :: List.replicate pause .delay

theorem line_ne_delayPort (irq : UInt8) : (line irq).1 ≠ delayPort := by
  unfold line
  split
  · exact show primaryData ≠ delayPort by decide
  · exact show secondaryData ≠ delayPort by decide

def ports : List UInt16 :=
  [primaryCommand, primaryData, secondaryCommand, secondaryData, levelControlLow, levelControlHigh]

def written (accesses : List Access) : List (UInt16 × UInt32) :=
  accesses.filterMap fun
    | .write _ port value => if port ∈ ports then some (port, value) else none
    | .read .. | .delay => none

theorem written_append (first second : List Access) :
    written (first ++ second) = written first ++ written second :=
  List.filterMap_append

theorem written_unmasking (irq mask : UInt8) :
    written (unmasking irq mask) =
      [((line irq).1, (unmasked (line irq).2 mask).toUInt32)] := by
  have hport : (line irq).1 ∈ ports := by
    unfold line
    split
    · exact show primaryData ∈ ports by decide
    · exact show secondaryData ∈ ports by decide
  have hpause : written (List.replicate pause .delay) = [] := by decide
  unfold written at hpause
  simp [written, unmasking, Access.ofByte, hport, hpause]

variable {β : Type} [PortBus β]

theorem send_sends (port : UInt16) (value : UInt8) :
    Sends (send port value : MachineM β Unit)
      ((port, value) :: List.replicate pause (delayPort, 0)) :=
  (Sends.writeByte port value).bind (Sends.delay pause)

theorem unmaskLine_answers (irq : UInt8) (bus : β) :
    ∃ bus', Answers (unmaskLine irq) bus () bus' (unmasking irq (byteAt (line irq).1 bus)) := by
  have hread := Answers.readByte (line irq).1 bus
  have hwrite := send_sends (line irq).1 (unmasked (line irq).2 (byteAt (line irq).1 bus))
    (behind .byte (line irq).1 bus)
  have hboth := hread.bind (f := fun mask => send (line irq).1 (unmasked (line irq).2 mask)) hwrite
  have haccesses (mask : UInt8) : unmasking irq mask = [.ofByte (line irq).1 mask] ++
      Access.ofWrites
        (((line irq).1, unmasked (line irq).2 mask) :: List.replicate pause (delayPort, 0)) := by
    simp [unmasking, Access.ofWrites, Access.ofWrite, line_ne_delayPort]
  exact ⟨_, haccesses _ ▸ hboth⟩

end EarlyBoot.Pic
