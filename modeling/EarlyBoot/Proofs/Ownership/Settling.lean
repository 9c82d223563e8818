import EarlyBoot.Proofs.Bus.Drivers
import EarlyBoot.Proofs.Ownership.Refusal

/-!
# Settling a finding

A driver that has found its hardware working asks for room for a payload; only
this depends on the heap.  What the driver reports otherwise leaves the device
and its payload alone.
-/

namespace EarlyBoot

variable {β : Type} {device : Device} {old : Option Payload} {machine : Machine β}
  {blocks : List BlockInfo}

inductive Settled (fits : Prop) (device : Device) (old : Option Payload) :
    Except DeviceStatus Payload → DeviceStatus → Device → Option Payload → Prop
  | attached {payload : Payload} {device' : Device} (hfits : fits)
      (hsame : device' = { device with payload := device'.payload }) :
      Settled fits device old (.ok payload) .initialised device' (some payload)
  | refused {payload : Payload} (hfull : ¬ fits) :
      Settled fits device old (.ok payload) .faulty device old
  | reported (status : DeviceStatus) :
      Settled fits device old (.error status) status device old

theorem Driver.Finds.settles {driver : Driver β} {finding : Except DeviceStatus Payload} {bus' : β}
    {accesses : List Access} (hfinds : driver.Finds machine.bus finding bus' accesses)
    (hs : Holds machine.firmware blocks (device.carries old)) :
    ∃ (status : DeviceStatus) (device' : Device) (machine' : Machine β)
      (blocks' : List BlockInfo),
      driver device machine = .ok (status, device') machine' ∧
      machine'.trace = machine.trace.recordAll accesses ∧
      Holds machine'.firmware blocks'
        (device'.carries (device'.payload? machine'.firmware.memory)) ∧
      Settled (HeapBox.Fits Payload machine.firmware) device old finding status device'
        (device'.payload? machine'.firmware.memory) := by
  obtain ⟨firmware, huntouched, hrun⟩ := hfinds device machine.firmware machine.trace
  have hs' : Holds firmware blocks (device.carries old) :=
    (Exchanges.of_untouched hs huntouched).holds hs
  rcases finding with status | payload
  · have hpayload := Device.payload?_of_carries hs'.valid
    exact ⟨status, device, _, blocks, hrun, rfl, hpayload.symm ▸ hs', hpayload.symm ▸ .reported _⟩
  · rw [← HeapBox.fits_of_untouched huntouched]
    rcases Device.complete_outcome payload hs' with
      ⟨hfull, firmware', hcomplete, hs''⟩ |
      ⟨hfits, device', firmware', blocks', hcomplete, hsame, hs''⟩
    · have hpayload := Device.payload?_of_carries hs''.valid
      exact ⟨.faulty, device, _, blocks, hrun.trans (MachineM.lift_of_answer hcomplete), rfl,
        hpayload.symm ▸ hs'', hpayload.symm ▸ .refused hfull⟩
    · have hpayload := Device.payload?_of_carries hs''.valid
      exact ⟨.initialised, device', _, blocks', hrun.trans (MachineM.lift_of_answer hcomplete), rfl,
        hpayload.symm ▸ hs'', hpayload.symm ▸ .attached hfits hsame⟩

end EarlyBoot
