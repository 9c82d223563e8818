import EarlyBoot.Device.List
import EarlyBoot.Proofs.Bus.Answers

/-!
# What drivers find

Every driver first probes its hardware and reaches nothing but ports, and then
settles what it has found: either the hardware works, and the device gets a
payload, or the driver reports a status.  So the finding, the bus that a driver
leaves and the accesses it makes depend on the bus alone, and only the payload
may fail to find room.
-/

namespace EarlyBoot

open MachineM

variable {α β : Type} {bus bus₁ bus₂ : β} {first second : List Access}

/-- How a driver ends: with the payload of hardware that works, or with a status. -/
def Device.settle (finding : Except DeviceStatus Payload) : Driver β := fun device =>
  match finding with
  | .ok payload => device.complete payload
  | .error status => pure (status, device)

/-- What a driver finds on a bus, how it leaves the bus, and which accesses it makes. -/
def Driver.Finds (driver : Driver β) (bus : β) (finding : Except DeviceStatus Payload) (bus' : β)
    (accesses : List Access) : Prop :=
  ∀ device firmware trace, ∃ firmware', firmware.Untouched firmware' ∧
    driver device ⟨firmware, bus, trace⟩ =
      Device.settle finding device ⟨firmware', bus', trace.recordAll accesses⟩

namespace Driver

theorem Finds.settle (finding : Except DeviceStatus Payload) (bus : β) :
    Finds (Device.settle finding) bus finding bus [] :=
  fun _ firmware _ => ⟨firmware, .refl firmware, rfl⟩

theorem Finds.bind {x : MachineM β α} {f : α → Driver β} {a : α}
    {finding : Except DeviceStatus Payload} (hx : Answers x bus a bus₁ first)
    (hf : Finds (f a) bus₁ finding bus₂ second) :
    Finds (fun device => x >>= fun a => f a device) bus finding bus₂ (first ++ second) := by
  intro device firmware trace
  obtain ⟨firmware₁, huntouched, hrun⟩ := hx firmware trace
  obtain ⟨firmware₂, huntouched', hrun'⟩ := hf device firmware₁ (trace.recordAll first)
  refine ⟨firmware₂, huntouched.trans huntouched', ?_⟩
  rw [Trace.recordAll_append]
  exact (bind_of_answer hrun).trans hrun'

theorem Finds.log_bind {driver : Driver β} {finding : Except DeviceStatus Payload}
    {accesses : List Access} (level : LogLevel) (message : String)
    (h : driver.Finds bus finding bus₁ accesses) :
    Finds (fun device => do liftM (FirmwareM.log level message); driver device) bus finding bus₁
      accesses :=
  .bind (.log level message bus) h

theorem Finds.ite_pos {driver other : Driver β} {finding : Except DeviceStatus Payload}
    {accesses : List Access} {c : Prop} [Decidable c] (hc : c)
    (h : driver.Finds bus finding bus₁ accesses) :
    Finds (fun device => if c then driver device else other device) bus finding bus₁ accesses := by
  simpa only [if_pos hc] using h

theorem Finds.ite_neg {driver other : Driver β} {finding : Except DeviceStatus Payload}
    {accesses : List Access} {c : Prop} [Decidable c] (hc : ¬ c)
    (h : other.Finds bus finding bus₁ accesses) :
    Finds (fun device => if c then driver device else other device) bus finding bus₁ accesses := by
  simpa only [if_neg hc] using h

/-- A driver that finds something on every bus, and never that nothing is known. -/
def Probing (driver : Driver β) : Prop :=
  ∀ bus, ∃ finding bus' accesses,
    driver.Finds bus finding bus' accesses ∧ finding ≠ .error .unknown

namespace Probing

theorem complete (payload : Payload) :
    Probing (fun device => device.complete payload : Driver β) :=
  fun bus => ⟨.ok payload, bus, [], Finds.settle (.ok payload) bus, by simp⟩

theorem report {status : DeviceStatus} (hknown : status ≠ .unknown) :
    Probing (fun device => pure (status, device) : Driver β) :=
  fun bus => ⟨.error status, bus, [], Finds.settle (.error status) bus, by simpa using hknown⟩

theorem bind {x : MachineM β α} {f : α → Driver β} (hx : PortOnly x) (hf : ∀ a, Probing (f a)) :
    Probing fun device => x >>= fun a => f a device := by
  intro bus
  obtain ⟨a, bus₁, first, hfirst⟩ := hx bus
  obtain ⟨finding, bus₂, second, hsecond, hknown⟩ := hf a bus₁
  exact ⟨finding, bus₂, _, Finds.bind hfirst hsecond, hknown⟩

theorem ite {c : Prop} [Decidable c] {driver other : Driver β} (hthen : Probing driver)
    (helse : Probing other) : Probing fun device => if c then driver device else other device := by
  by_cases hc : c
  · simpa only [if_pos hc] using hthen
  · simpa only [if_neg hc] using helse

end Probing

end Driver

end EarlyBoot
