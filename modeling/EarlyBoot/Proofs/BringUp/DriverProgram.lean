import EarlyBoot.Proofs.Bus.Answers
import EarlyBoot.Proofs.Ownership.Records

/-!
# Drivers as programs

What a driver does to its device is no more than to attach payloads.  In
between it may look at the device, reach its hardware and log, and decide by the
answers how to go on; in the end it reports a status.  A program is the tree of
these decisions.

A payload that finds room takes the place of the one before, and one that finds
none leaves it: in the end the device has the last payload for which there was
room.
-/

namespace EarlyBoot

/-- The computation always answers, and leaves the heap, the memory and the names alone. -/
def MachineM.Quiet {β γ : Type} (x : MachineM β γ) : Prop :=
  ∀ machine, ∃ value machine', x machine = .ok value machine' ∧
    machine.firmware.Untouched machine'.firmware

inductive DriverProgram (β : Type) : Type 1 where
  | report (status : DeviceStatus)
  | probe {γ : Type} (step : Device → MachineM β γ) (quiet : ∀ device, (step device).Quiet)
      (next : γ → DriverProgram β)
  | attach (payload : Payload) (next : Except HeapError Unit → DriverProgram β)
  | complete (payload : Payload) (next : DeviceStatus → DriverProgram β)

namespace DriverProgram

variable {β : Type} {machine : Machine β} {blocks : List BlockInfo}

def run : DriverProgram β → Driver β
  | report status, device => pure (status, device)
  | probe step _ next, device => do
      let value ← step device
      (next value).run device
  | attach payload next, device => do
      match ← device.attach payload with
      | .error error => (next (.error error)).run device
      | .ok device => (next (.ok ())).run device
  | complete payload next, device => do
      let (status, device) ← device.complete payload
      (next status).run device

/-- A driver runs, and the payloads that it attaches are told as well, those from before first. -/
def attaching : DriverProgram β → List Payload → Device →
    MachineM β (DeviceStatus × Device × List Payload)
  | report status, attached, device => pure (status, device, attached)
  | probe step _ next, attached, device => do
      let value ← step device
      (next value).attaching attached device
  | attach payload next, attached, device => do
      match ← device.attach payload with
      | .error error => (next (.error error)).attaching attached device
      | .ok device => (next (.ok ())).attaching (attached ++ [payload]) device
  | complete payload next, attached, device => do
      let (status, device) ← device.complete payload
      let attached := if status = .initialised then attached ++ [payload] else attached
      (next status).attaching attached device

theorem run_eq_attaching (program : DriverProgram β) (attached : List Payload)
    (device : Device) :
    program.run device = (do
      let (status, device, _) ← program.attaching attached device
      pure (status, device)) := by
  -- the list of payloads is carried along and decides nothing
  induction program generalizing attached device with
  | report status => rfl
  | probe step quiet next ih =>
      unfold run attaching
      rw [bind_assoc]
      exact bind_congr fun value => ih value attached device
  | attach payload next ih =>
      unfold run attaching
      rw [bind_assoc]
      refine bind_congr fun reply => ?_
      cases reply with
      | error error => exact ih (.error error) attached device
      | ok device' => exact ih (.ok ()) (attached ++ [payload]) device'
  | complete payload next ih =>
      unfold run attaching
      rw [bind_assoc]
      exact bind_congr fun (status, device') => ih status _ device'

def changed (device : Device) (payload : Option Payload) (device' : Device) : Deed :=
  device'.carries payload + Deed.unfunded +
    Deed.fact (device' = { device with payload := device'.payload })

theorem changed_amounts {device device' device'' : Device}
    (hsame : device' = { device with payload := device'.payload }) (payload : Option Payload)
    (f : Firmware) (blocks : List BlockInfo) :
    Amounts f blocks (changed device' payload device'') (changed device payload device'') := by
  refine .of_fact fun hsame' => (Amounts.refl _ _ _).and_fact fun _ => ?_
  rw [hsame] at hsame'
  exact hsame'

theorem attached_amounts (device device' : Device) (old : Option Payload) (payload : Payload)
    (n : Int) (f : Firmware) (blocks : List BlockInfo) :
    Amounts f blocks (device.attached old payload n (.ok device') + Deed.unfunded)
      (changed device (some payload) device') := by
  change Amounts f blocks (device'.carries (some payload) + Deed.fund _ + Deed.fact _ +
    Deed.unfunded) _
  rw [add_right_comm]
  refine Amounts.add ?_ (.refl _ _ _)
  rw [add_assoc]
  exact (Amounts.refl _ _ _).add (.unfunded _ rfl)

theorem attach_delivers (device : Device) (old : Option Payload) (payload : Payload)
    (f : Firmware) (blocks : List BlockInfo) :
    Delivers (device.attach payload) f blocks (device.carries old + Deed.unfunded)
      fun reply _ =>
        match reply with
        | .error _ => device.carries old + Deed.unfunded
        | .ok device' => changed device (some payload) device' := by
  have hattach : Delivers (device.attach payload) f blocks _ _ :=
    device.attach_delivers old payload 0
  rw [Deed.fund_zero, add_zero] at hattach
  refine (hattach.frame (.inl (by simp))).leaving ?_
  rintro (error | device') f' blocks'
  · change Amounts f' blocks' (device.carries old + Deed.fund 0 + Deed.fact _ + Deed.unfunded) _
    rw [add_right_comm, Deed.fund_zero, add_zero]
    exact .of_fact fun _ => .refl _ _ _
  · exact attached_amounts device device' old payload 0 f' blocks'

theorem complete_delivers (device : Device) (attached : List Payload) (payload : Payload)
    (f : Firmware) (blocks : List BlockInfo) :
    Delivers (device.complete payload) f blocks
      (device.carries attached.getLast? + Deed.unfunded) fun (status, device') _ =>
        changed device
          (if status = .initialised then attached ++ [payload] else attached).getLast?
          device' := by
  have hcomplete : Delivers (device.complete payload) f blocks _ _ :=
    device.complete_delivers attached.getLast? payload 0
  rw [Deed.fund_zero, add_zero] at hcomplete
  refine (hcomplete.frame (.inl (by simp))).leaving ?_
  rintro ⟨status, device'⟩ f' blocks'
  have hfailed : Amounts f' blocks' (device.carries attached.getLast? + Deed.fund 0 +
      Deed.fact (status = .faulty ∧ device' = device ∧
        (0 : Int) < BlockHeap.charge (Stored.size Payload)) + Deed.unfunded)
      (changed device attached.getLast? device') := by
    rw [add_right_comm, Deed.fund_zero, add_zero]
    refine .of_fact ?_
    rintro ⟨-, rfl, -⟩
    exact (Amounts.refl _ _ _).and_fact fun _ => rfl
  cases status with
  | initialised =>
      have hlast : (attached ++ [payload]).getLast? = some payload := by simp
      dsimp only
      rw [if_pos rfl, hlast]
      exact attached_amounts device device' attached.getLast? payload 0 f' blocks'
  | unknown => exact hfailed
  | notPresent => exact hfailed
  | present => exact hfailed
  | faulty => exact hfailed

theorem attaching_delivers (program : DriverProgram β) (attached : List Payload)
    (device : Device) (machine : Machine β) (blocks : List BlockInfo) :
    Delivers (program.attaching attached device) machine blocks
      (device.carries attached.getLast? + Deed.unfunded) fun (_, device', attached') _ =>
        changed device attached'.getLast? device' := by
  induction program generalizing attached device machine blocks with
  | report status => exact .pure ((Amounts.refl _ _ _).and_fact fun _ => rfl)
  | probe step quiet next ih =>
      obtain ⟨value, machine', hstep, huntouched⟩ := quiet device machine
      unfold attaching
      exact .skip hstep huntouched fun blocks' => ih value attached device machine' blocks'
  | attach payload next ih =>
      unfold attaching
      refine (attach_delivers device attached.getLast? payload _ _).lift_bind ?_
      rintro (error | device') f' blocks'
      · exact ih (.error error) attached device _ blocks'
      · refine .of_fact fun hsame => ?_
        have hlast : some payload = (attached ++ [payload]).getLast? := by simp
        rw [hlast]
        exact (ih (.ok ()) (attached ++ [payload]) device' _ blocks').leaving
          fun _ _ _ => changed_amounts hsame _ _ _
  | complete payload next ih =>
      unfold attaching
      refine (complete_delivers device attached payload _ _).lift_bind ?_
      rintro ⟨status, device'⟩ f' blocks'
      refine .of_fact fun hsame => ?_
      exact (ih status _ device' _ blocks').leaving fun _ _ _ => changed_amounts hsame _ _ _

end DriverProgram

end EarlyBoot
