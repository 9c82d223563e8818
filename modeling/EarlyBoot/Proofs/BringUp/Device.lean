import EarlyBoot.Proofs.Bus.Drivers
import EarlyBoot.Proofs.Ownership.Refusal

/-!
# Bringing up one device

A device comes out of bring-up with the status that its driver reported; only
if the heap has no block for the payload of hardware that works is it faulty
instead.  It is recorded in the list, unless it is critical and failed or the
heap has refused its record or its place: then the list is as before.
-/

namespace EarlyBoot

open FirmwareM

variable {β : Type} {machine machine' : Machine β} {f : Firmware} {blocks : List BlockInfo}
  {bus : β} {accesses : List Access} {finding : Except DeviceStatus Payload} {driver : Driver β}
  {name : String} {access : DeviceAccess} {critical : Bool}

/-- A new device cannot be left in doubt: a driver that knows nothing has failed. -/
def DeviceStatus.settled (report : DeviceStatus) : DeviceStatus :=
  if report = .unknown then .faulty else report

namespace Device

def learnt : Except DeviceStatus Payload → DeviceStatus → Option Payload
  | .ok payload, .initialised => some payload
  | _, _ => none

/-- The status to which a finding leads, depending on whether a payload fits. -/
inductive Settles (fits : Prop) : Except DeviceStatus Payload → DeviceStatus → Prop
  | stored {payload : Payload} (hfits : fits) : Settles fits (.ok payload) .initialised
  | starved {payload : Payload} (hfull : ¬ fits) : Settles fits (.ok payload) .faulty
  | reported (status : DeviceStatus) : Settles fits (.error status) status

theorem Settles.eq_report {fits : Prop} {report status : DeviceStatus}
    (h : Settles fits (.error report) status) : status = report := by
  cases h
  rfl

theorem Settles.ne_unknown {fits : Prop} {status : DeviceStatus}
    (h : Settles fits finding status) (hknown : finding ≠ .error .unknown) :
    status ≠ .unknown := by
  cases h with
  | stored => nofun
  | starved => nofun
  | reported => exact fun heq => hknown (congrArg Except.error heq)

theorem settles_of_complete {device device' : Device} {old : Option Payload} {payload : Payload}
    {status : DeviceStatus} {f' : Firmware} (hs : Holds f blocks (device.carries old))
    (hrun : device.complete payload f = .ok (status, device') f') :
    Settles (HeapBox.Fits Payload f) (.ok payload) status := by
  rcases complete_outcome payload hs with
    ⟨hfull, f₁, hcomplete, -⟩ | ⟨hfits, device₁, f₁, blocks₁, hcomplete, -⟩
  · cases hrun.symm.trans hcomplete
    exact .starved hfull
  · cases hrun.symm.trans hcomplete
    exact .stored hfits

theorem status_of_complete {device device' : Device} {payload : Payload} {status : DeviceStatus}
    {f' : Firmware} (hrun : device.complete payload f = .ok (status, device') f') :
    status = .initialised ∨ status = .faulty :=
  (attached_of_complete hrun).imp_left And.left

def settled (device : Device) (fits : Prop) (finding : Except DeviceStatus Payload)
    (reply : DeviceStatus × Device) : Deed :=
  reply.2.carries (learnt finding reply.1) + Deed.unfunded +
    Deed.fact (reply.2 = { device with payload := reply.2.payload } ∧
      Settles fits finding reply.1)

theorem settle_delivers (finding : Except DeviceStatus Payload) (device : Device)
    (machine : Machine β) :
    Delivers (settle finding device) machine blocks (device.carries none + Deed.unfunded)
      fun reply machine' =>
        device.settled (HeapBox.Fits Payload machine.firmware) finding reply +
          Deed.fact (machine'.bus = machine.bus ∧ machine'.trace = machine.trace) := by
  cases finding with
  | error status =>
      exact .pure (((Amounts.refl _ _ _).and_fact fun _ => ⟨rfl, .reported status⟩).and_fact
        fun _ => ⟨rfl, rfl⟩)
  | ok payload =>
      refine .of_holds fun hs => ?_
      have hown : Holds machine.firmware blocks (device.carries none) := hs.left (.inl (by simp))
      have hcomplete : Delivers (device.complete payload) machine.firmware blocks
          (device.carries none + Deed.fund 0) _ := (device.complete_delivers none payload 0).running
      rw [Deed.fund_zero, add_zero] at hcomplete
      refine (hcomplete.frame (.inl (by simp))).lift.leaving ?_
      rintro ⟨status, device'⟩ machine' blocks'
      refine Amounts.add ?_ (.refl _ _ _)
      rw [add_right_comm]
      refine .of_fact fun hrun => ?_
      cases settles_of_complete hown hrun with
      | stored hfits =>
          change Amounts _ _ (device'.carries (some payload) + Deed.fund _ + Deed.fact _ +
            Deed.unfunded) _
          rw [add_right_comm]
          refine .of_fact fun hsame => Amounts.and_fact ?_ fun _ => ⟨hsame, .stored hfits⟩
          rw [add_assoc]
          exact (Amounts.refl _ _ _).add (.unfunded _ rfl)
      | starved hfull =>
          change Amounts _ _ (device.carries none + Deed.fund 0 + Deed.fact _ + Deed.unfunded) _
          rw [add_right_comm, Deed.fund_zero, add_zero]
          refine .of_fact fun ⟨_, hsame, _⟩ => ?_
          subst hsame
          exact (Amounts.refl _ _ _).and_fact fun _ => ⟨rfl, .starved hfull⟩

end Device

theorem Driver.Finds.delivers (machine : Machine β)
    (hfinds : driver.Finds machine.bus finding bus accesses) (device : Device) :
    Delivers (driver device) machine blocks (device.carries none + Deed.unfunded)
      fun reply machine' =>
        device.settled (HeapBox.Fits Payload machine.firmware) finding reply +
          Deed.fact (machine'.bus = bus ∧ machine'.trace = machine.trace.recordAll accesses) := by
  obtain ⟨firmware', huntouched, hrun⟩ := hfinds device machine.firmware machine.trace
  rw [← HeapBox.fits_of_untouched huntouched]
  exact .continuing hrun huntouched (Device.settle_delivers finding device _)

theorem Driver.Finds.of_reported {device device' : Device} {status : DeviceStatus}
    (hfinds : driver.Finds machine.bus finding bus accesses)
    (hrun : driver device machine = .ok (status, device') machine')
    (hworks : status ≠ .initialised) (hstarves : status ≠ .faulty) :
    finding = .error status ∧ machine'.bus = bus := by
  obtain ⟨f, bus₀, trace⟩ := machine
  obtain ⟨f', -, hsettle⟩ := hfinds device f trace
  rw [hrun] at hsettle
  cases finding with
  | error report =>
      cases hsettle
      exact ⟨rfl, rfl⟩
  | ok payload =>
      obtain ⟨f₁, hcomplete, -⟩ := MachineM.answers_of_lift hsettle.symm
      rcases Device.status_of_complete hcomplete with h | h
      · exact absurd h hworks
      · exact absurd h hstarves

namespace Device

/-! ## The decision -/

def judge (name : String) (critical : Bool) (status : DeviceStatus) :
    Except DeviceError DeviceStatus :=
  if critical ∧ status ≠ .initialised then .error (.critical name status) else .ok status

theorem judge_outcome (device : Device) (name : String) (critical : Bool) (status : DeviceStatus)
    (machine : Machine β) :
    ∃ f', machine.firmware.Untouched f' ∧
      (if status = .initialised then do
          info s!"{name}: ok"
          pure (.ok status, { device with status })
        else do
          warn s!"{name}: failed ({status.describe})"
          if critical then pure (.error (.critical name status), { device with status })
          else pure (.ok status, { device with status }) : MachineM β _) machine =
        .ok (judge name critical status, { device with status })
          { machine with firmware := f' } := by
  by_cases hok : status = .initialised
  · have hjudge : judge name critical status = .ok status := if_neg fun h => h.2 hok
    rw [if_pos hok, hjudge]
    exact ⟨_, .logged _ _, rfl⟩
  · rw [if_neg hok]
    by_cases hcritical : critical = true
    · have hjudge : judge name critical status = .error (.critical name status) :=
        if_pos ⟨hcritical, hok⟩
      rw [if_pos hcritical, hjudge]
      exact ⟨_, .logged _ _, rfl⟩
    · have hjudge : judge name critical status = .ok status := if_neg fun h => hcritical h.1
      rw [if_neg hcritical, hjudge]
      exact ⟨_, .logged _ _, rfl⟩

def announced (name : String) (machine : Machine β) : Machine β :=
  { machine with firmware := { machine.firmware with
      console := machine.firmware.console.log .info s!"Initializing {name}..." } }

theorem announced_untouched (name : String) (machine : Machine β) :
    machine.firmware.Untouched (announced name machine).firmware :=
  .logged _ _

theorem bringUp_of_run {device device' : Device} {status : DeviceStatus} (critical : Bool)
    (hstatus : device.status = .unknown)
    (hrun : driver { device with name } (announced name machine) =
      .ok (status, device') machine') :
    ∃ f', machine'.firmware.Untouched f' ∧
      device.bringUp driver name critical machine =
        .ok (judge name critical status.settled, { device' with status := status.settled })
          { machine' with firmware := f' } := by
  have hlog : device.bringUp driver name critical machine =
      (driver { device with name } >>= _) (announced name machine) := rfl
  rw [hlog, bind_of_answer hrun]
  dsimp only
  by_cases hunknown : status = .unknown
  · have hstays : ¬ device.status.canBecome status = true := by
      rw [hstatus, hunknown]
      decide
    have hsettled : status.settled = .faulty := if_pos hunknown
    rw [if_neg hstays, hsettled]
    let warned : Machine β := { machine' with firmware := { machine'.firmware with
      console := machine'.firmware.console.log .warn
        s!"{name}: driver reported {status.describe} while {device.status.describe}" } }
    obtain ⟨f', huntouched, hjudge⟩ := judge_outcome device' name critical .faulty warned
    exact ⟨f', (Firmware.Untouched.logged machine'.firmware _).trans huntouched, hjudge⟩
  · have hfollows : device.status.canBecome status = true := by
      rw [hstatus]
      exact bne_iff_ne.2 hunknown
    have hsettled : status.settled = status := if_neg hunknown
    rw [if_pos hfollows, hsettled]
    exact judge_outcome device' name critical status machine'

theorem bringUp_of_report (device : Device) (machine : Machine β) {report : DeviceStatus}
    (hstatus : device.status = .unknown)
    (hfinds : driver.Finds machine.bus (.error report) bus accesses) (hknown : report ≠ .unknown)
    (name : String) (critical : Bool) :
    ∃ machine', device.bringUp driver name critical machine =
      .ok (judge name critical report, { device with name, status := report }) machine' := by
  obtain ⟨f', -, hrun⟩ :=
    hfinds { device with name } (announced name machine).firmware machine.trace
  have hsettled : report.settled = report := if_neg hknown
  obtain ⟨f'', -, hbringUp⟩ := bringUp_of_run critical hstatus hrun
  rw [hsettled] at hbringUp
  exact ⟨_, hbringUp⟩

def judged (device : Device) (fits : Prop) (finding : Except DeviceStatus Payload) (name : String)
    (critical : Bool) (reply : Except DeviceError DeviceStatus × Device) : Deed :=
  reply.2.carries (learnt finding reply.2.status) + Deed.unfunded +
    Deed.fact (reply.1 = judge name critical reply.2.status ∧ reply.2.name = name ∧
      reply.2.access = device.access ∧ Settles fits finding reply.2.status)

theorem bringUp_delivers {device : Device} (machine : Machine β)
    (hstatus : device.status = .unknown)
    (hfinds : driver.Finds machine.bus finding bus accesses) (hknown : finding ≠ .error .unknown)
    (name : String) (critical : Bool) :
    Delivers (device.bringUp driver name critical) machine blocks
      (device.carries none + Deed.unfunded) fun reply machine' =>
        device.judged (HeapBox.Fits Payload machine.firmware) finding name critical reply +
          Deed.fact (machine'.bus = bus ∧ machine'.trace = machine.trace.recordAll accesses) := by
  intro hs
  have hlogged := Exchanges.of_untouched hs (announced_untouched name machine)
  have hdriver : Delivers (driver { device with name }) (announced name machine) blocks
      (device.carries none + Deed.unfunded) _ :=
    Driver.Finds.delivers (announced name machine) hfinds { device with name }
  obtain ⟨⟨status, device'⟩, machine₂, blocks₂, hrun, h⟩ := hdriver (hlogged.holds hs)
  obtain ⟨⟨-, hsame, hsettles⟩, hran⟩ := h.valid
  rw [HeapBox.fits_of_untouched (announced_untouched name machine)] at hsettles
  -- a new device may get any status but the one it has
  have hsettled : status.settled = status := if_neg (hsettles.ne_unknown hknown)
  obtain ⟨f', huntouched, hbringUp⟩ := bringUp_of_run critical hstatus hrun
  rw [hsettled] at hbringUp
  have hended := Exchanges.of_untouched (h.holds (hlogged.holds hs)) huntouched
  have hleft : Amounts f' blocks₂
      ({ device with name }.settled (HeapBox.Fits Payload (announced name machine).firmware)
        finding (status, device') + Deed.fact (machine₂.bus = bus ∧
          machine₂.trace = (announced name machine).trace.recordAll accesses))
      (device.judged (HeapBox.Fits Payload machine.firmware) finding name critical
        (judge name critical status, { device' with status }) +
          Deed.fact (machine₂.bus = bus ∧
            machine₂.trace = machine.trace.recordAll accesses)) := by
    refine .of_fact fun _ => .of_fact fun _ => Amounts.and_fact ?_ fun _ => hran
    refine (Amounts.refl _ _ _).and_fact fun _ => ⟨rfl, ?_, ?_, hsettles⟩
    · exact (congrArg Device.name hsame : device'.name = name)
    · exact (congrArg (·.access) hsame : device'.access = device.access)
  exact ⟨_, _, blocks₂, hbringUp, hlogged.trans (h.trans (hended.trans
    (hleft.exchanges (hended.holds (h.holds (hlogged.holds hs))))))⟩

/-! ## The record -/

def enrolled (f : Firmware) : Except HeapError (HeapBox DeviceRecord) → Deed
  | .ok box => box.shell + Deed.unfunded
  | .error error => Deed.unfunded +
      Deed.fact (error.IsExhaustion ∧ ¬ HeapBox.Fits DeviceRecord f)

theorem record_delivers (name : String) (access : DeviceAccess) :
    Delivers (Device.new name access).toRecord f blocks 0 fun reply _ => enrolled f reply := by
  let device := Device.new name access
  have hmoved : Delivers device.toRecord f blocks (device.carries none + Deed.fund 0) _ :=
    (device.toRecord_delivers none 0).running
  have hnone : device.carries none + Deed.fund 0 = 0 := by
    rw [Deed.fund_zero, add_zero]
    rfl
  rw [hnone] at hmoved
  refine hmoved.leaving ?_
  rintro (error | box) f' blocks'
  · refine .of_fact fun hrun => .of_fact fun ⟨hexhausted, _⟩ => ?_
    exact (Amounts.unfunded _ rfl).and_fact fun _ => ⟨hexhausted, not_fits_of_toRecord hrun⟩
  · refine .of_fact fun _ => ?_
    have hshell : Amounts f' blocks' (recorded box device) box.shell :=
      (recorded_amounts box device f' blocks').trans (box.keeps_amounts _)
    change Amounts f' blocks' (recorded box device + device.carries none + Deed.fund _) _
    rw [add_assoc]
    exact hshell.add (.unfunded _ rfl)

/-- A device has got its record, and its driver has come to a status. -/
inductive Tried (name : String) (access : DeviceAccess) (finding : Except DeviceStatus Payload)
    (f : Firmware) (status : DeviceStatus) : Prop
  | intro {box : HeapBox DeviceRecord} {f' : Firmware}
      (hrecord : (Device.new name access).toRecord f = .ok (.ok box) f')
      (hsettles : Settles (HeapBox.Fits Payload f') finding status)

end Device

namespace DeviceList

variable {list : DeviceList} {ds : List Description} {trace : Trace}

/-- The heap has refused what the bring-up of a device cannot do without, in a state of its run. -/
inductive Refused (list : DeviceList) (driver : Driver β) (name : String) (access : DeviceAccess)
    (critical : Bool) (machine : Machine β) : Prop
  | record (hfull : ¬ HeapBox.Fits DeviceRecord machine.firmware)
  | place {box : HeapBox DeviceRecord} {device : Device} {status : DeviceStatus}
      {machine' : Machine β} {f f' : Firmware}
      (hrecord : (Device.new name access).toRecord machine.firmware = .ok (.ok box) f)
      (hdriver : (Device.new name access).bringUp driver name critical
        { machine with firmware := f } = .ok (.ok status, device) machine')
      (hstore : device.store box machine'.firmware = .ok () f')
      (hfull : ¬ list.boxes.Extensible f')

theorem Refused.record_of_critical {report : DeviceStatus}
    (h : list.Refused driver name access true machine)
    (hfinds : driver.Finds machine.bus (.error report) bus accesses) (hknown : report ≠ .unknown)
    (hfailed : report ≠ .initialised) : ¬ HeapBox.Fits DeviceRecord machine.firmware := by
  cases h with
  | record hfull => exact hfull
  | @place box device status machine' f f' hrecord hdriver hstore hfull =>
      obtain ⟨machine'', hstops⟩ := Device.bringUp_of_report (Device.new name access)
        { machine with firmware := f } rfl hfinds hknown name true
      have hjudge : Device.judge name true report = .error (.critical name report) :=
        if_pos ⟨rfl, hfailed⟩
      rw [hjudge] at hstops
      cases hstops.symm.trans hdriver

def broughtUp (list : DeviceList) (ds : List Description) (driver : Driver β)
    (finding : Except DeviceStatus Payload) (name : String) (access : DeviceAccess)
    (critical : Bool) (machine : Machine β) (ran : Prop) :
    Except DeviceError (DeviceStatus × DeviceList) → Deed
  | .ok (status, list') =>
      list'.listing (ds ++ [⟨name, status, access, Device.learnt finding status⟩]) +
        Deed.unfunded + Deed.fact (Device.Tried name access finding machine.firmware status ∧
          Device.judge name critical status = .ok status ∧ ran)
  | .error (.critical name' status) => list.listing ds + Deed.unfunded +
      Deed.fact (Device.Tried name access finding machine.firmware status ∧
        Device.judge name critical status = .error (.critical name' status) ∧ ran)
  | .error (.allocateRecord name' source) => list.listing ds + Deed.unfunded +
      Deed.fact (name' = name ∧ source.IsExhaustion ∧
        list.Refused driver name access critical machine)

def enlist (list : DeviceList) (name : String) (critical : Bool) (status : DeviceStatus)
    (box : HeapBox DeviceRecord) : MachineM β (Except DeviceError (DeviceStatus × DeviceList)) := do
  match Device.judge name critical status with
  | .error error =>
      Owned.drop box
      pure (.error error)
  | .ok status =>
      match ← list.push box with
      | .error error => pure (.error (.allocateRecord name error))
      | .ok list => pure (.ok (status, list))

theorem file_delivers {box : HeapBox DeviceRecord} {device : Device} {start : Machine β}
    (htried : Device.Tried device.name device.access finding start.firmware device.status)
    (hplace : ∀ f', device.store box machine.firmware = .ok () f' →
      Device.judge device.name critical device.status = .ok device.status →
        ¬ list.boxes.Extensible f' →
          list.Refused driver device.name device.access critical start)
    (hran : machine.bus = bus ∧ machine.trace = trace) :
    Delivers (do
      device.store box
      list.enlist device.name critical device.status box : MachineM β _) machine blocks
      (box.shell + (device.carries (Device.learnt finding device.status) +
        (list.listing ds + Deed.unfunded))) fun reply machine' =>
          list.broughtUp ds driver finding device.name device.access critical start
            (machine'.bus = bus ∧ machine'.trace = trace) reply := by
  let e : Entry := ⟨box, device, Device.learnt finding device.status⟩
  have hstore : Delivers (device.store box) machine.firmware blocks box.shell _ :=
    (device.store_delivers box).running
  refine hstore.lift_bind_frame (.inl le_rfl) fun _ f₁ blocks₁ => ?_
  rw [add_right_comm]
  refine .of_fact fun hstored => ?_
  have hparts : recorded box device + (device.carries e.payload +
      (list.listing ds + Deed.unfunded)) = e.deed + (list.listing ds + Deed.unfunded) := by
    unfold Entry.deed
    abel
  rw [hparts]
  unfold enlist
  by_cases hstops : critical ∧ device.status ≠ .initialised
  · have hjudge : Device.judge device.name critical device.status =
        .error (.critical device.name device.status) := if_pos hstops
    have hdrop : Delivers (Owned.drop box) f₁ blocks₁ e.deed fun _ _ => 0 := e.drop_delivers _ _
    rw [hjudge]
    dsimp only
    with_reducible refine hdrop.lift_bind_frame (.inl e.budget_deed.le) fun _ f₂ blocks₂ => ?_
    rw [zero_add]
    exact .pure ((Amounts.refl _ _ _).and_fact fun _ => ⟨htried, hjudge, hran⟩)
  · have hjudge : Device.judge device.name critical device.status = .ok device.status :=
      if_neg hstops
    have hpush : Delivers (list.push box) f₁ blocks₁ (e.deed + list.listing ds) _ :=
      push_exchanges e
    rw [hjudge, ← add_assoc]
    dsimp only
    with_reducible refine (hpush.frame (.inl (by simp))).lift_bind ?_
    rintro (error | list') f₂ blocks₂
    · rw [add_right_comm]
      refine .pure (.of_fact fun ⟨hexhausted, hfull⟩ => Amounts.and_fact ?_ fun _ => ?_)
      · rw [add_assoc, Deed.unfunded_add_unfunded]
        exact .refl _ _ _
      · exact ⟨rfl, hexhausted, hplace f₁ hstored hjudge hfull⟩
    · refine .pure (Amounts.and_fact ?_ fun _ => ⟨htried, hjudge, hran⟩)
      rw [add_assoc, Deed.unfunded_add_unfunded]
      exact .refl _ _ _

theorem bringUp_delivers (hfinds : driver.Finds machine.bus finding bus accesses)
    (hknown : finding ≠ .error .unknown) (name : String) (access : DeviceAccess)
    (critical : Bool) :
    Delivers (list.bringUp driver name access critical) machine blocks
      (list.listing ds + Deed.unfunded) fun reply machine' =>
        list.broughtUp ds driver finding name access critical machine
          (machine'.bus = bus ∧ machine'.trace = machine.trace.recordAll accesses) reply := by
  let device := Device.new name access
  let rest := list.listing ds + Deed.unfunded
  have hnothing : rest = 0 + rest := (zero_add rest).symm
  have hbare : device.carries none = 0 := rfl
  unfold bringUp
  change Delivers _ _ _ rest _
  rw [hnothing]
  refine (Device.record_delivers name access).running.lift_bind_frame (.inl le_rfl) ?_
  rintro (error | box) f₁ blocks₁
  · rw [add_right_comm]
    refine .of_fact fun _ => .pure ?_
    change Amounts _ _ (Deed.unfunded + Deed.fact _ + (list.listing ds + Deed.unfunded)) _
    rw [add_right_comm, add_left_comm, Deed.unfunded_add_unfunded]
    refine .of_fact fun ⟨hexhausted, hfull⟩ => (Amounts.refl _ _ _).and_fact fun _ => ?_
    exact ⟨rfl, hexhausted, .record hfull⟩
  · rw [add_right_comm]
    refine .of_fact fun hrecorded => ?_
    have hrun : Delivers (device.bringUp driver name critical) { machine with firmware := f₁ }
        blocks₁ (device.carries none + Deed.unfunded) _ :=
      (Device.bringUp_delivers { machine with firmware := f₁ } rfl hfinds hknown name
        critical).running
    rw [hbare, zero_add] at hrun
    change Delivers _ _ _ (box.shell + Deed.unfunded + rest) _
    rw [add_comm box.shell, add_assoc]
    refine hrun.unwinding_machine.bind_frame (.inl (by simp)) ?_
    rintro ⟨outcome, device'⟩ machine₂ blocks₂ -
    -- only the device is needed to judge it; the record and the list wait
    have hsum : ∀ P Q R : Prop, device'.carries (Device.learnt finding device'.status) +
        Deed.unfunded + Deed.fact P + Deed.fact Q + Deed.fact R + (box.shell + rest) =
        box.shell + (device'.carries (Device.learnt finding device'.status) +
          (list.listing ds + (Deed.unfunded + Deed.unfunded))) + Deed.fact P + Deed.fact Q +
            Deed.fact R := by
      intro P Q R
      unfold rest
      abel
    dsimp only [Device.judged]
    rw [hsum, Deed.unfunded_add_unfunded]
    refine .of_fact fun hdriver => .of_fact fun hran => .of_fact ?_
    rintro ⟨rfl, rfl, haccess, hsettles⟩
    obtain rfl : access = device'.access := haccess.symm
    refine file_delivers (.intro hrecorded hsettles) (fun f' hstore hjudge hfull => ?_) hran
    rw [hjudge] at hdriver
    exact .place hrecorded hdriver hstore hfull

end DeviceList

end EarlyBoot
