import EarlyBoot.Proofs.BringUp.DriverProgram
import EarlyBoot.Proofs.BringUp.Platform
import EarlyBoot.Proofs.Ownership.Refusal

/-!
# Bringing up is all or nothing

Whatever a driver does with the payloads of its device, either the device is the
last one of the list afterwards, with what the driver made of it, or nothing of
it is left on the heap.
-/

namespace EarlyBoot

open FirmwareM

variable {α β γ : Type} {machine machine' : Machine β} {f f' : Firmware}
  {blocks : List BlockInfo} {name : String} {access : DeviceAccess} {critical : Bool}

structure Trial where
  box : HeapBox DeviceRecord
  device : Device
  report : DeviceStatus
  attached : List Payload
  deriving DecidableEq

def Trial.entry (t : Trial) : Entry := ⟨t.box, t.device, t.attached.getLast?⟩

namespace DriverProgram

variable {program : DriverProgram β} {box : HeapBox DeviceRecord} {t : Trial}

/-- The driver runs on a new device, and what it leaves of the device is stored. -/
def conduct (program : DriverProgram β) (name : String) (access : DeviceAccess)
    (box : HeapBox DeviceRecord) : MachineM β Trial := do
  info s!"Initializing {name}..."
  let (status, device, attached) ← program.attaching [] (Device.new name access)
  let device := { device with status := status.settled }
  device.store box
  pure ⟨box, device, status, attached⟩

def trial (program : DriverProgram β) (name : String) (access : DeviceAccess) :
    MachineM β (Except HeapError Trial) := do
  match ← (Device.new name access).toRecord with
  | .error error => pure (.error error)
  | .ok box => do
      let t ← program.conduct name access box
      pure (.ok t)

theorem conduct_delivers (program : DriverProgram β) (name : String) (access : DeviceAccess)
    (box : HeapBox DeviceRecord) (machine : Machine β) (blocks : List BlockInfo) :
    Delivers (program.conduct name access box) machine blocks (box.shell + Deed.unfunded)
      fun t _ => t.entry.deed + Deed.unfunded + Deed.fact (t.entry.description =
        ⟨name, t.report.settled, access, t.attached.getLast?⟩) := by
  have hbare : (Device.new name access).carries [].getLast? = 0 := rfl
  unfold conduct
  refine .log_bind .info _ fun f₁ blocks₁ => ?_
  rw [add_comm]
  have hattaching := program.attaching_delivers [] (Device.new name access)
    { machine with firmware := f₁ } blocks₁
  rw [hbare, zero_add] at hattaching
  refine hattaching.bind_frame (.inr (by simp)) ?_
  rintro ⟨status, device, attached⟩ machine₂ blocks₂ -
  let device' : Device := { device with status := status.settled }
  have hparts : changed (Device.new name access) attached.getLast? device + box.shell =
      box.shell + (device.carries attached.getLast? + Deed.unfunded) +
        Deed.fact (device = { Device.new name access with payload := device.payload }) := by
    unfold changed
    abel
  dsimp only
  rw [hparts]
  refine .of_fact fun hsame => ?_
  refine (device'.store_delivers box).lift_bind_frame (.inl (by simp)) fun _ f₃ blocks₃ => ?_
  rw [← add_assoc]
  refine .pure ((Amounts.refl _ _ _).and_fact fun _ => ?_)
  change Description.mk device.name _ device.access _ = _
  rw [hsame]
  rfl

theorem conduct_eq_ok (hrun : program.conduct name access box machine = .ok t machine') :
    ∃ device machine₂ f', t.device = { device with status := t.report.settled } ∧ t.box = box ∧
      program.attaching [] (Device.new name access) (Device.announced name machine) =
        .ok (t.report, device, t.attached) machine₂ ∧
      t.device.store box machine₂.firmware = .ok () f' ∧
      machine' = { machine₂ with firmware := f' } := by
  change (program.attaching [] (Device.new name access) >>= _)
    (Device.announced name machine) = _ at hrun
  cases hattaching :
      program.attaching [] (Device.new name access) (Device.announced name machine) with
  | error reason machine₂ =>
      rw [bind_of_halt hattaching] at hrun
      cases hrun
  | ok reply machine₂ =>
      rw [bind_of_answer hattaching] at hrun
      cases hrun
      exact ⟨reply.2.1, machine₂, _, rfl, rfl, rfl, rfl, rfl⟩

end DriverProgram

/-! ## The decision -/

namespace Device

theorem store_of_untouched {device : Device} {box : HeapBox DeviceRecord} {f₁ : Firmware}
    (h : f.Untouched f') (hstore : device.store box f = .ok () f₁) :
    ∃ f₁', device.store box f' = .ok () f₁' ∧ f₁.Untouched f₁' := by
  cases hstore
  obtain ⟨memory, heap, console, names⟩ := f
  obtain ⟨memory', heap', console', names'⟩ := f'
  obtain ⟨rfl, rfl, rfl⟩ := h
  exact ⟨_, rfl, rfl, rfl, rfl⟩

end Device

namespace DeviceList

variable {list : DeviceList} {ds : List Description} {program : DriverProgram β}
  {box : HeapBox DeviceRecord} {t : Trial}

theorem bringUp_of_conduct (list : DeviceList) (critical : Bool)
    (hrecord : (Device.new name access).toRecord machine.firmware = .ok (.ok box) f)
    (hconduct : program.conduct name access box { machine with firmware := f } = .ok t machine') :
    ∃ f', machine'.firmware.Untouched f' ∧
      list.bringUp program.run name access critical machine =
        list.enlist name critical t.report.settled t.box { machine' with firmware := f' } := by
  obtain ⟨device, machine₂, f₃, hdevice, rfl, hattaching, hstore, rfl⟩ :=
    DriverProgram.conduct_eq_ok hconduct
  have hdriver : program.run (Device.new name access)
      (Device.announced name { machine with firmware := f }) =
        .ok (t.report, device) machine₂ := by
    rw [program.run_eq_attaching []]
    exact bind_of_answer hattaching
  have hrun : ∃ f₁, machine₂.firmware.Untouched f₁ ∧
      (Device.new name access).bringUp program.run name critical { machine with firmware := f } =
        .ok (_, { device with status := _ }) { machine₂ with firmware := f₁ } :=
    Device.bringUp_of_run critical rfl hdriver
  obtain ⟨f₁, huntouched, hbringUp⟩ := hrun
  rw [hdevice] at hstore
  obtain ⟨f', hstore', huntouched'⟩ := Device.store_of_untouched huntouched hstore
  have hunwinding : MachineM.unwinding t.box.free
      ((Device.new name access).bringUp program.run name critical) { machine with firmware := f } =
        .ok _ _ := MachineM.unwinding_of_answer hbringUp _
  refine ⟨f', huntouched', ?_⟩
  unfold bringUp
  rw [MachineM.lift_bind_of_answer hrecord]
  dsimp only
  rw [bind_of_answer hunwinding]
  exact MachineM.lift_bind_of_answer hstore'

theorem trial_outcome (program : DriverProgram β) (name : String) (access : DeviceAccess)
    (critical : Bool) (hs : Holds machine.firmware blocks (list.listing ds)) :
    (¬ HeapBox.Fits DeviceRecord machine.firmware ∧ ∃ error,
      program.trial name access machine = .ok (.error error) machine ∧
      list.bringUp program.run name access critical machine =
        .ok (.error (.allocateRecord name error)) machine) ∨
    HeapBox.Fits DeviceRecord machine.firmware ∧ ∃ t machine₁ machine₂ blocks₂,
      program.trial name access machine = .ok (.ok t) machine₁ ∧
      machine₁.firmware.Untouched machine₂.firmware ∧
      Exchanges machine.firmware blocks 0 machine₂.firmware blocks₂ (t.entry.deed + Deed.unfunded) ∧
      t.entry.description = ⟨name, t.report.settled, access, t.attached.getLast?⟩ ∧
      list.bringUp program.run name access critical machine =
        list.enlist name critical t.report.settled t.box machine₂ := by
  rcases Device.toRecord_outcome hs.placed hs.wellFormed name access with
    ⟨hrefused, error, hrecord⟩ | ⟨hfits, box, f₁, hrecord⟩
  · exact .inl ⟨hrefused, error, MachineM.lift_bind_of_answer hrecord,
      MachineM.lift_bind_of_answer hrecord⟩
  · have hnothing : Holds machine.firmware blocks (0 + list.listing ds) := by rwa [zero_add]
    have hstart : Holds machine.firmware blocks 0 := hnothing.left (.inl le_rfl)
    obtain ⟨_, _, blocks₁, hanswer, hmoved⟩ :=
      (Device.record_delivers name access).run_firmware hstart
    cases hrecord.symm.trans hanswer
    change Exchanges _ _ _ _ _ (box.shell + Deed.unfunded) at hmoved
    obtain ⟨t, machine₁, blocks₂, hconduct, h⟩ := program.conduct_delivers name access box
      { machine with firmware := f₁ } blocks₁ (hmoved.holds hstart)
    obtain ⟨f', huntouched, hrun⟩ := bringUp_of_conduct list critical hrecord hconduct
    have htrial : program.trial name access machine = .ok (.ok t) machine₁ :=
      (MachineM.lift_bind_of_answer hrecord).trans (bind_of_answer hconduct)
    have hheld := h.holds (hmoved.holds hstart)
    have hentry := (Amounts.of_fact fun _ => .refl machine₁.firmware blocks₂ _).exchanges hheld
    have hlogged := Exchanges.of_untouched (hentry.holds hheld) huntouched
    exact .inr ⟨hfits, t, machine₁, { machine₁ with firmware := f' }, blocks₂, htrial, huntouched,
      hmoved.trans (h.trans (hentry.trans hlogged)), h.valid.2, hrun⟩

theorem enlist_outcome (name : String) (critical : Bool)
    (hs : Holds machine.firmware blocks (t.entry.deed + list.listing ds)) :
    ∃ reply machine' blocks',
      list.enlist name critical t.report.settled t.box machine = .ok reply machine' ∧
      ((∃ error, reply = .error error) ↔ critical = true ∧ t.report.settled ≠ .initialised ∨
        ¬ list.boxes.Extensible machine.firmware) ∧
      match reply with
      | .ok (status, list') => status = t.report.settled ∧
          Holds machine'.firmware blocks' (list'.listing (ds ++ [t.entry.description]))
      | .error _ => Exchanges machine.firmware blocks t.entry.deed machine'.firmware blocks' 0 := by
  unfold enlist
  by_cases hstops : critical = true ∧ t.report.settled ≠ .initialised
  · have hjudge : Device.judge name critical t.report.settled =
        .error (.critical name t.report.settled) := if_pos hstops
    have hdelivers : Delivers (Owned.drop t.box) machine.firmware blocks t.entry.deed
        fun _ _ => 0 := t.entry.drop_delivers _ _
    obtain ⟨_, f', blocks', hdrop, h⟩ := hdelivers.run_firmware
      (hs.left (.inl t.entry.budget_deed.le))
    rw [hjudge]
    dsimp only
    rw [MachineM.lift_bind_of_answer hdrop]
    exact ⟨_, _, blocks', rfl, iff_of_true ⟨_, rfl⟩ (.inl hstops), h⟩
  · have hjudge : Device.judge name critical t.report.settled = .ok t.report.settled :=
      if_neg hstops
    rw [hjudge]
    dsimp only
    rcases push_outcome t.entry hs with
      ⟨hfull, error, f', blocks', hpush, h⟩ | ⟨hextends, list', f', blocks', hpush, hs'⟩
    · change list.push t.box machine.firmware = _ at hpush
      rw [MachineM.lift_bind_of_answer hpush]
      exact ⟨_, _, blocks', rfl, iff_of_true ⟨_, rfl⟩ (.inr hfull), h⟩
    · change list.push t.box machine.firmware = _ at hpush
      rw [MachineM.lift_bind_of_answer hpush]
      have hcontinues := not_or.2 ⟨hstops, not_not_intro hextends⟩
      exact ⟨_, _, blocks', rfl, iff_of_false (by rintro ⟨_, ⟨⟩⟩) hcontinues, rfl, hs'⟩

/--
Bringing up a device always answers.  With `t` what is known of the device when
the driver has ended, the answer is an error exactly if there is no block for
its record, if the device is critical and its status is not that of a device
that works, or if the list cannot be extended by then.  After an error the list
has the devices from before, and the heap the same blocks.  Otherwise the device
is the last one of the list, with the status that the driver reported, or faulty
if it reported nothing, and with the last payload that it attached; the devices
in front of it are those from before.
-/
theorem bringUp_all_or_nothing (program : DriverProgram β) (name : String)
    (access : DeviceAccess) (critical : Bool)
    (hs : Holds machine.firmware blocks (list.listing ds)) :
    ∃ tried machine₁ reply machine',
      program.trial name access machine = .ok tried machine₁ ∧
      list.bringUp program.run name access critical machine = .ok reply machine' ∧
      ((∃ error, reply = .error error) ↔ ¬ HeapBox.Fits DeviceRecord machine.firmware ∨
        ∃ t, tried = .ok t ∧ (critical = true ∧ t.report.settled ≠ .initialised ∨
          ¬ list.boxes.Extensible machine₁.firmware)) ∧
      match reply with
      | .ok (status, list') => ∃ t blocks', tried = .ok t ∧ status = t.report.settled ∧
          Holds machine'.firmware blocks' (list'.listing (list'.descriptions machine'.firmware)) ∧
          list'.descriptions machine'.firmware =
            ds ++ [⟨name, status, access, t.attached.getLast?⟩]
      | .error _ =>
          Holds machine'.firmware blocks (list.listing ds) ∧
          list.descriptions machine'.firmware = ds ∧
          machine'.firmware.heap.blocks machine'.firmware.memory =
            machine.firmware.heap.blocks machine.firmware.memory := by
  have hblocks : machine.firmware.heap.blocks machine.firmware.memory = blocks :=
    hs.wellFormed.blocks_eq hs.placed
  rcases trial_outcome program name access critical hs with
    ⟨hrefused, error, htrial, hrun⟩ |
    ⟨hfits, t, machine₁, machine₂, blocks₂, htrial, hsame, h, hdescription, hrun⟩
  · exact ⟨_, _, _, _, htrial, hrun, iff_of_true ⟨_, rfl⟩ (.inl hrefused), hs, hs.valid.2, rfl⟩
  · have hnothing : Holds machine.firmware blocks (0 + list.listing ds) := by rwa [zero_add]
    have hown := h.holds (hnothing.left (.inl le_rfl))
    have hheld := (h.frame hnothing).holds hnothing
    rw [add_right_comm] at hheld
    obtain ⟨reply, machine', blocks', henlist, hfails, hreply⟩ :=
      enlist_outcome name critical (hheld.left (.inl (by simp)))
    refine ⟨_, machine₁, reply, machine', htrial, hrun.trans henlist, ?_, ?_⟩
    · rw [hfails, HeapVec.extensible_of_untouched hsame, or_iff_right (not_not_intro hfits)]
      constructor
      · exact fun hfailed => ⟨t, rfl, hfailed⟩
      · rintro ⟨t, ⟨⟩, hfailed⟩
        exact hfailed
    · cases reply with
      | error error =>
          -- the record that was obtained has been dropped, so nothing has been gained
          have hdropped := h.trans (hreply.frame hown)
          rw [zero_add] at hdropped
          obtain ⟨rfl, hs'⟩ := hdropped.undone hs le_rfl
          exact ⟨hs', hs'.valid.2, (hs'.wellFormed.blocks_eq hs'.placed).trans hblocks.symm⟩
      | ok answer =>
          obtain ⟨status, list'⟩ := answer
          obtain ⟨rfl, hs'⟩ := hreply
          rw [hdescription] at hs'
          have hds := hs'.valid.2
          exact ⟨t, blocks', rfl, rfl, hds.symm ▸ hs', hds⟩

/-- A driver that attaches a payload and does not know more in the end than at first. -/
def doubtful : DriverProgram β := .attach (.pit ⟨0x2e9b⟩) fun _ => .report .unknown

theorem all_or_nothing_in_doubt :
    let machine := Platform.idleMachine 4096
    Holds machine.firmware [⟨0, 4064, true⟩] (empty.listing []) ∧
    (∃ list' machine',
      empty.bringUp doubtful.run "timer" .pio false machine =
        .ok (.ok (.faulty, list')) machine' ∧
      list'.descriptions machine'.firmware =
        [⟨"timer", .faulty, .pio, some (.pit ⟨0x2e9b⟩)⟩]) ∧
    ∃ error machine',
      empty.bringUp doubtful.run "timer" .pio true machine = .ok (.error error) machine' ∧
      machine'.firmware.heap.blocks machine'.firmware.memory = [⟨0, 4064, true⟩] := by
  intro machine
  have hinit : Heap.init 64 4096 ⟨Memory.ofBytes 0 ByteArray.empty, .uninitialized 2,
      .silent .error, .empty⟩ = .ok (.ok ()) machine.firmware := rfl
  obtain ⟨hp, hw, -⟩ := BlockHeap.init_spec (by decide) (Heap.init_eq_ok hinit)
  have hs := holds_empty hp hw
  have htrial : (doubtful.trial "timer" .pio).run' machine = some (.ok
      ⟨⟨96⟩, ⟨⟨.faulty, .pio, some ⟨192⟩⟩, "timer"⟩, .unknown, [.pit ⟨0x2e9b⟩]⟩) := by
    decide +kernel
  have hanswer : (empty.bringUp doubtful.run "timer" .pio false).run' machine =
      some (.ok (.faulty, ⟨⟨256, 1, 4⟩⟩)) := by
    decide +kernel
  obtain ⟨machine₁, htrial⟩ := answer_of_run htrial
  obtain ⟨machine₂, hanswer⟩ := answer_of_run hanswer
  refine ⟨hs, ?_, ?_⟩
  · obtain ⟨_, _, _, _, htried, hrun, -, hreply⟩ :=
      bringUp_all_or_nothing doubtful "timer" .pio false hs
    rw [htrial] at htried
    cases htried
    rw [hanswer] at hrun
    cases hrun
    obtain ⟨t, -, ⟨⟩, -, -, hds⟩ := hreply
    exact ⟨_, _, hanswer, hds⟩
  · obtain ⟨_, _, reply, machine', htried, hrun, hfails, hreply⟩ :=
      bringUp_all_or_nothing doubtful "timer" .pio true hs
    rw [htrial] at htried
    cases htried
    obtain ⟨error, rfl⟩ := hfails.2 (.inr ⟨_, rfl, .inl ⟨rfl, by decide⟩⟩)
    exact ⟨error, machine', hrun, hreply.2.2.trans (hw.blocks_eq hp)⟩

end DeviceList

end EarlyBoot
