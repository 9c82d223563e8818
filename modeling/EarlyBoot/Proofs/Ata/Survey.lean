import EarlyBoot.Ata.Scan
import EarlyBoot.Proofs.Ata.Protocol
import EarlyBoot.Proofs.Ownership.Refusal

/-!
# What a scan for controllers finds

A survey follows the scan step by step, from one state of the machine to the
next.  Which drives there are, and on which buses, follows from what the ports
answer; the heap only decides which identification data is kept.
-/

namespace EarlyBoot.Ata

open MachineM (Leaves)

variable {β : Type} [PortBus β]

/-- What is found at a position of a bus, and how the machine is left. -/
inductive DriveFound (base : UInt16) (position : DrivePosition) (machine : Machine β) :
    Option AtaDrive → Machine β → Prop
  /-- The model is read off the data, whether or not the heap has room for the data. -/
  | ata {bus : β} {reads : List Access} {stored : Option (HeapBox IdentifyBlock)}
      {machine' : Machine β}
      (hidentified : Identified base position machine.bus (some .ata) bus reads)
      (hkept : Kept (dataBlock base bus) machine.firmware stored machine'.firmware)
      (hbus : machine'.bus = afterBlock base bus)
      (htrace : machine'.trace =
        machine.trace.recordAll (probeAccesses base position (some .ata) reads bus)) :
      DriveFound base position machine
        (some ⟨position, .ata, stored, .ofIdentify (dataBlock base bus)⟩) machine'
  | other {kind : Option DriveKind} {bus : β} {reads : List Access} {machine' : Machine β}
      (hidentified : Identified base position machine.bus kind bus reads)
      (hkind : kind ≠ some .ata) (hbus : machine'.bus = bus)
      (htrace : machine'.trace =
        machine.trace.recordAll (probeAccesses base position kind reads bus)) :
      DriveFound base position machine (kind.map fun kind => ⟨position, kind, none, .empty⟩)
        machine'

structure DriveSurvey (base : UInt16) (position : DrivePosition) (machine : Machine β)
    (drive : Option AtaDrive) (machine' : Machine β) : Prop where
  run : probeDrive base position machine = .ok drive machine'
  found : DriveFound base position machine drive machine'

theorem DriveSurvey.of_run {base : UInt16} {position : DrivePosition} {machine machine' : Machine β}
    {drive : Option AtaDrive} {blocks : List BlockInfo} (hp : machine.firmware.heap.Placed)
    (hw : machine.firmware.heap.WellFormed machine.firmware.memory blocks)
    (hrun : probeDrive base position machine = .ok drive machine') :
    DriveSurvey base position machine drive machine' := by
  refine ⟨hrun, ?_⟩
  obtain ⟨kind, bus, reads, hidentified⟩ := exists_identified base position machine.bus
  by_cases hkind : kind = some .ata
  · subst hkind
    have hprobed := hidentified.probed_ata
    obtain ⟨stored, machine₁, hkeep, hkept⟩ := hprobed.kept rfl blocks hp hw
    obtain ⟨hbus, htrace⟩ := hprobed.leaves.of_ok hrun
    obtain ⟨rfl, rfl⟩ := EStateM.Result.ok.inj (hrun.symm.trans hkeep)
    exact .ata hidentified hkept (hbus.trans (if_pos rfl)) htrace
  · have hprobed := hidentified.probed_other hkind
    obtain ⟨machine₁, hother⟩ := hprobed.other hkind
    obtain ⟨hbus, htrace⟩ := hprobed.leaves.of_ok hrun
    obtain ⟨rfl, rfl⟩ := EStateM.Result.ok.inj (hrun.symm.trans hother)
    exact .other hidentified hkind (hbus.trans (if_neg hkind)) htrace

/-- A bus is there unless its status, which is read first, shows that nothing drives it. -/
inductive BusSurvey (base : UInt16) (machine : Machine β) : Option AtaBus → Machine β → Prop
  | floating {machine' : Machine β} (hread : status base machine = .ok floating machine') :
      BusSurvey base machine none machine'
  | present {shown : UInt8} {master slave : Option AtaDrive}
      {machine₁ machine₂ machine' : Machine β}
      (hread : status base machine = .ok shown machine₁) (hpresent : shown ≠ floating)
      (hmaster : DriveSurvey base .master machine₁ master machine₂)
      (hslave : DriveSurvey base .slave machine₂ slave machine') :
      BusSurvey base machine (some ⟨base, master, slave⟩) machine'

inductive BusesSurvey : List UInt16 → Machine β → List AtaBus → Machine β → Prop
  | nil (machine : Machine β) : BusesSurvey [] machine [] machine
  | cons {base : UInt16} {bases : List UInt16} {bus : Option AtaBus} {buses : List AtaBus}
      {machine machine₁ machine' : Machine β} (hbus : BusSurvey base machine bus machine₁)
      (hrest : BusesSurvey bases machine₁ buses machine') :
      BusesSurvey (base :: bases) machine (bus.toList ++ buses) machine'

theorem BusesSurvey.length_le {bases : List UInt16} {buses : List AtaBus}
    {machine machine' : Machine β} (h : BusesSurvey bases machine buses machine') :
    buses.length ≤ bases.length := by
  induction h with
  | nil => exact Nat.le_refl 0
  | @cons _ _ bus _ _ _ _ _ _ ih =>
      have hone : bus.toList.length ≤ 1 := by cases bus <;> simp
      rw [List.length_append, List.length_cons]
      omega

/-- For a controller in native mode no port is reached, nor the heap. -/
inductive ControllerSurvey (function : PciFunction) (machine : Machine β) :
    IdeController → Machine β → Prop
  | native {controller : IdeController} {f' : Firmware}
      (hnative : IdeController.isNativeMode function = true)
      (hfunction : controller.function = function) (hnone : controller.buses.val = [])
      (huntouched : machine.firmware.Untouched f') :
      ControllerSurvey function machine controller { machine with firmware := f' }
  | compatible {controller : IdeController} {machine' : Machine β}
      (hcompatible : IdeController.isNativeMode function = false)
      (hfunction : controller.function = function)
      (hbuses : BusesSurvey compatibilityBases machine controller.buses.val machine') :
      ControllerSurvey function machine controller machine'

/-- The controller of a function is probed and added to those before it. -/
inductive Filed (function : PciFunction) (v : HeapVec IdeController) (machine : Machine β) :
    IdeController → HeapVec IdeController → Machine β → Prop
  | intro {controller : IdeController} {v' : HeapVec IdeController} {machine₁ : Machine β}
      {f' : Firmware} (hcontroller : ControllerSurvey function machine controller machine₁)
      (hpush : v.push controller machine₁.firmware = .ok (.ok v') f') :
      Filed function v machine controller v' { machine₁ with firmware := f' }

/-- For each function its device is switched to port access before its controller is added. -/
inductive ScanSurvey : HeapVec IdeController → Machine β → List PciFunction →
    List IdeController → HeapVec IdeController → Machine β → Prop
  | nil (v : HeapVec IdeController) (machine : Machine β) : ScanSurvey v machine [] [] v machine
  | cons {v v₁ v' : HeapVec IdeController} {machine machine₁ machine' : Machine β} {f₁ : Firmware}
      {box : HeapBox DeviceRecord} {record : DeviceRecord} {function : PciFunction}
      {functions : List PciFunction} {controller : IdeController}
      {controllers : List IdeController}
      (hread : box.read machine.firmware.memory = record)
      (hset : box.set { record with access := .pio } machine.firmware = .ok () f₁)
      (hfiled : Filed function v { machine with firmware := f₁ } controller v₁ machine₁)
      (hrest : ScanSurvey v₁ machine₁ functions controllers v' machine') :
      ScanSurvey v machine (function :: functions) (controller :: controllers) v' machine'

/-- The controllers in front of one are added, and the heap has no place for that one. -/
inductive Overflows (v : HeapVec IdeController) (machine : Machine β)
    (functions : List PciFunction) : Prop
  | intro {before : List PciFunction} {function : PciFunction}
      {controllers : List IdeController} {controller : IdeController}
      {v₁ : HeapVec IdeController} {machine₁ machine₂ : Machine β} {f₁ : Firmware}
      {box : HeapBox DeviceRecord} {record : DeviceRecord}
      (hstart : before ++ [function] <+: functions)
      (hbefore : ScanSurvey v machine before controllers v₁ machine₁)
      (hread : box.read machine₁.firmware.memory = record)
      (hset : box.set { record with access := .pio } machine₁.firmware = .ok () f₁)
      (hcontroller : ControllerSurvey function { machine₁ with firmware := f₁ } controller machine₂)
      (hfull : ¬ v₁.Extensible machine₂.firmware) : Overflows v machine functions

theorem ControllerSurvey.function_eq {function : PciFunction} {machine machine' : Machine β}
    {controller : IdeController} (h : ControllerSurvey function machine controller machine') :
    controller.function = function := by
  cases h with
  | native hnative hfunction => exact hfunction
  | compatible hcompatible hfunction => exact hfunction

namespace ScanSurvey

variable {v v₁ v' : HeapVec IdeController} {machine machine₁ machine' : Machine β}
  {functions second : List PciFunction} {controllers controllers' : List IdeController}

theorem functions_eq (h : ScanSurvey v machine functions controllers v' machine') :
    controllers.map IdeController.function = functions := by
  induction h with
  | nil => rfl
  | cons hread hset hfiled hrest ih =>
      obtain ⟨hcontroller, hpush⟩ := hfiled
      rw [List.map_cons, hcontroller.function_eq, ih]

theorem append (h : ScanSurvey v machine functions controllers v₁ machine₁)
    (h' : ScanSurvey v₁ machine₁ second controllers' v' machine') :
    ScanSurvey v machine (functions ++ second) (controllers ++ controllers') v' machine' := by
  induction h with
  | nil => exact h'
  | cons hread hset hfiled hrest ih => exact .cons hread hset hfiled (ih h')

end ScanSurvey

namespace Overflows

variable {v v₁ : HeapVec IdeController} {machine machine₁ : Machine β}
  {functions second : List PciFunction} {controllers : List IdeController}

theorem head (h : Overflows v machine functions) (second : List PciFunction) :
    Overflows v machine (functions ++ second) := by
  obtain ⟨hstart, hbefore, hread, hset, hcontroller, hfull⟩ := h
  exact .intro (hstart.trans (List.prefix_append _ _)) hbefore hread hset hcontroller hfull

theorem tail (h : ScanSurvey v machine functions controllers v₁ machine₁)
    (h' : Overflows v₁ machine₁ second) : Overflows v machine (functions ++ second) := by
  obtain ⟨hstart, hbefore, hread, hset, hcontroller, hfull⟩ := h'
  refine .intro ?_ (h.append hbefore) hread hset hcontroller hfull
  rw [List.append_assoc]
  exact (List.prefix_append_right_inj functions).2 hstart

end Overflows

end EarlyBoot.Ata
