import EarlyBoot.Pci.Config
import EarlyBoot.Pci.Function
import EarlyBoot.Proofs.Bus.Answers

/-!
# Registers that are reached

The scan reaches ports in pairs only: the address of a register is written, and
then the register is read or written.  So a list of accesses tells which
functions have been reached.
-/

namespace EarlyBoot.Pci

open MachineM (Answers)

variable {α β γ : Type}

/-- The accesses are reads and writes of registers, each of a function that satisfies `P`. -/
inductive Touches (P : PciAddress → Prop) : List Access → Prop
  | nil : Touches P []
  | read {a : PciAddress} {rest : List Access} (ha : P a) (offset : UInt8) (value : UInt32)
      (hrest : Touches P rest) :
      Touches P (.ofWrite .dword addressPort (a.configAddress offset) ::
        .read .dword dataPort value :: rest)
  | write {a : PciAddress} {rest : List Access} (ha : P a) (offset : UInt8) (value : UInt32)
      (hrest : Touches P rest) :
      Touches P (.ofWrite .dword addressPort (a.configAddress offset) ::
        .ofWrite .dword dataPort value :: rest)

namespace Touches

variable {P Q : PciAddress → Prop} {first second : List Access}

theorem append (h : Touches P first) (h' : Touches P second) : Touches P (first ++ second) := by
  induction h with
  | nil => exact h'
  | read ha offset value _ ih => exact .read ha offset value ih
  | write ha offset value _ ih => exact .write ha offset value ih

theorem mono (h : Touches P first) (himp : ∀ a, P a → Q a) : Touches Q first := by
  induction h with
  | nil => exact .nil
  | read ha offset value _ ih => exact .read (himp _ ha) offset value ih
  | write ha offset value _ ih => exact .write (himp _ ha) offset value ih

end Touches

def Reaches [PortBus β] (P : PciAddress → Prop) (x : MachineM β α) : Prop :=
  ∀ bus, ∃ v bus' accesses, Answers x bus v bus' accesses ∧ Touches P accesses

section Reaching

variable [PortBus β] {P : PciAddress → Prop} {a : PciAddress}

namespace Reaches

variable {x y : MachineM β α} {k : α → MachineM β γ}

theorem pure (v : α) : Reaches P (pure v : MachineM β α) :=
  fun bus => ⟨v, bus, [], .pure v bus, .nil⟩

theorem bind (hx : Reaches P x) (hk : ∀ v, Reaches P (k v)) : Reaches P (x >>= k) := by
  intro bus
  obtain ⟨v, bus₁, first, hfirst, htouches⟩ := hx bus
  obtain ⟨w, bus₂, second, hsecond, htouches'⟩ := hk v bus₁
  exact ⟨w, bus₂, _, hfirst.bind hsecond, htouches.append htouches'⟩

theorem map (hx : Reaches P x) (g : α → γ) : Reaches P (do return g (← x)) :=
  hx.bind fun _ => pure _

theorem ite {c : Prop} [Decidable c] (hx : Reaches P x) (hy : Reaches P y) :
    Reaches P (if c then x else y) := by
  split
  · exact hx
  · exact hy

theorem log (level : LogLevel) (message : String) :
    Reaches P (liftM (FirmwareM.log level message) : MachineM β Unit) :=
  fun bus => ⟨(), bus, [], .log level message bus, .nil⟩

theorem of_run {machine machine' : Machine β} {v w : α} {bus' : β} {accesses' : List Access}
    (hx : Reaches P x) (hanswers : Answers x machine.bus v bus' accesses')
    (hrun : x machine = .ok w machine') :
    w = v ∧ machine'.bus = bus' ∧
      ∃ accesses, machine'.trace = machine.trace.recordAll accesses ∧ Touches P accesses := by
  obtain ⟨f, -, hrun'⟩ := hanswers machine.firmware machine.trace
  obtain ⟨v', bus'', accesses, hreached, htouches⟩ := hx machine.bus
  obtain ⟨f', -, hrun''⟩ := hreached machine.firmware machine.trace
  obtain ⟨hv, hmachine⟩ := EStateM.Result.ok.inj (hrun.symm.trans hrun')
  obtain ⟨-, hmachine'⟩ := EStateM.Result.ok.inj (hrun.symm.trans hrun'')
  exact ⟨hv, congrArg Machine.bus hmachine, accesses, congrArg Machine.trace hmachine', htouches⟩

end Reaches

theorem readRegister_reaches (ha : P a) (offset : UInt8) :
    Reaches P (readRegister a offset : MachineM β UInt32) :=
  fun bus => ⟨_, _, _, (Answers.writePort _ _ _ bus).bind (.readPort _ _ _),
    .read ha offset _ .nil⟩

theorem writeRegister_reaches (ha : P a) (offset : UInt8) (value : UInt32) :
    Reaches P (writeRegister a offset value : MachineM β Unit) :=
  fun bus => ⟨_, _, _, (Answers.writePort _ _ _ bus).bind (.writePort _ _ _ _),
    .write ha offset value .nil⟩

theorem isPresent_reaches (ha : P a) : Reaches P (isPresent a : MachineM β Bool) :=
  (readRegister_reaches ha idRegister).map _

theorem headerType_reaches (ha : P a) : Reaches P (headerType a : MachineM β UInt8) :=
  (readRegister_reaches ha headerRegister).map _

theorem hasManyFunctions_reaches (ha : P a) : Reaches P (hasManyFunctions a : MachineM β Bool) :=
  (headerType_reaches ha).map _

theorem startSelfTest_reaches (ha : P a) : Reaches P (startSelfTest a : MachineM β Bool) :=
  (readRegister_reaches ha headerRegister).bind fun _ =>
    .ite (.pure false) ((writeRegister_reaches ha headerRegister _).bind fun _ => .pure true)

theorem readFunction_reaches (ha : P a) :
    Reaches P (readFunction a : MachineM β PciFunction) := by
  refine .bind (readRegister_reaches ha idRegister) fun id => ?_
  refine .bind (readRegister_reaches ha classRegister) fun classInfo => ?_
  refine .bind (readRegister_reaches ha interruptRegister) fun interrupt => ?_
  refine .bind (headerType_reaches ha) fun headerType => ?_
  exact .map (startSelfTest_reaches ha) _

end Reaching

end EarlyBoot.Pci
