import EarlyBoot.Proofs.Pci.Emulated
import Mathlib.Data.List.Induction

/-!
# Configuration space as a map

The address register packs a function and a register into one word, and the bus
takes the word apart with masks of its own.  Both agree: no two registers share
a word.  So reads and writes in any order behave as on a map from function and
register to values, in which the functions present are fixed.
-/

namespace EarlyBoot

open MachineM (Answers)

namespace PciAddress

variable {a b : PciAddress}

def ofKey (key : UInt32) : PciAddress :=
  ⟨((key &&& 0x00ff0000) >>> 16).toUInt8, ((key &&& 0xf800) >>> 11).toUInt8,
    ((key &&& 0x0700) >>> 8).toUInt8⟩

theorem ofKey_key (h : a.Addressable) : ofKey a.key = a := by
  obtain ⟨bus, device, function⟩ := a
  have hbus : ∀ b : UInt8, (b.toUInt32 <<< 16) &&& (0x00ff0000 : UInt32) = b.toUInt32 <<< 16 ∧
      (b.toUInt32 <<< 16) &&& (0xf800 : UInt32) = 0 ∧
      (b.toUInt32 <<< 16) &&& (0x0700 : UInt32) = 0 ∧
      ((b.toUInt32 <<< 16) >>> 16).toUInt8 = b := forall_byte (by decide +kernel)
  have hdevice : ∀ d : UInt8, d < 32 → (d.toUInt32 <<< 11) &&& (0x00ff0000 : UInt32) = 0 ∧
      (d.toUInt32 <<< 11) &&& (0xf800 : UInt32) = d.toUInt32 <<< 11 ∧
      (d.toUInt32 <<< 11) &&& (0x0700 : UInt32) = 0 ∧
      ((d.toUInt32 <<< 11) >>> 11).toUInt8 = d := forall_byte (by decide +kernel)
  have hfunction : ∀ f : UInt8, f < 8 → (f.toUInt32 <<< 8) &&& (0x00ff0000 : UInt32) = 0 ∧
      (f.toUInt32 <<< 8) &&& (0xf800 : UInt32) = 0 ∧
      (f.toUInt32 <<< 8) &&& (0x0700 : UInt32) = f.toUInt32 <<< 8 ∧
      ((f.toUInt32 <<< 8) >>> 8).toUInt8 = f := forall_byte (by decide +kernel)
  obtain ⟨hbus₁, hbus₂, hbus₃, hbusBack⟩ := hbus bus
  obtain ⟨hdevice₁, hdevice₂, hdevice₃, hdeviceBack⟩ := hdevice device h.device_lt
  obtain ⟨hfunction₁, hfunction₂, hfunction₃, hfunctionBack⟩ := hfunction function h.function_lt
  unfold ofKey key ScriptedBus.pciKey
  simp only [or_and_distrib, hbus₁, hbus₂, hbus₃, hdevice₁, hdevice₂, hdevice₃, hfunction₁,
    hfunction₂, hfunction₃, UInt32.or_zero, UInt32.zero_or, hbusBack, hdeviceBack, hfunctionBack]

theorem key_inj (ha : a.Addressable) (hb : b.Addressable) : a.key = b.key ↔ a = b := by
  refine ⟨fun hkey => ?_, congrArg key⟩
  rw [← ofKey_key ha, ← ofKey_key hb, hkey]

theorem configAddress_inj (ha : a.Addressable) (hb : b.Addressable) {offset offset' : UInt8} :
    a.configAddress offset = b.configAddress offset' ↔
      a = b ∧ offset.toNat / 4 = offset'.toNat / 4 := by
  constructor
  · intro hword
    refine ⟨(key_inj ha hb).1 ?_, ?_⟩
    · rw [← configAddress_and_key ha offset, hword, configAddress_and_key hb]
    · rw [← configAddress_and_offset a offset, hword, configAddress_and_offset]
  · rintro ⟨rfl, hplace⟩
    have hmask : ∀ o : UInt8, o &&& 0xfc = UInt8.ofNat (4 * (o.toNat / 4)) :=
      forall_byte (by decide +kernel)
    unfold configAddress
    rw [hmask offset, hmask offset', hplace]

end PciAddress

namespace ScriptedBus

variable {bus : ScriptedBus} {functions : List (PciAddress × PciRegisters)} {a b : PciAddress}

def install (bus : ScriptedBus) (functions : List (PciAddress × PciRegisters)) : ScriptedBus :=
  functions.foldl (fun bus (a, registers) => bus.addPciFunction a.key registers) bus

/-- The registers of the function at an address; of several only the last counts. -/
def installed (functions : List (PciAddress × PciRegisters)) (a : PciAddress) :
    Option PciRegisters :=
  functions.reverse.lookup a

theorem registers?_addPciFunction (ha : a.Addressable) (hb : b.Addressable)
    (registers : PciRegisters) :
    (bus.addPciFunction a.key registers).registers? b =
      if b = a then some registers else bus.registers? b := by
  unfold registers? addPciFunction
  rw [Table.get?_insert]
  simp only [PciAddress.key_inj hb ha]

theorem registers?_install (hempty : bus.pciFunctions = .empty)
    (hfunctions : ∀ p ∈ functions, p.1.Addressable) (ha : a.Addressable) :
    (bus.install functions).registers? a = installed functions a := by
  induction functions using List.reverseRecOn with
  | nil =>
      unfold registers? install
      rw [List.foldl_nil, hempty]
      rfl
  | append_singleton rest p ih =>
      obtain ⟨b, registers⟩ := p
      have hrest := ih fun p hp => hfunctions p (List.mem_append_left _ hp)
      have hb : b.Addressable := hfunctions (b, registers) (by simp)
      have hlast : bus.install (rest ++ [(b, registers)]) =
          (bus.install rest).addPciFunction b.key registers := List.foldl_append
      rw [hlast, registers?_addPciFunction hb ha, hrest, installed, installed, List.reverse_append,
        List.reverse_singleton, List.singleton_append, List.lookup_cons]
      by_cases hsame : a = b
      · simp [hsame]
      · rw [if_neg hsame, beq_false_of_ne hsame]

end ScriptedBus

/-! ## Calls -/

namespace Pci

open ScriptedBus (installed allOnes)

inductive ConfigCall where
  | read (address : PciAddress) (offset : UInt8)
  | write (address : PciAddress) (offset : UInt8) (value : UInt32)
  deriving DecidableEq, Repr

namespace ConfigCall

def address : ConfigCall → PciAddress
  | read address _ => address
  | write address _ _ => address

def perform {β : Type} [PortBus β] : ConfigCall → MachineM β (Option UInt32)
  | read address offset => return some (← readRegister address offset)
  | write address offset value => do
      writeRegister address offset value
      pure none

def written (a : PciAddress) (i : Nat) : ConfigCall → Option UInt32
  | read _ _ => none
  | write b offset value => if b = a ∧ offset.toNat / 4 = i then some value else none

end ConfigCall

def lastWritten (calls : List ConfigCall) (a : PciAddress) (i : Nat) : Option UInt32 :=
  (calls.filterMap (ConfigCall.written a i)).getLast?

/-- Every register holds the value last written to it, or else the one from before the calls. -/
def rewritten (calls : List ConfigCall) (a : PciAddress) (registers : PciRegisters) :
    PciRegisters :=
  registers.mapIdx fun i value => (lastWritten calls a i).getD value

def remembered (functions : List (PciAddress × PciRegisters)) (calls : List ConfigCall)
    (a : PciAddress) : Option PciRegisters :=
  (installed functions a).map (rewritten calls a)

/-- What a call answers behind others: where no function is, all bits are read as ones. -/
def ConfigCall.reply (functions : List (PciAddress × PciRegisters)) (before : List ConfigCall) :
    ConfigCall → Option UInt32
  | read a offset =>
      some (((remembered functions before a).bind (·[offset.toNat / 4]?)).getD allOnes)
  | write _ _ _ => none

variable {functions : List (PciAddress × PciRegisters)} {before calls : List ConfigCall}
  {call : ConfigCall} {bus : ScriptedBus} {a : PciAddress}

theorem rewritten_nil (a : PciAddress) (registers : PciRegisters) :
    rewritten [] a registers = registers := by
  ext i hi
  simp [rewritten, lastWritten]

theorem rewritten_append_read (a b : PciAddress) (offset : UInt8) :
    rewritten (before ++ [.read b offset]) a = rewritten before a := by
  funext registers
  simp [rewritten, lastWritten, ConfigCall.written]

theorem lastWritten_append_write (a b : PciAddress) (offset : UInt8) (value : UInt32) (i : Nat) :
    lastWritten (before ++ [.write b offset value]) a i =
      if b = a ∧ offset.toNat / 4 = i then some value else lastWritten before a i := by
  unfold lastWritten
  rw [List.filterMap_append]
  split
  next hsame => simp [ConfigCall.written, hsame]
  next hother => simp [ConfigCall.written, hother]

theorem rewritten_append_write (a b : PciAddress) (offset : UInt8) (value : UInt32)
    (registers : PciRegisters) :
    rewritten (before ++ [.write b offset value]) a registers =
      if b = a then (rewritten before a registers).setIfInBounds (offset.toNat / 4) value
      else rewritten before a registers := by
  by_cases hsame : b = a
  · rw [if_pos hsame]
    ext i hi
    by_cases hplace : offset.toNat / 4 = i
    · simp [rewritten, lastWritten_append_write, hsame, hplace]
    · simp [rewritten, lastWritten_append_write, hplace, Vector.getElem_setIfInBounds_ne]
  · rw [if_neg hsame]
    ext i hi
    simp [rewritten, lastWritten_append_write, hsame]

def Remembers (functions : List (PciAddress × PciRegisters)) (calls : List ConfigCall)
    (bus : ScriptedBus) : Prop :=
  ∀ a : PciAddress, a.Addressable → bus.registers? a = remembered functions calls a

theorem remembers_install (hempty : bus.pciFunctions = .empty)
    (hfunctions : ∀ p ∈ functions, p.1.Addressable) :
    Remembers functions [] (bus.install functions) := by
  intro a ha
  rw [ScriptedBus.registers?_install hempty hfunctions ha, remembered, funext (rewritten_nil a)]
  exact Option.map_id'.symm

theorem writeRegister_answers_of_none (ha : a.Addressable) (hnone : bus.registers? a = none)
    (offset : UInt8) (value : UInt32) :
    ∃ bus' accesses, Answers (writeRegister a offset value) bus () bus' accesses ∧
      bus'.pciFunctions = bus.pciFunctions := by
  let selected : ScriptedBus := bus.write addressPort (a.configAddress offset)
  have hselected : selected.selected? = none := by
    have hmissing : selected.registers? a = none := hnone
    rw [ScriptedBus.selected_of_configAddress ha rfl, hmissing]
    rfl
  refine ⟨_, _, (Answers.writePort _ _ _ _).bind (.writePort .dword dataPort value selected), ?_⟩
  change (selected.writePci value).pciFunctions = _
  unfold ScriptedBus.writePci
  rw [hselected]
  rfl

namespace Remembers

theorem read (h : Remembers functions before bus) (ha : a.Addressable) (offset : UInt8) :
    ∃ bus' accesses, Answers (ConfigCall.read a offset).perform bus
      ((ConfigCall.read a offset).reply functions before) bus' accesses ∧
      Remembers functions (before ++ [.read a offset]) bus' := by
  obtain ⟨bus', accesses, hanswers, hsame⟩ := readRegister_answers ha bus offset
  unfold ScriptedBus.register at hanswers
  rw [h a ha] at hanswers
  refine ⟨bus', _, hanswers.bind (.pure _ bus'), fun b hb => ?_⟩
  unfold ScriptedBus.registers? remembered
  rw [hsame, rewritten_append_read]
  exact h b hb

theorem write (h : Remembers functions before bus) (ha : a.Addressable) (offset : UInt8)
    (value : UInt32) :
    ∃ bus' accesses, Answers (ConfigCall.write a offset value).perform bus
      ((ConfigCall.write a offset value).reply functions before) bus' accesses ∧
      Remembers functions (before ++ [.write a offset value]) bus' := by
  have hhere := h a ha
  cases hregisters : bus.registers? a with
  | none =>
      obtain ⟨bus', accesses, hanswers, hsame⟩ :=
        writeRegister_answers_of_none ha hregisters offset value
      refine ⟨bus', _, hanswers.bind (.pure none bus'), fun b hb => ?_⟩
      have hkept : bus'.registers? b = remembered functions before b := by
        rw [← h b hb]
        exact congrArg (·.get? b.key) hsame
      rw [hkept]
      unfold remembered
      cases hinstalled : installed functions b with
      | none => rfl
      | some registers =>
          -- a function that is there is not the one that is missing
          have hother : a ≠ b := by
            rintro rfl
            rw [hregisters, remembered, hinstalled] at hhere
            cases hhere
          rw [Option.map_some, Option.map_some, rewritten_append_write, if_neg hother]
  | some registers =>
      obtain ⟨bus', accesses, hanswers, hinserted⟩ :=
        writeRegister_answers ha hregisters offset value
      refine ⟨bus', _, hanswers.bind (.pure none bus'), fun b hb => ?_⟩
      rw [hregisters] at hhere
      obtain ⟨first, hinstalled, rfl⟩ := Option.map_eq_some_iff.1 hhere.symm
      have hafter : bus'.registers? b =
          if b = a then some ((rewritten before a first).setIfInBounds (offset.toNat / 4) value)
          else bus.registers? b := by
        unfold ScriptedBus.registers?
        rw [hinserted, Table.get?_insert]
        simp only [PciAddress.key_inj hb ha]
      rw [hafter]
      by_cases hsame : b = a
      · subst hsame
        rw [if_pos rfl, remembered, hinstalled, Option.map_some, rewritten_append_write,
          if_pos rfl]
      · rw [if_neg hsame, h b hb]
        unfold remembered
        refine congrArg (fun g => (installed functions b).map g) (funext fun registers => ?_)
        rw [rewritten_append_write, if_neg (Ne.symm hsame)]

theorem step (h : Remembers functions before bus) (hcall : call.address.Addressable) :
    ∃ bus' accesses, Answers call.perform bus (call.reply functions before) bus' accesses ∧
      Remembers functions (before ++ [call]) bus' := by
  cases call with
  | read a offset => exact h.read hcall offset
  | write a offset value => exact h.write hcall offset value

theorem run (h : Remembers functions before bus)
    (hcalls : ∀ call ∈ calls, call.address.Addressable) :
    ∃ bus' accesses, Answers (calls.mapM ConfigCall.perform) bus
      (calls.mapIdx fun i call => call.reply functions (before ++ calls.take i)) bus' accesses ∧
      Remembers functions (before ++ calls) bus' := by
  induction calls generalizing before bus with
  | nil =>
      rw [List.append_nil]
      exact ⟨bus, [], .pure [] bus, h⟩
  | cons call rest ih =>
      obtain ⟨bus₁, first, hfirst, h₁⟩ := h.step (hcalls call (.head rest))
      obtain ⟨bus₂, second, hsecond, h₂⟩ := ih h₁ fun call hcall => hcalls call (.tail _ hcall)
      rw [List.append_assoc, List.singleton_append] at h₂
      simp only [List.append_assoc, List.singleton_append] at hsecond
      refine ⟨bus₂, first ++ second, ?_, h₂⟩
      rw [List.mapM_cons, List.mapIdx_cons, ← List.append_nil second]
      simp only [List.take_zero, List.append_nil before, List.take_succ_cons]
      exact hfirst.bind (hsecond.bind (.pure _ bus₂))

end Remembers

/--
Reads and writes of configuration registers behave as on a map.  Whichever
functions are there and whatever is read and written, each read answers what the
calls before it have left in its register, which is the value last written to it
or else the one it was given with the function, and all ones where no function
is.  In the end every register holds what all the calls have left in it.  That is
so because the words for two registers differ, and because the bus takes from a
word the function and the register for which it was made.
-/
theorem config_space_is_map (hempty : bus.pciFunctions = .empty)
    (hfunctions : ∀ p ∈ functions, p.1.Addressable)
    (hcalls : ∀ call ∈ calls, call.address.Addressable) :
    (∃ bus' accesses,
      Answers (calls.mapM ConfigCall.perform) (bus.install functions)
        (calls.mapIdx fun i call => call.reply functions (calls.take i)) bus' accesses ∧
      ∀ a : PciAddress, a.Addressable → bus'.registers? a = remembered functions calls a) ∧
    (∀ a b : PciAddress, a.Addressable → b.Addressable → ∀ offset offset',
      a.configAddress offset = b.configAddress offset' ↔
        a = b ∧ offset.toNat / 4 = offset'.toNat / 4) ∧
    ∀ (a : PciAddress) (offset : UInt8) (bus' : ScriptedBus), a.Addressable →
      bus'.pciAddress = a.configAddress offset →
        PciAddress.ofKey (bus'.pciAddress &&& 0x00ffff00) = a ∧
        bus'.selected? = (bus'.registers? a).map fun registers =>
          (a.key, registers, offset.toNat / 4) := by
  obtain ⟨bus', accesses, hanswers, hremembers⟩ :=
    (remembers_install hempty hfunctions).run hcalls
  refine ⟨⟨bus', accesses, hanswers, hremembers⟩, ?_, ?_⟩
  · intro a b ha hb offset offset'
    exact PciAddress.configAddress_inj ha hb
  · intro a offset bus' ha hselects
    refine ⟨?_, ScriptedBus.selected_of_configAddress ha hselects⟩
    rw [hselects, PciAddress.configAddress_and_key ha, PciAddress.ofKey_key ha]

theorem config_space_of_two :
    let bridge : PciAddress := ⟨0, 3, 0⟩
    let disk : PciAddress := ⟨1, 31, 7⟩
    let calls : List ConfigCall :=
      [.write disk 0x3e 0x2a, .read disk 0x3c, .read bridge 0x3c, .write ⟨0, 4, 0⟩ 0 1,
        .read ⟨0, 4, 0⟩ 0]
    ∃ bus' accesses,
      Answers (calls.mapM ConfigCall.perform)
        (ScriptedBus.idle.install [(bridge, .replicate 64 7), (disk, .replicate 64 8)])
        [none, some 0x2a, some 7, none, some 0xffffffff] bus' accesses ∧
      bus'.registers? disk = some (.set (.replicate 64 8) 15 0x2a) ∧
      bus'.registers? ⟨0, 4, 0⟩ = none := by
  intro bridge disk calls
  let functions : List (PciAddress × PciRegisters) :=
    [(bridge, .replicate 64 7), (disk, .replicate 64 8)]
  have hempty : ScriptedBus.idle.pciFunctions = .empty := rfl
  have hfunctions : ∀ p ∈ functions, p.1.Addressable := by
    simp only [functions, List.forall_mem_cons]
    exact ⟨⟨by decide, by decide⟩, ⟨by decide, by decide⟩, by simp⟩
  have hcalls : ∀ call ∈ calls, call.address.Addressable := by
    simp only [calls, List.forall_mem_cons]
    exact ⟨⟨by decide, by decide⟩, ⟨by decide, by decide⟩, ⟨by decide, by decide⟩,
      ⟨by decide, by decide⟩, ⟨by decide, by decide⟩, by simp⟩
  obtain ⟨⟨bus', accesses, hanswers, hleft⟩, -, -⟩ :=
    config_space_is_map hempty hfunctions hcalls
  have hreplies : (calls.mapIdx fun i call => call.reply functions (calls.take i)) =
      [none, some 0x2a, some 7, none, some 0xffffffff] := by decide +kernel
  rw [hreplies] at hanswers
  refine ⟨bus', accesses, hanswers, ?_, ?_⟩
  · rw [hleft disk ⟨by decide, by decide⟩]
    decide +kernel
  · rw [hleft ⟨0, 4, 0⟩ ⟨by decide, by decide⟩]
    decide +kernel

end Pci

end EarlyBoot
