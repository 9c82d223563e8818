import EarlyBoot.Cmos
import EarlyBoot.Proofs.Bus.Polling

/-!
# Reading the registers of the clock

What a register shows, and how reading it leaves the bus, depend on the bus and
on the pause.  Waiting for the end of an update reads one register again and
again: either an update is seen to end, or the limit is reached.
-/

namespace EarlyBoot.Cmos

open MachineM (Answers Sends pollUntil_polls turns turns_eq_flatMap)
open PortBus (byteAt behind sent)

variable {β : Type}

structure Reading where
  register : UInt8
  value : UInt8

/-- The index is written, the rounds of the pause pass, and the data port is read. -/
def Reading.accesses (pause : Nat) (r : Reading) : List Access :=
  .write .byte indexPort r.register.toUInt32 ::
    (List.replicate pause .delay ++ [.read .byte dataPort r.value.toUInt32])

def accessesOf (pause : Nat) (readings : List Reading) : List Access :=
  readings.flatMap (Reading.accesses pause)

@[simp] theorem accessesOf_nil (pause : Nat) : accessesOf pause [] = [] := rfl

@[simp] theorem accessesOf_append (pause : Nat) (first second : List Reading) :
    accessesOf pause (first ++ second) = accessesOf pause first ++ accessesOf pause second :=
  List.flatMap_append

theorem accessesOf_cons (pause : Nat) (r : Reading) (rest : List Reading) :
    accessesOf pause (r :: rest) = r.accesses pause ++ accessesOf pause rest :=
  List.flatMap_cons

theorem accessesOf_singleton (pause : Nat) (r : Reading) :
    accessesOf pause [r] = r.accesses pause :=
  List.flatMap_singleton _ _

def statusReadings (statuses : List UInt8) : List Reading :=
  statuses.map fun status => ⟨statusARegister, status⟩

theorem suffix_behind_statuses {statuses : List UInt8} {r : Reading} {after rest : List Reading}
    (hsuffix : r :: after <:+ statusReadings statuses ++ rest)
    (hregister : r.register ≠ statusARegister) : r :: after <:+ rest := by
  induction statuses with
  | nil => exact hsuffix
  | cons status statuses ih =>
      rcases List.suffix_cons_iff.1 hsuffix with hhead | htail
      · cases hhead
        exact absurd rfl hregister
      · exact ih htail

section Bus

variable [PortBus β]

def selecting (pause : UInt16) (register : UInt8) : List (UInt16 × UInt8) :=
  (indexPort, register) :: List.replicate pause.toNat (delayPort, 0)

def shown (pause : UInt16) (register : UInt8) (bus : β) : UInt8 :=
  byteAt dataPort (sent bus (selecting pause register))

def afterReading (pause : UInt16) (register : UInt8) (bus : β) : β :=
  behind .byte dataPort (sent bus (selecting pause register))

theorem ofWrites_selecting (pause : UInt16) (register : UInt8) :
    Access.ofWrites (selecting pause register) =
      .write .byte indexPort register.toUInt32 :: List.replicate pause.toNat .delay := by
  simp [Access.ofWrites, Access.ofWrite, selecting, indexPort, delayPort]

theorem readRegister_answers (pause : UInt16) (register : UInt8) (bus : β) :
    Answers (readRegister pause register) bus (shown pause register bus)
      (afterReading pause register bus)
      (Reading.accesses pause.toNat ⟨register, shown pause register bus⟩) := by
  have hselect : Sends (do
      MachineM.writeByte indexPort register
      MachineM.delay pause.toNat : MachineM β Unit) (selecting pause register) :=
    (Sends.writeByte indexPort register).bind (Sends.delay pause.toNat)
  have hread := (hselect bus).bind (f := fun _ => MachineM.readByte dataPort)
    (Answers.readByte dataPort _)
  rw [ofWrites_selecting] at hread
  exact hread

end Bus

/-- A wait that ended in time: updates were seen in progress, and then none was. -/
structure Wait where
  busy : List UInt8
  last : UInt8
  length_lt : busy.length < pollLimit
  updating : ∀ status ∈ busy, status &&& updateInProgressBit ≠ 0
  finished : last &&& updateInProgressBit = 0

def Wait.readings (w : Wait) : List Reading := statusReadings (w.busy ++ [w.last])

structure Expiry where
  statuses : List UInt8
  length_eq : statuses.length = pollLimit
  updating : ∀ status ∈ statuses, status &&& updateInProgressBit ≠ 0

def Expiry.readings (e : Expiry) : List Reading := statusReadings e.statuses

variable [PortBus β]

def statuses (pause : UInt16) (count : Nat) (bus : β) : List UInt8 :=
  (List.range count).map fun i =>
    shown pause statusARegister ((afterReading pause statusARegister)^[i] bus)

theorem accessesOf_statuses (pause : UInt16) (count : Nat) (bus : β) :
    accessesOf pause.toNat (statusReadings (statuses pause count bus)) =
      turns (fun bus => Reading.accesses pause.toNat
        ⟨statusARegister, shown pause statusARegister bus⟩)
        (afterReading pause statusARegister) count bus := by
  rw [turns_eq_flatMap, accessesOf, statusReadings, statuses, List.map_map, List.flatMap_map]
  rfl

theorem updating_of_mem_statuses {pause : UInt16} {count : Nat} {bus : β}
    (hbusy : ∀ i < count, ¬ (shown pause statusARegister
      ((afterReading pause statusARegister)^[i] bus) &&& updateInProgressBit == 0) = true) :
    ∀ status ∈ statuses pause count bus, status &&& updateInProgressBit ≠ 0 := by
  intro status hstatus
  obtain ⟨i, hi, rfl⟩ := List.mem_map.1 hstatus
  simpa using hbusy i (List.mem_range.1 hi)

theorem waitForUpdate_outcome (pause : UInt16) (bus : β) :
    (∃ w : Wait, ∃ bus', Answers (waitForUpdate pause) bus true bus'
      (accessesOf pause.toNat w.readings)) ∨
    ∃ e : Expiry, ∃ bus', Answers (waitForUpdate pause) bus false bus'
      (accessesOf pause.toNat e.readings) := by
  have hpolls := pollUntil_polls (readRegister pause statusARegister : MachineM β UInt8)
    (fun status => status &&& updateInProgressBit == 0)
  rcases hpolls.outcome (readRegister_answers pause statusARegister) pollLimit bus with
    ⟨n, hfirst, hrun⟩ | ⟨hnever, hrun⟩
  · rw [← accessesOf_statuses] at hrun
    let w : Wait :=
      { busy := statuses pause n bus
        last := shown pause statusARegister ((afterReading pause statusARegister)^[n] bus)
        length_lt := by simpa [statuses] using hfirst.lt
        updating := updating_of_mem_statuses hfirst.before
        finished := by simpa using hfirst.holds }
    have hreadings : w.readings = statusReadings (statuses pause (n + 1) bus) := by
      simp [w, Wait.readings, statuses, List.range_succ]
    exact .inl ⟨w, _, hreadings ▸ hrun⟩
  · rw [← accessesOf_statuses] at hrun
    let e : Expiry :=
      ⟨statuses pause pollLimit bus, by simp [statuses], updating_of_mem_statuses hnever⟩
    have hreadings : e.readings = statusReadings (statuses pause pollLimit bus) := by
      simp only [e, Expiry.readings]
    exact .inr ⟨e, _, hreadings ▸ hrun⟩

theorem waitForUpdate_at_once {pause : UInt16} {bus : β}
    (h : shown pause statusARegister bus &&& updateInProgressBit = 0) :
    Answers (waitForUpdate pause) bus true (afterReading pause statusARegister bus)
      (Reading.accesses pause.toNat ⟨statusARegister, shown pause statusARegister bus⟩) := by
  have hpolls := pollUntil_polls (readRegister pause statusARegister : MachineM β UInt8)
    (fun status => status &&& updateInProgressBit == 0)
  have hlimit : pollLimit = pollLimit - 1 + 1 := rfl
  unfold waitForUpdate updateFinished
  rw [hlimit, hpolls.succ]
  exact (readRegister_answers pause statusARegister bus).bind_pure (if_pos (beq_iff_eq.2 h))

end EarlyBoot.Cmos
