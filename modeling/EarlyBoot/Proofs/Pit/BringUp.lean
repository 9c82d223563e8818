import EarlyBoot.Pit
import EarlyBoot.Port.Scripted
import EarlyBoot.Proofs.Ownership.Settling
import EarlyBoot.Proofs.Pic.Masks

/-!
# Bringing up the timer

The timer is programmed and asked for its mode.  If it confirms it, its interrupt
line is unmasked, and only then the payload is stored: what is written to the
interrupt controllers depends on the timer, and not on the heap.
-/

namespace EarlyBoot

open MachineM (Answers Sends)
open PortBus (byteAt behind sent)

namespace Pit

def Confirms (status : UInt8) : Prop := status &&& modeBits = rateGenerator

instance : DecidablePred Confirms := fun _ => inferInstanceAs (Decidable (_ = _))

def commands (reload : UInt16) : List (UInt16 × UInt8) :=
  [(commandPort, rateGenerator), (channelPort, reload.toUInt8),
    (channelPort, (reload >>> 8).toUInt8), (commandPort, readBackStatus)]

def programming (reload : UInt16) (status : UInt8) : List Access :=
  Access.ofWrites (commands reload) ++ [.ofByte channelPort status]

def broughtUp (reload : UInt16) (status mask : UInt8) : List Access :=
  programming reload status ++ if Confirms status then Pic.unmasking timerLine mask else []

def found (reload : UInt16) (status : UInt8) : Except DeviceStatus Payload :=
  if Confirms status then .ok (.pit ⟨reload⟩)
  else if status = 0x00 ∨ status = 0xff then .error .notPresent
  else .error .faulty

theorem written_broughtUp (reload : UInt16) (status mask : UInt8) :
    Pic.written (broughtUp reload status mask) =
      if Confirms status then [(Pic.primaryData, (Pic.unmasked timerLine mask).toUInt32)]
      else [] := by
  have hprogramming : Pic.written (programming reload status) = [] := by
    simp [Pic.written, programming, commands, Access.ofWrites, Access.ofWrite, Access.ofByte,
      commandPort, channelPort, delayPort, Pic.ports, Pic.primaryCommand, Pic.primaryData,
      Pic.secondaryCommand, Pic.secondaryData, Pic.levelControlLow, Pic.levelControlHigh]
  rw [broughtUp, Pic.written_append, hprogramming, List.nil_append]
  split
  next => exact Pic.written_unmasking timerLine mask
  next => rfl

variable {β : Type} [PortBus β]

theorem programming_finds {reload : UInt16} {bus bus' : β} {verdict : UInt8 → Driver β}
    {finding : Except DeviceStatus Payload} {rest : List Access}
    (h : (verdict (byteAt channelPort (sent bus (commands reload)))).Finds
      (behind .byte channelPort (sent bus (commands reload))) finding bus' rest) :
    Driver.Finds (fun device => do
      MachineM.writeByte commandPort rateGenerator
      MachineM.writeByte channelPort reload.toUInt8
      MachineM.writeByte channelPort (reload >>> 8).toUInt8
      let answer ← status
      verdict answer device) bus finding bus'
      (programming reload (byteAt channelPort (sent bus (commands reload))) ++ rest) := by
  have hsend : Sends (do
      MachineM.writeByte commandPort rateGenerator
      MachineM.writeByte channelPort reload.toUInt8
      MachineM.writeByte channelPort (reload >>> 8).toUInt8
      MachineM.writeByte commandPort readBackStatus : MachineM β Unit) (commands reload) := by
    iterate 3 refine .writeByte_bind ?_
    exact .writeByte _ _
  have hask := (hsend bus).bind (f := fun _ => MachineM.readByte channelPort) (.readByte _ _)
  simpa only [status, bind_assoc, programming] using Driver.Finds.bind hask h

theorem driver_outcome (reload : UInt16) (bus : β) : ∃ status mask bus',
    (driver reload).Finds bus (found reload status) bus' (broughtUp reload status mask) := by
  let answer := byteAt channelPort (sent bus (commands reload))
  let bus₁ := behind .byte channelPort (sent bus (commands reload))
  by_cases hconfirms : Confirms answer
  · obtain ⟨bus', hunmask⟩ := Pic.unmaskLine_answers timerLine bus₁
    have hfound : found reload answer = .ok (.pit ⟨reload⟩) := if_pos hconfirms
    refine ⟨answer, byteAt Pic.primaryData bus₁, bus', ?_⟩
    rw [hfound, broughtUp, if_pos hconfirms, ← List.append_nil (Pic.unmasking _ _)]
    exact programming_finds <| .ite_pos hconfirms <| .log_bind .debug _ <|
      .bind hunmask <| .settle (.ok (.pit ⟨reload⟩)) bus'
  · refine ⟨answer, 0, bus₁, ?_⟩
    rw [found, broughtUp, if_neg hconfirms, if_neg hconfirms]
    refine programming_finds <| .ite_neg hconfirms ?_
    by_cases habsent : answer = 0x00 ∨ answer = 0xff
    · rw [if_pos habsent]
      exact .ite_pos habsent <| .settle (.error .notPresent) bus₁
    · rw [if_neg habsent]
      exact .ite_neg habsent <| .log_bind .debug _ <| .settle (.error .faulty) bus₁

theorem found_ok {reload : UInt16} {answer : UInt8} {payload : Payload}
    (h : found reload answer = .ok payload) : Confirms answer ∧ payload = .pit ⟨reload⟩ := by
  unfold found at h
  split at h
  next hconfirms =>
    cases h
    exact ⟨hconfirms, rfl⟩
  next => split at h <;> cases h

theorem found_error {reload : UInt16} {answer : UInt8} {status : DeviceStatus}
    (h : found reload answer = .error status) :
    ¬ Confirms answer ∧ (status = .notPresent ∧ (answer = 0x00 ∨ answer = 0xff) ∨
      status = .faulty ∧ ¬ (answer = 0x00 ∨ answer = 0xff)) := by
  unfold found at h
  split at h
  next => cases h
  next hwrong =>
    split at h
    next habsent =>
      cases h
      exact ⟨hwrong, .inl ⟨rfl, habsent⟩⟩
    next hpresent =>
      cases h
      exact ⟨hwrong, .inr ⟨rfl, hpresent⟩⟩

theorem driver_probing (reload : UInt16) : (driver reload : Driver β).Probing := by
  intro bus
  obtain ⟨answer, mask, bus', hfinds⟩ := driver_outcome reload bus
  refine ⟨_, bus', _, hfinds, fun hunknown => ?_⟩
  obtain ⟨-, ⟨hstatus, -⟩ | ⟨hstatus, -⟩⟩ := found_error hunknown <;> cases hstatus

theorem Confirms.present {answer : UInt8} (h : Confirms answer) :
    ¬ (answer = 0x00 ∨ answer = 0xff) := by
  rintro (rfl | rfl)
  · exact absurd h (by decide)
  · exact absurd h (by decide)

/-- Which status is reported when the timer has answered, and which payload is left. -/
structure Judged (reload : UInt16) (answer : UInt8) (fits : Prop) (status : DeviceStatus)
    (left : Option Payload) : Prop where
  initialised : status = .initialised ↔ Confirms answer ∧ fits
  not_present : status = .notPresent ↔ answer = 0x00 ∨ answer = 0xff
  else_faulty : status ≠ .initialised → status ≠ .notPresent → status = .faulty
  payload_eq : status = .initialised → left = some (.pit ⟨reload⟩)

theorem judged {reload : UInt16} {answer : UInt8} {fits : Prop} {device device' : Device}
    {old left : Option Payload} {status : DeviceStatus}
    (h : Settled fits device old (found reload answer) status device' left) :
    Judged reload answer fits status left := by
  generalize hfound : found reload answer = finding at h
  cases h with
  | attached hfits hsame =>
      obtain ⟨hconfirms, rfl⟩ := found_ok hfound
      exact ⟨iff_of_true rfl ⟨hconfirms, hfits⟩, iff_of_false (by simp) hconfirms.present,
        fun hfailed => absurd rfl hfailed, fun _ => rfl⟩
  | refused hfull =>
      obtain ⟨hconfirms, -⟩ := found_ok hfound
      exact ⟨iff_of_false (by simp) fun h => hfull h.2, iff_of_false (by simp) hconfirms.present,
        fun _ _ => rfl, fun hok => by cases hok⟩
  | reported status =>
      obtain ⟨hwrong, ⟨rfl, habsent⟩ | ⟨rfl, hpresent⟩⟩ := found_error hfound
      · exact ⟨iff_of_false (by simp) fun h => hwrong h.1, iff_of_true rfl habsent,
          fun _ hfailed => absurd rfl hfailed, fun hok => by cases hok⟩
      · exact ⟨iff_of_false (by simp) fun h => hwrong h.1, iff_of_false (by simp) hpresent,
          fun _ _ => rfl, fun hok => by cases hok⟩

/--
The line of the timer is unmasked exactly if the timer confirms its mode, and all
other lines stay as they were read; otherwise nothing is written to the interrupt
controllers.  The driver reports a timer that works exactly if there is room for
the payload as well.  So on a heap with room the line is unmasked for a timer that is
reported to work and for no other, and on one without it is unmasked for a timer
that is reported to be faulty.
-/
theorem driver_unmasks_confirmed {device : Device} {old : Option Payload} {machine : Machine β}
    {blocks : List BlockInfo} (reload : UInt16)
    (hs : Holds machine.firmware blocks (device.carries old)) :
    ∃ (answer mask : UInt8) (status : DeviceStatus) (device' : Device) (machine' : Machine β)
      (blocks' : List BlockInfo),
      driver reload device machine = .ok (status, device') machine' ∧
      machine'.trace = machine.trace.recordAll (broughtUp reload answer mask) ∧
      Holds machine'.firmware blocks'
        (device'.carries (device'.payload? machine'.firmware.memory)) ∧
      Judged reload answer (HeapBox.Fits Payload machine.firmware) status
        (device'.payload? machine'.firmware.memory) ∧
      (Pic.written (broughtUp reload answer mask) =
        if Confirms answer then [(Pic.primaryData, (Pic.unmasked timerLine mask).toUInt32)]
        else []) ∧
      ∀ i < 8, (Pic.unmasked timerLine mask).toNat.testBit i =
        (decide (i ≠ 0) && mask.toNat.testBit i) := by
  obtain ⟨answer, mask, bus', hfinds⟩ := driver_outcome reload machine.bus
  obtain ⟨status, device', machine', blocks', hrun, htrace, hs', hsettled⟩ := hfinds.settles hs
  exact ⟨answer, mask, status, device', machine', blocks', hrun, htrace, hs', judged hsettled,
    written_broughtUp reload answer mask, fun i hi => Pic.testBit_unmasked mask (by decide) hi⟩

def timerOn (firmware : Firmware) : Machine ScriptedBus :=
  ⟨firmware, (ScriptedBus.idle.fix channelPort 0x34).fix Pic.primaryData 0xff, .empty⟩

theorem timerOn_initialised : ∃ device' machine',
    driver 11932 (.new "825X/PIT" .pio) (timerOn (.fresh 4096)) =
        .ok (.initialised, device') machine' ∧
      Pic.written machine'.trace.accesses = [(Pic.primaryData, 0xfe)] := by
  have hleft : (do
      let reply ← driver 11932 (.new "825X/PIT" .pio)
      return (reply.1, Pic.written (← get).trace.accesses) :
        MachineM ScriptedBus _).run' (timerOn (.fresh 4096)) =
      some (.initialised, [(Pic.primaryData, 0xfe)]) := by
    decide +kernel
  obtain ⟨⟨status, device'⟩, machine', hrun, hview⟩ := answer_of_view hleft
  obtain ⟨rfl, hwritten⟩ := Prod.mk.inj hview
  exact ⟨device', machine', hrun, hwritten⟩

theorem line_of_working_timer : ∃ (answer mask : UInt8) (device' : Device)
    (machine' : Machine ScriptedBus),
    driver 11932 (.new "825X/PIT" .pio) (timerOn (.fresh 4096)) =
        .ok (.initialised, device') machine' ∧
      Confirms answer ∧ Pic.unmasked timerLine mask = 0xfe ∧
      machine'.trace.accesses = programming 11932 answer ++ Pic.unmasking timerLine mask := by
  have hinit : Heap.init 64 4096 ⟨Memory.ofBytes 0 ByteArray.empty, .uninitialized 2,
      .silent .error, .empty⟩ = .ok (.ok ()) (Firmware.fresh 4096) := rfl
  obtain ⟨hp, hw, -⟩ := BlockHeap.init_spec (by decide) (Heap.init_eq_ok hinit)
  have hs : Holds (timerOn (.fresh 4096)).firmware _ ((Device.new "825X/PIT" .pio).carries none) :=
    ⟨hp, hw, trivial, Multiset.nodup_zero, funded_of_nonpos le_rfl⟩
  obtain ⟨answer, mask, status, device', machine', -, hrun, htrace, -, hjudged, hwritten, -⟩ :=
    driver_unmasks_confirmed 11932 hs
  obtain ⟨device'', machine'', hrun', hwritten'⟩ := timerOn_initialised
  cases hrun.symm.trans hrun'
  have hconfirms : Confirms answer := (hjudged.initialised.1 rfl).1
  have haccesses : machine'.trace.accesses = broughtUp 11932 answer mask := by
    rw [htrace, Trace.accesses_recordAll]
    rfl
  rw [if_pos hconfirms, ← haccesses, hwritten'] at hwritten
  rw [broughtUp, if_pos hconfirms] at haccesses
  have hword : 0xfe = (Pic.unmasked timerLine mask).toUInt32 :=
    (Prod.mk.inj (List.cons.inj hwritten).1).2
  have hmask : Pic.unmasked timerLine mask = 0xfe := by
    rw [← UInt8.toUInt8_toUInt32 (Pic.unmasked timerLine mask), ← hword]
    rfl
  exact ⟨answer, mask, device', machine', hrun, hconfirms, hmask, haccesses⟩

theorem line_of_faulty_timer_unmasked :
    (Firmware.full 64).heap.check (Firmware.full 64).memory = .ok () ∧
    ∃ (device' : Device) (machine' : Machine ScriptedBus),
      driver 11932 (.new "825X/PIT" .pio) (timerOn (.full 64)) = .ok (.faulty, device') machine' ∧
      Pic.written machine'.trace.accesses = [(Pic.primaryData, 0xfe)] := by
  refine ⟨by decide +kernel, ?_⟩
  have hleft : (do
      let reply ← driver 11932 (.new "825X/PIT" .pio)
      return (reply.1, Pic.written (← get).trace.accesses) :
        MachineM ScriptedBus _).run' (timerOn (.full 64)) =
      some (.faulty, [(Pic.primaryData, 0xfe)]) := by
    decide +kernel
  obtain ⟨⟨status, device'⟩, machine', hrun, hview⟩ := answer_of_view hleft
  obtain ⟨rfl, hwritten⟩ := Prod.mk.inj hview
  exact ⟨device', machine', hrun, hwritten⟩

end Pit

end EarlyBoot
