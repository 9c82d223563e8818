import EarlyBoot.Port.Scripted
import EarlyBoot.Proofs.Bitmap
import EarlyBoot.Proofs.Bus.Drivers
import EarlyBoot.Proofs.Cmos.Decoding
import EarlyBoot.Proofs.Cmos.Registers
import EarlyBoot.Proofs.Ownership.Refusal

/-!
# Calibrating the clock

Calibration makes one attempt for each pause, the shortest one first.  An
attempt waits for the end of an update and then asks for the month, twice if it
may be one.  The attempts that were made decide what has been found: all but the
last one have failed.
-/

namespace EarlyBoot.Cmos

open MachineM (Answers)

variable {β : Type}

/-- A month in either encoding; it is not known yet which of them the clock uses. -/
def Plausible (raw : UInt8) : Prop := (0x01 ≤ raw ∧ raw ≤ 0x0c) ∨ (0x10 ≤ raw ∧ raw ≤ 0x12)

theorem isPlausibleMonth_iff (raw : UInt8) : isPlausibleMonth raw = true ↔ Plausible raw := by
  simp [isPlausibleMonth, Plausible]

theorem decode_month {month : UInt8} (bcd : Bool) (h : Plausible month) :
    (1 ≤ decode bcd month ∧ decode bcd month ≤ 12) ↔ ¬ (bcd = false ∧ 0x10 ≤ month) := by
  simp only [Plausible, UInt8.le_iff_toNat_le] at h ⊢
  change (1 ≤ month.toNat ∧ month.toNat ≤ 12) ∨ (16 ≤ month.toNat ∧ month.toNat ≤ 18) at h
  change (1 ≤ (decode bcd month).toNat ∧ (decode bcd month).toNat ≤ 12) ↔
    ¬ (bcd = false ∧ 16 ≤ month.toNat)
  cases bcd with
  | false =>
      change (1 ≤ month.toNat ∧ month.toNat ≤ 12) ↔ _
      simp only [true_and]
      omega
  | true =>
      rw [decode, if_pos rfl, toNat_bcdToBinary]
      simp only [Bool.true_eq_false, false_and, not_false_eq_true, iff_true]
      omega

inductive Attempt where
  | stuck (expiry : Expiry)
  | bogus (wait : Wait) (month : UInt8) (hbogus : ¬ Plausible month)
  | unstable (wait : Wait) (month other : UInt8) (hpossible : Plausible month)
      (hother : other ≠ month)
  | working (wait : Wait) (month statusB : UInt8) (hpossible : Plausible month)

namespace Attempt

def readings : Attempt → List Reading
  | stuck expiry => expiry.readings
  | bogus wait month _ => wait.readings ++ [⟨monthRegister, month⟩]
  | unstable wait month other _ _ =>
      wait.readings ++ [⟨monthRegister, month⟩, ⟨monthRegister, other⟩]
  | working wait month statusB _ =>
      wait.readings ++
        [⟨monthRegister, month⟩, ⟨monthRegister, month⟩, ⟨statusBRegister, statusB⟩]

def Failed : Attempt → Prop
  | bogus .. | unstable .. => True
  | stuck _ | working .. => False

theorem last_of_bogus {attempt : Attempt} {month : UInt8} {after : List Reading}
    (hread : ⟨monthRegister, month⟩ :: after <:+ attempt.readings) (h : ¬ Plausible month) :
    after = [] := by
  have hmonth : monthRegister ≠ statusARegister := by decide
  cases attempt with
  | stuck expiry =>
      have hall : ⟨monthRegister, month⟩ :: after <:+ statusReadings expiry.statuses ++ [] := by
        simpa [readings, Expiry.readings] using hread
      simpa using suffix_behind_statuses hall hmonth
  | bogus wait first hbogus =>
      have hrest := suffix_behind_statuses hread hmonth
      simp [List.suffix_cons_iff] at hrest
      exact hrest.2
  | unstable wait first second hpossible hother =>
      have hrest := suffix_behind_statuses hread hmonth
      simp [List.suffix_cons_iff] at hrest
      rcases hrest with ⟨rfl, -⟩ | ⟨-, hafter⟩
      · exact absurd hpossible h
      · exact hafter
  | working wait first statusB hpossible =>
      have hrest := suffix_behind_statuses hread hmonth
      simp [List.suffix_cons_iff] at hrest
      rcases hrest with ⟨rfl, -⟩ | ⟨rfl, -⟩ | ⟨⟨-, -⟩, hafter⟩
      · exact absurd hpossible h
      · exact absurd hpossible h
      · exact hafter

end Attempt

def tried : Nat → List Attempt → List Access
  | _, [] => []
  | pause, attempt :: rest => accessesOf pause attempt.readings ++ tried (pause + 1) rest

theorem tried_singleton (pause : Nat) (attempt : Attempt) :
    tried pause [attempt] = accessesOf pause attempt.readings :=
  List.append_nil _

/-! ## What calibration finds -/

def settings (pause : Nat) (statusB : UInt8) : CmosSettings :=
  { ioDelay := UInt16.ofNat pause
    bcd := !statusB.toNat.testBit 2
    twelveHour := !statusB.toNat.testBit 1 }

theorem mask_eq_zero (status : UInt8) {i : Nat} (hi : i < 8) :
    (status &&& Bitmap.mask i == 0) = !status.toNat.testBit i := by
  have hbit : Bitmap.testBit status i = status.toNat.testBit i := Bitmap.testBit_eq_getLsbD hi
  rw [← hbit, Bitmap.testBit, bne, Bool.not_not]

theorem settings_toNat (pause : UInt16) (statusB : UInt8) :
    settings pause.toNat statusB =
      { ioDelay := pause
        bcd := statusB &&& binaryBit == 0
        twelveHour := statusB &&& hour24Bit == 0 } := by
  have hbinary : (statusB &&& binaryBit == 0) = _ := mask_eq_zero statusB (show 2 < 8 by decide)
  have hhour24 : (statusB &&& hour24Bit == 0) = _ := mask_eq_zero statusB (show 1 < 8 by decide)
  rw [hbinary, hhour24, settings, UInt16.ofNat_toNat]

/-- What the attempts tell, if no other attempt follows them. -/
inductive Concludes : List Attempt → Finding → Prop
  | working {earlier : List Attempt} {wait : Wait} {month statusB : UInt8}
      {hpossible : Plausible month} (hfailed : ∀ attempt ∈ earlier, attempt.Failed)
      (hpause : earlier.length < pauseLimit) :
      Concludes (earlier ++ [.working wait month statusB hpossible])
        (.working (settings earlier.length statusB))
  | notPresent {earlier : List Attempt} {expiry : Expiry}
      (hfailed : ∀ attempt ∈ earlier, attempt.Failed) (hpause : earlier.length < pauseLimit) :
      Concludes (earlier ++ [.stuck expiry]) .notPresent
  | unstable {attempts : List Attempt} (hfailed : ∀ attempt ∈ attempts, attempt.Failed)
      (hpause : attempts.length = pauseLimit) :
      Concludes attempts .unstable

theorem Concludes.length_of_working {attempts : List Attempt} {found : CmosSettings}
    (h : Concludes attempts (.working found)) : attempts.length = found.ioDelay.toNat + 1 := by
  cases h with
  | working hfailed hpause =>
      have hword : _ < 65536 := hpause.trans (by decide)
      simp [settings, Nat.mod_eq_of_lt hword]

def verdict : Finding → Except DeviceStatus Payload
  | .working settings => .ok (.cmos settings)
  | .notPresent => .error .notPresent
  | .unstable => .error .faulty

theorem conclude_finds (finding : Finding) (bus : β) :
    (conclude finding : Driver β).Finds bus (verdict finding) bus [] := by
  have hsettle : (conclude finding : Driver β) = Device.settle (verdict finding) := by
    cases finding <;> rfl
  rw [hsettle]
  exact .settle _ bus

/-! ## The course of calibration -/

variable [PortBus β]

theorem readStableMonth_outcome (pause : UInt16) (bus : β) :
    (∃ month bus', Plausible month ∧ Answers (readStableMonth pause) bus true bus'
      (accessesOf pause.toNat [⟨monthRegister, month⟩, ⟨monthRegister, month⟩])) ∨
    ∃ readings bus', Answers (readStableMonth pause) bus false bus'
        (accessesOf pause.toNat readings) ∧
      ∀ wait : Wait, ∃ attempt : Attempt, attempt.Failed ∧
        attempt.readings = wait.readings ++ readings := by
  let month := shown pause monthRegister bus
  let bus₁ := afterReading pause monthRegister bus
  let other := shown pause monthRegister bus₁
  have hfirst := readRegister_answers pause monthRegister bus
  by_cases hpossible : Plausible month
  · have hboth : Answers (readStableMonth pause) bus (decide (other = month))
        (afterReading pause monthRegister bus₁)
        (accessesOf pause.toNat [⟨monthRegister, month⟩, ⟨monthRegister, other⟩]) := by
      rw [accessesOf_cons, accessesOf_singleton]
      refine hfirst.bind ?_
      rw [if_pos ((isPlausibleMonth_iff month).2 hpossible)]
      exact (readRegister_answers pause monthRegister bus₁).map _
    by_cases hsame : other = month
    · rw [decide_eq_true hsame, hsame] at hboth
      exact .inl ⟨month, _, hpossible, hboth⟩
    · rw [decide_eq_false hsame] at hboth
      exact .inr ⟨_, _, hboth, fun wait =>
        ⟨.unstable wait month other hpossible hsame, trivial, rfl⟩⟩
  · refine .inr ⟨[⟨monthRegister, month⟩], bus₁, hfirst.bind ?_, fun wait =>
      ⟨.bogus wait month hpossible, trivial, rfl⟩⟩
    rw [if_neg (mt (isPlausibleMonth_iff month).1 hpossible)]
    exact .pure false bus₁

theorem calibrateLast_concludes {earlier : List Attempt} {remaining : Nat}
    (hfailed : ∀ attempt ∈ earlier, attempt.Failed)
    (hlength : earlier.length + remaining = pauseLimit) (bus : β) :
    ∃ attempts pause finding bus',
      Answers (calibrateLast remaining) bus (pause, finding) bus'
        (tried earlier.length attempts) ∧
      Concludes (earlier ++ attempts) finding := by
  -- the pause is as long as attempts have been made before
  induction remaining generalizing earlier bus with
  | zero =>
      have hall : (earlier ++ []).length = pauseLimit := by simpa using hlength
      exact ⟨[], _, .unstable, bus, .pure _ bus, .unstable (by simpa using hfailed) hall⟩
  | succ remaining ih =>
      let pause := UInt16.ofNat (pauseLimit - (remaining + 1))
      have hpause : pause.toNat = earlier.length := by
        simp [pause, pauseLimit] at hlength ⊢
        omega
      have hlt : earlier.length < pauseLimit := by omega
      rcases waitForUpdate_outcome pause bus with ⟨wait, bus₁, hwait⟩ | ⟨expiry, bus₁, hwait⟩
      · rcases readStableMonth_outcome pause bus₁ with
          ⟨month, bus₂, hpossible, hmonth⟩ | ⟨readings, bus₂, hmonth, hattempt⟩
        · let statusB := shown pause statusBRegister bus₂
          have hstatus := readRegister_answers pause statusBRegister bus₂
          refine ⟨[.working wait month statusB hpossible], pause, _,
            afterReading pause statusBRegister bus₂, ?_, .working hfailed hlt⟩
          have haccesses : tried earlier.length [.working wait month statusB hpossible] =
              accessesOf pause.toNat wait.readings ++ (accessesOf pause.toNat
                [⟨monthRegister, month⟩, ⟨monthRegister, month⟩] ++
                  (Reading.accesses pause.toNat ⟨statusBRegister, statusB⟩ ++ [])) := by
            simp [tried_singleton, Attempt.readings, accessesOf_cons, ← hpause]
          rw [haccesses, ← hpause, settings_toNat]
          refine .bind hwait ?_
          refine .bind hmonth ?_
          refine .bind hstatus ?_
          exact (Answers.log _ _ _).bind_pure rfl
        · -- this attempt has failed, and the next one makes a longer pause
          obtain ⟨attempt, hthis, hreadings⟩ := hattempt wait
          have hfailed' : ∀ attempt' ∈ earlier ++ [attempt], attempt'.Failed := by
            simpa [or_imp, forall_and] using ⟨hfailed, hthis⟩
          obtain ⟨rest, last, finding, bus', hrest, hconcludes⟩ :=
            ih hfailed' (by simp; omega) bus₂
          refine ⟨attempt :: rest, last, finding, bus', ?_, by simpa using hconcludes⟩
          rw [tried, hreadings, accessesOf_append, List.append_assoc, ← hpause]
          rw [List.length_append, List.length_singleton, ← hpause] at hrest
          exact hwait.bind (hmonth.bind hrest)
      · refine ⟨[.stuck expiry], pause, .notPresent, bus₁, ?_, .notPresent hfailed hlt⟩
        rw [tried_singleton, ← hpause]
        exact hwait.bind_pure rfl

theorem driver_concludes (bus : β) : ∃ attempts finding bus',
    driver.Finds bus (verdict finding) bus' (tried 0 attempts) ∧ Concludes attempts finding := by
  obtain ⟨attempts, pause, finding, bus', hrun, hconcludes⟩ :=
    calibrateLast_concludes (List.forall_mem_nil _) (Nat.zero_add pauseLimit) bus
  refine ⟨attempts, finding, bus', ?_, hconcludes⟩
  have hfinds := Driver.Finds.bind (f := fun (reply : UInt16 × Finding) => conclude reply.2) hrun
    (conclude_finds finding bus')
  rwa [List.append_nil] at hfinds

theorem driver_probing : (driver : Driver β).Probing := by
  intro bus
  obtain ⟨attempts, finding, bus', hfinds, -⟩ := driver_concludes bus
  refine ⟨_, bus', _, hfinds, ?_⟩
  cases finding <;> simp [verdict]

/--
Calibration makes one attempt after the other.  In the first one there is no
pause between the selection of a register and the read, and in each of the
others it is one round longer than before.  Attempts that see an implausible or
an unstable month are followed by the next, and what ends the sequence decides:
a plausible month that is read twice, and then the payload tells the pause of
that attempt and what the status says, an update that does not end, or the last
of the pauses.  The month is not read again behind an implausible one.
-/
theorem driver_finds_shortest_pause {device : Device} {machine : Machine β}
    (hdevice : device.Attachable machine.firmware)
    (hfits : HeapBox.Fits Payload machine.firmware) :
    ∃ (attempts : List Attempt) (status : DeviceStatus) (device' : Device)
      (machine' : Machine β),
      driver device machine = .ok (status, device') machine' ∧
      machine'.trace = machine.trace.recordAll (tried 0 attempts) ∧
      ((∃ settings, status = .initialised ∧ Concludes attempts (.working settings) ∧
          device'.payload? machine'.firmware.memory = some (.cmos settings)) ∨
        (status = .notPresent ∧ Concludes attempts .notPresent ∧ device' = device) ∨
        (status = .faulty ∧ Concludes attempts .unstable ∧ device' = device)) ∧
      ∀ attempt ∈ attempts, ∀ month after,
        ⟨monthRegister, month⟩ :: after <:+ attempt.readings → ¬ Plausible month → after = [] := by
  obtain ⟨attempts, finding, bus', hfinds, hconcludes⟩ := driver_concludes machine.bus
  obtain ⟨firmware', huntouched, hrun⟩ := hfinds device machine.firmware machine.trace
  have hmonths : ∀ attempt ∈ attempts, ∀ month after,
      ⟨monthRegister, month⟩ :: after <:+ attempt.readings → ¬ Plausible month → after = [] :=
    fun _ _ _ _ => Attempt.last_of_bogus
  cases finding with
  | working settings =>
      obtain ⟨device', firmware₂, hcomplete, hpayload⟩ :=
        Device.complete_of_fits (hdevice.of_untouched huntouched)
          ((HeapBox.fits_of_untouched huntouched).2 hfits) (.cmos settings)
      exact ⟨attempts, .initialised, device', _, hrun.trans (MachineM.lift_of_answer hcomplete),
        rfl, .inl ⟨settings, rfl, hconcludes, hpayload⟩, hmonths⟩
  | notPresent =>
      exact ⟨attempts, .notPresent, device, _, hrun, rfl, .inr (.inl ⟨rfl, hconcludes, rfl⟩),
        hmonths⟩
  | unstable =>
      exact ⟨attempts, .faulty, device, _, hrun, rfl, .inr (.inr ⟨rfl, hconcludes, rfl⟩), hmonths⟩

/-- A clock that needs a pause of two rounds. -/
def slowClock : Machine ScriptedBus :=
  ⟨.fresh 4096, ScriptedBus.idle.script dataPort
    [0x80, 0x00, 0x00, 0x00, 0x11, 0x12, 0x00, 0x11, 0x11, 0x02], .empty⟩

theorem slowClock_initialised : ∃ device' machine',
    driver (.new "CMOS/RTC" .pio) slowClock = .ok (.initialised, device') machine' ∧
      device'.payload? machine'.firmware.memory =
        some (.cmos { ioDelay := 2, bcd := true, twelveHour := false }) := by
  have hleft : (do
      let reply ← driver (.new "CMOS/RTC" .pio)
      return (reply.1, reply.2.payload? (← get).firmware.memory) :
        MachineM ScriptedBus _).run' slowClock =
      some (.initialised, some (.cmos { ioDelay := 2, bcd := true, twelveHour := false })) := by
    decide +kernel
  obtain ⟨⟨status, device'⟩, machine', hrun, hview⟩ := answer_of_view hleft
  obtain ⟨rfl, hpayload⟩ := Prod.mk.inj hview
  exact ⟨device', machine', hrun, hpayload⟩

theorem slowClock_pause : ∃ (attempts : List Attempt) (device' : Device)
    (machine' : Machine ScriptedBus),
    driver (.new "CMOS/RTC" .pio) slowClock = .ok (.initialised, device') machine' ∧
      machine'.trace = slowClock.trace.recordAll (tried 0 attempts) ∧ attempts.length = 3 := by
  have hroom : (slowClock.firmware.heap.allocateAligned (Stored.size Payload)
      (Stored.align Payload)).run' slowClock.firmware.memory = some 96 := by decide +kernel
  obtain ⟨m', hfits⟩ := answer_of_run hroom
  have hbare : (Device.new "CMOS/RTC" .pio).Attachable slowClock.firmware := .inl rfl
  obtain ⟨attempts, status, device', machine', hrun, htrace, hjudged, -⟩ :=
    driver_finds_shortest_pause hbare ⟨96, m', hfits⟩
  obtain ⟨device'', machine'', hrun', hpayload⟩ := slowClock_initialised
  cases hrun.symm.trans hrun'
  rcases hjudged with ⟨settings, -, hconcludes, hpayload'⟩ | ⟨⟨⟩, -⟩ | ⟨⟨⟩, -⟩
  cases hpayload.symm.trans hpayload'
  exact ⟨attempts, device', machine', hrun, htrace, hconcludes.length_of_working⟩

/--
Whether a month is plausible is decided before the encoding is known.  The month
that has been accepted is a month of the mode that is recorded, unless this is
the binary mode and the month one of those that only decimal digits allow.
-/
theorem accepted_month_in_mode {device device' : Device} {machine machine' : Machine β}
    (hrun : driver device machine = .ok (.initialised, device') machine') :
    ∃ (earlier : List Attempt) (wait : Wait) (month statusB : UInt8)
      (hpossible : Plausible month) (firmware : Firmware),
      let recorded := settings earlier.length statusB
      machine'.trace = machine.trace.recordAll
        (tried 0 (earlier ++ [.working wait month statusB hpossible])) ∧
      machine.firmware.Untouched firmware ∧
      device.complete (.cmos recorded) firmware = .ok (.initialised, device') machine'.firmware ∧
      (device.Attachable machine.firmware →
        device'.payload? machine'.firmware.memory = some (.cmos recorded)) ∧
      ((1 ≤ decode recorded.bcd month ∧ decode recorded.bcd month ≤ 12) ↔
        ¬ (recorded.bcd = false ∧ 0x10 ≤ month)) := by
  obtain ⟨attempts, finding, bus', hfinds, hconcludes⟩ := driver_concludes machine.bus
  obtain ⟨firmware, huntouched, hrun'⟩ := hfinds device machine.firmware machine.trace
  have hsettle := hrun'.symm.trans hrun
  cases hconcludes with
  | notPresent => cases hsettle
  | unstable => cases hsettle
  | @working earlier wait month statusB hpossible hfailed hpause =>
      obtain ⟨firmware', hcomplete, rfl⟩ := MachineM.answers_of_lift hsettle
      exact ⟨earlier, wait, month, statusB, hpossible, firmware, rfl, huntouched, hcomplete,
        fun hdevice => Device.payload?_of_complete (hdevice.of_untouched huntouched) hcomplete,
        decode_month _ hpossible⟩

theorem slowClock_month : ∃ (earlier : List Attempt) (wait : Wait) (month statusB : UInt8)
    (hpossible : Plausible month) (device' : Device) (machine' : Machine ScriptedBus),
    driver (.new "CMOS/RTC" .pio) slowClock = .ok (.initialised, device') machine' ∧
      machine'.trace = slowClock.trace.recordAll
        (tried 0 (earlier ++ [.working wait month statusB hpossible])) ∧
      1 ≤ decode true month ∧ decode true month ≤ 12 := by
  obtain ⟨device', machine', hrun, hpayload⟩ := slowClock_initialised
  obtain ⟨earlier, wait, month, statusB, hpossible, firmware, htrace, -, -, hrecorded, hmonth⟩ :=
    accepted_month_in_mode hrun
  have hsettings := hpayload.symm.trans (hrecorded (.inl rfl))
  have hbcd : (settings earlier.length statusB).bcd = true := by
    simp only [Option.some.injEq, Payload.cmos.injEq] at hsettings
    rw [← hsettings]
  rw [hbcd] at hmonth
  exact ⟨earlier, wait, month, statusB, hpossible, device', machine', hrun, htrace,
    hmonth.2 (by simp)⟩

/-- A clock in binary mode that shows a month which only decimal digits allow. -/
def binaryClock : Machine ScriptedBus :=
  ⟨.fresh 4096, ScriptedBus.idle.script dataPort [0x00, 0x10, 0x10, 0x04], .empty⟩

theorem sixteenth_month_accepted : ∃ (device' : Device) (machine' : Machine ScriptedBus),
    driver (.new "CMOS/RTC" .pio) binaryClock = .ok (.initialised, device') machine' ∧
      device'.payload? machine'.firmware.memory =
        some (.cmos { ioDelay := 0, bcd := false, twelveHour := true }) ∧
      machine'.trace.accesses = accessesOf 0 [⟨statusARegister, 0x00⟩, ⟨monthRegister, 0x10⟩,
        ⟨monthRegister, 0x10⟩, ⟨statusBRegister, 0x04⟩] ∧
      ¬ (1 ≤ decode false 0x10 ∧ decode false 0x10 ≤ 12) := by
  have hleft : (do
      let reply ← driver (.new "CMOS/RTC" .pio)
      let machine ← get
      return (reply.1, reply.2.payload? machine.firmware.memory, machine.trace.accesses) :
        MachineM ScriptedBus _).run' binaryClock =
      some (.initialised, some (.cmos { ioDelay := 0, bcd := false, twelveHour := true }),
        accessesOf 0 [⟨statusARegister, 0x00⟩, ⟨monthRegister, 0x10⟩,
          ⟨monthRegister, 0x10⟩, ⟨statusBRegister, 0x04⟩]) := by
    decide +kernel
  obtain ⟨⟨status, device'⟩, machine', hrun, hview⟩ := answer_of_view hleft
  obtain ⟨rfl, hrest⟩ := Prod.mk.inj hview
  obtain ⟨hpayload, htrace⟩ := Prod.mk.inj hrest
  exact ⟨device', machine', hrun, hpayload, htrace, by decide⟩

end EarlyBoot.Cmos
