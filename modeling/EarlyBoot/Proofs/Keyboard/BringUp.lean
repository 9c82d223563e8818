import EarlyBoot.Port.Scripted
import EarlyBoot.Proofs.Bus.Drivers
import EarlyBoot.Proofs.Keyboard.Conversation
import EarlyBoot.Proofs.Ownership.Refusal

/-!
# Bringing up the keyboard controller

Bring-up reads the configuration, changes it, tests the controller, and puts the
configuration back if the test has failed.
-/

namespace EarlyBoot.Keyboard

open MachineM (Answers)

variable {β : Type} [PortBus β]

def reading (config : UInt8) : List Transfer := [command readConfigCommand, answer config]

def writing (config response : UInt8) : List Transfer :=
  [command writeConfigCommand, data config, command readConfigCommand, answer response]

def testing (response : UInt8) : List Transfer := [command selfTestCommand, answer response]

def kept (config : UInt8) : UInt8 := config &&& keptBits

def settings (config : UInt8) : Payload :=
  .keyboard
    { configuration := kept config, dualChannel := config &&& secondClockDisabledBit != 0 }

/-- The configuration has been read, and the one that bring-up sets has been verified. -/
def verified (config : UInt8) : List Transfer :=
  reading config ++ writing (kept config) (kept config)

/-- What is said in bring-up, what is then waited for in vain, and what has been found. -/
inductive BroughtUp : List Transfer → Option Direction → Except DeviceStatus Payload → Prop
  | absent {said : List Transfer} {missed : Option Direction}
      (hsaid : said <+: [command readConfigCommand]) :
      BroughtUp said missed (.error .notPresent)
  | unsettled {config response : UInt8} {second : List Transfer} {missed : Option Direction}
      (hwrong : response ≠ kept config) (hsecond : second <+: writing (kept config) response) :
      BroughtUp (reading config ++ second) missed (.error .faulty)
  | passed (config : UInt8) {missed : Option Direction} :
      BroughtUp (verified config ++ testing selfTestPassed) missed (.ok (settings config))
  | failed {config wrong response : UInt8} {third last : List Transfer}
      {missed : Option Direction} (hwrong : wrong ≠ selfTestPassed)
      (hthird : third <+: testing wrong) (hlast : last <+: writing config response)
      (hsent : missed = some .send ∨
        [command writeConfigCommand, data config, command readConfigCommand] <+: last) :
      BroughtUp (verified config ++ third ++ last) missed (.error .faulty)

/-! ## The course of bring-up -/

theorem restoring_outcome (config : UInt8) (message : KeyboardError → String) (bus : β) :
    ∃ bus', ∃ last : Talk,
      Driver.Finds (fun device => do
        if let .error error ← (writeConfig config).run then
          FirmwareM.logError (message error)
        pure (.faulty, device)) bus (.error .faulty) bus'
        ([last].flatMap Conversation.accesses) ∧
      (∃ response, last.transfers <+: writing config response) ∧
      (last.missed = some .send ∨
        [command writeConfigCommand, data config, command readConfigCommand] <+:
          last.transfers) := by
  obtain ⟨reply, bus', last, hwrite, -, hcourse⟩ := writeConfig_conducts config bus
  obtain ⟨response, hsaid, hsent, -⟩ := hcourse.expected
  have hend := Driver.Finds.settle (.error .faulty) bus'
  refine ⟨bus', last, ?_, ⟨response, hsaid⟩, hsent⟩
  cases reply with
  | error error => exact .bind hwrite (.log_bind .error _ hend)
  | ok _ => exact .bind hwrite hend

theorem driver_outcome (bus : β) : ∃ (talks : List Talk) (finding : _) (bus' : β),
    driver.Finds bus finding bus' (talks.flatMap Conversation.accesses) ∧
      BroughtUp (talks.flatMap Conversation.transfers) (talks.getLast?.bind Conversation.missed)
        finding := by
  obtain ⟨reply, bus₁, first, hread, -, hcourse⟩ := readConfig_conducts bus
  rcases hcourse.ends with ⟨-, config, rfl, hfirst⟩ | ⟨operation, direction, -, rfl, hfirst, -⟩
  case inr =>
    refine ⟨[first], .error .notPresent, bus₁, ?_, .absent (by simpa using hfirst)⟩
    exact .bind hread (.log_bind .debug _ (.settle (.error .notPresent) bus₁))
  obtain ⟨reply, bus₂, second, hwrite, -, hsecond⟩ := writeConfig_conducts (kept config) bus₁
  obtain ⟨response, hsaid, -, hset, hwrong⟩ := hsecond.expected
  rcases reply with error | _
  · refine ⟨[first, second], .error .faulty, bus₂, ?_, ?_⟩
    · refine .bind hread ?_
      refine .bind hwrite ?_
      exact .log_bind .debug _ (.settle (.error .faulty) bus₂)
    · simp only [List.flatMap_cons, List.flatMap_nil, List.append_nil, hfirst]
      exact .unsettled (hwrong (by simp)) hsaid
  -- the configuration is in force only if it has been read back
  have hverified : first.transfers ++ second.transfers = verified config := by
    rw [hfirst, hset rfl]
    rfl
  obtain ⟨reply, bus₃, third, htest, -, hthird⟩ := selfTest_conducts bus₂
  obtain ⟨tested, hheard, -, hpassed, hfailed⟩ := hthird.expected
  rcases reply with error | _
  · obtain ⟨bus', last, hrestore, ⟨response, hlast⟩, hsent⟩ :=
      restoring_outcome config (fun error =>
        s!"8042 stopped responding, restoring config failed: {error.message}") bus₃
    refine ⟨[first, second, third, last], .error .faulty, bus', ?_, ?_⟩
    · refine .bind hread ?_
      refine .bind hwrite ?_
      refine .bind htest ?_
      exact .log_bind .debug _ hrestore
    · simp only [List.flatMap_cons, List.flatMap_nil, List.append_nil, ← List.append_assoc,
        hverified]
      exact .failed (hfailed (by simp)) hheard hlast hsent
  · refine ⟨[first, second, third], .ok (settings config), bus₃, ?_, ?_⟩
    · refine .bind hread ?_
      refine .bind hwrite ?_
      refine .bind htest ?_
      exact .settle (.ok (settings config)) bus₃
    · simp only [List.flatMap_cons, List.flatMap_nil, List.append_nil, ← List.append_assoc,
        hverified, hpassed rfl]
      exact .passed config

def dataSent (said : List Transfer) : List UInt8 :=
  said.filterMap fun
    | .sent port value => if port = dataPort then some value else none
    | .received .. => none

@[simp] theorem dataSent_append (first second : List Transfer) :
    dataSent (first ++ second) = dataSent first ++ dataSent second := List.filterMap_append

@[simp] theorem dataSent_reading (config : UInt8) : dataSent (reading config) = [] := rfl

@[simp] theorem dataSent_writing (config response : UInt8) :
    dataSent (writing config response) = [config] := rfl

@[simp] theorem dataSent_verified (config : UInt8) : dataSent (verified config) = [kept config] :=
  rfl

@[simp] theorem dataSent_testing (response : UInt8) : dataSent (testing response) = [] := rfl

@[simp] theorem dataSent_data (value : UInt8) (rest : List Transfer) :
    dataSent (data value :: rest) = value :: dataSent rest := rfl

theorem dataSent_mono {first second : List Transfer} (h : first <+: second) :
    dataSent first <+: dataSent second := h.filterMap _

/-! ## What has been said tells what is found -/

section Configuration

variable {config config' : UInt8} {rest : List Transfer}

@[simp] theorem reading_prefix_iff :
    reading config <+: reading config' ++ rest ↔ config = config' := by
  simp [reading, answer]

@[simp] theorem reading_prefix_verified :
    reading config <+: verified config' ++ rest ↔ config = config' := by
  simp [verified, List.append_assoc]

theorem verified_prefix_reading (h : verified config <+: reading config' ++ rest) :
    config = config' ∧ writing (kept config) (kept config) <+: rest := by
  obtain rfl := reading_prefix_iff.1 ((List.prefix_append _ _).trans h)
  exact ⟨rfl, (List.prefix_append_right_inj _).1 h⟩

end Configuration

theorem not_testing_prefix {wrong config response : UInt8} {third last : List Transfer}
    (hwrong : wrong ≠ selfTestPassed) (hthird : third <+: testing wrong)
    (hlast : last <+: writing config response) :
    ¬ testing selfTestPassed <+: third ++ last := by
  intro hpassed
  simp only [testing, List.prefix_cons_iff, List.prefix_nil] at hthird
  rcases hthird with rfl | ⟨rest, rfl, rfl | ⟨rest, rfl, rfl⟩⟩
  · have hhead := hpassed.trans hlast
    simp [testing, writing, command, selfTestCommand, writeConfigCommand] at hhead
  · have hhead : [answer selfTestPassed] <+: writing config response :=
      (List.prefix_cons_inj _).1 hpassed |>.trans hlast
    simp [writing, command, answer] at hhead
  · simp [testing, answer] at hpassed
    exact hwrong hpassed.symm

theorem data_in_writing {config response value : UInt8} {part after : List Transfer}
    (h : part ++ data value :: after <+: writing config response) :
    part = [command writeConfigCommand] ∧ value = config := by
  rcases part with _ | ⟨x, _ | ⟨y, _ | ⟨z, _ | ⟨w, rest⟩⟩⟩⟩ <;>
    simp [writing, command, data, answer, statusPort, dataPort] at h ⊢
  exact ⟨h.1, h.2.1⟩

namespace BroughtUp

variable {said : List Transfer} {missed : Option Direction} {finding : Except DeviceStatus Payload}
  {payload : Payload} {config : UInt8}

theorem known (h : BroughtUp said missed finding) :
    (∃ payload, finding = .ok payload) ∨ finding = .error .notPresent ∨
      finding = .error .faulty := by
  cases h <;> simp

theorem not_present_iff (h : BroughtUp said missed finding) :
    finding = .error .notPresent ↔ ∀ config, ¬ reading config <+: said := by
  cases h with
  | absent hsaid =>
      refine iff_of_true rfl fun config hread => ?_
      have hlength := (hread.trans hsaid).length_le
      simp [reading] at hlength
  | unsettled => simp
  | passed => simp
  | failed => simp [List.append_assoc]

theorem ok_iff (h : BroughtUp said missed finding) :
    finding = .ok payload ↔ ∃ config, payload = settings config ∧
      said = verified config ++ testing selfTestPassed := by
  cases h with
  | absent hsaid =>
      refine iff_of_false (by simp) ?_
      rintro ⟨config, -, rfl⟩
      have hlength := hsaid.length_le
      simp [verified, reading] at hlength
  | unsettled hwrong hsecond =>
      refine iff_of_false (by simp) ?_
      rintro ⟨config, -, hsaid⟩
      have hlength := hsecond.length_le
      have hsame := congrArg List.length hsaid
      simp only [verified, reading, writing, testing, List.length_append, List.length_cons,
        List.length_nil] at hsame hlength
      omega
  | passed config =>
      constructor
      · rintro ⟨⟩
        exact ⟨config, rfl, rfl⟩
      · rintro ⟨config', rfl, hsaid⟩
        have hread : reading config' <+: verified config ++ testing selfTestPassed :=
          hsaid ▸ (List.prefix_append _ _).trans (List.prefix_append _ _)
        rw [reading_prefix_verified.1 hread]
  | failed hwrong hthird hlast =>
      refine iff_of_false (by simp) ?_
      rintro ⟨config', -, hsaid⟩
      rw [List.append_assoc] at hsaid
      have hrest := (List.append_inj hsaid rfl).2
      exact not_testing_prefix hwrong hthird hlast (hrest ▸ List.prefix_rfl)

theorem dataSent_of_unread (h : BroughtUp said missed finding)
    (hunread : ∀ config, ¬ reading config <+: said) : dataSent said = [] := by
  cases h with
  | absent hsaid => exact List.prefix_nil.1 (dataSent_mono hsaid)
  | unsettled => simp at hunread
  | passed => simp at hunread
  | failed => simp [List.append_assoc] at hunread

theorem dataSent_prefix (h : BroughtUp said missed finding) (hread : reading config <+: said) :
    dataSent said <+: [kept config, config] := by
  cases h with
  | absent hsaid =>
      have hlength := (hread.trans hsaid).length_le
      simp [reading] at hlength
  | unsettled hwrong hsecond =>
      obtain rfl := reading_prefix_iff.1 hread
      rw [dataSent_append, dataSent_reading, List.nil_append]
      exact (dataSent_mono hsecond).trans (List.prefix_append [kept config] [config])
  | passed config' =>
      obtain rfl := reading_prefix_verified.1 hread
      exact List.prefix_append [kept config] [config]
  | failed hwrong hthird hlast =>
      rw [List.append_assoc] at hread
      obtain rfl := reading_prefix_verified.1 hread
      have hnone : dataSent _ = [] := List.prefix_nil.1 (dataSent_mono hthird)
      rw [dataSent_append, dataSent_append, hnone, List.append_nil]
      exact (List.prefix_append_right_inj [kept config]).2 (dataSent_mono hlast)

theorem restores_behind_failure (h : BroughtUp said missed finding)
    {before after : List Transfer} {value : UInt8} (hsplit : said = before ++ data value :: after)
    (hsecond : dataSent before ≠ []) :
    ∃ config wrong heard, value = config ∧ wrong ≠ selfTestPassed ∧ heard <+: testing wrong ∧
      before = verified config ++ heard ++ [command writeConfigCommand] := by
  have htwo : 2 ≤ (dataSent said).length := by
    have hpositive := List.length_pos_iff.2 hsecond
    rw [hsplit, dataSent_append, dataSent_data, List.length_append, List.length_cons]
    omega
  cases h with
  | absent hsaid =>
      have hmost := (dataSent_mono hsaid).length_le.trans' htwo
      simp [dataSent, command, statusPort, dataPort] at hmost
  | unsettled hwrong hrest =>
      have hmost := (dataSent_mono hrest).length_le
      simp at htwo hmost
      omega
  | passed => simp at htwo
  | @failed config wrong response third last _ hwrong hthird hlast =>
      have hnone : dataSent third = [] := List.prefix_nil.1 (dataSent_mono hthird)
      rcases List.append_eq_append_iff.1 hsplit with ⟨part, rfl, hpart⟩ | ⟨part, hpart, hrest⟩
      · obtain ⟨rfl, rfl⟩ := data_in_writing (hpart ▸ hlast)
        exact ⟨_, wrong, third, rfl, hwrong, hthird, rfl⟩
      · -- up to the self test there is but one such byte
        have hone := congrArg (fun said => (dataSent said).length) hpart
        have hpositive := List.length_pos_iff.2 hsecond
        cases part with
        | nil =>
            rw [show last = [] ++ data value :: after from hrest.symm] at hlast
            cases (data_in_writing hlast).1
        | cons transfer rest =>
            obtain ⟨rfl, -⟩ := List.cons.inj hrest
            simp [hnone] at hone
            omega

theorem restores (h : BroughtUp said missed finding) (hverified : verified config <+: said)
    (hfailed : ¬ verified config ++ testing selfTestPassed <+: said) :
    dataSent said = [kept config, config] ∨ missed = some .send := by
  cases h with
  | absent hsaid =>
      have hlength := (hverified.trans hsaid).length_le
      simp [verified, reading] at hlength
  | unsettled hwrong hrest =>
      obtain ⟨rfl, hwritten⟩ := verified_prefix_reading hverified
      have hsame := (hwritten.trans hrest).eq_of_length rfl
      simp [writing, answer] at hsame
      exact absurd hsame.symm hwrong
  | passed config' =>
      obtain rfl := reading_prefix_verified.1 ((List.prefix_append _ _).trans hverified)
      exact absurd List.prefix_rfl hfailed
  | @failed _ _ _ third last _ hwrong hthird hlast hsent =>
      rw [List.append_assoc] at hverified
      obtain rfl := reading_prefix_verified.1 ((List.prefix_append _ _).trans hverified)
      -- the command and the byte have been sent, whatever is answered
      refine hsent.symm.imp_left fun hscript => ?_
      have hnone : dataSent third = [] := List.prefix_nil.1 (dataSent_mono hthird)
      have hdata : dataSent last = [config] := (dataSent_mono hlast).eq_of_length_le
        (dataSent_mono hscript).length_le
      rw [dataSent_append, dataSent_append, hnone, hdata]
      rfl

end BroughtUp

theorem driver_probing : (driver : Driver β).Probing := by
  intro bus
  obtain ⟨talks, finding, bus', hfinds, h⟩ := driver_outcome bus
  refine ⟨finding, bus', _, hfinds, ?_⟩
  rcases h.known with ⟨payload, rfl⟩ | rfl | rfl <;> simp

/-! ## The outcome of bring-up -/

/-- Which status is reported when something has been said, and which payload is left. -/
structure Judged (said : List Transfer) (fits : Prop) (status : DeviceStatus)
    (payload : Option Payload) : Prop where
  not_present : status = .notPresent ↔ ∀ config, ¬ reading config <+: said
  initialised : status = .initialised ↔
    fits ∧ ∃ config, said = verified config ++ testing selfTestPassed
  else_faulty : status ≠ .notPresent → status ≠ .initialised → status = .faulty
  payload_eq : ∀ config, status = .initialised → reading config <+: said →
    payload = some (settings config)

/-- Which configurations have been written when something has been said. -/
structure Restored (said : List Transfer) (missed : Option Direction) : Prop where
  unread : (∀ config, ¬ reading config <+: said) → dataSent said = []
  sent : ∀ config, reading config <+: said → dataSent said <+: [kept config, config]
  behind_failure : ∀ before value after, said = before ++ data value :: after →
    dataSent before ≠ [] → ∃ config wrong heard, value = config ∧ wrong ≠ selfTestPassed ∧
      heard <+: testing wrong ∧ before = verified config ++ heard ++ [command writeConfigCommand]
  after_failure : ∀ config, verified config <+: said →
    ¬ verified config ++ testing selfTestPassed <+: said →
      dataSent said = [kept config, config] ∨ missed = some .send

namespace BroughtUp

variable {said : List Transfer} {missed : Option Direction} {fits : Prop} {status : DeviceStatus}
  {payload : Payload} {left : Option Payload}

theorem restored {finding : Except DeviceStatus Payload} (h : BroughtUp said missed finding) :
    Restored said missed :=
  ⟨h.dataSent_of_unread, fun _ => h.dataSent_prefix, fun _ _ _ => h.restores_behind_failure,
    fun _ => h.restores⟩

theorem judged_of_error (h : BroughtUp said missed (.error status)) :
    Judged said fits status left := by
  have hstatus : status = .notPresent ∨ status = .faulty := by simpa using h.known
  have hfailed : status ≠ .initialised := by rintro rfl; simp at hstatus
  refine ⟨?_, iff_of_false hfailed ?_, fun habsent _ => hstatus.resolve_left habsent,
    fun _ hok => absurd hok hfailed⟩
  · rw [← h.not_present_iff, Except.error.injEq]
  · rintro ⟨-, config, hsaid⟩
    cases h.ok_iff.2 ⟨config, rfl, hsaid⟩

theorem judged_of_ok (h : BroughtUp said missed (.ok payload))
    (hstatus : fits ∧ status = .initialised ∧ left = some payload ∨ ¬ fits ∧ status = .faulty) :
    Judged said fits status left := by
  obtain ⟨config, rfl, rfl⟩ := h.ok_iff.1 rfl
  have hread : status ≠ .notPresent := by rintro rfl; simp at hstatus
  refine ⟨iff_of_false hread (by simp), ?_, ?_, ?_⟩
  · rcases hstatus with ⟨hfits, rfl, -⟩ | ⟨hfull, rfl⟩
    · exact iff_of_true rfl ⟨hfits, config, rfl⟩
    · exact iff_of_false (by simp) fun hfits => hfull hfits.1
  · intro _ hfailed
    rcases hstatus with ⟨-, hok, -⟩ | ⟨-, hfaulty⟩
    · exact absurd hok hfailed
    · exact hfaulty
  · rintro config' rfl hread
    obtain rfl := reading_prefix_verified.1 hread
    exact (hstatus.resolve_right (by simp)).2.2

end BroughtUp

/--
Bring-up always ends.  The controller is not present exactly if its
configuration cannot be read.  It is initialised exactly if the configuration
has been set and verified, the self test has passed and there is room for the
payload, and then the payload describes the configuration.  Otherwise it is
faulty, and its device is as before.  The data port is first written when the
configuration has been read; the configuration is put back when a self test has
failed behind one that was verified, unless the controller takes no more input.
-/
theorem driver_judges_and_restores {device : Device} {old : Option Payload} {machine : Machine β}
    {blocks : List BlockInfo} (hs : Holds machine.firmware blocks (device.carries old)) :
    ∃ (talks : List Talk) (status : DeviceStatus) (device' : Device) (machine' : Machine β)
      (blocks' : List BlockInfo),
      driver device machine = .ok (status, device') machine' ∧
      machine'.trace = machine.trace.recordAll (talks.flatMap Conversation.accesses) ∧
      Holds machine'.firmware blocks'
        (device'.carries (device'.payload? machine'.firmware.memory)) ∧
      (status ≠ .initialised → device' = device ∧ device'.payload? machine'.firmware.memory = old) ∧
      Judged (talks.flatMap Conversation.transfers) (HeapBox.Fits Payload machine.firmware) status
        (device'.payload? machine'.firmware.memory) ∧
      Restored (talks.flatMap Conversation.transfers)
        (talks.getLast?.bind Conversation.missed) := by
  obtain ⟨talks, finding, bus', hfinds, h⟩ := driver_outcome machine.bus
  obtain ⟨firmware', huntouched, hrun⟩ := hfinds device machine.firmware machine.trace
  have hs' : Holds firmware' blocks (device.carries old) :=
    (Exchanges.of_untouched hs huntouched).holds hs
  rcases finding with status | payload
  · have hpayload := Device.payload?_of_carries hs'.valid
    exact ⟨talks, status, device, _, blocks, hrun, rfl, hpayload.symm ▸ hs',
      fun _ => ⟨rfl, hpayload⟩, h.judged_of_error, h.restored⟩
  · rcases Device.complete_outcome payload hs' with
      ⟨hfull, firmware₂, hcomplete, hs₂⟩ | ⟨hroom, device', firmware₂, blocks₂, hcomplete, -, hs₂⟩
    · have hpayload := Device.payload?_of_carries hs₂.valid
      rw [HeapBox.fits_of_untouched huntouched] at hfull
      exact ⟨talks, .faulty, device, _, blocks,
        hrun.trans (MachineM.lift_of_answer hcomplete), rfl, hpayload.symm ▸ hs₂,
        fun _ => ⟨rfl, hpayload⟩, h.judged_of_ok (.inr ⟨hfull, rfl⟩), h.restored⟩
    · have hpayload := Device.payload?_of_carries hs₂.valid
      rw [HeapBox.fits_of_untouched huntouched] at hroom
      exact ⟨talks, .initialised, device', _, blocks₂,
        hrun.trans (MachineM.lift_of_answer hcomplete), rfl, hpayload.symm ▸ hs₂,
        fun hfailed => absurd rfl hfailed, h.judged_of_ok (.inl ⟨hroom, rfl, hpayload⟩),
        h.restored⟩

/-- A controller that answers at once, and passes its self test. -/
def workingController : Machine ScriptedBus :=
  ⟨⟨Header.write (Memory.ofBytes 0 ByteArray.empty) 64 ⟨true, 4064, none, none⟩, ⟨64, 4096, 2⟩,
    .silent .error, .empty⟩, (ScriptedBus.idle.fix statusPort 0x01).script dataPort
      [0x67, 0x24, 0x55], .empty⟩

theorem workingController_initialised : ∃ (talks : List Talk) (device' : Device)
    (machine' : Machine ScriptedBus),
    driver (.new "8042/PS2" .pio) workingController = .ok (.initialised, device') machine' ∧
    device'.payload? machine'.firmware.memory =
      some (.keyboard { configuration := 0x24, dualChannel := true }) ∧
    dataSent (talks.flatMap Conversation.transfers) = [0x24] := by
  have hinit : Heap.init 64 4096 ⟨Memory.ofBytes 0 ByteArray.empty, .uninitialized 2,
      .silent .error, .empty⟩ = .ok (.ok ()) workingController.firmware := rfl
  obtain ⟨hp, hw, -⟩ := BlockHeap.init_spec (by decide) (Heap.init_eq_ok hinit)
  have hs : Holds workingController.firmware _ ((Device.new "8042/PS2" .pio).carries none) :=
    ⟨hp, hw, trivial, Multiset.nodup_zero, funded_of_nonpos le_rfl⟩
  obtain ⟨talks, status, device', machine', blocks', hrun, -, -, -, hjudged, hrestored⟩ :=
    driver_judges_and_restores hs
  have hleft : (do
      let reply ← driver (.new "8042/PS2" .pio)
      return (reply.1, ← FirmwareM.view fun s => reply.2.payload? s.memory) :
        MachineM ScriptedBus _).run' workingController =
      some (.initialised, some (.keyboard { configuration := 0x24, dualChannel := true })) := by
    decide +kernel
  unfold EStateM.run' EStateM.run at hleft
  rw [bind_of_answer hrun] at hleft
  obtain ⟨rfl, hpayload⟩ := Prod.mk.inj (Option.some.inj hleft)
  obtain ⟨-, config, hsaid⟩ := hjudged.initialised.1 rfl
  have hread : reading config <+: talks.flatMap Conversation.transfers := by simp [hsaid]
  have hconfig : some (settings config) = _ :=
    (hjudged.payload_eq config rfl hread).symm.trans hpayload
  refine ⟨talks, device', machine', hrun, hpayload, ?_⟩
  simp [settings] at hconfig
  simp [hsaid, hconfig.1]

end EarlyBoot.Keyboard
