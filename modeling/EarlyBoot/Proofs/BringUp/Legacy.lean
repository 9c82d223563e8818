import EarlyBoot.Boot
import EarlyBoot.Proofs.BringUp.Device
import EarlyBoot.Proofs.Cmos.Calibration
import EarlyBoot.Proofs.Keyboard.BringUp
import EarlyBoot.Proofs.Pit.BringUp

/-!
# Bringing up the legacy devices

The drivers of the legacy devices run one after the other, each on the bus that
the one before it has left.  What they find there does not depend on the heap,
so it can be told beforehand, for all of them.  Bring-up records the devices up
to the first critical one that fails; then nothing of what was recorded is
left, and no driver that comes later has run.
-/

namespace EarlyBoot

section Drivers

open MachineM (PortOnly)
open Driver (Probing)

variable {β : Type} [PortBus β]

theorem Uart.driver_probing (uart : Uart) (divisor : UInt16) :
    Probing (uart.driver divisor : Driver β) := by
  have hpresent : PortOnly (uart.isPresent : MachineM β Bool) := .map (.readByte _) _
  have hconfigure : PortOnly (uart.configure divisor : MachineM β _) := by
    unfold configure
    iterate 7 refine .bind (.writeByte _ _) fun _ => ?_
    exact .pure _
  refine .bind hpresent fun present => .ite ?_ ?_
  · exact .bind hconfigure fun settings => .complete _
  · exact .report (by decide)

namespace Pic

theorem send_portOnly (port : UInt16) (value : UInt8) :
    PortOnly (send port value : MachineM β Unit) := by
  refine .bind (.writeByte port value) fun _ => ?_
  exact .delay pause

theorem readPair_portOnly (primary secondary : UInt16) :
    PortOnly (readPair primary secondary : MachineM β UInt16) := by
  refine .bind (.readByte primary) fun low => ?_
  exact .map (.readByte secondary) _

theorem program_portOnly : PortOnly (program : MachineM β Unit) := by
  unfold program
  iterate 9 refine .bind (send_portOnly _ _) fun _ => ?_
  exact send_portOnly _ _

theorem setLevelTriggered_portOnly (lines : UInt16) :
    PortOnly (setLevelTriggered lines : MachineM β UInt16) := by
  refine .bind (readPair_portOnly _ _) fun before => ?_
  iterate 2 refine .bind (.writeByte _ _) fun _ => ?_
  exact .pure _

theorem driver_probing : Probing (driver : Driver β) := by
  refine .bind program_portOnly fun _ => ?_
  refine .bind (readPair_portOnly _ _) fun shown => .ite ?_ (.ite ?_ ?_)
  · exact .bind (setLevelTriggered_portOnly _) fun lines => .complete _
  · exact .report (by decide)
  · exact .bind (.log _ _) fun _ => .report (by decide)

end Pic

end Drivers

namespace Platform

open HasFirmware (firmware)

variable {β : Type} {machine : Machine β} {blocks : List BlockInfo} {list : DeviceList}
  {ds : List Description}

/-! ## Visits -/

/-- What the driver of a device finds, which accesses it makes, and the bus that it leaves. -/
structure Visit (β : Type) where
  device : LegacyDevice β
  finding : Except DeviceStatus Payload
  accesses : List Access
  bus : β

/-- Every driver runs on the bus that the one before it has left. -/
def Chain (bus : β) : List (Visit β) → Prop
  | [] => True
  | v :: rest => v.device.driver.Finds bus v.finding v.bus v.accesses ∧
      v.finding ≠ .error .unknown ∧ Chain v.bus rest

def busAfter (bus : β) (visits : List (Visit β)) : β := visits.foldl (fun _ v => v.bus) bus

def accessesOf (visits : List (Visit β)) : List Access := visits.flatMap Visit.accesses

/-- The bus and the trace are those behind the visits. -/
def Ran (machine : Machine β) (visits : List (Visit β)) (machine' : Machine β) : Prop :=
  machine'.bus = busAfter machine.bus visits ∧
    machine'.trace = machine.trace.recordAll (accessesOf visits)

theorem Ran.single {machine' : Machine β} {v : Visit β} (hbus : machine'.bus = v.bus)
    (htrace : machine'.trace = machine.trace.recordAll v.accesses) : Ran machine [v] machine' := by
  refine ⟨hbus, htrace.trans ?_⟩
  rw [accessesOf, List.flatMap_singleton]

theorem Ran.cons {machine₁ machine₂ : Machine β} {v : Visit β} {rest : List (Visit β)}
    (h : Ran machine [v] machine₁) (h' : Ran machine₁ rest machine₂) :
    Ran machine (v :: rest) machine₂ := by
  refine ⟨h'.1.trans ?_, h'.2.trans ?_⟩
  · rw [h.1]
    rfl
  · rw [h.2, ← Trace.recordAll_append]
    unfold accessesOf
    simp

theorem exists_chain {devices : List (LegacyDevice β)}
    (hdevices : ∀ device ∈ devices, device.driver.Probing) (bus : β) :
    ∃ visits : List (Visit β), visits.map Visit.device = devices ∧ Chain bus visits := by
  induction devices generalizing bus with
  | nil => exact ⟨[], rfl, trivial⟩
  | cons device rest ih =>
      obtain ⟨finding, bus', accesses, hfinds, hknown⟩ := hdevices device (.head rest) bus
      obtain ⟨visits, hrest, hchain⟩ := ih (fun device h => hdevices device (.tail _ h)) bus'
      exact ⟨⟨device, finding, accesses, bus'⟩ :: visits, by rw [List.map_cons, hrest],
        hfinds, hknown, hchain⟩

theorem uart_probing [PortBus β] (config : BootConfig) :
    (uart config : LegacyDevice β).driver.Probing :=
  Uart.driver_probing _ _

theorem laterDevices_probing [PortBus β] (config : BootConfig) :
    ∀ device ∈ (laterDevices config : List (LegacyDevice β)), device.driver.Probing := by
  intro device hdevice
  rcases List.mem_cons.1 hdevice with rfl | hdevice
  · exact Pic.driver_probing
  rcases List.mem_cons.1 hdevice with rfl | hdevice
  · exact Cmos.driver_probing
  rcases List.mem_cons.1 hdevice with rfl | hdevice
  · exact Keyboard.driver_probing
  rcases List.mem_cons.1 hdevice with rfl | hdevice
  · exact Pit.driver_probing _
  · cases hdevice

def Visit.description (v : Visit β) (status : DeviceStatus) : Description :=
  ⟨v.device.name, status, .pio, Device.learnt v.finding status⟩

/-- The device of a visit has got its record, and its driver has come to a status. -/
def Visit.Tried (v : Visit β) (machine : Machine β) (status : DeviceStatus) : Prop :=
  Device.Tried v.device.name .pio v.finding machine.firmware status

def Visit.judge (v : Visit β) (status : DeviceStatus) : Except DeviceError DeviceStatus :=
  Device.judge v.device.name v.device.isCritical status

/-- The device of a visit is in the list, and the boot goes on. -/
structure Visit.Records (v : Visit β) (list : DeviceList) (machine : Machine β) (d : Description)
    (list' : DeviceList) (machine' : Machine β) : Prop where
  run : bringUpDevice list v.device machine = .ok (.ok (d.status, list')) machine'
  tried : v.Tried machine d.status
  goesOn : v.judge d.status = .ok d.status
  eq : d = v.description d.status
  ran : Ran machine [v] machine'

structure Quiet (machine machine' : Machine β) : Prop where
  firmware : machine.firmware.Untouched machine'.firmware
  bus : machine'.bus = machine.bus
  trace : machine'.trace = machine.trace

theorem Quiet.refl (machine : Machine β) : Quiet machine machine := ⟨.refl _, rfl, rfl⟩

/-- The devices of the visits get into the list one after the other. -/
inductive Course : DeviceList → Machine β → List (Visit β) → List Description → DeviceList →
    Machine β → Prop
  | nil (list : DeviceList) (machine : Machine β) : Course list machine [] [] list machine
  | cons {list list₁ list' : DeviceList} {machine machine₁ machine₂ machine' : Machine β}
      {v : Visit β} {visits : List (Visit β)} {d : Description} {ds : List Description}
      (hrecords : v.Records list machine d list₁ machine₁) (hquiet : Quiet machine₁ machine₂)
      (hrest : Course list₁ machine₂ visits ds list' machine') :
      Course list machine (v :: visits) (d :: ds) list' machine'

section Runs

variable {machine₁ machine₂ machine' : Machine β} {list₁ list' : DeviceList} {v : Visit β}
  {visits : List (Visit β)} {d : Description}

theorem Ran.quiet (h : Ran machine visits machine₁) (hquiet : Quiet machine₁ machine') :
    Ran machine visits machine' :=
  ⟨hquiet.bus.trans h.1, hquiet.trace.trans h.2⟩

theorem Course.ran (h : Course list machine visits ds list' machine') :
    Ran machine visits machine' := by
  induction h with
  | nil => exact ⟨rfl, rfl⟩
  | cons hrecords hquiet _ ih => exact (hrecords.ran.quiet hquiet).cons ih

/-- Why the boot cannot go on behind some of the visits. -/
inductive Stops (list : DeviceList) (machine : Machine β) (visits : List (Visit β))
    (machine' : Machine β) : DeviceError → Prop
  | critical {before after : List (Visit β)} {v : Visit β} {records : List Description}
      {list₁ : DeviceList} {machine₁ : Machine β} {status : DeviceStatus}
      (hvisits : visits = before ++ v :: after)
      (hbefore : Course list machine before records list₁ machine₁)
      (htried : v.Tried machine₁ status)
      (hjudge : v.judge status = .error (.critical v.device.name status))
      (hrun : bringUpDevice list₁ v.device machine₁ =
        .ok (.error (.critical v.device.name status)) machine')
      (hran : Ran machine (before ++ [v]) machine') :
      Stops list machine visits machine' (.critical v.device.name status)
  | refused {before after : List (Visit β)} {v : Visit β} {records : List Description}
      {list₁ : DeviceList} {machine₁ : Machine β} {source : HeapError}
      (hvisits : visits = before ++ v :: after)
      (hbefore : Course list machine before records list₁ machine₁)
      (hrefused : list₁.Refused v.device.driver v.device.name .pio v.device.isCritical machine₁)
      (hrun : bringUpDevice list₁ v.device machine₁ =
        .ok (.error (.allocateRecord v.device.name source)) machine')
      (hexhausted : source.IsExhaustion) :
      Stops list machine visits machine' (.allocateRecord v.device.name source)

theorem Stops.head {error : DeviceError} (h : Stops list machine [v] machine' error)
    (rest : List (Visit β)) : Stops list machine (v :: rest) machine' error := by
  have hvisits : ∀ {before after : List (Visit β)} {w : Visit β}, [v] = before ++ w :: after →
      v :: rest = before ++ w :: (after ++ rest) := fun hsplit => by
    rw [← List.cons_append, ← List.append_assoc, ← hsplit, List.singleton_append]
  cases h with
  | critical hsplit hbefore htried hjudge hrun hran =>
      exact .critical (hvisits hsplit) hbefore htried hjudge hrun hran
  | refused hsplit hbefore hrefused hrun hexhausted =>
      exact .refused (hvisits hsplit) hbefore hrefused hrun hexhausted

theorem Stops.tail {error : DeviceError} (h : Stops list₁ machine₂ visits machine' error)
    (hrecords : v.Records list machine d list₁ machine₁) (hquiet : Quiet machine₁ machine₂) :
    Stops list machine (v :: visits) machine' error := by
  cases h with
  | critical hvisits hbefore htried hjudge hrun hran =>
      exact .critical (congrArg (v :: ·) hvisits) (.cons hrecords hquiet hbefore) htried hjudge
        hrun ((hrecords.ran.quiet hquiet).cons hran)
  | refused hvisits hbefore hrefused hrun hexhausted =>
      exact .refused (congrArg (v :: ·) hvisits) (.cons hrecords hquiet hbefore) hrefused hrun
        hexhausted

end Runs

/-! ## One device after the other -/

def attempted (list : DeviceList) (ds : List Description) (v : Visit β) (machine : Machine β) :
    Except DeviceError (DeviceStatus × DeviceList) → Machine β → Deed
  | .ok (status, list'), machine' =>
      list'.listing (ds ++ [v.description status]) + Deed.unfunded +
        Deed.fact (v.Tried machine status ∧ v.judge status = .ok status ∧ Ran machine [v] machine')
  | .error (.critical name status), machine' => Deed.unfunded +
      Deed.fact (name = v.device.name ∧ v.Tried machine status ∧
        v.judge status = .error (.critical name status) ∧ Ran machine [v] machine')
  | .error (.allocateRecord name source), _ => Deed.unfunded +
      Deed.fact (name = v.device.name ∧ source.IsExhaustion ∧
        list.Refused v.device.driver v.device.name .pio v.device.isCritical machine)

theorem bringUpDevice_attempted {v : Visit β}
    (hfinds : v.device.driver.Finds machine.bus v.finding v.bus v.accesses)
    (hknown : v.finding ≠ .error .unknown) :
    Delivers (bringUpDevice list v.device) machine blocks (list.listing ds + Deed.unfunded)
      fun reply machine' => attempted list ds v machine reply machine' := by
  have hran : ∀ machine' : Machine β, machine'.bus = v.bus ∧ machine'.trace =
      machine.trace.recordAll v.accesses → Ran machine [v] machine' := fun _ h => .single h.1 h.2
  refine (DeviceList.bringUp_delivers hfinds hknown v.device.name .pio
    v.device.isCritical).guarding ?_ ?_
  · rintro ⟨status, list'⟩ machine' blocks'
    refine .of_fact fun ⟨htried, hjudge, h⟩ => (Amounts.refl _ _ _).and_fact fun _ => ?_
    exact ⟨htried, hjudge, hran machine' h⟩
  · intro error machine' blocks'
    have hdrop : Delivers (Owned.drop list) machine'.firmware blocks'
        (list.listing ds + Deed.unfunded) fun _ _ => Deed.unfunded := by
      refine ((list.drop_delivers ds _ _).frame (.inl le_rfl)).leaving fun _ f' blocks'' => ?_
      rw [zero_add]
      exact .refl _ _ _
    cases error with
    | critical name status =>
        refine .of_fact fun ⟨htried, hjudge, h⟩ => hdrop.leaving fun _ f' blocks'' => ?_
        obtain rfl : v.device.name = name := by
          unfold Device.judge at hjudge
          split at hjudge
          · cases hjudge
            rfl
          · cases hjudge
        exact (Amounts.refl _ _ _).and_fact fun _ => ⟨rfl, htried, hjudge, hran _ h⟩
    | allocateRecord name source =>
        refine .of_fact fun hrefused => hdrop.leaving fun _ f' blocks'' => ?_
        exact (Amounts.refl _ _ _).and_fact fun _ => hrefused

def visited (list : DeviceList) (ds : List Description) (v : Visit β) (machine : Machine β) :
    Except DeviceError (DeviceStatus × DeviceList) → Machine β → Deed
  | .ok (status, list'), machine' =>
      list'.listing (ds ++ [v.description status]) + Deed.unfunded +
        Deed.fact (v.Records list machine (v.description status) list' machine')
  | .error error, machine' =>
      Deed.unfunded + Deed.fact (Stops list machine [v] machine' error)

theorem bringUpDevice_delivers {v : Visit β}
    (hfinds : v.device.driver.Finds machine.bus v.finding v.bus v.accesses)
    (hknown : v.finding ≠ .error .unknown) :
    Delivers (bringUpDevice list v.device) machine blocks (list.listing ds + Deed.unfunded)
      fun reply machine' => visited list ds v machine reply machine' := by
  refine (bringUpDevice_attempted hfinds hknown).running.leaving ?_
  have hone : [v] = [] ++ v :: [] := rfl
  rintro ((⟨name, status⟩ | ⟨name, source⟩) | ⟨status, list'⟩) machine' blocks'
  · refine .of_fact fun hrun => .of_fact ?_
    rintro ⟨rfl, htried, hjudge, hran⟩
    refine (Amounts.refl _ _ _).and_fact fun _ => ?_
    exact .critical hone (.nil list machine) htried hjudge hrun hran
  · refine .of_fact fun hrun => .of_fact ?_
    rintro ⟨rfl, hexhausted, hrefused⟩
    refine (Amounts.refl _ _ _).and_fact fun _ => ?_
    exact .refused hone (.nil list machine) hrefused hrun hexhausted
  · refine .of_fact fun hrun => .of_fact fun ⟨htried, hjudge, hran⟩ => ?_
    exact (Amounts.refl _ _ _).and_fact fun _ => ⟨hrun, htried, hjudge, rfl, hran⟩

def sequel (list : DeviceList) (ds : List Description) (visits : List (Visit β))
    (machine : Machine β) : Except DeviceError DeviceList → Machine β → Deed
  | .ok list', machine' =>
      list'.listing (list'.descriptions machine'.firmware) + Deed.unfunded +
        Deed.fact (∃ records, list'.descriptions machine'.firmware = ds ++ records ∧
          Course list machine visits records list' machine')
  | .error error, machine' =>
      Deed.unfunded + Deed.fact (Stops list machine visits machine' error)

theorem sequel_cons {list₁ : DeviceList} {machine₁ machine₂ machine' : Machine β} {v : Visit β}
    {rest : List (Visit β)} {d : Description}
    (hrecords : v.Records list machine d list₁ machine₁) (hquiet : Quiet machine₁ machine₂)
    (reply : Except DeviceError DeviceList) (blocks' : List BlockInfo) :
    Amounts machine'.firmware blocks' (sequel list₁ (ds ++ [d]) rest machine₂ reply machine')
      (sequel list ds (v :: rest) machine reply machine') := by
  cases reply with
  | error error =>
      refine .of_fact fun hstops => (Amounts.refl _ _ _).and_fact fun _ => ?_
      exact hstops.tail hrecords hquiet
  | ok list' =>
      refine .of_fact ?_
      rintro ⟨records, hdescriptions, hcourse⟩
      refine (Amounts.refl _ _ _).and_fact fun _ =>
        ⟨d :: records, ?_, .cons hrecords hquiet hcourse⟩
      rw [hdescriptions, List.append_assoc, List.singleton_append]

theorem sequel_nil (list : DeviceList) (blocks : List BlockInfo) :
    Amounts machine.firmware blocks (list.listing ds + Deed.unfunded)
      (sequel list ds [] machine (.ok list) machine) := by
  intro hv
  have hds : list.descriptions machine.firmware = ds := hv.1.2
  dsimp only [sequel]
  rw [hds]
  exact (Amounts.refl _ _ _).and_fact
    (fun _ => ⟨[], (List.append_nil ds).symm, .nil list machine⟩) hv

theorem bringUpDevice_bind {v : Visit β} {rest : List (Visit β)}
    {next : Except DeviceError (DeviceStatus × DeviceList) →
      MachineM β (Except DeviceError DeviceList)}
    (hfinds : v.device.driver.Finds machine.bus v.finding v.bus v.accesses)
    (hknown : v.finding ≠ .error .unknown)
    (hfails : ∀ error, next (.error error) = pure (.error error))
    (hgoesOn : ∀ {d list₁ machine₁} blocks₁, v.Records list machine d list₁ machine₁ →
      Delivers (next (.ok (d.status, list₁))) machine₁ blocks₁
        (list₁.listing (ds ++ [d]) + Deed.unfunded) fun reply machine' =>
          sequel list ds (v :: rest) machine reply machine') :
    Delivers (bringUpDevice list v.device >>= next) machine blocks
      (list.listing ds + Deed.unfunded) fun reply machine' =>
        sequel list ds (v :: rest) machine reply machine' := by
  refine (bringUpDevice_delivers hfinds hknown).bind ?_
  rintro (error | ⟨status, list₁⟩) machine₁ blocks₁ -
  · rw [hfails]
    refine .pure (.of_fact fun hstops => (Amounts.refl _ _ _).and_fact fun _ => ?_)
    exact hstops.head rest
  · exact .of_fact fun hrecords => hgoesOn blocks₁ hrecords

theorem bringUpDevices_delivers {visits : List (Visit β)} (hchain : Chain machine.bus visits) :
    Delivers (bringUpDevices list (visits.map Visit.device)) machine blocks
      (list.listing ds + Deed.unfunded) fun reply machine' =>
        sequel list ds visits machine reply machine' := by
  induction visits generalizing machine blocks list ds with
  | nil => exact .pure (sequel_nil list blocks)
  | cons v rest ih =>
      obtain ⟨hfinds, hknown, hrest⟩ := hchain
      refine bringUpDevice_bind hfinds hknown (fun _ => rfl) ?_
      intro d list₁ machine₁ blocks₁ hrecords
      refine (ih (hrecords.ran.1 ▸ hrest)).leaving fun reply machine' blocks' => ?_
      exact sequel_cons hrecords (.refl machine₁) reply blocks'

theorem announce_untouched (config : BootConfig) (console : Option Sink) (status : DeviceStatus)
    (f : Firmware) : ∃ f', announce config console status f = .ok () f' ∧ f.Untouched f' := by
  cases console <;> cases status <;> exact ⟨_, rfl, rfl, rfl, rfl⟩

variable [PortBus β]

theorem exists_legacy_chain (config : BootConfig) (bus : β) :
    ∃ visits : List (Visit β), visits.map Visit.device = uart config :: laterDevices config ∧
      Chain bus visits :=
  exists_chain (fun device hdevice => (List.mem_cons.1 hdevice).elim
    (fun h => h ▸ uart_probing config) (laterDevices_probing config device)) bus

theorem legacyDevices_delivers {config : BootConfig} {visits : List (Visit β)}
    (hvisits : visits.map Visit.device = uart config :: laterDevices config)
    (hchain : Chain machine.bus visits) (console : Option Sink) :
    Delivers (legacyDevices config console) machine blocks Deed.unfunded fun reply machine' =>
      sequel .empty [] visits machine reply machine' := by
  rcases visits with - | ⟨v, rest⟩
  · cases hvisits
  obtain ⟨hfirst, hlater⟩ := List.cons_eq_cons.1 hvisits
  obtain ⟨hfinds, hknown, hrest⟩ := hchain
  have hempty := (DeviceList.empty_amounts machine.firmware blocks).add (.refl _ _ Deed.unfunded)
  rw [zero_add] at hempty
  refine .amounts ?_ hempty
  unfold legacyDevices
  rw [← hfirst, ← hlater]
  refine bringUpDevice_bind hfinds hknown (fun _ => rfl) ?_
  intro d list₁ machine₁ blocks₁ hrecords
  obtain ⟨f₂, hannounce, huntouched⟩ :=
    announce_untouched config console d.status machine₁.firmware
  let machine₂ : Machine β := { machine₁ with firmware := f₂ }
  have hquiet : Quiet machine₁ machine₂ := ⟨huntouched, rfl, rfl⟩
  have hchain₂ : Chain machine₂.bus rest := hrecords.ran.1 ▸ hrest
  refine .skip (MachineM.lift_of_answer hannounce) huntouched fun blocks₂ => ?_
  refine (bringUpDevices_delivers hchain₂).leaving fun reply machine' blocks' => ?_
  exact sequel_cons hrecords hquiet reply blocks'

end Platform

end EarlyBoot
