import EarlyBoot.Boot
import EarlyBoot.Port.Scripted
import EarlyBoot.Proofs.Ata.Scan
import EarlyBoot.Proofs.BringUp.Legacy
import EarlyBoot.Proofs.Pci.Scan

/-!
# Bringing up the platform

The legacy devices come first, then the scan of the PCI buses, then the scan
for IDE controllers.  A phase that fails leaves nothing behind, and those before
it are undone; so the platform owns everything that bring-up has obtained, or
there is no platform and nothing was obtained.
-/

namespace EarlyBoot

open DeviceList (deviceCharge)
open HasFirmware (firmware)
open Pci (listRoom)

variable {β : Type} {machine : Machine β} {blocks : List BlockInfo} {n : Int}

namespace Platform

def keeps (platform : Platform) (f : Firmware) : Deed :=
  platform.devices.listing (platform.devices.descriptions f) +
    (platform.pci.listing (platform.pci.descriptions f) +
      Ata.holding platform.ide ((platform.ide.toList f.memory).map IdeController.function))

@[simp] theorem budget_keeps (platform : Platform) (f : Firmware) :
    (platform.keeps f).budget = 0 := by
  simp [keeps]

theorem drop_delivers (platform : Platform) (f f' : Firmware) (blocks : List BlockInfo) :
    Delivers (Owned.drop platform) f' blocks (platform.keeps f) fun _ _ => 0 :=
  andAlso_delivers (platform.devices.drop_delivers _ _ _) (.inl le_rfl) fun _ _ =>
    andAlso_delivers (platform.pci.drop_delivers _ _ _) (.inl le_rfl) fun f₂ blocks₂ =>
      Ata.drop_delivers platform.ide _ f₂ blocks₂

theorem keeps_amounts (platform : Platform) (ds ps : List Description)
    (functions : List PciFunction) (f : Firmware) (blocks : List BlockInfo) :
    Amounts f blocks (platform.devices.listing ds + (platform.pci.listing ps +
      Ata.holding platform.ide functions))
      (platform.keeps f + Deed.fact (platform.devices.descriptions f = ds)) := by
  rintro ⟨hdevices, hpci, hide⟩
  obtain ⟨hdevices, rfl⟩ := hdevices
  obtain ⟨hpci, rfl⟩ := hpci
  obtain ⟨hide, rfl⟩ := hide
  refine (Amounts.refl _ _ _).and_fact (fun _ => rfl) ?_
  exact ⟨⟨hdevices, rfl⟩, ⟨hpci, rfl⟩, hide, rfl⟩

variable [PortBus β] {config : BootConfig} {visits : List (Visit β)}

/-! ## The scans -/

def enumerated (n : Int) (devices : DeviceList) (ds : List Description) (fs : List PciFunction)
    (machine : Machine β) : Except PciError DeviceList → Machine β → Deed
  | .ok pci, machine' => pci.listing (fs.map Pci.describe) + Deed.fund (n - listRoom fs.length) +
      devices.listing ds + Deed.fact (Pci.discover machine = .ok (.ok pci) machine')
  | .error (.allocate address source), _ => Deed.unfunded +
      Deed.fact (source.IsExhaustion ∧ n < listRoom fs.length ∧
        (∃ before, Pci.Overflows .empty machine.firmware fs address before) ∧
        ∃ machine', Pci.discover machine = .ok (.error (.allocate address source)) machine')

theorem discover_enumerated {count : Nat} {fs : List PciFunction} {bus' : β}
    {accesses : List Access} {devices : DeviceList} {ds : List Description}
    (hfinds : Pci.Finds Pci.enumerate machine.bus count fs bus' accesses) :
    Delivers (MachineM.guarding (Owned.drop devices) Pci.discover) machine blocks
      (Deed.fund n + devices.listing ds) fun reply machine' =>
        enumerated n devices ds fs machine reply machine' := by
  -- the room for the list itself is set aside at first
  let m : Int := n - DeviceList.firstStock fs.length
  have hall : m + DeviceList.firstStock fs.length = n := by
    unfold m
    omega
  have hdiscover : Delivers Pci.discover machine blocks
      (Deed.fund (m + DeviceList.firstStock fs.length) + devices.listing ds) _ :=
    ((Pci.discover_delivers hfinds).frame (.inr le_rfl)).running
  rw [hall] at hdiscover
  refine hdiscover.guarding ?_ ?_
  · intro pci machine' blocks'
    refine .of_fact fun hrun => ?_
    have hlength : (fs.map Pci.describe).length ≤ fs.length := by rw [List.length_map]
    have hleft : m - deviceCharge * fs.length = n - listRoom fs.length := by
      unfold m listRoom
      push_cast
      omega
    have hspare : Amounts machine'.firmware blocks'
        (pci.stocked fs.length (n - listRoom fs.length) (fs.map Pci.describe))
        (pci.listing (fs.map Pci.describe) + Deed.fund (n - listRoom fs.length)) :=
      DeviceList.stocked_amounts _ hlength _ _
    refine Amounts.and_fact (Amounts.add ?_ (.refl _ _ _)) fun _ => hrun
    refine .trans (.of_fact fun _ => ?_) hspare
    rw [hleft]
    exact .refl _ _ _
  · rintro ⟨address, source⟩ machine' blocks'
    have hrefused : Pci.discovered fs.length m machine.firmware fs (fun machine' =>
        machine'.bus = bus' ∧ machine'.trace = machine.trace.recordAll accesses)
        (.error (.allocate address source)) machine' + devices.listing ds =
          devices.listing ds + Deed.unfunded + Deed.fact (∃ ds', Pci.Refuses
            (Short deviceCharge fs.length m 0 fs.length) .empty machine.firmware [] fs ds' address
            source) := by
      change Deed.unfunded + Deed.fact _ + _ = _
      abel
    refine .of_fact fun hrun => ?_
    rw [hrefused]
    refine .of_fact fun ⟨_, hrefuses⟩ => ?_
    refine ((devices.drop_delivers ds _ _).frame (.inl le_rfl)).leaving fun _ f' blocks'' => ?_
    rw [zero_add]
    have hless := hrefuses.short.lt_room (by omega) le_rfl
    obtain ⟨before, hoverflows, -⟩ := hrefuses.before
    exact (Amounts.refl _ _ _).and_fact fun _ =>
      ⟨hrefuses.exhausted, hless, ⟨before, hoverflows⟩, machine', hrun⟩

def probed (devices pci : DeviceList) (ds ps : List Description)
    (machine : Machine β) : Except HeapError (HeapVec IdeController) → Machine β → Deed
  | .ok ide, machine' => devices.listing ds + (pci.listing (ps.map Description.scanned) +
      Ata.holding ide (ps.filterMap Description.ide?)) + Deed.unfunded +
        Deed.fact (Ata.scanControllers pci machine = .ok (.ok ide) machine')
  | .error error, _ => Deed.unfunded +
      Deed.fact (error.IsExhaustion ∧
        Ata.Overflows .empty machine (ps.filterMap Description.ide?) ∧
        ∃ machine', Ata.scanControllers pci machine = .ok (.error error) machine')

theorem scanControllers_probed {devices pci : DeviceList} {ds ps : List Description} :
    Delivers (MachineM.guarding (FirmwareM.andAlso (Owned.drop pci) (Owned.drop devices))
      (Ata.scanControllers pci)) machine blocks
      (pci.listing ps + Deed.fund n + devices.listing ds) fun reply machine' =>
        probed devices pci ds ps machine reply machine' := by
  have hscan : Delivers (Ata.scanControllers pci) machine blocks
      (pci.listing ps + Deed.fund n + devices.listing ds) _ :=
    (Ata.scanControllers_delivers.frame (.inr le_rfl)).running
  refine hscan.guarding ?_ ?_
  · intro ide machine' blocks'
    have hfound : Ata.looked pci ps machine (.ok ide) machine' + devices.listing ds =
        devices.listing ds + (pci.listing (ps.map Description.scanned) +
          Ata.holding ide (ps.filterMap Description.ide?)) + Deed.unfunded := by
      change pci.listing _ + Ata.holding ide _ + Deed.unfunded + _ = _
      abel
    refine .of_fact fun hrun => Amounts.and_fact ?_ fun _ => hrun
    rw [hfound]
    exact .refl _ _ _
  · intro error machine' blocks'
    have hrefused : Ata.looked pci ps machine (.error error) machine' + devices.listing ds =
        pci.listing (pci.descriptions machine'.firmware) + devices.listing ds + Deed.unfunded +
          Deed.fact (error.IsExhaustion ∧
            Ata.Overflows .empty machine (ps.filterMap Description.ide?)) := by
      change pci.listing _ + Deed.unfunded + Deed.fact _ + _ = _
      abel
    have hdrop : Delivers (FirmwareM.andAlso (Owned.drop pci) (Owned.drop devices))
        machine'.firmware blocks'
        (pci.listing (pci.descriptions machine'.firmware) + devices.listing ds) fun _ _ => 0 :=
      andAlso_delivers (pci.drop_delivers _ _ _) (.inl le_rfl) (devices.drop_delivers ds)
    refine .of_fact fun hrun => ?_
    rw [hrefused]
    refine .of_fact fun ⟨hexhausted, hoverflows⟩ => ?_
    refine (hdrop.frame (.inl le_rfl)).leaving fun _ f' blocks'' => ?_
    rw [zero_add]
    exact (Amounts.refl _ _ _).and_fact fun _ => ⟨hexhausted, hoverflows, machine', hrun⟩

/-! ## All phases -/

/--
How bring-up ends.  The devices are recorded as far as they have been visited,
and each scan has run on what the phase before it left behind; a scan ends
early only if the heap has refused a function or a controller what it needs.
-/
inductive Outcome (machine : Machine β) (visits : List (Visit β)) (fs : List PciFunction)
    (machine' : Machine β) : Except BootError Platform → Prop
  | stopped {error : DeviceError} (hstops : Stops .empty machine visits machine' error) :
      Outcome machine visits fs machine' (.error (.legacyDevice error))
  | unlisted {devices : DeviceList} {records : List Description} {machine₁ machine₂ : Machine β}
      {address : PciAddress} {source : HeapError} {before : List PciFunction}
      (hcourse : Course .empty machine visits records devices machine₁)
      (hdiscover : Pci.discover machine₁ = .ok (.error (.allocate address source)) machine₂)
      (hexhausted : source.IsExhaustion)
      (hoverflows : Pci.Overflows .empty machine₁.firmware fs address before) :
      Outcome machine visits fs machine' (.error (.pciEnumeration (.allocate address source)))
  | unscanned {devices pci : DeviceList} {records : List Description}
      {machine₁ machine₂ machine₃ : Machine β} {source : HeapError}
      (hcourse : Course .empty machine visits records devices machine₁)
      (hdiscover : Pci.discover machine₁ = .ok (.ok pci) machine₂)
      (hscan : Ata.scanControllers pci machine₂ = .ok (.error source) machine₃)
      (hexhausted : source.IsExhaustion)
      (hoverflows : Ata.Overflows .empty machine₂
        ((fs.map Pci.describe).filterMap Description.ide?)) :
      Outcome machine visits fs machine' (.error (.ataScan source))
  | booted {platform : Platform} {machine₁ machine₂ machine₃ : Machine β}
      (hcourse : Course .empty machine visits (platform.devices.descriptions machine'.firmware)
        platform.devices machine₁)
      (hran : Ran machine visits machine₁)
      (hdiscover : Pci.discover machine₁ = .ok (.ok platform.pci) machine₂)
      (hscan : Ata.scanControllers platform.pci machine₂ = .ok (.ok platform.ide) machine₃)
      (hbus : machine'.bus = machine₃.bus) (htrace : machine'.trace = machine₃.trace) :
      Outcome machine visits fs machine' (.ok platform)

theorem Outcome.ends_at_second {u p : Visit β} {rest : List (Visit β)} {fs : List PciFunction}
    {machine₁ machine' : Machine β} {status : DeviceStatus} {list₁ : DeviceList}
    {reply : Except BootError Platform} (h : Outcome machine (u :: p :: rest) fs machine' reply)
    (hfirst : bringUpDevice .empty u.device machine = .ok (.ok (status, list₁)) machine₁)
    (hsecond : ∀ {machine₂ d list₂ machine₃}, Quiet machine₁ machine₂ →
      ¬ p.Records list₁ machine₂ d list₂ machine₃) :
    ∃ error machine₂, reply = .error (.legacyDevice error) ∧
      Ran machine [u] machine₁ ∧ Quiet machine₁ machine₂ ∧
      ((∃ status, error = .critical p.device.name status ∧ p.Tried machine₂ status ∧
          p.judge status = .error error ∧ Ran machine [u, p] machine') ∨
        ∃ source, error = .allocateRecord p.device.name source ∧
          list₁.Refused p.device.driver p.device.name .pio p.device.isCritical machine₂) := by
  have hpast : ∀ {visits : List (Visit β)} {ds : List Description} {devices : DeviceList}
      {machine₃ : Machine β}, ¬ Course .empty machine (u :: p :: visits) ds devices machine₃ := by
    rintro visits ds devices machine₃ (_ | ⟨hrecords, hquiet, _ | ⟨hrecords', -, -⟩⟩)
    cases hrecords.run.symm.trans hfirst
    exact hsecond hquiet hrecords'
  have hplace : ∀ {before after : List (Visit β)} {v : Visit β} {records : List Description}
      {list₂ : DeviceList} {machine₂ : Machine β} {error : DeviceError},
      u :: p :: rest = before ++ v :: after → Course .empty machine before records list₂ machine₂ →
      bringUpDevice list₂ v.device machine₂ = .ok (.error error) machine' →
      v = p ∧ before = [u] ∧ list₂ = list₁ ∧ Ran machine [u] machine₁ ∧
        Quiet machine₁ machine₂ := by
    intro before after v records list₂ machine₂ error hvisits hcourse hfails
    rcases before with - | ⟨w, - | ⟨w', before⟩⟩
    · cases hvisits
      cases hcourse
      cases hfirst.symm.trans hfails
    · cases hvisits
      obtain _ | ⟨hrecords, hquiet, ⟨⟩⟩ := hcourse
      cases hrecords.run.symm.trans hfirst
      exact ⟨rfl, rfl, rfl, hrecords.ran, hquiet⟩
    · cases hvisits
      exact absurd hcourse hpast
  cases h with
  | unlisted hcourse => exact absurd hcourse hpast
  | unscanned hcourse => exact absurd hcourse hpast
  | booted hcourse => exact absurd hcourse hpast
  | stopped hstops =>
      cases hstops with
      | critical hvisits hbefore htried hjudge hrun hran =>
          obtain ⟨rfl, rfl, rfl, hbefore, hquiet⟩ := hplace hvisits hbefore hrun
          exact ⟨_, _, rfl, hbefore, hquiet, .inl ⟨_, rfl, htried, hjudge, hran⟩⟩
      | refused hvisits hbefore hrefused hrun hexhausted =>
          obtain ⟨rfl, rfl, rfl, hbefore, hquiet⟩ := hplace hvisits hbefore hrun
          exact ⟨_, _, rfl, hbefore, hquiet, .inr ⟨_, rfl, hrefused⟩⟩

def concluded (machine : Machine β) (visits : List (Visit β)) (fs : List PciFunction) :
    Except BootError Platform → Machine β → Deed
  | .ok platform, machine' => platform.keeps machine'.firmware + Deed.unfunded +
      Deed.fact (Outcome machine visits fs machine' (.ok platform))
  | .error error, machine' => Deed.unfunded +
      Deed.fact (Outcome machine visits fs machine' (.error error))

theorem drop_concluded_delivers {platform : Platform} {fs : List PciFunction}
    {machine' : Machine β} :
    Delivers (Owned.drop platform) machine'.firmware blocks
      (concluded machine visits fs (.ok platform) machine') fun _ _ => Deed.unfunded := by
  have hkept : (platform.keeps machine'.firmware).budget ≤ 0 := (budget_keeps _ _).le
  refine .of_fact fun _ => ?_
  refine ((platform.drop_delivers _ _ _).frame (.inl hkept)).leaving fun _ _ _ => ?_
  rw [zero_add]
  exact .refl _ _ _

omit [PortBus β] in
theorem logSummary_delivers (platform : Platform) {f : Firmware} {d : Deed} :
    Delivers platform.logSummary f blocks d fun _ _ => d := by
  have hlines : ∀ (lines : List String) f blocks,
      Delivers (lines.forM FirmwareM.info) f blocks d fun _ _ => d := by
    intro lines
    induction lines with
    | nil => exact fun f blocks => .pure (.refl _ _ _)
    | cons line rest ih =>
        intro f blocks
        refine (Delivers.log .info line).bind ?_
        rintro _ f' blocks' -
        exact ih f' blocks'
  have hview : FirmwareM.view platform.summary f = .ok (platform.summary f) f := rfl
  exact .bind_ok hview (hlines _ f blocks) rfl

theorem bringUp_delivers (hvisits : visits.map Visit.device = uart config :: laterDevices config)
    (hchain : Chain machine.bus visits) {count : Nat} {fs : List PciFunction} {bus' : β}
    {accesses : List Access}
    (hfinds : Pci.Finds Pci.enumerate (busAfter machine.bus visits) count fs bus' accesses)
    (console : Option Sink) :
    Delivers (bringUp config console) machine blocks Deed.unfunded fun reply machine' =>
      concluded machine visits fs reply machine' := by
  unfold bringUp
  refine (legacyDevices_delivers hvisits hchain console).bind ?_
  rintro (error | devices) machine₁ blocks₁ -
  · exact .pure (.of_fact fun hstops => (Amounts.refl _ _ _).and_fact fun _ => .stopped hstops)
  obtain ⟨ds, hds⟩ : ∃ ds, devices.descriptions machine₁.firmware = ds := ⟨_, rfl⟩
  have hcameUp : sequel .empty [] visits machine (.ok devices) machine₁ =
      Deed.fund 0 + devices.listing ds + Deed.unfunded + Deed.fact (∃ records,
        devices.descriptions machine₁.firmware = [] ++ records ∧
          Course .empty machine visits records devices machine₁) := by
    rw [Deed.fund_zero, zero_add, ← hds]
    rfl
  rw [hcameUp]
  refine .of_fact fun ⟨records, hrecords, hcourse⟩ => ?_
  obtain rfl : records = ds := hrecords.symm.trans hds
  have hran := hcourse.ran
  refine (discover_enumerated (hran.1 ▸ hfinds)).bind_frame (.inl (by simp)) ?_
  -- each phase runs on the bus that the one before it has left
  rintro (⟨address, source⟩ | pci) machine₂ blocks₂ -
  · dsimp only [enumerated]
    rw [add_right_comm]
    refine .pure (.of_fact fun ⟨hexhausted, _, ⟨before, hoverflows⟩, machine', hrun⟩ => ?_)
    rw [Deed.unfunded_add_unfunded]
    exact (Amounts.refl _ _ _).and_fact fun _ =>
      .unlisted hcourse hrun hexhausted hoverflows
  dsimp only [enumerated]
  rw [add_right_comm]
  refine .of_fact fun hdiscover => ?_
  refine scanControllers_probed.bind_frame (.inl (by simp)) ?_
  rintro (source | ide) machine₃ blocks₃ -
  · dsimp only [probed]
    rw [add_right_comm]
    refine .pure (.of_fact fun ⟨hexhausted, hoverflows, machine', hrun⟩ => ?_)
    rw [Deed.unfunded_add_unfunded]
    exact (Amounts.refl _ _ _).and_fact fun _ =>
      .unscanned hcourse hdiscover hrun hexhausted hoverflows
  dsimp only [probed]
  rw [add_right_comm]
  refine .of_fact fun hscan => ?_
  rw [add_assoc, Deed.unfunded_add_unfunded]
  let platform : Platform := ⟨devices, pci, ide⟩
  refine platform.logSummary_delivers.lift_bind fun _ f₄ blocks₄ => .pure ?_
  have hkeeps := platform.keeps_amounts records ((fs.map Pci.describe).map Description.scanned)
    ((fs.map Pci.describe).filterMap Description.ide?) f₄ blocks₄
  refine (hkeeps.add (.refl _ _ Deed.unfunded)).trans ?_
  rw [add_right_comm]
  refine .of_fact fun hsame => (Amounts.refl _ _ _).and_fact fun _ => ?_
  exact .booted (hsame ▸ hcourse) hran hdiscover hscan rfl rfl

section Results

variable (config : BootConfig) (console : Option Sink) (machine : Machine β)

theorem bringUp_ends (hp : machine.firmware.heap.Placed)
    (hw : machine.firmware.heap.WellFormed machine.firmware.memory blocks) :
    ∃ visits : List (Visit β), visits.map Visit.device = uart config :: laterDevices config ∧
      Chain machine.bus visits ∧ ∃ count fs bus' accesses,
        Pci.Finds Pci.enumerate (busAfter machine.bus visits) count fs bus' accesses ∧
        ∃ reply machine' blocks', bringUp config console machine = .ok reply machine' ∧
          Exchanges machine.firmware blocks 0 machine'.firmware blocks'
            (concluded machine visits fs reply machine') := by
  obtain ⟨visits, hvisits, hchain⟩ := exists_legacy_chain config machine.bus
  obtain ⟨count, fs, bus', accesses, hfinds, -⟩ :=
    Pci.enumerate_finding (busAfter machine.bus visits)
  have hdelivers : Delivers (bringUp config console) machine blocks 0 _ :=
    (bringUp_delivers hvisits hchain hfinds console).amounts (.unfunded 0 rfl)
  have hs : Holds machine.firmware blocks 0 :=
    ⟨hp, hw, trivial, Multiset.nodup_zero, funded_of_nonpos le_rfl⟩
  exact ⟨visits, hvisits, hchain, count, fs, bus', accesses, hfinds, hdelivers hs⟩

theorem outcome_of_exchanges {machine machine' : Machine β} {visits : List (Visit β)}
    {fs : List PciFunction} {reply : Except BootError Platform} {blocks' : List BlockInfo}
    (h : Exchanges machine.firmware blocks 0 machine'.firmware blocks'
      (concluded machine visits fs reply machine')) : Outcome machine visits fs machine' reply := by
  cases reply with
  | error error => exact h.valid.2
  | ok platform => exact h.valid.2

/--
Whatever the hardware answers, whatever the configuration and however small the
heap, bring-up ends.  If it ends with an error the heap has the blocks from
before; if it ends with a platform the heap is in good order, and has the
blocks from before once the platform is dropped.
-/
theorem bringUp_leaks_nothing (hp : machine.firmware.heap.Placed)
    (hw : machine.firmware.heap.WellFormed machine.firmware.memory blocks) :
    ∃ reply machine', bringUp config console machine = .ok reply machine' ∧
      match reply with
      | .error _ => machine'.firmware.heap.blocks machine'.firmware.memory = blocks
      | .ok platform => machine'.firmware.heap.check machine'.firmware.memory = .ok () ∧
          ∃ f', Owned.drop platform machine'.firmware = .ok () f' ∧
            f'.heap.blocks f'.memory = blocks := by
  obtain ⟨visits, -, -, count, fs, bus', accesses, -, reply, machine', blocks', hrun, h⟩ :=
    bringUp_ends config console machine hp hw
  have hs : Holds machine.firmware blocks 0 :=
    ⟨hp, hw, trivial, Multiset.nodup_zero, funded_of_nonpos le_rfl⟩
  have hs' := h.holds hs
  refine ⟨reply, machine', hrun, ?_⟩
  cases reply with
  | error error => exact h.restores hs rfl rfl
  | ok platform =>
      obtain ⟨_, f', blocks'', hdropped, h'⟩ := drop_concluded_delivers.run_firmware hs'
      exact ⟨hs'.wellFormed.check_ok hs'.placed, f', hdropped, (h.trans h').restores hs rfl rfl⟩

def idleMachine (size : Nat) : Machine ScriptedBus :=
  ⟨⟨Header.write (Memory.ofBytes 0 ByteArray.empty) 64 ⟨true, size - 32, none, none⟩,
    ⟨64, size, 2⟩, .silent .error, .empty⟩, .idle, .empty⟩

theorem idleMachine_ready {size : Nat} (hsize : size = 256 ∨ size = 4096) :
    (idleMachine size).firmware.heap.Placed ∧ (idleMachine size).firmware.heap.WellFormed
      (idleMachine size).firmware.memory [⟨0, size - 32, true⟩] := by
  have hinit : Heap.init 64 size ⟨Memory.ofBytes 0 ByteArray.empty, .uninitialized 2,
      .silent .error, .empty⟩ = .ok (.ok ()) (idleMachine size).firmware := by
    rcases hsize with rfl | rfl <;> rfl
  have hregion : 64 + size ≤ Word.limit := by
    rcases hsize with rfl | rfl <;> decide
  obtain ⟨hp, hw, -⟩ := BlockHeap.init_spec hregion (Heap.init_eq_ok hinit)
  exact ⟨hp, hw⟩

theorem leaks_nothing_on_small_heap : ∃ source machine',
    bringUp .standard none (idleMachine 256) =
      .ok (.error (.legacyDevice (.allocateRecord "8259/PIC" source))) machine' ∧
    machine'.firmware.heap.blocks machine'.firmware.memory = [⟨0, 224, true⟩] := by
  obtain ⟨hp, hw⟩ := idleMachine_ready (.inl rfl)
  obtain ⟨visits, hvisits, -, _, fs, _, _, -, reply, machine₀, _, hends, h⟩ :=
    bringUp_ends .standard none (idleMachine 256) hp hw
  obtain ⟨u, rest, rfl, hu, hrest⟩ := List.map_eq_cons_iff.1 hvisits
  obtain ⟨p, rest, rfl, hpic, -⟩ := List.map_eq_cons_iff.1 hrest
  have hfirst : (bringUpDevice .empty (uart .standard)).run' (idleMachine 256) =
      some (.ok (.notPresent, ⟨⟨192, 1, 4⟩⟩)) := by decide +kernel
  have hsecond : (bringUpDevice .empty (uart .standard) >>= fun _ =>
      liftM (Device.new "8259/PIC" .pio).toRecord).run' (idleMachine 256) =
      some (.error (.outOfMemory 40)) := by decide +kernel
  obtain ⟨machine₁, machine₂, hfirst, hsecond⟩ := answers_of_runs hfirst hsecond
  obtain ⟨f₂, hrefused, -⟩ := MachineM.answers_of_lift hsecond
  have hfull : ∀ {machine₃}, Quiet machine₁ machine₃ →
      ¬ HeapBox.Fits DeviceRecord machine₃.firmware := fun hquiet => by
    rw [HeapBox.fits_of_untouched hquiet.firmware]
    exact Device.not_fits_of_toRecord hrefused
  rw [← hu] at hfirst
  obtain ⟨error, machine₃, rfl, -, -, ⟨status, rfl, -, hjudge, -⟩ | ⟨source, rfl, -⟩⟩ :=
    (outcome_of_exchanges h).ends_at_second hfirst fun hquiet hrecords => by
      obtain ⟨hrecord, -⟩ := hrecords.tried
      exact hfull hquiet (Device.fits_of_toRecord hrecord)
  · have hgoesOn : Device.judge "8259/PIC" false status = .ok status := if_neg (by simp)
    rw [Visit.judge, hpic] at hjudge
    cases hgoesOn.symm.trans hjudge
  · rw [hpic] at hends
    obtain ⟨reply, machine', hrun, hreply⟩ :=
      bringUp_leaks_nothing .standard none (idleMachine 256) hp hw
    cases hends.symm.trans hrun
    exact ⟨source, _, hrun, hreply⟩

/--
The drivers of the serial port, the interrupt controller, the clock, the
keyboard controller and the timer run in this order, each on the bus that the
one before it has left.  The first of them that is critical and does not end
initialised stops bring-up, and then no port is reached that the drivers up to
it have not reached.  If there is none the platform has the records of all five,
and the scans run on the bus that the drivers leave behind.  Anything else comes
of a request that the heap has refused: a driver whose hardware works is faulty
only if its payload does not fit, and the other errors are about a record, a
place in a list or a payload that has been asked for in vain.
-/
theorem bringUp_gated_by_critical (hp : machine.firmware.heap.Placed)
    (hw : machine.firmware.heap.WellFormed machine.firmware.memory blocks) :
    ∃ visits : List (Visit β), visits.map Visit.device =
        [⟨"UART 1", config.critical.uart, Uart.driver ⟨BootConfig.serialPort⟩ config.uartDivisor⟩,
          ⟨"8259/PIC", config.critical.pic, Pic.driver⟩,
          ⟨"CMOS/RTC", config.critical.cmos, Cmos.driver⟩,
          ⟨"8042/PS2", config.critical.keyboard, Keyboard.driver⟩,
          ⟨"825X/PIT", config.critical.pit, Pit.driver config.pitReload⟩] ∧
      Chain machine.bus visits ∧ ∃ count fs bus' accesses,
        Pci.Finds Pci.enumerate (busAfter machine.bus visits) count fs bus' accesses ∧
        ∃ reply machine', bringUp config console machine = .ok reply machine' ∧
          Outcome machine visits fs machine' reply := by
  obtain ⟨visits, hvisits, hchain, count, fs, bus', accesses, hfinds, reply, machine', blocks',
    hrun, h⟩ := bringUp_ends config console machine hp hw
  exact ⟨visits, hvisits, hchain, count, fs, bus', accesses, hfinds, reply, machine', hrun,
    outcome_of_exchanges h⟩

/-- The interrupt controller must work; nothing else has to. -/
def picCritical : BootConfig :=
  { BootConfig.standard with critical := { CriticalDevices.none with pic := true } }

theorem pic_missing_on_idle_bus {u p : Visit ScriptedBus} {rest : List (Visit ScriptedBus)}
    (hchain : Chain (idleMachine 4096).bus (u :: p :: rest)) (hu : u.device = uart picCritical)
    (hp : p.device.driver = Pic.driver) : p.finding = .error .notPresent := by
  let device := Device.new "" .pio
  have huart : (Uart.driver ⟨BootConfig.serialPort⟩ picCritical.uartDivisor device).run'
      (idleMachine 4096) = some (.notPresent, device) := by decide +kernel
  have hpic : (Uart.driver ⟨BootConfig.serialPort⟩ picCritical.uartDivisor device >>= fun _ =>
      Pic.driver device).run' (idleMachine 4096) = some (.notPresent, device) := by decide +kernel
  obtain ⟨machine₁, machine₂, huart, hpic⟩ := answers_of_runs huart hpic
  obtain ⟨hfindsUart, -, hfindsPic, -⟩ := hchain
  rw [hu] at hfindsUart
  rw [hp] at hfindsPic
  obtain ⟨-, hbus⟩ := hfindsUart.of_reported huart (by decide) (by decide)
  rw [← hbus] at hfindsPic
  exact (hfindsPic.of_reported hpic (by decide) (by decide)).1

theorem record_granted_on_idle_bus : ∃ list₁ machine₁,
    bringUpDevice .empty (uart picCritical) (idleMachine 4096) =
      .ok (.ok (.notPresent, list₁)) machine₁ ∧
    ∀ machine₂, Quiet machine₁ machine₂ → HeapBox.Fits DeviceRecord machine₂.firmware := by
  have hfirst : (bringUpDevice .empty (uart picCritical)).run' (idleMachine 4096) =
      some (.ok (.notPresent, ⟨⟨192, 1, 4⟩⟩)) := by decide +kernel
  have hsecond : (bringUpDevice .empty (uart picCritical) >>= fun _ =>
      liftM (Device.new "8259/PIC" .pio).toRecord).run' (idleMachine 4096) = some (.ok ⟨288⟩) := by
    decide +kernel
  obtain ⟨machine₁, machine₂, hfirst, hsecond⟩ := answers_of_runs hfirst hsecond
  obtain ⟨f₂, hgranted, -⟩ := MachineM.answers_of_lift hsecond
  refine ⟨_, machine₁, hfirst, fun machine₃ hquiet => ?_⟩
  rw [HeapBox.fits_of_untouched hquiet.firmware]
  exact Device.fits_of_toRecord hgranted

theorem gated_by_critical_on_idle_bus :
    let machine := idleMachine 4096
    ∃ visits machine',
      visits.map (fun v => v.device.name) =
        ["UART 1", "8259/PIC", "CMOS/RTC", "8042/PS2", "825X/PIT"] ∧
      Chain machine.bus visits ∧
      bringUp picCritical none machine =
        .ok (.error (.legacyDevice (.critical "8259/PIC" .notPresent))) machine' ∧
      Ran machine (visits.take 2) machine' := by
  intro machine
  obtain ⟨hp, hw⟩ := idleMachine_ready (.inr rfl)
  obtain ⟨visits, hvisits, hchain, _, fs, _, _, -, reply, machine', hrun, houtcome⟩ :=
    bringUp_gated_by_critical picCritical none machine hp hw
  have hnames := congrArg (List.map LegacyDevice.name) hvisits
  rw [List.map_map] at hnames
  obtain ⟨u, rest, rfl, hu, hrest⟩ := List.map_eq_cons_iff.1 hvisits
  obtain ⟨p, rest, rfl, hpic, -⟩ := List.map_eq_cons_iff.1 hrest
  replace hu : u.device = uart picCritical := hu
  refine ⟨_, machine', hnames, hchain, ?_⟩
  have hmissing := pic_missing_on_idle_bus hchain hu (by rw [hpic])
  have hsettled : ∀ {machine status}, p.Tried machine status → status = .notPresent := by
    rintro machine status ⟨-, hsettles⟩
    rw [hmissing] at hsettles
    exact hsettles.eq_report
  have hfails : Device.judge "8259/PIC" true .notPresent =
      .error (.critical "8259/PIC" .notPresent) := by decide
  obtain ⟨list₁, machine₁, hfirst, hgranted⟩ := record_granted_on_idle_bus
  rw [← hu] at hfirst
  obtain ⟨error, machine₂, rfl, hbefore, hquiet,
      ⟨status, rfl, htried, hjudge, hran⟩ | ⟨source, rfl, hrefused⟩⟩ :=
    houtcome.ends_at_second hfirst fun hquiet hrecords => by
      have hgoesOn := hrecords.goesOn
      rw [hsettled hrecords.tried, Visit.judge, hpic] at hgoesOn
      cases hfails.symm.trans hgoesOn
  · obtain rfl := hsettled htried
    rw [hpic] at hrun
    exact ⟨hrun, hran⟩
  · rw [hpic] at hrefused
    obtain ⟨-, -, hfindsPic, -⟩ := hchain
    rw [hpic, hmissing] at hfindsPic
    have hfinds : Pic.driver.Finds machine₂.bus (.error .notPresent) p.bus p.accesses := by
      rw [hquiet.bus, hbefore.1]
      exact hfindsPic
    have hfull := hrefused.record_of_critical hfinds (by decide) (by decide)
    exact absurd (hgranted machine₂ hquiet) hfull

end Results

end Platform

end EarlyBoot
