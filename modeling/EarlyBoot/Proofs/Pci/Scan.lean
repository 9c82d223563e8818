import EarlyBoot.Proofs.Pci.Recording
import EarlyBoot.Proofs.Pci.Registers

/-!
# The scan of all buses

Whatever hardware answers, the scan ends: it goes over at most eight buses with
32 slots of eight functions each.  A list that could not take all that was
found is dropped again.
-/

namespace EarlyBoot.Pci

open DeviceList (deviceCharge)
open MachineM (Answers)

variable {β α γ : Type} {machine : Machine β} {blocks : List BlockInfo} {ds : List Description}
  {limit : Nat} {m : Int} {bus bus' : β} {fs : List PciFunction} {accesses : List Access}

def Finding (x : PciScanM β α) (most : Nat) : Prop :=
  ∀ bus, ∃ a fs bus' accesses, Finds x bus a fs bus' accesses ∧ fs.length ≤ most

namespace Finding

variable {x y : PciScanM β α} {k : α → PciScanM β γ} {n i : Nat}

theorem mono (hx : Finding x i) (hle : i ≤ n) : Finding x n := by
  intro bus
  obtain ⟨a, fs, bus', accesses, hfinds, hlength⟩ := hx bus
  exact ⟨a, fs, bus', accesses, hfinds, hlength.trans hle⟩

theorem pure (a : α) (n : Nat) : Finding (pure a : PciScanM β α) n :=
  fun bus => ⟨a, [], bus, [], .pure a bus, Nat.zero_le n⟩

theorem bind (hx : Finding x i) (hk : ∀ a, Finding (k a) n) : Finding (x >>= k) (i + n) := by
  intro bus
  obtain ⟨a, fs, bus₁, first, hfirst, hfs⟩ := hx bus
  obtain ⟨c, gs, bus₂, second, hsecond, hgs⟩ := hk a bus₁
  refine ⟨c, fs ++ gs, bus₂, first ++ second, hfirst.bind hsecond, ?_⟩
  rw [List.length_append]
  omega

theorem reaches_bind [PortBus β] {y : MachineM β α} (hy : Reaches (fun _ => True) y)
    (hk : ∀ a, Finding (k a) n) : Finding (onMachine y >>= k) n := by
  intro bus
  obtain ⟨a, bus₁, first, hanswers, -⟩ := hy bus
  obtain ⟨c, gs, bus₂, second, hsecond, hgs⟩ := hk a bus₁
  exact ⟨c, gs, bus₂, first ++ second, .answers_bind hanswers hsecond, hgs⟩

theorem ite {c : Prop} [Decidable c] (hx : Finding x n) (hy : Finding y n) :
    Finding (if c then x else y) n := by
  split
  · exact hx
  · exact hy

theorem foldlM {δ : Type} {g : γ → δ → PciScanM β γ} (hg : ∀ c a, Finding (g c a) n)
    (xs : List δ) (c : γ) : Finding (xs.foldlM g c) (xs.length * n) := by
  induction xs generalizing c with
  | nil => exact pure c _
  | cons a rest ih =>
      rw [List.foldlM_cons, List.length_cons, Nat.succ_mul, Nat.add_comm]
      exact (hg c a).bind ih

end Finding

section Ports

variable [PortBus β]

theorem exists_readFunction (address : PciAddress) (bus : β) :
    ∃ fn bus' accesses, fn.address = address ∧
      Answers (readFunction address) bus fn bus' accesses := by
  have haddress : (address = ·) address := rfl
  obtain ⟨id, bus₁, first, hid, -⟩ := readRegister_reaches haddress idRegister bus
  obtain ⟨classInfo, bus₂, second, hclass, -⟩ := readRegister_reaches haddress classRegister bus₁
  obtain ⟨interrupt, bus₃, third, hinterrupt, -⟩ :=
    readRegister_reaches haddress interruptRegister bus₂
  obtain ⟨header, bus₄, fourth, hheader, -⟩ := headerType_reaches haddress bus₃
  obtain ⟨started, bus₅, fifth, hstarted, -⟩ := startSelfTest_reaches haddress bus₄
  let fn : PciFunction :=
    { address, vendorId := id.toUInt16, deviceId := (id >>> 16).toUInt16,
      classCode := byteOf classInfo 3, subclass := byteOf classInfo 2,
      progIf := byteOf classInfo 1, revision := byteOf classInfo 0, headerType := header,
      interruptLine := byteOf interrupt 0, selfTestStarted := started }
  refine ⟨fn, bus₅, first ++ (second ++ (third ++ (fourth ++ (fifth ++ [])))), rfl, ?_⟩
  refine .bind hid ?_
  refine .bind hclass ?_
  refine .bind hinterrupt ?_
  refine .bind hheader ?_
  exact .bind hstarted (.pure _ bus₅)

theorem recordFunction_finding (address : PciAddress) :
    Finding (recordFunction address : PciScanM β Unit) 1 := by
  intro bus
  obtain ⟨fn, bus', accesses, haddress, hread⟩ := exists_readFunction address bus
  exact ⟨(), [fn], bus', accesses, recordFunction_finds haddress hread, le_rfl⟩

theorem scanFunction_finding (bus slot : UInt8) (count function : Nat) :
    Finding (scanFunction bus slot count function : PciScanM β Nat) 1 :=
  .reaches_bind (isPresent_reaches trivial) fun _ =>
    .ite ((recordFunction_finding _).bind fun _ => .pure _ 0) (.pure _ _)

theorem scanSlot_finding (bus : UInt8) (count slot : Nat) :
    Finding (scanSlot bus count slot : PciScanM β Nat) functionsPerSlot := by
  refine .reaches_bind (isPresent_reaches trivial) fun _ => .ite ?_ (.pure _ _)
  refine .reaches_bind (hasManyFunctions_reaches trivial) fun _ => ?_
  refine (Finding.foldlM (scanFunction_finding bus _) _ _).mono ?_
  rw [List.length_range]
  split <;> decide

theorem scanBus_finding (bus : UInt8) (count : Nat) :
    Finding (scanBus bus count : PciScanM β Nat) (slotsPerBus * functionsPerSlot) := by
  refine (Finding.foldlM (scanSlot_finding bus) _ _).mono ?_
  rw [List.length_range]

theorem scanFurther_finding (count : Nat) (functions : List Nat) :
    Finding (scanFurther count functions : PciScanM β Nat)
      (functions.length * (slotsPerBus * functionsPerSlot)) := by
  induction functions generalizing count with
  | nil => exact .pure _ _
  | cons function rest ih =>
      rw [List.length_cons, Nat.succ_mul, Nat.add_comm]
      exact .reaches_bind (isPresent_reaches trivial) fun _ =>
        .ite ((scanBus_finding _ _).bind ih) (.pure _ _)

def mostFunctions : Nat := functionsPerSlot * (slotsPerBus * functionsPerSlot)

theorem enumerate_finding : Finding (enumerate : PciScanM β Nat) mostFunctions := by
  have hreport : ∀ count, Finding (onMachine (FirmwareM.info s!"PCI: {count} functions") >>=
      fun _ => pure count : PciScanM β Nat) 0 :=
    fun count => .reaches_bind (.log _ _) fun _ => .pure _ _
  refine .reaches_bind (isPresent_reaches trivial) fun _ => .ite ?_
    (.reaches_bind (.log _ _) fun _ => .pure _ _)
  refine (scanBus_finding _ _).bind (n := 7 * (slotsPerBus * functionsPerSlot)) fun count => ?_
  refine .reaches_bind (hasManyFunctions_reaches trivial) fun _ => .ite ?_ ?_
  · exact (scanFurther_finding _ _).bind hreport
  · exact ((Finding.pure count 0).bind hreport).mono (Nat.zero_le _)

def listRoom (count : Nat) : Nat := DeviceList.firstStock count + deviceCharge * count

def discovered (limit : Nat) (m : Int) (f : Firmware) (fs : List PciFunction)
    (ran : Machine β → Prop) : Except PciError DeviceList → Machine β → Deed
  | .ok list', machine' =>
      list'.stocked limit (m - deviceCharge * fs.length) (fs.map describe) +
        Deed.fact (ran machine')
  | .error (.allocate address source), _ => Deed.unfunded +
      Deed.fact (∃ ds', Refuses (Short deviceCharge limit m 0 fs.length) .empty f [] fs ds' address
        source)

section Endings

variable {list : DeviceList} {f : Firmware} {count count' : Nat} {ran : Machine β → Prop}

omit [PortBus β] in
theorem failed_delivers {address : PciAddress} {source : HeapError} :
    Delivers (discover.failed (.allocate address source) list) machine blocks
      (found limit m .empty f [] count fs ran (.error (.allocate address source)) (list, machine))
      fun reply machine' => discovered limit m f fs ran reply machine' := by
  refine .of_fact fun hrefuses => ?_
  refine (list.drop_delivers _ _ _).lift_bind_frame (.inl le_rfl) fun _ f' blocks' => ?_
  rw [zero_add]
  exact .pure ((Amounts.refl _ _ _).and_fact fun _ => ⟨_, hrefuses⟩)

omit [PortBus β] in
theorem discovered_amounts :
    Amounts machine.firmware blocks
      (found limit m .empty f [] count fs ran (.ok count') (list, machine))
      (discovered limit m f fs ran (.ok list) machine) :=
  .of_fact fun h => (Amounts.refl _ _ _).and_fact fun _ => h.2.1

end Endings

theorem discover_delivers {count : Nat}
    (hfinds : Finds enumerate machine.bus count fs bus' accesses) :
    Delivers discover machine blocks (Deed.fund (m + DeviceList.firstStock limit))
      fun reply machine' => discovered limit m machine.firmware fs
        (fun machine' => machine'.bus = bus' ∧ machine'.trace = machine.trace.recordAll accesses)
        reply machine' := by
  refine .amounts ?_ (DeviceList.empty_stocked_amounts limit m _ _)
  intro hs
  obtain ⟨reply, ⟨list, machine'⟩, blocks', hrun, h⟩ :=
    hfinds DeviceList.empty machine [] limit m blocks rfl hs
  rcases reply with ⟨address, source⟩ | count'
  · obtain ⟨reply, machine'', blocks'', hfailed, h'⟩ := failed_delivers (h.holds hs)
    refine ⟨reply, machine'', blocks'', ?_, h.trans h'⟩
    unfold discover
    rw [hrun]
    exact hfailed
  · refine ⟨.ok list, machine', blocks', ?_, ?_⟩
    · unfold discover
      rw [hrun]
    · exact h.trans (discovered_amounts.exchanges (h.holds hs))

end Ports

end EarlyBoot.Pci
