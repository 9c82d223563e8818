import EarlyBoot.Proofs.Pci.Scan
import EarlyBoot.Proofs.Pci.Survey

/-!
# What enumeration finds

Which functions are found is told by four conditions on the bus, none of which
mentions the scan: the bus is scanned, the slot is in use, the function responds,
and it is the first of its slot or the slot has several.  The scan finds exactly
these functions, each once, in the order of their addresses.
-/

namespace EarlyBoot

namespace PciAddress

/-- The order of buses, then of slots, then of functions. -/
def Before (a b : PciAddress) : Prop :=
  a.bus < b.bus ∨ a.bus = b.bus ∧
    (a.device < b.device ∨ a.device = b.device ∧ a.function < b.function)

end PciAddress

namespace ScriptedBus

open Pci (functionsPerSlot slotsPerBus)
open PciAddress (Before)

variable {bus : ScriptedBus} {a : PciAddress} {b slot : UInt8}

/-- Bus 0, and every bus up to which all functions of the host bridge respond. -/
def Scanned (bus : ScriptedBus) (b : UInt8) : Prop :=
  b = 0 ∨ bus.isMultiFunction .host = true ∧ b < 8 ∧
    ∀ f, 0 < f → f ≤ b → bus.responds ⟨0, 0, f⟩ = true

structure Listed (bus : ScriptedBus) (a : PciAddress) : Prop where
  host : bus.responds .host = true
  addressable : a.Addressable
  scanned : bus.Scanned a.bus
  slot : bus.responds ⟨a.bus, a.device, 0⟩ = true
  function : a.function = 0 ∨ bus.isMultiFunction ⟨a.bus, a.device, 0⟩ = true
  responds : bus.responds a = true

theorem mem_found {a' : PciAddress} : a ∈ bus.found a' ↔ a = a' ∧ bus.responds a = true := by
  unfold found
  split
  next hresponds =>
    rw [List.mem_singleton]
    exact ⟨fun h => ⟨h, h ▸ hresponds⟩, And.left⟩
  next hsilent =>
    refine iff_of_false List.not_mem_nil fun h => hsilent ?_
    rw [← h.1]
    exact h.2

theorem mem_functionsOfSlot : a ∈ bus.functionsOfSlot b slot ↔
    a.bus = b ∧ a.device = slot ∧ a.function < 8 ∧ bus.responds ⟨b, slot, 0⟩ = true ∧
      (a.function = 0 ∨ bus.isMultiFunction ⟨b, slot, 0⟩ = true) ∧ bus.responds a = true := by
  unfold functionsOfSlot
  split
  next hslot =>
    rw [List.mem_flatMap]
    constructor
    · rintro ⟨i, hi, ha⟩
      obtain ⟨rfl, hresponds⟩ := mem_found.1 ha
      rw [List.mem_range] at hi
      split at hi
      next hmulti => exact ⟨rfl, rfl, Pci.ofNat_lt hi, hslot, .inr hmulti, hresponds⟩
      next =>
        obtain rfl : i = 0 := by omega
        exact ⟨rfl, rfl, (by decide : (0 : UInt8) < 8), hslot, .inl rfl, hresponds⟩
    · rintro ⟨rfl, rfl, hlt, -, hfirst, hresponds⟩
      refine ⟨a.function.toNat, List.mem_range.2 ?_, mem_found.2 ⟨?_, hresponds⟩⟩
      · split
        next => exact UInt8.lt_iff_toNat_lt.1 hlt
        next hsingle =>
          rw [hfirst.resolve_right hsingle]
          decide
      · rw [UInt8.ofNat_toNat]
  next hempty => exact iff_of_false List.not_mem_nil fun h => hempty h.2.2.2.1

theorem mem_functionsOfBus : a ∈ bus.functionsOfBus b ↔
    a.bus = b ∧ a.Addressable ∧ bus.responds ⟨b, a.device, 0⟩ = true ∧
      (a.function = 0 ∨ bus.isMultiFunction ⟨b, a.device, 0⟩ = true) ∧ bus.responds a = true := by
  unfold functionsOfBus
  rw [List.mem_flatMap]
  constructor
  · rintro ⟨i, hi, ha⟩
    obtain ⟨hbus, hdevice, hfunction, hslot, hfirst, hresponds⟩ := mem_functionsOfSlot.1 ha
    rw [← hdevice] at hslot hfirst
    refine ⟨hbus, ⟨?_, hfunction⟩, hslot, hfirst, hresponds⟩
    rw [hdevice]
    exact Pci.ofNat_lt (List.mem_range.1 hi)
  · rintro ⟨hbus, haddressable, hslot, hfirst, hresponds⟩
    refine ⟨a.device.toNat, List.mem_range.2 (UInt8.lt_iff_toNat_lt.1 haddressable.device_lt), ?_⟩
    rw [UInt8.ofNat_toNat]
    exact mem_functionsOfSlot.2 ⟨hbus, rfl, haddressable.function_lt, hslot, hfirst, hresponds⟩

theorem mem_takeWhile_range' {p : Nat → Bool} {i : Nat} (start count : Nat) :
    i ∈ (List.range' start count).takeWhile p ↔
      start ≤ i ∧ i < start + count ∧ ∀ j, start ≤ j → j ≤ i → p j = true := by
  induction count generalizing start with
  | zero => exact iff_of_false List.not_mem_nil fun h => by omega
  | succ count ih =>
      rw [List.range'_succ]
      -- the first miss ends the prefix
      cases hstart : p start with
      | false =>
          rw [List.takeWhile_cons_of_neg (by simp [hstart])]
          refine iff_of_false List.not_mem_nil fun h => ?_
          have htrue := h.2.2 start le_rfl h.1
          rw [hstart] at htrue
          cases htrue
      | true =>
          rw [List.takeWhile_cons_of_pos hstart, List.mem_cons, ih]
          constructor
          · rintro (rfl | ⟨hle, hlt, hall⟩)
            · exact ⟨le_rfl, by omega, fun j hj hle => le_antisymm hle hj ▸ hstart⟩
            · refine ⟨by omega, by omega, fun j hj hji => ?_⟩
              rcases Nat.eq_or_lt_of_le hj with rfl | hj
              · exact hstart
              · exact hall j hj hji
          · rintro ⟨hle, hlt, hall⟩
            rcases Nat.eq_or_lt_of_le hle with rfl | hle
            · exact .inl rfl
            · exact .inr ⟨hle, by omega, fun j hj => hall j (by omega)⟩

theorem mem_scannedBuses {i : Nat} :
    i ∈ bus.scannedBuses ↔ i < 8 ∧ bus.Scanned (UInt8.ofNat i) := by
  have hfurther : i ∈ bus.furtherBuses ((List.range functionsPerSlot).drop 1) ↔ 1 ≤ i ∧ i < 8 ∧
      ∀ j, 1 ≤ j → j ≤ i → bus.responds ⟨0, 0, UInt8.ofNat j⟩ = true :=
    mem_takeWhile_range' 1 7
  unfold scannedBuses
  rw [List.mem_cons]
  constructor
  · rintro (rfl | hi)
    · exact ⟨by decide, .inl rfl⟩
    split at hi
    next hmulti =>
      obtain ⟨-, hlt, hall⟩ := hfurther.1 hi
      refine ⟨hlt, .inr ⟨hmulti, Pci.ofNat_lt hlt, fun f hpos hle => ?_⟩⟩
      rw [UInt8.le_iff_toNat_le, UInt8.toNat_ofNat_of_lt' (hlt.trans (by decide))] at hle
      have hresponds := hall f.toNat (UInt8.lt_iff_toNat_lt.1 hpos) hle
      rwa [UInt8.ofNat_toNat] at hresponds
    next => cases hi
  · rintro ⟨hlt, hscanned⟩
    have hnat : (UInt8.ofNat i).toNat = i := UInt8.toNat_ofNat_of_lt' (hlt.trans (by decide))
    rcases Nat.eq_zero_or_pos i with rfl | hpos
    · exact .inl rfl
    rcases hscanned with hzero | ⟨hmulti, -, hall⟩
    · rw [hzero] at hnat
      exact .inl hnat.symm
    refine .inr ?_
    rw [if_pos hmulti]
    refine hfurther.2 ⟨hpos, hlt, fun j hj hji => hall _ ?_ ?_⟩
    · rw [UInt8.lt_iff_toNat_lt, UInt8.toNat_ofNat_of_lt' (by unfold UInt8.size; omega)]
      exact hj
    · rw [UInt8.le_iff_toNat_le, hnat, UInt8.toNat_ofNat_of_lt' (by unfold UInt8.size; omega)]
      exact hji

theorem mem_foundFunctions : a ∈ bus.foundFunctions ↔ bus.Listed a := by
  unfold foundFunctions
  split
  next hhost =>
    rw [List.mem_flatMap]
    constructor
    · rintro ⟨i, hi, ha⟩
      obtain ⟨hbus, haddressable, hslot, hfirst, hresponds⟩ := mem_functionsOfBus.1 ha
      rw [← hbus] at hslot hfirst
      have hscanned := (mem_scannedBuses.1 hi).2
      rw [← hbus] at hscanned
      exact ⟨hhost, haddressable, hscanned, hslot, hfirst, hresponds⟩
    · intro h
      have hlt : a.bus < 8 := by
        rcases h.scanned with hzero | ⟨-, hlt, -⟩
        · rw [hzero]
          decide
        · exact hlt
      refine ⟨a.bus.toNat, mem_scannedBuses.2 ⟨UInt8.lt_iff_toNat_lt.1 hlt, ?_⟩, ?_⟩
      · rw [UInt8.ofNat_toNat]
        exact h.scanned
      · rw [UInt8.ofNat_toNat]
        exact mem_functionsOfBus.2 ⟨rfl, h.addressable, h.slot, h.function, h.responds⟩
  next hmissing => exact iff_of_false List.not_mem_nil fun h => hmissing h.host

/-! ## Their order -/

theorem pairwise_flatMap {xs : List Nat} {part : Nat → List PciAddress}
    (hxs : xs.Pairwise (· < ·)) (hpart : ∀ i ∈ xs, (part i).Pairwise Before)
    (hnext : ∀ i ∈ xs, ∀ j ∈ xs, i < j → ∀ a ∈ part i, ∀ a' ∈ part j, Before a a') :
    (xs.flatMap part).Pairwise Before :=
  List.pairwise_flatMap.2
    ⟨hpart, hxs.imp_of_mem fun hi hj hlt a ha a' ha' => hnext _ hi _ hj hlt a ha a' ha'⟩

theorem ofNat_lt_ofNat {i j : Nat} (hlt : i < j) (hj : j < 256) : UInt8.ofNat i < UInt8.ofNat j :=
  Pci.ofNat_lt (by rwa [UInt8.toNat_ofNat_of_lt' hj])

theorem pairwise_functionsOfSlot (bus : ScriptedBus) (b slot : UInt8) :
    (bus.functionsOfSlot b slot).Pairwise Before := by
  unfold functionsOfSlot
  split
  next =>
    refine pairwise_flatMap List.pairwise_lt_range (fun i _ => ?_) ?_
    · unfold found
      split
      · exact List.pairwise_singleton _ _
      · exact .nil
    · intro i _ j hj hlt a ha a' ha'
      obtain ⟨rfl, -⟩ := mem_found.1 ha
      obtain ⟨rfl, -⟩ := mem_found.1 ha'
      refine .inr ⟨rfl, .inr ⟨rfl, ofNat_lt_ofNat hlt ?_⟩⟩
      rw [List.mem_range] at hj
      split at hj
      · exact hj.trans (by decide)
      · exact hj.trans (by decide)
  next => exact .nil

theorem pairwise_functionsOfBus (bus : ScriptedBus) (b : UInt8) :
    (bus.functionsOfBus b).Pairwise Before := by
  refine pairwise_flatMap List.pairwise_lt_range (fun _ _ => pairwise_functionsOfSlot bus b _) ?_
  intro i _ j hj hlt a ha a' ha'
  obtain ⟨hbus, hdevice, -⟩ := mem_functionsOfSlot.1 ha
  obtain ⟨hbus', hdevice', -⟩ := mem_functionsOfSlot.1 ha'
  refine .inr ⟨hbus.trans hbus'.symm, .inl ?_⟩
  rw [hdevice, hdevice']
  exact ofNat_lt_ofNat hlt ((List.mem_range.1 hj).trans (by decide))

theorem pairwise_scannedBuses (bus : ScriptedBus) : bus.scannedBuses.Pairwise (· < ·) := by
  have hsublist : bus.scannedBuses.Sublist (List.range functionsPerSlot) := by
    unfold scannedBuses
    refine List.Sublist.cons_cons 0 ?_
    split
    · exact List.takeWhile_sublist _
    · exact List.nil_sublist _
  exact List.pairwise_lt_range.sublist hsublist

theorem pairwise_foundFunctions (bus : ScriptedBus) : bus.foundFunctions.Pairwise Before := by
  unfold foundFunctions
  split
  next =>
    refine pairwise_flatMap (pairwise_scannedBuses bus)
      (fun _ _ => pairwise_functionsOfBus bus _) ?_
    intro i _ j hj hlt a ha a' ha'
    left
    rw [(mem_functionsOfBus.1 ha).1, (mem_functionsOfBus.1 ha').1]
    exact ofNat_lt_ofNat hlt ((mem_scannedBuses.1 hj).1.trans (by decide))
  next => exact .nil

end ScriptedBus

namespace Pci

open DeviceList (deviceCharge)

variable {f : Firmware} {blocks : List BlockInfo} {list : DeviceList} {ds : List Description}

theorem holds_stocked {limit n : Nat} (hs : Holds f blocks (list.listing ds))
    (hwithin : list.boxes.Within limit) (hfunded : Funded f blocks (n : Int)) :
    Holds f blocks (list.stocked limit (n - list.boxes.reserveFor limit) ds) := by
  refine ⟨hs.placed, hs.wellFormed, ⟨⟨hs.valid, trivial⟩, hwithin⟩, ?_, ?_⟩
  · simpa [DeviceList.stocked] using hs.nodup
  · simpa [DeviceList.stocked] using hfunded

theorem lt_listRoom {limit count n : Nat} (hlength : ds.length + count ≤ limit)
    (hshort : Short deviceCharge limit (n - list.boxes.reserveFor limit) ds.length count) :
    n < listRoom limit := by
  have hless := hshort.lt_room hlength (HeapVec.reserveFor_le_firstStock _ _)
  have hcharge : deviceCharge * count ≤ deviceCharge * limit := Nat.mul_le_mul_left _ (by omega)
  exact Nat.lt_of_lt_of_le (Int.ofNat_lt.1 hless) (Nat.add_le_add_left hcharge _)

/--
For every set of functions on the bus, enumeration adds to a list the functions
that are listed, each once and in the order of their addresses, with the fields
that they had before; it answers their number.  Afterwards each register is as
it was, except that a function that was found and has a self test has started it.
Only for want of room can the list be left incomplete.
-/
theorem enumerate_exact (bus : ScriptedBus) (trace : Trace)
    (hs : Holds f blocks (list.listing ds)) :
    bus.foundFunctions.Pairwise PciAddress.Before ∧ (∀ a, a ∈ bus.foundFunctions ↔ bus.Listed a) ∧
      ∃ reply list' machine',
        enumerate.run (list, ⟨f, bus, trace⟩) = .ok reply (list', machine') ∧
        match reply with
        | .ok count => count = bus.foundFunctions.length ∧
            list'.descriptions machine'.firmware =
              ds ++ bus.foundFunctions.map (fun a => describe (bus.functionAt a)) ∧
            ∀ key, machine'.bus.pciFunctions.get? key =
              (bus.pciFunctions.get? key).map fun registers =>
                if key ∈ bus.foundFunctions.map PciAddress.key then started registers
                else registers
        | .error (.allocate _ source) => source.IsExhaustion ∧
            ¬ f.heap.Room blocks (listRoom (list.boxes.capacity + bus.foundFunctions.length)) := by
  refine ⟨bus.pairwise_foundFunctions, fun _ => ScriptedBus.mem_foundFunctions, ?_⟩
  obtain ⟨bus', accesses, hfinds, hprobed⟩ := enumerate_surveys bus [] bus (.refl bus)
  let limit := list.boxes.capacity + bus.foundFunctions.length
  have hlength : ds.length ≤ list.boxes.capacity := DeviceList.length_le_capacity hs.valid
  have hwithin : list.boxes.Within limit := fun _ => by omega
  obtain ⟨n, hfunded, hless⟩ := exists_funded f blocks (listRoom limit)
  obtain ⟨reply, ⟨list', machine'⟩, blocks', hrun, h⟩ :=
    hfinds list ⟨f, bus, trace⟩ ds limit _ blocks rfl (holds_stocked hs hwithin hfunded)
  refine ⟨reply, list', machine', hrun, ?_⟩
  rcases reply with ⟨address, source⟩ | count
  · have hrefuses := h.valid.2
    have hshort := hrefuses.short
    rw [List.length_map] at hshort
    exact ⟨hrefuses.exhausted, hless _ le_rfl (lt_listRoom (by omega) hshort)⟩
  · obtain ⟨⟨⟨⟨-, hdescriptions⟩, -⟩, -⟩, rfl, ⟨hbus, -⟩, -⟩ := h.valid
    rw [List.map_map] at hdescriptions
    refine ⟨rfl, hdescriptions, ?_⟩
    rw [hbus]
    exact hprobed

def newFirmware : Firmware :=
  ⟨Header.write (Memory.ofBytes 0 ByteArray.empty) 64 ⟨true, 4064, none, none⟩, ⟨64, 4096, 2⟩,
    .silent .error, .empty⟩

theorem holds_newFirmware : Holds newFirmware [⟨0, 4064, true⟩] (DeviceList.empty.listing []) := by
  have hinit : Heap.init 64 4096 ⟨Memory.ofBytes 0 ByteArray.empty, .uninitialized 2,
      .silent .error, .empty⟩ = .ok (.ok ()) newFirmware := rfl
  obtain ⟨hp, hw, -⟩ := BlockHeap.init_spec (by decide) (Heap.init_eq_ok hinit)
  exact DeviceList.holds_empty hp hw

/--
The host bridge has two functions, so bus 1 is scanned, where there is a bridge;
bus 2 is not.  In slot 3 of bus 0 is a function with a self test, and one that
does not count, as the first function of the slot is the only one.
-/
def twoBuses : ScriptedBus :=
  let host := ScriptedBus.pciHeader 0x8086 0x1237 0x06 0x00 0x00 0x80
  let ide := ScriptedBus.pciHeader 0x8086 0x7010 0x01 0x01 0x80 0x80
  let network :=
    (ScriptedBus.pciHeader 0x10ec 0x8139 0x02 0x00 0x00 0x00).setIfInBounds 3 0x80000000
  let bridge := ScriptedBus.pciHeader 0x8086 0x244e 0x06 0x04 0x00 0x01
  ((((((ScriptedBus.idle.addPciFunction (PciAddress.key ⟨0, 0, 0⟩) host).addPciFunction
    (PciAddress.key ⟨0, 0, 1⟩) ide).addPciFunction
    (PciAddress.key ⟨0, 3, 0⟩) network).addPciFunction
    (PciAddress.key ⟨0, 3, 2⟩) network).addPciFunction
    (PciAddress.key ⟨1, 4, 0⟩) bridge).addPciFunction
    (PciAddress.key ⟨2, 0, 0⟩) bridge)

theorem exact_on_two_buses :
    Holds newFirmware [⟨0, 4064, true⟩] (DeviceList.empty.listing []) ∧
    ∃ list' machine',
      enumerate.run (DeviceList.empty, ⟨newFirmware, twoBuses, .empty⟩) =
        .ok (.ok 4) (list', machine') ∧
      list'.descriptions machine'.firmware =
        [⟨0, 0, 0⟩, ⟨0, 0, 1⟩, ⟨0, 3, 0⟩, ⟨1, 4, 0⟩].map
          (fun a => describe (twoBuses.functionAt a)) ∧
      machine'.bus.register ⟨0, 3, 0⟩ headerRegister = 0xc0000000 ∧
      machine'.bus.register ⟨0, 3, 2⟩ headerRegister = 0x80000000 := by
  have hfound : twoBuses.foundFunctions = [⟨0, 0, 0⟩, ⟨0, 0, 1⟩, ⟨0, 3, 0⟩, ⟨1, 4, 0⟩] := by
    decide +kernel
  have hroom : newFirmware.heap.Room [⟨0, 4064, true⟩]
      (listRoom (DeviceList.empty.boxes.capacity + 4)) :=
    ⟨⟨0, 4064, true⟩, .head [], rfl, by decide⟩
  obtain ⟨-, -, reply, list', machine', hrun, hreply⟩ :=
    enumerate_exact twoBuses .empty holds_newFirmware
  rw [hfound] at hreply
  cases reply with
  | error error => exact absurd hroom hreply.2
  | ok count =>
      obtain ⟨rfl, hdescriptions, hregisters⟩ := hreply
      refine ⟨holds_newFirmware, list', machine', hrun, hdescriptions, ?_, ?_⟩
      · unfold ScriptedBus.register ScriptedBus.registers?
        rw [hregisters]
        decide +kernel
      · unfold ScriptedBus.register ScriptedBus.registers?
        rw [hregisters]
        decide +kernel

end Pci

end EarlyBoot
