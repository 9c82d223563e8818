import EarlyBoot.Proofs.Pci.Traversal

/-!
# Buses behind the host bridge

A host bridge with several functions stands for as many buses.  The scan takes
its functions in order and ends at the first one that does not respond, so a bus
is scanned only if no function of the host bridge is missing in front of its
own; a scan of a bus, on the other hand, passes over the functions and slots
that are missing.
-/

namespace EarlyBoot

namespace Pci

open PciAddress (Before)

variable {f : Firmware} {blocks : List BlockInfo} {list : DeviceList} {ds : List Description}
  {bus : ScriptedBus}

theorem enumerate_records (trace : Trace) (hs : Holds f blocks (list.listing ds))
    (hroom : f.heap.Room blocks
      (listRoom (list.boxes.capacity + bus.foundFunctions.length))) :
    ∃ list' machine',
      enumerate.run (list, ⟨f, bus, trace⟩) =
        .ok (.ok bus.foundFunctions.length) (list', machine') ∧
      list'.descriptions machine'.firmware =
        ds ++ bus.foundFunctions.map fun a => describe (bus.functionAt a) := by
  obtain ⟨bus', accesses, hfinds, -⟩ := enumerate_surveys bus [] bus (.refl bus)
  let limit := list.boxes.capacity + bus.foundFunctions.length
  have hlength : ds.length ≤ list.boxes.capacity := DeviceList.length_le_capacity hs.valid
  have hwithin : list.boxes.Within limit := fun _ => by omega
  obtain ⟨reply, ⟨list', machine'⟩, blocks', hrun, h⟩ := hfinds list ⟨f, bus, trace⟩ ds limit _
    blocks rfl (holds_stocked hs hwithin (.of_room hroom))
  rcases reply with ⟨address, source⟩ | count
  · have hshort := h.valid.2.short
    rw [List.length_map] at hshort
    exact absurd (lt_listRoom (by omega) hshort) (Nat.lt_irrefl _)
  · obtain ⟨⟨⟨⟨-, hdescriptions⟩, -⟩, -⟩, rfl, -⟩ := h.valid
    rw [List.map_map] at hdescriptions
    exact ⟨list', machine', hrun, hdescriptions⟩

theorem scanned_iff {b : UInt8} (hmulti : bus.isMultiFunction .host = true) (hpos : 0 < b)
    (hlt : b < 8) :
    bus.Scanned b ↔ ∀ c, 0 < c → c ≤ b → bus.responds ⟨0, 0, c⟩ = true := by
  constructor
  · rintro (rfl | ⟨-, -, hall⟩)
    · exact absurd hpos (by decide)
    · exact hall
  · exact fun hall => .inr ⟨hmulti, hlt, hall⟩

/--
With enough room, what the scan adds depends on the gaps among the functions of
the host bridge.  If all of them up to number `b` respond, every function that
responds as the first of a slot of bus `b` is added.  If one of them is missing,
no function of bus `b` is added, and none is even looked for.
-/
theorem enumerate_scans_up_to_gap (trace : Trace) (hs : Holds f blocks (list.listing ds))
    (hhost : bus.responds .host = true) (hmulti : bus.isMultiFunction .host = true)
    (hroom : f.heap.Room blocks
      (listRoom (list.boxes.capacity + bus.foundFunctions.length))) :
    ∃ (list' : DeviceList) (machine' : Machine ScriptedBus) (added : List PciAddress)
        (accesses : List Access),
      enumerate.run (list, ⟨f, bus, trace⟩) = .ok (.ok added.length) (list', machine') ∧
      list'.descriptions machine'.firmware =
        ds ++ added.map (fun a => describe (bus.functionAt a)) ∧
      machine'.trace.accesses = trace.accesses ++ accesses ∧
      ∀ b, 0 < b → b < 8 →
        ((∀ c, 0 < c → c ≤ b → bus.responds ⟨0, 0, c⟩ = true) →
          ∀ slot < 32, bus.responds ⟨b, slot, 0⟩ = true → ⟨b, slot, 0⟩ ∈ added) ∧
        ((∃ c, 0 < c ∧ c ≤ b ∧ bus.responds ⟨0, 0, c⟩ = false) →
          (∀ a ∈ added, a.bus ≠ b) ∧ Touches (·.bus ≠ b) accesses) := by
  obtain ⟨list', machine', hrun, hdescriptions⟩ := enumerate_records trace hs hroom
  obtain ⟨-, accesses, htrace, -, -, htouches⟩ :=
    enumerate_traverses bus [] _ _ _ _ _ (.refl bus) hrun
  refine ⟨list', machine', bus.foundFunctions, accesses, hrun, hdescriptions, ?_, ?_⟩
  · rw [htrace, Trace.accesses_recordAll]
  intro b hpos hlt
  constructor
  · intro hall slot hslot hresponds
    refine ScriptedBus.mem_foundFunctions.2 ⟨hhost, ⟨hslot, (by decide : (0 : UInt8) < 8)⟩,
      (scanned_iff hmulti hpos hlt).2 hall, hresponds, .inl rfl, hresponds⟩
  · rintro ⟨c, hc, hle, hmissing⟩
    -- a bus is scanned only if the host function of its number has been reached
    have hskipped : ¬ bus.Scanned b := by
      intro hscanned
      rw [(scanned_iff hmulti hpos hlt).1 hscanned c hc hle] at hmissing
      cases hmissing
    refine ⟨fun a ha hsame => hskipped ?_, htouches.mono fun a ha hsame => hskipped ?_⟩
    · rw [← hsame]
      exact (ScriptedBus.mem_foundFunctions.1 ha).scanned
    · rw [← hsame]
      exact ha.2

/--
Of the host bridge, functions 0, 1 and 3 respond.  On bus 1 is a network
controller, and on bus 3 another one.
-/
def gapBus : ScriptedBus :=
  let host := ScriptedBus.pciHeader 0x8086 0x1237 0x06 0x00 0x00 0x80
  let network := ScriptedBus.pciHeader 0x10ec 0x8139 0x02 0x00 0x00 0x00
  ((((ScriptedBus.idle.addPciFunction (PciAddress.key ⟨0, 0, 0⟩) host).addPciFunction
    (PciAddress.key ⟨0, 0, 1⟩) host).addPciFunction
    (PciAddress.key ⟨0, 0, 3⟩) host).addPciFunction
    (PciAddress.key ⟨1, 4, 0⟩) network).addPciFunction
    (PciAddress.key ⟨3, 5, 0⟩) network

theorem foundFunctions_gapBus :
    gapBus.foundFunctions = [⟨0, 0, 0⟩, ⟨0, 0, 1⟩, ⟨0, 0, 3⟩, ⟨1, 4, 0⟩] := by
  decide +kernel

theorem room_for_gapBus : newFirmware.heap.Room [⟨0, 4064, true⟩]
    (listRoom (DeviceList.empty.boxes.capacity + gapBus.foundFunctions.length)) := by
  rw [foundFunctions_gapBus]
  exact ⟨⟨0, 4064, true⟩, .head [], rfl, by decide⟩

theorem gap_ends_scan_of_hosts :
    ∃ (list' : DeviceList) (machine' : Machine ScriptedBus) (added : List PciAddress),
      enumerate.run (DeviceList.empty, ⟨newFirmware, gapBus, .empty⟩) =
        .ok (.ok added.length) (list', machine') ∧
      list'.descriptions machine'.firmware =
        added.map (fun a => describe (gapBus.functionAt a)) ∧
      ⟨1, 4, 0⟩ ∈ added ∧ ⟨3, 5, 0⟩ ∉ added ∧ Touches (·.bus ≠ 3) machine'.trace.accesses := by
  have hhost : gapBus.responds .host = true := by decide +kernel
  have hmulti : gapBus.isMultiFunction .host = true := by decide +kernel
  obtain ⟨list', machine', added, accesses, hrun, hdescriptions, htrace, hbuses⟩ :=
    enumerate_scans_up_to_gap .empty holds_newFirmware hhost hmulti room_for_gapBus
  have hfirst : ∀ c : UInt8, 0 < c → c ≤ 1 → gapBus.responds ⟨0, 0, c⟩ = true :=
    forall_byte (by decide +kernel)
  have hgap : ∃ c : UInt8, 0 < c ∧ c ≤ 3 ∧ gapBus.responds ⟨0, 0, c⟩ = false :=
    ⟨2, by decide, by decide, by decide +kernel⟩
  have hcontroller : gapBus.responds ⟨1, 4, 0⟩ = true := by decide +kernel
  obtain ⟨hnone, htouches⟩ := (hbuses 3 (by decide) (by decide)).2 hgap
  refine ⟨list', machine', added, hrun, hdescriptions, ?_, ?_, ?_⟩
  · exact (hbuses 1 (by decide) (by decide)).1 hfirst 4 (by decide) hcontroller
  · exact fun hmem => hnone _ hmem rfl
  · rw [htrace]
    exact htouches

/--
Function 3 of the host bridge responds, and so does a function on bus 3, and
there is room for all five of them; but the one on bus 3 is lost.
-/
theorem bus_behind_gap_is_lost :
    (Holds newFirmware [⟨0, 4064, true⟩] (DeviceList.empty.listing []) ∧
      newFirmware.heap.Room [⟨0, 4064, true⟩]
        (listRoom (DeviceList.empty.boxes.capacity + 5)) ∧
      gapBus.responds .host = true ∧ gapBus.isMultiFunction .host = true ∧
      gapBus.responds ⟨0, 0, 3⟩ = true ∧ gapBus.responds ⟨3, 5, 0⟩ = true) ∧
    ∃ list' machine',
      enumerate.run (DeviceList.empty, ⟨newFirmware, gapBus, .empty⟩) =
        .ok (.ok 4) (list', machine') ∧
      describe (gapBus.functionAt ⟨3, 5, 0⟩) ∉ list'.descriptions machine'.firmware := by
  have hroom : newFirmware.heap.Room [⟨0, 4064, true⟩]
      (listRoom (DeviceList.empty.boxes.capacity + 5)) :=
    ⟨⟨0, 4064, true⟩, .head [], rfl, by decide⟩
  refine ⟨⟨holds_newFirmware, hroom, by decide +kernel, by decide +kernel, by decide +kernel,
    by decide +kernel⟩, ?_⟩
  obtain ⟨list', machine', hrun, hdescriptions⟩ :=
    enumerate_records .empty holds_newFirmware room_for_gapBus
  rw [foundFunctions_gapBus] at hrun hdescriptions
  refine ⟨list', machine', hrun, ?_⟩
  rw [hdescriptions]
  decide +kernel

end Pci

end EarlyBoot
