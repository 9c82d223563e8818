import EarlyBoot.Proofs.Pci.ConfigSpace
import EarlyBoot.Proofs.Pci.Traversal

/-!
# Running out of heap

A function takes up to three blocks, for its payload, its record and its place
in the list, and any of them may be refused.  Whichever it is, nothing of the
function is left, those before it are in the list as if the scan had been meant
to end there, and those behind it have not been looked at.
-/

namespace EarlyBoot

theorem DeviceList.trades_of_exchanges {f f' : Firmware} {blocks blocks' : List BlockInfo}
    {list list' : DeviceList} {ds ds' : List Description} {d d' : Deed}
    (h : Exchanges f blocks d f' blocks' d') (hd : d.holdings f = (list.listing ds).holdings f)
    (hd' : d'.holdings f' = (list'.listing ds').holdings f') :
    (list'.allocations f').Nodup ∧
      Trades f blocks (list.allocations f) f' blocks' (list'.allocations f') := by
  rw [holdings_listing] at hd hd'
  have hnodup := h.nodup
  have htrades := h.trades
  rw [hd'] at hnodup
  rw [hd, hd'] at htrades
  exact ⟨Multiset.coe_nodup.1 hnodup, htrades⟩

namespace Pci

variable {f : Firmware} {blocks : List BlockInfo} {list list' : DeviceList}
  {ds : List Description} {bus : ScriptedBus} {trace : Trace} {machine' : Machine ScriptedBus}
  {address : PciAddress} {source : HeapError} {found before before' after after' : List PciAddress}

theorem mem_before_iff (hsorted : (before ++ address :: after).Pairwise PciAddress.Before)
    (a : PciAddress) :
    a ∈ before ↔ a ∈ before ++ address :: after ∧ a.Before address := by
  obtain ⟨-, hrest, hfirst⟩ := List.pairwise_append.1 hsorted
  constructor
  · intro ha
    exact ⟨List.mem_append_left _ ha, hfirst a ha address (.head after)⟩
  · rintro ⟨ha, hbefore⟩
    rcases List.mem_append.1 ha with hmem | hmem
    · exact hmem
    cases hmem with
    | head => exact absurd hbefore address.not_before_self
    | tail _ hafter => exact absurd hbefore ((List.pairwise_cons.1 hrest).1 a hafter).asymm

theorem before_unique (hsorted : (before ++ address :: after).Pairwise PciAddress.Before)
    (hsame : before ++ address :: after = before' ++ address :: after') : before = before' := by
  obtain ⟨-, hrest, hfirst⟩ := List.pairwise_append.1 hsorted
  have hbefore : address ∉ before := fun h =>
    address.not_before_self (hfirst address h address (.head after))
  have hafter : address ∉ after := fun h =>
    address.not_before_self ((List.pairwise_cons.1 hrest).1 address h)
  exact ((List.append_cons_inj_of_notMem hbefore hafter).1 hsame).1

theorem enumerate_refuses (hs : Holds f blocks (list.listing ds))
    (hrun : enumerate.run (list, ⟨f, bus, trace⟩) =
      .ok (.error (.allocate address source)) (list', machine')) :
    ∃ before after blocks', bus.foundFunctions = before ++ address :: after ∧
      source.IsExhaustion ∧
      list'.descriptions machine'.firmware =
        ds ++ before.map (fun a => describe (bus.functionAt a)) ∧
      (list'.allocations machine'.firmware).Nodup ∧
      Trades f blocks (list.allocations f) machine'.firmware blocks'
        (list'.allocations machine'.firmware) := by
  obtain ⟨bus', accesses, hfinds, -⟩ := enumerate_surveys bus [] bus (.refl bus)
  let limit := list.boxes.capacity
  have hwithin : list.boxes.Within limit := fun _ => by omega
  have hfunded : Funded f blocks ((0 : Nat) : Int) := funded_of_nonpos le_rfl
  have hstocked := holds_stocked hs hwithin hfunded
  obtain ⟨reply, s', blocks', hrun', h⟩ :=
    hfinds list ⟨f, bus, trace⟩ ds limit _ blocks rfl hstocked
  rw [hrun] at hrun'
  cases hrun'
  change Exchanges f blocks (list.stocked limit _ ds) machine'.firmware blocks'
    (list'.listing (list'.descriptions machine'.firmware) + Deed.unfunded +
      Deed.fact (Refuses _ _ _ _ _ _ _ _)) at h
  have hbefore : (list.stocked limit ((0 : Nat) - list.boxes.reserveFor limit) ds).holdings f =
      (list.listing ds).holdings f := by
    simp [DeviceList.stocked]
  have hafter (P : Prop) : (list'.listing (list'.descriptions machine'.firmware) + Deed.unfunded +
      Deed.fact P).holdings machine'.firmware =
        (list'.listing (list'.descriptions machine'.firmware)).holdings machine'.firmware := by
    simp
  obtain ⟨hnodup, htrades⟩ := DeviceList.trades_of_exchanges h hbefore (hafter _)
  obtain ⟨-, hrefuses⟩ := h.valid
  obtain ⟨before', @⟨after', fn, _, _, hsplit, haddress, -, -⟩, hds⟩ := hrefuses.before
  obtain ⟨before, rest, hfound, rfl, hrest⟩ := List.map_eq_append_iff.1 hsplit
  obtain ⟨a, after, rfl, rfl, -⟩ := List.map_eq_cons_iff.1 hrest
  obtain rfl : a = address := haddress
  rw [List.map_map] at hds
  exact ⟨before, after, blocks', hfound, hrefuses.exhausted, hds, hnodup, htrades⟩

/--
If the heap runs out of room at a function, the list has behind its devices from
before exactly the functions that come before that one, in their order and each
with its payload.  The heap is well-formed, and the blocks in use are those from
before with the blocks of the list in place of those that the list had.  No
function behind the one at which the scan ended has been read or written, and no
self tests have been started but those of the functions recorded and of the one
for which there was no room.
-/
theorem enumerate_exhausted (hs : Holds f blocks (list.listing ds))
    (hrun : enumerate.run (list, ⟨f, bus, trace⟩) =
      .ok (.error (.allocate address source)) (list', machine')) :
    ∃ before blocks' accesses,
      (source.IsExhaustion ∧ bus.Listed address ∧ before.Pairwise PciAddress.Before ∧
        ∀ a, a ∈ before ↔ bus.Listed a ∧ a.Before address) ∧
      list'.descriptions machine'.firmware =
        ds ++ before.map (fun a => describe (bus.functionAt a)) ∧
      (machine'.firmware.heap = f.heap ∧
        f.heap.WellFormed machine'.firmware.memory blocks' ∧
        (list'.allocations machine'.firmware).Nodup ∧
        ∀ p, InUseAt machine'.firmware blocks' p ↔
          p ∈ list'.allocations machine'.firmware ∨
            InUseAt f blocks p ∧ p ∉ list.allocations f) ∧
      machine'.trace.accesses = trace.accesses ++ accesses ∧
      Touches (fun a => (a.Addressable ∧ bus.Scanned a.bus) ∧ ¬ address.Before a) accesses ∧
      ∀ a, a.Addressable → machine'.bus.registers? a = (bus.registers? a).map fun registers =>
        if a ∈ before ++ [address] then started registers else registers := by
  obtain ⟨before, after, blocks', hfound, hexhausted, hds, hnodup, htrades⟩ :=
    enumerate_refuses hs hrun
  obtain ⟨reached, accesses, htrace, hprobed, before', after', hfound', rfl, htouches⟩ :=
    enumerate_traverses bus [] _ _ _ _ _ (.refl bus) hrun
  have hsorted := bus.pairwise_foundFunctions
  rw [hfound] at hsorted
  -- the heap and the bus tell of the same place, as the functions are found in order
  obtain rfl := before_unique hsorted (hfound.symm.trans hfound')
  have hmem (a : PciAddress) : a ∈ before ++ address :: after ↔ bus.Listed a := by
    rw [← hfound]
    exact ScriptedBus.mem_foundFunctions
  refine ⟨before, blocks', accesses, ⟨hexhausted, (hmem address).1 (by simp),
    (List.pairwise_append.1 hsorted).1, fun a => ?_⟩, hds, ⟨htrades.heap_eq, ?_, hnodup, ?_⟩, ?_,
    htouches, ?_⟩
  · rw [mem_before_iff hsorted, hmem]
  · rw [← htrades.heap_eq]
    exact htrades.spares.shares.wellFormed
  · intro p
    rw [htrades.inUseAt_iff, Multiset.mem_coe, Multiset.mem_coe]
  · rw [htrace, Trace.accesses_recordAll]
  · intro a ha
    have haddressable : ∀ a ∈ before ++ [address], a.Addressable := fun a ha =>
      ((hmem a).1 (by simp at ha ⊢; tauto)).addressable
    have hkey : a.key ∈ (before ++ [address]).map PciAddress.key ↔ a ∈ before ++ [address] := by
      rw [List.mem_map]
      constructor
      · rintro ⟨b, hb, hsame⟩
        rwa [← (PciAddress.key_inj (haddressable b hb) ha).1 hsame]
      · exact fun hmem => ⟨a, hmem, rfl⟩
    rw [hprobed.registers?_eq]
    simp only [List.nil_append, hkey]

def tightFirmware : Firmware :=
  ⟨Header.write (Memory.ofBytes 0 ByteArray.empty) 64 ⟨true, 224, none, none⟩, ⟨64, 256, 2⟩,
    .silent .error, .empty⟩

theorem exhausted_at_second_function :
    Holds tightFirmware [⟨0, 224, true⟩] (DeviceList.empty.listing []) ∧
    ∃ list' machine',
      enumerate.run (DeviceList.empty, ⟨tightFirmware, twoBuses, .empty⟩) =
        .ok (.error (.allocate ⟨0, 0, 1⟩ (.outOfMemory 14))) (list', machine') ∧
      list'.descriptions machine'.firmware = [describe (twoBuses.functionAt .host)] ∧
      (list'.allocations machine'.firmware).Nodup ∧
      machine'.bus.register ⟨0, 3, 0⟩ headerRegister = 0x80000000 := by
  have hinit : Heap.init 64 256 ⟨Memory.ofBytes 0 ByteArray.empty, .uninitialized 2,
      .silent .error, .empty⟩ = .ok (.ok ()) tightFirmware := rfl
  obtain ⟨hp, hw, -⟩ := BlockHeap.init_spec (by decide) (Heap.init_eq_ok hinit)
  have hs := DeviceList.holds_empty hp hw
  have hanswer : (enumerate.run : ListingM ScriptedBus (Except PciError Nat)).run'
      (DeviceList.empty, ⟨tightFirmware, twoBuses, .empty⟩) =
      some (.error (.allocate ⟨0, 0, 1⟩ (.outOfMemory 14))) := by decide +kernel
  obtain ⟨⟨list', machine'⟩, hrun⟩ := answer_of_run hanswer
  have hfound : twoBuses.foundFunctions = [⟨0, 0, 0⟩, ⟨0, 0, 1⟩, ⟨0, 3, 0⟩, ⟨1, 4, 0⟩] := by
    decide +kernel
  obtain ⟨before, _, _, ⟨-, -, hsorted, hbefore⟩, hds, ⟨-, -, hnodup, -⟩, -, -, hleft⟩ :=
    enumerate_exhausted hs hrun
  have hmem (a : PciAddress) : a ∈ before ↔ a ∈ [PciAddress.host] := by
    rw [hbefore, ← ScriptedBus.mem_foundFunctions, hfound]
    unfold PciAddress.Before
    constructor
    · rintro ⟨ha, hlt⟩
      simp only [List.mem_cons, List.not_mem_nil, or_false] at ha
      rcases ha with rfl | rfl | rfl | rfl
      · exact .head []
      · exact absurd hlt (by decide)
      · exact absurd hlt (by decide)
      · exact absurd hlt (by decide)
    · intro ha
      rw [List.mem_singleton.1 ha]
      decide
  have hnodup' : before.Nodup := hsorted.imp fun {a b} hlt (heq : a = b) =>
    b.not_before_self (heq ▸ hlt)
  have hone : before = [.host] :=
    List.perm_singleton.1 ((List.perm_ext_iff_of_nodup hnodup' (List.nodup_singleton _)).2 hmem)
  rw [hone] at hds hleft
  refine ⟨hs, list', machine', hrun, hds, hnodup, ?_⟩
  unfold ScriptedBus.register
  rw [hleft ⟨0, 3, 0⟩ ⟨by decide, by decide⟩]
  decide +kernel

end Pci

end EarlyBoot
