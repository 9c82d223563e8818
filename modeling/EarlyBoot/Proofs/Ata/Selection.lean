import EarlyBoot.Proofs.BringUp.Platform
import EarlyBoot.Proofs.Pci.Exact

/-!
# Which devices the scan selects

A scan that goes through has a controller for every IDE function of the list,
and has changed nothing in the list but the access of their devices.  A scan
that runs out of room has released all that it built, so that the heap is laid
out as before.  The identification data of a drive is no reason to give up.
-/

namespace EarlyBoot.Ata

open Pci (twoBuses)
open Platform (discover_enumerated idleMachine)

variable {β : Type} {machine machine' : Machine β} {blocks blocks' : List BlockInfo}
  {devices : DeviceList} {ds : List Description} {pins : BlockInfo → Prop}

def driveRoom (count : Nat) : Nat :=
  HeapVec.firstStock IdeController count + controllerCharge * count

variable [PortBus β]

/-- The scan has been given up for want of room, when some devices had been looked at. -/
structure GivesUp (machine : Machine β) (blocks : List BlockInfo) (devices : DeviceList)
    (ds : List Description) (error : HeapError) (machine' : Machine β) : Prop where
  exhausted : error.IsExhaustion
  overflows : Overflows .empty machine (ds.filterMap Description.ide?)
  short : ¬ machine.firmware.heap.Room blocks (driveRoom (ds.filterMap Description.ide?).length)
  blocks_eq : machine'.firmware.heap.blocks machine'.firmware.memory =
    machine.firmware.heap.blocks machine.firmware.memory
  descriptions : ∃ passed left, ds = passed ++ left ∧
    devices.descriptions machine'.firmware = passed.map Description.scanned ++ left
  holds : Holds machine'.firmware blocks (devices.listing (devices.descriptions machine'.firmware))

/-- The scan has gone through; the list is in the same blocks as before. -/
structure Selects (machine : Machine β) (pins : BlockInfo → Prop) (devices : DeviceList)
    (ds : List Description) (controllers : HeapVec IdeController) (machine' : Machine β) :
    Prop where
  functions : (controllers.toList machine'.firmware.memory).map IdeController.function =
    ds.filterMap Description.ide?
  descriptions : devices.descriptions machine'.firmware = ds.map Description.scanned
  survey : ScanSurvey .empty machine (ds.filterMap Description.ide?)
    (controllers.toList machine'.firmware.memory) controllers machine'
  holds : ∃ blocks', Holds machine'.firmware blocks'
    ((devices.listing (ds.map Description.scanned)).pinned pins + deed controllers)

section Endings

variable {limit n : Nat} {m : Int}

theorem Selects.of_surveyed {controllers : HeapVec IdeController}
    (hs : Holds machine'.firmware blocks' (surveyed limit m devices pins [] ds [] .empty []
      machine (.ok controllers) machine')) :
    Selects machine pins devices ds controllers machine' := by
  obtain ⟨⟨⟨-, hdescriptions⟩, -⟩, -, new, hlist, hsurvey⟩ := hs.valid
  rw [List.append_nil] at hdescriptions
  rw [List.nil_append] at hlist
  refine ⟨by rw [hlist, hsurvey.functions_eq], hdescriptions, by rwa [hlist], blocks', ?_⟩
  have howned : Amounts machine'.firmware blocks' (restocked limit m .empty []
      (ds.filterMap Description.ide?).length (ScanSurvey .empty machine
        (ds.filterMap Description.ide?)) (Overflows .empty machine (ds.filterMap Description.ide?))
        (.ok controllers) machine')
      (deed controllers + Deed.unfunded) := by
    refine .of_fact fun _ => ?_
    rw [stocked_eq, add_comm (Deed.fund _)]
    exact .of_fact fun _ => (controllers.amounts_closed _ _ _).add (.unfunded _ rfl)
  have hheld := (((Amounts.refl _ _ _).add howned).exchanges hs).holds hs
  rw [List.append_nil, List.nil_append, ← add_assoc] at hheld
  exact hheld.left (.inl (by simp))

theorem GivesUp.of_exchanges {error : HeapError}
    (hs : Holds machine.firmware blocks ((devices.listing ds).pinned pins + Deed.fund n))
    (hfull : ∀ k ≤ driveRoom limit, n < k → ¬ machine.firmware.heap.Room blocks k)
    (hlimit : (ds.filterMap Description.ide?).length = limit)
    (h : Exchanges machine.firmware blocks ((devices.listing ds).pinned pins + Deed.fund n)
      machine'.firmware blocks' (surveyed limit (n - HeapVec.firstStock IdeController limit)
        devices pins [] ds [] .empty [] machine (.error error) machine')) :
    GivesUp machine blocks devices ds error machine' := by
  obtain ⟨⟨⟨-, passed, left, hparts, hdescriptions⟩, -⟩, hexhausted, hshort, hoverflows⟩ :=
    h.valid
  have hs' := h.holds hs
  obtain ⟨e, hnothing, hlist⟩ : ∃ e : Deed, e.holdings machine'.firmware = 0 ∧
      surveyed limit (n - HeapVec.firstStock IdeController limit) devices pins [] ds [] .empty []
        machine (.error error) machine' =
        (devices.listing (devices.descriptions machine'.firmware)).pinned pins + e :=
    ⟨_, by simp, (add_assoc _ _ _).trans (add_assoc _ _ _)⟩
  rw [hlist] at h hs'
  obtain rfl : blocks' = blocks := h.layout_eq hs rfl hnothing
  refine ⟨hexhausted, hoverflows, ?_, ?_, ⟨passed, left, ?_, hdescriptions⟩, ?_⟩
  · have hless := hshort.lt_room (by rw [List.length_nil]; omega) le_rfl
    rw [hlimit] at hless ⊢
    exact hfull _ le_rfl (Int.ofNat_lt.1 hless)
  · exact (hs'.wellFormed.blocks_eq hs'.placed).trans (hs.wellFormed.blocks_eq hs.placed).symm
  · rwa [List.append_nil] at hparts
  · exact ((Amounts.unpin _ pins _ _).exchanges (hs'.left (.inl le_rfl))).holds
      (hs'.left (.inl le_rfl))

end Endings

/--
For every list of devices, on every bus and with every heap in good order, the
scan ends.  Either there is a controller for each device that is an IDE
function, in the order of the list and with that function, and the access of
exactly these devices has changed; or there was too little room, and everything
built for the scan has been released.  A controller in native mode has no buses
and reaches no port; any other has those of the four compatibility buses of
which the first status read shows that they are there.  A drive keeps its model
if there is no room for its identification data.
-/
theorem scanControllers_selects (hs : Holds machine.firmware blocks (devices.listing ds)) :
    (∃ controllers machine', scanControllers devices machine = .ok (.ok controllers) machine' ∧
      Selects machine ((devices.listing ds).blocksIn machine.firmware blocks) devices ds
        controllers machine') ∨
    ∃ error machine', scanControllers devices machine = .ok (.error error) machine' ∧
      GivesUp machine blocks devices ds error machine' := by
  obtain ⟨limit, hlimit⟩ : ∃ limit, (ds.filterMap Description.ide?).length = limit := ⟨_, rfl⟩
  obtain ⟨n, hfunded, hfull⟩ := exists_funded machine.firmware blocks (driveRoom limit)
  have hpinned : Holds machine.firmware blocks ((devices.listing ds).pinned
      ((devices.listing ds).blocksIn machine.firmware blocks) + Deed.fund n) :=
    ⟨hs.placed, hs.wellFormed, ⟨⟨hs.valid, rfl⟩, trivial⟩, by simpa using hs.nodup,
      by simpa using hfunded⟩
  obtain ⟨reply, machine', blocks', hrun, h⟩ := scanControllers_surveys limit hpinned
  cases reply with
  | error error => exact .inr ⟨error, machine', hrun, .of_exchanges hpinned hfull hlimit h⟩
  | ok controllers => exact .inl ⟨controllers, machine', hrun, .of_surveyed (h.holds hpinned)⟩

theorem selects_on_two_buses :
    let machine : Machine ScriptedBus := { idleMachine 32768 with bus := twoBuses }
    let ds := [⟨0, 0, 0⟩, ⟨0, 0, 1⟩, ⟨0, 3, 0⟩, ⟨1, 4, 0⟩].map fun a =>
      Pci.describe (twoBuses.functionAt a)
    ∃ devices machine₁ blocks₁, Pci.discover machine = .ok (.ok devices) machine₁ ∧
      Holds machine₁.firmware blocks₁ (devices.listing ds) ∧
      ∃ controllers machine', scanControllers devices machine₁ = .ok (.ok controllers) machine' ∧
        Selects machine₁ ((devices.listing ds).blocksIn machine₁.firmware blocks₁) devices ds
          controllers machine' ∧
        (controllers.toList machine'.firmware.memory).map IdeController.function =
          [twoBuses.functionAt ⟨0, 0, 1⟩] := by
  intro machine ds
  have hinit : Heap.init 64 32768 ⟨Memory.ofBytes 0 ByteArray.empty, .uninitialized 2,
      .silent .error, .empty⟩ = .ok (.ok ()) machine.firmware := rfl
  obtain ⟨hp, hw, -⟩ := BlockHeap.init_spec (by decide) (Heap.init_eq_ok hinit)
  have hfound : twoBuses.foundFunctions = [⟨0, 0, 0⟩, ⟨0, 0, 1⟩, ⟨0, 3, 0⟩, ⟨1, 4, 0⟩] := by
    decide +kernel
  obtain ⟨bus', accesses, hfinds, -⟩ := Pci.enumerate_surveys twoBuses [] twoBuses (.refl _)
  rw [hfound] at hfinds
  have hfunded : Funded machine.firmware [⟨0, 32736, true⟩] (16384 : Nat) :=
    .of_room ⟨⟨0, 32736, true⟩, .head [], rfl, by decide⟩
  have hempty := DeviceList.holds_empty hp hw
  have hs : Holds machine.firmware [⟨0, 32736, true⟩]
      (Deed.fund (16384 : Nat) + DeviceList.empty.listing []) :=
    ⟨hp, hw, ⟨trivial, hempty.valid⟩, by simpa using hempty.nodup, by simpa using hfunded⟩
  obtain ⟨reply, machine₁, blocks₁, -, h⟩ := discover_enumerated hfinds hs
  have hs₁ := h.holds hs
  rcases reply with ⟨address, source⟩ | devices
  · exact absurd hs₁.valid.2.2.1 (by decide)
  obtain ⟨-, hdiscover⟩ := hs₁.valid
  have hspare : Holds machine₁.firmware blocks₁
      (devices.listing ds + Deed.fund ((16384 : Nat) - Pci.listRoom 4)) :=
    (hs₁.left (.inr le_rfl)).left (.inr le_rfl)
  have hlisting : Holds machine₁.firmware blocks₁ (devices.listing ds) := hspare.left (.inl le_rfl)
  refine ⟨devices, machine₁, blocks₁, hdiscover, hlisting, ?_⟩
  have hide : ds.filterMap Description.ide? = [twoBuses.functionAt ⟨0, 0, 1⟩] := by decide +kernel
  rcases scanControllers_selects hlisting with ⟨controllers, machine', hrun, hselects⟩ |
    ⟨error, machine', hrun, hgives⟩
  · exact ⟨controllers, machine', hrun, hselects, hselects.functions.trans hide⟩
  · have hroom : machine₁.firmware.heap.Room blocks₁ (driveRoom 1) := by
      refine hspare.funded (driveRoom 1) ?_ (by decide)
      rw [Deed.budget_add, DeviceList.budget_listing, zero_add, Deed.budget_fund]
      exact WithBot.coe_le_coe.2 (by decide)
    have hshort := hgives.short
    rw [hide] at hshort
    exact absurd hroom hshort

end EarlyBoot.Ata
