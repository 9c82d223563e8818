import EarlyBoot.Proofs.BlockHeap.Accounting
import EarlyBoot.Proofs.Ownership.Records

/-!
# What is refused

A device asks for its record before anything else, and for its place in the
list when all else is done.  The heap decides at that moment: the request is
granted if there is a free block for it, and whoever is refused finds the heap
as it was.
-/

namespace EarlyBoot

open BlockHeap (alignment)

variable {f f' : Firmware} {blocks : List BlockInfo}

namespace HeapBox

variable {α : Type} [Stored α]

def Fits (α : Type) [Stored α] (f : Firmware) : Prop :=
  ∃ p m', f.heap.allocateAligned (Stored.size α) (Stored.align α) f.memory = .ok p m'

theorem allocateAligned_eq (halign : Stored.align α ≤ alignment) :
    f.heap.allocateAligned (Stored.size α) (Stored.align α) = f.heap.allocate (Stored.size α) :=
  if_pos halign

theorem new_of_fits [Owned α] (hfits : Fits α f) (x : α) :
    ∃ box f', HeapBox.new x f = .ok (.ok box) f' ∧ box.read f'.memory = x := by
  obtain ⟨p, m', hok⟩ := hfits
  let box : HeapBox α := ⟨UInt64.ofNat p⟩
  let m'' := m'.writeBytes box.address.toNat (Stored.encode x)
  have hgranted : Heap.allocate (Stored.size α) (Stored.align α) f =
      .ok (.ok p) { f with memory := m' } := Heap.onHeap_of_ok _ hok
  exact ⟨box, { f with memory := m'' }, bind_of_answer hgranted, box.read_write m' x⟩

theorem fits_of_new [Owned α] {x : α} {box : HeapBox α}
    (hnew : HeapBox.new x f = .ok (.ok box) f') : Fits α f := by
  obtain ⟨granted, f₁, hrequest, hnew⟩ := answers_of_bind hnew
  cases granted with
  | error error =>
      obtain ⟨_, f₂, -, hnew⟩ := answers_of_bind hnew
      cases hnew
  | ok p =>
      unfold Heap.allocate FirmwareM.onHeap at hrequest
      dsimp only at hrequest
      unfold Fits
      split at hrequest
      next hok =>
        cases hrequest
        exact ⟨p, _, hok⟩
      next => cases hrequest
      next => cases hrequest

theorem not_fits_of_new [Owned α] {x : α} {error : HeapError}
    (hnew : HeapBox.new x f = .ok (.error error) f') : ¬ Fits α f := by
  intro hfits
  obtain ⟨box, f₁, hgranted, -⟩ := new_of_fits hfits x
  cases hnew.symm.trans hgranted

theorem new_outcome [Owned α] (hp : f.heap.Placed) (hw : f.heap.WellFormed f.memory blocks)
    (halign : Stored.align α ≤ alignment) {x : α} (hdrop : Owned.drop x f = .ok () f) :
    (¬ Fits α f ∧ ∃ error, error.IsExhaustion ∧ HeapBox.new x f = .ok (.error error) f) ∨
    Fits α f ∧ ∃ box f', HeapBox.new x f = .ok (.ok box) f' ∧ box.read f'.memory = x := by
  have heq := allocateAligned_eq (f := f) halign
  rcases allocate_outcome hp hw (Stored.size α) with
    ⟨error, hexhaustion, -, hfail⟩ | ⟨p, m', -, hok, -⟩
  · refine .inl ⟨?_, error, hexhaustion, ?_⟩
    · rintro ⟨p, m', hok⟩
      rw [heq, hfail] at hok
      cases hok
    · have hrefused : Heap.allocate (Stored.size α) (Stored.align α) f = .ok (.error error) f :=
        Heap.onHeap_of_report _ ((congrFun heq f.memory).trans hfail)
      exact (bind_of_answer hrefused).trans (bind_of_answer hdrop)
  · have hfits : Fits α f := ⟨p, m', (congrFun heq f.memory).trans hok⟩
    exact .inr ⟨hfits, new_of_fits hfits x⟩

theorem fits_iff (hp : f.heap.Placed) (hw : f.heap.WellFormed f.memory blocks)
    (halign : Stored.align α ≤ alignment) {payload : Nat}
    (hsize : BlockHeap.payloadSize? (Stored.size α) = some payload) :
    Fits α f ↔ payload ≤ (f.heap.stats f.memory).largestFree := by
  unfold Fits
  rw [allocateAligned_eq halign]
  have houtcome := BlockHeap.allocate_of_payload hp hw hsize
  split at houtcome
  next hroom => exact iff_of_true houtcome hroom
  next hroom =>
    refine iff_of_false ?_ hroom
    rintro ⟨p, m', hok⟩
    rw [houtcome] at hok
    cases hok

end HeapBox

theorem Device.toRecord_outcome (hp : f.heap.Placed) (hw : f.heap.WellFormed f.memory blocks)
    (name : String) (access : DeviceAccess) :
    (¬ HeapBox.Fits DeviceRecord f ∧ ∃ error,
      (Device.new name access).toRecord f = .ok (.error error) f) ∨
    HeapBox.Fits DeviceRecord f ∧ ∃ box f',
      (Device.new name access).toRecord f = .ok (.ok box) f' := by
  have hdrop : Owned.drop (Device.new name access).toDeviceRecord f = .ok () f := rfl
  rcases HeapBox.new_outcome hp hw (by decide) hdrop with
    ⟨hfull, error, -, hnew⟩ | ⟨hfits, box, f', hnew, -⟩
  · exact .inl ⟨hfull, error, bind_of_answer hnew⟩
  · exact .inr ⟨hfits, _, _, bind_of_answer hnew⟩

theorem Device.fits_of_toRecord {device : Device} {box : HeapBox DeviceRecord}
    (hrun : device.toRecord f = .ok (.ok box) f') : HeapBox.Fits DeviceRecord f := by
  obtain ⟨moved, f₁, hnew, hrun⟩ := answers_of_bind hrun
  cases moved with
  | error error => cases hrun
  | ok box => exact HeapBox.fits_of_new hnew

theorem Device.not_fits_of_toRecord {device : Device} {error : HeapError}
    (hrun : device.toRecord f = .ok (.error error) f') : ¬ HeapBox.Fits DeviceRecord f := by
  obtain ⟨moved, f₁, hnew, hrun⟩ := answers_of_bind hrun
  cases moved with
  | error error => exact HeapBox.not_fits_of_new hnew
  | ok box =>
      obtain ⟨_, f₂, -, hrun⟩ := answers_of_bind hrun
      cases hrun

/-! ## Payloads -/

theorem HeapBox.fits_of_untouched {α : Type} [Stored α] (h : f.Untouched f') :
    Fits α f' ↔ Fits α f := by
  unfold Fits
  rw [h.heap, h.memory]

namespace Device

variable {device device' : Device} {old : Option Payload} {payload : Payload}
  {status : DeviceStatus} {box : HeapBox Payload} {error : HeapError}

theorem status_of_new (hnew : HeapBox.new payload f = .ok (.ok box) f')
    {f'' : Firmware} (hrun : device.complete payload f = .ok (status, device') f'') :
    status = .initialised := by
  have hattach : device.attach payload f = (do
      FirmwareM.unwinding box.free (Owned.drop device.payload)
      pure (.ok { device with payload := some box }) : FirmwareM (Except HeapError Device)) f' :=
    bind_of_answer hnew
  unfold complete at hrun
  cases hdrop : FirmwareM.unwinding box.free (Owned.drop device.payload) f' with
  | ok _ f₁ =>
      rw [bind_of_answer (hattach.trans (bind_of_answer hdrop))] at hrun
      cases hrun
      rfl
  | error reason f₁ =>
      rw [bind_of_halt (hattach.trans (bind_of_halt hdrop))] at hrun
      cases hrun

theorem complete_of_refused (device : Device) (hexhausted : error.IsExhaustion)
    (hnew : HeapBox.new payload f = .ok (.error error) f) :
    ∃ f', device.complete payload f = .ok (.faulty, device) f' ∧ f.Untouched f' := by
  have hattach : device.attach payload f = .ok (.error error) f := bind_of_answer hnew
  have hskip : FirmwareM.unwinding (Owned.drop device) (FirmwareM.haltIfFatal error) f =
      .ok () f := by
    rw [FirmwareM.haltIfFatal_of_recoverable hexhausted.recoverable]
    rfl
  exact ⟨_, (bind_of_answer hattach).trans (bind_of_answer hskip), rfl, rfl, rfl⟩

theorem complete_outcome (payload : Payload) (hs : Holds f blocks (device.carries old)) :
    (¬ HeapBox.Fits Payload f ∧ ∃ f', device.complete payload f = .ok (.faulty, device) f' ∧
      Holds f' blocks (device.carries old)) ∨
    HeapBox.Fits Payload f ∧ ∃ device' f' blocks',
      device.complete payload f = .ok (.initialised, device') f' ∧
      device' = { device with payload := device'.payload } ∧
      Holds f' blocks' (device'.carries (some payload)) := by
  rcases HeapBox.new_outcome hs.placed hs.wellFormed (by decide)
    (show Owned.drop payload f = .ok () f from rfl) with
    ⟨hfull, error, hexhausted, hnew⟩ | ⟨hfits, box, f₁, hnew, -⟩
  · obtain ⟨f', hrun, huntouched⟩ := complete_of_refused device hexhausted hnew
    exact .inl ⟨hfull, f', hrun, (Exchanges.of_untouched hs huntouched).holds hs⟩
  · have hbare : Holds f blocks (device.carries old + Deed.fund 0) := by simpa using hs
    obtain ⟨⟨status, device'⟩, f', blocks', hrun, h⟩ :=
      (device.complete_delivers old payload 0).run_firmware hbare
    obtain rfl := status_of_new hnew hrun
    have hs' : Holds f' blocks' (device'.carries (some payload) + _ + Deed.fact _) := h.holds hbare
    have hsame : device' = { device with payload := device'.payload } := hs'.valid.2
    rw [add_assoc] at hs'
    exact .inr ⟨hfits, device', f', blocks', hrun, hsame, hs'.left (.inl (by simp))⟩

/-- A payload can be attached: the device has none yet, or one on a heap in good order. -/
def Attachable (device : Device) (f : Firmware) : Prop :=
  device.payload = none ∨ ∃ blocks old, Holds f blocks (device.carries old)

theorem Attachable.of_untouched (h : device.Attachable f) (huntouched : f.Untouched f') :
    device.Attachable f' := by
  refine h.imp_right ?_
  rintro ⟨blocks, old, hs⟩
  exact ⟨blocks, old, (Exchanges.of_untouched hs huntouched).holds hs⟩

theorem complete_of_fits (h : device.Attachable f) (hfits : HeapBox.Fits Payload f)
    (payload : Payload) : ∃ device' f', device.complete payload f = .ok (.initialised, device') f' ∧
      device'.payload? f'.memory = some payload := by
  rcases h with hbare | ⟨blocks, old, hs⟩
  · obtain ⟨box, f', hnew, hread⟩ := HeapBox.new_of_fits hfits payload
    have hdrop : FirmwareM.unwinding box.free (Owned.drop device.payload) f' = .ok () f' := by
      rw [hbare]
      rfl
    have hattach : device.attach payload f = .ok (.ok { device with payload := some box }) f' :=
      (bind_of_answer hnew).trans (bind_of_answer hdrop)
    exact ⟨_, f', bind_of_answer hattach, congrArg some hread⟩
  · rcases complete_outcome payload hs with
      ⟨hfull, -⟩ | ⟨-, device', f', blocks', hcomplete, -, hs'⟩
    · exact absurd hfits hfull
    · exact ⟨device', f', hcomplete, payload?_of_carries hs'.valid⟩

theorem attached_of_complete {status : DeviceStatus}
    (hrun : device.complete payload f = .ok (status, device') f') :
    (status = .initialised ∧ device.attach payload f = .ok (.ok device') f') ∨
      status = .faulty := by
  obtain ⟨attached, f₁, hattach, hrun⟩ := answers_of_bind hrun
  cases attached with
  | error error =>
      obtain ⟨_, f₂, -, hrun⟩ := answers_of_bind hrun
      obtain ⟨_, f₃, -, hrun⟩ := answers_of_bind hrun
      cases hrun
      exact .inr rfl
  | ok attached =>
      cases hrun
      exact .inl ⟨rfl, hattach⟩

theorem fits_of_complete (hrun : device.complete payload f = .ok (.initialised, device') f') :
    HeapBox.Fits Payload f := by
  obtain ⟨-, hattach⟩ | ⟨⟨⟩⟩ := attached_of_complete hrun
  obtain ⟨moved, f₁, hnew, hrun⟩ := answers_of_bind hattach
  cases moved with
  | error error => cases hrun
  | ok box => exact HeapBox.fits_of_new hnew

theorem payload?_of_complete (h : device.Attachable f)
    (hrun : device.complete payload f = .ok (.initialised, device') f') :
    device'.payload? f'.memory = some payload := by
  obtain ⟨attached, f'', hcomplete, hpayload⟩ :=
    complete_of_fits h (fits_of_complete hrun) payload
  cases hrun.symm.trans hcomplete
  exact hpayload

end Device

theorem Device.not_fits_of_attach {device : Device} {payload : Payload} {error : HeapError}
    (hrun : device.attach payload f = .ok (.error error) f') : ¬ HeapBox.Fits Payload f := by
  obtain ⟨moved, f₁, hnew, hrun⟩ := answers_of_bind hrun
  cases moved with
  | error error => exact HeapBox.not_fits_of_new hnew
  | ok box =>
      obtain ⟨_, f₂, -, hrun⟩ := answers_of_bind hrun
      cases hrun

def Firmware.fresh (size : Nat) : Firmware :=
  ⟨Header.write (Memory.ofBytes 0 ByteArray.empty) 64 ⟨true, size - 32, none, none⟩,
    ⟨64, size, 2⟩, .silent .error, .empty⟩

def Firmware.full (size : Nat) : Firmware :=
  { fresh size with
    memory := Header.write (Memory.ofBytes 0 ByteArray.empty) 64 ⟨false, size - 32, none, none⟩ }

/-! ## Places in a vector -/

namespace HeapVec

variable {α : Type} [Stored α] {v v' : HeapVec α} {error : HeapError}

/-- There is a place left, or the heap grants the storage for more of them. -/
def Extensible (v : HeapVec α) (f : Firmware) : Prop :=
  v.length < v.capacity ∨ ∃ capacity bytes given m',
    v.nextCapacity = .ok (capacity, bytes) ∧
      (v.growthCall bytes).perform f.heap f.memory = .ok given m'

theorem extensible_of_untouched (h : f.Untouched f') : v.Extensible f' ↔ v.Extensible f := by
  unfold Extensible
  rw [h.heap, h.memory]

theorem reserve_of_extensible (h : v.Extensible f) : ∃ v' f', v.reserve f = .ok (.ok v') f' := by
  unfold reserve
  by_cases hfull : v.length = v.capacity
  · obtain ⟨capacity, bytes, given, m', hnext, hok⟩ := h.resolve_left (by omega)
    obtain ⟨p, -, hrun⟩ := growthRequest_of_ok hok
    rw [if_pos hfull, grow_eq hnext]
    exact ⟨_, _, bind_of_answer hrun⟩
  · rw [if_neg hfull]
    exact ⟨v, f, rfl⟩

theorem reserve_outcome (hp : f.heap.Placed) (hw : f.heap.WellFormed f.memory blocks)
    (hsize : 0 < Stored.size α) (hv : v.shell.Valid f blocks) :
    (¬ v.Extensible f ∧ ∃ error f', v.reserve f = .ok (.error error) f' ∧ f.Untouched f') ∨
    v.Extensible f ∧ ∃ v' f', v.reserve f = .ok (.ok v') f' := by
  obtain ⟨hplace, hsized : v.Sized⟩ := hv
  have hlength := hsized.length_le
  unfold reserve
  by_cases hfull : v.length = v.capacity
  · rw [if_pos hfull]
    have hextends : v.Extensible f ↔ ∃ capacity bytes given m',
        v.nextCapacity = .ok (capacity, bytes) ∧
          (v.growthCall bytes).perform f.heap f.memory = .ok given m' :=
      or_iff_right (by omega)
    rw [hextends]
    cases hnext : v.nextCapacity with
    | error error =>
        refine .inl ⟨by simp, error, f, ?_, rfl, rfl, rfl⟩
        unfold grow
        rw [hnext]
        rfl
    | ok next =>
        obtain ⟨capacity, bytes⟩ := next
        -- a call that resizes gives back the block of the vector
        have hheld : ∀ p ∈ (v.growthCall bytes).givenBack, InUseAt f blocks p := by
          unfold growthCall
          split
          next => rintro p ⟨⟩
          next hcapacity =>
            rintro p ⟨⟩
            rw [place_of_owns (ownsBlock_iff.2 ⟨by omega, hsize⟩)] at hplace
            exact (Deed.block _ _).held hplace _ (Multiset.mem_singleton_self _)
        rw [grow_eq hnext]
        rcases call_outcome hp hw hheld with
          ⟨error, hrecoverable, hfail⟩ | ⟨m', blocks', gone, new, hc, -⟩
        · obtain ⟨f', hrun, huntouched, -⟩ := growthRequest_of_report hp hrecoverable hfail
          refine .inl ⟨?_, error, f', bind_of_answer hrun, huntouched⟩
          rintro ⟨_, _, given, m', ⟨⟩, hok⟩
          rw [hfail] at hok
          cases hok
        · obtain ⟨p, -, hrun⟩ := growthRequest_of_ok hc.performed
          exact .inr ⟨⟨capacity, bytes, _, m', rfl, hc.performed⟩, _, _,
            bind_of_answer hrun⟩
  · rw [if_neg hfull]
    exact .inr ⟨.inl (by omega), v, f, rfl⟩

variable [Owned α]

theorem push_of_ok (hreserve : v.reserve f = .ok (.ok v') f') (x : α) :
    ∃ v'' f'', v.push x f = .ok (.ok v'') f'' :=
  ⟨_, _, bind_of_answer hreserve⟩

theorem push_of_error (hreserve : v.reserve f = .ok (.error error) f') (x : α) :
    v.push x f = (do
      Owned.drop x
      pure (.error error) : FirmwareM (Except HeapError (HeapVec α))) f' :=
  bind_of_answer hreserve

theorem not_extensible_of_push {x : α} (hrun : v.push x f = .ok (.error error) f') :
    ¬ v.Extensible f := by
  intro hextends
  obtain ⟨v₁, f₁, hreserve⟩ := reserve_of_extensible hextends
  obtain ⟨v₂, f₂, hgranted⟩ := push_of_ok hreserve x
  cases hrun.symm.trans hgranted

end HeapVec

/-! ## Places in a list -/

namespace DeviceList

variable {list : DeviceList} {ds : List Description}

theorem not_extensible_of_push {box : HeapBox DeviceRecord} {error : HeapError}
    (hrun : list.push box f = .ok (.error error) f') : ¬ list.boxes.Extensible f := by
  obtain ⟨pushed, f₁, hpush, hrun⟩ := answers_of_bind hrun
  cases pushed with
  | error error => exact HeapVec.not_extensible_of_push hpush
  | ok boxes => cases hrun

theorem listing_amounts_stocked (list : DeviceList) (ds : List Description) (d : Deed)
    (f : Firmware) (blocks : List BlockInfo) :
    Amounts f blocks (d + list.listing ds) (stocked list.boxes.capacity
      (-list.boxes.reserveFor list.boxes.capacity) list ds + d) := by
  have hnothing : Deed.fund (-list.boxes.reserveFor list.boxes.capacity +
      list.boxes.reserveFor list.boxes.capacity) = 0 := by
    rw [Int.add_left_neg, Deed.fund_zero]
  unfold stocked
  rw [hnothing, add_zero, add_comm d]
  exact ((Amounts.refl _ _ _).and_fact fun _ _ => by omega).add (.refl _ _ _)

theorem push_outcome (e : Entry) (hs : Holds f blocks (e.deed + list.listing ds)) :
    (¬ list.boxes.Extensible f ∧ ∃ error f' blocks', list.push e.box f = .ok (.error error) f' ∧
      Exchanges f blocks e.deed f' blocks' 0) ∨
    list.boxes.Extensible f ∧ ∃ list' f' blocks', list.push e.box f = .ok (.ok list') f' ∧
      Holds f' blocks' (list'.listing (ds ++ [e.description])) := by
  have hshell : list.boxes.shell.Valid f blocks := hs.valid.2.1.1.1
  rcases HeapVec.reserve_outcome hs.placed hs.wellFormed (by decide) hshell with
    ⟨hfull, error, f₁, hreserve, huntouched⟩ | ⟨hextends, v', f₁, hreserve⟩
  · refine .inl ⟨hfull, error, ?_⟩
    have hown : Holds f blocks e.deed := hs.left (.inl e.budget_deed.le)
    have hkept := Exchanges.of_untouched hown huntouched
    obtain ⟨_, f₂, blocks₂, hdrop, h⟩ :=
      (e.drop_delivers f₁ blocks).run_firmware (hkept.holds hown)
    have hpush : list.boxes.push e.box f = .ok (.error error) f₂ :=
      (HeapVec.push_of_error hreserve e.box).trans (bind_of_answer hdrop)
    exact ⟨f₂, blocks₂, bind_of_answer hpush, hkept.trans h⟩
  · refine .inr ⟨hextends, ?_⟩
    have hpush : Delivers (list.push e.box) f blocks (e.deed + list.listing ds) _ :=
      (push_delivers e).amounts (list.listing_amounts_stocked ds e.deed f blocks)
    obtain ⟨reply, f₂, blocks₂, hrun, h⟩ := hpush.run_firmware hs
    obtain ⟨v'', f₃, hboxes⟩ := HeapVec.push_of_ok hreserve e.box
    have hrun' : list.push e.box f = .ok (.ok ⟨v''⟩) f₃ := bind_of_answer hboxes
    rw [hrun] at hrun'
    cases hrun'
    have hs' := h.holds hs
    change Holds f₂ blocks₂ (_ + Deed.fund _ + Deed.fact _) at hs'
    rw [add_assoc] at hs'
    exact ⟨_, _, _, hrun, hs'.left (.inl le_rfl)⟩

theorem push_exchanges (e : Entry) :
    Delivers (list.push e.box) f blocks (e.deed + list.listing ds) fun reply _ =>
      match reply with
      | .ok list' => list'.listing (ds ++ [e.description]) + Deed.unfunded
      | .error error => list.listing ds + Deed.unfunded +
          Deed.fact (error.IsExhaustion ∧ ¬ list.boxes.Extensible f) := by
  refine ((push_delivers e).running.amounts
    (list.listing_amounts_stocked ds e.deed f blocks)).leaving ?_
  rintro (error | list') f' blocks'
  · refine .of_fact fun hrun => .of_fact fun ⟨hexhausted, _⟩ => ?_
    exact (Amounts.refl _ _ _).and_fact fun _ => ⟨hexhausted, not_extensible_of_push hrun⟩
  · refine .of_fact fun _ => .of_fact fun _ => ?_
    exact (Amounts.refl _ _ _).add (.unfunded _ rfl)

end DeviceList

end EarlyBoot
