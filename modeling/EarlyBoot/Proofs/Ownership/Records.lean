import EarlyBoot.Device.List
import EarlyBoot.Proofs.Ownership.Devices
import EarlyBoot.Proofs.Ownership.Pins
import EarlyBoot.Proofs.Ownership.Stock

/-!
# What a device list owns

A device list owns its boxes, and each box the record in it and the payload
that the record refers to.  An entry says what a box contains: a device with
its name, and its payload.  What a list tells of its devices are their
descriptions, in which no address occurs; as long as the list is held nobody
else can change them.
-/

namespace EarlyBoot

open BlockHeap (charge alignment)

variable {f : Firmware} {blocks : List BlockInfo} {n : Int}

/-- The block of a record with a certain device in it; the payload is not included. -/
def recorded (box : HeapBox DeviceRecord) (device : Device) : Deed :=
  box.shell.showing (fun f => Device.ofRecord f box = device) fun {f blocks _ f' _ _} h hvalid
      hapart hdevice => by
    have hread : box.read f'.memory = box.read f.memory :=
      box.read_congr (h.sameAt hvalid hapart)
    obtain ⟨b, hb, haddress, -⟩ := hvalid
    have hname : f'.names.get? box.address = f.names.get? box.address :=
      h.names box.address (hapart _ (Multiset.mem_singleton_self _)) ⟨b, hb, haddress⟩
    rw [← hdevice]
    unfold Device.ofRecord
    rw [hread, hname]

@[simp] theorem budget_recorded (box : HeapBox DeviceRecord) (device : Device) :
    (recorded box device).budget = 0 := rfl

theorem recorded_amounts (box : HeapBox DeviceRecord) (device : Device) (f : Firmware)
    (blocks : List BlockInfo) :
    Amounts f blocks (recorded box device) (box.keeps device.toDeviceRecord) :=
  .of_showing fun hdevice => box.shell_amounts (hdevice ▸ rfl)

theorem setName_delivers (box : HeapBox DeviceRecord) (record : DeviceRecord) (name : String) :
    Delivers (FirmwareM.setName box.address name) f blocks (box.keeps record) fun _ _ =>
      recorded box { record with name } := by
  refine .intro_firmware fun hs => ?_
  have hstart : Trades f blocks {box.address.toNat} f blocks {box.address.toNat} :=
    .refl hs.placed hs.wellFormed fun p hp => box.shell.held hs.valid.1 p hp
  refine ⟨(), { f with names := f.names.insert box.address name }, blocks, rfl,
    ⟨hstart.spares, rfl, ?_⟩, ⟨hs.valid.1, ?_⟩, hs.nodup, fun _ hn => hn⟩
  · intro a ha _
    have hne : a ≠ box.address := fun heq => ha (heq ▸ Multiset.mem_singleton_self _)
    change (f.names.insert box.address name).get? a = _
    rw [Table.get?_insert, if_neg hne]
  · have hname : (f.names.insert box.address name).get? box.address = some name := by
      rw [Table.get?_insert, if_pos rfl]
    have hread : box.read f.memory = record := hs.valid.2
    change Device.ofRecord { f with names := f.names.insert box.address name } box = _
    unfold Device.ofRecord
    dsimp only
    rw [hname, hread]
    rfl

theorem amend_delivers (box : HeapBox DeviceRecord) (device : Device) (record : DeviceRecord) :
    Delivers (box.set record) f blocks (recorded box device) fun _ _ =>
      recorded box { toDeviceRecord := record, name := device.name } := by
  refine .of_holds fun hs => ?_
  obtain ⟨-, hdevice⟩ := hs.valid
  have hname : (f.names.get? box.address).getD "" = device.name := congrArg Device.name hdevice
  have hlength := Stored.length_encode record
  have hwrite : Delivers (box.set record) f blocks box.shell fun _ f' => box.shell +
      Deed.fact (f' = { f with
        memory := f.memory.writeBytes box.address.toNat (Stored.encode record) }) :=
    write_delivers (Nat.le_refl _) (by omega)
  refine (hwrite.amounts (.of_showing fun _ => .refl _ _ _)).leaving fun _ f' blocks' => ?_
  refine .of_fact ?_
  rintro rfl
  refine (Amounts.refl _ _ _).showing fun _ => ?_
  change Device.ofRecord { f with
    memory := f.memory.writeBytes box.address.toNat (Stored.encode record) } box = _
  unfold Device.ofRecord
  dsimp only
  rw [box.read_write, hname]

namespace Device

theorem store_delivers (device : Device) (box : HeapBox DeviceRecord) :
    Delivers (device.store box) f blocks box.shell fun _ _ => recorded box device := by
  refine (box.set_delivers device.toDeviceRecord).bind ?_
  rintro _ f' blocks' -
  exact setName_delivers box device.toDeviceRecord device.name

def moved (device : Device) (payload : Option Payload) (n : Int) :
    Except HeapError (HeapBox DeviceRecord) → Deed
  | .ok box => recorded box device + device.carries payload +
      Deed.fund (n - charge (Stored.size DeviceRecord))
  | .error error => Deed.fund n +
      Deed.fact (error.IsExhaustion ∧ n < charge (Stored.size DeviceRecord))

theorem toRecord_delivers (device : Device) (payload : Option Payload) (n : Int) :
    Delivers device.toRecord f blocks (device.carries payload + Deed.fund n) fun reply _ =>
      device.moved payload n reply := by
  unfold toRecord
  refine (HeapBox.new_delivers n (by simp) (device.drop_record_delivers payload)).bind ?_
  rintro (error | box) f' blocks' -
  · exact .pure (.of_fact fun hreason => (Amounts.refl _ _ _).and_fact fun _ =>
      hreason.2 (by decide))
  · change Delivers _ f' blocks' (box.keeps _ + device.carries payload + Deed.fund _) _
    rw [add_assoc]
    refine (setName_delivers box _ device.name).bind_frame (by simp) ?_
    rintro _ f'' blocks'' -
    rw [← add_assoc]
    exact .pure (.refl _ _ _)

end Device

/-! ## Entries -/

structure Entry where
  box : HeapBox DeviceRecord
  device : Device
  payload : Option Payload

/-- What a list tells of a device; where the payload is kept does not matter. -/
structure Description where
  name : String
  status : DeviceStatus
  access : DeviceAccess
  payload : Option Payload
  deriving DecidableEq, Repr

def Device.description (device : Device) (payload : Option Payload) : Description :=
  ⟨device.name, device.status, device.access, payload⟩

namespace Entry

def ofBox (f : Firmware) (box : HeapBox DeviceRecord) : Entry :=
  ⟨box, Device.ofRecord f box, (Device.ofRecord f box).payload? f.memory⟩

def description (e : Entry) : Description := e.device.description e.payload

def deed (e : Entry) : Deed := recorded e.box e.device + e.device.carries e.payload

@[simp] theorem budget_deed (e : Entry) : e.deed.budget = 0 := by
  simp [deed]

theorem ofBox_of_valid {e : Entry} (hvalid : e.deed.Valid f blocks) : ofBox f e.box = e := by
  obtain ⟨⟨-, hdevice⟩, hpayload⟩ := hvalid
  unfold ofBox
  rw [hdevice, Device.payload?_of_carries hpayload]

theorem drop_delivers (e : Entry) (f : Firmware) (blocks : List BlockInfo) :
    Delivers (Owned.drop e.box) f blocks e.deed fun _ _ => 0 := by
  refine .amounts ?_ ((recorded_amounts e.box e.device f blocks).add (.refl _ _ _))
  exact HeapBox.drop_delivers (e.device.drop_record_delivers e.payload) f blocks

def withAccess (e : Entry) (access : DeviceAccess) : Entry :=
  { e with device := { e.device with access } }

theorem dropAll_delivers (entries : List Entry) (f : Firmware) (blocks : List BlockInfo) :
    Delivers (Owned.dropAll (entries.map box)) f blocks (entries.map deed).sum fun _ _ => 0 :=
  EarlyBoot.dropAll_delivers (fun e _ => e.budget_deed) (fun e _ => e.drop_delivers) f blocks

end Entry

/-! ## Lists -/

namespace DeviceList

variable {list : DeviceList} {es : List Entry} {ds : List Description}

def entries (list : DeviceList) (f : Firmware) : List Entry :=
  (list.boxes.toList f.memory).map (Entry.ofBox f)

def descriptions (list : DeviceList) (f : Firmware) : List Description :=
  (list.entries f).map Entry.description

def holding (list : DeviceList) (es : List Entry) : Deed :=
  list.boxes.keeps (es.map Entry.box) + (es.map Entry.deed).sum

@[simp] theorem budget_entries (es : List Entry) : (es.map Entry.deed).sum.budget = 0 :=
  budget_sum_map fun e _ => e.budget_deed

@[simp] theorem budget_holding (list : DeviceList) (es : List Entry) :
    (list.holding es).budget = 0 := by
  simp [holding]

theorem valid_of_mem {e : Entry} (hvalid : (es.map Entry.deed).sum.Valid f blocks)
    (he : e ∈ es) : e.deed.Valid f blocks := by
  induction es with
  | nil => cases he
  | cons e' rest ih =>
      rw [List.map_cons, List.sum_cons, Deed.valid_add] at hvalid
      cases he with
      | head => exact hvalid.1
      | tail _ he => exact ih hvalid.2 he

theorem entries_of_valid (hvalid : (list.holding es).Valid f blocks) :
    list.entries f = es := by
  obtain ⟨⟨-, hboxes⟩, hentries⟩ := hvalid
  unfold DeviceList.entries
  rw [hboxes, List.map_map]
  exact (List.map_congr_left fun e he => Entry.ofBox_of_valid (valid_of_mem hentries he)).trans
    (List.map_id es)

theorem length_of_valid (hvalid : (list.holding es).Valid f blocks) :
    list.boxes.length = es.length := by
  rw [HeapVec.length_of_keeps hvalid.1, List.length_map]

/-- All that a list owns, if its devices have certain descriptions. -/
def listing (list : DeviceList) (ds : List Description) : Deed where
  holdings f := (list.holding (list.entries f)).holdings f
  Valid f blocks := (list.holding (list.entries f)).Valid f blocks ∧ list.descriptions f = ds
  budget := 0
  held hvalid := (list.holding _).held hvalid.1
  kept h hvalid hapart := by
    obtain ⟨hsame, hvalid'⟩ := (list.holding _).kept h hvalid.1 hapart
    have hentries := entries_of_valid hvalid'
    unfold descriptions
    rw [hentries]
    exact ⟨hsame, hvalid', hvalid.2⟩

@[simp] theorem budget_listing (list : DeviceList) (ds : List Description) :
    (list.listing ds).budget = 0 := rfl

theorem amounts_opened (list : DeviceList) (ds : List Description) (f : Firmware)
    (blocks : List BlockInfo) :
    Amounts f blocks (list.listing ds)
      (list.holding (list.entries f) + Deed.fact (list.descriptions f = ds)) :=
  fun hv => ⟨hv, by simp [listing], by simp [budget_holding]⟩

theorem amounts_closed (list : DeviceList) (es : List Entry) (f : Firmware)
    (blocks : List BlockInfo) :
    Amounts f blocks (list.holding es) (list.listing (es.map Entry.description)) := by
  intro hv
  have hentries := entries_of_valid hv
  refine ⟨⟨?_, ?_⟩, ?_, by simp [budget_holding]⟩
  · rwa [hentries]
  · unfold descriptions
    rw [hentries]
  · change (list.holding (list.entries f)).holdings f = _
    rw [hentries]

theorem length_of_listing (hvalid : (list.listing ds).Valid f blocks) :
    list.boxes.length = ds.length := by
  obtain ⟨hentries, rfl⟩ := hvalid
  rw [length_of_valid hentries, descriptions, List.length_map]

theorem length_le_capacity (hvalid : (list.listing ds).Valid f blocks) :
    ds.length ≤ list.boxes.capacity := by
  have hsized : list.boxes.Sized := hvalid.1.1.1.2
  rw [← length_of_listing hvalid]
  exact hsized.length_le

theorem drop_delivers (list : DeviceList) (ds : List Description) (f : Firmware)
    (blocks : List BlockInfo) :
    Delivers (Owned.drop list) f blocks (list.listing ds) fun _ _ => 0 := by
  refine .amounts (.of_fact fun _ => ?_) (list.amounts_opened ds f blocks)
  exact HeapVec.drop_delivers (budget_entries _) (Entry.dropAll_delivers _) f blocks

theorem empty_amounts (f : Firmware) (blocks : List BlockInfo) :
    Amounts f blocks 0 (empty.listing []) := by
  have hboxes : Amounts f blocks 0 (empty.holding []) := by
    unfold holding
    rw [List.map_nil, List.map_nil, List.sum_nil, add_zero]
    exact HeapVec.empty_amounts f blocks
  exact hboxes.trans (empty.amounts_closed [] f blocks)

theorem holds_empty (hp : f.heap.Placed) (hw : f.heap.WellFormed f.memory blocks) :
    Holds f blocks (empty.listing []) := by
  have hnothing : Holds f blocks 0 :=
    ⟨hp, hw, trivial, Multiset.nodup_zero, funded_of_nonpos le_rfl⟩
  exact ((empty_amounts f blocks).exchanges hnothing).holds hnothing

def allocations (list : DeviceList) (f : Firmware) : List Nat :=
  (list.boxes.place.map Prod.fst).toList ++ (list.boxes.toList f.memory).flatMap fun box =>
    box.address.toNat :: ((Device.ofRecord f box).payload.map (·.address.toNat)).toList

theorem holdings_carries (device : Device) (f : Firmware) :
    (device.carries (device.payload? f.memory)).holdings f =
      ((device.payload.map (·.address.toNat)).toList : Multiset Nat) := by
  unfold Device.carries DeviceRecord.payload?
  cases device.payload <;> rfl

theorem holdings_ofBox (f : Firmware) (box : HeapBox DeviceRecord) :
    (Entry.ofBox f box).deed.holdings f = ((box.address.toNat ::
      ((Device.ofRecord f box).payload.map (·.address.toNat)).toList : List Nat) :
      Multiset Nat) := by
  unfold Entry.ofBox
  generalize Device.ofRecord f box = device
  rw [← Multiset.cons_coe, ← holdings_carries, ← Multiset.singleton_add]
  rfl

theorem holdings_listing (list : DeviceList) (ds : List Description) (f : Firmware) :
    (list.listing ds).holdings f = (list.allocations f : Multiset Nat) := by
  have hentries (boxes : List (HeapBox DeviceRecord)) :
      ((boxes.map (Entry.ofBox f)).map Entry.deed).sum.holdings f =
        ((boxes.flatMap fun box => box.address.toNat ::
          ((Device.ofRecord f box).payload.map (·.address.toNat)).toList : List Nat) :
          Multiset Nat) := by
    induction boxes with
    | nil => rfl
    | cons box rest ih =>
        rw [List.map_cons, List.map_cons, List.sum_cons, Deed.holdings_add, ih, holdings_ofBox,
          List.flatMap_cons, Multiset.coe_add]
  have hstorage : (list.boxes.keeps ((list.entries f).map Entry.box)).holdings f =
      ((list.boxes.place.map Prod.fst).toList : Multiset Nat) := by
    change (Deed.storage list.boxes.place).holdings f + 0 = _
    cases list.boxes.place <;> rfl
  change (list.boxes.keeps _).holdings f + ((list.entries f).map Entry.deed).sum.holdings f = _
  rw [hstorage, allocations, ← Multiset.coe_add]
  exact congrArg _ (hentries _)

def stocked (limit : Nat) (m : Int) (list : DeviceList) (ds : List Description) : Deed :=
  list.listing ds + Deed.fund (m + list.boxes.reserveFor limit) +
    Deed.fact (list.boxes.Within limit)

theorem reserveFor_of_stocked {limit : Nat} {m : Int}
    (hvalid : (stocked limit m list ds).Valid f blocks) (hlength : ds.length ≤ limit) :
    0 ≤ list.boxes.reserveFor limit := by
  obtain ⟨⟨hlisting, -⟩, hwithin⟩ := hvalid
  rw [← length_of_listing hlisting] at hlength
  exact HeapVec.reserveFor_nonneg hlength hwithin

theorem stocked_amounts_fund (limit : Nat) (m : Int) (list : DeviceList) (ds : List Description)
    (f : Firmware) (blocks : List BlockInfo) :
    Amounts f blocks (stocked limit m list ds)
      (Deed.fund (m + list.boxes.reserveFor limit) + list.listing ds) := by
  rw [add_comm]
  exact .of_fact fun _ => .refl _ _ _

theorem stocked_amounts {limit : Nat} (m : Int) (hlength : ds.length ≤ limit) (f : Firmware)
    (blocks : List BlockInfo) :
    Amounts f blocks (stocked limit m list ds) (list.listing ds + Deed.fund m) := by
  intro hv
  have hreserve := reserveFor_of_stocked hv hlength
  have hspare : Amounts f blocks (stocked limit m list ds) (list.listing ds + Deed.fund m) :=
    .of_fact fun _ => (Amounts.refl _ _ _).add (.fund_le (by omega))
  exact hspare hv

def restocked (limit : Nat) (m : Int) (list : DeviceList) (ds : List Description)
    (d : Description) : Except HeapError DeviceList → Deed
  | .ok list' => stocked limit m list' (ds ++ [d])
  | .error error => list.listing ds + Deed.unfunded +
      Deed.fact (error.IsExhaustion ∧ (ds.length ≤ limit → m < 0))

theorem stocked_opened (limit : Nat) (m : Int) (list : DeviceList) (ds : List Description)
    (f : Firmware) (blocks : List BlockInfo) :
    Amounts f blocks (stocked limit m list ds)
      (HeapVec.stocked limit m list.boxes ((list.entries f).map Entry.box) +
        ((list.entries f).map Entry.deed).sum +
        Deed.fact ((list.entries f).map Entry.description = ds)) := by
  have hparts : HeapVec.stocked limit m list.boxes ((list.entries f).map Entry.box) +
      ((list.entries f).map Entry.deed).sum +
        Deed.fact ((list.entries f).map Entry.description = ds) =
      list.holding (list.entries f) + Deed.fact ((list.entries f).map Entry.description = ds) +
        Deed.fund (m + list.boxes.reserveFor limit) +
        Deed.fact (list.boxes.Within limit) := by
    unfold HeapVec.stocked holding
    abel
  rw [hparts]
  exact ((list.amounts_opened ds f blocks).add (.refl _ _ _)).add (.refl _ _ _)

theorem stocked_closed (limit : Nat) (m : Int) (list : DeviceList) (es : List Entry)
    (f : Firmware) (blocks : List BlockInfo) :
    Amounts f blocks
      (HeapVec.stocked limit m list.boxes (es.map Entry.box) + (es.map Entry.deed).sum)
      (stocked limit m list (es.map Entry.description)) := by
  have hparts : HeapVec.stocked limit m list.boxes (es.map Entry.box) +
      (es.map Entry.deed).sum = list.holding es + Deed.fund (m + list.boxes.reserveFor limit) +
        Deed.fact (list.boxes.Within limit) := by
    unfold HeapVec.stocked holding
    abel
  rw [hparts]
  exact ((list.amounts_closed es f blocks).add (.refl _ _ _)).add (.refl _ _ _)

def firstStock (limit : Nat) : Nat := HeapVec.firstStock (HeapBox DeviceRecord) limit

theorem empty_stocked_amounts (limit : Nat) (m : Int) (f : Firmware) (blocks : List BlockInfo) :
    Amounts f blocks (Deed.fund (m + firstStock limit)) (stocked limit m empty []) := by
  have hboxes : Amounts f blocks (Deed.fund (m + firstStock limit))
      (HeapVec.stocked limit m (HeapVec.empty : HeapVec (HeapBox DeviceRecord)) []) :=
    HeapVec.empty_stocked_amounts (by decide) limit m f blocks
  have hclosed := empty.stocked_closed limit m [] f blocks
  rw [List.map_nil, List.map_nil, List.map_nil, List.sum_nil, add_zero] at hclosed
  exact hboxes.trans hclosed

theorem push_delivers {limit : Nat} {m : Int} (e : Entry) :
    Delivers (list.push e.box) f blocks (stocked limit m list ds + e.deed) fun reply _ =>
      restocked limit m list ds e.description reply := by
  have hopened := (list.stocked_opened limit m ds f blocks).add (.refl f blocks e.deed)
  generalize list.entries f = es at hopened
  rw [add_right_comm] at hopened
  refine .amounts (.of_fact ?_) hopened
  rintro rfl
  refine (HeapVec.push_entry_delivers (by decide) (by decide) Entry.budget_deed Entry.drop_delivers
    es e).bind ?_
  rintro (error | boxes) f' blocks' -
  · refine .pure (.of_fact fun hreason => Amounts.and_fact ?_ fun _ => ?_)
    · exact (list.amounts_closed es f' blocks').add (.refl _ _ _)
    · rwa [List.length_map]
  · let list' : DeviceList := ⟨boxes⟩
    have hclosed := list'.stocked_closed limit m (es ++ [e]) f' blocks'
    have hds : (es ++ [e]).map Entry.description = es.map Entry.description ++ [e.description] :=
      List.map_append
    rw [hds] at hclosed
    exact .pure hclosed

theorem sum_deeds_eq {i : Nat} {e : Entry} (he : es[i]? = some e) :
    (es.map Entry.deed).sum = e.deed + ((es.eraseIdx i).map Entry.deed).sum := by
  obtain ⟨hi, rfl⟩ := List.getElem?_eq_some_iff.1 he
  rw [← List.sum_cons, ← List.map_cons]
  exact ((List.getElem_cons_eraseIdx_perm hi).map Entry.deed).symm.sum_eq

theorem sum_deeds_set {i : Nat} {e : Entry} (hi : i < es.length) :
    ((es.set i e).map Entry.deed).sum = e.deed + ((es.eraseIdx i).map Entry.deed).sum := by
  have he : (es.set i e)[i]? = some e := List.getElem?_set_self hi
  rw [sum_deeds_eq he, List.eraseIdx_set_eq]

theorem lookup_of_valid {i : Nat} {d : Description} (hvalid : (list.listing ds).Valid f blocks)
    (hd : ds[i]? = some d) :
    ∃ e : Entry, (list.entries f)[i]? = some e ∧ e.description = d ∧
      list.boxes.readElement i f.memory = e.box ∧
      e.box.read f.memory = e.device.toDeviceRecord ∧ e.device.payload? f.memory = e.payload := by
  obtain ⟨hentries, rfl⟩ := hvalid
  obtain ⟨e, he, hdescription⟩ : ∃ e, (list.entries f)[i]? = some e ∧ e.description = d := by
    unfold descriptions at hd
    rwa [List.getElem?_map, Option.map_eq_some_iff] at hd
  have hbox : (list.boxes.toList f.memory)[i]? = some e.box := by
    obtain ⟨⟨-, hboxes⟩, -⟩ := hentries
    rw [hboxes, List.getElem?_map, he]
    rfl
  have hread : list.boxes.readElement i f.memory = e.box := by
    unfold HeapVec.toList at hbox
    rw [List.getElem?_map, Option.map_eq_some_iff] at hbox
    obtain ⟨j, hj, hread⟩ := hbox
    obtain ⟨hi, hij⟩ := List.getElem?_eq_some_iff.1 hj
    rw [List.getElem_range] at hij
    rwa [hij]
  obtain ⟨⟨-, hdevice⟩, hpayload⟩ := valid_of_mem hentries.2 (List.mem_of_getElem? he)
  exact ⟨e, he, hdescription, hread, congrArg Device.toDeviceRecord hdevice,
    Device.payload?_of_carries hpayload⟩

theorem holdings_holding (list : DeviceList) (es : List Entry) (f f' : Firmware) :
    (list.holding es).holdings f' = (list.holding es).holdings f := by
  have hentry (e : Entry) : e.deed.holdings f' = e.deed.holdings f := by
    unfold Entry.deed Device.carries
    split <;> rfl
  have hentries : (es.map Entry.deed).sum.holdings f' = (es.map Entry.deed).sum.holdings f := by
    induction es with
    | nil => rfl
    | cons e rest ih =>
        rw [List.map_cons, List.sum_cons, Deed.holdings_add, Deed.holdings_add, hentry, ih]
  have hboxes : (list.boxes.keeps (es.map Entry.box)).holdings f' =
      (list.boxes.keeps (es.map Entry.box)).holdings f := by
    change (Deed.storage list.boxes.place).holdings f' + 0 =
      (Deed.storage list.boxes.place).holdings f + 0
    cases list.boxes.place <;> rfl
  unfold holding
  rw [Deed.holdings_add, Deed.holdings_add, hboxes, hentries]

section Access

variable {i : Nat} {e : Entry}

theorem map_box_withAccess (he : es[i]? = some e) (access : DeviceAccess) :
    (es.set i (e.withAccess access)).map Entry.box = es.map Entry.box := by
  have hbox : (es.map Entry.box)[i]? = some e.box := by rw [List.getElem?_map, he]; rfl
  obtain ⟨hi, hsame⟩ := List.getElem?_eq_some_iff.1 hbox
  rw [List.map_set]
  change (es.map Entry.box).set i e.box = _
  rw [← hsame, List.set_getElem_self]

theorem entryAccess_delivers (he : es[i]? = some e) (access : DeviceAccess) :
    Delivers (e.box.set { e.device.toDeviceRecord with access }) f blocks (list.holding es)
      fun _ _ => list.holding (es.set i (e.withAccess access)) := by
  obtain ⟨hi, -⟩ := List.getElem?_eq_some_iff.1 he
  let others : Deed := e.device.carries e.payload + ((es.eraseIdx i).map Entry.deed).sum
  have hparts : list.holding es =
      recorded e.box e.device + (others + list.boxes.keeps (es.map Entry.box)) := by
    unfold holding others
    rw [sum_deeds_eq he, Entry.deed]
    abel
  have hafter : list.holding (es.set i (e.withAccess access)) =
      recorded e.box (e.withAccess access).device +
        (others + list.boxes.keeps (es.map Entry.box)) := by
    unfold holding others
    rw [map_box_withAccess he, sum_deeds_set hi]
    change _ + (recorded e.box _ + e.device.carries e.payload + _) = _
    abel
  rw [hparts, hafter]
  exact (amend_delivers e.box e.device _).frame (.inl le_rfl)

theorem entryAccess_quiet (he : es[i]? = some e) (access : DeviceAccess) {f' : Firmware}
    {blocks' : List BlockInfo} (hs : Holds f blocks (list.holding es))
    (hrun : e.box.set { e.device.toDeviceRecord with access } f = .ok () f')
    (hs' : Holds f' blocks' (list.holding (es.set i (e.withAccess access)))) :
    blocks' = blocks ∧ f'.heap = f.heap ∧
      (list.holding (es.set i (e.withAccess access))).holdings f' =
        (list.holding es).holdings f := by
  obtain ⟨hi, -⟩ := List.getElem?_eq_some_iff.1 he
  obtain ⟨⟨hblock, -⟩, -⟩ := valid_of_mem hs.valid.2 (List.mem_of_getElem? he)
  obtain ⟨hheap, hw⟩ := HeapBox.set_layout hs.placed hs.wellFormed hblock hrun
  have hblocks := hs'.wellFormed.blocks_eq hs'.placed
  rw [hheap, hw.blocks_eq hs.placed] at hblocks
  refine ⟨hblocks.symm, hheap, ?_⟩
  rw [list.holdings_holding _ f f']
  unfold holding
  rw [map_box_withAccess he, sum_deeds_set hi, sum_deeds_eq he]
  rfl

theorem setAccess_delivers {pins : BlockInfo → Prop} (he : (list.entries f)[i]? = some e)
    (access : DeviceAccess) :
    Delivers (e.box.set { e.device.toDeviceRecord with access }) f blocks
      ((list.listing ds).pinned pins) fun _ _ =>
        (list.listing (ds.set i { e.description with access })).pinned pins := by
  refine .of_holds fun hs => ?_
  obtain rfl := hs.valid.1.2
  have hopened : Amounts f blocks (list.listing (list.descriptions f))
      (list.holding (list.entries f)) :=
    (list.amounts_opened _ f blocks).trans (.of_fact fun _ => .refl _ _ _)
  have hset : Delivers (e.box.set { e.device.toDeviceRecord with access }) f blocks
      ((list.holding (list.entries f)).pinned pins) _ :=
    (entryAccess_delivers he access).pinned fun hs _ _ _ => entryAccess_quiet he access hs
  refine hset.conseq (hopened.pinned pins) fun _ f' blocks' => Amounts.pinned ?_ pins
  have hclosed := list.amounts_closed ((list.entries f).set i (e.withAccess access)) f' blocks'
  rwa [List.map_set] at hclosed

end Access

end DeviceList

end EarlyBoot
