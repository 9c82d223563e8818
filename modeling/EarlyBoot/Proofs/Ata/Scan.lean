import EarlyBoot.Proofs.Ata.Probe

/-!
# Scanning for IDE controllers

The scan goes over a device list.  Every IDE controller in it is switched to
port access, and there is one controller for each of them, in the order of the
list.  If a controller finds no room, those before it are released.  The list
itself stays in its blocks, whatever becomes of the controllers.
-/

namespace EarlyBoot

open MachineM (PortOnly)

variable {β : Type} {machine : Machine β} {f : Firmware} {blocks : List BlockInfo} {n m : Int}
  {limit : Nat} {v : HeapVec IdeController} {cs : List IdeController} {ds : List Description}

theorem PciFunction.isIdeController_iff (function : PciFunction) :
    function.isIdeController = true ↔ function.classCode = 0x01 ∧
      (function.subclass = 0x01 ∨ function.subclass = 0x05 ∨ function.subclass = 0x06) := by
  unfold isIdeController classMassStorage subclassIde subclassAta subclassSata
  simp only [Bool.and_eq_true, Bool.or_eq_true, beq_iff_eq, or_assoc]

namespace Description

/-- The function of a device that is an IDE controller: class 1 with subclass 1, 5 or 6. -/
def ide? (d : Description) : Option PciFunction :=
  match d.payload with
  | some (.pci function) =>
      if function.classCode = 0x01 ∧ (function.subclass = 0x01 ∨ function.subclass = 0x05 ∨
        function.subclass = 0x06) then some function else none
  | _ => none

theorem ide?_of_pci {d : Description} {function : PciFunction}
    (hpci : d.payload = some (.pci function)) :
    d.ide? = if function.isIdeController then some function else none := by
  unfold ide?
  rw [hpci]
  simp only [PciFunction.isIdeController_iff]

theorem ide?_of_other {d : Description} (hother : ∀ function, d.payload ≠ some (.pci function)) :
    d.ide? = none := by
  unfold ide?
  split
  next function hpci => exact absurd hpci (hother function)
  next => rfl

def scanned (d : Description) : Description :=
  if d.ide?.isSome then { d with access := .pio } else d

theorem scanned_of_some {d : Description} {function : PciFunction}
    (hide : d.ide? = some function) : d.scanned = { d with access := .pio } := by
  unfold scanned
  rw [hide]
  rfl

theorem scanned_of_none {d : Description} (hnone : d.ide? = none) : d.scanned = d := by
  unfold scanned
  rw [hnone]
  rfl

end Description

namespace Ata

/-! ## Vectors of controllers -/

def holding (v : HeapVec IdeController) (functions : List PciFunction) : Deed :=
  (deed v).showing (fun f => (v.toList f.memory).map IdeController.function = functions)
    fun h hvalid hapart hlist => by
      have hsame := h.sameAt hvalid.1.1 fun p hp => hapart p (Multiset.mem_add.2 (.inl hp))
      rw [HeapVec.toList_congr hvalid.2 hsame]
      exact hlist

@[simp] theorem budget_holding (v : HeapVec IdeController) (functions : List PciFunction) :
    (holding v functions).budget = 0 := rfl

theorem drop_delivers (v : HeapVec IdeController) (functions : List PciFunction) (f : Firmware)
    (blocks : List BlockInfo) :
    Delivers (Owned.drop v) f blocks (holding v functions) fun _ _ => 0 :=
  (EarlyBoot.drop_delivers v f blocks).amounts (.of_showing fun _ => .refl _ _ _)

theorem holding_closed (v : HeapVec IdeController) (cs : List IdeController) (f : Firmware)
    (blocks : List BlockInfo) :
    Amounts f blocks (v.keeps cs + deed cs) (holding v (cs.map IdeController.function)) := by
  refine (v.amounts_closed cs f blocks).showing fun hv => ?_
  rw [hv.1.2]

def stocked (limit : Nat) (m : Int) (v : HeapVec IdeController) (cs : List IdeController) :
    Deed :=
  HeapVec.stocked limit m v cs + deed cs

theorem stocked_eq (limit : Nat) (m : Int) (v : HeapVec IdeController) (cs : List IdeController) :
    stocked limit m v cs = Deed.fund (m + v.reserveFor limit) + (v.keeps cs + deed cs) +
      Deed.fact (v.Within limit) := by
  unfold stocked HeapVec.stocked
  abel

theorem stocked_toList (limit : Nat) (m : Int) (v : HeapVec IdeController)
    (cs : List IdeController) (f : Firmware) (blocks : List BlockInfo) :
    Amounts f blocks (stocked limit m v cs)
      (stocked limit m v (v.toList f.memory) + Deed.fact (v.toList f.memory = cs)) := by
  intro hv
  have hlist : v.toList f.memory = cs := hv.1.1.1.2
  rw [hlist]
  exact (Amounts.refl _ _ _).and_fact (fun _ => rfl) hv

theorem push_delivers (cs : List IdeController) (controller : IdeController) :
    Delivers (v.push controller) f blocks (stocked limit m v cs + deed controller) fun reply _ =>
      HeapVec.restockedWith limit m v id deed cs controller reply := by
  have hstart : stocked limit m v cs + deed controller =
      HeapVec.stocked limit m v (cs.map id) + (cs.map deed).sum + deed controller := by
    rw [List.map_id]
    rfl
  rw [hstart]
  exact HeapVec.push_entry_delivers (by decide) (by decide) HasDeed.budget_deed
    EarlyBoot.drop_delivers cs controller

def restocked (limit : Nat) (m : Int) (v : HeapVec IdeController) (cs : List IdeController)
    (count : Nat) (Surveyed : List IdeController → HeapVec IdeController → Machine β → Prop)
    (refused : Prop) : Except HeapError (HeapVec IdeController) → Machine β → Deed
  | .ok v', machine' =>
      stocked limit (m - controllerCharge * count) v' (v'.toList machine'.firmware.memory) +
        Deed.fact (∃ new, v'.toList machine'.firmware.memory = cs ++ new ∧
          Surveyed new v' machine')
  | .error error, _ => v.keeps cs + deed cs + Deed.unfunded +
      Deed.fact (error.IsExhaustion ∧ Short controllerCharge limit m cs.length count ∧ refused)

theorem restocked_mono {count : Nat} {machine' : Machine β} {refused refused' : Prop}
    {Surveyed Surveyed' : List IdeController → HeapVec IdeController → Machine β → Prop}
    (himp : ∀ new v' machine', Surveyed new v' machine' → Surveyed' new v' machine')
    (himp' : refused → refused')
    (reply : Except HeapError (HeapVec IdeController)) (f : Firmware) (blocks : List BlockInfo) :
    Amounts f blocks (restocked limit m v cs count Surveyed refused reply machine')
      (restocked limit m v cs count Surveyed' refused' reply machine') := by
  cases reply with
  | error error =>
      refine .of_fact fun ⟨hexhausted, hshort, hrefused⟩ => ?_
      refine (Amounts.refl _ _ _).and_fact fun _ => ?_
      exact ⟨hexhausted, hshort, himp' hrefused⟩
  | ok v' =>
      refine .of_fact fun ⟨new, hlist, hsurveyed⟩ => (Amounts.refl _ _ _).and_fact fun _ => ?_
      exact ⟨new, hlist, himp _ _ _ hsurveyed⟩

section Adding

variable [PortBus β]

theorem file_delivers (function : PciFunction) (cs : List IdeController) :
    Delivers (probeController function >>= fun controller => liftM (v.push controller))
      machine blocks (stocked limit m v cs) fun reply machine' =>
        restocked limit m v cs 1 (fun new v' machine' =>
          ∃ controller, new = [controller] ∧ Filed function v machine controller v' machine')
          (∃ controller machine₁, ControllerSurvey function machine controller machine₁ ∧
            ¬ v.Extensible machine₁.firmware) reply machine' := by
  have hkept : 0 ≤ (v.keeps cs + deed cs).budget := by simp
  rw [stocked_eq]
  refine .of_fact fun hwithin => ?_
  refine (probeController_delivers function).bind_frame (.inr hkept) ?_
  rintro controller machine₁ blocks₁ -
  rw [add_right_comm]
  refine .of_fact fun hcontroller => ?_
  have hleft : m + v.reserveFor limit - controllerCharge =
      m - controllerCharge + v.reserveFor limit := by omega
  have hstart : Amounts machine₁.firmware blocks₁
      (deed controller + Deed.fund (m + v.reserveFor limit - controllerCharge) +
        (v.keeps cs + deed cs)) (stocked limit (m - controllerCharge) v cs + deed controller) := by
    have hparts : deed controller + Deed.fund (m - controllerCharge + v.reserveFor limit) +
        (v.keeps cs + deed cs) =
        Deed.fund (m - controllerCharge + v.reserveFor limit) + (v.keeps cs + deed cs) +
          deed controller := by abel
    rw [hleft, hparts, stocked_eq]
    exact ((Amounts.refl _ _ _).and_fact fun _ => hwithin).add (.refl _ _ _)
  refine .amounts ?_ hstart
  refine (push_delivers cs controller).running.lift.leaving ?_
  rintro reply ⟨f', bus, trace⟩ blocks'
  refine .of_fact ?_
  rintro ⟨rfl, rfl⟩
  refine .of_fact fun hpush => ?_
  cases reply with
  | error error =>
      have hfull := HeapVec.not_extensible_of_push hpush
      refine .of_fact fun ⟨hexhausted, hless⟩ => Amounts.and_fact ?_ fun _ =>
        ⟨hexhausted, ?_, controller, machine₁, hcontroller, hfull⟩
      · rw [List.map_id]
        exact .refl _ _ _
      · intro hlength
        have hcharge := hless (by omega)
        omega
  | ok v' =>
      have hfound : HeapVec.restockedWith limit (m - controllerCharge) v id deed cs controller
          (.ok v') = stocked limit (m - controllerCharge * (1 : Nat)) v' (cs ++ [controller]) := by
        change HeapVec.stocked limit _ v' ((cs ++ [controller]).map id) + _ = _
        rw [List.map_id, Nat.cast_one, mul_one]
        rfl
      rw [hfound]
      refine (stocked_toList _ _ _ _ _ _).trans (.of_fact fun hlist => ?_)
      exact (Amounts.refl _ _ _).and_fact fun _ =>
        ⟨[controller], hlist, controller, rfl, .intro hcontroller hpush⟩

end Adding

/-! ## The scan -/

variable {devices : DeviceList} {pins : BlockInfo → Prop} [PortBus β]

theorem restocked_same (limit : Nat) (m : Int) (v : HeapVec IdeController)
    (cs : List IdeController) :
    Amounts machine.firmware blocks (stocked limit m v cs)
      (restocked limit m v cs 0 (ScanSurvey v machine []) (Overflows v machine []) (.ok v)
        machine) := by
  have hall : m - controllerCharge * (0 : Nat) = m := by omega
  unfold restocked
  rw [hall]
  refine (stocked_toList _ _ _ _ _ _).trans (.of_fact fun hlist => ?_)
  exact (Amounts.refl _ _ _).and_fact fun _ =>
    ⟨[], hlist.trans (List.append_nil cs).symm, .nil v machine⟩

theorem pass_delivers {i : Nat} {d : Description} (hd : ds[i]? = some d) (hnone : d.ide? = none)
    (cs : List IdeController) :
    Delivers (pure (.ok v)) machine blocks
      ((devices.listing ds).pinned pins + stocked limit m v cs) fun reply machine' =>
        (devices.listing (ds.set i d.scanned)).pinned pins +
          restocked limit m v cs d.ide?.toList.length (ScanSurvey v machine d.ide?.toList)
            (Overflows v machine d.ide?.toList) reply machine' := by
  obtain ⟨hi, hsame⟩ := List.getElem?_eq_some_iff.1 hd
  have hset : ds.set i d = ds := by rw [← hsame, List.set_getElem_self]
  rw [Description.scanned_of_none hnone, hset, hnone]
  exact .pure ((Amounts.refl _ _ _).add (restocked_same limit m v cs))

theorem scanDevice_delivers {i : Nat} {d : Description} (hd : ds[i]? = some d)
    (cs : List IdeController) :
    Delivers (scanDevice devices v i) machine blocks
      ((devices.listing ds).pinned pins + stocked limit m v cs) fun reply machine' =>
        (devices.listing (ds.set i d.scanned)).pinned pins +
          restocked limit m v cs d.ide?.toList.length (ScanSurvey v machine d.ide?.toList)
            (Overflows v machine d.ide?.toList) reply machine' := by
  refine .of_holds fun hs => ?_
  -- what the scan reads of the device is what the list is known to hold
  obtain ⟨e, he, rfl, hbox, hread, hpayload⟩ := DeviceList.lookup_of_valid hs.valid.1.1 hd
  have hlook : ∀ {α : Type} (query : Memory → α), (liftM (FirmwareM.look query) : MachineM β α)
      machine = .ok (query machine.firmware.memory) machine := fun _ => rfl
  unfold scanDevice
  refine .bind_ok (hlook _) ?_ rfl
  refine .bind_ok (hlook _) ?_ rfl
  refine .bind_ok (hlook _) ?_ rfl
  change devices.boxes.readElement i machine.firmware.memory = _ at hbox
  change e.box.read machine.firmware.memory = _ at hread
  change e.device.toDeviceRecord.payload? machine.firmware.memory = _ at hpayload
  rw [hbox, hread, hpayload]
  split
  next function hpci =>
    have hide : e.description.ide? = _ := Description.ide?_of_pci hpci
    split
    next hcontroller =>
      rw [if_pos hcontroller] at hide
      rw [Description.scanned_of_some hide, hide]
      have hset : Delivers (e.box.set { e.device.toDeviceRecord with access := .pio })
          machine.firmware blocks ((devices.listing ds).pinned pins) _ :=
        (DeviceList.setAccess_delivers he .pio).running
      refine hset.lift_bind_frame (.inl le_rfl) fun _ f' blocks' => ?_
      rw [add_right_comm]
      refine .of_fact fun hrun => ?_
      rw [add_comm]
      refine ((file_delivers function cs).frame (.inr le_rfl)).leaving fun reply _ _ => ?_
      rw [add_comm]
      refine (Amounts.refl _ _ _).add (restocked_mono ?_ ?_ reply _ _)
      · rintro _ v' machine' ⟨controller, rfl, hfiled⟩
        exact .cons hread hrun hfiled (.nil v' machine')
      · rintro ⟨controller, machine₁, hcontroller, hfull⟩
        exact .intro (List.prefix_refl _) (.nil v machine) hread hrun hcontroller hfull
    next hcontroller => exact pass_delivers hd (hide.trans (if_neg hcontroller)) cs
  next hother => exact pass_delivers hd (Description.ide?_of_other hother) cs

def listed (devices : DeviceList) (pins : BlockInfo → Prop) (done rest : List Description)
    (f : Firmware) : Deed :=
  (devices.listing (devices.descriptions f)).pinned pins +
    Deed.fact (∃ passed left, rest = passed ++ left ∧
      devices.descriptions f = done ++ passed.map Description.scanned ++ left)

theorem listed_amounts (devices : DeviceList) (pins : BlockInfo → Prop)
    (done passed left : List Description) (f : Firmware) (blocks : List BlockInfo) :
    Amounts f blocks
      ((devices.listing (done ++ passed.map Description.scanned ++ left)).pinned pins)
      (listed devices pins done (passed ++ left) f) := by
  intro hv
  have hds : devices.descriptions f = _ := hv.1.2
  unfold listed
  rw [hds]
  exact (Amounts.refl _ _ _).and_fact (fun _ => ⟨passed, left, rfl, rfl⟩) hv

/--
What is left of a scan over a part of the list; controllers that were found
before an error are gone.
-/
def surveyed (limit : Nat) (m : Int) (devices : DeviceList) (pins : BlockInfo → Prop)
    (done part rest : List Description) (v : HeapVec IdeController) (cs : List IdeController)
    (machine : Machine β) : Except HeapError (HeapVec IdeController) → Machine β → Deed
  | .ok v', machine' =>
      (devices.listing (done ++ part.map Description.scanned ++ rest)).pinned pins +
        restocked limit m v cs (part.filterMap Description.ide?).length
          (ScanSurvey v machine (part.filterMap Description.ide?))
          (Overflows v machine (part.filterMap Description.ide?)) (.ok v') machine'
  | .error error, machine' =>
      listed devices pins done (part ++ rest) machine'.firmware + Deed.unfunded +
        Deed.fact (error.IsExhaustion ∧
          Short controllerCharge limit m cs.length (part.filterMap Description.ide?).length ∧
          Overflows v machine (part.filterMap Description.ide?))

section Parts

variable {done first second rest : List Description} {machine machine₁ machine' : Machine β}
  {v₁ : HeapVec IdeController} {new : List IdeController}

theorem surveyed_error (error : HeapError) :
    Amounts f blocks
      (surveyed limit m devices pins done first (second ++ rest) v cs machine (.error error)
        machine')
      (surveyed limit m devices pins done (first ++ second) rest v cs machine (.error error)
        machine') := by
  refine .of_fact fun ⟨hexhausted, hshort, hoverflows⟩ => Amounts.and_fact ?_ fun _ =>
    ⟨hexhausted, ?_⟩
  · rw [List.append_assoc]
    exact .refl _ _ _
  · rw [List.filterMap_append, List.length_append]
    exact ⟨hshort.left, hoverflows.head _⟩

theorem surveyed_append (reply : Except HeapError (HeapVec IdeController))
    (hfirst : ScanSurvey v machine (first.filterMap Description.ide?) new v₁ machine₁) :
    Amounts f blocks
      (surveyed limit (m - controllerCharge * (first.filterMap Description.ide?).length) devices
        pins (done ++ first.map Description.scanned) second rest v₁ (cs ++ new) machine₁ reply
        machine')
      (surveyed limit m devices pins done (first ++ second) rest v cs machine reply machine') := by
  have hcount : new.length = (first.filterMap Description.ide?).length := by
    rw [← hfirst.functions_eq, List.length_map]
  cases reply with
  | error error =>
      refine .of_fact fun ⟨hexhausted, hshort, hoverflows⟩ => Amounts.and_fact ?_ fun _ =>
        ⟨hexhausted, ?_⟩
      · refine Amounts.add (.of_fact fun ⟨passed, left, hrest, hds⟩ => ?_) (.refl _ _ _)
        refine (Amounts.refl _ _ _).and_fact fun _ => ⟨first ++ passed, left, ?_, ?_⟩
        · rw [List.append_assoc, hrest, List.append_assoc]
        · rw [hds, List.map_append, List.append_assoc done]
      · rw [List.length_append, hcount] at hshort
        rw [List.filterMap_append, List.length_append]
        exact ⟨hshort.right, .tail hfirst hoverflows⟩
  | ok v' =>
      have hlength : (first.filterMap Description.ide? ++
          second.filterMap Description.ide?).length = _ + _ := List.length_append
      simp only [surveyed, restocked]
      rw [List.filterMap_append, hlength, ← sub_shares, List.map_append, ← List.append_assoc done]
      refine (Amounts.refl _ _ _).add (.of_fact fun ⟨more, hlist, hmore⟩ => ?_)
      refine (Amounts.refl _ _ _).and_fact fun _ => ⟨new ++ more, ?_, hfirst.append hmore⟩
      rw [hlist, List.append_assoc]

end Parts

theorem guardedDevice_delivers (done : List Description) (d : Description)
    (rest : List Description) (cs : List IdeController) :
    Delivers (MachineM.guarding (Owned.drop v) (scanDevice devices v done.length)) machine blocks
      ((devices.listing (done ++ d :: rest)).pinned pins + stocked limit m v cs)
      fun reply machine' =>
        surveyed limit m devices pins done [d] rest v cs machine reply machine' := by
  have hplace : (done ++ d :: rest)[done.length]? = some d := by simp
  have hset : (done ++ d :: rest).set done.length d.scanned =
      done ++ [d].map Description.scanned ++ rest := by simp
  have hfound : [d].filterMap Description.ide? = d.ide?.toList := by
    rw [List.filterMap_cons]
    cases d.ide? <;> rfl
  refine (scanDevice_delivers hplace cs).guarding ?_ ?_
  · intro v' machine' blocks'
    unfold surveyed
    rw [hset, hfound]
    exact .refl _ _ _
  · intro error machine' blocks'
    have hparts : (devices.listing ((done ++ d :: rest).set done.length d.scanned)).pinned pins +
        restocked limit m v cs d.ide?.toList.length (ScanSurvey v machine d.ide?.toList)
          (Overflows v machine d.ide?.toList) (.error error) machine' =
        v.keeps cs + deed cs + ((devices.listing (done ++ [d].map Description.scanned ++
          rest)).pinned pins + Deed.unfunded + Deed.fact (error.IsExhaustion ∧
            Short controllerCharge limit m cs.length ([d].filterMap Description.ide?).length ∧
            Overflows v machine ([d].filterMap Description.ide?))) := by
      rw [hset, hfound]
      change _ + (v.keeps cs + deed cs + Deed.unfunded + Deed.fact _) = _
      abel
    -- if this controller finds no room, those before it are released
    have hdrop : Delivers (Owned.drop v) machine'.firmware blocks' (v.keeps cs + deed cs) _ :=
      HeapVec.drop_delivers (HasDeed.budget_deed _) (dropAll_deed_delivers cs) _ _
    rw [hparts]
    refine (hdrop.frame (.inl (by simp))).leaving fun _ f' blocks'' => ?_
    rw [zero_add]
    exact ((listed_amounts devices pins done [d] rest f' blocks'').add (.refl _ _ _)).add
      (.refl _ _ _)

theorem scanFrom_delivers (done part rest : List Description) (cs : List IdeController) :
    Delivers (scanFrom devices v (List.range' done.length part.length)) machine blocks
      ((devices.listing (done ++ part ++ rest)).pinned pins + stocked limit m v cs)
      fun reply machine' =>
        surveyed limit m devices pins done part rest v cs machine reply machine' := by
  -- on the devices that are left; those already looked at stay as they are
  induction part generalizing done v cs m machine blocks with
  | nil =>
      refine .pure (Amounts.add ?_ (restocked_same limit m v cs))
      rw [List.map_nil]
      exact .refl _ _ _
  | cons d part ih =>
      rw [List.length_cons, List.range'_succ, List.append_assoc]
      refine (guardedDevice_delivers done d (part ++ rest) cs).bind ?_
      rintro (error | v₁) machine₁ blocks₁ -
      · exact .pure (surveyed_error error)
      · have hparts : surveyed limit m devices pins done [d] (part ++ rest) v cs machine (.ok v₁)
            machine₁ = (devices.listing (done ++ [d].map Description.scanned ++
              (part ++ rest))).pinned pins + stocked limit
                (m - controllerCharge * ([d].filterMap Description.ide?).length) v₁
                (v₁.toList machine₁.firmware.memory) +
              Deed.fact (∃ new, v₁.toList machine₁.firmware.memory = cs ++ new ∧
                ScanSurvey v machine ([d].filterMap Description.ide?) new v₁ machine₁) :=
          (add_assoc _ _ _).symm
        rw [hparts]
        refine .of_fact fun ⟨new, hlist, hfirst⟩ => ?_
        rw [hlist, ← List.append_assoc]
        have hrest : Delivers (scanFrom devices v₁ (List.range'
            (done ++ [d].map Description.scanned).length part.length)) machine₁ blocks₁
            ((devices.listing (done ++ [d].map Description.scanned ++ part ++ rest)).pinned pins +
              stocked limit (m - controllerCharge * ([d].filterMap Description.ide?).length) v₁
                (cs ++ new)) _ :=
          ih (done ++ [d].map Description.scanned) (cs ++ new)
        rw [List.length_append] at hrest
        exact hrest.leaving fun reply machine' blocks' => surveyed_append reply hfirst

theorem scanControllers_surveys (limit : Nat) :
    Delivers (scanControllers devices) machine blocks
      ((devices.listing ds).pinned pins + Deed.fund n) fun reply machine' =>
        surveyed limit (n - HeapVec.firstStock IdeController limit) devices pins [] ds [] .empty []
          machine reply machine' := by
  refine .of_holds fun hs => ?_
  have hlength : devices.length = ds.length := DeviceList.length_of_listing hs.valid.1.1
  let m : Int := n - HeapVec.firstStock IdeController limit
  have hstock : Amounts machine.firmware blocks (Deed.fund n) (stocked limit m .empty []) := by
    have hempty : stocked limit m .empty [] = HeapVec.stocked limit m .empty [] := add_zero _
    have hall : n = m + HeapVec.firstStock IdeController limit := by
      unfold m
      omega
    rw [hempty, hall]
    exact HeapVec.empty_stocked_amounts (by decide) limit m _ _
  have hscan : Delivers (scanFrom devices .empty
      (List.range' ([] : List Description).length ds.length)) machine blocks
      ((devices.listing ([] ++ ds ++ [])).pinned pins + stocked limit m .empty []) _ :=
    scanFrom_delivers [] ds [] []
  rw [List.append_nil] at hscan
  unfold scanControllers
  rw [hlength, List.range_eq_range']
  exact hscan.amounts ((Amounts.refl _ _ _).add hstock)

def looked (devices : DeviceList) (ds : List Description) (machine : Machine β) :
    Except HeapError (HeapVec IdeController) → Machine β → Deed
  | .ok controllers, _ => devices.listing (ds.map Description.scanned) +
      holding controllers (ds.filterMap Description.ide?) + Deed.unfunded
  | .error error, machine' => devices.listing (devices.descriptions machine'.firmware) +
      Deed.unfunded + Deed.fact (error.IsExhaustion ∧
        Overflows .empty machine (ds.filterMap Description.ide?))

theorem scanControllers_delivers :
    Delivers (scanControllers devices) machine blocks (devices.listing ds + Deed.fund n)
      fun reply machine' => looked devices ds machine reply machine' := by
  have hpin := Amounts.pin (devices.listing ds) machine.firmware blocks
  refine (scanControllers_surveys (ds.filterMap Description.ide?).length).conseq
    (hpin.add (.refl _ _ _)) ?_
  rintro (error | controllers) machine' blocks'
  · refine .of_fact fun ⟨hexhausted, _, hoverflows⟩ => Amounts.and_fact ?_ fun _ =>
      ⟨hexhausted, hoverflows⟩
    exact Amounts.add (.of_fact fun _ => .unpin _ _ _ _) (.refl _ _ _)
  · have hparts : looked devices ds machine (.ok controllers) machine' =
        devices.listing ([] ++ ds.map Description.scanned ++ []) +
          (Deed.unfunded + holding controllers (ds.filterMap Description.ide?)) := by
      rw [List.append_nil, List.nil_append, add_comm Deed.unfunded, ← add_assoc]
      rfl
    rw [hparts]
    refine Amounts.add (.unpin _ _ _ _) (.of_fact ?_)
    rintro ⟨new, hlist, hsurvey⟩
    rw [hlist, stocked_eq, ← hsurvey.functions_eq]
    exact .of_fact fun _ => (Amounts.unfunded _ rfl).add (holding_closed controllers new _ _)

end Ata

end EarlyBoot
