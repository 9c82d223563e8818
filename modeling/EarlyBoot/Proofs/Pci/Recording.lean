import EarlyBoot.Pci.Enumerate
import EarlyBoot.Proofs.BringUp.Device

/-!
# Recording PCI functions

A scan reaches ports and records what it finds.  Which functions it finds, how
it leaves the bus and which accesses it makes depend on the bus alone; the heap
decides no more than how far it gets.  The findings of two scans in a row are
those of the first followed by those of the second.
-/

namespace EarlyBoot

open BlockHeap (charge)
open HasFirmware (firmware)
open MachineM (Answers PortOnly)

namespace DeviceList

variable {list : DeviceList} {ds : List Description} {limit : Nat} {m : Int}

def payloadCharge : Nat := charge (Stored.size Payload)

def recordCharge : Nat := charge (Stored.size DeviceRecord)

def deviceCharge : Nat := recordCharge + payloadCharge

theorem stocked_amounts_bare {device : Device} (hbare : device.payload = none) (limit : Nat)
    (m : Int) (list : DeviceList) (ds : List Description) (f : Firmware)
    (blocks : List BlockInfo) :
    Amounts f blocks (stocked limit m list ds)
      (device.carries none + Deed.fund (m + list.boxes.reserveFor limit) + list.listing ds) := by
  have hnothing : device.carries none = 0 := by
    unfold Device.carries
    rw [hbare]
  rw [hnothing, zero_add]
  exact list.stocked_amounts_fund limit m ds f blocks

theorem short_of_lt {f : Firmware} {blocks : List BlockInfo} {part : Nat}
    (hvalid : (stocked limit m list ds).Valid f blocks) (hpart : part ≤ deviceCharge)
    (hless : m + list.boxes.reserveFor limit < part) :
    Short deviceCharge limit m ds.length 1 := by
  intro hlength
  have hreserve := reserveFor_of_stocked hvalid (by omega)
  omega

end DeviceList

open DeviceList (deviceCharge payloadCharge recordCharge)

variable {β α γ : Type} {machine : Machine β} {f f₁ f' : Firmware} {blocks : List BlockInfo}
  {list list₁ list' : DeviceList} {ds : List Description} {limit : Nat} {m : Int}
  {bus bus₁ bus₂ : β} {d : Deed} {fs gs : List PciFunction} {first second : List Access}

instance : HasFirmware (DeviceList × Machine β) := ⟨fun s => s.2.firmware⟩

/-! ## Steps of a scan -/

namespace Delivers

variable {left : α → Machine β → Deed} {k : α → PciScanM β γ}
  {last : Except PciError γ → DeviceList × Machine β → Deed}

theorem scan_bind {x : PciScanM β α} {s : DeviceList × Machine β}
    {left : Except PciError α → DeviceList × Machine β → Deed} (hx : Delivers x.run s blocks d left)
    (hok : ∀ r s' blocks', Delivers (k r).run s' blocks' (left (.ok r) s') last)
    (herror : ∀ error s' blocks',
      Amounts (firmware s') blocks' (left (.error error) s') (last (.error error) s')) :
    Delivers (x >>= k).run s blocks d last := by
  refine Delivers.bind hx ?_
  rintro (error | r) s' blocks' -
  · exact .pure (herror error s' blocks')
  · exact hok r s' blocks'

theorem on_list_bind {x : ListingM β α} {s : DeviceList × Machine β}
    {left : α → DeviceList × Machine β → Deed} (hx : Delivers x s blocks d left)
    (hk : ∀ r s' blocks', Delivers (k r).run s' blocks' (left r s') last) :
    Delivers (ExceptT.lift x >>= k : PciScanM β γ).run s blocks d last := by
  intro hs
  obtain ⟨r, s₁, blocks₁, hrun, h⟩ := hx hs
  obtain ⟨r', s₂, blocks₂, hrun', h'⟩ := hk r s₁ blocks₁ (h.holds hs)
  refine ⟨r', s₂, blocks₂, ?_, h.trans h'⟩
  change EStateM.bind (EStateM.bind x _) _ s = _
  unfold EStateM.bind
  rw [hrun]
  exact hrun'

theorem on_machine_bind {x : MachineM β α} (hx : Delivers x machine blocks d left)
    (hk : ∀ r machine' blocks',
      Delivers (k r).run (list, machine') blocks' (left r machine') last) :
    Delivers (Pci.onMachine x >>= k).run (list, machine) blocks d last := by
  have hlift : Delivers (liftM x : ListingM β α) (list, machine) blocks d fun r s' =>
      left r s'.2 + Deed.fact (s'.1 = list) := by
    intro hs
    obtain ⟨r, machine', blocks', hrun, h⟩ := hx hs
    refine ⟨r, (list, machine'), blocks', ?_, ?_⟩
    · simp only [liftM, monadLift, MonadLift.monadLift, hrun]
    · have hsame : Amounts machine'.firmware blocks' (left r machine')
          (left r machine' + Deed.fact (list = list)) :=
        (Amounts.refl _ _ _).and_fact fun _ => rfl
      exact h.trans (hsame.exchanges (h.holds hs))
  refine on_list_bind hlift ?_
  rintro r ⟨list', machine'⟩ blocks'
  refine .of_fact ?_
  rintro rfl
  exact hk r machine' blocks'

theorem on_firmware_bind {x : FirmwareM α} {left : α → Firmware → Deed}
    (hx : Delivers x machine.firmware blocks d left)
    (hk : ∀ r f' blocks',
      Delivers (k r).run (list, { machine with firmware := f' }) blocks' (left r f') last) :
    Delivers (Pci.onMachine (liftM x) >>= k).run (list, machine) blocks d last := by
  refine on_machine_bind hx.lift ?_
  rintro r ⟨f', bus, trace⟩ blocks'
  refine .of_fact ?_
  rintro ⟨rfl, rfl⟩
  exact hk r f' blocks'

theorem allocated_bind {address : PciAddress} {reply : Except HeapError α}
    {s : DeviceList × Machine β}
    (hok : ∀ r, reply = .ok r → Delivers (k r).run s blocks d last)
    (herror : ∀ error, reply = .error error →
      Amounts (firmware s) blocks d (last (.error (.allocate address error)) s)) :
    Delivers (Pci.allocated address reply >>= k).run s blocks d last := by
  cases reply with
  | ok r => exact hok r rfl
  | error error => exact .pure (herror error rfl)

end Delivers

def DeviceList.listed (limit : Nat) (m : Int) (list : DeviceList) (ds : List Description)
    (e : Entry) (machine : Machine β) : Except HeapError Unit → DeviceList × Machine β → Deed
  | .ok (), (list', machine') => list'.stocked limit m (ds ++ [e.description]) +
      Deed.fact (list.push e.box machine.firmware = .ok (.ok list') machine'.firmware ∧
        machine'.bus = machine.bus ∧ machine'.trace = machine.trace)
  | .error error, (list', _) => list'.listing ds + Deed.unfunded +
      Deed.fact (list' = list ∧ error.IsExhaustion ∧ (ds.length ≤ limit → m < 0) ∧
        ¬ list.boxes.Extensible machine.firmware)

theorem ListingM.push_delivers (e : Entry) :
    Delivers (ListingM.push e.box) (list, machine) blocks (list.stocked limit m ds + e.deed)
      fun reply s' => DeviceList.listed limit m list ds e machine reply s' := by
  intro hs
  obtain ⟨f, bus, trace⟩ := machine
  obtain ⟨reply, f', blocks', hrun, h⟩ := (list.push_delivers (f := f) e).run_firmware hs
  cases reply with
  | error error =>
      refine ⟨.error error, (list, ⟨f', bus, trace⟩), blocks', ?_, ?_⟩
      · unfold ListingM.push
        dsimp only
        rw [hrun]
      · have hleft : Amounts f' blocks' (DeviceList.restocked limit m list ds e.description
            (.error error)) (DeviceList.listed limit m list ds e ⟨f, bus, trace⟩ (.error error)
              (list, ⟨f', bus, trace⟩)) := by
          refine .of_fact fun ⟨hexhausted, hless⟩ => (Amounts.refl _ _ _).and_fact fun _ => ?_
          exact ⟨rfl, hexhausted, hless, DeviceList.not_extensible_of_push hrun⟩
        exact h.trans (hleft.exchanges (h.holds hs))
  | ok list' =>
      refine ⟨.ok (), (list', ⟨f', bus, trace⟩), blocks', ?_, ?_⟩
      · unfold ListingM.push
        dsimp only
        rw [hrun]
      · have hleft : Amounts f' blocks' (list'.stocked limit m (ds ++ [e.description]))
            (DeviceList.listed limit m list ds e ⟨f, bus, trace⟩ (.ok ())
              (list', ⟨f', bus, trace⟩)) := (Amounts.refl _ _ _).and_fact fun _ => ⟨hrun, rfl, rfl⟩
        exact h.trans (hleft.exchanges (h.holds hs))

/-! ## What a scan finds -/

theorem PciFunction.isBridge_iff (fn : PciFunction) :
    fn.isBridge = true ↔ fn.classCode = 0x06 ∧ fn.subclass = 0x04 := by
  unfold isBridge classBridge subclassPciBridge
  rw [Bool.and_eq_true, beq_iff_eq, beq_iff_eq]

namespace Pci

/-- How a function is recorded; class 6 and subclass 4 make it a bridge. -/
def describe (fn : PciFunction) : Description :=
  ⟨PciFunction.className fn.classCode fn.subclass, .present,
    if fn.classCode = 0x06 ∧ fn.subclass = 0x04 then .bridge else .mmio, some (.pci fn)⟩

def deviceOf (fn : PciFunction) : Device :=
  { name := PciFunction.className fn.classCode fn.subclass, status := .present,
    access := if fn.isBridge then .bridge else .mmio, payload := none }

theorem description_deviceOf (fn : PciFunction) :
    (deviceOf fn).description (some (.pci fn)) = describe fn := by
  unfold describe deviceOf Device.description
  simp only [PciFunction.isBridge_iff]

/-- A function gets its payload, its record and its place in the list. -/
inductive Kept (fn : PciFunction) (list : DeviceList) (f : Firmware) (list' : DeviceList)
    (f' : Firmware) : Prop
  | intro {device : Device} {box : HeapBox DeviceRecord} {f₁ f₂ : Firmware}
      (hattach : (deviceOf fn).attach (.pci fn) f = .ok (.ok device) f₁)
      (hrecord : device.toRecord f₁ = .ok (.ok box) f₂)
      (hpush : list.push box f₂ = .ok (.ok list') f')

/-- The heap refuses a function one of the three, when it has granted those before. -/
inductive Lacks (fn : PciFunction) (list : DeviceList) (f : Firmware) : Prop
  | payload (hfull : ¬ HeapBox.Fits Payload f)
  | record {device : Device} {f₁ : Firmware}
      (hattach : (deviceOf fn).attach (.pci fn) f = .ok (.ok device) f₁)
      (hfull : ¬ HeapBox.Fits DeviceRecord f₁)
  | place {device : Device} {box : HeapBox DeviceRecord} {f₁ f₂ : Firmware}
      (hattach : (deviceOf fn).attach (.pci fn) f = .ok (.ok device) f₁)
      (hrecord : device.toRecord f₁ = .ok (.ok box) f₂) (hfull : ¬ list.boxes.Extensible f₂)

/-- Functions get into the list one after the other; in between the heap is left alone. -/
inductive Files : DeviceList → Firmware → List PciFunction → DeviceList → Firmware → Prop
  | nil {list : DeviceList} {f f' : Firmware} (hquiet : f.Untouched f') : Files list f [] list f'
  | cons {list list₁ list' : DeviceList} {f f₁ f₂ f' : Firmware} {fn : PciFunction}
      {fs : List PciFunction} (hquiet : f.Untouched f₁) (hkept : Kept fn list f₁ list₁ f₂)
      (hrest : Files list₁ f₂ fs list' f') : Files list f (fn :: fs) list' f'

theorem Files.of_untouched (hquiet : f.Untouched f₁) (h : Files list f₁ fs list' f') :
    Files list f fs list' f' := by
  cases h with
  | nil hquiet' => exact .nil (hquiet.trans hquiet')
  | cons hquiet' hkept hrest => exact .cons (hquiet.trans hquiet') hkept hrest

theorem Files.append (h : Files list f fs list₁ f₁) (h' : Files list₁ f₁ gs list' f') :
    Files list f (fs ++ gs) list' f' := by
  induction h with
  | nil hquiet => exact h'.of_untouched hquiet
  | cons hquiet hkept _ ih => exact .cons hquiet hkept (ih h')

/-- The functions in front of the one with this address get into the list, and it does not. -/
inductive Overflows (list : DeviceList) (f : Firmware) (fs : List PciFunction)
    (address : PciAddress) (before : List PciFunction) : Prop
  | intro {after : List PciFunction} {fn : PciFunction} {list₁ : DeviceList} {f₁ : Firmware}
      (hsplit : fs = before ++ fn :: after) (haddress : fn.address = address)
      (hfiles : Files list f before list₁ f₁) (hlacks : Lacks fn list₁ f₁) :
      Overflows list f fs address before

namespace Overflows

variable {address : PciAddress} {before : List PciFunction}

theorem of_untouched (hquiet : f.Untouched f₁) (h : Overflows list f₁ fs address before) :
    Overflows list f fs address before := by
  obtain ⟨hsplit, haddress, hfiles, hlacks⟩ := h
  exact .intro hsplit haddress (hfiles.of_untouched hquiet) hlacks

theorem head (h : Overflows list f fs address before) (gs : List PciFunction) :
    Overflows list f (fs ++ gs) address before := by
  obtain @⟨after, fn, _, _, hsplit, haddress, hfiles, hlacks⟩ := h
  have hsplit' : fs ++ gs = before ++ fn :: (after ++ gs) := by
    rw [hsplit, List.append_assoc, List.cons_append]
  exact .intro hsplit' haddress hfiles hlacks

theorem tail (hfiles : Files list f fs list₁ f₁) (h : Overflows list₁ f₁ gs address before) :
    Overflows list f (fs ++ gs) address (fs ++ before) := by
  obtain @⟨after, fn, _, _, hsplit, haddress, hbefore, hlacks⟩ := h
  have hsplit' : fs ++ gs = fs ++ before ++ fn :: after := by
    rw [hsplit, List.append_assoc]
  exact .intro hsplit' haddress (hfiles.append hbefore) hlacks

end Overflows

/-- The scan ends at the function with this address, with those in front of it in the list. -/
structure Refuses (short : Prop) (list : DeviceList) (f : Firmware) (ds : List Description)
    (fs : List PciFunction) (ds' : List Description) (address : PciAddress)
    (source : HeapError) : Prop where
  before : ∃ before, Overflows list f fs address before ∧ ds' = ds ++ before.map describe
  exhausted : source.IsExhaustion
  short : short

section Refuses

variable {short short' : Prop} {ds' : List Description} {address : PciAddress} {source : HeapError}

theorem Refuses.head (h : Refuses short' list f ds fs ds' address source) (himp : short' → short)
    (gs : List PciFunction) : Refuses short list f ds (fs ++ gs) ds' address source := by
  obtain ⟨before, hoverflows, hds'⟩ := h.before
  exact ⟨⟨before, hoverflows.head gs, hds'⟩, h.exhausted, himp h.short⟩

theorem Refuses.tail (hfiles : Files list f fs list₁ f₁)
    (h : Refuses short' list₁ f₁ (ds ++ fs.map describe) gs ds' address source)
    (himp : short' → short) : Refuses short list f ds (fs ++ gs) ds' address source := by
  obtain ⟨before, hoverflows, hds'⟩ := h.before
  refine ⟨⟨fs ++ before, .tail hfiles hoverflows, ?_⟩, h.exhausted, himp h.short⟩
  rw [hds', List.map_append, List.append_assoc]

theorem Refuses.of_untouched (hquiet : f.Untouched f₁)
    (h : Refuses short list f₁ ds fs ds' address source) :
    Refuses short list f ds fs ds' address source := by
  obtain ⟨before, hoverflows, hds'⟩ := h.before
  exact ⟨⟨before, hoverflows.of_untouched hquiet, hds'⟩, h.exhausted, h.short⟩

end Refuses

def found (limit : Nat) (m : Int) (list : DeviceList) (f : Firmware) (ds : List Description)
    (a : α) (fs : List PciFunction) (ran : Machine β → Prop) :
    Except PciError α → DeviceList × Machine β → Deed
  | .ok a', (list', machine') =>
      list'.stocked limit (m - deviceCharge * fs.length) (ds ++ fs.map describe) +
        Deed.fact (a' = a ∧ ran machine' ∧ Files list f fs list' machine'.firmware)
  | .error (.allocate address source), (list', machine') =>
      list'.listing (list'.descriptions machine'.firmware) + Deed.unfunded +
        Deed.fact (Refuses (Short deviceCharge limit m ds.length fs.length) list f ds fs
          (list'.descriptions machine'.firmware) address source)

theorem found_of_untouched {a : α} {ran : Machine β → Prop} (hquiet : f.Untouched f₁)
    (reply : Except PciError α) (s : DeviceList × Machine β) (blocks : List BlockInfo) :
    Amounts (firmware s) blocks (found limit m list f₁ ds a fs ran reply s)
      (found limit m list f ds a fs ran reply s) := by
  rcases reply with ⟨address, source⟩ | a'
  · refine .of_fact fun hrefuses => (Amounts.refl _ _ _).and_fact fun _ => ?_
    exact hrefuses.of_untouched hquiet
  · refine .of_fact fun ⟨ha, hran, hfiles⟩ => (Amounts.refl _ _ _).and_fact fun _ => ?_
    exact ⟨ha, hran, hfiles.of_untouched hquiet⟩

/-- What a scan answers, what it finds, how it leaves the bus and which accesses it makes. -/
def Finds (x : PciScanM β α) (bus : β) (a : α) (fs : List PciFunction) (bus' : β)
    (accesses : List Access) : Prop :=
  ∀ list machine ds limit m blocks, machine.bus = bus →
    Delivers x.run (list, machine) blocks (list.stocked limit m ds)
      fun reply s' => found limit m list machine.firmware ds a fs
        (fun machine' => machine'.bus = bus' ∧
          machine'.trace = machine.trace.recordAll accesses) reply s'

namespace Finds

theorem pure (a : α) (bus : β) : Finds (pure a) bus a [] bus [] := by
  intro list machine ds limit m blocks hbus
  refine Delivers.pure ?_
  have hleft : list.stocked limit (m - deviceCharge * ([] : List PciFunction).length)
      (ds ++ [].map describe) = list.stocked limit m ds := by
    simp
  change Amounts _ _ _ (list.stocked limit (m - deviceCharge *
    ([] : List PciFunction).length) (ds ++ [].map describe) + Deed.fact _)
  rw [hleft]
  exact (Amounts.refl _ _ _).and_fact fun _ => ⟨rfl, ⟨hbus, rfl⟩, .nil (.refl _)⟩

theorem answers_bind {x : MachineM β α} {k : α → PciScanM β γ} {a : α} {c : γ}
    (hx : Answers x bus a bus₁ first) (hk : Finds (k a) bus₁ c fs bus₂ second) :
    Finds (onMachine x >>= k) bus c fs bus₂ (first ++ second) := by
  intro list machine ds limit m blocks hbus
  obtain ⟨f, bus, trace⟩ := machine
  obtain rfl := hbus
  obtain ⟨f', huntouched, hrun⟩ := hx f trace
  have hskip : Delivers x ⟨f, bus, trace⟩ blocks (list.stocked limit m ds) fun a' machine' =>
      list.stocked limit m ds + Deed.fact (a' = a ∧ machine' = ⟨f', bus₁, trace.recordAll first⟩) :=
    .of_run hrun huntouched ((Amounts.refl _ _ _).and_fact fun _ => ⟨rfl, rfl⟩)
  refine hskip.on_machine_bind ?_
  rintro a' machine' blocks'
  refine .of_fact ?_
  rintro ⟨rfl, rfl⟩
  rw [Trace.recordAll_append]
  exact (hk list _ ds limit m blocks' rfl).leaving fun reply s' blocks'' =>
    found_of_untouched huntouched reply s' blocks''

theorem bind {x : PciScanM β α} {k : α → PciScanM β γ} {a : α} {c : γ}
    (hx : Finds x bus a fs bus₁ first) (hk : Finds (k a) bus₁ c gs bus₂ second) :
    Finds (x >>= k) bus c (fs ++ gs) bus₂ (first ++ second) := by
  intro list machine ds limit m blocks hbus
  refine (hx list machine ds limit m blocks hbus).scan_bind ?_ ?_
  · rintro a' ⟨list', machine'⟩ blocks'
    refine .of_fact ?_
    rintro ⟨rfl, ⟨hbus', htrace⟩, hfiles⟩
    refine (hk list' machine' _ limit _ blocks' hbus').leaving ?_
    rintro (⟨address, source⟩ | c') ⟨list'', machine''⟩ blocks''
    · refine .of_fact fun hrefuses => (Amounts.refl _ _ _).and_fact fun _ =>
        hrefuses.tail hfiles ?_
      intro hshort
      rw [List.length_append]
      exact Short.right (by simpa using hshort)
    · refine .of_fact ?_
      rintro ⟨rfl, ⟨hbus'', htrace'⟩, hfiles'⟩
      have hleft : m - deviceCharge * fs.length - deviceCharge * gs.length =
          m - deviceCharge * (fs ++ gs).length := by
        rw [List.length_append]
        exact sub_shares _ _ _ _
      unfold found
      rw [hleft, List.append_assoc, ← List.map_append]
      refine (Amounts.refl _ _ _).and_fact fun _ => ⟨rfl, ⟨hbus'', ?_⟩, hfiles.append hfiles'⟩
      rw [htrace', htrace, Trace.recordAll_append]
  · rintro ⟨address, source⟩ ⟨list', machine'⟩ blocks'
    refine .of_fact fun hrefuses => (Amounts.refl _ _ _).and_fact fun _ => hrefuses.head ?_ gs
    intro hshort
    rw [List.length_append]
    exact hshort.left

end Finds

/-! ## Recording one function -/

theorem refused_amounts {fn : PciFunction} {source : HeapError} {ran : Machine β → Prop} {e : Deed}
    (hexhausted : source.IsExhaustion) (hshort : Short deviceCharge limit m ds.length 1)
    (hlacks : Lacks fn list f) (machine : Machine β) (hnone : e.holdings machine.firmware = 0) :
    Amounts machine.firmware blocks (e + list.listing ds)
      (found limit m list f ds () [fn] ran (.error (.allocate fn.address source))
        (list, machine)) := by
  intro hv
  have hds : list.descriptions machine.firmware = ds := hv.2.2
  have hsame : Amounts machine.firmware blocks (e + list.listing ds)
      (list.listing (list.descriptions machine.firmware) + Deed.unfunded) := by
    rw [hds, add_comm]
    exact (Amounts.refl _ _ _).add (.unfunded e hnone)
  have hoverflows : Overflows list f [fn] fn.address [] := .intro rfl rfl (.nil (.refl f)) hlacks
  refine hsame.and_fact (fun _ => ⟨⟨[], hoverflows, ?_⟩, hexhausted, hshort⟩) hv
  simpa using hds

theorem file_delivers {fn : PciFunction} {box : HeapBox DeviceRecord} {device : Device}
    (hdescription : device.description (some (.pci fn)) = describe fn)
    (hattach : (deviceOf fn).attach (.pci fn) f = .ok (.ok device) f₁)
    (hrecord : device.toRecord f₁ = .ok (.ok box) machine.firmware) :
    Delivers (ExceptT.lift (ListingM.push box) >>= allocated fn.address : PciScanM β Unit).run
      (list, machine) blocks (list.stocked limit (m - deviceCharge) ds +
        Entry.deed ⟨box, device, some (.pci fn)⟩)
      fun reply s' => found limit m list f ds () [fn] (fun machine' =>
        machine'.bus = machine.bus ∧ machine'.trace = machine.trace.recordAll []) reply s' := by
  refine .on_list_bind (ListingM.push_delivers ⟨box, device, some (.pci fn)⟩) ?_
  rintro (error | ⟨⟩) ⟨list', machine'⟩ blocks'
  · refine .pure (.of_fact fun ⟨hsame, hexhausted, hless, hfull⟩ => ?_)
    subst hsame
    rw [add_comm]
    refine refused_amounts hexhausted ?_ (.place hattach hrecord hfull) machine' rfl
    intro hlength
    have hcharge := hless (by omega)
    omega
  · refine .pure (.of_fact fun ⟨hpush, hran⟩ => ?_)
    have hone : m - deviceCharge * ([fn] : List PciFunction).length =
        m - deviceCharge := by simp
    change Amounts _ _ _ (list'.stocked limit (m - deviceCharge *
      ([fn] : List PciFunction).length) (ds ++ [describe fn]) + Deed.fact _)
    rw [hone, ← hdescription]
    refine (Amounts.refl _ _ _).and_fact fun _ => ⟨rfl, hran, ?_⟩
    exact .cons (.refl f) (.intro hattach hrecord hpush) (.nil (.refl _))

theorem move_delivers {fn : PciFunction} {device : Device} {n : Int}
    (hdescription : device.description (some (.pci fn)) = describe fn)
    (hattach : (deviceOf fn).attach (.pci fn) f = .ok (.ok device) machine.firmware)
    (hwithin : list.boxes.Within limit)
    (hpays : n - recordCharge = m - deviceCharge + list.boxes.reserveFor limit)
    (hshort : n < recordCharge → Short deviceCharge limit m ds.length 1) :
    Delivers (do
      let box ← allocated fn.address (← onMachine device.toRecord)
      allocated fn.address (← ExceptT.lift (ListingM.push box)) : PciScanM β Unit).run
      (list, machine) blocks
      (device.carries (some (.pci fn)) + Deed.fund n + list.listing ds)
      fun reply s' => found limit m list f ds () [fn] (fun machine' =>
        machine'.bus = machine.bus ∧ machine'.trace = machine.trace.recordAll []) reply s' := by
  have hmove : Delivers device.toRecord machine.firmware blocks
      (device.carries (some (.pci fn)) + Deed.fund n + list.listing ds) _ :=
    (device.toRecord_delivers (some (.pci fn)) n).running.frame (.inr le_rfl)
  refine .on_firmware_bind hmove fun reply f' blocks' => ?_
  rw [add_right_comm]
  refine .of_fact fun hrecord => .allocated_bind ?_ ?_
  · rintro box rfl
    let e : Entry := ⟨box, device, some (.pci fn)⟩
    have hmoved : device.moved (some (.pci fn)) n (.ok box) + list.listing ds =
        list.listing ds + Deed.fund (m - deviceCharge + list.boxes.reserveFor limit) +
          e.deed := by
      rw [← hpays]
      change recorded box device + _ + Deed.fund (n - recordCharge) + _ = _
      unfold Entry.deed
      abel
    have hstock : Amounts f' blocks' (list.listing ds +
        Deed.fund (m - deviceCharge + list.boxes.reserveFor limit) + e.deed)
        (list.stocked limit (m - deviceCharge) ds + e.deed) :=
      ((Amounts.refl _ _ _).and_fact fun _ => hwithin).add (.refl _ _ _)
    rw [hmoved]
    refine .amounts ?_ hstock
    with_reducible exact file_delivers hdescription hattach hrecord
  · rintro error rfl
    have hrefused : device.moved (some (.pci fn)) n (.error error) + list.listing ds =
        Deed.fund n + list.listing ds + Deed.fact (error.IsExhaustion ∧ n < recordCharge) := by
      change Deed.fund n + Deed.fact (error.IsExhaustion ∧ n < recordCharge) + _ = _
      abel
    rw [hrefused]
    refine .of_fact fun ⟨hexhausted, hless⟩ => refused_amounts hexhausted (hshort hless) ?_ _ rfl
    exact .record hattach (Device.not_fits_of_toRecord hrecord)

variable [PortBus β]

theorem recordFunction_finds {address : PciAddress} {fn : PciFunction}
    (haddress : fn.address = address)
    (hread : Answers (readFunction address) bus fn bus₁ first) :
    Finds (recordFunction address) bus () [fn] bus₁ first := by
  subst haddress
  rw [← List.append_nil first]
  refine .answers_bind hread ?_
  intro list machine ds limit m blocks hbus
  subst hbus
  refine .of_holds fun hs => ?_
  let n : Int := m + list.boxes.reserveFor limit
  have hbare : (deviceOf fn).payload = none := rfl
  refine .on_firmware_bind (Delivers.log .debug _).running fun _ f₁ blocks₁ => ?_
  refine .of_fact fun hlog => ?_
  have hquiet : machine.firmware.Untouched f₁ := by
    cases hlog
    exact .logged _ _
  refine .leaving ?_ fun reply s' blocks' => found_of_untouched hquiet reply s' blocks'
  refine .amounts ?_ (DeviceList.stocked_amounts_bare hbare limit m list ds _ _)
  have hattach : Delivers ((deviceOf fn).attach (.pci fn)) f₁ blocks₁
      ((deviceOf fn).carries none + Deed.fund n + list.listing ds) _ :=
    ((deviceOf fn).attach_delivers none (.pci fn) n).running.frame (.inr le_rfl)
  refine .on_firmware_bind hattach fun reply f₂ blocks₂ => ?_
  rw [add_right_comm]
  refine .of_fact fun hattached => .allocated_bind ?_ ?_
  · rintro device' rfl
    let k : Int := n - payloadCharge
    have hcarries : (deviceOf fn).attached none (.pci fn) n (.ok device') + list.listing ds =
        device'.carries (some (.pci fn)) + Deed.fund k + list.listing ds +
          Deed.fact (device' = { deviceOf fn with payload := device'.payload }) := by
      change device'.carries _ + Deed.fund k + Deed.fact _ + _ = _
      abel
    rw [hcarries]
    refine .of_fact fun hsame => ?_
    have hdescription : device'.description (some (.pci fn)) = describe fn := by
      rw [hsame]
      exact description_deviceOf fn
    refine move_delivers hdescription hattached hs.valid.2 ?_ fun hless => ?_
    · unfold k n deviceCharge
      omega
    · refine DeviceList.short_of_lt hs.valid le_rfl ?_
      unfold deviceCharge
      omega
  · rintro error rfl
    -- without room for the payload nothing is left of the function
    have hrefused : (deviceOf fn).attached none (.pci fn) n (.error error) + list.listing ds =
        Deed.fund n + list.listing ds + Deed.fact (error.IsExhaustion ∧ n < payloadCharge) := by
      change 0 + Deed.fund n + Deed.fact (error.IsExhaustion ∧ n < payloadCharge) + _ = _
      abel
    rw [hrefused]
    refine .of_fact fun ⟨hexhausted, hless⟩ => ?_
    have hshort := DeviceList.short_of_lt hs.valid (Nat.le_add_left _ _) hless
    exact refused_amounts hexhausted hshort (.payload (Device.not_fits_of_attach hattached)) _ rfl

end Pci

end EarlyBoot
