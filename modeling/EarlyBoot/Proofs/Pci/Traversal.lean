import EarlyBoot.Proofs.Pci.Exact
import EarlyBoot.Proofs.Pci.Registers

/-!
# How far a scan gets

A scan for which the heap runs out of room ends at the function that it could
not record.  Which registers it has reached by then can be told from the bus,
whatever the state of the heap: those that it reaches anyway before it comes to
this function, and those of the function itself.
-/

namespace EarlyBoot

open MachineM (Answers)

namespace PciAddress

variable {a b : PciAddress}

theorem Before.asymm (h : a.Before b) : ¬ b.Before a := by
  unfold Before at *
  simp only [UInt8.lt_iff_toNat_lt, ← UInt8.toNat_inj] at *
  omega

theorem not_before_self (a : PciAddress) : ¬ a.Before a := fun h => h.asymm h

theorem not_before_of_bus_lt (h : a.bus < b.bus) : ¬ b.Before a := Before.asymm (.inl h)

theorem not_before_of_device_lt (hbus : a.bus = b.bus) (h : a.device < b.device) : ¬ b.Before a :=
  Before.asymm (.inr ⟨hbus, .inl h⟩)

theorem not_before_of_function_le (hbus : a.bus = b.bus) (hdevice : a.device = b.device)
    (h : a.function ≤ b.function) : ¬ b.Before a := by
  unfold Before
  rw [hbus, hdevice]
  simpa using h

end PciAddress

namespace Pci

variable {α β γ δ : Type}

section Runs

variable {x : PciScanM β α} {k : α → PciScanM β γ} {s s' : DeviceList × Machine β}
  {list list' : DeviceList} {machine machine' : Machine β} {reply : Except PciError γ}

theorem run_bind_cases (hrun : (x >>= k).run s = .ok reply s') :
    (∃ error, x.run s = .ok (.error error) s' ∧ reply = .error error) ∨
      ∃ v s₁, x.run s = .ok (.ok v) s₁ ∧ (k v).run s₁ = .ok reply s' := by
  change EStateM.bind x.run _ s = _ at hrun
  unfold EStateM.bind at hrun
  split at hrun
  next r s₁ hfirst =>
    cases r with
    | error error =>
        cases hrun
        exact .inl ⟨error, hfirst, rfl⟩
    | ok v => exact .inr ⟨v, s₁, hfirst, hrun⟩
  next => cases hrun

theorem run_on_machine {y : MachineM β α}
    (hrun : (onMachine y >>= k).run (list, machine) = .ok reply s') :
    ∃ v machine₁, y machine = .ok v machine₁ ∧ (k v).run (list, machine₁) = .ok reply s' := by
  change EStateM.bind (EStateM.bind (liftM y : ListingM β α) _) _ (list, machine) = _ at hrun
  unfold EStateM.bind at hrun
  cases hy : y machine with
  | ok v machine₁ =>
      have hlift : (liftM y : ListingM β α) (list, machine) = .ok v (list, machine₁) := by
        simp only [liftM, monadLift, MonadLift.monadLift, hy]
      rw [hlift] at hrun
      exact ⟨v, machine₁, rfl, hrun⟩
  | error reason machine₁ =>
      have hlift : (liftM y : ListingM β α) (list, machine) = .error reason (list, machine₁) := by
        simp only [liftM, monadLift, MonadLift.monadLift, hy]
      rw [hlift] at hrun
      cases hrun

end Runs

def StaysOn (a : PciAddress) (x : PciScanM β α) : Prop :=
  ∀ list machine reply list' machine', x.run (list, machine) = .ok reply (list', machine') →
    machine'.bus = machine.bus ∧ machine'.trace = machine.trace ∧
      ∀ failed source, reply = .error (.allocate failed source) → failed = a

namespace StaysOn

variable {a : PciAddress}

theorem run {x : PciScanM β α} {list list' : DeviceList} {machine machine' : Machine β}
    {reply : Except PciError α} (hx : StaysOn a x)
    (hrun : x.run (list, machine) = .ok reply (list', machine')) :
    machine'.bus = machine.bus ∧ machine'.trace = machine.trace ∧
      ∀ failed source, reply = .error (.allocate failed source) → failed = a :=
  hx list machine reply list' machine' hrun

theorem firmware_bind {y : FirmwareM α} {k : α → PciScanM β γ} (hk : ∀ v, StaysOn a (k v)) :
    StaysOn a (onMachine (liftM y) >>= k) := by
  intro list machine reply list' machine' hrun
  obtain ⟨v, machine₁, hy, hrest⟩ := run_on_machine hrun
  have hkept : machine₁.bus = machine.bus ∧ machine₁.trace = machine.trace := by
    simp only [liftM, monadLift, MonadLift.monadLift] at hy
    split at hy
    · cases hy
      exact ⟨rfl, rfl⟩
    · cases hy
  obtain ⟨hbus, htrace, hblame⟩ := hk v list machine₁ reply list' machine' hrest
  exact ⟨hbus.trans hkept.1, htrace.trans hkept.2, hblame⟩

theorem allocated (r : Except HeapError α) : StaysOn a (allocated a r : PciScanM β α) := by
  intro list machine reply list' machine' hrun
  cases r with
  | ok v =>
      cases hrun
      exact ⟨rfl, rfl, fun _ _ h => by cases h⟩
  | error error =>
      cases hrun
      refine ⟨rfl, rfl, fun _ _ h => ?_⟩
      cases h
      rfl

theorem allocated_bind {k : α → PciScanM β γ} (r : Except HeapError α)
    (hk : ∀ v, StaysOn a (k v)) : StaysOn a (Pci.allocated a r >>= k) := by
  cases r with
  | ok v => exact hk v
  | error error => exact allocated (.error error)

theorem push (box : HeapBox DeviceRecord) :
    StaysOn a (ExceptT.lift (ListingM.push box) >>= Pci.allocated a : PciScanM β Unit) := by
  intro list machine reply list' machine' hrun
  change EStateM.bind (EStateM.bind (ListingM.push box) _) _ (list, machine) = _ at hrun
  obtain ⟨f, bus, trace⟩ := machine
  unfold EStateM.bind ListingM.push at hrun
  dsimp only at hrun
  generalize list.push box f = pushed at hrun
  rcases pushed with ⟨error | list₁, f₁⟩ | ⟨reason, f₁⟩
  · exact allocated (.error error) list ⟨f₁, bus, trace⟩ reply list' machine' hrun
  · exact allocated (.ok ()) list₁ ⟨f₁, bus, trace⟩ reply list' machine' hrun
  · cases hrun

end StaysOn

/-! ## What a scan has done when it ends -/

def Reached (found : List PciAddress) (P : PciAddress → Prop) :
    Except PciError α → List PciAddress → List Access → Prop
  | .ok _, reached, accesses => reached = found ∧ Touches P accesses
  | .error (.allocate address _), reached, accesses =>
      ∃ before after, found = before ++ address :: after ∧ reached = before ++ [address] ∧
        Touches (fun a => P a ∧ ¬ address.Before a) accesses

/--
Started from a bus on which no more than self tests have been started, the scan
finds the functions at these addresses as long as there is room, and touches no
others than those that satisfy `P`.  If it fails, it has not yet touched any
behind the one at which it fails.
-/
def Traverses (x : PciScanM ScriptedBus α) (bus₀ : ScriptedBus) (found : List PciAddress)
    (P : PciAddress → Prop) : Prop :=
  ∀ done list machine reply list' machine', bus₀.Probed done machine.bus →
    x.run (list, machine) = .ok reply (list', machine') →
      ∃ reached accesses, machine'.trace = machine.trace.recordAll accesses ∧
        bus₀.Probed (done ++ reached) machine'.bus ∧ Reached found P reply reached accesses

def Behind (P : PciAddress → Prop) (found : List PciAddress) : Prop :=
  ∀ address ∈ found, ∀ a, P a → ¬ address.Before a

theorem behind_nil {P : PciAddress → Prop} : Behind P [] := fun _ h => nomatch h

namespace Reached

variable {found more reached reached' : List PciAddress} {P Q R : PciAddress → Prop}
  {first second : List Access} {v : α} {reply : Except PciError γ} {error : PciError}

theorem mono (h : Reached found P reply reached first) (himp : ∀ a, P a → Q a) :
    Reached found Q reply reached first := by
  rcases reply with ⟨address, source⟩ | v
  · obtain ⟨before, after, hfound, hreached, htouches⟩ := h
    exact ⟨before, after, hfound, hreached, htouches.mono fun a ha => ⟨himp a ha.1, ha.2⟩⟩
  · exact ⟨h.1, h.2.mono himp⟩

theorem head (h : Reached found P (.error error : Except PciError α) reached first)
    (more : List PciAddress) :
    Reached (found ++ more) P (.error error : Except PciError γ) reached first := by
  obtain ⟨address, source⟩ := error
  obtain ⟨before, after, rfl, hreached, htouches⟩ := h
  refine ⟨before, after ++ more, ?_, hreached, htouches⟩
  rw [List.append_assoc, List.cons_append]

theorem tail (h : Reached found Q (.ok v) reached first) (himp : ∀ a, Q a → P a)
    (hbehind : Behind Q more) (h' : Reached more P reply reached' second) :
    Reached (found ++ more) P reply (reached ++ reached') (first ++ second) := by
  obtain ⟨rfl, hfirst⟩ := h
  rcases reply with ⟨address, source⟩ | w
  · obtain ⟨before, after, rfl, rfl, hsecond⟩ := h'
    refine ⟨reached ++ before, after, by simp, by simp, ?_⟩
    exact (hfirst.mono fun a ha => ⟨himp a ha, hbehind address (by simp) a ha⟩).append hsecond
  · obtain ⟨rfl, hsecond⟩ := h'
    exact ⟨rfl, (hfirst.mono himp).append hsecond⟩

end Reached

namespace Traverses

variable {x : PciScanM ScriptedBus α} {k : α → PciScanM ScriptedBus γ} {bus₀ : ScriptedBus}
  {found more : List PciAddress} {P Q : PciAddress → Prop}

theorem pure (v : α) : Traverses (pure v) bus₀ [] P := by
  intro done list machine reply list' machine' h hrun
  cases hrun
  rw [← List.append_nil done] at h
  exact ⟨[], [], rfl, h, rfl, .nil⟩

theorem reads_bind {y : MachineM ScriptedBus α} {v : α}
    (hy : ∀ done bus, bus₀.Probed done bus → Reads y bus v) (hreaches : Reaches Q y)
    (himp : ∀ a, Q a → P a) (hbehind : Behind Q found) (hk : Traverses (k v) bus₀ found P) :
    Traverses (onMachine y >>= k) bus₀ found P := by
  intro done list machine reply list' machine' h hrun
  obtain ⟨w, machine₁, hfirst, hrest⟩ := run_on_machine hrun
  obtain ⟨bus₁, _, hanswers, hsame⟩ := hy done machine.bus h
  obtain ⟨rfl, rfl, first, htrace₁, htouches⟩ := hreaches.of_run hanswers hfirst
  obtain ⟨reached, second, htrace, hprobed, hreached⟩ :=
    hk done _ _ _ _ _ (h.congr hsame) hrest
  refine ⟨reached, first ++ second, ?_, hprobed, ?_⟩
  · rw [htrace, htrace₁, Trace.recordAll_append]
  · have hnone : Reached [] Q (.ok w : Except PciError α) [] first := ⟨rfl, htouches⟩
    exact hnone.tail himp hbehind hreached

theorem bind (hx : Traverses x bus₀ found Q) (himp : ∀ a, Q a → P a) (hbehind : Behind Q more)
    (hk : ∀ v, Traverses (k v) bus₀ more P) : Traverses (x >>= k) bus₀ (found ++ more) P := by
  intro done list machine reply list' machine' h hrun
  rcases run_bind_cases hrun with ⟨error, hfirst, rfl⟩ | ⟨v, ⟨list₁, machine₁⟩, hfirst, hrest⟩
  · obtain ⟨reached, accesses, htrace, hprobed, hreached⟩ := hx done _ _ _ _ _ h hfirst
    exact ⟨reached, accesses, htrace, hprobed, (hreached.mono himp).head more⟩
  · obtain ⟨reached, first, htrace, hprobed, hreached⟩ := hx done _ _ _ _ _ h hfirst
    obtain rfl : reached = found := hreached.1
    obtain ⟨reached', second, htrace', hprobed', hreached'⟩ := hk v _ _ _ _ _ _ hprobed hrest
    refine ⟨reached ++ reached', first ++ second, ?_, ?_, hreached.tail himp hbehind hreached'⟩
    · rw [htrace', htrace, Trace.recordAll_append]
    · rwa [← List.append_assoc]

theorem bind_nil (hx : Traverses x bus₀ found P) (hk : ∀ v, Traverses (k v) bus₀ [] P) :
    Traverses (x >>= k) bus₀ found P := by
  have hboth := hx.bind (fun _ => id) behind_nil hk
  rwa [List.append_nil] at hboth

theorem foldlM {g : γ → δ → PciScanM ScriptedBus γ} {part : δ → List PciAddress}
    {Q : δ → PciAddress → Prop} {xs : List δ}
    (hg : ∀ i ∈ xs, ∀ c, Traverses (g c i) bus₀ (part i) (Q i))
    (himp : ∀ i ∈ xs, ∀ a, Q i a → P a)
    (hbehind : xs.Pairwise fun i j => Behind (Q i) (part j)) (c : γ) :
    Traverses (xs.foldlM g c) bus₀ (xs.flatMap part) P := by
  induction xs generalizing c with
  | nil => exact pure c
  | cons i rest ih =>
      obtain ⟨hfirst, hbehind⟩ := List.pairwise_cons.1 hbehind
      have hrest := ih (fun j hj => hg j (.tail i hj)) (fun j hj => himp j (.tail i hj)) hbehind
      rw [List.foldlM_cons, List.flatMap_cons]
      refine (hg i (.head rest) c).bind (himp i (.head rest)) ?_ hrest
      intro address haddress
      -- what is found later comes behind all that this part reaches
      obtain ⟨j, hj, hpart⟩ := List.mem_flatMap.1 haddress
      exact hfirst j hj address hpart

end Traverses

/-! ## The scan -/

section Scan

variable {bus₀ : ScriptedBus} {a : PciAddress}

theorem behind_found (a : PciAddress) : Behind (a = ·) (bus₀.found a) := by
  rintro address haddress _ rfl
  rw [(ScriptedBus.mem_found.1 haddress).1]
  exact PciAddress.not_before_self _

theorem recordFunction_traverses (ha : a.Addressable) (hresponds : bus₀.responds a = true) :
    Traverses (recordFunction a) bus₀ [a] (a = ·) := by
  intro done list machine reply list' machine' h hrun
  rw [← h.responds_eq] at hresponds
  obtain ⟨registers, hregisters, -⟩ := ScriptedBus.responds_iff.1 hresponds
  obtain ⟨bus₁, _, hanswers, hstart⟩ := readFunction_answers ha hregisters
  obtain ⟨fn, machine₁, hread, hrest⟩ := run_on_machine hrun
  have hreaches : Reaches (a = ·) (readFunction a : MachineM ScriptedBus PciFunction) :=
    readFunction_reaches rfl
  obtain ⟨-, rfl, accesses, htrace₁, htouches⟩ := hreaches.of_run hanswers hread
  have hprobed := h.start hregisters hstart
  have hheld := StaysOn.run (a := a) ?stays hrest
  case stays =>
    refine .firmware_bind fun _ => .firmware_bind fun attached => ?_
    refine .allocated_bind attached fun device => .firmware_bind fun moved => ?_
    exact .allocated_bind moved fun box => .push box
  obtain ⟨hbus, htrace, hblame⟩ := hheld
  rw [← hbus] at hprobed
  refine ⟨[a], accesses, htrace.trans htrace₁, hprobed, ?_⟩
  rcases reply with ⟨failed, source⟩ | v
  · obtain rfl := hblame failed source rfl
    refine ⟨[], [], rfl, rfl, htouches.mono ?_⟩
    rintro _ rfl
    exact ⟨rfl, PciAddress.not_before_self _⟩
  · exact ⟨rfl, htouches⟩

theorem scanFunction_traverses {b slot : UInt8} {f : Nat} (hslot : slot < 32)
    (hf : f < functionsPerSlot) (count : Nat) :
    Traverses (scanFunction b slot count f) bus₀ (bus₀.found ⟨b, slot, UInt8.ofNat f⟩)
      (⟨b, slot, UInt8.ofNat f⟩ = ·) := by
  have ha : PciAddress.Addressable ⟨b, slot, UInt8.ofNat f⟩ := ⟨hslot, ofNat_lt hf⟩
  refine .reads_bind (isPresent_reads_first ha) (isPresent_reaches rfl) (fun _ => id)
    (behind_found _) ?_
  unfold ScriptedBus.found
  split
  next hresponds =>
    exact (recordFunction_traverses ha hresponds).bind_nil fun _ => .pure (count + 1)
  next => exact .pure count

def InSlot (b slot : UInt8) (a : PciAddress) : Prop :=
  a.Addressable ∧ a.bus = b ∧ a.device = slot

def OnBus (b : UInt8) (a : PciAddress) : Prop := a.Addressable ∧ a.bus = b

theorem scanSlot_traverses {b : UInt8} {slot : Nat} (hslot : slot < slotsPerBus) (count : Nat) :
    Traverses (scanSlot b count slot) bus₀ (bus₀.functionsOfSlot b (UInt8.ofNat slot))
      (InSlot b (UInt8.ofNat slot)) := by
  have hslot : UInt8.ofNat slot < 32 := ofNat_lt hslot
  have ha : PciAddress.Addressable ⟨b, UInt8.ofNat slot, 0⟩ :=
    ⟨hslot, (by decide : (0 : UInt8) < 8)⟩
  have hin : ∀ a, ⟨b, UInt8.ofNat slot, 0⟩ = a → InSlot b (UInt8.ofNat slot) a := by
    rintro _ rfl
    exact ⟨ha, rfl, rfl⟩
  have hbehind : Behind (⟨b, UInt8.ofNat slot, 0⟩ = ·)
      (bus₀.functionsOfSlot b (UInt8.ofNat slot)) := by
    rintro address haddress _ rfl
    obtain ⟨hbus, hdevice, -⟩ := ScriptedBus.mem_functionsOfSlot.1 haddress
    exact PciAddress.not_before_of_function_le hbus.symm hdevice.symm UInt8.zero_le
  refine .reads_bind (isPresent_reads_first ha) (isPresent_reaches rfl) hin hbehind ?_
  unfold ScriptedBus.functionsOfSlot at hbehind ⊢
  split
  next hresponds =>
    rw [if_pos hresponds] at hbehind
    refine .reads_bind (hasManyFunctions_reads_first ha hresponds) (hasManyFunctions_reaches rfl)
      hin hbehind ?_
    let functions := if bus₀.isMultiFunction ⟨b, UInt8.ofNat slot, 0⟩ then functionsPerSlot else 1
    have hmost : functions ≤ functionsPerSlot := by
      unfold functions
      split <;> decide
    have hlt {f : Nat} (hf : f ∈ List.range functions) : f < functionsPerSlot :=
      (List.mem_range.1 hf).trans_le hmost
    refine Traverses.foldlM (fun f hf => scanFunction_traverses hslot (hlt hf)) ?_ ?_ count
    · rintro f hf _ rfl
      exact ⟨⟨hslot, ofNat_lt (hlt hf)⟩, rfl, rfl⟩
    · -- a function of the slot is reached before any that comes behind it is found
      refine List.pairwise_lt_range.imp_of_mem ?_
      rintro i j - hj hij address haddress _ rfl
      rw [(ScriptedBus.mem_found.1 haddress).1]
      refine PciAddress.not_before_of_function_le rfl rfl (UInt8.le_of_lt ?_)
      exact ScriptedBus.ofNat_lt_ofNat hij ((hlt hj).trans (by decide))
  next => exact .pure count

theorem scanBus_traverses (b : UInt8) (count : Nat) :
    Traverses (scanBus b count) bus₀ (bus₀.functionsOfBus b) (OnBus b) := by
  refine Traverses.foldlM (fun slot hslot => scanSlot_traverses (List.mem_range.1 hslot))
    (fun _ _ a h => ⟨h.1, h.2.1⟩) ?_ count
  refine List.pairwise_lt_range.imp_of_mem ?_
  rintro i j - hj hij address haddress a ⟨-, hbus, hdevice⟩
  obtain ⟨hbus', hdevice', -⟩ := ScriptedBus.mem_functionsOfSlot.1 haddress
  refine PciAddress.not_before_of_device_lt (hbus.trans hbus'.symm) ?_
  rw [hdevice, hdevice']
  exact ScriptedBus.ofNat_lt_ofNat hij ((List.mem_range.1 hj).trans (by decide))

theorem behind_buses {P : PciAddress → Prop} {b : UInt8} {buses : List Nat}
    (hP : ∀ a, P a → a.bus = b) (hbuses : ∀ i ∈ buses, b < UInt8.ofNat i) :
    Behind P (buses.flatMap fun i => bus₀.functionsOfBus (UInt8.ofNat i)) := by
  intro address haddress a ha
  obtain ⟨i, hi, hmem⟩ := List.mem_flatMap.1 haddress
  refine PciAddress.not_before_of_bus_lt ?_
  rw [hP a ha, (ScriptedBus.mem_functionsOfBus.1 hmem).1]
  exact hbuses i hi

theorem scanFurther_traverses {P : PciAddress → Prop} {functions : List Nat}
    (hfunctions : ∀ f ∈ functions, 0 < f ∧ f < functionsPerSlot)
    (hsorted : functions.Pairwise (· < ·))
    (hhost : ∀ f ∈ functions, P ⟨0, 0, UInt8.ofNat f⟩)
    (hbuses : ∀ f ∈ bus₀.furtherBuses functions, ∀ a, OnBus (UInt8.ofNat f) a → P a)
    (count : Nat) :
    Traverses (scanFurther count functions) bus₀
      ((bus₀.furtherBuses functions).flatMap fun f => bus₀.functionsOfBus (UInt8.ofNat f)) P := by
  induction functions generalizing count with
  | nil => exact .pure count
  | cons f rest ih =>
      obtain ⟨hpos, hlt⟩ := hfunctions f (.head rest)
      obtain ⟨hnext, hsorted⟩ := List.pairwise_cons.1 hsorted
      have ha : PciAddress.Addressable ⟨0, 0, UInt8.ofNat f⟩ :=
        ⟨(by decide : (0 : UInt8) < 32), ofNat_lt hlt⟩
      refine .reads_bind (isPresent_reads_first ha) (isPresent_reaches rfl)
        (fun _ h => h ▸ hhost f (.head rest)) (behind_buses (fun _ h => by rw [← h]) ?_) ?_
      · intro i hi
        have hi := hfunctions i ((List.takeWhile_sublist _).subset hi)
        exact ScriptedBus.ofNat_lt_ofNat hi.1 (hi.2.trans (by decide))
      by_cases hresponds : bus₀.responds ⟨0, 0, UInt8.ofNat f⟩ = true
      · have hmore : bus₀.furtherBuses (f :: rest) = f :: bus₀.furtherBuses rest :=
          List.takeWhile_cons_of_pos hresponds
        rw [hmore] at hbuses ⊢
        rw [if_pos hresponds, List.flatMap_cons]
        refine (scanBus_traverses (UInt8.ofNat f) count).bind (hbuses f (.head _))
          (behind_buses (fun _ h => h.2) ?_) (ih (fun g hg => hfunctions g (.tail f hg)) hsorted
            (fun g hg => hhost g (.tail f hg)) fun g hg => hbuses g (.tail f hg))
        intro i hi
        have hi := (List.takeWhile_sublist _).subset hi
        have hsmall := (hfunctions i (.tail f hi)).2
        exact ScriptedBus.ofNat_lt_ofNat (hnext i hi) (hsmall.trans (by decide))
      · have hnone : bus₀.furtherBuses (f :: rest) = [] := List.takeWhile_cons_of_neg hresponds
        rw [hnone, if_neg hresponds]
        exact .pure count

theorem enumerate_traverses (bus : ScriptedBus) :
    Traverses enumerate bus bus.foundFunctions fun a => a.Addressable ∧ bus.Scanned a.bus := by
  have hhost : PciAddress.host.Addressable := ⟨by decide, by decide⟩
  have hlog {P : PciAddress → Prop} (message : String) (count : Nat) :
      Traverses (onMachine (FirmwareM.info message) >>= fun _ => pure count) bus [] P :=
    .reads_bind (fun _ bus _ => .log _ _ bus) (.log _ _) (fun _ => id) behind_nil
      (.pure count)
  have hreport {P : PciAddress → Prop} (count : Nat) :=
    hlog (P := P) s!"PCI: {count} functions" count
  have hfirst {a : PciAddress} (ha : PciAddress.host = a) : a.Addressable ∧ bus.Scanned a.bus :=
    ha ▸ ⟨hhost, .inl rfl⟩
  -- no function comes before the host bridge
  have hbehind (found : List PciAddress) : Behind (PciAddress.host = ·) found := by
    rintro address - _ rfl
    unfold PciAddress.Before PciAddress.host
    simp
  refine .reads_bind (isPresent_reads_first hhost) (isPresent_reaches rfl) (fun _ => hfirst)
    (hbehind _) ?_
  unfold ScriptedBus.foundFunctions
  split
  next hresponds =>
    rw [bus.flatMap_scannedBuses]
    -- every further bus comes behind the first
    have htail : ∀ i ∈ bus.scannedBuses.tail, 0 < UInt8.ofNat i := by
      intro i hi
      have hpos : 0 < i := (List.pairwise_cons.1 bus.pairwise_scannedBuses).1 i hi
      have hsmall := (ScriptedBus.mem_scannedBuses.1 (List.mem_of_mem_tail hi)).1
      exact ScriptedBus.ofNat_lt_ofNat hpos (hsmall.trans (by decide))
    refine (scanBus_traverses 0 0).bind (fun a ha => ⟨ha.1, .inl ha.2⟩)
      (behind_buses (fun _ h => h.2) htail) fun count => ?_
    refine .reads_bind (hasManyFunctions_reads_first hhost hresponds) (hasManyFunctions_reaches rfl)
      (fun _ => hfirst) (hbehind _) ?_
    have hscanned : ∀ i ∈ bus.scannedBuses.tail, ∀ a, OnBus (UInt8.ofNat i) a →
        a.Addressable ∧ bus.Scanned a.bus := by
      intro i hi a ha
      refine ⟨ha.1, ?_⟩
      rw [ha.2]
      exact (ScriptedBus.mem_scannedBuses.1 (List.mem_of_mem_tail hi)).2
    unfold ScriptedBus.scannedBuses at hscanned ⊢
    split
    next hmulti =>
      rw [if_pos hmulti] at hscanned
      have hfunctions : ∀ f ∈ (List.range functionsPerSlot).drop 1, 0 < f ∧ f < functionsPerSlot :=
        by decide
      refine (scanFurther_traverses hfunctions (by decide) (fun f hf => ?_) hscanned count).bind_nil
        hreport
      exact ⟨⟨(by decide : (0 : UInt8) < 32), ofNat_lt (hfunctions f hf).2⟩, .inl rfl⟩
    next => exact (Traverses.pure count).bind_nil hreport
  next => exact hlog _ 0

end Scan

end Pci

end EarlyBoot
