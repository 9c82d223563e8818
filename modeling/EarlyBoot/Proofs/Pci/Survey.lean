import EarlyBoot.Proofs.Pci.Emulated
import EarlyBoot.Proofs.Pci.Recording

/-!
# A survey of a scripted bus

The scan changes the very registers that it reads: it starts the self test of
the functions it records.  That changes one bit, in which no decision and no
field of a record depends.  So the scan sees the functions as they were in the
beginning, whichever it has recorded in the meantime, and what it records can be
told from the bus it started with.
-/

namespace EarlyBoot

open MachineM (Answers)
open PciFunction (multiFunctionBit)

variable {α γ δ : Type}

namespace Pci

variable {a : PciAddress} {registers : PciRegisters}

def selfTestBit : UInt32 := 0x80000000

/-- The registers behind the start of the self test, if the function has one. -/
def started (registers : PciRegisters) : PciRegisters :=
  if registers.get 3 &&& selfTestBit = 0 then registers
  else registers.setIfInBounds 3 (registers.get 3 ||| selfTestStart)

def functionOf (a : PciAddress) (registers : PciRegisters) : PciFunction :=
  { address := a
    vendorId := (registers.get 0).toUInt16
    deviceId := (registers.get 0 >>> 16).toUInt16
    classCode := byteOf (registers.get 2) 3
    subclass := byteOf (registers.get 2) 2
    progIf := byteOf (registers.get 2) 1
    revision := byteOf (registers.get 2) 0
    headerType := byteOf (registers.get 3) 2
    interruptLine := byteOf (registers.get 15) 0
    selfTestStarted := registers.get 3 &&& selfTestBit != 0 }

def hasVendor (registers : PciRegisters) : Bool := (registers.get 0).toUInt16 != noVendor

def isMultiFunction (registers : PciRegisters) : Bool :=
  byteOf (registers.get 3) 2 &&& multiFunctionBit != 0

theorem byteOf_or (x y i : UInt32) : byteOf (x ||| y) i = byteOf x i ||| byteOf y i := by
  unfold byteOf
  apply UInt8.toBitVec_inj.1
  ext j hj
  simp

theorem selfTestCapable_iff (x : UInt32) :
    byteOf x 3 &&& selfTestCapable = 0 ↔ x &&& selfTestBit = 0 := by
  have hbyte : (byteOf x 3 &&& selfTestCapable).toBitVec =
      if x.toBitVec.getLsbD 31 then BitVec.twoPow 8 7 else 0 := by
    have hbit : (byteOf x 3).toBitVec.getLsbD 7 = x.toBitVec.getLsbD 31 := by simp [byteOf]
    rw [← hbit]
    exact BitVec.and_twoPow _ 7
  have hword : (x &&& selfTestBit).toBitVec =
      if x.toBitVec.getLsbD 31 then BitVec.twoPow 32 31 else 0 := BitVec.and_twoPow _ 31
  rw [← UInt8.toBitVec_inj, ← UInt32.toBitVec_inj, hbyte, hword]
  cases x.toBitVec.getLsbD 31 <;> decide

theorem selfTestBit_or_start (x : UInt32) :
    (x ||| selfTestStart) &&& selfTestBit = x &&& selfTestBit := by
  rw [or_and_distrib]
  exact UInt32.or_zero

theorem started_of_ne {i : Fin 64} (hne : 3 ≠ i.val) :
    (started registers).get i = registers.get i := by
  unfold started
  split
  · rfl
  · exact Vector.getElem_setIfInBounds_ne i.isLt hne

theorem started_header : (started registers).get 3 = registers.get 3 ∨
    (started registers).get 3 = registers.get 3 ||| selfTestStart := by
  unfold started
  split
  · exact .inl rfl
  · exact .inr (Vector.getElem_setIfInBounds_self (by decide))

theorem selfTestBit_started :
    (started registers).get 3 &&& selfTestBit = registers.get 3 &&& selfTestBit := by
  rcases started_header with hsame | hset
  · rw [hsame]
  · rw [hset, selfTestBit_or_start]

theorem headerType_started : byteOf ((started registers).get 3) 2 = byteOf (registers.get 3) 2 := by
  rcases started_header with hsame | hset
  · rw [hsame]
  · rw [hset, byteOf_or]
    exact UInt8.or_zero

theorem started_started : started (started registers) = started registers := by
  by_cases hnone : registers.get 3 &&& selfTestBit = 0
  · have hsame : started registers = registers := if_pos hnone
    rw [hsame, hsame]
  · have hset :
        started registers = registers.setIfInBounds 3 (registers.get 3 ||| selfTestStart) :=
      if_neg hnone
    have hheader : (started registers).get 3 = registers.get 3 ||| selfTestStart := by
      rw [hset]
      exact Vector.getElem_setIfInBounds_self (by decide)
    have hcapable : ¬ (started registers).get 3 &&& selfTestBit = 0 := by
      rwa [selfTestBit_started]
    have hagain : started (started registers) = (started registers).setIfInBounds 3
        ((started registers).get 3 ||| selfTestStart) := if_neg hcapable
    rw [hagain, hheader, UInt32.or_assoc, UInt32.or_self, hset, Vector.setIfInBounds_setIfInBounds]

theorem functionOf_started : functionOf a (started registers) = functionOf a registers := by
  unfold functionOf
  rw [headerType_started, selfTestBit_started, started_of_ne (by decide), started_of_ne (by decide),
    started_of_ne (by decide)]

end Pci

namespace ScriptedBus

variable {bus : ScriptedBus} {a : PciAddress} {registers : PciRegisters}

def responds (bus : ScriptedBus) (a : PciAddress) : Bool :=
  (bus.registers? a).any Pci.hasVendor

def isMultiFunction (bus : ScriptedBus) (a : PciAddress) : Bool :=
  (bus.registers? a).any Pci.isMultiFunction

def functionAt (bus : ScriptedBus) (a : PciAddress) : PciFunction :=
  Pci.functionOf a ((bus.registers? a).getD (Vector.replicate 64 allOnes))

theorem responds_iff : bus.responds a = true ↔
    ∃ registers, bus.registers? a = some registers ∧ Pci.hasVendor registers = true :=
  Option.any_eq_true _ _

theorem functionAt_of_some (hregisters : bus.registers? a = some registers) :
    bus.functionAt a = Pci.functionOf a registers := by
  unfold functionAt
  rw [hregisters]
  rfl

theorem register_of_some {offset : UInt8} {i : Fin 64}
    (hregisters : bus.registers? a = some registers) (hplace : offset.toNat / 4 = i) :
    bus.register a offset = registers.get i := by
  unfold register
  rw [hregisters]
  change (registers[offset.toNat / 4]?).getD _ = _
  rw [hplace, Vector.getElem?_eq_getElem i.isLt]
  rfl

theorem register_id (hregisters : bus.registers? a = some registers) :
    bus.register a Pci.idRegister = registers.get 0 :=
  register_of_some hregisters rfl

theorem register_class (hregisters : bus.registers? a = some registers) :
    bus.register a Pci.classRegister = registers.get 2 :=
  register_of_some hregisters rfl

theorem register_header (hregisters : bus.registers? a = some registers) :
    bus.register a Pci.headerRegister = registers.get 3 :=
  register_of_some hregisters rfl

theorem register_interrupt (hregisters : bus.registers? a = some registers) :
    bus.register a Pci.interruptRegister = registers.get 15 :=
  register_of_some hregisters rfl

theorem register_of_none {offset : UInt8} (hnone : bus.registers? a = none) :
    bus.register a offset = allOnes := by
  unfold register
  rw [hnone]
  rfl

theorem vendor_register (bus : ScriptedBus) (a : PciAddress) :
    ((bus.register a Pci.idRegister).toUInt16 != Pci.noVendor) = bus.responds a := by
  unfold responds
  cases hregisters : bus.registers? a with
  | none =>
      rw [register_of_none hregisters]
      rfl
  | some registers =>
      rw [register_id hregisters]
      rfl

/--
The registers are those from the beginning, except that the self tests of some
functions have been started.
-/
def Probed (bus₀ : ScriptedBus) (done : List PciAddress) (bus : ScriptedBus) : Prop :=
  ∀ key, bus.pciFunctions.get? key = (bus₀.pciFunctions.get? key).map fun registers =>
    if key ∈ done.map PciAddress.key then Pci.started registers else registers

namespace Probed

variable {bus₀ : ScriptedBus} {done : List PciAddress} {bus' : ScriptedBus}

theorem refl (bus : ScriptedBus) : Probed bus [] bus := by
  intro key
  cases bus.pciFunctions.get? key <;> rfl

theorem congr (h : Probed bus₀ done bus) (hsame : bus'.pciFunctions = bus.pciFunctions) :
    Probed bus₀ done bus' := by
  intro key
  rw [hsame]
  exact h key

theorem registers?_eq (h : Probed bus₀ done bus) (a : PciAddress) :
    bus.registers? a = (bus₀.registers? a).map fun registers =>
      if a.key ∈ done.map PciAddress.key then Pci.started registers else registers :=
  h a.key

theorem any_eq (h : Probed bus₀ done bus) {p : PciRegisters → Bool}
    (hp : ∀ registers, p (Pci.started registers) = p registers) (a : PciAddress) :
    (bus.registers? a).any p = (bus₀.registers? a).any p := by
  rw [h.registers?_eq]
  cases bus₀.registers? a with
  | none => rfl
  | some registers =>
      change p (if _ then _ else _) = p registers
      split
      · exact hp registers
      · rfl

theorem responds_eq (h : Probed bus₀ done bus) (a : PciAddress) :
    bus.responds a = bus₀.responds a :=
  h.any_eq (fun _ => congrArg (fun id : UInt32 => id.toUInt16 != Pci.noVendor)
    (Pci.started_of_ne (by decide))) a

theorem isMultiFunction_eq (h : Probed bus₀ done bus) (a : PciAddress) :
    bus.isMultiFunction a = bus₀.isMultiFunction a :=
  h.any_eq (fun _ => congrArg (fun type : UInt8 => type &&& multiFunctionBit != 0)
    Pci.headerType_started) a

theorem functionAt_eq (h : Probed bus₀ done bus) (a : PciAddress) :
    bus.functionAt a = bus₀.functionAt a := by
  unfold functionAt
  rw [h.registers?_eq]
  cases bus₀.registers? a with
  | none => rfl
  | some registers =>
      change Pci.functionOf a (if _ then _ else _) = Pci.functionOf a registers
      split
      · exact Pci.functionOf_started
      · rfl

theorem start (h : Probed bus₀ done bus) (hregisters : bus.registers? a = some registers)
    (hstart : ∀ key, bus'.pciFunctions.get? key =
      if key = a.key then some (Pci.started registers) else bus.pciFunctions.get? key) :
    Probed bus₀ (done ++ [a]) bus' := by
  intro key
  rw [hstart, List.map_append, List.map_singleton]
  by_cases hkey : key = a.key
  · subst hkey
    have hbefore := h a.key
    change bus.registers? a = _ at hbefore
    rw [hregisters] at hbefore
    obtain ⟨registers₀, hregisters₀, hsame⟩ := Option.map_eq_some_iff.1 hbefore.symm
    rw [if_pos rfl, hregisters₀, Option.map_some, if_pos (by simp), ← hsame]
    split
    · rw [Pci.started_started]
    · rfl
  · have hmem : key ∈ done.map PciAddress.key ++ [a.key] ↔ key ∈ done.map PciAddress.key := by
      simp [hkey]
    rw [if_neg hkey, h key]
    simp only [hmem]

end Probed

end ScriptedBus

/-! ## Reading a function -/

namespace Pci

open ScriptedBus (Probed)

variable {bus bus₀ : ScriptedBus} {a : PciAddress} {registers : PciRegisters}

def Reads (x : MachineM ScriptedBus α) (bus : ScriptedBus) (v : α) : Prop :=
  ∃ bus' accesses, Answers x bus v bus' accesses ∧ bus'.pciFunctions = bus.pciFunctions

namespace Reads

variable {x : MachineM ScriptedBus α} {v : α}

theorem map (hx : Reads x bus v) (g : α → γ) : Reads (do return g (← x)) bus (g v) := by
  obtain ⟨bus', accesses, hanswers, hsame⟩ := hx
  exact ⟨bus', _, hanswers.bind (.pure _ bus'), hsame⟩

theorem log (level : LogLevel) (message : String) (bus : ScriptedBus) :
    Reads (liftM (FirmwareM.log level message)) bus () :=
  ⟨bus, [], .log level message bus, rfl⟩

end Reads

theorem isPresent_reads (ha : a.Addressable) (bus : ScriptedBus) :
    Reads (isPresent a) bus (bus.responds a) := by
  rw [← ScriptedBus.vendor_register]
  exact Reads.map (readRegister_answers ha bus idRegister) _

theorem headerType_reads (ha : a.Addressable) (hregisters : bus.registers? a = some registers) :
    Reads (headerType a) bus (byteOf (registers.get 3) 2) := by
  rw [← ScriptedBus.register_header hregisters]
  exact Reads.map (readRegister_answers ha bus headerRegister) (byteOf · 2)

theorem hasManyFunctions_reads (ha : a.Addressable)
    (hregisters : bus.registers? a = some registers) :
    Reads (hasManyFunctions a) bus (bus.isMultiFunction a) := by
  have hmulti : bus.isMultiFunction a = (byteOf (registers.get 3) 2 &&& multiFunctionBit != 0) := by
    unfold ScriptedBus.isMultiFunction
    rw [hregisters]
    rfl
  rw [hmulti]
  exact (headerType_reads ha hregisters).map _

theorem startSelfTest_answers (ha : a.Addressable)
    (hregisters : bus.registers? a = some registers) :
    ∃ bus' accesses,
      Answers (startSelfTest a) bus (registers.get 3 &&& selfTestBit != 0) bus' accesses ∧
      ∀ key, bus'.pciFunctions.get? key =
        if key = a.key then some (started registers) else bus.pciFunctions.get? key := by
  obtain ⟨bus₁, first, hheader, hsame⟩ := readRegister_answers ha bus headerRegister
  rw [ScriptedBus.register_header hregisters] at hheader
  have hregisters₁ : bus₁.registers? a = some registers := by
    unfold ScriptedBus.registers?
    rw [hsame]
    exact hregisters
  by_cases hnone : registers.get 3 &&& selfTestBit = 0
  · have hfalse : (registers.get 3 &&& selfTestBit != 0) = false := by simp [hnone]
    rw [hfalse]
    refine ⟨bus₁, first ++ [], hheader.bind ?_, fun key => ?_⟩
    · rw [if_pos ((selfTestCapable_iff _).2 hnone)]
      exact .pure false bus₁
    · rw [hsame, started, if_pos hnone, ← hregisters]
      split
      next hkey =>
        rw [hkey]
        rfl
      next => rfl
  · obtain ⟨bus₂, second, hwrite, hinserted⟩ := writeRegister_answers ha hregisters₁ headerRegister
      (registers.get 3 ||| selfTestStart)
    have htrue : (registers.get 3 &&& selfTestBit != 0) = true := bne_iff_ne.2 hnone
    rw [htrue]
    refine ⟨bus₂, first ++ (second ++ []), hheader.bind ?_, fun key => ?_⟩
    · rw [if_neg fun hzero => hnone ((selfTestCapable_iff _).1 hzero)]
      exact hwrite.bind (.pure true bus₂)
    · rw [hinserted, Table.get?_insert, hsame, started, if_neg hnone]
      rfl

theorem readFunction_answers (ha : a.Addressable) (hregisters : bus.registers? a = some registers) :
    ∃ bus' accesses, Answers (readFunction a) bus (functionOf a registers) bus' accesses ∧
      ∀ key, bus'.pciFunctions.get? key =
        if key = a.key then some (started registers) else bus.pciFunctions.get? key := by
  have hkept {bus' : ScriptedBus} (hsame : bus'.pciFunctions = bus.pciFunctions) :
      bus'.registers? a = some registers := by
    unfold ScriptedBus.registers?
    rw [hsame]
    exact hregisters
  obtain ⟨bus₁, first, hid, hsame₁⟩ := readRegister_answers ha bus idRegister
  obtain ⟨bus₂, second, hclass, hsame₂⟩ := readRegister_answers ha bus₁ classRegister
  have hsame₂ := hsame₂.trans hsame₁
  obtain ⟨bus₃, third, hinterrupt, hsame₃⟩ := readRegister_answers ha bus₂ interruptRegister
  have hsame₃ := hsame₃.trans hsame₂
  obtain ⟨bus₄, fourth, hheader, hsame₄⟩ := headerType_reads ha (hkept hsame₃)
  have hsame₄ := hsame₄.trans hsame₃
  obtain ⟨bus₅, fifth, hstart, hafter⟩ := startSelfTest_answers ha (hkept hsame₄)
  rw [ScriptedBus.register_id hregisters] at hid
  rw [ScriptedBus.register_class (hkept hsame₁)] at hclass
  rw [ScriptedBus.register_interrupt (hkept hsame₂)] at hinterrupt
  refine ⟨bus₅, first ++ (second ++ (third ++ (fourth ++ (fifth ++ [])))), ?_, ?_⟩
  · refine .bind hid ?_
    refine .bind hclass ?_
    refine .bind hinterrupt ?_
    refine .bind hheader ?_
    exact .bind hstart (.pure _ bus₅)
  · intro key
    rw [hafter, hsame₄]

/-! ## Surveys -/

/--
From every bus on which no more than self tests have been started, the scan gives
this answer and finds the functions at these addresses as they were at first.
-/
def Surveys (x : PciScanM ScriptedBus α) (bus₀ : ScriptedBus) (v : α) (found : List PciAddress) :
    Prop :=
  ∀ done bus, Probed bus₀ done bus → ∃ bus' accesses,
    Finds x bus v (found.map bus₀.functionAt) bus' accesses ∧ Probed bus₀ (done ++ found) bus'

namespace Surveys

variable {x : PciScanM ScriptedBus α} {k : α → PciScanM ScriptedBus γ} {v : α} {w : γ}
  {found more : List PciAddress}

theorem pure (v : α) : Surveys (pure v) bus₀ v [] := by
  intro done bus h
  rw [List.append_nil]
  exact ⟨bus, [], .pure v bus, h⟩

theorem reads_bind {y : MachineM ScriptedBus α}
    (hy : ∀ done bus, Probed bus₀ done bus → Reads y bus v) (hk : Surveys (k v) bus₀ w found) :
    Surveys (onMachine y >>= k) bus₀ w found := by
  intro done bus h
  obtain ⟨bus₁, first, hanswers, hsame⟩ := hy done bus h
  obtain ⟨bus₂, second, hfinds, h₂⟩ := hk done bus₁ (h.congr hsame)
  exact ⟨bus₂, _, .answers_bind hanswers hfinds, h₂⟩

theorem bind (hx : Surveys x bus₀ v found) (hk : Surveys (k v) bus₀ w more) :
    Surveys (x >>= k) bus₀ w (found ++ more) := by
  intro done bus h
  obtain ⟨bus₁, first, hfinds, h₁⟩ := hx done bus h
  obtain ⟨bus₂, second, hfinds', h₂⟩ := hk _ bus₁ h₁
  rw [List.map_append, ← List.append_assoc]
  exact ⟨bus₂, _, hfinds.bind hfinds', h₂⟩

theorem bind_nil (hx : Surveys x bus₀ v found) (hk : Surveys (k v) bus₀ w []) :
    Surveys (x >>= k) bus₀ w found := by
  have hboth := hx.bind hk
  rwa [List.append_nil] at hboth

theorem foldlM {g : Nat → δ → PciScanM ScriptedBus Nat} {part : δ → List PciAddress} {xs : List δ}
    (hg : ∀ i ∈ xs, ∀ count, Surveys (g count i) bus₀ (count + (part i).length) (part i))
    (count : Nat) :
    Surveys (xs.foldlM g count) bus₀ (count + (xs.flatMap part).length) (xs.flatMap part) := by
  induction xs generalizing count with
  | nil => exact pure count
  | cons i rest ih =>
      have hrest := ih (fun j hj => hg j (.tail i hj)) (count + (part i).length)
      rw [List.foldlM_cons, List.flatMap_cons, List.length_append, ← Nat.add_assoc]
      exact (hg i (.head rest) count).bind hrest

end Surveys

/-! ## What the scan finds -/

theorem isPresent_reads_first (ha : a.Addressable) (done : List PciAddress) (bus : ScriptedBus)
    (h : Probed bus₀ done bus) : Reads (isPresent a) bus (bus₀.responds a) := by
  rw [← h.responds_eq]
  exact isPresent_reads ha bus

theorem hasManyFunctions_reads_first (ha : a.Addressable) (hresponds : bus₀.responds a = true)
    (done : List PciAddress) (bus : ScriptedBus) (h : Probed bus₀ done bus) :
    Reads (hasManyFunctions a) bus (bus₀.isMultiFunction a) := by
  rw [← h.responds_eq] at hresponds
  obtain ⟨registers, hregisters, -⟩ := ScriptedBus.responds_iff.1 hresponds
  rw [← h.isMultiFunction_eq]
  exact hasManyFunctions_reads ha hregisters

theorem recordFunction_surveys (ha : a.Addressable) (hresponds : bus₀.responds a = true) :
    Surveys (recordFunction a) bus₀ () [a] := by
  intro done bus h
  rw [← h.responds_eq] at hresponds
  obtain ⟨registers, hregisters, -⟩ := ScriptedBus.responds_iff.1 hresponds
  obtain ⟨bus', accesses, hread, hafter⟩ := readFunction_answers ha hregisters
  refine ⟨bus', accesses, ?_, h.start hregisters hafter⟩
  rw [List.map_singleton, ← h.functionAt_eq, ScriptedBus.functionAt_of_some hregisters]
  exact recordFunction_finds rfl hread

end Pci

namespace ScriptedBus

def found (bus : ScriptedBus) (a : PciAddress) : List PciAddress :=
  if bus.responds a then [a] else []

def functionsOfSlot (bus : ScriptedBus) (b slot : UInt8) : List PciAddress :=
  if bus.responds ⟨b, slot, 0⟩ then
    (List.range (if bus.isMultiFunction ⟨b, slot, 0⟩ then Pci.functionsPerSlot else 1)).flatMap
      fun f => bus.found ⟨b, slot, UInt8.ofNat f⟩
  else []

def functionsOfBus (bus : ScriptedBus) (b : UInt8) : List PciAddress :=
  (List.range Pci.slotsPerBus).flatMap fun slot => bus.functionsOfSlot b (UInt8.ofNat slot)

/-- The buses behind the host bridge, up to the first function that is missing. -/
def furtherBuses (bus : ScriptedBus) (functions : List Nat) : List Nat :=
  functions.takeWhile fun f => bus.responds ⟨0, 0, UInt8.ofNat f⟩

def scannedBuses (bus : ScriptedBus) : List Nat :=
  0 :: if bus.isMultiFunction .host then
    bus.furtherBuses ((List.range Pci.functionsPerSlot).drop 1) else []

/-- Where the scan finds functions, in this order. -/
def foundFunctions (bus : ScriptedBus) : List PciAddress :=
  if bus.responds .host then bus.scannedBuses.flatMap fun b => bus.functionsOfBus (UInt8.ofNat b)
  else []

theorem flatMap_scannedBuses (bus : ScriptedBus) :
    (bus.scannedBuses.flatMap fun b => bus.functionsOfBus (UInt8.ofNat b)) =
      bus.functionsOfBus 0 ++
        bus.scannedBuses.tail.flatMap fun b => bus.functionsOfBus (UInt8.ofNat b) :=
  List.flatMap_cons

end ScriptedBus

namespace Pci

open ScriptedBus (Probed)

variable {bus₀ : ScriptedBus}

theorem ofNat_lt {i : Nat} {n : UInt8} (h : i < n.toNat) : UInt8.ofNat i < n := by
  rw [UInt8.lt_iff_toNat_lt, UInt8.toNat_ofNat_of_lt' (h.trans n.toNat_lt)]
  exact h

theorem scanFunction_surveys {b slot : UInt8} {f : Nat} (hslot : slot < 32)
    (hf : f < functionsPerSlot) (count : Nat) :
    Surveys (scanFunction b slot count f) bus₀
      (count + (bus₀.found ⟨b, slot, UInt8.ofNat f⟩).length)
      (bus₀.found ⟨b, slot, UInt8.ofNat f⟩) := by
  have ha : PciAddress.Addressable ⟨b, slot, UInt8.ofNat f⟩ := ⟨hslot, ofNat_lt hf⟩
  refine .reads_bind (isPresent_reads_first ha) ?_
  unfold ScriptedBus.found
  split
  next hresponds => exact (recordFunction_surveys ha hresponds).bind (.pure (count + 1))
  next => exact .pure count

theorem scanSlot_surveys {b : UInt8} {slot : Nat} (hslot : slot < slotsPerBus) (count : Nat) :
    Surveys (scanSlot b count slot) bus₀
      (count + (bus₀.functionsOfSlot b (UInt8.ofNat slot)).length)
      (bus₀.functionsOfSlot b (UInt8.ofNat slot)) := by
  have hslot : UInt8.ofNat slot < 32 := ofNat_lt hslot
  have ha : PciAddress.Addressable ⟨b, UInt8.ofNat slot, 0⟩ :=
    ⟨hslot, (by decide : (0 : UInt8) < 8)⟩
  refine .reads_bind (isPresent_reads_first ha) ?_
  unfold ScriptedBus.functionsOfSlot
  split
  next hresponds =>
    refine .reads_bind (hasManyFunctions_reads_first ha hresponds) ?_
    let functions := if bus₀.isMultiFunction ⟨b, UInt8.ofNat slot, 0⟩ then functionsPerSlot else 1
    have hmost : functions ≤ functionsPerSlot := by
      unfold functions
      split <;> decide
    have hfunction : ∀ f ∈ List.range functions, ∀ count,
        Surveys (scanFunction b (UInt8.ofNat slot) count f) bus₀
          (count + (bus₀.found ⟨b, UInt8.ofNat slot, UInt8.ofNat f⟩).length)
          (bus₀.found ⟨b, UInt8.ofNat slot, UInt8.ofNat f⟩) :=
      fun f hf => scanFunction_surveys hslot ((List.mem_range.1 hf).trans_le hmost)
    exact Surveys.foldlM hfunction count
  next => exact .pure count

theorem scanBus_surveys (b : UInt8) (count : Nat) :
    Surveys (scanBus b count) bus₀ (count + (bus₀.functionsOfBus b).length)
      (bus₀.functionsOfBus b) :=
  .foldlM (fun _ hslot count => scanSlot_surveys (List.mem_range.1 hslot) count) count

theorem scanFurther_surveys {functions : List Nat}
    (hfunctions : ∀ f ∈ functions, f < functionsPerSlot) (count : Nat) :
    Surveys (scanFurther count functions) bus₀
      (count + ((bus₀.furtherBuses functions).flatMap fun b =>
        bus₀.functionsOfBus (UInt8.ofNat b)).length)
      ((bus₀.furtherBuses functions).flatMap fun b => bus₀.functionsOfBus (UInt8.ofNat b)) := by
  induction functions generalizing count with
  | nil => exact .pure count
  | cons f rest ih =>
      have ha : PciAddress.Addressable ⟨0, 0, UInt8.ofNat f⟩ :=
        ⟨(by decide : (0 : UInt8) < 32), ofNat_lt (hfunctions f (.head rest))⟩
      refine .reads_bind (isPresent_reads_first ha) ?_
      by_cases hresponds : bus₀.responds ⟨0, 0, UInt8.ofNat f⟩ = true
      · have hbuses : bus₀.furtherBuses (f :: rest) = f :: bus₀.furtherBuses rest :=
          List.takeWhile_cons_of_pos hresponds
        rw [hbuses, if_pos hresponds, List.flatMap_cons, List.length_append, ← Nat.add_assoc]
        exact (scanBus_surveys _ count).bind (ih (fun g hg => hfunctions g (.tail f hg)) _)
      · have hbuses : bus₀.furtherBuses (f :: rest) = [] := List.takeWhile_cons_of_neg hresponds
        rw [hbuses, if_neg hresponds]
        exact .pure count

theorem enumerate_surveys (bus : ScriptedBus) :
    Surveys enumerate bus bus.foundFunctions.length bus.foundFunctions := by
  have hhost : PciAddress.host.Addressable := ⟨by decide, by decide⟩
  have hlog (message : String) (count : Nat) :
      Surveys (onMachine (FirmwareM.info message) >>= fun _ => pure count) bus count [] :=
    .reads_bind (fun _ bus _ => .log _ _ bus) (.pure count)
  refine .reads_bind (isPresent_reads_first hhost) ?_
  unfold ScriptedBus.foundFunctions
  split
  next hresponds =>
    rw [bus.flatMap_scannedBuses, List.length_append]
    have hfirst : Surveys (scanBus 0 0) bus (0 + (bus.functionsOfBus 0).length) _ :=
      scanBus_surveys 0 0
    rw [Nat.zero_add] at hfirst
    refine hfirst.bind (.reads_bind (hasManyFunctions_reads_first hhost hresponds) ?_)
    unfold ScriptedBus.scannedBuses
    split
    next =>
      have hbound : ∀ f ∈ (List.range functionsPerSlot).drop 1, f < functionsPerSlot := by decide
      exact (scanFurther_surveys hbound _).bind_nil (hlog _ _)
    next => exact (Surveys.pure (bus.functionsOfBus 0).length).bind (hlog _ _)
  next => exact hlog _ 0

end Pci

end EarlyBoot
