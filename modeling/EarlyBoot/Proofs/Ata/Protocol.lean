import EarlyBoot.Ata.Drive
import EarlyBoot.Port.Scripted
import EarlyBoot.Proofs.Bus.Polling
import EarlyBoot.Proofs.Ownership.Refusal

/-!
# The protocol by which drives are identified

A drive is sent the IDENTIFY command, and what it is follows from what its
status and signature registers show from then on.  Its data port is read only
if it offers its identification data, and then exactly once for each word.
-/

namespace EarlyBoot.Ata

open MachineM
open PortBus (byteAt wordAt behind sent)

variable {α β γ : Type} {base : UInt16} {position : DrivePosition} {bus bus' : β}

section Shown

variable [PortBus β]

def statusAt (base : UInt16) (bus : β) : UInt8 := byteAt (base + statusOffset) bus

def afterStatus (base : UInt16) (bus : β) : β := behind .byte (base + statusOffset) bus

def signatureAt (base : UInt16) (bus : β) : UInt8 × UInt8 :=
  (byteAt (base + lbaMidOffset) bus,
    byteAt (base + lbaHighOffset) (behind .byte (base + lbaMidOffset) bus))

def afterSignature (base : UInt16) (bus : β) : β :=
  behind .byte (base + lbaHighOffset) (behind .byte (base + lbaMidOffset) bus)

/-- One of the next statuses shows that the drive is no longer busy; `bus'` is the bus after it. -/
def Settles (base : UInt16) (bus bus' : β) : Prop :=
  ∃ n, FirstTurn (fun bus => statusAt base bus &&& busyBit = 0) (afterStatus base) pollLimit bus n ∧
    bus' = (afterStatus base)^[n + 1] bus

/-- One of the next statuses shows data or an error, and the first such status shows no error. -/
def RequestsData (base : UInt16) (bus : β) : Prop :=
  ∃ n, FirstTurn (fun bus => statusAt base bus &&& (dataRequestBit ||| errorBit) ≠ 0)
      (afterStatus base) pollLimit bus n ∧
    statusAt base ((afterStatus base)^[n] bus) &&& errorBit = 0

def OffersData (base : UInt16) (bus : β) : Prop :=
  ∃ bus', Settles base bus bus' ∧ signatureAt base bus' = (0, 0) ∧
    RequestsData base (afterSignature base bus')

/-- What a drive is that has been sent the command, by its first status and signature. -/
structure Shows (base : UInt16) (bus : β) (kind : Option DriveKind) : Prop where
  ata : kind = some .ata ↔ statusAt base bus ≠ 0 ∧
    signatureAt base (afterStatus base bus) ≠ (0x14, 0xeb) ∧
    signatureAt base (afterStatus base bus) ≠ (0x3c, 0xc3) ∧
    OffersData base (afterSignature base (afterStatus base bus))
  atapi : kind = some .atapi ↔
    statusAt base bus ≠ 0 ∧ signatureAt base (afterStatus base bus) = (0x14, 0xeb)
  sata : kind = some .sata ↔
    statusAt base bus ≠ 0 ∧ signatureAt base (afterStatus base bus) = (0x3c, 0xc3)

end Shown

/-! ## Computations that read status and signature -/

def RegisterReads (base : UInt16) (accesses : List Access) : Prop :=
  ∀ access ∈ accesses, ∃ offset ∈ [lbaMidOffset, lbaHighOffset, statusOffset],
    ∃ value, access = .ofByte (base + offset) value

/-- The computation only reads these registers; `post` says what it answers and leaves. -/
def Inspects (base : UInt16) (x : MachineM β α) (bus : β) (post : α → β → Prop) : Prop :=
  ∃ a bus' reads, Answers x bus a bus' reads ∧ RegisterReads base reads ∧ post a bus'

namespace Inspects

variable {x : MachineM β α} {f : α → MachineM β γ} {a : α} {post : α → β → Prop}
  {post' : γ → β → Prop}

theorem pure (h : post a bus) : Inspects base (pure a : MachineM β α) bus post :=
  ⟨a, bus, [], .pure a bus, fun _ h => absurd h List.not_mem_nil, h⟩

theorem mono {post' : α → β → Prop} (h : Inspects base x bus post)
    (himp : ∀ a bus', post a bus' → post' a bus') : Inspects base x bus post' := by
  obtain ⟨a, bus₁, reads, hrun, hreads, ha⟩ := h
  exact ⟨a, bus₁, reads, hrun, hreads, himp a bus₁ ha⟩

theorem bind (hx : Inspects base x bus post)
    (hf : ∀ a bus', post a bus' → Inspects base (f a) bus' post') :
    Inspects base (x >>= f) bus post' := by
  obtain ⟨a, bus₁, first, hrun, hfirst, ha⟩ := hx
  obtain ⟨c, bus₂, second, hrun', hsecond, hc⟩ := hf a bus₁ ha
  refine ⟨c, bus₂, _, hrun.bind hrun', fun access h => ?_, hc⟩
  exact (List.mem_append.1 h).elim (hfirst access) (hsecond access)

variable [PortBus β]

theorem readByte {offset : UInt16} (hoffset : offset ∈ [lbaMidOffset, lbaHighOffset, statusOffset])
    (bus : β) :
    Inspects base (readByte (base + offset)) bus fun value bus' =>
      value = byteAt (base + offset) bus ∧ bus' = behind .byte (base + offset) bus :=
  ⟨_, _, _, .readByte _ bus, fun _ h => ⟨offset, hoffset, _, List.mem_singleton.1 h⟩, rfl, rfl⟩

end Inspects

section Registers

variable [PortBus β]

theorem status_inspects (base : UInt16) (bus : β) :
    Inspects base (status base) bus fun status bus' =>
      status = statusAt base bus ∧ bus' = afterStatus base bus :=
  .readByte (by decide) bus

theorem signature_inspects (base : UInt16) (bus : β) :
    Inspects base (signature base) bus fun signature bus' =>
      signature = signatureAt base bus ∧ bus' = afterSignature base bus := by
  refine (Inspects.readByte (by decide) bus).bind ?_
  rintro mid bus₁ ⟨rfl, rfl⟩
  refine (Inspects.readByte (by decide) _).bind ?_
  rintro high bus₂ ⟨rfl, rfl⟩
  exact .pure ⟨rfl, rfl⟩

theorem status_poll {poll : Nat → MachineM β γ} {stop : UInt8 → Prop} [DecidablePred stop]
    {found : UInt8 → γ} {missing : γ} (hpolls : Polls poll (status base) stop found missing)
    (limit : Nat) (bus : β) :
    Inspects base (poll limit) bus fun c bus' =>
      (∃ n, FirstTurn (fun bus => stop (statusAt base bus)) (afterStatus base) limit bus n ∧
        c = found (statusAt base ((afterStatus base)^[n] bus)) ∧
        bus' = (afterStatus base)^[n + 1] bus) ∨
      (∀ n, ¬ FirstTurn (fun bus => stop (statusAt base bus)) (afterStatus base) limit bus n) ∧
        c = missing := by
  have hreads (n : Nat) : RegisterReads base (turns (fun bus : β =>
      [.ofByte (base + statusOffset) (statusAt base bus)]) (afterStatus base) n bus) := by
    intro access h
    obtain ⟨i, -, hmade⟩ := mem_turns h
    exact ⟨statusOffset, by decide, _, List.mem_singleton.1 hmade⟩
  rcases hpolls.outcome (fun bus => Answers.readByte _ bus) limit bus with
    ⟨n, hfirst, hpoll⟩ | ⟨hnever, hpoll⟩
  · exact ⟨_, _, _, hpoll, hreads _, .inl ⟨n, hfirst, rfl, rfl⟩⟩
  · exact ⟨_, _, _, hpoll, hreads _, .inr ⟨fun n h => hnever n h.lt h.holds, rfl⟩⟩

theorem awaitData_polls (base : UInt16) :
    Polls (awaitData base : Nat → MachineM β (Option UInt8)) (status base)
      (fun status => status &&& (dataRequestBit ||| errorBit) ≠ 0) some none := by
  refine ⟨rfl, fun limit => ?_⟩
  simp only [awaitData, ne_eq, ite_not]

theorem Settles.unique {bus₁ bus₂ : β} (h₁ : Settles base bus bus₁) (h₂ : Settles base bus bus₂) :
    bus₁ = bus₂ := by
  obtain ⟨n, hn, rfl⟩ := h₁
  obtain ⟨m, hm, rfl⟩ := h₂
  rw [hn.unique hm]

theorem awaitIdle_inspects (base : UInt16) (bus : β) :
    Inspects base (pollUntil (isIdle base) pollLimit) bus fun idle bus' =>
      if idle then Settles base bus bus' else ∀ bus', ¬ Settles base bus bus' := by
  have hpoll := status_poll (pollUntil_polls (status base) (· &&& busyBit == 0)) pollLimit bus
  simp only [beq_iff_eq] at hpoll
  refine hpoll.mono ?_
  rintro idle bus' (⟨n, hfirst, rfl, rfl⟩ | ⟨hnever, rfl⟩)
  · exact ⟨n, hfirst, rfl⟩
  · rintro bus' ⟨n, hfirst, -⟩
    exact hnever n hfirst

theorem awaitData_inspects (base : UInt16) (bus : β) :
    Inspects base (awaitData base pollLimit) bus fun shown _ =>
      RequestsData base bus ↔ ∃ status ∈ shown, status &&& errorBit = 0 := by
  refine (status_poll (awaitData_polls base) pollLimit bus).mono ?_
  rintro shown bus' (⟨n, hfirst, rfl, -⟩ | ⟨hnever, rfl⟩)
  · constructor
    · rintro ⟨m, hm, hclear⟩
      rw [hfirst.unique hm]
      exact ⟨_, rfl, hclear⟩
    · rintro ⟨_, ⟨⟩, hclear⟩
      exact ⟨n, hfirst, hclear⟩
  · refine iff_of_false ?_ (by simp)
    rintro ⟨n, hfirst, -⟩
    exact hnever n hfirst

theorem offersData_inspects (base : UInt16) (bus : β) :
    Inspects base (offersData base) bus fun offers _ => offers = true ↔ OffersData base bus := by
  refine (awaitIdle_inspects base bus).bind fun idle bus₁ hidle => ?_
  cases idle with
  | false =>
      refine .pure (iff_of_false (by simp) ?_)
      rintro ⟨bus', hsettles, -⟩
      exact hidle bus' hsettles
  | true =>
      have hoffers : OffersData base bus ↔
          signatureAt base bus₁ = (0, 0) ∧ RequestsData base (afterSignature base bus₁) := by
        constructor
        · rintro ⟨bus', hsettles, hrest⟩
          rwa [Settles.unique hidle hsettles]
        · exact fun hrest => ⟨bus₁, hidle, hrest⟩
      rw [hoffers]
      refine (signature_inspects base bus₁).bind ?_
      rintro signature bus₂ ⟨rfl, rfl⟩
      split
      next hclear =>
        refine (awaitData_inspects base _).bind fun shown bus₃ hrequests => ?_
        rw [hrequests]
        cases shown with
        | none => exact .pure (by simp)
        | some status => exact .pure (by simp [hclear])
      next hclear => exact .pure (by simp [hclear])

/-! ## Identification -/

def recognize (base : UInt16) : MachineM β (Option DriveKind) := do
  if (← status base) = 0 then pure none
  else
    match ← signature base with
    | (0x14, 0xeb) => pure (some .atapi)
    | (0x3c, 0xc3) => pure (some .sata)
    | _ => if ← offersData base then pure (some .ata) else pure none

theorem identify_eq (base : UInt16) (position : DrivePosition) :
    identify base position = (do
      sendIdentify base position
      recognize base : MachineM β (Option DriveKind)) := rfl

theorem recognize_inspects (base : UInt16) (bus : β) :
    Inspects base (recognize base) bus fun kind _ => Shows base bus kind := by
  refine (status_inspects base bus).bind ?_
  rintro status bus₁ ⟨rfl, rfl⟩
  split
  next hzero => exact .pure ⟨by simp [hzero], by simp [hzero], by simp [hzero]⟩
  next hstatus =>
    refine (signature_inspects base _).bind ?_
    rintro signature bus₂ ⟨hsignature, rfl⟩
    split
    · exact .pure ⟨by simp [← hsignature], by simp [← hsignature, hstatus], by simp [← hsignature]⟩
    · exact .pure ⟨by simp [← hsignature], by simp [← hsignature], by simp [← hsignature, hstatus]⟩
    next hatapi hsata =>
      -- neither signature, so what the drive does next decides
      have hother (pair : UInt8 × UInt8) (h : signature = pair → False) :
          signatureAt base (afterStatus base bus) ≠ pair := hsignature ▸ h
      have hatapi' := hother _ hatapi
      have hsata' := hother _ hsata
      refine (offersData_inspects base _).bind fun offers bus₃ hoffers => ?_
      cases offers <;> exact .pure ⟨by simpa [hstatus, hatapi', hsata'] using hoffers,
        by simp [hatapi'], by simp [hsata']⟩

def command (base : UInt16) (position : DrivePosition) : List (UInt16 × UInt8) :=
  [(base + driveSelectOffset, position.selectByte)] ++ List.replicate selectPause (delayPort, 0) ++
    [(base + sectorCountOffset, 0), (base + lbaLowOffset, 0), (base + lbaMidOffset, 0),
      (base + lbaHighOffset, 0), (base + statusOffset, identifyCommand)]

theorem sendIdentify_sends (base : UInt16) (position : DrivePosition) :
    Sends (sendIdentify base position : MachineM β Unit) (command base position) := by
  unfold sendIdentify command
  rw [List.append_assoc, List.singleton_append]
  refine .writeByte_bind ?_
  refine .bind (.delay selectPause) ?_
  iterate 4 refine .writeByte_bind ?_
  exact .writeByte _ _

/-- First the command is written, and then nothing but status and signature is read. -/
structure Identified (base : UInt16) (position : DrivePosition) (bus : β)
    (kind : Option DriveKind) (bus' : β) (reads : List Access) : Prop where
  answers : Answers (identify base position) bus kind bus'
    (Access.ofWrites (command base position) ++ reads)
  reads : RegisterReads base reads
  shows : Shows base (sent bus (command base position)) kind

theorem exists_identified (base : UInt16) (position : DrivePosition) (bus : β) :
    ∃ kind bus' reads, Identified base position bus kind bus' reads := by
  obtain ⟨kind, bus', reads, hrun, hreads, hshows⟩ :=
    recognize_inspects base (sent bus (command base position))
  refine ⟨kind, bus', reads, ?_, hreads, hshows⟩
  rw [identify_eq]
  exact (sendIdentify_sends base position bus).bind hrun

/-! ## Identification data -/

def dataBlock (base : UInt16) (bus : β) : IdentifyBlock :=
  Vector.ofFn fun i => wordAt (base + dataOffset) ((behind .word (base + dataOffset))^[i] bus)

def afterBlock (base : UInt16) (bus : β) : β := (behind .word (base + dataOffset))^[256] bus

def blockReads (base : UInt16) (bus : β) : List Access :=
  (dataBlock base bus).toList.map (.ofWord (base + dataOffset))

theorem readWords_answers (base : UInt16) (count : Nat) (bus : β) :
    let words := (List.range count).map fun i =>
      wordAt (base + dataOffset) ((behind .word (base + dataOffset))^[i] bus)
    Answers (readWords base count) bus words ((behind .word (base + dataOffset))^[count] bus)
      (words.map (.ofWord (base + dataOffset))) := by
  -- each word is read from the bus that the last one left
  induction count generalizing bus with
  | zero => exact .pure [] bus
  | succ count ih =>
      rw [List.range_succ_eq_map, List.map_cons, List.map_map]
      exact (Answers.readWord _ bus).bind ((ih _).map _)

theorem readIdentify_answers (base : UInt16) (bus : β) :
    Answers (readIdentify base) bus (dataBlock base bus) (afterBlock base bus)
      (blockReads base bus) := by
  have hlist : (List.range 256).map (fun i =>
      wordAt (base + dataOffset) ((behind .word (base + dataOffset))^[i] bus)) =
        (dataBlock base bus).toList := by
    apply List.ext_getElem <;> simp [dataBlock]
  have hblock : (Vector.ofFn fun i : Fin 256 => (dataBlock base bus).toList[i]?.getD 0) =
      dataBlock base bus := by
    ext i hi
    simp
  have hread := (readWords_answers base 256 bus).map fun words =>
    (Vector.ofFn fun i => words[i]?.getD 0 : IdentifyBlock)
  rw [hlist, hblock] at hread
  exact hread

end Registers

/-- The data is in a block of its own if the heap had room for one, and is dropped otherwise. -/
def Kept (block : IdentifyBlock) (f : Firmware) (stored : Option (HeapBox IdentifyBlock))
    (f' : Firmware) : Prop :=
  (stored.isSome ↔ 512 ≤ (f.heap.stats f.memory).largestFree) ∧
    ∀ box ∈ stored, box.read f'.memory = block

theorem storeIdentify_kept {f : Firmware} {blocks : List BlockInfo} (hp : f.heap.Placed)
    (hw : f.heap.WellFormed f.memory blocks) (base : UInt16) (position : DrivePosition)
    (block : IdentifyBlock) :
    ∃ stored f', storeIdentify base position block f = .ok stored f' ∧ Kept block f stored f' := by
  have hdrop : Owned.drop block f = .ok () f := by
    have hplain : Owned.drop block = pure () := Owned.dropAll_plain (fun _ => rfl) block.toList
    rw [hplain]
    rfl
  have hsize : BlockHeap.payloadSize? (Stored.size IdentifyBlock) = some 512 := by decide
  have hfits := HeapBox.fits_iff hp hw (by decide) hsize
  unfold Kept
  rw [← hfits]
  rcases HeapBox.new_outcome hp hw (by decide) hdrop with
    ⟨hfull, error, hexhaustion, hnew⟩ | ⟨hroom, box, f', hnew, hread⟩
  · have hpass : FirmwareM.haltIfFatal error f = .ok () f := by
      rw [FirmwareM.haltIfFatal_of_recoverable hexhaustion.recoverable]
      rfl
    obtain ⟨f', hrun⟩ : ∃ f', storeIdentify base position block f = .ok none f' :=
      ⟨_, (bind_of_answer hnew).trans (bind_of_answer hpass)⟩
    exact ⟨none, f', hrun, iff_of_false (by simp) hfull, by simp⟩
  · exact ⟨some box, f', bind_of_answer hnew, iff_of_true rfl hroom, by simpa using hread⟩

def keepDrive (base : UInt16) (position : DrivePosition) (block : IdentifyBlock) :
    MachineM β (Option AtaDrive) := do
  let identify ← storeIdentify base position block
  let drive : AtaDrive := ⟨position, .ata, identify, .ofIdentify block⟩
  FirmwareM.info (drive.describe base)
  pure (some drive)

theorem keepDrive_kept {machine : Machine β} {blocks : List BlockInfo}
    (hp : machine.firmware.heap.Placed)
    (hw : machine.firmware.heap.WellFormed machine.firmware.memory blocks) (base : UInt16)
    (position : DrivePosition) (block : IdentifyBlock) :
    ∃ stored machine', keepDrive base position block machine =
        .ok (some ⟨position, .ata, stored, .ofIdentify block⟩) machine' ∧
      Kept block machine.firmware stored machine'.firmware := by
  obtain ⟨stored, f', hstored, hkept⟩ := storeIdentify_kept hp hw base position block
  exact ⟨stored, _, lift_bind_of_answer hstored, hkept⟩

theorem keepDrive_firmwareOnly (base : UInt16) (position : DrivePosition) (block : IdentifyBlock) :
    FirmwareOnly (keepDrive base position block : MachineM β (Option AtaDrive)) fun drive =>
      drive.map (·.kind) = some .ata :=
  (FirmwareOnly.lift _).bind fun _ _ => (FirmwareOnly.lift _).bind fun _ _ => .pure rfl

def readsPort (port : UInt16) : Access → Bool
  | .read _ port' _ => port' = port
  | _ => false

theorem countP_ofWrites (port : UInt16) (writes : List (UInt16 × UInt8)) :
    (Access.ofWrites writes).countP (readsPort port) = 0 := by
  rw [List.countP_eq_zero]
  intro access h
  obtain ⟨write, -, rfl⟩ := List.mem_map.1 h
  unfold Access.ofWrite
  split <;> simp [readsPort]

theorem RegisterReads.countP_eq_zero {reads : List Access} (h : RegisterReads base reads) :
    reads.countP (readsPort (base + dataOffset)) = 0 := by
  rw [List.countP_eq_zero]
  intro access haccess
  obtain ⟨offset, hoffset, value, rfl⟩ := h access haccess
  have hne : offset ≠ dataOffset := by
    rintro rfl
    revert hoffset
    decide
  simpa [readsPort, Access.ofByte] using hne

/-! ## Probing -/

variable [PortBus β] {kind : Option DriveKind} {reads : List Access} {machine machine₁ : Machine β}

def probeAccesses (base : UInt16) (position : DrivePosition) (kind : Option DriveKind)
    (reads : List Access) (bus : β) : List Access :=
  Access.ofWrites (command base position) ++ reads ++
    if kind = some .ata then blockReads base bus else []

structure Probed (base : UInt16) (position : DrivePosition) (machine : Machine β)
    (kind : Option DriveKind) (bus : β) (made : List Access) : Prop where
  /-- If the heap cannot be trusted probing may halt, but not before the data has been read. -/
  leaves : Leaves (probeDrive base position) machine (fun drive => drive.map (·.kind) = kind)
    (if kind = some .ata then afterBlock base bus else bus) (machine.trace.recordAll made)
  dataReads : made.countP (readsPort (base + dataOffset)) = if kind = some .ata then 256 else 0
  other : kind ≠ some .ata → ∃ machine', probeDrive base position machine =
    .ok (kind.map fun kind => ⟨position, kind, none, .empty⟩) machine'
  kept : kind = some .ata → ∀ blocks, machine.firmware.heap.Placed →
    machine.firmware.heap.WellFormed machine.firmware.memory blocks →
    ∃ stored machine', probeDrive base position machine =
        .ok (some ⟨position, .ata, stored, .ofIdentify (dataBlock base bus)⟩) machine' ∧
      Kept (dataBlock base bus) machine.firmware stored machine'.firmware

theorem countP_blockReads (base : UInt16) (bus : β) :
    (blockReads base bus).countP (readsPort (base + dataOffset)) = 256 := by
  have hall : ∀ access ∈ blockReads base bus, readsPort (base + dataOffset) access = true := by
    intro access h
    obtain ⟨word, -, rfl⟩ := List.mem_map.1 h
    simp [readsPort, Access.ofWord]
  rw [List.countP_eq_length.2 hall]
  simp [blockReads]

theorem countP_probeAccesses (h : RegisterReads base reads) (position : DrivePosition)
    (kind : Option DriveKind) (bus : β) :
    (probeAccesses base position kind reads bus).countP (readsPort (base + dataOffset)) =
      if kind = some .ata then 256 else 0 := by
  unfold probeAccesses
  rw [List.countP_append, List.countP_append, countP_ofWrites, h.countP_eq_zero]
  split
  · rw [countP_blockReads]
  · rfl

theorem probeDrive_ata {machine₂ : Machine β} {block : IdentifyBlock}
    (hidentify : identify base position machine = .ok (some .ata) machine₁)
    (hread : readIdentify base machine₁ = .ok block machine₂) :
    probeDrive base position machine = keepDrive base position block machine₂ := by
  unfold probeDrive
  rw [bind_of_answer hidentify]
  simp only [↓reduceIte]
  rw [bind_of_answer hread]
  simp only [pure_bind]
  rfl

theorem probeDrive_other (hidentify : identify base position machine = .ok kind machine₁)
    (hkind : kind ≠ some .ata) :
    ∃ f', probeDrive base position machine =
      .ok (kind.map fun kind => ⟨position, kind, none, .empty⟩)
        { machine₁ with firmware := f' } := by
  unfold probeDrive
  rw [bind_of_answer hidentify]
  cases kind with
  | none => exact ⟨machine₁.firmware, rfl⟩
  | some kind =>
      have hother : kind ≠ .ata := fun heq => hkind (congrArg some heq)
      simp only [if_neg hother]
      exact ⟨_, rfl⟩

theorem Identified.probed_ata
    (h : Identified base position machine.bus (some .ata) bus' reads) :
    Probed base position machine (some .ata) bus'
      (probeAccesses base position (some .ata) reads bus') := by
  obtain ⟨f₁, huntouched₁, hidentify⟩ := h.answers machine.firmware machine.trace
  obtain ⟨f₂, huntouched₂, hread⟩ := readIdentify_answers base bus' f₁
    (machine.trace.recordAll (Access.ofWrites (command base position) ++ reads))
  have hprobe := probeDrive_ata hidentify hread
  rw [← Trace.recordAll_append] at hprobe
  have hheap := huntouched₁.trans huntouched₂
  refine ⟨?_, countP_probeAccesses h.reads position _ bus', fun hother => absurd rfl hother, ?_⟩
  · unfold probeAccesses
    rw [if_pos rfl, if_pos rfl]
    exact .of_eq hprobe (keepDrive_firmwareOnly base position (dataBlock base bus') _ _ _)
  · intro _ blocks hp hw
    -- the log is all that has changed since probing began
    unfold Kept
    rw [hprobe, ← hheap.heap, ← hheap.memory]
    rw [← hheap.heap] at hp
    rw [← hheap.heap, ← hheap.memory] at hw
    exact keepDrive_kept hp hw base position (dataBlock base bus')

theorem Identified.probed_other (h : Identified base position machine.bus kind bus' reads)
    (hkind : kind ≠ some .ata) :
    Probed base position machine kind bus' (probeAccesses base position kind reads bus') := by
  obtain ⟨f₁, -, hidentify⟩ := h.answers machine.firmware machine.trace
  obtain ⟨f', hprobe⟩ := probeDrive_other hidentify hkind
  have hmade : probeAccesses base position kind reads bus' =
      Access.ofWrites (command base position) ++ reads := by
    unfold probeAccesses
    rw [if_neg hkind, List.append_nil]
  refine ⟨?_, countP_probeAccesses h.reads position kind bus', fun _ => ⟨_, hprobe⟩,
    fun hata => absurd hata hkind⟩
  rw [if_neg hkind, hmade]
  exact ⟨f', .inl ⟨_, by cases kind <;> rfl, hprobe⟩⟩

/--
On every bus, identifying a drive writes the command and decides by the first
status and signature behind it; an ATA drive must also settle within the limit,
show no signature then, and ask for its data without an error.  Probing reads
the data port of an ATA drive once for each word and that of no other drive, and
stores the words in the order in which they were read if the heap has room.
-/
theorem probing_follows_protocol (base : UInt16) (position : DrivePosition) (machine : Machine β) :
    ∃ kind bus' reads, Identified base position machine.bus kind bus' reads ∧
      Probed base position machine kind bus' (probeAccesses base position kind reads bus') := by
  obtain ⟨kind, bus', reads, h⟩ := exists_identified base position machine.bus
  refine ⟨kind, bus', reads, h, ?_⟩
  by_cases hkind : kind = some .ata
  · subst hkind
    exact h.probed_ata
  · exact h.probed_other hkind

/-- A drive that is busy at first, and then hands out the same word again and again. -/
def slowDrive : Machine ScriptedBus :=
  let bus := ScriptedBus.idle.script 0x1f7 [0x80, 0x80, 0x50]
  let bus := (((bus.fix 0x1f7 0x58).fix 0x1f4 0).fix 0x1f5 0).fix 0x1f0 0x4142
  ⟨⟨Header.write (Memory.ofBytes 0 ByteArray.empty) 64 ⟨true, 4064, none, none⟩, ⟨64, 4096, 2⟩,
    .silent .error, .empty⟩, bus, .empty⟩

theorem slowDrive_hands_out_block : ∃ bus' : ScriptedBus, ∃ box machine',
    probeDrive 0x1f0 .master slowDrive =
      .ok (some ⟨.master, .ata, some box, .ofIdentify (dataBlock 0x1f0 bus')⟩) machine' ∧
    box.read machine'.firmware.memory = dataBlock 0x1f0 bus' ∧
    machine'.trace.accesses.countP (readsPort 0x1f0) = 256 := by
  have hinit : Heap.init 64 4096 ⟨Memory.ofBytes 0 ByteArray.empty, .uninitialized 2,
      .silent .error, .empty⟩ = .ok (.ok ()) slowDrive.firmware := rfl
  obtain ⟨hp, hw, -⟩ := BlockHeap.init_spec (by decide) (Heap.init_eq_ok hinit)
  obtain ⟨kind, bus', reads, hidentified, hprobed⟩ :=
    probing_follows_protocol 0x1f0 .master slowDrive
  have hata : (identify 0x1f0 .master).run' slowDrive = some (some .ata) := by decide +kernel
  obtain ⟨machine₁, hanswer⟩ := answer_of_run hata
  obtain ⟨f₁, -, hrun₁⟩ := hidentified.answers slowDrive.firmware slowDrive.trace
  cases hrun₁.symm.trans hanswer
  obtain ⟨stored, machine', hrun, hroom, hread⟩ := hprobed.kept rfl _ hp hw
  obtain ⟨box, rfl⟩ := Option.isSome_iff_exists.1 (hroom.2 (by decide +kernel))
  refine ⟨bus', box, machine', hrun, hread box rfl, ?_⟩
  obtain ⟨f', ⟨drive, -, hleft⟩ | ⟨reason, hleft⟩⟩ := hprobed.leaves
  · cases hrun.symm.trans hleft
    rw [Trace.accesses_recordAll]
    exact hprobed.dataReads
  · cases hrun.symm.trans hleft

end EarlyBoot.Ata
