import EarlyBoot.Machine
import EarlyBoot.HeapBox

/-!
# ATA drives

A drive of a legacy ATA bus is probed with the IDENTIFY command.  What it is
follows from its status and the signature it leaves; only an ATA drive offers
its identification data.  The model name in that data has two characters in
each word, the first one in the high byte.
-/

namespace EarlyBoot

abbrev IdentifyBlock := Vector UInt16 256

/-- At most forty characters, one byte each. -/
structure DriveModel where
  characters : List UInt8
  length_le : characters.length ≤ 40
  deriving DecidableEq, Repr

namespace DriveModel

def empty : DriveModel := ⟨[], Nat.zero_le 40⟩

def text (model : DriveModel) : String :=
  String.ofList (model.characters.map fun byte => Char.ofNat byte.toNat)

def space : UInt8 := 0x20

def questionMark : UInt8 := 0x3f

def isPrintable (byte : UInt8) : Bool := 0x20 ≤ byte && byte ≤ 0x7e

def printable (byte : UInt8) : UInt8 := if isPrintable byte then byte else questionMark

def firstWord : Nat := 27

def wordCount : Nat := 20

def rawBytes (block : IdentifyBlock) : List UInt8 :=
  ((block.toList.drop firstWord).take wordCount).flatMap fun (word : UInt16) =>
    [(word >>> 8).toUInt8, word.toUInt8]

def trimEnd (bytes : List UInt8) : List UInt8 := (bytes.reverse.dropWhile (· == space)).reverse

theorem length_rawBytes_le (block : IdentifyBlock) : (rawBytes block).length ≤ 40 := by
  have hlength : ((block.toList.drop firstWord).take wordCount).length ≤ 20 := by
    rw [List.length_take]
    exact Nat.min_le_left _ _
  unfold rawBytes
  generalize (block.toList.drop firstWord).take wordCount = words at hlength ⊢
  rw [List.length_flatMap]
  have hsum : ∀ ws : List UInt16,
      (ws.map fun (word : UInt16) => [(word >>> 8).toUInt8, word.toUInt8].length).sum =
        2 * ws.length := by
    intro ws
    induction ws with
    | nil => rfl
    | cons w ws ih =>
        rw [List.map_cons, List.sum_cons, ih, List.length_cons]
        simp only [List.length_cons, List.length_nil]
        omega
  rw [hsum]
  omega

theorem length_trimEnd_le (bytes : List UInt8) : (trimEnd bytes).length ≤ bytes.length := by
  unfold trimEnd
  rw [List.length_reverse]
  exact Nat.le_trans (List.dropWhile_suffix _).length_le (by simp)

/-- The model name; bytes that cannot be shown become question marks, trailing spaces go. -/
def ofIdentify (block : IdentifyBlock) : DriveModel :=
  ⟨trimEnd ((rawBytes block).map printable),
    Nat.le_trans (length_trimEnd_le _) (by simpa using length_rawBytes_le block)⟩

end DriveModel

inductive DrivePosition where
  | master
  | slave
  deriving DecidableEq, Repr

namespace DrivePosition

def describe : DrivePosition → String
  | master => "master"
  | slave => "slave"

def selectByte : DrivePosition → UInt8
  | master => 0xa0
  | slave => 0xb0

end DrivePosition

inductive DriveKind where
  | ata
  | atapi
  | sata
  deriving DecidableEq, Repr

def DriveKind.describe : DriveKind → String
  | ata => "ATA"
  | atapi => "ATAPI"
  | sata => "SATA"

structure AtaDrive where
  position : DrivePosition
  kind : DriveKind
  /-- The identification data, if it could be stored. -/
  identify : Option (HeapBox IdentifyBlock)
  model : DriveModel
  deriving DecidableEq, Repr

instance : Owned AtaDrive := ⟨fun drive => Owned.drop drive.identify⟩

namespace AtaDrive

def describe (drive : AtaDrive) (base : UInt16) : String :=
  s!"ATA 0x{Text.hex base.toNat} {drive.position.describe}: {drive.kind.describe} {drive.model.text}"

end AtaDrive

namespace Ata

open MachineM FirmwareM

variable {β : Type} [PortBus β]

def dataOffset : UInt16 := 0
def sectorCountOffset : UInt16 := 2
def lbaLowOffset : UInt16 := 3
def lbaMidOffset : UInt16 := 4
def lbaHighOffset : UInt16 := 5
def driveSelectOffset : UInt16 := 6

/-- Status when read, command when written. -/
def statusOffset : UInt16 := 7

def errorBit : UInt8 := 0x01

def dataRequestBit : UInt8 := 0x08

def busyBit : UInt8 := 0x80

def identifyCommand : UInt8 := 0xec

def pollLimit : Nat := 10000

def selectPause : Nat := 4

def status (base : UInt16) : MachineM β UInt8 := readByte (base + statusOffset)

def signature (base : UInt16) : MachineM β (UInt8 × UInt8) := do
  let mid ← readByte (base + lbaMidOffset)
  let high ← readByte (base + lbaHighOffset)
  pure (mid, high)

def sendIdentify (base : UInt16) (position : DrivePosition) : MachineM β Unit := do
  writeByte (base + driveSelectOffset) position.selectByte
  delay selectPause
  writeByte (base + sectorCountOffset) 0
  writeByte (base + lbaLowOffset) 0
  writeByte (base + lbaMidOffset) 0
  writeByte (base + lbaHighOffset) 0
  writeByte (base + statusOffset) identifyCommand

def isIdle (base : UInt16) : MachineM β Bool := return (← status base) &&& busyBit == 0

/-- The first of at most `limit` statuses that shows data or an error. -/
def awaitData (base : UInt16) : Nat → MachineM β (Option UInt8)
  | 0 => pure none
  | limit + 1 => do
      let status ← status base
      if status &&& (dataRequestBit ||| errorBit) = 0 then awaitData base limit
      else pure (some status)

def offersData (base : UInt16) : MachineM β Bool := do
  if ← pollUntil (isIdle base) pollLimit then
    if (← signature base) = (0, 0) then
      match ← awaitData base pollLimit with
      | some status => pure (status &&& errorBit == 0)
      | none => pure false
    else pure false
  else pure false

def identify (base : UInt16) (position : DrivePosition) : MachineM β (Option DriveKind) := do
  sendIdentify base position
  if (← status base) = 0 then pure none
  else
    match ← signature base with
    | (0x14, 0xeb) => pure (some .atapi)
    | (0x3c, 0xc3) => pure (some .sata)
    | _ => if ← offersData base then pure (some .ata) else pure none

def readWords (base : UInt16) : Nat → MachineM β (List UInt16)
  | 0 => pure []
  | count + 1 => do
      let word ← readWord (base + dataOffset)
      return word :: (← readWords base count)

def readIdentify (base : UInt16) : MachineM β IdentifyBlock := do
  let words ← readWords base 256
  pure (Vector.ofFn fun i => words[i]?.getD 0)

/-- Stores identification data, or drops it if it does not fit. -/
def storeIdentify (base : UInt16) (position : DrivePosition) (block : IdentifyBlock) :
    FirmwareM (Option (HeapBox IdentifyBlock)) := do
  match ← HeapBox.new block with
  | .ok box => pure (some box)
  | .error error =>
      haltIfFatal error
      warn s!"ATA 0x{Text.hex base.toNat} {position.describe}: identify block dropped: {error.message}"
      pure none

def probeDrive (base : UInt16) (position : DrivePosition) : MachineM β (Option AtaDrive) := do
  match ← identify base position with
  | none => pure none
  | some kind =>
      let drive : AtaDrive ←
        if kind = .ata then do
          let block ← readIdentify base
          let identify ← storeIdentify base position block
          pure { position, kind, identify, model := .ofIdentify block }
        else pure { position, kind, identify := none, model := .empty }
      info (drive.describe base)
      pure (some drive)

end Ata

end EarlyBoot
