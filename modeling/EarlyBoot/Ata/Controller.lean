import EarlyBoot.Ata.Drive
import EarlyBoot.Device.List

/-!
# IDE controllers

A controller in compatibility mode answers on up to four buses at fixed
addresses, and each bus takes a master and a slave drive.  Controllers are kept
in a vector, so they have a stored form; the identification data of their
drives is in blocks of its own, which go away with the controller.
-/

namespace EarlyBoot

structure AtaBus where
  base : UInt16
  master : Option AtaDrive
  slave : Option AtaDrive
  deriving DecidableEq, Repr

namespace AtaBus

def controlOffset : UInt16 := 0x206

def control (bus : AtaBus) : UInt16 := bus.base + controlOffset

def positions (bus : AtaBus) : List (Option AtaDrive) := [bus.master, bus.slave]

def drives (bus : AtaBus) : List AtaDrive := bus.positions.filterMap id

instance : Owned AtaBus := ⟨fun bus => Owned.dropAll bus.positions⟩

end AtaBus

structure IdeController where
  function : PciFunction
  buses : BoundedList AtaBus 4
  deriving DecidableEq, Repr

namespace IdeController

def nativeBit : UInt8 := 0x01

/-- A controller whose primary channel is in native mode does not use the fixed addresses. -/
def isNativeMode (function : PciFunction) : Bool := function.progIf &&& nativeBit != 0

def isNative (controller : IdeController) : Bool := isNativeMode controller.function

instance : Owned IdeController := ⟨fun controller => Owned.dropAll controller.buses.val⟩

end IdeController

namespace DriveModel

instance : Stored DriveModel :=
  letI := Stored.bounded (α := UInt8) 40 (by decide)
  Stored.via 41 1 (fun model => (⟨model.characters, model.length_le⟩ : BoundedList UInt8 40))
    (fun characters => ⟨characters.val, characters.property⟩) (fun _ => rfl) (by decide)

end DriveModel

namespace DrivePosition

def code : DrivePosition → UInt8
  | master => 0
  | slave => 1

def ofCode (code : UInt8) : DrivePosition := if code = 0 then master else slave

theorem ofCode_code (position : DrivePosition) : ofCode position.code = position := by
  cases position <;> rfl

instance : Stored DrivePosition :=
  Stored.coded code ofCode ofCode_code

end DrivePosition

namespace DriveKind

def code : DriveKind → UInt8
  | ata => 0
  | atapi => 1
  | sata => 2

def ofCode (code : UInt8) : DriveKind :=
  match code.toNat with
  | 0 => ata
  | 1 => atapi
  | _ => sata

theorem ofCode_code (kind : DriveKind) : ofCode kind.code = kind := by
  cases kind <;> rfl

instance : Stored DriveKind :=
  Stored.coded code ofCode ofCode_code

end DriveKind

instance : Stored AtaDrive :=
  Stored.via 60 8 (fun drive => (drive.identify, drive.model, drive.position, drive.kind))
    (fun (identify, model, position, kind) => ⟨position, kind, identify, model⟩)
    (fun _ => rfl) (by decide)

instance : Stored AtaBus :=
  letI := Stored.flagged (α := AtaDrive)
  Stored.via 128 8 (fun bus => (bus.base, bus.master, bus.slave))
    (fun (base, master, slave) => ⟨base, master, slave⟩) (fun _ => rfl) (by decide)

instance : Stored IdeController :=
  letI := Stored.bounded (α := AtaBus) 4 (by decide)
  Stored.via 568 8 (fun controller => (controller.function, controller.buses))
    (fun (function, buses) => ⟨function, buses⟩) (fun _ => rfl) (by decide)

end EarlyBoot
