import EarlyBoot.Bitmap
import EarlyBoot.Boot
import EarlyBoot.PanicReport
import EarlyBoot.Port.Scripted
import EarlyBoot.Slab
import EarlyBoot.Proofs.BlockHeap.Layout
import EarlyBoot.Proofs.BlockHeap.Queries
import EarlyBoot.Proofs.BlockHeap.Rearrange
import EarlyBoot.Proofs.BlockHeap.Rewrite
import EarlyBoot.Proofs.BlockHeap.Split
import EarlyBoot.Proofs.BlockHeap.Operations
import EarlyBoot.Proofs.BlockHeap.Effect
import EarlyBoot.Proofs.BlockHeap.Outcome
import EarlyBoot.Proofs.BlockHeap.Session
import EarlyBoot.Proofs.BlockHeap.Contents
import EarlyBoot.Proofs.BlockHeap.Containment
import EarlyBoot.Proofs.BlockHeap.Misuse
import EarlyBoot.Proofs.BlockHeap.Robustness
import EarlyBoot.Proofs.BlockHeap.Acceptance
import EarlyBoot.Proofs.BlockHeap.Emptied
import EarlyBoot.Proofs.BlockHeap.ReleaseOrder
import EarlyBoot.Proofs.BlockHeap.Accounting
import EarlyBoot.Proofs.BlockHeap.Reports
import EarlyBoot.Proofs.BlockHeap.Trust
import EarlyBoot.Proofs.BlockHeap.Sharing
import EarlyBoot.Proofs.BlockHeap.Canonical
import EarlyBoot.Proofs.BlockHeap.Room
import EarlyBoot.Proofs.BlockHeap.FirstFit
import EarlyBoot.Proofs.BlockHeap.Release
import EarlyBoot.Proofs.BlockHeap.Resize
import EarlyBoot.Proofs.BlockHeap.FailedResize
import EarlyBoot.Proofs.GlobalAllocation
import EarlyBoot.Proofs.HeapRequest
import EarlyBoot.Proofs.HeapVec.Elements
import EarlyBoot.Proofs.HeapVec.Operations
import EarlyBoot.Proofs.HeapVec.Workspace
import EarlyBoot.Proofs.HeapVec.Refinement
import EarlyBoot.Proofs.Bitmap
import EarlyBoot.Proofs.Slab.Slots
import EarlyBoot.Proofs.Slab.Session
import EarlyBoot.Proofs.Ownership.Deed
import EarlyBoot.Proofs.Ownership.Delivery
import EarlyBoot.Proofs.Ownership.Requests
import EarlyBoot.Proofs.Ownership.Values
import EarlyBoot.Proofs.Ownership.Boxes
import EarlyBoot.Proofs.Ownership.Vectors
import EarlyBoot.Proofs.Ownership.Devices
import EarlyBoot.Proofs.Ownership.Shapes
import EarlyBoot.Proofs.Ownership.Programs
import EarlyBoot.Proofs.Bus.Answers
import EarlyBoot.Proofs.Bus.Drivers
import EarlyBoot.Proofs.Ownership.Pins
import EarlyBoot.Proofs.Ownership.Stock
import EarlyBoot.Proofs.Ownership.Records
import EarlyBoot.Proofs.Ownership.Refusal
import EarlyBoot.Proofs.BringUp.Device
import EarlyBoot.Proofs.BringUp.DriverProgram
import EarlyBoot.Proofs.BringUp.Legacy
import EarlyBoot.Proofs.Pci.Recording
import EarlyBoot.Proofs.Pci.Registers
import EarlyBoot.Proofs.Pci.Scan
import EarlyBoot.Proofs.Ata.Survey
import EarlyBoot.Proofs.Ata.Probe
import EarlyBoot.Proofs.Ata.Scan
import EarlyBoot.Proofs.BringUp.Platform
import EarlyBoot.Proofs.BringUp.AllOrNothing
import EarlyBoot.Proofs.Pci.Emulated
import EarlyBoot.Proofs.Pci.Survey
import EarlyBoot.Proofs.Pci.Exact
import EarlyBoot.Proofs.Pci.ConfigSpace
import EarlyBoot.Proofs.Pci.Traversal
import EarlyBoot.Proofs.Pci.Exhaustion
import EarlyBoot.Proofs.Pci.HostFunctions
import EarlyBoot.Proofs.Bitmap.Updates
import EarlyBoot.Proofs.Bus.Polling
import EarlyBoot.Proofs.Slab.Layout
import EarlyBoot.Proofs.Bus.Handshake
import EarlyBoot.Proofs.Uart.Transmission
import EarlyBoot.Proofs.Keyboard.Conversation
import EarlyBoot.Proofs.Keyboard.BringUp
import EarlyBoot.Proofs.Keyboard.Discipline
import EarlyBoot.Proofs.Ata.Selection
import EarlyBoot.Proofs.Ata.ModelName
import EarlyBoot.Proofs.Cmos.Registers
import EarlyBoot.Proofs.Cmos.Decoding
import EarlyBoot.Proofs.Cmos.Clock
import EarlyBoot.Proofs.Cmos.Calibration
import EarlyBoot.Proofs.Ownership.Settling
import EarlyBoot.Proofs.Pic.Masks
import EarlyBoot.Proofs.Pit.BringUp
import EarlyBoot.Proofs.Text.Reading
import EarlyBoot.Proofs.PanicReport
