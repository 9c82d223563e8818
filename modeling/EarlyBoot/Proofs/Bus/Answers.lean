import EarlyBoot.Machine
import EarlyBoot.Proofs.HeapRequest

/-!
# Computations that only reach ports

Such a computation always ends.  What it answers, how it leaves the bus and
which accesses it makes depend on the bus alone; of the firmware it changes no
more than the console.  The accesses of two computations in a row are those of
the first followed by those of the second.  A computation that uses the heap may
also halt, but has no part in what happens on the bus.
-/

namespace EarlyBoot

namespace Trace

def recordAll (t : Trace) (accesses : List Access) : Trace := accesses.foldl record t

theorem recordAll_append (t : Trace) (first second : List Access) :
    t.recordAll (first ++ second) = (t.recordAll first).recordAll second :=
  List.foldl_append

theorem accesses_recordAll (t : Trace) (accesses : List Access) :
    (t.recordAll accesses).accesses = t.accesses ++ accesses := by
  induction accesses generalizing t with
  | nil => exact (List.append_nil _).symm
  | cons access rest ih =>
      change ((t.record access).recordAll rest).accesses = _
      rw [ih, accesses_record, List.append_assoc, List.singleton_append]

end Trace

namespace Firmware.Untouched

theorem refl (f : Firmware) : f.Untouched f := ⟨rfl, rfl, rfl⟩

theorem logged (f : Firmware) (console : Console) : f.Untouched { f with console } :=
  ⟨rfl, rfl, rfl⟩

theorem trans {f f' f'' : Firmware} (h : f.Untouched f') (h' : f'.Untouched f'') :
    f.Untouched f'' :=
  ⟨h'.heap.trans h.heap, h'.memory.trans h.memory, h'.names.trans h.names⟩

end Firmware.Untouched

namespace MachineM

variable {α β γ : Type} {x : MachineM β α} {f : α → MachineM β γ} {a : α} {b : γ}
  {bus bus₁ bus₂ : β} {first second : List Access}

/-- What a computation does on a bus, whatever the state of the firmware. -/
def Answers (x : MachineM β α) (bus : β) (a : α) (bus' : β) (accesses : List Access) : Prop :=
  ∀ firmware trace, ∃ firmware', firmware.Untouched firmware' ∧
    x ⟨firmware, bus, trace⟩ = .ok a ⟨firmware', bus', trace.recordAll accesses⟩

namespace Answers

theorem pure (a : α) (bus : β) : Answers (pure a) bus a bus [] :=
  fun firmware _ => ⟨firmware, .refl firmware, rfl⟩

theorem bind (hx : Answers x bus a bus₁ first) (hf : Answers (f a) bus₁ b bus₂ second) :
    Answers (x >>= f) bus b bus₂ (first ++ second) := by
  intro firmware trace
  obtain ⟨firmware₁, huntouched, hrun⟩ := hx firmware trace
  obtain ⟨firmware₂, huntouched', hrun'⟩ := hf firmware₁ (trace.recordAll first)
  refine ⟨firmware₂, huntouched.trans huntouched', ?_⟩
  rw [Trace.recordAll_append]
  exact (bind_of_answer hrun).trans hrun'

theorem log (level : LogLevel) (message : String) (bus : β) :
    Answers (liftM (FirmwareM.log level message)) bus () bus [] :=
  fun firmware _ => ⟨{ firmware with console := firmware.console.log level message },
    ⟨rfl, rfl, rfl⟩, rfl⟩

variable [PortBus β]

theorem readPort (width : Width) (port : UInt16) (bus : β) :
    Answers (readPort width port) bus ((PortBus.read bus width port).1 &&& width.mask)
      (PortBus.read bus width port).2
      [.read width port ((PortBus.read bus width port).1 &&& width.mask)] :=
  fun firmware _ => ⟨firmware, .refl firmware, rfl⟩

theorem writePort (width : Width) (port : UInt16) (value : UInt32) (bus : β) :
    Answers (writePort width port value) bus () (PortBus.write bus width port value)
      [Access.ofWrite width port value] :=
  fun firmware _ => ⟨firmware, .refl firmware, rfl⟩

end Answers

def PortOnly (x : MachineM β α) : Prop := ∀ bus, ∃ a bus' accesses, Answers x bus a bus' accesses

namespace PortOnly

theorem pure (a : α) : PortOnly (pure a : MachineM β α) := fun bus => ⟨a, bus, [], .pure a bus⟩

theorem bind (hx : PortOnly x) (hf : ∀ a, PortOnly (f a)) : PortOnly (x >>= f) := by
  intro bus
  obtain ⟨a, bus₁, first, hfirst⟩ := hx bus
  obtain ⟨b, bus₂, second, hsecond⟩ := hf a bus₁
  exact ⟨b, bus₂, _, hfirst.bind hsecond⟩

theorem map (hx : PortOnly x) (g : α → γ) : PortOnly (do return g (← x)) :=
  hx.bind fun a => pure (g a)

theorem log (level : LogLevel) (message : String) :
    PortOnly (liftM (FirmwareM.log level message) : MachineM β Unit) :=
  fun bus => ⟨(), bus, [], .log level message bus⟩

section Ports

variable [PortBus β]

theorem readPort (width : Width) (port : UInt16) : PortOnly (readPort width port : MachineM β _) :=
  fun bus => ⟨_, _, _, .readPort width port bus⟩

theorem writePort (width : Width) (port : UInt16) (value : UInt32) :
    PortOnly (writePort width port value : MachineM β Unit) :=
  fun bus => ⟨_, _, _, .writePort width port value bus⟩

theorem readByte (port : UInt16) : PortOnly (readByte port : MachineM β UInt8) :=
  (readPort .byte port).map _

theorem writeByte (port : UInt16) (value : UInt8) :
    PortOnly (writeByte port value : MachineM β Unit) :=
  writePort .byte port _

theorem delay (rounds : Nat) : PortOnly (delay rounds : MachineM β Unit) := by
  induction rounds with
  | zero => exact pure ()
  | succ rounds ih => exact (writeByte delayPort 0).bind fun _ => ih

end Ports

end PortOnly

/-- Whether it answers as `post` says or halts, the computation leaves this bus and trace. -/
def Leaves (x : MachineM β α) (machine : Machine β) (post : α → Prop) (bus' : β) (trace' : Trace) :
    Prop :=
  ∃ firmware', (∃ a, post a ∧ x machine = .ok a ⟨firmware', bus', trace'⟩) ∨
    ∃ reason, x machine = .error reason ⟨firmware', bus', trace'⟩

/-- The computation has no part in what happens on the bus. -/
def FirmwareOnly (x : MachineM β α) (post : α → Prop) : Prop :=
  ∀ firmware bus trace, Leaves x ⟨firmware, bus, trace⟩ post bus trace

theorem Leaves.of_eq {x y : MachineM β α} {machine machine' : Machine β} {post : α → Prop}
    {bus' : β} {trace' : Trace} (heq : x machine = y machine') (h : Leaves y machine' post bus' trace') :
    Leaves x machine post bus' trace' := by
  unfold Leaves
  rwa [heq]

theorem Leaves.of_ok {x : MachineM β α} {machine machine' : Machine β} {post : α → Prop} {bus' : β}
    {trace' : Trace} (h : Leaves x machine post bus' trace') (hx : x machine = .ok a machine') :
    machine'.bus = bus' ∧ machine'.trace = trace' := by
  obtain ⟨firmware', ⟨a', -, hleft⟩ | ⟨reason, hleft⟩⟩ := h
  · obtain ⟨-, rfl⟩ := EStateM.Result.ok.inj (hx.symm.trans hleft)
    exact ⟨rfl, rfl⟩
  · cases hx.symm.trans hleft

namespace FirmwareOnly

variable {post : α → Prop} {post' : γ → Prop}

theorem pure (h : post a) : FirmwareOnly (pure a : MachineM β α) post :=
  fun firmware _ _ => ⟨firmware, .inl ⟨a, h, rfl⟩⟩

theorem lift (action : FirmwareM α) :
    FirmwareOnly (liftM action : MachineM β α) fun _ => True := by
  intro firmware bus trace
  cases haction : action firmware with
  | ok a firmware' =>
      refine ⟨firmware', .inl ⟨a, trivial, ?_⟩⟩
      simp only [liftM, monadLift, MonadLift.monadLift, haction]
  | error reason firmware' =>
      refine ⟨firmware', .inr ⟨reason, ?_⟩⟩
      simp only [liftM, monadLift, MonadLift.monadLift, haction]

theorem bind (hx : FirmwareOnly x post) (hf : ∀ a, post a → FirmwareOnly (f a) post') :
    FirmwareOnly (x >>= f) post' := by
  intro firmware bus trace
  obtain ⟨firmware₁, ⟨a, ha, hrun⟩ | ⟨reason, hrun⟩⟩ := hx firmware bus trace
  · exact .of_eq (bind_of_answer hrun) (hf a ha firmware₁ bus trace)
  · exact ⟨firmware₁, .inr ⟨reason, bind_of_halt hrun⟩⟩

end FirmwareOnly

end MachineM

end EarlyBoot
