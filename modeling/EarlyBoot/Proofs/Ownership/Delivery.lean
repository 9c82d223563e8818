import EarlyBoot.Machine
import EarlyBoot.Proofs.Ownership.Deed

/-!
# Computations that deliver

A computation that is given a deed delivers if it ends, and has then turned the
deed into one that depends on its answer.  It never halts, and whatever it
obtains is in the deed that it leaves.  What a computation delivers follows
from what its parts do; a part that needs only some of what is held leaves the
rest alone.
-/

namespace EarlyBoot

namespace MachineM

variable {α β γ : Type} {machine machine' : Machine β} {f : Firmware} {value : α}

theorem lift_of_answer {x : FirmwareM α} (hx : x machine.firmware = .ok value f) :
    (liftM x : MachineM β α) machine = .ok value { machine with firmware := f } := by
  simp only [liftM, monadLift, MonadLift.monadLift, hx]

theorem answers_of_lift {x : FirmwareM α}
    (h : (liftM x : MachineM β α) machine = .ok value machine') :
    ∃ f, x machine.firmware = .ok value f ∧ machine' = { machine with firmware := f } := by
  cases hx : x machine.firmware with
  | ok a f =>
      cases (lift_of_answer hx).symm.trans h
      exact ⟨f, rfl, rfl⟩
  | error reason f =>
      simp only [liftM, monadLift, MonadLift.monadLift, hx] at h
      cases h

theorem lift_bind_of_answer {x : FirmwareM α} {k : α → MachineM β γ}
    (hx : x machine.firmware = .ok value f) :
    (liftM x >>= k) machine = k value { machine with firmware := f } :=
  bind_of_answer (lift_of_answer hx)

theorem unwinding_of_answer {x : MachineM β α} (hx : x machine = .ok value machine')
    (cleanup : FirmwareM Unit) : unwinding cleanup x machine = .ok value machine' := by
  unfold unwinding
  rw [hx]

end MachineM

class HasFirmware (σ : Type) where
  firmware : σ → Firmware

open HasFirmware (firmware)

instance : HasFirmware Firmware := ⟨fun f => f⟩

@[simp] theorem firmware_self (f : Firmware) : firmware f = f := rfl

instance {β : Type} : HasFirmware (Machine β) := ⟨fun machine => machine.firmware⟩

def Delivers {σ γ : Type} [HasFirmware σ] (x : EStateM Halt σ γ) (s : σ)
    (blocks : List BlockInfo) (d : Deed) (left : γ → σ → Deed) : Prop :=
  Holds (firmware s) blocks d → ∃ r s' blocks', x s = .ok r s' ∧
    Exchanges (firmware s) blocks d (firmware s') blocks' (left r s')

namespace Delivers

variable {σ γ δ β : Type} [HasFirmware σ] {x : EStateM Halt σ γ} {k : γ → EStateM Halt σ δ}
  {s s' : σ} {f : Firmware} {blocks : List BlockInfo} {c d e : Deed} {r : γ} {P : Prop}
  {left left' : γ → σ → Deed} {last : δ → σ → Deed}

omit [HasFirmware σ] in
theorem intro_firmware {x : FirmwareM γ} {left : γ → Firmware → Deed}
    (hx : Holds f blocks d → ∃ r f' blocks', x f = .ok r f' ∧
      Exchanges f blocks d f' blocks' (left r f')) : Delivers x f blocks d left :=
  hx

omit [HasFirmware σ] in
theorem run_firmware {x : FirmwareM γ} {left : γ → Firmware → Deed}
    (hx : Delivers x f blocks d left) (hs : Holds f blocks d) :
    ∃ r f' blocks', x f = .ok r f' ∧ Exchanges f blocks d f' blocks' (left r f') :=
  hx hs

theorem pure (hd : Amounts (firmware s) blocks d (left r s)) :
    Delivers (pure r) s blocks d left :=
  fun hs => ⟨r, s, blocks, rfl, hd.exchanges hs⟩

theorem bind (hx : Delivers x s blocks d left)
    (hk : ∀ r s' blocks', x s = .ok r s' → Delivers (k r) s' blocks' (left r s') last) :
    Delivers (x >>= k) s blocks d last := by
  intro hs
  obtain ⟨r, s₁, blocks₁, hrun, hfirst⟩ := hx hs
  obtain ⟨r', s₂, blocks₂, hrun', hsecond⟩ := hk r s₁ blocks₁ hrun (hfirst.holds hs)
  exact ⟨r', s₂, blocks₂, (bind_of_answer hrun).trans hrun', hfirst.trans hsecond⟩

theorem bind_ok (hx : x s = .ok r s') (hk : Delivers (k r) s' blocks d last)
    (hsame : firmware s' = firmware s) : Delivers (x >>= k) s blocks d last := by
  intro hs
  obtain ⟨r', s₂, blocks₂, hrun, hsecond⟩ := hk (hsame ▸ hs)
  exact ⟨r', s₂, blocks₂, (bind_of_answer hx).trans hrun, hsame ▸ hsecond⟩

theorem frame (hx : Delivers x s blocks d left) (hbudget : d.budget ≤ 0 ∨ 0 ≤ e.budget) :
    Delivers x s blocks (d + e) fun r s' => left r s' + e := by
  intro hs
  obtain ⟨r, s', blocks', hrun, h⟩ := hx (hs.left hbudget)
  exact ⟨r, s', blocks', hrun, h.frame hs⟩

theorem bind_frame (hx : Delivers x s blocks d left) (hbudget : d.budget ≤ 0 ∨ 0 ≤ e.budget)
    (hk : ∀ r s' blocks', x s = .ok r s' → Delivers (k r) s' blocks' (left r s' + e) last) :
    Delivers (x >>= k) s blocks (d + e) last :=
  (hx.frame hbudget).bind hk

theorem conseq (hx : Delivers x s blocks d left) (hd : Amounts (firmware s) blocks c d)
    (hleft : ∀ r s' blocks', Amounts (firmware s') blocks' (left r s') (left' r s')) :
    Delivers x s blocks c left' := by
  intro hs
  have hbefore := hd.exchanges hs
  obtain ⟨r, s', blocks', hrun, h⟩ := hx (hbefore.holds hs)
  have hafter := (hleft r s' blocks').exchanges (h.holds (hbefore.holds hs))
  exact ⟨r, s', blocks', hrun, (hbefore.trans h).trans hafter⟩

theorem amounts (hx : Delivers x s blocks d left) (hd : Amounts (firmware s) blocks c d) :
    Delivers x s blocks c left :=
  hx.conseq hd fun _ _ _ => .refl _ _ _

theorem leaving (hx : Delivers x s blocks d left)
    (hleft : ∀ r s' blocks', Amounts (firmware s') blocks' (left r s') (left' r s')) :
    Delivers x s blocks d left' :=
  hx.conseq (.refl _ _ _) hleft

theorem of_holds (hx : Holds (firmware s) blocks d → Delivers x s blocks d left) :
    Delivers x s blocks d left :=
  fun hs => hx hs hs

theorem of_fact (hx : P → Delivers x s blocks d left) :
    Delivers x s blocks (d + Deed.fact P) left := by
  exact of_holds fun hs => (hx hs.valid.2).amounts (.of_fact fun _ => .refl _ _ _)

theorem running (hx : Delivers x s blocks d left) :
    Delivers x s blocks d fun r s' => left r s' + Deed.fact (x s = .ok r s') := by
  intro hs
  obtain ⟨r, s', blocks', hrun, h⟩ := hx hs
  have hfact : Amounts (firmware s') blocks' (left r s')
      (left r s' + Deed.fact (x s = .ok r s')) := (Amounts.refl _ _ _).and_fact fun _ => hrun
  exact ⟨r, s', blocks', hrun, h.trans (hfact.exchanges (h.holds hs))⟩

end Delivers

theorem Exchanges.of_untouched {f f' : Firmware} {blocks : List BlockInfo} {d : Deed}
    (hs : Holds f blocks d) (hf : f.Untouched f') : Exchanges f blocks d f' blocks d := by
  have hnone : Exchanges f blocks 0 f' blocks 0 := by
    have hstart : Trades f blocks 0 f blocks 0 := .refl hs.placed hs.wellFormed (by simp)
    refine ⟨⟨?_, hf.heap, fun a _ _ => by rw [hf.names]⟩, trivial, Multiset.nodup_zero, ?_⟩
    · rw [hf.heap, hf.memory]
      exact hstart.spares
    · intro n hn hpos
      rw [hf.heap]
      exact hn hpos
  have hframed := hnone.frame (e := d) (by rwa [zero_add])
  simpa only [zero_add] using hframed

namespace Delivers

variable {σ γ δ β : Type} [HasFirmware σ] {x : EStateM Halt σ γ} {k : γ → EStateM Halt σ δ}
  {s s' : σ} {f : Firmware} {blocks : List BlockInfo} {d : Deed} {r : γ}
  {left : γ → σ → Deed} {last : δ → σ → Deed}

theorem of_run (hx : x s = .ok r s') (hf : (firmware s).Untouched (firmware s'))
    (hd : Amounts (firmware s') blocks d (left r s')) : Delivers x s blocks d left := by
  intro hs
  have hkept := Exchanges.of_untouched hs hf
  exact ⟨r, s', blocks, hx, hkept.trans (hd.exchanges (hkept.holds hs))⟩

theorem of_untouched (hx : x s = .ok r s') (hf : (firmware s).Untouched (firmware s')) :
    Delivers x s blocks d fun _ _ => d :=
  of_run hx hf (.refl _ _ _)

theorem continuing {y : EStateM Halt σ γ} (hx : x s = y s')
    (hf : (firmware s).Untouched (firmware s')) (hy : Delivers y s' blocks d left) :
    Delivers x s blocks d left := by
  intro hs
  have hkept := Exchanges.of_untouched hs hf
  obtain ⟨r, s₁, blocks₁, hrun, h⟩ := hy (hkept.holds hs)
  exact ⟨r, s₁, blocks₁, hx.trans hrun, hkept.trans h⟩

theorem skip (hx : x s = .ok r s') (hf : (firmware s).Untouched (firmware s'))
    (hk : ∀ blocks', Delivers (k r) s' blocks' d last) : Delivers (x >>= k) s blocks d last := by
  refine (of_untouched hx hf).bind ?_
  intro r' s₁ blocks₁ hrun
  rw [hx] at hrun
  cases hrun
  exact hk blocks₁

omit [HasFirmware σ] in
theorem log (level : LogLevel) (message : String) :
    Delivers (FirmwareM.log level message) f blocks d fun _ _ => d :=
  of_untouched rfl ⟨rfl, rfl, rfl⟩

omit [HasFirmware σ] in
theorem unwinding {x : FirmwareM γ} {left : γ → Firmware → Deed} {cleanup : FirmwareM Unit}
    (hx : Delivers x f blocks d left) :
    Delivers (FirmwareM.unwinding cleanup x) f blocks d left := by
  intro hs
  obtain ⟨r, f', blocks', hrun, h⟩ := hx hs
  refine ⟨r, f', blocks', ?_, h⟩
  unfold FirmwareM.unwinding
  rw [hrun]

variable {machine : Machine β}

omit [HasFirmware σ] in
theorem unwinding_machine {x : MachineM β γ} {left : γ → Machine β → Deed}
    {cleanup : FirmwareM Unit} (hx : Delivers x machine blocks d left) :
    Delivers (MachineM.unwinding cleanup x) machine blocks d left := by
  intro hs
  obtain ⟨r, machine', blocks', hrun, h⟩ := hx hs
  exact ⟨r, machine', blocks', MachineM.unwinding_of_answer hrun cleanup, h⟩

omit [HasFirmware σ] in
theorem log_bind {k : Unit → MachineM β γ} {last : γ → Machine β → Deed} (level : LogLevel)
    (message : String)
    (hk : ∀ f' blocks', Delivers (k ()) { machine with firmware := f' } blocks' d last) :
    Delivers (liftM (FirmwareM.log level message) >>= k) machine blocks d last := by
  have hlog : (liftM (FirmwareM.log level message) : MachineM β Unit) machine =
    .ok () { machine with firmware := { machine.firmware with
      console := machine.firmware.console.log level message } } := rfl
  exact skip hlog ⟨rfl, rfl, rfl⟩ fun blocks' => hk _ blocks'

omit [HasFirmware σ] in
theorem lift {x : FirmwareM γ} {left : γ → Firmware → Deed}
    (hx : Delivers x machine.firmware blocks d left) :
    Delivers (liftM x : MachineM β γ) machine blocks d fun r machine' =>
      left r machine'.firmware + Deed.fact (machine'.bus = machine.bus ∧
        machine'.trace = machine.trace) := by
  intro hs
  obtain ⟨r, f', blocks', hrun, h⟩ := hx hs
  have hfact : Amounts f' blocks' (left r f')
      (left r f' + Deed.fact (machine.bus = machine.bus ∧ machine.trace = machine.trace)) :=
    (Amounts.refl _ _ _).and_fact fun _ => ⟨rfl, rfl⟩
  exact ⟨r, { machine with firmware := f' }, blocks', MachineM.lift_of_answer hrun,
    h.trans (hfact.exchanges (h.holds hs))⟩

section LiftBind

variable {x : FirmwareM γ} {left : γ → Firmware → Deed} {k : γ → MachineM β δ}
  {last : δ → Machine β → Deed} {e : Deed}

omit [HasFirmware σ] in
theorem lift_bind (hx : Delivers x machine.firmware blocks d left)
    (hk : ∀ r f' blocks', Delivers (k r) { machine with firmware := f' } blocks' (left r f') last) :
    Delivers (liftM x >>= k) machine blocks d last := by
  refine hx.lift.bind ?_
  rintro r ⟨f', bus, trace⟩ blocks' -
  refine .of_fact ?_
  rintro ⟨rfl, rfl⟩
  exact hk r f' blocks'

omit [HasFirmware σ] in
theorem lift_bind_frame (hx : Delivers x machine.firmware blocks d left)
    (hbudget : d.budget ≤ 0 ∨ 0 ≤ e.budget)
    (hk : ∀ r f' blocks', Delivers (k r) { machine with firmware := f' } blocks' (left r f' + e)
      last) : Delivers (liftM x >>= k) machine blocks (d + e) last :=
  (hx.frame hbudget).lift_bind hk

end LiftBind

omit [HasFirmware σ] in
theorem guarding {ε : Type} {x : MachineM β (Except ε γ)} {cleanup : FirmwareM Unit}
    {left last : Except ε γ → Machine β → Deed} (hx : Delivers x machine blocks d left)
    (hok : ∀ r machine' blocks', Amounts machine'.firmware blocks' (left (.ok r) machine')
      (last (.ok r) machine'))
    (herror : ∀ error machine' blocks', Delivers cleanup machine'.firmware blocks'
      (left (.error error) machine') fun _ f' =>
        last (.error error) { machine' with firmware := f' }) :
    Delivers (MachineM.guarding cleanup x) machine blocks d last := by
  refine hx.unwinding_machine.bind ?_
  rintro (error | r) machine' blocks' -
  · exact (herror error machine' blocks').lift_bind fun _ f' _ => .pure (.refl _ _ _)
  · exact .pure (hok r machine' blocks')

end Delivers

end EarlyBoot
