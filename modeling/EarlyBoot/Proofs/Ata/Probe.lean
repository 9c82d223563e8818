import EarlyBoot.Proofs.Ata.Survey
import EarlyBoot.Proofs.Ownership.Boxes

/-!
# Probing ATA buses

Probing a drive reaches ports and takes room for the identification data at
most; data that finds no room is dropped, and the drive is kept without it.  A
bus owns what its drives own, and a controller what its buses own.
-/

namespace EarlyBoot

open BlockHeap (charge)
open MachineM (PortOnly)

variable {α β γ : Type} {machine : Machine β} {blocks : List BlockInfo} {n : Int}

theorem Delivers.portOnly_bind {x : MachineM β α} {k : α → MachineM β γ} {d : Deed}
    {last : γ → Machine β → Deed} (hx : PortOnly x)
    (hk : ∀ a machine' blocks', x machine = .ok a machine' →
      Delivers (k a) machine' blocks' d last) :
    Delivers (x >>= k) machine blocks d last := by
  obtain ⟨a, bus', accesses, hanswers⟩ := hx machine.bus
  obtain ⟨f', huntouched, hrun⟩ := hanswers machine.firmware machine.trace
  exact .skip hrun huntouched fun blocks' => hk a _ blocks' hrun

instance : HasDeed AtaDrive := ⟨fun drive => deed drive.identify, fun _ => HasDeed.budget_deed _⟩

instance : Disposable AtaDrive := ⟨fun drive => drop_delivers drive.identify⟩

instance : HasDeed AtaBus := ⟨fun bus => deed bus.positions, fun _ => HasDeed.budget_deed _⟩

instance : Disposable AtaBus := ⟨fun bus => dropAll_deed_delivers bus.positions⟩

instance : HasDeed IdeController :=
  ⟨fun controller => deed controller.buses.val, fun _ => HasDeed.budget_deed _⟩

instance : Disposable IdeController :=
  ⟨fun controller => dropAll_deed_delivers controller.buses.val⟩

namespace Ata

section Ports

variable [PortBus β]

theorem status_portOnly (base : UInt16) : PortOnly (status base : MachineM β UInt8) := .readByte _

theorem identify_portOnly (base : UInt16) (position : DrivePosition) :
    PortOnly (identify base position : MachineM β (Option DriveKind)) := by
  intro bus
  obtain ⟨kind, bus', reads, h⟩ := exists_identified base position bus
  exact ⟨kind, bus', _, h.answers⟩

theorem readIdentify_portOnly (base : UInt16) :
    PortOnly (readIdentify base : MachineM β IdentifyBlock) :=
  fun bus => ⟨_, _, _, readIdentify_answers base bus⟩

end Ports

def driveCharge : Nat := charge (Stored.size IdentifyBlock)

theorem deed_block (block : IdentifyBlock) : deed block = 0 := by
  have hwords : ∀ words : List UInt16, deed words = 0 := by
    intro words
    induction words with
    | nil => rfl
    | cons word rest ih =>
        rw [deed_cons, ih, add_zero]
        rfl
  exact hwords block.toList

theorem storeIdentify_delivers (base : UInt16) (position : DrivePosition) (block : IdentifyBlock)
    (f : Firmware) :
    Delivers (storeIdentify base position block) f blocks (Deed.fund n) fun box _ =>
      deed box + Deed.fund (n - driveCharge) := by
  have hnew : Delivers (HeapBox.new block) f blocks (deed block + Deed.fund n) _ :=
    HeapBox.new_delivers n (HasDeed.budget_deed _) (drop_delivers block)
  rw [deed_block, zero_add] at hnew
  unfold storeIdentify
  refine hnew.bind ?_
  rintro (error | box) f' blocks' -
  · refine .of_fact fun ⟨hrecoverable, _⟩ => ?_
    have hrun : FirmwareM.haltIfFatal error f' = .ok () f' := by
      rw [FirmwareM.haltIfFatal_of_recoverable hrecoverable]
      rfl
    refine .bind_ok hrun ?_ rfl
    refine (Delivers.log .warn _).bind ?_
    rintro _ f'' blocks'' -
    refine .pure ?_
    rw [deed_none, zero_add]
    exact .fund_le (by omega)
  · refine .pure ?_
    have hclosed := box.amounts_closed block f' blocks'
    rw [deed_block] at hclosed
    rw [deed_some]
    exact hclosed.add (.refl _ _ _)

variable [PortBus β]

theorem probeDrive_owns (base : UInt16) (position : DrivePosition) :
    Delivers (probeDrive base position) machine blocks (Deed.fund n) fun drive _ =>
      deed drive + Deed.fund (n - driveCharge) := by
  have hsome : ∀ (drive : AtaDrive) (machine' : Machine β) blocks',
      Delivers (do
        FirmwareM.info (drive.describe base)
        pure (some drive) : MachineM β _) machine' blocks'
        (deed drive.identify + Deed.fund (n - driveCharge)) fun drive _ =>
          deed drive + Deed.fund (n - driveCharge) := by
    intro drive machine' blocks'
    refine .log_bind .info _ fun f'' blocks'' => .pure ?_
    rw [deed_some]
    exact .refl _ _ _
  unfold probeDrive
  refine .portOnly_bind (identify_portOnly base position) fun kind machine₁ blocks₁ _ => ?_
  cases kind with
  | none =>
      refine .pure ?_
      rw [deed_none, zero_add]
      exact .fund_le (by omega)
  | some kind =>
      dsimp only
      split
      · refine .portOnly_bind (readIdentify_portOnly base) fun block machine₂ blocks₂ _ => ?_
        refine (storeIdentify_delivers base position block _).lift_bind fun box f₃ blocks₃ => ?_
        exact hsome ⟨position, kind, box, _⟩ _ blocks₃
      · refine .amounts (hsome ⟨position, kind, none, .empty⟩ _ blocks₁) ?_
        rw [deed_none, zero_add]
        exact .fund_le (by omega)

theorem probeDrive_delivers (base : UInt16) (position : DrivePosition) :
    Delivers (probeDrive base position) machine blocks (Deed.fund n) fun drive machine' =>
      deed drive + Deed.fund (n - driveCharge) +
        Deed.fact (DriveSurvey base position machine drive machine') := by
  refine .of_holds fun hs => ?_
  refine (probeDrive_owns base position).running.leaving fun drive machine' blocks' => ?_
  exact .of_fact fun hrun => (Amounts.refl _ _ _).and_fact fun _ =>
    .of_run hs.placed hs.wellFormed hrun

theorem probeBus_delivers (base : UInt16) :
    Delivers (probeBus base) machine blocks (Deed.fund n) fun bus machine' =>
      deed bus + Deed.fund (n - 2 * driveCharge) +
        Deed.fact (BusSurvey base machine bus machine') := by
  unfold probeBus
  refine .portOnly_bind (status_portOnly base) fun shown machine₁ blocks₁ hread => ?_
  split
  next hfloating =>
    subst hfloating
    refine .pure (Amounts.and_fact ?_ fun _ => .floating hread)
    rw [deed_none, zero_add]
    exact .fund_le (by omega)
  next hpresent =>
    refine (probeDrive_delivers base .master).bind ?_
    rintro master machine₂ blocks₂ -
    refine .of_fact fun hmaster => ?_
    rw [add_comm]
    refine (probeDrive_delivers base .slave).unwinding_machine.bind_frame (.inr (by simp)) ?_
    rintro slave machine₃ blocks₃ -
    rw [add_right_comm]
    refine .of_fact fun hslave => .pure (Amounts.and_fact ?_ fun _ =>
      .present hread hpresent hmaster hslave)
    have hbus : deed (some ({ base, master, slave } : AtaBus)) = deed slave + deed master := by
      rw [deed_some]
      change deed [master, slave] = _
      rw [deed_cons, deed_cons, deed_nil, add_zero, add_comm]
    rw [hbus, add_right_comm]
    exact (Amounts.refl _ _ _).add (.fund_le (by omega))

theorem probeBuses_delivers (found : List AtaBus) (bases : List UInt16) :
    Delivers (probeBuses found bases) machine blocks (deed found + Deed.fund n)
      fun buses machine' => deed buses + Deed.fund (n - 2 * driveCharge * bases.length) +
        Deed.fact (∃ present, buses = found ++ present ∧
          BusesSurvey bases machine present machine') := by
  -- the buses found so far wait while the places that are left are probed
  induction bases generalizing found machine blocks n with
  | nil =>
      refine .pure (Amounts.and_fact ?_ fun _ => ⟨[], (List.append_nil _).symm, .nil machine⟩)
      exact (Amounts.refl _ _ _).add (.fund_le (by simp))
  | cons base rest ih =>
      unfold probeBuses
      rw [add_comm]
      refine (probeBus_delivers base).unwinding_machine.bind_frame (.inr (by simp)) ?_
      rintro bus machine₁ blocks₁ -
      rw [add_right_comm]
      refine .of_fact fun hbus => ?_
      have hfound : deed bus + Deed.fund (n - 2 * driveCharge) + deed found =
          deed (found ++ bus.toList) + Deed.fund (n - 2 * driveCharge) := by
        rw [deed_append]
        change deed bus + _ + _ = deed found + deed bus + _
        abel
      rw [hfound]
      refine (ih _).leaving fun buses machine₂ blocks₂ => ?_
      refine .of_fact fun ⟨present, hpresent, hrest⟩ => Amounts.and_fact ?_ fun _ => ?_
      · refine (Amounts.refl _ _ _).add (.fund_le ?_)
        rw [List.length_cons, Nat.cast_add, Int.mul_add]
        omega
      · exact ⟨bus.toList ++ present, by rw [hpresent, List.append_assoc], .cons hbus hrest⟩

def controllerCharge : Nat := 8 * driveCharge

theorem probeController_delivers (function : PciFunction) :
    Delivers (probeController function) machine blocks (Deed.fund n) fun controller machine' =>
      deed controller + Deed.fund (n - controllerCharge) +
        Deed.fact (ControllerSurvey function machine controller machine') := by
  unfold probeController
  split
  next hnative =>
    refine .skip (MachineM.lift_of_answer rfl) ⟨rfl, rfl, rfl⟩ fun blocks' => ?_
    refine .pure (Amounts.and_fact ?_ fun _ => .native hnative rfl rfl ⟨rfl, rfl, rfl⟩)
    change Amounts _ _ _ (0 + _)
    rw [zero_add]
    exact .fund_le (by omega)
  next hcompatible =>
    have hprobe : Delivers (probeBuses [] compatibilityBases) machine blocks
        (deed ([] : List AtaBus) + Deed.fund n) _ := probeBuses_delivers [] compatibilityBases
    rw [deed_nil, zero_add] at hprobe
    refine hprobe.bind ?_
    rintro buses machine' blocks' -
    refine .of_fact ?_
    rintro ⟨_, rfl, hbuses⟩
    have hall : buses.take 4 = buses := List.take_of_length_le hbuses.length_le
    refine .pure (Amounts.and_fact ?_ fun _ => .compatible (by simpa using hcompatible) rfl ?_)
    · change Amounts _ _ _ (deed (buses.take 4) + _)
      rw [hall]
      refine (Amounts.refl _ _ _).add (.fund_le ?_)
      change _ ≤ n - 2 * driveCharge * (4 : Nat)
      unfold controllerCharge
      omega
    · change BusesSurvey _ _ (buses.take 4) _
      rwa [hall]

end Ata

end EarlyBoot
