import EarlyBoot.Proofs.Slab.Slots

/-!
# Slabs as sets of slots

A client allocates slots, gives addresses back and writes to memory, in any
order.  It is honest if it writes only to slots it holds; it may give back any
address.  Header and bitmap lie in front of all slots, so such a client changes
neither of them, and the slab answers as the set of slots taken does.
-/

namespace EarlyBoot.Slab

open MemoryM (bind_of_ok bind_of_error)

inductive Action where
  | allocate
  | release (address : Nat)
  | write (address : Nat) (bytes : List UInt8)
  deriving DecidableEq, Repr

structure Session where
  slab : Slab
  memory : Memory
  held : List Nat

def Action.perform (slab : Slab) : Action → SlabM (Option Nat)
  | .allocate => do
      let address ← slab.allocate
      pure (some address)
  | .release address => do
      slab.release address
      pure none
  | .write address bytes => do
      modify (·.writeBytes address bytes)
      pure none

def Action.givenBack : Action → Option Nat
  | .release address => some address
  | _ => none

namespace Session

def reply (s : Session) (action : Action) : Except SlabError (Option Nat) :=
  match action.perform s.slab s.memory with
  | .ok given _ => .ok given
  | .error error _ => .error error

def after (s : Session) (action : Action) : Session :=
  match action.perform s.slab s.memory with
  | .ok given memory =>
      { s with memory, held := given.toList ++ s.held.filter (action.givenBack ≠ some ·) }
  | .error _ memory => { s with memory }

/-- Any address may be given back, but only slots that are held are written to. -/
def Honest (s : Session) : Action → Prop
  | .write address bytes =>
      ∃ p ∈ s.held, p ≤ address ∧ address + bytes.length ≤ p + s.slab.objectSize s.memory
  | _ => True

inductive Reaches (s : Session) : Session → Prop
  | refl : Reaches s s
  | step {s' : Session} {action : Action} :
      Reaches s s' → s'.Honest action → Reaches s (s'.after action)

structure Sound (s : Session) : Prop where
  ready : s.slab.Ready s.memory
  mem_held : ∀ p, p ∈ s.held ↔ ∃ i ∈ s.slab.taken s.memory, s.slab.slotAddress s.memory i = p

end Session

/--
How a set of taken slots answers and changes, where `place` says which slots
there are and at which address.
-/
inductive Transition (place : Nat → Option Nat) (taken : Finset Nat) :
    Action → Except SlabError (Option Nat) → Finset Nat → Prop
  | allocate {i address : Nat} : place i = some address → i ∉ taken → (∀ j < i, j ∈ taken) →
      Transition place taken .allocate (.ok (some address)) (insert i taken)
  | full : (∀ i address, place i = some address → i ∈ taken) →
      Transition place taken .allocate (.error .full) taken
  | release {i address : Nat} : place i = some address → i ∈ taken →
      Transition place taken (.release address) (.ok none) (taken.erase i)
  | doubleFree {i address : Nat} : place i = some address → i ∉ taken →
      Transition place taken (.release address) (.error (.doubleFree i)) taken
  | foreign {address : Nat} : (∀ i, place i ≠ some address) →
      Transition place taken (.release address) (.error (.foreignAddress address)) taken
  | write {address : Nat} {bytes : List UInt8} :
      Transition place taken (.write address bytes) (.ok none) taken

namespace Session

variable {s : Session} {action : Action}

theorem after_of_error {error : SlabError}
    (hfail : action.perform s.slab s.memory = .error error s.memory) :
    s.reply action = .error error ∧ s.after action = s := by
  simp only [reply, after, hfail, and_self]

theorem after_of_ok {given : Option Nat} {m' : Memory}
    (hok : action.perform s.slab s.memory = .ok given m') :
    s.reply action = .ok given ∧
      s.after action = ⟨s.slab, m',
        given.toList ++ s.held.filter (action.givenBack ≠ some ·)⟩ := by
  simp only [reply, after, hok, and_self]

structure Stepped (s : Session) (action : Action) : Prop where
  sound : (s.after action).Sound
  slab_eq : (s.after action).slab = s.slab
  sameHeader : s.slab.SameHeader s.memory (s.after action).memory
  transition : Transition (s.slab.slotAddress? s.memory) (s.slab.taken s.memory) action
    (s.reply action) (s.slab.taken (s.after action).memory)
  unchanged : ∀ error, s.reply action = .error error → (s.after action).memory = s.memory

theorem Sound.stepped_of_error (hs : s.Sound) {error : SlabError}
    (hfail : action.perform s.slab s.memory = .error error s.memory)
    (ht : Transition (s.slab.slotAddress? s.memory) (s.slab.taken s.memory) action
      (.error error) (s.slab.taken s.memory)) : s.Stepped action := by
  obtain ⟨hreply, hafter⟩ := after_of_error hfail
  rw [← hreply] at ht
  constructor <;> rw [hafter]
  · exact hs
  · exact fun _ _ _ => rfl
  · exact ht
  · exact fun _ _ => rfl

theorem Sound.stepped_of_ok (hs : s.Sound) {given : Option Nat} {m' : Memory}
    (hok : action.perform s.slab s.memory = .ok given m')
    (hsame : s.slab.SameHeader s.memory m')
    (ht : Transition (s.slab.slotAddress? s.memory) (s.slab.taken s.memory) action
      (.ok given) (s.slab.taken m'))
    (hheld : ∀ p, (p ∈ given ∨ p ∈ s.held ∧ action.givenBack ≠ some p) ↔
      ∃ i ∈ s.slab.taken m', s.slab.slotAddress s.memory i = p) : s.Stepped action := by
  obtain ⟨hreply, hafter⟩ := after_of_ok hok
  rw [← hreply] at ht
  have hsound : (s.after action).Sound := by
    rw [hafter]
    refine ⟨hsame.ready hs.ready, ?_⟩
    intro p
    simp only [List.mem_append, Option.mem_toList, List.mem_filter, decide_eq_true_eq,
      hsame.slotAddress_eq]
    exact hheld p
  refine ⟨hsound, ?_, ?_, ?_, ?_⟩
  · rw [hafter]
  · rw [hafter]
    exact hsame
  · rw [hafter]
    exact ht
  · intro error herror
    rw [hreply] at herror
    cases herror

theorem Sound.allocate (hs : s.Sound) : s.Stepped .allocate := by
  rcases hs.ready.allocate_cases with
    ⟨i, m', hi, hfree, hbelow, hok, hsame, htaken⟩ | ⟨hfull, hfail⟩
  · have hperform : Action.allocate.perform s.slab s.memory =
        .ok (some (s.slab.slotAddress s.memory i)) m' := bind_of_ok hok
    apply hs.stepped_of_ok hperform hsame
    · rw [htaken]
      exact .allocate (slotAddress?_eq_some.2 ⟨hi, rfl⟩) hfree hbelow
    · intro p
      simp only [htaken, Finset.mem_insert, hs.mem_held, Action.givenBack]
      constructor
      · rintro (hnew | ⟨⟨j, hj, rfl⟩, -⟩)
        · exact ⟨i, .inl rfl, Option.some.inj hnew⟩
        · exact ⟨j, .inr hj, rfl⟩
      · rintro ⟨j, rfl | hj, rfl⟩
        · exact .inl rfl
        · exact .inr ⟨⟨j, hj, rfl⟩, by simp⟩
  · apply hs.stepped_of_error (bind_of_error hfail)
    apply Transition.full
    intro i address hplace
    exact hfull i (slotAddress?_eq_some.1 hplace).1

theorem Sound.release (hs : s.Sound) (address : Nat) : s.Stepped (.release address) := by
  by_cases hslot : ∃ i < s.slab.capacity s.memory, s.slab.slotAddress s.memory i = address
  · obtain ⟨i, hi, rfl⟩ := hslot
    have hplace := slotAddress?_eq_some.2 ⟨hi, rfl⟩
    by_cases htaken : i ∈ s.slab.taken s.memory
    · obtain ⟨m', hok, hsame, herase⟩ := hs.ready.release_taken htaken
      apply hs.stepped_of_ok (bind_of_ok hok) hsame
      · rw [herase]
        exact .release hplace htaken
      · intro p
        simp only [herase, Finset.mem_erase, hs.mem_held, Action.givenBack]
        constructor
        · rintro (hnone | ⟨⟨j, hj, rfl⟩, hback⟩)
          · cases hnone
          · exact ⟨j, ⟨fun heq => hback (by rw [heq]), hj⟩, rfl⟩
        · rintro ⟨j, ⟨hne, hj⟩, rfl⟩
          refine .inr ⟨⟨j, hj, rfl⟩, ?_⟩
          intro hback
          exact hne (hs.ready.slotAddress_inj.1 (Option.some.inj hback).symm)
    · exact hs.stepped_of_error (bind_of_error (hs.ready.release_free hi htaken))
        (.doubleFree hplace htaken)
  · have hforeign : ∀ i < s.slab.capacity s.memory, s.slab.slotAddress s.memory i ≠ address :=
      fun i hi heq => hslot ⟨i, hi, heq⟩
    apply hs.stepped_of_error (bind_of_error (release_foreign hforeign))
    apply Transition.foreign
    intro i hplace
    obtain ⟨hi, heq⟩ := slotAddress?_eq_some.1 hplace
    exact hforeign i hi heq

theorem Sound.write (hs : s.Sound) {address : Nat} {bytes : List UInt8}
    (hhonest : s.Honest (.write address bytes)) : s.Stepped (.write address bytes) := by
  obtain ⟨p, hp, hlow, -⟩ := hhonest
  obtain ⟨i, -, rfl⟩ := (hs.mem_held p).1 hp
  obtain ⟨hsame, htaken⟩ := hs.ready.taken_of_write hlow
  have hperform : (Action.write address bytes).perform s.slab s.memory =
      .ok none (s.memory.writeBytes address bytes) := rfl
  apply hs.stepped_of_ok hperform hsame
  · rw [htaken]
    exact .write
  · intro p
    rw [htaken, ← hs.mem_held]
    simp [Action.givenBack]

theorem Sound.step (hs : s.Sound) (hhonest : s.Honest action) : s.Stepped action := by
  cases action with
  | allocate => exact hs.allocate
  | release address => exact hs.release address
  | write address bytes => exact hs.write hhonest

/-! ## Runs -/

theorem Reaches.invariant {s s' : Session} (hrun : Reaches s s') (hs : s.Sound) :
    s'.Sound ∧ s'.slab = s.slab ∧ s.slab.SameHeader s.memory s'.memory := by
  induction hrun with
  | refl => exact ⟨hs, rfl, fun _ _ _ => rfl⟩
  | step _ hhonest ih =>
      obtain ⟨hs', hslab, hsame⟩ := ih
      have hstep := hs'.step hhonest
      refine ⟨hstep.sound, hstep.slab_eq.trans hslab, hsame.trans ?_⟩
      rw [← hslab]
      exact hstep.sameHeader

theorem Sound.mem_held_iff (hs : s.Sound) (p : Nat) :
    p ∈ s.held ↔ ∃ i ∈ s.slab.taken s.memory, s.slab.slotAddress? s.memory i = some p := by
  rw [hs.mem_held]
  apply exists_congr
  intro i
  rw [and_congr_right_iff]
  intro hi
  rw [slotAddress?_eq_some, and_iff_right (mem_taken.1 hi).1]

/--
A slab refines a finite set of slots.  After any run in which the client writes
only to slots it holds, the header is the one laid out at first, and the next
action answers and changes the set of slots taken as the set itself would.
-/
theorem honest_run_refines_set {start size object : Nat} {m₀ m : Memory} {slab : Slab}
    {s : Session} (hregion : start + size ≤ Word.limit)
    (hinit : init start size object m₀ = .ok slab m) (hrun : Reaches ⟨slab, m, []⟩ s) :
    let place := slab.slotAddress? m
    let taken (t : Session) := t.slab.taken t.memory
    (∀ i, (∃ p, place i = some p) ↔ i < slab.capacity m) ∧
      (∀ i p, place i = some p →
        slab.bitmapAddress + slab.bitmapSize m ≤ p ∧ p + object ≤ start + size) ∧
      (∀ i j p q, place i = some p → place j = some q → i < j → p + object ≤ q) ∧
      slab.taken m = ∅ ∧
      s.slab = slab ∧ slab.SameHeader m s.memory ∧
      taken s ⊆ Finset.range (slab.capacity m) ∧ s.slab.inUse s.memory = (taken s).card ∧
      (∀ p, p ∈ s.held ↔ ∃ i ∈ taken s, place i = some p) ∧
      ∀ action, s.Honest action →
        Transition place (taken s) action (s.reply action) (taken (s.after action)) ∧
          ∀ error, s.reply action = .error error → (s.after action).memory = s.memory := by
  intro place taken
  obtain ⟨rfl, hready, hobject, -, hempty, hfit⟩ := init_spec hregion hinit
  have hstart : Sound ⟨⟨start⟩, m, []⟩ := by
    refine ⟨hready, ?_⟩
    simp [hempty]
  -- the header never changes, so that places are the same before and after the run
  obtain ⟨hs, hslab, hsame⟩ := hrun.invariant hstart
  have hplace : s.slab.slotAddress? s.memory = place := by
    rw [hslab]
    exact hsame.slotAddress?_eq
  refine ⟨?_, ?_, ?_, hempty, hslab, hsame, ?_, hs.ready.inUse_eq_card, ?_, ?_⟩
  · intro i
    simp [place, slotAddress?_eq_some]
  · intro i p hi
    obtain ⟨hlt, rfl⟩ := slotAddress?_eq_some.1 hi
    have hend := slotAddress_add_le ⟨start⟩ m hlt
    rw [hobject] at hend
    refine ⟨hready.bitmap_end_le i, Nat.le_trans hend ?_⟩
    rw [slotAddress, Nat.add_assoc]
    exact Nat.add_le_add_left hfit start
  · intro i j p q hi hj hlt
    obtain ⟨-, rfl⟩ := slotAddress?_eq_some.1 hi
    obtain ⟨-, rfl⟩ := slotAddress?_eq_some.1 hj
    exact hobject ▸ slotAddress_add_le ⟨start⟩ m hlt
  · intro i hi
    have hlt := (mem_taken.1 hi).1
    rw [hslab, hsame.capacity_eq] at hlt
    exact Finset.mem_range.2 hlt
  · exact hplace ▸ hs.mem_held_iff
  · intro action hhonest
    have hstep := hs.step hhonest
    refine ⟨?_, hstep.unchanged⟩
    have ht := hstep.transition
    rw [hplace] at ht
    simp only [taken, hstep.slab_eq]
    exact ht

def smallSession : Session :=
  let m := Memory.ofBytes 0 ByteArray.empty
  ⟨⟨64⟩, (((m.writeWord 64 8).writeWord 72 4).writeWord 80 1).fill 88 1 0, []⟩

theorem init_smallSession :
    init 64 64 8 (Memory.ofBytes 0 ByteArray.empty) = .ok smallSession.slab smallSession.memory :=
  rfl

theorem refines_set_after_release :
    let s := (((smallSession.after .allocate).after .allocate).after
      (.write 96 (List.replicate 8 0xff))).after (.release 96)
    let place := smallSession.slab.slotAddress? smallSession.memory
    Reaches smallSession s ∧ s.held = [104] ∧ s.reply (.release 96) = .error (.doubleFree 0) ∧
      (∀ p, p ∈ s.held ↔ ∃ i ∈ s.slab.taken s.memory, place i = some p) ∧
      Transition place (s.slab.taken s.memory) .allocate (.ok (some 96))
        ((s.after .allocate).slab.taken (s.after .allocate).memory) := by
  intro s place
  have hallocate : ∀ t : Session, t.Honest .allocate := fun _ => trivial
  have hrelease : ∀ (t : Session) (p : Nat), t.Honest (.release p) := fun _ _ => trivial
  have hwrite : ((smallSession.after .allocate).after .allocate).Honest
      (.write 96 (List.replicate 8 0xff)) := ⟨96, by decide +kernel⟩
  have hrun : Reaches smallSession s :=
    (((Reaches.refl.step (hallocate _)).step (hallocate _)).step hwrite).step (hrelease _ 96)
  have hreply : s.reply .allocate = .ok (some 96) := by decide +kernel
  obtain ⟨-, -, -, -, -, -, -, -, hheld, hstep⟩ :=
    honest_run_refines_set (by decide) init_smallSession hrun
  refine ⟨hrun, by decide +kernel, by decide +kernel, hheld, ?_⟩
  rw [← hreply]
  exact (hstep .allocate (hallocate s)).1

end Session

end EarlyBoot.Slab
