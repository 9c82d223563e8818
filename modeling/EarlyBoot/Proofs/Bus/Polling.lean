import Mathlib.Logic.Function.Iterate
import EarlyBoot.Proofs.Bus.Answers

/-!
# Reading ports and waiting for them

What a read returns and how it leaves the bus are functions of the bus, so what
a port answers in turn is what it answers along the iterates of one function.
A bounded poll ends at the first answer it waits for; if there is none within
its limit, it gives up after that many questions.
-/

namespace EarlyBoot

open MachineM (Answers)

namespace PortBus

variable {β : Type} [PortBus β]

def byteAt (port : UInt16) (bus : β) : UInt8 := (read bus .byte port).1.toUInt8

def wordAt (port : UInt16) (bus : β) : UInt16 := (read bus .word port).1.toUInt16

def behind (width : Width) (port : UInt16) (bus : β) : β := (read bus width port).2

def sent (bus : β) (writes : List (UInt16 × UInt8)) : β :=
  writes.foldl (fun bus byte => write bus .byte byte.1 byte.2.toUInt32) bus

end PortBus

namespace Access

def ofByte (port : UInt16) (value : UInt8) : Access := .read .byte port value.toUInt32

def ofWord (port : UInt16) (value : UInt16) : Access := .read .word port value.toUInt32

theorem ofWrite_ne_read {width width' : Width} {port port' : UInt16} {value value' : UInt32} :
    ofWrite width port value ≠ .read width' port' value' := by
  unfold ofWrite
  split <;> simp

def ofWrites (writes : List (UInt16 × UInt8)) : List Access :=
  writes.map fun byte => ofWrite .byte byte.1 byte.2.toUInt32

end Access

namespace MachineM

open PortBus (byteAt wordAt behind sent)

variable {α β γ : Type} {x : MachineM β α} {a : α} {bus bus' : β} {accesses : List Access}

namespace Answers

theorem bind_pure {f : α → MachineM β γ} {c : γ} (hx : Answers x bus a bus' accesses)
    (hf : f a = Pure.pure c) : Answers (x >>= f) bus c bus' accesses := by
  have hbind := hx.bind (f := f) (hf ▸ pure c bus')
  rwa [List.append_nil] at hbind

theorem map (hx : Answers x bus a bus' accesses) (g : α → γ) :
    Answers (do return g (← x)) bus (g a) bus' accesses :=
  hx.bind_pure rfl

variable [PortBus β]

theorem readByte (port : UInt16) (bus : β) :
    Answers (readByte port) bus (byteAt port bus) (behind .byte port bus)
      [.ofByte port (byteAt port bus)] := by
  have hmask (value : UInt32) : value &&& Width.byte.mask = value.toUInt8.toUInt32 := by
    rw [← UInt32.toNat_inj, UInt32.toNat_and, UInt8.toNat_toUInt32, UInt32.toNat_toUInt8]
    exact Nat.and_two_pow_sub_one_eq_mod _ 8
  have hread := (readPort .byte port bus).map UInt32.toUInt8
  rw [hmask, UInt8.toUInt8_toUInt32] at hread
  exact hread

theorem readWord (port : UInt16) (bus : β) :
    Answers (readWord port) bus (wordAt port bus) (behind .word port bus)
      [.ofWord port (wordAt port bus)] := by
  have hmask (value : UInt32) : value &&& Width.word.mask = value.toUInt16.toUInt32 := by
    rw [← UInt32.toNat_inj, UInt32.toNat_and, UInt16.toNat_toUInt32, UInt32.toNat_toUInt16]
    exact Nat.and_two_pow_sub_one_eq_mod _ 16
  have hread := (readPort .word port bus).map UInt32.toUInt16
  rw [hmask, UInt16.toUInt16_toUInt32] at hread
  exact hread

end Answers

section Sends

variable [PortBus β]

def Sends (x : MachineM β Unit) (writes : List (UInt16 × UInt8)) : Prop :=
  ∀ bus, Answers x bus () (sent bus writes) (Access.ofWrites writes)

namespace Sends

variable {x y : MachineM β Unit} {first second : List (UInt16 × UInt8)}

theorem writeByte (port : UInt16) (value : UInt8) :
    Sends (writeByte port value : MachineM β Unit) [(port, value)] :=
  fun bus => .writePort .byte port value.toUInt32 bus

theorem bind (hx : Sends x first) (hy : Sends y second) : Sends (do x; y) (first ++ second) := by
  intro bus
  have hboth := (hx bus).bind (f := fun _ => y) (hy _)
  unfold sent Access.ofWrites at *
  rwa [← List.map_append, ← List.foldl_append] at hboth

theorem writeByte_bind {port : UInt16} {value : UInt8} (hy : Sends y second) :
    Sends (do MachineM.writeByte port value; y) ((port, value) :: second) :=
  (writeByte port value).bind hy

theorem delay (rounds : Nat) :
    Sends (delay rounds : MachineM β Unit) (List.replicate rounds (delayPort, 0)) := by
  induction rounds with
  | zero => exact fun bus => .pure () bus
  | succ rounds ih => exact (writeByte delayPort 0).bind ih

end Sends

end Sends

/-- The first turn within the limit at which the bus is as asked for. -/
structure FirstTurn (wanted : β → Prop) (next : β → β) (limit : Nat) (bus : β) (n : Nat) :
    Prop where
  lt : n < limit
  holds : wanted (next^[n] bus)
  before : ∀ i < n, ¬ wanted (next^[i] bus)

namespace FirstTurn

variable {wanted : β → Prop} {next : β → β} {limit m n : Nat}

theorem zero (h : wanted bus) : FirstTurn wanted next (limit + 1) bus 0 :=
  ⟨Nat.zero_lt_succ limit, h, fun _ hi => absurd hi (Nat.not_lt_zero _)⟩

theorem succ (h : ¬ wanted bus) (hfirst : FirstTurn wanted next limit (next bus) n) :
    FirstTurn wanted next (limit + 1) bus (n + 1) := by
  refine ⟨Nat.succ_lt_succ hfirst.lt, hfirst.holds, fun i hi => ?_⟩
  cases i with
  | zero => exact h
  | succ i => exact hfirst.before i (Nat.lt_of_succ_lt_succ hi)

theorem unique (hm : FirstTurn wanted next limit bus m) (hn : FirstTurn wanted next limit bus n) :
    m = n :=
  Nat.le_antisymm (Nat.not_lt.1 fun h => hm.before n h hn.holds)
    (Nat.not_lt.1 fun h => hn.before m h hm.holds)

end FirstTurn

def turns (made : β → List Access) (next : β → β) : Nat → β → List Access
  | 0, _ => []
  | n + 1, bus => made bus ++ turns made next n (next bus)

theorem turns_eq_flatMap (made : β → List Access) (next : β → β) (n : Nat) (bus : β) :
    turns made next n bus = (List.range n).flatMap fun i => made (next^[i] bus) := by
  induction n generalizing bus with
  | zero => rfl
  | succ n ih =>
      rw [List.range_succ_eq_map, List.flatMap_cons, List.flatMap_map, turns, ih]
      rfl

theorem mem_turns {made : β → List Access} {next : β → β} {n : Nat} {access : Access}
    (h : access ∈ turns made next n bus) : ∃ i < n, access ∈ made (next^[i] bus) := by
  rw [turns_eq_flatMap] at h
  obtain ⟨i, hi, hmade⟩ := List.mem_flatMap.1 h
  exact ⟨i, List.mem_range.1 hi, hmade⟩

/-- A computation that asks the same question up to `limit` times. -/
structure Polls (poll : Nat → MachineM β γ) (question : MachineM β α) (stop : α → Prop)
    [DecidablePred stop] (found : α → γ) (missing : γ) : Prop where
  zero : poll 0 = pure missing
  succ : ∀ limit, poll (limit + 1) = do
    let a ← question
    if stop a then pure (found a) else poll limit

theorem pollUntil_polls (question : MachineM β α) (ready : α → Bool) :
    Polls (pollUntil (do return ready (← question))) question (ready · = true) (fun _ => true)
      false :=
  ⟨rfl, fun limit => by simp only [pollUntil, bind_assoc, pure_bind]⟩

theorem Polls.outcome {poll : Nat → MachineM β γ} {question : MachineM β α} {stop : α → Prop}
    [DecidablePred stop] {found : α → γ} {missing : γ}
    (hpolls : Polls poll question stop found missing) {answer : β → α} {next : β → β}
    {made : β → List Access}
    (hquestion : ∀ bus, Answers question bus (answer bus) (next bus) (made bus)) (limit : Nat)
    (bus : β) :
    (∃ n, FirstTurn (fun bus => stop (answer bus)) next limit bus n ∧
      Answers (poll limit) bus (found (answer (next^[n] bus))) (next^[n + 1] bus)
        (turns made next (n + 1) bus)) ∨
    (∀ n < limit, ¬ stop (answer (next^[n] bus))) ∧
      Answers (poll limit) bus missing (next^[limit] bus) (turns made next limit bus) := by
  -- each turn asks on the bus that the last one left
  induction limit generalizing bus with
  | zero =>
      rw [hpolls.zero]
      exact .inr ⟨fun n hn => absurd hn (Nat.not_lt_zero n), .pure missing bus⟩
  | succ limit ih =>
      rw [hpolls.succ]
      by_cases hstop : stop (answer bus)
      · refine .inl ⟨0, .zero hstop, (hquestion bus).bind ?_⟩
        rw [if_pos hstop]
        exact .pure _ _
      · rcases ih (next bus) with ⟨n, hfirst, hpoll⟩ | ⟨hnever, hpoll⟩
        · refine .inl ⟨n + 1, hfirst.succ hstop, (hquestion bus).bind ?_⟩
          rw [if_neg hstop]
          exact hpoll
        · refine .inr ⟨?_, (hquestion bus).bind ?_⟩
          · rintro (_ | n) hn
            · exact hstop
            · exact hnever n (Nat.lt_of_succ_lt_succ hn)
          · rw [if_neg hstop]
            exact hpoll

end MachineM

end EarlyBoot
