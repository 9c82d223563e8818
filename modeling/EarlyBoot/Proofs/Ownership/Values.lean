import EarlyBoot.Proofs.Ownership.Requests
import Mathlib.Algebra.BigOperators.Group.List.Basic

/-!
# Values and the blocks they own

Every value has a deed: that of the blocks which go away with it.  Plain data
owns nothing, and a list owns what its elements own.  A value that keeps others
in a block of its own owns that block, and what the values in it own.

To drop a value is to give up its deed: every block in it is released, once,
and nothing else happens to the heap.
-/

namespace EarlyBoot

open HasFirmware (firmware)

/-- Values that answer for blocks of the heap; they promise no room. -/
class HasDeed (α : Type) where
  deed : α → Deed
  budget_deed : ∀ x, (deed x).budget = 0

export HasDeed (deed)

attribute [simp] HasDeed.budget_deed

/-- Dropping a value gives up its deed. -/
class Disposable (α : Type) [Owned α] [HasDeed α] : Prop where
  drop_delivers : ∀ (x : α) (f : Firmware) (blocks : List BlockInfo),
    Delivers (Owned.drop x) f blocks (deed x) fun _ _ => 0

export Disposable (drop_delivers)

variable {α : Type} {f : Firmware} {blocks : List BlockInfo}

@[reducible] def HasDeed.plain : HasDeed α := ⟨fun _ => 0, fun _ => rfl⟩

instance : HasDeed UInt8 := .plain
instance : HasDeed UInt16 := .plain
instance : HasDeed UInt32 := .plain
instance : HasDeed UInt64 := .plain
instance : HasDeed Unit := .plain

theorem drop_plain_delivers : Delivers (pure () : FirmwareM Unit) f blocks 0 fun _ _ => 0 :=
  .pure (.refl _ _ _)

instance : Disposable UInt8 := ⟨fun _ _ _ => drop_plain_delivers⟩
instance : Disposable UInt16 := ⟨fun _ _ _ => drop_plain_delivers⟩
instance : Disposable UInt32 := ⟨fun _ _ _ => drop_plain_delivers⟩
instance : Disposable UInt64 := ⟨fun _ _ _ => drop_plain_delivers⟩
instance : Disposable Unit := ⟨fun _ _ _ => drop_plain_delivers⟩

section Lists

variable {γ : Type} {entries : List γ} {d : γ → Deed}

theorem budget_sum_map (hbudget : ∀ e ∈ entries, (d e).budget = 0) :
    (entries.map d).sum.budget = 0 := by
  induction entries with
  | nil => rfl
  | cons e rest ih =>
      rw [List.map_cons, List.sum_cons, Deed.budget_add, hbudget e (.head rest),
        ih fun e he => hbudget e (.tail _ he), add_zero]

theorem andAlso_delivers {first second : FirmwareM Unit} {d e : Deed}
    (hfirst : Delivers first f blocks d fun _ _ => 0) (hbudget : d.budget ≤ 0 ∨ 0 ≤ e.budget)
    (hsecond : ∀ f blocks, Delivers second f blocks e fun _ _ => 0) :
    Delivers (FirmwareM.andAlso first second) f blocks (d + e) fun _ _ => 0 := by
  refine hfirst.unwinding.bind_frame hbudget ?_
  intro _ f' blocks' _
  rw [zero_add]
  exact hsecond f' blocks'

theorem dropAll_delivers [Owned α] {v : γ → α} (hbudget : ∀ e ∈ entries, (d e).budget = 0)
    (hdrop : ∀ e ∈ entries, ∀ f blocks,
      Delivers (Owned.drop (v e)) f blocks (d e) fun _ _ => 0) (f : Firmware)
    (blocks : List BlockInfo) :
    Delivers (Owned.dropAll (entries.map v)) f blocks (entries.map d).sum fun _ _ => 0 := by
  -- what is left of the list waits while its first value goes
  induction entries generalizing f blocks with
  | nil => exact drop_plain_delivers
  | cons e rest ih =>
      have hbudget' := budget_sum_map fun e he => hbudget e (.tail _ he)
      rw [List.map_cons, List.map_cons, List.sum_cons]
      exact andAlso_delivers (hdrop e (.head rest) f blocks) (.inr hbudget'.ge)
        (ih (fun e he => hbudget e (.tail _ he)) fun e he => hdrop e (.tail _ he))

end Lists

section Compound

variable [HasDeed α]

theorem budget_sum_map_deed (xs : List α) : (xs.map deed).sum.budget = 0 :=
  budget_sum_map fun _ _ => HasDeed.budget_deed _

instance : HasDeed (List α) := ⟨fun xs => (xs.map deed).sum, budget_sum_map_deed⟩

@[simp] theorem deed_nil : deed ([] : List α) = 0 := rfl

@[simp] theorem deed_cons (x : α) (xs : List α) : deed (x :: xs) = deed x + deed xs := rfl

@[simp] theorem deed_append (xs ys : List α) : deed (xs ++ ys) = deed xs + deed ys := by
  change ((xs ++ ys).map deed).sum = _
  rw [List.map_append, List.sum_append]
  rfl

theorem deed_perm {xs ys : List α} (h : xs.Perm ys) : deed xs = deed ys :=
  (h.map deed).sum_eq

instance : HasDeed (Option α) := ⟨fun x => deed x.toList, fun _ => budget_sum_map_deed _⟩

@[simp] theorem deed_none : deed (none : Option α) = 0 := rfl

@[simp] theorem deed_some (x : α) : deed (some x) = deed x := add_zero _

instance {n : Nat} : HasDeed (Vector α n) :=
  ⟨fun xs => deed xs.toList, fun _ => budget_sum_map_deed _⟩

instance {ε : Type} : HasDeed (Except ε α) where
  deed
    | .ok x => deed x
    | .error _ => 0
  budget_deed x := by cases x <;> simp

@[simp] theorem deed_ok {ε : Type} (x : α) : deed (.ok x : Except ε α) = deed x := rfl

@[simp] theorem deed_error {ε : Type} (error : ε) : deed (.error error : Except ε α) = 0 := rfl

variable [Owned α] [Disposable α]

theorem dropAll_deed_delivers (xs : List α) (f : Firmware) (blocks : List BlockInfo) :
    Delivers (Owned.dropAll xs) f blocks (deed xs) fun _ _ => 0 := by
  have hdrop := dropAll_delivers (v := id) (fun _ _ => HasDeed.budget_deed _)
    (fun (x : α) (_ : x ∈ xs) => drop_delivers x) f blocks
  rwa [List.map_id] at hdrop

instance {n : Nat} : Disposable (Vector α n) := ⟨fun xs => dropAll_deed_delivers xs.toList⟩

instance : Disposable (Option α) where
  drop_delivers
    | none, _, _ => drop_plain_delivers
    | some x, f, blocks => by
        rw [deed_some]
        exact drop_delivers x f blocks

end Compound

end EarlyBoot
