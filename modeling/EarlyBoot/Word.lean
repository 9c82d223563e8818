/-!
# Machine words

Sizes, offsets and addresses are natural numbers that stay below `Word.limit`.
Every operation that could leave that range says so: the functions ending in
`?` answer `none` instead of wrapping around.
-/

namespace EarlyBoot.Word

def limit : Nat := 0x1_0000_0000_0000_0000

def greatest : Nat := limit - 1

def add? (a b : Nat) : Option Nat :=
  if a + b < limit then some (a + b) else none

def sub? (a b : Nat) : Option Nat :=
  if b ≤ a then some (a - b) else none

def mul? (a b : Nat) : Option Nat :=
  if a * b < limit then some (a * b) else none

def total : List Nat → Nat
  | [] => 0
  | n :: rest => n + total rest

def saturatingMul (a b : Nat) : Nat := min (a * b) greatest

def roundUp (n unit : Nat) : Nat := (n + (unit - 1)) / unit * unit

def roundUp? (n unit : Nat) : Option Nat :=
  if roundUp n unit < limit then some (roundUp n unit) else none

theorem add?_eq_some {a b c : Nat} : add? a b = some c ↔ c = a + b ∧ c < limit := by
  unfold add?
  split <;> grind

theorem sub?_eq_some {a b c : Nat} : sub? a b = some c ↔ b ≤ a ∧ c = a - b := by
  unfold sub?
  split <;> grind

theorem mul?_eq_some {a b c : Nat} : mul? a b = some c ↔ c = a * b ∧ c < limit := by
  unfold mul?
  split <;> grind

theorem saturatingMul_lt_iff {a b n : Nat} (h : n < limit) : saturatingMul a b < n ↔ a * b < n := by
  unfold saturatingMul greatest
  omega

theorem le_roundUp {n unit : Nat} (h : 0 < unit) : n ≤ roundUp n unit := by
  have h1 := Nat.div_add_mod (n + (unit - 1)) unit
  have h2 := Nat.mod_lt (n + (unit - 1)) h
  rw [Nat.mul_comm] at h1
  unfold roundUp
  omega

theorem roundUp_lt {n unit : Nat} (h : 0 < unit) : roundUp n unit < n + unit := by
  have h1 := Nat.div_mul_le_self (n + (unit - 1)) unit
  unfold roundUp
  omega

@[simp] theorem roundUp_mod (n unit : Nat) : roundUp n unit % unit = 0 :=
  Nat.mul_mod_left _ _

end EarlyBoot.Word
