import EarlyBoot.Memory

/-!
# Computations on memory

A computation on memory answers a value or stops with a reason, and what it has
written by then stays written.  `inspect` runs one that only looks.  The lemmas
say when each way of building a computation succeeds, and with which memory.
-/

namespace EarlyBoot

abbrev MemoryM (ε : Type) := EStateM ε Memory

namespace MemoryM

variable {ε α β : Type}

def inspect (query : Memory → Except ε α) : MemoryM ε α := fun m =>
  match query m with
  | .ok value => .ok value m
  | .error stop => .error stop m

def stop (reason : ε) : MemoryM ε α := fun m => .error reason m

instance : MonadLift (Except ε) (MemoryM ε) where
  monadLift result := inspect fun _ => result

theorem bind_eq_ok {x : MemoryM ε α} {f : α → MemoryM ε β} {m m' : Memory} {b : β} :
    (x >>= f) m = .ok b m' ↔ ∃ a m₁, x m = .ok a m₁ ∧ f a m₁ = .ok b m' := by
  change EStateM.bind x f m = _ ↔ _
  unfold EStateM.bind
  cases hx : x m with
  | ok a m₁ =>
      constructor
      · exact fun h => ⟨a, m₁, rfl, h⟩
      · rintro ⟨_, _, h, hf⟩
        cases h
        exact hf
  | error e m₁ => simp

theorem bind_of_ok {x : MemoryM ε α} {f : α → MemoryM ε β} {m m' : Memory} {a : α}
    (hx : x m = .ok a m') : (x >>= f) m = f a m' := by
  change EStateM.bind x f m = _
  unfold EStateM.bind
  rw [hx]

theorem bind_of_error {x : MemoryM ε α} {f : α → MemoryM ε β} {m m' : Memory} {e : ε}
    (hx : x m = .error e m') : (x >>= f) m = .error e m' := by
  change EStateM.bind x f m = _
  unfold EStateM.bind
  rw [hx]

theorem inspect_of_ok {query : Memory → Except ε α} {m : Memory} {a : α}
    (hq : query m = .ok a) : inspect query m = .ok a m := by
  unfold inspect
  rw [hq]

theorem inspect_of_error {query : Memory → Except ε α} {m : Memory} {e : ε}
    (hq : query m = .error e) : inspect query m = .error e m := by
  unfold inspect
  rw [hq]

theorem lift_of_ok {result : Except ε α} {a : α} (hr : result = .ok a) (m : Memory) :
    (liftM result : MemoryM ε α) m = .ok a m :=
  inspect_of_ok hr

theorem lift_of_error {result : Except ε α} {e : ε} (hr : result = .error e) (m : Memory) :
    (liftM result : MemoryM ε α) m = .error e m :=
  inspect_of_error hr

theorem inspect_eq_ok {query : Memory → Except ε α} {m m' : Memory} {a : α} :
    inspect query m = .ok a m' ↔ query m = .ok a ∧ m = m' := by
  unfold inspect
  cases query m with
  | ok b => simp
  | error e => simp

theorem lift_eq_ok {result : Except ε α} {m m' : Memory} {a : α} :
    (liftM result : MemoryM ε α) m = .ok a m' ↔ result = .ok a ∧ m = m' :=
  inspect_eq_ok

theorem stop_ne_ok {reason : ε} {m m' : Memory} {a : α} :
    (stop reason : MemoryM ε α) m ≠ .ok a m' := by
  simp [stop]

theorem pure_eq_ok {a b : α} {m m' : Memory} :
    (pure a : MemoryM ε α) m = .ok b m' ↔ a = b ∧ m = m' := by
  change EStateM.Result.ok a m = _ ↔ _
  simp

end MemoryM

end EarlyBoot
