import EarlyBoot.Proofs.GlobalAllocation
import EarlyBoot.Proofs.BlockHeap.Sharing

/-!
# Heap requests of the firmware

The firmware makes the calls of the heap through an interface of its own.  An
honest call is answered as the heap answers it.  If the heap is in good order,
a request that fails does so because the heap is exhausted, and leaves nothing
behind but perhaps a line in the log.
-/

namespace EarlyBoot

open BlockHeap (Call)
open BlockHeap.Session (Shares Honest Reaches)

/-- The causes for which a heap in good order turns a request down. -/
inductive HeapError.IsExhaustion : HeapError → Prop
  | outOfMemory {requested : Nat} : IsExhaustion (.outOfMemory requested)
  | sizeOverflow {count size : Nat} : IsExhaustion (.sizeOverflow count size)

theorem HeapError.IsExhaustion.recoverable {error : HeapError} (h : error.IsExhaustion) :
    error.isFatal = false := by
  cases h <;> rfl

/-- Heap, memory and names are the same; something may have been logged. -/
structure Firmware.Untouched (f f' : Firmware) : Prop where
  heap : f'.heap = f.heap
  memory : f'.memory = f.memory
  names : f'.names = f.names

namespace Heap

variable {f : Firmware} {h : BlockHeap} {m m' : Memory} {size address p : Nat}
  {error : HeapError}

theorem exhaustion_of_declines (hp : h.Placed) (hd : h.Declines size m error m')
    (hrecoverable : error.isFatal = false) : error.IsExhaustion := by
  rcases hd with hfatal | ⟨hrefused, -⟩
  · rw [hrecoverable] at hfatal
    cases hfatal
  · cases hrefused with
    | notInitialized hinit =>
        rw [hp.isInitialized] at hinit
        cases hinit
    | sizeOverflow => exact .sizeOverflow
    | outOfMemory => exact .outOfMemory

theorem malloc_of_ok (hok : f.heap.allocate size f.memory = .ok p m') :
    malloc size f = .ok (.ok p) { f with memory := m' } :=
  bind_of_answer (onHeap_of_ok (·.allocate size) hok)

theorem malloc_of_report (hfail : f.heap.allocate size f.memory = .error (.report error) f.memory) :
    ∃ f', malloc size f = .ok (.error error) f' ∧ f.Untouched f' :=
  ⟨_, bind_of_answer (onHeap_of_report (·.allocate size) hfail), rfl, rfl, rfl⟩

theorem free_of_ok (hok : f.heap.release address f.memory = .ok () m') :
    free address f = .ok () { f with memory := m' } :=
  bind_of_answer (onHeap_of_ok (·.release address) hok)

theorem some_of_ok {x : HeapM Nat} {given : Option Nat}
    (hok : (x >>= fun a => pure (some a)) m = .ok given m') : ∃ a ∈ given, x m = .ok a m' := by
  obtain ⟨a, m₁, hx, hpure⟩ := MemoryM.bind_eq_ok.1 hok
  obtain ⟨rfl, rfl⟩ := MemoryM.pure_eq_ok.1 hpure
  exact ⟨a, rfl, hx⟩

theorem eq_error_of_some {x : HeapM Nat} {stop : HeapStop}
    (hfail : (x >>= fun a => pure (some a)) m = .error stop m') : x m = .error stop m' := by
  cases hx : x m with
  | ok a m₁ =>
      rw [MemoryM.bind_of_ok hx] at hfail
      cases hfail
  | error reason m₁ =>
      rw [MemoryM.bind_of_error hx] at hfail
      cases hfail
      rfl

theorem init_eq_ok {f₀ : Firmware} {start : Nat} (hinit : init start size f₀ = .ok (.ok ()) f) :
    f₀.heap.init start size f₀.memory = .ok f.heap f.memory := by
  obtain ⟨memory, heap, console, names⟩ := f₀
  unfold init at hinit
  dsimp only at hinit
  split at hinit
  · rename_i hrun
    cases hinit
    exact hrun
  · cases hinit
  · cases hinit

def request : Call → FirmwareM (Except HeapError (Option Nat))
  | .allocate size => do
      let result ← malloc size
      pure (result.map some)
  | .allocateAligned size align => do
      let result ← allocate size align
      pure (result.map some)
  | .allocateZeroed count size => do
      let result ← calloc count size
      pure (result.map some)
  | .resize address newSize => do
      let result ← realloc address newSize
      pure (result.map some)
  | .release address => do
      free address
      pure (.ok none)

variable {call : Call} {given : Option Nat}

theorem request_of_ok (hok : call.perform f.heap f.memory = .ok given m') :
    request call f = .ok (.ok given) { f with memory := m' } := by
  cases call with
  | allocate size =>
      obtain ⟨p, rfl, hrun⟩ := some_of_ok hok
      exact bind_of_answer (malloc_of_ok hrun)
  | allocateAligned size align =>
      obtain ⟨p, rfl, hrun⟩ := some_of_ok hok
      exact bind_of_answer (onHeap_of_ok (·.allocateAligned size align) hrun)
  | allocateZeroed count size =>
      obtain ⟨p, rfl, hrun⟩ := some_of_ok hok
      exact bind_of_answer (onHeap_of_ok (·.allocateZeroed count size) hrun)
  | resize address newSize =>
      obtain ⟨p, rfl, hrun⟩ := some_of_ok hok
      exact bind_of_answer (onHeap_of_ok (·.resize address newSize) hrun)
  | release address =>
      obtain ⟨_, m₁, hrun, hpure⟩ := MemoryM.bind_eq_ok.1 hok
      obtain ⟨rfl, rfl⟩ := MemoryM.pure_eq_ok.1 hpure
      exact bind_of_answer (free_of_ok hrun)

theorem request_of_report (hkind : ∀ address, call ≠ .release address)
    (hfail : call.perform f.heap f.memory = .error (.report error) f.memory) :
    ∃ f', request call f = .ok (.error error) f' ∧ f.Untouched f' := by
  cases call with
  | allocate size =>
      obtain ⟨f', hrun, huntouched⟩ := malloc_of_report (eq_error_of_some hfail)
      exact ⟨f', bind_of_answer hrun, huntouched⟩
  | allocateAligned size align =>
      exact ⟨_, bind_of_answer (onHeap_of_report (·.allocateAligned size align)
        (eq_error_of_some hfail)), rfl, rfl, rfl⟩
  | allocateZeroed count size =>
      exact ⟨_, bind_of_answer (onHeap_of_report (·.allocateZeroed count size)
        (eq_error_of_some hfail)), rfl, rfl, rfl⟩
  | resize address newSize =>
      exact ⟨_, bind_of_answer (onHeap_of_report (·.resize address newSize)
        (eq_error_of_some hfail)), rfl, rfl, rfl⟩
  | release address => exact absurd rfl (hkind address)

variable {blocks : List BlockInfo} {held : List Nat}

theorem request_reaches (hs : Shares ⟨f.heap, f.memory, held⟩ blocks)
    (hheld : ∀ p ∈ call.givenBack, p ∈ held) :
    ∃ reply f' held', request call f = .ok reply f' ∧
      Reaches Honest ⟨f.heap, f.memory, held⟩ ⟨f'.heap, f'.memory, held'⟩ := by
  have hhonest : Honest ⟨f.heap, f.memory, held⟩ (.call call) := hheld
  rcases hs.call hhonest with ⟨error, hfails⟩ | ⟨m', blocks', gone, new, hc, -⟩
  · obtain ⟨f', hrun, huntouched⟩ := request_of_report hfails.no_release hfails.performed
    refine ⟨.error error, f', held, hrun, ?_⟩
    rw [huntouched.heap, huntouched.memory]
    exact .refl
  · have hstep := Reaches.refl.step hhonest
    rw [(BlockHeap.Session.after_of_ok hc.performed).2] at hstep
    exact ⟨_, _, _, request_of_ok hc.performed, hstep⟩

theorem free_reaches (hs : Shares ⟨f.heap, f.memory, held⟩ blocks) (hheld : address ∈ held) :
    ∃ f', free address f = .ok () f' ∧
      Reaches Honest ⟨f.heap, f.memory, held⟩
        ⟨f'.heap, f'.memory, held.filter (address ≠ ·)⟩ := by
  obtain ⟨m', hok⟩ := hs.release hheld
  have hhonest : Honest ⟨f.heap, f.memory, held⟩ (.call (.release address)) := by
    rintro p ⟨⟩
    exact hheld
  have hperform : (Call.release address).perform f.heap f.memory = .ok none m' :=
    MemoryM.bind_of_ok hok
  have hstep := Reaches.refl.step hhonest
  rw [(BlockHeap.Session.after_of_ok hperform).2] at hstep
  refine ⟨_, free_of_ok hok, ?_⟩
  simpa [Call.givenBack] using hstep

end Heap

end EarlyBoot
