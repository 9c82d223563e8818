import EarlyBoot.Firmware
import EarlyBoot.Proofs.BlockHeap.Reports
import EarlyBoot.Proofs.BlockHeap.Robustness

/-!
# The global allocation interface

Code that allocates through the global interface sees three outcomes and no
error values: an address, no address, or a halt.  Whatever bytes the arena
holds, an address is usable as requested, the firmware is as before if there is
none, and it halts exactly on the errors after which the heap cannot be trusted.
-/

namespace EarlyBoot

section

variable {ε σ α β : Type} {x : EStateM ε σ α} {k : α → EStateM ε σ β} {s s' : σ} {value : α}

theorem bind_of_answer (hx : x s = .ok value s') : (x >>= k) s = k value s' := by
  change EStateM.bind x k s = _
  unfold EStateM.bind
  rw [hx]

theorem bind_of_halt {reason : ε} (hx : x s = .error reason s') :
    (x >>= k) s = .error reason s' := by
  change EStateM.bind x k s = _
  unfold EStateM.bind
  rw [hx]

theorem answers_of_bind {b : β} (h : (x >>= k) s = .ok b s') :
    ∃ a s₁, x s = .ok a s₁ ∧ k a s₁ = .ok b s' := by
  cases hx : x s with
  | ok a s₁ => exact ⟨a, s₁, rfl, (bind_of_answer hx).symm.trans h⟩
  | error reason s₁ => cases (bind_of_halt hx).symm.trans h

theorem answer_of_run (hrun : x.run' s = some value) : ∃ s', x s = .ok value s' := by
  unfold EStateM.run' EStateM.run at hrun
  cases hx : x s with
  | ok answer s' =>
      rw [hx] at hrun
      cases hrun
      exact ⟨s', rfl⟩
  | error reason s' =>
      rw [hx] at hrun
      cases hrun

theorem answers_of_runs {y : EStateM ε σ β} {b : β} (hx : x.run' s = some value)
    (hy : (x >>= fun _ => y).run' s = some b) :
    ∃ s₁ s₂, x s = .ok value s₁ ∧ y s₁ = .ok b s₂ := by
  obtain ⟨s₁, hx⟩ := answer_of_run hx
  obtain ⟨s₂, hy⟩ := answer_of_run hy
  exact ⟨s₁, s₂, hx, (bind_of_answer hx).symm.trans hy⟩

theorem answer_of_view {γ : Type} {view : α → σ → γ} {seen : γ}
    (hrun : (do
      let a ← x
      return view a (← get)).run' s = some seen) :
    ∃ a s', x s = .ok a s' ∧ view a s' = seen := by
  obtain ⟨s', hrun⟩ := answer_of_run hrun
  obtain ⟨a, s₁, hx, hview⟩ := answers_of_bind hrun
  exact ⟨a, s₁, hx, (EStateM.Result.ok.inj hview).1⟩

end

theorem FirmwareM.haltIfFatal_of_recoverable {error : HeapError} (h : error.isFatal = false) :
    haltIfFatal error = pure () := by
  unfold haltIfFatal
  rw [h]
  rfl

namespace BlockHeap

variable {h : BlockHeap} {m m' : Memory} {α : Type} {size p : Nat}

/-- The arena, if there is one, is aligned and takes up less than half of the address space. -/
structure Situated (h : BlockHeap) : Prop where
  base_aligned : h.base % headerSize = 0
  arena_lt : h.arenaSize < Word.limit / 2
  stop_le : h.base + h.arenaSize ≤ Word.limit

theorem situated_of_init {h₀ : BlockHeap} {start : Nat} (hregion : start + size ≤ Word.limit)
    (hinit : h₀.init start size m = .ok h m') (harena : h.arenaSize < Word.limit / 2) :
    h.Situated := by
  obtain ⟨hp, -⟩ := init_spec hregion hinit
  exact ⟨hp.base_aligned, harena, hp.stop_le⟩

/-! ## Answers on an arbitrary arena -/

theorem payloadAddress_aligned (hs : h.Situated) {o : Nat} (hbounds : h.InBounds o) :
    h.payloadAddress o % headerSize = 0 := by
  have hbase := hs.base_aligned
  have ho := hbounds.2
  simp only [payloadAddress, headerSize] at *
  omega

theorem allocate_aligned (hs : h.Situated) (hok : h.allocate size m = .ok p m') :
    p % headerSize = 0 := by
  obtain ⟨_, m₁, -, hok⟩ := MemoryM.bind_eq_ok.1 hok
  obtain ⟨payload, m₂, -, hok⟩ := MemoryM.bind_eq_ok.1 hok
  obtain ⟨found, m₃, hfound, hok⟩ := MemoryM.bind_eq_ok.1 hok
  have hfits := (Contained.inspect (findFree_contained hs.arena_lt payload)).post_of_ok hfound
  cases found with
  | none => exact absurd hok MemoryM.stop_ne_ok
  | some v =>
      obtain ⟨_, m₄, -, hok⟩ := MemoryM.bind_eq_ok.1 hok
      obtain ⟨rfl, -⟩ := MemoryM.pure_eq_ok.1 hok
      exact payloadAddress_aligned hs (hfits v rfl).1

theorem resize_aligned (hs : h.Situated) {newSize q : Nat}
    (hok : h.resize p newSize m = .ok q m') : q % headerSize = 0 := by
  obtain ⟨_, m₁, -, hok⟩ := MemoryM.bind_eq_ok.1 hok
  obtain ⟨⟨o, header⟩, m₂, hused, hok⟩ := MemoryM.bind_eq_ok.1 hok
  have hp : p % headerSize = 0 := by
    obtain ⟨haddress, hbounds, -⟩ :=
      (Contained.inspect (usedBlock_contained hs.arena_lt p)).post_of_ok hused
    rw [haddress]
    exact payloadAddress_aligned hs hbounds
  obtain ⟨payload, m₃, -, hok⟩ := MemoryM.bind_eq_ok.1 hok
  split at hok
  · obtain ⟨_, m₄, -, hok⟩ := MemoryM.bind_eq_ok.1 hok
    obtain ⟨rfl, -⟩ := MemoryM.pure_eq_ok.1 hok
    exact hp
  · obtain ⟨grown, m₄, -, hok⟩ := MemoryM.bind_eq_ok.1 hok
    cases grown with
    | true =>
        obtain ⟨rfl, -⟩ := MemoryM.pure_eq_ok.1 hok
        exact hp
    | false =>
        obtain ⟨target, m₅, htarget, hok⟩ := MemoryM.bind_eq_ok.1 hok
        obtain ⟨_, m₆, -, hok⟩ := MemoryM.bind_eq_ok.1 hok
        obtain ⟨_, m₇, -, hok⟩ := MemoryM.bind_eq_ok.1 hok
        obtain ⟨rfl, -⟩ := MemoryM.pure_eq_ok.1 hok
        exact allocate_aligned hs htarget

end BlockHeap

namespace Heap

open FirmwareM
open BlockHeap (Situated HasRoom Reports Orderly alignment)
open BlockHeap.Session (smallSession init_smallSession)

variable {s s' : Firmware} {size align : Nat}

structure Granted (h : BlockHeap) (size align p : Nat) : Prop where
  ne_null : p ≠ 0
  word : p < Word.limit
  aligned : align ∣ p
  inside : h.base ≤ p ∧ p + size ≤ h.base + h.arenaSize

/-- The request ends in one of three ways; `attempt`, the heap operation behind it, says which. -/
structure Settles (s : Firmware) (size align : Nat) (attempt : HeapM Nat)
    (request : FirmwareM (Option Nat)) : Prop where
  outcome : (∃ p s', request s = .ok (some p) s' ∧ Granted s.heap size align p) ∨
    request s = .ok none s ∨ ∃ error s', request s = .error (.fatal error) s'
  none_iff : request s = .ok none s ↔ alignment < align ∨
    ∃ error m', attempt s.memory = .error (.report error) m' ∧ error.IsRefusal
  fatal_iff : ∀ error, (∃ s', request s = .error (.fatal error) s') ↔ align ≤ alignment ∧
    ∃ m', attempt s.memory = .error (.report error) m' ∧ error.isFatal = true

theorem dvd_of_aligned {p : Nat} (halign : align.isPowerOfTwo) (hle : align ≤ alignment)
    (hp : p % headerSize = 0) : align ∣ p := by
  obtain ⟨k, rfl⟩ := halign
  have hk : 2 ^ k ≤ 2 ^ 5 := hle
  have hdvd : 2 ^ k ∣ headerSize :=
    Nat.pow_dvd_pow 2 ((Nat.pow_le_pow_iff_right (by decide)).1 hk)
  exact Nat.dvd_trans hdvd (Nat.dvd_of_mod_eq_zero hp)

theorem granted_of_hasRoom {h : BlockHeap} {p : Nat} (hs : h.Situated) (hroom : h.HasRoom p size)
    (haligned : align ∣ p) : Granted h size align p := by
  have hlow := hroom.low
  have hinside := hroom.inside
  have hstop := hs.stop_le
  simp only [headerSize] at hlow
  exact ⟨by omega, by omega, haligned, by omega, hroom.high⟩

section

variable {α β : Type} {m' : Memory}

theorem onHeap_of_ok (operation : BlockHeap → HeapM α) {value : α}
    (hok : operation s.heap s.memory = .ok value m') :
    onHeap operation s = .ok (.ok value) { s with memory := m' } := by
  obtain ⟨memory, heap, console, names⟩ := s
  dsimp only at hok
  simp only [onHeap, hok]

theorem onHeap_of_report (operation : BlockHeap → HeapM α) {error : HeapError}
    (hfail : operation s.heap s.memory = .error (.report error) m') :
    onHeap operation s = .ok (.error error) { s with memory := m' } := by
  obtain ⟨memory, heap, console, names⟩ := s
  dsimp only at hfail
  simp only [onHeap, hfail]

end

theorem addressOrNone_of_fatal {error : HeapError} (hfatal : error.isFatal = true)
    (s : Firmware) : addressOrNone (.error error) s = .error (.fatal error) s := by
  have hhalt : haltIfFatal error s = .error (.fatal error) s := by
    unfold haltIfFatal
    rw [if_pos hfatal]
    rfl
  exact bind_of_halt hhalt

theorem addressOrNone_of_refusal {error : HeapError} (hrefusal : error.IsRefusal)
    (s : Firmware) : addressOrNone (.error error) s = .ok none s := by
  have hpass : haltIfFatal error s = .ok () s := by
    rw [haltIfFatal_of_recoverable hrefusal.not_fatal]
    rfl
  exact bind_of_answer hpass

/-! ## Requests -/

theorem settles_of_contained (operation : BlockHeap → HeapM Nat) (hs : s.heap.Situated)
    (halign : align.isPowerOfTwo) (hle : align ≤ alignment)
    (hroom : s.heap.Contained (operation s.heap) (s.heap.HasRoom · size))
    (horderly : Reports (Orderly s.memory) (operation s.heap s.memory))
    (haligned : ∀ p m', operation s.heap s.memory = .ok p m' → p % headerSize = 0) :
    Settles s size align (operation s.heap) (onHeap operation >>= addressOrNone) := by
  have hnot : ¬ alignment < align := Nat.not_lt.2 hle
  cases hrun : operation s.heap s.memory with
  | ok p m' =>
      have hrequest : (onHeap operation >>= addressOrNone) s =
          .ok (some p) { s with memory := m' } :=
        bind_of_answer (onHeap_of_ok _ hrun)
      refine ⟨.inl ⟨p, _, hrequest, ?_⟩, ?_, ?_⟩
      · exact granted_of_hasRoom hs (hroom.post_of_ok hrun)
          (dvd_of_aligned halign hle (haligned p m' hrun))
      · simp [hrequest, hrun, hnot]
      · simp [hrequest, hrun]
  | error stop m' =>
      cases stop with
      | overflow => exact absurd hrun hroom.not_overflow
      | report error =>
          have hrequest : (onHeap operation >>= addressOrNone) s =
              addressOrNone (.error error) { s with memory := m' } :=
            bind_of_answer (onHeap_of_report _ hrun)
          -- a fatal error may come after writes, a refusal only before the first one
          rcases horderly error m' hrun with hfatal | ⟨hrefusal, rfl⟩
          · rw [addressOrNone_of_fatal hfatal] at hrequest
            have hkind : ¬ error.IsRefusal := fun hr => by simp [hr.not_fatal] at hfatal
            refine ⟨.inr (.inr ⟨error, _, hrequest⟩), ?_, ?_⟩
            · simp [hrequest, hrun, hnot, hkind]
            · intro error'
              simp only [hrequest, hrun, hle]
              grind
          · rw [addressOrNone_of_refusal hrefusal] at hrequest
            refine ⟨.inr (.inl hrequest), ?_, ?_⟩
            · simp [hrequest, hrun, hrefusal]
            · intro error'
              simp only [hrequest, hrun]
              grind [hrefusal.not_fatal]

theorem settles_of_align {attempt : HeapM Nat} {request : FirmwareM (Option Nat)}
    (hgt : alignment < align) (hnone : request s = .ok none s) :
    Settles s size align attempt request := by
  refine ⟨.inr (.inl hnone), ?_, ?_⟩
  · simp [hnone, hgt]
  · simp [hnone, Nat.not_le.2 hgt]

theorem globalAlloc_settles (hs : s.heap.Situated) (halign : align.isPowerOfTwo) (size : Nat) :
    Settles s size align (s.heap.allocate size) (globalAlloc size align) := by
  by_cases hle : align ≤ alignment
  · have heq : globalAlloc size align = onHeap (·.allocate size) >>= addressOrNone := by
      unfold globalAlloc allocate BlockHeap.allocateAligned
      simp only [if_pos hle]
    rw [heq]
    apply settles_of_contained (·.allocate size) hs halign hle
    · exact BlockHeap.allocate_contained hs.arena_lt size
    · exact BlockHeap.allocate_orderly s.heap size s.memory
    · exact fun p m' hok => BlockHeap.allocate_aligned hs hok
  · apply settles_of_align (Nat.lt_of_not_le hle)
    let operation : BlockHeap → HeapM Nat := (·.allocateAligned size align)
    have hrun : operation s.heap s.memory =
        .error (.report (.unsupportedAlignment align)) s.memory := by
      dsimp only [operation]
      unfold BlockHeap.allocateAligned
      rw [if_neg hle]
      rfl
    exact bind_of_answer (onHeap_of_report _ hrun)

theorem globalRealloc_settles (hs : s.heap.Situated) (halign : align.isPowerOfTwo)
    {address : Nat} (haddress : address ≠ 0) (newSize : Nat) :
    Settles s newSize align (s.heap.resize address newSize)
      (globalRealloc address align newSize) := by
  by_cases hle : align ≤ alignment
  · have heq : globalRealloc address align newSize =
        onHeap (·.resize address newSize) >>= addressOrNone := by
      unfold globalRealloc realloc
      rw [if_neg (by omega)]
    rw [heq]
    apply settles_of_contained (·.resize address newSize) hs halign hle
    · exact BlockHeap.resize_contained hs.arena_lt address newSize
    · exact BlockHeap.resize_orderly s.heap address newSize s.memory
    · exact fun p m' hok => BlockHeap.resize_aligned hs hok
  · have hgt : alignment < align := Nat.lt_of_not_le hle
    apply settles_of_align hgt
    unfold globalRealloc
    rw [if_pos (.inr hgt)]
    rfl

theorem globalAllocZeroed_of_some {p : Nat} (hok : globalAlloc size align s = .ok (some p) s') :
    globalAllocZeroed size align s =
      .ok (some p) { s' with memory := s'.memory.fill p size 0 } := by
  unfold globalAllocZeroed
  rw [bind_of_answer hok]
  rfl

theorem globalAllocZeroed_of_none (hok : globalAlloc size align s = .ok none s') :
    globalAllocZeroed size align s = .ok none s' := by
  unfold globalAllocZeroed
  rw [bind_of_answer hok]
  rfl

theorem globalAllocZeroed_of_halt {reason : Halt}
    (hfail : globalAlloc size align s = .error reason s') :
    globalAllocZeroed size align s = .error reason s' :=
  bind_of_halt hfail

theorem globalAllocZeroed_settles {attempt : HeapM Nat}
    (hsettles : Settles s size align attempt (globalAlloc size align)) :
    Settles s size align attempt (globalAllocZeroed size align) := by
  obtain ⟨houtcome, hnone, hfatal⟩ := hsettles
  rcases houtcome with ⟨p, s', hok, hgranted⟩ | hok | ⟨error, s', hfail⟩
  · have hzeroed := globalAllocZeroed_of_some hok
    refine ⟨.inl ⟨p, _, hzeroed, hgranted⟩, ?_, ?_⟩
    · rw [← hnone, hzeroed, hok]
      simp
    · intro error
      rw [← hfatal error, hzeroed, hok]
      simp
  · have hzeroed := globalAllocZeroed_of_none hok
    rw [← hok] at hzeroed
    refine ⟨.inr (.inl (hzeroed.trans hok)), ?_, ?_⟩
    · rw [← hnone, hzeroed]
    · intro error
      rw [← hfatal error, hzeroed]
  · have hzeroed := globalAllocZeroed_of_halt hfail
    rw [← hfail] at hzeroed
    refine ⟨.inr (.inr ⟨error, s', hzeroed.trans hfail⟩), ?_, ?_⟩
    · rw [← hnone, hzeroed]
    · intro error
      rw [← hfatal error, hzeroed]

theorem globalAllocZeroed_zero {p : Nat}
    (hok : globalAllocZeroed size align s = .ok (some p) s') {i : Nat} (hi : i < size) :
    s'.memory.read (p + i) = 0 := by
  cases hrun : globalAlloc size align s with
  | error reason s₁ =>
      rw [globalAllocZeroed_of_halt hrun] at hok
      cases hok
  | ok answer s₁ =>
      cases answer with
      | none =>
          rw [globalAllocZeroed_of_none hrun] at hok
          cases hok
      | some q =>
          rw [globalAllocZeroed_of_some hrun] at hok
          cases hok
          rw [Memory.read_fill, if_pos (by omega)]

/-! ## Releasing -/

theorem globalDealloc_settles {address : Nat} (hs : s.heap.Situated) (haddress : address ≠ 0) :
    ((∃ s', globalDealloc address s = .ok () s') ∨
        ∃ error s', globalDealloc address s = .error (.fatal error) s') ∧
      ∀ error, (∃ s', globalDealloc address s = .error (.fatal error) s') ↔
        ∃ m', s.heap.release address s.memory = .error (.report error) m' := by
  unfold globalDealloc free tryFree
  rw [if_neg haddress]
  cases hrun : s.heap.release address s.memory with
  | ok _ m' =>
      rw [bind_of_answer (onHeap_of_ok _ hrun)]
      exact ⟨.inl ⟨_, rfl⟩, fun error => iff_of_false (by rintro ⟨_, ⟨⟩⟩) (by rintro ⟨_, ⟨⟩⟩)⟩
  | error stop m' =>
      cases stop with
      | overflow => exact absurd hrun (BlockHeap.release_contained hs.arena_lt address).not_overflow
      | report error =>
          rw [bind_of_answer (onHeap_of_report _ hrun)]
          refine ⟨.inr ⟨error, _, rfl⟩, fun error' => ⟨?_, ?_⟩⟩
          · rintro ⟨_, ⟨⟩⟩
            exact ⟨m', rfl⟩
          · rintro ⟨_, ⟨⟩⟩
            exact ⟨_, rfl⟩

end Heap

end EarlyBoot
