import EarlyBoot.Proofs.BlockHeap.Session

/-!
# Pointers that are not live

A pointer handed to `usableSize`, `resize` or `release` is accepted exactly if
it is live.  The tag in front of any other pointer cannot be that of a block in
use, because headers stand only where blocks start; whether the pointer is then
taken for one that has been released before depends on the free blocks alone.

The client of this module may pass any pointer.  It is guarded in its writes
only: it stays within the allocations it holds and never forges a tag.
-/

namespace EarlyBoot.BlockHeap

open MemoryM (bind_of_ok bind_of_error inspect_of_error)

variable {h : BlockHeap} {m : Memory} {blocks : List BlockInfo} {p : Nat}

/-- A block whose payload starts at `p` would have its header on or in a free block. -/
def Freed (h : BlockHeap) (m : Memory) (p : Nat) : Prop :=
  h.base + headerSize ≤ p ∧ h.InBounds (p - (h.base + headerSize)) ∧
    ∃ b ∈ h.blocks m, b.free = true ∧ b.offset ≤ p - (h.base + headerSize) ∧
      p - (h.base + headerSize) < b.stop

instance (h : BlockHeap) (m : Memory) (p : Nat) : Decidable (h.Freed m p) :=
  inferInstanceAs (Decidable (_ ∧ _ ∧ _))

structure Accepts (h : BlockHeap) (m : Memory) (p : Nat) : Prop where
  usableSize : ∃ n, h.usableSize m p = .ok n
  release : ∃ m', h.release p m = .ok () m'
  resize : ∀ newSize, (∃ q m', h.resize p newSize m = .ok q m') ∨
    ∃ error : HeapError, error.isFatal = false ∧
      h.resize p newSize m = .error (.report error) m

structure Rejects (h : BlockHeap) (m : Memory) (p : Nat) (error : HeapError) : Prop where
  usableSize : h.usableSize m p = .error (.report error)
  release : h.release p m = .error (.report error) m
  resize : ∀ newSize, h.resize p newSize m = .error (.report error) m

/-! ## Resolving a pointer -/

theorem Clean.free_of_header (hclean : h.Clean m blocks) {o : Nat}
    (hbounds : h.InBounds o) (hunused : ∀ b ∈ inUse blocks, b.offset ≠ o)
    (hheader : h.headerAt m o ≠ none) : ∃ b ∈ blocks, b.free = true ∧ b.offset = o := by
  have ho : o ∈ offsets blocks := by
    by_contra hnot
    exact hheader (hclean o hbounds hnot)
  obtain ⟨b, hb, hoffset⟩ := mem_offsets.1 ho
  refine ⟨b, hb, ?_, hoffset⟩
  by_contra hfree
  exact hunused b (mem_inUse.2 ⟨hb, by simpa using hfree⟩) hoffset

theorem Clean.not_usedTag (hclean : h.Clean m blocks) (hw : h.WellFormed m blocks) {o : Nat}
    (hbounds : h.InBounds o) (hunused : ∀ b ∈ inUse blocks, b.offset ≠ o) :
    m.readWord (h.base + o) ≠ usedTag := by
  intro htag
  have hheader : h.headerAt m o ≠ none := by
    rw [ne_eq, headerAt_eq_none]
    exact fun hnone => hnone.2 htag
  obtain ⟨b, hb, hfree, rfl⟩ := hclean.free_of_header hbounds hunused hheader
  obtain ⟨link, hlink⟩ := hw.linked.headerAt hb
  rw [readWord_of_free hlink hfree] at htag
  exact absurd htag (by decide)

theorem absorbed_iff {o : Nat} :
    ((h.blocks m).any fun block => block.free && decide (block.offset < o) &&
      decide (o < block.stop)) = true ↔
    ∃ b ∈ h.blocks m, b.free = true ∧ b.offset < o ∧ o < b.stop := by
  simp only [List.any_eq_true, Bool.and_eq_true, decide_eq_true_eq, and_assoc]

theorem usedBlock_of_freed (hp : h.Placed) (hw : h.WellFormed m blocks)
    (hclean : h.Clean m blocks)
    (hunused : ∀ b ∈ inUse blocks, b.offset ≠ p - (h.base + headerSize))
    (hfreed : h.Freed m p) :
    h.usedBlock m p = .error (.report (.doubleFree (p - (h.base + headerSize)))) := by
  obtain ⟨hlow, hbounds, b, hb, hfree, hfirst, hlast⟩ := hfreed
  unfold usedBlock
  dsimp only
  rw [if_pos ⟨hlow, hbounds⟩, if_neg (hclean.not_usedTag hw hbounds hunused)]
  have hclass : h.classifyUnused m p (p - (h.base + headerSize)) =
      .doubleFree (p - (h.base + headerSize)) := by
    unfold classifyUnused
    split
    · rfl
    · rename_i htag
      have hne : b.offset ≠ p - (h.base + headerSize) := by
        intro heq
        rw [hw.blocks_eq hp] at hb
        obtain ⟨link, hlink⟩ := hw.linked.headerAt hb
        apply htag
        rw [← heq]
        exact readWord_of_free hlink hfree
      exact if_pos (absorbed_iff.2 ⟨b, hb, hfree, by omega, hlast⟩)
  rw [hclass]
  rfl

theorem usedBlock_of_foreign (hp : h.Placed) (hw : h.WellFormed m blocks)
    (hclean : h.Clean m blocks)
    (hunused : ∀ b ∈ inUse blocks, b.offset ≠ p - (h.base + headerSize))
    (hforeign : ¬ h.Freed m p) :
    h.usedBlock m p = .error (.report (.foreignPointer p)) := by
  unfold usedBlock
  dsimp only
  split
  · rename_i hplace
    obtain ⟨hlow, hbounds⟩ := hplace
    rw [if_neg (hclean.not_usedTag hw hbounds hunused)]
    have hclass : h.classifyUnused m p (p - (h.base + headerSize)) = .foreignPointer p := by
      unfold classifyUnused
      split
      · rename_i htag
        have hheader : h.headerAt m (p - (h.base + headerSize)) ≠ none := by
          rw [ne_eq, headerAt_eq_none]
          exact fun hnone => hnone.1 htag
        obtain ⟨b, hb, hfree, hoffset⟩ := hclean.free_of_header hbounds hunused hheader
        refine absurd ⟨hlow, hbounds, b, ?_, hfree, by omega, ?_⟩ hforeign
        · rw [hw.blocks_eq hp]
          exact hb
        · rw [← hoffset]
          simp only [BlockInfo.stop, headerSize]
          omega
      · refine if_neg ?_
        rw [absorbed_iff]
        rintro ⟨b, hb, hfree, hfirst, hlast⟩
        exact hforeign ⟨hlow, hbounds, b, hb, hfree, by omega, hlast⟩
    rw [hclass]
    rfl
  · rfl

theorem rejects_of_usedBlock (hp : h.Placed) {error : HeapError}
    (hfail : h.usedBlock m p = .error (.report error)) : h.Rejects m p error := by
  constructor
  · unfold usableSize
    simp only [hp.isInitialized, hfail]
    rfl
  · unfold release
    rw [bind_of_ok (requireInitialized_of_placed hp m), bind_of_error (inspect_of_error hfail)]
  · intro newSize
    unfold resize
    rw [bind_of_ok (requireInitialized_of_placed hp m), bind_of_error (inspect_of_error hfail)]

theorem Accepts.not_rejects {error : HeapError} (ha : h.Accepts m p) : ¬ h.Rejects m p error := by
  intro hr
  obtain ⟨n, hn⟩ := ha.usableSize
  rw [hr.usableSize] at hn
  cases hn

theorem accepts_of_used (hp : h.Placed) (hw : h.WellFormed m blocks) {b : BlockInfo}
    (hb : b ∈ inUse blocks) : h.Accepts m (h.payloadAddress b.offset) := by
  refine ⟨⟨b.size, usableSize_ok hp hw (mem_inUse.1 hb).1 (mem_inUse.1 hb).2⟩, ?_, ?_⟩
  · obtain ⟨blocks', m', hok, -⟩ := release_effect hp hw hb
    exact ⟨m', hok⟩
  · intro newSize
    rcases resize_effect hp hw hb newSize with hfail | ⟨d, blocks', m', hok, -⟩
    · exact .inr hfail
    · exact .inl ⟨_, m', hok⟩

namespace Session

variable {s s' : Session}

/-- Any call is allowed, and any write inside a live allocation that forges no tag. -/
def Guarded (s : Session) : Action → Prop
  | .write address bytes => (∃ q, s.Owns q address bytes.length) ∧
      ∀ o, s.heap.InBounds o → s.heap.tagged (s.memory.writeBytes address bytes) o = true →
        s.heap.tagged s.memory o = true
  | _ => True

theorem Sound.accepts (hs : s.Sound blocks) (hp : p ∈ s.live) : s.heap.Accepts s.memory p := by
  obtain ⟨b, hb, rfl⟩ := (hs.mem_live p).1 hp
  exact accepts_of_used hs.placed hs.wellFormed hb

theorem Sound.offset_ne (hs : s.Sound blocks) (hp : p ∉ s.live)
    (hlow : s.heap.base + headerSize ≤ p) :
    ∀ b ∈ inUse blocks, b.offset ≠ p - (s.heap.base + headerSize) := by
  intro b hb heq
  apply hp
  refine (hs.mem_live p).2 ⟨b, hb, ?_⟩
  simp only [payloadAddress]
  omega

theorem Sound.rejects (hs : s.Sound blocks) (hclean : s.heap.Clean s.memory blocks)
    (hp : p ∉ s.live) :
    (s.heap.Freed s.memory p →
      s.heap.Rejects s.memory p (.doubleFree (p - (s.heap.base + headerSize)))) ∧
    (¬ s.heap.Freed s.memory p → s.heap.Rejects s.memory p (.foreignPointer p)) := by
  constructor
  · intro hfreed
    apply rejects_of_usedBlock hs.placed
    exact usedBlock_of_freed hs.placed hs.wellFormed hclean (hs.offset_ne hp hfreed.1) hfreed
  · intro hforeign
    apply rejects_of_usedBlock hs.placed
    by_cases hlow : s.heap.base + headerSize ≤ p
    · exact usedBlock_of_foreign hs.placed hs.wellFormed hclean (hs.offset_ne hp hlow) hforeign
    · unfold usedBlock
      dsimp only
      rw [if_neg fun hplace => hlow hplace.1]
      rfl

theorem Sound.rejects_fatally (hs : s.Sound blocks) (hclean : s.heap.Clean s.memory blocks)
    (hp : p ∉ s.live) :
    ∃ error : HeapError, error.isFatal = true ∧ s.heap.Rejects s.memory p error := by
  obtain ⟨hdouble, hforeign⟩ := hs.rejects hclean hp
  by_cases hfreed : s.heap.Freed s.memory p
  · exact ⟨_, rfl, hdouble hfreed⟩
  · exact ⟨_, rfl, hforeign hfreed⟩

/-! ## Guarded runs -/

/-- The pointers held are the blocks in use, and headers stand only where blocks start. -/
def Tidy (s : Session) : Prop := ∃ blocks, s.Sound blocks ∧ s.heap.Clean s.memory blocks

theorem tidy_of_init {h₀ : BlockHeap} {start size : Nat} {m₀ : Memory}
    (hregion : start + size ≤ Word.limit) (hinit : h₀.init start size m₀ = .ok h m)
    (hblank : ∀ o, h.InBounds o → h.tagged m₀ o = false) : (⟨h, m, []⟩ : Session).Tidy := by
  refine ⟨_, sound_of_init hregion hinit, ?_⟩
  obtain ⟨-, -, hsame⟩ := init_spec hregion hinit
  intro o hbounds ho
  have hblank' : h.headerAt m₀ o = none := by
    by_contra hheader
    have htagged := tagged_iff_headerAt.2 hheader
    rw [hblank o hbounds] at htagged
    cases htagged
  rw [← hblank']
  exact hsame.headerAt_eq (by simp [Nat.zero_mod]) hbounds.2 ho

theorem perform_of_rejects {error : HeapError} {call : Call} (hback : call.givenBack = some p)
    (hr : h.Rejects m p error) : call.perform h m = .error (.report error) m := by
  cases call with
  | allocate size => cases hback
  | allocateAligned size align => cases hback
  | allocateZeroed count size => cases hback
  | resize address newSize =>
      cases hback
      exact bind_of_error (hr.resize newSize)
  | release address =>
      cases hback
      exact bind_of_error hr.release

theorem Tidy.after_call (ht : s.Tidy) (call : Call) : (s.after (.call call)).Tidy := by
  obtain ⟨blocks, hs, hclean⟩ := ht
  by_cases hhonest : s.Honest (.call call)
  · rcases hs.call hhonest with ⟨error, -, hfail⟩ | ⟨m', blocks', gone, new, hc⟩
    · rw [(after_of_error hfail).2]
      exact ⟨blocks, hs, hclean⟩
    · refine ⟨blocks', hs.after_call hc, ?_⟩
      rw [(after_of_ok hc.performed).2]
      exact hc.effect.clean hclean
  · obtain ⟨p, hback, hp⟩ : ∃ p, call.givenBack = some p ∧ p ∉ s.live := by
      by_contra hnone
      apply hhonest
      intro p hback
      by_contra hp
      exact hnone ⟨p, hback, hp⟩
    obtain ⟨error, -, hrejects⟩ := hs.rejects_fatally hclean hp
    rw [(after_of_error (perform_of_rejects hback hrejects)).2]
    exact ⟨blocks, hs, hclean⟩

theorem Tidy.after_write (ht : s.Tidy) {address : Nat} {bytes : List UInt8}
    (hguarded : s.Guarded (.write address bytes)) : (s.after (.write address bytes)).Tidy := by
  obtain ⟨blocks, hs, hclean⟩ := ht
  obtain ⟨hhonest, hforge⟩ := hguarded
  refine ⟨blocks, hs.after_write hhonest, ?_⟩
  obtain ⟨q, ho⟩ := hhonest
  obtain ⟨b, hb, rfl, hlow, hhigh⟩ := hs.owned_block ho
  have hmem := (mem_inUse.1 hb).1
  have ht := hs.wellFormed.tiles
  apply (sameOutsidePayload_writeBytes hlow hhigh s.memory).clean _ hclean hmem ht
  intro o hbounds hin
  by_contra hheader
  have htagged := hforge o hbounds (tagged_iff_headerAt.2 hheader)
  exact tagged_iff_headerAt.1 htagged (hclean o hbounds (ht.not_offset_of_payload hmem hin))

theorem Tidy.after (ht : s.Tidy) {action : Action} (hguarded : s.Guarded action) :
    (s.after action).Tidy := by
  cases action with
  | call call => exact ht.after_call call
  | setSplitFactor splitFactor =>
      obtain ⟨blocks, hs, hclean⟩ := ht
      exact ⟨blocks, hs.after_setSplitFactor splitFactor, hclean⟩
  | write address bytes => exact ht.after_write hguarded

theorem not_live_after {action : Action} (hp : p ∉ s.live)
    (hreply : s.reply action ≠ .ok (some p)) : p ∉ (s.after action).live := by
  cases action with
  | call call =>
      cases hperform : call.perform s.heap s.memory with
      | ok given m' =>
          rw [(after_of_ok hperform).1] at hreply
          rw [(after_of_ok hperform).2]
          intro hlive
          rcases List.mem_append.1 hlive with hgiven | hkept
          · rw [Option.mem_toList] at hgiven
            exact hreply (congrArg Except.ok hgiven)
          · exact hp (List.mem_filter.1 hkept).1
      | error stop m' =>
          simp only [after, hperform]
          exact hp
  | setSplitFactor splitFactor => exact hp
  | write address bytes => exact hp

theorem not_live_after_release {m' : Memory} (hok : s.heap.release p s.memory = .ok () m') :
    p ∉ (s.after (.call (.release p))).live := by
  have hperform : (Call.release p).perform s.heap s.memory = .ok none m' := bind_of_ok hok
  rw [(after_of_ok hperform).2]
  simp [Call.givenBack]

/--
Along every guarded run a pointer is accepted exactly if it is live.  Any other
pointer is reported as released before if it points behind a header place on or
in a free block, and as foreign if not.  A pointer that has been released stays
rejected until an allocation answers it again.
-/
theorem guarded_run_detects_misuse {h₀ : BlockHeap} {start size : Nat} {m₀ : Memory}
    (hregion : start + size ≤ Word.limit) (hinit : h₀.init start size m₀ = .ok h m)
    (hblank : ∀ o, h.InBounds o → h.tagged m₀ o = false)
    (hrun : Reaches Guarded ⟨h, m, []⟩ s) (p : Nat) :
    (s.heap.Accepts s.memory p ↔ p ∈ s.live) ∧
      (p ∉ s.live →
        (s.heap.Freed s.memory p →
          s.heap.Rejects s.memory p (.doubleFree (p - (s.heap.base + headerSize)))) ∧
        (¬ s.heap.Freed s.memory p → s.heap.Rejects s.memory p (.foreignPointer p))) ∧
      ∀ m' s', s.heap.release p s.memory = .ok () m' →
        Reaches (fun t action => t.Guarded action ∧ t.reply action ≠ .ok (some p))
          (s.after (.call (.release p))) s' →
        ∃ error, error.isFatal = true ∧ s'.heap.Rejects s'.memory p error := by
  have htidy : s.Tidy := by
    apply hrun.invariant (P := Tidy)
    · exact tidy_of_init hregion hinit hblank
    · intro t action ht hguarded
      exact ht.after hguarded
  obtain ⟨blocks, hs, hclean⟩ := htidy
  refine ⟨⟨?_, hs.accepts⟩, hs.rejects hclean, ?_⟩
  · intro haccepts
    by_contra hp
    obtain ⟨error, -, hrejects⟩ := hs.rejects_fatally hclean hp
    exact haccepts.not_rejects hrejects
  · intro m' s' hok hrun'
    obtain ⟨⟨blocks', hs', hclean'⟩, hp⟩ : s'.Tidy ∧ p ∉ s'.live := by
      apply hrun'.invariant (P := fun t => t.Tidy ∧ p ∉ t.live)
      · exact ⟨Tidy.after_call ⟨blocks, hs, hclean⟩ _, not_live_after_release hok⟩
      · rintro t action ⟨ht, hp⟩ ⟨hguarded, hreply⟩
        exact ⟨ht.after hguarded, not_live_after hp hreply⟩
    exact hs'.rejects_fatally hclean' hp

theorem detects_misuse_after_allocation :
    let s := smallSession.after (.call (.allocate 40))
    let s' := s.after (.call (.release 96))
    Reaches Guarded smallSession s ∧ s.heap.Accepts s.memory 96 ∧
      s.heap.Rejects s.memory 128 (.foreignPointer 128) ∧
      s.heap.Rejects s.memory 192 (.doubleFree 96) ∧
      ∃ error, error.isFatal = true ∧ s'.heap.Rejects s'.memory 96 error := by
  intro s s'
  have hblank : ∀ o, smallSession.heap.InBounds o →
      smallSession.heap.tagged (Memory.ofBytes 0 ByteArray.empty) o = false := by
    have hall : ∀ o < 256,
        smallSession.heap.tagged (Memory.ofBytes 0 ByteArray.empty) o = false := by
      decide +kernel
    rintro o ⟨hlt, -⟩
    have harena : smallSession.heap.arenaSize = 256 := rfl
    exact hall o (by simp only [headerSize] at hlt; omega)
  have hrun : Reaches Guarded smallSession s := Reaches.refl.step trivial
  have hdetects := guarded_run_detects_misuse (by decide) init_smallSession hblank hrun
  have haccepts : s.heap.Accepts s.memory 96 := (hdetects 96).1.2 (by decide +kernel)
  obtain ⟨m', hrelease⟩ := haccepts.release
  refine ⟨hrun, haccepts, ?_, ?_, (hdetects 96).2.2 m' s' hrelease .refl⟩
  · exact ((hdetects 128).2.1 (by decide +kernel)).2 (by decide +kernel)
  · have hbase : s.heap.base = 64 := by decide +kernel
    have hdouble := ((hdetects 192).2.1 (by decide +kernel)).1 (by decide +kernel)
    rw [hbase] at hdouble
    exact hdouble

end Session

end EarlyBoot.BlockHeap
