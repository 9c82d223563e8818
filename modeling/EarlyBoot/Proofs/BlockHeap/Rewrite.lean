import EarlyBoot.Proofs.BlockHeap.Queries
import EarlyBoot.Proofs.BlockHeap.Rearrange

/-!
# Rewriting the headers of an arena

`Rewrites` says how an edit turns the headers of one list of blocks into those
of another: the new list is linked, no byte outside the headers of the two lists
has changed, and every header that has disappeared is erased.  Each edit of the
block list is shown to succeed on a linked arena and to rewrite it as the
matching operation on lists says.
-/

namespace EarlyBoot.BlockHeap

open MemoryM (bind_of_ok inspect_of_ok lift_of_ok)

variable {h : BlockHeap} {m m₁ m₂ m₃ : Memory}

def Erased (h : BlockHeap) (m : Memory) (offset : Nat) : Prop :=
  ∀ a, h.base + offset ≤ a → a < h.base + offset + headerSize → m.read a = 0

theorem Erased.headerAt {offset : Nat} (he : h.Erased m offset) : h.headerAt m offset = none := by
  have hword : m.readWord (h.base + offset) = 0 := by
    apply Memory.readWord_of_zeros
    intro a hlow hhigh
    apply he a hlow
    simp only [headerSize]
    omega
  simp [headerAt_eq_none, hword, freeTag, usedTag]

theorem erased_erase (m : Memory) (offset : Nat) :
    h.Erased (Header.erase m (h.base + offset)) offset :=
  fun _ hlow hhigh => Header.read_erase hlow hhigh

theorem SameOutside.erased {places : List Nat} (hs : h.SameOutside places m₁ m₂)
    (hplaces : ∀ o ∈ places, o % headerSize = 0) {offset : Nat}
    (haligned : offset % headerSize = 0) (hnew : offset ∉ places) (he : h.Erased m₁ offset) :
    h.Erased m₂ offset := by
  intro a hlow hhigh
  rw [hs.read_header hplaces haligned hnew hlow hhigh]
  exact he a hlow hhigh

structure Rewrites (h : BlockHeap) (previous : Option Nat) (m : Memory) (blocks : List BlockInfo)
    (m' : Memory) (blocks' : List BlockInfo) : Prop where
  linked : h.Linked m' previous blocks'
  same : h.SameOutside (offsets blocks ++ offsets blocks') m m'
  erased : ∀ o ∈ offsets blocks, o ∉ offsets blocks' → h.Erased m' o

theorem Rewrites.refl {previous : Option Nat} {blocks : List BlockInfo}
    (hl : h.Linked m previous blocks) : h.Rewrites previous m blocks m blocks :=
  ⟨hl, SameOutside.refl _, fun _ ho hgone => absurd ho hgone⟩

/-- An edit of `blocks₂` rewrites `blocks₁` if the headers missing there were erased before. -/
theorem Rewrites.after_erasing {previous : Option Nat} {blocks₁ blocks₂ blocks₃ : List BlockInfo}
    (hr : h.Rewrites previous m₂ blocks₂ m₃ blocks₃)
    (hs : h.SameOutside (offsets blocks₁ ++ offsets blocks₂) m₁ m₂)
    (herased : ∀ o ∈ offsets blocks₁, o ∉ offsets blocks₂ → h.Erased m₂ o)
    (hsub : offsets blocks₂ ⊆ offsets blocks₁)
    (haligned : ∀ o ∈ offsets blocks₁ ++ offsets blocks₃, o % headerSize = 0) :
    h.Rewrites previous m₁ blocks₁ m₃ blocks₃ := by
  have hfirst : offsets blocks₁ ++ offsets blocks₂ ⊆ offsets blocks₁ ++ offsets blocks₃ := by
    intro o ho
    rcases List.mem_append.1 ho with ho | ho
    · exact List.mem_append_left _ ho
    · exact List.mem_append_left _ (hsub ho)
  have hsecond : offsets blocks₂ ++ offsets blocks₃ ⊆ offsets blocks₁ ++ offsets blocks₃ := by
    intro o ho
    rcases List.mem_append.1 ho with ho | ho
    · exact List.mem_append_left _ (hsub ho)
    · exact List.mem_append_right _ ho
  refine ⟨hr.linked, (hs.mono hfirst).trans (hr.same.mono hsecond), ?_⟩
  intro o ho hgone
  by_cases hmid : o ∈ offsets blocks₂
  · exact hr.erased o hmid hgone
  · apply hr.same.erased (fun p hp => haligned p (hsecond hp))
      (haligned o (List.mem_append_left _ ho))
    · simp [hmid, hgone]
    · exact herased o ho hmid

theorem Rewrites.trans {previous : Option Nat} {blocks₁ blocks₂ blocks₃ : List BlockInfo}
    (h₁ : h.Rewrites previous m₁ blocks₁ m₂ blocks₂)
    (h₂ : h.Rewrites previous m₂ blocks₂ m₃ blocks₃)
    (hsub : offsets blocks₂ ⊆ offsets blocks₁)
    (haligned : ∀ o ∈ offsets blocks₁ ++ offsets blocks₃, o % headerSize = 0) :
    h.Rewrites previous m₁ blocks₁ m₃ blocks₃ :=
  h₂.after_erasing h₁.same h₁.erased hsub haligned

theorem Rewrites.prepend {previous : Option Nat} {start middle stop : Nat}
    {before blocks blocks' : List BlockInfo} (haligned : start % headerSize = 0)
    (htbefore : Tiles start middle before) (ht : Tiles middle stop blocks)
    (ht' : Tiles middle stop blocks') (hl : h.Linked m₁ previous before)
    (hr : h.Rewrites (lastLink previous before) m₁ blocks m₂ blocks') :
    h.Rewrites previous m₁ (before ++ blocks) m₂ (before ++ blocks') := by
  have hmiddle := htbefore.aligned haligned
  have hplaces : ∀ o ∈ offsets blocks ++ offsets blocks',
      o % headerSize = 0 ∧ middle ≤ o := by
    intro o ho
    rcases List.mem_append.1 ho with ho | ho
    · exact ⟨ht.offset_aligned hmiddle ho, (ht.offset_lt ho).1⟩
    · exact ⟨ht'.offset_aligned hmiddle ho, (ht'.offset_lt ho).1⟩
  refine ⟨linked_append.2 ⟨?_, hr.linked⟩, ?_, ?_⟩
  · apply hl.congr
    intro o ho
    apply hr.same.headerAt_eq (fun p hp => (hplaces p hp).1) (htbefore.offset_aligned haligned ho)
    intro hmem
    have hlow := (hplaces o hmem).2
    have hhigh := (htbefore.offset_lt ho).2
    simp only [headerSize] at hhigh
    omega
  · apply hr.same.mono
    intro o ho
    simp only [offsets_append, List.mem_append] at ho ⊢
    tauto
  · intro o ho hgone
    simp only [offsets_append, List.mem_append, not_or] at ho hgone
    exact hr.erased o (ho.resolve_left hgone.1) hgone.2

theorem store_of_inBounds {offset : Nat} (hb : h.InBounds offset) (header : Header) (m : Memory) :
    h.store offset header m = .ok () (header.write m (h.base + offset)) :=
  store_eq_ok.2 ⟨hb, rfl⟩

theorem erase_of_inBounds {offset : Nat} (hb : h.InBounds offset) (m : Memory) :
    h.erase offset m = .ok () (Header.erase m (h.base + offset)) :=
  erase_eq_ok.2 ⟨hb, rfl⟩

theorem Linked.of_front {x : Option Nat} {start stop : Nat} {b : BlockInfo}
    {rest : List BlockInfo} (ht : Tiles start stop (b :: rest))
    (haligned : start % headerSize = 0) (hs : h.SameOutside [b.offset] m₁ m₂)
    (hl : h.Linked m₁ x rest) : h.Linked m₂ x rest := by
  apply hl.congr
  intro o ho
  apply hs.headerAt_eq
  · intro p hp
    exact ht.offset_aligned haligned (by simpa using Or.inl (List.mem_singleton.1 hp))
  · exact ht.offset_aligned haligned (by simp [ho])
  · intro hmem
    exact ht.offset_not_mem (List.mem_singleton.1 hmem ▸ ho)

theorem linked_write_cons (hp : h.Placed) {previous : Option Nat} {start : Nat} {b : BlockInfo}
    {rest : List BlockInfo} (ht : Tiles start h.arenaSize (b :: rest))
    (haligned : start % headerSize = 0) (hprevious : ∀ o ∈ previous, o < h.arenaSize)
    (hl : h.Linked m (some b.offset) rest) :
    h.Linked ((h.headerOf previous b).write m (h.base + b.offset)) previous (b :: rest) :=
  ⟨headerAt_write _ _ (headerOf_storable hp ht.2.2.le hprevious),
    Linked.of_front ht haligned (sameOutside_write _ _ _) hl⟩

theorem Rewrites.store_front (hp : h.Placed) {previous : Option Nat} {start : Nat}
    {b : BlockInfo} {rest blocks : List BlockInfo} (ht : Tiles start h.arenaSize (b :: rest))
    (haligned : start % headerSize = 0) (hprevious : ∀ o ∈ previous, o < h.arenaSize)
    (hplaces : ∀ o ∈ offsets blocks, o % headerSize = 0)
    (hl : h.Linked m₂ (some b.offset) rest)
    (hs : h.SameOutside (offsets blocks ++ offsets rest) m₁ m₂)
    (herased : ∀ o ∈ offsets blocks, o ≠ b.offset → o ∉ offsets rest → h.Erased m₂ o) :
    h.Rewrites previous m₁ blocks ((h.headerOf previous b).write m₂ (h.base + b.offset))
      (b :: rest) := by
  have hwrite := sameOutside_write (h := h) m₂ b.offset (h.headerOf previous b)
  refine ⟨linked_write_cons hp ht haligned hprevious hl, ?_, ?_⟩
  · apply SameOutside.trans (hs.mono _) (hwrite.mono (by simp))
    intro o ho
    simp only [offsets_cons, List.mem_append, List.mem_cons] at ho ⊢
    tauto
  · intro o ho hgone
    simp only [offsets_cons, List.mem_cons, not_or] at hgone
    apply hwrite.erased _ (hplaces o ho)
    · simpa using hgone.1
    · exact herased o ho hgone.1 hgone.2
    · intro p hp
      exact ht.offset_aligned haligned (by simpa using Or.inl (List.mem_singleton.1 hp))

theorem Tiles.inBounds {start : Nat} {blocks : List BlockInfo}
    (ht : Tiles start h.arenaSize blocks) (haligned : start % headerSize = 0) {o : Nat}
    (ho : o ∈ offsets blocks) : h.InBounds o :=
  ⟨(ht.offset_lt ho).2, ht.offset_aligned haligned ho⟩

theorem relinkPrevious_spec (hp : h.Placed) {x : Option Nat} {y stop : Nat}
    {blocks : List BlockInfo} (ht : Tiles stop h.arenaSize blocks)
    (haligned : stop % headerSize = 0) (hl : h.Linked m x blocks) (hy : y < h.arenaSize) :
    ∃ m', h.relinkPrevious (h.onward stop) (some y) m = .ok () m' ∧
      h.Linked m' (some y) blocks ∧ h.SameOutside (offsets blocks) m m' := by
  rw [onward_eq_head ht]
  cases blocks with
  | nil => exact ⟨m, rfl, trivial, SameOutside.refl _⟩
  | cons b rest =>
      refine ⟨(h.headerOf (some y) b).write m (h.base + b.offset), ?_, ?_, ?_⟩
      · simp only [List.head?_cons, Option.map_some, relinkPrevious]
        rw [bind_of_ok (inspect_of_ok (load_of_linked ht haligned hl))]
        exact store_of_inBounds (ht.inBounds haligned (by simp)) _ m
      · exact linked_write_cons hp ht haligned (by simpa using hy) hl.2
      · exact (sameOutside_write m b.offset _).mono (by simp)

end EarlyBoot.BlockHeap
