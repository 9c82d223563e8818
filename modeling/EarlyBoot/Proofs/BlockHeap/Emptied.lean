import EarlyBoot.Proofs.BlockHeap.Contents

/-!
# An emptied heap is one block

Whatever has happened before, releasing all live pointers in any order leaves
the arena as `init` left it: one free block, which can be handed out as a whole.
The invariant does the work.  Without a block in use every two neighbours would
be free, and a coalesced layout has no such neighbours.
-/

namespace EarlyBoot.BlockHeap

open MemoryM (bind_of_ok)

theorem eq_singleton_of_unused {stop : Nat} {blocks : List BlockInfo} (ht : Tiles 0 stop blocks)
    (hpos : 0 < stop) (hc : Coalesced blocks) (hunused : inUse blocks = []) :
    blocks = [⟨0, stop - headerSize, true⟩] := by
  have hfree : ∀ b ∈ blocks, b.free = true := by
    intro b hb
    by_contra hused
    have hmem : b ∈ inUse blocks := mem_inUse.2 ⟨hb, by simpa using hused⟩
    simp [hunused] at hmem
  match blocks with
  | [] => exact absurd ht (Nat.ne_of_lt hpos)
  | [b] =>
      obtain ⟨offset, size, free⟩ := b
      obtain ⟨hoffset, -, hstop⟩ := ht
      have hb : free = true := hfree ⟨offset, size, free⟩ (by simp)
      simp only [Tiles, BlockInfo.stop] at hoffset hstop
      simp only [hoffset, hb, List.cons.injEq, BlockInfo.mk.injEq, true_and, and_true]
      omega
  | b :: c :: rest =>
      exact absurd ⟨hfree b (by simp), hfree c (by simp)⟩ (List.isChain_cons_cons.1 hc).1

theorem payloadSize?_of_aligned {size : Nat} (haligned : size % headerSize = 0)
    (hpos : 0 < size) (hlt : size < Word.limit) : payloadSize? size = some size := by
  have hround : Word.roundUp (max size 1) headerSize = size := by
    unfold Word.roundUp
    simp only [headerSize] at *
    omega
  unfold payloadSize? Word.roundUp?
  rw [hround, if_pos hlt]

theorem allocate_whole {h : BlockHeap} {m : Memory} (hp : h.Placed)
    (hw : h.WellFormed m [⟨0, h.arenaSize - headerSize, true⟩])
    (hroom : 2 * headerSize ≤ h.arenaSize) :
    ∃ m', h.allocate (h.arenaSize - headerSize) m = .ok (h.payloadAddress 0) m' := by
  have hlt := hp.arena_lt
  have haligned : (h.arenaSize - headerSize) % headerSize = 0 := hw.tiles.2.1
  have hsize : payloadSize? (h.arenaSize - headerSize) = some (h.arenaSize - headerSize) := by
    apply payloadSize?_of_aligned haligned
    · simp only [headerSize] at *
      omega
    · omega
  rw [← List.nil_append [_]] at hw
  obtain ⟨m', hok, -⟩ := allocate_fit hp hw hsize (by simp) rfl (Nat.le_refl _)
  exact ⟨m', hok⟩

namespace Session

variable {s : Session} {blocks : List BlockInfo}

def releaseAll (s : Session) : List Nat → Except HeapStop Session
  | [] => .ok s
  | p :: rest =>
      match s.reply (.call (.release p)) with
      | .ok _ => (s.after (.call (.release p))).releaseAll rest
      | .error stop => .error stop

theorem Sound.release (hs : s.Sound blocks) {p : Nat} (hp : p ∈ s.live) :
    s.reply (.call (.release p)) = .ok none ∧
      (s.after (.call (.release p))).heap = s.heap ∧
      (∀ q, q ∈ (s.after (.call (.release p))).live ↔ q ∈ s.live ∧ q ≠ p) ∧
      ∃ blocks', (s.after (.call (.release p))).Sound blocks' := by
  have hhonest : s.Honest (.call (.release p)) := by
    intro q hq
    cases hq
    exact hp
  obtain ⟨b, hb, rfl⟩ := (hs.mem_live p).1 hp
  obtain ⟨blocks', m', hok, -⟩ := release_effect hs.placed hs.wellFormed hb
  have hperform : (Call.release (s.heap.payloadAddress b.offset)).perform s.heap s.memory =
      .ok none m' := bind_of_ok hok
  refine ⟨(after_of_ok hperform).1, ?_, ?_, hs.after hhonest⟩
  · rw [(after_of_ok hperform).2]
  · intro q
    rw [(after_of_ok hperform).2]
    simp only [Call.givenBack, Option.toList_none, List.nil_append, List.mem_filter,
      decide_eq_true_eq, ne_eq, Option.some.injEq]
    exact and_congr_right fun _ => ne_comm

theorem Sound.rest_live (hs : s.Sound blocks) {p : Nat} {rest : List Nat}
    (hnodup : (p :: rest).Nodup) (hlive : ∀ q ∈ p :: rest, q ∈ s.live) :
    ∀ q ∈ rest, q ∈ (s.after (.call (.release p))).live := by
  intro q hq
  obtain ⟨-, -, hmem, -⟩ := hs.release (hlive p (by simp))
  refine (hmem q).2 ⟨hlive q (by simp [hq]), ?_⟩
  rintro rfl
  exact (List.nodup_cons.1 hnodup).1 hq

theorem Sound.releaseAll (hs : s.Sound blocks) {order : List Nat} (hnodup : order.Nodup)
    (hlive : ∀ p ∈ order, p ∈ s.live) :
    ∃ s' blocks', s.releaseAll order = .ok s' ∧ s'.Sound blocks' ∧ s'.heap = s.heap ∧
      ∀ q, q ∈ s'.live ↔ q ∈ s.live ∧ q ∉ order := by
  -- each release finds its pointer live and keeps the others so
  induction order generalizing s blocks with
  | nil => exact ⟨s, blocks, rfl, hs, rfl, by simp⟩
  | cons p rest ih =>
      obtain ⟨hreply, hheap, hmem, blocks₁, hs₁⟩ := hs.release (hlive p (by simp))
      obtain ⟨s', blocks', hok, hs', hheap', hmem'⟩ :=
        ih hs₁ hnodup.of_cons (hs.rest_live hnodup hlive)
      refine ⟨s', blocks', ?_, hs', hheap'.trans hheap, ?_⟩
      · rw [Session.releaseAll, hreply]
        exact hok
      · intro q
        rw [hmem' q, hmem q, List.mem_cons]
        tauto

theorem Sound.eq_singleton (hs : s.Sound blocks) (hlive : ∀ p, p ∉ s.live) :
    blocks = [⟨0, s.heap.arenaSize - headerSize, true⟩] := by
  have hw := hs.wellFormed
  refine eq_singleton_of_unused hw.tiles hs.placed.arena_pos hw.coalesced ?_
  apply List.eq_nil_iff_forall_not_mem.2
  intro b hb
  exact hlive _ ((hs.mem_live _).2 ⟨b, hb, rfl⟩)

/--
After any honest run all live pointers can be released, in any order.  Then the
arena is one free block, and a request for all of it is served.
-/
theorem emptied_heap_is_one_block {h₀ h : BlockHeap} {start size : Nat} {m₀ m : Memory}
    {s : Session} (hregion : start + size ≤ Word.limit)
    (hinit : h₀.init start size m₀ = .ok h m) (hrun : Reaches Honest ⟨h, m, []⟩ s)
    {order : List Nat} (hnodup : order.Nodup) (hlive : ∀ p, p ∈ order ↔ p ∈ s.live) :
    ∃ s', s.releaseAll order = .ok s' ∧
      s'.heap.blocks s'.memory = [⟨0, h.arenaSize - headerSize, true⟩] ∧
      s'.reply (.call (.allocate (h.arenaSize - headerSize))) =
        .ok (some (h.payloadAddress 0)) := by
  obtain ⟨-, -, -, -, -, hroom, -⟩ := init_eq_ok hinit
  obtain ⟨⟨blocks, hs⟩, hbase, harena, -⟩ := hrun.confined hregion hinit
  obtain ⟨s', blocks', hok, hs', hheap, hmem⟩ := hs.releaseAll hnodup fun p => (hlive p).1
  have hnone : ∀ p, p ∉ s'.live := by
    intro p hp
    obtain ⟨hp, hgone⟩ := (hmem p).1 hp
    exact hgone ((hlive p).2 hp)
  have hone := hs'.eq_singleton hnone
  rw [← hheap] at hbase harena
  have hw := hone ▸ hs'.wellFormed
  obtain ⟨m', hwhole⟩ := allocate_whole hs'.placed hw (by omega)
  refine ⟨s', hok, ?_, ?_⟩
  · rw [hw.blocks_eq hs'.placed, harena]
  · rw [← harena]
    have hperform : (Call.allocate (s'.heap.arenaSize - headerSize)).perform s'.heap s'.memory =
        .ok (some (s'.heap.payloadAddress 0)) m' := bind_of_ok hwhole
    rw [(after_of_ok hperform).1]
    unfold payloadAddress
    rw [hbase]

theorem emptied_after_two_allocations :
    let s := (smallSession.after (.call (.allocate 40))).after (.call (.allocate 10))
    Reaches Honest smallSession s ∧ s.live = [192, 96] ∧
      ∃ s', s.releaseAll [96, 192] = .ok s' ∧ s'.heap.blocks s'.memory = [⟨0, 224, true⟩] ∧
        s'.reply (.call (.allocate 224)) = .ok (some 96) := by
  intro s
  have hallocate : ∀ (t : Session) (size : Nat), t.Honest (.call (.allocate size)) := by
    intro t size p hp
    cases hp
  have hrun : Reaches Honest smallSession s :=
    (Reaches.refl.step (hallocate _ 40)).step (hallocate _ 10)
  have hlive : s.live = [192, 96] := by decide +kernel
  have horder : ∀ p, p ∈ [96, 192] ↔ p ∈ s.live := by
    intro p
    rw [hlive]
    simp [or_comm]
  exact ⟨hrun, hlive,
    emptied_heap_is_one_block (by decide) init_smallSession hrun (by decide) horder⟩

end Session

end EarlyBoot.BlockHeap
