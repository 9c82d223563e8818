import EarlyBoot.Proofs.BlockHeap.Acceptance
import EarlyBoot.Proofs.BlockHeap.Canonical
import EarlyBoot.Proofs.BlockHeap.FirstFit

/-!
# Release

A release puts one free block in the place of the block given back and its free
neighbours, of which there is at most one on each side.  It is the inverse of
allocation: the blocks in use are those from before, they decide the layout, and
the layout decides the bytes of every header.
-/

namespace EarlyBoot.BlockHeap

open Session (smallSession init_smallSession)

variable {h : BlockHeap} {m m₁ m₂ : Memory} {a b c last : BlockInfo} {p size : Nat}
  {blocks blocks₁ blocks₂ before after rest : List BlockInfo}

def span (first last : BlockInfo) : BlockInfo :=
  ⟨first.offset, last.stop - (first.offset + headerSize), true⟩

/--
In the second list one free block stands for `b` and its free neighbours in the
first.  The blocks next to those are in use, so that no free neighbour is left out.
-/
inductive Melted (b : BlockInfo) : List BlockInfo → List BlockInfo → Prop
  | intro {before after : List BlockInfo} {left right : Option BlockInfo}
      (hleft : ∀ c ∈ left, c.free = true) (hright : ∀ c ∈ right, c.free = true)
      (hbefore : ∀ c ∈ before.getLast?, c.free = false)
      (hafter : ∀ c ∈ after.head?, c.free = false) :
      Melted b (before ++ left.toList ++ b :: (right.toList ++ after))
        (before ++ span (left.getD b) (right.getD b) :: after)

theorem span_self (b : BlockInfo) : span b b = { b with free := true } := by
  simp only [span, BlockInfo.stop, BlockInfo.mk.injEq, true_and, and_true]
  omega

theorem join_eq_span (hfree : a.free = true) (hnext : a.stop = b.offset) :
    { a with size := a.size + headerSize + b.size } = span a b := by
  simp only [span, BlockInfo.stop, BlockInfo.mk.injEq, true_and] at *
  exact ⟨by omega, hfree⟩

theorem span_span (hstop : b.offset + headerSize ≤ last.stop) :
    span a (span b last) = span a last := by
  have hend : (span b last).stop = last.stop := by
    change b.offset + headerSize + (last.stop - (b.offset + headerSize)) = last.stop
    omega
  rw [span, hend]
  rfl

theorem push_eq_span {start stop : Nat} (ht : Tiles start stop (b :: after))
    (hc : Coalesced after) :
    ∃ (right : Option BlockInfo) (rest : List BlockInfo),
      after = right.toList ++ rest ∧ (∀ c ∈ right, c.free = true) ∧
      (∀ c ∈ rest.head?, c.free = false) ∧ b.offset + headerSize ≤ (right.getD b).stop ∧
      push { b with free := true } after = span b (right.getD b) :: rest := by
  by_cases hhead : ∀ c ∈ after.head?, c.free = false
  · refine ⟨none, after, rfl, by simp, hhead, Nat.le_add_right _ _, ?_⟩
    rw [push_of_apart fun c hc hboth => by simp [hhead c hc] at hboth]
    rw [Option.getD_none, span_self]
  · obtain ⟨c, rest, rfl, hfree⟩ : ∃ c rest, after = c :: rest ∧ c.free = true := by
      cases after with
      | nil => simp at hhead
      | cons c rest => exact ⟨c, rest, rfl, by simpa using hhead⟩
    have hnext : ({ b with free := true } : BlockInfo).stop = c.offset := ht.2.2.1.symm
    -- the block behind a free one is in use, so `c` is all there is to melt with
    refine ⟨some c, rest, rfl, by simpa using hfree, ?_, ?_, ?_⟩
    · intro d hd
      have hapart := (List.isChain_cons.1 hc).1 d hd
      simpa [hfree] using hapart
    · simp only [BlockInfo.stop, Option.getD_some] at hnext ⊢
      omega
    · rw [push_of_free rfl hfree, join_eq_span rfl hnext]
      rfl

theorem coalesced_concat (hc : Coalesced before) (hlast : ∀ a ∈ before.getLast?, a.free = false) :
    Coalesced (before ++ [b]) := by
  refine List.isChain_append.2 ⟨hc, List.isChain_singleton b, ?_⟩
  rintro a ha c hcb ⟨hfree, -⟩
  simp [hlast a ha] at hfree

theorem foldr_push_eq_span (rest : List BlockInfo) (ht : Tiles 0 b.offset before)
    (hc : Coalesced before) (hstop : b.offset + headerSize ≤ last.stop) :
    ∃ (left : Option BlockInfo) (front : List BlockInfo),
      before = front ++ left.toList ∧ (∀ c ∈ left, c.free = true) ∧
      (∀ c ∈ front.getLast?, c.free = false) ∧
      before.foldr push (span b last :: rest) = front ++ span (left.getD b) last :: rest := by
  by_cases hlast : ∀ c ∈ before.getLast?, c.free = false
  · refine ⟨none, before, by simp, by simp, hlast, ?_⟩
    exact foldr_push_of_coalesced (coalesced_concat hc hlast)
  · obtain ⟨front, a, rfl, hfree⟩ : ∃ front a, before = front ++ [a] ∧ a.free = true := by
      cases before using List.reverseRecOn with
      | nil => simp at hlast
      | append_singleton front a => exact ⟨front, a, rfl, by simpa using hlast⟩
    obtain ⟨hfront, -, hseam⟩ := List.isChain_append.1 hc
    -- in front of a free block, too, there is one in use
    have hused : ∀ c ∈ front.getLast?, c.free = false := by
      intro c hmem
      simpa [hfree] using hseam c hmem a (by simp)
    obtain ⟨middle, -, hta⟩ := tiles_append.1 ht
    have hnext : a.stop = (span b last).offset := hta.2.2
    refine ⟨some a, front, rfl, by simpa using hfree, hused, ?_⟩
    rw [List.foldr_append, List.foldr_cons, List.foldr_nil, push_of_free hfree rfl,
      join_eq_span hfree hnext, span_span hstop]
    exact foldr_push_of_coalesced (coalesced_concat hfront hused)

theorem WellFormed.melted (hw : h.WellFormed m (before ++ b :: after)) :
    Melted b (before ++ b :: after) (merged (before ++ { b with free := true } :: after)) := by
  have ha := hw.around
  obtain ⟨hcbefore, hcb, -⟩ := List.isChain_append.1 hw.coalesced
  have hcafter := (List.isChain_cons.1 hcb).2
  obtain ⟨right, rest, rfl, hright, hrest, hstop, hpush⟩ := push_eq_span ha.tiles hcafter
  rw [merged_around hcafter, hpush]
  obtain ⟨left, front, rfl, hleft, hfront, hfoldr⟩ :=
    foldr_push_eq_span rest ha.tiles_before hcbefore hstop
  rw [hfoldr]
  exact .intro hleft hright hfront hrest

theorem release_melts (hp : h.Placed) (hw : h.WellFormed m blocks) (hb : b ∈ blocks)
    (hused : b.free = false) :
    ∃ m' blocks', h.release (h.payloadAddress b.offset) m = .ok () m' ∧
      h.WellFormed m' blocks' ∧ Melted b blocks blocks' := by
  obtain ⟨before, after, rfl⟩ := List.append_of_mem hb
  obtain ⟨m', hok, hr⟩ := release_spec hp hw hused
  exact ⟨m', _, hok, hw.released hr, hw.melted⟩

theorem release_restores (hp : h.Placed) (hw : h.WellFormed m blocks)
    (hok : h.allocate size m = .ok p m₁) :
    ∃ m₂, h.release p m₁ = .ok () m₂ ∧ h.WellFormed m₂ blocks := by
  rcases allocate_effect hp hw size with
    ⟨error, -, hfail⟩ | ⟨d, blocks₁, m', hok', -, -, hfresh, he⟩
  · rw [hok] at hfail
    cases hfail
  · rw [hok] at hok'
    cases hok'
    have hd := (he.mem_inUse d).2 (.inl rfl)
    obtain ⟨blocks₂, m₂, hrelease, he₂⟩ := release_effect hp he.wellFormed hd
    refine ⟨m₂, hrelease, ?_⟩
    -- the block taken is the one given back, and it was not in use before
    have hsame : ∀ e, e ∈ inUse blocks ↔ e ∈ inUse blocks₂ := by
      intro e
      rw [he₂.mem_inUse, he.mem_inUse]
      constructor
      · intro hmem
        refine .inr ⟨.inr ⟨hmem, by simp⟩, fun heq => hfresh e hmem ?_⟩
        rw [Option.some.inj heq]
      · rintro (hnone | ⟨hnew | ⟨hmem, -⟩, hne⟩)
        · cases hnone
        · exact absurd hnew hne
        · exact hmem
    rw [hw.layout_unique he₂.wellFormed hsame]
    exact he₂.wellFormed

/--
Releasing what has just been allocated restores the list of blocks, the
statistics and the bytes of every header.  Releasing any block in use puts one
free block in its place and that of its free neighbours, and changes no other.
-/
theorem release_undoes_allocate (hp : h.Placed) (hw : h.WellFormed m blocks) :
    (∀ size p m₁, h.allocate size m = .ok p m₁ →
      ∃ m₂, h.release p m₁ = .ok () m₂ ∧ h.blocks m₂ = h.blocks m ∧ h.stats m₂ = h.stats m ∧
        ∀ b ∈ h.blocks m, ∀ a, h.InHeader b.offset a → m₂.read a = m.read a) ∧
    ∀ b ∈ h.blocks m, b.free = false →
      ∃ m', h.release (h.payloadAddress b.offset) m = .ok () m' ∧
        h.WellFormed m' (h.blocks m') ∧ Melted b (h.blocks m) (h.blocks m') := by
  have hblocks := hw.blocks_eq hp
  rw [hblocks]
  constructor
  · intro size p m₁ hok
    obtain ⟨m₂, hrelease, hw₂⟩ := release_restores hp hw hok
    have hsame : h.blocks m₂ = h.blocks m := (hw₂.blocks_eq hp).trans hblocks.symm
    refine ⟨m₂, hrelease, hsame.trans hblocks, ?_, ?_⟩
    · simp only [stats, hsame]
    · intro b hb a ha
      obtain ⟨header, hheader₂, hheader⟩ :=
        hw₂.linked.headerAt_eq hw.linked (mem_offsets.2 ⟨b, hb, rfl⟩)
      exact Header.read_eq_of_read?_eq hheader₂ hheader ha.1 ha.2
  · intro b hb hused
    obtain ⟨m', blocks', hok, hw', hmelted⟩ := release_melts hp hw hb hused
    have hblocks' := hw'.blocks_eq hp
    exact ⟨m', hok, hblocks'.symm ▸ hw', hblocks'.symm ▸ hmelted⟩

theorem undone_on_small_heap :
    let h := smallSession.heap
    let m := Header.write (Header.write (Header.write (Memory.ofBytes 0 ByteArray.empty)
      64 ⟨true, 64, none, some 96⟩) 160 ⟨false, 32, some 0, some 160⟩)
      224 ⟨true, 64, some 96, none⟩
    (∃ m₁ m₂, h.allocate 40 smallSession.memory = .ok 96 m₁ ∧ h.release 96 m₁ = .ok () m₂ ∧
      h.blocks m₂ = h.blocks smallSession.memory) ∧
    h.blocks m = [⟨0, 64, true⟩, ⟨96, 32, false⟩, ⟨160, 64, true⟩] ∧
    ∃ m', h.release 192 m = .ok () m' ∧ Melted ⟨96, 32, false⟩ (h.blocks m) (h.blocks m') := by
  intro h m
  obtain ⟨hp, hw, -⟩ := init_spec (by decide) init_smallSession
  have hfit : FirstFit (payloadFor 40) [] ⟨0, h.arenaSize - headerSize, true⟩ :=
    ⟨rfl, by decide, by simp⟩
  obtain ⟨m₁, hok, -⟩ := hfit.allocate hp hw
  obtain ⟨m₂, hrelease, hsame, -⟩ := (release_undoes_allocate hp hw).1 40 _ m₁ hok
  refine ⟨⟨m₁, m₂, hok, hrelease, hsame⟩, ?_⟩
  have hcheck : h.check m = .ok () := by decide +kernel
  have hlist : h.blocks m = [⟨0, 64, true⟩, ⟨96, 32, false⟩, ⟨160, 64, true⟩] := by decide +kernel
  have hb : (⟨96, 32, false⟩ : BlockInfo) ∈ h.blocks m := by simp [hlist]
  obtain ⟨m', hok', -, hmelted⟩ :=
    (release_undoes_allocate hp (wellFormed_of_check_ok hcheck)).2 _ hb rfl
  exact ⟨hlist, m', hok', hmelted⟩

end EarlyBoot.BlockHeap
