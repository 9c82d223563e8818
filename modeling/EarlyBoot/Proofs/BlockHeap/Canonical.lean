import EarlyBoot.Proofs.BlockHeap.Sharing

/-!
# The blocks in use decide the layout

Between two blocks in use there is either nothing or one free block that takes
up the whole gap.  Two coalesced layouts of one arena with the same blocks in
use are therefore the same, so a client that has given back all it was given
leaves the list of blocks as it found it.
-/

namespace EarlyBoot.BlockHeap

variable {h : BlockHeap} {m m' : Memory} {start stop : Nat} {b c : BlockInfo}
  {blocks blocks' rest rest' : List BlockInfo}

theorem Tiles.stop_pos (ht : Tiles start stop (b :: rest)) : start < stop := by
  have hlt := (ht.offset_lt (o := b.offset) (by simp)).2
  have hoffset := ht.1
  simp only [headerSize] at hlt
  omega

theorem Tiles.head_eq_of_used (ht : Tiles start stop (b :: rest))
    (ht' : Tiles start stop (c :: rest')) (hb : b ∈ inUse (c :: rest')) : b = c := by
  rcases List.mem_cons.1 (mem_inUse.1 hb).1 with heq | hrest
  · exact heq
  · have hlow := (ht'.2.2.bounds hrest).1
    have hoffset := ht.1
    have hoffset' := ht'.1
    simp only [BlockInfo.stop, headerSize] at hlow
    omega

theorem Tiles.head_stop_le (ht : Tiles start stop (b :: rest)) (ht' : Tiles start stop (c :: rest'))
    (hc : Coalesced (b :: rest)) (hfree : b.free = true) (hfree' : c.free = true)
    (hsub : ∀ d ∈ inUse (b :: rest), d ∈ inUse (c :: rest')) : c.stop ≤ b.stop := by
  cases rest with
  | nil =>
      have hend : b.stop = stop := ht.2.2
      exact hend ▸ ht'.2.2.le
  | cons d rest =>
      have hused : d.free = false := by
        have := (List.isChain_cons_cons.1 hc).1
        simpa [hfree] using this
      have hd := hsub d (mem_inUse.2 ⟨by simp, hused⟩)
      rw [inUse_cons_free hfree'] at hd
      have hlow := (ht'.2.2.bounds (mem_inUse.1 hd).1).1
      rw [ht.2.2.1] at hlow
      exact hlow

theorem Tiles.head_unique (ht : Tiles start stop (b :: rest)) (ht' : Tiles start stop (c :: rest'))
    (hc : Coalesced (b :: rest)) (hc' : Coalesced (c :: rest'))
    (hsame : ∀ d, d ∈ inUse (b :: rest) ↔ d ∈ inUse (c :: rest')) : b = c := by
  cases hb : b.free with
  | false => exact ht.head_eq_of_used ht' ((hsame b).1 (mem_inUse.2 ⟨by simp, hb⟩))
  | true =>
      cases hd : c.free with
      | false => exact (ht'.head_eq_of_used ht ((hsame c).2 (mem_inUse.2 ⟨by simp, hd⟩))).symm
      | true =>
          -- two free blocks: each of them reaches as far as the other
          have hle := ht.head_stop_le ht' hc hb hd fun d => (hsame d).1
          have hge := ht'.head_stop_le ht hc' hd hb fun d => (hsame d).2
          have hoffset := ht.1.trans ht'.1.symm
          simp only [BlockInfo.stop] at hle hge
          have hsize : b.size = c.size := by omega
          have hfree : b.free = c.free := hb.trans hd.symm
          cases b
          cases c
          simp_all

theorem mem_inUse_tail (hnot : b ∉ rest) (hnot' : b ∉ rest')
    (hsame : ∀ d, d ∈ inUse (b :: rest) ↔ d ∈ inUse (b :: rest')) (d : BlockInfo) :
    d ∈ inUse rest ↔ d ∈ inUse rest' := by
  have hd := hsame d
  simp only [mem_inUse, List.mem_cons] at hd ⊢
  by_cases heq : d = b
  · subst heq
    simp [hnot, hnot']
  · simpa [heq] using hd

theorem Tiles.unique (ht : Tiles start stop blocks) (ht' : Tiles start stop blocks')
    (hc : Coalesced blocks) (hc' : Coalesced blocks')
    (hsame : ∀ b, b ∈ inUse blocks ↔ b ∈ inUse blocks') : blocks = blocks' := by
  -- the first blocks agree, and so do the blocks in use behind them
  induction blocks generalizing start blocks' with
  | nil =>
      cases blocks' with
      | nil => rfl
      | cons c rest' => exact absurd ht (Nat.ne_of_lt ht'.stop_pos)
  | cons b rest ih =>
      cases blocks' with
      | nil => exact absurd ht' (Nat.ne_of_lt ht.stop_pos)
      | cons c rest' =>
          obtain rfl := ht.head_unique ht' hc hc' hsame
          have hnot : ∀ {tail}, Tiles start stop (b :: tail) → b ∉ tail :=
            fun ht hmem => ht.offset_not_mem (mem_offsets.2 ⟨b, hmem, rfl⟩)
          rw [ih ht.2.2 ht'.2.2 (List.isChain_cons.1 hc).2 (List.isChain_cons.1 hc').2
            (mem_inUse_tail (hnot ht) (hnot ht') hsame)]

theorem WellFormed.layout_unique (hw : h.WellFormed m blocks) (hw' : h.WellFormed m' blocks')
    (hsame : ∀ b, b ∈ inUse blocks ↔ b ∈ inUse blocks') : blocks = blocks' :=
  hw.tiles.unique hw'.tiles hw.coalesced hw'.coalesced hsame

theorem Session.Spares.restores {m m' : Memory} (h₁ : h.WellFormed m blocks)
    (hspares : Session.Spares ⟨h, m, []⟩ ⟨h, m', []⟩ blocks blocks') : blocks' = blocks := by
  apply hspares.shares.wellFormed.layout_unique h₁
  intro b
  exact ⟨fun hb => (hspares.only b hb List.not_mem_nil).1,
    fun hb => (hspares.kept b hb List.not_mem_nil).1⟩

end EarlyBoot.BlockHeap
