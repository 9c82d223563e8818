import EarlyBoot.Proofs.Ownership.Delivery

/-!
# Blocks that stay what they are

Who holds a deed may still have its blocks resized or moved.  A pinned deed says
which blocks they are, sizes included, so that a computation that keeps it has
left them in place.  If nothing else was held before, and nothing else is held
now, then the heap is laid out as it was.
-/

namespace EarlyBoot

open BlockHeap (inUse)

variable {f f' : Firmware} {blocks blocks' : List BlockInfo} {d d' e e' : Deed}
  {pins : BlockInfo → Prop}

namespace Deed

def blocksIn (d : Deed) (f : Firmware) (blocks : List BlockInfo) (b : BlockInfo) : Prop :=
  b ∈ inUse blocks ∧ f.heap.payloadAddress b.offset ∈ d.holdings f

def pinned (d : Deed) (pins : BlockInfo → Prop) : Deed where
  holdings := d.holdings
  Valid f blocks := d.Valid f blocks ∧ d.blocksIn f blocks = pins
  budget := d.budget
  held hvalid := d.held hvalid.1
  kept := by
    rintro f blocks given f' blocks' gained h ⟨hvalid, rfl⟩ hapart
    obtain ⟨hsame, hvalid'⟩ := d.kept h hvalid hapart
    refine ⟨hsame, hvalid', funext fun b => propext ?_⟩
    unfold blocksIn
    rw [hsame, h.heap_eq]
    constructor
    · rintro ⟨hb, hholds⟩
      have hgained := (h.inUseAt (d.held hvalid _ hholds) (hapart _ hholds)).2
      exact ⟨(h.spares.only b hb (by rw [h.heap_eq]; simpa using hgained)).1, hholds⟩
    · rintro ⟨hb, hholds⟩
      exact ⟨(h.stays hb (hapart _ hholds)).1, hholds⟩

@[simp] theorem holdings_pinned (d : Deed) (pins : BlockInfo → Prop) (f : Firmware) :
    (d.pinned pins).holdings f = d.holdings f := rfl

@[simp] theorem valid_pinned : (d.pinned pins).Valid f blocks ↔
    d.Valid f blocks ∧ d.blocksIn f blocks = pins := Iff.rfl

@[simp] theorem budget_pinned (d : Deed) (pins : BlockInfo → Prop) :
    (d.pinned pins).budget = d.budget := rfl

end Deed

namespace Amounts

theorem pin (d : Deed) (f : Firmware) (blocks : List BlockInfo) :
    Amounts f blocks d (d.pinned (d.blocksIn f blocks)) :=
  fun hvalid => ⟨⟨hvalid, rfl⟩, rfl, le_rfl⟩

theorem unpin (d : Deed) (pins : BlockInfo → Prop) (f : Firmware) (blocks : List BlockInfo) :
    Amounts f blocks (d.pinned pins) d :=
  fun hvalid => ⟨hvalid.1, rfl, le_rfl⟩

theorem pinned (h : Amounts f blocks d d') (pins : BlockInfo → Prop) :
    Amounts f blocks (d.pinned pins) (d'.pinned pins) := by
  rintro ⟨hvalid, rfl⟩
  obtain ⟨hvalid', hsame, hbudget⟩ := h hvalid
  refine ⟨⟨hvalid', ?_⟩, hsame, hbudget⟩
  unfold Deed.blocksIn
  rw [hsame]

end Amounts

theorem Exchanges.layout_eq (h : Exchanges f blocks (d.pinned pins + e) f' blocks'
      (d'.pinned pins + e')) (hs : Holds f blocks (d.pinned pins + e))
    (hbefore : e.holdings f = 0) (hafter : e'.holdings f' = 0) : blocks' = blocks := by
  obtain ⟨⟨-, hpins⟩, -⟩ := hs.valid
  obtain ⟨⟨-, hpins'⟩, -⟩ := h.valid
  have htrades := h.trades
  have hheap := htrades.heap_eq
  rw [Deed.holdings_add, Deed.holdings_add, hbefore, hafter, Multiset.add_zero,
    Multiset.add_zero, Deed.holdings_pinned, Deed.holdings_pinned] at htrades
  have hsame : d'.blocksIn f' blocks' = d.blocksIn f blocks := hpins'.trans hpins.symm
  have hw' : f.heap.WellFormed f'.memory blocks' := by
    rw [← hheap]
    exact (h.holds hs).wellFormed
  refine hw'.layout_unique hs.wellFormed fun b => ?_
  by_cases hpinned : d.blocksIn f blocks b
  · exact iff_of_true (hsame ▸ hpinned : d'.blocksIn f' blocks' b).1 hpinned.1
  · constructor
    · intro hb
      refine (htrades.spares.only b hb fun hholds => ?_).1
      exact hpinned (hsame ▸ ⟨hb, by simpa [hheap] using hholds⟩)
    · intro hb
      exact (htrades.stays hb fun hholds => hpinned ⟨hb, hholds⟩).1

namespace Delivers

open HasFirmware (firmware)

variable {σ γ : Type} [HasFirmware σ] {x : EStateM Halt σ γ} {s : σ} {left : γ → σ → Deed}

theorem pinned (hx : Delivers x s blocks d left)
    (hquiet : Holds (firmware s) blocks d → ∀ r s' blocks', x s = .ok r s' →
      Holds (firmware s') blocks' (left r s') →
      blocks' = blocks ∧ (firmware s').heap = (firmware s).heap ∧
        (left r s').holdings (firmware s') = d.holdings (firmware s)) :
    Delivers x s blocks (d.pinned pins) fun r s' => (left r s').pinned pins := by
  refine .of_holds fun hs => ?_
  obtain ⟨-, rfl⟩ := hs.valid
  intro hs
  have hd := ((Amounts.unpin d _ _ _).exchanges hs).holds hs
  obtain ⟨r, s', blocks', hrun, h⟩ := hx hd
  obtain ⟨rfl, hheap, hholdings⟩ := hquiet hd r s' blocks' hrun (h.holds hd)
  refine ⟨r, s', blocks', hrun, h.trades, ⟨h.valid, ?_⟩, h.nodup, h.funds⟩
  unfold Deed.blocksIn
  rw [hheap, hholdings]

end Delivers

end EarlyBoot
