import EarlyBoot.Proofs.BlockHeap.Layout

/-!
# Looking at a well-formed heap

On a well-formed heap the walk meets exactly the blocks of the layout, so
`blocks` lists them, `check` accepts them, and `findFree` answers the first free
block with enough room.
-/

namespace EarlyBoot.BlockHeap

variable {h : BlockHeap} {m : Memory} {blocks : List BlockInfo}

theorem load_of_linked {previous : Option Nat} {start : Nat} {b : BlockInfo}
    {rest : List BlockInfo} (ht : Tiles start h.arenaSize (b :: rest))
    (haligned : start % headerSize = 0) (hl : h.Linked m previous (b :: rest)) :
    h.load m b.offset = .ok (h.headerOf previous b) := by
  obtain ⟨hoffset, hsize, hrest⟩ := ht
  have hle := hrest.le
  unfold BlockInfo.stop at hle
  rw [load_eq_ok]
  refine ⟨⟨by omega, hoffset ▸ haligned⟩, hl.1, hle, hsize⟩

theorem successor_headerOf (hp : h.Placed) {previous : Option Nat} {b : BlockInfo}
    (hstop : b.stop ≤ h.arenaSize) :
    h.successor b.offset (h.headerOf previous b) = .ok (h.onward b.stop) := by
  have hlt := hp.arena_lt
  have hfirst : HeapStop.add b.offset headerSize = .ok (b.offset + headerSize) := by
    rw [HeapStop.add_eq_ok]
    unfold BlockInfo.stop at hstop
    omega
  have hsecond : HeapStop.add (b.offset + headerSize) b.size = .ok b.stop := by
    rw [HeapStop.add_eq_ok]
    exact ⟨rfl, by omega⟩
  unfold successor headerOf
  simp only [hfirst, hsecond, bind, Except.bind]
  unfold onward
  by_cases hend : b.stop < h.arenaSize
  · simp [hend]
  · have : b.stop = h.arenaSize := by omega
    simp [this]

def headersOf (h : BlockHeap) : Option Nat → List BlockInfo → List (Nat × Header)
  | _, [] => []
  | previous, b :: rest => (b.offset, h.headerOf previous b) :: h.headersOf (some b.offset) rest

theorem headersOf_append (previous : Option Nat) (blocks blocks' : List BlockInfo) :
    h.headersOf previous (blocks ++ blocks') =
      h.headersOf previous blocks ++ h.headersOf (lastLink previous blocks) blocks' := by
  induction blocks generalizing previous with
  | nil => rfl
  | cons b rest ih =>
      simp only [List.cons_append, headersOf, lastLink, ih]

theorem map_headersOf (previous : Option Nat) :
    (h.headersOf previous blocks).map
      (fun (offset, header) => (⟨offset, header.size, header.free⟩ : BlockInfo)) = blocks := by
  induction blocks generalizing previous with
  | nil => rfl
  | cons b rest ih =>
      simp only [headersOf, List.map_cons, ih]
      rfl

theorem walkFrom_eq (hp : h.Placed) {previous : Option Nat} {start : Nat}
    (ht : Tiles start h.arenaSize blocks) (haligned : start % headerSize = 0)
    (hl : h.Linked m previous blocks) (hne : blocks ≠ []) :
    h.walkFrom m start = ⟨h.headersOf previous blocks, none⟩ := by
  induction blocks generalizing previous start with
  | nil => exact absurd rfl hne
  | cons b rest ih =>
      have hload := load_of_linked ht haligned hl
      have hstop := ht.stop_aligned haligned
      obtain ⟨hoffset, hsize, hrest⟩ := ht
      -- the link of every block leads to the next one, so the walk visits the layout in order
      have hsuccessor : h.successor b.offset (h.headerOf previous b) = .ok (h.onward b.stop) :=
        successor_headerOf hp hrest.le
      subst hoffset
      rw [walkFrom, hload]
      dsimp only
      cases rest with
      | nil =>
          have hend : b.stop = h.arenaSize := hrest
          rw [onward_eq_head hrest] at hsuccessor
          split
          · simp_all
          · simp [headersOf]
          · simp_all
      | cons c rest =>
          have hc : c.offset = b.stop := hrest.1
          rw [onward_eq_head hrest] at hsuccessor
          have hnext := ih hrest hstop hl.2 (by simp)
          split
          · simp_all
          · simp_all
          · rename_i next heq
            have : next = b.stop := by simp_all
            subst this
            rw [hnext]
            rfl

theorem WellFormed.ne_nil (hp : h.Placed) (hw : h.WellFormed m blocks) : blocks ≠ [] := by
  rintro rfl
  have hend : 0 = h.arenaSize := hw.tiles
  exact absurd hp.arena_pos (by omega)

theorem WellFormed.walk_eq (hp : h.Placed) (hw : h.WellFormed m blocks) :
    h.walk m = ⟨h.headersOf none blocks, none⟩ :=
  walkFrom_eq hp hw.tiles (Nat.zero_mod _) hw.linked (hw.ne_nil hp)

theorem WellFormed.blocks_eq (hp : h.Placed) (hw : h.WellFormed m blocks) :
    h.blocks m = blocks := by
  unfold BlockHeap.blocks Walk.blocks
  rw [if_pos hp.isInitialized, hw.walk_eq hp]
  exact map_headersOf none

theorem checkVisited_headersOf {previous : Option Nat} {previousFree : Bool}
    (hc : Coalesced blocks)
    (hhead : ∀ b ∈ blocks.head?, ¬ (previousFree = true ∧ b.free = true)) :
    checkVisited previous previousFree (h.headersOf previous blocks) = .ok () := by
  induction blocks generalizing previous previousFree with
  | nil => rfl
  | cons b rest ih =>
      rw [headersOf, checkVisited, if_pos]
      · apply ih hc.tail
        intro c hhead'
        exact List.isChain_cons.1 hc |>.1 c hhead'
      · exact ⟨rfl, hhead b (by simp)⟩

theorem WellFormed.check_ok (hp : h.Placed) (hw : h.WellFormed m blocks) :
    h.check m = .ok () := by
  unfold check
  rw [if_pos hp.isInitialized, hw.walk_eq hp]
  dsimp only
  rw [checkVisited_headersOf hw.coalesced (by simp)]

theorem find?_headersOf_eq_none {previous : Option Nat} {payload : Nat}
    (hfits : ∀ b ∈ blocks, b.free = true → b.size < payload) :
    ((h.headersOf previous blocks).find?
      fun (_, header) => header.free && decide (payload ≤ header.size)) = none := by
  induction blocks generalizing previous with
  | nil => rfl
  | cons b rest ih =>
      have hb : ¬ (b.free && decide (payload ≤ b.size)) = true := by
        intro hfit
        simp only [Bool.and_eq_true, decide_eq_true_eq] at hfit
        have := hfits b (by simp) hfit.1
        omega
      rw [headersOf, List.find?_cons_of_neg]
      · exact ih fun c hc => hfits c (by simp [hc])
      · exact hb

theorem WellFormed.findFree_none (hp : h.Placed) (hw : h.WellFormed m blocks) {payload : Nat}
    (hfits : ∀ b ∈ blocks, b.free = true → b.size < payload) :
    h.findFree m payload = .ok none := by
  unfold findFree
  rw [hw.walk_eq hp]
  dsimp only
  rw [find?_headersOf_eq_none hfits]

theorem WellFormed.findFree_some (hp : h.Placed) {before after : List BlockInfo} {b : BlockInfo}
    (hw : h.WellFormed m (before ++ b :: after)) {payload : Nat}
    (hfits : ∀ c ∈ before, c.free = true → c.size < payload)
    (hfree : b.free = true) (hroom : payload ≤ b.size) :
    h.findFree m payload =
      .ok (some (b.offset, h.headerOf (lastLink none before) b)) := by
  unfold findFree
  rw [hw.walk_eq hp, headersOf_append]
  dsimp only
  rw [List.find?_append, find?_headersOf_eq_none hfits, headersOf,
    List.find?_cons_of_pos (by simp [headerOf, hfree, hroom])]
  rfl

theorem firstFit_cases (blocks : List BlockInfo) (payload : Nat) :
    (∀ b ∈ blocks, b.free = true → b.size < payload) ∨
      ∃ before b after, blocks = before ++ b :: after ∧
        (∀ c ∈ before, c.free = true → c.size < payload) ∧
        b.free = true ∧ payload ≤ b.size := by
  cases hfind : blocks.find? fun b => b.free && decide (payload ≤ b.size) with
  | none =>
      left
      intro b hb hfree
      have := List.find?_eq_none.1 hfind b hb
      simp only [hfree, Bool.true_and, decide_eq_true_eq] at this
      omega
  | some b =>
      right
      obtain ⟨hb, before, after, rfl, hbefore⟩ := List.find?_eq_some_iff_append.1 hfind
      simp only [Bool.and_eq_true, decide_eq_true_eq] at hb
      refine ⟨before, b, after, rfl, ?_, hb.1, hb.2⟩
      intro c hc hfree
      have := hbefore c hc
      simp only [hfree, Bool.true_and, Bool.not_eq_true', decide_eq_false_iff_not] at this
      omega

end EarlyBoot.BlockHeap
