import EarlyBoot.Proofs.BlockHeap.Containment
import EarlyBoot.Proofs.BlockHeap.Session

/-!
# What the checker accepts

`check` compares back links and tags along the walk, while `load` and
`successor` compare sizes and onward links with the arena.  Together they
accept an arena exactly if it holds a layout of blocks, for every content of
the arena.  Whatever it holds, the walk never leaves a gap between two blocks.
-/

namespace EarlyBoot.BlockHeap

variable {h : BlockHeap} {m : Memory} {o : Nat} {header : Header}

theorem successor_eq_none (hs : h.successor o header = .ok none) :
    header.next = none ∧ o + headerSize + header.size = h.arenaSize := by
  unfold successor at hs
  cases hfirst : HeapStop.add o headerSize with
  | error stop => simp [hfirst, bind, Except.bind] at hs
  | ok payload =>
      obtain ⟨rfl, -⟩ := HeapStop.add_eq_ok.1 hfirst
      cases hsecond : HeapStop.add (o + headerSize) header.size with
      | error stop => simp [hfirst, hsecond, bind, Except.bind] at hs
      | ok stop =>
          obtain ⟨rfl, -⟩ := HeapStop.add_eq_ok.1 hsecond
          simp only [hfirst, hsecond, bind, Except.bind] at hs
          split at hs
          · split at hs <;> simp at hs
          · rename_i hnext
            split at hs
            · rename_i hend
              exact ⟨hnext, hend⟩
            · simp at hs

theorem successor_eq_onward {link : Option Nat} (hs : h.successor o header = .ok link) :
    header.next = link ∧ link = h.onward (o + headerSize + header.size) := by
  cases link with
  | none =>
      obtain ⟨hnext, hend⟩ := successor_eq_none hs
      refine ⟨hnext, ?_⟩
      unfold onward
      rw [if_neg (by omega)]
  | some next =>
      obtain ⟨hnext, rfl, hlt⟩ := successor_eq_some hs
      refine ⟨hnext, ?_⟩
      unfold onward
      rw [if_pos hlt]

theorem blocks_cons (visited : List (Nat × Header)) (stop : Option HeapStop) :
    (Walk.mk ((o, header) :: visited) stop).blocks =
      ⟨o, header.size, header.free⟩ :: (Walk.mk visited stop).blocks := rfl

theorem walkFrom_tiles (h : BlockHeap) (m : Memory) (o : Nat) (ho : o ≤ h.arenaSize) :
    ∃ stop ≤ h.arenaSize, Tiles o stop (h.walkFrom m o).blocks := by
  have single : ∀ {o : Nat} {header : Header}, h.load m o = .ok header →
      o + headerSize + header.size ≤ h.arenaSize ∧
        Tiles o (o + headerSize + header.size) [⟨o, header.size, header.free⟩] := by
    intro o header hload
    obtain ⟨-, -, hfits, hsize⟩ := load_eq_ok.1 hload
    exact ⟨hfits, rfl, hsize, rfl⟩
  induction o using walkFrom.induct h m with
  | case1 o stop hload =>
      rw [walkFrom_of_load_error hload]
      exact ⟨o, ho, rfl⟩
  | case2 o header hload stop hs =>
      rw [walkFrom_of_successor_error hload hs]
      exact ⟨_, single hload⟩
  | case3 o header hload hs =>
      rw [walkFrom_of_last hload hs]
      exact ⟨_, single hload⟩
  | case4 o header hload next hs hlt ih =>
      obtain ⟨-, -, -, hsize⟩ := load_eq_ok.1 hload
      obtain ⟨-, rfl, hinside⟩ := successor_eq_some hs
      obtain ⟨stop, hstop, hrest⟩ := ih (Nat.le_of_lt hinside)
      rw [walkFrom_of_next hload hs, blocks_cons]
      exact ⟨stop, hstop, rfl, hsize, hrest⟩

theorem checkVisited_cons {previous : Option Nat} {previousFree : Bool}
    {visited : List (Nat × Header)}
    (hc : checkVisited previous previousFree ((o, header) :: visited) = .ok ()) :
    header.previous = previous ∧ ¬ (previousFree = true ∧ header.free = true) ∧
      checkVisited (some o) header.free visited = .ok () := by
  rw [checkVisited] at hc
  split at hc
  · rename_i hlink
    exact ⟨hlink.1, hlink.2, hc⟩
  · cases hc

structure Continues (h : BlockHeap) (m : Memory) (previous : Option Nat) (previousFree : Bool)
    (o : Nat) (blocks : List BlockInfo) : Prop where
  tiles : Tiles o h.arenaSize blocks
  linked : h.Linked m previous blocks
  coalesced : Coalesced blocks
  apart : ∀ b ∈ blocks.head?, ¬ (previousFree = true ∧ b.free = true)

theorem Continues.cons {previous : Option Nat} {previousFree : Bool} {rest : List BlockInfo}
    (hload : h.load m o = .ok header)
    (honward : header.next = h.onward (o + headerSize + header.size))
    (hprevious : header.previous = previous)
    (hapart : ¬ (previousFree = true ∧ header.free = true))
    (hrest : h.Continues m (some o) header.free (o + headerSize + header.size) rest) :
    h.Continues m previous previousFree o (⟨o, header.size, header.free⟩ :: rest) := by
  obtain ⟨-, hread, -, hsize⟩ := load_eq_ok.1 hload
  have hheader : header = h.headerOf previous ⟨o, header.size, header.free⟩ := by
    obtain ⟨free, size, back, next⟩ := header
    obtain rfl : back = previous := hprevious
    obtain rfl : next = h.onward (o + headerSize + size) := honward
    rfl
  refine ⟨⟨rfl, hsize, hrest.tiles⟩, ⟨?_, hrest.linked⟩, ?_, by simpa using hapart⟩
  · rw [← hheader]
    exact hread
  · exact List.isChain_cons.2 ⟨hrest.apart, hrest.coalesced⟩

theorem continues_of_accepted {previous : Option Nat} {previousFree : Bool}
    (haccepted : checkVisited previous previousFree (h.walkFrom m o).visited = .ok ())
    (hend : (h.walkFrom m o).stop = none) :
    h.Continues m previous previousFree o (h.walkFrom m o).blocks := by
  induction o using walkFrom.induct h m generalizing previous previousFree with
  | case1 o stop hload =>
      rw [walkFrom_of_load_error hload] at hend
      cases hend
  | case2 o header hload stop hs =>
      rw [walkFrom_of_successor_error hload hs] at hend
      cases hend
  | case3 o header hload hs =>
      rw [walkFrom_of_last hload hs] at haccepted ⊢
      obtain ⟨hprevious, hapart, -⟩ := checkVisited_cons haccepted
      obtain ⟨hnext, honward⟩ := successor_eq_onward hs
      have hstop := (successor_eq_none hs).2
      apply Continues.cons hload (hnext.trans honward) hprevious hapart
      exact ⟨hstop, trivial, List.isChain_nil, by simp⟩
  | case4 o header hload next hs hlt ih =>
      rw [walkFrom_of_next hload hs] at haccepted hend ⊢
      -- what the check has seen of this block is what its place in a layout asks for
      obtain ⟨hprevious, hapart, hrest⟩ := checkVisited_cons haccepted
      obtain ⟨hnext, honward⟩ := successor_eq_onward hs
      obtain ⟨-, rfl, -⟩ := successor_eq_some hs
      exact Continues.cons hload (hnext.trans honward) hprevious hapart (ih hrest hend)

theorem wellFormed_of_check_ok (hc : h.check m = .ok ()) : h.WellFormed m (h.blocks m) := by
  unfold check at hc
  unfold blocks
  split at hc
  · rename_i hinit
    rw [if_pos hinit]
    dsimp only at hc
    split at hc
    · cases hc
    · cases hc
    · rename_i haccepted hend
      obtain ⟨htiles, hlinked, hcoalesced, -⟩ := continues_of_accepted haccepted hend
      exact ⟨htiles, hlinked, hcoalesced⟩
  · cases hc

/--
For every content of the arena, `check` accepts exactly if the arena holds the
headers of some blocks that lie back to back from its start to its end, link to
each other in both directions and have no free neighbours.  Then `blocks` lists
these blocks.  In any case the blocks listed lie back to back from the start.
-/
theorem check_accepts_exactly_layouts (hp : h.Placed) (m : Memory) :
    (h.check m = .ok () ↔ ∃ blocks, blocks ≠ [] ∧ h.WellFormed m blocks) ∧
      (∀ blocks, h.WellFormed m blocks → h.blocks m = blocks) ∧
      ∃ stop ≤ h.arenaSize, Tiles 0 stop (h.blocks m) := by
  refine ⟨⟨?_, ?_⟩, fun _ hw => hw.blocks_eq hp, ?_⟩
  · intro hc
    have hw := wellFormed_of_check_ok hc
    exact ⟨h.blocks m, hw.ne_nil hp, hw⟩
  · rintro ⟨blocks, -, hw⟩
    exact hw.check_ok hp
  · unfold blocks
    rw [if_pos hp.isInitialized]
    exact walkFrom_tiles h m 0 (Nat.zero_le _)

theorem check_accepts_after_allocation :
    let s := Session.smallSession.after (.call (.allocate 40))
    s.heap.Placed ∧ s.heap.check s.memory = .ok () ∧
      s.heap.WellFormed s.memory [⟨0, 64, false⟩, ⟨96, 128, true⟩] ∧
      s.heap.blocks s.memory = [⟨0, 64, false⟩, ⟨96, 128, true⟩] := by
  intro s
  have hp : s.heap.Placed :=
    ⟨by decide +kernel, by decide +kernel, by decide +kernel, by decide +kernel⟩
  have hlist : s.heap.blocks s.memory = [⟨0, 64, false⟩, ⟨96, 128, true⟩] := by decide +kernel
  have hcheck : s.heap.check s.memory = .ok () := by decide +kernel
  obtain ⟨haccepts, hblocks, -⟩ := check_accepts_exactly_layouts hp s.memory
  obtain ⟨blocks, -, hw⟩ := haccepts.1 hcheck
  rw [← hblocks blocks hw] at hw
  exact ⟨hp, hcheck, hlist ▸ hw, hlist⟩

end EarlyBoot.BlockHeap
