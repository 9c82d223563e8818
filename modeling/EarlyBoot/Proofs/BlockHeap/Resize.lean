import EarlyBoot.Proofs.BlockHeap.Release

/-!
# Resizing a block in use

A resize looks first at the block itself, then at its successor, and only then
at the rest of the list.  In place the block is cut to its new payload by the
same rule as on allocation, from its own bytes or from those of the block and
its free successor together.  Otherwise the bytes move to the first free block
that holds the new payload, and the old block is released there.
-/

namespace EarlyBoot.BlockHeap

open MemoryM (bind_of_ok bind_of_error)

variable {h : BlockHeap} {m m' : Memory} {b c d : BlockInfo} {newSize payload : Nat}
  {blocks before after rest front back : List BlockInfo}

/--
What stands in the list from the block `b` on once `b` has been cut to
`payload` bytes.  More than the split threshold must be left over for a free
block of its own, which takes in the block behind it if that is free.
-/
inductive Cut (h : BlockHeap) (payload : Nat) (b : BlockInfo) :
    List BlockInfo → List BlockInfo → Prop
  | whole {after : List BlockInfo} (hleft : b.size - payload ≤ h.splitFactor * headerSize) :
      Cut h payload b after (b :: after)
  | apart {after : List BlockInfo} (hleft : h.splitFactor * headerSize < b.size - payload)
      (hnext : ∀ c ∈ after.head?, c.free = false) :
      Cut h payload b after (⟨b.offset, payload, false⟩ :: leftover b payload :: after)
  | joined {c : BlockInfo} {after : List BlockInfo}
      (hleft : h.splitFactor * headerSize < b.size - payload) (hnext : c.free = true) :
      Cut h payload b (c :: after)
        (⟨b.offset, payload, false⟩ :: span (leftover b payload) c :: after)

theorem carve_cut {start stop : Nat} (ht : Tiles start stop (b :: after))
    (hlimit : b.size < Word.limit) (hused : b.free = false)
    (hpayload : payload % headerSize = 0) : Cut h payload b after (h.carve b payload after) := by
  have hlimit' : b.size - payload < Word.limit := Nat.lt_of_le_of_lt (Nat.sub_le _ _) hlimit
  unfold carve
  split
  · rename_i hsplit
    have hleft := (Word.saturatingMul_lt_iff hlimit').1 hsplit
    by_cases hhead : ∀ c ∈ after.head?, c.free = false
    · rw [push_of_apart fun c hc hboth => by simp [hhead c hc] at hboth]
      exact .apart hleft hhead
    · obtain ⟨c, rest, rfl, hfree⟩ : ∃ c rest, after = c :: rest ∧ c.free = true := by
        cases after with
        | nil => simp at hhead
        | cons c rest => exact ⟨c, rest, rfl, by simpa using hhead⟩
      have hrest := ht.leftover hpayload (header_fits hpayload ht.2.1 hsplit)
      have hnext : (leftover b payload).stop = c.offset := hrest.2.2.1.symm
      rw [push_of_free rfl hfree, join_eq_span rfl hnext]
      exact .joined hleft hfree
  · rename_i hsplit
    rw [← hused]
    exact .whole (Nat.le_of_not_lt fun hlt => hsplit ((Word.saturatingMul_lt_iff hlimit').2 hlt))

theorem resize_cuts (hp : h.Placed) (hw : h.WellFormed m (before ++ b :: after))
    (hused : b.free = false) (hroom : payloadFor newSize ≤ b.size) :
    ∃ m' after', h.resize (h.payloadAddress b.offset) newSize m =
        .ok (h.payloadAddress b.offset) m' ∧
      Cut h (payloadFor newSize) b after after' ∧ h.WellFormed m' (before ++ after') := by
  have hlimit := hw.size_lt hp (b := b) (by simp)
  have hs := payloadSize?_of_lt (Nat.lt_of_le_of_lt hroom hlimit)
  obtain ⟨m', hok, hr⟩ := resize_shrink hp hw hused hs hroom
  have hpayload := payloadFor_mod newSize
  exact ⟨m', _, hok, carve_cut hw.around.tiles hlimit hused hpayload, hw.carve hpayload hr⟩

theorem resize_absorbs (hp : h.Placed) (hw : h.WellFormed m (before ++ b :: c :: rest))
    (hused : b.free = false) (hfree : c.free = true) (hbig : b.size < payloadFor newSize)
    (hroom : payloadFor newSize ≤ b.size + headerSize + c.size) :
    ∃ m' after', h.resize (h.payloadAddress b.offset) newSize m =
        .ok (h.payloadAddress b.offset) m' ∧
      Cut h (payloadFor newSize) { b with size := b.size + headerSize + c.size } rest after' ∧
      h.WellFormed m' (before ++ after') := by
  have hjoin := hw.around.tiles.join
  have hlimit : b.size + headerSize + c.size < Word.limit := by
    have hstop := hjoin.2.2.le
    have harena := hp.arena_lt
    simp only [BlockInfo.stop] at hstop
    omega
  have hs := payloadSize?_of_lt (Nat.lt_of_le_of_lt hroom hlimit)
  obtain ⟨m', hok, hr⟩ := resize_grow hp hw hused hfree hs hbig hroom
  have hpayload := payloadFor_mod newSize
  exact ⟨m', _, hok, carve_cut hjoin hlimit hused hpayload, hw.grown hused hpayload hr⟩

theorem resize_relocates (hp : h.Placed) (hw : h.WellFormed m (before ++ b :: after))
    (hused : b.free = false) (hbig : b.size < payloadFor newSize)
    (hsmall : ∀ c ∈ after.head?, c.free = true →
      b.size + headerSize + c.size < payloadFor newSize)
    (hlist : before ++ b :: after = front ++ d :: back)
    (hfit : FirstFit (payloadFor newSize) front d) :
    ∃ m' blocks', h.resize (h.payloadAddress b.offset) newSize m =
        .ok (h.payloadAddress d.offset) m' ∧
      h.WellFormed m' blocks' ∧
      Melted b (front ++ h.served d (payloadFor newSize) ++ back) blocks' ∧
      ∀ i, i < b.size →
        m'.read (h.payloadAddress d.offset + i) = m.read (h.payloadAddress b.offset + i) := by
  have hd : d ∈ before ++ b :: after := by simp [hlist]
  have hlimit := hw.size_lt hp hd
  have hs := payloadSize?_of_lt (Nat.lt_of_le_of_lt hfit.room hlimit)
  obtain ⟨m₁, hok, hw₁, -⟩ := hfit.allocate hp (hlist ▸ hw)
  obtain ⟨taken, htaken, hmem⟩ := taken_mem_served h hfit.room
  -- the old block is still in the list that the allocation leaves, and is released there
  have hb : b ∈ front ++ h.served d (payloadFor newSize) ++ back := by
    have hmem : b ∈ front ++ d :: back := by simp [← hlist]
    have hne : b ≠ d := by
      rintro rfl
      simp [hfit.free] at hused
    simp only [List.mem_append, List.mem_cons, hne, false_or] at hmem ⊢
    tauto
  -- the copy stays in the payload of the new block, so that the old one can be released
  have hcount : b.size ≤ (⟨d.offset, taken, false⟩ : BlockInfo).size :=
    Nat.le_of_lt (Nat.lt_of_lt_of_le hbig htaken)
  have hcopied := hw₁.of_payload (by simp [hmem])
    (sameOutsidePayload_copy h hcount m₁ (h.payloadAddress b.offset))
  obtain ⟨m', blocks', hrelease, hw', hmelted⟩ := release_melts hp hcopied hb hused
  have hresize : h.resize (h.payloadAddress b.offset) newSize m =
      .ok (h.payloadAddress d.offset) m' := by
    rw [resize_move hp hw hused hs hbig hsmall, bind_of_ok hok,
      min_size_of_move hs (hw.tiles.bounds (b := b) (by simp)).2.2 hbig]
    exact (bind_of_ok rfl).trans (bind_of_ok hrelease)
  refine ⟨m', blocks', hresize, hw', hmelted, ?_⟩
  rcases resize_move_effect hp hw hused hs hbig hsmall with
    ⟨error, -, hfail⟩ | ⟨e, -, m'', hok', -, -, -, hbytes, -⟩
  · rw [hresize] at hfail
    cases hfail
  · rw [hresize] at hok'
    injection hok' with haddress hmemory
    rw [haddress, hmemory]
    exact hbytes

/--
A resize of a block in use either overflows, or cuts the block in place, or lets
it take in its free successor and cuts the two, or moves it to the first free
block with room and releases the old one, or is out of memory.  The sizes of the
block, of its successor and of the free blocks decide which; the blocks that are
not named are the same before and after.
-/
theorem resize_shrinks_grows_or_moves (hp : h.Placed)
    (hw : h.WellFormed m (before ++ b :: after)) (hused : b.free = false) (newSize : Nat) :
    let p := h.payloadAddress b.offset
    let q := payloadFor newSize
    (Word.limit ≤ q → h.resize p newSize m = .error (.report (.sizeOverflow 1 newSize)) m) ∧
    (q ≤ b.size → ∃ m' after', h.resize p newSize m = .ok p m' ∧ Cut h q b after after' ∧
      h.WellFormed m' (before ++ after') ∧ h.blocks m' = before ++ after') ∧
    (∀ c rest, after = c :: rest → c.free = true → b.size < q → q ≤ b.size + headerSize + c.size →
      ∃ m' after', h.resize p newSize m = .ok p m' ∧
        Cut h q { b with size := b.size + headerSize + c.size } rest after' ∧
        h.WellFormed m' (before ++ after') ∧ h.blocks m' = before ++ after') ∧
    (b.size < q → (∀ c ∈ after.head?, c.free = true → b.size + headerSize + c.size < q) →
      (q < Word.limit → (∀ c ∈ before ++ b :: after, c.free = true → c.size < q) →
        h.resize p newSize m = .error (.report (.outOfMemory newSize)) m) ∧
      ∀ front d back, before ++ b :: after = front ++ d :: back → FirstFit q front d →
        ∃ m', h.resize p newSize m = .ok (h.payloadAddress d.offset) m' ∧
          h.WellFormed m' (h.blocks m') ∧
          Melted b (front ++ h.served d q ++ back) (h.blocks m') ∧
          ∀ i, i < b.size → m'.read (h.payloadAddress d.offset + i) = m.read (p + i)) := by
  intro p q
  refine ⟨?_, ?_, ?_, fun hbig hsmall => ⟨?_, ?_⟩⟩
  · exact fun hle => resize_overflow hp hw hused (payloadSize?_of_le hle)
  · intro hroom
    obtain ⟨m', after', hok, hcut, hw'⟩ := resize_cuts hp hw hused hroom
    exact ⟨m', after', hok, hcut, hw', hw'.blocks_eq hp⟩
  · rintro c rest rfl hfree hbig hroom
    obtain ⟨m', after', hok, hcut, hw'⟩ := resize_absorbs hp hw hused hfree hbig hroom
    exact ⟨m', after', hok, hcut, hw', hw'.blocks_eq hp⟩
  · intro hlt hfull
    have hs := payloadSize?_of_lt hlt
    rw [resize_move hp hw hused hs hbig hsmall]
    exact bind_of_error (allocate_full hp hw hs hfull)
  · intro front d back hlist hfit
    obtain ⟨m', blocks', hok, hw', hmelted, hbytes⟩ :=
      resize_relocates hp hw hused hbig hsmall hlist hfit
    have hblocks := hw'.blocks_eq hp
    exact ⟨m', hok, hblocks.symm ▸ hw', hblocks.symm ▸ hmelted, hbytes⟩

theorem moves_on_small_heap :
    let h : BlockHeap := ⟨64, 256, 0⟩
    let m := Header.write (Header.write (Memory.ofBytes 0 ByteArray.empty)
      64 ⟨true, 160, none, some 192⟩) 256 ⟨false, 32, some 0, none⟩
    (∃ m', h.resize 288 20 m = .ok 288 m' ∧ h.blocks m' = h.blocks m) ∧
    h.resize 288 200 m = .error (.report (.outOfMemory 200)) m ∧
    ∃ m', h.resize 288 64 m = .ok 96 m' ∧
      Melted ⟨192, 32, false⟩ [⟨0, 64, false⟩, ⟨96, 64, true⟩, ⟨192, 32, false⟩]
        (h.blocks m') := by
  intro h m
  have hp : h.Placed := ⟨by decide, by decide, by decide, by decide⟩
  have hcheck : h.check m = .ok () := by decide +kernel
  have hlist : h.blocks m = [⟨0, 160, true⟩] ++ ⟨192, 32, false⟩ :: [] := by decide +kernel
  have hw := wellFormed_of_check_ok hcheck
  rw [hlist] at hw ⊢
  obtain ⟨-, hcut, -, -⟩ := resize_shrinks_grows_or_moves hp hw rfl 20
  obtain ⟨-, -, -, hfull⟩ := resize_shrinks_grows_or_moves hp hw rfl 200
  obtain ⟨-, -, -, hmove⟩ := resize_shrinks_grows_or_moves hp hw rfl 64
  refine ⟨?_, ?_, ?_⟩
  · obtain ⟨m', after', hok, hcut, -, hblocks⟩ := hcut (by decide)
    refine ⟨m', hok, ?_⟩
    cases hcut with
    | whole => exact hblocks
    | apart hleft => exact absurd hleft (by decide)
  · exact (hfull (by decide) (by simp)).1 (by decide) (by decide)
  · have hfit : FirstFit (payloadFor 64) [] ⟨0, 160, true⟩ := ⟨rfl, by decide, by simp⟩
    obtain ⟨m', hok, -, hmelted, -⟩ := (hmove (by decide) (by simp)).2 [] _ _ rfl hfit
    exact ⟨m', hok, hmelted⟩

end EarlyBoot.BlockHeap
