import EarlyBoot.Proofs.BlockHeap.ReleaseOrder

/-!
# First fit

A request takes the lowest free block with room for its payload.  The block is
cut in two if more than the split threshold is left of it, and taken whole if
not; the rest of the list stays as it is.  In memory only the headers of the
blocks that were cut are written, and the back link of the block behind them.
-/

namespace EarlyBoot.BlockHeap

open Session (smallSession init_smallSession)

variable {h : BlockHeap} {m m' : Memory} {b c d : BlockInfo} {size payload : Nat}
  {blocks before after : List BlockInfo}

def payloadFor (size : Nat) : Nat := Word.roundUp (max size 1) headerSize

theorem payloadSize?_of_lt (hlt : payloadFor size < Word.limit) :
    payloadSize? size = some (payloadFor size) :=
  if_pos hlt

theorem payloadSize?_of_le (hle : Word.limit ≤ payloadFor size) : payloadSize? size = none :=
  if_neg (Nat.not_lt.2 hle)

theorem payloadFor_mod (size : Nat) : payloadFor size % headerSize = 0 :=
  Word.roundUp_mod _ _

structure FirstFit (payload : Nat) (before : List BlockInfo) (b : BlockInfo) : Prop where
  free : b.free = true
  room : payload ≤ b.size
  lowest : ∀ c ∈ before, c.free = true → c.size < payload

/-- What takes the place of the free block `b` when `payload` bytes of it are taken into use. -/
def served (h : BlockHeap) (b : BlockInfo) (payload : Nat) : List BlockInfo :=
  if Word.saturatingMul h.splitFactor headerSize < b.size - payload then
    [⟨b.offset, payload, false⟩,
      ⟨b.offset + headerSize + payload, b.size - payload - headerSize, true⟩]
  else [⟨b.offset, b.size, false⟩]

theorem carve_eq_served (hnext : ∀ c ∈ after.head?, c.free = false) :
    h.carve b payload after = h.served b payload ++ after := by
  unfold carve served
  split
  · -- there is nothing to melt the leftover with
    rw [push_of_apart]
    · rfl
    · rintro c hc ⟨-, hfree⟩
      simp [hnext c hc] at hfree
  · rfl

theorem WellFormed.next_used (hw : h.WellFormed m (before ++ b :: after)) (hfree : b.free = true) :
    ∀ c ∈ after.head?, c.free = false := by
  intro c hc
  obtain ⟨-, hchain, -⟩ := List.isChain_append.1 hw.coalesced
  have hapart := (List.isChain_cons.1 hchain).1 c hc
  simpa [hfree] using hapart

theorem WellFormed.size_lt (hp : h.Placed) (hw : h.WellFormed m blocks) (hb : b ∈ blocks) :
    b.size < Word.limit := by
  have hstop := (hw.tiles.bounds hb).2.1
  have hlimit := hp.arena_lt
  simp only [BlockInfo.stop] at hstop
  omega

theorem WellFormed.threshold_le (hp : h.Placed) (hw : h.WellFormed m blocks) (hb : b ∈ blocks)
    (hpayload : payload % headerSize = 0) (hd : d ∈ h.served b payload) (hfree : d.free = true) :
    h.splitFactor * headerSize ≤ d.size := by
  have hsize := (hw.tiles.bounds hb).2.2
  have hlimit := hw.size_lt hp hb
  unfold served at hd
  split at hd
  · rename_i hsplit
    rw [Word.saturatingMul_lt_iff (by omega)] at hsplit
    obtain rfl | rfl : d = _ ∨ d = _ := by simpa using hd
    · simp at hfree
    · -- sizes are multiples of the header size, so its header costs the leftover nothing
      simp only [headerSize] at *
      omega
  · obtain rfl : d = _ := by simpa using hd
    simp at hfree

def InHeader (h : BlockHeap) (offset address : Nat) : Prop :=
  h.base + offset ≤ address ∧ address < h.base + offset + headerSize

def InBackLink (h : BlockHeap) (offset address : Nat) : Prop :=
  h.base + offset + 16 ≤ address ∧ address < h.base + offset + 24

theorem Linked.read_eq {x y : Option Nat} (hl : h.Linked m x blocks) (hl' : h.Linked m' y blocks)
    {o a : Nat} (ho : o ∈ offsets blocks) (ha : h.InHeader o a)
    (hlink : ∀ b ∈ blocks.head?, ¬ h.InBackLink b.offset a) : m.read a = m'.read a := by
  cases blocks with
  | nil => simp at ho
  | cons b rest =>
      rcases List.mem_cons.1 ho with rfl | hrest
      · have hapart := hlink b (by simp)
        refine Header.read_eq_of_relinked hl.1 hl'.1 ha.1 ha.2 ?_
        simp only [InBackLink] at hapart
        omega
      · obtain ⟨header, hheader, hheader'⟩ := hl.2.headerAt_eq hl'.2 hrest
        exact Header.read_eq_of_read?_eq hheader hheader' ha.1 ha.2

theorem Rewrites.read_eq {middle middle' : List BlockInfo}
    (hl : h.Linked m none (before ++ middle ++ after))
    (hr : h.Rewrites none m (before ++ middle ++ after) m' (before ++ middle' ++ after)) {a : Nat}
    (hmiddle : ∀ d ∈ middle, ¬ h.InHeader d.offset a)
    (hmiddle' : ∀ d ∈ middle', ¬ h.InHeader d.offset a)
    (hlink : ∀ c ∈ after.head?, ¬ h.InBackLink c.offset a) : m'.read a = m.read a := by
  obtain ⟨hlfront, hlafter⟩ := linked_append.1 hl
  obtain ⟨hlfront', hlafter'⟩ := linked_append.1 hr.linked
  have hlbefore := (linked_append.1 hlfront).1
  have hlbefore' := (linked_append.1 hlfront').1
  -- the headers in front are the same, and those behind are up to the first back link
  by_cases hbefore : ∃ o ∈ offsets before, h.InHeader o a
  · obtain ⟨o, ho, ha⟩ := hbefore
    obtain ⟨header, hheader, hheader'⟩ := hlbefore.headerAt_eq hlbefore' ho
    exact Header.read_eq_of_read?_eq hheader' hheader ha.1 ha.2
  by_cases hafter : ∃ o ∈ offsets after, h.InHeader o a
  · obtain ⟨o, ho, ha⟩ := hafter
    exact hlafter'.read_eq hlafter ho ha hlink
  · apply hr.same
    intro o ho
    have hout : ¬ h.InHeader o a := by
      simp only [offsets_append, List.mem_append] at ho
      rcases ho with ((ho | ho) | ho) | ((ho | ho) | ho)
      · exact fun ha => hbefore ⟨o, ho, ha⟩
      · obtain ⟨d, hd, rfl⟩ := mem_offsets.1 ho
        exact hmiddle d hd
      · exact fun ha => hafter ⟨o, ho, ha⟩
      · exact fun ha => hbefore ⟨o, ho, ha⟩
      · obtain ⟨d, hd, rfl⟩ := mem_offsets.1 ho
        exact hmiddle' d hd
      · exact fun ha => hafter ⟨o, ho, ha⟩
    simp only [InHeader] at hout
    omega

theorem taken_mem_served (h : BlockHeap) (hroom : payload ≤ b.size) :
    ∃ taken, payload ≤ taken ∧ ⟨b.offset, taken, false⟩ ∈ h.served b payload := by
  unfold served
  split
  · exact ⟨payload, Nat.le_refl _, List.mem_cons_self⟩
  · exact ⟨b.size, hroom, List.mem_cons_self⟩

theorem FirstFit.allocate (hfit : FirstFit (payloadFor size) before b) (hp : h.Placed)
    (hw : h.WellFormed m (before ++ b :: after)) :
    ∃ m', h.allocate size m = .ok (h.payloadAddress b.offset) m' ∧
      h.WellFormed m' (before ++ h.served b (payloadFor size) ++ after) ∧
      ∀ a, (∀ d ∈ h.served b (payloadFor size), ¬ h.InHeader d.offset a) →
        (∀ c ∈ after.head?, ¬ h.InBackLink c.offset a) → m'.read a = m.read a := by
  have hlimit := hw.size_lt hp (b := b) (by simp)
  have hs := payloadSize?_of_lt (Nat.lt_of_le_of_lt hfit.room hlimit)
  obtain ⟨m', hok, hr⟩ := allocate_fit hp hw hs hfit.lowest hfit.free hfit.room
  have hw' := hw.carve (payloadFor_mod size) hr
  rw [carve_eq_served (hw.next_used hfit.free), ← List.append_assoc] at hr hw'
  refine ⟨m', hok, hw', fun a hserved hlink => ?_⟩
  have hlist : before ++ b :: after = before ++ [b] ++ after := by simp
  rw [hlist] at hr hw
  refine hr.read_eq hw.linked ?_ hserved hlink
  intro d hd
  obtain ⟨taken, -, htaken⟩ := taken_mem_served h hfit.room
  rw [List.mem_singleton.1 hd]
  exact hserved ⟨b.offset, taken, false⟩ htaken

/--
Allocation is first fit with the split rule.  A payload that no word can hold is
an overflow; one that no free block can hold is out of memory; in both cases the
memory is untouched.  Otherwise the lowest free block with enough room is taken,
whole or cut, and every byte outside the headers of the new blocks and the back
link of the block behind them is kept.
-/
theorem allocate_serves_first_fit (hp : h.Placed) (hw : h.WellFormed m blocks) (size : Nat) :
    (Word.limit ≤ payloadFor size →
      h.allocate size m = .error (.report (.sizeOverflow 1 size)) m) ∧
    (payloadFor size < Word.limit → (∀ b ∈ blocks, b.free = true → b.size < payloadFor size) →
      h.allocate size m = .error (.report (.outOfMemory size)) m) ∧
    ∀ before b after, blocks = before ++ b :: after → FirstFit (payloadFor size) before b →
      ∃ m', h.allocate size m = .ok (h.base + b.offset + headerSize) m' ∧
        h.blocks m' = before ++ h.served b (payloadFor size) ++ after ∧
        h.WellFormed m' (h.blocks m') ∧
        (∀ d ∈ h.served b (payloadFor size), d.free = true →
          h.splitFactor * headerSize ≤ d.size) ∧
        ∀ a, (∀ d ∈ h.served b (payloadFor size), ¬ h.InHeader d.offset a) →
          (∀ c ∈ after.head?, ¬ h.InBackLink c.offset a) → m'.read a = m.read a := by
  refine ⟨fun hle => allocate_overflow hp (payloadSize?_of_le hle) m,
    fun hlt hfull => allocate_full hp hw (payloadSize?_of_lt hlt) hfull, ?_⟩
  rintro before b after rfl hfit
  obtain ⟨m', hok, hw', hkept⟩ := hfit.allocate hp hw
  have hblocks := hw'.blocks_eq hp
  refine ⟨m', hok, hblocks, hblocks.symm ▸ hw', ?_, hkept⟩
  intro d hd hfree
  exact hw.threshold_le hp (by simp) (payloadFor_mod size) hd hfree

theorem first_fit_on_small_heap :
    let h := smallSession.heap
    ∃ m', h.allocate 40 smallSession.memory = .ok 96 m' ∧
      h.blocks m' = [⟨0, 64, false⟩, ⟨96, 128, true⟩] ∧
      ∀ a, ¬ h.InHeader 0 a → ¬ h.InHeader 96 a →
        m'.read a = smallSession.memory.read a := by
  intro h
  obtain ⟨hp, hw, -⟩ := init_spec (by decide) init_smallSession
  obtain ⟨-, -, hserve⟩ := allocate_serves_first_fit hp hw 40
  have hfit : FirstFit (payloadFor 40) [] ⟨0, h.arenaSize - headerSize, true⟩ :=
    ⟨rfl, by decide, by simp⟩
  have hcut : h.served ⟨0, h.arenaSize - headerSize, true⟩ (payloadFor 40) =
      [⟨0, 64, false⟩, ⟨96, 128, true⟩] := by decide
  obtain ⟨m', hok, hblocks, -, -, hkept⟩ := hserve [] _ [] rfl hfit
  rw [hcut] at hblocks hkept
  refine ⟨m', hok, hblocks, fun a hfirst hsecond => hkept a ?_ (by simp)⟩
  simpa using ⟨hfirst, hsecond⟩

/-- No block can hold the greatest request, but it fails before the search: no word can hold it. -/
theorem greatest_request_overflows :
    let h := smallSession.heap
    let m := smallSession.memory
    h.Placed ∧ h.WellFormed m (h.blocks m) ∧
      (∀ b ∈ h.blocks m, b.free = true → b.size < payloadFor Word.greatest) ∧
      h.allocate Word.greatest m ≠ .error (.report (.outOfMemory Word.greatest)) m := by
  intro h m
  obtain ⟨hp, hw, -⟩ := init_spec (by decide) init_smallSession
  refine ⟨hp, hw.blocks_eq hp ▸ hw, ?_, ?_⟩
  · rw [hw.blocks_eq hp]
    decide
  · rw [allocate_overflow hp (payloadSize?_of_le (by decide)) m]
    simp

end EarlyBoot.BlockHeap
