import EarlyBoot.Proofs.BlockHeap.Outcome

/-!
# Room for requests

A heap has room for `n` bytes if `n` bytes can be taken from one of its free
blocks without using it up.  A request takes its payload and one header from
the room, even where it is served from another block, and releasing takes
nothing.  While there is room for a request, it is granted.
-/

namespace EarlyBoot.BlockHeap

open MemoryM (bind_of_ok)

variable {h : BlockHeap} {m : Memory} {b c : BlockInfo} {n k size payload : Nat}
  {blocks before after rest : List BlockInfo}

def HasFree (blocks : List BlockInfo) (n : Nat) : Prop :=
  ∃ b ∈ blocks, b.free = true ∧ n ≤ b.size

theorem HasFree.mono (hfree : HasFree blocks n) (hle : k ≤ n) : HasFree blocks k := by
  obtain ⟨b, hb, hbfree, hsize⟩ := hfree
  exact ⟨b, hb, hbfree, Nat.le_trans hle hsize⟩

theorem hasFree_append :
    HasFree (before ++ after) n ↔ HasFree before n ∨ HasFree after n := by
  simp only [HasFree, List.mem_append, or_and_right, exists_or]

theorem hasFree_cons :
    HasFree (b :: rest) n ↔ (b.free = true ∧ n ≤ b.size) ∨ HasFree rest n := by
  simp only [HasFree, List.mem_cons, or_and_right, exists_or, exists_eq_left]

theorem hasFree_push (hfree : HasFree (b :: rest) n) : HasFree (push b rest) n := by
  cases rest with
  | nil => exact hfree
  | cons c rest =>
      by_cases hboth : b.free = true ∧ c.free = true
      · rw [push_of_free hboth.1 hboth.2, hasFree_cons]
        rw [hasFree_cons, hasFree_cons] at hfree
        rcases hfree with ⟨-, hsize⟩ | ⟨-, hsize⟩ | hrest
        · exact .inl ⟨hboth.1, by dsimp only; omega⟩
        · exact .inl ⟨hboth.1, by dsimp only; omega⟩
        · exact .inr hrest
      · rwa [push_of_apart (by simpa using hboth)]

theorem hasFree_merged (hfree : HasFree blocks n) : HasFree (merged blocks) n := by
  induction blocks with
  | nil => exact hfree
  | cons b rest ih =>
      apply hasFree_push
      rcases hasFree_cons.1 hfree with hb | hrest
      · exact hasFree_cons.2 (.inl hb)
      · exact hasFree_cons.2 (.inr (ih hrest))

def slack (h : BlockHeap) : Nat := Word.saturatingMul h.splitFactor headerSize

theorem hasFree_carve_after (hfree : HasFree after n) : HasFree (h.carve b payload after) n := by
  unfold carve
  split
  · exact hasFree_cons.2 (.inr (hasFree_push (hasFree_cons.2 (.inr hfree))))
  · exact hasFree_cons.2 (.inr hfree)

theorem hasFree_carve (hlong : n + h.slack + payload + headerSize ≤ b.size) :
    HasFree (h.carve b payload after) (n + h.slack) := by
  have hsplit : Word.saturatingMul h.splitFactor headerSize < b.size - payload := by
    simp only [slack, headerSize] at *
    omega
  unfold carve
  rw [if_pos hsplit]
  refine hasFree_cons.2 (.inr (hasFree_push (hasFree_cons.2 (.inl ⟨rfl, ?_⟩))))
  simp only [leftover]
  omega

def Room (h : BlockHeap) (blocks : List BlockInfo) (n : Nat) : Prop := HasFree blocks (n + h.slack)

def charge (size : Nat) : Nat := Word.roundUp (max size 1) headerSize + headerSize

theorem charge_pos (size : Nat) : 0 < charge size := by
  unfold charge headerSize
  omega

theorem le_charge (size : Nat) : size ≤ charge size := by
  have hle : max size 1 ≤ Word.roundUp (max size 1) headerSize := Word.le_roundUp (by decide)
  unfold charge
  omega

theorem charge_eq (hs : payloadSize? size = some payload) : charge size = payload + headerSize := by
  unfold payloadSize? Word.roundUp? at hs
  split at hs
  · rw [charge, Option.some.inj hs]
  · cases hs

theorem Room.payloadSize (hp : h.Placed) (hw : h.WellFormed m blocks)
    (hroom : h.Room blocks (charge size)) : ∃ payload, payloadSize? size = some payload := by
  obtain ⟨b, hb, -, hsize⟩ := hroom
  have hstop := (hw.tiles.bounds hb).2.1
  have harena := hp.arena_lt
  refine ⟨_, if_pos ?_⟩
  simp only [charge, BlockInfo.stop] at *
  omega

theorem Room.carve (hroom : h.Room (before ++ b :: after) (n + charge size))
    (hs : payloadSize? size = some payload) : h.Room (before ++ h.carve b payload after) n := by
  have hcharge := charge_eq hs
  have hle : n + h.slack ≤ n + charge size + h.slack := by omega
  rcases hasFree_append.1 hroom with hbefore | hrest
  · exact hasFree_append.2 (.inl (hbefore.mono hle))
  · apply hasFree_append.2
    right
    rcases hasFree_cons.1 hrest with ⟨-, hsize⟩ | hafter
    · exact hasFree_carve (by omega)
    · exact hasFree_carve_after (hafter.mono hle)

theorem Room.allocate (hroom : h.Room blocks (n + charge size)) (hp : h.Placed)
    (hw : h.WellFormed m blocks) :
    ∃ p m' blocks', h.allocate size m = .ok p m' ∧ h.WellFormed m' blocks' ∧ h.Room blocks' n := by
  have hpaid : h.Room blocks (charge size) := hroom.mono (by omega)
  obtain ⟨payload, hs⟩ := hpaid.payloadSize hp hw
  have hcharge := charge_eq hs
  rcases firstFit_cases blocks payload with hfits | ⟨before, b, after, rfl, hfits, hfree, hlong⟩
  · obtain ⟨b, hb, hfree, hsize⟩ := hroom
    have := hfits b hb hfree
    omega
  · obtain ⟨m', hok, hr⟩ := allocate_fit hp hw hs hfits hfree hlong
    exact ⟨_, m', _, hok, hw.carve (payloadSize?_eq_some hs).1 hr, hroom.carve hs⟩

theorem room_around (hused : b.free = false) (hroom : h.Room (before ++ b :: after) n) :
    HasFree before (n + h.slack) ∨ HasFree after (n + h.slack) := by
  rcases hasFree_append.1 hroom with hbefore | hrest
  · exact .inl hbefore
  · rcases hasFree_cons.1 hrest with ⟨hfree, -⟩ | hafter
    · rw [hused] at hfree
      cases hfree
    · exact .inr hafter

theorem Room.release (hroom : h.Room blocks n) (hp : h.Placed) (hw : h.WellFormed m blocks)
    (hb : b ∈ inUse blocks) :
    ∃ m' blocks', h.release (h.payloadAddress b.offset) m = .ok () m' ∧
      h.WellFormed m' blocks' ∧ h.Room blocks' n := by
  obtain ⟨hmem, hused⟩ := mem_inUse.1 hb
  obtain ⟨before, after, rfl⟩ := List.append_of_mem hmem
  obtain ⟨m', hok, hr⟩ := release_spec hp hw hused
  refine ⟨m', _, hok, hw.released hr, hasFree_merged (hasFree_append.2 ?_)⟩
  rcases room_around hused hroom with hbefore | hafter
  · exact .inl hbefore
  · exact .inr (hasFree_cons.2 (.inr hafter))

theorem Room.shrunk (hroom : h.Room (before ++ b :: after) n) (hused : b.free = false) :
    h.Room (before ++ h.carve b payload after) n :=
  hasFree_append.2 ((room_around hused hroom).imp id hasFree_carve_after)

theorem Room.grown (hroom : h.Room (before ++ b :: c :: rest) (n + charge size))
    (hused : b.free = false) (hs : payloadSize? size = some payload) :
    h.Room (before ++ h.carve { b with size := b.size + headerSize + c.size } payload rest) n := by
  have hcharge := charge_eq hs
  have hle : n + h.slack ≤ n + charge size + h.slack := by omega
  apply hasFree_append.2
  rcases room_around hused hroom with hbefore | hafter
  · exact .inl (hbefore.mono hle)
  · right
    rcases hasFree_cons.1 hafter with ⟨-, hsize⟩ | hrest
    · refine hasFree_carve ?_
      dsimp only
      omega
    · exact hasFree_carve_after (hrest.mono hle)

theorem Room.moved (hroom : h.Room blocks (n + charge size)) (hp : h.Placed)
    (hw : h.WellFormed m blocks) (hb : b ∈ inUse blocks)
    (hs : payloadSize? size = some payload) (hbig : b.size < payload) :
    ∃ p m' blocks', (do
        let target ← h.allocate size
        modify (·.copy (h.payloadAddress b.offset) target (min b.size size))
        h.release (h.payloadAddress b.offset)
        pure target : HeapM Nat) m = .ok p m' ∧
      h.WellFormed m' blocks' ∧ h.Room blocks' n := by
  obtain ⟨p, m₁, blocks₁, hok, hw₁, hroom₁⟩ := hroom.allocate hp hw
  rcases allocate_effect hp hw size with
    ⟨_, -, hfail⟩ | ⟨d, blocks₂, m₂, hallocate, hsize, -, hfresh, he⟩
  · rw [hok] at hfail
    cases hfail
  · rw [hok] at hallocate
    cases hallocate
    have hcount := min_size_of_move hs (hw.tiles.bounds (mem_inUse.1 hb).1).2.2 hbig
    have hcopied := he.copied hb hfresh (by omega)
    have hb₂ := (hcopied.mem_inUse b).2 (.inr ⟨hb, by simp⟩)
    rw [← hw₁.blocks_eq hp, he.wellFormed.blocks_eq hp] at hroom₁
    obtain ⟨m', blocks', hrelease, hw', hroom'⟩ := hroom₁.release hp hcopied.wellFormed hb₂
    refine ⟨h.payloadAddress d.offset, m', blocks', ?_, hw', hroom'⟩
    refine (bind_of_ok hok).trans ?_
    rw [hcount]
    exact (bind_of_ok rfl).trans (bind_of_ok hrelease)

theorem Room.resize (hroom : h.Room blocks (n + charge size)) (hp : h.Placed)
    (hw : h.WellFormed m blocks) (hb : b ∈ inUse blocks) :
    ∃ p m' blocks', h.resize (h.payloadAddress b.offset) size m = .ok p m' ∧
      h.WellFormed m' blocks' ∧ h.Room blocks' n := by
  have hpaid : h.Room blocks (charge size) := hroom.mono (by omega)
  obtain ⟨payload, hs⟩ := hpaid.payloadSize hp hw
  have hpayload := (payloadSize?_eq_some hs).1
  obtain ⟨hmem, hused⟩ := mem_inUse.1 hb
  obtain ⟨before, after, rfl⟩ := List.append_of_mem hmem
  by_cases hshrink : payload ≤ b.size
  · obtain ⟨m', hok, hr⟩ := resize_shrink hp hw hused hs hshrink
    exact ⟨_, m', _, hok, hw.carve hpayload hr, Room.shrunk (hroom.mono (by omega)) hused⟩
  by_cases hgrow : ∃ c ∈ after.head?, c.free = true ∧ payload ≤ b.size + headerSize + c.size
  · obtain ⟨c, hhead, hfree, hlong⟩ := hgrow
    obtain ⟨rest, rfl⟩ : ∃ rest, after = c :: rest :=
      ⟨after.tail, (List.cons_head?_tail hhead).symm⟩
    obtain ⟨m', hok, hr⟩ := resize_grow hp hw hused hfree hs (by omega) hlong
    exact ⟨_, m', _, hok, hw.grown hused hpayload hr, hroom.grown hused hs⟩
  · rw [resize_move hp hw hused hs (by omega)]
    · exact hroom.moved hp hw hb hs (by omega)
    · intro c hc hfree
      by_contra hle
      exact hgrow ⟨c, hc, hfree, by omega⟩

end EarlyBoot.BlockHeap
