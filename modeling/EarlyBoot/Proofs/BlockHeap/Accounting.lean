import EarlyBoot.Proofs.BlockHeap.Contents
import Mathlib.Algebra.GroupWithZero.Nat
import Mathlib.Data.List.Nodup

/-!
# Space accounting

The statistics of a well-formed heap add up: every byte of the arena is a byte
in use, a free byte, or a byte of a header.  The bytes in use are the usable
bytes of the live pointers, each counted once.  The size of the largest free
block decides which requests are served.
-/

namespace EarlyBoot.BlockHeap

variable {h : BlockHeap} {m : Memory} {blocks : List BlockInfo}

theorem total_eq_sum (sizes : List Nat) : Word.total sizes = sizes.sum := by
  induction sizes with
  | nil => rfl
  | cons n rest ih => rw [Word.total, List.sum_cons, ih]

def freeBlocks (blocks : List BlockInfo) : List BlockInfo := blocks.filter (·.free)

theorem freeBlocks_cons_free {b : BlockInfo} {rest : List BlockInfo} (hfree : b.free = true) :
    freeBlocks (b :: rest) = b :: freeBlocks rest := by
  simp [freeBlocks, hfree]

theorem freeBlocks_cons_used {b : BlockInfo} {rest : List BlockInfo} (hused : b.free = false) :
    freeBlocks (b :: rest) = freeBlocks rest := by
  simp [freeBlocks, hused]

def payloadSum (blocks : List BlockInfo) : Nat := (blocks.map (·.size)).sum

@[simp] theorem payloadSum_cons (b : BlockInfo) (rest : List BlockInfo) :
    payloadSum (b :: rest) = b.size + payloadSum rest := rfl

theorem Tiles.stop_eq {start stop : Nat} (ht : Tiles start stop blocks) :
    stop = start + (payloadSum (inUse blocks) + payloadSum (freeBlocks blocks) +
      headerSize * blocks.length) := by
  induction blocks generalizing start with
  | nil => exact ht.symm
  | cons b rest ih =>
      obtain ⟨hoffset, -, hrest⟩ := ht
      have hsum := ih hrest
      simp only [BlockInfo.stop] at hsum
      rw [List.length_cons, Nat.mul_succ]
      cases hfree : b.free with
      | true =>
          rw [inUse_cons_free hfree, freeBlocks_cons_free hfree, payloadSum_cons]
          omega
      | false =>
          rw [inUse_cons_used hfree, freeBlocks_cons_used hfree, payloadSum_cons]
          omega

theorem WellFormed.stats_eq (hp : h.Placed) (hw : h.WellFormed m blocks) :
    h.stats m = ⟨h.arenaSize, blocks.length, payloadSum (inUse blocks),
      payloadSum (freeBlocks blocks), ((freeBlocks blocks).map (·.size)).foldl max 0⟩ := by
  simp only [stats, hw.blocks_eq hp, total_eq_sum]
  rfl

theorem WellFormed.stats_add_up (hp : h.Placed) (hw : h.WellFormed m blocks) :
    (h.stats m).used + (h.stats m).free + headerSize * (h.stats m).blocks = h.arenaSize := by
  have hstop := hw.tiles.stop_eq
  rw [hw.stats_eq hp]
  simp only
  omega

theorem le_foldl_max {n a : Nat} {sizes : List Nat} :
    n ≤ sizes.foldl max a ↔ n ≤ a ∨ ∃ size ∈ sizes, n ≤ size := by
  induction sizes generalizing a with
  | nil => simp
  | cons size rest ih =>
      have hmax : n ≤ max a size ↔ n ≤ a ∨ n ≤ size := by omega
      rw [List.foldl_cons, ih, hmax]
      simp only [List.mem_cons, exists_eq_or_imp, or_assoc]

theorem WellFormed.le_largestFree (hp : h.Placed) (hw : h.WellFormed m blocks) {payload : Nat}
    (hpos : 0 < payload) :
    payload ≤ (h.stats m).largestFree ↔ ∃ b ∈ blocks, b.free = true ∧ payload ≤ b.size := by
  rw [hw.stats_eq hp, le_foldl_max]
  constructor
  · rintro (hzero | ⟨size, hsize, hle⟩)
    · omega
    · obtain ⟨b, hb, rfl⟩ := List.mem_map.1 hsize
      obtain ⟨hmem, hfree⟩ := List.mem_filter.1 hb
      exact ⟨b, hmem, hfree, hle⟩
  · rintro ⟨b, hb, hfree, hle⟩
    exact .inr ⟨b.size, List.mem_map.2 ⟨b, List.mem_filter.2 ⟨hb, hfree⟩, rfl⟩, hle⟩

theorem allocate_of_payload (hp : h.Placed) (hw : h.WellFormed m blocks) {size payload : Nat}
    (hs : payloadSize? size = some payload) :
    if payload ≤ (h.stats m).largestFree then ∃ p m', h.allocate size m = .ok p m'
    else h.allocate size m = .error (.report (.outOfMemory size)) m := by
  have hpos : 0 < payload := Nat.lt_of_lt_of_le (by decide) (payloadSize?_eq_some hs).2.2
  rcases firstFit_cases blocks payload with hfits | ⟨before, b, after, rfl, hfits, hfree, hroom⟩
  · rw [if_neg]
    · exact allocate_full hp hw hs hfits
    · rw [hw.le_largestFree hp hpos]
      rintro ⟨b, hb, hfree, hroom⟩
      exact absurd (hfits b hb hfree) (Nat.not_lt.2 hroom)
  · rw [if_pos]
    · obtain ⟨m', hok, -⟩ := allocate_fit hp hw hs hfits hfree hroom
      exact ⟨_, m', hok⟩
    · rw [hw.le_largestFree hp hpos]
      exact ⟨b, by simp, hfree, hroom⟩

theorem WellFormed.allocate_predicted (hw : h.WellFormed m blocks) (hp : h.Placed)
    (request : Nat) :
    ((∃ p m', h.allocate request m = .ok p m') ↔
      ∃ payload, Word.roundUp? (max request 1) headerSize = some payload ∧
        payload ≤ (h.stats m).largestFree) ∧
    ∀ stop m', h.allocate request m = .error stop m' → m' = m ∧
      match Word.roundUp? (max request 1) headerSize with
      | none => stop = .report (.sizeOverflow 1 request)
      | some _ => stop = .report (.outOfMemory request) := by
  cases hround : Word.roundUp? (max request 1) headerSize with
  | none =>
      have hfail := allocate_overflow hp hround m
      refine ⟨by simp [hfail], ?_⟩
      intro stop m' herror
      rw [hfail] at herror
      cases herror
      exact ⟨rfl, rfl⟩
  | some payload =>
      have houtcome := allocate_of_payload hp hw hround
      split at houtcome
      · rename_i hle
        obtain ⟨p, m', hok⟩ := houtcome
        exact ⟨iff_of_true ⟨p, m', hok⟩ ⟨payload, rfl, hle⟩, by simp [hok]⟩
      · rename_i hlt
        refine ⟨iff_of_false (by simp [houtcome]) ?_, ?_⟩
        · rintro ⟨_, ⟨⟩, hle⟩
          exact hlt hle
        · intro stop m' herror
          rw [houtcome] at herror
          cases herror
          exact ⟨rfl, rfl⟩

theorem Tiles.nodup_offsets {start stop : Nat} (ht : Tiles start stop blocks) :
    (offsets blocks).Nodup := by
  induction blocks generalizing start with
  | nil => exact List.nodup_nil
  | cons b rest ih => exact List.nodup_cons.2 ⟨ht.offset_not_mem, ih ht.2.2⟩

theorem Tiles.nodup_addresses {start stop : Nat} (ht : Tiles start stop blocks)
    (h : BlockHeap) : ((inUse blocks).map (h.payloadAddress ·.offset)).Nodup := by
  have hoffsets : ((inUse blocks).map (·.offset)).Nodup :=
    ht.nodup_offsets.sublist (List.filter_sublist.map _)
  have haddresses := List.Nodup.map (f := h.payloadAddress)
    (fun _ _ => Session.payloadAddress_inj.1) hoffsets
  rwa [List.map_map] at haddresses

namespace Session

variable {s : Session}

theorem Sound.nodup_after_call (hs : s.Sound blocks) (hnodup : s.live.Nodup) {call : Call}
    {m' : Memory} {blocks' : List BlockInfo} {gone new : Option BlockInfo}
    (hc : call.Succeeds s.heap s.memory blocks m' blocks' gone new) :
    (s.after (.call call)).live.Nodup := by
  rw [(after_of_ok hc.performed).2]
  have hkept := hnodup.filter fun p => decide (call.givenBack ≠ some p)
  cases new with
  | none => exact hkept
  | some d =>
      refine List.nodup_cons.2 ⟨?_, hkept⟩
      intro hmem
      obtain ⟨hlive, hback⟩ := List.mem_filter.1 hmem
      obtain ⟨e, he, haddress⟩ := (hs.mem_live _).1 hlive
      have hgone : e ∉ gone := by
        intro hgone
        rw [← haddress, (hs.givenBack_iff hc he).2 hgone] at hback
        simp at hback
      exact hc.fresh d rfl e he hgone (payloadAddress_inj.1 haddress)

theorem Sound.nodup_after (hs : s.Sound blocks) (hnodup : s.live.Nodup) {action : Action}
    (hhonest : s.Honest action) : (s.after action).live.Nodup := by
  cases action with
  | call call =>
      rcases hs.call hhonest with ⟨error, -, hfail⟩ | ⟨m', blocks', gone, new, hc⟩
      · rw [(after_of_error hfail).2]
        exact hnodup
      · exact hs.nodup_after_call hnodup hc
  | setSplitFactor splitFactor => exact hnodup
  | write address bytes => exact hnodup

theorem Sound.perm_live (hs : s.Sound blocks) (hnodup : s.live.Nodup) :
    s.live.Perm ((inUse blocks).map (s.heap.payloadAddress ·.offset)) := by
  rw [List.perm_ext_iff_of_nodup hnodup (hs.wellFormed.tiles.nodup_addresses s.heap)]
  intro p
  rw [hs.mem_live, List.mem_map]

theorem mapM_eq_ok {α β ε : Type} {f : α → Except ε β} {g : α → β} {xs : List α}
    (heq : ∀ x ∈ xs, f x = .ok (g x)) : xs.mapM f = .ok (xs.map g) := by
  induction xs with
  | nil => rfl
  | cons x rest ih =>
      rw [List.mapM_cons, heq x (by simp), ih fun y hy => heq y (by simp [hy])]
      rfl

theorem Sound.usable_sum (hs : s.Sound blocks) (hnodup : s.live.Nodup) :
    ∃ sizes, s.live.mapM (s.heap.usableSize s.memory) = .ok sizes ∧
      sizes.sum = payloadSum (inUse blocks) := by
  let size (p : Nat) : Nat := (s.heap.usableSize s.memory p).toOption.getD 0
  have hsize : ∀ b ∈ inUse blocks, size (s.heap.payloadAddress b.offset) = b.size := by
    intro b hb
    simp only [size, hs.usableSize_eq hb]
    rfl
  refine ⟨s.live.map size, mapM_eq_ok ?_, ?_⟩
  · intro p hp
    obtain ⟨b, hb, rfl⟩ := (hs.mem_live p).1 hp
    rw [hsize b hb, hs.usableSize_eq hb]
  · rw [((hs.perm_live hnodup).map size).sum_nat, List.map_map]
    exact congrArg List.sum (List.map_congr_left hsize)

theorem Reaches.accounted {h₀ h : BlockHeap} {start size : Nat} {m₀ m : Memory} {s : Session}
    (hrun : Reaches Honest ⟨h, m, []⟩ s) (hregion : start + size ≤ Word.limit)
    (hinit : h₀.init start size m₀ = .ok h m) : (∃ blocks, s.Sound blocks) ∧ s.live.Nodup := by
  apply hrun.invariant (P := fun s => (∃ blocks, s.Sound blocks) ∧ s.live.Nodup)
  · exact ⟨⟨_, sound_of_init hregion hinit⟩, List.nodup_nil⟩
  · rintro t action ⟨⟨blocks, hs⟩, hnodup⟩ hhonest
    exact ⟨hs.after hhonest, hs.nodup_after hnodup hhonest⟩

/--
In every state that an honest run reaches, the statistics account for every byte
of the arena and for every live pointer, and the largest free block tells which
requests are served and how the others fail.
-/
theorem stats_account_and_predict {h₀ h : BlockHeap} {start size : Nat} {m₀ m : Memory}
    {s : Session} (hregion : start + size ≤ Word.limit)
    (hinit : h₀.init start size m₀ = .ok h m) (hrun : Reaches Honest ⟨h, m, []⟩ s) :
    let stats := s.heap.stats s.memory
    stats.used + stats.free + headerSize * stats.blocks = s.heap.arenaSize ∧
      s.live.Nodup ∧
      (∃ sizes, s.live.mapM (s.heap.usableSize s.memory) = .ok sizes ∧
        stats.used = sizes.sum) ∧
      ∀ request,
        ((∃ p m', s.heap.allocate request s.memory = .ok p m') ↔
          ∃ payload, Word.roundUp? (max request 1) headerSize = some payload ∧
            payload ≤ stats.largestFree) ∧
        ∀ stop m', s.heap.allocate request s.memory = .error stop m' → m' = s.memory ∧
          match Word.roundUp? (max request 1) headerSize with
          | none => stop = .report (.sizeOverflow 1 request)
          | some _ => stop = .report (.outOfMemory request) := by
  intro stats
  obtain ⟨⟨blocks, hs⟩, hnodup⟩ := hrun.accounted hregion hinit
  obtain ⟨sizes, hsizes, hsum⟩ := hs.usable_sum hnodup
  refine ⟨hs.wellFormed.stats_add_up hs.placed, hnodup, ⟨sizes, hsizes, ?_⟩,
    fun request => hs.wellFormed.allocate_predicted hs.placed request⟩
  rw [hsum]
  exact congrArg HeapStats.used (hs.wellFormed.stats_eq hs.placed)

theorem accounts_after_one_allocation :
    let s := smallSession.after (.call (.allocate 40))
    Reaches Honest smallSession s ∧
      s.heap.stats s.memory = ⟨256, 2, 64, 128, 128⟩ ∧
      s.live.mapM (s.heap.usableSize s.memory) = .ok [64] ∧
      (∃ p m', s.heap.allocate 128 s.memory = .ok p m') ∧
      ¬ (∃ p m', s.heap.allocate 129 s.memory = .ok p m') ∧
      (s.heap.stats s.memory).used + (s.heap.stats s.memory).free +
        headerSize * (s.heap.stats s.memory).blocks = s.heap.arenaSize := by
  intro s
  have hallocate : smallSession.Honest (.call (.allocate 40)) := by
    intro p hp
    cases hp
  have hrun : Reaches Honest smallSession s := Reaches.refl.step hallocate
  have hstats : s.heap.stats s.memory = ⟨256, 2, 64, 128, 128⟩ := by decide +kernel
  obtain ⟨hsum, -, -, hserved⟩ :=
    stats_account_and_predict (by decide) init_smallSession hrun
  refine ⟨hrun, hstats, by decide +kernel, (hserved 128).1.2 ⟨128, by decide, ?_⟩, ?_, hsum⟩
  · rw [hstats]
  · rw [(hserved 129).1, hstats]
    rintro ⟨payload, hround, hle⟩
    have hpayload : payload = 160 := Option.some.inj (hround.symm.trans (by decide))
    exact absurd (hpayload ▸ hle) (by decide)

end Session

end EarlyBoot.BlockHeap
