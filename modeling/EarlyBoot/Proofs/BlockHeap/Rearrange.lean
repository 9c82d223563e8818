import EarlyBoot.Proofs.BlockHeap.Layout

/-!
# Rearranging lists of blocks

What the operations do to the list of blocks, apart from memory.  `push` puts a
block in front of others and melts two free neighbours into one; `merged`
repeats that over a whole list.  `carve` takes a block into use and turns what
is left of it into a free block if that is worth it.  All of them keep the
blocks back to back, leave no free neighbours and do not touch other blocks in
use.
-/

namespace EarlyBoot.BlockHeap

variable {start stop : Nat} {b c : BlockInfo} {blocks before after rest : List BlockInfo}

def push (b : BlockInfo) : List BlockInfo → List BlockInfo
  | [] => [b]
  | c :: rest =>
      if b.free = true ∧ c.free = true then
        { b with size := b.size + headerSize + c.size } :: rest
      else b :: c :: rest

def merged (blocks : List BlockInfo) : List BlockInfo := blocks.foldr push []

def leftover (b : BlockInfo) (payload : Nat) : BlockInfo :=
  ⟨b.offset + headerSize + payload, b.size - payload - headerSize, true⟩

@[simp] theorem leftover_offset (b : BlockInfo) (payload : Nat) :
    (leftover b payload).offset = b.offset + headerSize + payload := rfl

def carve (h : BlockHeap) (b : BlockInfo) (payload : Nat) (after : List BlockInfo) :
    List BlockInfo :=
  if Word.saturatingMul h.splitFactor headerSize < b.size - payload then
    ⟨b.offset, payload, false⟩ :: push (leftover b payload) after
  else { b with free := false } :: after

def inUse (blocks : List BlockInfo) : List BlockInfo := blocks.filter fun b => !b.free

theorem mem_inUse : b ∈ inUse blocks ↔ b ∈ blocks ∧ b.free = false := by
  simp [inUse]

@[simp] theorem inUse_append (blocks blocks' : List BlockInfo) :
    inUse (blocks ++ blocks') = inUse blocks ++ inUse blocks' :=
  List.filter_append _ _

theorem inUse_cons_free (hfree : b.free = true) : inUse (b :: rest) = inUse rest := by
  simp [inUse, hfree]

theorem inUse_cons_used (hfree : b.free = false) : inUse (b :: rest) = b :: inUse rest := by
  simp [inUse, hfree]

theorem push_of_apart (hhead : ∀ c ∈ rest.head?, ¬ (b.free = true ∧ c.free = true)) :
    push b rest = b :: rest := by
  cases rest with
  | nil => rfl
  | cons c rest => rw [push, if_neg (hhead c (by simp))]

theorem push_of_used (hused : b.free = false) : push b rest = b :: rest :=
  push_of_apart fun _ _ hfree => by simp [hused] at hfree

theorem push_of_free (hb : b.free = true) (hc : c.free = true) :
    push b (c :: rest) = { b with size := b.size + headerSize + c.size } :: rest := by
  rw [push, if_pos ⟨hb, hc⟩]

theorem Tiles.join_stop (ht : Tiles start stop (b :: c :: rest)) :
    ({ b with size := b.size + headerSize + c.size } : BlockInfo).stop = c.stop := by
  have hoffset := ht.2.2.1
  simp only [BlockInfo.stop] at *
  omega

theorem Tiles.join (ht : Tiles start stop (b :: c :: rest)) :
    Tiles start stop ({ b with size := b.size + headerSize + c.size } :: rest) := by
  have hstop := ht.join_stop
  obtain ⟨hoffset, hsize, -, hsize', hrest⟩ := ht
  refine ⟨hoffset, ?_, by rw [hstop]; exact hrest⟩
  simp only [headerSize] at *
  omega

theorem Tiles.push (ht : Tiles start stop (b :: rest)) : Tiles start stop (push b rest) := by
  cases rest with
  | nil => exact ht
  | cons c rest =>
      by_cases hfree : b.free = true ∧ c.free = true
      · rw [push_of_free hfree.1 hfree.2]
        exact ht.join
      · rw [push_of_apart (by simpa using hfree)]
        exact ht

theorem Coalesced.push (hc : Coalesced rest) : Coalesced (push b rest) := by
  cases rest with
  | nil => exact List.isChain_singleton b
  | cons c rest =>
      by_cases hfree : b.free = true ∧ c.free = true
      · rw [push_of_free hfree.1 hfree.2]
        apply List.isChain_cons.2
        obtain ⟨hhead, hrest⟩ := List.isChain_cons.1 hc
        refine ⟨fun d hd => ?_, hrest⟩
        have := hhead d hd
        simpa [hfree.1, hfree.2] using this
      · rw [push_of_apart (by simpa using hfree)]
        exact List.isChain_cons_cons.2 ⟨hfree, hc⟩

theorem inUse_push : inUse (push b rest) = inUse (b :: rest) := by
  cases rest with
  | nil => rfl
  | cons c rest =>
      by_cases hfree : b.free = true ∧ c.free = true
      · rw [push_of_free hfree.1 hfree.2, inUse_cons_free (by exact hfree.1),
          inUse_cons_free hfree.1, inUse_cons_free hfree.2]
      · rw [push_of_apart (by simpa using hfree)]

theorem offsets_push_subset : offsets (push b rest) ⊆ b.offset :: offsets rest := by
  cases rest with
  | nil => simp [push]
  | cons c rest =>
      by_cases hfree : b.free = true ∧ c.free = true
      · rw [push_of_free hfree.1 hfree.2]
        intro o ho
        simp only [offsets_cons, List.mem_cons] at ho ⊢
        rcases ho with ho | ho
        · exact .inl ho
        · exact .inr (.inr ho)
      · rw [push_of_apart (by simpa using hfree), offsets_cons]
        exact List.Subset.refl _

theorem foldr_push_of_coalesced (hc : Coalesced (before ++ [b])) :
    before.foldr push (b :: rest) = before ++ b :: rest := by
  induction before with
  | nil => rfl
  | cons d before ih =>
      obtain ⟨hhead, hbefore⟩ := List.isChain_cons.1 hc
      rw [List.foldr_cons, ih hbefore, push_of_apart]
      · rfl
      · intro c hc
        apply hhead c
        cases before with
        | nil => simpa using hc
        | cons e before => simpa using hc

theorem merged_of_coalesced (hc : Coalesced blocks) : merged blocks = blocks := by
  induction blocks with
  | nil => rfl
  | cons b rest ih =>
      obtain ⟨hhead, hrest⟩ := List.isChain_cons.1 hc
      change push b (merged rest) = b :: rest
      rw [ih hrest, push_of_apart hhead]

theorem merged_around (hc : Coalesced after) :
    merged (before ++ b :: after) = before.foldr push (push b after) := by
  have hkept := merged_of_coalesced hc
  unfold merged at hkept ⊢
  rw [List.foldr_append, List.foldr_cons, hkept]

theorem Tiles.foldr_push (ht : Tiles start stop (before ++ rest)) :
    Tiles start stop (before.foldr BlockHeap.push rest) := by
  induction before generalizing start with
  | nil => exact ht
  | cons b before ih =>
      obtain ⟨hoffset, hsize, hrest⟩ := ht
      have hblocks : Tiles start stop (b :: before.foldr BlockHeap.push rest) :=
        ⟨hoffset, hsize, ih hrest⟩
      exact hblocks.push

theorem Tiles.merged (ht : Tiles start stop blocks) : Tiles start stop (merged blocks) := by
  rw [← List.append_nil blocks] at ht
  exact ht.foldr_push

theorem coalesced_merged (blocks : List BlockInfo) : Coalesced (merged blocks) := by
  induction blocks with
  | nil => exact List.isChain_nil
  | cons b rest ih => exact ih.push

theorem inUse_merged (blocks : List BlockInfo) : inUse (merged blocks) = inUse blocks := by
  induction blocks with
  | nil => rfl
  | cons b rest ih =>
      change inUse (push b (merged rest)) = _
      rw [inUse_push]
      cases hfree : b.free with
      | false => rw [inUse_cons_used hfree, inUse_cons_used hfree, ih]
      | true => rw [inUse_cons_free hfree, inUse_cons_free hfree, ih]

theorem Coalesced.mark_used (hc : Coalesced (before ++ b :: after)) {o size : Nat} :
    Coalesced (before ++ ⟨o, size, false⟩ :: after) := by
  obtain ⟨hbefore, hafter, hseam⟩ := List.isChain_append.1 hc
  apply List.isChain_append.2
  refine ⟨hbefore, ?_, ?_⟩
  · exact List.isChain_cons.2 ⟨by simp, (List.isChain_cons.1 hafter).2⟩
  · simp

theorem Coalesced.join_used (hc : Coalesced (before ++ b :: c :: rest)) (hused : b.free = false)
    {size : Nat} : Coalesced (before ++ { b with size } :: rest) := by
  obtain ⟨hbefore, hb, -⟩ := List.isChain_append.1 hc
  have hrest : Coalesced rest := (List.isChain_cons.1 (List.isChain_cons.1 hb).2).2
  apply List.isChain_append.2
  refine ⟨hbefore, ?_, ?_⟩
  · exact List.isChain_cons.2 ⟨by simp [hused], hrest⟩
  · simp [hused]

variable {h : BlockHeap} {payload : Nat}

theorem Tiles.leftover (hpayload : payload % headerSize = 0)
    (hroom : payload + headerSize ≤ b.size) (ht : Tiles start stop (b :: after)) :
    Tiles (b.offset + headerSize + payload) stop (leftover b payload :: after) := by
  obtain ⟨-, hsize, hafter⟩ := ht
  refine ⟨rfl, ?_, ?_⟩
  · simp only [BlockHeap.leftover, headerSize] at *
    omega
  · convert hafter using 1
    simp only [BlockHeap.leftover, BlockInfo.stop]
    omega

theorem header_fits {size threshold : Nat} (hpayload : payload % headerSize = 0)
    (hsize : size % headerSize = 0) (hsplit : threshold < size - payload) :
    payload + headerSize ≤ size := by
  -- the difference is a multiple of the header size, and positive
  simp only [headerSize] at *
  omega

theorem Tiles.carve (hpayload : payload % headerSize = 0) (ht : Tiles start stop (b :: after)) :
    Tiles start stop (h.carve b payload after) := by
  unfold BlockHeap.carve
  split
  · rename_i hsplit
    have hroom := header_fits hpayload ht.2.1 hsplit
    exact ⟨ht.1, hpayload, (ht.leftover hpayload hroom).push⟩
  · exact ht

theorem Coalesced.carve (hc : Coalesced (before ++ b :: after)) :
    Coalesced (before ++ h.carve b payload after) := by
  unfold BlockHeap.carve
  split
  · have hafter : Coalesced after := (List.isChain_cons.1 (List.isChain_append.1 hc).2.1).2
    apply List.isChain_append.2
    refine ⟨(List.isChain_append.1 hc).1, ?_, by simp⟩
    exact List.isChain_cons.2 ⟨by simp, hafter.push⟩
  · exact hc.mark_used

theorem inUse_carve : ∃ size, inUse (h.carve b payload after) =
    ⟨b.offset, size, false⟩ :: inUse after ∧ (payload ≤ b.size → payload ≤ size) := by
  unfold carve
  split
  · refine ⟨payload, ?_, fun _ => Nat.le_refl _⟩
    rw [inUse_cons_used rfl, inUse_push, inUse_cons_free rfl]
  · exact ⟨b.size, inUse_cons_used rfl, fun hroom => hroom⟩

end EarlyBoot.BlockHeap
