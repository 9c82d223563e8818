import EarlyBoot.Proofs.HeapRequest
import EarlyBoot.Proofs.HeapVec.Elements
import Mathlib.Algebra.Group.Nat.Defs

/-!
# Operations on a vector

A vector holds one pointer of the heap, or none before its first growth.  Each
of its operations is the work of an honest client that holds just that pointer,
so all other blocks are spared.  When the vector grows, its elements are found
again where the heap has put them, be it in the block extended in place or in a
new one.
-/

namespace EarlyBoot

open BlockHeap (inUse alignment Call)
open BlockHeap.Session (Shares Spares)

namespace HeapVec

variable {α : Type} [Stored α] {v : HeapVec α} {f : Firmware} {h : BlockHeap} {m m' : Memory}
  {blocks blocks' : List BlockInfo} {bytes : Nat}

def pointers (v : HeapVec α) : List Nat := if v.capacity = 0 then [] else [v.address]

omit [Stored α] in
theorem mem_pointers {p : Nat} : p ∈ v.pointers ↔ v.capacity ≠ 0 ∧ p = v.address := by
  unfold pointers
  split <;> simp_all

/-- The vector fits into a block in use that is found at its address. -/
structure Backed (h : BlockHeap) (blocks : List BlockInfo) (v : HeapVec α) : Prop where
  length_le : v.length ≤ v.capacity
  capacity_eq : v.capacity = 0 ∨ ∃ k, v.capacity = minCapacity * 2 ^ k
  block : v.capacity ≠ 0 → ∃ b ∈ inUse blocks, h.payloadAddress b.offset = v.address ∧
    v.capacity * Stored.size α ≤ b.size

theorem Backed.shares (hv : v.Backed h blocks) (hp : h.Placed) (hw : h.WellFormed m blocks) :
    Shares ⟨h, m, v.pointers⟩ blocks := by
  refine ⟨hp, hw, ?_⟩
  intro p hmem
  obtain ⟨hcapacity, rfl⟩ := mem_pointers.1 hmem
  obtain ⟨b, hb, haddress, -⟩ := hv.block hcapacity
  exact ⟨b, hb, haddress⟩

theorem Backed.elements_fit (hv : v.Backed h blocks) :
    v.length * Stored.size α ≤ v.capacity * Stored.size α :=
  Nat.mul_le_mul_right _ hv.length_le

theorem Backed.kept {s s' : BlockHeap.Session} (hv : v.Backed s.heap blocks)
    (hspares : s.Spares s' blocks blocks') (hfree : ∀ p ∈ v.pointers, p ∉ s.live) :
    v.Backed s'.heap blocks' ∧ v.toList s'.memory = v.toList s.memory ∧
      ∀ p ∈ v.pointers, p ∉ s'.live := by
  by_cases hcapacity : v.capacity = 0
  · have hlength : v.length = 0 := by
      have := hv.length_le
      omega
    refine ⟨⟨hv.length_le, hv.capacity_eq, fun hne => absurd hcapacity hne⟩, ?_, ?_⟩
    · rw [toList_eq_nil hlength, toList_eq_nil hlength]
    · simp [pointers, hcapacity]
  · obtain ⟨b, hb, haddress, hroom⟩ := hv.block hcapacity
    obtain ⟨hb', hfree', hread⟩ :=
      hspares.kept b hb (haddress ▸ hfree _ (mem_pointers.2 ⟨hcapacity, rfl⟩))
    have haddress' : s'.heap.payloadAddress b.offset = v.address := by
      rw [← haddress, BlockHeap.payloadAddress, BlockHeap.payloadAddress, hspares.base_eq]
    refine ⟨⟨hv.length_le, hv.capacity_eq, fun _ => ⟨b, hb', haddress', hroom⟩⟩, ?_, ?_⟩
    · apply toList_shift rfl
      intro k hk
      have hfit := hv.elements_fit
      rw [← haddress]
      exact hread _ (BlockHeap.inPayload_add (by omega))
    · intro p hmem
      obtain ⟨-, rfl⟩ := mem_pointers.1 hmem
      exact haddress ▸ hfree'

theorem nextCapacity_cases (hcapacity : v.capacity = 0 ∨ ∃ k, v.capacity = minCapacity * 2 ^ k)
    (halign : Stored.align α ≤ alignment) :
    (∃ count size, v.nextCapacity = .error (.sizeOverflow count size)) ∨
      ∃ capacity, v.nextCapacity = .ok (capacity, capacity * Stored.size α) ∧
        v.capacity < capacity ∧ ∃ k, capacity = minCapacity * 2 ^ k := by
  have hdoubled : ∀ capacity, (if v.capacity = 0 then some minCapacity
      else Word.mul? v.capacity 2) = some capacity →
        v.capacity < capacity ∧ ∃ k, capacity = minCapacity * 2 ^ k := by
    intro capacity heq
    split at heq
    · rename_i hzero
      cases heq
      exact ⟨by rw [hzero]; decide, 0, rfl⟩
    · rename_i hpos
      obtain ⟨rfl, -⟩ := Word.mul?_eq_some.1 heq
      obtain ⟨k, hk⟩ := hcapacity.resolve_left hpos
      exact ⟨by omega, k + 1, by rw [hk, Nat.pow_succ, Nat.mul_assoc]⟩
  unfold nextCapacity
  rw [if_neg (Nat.not_lt.2 halign)]
  split
  · exact .inl ⟨_, _, rfl⟩
  · rename_i capacity heq
    split
    · exact .inl ⟨_, _, rfl⟩
    · rename_i bytes hbytes
      obtain ⟨rfl, -⟩ := Word.mul?_eq_some.1 hbytes
      exact .inr ⟨capacity, rfl, hdoubled capacity heq⟩

/-! ## The request -/

def growthCall (v : HeapVec α) (bytes : Nat) : Call :=
  if v.capacity = 0 then .allocate bytes else .resize v.address bytes

omit [Stored α] in
theorem toList_givenBack (v : HeapVec α) (bytes : Nat) :
    (v.growthCall bytes).givenBack.toList = v.pointers := by
  unfold growthCall pointers
  split <;> rfl

def growthRequest (v : HeapVec α) (bytes : Nat) : FirmwareM (Except HeapError Nat) :=
  if v.capacity = 0 then Heap.malloc bytes else Heap.realloc v.address bytes

theorem grow_eq {capacity : Nat} (hnext : v.nextCapacity = .ok (capacity, bytes)) :
    v.grow = (do
      let result ← v.growthRequest bytes
      pure (result.map fun address => { v with address, capacity })) := by
  unfold grow growthRequest
  rw [hnext]
  dsimp only
  split <;> rfl

omit [Stored α] in
theorem growthRequest_of_ok {given : Option Nat}
    (hok : (v.growthCall bytes).perform f.heap f.memory = .ok given m') :
    ∃ p ∈ given, v.growthRequest bytes f = .ok (.ok p) { f with memory := m' } := by
  unfold growthCall at hok
  unfold growthRequest
  split
  · rename_i hcapacity
    rw [if_pos hcapacity] at hok
    obtain ⟨p, hp, hallocate⟩ := Heap.some_of_ok hok
    exact ⟨p, hp, Heap.malloc_of_ok hallocate⟩
  · rename_i hcapacity
    rw [if_neg hcapacity] at hok
    obtain ⟨p, hp, hresize⟩ := Heap.some_of_ok hok
    exact ⟨p, hp, Heap.onHeap_of_ok (·.resize v.address bytes) hresize⟩

omit [Stored α] in
theorem growthRequest_of_report {error : HeapError} (hp : f.heap.Placed)
    (hrecoverable : error.isFatal = false)
    (hfail : (v.growthCall bytes).perform f.heap f.memory = .error (.report error) f.memory) :
    ∃ f', v.growthRequest bytes f = .ok (.error error) f' ∧ f.Untouched f' ∧
      error.IsExhaustion := by
  unfold growthCall at hfail
  unfold growthRequest
  split
  · rename_i hcapacity
    rw [if_pos hcapacity] at hfail
    have hallocate := Heap.eq_error_of_some hfail
    obtain ⟨f', hrun, huntouched⟩ := Heap.malloc_of_report hallocate
    exact ⟨f', hrun, huntouched, Heap.exhaustion_of_declines hp
      (BlockHeap.allocate_declines _ _ _ error _ hallocate) hrecoverable⟩
  · rename_i hcapacity
    rw [if_neg hcapacity] at hfail
    have hresize := Heap.eq_error_of_some hfail
    refine ⟨_, Heap.onHeap_of_report (·.resize v.address bytes) hresize,
      ⟨rfl, rfl, rfl⟩, Heap.exhaustion_of_declines hp
        (BlockHeap.resize_declines _ _ _ _ error _ hresize) hrecoverable⟩

/-- Why a vector does not grow: its capacity cannot be counted, or the heap refuses the bytes. -/
inductive Stuck (v : HeapVec α) (f : Firmware) (error : HeapError) : Prop
  | uncountable (hnext : v.nextCapacity = .error error)
  | refused {capacity bytes : Nat} {f' : Firmware} (hnext : v.nextCapacity = .ok (capacity, bytes))
      (hrequest : v.growthRequest bytes f = .ok (.error error) f')

/-- The vector has become `v'`, which stands for `xs`; blocks that it did not hold are spared. -/
structure Becomes (v : HeapVec α) (f : Firmware) (blocks : List BlockInfo) (v' : HeapVec α)
    (f' : Firmware) (blocks' : List BlockInfo) (xs : List α) : Prop where
  backed : v'.Backed f'.heap blocks'
  elements : v'.toList f'.memory = xs
  spares : Spares ⟨f.heap, f.memory, v.pointers⟩ ⟨f'.heap, f'.memory, v'.pointers⟩ blocks blocks'

theorem promise_of_resize {p newSize : Nat} {gone new : Option BlockInfo}
    (hpromise : (Call.resize p newSize).Promise h m m' gone new) :
    ∃ b d, gone = some b ∧ new = some d ∧ h.payloadAddress b.offset = p ∧ newSize ≤ d.size ∧
      ∀ i, i < b.size → i < newSize →
        m'.read (h.payloadAddress d.offset + i) = m.read (h.payloadAddress b.offset + i) := by
  generalize hcall : Call.resize p newSize = call at hpromise
  cases hpromise with
  | resize hroom hkept =>
      cases hcall
      exact ⟨_, _, rfl, rfl, rfl, hroom, hkept⟩
  | _ => cases hcall

theorem Backed.elements_moved (hv : v.Backed h blocks) (v' : HeapVec α)
    (hw : h.WellFormed m blocks) {d : BlockInfo} {gone : Option BlockInfo}
    (hpromise : (v.growthCall bytes).Promise h m m' gone (some d))
    (hgone : ∀ b ∈ gone, b ∈ inUse blocks) (haddress : h.payloadAddress d.offset = v'.address)
    (hlength : v'.length = v.length) (hbytes : v.capacity * Stored.size α ≤ bytes) :
    bytes ≤ d.size ∧ v'.toList m' = v.toList m := by
  unfold growthCall at hpromise
  split at hpromise
  · rename_i hcapacity
    -- before the first growth there are no elements
    have hnone : v.length = 0 := by
      have := hv.length_le
      omega
    cases hpromise with
    | allocate hroom =>
        exact ⟨hroom, by rw [toList_eq_nil (hlength.trans hnone), toList_eq_nil hnone]⟩
  · rename_i hcapacity
    obtain ⟨c, hc, hplace, hroom⟩ := hv.block hcapacity
    obtain ⟨b, _, rfl, hnew, hback, hlarge, hkept⟩ := promise_of_resize hpromise
    cases hnew
    obtain rfl := hw.tiles.eq_of_offset (BlockHeap.mem_inUse.1 (hgone b rfl)).1
      (BlockHeap.mem_inUse.1 hc).1
      (BlockHeap.Session.payloadAddress_inj.1 (hback.trans hplace.symm))
    refine ⟨hlarge, toList_shift hlength ?_⟩
    intro k hk
    have hfit := hv.elements_fit
    rw [← haddress, ← hplace]
    exact hkept k (by omega) (by omega)

theorem Backed.grown (hv : v.Backed f.heap blocks) (hw : f.heap.WellFormed f.memory blocks)
    {capacity : Nat} (hlt : v.capacity < capacity) (hdoubled : ∃ k, capacity = minCapacity * 2 ^ k)
    {d : BlockInfo} {gone : Option BlockInfo}
    (hc : (v.growthCall (capacity * Stored.size α)).Succeeds f.heap f.memory blocks m' blocks' gone
      (some d))
    (hspares : Spares ⟨f.heap, f.memory, v.pointers⟩
      (BlockHeap.Session.after ⟨f.heap, f.memory, v.pointers⟩
        (.call (v.growthCall (capacity * Stored.size α)))) blocks blocks') :
    v.Becomes f blocks { v with address := f.heap.payloadAddress d.offset, capacity }
      { f with memory := m' } blocks' (v.toList f.memory) := by
  let v' : HeapVec α := { v with address := f.heap.payloadAddress d.offset, capacity }
  have hpointers : v'.pointers = [f.heap.payloadAddress d.offset] :=
    if_neg (Nat.ne_zero_of_lt hlt)
  have hbytes : v.capacity * Stored.size α ≤ capacity * Stored.size α :=
    Nat.mul_le_mul_right _ (Nat.le_of_lt hlt)
  obtain ⟨hroom, helements⟩ := hv.elements_moved v' hw hc.promise hc.mem_gone rfl rfl hbytes
  have hd := (hc.effect.mem_inUse d).2 (.inl rfl)
  have hlength := Nat.le_trans hv.length_le (Nat.le_of_lt hlt)
  refine ⟨⟨hlength, .inr hdoubled, fun _ => ⟨d, hd, rfl, hroom⟩⟩, helements, ?_⟩
  have hback := v.toList_givenBack (capacity * Stored.size α)
  have hlive : v.pointers.filter (fun p => decide
      ((v.growthCall (capacity * Stored.size α)).givenBack ≠ some p)) = [] := by
    rw [List.filter_eq_nil_iff, ← hback]
    intro p hmem
    simp [Option.mem_toList.1 hmem]
  rw [(BlockHeap.Session.after_of_ok hc.performed).2, hlive] at hspares
  change Spares _ ⟨_, _, v'.pointers⟩ _ _
  rw [hpointers]
  exact hspares

theorem Backed.grow (hv : v.Backed f.heap blocks) (hp : f.heap.Placed)
    (hw : f.heap.WellFormed f.memory blocks) (halign : Stored.align α ≤ alignment) :
    (∃ error f', v.grow f = .ok (.error error) f' ∧ f.Untouched f' ∧ error.IsExhaustion ∧
      v.Stuck f error) ∨
    ∃ v' f' blocks', v.grow f = .ok (.ok v') f' ∧ v'.length = v.length ∧
      v.length < v'.capacity ∧ v.Becomes f blocks v' f' blocks' (v.toList f.memory) := by
  rcases nextCapacity_cases hv.capacity_eq halign with
    ⟨count, size, hnext⟩ | ⟨capacity, hnext, hlt, hdoubled⟩
  · refine .inl ⟨.sizeOverflow count size, f, ?_, ⟨rfl, rfl, rfl⟩, .sizeOverflow,
      .uncountable hnext⟩
    unfold HeapVec.grow
    rw [hnext]
    rfl
  rw [grow_eq hnext]
  have hshares := hv.shares hp hw
  have hhonest : BlockHeap.Session.Honest ⟨f.heap, f.memory, v.pointers⟩
      (.call (v.growthCall (capacity * Stored.size α))) := by
    intro p hmem
    rw [← v.toList_givenBack (capacity * Stored.size α)]
    exact Option.mem_toList.2 hmem
  rcases hshares.call hhonest with
    ⟨error, hrecoverable, hfail⟩ | ⟨m', blocks', gone, new, hc, hspares⟩
  · obtain ⟨f', hrequest, huntouched, hexhausted⟩ :=
      growthRequest_of_report hp hrecoverable hfail
    exact .inl ⟨error, f', bind_of_answer hrequest, huntouched, hexhausted,
      .refused hnext hrequest⟩
  · obtain ⟨p, hgiven, hrequest⟩ := growthRequest_of_ok hc.performed
    obtain ⟨d, rfl, rfl⟩ := Option.map_eq_some_iff.1 hgiven
    exact .inr ⟨_, _, blocks', bind_of_answer hrequest, rfl,
      Nat.lt_of_le_of_lt hv.length_le hlt, hv.grown hw hlt hdoubled hc hspares⟩

/-! ## Operations -/

theorem Becomes.trans {v₁ v₂ : HeapVec α} {f₁ f₂ : Firmware} {blocks₁ blocks₂ : List BlockInfo}
    {xs ys : List α} (h : v.Becomes f blocks v₁ f₁ blocks₁ xs)
    (h' : v₁.Becomes f₁ blocks₁ v₂ f₂ blocks₂ ys) : v.Becomes f blocks v₂ f₂ blocks₂ ys :=
  ⟨h'.backed, h'.elements, h.spares.trans h'.spares⟩

theorem Backed.reserve (hv : v.Backed f.heap blocks) (hp : f.heap.Placed)
    (hw : f.heap.WellFormed f.memory blocks) (halign : Stored.align α ≤ alignment) :
    (v.length = v.capacity ∧ ∃ error f', v.reserve f = .ok (.error error) f' ∧
      f.Untouched f' ∧ error.IsExhaustion ∧ v.Stuck f error) ∨
    ∃ v' f' blocks', v.reserve f = .ok (.ok v') f' ∧ v'.length = v.length ∧
      v.length < v'.capacity ∧ v.Becomes f blocks v' f' blocks' (v.toList f.memory) := by
  unfold HeapVec.reserve
  by_cases hfull : v.length = v.capacity
  · rw [if_pos hfull]
    rcases hv.grow hp hw halign with hrefused | hgrown
    · exact .inl ⟨hfull, hrefused⟩
    · exact .inr hgrown
  · rw [if_neg hfull]
    have hle := hv.length_le
    exact .inr ⟨v, f, blocks, rfl, rfl, by omega, hv, rfl, (hv.shares hp hw).refl⟩

theorem Backed.write (hv : v.Backed f.heap blocks) (hp : f.heap.Placed)
    (hw : f.heap.WellFormed f.memory blocks) {index : Nat} (hindex : index < v.capacity) (x : α) :
    Spares ⟨f.heap, f.memory, v.pointers⟩
      ⟨f.heap, f.memory.writeBytes (v.elementAddress index) (Stored.encode x), v.pointers⟩
      blocks blocks := by
  obtain ⟨b, hb, haddress, hroom⟩ := hv.block (by omega)
  apply (hv.shares hp hw).write
  refine ⟨v.address, mem_pointers.2 ⟨by omega, rfl⟩, Nat.le_add_right _ _, b.size, ?_, ?_⟩
  · rw [← haddress]
    exact BlockHeap.usableSize_ok hp hw (BlockHeap.mem_inUse.1 hb).1 (BlockHeap.mem_inUse.1 hb).2
  · have hend := end_le_of_lt (α := α) hindex
    rw [Stored.length_encode, elementAddress]
    omega

theorem Backed.set (hv : v.Backed f.heap blocks) (hp : f.heap.Placed)
    (hw : f.heap.WellFormed f.memory blocks) {index : Nat} (hindex : index < v.length) (x : α) :
    ∃ f', v.set index x f = .ok () f' ∧
      v.Becomes f blocks v f' blocks ((v.toList f.memory).set index x) := by
  refine ⟨{ f with memory := f.memory.writeBytes (v.elementAddress index) (Stored.encode x) },
    ?_, hv, toList_write v f.memory index x, ?_⟩
  · unfold HeapVec.set
    rw [if_pos hindex]
    rfl
  · exact hv.write hp hw (Nat.lt_of_lt_of_le hindex hv.length_le) x

theorem Backed.push [Owned α] (hv : v.Backed f.heap blocks) (hp : f.heap.Placed)
    (hw : f.heap.WellFormed f.memory blocks) (halign : Stored.align α ≤ alignment) (x : α) :
    (v.length = v.capacity ∧ ∃ error f', v.reserve f = .ok (.error error) f' ∧
      f.Untouched f' ∧ error.IsExhaustion ∧ v.Stuck f error ∧
      v.push x f = (do Owned.drop x; pure (.error error) : FirmwareM _) f') ∨
    ∃ v' f' blocks', v.push x f = .ok (.ok v') f' ∧
      v.Becomes f blocks v' f' blocks' (v.toList f.memory ++ [x]) := by
  rcases hv.reserve hp hw halign with
    ⟨hfull, error, f', hrun, huntouched, hexhausted, hstuck⟩ |
    ⟨v', f', blocks', hrun, hlength, hroom, hb⟩
  · exact .inl ⟨hfull, error, f', hrun, huntouched, hexhausted, hstuck, bind_of_answer hrun⟩
  · right
    have hp' := hb.spares.shares.placed
    have hw' := hb.spares.shares.wellFormed
    rw [← hlength] at hroom
    refine ⟨{ v' with length := v'.length + 1 },
      { f' with memory := f'.memory.writeBytes (v'.elementAddress v'.length) (Stored.encode x) },
      blocks', bind_of_answer hrun, hb.trans ⟨?_, ?_, ?_⟩⟩
    · exact ⟨hroom, hb.backed.capacity_eq, hb.backed.block⟩
    · rw [← hb.elements]
      exact toList_append v' f'.memory x
    · exact hb.backed.write hp' hw' hroom x

theorem Backed.truncated (hv : v.Backed f.heap blocks) (hp : f.heap.Placed)
    (hw : f.heap.WellFormed f.memory blocks) {length : Nat} (hle : length ≤ v.length) :
    v.Becomes f blocks { v with length } f blocks
      (({ v with length } : HeapVec α).toList f.memory) :=
  ⟨⟨Nat.le_trans hle hv.length_le, hv.capacity_eq, hv.block⟩, rfl, (hv.shares hp hw).refl⟩

theorem Backed.pop (hv : v.Backed f.heap blocks) (hp : f.heap.Placed)
    (hw : f.heap.WellFormed f.memory blocks) :
    (v.toList f.memory = [] ∧ v.pop f = .ok none f) ∨
    ∃ xs x v', v.toList f.memory = xs ++ [x] ∧ v.pop f = .ok (some (x, v')) f ∧
      v.Becomes f blocks v' f blocks xs := by
  unfold HeapVec.pop
  cases hlength : v.length with
  | zero => exact .inl ⟨toList_eq_nil hlength _, rfl⟩
  | succ last =>
      exact .inr ⟨_, _, { v with length := last }, toList_succ hlength _, rfl,
        hv.truncated hp hw (by omega)⟩

theorem capacity_empty (hsize : 0 < Stored.size α) : (empty : HeapVec α).capacity = 0 :=
  if_neg (Nat.ne_of_gt hsize)

theorem backed_empty (hsize : 0 < Stored.size α) (h : BlockHeap) (blocks : List BlockInfo) :
    (empty : HeapVec α).Backed h blocks :=
  ⟨Nat.zero_le _, .inl (capacity_empty hsize), fun hne => absurd (capacity_empty hsize) hne⟩

theorem Backed.release (hv : v.Backed f.heap blocks) (hp : f.heap.Placed)
    (hw : f.heap.WellFormed f.memory blocks) (hsize : 0 < Stored.size α) :
    ∃ f' blocks', (if v.ownsBlock then Heap.free v.address else pure ()) f = .ok () f' ∧
      v.Becomes f blocks empty f' blocks' [] := by
  have hnone : (empty : HeapVec α).pointers = [] := if_pos (capacity_empty hsize)
  by_cases hcapacity : v.capacity = 0
  · have hpointers : v.pointers = [] := if_pos hcapacity
    refine ⟨f, blocks, ?_, backed_empty hsize _ _, rfl, ?_⟩
    · simp [ownsBlock, hcapacity]
      rfl
    · have hshares := (hv.shares hp hw).refl
      rw [hpointers] at hshares
      rw [hpointers, hnone]
      exact hshares
  · have hpointers : v.pointers = [v.address] := if_neg hcapacity
    have howns : v.ownsBlock = true := by
      simp [ownsBlock, hsize, Nat.pos_of_ne_zero hcapacity]
    have hshares := hv.shares hp hw
    obtain ⟨f', hfree, hreaches⟩ := Heap.free_reaches hshares (mem_pointers.2 ⟨hcapacity, rfl⟩)
    obtain ⟨blocks', hspares⟩ := hreaches.spares hshares
    refine ⟨f', blocks', ?_, backed_empty hsize _ _, rfl, ?_⟩
    · rw [if_pos howns]
      exact hfree
    · have hleft : v.pointers.filter (v.address ≠ ·) = [] := by simp [hpointers]
      rw [hleft] at hspares
      rw [hnone]
      exact hspares

end HeapVec

end EarlyBoot
