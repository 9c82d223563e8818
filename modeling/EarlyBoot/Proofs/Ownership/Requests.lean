import EarlyBoot.Proofs.HeapVec.Operations
import EarlyBoot.Proofs.Ownership.Delivery

/-!
# Requests and what they deliver

A request that is granted leaves the deed of a new block; one that is refused
found less room than it asked for.  Whoever holds a block may release it, have
it resized or write to it.
-/

namespace EarlyBoot

open BlockHeap (inUse Call charge alignment)
open BlockHeap.Session (Shares Spares Honest)

variable {f : Firmware} {blocks blocks' : List BlockInfo} {m' : Memory} {p q size count : Nat}
  {n : Int} {e : Deed}

theorem payloadAddress_lt {h : BlockHeap} {m : Memory} {b : BlockInfo} (hp : h.Placed)
    (hw : h.WellFormed m blocks) (hb : b ∈ blocks) (hsize : 0 < b.size) :
    h.payloadAddress b.offset < Word.limit := by
  have hstop := (hw.tiles.bounds hb).2.1
  have hlimit := hp.stop_le
  simp only [BlockHeap.payloadAddress, BlockInfo.stop] at *
  omega

theorem allocate_lt_limit (hp : f.heap.Placed) (hw : f.heap.WellFormed f.memory blocks)
    (hok : f.heap.allocate size f.memory = .ok p m') : p < Word.limit := by
  cases hs : BlockHeap.payloadSize? size with
  | none =>
      rw [BlockHeap.allocate_overflow hp hs] at hok
      cases hok
  | some payload =>
      rcases BlockHeap.firstFit_cases blocks payload with
        hfits | ⟨before, b, after, rfl, hfits, hfree, hlong⟩
      · rw [BlockHeap.allocate_full hp hw hs hfits] at hok
        cases hok
      · obtain ⟨m₁, hfit, -⟩ := BlockHeap.allocate_fit hp hw hs hfits hfree hlong
        rw [hfit] at hok
        cases hok
        have hpayload := (BlockHeap.payloadSize?_eq_some hs).2.2
        refine payloadAddress_lt hp hw (by simp) ?_
        unfold headerSize at hpayload
        omega

theorem call_outcome (hp : f.heap.Placed) (hw : f.heap.WellFormed f.memory blocks) {call : Call}
    (hheld : ∀ p ∈ call.givenBack, InUseAt f blocks p) :
    (∃ error, call.Fails f.heap f.memory error) ∨
    ∃ m' blocks' gone new, call.Succeeds f.heap f.memory blocks m' blocks' gone new ∧
      ∀ given gained : Multiset Nat, given.toList = call.givenBack.toList →
        gained.toList = (new.map (f.heap.payloadAddress ·.offset)).toList →
        Trades f blocks given { f with memory := m' } blocks' gained := by
  have hs : Shares ⟨f.heap, f.memory, call.givenBack.toList⟩ blocks :=
    ⟨hp, hw, fun p hp => hheld p (Option.mem_toList.1 hp)⟩
  rcases hs.call (fun p hp => Option.mem_toList.2 hp) with
    hfail | ⟨m', blocks', gone, new, hc, hspares⟩
  · exact .inl hfail
  · refine .inr ⟨m', blocks', gone, new, hc, ?_⟩
    intro given gained hgiven hgained
    rw [(BlockHeap.Session.after_of_ok hc.performed).2] at hspares
    have hnone : call.givenBack.toList.filter (call.givenBack ≠ some ·) = [] := by
      rw [List.filter_eq_nil_iff]
      intro p hp
      simp [Option.mem_toList.1 hp]
    rw [hnone, List.append_nil, ← hgiven, ← hgained] at hspares
    exact ⟨hspares, rfl, fun _ _ _ => rfl⟩

def granted (size : Nat) (n : Int) : Except HeapError Nat → Deed
  | .ok p => Deed.block p size + Deed.fact (p < Word.limit) + Deed.fund (n - charge size)
  | .error error => Deed.fact (error.IsExhaustion ∧ n < charge size) + Deed.fund n

theorem granted_ok (size : Nat) (n : Int) (p : Nat) : granted size n (.ok p) =
    Deed.block p size + Deed.fact (p < Word.limit) + Deed.fund (n - charge size) := rfl

theorem allocate_outcome (hp : f.heap.Placed) (hw : f.heap.WellFormed f.memory blocks)
    (size : Nat) :
    (∃ error : HeapError, error.IsExhaustion ∧ ¬ f.heap.Room blocks (charge size) ∧
      f.heap.allocate size f.memory = .error (.report error) f.memory) ∨
    ∃ p m' blocks', f.heap.allocate size f.memory = .ok p m' ∧
      Trades f blocks 0 { f with memory := m' } blocks' {p} ∧
      (Deed.block p size).Valid { f with memory := m' } blocks' ∧
      ∀ k, f.heap.Room blocks (k + charge size) → f.heap.Room blocks' k := by
  have hheld : ∀ p ∈ (Call.allocate size).givenBack, InUseAt f blocks p := by
    rintro p ⟨⟩
  rcases call_outcome hp hw hheld with
    ⟨error, hrecoverable, hfail⟩ | ⟨m', blocks', gone, new, hc, htrades⟩
  · have hrefused := Heap.eq_error_of_some hfail
    refine .inl ⟨error, Heap.exhaustion_of_declines hp
      (BlockHeap.allocate_declines _ _ _ error _ hrefused) hrecoverable, ?_, hrefused⟩
    intro hroom
    have hroom' : f.heap.Room blocks (0 + charge size) := by rwa [Nat.zero_add]
    obtain ⟨p, m', blocks', hok, -⟩ := hroom'.allocate hp hw
    rw [hok] at hrefused
    cases hrefused
  · right
    obtain ⟨p, hgiven, hok⟩ := Heap.some_of_ok hc.performed
    obtain ⟨d, rfl, rfl⟩ := Option.map_eq_some_iff.1 hgiven
    refine ⟨_, m', blocks', hok, ?_, ?_, ?_⟩
    · exact htrades 0 _ (by simp [Call.givenBack]) (by simp)
    · refine ⟨d, (hc.effect.mem_inUse d).2 (.inl rfl), rfl, ?_⟩
      have hpromise := hc.promise
      cases hpromise
      assumption
    · intro k hroom
      obtain ⟨p, m₁, blocks₁, hok₁, hw₁, hroom₁⟩ := hroom.allocate hp hw
      rw [hok] at hok₁
      cases hok₁
      rwa [← hc.effect.wellFormed.blocks_eq hp, hw₁.blocks_eq hp]

theorem funded_of_charge (hroom : ∀ k, f.heap.Room blocks (k + charge size) → f.heap.Room blocks' k)
    {b : WithBot Int} (h : Funded f blocks (b + n)) :
    Funded { f with memory := m' } blocks' (b + (n - charge size : Int)) := by
  intro k hk hpos
  have hpaid : ((k + charge size : Int) : WithBot Int) ≤ b + n := by
    cases b with
    | bot => simp at hk
    | coe b =>
        norm_cast at hk ⊢
        omega
  have hfunded := h _ hpaid (by omega)
  have heq : (k + charge size).toNat = k.toNat + charge size := by omega
  rw [heq] at hfunded
  exact hroom _ hfunded

theorem lt_charge_of_no_room {b : WithBot Int} (hfunded : Funded f blocks b) (hle : n ≤ b)
    (hroom : ¬ f.heap.Room blocks (charge size)) : n < charge size := by
  by_contra hpays
  have hcharge := BlockHeap.charge_pos size
  have hmost : f.heap.Room blocks n.toNat := hfunded n hle (by omega)
  exact hroom (hmost.mono (by omega))

theorem allocate_exchanges (hs : Holds f blocks (Deed.fund n)) (size : Nat) :
    (∃ error : HeapError, f.heap.allocate size f.memory = .error (.report error) f.memory ∧
      error.IsExhaustion ∧ n < charge size) ∨
    ∃ p m' blocks', f.heap.allocate size f.memory = .ok p m' ∧
      Exchanges f blocks (Deed.fund n) { f with memory := m' } blocks'
        (granted size n (.ok p)) := by
  rcases allocate_outcome hs.placed hs.wellFormed size with
    ⟨error, hexhausted, hroom, hfail⟩ | ⟨p, m', blocks', hok, htrades, hvalid, hroom⟩
  · exact .inl ⟨error, hfail, hexhausted, lt_charge_of_no_room hs.funded le_rfl hroom⟩
  · have hlimit := allocate_lt_limit hs.placed hs.wellFormed hok
    refine .inr ⟨p, m', blocks', hok, ?_, ⟨⟨hvalid, hlimit⟩, trivial⟩, ?_, ?_⟩
    · simpa [granted] using htrades
    · simp [granted]
    · intro k hk
      have hleft : Funded { f with memory := m' } blocks' _ := funded_of_charge hroom hk
      simpa [granted] using hleft

theorem amounts_refused {error : HeapError} (hexhausted : error.IsExhaustion)
    (hless : n < charge size) (f : Firmware) (blocks : List BlockInfo) :
    Amounts f blocks (Deed.fund n) (granted size n (.error error)) :=
  fun _ => ⟨⟨⟨hexhausted, hless⟩, trivial⟩, by simp [granted], by simp [granted]⟩

namespace Heap

theorem malloc_delivers (size : Nat) (n : Int) :
    Delivers (malloc size) f blocks (Deed.fund n) fun reply _ => granted size n reply := by
  refine .intro_firmware fun hs => ?_
  rcases allocate_exchanges hs size with
    ⟨error, hfail, hexhausted, hless⟩ | ⟨p, m', blocks', hok, h⟩
  · obtain ⟨f', hrun, huntouched⟩ := malloc_of_report hfail
    have hkept := Exchanges.of_untouched hs huntouched
    exact ⟨_, f', blocks, hrun,
      hkept.trans ((amounts_refused hexhausted hless f' blocks).exchanges (hkept.holds hs))⟩
  · exact ⟨_, _, blocks', malloc_of_ok hok, h⟩

theorem allocate_delivers (size align : Nat) (n : Int) :
    Delivers (allocate size align) f blocks (Deed.fund n) fun reply _ =>
      match reply with
      | .ok p => granted size n (.ok p)
      | .error error => Deed.fund n + Deed.fact (error.isFatal = false ∧
          (align ≤ alignment → error.IsExhaustion ∧ n < charge size)) := by
  refine .intro_firmware fun hs => ?_
  by_cases halign : align ≤ alignment
  · have heq : f.heap.allocateAligned size align = f.heap.allocate size := if_pos halign
    rcases allocate_exchanges hs size with
      ⟨error, hfail, hexhausted, hless⟩ | ⟨p, m', blocks', hok, h⟩
    · refine ⟨_, _, blocks, onHeap_of_report (·.allocateAligned size align)
        ((congrFun heq f.memory).trans hfail),
        ((Amounts.refl _ _ _).and_fact fun _ => ?_).exchanges hs⟩
      exact ⟨hexhausted.recoverable, fun _ => ⟨hexhausted, hless⟩⟩
    · exact ⟨_, _, blocks', onHeap_of_ok (·.allocateAligned size align)
        ((congrFun heq f.memory).trans hok), h⟩
  · have hfail : f.heap.allocateAligned size align f.memory =
        .error (.report (.unsupportedAlignment align)) f.memory :=
      congrFun (if_neg halign) f.memory
    exact ⟨_, _, blocks, onHeap_of_report (·.allocateAligned size align) hfail,
      ((Amounts.refl _ _ _).and_fact fun _ => ⟨rfl, fun h => absurd h halign⟩).exchanges hs⟩

theorem free_delivers (p size : Nat) :
    Delivers (free p) f blocks (Deed.block p size) fun _ _ => 0 := by
  refine .intro_firmware fun hs => ?_
  obtain ⟨b, hb, rfl, -⟩ := hs.valid
  have hheld : ∀ p ∈ (Call.release (f.heap.payloadAddress b.offset)).givenBack,
      InUseAt f blocks p := by
    rintro p ⟨⟩
    exact ⟨b, hb, rfl⟩
  rcases call_outcome hs.placed hs.wellFormed hheld with
    ⟨error, hfails⟩ | ⟨m', blocks', gone, new, hc, htrades⟩
  · exact absurd rfl (hfails.no_release _)
  · obtain ⟨_, m₁, hok, hpure⟩ := MemoryM.bind_eq_ok.1 hc.performed
    obtain ⟨hnew, rfl⟩ := MemoryM.pure_eq_ok.1 hpure
    refine ⟨(), _, blocks', free_of_ok hok, ?_, trivial, Multiset.nodup_zero, ?_⟩
    · exact htrades _ _ (by simp [Call.givenBack]) (by simp [← hnew])
    · intro b hk n hn hpos
      obtain ⟨m₂, blocks₂, hok₂, hw₂, hroom⟩ :=
        (hk n hn hpos).release hs.placed hs.wellFormed hb
      rw [hok] at hok₂
      cases hok₂
      change f.heap.Room blocks' _
      rwa [← hc.effect.wellFormed.blocks_eq hs.placed, hw₂.blocks_eq hs.placed]

theorem resize_outcome {b : BlockInfo} (hp : f.heap.Placed)
    (hw : f.heap.WellFormed f.memory blocks) (hb : b ∈ inUse blocks) (size : Nat) :
    (∃ error : HeapError, error.IsExhaustion ∧ ¬ f.heap.Room blocks (charge size) ∧
      f.heap.resize (f.heap.payloadAddress b.offset) size f.memory =
        .error (.report error) f.memory) ∨
    ∃ q m' blocks', f.heap.resize (f.heap.payloadAddress b.offset) size f.memory = .ok q m' ∧
      Trades f blocks {f.heap.payloadAddress b.offset} { f with memory := m' } blocks' {q} ∧
      (Deed.block q size).Valid { f with memory := m' } blocks' ∧ (0 < size → q < Word.limit) ∧
      (∀ i, i < b.size → i < size →
        m'.read (q + i) = f.memory.read (f.heap.payloadAddress b.offset + i)) ∧
      ∀ k, f.heap.Room blocks (k + charge size) → f.heap.Room blocks' k := by
  have hheld : ∀ p ∈ (Call.resize (f.heap.payloadAddress b.offset) size).givenBack,
      InUseAt f blocks p := by
    rintro p ⟨⟩
    exact ⟨b, hb, rfl⟩
  rcases call_outcome hp hw hheld with
    ⟨error, hrecoverable, hfail⟩ | ⟨m', blocks', gone, new, hc, htrades⟩
  · have hrefused := eq_error_of_some hfail
    refine .inl ⟨error, exhaustion_of_declines hp
      (BlockHeap.resize_declines _ _ _ _ error _ hrefused) hrecoverable, ?_, hrefused⟩
    intro hroom
    have hroom' : f.heap.Room blocks (0 + charge size) := by rwa [Nat.zero_add]
    obtain ⟨q, m', blocks', hok, -⟩ := hroom'.resize hp hw hb
    rw [hok] at hrefused
    cases hrefused
  · right
    obtain ⟨q, hgiven, hok⟩ := some_of_ok hc.performed
    obtain ⟨d, rfl, rfl⟩ := Option.map_eq_some_iff.1 hgiven
    obtain ⟨c, _, rfl, hnew, hback, hlong, hkept⟩ := HeapVec.promise_of_resize hc.promise
    cases hnew
    obtain rfl := hw.tiles.eq_of_offset (BlockHeap.mem_inUse.1 (hc.mem_gone c rfl)).1
      (BlockHeap.mem_inUse.1 hb).1 (BlockHeap.Session.payloadAddress_inj.1 hback)
    have hd := (hc.effect.mem_inUse d).2 (.inl rfl)
    refine ⟨_, m', blocks', hok, ?_, ⟨d, hd, rfl, hlong⟩, fun hpos => ?_, hkept, fun k hroom => ?_⟩
    · exact htrades _ _ (by simp [Call.givenBack]) (by simp)
    · exact payloadAddress_lt hp hc.effect.wellFormed (BlockHeap.mem_inUse.1 hd).1
        (Nat.lt_of_lt_of_le hpos hlong)
    · obtain ⟨q, m₁, blocks₁, hok₁, hw₁, hroom₁⟩ := hroom.resize hp hw hb
      rw [hok] at hok₁
      cases hok₁
      rwa [← hc.effect.wellFormed.blocks_eq hp, hw₁.blocks_eq hp]

theorem realloc_delivers (p count size : Nat) (n : Int) :
    Delivers (realloc p size) f blocks (Deed.block p count + Deed.fund n) fun reply f' =>
      match reply with
      | .ok q => Deed.block q size + Deed.fund (n - charge size) +
          Deed.fact ((0 < size → q < Word.limit) ∧
            ∀ i, i < count → i < size → f'.memory.read (q + i) = f.memory.read (p + i))
      | .error error => Deed.block p count + Deed.fund n +
          Deed.fact (error.IsExhaustion ∧ n < charge size ∧ f'.memory = f.memory) := by
  refine .intro_firmware fun hs => ?_
  obtain ⟨b, hb, rfl, hlong⟩ := hs.valid.1
  rcases resize_outcome hs.placed hs.wellFormed hb size with
    ⟨error, hexhausted, hroom, hfail⟩ |
    ⟨q, m', blocks', hok, htrades, hvalid, hlimit, hkept, hroom⟩
  · -- only a lack of room refuses the call, and the budget would have paid for it
    have hless : n < charge size := lt_charge_of_no_room hs.funded (by simp) hroom
    exact ⟨_, _, blocks, onHeap_of_report (·.resize _ size) hfail,
      ((Amounts.refl _ _ _).and_fact fun _ => ⟨hexhausted, hless, rfl⟩).exchanges hs⟩
  · refine ⟨_, _, blocks', onHeap_of_ok (·.resize _ size) hok, ?_, ?_, by simp, ?_⟩
    · simpa using htrades
    · exact ⟨⟨hvalid, trivial⟩, hlimit, fun i hi hnew => hkept i (by omega) hnew⟩
    · intro k hk
      have hpaid : Funded f blocks (k + n) := by simpa using hk
      have hleft : Funded { f with memory := m' } blocks' _ := funded_of_charge hroom hpaid
      simpa using hleft

end Heap

theorem write_spares {address : Nat} {bytes : List UInt8} (hp : f.heap.Placed)
    (hw : f.heap.WellFormed f.memory blocks) (hblock : (Deed.block p size).Valid f blocks)
    (hlow : p ≤ address) (hhigh : address + bytes.length ≤ p + size) :
    BlockHeap.Session.Spares ⟨f.heap, f.memory, [p]⟩
      ⟨f.heap, f.memory.writeBytes address bytes, [p]⟩ blocks blocks := by
  obtain ⟨b, hb, rfl, hlong⟩ := hblock
  have hshares : Shares ⟨f.heap, f.memory, [f.heap.payloadAddress b.offset]⟩ blocks :=
    ⟨hp, hw, by simpa using ⟨b, hb, rfl⟩⟩
  obtain ⟨hmem, hused⟩ := BlockHeap.mem_inUse.1 hb
  have hhonest : Honest ⟨f.heap, f.memory, [f.heap.payloadAddress b.offset]⟩
      (.write address bytes) := ⟨_, List.mem_singleton_self _, hlow, b.size,
    BlockHeap.usableSize_ok hp hw hmem hused, by omega⟩
  exact hshares.write hhonest

theorem write_delivers {address : Nat} {bytes : List UInt8} (hlow : p ≤ address)
    (hhigh : address + bytes.length ≤ p + size) :
    Delivers (FirmwareM.change (·.writeBytes address bytes)) f blocks (Deed.block p size)
      fun _ f' => Deed.block p size +
        Deed.fact (f' = { f with memory := f.memory.writeBytes address bytes }) := by
  refine .intro_firmware fun hs => ?_
  have hspares := write_spares hs.placed hs.wellFormed hs.valid hlow hhigh
  refine ⟨(), { f with memory := f.memory.writeBytes address bytes }, blocks, rfl,
    ⟨?_, rfl, fun _ _ _ => rfl⟩, ⟨hs.valid, rfl⟩, by simp, ?_⟩
  · simpa using hspares
  · intro k hk
    simpa [Funded] using hk

end EarlyBoot
