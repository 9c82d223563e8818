import EarlyBoot.Proofs.HeapRequest
import EarlyBoot.Proofs.BlockHeap.Canonical
import EarlyBoot.Proofs.BlockHeap.Room
import Mathlib.Algebra.Order.Monoid.WithTop
import Mathlib.Data.Int.ConditionallyCompleteOrder
import Mathlib.Data.Multiset.Basic
import Mathlib.Data.Multiset.UnionInter
import Mathlib.Order.ConditionallyCompleteLattice.Basic
import Mathlib.Tactic.Abel

/-!
# Deeds

A deed says which blocks of the heap somebody answers for, and what is known of
them.  It depends on the state of the firmware, but not on what others do with
blocks of their own.  Deeds add up: to hold two of them is to hold blocks that
are apart.  A deed may also come with a budget, the room that its holder may
take from the heap; a holder who spends more than that may be refused, and one
without a budget may be refused anything.

`Exchanges` says what a computation does that starts with one deed and ends
with another.  Whatever else is held is left as it is, so an exchange is still
one when it is framed by another deed.
-/

namespace EarlyBoot

open BlockHeap (inUse)
open BlockHeap.Session (Shares Spares)

variable {f f' f'' : Firmware} {blocks blocks' blocks'' : List BlockInfo}
  {given given' gained other : Multiset Nat} {p : Nat}

def InUseAt (f : Firmware) (blocks : List BlockInfo) (p : Nat) : Prop :=
  ∃ b ∈ inUse blocks, f.heap.payloadAddress b.offset = p

/-! ## Trades -/

/--
Blocks are given away and others gained.  All other blocks in use stay in use,
with their bytes, and so do the names of the values in them.
-/
structure Trades (f : Firmware) (blocks : List BlockInfo) (given : Multiset Nat) (f' : Firmware)
    (blocks' : List BlockInfo) (gained : Multiset Nat) : Prop where
  spares : Spares ⟨f.heap, f.memory, given.toList⟩ ⟨f'.heap, f'.memory, gained.toList⟩
    blocks blocks'
  heap_eq : f'.heap = f.heap
  names : ∀ a : UInt64, a.toNat ∉ given → InUseAt f blocks a.toNat →
    f'.names.get? a = f.names.get? a

namespace Trades

theorem refl (hp : f.heap.Placed) (hw : f.heap.WellFormed f.memory blocks)
    (hheld : ∀ p ∈ given, InUseAt f blocks p) : Trades f blocks given f blocks given :=
  ⟨Shares.refl ⟨hp, hw, fun p hp => hheld p (Multiset.mem_toList.1 hp)⟩, rfl, fun _ _ _ => rfl⟩

theorem stays (h : Trades f blocks given f' blocks' gained) {b : BlockInfo} (hb : b ∈ inUse blocks)
    (hp : f.heap.payloadAddress b.offset ∉ given) :
    b ∈ inUse blocks' ∧ f'.heap.payloadAddress b.offset = f.heap.payloadAddress b.offset ∧
      f.heap.payloadAddress b.offset ∉ gained ∧
      ∀ k, k < b.size → f'.memory.read (f.heap.payloadAddress b.offset + k) =
        f.memory.read (f.heap.payloadAddress b.offset + k) := by
  obtain ⟨hb', hp', hread⟩ := h.spares.kept b hb (by simpa using hp)
  exact ⟨hb', by rw [h.heap_eq], by simpa using hp',
    fun k hk => hread _ (BlockHeap.inPayload_add hk)⟩

theorem inUseAt (h : Trades f blocks given f' blocks' gained) (hp : InUseAt f blocks p)
    (hkept : p ∉ given) : InUseAt f' blocks' p ∧ p ∉ gained := by
  obtain ⟨b, hb, rfl⟩ := hp
  obtain ⟨hb', haddress, hgained, -⟩ := h.stays hb hkept
  exact ⟨⟨b, hb', haddress⟩, hgained⟩

theorem inUseAt_iff (h : Trades f blocks given f' blocks' gained) (p : Nat) :
    InUseAt f' blocks' p ↔ p ∈ gained ∨ InUseAt f blocks p ∧ p ∉ given := by
  constructor
  · rintro ⟨b, hb, rfl⟩
    rw [h.heap_eq]
    by_cases hgained : f.heap.payloadAddress b.offset ∈ gained
    · exact .inl hgained
    · obtain ⟨hbefore, hkept⟩ := h.spares.only b hb (by simpa using hgained)
      exact .inr ⟨⟨b, hbefore, rfl⟩, by simpa using hkept⟩
  · rintro (hgained | ⟨hbefore, hkept⟩)
    · exact h.spares.shares.held p (Multiset.mem_toList.2 hgained)
    · exact (h.inUseAt hbefore hkept).1

theorem trans (h : Trades f blocks given f' blocks' gained)
    (h' : Trades f' blocks' gained f'' blocks'' given') :
    Trades f blocks given f'' blocks'' given' := by
  refine ⟨h.spares.trans h'.spares, h'.heap_eq.trans h.heap_eq, ?_⟩
  intro a ha hin
  obtain ⟨hin', ha'⟩ := h.inUseAt hin ha
  exact (h'.names a ha' hin').trans (h.names a ha hin)

/-- The trade of a client that holds other blocks as well. -/
theorem frame (h : Trades f blocks given f' blocks' gained)
    (hheld : ∀ p ∈ other, InUseAt f blocks p) (hapart : ∀ p ∈ other, p ∉ given) :
    Trades f blocks (given + other) f' blocks' (gained + other) := by
  refine ⟨⟨⟨h.spares.shares.placed, h.spares.shares.wellFormed, ?_⟩, h.spares.base_eq, ?_, ?_⟩,
    h.heap_eq, fun a ha => h.names a fun hmem => ha (Multiset.mem_add.2 (.inl hmem))⟩
  · intro p hp
    rcases Multiset.mem_add.1 (Multiset.mem_toList.1 hp) with hgained | hother
    · exact h.spares.shares.held p (Multiset.mem_toList.2 hgained)
    · exact (h.inUseAt (hheld p hother) (hapart p hother)).1
  · intro b hb hp
    simp only [Multiset.mem_toList, Multiset.mem_add, not_or] at hp ⊢
    obtain ⟨hb', hp', hread⟩ := h.spares.kept b hb (by simpa using hp.1)
    exact ⟨hb', ⟨by simpa using hp', hp.2⟩, hread⟩
  · intro b hb hp
    simp only [Multiset.mem_toList, Multiset.mem_add, not_or] at hp ⊢
    obtain ⟨hb', hp'⟩ := h.spares.only b hb (by simpa using hp.1)
    exact ⟨hb', by simpa using hp', hp.2⟩

theorem restores (h : Trades f blocks 0 f' blocks' 0)
    (hw : f.heap.WellFormed f.memory blocks) : blocks' = blocks := by
  have hspares := h.spares
  rw [h.heap_eq, Multiset.toList_zero] at hspares
  exact BlockHeap.Session.Spares.restores hw hspares

end Trades

/-! ## Deeds -/

@[ext]
structure Deed where
  /-- The addresses of the blocks held. -/
  holdings : Firmware → Multiset Nat
  Valid : Firmware → List BlockInfo → Prop
  /-- The room that may be taken; without a promise it is the least element. -/
  budget : WithBot Int
  held : ∀ {f blocks}, Valid f blocks → ∀ p ∈ holdings f, InUseAt f blocks p
  kept : ∀ {f blocks given f' blocks' gained}, Trades f blocks given f' blocks' gained →
    Valid f blocks → (∀ p ∈ holdings f, p ∉ given) → holdings f' = holdings f ∧ Valid f' blocks'

namespace Deed

instance : Zero Deed where
  zero := ⟨fun _ => 0, fun _ _ => True, 0, fun _ _ hp => absurd hp (Multiset.notMem_zero _),
    fun _ _ _ => ⟨rfl, trivial⟩⟩

instance : Add Deed where
  add d e :=
    { holdings := fun f => d.holdings f + e.holdings f
      Valid := fun f blocks => d.Valid f blocks ∧ e.Valid f blocks
      budget := d.budget + e.budget
      held := fun hvalid p hp =>
        (Multiset.mem_add.1 hp).elim (d.held hvalid.1 p) (e.held hvalid.2 p)
      kept := fun h hvalid hapart => by
        obtain ⟨hd, hdvalid⟩ := d.kept h hvalid.1 fun p hp =>
          hapart p (Multiset.mem_add.2 (.inl hp))
        obtain ⟨he, hevalid⟩ := e.kept h hvalid.2 fun p hp =>
          hapart p (Multiset.mem_add.2 (.inr hp))
        exact ⟨by rw [hd, he], hdvalid, hevalid⟩ }

@[simp] theorem holdings_zero (f : Firmware) : (0 : Deed).holdings f = 0 := rfl

@[simp] theorem valid_zero : (0 : Deed).Valid f blocks := trivial

@[simp] theorem budget_zero : (0 : Deed).budget = 0 := rfl

@[simp] theorem holdings_add (d e : Deed) (f : Firmware) :
    (d + e).holdings f = d.holdings f + e.holdings f := rfl

@[simp] theorem valid_add {d e : Deed} :
    (d + e).Valid f blocks ↔ d.Valid f blocks ∧ e.Valid f blocks := Iff.rfl

@[simp] theorem budget_add (d e : Deed) : (d + e).budget = d.budget + e.budget := rfl

instance : AddCommMonoid Deed where
  add_assoc d e c := by
    ext <;> simp [add_assoc, and_assoc]
  zero_add d := by
    ext <;> simp
  add_zero d := by
    ext <;> simp
  add_comm d e := by
    ext
    · simp [add_comm]
    · simp [and_comm]
    · simp [add_comm]
  nsmul := nsmulRec

/-- Nothing is held, but something is known. -/
def fact (P : Prop) : Deed where
  holdings _ := 0
  Valid _ _ := P
  budget := 0
  held _ _ hp := absurd hp (Multiset.notMem_zero _)
  kept _ hvalid _ := ⟨rfl, hvalid⟩

/-- Nothing is held, but room may be taken. -/
def fund (n : Int) : Deed where
  holdings _ := 0
  Valid _ _ := True
  budget := n
  held _ _ hp := absurd hp (Multiset.notMem_zero _)
  kept _ _ _ := ⟨rfl, trivial⟩

/-- Nothing is held, and no room is promised, whatever others may promise. -/
def unfunded : Deed where
  holdings _ := 0
  Valid _ _ := True
  budget := ⊥
  held _ _ hp := absurd hp (Multiset.notMem_zero _)
  kept _ _ _ := ⟨rfl, trivial⟩

def block (address size : Nat) : Deed where
  holdings _ := {address}
  Valid f blocks := ∃ b ∈ inUse blocks, f.heap.payloadAddress b.offset = address ∧ size ≤ b.size
  budget := 0
  held := by
    rintro f blocks ⟨b, hb, haddress, -⟩ p hp
    exact ⟨b, hb, haddress.trans (Multiset.mem_singleton.1 hp).symm⟩
  kept := by
    rintro f blocks given f' blocks' gained h ⟨b, hb, rfl, hsize⟩ hapart
    obtain ⟨hb', haddress, -, -⟩ := h.stays hb (hapart _ (Multiset.mem_singleton_self _))
    exact ⟨rfl, b, hb', haddress, hsize⟩

/-- A deed of which more is known; what others do must not change that. -/
def showing (d : Deed) (P : Firmware → Prop)
    (hkept : ∀ {f blocks given f' blocks' gained}, Trades f blocks given f' blocks' gained →
      d.Valid f blocks → (∀ p ∈ d.holdings f, p ∉ given) → P f → P f') : Deed where
  holdings := d.holdings
  Valid f blocks := d.Valid f blocks ∧ P f
  budget := d.budget
  held hvalid := d.held hvalid.1
  kept h hvalid hapart := by
    obtain ⟨hsame, hvalid'⟩ := d.kept h hvalid.1 hapart
    exact ⟨hsame, hvalid', hkept h hvalid.1 hapart hvalid.2⟩

@[simp] theorem holdings_fact (P : Prop) (f : Firmware) : (fact P).holdings f = 0 := rfl

@[simp] theorem valid_fact {P : Prop} : (fact P).Valid f blocks ↔ P := Iff.rfl

@[simp] theorem budget_fact (P : Prop) : (fact P).budget = 0 := rfl

@[simp] theorem holdings_fund (n : Int) (f : Firmware) : (fund n).holdings f = 0 := rfl

@[simp] theorem valid_fund {n : Int} : (fund n).Valid f blocks := trivial

@[simp] theorem budget_fund (n : Int) : (fund n).budget = n := rfl

@[simp] theorem holdings_unfunded (f : Firmware) : unfunded.holdings f = 0 := rfl

@[simp] theorem valid_unfunded : unfunded.Valid f blocks := trivial

@[simp] theorem budget_unfunded : unfunded.budget = ⊥ := rfl

@[simp] theorem holdings_block (address size : Nat) (f : Firmware) :
    (block address size).holdings f = {address} := rfl

@[simp] theorem budget_block (address size : Nat) : (block address size).budget = 0 := rfl

@[simp] theorem fund_zero : fund 0 = 0 := rfl

@[simp] theorem fact_true : fact True = 0 := rfl

theorem unfunded_add_unfunded : unfunded + unfunded = unfunded := by
  ext <;> simp

end Deed

/-! ## Holding a deed -/

def Funded (f : Firmware) (blocks : List BlockInfo) (budget : WithBot Int) : Prop :=
  ∀ n : Int, n ≤ budget → 0 < n → f.heap.Room blocks n.toNat

theorem Funded.mono {b c : WithBot Int} (h : Funded f blocks b) (hle : c ≤ b) :
    Funded f blocks c :=
  fun n hn => h n (hn.trans hle)

theorem funded_of_nonpos {b : WithBot Int} (hb : b ≤ 0) : Funded f blocks b := by
  intro n hn hpos
  have hle : n ≤ 0 := WithBot.coe_le_coe.1 (hn.trans hb)
  omega

theorem Funded.of_room {n : Nat} (hroom : f.heap.Room blocks n) : Funded f blocks (n : Int) := by
  intro k hk _
  have hle : k ≤ n := WithBot.coe_le_coe.1 hk
  exact BlockHeap.HasFree.mono hroom (by omega)

/-- There is a budget that asks for all the room there is, as far as it may be needed. -/
theorem exists_funded (f : Firmware) (blocks : List BlockInfo) (most : Nat) :
    ∃ n : Nat, Funded f blocks (n : Int) ∧ ∀ k ≤ most, n < k → ¬ f.heap.Room blocks k := by
  induction most with
  | zero => exact ⟨0, funded_of_nonpos le_rfl, fun k hk hlt => absurd hlt (by omega)⟩
  | succ most ih =>
      by_cases hroom : f.heap.Room blocks (most + 1)
      · exact ⟨most + 1, .of_room hroom, fun k hk hlt => absurd hlt (by omega)⟩
      · obtain ⟨n, hfunded, hless⟩ := ih
        refine ⟨n, hfunded, fun k hk hlt => ?_⟩
        rcases Nat.le_succ_iff.1 hk with hk | rfl
        · exact hless k hk hlt
        · exact hroom

/-- The heap is in good order, and the blocks of the deed are apart. -/
structure Holds (f : Firmware) (blocks : List BlockInfo) (d : Deed) : Prop where
  placed : f.heap.Placed
  wellFormed : f.heap.WellFormed f.memory blocks
  valid : d.Valid f blocks
  nodup : (d.holdings f).Nodup
  funded : Funded f blocks d.budget

variable {d d' d'' e : Deed}

theorem Holds.left (h : Holds f blocks (d + e)) (hbudget : d.budget ≤ 0 ∨ 0 ≤ e.budget) :
    Holds f blocks d := by
  refine ⟨h.placed, h.wellFormed, h.valid.1, (Multiset.nodup_add.1 h.nodup).1, ?_⟩
  rcases hbudget with hnone | hothers
  · exact funded_of_nonpos hnone
  · exact h.funded.mono (le_add_of_nonneg_right hothers)

theorem Holds.apart (h : Holds f blocks (d + e)) : ∀ p ∈ e.holdings f, p ∉ d.holdings f :=
  fun _ he hd => Multiset.disjoint_left.1 (Multiset.nodup_add.1 h.nodup).2.2 hd he

/-- A computation has turned one deed into another. -/
structure Exchanges (f : Firmware) (blocks : List BlockInfo) (d : Deed) (f' : Firmware)
    (blocks' : List BlockInfo) (d' : Deed) : Prop where
  trades : Trades f blocks (d.holdings f) f' blocks' (d'.holdings f')
  valid : d'.Valid f' blocks'
  nodup : (d'.holdings f').Nodup
  funds : ∀ n, Funded f blocks (n + d.budget) → Funded f' blocks' (n + d'.budget)

namespace Exchanges

theorem holds (h : Exchanges f blocks d f' blocks' d') (hs : Holds f blocks d) :
    Holds f' blocks' d' := by
  refine ⟨?_, h.trades.spares.shares.wellFormed, h.valid, h.nodup, ?_⟩
  · rw [h.trades.heap_eq]
    exact hs.placed
  · simpa using h.funds 0 (by simpa using hs.funded)

theorem trans (h : Exchanges f blocks d f' blocks' d')
    (h' : Exchanges f' blocks' d' f'' blocks'' d'') : Exchanges f blocks d f'' blocks'' d'' :=
  ⟨h.trades.trans h'.trades, h'.valid, h'.nodup, fun n hn => h'.funds n (h.funds n hn)⟩

theorem restores (h : Exchanges f blocks d f' blocks' d') (hs : Holds f blocks d)
    (hbefore : d.holdings f = 0) (hafter : d'.holdings f' = 0) :
    f'.heap.blocks f'.memory = blocks := by
  have hs' := h.holds hs
  have htrades := h.trades
  rw [hbefore, hafter] at htrades
  rw [hs'.wellFormed.blocks_eq hs'.placed]
  exact htrades.restores hs.wellFormed

theorem kept (h : Exchanges f blocks d f' blocks' d') (hs : Holds f blocks (d + e)) :
    e.holdings f' = e.holdings f ∧ e.Valid f' blocks' :=
  e.kept h.trades hs.valid.2 hs.apart

theorem frame (h : Exchanges f blocks d f' blocks' d') (hs : Holds f blocks (d + e)) :
    Exchanges f blocks (d + e) f' blocks' (d' + e) := by
  obtain ⟨hsame, hvalid⟩ := h.kept hs
  have hheld := fun p hp => e.held hs.valid.2 p hp
  refine ⟨?_, ⟨h.valid, hvalid⟩, ?_, ?_⟩
  · rw [Deed.holdings_add, Deed.holdings_add, hsame]
    exact h.trades.frame hheld hs.apart
  · rw [Deed.holdings_add, hsame]
    refine Multiset.nodup_add.2 ⟨h.nodup, (Multiset.nodup_add.1 hs.nodup).2.1, ?_⟩
    refine Multiset.disjoint_left.2 fun {p} hd he => ?_
    exact (h.trades.inUseAt (hheld p he) (hs.apart p he)).2 hd
  · intro n hn
    have hbefore : n + e.budget + d.budget = n + (d + e).budget := by
      rw [Deed.budget_add]
      abel
    have hafter : n + e.budget + d'.budget = n + (d' + e).budget := by
      rw [Deed.budget_add]
      abel
    rw [← hafter]
    exact h.funds (n + e.budget) (hbefore ▸ hn)

theorem undone (h : Exchanges f blocks 0 f' blocks' Deed.unfunded) (hs : Holds f blocks d)
    (hbudget : d.budget ≤ 0) : blocks' = blocks ∧ Holds f' blocks d := by
  have hnothing : Holds f blocks (0 + d) := by rwa [zero_add]
  have hheld := (h.frame hnothing).holds hnothing
  obtain rfl : blocks' = blocks := h.trades.restores hs.wellFormed
  rw [add_comm] at hheld
  exact ⟨rfl, hheld.left (.inl hbudget)⟩

end Exchanges

/-- At this state the first deed is as good as the second. -/
def Amounts (f : Firmware) (blocks : List BlockInfo) (d d' : Deed) : Prop :=
  d.Valid f blocks →
    d'.Valid f blocks ∧ d'.holdings f = d.holdings f ∧ d'.budget ≤ d.budget

namespace Amounts

theorem refl (f : Firmware) (blocks : List BlockInfo) (d : Deed) : Amounts f blocks d d :=
  fun hv => ⟨hv, rfl, le_refl _⟩

theorem trans (h : Amounts f blocks d d') (h' : Amounts f blocks d' d'') :
    Amounts f blocks d d'' := by
  intro hv
  obtain ⟨hv', hsame, hbudget⟩ := h hv
  obtain ⟨hv'', hsame', hbudget'⟩ := h' hv'
  exact ⟨hv'', hsame'.trans hsame, hbudget'.trans hbudget⟩

theorem add {c c' : Deed} (h : Amounts f blocks d d') (h' : Amounts f blocks c c') :
    Amounts f blocks (d + c) (d' + c') := by
  rintro ⟨hv, hv'⟩
  obtain ⟨hd, hsame, hbudget⟩ := h hv
  obtain ⟨hc, hsame', hbudget'⟩ := h' hv'
  refine ⟨⟨hd, hc⟩, ?_, ?_⟩
  · rw [Deed.holdings_add, Deed.holdings_add, hsame, hsame']
  · rw [Deed.budget_add, Deed.budget_add]
    exact add_le_add hbudget hbudget'

theorem of_fact {P : Prop} (h : P → Amounts f blocks d d') :
    Amounts f blocks (d + Deed.fact P) d' := by
  rintro ⟨hv, hP⟩
  simpa using h hP hv

theorem and_fact {P : Prop} (h : Amounts f blocks d d') (hP : d.Valid f blocks → P) :
    Amounts f blocks d (d' + Deed.fact P) := by
  intro hv
  obtain ⟨hv', hsame, hbudget⟩ := h hv
  exact ⟨⟨hv', hP hv⟩, by simpa using hsame, by simpa using hbudget⟩

theorem fund_le {n k : Int} (hle : k ≤ n) : Amounts f blocks (Deed.fund n) (Deed.fund k) :=
  fun _ => ⟨trivial, rfl, WithBot.coe_le_coe.2 hle⟩

theorem unfunded (d : Deed) (hholdings : d.holdings f = 0) : Amounts f blocks d Deed.unfunded :=
  fun _ => ⟨trivial, hholdings.symm, bot_le⟩

theorem and_unfunded (h : Amounts f blocks d d') : Amounts f blocks d (d' + Deed.unfunded) := by
  intro hv
  obtain ⟨hv', hsame, -⟩ := h hv
  exact ⟨⟨hv', trivial⟩, by simpa using hsame, by simp⟩

theorem of_showing {P : Firmware → Prop} {hkept} (h : P f → Amounts f blocks d d') :
    Amounts f blocks (d.showing P hkept) d' :=
  fun hv => h hv.2 hv.1

theorem showing {P : Firmware → Prop} {hkept} (h : Amounts f blocks d d')
    (hP : d.Valid f blocks → P f) : Amounts f blocks d (d'.showing P hkept) := by
  intro hv
  obtain ⟨hv', hrest⟩ := h hv
  exact ⟨⟨hv', hP hv⟩, hrest⟩

theorem exchanges (h : Amounts f blocks d d') (hs : Holds f blocks d) :
    Exchanges f blocks d f blocks d' := by
  obtain ⟨hv, hsame, hbudget⟩ := h hs.valid
  refine ⟨?_, hv, hsame ▸ hs.nodup, fun n hn => hn.mono (add_le_add_right hbudget n)⟩
  rw [hsame]
  exact Trades.refl hs.placed hs.wellFormed fun p hp => d.held hs.valid p hp

end Amounts

end EarlyBoot
