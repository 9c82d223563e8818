import EarlyBoot.Proofs.HeapVec.Operations
import Mathlib.Logic.Function.Basic

/-!
# Vectors that share a heap

A workspace is any number of vectors, each with elements of its own type, on
one heap.  It is in order if the heap is, and if every vector has a block of
its own.  What is done to one vector leaves the others alone, and so does what
is done to blocks that belong to none of them.

A dropped element may give back what it owns.  What is asked of a drop is what
is asked of every other client of the heap: it must be honest, and hold no
block of a vector.  Plain data asks for nothing.
-/

namespace EarlyBoot

open BlockHeap (inUse)
open BlockHeap.Session (Shares Spares Honest)

structure Workspace {ι : Type} (α : ι → Type) where
  firmware : Firmware
  vecs : (i : ι) → HeapVec (α i)

namespace Workspace

variable {ι : Type} {α : ι → Type} [∀ i, Stored (α i)]

def contents (w : Workspace α) (i : ι) : List (α i) := (w.vecs i).toList w.firmware.memory

/-- A live pointer of the heap that belongs to no vector. -/
def Elsewhere (w : Workspace α) (p : Nat) : Prop :=
  (∃ b ∈ inUse (w.firmware.heap.blocks w.firmware.memory),
    w.firmware.heap.payloadAddress b.offset = p) ∧ ∀ i, p ∉ (w.vecs i).pointers

/-- The computation ends, and has done what an honest client with blocks elsewhere may do. -/
def Harmless (w : Workspace α) (x : FirmwareM Unit) : Prop :=
  ∃ f held held', x w.firmware = .ok () f ∧ (∀ p ∈ held, w.Elsewhere p) ∧
    BlockHeap.Session.Reaches Honest ⟨w.firmware.heap, w.firmware.memory, held⟩
      ⟨f.heap, f.memory, held'⟩

/-- The heap is in good order, and every vector has a block of its own. -/
structure Sound (w : Workspace α) (blocks : List BlockInfo) : Prop where
  placed : w.firmware.heap.Placed
  wellFormed : w.firmware.heap.WellFormed w.firmware.memory blocks
  backed : ∀ i, (w.vecs i).Backed w.firmware.heap blocks
  apart : ∀ i j p, p ∈ (w.vecs i).pointers → p ∈ (w.vecs j).pointers → i = j

variable {w : Workspace α} {f' : Firmware} {blocks blocks' : List BlockInfo} {i : ι}
  {held held' : List Nat}

theorem Sound.shares_elsewhere (hs : w.Sound blocks) (hheld : ∀ p ∈ held, w.Elsewhere p) :
    Shares ⟨w.firmware.heap, w.firmware.memory, held⟩ blocks := by
  refine ⟨hs.placed, hs.wellFormed, ?_⟩
  intro p hp
  have hin := (hheld p hp).1
  rwa [hs.wellFormed.blocks_eq hs.placed] at hin

theorem Sound.spared (hs : w.Sound blocks) (f' : Firmware) (hheld : ∀ p ∈ held, w.Elsewhere p)
    (hspares : Spares ⟨w.firmware.heap, w.firmware.memory, held⟩ ⟨f'.heap, f'.memory, held'⟩
      blocks blocks') :
    Sound { w with firmware := f' } blocks' ∧
      contents { w with firmware := f' } = w.contents := by
  have hkept := fun i => (hs.backed i).kept hspares fun p hp hin => (hheld p hin).2 i hp
  refine ⟨⟨hspares.shares.placed, hspares.shares.wellFormed, fun i => (hkept i).1, hs.apart⟩, ?_⟩
  funext i
  exact (hkept i).2.1

theorem Sound.harmless (hs : w.Sound blocks) {x : FirmwareM Unit} (hx : w.Harmless x) :
    ∃ f' blocks', x w.firmware = .ok () f' ∧ Sound { w with firmware := f' } blocks' ∧
      contents { w with firmware := f' } = w.contents := by
  obtain ⟨f', held, held', hrun, hheld, hreaches⟩ := hx
  obtain ⟨blocks', hspares⟩ := hreaches.spares (hs.shares_elsewhere hheld)
  exact ⟨f', blocks', hrun, hs.spared f' hheld hspares⟩

theorem Sound.update [DecidableEq ι] (hs : w.Sound blocks) {v : HeapVec (α i)} {xs : List (α i)}
    (hb : (w.vecs i).Becomes w.firmware blocks v f' blocks' xs) :
    Sound ⟨f', Function.update w.vecs i v⟩ blocks' ∧
      contents ⟨f', Function.update w.vecs i v⟩ = Function.update w.contents i xs := by
  let w' : Workspace α := ⟨f', Function.update w.vecs i v⟩
  have hself : w'.vecs i = v := Function.update_self i v w.vecs
  have hother : ∀ j, j ≠ i → w'.vecs j = w.vecs j := fun j hj => Function.update_of_ne hj v w.vecs
  have hkept : ∀ j, j ≠ i → (w.vecs j).Backed f'.heap blocks' ∧
      (w.vecs j).toList f'.memory = w.contents j ∧ ∀ p ∈ (w.vecs j).pointers, p ∉ v.pointers :=
    fun j hj => (hs.backed j).kept hb.spares fun p hp hin => hj (hs.apart j i p hp hin)
  change w'.Sound blocks' ∧ w'.contents = _
  refine ⟨⟨hb.spares.shares.placed, hb.spares.shares.wellFormed, ?_, ?_⟩, ?_⟩
  · intro j
    by_cases hj : j = i
    · subst hj
      rw [hself]
      exact hb.backed
    · rw [hother j hj]
      exact (hkept j hj).1
  · intro j k p hjp hkp
    by_cases hj : j = i
    · by_cases hk : k = i
      · exact hj.trans hk.symm
      · subst hj
        rw [hself] at hjp
        rw [hother k hk] at hkp
        exact absurd hjp ((hkept k hk).2.2 p hkp)
    · rw [hother j hj] at hjp
      by_cases hk : k = i
      · subst hk
        rw [hself] at hkp
        exact absurd hkp ((hkept j hj).2.2 p hjp)
      · rw [hother k hk] at hkp
        exact hs.apart j k p hjp hkp
  · funext j
    by_cases hj : j = i
    · subst hj
      rw [contents, hself, Function.update_self]
      exact hb.elements
    · rw [contents, hother j hj, Function.update_of_ne hj]
      exact (hkept j hj).2.1

section Drops

variable {β : Type} [Owned β]

omit [∀ i, Stored (α i)] in
theorem harmless_pure (w : Workspace α) : w.Harmless (pure ()) :=
  ⟨w.firmware, [], [], rfl, by simp, .refl⟩

omit [∀ i, Stored (α i)] in
theorem harmless_plain (w : Workspace α) (hplain : ∀ x : β, Owned.drop x = pure ()) (xs : List β) :
    w.Harmless (Owned.dropAll xs) := by
  rw [Owned.dropAll_plain hplain]
  exact w.harmless_pure

end Drops

end Workspace

end EarlyBoot
