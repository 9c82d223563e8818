import EarlyBoot.Proofs.Bitmap
import Mathlib.Data.Finset.Insert

/-!
# Updates of a bitmap

A client sets entries, clears entries, and now and then clears all of them.  An
update fails if its entry lies beyond the last byte, and leaves the bytes alone
then.  After any updates the bitmap answers as the set does that the same
updates leave behind: it looks the set up, counts in it, and the search that
skips full bytes finds what a search entry by entry finds.
-/

namespace EarlyBoot.Bitmap

variable {b b' : Bitmap} {s : Finset Nat} {entry i limit : Nat}

def entries (b : Bitmap) : Finset Nat :=
  (Finset.range b.capacity).filter fun i => (b.bytes[i / 8]?.getD 0).toNat.testBit (i % 8)

def Holds (b : Bitmap) (s : Finset Nat) : Prop := ∀ i, b.Has i ↔ i ∈ s

theorem get?_eq_none : b.get? i = none ↔ b.capacity ≤ i := by
  rw [get?, Option.map_eq_none_iff, List.getElem?_eq_none_iff, capacity]
  omega

theorem Has.lt_capacity (h : b.Has i) : i < b.capacity := by
  by_contra hle
  rw [Has, get?_eq_none.2 (Nat.not_lt.1 hle)] at h
  cases h

theorem holds_entries (b : Bitmap) : b.Holds b.entries := by
  intro i
  rw [entries, Finset.mem_filter, Finset.mem_range]
  have hbit : i < b.capacity →
      (b.Has i ↔ (b.bytes[i / 8]?.getD 0).toNat.testBit (i % 8) = true) := by
    intro hlt
    obtain ⟨byte, hbyte⟩ := exists_byte hlt
    rw [has_of_byte hbyte, hbyte, testBit_eq_getLsbD (Nat.mod_lt i (by decide))]
    rfl
  constructor
  · intro hset
    exact ⟨hset.lt_capacity, (hbit hset.lt_capacity).1 hset⟩
  · rintro ⟨hlt, hset⟩
    exact (hbit hlt).2 hset

theorem Holds.get?_eq (h : b.Holds s) (i : Nat) :
    b.get? i = if i < b.capacity then some (decide (i ∈ s)) else none := by
  split
  next hlt =>
    obtain ⟨byte, hbyte⟩ := exists_byte hlt
    rw [get?_of_byte hbyte, Option.some_inj, Bool.eq_iff_iff, decide_eq_true_iff, ← h,
      has_of_byte hbyte]
  next hle => exact get?_eq_none.2 (Nat.not_lt.1 hle)

theorem LeastOutside.eq_find? {p : Nat → Prop} [DecidablePred p] {stop : Nat} {found : Option Nat}
    (h : LeastOutside p 0 stop found) : found = (List.range stop).find? (¬ p ·) := by
  symm
  cases found with
  | none =>
      rw [List.find?_eq_none]
      intro i hi
      simpa using h i (Nat.zero_le i) (List.mem_range.1 hi)
  | some i =>
      obtain ⟨⟨-, hlt⟩, hnot, hbelow⟩ := h
      rw [List.find?_range_eq_some]
      refine ⟨by simpa using hnot, List.mem_range.2 hlt, ?_⟩
      intro j hj
      simpa using hbelow j (Nat.zero_le j) hj

inductive Update where
  | set (entry : Nat)
  | clear (entry : Nat)
  | clearAll
  deriving DecidableEq, Repr

namespace Update

def perform? (b : Bitmap) : Update → Option Bitmap
  | set entry => b.set? entry
  | clear entry => b.clear? entry
  | clearAll => some b.clearAll

def index? : Update → Option Nat
  | set entry => some entry
  | clear entry => some entry
  | clearAll => none

/-- The bitmap behind an update; one that fails has changed no byte. -/
def after (b : Bitmap) (update : Update) : Bitmap := (update.perform? b).getD b

def onSet (capacity : Nat) (s : Finset Nat) : Update → Finset Nat
  | set entry => if entry < capacity then insert entry s else s
  | clear entry => s.erase entry
  | clearAll => ∅

end Update

variable {update : Update}

theorem update?_eq_none {change : UInt8 → Nat → UInt8} :
    b.update? entry change = none ↔ b.capacity ≤ entry := by
  rw [update?, Option.map_eq_none_iff, List.getElem?_eq_none_iff, capacity]
  omega

theorem capacity_update? {change : UInt8 → Nat → UInt8}
    (hupdate : b.update? entry change = some b') : b'.capacity = b.capacity := by
  obtain ⟨byte, -, rfl⟩ := Option.map_eq_some_iff.1 hupdate
  rw [capacity, capacity, List.length_set]

theorem capacity_clearAll (b : Bitmap) : b.clearAll.capacity = b.capacity := by
  rw [capacity, capacity, clearAll, List.length_map]

theorem not_has_clearAll : ¬ b.clearAll.Has i := by
  intro hset
  obtain ⟨byte, hbyte⟩ := exists_byte hset.lt_capacity
  obtain ⟨_, -, rfl⟩ := List.mem_map.1 (List.mem_of_getElem? hbyte)
  rw [has_of_byte hbyte, testBit_zero (Nat.mod_lt i (by decide))] at hset
  cases hset

namespace Update

theorem perform?_eq_none :
    update.perform? b = none ↔ ∃ entry, update.index? = some entry ∧ b.capacity ≤ entry := by
  cases update with
  | set entry =>
      rw [perform?, set?, update?_eq_none]
      simp [index?]
  | clear entry =>
      rw [perform?, clear?, update?_eq_none]
      simp [index?]
  | clearAll => simp [perform?, index?]

theorem after_cases (b : Bitmap) (update : Update) :
    update.perform? b = none ∧ update.after b = b ∨
      ∃ b', update.perform? b = some b' ∧ update.after b = b' := by
  unfold after
  cases hrun : update.perform? b with
  | none => exact .inl ⟨rfl, rfl⟩
  | some b' => exact .inr ⟨b', rfl, rfl⟩

theorem capacity_after (b : Bitmap) (update : Update) :
    (update.after b).capacity = b.capacity := by
  rcases update.after_cases b with ⟨-, hafter⟩ | ⟨b', hrun, hafter⟩
  · rw [hafter]
  · rw [hafter]
    cases update with
    | set entry => exact capacity_update? hrun
    | clear entry => exact capacity_update? hrun
    | clearAll => exact Option.some.inj hrun ▸ capacity_clearAll b

theorem get?_after (hone : update.index? ≠ none) (hother : update.index? ≠ some i) :
    (update.after b).get? i = b.get? i := by
  rcases update.after_cases b with ⟨-, hafter⟩ | ⟨b', hrun, hafter⟩
  · rw [hafter]
  · rw [hafter]
    cases update with
    | set entry => rw [get?_set? hrun, if_neg fun heq => hother (congrArg some heq.symm)]
    | clear entry => rw [get?_clear? hrun, if_neg fun heq => hother (congrArg some heq.symm)]
    | clearAll => exact absurd rfl hone

end Update

theorem Holds.after (h : b.Holds s) (update : Update) :
    (update.after b).Holds (update.onSet b.capacity s) := by
  intro i
  rcases update.after_cases b with ⟨hrun, hafter⟩ | ⟨b', hrun, hafter⟩
  · rw [hafter, h]
    obtain ⟨entry, hentry, hbeyond⟩ := Update.perform?_eq_none.1 hrun
    cases update with
    | set _ =>
        cases hentry
        rw [Update.onSet, if_neg (Nat.not_lt.2 hbeyond)]
    | clear _ =>
        cases hentry
        have hout : entry ∉ s := fun hmem => absurd ((h entry).2 hmem).lt_capacity (by omega)
        rw [Update.onSet, Finset.erase_eq_of_notMem hout]
    | clearAll => cases hentry
  · rw [hafter]
    cases update with
    | set entry =>
        have hlt : entry < b.capacity := by
          by_contra hbeyond
          rw [Update.perform?, set?, update?_eq_none.2 (Nat.not_lt.1 hbeyond)] at hrun
          cases hrun
        rw [has_set? hrun, h, Update.onSet, if_pos hlt, Finset.mem_insert]
    | clear entry => rw [has_clear? hrun, h, Update.onSet, Finset.mem_erase]
    | clearAll =>
        cases hrun
        exact iff_of_false not_has_clearAll (Finset.notMem_empty i)

theorem Holds.run (h : b.Holds s) (updates : List Update) :
    (updates.foldl Update.after b).capacity = b.capacity ∧
      (updates.foldl Update.after b).Holds (updates.foldl (Update.onSet b.capacity) s) := by
  -- on the updates, with the bitmap as it is before the first of them
  induction updates generalizing b s with
  | nil => exact ⟨rfl, h⟩
  | cons update rest ih =>
      -- the capacity is that of the first bitmap all along
      have hrest := ih (h.after update)
      rw [update.capacity_after] at hrest
      exact hrest

/--
A bitmap refines a finite set.  After any sequence of updates it has exactly the
entries of the set that the updates leave of those it had at first, it counts
them, and it finds the least entry that is missing.  What is about an entry
beyond the last byte fails and changes nothing.
-/
theorem updates_refine_set (b : Bitmap) (updates : List Update) :
    let b' := updates.foldl Update.after b
    let s := updates.foldl (Update.onSet b.capacity) b.entries
    (∀ i, b'.get? i = if i < b.capacity then some (decide (i ∈ s)) else none) ∧
      (∀ limit, b'.countSet limit =
        ((Finset.range (min limit b.capacity)).filter (· ∈ s)).card) ∧
      (∀ limit, LeastOutside (· ∈ s) 0 (min limit b.capacity) (b'.firstClear limit) ∧
        b'.firstClear limit = (List.range (min limit b.capacity)).find? (· ∉ s)) ∧
      ∀ update : Update,
        (update.perform? b' = none ↔
          ∃ entry, update.index? = some entry ∧ b.capacity ≤ entry) ∧
        (update.perform? b' = none → update.after b' = b') ∧
        ∀ i, update.index? ≠ none → update.index? ≠ some i →
          (update.after b').get? i = b'.get? i := by
  intro b' s
  obtain ⟨hcapacity, hholds⟩ : b'.capacity = b.capacity ∧ b'.Holds s :=
    (holds_entries b).run updates
  rw [← hcapacity]
  refine ⟨hholds.get?_eq, fun limit => ?_, fun limit => ?_, fun update => ⟨?_, ?_, ?_⟩⟩
  · rw [countSet_eq_card]
    congr 1
    exact Finset.filter_congr fun i _ => hholds i
  · have hfound := firstClear_spec b' limit
    have hset : b'.Has = (· ∈ s) := funext fun i => propext (hholds i)
    rw [hset] at hfound
    exact ⟨hfound, hfound.eq_find?⟩
  · exact Update.perform?_eq_none
  · intro hnone
    rw [Update.after, hnone, Option.getD_none]
  · exact fun i hone hother => Update.get?_after hone hother

end EarlyBoot.Bitmap
