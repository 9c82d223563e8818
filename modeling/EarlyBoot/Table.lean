/-!
# Tables

A table maps keys to values by a list of pairs with one entry for every key
that is present.  Inserting a present key replaces its value in place.
-/

namespace EarlyBoot

structure Table (κ ν : Type) where
  entries : List (κ × ν)
  deriving DecidableEq, Repr

namespace Table

variable {κ ν : Type} [DecidableEq κ]

def empty : Table κ ν := ⟨[]⟩

def get? (t : Table κ ν) (key : κ) : Option ν :=
  (t.entries.find? (·.1 = key)).map (·.2)

def insertInto (key : κ) (value : ν) : List (κ × ν) → List (κ × ν)
  | [] => [(key, value)]
  | (k, v) :: rest => if k = key then (key, value) :: rest else (k, v) :: insertInto key value rest

def insert (t : Table κ ν) (key : κ) (value : ν) : Table κ ν := ⟨insertInto key value t.entries⟩

theorem get?_insert (t : Table κ ν) (key other : κ) (value : ν) :
    (t.insert key value).get? other = if other = key then some value else t.get? other := by
  obtain ⟨entries⟩ := t
  unfold insert get?
  dsimp only
  induction entries with
  | nil =>
      by_cases h : other = key
      · simp [insertInto, h]
      · simp [insertInto, h, Ne.symm h]
  | cons entry rest ih =>
      obtain ⟨k, v⟩ := entry
      by_cases hk : k = key
      · subst hk
        by_cases h : other = k
        · simp [insertInto, h]
        · simp [insertInto, h, Ne.symm h]
      · by_cases h : other = k
        · subst h
          simp [insertInto, hk]
        · simp [insertInto, hk, Ne.symm h, ih]

end Table

end EarlyBoot
