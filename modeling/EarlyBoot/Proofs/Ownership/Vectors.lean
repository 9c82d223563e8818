import EarlyBoot.Proofs.Ownership.Boxes

/-!
# What a vector owns

A vector owns the block in which it keeps its elements, if it has one, and what
the elements own.  A push moves an element into the vector, or drops it; a pop
moves one out; clearing drops them all.  Only a push may ask for room, and only
if the vector is full.
-/

namespace EarlyBoot.HeapVec

open BlockHeap (charge alignment)

variable {α : Type} [Stored α] {v v' : HeapVec α} {f : Firmware} {blocks : List BlockInfo}
  {n : Int}

def place (v : HeapVec α) : Option (Nat × Nat) :=
  if v.ownsBlock then some (v.address, v.capacity * Stored.size α) else none

structure Sized (v : HeapVec α) : Prop where
  length_le : v.length ≤ v.capacity
  address_lt : v.address < Word.limit
  capacity_lt : v.capacity < Word.limit
  capacity_of_size : Stored.size α = 0 → v.capacity = Word.greatest

theorem ownsBlock_iff : v.ownsBlock = true ↔ 0 < v.capacity ∧ 0 < Stored.size α := by
  simp [ownsBlock]

theorem place_of_owns (h : v.ownsBlock = true) :
    v.place = some (v.address, v.capacity * Stored.size α) := if_pos h

theorem place_of_not_owns (h : ¬ v.ownsBlock = true) : v.place = none := if_neg h

theorem toList_congr (hs : v.Sized) {m m' : Memory} (h : SameAt v.place m m') :
    v.toList m' = v.toList m := by
  apply toList_shift rfl
  intro k hk
  have hfit : v.length * Stored.size α ≤ v.capacity * Stored.size α :=
    Nat.mul_le_mul_right _ hs.length_le
  have hpos : 0 < v.capacity * Stored.size α := by omega
  have howns : v.ownsBlock = true :=
    ownsBlock_iff.2 ⟨Nat.pos_of_mul_pos_right hpos, Nat.pos_of_mul_pos_left hpos⟩
  exact h _ _ (place_of_owns howns) k (by omega)

def shell (v : HeapVec α) : Deed := Deed.storage v.place + Deed.fact v.Sized

@[simp] theorem budget_shell (v : HeapVec α) : v.shell.budget = 0 := by
  simp [shell]

/-- The block of a vector with certain elements in it; what they own is not included. -/
def keeps (v : HeapVec α) (xs : List α) : Deed :=
  v.shell.showing (fun f => v.toList f.memory = xs) fun h hvalid hapart hlist =>
    (toList_congr hvalid.2 (h.sameAt hvalid.1 fun p hp => hapart p
      (Multiset.mem_add.2 (.inl hp)))).trans hlist

@[simp] theorem budget_keeps (v : HeapVec α) (xs : List α) : (v.keeps xs).budget = 0 :=
  v.budget_shell

theorem shell_amounts {xs : List α} (hlist : v.toList f.memory = xs) :
    Amounts f blocks v.shell (v.keeps xs) :=
  (Amounts.refl _ _ _).showing fun _ => hlist

theorem keeps_amounts (v : HeapVec α) (xs : List α) : Amounts f blocks (v.keeps xs) v.shell :=
  .of_showing fun _ => .refl _ _ _

section Deeds

variable [HasDeed α]

instance : HasDeed (HeapVec α) where
  deed v := Deed.around v.place v.Sized (fun m => deed (v.toList m)) fun hs _ _ h => by
    rw [toList_congr hs h]
  budget_deed _ := rfl

theorem deed_eq (v : HeapVec α) :
    deed v = Deed.around v.place v.Sized (fun m => deed (v.toList m)) fun hs _ _ h => by
      rw [toList_congr hs h] := rfl

theorem amounts_opened (v : HeapVec α) (f : Firmware) (blocks : List BlockInfo) :
    Amounts f blocks (deed v) (v.keeps (v.toList f.memory) + deed (v.toList f.memory)) := by
  have hopened : Amounts f blocks (deed v)
      (Deed.storage v.place + deed (v.toList f.memory) + Deed.fact v.Sized) := by
    rw [v.deed_eq]
    exact EarlyBoot.amounts_opened (by simp)
  rw [add_right_comm] at hopened
  exact hopened.trans ((shell_amounts rfl).add (.refl _ _ _))

theorem amounts_closed (v : HeapVec α) (xs : List α) (f : Firmware) (blocks : List BlockInfo) :
    Amounts f blocks (v.keeps xs + deed xs) (deed v) := by
  rintro ⟨⟨hshell, rfl⟩, hcontents⟩
  have hclosed : Amounts f blocks (v.shell + deed (v.toList f.memory)) (deed v) := by
    rw [shell, add_right_comm, v.deed_eq]
    exact EarlyBoot.amounts_closed (fun m => deed (v.toList m)) (by simp)
  exact hclosed ⟨hshell, hcontents⟩

end Deeds

/-! ## Growing -/

def doubled (v : HeapVec α) : Nat := if v.capacity = 0 then minCapacity else v.capacity * 2

def pushCharge (v : HeapVec α) : Nat :=
  if v.length = v.capacity then charge (v.doubled * Stored.size α) else 0

theorem nextCapacity_outcome (halign : Stored.align α ≤ alignment) :
    (∃ count size, v.nextCapacity = .error (.sizeOverflow count size) ∧
      (0 < Stored.size α → Word.limit ≤ v.doubled * Stored.size α)) ∨
    v.nextCapacity = .ok (v.doubled, v.doubled * Stored.size α) ∧ v.doubled < Word.limit := by
  have hnext : (if v.capacity = 0 then some minCapacity else Word.mul? v.capacity 2) =
      if v.doubled < Word.limit then some v.doubled else none := by
    unfold doubled Word.mul?
    split <;> rfl
  unfold nextCapacity
  rw [if_neg (Nat.not_lt.2 halign), hnext]
  by_cases hfits : v.doubled < Word.limit
  · rw [if_pos hfits]
    by_cases hbytes : v.doubled * Stored.size α < Word.limit
    · refine .inr ⟨?_, hfits⟩
      simp only [Word.mul?, if_pos hbytes]
    · refine .inl ⟨v.doubled, Stored.size α, ?_, fun _ => Nat.not_lt.1 hbytes⟩
      simp only [Word.mul?, if_neg hbytes]
  · rw [if_neg hfits]
    refine .inl ⟨_, _, rfl, fun hsize => ?_⟩
    exact Nat.le_trans (Nat.not_lt.1 hfits) (Nat.le_mul_of_pos_right _ hsize)

def grown (v : HeapVec α) (xs : List α) (n : Int) : Except HeapError (HeapVec α) → Deed
  | .ok v' => v'.keeps xs + Deed.fund (n - charge (v.doubled * Stored.size α)) +
      Deed.fact (v'.length = v.length ∧ v'.capacity = v.doubled)
  | .error error => v.keeps xs + Deed.fund n + Deed.fact (error.isFatal = false ∧
      (Stored.align α ≤ alignment → error.IsExhaustion ∧
        (0 < Stored.size α → n < charge (v.doubled * Stored.size α))))

theorem shell_of_owns (howns : v.ownsBlock = true) :
    v.shell = Deed.block v.address (v.capacity * Stored.size α) + Deed.fact v.Sized := by
  rw [shell, place_of_owns howns]
  rfl

theorem shell_of_not_owns (howns : ¬ v.ownsBlock = true) : v.shell = Deed.fact v.Sized := by
  rw [shell, place_of_not_owns howns]
  exact zero_add _

theorem block_amounts {xs : List α} (hsized : v.Sized) (howns : v.ownsBlock = true)
    (hlist : v.toList f.memory = xs) :
    Amounts f blocks (Deed.block v.address (v.capacity * Stored.size α)) (v.keeps xs) := by
  have hshell : Amounts f blocks (Deed.block v.address (v.capacity * Stored.size α)) v.shell := by
    rw [shell_of_owns howns]
    exact (Amounts.refl _ _ _).and_fact fun _ => hsized
  exact hshell.trans (shell_amounts hlist)

theorem keeps_amounts_block (howns : v.ownsBlock = true) (xs : List α) :
    Amounts f blocks (v.keeps xs) (Deed.block v.address (v.capacity * Stored.size α)) := by
  refine (v.keeps_amounts xs).trans ?_
  rw [shell_of_owns howns]
  exact .of_fact fun _ => .refl _ _ _

theorem keeps_amounts_zero (howns : ¬ v.ownsBlock = true) (xs : List α) :
    Amounts f blocks (v.keeps xs) 0 := by
  refine (v.keeps_amounts xs).trans ?_
  rw [shell_of_not_owns howns]
  exact fun _ => ⟨trivial, rfl, le_refl _⟩

variable {xs : List α}

theorem grow_first (hsized : v.Sized) (hlist : v.toList f.memory = xs) (hzero : v.capacity = 0)
    (hsize : 0 < Stored.size α) (hdoubled : v.doubled < Word.limit) :
    Delivers (do
      let result ← v.growthRequest (v.doubled * Stored.size α)
      pure (result.map fun address => { v with address, capacity := v.doubled }) : FirmwareM _)
      f blocks (v.keeps xs + Deed.fund n) fun reply _ => v.grown xs n reply := by
  have hrequest : v.growthRequest (v.doubled * Stored.size α) =
      Heap.malloc (v.doubled * Stored.size α) := if_pos hzero
  have hpos : 0 < v.doubled := by
    rw [doubled, if_pos hzero]
    decide
  -- without a block there are no elements, so nothing need be copied
  have hlength : v.length = 0 := Nat.le_zero.1 (hzero ▸ hsized.length_le)
  rw [hrequest, add_comm]
  refine (Heap.malloc_delivers _ n).bind_frame (by simp) ?_
  rintro (error | p) f' blocks' -
  · refine .pure ?_
    have hparts : granted (v.doubled * Stored.size α) n (.error error) + v.keeps xs =
        v.keeps xs + Deed.fund n +
          Deed.fact (error.IsExhaustion ∧ n < charge (v.doubled * Stored.size α)) := by
      change Deed.fact _ + Deed.fund n + v.keeps xs = _
      abel
    rw [hparts]
    refine .of_fact fun ⟨hexhausted, hless⟩ => (Amounts.refl _ _ _).and_fact fun _ => ?_
    exact ⟨hexhausted.recoverable, fun _ => ⟨hexhausted, fun _ => hless⟩⟩
  · refine .pure ?_
    let v' : HeapVec α := { v with address := p, capacity := v.doubled }
    have hparts : granted (v.doubled * Stored.size α) n (.ok p) + v.keeps xs =
        Deed.block p (v.doubled * Stored.size α) + v.keeps xs +
          Deed.fund (n - charge (v.doubled * Stored.size α)) + Deed.fact (p < Word.limit) := by
      rw [granted_ok]
      abel
    rw [hparts]
    refine .of_fact fun hp => (Amounts.add ?_ (.refl _ _ _)).and_fact fun _ => ⟨rfl, rfl⟩
    have hsized' : v'.Sized :=
      ⟨hlength ▸ Nat.zero_le _, hp, hdoubled, fun h => absurd h (Nat.ne_of_gt hsize)⟩
    have hlist' : v'.toList f'.memory = xs := by
      rw [← hlist, toList_eq_nil hlength, toList_eq_nil]
      exact hlength
    have hnone : ¬ v.ownsBlock = true := by
      rw [ownsBlock_iff]
      omega
    rw [← add_zero (v'.keeps xs)]
    exact (block_amounts hsized' (ownsBlock_iff.2 ⟨hpos, hsize⟩) hlist').add
      (keeps_amounts_zero hnone xs)

theorem grow_again (hsized : v.Sized) (hlist : v.toList f.memory = xs)
    (howns : v.ownsBlock = true) (hdoubled : v.doubled < Word.limit) :
    Delivers (do
      let result ← v.growthRequest (v.doubled * Stored.size α)
      pure (result.map fun address => { v with address, capacity := v.doubled }) : FirmwareM _)
      f blocks (v.keeps xs + Deed.fund n) fun reply _ => v.grown xs n reply := by
  obtain ⟨hcapacity, hsize⟩ := ownsBlock_iff.1 howns
  have hrequest : v.growthRequest (v.doubled * Stored.size α) =
      Heap.realloc v.address (v.doubled * Stored.size α) := if_neg (Nat.ne_of_gt hcapacity)
  have heq : v.doubled = v.capacity * 2 := if_neg (Nat.ne_of_gt hcapacity)
  refine .amounts ?_ ((keeps_amounts_block howns xs).add (.refl _ _ (Deed.fund n)))
  rw [hrequest]
  refine (Heap.realloc_delivers _ _ _ n).bind ?_
  rintro (error | q) f' blocks' -
  · refine .pure (.of_fact fun ⟨hexhausted, hless, hsame⟩ => ?_)
    refine (Amounts.add ?_ (.refl _ _ _)).and_fact fun _ => ?_
    · exact block_amounts hsized howns (by rw [EarlyBoot.firmware_self, hsame, hlist])
    · exact ⟨hexhausted.recoverable, fun _ => ⟨hexhausted, fun _ => hless⟩⟩
  · refine .pure ?_
    let v' : HeapVec α := { v with address := q, capacity := v.doubled }
    refine .of_fact fun ⟨hlimit, hbytes⟩ => ?_
    refine (Amounts.add ?_ (.refl _ _ _)).and_fact fun _ => ⟨rfl, rfl⟩
    have hlength := hsized.length_le
    have hpos : 0 < v.doubled * Stored.size α := Nat.mul_pos (by omega) hsize
    have hsized' : v'.Sized := ⟨Nat.le_trans hlength (by change v.capacity ≤ v.doubled; omega),
      hlimit hpos, hdoubled, fun h => absurd h (Nat.ne_of_gt hsize)⟩
    have howns' : v'.ownsBlock = true :=
      ownsBlock_iff.2 ⟨by change 0 < v.doubled; omega, hsize⟩
    -- all elements lie in the part that is kept
    have hfit : v.length * Stored.size α ≤ v.capacity * Stored.size α :=
      Nat.mul_le_mul_right _ hlength
    have hfit' : v.capacity * Stored.size α ≤ v.doubled * Stored.size α :=
      Nat.mul_le_mul_right _ (by omega)
    have hlist' : v'.toList f'.memory = xs := by
      rw [← hlist]
      exact toList_shift rfl fun k hk => hbytes k (by omega) (by omega)
    exact block_amounts hsized' howns' hlist'

theorem lt_limit_of_holds (hs : Holds f blocks (v.keeps xs + Deed.fund n)) : n < Word.limit := by
  by_contra hle
  obtain ⟨b, hb, -, hsize⟩ := hs.funded n (by simp) (by unfold Word.limit at hle; omega)
  have hstop := (hs.wellFormed.tiles.bounds hb).2.1
  have harena := hs.placed.arena_lt
  simp only [BlockInfo.stop] at *
  omega

theorem grow_delivers :
    Delivers v.grow f blocks (v.keeps xs + Deed.fund n) fun reply _ => v.grown xs n reply := by
  refine .of_holds fun hs => ?_
  obtain ⟨⟨-, hsized : v.Sized⟩, hlist⟩ := hs.valid.1
  by_cases halign : Stored.align α ≤ alignment
  · rcases nextCapacity_outcome halign with ⟨count, size, hnext, hlarge⟩ | ⟨hnext, hdoubled⟩
    · have hrun : v.grow = pure (.error (.sizeOverflow count size)) := by
        unfold grow
        rw [hnext]
      rw [hrun]
      refine .pure ((Amounts.refl _ _ _).and_fact fun _ => ?_)
      refine ⟨rfl, fun _ => ⟨.sizeOverflow, fun hsize => ?_⟩⟩
      have hn := lt_limit_of_holds hs
      have hle := Nat.le_trans (hlarge hsize) (BlockHeap.le_charge _)
      omega
    · rw [grow_eq hnext]
      by_cases hsize : 0 < Stored.size α
      · by_cases hzero : v.capacity = 0
        · exact grow_first hsized hlist hzero hsize hdoubled
        · exact grow_again hsized hlist (ownsBlock_iff.2 ⟨by omega, hsize⟩) hdoubled
      · have hcapacity := hsized.capacity_of_size (by omega)
        unfold doubled at hdoubled
        rw [if_neg (by rw [hcapacity]; decide), hcapacity] at hdoubled
        exact absurd hdoubled (by decide)
  · have hrun : v.grow = pure (.error (.unsupportedAlignment (Stored.align α))) := by
      unfold grow nextCapacity
      rw [if_pos (Nat.not_le.1 halign)]
    rw [hrun]
    exact .pure ((Amounts.refl _ _ _).and_fact fun _ => ⟨rfl, fun h => absurd h halign⟩)

def reserved (v : HeapVec α) (xs : List α) (n : Int) : Except HeapError (HeapVec α) → Deed
  | .ok v' => v'.keeps xs + Deed.fund (n - v.pushCharge) +
      Deed.fact (v'.length = v.length ∧ v.length < v'.capacity ∧
        v'.capacity = if v.length = v.capacity then v.doubled else v.capacity)
  | .error error => v.keeps xs + Deed.fund n + Deed.fact (error.isFatal = false ∧
      (Stored.align α ≤ alignment → error.IsExhaustion ∧ (0 < Stored.size α → n < v.pushCharge)))

theorem reserve_delivers :
    Delivers v.reserve f blocks (v.keeps xs + Deed.fund n) fun reply _ =>
      v.reserved xs n reply := by
  refine .of_holds fun hs => ?_
  obtain ⟨⟨-, hsized : v.Sized⟩, -⟩ := hs.valid.1
  have hlength := hsized.length_le
  unfold reserve
  by_cases hfull : v.length = v.capacity
  · have hcharge : v.pushCharge = charge (v.doubled * Stored.size α) := if_pos hfull
    rw [if_pos hfull]
    refine grow_delivers.leaving ?_
    rintro (error | v') f' blocks'
    · refine .of_fact fun ⟨hrecoverable, hreason⟩ => (Amounts.refl _ _ _).and_fact fun _ => ?_
      exact ⟨hrecoverable, hcharge ▸ hreason⟩
    · change Amounts f' blocks' (v'.keeps xs + _ + _) (v'.keeps xs + _ + _)
      rw [hcharge]
      refine .of_fact fun ⟨hsame, hcapacity⟩ => (Amounts.refl _ _ _).and_fact fun _ => ?_
      refine ⟨hsame, ?_, by rw [if_pos hfull, hcapacity]⟩
      rw [hcapacity, doubled, hfull]
      unfold minCapacity
      split <;> omega
  · have hcharge : v.pushCharge = 0 := if_neg hfull
    rw [if_neg hfull]
    refine .pure ?_
    change Amounts f blocks _ (v.keeps xs + _ + _)
    rw [hcharge, Nat.cast_zero, sub_zero]
    exact (Amounts.refl _ _ _).and_fact fun _ => ⟨rfl, by omega, by rw [if_neg hfull]⟩

/-! ## Pushing -/

theorem writeElement_delivers {index : Nat} (hindex : index < v.capacity) (x : α) :
    Delivers (v.writeElement index x) f blocks v.shell fun _ f' => v.shell +
      Deed.fact (f'.memory =
        f.memory.writeBytes (v.elementAddress index) (Stored.encode x)) := by
  have hlength := Stored.length_encode x
  by_cases howns : v.ownsBlock = true
  · have hend := end_le_of_lt (α := α) hindex
    rw [shell_of_owns howns]
    have hwrite : Delivers (v.writeElement index x) f blocks
        (Deed.block v.address (v.capacity * Stored.size α)) _ :=
      write_delivers (by rw [elementAddress]; omega) (by rw [elementAddress]; omega)
    refine (hwrite.frame (by simp)).leaving fun _ f' blocks' => ?_
    rw [add_right_comm]
    exact .of_fact fun hf => (Amounts.refl _ _ _).and_fact fun _ => by rw [hf]
  · have hnil : Stored.encode x = [] := by
      rw [ownsBlock_iff] at howns
      exact List.length_eq_zero_iff.1 (by omega)
    have hrun : v.writeElement index x f = .ok () f := by
      unfold writeElement
      rw [hnil]
      rfl
    refine .of_run hrun ⟨rfl, rfl, rfl⟩ ((Amounts.refl _ _ _).and_fact fun _ => ?_)
    rw [hnil]
    rfl

theorem replace_delivers {index : Nat} (hindex : index < xs.length) (x : α) :
    Delivers (v.writeElement index x) f blocks (v.keeps xs) fun _ _ =>
      v.keeps (xs.set index x) := by
  refine .of_holds fun hs => ?_
  obtain ⟨⟨-, hsized : v.Sized⟩, hlist⟩ := hs.valid
  have hlength : xs.length = v.length := by
    rw [← hlist, length_toList]
  have hroom : index < v.capacity := Nat.lt_of_lt_of_le (hlength ▸ hindex) hsized.length_le
  refine .amounts ?_ (v.keeps_amounts xs)
  refine (writeElement_delivers hroom x).leaving fun _ f' blocks' => ?_
  refine .of_fact fun hf => shell_amounts ?_
  rw [EarlyBoot.firmware_self, hf, toList_write]
  exact congrArg (·.set index x) hlist

theorem append_delivers (x : α) (hroom : v.length < v.capacity) :
    Delivers (do
      v.writeElement v.length x
      pure (.ok { v with length := v.length + 1 }) : FirmwareM (Except HeapError (HeapVec α)))
      f blocks (v.keeps xs) fun reply _ =>
        ({ v with length := v.length + 1 } : HeapVec α).keeps (xs ++ [x]) +
          Deed.fact (reply = .ok { v with length := v.length + 1 }) := by
  refine .of_holds fun hs => ?_
  obtain ⟨-, hlist⟩ := hs.valid
  refine .amounts ?_ (v.keeps_amounts xs)
  refine (writeElement_delivers hroom x).bind ?_
  rintro _ f' blocks' -
  refine .of_fact fun hf => .pure (Amounts.and_fact ?_ fun _ => rfl)
  let v' : HeapVec α := { v with length := v.length + 1 }
  have hshell : Amounts f' blocks' v.shell v'.shell := by
    refine Amounts.add (.refl _ _ _) fun hsized => ⟨?_, rfl, le_refl _⟩
    obtain ⟨-, haddress, hcapacity, hzero⟩ : v.Sized := hsized
    exact ⟨hroom, haddress, hcapacity, hzero⟩
  refine hshell.trans (shell_amounts ?_)
  rw [hf, ← hlist]
  exact toList_append v f.memory x

variable [Owned α]

def pushed (v : HeapVec α) (xs : List α) (x : α) (d : Deed) (n : Int) :
    Except HeapError (HeapVec α) → Deed
  | .ok v' => v'.keeps (xs ++ [x]) + d + Deed.fund (n - v.pushCharge) +
      Deed.fact (v'.length = v.length + 1 ∧
        v'.capacity = if v.length = v.capacity then v.doubled else v.capacity)
  | .error error => v.keeps xs + Deed.fund n + Deed.fact (error.isFatal = false ∧
      (Stored.align α ≤ alignment → error.IsExhaustion ∧ (0 < Stored.size α → n < v.pushCharge)))

theorem push_delivers {x : α} {d : Deed} (n : Int) (hbudget : d.budget = 0)
    (hdrop : ∀ f blocks, Delivers (Owned.drop x) f blocks d fun _ _ => 0) :
    Delivers (v.push x) f blocks (v.keeps xs + d + Deed.fund n) fun reply _ =>
      v.pushed xs x d n reply := by
  unfold push
  rw [add_right_comm]
  refine reserve_delivers.bind_frame (by simp [hbudget]) ?_
  rintro (error | v₁) f₁ blocks₁ -
  · rw [add_comm]
    refine (hdrop f₁ blocks₁).bind_frame (by simp [hbudget]) ?_
    rintro _ f₂ blocks₂ -
    rw [zero_add]
    exact .pure (.refl _ _ _)
  · have hparts : v.reserved xs n (.ok v₁) + d =
        v₁.keeps xs + (d + Deed.fund (n - v.pushCharge)) +
          Deed.fact (v₁.length = v.length ∧ v.length < v₁.capacity ∧
            v₁.capacity = if v.length = v.capacity then v.doubled else v.capacity) := by
      change v₁.keeps xs + Deed.fund _ + Deed.fact _ + _ = _
      abel
    rw [hparts]
    refine .of_fact fun ⟨hlength, hroom, hcapacity⟩ => ?_
    have happend : Delivers _ f₁ blocks₁ (v₁.keeps xs) _ := append_delivers x (hlength ▸ hroom)
    refine (happend.frame (by simp)).leaving ?_
    rintro reply f₂ blocks₂
    rw [add_right_comm]
    refine .of_fact fun hreply => ?_
    rw [hreply, ← add_assoc]
    exact (Amounts.refl _ _ _).and_fact fun _ => ⟨by rw [hlength], hcapacity⟩

omit [Owned α] in
theorem pop_delivers :
    Delivers v.pop f blocks (v.keeps xs) fun reply _ =>
      match reply with
      | none => v.keeps xs + Deed.fact (xs = [])
      | some (x, v') => v'.keeps xs.dropLast + Deed.fact (xs = xs.dropLast ++ [x]) := by
  refine .of_holds fun hs => ?_
  obtain ⟨-, hlist⟩ := hs.valid
  unfold pop
  split
  next hlength =>
    exact .pure ((Amounts.refl _ _ _).and_fact fun _ => hlist ▸ toList_eq_nil hlength _)
  next last hlength =>
    let v' : HeapVec α := { v with length := last }
    have hsplit : xs = v'.toList f.memory ++ [v.readElement last f.memory] :=
      hlist ▸ toList_succ hlength f.memory
    have hinit : xs.dropLast = v'.toList f.memory := by
      rw [hsplit, List.dropLast_concat]
    have hlook : FirmwareM.look (v.readElement last) f = .ok (v.readElement last f.memory) f := rfl
    refine .bind_ok hlook (.pure ?_) rfl
    refine Amounts.and_fact ?_ fun _ => hinit ▸ hsplit
    have hshell : Amounts f blocks v.shell v'.shell := by
      refine Amounts.add (.refl _ _ _) fun hsized => ⟨?_, rfl, le_refl _⟩
      obtain ⟨hle, haddress, hcapacity, hzero⟩ : v.Sized := hsized
      exact ⟨by change last ≤ v.capacity; omega, haddress, hcapacity, hzero⟩
    exact ((v.keeps_amounts xs).trans hshell).trans (shell_amounts hinit.symm)

/-! ## Dropping -/

theorem dropElements_delivers {d : Deed} (hbudget : d.budget = 0)
    (hdrop : ∀ f blocks, Delivers (Owned.dropAll xs) f blocks d fun _ _ => 0) :
    Delivers v.dropElements f blocks (v.keeps xs + d) fun _ _ => v.shell := by
  refine .of_holds fun hs => ?_
  obtain ⟨⟨-, hlist⟩, -⟩ := hs.valid
  have helements : v.elements f = .ok xs f := hlist ▸ rfl
  refine .amounts ?_ ((v.keeps_amounts xs).add (.refl _ _ d))
  refine .bind_ok helements ?_ rfl
  rw [add_comm]
  refine ((hdrop f blocks).frame (by simp [hbudget])).leaving fun _ f' blocks' => ?_
  rw [zero_add]
  exact .refl _ _ _

omit [Owned α] in
theorem cleared_amounts (v : HeapVec α) : Amounts f blocks v.shell (v.cleared.keeps []) := by
  have hshell : Amounts f blocks v.shell v.cleared.shell := by
    refine Amounts.add (.refl _ _ _) fun hsized => ⟨?_, rfl, le_refl _⟩
    obtain ⟨-, haddress, hcapacity, hzero⟩ : v.Sized := hsized
    exact ⟨Nat.zero_le v.capacity, haddress, hcapacity, hzero⟩
  exact hshell.trans (shell_amounts (toList_eq_nil rfl f.memory))

theorem clear_delivers {d : Deed} (hbudget : d.budget = 0)
    (hdrop : ∀ f blocks, Delivers (Owned.dropAll xs) f blocks d fun _ _ => 0) :
    Delivers v.clear f blocks (v.keeps xs + d) fun v' _ => v'.keeps [] := by
  refine (dropElements_delivers hbudget hdrop).bind ?_
  rintro _ f' blocks' -
  exact .pure v.cleared_amounts

theorem drop_delivers {d : Deed} (hbudget : d.budget = 0)
    (hdrop : ∀ f blocks, Delivers (Owned.dropAll xs) f blocks d fun _ _ => 0) (f : Firmware)
    (blocks : List BlockInfo) :
    Delivers (Owned.drop v) f blocks (v.keeps xs + d) fun _ _ => 0 := by
  refine (dropElements_delivers hbudget hdrop).bind ?_
  rintro _ f' blocks' -
  by_cases howns : v.ownsBlock = true
  · rw [if_pos howns, shell_of_owns howns]
    exact .of_fact fun _ => Heap.free_delivers _ _
  · rw [if_neg howns, shell_of_not_owns howns]
    exact .pure fun _ => ⟨trivial, rfl, le_refl _⟩

instance [HasDeed α] [Disposable α] : Disposable (HeapVec α) where
  drop_delivers v f blocks :=
    (drop_delivers (by simp) (dropAll_deed_delivers _) f blocks).amounts
      (v.amounts_opened f blocks)

omit [Owned α] in
theorem empty_amounts (f : Firmware) (blocks : List BlockInfo) :
    Amounts f blocks 0 ((empty : HeapVec α).keeps []) := by
  have hsized : (empty : HeapVec α).Sized := by
    refine ⟨Nat.zero_le _, (by decide : 0 < Word.limit), ?_, fun hsize => if_pos hsize⟩
    change (if Stored.size α = 0 then Word.greatest else 0) < Word.limit
    split <;> decide
  have howns : ¬ (empty : HeapVec α).ownsBlock = true := by
    rw [ownsBlock_iff]
    rintro ⟨hcapacity, hsize⟩
    have hzero : (empty : HeapVec α).capacity = 0 := if_neg (Nat.ne_of_gt hsize)
    exact absurd hcapacity (by omega)
  have hshell : Amounts f blocks 0 (empty : HeapVec α).shell := by
    rw [shell_of_not_owns howns]
    exact fun _ => ⟨hsized, rfl, le_refl _⟩
  exact hshell.trans (shell_amounts (toList_eq_nil rfl f.memory))

end EarlyBoot.HeapVec
