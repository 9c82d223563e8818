import EarlyBoot.Proofs.BlockHeap.Effect

/-!
# Looking at an arbitrary arena

The operations may run on an arena that holds any bytes at all.  A query is
contained if it depends on bytes of the arena only and never leaves the word
range: two memories that agree in the arena get the same answer, and a query
that stops reports an error.  Everything follows from the checks that `load`
and `successor` make; no layout of blocks is assumed.
-/

namespace EarlyBoot.BlockHeap

variable {h : BlockHeap} {m m' : Memory} {α β : Type}

/-- Both memories hold the same bytes in the arena. -/
def Agree (h : BlockHeap) (m m' : Memory) : Prop := ∀ a, ¬ h.Outside a → m.read a = m'.read a

theorem Agree.refl (h : BlockHeap) (m : Memory) : h.Agree m m := fun _ _ => rfl

/-- The answer satisfies `post`, or an error is reported; no sum or difference is out of range. -/
inductive Safe (post : α → Prop) : Except HeapStop α → Prop
  | ok {value : α} : post value → Safe post (.ok value)
  | report {error : HeapError} : Safe post (.error (.report error))

def ContainedQuery (h : BlockHeap) (query : Memory → Except HeapStop α) (post : α → Prop) :
    Prop :=
  ∀ m m', h.Agree m m' → query m = query m' ∧ Safe post (query m)

theorem Safe.bind {post : α → Prop} {post' : β → Prop} {result : Except HeapStop α}
    {next : α → Except HeapStop β} (hs : Safe post result)
    (hnext : ∀ value, post value → Safe post' (next value)) : Safe post' (result >>= next) := by
  cases hs with
  | ok hpost => exact hnext _ hpost
  | report => exact .report

theorem add_safe {a b : Nat} (hlt : a + b < Word.limit) : Safe (· = a + b) (HeapStop.add a b) := by
  rw [HeapStop.add_of_lt hlt]
  exact .ok rfl

theorem sub_safe {a b : Nat} (hle : b ≤ a) : Safe (· = a - b) (HeapStop.sub a b) := by
  rw [HeapStop.sub_of_le hle]
  exact .ok rfl

namespace ContainedQuery

variable {query : Memory → Except HeapStop α} {post : α → Prop}

theorem const {result : Except HeapStop α} (hs : Safe post result) :
    h.ContainedQuery (fun _ => result) post :=
  fun _ _ _ => ⟨rfl, hs⟩

theorem bind {post' : β → Prop} {next : Memory → α → Except HeapStop β}
    (hq : h.ContainedQuery query post)
    (hnext : ∀ value, post value → h.ContainedQuery (next · value) post') :
    h.ContainedQuery (fun m => query m >>= next m) post' := by
  intro m m' ha
  obtain ⟨heq, hsafe⟩ := hq m m' ha
  dsimp only
  rw [← heq]
  generalize query m = result at hsafe ⊢
  cases hsafe with
  | ok hpost => exact hnext _ hpost m m' ha
  | report => exact ⟨rfl, .report⟩

theorem ite {query' : Memory → Except HeapStop α} {cond : Memory → Prop}
    [∀ m, Decidable (cond m)] (hcond : ∀ m m', h.Agree m m' → (cond m ↔ cond m'))
    (hq : h.ContainedQuery query post) (hq' : h.ContainedQuery query' post) :
    h.ContainedQuery (fun m => if cond m then query m else query' m) post := by
  intro m m' ha
  dsimp only
  by_cases hc : cond m
  · rw [if_pos hc, if_pos ((hcond m m' ha).1 hc)]
    exact hq m m' ha
  · rw [if_neg hc, if_neg (mt (hcond m m' ha).2 hc)]
    exact hq' m m' ha

end ContainedQuery

/-! ## Trusted headers -/

theorem inside_of_inBounds {o a : Nat} (hbounds : h.InBounds o) (hlow : h.base + o ≤ a)
    (hhigh : a < h.base + o + headerSize) : ¬ h.Outside a := by
  have hstop := hbounds.1
  rintro (ha | ha)
  · omega
  · omega

theorem Agree.headerAt (ha : h.Agree m m') {o : Nat} (hbounds : h.InBounds o) :
    h.headerAt m o = h.headerAt m' o :=
  Header.read?_congr fun a hlow hhigh => ha a (inside_of_inBounds hbounds hlow hhigh)

theorem Agree.readWord (ha : h.Agree m m') {o : Nat} (hbounds : h.InBounds o) :
    m.readWord (h.base + o) = m'.readWord (h.base + o) := by
  apply Memory.readWord_congr
  intro a hlow hhigh
  apply ha a (inside_of_inBounds hbounds hlow _)
  simp only [headerSize]
  omega

theorem load_contained (o : Nat) :
    h.ContainedQuery (h.load · o) fun header => h.InBounds o ∧ h.Fits o header := by
  intro m m' ha
  dsimp only
  unfold load
  by_cases hbounds : h.InBounds o
  · have hheader := ha.headerAt hbounds
    unfold headerAt at hheader
    rw [if_pos hbounds, if_pos hbounds, hheader]
    refine ⟨rfl, ?_⟩
    cases Header.read? m' (h.base + o) with
    | none => exact .report
    | some header =>
        dsimp only
        split
        · rename_i hfits
          exact .ok ⟨hbounds, hfits⟩
        · exact .report
  · rw [if_neg hbounds, if_neg hbounds]
    exact ⟨rfl, .report⟩

theorem Agree.load (ha : h.Agree m m') (o : Nat) : h.load m o = h.load m' o :=
  (load_contained o m m' ha).1

theorem load_safe (h : BlockHeap) (m : Memory) (o : Nat) :
    Safe (fun header => h.InBounds o ∧ h.Fits o header) (h.load m o) :=
  (load_contained o m m (.refl h m)).2

theorem successor_safe (harena : h.arenaSize < Word.limit / 2) {o : Nat} {header : Header}
    (hfits : o + headerSize + header.size ≤ h.arenaSize) :
    Safe (fun next => next = header.next ∧
        ∀ n ∈ next, n = o + headerSize + header.size ∧ n < h.arenaSize)
      (h.successor o header) := by
  unfold successor
  apply (add_safe (by omega)).bind
  rintro payload rfl
  apply (add_safe (by omega)).bind
  rintro stop rfl
  cases hnext : header.next with
  | none =>
      dsimp only
      split
      · exact .ok ⟨rfl, by simp⟩
      · exact .report
  | some next =>
      dsimp only
      split
      · rename_i hlink
        refine .ok ⟨rfl, ?_⟩
        intro n hn
        rw [← Option.some.inj hn]
        exact ⟨hlink.1, hlink.1 ▸ hlink.2⟩
      · exact .report

/-! ## The walk -/

theorem walkFrom_of_load_error {o : Nat} {stop : HeapStop} (hload : h.load m o = .error stop) :
    h.walkFrom m o = ⟨[], some stop⟩ := by
  rw [walkFrom, hload]

theorem walkFrom_of_successor_error {o : Nat} {header : Header} {stop : HeapStop}
    (hload : h.load m o = .ok header) (hs : h.successor o header = .error stop) :
    h.walkFrom m o = ⟨[(o, header)], some stop⟩ := by
  rw [walkFrom, hload]
  dsimp only
  split <;> simp_all

theorem walkFrom_of_last {o : Nat} {header : Header} (hload : h.load m o = .ok header)
    (hs : h.successor o header = .ok none) : h.walkFrom m o = ⟨[(o, header)], none⟩ := by
  rw [walkFrom, hload]
  dsimp only
  split <;> simp_all

theorem walkFrom_of_next {o next : Nat} {header : Header} (hload : h.load m o = .ok header)
    (hs : h.successor o header = .ok (some next)) :
    h.walkFrom m o =
      ⟨(o, header) :: (h.walkFrom m next).visited, (h.walkFrom m next).stop⟩ := by
  rw [walkFrom, hload]
  dsimp only
  split <;> simp_all

theorem walkFrom_agree (ha : h.Agree m m') (o : Nat) : h.walkFrom m o = h.walkFrom m' o := by
  induction o using walkFrom.induct h m with
  | case1 o stop hload =>
      have hload' := (ha.load o).symm.trans hload
      rw [walkFrom_of_load_error hload, walkFrom_of_load_error hload']
  | case2 o header hload stop hs =>
      have hload' := (ha.load o).symm.trans hload
      rw [walkFrom_of_successor_error hload hs, walkFrom_of_successor_error hload' hs]
  | case3 o header hload hs =>
      have hload' := (ha.load o).symm.trans hload
      rw [walkFrom_of_last hload hs, walkFrom_of_last hload' hs]
  | case4 o header hload next hs hlt ih =>
      have hload' := (ha.load o).symm.trans hload
      rw [walkFrom_of_next hload hs, walkFrom_of_next hload' hs, ih]

/-- A walk from `o` on: headers back to back, up to the arena end or to a reported error. -/
inductive Walks (h : BlockHeap) : Nat → Walk → Prop
  | refused {o : Nat} {error : HeapError} : h.Walks o ⟨[], some (.report error)⟩
  | stuck {o : Nat} {header : Header} {error : HeapError} : h.InBounds o → h.Fits o header →
      h.Walks o ⟨[(o, header)], some (.report error)⟩
  | last {o : Nat} {header : Header} : h.InBounds o → h.Fits o header →
      h.Walks o ⟨[(o, header)], none⟩
  | next {o : Nat} {header : Header} {rest : Walk} : h.InBounds o → h.Fits o header →
      o + headerSize + header.size < h.arenaSize →
      h.Walks (o + headerSize + header.size) rest →
      h.Walks o ⟨(o, header) :: rest.visited, rest.stop⟩

theorem walkFrom_walks (harena : h.arenaSize < Word.limit / 2) (m : Memory) (o : Nat) :
    h.Walks o (h.walkFrom m o) := by
  induction o using walkFrom.induct h m with
  | case1 o stop hload =>
      have hsafe := load_safe h m o
      rw [hload] at hsafe
      rw [walkFrom_of_load_error hload]
      cases hsafe
      exact .refused
  | case2 o header hload stop hs =>
      obtain ⟨hbounds, -, hfits⟩ := load_eq_ok.1 hload
      have hsafe := successor_safe harena hfits.1
      rw [hs] at hsafe
      rw [walkFrom_of_successor_error hload hs]
      cases hsafe
      exact .stuck hbounds hfits
  | case3 o header hload hs =>
      obtain ⟨hbounds, -, hfits⟩ := load_eq_ok.1 hload
      rw [walkFrom_of_last hload hs]
      exact .last hbounds hfits
  | case4 o header hload next hs hlt ih =>
      obtain ⟨hbounds, -, hfits⟩ := load_eq_ok.1 hload
      obtain ⟨-, rfl, hlt⟩ := successor_eq_some hs
      rw [walkFrom_of_next hload hs]
      exact .next hbounds hfits hlt ih

variable {walk : Walk} {o : Nat}

theorem Walks.visited (hwalk : h.Walks o walk) :
    ∀ v ∈ walk.visited, h.InBounds v.1 ∧ h.Fits v.1 v.2 := by
  induction hwalk with
  | refused => simp
  | stuck hbounds hfits => simpa using ⟨hbounds, hfits⟩
  | last hbounds hfits => simpa using ⟨hbounds, hfits⟩
  | next hbounds hfits _ _ ih =>
      intro v hv
      rcases List.mem_cons.1 hv with rfl | hv
      · exact ⟨hbounds, hfits⟩
      · exact ih v hv

theorem Walks.stop_ne (hwalk : h.Walks o walk) : walk.stop ≠ some .overflow := by
  induction hwalk with
  | refused => simp
  | stuck => simp
  | last => simp
  | next _ _ _ _ ih => exact ih

theorem Walks.total (hwalk : h.Walks o walk) (ho : o ≤ h.arenaSize) :
    o + Word.total (walk.blocks.map fun b => headerSize + b.size) ≤ h.arenaSize := by
  induction hwalk with
  | refused => simpa [Walk.blocks, Word.total] using ho
  | stuck _ hfits =>
      have := hfits.1
      simp [Walk.blocks, Word.total]
      omega
  | last _ hfits =>
      have := hfits.1
      simp [Walk.blocks, Word.total]
      omega
  | next _ _ hlt _ ih =>
      have := ih (Nat.le_of_lt hlt)
      simp only [Walk.blocks, List.map_cons, Word.total] at this ⊢
      omega

theorem blocks_agree (ha : h.Agree m m') : h.blocks m = h.blocks m' := by
  unfold blocks walk
  rw [walkFrom_agree ha]

theorem stop_le_of_mem_blocks (harena : h.arenaSize < Word.limit / 2) {b : BlockInfo}
    (hb : b ∈ h.blocks m) : b.stop ≤ h.arenaSize := by
  unfold blocks at hb
  split at hb
  · obtain ⟨v, hv, rfl⟩ := List.mem_map.1 hb
    exact ((walkFrom_walks harena m 0).visited v hv).2.1
  · simp at hb

theorem findFree_contained (harena : h.arenaSize < Word.limit / 2) (payload : Nat) :
    h.ContainedQuery (h.findFree · payload) fun found =>
      ∀ v ∈ found, h.InBounds v.1 ∧ h.Fits v.1 v.2 ∧ payload ≤ v.2.size := by
  intro m m' ha
  have hwalks := walkFrom_walks harena m 0
  dsimp only
  unfold findFree walk
  rw [walkFrom_agree ha]
  refine ⟨rfl, ?_⟩
  rw [← walkFrom_agree ha]
  dsimp only
  split
  · rename_i found hfind
    refine .ok ?_
    intro v hv
    rw [← Option.some.inj hv]
    obtain ⟨hbounds, hfits⟩ := hwalks.visited found (List.mem_of_find?_eq_some hfind)
    have hroom := List.find?_some hfind
    simp only [Bool.and_eq_true, decide_eq_true_eq] at hroom
    exact ⟨hbounds, hfits, hroom.2⟩
  · have hstop := hwalks.stop_ne
    generalize (h.walkFrom m 0).stop = stop at hstop
    cases stop with
    | none => exact .ok (by simp)
    | some stop =>
        cases stop with
        | report error => exact .report
        | overflow => exact absurd rfl hstop

theorem checkVisited_safe (previous : Option Nat) (previousFree : Bool)
    (visited : List (Nat × Header)) :
    Safe (fun _ => True) (checkVisited previous previousFree visited) := by
  induction visited generalizing previous previousFree with
  | nil => exact .ok trivial
  | cons v rest ih =>
      obtain ⟨o, header⟩ := v
      rw [checkVisited]
      split
      · exact ih _ _
      · exact .report

theorem check_contained (harena : h.arenaSize < Word.limit / 2) :
    h.ContainedQuery h.check fun _ => True := by
  intro m m' ha
  have hstop := (walkFrom_walks harena m 0).stop_ne
  have hvisited := checkVisited_safe none false (h.walkFrom m 0).visited
  unfold check walk
  rw [walkFrom_agree ha]
  refine ⟨rfl, ?_⟩
  rw [← walkFrom_agree ha]
  split
  · dsimp only
    generalize checkVisited none false (h.walkFrom m 0).visited = accepted at hvisited
    generalize (h.walkFrom m 0).stop = stop at hstop
    cases hvisited with
    | report => exact .report
    | ok =>
        cases stop with
        | none => exact .ok trivial
        | some stop =>
            cases stop with
            | report error => exact .report
            | overflow => exact absurd rfl hstop
  · exact .report

def recordBlock (stats : HeapStats) (b : BlockInfo) :
    Except HeapStop HeapStats := do
  let blocks ← HeapStop.add stats.blocks 1
  if b.free then
    let free ← HeapStop.add stats.free b.size
    pure { stats with blocks, free, largestFree := max stats.largestFree b.size }
  else
    let used ← HeapStop.add stats.used b.size
    pure { stats with blocks, used }

theorem recordBlock_of_free {stats : HeapStats} {b : BlockInfo} (hfree : b.free = true)
    (hblocks : stats.blocks + 1 < Word.limit) (hsize : stats.free + b.size < Word.limit) :
    recordBlock stats b = .ok
      { stats with
        blocks := stats.blocks + 1
        free := stats.free + b.size
        largestFree := max stats.largestFree b.size } := by
  unfold recordBlock
  rw [HeapStop.add_of_lt hblocks, HeapStop.add_of_lt hsize, hfree]
  rfl

theorem recordBlock_of_used {stats : HeapStats} {b : BlockInfo} (hused : b.free = false)
    (hblocks : stats.blocks + 1 < Word.limit) (hsize : stats.used + b.size < Word.limit) :
    recordBlock stats b = .ok
      { stats with blocks := stats.blocks + 1, used := stats.used + b.size } := by
  unfold recordBlock
  rw [HeapStop.add_of_lt hblocks, HeapStop.add_of_lt hsize, hused]
  rfl

theorem foldlM_recordBlock (stats : HeapStats) (blocks : List BlockInfo)
    (htotal : stats.blocks + stats.used + stats.free +
      Word.total (blocks.map fun b => headerSize + b.size) < Word.limit) :
    blocks.foldlM recordBlock stats = .ok
      { arenaSize := stats.arenaSize
        blocks := stats.blocks + blocks.length
        used := stats.used + Word.total ((blocks.filter (!·.free)).map (·.size))
        free := stats.free + Word.total ((blocks.filter (·.free)).map (·.size))
        largestFree := ((blocks.filter (·.free)).map (·.size)).foldl max stats.largestFree } := by
  -- what all blocks still add fits a word, so each sum on the way does
  induction blocks generalizing stats with
  | nil => rfl
  | cons b rest ih =>
      simp only [List.map_cons, Word.total, headerSize] at htotal ih
      rw [List.foldlM_cons]
      cases hfree : b.free with
      | true =>
          rw [recordBlock_of_free hfree (by omega) (by omega)]
          refine (ih _ (by dsimp only; omega)).trans ?_
          simp [hfree, Word.total, Nat.add_assoc, Nat.add_comm 1]
      | false =>
          rw [recordBlock_of_used hfree (by omega) (by omega)]
          refine (ih _ (by dsimp only; omega)).trans ?_
          simp [hfree, Word.total, Nat.add_assoc, Nat.add_comm 1]

theorem foldlM_blocks (harena : h.arenaSize < Word.limit / 2) (m : Memory) :
    (h.blocks m).foldlM recordBlock ⟨h.arenaSize, 0, 0, 0, 0⟩ = .ok (h.stats m) := by
  have htotal : Word.total ((h.blocks m).map fun b => headerSize + b.size) ≤ h.arenaSize := by
    unfold blocks
    split
    · have := (walkFrom_walks harena m 0).total (Nat.zero_le _)
      rwa [Nat.zero_add] at this
    · exact Nat.zero_le _
  have hlt : 0 + 0 + 0 + Word.total ((h.blocks m).map fun b => headerSize + b.size) <
      Word.limit := by
    omega
  rw [foldlM_recordBlock ⟨h.arenaSize, 0, 0, 0, 0⟩ (h.blocks m) hlt]
  simp [stats]

/-! ## Resolving a pointer -/

theorem classifyUnused_agree (ha : h.Agree m m') (p : Nat) {o : Nat} (hbounds : h.InBounds o) :
    h.classifyUnused m p o = h.classifyUnused m' p o := by
  unfold classifyUnused
  rw [ha.readWord hbounds, blocks_agree ha]

theorem verifyPrevious_contained (harena : h.arenaSize < Word.limit / 2) (o : Nat)
    (link : Option Nat) :
    h.ContainedQuery (h.verifyPrevious · o link) fun _ => True := by
  cases link with
  | none =>
      apply ContainedQuery.const
      change Safe _ (if o = 0 then pure () else throw (.report (.corrupted o)))
      split
      · exact .ok trivial
      · exact .report
  | some previous =>
      apply (load_contained previous).bind
      rintro before ⟨-, hfits⟩
      apply ContainedQuery.const
      apply (successor_safe harena hfits.1).bind
      intro next _
      split
      · exact .ok trivial
      · exact .report

theorem verifyNext_contained (harena : h.arenaSize < Word.limit / 2) {o : Nat} {header : Header}
    (hfits : h.Fits o header) :
    h.ContainedQuery (h.verifyNext · o header) fun _ =>
      ∀ next ∈ header.next, next = o + headerSize + header.size := by
  apply (ContainedQuery.const (successor_safe harena hfits.1)).bind
  rintro next ⟨rfl, hnext⟩
  have hadjacent : ∀ next ∈ header.next, next = o + headerSize + header.size :=
    fun next hn => (hnext next hn).1
  cases hlink : header.next with
  | none =>
      exact .const (.ok (hlink ▸ hadjacent))
  | some next =>
      apply (load_contained next).bind
      intro behind _
      apply ContainedQuery.const
      split
      · exact .ok (hlink ▸ hadjacent)
      · exact .report

theorem verifyLinks_contained (harena : h.arenaSize < Word.limit / 2) {o : Nat} {header : Header}
    (hfits : h.Fits o header) :
    h.ContainedQuery (h.verifyLinks · o header) fun _ =>
      ∀ next ∈ header.next, next = o + headerSize + header.size := by
  apply (verifyPrevious_contained harena o header.previous).bind
  intro _ _
  exact verifyNext_contained harena hfits

theorem usedBlock_contained (harena : h.arenaSize < Word.limit / 2) (p : Nat) :
    h.ContainedQuery (h.usedBlock · p) fun found =>
      p = h.payloadAddress found.1 ∧ h.InBounds found.1 ∧ h.Fits found.1 found.2 ∧
        ∀ next ∈ found.2.next, next = found.1 + headerSize + found.2.size := by
  unfold usedBlock
  dsimp only
  by_cases hplace : h.base + headerSize ≤ p ∧ h.InBounds (p - (h.base + headerSize))
  · have haddress : p = h.payloadAddress (p - (h.base + headerSize)) := by
      have hlow := hplace.1
      simp only [payloadAddress]
      omega
    simp only [if_pos hplace]
    apply ContainedQuery.ite
    · intro m m' ha
      rw [ha.readWord hplace.2]
    · apply (load_contained _).bind
      rintro header ⟨hbounds, hfits⟩
      apply ContainedQuery.bind (verifyLinks_contained harena hfits)
      intro _ hadjacent
      exact .const (.ok ⟨haddress, hbounds, hfits, hadjacent⟩)
    · intro m m' ha
      dsimp only
      rw [classifyUnused_agree ha p hplace.2]
      exact ⟨rfl, .report⟩
  · simp only [if_neg hplace]
    exact .const .report

theorem usableSize_contained (harena : h.arenaSize < Word.limit / 2) (p : Nat) :
    h.ContainedQuery (h.usableSize · p) (· ≤ h.arenaSize) := by
  unfold usableSize
  by_cases hinit : h.isInitialized = true
  · simp only [hinit]
    apply (usedBlock_contained harena p).bind
    rintro ⟨o, header⟩ ⟨-, -, hfits, -⟩
    have hstop := hfits.1
    exact .const (.ok (by omega))
  · simp only [hinit]
    exact .const .report

end EarlyBoot.BlockHeap
