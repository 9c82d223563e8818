import EarlyBoot.BlockHeap.Error
import EarlyBoot.BlockHeap.Header
import EarlyBoot.Word

/-!
# Walking the block list

A heap is one arena carved into blocks that lie back to back in address order.
Neighbours are named by their offset from the arena start.  `load` trusts a
header only after checking its bounds, and `successor` follows a link only if
it names the block right behind this one.

`walkFrom` collects the headers met on the way through the arena, together with
the reason why the walk ended.  Listing the blocks, summing them up, checking
the heap and searching it are all read off that one walk.
-/

namespace EarlyBoot

def HeapStop.add (a b : Nat) : Except HeapStop Nat :=
  match Word.add? a b with
  | some sum => .ok sum
  | none => .error .overflow

def HeapStop.sub (a b : Nat) : Except HeapStop Nat :=
  match Word.sub? a b with
  | some difference => .ok difference
  | none => .error .overflow

theorem HeapStop.add_eq_ok {a b c : Nat} : add a b = .ok c ↔ c = a + b ∧ c < Word.limit := by
  unfold add
  rw [← Word.add?_eq_some]
  cases Word.add? a b <;> simp [eq_comm]

theorem HeapStop.sub_eq_ok {a b c : Nat} : sub a b = .ok c ↔ b ≤ a ∧ c = a - b := by
  unfold sub
  rw [← Word.sub?_eq_some]
  cases Word.sub? a b <;> simp [eq_comm]

theorem HeapStop.add_of_lt {a b : Nat} (hlt : a + b < Word.limit) : add a b = .ok (a + b) :=
  add_eq_ok.2 ⟨rfl, hlt⟩

theorem HeapStop.sub_of_le {a b : Nat} (hle : b ≤ a) : sub a b = .ok (a - b) :=
  sub_eq_ok.2 ⟨hle, rfl⟩

/-- A heap that has not been given an arena has base zero. -/
structure BlockHeap where
  base : Nat
  arenaSize : Nat
  splitFactor : Nat
  deriving DecidableEq, Repr

structure BlockInfo where
  offset : Nat
  size : Nat
  free : Bool
  deriving DecidableEq, Repr

def BlockInfo.stop (block : BlockInfo) : Nat := block.offset + headerSize + block.size

structure HeapStats where
  arenaSize : Nat
  blocks : Nat
  used : Nat
  free : Nat
  largestFree : Nat
  deriving DecidableEq, Repr

namespace BlockHeap

def defaultSplitFactor : Nat := 2

def uninitialized (splitFactor : Nat) : BlockHeap := ⟨0, 0, splitFactor⟩

def isInitialized (h : BlockHeap) : Bool := h.base != 0

def setSplitFactor (h : BlockHeap) (splitFactor : Nat) : BlockHeap := { h with splitFactor }

def InBounds (h : BlockHeap) (offset : Nat) : Prop :=
  offset + headerSize ≤ h.arenaSize ∧ offset % headerSize = 0

instance (h : BlockHeap) (offset : Nat) : Decidable (h.InBounds offset) :=
  inferInstanceAs (Decidable (_ ∧ _))

def Fits (h : BlockHeap) (offset : Nat) (header : Header) : Prop :=
  offset + headerSize + header.size ≤ h.arenaSize ∧ header.size % headerSize = 0

instance (h : BlockHeap) (offset : Nat) (header : Header) : Decidable (h.Fits offset header) :=
  inferInstanceAs (Decidable (_ ∧ _))

def load (h : BlockHeap) (m : Memory) (offset : Nat) : Except HeapStop Header :=
  if h.InBounds offset then
    match Header.read? m (h.base + offset) with
    | some header =>
        if h.Fits offset header then .ok header else .error (.report (.corrupted offset))
    | none => .error (.report (.corrupted offset))
  else .error (.report (.corrupted offset))

def successor (h : BlockHeap) (offset : Nat) (header : Header) : Except HeapStop (Option Nat) := do
  let payload ← HeapStop.add offset headerSize
  let stop ← HeapStop.add payload header.size
  match header.next with
  | some next =>
      if next = stop ∧ stop < h.arenaSize then .ok (some next)
      else .error (.report (.corrupted offset))
  | none =>
      if stop = h.arenaSize then .ok none else .error (.report (.corrupted offset))

theorem load_eq_ok {h : BlockHeap} {m : Memory} {offset : Nat} {header : Header} :
    h.load m offset = .ok header ↔
      h.InBounds offset ∧ Header.read? m (h.base + offset) = some header ∧
        h.Fits offset header := by
  unfold load
  split
  · rename_i hb
    cases hr : Header.read? m (h.base + offset) with
    | none => simp
    | some found =>
        by_cases hf : h.Fits offset found
        · simp only [hf, if_true, Except.ok.injEq, Option.some.injEq]
          constructor
          · rintro rfl
            exact ⟨hb, rfl, hf⟩
          · rintro ⟨-, rfl, -⟩
            rfl
        · simp only [hf, if_false, reduceCtorEq, Option.some.injEq, false_iff]
          rintro ⟨-, rfl, h2⟩
          exact hf h2
  · rename_i hb
    simp [hb]

theorem successor_eq_some {h : BlockHeap} {offset next : Nat} {header : Header}
    (hs : h.successor offset header = .ok (some next)) :
    header.next = some next ∧ next = offset + headerSize + header.size ∧ next < h.arenaSize := by
  unfold successor at hs
  cases h1 : HeapStop.add offset headerSize with
  | error e => simp [h1, bind, Except.bind] at hs
  | ok payload =>
      obtain ⟨rfl, -⟩ := HeapStop.add_eq_ok.1 h1
      cases h2 : HeapStop.add (offset + headerSize) header.size with
      | error e => simp [h1, h2, bind, Except.bind] at hs
      | ok stop =>
          obtain ⟨rfl, -⟩ := HeapStop.add_eq_ok.1 h2
          simp only [h1, h2, bind, Except.bind] at hs
          split at hs
          · split at hs
            · rename_i found hn hc
              obtain ⟨rfl, hlt⟩ := hc
              simp only [Except.ok.injEq, Option.some.injEq] at hs
              exact ⟨hs ▸ hn, hs.symm, hs ▸ hlt⟩
            · simp at hs
          · split at hs <;> simp at hs

structure Walk where
  visited : List (Nat × Header)
  stop : Option HeapStop

/-- Visits the blocks from `offset` on, up to the first header that cannot be followed. -/
def walkFrom (h : BlockHeap) (m : Memory) (offset : Nat) : Walk :=
  match h.load m offset with
  | .error stop => ⟨[], some stop⟩
  | .ok header =>
      match hs : h.successor offset header with
      | .error stop => ⟨[(offset, header)], some stop⟩
      | .ok none => ⟨[(offset, header)], none⟩
      | .ok (some next) =>
          have := successor_eq_some hs
          let rest := h.walkFrom m next
          ⟨(offset, header) :: rest.visited, rest.stop⟩
termination_by h.arenaSize - offset
decreasing_by
  unfold headerSize at this
  omega

def walk (h : BlockHeap) (m : Memory) : Walk := h.walkFrom m 0

def Walk.blocks (walk : Walk) : List BlockInfo :=
  walk.visited.map fun (offset, header) => ⟨offset, header.size, header.free⟩

def blocks (h : BlockHeap) (m : Memory) : List BlockInfo :=
  if h.isInitialized then (h.walk m).blocks else []

def stats (h : BlockHeap) (m : Memory) : HeapStats :=
  let blocks := h.blocks m
  let free := blocks.filter (·.free)
  let used := blocks.filter (!·.free)
  { arenaSize := h.arenaSize
    blocks := blocks.length
    used := Word.total (used.map (·.size))
    free := Word.total (free.map (·.size))
    largestFree := (free.map (·.size)).foldl max 0 }

/-- Back links match and no two neighbours are free, starting behind a block at `previous`. -/
def checkVisited (previous : Option Nat) (previousFree : Bool) :
    List (Nat × Header) → Except HeapStop Unit
  | [] => .ok ()
  | (offset, header) :: rest =>
      if header.previous = previous ∧ ¬ (previousFree ∧ header.free) then
        checkVisited (some offset) header.free rest
      else .error (.report (.corrupted offset))

/-- Accepts exactly the arenas whose blocks cover them, with links that agree in both directions. -/
def check (h : BlockHeap) (m : Memory) : Except HeapStop Unit :=
  if h.isInitialized then
    let walk := h.walk m
    match checkVisited none false walk.visited, walk.stop with
    | .error stop, _ => .error stop
    | .ok (), some stop => .error stop
    | .ok (), none => .ok ()
  else .error (.report .notInitialized)

def findFree (h : BlockHeap) (m : Memory) (payload : Nat) :
    Except HeapStop (Option (Nat × Header)) :=
  let walk := h.walk m
  match walk.visited.find? fun (_, header) => header.free && payload ≤ header.size with
  | some found => .ok (some found)
  | none =>
      match walk.stop with
      | some stop => .error stop
      | none => .ok none

end BlockHeap

end EarlyBoot
