import EarlyBoot.Proofs.BlockHeap.FirstFit
import EarlyBoot.Proofs.BlockHeap.Trust

/-!
# What a failed resize leaves behind

A resize that is refused has written nothing.  One that runs into a header it
cannot load may have erased a free header by then, or relinked and fused blocks,
and nothing is put back.  `Aftermath` lists the memories it can leave: the one
it was given, that one without one free header, or one in which the pointer no
longer resolves.  The allocation survives in the second case only if the erased
header is none that resolving the pointer looks at, and lies outside the payload.
-/

namespace EarlyBoot.BlockHeap

open MemoryM (inspect bind_of_ok bind_of_error inspect_of_ok inspect_of_error lift_of_ok)
open Session (payloadAddress_inj)

variable {h : BlockHeap} {m m' : Memory} {o p n s payload size newSize : Nat}
  {link : Option Nat} {header following : Header}

theorem usableSize_eq_ok :
    h.usableSize m p = .ok n ↔
      h.isInitialized = true ∧ ∃ o header, h.usedBlock m p = .ok (o, header) ∧ header.size = n := by
  unfold usableSize
  cases hinit : h.isInitialized with
  | false => simp [throw, throwThe, MonadExceptOf.throw, bind, Except.bind]
  | true =>
      cases hused : h.usedBlock m p with
      | error stop => simp [bind, Except.bind]
      | ok found => simp [bind, Except.bind, pure, Except.pure, Prod.ext_iff]

theorem lead_of_usedBlock (hused : h.usedBlock m p = .ok (o, header)) :
    h.lead m o = some (false, header.next) := by
  obtain ⟨-, htag, hload, -⟩ := usedBlock_eq_ok.1 hused
  rw [lead_of_ok hload]
  obtain ⟨-, rfl⟩ := Header.read?_eq_some.1 (load_eq_ok.1 hload).2.1
  simp [htag, usedTag, freeTag]

structure Keeps (h : BlockHeap) (p n : Nat) (m m' : Memory) : Prop where
  usable : h.usableSize m' p = .ok n
  payload : ∀ i, i < n → m'.read (p + i) = m.read (p + i)

def Lost (h : BlockHeap) (p : Nat) (m : Memory) : Prop := ∀ n, h.usableSize m p ≠ .ok n

theorem Lost.not_keeps (hlost : h.Lost p m') : ¬ h.Keeps p n m m' :=
  fun hkeeps => hlost n hkeeps.usable

def Unused (h : BlockHeap) (o : Nat) (m : Memory) : Prop := m.readWord (h.base + o) ≠ usedTag

theorem Unused.lost (hunused : h.Unused o m) : h.Lost (h.payloadAddress o) m := by
  intro n husable
  obtain ⟨-, o', header, hused, -⟩ := usableSize_eq_ok.1 husable
  obtain ⟨haddress, htag, -⟩ := usedBlock_eq_ok.1 hused
  rw [payloadAddress_inj.1 haddress] at hunused
  exact hunused htag

theorem lost_of_severed {free : Bool} (hlead : h.lead m o = some (free, some s))
    (hgone : h.lead m s = none) : h.Lost (h.payloadAddress o) m := by
  intro n husable
  obtain ⟨-, o', header, hused, -⟩ := usableSize_eq_ok.1 husable
  obtain ⟨haddress, -⟩ := usedBlock_eq_ok.1 hused
  obtain rfl := payloadAddress_inj.1 haddress
  have hnext : header.next = some s := by
    rw [lead_of_usedBlock hused] at hlead
    exact (Prod.ext_iff.1 (Option.some.inj hlead)).2
  have hsound := usedBlock_soundLink hused
  simp only [SoundLink, hnext] at hsound
  obtain ⟨-, -, behind, hload, -⟩ := hsound
  rw [lead_of_ok hload] at hgone
  cases hgone

/-! ## Erasing a free header -/

theorem load_erase_of_ne (hbounds : h.InBounds s) (hne : o ≠ s) :
    h.load (Header.erase m (h.base + s)) o = h.load m o :=
  load_of_sameOutside (sameOutside_erase m s) hbounds.2 hne

theorem load_erase_ne_ok : h.load (Header.erase m (h.base + s)) s ≠ .ok header := by
  intro hload
  have hread : h.headerAt (Header.erase m (h.base + s)) s = some header := (load_eq_ok.1 hload).2.1
  rw [(erased_erase m s).headerAt] at hread
  cases hread

/-- What a header that is gone must not have been for the block at `o` to stay usable. -/
structure Aside (o : Nat) (header : Header) (s : Nat) : Prop where
  apart : s + headerSize ≤ o ∨ o + headerSize + header.size ≤ s
  previous : header.previous ≠ some s
  next : header.next ≠ some s

theorem load_of_verifyPrevious (hok : h.verifyPrevious m o (some s) = .ok ()) :
    ∃ before, h.load m s = .ok before := by
  unfold verifyPrevious at hok
  cases hload : h.load m s with
  | error stop => simp [hload, bind, Except.bind] at hok
  | ok before => exact ⟨before, rfl⟩

theorem verifyLinks_congr (hprevious : ∀ q ∈ header.previous, h.load m' q = h.load m q)
    (hnext : ∀ q ∈ header.next, h.load m' q = h.load m q) :
    h.verifyLinks m' o header = h.verifyLinks m o header := by
  have hback : h.verifyPrevious m' o header.previous = h.verifyPrevious m o header.previous := by
    cases hlink : header.previous with
    | none => rfl
    | some q =>
        unfold verifyPrevious
        simp only [hprevious q hlink]
  have honward : h.verifyNext m' o header = h.verifyNext m o header := by
    unfold verifyNext
    cases hs : h.successor o header with
    | error stop => rfl
    | ok after =>
        cases after with
        | none => rfl
        | some q => simp only [bind, Except.bind, hnext q (successor_eq_some hs).1]
  unfold verifyLinks
  rw [hback, honward]

section

variable (hused : h.usedBlock m p = .ok (o, header)) (hload : h.load m s = .ok following)
  (hfree : following.free = true)
include hused hload hfree

theorem ne_of_free : o ≠ s := by
  rintro rfl
  have hlead := lead_of_usedBlock hused
  rw [lead_of_ok hload, hfree] at hlead
  cases hlead

theorem Aside.usedBlock (ha : Aside o header s) :
    h.usedBlock (Header.erase m (h.base + s)) p = .ok (o, header) := by
  have hne := ne_of_free hused hload hfree
  have hbounds := (load_eq_ok.1 hload).1
  obtain ⟨haddress, htag, hheader, hlinks⟩ := usedBlock_eq_ok.1 hused
  have hapart := apart_of_aligned (load_eq_ok.1 hheader).1.2 hbounds.2 hne
  refine usedBlock_eq_ok.2 ⟨haddress, ?_, ?_, ?_⟩
  · rw [Header.readWord_erase_of_outside, htag]
    simp only [headerSize] at *
    omega
  · rw [load_erase_of_ne hbounds hne, hheader]
  · rw [verifyLinks_congr, hlinks]
    · rintro q hq
      exact load_erase_of_ne hbounds fun heq => ha.previous (heq ▸ hq)
    · rintro q hq
      exact load_erase_of_ne hbounds fun heq => ha.next (heq ▸ hq)

theorem apart_of_kept
    (hkept : ∀ i, i < header.size →
      (Header.erase m (h.base + s)).read (p + i) = m.read (p + i)) :
    s + headerSize ≤ o ∨ o + headerSize + header.size ≤ s := by
  have hne := ne_of_free hused hload hfree
  obtain ⟨hbounds, hread, -⟩ := load_eq_ok.1 hload
  obtain ⟨rfl, -, hheader, -⟩ := usedBlock_eq_ok.1 hused
  obtain ⟨hbounds', -, -, hsize⟩ := load_eq_ok.1 hheader
  by_contra hinside
  -- all erased bytes lie in the payload, and as they are kept they were zero before
  have hzero : m.readWord (h.base + s) = 0 := by
    apply Memory.readWord_of_zeros
    intro a hlow hhigh
    have hplace : a = h.payloadAddress o + (a - h.payloadAddress o) := by
      have := hbounds.2
      have := hbounds'.2
      simp only [payloadAddress, headerSize] at *
      omega
    rw [hplace, ← hkept, ← hplace]
    · exact Header.read_erase hlow (by simp only [headerSize]; omega)
    · have := hbounds.2
      have := hbounds'.2
      simp only [payloadAddress, headerSize] at *
      omega
  -- but the tag of a free block is not zero
  rcases (Header.read?_eq_some.1 hread).1 with htag | htag
  · rw [hzero] at htag
    cases htag
  · rw [hzero] at htag
    cases htag

theorem keeps_erase_iff (hinit : h.isInitialized = true) :
    h.Keeps p header.size m (Header.erase m (h.base + s)) ↔ Aside o header s := by
  constructor
  · intro hkeeps
    obtain ⟨-, o', header', hused', -⟩ := usableSize_eq_ok.1 hkeeps.usable
    obtain ⟨haddress, -, hheader, -⟩ := usedBlock_eq_ok.1 hused
    obtain ⟨haddress', -, hheader', hlinks'⟩ := usedBlock_eq_ok.1 hused'
    obtain rfl := payloadAddress_inj.1 (haddress.symm.trans haddress')
    rw [load_erase_of_ne (load_eq_ok.1 hload).1 (ne_of_free hused hload hfree), hheader] at hheader'
    obtain rfl := Except.ok.inj hheader'
    refine ⟨apart_of_kept hused hload hfree hkeeps.payload, ?_, ?_⟩
    · intro hprevious
      have hback := (verifyLinks_eq_ok.1 hlinks').1
      rw [hprevious] at hback
      obtain ⟨before, hgone⟩ := load_of_verifyPrevious hback
      exact load_erase_ne_ok hgone
    · intro hnext
      have hsound := usedBlock_soundLink hused'
      simp only [SoundLink, hnext] at hsound
      obtain ⟨-, -, behind, hgone, -⟩ := hsound
      exact load_erase_ne_ok hgone
  · intro ha
    have hused' := ha.usedBlock hused hload hfree
    refine ⟨usableSize_eq_ok.2 ⟨hinit, o, header, hused', rfl⟩, ?_⟩
    intro i hi
    obtain ⟨rfl, -⟩ := usedBlock_eq_ok.1 hused
    have hapart := ha.apart
    apply Header.read_erase_of_outside
    simp only [payloadAddress, headerSize] at *
    omega

end

/-! ## Where an edit stops -/

/--
What an edit that follows `link` leaves if it fails: the memory it was given if
the link leads nowhere, and otherwise that memory without the free header that
the link names.
-/
inductive Stuck (h : BlockHeap) (m : Memory) (link : Option Nat) : Memory → Prop
  | unread (hlink : ¬ Readable (h.lead m) link) : Stuck h m link m
  | erased {s : Nat} {following : Header} (hlink : link = some s)
      (hload : h.load m s = .ok following) (hfree : following.free = true) :
      Stuck h m link (Header.erase m (h.base + s))

theorem relinkPrevious_stuck (link previous : Option Nat) (m : Memory) :
    Reports (fun _ m' => m' = m ∧ ¬ Readable (h.lead m) link)
      (h.relinkPrevious link previous m) := by
  cases link with
  | none => exact .ok _ _
  | some q =>
      change Reports _ ((inspect (h.load · q) >>= fun header =>
        h.store q { header with previous }) m)
      cases hload : h.load m q with
      | error stop =>
          rw [bind_of_error (inspect_of_error hload)]
          rintro error _ ⟨⟩
          exact ⟨rfl, by simp [Readable, lead_of_error hload]⟩
      | ok header =>
          rw [bind_of_ok (inspect_of_ok hload), store_of_inBounds (load_eq_ok.1 hload).1]
          exact .ok _ _

theorem takeOver_of_free_ends {q : Nat} {kind : HeapError → Memory → Prop}
    (hload : h.load m q = .ok following) (hfree : following.free = true) :
    Ends (· = Header.erase m (h.base + q)) kind (h.takeOver size (some q) m) := by
  unfold takeOver
  dsimp only
  rw [bind_of_ok (inspect_of_ok hload), if_pos hfree]
  refine (Ends.lift (.add _ _)).bind ?_
  rintro first _ - rfl
  refine (Ends.lift (.add _ _)).bind ?_
  rintro second _ - rfl
  rw [bind_of_ok (erase_of_inBounds (load_eq_ok.1 hload).1 m)]
  exact .ok _ rfl

theorem relink_takeOver_stuck (size : Nat) (link previous : Option Nat) {α : Type}
    {next : Nat × Option Nat → Unit → HeapM α} (m : Memory)
    (hnext : ∀ taken m', Reports (fun _ => h.Stuck m link) (next taken () m')) :
    Reports (fun _ => h.Stuck m link) ((h.takeOver size link >>= fun taken =>
      h.relinkPrevious taken.2 previous >>= next taken) m) := by
  cases link with
  | none => exact hnext (size, none) m
  | some q =>
      cases hload : h.load m q with
      | error stop =>
          rw [bind_of_error (takeOver_of_error hload)]
          rintro error _ ⟨⟩
          exact .unread (by simp [Readable, lead_of_error hload])
      | ok following =>
          cases hfree : following.free with
          | false =>
              rw [bind_of_ok (takeOver_of_used hload hfree)]
              refine ((relinkPrevious_stuck (some q) previous m).mono ?_).bind
                fun _ m' _ => hnext (size, some q) m'
              rintro error m' ⟨-, hunread⟩
              exact absurd (by simp [Readable, lead_of_ok hload]) hunread
          | true =>
              have hends : Ends (· = Header.erase m (h.base + q)) (fun _ => h.Stuck m (some q))
                  (h.takeOver size (some q) m) := takeOver_of_free_ends hload hfree
              refine hends.1.bind ?_
              intro taken m₁ hrun
              obtain rfl := hends.2 taken m₁ hrun
              refine ((relinkPrevious_stuck taken.2 previous _).mono ?_).bind
                fun _ m' _ => hnext taken m'
              rintro error m' ⟨rfl, -⟩
              -- the successor is gone before the block behind it turns out to be unreadable
              exact .erased rfl hload hfree

section

variable (hbounds : h.InBounds o) (hfits : h.Fits o header) (haligned : payload % headerSize = 0)
include hbounds hfits haligned

theorem cut_stuck (hsplits : h.Splits header.size payload) (m : Memory) :
    Reports (fun _ => h.Stuck m header.next) ((h.splitOff o header payload >>= h.store o) m) := by
  have hroom := header_fits haligned hfits.2 hsplits
  have hstop := hfits.1
  refine Reports.bind ?_ fun header' m' _ => ?_
  · refine (Reports.lift (.add _ _)).bind ?_
    intro start m₁ hstart
    obtain ⟨hadd, rfl⟩ := MemoryM.lift_eq_ok.1 hstart
    obtain ⟨rfl, -⟩ := HeapStop.add_eq_ok.1 hadd
    refine (Reports.lift (.add _ _)).bind ?_
    intro tailOffset m₂ htail
    obtain ⟨hadd', rfl⟩ := MemoryM.lift_eq_ok.1 htail
    obtain ⟨rfl, -⟩ := HeapStop.add_eq_ok.1 hadd'
    refine (Reports.lift (.sub _ _)).bind ?_
    intro rest m₃ hrest
    obtain ⟨-, rfl⟩ := MemoryM.lift_eq_ok.1 hrest
    refine (Reports.lift (.sub _ _)).bind ?_
    intro tailSize m₄ hsize
    obtain ⟨-, rfl⟩ := MemoryM.lift_eq_ok.1 hsize
    apply relink_takeOver_stuck
    intro taken m'
    have hinBounds : h.InBounds (o + headerSize + payload) := by
      obtain ⟨-, ho⟩ := hbounds
      simp only [InBounds, headerSize] at *
      omega
    rw [bind_of_ok (store_of_inBounds hinBounds _ m')]
    exact .ok _ _
  · rw [store_of_inBounds hbounds]
    exact .ok _ _

variable (hroom : payload ≤ header.size)
include hroom

theorem settle_stuck (m : Memory) :
    Reports (fun _ => h.Stuck m header.next) (h.settle o header payload m) := by
  rw [settle_eq hroom]
  split
  next hsplits => exact cut_stuck hbounds hfits haligned hsplits m
  next =>
    rw [store_of_inBounds hbounds]
    exact .ok _ _

theorem shrink_stuck (m : Memory) :
    Reports (fun _ => h.Stuck m header.next) (h.shrink o header payload m) := by
  rw [shrink_eq hroom]
  split
  next hsplits => exact cut_stuck hbounds hfits haligned hsplits m
  next => exact .ok _ _

end

/-! ## The steps of a resize -/

inductive Aftermath (h : BlockHeap) (p : Nat) (m : Memory) : Memory → Prop
  | untouched : Aftermath h p m m
  | erased {s : Nat} {following : Header} (hload : h.load m s = .ok following)
      (hfree : following.free = true) : Aftermath h p m (Header.erase m (h.base + s))
  | lost {m' : Memory} (hlost : h.Lost p m') : Aftermath h p m m'

theorem Stuck.aftermath (hstuck : h.Stuck m link m') : h.Aftermath p m m' := by
  cases hstuck with
  | unread => exact .untouched
  | erased _ hload hfree => exact .erased hload hfree

theorem Stuck.lost (hstuck : h.Stuck m link m')
    (hlead : h.lead m o = some (false, some s)) (hgone : h.lead m s = none) :
    h.Lost (h.payloadAddress o) m' := by
  cases hstuck with
  | unread => exact lost_of_severed hlead hgone
  | @erased t following _ hload hfree =>
      have hbounds := (load_eq_ok.1 hload).1
      have hne : o ≠ t := by
        rintro rfl
        rw [lead_of_ok hload, hfree] at hlead
        cases hlead
      -- one more free header is erased: the used block and the gap behind it stay as they are
      have hlead' : h.lead (Header.erase m (h.base + t)) o = some (false, some s) := by
        rw [lead_erase m hbounds, erasing, if_neg hne, hlead]
      have hgone' : h.lead (Header.erase m (h.base + t)) s = none := by
        rw [lead_erase m hbounds, erasing, hgone, ite_self]
      exact lost_of_severed hlead' hgone'

theorem shrink_lost (hused : h.usedBlock m p = .ok (o, header))
    (haligned : payload % headerSize = 0) (hroom : payload ≤ header.size) :
    Reports (fun _ => h.Lost p) (h.shrink o header payload m) := by
  obtain ⟨rfl, -, hload, -⟩ := usedBlock_eq_ok.1 hused
  obtain ⟨hbounds, -, hfits⟩ := load_eq_ok.1 hload
  have hsound := usedBlock_soundLink hused
  refine (shrink_stuck hbounds hfits haligned hroom m).mono ?_
  rintro error m' hstuck
  cases hnext : header.next with
  | none =>
      rw [hnext] at hstuck
      cases hstuck with
      | unread hunread => exact absurd (by simp [Readable]) hunread
      | erased hlink => cases hlink
  | some q =>
      simp only [SoundLink, hnext] at hsound
      obtain ⟨-, -, behind, hbehind, -⟩ := hsound
      rw [hnext] at hstuck
      cases hstuck with
      | unread hunread => exact absurd (by simp [Readable, lead_of_ok hbehind]) hunread
      | @erased t following hlink hfollowing hfree =>
          -- the block is stored last, so it still names the header that is gone
          obtain rfl := Option.some.inj hlink
          have hne := ne_of_free hused hfollowing hfree
          have hgone := lead_erase m (load_eq_ok.1 hfollowing).1
          have hlead' : h.lead (Header.erase m (h.base + q)) o = some (false, some q) := by
            rw [hgone, erasing, if_neg hne, lead_of_usedBlock hused, hnext]
          have hgone' : h.lead (Header.erase m (h.base + q)) q = none := by
            rw [hgone, erasing, if_pos rfl]
          exact lost_of_severed hlead' hgone'

theorem growInPlace_aftermath (harena : h.arenaSize < Word.limit)
    (hused : h.usedBlock m p = .ok (o, header)) (haligned : payload % headerSize = 0) :
    Reports (fun _ => h.Aftermath p m) (h.growInPlace o header payload m) := by
  obtain ⟨rfl, -, hheader, -⟩ := usedBlock_eq_ok.1 hused
  obtain ⟨hbounds, -, hfits⟩ := load_eq_ok.1 hheader
  have hsound := usedBlock_soundLink hused
  unfold growInPlace
  cases hnext : header.next with
  | none => exact .ok _ _
  | some q =>
      simp only [SoundLink, hnext] at hsound
      obtain ⟨hadjacent, -, following, hload, -⟩ := hsound
      obtain ⟨hbounds', -, hstop', hsize'⟩ := load_eq_ok.1 hload
      dsimp only
      rw [bind_of_ok (inspect_of_ok hload)]
      refine (Reports.lift (.add _ _)).bind ?_
      intro first m₁ hfirst
      obtain ⟨hadd, rfl⟩ := MemoryM.lift_eq_ok.1 hfirst
      obtain ⟨rfl, -⟩ := HeapStop.add_eq_ok.1 hadd
      refine (Reports.lift (.add _ _)).bind ?_
      intro combined m₂ hcombined
      obtain ⟨hadd', rfl⟩ := MemoryM.lift_eq_ok.1 hcombined
      obtain ⟨rfl, -⟩ := HeapStop.add_eq_ok.1 hadd'
      split
      · rename_i hgrows
        obtain ⟨hfree, hroom⟩ := hgrows
        have hne := ne_of_free hused hload hfree
        refine ((relinkPrevious_stuck following.next (some o) m).mono ?_).bind ?_
        · rintro error m' ⟨rfl, -⟩
          exact .untouched
        intro _ m₁ hrelink
        rw [bind_of_ok (erase_of_inBounds hbounds' m₁)]
        have hlink : ∀ n ∈ some o, n < noLink := by
          rintro n ⟨⟩
          have hstop := hbounds.1
          unfold Word.limit at harena
          unfold noLink headerSize at *
          omega
        have hlead := lead_relinkPrevious hlink hrelink
        have hgone := lead_erase m₁ hbounds'
        rw [hlead] at hgone
        have hfits' : h.Fits o ⟨header.free, header.size + headerSize + following.size,
            header.previous, following.next⟩ := by
          have hsize := hfits.2
          simp only [Fits, headerSize] at *
          omega
        refine Reports.bind ((settle_stuck hbounds hfits' haligned hroom _).mono ?_)
          fun _ m' _ => .ok _ m'
        rintro error m' hstuck
        -- whatever else `settle` erases, the block names `q`, and `q` is gone already
        refine .lost (hstuck.lost (s := q) ?_ ?_)
        · rw [hgone, erasing, if_neg hne, lead_of_usedBlock hused, hnext]
        · rw [hgone, erasing, if_pos rfl]
      · exact .ok _ _

theorem load_of_visited (o : Nat) :
    ∀ found ∈ (h.walkFrom m o).visited, h.load m found.1 = .ok found.2 := by
  induction o using walkFrom.induct h m with
  | case1 o stop hload =>
      rw [walkFrom_of_load_error hload]
      simp
  | case2 o header hload stop hs =>
      rw [walkFrom_of_successor_error hload hs]
      simpa using hload
  | case3 o header hload hs =>
      rw [walkFrom_of_last hload hs]
      simpa using hload
  | case4 o header hload next hs hlt ih =>
      rw [walkFrom_of_next hload hs]
      intro found hfound
      rcases List.mem_cons.1 hfound with rfl | hrest
      · exact hload
      · exact ih found hrest

theorem load_of_findFree (hfound : h.findFree m payload = .ok (some (o, header))) :
    h.load m o = .ok header ∧ payload ≤ header.size := by
  unfold findFree at hfound
  dsimp only at hfound
  split at hfound
  · rename_i found hfind
    obtain rfl := Option.some.inj (Except.ok.inj hfound)
    have hroom := List.find?_some hfind
    simp only [Bool.and_eq_true, decide_eq_true_eq] at hroom
    exact ⟨load_of_visited 0 _ (List.mem_of_find?_eq_some hfind), hroom.2⟩
  · split at hfound
    · cases hfound
    · cases hfound

theorem allocate_aftermath (p size : Nat) (m : Memory) :
    Reports (fun _ => h.Aftermath p m) (h.allocate size m) := by
  have hrequired : Reports (fun _ => h.Aftermath p m) (h.requireInitialized m) := by
    unfold requireInitialized
    split
    · exact .ok _ _
    · exact .report .untouched
  refine hrequired.bind ?_
  intro _ m₁ hinit
  obtain ⟨-, rfl⟩ := requireInitialized_eq_ok.1 hinit
  cases hs : payloadSize? size with
  | none =>
      rw [bind_of_error (MemoryM.lift_of_error (payloadSize_of_none hs) m₁)]
      rintro error _ ⟨⟩
      exact .untouched
  | some payload =>
      rw [bind_of_ok (lift_of_ok (payloadSize_of_some hs) m₁)]
      refine (Reports.inspect fun _ _ => .untouched).bind ?_
      intro found m₂ hsearch
      obtain ⟨hfound, rfl⟩ := MemoryM.inspect_eq_ok.1 hsearch
      cases found with
      | none => exact .report .untouched
      | some found =>
          obtain ⟨hload, hroom⟩ := load_of_findFree hfound
          obtain ⟨hbounds, -, hfits⟩ := load_eq_ok.1 hload
          have hfits' : h.Fits found.1 { found.2 with free := false } := hfits
          refine Reports.bind ?_ fun _ m' _ => .ok _ m'
          refine (settle_stuck hbounds hfits' (payloadSize?_eq_some hs).1 hroom m₁).mono ?_
          exact fun _ _ => Stuck.aftermath

section

variable (haligned : o % headerSize = 0)
include haligned

theorem Unused.write {place : Nat} (hunused : h.Unused o m) (hplace : place % headerSize = 0)
    (hfree : place = o → header.free = true) :
    h.Unused o (header.write m (h.base + place)) := by
  by_cases heq : place = o
  · unfold Unused
    rw [heq, Header.tag_write, Header.tag, if_pos (hfree heq)]
    decide
  · have hapart := apart_of_aligned hplace haligned heq
    unfold Unused
    rw [Header.readWord_write_of_outside]
    · exact hunused
    · simp only [headerSize] at *
      omega

theorem Unused.erase {place : Nat} (hunused : h.Unused o m) (hplace : place % headerSize = 0) :
    h.Unused o (Header.erase m (h.base + place)) := by
  by_cases heq : place = o
  · unfold Unused
    rw [heq, Header.tag_erase]
    decide
  · have hapart := apart_of_aligned hplace haligned heq
    unfold Unused
    rw [Header.readWord_erase_of_outside]
    · exact hunused
    · simp only [headerSize] at *
      omega

theorem Unused.free_of_load {place : Nat} (hunused : h.Unused o m)
    (hload : h.load m place = .ok header) (heq : place = o) : header.free = true := by
  subst heq
  obtain ⟨htag, rfl⟩ := Header.read?_eq_some.1 (load_eq_ok.1 hload).2.1
  simpa using htag.resolve_right hunused

theorem relinkPrevious_unused (link previous : Option Nat) (hunused : h.Unused o m) :
    Ends (h.Unused o) (fun _ => h.Unused o) (h.relinkPrevious link previous m) := by
  cases link with
  | none => exact .ok _ hunused
  | some q =>
      refine (Ends.inspect fun _ _ => hunused).bind ?_
      rintro header _ hrun rfl
      obtain ⟨hload, -⟩ := MemoryM.inspect_eq_ok.1 hrun
      have hbounds := (load_eq_ok.1 hload).1
      have hfree : q = o → header.free = true := hunused.free_of_load haligned hload
      rw [store_of_inBounds hbounds]
      exact .ok _ (hunused.write haligned hbounds.2 hfree)

theorem fuse_unused (first second : Nat) (hunused : h.Unused o m) :
    Ends (h.Unused o) (fun _ => h.Unused o) (h.fuse first second m) := by
  refine (Ends.inspect fun _ _ => hunused).bind ?_
  rintro head _ hrun rfl
  obtain ⟨hhead, -⟩ := MemoryM.inspect_eq_ok.1 hrun
  refine (Ends.inspect fun _ _ => hunused).bind ?_
  rintro tail _ hrun rfl
  obtain ⟨htail, -⟩ := MemoryM.inspect_eq_ok.1 hrun
  have hfirst := (load_eq_ok.1 hhead).1
  have hsecond := (load_eq_ok.1 htail).1
  split
  · refine (Ends.lift (.add _ _)).bind ?_
    rintro combined _ - rfl
    refine (Ends.lift (.add _ _)).bind ?_
    rintro size _ - rfl
    refine (relinkPrevious_unused haligned _ _ hunused).bind ?_
    intro _ m₁ _ hunused₁
    rw [bind_of_ok (erase_of_inBounds hsecond m₁), store_of_inBounds hfirst]
    -- the first block keeps its tag, so no block becomes one in use
    have hfree : first = o → head.free = true := hunused.free_of_load haligned hhead
    exact .ok _ ((hunused₁.erase haligned hsecond.2).write haligned hfirst.2 hfree)
  · exact .report hunused

end

theorem release_lost (hinit : h.isInitialized = true) (p : Nat) (m : Memory) :
    Reports (fun _ => h.Lost p) (h.release p m) := by
  unfold release
  rw [bind_of_ok (requireInitialized_eq_ok.2 ⟨hinit, rfl⟩)]
  cases hused : h.usedBlock m p with
  | error stop =>
      rw [bind_of_error (inspect_of_error hused)]
      rintro error _ ⟨⟩ n husable
      obtain ⟨-, o, header, hok, -⟩ := usableSize_eq_ok.1 husable
      rw [hused] at hok
      cases hok
  | ok found =>
      obtain ⟨o, header⟩ := found
      obtain ⟨rfl, -, hload, -⟩ := usedBlock_eq_ok.1 hused
      obtain ⟨hbounds, -⟩ := load_eq_ok.1 hload
      rw [bind_of_ok (inspect_of_ok hused)]
      dsimp only
      rw [bind_of_ok (store_of_inBounds hbounds _ m)]
      have hmarked : h.Unused o (Header.write m (h.base + o) { header with free := true }) := by
        unfold Unused
        rw [Header.tag_write]
        simp [Header.tag, freeTag, usedTag]
      have hquery : ∀ error m, h.Unused o m → HeapError.IsCorruption error → h.Unused o m :=
        fun _ _ hunused _ => hunused
      have hfuse : ∀ first second m, h.Unused o m →
          Ends (h.Unused o) (fun _ => h.Unused o) (h.fuse first second m) :=
        fun first second _ hunused => fuse_unused hbounds.2 first second hunused
      exact (coalesce_ends hquery hfuse o _ hmarked).1.mono fun _ _ => Unused.lost

/-! ## Resizing -/

theorem resize_shrink_lost (harena : h.arenaSize < Word.limit) (hinit : h.isInitialized = true)
    (hused : h.usedBlock m p = .ok (o, header)) (hroom : payloadFor newSize ≤ header.size) :
    Reports (fun _ => h.Lost p) (h.resize p newSize m) := by
  obtain ⟨-, -, hload, -⟩ := usedBlock_eq_ok.1 hused
  have hstop := (load_eq_ok.1 hload).2.2.1
  have hlt : payloadFor newSize < Word.limit := by omega
  have hs := payloadSize?_of_lt hlt
  rw [resize_of_usedBlock hinit hs hused, if_pos hroom]
  refine Reports.bind (shrink_lost hused (payloadFor_mod newSize) hroom) ?_
  exact fun _ m' _ => .ok _ m'

theorem resize_aftermath (harena : h.arenaSize < Word.limit) (hinit : h.isInitialized = true)
    (hused : h.usedBlock m p = .ok (o, header)) (newSize : Nat) :
    Reports (fun _ => h.Aftermath p m) (h.resize p newSize m) := by
  cases hs : payloadSize? newSize with
  | none =>
      unfold resize
      rw [bind_of_ok (requireInitialized_eq_ok.2 ⟨hinit, rfl⟩), bind_of_ok (inspect_of_ok hused)]
      dsimp only
      rw [bind_of_error (MemoryM.lift_of_error (payloadSize_of_none hs) m)]
      rintro error _ ⟨⟩
      exact .untouched
  | some payload =>
      have haligned := (payloadSize?_eq_some hs).1
      rw [resize_of_usedBlock hinit hs hused]
      split
      · rename_i hroom
        refine Reports.bind ((shrink_lost hused haligned hroom).mono fun _ _ => .lost) ?_
        exact fun _ m' _ => .ok _ m'
      · refine (growInPlace_aftermath harena hused haligned).bind ?_
        intro grown m₁ hgrow
        cases grown with
        | true => exact .ok _ m₁
        | false =>
            obtain rfl := growInPlace_eq_false hgrow
            refine (allocate_aftermath p newSize m₁).bind ?_
            intro target m₂ _
            refine (Reports.modify _ m₂).bind ?_
            intro _ m₃ _
            refine ((release_lost hinit p m₃).mono fun _ _ => .lost).bind ?_
            exact fun _ m' _ => .ok _ m'

/--
What becomes of an allocation whose resize fails, on an arena that may hold any
bytes.  A refused resize leaves the memory as it was, and one that fails in
shrinking the block always loses it.  In general the allocation is kept exactly
if nothing was written at all or if only one header was erased that the block
does not depend on.
-/
theorem failed_resize_keeps_iff (harena : h.arenaSize < Word.limit)
    (husable : h.usableSize m p = .ok n) {error : HeapError}
    (hfail : h.resize p newSize m = .error (.report error) m') :
    (error.isFatal = false → m' = m) ∧
    (payloadFor newSize ≤ n → ¬ h.Keeps p n m m') ∧
    ∃ o header, h.usedBlock m p = .ok (o, header) ∧ header.size = n ∧
      (h.Keeps p n m m' ↔
        m' = m ∨ ∃ s following, h.load m s = .ok following ∧ following.free = true ∧
          Aside o header s ∧ m' = Header.erase m (h.base + s)) := by
  obtain ⟨hinit, o, header, hused, rfl⟩ := usableSize_eq_ok.1 husable
  refine ⟨?_, ?_, o, header, hused, rfl, ?_⟩
  · intro hrecoverable
    rcases resize_orderly h p newSize m error m' hfail with hfatal | ⟨-, hsame⟩
    · rw [hrecoverable] at hfatal
      cases hfatal
    · exact hsame
  · intro hroom
    exact (resize_shrink_lost harena hinit hused hroom error m' hfail).not_keeps
  · constructor
    · intro hkeeps
      cases resize_aftermath harena hinit hused newSize error m' hfail with
      | untouched => exact .inl rfl
      | @erased s following hload hfree =>
          have haside := (keeps_erase_iff hused hload hfree hinit).1 hkeeps
          exact .inr ⟨s, following, hload, hfree, haside, rfl⟩
      | lost hlost => exact absurd hkeeps hlost.not_keeps
    · rintro (rfl | ⟨s, following, hload, hfree, haside, rfl⟩)
      · exact ⟨husable, fun _ _ => rfl⟩
      · exact (keeps_erase_iff hused hload hfree hinit).2 haside

theorem error_of_stop {r : EStateM.Result HeapStop Memory Nat} {stop : HeapStop}
    (hstop : (match r with | .ok _ _ => none | .error stop _ => some stop) = some stop) :
    ∃ m', r = .error stop m' := by
  cases r with
  | ok _ _ => cases hstop
  | error _ m' => exact ⟨m', by rw [Option.some.inj hstop]⟩

theorem failed_resizes_on_small_heap :
    let h : BlockHeap := ⟨64, 256, 2⟩
    let m := Header.write (Header.write (Memory.ofBytes 0 ByteArray.empty)
      64 ⟨false, 128, none, some 160⟩) 224 ⟨true, 64, some 0, some 8⟩
    (∃ m', h.resize 96 32 m = .error (.report (.corrupted 8)) m' ∧ ¬ h.Keeps 96 128 m m') ∧
      ∃ m', h.resize 96 Word.greatest m = .error (.report (.sizeOverflow 1 Word.greatest)) m' ∧
        h.Keeps 96 128 m m' := by
  intro h m
  have husable : h.usableSize m 96 = .ok 128 := by decide +kernel
  constructor
  · obtain ⟨m', hfail⟩ : ∃ m', h.resize 96 32 m = .error (.report (.corrupted 8)) m' :=
      error_of_stop (by decide +kernel)
    obtain ⟨-, hlost, -⟩ := failed_resize_keeps_iff (by decide) husable hfail
    exact ⟨m', hfail, hlost (by decide)⟩
  · obtain ⟨m', hfail⟩ : ∃ m', h.resize 96 Word.greatest m =
        .error (.report (.sizeOverflow 1 Word.greatest)) m' :=
      error_of_stop (by decide +kernel)
    obtain ⟨hsame, -, o, header, -, -, hkept⟩ :=
      failed_resize_keeps_iff (by decide) husable hfail
    exact ⟨m', hfail, hkept.2 (.inl (hsame rfl))⟩

/-- The free successor names itself: it is gone by the time the block grows into it. -/
theorem failed_growth_loses_block :
    let h : BlockHeap := ⟨64, 256, 2⟩
    let m := Header.write (Header.write (Memory.ofBytes 0 ByteArray.empty)
      64 ⟨false, 32, none, some 64⟩) 128 ⟨true, 160, some 0, some 64⟩
    h.usableSize m 96 = .ok 32 ∧
      ∃ m', h.resize 96 96 m = .error (.report (.corrupted 64)) m' ∧
        h.usableSize m' 96 = .error (.report (.corrupted 64)) := by
  intro h m
  obtain ⟨m', hfail⟩ : ∃ m', h.resize 96 96 m = .error (.report (.corrupted 64)) m' :=
    error_of_stop (by decide +kernel)
  have hgone : (match h.resize 96 96 m with
      | .ok _ _ => none
      | .error _ m' => some (h.usableSize m' 96)) = some (.error (.report (.corrupted 64))) := by
    decide +kernel
  rw [hfail] at hgone
  exact ⟨by decide +kernel, m', hfail, Option.some.inj hgone⟩

end EarlyBoot.BlockHeap
