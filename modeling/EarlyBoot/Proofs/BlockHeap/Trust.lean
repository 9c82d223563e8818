import EarlyBoot.Proofs.BlockHeap.Acceptance
import EarlyBoot.Proofs.BlockHeap.Reports
import EarlyBoot.Proofs.BlockHeap.Robustness

/-!
# Which links are trusted

A pointer handed back is resolved by `usedBlock`, which compares the links of
the block with those of its neighbours.  A free block gets no such comparison
when it is taken into use or absorbed: the edits load the headers that they
have to relink or absorb, and nothing else.  `Leads` is what that amounts to.
On an arbitrary arena it decides alone whether the call succeeds, so a link
that names the wrong block passes if a header is stored where it points to, or
if nothing there has to be edited.
-/

namespace EarlyBoot.BlockHeap

open MemoryM (inspect bind_of_ok bind_of_error inspect_of_ok inspect_of_error lift_of_ok)

variable {h : BlockHeap} {m m' : Memory} {α β : Type} {o payload : Nat} {header : Header}

def Succeeds (r : EStateM.Result HeapStop Memory α) : Prop := ∃ value m', r = .ok value m'

theorem succeeds_ok (value : α) (m : Memory) :
    Succeeds (.ok value m : EStateM.Result HeapStop Memory α) :=
  ⟨value, m, rfl⟩

theorem not_succeeds_error (stop : HeapStop) (m : Memory) :
    ¬ Succeeds (.error stop m : EStateM.Result HeapStop Memory α) := by
  rintro ⟨_, _, ⟨⟩⟩

theorem succeeds_pure (value : α) (m : Memory) : Succeeds ((pure value : HeapM α) m) :=
  succeeds_ok value m

theorem succeeds_bind_iff {x : HeapM α} {f : α → HeapM β}
    (hf : ∀ value m', x m = .ok value m' → Succeeds (f value m')) :
    Succeeds ((x >>= f) m) ↔ Succeeds (x m) := by
  cases hrun : x m with
  | ok value m' =>
      rw [bind_of_ok hrun]
      exact iff_of_true (hf value m' hrun) (succeeds_ok value m')
  | error stop m' =>
      rw [bind_of_error hrun]
      exact iff_of_false (not_succeeds_error stop m') (not_succeeds_error stop m')

theorem store_succeeds (hbounds : h.InBounds o) (header : Header) (m : Memory) :
    Succeeds (h.store o header m) :=
  ⟨(), _, store_of_inBounds hbounds header m⟩

/-! ## Following links -/

/-- What is read of a header that passes the checks of `load`, apart from its size and back link. -/
def lead (h : BlockHeap) (m : Memory) (o : Nat) : Option (Bool × Option Nat) :=
  match h.load m o with
  | .ok header => some (header.free, header.next)
  | .error _ => none

def Readable (lead : Nat → Option (Bool × Option Nat)) (link : Option Nat) : Prop :=
  ∀ n ∈ link, lead n ≠ none

def erasing (lead : Nat → Option (Bool × Option Nat)) (gone : Nat) :
    Nat → Option (Bool × Option Nat) :=
  fun o => if o = gone then none else lead o

/-- The block that the link names has a header, and if it is free, so has the block behind it. -/
def Leads (lead : Nat → Option (Bool × Option Nat)) (link : Option Nat) : Prop :=
  ∀ n ∈ link, ∃ free next, lead n = some (free, next) ∧
    (free = true → Readable (erasing lead n) next)

theorem lead_of_ok (hload : h.load m o = .ok header) :
    h.lead m o = some (header.free, header.next) := by
  unfold lead
  rw [hload]

theorem lead_of_error {stop : HeapStop} (hload : h.load m o = .error stop) :
    h.lead m o = none := by
  unfold lead
  rw [hload]

theorem load_of_sameOutside {place : Nat} (hs : h.SameOutside [place] m m')
    (hplace : place % headerSize = 0) (hne : o ≠ place) : h.load m' o = h.load m o := by
  unfold load
  by_cases hbounds : h.InBounds o
  · have hsame : h.headerAt m' o = h.headerAt m o :=
      hs.headerAt_eq (by simpa using hplace) hbounds.2 (by simpa using hne)
    unfold headerAt at hsame
    rw [if_pos hbounds, if_pos hbounds, hsame]
  · rw [if_neg hbounds, if_neg hbounds]

theorem lead_of_sameOutside {place : Nat} (hs : h.SameOutside [place] m m')
    (hplace : place % headerSize = 0) (hne : o ≠ place) : h.lead m' o = h.lead m o := by
  unfold lead
  rw [load_of_sameOutside hs hplace hne]

theorem lead_erase (m : Memory) (hbounds : h.InBounds o) :
    h.lead (Header.erase m (h.base + o)) = erasing (h.lead m) o := by
  funext n
  unfold erasing
  split
  · rename_i heq
    subst heq
    cases hload : h.load (Header.erase m (h.base + n)) n with
    | error stop => exact lead_of_error hload
    | ok header =>
        have hread : h.headerAt (Header.erase m (h.base + n)) n = some header :=
          (load_eq_ok.1 hload).2.1
        rw [(erased_erase m n).headerAt] at hread
        cases hread
  · rename_i hne
    exact lead_of_sameOutside (sameOutside_erase m o) hbounds.2 hne

theorem storable_of_load (hload : h.load m o = .ok header) : header.Storable := by
  obtain ⟨-, rfl⟩ := Header.read?_eq_some.1 (load_eq_ok.1 hload).2.1
  have hlink : ∀ a, ∀ n ∈ Header.decodeLink (m.readWord a), n < noLink := by
    intro a n hn
    have hlt := m.readWord_lt a
    unfold Header.decodeLink at hn
    split at hn
    · cases hn
    · rename_i hword
      cases hn
      unfold Word.limit at hlt
      unfold noLink at *
      omega
  exact ⟨m.readWord_lt _, hlink _, hlink _⟩

theorem lead_relink {previous : Option Nat} (hload : h.load m o = .ok header)
    (hprevious : ∀ n ∈ previous, n < noLink) :
    h.lead (Header.write m (h.base + o) { header with previous }) = h.lead m := by
  funext n
  obtain ⟨hbounds, hread, hfits⟩ := load_eq_ok.1 hload
  by_cases hne : n = o
  · subst hne
    have hs := storable_of_load hload
    have hs' : ({ header with previous } : Header).Storable :=
      ⟨hs.size_lt, hprevious, hs.next_lt⟩
    rw [lead_of_ok hload,
      lead_of_ok (load_eq_ok.2 ⟨hbounds, Header.read?_write m _ hs', hfits⟩)]
  · exact lead_of_sameOutside (sameOutside_write m o _) hbounds.2 hne

/-! ## Edits -/

theorem relinkPrevious_succeeds_iff (link previous : Option Nat) (m : Memory) :
    Succeeds (h.relinkPrevious link previous m) ↔ Readable (h.lead m) link := by
  cases link with
  | none => exact iff_of_true (succeeds_ok () m) (by simp [Readable])
  | some n =>
      change Succeeds ((inspect (h.load · n) >>= fun header =>
        h.store n { header with previous }) m) ↔ _
      cases hload : h.load m n with
      | error stop =>
          rw [bind_of_error (inspect_of_error hload)]
          exact iff_of_false (not_succeeds_error stop m) (by simp [Readable, lead_of_error hload])
      | ok header =>
          rw [bind_of_ok (inspect_of_ok hload)]
          exact iff_of_true (store_succeeds (load_eq_ok.1 hload).1 _ m)
            (by simp [Readable, lead_of_ok hload])

theorem lead_relinkPrevious {link previous : Option Nat} (hprevious : ∀ n ∈ previous, n < noLink)
    (hok : h.relinkPrevious link previous m = .ok () m') : h.lead m' = h.lead m := by
  cases link with
  | none =>
      obtain ⟨-, rfl⟩ := MemoryM.pure_eq_ok.1 hok
      rfl
  | some n =>
      obtain ⟨header, m₁, hinspect, hstore⟩ := MemoryM.bind_eq_ok.1 hok
      obtain ⟨hload, rfl⟩ := MemoryM.inspect_eq_ok.1 hinspect
      obtain ⟨-, rfl⟩ := store_eq_ok.1 hstore
      exact lead_relink hload hprevious

section

variable {size n : Nat} {following : Header}

theorem takeOver_of_error {stop : HeapStop} (hload : h.load m n = .error stop) :
    h.takeOver size (some n) m = .error stop m :=
  bind_of_error (inspect_of_error hload)

theorem takeOver_of_used (hload : h.load m n = .ok following) (hused : following.free = false) :
    h.takeOver size (some n) m = .ok (size, some n) m := by
  unfold takeOver
  dsimp only
  rw [bind_of_ok (inspect_of_ok hload), hused]
  rfl

theorem takeOver_of_free (hload : h.load m n = .ok following) (hfree : following.free = true)
    (hlt : size + headerSize + following.size < Word.limit) :
    h.takeOver size (some n) m =
      .ok (size + headerSize + following.size, following.next)
        (Header.erase m (h.base + n)) := by
  have hfirst := Nat.lt_of_le_of_lt (Nat.le_add_right _ _) hlt
  unfold takeOver
  dsimp only
  rw [bind_of_ok (inspect_of_ok hload), if_pos hfree,
    bind_of_ok (lift_of_ok (HeapStop.add_of_lt hfirst) m),
    bind_of_ok (lift_of_ok (HeapStop.add_of_lt hlt) m),
    bind_of_ok (erase_of_inBounds (load_eq_ok.1 hload).1 m)]
  rfl

end

theorem relink_takeOver_succeeds_iff (harena : h.arenaSize < Word.limit / 2) {size : Nat}
    (hsize : size ≤ h.arenaSize) (link previous : Option Nat)
    {next : Nat × Option Nat → Unit → HeapM β} (m : Memory)
    (hnext : ∀ taken m', Succeeds (next taken () m')) :
    Succeeds ((h.takeOver size link >>= fun taken =>
      h.relinkPrevious taken.2 previous >>= next taken) m) ↔ Leads (h.lead m) link := by
  have hrelink : ∀ taken m', Succeeds ((h.relinkPrevious taken.2 previous >>= next taken) m') ↔
      Readable (h.lead m') taken.2 := by
    intro taken m'
    rw [succeeds_bind_iff fun _ m'' _ => hnext taken m'', relinkPrevious_succeeds_iff]
  cases link with
  | none =>
      exact iff_of_true ((hrelink (size, none) m).2 (by simp [Readable])) (by simp [Leads])
  | some n =>
      cases hload : h.load m n with
      | error stop =>
          rw [bind_of_error (takeOver_of_error hload)]
          exact iff_of_false (not_succeeds_error stop m) (by simp [Leads, lead_of_error hload])
      | ok following =>
          obtain ⟨hbounds, -, hstop, -⟩ := load_eq_ok.1 hload
          have hlead := lead_of_ok hload
          cases hfree : following.free with
          | false =>
              rw [bind_of_ok (takeOver_of_used hload hfree), hrelink]
              simp [Readable, Leads, hlead, hfree]
          | true =>
              -- a block that names itself is gone when it comes to be relinked
              rw [bind_of_ok (takeOver_of_free hload hfree (by omega)), hrelink,
                lead_erase m hbounds]
              simp [Leads, hlead, hfree]

theorem splitOff_succeeds_iff (harena : h.arenaSize < Word.limit / 2) (hbounds : h.InBounds o)
    (hstop : o + headerSize + header.size ≤ h.arenaSize) (haligned : payload % headerSize = 0)
    (hroom : payload + headerSize ≤ header.size) (m : Memory) :
    Succeeds (h.splitOff o header payload m) ↔ Leads (h.lead m) header.next := by
  unfold splitOff
  rw [bind_of_ok (lift_of_ok (HeapStop.add_of_lt (by omega)) m),
    bind_of_ok (lift_of_ok (HeapStop.add_of_lt (by omega)) m),
    bind_of_ok (lift_of_ok (HeapStop.sub_of_le (by omega)) m),
    bind_of_ok (lift_of_ok (HeapStop.sub_of_le (by omega)) m)]
  apply relink_takeOver_succeeds_iff harena (by omega)
  intro taken m'
  have htail : h.InBounds (o + headerSize + payload) := by
    obtain ⟨-, ho⟩ := hbounds
    simp only [InBounds, headerSize] at *
    omega
  exact (succeeds_bind_iff fun _ m'' _ => succeeds_pure _ m'').2 (store_succeeds htail _ m')

theorem cut_succeeds_iff (harena : h.arenaSize < Word.limit / 2) (hbounds : h.InBounds o)
    (hfits : h.Fits o header) (haligned : payload % headerSize = 0)
    (hsplits : h.Splits header.size payload) (m : Memory) :
    Succeeds ((h.splitOff o header payload >>= h.store o) m) ↔ Leads (h.lead m) header.next := by
  rw [succeeds_bind_iff fun header' m' _ => store_succeeds hbounds header' m']
  exact splitOff_succeeds_iff harena hbounds hfits.1 haligned
    (header_fits haligned hfits.2 hsplits) m

section

variable (harena : h.arenaSize < Word.limit / 2) (hbounds : h.InBounds o)
  (hfits : h.Fits o header) (haligned : payload % headerSize = 0) (hroom : payload ≤ header.size)
include harena hbounds hfits haligned hroom

theorem settle_succeeds_iff (m : Memory) :
    Succeeds (h.settle o header payload m) ↔
      (h.Splits header.size payload → Leads (h.lead m) header.next) := by
  rw [settle_eq hroom]
  by_cases hsplits : h.Splits header.size payload
  · simp only [hsplits, if_true, true_imp_iff]
    exact cut_succeeds_iff harena hbounds hfits haligned hsplits m
  · simp only [hsplits, if_false, false_imp_iff, iff_true]
    exact store_succeeds hbounds header m

theorem shrink_succeeds_iff (m : Memory) :
    Succeeds (h.shrink o header payload m) ↔
      (h.Splits header.size payload → Leads (h.lead m) header.next) := by
  rw [shrink_eq hroom]
  by_cases hsplits : h.Splits header.size payload
  · simp only [hsplits, if_true, true_imp_iff]
    exact cut_succeeds_iff harena hbounds hfits haligned hsplits m
  · simp only [hsplits, if_false, false_imp_iff, iff_true]
    exact succeeds_pure () m

end

section

variable {s : Nat} {following : Header} (hnext : header.next = some s)
  (hload : h.load m s = .ok following) (hfree : following.free = true)
  (hroom : payload ≤ header.size + headerSize + following.size)
include hnext hload hfree hroom

theorem growInPlace_of_room (hlt : header.size + headerSize + following.size < Word.limit) :
    h.growInPlace o header payload m = (do
      h.relinkPrevious following.next (some o)
      h.erase s
      h.settle o { header with
        size := header.size + headerSize + following.size, next := following.next } payload
      pure true : HeapM Bool) m := by
  unfold growInPlace
  rw [hnext]
  dsimp only
  rw [bind_of_ok (inspect_of_ok hload),
    bind_of_ok (lift_of_ok (HeapStop.add_of_lt (Nat.lt_of_le_of_lt (Nat.le_add_right _ _) hlt)) m),
    bind_of_ok (lift_of_ok (HeapStop.add_of_lt hlt) m), if_pos ⟨hfree, hroom⟩]

theorem growInPlace_eq_true (hlt : header.size + headerSize + following.size < Word.limit)
    {grown : Bool} (hok : h.growInPlace o header payload m = .ok grown m') : grown = true := by
  rw [growInPlace_of_room hnext hload hfree hroom hlt] at hok
  obtain ⟨_, m₁, -, hok⟩ := MemoryM.bind_eq_ok.1 hok
  obtain ⟨_, m₂, -, hok⟩ := MemoryM.bind_eq_ok.1 hok
  obtain ⟨_, m₃, -, hok⟩ := MemoryM.bind_eq_ok.1 hok
  exact (MemoryM.pure_eq_ok.1 hok).1.symm

theorem growInPlace_succeeds_iff (harena : h.arenaSize < Word.limit / 2) (hbounds : h.InBounds o)
    (hfits : h.Fits o header) (hadjacent : s = o + headerSize + header.size)
    (haligned : payload % headerSize = 0) :
    Succeeds (h.growInPlace o header payload m) ↔ Readable (h.lead m) following.next ∧
      (h.Splits (header.size + headerSize + following.size) payload →
        Leads (erasing (h.lead m) s) following.next) := by
  obtain ⟨hbounds', -, hfits'⟩ := load_eq_ok.1 hload
  obtain ⟨hstop', hsize'⟩ := hfits'
  have hsize := hfits.2
  have hlink : ∀ n ∈ some o, n < noLink := by
    rintro n ⟨⟩
    unfold Word.limit at harena
    unfold noLink
    omega
  have hcombined : h.Fits o ⟨header.free, header.size + headerSize + following.size,
      header.previous, following.next⟩ := by
    simp only [Fits, headerSize] at *
    omega
  rw [growInPlace_of_room hnext hload hfree hroom (by omega),
    ← relinkPrevious_succeeds_iff following.next (some o) m]
  cases hrelink : h.relinkPrevious following.next (some o) m with
  | error stop m₁ =>
      rw [bind_of_error hrelink]
      simp [not_succeeds_error]
  | ok _ m₁ =>
      -- relinking changes a back link only, so `settle` sees the old arena without the successor
      rw [bind_of_ok hrelink, bind_of_ok (erase_of_inBounds hbounds' m₁),
        succeeds_bind_iff fun _ m' _ => succeeds_pure true m',
        settle_succeeds_iff harena hbounds hcombined haligned hroom, lead_erase m₁ hbounds',
        lead_relinkPrevious hlink hrelink]
      simp [succeeds_ok]

end

/-! ## Sound links -/

/-- The block ends where the one starts that it names and that links back, or with the arena. -/
def SoundLink (h : BlockHeap) (m : Memory) (o : Nat) (header : Header) : Prop :=
  match header.next with
  | none => o + headerSize + header.size = h.arenaSize
  | some next => next = o + headerSize + header.size ∧ next < h.arenaSize ∧
      ∃ behind, h.load m next = .ok behind ∧ behind.previous = some o

theorem soundLink_of_verifyNext (hok : h.verifyNext m o header = .ok ()) :
    h.SoundLink m o header := by
  unfold verifyNext at hok
  cases hs : h.successor o header with
  | error stop => simp [hs, bind, Except.bind] at hok
  | ok link =>
      cases link with
      | none =>
          obtain ⟨hnext, hstop⟩ := successor_eq_none hs
          simpa only [SoundLink, hnext] using hstop
      | some next =>
          obtain ⟨hnext, hadjacent, hlt⟩ := successor_eq_some hs
          simp only [SoundLink, hnext]
          refine ⟨hadjacent, hlt, ?_⟩
          cases hload : h.load m next with
          | error stop => simp [hs, hload, bind, Except.bind] at hok
          | ok behind =>
              refine ⟨behind, rfl, ?_⟩
              by_contra hne
              simp [hs, hload, hne, bind, Except.bind] at hok

theorem verifyLinks_eq_ok :
    h.verifyLinks m o header = .ok () ↔
      h.verifyPrevious m o header.previous = .ok () ∧ h.verifyNext m o header = .ok () := by
  unfold verifyLinks
  cases hprevious : h.verifyPrevious m o header.previous with
  | error stop => simp [bind, Except.bind]
  | ok _ => simp [bind, Except.bind]

theorem usedBlock_eq_ok {p : Nat} :
    h.usedBlock m p = .ok (o, header) ↔
      p = h.payloadAddress o ∧ m.readWord (h.base + o) = usedTag ∧ h.load m o = .ok header ∧
        h.verifyLinks m o header = .ok () := by
  -- the address determines the place at which the header is looked for
  have hplace : h.payloadAddress o - (h.base + headerSize) = o := by
    simp only [payloadAddress]
    omega
  unfold usedBlock
  dsimp only
  constructor
  · intro hused
    split at hused
    · rename_i hlow
      split at hused
      · rename_i htag
        cases hload : h.load m (p - (h.base + headerSize)) with
        | error stop => simp [hload, bind, Except.bind] at hused
        | ok found =>
            cases hlinks : h.verifyLinks m (p - (h.base + headerSize)) found with
            | error stop => simp [hload, hlinks, bind, Except.bind] at hused
            | ok _ =>
                simp only [hload, hlinks, bind, Except.bind, pure, Except.pure, Except.ok.injEq,
                  Prod.mk.injEq] at hused
                obtain ⟨rfl, rfl⟩ := hused
                refine ⟨?_, htag, hload, hlinks⟩
                simp only [payloadAddress]
                omega
      · cases hused
    · cases hused
  · rintro ⟨rfl, htag, hload, hlinks⟩
    have hlow : h.base + headerSize ≤ h.payloadAddress o := by
      simp only [payloadAddress]
      omega
    rw [hplace, if_pos ⟨hlow, (load_eq_ok.1 hload).1⟩, if_pos htag, hload]
    simp only [bind, Except.bind, hlinks]
    rfl

theorem usedBlock_soundLink {p : Nat} (hused : h.usedBlock m p = .ok (o, header)) :
    h.SoundLink m o header := by
  obtain ⟨-, -, -, hlinks⟩ := usedBlock_eq_ok.1 hused
  exact soundLink_of_verifyNext (verifyLinks_eq_ok.1 hlinks).2

/-- The call answers only if the link of the block at `o` is sound, and reports one that is not. -/
structure ReportsUnsound (h : BlockHeap) (m : Memory) (o : Nat) (header : Header)
    (r : EStateM.Result HeapStop Memory Nat) : Prop where
  sound_of_ok : ∀ p m', r = .ok p m' → h.SoundLink m o header
  corrupted : ¬ h.SoundLink m o header →
    ∃ offset m', r = .error (.report (.corrupted offset)) m'

/--
The call answers `p` if `checked` holds, and reports a corruption otherwise.
`checked` is all that it asks of the link of the block at `o`, sound or not.
-/
structure Asks (h : BlockHeap) (m : Memory) (o : Nat) (header : Header) (checked : Prop) (p : Nat)
    (r : EStateM.Result HeapStop Memory Nat) : Prop where
  ok_iff : (∃ m', r = .ok p m') ↔ checked
  corrupted_iff : (∃ offset m', r = .error (.report (.corrupted offset)) m') ↔ ¬ checked
  reports_iff : h.ReportsUnsound m o header r ↔ (checked → h.SoundLink m o header)

theorem asks_of_succeeds_iff {x : HeapM α} {post : α → Prop} {checked : Prop} (p : Nat)
    (header : Header) (hx : Succeeds (x m) ↔ checked) (hreports : Reports Corruption (x m))
    (hcontained : h.Contained x post) :
    h.Asks m o header checked p ((x >>= fun _ => pure p) m) := by
  cases hrun : x m with
  | ok value m' =>
      rw [hrun] at hx
      have hchecked := hx.1 (succeeds_ok value m')
      have hok : (x >>= fun _ => pure p) m = .ok p m' := bind_of_ok hrun
      refine ⟨iff_of_true ⟨m', hok⟩ hchecked, ?_, ?_⟩
      · simp [hok, hchecked]
      · constructor
        · exact fun hr _ => hr.sound_of_ok p m' hok
        · intro hsound
          exact ⟨fun _ _ _ => hsound hchecked, fun hunsound => absurd (hsound hchecked) hunsound⟩
  | error stop m' =>
      rw [hrun] at hx
      have hchecked : ¬ checked := fun hc => not_succeeds_error stop m' (hx.2 hc)
      have hfail : (x >>= fun _ => pure p) m = .error stop m' := bind_of_error hrun
      cases stop with
      | overflow => exact absurd hrun hcontained.not_overflow
      | report error =>
          obtain ⟨offset, rfl⟩ := hreports error m' hrun
          refine ⟨?_, iff_of_true ⟨offset, m', hfail⟩ hchecked, ?_⟩
          · simp [hfail, hchecked]
          · refine iff_of_true ⟨?_, fun _ => ⟨offset, m', hfail⟩⟩ (absurd · hchecked)
            simp [hfail]

/-! ## The calls -/

variable {size : Nat}

theorem allocate_asks (hinit : h.isInitialized = true) (harena : h.arenaSize < Word.limit / 2)
    (hsize : payloadSize? size = some payload)
    (hfound : h.findFree m payload = .ok (some (o, header))) :
    h.Asks m o header (h.Splits header.size payload → Leads (h.lead m) header.next)
      (h.payloadAddress o) (h.allocate size m) := by
  obtain ⟨haligned, -⟩ := payloadSize?_eq_some hsize
  obtain ⟨hbounds, hfits, hroom⟩ :
      h.InBounds o ∧ h.Fits o { header with free := false } ∧ payload ≤ header.size :=
    (Contained.inspect (findFree_contained harena payload)).post_of_ok (inspect_of_ok hfound)
      (o, header) rfl
  have hrun : h.allocate size m =
      (h.settle o { header with free := false } payload >>= fun _ =>
        pure (h.payloadAddress o)) m := by
    unfold allocate
    rw [bind_of_ok (requireInitialized_eq_ok.2 ⟨hinit, rfl⟩),
      bind_of_ok (lift_of_ok (payloadSize_of_some hsize) m), bind_of_ok (inspect_of_ok hfound)]
  rw [hrun]
  apply asks_of_succeeds_iff
  · exact settle_succeeds_iff harena hbounds hfits haligned hroom m
  · exact settle_reports h o _ payload m
  · exact settle_contained harena o _ hfits.1 hroom haligned hfits.2

theorem leads_of_free {s : Nat} {following : Header} (hload : h.load m s = .ok following)
    (hfree : following.free = true) :
    Leads (h.lead m) (some s) ↔ Readable (erasing (h.lead m) s) following.next := by
  simp [Leads, lead_of_ok hload, hfree]

theorem resize_of_usedBlock (hinit : h.isInitialized = true) {p : Nat}
    (hsize : payloadSize? size = some payload) (hused : h.usedBlock m p = .ok (o, header)) :
    h.resize p size m = (do
      if payload ≤ header.size then
        h.shrink o header payload
        pure p
      else if ← h.growInPlace o header payload then pure p
      else
        let target ← h.allocate size
        modify (·.copy p target (min header.size size))
        h.release p
        pure target : HeapM Nat) m := by
  unfold resize
  rw [bind_of_ok (requireInitialized_eq_ok.2 ⟨hinit, rfl⟩), bind_of_ok (inspect_of_ok hused)]
  dsimp only
  rw [bind_of_ok (lift_of_ok (payloadSize_of_some hsize) m)]

section

variable {p s : Nat} {following : Header} (hinit : h.isInitialized = true)
  (harena : h.arenaSize < Word.limit / 2) (hsize : payloadSize? size = some payload)
  (hused : h.usedBlock m p = .ok (o, header)) (hnext : header.next = some s)
  (hload : h.load m s = .ok following) (hfree : following.free = true)
include hinit harena hsize hused hnext hload hfree

theorem resize_shrink_asks (hroom : payload ≤ header.size)
    (hsplits : h.Splits header.size payload) :
    h.Asks m s following (Readable (erasing (h.lead m) s) following.next) p
      (h.resize p size m) := by
  obtain ⟨haligned, -⟩ := payloadSize?_eq_some hsize
  obtain ⟨-, hbounds, hfits, -⟩ :=
    (Contained.inspect (usedBlock_contained harena p)).post_of_ok (inspect_of_ok hused)
  rw [resize_of_usedBlock hinit hsize hused, if_pos hroom]
  apply asks_of_succeeds_iff
  · rw [shrink_succeeds_iff harena hbounds hfits haligned hroom, hnext, leads_of_free hload hfree]
    exact ⟨fun hleads => hleads hsplits, fun hreadable _ => hreadable⟩
  · exact shrink_reports h o header payload m
  · exact shrink_contained harena hfits hroom haligned

theorem resize_grow_asks (hlarge : header.size < payload)
    (hroom : payload ≤ header.size + headerSize + following.size) :
    h.Asks m s following
      (Readable (h.lead m) following.next ∧
        (h.Splits (header.size + headerSize + following.size) payload →
          Leads (erasing (h.lead m) s) following.next))
      p (h.resize p size m) := by
  obtain ⟨haligned, -⟩ := payloadSize?_eq_some hsize
  obtain ⟨-, hbounds, hfits, hadjacent⟩ :=
    (Contained.inspect (usedBlock_contained harena p)).post_of_ok (inspect_of_ok hused)
  have hstop : o + headerSize + header.size ≤ h.arenaSize := hfits.1
  have hstop' := (load_eq_ok.1 hload).2.2.1
  have hrun : h.resize p size m =
      (h.growInPlace o header payload >>= fun _ => pure p) m := by
    rw [resize_of_usedBlock hinit hsize hused, if_neg (by omega)]
    cases hgrow : h.growInPlace o header payload m with
    | error stop m' => rw [bind_of_error hgrow, bind_of_error hgrow]
    | ok grown m' =>
        obtain rfl := growInPlace_eq_true hnext hload hfree hroom (by omega) hgrow
        rw [bind_of_ok hgrow, bind_of_ok hgrow]
        rfl
  rw [hrun]
  apply asks_of_succeeds_iff
  · exact growInPlace_succeeds_iff hnext hload hfree hroom harena hbounds hfits
      (hadjacent s hnext) haligned
  · exact growInPlace_reports h o header payload m
  · exact growInPlace_contained harena hfits hadjacent haligned

end

/--
What a call asks of the onward link of a free block that it takes into use or
absorbs, on an arena that may hold any bytes.  The call does right by the link
exactly if what it asks implies that the link is sound.  The link of the block
in use that is resized has been verified.
-/
theorem edits_ask_of_links (hinit : h.isInitialized = true) (harena : h.arenaSize < Word.limit / 2)
    (m : Memory) (hsize : payloadSize? size = some payload) :
    (∀ o header, h.findFree m payload = .ok (some (o, header)) →
      h.Asks m o header (h.Splits header.size payload → Leads (h.lead m) header.next)
        (h.payloadAddress o) (h.allocate size m)) ∧
      ∀ p o header s following, h.usedBlock m p = .ok (o, header) → header.next = some s →
        h.load m s = .ok following → following.free = true →
        h.SoundLink m o header ∧
          (payload ≤ header.size → h.Splits header.size payload →
            h.Asks m s following (Readable (erasing (h.lead m) s) following.next) p
              (h.resize p size m)) ∧
          (header.size < payload → payload ≤ header.size + headerSize + following.size →
            h.Asks m s following
              (Readable (h.lead m) following.next ∧
                (h.Splits (header.size + headerSize + following.size) payload →
                  Leads (erasing (h.lead m) s) following.next))
              p (h.resize p size m)) := by
  refine ⟨fun o header hfound => allocate_asks hinit harena hsize hfound, ?_⟩
  intro p o header s following hused hnext hload hfree
  exact ⟨usedBlock_soundLink hused,
    resize_shrink_asks hinit harena hsize hused hnext hload hfree,
    resize_grow_asks hinit harena hsize hused hnext hload hfree⟩

theorem self_link_noticed_by_split :
    let h : BlockHeap := ⟨64, 128, 1⟩
    let header : Header := ⟨true, 96, none, some 0⟩
    let m := header.write (Memory.ofBytes 0 ByteArray.empty) 64
    h.ReportsUnsound m 0 header (h.allocate 8 m) ∧
      ¬ h.ReportsUnsound m 0 header (h.allocate 96 m) := by
  intro h header m
  have hsmall : h.findFree m 32 = .ok (some (0, header)) := by decide +kernel
  have hlarge : h.findFree m 96 = .ok (some (0, header)) := by decide +kernel
  have hunsound : ¬ h.SoundLink m 0 header := fun hsound => absurd hsound.1 (by decide)
  have hload : h.load m 0 = .ok header := by decide +kernel
  constructor
  · rw [((edits_ask_of_links (h := h) rfl (by decide) m
      (rfl : payloadSize? 8 = some 32)).1 0 header hsmall).reports_iff]
    intro hchecked
    have hleads := (leads_of_free hload rfl).1 (hchecked (by decide))
    exact absurd rfl (hleads 0 rfl)
  · rw [((edits_ask_of_links (h := h) rfl (by decide) m
      (rfl : payloadSize? 96 = some 96)).1 0 header hlarge).reports_iff]
    intro hsound
    exact hunsound (hsound fun hsplits => absurd hsplits (by decide))

/-- A block whose link leads nowhere is handed out as a whole. -/
theorem dangling_block_allocated :
    let h : BlockHeap := ⟨64, 128, 2⟩
    let header : Header := ⟨true, 96, none, some 64⟩
    let m := header.write (Memory.ofBytes 0 ByteArray.empty) 64
    h.findFree m 96 = .ok (some (0, header)) ∧ (∃ m', h.allocate 96 m = .ok 96 m') ∧
      ¬ h.SoundLink m 0 header := by
  intro h header m
  have hfound : h.findFree m 96 = .ok (some (0, header)) := by decide +kernel
  refine ⟨hfound, ?_, fun hsound => absurd hsound.1 (by decide)⟩
  apply (allocate_asks rfl (by decide) rfl hfound).ok_iff.2
  exact fun hsplits => absurd hsplits (by decide)

end EarlyBoot.BlockHeap
