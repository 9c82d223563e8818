import EarlyBoot.Proofs.BlockHeap.Containment

/-!
# Which errors are reported, and when

On an arbitrary arena every edit of the block list can find a header that it
does not trust, at any point of its work.  All other errors come first.  A
request that the heap merely refuses has written nothing: `Declines` says so of
`allocate` and of all ways through `resize`, with the errors that can occur.
-/

namespace EarlyBoot

inductive HeapError.IsRefusal : HeapError → Prop
  | notInitialized : IsRefusal .notInitialized
  | outOfMemory {requested : Nat} : IsRefusal (.outOfMemory requested)
  | sizeOverflow {count size : Nat} : IsRefusal (.sizeOverflow count size)

theorem HeapError.IsRefusal.not_fatal {error : HeapError} (hr : error.IsRefusal) :
    error.isFatal = false := by
  cases hr <;> rfl

def HeapError.IsCorruption (error : HeapError) : Prop := ∃ offset, error = .corrupted offset

theorem HeapError.IsCorruption.fatal {error : HeapError} (hc : error.IsCorruption) :
    error.isFatal = true := by
  obtain ⟨offset, rfl⟩ := hc
  rfl

namespace BlockHeap

open MemoryM (inspect)
open HeapError (IsCorruption)

variable {h : BlockHeap} {m : Memory} {α β : Type}

def Faults (kind : HeapError → Prop) (result : Except HeapStop α) : Prop :=
  ∀ error, result = .error (.report error) → kind error

def Reports (kind : HeapError → Memory → Prop) (r : EStateM.Result HeapStop Memory α) : Prop :=
  ∀ error m', r = .error (.report error) m' → kind error m'

def Corruption (error : HeapError) (_ : Memory) : Prop := error.IsCorruption

def Fatal (error : HeapError) (_ : Memory) : Prop := error.isFatal = true

/-- Started from `m`, the computation reports a fatal error, or refuses and leaves `m`. -/
def Orderly (m : Memory) (error : HeapError) (m' : Memory) : Prop :=
  error.isFatal = true ∨ error.IsRefusal ∧ m' = m

/-- The errors with which a request for `size` bytes is turned down. -/
inductive Refuses (h : BlockHeap) (size : Nat) : HeapError → Prop
  | notInitialized : h.isInitialized = false → Refuses h size .notInitialized
  | sizeOverflow : Refuses h size (.sizeOverflow 1 size)
  | outOfMemory : Refuses h size (.outOfMemory size)

theorem Refuses.isRefusal {size : Nat} {error : HeapError} (hr : h.Refuses size error) :
    error.IsRefusal := by
  cases hr with
  | notInitialized => exact .notInitialized
  | sizeOverflow => exact .sizeOverflow
  | outOfMemory => exact .outOfMemory

def Declines (h : BlockHeap) (size : Nat) (m : Memory) (error : HeapError) (m' : Memory) : Prop :=
  error.isFatal = true ∨ h.Refuses size error ∧ m' = m

theorem Declines.of_fatal {size : Nat} {error : HeapError} {m' : Memory} (hf : Fatal error m') :
    h.Declines size m error m' :=
  .inl hf

theorem Declines.of_corruption {size : Nat} {error : HeapError} {m' : Memory}
    (hc : Corruption error m') : h.Declines size m error m' :=
  .inl hc.fatal

theorem Declines.orderly {size : Nat} {error : HeapError} {m' : Memory}
    (hd : h.Declines size m error m') : Orderly m error m' :=
  hd.imp_right fun hrefused => ⟨hrefused.1.isRefusal, hrefused.2⟩

namespace Faults

variable {kind : HeapError → Prop}

theorem ok (value : α) : Faults kind (.ok value : Except HeapStop α) := nofun

theorem report {error : HeapError} (hk : kind error) :
    Faults kind (.error (.report error) : Except HeapStop α) := by
  rintro _ ⟨⟩
  exact hk

theorem overflow : Faults kind (.error .overflow : Except HeapStop α) := nofun

theorem bind {result : Except HeapStop α} {next : α → Except HeapStop β} (hr : Faults kind result)
    (hnext : ∀ value, Faults kind (next value)) : Faults kind (result >>= next) := by
  cases result with
  | ok value => exact hnext value
  | error stop =>
      rintro error ⟨⟩
      exact hr error rfl

theorem mono {kind' : HeapError → Prop} {result : Except HeapStop α} (hr : Faults kind result)
    (hsub : ∀ error, kind error → kind' error) : Faults kind' result :=
  fun error herror => hsub error (hr error herror)

theorem add (a b : Nat) : Faults kind (HeapStop.add a b) := by
  unfold HeapStop.add
  split
  · exact ok _
  · exact overflow

theorem sub (a b : Nat) : Faults kind (HeapStop.sub a b) := by
  unfold HeapStop.sub
  split
  · exact ok _
  · exact overflow

end Faults

namespace Reports

variable {kind : HeapError → Memory → Prop}

theorem ok (value : α) (m : Memory) :
    Reports kind (.ok value m : EStateM.Result HeapStop Memory α) := nofun

theorem report {error : HeapError} (hk : kind error m) :
    Reports kind (.error (.report error) m : EStateM.Result HeapStop Memory α) := by
  rintro _ _ ⟨⟩
  exact hk

theorem bind {x : HeapM α} {f : α → HeapM β} (hx : Reports kind (x m))
    (hf : ∀ value m', x m = .ok value m' → Reports kind (f value m')) :
    Reports kind ((x >>= f) m) := by
  cases hrun : x m with
  | ok value m' =>
      rw [MemoryM.bind_of_ok hrun]
      exact hf value m' hrun
  | error stop m' =>
      rw [MemoryM.bind_of_error hrun]
      rintro error _ ⟨⟩
      exact hx error m' hrun

theorem inspect {query : Memory → Except HeapStop α} (hq : Faults (kind · m) (query m)) :
    Reports kind (inspect query m) := by
  cases hrun : query m with
  | ok value =>
      rw [MemoryM.inspect_of_ok hrun]
      exact ok value m
  | error stop =>
      rw [MemoryM.inspect_of_error hrun]
      rintro error _ ⟨⟩
      exact hq error hrun

theorem lift {result : Except HeapStop α} (hr : Faults (kind · m) result) :
    Reports kind ((liftM result : HeapM α) m) :=
  inspect hr

theorem modify (update : Memory → Memory) (m : Memory) :
    Reports kind ((modify update : HeapM Unit) m) := nofun

theorem mono {kind' : HeapError → Memory → Prop} {r : EStateM.Result HeapStop Memory α}
    (hr : Reports kind r) (hsub : ∀ error m', kind error m' → kind' error m') : Reports kind' r :=
  fun error m' herror => hsub error m' (hr error m' herror)

end Reports

/-- The computation establishes `post` if it succeeds, and reports only what `kind` allows. -/
def Ends (post : Memory → Prop) (kind : HeapError → Memory → Prop)
    (r : EStateM.Result HeapStop Memory α) : Prop :=
  Reports kind r ∧ ∀ value m', r = .ok value m' → post m'

namespace Ends

variable {post : Memory → Prop} {kind : HeapError → Memory → Prop}

theorem ok (value : α) (hpost : post m) :
    Ends post kind (.ok value m : EStateM.Result HeapStop Memory α) := by
  refine ⟨.ok value m, ?_⟩
  rintro _ _ ⟨⟩
  exact hpost

theorem report {error : HeapError} (hk : kind error m) :
    Ends post kind (.error (.report error) m : EStateM.Result HeapStop Memory α) :=
  ⟨.report hk, nofun⟩

theorem bind {between : Memory → Prop} {x : HeapM α} {f : α → HeapM β}
    (hx : Ends between kind (x m))
    (hf : ∀ value m', x m = .ok value m' → between m' → Ends post kind (f value m')) :
    Ends post kind ((x >>= f) m) := by
  refine ⟨hx.1.bind fun value m' hrun => (hf value m' hrun (hx.2 value m' hrun)).1, ?_⟩
  intro _ m'' hrun
  obtain ⟨value, m', hfirst, hrest⟩ := MemoryM.bind_eq_ok.1 hrun
  exact (hf value m' hfirst (hx.2 value m' hfirst)).2 _ m'' hrest

theorem inspect {query : Memory → Except HeapStop α} (hq : Faults (kind · m) (query m)) :
    Ends (m = ·) kind (inspect query m) :=
  ⟨.inspect hq, fun _ _ hrun => (MemoryM.inspect_eq_ok.1 hrun).2⟩

theorem lift {result : Except HeapStop α} (hr : Faults (kind · m) result) :
    Ends (m = ·) kind ((liftM result : HeapM α) m) :=
  inspect hr

end Ends

/-! ## Queries -/

theorem load_faults (h : BlockHeap) (m : Memory) (o : Nat) :
    Faults IsCorruption (h.load m o) := by
  unfold load
  split
  · split
    · split
      · exact .ok _
      · exact .report ⟨o, rfl⟩
    · exact .report ⟨o, rfl⟩
  · exact .report ⟨o, rfl⟩

theorem successor_faults (h : BlockHeap) (o : Nat) (header : Header) :
    Faults IsCorruption (h.successor o header) := by
  unfold successor
  refine (Faults.add o headerSize).bind ?_
  intro payload
  refine (Faults.add payload header.size).bind ?_
  intro stop
  split
  · split
    · exact .ok _
    · exact .report ⟨o, rfl⟩
  · split
    · exact .ok _
    · exact .report ⟨o, rfl⟩

theorem walkFrom_faults (h : BlockHeap) (m : Memory) (o : Nat) :
    ∀ error, (h.walkFrom m o).stop = some (.report error) → error.IsCorruption := by
  induction o using walkFrom.induct h m with
  | case1 o stop hload =>
      rw [walkFrom_of_load_error hload]
      rintro error ⟨⟩
      exact load_faults h m o error hload
  | case2 o header hload stop hs =>
      rw [walkFrom_of_successor_error hload hs]
      rintro error ⟨⟩
      exact successor_faults h o header error hs
  | case3 o header hload hs =>
      rw [walkFrom_of_last hload hs]
      rintro error ⟨⟩
  | case4 o header hload next hs hlt ih =>
      rw [walkFrom_of_next hload hs]
      exact ih

theorem findFree_faults (h : BlockHeap) (m : Memory) (payload : Nat) :
    Faults IsCorruption (h.findFree m payload) := by
  have hstop := walkFrom_faults h m 0
  unfold findFree walk
  dsimp only
  split
  · exact .ok _
  · generalize (h.walkFrom m 0).stop = stop at hstop
    cases stop with
    | none => exact .ok _
    | some stop =>
        rintro error ⟨⟩
        exact hstop error rfl

theorem verifyPrevious_faults (h : BlockHeap) (m : Memory) (o : Nat) (link : Option Nat) :
    Faults IsCorruption (h.verifyPrevious m o link) := by
  cases link with
  | none =>
      change Faults _ (if o = 0 then pure () else throw (.report (.corrupted o)))
      split
      · exact .ok _
      · exact .report ⟨o, rfl⟩
  | some previous =>
      refine (load_faults h m previous).bind ?_
      intro before
      refine (successor_faults h previous before).bind ?_
      intro next
      split
      · exact .ok _
      · exact .report ⟨o, rfl⟩

theorem verifyNext_faults (h : BlockHeap) (m : Memory) (o : Nat) (header : Header) :
    Faults IsCorruption (h.verifyNext m o header) := by
  refine (successor_faults h o header).bind ?_
  intro link
  cases link with
  | none => exact .ok _
  | some next =>
      refine (load_faults h m next).bind ?_
      intro behind
      split
      · exact .ok _
      · exact .report ⟨next, rfl⟩

theorem classifyUnused_fatal (h : BlockHeap) (m : Memory) (p o : Nat) :
    (h.classifyUnused m p o).isFatal = true := by
  unfold classifyUnused
  split
  · rfl
  · split <;> rfl

theorem usedBlock_faults (h : BlockHeap) (m : Memory) (p : Nat) :
    Faults (·.isFatal = true) (h.usedBlock m p) := by
  unfold usedBlock
  dsimp only
  split
  · split
    · refine ((load_faults h m _).mono fun _ => HeapError.IsCorruption.fatal).bind ?_
      intro header
      apply Faults.bind
      · apply Faults.mono _ fun _ => HeapError.IsCorruption.fatal
        refine (verifyPrevious_faults h m _ header.previous).bind ?_
        intro _
        exact verifyNext_faults h m _ header
      · exact fun _ => .ok _
    · exact .report (classifyUnused_fatal h m p _)
  · exact .report rfl

/-! ## Edits -/

theorem load_reports (h : BlockHeap) (m : Memory) (o : Nat) :
    Reports Corruption (inspect (h.load · o) m) :=
  .inspect (load_faults h m o)

theorem store_reports (h : BlockHeap) (o : Nat) (header : Header) (m : Memory) :
    Reports Corruption (h.store o header m) := by
  unfold store
  split
  · exact .ok _ _
  · exact .report ⟨o, rfl⟩

theorem erase_reports (h : BlockHeap) (o : Nat) (m : Memory) :
    Reports Corruption (h.erase o m) := by
  unfold erase
  split
  · exact .ok _ _
  · exact .report ⟨o, rfl⟩

theorem relinkPrevious_reports (h : BlockHeap) (block previous : Option Nat) (m : Memory) :
    Reports Corruption (h.relinkPrevious block previous m) := by
  cases block with
  | none => exact .ok _ _
  | some o =>
      refine (load_reports h m o).bind ?_
      intro header m' _
      exact store_reports h o _ m'

theorem takeOver_reports (h : BlockHeap) (size : Nat) (next : Option Nat) (m : Memory) :
    Reports Corruption (h.takeOver size next m) := by
  cases next with
  | none => exact .ok _ _
  | some o =>
      refine (load_reports h m o).bind ?_
      intro following m₁ _
      split
      · refine (Reports.lift (.add _ _)).bind ?_
        intro size₁ m₂ _
        refine (Reports.lift (.add _ _)).bind ?_
        intro size₂ m₃ _
        refine (erase_reports h o m₃).bind ?_
        intro _ m₄ _
        exact .ok _ m₄
      · exact .ok _ m₁

theorem splitOff_reports (h : BlockHeap) (o : Nat) (header : Header) (payload : Nat) (m : Memory) :
    Reports Corruption (h.splitOff o header payload m) := by
  refine (Reports.lift (.add _ _)).bind ?_
  intro start m₁ _
  refine (Reports.lift (.add _ _)).bind ?_
  intro tailOffset m₂ _
  refine (Reports.lift (.sub _ _)).bind ?_
  intro rest m₃ _
  refine (Reports.lift (.sub _ _)).bind ?_
  intro tailSize m₄ _
  refine (takeOver_reports h tailSize header.next m₄).bind ?_
  rintro ⟨size, next⟩ m₅ _
  refine (relinkPrevious_reports h next _ m₅).bind ?_
  intro _ m₆ _
  refine (store_reports h tailOffset _ m₆).bind ?_
  intro _ m₇ _
  exact .ok _ m₇

theorem shouldSplit_reports (h : BlockHeap) (header : Header) (payload : Nat) (m : Memory)
    {kind : HeapError → Memory → Prop} :
    Reports kind ((liftM (h.shouldSplit header payload) : HeapM Bool) m) :=
  .lift ((Faults.sub _ _).bind fun _ => .ok _)

theorem settle_reports (h : BlockHeap) (o : Nat) (header : Header) (payload : Nat) (m : Memory) :
    Reports Corruption (h.settle o header payload m) := by
  refine (shouldSplit_reports h header payload m).bind ?_
  intro split m₁ _
  cases split with
  | false => exact store_reports h o header m₁
  | true =>
      refine (splitOff_reports h o header payload m₁).bind ?_
      intro header' m₂ _
      exact store_reports h o header' m₂

theorem fuse_reports (h : BlockHeap) (first second : Nat) (m : Memory) :
    Reports Corruption (h.fuse first second m) := by
  refine (load_reports h m first).bind ?_
  intro head m₁ _
  refine (load_reports h m₁ second).bind ?_
  intro tail m₂ _
  split
  · refine (Reports.lift (.add _ _)).bind ?_
    intro size₁ m₃ _
    refine (Reports.lift (.add _ _)).bind ?_
    intro size₂ m₄ _
    refine (relinkPrevious_reports h tail.next _ m₄).bind ?_
    intro _ m₅ _
    refine (erase_reports h second m₅).bind ?_
    intro _ m₆ _
    exact store_reports h first _ m₆
  · exact .report ⟨second, rfl⟩

section

variable {post : Memory → Prop} {kind : HeapError → Memory → Prop}
  (hquery : ∀ error m, post m → error.IsCorruption → kind error m)
  (hfuse : ∀ first second m, post m → Ends post kind (h.fuse first second m))
include hquery hfuse

theorem mergeBehind_ends (o : Nat) (m : Memory) (hm : post m) :
    Ends post kind (h.mergeBehind o m) := by
  rw [mergeBehind_eq]
  refine (Ends.inspect ((load_faults h m o).mono fun e => hquery e m hm)).bind ?_
  rintro header _ - rfl
  refine (Ends.lift ((successor_faults h o header).mono fun e => hquery e m hm)).bind ?_
  rintro link _ - rfl
  cases link with
  | none => exact .ok _ hm
  | some next =>
      refine (Ends.inspect ((load_faults h m next).mono fun e => hquery e m hm)).bind ?_
      rintro following _ - rfl
      split
      · refine (hfuse o next m hm).bind ?_
        intro _ m' hrun hm'
        have hgrown := sizeAt_fuse hrun
        exact mergeBehind_ends o m' hm'
      · exact .ok _ hm
termination_by h.arenaSize - h.sizeAt m o
decreasing_by omega

theorem mergeAhead_ends (o : Nat) (m : Memory) (hm : post m) :
    Ends post kind (h.mergeAhead o m) := by
  rw [mergeAhead_eq]
  refine (Ends.inspect ((load_faults h m o).mono fun e => hquery e m hm)).bind ?_
  rintro header _ - rfl
  cases header.previous with
  | none => exact .ok _ hm
  | some previous =>
      refine (Ends.inspect ((load_faults h m previous).mono fun e => hquery e m hm)).bind ?_
      rintro preceding _ - rfl
      split
      · refine (hfuse previous o m hm).bind ?_
        intro _ m' hrun hm'
        have hdecreases := fuse_decreases hrun
        exact mergeAhead_ends previous m' hm'
      · exact .ok _ hm
termination_by (h.headerCount m, h.arenaSize - h.sizeAt m o)
decreasing_by exact hdecreases

theorem coalesce_ends (o : Nat) (m : Memory) (hm : post m) :
    Ends post kind (h.coalesce o m) := by
  apply Ends.bind (x := h.mergeBehind o) (mergeBehind_ends hquery hfuse o m hm)
  intro _ m' _ hm'
  exact mergeAhead_ends hquery hfuse o m' hm'

end

theorem coalesce_reports (h : BlockHeap) (o : Nat) (m : Memory) :
    Reports Corruption (h.coalesce o m) := by
  have hfuse : ∀ first second m, True →
      Ends (fun _ => True) Corruption (h.fuse first second m) :=
    fun first second m _ => ⟨fuse_reports h first second m, fun _ _ _ => trivial⟩
  exact (coalesce_ends (fun _ _ _ hcorruption => hcorruption) hfuse o m trivial).1

/-! ## Operations -/

theorem requireInitialized_eq_ok {m' : Memory} :
    h.requireInitialized m = .ok () m' ↔ h.isInitialized = true ∧ m' = m := by
  unfold requireInitialized
  split
  · rename_i hinit
    rw [MemoryM.pure_eq_ok]
    simp [hinit, eq_comm]
  · rename_i hinit
    simp only [hinit, Bool.false_eq_true, false_and, iff_false]
    exact MemoryM.stop_ne_ok

theorem requireInitialized_declines (h : BlockHeap) (size : Nat) (m : Memory) :
    Reports (h.Declines size m) (h.requireInitialized m) := by
  unfold requireInitialized
  split
  · exact .ok _ _
  · rename_i hinit
    exact .report (.inr ⟨.notInitialized (by simpa using hinit), rfl⟩)

theorem payloadSize_declines (h : BlockHeap) (size : Nat) (m : Memory) :
    Reports (h.Declines size m) ((liftM (payloadSize size) : HeapM Nat) m) := by
  apply Reports.lift
  unfold payloadSize
  split
  · exact .ok _
  · exact .report (.inr ⟨.sizeOverflow, rfl⟩)

theorem allocate_declines (h : BlockHeap) (size : Nat) (m : Memory) :
    Reports (h.Declines size m) (h.allocate size m) := by
  refine (requireInitialized_declines h size m).bind ?_
  intro _ m₁ hrequired
  obtain ⟨-, rfl⟩ := requireInitialized_eq_ok.1 hrequired
  refine (payloadSize_declines h size m₁).bind ?_
  intro payload m₂ hpayload
  obtain ⟨-, rfl⟩ := MemoryM.lift_eq_ok.1 hpayload
  refine (Reports.inspect ((findFree_faults h m₁ payload).mono fun _ => .of_corruption)).bind ?_
  intro found m₃ hfound
  obtain ⟨-, rfl⟩ := MemoryM.inspect_eq_ok.1 hfound
  cases found with
  | none => exact .report (.inr ⟨.outOfMemory, rfl⟩)
  | some v =>
      refine ((settle_reports h v.1 _ payload m₁).mono fun _ _ => .of_corruption).bind ?_
      intro _ m₄ _
      exact .ok _ m₄

theorem allocate_orderly (h : BlockHeap) (size : Nat) (m : Memory) :
    Reports (Orderly m) (h.allocate size m) :=
  (allocate_declines h size m).mono fun _ _ => Declines.orderly

theorem release_fatal (hinit : h.isInitialized = true) (p : Nat) (m : Memory) :
    Reports Fatal (h.release p m) := by
  apply Reports.bind
  · unfold requireInitialized
    rw [if_pos hinit]
    exact .ok _ _
  · intro _ m₁ _
    refine (Reports.inspect (usedBlock_faults h m₁ p)).bind ?_
    rintro ⟨o, header⟩ m₂ _
    refine ((store_reports h o _ m₂).mono fun _ _ => HeapError.IsCorruption.fatal).bind ?_
    intro _ m₃ _
    exact (coalesce_reports h o m₃).mono fun _ _ => HeapError.IsCorruption.fatal

theorem shrink_reports (h : BlockHeap) (o : Nat) (header : Header) (payload : Nat) (m : Memory) :
    Reports Corruption (h.shrink o header payload m) := by
  refine (shouldSplit_reports h header payload m).bind ?_
  intro split m₁ _
  cases split with
  | false => exact .ok _ _
  | true =>
      refine (splitOff_reports h o header payload m₁).bind ?_
      intro header' m₂ _
      exact store_reports h o header' m₂

theorem growInPlace_reports (h : BlockHeap) (o : Nat) (header : Header) (payload : Nat)
    (m : Memory) : Reports Corruption (h.growInPlace o header payload m) := by
  unfold growInPlace
  cases header.next with
  | none => exact .ok _ _
  | some next =>
      refine (load_reports h m next).bind ?_
      intro following m₁ _
      refine (Reports.lift (.add _ _)).bind ?_
      intro size₁ m₂ _
      refine (Reports.lift (.add _ _)).bind ?_
      intro size₂ m₃ _
      split
      · refine (relinkPrevious_reports h following.next _ m₃).bind ?_
        intro _ m₄ _
        refine (erase_reports h next m₄).bind ?_
        intro _ m₅ _
        refine (settle_reports h o _ payload m₅).bind ?_
        intro _ m₆ _
        exact .ok _ m₆
      · exact .ok _ m₃

theorem growInPlace_eq_false {o payload : Nat} {header : Header} {m' : Memory}
    (hg : h.growInPlace o header payload m = .ok false m') : m' = m := by
  unfold growInPlace at hg
  cases hnext : header.next with
  | none =>
      rw [hnext] at hg
      exact (MemoryM.pure_eq_ok.1 hg).2.symm
  | some next =>
      rw [hnext] at hg
      obtain ⟨following, m₁, hload, hg⟩ := MemoryM.bind_eq_ok.1 hg
      obtain ⟨-, rfl⟩ := MemoryM.inspect_eq_ok.1 hload
      obtain ⟨size₁, m₂, hadd, hg⟩ := MemoryM.bind_eq_ok.1 hg
      obtain ⟨-, rfl⟩ := MemoryM.lift_eq_ok.1 hadd
      obtain ⟨size₂, m₃, hadd, hg⟩ := MemoryM.bind_eq_ok.1 hg
      obtain ⟨-, rfl⟩ := MemoryM.lift_eq_ok.1 hadd
      split at hg
      · obtain ⟨_, m₄, -, hg⟩ := MemoryM.bind_eq_ok.1 hg
        obtain ⟨_, m₅, -, hg⟩ := MemoryM.bind_eq_ok.1 hg
        obtain ⟨_, m₆, -, hg⟩ := MemoryM.bind_eq_ok.1 hg
        simp [MemoryM.pure_eq_ok] at hg
      · exact (MemoryM.pure_eq_ok.1 hg).2.symm

theorem resize_declines (h : BlockHeap) (p newSize : Nat) (m : Memory) :
    Reports (h.Declines newSize m) (h.resize p newSize m) := by
  refine (requireInitialized_declines h newSize m).bind ?_
  intro _ m₁ hrequired
  obtain ⟨hinit, rfl⟩ := requireInitialized_eq_ok.1 hrequired
  refine (Reports.inspect ((usedBlock_faults h m₁ p).mono fun _ => .inl)).bind ?_
  rintro ⟨o, header⟩ m₂ hused
  obtain ⟨-, rfl⟩ := MemoryM.inspect_eq_ok.1 hused
  refine (payloadSize_declines h newSize m₁).bind ?_
  intro payload m₃ hpayload
  obtain ⟨-, rfl⟩ := MemoryM.lift_eq_ok.1 hpayload
  split
  · refine ((shrink_reports h o header payload m₁).mono fun _ _ => .of_corruption).bind ?_
    intro _ m₄ _
    exact .ok _ m₄
  · refine ((growInPlace_reports h o header payload m₁).mono fun _ _ => .of_corruption).bind ?_
    intro grown m₄ hgrown
    cases grown with
    | true => exact .ok _ m₄
    | false =>
        obtain rfl := growInPlace_eq_false hgrown
        refine (allocate_declines h newSize m₄).bind ?_
        intro target m₅ _
        refine (Reports.modify _ m₅).bind ?_
        intro _ m₆ _
        -- from here on the arena has changed, but the heap is known to be initialised
        refine ((release_fatal hinit p m₆).mono fun _ _ => .of_fatal).bind ?_
        intro _ m₇ _
        exact .ok _ m₇

theorem resize_orderly (h : BlockHeap) (p newSize : Nat) (m : Memory) :
    Reports (Orderly m) (h.resize p newSize m) :=
  (resize_declines h p newSize m).mono fun _ _ => Declines.orderly

end BlockHeap

end EarlyBoot
