import EarlyBoot.PanicReport
import EarlyBoot.Proofs.Text.Reading

/-!
# Reading a panic report

A string takes the whole report.  Whatever the reason says, the lines behind it
can be read: the registers with their names, then the words of the stack.  So
no two states of the processor and the stack are reported alike.
-/

namespace EarlyBoot

/-! ## Writing into a string -/

namespace Text

def Appends (write : WriteM String Unit) (piece : String) : Prop :=
  ∀ before, write before = .ok () (before ++ piece)

namespace Appends

theorem put (piece : String) : Appends (Writer.put piece) piece := fun _ => rfl

theorem pure : Appends (Pure.pure ()) "" := fun before => by
  rw [String.append_empty]
  rfl

theorem bind {first second : WriteM String Unit} {piece piece' : String}
    (hfirst : Appends first piece) (hsecond : Appends second piece') :
    Appends (do first; second) (piece ++ piece') := by
  intro before
  change EStateM.bind first (fun _ => second) before = _
  simp only [EStateM.bind, hfirst before]
  rw [hsecond, String.append_assoc]

theorem forM {α : Type} {write : α → WriteM String Unit} {piece : α → String}
    (h : ∀ x, Appends (write x) (piece x)) (xs : List α) :
    Appends (xs.forM write) (String.join (xs.map piece)) := by
  induction xs with
  | nil => exact pure
  | cons x xs ih =>
      rw [List.map_cons, String.join_cons]
      exact (h x).bind ih

end Appends

end Text

namespace PanicReport

open Text

theorem writeEntries_appends (separator : String) (entries : List String) :
    Appends (writeEntries separator entries) (separator.intercalate entries) := by
  induction entries with
  | nil => exact .pure
  | cons entry rest ih =>
      cases rest with
      | nil =>
          rw [String.intercalate_singleton]
          exact .put entry
      | cons next rest =>
          rw [String.intercalate_cons_cons, String.append_assoc]
          exact (Appends.put entry).bind ((Appends.put separator).bind ih)

theorem writeTable_appends (separator : String) (entries : List String) :
    Appends (writeTable separator entries) (String.join (table separator entries)) :=
  .forM (fun group => by
    rw [String.append_assoc]
    exact (Appends.put "\t").bind ((writeEntries_appends separator group).bind (.put "\n"))) _

theorem join_dump (state : CpuState) (stack : Stack) :
    String.join (dump state stack) = "CPU State:\n" ++
      (String.join (table "  " (state.named.map describeRegister)) ++
        ("STACK:\n" ++ String.join (table " " (stack.toList.map describeWord)))) := by
  simp [dump, String.join_append, String.join_cons]

theorem write_appends (reason : String) (state : CpuState) (stack : Stack) :
    Appends (write reason state stack) (render reason state stack) := by
  unfold render write
  rw [join_dump]
  iterate 2 refine .bind (.put _) ?_
  refine .bind (writeTable_appends "  " _) ?_
  refine .bind (.put _) ?_
  exact writeTable_appends " " _

theorem flatten_groupsOfFour {α : Type} (xs : List α) : (groupsOfFour xs).flatten = xs := by
  fun_induction groupsOfFour xs with
  | case1 a b c d rest ih => simp [ih]
  | case2 => rfl
  | case3 rest => simp

theorem groupsOfFour_map {α β : Type} (f : α → β) (xs : List α) :
    groupsOfFour (xs.map f) = (groupsOfFour xs).map (List.map f) := by
  fun_induction groupsOfFour xs with
  | case1 a b c d rest ih => simp [groupsOfFour, ih]
  | case2 => rfl
  | case3 rest hfour hne =>
      rcases rest with _ | ⟨a, _ | ⟨b, _ | ⟨c, _ | ⟨d, rest⟩⟩⟩⟩
      · contradiction
      · rfl
      · rfl
      · rfl
      · exact (hfour a b c d rest rfl).elim

theorem length_groupsOfFour {α : Type} {xs : List α} {count : Nat} (h : xs.length = count) :
    (groupsOfFour xs).map List.length =
      (groupsOfFour (List.replicate count ())).map List.length := by
  rw [← h, ← List.map_const', groupsOfFour_map, List.map_map]
  simp [Function.comp_def]

/-! ## Reading -/

/-- The name and the value of an entry such as `rax=00000000000000ff`. -/
def register? (entry : List Char) : Option (String × UInt64) :=
  match entry.dropWhile (· != '=') with
  | _ :: digits => (word? digits).map (String.ofList (entry.takeWhile (· != '=')), ·)
  | [] => none

/-- A description on one line in which a single word stands, from which the value can be read. -/
structure Legible {α : Type} (describe : α → String) (parse : List Char → Option α) (x : α) :
    Prop where
  one_line : '\n' ∉ (describe x).toList
  readable : ∃ word, words (describe x).toList = [word] ∧ parse word = some x

def IsSolid (c : Char) : Prop := isBlank c = false ∧ c ≠ '\n' ∧ c ≠ '='

instance (c : Char) : Decidable (IsSolid c) :=
  inferInstanceAs (Decidable (_ ∧ _ ∧ _))

theorem hexDigit_solid : ∀ digit < 16, IsSolid (hexDigit digit) := by decide

theorem fixedHexDigits_solid (width n : Nat) : ∀ c ∈ fixedHexDigits width n, IsSolid c := by
  intro c hc
  obtain ⟨digit, hlt, rfl⟩ := mem_fixedHexDigits hc
  exact hexDigit_solid digit hlt

theorem toList_describeWord (word : UInt64) :
    (describeWord word).toList = fixedHexDigits 16 word.toNat :=
  String.toList_ofList

theorem legible_word (word : UInt64) : Legible describeWord word? word := by
  have hsolid := fixedHexDigits_solid 16 word.toNat
  refine ⟨?_, fixedHexDigits 16 word.toNat, ?_, word?_fixedHexDigits word⟩
  · rw [toList_describeWord]
    exact fun h => (hsolid _ h).2.1 rfl
  · have hne : fixedHexDigits 16 word.toNat ≠ [] := by simp [← List.length_pos_iff]
    rw [toList_describeWord, words_of_solid hne fun c hc => (hsolid c hc).1]

theorem toList_describeRegister (name : String) (value : UInt64) :
    (describeRegister (name, value)).toList =
      List.replicate (3 - name.length) ' ' ++
        (name.toList ++ '=' :: fixedHexDigits 16 value.toNat) := by
  change (padLeft 3 name ++ "=" ++ describeWord value).toList = _
  simp [padLeft, toList_describeWord]

theorem register?_named {name : String} (hname : ∀ c ∈ name.toList, IsSolid c) (value : UInt64) :
    register? (name.toList ++ '=' :: fixedHexDigits 16 value.toNat) = some (name, value) := by
  have hbefore : ∀ c ∈ name.toList, (c != '=') = true := fun c hc =>
    bne_iff_ne.2 (hname c hc).2.2
  simp [register?, List.dropWhile_append_of_pos hbefore, List.takeWhile_append_of_pos hbefore,
    word?_fixedHexDigits]

theorem legible_register {name : String} (hname : ∀ c ∈ name.toList, IsSolid c) (value : UInt64) :
    Legible describeRegister register? (name, value) := by
  have hdigits := fixedHexDigits_solid 16 value.toNat
  refine ⟨?_, name.toList ++ '=' :: fixedHexDigits 16 value.toNat, ?_, register?_named hname value⟩
  · rw [toList_describeRegister]
    simp only [List.mem_append, List.mem_cons, List.mem_replicate]
    rintro (⟨-, h⟩ | h | h | h)
    · contradiction
    · exact (hname _ h).2.1 rfl
    · contradiction
    · exact (hdigits _ h).2.1 rfl
  · rw [toList_describeRegister, words_of_blanks (by simp [isBlank]), words_of_solid (by simp)]
    simp only [List.mem_append, List.mem_cons]
    rintro c (h | rfl | h)
    · exact (hname c h).1
    · rfl
    · exact (hdigits c h).1

theorem names_solid (state : CpuState) :
    ∀ register ∈ state.named, ∀ c ∈ register.1.toList, IsSolid c := by
  simp [CpuState.named, IsSolid, isBlank]

theorem legible_named (state : CpuState) :
    ∀ register ∈ state.named, Legible describeRegister register? register :=
  fun register h => legible_register (names_solid state register h) register.2

theorem legible_stack (stack : Stack) :
    ∀ word ∈ stack.toList, Legible describeWord word? word :=
  fun word _ => legible_word word

def row? {α : Type} (parse : List Char → Option α) : List Char → Option (List α)
  | '\t' :: entries => (words entries).mapM parse
  | _ => none

def Separates (separator : String) : Prop :=
  separator.toList ≠ [] ∧ ∀ c ∈ separator.toList, isBlank c

def rowLine (separator : String) (entries : List String) : List Char :=
  '\t' :: (separator.intercalate entries).toList

def tableLines (separator : String) (entries : List String) : List (List Char) :=
  (groupsOfFour entries).map (rowLine separator)

theorem toList_join_table (separator : String) (entries : List String) :
    (String.join (table separator entries)).toList =
      (tableLines separator entries).flatMap (· ++ ['\n']) := by
  simp [table, tableLines, rowLine, String.toList_join, List.flatMap_map]

section

variable {α : Type} {describe : α → String} {parse : List Char → Option α} {separator : String}

theorem mapM_words {group : List α} (h : ∀ x ∈ group, Legible describe parse x) :
    ((group.map fun x => (describe x).toList).flatMap words).mapM parse = some group := by
  induction group with
  | nil => rfl
  | cons x rest ih =>
      rw [List.forall_mem_cons] at h
      obtain ⟨word, hword, hread⟩ := h.1.readable
      simp [hword, hread, ih h.2]

theorem row?_rowLine {group : List α} (hseparator : Separates separator)
    (h : ∀ x ∈ group, Legible describe parse x) :
    row? parse (rowLine separator (group.map describe)) = some group := by
  rw [rowLine, row?, String.toList_intercalate, words_intercalate hseparator.1 hseparator.2,
    List.map_map]
  exact mapM_words h

theorem newline_not_mem_rowLine {group : List α} (hseparator : Separates separator)
    (h : ∀ x ∈ group, Legible describe parse x) :
    '\n' ∉ rowLine separator (group.map describe) := by
  have hblank : '\n' ∉ separator.toList := fun hmem => absurd (hseparator.2 _ hmem) (by decide)
  have hentries : ∀ entry ∈ (group.map describe).map String.toList, '\n' ∉ entry := by
    simpa using fun x hx => (h x hx).one_line
  rw [rowLine, List.mem_cons, String.toList_intercalate, not_or]
  exact ⟨by decide, not_mem_intercalate hblank hentries⟩

theorem tableLines_map (xs : List α) :
    tableLines separator (xs.map describe) =
      (groupsOfFour xs).map fun group => rowLine separator (group.map describe) := by
  simp [tableLines, groupsOfFour_map, Function.comp_def]

theorem mem_of_mem_groupsOfFour {xs group : List α} {x : α} (hgroup : group ∈ groupsOfFour xs)
    (h : x ∈ group) : x ∈ xs := by
  rw [← flatten_groupsOfFour xs]
  exact List.mem_flatten.2 ⟨group, hgroup, h⟩

theorem mapM_row? {xs : List α} (hseparator : Separates separator)
    (h : ∀ x ∈ xs, Legible describe parse x) :
    (tableLines separator (xs.map describe)).mapM (row? parse) = some (groupsOfFour xs) := by
  have hrow : ∀ group ∈ groupsOfFour xs,
      row? parse (rowLine separator (group.map describe)) = some group := fun group hgroup =>
    row?_rowLine hseparator fun x hx => h x (mem_of_mem_groupsOfFour hgroup hx)
  rw [tableLines_map]
  generalize groupsOfFour xs = groups at hrow ⊢
  induction groups with
  | nil => rfl
  | cons group rest ih =>
      rw [List.forall_mem_cons] at hrow
      simp [hrow.1, ih hrow.2]

theorem newline_not_mem_tableLines {xs : List α} (hseparator : Separates separator)
    (h : ∀ x ∈ xs, Legible describe parse x) :
    ∀ line ∈ tableLines separator (xs.map describe), '\n' ∉ line := by
  rw [tableLines_map]
  intro line hline
  obtain ⟨group, hgroup, rfl⟩ := List.mem_map.1 hline
  exact newline_not_mem_rowLine hseparator fun x hx => h x (mem_of_mem_groupsOfFour hgroup hx)

end

/-- What the tables of a dump say, line by line. -/
structure Listing where
  registers : List (List (String × UInt64))
  stack : List (List UInt64)

namespace Listing

def registersHeading : List Char := "CPU State:".toList

def stackHeading : List Char := "STACK:".toList

/-- Under each of the two headings stand the lines of a table, and nothing else. -/
def ofLines? : List (List Char) → Option Listing
  | [] => none
  | heading :: rest =>
      match rest.dropWhile (· != stackHeading) with
      | [] => none
      | _ :: stackLines =>
          if heading = registersHeading then do
            let registers ← (rest.takeWhile (· != stackHeading)).mapM (row? register?)
            let stack ← stackLines.mapM (row? word?)
            some ⟨registers, stack⟩
          else none

def read? (text : String) : Option Listing := (lines? text.toList).bind ofLines?

end Listing

def dumpLines (state : CpuState) (stack : Stack) : List (List Char) :=
  Listing.registersHeading :: tableLines "  " (state.named.map describeRegister) ++
    Listing.stackHeading :: tableLines " " (stack.toList.map describeWord)

theorem toList_join_dump (state : CpuState) (stack : Stack) :
    (String.join (dump state stack)).toList = (dumpLines state stack).flatMap (· ++ ['\n']) := by
  have hfirst : "CPU State:\n".toList = Listing.registersHeading ++ ['\n'] := by decide
  have hsecond : "STACK:\n".toList = Listing.stackHeading ++ ['\n'] := by decide
  rw [join_dump, dumpLines]
  simp only [String.toList_append, hfirst, hsecond, toList_join_table, List.flatMap_append,
    List.flatMap_cons, List.append_assoc]

theorem separates_two : Separates "  " := by
  simp [Separates, isBlank]

theorem separates_one : Separates " " := by
  simp [Separates, isBlank]

theorem newline_not_mem_dumpLines (state : CpuState) (stack : Stack) :
    ∀ line ∈ dumpLines state stack, '\n' ∉ line := by
  have hregisters := newline_not_mem_tableLines separates_two (legible_named state)
  have hstack := newline_not_mem_tableLines separates_one (legible_stack stack)
  simp only [dumpLines, List.forall_mem_append, List.forall_mem_cons]
  exact ⟨⟨by decide, hregisters⟩, by decide, hstack⟩

theorem lines?_dump (state : CpuState) (stack : Stack) :
    lines? (String.join (dump state stack)).toList = some (dumpLines state stack) := by
  rw [toList_join_dump]
  exact lines?_flatMap (newline_not_mem_dumpLines state stack)

theorem rowLine_ne_stackHeading (separator : String) (entries : List String) :
    rowLine separator entries ≠ Listing.stackHeading := by
  intro h
  have hhead : some '\t' = Listing.stackHeading.head? := congrArg List.head? h
  exact absurd hhead (by decide)

theorem read?_dump (state : CpuState) (stack : Stack) :
    Listing.read? (String.join (dump state stack)) =
      some ⟨groupsOfFour state.named, groupsOfFour stack.toList⟩ := by
  have hbefore : ∀ line ∈ tableLines "  " (state.named.map describeRegister),
      (line != Listing.stackHeading) = true := by
    intro line hline
    obtain ⟨entries, -, rfl⟩ := List.mem_map.1 hline
    exact bne_iff_ne.2 (rowLine_ne_stackHeading _ _)
  have hregisters := mapM_row? separates_two (legible_named state)
  have hstack := mapM_row? separates_one (legible_stack stack)
  rw [Listing.read?, lines?_dump, Option.bind_some]
  simp [dumpLines, Listing.ofLines?, List.takeWhile_append_of_pos hbefore,
    List.dropWhile_append_of_pos hbefore, hregisters, hstack]

/-! ## What is lost -/

theorem named_inj {state state' : CpuState} (h : state.named = state'.named) : state = state' := by
  cases state
  cases state'
  simpa [CpuState.named] using h

theorem dump_inj {state state' : CpuState} {stack stack' : Stack}
    (h : String.join (dump state stack) = String.join (dump state' stack')) :
    state = state' ∧ stack = stack' := by
  have hlisting := congrArg Listing.read? h
  rw [read?_dump, read?_dump, Option.some.injEq, Listing.mk.injEq] at hlisting
  have hnamed := congrArg List.flatten hlisting.1
  have hstack := congrArg List.flatten hlisting.2
  rw [flatten_groupsOfFour, flatten_groupsOfFour] at hnamed hstack
  exact ⟨named_inj hnamed, Vector.toList_inj.1 hstack⟩

theorem render_eq (reason : String) (state : CpuState) (stack : Stack) :
    render reason state stack =
      "\n*** PANIC ***\nReason: " ++ reason ++ "\n" ++ String.join (dump state stack) :=
  rfl

theorem length_named (state : CpuState) : state.named.length = 22 := rfl

theorem length_tableLines {separator : String} {entries : List String} {count : Nat}
    (h : entries.length = count) :
    (tableLines separator entries).length = (groupsOfFour (List.replicate count ())).length := by
  simpa [tableLines] using congrArg List.length (length_groupsOfFour h)

theorem length_dumpLines (state : CpuState) (stack : Stack) :
    (dumpLines state stack).length = 12 := by
  have hregisters : (state.named.map describeRegister).length = 22 := by
    rw [List.length_map, length_named]
  have hstack : (stack.toList.map describeWord).length = 16 := by simp
  rw [dumpLines, List.length_append, List.length_cons, List.length_cons,
    length_tableLines hregisters, length_tableLines hstack]
  rfl

theorem render_inj {reason reason' : String} {state state' : CpuState} {stack stack' : Stack}
    (h : render reason state stack = render reason' state' stack') :
    reason = reason' ∧ state = state' ∧ stack = stack' := by
  have htext (reason : String) (state : CpuState) (stack : Stack) :
      (render reason state stack).toList =
        ("\n*** PANIC ***\nReason: " ++ reason).toList ++
          '\n' :: (String.join (dump state stack)).toList := by
    rw [render_eq]
    simp only [String.toList_append, List.append_assoc]
    rfl
  -- a dump always has twelve lines, so a reason that looks like one is told from it
  have hlength (state : CpuState) (stack : Stack) :
      ((String.join (dump state stack)).toList.splitOn '\n').length = 13 := by
    rw [toList_join_dump, splitOn_flatMap_line (newline_not_mem_dumpLines state stack),
      List.length_append, length_dumpLines]
    rfl
  have hlines := congrArg (fun text : String => text.toList.splitOn '\n') h
  simp only [htext, List.splitOn_append_cons_self] at hlines
  obtain ⟨hfront, hdump⟩ := List.append_inj' hlines (by rw [hlength, hlength])
  have hreason := String.toList_injective (splitOn_injective hfront)
  exact ⟨(String.append_right_inj _).1 hreason,
    dump_inj (String.toList_injective (splitOn_injective hdump))⟩

/--
A string takes the whole report.  The text behind the line of the reason can be
read: a heading, six lines of registers with their names, a second heading and
four lines of words, which together are all registers and all words of the
stack, in order.  Reports are alike only if they tell the same.
-/
theorem report_can_be_read (before reason : String) (state : CpuState) (stack : Stack) :
    ∃ dumped listing,
      write reason state stack before =
        .ok () (before ++ ("\n*** PANIC ***\nReason: " ++ reason ++ "\n" ++ dumped)) ∧
      Listing.read? dumped = some listing ∧
      listing.registers =
        [[("rax", state.rax), ("rbx", state.rbx), ("rcx", state.rcx), ("rdx", state.rdx)],
          [("rsi", state.rsi), ("rdi", state.rdi), ("rbp", state.rbp), ("rsp", state.rsp)],
          [("r8", state.r8), ("r9", state.r9), ("r10", state.r10), ("r11", state.r11)],
          [("r12", state.r12), ("r13", state.r13), ("r14", state.r14), ("r15", state.r15)],
          [("cs", state.cs), ("es", state.es), ("ds", state.ds), ("ss", state.ss)],
          [("cr3", state.cr3), ("cr4", state.cr4)]] ∧
      listing.stack.flatten = stack.toList ∧
      listing.stack.map List.length = [4, 4, 4, 4] ∧
      ∀ reason' state' stack',
        write reason' state' stack' before = write reason state stack before ↔
          reason' = reason ∧ state' = state ∧ stack' = stack := by
  refine ⟨String.join (dump state stack), _, ?_, read?_dump state stack, ?_, ?_, ?_, ?_⟩
  · exact write_appends reason state stack before
  · rfl
  · exact flatten_groupsOfFour _
  · exact length_groupsOfFour stack.length_toList
  · intro reason' state' stack'
    rw [write_appends reason' state' stack' before, write_appends reason state stack before]
    constructor
    · intro h
      injection h with _ htext
      exact render_inj ((String.append_right_inj before).1 htext)
    · rintro ⟨rfl, rfl, rfl⟩
      rfl

end PanicReport

end EarlyBoot
