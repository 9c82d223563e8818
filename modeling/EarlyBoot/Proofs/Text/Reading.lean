import Mathlib.Algebra.Group.Nat.Defs
import EarlyBoot.Text.Number

/-!
# Reading text

Text is read line by line, a line word by word and a number digit by digit.
Each of these gives back what was written, whatever stands around it.
-/

namespace EarlyBoot.Text

def digit? (c : Char) : Option Nat :=
  if '0' ≤ c ∧ c ≤ '9' then some (c.toNat - 48)
  else if 'a' ≤ c ∧ c ≤ 'f' then some (c.toNat - 87)
  else none

theorem digit?_hexDigit : ∀ digit < 16, digit? (hexDigit digit) = some digit := by decide

def number? (digits : List Char) : Option Nat :=
  digits.foldlM (fun n c => (digit? c).map (n * 16 + ·)) 0

theorem number?_append (digits : List Char) (c : Char) :
    number? (digits ++ [c]) =
      (number? digits).bind fun n => (digit? c).map (n * 16 + ·) := by
  simp [number?, List.foldlM_append]

theorem number?_fixedHexDigits {width n : Nat} (h : n < 16 ^ width) :
    number? (fixedHexDigits width n) = some n := by
  -- the last digit is the remainder
  induction width generalizing n with
  | zero =>
      obtain rfl : n = 0 := by simpa using h
      rfl
  | succ width ih =>
      have hfront : n / 16 < 16 ^ width := by
        rw [Nat.pow_succ] at h
        omega
      simp [fixedHexDigits, number?_append, ih hfront, digit?_hexDigit _ (Nat.mod_lt n (by decide))]
      omega

theorem mem_fixedHexDigits {width n : Nat} {c : Char} (h : c ∈ fixedHexDigits width n) :
    ∃ digit < 16, c = hexDigit digit := by
  induction width generalizing n with
  | zero => simp [fixedHexDigits] at h
  | succ width ih =>
      simp only [fixedHexDigits, List.mem_append, List.mem_singleton] at h
      rcases h with hfront | hlast
      · exact ih hfront
      · exact ⟨n % 16, Nat.mod_lt n (by decide), hlast⟩

/-- A word has sixteen digits, however small it is. -/
def word? (digits : List Char) : Option UInt64 :=
  if digits.length = 16 then (number? digits).map UInt64.ofNat else none

theorem word?_fixedHexDigits (word : UInt64) :
    word? (fixedHexDigits 16 word.toNat) = some word := by
  simp [word?, number?_fixedHexDigits (show word.toNat < 16 ^ 16 from word.toNat_lt)]

def lines? (text : List Char) : Option (List (List Char)) :=
  match (text.splitOn '\n').reverse with
  | [] :: lines => some lines.reverse
  | _ => none

theorem flatMap_line_eq (lines : List (List Char)) :
    lines.flatMap (· ++ ['\n']) = ['\n'].intercalate (lines ++ [[]]) := by
  induction lines with
  | nil => simp
  | cons line rest ih =>
      cases rest with
      | nil => simp
      | cons next rest => simp [ih]

theorem splitOn_flatMap_line {lines : List (List Char)} (h : ∀ line ∈ lines, '\n' ∉ line) :
    (lines.flatMap (· ++ ['\n'])).splitOn '\n' = lines ++ [[]] := by
  have hlines : ∀ line ∈ lines ++ [[]], '\n' ∉ line := by
    rw [List.forall_mem_append]
    exact ⟨h, by simp⟩
  rw [flatMap_line_eq, List.splitOn_intercalate _ hlines (by simp)]

theorem lines?_flatMap {lines : List (List Char)} (h : ∀ line ∈ lines, '\n' ∉ line) :
    lines? (lines.flatMap (· ++ ['\n'])) = some lines := by
  simp [lines?, splitOn_flatMap_line h]

theorem splitOn_injective {text text' : List Char} (h : text.splitOn '\n' = text'.splitOn '\n') :
    text = text' := by
  have hjoined := congrArg (['\n'].intercalate ·) h
  simpa only [List.intercalate_splitOn] using hjoined

theorem not_mem_intercalate {c : Char} {separator : List Char} {entries : List (List Char)}
    (hseparator : c ∉ separator) (h : ∀ entry ∈ entries, c ∉ entry) :
    c ∉ separator.intercalate entries := by
  induction entries with
  | nil => simp
  | cons entry rest ih =>
      rw [List.forall_mem_cons] at h
      cases rest with
      | nil => simpa using h.1
      | cons next rest => simp [h.1, hseparator, ih h.2]

def isBlank (c : Char) : Bool := c = ' ' || c = '\t'

def words (line : List Char) : List (List Char) :=
  (line.splitOnP isBlank).filter (· ≠ [])

@[simp] theorem words_nil : words [] = [] := by
  simp [words]

theorem words_append_cons {blank : Char} (h : isBlank blank) (line rest : List Char) :
    words (line ++ blank :: rest) = words line ++ words rest := by
  simp [words, List.splitOnP_append_cons _ _ h]

theorem words_cons {blank : Char} (h : isBlank blank) (rest : List Char) :
    words (blank :: rest) = words rest := by
  simpa using words_append_cons h [] rest

theorem words_of_blanks {blanks : List Char} (h : ∀ c ∈ blanks, isBlank c) (rest : List Char) :
    words (blanks ++ rest) = words rest := by
  induction blanks with
  | nil => rfl
  | cons blank blanks ih =>
      rw [List.forall_mem_cons] at h
      rw [List.cons_append, words_cons h.1, ih h.2]

theorem words_of_solid {word : List Char} (hne : word ≠ []) (h : ∀ c ∈ word, isBlank c = false) :
    words word = [word] := by
  simp [words, List.splitOnP_eq_singleton h, hne]

theorem words_separated {separator : List Char} (hne : separator ≠ [])
    (h : ∀ c ∈ separator, isBlank c) (line rest : List Char) :
    words (line ++ separator ++ rest) = words line ++ words rest := by
  cases separator with
  | nil => contradiction
  | cons blank blanks =>
      rw [List.forall_mem_cons] at h
      rw [List.append_assoc, List.cons_append, words_append_cons h.1, words_of_blanks h.2]

theorem words_intercalate {separator : List Char} (hne : separator ≠ [])
    (h : ∀ c ∈ separator, isBlank c) (entries : List (List Char)) :
    words (separator.intercalate entries) = entries.flatMap words := by
  induction entries with
  | nil => simp
  | cons entry rest ih =>
      cases rest with
      | nil => simp
      | cons next rest =>
          rw [List.intercalate_cons_cons, words_separated hne h, ih, ← List.flatMap_cons]

end EarlyBoot.Text
