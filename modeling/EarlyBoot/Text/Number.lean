/-!
# Numbers as text

Hexadecimal numbers are written with lower-case digits, either with as few
digits as possible or with a fixed number of digits and leading zeros.
-/

namespace EarlyBoot.Text

def hexDigit (digit : Nat) : Char :=
  if digit < 10 then Char.ofNat (48 + digit) else Char.ofNat (87 + digit)

def fixedHexDigits : Nat → Nat → List Char
  | 0, _ => []
  | width + 1, n => fixedHexDigits width (n / 16) ++ [hexDigit (n % 16)]

def hexLength (n : Nat) : Nat :=
  if n < 16 then 1 else hexLength (n / 16) + 1

def fixedHex (width n : Nat) : String := String.ofList (fixedHexDigits width n)

def hex (n : Nat) : String := fixedHex (hexLength n) n

def hexBytes (bytes : List UInt8) : String :=
  String.ofList (bytes.flatMap fun byte => fixedHexDigits 2 byte.toNat)

def padLeft (width : Nat) (text : String) : String :=
  String.ofList (List.replicate (width - text.length) ' ') ++ text

@[simp] theorem length_fixedHexDigits (width n : Nat) :
    (fixedHexDigits width n).length = width := by
  induction width generalizing n with
  | zero => rfl
  | succ width ih => simp [fixedHexDigits, ih]

end EarlyBoot.Text
