import Mathlib.Data.FinEnum
import EarlyBoot.Cmos

/-!
# The modes of the clock

The clock counts in binary or in pairs of decimal digits, and its hours up to 24
or, with a mark on those of the afternoon, twice up to twelve.  Decoding gives
back what has been encoded; it stays in the range of a byte whatever bytes it is
given.
-/

namespace EarlyBoot

open Cmos

namespace Cmos

def add? (a b : UInt8) : Option UInt8 :=
  if a.toNat + b.toNat < UInt8.size then some (a + b) else none

def mul? (a b : UInt8) : Option UInt8 :=
  if a.toNat * b.toNat < UInt8.size then some (a * b) else none

theorem add?_eq {a b : UInt8} (h : a.toNat + b.toNat < UInt8.size) : add? a b = some (a + b) :=
  if_pos h

theorem mul?_eq {a b : UInt8} (h : a.toNat * b.toNat < UInt8.size) : mul? a b = some (a * b) :=
  if_pos h

theorem toNat_high (value : UInt8) : (value >>> 4).toNat = value.toNat / 16 := by
  rw [UInt8.toNat_shiftRight, Nat.shiftRight_eq_div_pow]
  rfl

theorem toNat_low (value : UInt8) : (value &&& 0x0f).toNat = value.toNat % 16 := by
  rw [UInt8.toNat_and]
  exact Nat.and_two_pow_sub_one_eq_mod value.toNat 4

theorem toNat_tens (value : UInt8) : (value >>> 4 * 10).toNat = value.toNat / 16 * 10 := by
  have hlt := value.toNat_lt
  rw [UInt8.toNat_mul, toNat_high]
  exact Nat.mod_eq_of_lt (show value.toNat / 16 * 10 < 256 by omega)

theorem toNat_bcdToBinary (value : UInt8) :
    (bcdToBinary value).toNat = value.toNat / 16 * 10 + value.toNat % 16 := by
  have hlt := value.toNat_lt
  rw [bcdToBinary, UInt8.toNat_add, toNat_tens, toNat_low]
  exact Nat.mod_eq_of_lt (show value.toNat / 16 * 10 + value.toNat % 16 < 256 by omega)

def bcdToBinary? (value : UInt8) : Option UInt8 := do
  add? (← mul? (value >>> 4) 10) (value &&& 0x0f)

theorem bcdToBinary?_eq (value : UInt8) : bcdToBinary? value = some (bcdToBinary value) := by
  have hlt := value.toNat_lt
  have htens : (value >>> 4).toNat * (10 : UInt8).toNat < UInt8.size := by
    rw [toNat_high]
    exact show value.toNat / 16 * 10 < 256 by omega
  have hsum : (value >>> 4 * 10).toNat + (value &&& 0x0f).toNat < UInt8.size := by
    rw [toNat_tens, toNat_low]
    exact show value.toNat / 16 * 10 + value.toNat % 16 < 256 by omega
  rw [bcdToBinary?, mul?_eq htens]
  exact add?_eq hsum

def encode (bcd : Bool) (value : UInt8) : UInt8 :=
  if bcd then UInt8.ofNat (value.toNat / 10 * 16 + value.toNat % 10) else value

theorem toNat_encode {value : UInt8} (bcd : Bool) (h : value < 100) :
    (encode bcd value).toNat =
      if bcd then value.toNat / 10 * 16 + value.toNat % 10 else value.toNat := by
  have hlt : value.toNat < 100 := UInt8.lt_iff_toNat_lt.1 h
  cases bcd with
  | false => rfl
  | true =>
      exact UInt8.toNat_ofNat_of_lt (show value.toNat / 10 * 16 + value.toNat % 10 < 256 by omega)

theorem decode_encode {value : UInt8} (bcd : Bool) (h : value < 100) :
    decode bcd (encode bcd value) = value := by
  have hlt : value.toNat < 100 := UInt8.lt_iff_toNat_lt.1 h
  cases bcd with
  | false => rfl
  | true =>
      rw [← UInt8.toNat_inj, decode, if_pos rfl, toNat_bcdToBinary, toNat_encode _ h, if_pos rfl]
      omega

def decode? (bcd : Bool) (value : UInt8) : Option UInt8 :=
  if bcd then bcdToBinary? value else some value

theorem decode?_eq (bcd : Bool) (value : UInt8) : decode? bcd value = some (decode bcd value) := by
  cases bcd with
  | false => rfl
  | true => exact bcdToBinary?_eq value

/-- On the dial midnight and noon are twelve o'clock. -/
def dial (hour : UInt8) : UInt8 := if hour % 12 = 0 then 12 else hour % 12

def encodeHour (settings : CmosSettings) (hour : UInt8) : UInt8 :=
  if settings.twelveHour then
    encode settings.bcd (dial hour) ||| if 12 ≤ hour then afternoonBit else 0
  else encode settings.bcd hour

theorem mod_twelve_lt (hour : UInt8) : (hour % 12).toNat < 12 := by
  rw [UInt8.toNat_mod]
  exact Nat.mod_lt _ (by decide)

theorem mod_twelve_add {hour : UInt8} (hlow : 12 ≤ hour) (hhigh : hour < 24) :
    hour % 12 + 12 = hour := by
  have hlow' : 12 ≤ hour.toNat := UInt8.le_iff_toNat_le.1 hlow
  have hhigh' : hour.toNat < 24 := UInt8.lt_iff_toNat_lt.1 hhigh
  rw [← UInt8.toNat_inj, UInt8.toNat_add, UInt8.toNat_mod]
  change (hour.toNat % 12 + 12) % 256 = hour.toNat
  omega

theorem dial_lt (hour : UInt8) : dial hour < 80 := by
  have hlt := mod_twelve_lt hour
  rw [UInt8.lt_iff_toNat_lt, dial]
  split
  · decide
  · exact hlt.trans (by decide)

theorem dial_mod (hour : UInt8) : dial hour % 12 = hour % 12 := by
  unfold dial
  split
  next hzero => exact hzero.symm
  next => exact UInt8.toNat_inj.1 (by simp [UInt8.toNat_mod])

theorem encode_lt_mark {value : UInt8} (bcd : Bool) (h : value < 80) :
    encode bcd value < afternoonBit := by
  have hlt : value.toNat < 80 := UInt8.lt_iff_toNat_lt.1 h
  rw [UInt8.lt_iff_toNat_lt, toNat_encode bcd (UInt8.lt_trans h (by decide))]
  change _ < 128
  split <;> omega

theorem mark_apart : ∀ value : UInt8, value < afternoonBit →
    value &&& ~~~afternoonBit = value ∧ value &&& afternoonBit = 0 ∧
      (value ||| afternoonBit) &&& ~~~afternoonBit = value ∧
      (value ||| afternoonBit) &&& afternoonBit ≠ 0 := by
  decide +kernel

theorem decodeHour_encodeHour (settings : CmosSettings) {hour : UInt8} (h : hour < 24) :
    decodeHour settings (encodeHour settings hour) = hour := by
  obtain ⟨pause, bcd, twelveHour⟩ := settings
  cases twelveHour with
  | false =>
      have hhour : hour < 80 := UInt8.lt_trans h (by decide)
      obtain ⟨hkept, -⟩ := mark_apart _ (encode_lt_mark bcd hhour)
      simp [decodeHour, encodeHour, hkept, decode_encode bcd (UInt8.lt_trans h (by decide))]
  | true =>
      obtain ⟨hkept, hclear, hstripped, hmarked⟩ := mark_apart _ (encode_lt_mark bcd (dial_lt hour))
      have hdecode : decode bcd (encode bcd (dial hour)) = dial hour :=
        decode_encode bcd (UInt8.lt_trans (dial_lt hour) (by decide))
      by_cases hafternoon : 12 ≤ hour
      · simp [decodeHour, encodeHour, hafternoon, hstripped, hmarked, hdecode, dial_mod,
          mod_twelve_add hafternoon h]
      · have hmorning : hour % 12 = hour := UInt8.mod_eq_of_lt (UInt8.not_le.1 hafternoon)
        simp [decodeHour, encodeHour, hafternoon, hkept, hclear, hdecode, dial_mod, hmorning]

def decodeHour? (settings : CmosSettings) (raw : UInt8) : Option UInt8 := do
  let hour ← decode? settings.bcd (raw &&& ~~~afternoonBit)
  if settings.twelveHour then
    if raw &&& afternoonBit = 0 then some (hour % 12) else add? (hour % 12) 12
  else some hour

theorem decodeHour?_eq (settings : CmosSettings) (raw : UInt8) :
    decodeHour? settings raw = some (decodeHour settings raw) := by
  have hadd (hour : UInt8) : add? (hour % 12) 12 = some (hour % 12 + 12) :=
    add?_eq (by have := mod_twelve_lt hour; exact show _ + 12 < 256 by omega)
  simp only [decodeHour?, decodeHour, decode?_eq, hadd, Option.bind_eq_bind, Option.bind_some,
    apply_ite some]

theorem decodeHour_lt {settings : CmosSettings} (h : settings.twelveHour = true) (raw : UInt8) :
    decodeHour settings raw < 24 := by
  have hlt := mod_twelve_lt (decode settings.bcd (raw &&& ~~~afternoonBit))
  rw [decodeHour, if_pos h, UInt8.lt_iff_toNat_lt]
  split
  · exact hlt.trans (by decide)
  · rw [UInt8.toNat_add]
    exact show (_ + 12) % 256 < 24 by omega

end Cmos

namespace ClockTime

structure Valid (time : ClockTime) : Prop where
  second : time.second < 60
  minute : time.minute < 60
  hour : time.hour < 24
  dayOfWeek : 1 ≤ time.dayOfWeek ∧ time.dayOfWeek ≤ 7
  dayOfMonth : 1 ≤ time.dayOfMonth ∧ time.dayOfMonth ≤ 31
  month : 1 ≤ time.month ∧ time.month ≤ 12
  year : time.year < 100

def encode (settings : CmosSettings) (time : ClockTime) : ClockTime :=
  { second := Cmos.encode settings.bcd time.second
    minute := Cmos.encode settings.bcd time.minute
    hour := encodeHour settings time.hour
    dayOfWeek := Cmos.encode settings.bcd time.dayOfWeek
    dayOfMonth := Cmos.encode settings.bcd time.dayOfMonth
    month := Cmos.encode settings.bcd time.month
    year := Cmos.encode settings.bcd time.year }

def decode (settings : CmosSettings) (raw : ClockTime) : ClockTime :=
  { second := Cmos.decode settings.bcd raw.second
    minute := Cmos.decode settings.bcd raw.minute
    hour := decodeHour settings raw.hour
    dayOfWeek := Cmos.decode settings.bcd raw.dayOfWeek
    dayOfMonth := Cmos.decode settings.bcd raw.dayOfMonth
    month := Cmos.decode settings.bcd raw.month
    year := Cmos.decode settings.bcd raw.year }

/-- Decodes with checked arithmetic only. -/
def decode? (settings : CmosSettings) (raw : ClockTime) : Option ClockTime := do
  let second ← Cmos.decode? settings.bcd raw.second
  let minute ← Cmos.decode? settings.bcd raw.minute
  let hour ← decodeHour? settings raw.hour
  let dayOfWeek ← Cmos.decode? settings.bcd raw.dayOfWeek
  let dayOfMonth ← Cmos.decode? settings.bcd raw.dayOfMonth
  let month ← Cmos.decode? settings.bcd raw.month
  let year ← Cmos.decode? settings.bcd raw.year
  some { second, minute, hour, dayOfWeek, dayOfMonth, month, year }

theorem decode_encode (settings : CmosSettings) {time : ClockTime} (h : time.Valid) :
    (time.encode settings).decode settings = time := by
  have hbelow {value limit : UInt8} (hle : value ≤ limit) (hlimit : limit < 100) : value < 100 :=
    UInt8.lt_of_le_of_lt hle hlimit
  simp only [encode, decode, decodeHour_encodeHour settings h.hour,
    Cmos.decode_encode settings.bcd (UInt8.lt_trans h.second (by decide)),
    Cmos.decode_encode settings.bcd (UInt8.lt_trans h.minute (by decide)),
    Cmos.decode_encode settings.bcd (hbelow h.dayOfWeek.2 (by decide)),
    Cmos.decode_encode settings.bcd (hbelow h.dayOfMonth.2 (by decide)),
    Cmos.decode_encode settings.bcd (hbelow h.month.2 (by decide)),
    Cmos.decode_encode settings.bcd h.year]

theorem decode?_eq (settings : CmosSettings) (raw : ClockTime) :
    raw.decode? settings = some (raw.decode settings) := by
  simp [decode?, decode, Cmos.decode?_eq, decodeHour?_eq]

end ClockTime

end EarlyBoot
