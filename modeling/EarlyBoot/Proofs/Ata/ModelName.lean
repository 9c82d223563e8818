import Mathlib.Data.List.DropRight
import Mathlib.Data.List.GetD
import Mathlib.Data.List.OfFn
import EarlyBoot.Ata.Drive

/-!
# Model names

The model of a drive stands in twenty words, two characters in each and the
first one in the high byte, and is padded with spaces.  What has been packed so
is read back.  Whatever else the words hold, what is read from them is a name
that could have been packed: a byte that cannot be shown becomes a question
mark, which is not cut off with the spaces behind it.
-/

namespace EarlyBoot.DriveModel

def isShown (c : Char) : Bool := ' ' ≤ c && c ≤ '~'

/-- A text that a drive can have as its model. -/
structure IsName (text : String) : Prop where
  length_le : text.length ≤ 40
  shown : ∀ c ∈ text.toList, isShown c
  unpadded : text.toList.getLast? ≠ some ' '

def padded (name : String) (place : Nat) : Char := name.toList.getD place ' '

def pack (first second : Char) : UInt16 := UInt16.ofNat (first.toNat * 256 + second.toNat)

/-- The words of the model hold the padded name; the other words hold anything. -/
def Carries (block : IdentifyBlock) (name : String) : Prop :=
  ∀ i : Fin 20, block[27 + i.val] = pack (padded name (2 * i)) (padded name (2 * i + 1))

def byteAt (block : IdentifyBlock) (place : Fin 40) : Nat :=
  let word := block[27 + place.val / 2].toNat
  if place.val % 2 = 0 then word / 256 else word % 256

def shownFor (byte : Nat) : Char :=
  if isShown (Char.ofNat byte) then Char.ofNat byte else '?'

def shownText (block : IdentifyBlock) : List Char :=
  List.ofFn fun place => shownFor (byteAt block place)

@[simp] theorem length_shownText (block : IdentifyBlock) : (shownText block).length = 40 :=
  List.length_ofFn

theorem toNat_ofNat_of_lt {n : Nat} (h : n < 256) : (Char.ofNat n).toNat = n := by
  have hvalid : n.isValidChar := .inl (h.trans (by decide))
  rw [Char.ofNat, dif_pos hvalid]
  rfl

theorem isShown_iff (c : Char) : isShown c ↔ 32 ≤ c.toNat ∧ c.toNat ≤ 126 := by
  rw [isShown, Bool.and_eq_true, decide_eq_true_iff, decide_eq_true_iff]
  exact Iff.rfl

theorem isShown_shownFor (byte : Nat) : isShown (shownFor byte) := by
  unfold shownFor
  split
  next hshown => exact hshown
  next => rfl

theorem shownFor_toNat {c : Char} (h : isShown c) : shownFor c.toNat = c := by
  rw [shownFor, Char.ofNat_toNat, if_pos h]

theorem isPrintable_eq (byte : UInt8) : isPrintable byte = isShown (Char.ofNat byte.toNat) := by
  rw [Bool.eq_iff_iff, isShown_iff, toNat_ofNat_of_lt byte.toNat_lt, isPrintable, Bool.and_eq_true,
    decide_eq_true_iff, decide_eq_true_iff]
  exact Iff.rfl

theorem ofNat_printable (byte : UInt8) :
    Char.ofNat (printable byte).toNat = shownFor byte.toNat := by
  rw [printable, isPrintable_eq, shownFor]
  split <;> rfl

theorem ofNat_eq_space_iff (byte : UInt8) : Char.ofNat byte.toNat = ' ' ↔ byte = space := by
  constructor
  · intro h
    have hnat : byte.toNat = 32 := by
      rw [← toNat_ofNat_of_lt byte.toNat_lt, h]
      rfl
    exact UInt8.toNat_inj.1 hnat
  · rintro rfl
    rfl

theorem toNat_highByte (word : UInt16) : (word >>> 8).toUInt8.toNat = word.toNat / 256 := by
  have hlt := word.toNat_lt
  rw [UInt16.toNat_toUInt8, UInt16.toNat_shiftRight, Nat.shiftRight_eq_div_pow]
  exact Nat.mod_eq_of_lt (show word.toNat / 256 < 256 by omega)

theorem toNat_pack {first second : Char} (hfirst : first.toNat < 256)
    (hsecond : second.toNat < 256) :
    (pack first second).toNat = first.toNat * 256 + second.toNat :=
  UInt16.toNat_ofNat_of_lt (show first.toNat * 256 + second.toNat < 65536 by omega)

theorem byteAt_lt (block : IdentifyBlock) (place : Fin 40) : byteAt block place < 256 := by
  have hlt := block[27 + place.val / 2].toNat_lt
  unfold byteAt
  dsimp only
  split <;> omega

theorem modelWords_eq (block : IdentifyBlock) :
    (block.toList.drop firstWord).take wordCount =
      List.ofFn fun i : Fin 20 => block[27 + i.val] := by
  apply List.ext_getElem
  · simp [firstWord, wordCount]
  · intro i hi hi'
    rw [List.getElem_take, List.getElem_drop, List.getElem_ofFn]
    rfl

theorem rawBytes_eq (block : IdentifyBlock) :
    (rawBytes block).map UInt8.toNat = List.ofFn (byteAt block) := by
  -- both sides go through the words, with the two bytes of each in turn
  have hbytes : List.ofFn (byteAt block) =
      (List.ofFn fun i : Fin 20 =>
        [block[27 + i.val].toNat / 256, block[27 + i.val].toNat % 256]).flatten := by
    refine (List.ofFn_mul (m := 20) (n := 2) (byteAt block)).trans ?_
    congr 2
    funext i
    have hword : (i.val * 2 + 1) / 2 = i.val := by omega
    simp [List.ofFn_succ, byteAt, hword]
  rw [hbytes, rawBytes, modelWords_eq, List.map_flatMap, List.flatMap_def, List.map_ofFn]
  congr 2
  funext i
  change [UInt8.toNat _, UInt8.toNat _] = _
  rw [toNat_highByte, UInt16.toNat_toUInt8]

theorem getD_append_padding (name : List Char) (count i : Nat) :
    (name ++ List.replicate count ' ').getD i ' ' = name.getD i ' ' := by
  simp only [List.getD_eq_getElem?_getD, List.getElem?_append, List.getElem?_replicate]
  split
  next => rfl
  next hout =>
    rw [List.getElem?_eq_none (Nat.le_of_not_lt hout)]
    split <;> rfl

theorem append_padding_eq {name : String} (h : name.length ≤ 40) :
    name.toList ++ List.replicate (40 - name.length) ' ' =
      List.ofFn fun place : Fin 40 => padded name place := by
  apply List.ext_getElem
  · rw [List.length_append, List.length_replicate, List.length_ofFn, String.length_toList]
    omega
  · intro i hi hi'
    rw [List.getElem_ofFn, padded, ← getD_append_padding _ (40 - name.length),
      List.getD_eq_getElem _ _ hi]

theorem rdropWhile_append_padding (name : List Char) (count : Nat) :
    (name ++ List.replicate count ' ').rdropWhile (· == ' ') = name.rdropWhile (· == ' ') := by
  induction count with
  | zero => rw [List.replicate_zero, List.append_nil]
  | succ count ih =>
      rw [List.replicate_succ', ← List.append_assoc, List.rdropWhile_concat_pos _ _ _ rfl, ih]

theorem rdropWhile_of_unpadded {name : List Char} (h : name.getLast? ≠ some ' ') :
    name.rdropWhile (· == ' ') = name := by
  refine List.rdropWhile_eq_self_iff.2 fun hne hspace => h ?_
  rw [List.getLast?_eq_some_getLast hne, beq_iff_eq.1 hspace]

theorem unpadded_rdropWhile (text : List Char) :
    (text.rdropWhile (· == ' ')).getLast? ≠ some ' ' := by
  intro hlast
  obtain ⟨front, hfront⟩ := List.getLast?_eq_some_iff.1 hlast
  have hkept := List.rdropWhile_idempotent (· == ' ') text
  rw [hfront, List.rdropWhile_concat_pos _ _ _ rfl] at hkept
  have hle := (List.rdropWhile_prefix (· == ' ') front).length_le
  rw [hkept, List.length_append, List.length_singleton] at hle
  omega

/-! ## Reading -/

theorem map_rdropWhile {α β : Type} (f : α → β) (p : β → Bool) (xs : List α) :
    (xs.map f).rdropWhile p = (xs.rdropWhile (p ∘ f)).map f := by
  simp only [List.rdropWhile, ← List.map_reverse, List.dropWhile_map]

theorem map_printable_eq (block : IdentifyBlock) :
    ((rawBytes block).map printable).map (fun byte => Char.ofNat byte.toNat) = shownText block := by
  have hshown : shownText block = (List.ofFn (byteAt block)).map shownFor := by
    rw [List.map_ofFn]
    rfl
  rw [hshown, ← rawBytes_eq, List.map_map, List.map_map]
  exact List.map_congr_left fun byte _ => ofNat_printable byte

theorem toList_text (block : IdentifyBlock) :
    (ofIdentify block).text.toList = (shownText block).rdropWhile (· == ' ') := by
  have hspace : ((· == ' ') ∘ fun byte : UInt8 => Char.ofNat byte.toNat) = (· == space) := by
    funext byte
    rw [Bool.eq_iff_iff, Function.comp, beq_iff_eq, beq_iff_eq]
    exact ofNat_eq_space_iff byte
  rw [← map_printable_eq, map_rdropWhile, hspace]
  exact String.toList_ofList

theorem padded_text (block : IdentifyBlock) (place : Fin 40) :
    padded (ofIdentify block).text place = shownFor (byteAt block place) := by
  have hspaces : ∀ c ∈ (shownText block).rtakeWhile (· == ' '), c = ' ' := fun c hc =>
    beq_iff_eq.1 (List.mem_rtakeWhile_imp (p := (· == ' ')) hc)
  obtain ⟨count, hcut⟩ : ∃ count,
      (shownText block).rtakeWhile (· == ' ') = List.replicate count ' ' :=
    ⟨_, List.eq_replicate_iff.2 ⟨rfl, hspaces⟩⟩
  -- what is cut off is put back by padding
  rw [padded, toList_text, ← getD_append_padding _ count, ← hcut, List.rdropWhile_append_rtakeWhile,
    List.getD_eq_getElem _ _ (by simp)]
  exact List.getElem_ofFn _

theorem isName_text (block : IdentifyBlock) : IsName (ofIdentify block).text where
  length_le := by
    rw [← String.length_toList, toList_text, ← length_shownText block]
    exact (List.rdropWhile_prefix _ _).length_le
  shown := by
    intro c hc
    rw [toList_text] at hc
    obtain ⟨place, rfl⟩ := List.mem_ofFn.1 ((List.rdropWhile_prefix _ _).mem hc)
    exact isShown_shownFor _
  unpadded := by
    rw [toList_text]
    exact unpadded_rdropWhile _

theorem isShown_padded {name : String} (h : IsName name) (place : Nat) :
    isShown (padded name place) := by
  rw [padded, List.getD_eq_getElem?_getD]
  cases hget : name.toList[place]? with
  | none => rfl
  | some c => exact h.shown c (List.mem_of_getElem? hget)

theorem toNat_lt_of_isShown {c : Char} (h : isShown c) : c.toNat < 256 :=
  ((isShown_iff c).1 h).2.trans_lt (by decide)

theorem Carries.byteAt_eq {block : IdentifyBlock} {name : String} (h : Carries block name)
    (hname : IsName name) (place : Fin 40) : byteAt block place = (padded name place).toNat := by
  have hbyte (i : Nat) : (padded name i).toNat < 256 := toNat_lt_of_isShown (isShown_padded hname i)
  have hword : block[27 + place.val / 2].toNat =
      (padded name (2 * (place.val / 2))).toNat * 256 +
        (padded name (2 * (place.val / 2) + 1)).toNat := by
    rw [← toNat_pack (hbyte _) (hbyte _), ← h ⟨place.val / 2, by omega⟩]
  have hsecond := hbyte (2 * (place.val / 2) + 1)
  rw [byteAt, hword]
  split
  next heven =>
    have hplace : 2 * (place.val / 2) = place.val := by omega
    rw [hplace] at hsecond ⊢
    omega
  next hodd =>
    have hplace : 2 * (place.val / 2) + 1 = place.val := by omega
    rw [hplace] at hsecond ⊢
    omega

theorem text_of_carries {block : IdentifyBlock} {name : String} (hname : IsName name)
    (h : Carries block name) : (ofIdentify block).text = name := by
  have hshown : shownText block =
      name.toList ++ List.replicate (40 - name.length) ' ' := by
    rw [append_padding_eq hname.length_le, shownText]
    congr 1
    funext place
    rw [h.byteAt_eq hname, shownFor_toNat (isShown_padded hname _)]
  apply String.toList_injective
  rw [toList_text, hshown, rdropWhile_append_padding, rdropWhile_of_unpadded hname.unpadded]

theorem toNat_word (block : IdentifyBlock) (i : Fin 20) :
    block[27 + i.val].toNat =
      byteAt block ⟨2 * i, by omega⟩ * 256 + byteAt block ⟨2 * i + 1, by omega⟩ := by
  have heven : 2 * i.val / 2 = i.val := by omega
  have hodd : (2 * i.val + 1) / 2 = i.val := by omega
  have hrest : (2 * i.val + 1) % 2 = 1 := by omega
  simp only [byteAt, heven, hodd, hrest, Nat.mul_mod_right, if_pos, Nat.one_ne_zero, if_false]
  omega

theorem carries_text {block : IdentifyBlock}
    (h : ∀ place, isShown (Char.ofNat (byteAt block place))) :
    Carries block (ofIdentify block).text := by
  have hchar (place : Fin 40) :
      (padded (ofIdentify block).text place).toNat = byteAt block place := by
    rw [padded_text, shownFor, if_pos (h place), toNat_ofNat_of_lt (byteAt_lt block place)]
  intro i
  have hfirst := hchar ⟨2 * i, by omega⟩
  have hsecond := hchar ⟨2 * i + 1, by omega⟩
  rw [← UInt16.toNat_inj, toNat_pack, hfirst, hsecond, toNat_word]
  · exact hfirst ▸ byteAt_lt block _
  · exact hsecond ▸ byteAt_lt block _

/-! ## The buffer -/

def push? (model : DriveModel) (character : UInt8) : Option DriveModel :=
  if h : model.characters.length < 40 then
    some ⟨model.characters ++ [character], by rw [List.length_append]; exact h⟩
  else none

def trimmed (model : DriveModel) : DriveModel :=
  ⟨trimEnd model.characters, (length_trimEnd_le _).trans model.length_le⟩

/-- Fills a buffer character by character, then cuts off the spaces at its end. -/
def ofIdentify? (block : IdentifyBlock) : Option DriveModel := do
  let buffer ← ((rawBytes block).map printable).foldlM push? empty
  some buffer.trimmed

theorem foldlM_push? (characters : List UInt8) (model : DriveModel)
    (h : (model.characters ++ characters).length ≤ 40) :
    characters.foldlM push? model = some ⟨model.characters ++ characters, h⟩ := by
  induction characters generalizing model with
  | nil => simp
  | cons character rest ih =>
      have hroom : model.characters.length < 40 := by
        rw [List.length_append, List.length_cons] at h
        omega
      have hpush : push? model character = some ⟨model.characters ++ [character], _⟩ :=
        dif_pos hroom
      rw [List.foldlM_cons, hpush, Option.bind_eq_bind, Option.bind_some, ih]
      · simp
      · simpa using h

theorem ofIdentify?_eq (block : IdentifyBlock) : ofIdentify? block = some (ofIdentify block) := by
  have hroom : (empty.characters ++ (rawBytes block).map printable).length ≤ 40 := by
    simpa [empty] using length_rawBytes_le block
  rw [ofIdentify?, foldlM_push? _ _ hroom]
  rfl

/--
A name of up to forty printable characters that does not end in a space is read
back from any block whose words of the model carry it.  From every block a name
of that kind is read: its forty bytes with a question mark for each that cannot
be shown, less the spaces at the end.  The buffer that takes them never lacks
room, and words in which every byte can be shown carry what is read from them.
-/
theorem names_read_back :
    (∀ block name, IsName name → Carries block name → (ofIdentify block).text = name) ∧
    ∀ block, IsName (ofIdentify block).text ∧
      (ofIdentify block).text.toList =
        (List.ofFn fun place => shownFor (byteAt block place)).rdropWhile (· == ' ') ∧
      ofIdentify? block = some (ofIdentify block) ∧
      ((∀ place, isShown (Char.ofNat (byteAt block place))) →
        Carries block (ofIdentify block).text) :=
  ⟨fun _ _ => text_of_carries, fun block =>
    ⟨isName_text block, toList_text block, ofIdentify?_eq block, carries_text⟩⟩

def garbled (name : String) : IdentifyBlock :=
  Vector.ofFn fun i =>
    if 27 ≤ i.val ∧ i.val < 47 then pack (padded name (2 * (i - 27))) (padded name (2 * (i - 27) + 1))
    else 0xa5ff

theorem odd_name_read_back :
    (IsName "ST 380-A?" ∧ Carries (garbled "ST 380-A?") "ST 380-A?" ∧
      (ofIdentify (garbled "ST 380-A?")).text = "ST 380-A?") ∧
    (∀ place, isShown (Char.ofNat (byteAt (Vector.replicate 256 0x4120) place))) ∧
      Carries (Vector.replicate 256 0x4120) (ofIdentify (Vector.replicate 256 0x4120)).text := by
  have hname : IsName "ST 380-A?" := ⟨by decide, by simp [isShown_iff], by decide⟩
  have hcarries : Carries (garbled "ST 380-A?") "ST 380-A?" := by
    intro i
    have hmodel : 27 ≤ 27 + i.val ∧ 27 + i.val < 47 := by omega
    simp [garbled, hmodel]
  have hshown : ∀ place, isShown (Char.ofNat (byteAt (Vector.replicate 256 0x4120) place)) := by
    intro place
    simp only [byteAt, Vector.getElem_replicate]
    split <;> rfl
  exact ⟨⟨hname, hcarries, names_read_back.1 _ _ hname hcarries⟩, hshown,
    (names_read_back.2 _).2.2.2 hshown⟩

end EarlyBoot.DriveModel
