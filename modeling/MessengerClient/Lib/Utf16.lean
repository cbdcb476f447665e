import MessengerClient.Lib.DataStream

/-!
# MessengerClient.Lib.Utf16

Texts as they stand in a binary stream: the count of the bytes, and the UTF-16 units,
each with its higher byte first.
-/

namespace MessengerClient

namespace Utf16

/-! ## Characters and units -/

def isHigh (u : UInt16) : Bool := 0xD800 ≤ u.toNat && u.toNat < 0xDC00
def isLow (u : UInt16) : Bool := 0xDC00 ≤ u.toNat && u.toNat < 0xE000

/-- The one or two units of a character. -/
def encodeChar (c : Char) : List UInt16 :=
  if c.toNat < 0x10000 then
    [UInt16.ofNat c.toNat]
  else
    [UInt16.ofNat (0xD800 + (c.toNat - 0x10000) / 0x400),
      UInt16.ofNat (0xDC00 + (c.toNat - 0x10000) % 0x400)]

def encode (cs : List Char) : List UInt16 := cs.flatMap encodeChar

@[simp] theorem encode_append (cs ds : List Char) : encode (cs ++ ds) = encode cs ++ encode ds :=
  List.flatMap_append

theorem length_encodeChar_pos (c : Char) : 0 < (encodeChar c).length := by
  unfold encodeChar
  split <;> exact Nat.zero_lt_succ _

theorem length_le_encode (cs : List Char) : cs.length ≤ (encode cs).length := by
  induction cs with
  | nil => exact le_rfl
  | cons c cs ih =>
    have hpos := length_encodeChar_pos c
    rw [encode, List.flatMap_cons, List.length_append, List.length_cons]
    exact Nat.add_comm cs.length 1 ▸ Nat.add_le_add hpos ih

/-- The character of a unit that is not part of a pair. -/
def charOfUnit (u : UInt16) : Char :=
  if isHigh u || isLow u then Char.ofNat 0xFFFD else Char.ofNat u.toNat

/-- The same with another replacement of halves of pairs. -/
def unitWith (replacement : Char) (u : UInt16) : Char :=
  if isHigh u || isLow u then replacement else Char.ofNat u.toNat

def charOfPair (h l : UInt16) : Char :=
  Char.ofNat (0x10000 + (h.toNat - 0xD800) * 0x400 + (l.toNat - 0xDC00))

def decode : List UInt16 → List Char
  | [] => []
  | [u] => [charOfUnit u]
  | h :: l :: us =>
      if isHigh h && isLow l then charOfPair h l :: decode us
      else charOfUnit h :: decode (l :: us)

def decodeWith (replacement : Char) : List UInt16 → List Char
  | [] => []
  | [u] => [unitWith replacement u]
  | h :: l :: us =>
      if isHigh h && isLow l then charOfPair h l :: decodeWith replacement us
      else unitWith replacement h :: decodeWith replacement (l :: us)

theorem decode_eq (us : List UInt16) : decode us = decodeWith (Char.ofNat 0xFFFD) us := by
  induction us using decode.induct with
  | case1 => rfl
  | case2 u => rfl
  | case3 h l us hpair ih => rw [decode, decodeWith, if_pos hpair, if_pos hpair, ih]
  | case4 h l us hpair ih =>
    rw [decode, decodeWith, if_neg hpair, if_neg hpair, ih]
    rfl

/-- A character is not a surrogate. -/
theorem toNat_range (c : Char) :
    c.toNat < 0xD800 ∨ (0xDFFF < c.toNat ∧ c.toNat < 0x110000) := c.valid

theorem decodeWith_unit {r : Char} {u : UInt16} (h : isHigh u = false) (us : List UInt16) :
    decodeWith r (u :: us) = unitWith r u :: decodeWith r us := by
  cases us with
  | nil => rfl
  | cons l us => rw [decodeWith, h, Bool.false_and, if_neg Bool.false_ne_true]

theorem decodeWith_encodeChar (r c : Char) (us : List UInt16) :
    decodeWith r (encodeChar c ++ us) = c :: decodeWith r us := by
  have hrange := toNat_range c
  unfold encodeChar
  split
  · next hone =>
    have hu : (UInt16.ofNat c.toNat).toNat = c.toNat := UInt16.toNat_ofNat_of_lt' hone
    have hhigh : isHigh (UInt16.ofNat c.toNat) = false := by
      rw [isHigh, hu, Bool.and_eq_false_iff, decide_eq_false_iff_not, decide_eq_false_iff_not]
      omega
    have hlow : isLow (UInt16.ofNat c.toNat) = false := by
      rw [isLow, hu, Bool.and_eq_false_iff, decide_eq_false_iff_not, decide_eq_false_iff_not]
      omega
    rw [List.singleton_append, decodeWith_unit hhigh, unitWith, hhigh, hlow, hu]
    simp
  · next htwo =>
    have hsize : UInt16.size = 0x10000 := rfl
    have hh : (UInt16.ofNat (0xD800 + (c.toNat - 0x10000) / 0x400)).toNat
        = 0xD800 + (c.toNat - 0x10000) / 0x400 := UInt16.toNat_ofNat_of_lt' (by omega)
    have hl : (UInt16.ofNat (0xDC00 + (c.toNat - 0x10000) % 0x400)).toNat
        = 0xDC00 + (c.toNat - 0x10000) % 0x400 := UInt16.toNat_ofNat_of_lt' (by omega)
    have hpair : isHigh (UInt16.ofNat (0xD800 + (c.toNat - 0x10000) / 0x400)) = true
        ∧ isLow (UInt16.ofNat (0xDC00 + (c.toNat - 0x10000) % 0x400)) = true := by
      rw [isHigh, isLow, hh, hl]
      simp only [Bool.and_eq_true, decide_eq_true_eq]
      omega
    have hc : charOfPair (UInt16.ofNat (0xD800 + (c.toNat - 0x10000) / 0x400))
        (UInt16.ofNat (0xDC00 + (c.toNat - 0x10000) % 0x400)) = c := by
      rw [charOfPair, hh, hl, show 0x10000 + (0xD800 + (c.toNat - 0x10000) / 0x400 - 0xD800) * 0x400
        + (0xDC00 + (c.toNat - 0x10000) % 0x400 - 0xDC00) = c.toNat by omega, Char.ofNat_toNat]
    rw [List.cons_append, List.singleton_append, decodeWith, hpair.1, hpair.2, Bool.true_and,
      if_pos rfl, hc]

theorem decodeWith_encode (r : Char) (cs : List Char) : decodeWith r (encode cs) = cs := by
  induction cs with
  | nil => rfl
  | cons c cs ih => rw [encode, List.flatMap_cons, decodeWith_encodeChar, ← encode, ih]

theorem decode_encode (cs : List Char) : decode (encode cs) = cs := by
  rw [decode_eq, decodeWith_encode]

/-! ## Units and bytes -/

def pack (us : List UInt16) : Bytes := us.flatMap putUInt16

def unpack : Bytes → List UInt16
  | a :: b :: bs => UInt16.ofNat (ofBeBytes [a, b]) :: unpack bs
  | _ => []

theorem unpack_pack (us : List UInt16) : unpack (pack us) = us := by
  induction us with
  | nil => rfl
  | cons u us ih =>
      have hu : ofBeBytes (beBytes 2 u.toNat) = u.toNat := by
        rw [ofBeBytes_beBytes]
        exact Nat.mod_eq_of_lt u.toNat_lt
      have hcons : pack (u :: us) = beBytes 2 u.toNat ++ pack us := rfl
      have hbytes : unpack (beBytes 2 u.toNat ++ pack us)
          = UInt16.ofNat (ofBeBytes (beBytes 2 u.toNat)) :: unpack (pack us) := rfl
      rw [hcons, hbytes, hu, UInt16.ofNat_toNat, ih]

theorem length_pack (us : List UInt16) : (pack us).length = 2 * us.length := by
  induction us with
  | nil => rfl
  | cons u us ih =>
      have hcons : pack (u :: us) = putUInt16 u ++ pack us := rfl
      rw [hcons, List.length_append, length_putUInt16, ih, List.length_cons]
      omega

end Utf16

/-! ## Texts -/

theorem empty_utf8_lt : "".utf8ByteSize < 0xFFFFFFFF := by decide

theorem empty_utf16_lt : 2 * (Utf16.encode "".toList).length < 0xFFFFFFFF := by decide

/-- A text that is short enough to be counted, in UTF-8 and in UTF-16. -/
structure QString where
  text : String := ""
  utf8_lt : text.utf8ByteSize < 0xFFFFFFFF := by first | exact empty_utf8_lt | decide
  utf16_lt : 2 * (Utf16.encode text.toList).length < 0xFFFFFFFF := by
    first | exact empty_utf16_lt | decide
deriving DecidableEq, Repr

namespace QString

def isEmpty (s : QString) : Bool := s.text == ""

/-- The number of UTF-16 units. -/
def size (s : QString) : Nat := (Utf16.encode s.text.toList).length

def toUtf8 (s : QString) : QByteArray where
  bytes := s.text.toByteArray.data.toList
  length_lt := s.utf8_lt

/-- The text of units that were read. -/
def ofUnits (us : List UInt16) : QString :=
  if h : (String.ofList (Utf16.decode us)).utf8ByteSize < 0xFFFFFFFF
      ∧ 2 * (Utf16.encode (String.ofList (Utf16.decode us)).toList).length < 0xFFFFFFFF then
    { text := String.ofList (Utf16.decode us), utf8_lt := h.1, utf16_lt := h.2 }
  else
    {}

theorem ofUnits_encode (s : QString) : ofUnits (Utf16.encode s.text.toList) = s := by
  have htext : String.ofList (Utf16.decode (Utf16.encode s.text.toList)) = s.text := by
    rw [Utf16.decode_encode, String.ofList_toList]
  have h : (String.ofList (Utf16.decode (Utf16.encode s.text.toList))).utf8ByteSize < 0xFFFFFFFF
      ∧ 2 * (Utf16.encode
        (String.ofList (Utf16.decode (Utf16.encode s.text.toList))).toList).length
          < 0xFFFFFFFF := by
    rw [htext]
    exact ⟨s.utf8_lt, s.utf16_lt⟩
  rw [ofUnits, dif_pos h]
  cases s
  congr

end QString

def putQString (s : QString) : Bytes :=
  beBytes 4 (2 * s.size) ++ Utf16.pack (Utf16.encode s.text.toList)

@[simp] theorem length_putQString (s : QString) : (putQString s).length = 4 + 2 * s.size := by
  rw [putQString, List.length_append, length_beBytes, Utf16.length_pack, QString.size]

/-- A counted text; half of a unit is corrupt data. -/
def Get.qString : Get QString := do
  let length ← uint32
  if length = 0xFFFFFFFF then
    return {}
  else if length.toNat % 2 ≠ 0 then
    fun s => ({}, { s with ok := false })
  else
    (fun b => b.elim {} fun b => QString.ofUnits (Utf16.unpack b.1)) <$> block length.toNat

theorem Reads.qString (s : QString) : Reads Get.qString (putQString s) s := by
  have hlt : 2 * s.size < 0xFFFFFFFF := s.utf16_lt
  have hn : (UInt32.ofNat (2 * s.size)).toNat = 2 * s.size :=
    UInt32.toNat_ofNat_of_lt' (Nat.lt_trans hlt (by decide))
  have hne : UInt32.ofNat (2 * s.size) ≠ 0xFFFFFFFF := by
    intro h
    rw [h] at hn
    exact absurd hn.symm (Nat.ne_of_lt hlt)
  have heven : ¬ (UInt32.ofNat (2 * s.size)).toNat % 2 ≠ 0 := by
    rw [hn]
    omega
  have hcount := Reads.uint32 (UInt32.ofNat (2 * s.size))
  rw [putUInt32, hn] at hcount
  refine hcount.bind ?_
  rw [if_neg hne, if_neg heven]
  have hlength : (Utf16.pack (Utf16.encode s.text.toList)).length
      = (UInt32.ofNat (2 * s.size)).toNat := by
    rw [Utf16.length_pack, hn, QString.size]
  have hblock := (Reads.block hlength).map fun b =>
    b.elim {} fun b => QString.ofUnits (Utf16.unpack b.1)
  simp only [Option.elim_some, Utf16.unpack_pack, QString.ofUnits_encode] at hblock
  exact hblock

end MessengerClient
