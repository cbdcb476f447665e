import MessengerClient.Lib.Texts
import Mathlib

/-!
# MessengerClient.Markdown.InlineObject

Formulas and images inside of texts, as the texts they are kept in, of
`iv/markdown/iv_markdown_prepare_serialize.cpp`.

The fields of a text stand between semicolons, and percent encoding leaves no semicolon in them, so
every object is told from the others (`serialize_inj`).  The strings of an object are read as UTF-8,
where a byte order mark is skipped: an object comes back exactly if no string begins with one
(`parse_serialize`).
-/

namespace MessengerClient

namespace Iv

namespace Markdown

open Texts

inductive InlineTextObjectKind where
  | formula
  | ivImage
deriving DecidableEq, Repr

structure InlineTextObjectFormulaData where
  copySource : List Char
  trimmedTex : List Char
deriving DecidableEq, Repr

structure InlineTextObjectIvImageData where
  documentId : UInt64 := 0
  width : Int32 := 0
  height : Int32 := 0
  replacementText : List Char
deriving DecidableEq, Repr

/-- The `std::variant` of both. -/
inductive InlineTextObjectData where
  | formula (data : InlineTextObjectFormulaData)
  | ivImage (data : InlineTextObjectIvImageData)
deriving DecidableEq, Repr

structure InlineTextObjectEntity where
  kind : InlineTextObjectKind
  data : InlineTextObjectData
deriving DecidableEq, Repr

def encodeInlineTextObjectField (value : List Char) : List Char :=
  fromUtf8 (percentEncode (Utf8.encode value))

def decodeInlineTextObjectField (value : List Char) : List Char :=
  fromUtf8 (percentDecode (toLatin1 value))

def serializeInlineTextObjectEntity (object : InlineTextObjectEntity) : List Char :=
  match object.kind, object.data with
  | .formula, .formula data =>
    "iv-markdown:inline-text-object;formula;".toList
      ++ encodeInlineTextObjectField data.copySource
      ++ ";".toList
      ++ encodeInlineTextObjectField data.trimmedTex
  | .ivImage, .ivImage data =>
    "iv-markdown:inline-text-object;iv-image;".toList
      ++ number data.documentId.toNat
      ++ ";".toList
      ++ number data.width.toInt
      ++ ";".toList
      ++ number data.height.toInt
      ++ ";".toList
      ++ encodeInlineTextObjectField data.replacementText
  | _, _ => []

def parseInlineTextObjectEntity (data : List Char) : Option InlineTextObjectEntity :=
  match data.splitOn ';' with
  | name :: kind :: fields =>
    if name ≠ "iv-markdown:inline-text-object".toList then none
    else if kind = "formula".toList then
      match fields with
      | [copySource, trimmedTex] =>
        some {
          kind := .formula
          data := .formula {
            copySource := decodeInlineTextObjectField copySource
            trimmedTex := decodeInlineTextObjectField trimmedTex } }
      | _ => none
    else if kind = "iv-image".toList then
      match fields with
      | [documentId, width, height, replacementText] =>
        match toULongLong documentId, toInt width, toInt height with
        | some documentId, some width, some height =>
          some {
            kind := .ivImage
            data := .ivImage {
              documentId
              width
              height
              replacementText := decodeInlineTextObjectField replacementText } }
        | _, _, _ => none
      | _ => none
    else none
  | _ => none

namespace InlineTextObjectEntity

/-- The data is of the kind. -/
def Matches (object : InlineTextObjectEntity) : Prop :=
  match object.data with
  | .formula _ => object.kind = .formula
  | .ivImage _ => object.kind = .ivImage

/-- The strings of an object. -/
def texts (object : InlineTextObjectEntity) : List (List Char) :=
  match object.data with
  | .formula data => [data.copySource, data.trimmedTex]
  | .ivImage data => [data.replacementText]

/-- The object with each of its strings read from UTF-8. -/
def reread (object : InlineTextObjectEntity) : InlineTextObjectEntity :=
  match object.data with
  | .formula data =>
    { object with
      data := .formula {
        copySource := fromUtf8 (Utf8.encode data.copySource)
        trimmedTex := fromUtf8 (Utf8.encode data.trimmedTex) } }
  | .ivImage data =>
    { object with
      data := .ivImage { data with
        replacementText := fromUtf8 (Utf8.encode data.replacementText) } }

end InlineTextObjectEntity

open InlineTextObjectEntity

variable {value : List Char} {a b : InlineTextObjectEntity}

/-! ## Fields -/

theorem percentEncode_lt {bs : Bytes} : ∀ b ∈ percentEncode bs, b.toNat < 0x80 :=
  fun b hb => lt_of_isUnreserved b (mem_percentEncode hb)

theorem encodeField_eq (value : List Char) :
    encodeInlineTextObjectField value = asciiText (percentEncode (Utf8.encode value)) :=
  fromUtf8_ascii percentEncode_lt

/-- **What was encoded is read** from its UTF-8. -/
@[simp] theorem toLatin1_encodeField (value : List Char) :
    percentDecode (toLatin1 (encodeInlineTextObjectField value)) = Utf8.encode value := by
  rw [encodeField_eq, toLatin1_asciiText percentEncode_lt, percentDecode_percentEncode]

theorem encodeField_inj {value' : List Char}
    (h : encodeInlineTextObjectField value = encodeInlineTextObjectField value') :
    value = value' := by
  have hbytes := congrArg (fun text => percentDecode (toLatin1 text)) h
  simp only [toLatin1_encodeField] at hbytes
  exact Utf8.encode_inj hbytes

/-- **No field has a semicolon.** -/
theorem semicolon_encodeField (value : List Char) : ';' ∉ encodeInlineTextObjectField value := by
  rw [encodeField_eq, asciiText, List.mem_map]
  rintro ⟨b, hb, hchar⟩
  have htoNat := toNat_ofByte b
  rw [hchar] at htoNat
  have hbyte : b = 0x3B := UInt8.toNat_inj.mp htoNat.symm
  have hwritten := mem_percentEncode hb
  rw [hbyte] at hwritten
  exact absurd hwritten (by decide)

theorem semicolon_number (n : Int) : ';' ∉ number n := by
  intro h
  exact absurd (mem_number h) (by decide)

/-! ## Parts -/

/-- The fields of an object, with the name of its kind. -/
def parts (object : InlineTextObjectEntity) : List (List Char) :=
  match object.data with
  | .formula data =>
    ["formula".toList, encodeInlineTextObjectField data.copySource,
      encodeInlineTextObjectField data.trimmedTex]
  | .ivImage data =>
    ["iv-image".toList, number data.documentId.toNat, number data.width.toInt,
      number data.height.toInt, encodeInlineTextObjectField data.replacementText]

/-- **A text is split into its fields.** -/
theorem splitOn_serialize (h : a.Matches) : (serializeInlineTextObjectEntity a).splitOn ';' =
    "iv-markdown:inline-text-object".toList :: parts a := by
  have hjoin : serializeInlineTextObjectEntity a =
      List.intercalate [';'] ("iv-markdown:inline-text-object".toList :: parts a) := by
    obtain ⟨kind, data⟩ := a
    cases data with
    | formula data =>
      cases h
      simp [serializeInlineTextObjectEntity, parts, List.intercalate]
    | ivImage data =>
      cases h
      simp [serializeInlineTextObjectEntity, parts, List.intercalate]
  rw [hjoin]
  refine List.splitOn_intercalate ';' ?_ (List.cons_ne_nil _ _)
  obtain ⟨kind, data⟩ := a
  cases data with
  | formula data =>
    simp [parts, semicolon_encodeField]
  | ivImage data =>
    simp [parts, semicolon_encodeField, semicolon_number]

/-- **An object is read** with its strings as their UTF-8 is. -/
theorem parse_serialize_eq (h : a.Matches) :
    parseInlineTextObjectEntity (serializeInlineTextObjectEntity a) = some a.reread := by
  rw [parseInlineTextObjectEntity, splitOn_serialize h]
  obtain ⟨kind, data⟩ := a
  cases data with
  | formula data =>
    cases h
    simp [parts, reread, decodeInlineTextObjectField]
  | ivImage data =>
    cases h
    simp [parts, reread, decodeInlineTextObjectField, toULongLong_number, toInt_number]

theorem reread_eq_iff : a.reread = a ↔ ∀ text ∈ a.texts, text.head? ≠ some byteOrderMark := by
  obtain ⟨kind, data⟩ := a
  cases data with
  | formula data =>
    obtain ⟨copySource, trimmedTex⟩ := data
    simp [reread, texts, fromUtf8_encode_iff]
  | ivImage data =>
    obtain ⟨documentId, width, height, replacementText⟩ := data
    simp [reread, texts, fromUtf8_encode_iff]

/-- **Distinct objects have distinct texts.** -/
theorem serialize_inj (ha : a.Matches) (hb : b.Matches)
    (h : serializeInlineTextObjectEntity a = serializeInlineTextObjectEntity b) : a = b := by
  have hparts := congrArg (List.splitOn ';') h
  rw [splitOn_serialize ha, splitOn_serialize hb] at hparts
  have hsame := (List.cons.inj hparts).2
  obtain ⟨kindA, dataA⟩ := a
  obtain ⟨kindB, dataB⟩ := b
  cases dataA with
  | formula dataA =>
    cases dataB with
    | formula dataB =>
      obtain ⟨hcopy, htex⟩ := by simpa [parts] using hsame
      cases ha
      cases hb
      cases dataA
      cases dataB
      cases encodeField_inj hcopy
      cases encodeField_inj htex
      rfl
    | ivImage dataB => simp [parts] at hsame
  | ivImage dataA =>
    cases dataB with
    | formula dataB => simp [parts] at hsame
    | ivImage dataB =>
      obtain ⟨hid, hwidth, hheight, htext⟩ := by simpa [parts] using hsame
      cases ha
      cases hb
      cases dataA
      cases dataB
      cases UInt64.toNat_inj.mp (Int.ofNat_inj.mp (number_inj hid))
      cases Int32.toInt_inj.mp (number_inj hwidth)
      cases Int32.toInt_inj.mp (number_inj hheight)
      cases encodeField_inj htext
      rfl

/-- **An object survives its text form** exactly if none of its strings begins with a byte order
mark, and its text is that of no other object. -/
theorem parse_serialize (a : InlineTextObjectEntity) (h : a.Matches) :
    (parseInlineTextObjectEntity (serializeInlineTextObjectEntity a) = some a ↔
      ∀ text ∈ a.texts, text.head? ≠ some byteOrderMark) ∧
    ∀ b : InlineTextObjectEntity, b.Matches →
      serializeInlineTextObjectEntity a = serializeInlineTextObjectEntity b → a = b := by
  rw [parse_serialize_eq h, Option.some_inj, reread_eq_iff]
  exact ⟨Iff.rfl, fun b hb => serialize_inj h hb⟩

def inlineFormulaCopySource (source : List Char) : List Char := "$".toList ++ source ++ "$".toList

/-- The object of a formula. -/
def formulaObject (tex : List Char) : InlineTextObjectEntity :=
  ⟨.formula, .formula ⟨inlineFormulaCopySource tex, tex⟩⟩

theorem formulaObject_matches (tex : List Char) : (formulaObject tex).Matches := rfl

/-- A formula with a semicolon and a percent sign in it. -/
theorem parse_serialize_percent :
    (parseInlineTextObjectEntity (serializeInlineTextObjectEntity (formulaObject "a;%π".toList)) =
        some (formulaObject "a;%π".toList) ↔
      ∀ text ∈ (formulaObject "a;%π".toList).texts, text.head? ≠ some byteOrderMark) ∧
    ∀ b : InlineTextObjectEntity, b.Matches →
      serializeInlineTextObjectEntity (formulaObject "a;%π".toList) =
        serializeInlineTextObjectEntity b → formulaObject "a;%π".toList = b :=
  parse_serialize (formulaObject "a;%π".toList) rfl

/-- A formula that begins with a byte order mark comes back without it. -/
theorem parse_serialize_mark :
    parseInlineTextObjectEntity
        (serializeInlineTextObjectEntity (formulaObject [byteOrderMark, 'x'])) =
      some ⟨.formula, .formula ⟨['$', byteOrderMark, 'x', '$'], ['x']⟩⟩ ∧
    (⟨.formula, .formula ⟨['$', byteOrderMark, 'x', '$'], ['x']⟩⟩ : InlineTextObjectEntity) ≠
      formulaObject [byteOrderMark, 'x'] := by
  refine ⟨?_, by decide⟩
  rw [parse_serialize_eq (formulaObject_matches _)]
  simp only [formulaObject, reread, fromUtf8_encode]
  decide

end Markdown

end Iv

end MessengerClient
