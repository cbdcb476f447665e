import MessengerClient.Lib.Utf8
import MessengerClient.Markdown.Lines
import Mathlib

/-!
# MessengerClient.Markdown.Validate

What sources are shown, of `iv/markdown/iv_markdown_parse_validate.cpp`: the limit of their size,
byte order marks, control bytes, and the check that they are UTF-8.

The check reads a first byte, the bytes it announces, and compares the codepoint with the smallest
one of that length.  Whatever it is given, it accepts exactly the bytes of texts
(`isValidUtf8_iff`).

A byte that is read outside of the source is `none`.  The decoded text of a source that is
accepted, which is not read here, is left out.
-/

namespace MessengerClient

namespace Iv

namespace Markdown

def byteAt (source : Bytes) (index : Nat) : Option Nat := source[index]?.map UInt8.toNat

/-! ## UTF-8 -/

def isUtf8Continuation (byte : Nat) : Bool := byte &&& 0xC0 == 0x80

def isValidCodepoint (codepoint minimum : Nat) : Bool :=
  codepoint ≥ minimum && codepoint ≤ 0x10FFFF && (codepoint < 0xD800 || codepoint > 0xDFFF)

/-- `extraBytes`, the bits of `codepoint` in the first byte, and `minimum`. -/
def leadByte (byte : Nat) : Option (Nat × Nat × Nat) :=
  if byte ≥ 0xC2 ∧ byte ≤ 0xDF then some (1, byte &&& 0x1F, 0x80)
  else if byte ≥ 0xE0 ∧ byte ≤ 0xEF then some (2, byte &&& 0x0F, 0x800)
  else if byte ≥ 0xF0 ∧ byte ≤ 0xF4 then some (3, byte &&& 0x07, 0x10000)
  else none

/-- The loop over the extra bytes, the next of which is at `i`.  The codepoint is `some none` where
one of them is no continuation. -/
def readExtra (source : Bytes) : Nat → Nat → Nat → Option (Option Nat)
  | 0, _, codepoint => some (some codepoint)
  | extraBytes + 1, i, codepoint =>
    match byteAt source i with
    | none => none
    | some continuation =>
      if isUtf8Continuation continuation then
        readExtra source extraBytes (i + 1) (codepoint <<< 6 ||| continuation &&& 0x3F)
      else some none

/-- The loop of `IsValidUtf8`, from the offset `i`. -/
def isValidUtf8From (source : Bytes) (size : Int) (i : Nat) : Option Bool :=
  if i = size then some true
  else
    match _hbyte : byteAt source i with
    | none => none
    | some byte =>
      if byte ≤ 0x7F then isValidUtf8From source size (i + 1)
      else
        match leadByte byte with
        | none => some false
        | some (extraBytes, codepoint, minimum) =>
          if i + extraBytes ≥ size then some false
          else
            match readExtra source extraBytes (i + 1) codepoint with
            | none => none
            | some none => some false
            | some (some codepoint) =>
              if !isValidCodepoint codepoint minimum then some false
              else isValidUtf8From source size (i + extraBytes + 1)
termination_by source.length - i
decreasing_by
  all_goals
    have hlt : i < source.length := by
      simp only [byteAt, Option.map_eq_some_iff] at _hbyte
      obtain ⟨b, hb, -⟩ := _hbyte
      exact (List.getElem?_eq_some_iff.mp hb).1
    omega

def isValidUtf8 (source : Bytes) : Option Bool := isValidUtf8From source (i32 source.length) 0

/-! ## Sources -/

def hasPrefix (source start : Bytes) : Bool := start.isPrefixOf source

def hasUtf8Bom (source : Bytes) : Bool := hasPrefix source [0xEF, 0xBB, 0xBF]

def hasUnsupportedUnicodeBom (source : Bytes) : Bool :=
  [[0x00, 0x00, 0xFE, 0xFF], [0xFF, 0xFE, 0x00, 0x00]].any (hasPrefix source) ||
    [[0xFE, 0xFF], [0xFF, 0xFE]].any (hasPrefix source)

def stripUtf8Bom (source : Bytes) : Bytes :=
  if hasUtf8Bom source then source.drop 3 else source

def isAllowedControl (byte : UInt8) : Bool := byte = 0x09 || byte = 0x0A || byte = 0x0D

/-- The loop of `LooksBinary`; it is left at a zero. -/
def controlBytesFrom : Bytes → Nat → Option Nat
  | [], controlBytes => some controlBytes
  | byte :: rest, controlBytes =>
    if byte = 0 then none
    else if (byte < 0x20 || byte = 0x7F) && !isAllowedControl byte then
      controlBytesFrom rest (controlBytes + 1)
    else controlBytesFrom rest controlBytes

def looksBinary (source : Bytes) : Bool :=
  if source.length = 0 then false
  else
    match controlBytesFrom source 0 with
    | none => true
    | some controlBytes => controlBytes * 10 > source.length

def maxSourceBytes : Nat := 4 * 1024 * 1024

structure ValidatedMarkdownSource where
  normalized : Bytes := []
  lineStarts : List Int := []
  sourceName : String := ""

structure MarkdownSourceValidationResult where
  source : ValidatedMarkdownSource := {}
  error : String := ""
  ok : Bool := true

def validationFailure (sourceName error : String) : MarkdownSourceValidationResult :=
  { source := { sourceName }, error, ok := false }

def validateMarkdownSourceForIv (source : Bytes) (sourceName : String) :
    Option MarkdownSourceValidationResult :=
  if source.length > maxSourceBytes then some (validationFailure sourceName "source-too-large")
  else if hasUnsupportedUnicodeBom source then
    some (validationFailure sourceName "source-unsupported-bom")
  else
    let normalized := stripUtf8Bom source
    if looksBinary normalized then some (validationFailure sourceName "source-binary")
    else
      (isValidUtf8 normalized).map fun valid =>
        if !valid then validationFailure sourceName "source-invalid-utf8"
        else { source := { normalized, lineStarts := buildLineStarts normalized, sourceName } }

/-! ## One character -/

open String (utf8EncodeChar)

variable {source before rest extra : Bytes} {b : UInt8} {c : Char}
  {codepoint minimum : Nat}

theorem isUtf8Continuation_iff :
    isUtf8Continuation b.toNat ↔ 0x80 ≤ b.toNat ∧ b.toNat < 0xC0 := by
  have hall : ∀ byte < 256, isUtf8Continuation byte ↔ 0x80 ≤ byte ∧ byte < 0xC0 := by
    decide +kernel
  exact hall b.toNat b.toNat_lt

/-- The codepoint after one more byte. -/
theorem shift_or (codepoint byte : Nat) :
    codepoint <<< 6 ||| byte &&& 0x3F = codepoint * 64 + byte % 64 := by
  have hmod : byte &&& 0x3F = byte % 64 := Nat.and_two_pow_sub_one_eq_mod byte 6
  have hlt : byte % 64 < 2 ^ 6 := Nat.mod_lt _ (by decide)
  rw [hmod, ← Nat.shiftLeft_add_eq_or_of_lt hlt, Nat.shiftLeft_eq]

/-- The codepoint that extra bytes complete. -/
def complete (codepoint : Nat) (extra : Bytes) : Nat :=
  extra.foldl (fun codepoint b => codepoint * 64 + b.toNat % 64) codepoint

theorem byteAt_append : byteAt (before ++ b :: rest) before.length = some b.toNat := by
  simp [byteAt]

/-- **The extra bytes** are read, and all of them are continuations. -/
theorem readExtra_append :
    readExtra (before ++ extra ++ rest) extra.length before.length codepoint =
      some (if ∀ b ∈ extra, isUtf8Continuation b.toNat then some (complete codepoint extra)
        else none) := by
  induction extra generalizing before codepoint with
  | nil => simp [readExtra, complete]
  | cons b extra ih =>
    have hat : byteAt (before ++ b :: extra ++ rest) before.length = some b.toNat := by
      rw [List.append_assoc]
      exact byteAt_append
    have hnext := @ih (before ++ [b]) (codepoint * 64 + b.toNat % 64)
    simp only [List.append_assoc, List.cons_append, List.nil_append, List.length_append,
      List.length_cons, List.length_nil, Nat.zero_add] at hnext hat ⊢
    simp only [readExtra, hat, shift_or, hnext, List.forall_mem_cons]
    split <;> simp_all [complete]

theorem leadByte_eq (byte : Nat) : leadByte byte =
    if byte ≥ 0xC2 ∧ byte ≤ 0xDF then some (1, byte % 32, 0x80)
    else if byte ≥ 0xE0 ∧ byte ≤ 0xEF then some (2, byte % 16, 0x800)
    else if byte ≥ 0xF0 ∧ byte ≤ 0xF4 then some (3, byte % 8, 0x10000)
    else none := by
  rw [leadByte, ← Nat.and_two_pow_sub_one_eq_mod byte 5, ← Nat.and_two_pow_sub_one_eq_mod byte 4,
    ← Nat.and_two_pow_sub_one_eq_mod byte 3]

theorem isValidCodepoint_iff : isValidCodepoint codepoint minimum ↔
    minimum ≤ codepoint ∧ codepoint ≤ 0x10FFFF ∧ (codepoint < 0xD800 ∨ 0xDFFF < codepoint) := by
  simp [isValidCodepoint, and_assoc]

theorem toNat_range (c : Char) : c.toNat < 0xD800 ∨ 0xDFFF < c.toNat ∧ c.toNat ≤ 0x10FFFF := by
  have hvalid := c.valid
  rw [UInt32.isValidChar, Nat.isValidChar] at hvalid
  change c.toNat < 0xD800 ∨ 0xDFFF < c.toNat ∧ c.toNat < 0x110000 at hvalid
  omega

/-- What a first byte announces of the bytes after it. -/
structure Announces (b : UInt8) (extra : Bytes) (codepoint minimum : Nat) : Prop where
  lead : leadByte b.toNat = some (extra.length, codepoint, minimum)
  continues : ∀ b ∈ extra, isUtf8Continuation b.toNat
  valid : isValidCodepoint (complete codepoint extra) minimum

/-- The bytes of a character, by its codepoint. -/
theorem encodeChar_eq (c : Char) : utf8EncodeChar c =
    if c.toNat ≤ 0x7F then [UInt8.ofNat c.toNat]
    else if c.toNat ≤ 0x7FF then
      [UInt8.ofNat (c.toNat / 64 % 32 + 0xC0), UInt8.ofNat (c.toNat % 64 + 0x80)]
    else if c.toNat ≤ 0xFFFF then
      [UInt8.ofNat (c.toNat / 4096 % 16 + 0xE0), UInt8.ofNat (c.toNat / 64 % 64 + 0x80),
        UInt8.ofNat (c.toNat % 64 + 0x80)]
    else
      [UInt8.ofNat (c.toNat / 262144 % 8 + 0xF0), UInt8.ofNat (c.toNat / 4096 % 64 + 0x80),
        UInt8.ofNat (c.toNat / 64 % 64 + 0x80), UInt8.ofNat (c.toNat % 64 + 0x80)] := rfl

/-- A byte made of marks and of low bits under them. -/
theorem toNat_marked (n : Nat) {k m : Nat} (hk : 0 < k) (h : k + m ≤ 256) :
    (UInt8.ofNat (n % k + m)).toNat = n % k + m := by
  have hlt := Nat.mod_lt n hk
  rw [UInt8.toNat_ofNat', Nat.mod_eq_of_lt (by omega)]

theorem isUtf8Continuation_marked (n : Nat) :
    isUtf8Continuation (UInt8.ofNat (n % 64 + 0x80)).toNat := by
  have hlt := Nat.mod_lt n (y := 64) (by decide)
  rw [isUtf8Continuation_iff, toNat_marked n (by decide) (by decide)]
  omega

theorem complete_marked (codepoint n : Nat) (extra : Bytes) :
    complete codepoint (UInt8.ofNat (n % 64 + 0x80) :: extra) =
      complete (codepoint * 64 + n % 64) extra := by
  rw [complete, List.foldl_cons, toNat_marked n (by decide) (by decide),
    show (n % 64 + 0x80) % 64 = n % 64 by omega, complete]

theorem leadByte_two {a : Nat} (hle : 2 ≤ a) (hlt : a < 32) :
    leadByte (a + 0xC0) = some (1, a, 0x80) := by
  rw [leadByte_eq, if_pos (by omega), show (a + 0xC0) % 32 = a by omega]

theorem leadByte_three {a : Nat} (hlt : a < 16) :
    leadByte (a + 0xE0) = some (2, a, 0x800) := by
  rw [leadByte_eq, if_neg (by omega), if_pos (by omega), show (a + 0xE0) % 16 = a by omega]

theorem leadByte_four {a : Nat} (hle : a ≤ 4) :
    leadByte (a + 0xF0) = some (3, a, 0x10000) := by
  rw [leadByte_eq, if_neg (by omega), if_neg (by omega), if_pos (by omega),
    show (a + 0xF0) % 8 = a by omega]

/-- **A character of several bytes** begins with a byte that announces the others. -/
theorem announces_encode (h : 0x80 ≤ c.toNat) :
    ∃ b extra codepoint minimum, utf8EncodeChar c = b :: extra ∧ 0x7F < b.toNat ∧
      Announces b extra codepoint minimum := by
  have hrange := toNat_range c
  rw [encodeChar_eq, if_neg (by omega)]
  generalize c.toNat = n at h hrange
  split
  · have hvalue : n / 64 % 32 * 64 + n % 64 = n := by omega
    have hb := toNat_marked (n / 64) (k := 32) (m := 0xC0) (by decide) (by decide)
    refine ⟨_, _, n / 64 % 32, 0x80, rfl, ?_, ?_, ?_, ?_⟩
    · rw [hb]
      omega
    · rw [hb]
      exact leadByte_two (by omega) (Nat.mod_lt _ (by decide))
    · simp only [List.mem_singleton, forall_eq, isUtf8Continuation_marked]
    · rw [complete_marked, hvalue, complete, List.foldl_nil, isValidCodepoint_iff]
      omega
  split
  · have hvalue : (n / 4096 % 16 * 64 + n / 64 % 64) * 64 + n % 64 = n := by omega
    have hb := toNat_marked (n / 4096) (k := 16) (m := 0xE0) (by decide) (by decide)
    refine ⟨_, _, n / 4096 % 16, 0x800, rfl, ?_, ?_, ?_, ?_⟩
    · rw [hb]
      omega
    · rw [hb]
      exact leadByte_three (Nat.mod_lt _ (by decide))
    · simp only [List.mem_cons, List.not_mem_nil, or_false, forall_eq_or_imp, forall_eq,
        isUtf8Continuation_marked, and_self]
    · rw [complete_marked, complete_marked, hvalue, complete, List.foldl_nil,
        isValidCodepoint_iff]
      omega
  · have hvalue : ((n / 262144 % 8 * 64 + n / 4096 % 64) * 64 + n / 64 % 64) * 64 + n % 64 = n := by
      omega
    have hb := toNat_marked (n / 262144) (k := 8) (m := 0xF0) (by decide) (by decide)
    refine ⟨_, _, n / 262144 % 8, 0x10000, rfl, ?_, ?_, ?_, ?_⟩
    · rw [hb]
      omega
    · rw [hb]
      exact leadByte_four (by omega)
    · simp only [List.mem_cons, List.not_mem_nil, or_false, forall_eq_or_imp, forall_eq,
        isUtf8Continuation_marked, and_self]
    · rw [complete_marked, complete_marked, complete_marked, hvalue, complete, List.foldl_nil,
        isValidCodepoint_iff]
      omega

theorem ofNat_eq {n : Nat} (h : n = b.toNat) : UInt8.ofNat n = b := by
  rw [h, UInt8.ofNat_toNat]

/-- **A byte that announces the ones after it** begins a character. -/
theorem Announces.exists_encode (h : Announces b extra codepoint minimum) :
    ∃ c, utf8EncodeChar c = b :: extra := by
  obtain ⟨hlead, hcontinues, hvalid⟩ := h
  rw [isValidCodepoint_iff] at hvalid
  obtain ⟨c, hc⟩ : ∃ c : Char, c.toNat = complete codepoint extra := by
    refine ⟨Char.ofNat (complete codepoint extra), ?_⟩
    rw [Char.toNat_ofNat, if_pos]
    rw [Nat.isValidChar]
    omega
  refine ⟨c, ?_⟩
  rw [← hc] at hvalid
  rw [encodeChar_eq]
  rw [leadByte_eq] at hlead
  split at hlead
  · obtain ⟨hlength, rfl, rfl⟩ := by simpa using hlead
    obtain ⟨x, rfl⟩ := List.length_eq_one_iff.mp hlength.symm
    simp only [List.mem_singleton, forall_eq, isUtf8Continuation_iff] at hcontinues
    simp only [complete, List.foldl_cons, List.foldl_nil] at hc
    rw [if_neg (by omega), if_pos (by omega), ofNat_eq (b := b), ofNat_eq (b := x)]
    all_goals omega
  split at hlead
  · obtain ⟨hlength, rfl, rfl⟩ := by simpa using hlead
    obtain ⟨x, y, rfl⟩ := List.length_eq_two.mp hlength.symm
    simp only [List.mem_cons, List.not_mem_nil, or_false, forall_eq_or_imp, forall_eq,
      isUtf8Continuation_iff] at hcontinues
    simp only [complete, List.foldl_cons, List.foldl_nil] at hc
    rw [if_neg (by omega), if_neg (by omega), if_pos (by omega), ofNat_eq (b := b),
      ofNat_eq (b := x), ofNat_eq (b := y)]
    all_goals omega
  split at hlead
  · obtain ⟨hlength, rfl, rfl⟩ := by simpa using hlead
    obtain ⟨x, y, z, rfl⟩ := List.length_eq_three.mp hlength.symm
    simp only [List.mem_cons, List.not_mem_nil, or_false, forall_eq_or_imp, forall_eq,
      isUtf8Continuation_iff] at hcontinues
    simp only [complete, List.foldl_cons, List.foldl_nil] at hc
    rw [if_neg (by omega), if_neg (by omega), if_neg (by omega), ofNat_eq (b := b),
      ofNat_eq (b := x), ofNat_eq (b := y), ofNat_eq (b := z)]
    all_goals omega
  · cases hlead

/-! ## The loop -/

theorem isValidUtf8From_nil :
    isValidUtf8From source source.length source.length = some true := by
  rw [isValidUtf8From, if_pos rfl]

theorem isValidUtf8From_ascii (hb : b.toNat ≤ 0x7F)
    (hsource : before ++ b :: rest = source) :
    isValidUtf8From source source.length before.length =
      isValidUtf8From source source.length (before ++ [b]).length := by
  have hat : byteAt source before.length = some b.toNat := hsource ▸ byteAt_append
  have hlt : before.length < source.length := by simp [← hsource]
  rw [isValidUtf8From, if_neg (by omega)]
  split
  · next hnone => simp [hat] at hnone
  · next byte hbyte =>
    obtain rfl := Option.some.inj (hat.symm.trans hbyte)
    rw [if_pos hb, List.length_append]
    rfl

/-- The step at a byte that is no ASCII character. -/
theorem isValidUtf8From_of_gt (hb : 0x7F < b.toNat) (hsource : before ++ b :: rest = source) :
    isValidUtf8From source source.length before.length =
      match leadByte b.toNat with
      | none => some false
      | some (extraBytes, codepoint, minimum) =>
        if rest.length < extraBytes then some false
        else
          match readExtra source extraBytes (before.length + 1) codepoint with
          | none => none
          | some none => some false
          | some (some codepoint) =>
            if !isValidCodepoint codepoint minimum then some false
            else isValidUtf8From source source.length (before.length + extraBytes + 1) := by
  have hat : byteAt source before.length = some b.toNat := hsource ▸ byteAt_append
  have hlength : source.length = before.length + (rest.length + 1) := by simp [← hsource]
  conv_lhs => rw [isValidUtf8From]
  rw [if_neg (by omega)]
  split
  · next hnone => simp [hat] at hnone
  · next byte hbyte =>
    obtain rfl := Option.some.inj (hat.symm.trans hbyte)
    rw [if_neg (by omega)]
    have hfits : ∀ extraBytes : Nat, (before.length : Int) + extraBytes ≥ source.length ↔
        rest.length < extraBytes := by
      intro extraBytes
      omega
    simp only [hfits]

/-- A first byte with the bytes it announces is passed, and no other is. -/
theorem isValidUtf8From_announced (hb : 0x7F < b.toNat)
    (h : Announces b extra codepoint minimum) (hsource : before ++ b :: (extra ++ rest) = source) :
    isValidUtf8From source source.length before.length =
      isValidUtf8From source source.length (before ++ b :: extra).length := by
  have hread : readExtra source extra.length (before.length + 1) codepoint =
      some (some (complete codepoint extra)) := by
    have happend := @readExtra_append (before ++ [b]) rest extra codepoint
    rw [if_pos h.continues] at happend
    simpa [← hsource] using happend
  rw [isValidUtf8From_of_gt hb hsource, h.lead]
  simp only [hread, h.valid, List.length_append, List.length_cons]
  rw [if_neg (by omega)]
  simp [Nat.add_assoc]

theorem isValidUtf8From_unannounced (hb : 0x7F < b.toNat)
    (h : ∀ extra codepoint minimum rest', rest = extra ++ rest' →
      ¬Announces b extra codepoint minimum)
    (hsource : before ++ b :: rest = source) :
    isValidUtf8From source source.length before.length = some false := by
  rw [isValidUtf8From_of_gt hb hsource]
  split
  · rfl
  · next extraBytes codepoint minimum hlead =>
    split
    · rfl
    · next hfits =>
      have hlength : (rest.take extraBytes).length = extraBytes := List.length_take_of_le (by omega)
      have happend := @readExtra_append (before ++ [b]) (rest.drop extraBytes)
        (rest.take extraBytes) codepoint
      rw [hlength, List.append_assoc, List.take_append_drop, List.append_assoc,
        List.singleton_append, hsource, List.length_append, List.length_singleton] at happend
      rw [happend]
      split
      · next hnone => cases hnone
      · rfl
      · next codepoint' hsome =>
        split at hsome
        · next hcontinues =>
          cases hsome
          rw [if_pos]
          rw [Bool.not_eq_true']
          by_contra hvalid
          refine h _ codepoint minimum _ (List.take_append_drop extraBytes rest).symm ⟨?_,
            hcontinues, Bool.not_eq_false _ ▸ hvalid⟩
          rw [hlead, hlength]
        · cases hsome

/-- **The bytes of a text are passed.** -/
theorem isValidUtf8From_encode {cs : List Char} (hsource : before ++ Utf8.encode cs = source) :
    isValidUtf8From source source.length before.length = some true := by
  induction cs generalizing before with
  | nil =>
    obtain rfl : before = source := by simpa using hsource
    exact isValidUtf8From_nil
  | cons c cs ih =>
    rw [Utf8.encode_cons] at hsource
    by_cases hc : c.toNat < 0x80
    · rw [Utf8.encodeChar_of_lt hc, List.singleton_append] at hsource
      have hb : (UInt8.ofNat c.toNat).toNat ≤ 0x7F := by
        rw [Utf8.toNat_ascii hc]
        omega
      rw [isValidUtf8From_ascii hb hsource]
      exact ih (by simpa using hsource)
    · obtain ⟨b, extra, codepoint, minimum, hencode, hb, h⟩ := announces_encode (not_lt.mp hc)
      rw [hencode, List.cons_append] at hsource
      rw [isValidUtf8From_announced hb h hsource]
      exact ih (by simpa using hsource)

/-- **Nothing is read outside**, and what is passed are the bytes of a text. -/
theorem isValidUtf8From_sound (hsource : before ++ rest = source) :
    ∃ valid, isValidUtf8From source source.length before.length = some valid ∧
      (valid → ∃ cs, rest = Utf8.encode cs) := by
  induction hlength : rest.length using Nat.strong_induction_on generalizing before rest with
  | _ length ih =>
    cases rest with
    | nil => 
      obtain rfl : before = source := by simpa using hsource
      exact ⟨true, isValidUtf8From_nil, fun _ => ⟨[], rfl⟩⟩
    | cons b rest =>
      rw [List.length_cons] at hlength
      by_cases hb : b.toNat ≤ 0x7F
      · obtain ⟨valid, hvalid, htext⟩ := @ih rest.length (by omega) (before ++ [b]) rest
          (by simpa using hsource) rfl
        refine ⟨valid, isValidUtf8From_ascii hb hsource ▸ hvalid, fun h => ?_⟩
        obtain ⟨cs, hcs⟩ := htext h
        have hchar : utf8EncodeChar (Char.ofNat b.toNat) = [b] := by
          have htoNat : (Char.ofNat b.toNat).toNat = b.toNat := by
            rw [Char.toNat_ofNat, if_pos]
            rw [Nat.isValidChar]
            omega
          rw [Utf8.encodeChar_of_lt (by omega), htoNat, UInt8.ofNat_toNat]
        exact ⟨Char.ofNat b.toNat :: cs, by rw [Utf8.encode_cons, hchar, hcs]; rfl⟩
      · by_cases h : ∃ extra codepoint minimum rest', rest = extra ++ rest' ∧
          Announces b extra codepoint minimum
        · obtain ⟨extra, codepoint, minimum, rest, rfl, h⟩ := h
          obtain ⟨valid, hvalid, htext⟩ := @ih rest.length
            (by rw [List.length_append] at hlength; omega) (before ++ b :: extra) rest
            (by simpa using hsource) rfl
          refine ⟨valid, isValidUtf8From_announced (by omega) h hsource ▸ hvalid, fun h' => ?_⟩
          obtain ⟨cs, hcs⟩ := htext h'
          obtain ⟨c, hc⟩ := h.exists_encode
          exact ⟨c :: cs, by rw [Utf8.encode_cons, hc, hcs]; rfl⟩
        · simp only [not_exists, not_and] at h
          exact ⟨false, isValidUtf8From_unannounced (by omega) h hsource, by simp⟩

theorem isValidUtf8_spec (h : source.length < 2 ^ 31) :
    ∃ valid, isValidUtf8 source = some valid ∧ (valid ↔ ∃ cs, source = Utf8.encode cs) := by
  rw [isValidUtf8, i32_of_lt h]
  obtain ⟨valid, hvalid, htext⟩ := @isValidUtf8From_sound source [] source rfl
  refine ⟨valid, hvalid, htext, ?_⟩
  rintro ⟨cs, hcs⟩
  have htrue := @isValidUtf8From_encode source [] cs hcs.symm
  exact Option.some.inj (hvalid.symm.trans htrue)

theorem stripUtf8Bom_length_le : (stripUtf8Bom source).length ≤ source.length := by
  rw [stripUtf8Bom]
  split
  · simp
  · exact le_rfl

/-- The sources whose bytes are checked are shorter than an `int` can say. -/
theorem validate_of_checked {sourceName : String} (hsize : source.length ≤ maxSourceBytes)
    (hbom : hasUnsupportedUnicodeBom source = false)
    (hbinary : looksBinary (stripUtf8Bom source) = false) :
    ∃ result, validateMarkdownSourceForIv source sourceName = some result ∧
      (result.ok ↔ ∃ cs, stripUtf8Bom source = Utf8.encode cs) ∧
      (result.ok → result.source.normalized = stripUtf8Bom source) ∧
      (¬result.ok → result.error = "source-invalid-utf8") := by
  have hlength : (stripUtf8Bom source).length < 2 ^ 31 :=
    (stripUtf8Bom_length_le.trans hsize).trans_lt (by decide)
  obtain ⟨valid, hvalid, hiff⟩ := isValidUtf8_spec hlength
  simp only [validateMarkdownSourceForIv, not_lt.mpr hsize, hbom, hbinary, hvalid, if_false,
    Bool.false_eq_true, Option.map_some]
  refine ⟨_, rfl, ?_⟩
  rw [← hiff]
  cases valid <;> simp [validationFailure]

/-- **The check accepts exactly UTF-8**: it ends without a byte read outside of the source, and it
is `true` for the bytes of texts and for nothing else.  It is what decides of a source that passes
the checks before it. -/
theorem isValidUtf8_iff (source : Bytes) :
    (source.length < 2 ^ 31 →
      ∃ valid, isValidUtf8 source = some valid ∧ (valid ↔ ∃ cs, source = Utf8.encode cs)) ∧
    (∀ sourceName, source.length ≤ maxSourceBytes → hasUnsupportedUnicodeBom source = false →
      looksBinary (stripUtf8Bom source) = false →
      ∃ result, validateMarkdownSourceForIv source sourceName = some result ∧
        (result.ok ↔ ∃ cs, stripUtf8Bom source = Utf8.encode cs) ∧
        (result.ok → result.source.normalized = stripUtf8Bom source) ∧
        (¬result.ok → result.error = "source-invalid-utf8")) :=
  ⟨isValidUtf8_spec, fun _ => validate_of_checked⟩

/-- A euro sign. -/
theorem isValidUtf8_iff_euro :
    (∃ valid, isValidUtf8 [0xE2, 0x82, 0xAC] = some valid ∧
      (valid ↔ ∃ cs, [0xE2, 0x82, 0xAC] = Utf8.encode cs)) ∧
    ∃ result, validateMarkdownSourceForIv [0xE2, 0x82, 0xAC] "euro.md" = some result ∧
      (result.ok ↔ ∃ cs, stripUtf8Bom [0xE2, 0x82, 0xAC] = Utf8.encode cs) ∧
      (result.ok → result.source.normalized = stripUtf8Bom [0xE2, 0x82, 0xAC]) ∧
      (¬result.ok → result.error = "source-invalid-utf8") :=
  ⟨(isValidUtf8_iff [0xE2, 0x82, 0xAC]).1 (by decide),
    (isValidUtf8_iff [0xE2, 0x82, 0xAC]).2 "euro.md" (by decide) (by decide) (by decide)⟩

end Markdown

end Iv

end MessengerClient
