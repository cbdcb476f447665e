import Mathlib

/-!
# MessengerClient.Lib.Escapes

Escaped texts, and what a reader makes of them: the strings of JSON, and HTML without elements
other than line breaks.
-/

namespace MessengerClient

def hexDigit? (c : Char) : Option Nat :=
  if '0' ≤ c ∧ c ≤ '9' then some (c.toNat - 0x30)
  else if 'A' ≤ c ∧ c ≤ 'F' then some (c.toNat - 0x41 + 10)
  else if 'a' ≤ c ∧ c ≤ 'f' then some (c.toNat - 0x61 + 10)
  else none

def hexNumber? (digits : List Char) : Option Nat :=
  (digits.mapM hexDigit?).map fun values => values.foldl (fun n d => 16 * n + d) 0

/-! ## Strings of JSON -/

namespace Json

/-- The characters after a backslash that stand for one character, and that character. -/
def escapes : List (Char × Char) :=
  [('"', '"'), ('\\', '\\'), ('/', '/'), ('b', '\x08'), ('f', '\x0c'), ('n', '\n'), ('r', '\r'),
    ('t', '\t')]

/-- The UTF-16 unit that four digits write. -/
def unit? (digits : List Char) : Option Nat :=
  if digits.length = 4 then hexNumber? digits else none

/-- What the characters after the opening quote say. -/
inductive Says : List Char → List Char → Prop where
  | close : Says ['"'] []
  | plain {c : Char} {t s : List Char} : 0x20 ≤ c.toNat → c ≠ '"' → c ≠ '\\' → Says t s →
      Says (c :: t) (c :: s)
  | escape {e c : Char} {t s : List Char} : (e, c) ∈ escapes → Says t s →
      Says ('\\' :: e :: t) (c :: s)
  | unicode {digits : List Char} {c : Char} {t s : List Char} : unit? digits = some c.toNat →
      Says t s → Says ('\\' :: 'u' :: (digits ++ t)) (c :: s)
  | pair {digits digits' : List Char} {high low : Nat} {c : Char} {t s : List Char} :
      unit? digits = some high → unit? digits' = some low →
      0xD800 ≤ high → high < 0xDC00 → 0xDC00 ≤ low → low < 0xE000 →
      c.toNat = 0x10000 + (high - 0xD800) * 0x400 + (low - 0xDC00) → Says t s →
      Says ('\\' :: 'u' :: (digits ++ '\\' :: 'u' :: (digits' ++ t))) (c :: s)

/-- A string literal and its text. -/
def Literal (out text : List Char) : Prop := ∃ t, out = '"' :: t ∧ Says t text

variable {c e : Char} {t s : List Char}

theorem says_plain (h : Says (c :: t) s) (hslash : c ≠ '\\') (hquote : c ≠ '"') :
    0x20 ≤ c.toNat ∧ ∃ s', s = c :: s' ∧ Says t s' := by
  cases h with
  | close => exact absurd rfl hquote
  | plain hge _ _ hs => exact ⟨hge, _, rfl, hs⟩
  | escape => exact absurd rfl hslash
  | unicode => exact absurd rfl hslash
  | pair => exact absurd rfl hslash

/-- After a backslash there is an escape or a unit. -/
theorem says_escape (h : Says ('\\' :: e :: t) s) (hu : e ≠ 'u') :
    ∃ c s', (e, c) ∈ escapes ∧ s = c :: s' ∧ Says t s' := by
  cases h with
  | plain _ _ hslash => exact absurd rfl hslash
  | escape he hs => exact ⟨_, _, he, rfl, hs⟩
  | unicode => exact absurd rfl hu
  | pair => exact absurd rfl hu

end Json

/-! ## Texts of HTML -/

namespace Html

def entities : List (List Char × Char) :=
  [(['q', 'u', 'o', 't'], '"'), (['a', 'm', 'p'], '&'), (['a', 'p', 'o', 's'], '\x27'),
    (['l', 't'], '<'), (['g', 't'], '>')]

/-- What is shown of characters that are text, line breaks and entities. -/
inductive Shows : List Char → List Char → Prop where
  | nil : Shows [] []
  | plain {c : Char} {t s : List Char} : c ∉ ['<', '>', '&', '"', '\x27'] → Shows t s →
      Shows (c :: t) (c :: s)
  | br {t s : List Char} : Shows t s → Shows ('<' :: 'b' :: 'r' :: '>' :: t) ('\n' :: s)
  | entity {name : List Char} {c : Char} {t s : List Char} : (name, c) ∈ entities → Shows t s →
      Shows ('&' :: (name ++ ';' :: t)) (c :: s)
  | number {digits : List Char} {c : Char} {t s : List Char} : hexNumber? digits = some c.toNat →
      Shows t s → Shows ('&' :: '#' :: 'x' :: (digits ++ ';' :: t)) (c :: s)

end Html

end MessengerClient
