import MessengerClient.Lib.Bytes

/-!
# MessengerClient.Lib.Json

The grammar of JSON texts, over bytes, and the positions of a writer inside a text:
what is written while some objects and arrays are still open, either before a value
(`Hole`) or between two items (`Between`).  A writer that only makes the moves of this
file has a value when nothing is open any more.

Bytes over `0x7f` are taken in strings as they are.
-/

namespace MessengerClient

/-- The bytes of a text of ASCII characters. -/
def ascii (text : String) : Bytes :=
  text.toList.map fun ch => UInt8.ofNat ch.toNat

namespace Json

/-! ## Strings and numbers -/

def isSpace (ch : UInt8) : Bool :=
  ch = 0x20 ∨ ch = 0x0a ∨ ch = 0x0d ∨ ch = 0x09

def isDigit (ch : UInt8) : Bool :=
  0x30 ≤ ch ∧ ch ≤ 0x39

def isHex (ch : UInt8) : Bool :=
  isDigit ch ∨ 0x41 ≤ ch ∧ ch ≤ 0x46 ∨ 0x61 ≤ ch ∧ ch ≤ 0x66

def Space (t : Bytes) : Prop := ∀ ch ∈ t, isSpace ch

theorem space_of_all {t : Bytes} (h : t.all isSpace = true) : Space t := List.all_eq_true.mp h

/-- What stands between the quotes of a string. -/
inductive Chars : Bytes → Prop where
  | nil : Chars []
  | plain {ch : UInt8} {t : Bytes} : 0x20 ≤ ch → ch ≠ 0x22 → ch ≠ 0x5c → Chars t → Chars (ch :: t)
  | escape {ch : UInt8} {t : Bytes} : ch ∈ ascii "\"\\/bfnrt" → Chars t → Chars (0x5c :: ch :: t)
  | unicode {a b c d : UInt8} {t : Bytes} : isHex a → isHex b → isHex c → isHex d → Chars t →
      Chars (0x5c :: 0x75 :: a :: b :: c :: d :: t)

/-- A string with its quotes. -/
def IsString (t : Bytes) : Prop := ∃ s, Chars s ∧ t = 0x22 :: (s ++ [0x22])

def Digits (t : Bytes) : Prop := t ≠ [] ∧ ∀ ch ∈ t, isDigit ch

/-- An integer part has no leading zero. -/
def IntPart (t : Bytes) : Prop := t = ascii "0" ∨ Digits t ∧ t.head? ≠ some 0x30

def Fraction (t : Bytes) : Prop := t = [] ∨ ∃ s, Digits s ∧ t = 0x2e :: s

def Exponent (t : Bytes) : Prop :=
  t = [] ∨ ∃ e sign s, e ∈ ascii "eE" ∧ sign ∈ [[], ascii "+", ascii "-"] ∧ Digits s ∧
    t = e :: (sign ++ s)

def IsNumber (t : Bytes) : Prop :=
  ∃ sign int frac exp, sign ∈ [[], ascii "-"] ∧ IntPart int ∧ Fraction frac ∧ Exponent exp ∧
    t = sign ++ int ++ frac ++ exp

/-! ## Values -/

inductive Container where
  | object
  | array
deriving DecidableEq, Repr

namespace Container

def opening : Container → UInt8
  | .object => 0x7b
  | .array => 0x5b

def closing : Container → UInt8
  | .object => 0x7d
  | .array => 0x5d

end Container

/-- What stands between an item and the one before it; `had` is that there is one. -/
def Separator (had : Bool) (t : Bytes) : Prop :=
  ∃ w w', Space w ∧ Space w' ∧ t = if had then w ++ 0x2c :: w' else w

/-- The key and the colon of an item of an object; an item of an array has none. -/
def Label : Container → Bytes → Prop
  | .object, t => ∃ key w w', IsString key ∧ Space w ∧ Space w' ∧ t = key ++ w ++ 0x3a :: w'
  | .array, t => t = []

/-- All of an item up to its value. -/
def Start (c : Container) (had : Bool) (t : Bytes) : Prop :=
  ∃ s l, Separator had s ∧ Label c l ∧ t = s ++ l

mutual

/-- **The texts that are one JSON value.** -/
inductive Value : Bytes → Prop where
  | null : Value (ascii "null")
  | bool (b : Bool) : Value (ascii (if b then "true" else "false"))
  | number {t : Bytes} : IsNumber t → Value t
  | string {t : Bytes} : IsString t → Value t
  | container {c : Container} {had : Bool} {t w : Bytes} : Items c had t → Space w →
      Value (c.opening :: (t ++ w ++ [c.closing]))

/-- The items after an opening bracket; `had` is that there are some. -/
inductive Items : Container → Bool → Bytes → Prop where
  | nil (c : Container) : Items c false []
  | snoc {c : Container} {had : Bool} {t s v : Bytes} : Items c had t → Start c had s → Value v →
      Items c true (t ++ s ++ v)

end

/-- A whole text: one value with spaces around it. -/
def IsText (t : Bytes) : Prop := ∃ w v w', Space w ∧ Value v ∧ Space w' ∧ t = w ++ v ++ w'

theorem Space.nil : Space [] := by simp [Space]

theorem Space.append {w w' : Bytes} (h : Space w) (h' : Space w') : Space (w ++ w') := by
  intro ch hch
  cases List.mem_append.mp hch with
  | inl hmem => exact h ch hmem
  | inr hmem => exact h' ch hmem

theorem space_replicate (n : Nat) : Space (List.replicate n 0x20) := by
  intro ch hch
  rw [List.eq_of_mem_replicate hch]
  rfl

theorem Chars.append {s t : Bytes} (hs : Chars s) (ht : Chars t) : Chars (s ++ t) := by
  induction hs with
  | nil => exact ht
  | plain hge hquote hslash _ ih => exact Chars.plain hge hquote hslash ih
  | escape hch _ ih => exact Chars.escape hch ih
  | unicode ha hb hc hd _ ih => exact Chars.unicode ha hb hc hd ih

theorem Value.isText {v : Bytes} (h : Value v) : IsText v :=
  ⟨[], v, [], Space.nil, h, Space.nil, by simp⟩

/-- A value is not empty. -/
theorem Value.ne_nil {v : Bytes} (h : Value v) : v ≠ [] := by
  cases h with
  | null => decide
  | bool b => cases b <;> decide
  | number hn =>
    obtain ⟨sign, int, frac, exp, -, hint, -, -, rfl⟩ := hn
    have hpart : int ≠ [] := by
      cases hint with
      | inl h0 => rw [h0]; decide
      | inr hd => exact hd.1.1
    simp [hpart]
  | string hs =>
    obtain ⟨s, -, rfl⟩ := hs
    simp
  | container => simp

/-! ## Where a text ends -/

/-- The last letters of texts. -/
def endsText (ch : UInt8) : Bool :=
  isSpace ch || isDigit ch || ch ∈ ascii "le\"]\x7d"

theorem Digits.last {t : Bytes} (h : Digits t) : ∃ ch, t.getLast? = some ch ∧ isDigit ch = true :=
  ⟨t.getLast h.1, List.getLast?_eq_some_getLast h.1, h.2 _ (List.getLast_mem h.1)⟩

theorem endsText_of_isDigit {ch : UInt8} (h : isDigit ch = true) : endsText ch = true := by
  simp [endsText, h]

/-- What a number ends in is a digit. -/
theorem IsNumber.last {t : Bytes} (h : IsNumber t) :
    ∃ ch, t.getLast? = some ch ∧ isDigit ch = true := by
  obtain ⟨sign, int, frac, exp, -, hint, hfrac, hexp, rfl⟩ := h
  have hpart : ∃ ch, int.getLast? = some ch ∧ isDigit ch = true := by
    obtain rfl | ⟨hdigits, -⟩ := hint
    · exact ⟨0x30, rfl, rfl⟩
    · exact hdigits.last
  obtain rfl | ⟨e, mark, digits, -, -, hdigits, rfl⟩ := hexp
  · obtain rfl | ⟨digits, hdigits, rfl⟩ := hfrac
    · obtain ⟨ch, hlast, hdigit⟩ := hpart
      exact ⟨ch, by simp [List.getLast?_append, hlast], hdigit⟩
    · obtain ⟨ch, hlast, hdigit⟩ := hdigits.last
      exact ⟨ch, by simp [List.getLast?_append, List.getLast?_cons, hlast], hdigit⟩
  · obtain ⟨ch, hlast, hdigit⟩ := hdigits.last
    exact ⟨ch, by simp [List.getLast?_append, List.getLast?_cons, hlast], hdigit⟩

theorem Value.last {v : Bytes} (h : Value v) :
    ∃ ch, v.getLast? = some ch ∧ endsText ch = true := by
  cases h with
  | null => exact ⟨0x6c, rfl, rfl⟩
  | bool b => exact ⟨0x65, by cases b <;> rfl, rfl⟩
  | number hn =>
    obtain ⟨ch, hlast, hdigit⟩ := hn.last
    exact ⟨ch, hlast, endsText_of_isDigit hdigit⟩
  | string hs =>
    obtain ⟨s, -, rfl⟩ := hs
    exact ⟨0x22, by simp [List.getLast?_cons], rfl⟩
  | @container c =>
    exact ⟨c.closing, by simp [List.getLast?_cons], by cases c <;> rfl⟩

/-- **A text of JSON ends** in a letter of few. -/
theorem IsText.last {t : Bytes} (h : IsText t) :
    ∃ ch, t.getLast? = some ch ∧ endsText ch = true := by
  obtain ⟨w, v, w', -, hv, hw', rfl⟩ := h
  by_cases hnil : w' = []
  · obtain ⟨ch, hlast, hends⟩ := hv.last
    exact ⟨ch, by simp [hnil, List.getLast?_append, hlast], hends⟩
  · have hspace := hw' _ (List.getLast_mem hnil)
    refine ⟨w'.getLast hnil, ?_, by simp [endsText, hspace]⟩
    simp [List.getLast?_append, List.getLast?_eq_some_getLast hnil]

/-! ## Members of objects -/

/-- One more member behind others. -/
theorem Items.member {had : Bool} {t key v : Bytes} (h : Items .object had t)
    (hkey : IsString key) (hv : Value v) :
    Items .object true (t ++ ((if had then [0x2c] else []) ++ (key ++ [0x3a])) ++ v) := by
  refine Items.snoc h ⟨_, _, ⟨[], [], Space.nil, Space.nil, rfl⟩, ⟨key, [], [], hkey, Space.nil,
    Space.nil, rfl⟩, ?_⟩ hv
  cases had <;> simp

/-! ## Open texts -/

/-- A text that waits for a value inside the open containers, the innermost first. -/
inductive Hole : List Container → Bytes → Prop where
  | root : Hole [] []
  | item {c : Container} {cs : List Container} {had : Bool} {t items s : Bytes} :
      Hole cs t → Items c had items → Start c had s → Hole (c :: cs) (t ++ c.opening :: items ++ s)

/-- A text that stands between two items of the innermost open container. -/
def Inside (c : Container) (cs : List Container) (had : Bool) (t : Bytes) : Prop :=
  ∃ front items, Hole cs front ∧ Items c had items ∧ t = front ++ c.opening :: items

/-- The same for any number of open containers: with none, the text is whole. -/
def Between : List Container → Bool → Bytes → Prop
  | [], _, t => Value t
  | c :: cs, had, t => Inside c cs had t

variable {c : Container} {cs : List Container} {had : Bool} {t s v w : Bytes}

theorem Hole.opening (h : Hole cs t) (c : Container) : Between (c :: cs) false (t ++ [c.opening]) :=
  ⟨t, [], h, Items.nil c, rfl⟩

theorem Between.start (h : Between (c :: cs) had t) (hs : Start c had s) :
    Hole (c :: cs) (t ++ s) := by
  obtain ⟨front, items, hfront, hitems, rfl⟩ := h
  exact Hole.item hfront hitems hs

theorem Hole.value (h : Hole cs t) (hv : Value v) : Between cs true (t ++ v) := by
  cases h with
  | root => exact hv
  | @item _ _ _ front items s hfront hitems hs =>
    refine ⟨front, items ++ s ++ v, hfront, Items.snoc hitems hs hv, ?_⟩
    simp

/-- The whole of a container that closes is a value where it was opened. -/
theorem Between.close (h : Between (c :: cs) had t) (hw : Space w) :
    Between cs true (t ++ (w ++ [c.closing])) := by
  obtain ⟨front, items, hfront, hitems, rfl⟩ := h
  have hvalue := hfront.value (Value.container hitems hw)
  simpa using hvalue

end Json

end MessengerClient
