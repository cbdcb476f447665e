import MessengerClient.Lib.Bytes
import Mathlib.Tactic.Ring

/-!
# MessengerClient.Lib.DataStream

A binary stream of big-endian integers and counted byte arrays.  A read past the end
gives the zero value and leaves the status behind, so a reader may go on and look at
the status once, at its end.

`Reads m bytes a` says that `m` takes exactly `bytes` off the front and gives `a`;
`Needs m n` says that `m` cannot end well with fewer than `n` bytes.  Both are closed
under sequencing, so a reader is checked against a writer field by field.
-/

namespace MessengerClient

/-- What is left to read, and whether no read went past the end so far. -/
structure DataStream where
  rest : Bytes
  ok : Bool := true
deriving DecidableEq, Repr

abbrev Get (α : Type) : Type := StateM DataStream α

theorem nil_length_lt : ([] : Bytes).length < 0xFFFFFFFF := by decide

/-- A byte array that can be counted: the largest count stands for a null array. -/
structure QByteArray where
  bytes : Bytes := []
  length_lt : bytes.length < 0xFFFFFFFF := by first | exact nil_length_lt | decide
deriving DecidableEq, Repr

/-- An array of these bytes, if they can be counted. -/
def QByteArray.ofBytes (b : Bytes) : QByteArray :=
  if h : b.length < 0xFFFFFFFF then ⟨b, h⟩ else {}

@[simp] theorem QByteArray.ofBytes_bytes (b : QByteArray) : ofBytes b.bytes = b :=
  dif_pos b.length_lt

/-! ## Big-endian numbers -/

/-- The lowest `n` bytes of a number, highest first. -/
def beBytes : Nat → Nat → Bytes
  | 0, _ => []
  | n + 1, x => UInt8.ofNat (x / 256 ^ n) :: beBytes n x

def ofBeBytes : Bytes → Nat
  | [] => 0
  | b :: bs => b.toNat * 256 ^ bs.length + ofBeBytes bs

@[simp] theorem length_beBytes (n x : Nat) : (beBytes n x).length = n := by
  induction n with
  | zero => rfl
  | succ n ih => rw [beBytes, List.length_cons, ih]

theorem ofBeBytes_beBytes (n x : Nat) : ofBeBytes (beBytes n x) = x % 256 ^ n := by
  induction n with
  | zero => simp [beBytes, ofBeBytes, Nat.mod_one]
  | succ n ih =>
      rw [beBytes, ofBeBytes, ih, length_beBytes, UInt8.toNat_ofNat', Nat.pow_succ]
      calc
        x / 256 ^ n % 256 * 256 ^ n + x % 256 ^ n
            = x % 256 ^ n + 256 ^ n * (x / 256 ^ n % 256) := by ring
        _ = x % (256 ^ n * 256) := (Nat.mod_mul).symm

/-! ## Reading -/

namespace Get

/-- The next `n` bytes; too few of them are all taken, to no avail. -/
def block (n : Nat) : Get (Option { b : Bytes // b.length = n }) := fun s =>
  if h : n ≤ s.rest.length then
    (some ⟨s.rest.take n, List.length_take_of_le h⟩, { s with rest := s.rest.drop n })
  else
    (none, { rest := [], ok := false })

/-- The next `n` bytes as a number. -/
def number (n : Nat) : Get Nat := (fun b => b.elim 0 fun b => ofBeBytes b.1) <$> block n

def uint8 : Get UInt8 := UInt8.ofNat <$> number 1
def uint16 : Get UInt16 := UInt16.ofNat <$> number 2
def uint32 : Get UInt32 := UInt32.ofNat <$> number 4
def uint64 : Get UInt64 := UInt64.ofNat <$> number 8
def int32 : Get Int32 := UInt32.toInt32 <$> uint32
def int64 : Get Int64 := UInt64.toInt64 <$> uint64

/-- The counted array that was read, and nothing when it was cut off. -/
def counted {n : UInt32} (hn : n ≠ 0xFFFFFFFF) (b : Option { b : Bytes // b.length = n.toNat }) :
    QByteArray :=
  match b with
  | none => {}
  | some b => ⟨b.1, by
      have h : n.toNat ≠ (0xFFFFFFFF : UInt32).toNat := fun h => hn (UInt32.toNat_inj.mp h)
      have := n.toNat_lt
      rw [b.2]
      simp only [UInt32.reduceToNat] at h
      omega⟩

def byteArray : Get QByteArray := do
  let length ← uint32
  if h : length = 0xFFFFFFFF then
    return {}
  else
    counted h <$> block length.toNat

/-- The next `n` bytes, and nothing when they were cut off. -/
def rawData (n : Nat) : Get QByteArray :=
  (fun b => b.elim {} fun b => QByteArray.ofBytes b.1) <$> block n

def status : Get Bool := fun s => (s.ok, s)

def atEnd : Get Bool := fun s => (s.rest.isEmpty, s)

/-- A field that stands in the data only under a condition. -/
def gated {α : Type} (c : Prop) [Decidable c] (m : Get α) (otherwise : α) : Get α :=
  if c then m else pure otherwise

/-- What was read, if no read went past the end. -/
def checked {α : Type} (m : Get (Option α)) : Get (Option α) := do
  let a ← m
  let ok ← status
  return if ok then a else none

/-- Read `n` values one after another into a result, up to the first that is refused; and
whether none was. -/
def repeated {α σ : Type} (m : Get (Option α)) (f : σ → α → σ) : Nat → σ → Get (σ × Bool)
  | 0, s => pure (s, true)
  | n + 1, s => do
      match ← m with
      | none => return (s, false)
      | some a => repeated m f n (f s a)

theorem bind_apply {α β : Type} (m : Get α) (f : α → Get β) (s : DataStream) :
    (m >>= f) s = f (m s).1 (m s).2 := rfl

theorem pure_apply {α : Type} (a : α) (s : DataStream) : (pure a : Get α) s = (a, s) := rfl

/-- What every value that is read keeps, is kept. -/
theorem repeated_invariant {α σ : Type} {m : Get (Option α)} {f : σ → α → σ} (P : σ → Prop)
    (hstep : ∀ s a, P s → P (f s a)) (n : Nat) {s : σ} (hs : P s) (stream : DataStream) :
    P (repeated m f n s stream).1.1 := by
  induction n generalizing s stream with
  | zero => exact hs
  | succ n ih =>
      rw [repeated, bind_apply]
      cases (m stream).1 with
      | none => exact hs
      | some a => exact ih (hstep s a hs) _

/-- What every value that is read adds at most one to, is bounded by their number. -/
theorem repeated_measure {α σ : Type} {m : Get (Option α)} {f : σ → α → σ} (μ : σ → Nat)
    (hstep : ∀ s a, μ (f s a) ≤ μ s + 1) (n : Nat) (s : σ) (stream : DataStream) :
    μ (repeated m f n s stream).1.1 ≤ μ s + n := by
  induction n generalizing s stream with
  | zero => exact Nat.le_refl _
  | succ n ih =>
      rw [repeated, bind_apply]
      cases (m stream).1 with
      | none => exact Nat.le_add_right _ _
      | some a =>
          calc
            μ (repeated m f n (f s a) (m stream).2).1.1 ≤ μ (f s a) + n := ih _ _
            _ ≤ μ s + (n + 1) := by
              have := hstep s a
              omega

/-- What a reader gives on a whole array. -/
def run {α : Type} (m : Get α) (bytes : Bytes) : α := (m { rest := bytes }).1

end Get

/-! ## Writing -/

def putUInt8 (x : UInt8) : Bytes := beBytes 1 x.toNat
def putUInt16 (x : UInt16) : Bytes := beBytes 2 x.toNat
def putUInt32 (x : UInt32) : Bytes := beBytes 4 x.toNat
def putUInt64 (x : UInt64) : Bytes := beBytes 8 x.toNat
def putInt32 (x : Int32) : Bytes := putUInt32 x.toUInt32
def putInt64 (x : Int64) : Bytes := putUInt64 x.toUInt64
def putByteArray (b : QByteArray) : Bytes := beBytes 4 b.bytes.length ++ b.bytes

@[simp] theorem length_putUInt8 (x : UInt8) : (putUInt8 x).length = 1 := length_beBytes _ _
@[simp] theorem length_putUInt16 (x : UInt16) : (putUInt16 x).length = 2 := length_beBytes _ _
@[simp] theorem length_putUInt32 (x : UInt32) : (putUInt32 x).length = 4 := length_beBytes _ _
@[simp] theorem length_putUInt64 (x : UInt64) : (putUInt64 x).length = 8 := length_beBytes _ _
@[simp] theorem length_putInt32 (x : Int32) : (putInt32 x).length = 4 := length_beBytes _ _
@[simp] theorem length_putInt64 (x : Int64) : (putInt64 x).length = 8 := length_beBytes _ _

@[simp] theorem length_putByteArray (b : QByteArray) :
    (putByteArray b).length = 4 + b.bytes.length := by
  rw [putByteArray, List.length_append, length_beBytes]

/-! ## Readers and what they take -/

/-- `m` takes exactly `bytes` off the front of any stream in good state and gives `a`. -/
def Reads {α : Type} (m : Get α) (bytes : Bytes) (a : α) : Prop :=
  ∀ rest, m { rest := bytes ++ rest } = (a, { rest := rest })

/-- `m` leaves a good status only after taking at least `n` bytes. -/
def Needs {α : Type} (m : Get α) (n : Nat) : Prop :=
  ∀ s, (m s).2.ok → s.ok ∧ (m s).2.rest.length + n ≤ s.rest.length

namespace Reads

variable {α β : Type} {m : Get α} {f : α → Get β} {b b' : Bytes} {x : α} {y : β}

theorem run (h : Reads m b x) (rest : Bytes) : m.run (b ++ rest) = x := by
  rw [Get.run, h rest]

theorem pure (x : α) : Reads (Pure.pure x) [] x := fun _ => rfl

/-- **Sequencing.**  The bytes of the parts follow each other. -/
theorem bind (hm : Reads m b x) (hf : Reads (f x) b' y) : Reads (m >>= f) (b ++ b') y := by
  intro rest
  have h : (m >>= f) { rest := b ++ b' ++ rest }
      = f (m { rest := b ++ (b' ++ rest) }).1 (m { rest := b ++ (b' ++ rest) }).2 := by
    rw [List.append_assoc]
    rfl
  rw [h, hm]
  exact hf rest

/-- What follows a reader goes on with what it leaves. -/
theorem andThen (hm : Reads m b x) (f : α → Get β) (rest : Bytes) :
    (m >>= f) { rest := b ++ rest } = f x { rest := rest } := by
  rw [Get.bind_apply, hm]

theorem map (g : α → β) (hm : Reads m b x) : Reads (g <$> m) b (g x) := by
  intro rest
  have h : (g <$> m) { rest := b ++ rest }
      = (g (m { rest := b ++ rest }).1, (m { rest := b ++ rest }).2) := rfl
  rw [h, hm]

/-- The last field. -/
theorem ret (g : α → β) (hm : Reads m b x) : Reads (m >>= fun a => Pure.pure (g a)) b (g x) := by
  have := hm.bind (f := fun a => Pure.pure (g a)) (pure (g x))
  rwa [List.append_nil] at this

theorem block {n : Nat} {b : Bytes} (h : b.length = n) :
    Reads (Get.block n) b (some ⟨b, h⟩) := by
  subst h
  intro rest
  simp [Get.block]

theorem number {n x : Nat} (h : x < 256 ^ n) : Reads (Get.number n) (beBytes n x) x := by
  have hb := (block (length_beBytes n x)).map fun b => b.elim 0 fun b => ofBeBytes b.1
  simp only [Option.elim_some, ofBeBytes_beBytes, Nat.mod_eq_of_lt h] at hb
  exact hb

theorem uint8 (x : UInt8) : Reads Get.uint8 (putUInt8 x) x := by
  have := (number (n := 1) x.toNat_lt).map UInt8.ofNat
  rwa [UInt8.ofNat_toNat] at this

theorem uint16 (x : UInt16) : Reads Get.uint16 (putUInt16 x) x := by
  have := (number (n := 2) x.toNat_lt).map UInt16.ofNat
  rwa [UInt16.ofNat_toNat] at this

theorem uint32 (x : UInt32) : Reads Get.uint32 (putUInt32 x) x := by
  have := (number (n := 4) x.toNat_lt).map UInt32.ofNat
  rwa [UInt32.ofNat_toNat] at this

theorem uint64 (x : UInt64) : Reads Get.uint64 (putUInt64 x) x := by
  have := (number (n := 8) x.toNat_lt).map UInt64.ofNat
  rwa [UInt64.ofNat_toNat] at this

theorem int32 (x : Int32) : Reads Get.int32 (putInt32 x) x := (uint32 x.toUInt32).map UInt32.toInt32

theorem int64 (x : Int64) : Reads Get.int64 (putInt64 x) x := (uint64 x.toUInt64).map UInt64.toInt64

theorem byteArray (b : QByteArray) : Reads Get.byteArray (putByteArray b) b := by
  have hlt := b.length_lt
  have hn : (UInt32.ofNat b.bytes.length).toNat = b.bytes.length :=
    UInt32.toNat_ofNat_of_lt' (Nat.lt_trans hlt (by decide))
  have hne : UInt32.ofNat b.bytes.length ≠ 0xFFFFFFFF := by
    intro h
    rw [h] at hn
    exact absurd hn.symm (Nat.ne_of_lt hlt)
  have hcount := uint32 (UInt32.ofNat b.bytes.length)
  rw [putUInt32, hn] at hcount
  refine hcount.bind ?_
  rw [dif_neg hne]
  exact (block hn.symm).map (Get.counted hne)

theorem gated {c : Prop} [Decidable c] (h : c) (hm : Reads m b x) (otherwise : α) :
    Reads (Get.gated c m otherwise) b x := by
  rw [Get.gated, if_pos h]
  exact hm

theorem checked {m : Get (Option α)} {a : Option α} (hm : Reads m b a) :
    Reads m.checked b a := by
  intro rest
  have h : m.checked { rest := b ++ rest }
      = (if (m { rest := b ++ rest }).2.ok then (m { rest := b ++ rest }).1 else none,
        (m { rest := b ++ rest }).2) := rfl
  rw [h, hm]
  rfl

theorem rawData (b : QByteArray) : Reads (Get.rawData b.bytes.length) b.bytes b := by
  have h := (block (b := b.bytes) rfl).map fun b => b.elim {} fun b => QByteArray.ofBytes b.1
  rwa [Option.elim_some, QByteArray.ofBytes_bytes] at h

theorem status : Reads Get.status [] true := fun _ => rfl

/-- A reader that is at the end of a part of what was written is not at the end of all. -/
theorem atEnd_false {f : Bool → Get β} (hb : b ≠ []) (hf : Reads (f false) b y) :
    Reads (Get.atEnd >>= f) b y := by
  intro rest
  have h : (b ++ rest).isEmpty = false := by
    rw [List.isEmpty_eq_false_iff]
    exact List.append_ne_nil_of_left_ne_nil hb rest
  rw [Get.bind_apply, Get.atEnd, h]
  exact hf rest

section Repeated

variable {σ : Type} {m : Get (Option α)} {put : α → Bytes} {good : α → Prop}

/-- **Repetition.**  What was written one after another is read one after another. -/
theorem repeated (f : σ → α → σ) (as : List α) (s : σ)
    (h : ∀ a ∈ as, Reads m (put a) (some a)) :
    Reads (Get.repeated m f as.length s) (as.flatMap put) (as.foldl f s, true) := by
  induction as generalizing s with
  | nil => exact pure _
  | cons a as ih =>
      rw [List.flatMap_cons, List.foldl_cons, List.length_cons, Get.repeated]
      exact (h a List.mem_cons_self).bind
        (ih (f s a) fun b hb => h b (List.mem_cons_of_mem a hb))

/-- A value that is refused ends the repetition. -/
theorem repeated_eq_true_iff (f : σ → α → σ) (as : List α) (s : σ) (rest : Bytes)
    (hgood : ∀ a, good a → Reads m (put a) (some a))
    (hbad : ∀ a, ¬ good a → ∀ rest, (m { rest := put a ++ rest }).1 = none) :
    (Get.repeated m f as.length s { rest := as.flatMap put ++ rest }).1.2 = true ↔
      ∀ a ∈ as, good a := by
  induction as generalizing s with
  | nil => simp [Get.repeated, Get.pure_apply]
  | cons a as ih =>
      rw [List.flatMap_cons, List.length_cons, Get.repeated, List.append_assoc,
        Get.bind_apply]
      by_cases ha : good a
      · rw [hgood a ha, ih, List.forall_mem_cons]
        exact ⟨fun h => ⟨ha, h⟩, And.right⟩
      · rw [hbad a ha, List.forall_mem_cons]
        constructor
        · intro h
          cases h
        · intro h
          exact absurd h.1 ha

end Repeated

end Reads

/-- A checked reader gives a value only on a good status. -/
theorem Get.of_checked {α : Type} {m : Get (Option α)} {s : DataStream} {a : α}
    (h : (m.checked s).1 = some a) : (m s).1 = some a ∧ (m s).2.ok = true := by
  have hdef : (m.checked s).1 = if (m s).2.ok then (m s).1 else none := rfl
  rw [hdef] at h
  split at h
  · next hok => exact ⟨h, hok⟩
  · cases h

namespace Needs

variable {α β : Type} {m : Get α} {f : α → Get β} {k n : Nat}

theorem mono (h : Needs m n) (hk : k ≤ n) : Needs m k := by
  intro s hs
  have := h s hs
  exact ⟨this.1, by omega⟩

theorem pure (x : α) : Needs (Pure.pure x) 0 := fun _ hs => ⟨hs, Nat.le_refl _⟩

theorem bind (hm : Needs m n) (hf : ∀ x, Needs (f x) k) : Needs (m >>= f) (n + k) := by
  intro s hs
  have h2 := hf (m s).1 (m s).2 hs
  have h1 := hm s h2.1
  refine ⟨h1.1, ?_⟩
  have h : ((m >>= f) s).2.rest.length + k ≤ (m s).2.rest.length := h2.2
  omega

theorem map (g : α → β) (hm : Needs m n) : Needs (g <$> m) n := hm

theorem block (n : Nat) : Needs (Get.block n) n := by
  intro s
  unfold Get.block
  split
  · intro hs
    refine ⟨hs, ?_⟩
    simp only [List.length_drop]
    omega
  · intro hs
    cases hs

theorem number (n : Nat) : Needs (Get.number n) n := (block n).map _

theorem uint8 : Needs Get.uint8 1 := (number 1).map _
theorem uint16 : Needs Get.uint16 2 := (number 2).map _
theorem uint32 : Needs Get.uint32 4 := (number 4).map _
theorem uint64 : Needs Get.uint64 8 := (number 8).map _
theorem int32 : Needs Get.int32 4 := uint32.map _
theorem int64 : Needs Get.int64 8 := uint64.map _

theorem byteArray : Needs Get.byteArray 4 := by
  refine uint32.bind (k := 0) fun length => ?_
  split
  · exact pure _
  · exact ((block length.toNat).map _).mono (Nat.zero_le _)

/-- A reader does not end well on too few bytes. -/
theorem fails (h : Needs m n) {s : DataStream} (hs : s.rest.length < n) : (m s).2.ok = false := by
  cases hok : (m s).2.ok with
  | false => rfl
  | true => have := (h s hok).2; omega

end Needs

end MessengerClient
