import MessengerClient.Lib.Utf8
import Mathlib

/-!
# MessengerClient.Lib.Sextets

Bytes in groups of six bits, the digits of base64: three bytes are four digits, and a decoder
keeps the bits that do not fill a byte until the next digit comes.  A decoder that passes over
some digits (`filter`) is two bits early or late for each of them, and in step again after four.
-/

namespace MessengerClient

namespace Sextets

/-- The digits of bytes; the last ones are filled up with zeros. -/
def ofBytes : Bytes → List Nat
  | a :: b :: c :: rest =>
      a.toNat / 4 :: (a.toNat % 4 * 16 + b.toNat / 16) :: (b.toNat % 16 * 4 + c.toNat / 64) ::
        c.toNat % 64 :: ofBytes rest
  | [a, b] => [a.toNat / 4, a.toNat % 4 * 16 + b.toNat / 16, b.toNat % 16 * 4]
  | [a] => [a.toNat / 4, a.toNat % 4 * 16]
  | [] => []

/-- The bytes of digits, after `nbits` bits that are left in `buf`. -/
def bytesFrom : List Nat → Nat → Nat → Bytes
  | [], _, _ => []
  | d :: ds, buf, nbits =>
      if nbits + 6 ≥ 8 then
        UInt8.ofNat ((buf * 64 + d) / 2 ^ (nbits - 2)) ::
          bytesFrom ds ((buf * 64 + d) % 2 ^ (nbits - 2)) (nbits - 2)
      else
        bytesFrom ds (buf * 64 + d) (nbits + 6)

def toBytes (ds : List Nat) : Bytes := bytesFrom ds 0 0

variable {ds ds' : List Nat} {a b : Bytes} {buf nbits : Nat}

/-! ## Groups of three -/

/-- An induction over groups of three bytes. -/
theorem threes {P : Bytes → Prop} (nil : P []) (one : ∀ a, P [a]) (two : ∀ a b, P [a, b])
    (three : ∀ a b c rest, P rest → P (a :: b :: c :: rest)) (bytes : Bytes) : P bytes := by
  induction bytes using ofBytes.induct with
  | case1 a b c rest ih => exact three a b c rest ih
  | case2 a b => exact two a b
  | case3 a => exact one a
  | case4 => exact nil

theorem ofBytes_append (h : a.length % 3 = 0) : ofBytes (a ++ b) = ofBytes a ++ ofBytes b := by
  induction a using threes with
  | nil => rfl
  | one => simp at h
  | two => simp at h
  | three x y z rest ih =>
      have hrest : rest.length % 3 = 0 := by
        simp only [List.length_cons] at h
        omega
      simp only [List.cons_append, ofBytes, ih hrest]

theorem length_ofBytes (h : a.length % 3 = 0) : (ofBytes a).length % 4 = 0 := by
  induction a using threes with
  | nil => rfl
  | one => simp at h
  | two => simp at h
  | three x y z rest ih =>
      have hrest : rest.length % 3 = 0 := by
        simp only [List.length_cons] at h
        omega
      have hlength := ih hrest
      simp only [ofBytes, List.length_cons]
      omega

theorem lt_of_mem_ofBytes {d : Nat} (h : d ∈ ofBytes a) : d < 64 := by
  induction a using threes with
  | nil => simp [ofBytes] at h
  | one x =>
      have hx := x.toNat_lt
      simp only [ofBytes, List.mem_cons, List.not_mem_nil, or_false] at h
      omega
  | two x y =>
      have hx := x.toNat_lt
      have hy := y.toNat_lt
      simp only [ofBytes, List.mem_cons, List.not_mem_nil, or_false] at h
      omega
  | three x y z rest ih =>
      have hx := x.toNat_lt
      have hy := y.toNat_lt
      have hz := z.toNat_lt
      simp only [ofBytes, List.mem_cons] at h
      obtain h | h | h | h | h := h
      · omega
      · omega
      · omega
      · omega
      · exact ih h

/-! ## Decoding in parts -/

/-- Where a decoder stands after some digits depends on their number. -/
theorem exists_bytesFrom_append (hnbits : nbits < 8) (hbuf : buf < 2 ^ nbits)
    (hds : ∀ d ∈ ds, d < 64) :
    ∃ buf', buf' < 2 ^ ((nbits + 6 * ds.length) % 8) ∧ ∀ ds',
      bytesFrom (ds ++ ds') buf nbits =
        bytesFrom ds buf nbits ++ bytesFrom ds' buf' ((nbits + 6 * ds.length) % 8) := by
  induction ds generalizing buf nbits with
  | nil =>
      refine ⟨buf, ?_, fun ds' => ?_⟩
      · rwa [List.length_nil, Nat.mul_zero, Nat.add_zero, Nat.mod_eq_of_lt hnbits]
      · rw [List.length_nil, Nat.mul_zero, Nat.add_zero, Nat.mod_eq_of_lt hnbits]
        rfl
  | cons d ds ih =>
      obtain ⟨hd, hrest⟩ := List.forall_mem_cons.mp hds
      simp only [List.cons_append, bytesFrom, List.length_cons]
      by_cases hfull : nbits + 6 ≥ 8
      · have hlength : (nbits + 6 * (ds.length + 1)) % 8 = (nbits - 2 + 6 * ds.length) % 8 := by
          omega
        obtain ⟨buf', hbuf', happend⟩ := @ih ((buf * 64 + d) % 2 ^ (nbits - 2)) (nbits - 2)
          (by omega) (Nat.mod_lt _ (Nat.two_pow_pos _)) hrest
        rw [hlength]
        refine ⟨buf', hbuf', fun ds' => ?_⟩
        rw [if_pos hfull, if_pos hfull, happend, List.cons_append]
      · have hlength : (nbits + 6 * (ds.length + 1)) % 8 = (nbits + 6 + 6 * ds.length) % 8 := by
          omega
        have hpow : 2 ^ (nbits + 6) = 2 ^ nbits * 64 := by rw [Nat.pow_add]
        obtain ⟨buf', hbuf', happend⟩ := @ih (buf * 64 + d) (nbits + 6) (by omega) (by omega) hrest
        rw [hlength]
        refine ⟨buf', hbuf', fun ds' => ?_⟩
        rw [if_neg hfull, if_neg hfull, happend]

/-- Three bytes come back from a decoder that is in step. -/
theorem bytesFrom_group (x y z : UInt8) (ds : List Nat) :
    bytesFrom (x.toNat / 4 :: (x.toNat % 4 * 16 + y.toNat / 16) ::
      (y.toNat % 16 * 4 + z.toNat / 64) :: z.toNat % 64 :: ds) 0 0 =
      x :: y :: z :: bytesFrom ds 0 0 := by
  have hx := x.toNat_lt
  have hy := y.toNat_lt
  have hz := z.toNat_lt
  have hfirst : (x.toNat / 4 * 64 + (x.toNat % 4 * 16 + y.toNat / 16)) / 16 = x.toNat := by omega
  have hsecond : (y.toNat / 16 * 64 + (y.toNat % 16 * 4 + z.toNat / 64)) / 4 = y.toNat := by omega
  have hthird : z.toNat / 64 * 64 + z.toNat % 64 = z.toNat := by omega
  have hbuf : (x.toNat / 4 * 64 + (x.toNat % 4 * 16 + y.toNat / 16)) % 16 = y.toNat / 16 := by
    omega
  have hbuf' : (y.toNat / 16 * 64 + (y.toNat % 16 * 4 + z.toNat / 64)) % 4 = z.toNat / 64 := by
    omega
  simp [bytesFrom, hfirst, hsecond, hthird, hbuf, hbuf', Nat.mod_one]

/-- **Bytes come back** from all of their digits. -/
@[simp] theorem toBytes_ofBytes (bytes : Bytes) : toBytes (ofBytes bytes) = bytes := by
  induction bytes using threes with
  | nil => rfl
  | one x =>
      have hx := x.toNat_lt
      have hfirst : (x.toNat / 4 * 64 + x.toNat % 4 * 16) / 16 = x.toNat := by omega
      simp [toBytes, ofBytes, bytesFrom, hfirst]
  | two x y =>
      have hx := x.toNat_lt
      have hy := y.toNat_lt
      have hfirst : (x.toNat / 4 * 64 + (x.toNat % 4 * 16 + y.toNat / 16)) / 16 = x.toNat := by
        omega
      have hbuf : (x.toNat / 4 * 64 + (x.toNat % 4 * 16 + y.toNat / 16)) % 16 = y.toNat / 16 := by
        omega
      have hsecond : (y.toNat / 16 * 64 + y.toNat % 16 * 4) / 4 = y.toNat := by omega
      simp [toBytes, ofBytes, bytesFrom, hfirst, hbuf, hsecond]
  | three x y z rest ih => rw [ofBytes, toBytes, bytesFrom_group, ← toBytes, ih]

/-! ## Digits that are passed over -/

/-- **A decoder that passes over digits** of the first bytes reads the others with as many bits
left as those digits leave. -/
theorem exists_toBytes_filter_append (p : Nat → Bool) (ha : a.length % 3 = 0)
    (hb : ∀ d ∈ ofBytes b, p d) :
    ∃ t buf, buf < 2 ^ (2 * (ofBytes a).countP (!p ·) % 8) ∧
      toBytes ((ofBytes (a ++ b)).filter p) =
        t ++ bytesFrom (ofBytes b) buf (2 * (ofBytes a).countP (!p ·) % 8) := by
  have hlt : ∀ d ∈ (ofBytes a).filter p, d < 64 := fun d hd =>
    lt_of_mem_ofBytes (List.mem_of_mem_filter hd)
  obtain ⟨buf, hbuf, happend⟩ := @exists_bytesFrom_append _ 0 0 (by decide) (by decide) hlt
  have hnbits : (0 + 6 * ((ofBytes a).filter p).length) % 8 =
      2 * (ofBytes a).countP (!p ·) % 8 := by
    have hlength := length_ofBytes ha
    have hcount := (ofBytes a).length_eq_countP_add_countP p
    rw [← List.countP_eq_length_filter]
    simp only [Bool.not_eq_true, Bool.decide_eq_false] at hcount
    omega
  rw [hnbits] at hbuf happend
  refine ⟨bytesFrom ((ofBytes a).filter p) 0 0, buf, hbuf, ?_⟩
  rw [ofBytes_append ha, List.filter_append, List.filter_eq_self.mpr hb, toBytes, happend]

/-! ## Letters -/

/-- The letter of a digit in the alphabet for URLs. -/
def urlLetter (d : Nat) : Char :=
  if d < 26 then Char.ofNat ('A'.toNat + d)
  else if d < 52 then Char.ofNat ('a'.toNat + (d - 26))
  else if d < 62 then Char.ofNat ('0'.toNat + (d - 52))
  else if d = 62 then '-'
  else '_'

/-- The digit of a letter of the standard alphabet. -/
def standardDigit? (ch : UInt8) : Option Nat :=
  if 0x41 ≤ ch ∧ ch ≤ 0x5a then some (ch.toNat - 0x41)
  else if 0x61 ≤ ch ∧ ch ≤ 0x7a then some (ch.toNat - 0x61 + 26)
  else if 0x30 ≤ ch ∧ ch ≤ 0x39 then some (ch.toNat - 0x30 + 52)
  else if ch = 0x2b then some 62
  else if ch = 0x2f then some 63
  else none

/-- `QByteArray::fromBase64`, which passes over what is no letter. -/
def fromBase64 (letters : Bytes) : Bytes := toBytes (letters.filterMap standardDigit?)

/-- The alphabets differ in the last two digits. -/
theorem urlLetter_spec : ∀ d : Fin 64, (urlLetter d).toNat < 0x80 ∧ urlLetter d ≠ '.' ∧
    standardDigit? (UInt8.ofNat (urlLetter d).toNat) =
      if d.val < 62 then some d.val else none := by
  decide

theorem urlLetter_ne {d : Nat} (h : d < 64) : urlLetter d ≠ '.' := (urlLetter_spec ⟨d, h⟩).2.1

/-- **The digits that are left** of a text in the alphabet for URLs. -/
theorem filterMap_standardDigit? (hds : ∀ d ∈ ds, d < 64) :
    (Utf8.encode (ds.map urlLetter)).filterMap standardDigit? =
      ds.filter fun d => decide (d < 62) := by
  induction ds with
  | nil => rfl
  | cons d ds ih =>
      obtain ⟨hd, hrest⟩ := List.forall_mem_cons.mp hds
      obtain ⟨hascii, -, hdigit⟩ := urlLetter_spec ⟨d, hd⟩
      dsimp only at hascii hdigit
      rw [List.map_cons, Utf8.encode_cons, Utf8.encodeChar_of_lt hascii, List.singleton_append,
        List.filterMap_cons, hdigit, ih hrest]
      by_cases hlt : d < 62
      · rw [if_pos hlt, List.filter_cons_of_pos (by simpa using hlt)]
      · rw [if_neg hlt, List.filter_cons_of_neg (by simpa using hlt)]

/-- The bytes that a decoder without the last two digits reads. -/
def remains (bytes : Bytes) : Bytes := toBytes ((ofBytes bytes).filter fun d => decide (d < 62))

theorem fromBase64_url (bytes : Bytes) :
    fromBase64 (Utf8.encode ((ofBytes bytes).map urlLetter)) = remains bytes := by
  rw [fromBase64, filterMap_standardDigit? fun d => lt_of_mem_ofBytes, remains]

/-! ## Printable bytes -/

/-- The letters that get one of the last two digits: a `>`, `?` or `~` that is the last of three
letters. -/
def passedOver : Bytes → Nat
  | _ :: _ :: c :: rest => (if c = 0x3e ∨ c = 0x3f ∨ c = 0x7e then 1 else 0) + passedOver rest
  | _ => 0

theorem passedOver_append (h : a.length % 3 = 0) :
    passedOver (a ++ b) = passedOver a + passedOver b := by
  induction a using threes with
  | nil => simp [passedOver]
  | one => simp at h
  | two => simp at h
  | three x y z rest ih =>
      have hrest : rest.length % 3 = 0 := by
        simp only [List.length_cons] at h
        omega
      simp only [List.cons_append, passedOver, ih hrest]
      omega

/-- What stands before the last of three letters does not count. -/
theorem passedOver_eq_zero (h : ∀ ch ∈ a.drop 2, ¬(ch = 0x3e ∨ ch = 0x3f ∨ ch = 0x7e)) :
    passedOver a = 0 := by
  induction a using threes with
  | nil => rfl
  | one => rfl
  | two => rfl
  | three x y z rest ih =>
      have hz := h z List.mem_cons_self
      have hrest := ih fun ch hch =>
        h ch (List.mem_cons_of_mem z (List.mem_of_mem_drop hch))
      rw [passedOver, if_neg hz, hrest]

/-- **They are what has those digits.** -/
theorem countP_ofBytes (h : ∀ ch ∈ a, 0x20 ≤ ch.toNat ∧ ch.toNat ≤ 0x7e) :
    (ofBytes a).countP (fun d => !decide (d < 62)) = passedOver a := by
  induction a using threes with
  | nil => rfl
  | one x =>
      have hx := h x (by simp)
      simp only [ofBytes, passedOver, List.countP_eq_zero, List.mem_cons, List.not_mem_nil,
        or_false, Bool.not_eq_true, Bool.not_eq_false', decide_eq_true_eq]
      omega
  | two x y =>
      have hx := h x (by simp)
      have hy := h y (by simp)
      simp only [ofBytes, passedOver, List.countP_eq_zero, List.mem_cons, List.not_mem_nil,
        or_false, Bool.not_eq_true, Bool.not_eq_false', decide_eq_true_eq]
      omega
  | three x y z rest ih =>
      have hx := h x (by simp)
      have hy := h y (by simp)
      have hz := h z (by simp)
      have hrest := ih fun ch hch => h ch (by simp [hch])
      have hlast : z.toNat % 64 < 62 ↔ ¬(z = 0x3e ∨ z = 0x3f ∨ z = 0x7e) := by
        simp only [← UInt8.toNat_inj, UInt8.reduceToNat]
        omega
      have hfirst : x.toNat / 4 < 62 := by omega
      have hsecond : x.toNat % 4 * 16 + y.toNat / 16 < 62 := by omega
      have hthird : y.toNat % 16 * 4 + z.toNat / 64 < 62 := by omega
      rw [ofBytes, passedOver]
      simp only [List.countP_cons, hrest, hfirst, hsecond, hthird, hlast]
      by_cases hz' : z = 0x3e ∨ z = 0x3f ∨ z = 0x7e
      · simp [hz']
        omega
      · simp [hz']

/-- **What is read behind the letters** that are passed over: two bits late for each. -/
theorem exists_remains_append (ha : a.length % 3 = 0)
    (hprintable : ∀ ch ∈ a ++ b, 0x20 ≤ ch.toNat ∧ ch.toNat ≤ 0x7e) (hb : passedOver b = 0) :
    ∃ t buf, buf < 2 ^ (2 * passedOver (a ++ b) % 8) ∧
      remains (a ++ b) = t ++ bytesFrom (ofBytes b) buf (2 * passedOver (a ++ b) % 8) := by
  have hcount : passedOver (a ++ b) =
      (ofBytes a).countP fun d => !decide (d < 62) := by
    rw [passedOver_append ha, hb, Nat.add_zero,
      countP_ofBytes fun ch hch => hprintable ch (List.mem_append_left b hch)]
  rw [hcount]
  refine exists_toBytes_filter_append _ ha fun d hd => ?_
  have hzero := countP_ofBytes fun ch hch => hprintable ch (List.mem_append_right a hch)
  rw [hb, List.countP_eq_zero] at hzero
  simpa using hzero d hd

/-- A multiple of four leaves the decoder in step. -/
theorem exists_remains_append_eq (ha : a.length % 3 = 0)
    (hprintable : ∀ ch ∈ a ++ b, 0x20 ≤ ch.toNat ∧ ch.toNat ≤ 0x7e) (hb : passedOver b = 0)
    (hfour : passedOver (a ++ b) % 4 = 0) : ∃ t, remains (a ++ b) = t ++ b := by
  obtain ⟨t, buf, hbuf, heq⟩ := exists_remains_append ha hprintable hb
  have hstep : 2 * passedOver (a ++ b) % 8 = 0 := by omega
  rw [hstep] at hbuf heq
  obtain rfl : buf = 0 := by omega
  exact ⟨t, by rw [heq, ← toBytes, toBytes_ofBytes]⟩

/-- **With none of them** the bytes come back. -/
theorem remains_eq (hprintable : ∀ ch ∈ a, 0x20 ≤ ch.toNat ∧ ch.toNat ≤ 0x7e)
    (ha : passedOver a = 0) : remains a = a := by
  have hzero := countP_ofBytes hprintable
  rw [ha, List.countP_eq_zero] at hzero
  rw [remains, List.filter_eq_self.mpr fun d hd => by simpa using hzero d hd, toBytes_ofBytes]

end Sextets

end MessengerClient
