import MessengerClient.TcpConnection
import Mathlib.Data.List.Basic

/-!
# MessengerClient.TcpConnection.Packets

What `finalizePacket` makes of a buffer, and what `readPacketLength` and `readPacket` make of that.

The packet is in the buffer from its third word on; the two words before it have room for the
length.  Random values are arguments: `random` picks the padding and `fill` is what is put there.
-/

namespace MessengerClient

namespace MTP

namespace Protocol

/-- The bytes of a buffer of words. -/
def bytesOf (buffer : List UInt32) : Bytes := buffer.flatMap fun prime => le32 prime.toNat

def subspan (bytes : Bytes) (offset size : Nat) : Option Bytes :=
  if offset + size ≤ bytes.length then some (slice bytes offset size) else none

/-- What `finalizePacket` expects. -/
def Expected (buffer : List UInt32) : Prop := 2 < buffer.length ∧ buffer.length < 0x1000003

instance (buffer : List UInt32) : Decidable (Expected buffer) := inferInstanceAs (Decidable (_ ∧ _))

def Version0.finalizePacket (buffer : List UInt32) : Option Bytes :=
  if Expected buffer then
    let intsSize := buffer.length - 2
    let bytesSize := intsSize * 4
    let data := bytesOf buffer
    if intsSize < 0x7F then
      let added := 1
      subspan (data.set 7 (UInt8.ofNat intsSize)) (8 - added) (added + bytesSize)
    else
      let added := 4
      let data := data.set 4 0x7F
      let data := data.set 5 (UInt8.ofNat (intsSize &&& 0xFF))
      let data := data.set 6 (UInt8.ofNat ((intsSize >>> 8) &&& 0xFF))
      let data := data.set 7 (UInt8.ofNat ((intsSize >>> 16) &&& 0xFF))
      subspan data (8 - added) (added + bytesSize)
  else
    none

/-- The loop puts a word at the end for each four bytes of the padding that are begun. -/
def VersionD.finalizePacket (buffer : List UInt32) (random : UInt32) (fill : Nat → UInt32) :
    Option Bytes :=
  if Expected buffer then
    let intsSize := buffer.length - 2
    let padding := random.toNat &&& 0x0F
    let bytesSize := intsSize * 4 + padding
    let buffer := buffer.set 1 (UInt32.ofNat bytesSize)
    let buffer := buffer ++ (List.range ((padding + 3) / 4)).map fill
    subspan (bytesOf buffer) 4 (4 + bytesSize)
  else
    none

def finalizePacket (p : Protocol) (buffer : List UInt32) (random : UInt32) (fill : Nat → UInt32) :
    Option Bytes :=
  match p with
  | Version0 | Version1 => Version0.finalizePacket buffer
  | VersionD => VersionD.finalizePacket buffer random fill

variable {buffer payload : List UInt32} {random : UInt32} {fill : Nat → UInt32}

@[simp] theorem bytesOf_cons (prime : UInt32) (buffer : List UInt32) :
    bytesOf (prime :: buffer) = le32 prime.toNat ++ bytesOf buffer := rfl

@[simp] theorem bytesOf_append (buffer more : List UInt32) :
    bytesOf (buffer ++ more) = bytesOf buffer ++ bytesOf more := List.flatMap_append

@[simp] theorem length_bytesOf (buffer : List UInt32) :
    (bytesOf buffer).length = 4 * buffer.length := by
  induction buffer with
  | nil => rfl
  | cons prime buffer ih =>
      rw [bytesOf_cons, List.length_append, length_le32, ih, List.length_cons]
      omega

theorem subspan_eq {bytes : Bytes} {offset size : Nat} (h : offset + size ≤ bytes.length) :
    subspan bytes offset size = some (slice bytes offset size) := if_pos h

/-- Two words and the packet. -/
theorem Expected.split (h : Expected buffer) :
    ∃ first second payload, buffer = first :: second :: payload ∧ payload ≠ [] := by
  cases buffer with
  | nil => simp [Expected] at h
  | cons first tail =>
      cases tail with
      | nil => simp [Expected] at h
      | cons second payload =>
          refine ⟨first, second, payload, rfl, ?_⟩
          rintro rfl
          simp [Expected] at h

/-! ## Frames -/

/-- The length of a packet of `intsSize` words, in one byte or in four. -/
def Version0.header (intsSize : Nat) : Bytes :=
  if intsSize < 0x7F then
    [UInt8.ofNat intsSize]
  else
    [0x7F, UInt8.ofNat intsSize, UInt8.ofNat (intsSize / 2 ^ 8), UInt8.ofNat (intsSize / 2 ^ 16)]

theorem ofNat_and_255 (n : Nat) : UInt8.ofNat (n &&& 0xFF) = UInt8.ofNat n := by
  rw [show (0xFF : Nat) = 2 ^ 8 - 1 from rfl, Nat.and_two_pow_sub_one_eq_mod]
  apply UInt8.toNat_inj.mp
  rw [UInt8.toNat_ofNat', UInt8.toNat_ofNat']
  omega

theorem Version0.finalizePacket_eq {first second : UInt32}
    (h : Expected (first :: second :: payload)) :
    finalizePacket (first :: second :: payload) =
      some (Version0.header payload.length ++ bytesOf payload) := by
  have hlength : (bytesOf payload).length = payload.length * 4 := by
    rw [length_bytesOf, Nat.mul_comm]
  have hsize : (first :: second :: payload).length - 2 = payload.length := by simp
  unfold finalizePacket Version0.header
  rw [if_pos h, hsize]
  simp only [bytesOf_cons, ofNat_and_255, Nat.shiftRight_eq_div_pow]
  by_cases hshort : payload.length < 0x7F
  · rw [if_pos hshort, if_pos hshort, subspan_eq (by simp; omega)]
    refine congrArg some (List.take_of_length_le ?_)
    simp only [List.length_drop, List.length_set, List.length_append, List.length_cons,
      length_le32, hlength]
    omega
  · rw [if_neg hshort, if_neg hshort, subspan_eq (by simp; omega)]
    refine congrArg some (List.take_of_length_le ?_)
    simp only [List.length_drop, List.length_set, List.length_append, List.length_cons,
      length_le32, hlength]
    omega

theorem VersionD.finalizePacket_eq (random : UInt32) (fill : Nat → UInt32)
    {first second : UInt32}
    (h : Expected (first :: second :: payload)) :
    ∃ padding : Bytes, padding.length = random.toNat % 16 ∧
      finalizePacket (first :: second :: payload) random fill =
        some (le32 (payload.length * 4 + random.toNat % 16) ++ (bytesOf payload ++ padding)) := by
  have hmask : random.toNat &&& 0x0F = random.toNat % 16 := by
    rw [show (0x0F : Nat) = 2 ^ 4 - 1 from rfl, Nat.and_two_pow_sub_one_eq_mod]
  have hsize : (first :: second :: payload).length - 2 = payload.length := by simp
  have hbytes : payload.length * 4 + random.toNat % 16 < 2 ^ 32 := by
    have := h.2
    simp only [List.length_cons] at this
    omega
  have hlength : (bytesOf payload).length = payload.length * 4 := by
    rw [length_bytesOf, Nat.mul_comm]
  refine ⟨(bytesOf ((List.range ((random.toNat % 16 + 3) / 4)).map fill)).take
    (random.toNat % 16), ?_, ?_⟩
  · simp
    omega
  unfold finalizePacket
  rw [if_pos h, hsize, hmask]
  dsimp only
  rw [subspan_eq (by simp; omega)]
  congr 1
  simp only [List.set_cons_succ, List.set_cons_zero, bytesOf_append, bytesOf_cons,
    UInt32.toNat_ofNat', Nat.mod_eq_of_lt hbytes, slice, List.append_assoc]
  rw [List.drop_left' (length_le32 _), ← hlength,
    show 4 + ((bytesOf payload).length + random.toNat % 16) =
      (le32 ((bytesOf payload).length + random.toNat % 16)).length +
        ((bytesOf payload).length + random.toNat % 16) by rw [length_le32],
    List.take_length_add_append, List.take_length_add_append]

/-! ## Reading a frame -/

/-- The frame is read as long as it is, and the packet in it is the payload. -/
def RoundTrips (p : Protocol) (buffer : List UInt32) (random : UInt32) (fill : Nat → UInt32) :
    Prop :=
  ∃ frame, p.finalizePacket buffer random fill = some frame ∧ ∀ more,
    p.readPacketLength (frame ++ more) = frame.length ∧
    ∃ padding : Bytes, padding.length < 16 ∧ (p ≠ VersionD → padding = []) ∧
      p.readPacket (frame ++ more) = some (bytesOf (buffer.drop 2) ++ padding)

/-- Whether the reader takes a length that the writer writes. -/
def Fits (p : Protocol) (buffer : List UInt32) (random : UInt32) : Prop :=
  match p with
  | Version0 | Version1 => buffer.length - 2 < 2 ^ 24
  | VersionD => (buffer.length - 2) * 4 + random.toNat % 16 + 4 < kPacketSizeMax

/-- A frame that is read as long as it is holds what comes after the length. -/
theorem readPacket_append {p : Protocol} {length packet more : Bytes}
    (hsize : ∀ rest, p.sizeLength (length ++ rest) = length.length)
    (hread : p.readPacketLength (length ++ packet ++ more) = (length ++ packet).length) :
    p.readPacket (length ++ packet ++ more) = some packet := by
  have hrest := hsize (packet ++ more)
  rw [← List.append_assoc] at hrest
  unfold readPacket
  rw [hread, hrest]
  dsimp only
  rw [if_pos, List.append_assoc, List.drop_left, Int.toNat_natCast, List.length_append,
    Nat.add_sub_cancel_left, List.take_left]
  refine ⟨?_, ?_, ?_⟩
  · simp only [kUnknownSize]
    omega
  · simp only [kInvalidSize]
    omega
  · have hwhole : (length ++ packet ++ more).length = (length ++ packet).length + more.length :=
      List.length_append
    omega

theorem Version0.readPacketLength_header {n : Nat} (hpos : 0 < n) (hlt : n < 2 ^ 24)
    (rest : Bytes) :
    readPacketLength (header n ++ rest) = ((n * 4 + (header n).length : Nat) : Int) ∧
      sizeLength (header n ++ rest) = (header n).length := by
  unfold header
  by_cases hshort : n < 0x7F
  · have hne : UInt8.ofNat n ≠ 0x7F := fun heq => by
      have := congrArg UInt8.toNat heq
      simp at this
      omega
    have hfirst : UInt8.ofNat n > 0 ∧ UInt8.ofNat n < 0x7F := by
      simp only [gt_iff_lt, UInt8.lt_iff_toNat_lt, UInt8.toNat_ofNat']
      simp
      omega
    rw [if_pos hshort]
    refine ⟨?_, ?_⟩
    · simp only [List.cons_append, List.nil_append, readPacketLength, if_neg hne, if_pos hfirst,
        UInt8.toNat_ofNat', List.length_singleton]
      omega
    · simp [sizeLength, hne]
  · have hints : (UInt8.ofNat n).toNat + 2 ^ 8 * (UInt8.ofNat (n / 2 ^ 8)).toNat +
        2 ^ 16 * (UInt8.ofNat (n / 2 ^ 16)).toNat = n := by
      simp only [UInt8.toNat_ofNat']
      omega
    rw [if_neg hshort]
    refine ⟨?_, rfl⟩
    simp only [List.cons_append, List.nil_append, readPacketLength, if_true, hints]
    rw [if_pos (by omega)]
    rfl

/-- A length that does not fit into three bytes. -/
theorem Version0.readPacketLength_wrapped (rest : Bytes) :
    readPacketLength (header (2 ^ 24) ++ rest) = kInvalidSize := rfl

theorem VersionD.readPacketLength_le32 {n : Nat} (hlt : n + 4 < 2 ^ 32) (rest : Bytes) :
    readPacketLength (le32 n ++ rest) =
      if n + 4 ≥ 8 ∧ n + 4 < kPacketSizeMax then ((n + 4 : Nat) : Int) else kInvalidSize := by
  unfold readPacketLength
  rw [readLe32_le32 (by omega)]
  dsimp only
  rw [Nat.mod_eq_of_lt hlt]

/-- The length of a packet of up to three bytes. -/
theorem roundTrips_iff_of_ne {p : Protocol} (hp : p ≠ .VersionD) (h : Expected buffer) :
    RoundTrips p buffer random fill ↔ buffer.length - 2 < 2 ^ 24 := by
  have hframe : p.finalizePacket buffer random fill = Version0.finalizePacket buffer := by
    cases p <;> first | rfl | exact absurd rfl hp
  have hlength : ∀ bytes, p.readPacketLength bytes = Version0.readPacketLength bytes := by
    cases p <;> first | exact fun _ => rfl | exact absurd rfl hp
  have hsizeLength : ∀ bytes, p.sizeLength bytes = Version0.sizeLength bytes := by
    cases p <;> first | exact fun _ => rfl | exact absurd rfl hp
  obtain ⟨first, second, payload, rfl, hne⟩ := h.split
  have hpos := List.length_pos_iff.mpr hne
  have hsize : (first :: second :: payload).length - 2 = payload.length := by simp
  rw [RoundTrips, hframe, Version0.finalizePacket_eq h, hsize]
  constructor
  · rintro ⟨frame, hsome, hread⟩
    obtain rfl := Option.some.inj hsome
    by_contra hge
    have htop : payload.length = 2 ^ 24 := by
      have := h.2
      simp only [List.length_cons] at this
      omega
    have hwrapped := (hread []).1
    rw [hlength, htop, List.append_assoc, Version0.readPacketLength_wrapped] at hwrapped
    simp only [kInvalidSize] at hwrapped
    omega
  · intro hlt
    have hread : ∀ more, p.readPacketLength
        (Version0.header payload.length ++ bytesOf payload ++ more) =
          (Version0.header payload.length ++ bytesOf payload).length := fun more => by
      rw [hlength, List.append_assoc, (Version0.readPacketLength_header hpos hlt _).1,
        List.length_append, length_bytesOf]
      congr 1
      omega
    refine ⟨_, rfl, fun more => ⟨hread more, [], by simp, fun _ => rfl, ?_⟩⟩
    rw [List.append_nil]
    refine readPacket_append (fun rest => ?_) (hread more)
    rw [hsizeLength, (Version0.readPacketLength_header hpos hlt rest).2]

theorem VersionD.readsBack_iff (h : Expected buffer) :
    RoundTrips .VersionD buffer random fill ↔
      (buffer.length - 2) * 4 + random.toNat % 16 + 4 < kPacketSizeMax := by
  obtain ⟨first, second, payload, rfl, hne⟩ := h.split
  have hpos := List.length_pos_iff.mpr hne
  have hsize : (first :: second :: payload).length - 2 = payload.length := by simp
  have hbound : payload.length * 4 + random.toNat % 16 + 4 < 2 ^ 32 := by
    have := h.2
    simp only [List.length_cons] at this
    omega
  obtain ⟨padding, hpadding, hframe⟩ :=
    VersionD.finalizePacket_eq random fill h
  have hlength : (le32 (payload.length * 4 + random.toNat % 16) ++
      (bytesOf payload ++ padding)).length = payload.length * 4 + random.toNat % 16 + 4 := by
    simp [hpadding]
    omega
  have hread : ∀ more, readPacketLength (le32 (payload.length * 4 + random.toNat % 16) ++
      (bytesOf payload ++ padding) ++ more) =
        if payload.length * 4 + random.toNat % 16 + 4 ≥ 8 ∧
          payload.length * 4 + random.toNat % 16 + 4 < kPacketSizeMax then
          ((payload.length * 4 + random.toNat % 16 + 4 : Nat) : Int) else kInvalidSize := fun more => by
    rw [List.append_assoc, readPacketLength_le32 hbound]
  rw [RoundTrips, hsize]
  constructor
  · rintro ⟨frame, hsome, hall⟩
    obtain rfl := Option.some.inj (hframe.symm.trans hsome)
    by_contra hge
    have hinvalid := (hread []).symm.trans (hall []).1
    rw [if_neg fun hfits => hge hfits.2, hlength] at hinvalid
    simp only [kInvalidSize] at hinvalid
    omega
  · intro hfits
    have hread' : ∀ more, Protocol.readPacketLength .VersionD
        (le32 (payload.length * 4 + random.toNat % 16) ++ (bytesOf payload ++ padding) ++ more) =
          (le32 (payload.length * 4 + random.toNat % 16) ++ (bytesOf payload ++ padding)).length :=
      fun more => (hread more).trans (by rw [if_pos ⟨by omega, hfits⟩, hlength])
    refine ⟨_, hframe, fun more => ⟨hread' more, padding, by omega, fun hne => absurd rfl hne, ?_⟩⟩
    exact readPacket_append (fun _ => rfl) (hread' more)

/-- **The round trip of a frame**: the reader gets back what the writer was given exactly where the
length fits. -/
theorem roundTrips_iff (p : Protocol) (buffer : List UInt32) (random : UInt32)
    (fill : Nat → UInt32) (h : Expected buffer) :
    RoundTrips p buffer random fill ↔ Fits p buffer random := by
  cases p with
  | Version0 => exact roundTrips_iff_of_ne (by decide) h
  | Version1 => exact roundTrips_iff_of_ne (by decide) h
  | VersionD => exact VersionD.readsBack_iff h

/-- The largest buffer that `finalizePacket` takes: three bytes do not hold its length. -/
theorem not_roundTrips :
    Expected (List.replicate 0x1000002 0) ∧
      ¬RoundTrips .Version0 (List.replicate 0x1000002 0) 0 (fun _ => 0) ∧
      ¬RoundTrips .VersionD (List.replicate 0x1000002 0) 0 (fun _ => 0) := by
  have h : Expected (List.replicate 0x1000002 0) := by
    unfold Expected
    rw [List.length_replicate]
    decide
  refine ⟨h, ?_, ?_⟩
  · rw [roundTrips_iff_of_ne (by decide) h, List.length_replicate]
    decide
  · rw [VersionD.readsBack_iff h, List.length_replicate]
    decide

theorem roundTrips_three : RoundTrips .VersionD [0, 0, 7] 5 (fun _ => 9) :=
  (roundTrips_iff .VersionD [0, 0, 7] 5 (fun _ => 9) (by decide)).mpr
    (by simp [Fits, kPacketSizeMax])

end Protocol

end MTP

end MessengerClient
