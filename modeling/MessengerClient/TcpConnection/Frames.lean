import MessengerClient.Lib.Framing
import MessengerClient.TcpConnection

/-!
# MessengerClient.TcpConnection.Frames

What the lengths of a protocol say about a stream: they make a framing
(`Protocol.framing`), and every frame of it is a packet that can be parsed.
-/

namespace MessengerClient

namespace MTP

namespace Protocol

variable {p : Protocol} {d : Bytes}

/-! ## Lengths -/

theorem Version0.readPacketLength_long (rest : Bytes) :
    readPacketLength (0x7F :: rest) =
      match rest with
      | b1 :: b2 :: b3 :: _ =>
        let ints := b1.toNat + 2 ^ 8 * b2.toNat + 2 ^ 16 * b3.toNat
        if ints ≥ 0x7F then ((ints * 4 + 4 : Nat) : Int) else kInvalidSize
      | _ => kUnknownSize := rfl

theorem Version0.readPacketLength_short {first : UInt8} (h : first ≠ 0x7F) (rest : Bytes) :
    readPacketLength (first :: rest) =
      if first > 0 ∧ first < 0x7F then ((first.toNat * 4 + 1 : Nat) : Int) else kInvalidSize :=
  if_neg h

/-- **What a length says**: too few bytes, a bad length, or at least five bytes of
which at least four are for the packet. -/
theorem readPacketLength_cases (p : Protocol) (d : Bytes) :
    (p.readPacketLength d = kUnknownSize ∧ d.length < 4) ∨ p.readPacketLength d = kInvalidSize ∨
      ∃ n : Nat, p.readPacketLength d = n ∧ 5 ≤ n ∧ p.sizeLength d + 4 ≤ n := by
  have hzero : (p.readPacketLength d = Version0.readPacketLength d ∧
      p.sizeLength d = Version0.sizeLength d) ∨
      p.readPacketLength d = VersionD.readPacketLength d ∧ p.sizeLength d = VersionD.sizeLength := by
    cases p with
    | Version0 => exact .inl ⟨rfl, rfl⟩
    | Version1 => exact .inl ⟨rfl, rfl⟩
    | VersionD => exact .inr ⟨rfl, rfl⟩
  obtain ⟨hlength, hsize⟩ | ⟨hlength, hsize⟩ := hzero
  · rw [hlength, hsize]
    cases d with
    | nil => exact .inl ⟨rfl, Nat.zero_lt_succ 3⟩
    | cons first rest =>
      by_cases h7F : first = 0x7F
      · rw [h7F, Version0.readPacketLength_long, Version0.sizeLength]
        match rest with
        | [] => exact .inl ⟨rfl, by simp⟩
        | [_] => exact .inl ⟨rfl, by simp⟩
        | [_, _] => exact .inl ⟨rfl, by simp⟩
        | b1 :: b2 :: b3 :: _ =>
          dsimp only
          split
          · next hints =>
            refine .inr (.inr ⟨_, rfl, by omega, ?_⟩)
            rw [List.head?_cons, if_pos rfl]
            omega
          · exact .inr (.inl rfl)
      · rw [Version0.readPacketLength_short h7F, Version0.sizeLength]
        split
        · next hfirst =>
          have hpos : 0 < first.toNat := UInt8.lt_iff_toNat_lt.mp hfirst.1
          refine .inr (.inr ⟨_, rfl, by omega, ?_⟩)
          rw [List.head?_cons, if_neg fun h => h7F (Option.some.inj h)]
          omega
        · exact .inr (.inl rfl)
  · rw [hlength, hsize]
    unfold VersionD.readPacketLength VersionD.sizeLength
    match d with
    | [] => exact .inl ⟨rfl, by simp⟩
    | [_] => exact .inl ⟨rfl, by simp⟩
    | [_, _] => exact .inl ⟨rfl, by simp⟩
    | [_, _, _] => exact .inl ⟨rfl, by simp⟩
    | a :: b :: c :: d :: rest =>
      dsimp only [readLe32]
      split
      · next hvalue => exact .inr (.inr ⟨_, rfl, by omega, by omega⟩)
      · exact .inr (.inl rfl)

/-- More of the stream does not change a length that was read. -/
theorem readPacketLength_append (h : p.readPacketLength d ≠ kUnknownSize) (e : Bytes) :
    p.readPacketLength (d ++ e) = p.readPacketLength d := by
  have hzero : Version0.readPacketLength d ≠ kUnknownSize →
      Version0.readPacketLength (d ++ e) = Version0.readPacketLength d := by
    intro hknown
    cases d with
    | nil => exact absurd rfl hknown
    | cons first rest =>
      rw [List.cons_append]
      by_cases h7F : first = 0x7F
      · subst h7F
        match rest with
        | [] => exact absurd rfl hknown
        | [_] => exact absurd rfl hknown
        | [_, _] => exact absurd rfl hknown
        | _ :: _ :: _ :: _ => rfl
      · rw [Version0.readPacketLength_short h7F, Version0.readPacketLength_short h7F]
  cases p with
  | Version0 => exact hzero h
  | Version1 => exact hzero h
  | VersionD =>
    match d with
    | [] => exact absurd rfl h
    | [_] => exact absurd rfl h
    | [_, _] => exact absurd rfl h
    | [_, _, _] => exact absurd rfl h
    | _ :: _ :: _ :: _ :: _ => rfl

/-! ## Frames -/

/-- The frames of a stream are those that `readPacketLength` cuts it into. -/
def framing (p : Protocol) : Framing UInt8 where
  head bytes :=
    let size := p.readPacketLength bytes
    if size = kUnknownSize then .unknown
    else if size ≤ 0 then .invalid
    else .size size.toNat
  pos := by
    intro d n h
    dsimp only at h
    split at h
    · cases h
    · split at h
      · cases h
      · obtain rfl := Head.size.inj h
        omega
  stable := by
    intro d h e
    dsimp only at h ⊢
    have hknown : p.readPacketLength d ≠ kUnknownSize := fun hu => h (if_pos hu)
    rw [readPacketLength_append hknown]

theorem head_unknown : p.framing.head d = .unknown ↔ p.readPacketLength d = kUnknownSize := by
  show (if _ then _ else _) = _ ↔ _
  split
  · next h => exact iff_of_true rfl h
  · next h =>
    refine iff_of_false ?_ h
    split <;> intro hh <;> cases hh

theorem head_invalid (h : p.readPacketLength d ≠ kUnknownSize) :
    p.framing.head d = .invalid ↔ p.readPacketLength d ≤ 0 := by
  show (if _ then _ else _) = _ ↔ _
  rw [if_neg h]
  split
  · next hle => exact iff_of_true rfl hle
  · next hgt => exact iff_of_false (fun hh => by cases hh) hgt

theorem head_size {n : Nat} (hn : 0 < n) : p.framing.head d = .size n ↔ p.readPacketLength d = n := by
  show (if _ then _ else _) = _ ↔ _
  split
  · next h =>
    rw [h, kUnknownSize]
    exact iff_of_false (fun hh => by cases hh) (by omega)
  · split
    · exact iff_of_false (fun hh => by cases hh) (by omega)
    · rw [Head.size.injEq]
      omega

theorem head_nil (p : Protocol) : p.framing.head [] = .unknown := by
  rw [head_unknown]
  cases p <;> rfl

theorem length_of_unknown (h : p.framing.head d = .unknown) : d.length < 4 := by
  rw [head_unknown] at h
  rcases readPacketLength_cases p d with ⟨-, hlt⟩ | hbad | ⟨n, hn, -⟩
  · exact hlt
  · rw [hbad] at h
    cases h
  · rw [hn, kUnknownSize] at h
    omega

theorem length_toInts {bytes : Bytes} (h : 4 ≤ bytes.length) : toInts bytes ≠ [] := by
  match bytes with
  | [] | [_] | [_, _] | [_, _, _] => simp at h
  | _ :: _ :: _ :: _ :: _ => exact List.cons_ne_nil _ _

/-- **A frame is a packet**: what is cut off the front of a stream can be parsed. -/
theorem parsePacket_frame {n : Nat} (h : p.framing.head d = .size n) (hn : n ≤ d.length) :
    ∃ ints, TcpConnection.parsePacket p (d.take n) = some ints := by
  have hpos := p.framing.pos h
  have hread := (head_size hpos).mp h
  have hlength : (d.take n).length = n := by
    rw [List.length_take, Nat.min_eq_left hn]
  have hge : 5 ≤ n := by
    rcases readPacketLength_cases p d with ⟨hu, -⟩ | hbad | ⟨m, hm, hge, -⟩
    · rw [hu, kUnknownSize] at hread
      omega
    · rw [hbad, kInvalidSize] at hread
      omega
    · omega
  have hsame : p.readPacketLength (d.take n) = n := by
    have hknown : p.readPacketLength (d.take n) ≠ kUnknownSize := fun hu => by
      have hlt := length_of_unknown (head_unknown.mpr hu)
      omega
    rw [← hread, ← readPacketLength_append hknown (d.drop n), List.take_append_drop]
  have hpacket : p.sizeLength (d.take n) + 4 ≤ n := by
    rcases readPacketLength_cases p (d.take n) with ⟨hu, -⟩ | hbad | ⟨m, hm, -, hle⟩
    · rw [hu, kUnknownSize] at hsame
      omega
    · rw [hbad, kInvalidSize] at hsame
      omega
    · omega
  have hreadPacket : p.readPacket (d.take n) = some
      (((d.take n).drop (p.sizeLength (d.take n))).take (n - p.sizeLength (d.take n))) := by
    rw [readPacket, hsame, if_pos, Int.toNat_natCast]
    rw [kUnknownSize, kInvalidSize, hlength]
    omega
  have hints : toInts (((d.take n).drop (p.sizeLength (d.take n))).take
      (n - p.sizeLength (d.take n))) ≠ [] := by
    refine length_toInts ?_
    rw [List.length_take, List.length_drop, hlength]
    omega
  simp only [TcpConnection.parsePacket, hreadPacket, Option.bind_eq_bind, Option.bind_some]
  split
  · next hnil => exact absurd hnil hints
  · exact ⟨_, rfl⟩
  · exact ⟨_, rfl⟩
  · exact ⟨_, rfl⟩

end Protocol

end MTP

end MessengerClient
