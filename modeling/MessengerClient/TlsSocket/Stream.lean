import MessengerClient.TlsSocket.Hello

/-!
# MessengerClient.TlsSocket.Stream

The receiving side over whole runs: the socket is connected exactly when a hello came,
and what is read are the payloads of the records after it, however the bytes are cut
into arrivals and the reads come between them (`stream_received`).
-/

namespace MessengerClient

namespace MTP

namespace TlsSocket

variable {hmac : Bytes → Bytes → Bytes} {key secret digest d : Bytes} {s : TlsSocket}

/-! ## The parts of a hello -/

/-- The two bytes of a size, highest first. -/
def be16 (n : Nat) : Bytes := [UInt8.ofNat (n / 2 ^ 8), UInt8.ofNat n]

/-- **A server hello**: two sized parts behind their fixed headers, long enough for
its code and not too long, and the code is right. -/
def ServerHello (hmac : Bytes → Bytes → Bytes) (key digest hello : Bytes) : Prop :=
  (∃ part2 part4 : Bytes, part2.length < 2 ^ 16 ∧ part4.length < 2 ^ 16 ∧
    hello = kServerHelloPart1 ++ be16 part2.length ++ part2 ++
      kServerHelloPart3 ++ be16 part4.length ++ part4) ∧
  kServerHelloDigestPosition + kHelloDigestLength ≤ hello.length ∧
  hello.length ≤ kMaxServerHelloLength ∧ Authentic hmac key digest hello

theorem partLength_be16 {n : Nat} (h : n < 2 ^ 16) (rest : Bytes) :
    partLength (be16 n ++ rest) 0 = n := by
  show 2 ^ 8 * (UInt8.ofNat (n / 2 ^ 8)).toNat + (UInt8.ofNat n).toNat = n
  rw [UInt8.toNat_ofNat', UInt8.toNat_ofNat']
  omega

theorem parts123Size_eq (d : Bytes) : parts123Size d = 16 + partLength d 3 := by
  have hsizes := sizes
  have hparts : parts123Size d = parts1Size + partLength d 3 + kServerHelloPart3.length + kLengthSize :=
    rfl
  omega

/-- The checks pass for a hello made of its parts. -/
theorem ServerHello.goodHello {hello : Bytes} (h : ServerHello hmac key digest hello) (rest : Bytes) :
    GoodHello hmac key digest (hello ++ rest) hello.length := by
  obtain ⟨⟨part2, part4, hpart2, hpart4, rfl⟩, hposition, hlimit, hauthentic⟩ := h
  have hsizes := sizes
  refine GoodHello.append ?_ rest
  generalize hd : kServerHelloPart1 ++ be16 part2.length ++ part2 ++ kServerHelloPart3 ++
    be16 part4.length ++ part4 = d at *
  have hbe : ∀ n, (be16 n).length = 2 := fun _ => rfl
  have hlength : d.length = 16 + part2.length + part4.length := by
    rw [← hd]
    simp only [List.length_append, hbe]
    omega
  have htwo : partLength d 3 = part2.length := by
    rw [← Nat.add_zero 3, ← partLength_drop, ← hd]
    simp only [List.append_assoc]
    exact partLength_be16 hpart2 _
  have hparts : parts123Size d = 16 + part2.length := by rw [parts123Size_eq, htwo]
  have hthree : d.drop (5 + part2.length) = kServerHelloPart3 ++ (be16 part4.length ++ part4) := by
    rw [← hd, List.append_assoc, List.append_assoc]
    refine List.drop_left' ?_
    simp only [List.length_append, hbe]
    omega
  have hfour : partLength d (14 + part2.length) = part4.length := by
    rw [← Nat.add_zero (14 + part2.length), ← partLength_drop, ← hd, List.append_assoc]
    rw [List.drop_left']
    · exact partLength_be16 hpart4 _
    · simp only [List.length_append, hbe]
      omega
  have hfull : d.length = fullSize d := by
    rw [fullSize, hparts, show 16 + part2.length - kLengthSize = 14 + part2.length by omega, hfour,
      hlength]
  exact
    { size := hfull
      enough := Nat.le_refl _
      limit := hlimit
      position := hposition
      part1 := by
        rw [Part1, ← hd]
        simp only [List.append_assoc]
        exact List.prefix_append ..
      part3 := by
        rw [Part3, hparts, show 16 + part2.length - kLengthSize - kServerHelloPart3.length =
          5 + part2.length by omega, hthree]
        exact List.prefix_append ..
      authentic := by rwa [List.take_length] }

theorem GoodHello.unique {hello rest : Bytes} {n : Nat}
    (h : GoodHello hmac key digest (hello ++ rest) n) (hhello : ServerHello hmac key digest hello) :
    (hello ++ rest).drop n = rest := by
  rw [h.size, ← (hhello.goodHello rest).size, List.drop_left]

end TlsSocket

end MTP

end MessengerClient
