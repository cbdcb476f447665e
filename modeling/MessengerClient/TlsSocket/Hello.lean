import MessengerClient.TlsSocket.Records

/-!
# MessengerClient.TlsSocket.Hello

The server's hello.  `serverHelloLength` is the stage that was reached: the length up
to the first size, up to the second, or the whole hello (`Stage`).  Whatever the
stage, the outcome is that of the bytes that came (`Phase`).
-/

namespace MessengerClient

namespace MTP

namespace TlsSocket

/-! ## A hello -/

def parts1Size : Nat := kServerHelloPart1.length + kLengthSize

/-- Up to the size of the fourth part. -/
def parts123Size (d : Bytes) : Nat :=
  parts1Size + partLength d (parts1Size - kLengthSize) + kServerHelloPart3.length + kLengthSize

/-- The length of the whole hello. -/
def fullSize (d : Bytes) : Nat :=
  parts123Size d + partLength d (parts123Size d - kLengthSize)

def Part1 (d : Bytes) : Prop := kServerHelloPart1 <+: d

def Part3 (d : Bytes) : Prop :=
  kServerHelloPart3 <+: d.drop (parts123Size d - kLengthSize - kServerHelloPart3.length)

/-- The code of a hello is computed with zeros in its place. -/
def Authentic (hmac : Bytes → Bytes → Bytes) (key digest hello : Bytes) : Prop :=
  slice hello kServerHelloDigestPosition kHelloDigestLength = hmac key (digest ++
    paste hello kServerHelloDigestPosition (List.replicate kHelloDigestLength 0))

/-- **A hello of `n` bytes** at the front of `d`. -/
structure GoodHello (hmac : Bytes → Bytes → Bytes) (key digest d : Bytes) (n : Nat) : Prop where
  size : n = fullSize d
  enough : n ≤ d.length
  limit : n ≤ kMaxServerHelloLength
  position : kServerHelloDigestPosition + kHelloDigestLength ≤ n
  part1 : Part1 d
  part3 : Part3 d
  authentic : Authentic hmac key digest (d.take n)

variable {hmac : Bytes → Bytes → Bytes} {key secret digest d e : Bytes} {s : TlsSocket}

theorem parts123Size_le_fullSize (d : Bytes) : parts123Size d ≤ fullSize d := Nat.le_add_right ..

theorem sizes : parts1Size = 5 ∧ kServerHelloPart1.length = 3 ∧ kServerHelloPart3.length = 9 ∧
    kLengthSize = 2 ∧ kHelloDigestLength = 32 ∧ kServerHelloDigestPosition = 11 :=
  ⟨rfl, rfl, rfl, rfl, rfl, rfl⟩

theorem le_parts123Size (d : Bytes) : 16 ≤ parts123Size d := by
  have hsizes := sizes
  unfold parts123Size
  omega

theorem parts123Size_append (h : parts1Size ≤ d.length) (e : Bytes) :
    parts123Size (d ++ e) = parts123Size d := by
  have hsizes := sizes
  rw [parts123Size, partLength_append (by omega), parts123Size]

theorem fullSize_append (h : parts123Size d ≤ d.length) (e : Bytes) :
    fullSize (d ++ e) = fullSize d := by
  have hlt := le_parts123Size d
  have hsizes := sizes
  rw [fullSize, parts123Size_append (by omega), partLength_append (by omega), fullSize]

theorem part1_append (h : parts1Size ≤ d.length) : Part1 (d ++ e) ↔ Part1 d := by
  have hsizes := sizes
  rw [Part1, Part1, ← CheckPart_iff, ← CheckPart_iff, CheckPart_append (by omega)]

theorem part3_append (h : parts123Size d ≤ d.length) : Part3 (d ++ e) ↔ Part3 d := by
  have hlt := le_parts123Size d
  have hsizes := sizes
  rw [Part3, Part3, parts123Size_append (by omega), ← CheckPart_iff, ← CheckPart_iff,
    List.drop_append_of_le_length (by omega), CheckPart_append]
  rw [List.length_drop]
  omega

/-- More bytes do not change whether a hello is there, once it could be. -/
theorem GoodHello.append {n : Nat} (h : GoodHello hmac key digest d n) (e : Bytes) :
    GoodHello hmac key digest (d ++ e) n := by
  have hparts := parts123Size_le_fullSize d
  have hlt := le_parts123Size d
  have hsizes := sizes
  have hsize := h.size
  have henough := h.enough
  exact
    { size := by rw [fullSize_append (by omega), hsize]
      enough := by rw [List.length_append]; omega
      limit := h.limit
      position := h.position
      part1 := (part1_append (by omega)).mpr h.part1
      part3 := (part3_append (by omega)).mpr h.part3
      authentic := by rw [List.take_append_of_le_length henough]; exact h.authentic }

/-! ## Stages -/

/-- The stage that was reached, and what was checked on the way. -/
inductive Stage (d : Bytes) : Nat → Prop where
  | part1 : Stage d parts1Size
  | parts123 (enough : parts1Size ≤ d.length) (part1 : Part1 d)
      (limit : parts123Size d ≤ kMaxServerHelloLength) : Stage d (parts123Size d)
  | full (enough : parts123Size d ≤ d.length) (part1 : Part1 d) (part3 : Part3 d)
      (limit : fullSize d ≤ kMaxServerHelloLength) : Stage d (fullSize d)

theorem Stage.append {l : Nat} (h : Stage d l) (e : Bytes) : Stage (d ++ e) l := by
  have hlt := le_parts123Size d
  have hsizes := sizes
  cases h with
  | part1 => exact .part1
  | parts123 henough hpart1 hlimit =>
    rw [← parts123Size_append henough e]
    refine .parts123 (by rw [List.length_append]; omega) ((part1_append henough).mpr hpart1) ?_
    rwa [parts123Size_append henough]
  | full henough hpart1 hpart3 hlimit =>
    have hfirst : parts1Size ≤ d.length := by omega
    rw [← fullSize_append henough e]
    refine .full ?_ ((part1_append hfirst).mpr hpart1) ((part3_append henough).mpr hpart3) ?_
    · rw [parts123Size_append hfirst, List.length_append]
      omega
    · rwa [fullSize_append henough]

/-- A socket that waits for the hello, of which `d` came, at the stage `l`. -/
def waiting (secret digest d : Bytes) (l : Nat) : TlsSocket :=
  { plainConnected secret (digest ++ d) with serverHelloLength := l }

theorem take_paste {a items : Bytes} {start n : Nat} (h : start + items.length ≤ n)
    (hn : n ≤ a.length) : (paste a start items).take n = paste (a.take n) start items := by
  have hlength : (a.take n).length = n := by
    rw [List.length_take, Nat.min_eq_left hn]
  refine List.ext_getElem? fun i => ?_
  rw [List.getElem?_take, getElem?_paste (by omega), getElem?_paste (by omega), List.getElem?_take]
  split
  · rfl
  · rw [if_neg (by omega)]

end TlsSocket

end MTP

end MessengerClient
