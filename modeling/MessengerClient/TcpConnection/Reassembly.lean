import MessengerClient.TcpConnection.Frames

/-!
# MessengerClient.TcpConnection.Reassembly

The packets of a connection are the frames of the stream it reads, however the socket
hands the stream out.  Between two reads the bytes in use are what is left of the
stream after the frames passed on (`Sound`); while packets are taken out of the small
buffer, the span they are read from may stand at a place the bytes were already moved
away from, and still shows the same bytes (`Scanning`).
-/

namespace MessengerClient

namespace MTP

namespace TcpConnection

variable {env : Env} {s : TcpConnection}

/-! ## Places -/

theorem Span.subspan_of_le {large : Bool} {start size offset n : Nat} (h : offset + n ≤ size) :
    (⟨large, start, size⟩ : Span).subspan offset n = some ⟨large, start + offset, n⟩ :=
  if_pos h

theorem Span.dropFront_of_le {large : Bool} {start size offset : Nat} (h : offset ≤ size) :
    (⟨large, start, size⟩ : Span).dropFront offset = some ⟨large, start + offset, size - offset⟩ :=
  if_pos h

/-- The bytes in use. -/
def window (s : TcpConnection) : Bytes :=
  slice (s.buffer s.usingLargeBuffer) s.offsetBytes s.readBytes

/-- The small buffer is in use, and its bytes in use are inside. -/
structure Small (s : TcpConnection) : Prop where
  length : s.smallBuffer.length = kSmallBufferSize
  small : s.usingLargeBuffer = false
  large : s.largeBuffer = []
  inside : s.offsetBytes + s.readBytes ≤ kSmallBufferSize

theorem Small.window (h : s.Small) : s.window = slice s.smallBuffer s.offsetBytes s.readBytes := by
  rw [TcpConnection.window, h.small]
  rfl

/-- **`ensureAvailableInBuffer`** moves the bytes in use to the start of a buffer, if
there is too little room behind them. -/
theorem ensureAvailableInBuffer_small (h : s.Small) (amount : Nat) :
    (s.offsetBytes + amount ≤ kSmallBufferSize ∧ s.ensureAvailableInBuffer amount = some s) ∨
    (kSmallBufferSize < s.offsetBytes + amount ∧ amount ≤ kSmallBufferSize ∧
      s.ensureAvailableInBuffer amount = some { s with
        smallBuffer := paste s.smallBuffer 0 s.window, offsetBytes := 0 }) ∨
    (kSmallBufferSize < amount ∧ s.ensureAvailableInBuffer amount = some { s with
        largeBuffer := paste (List.replicate amount 0) 0 s.window
        usingLargeBuffer := true, offsetBytes := 0 }) := by
  have hinside := h.inside
  have hlength := h.length
  have hfull : s.whole.dropFront s.offsetBytes =
      some ⟨false, s.offsetBytes, kSmallBufferSize - s.offsetBytes⟩ := by
    unfold whole buffer
    rw [h.small, if_neg Bool.false_ne_true, hlength, Span.dropFront_of_le (by omega), Nat.zero_add]
  have hread : (⟨false, s.offsetBytes, kSmallBufferSize - s.offsetBytes⟩ : Span).subspan 0
      s.readBytes = some ⟨false, s.offsetBytes, s.readBytes⟩ := Span.subspan_of_le (by omega)
  have hload : s.load ⟨false, s.offsetBytes, s.readBytes⟩ = s.window := by
    rw [h.window]
    rfl
  have hwindow : s.window.length = s.readBytes := by
    rw [h.window, length_slice (by omega)]
  unfold ensureAvailableInBuffer
  rw [hfull]
  by_cases hroom : s.offsetBytes + amount ≤ kSmallBufferSize
  · refine .inl ⟨hroom, ?_⟩
    show (if _ then _ else _) = _
    rw [if_pos (show kSmallBufferSize - s.offsetBytes ≥ amount by omega)]
    rfl
  · have htoo : ¬ kSmallBufferSize - s.offsetBytes ≥ amount := by omega
    simp only [Option.bind_eq_bind, Option.bind_some, if_neg htoo, hread, hload, hlength, h.small,
      Bool.false_eq_true, if_false]
    by_cases hsmall : amount ≤ kSmallBufferSize
    · refine .inr (.inl ⟨by omega, hsmall, ?_⟩)
      rw [if_pos hsmall, copyBytes, if_pos (by rw [hwindow, hlength]; omega)]
      rfl
    · refine .inr (.inr ⟨by omega, ?_⟩)
      rw [if_neg hsmall, if_neg (by rw [h.large, List.length_nil]; omega), copyBytes,
        if_pos (by rw [hwindow, List.length_replicate]; omega)]
      rfl

/-! ## Invariants -/

variable {p : Protocol} {D v : Bytes} {available : Span}

/-- What holds between two reads, when the stream was `D` so far: what was passed on
are its frames, and the bytes in use are what is left. -/
structure Sound (p : Protocol) (D : Bytes) (s : TcpConnection) : Prop where
  protocol : s.protocol = p
  received : s.receiveState = D.length
  connected : s.connected = true
  errors : s.errors = []
  split : p.framing.split D = (s.packets, s.window)
  length : s.smallBuffer.length = kSmallBufferSize
  large : s.usingLargeBuffer = false → s.largeBuffer = []
  inside : s.offsetBytes + s.readBytes + s.leftBytes ≤ (s.buffer s.usingLargeBuffer).length
  idle : s.leftBytes = 0 → s.usingLargeBuffer = false ∧
    s.offsetBytes + kMinPacketBuffer ≤ kSmallBufferSize ∧ p.framing.head s.window = .unknown
  waits : 0 < s.leftBytes → p.framing.head s.window = .size (s.readBytes + s.leftBytes)

/-- What reading comes to: it goes on, or a packet ended the connection, or a bad
length did. -/
inductive Outcome (env : Env) (p : Protocol) (D : Bytes) (s : TcpConnection) : Prop where
  | sound (h : s.Sound p D)
  | dropped (connected : s.connected = false) (errors : s.errors = [])
      (keeps : env.keeps s.packets = false) (packets : s.packets <+: (p.framing.split D).1)
  | failed (connected : s.connected = false) (errors : s.errors = [kErrorCodeOther])
      (packets : s.packets = (p.framing.split D).1)
      (invalid : p.framing.head (p.framing.split D).2 = .invalid)

/-- What holds while packets are taken out of the small buffer: both the bytes in use
and those of `available` are `v`, the rest of what was read. -/
structure Scanning (p : Protocol) (v : Bytes) (s : TcpConnection) (available : Span) : Prop where
  protocol : s.protocol = p
  connected : s.connected = true
  errors : s.errors = []
  left : s.leftBytes = 0
  small : s.Small
  span : available = ⟨false, available.start, s.readBytes⟩
  inside : available.start + s.readBytes ≤ kSmallBufferSize
  here : slice s.smallBuffer available.start s.readBytes = v
  there : s.window = v
  room : s.offsetBytes + kMinPacketBuffer ≤ kSmallBufferSize
  place : available.start = s.offsetBytes ∨ s.offsetBytes + s.readBytes ≤ kMinPacketBuffer

theorem Scanning.load (h : s.Scanning p v available) : s.load available = v := by
  rw [h.span, ← h.here]
  rfl

theorem Scanning.length (h : s.Scanning p v available) : v.length = s.readBytes := by
  rw [← h.here, length_slice (by rw [h.small.length]; exact h.inside)]

theorem Scanning.head_of_empty (h : s.Scanning p v available) (hzero : s.readBytes = 0) :
    p.framing.head v = .unknown := by
  rw [List.eq_nil_of_length_eq_zero (h.length.trans hzero)]
  exact Protocol.head_nil p

/-- **One packet taken** out of the small buffer. -/
theorem Scanning.take (h : s.Scanning p v available) {n : Nat} (hn : n ≤ s.readBytes)
    (packets : List Bytes) :
    ∃ s', ({ s with
        packets := packets
        offsetBytes := s.offsetBytes + n
        readBytes := s.readBytes - n } : TcpConnection).ensureAvailableInBuffer kMinPacketBuffer =
          some s' ∧
      s'.packets = packets ∧ s'.receiveState = s.receiveState ∧ s'.readBytes = s.readBytes - n ∧
      s'.Scanning p (v.drop n) ⟨false, available.start + n, s.readBytes - n⟩ := by
  have hlength := h.small.length
  have hinside := h.small.inside
  have hmin : 2 * kMinPacketBuffer ≤ kSmallBufferSize := by decide
  have hsmall : Small { s with
      packets := packets, offsetBytes := s.offsetBytes + n, readBytes := s.readBytes - n } :=
    { length := hlength
      small := h.small.small
      large := h.small.large
      inside := by show s.offsetBytes + n + (s.readBytes - n) ≤ _; omega }
  have hhere : slice s.smallBuffer (available.start + n) (s.readBytes - n) = v.drop n := by
    rw [← h.here, drop_slice]
  have hthere : window { s with
      packets := packets
      offsetBytes := s.offsetBytes + n
      readBytes := s.readBytes - n } = v.drop n := by
    rw [hsmall.window, ← h.there, h.small.window, drop_slice]
  have hrest : (v.drop n).length = s.readBytes - n := by rw [List.length_drop, h.length]
  obtain ⟨hroom, heq⟩ | ⟨hroom, -, heq⟩ | ⟨hbig, -⟩ :=
    ensureAvailableInBuffer_small hsmall kMinPacketBuffer
  · refine ⟨_, heq, rfl, rfl, rfl, ?_⟩
    exact
      { protocol := h.protocol
        connected := h.connected
        errors := h.errors
        left := h.left
        small := hsmall
        span := rfl
        inside := by show available.start + n + (s.readBytes - n) ≤ _; have := h.inside; omega
        here := hhere
        there := hthere
        room := hroom
        place := by
          rcases h.place with hplace | hplace
          · exact .inl (congrArg (· + n) hplace)
          · right
            show s.offsetBytes + n + (s.readBytes - n) ≤ _
            omega }
  · -- The bytes were moved to the start, and `available` stays at the end.
    have hplace : available.start = s.offsetBytes := by
      refine h.place.resolve_right fun hlow => ?_
      have hroom' : kSmallBufferSize < s.offsetBytes + n + kMinPacketBuffer := hroom
      omega
    have hroom' : kSmallBufferSize < s.offsetBytes + n + kMinPacketBuffer := hroom
    rw [hthere] at heq
    have hpaste : (paste s.smallBuffer 0 (v.drop n)).length = kSmallBufferSize := by
      rw [length_paste (by omega), hlength]
    have hmoved : slice (paste s.smallBuffer 0 (v.drop n)) 0 (s.readBytes - n) = v.drop n := by
      rw [← hrest]
      exact slice_paste_self (Nat.zero_le _)
    have hsmall' : Small { s with
        packets := packets, readBytes := s.readBytes - n
        smallBuffer := paste s.smallBuffer 0 (v.drop n), offsetBytes := 0 } :=
      { length := hpaste
        small := h.small.small
        large := h.small.large
        inside := by show 0 + (s.readBytes - n) ≤ _; omega }
    refine ⟨_, heq, rfl, rfl, rfl, ?_⟩
    exact
      { protocol := h.protocol
        connected := h.connected
        errors := h.errors
        left := h.left
        small := hsmall'
        span := rfl
        inside := by show available.start + n + (s.readBytes - n) ≤ _; have := h.inside; omega
        here := by
          show slice (paste s.smallBuffer 0 (v.drop n)) (available.start + n) (s.readBytes - n) = _
          rw [slice_paste_of_disjoint (Nat.zero_le _) (by omega), hhere]
        there := by rw [hsmall'.window]; exact hmoved
        room := by show 0 + _ ≤ _; omega
        place := .inr (by show 0 + (s.readBytes - n) ≤ _; omega) }
  · omega

/-- **A packet that is not there as a whole** is waited for. -/
theorem Scanning.wait (h : s.Scanning p v available) {n : Nat} (hhead : p.framing.head v = .size n)
    (hn : s.readBytes < n) (hreceived : s.receiveState = D.length)
    (hsplit : p.framing.split D = (s.packets, v)) :
    ∃ s', ({ s with leftBytes := n - s.readBytes } : TcpConnection).ensureAvailableInBuffer n =
      some s' ∧ s'.Sound p D := by
  have hlength := h.small.length
  have hwindow := h.length
  have hsmall : Small { s with leftBytes := n - s.readBytes } :=
    { length := hlength
      small := h.small.small
      large := h.small.large
      inside := h.small.inside }
  have hthere : window { s with leftBytes := n - s.readBytes } = v := h.there
  have hsound : ∀ (small large : Bytes) (isLarge : Bool) (offset : Nat),
      small.length = kSmallBufferSize → (isLarge = false → large = []) →
      slice (if isLarge then large else small) offset s.readBytes = v →
      offset + n ≤ (if isLarge then large else small).length →
      Sound p D { s with
        leftBytes := n - s.readBytes, smallBuffer := small, largeBuffer := large
        usingLargeBuffer := isLarge, offsetBytes := offset } :=
    fun small large isLarge offset hsmall hlarge hslice hroom =>
      { protocol := h.protocol
        received := hreceived
        connected := h.connected
        errors := h.errors
        split := hsplit.trans (congrArg (Prod.mk s.packets) hslice.symm)
        length := hsmall
        large := hlarge
        inside := by
          show offset + s.readBytes + (n - s.readBytes) ≤ (if isLarge then large else small).length
          omega
        idle := fun hidle => absurd hidle (by show n - s.readBytes ≠ 0; omega)
        waits := fun _ => by
          show p.framing.head (slice (if isLarge then large else small) offset s.readBytes) =
            .size (s.readBytes + (n - s.readBytes))
          rw [hslice, hhead]
          congr 1
          omega }
  have hmoved : ∀ buffer : Bytes, slice (paste buffer 0 v) 0 s.readBytes = v := fun buffer => by
    rw [← hwindow]
    exact slice_paste_self (Nat.zero_le _)
  obtain ⟨hroom, heq⟩ | ⟨-, hfits, heq⟩ | ⟨hbig, heq⟩ := ensureAvailableInBuffer_small hsmall n
  · refine ⟨_, heq, hsound s.smallBuffer s.largeBuffer s.usingLargeBuffer s.offsetBytes hlength
      (fun _ => h.small.large) h.there ?_⟩
    rw [h.small.small, if_neg Bool.false_ne_true, hlength]
    exact hroom
  · rw [hthere] at heq
    have hpaste : (paste s.smallBuffer 0 v).length = kSmallBufferSize := by
      rw [length_paste (by omega), hlength]
    refine ⟨_, heq, hsound _ s.largeBuffer s.usingLargeBuffer 0 hpaste (fun _ => h.small.large) ?_ ?_⟩
    · rw [h.small.small]
      exact hmoved _
    · rw [h.small.small, if_neg Bool.false_ne_true, hpaste]
      omega
  · rw [hthere] at heq
    have hreplicate : (List.replicate n (0 : UInt8)).length = n := List.length_replicate
    refine ⟨_, heq, hsound s.smallBuffer _ true 0 hlength (fun hc => by cases hc) (hmoved _) ?_⟩
    rw [if_pos rfl, length_paste (by omega), hreplicate, Nat.zero_add]

theorem socketPacket_frame (env : Env) (hconnected : s.connected = true) {n : Nat} {d : Bytes}
    (hhead : s.protocol.framing.head d = .size n) (hn : n ≤ d.length) :
    s.socketPacket env (d.take n) = some { s with
      packets := s.packets ++ [d.take n], connected := env.keeps (s.packets ++ [d.take n]) } := by
  obtain ⟨ints, hints⟩ := Protocol.parsePacket_frame hhead hn
  rw [socketPacket, if_pos hconnected, hints]
  rfl

/-- Too few bytes for a length. -/
theorem Scanning.stop (h : s.Scanning p v available) (hhead : p.framing.head v = .unknown)
    (hreceived : s.receiveState = D.length)
    (hsplit : p.framing.split D = (s.packets ++ (p.framing.split v).1, (p.framing.split v).2)) :
    s.Sound p D := by
  rw [Framing.split_of_stuck (Framing.stuck_of_unknown hhead), List.append_nil] at hsplit
  exact
    { protocol := h.protocol
      received := hreceived
      connected := h.connected
      errors := h.errors
      split := by rw [h.there]; exact hsplit
      length := h.small.length
      large := fun _ => h.small.large
      inside := by
        rw [h.left, h.small.small, buffer, if_neg Bool.false_ne_true, h.small.length]
        exact h.small.inside
      idle := fun _ => ⟨h.small.small, h.room, by rw [h.there]; exact hhead⟩
      waits := fun hwait => absurd h.left hwait.ne' }

/-- **The loop over the packets read**, by induction on how many there can be. -/
theorem readPackets_outcome (fuel : Nat) (h : s.Scanning p v available) (hfuel : s.readBytes ≤ fuel)
    (hreceived : s.receiveState = D.length)
    (hsplit : p.framing.split D = (s.packets ++ (p.framing.split v).1, (p.framing.split v).2)) :
    ∃ s', s.readPackets env fuel available = some s' ∧ s'.Outcome env p D := by
  induction fuel generalizing s v available with
  | zero =>
    have hzero : s.readBytes = 0 := Nat.le_zero.mp hfuel
    refine ⟨s, ?_, .sound (h.stop (h.head_of_empty hzero) hreceived hsplit)⟩
    rw [readPackets, if_neg (by omega)]
  | succ fuel ih =>
    have hread : s.protocol.readPacketLength (s.load available) = p.readPacketLength v := by
      rw [h.load, h.protocol]
    have hsize : available.size = s.readBytes := by rw [h.span]
    rw [readPackets, hread]
    by_cases hpos : s.readBytes > 0
    · rw [if_pos hpos]
      dsimp only
      by_cases hunknown : p.readPacketLength v = Protocol.kUnknownSize
      · rw [if_pos hunknown]
        exact ⟨s, rfl, .sound (h.stop (Protocol.head_unknown.mpr hunknown) hreceived hsplit)⟩
      · rw [if_neg hunknown]
        by_cases hbad : p.readPacketLength v ≤ 0
        · have hinvalid := (Protocol.head_invalid hunknown).mpr hbad
          rw [Framing.split_of_stuck (Framing.stuck_of_invalid hinvalid), List.append_nil] at hsplit
          rw [if_pos hbad]
          refine ⟨_, rfl, .failed rfl ?_ ?_ ?_⟩
          · rw [error, h.errors]
            rfl
          · rw [hsplit]
            rfl
          · rw [hsplit]
            exact hinvalid
        · rw [if_neg hbad]
          obtain ⟨n, hn⟩ : ∃ n : Nat, p.readPacketLength v = n := ⟨_, (Int.toNat_of_nonneg (by omega)).symm⟩
          rw [hn] at hbad ⊢
          have hhead := (Protocol.head_size (by omega)).mpr hn
          rw [Int.toNat_natCast, hsize]
          by_cases hwhole : n ≤ s.readBytes
          · have hle : n ≤ v.length := by rw [h.length]; exact hwhole
            have hpacket : available.subspan 0 n = some ⟨false, available.start, n⟩ := by
              rw [h.span]
              exact Span.subspan_of_le (by omega)
            have hload : s.load ⟨false, available.start, n⟩ = v.take n := by
              rw [← h.here, take_slice, Nat.min_eq_left hwhole]
              rfl
            have hsocket : s.socketPacket env (v.take n) = some { s with
                packets := s.packets ++ [v.take n]
                connected := env.keeps (s.packets ++ [v.take n]) } :=
              socketPacket_frame env h.connected (by rw [h.protocol]; exact hhead) hle
            have hdrop : available.dropFront n =
                some ⟨false, available.start + n, s.readBytes - n⟩ := by
              rw [h.span]
              exact Span.dropFront_of_le hwhole
            rw [Framing.split_of_size hhead hle, List.append_cons] at hsplit
            rw [if_pos (by omega), hpacket]
            simp only [Option.bind_eq_bind, Option.bind_some, hload, hsocket, hdrop]
            cases hkeeps : env.keeps (s.packets ++ [v.take n]) with
            | false =>
              refine ⟨_, rfl, .dropped rfl h.errors hkeeps ?_⟩
              rw [hsplit]
              exact List.prefix_append ..
            | true =>
              obtain ⟨s', heq, hpackets, hreceived', hread', hscan⟩ :=
                h.take hwhole (s.packets ++ [v.take n])
              have hfront := p.framing.pos hhead
              obtain ⟨s'', hrun, houtcome⟩ := ih hscan (by omega) (hreceived'.trans hreceived)
                (by rw [hsplit, hpackets])
              rw [h.connected] at heq
              refine ⟨s'', ?_, houtcome⟩
              rw [if_neg (by decide), heq, Option.bind_some]
              exact hrun
          · have hstuck : p.framing.Stuck v := fun m hm => by
              obtain rfl : n = m := Head.size.inj (hhead.symm.trans hm)
              rw [h.length]
              omega
            rw [Framing.split_of_stuck hstuck, List.append_nil] at hsplit
            obtain ⟨s', heq, hsound⟩ := h.wait hhead (by omega) hreceived hsplit
            rw [if_neg (by omega)]
            exact ⟨s', heq, .sound hsound⟩
    · rw [if_neg hpos]
      exact ⟨s, rfl, .sound (h.stop (h.head_of_empty (by omega)) hreceived hsplit)⟩

/-! ## Reads -/

theorem length_aesCtrEncrypt (cipher : Nat → UInt8 → UInt8) (data : Bytes) (state : Nat) :
    (aesCtrEncrypt cipher data state).length = data.length := List.length_mapIdx

/-- The cipher goes on from where it was. -/
theorem aesCtrEncrypt_append (cipher : Nat → UInt8 → UInt8) (a b : Bytes) (state : Nat) :
    aesCtrEncrypt cipher (a ++ b) state =
      aesCtrEncrypt cipher a state ++ aesCtrEncrypt cipher b (state + a.length) := by
  rw [aesCtrEncrypt, List.mapIdx_append]
  congr 2
  funext i c
  rw [Nat.add_assoc, Nat.add_comm i]

theorem readOnce_eq {bytes : Bytes} (hne : bytes ≠ []) (hlimit : 0 < s.readLimit)
    (hle : (bytes.length : Int) ≤ s.readLimit)
    (hinside : s.offsetBytes + s.readBytes + s.readLimit.toNat ≤
      (s.buffer s.usingLargeBuffer).length) :
    s.readOnce env bytes = (s.received env ⟨s.usingLargeBuffer, s.offsetBytes + s.readBytes,
      bytes.length⟩ bytes).afterRead env ⟨s.usingLargeBuffer, s.offsetBytes,
        (s.buffer s.usingLargeBuffer).length - s.offsetBytes⟩ bytes.length := by
  have hfull : s.whole.dropFront s.offsetBytes = some ⟨s.usingLargeBuffer, s.offsetBytes,
      (s.buffer s.usingLargeBuffer).length - s.offsetBytes⟩ := by
    rw [whole, Span.dropFront_of_le (by omega), Nat.zero_add]
  have hfree : (⟨s.usingLargeBuffer, s.offsetBytes,
      (s.buffer s.usingLargeBuffer).length - s.offsetBytes⟩ : Span).dropFront s.readBytes =
        some ⟨s.usingLargeBuffer, s.offsetBytes + s.readBytes,
          (s.buffer s.usingLargeBuffer).length - s.offsetBytes - s.readBytes⟩ :=
    Span.dropFront_of_le (by omega)
  have hsub : ∀ n, n ≤ s.readLimit.toNat → (⟨s.usingLargeBuffer, s.offsetBytes + s.readBytes,
      (s.buffer s.usingLargeBuffer).length - s.offsetBytes - s.readBytes⟩ : Span).subspan 0 n =
        some ⟨s.usingLargeBuffer, s.offsetBytes + s.readBytes, n⟩ := fun n hn =>
    Span.subspan_of_le (by omega)
  have hempty : ¬ bytes.isEmpty = true := fun h => hne (List.isEmpty_iff.mp h)
  unfold readOnce
  rw [if_neg (not_le.mpr hlimit), hfull]
  simp only [Option.bind_eq_bind, Option.bind_some, hfree, hsub _ (Nat.le_refl _), if_neg hempty,
    hsub bytes.length (by omega)]

/-- The decrypted bytes stand behind the bytes in use. -/
theorem received_cases (env : Env) (s : TcpConnection) (bytes : Bytes)
    (hinside : s.offsetBytes + s.readBytes + bytes.length ≤ (s.buffer s.usingLargeBuffer).length) :
    ∃ small large, s.received env ⟨s.usingLargeBuffer, s.offsetBytes + s.readBytes, bytes.length⟩
        bytes = { s with
          smallBuffer := small, largeBuffer := large
          receiveState := s.receiveState + bytes.length
          readBytes := s.readBytes + bytes.length } ∧
      small.length = s.smallBuffer.length ∧ (s.usingLargeBuffer = false → large = s.largeBuffer) ∧
      (if s.usingLargeBuffer then large else small).length = (s.buffer s.usingLargeBuffer).length ∧
      slice (if s.usingLargeBuffer then large else small) s.offsetBytes
        (s.readBytes + bytes.length) =
          s.window ++ aesCtrEncrypt env.cipher bytes s.receiveState := by
  have hcipher := length_aesCtrEncrypt env.cipher bytes s.receiveState
  have hextend : slice (paste (s.buffer s.usingLargeBuffer) (s.offsetBytes + s.readBytes)
      (aesCtrEncrypt env.cipher bytes s.receiveState)) s.offsetBytes (s.readBytes + bytes.length) =
        s.window ++ aesCtrEncrypt env.cipher bytes s.receiveState := by
    rw [← hcipher]
    exact slice_paste_extend (by omega)
  have hpaste : (paste (s.buffer s.usingLargeBuffer) (s.offsetBytes + s.readBytes)
      (aesCtrEncrypt env.cipher bytes s.receiveState)).length =
        (s.buffer s.usingLargeBuffer).length := length_paste (by omega)
  unfold received store
  cases hlarge : s.usingLargeBuffer with
  | false =>
    rw [hlarge, buffer, if_neg Bool.false_ne_true] at hextend hpaste
    exact ⟨_, s.largeBuffer, rfl, hpaste, fun _ => rfl, hpaste, hextend⟩
  | true =>
    rw [hlarge, buffer, if_pos rfl] at hextend hpaste
    exact ⟨s.smallBuffer, _, rfl, rfl, fun hc => (by cases hc), hpaste, hextend⟩

theorem Sound.length_window (h : s.Sound p D) : s.window.length = s.readBytes := by
  have hinside := h.inside
  rw [window, length_slice (by omega)]

/-- The frames of the longer stream. -/
theorem Sound.split_append (h : s.Sound p D) (e : Bytes) :
    p.framing.split (D ++ e) = (s.packets ++ (p.framing.split (s.window ++ e)).1,
      (p.framing.split (s.window ++ e)).2) := by
  rw [Framing.split_append, h.split]

/-- **A read for a packet** that is waited for. -/
theorem readOnce_waiting (h : s.Sound p D) (hwait : 0 < s.leftBytes) {bytes : Bytes}
    (hne : bytes ≠ []) (hle : bytes.length ≤ s.leftBytes) :
    ∃ s', s.readOnce env bytes = some s' ∧
      s'.Outcome env p (D ++ aesCtrEncrypt env.cipher bytes D.length) := by
  have hpos := List.length_pos_iff.mpr hne
  have hinside := h.inside
  have hlimit : s.readLimit = s.leftBytes := if_pos hwait
  have hcipher := length_aesCtrEncrypt env.cipher bytes D.length
  have hsplit := h.split_append (aesCtrEncrypt env.cipher bytes D.length)
  have hwindow := h.length_window
  obtain ⟨small, large, heq, hsmall, hlarge, hlength, hslice⟩ :=
    received_cases env s bytes (by omega)
  rw [h.received] at hslice
  have hhead : p.framing.head (s.window ++ aesCtrEncrypt env.cipher bytes D.length) =
      .size (s.readBytes + s.leftBytes) := by
    have hsize := h.waits hwait
    rw [p.framing.stable (fun hu => by rw [hsize] at hu; cases hu), hsize]
  rw [readOnce_eq hne (by omega) (by omega) (by omega), heq, afterRead, if_pos hwait,
    if_neg (not_lt.mpr hle)]
  generalize hv : s.window ++ aesCtrEncrypt env.cipher bytes D.length = v at *
  have hv' : v.length = s.readBytes + bytes.length := by
    rw [← hv, List.length_append, hwindow, hcipher]
  split
  · next hdone =>
    -- The packet is whole.
    have hwhole : v.length = s.readBytes + s.leftBytes := by
      change s.leftBytes - bytes.length = 0 at hdone
      omega
    rw [Framing.split_singleton hhead hwhole (Protocol.head_nil p)] at hsplit
    have hpacket : (⟨s.usingLargeBuffer, s.offsetBytes,
        (s.buffer s.usingLargeBuffer).length - s.offsetBytes⟩ : Span).subspan 0
          (s.readBytes + bytes.length) =
            some ⟨s.usingLargeBuffer, s.offsetBytes, s.readBytes + bytes.length⟩ :=
      Span.subspan_of_le (by omega)
    have hload : load { s with
        smallBuffer := small, largeBuffer := large
        receiveState := s.receiveState + bytes.length
        readBytes := s.readBytes + bytes.length }
          ⟨s.usingLargeBuffer, s.offsetBytes, s.readBytes + bytes.length⟩ = v := hslice
    have hsocket : socketPacket env { s with
        smallBuffer := small, largeBuffer := large
        receiveState := s.receiveState + bytes.length
        readBytes := s.readBytes + bytes.length, leftBytes := 0 } v = some { s with
          smallBuffer := small, largeBuffer := large
          receiveState := s.receiveState + bytes.length
          readBytes := s.readBytes + bytes.length, leftBytes := 0
          packets := s.packets ++ [v], connected := env.keeps (s.packets ++ [v]) } := by
      have hframe := socketPacket_frame env (s := { s with
        smallBuffer := small, largeBuffer := large
        receiveState := s.receiveState + bytes.length
        readBytes := s.readBytes + bytes.length, leftBytes := 0 }) h.connected
        (by show s.protocol.framing.head v = _; rw [h.protocol, hhead]) hwhole.ge
      rwa [List.take_of_length_le hwhole.le] at hframe
    simp only [Option.bind_eq_bind, hpacket, Option.bind_some, hload, hsocket]
    cases hkeeps : env.keeps (s.packets ++ [v]) with
    | false =>
      refine ⟨_, rfl, .dropped rfl h.errors hkeeps ?_⟩
      exact hsplit ▸ List.prefix_rfl
    | true =>
      refine ⟨_, rfl, .sound ?_⟩
      exact
        { protocol := h.protocol
          received := by
            show s.receiveState + bytes.length = _
            rw [List.length_append, h.received, hcipher]
          connected := rfl
          errors := h.errors
          split := by
            rw [hsplit]
            rfl
          length := hsmall.trans h.length
          large := fun _ => rfl
          inside := Nat.zero_le _
          idle := fun _ => ⟨rfl, by show 0 + kMinPacketBuffer ≤ kSmallBufferSize; decide,
            Protocol.head_nil p⟩
          waits := fun hc => absurd hc (Nat.lt_irrefl 0) }
  · next hmore =>
    change ¬ s.leftBytes - bytes.length = 0 at hmore
    have hstuck : p.framing.Stuck v := fun n hn => by
      obtain rfl := Head.size.inj (hhead.symm.trans hn)
      omega
    rw [Framing.split_of_stuck hstuck, List.append_nil] at hsplit
    refine ⟨_, rfl, .sound ?_⟩
    exact
      { protocol := h.protocol
        received := by
          show s.receiveState + bytes.length = _
          rw [List.length_append, h.received, hcipher]
        connected := h.connected
        errors := h.errors
        split := hsplit.trans (congrArg (Prod.mk s.packets) hslice.symm)
        length := hsmall.trans h.length
        large := fun hs => (hlarge hs).trans (h.large hs)
        inside := by
          show s.offsetBytes + (s.readBytes + bytes.length) + (s.leftBytes - bytes.length) ≤
            (if s.usingLargeBuffer then large else small).length
          omega
        idle := fun hidle => absurd hidle hmore
        waits := fun _ => by
          show p.framing.head (slice (if s.usingLargeBuffer then large else small) s.offsetBytes
            (s.readBytes + bytes.length)) =
              .size (s.readBytes + bytes.length + (s.leftBytes - bytes.length))
          rw [hslice, hhead]
          congr 1
          omega }

/-- **A read into the small buffer**, which may hold many packets. -/
theorem readOnce_idle (h : s.Sound p D) (hidle : s.leftBytes = 0) {bytes : Bytes}
    (hne : bytes ≠ []) (hle : (bytes.length : Int) ≤ s.readLimit) :
    ∃ s', s.readOnce env bytes = some s' ∧
      s'.Outcome env p (D ++ aesCtrEncrypt env.cipher bytes D.length) := by
  obtain ⟨husing, hroom, hhead⟩ := h.idle hidle
  have hnot : ¬ 0 < s.leftBytes := by omega
  have hlimit : s.readLimit = kSmallBufferSize - s.offsetBytes - s.readBytes := if_neg hnot
  have hbuffer : (s.buffer s.usingLargeBuffer).length = kSmallBufferSize := by
    rw [husing]
    exact h.length
  have hwindow := h.length_window
  have hinside := h.inside
  have hmin : kMinPacketBuffer = 256 := rfl
  have hfew := Protocol.length_of_unknown hhead
  have hcipher := length_aesCtrEncrypt env.cipher bytes D.length
  have hsplit := h.split_append (aesCtrEncrypt env.cipher bytes D.length)
  obtain ⟨small, large, heq, hsmall, hlarge, hlength, hslice⟩ :=
    received_cases env s bytes (by omega)
  rw [h.received, husing, if_neg Bool.false_ne_true] at hslice
  have havailable : (⟨s.usingLargeBuffer, s.offsetBytes,
      (s.buffer s.usingLargeBuffer).length - s.offsetBytes⟩ : Span).subspan 0
        (s.readBytes + bytes.length) =
          some ⟨s.usingLargeBuffer, s.offsetBytes, s.readBytes + bytes.length⟩ :=
    Span.subspan_of_le (by omega)
  rw [readOnce_eq hne (by omega) (by omega) (by omega), heq, afterRead, if_neg hnot]
  simp only [Option.bind_eq_bind, havailable, Option.bind_some]
  have hscan : Scanning p (s.window ++ aesCtrEncrypt env.cipher bytes D.length) { s with
      smallBuffer := small, largeBuffer := large
      receiveState := s.receiveState + bytes.length
      readBytes := s.readBytes + bytes.length }
        ⟨s.usingLargeBuffer, s.offsetBytes, s.readBytes + bytes.length⟩ :=
    { protocol := h.protocol
      connected := h.connected
      errors := h.errors
      left := hidle
      small :=
        { length := hsmall.trans h.length
          small := husing
          large := (hlarge husing).trans (h.large husing)
          inside := by show s.offsetBytes + (s.readBytes + bytes.length) ≤ _; omega }
      span := by rw [husing]
      inside := by show s.offsetBytes + (s.readBytes + bytes.length) ≤ _; omega
      here := hslice
      there := by
        show slice (if s.usingLargeBuffer then large else small) _ _ = _
        rw [husing]
        exact hslice
      room := hroom
      place := .inl rfl }
  refine readPackets_outcome _ hscan (Nat.le_refl _) ?_ hsplit
  show s.receiveState + bytes.length = _
  rw [List.length_append, h.received, hcipher]

/-- **One read** of a connection. -/
theorem readOnce_outcome (env : Env) (h : s.Sound p D) {bytes : Bytes} (hne : bytes ≠ [])
    (hle : (bytes.length : Int) ≤ s.readLimit) :
    ∃ s', s.readOnce env bytes = some s' ∧
      s'.Outcome env p (D ++ aesCtrEncrypt env.cipher bytes D.length) := by
  by_cases hwait : 0 < s.leftBytes
  · refine readOnce_waiting h hwait hne ?_
    rw [readLimit, if_pos hwait] at hle
    omega
  · exact readOnce_idle h (by omega) hne hle

/-! ## Runs -/

/-- What comes after a connection was dropped is not read. -/
theorem Outcome.append (h : s.Outcome env p D) (hnot : ¬ s.connected = true) (e : Bytes) :
    s.Outcome env p (D ++ e) := by
  cases h with
  | sound h => exact absurd h.connected hnot
  | dropped hconnected herrors hkeeps hpackets =>
    refine .dropped hconnected herrors hkeeps (hpackets.trans ?_)
    rw [Framing.split_append]
    exact List.prefix_append ..
  | failed hconnected herrors hpackets hinvalid =>
    have hnone : p.framing.head (p.framing.split D).2 ≠ .unknown := fun hu => by
      rw [hinvalid] at hu
      cases hu
    refine .failed hconnected herrors ?_ ?_
    · rw [Framing.split_append_invalid hinvalid]
      exact hpackets
    · rw [Framing.split_append_invalid hinvalid]
      exact (p.framing.stable hnone e).trans hinvalid

/-- How a socket may hand out its bytes: each read gives at least one and at most as
many as were asked for. -/
def Fits (env : Env) (s : TcpConnection) : List Bytes → Prop
  | [] => True
  | bytes :: rest => bytes ≠ [] ∧ (bytes.length : Int) ≤ s.readLimit ∧
      ∀ s', s.readOnce env bytes = some s' → s'.connected = true → Fits env s' rest

/-- **The loop of `socketRead`**, by induction on the reads. -/
theorem readAll_outcome (reads : List Bytes) (h : s.Sound p D) (hfits : Fits env s reads) :
    ∃ s', s.readAll env reads = some s' ∧
      s'.Outcome env p (D ++ aesCtrEncrypt env.cipher reads.flatten D.length) := by
  induction reads generalizing s D with
  | nil => exact ⟨s, rfl, .sound (by rw [List.flatten_nil]; exact (List.append_nil D).symm ▸ h)⟩
  | cons bytes rest ih =>
    obtain ⟨hne, hle, hrest⟩ := hfits
    obtain ⟨s₁, heq, houtcome⟩ := readOnce_outcome env h hne hle
    have hlength : (D ++ aesCtrEncrypt env.cipher bytes D.length).length = D.length + bytes.length := by
      rw [List.length_append, length_aesCtrEncrypt]
    rw [readAll, heq, List.flatten_cons, aesCtrEncrypt_append, ← List.append_assoc, ← hlength]
    dsimp only
    have hsome : (!bytes.isEmpty) = true := by
      cases bytes with
      | nil => exact absurd rfl hne
      | cons => rfl
    rw [hsome, Bool.and_true]
    by_cases hconnected : s₁.connected = true
    · rw [if_pos hconnected]
      cases houtcome with
      | sound h₁ => exact ih h₁ (hrest s₁ heq hconnected)
      | dropped hdropped => exact absurd (hdropped.symm.trans hconnected) (by decide)
      | failed hfailed => exact absurd (hfailed.symm.trans hconnected) (by decide)
    · rw [if_neg hconnected]
      exact ⟨s₁, rfl, houtcome.append hconnected _⟩

/-- Each `readyRead` comes while the connection is not dropped. -/
def FitsRun (env : Env) (s : TcpConnection) : List (List Bytes) → Prop
  | [] => True
  | reads :: rest => s.connected = true → Fits env s.resizeSmall reads ∧
      ∀ s', s.socketRead env reads = some s' → FitsRun env s' rest

theorem Sound.resizeSmall (h : s.Sound p D) : s.resizeSmall = s := by
  have hne : ¬ s.smallBuffer.isEmpty = true := fun hempty => by
    have hlength := h.length
    rw [List.isEmpty_iff.mp hempty] at hlength
    exact absurd hlength (by decide)
  rw [TcpConnection.resizeSmall, if_neg hne]

theorem Outcome.resizeSmall (h : s.Outcome env p D) : s.resizeSmall.Outcome env p D := by
  cases h with
  | sound h =>
    rw [h.resizeSmall]
    exact .sound h
  | dropped hconnected herrors hkeeps hpackets => exact .dropped hconnected herrors hkeeps hpackets
  | failed hconnected herrors hpackets hinvalid =>
    exact .failed hconnected herrors hpackets hinvalid

/-- **Any number of `readyRead`s**, by induction on them. -/
theorem run_outcome (reads : List (List Bytes)) (h : s.resizeSmall.Outcome env p D)
    (hfits : FitsRun env s reads) :
    ∃ s', s.run env reads = some s' ∧ s'.resizeSmall.Outcome env p
      (D ++ aesCtrEncrypt env.cipher reads.flatten.flatten D.length) := by
  induction reads generalizing s D with
  | nil =>
    refine ⟨s, rfl, ?_⟩
    show s.resizeSmall.Outcome env p (D ++ [])
    rwa [List.append_nil]
  | cons now rest ih =>
    rw [run]
    by_cases hconnected : s.connected = true
    · obtain ⟨hnow, hrest⟩ := hfits hconnected
      have hsound : s.resizeSmall.Sound p D := by
        cases h with
        | sound h => exact h
        | dropped hdropped => exact absurd (hdropped.symm.trans hconnected) (by decide)
        | failed hfailed => exact absurd (hfailed.symm.trans hconnected) (by decide)
      have hexpects : s.leftBytes > 0 ∨ (!s.usingLargeBuffer) = true := by
        rcases Nat.eq_zero_or_pos s.leftBytes with hzero | hpos
        · have husing : s.usingLargeBuffer = false := (hsound.idle hzero).1
          exact .inr (by rw [husing]; rfl)
        · exact .inl hpos
      have hread : s.socketRead env now = s.resizeSmall.readAll env now := by
        rw [socketRead, if_pos hexpects, hconnected]
        rfl
      obtain ⟨s₁, heq, houtcome⟩ := readAll_outcome now hsound hnow
      have hlength : (D ++ aesCtrEncrypt env.cipher now.flatten D.length).length =
          D.length + now.flatten.length := by
        rw [List.length_append, length_aesCtrEncrypt]
      rw [if_pos hconnected, hread, heq, List.flatten_cons, List.flatten_append,
        aesCtrEncrypt_append, ← List.append_assoc, ← hlength]
      exact ih houtcome.resizeSmall (hrest s₁ (hread.trans heq))
    · rw [if_neg hconnected]
      exact ⟨s, rfl, h.append hconnected _⟩

theorem init_sound (p : Protocol) : Sound p [] (resizeSmall { protocol := p }) where
  protocol := rfl
  received := rfl
  connected := rfl
  errors := rfl
  split := Framing.split_of_stuck (Framing.stuck_of_unknown (Protocol.head_nil p))
  length := List.length_replicate
  large := fun _ => rfl
  inside := Nat.zero_le _
  idle := fun _ => ⟨rfl, by show 0 + kMinPacketBuffer ≤ kSmallBufferSize; decide,
    Protocol.head_nil p⟩
  waits := fun hc => absurd hc (Nat.lt_irrefl 0)

/-- **The packets are the frames of the stream**, however it is cut into reads: no
check fails, what is passed on is always a front of the frames, and if no packet ends
the connection then it is all of them, with an error reported exactly when they end
at a bad length. -/
theorem packets_eq_frames (env : Env) (p : Protocol) (reads : List (List Bytes))
    (hfits : FitsRun env { protocol := p } reads) :
    ∃ s, run env { protocol := p } reads = some s ∧
      s.packets <+: (p.framing.split (aesCtrEncrypt env.cipher reads.flatten.flatten 0)).1 ∧
      ((∀ packets, packets <+:
          (p.framing.split (aesCtrEncrypt env.cipher reads.flatten.flatten 0)).1 →
          env.keeps packets = true) →
        s.packets = (p.framing.split (aesCtrEncrypt env.cipher reads.flatten.flatten 0)).1 ∧
        (s.errors = [kErrorCodeOther] ∧ p.framing.head
            (p.framing.split (aesCtrEncrypt env.cipher reads.flatten.flatten 0)).2 = .invalid ∨
          s.errors = [] ∧ p.framing.head
            (p.framing.split (aesCtrEncrypt env.cipher reads.flatten.flatten 0)).2 ≠ .invalid)) := by
  obtain ⟨s, heq, houtcome⟩ := run_outcome reads (.sound (init_sound p)) hfits
  refine ⟨s, heq, ?_⟩
  rw [List.nil_append, List.length_nil] at houtcome
  generalize aesCtrEncrypt env.cipher reads.flatten.flatten 0 = D at houtcome ⊢
  cases houtcome with
  | sound h =>
    have hsplit : p.framing.split D = (s.packets, s.resizeSmall.window) := h.split
    rw [hsplit]
    refine ⟨List.prefix_rfl, fun _ => ⟨rfl, .inr ⟨h.errors, fun hinvalid => ?_⟩⟩⟩
    rcases Nat.eq_zero_or_pos s.resizeSmall.leftBytes with hzero | hpos
    · have hunknown := hinvalid.symm.trans (h.idle hzero).2.2
      cases hunknown
    · have hsize := hinvalid.symm.trans (h.waits hpos)
      cases hsize
  | dropped hconnected herrors hkeeps hpackets =>
    refine ⟨hpackets, fun hall => ?_⟩
    exact absurd ((hall s.packets hpackets).symm.trans hkeeps) (by decide)
  | failed hconnected herrors hpackets hinvalid =>
    have hall : s.packets = (p.framing.split D).1 := hpackets
    exact ⟨hall ▸ List.prefix_rfl, fun _ => ⟨hall, .inl ⟨herrors, hinvalid⟩⟩⟩

/-- Two packets of a word, and the start of a third, in one read. -/
theorem packets_eq_frames_two :
    let env : Env := { cipher := fun _ b => b, keeps := fun _ => true }
    let stream : Bytes := [1, 10, 11, 12, 13, 1, 20, 21, 22, 23, 1, 30]
    ∃ s, run env { protocol := .Version0 } [[stream]] = some s ∧
      s.packets <+: (Protocol.Version0.framing.split (aesCtrEncrypt env.cipher stream 0)).1 ∧
      ((∀ packets, packets <+:
          (Protocol.Version0.framing.split (aesCtrEncrypt env.cipher stream 0)).1 →
          env.keeps packets = true) →
        s.packets = (Protocol.Version0.framing.split (aesCtrEncrypt env.cipher stream 0)).1 ∧
        (s.errors = [kErrorCodeOther] ∧ Protocol.Version0.framing.head
            (Protocol.Version0.framing.split (aesCtrEncrypt env.cipher stream 0)).2 = .invalid ∨
          s.errors = [] ∧ Protocol.Version0.framing.head
            (Protocol.Version0.framing.split (aesCtrEncrypt env.cipher stream 0)).2 ≠ .invalid)) :=
  packets_eq_frames { cipher := fun _ b => b, keeps := fun _ => true } .Version0
    [[[1, 10, 11, 12, 13, 1, 20, 21, 22, 23, 1, 30]]]
    fun _ => ⟨⟨List.cons_ne_nil _ _, by decide, fun _ _ _ => trivial⟩, fun _ _ => trivial⟩

end TcpConnection

end MTP

end MessengerClient
