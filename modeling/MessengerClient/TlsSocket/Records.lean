import MessengerClient.Lib.Framing
import MessengerClient.TlsSocket

/-!
# MessengerClient.TlsSocket.Records

The records that follow the hello.  `payload` is what they hold, the last one as far
as it came; what `read` returned and what the socket still shows make up the payload
of all that came, whatever is still to come (`View`).
-/

namespace MessengerClient

namespace MTP

/-! ## Parts -/

theorem partLength_append {d : Bytes} {offset : Nat} (h : offset + kLengthSize ≤ d.length)
    (e : Bytes) : partLength (d ++ e) offset = partLength d offset := by
  have hsize : kLengthSize = 2 := rfl
  simp only [partLength, List.getD_eq_getElem?_getD]
  rw [List.getElem?_append_left (by omega), List.getElem?_append_left (by omega)]

theorem partLength_drop (d : Bytes) (skip offset : Nat) :
    partLength (d.drop skip) offset = partLength d (skip + offset) := by
  simp only [partLength, List.getD_eq_getElem?_getD, List.getElem?_drop, Nat.add_assoc]

theorem partLength_slice {d : Bytes} {start size offset : Nat} (h : offset + kLengthSize ≤ size) :
    partLength (slice d start size) offset = partLength d (start + offset) := by
  have hsize : kLengthSize = 2 := rfl
  simp only [partLength, List.getD_eq_getElem?_getD, getElem?_slice]
  rw [if_pos (by omega), if_pos (by omega), Nat.add_assoc]

theorem subspan_of_le {d : Bytes} {offset size : Nat} (h : offset + size ≤ d.length) :
    subspan d offset size = some (slice d offset size) := if_pos h

theorem subspanFrom_of_le {d : Bytes} {offset : Nat} (h : offset ≤ d.length) :
    subspanFrom d offset = some (d.drop offset) := if_pos h

theorem ReadPartLength_of_le {d : Bytes} {offset : Nat} (h : offset + kLengthSize ≤ d.length) :
    ReadPartLength d offset = some (partLength d offset) := by
  rw [ReadPartLength, subspan_of_le h, Option.map_some,
    partLength_slice (show 0 + kLengthSize ≤ kLengthSize from Nat.le_refl _), Nat.add_zero]

theorem CheckPart_iff {d check : Bytes} : CheckPart d check = true ↔ check <+: d := by
  unfold CheckPart
  split
  · next hlt =>
    refine iff_of_false Bool.false_ne_true fun hfront => ?_
    have hle := hfront.length_le
    omega
  · rw [beq_iff_eq, List.prefix_iff_eq_take, eq_comm]

theorem CheckPart_append {d check : Bytes} (h : check.length ≤ d.length) (e : Bytes) :
    CheckPart (d ++ e) check = CheckPart d check := by
  unfold CheckPart
  rw [if_neg (by rw [List.length_append]; omega), if_neg (by omega),
    List.take_append_of_le_length h]

namespace TlsSocket

/-! ## Records -/

def fullHeader : Nat := kServerHeader.length + kLengthSize

/-- A record: its header, the length of its payload, and the payload. -/
def records : Framing UInt8 where
  head d :=
    if d.length < fullHeader then .unknown
    else if !CheckPart d kServerHeader then .invalid
    else .size (fullHeader + partLength d kServerHeader.length)
  pos := by
    intro d n h
    split at h
    · cases h
    · split at h
      · cases h
      · obtain rfl := Head.size.inj h
        exact Nat.lt_of_lt_of_le (by decide) (Nat.le_add_right ..)
  stable := by
    intro d h e
    have hlong : ¬ d.length < fullHeader := fun hu => h (if_pos hu)
    have hheader : fullHeader = kServerHeader.length + kLengthSize := rfl
    rw [if_neg hlong, if_neg (by rw [List.length_append]; omega), CheckPart_append (by omega),
      partLength_append (by omega)]

/-- **The payload** of the records at the front of a stream, the last one as far as
it came. -/
def payload (d : Bytes) : Bytes :=
  ((records.split d).1.flatMap fun r => r.drop fullHeader) ++
    match records.head (records.split d).2 with
    | .size _ => (records.split d).2.drop fullHeader
    | _ => []

variable {d : Bytes}

theorem head_record (hlong : fullHeader ≤ d.length) (hcheck : CheckPart d kServerHeader = true) :
    records.head d = .size (fullHeader + partLength d kServerHeader.length) := by
  show (if _ then _ else _) = _
  rw [if_neg (not_lt.mpr hlong), hcheck]
  rfl

theorem payload_of_stuck (h : records.Stuck d) :
    payload d = match records.head d with
      | .size _ => d.drop fullHeader
      | _ => [] := by
  rw [payload, Framing.split_of_stuck h]
  rfl

theorem payload_short (h : d.length < fullHeader) : payload d = [] := by
  have hhead : records.head d = .unknown := if_pos h
  rw [payload_of_stuck (Framing.stuck_of_unknown hhead), hhead]

/-- Nothing comes after a bad header. -/
theorem payload_bad (hlong : fullHeader ≤ d.length) (hcheck : CheckPart d kServerHeader = false) :
    payload d = [] := by
  have hhead : records.head d = .invalid := by
    show (if _ then _ else _) = _
    rw [if_neg (not_lt.mpr hlong), hcheck]
    rfl
  rw [payload_of_stuck (Framing.stuck_of_invalid hhead), hhead]

/-- **The first record**, whole or not. -/
theorem payload_record (hlong : fullHeader ≤ d.length) (hcheck : CheckPart d kServerHeader = true) :
    payload d = (d.drop fullHeader).take (partLength d kServerHeader.length) ++
      payload (d.drop (fullHeader + partLength d kServerHeader.length)) := by
  have hhead := head_record hlong hcheck
  by_cases hwhole : fullHeader + partLength d kServerHeader.length ≤ d.length
  · rw [payload, Framing.split_of_size hhead hwhole, List.flatMap_cons, List.append_assoc,
      List.drop_take, Nat.add_sub_cancel_left]
    rfl
  · have hstuck : records.Stuck d := fun n hn => by
      obtain rfl := Head.size.inj (hhead.symm.trans hn)
      exact not_le.mp hwhole
    have hnil : d.drop (fullHeader + partLength d kServerHeader.length) = [] :=
      List.drop_eq_nil_of_le (by omega)
    rw [payload_of_stuck hstuck, hhead, hnil, payload_short (by decide), List.append_nil,
      List.take_of_length_le]
    rw [List.length_drop]
    omega

/-! ## What is still shown -/

/-- What a socket shows of bytes of which the first `limit` are payload. -/
def shown (limit : Nat) (d : Bytes) : Bytes := d.take limit ++ payload (d.drop limit)

variable {s s' : TlsSocket} {T R : Bytes}

/-- **Nothing is lost**: whatever comes after the bytes `T`, the payload is what was
returned and what is still shown. -/
def View (T R : Bytes) (s : TlsSocket) : Prop :=
  ∀ e, payload (T ++ e) =
    R ++ shown s.incomingGoodDataLimit (s.incoming.drop s.incomingGoodDataOffset ++ e)

theorem payload_header (h : d.length ≤ fullHeader) : payload d = [] := by
  rcases Nat.lt_or_ge d.length fullHeader with hshort | hlong
  · exact payload_short hshort
  · cases hcheck : CheckPart d kServerHeader with
    | false => exact payload_bad hlong hcheck
    | true =>
      rw [payload_record hlong hcheck, List.drop_eq_nil_of_le h, List.take_nil, List.nil_append,
        List.drop_eq_nil_of_le (by omega)]
      exact payload_short (by decide)

/-- A record, and what comes after what was received of it. -/
theorem payload_append (hlong : fullHeader ≤ d.length) (hcheck : CheckPart d kServerHeader = true)
    (e : Bytes) :
    payload (d ++ e) = shown (partLength d kServerHeader.length) (d.drop fullHeader ++ e) := by
  have hheader : fullHeader = kServerHeader.length + kLengthSize := rfl
  have happend : CheckPart (d ++ e) kServerHeader = true := by
    rw [CheckPart_append (by omega), hcheck]
  rw [payload_record (by rw [List.length_append]; omega) happend, partLength_append (by omega),
    ← List.drop_drop, List.drop_append_of_le_length hlong, shown]

theorem payload_append_bad (hlong : fullHeader ≤ d.length)
    (hcheck : CheckPart d kServerHeader = false) (e : Bytes) : payload (d ++ e) = [] := by
  have hheader : fullHeader = kServerHeader.length + kLengthSize := rfl
  refine payload_bad (by rw [List.length_append]; omega) ?_
  rw [CheckPart_append (by omega), hcheck]

/-! ## One check -/

/-- What `checkNextPacket` finds: nothing yet, a bad header, or a record with a payload. -/
inductive Checked (s : TlsSocket) : Bool × TlsSocket → Prop where
  | none (empty : payload s.incoming = []) : Checked s (true, s)
  | bad (ends : ∀ e, payload (s.incoming ++ e) = []) : Checked s (false, s)
  | record (limit skip : Nat) (pos : 0 < limit) (inside : skip + fullHeader < s.incoming.length)
      (view : ∀ e, payload (s.incoming ++ e) =
        shown limit ((s.incoming.drop skip).drop fullHeader ++ e)) :
      Checked s (true, { s with
        incoming := s.incoming.drop skip
        incomingGoodDataOffset := fullHeader
        incomingGoodDataLimit := limit })

/-- The loop of `checkNextPacket`, by induction on the records skipped. -/
theorem checkPackets_checked (hlimit : s.incomingGoodDataLimit = 0)
    (hoffset : s.incomingGoodDataOffset = 0) (fuel : Nat) {offset : Nat}
    (hle : offset ≤ s.incoming.length) (hfuel : s.incoming.length < fuel + offset)
    (hskip : ∀ e, payload (s.incoming ++ e) = payload (s.incoming.drop offset ++ e)) :
    ∃ result, s.checkPackets fuel offset = some result ∧ Checked s result := by
  induction fuel generalizing offset with
  | zero => omega
  | succ fuel ih =>
    have hheader : kServerHeader.length + kLengthSize = fullHeader := rfl
    have hdrop : (s.incoming.drop offset).length = s.incoming.length - offset := List.length_drop
    rw [checkPackets, if_neg (not_not.mpr hlimit)]
    dsimp only
    rw [hheader]
    by_cases hshort : s.incoming.length ≤ offset + fullHeader
    · rw [if_pos hshort]
      refine ⟨_, rfl, .none ?_⟩
      have hnow := hskip []
      rw [List.append_nil, List.append_nil] at hnow
      rw [hnow]
      exact payload_header (by omega)
    · rw [if_neg hshort]
      simp only [Option.bind_eq_bind, subspanFrom_of_le hle, Option.bind_some]
      cases hcheck : CheckPart (s.incoming.drop offset) kServerHeader with
      | false =>
        refine ⟨_, rfl, .bad fun e => ?_⟩
        rw [hskip]
        exact payload_append_bad (by omega) hcheck e
      | true =>
        have hview : ∀ e, payload (s.incoming ++ e) =
            shown (partLength s.incoming (offset + kServerHeader.length))
              ((s.incoming.drop offset).drop fullHeader ++ e) := fun e => by
          rw [hskip, payload_append (by omega) hcheck, partLength_drop]
        rw [if_neg (by decide), ReadPartLength_of_le (by omega), Option.bind_some]
        by_cases hpos : partLength s.incoming (offset + kServerHeader.length) > 0
        · have hshift : (if offset > 0 then s.shiftIncomingBy offset else some s) =
              some { s with incoming := s.incoming.drop offset } := by
            split
            · rw [shiftIncomingBy, if_pos ⟨hoffset, hlimit⟩, if_pos (by omega)]
            · next hzero =>
              obtain rfl : offset = 0 := by omega
              rfl
          rw [if_pos hpos, hshift]
          exact ⟨_, rfl, .record _ offset hpos (by omega) hview⟩
        · -- An empty record is skipped but stays in the buffer.
          have hzero : partLength s.incoming (offset + kServerHeader.length) = 0 := by omega
          rw [if_neg hpos, hzero, Nat.add_zero]
          have hfive : fullHeader = 5 := rfl
          refine ih (by omega) (by omega) fun e => ?_
          rw [hview, hzero, shown, List.take_zero, List.nil_append, List.drop_zero, List.drop_drop]

theorem checkNextPacket_checked (hlimit : s.incomingGoodDataLimit = 0)
    (hoffset : s.incomingGoodDataOffset = 0) :
    ∃ result, s.checkNextPacket = some result ∧ Checked s result :=
  checkPackets_checked hlimit hoffset _ (Nat.zero_le _) (by omega) fun _ => rfl

theorem checkNextPacket_limit (hlimit : s.incomingGoodDataLimit ≠ 0) :
    s.checkNextPacket = some (true, s) := by
  rw [checkNextPacket, checkPackets, if_pos hlimit]

/-! ## Reading -/

theorem shown_zero (d : Bytes) : shown 0 d = payload d := by
  rw [shown, List.take_zero, List.nil_append, List.drop_zero]

/-- A connected socket that was sent `T` and returned `R`. -/
structure Streaming (T R : Bytes) (s : TlsSocket) : Prop where
  state : s.state = .Connected
  socket : s.socket = []
  fires : s.connectedFires = 1
  errors : s.queuedErrors = 0
  view : s.View T R
  offset : s.incomingGoodDataLimit = 0 → s.incomingGoodDataOffset = 0
  inside : s.incomingGoodDataOffset ≤ s.incoming.length

/-- The check queued by the hello has run, or one for a later arrival. -/
def Looked (s : TlsSocket) : Prop := s.queuedChecks = 0 ∨ s.dataReads ≠ 0

/-- No payload is left unseen, once it was looked for. -/
def Quiet (s : TlsSocket) : Prop :=
  s.incomingGoodDataLimit = 0 → s.Looked → payload s.incoming = []

/-- A socket that came to a bad header: what was returned is all there is. -/
structure Ended (T R : Bytes) (s : TlsSocket) : Prop where
  state : s.state = .Error
  fires : s.connectedFires = 1
  limit : s.incomingGoodDataLimit = 0
  offset : s.incomingGoodDataOffset = 0
  bad : ∀ e, payload (s.incoming ++ e) = []
  ends : ∀ e, payload (T ++ e) = R

theorem Streaming.payload_view (h : s.Streaming T R) (hlimit : s.incomingGoodDataLimit = 0)
    (e : Bytes) : payload (T ++ e) = R ++ payload (s.incoming ++ e) := by
  rw [h.view e, hlimit, h.offset hlimit, List.drop_zero, shown_zero]

/-- **After a check** the socket is ready to be read, or has ended. -/
theorem Streaming.check (h : s.Streaming T R) :
    ∃ good s', s.checkNextPacket = some (good, s') ∧ s'.returned = s.returned ∧
      (good = true → s'.Streaming T R ∧
        (s'.incomingGoodDataLimit = 0 → payload s'.incoming = [])) ∧
      (good = false → s' = s ∧ Ended T R s.handleError) := by
  by_cases hlimit : s.incomingGoodDataLimit = 0
  · obtain ⟨_, heq, hchecked⟩ := checkNextPacket_checked hlimit (h.offset hlimit)
    have hview := h.payload_view hlimit
    cases hchecked with
    | none hempty =>
      exact ⟨true, s, heq, rfl, fun _ => ⟨h, fun _ => hempty⟩, fun hc => by cases hc⟩
    | bad hends =>
      refine ⟨false, s, heq, rfl, fun hc => (by cases hc), fun _ => ⟨rfl, ?_⟩⟩
      exact
        { state := rfl
          fires := h.fires
          limit := hlimit
          offset := h.offset hlimit
          bad := hends
          ends := fun e => by rw [hview, hends, List.append_nil] }
    | record limit skip hpos hinside hrecord =>
      refine ⟨true, _, heq, rfl, fun _ => ⟨?_, fun hc => absurd hc hpos.ne'⟩, fun hc => by cases hc⟩
      exact
        { state := h.state
          socket := h.socket
          fires := h.fires
          errors := h.errors
          view := fun e => by rw [hview, hrecord]
          offset := fun hc => absurd hc hpos.ne'
          inside := by
            show fullHeader ≤ (s.incoming.drop skip).length
            rw [List.length_drop]
            omega }
  · exact ⟨true, s, checkNextPacket_limit hlimit, rfl, fun _ => ⟨h, fun hc => absurd hc hlimit⟩,
      fun hc => by cases hc⟩

/-- **The check queued by the hello**. -/
theorem Streaming.queuedCheck (h : s.Streaming T R) (hquiet : s.Quiet) (hmac : Bytes → Bytes → Bytes) :
    ∃ s', s.act hmac .queuedCheck = some s' ∧ s'.returned = s.returned ∧
      (s'.Streaming T R ∧ s'.Quiet ∨ s'.Ended T R) := by
  unfold act
  dsimp only
  split
  · exact ⟨s, rfl, rfl, .inl ⟨h, hquiet⟩⟩
  · have hnext : Streaming T R { s with queuedChecks := s.queuedChecks - 1 } := { h with }
    obtain ⟨good, s', heq, hreturned, hgood, hbad⟩ := hnext.check
    rw [heq]
    cases good with
    | false =>
      obtain ⟨rfl, hended⟩ := hbad rfl
      exact ⟨_, rfl, rfl, .inr hended⟩
    | true =>
      obtain ⟨hstreaming, hempty⟩ := hgood rfl
      exact ⟨s', rfl, hreturned, .inl ⟨hstreaming, fun hc _ => hempty hc⟩⟩

theorem Ended.queuedCheck (h : s.Ended T R) (hmac : Bytes → Bytes → Bytes) :
    ∃ s', s.act hmac .queuedCheck = some s' ∧ s'.returned = s.returned ∧ s'.Ended T R := by
  unfold act
  dsimp only
  split
  · exact ⟨s, rfl, rfl, h⟩
  · obtain ⟨_, heq, hchecked⟩ := checkNextPacket_checked
      (s := { s with queuedChecks := s.queuedChecks - 1 }) h.limit h.offset
    rw [heq]
    cases hchecked with
    | none => exact ⟨_, rfl, rfl, { h with }⟩
    | bad => exact ⟨_, rfl, rfl, { h with state := rfl }⟩
    | record limit skip hpos hinside hview =>
      -- A bad header is not followed by a record.
      have hnil := (hview [0]).symm.trans (h.bad [0])
      obtain ⟨n, rfl⟩ := Nat.exists_eq_succ_of_ne_zero hpos.ne'
      have hlength := congrArg List.length (List.append_eq_nil_iff.mp hnil).1
      rw [List.length_take, List.length_append, List.length_singleton, List.length_nil] at hlength
      omega

end TlsSocket

end MTP

end MessengerClient
