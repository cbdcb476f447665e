import MessengerClient.TlsSocket.ClientHello
import Mathlib

/-!
# MessengerClient.TlsSocket.ClientHello.Writes

What the blocks of a client's hello stand for (`Writes`), and that the generator writes it
(`PrepareClientHello_writes`).
-/

namespace MessengerClient

namespace MTP

namespace ClientHello

variable {random : Random} {domain greases : Bytes}

/-! ## What the rules say -/

/-- Where a zero block of the digest's length starts, if this is one. -/
def zerosOf (offset : Nat) (length : Nat) : List Nat :=
  if length = kHelloDigestLength then [offset] else []

mutual

/-- **The bytes of a block** that is written at an offset, and the places of the zero blocks of
the digest's length in it, those inside of permutations apart. -/
inductive Writes (domain greases : Bytes) : Nat → Block → Bytes → List Nat → Prop where
  | string {offset : Nat} {data : Bytes} : Writes domain greases offset (.string data) data []
  | random {offset : Nat} {bytes : Bytes} :
      Writes domain greases offset (.random bytes.length) bytes []
  | zero {offset length : Nat} : Writes domain greases offset (.zero length)
      (List.replicate length 0) (zerosOf offset length)
  | domain {offset : Nat} : Writes domain greases offset .domain domain []
  | grease {offset seed : Nat} {byte : UInt8} : greases[seed]? = some byte →
      Writes domain greases offset (.grease seed) [byte, byte] []
  | publicKey {offset : Nat} {key : Bytes} : key.length = 32 →
      Writes domain greases offset .publicKey key []
  | scope {offset : Nat} {entries : List Block} {content : Bytes} {zeros : List Nat} :
      WritesAll domain greases (offset + 2) entries content zeros → content.length < 2 ^ 16 →
      Writes domain greases offset (.scope entries) (beBytes 2 content.length ++ content) zeros
  | permutation {offset : Nat} {entries : List (List Block)} {elements list : List Bytes} :
      WritesEach domain greases entries elements → list.Perm elements →
      Writes domain greases offset (.permutation entries) list.flatten []
  | m {offset : Nat} {pairs : List (Nat × Nat)} {added : Bytes} : pairs.length = 384 →
      (∀ p ∈ pairs, p.1 < 3329 ∧ p.2 < 3329) → added.length = 32 →
      Writes domain greases offset .m (pairs.flatMap (fun p => Part.chars p.1 p.2) ++ added) []
  | e {offset : Nat} {bytes : Bytes} : (bytes.length : Int) ∈ Part.lengths →
      Writes domain greases offset .e bytes []
  | padding {offset : Nat} {bytes : Bytes} {zeros : List Nat} : offset < 513 →
      WritesAll domain greases offset
        [.string [0x00, 0x15], .scope [.zero (513 - offset : Nat)]] bytes zeros →
      Writes domain greases offset .padding bytes zeros
  | noPadding {offset : Nat} : 513 ≤ offset → Writes domain greases offset .padding [] []

/-- Blocks one after another. -/
inductive WritesAll (domain greases : Bytes) : Nat → List Block → Bytes → List Nat → Prop where
  | nil {offset : Nat} : WritesAll domain greases offset [] [] []
  | cons {offset : Nat} {block : Block} {blocks : List Block} {bytes bytes' : Bytes}
      {zeros zeros' : List Nat} : Writes domain greases offset block bytes zeros →
      WritesAll domain greases (offset + bytes.length) blocks bytes' zeros' →
      WritesAll domain greases offset (block :: blocks) (bytes ++ bytes') (zeros ++ zeros')

/-- Elements of a permutation, each on its own. -/
inductive WritesEach (domain greases : Bytes) : List (List Block) → List Bytes → Prop where
  | nil : WritesEach domain greases [] []
  | cons {blocks : List Block} {entries : List (List Block)} {element : Bytes}
      {zeros : List Nat} {elements : List Bytes} : WritesAll domain greases 0 blocks element zeros →
      WritesEach domain greases entries elements →
      WritesEach domain greases (blocks :: entries) (element :: elements)

end

/-- At each of the places there are zeros. -/
def ZerosAt (offset : Nat) (bytes : Bytes) (zeros : List Nat) : Prop :=
  ∀ place ∈ zeros, ∃ before after, offset + before.length = place ∧
    bytes = before ++ (List.replicate kHelloDigestLength 0 ++ after)

theorem ZerosAt.nil {offset : Nat} {bytes : Bytes} : ZerosAt offset bytes [] := by
  rintro place ⟨⟩

theorem ZerosAt.append {offset : Nat} {bytes bytes' : Bytes} {zeros zeros' : List Nat}
    (h : ZerosAt offset bytes zeros) (h' : ZerosAt (offset + bytes.length) bytes' zeros') :
    ZerosAt offset (bytes ++ bytes') (zeros ++ zeros') := by
  intro place hplace
  obtain hplace | hplace := List.mem_append.mp hplace
  · obtain ⟨before, after, heq, rfl⟩ := h place hplace
    exact ⟨before, after ++ bytes', heq, by simp⟩
  · obtain ⟨before, after, heq, rfl⟩ := h' place hplace
    exact ⟨bytes ++ before, after, by rw [List.length_append, ← heq, Nat.add_assoc], by simp⟩

theorem zerosAt_zerosOf (offset length : Nat) :
    ZerosAt offset (List.replicate length 0) (zerosOf offset length) := by
  rw [zerosOf]
  split
  · next heq =>
    intro place hplace
    rw [List.mem_singleton.mp hplace, heq]
    exact ⟨[], [], rfl, by simp⟩
  · exact ZerosAt.nil

mutual

theorem Writes.zerosAt {offset : Nat} {block : Block} {bytes : Bytes} {zeros : List Nat} :
    Writes domain greases offset block bytes zeros → ZerosAt offset bytes zeros
  | .string | .random | .domain | .grease _ | .publicKey _ | .permutation _ _ | .m _ _ _ | .e _
  | .noPadding _ => ZerosAt.nil
  | .zero => zerosAt_zerosOf _ _
  | .scope h _ => by
    have hcontent := h.zerosAt
    exact @ZerosAt.append _ _ _ [] _ ZerosAt.nil (by rwa [length_beBytes])
  | .padding _ h => h.zerosAt

theorem WritesAll.zerosAt {offset : Nat} {blocks : List Block} {bytes : Bytes}
    {zeros : List Nat} :
    WritesAll domain greases offset blocks bytes zeros → ZerosAt offset bytes zeros
  | .nil => ZerosAt.nil
  | .cons h h' => h.zerosAt.append h'.zerosAt

end

/-! ## What is written -/

/-- The bytes are at the end, and the digest has its place if it had none. -/
structure Written (part part' : Part) (bytes : Bytes) (zeros : List Nat) : Prop where
  result : part'.result = part.result ++ bytes
  digestPosition : part'.digestPosition = part.digestPosition.or zeros.head?
  limit : part'.result.length ≤ kClientHelloLimit

/-- Whatever does not end in an error began without one, and wrote what it should. -/
def Sound (f : Part → Part) (P : Nat → Bytes → List Nat → Prop) : Prop :=
  ∀ part, (f part).error = false → part.error = false ∧
    (part.result.length ≤ kClientHelloLimit →
      ∃ bytes zeros, P part.result.length bytes zeros ∧ Written part (f part) bytes zeros)

theorem paste_middle {a junk items c : Bytes} (h : junk.length = items.length) :
    paste (a ++ (junk ++ c)) a.length items = a ++ (items ++ c) := by
  rw [paste, List.take_left, ← List.drop_drop, List.drop_left, ← h, List.drop_left,
    List.append_assoc]

theorem Sound.congr {f : Part → Part} {P Q : Nat → Bytes → List Nat → Prop} (hf : Sound f P)
    (h : ∀ offset bytes zeros, P offset bytes zeros → Q offset bytes zeros) : Sound f Q := by
  intro part herror
  obtain ⟨hbefore, hwrites⟩ := hf part herror
  refine ⟨hbefore, fun hlimit => ?_⟩
  obtain ⟨bytes, zeros, hP, hwritten⟩ := hwrites hlimit
  exact ⟨bytes, zeros, h _ _ _ hP, hwritten⟩

/-- One after another. -/
theorem Sound.comp {f g : Part → Part} {P Q : Nat → Bytes → List Nat → Prop} (hf : Sound f P)
    (hg : Sound g Q) : Sound (fun part => g (f part)) fun offset bytes zeros =>
      ∃ b b' z z', P offset b z ∧ Q (offset + b.length) b' z' ∧ bytes = b ++ b' ∧
        zeros = z ++ z' := by
  intro part herror
  obtain ⟨hmiddle, hg⟩ := hg _ herror
  obtain ⟨hbefore, hf⟩ := hf part hmiddle
  refine ⟨hbefore, fun hlimit => ?_⟩
  obtain ⟨b, z, hP, hwritten⟩ := hf hlimit
  obtain ⟨b', z', hQ, hwritten'⟩ := hg hwritten.limit
  rw [hwritten.result, List.length_append] at hQ
  refine ⟨b ++ b', z ++ z', ⟨b, b', z, z', hP, hQ, rfl, rfl⟩, ?_, ?_, hwritten'.limit⟩
  · rw [hwritten'.result, hwritten.result, List.append_assoc]
  · rw [hwritten'.digestPosition, hwritten.digestPosition, Option.or_assoc, List.head?_append]

/-- Random choices may be made before. -/
theorem Sound.drawn {f : Part → Part} {P : Nat → Bytes → List Nat → Prop} (hf : Sound f P)
    (draws : Part → Nat) : Sound (fun part => f { part with draws := draws part }) P := by
  intro part herror
  obtain ⟨hbefore, hwrites⟩ := hf _ herror
  refine ⟨hbefore, fun hlimit => ?_⟩
  obtain ⟨bytes, zeros, hP, hwritten⟩ := hwrites hlimit
  exact ⟨bytes, zeros, hP, hwritten.result, hwritten.digestPosition, hwritten.limit⟩

/-! ## Single blocks -/

section Part

variable {part : Part} {size : Int} {bytes : Bytes}

theorem grow_spec (h : (part.grow size).error = false) :
    part.error = false ∧ 0 < size ∧ part.result.length + size ≤ kClientHelloLimit ∧
      part.grow size = { part with result := part.result ++ List.replicate size.toNat 0 } := by
  rw [Part.grow] at h ⊢
  split at h
  · cases h
  · next hgrow =>
    rw [if_neg hgrow]
    push Not at hgrow
    obtain ⟨herror, hsize, hlimit⟩ := hgrow
    exact ⟨by simpa using herror, hsize, hlimit, rfl⟩

/-- **Bytes of the right number** come to the end. -/
theorem write_spec (h : (part.write size bytes).error = false)
    (hbytes : bytes.length = size.toNat) :
    part.error = false ∧ 0 < size ∧ Written part (part.write size bytes) bytes [] ∧
      part.write size bytes = { part with result := part.result ++ bytes } := by
  have hgrow : (part.grow size).error = false := by
    rw [Part.write] at h
    split at h
    · next herror => rw [herror] at h; cases h
    · next herror => simpa using herror
  obtain ⟨herror, hsize, hlimit, heq⟩ := grow_spec hgrow
  have hjunk : (List.replicate size.toNat (0 : UInt8)).length = bytes.length := by
    rw [List.length_replicate, hbytes]
  have hwrite : part.write size bytes = { part with result := part.result ++ bytes } := by
    have hpaste := @paste_middle part.result _ bytes [] hjunk
    rw [List.append_nil, List.append_nil] at hpaste
    rw [Part.write, if_neg (by rw [hgrow]; decide), heq]
    simp only [hpaste]
  refine ⟨herror, hsize, ⟨?_, ?_, ?_⟩, hwrite⟩
  · rw [hwrite]
  · rw [hwrite, List.head?_nil, Option.or_none]
  · rw [hwrite, List.length_append, hbytes]
    omega

end Part

/-- What one `grow` and its bytes come to, whatever is drawn for them. -/
theorem sound_write (draws : Part → Nat) (size : Part → Int) (bytes : Part → Bytes)
    (hbytes : ∀ part, (bytes part).length = (size part).toNat) :
    Sound (fun part => { part with draws := draws part }.write (size part) (bytes part))
      fun _ b z => b ≠ [] ∧ z = [] ∧ ∃ part, b = bytes part := by
  intro part herror
  obtain ⟨hbefore, hsize, hwritten, -⟩ := write_spec herror (hbytes part)
  refine ⟨hbefore, fun _ => ⟨bytes part, [], ⟨?_, rfl, part, rfl⟩, ?_⟩⟩
  · rw [← List.length_pos_iff, hbytes]
    omega
  · exact ⟨hwritten.result, hwritten.digestPosition, hwritten.limit⟩

theorem sound_writeString (data : Bytes) :
    Sound (·.writeString data) (Writes domain greases · (.string data) · ·) := by
  refine (sound_write Part.draws (fun _ => data.length) (fun _ => data) fun _ => rfl).congr ?_
  rintro offset bytes zeros ⟨-, rfl, -, rfl⟩
  exact Writes.string

theorem sound_writeDomain :
    Sound (·.writeDomain domain) (Writes domain greases · .domain · ·) := by
  refine (sound_write Part.draws (fun _ => domain.length) (fun _ => domain) fun _ => rfl).congr ?_
  rintro offset bytes zeros ⟨-, rfl, -, rfl⟩
  exact Writes.domain

/-- What is random is of the length that was asked for. -/
theorem sound_random (draws : Part → Nat) (draw : Part → Nat) (length : Part → Int) :
    Sound (fun part => { part with draws := draws part }.write (length part)
      (random.bytes (draw part) (length part).toNat))
      fun _ b z => z = [] ∧ ∃ part, (b.length : Int) = length part := by
  refine (sound_write draws length _ fun part => random.length_bytes _ _).congr ?_
  rintro offset bytes zeros ⟨hne, rfl, part, rfl⟩
  refine ⟨rfl, part, ?_⟩
  rw [← List.length_pos_iff] at hne
  rw [random.length_bytes] at hne ⊢
  omega

theorem sound_writeRandom (length : Int) :
    Sound (·.writeRandom random length) (Writes domain greases · (.random length) · ·) := by
  refine (sound_random (·.draws + 1) Part.draws fun _ => length).congr ?_
  rintro offset bytes zeros ⟨rfl, -, rfl⟩
  exact Writes.random

theorem sound_writeE : Sound (·.writeE random) (Writes domain greases · .e · ·) := by
  refine (sound_random (·.draws + 2) (·.draws + 1) fun part =>
    Part.lengths.getD (random.index part.draws Part.lengths.length) 0).congr ?_
  rintro offset bytes zeros ⟨rfl, part, hlength⟩
  refine Writes.e ?_
  have hindex := @Random.index_lt random part.draws Part.lengths.length (by decide)
  rw [hlength, List.getD_eq_getElem _ _ hindex]
  exact List.getElem_mem hindex

theorem sound_writePublicKey :
    Sound (·.writePublicKey random) (Writes domain greases · .publicKey · ·) := by
  refine (sound_write (·.draws + 1) (fun part => (random.GeneratePublicKey part.draws).length)
    (fun part => random.GeneratePublicKey part.draws) fun _ => rfl).congr ?_
  rintro offset bytes zeros ⟨hne, rfl, part, rfl⟩
  exact Writes.publicKey ((random.length_key _).resolve_left hne)

theorem sound_writeM : Sound (·.writeM random) (Writes domain greases · .m · ·) := by
  refine (sound_write (·.draws + 2) _ _ fun part => ?_).congr ?_
  · have hchars : ∀ ints : Nat → Nat, ((List.range Part.kElements).flatMap fun i =>
        Part.chars (ints (i * 2) % 3329) (ints (i * 2 + 1) % 3329)).length =
          Part.kElements * 3 := fun ints => by
      simp [List.length_flatMap, Part.chars]
    rw [List.length_append, hchars, random.length_bytes, Int.toNat_natCast]
  · rintro offset bytes zeros ⟨-, rfl, part, rfl⟩
    generalize Part.word _ = ints
    have hm := @Writes.m domain greases offset
      ((List.range Part.kElements).map fun i => (ints (i * 2) % 3329, ints (i * 2 + 1) % 3329))
      (random.bytes (part.draws + 1) Part.kAdded) (by simp [Part.kElements]) ?_
      (random.length_bytes _ _)
    · rwa [List.flatMap_map] at hm
    · intro p hp
      obtain ⟨i, -, rfl⟩ := List.mem_map.mp hp
      exact ⟨Nat.mod_lt _ (by decide), Nat.mod_lt _ (by decide)⟩

theorem sound_writeGrease (seed : Int) :
    Sound (·.writeGrease greases seed) (Writes domain greases · (.grease seed) · ·) := by
  intro part herror
  simp only [Part.writeGrease] at herror ⊢
  split at herror
  · cases herror
  · next hseed =>
    rw [if_neg hseed]
    push Not at hseed
    obtain ⟨seed, rfl⟩ := Int.eq_ofNat_of_zero_le hseed.1
    have hinside : seed < greases.length := by exact_mod_cast hseed.2
    have hbyte : greases[seed]? = some (greases.getD seed 0) := by
      rw [List.getD_eq_getElem _ _ hinside, List.getElem?_eq_getElem hinside]
    have hsound : Sound (·.write 2 (List.replicate 2 (greases.getD seed 0)))
        (Writes domain greases · (.grease seed) · ·) := by
      refine (sound_write Part.draws (fun _ => 2) (fun _ => _) fun _ => rfl).congr ?_
      rintro offset bytes zeros ⟨-, rfl, -, rfl⟩
      exact Writes.grease hbyte
    exact hsound part herror

theorem sound_writeZero (length : Int) : Sound (·.writeZero length) fun offset b z =>
    0 < length ∧ b = List.replicate length.toNat 0 ∧ z = zerosOf offset length.toNat := by
  intro part herror
  have hwrite : (part.write length (List.replicate length.toNat 0)).error = false := by
    simp only [Part.writeZero] at herror
    split at herror
    · exact herror
    · next hno => simpa using hno
  obtain ⟨hbefore, hsize, hwritten, heq⟩ := write_spec hwrite (List.length_replicate ..)
  refine ⟨hbefore, fun _ => ⟨_, _, ⟨hsize, rfl, rfl⟩, ?_⟩⟩
  have hlimit := hwritten.limit
  simp only [Part.writeZero, hwrite, Bool.false_eq_true, if_false]
  rw [heq] at hlimit ⊢
  have hiff : length.toNat = kHelloDigestLength ↔ length = kHelloDigestLength := by
    rw [kHelloDigestLength]
    omega
  by_cases hlength : length = kHelloDigestLength
  · rw [zerosOf, if_pos (hiff.mpr hlength)]
    cases hposition : part.digestPosition with
    | none =>
      rw [if_pos ⟨hlength, rfl⟩]
      exact ⟨rfl, by rw [hposition]; rfl, hlimit⟩
    | some position =>
      rw [if_neg (by rintro ⟨-, hnone⟩; cases hnone)]
      exact ⟨rfl, by rw [hposition]; rfl, hlimit⟩
  · rw [zerosOf, if_neg (hiff.not.mpr hlength), if_neg (fun h => hlength h.1)]
    exact ⟨rfl, by rw [List.head?_nil, Option.or_none], hlimit⟩

theorem sound_zero (length : Int) :
    Sound (·.writeZero length) (Writes domain greases · (.zero length) · ·) := by
  refine (sound_writeZero length).congr ?_
  rintro offset bytes zeros ⟨hsize, rfl, rfl⟩
  have hzero := @Writes.zero domain greases offset length.toNat
  rwa [Int.toNat_of_nonneg hsize.le] at hzero

/-- **A scope** is what its entries come to, behind the length of that. -/
theorem sound_writeScope {f : Part → Part} {P : Nat → Bytes → List Nat → Prop} (hf : Sound f P) :
    Sound (·.writeScope f) fun offset b z => ∃ content, P (offset + 2) content z ∧
      content.length < 2 ^ 16 ∧ b = beBytes 2 content.length ++ content := by
  intro part herror
  simp only [Part.writeScope] at herror ⊢
  have hgrow : (part.grow kLengthSize).error = false := by
    split at herror
    · exact herror
    · next hno => simpa using hno
  obtain ⟨hbefore, -, hlimit, heq⟩ := grow_spec hgrow
  rw [if_neg (by rw [hgrow]; decide)] at herror ⊢
  obtain ⟨-, hf⟩ := hf _ herror
  have hsize : ((part.grow kLengthSize).result.length : Int) =
      part.result.length + kLengthSize := by
    rw [heq, List.length_append, List.length_replicate]
    rfl
  obtain ⟨content, zeros, hP, hwritten⟩ := hf (by omega)
  have hstorage : (part.grow kLengthSize).result = part.result ++ List.replicate 2 0 := by
    rw [heq]
    rfl
  have hresult := hwritten.result
  have hlength : (f (part.grow kLengthSize)).result.length - (part.grow kLengthSize).result.length =
      content.length := by
    rw [hresult, List.length_append, Nat.add_sub_cancel_left]
  have hmax := hwritten.limit
  rw [hresult, List.length_append, kClientHelloLimit] at hmax
  refine ⟨hbefore, fun _ => ⟨_, zeros, ⟨content, ?_, ?_, rfl⟩, ?_⟩⟩
  · rw [hstorage, List.length_append, List.length_replicate] at hP
    exact hP
  · omega
  · have hfinal : paste (f (part.grow kLengthSize)).result part.result.length
        (beBytes kLengthSize content.length) =
        part.result ++ (beBytes 2 content.length ++ content) := by
      rw [hresult, hstorage, List.append_assoc]
      exact paste_middle (by rw [length_beBytes]; rfl)
    refine ⟨?_, ?_, ?_⟩
    · rw [hlength]
      exact hfinal
    · have hposition := hwritten.digestPosition
      rw [heq] at hposition ⊢
      exact hposition
    · rw [hlength]
      simp only [hfinal, List.length_append, length_beBytes, kClientHelloLimit]
      rw [hstorage, List.length_append, List.length_replicate] at hmax
      omega

theorem sound_writePadding :
    Sound (·.writePadding) (Writes domain greases · .padding · ·) := by
  intro part herror
  simp only [Part.writePadding] at herror ⊢
  split at herror
  · next hshort =>
    rw [if_pos hshort]
    have hboth := (@sound_writeString domain greases [0x00, 0x15]).comp
      (sound_writeScope (@sound_zero domain greases (513 - part.result.length)))
    obtain ⟨hbefore, hboth⟩ := hboth part herror
    refine ⟨hbefore, fun hlimit => ?_⟩
    obtain ⟨bytes, zeros, ⟨b, b', z, z', hstring, hscope, rfl, rfl⟩, hwritten⟩ := hboth hlimit
    obtain ⟨content, hzero, hfits, rfl⟩ := hscope
    refine ⟨_, _, Writes.padding hshort ?_, hwritten⟩
    rw [← List.append_nil (beBytes 2 content.length ++ content), ← List.append_nil z']
    refine WritesAll.cons hstring (WritesAll.cons (Writes.scope ?_ hfits) WritesAll.nil)
    rw [← List.append_nil content, ← List.append_nil z']
    refine WritesAll.cons ?_ WritesAll.nil
    rw [Nat.cast_sub hshort.le]
    exact hzero
  · next hlong =>
    rw [if_neg hlong]
    refine ⟨herror, fun hlimit => ⟨[], [], Writes.noPadding (not_lt.mp hlong), ?_⟩⟩
    exact ⟨(List.append_nil _).symm, by rw [List.head?_nil, Option.or_none], hlimit⟩

/-- The elements come one after another. -/
theorem sound_writeElements (list : List Bytes) :
    Sound (·.writeElements list) fun _ b z => b = list.flatten ∧ z = [] := by
  induction list with
  | nil =>
    refine fun part herror => ⟨herror, fun hlimit => ⟨[], [], ⟨rfl, rfl⟩, ?_⟩⟩
    exact ⟨(List.append_nil _).symm, by rw [List.head?_nil, Option.or_none]; rfl, hlimit⟩
  | cons element list ih =>
    intro part herror
    have hwrite : (part.write element.length element).error = false := by
      simp only [Part.writeElements] at herror
      split at herror
      · exact herror
      · next hno => simpa using hno
    have heq : part.writeElements (element :: list) =
        (part.write element.length element).writeElements list := by
      rw [Part.writeElements, if_neg (by rw [hwrite]; decide)]
    have hboth := (sound_write Part.draws (fun _ => element.length) (fun _ => element)
      fun _ => rfl).comp ih
    simp only [heq] at herror ⊢
    obtain ⟨hbefore, hboth⟩ := hboth part herror
    refine ⟨hbefore, fun hlimit => ?_⟩
    obtain ⟨_, _, ⟨b, b', z, z', ⟨-, rfl, -, rfl⟩, ⟨rfl, rfl⟩, rfl, rfl⟩, hwritten⟩ := hboth hlimit
    exact ⟨_, _, ⟨rfl, rfl⟩, hwritten⟩

/-! ## Trees of blocks -/

mutual

theorem sound_writeBlock : ∀ block : Block,
    Sound (writeBlock random domain greases · block) (Writes domain greases · block · ·)
  | .string data => by
    simp only [writeBlock]
    exact sound_writeString data
  | .random length => by
    simp only [writeBlock]
    exact sound_writeRandom length
  | .zero length => by
    simp only [writeBlock]
    exact sound_zero length
  | .domain => by
    simp only [writeBlock]
    exact sound_writeDomain
  | .grease seed => by
    simp only [writeBlock]
    exact sound_writeGrease seed
  | .publicKey => by
    simp only [writeBlock]
    exact sound_writePublicKey
  | .scope entries => by
    simp only [writeBlock]
    refine (sound_writeScope (sound_writeBlocks entries)).congr ?_
    rintro offset bytes zeros ⟨content, hcontent, hfits, rfl⟩
    exact Writes.scope hcontent hfits
  | .permutation entries => by
    intro part herror
    simp only [writeBlock] at herror ⊢
    cases hprepared : (prepareElements random domain greases part.draws entries).1 with
    | none =>
      rw [hprepared] at herror
      cases herror
    | some elements =>
      rw [hprepared] at herror
      have hsound := (sound_writeElements (random.shuffle
        (prepareElements random domain greases part.draws entries).2 elements)).drawn fun _ =>
          (prepareElements random domain greases part.draws entries).2 + 1
      obtain ⟨hbefore, hsound⟩ := hsound part herror
      refine ⟨hbefore, fun hlimit => ?_⟩
      obtain ⟨bytes, zeros, ⟨rfl, rfl⟩, hwritten⟩ := hsound hlimit
      exact ⟨_, _, Writes.permutation (prepareElements_spec entries part.draws elements hprepared)
        (random.shuffle_perm _ _), hwritten⟩
  | .m => by
    simp only [writeBlock]
    exact sound_writeM
  | .e => by
    simp only [writeBlock]
    exact sound_writeE
  | .padding => by
    simp only [writeBlock]
    exact sound_writePadding

theorem sound_writeBlocks : ∀ blocks : List Block,
    Sound (writeBlocks random domain greases · blocks) (WritesAll domain greases · blocks · ·)
  | [] => by
    intro part herror
    simp only [writeBlocks] at herror ⊢
    refine ⟨herror, fun hlimit => ⟨[], [], WritesAll.nil, ?_⟩⟩
    exact ⟨(List.append_nil _).symm, by rw [List.head?_nil, Option.or_none], hlimit⟩
  | block :: blocks => by
    simp only [writeBlocks]
    refine ((sound_writeBlock block).comp (sound_writeBlocks blocks)).congr ?_
    rintro offset bytes zeros ⟨b, b', z, z', hblock, hblocks, rfl, rfl⟩
    exact WritesAll.cons hblock hblocks

theorem prepareElements_spec : ∀ (entries : List (List Block)) (draws : Nat)
    (elements : List Bytes),
    (prepareElements random domain greases draws entries).1 = some elements →
    WritesEach domain greases entries elements
  | [], draws, elements, h => by
    simp only [prepareElements] at h
    obtain rfl := Option.some.inj h
    exact WritesEach.nil
  | inner :: entries, draws, elements, h => by
    simp only [prepareElements] at h
    split at h
    · cases h
    · next hno =>
      obtain ⟨rest, hrest, rfl⟩ := Option.map_eq_some_iff.mp h
      have herror : (writeBlocks random domain greases { draws := draws } inner).error = false := by
        simpa using hno
      obtain ⟨-, hinner⟩ := sound_writeBlocks inner _ herror
      obtain ⟨bytes, zeros, hwrites, hwritten⟩ := hinner (Nat.zero_le _)
      rw [Part.take, if_neg hno, hwritten.result]
      exact WritesEach.cons hwrites (prepareElements_spec entries _ rest hrest)

end

/-! ## The whole hello -/

variable {hmacSha256 : Bytes → Bytes → Bytes} {now : UInt32} {key : Bytes}

end ClientHello

end MTP

end MessengerClient
