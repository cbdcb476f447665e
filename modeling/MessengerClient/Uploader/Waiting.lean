import MessengerClient.Uploader

/-!
# MessengerClient.Uploader.Waiting

The counters of the entries next to the requests that are in flight or wait to be sent
again.  Of a request only its owner matters here: the item, and whether it is a part of
the document.  Nothing depends on the order of the owners, so a request that moves from
one container to the other changes nothing.
-/

namespace MessengerClient

namespace Uploader

def Request.owner (r : Request) : FullMsgId × Bool := (r.itemId, r.docPart)

/-- The counters of an entry count its owners, in sixteen bits. -/
structure Counted (owners : List (FullMsgId × Bool)) (e : Entry) : Prop where
  parts : e.partsWaiting = UInt16.ofNat (owners.count (e.itemId, false))
  doc : e.docPartsWaiting = UInt16.ofNat (owners.count (e.itemId, true))

/-- No more parts are in flight than were sent, and no more sent than there are; sliced
parts that sixteen bits can not count are sent without end. -/
structure Bounded (owners : List (FullMsgId × Bool)) (e : Entry) : Prop where
  parts : e.parts.length < 2 ^ 16 →
    owners.count (e.itemId, false) ≤ e.partsSent.toNat ∧ e.partsSent.toNat ≤ e.parts.length
  doc : owners.count (e.itemId, true) ≤ e.docPartsSent.toNat ∧
    e.docPartsSent.toNat ≤ e.docPartsCount.toNat

/-- The queue and the owners of the requests of its entries.  The counters of the entry
that is about to fail may be off. -/
structure Waiting (failing : Option FullMsgId) (queue : List Entry)
    (owners : List (FullMsgId × Bool)) : Prop where
  nodup : (queue.map Entry.itemId).Nodup
  counted : ∀ e ∈ queue, failing ≠ some e.itemId → Counted owners e
  bounded : ∀ e ∈ queue, Bounded owners e
  queued : ∀ o ∈ owners, o.1 ∈ queue.map Entry.itemId

theorem Bounded.mono {owners owners' : List (FullMsgId × Bool)} {e : Entry}
    (h : Bounded owners e) (hle : ∀ b, owners'.count (e.itemId, b) ≤ owners.count (e.itemId, b)) :
    Bounded owners' e where
  parts hlen := ⟨(hle false).trans (h.parts hlen).1, (h.parts hlen).2⟩
  doc := ⟨(hle true).trans h.doc.1, h.doc.2⟩

/-! ## Owners -/

theorem count_filter_ne {owners : List (FullMsgId × Bool)} {itemId id : FullMsgId} (b : Bool)
    (h : id ≠ itemId) :
    (owners.filter (·.1 ≠ itemId)).count (id, b) = owners.count (id, b) :=
  List.count_filter (by simp [h])

/-- An id with no entry owns nothing. -/
theorem count_eq_zero {owners : List (FullMsgId × Bool)} {ids : List FullMsgId}
    (h : ∀ o ∈ owners, o.1 ∈ ids) {id : FullMsgId} (hid : id ∉ ids) (b : Bool) :
    owners.count (id, b) = 0 :=
  List.count_eq_zero.mpr fun hmem => hid (h _ hmem)

theorem count_append (owners : List (FullMsgId × Bool)) (o o' : FullMsgId × Bool) :
    (owners ++ [o]).count o' = owners.count o' + if o = o' then 1 else 0 := by
  rw [List.count_append, List.count_singleton]
  simp only [beq_iff_eq]

/-- A counter below a number of sixteen bits can be counted up. -/
theorem toNat_add_one {n : UInt16} {m : Nat} (h : n.toNat < m) (hm : m < 2 ^ 16) :
    (n + 1).toNat = n.toNat + 1 := by
  rw [UInt16.toNat_add]
  exact Nat.mod_eq_of_lt (by change n.toNat + 1 < 2 ^ 16; omega)

/-! ## Entries by their ids -/

theorem eq_of_itemId_eq {queue : List Entry} (h : (queue.map Entry.itemId).Nodup) {e e' : Entry}
    (he : e ∈ queue) (he' : e' ∈ queue) (hid : e.itemId = e'.itemId) : e = e' :=
  List.inj_on_of_nodup_map h he he' hid

/-- Erasing the first entry of an id erases the only one. -/
theorem eraseP_eq_filter {queue : List Entry} (h : (queue.map Entry.itemId).Nodup)
    (itemId : FullMsgId) :
    queue.eraseP (·.itemId = itemId) = queue.filter (·.itemId ≠ itemId) := by
  induction queue with
  | nil => rfl
  | cons e queue ih =>
      obtain ⟨hhead, htail⟩ := List.nodup_cons.mp h
      by_cases he : e.itemId = itemId
      · have hrest : queue.filter (·.itemId ≠ itemId) = queue :=
          List.filter_eq_self.mpr fun e' he' => by
            refine decide_eq_true fun hid => hhead ?_
            rw [he, ← hid]
            exact List.mem_map_of_mem he'
        simp only [he, decide_true, List.eraseP_cons_of_pos, ne_eq, not_true_eq_false, decide_false,
          Bool.false_eq_true, not_false_eq_true, List.filter_cons_of_neg]
        exact hrest.symm
      · rw [List.eraseP_cons_of_neg (by simpa using he), List.filter_cons_of_pos (by simpa using he),
          ih htail]

theorem map_itemId_replace (queue : List Entry) (entry : Entry) :
    (queue.map fun e => if e.itemId = entry.itemId then entry else e).map Entry.itemId =
      queue.map Entry.itemId := by
  rw [List.map_map]
  refine List.map_congr_left fun e _ => ?_
  by_cases h : e.itemId = entry.itemId <;> simp [h]

variable {s : Uploader}

theorem mem_of_findEntry {itemId : FullMsgId} {entry : Entry}
    (h : s.findEntry itemId = some entry) : entry ∈ s.queue ∧ entry.itemId = itemId :=
  ⟨List.mem_of_find?_eq_some h, by simpa using List.find?_some h⟩

theorem notMem_of_findEntry {itemId : FullMsgId} (h : s.findEntry itemId = none) :
    itemId ∉ s.queue.map Entry.itemId := by
  intro hmem
  obtain ⟨e, he, heq⟩ := List.mem_map.mp hmem
  simpa [heq] using List.find?_eq_none.mp h e he

theorem findEntry_of_mem {itemId : FullMsgId} (h : itemId ∈ s.queue.map Entry.itemId) :
    ∃ entry, s.findEntry itemId = some entry := by
  cases hfind : s.findEntry itemId with
  | none => exact absurd h (notMem_of_findEntry hfind)
  | some entry => exact ⟨entry, rfl⟩

/-- What is read of an entry and of its file does not move the entry. -/
theorem readDocPart_fst (e : Entry) : ∃ docFile, e.readDocPart.1 = { e with docFile } := by
  rw [Entry.readDocPart]
  split
  · exact ⟨e.docFile, rfl⟩
  · split
    · exact ⟨e.docFile, rfl⟩
    · exact ⟨_, rfl⟩

theorem notifyFailed_eq (entry : Entry) (s : Uploader) :
    ∃ r : Report, r.itemId = entry.itemId ∧ s.notifyFailed entry = s.report r := by
  rw [notifyFailed]
  split
  · exact ⟨_, rfl, rfl⟩
  · split <;> exact ⟨_, rfl, rfl⟩

namespace Waiting

variable {failing : Option FullMsgId} {queue : List Entry}
  {owners owners' : List (FullMsgId × Bool)}

theorem nil : Waiting none [] [] where
  nodup := List.nodup_nil
  counted _ h := nomatch h
  bounded _ h := nomatch h
  queued _ h := nomatch h

theorem weaken (h : Waiting none queue owners) (failing : Option FullMsgId) :
    Waiting failing queue owners :=
  { h with counted := fun e he _ => h.counted e he nofun }

theorem perm (h : Waiting failing queue owners) (hp : owners.Perm owners') :
    Waiting failing queue owners' where
  nodup := h.nodup
  counted e he hf := ⟨hp.count_eq _ ▸ (h.counted e he hf).parts,
    hp.count_eq _ ▸ (h.counted e he hf).doc⟩
  bounded e he := (h.bounded e he).mono fun _ => (hp.count_eq _).ge
  queued o ho := h.queued o (hp.mem_iff.mpr ho)

/-- An entry joins that has sent nothing. -/
theorem push (h : Waiting failing queue owners) {itemId : FullMsgId}
    (hid : itemId ∉ queue.map Entry.itemId) (file : FilePrepareResult) :
    Waiting failing (queue ++ [({ itemId, file } : Entry)]) owners where
  nodup := by
    rw [List.map_append]
    exact List.concat_eq_append ▸ h.nodup.concat hid
  counted e he hf := by
    cases List.mem_append.mp he with
    | inl he => exact h.counted e he hf
    | inr he =>
        obtain rfl := List.mem_singleton.mp he
        exact ⟨by rw [count_eq_zero h.queued hid]; rfl, by rw [count_eq_zero h.queued hid]; rfl⟩
  bounded e he := by
    cases List.mem_append.mp he with
    | inl he => exact h.bounded e he
    | inr he =>
        obtain rfl := List.mem_singleton.mp he
        refine ⟨fun _ => ⟨?_, Nat.zero_le _⟩, ?_, Nat.zero_le _⟩ <;>
          rw [count_eq_zero h.queued hid] <;> exact Nat.zero_le _
  queued o ho := by
    rw [List.map_append]
    exact List.mem_append_left _ (h.queued o ho)

/-- An entry leaves together with what it owns. -/
theorem drop (h : Waiting failing queue owners) {itemId : FullMsgId}
    (hf : ∀ id ∈ failing, id = itemId) :
    Waiting none (queue.filter (·.itemId ≠ itemId)) (owners.filter (·.1 ≠ itemId)) where
  nodup := h.nodup.sublist (List.filter_sublist.map _)
  counted e he _ := by
    obtain ⟨he, hne⟩ := List.mem_filter.mp he
    have hne : e.itemId ≠ itemId := of_decide_eq_true hne
    have hc := h.counted e he fun hfail => hne (hf _ hfail)
    exact ⟨(count_filter_ne _ hne).symm ▸ hc.parts, (count_filter_ne _ hne).symm ▸ hc.doc⟩
  bounded e he := by
    obtain ⟨he, hne⟩ := List.mem_filter.mp he
    exact (h.bounded e he).mono fun b => (count_filter_ne b (of_decide_eq_true hne)).le
  queued o ho := by
    obtain ⟨ho, hne⟩ := List.mem_filter.mp ho
    obtain ⟨e, he, heq⟩ := List.mem_map.mp (h.queued o ho)
    exact List.mem_map.mpr ⟨e, List.mem_filter.mpr ⟨he, by rw [heq]; exact hne⟩, heq⟩

/-- An id without an entry owns nothing, so nothing of it is dropped. -/
theorem drop_none (h : Waiting failing queue owners) {itemId : FullMsgId}
    (hf : ∀ id ∈ failing, id = itemId) (hid : itemId ∉ queue.map Entry.itemId) :
    Waiting none queue (owners.filter (·.1 ≠ itemId)) := by
  have hqueue : queue.filter (·.itemId ≠ itemId) = queue :=
    List.filter_eq_self.mpr fun e he => decide_eq_true fun heq =>
      hid (heq ▸ List.mem_map_of_mem he)
  exact hqueue ▸ h.drop hf

/-- An entry is replaced, and only what it owns changes. -/
theorem replace (h : Waiting failing queue owners) {e : Entry} (he : e ∈ queue) (e' : Entry)
    (hid : e'.itemId = e.itemId)
    (hother : ∀ id ≠ e.itemId, ∀ b, owners'.count (id, b) = owners.count (id, b))
    (hcounted : failing ≠ some e.itemId → Counted owners' e') (hbounded : Bounded owners' e') :
    Waiting failing (queue.map fun x => if x.itemId = e'.itemId then e' else x) owners' where
  nodup := by
    rw [map_itemId_replace]
    exact h.nodup
  counted x hx hf := by
    obtain ⟨y, hy, rfl⟩ := List.mem_map.mp hx
    split
    · next hxy =>
      rw [if_pos hxy, hid] at hf
      exact hcounted hf
    · next hxy =>
      rw [if_neg hxy] at hf
      have hne : y.itemId ≠ e.itemId := hid ▸ hxy
      have hc := h.counted y hy hf
      exact ⟨hother _ hne _ ▸ hc.parts, hother _ hne _ ▸ hc.doc⟩
  bounded x hx := by
    obtain ⟨y, hy, rfl⟩ := List.mem_map.mp hx
    split
    · exact hbounded
    · next hxy => exact (h.bounded y hy).mono fun b => (hother _ (hid ▸ hxy) b).le
  queued o ho := by
    rw [map_itemId_replace]
    by_cases hoe : o.1 = e.itemId
    · rw [hoe]
      exact List.mem_map_of_mem he
    · have hpos : 0 < owners.count o := by
        rw [← hother o.1 hoe o.2]
        exact List.count_pos_iff.mpr ho
      exact h.queued o (List.count_pos_iff.mp hpos)

/-- One request of an entry that is about to fail is gone. -/
theorem fail (h : Waiting none queue (o :: owners)) : Waiting (some o.1) queue owners where
  nodup := h.nodup
  counted e he hf := by
    have hc := h.counted e he nofun
    have hne (b : Bool) : o ≠ (e.itemId, b) := fun ho => hf (congrArg (some ·.1) ho)
    have hcount (b : Bool) : (o :: owners).count (e.itemId, b) = owners.count (e.itemId, b) :=
      List.count_cons_of_ne (hne b)
    exact ⟨hcount false ▸ hc.parts, hcount true ▸ hc.doc⟩
  bounded e he := (h.bounded e he).mono fun _ => List.count_le_count_cons
  queued o' ho' := h.queued o' (.tail _ ho')

/-- An entry that is finished owns nothing. -/
theorem notMem_of_finished (h : Waiting none queue owners) {e : Entry} (he : e ∈ queue)
    (hfin : e.finished = true) : ∀ o ∈ owners, o.1 ≠ e.itemId := by
  have hc := h.counted e he nofun
  have hb := h.bounded e he
  simp only [Entry.finished, Bool.and_eq_true, decide_eq_true_eq, beq_iff_eq] at hfin
  obtain ⟨⟨⟨hsent, -⟩, hparts⟩, hdoc⟩ := hfin
  have hzero (n : Nat) (hn : n < 2 ^ 16) (h0 : UInt16.ofNat n = 0) : n = 0 := by
    have := congrArg UInt16.toNat h0
    rwa [UInt16.toNat_ofNat_of_lt' hn] at this
  -- the counters of the parts that were sent are the bounds
  have hlt := e.partsSent.toNat_lt
  have hlt' := e.docPartsSent.toNat_lt
  have hsliced := hzero _ (by have := hb.parts (by omega); omega) (hc.parts ▸ hparts)
  have hdocs := hzero _ (by have := hb.doc; omega) (hc.doc ▸ hdoc)
  intro o ho hid
  have hmem : (e.itemId, o.2) ∈ owners := hid ▸ ho
  cases hb : o.2 with
  | false => exact List.count_eq_zero.mp hsliced (hb ▸ hmem)
  | true => exact List.count_eq_zero.mp hdocs (hb ▸ hmem)

/-- The front leaves when it is finished. -/
theorem tail {e : Entry} (h : Waiting none (e :: queue) owners) (hfin : e.finished = true) :
    Waiting none queue owners where
  nodup := (List.nodup_cons.mp h.nodup).2
  counted x hx := h.counted x (.tail _ hx)
  bounded x hx := h.bounded x (.tail _ hx)
  queued o ho := by
    cases List.mem_cons.mp (h.queued o ho) with
    | inl heq => exact absurd heq (h.notMem_of_finished (.head _) hfin o ho)
    | inr hmem => exact hmem

/-! ## Parts that are sent and answered -/

/-- A sliced part is sent. -/
theorem sendSliced (h : Waiting none queue owners) {e : Entry} (he : e ∈ queue)
    (hlt : e.partsSent.toNat < e.parts.length) :
    Waiting none
      (queue.map fun x => if x.itemId = e.itemId then
        { e with partsSent := e.partsSent + 1, partsWaiting := e.partsWaiting + 1 } else x)
      (owners ++ [(e.itemId, false)]) := by
  have hc := h.counted e he nofun
  have hb := h.bounded e he
  have hcount := count_append owners (e.itemId, false)
  refine h.replace he
    { e with partsSent := e.partsSent + 1, partsWaiting := e.partsWaiting + 1 } rfl
    (fun id hid b => ?_) (fun _ => ⟨?_, ?_⟩) ⟨fun hlen => ?_, ?_⟩
  · simp [hcount, Ne.symm hid]
  · simp [hcount, hc.parts, UInt16.ofNat_add]
  · simp [hcount, hc.doc]
  · have hlen : e.parts.length < 2 ^ 16 := hlen
    have := hb.parts hlen
    simp only [hcount, toNat_add_one hlt hlen, if_true]
    exact ⟨by omega, hlt⟩
  · rw [hcount, if_neg (by simp), Nat.add_zero]
    exact hb.doc

/-- A part of the document is sent; the position in its file moves on. -/
theorem sendDoc (h : Waiting none queue owners) {e : Entry} (he : e ∈ queue)
    (hlt : e.docPartsSent < e.docPartsCount) (docFile : Option Nat) :
    Waiting none
      (queue.map fun x => if x.itemId = e.itemId then
        { e with docFile, docPartsSent := e.docPartsSent + 1,
                 docPartsWaiting := e.docPartsWaiting + 1 } else x)
      (owners ++ [(e.itemId, true)]) := by
  have hc := h.counted e he nofun
  have hb := h.bounded e he
  have hcount := count_append owners (e.itemId, true)
  have hlt : e.docPartsSent.toNat < e.docPartsCount.toNat := UInt16.lt_iff_toNat_lt.mp hlt
  refine h.replace he
    { e with docFile, docPartsSent := e.docPartsSent + 1,
             docPartsWaiting := e.docPartsWaiting + 1 } rfl
    (fun id hid b => ?_) (fun _ => ⟨?_, ?_⟩) ⟨fun hlen => ?_, ?_⟩
  · simp [hcount, Ne.symm hid]
  · simp [hcount, hc.parts]
  · simp [hcount, hc.doc, UInt16.ofNat_add]
  · rw [hcount, if_neg (by simp), Nat.add_zero]
    exact hb.parts hlen
  · have := hb.doc
    simp only [hcount, toNat_add_one hlt e.docPartsCount.toNat_lt, if_true]
    exact ⟨by omega, hlt⟩

/-- A part of the document could not be read. -/
theorem read (h : Waiting none queue owners) {e : Entry} (he : e ∈ queue)
    (docFile : Option Nat) :
    Waiting none (queue.map fun x => if x.itemId = e.itemId then { e with docFile } else x)
      owners :=
  h.replace he { e with docFile } rfl (fun _ _ _ => rfl)
    (fun hf => ⟨(h.counted e he hf).parts, (h.counted e he hf).doc⟩)
    ⟨(h.bounded e he).parts, (h.bounded e he).doc⟩

/-- A part is answered. -/
theorem partDone {docPart : Bool} {e : Entry}
    (h : Waiting none queue ((e.itemId, docPart) :: owners)) (he : e ∈ queue) :
    Waiting none
      (queue.map fun x => if x.itemId = (e.partDone docPart).itemId then e.partDone docPart else x)
      owners := by
  have hc := h.counted e he nofun
  have hid : (e.partDone docPart).itemId = e.itemId := by cases docPart <;> rfl
  have hone (n : Nat) : UInt16.ofNat (n + 1) - 1 = UInt16.ofNat n := by
    rw [UInt16.ofNat_add]
    exact UInt16.add_sub_cancel ..
  have hbounded : Bounded owners e := (h.bounded e he).mono fun _ => List.count_le_count_cons
  refine h.replace he _ hid (fun id hne b => ?_) (fun _ => ?_) ?_
  · rw [List.count_cons_of_ne fun ho => hne (congrArg Prod.fst ho).symm]
  · cases docPart with
    | false =>
        refine ⟨?_, ?_⟩
        · have := hc.parts
          rw [List.count_cons_self] at this
          change e.partsWaiting - 1 = _
          rw [this, hone]
          rfl
        · have := hc.doc
          rwa [List.count_cons_of_ne (by simp)] at this
    | true =>
        refine ⟨?_, ?_⟩
        · have := hc.parts
          rwa [List.count_cons_of_ne (by simp)] at this
        · have := hc.doc
          rw [List.count_cons_self] at this
          change e.docPartsWaiting - 1 = _
          rw [this, hone]
          rfl
  · cases docPart <;> exact ⟨hbounded.parts, hbounded.doc⟩

end Waiting

end Uploader

end MessengerClient
