import MessengerClient.DcOptions

/-!
# MessengerClient.DcOptions.Loading

Options that are saved and loaded into a fresh object.

The writer puts down whatever it has, while the reader refuses an address of no bytes or
of more than `kMaxIpSize` and a secret of more than `kMaxSecretSize`.  So a secret that
names a domain, which may be as long as it likes for `validateSecret`, can keep all the
saved options from being loaded.  Apart from that the options come back as they were.
-/

namespace MessengerClient

namespace MTP

variable {Key : Type} {rsa : RSA Key}

/-! ## Options from a list of endpoints -/

namespace Options

theorem endpoints_empty (dcId : DcId) : endpoints {} dcId = [] := rfl

/-- Options with the same endpoints in each dc are the same. -/
theorem ext_endpoints {a b : Options} (h : ∀ dcId, a.endpoints dcId = b.endpoints dcId) :
    a = b := by
  refine Options.ext (FlatMap.ext_find? fun dcId => ?_)
  have hdc := h dcId
  unfold endpoints at hdc
  cases ha : a.map.find? dcId with
  | none =>
      cases hb : b.map.find? dcId with
      | none => rfl
      | some list =>
          rw [ha, hb] at hdc
          exact absurd hdc.symm (b.ne_nil _ _ hb)
  | some list =>
      cases hb : b.map.find? dcId with
      | none =>
          rw [ha, hb] at hdc
          exact absurd hdc (a.ne_nil _ _ ha)
      | some list' =>
          rw [ha, hb] at hdc
          exact congrArg some hdc

theorem id_of_mem_endpoints (data : Options) {dcId : DcId} {e : Endpoint}
    (he : e ∈ data.endpoints dcId) : e.id = dcId := by
  unfold endpoints at he
  cases h : data.map.find? dcId with
  | none => rw [h] at he; cases he
  | some list => rw [h] at he; exact data.own _ _ h e he

theorem pairwise_endpoints (data : Options) (dcId : DcId) :
    (data.endpoints dcId).Pairwise fun a b => ¬ a.sameAddress b := by
  unfold endpoints
  cases h : data.map.find? dcId with
  | none => exact List.Pairwise.nil
  | some list => exact data.distinct _ _ h

theorem endpoints_put (data : Options) (e : Endpoint) (list : List Endpoint)
    (hlist : data.map.find? e.id = some list ∨ list = [])
    (hnew : ∀ a ∈ list, ¬ a.sameAddress e) (hold : data.endpoints e.id = list) (dcId : DcId) :
    (data.put e list hlist hnew).endpoints dcId =
      data.endpoints dcId ++ [e].filter (fun a => a.id = dcId) := by
  unfold endpoints put
  rw [FlatMap.find?_insert]
  by_cases h : dcId = e.id
  · subst h
    rw [← hold, endpoints]
    simp
  · rw [if_neg h]
    simp [Ne.symm h]

/-- An endpoint at a new address is put behind the others of its dc. -/
theorem endpoints_applyOneOption (data : Options) (e : Endpoint)
    (hnew : ∀ a ∈ data.endpoints e.id, ¬ a.sameAddress e) (dcId : DcId) :
    (data.applyOneOption e).1.endpoints dcId =
      data.endpoints dcId ++ [e].filter (fun a => a.id = dcId) := by
  unfold applyOneOption
  split
  · next list h =>
      have hold : data.endpoints e.id = list := by rw [endpoints, h]; rfl
      split
      · next hany =>
          obtain ⟨a, ha, hsame⟩ := List.any_eq_true.mp hany
          exact absurd hsame (hnew a (hold ▸ ha))
      · exact endpoints_put data e list (Or.inl h) (hold ▸ hnew) hold dcId
  · next h => exact endpoints_put data e [] (Or.inr rfl) (by simp) (by rw [endpoints, h]; rfl) dcId

/-- **Applying a list.**  Endpoints at different addresses are all added, in order. -/
theorem endpoints_applyAll (data : Options) (list : List Endpoint)
    (hlist : ∀ dcId, (list.filter fun a => a.id = dcId).Pairwise fun a b => ¬ a.sameAddress b)
    (hnew : ∀ e ∈ list, ∀ a ∈ data.endpoints e.id, ¬ a.sameAddress e) (dcId : DcId) :
    (data.applyAll list).endpoints dcId =
      data.endpoints dcId ++ list.filter fun a => a.id = dcId := by
  induction list generalizing data with
  | nil => simp [applyAll]
  | cons e list ih =>
      have hone := endpoints_applyOneOption data e (hnew e List.mem_cons_self)
      have hstep : data.applyAll (e :: list) = (data.applyOneOption e).1.applyAll list := rfl
      rw [hstep, ih, hone, List.append_assoc, ← List.filter_append, List.singleton_append]
      · intro dcId
        exact (hlist dcId).sublist ((List.sublist_cons_self e list).filter _)
      · intro b hb a ha
        rw [hone, List.mem_append] at ha
        cases ha with
        | inl ha => exact hnew b (List.mem_cons_of_mem e hb) a ha
        | inr ha =>
            obtain ⟨ha, hid⟩ := List.mem_filter.mp ha
            rw [List.mem_singleton] at ha
            subst ha
            have h := hlist b.id
            rw [List.filter_cons, if_pos hid, List.pairwise_cons] at h
            exact h.1 b (List.mem_filter.mpr ⟨hb, by simp⟩)

end Options

/-! ## Keys from a list -/

namespace CdnKeys

theorem keys_empty (dcId : DcId) : keys ({} : CdnKeys rsa) dcId = ∅ := rfl

/-- Keys that are the same in each dc are the same. -/
theorem ext_keys {a b : CdnKeys rsa} (h : ∀ dcId, a.keys dcId = b.keys dcId) : a.map = b.map := by
  refine FlatMap.ext_find? fun dcId => ?_
  have hdc := h dcId
  unfold keys at hdc
  cases ha : a.map.find? dcId with
  | none =>
      cases hb : b.map.find? dcId with
      | none => rfl
      | some keys =>
          rw [ha, hb] at hdc
          exact absurd hdc.symm (b.ne_empty _ _ hb)
  | some keys =>
      cases hb : b.map.find? dcId with
      | none =>
          rw [ha, hb] at hdc
          exact absurd hdc (a.ne_empty _ _ ha)
      | some keys' =>
          rw [ha, hb] at hdc
          exact congrArg some hdc

theorem keys_emplace (c : CdnKeys rsa) (dcId dcId' : DcId) (key : Key) :
    (c.emplace dcId key).keys dcId' =
      if dcId = dcId' then (c.keys dcId').emplace (rsa.fingerprint key) key
      else c.keys dcId' := by
  unfold emplace
  rw [keys, FlatMap.find?_insert]
  by_cases h : dcId = dcId'
  · rw [if_pos h, if_pos h.symm, h]
    rfl
  · rw [if_neg h, if_neg (Ne.symm h)]
    rfl

/-- The entry a key makes. -/
def entry (rsa : RSA Key) (item : DcId × Key) : Fingerprint × Key :=
  (rsa.fingerprint item.2, item.2)

theorem keys_emplaceAll (c : CdnKeys rsa) (list : List (DcId × Key)) (dcId : DcId) :
    (c.emplaceAll list).keys dcId =
      (c.keys dcId).emplaceAll ((list.filter fun item => item.1 = dcId).map (entry rsa)) := by
  induction list generalizing c with
  | nil => rfl
  | cons item list ih =>
      have hstep : c.emplaceAll (item :: list) = (c.emplace item.1 item.2).emplaceAll list := rfl
      rw [hstep, ih, keys_emplace, List.filter_cons]
      by_cases h : item.1 = dcId
      · rw [if_pos h, if_pos (by simpa using h)]
        rfl
      · rw [if_neg h, if_neg (by simpa using h)]

/-- The listed keys of a dc are its entries. -/
theorem filter_list (c : CdnKeys rsa) (dcId : DcId) :
    (c.list.filter fun item => item.1 = dcId).map (entry rsa) = (c.keys dcId).entries := by
  have hkey (e) (_ : e ∈ c.map.entries) (a) (ha : a ∈ e.2.entries.map fun x => (e.1, x.2)) :
      a.1 = e.1 := by
    obtain ⟨x, -, rfl⟩ := List.mem_map.mp ha
    rfl
  rw [list, FlatMap.filter_flatMap_entries c.map _ Prod.fst hkey fun a => decide_eq_true_iff, keys]
  cases h : c.map.find? dcId with
  | none => rfl
  | some keys =>
      rw [Option.map_some, Option.getD_some, Option.getD_some, List.map_map]
      calc
        keys.entries.map (entry rsa ∘ fun x => (dcId, x.2)) = keys.entries.map id := by
          refine List.map_congr_left fun x hx => Prod.ext ?_ rfl
          exact c.own _ _ h _ _ (FlatMap.mem_entries_iff.mp hx)
        _ = keys.entries := List.map_id _

/-- **Keys.**  The listed keys make the same keys. -/
theorem emplaceAll_list (c : CdnKeys rsa) :
    (emplaceAll ({} : CdnKeys rsa) c.list).map = c.map :=
  ext_keys fun dcId => by
    rw [keys_emplaceAll, filter_list, keys_empty, FlatMap.empty_emplaceAll_entries]

end CdnKeys

/-! ## The saved endpoints -/

namespace DcOptions

/-- The endpoints of the dcs that are saved. -/
theorem filter_saved (s : DcOptions rsa) (dcId : DcId) :
    (s.saved.filter fun e => e.id = dcId) =
      if isTemporaryDcId dcId then [] else s.data.endpoints dcId := by
  have hkey (item) (hitem : item ∈ s.data.map.entries) (e : Endpoint)
      (he : e ∈ if isTemporaryDcId item.1 then [] else item.2) : e.id = item.1 := by
    split at he
    · cases he
    · exact s.data.own _ _ (FlatMap.mem_entries_iff.mp hitem) e he
  rw [saved, FlatMap.filter_flatMap_entries s.data.map _ Endpoint.id hkey
    fun a => decide_eq_true_iff, Options.endpoints]
  cases s.data.map.find? dcId with
  | none => simp
  | some list => rfl

theorem mem_saved (s : DcOptions rsa) (e : Endpoint) :
    e ∈ s.saved ↔ isTemporaryDcId e.id = false ∧ e ∈ s.data.endpoints e.id := by
  have h : e ∈ s.saved ↔ e ∈ s.saved.filter fun a => a.id = e.id := by simp
  rw [h, filter_saved]
  cases isTemporaryDcId e.id <;> simp

theorem endpoints_applyAll_saved (s : DcOptions rsa) (dcId : DcId) :
    (Options.applyAll {} s.saved).endpoints dcId =
      if isTemporaryDcId dcId then [] else s.data.endpoints dcId := by
  rw [Options.endpoints_applyAll, Options.endpoints_empty, List.nil_append, filter_saved]
  · intro dcId
    rw [filter_saved]
    split
    · exact List.Pairwise.nil
    · exact s.data.pairwise_endpoints dcId
  · intro e _ a ha
    rw [Options.endpoints_empty] at ha
    cases ha

/-! ## Sizes and counts -/

theorem toInt_size (b : QByteArray) :
    (Int32.ofNat b.bytes.length).toInt =
      if b.bytes.length < 2 ^ 31 then (b.bytes.length : Int) else b.bytes.length - 2 ^ 32 := by
  have hlt := b.length_lt
  rw [Int32.toInt_ofNat', Int.bmod_def, Int32.size]
  split <;> split <;> omega

theorem toNat_count {n : Nat} (h : n < 2 ^ 31) : (Int32.ofNat n).toUInt32.toNat = n := by
  rw [Int32.toUInt32_ofNat', UInt32.toNat_ofNat_of_lt' (h.trans (by decide))]

/-- An array whose size is in bounds is read. -/
theorem readData_reads (b : QByteArray) {least most : Int} (hleast : least ≤ b.bytes.length)
    (hmost : (b.bytes.length : Int) ≤ most) (hbound : most < 2 ^ 31) :
    Reads (readData least most) (putInt32 (Int32.ofNat b.bytes.length) ++ b.bytes) (some b) := by
  have hsize : (Int32.ofNat b.bytes.length).toInt = b.bytes.length := by
    rw [toInt_size, if_pos (by omega)]
  refine (Reads.int32 _).bind ?_
  rw [hsize, if_pos ⟨hleast, hmost⟩, Int.toNat_natCast]
  exact (Reads.rawData b).map some

/-- Any other size is refused, one that does not fit in an `int` looking negative. -/
theorem readData_refuses (b : QByteArray) {least most : Int} (hleast : 0 ≤ least)
    (h : ¬ (least ≤ b.bytes.length ∧ (b.bytes.length : Int) ≤ most)) (rest : Bytes) :
    (readData least most
      { rest := putInt32 (Int32.ofNat b.bytes.length) ++ b.bytes ++ rest }).1 = none := by
  have hlt := b.length_lt
  have hsize : ¬ (least ≤ (Int32.ofNat b.bytes.length).toInt ∧
      (Int32.ofNat b.bytes.length).toInt ≤ most) := by
    rw [toInt_size]
    split
    · exact h
    · omega
  rw [List.append_assoc, readData, (Reads.int32 _).andThen, if_neg hsize]
  rfl

/-! ## Fields -/

/-- The sizes that the reader takes. -/
def Fits (e : Endpoint) : Prop :=
  1 ≤ (e.ip.bytes.length : Int) ∧ (e.ip.bytes.length : Int) ≤ kMaxIpSize ∧
    (e.secret.bytes.length : Int) ≤ kMaxSecretSize

theorem readOption_reads (e : Endpoint) (he : Fits e) :
    Reads (readOption 2) (putEndpoint e) (some e) := by
  obtain ⟨hleast, hip, hsecret⟩ := he
  refine (Reads.int32 _).bind ((Reads.int32 _).bind ((Reads.int32 _).bind ?_))
  refine (readData_reads e.ip hleast hip (by decide)).bind ?_
  rw [← List.append_nil (putInt32 _ ++ e.secret.bytes)]
  refine (Reads.gated (by decide) (readData_reads e.secret (by omega) hsecret (by decide)) _).bind ?_
  rw [DcId.ofInt32_toInt32]
  exact (Reads.pure _).checked

theorem readOption_refuses (e : Endpoint) (he : ¬ Fits e) (rest : Bytes) :
    (readOption 2 { rest := putEndpoint e ++ rest }).1 = none := by
  simp only [putEndpoint, List.append_assoc]
  rw [readOption, (Reads.int32 _).andThen, (Reads.int32 _).andThen, (Reads.int32 _).andThen,
    ← List.append_assoc _ e.ip.bytes]
  by_cases hip : 1 ≤ (e.ip.bytes.length : Int) ∧ (e.ip.bytes.length : Int) ≤ kMaxIpSize
  · have hsecret : ¬ (0 ≤ (e.secret.bytes.length : Int) ∧
        (e.secret.bytes.length : Int) ≤ kMaxSecretSize) := fun h => he ⟨hip.1, hip.2, h.2⟩
    rw [(readData_reads e.ip hip.1 hip.2 (by decide)).andThen, ← List.append_assoc]
    dsimp only
    rw [Get.bind_apply, Get.gated, if_pos (by decide),
      readData_refuses e.secret (by decide) hsecret]
    rfl
  · rw [Get.bind_apply, readData_refuses e.ip (by decide) hip]
    rfl

theorem putBytes_reads (b : QByteArray) : Reads Get.byteArray (putBytes b) b := by
  unfold putBytes
  split
  · next h =>
      have hb : b = {} := by
        obtain ⟨bytes, hlt⟩ := b
        simp only [List.isEmpty_iff] at h
        subst h
        rfl
      rw [← List.append_nil (putUInt32 _), hb]
      exact (Reads.uint32 _).bind (Reads.pure _)
  · exact Reads.byteArray b

theorem readKey_reads (hrsa : rsa.Lawful) (item : DcId × Key) :
    Reads (readKey rsa) (putKey rsa item) (some item) := by
  refine (Reads.int32 _).bind ((putBytes_reads _).bind ?_)
  rw [← List.append_nil (putBytes _)]
  refine (putBytes_reads _).bind ?_
  rw [hrsa, DcId.ofInt32_toInt32]
  exact (Reads.pure _).checked

/-! ## The whole of it -/

/-- The numbers of endpoints and keys are ones that an `int` can count. -/
def Countable (s : DcOptions rsa) : Prop :=
  s.saved.length < 2 ^ 31 ∧ s.cdnPublicKeys.list.length < 2 ^ 31

theorem readVersion :
    (if (-kVersion).toInt < 0 then -(-kVersion).toInt else 0) = 2 := by decide

theorem readCdnConfig_reads (hrsa : rsa.Lawful) (s t : DcOptions rsa) (hs : s.Countable) :
    Reads t.readCdnConfig
      (putInt32 (Int32.ofNat s.cdnPublicKeys.list.length) ++
        s.cdnPublicKeys.list.flatMap (putKey rsa))
      ({ t with cdnPublicKeys := t.cdnPublicKeys.emplaceAll s.cdnPublicKeys.list }, true) := by
  refine (Reads.int32 _).bind (Reads.status.bind ?_)
  rw [if_pos rfl, toNat_count hs.2]
  exact (Reads.repeated _ _ _ fun item _ => readKey_reads hrsa item).ret _

/-- What was saved within the limits of the reader is loaded. -/
theorem load_reads (hrsa : rsa.Lawful) (s t : DcOptions rsa) (hs : s.Countable)
    (hfits : ∀ e ∈ s.saved, Fits e) :
    Reads t.load s.write
      ({ t with
          data := Options.applyAll {} s.saved
          cdnPublicKeys := t.cdnPublicKeys.emplaceAll s.cdnPublicKeys.list }, true) := by
  refine (Reads.int32 _).bind ?_
  simp only [readVersion]
  refine (Reads.gated (by decide) (Reads.int32 _) _).bind (Reads.status.bind ?_)
  rw [if_pos rfl, toNat_count hs.1]
  refine (Reads.repeated _ _ _ fun e he => readOption_reads e (hfits e he)).bind ?_
  rw [if_pos rfl]
  refine Reads.atEnd_false ?_ (readCdnConfig_reads hrsa s _ hs)
  exact List.append_ne_nil_of_left_ne_nil (by simp [putInt32, putUInt32, beBytes]) _

/-- What was saved is loaded only within the limits of the reader. -/
theorem fits_of_load (s t : DcOptions rsa) (hs : s.Countable)
    (h : (t.load { rest := s.write }).1.2 = true) : ∀ e ∈ s.saved, Fits e := by
  refine (Reads.repeated_eq_true_iff (fun data e => (Options.applyOneOption data e).1) s.saved {}
    (putInt32 (Int32.ofNat s.cdnPublicKeys.list.length) ++
      s.cdnPublicKeys.list.flatMap (putKey rsa)) readOption_reads readOption_refuses).mp ?_
  unfold load write at h
  rw [(Reads.int32 _).andThen] at h
  simp only [readVersion] at h
  rw [(Reads.gated (by decide) (Reads.int32 _) _).andThen, ← List.nil_append (List.flatMap _ _ ++ _),
    Reads.status.andThen, if_pos rfl, toNat_count hs.1, Get.bind_apply] at h
  by_contra hfalse
  rw [Bool.not_eq_true] at hfalse
  rw [hfalse] at h
  cases h

/-! ## Reachable options -/

/-- The secret of an option is one that `validateSecret` accepts. -/
def Accepted : MTPDcOption → Prop
  | .dcOption _ _ _ _ secret => validateSecret (secret.getD {}).bytes
  | .wrongType => True

/-- The options as they can be after any updates. -/
inductive Reachable : DcOptions rsa → Prop
  | construct (environment : Environment) : Reachable (DcOptions.construct rsa environment)
  | constructFromBuiltIn {s} : Reachable s → Reachable s.constructFromBuiltIn
  | setFromList {s} {options : List MTPDcOption} {r} : Reachable s →
      (∀ o ∈ options, Accepted o) → s.setFromList options = some r → Reachable r.1
  | addFromList {s} {options : List MTPDcOption} {r} : Reachable s →
      (∀ o ∈ options, Accepted o) → s.addFromList options = some r → Reachable r.1
  | addFromOther {s options} : Reachable s → Reachable options →
      Reachable (s.addFromOther options).1
  | setCDNConfig {s} (config : List MTPCdnPublicKey) : Reachable s →
      Reachable (s.setCDNConfig config)

theorem processFromList_immutable {s : DcOptions rsa} {options : List MTPDcOption}
    {overwrite : Bool} {r} (h : s.processFromList options overwrite = some r) :
    r.1.immutable = s.immutable := by
  unfold processFromList at h
  split at h
  · cases h
    rfl
  · obtain ⟨result, -, rfl⟩ := Option.map_eq_some_iff.mp h
    dsimp only
    split <;> rfl

/-- Only options that were loaded from a file are overriding ones. -/
theorem Reachable.immutable {s : DcOptions rsa} (h : Reachable s) : s.immutable = false := by
  induction h with
  | construct environment => rfl
  | constructFromBuiltIn _ ih => exact ih
  | setFromList _ _ hr ih => exact (processFromList_immutable hr).trans ih
  | addFromList _ _ hr ih => exact (processFromList_immutable hr).trans ih
  | addFromOther _ _ ih _ =>
      unfold DcOptions.addFromOther
      split
      · exact ih
      · split <;> exact ih
  | setCDNConfig config _ ih => exact ih

theorem construct_cdnPublicKeys (environment : Environment) :
    (DcOptions.construct rsa environment).cdnPublicKeys = {} := rfl

/-- The options were loaded, as they were saved. -/
def Restores (s : DcOptions rsa) (r : DcOptions rsa × Bool) : Prop :=
  r.2 = true ∧
    (∀ dcId, isTemporaryDcId dcId = false → r.1.data.endpoints dcId = s.data.endpoints dcId) ∧
    r.1.cdnPublicKeys.map = s.cdnPublicKeys.map

/-- What fits is restored into any options that have no keys yet. -/
theorem restores_of_fits (hrsa : rsa.Lawful) (s t : DcOptions rsa) (hs : s.Countable)
    (ht : t.cdnPublicKeys = {}) (hfits : ∀ e ∈ s.saved, Fits e) :
    Restores s (t.constructFromSerialized s.write) := by
  have hload := (load_reads hrsa s t hs hfits).run []
  rw [List.append_nil, ht] at hload
  rw [constructFromSerialized, hload]
  refine ⟨rfl, fun dcId hdc => ?_, s.cdnPublicKeys.emplaceAll_list⟩
  rw [s.endpoints_applyAll_saved, if_neg (by simp [hdc])]

theorem constructFromSerialized_snd (t : DcOptions rsa) (serialized : Bytes) :
    (t.constructFromSerialized serialized).2 = (t.load { rest := serialized }).1.2 := rfl

/-- **Saving and loading.**  The saved options are loaded into a new object, with the same
endpoints and the same keys, just when every endpoint of a dc that is not temporary has an
address of `1` to `kMaxIpSize` bytes and a secret of at most `kMaxSecretSize`. -/
theorem loaded_iff_short (hrsa : rsa.Lawful) {s : DcOptions rsa} (hs : Reachable s)
    (hcount : s.Countable) (environment : Environment) :
    Restores s ((DcOptions.construct rsa environment).constructFromSerialized s.serialize) ↔
      ∀ dcId, isTemporaryDcId dcId = false → ∀ e ∈ s.data.endpoints dcId, Fits e := by
  have hsaved : (∀ dcId, isTemporaryDcId dcId = false → ∀ e ∈ s.data.endpoints dcId, Fits e) ↔
      ∀ e ∈ s.saved, Fits e := by
    constructor
    · intro h e he
      have hmem := (s.mem_saved e).mp he
      exact h e.id hmem.1 e hmem.2
    · intro h dcId hdc e he
      have hid := s.data.id_of_mem_endpoints he
      subst hid
      exact h e ((s.mem_saved e).mpr ⟨hdc, he⟩)
  have hser : s.serialize = s.write := if_neg (by simp [hs.immutable])
  rw [hsaved, hser]
  constructor
  · rintro ⟨hok, -⟩
    rw [constructFromSerialized_snd] at hok
    exact fits_of_load s _ hcount hok
  · exact restores_of_fits hrsa s _ hcount (construct_cdnPublicKeys environment)

/-- Keys that are just their parts. -/
def partsRSA : RSA (QByteArray × QByteArray) where
  fingerprint := fun _ => 0
  getN := Prod.fst
  getE := Prod.snd
  ofParts := fun n e => some (n, e)
  ofText := fun _ => none

/-- The built-in options are of that kind. -/
theorem loaded_iff_short_builtIn :
    Restores (DcOptions.construct partsRSA .Production)
        ((DcOptions.construct partsRSA .Production).constructFromSerialized
          (DcOptions.construct partsRSA .Production).serialize) ↔
      ∀ dcId, isTemporaryDcId dcId = false →
        ∀ e ∈ (DcOptions.construct partsRSA .Production).data.endpoints dcId, Fits e :=
  loaded_iff_short (fun _ => rfl) (.construct .Production)
    ⟨by decide +kernel, by decide +kernel⟩ .Production

/-- An option with a secret that names a domain of sixteen characters. -/
def domainOption : MTPDcOption :=
  .dcOption 0 4 (QByteArray.ofBytes [49, 46, 49, 46, 49, 46, 49]) 443
    (some (QByteArray.ofBytes (0xEE :: List.replicate 32 0x61)))

/-- Options that are saved and cannot be loaded again. -/
theorem not_restores :
    ¬ ∀ s : DcOptions partsRSA, Reachable s →
      Restores s ((DcOptions.construct partsRSA .Test).constructFromSerialized s.serialize) := by
  intro h
  have hset : ((DcOptions.construct partsRSA .Test).setFromList [domainOption]).isSome := by
    decide +kernel
  obtain ⟨r, hr⟩ := Option.isSome_iff_exists.mp hset
  have haccepted : ∀ o ∈ [domainOption], Accepted o := by
    rintro o ho
    rw [List.mem_singleton.mp ho]
    show validateSecret (0xEE :: List.replicate 32 0x61) = true
    decide
  have hok := (h r.1 (.setFromList (.construct .Test) haccepted hr)).1
  have hnot : (((DcOptions.construct partsRSA .Test).setFromList [domainOption]).map fun r =>
      ((DcOptions.construct partsRSA .Test).constructFromSerialized r.1.serialize).2) =
        some false := by
    decide +kernel
  rw [hr, Option.map_some, hok] at hnot
  cases hnot

end DcOptions

end MTP

end MessengerClient
