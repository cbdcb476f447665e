import MessengerClient.IndexedList

/-!
# MessengerClient.IndexedList.Search

The search finds what a scan of the whole list would find.

An entry is in the list of a letter just when it is in the whole list and has the letter
among those it was indexed under.  Each operation keeps that, and a name that was changed
is indexed under its new letters once it is adjusted.
-/

namespace MessengerClient

namespace IndexedList

/-! ## Sets of letters -/

namespace FlatSet

variable {K : Type} [LinearOrder K] {m : FlatSet K} {k k' : K}

theorem contains_iff : m.contains k = true ↔ k ∈ m.keys :=
  FlatMap.contains_iff.trans FlatMap.mem_keys_iff.symm

theorem mem_emplace : k' ∈ (m.emplace k ()).keys ↔ k' ∈ m.keys ∨ k' = k := by
  rw [FlatMap.mem_keys_iff, FlatMap.mem_keys_iff, FlatMap.find?_emplace]
  split <;> simp_all

theorem mem_erase : k' ∈ (m.erase k).keys ↔ k' ∈ m.keys ∧ k' ≠ k := by
  rw [FlatMap.mem_keys_iff, FlatMap.mem_keys_iff, FlatMap.find?_erase]
  split <;> simp_all

theorem not_mem_empty : k ∉ (∅ : FlatSet K).keys := List.not_mem_nil

end FlatSet

theorem Entry.mem_firstLetters {e : Entry} {ch : QChar} :
    ch ∈ e.firstLetters.keys ↔ ∃ word ∈ e.nameWords, word.first = ch := by
  have hfold (words : List NameWord) (letters : FlatSet QChar) :
      ch ∈ (words.foldl (fun letters word => letters.emplace word.first ()) letters).keys ↔
        ch ∈ letters.keys ∨ ∃ word ∈ words, word.first = ch := by
    induction words generalizing letters with
    | nil => simp
    | cons word words ih =>
        rw [List.foldl_cons, ih, FlatSet.mem_emplace]
        simp [or_assoc, eq_comm]
  exact (hfold e.nameWords ∅).trans (or_iff_right FlatSet.not_mem_empty)

/-- What is left in `toRemove` and what gets into `toAdd`. -/
theorem mem_foldl_sift {letters : List QChar} (hletters : letters.Nodup)
    (sets : FlatSet QChar × FlatSet QChar) (ch : QChar) :
    (ch ∈ (letters.foldl sift sets).1.keys ↔ ch ∈ sets.1.keys ∧ ch ∉ letters) ∧
      (ch ∈ (letters.foldl sift sets).2.keys ↔
        ch ∈ sets.2.keys ∨ ch ∈ letters ∧ ch ∉ sets.1.keys) := by
  induction letters generalizing sets with
  | nil => simp
  | cons letter letters ih =>
      obtain ⟨hnew, hletters⟩ := List.nodup_cons.mp hletters
      obtain ⟨ih₁, ih₂⟩ := ih hletters (sift sets letter)
      rw [List.foldl_cons, ih₁, ih₂]
      unfold sift
      split
      · next hin =>
          rw [FlatSet.contains_iff] at hin
          simp only [FlatSet.mem_erase, List.mem_cons]
          constructor
          · grind
          · by_cases heq : ch = letter
            · subst heq
              grind
            · grind
      · next hout =>
          rw [FlatSet.contains_iff] at hout
          simp only [FlatSet.mem_emplace, List.mem_cons]
          by_cases heq : ch = letter
          · subst heq
            grind
          · grind

/-! ## Rows -/

variable {κ : Type} [DecidableEq κ] {entry : κ → Entry} {mode : SortMode}

namespace Rows

variable {rows : Rows κ} {key k : κ}

omit [DecidableEq κ] in
theorem not_mem_empty : k ∉ ({} : Rows κ) := List.not_mem_nil

theorem mem_adjustBy {before after : κ → Bool} : k ∈ rows.adjustBy before after key ↔ k ∈ rows :=
  (adjust_perm _ _ _ _).mem_iff

theorem mem_adjustByName : k ∈ rows.adjustByName entry key ↔ k ∈ rows := by
  unfold adjustByName
  split
  · exact mem_adjustBy
  · rfl

theorem mem_addToEnd : k ∈ rows.addToEnd entry mode key ↔ k ∈ rows ∨ k = key := by
  have hadded : k ∈ rows.keys ++ [key] ↔ k ∈ rows ∨ k = key := by
    rw [List.mem_append, List.mem_singleton]
    rfl
  unfold addToEnd
  split
  · next h => exact (or_iff_left_of_imp fun heq => heq ▸ h).symm
  · split
    · exact mem_adjustBy.trans hadded
    · exact hadded

theorem mem_addByName : k ∈ rows.addByName entry mode key ↔ k ∈ rows ∨ k = key :=
  mem_adjustByName.trans mem_addToEnd

theorem mem_remove : k ∈ rows.remove key ↔ k ∈ rows ∧ k ≠ key :=
  rows.nodup.mem_erase_iff.trans and_comm

omit [DecidableEq κ] in
theorem isEmpty_iff : rows.isEmpty = true ↔ ∀ k, k ∉ rows :=
  List.isEmpty_iff.trans List.eq_nil_iff_forall_not_mem

end Rows

/-! ## The lists of the letters -/

/-- An entry is in the list of a letter. -/
def At (index : FlatMap QChar (Rows κ)) (ch : QChar) (k : κ) : Prop :=
  k ∈ (index.find? ch).getD ⟨[], List.nodup_nil⟩

variable {index : FlatMap QChar (Rows κ)} {ch : QChar} {key k : κ} {f : Rows κ → Rows κ}

omit [DecidableEq κ] in
theorem at_insert {ch' : QChar} {rows : Rows κ} :
    At (index.insert ch' rows) ch k ↔ if ch = ch' then k ∈ rows else At index ch k := by
  unfold At
  rw [FlatMap.find?_insert]
  split <;> rfl

theorem at_foldl_onLetter (hf : ∀ (rows : Rows κ) k, k ∈ f rows ↔ k ∈ rows ∨ k = key)
    (letters : List QChar) :
    At (letters.foldl (onLetter f) index) ch k ↔ At index ch k ∨ ch ∈ letters ∧ k = key := by
  induction letters generalizing index with
  | nil => simp
  | cons letter letters ih =>
      rw [List.foldl_cons, ih, onLetter, at_insert, hf, List.mem_cons]
      split
      · next heq =>
          subst heq
          simp only [true_or, true_and, or_assoc]
          exact or_congr_right (by grind)
      · next hne => simp [hne]

omit [DecidableEq κ] in
theorem at_onKnownLetter_removes (hf : ∀ (rows : Rows κ) k, k ∈ f rows ↔ k ∈ rows ∧ k ≠ key)
    (letter : QChar) :
    At (onKnownLetter f index letter) ch k ↔ At index ch k ∧ ¬ (ch = letter ∧ k = key) := by
  unfold onKnownLetter
  split
  · next rows hrows =>
      rw [at_insert, hf]
      split
      · next heq =>
          subst heq
          simp [At, hrows]
      · next hne => simp [hne]
  · next hnone =>
      refine (and_iff_left_of_imp fun hat heq => ?_).symm
      rw [heq.1, At, hnone] at hat
      exact Rows.not_mem_empty hat

theorem at_foldl_onKnownLetter (hf : ∀ (rows : Rows κ) k, k ∈ f rows ↔ k ∈ rows ∧ k ≠ key)
    (letters : List QChar) :
    At (letters.foldl (onKnownLetter f) index) ch k ↔
      At index ch k ∧ ¬ (ch ∈ letters ∧ k = key) := by
  induction letters generalizing index with
  | nil => simp
  | cons letter letters ih =>
      rw [List.foldl_cons, ih, at_onKnownLetter_removes hf, List.mem_cons]
      grind

omit [DecidableEq κ] in
theorem at_onKnownLetter_keeps (hf : ∀ (rows : Rows κ) k, k ∈ f rows ↔ k ∈ rows)
    (letter : QChar) : At (onKnownLetter f index letter) ch k ↔ At index ch k := by
  unfold onKnownLetter
  split
  · next rows hrows =>
      rw [at_insert, hf]
      split
      · next heq =>
          subst heq
          simp [At, hrows]
      · rfl
  · rfl

/-- The sets of the loop in `adjustByName` are those of `adjustNames`, and the lists have
the entries they had. -/
theorem foldl_adjustLetter (entry : κ → Entry) (key : κ) (letters : List QChar)
    (r : (FlatSet QChar × FlatSet QChar) × FlatMap QChar (Rows κ)) :
    (letters.foldl (adjustLetter entry key) r).1 = letters.foldl sift r.1 ∧
      ∀ ch k, At (letters.foldl (adjustLetter entry key) r).2 ch k ↔ At r.2 ch k := by
  induction letters generalizing r with
  | nil => exact ⟨rfl, fun _ _ => Iff.rfl⟩
  | cons letter letters ih =>
      obtain ⟨hsets, hat⟩ := ih (adjustLetter entry key r letter)
      refine ⟨hsets, fun ch k => (hat ch k).trans ?_⟩
      unfold adjustLetter
      dsimp only
      split
      · exact at_onKnownLetter_keeps (fun _ _ => Rows.mem_adjustByName) letter
      · rfl

/-! ## What the operations keep -/

/-- The entries of the lists of the letters are those of the whole list with these letters. -/
def IndexedBy (letters : κ → FlatSet QChar) (s : IndexedList κ) : Prop :=
  ∀ ch k, At s.index ch k ↔ k ∈ s.list ∧ ch ∈ (letters k).keys

variable {s : IndexedList κ} {letters : κ → FlatSet QChar}

/-- A new entry is put into the lists of its letters. -/
theorem IndexedBy.added (h : IndexedBy letters s) {list : Rows κ}
    {index : FlatMap QChar (Rows κ)} (hlist : ∀ k, k ∈ list ↔ k ∈ s.list ∨ k = key)
    (hindex : ∀ ch k, At index ch k ↔ At s.index ch k ∨ ch ∈ (letters key).keys ∧ k = key) :
    IndexedBy letters { s with list, index } := by
  intro ch k
  rw [hindex, hlist, h]
  by_cases heq : k = key
  · subst heq
    grind
  · simp [heq]

theorem IndexedBy.addToEnd (h : IndexedBy letters s)
    (hkey : letters key = (entry key).firstLetters) :
    IndexedBy letters (s.addToEnd entry key) := by
  unfold IndexedList.addToEnd
  split
  · exact h
  · refine h.added (fun _ => Rows.mem_addToEnd) fun ch k => ?_
    rw [hkey]
    exact at_foldl_onLetter (fun _ _ => Rows.mem_addToEnd) _

theorem IndexedBy.addByName (h : IndexedBy letters s)
    (hkey : letters key = (entry key).firstLetters) :
    IndexedBy letters (s.addByName entry key) := by
  unfold IndexedList.addByName
  split
  · exact h
  · refine h.added (fun _ => Rows.mem_addByName) fun ch k => ?_
    rw [hkey]
    exact at_foldl_onLetter (fun _ _ => Rows.mem_addByName) _

theorem IndexedBy.remove (h : IndexedBy letters s)
    (hkey : letters key = (entry key).firstLetters) :
    IndexedBy letters (s.remove entry key) := by
  unfold IndexedList.remove
  split
  · intro ch k
    dsimp only
    rw [at_foldl_onKnownLetter (fun _ _ => Rows.mem_remove), h, Rows.mem_remove, ← hkey]
    by_cases heq : k = key
    · subst heq
      grind
    · simp [heq]
  · exact h

/-- An entry that is not in the list may have any letters. -/
theorem IndexedBy.absent (h : IndexedBy letters s) (hkey : key ∉ s.list)
    (new : FlatSet QChar) : IndexedBy (Function.update letters key new) s := by
  intro ch k
  rw [h]
  by_cases heq : k = key
  · subst heq
    simp [hkey]
  · rw [Function.update_of_ne heq]

/-- An entry is taken off the lists of the letters it has lost and put into those of the
letters it has got. -/
theorem IndexedBy.adjusted (h : IndexedBy letters s) {oldLetters : FlatSet QChar}
    (hkey : key ∈ s.list)
    (hold : letters key = (entry key).firstLetters ∨ letters key = oldLetters)
    {list : Rows κ} {index : FlatMap QChar (Rows κ)} (hlist : ∀ k, k ∈ list ↔ k ∈ s.list)
    (hindex : ∀ ch k, At index ch k ↔
      (At s.index ch k ∧
        ¬ (ch ∈ ((entry key).firstLetters.keys.foldl sift (oldLetters, ∅)).1.keys ∧ k = key)) ∨
      ch ∈ ((entry key).firstLetters.keys.foldl sift (oldLetters, ∅)).2.keys ∧ k = key) :
    IndexedBy (Function.update letters key (entry key).firstLetters)
      { s with list, index } := by
  intro ch k
  obtain ⟨hremove, hadd⟩ :=
    mem_foldl_sift (entry key).firstLetters.nodup_keys (oldLetters, ∅) ch
  rw [hindex, hlist, hremove, hadd, h]
  by_cases heq : k = key
  · subst heq
    have hempty : ch ∉ (∅ : FlatSet QChar).keys := FlatSet.not_mem_empty
    rw [Function.update_self]
    cases hold with
    | inl hnew =>
        rw [hnew]
        grind
    | inr hprevious =>
        rw [hprevious]
        grind
  · rw [Function.update_of_ne heq]
    simp [heq]

theorem IndexedBy.adjustByName (h : IndexedBy letters s) {oldLetters : FlatSet QChar}
    (hold : letters key = (entry key).firstLetters ∨ letters key = oldLetters) :
    IndexedBy (Function.update letters key (entry key).firstLetters)
      (s.adjustByName entry key oldLetters) := by
  unfold IndexedList.adjustByName
  split
  · next hkey =>
      obtain ⟨hsets, hat⟩ := foldl_adjustLetter entry key (entry key).firstLetters.keys
        ((oldLetters, ∅), s.index)
      refine h.adjusted hkey hold (fun _ => Rows.mem_adjustByName) fun ch k => ?_
      rw [at_foldl_onLetter fun _ _ => Rows.mem_addByName,
        at_foldl_onKnownLetter fun _ _ => Rows.mem_remove, hsets, hat]
  · next hkey => exact h.absent hkey _

theorem IndexedBy.adjustNames (h : IndexedBy letters s) {oldLetters : FlatSet QChar}
    (hold : letters key = (entry key).firstLetters ∨ letters key = oldLetters) :
    IndexedBy (Function.update letters key (entry key).firstLetters)
      (s.adjustNames entry key oldLetters) := by
  unfold IndexedList.adjustNames
  split
  · next hkey =>
      refine h.adjusted hkey hold (fun _ => Iff.rfl) fun ch k => ?_
      rw [at_foldl_onLetter fun _ _ => Rows.mem_addToEnd,
        at_foldl_onKnownLetter fun _ _ => Rows.mem_remove]
  · next hkey => exact h.absent hkey _

/-! ## The search -/

omit [DecidableEq κ] in
/-- What the code and a reader mean by a word that is found. -/
theorem allFound_iff {words : List (List QChar)} : allFound entry words k = true ↔
    ∀ word ∈ words, ∃ name ∈ (entry k).nameWords, word <+: name.1 := by
  simp [allFound, List.all_eq_true, List.any_eq_true]

omit [DecidableEq κ] in
/-- The shortest list is the one of some word's first letter. -/
theorem minimal_eq_some {words : List (List QChar)} {result : Option (Rows κ)} {rows : Rows κ}
    (h : s.minimal words result = some rows) :
    result = some rows ∨
      ∃ ch tail, ch :: tail ∈ words ∧ s.index.find? ch = some rows := by
  induction words generalizing result with
  | nil => exact Or.inl h
  | cons word words ih =>
      cases word with
      | nil =>
          rw [minimal] at h
          exact (ih h).imp_right fun ⟨ch, tail, hmem, hfind⟩ =>
            ⟨ch, tail, List.mem_cons_of_mem _ hmem, hfind⟩
      | cons ch tail =>
          rw [minimal] at h
          split at h
          · cases h
          · next found hfound =>
              have hhere : ∃ ch' tail', ch' :: tail' ∈ (ch :: tail) :: words ∧
                  s.index.find? ch' = some found := ⟨ch, tail, List.mem_cons_self, hfound⟩
              have hlater : (∃ ch' tail', ch' :: tail' ∈ words ∧
                  s.index.find? ch' = some rows) → ∃ ch' tail', ch' :: tail' ∈
                    (ch :: tail) :: words ∧ s.index.find? ch' = some rows :=
                fun ⟨ch', tail', hmem, hfind⟩ =>
                  ⟨ch', tail', List.mem_cons_of_mem _ hmem, hfind⟩
              split at h
              · cases h
              · split at h
                · cases ih h with
                  | inl heq => exact Or.inr (Option.some.inj heq ▸ hhere)
                  | inr hmem => exact Or.inr (hlater hmem)
                · next old hold =>
                    cases ih h with
                    | inl heq =>
                        split at heq
                        · exact Or.inr (Option.some.inj heq ▸ hhere)
                        · exact Or.inl heq
                    | inr hmem => exact Or.inr (hlater hmem)

/-- Where there is none, a letter has no entries. -/
theorem minimal_eq_none {words : List (List QChar)} {result : Option (Rows κ)}
    (h : s.minimal words result = none) (hwords : result ≠ none ∨ ∃ word ∈ words, word ≠ []) :
    ∃ ch tail, ch :: tail ∈ words ∧ ∀ k, ¬ At s.index ch k := by
  induction words generalizing result with
  | nil =>
      rw [minimal] at h
      simp [h] at hwords
  | cons word words ih =>
      have hlater : (∃ ch tail, ch :: tail ∈ words ∧ ∀ k, ¬ At s.index ch k) →
          ∃ ch tail, ch :: tail ∈ word :: words ∧ ∀ k, ¬ At s.index ch k :=
        fun ⟨ch, tail, hmem, hnot⟩ => ⟨ch, tail, List.mem_cons_of_mem _ hmem, hnot⟩
      cases word with
      | nil =>
          rw [minimal] at h
          exact hlater (ih h (by simpa using hwords))
      | cons ch tail =>
          rw [minimal] at h
          split at h
          · next hnone =>
              refine ⟨ch, tail, List.mem_cons_self, fun k hat => ?_⟩
              rw [At, hnone] at hat
              exact Rows.not_mem_empty hat
          · next found hfound =>
              split at h
              · next hempty =>
                  refine ⟨ch, tail, List.mem_cons_self, fun k hat => ?_⟩
                  rw [At, hfound] at hat
                  exact Rows.isEmpty_iff.mp hempty k hat
              · split at h
                · exact hlater (ih h (Or.inl (by simp)))
                · exact hlater (ih h (Or.inl (by simp)))

/-- An entry that is found is in the list of each word's first letter. -/
theorem IndexedBy.at_of_allFound (h : IndexedBy (fun k => (entry k).firstLetters) s)
    {words : List (List QChar)} (hk : k ∈ s.list) (hfound : allFound entry words k = true)
    {tail : List QChar} (hword : ch :: tail ∈ words) : At s.index ch k := by
  obtain ⟨name, hname, hprefix⟩ := allFound_iff.mp hfound _ hword
  refine (h ch k).mpr ⟨hk, Entry.mem_firstLetters.mpr ⟨name, hname, ?_⟩⟩
  obtain ⟨rest, hrest⟩ := hprefix
  unfold NameWord.first
  simp only [← hrest, List.cons_append, List.head_cons]

/-- **The search.**  It finds the entries of the list that have all the words, each once. -/
theorem IndexedBy.filtered (h : IndexedBy (fun k => (entry k).firstLetters) s)
    {words : List (List QChar)} (hwords : ∃ word ∈ words, word ≠ []) :
    (s.filtered entry words).Nodup ∧
      ∀ k, k ∈ s.filtered entry words ↔ k ∈ s.list ∧ allFound entry words k = true := by
  unfold IndexedList.filtered
  split
  · next hempty =>
      refine ⟨List.nodup_nil, fun k => iff_of_false List.not_mem_nil fun hk => ?_⟩
      exact Rows.isEmpty_iff.mp hempty k hk.1
  · split
    · next hnone =>
        obtain ⟨ch, tail, hword, hnot⟩ := minimal_eq_none hnone (Or.inr hwords)
        refine ⟨List.nodup_nil, fun k => iff_of_false List.not_mem_nil fun hk => ?_⟩
        exact hnot k (h.at_of_allFound hk.1 hk.2 hword)
    · next rows hrows =>
        have hall (k : κ) :
            k ∈ rows ∧ allFound entry words k = true ↔
              k ∈ s.list ∧ allFound entry words k = true := by
          cases minimal_eq_some hrows with
          | inl heq => cases heq
          | inr hletter =>
              obtain ⟨ch, tail, hword, hfind⟩ := hletter
              have hat : At s.index ch k ↔ k ∈ rows := by rw [At, hfind]; rfl
              constructor
              · exact fun hk => ⟨((h ch k).mp (hat.mpr hk.1)).1, hk.2⟩
              · exact fun hk => ⟨hat.mp (h.at_of_allFound hk.1 hk.2 hword), hk.2⟩
        split
        · next hempty =>
            refine ⟨List.nodup_nil, fun k => iff_of_false List.not_mem_nil fun hk => ?_⟩
            exact Rows.isEmpty_iff.mp hempty k ((hall k).mpr hk).1
        · exact ⟨rows.nodup.filter _, fun k => List.mem_filter.trans (hall k)⟩

/-! ## Runs -/

namespace State

/-- The letters that an entry is indexed under. -/
def indexLetters (s : State κ) (key : κ) : FlatSet QChar :=
  (s.oldLetters key).getD (s.entry key).firstLetters

omit [DecidableEq κ] in
theorem indexLetters_of_settled {s : State κ} {key : κ} (h : s.Settled key) :
    s.indexLetters key = (s.entry key).firstLetters := by
  rw [indexLetters, h]
  rfl

theorem indexLetters_of_previous {s : State κ} {key : κ} {oldLetters : FlatSet QChar}
    (h : s.Previous key oldLetters) :
    s.indexLetters key = (s.entry key).firstLetters ∨ s.indexLetters key = oldLetters := by
  cases h with
  | inl hnone => exact Or.inl (indexLetters_of_settled hnone)
  | inr hsome => exact Or.inr (by rw [indexLetters, hsome]; rfl)

/-- After an entry was adjusted it is indexed under the letters it has. -/
theorem indexLetters_adjusted (s : State κ) (key : κ) (indexed : IndexedList κ) :
    ({ s with indexed, oldLetters := Function.update s.oldLetters key none } :
        State κ).indexLetters =
      Function.update s.indexLetters key (s.entry key).firstLetters := by
  funext k
  unfold indexLetters
  by_cases h : k = key
  · subst h
    simp
  · simp [h]

/-- A change of a name leaves the letters that the entry is indexed under. -/
theorem indexLetters_setName {s : State κ} {key : κ} (h : s.Settled key)
    (nameWords : List NameWord) (nameSortKey : List QChar) :
    ({ s with
        entry := Function.update s.entry key { s.entry key with nameWords, nameSortKey }
        oldLetters := Function.update s.oldLetters key (some (s.entry key).firstLetters) } :
      State κ).indexLetters = s.indexLetters := by
  funext k
  unfold indexLetters
  by_cases heq : k = key
  · subst heq
    have hnone : s.oldLetters k = none := h
    simp [hnone]
  · simp [heq]

theorem indexLetters_setSortKey (s : State κ) (key : κ) (sortKey : Nat) :
    ({ s with entry := Function.update s.entry key { s.entry key with sortKey } } :
      State κ).indexLetters = s.indexLetters := by
  funext k
  unfold indexLetters
  by_cases heq : k = key
  · subst heq
    simp [Entry.firstLetters]
  · simp [heq]

/-- **One step.**  The entries stay indexed under their letters. -/
theorem indexedBy_next {s s' : State κ} {a : Action κ} (h : IndexedBy s.indexLetters s.indexed)
    (hnext : s.next a = some s') : IndexedBy s'.indexLetters s'.indexed := by
  cases a with
  | setName key nameWords nameSortKey =>
      obtain ⟨hsettled, rfl⟩ := by simpa [next] using hnext
      rw [indexLetters_setName hsettled]
      exact h
  | setSortKey key sortKey =>
      cases hnext
      rw [indexLetters_setSortKey]
      exact h
  | addToEnd key =>
      obtain ⟨hsettled, rfl⟩ := by simpa [next] using hnext
      exact h.addToEnd (indexLetters_of_settled hsettled)
  | addByName key =>
      obtain ⟨⟨-, hsettled⟩, rfl⟩ := by simpa [next] using hnext
      exact h.addByName (indexLetters_of_settled hsettled)
  | adjustByName key oldLetters =>
      obtain ⟨⟨-, hprevious⟩, rfl⟩ := by simpa [next] using hnext
      rw [indexLetters_adjusted]
      exact h.adjustByName (indexLetters_of_previous hprevious)
  | adjustNames key oldLetters =>
      obtain ⟨hprevious, rfl⟩ := by simpa [next] using hnext
      rw [indexLetters_adjusted]
      exact h.adjustNames (indexLetters_of_previous hprevious)
  | remove key =>
      obtain ⟨hsettled, rfl⟩ := by simpa [next] using hnext
      exact h.remove (indexLetters_of_settled hsettled)

theorem indexedBy_reachable {s : State κ} (h : (system κ).Reachable s) :
    IndexedBy s.indexLetters s.indexed := by
  induction h with
  | init hinit =>
      obtain ⟨⟨sortMode, hempty⟩, -⟩ := hinit
      intro ch k
      rw [hempty]
      exact iff_of_false Rows.not_mem_empty fun hk => Rows.not_mem_empty hk.1
  | step _ _ hstep ih => exact indexedBy_next ih hstep

/-- **Search through the index.**  Once the changed names are adjusted, an entry is in the
list of a letter just when it is in the whole list and a word of its name begins with the
letter, and a search for words that are not all empty has one row for each entry of the list
that has a name word beginning with each of them. -/
theorem search_eq_scan {s : State κ} (h : (system κ).Reachable s)
    (hsettled : ∀ key, s.Settled key) :
    (∀ ch k, At s.indexed.index ch k ↔
      k ∈ s.indexed.list ∧ ∃ word ∈ (s.entry k).nameWords, word.first = ch) ∧
    ∀ words : List (List QChar), (∃ word ∈ words, word ≠ []) →
      (s.indexed.filtered s.entry words).Nodup ∧
        ∀ k, k ∈ s.indexed.filtered s.entry words ↔ k ∈ s.indexed.list ∧
          ∀ word ∈ words, ∃ name ∈ (s.entry k).nameWords, word <+: name.1 := by
  have hletters : s.indexLetters = fun k => (s.entry k).firstLetters :=
    funext fun k => indexLetters_of_settled (hsettled k)
  have hindexed := indexedBy_reachable h
  rw [hletters] at hindexed
  constructor
  · intro ch k
    rw [hindexed, Entry.mem_firstLetters]
  · intro words hwords
    obtain ⟨hnodup, hmem⟩ := hindexed.filtered hwords
    refine ⟨hnodup, fun k => ?_⟩
    rw [hmem, allFound_iff]

/-- A name that loses a letter and gets another one. -/
def renamed : List (Action Bool) :=
  [.setName false [⟨[97, 98], by simp⟩] [97, 98], .adjustByName false ∅, .addByName false,
    .setName true [⟨[97, 99], by simp⟩, ⟨[98], by simp⟩] [97, 99, 32, 98], .adjustByName true ∅,
    .addByName true, .setName false [⟨[98, 97], by simp⟩] [98, 97],
    .adjustByName false (FlatMap.emplace ∅ 97 ())]

def unnamed : State Bool :=
  { indexed := { sortMode := .Name }, entry := fun _ => ⟨[], [], 0⟩ }

theorem search_eq_scan_renamed :
    ∃ s, renamed.foldlM next unnamed = some s ∧ (s.indexed.filtered s.entry [[98]]).Nodup ∧
      ∀ k, k ∈ s.indexed.filtered s.entry [[98]] ↔ k ∈ s.indexed.list ∧
        ∀ word ∈ [[98]], ∃ name ∈ (s.entry k).nameWords, word <+: name.1 := by
  have hrun : ((renamed.foldlM next unnamed).map fun s => decide (∀ key, s.Settled key)) =
      some true := by
    decide +kernel
  obtain ⟨s, hs, hsettled⟩ := Option.map_eq_some_iff.mp hrun
  have hinit : (system Bool).init unnamed := ⟨⟨.Name, rfl⟩, fun _ => rfl⟩
  have hreached : (system Bool).Reachable s := .foldlM (.init hinit) (fun _ _ _ hstep => hstep) hs
  exact ⟨s, hs, (search_eq_scan hreached (of_decide_eq_true hsettled)).2 [[98]] ⟨[98], by simp⟩⟩

end State

end IndexedList

end MessengerClient
