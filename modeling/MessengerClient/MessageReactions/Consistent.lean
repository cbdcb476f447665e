import MessengerClient.MessageReactions.Local
import Mathlib

/-!
# MessengerClient.MessageReactions.Consistent

What holds of the counts and of the recent people after any adding, removing and change from the
server (`Consistent`).

The two `Assert`s of `remove` are about reactions that are not the user's.  The first one never
fails.  The second one fails when the server has named the user among the people of such a
reaction, which `change` takes as it is; it does not fail when that does not happen (`Owned`), and
it is not reached from `toggleReaction`, which only takes back what the user has chosen.
-/

namespace MessengerClient

namespace Data

open MessageReactions (PeerId)

namespace LocalReactions

/-! ## Invariants -/

def ids (list : List MessageReaction) : List ReactionId := list.map (·.id)

/-- The reactions of the user, without the paid one. -/
def own (list : List MessageReaction) : List MessageReaction :=
  list.filter fun one => one.my && !one.id.paid

/-- **Counts and recent people that go together.** -/
structure Consistent (s : LocalReactions) : Prop where
  nodup : (ids s.list).Nodup
  positive : ∀ one ∈ s.list, 0 < one.count
  nonempty : ∀ id list, s.recent.find? id = some list → list ≠ []
  keys : ∀ id list, s.recent.find? id = some list → id ∈ ids s.list

/-- The user is named among the people of the own reactions only, and there as such. -/
structure Owned (user : PeerId) (s : LocalReactions) : Prop where
  marked : ∀ id list, s.recent.find? id = some list → ∀ one ∈ list, one.peer = user → one.my = true
  owned : ∀ one ∈ s.list, one.my = false → ∀ list, s.recent.find? one.id = some list →
    ∀ recent ∈ list, recent.peer ≠ user

variable {item : ItemContext} {my : Int} {one : MessageReaction} {list rest : List MessageReaction}
  {recent : RecentReactions} {id k : ReactionId} {removed : Bool} {self : PeerId}
  {s : LocalReactions}

/-! ## What goes of the recent people -/

theorem find?_forgetMine_ne (h : k ≠ id) :
    (forgetMine recent id removed).find? k = recent.find? k := by
  unfold forgetMine
  split
  · rfl
  split
  · exact recent.find?_erase_ne h
  dsimp only
  split
  · exact recent.find?_erase_ne h
  · rw [FlatMap.find?_insert, if_neg h]

theorem find?_forgetMine {people : List RecentReaction}
    (h : (forgetMine recent id removed).find? id = some people) :
    removed = false ∧ people ≠ [] ∧ (∀ one ∈ people, one.my = false) ∧
      ∃ before, recent.find? id = some before ∧ ∀ one ∈ people, one ∈ before := by
  unfold forgetMine at h
  split at h
  · next hnone => rw [hnone] at h; cases h
  next before hbefore =>
  split at h
  · rw [FlatMap.find?_erase_self] at h; cases h
  next hkept =>
  dsimp only at h
  split at h
  · rw [FlatMap.find?_erase_self] at h; cases h
  next hne =>
  rw [FlatMap.find?_insert, if_pos rfl] at h
  obtain rfl := Option.some.inj h
  refine ⟨Bool.not_eq_true _ ▸ hkept, fun hnil => hne (List.isEmpty_iff.mpr hnil), ?_, before,
    hbefore, fun one hone => (List.mem_filter.mp hone).1⟩
  intro one hone
  exact Bool.not_eq_true' _ ▸ (List.mem_filter.mp hone).2

/-! ## The reactions over the limit -/

/-- A reaction is kept, or it is the user's and taken back. -/
theorem evict_cons :
    (∃ my', (one.my = true → one.id.paid = false → my ≠ item.sentReactionsLimit ∧ my' = my + 1 ∧
        my' ≠ item.sentReactionsLimit) ∧ (one.my = false ∨ one.id.paid = true → my' = my) ∧
      (evict item my (one :: rest) recent).1 = one :: (evict item my' rest recent).1 ∧
      (evict item my (one :: rest) recent).2.1 = (evict item my' rest recent).2.1) ∨
    (one.my = true ∧ one.id.paid = false ∧
      (evict item my (one :: rest) recent).1 = takenBack one ++
        (evict item item.sentReactionsLimit rest
          (forgetMine recent one.id (one.count - 1 = 0))).1 ∧
      (evict item my (one :: rest) recent).2.1 =
        (evict item item.sentReactionsLimit rest
          (forgetMine recent one.id (one.count - 1 = 0))).2.1) := by
  rw [evict]
  split
  · next hpaid =>
    refine .inl ⟨my, fun _ h => ?_, fun _ => rfl, rfl, rfl⟩
    rw [hpaid] at h
    cases h
  next hpaid =>
  rw [Bool.not_eq_true] at hpaid
  dsimp only
  generalize hcounted :
    (if (one.my && decide (my ≠ item.sentReactionsLimit)) = true then my + 1 else my) = my'
  split
  · next htaken =>
    rw [Bool.and_eq_true, decide_eq_true_eq] at htaken
    rw [htaken.2]
    exact .inr ⟨htaken.1, hpaid, rfl, rfl⟩
  · next hkept =>
    refine .inl ⟨my', fun hmy _ => ?_, fun hnot => ?_, rfl, rfl⟩
    · rw [hmy, Bool.true_and, decide_eq_true_eq] at hkept
      by_cases hlimit : my = item.sentReactionsLimit
      · have hnot : ¬decide (my ≠ item.sentReactionsLimit) = true := by
          rw [decide_eq_true_eq]
          exact not_not.mpr hlimit
        rw [hmy, Bool.true_and, if_neg hnot] at hcounted
        exact absurd (hcounted ▸ hlimit) hkept
      · rw [hmy, Bool.true_and, if_pos (decide_eq_true hlimit)] at hcounted
        exact ⟨hlimit, hcounted.symm, hkept⟩
    · cases hnot with
      | inl hmy =>
        rw [hmy, Bool.false_and, if_neg Bool.false_ne_true] at hcounted
        exact hcounted.symm
      | inr h => rw [hpaid] at h; cases h

theorem mem_takenBack {r : MessageReaction} (h : r ∈ takenBack one) :
    r.id = one.id ∧ r.my = false ∧ r.count = one.count - 1 ∧ r.count ≠ 0 := by
  unfold takenBack at h
  split at h
  · cases h
  · next hne =>
    obtain rfl := List.mem_singleton.mp h
    exact ⟨rfl, rfl, rfl, hne⟩

theorem ids_takenBack : (ids (takenBack one)).Sublist [one.id] := by
  unfold takenBack
  split
  · exact List.nil_sublist _
  · exact List.Sublist.refl _

theorem ids_evict : (ids (evict item my list recent).1).Sublist (ids list) := by
  induction list generalizing my recent with
  | nil => exact List.Sublist.refl _
  | cons one rest ih =>
    rcases @evict_cons item my one rest recent with ⟨my', -, -, hlist, -⟩ | ⟨-, -, hlist, -⟩
    · rw [hlist]
      exact ih.cons_cons _
    · rw [hlist, ids, List.map_append]
      exact ids_takenBack.append ih

theorem positive_evict (h : ∀ one ∈ list, 0 < one.count) :
    ∀ one ∈ (evict item my list recent).1, 0 < one.count := by
  induction list generalizing my recent with
  | nil => exact fun one hone => by cases hone
  | cons one rest ih =>
    obtain ⟨hone, hrest⟩ := List.forall_mem_cons.mp h
    rcases @evict_cons item my one rest recent with ⟨my', -, -, hlist, -⟩ | ⟨-, -, hlist, -⟩
    · rw [hlist]
      exact List.forall_mem_cons.mpr ⟨hone, ih hrest⟩
    · rw [hlist]
      refine List.forall_mem_append.mpr ⟨fun r hr => ?_, ih hrest⟩
      obtain ⟨-, -, hcount, hne⟩ := mem_takenBack hr
      omega

theorem recent_evict_other (h : k ∉ ids list) :
    (evict item my list recent).2.1.find? k = recent.find? k := by
  induction list generalizing my recent with
  | nil => rfl
  | cons one rest ih =>
    rw [ids, List.map_cons, List.mem_cons, not_or] at h
    rcases @evict_cons item my one rest recent with ⟨my', -, -, -, hrecent⟩ | ⟨-, -, -, hrecent⟩
    · rw [hrecent, ih h.2]
    · rw [hrecent, ih h.2, find?_forgetMine_ne h.1]

/-- **The people who are left of a reaction of the list**: it is left as well, and either is as it
was with all of them, or it was the user's and the user is not among them. -/
theorem recent_evict (hnodup : (ids list).Nodup) (hk : k ∈ ids list) {people : List RecentReaction}
    (h : (evict item my list recent).2.1.find? k = some people) :
    k ∈ ids (evict item my list recent).1 ∧
      (recent.find? k = some people ∧
          (∀ one ∈ (evict item my list recent).1, one.id = k → one ∈ list) ∨
        people ≠ [] ∧ (∀ one ∈ people, one.my = false) ∧
          ∃ before, recent.find? k = some before ∧ ∀ one ∈ people, one ∈ before) := by
  induction list generalizing my recent with
  | nil => cases hk
  | cons one rest ih =>
    rw [ids, List.map_cons, List.nodup_cons] at hnodup
    rw [ids, List.map_cons, List.mem_cons] at hk
    have hsame {my : Int} {recent : RecentReactions} (hother : k ∉ ids rest) :
        ∀ r ∈ (evict item my rest recent).1, r.id ≠ k := fun r hr heq =>
      hother (heq ▸ ids_evict.subset (List.mem_map_of_mem hr))
    rcases @evict_cons item my one rest recent with
      ⟨my', -, -, hlist, hrecent⟩ | ⟨-, -, hlist, hrecent⟩
    · rw [hrecent] at h
      rw [hlist]
      by_cases heq : k = one.id
      · have hother : k ∉ ids rest := heq ▸ hnodup.1
        rw [recent_evict_other hother] at h
        refine ⟨List.mem_map.mpr ⟨one, List.mem_cons_self, heq.symm⟩, .inl ⟨h, fun r hr hid => ?_⟩⟩
        cases List.mem_cons.mp hr with
        | inl hone => exact hone ▸ List.mem_cons_self
        | inr hrest => exact absurd hid (hsame hother r hrest)
      · obtain ⟨hmem, hcases⟩ := ih hnodup.2 (hk.resolve_left heq) h
        refine ⟨List.mem_cons_of_mem _ hmem, hcases.imp_left fun hsame => ⟨hsame.1, ?_⟩⟩
        intro r hr hid
        cases List.mem_cons.mp hr with
        | inl hone => exact absurd (hone ▸ hid).symm heq
        | inr hrest => exact List.mem_cons_of_mem _ (hsame.2 r hrest hid)
    · rw [hrecent] at h
      rw [hlist, ids, List.map_append]
      by_cases heq : k = one.id
      · have hother : k ∉ ids rest := heq ▸ hnodup.1
        rw [recent_evict_other hother, heq] at h
        obtain ⟨hleft, hne, hmine, before, hbefore, hsub⟩ := find?_forgetMine h
        refine ⟨List.mem_append_left _ ?_, .inr ⟨hne, hmine, before, heq ▸ hbefore, hsub⟩⟩
        rw [takenBack, if_neg (of_decide_eq_false hleft), heq]
        exact List.mem_cons_self
      · obtain ⟨hmem, hcases⟩ := ih hnodup.2 (hk.resolve_left heq) h
        rw [find?_forgetMine_ne heq] at hcases
        refine ⟨List.mem_append_right _ hmem, hcases.imp_left fun hsame => ⟨hsame.1, ?_⟩⟩
        intro r hr hid
        cases List.mem_append.mp hr with
        | inl htaken => exact absurd ((mem_takenBack htaken).1 ▸ hid).symm heq
        | inr hrest => exact List.mem_cons_of_mem _ (hsame.2 r hrest hid)

/-- The state between the eviction and the reaction that is added. -/
def evicted (s : LocalReactions) (item : ItemContext) : LocalReactions where
  list := (evict item 0 s.list s.recent).1
  recent := (evict item 0 s.list s.recent).2.1

theorem Consistent.evicted (h : s.Consistent) : (s.evicted item).Consistent := by
  have hcases {k : ReactionId} {people : List RecentReaction}
      (hpeople : (s.evicted item).recent.find? k = some people) :
      people ≠ [] ∧ k ∈ ids (s.evicted item).list := by
    by_cases hk : k ∈ ids s.list
    · obtain ⟨hmem, hsame | hleft⟩ := recent_evict h.nodup hk hpeople
      · exact ⟨h.nonempty k people hsame.1, hmem⟩
      · exact ⟨hleft.1, hmem⟩
    · have hsame := (recent_evict_other hk).symm.trans hpeople
      exact absurd (h.keys k people hsame) hk
  exact {
    nodup := ids_evict.nodup h.nodup
    positive := positive_evict h.positive
    nonempty := fun _ _ hpeople => (hcases hpeople).1
    keys := fun _ _ hpeople => (hcases hpeople).2 }

theorem Owned.evicted (h : s.Owned self) (hs : s.Consistent) : (s.evicted item).Owned self where
  marked := by
    intro k people hpeople one hone hself
    by_cases hk : k ∈ ids s.list
    · obtain ⟨-, hsame | ⟨-, -, before, hbefore, hsub⟩⟩ := recent_evict hs.nodup hk hpeople
      · exact h.marked k people hsame.1 one hone hself
      · exact h.marked k before hbefore one (hsub one hone) hself
    · exact h.marked k people ((recent_evict_other hk).symm.trans hpeople) one hone hself
  owned := by
    intro one hone hmy people hpeople p hp hself
    have hk : one.id ∈ ids s.list := ids_evict.subset (List.mem_map_of_mem hone)
    obtain ⟨-, hsame | ⟨-, hmine, before, hbefore, hsub⟩⟩ := recent_evict hs.nodup hk hpeople
    · exact h.owned one (hsame.2 one hone rfl) hmy people hsame.1 p hp hself
    · have hmarked := h.marked one.id before hbefore p (hsub p hp) hself
      rw [hmine p hp] at hmarked
      cases hmarked

/-! ## Adding -/

theorem eq_of_id (hnodup : (ids list).Nodup) {r : MessageReaction} (hone : one ∈ list)
    (hr : r ∈ list) (hid : one.id = r.id) : one = r :=
  List.inj_on_of_nodup_map hnodup hone hr hid

theorem eraseP_eq_filter (hnodup : (ids list).Nodup) :
    list.eraseP (·.id = id) = list.filter (·.id ≠ id) := by
  induction list with
  | nil => rfl
  | cons one rest ih =>
    rw [ids, List.map_cons, List.nodup_cons] at hnodup
    by_cases hid : one.id = id
    · rw [List.eraseP_cons_of_pos (by simpa using hid),
        List.filter_cons_of_neg (by simpa using hid)]
      refine (List.filter_eq_self.mpr fun r hr => ?_).symm
      simp only [decide_eq_true_eq]
      exact fun heq => hnodup.1 (hid.trans heq.symm ▸ List.mem_map_of_mem hr)
    · rw [List.eraseP_cons_of_neg (by simpa using hid),
        List.filter_cons_of_pos (by simpa using hid), ih hnodup.2]

theorem mem_find? (h : list.find? (·.id = id) = some one) : one ∈ list ∧ one.id = id :=
  ⟨List.mem_of_find?_eq_some h, by simpa using List.find?_some h⟩

theorem not_mem_find? (h : list.find? (·.id = id) = none) : id ∉ ids list := by
  intro hmem
  obtain ⟨one, hone, hid⟩ := List.mem_map.mp hmem
  have hnot := List.find?_eq_none.mp h one hone
  exact hnot (decide_eq_true hid)

theorem mem_push (hnodup : (ids list).Nodup) {r : MessageReaction} (h : r ∈ push list id) :
    r ∈ list ∧ r.id ≠ id ∨
      r.id = id ∧ r.my = true ∧ (r.count = 1 ∨ ∃ one ∈ list, r.count = one.count + 1) := by
  unfold push at h
  split at h
  · next one hone =>
    obtain ⟨hmem, hid⟩ := mem_find? hone
    rw [eraseP_eq_filter hnodup] at h
    cases List.mem_append.mp h with
    | inl hkept =>
      obtain ⟨hr, hne⟩ := List.mem_filter.mp hkept
      exact .inl ⟨hr, of_decide_eq_true hne⟩
    | inr hpushed =>
      obtain rfl := List.mem_singleton.mp hpushed
      exact .inr ⟨hid, rfl, .inr ⟨one, hmem, rfl⟩⟩
  · next hnone =>
    cases List.mem_append.mp h with
    | inl hkept =>
      exact .inl ⟨hkept, fun hid => not_mem_find? hnone (hid ▸ List.mem_map_of_mem hkept)⟩
    | inr hpushed =>
      obtain rfl := List.mem_singleton.mp hpushed
      exact .inr ⟨rfl, rfl, .inl rfl⟩

theorem mem_ids_push (k : ReactionId) (h : k ∈ ids list ∨ k = id) : k ∈ ids (push list id) := by
  unfold push
  split
  · next one hone =>
    obtain ⟨hmem, hid⟩ := mem_find? hone
    rw [ids, List.map_append, List.mem_append]
    by_cases hk : k = id
    · exact .inr (List.mem_singleton.mpr (hk.trans hid.symm))
    · obtain ⟨r, hr, hrk⟩ := List.mem_map.mp (h.resolve_right hk)
      refine .inl (List.mem_map.mpr ⟨r, (List.mem_eraseP_of_neg ?_).mpr hr, hrk⟩)
      simpa [hrk] using hk
  · rw [ids, List.map_append, List.mem_append]
    exact h.imp_right List.mem_singleton.mpr

theorem nodup_push (hnodup : (ids list).Nodup) : (ids (push list id)).Nodup := by
  unfold push
  split
  · next one hone =>
    rw [eraseP_eq_filter hnodup, ids, List.map_append]
    refine List.Nodup.append ?_ (List.nodup_singleton _) ?_
    · exact (List.filter_sublist.map _).nodup hnodup
    · rw [List.map_singleton, List.disjoint_singleton]
      intro hmem
      obtain ⟨r, hr, hrk⟩ := List.mem_map.mp hmem
      exact of_decide_eq_true (List.mem_filter.mp hr).2 (hrk.trans (mem_find? hone).2)
  · next hnone =>
    rw [ids, List.map_append]
    refine hnodup.append (List.nodup_singleton _) ?_
    rw [List.map_singleton, List.disjoint_singleton]
    exact not_mem_find? hnone

/-- The state after a reaction is added; `shown` is whether its people are. -/
def pushed (s : LocalReactions) (item : ItemContext) (id : ReactionId) : LocalReactions where
  list := push s.list id
  recent := if item.canViewReactions || item.peerIsUser then
      s.recent.insert id ({ peer := item.resolveChosen, my := true } ::
        (s.recent.find? id).getD [])
    else s.recent

/-- **What `add` does**, unless the reaction is chosen already. -/
theorem add_cases {addToRecent : Bool} {s' : LocalReactions} {calls : List ReactionsCall}
    (h : s.add item id addToRecent = some (s', calls)) :
    id ∈ s.chosen ∧ s' = s ∨
      id ∉ s.chosen ∧ s' = (s.evicted item).pushed item id := by
  unfold add at h
  split at h
  · cases h
  split at h
  · next hchosen =>
    obtain ⟨rfl, -⟩ := Prod.mk.inj (Option.some.inj h)
    exact .inl ⟨hchosen, rfl⟩
  · next hchosen =>
    obtain ⟨rfl, -⟩ := Prod.mk.inj (Option.some.inj h)
    exact .inr ⟨hchosen, rfl⟩

/-- The people after a reaction is added. -/
theorem find?_pushed {people : List RecentReaction}
    (h : (s.pushed item id).recent.find? k = some people) :
    s.recent.find? k = some people ∨ k = id ∧
      people = { peer := item.resolveChosen, my := true } :: (s.recent.find? id).getD [] := by
  dsimp only [pushed] at h
  split at h
  · rw [FlatMap.find?_insert] at h
    split at h
    · next hk => exact .inr ⟨hk, (Option.some.inj h).symm⟩
    · exact .inl h
  · exact .inl h

theorem Consistent.pushed (h : s.Consistent) : (s.pushed item id).Consistent where
  nodup := nodup_push h.nodup
  positive := by
    intro one hone
    rcases mem_push h.nodup hone with ⟨hold, -⟩ | ⟨-, -, hcount | ⟨old, hold, hcount⟩⟩
    · exact h.positive one hold
    · omega
    · have := h.positive old hold
      omega
  nonempty := by
    intro k people hpeople
    cases find?_pushed hpeople with
    | inl hold => exact h.nonempty k people hold
    | inr hnew => exact hnew.2 ▸ List.cons_ne_nil _ _
  keys := by
    intro k people hpeople
    cases find?_pushed hpeople with
    | inl hold => exact mem_ids_push k (.inl (h.keys k people hold))
    | inr hnew => exact mem_ids_push k (.inr hnew.1)

theorem Owned.pushed (h : s.Owned self) (hs : s.Consistent) : (s.pushed item id).Owned self where
  marked := by
    intro k people hpeople one hone hself
    rcases find?_pushed hpeople with hold | ⟨-, rfl⟩
    · exact h.marked k people hold one hone hself
    · cases List.mem_cons.mp hone with
      | inl hnew => rw [hnew]
      | inr hold =>
        cases hfind : s.recent.find? id with
        | none => rw [hfind] at hold; cases hold
        | some before =>
          rw [hfind] at hold
          exact h.marked id before hfind one hold hself
  owned := by
    intro one hone hmy people hpeople
    rcases mem_push hs.nodup hone with ⟨hold, hne⟩ | ⟨-, hmine, -⟩
    · cases find?_pushed hpeople with
      | inl hsame => exact h.owned one hold hmy people hsame
      | inr hnew => exact absurd hnew.1 hne
    · rw [hmine] at hmy
      cases hmy

theorem mem_takeBack (hnodup : (ids list).Nodup) {r : MessageReaction} (h : r ∈ takeBack id list) :
    r ∈ list ∧ r.id ≠ id ∨ ∃ one ∈ list, one.id = id ∧ r ∈ takenBack one := by
  induction list with
  | nil => cases h
  | cons one rest ih =>
    rw [ids, List.map_cons, List.nodup_cons] at hnodup
    rw [takeBack] at h
    split at h
    · next hid =>
      cases List.mem_append.mp h with
      | inl htaken => exact .inr ⟨one, List.mem_cons_self, hid, htaken⟩
      | inr hrest =>
        refine .inl ⟨List.mem_cons_of_mem _ hrest, fun heq => hnodup.1 ?_⟩
        rw [hid, ← heq]
        exact List.mem_map_of_mem hrest
    · next hid =>
      cases List.mem_cons.mp h with
      | inl hone => exact .inl ⟨hone ▸ List.mem_cons_self, hone ▸ hid⟩
      | inr hrest =>
        rcases ih hnodup.2 hrest with ⟨hmem, hne⟩ | ⟨one', hone', hid', htaken⟩
        · exact .inl ⟨List.mem_cons_of_mem _ hmem, hne⟩
        · exact .inr ⟨one', List.mem_cons_of_mem _ hone', hid', htaken⟩

theorem ids_takeBack : (ids (takeBack id list)).Sublist (ids list) := by
  induction list with
  | nil => exact List.Sublist.refl _
  | cons one rest ih =>
    rw [takeBack]
    split
    · rw [ids, List.map_append]
      exact ids_takenBack.append (List.Sublist.refl _)
    · exact ih.cons_cons _

/-- The others stay, and the one as well if its count was not the last. -/
theorem mem_ids_takeBack (hnodup : (ids list).Nodup) (hone : one ∈ list) (hid : one.id = id)
    (hk : k ∈ ids list) (h : k = id → one.count - 1 ≠ 0) : k ∈ ids (takeBack id list) := by
  induction list with
  | nil => cases hone
  | cons head rest ih =>
    rw [ids, List.map_cons, List.nodup_cons] at hnodup
    rw [ids, List.map_cons, List.mem_cons] at hk
    rw [takeBack]
    split
    · next hhead =>
      rw [ids, List.map_append, List.mem_append]
      cases hk with
      | inr hrest => exact .inr hrest
      | inl heq =>
        have hsame : one = head := by
          cases List.mem_cons.mp hone with
          | inl h => exact h
          | inr hrest =>
            exact absurd (hhead.trans hid.symm ▸ List.mem_map_of_mem hrest) hnodup.1
        rw [takenBack, if_neg (hsame ▸ h (heq.trans hhead))]
        exact .inl (List.mem_singleton.mpr heq)
    · next hhead =>
      have hrest : one ∈ rest := (List.mem_cons.mp hone).resolve_left fun heq => hhead (heq ▸ hid)
      cases hk with
      | inl heq => exact heq ▸ List.mem_cons_self
      | inr hk => exact List.mem_cons_of_mem _ (ih hnodup.2 hrest hk)

/-- The state after a reaction of the user is removed. -/
def without (s : LocalReactions) (id : ReactionId) (one : MessageReaction) : LocalReactions where
  list := takeBack id s.list
  recent := forgetMine s.recent id (one.count - 1 = 0)

/-- **What `remove` does.** -/
theorem remove_cases (self : PeerId) {s' : LocalReactions} {calls : List ReactionsCall}
    (h : s.remove self item id = some (s', calls)) :
    s' = s ∨ ∃ one ∈ s.list, one.id = id ∧ one.my = true ∧ s' = s.without id one := by
  unfold remove at h
  split at h
  · cases h
  split at h
  · split at h
    · exact .inl (Prod.mk.inj (Option.some.inj h)).1.symm
    · cases h
  · next one hone =>
    obtain ⟨hmem, hid⟩ := mem_find? hone
    split at h
    · split at h
      · exact .inl (Prod.mk.inj (Option.some.inj h)).1.symm
      · cases h
    · next hmy =>
      refine .inr ⟨one, hmem, hid, ?_, (Prod.mk.inj (Option.some.inj h)).1.symm⟩
      rwa [Bool.not_eq_true', Bool.not_eq_false] at hmy

theorem Consistent.without (h : s.Consistent) (hone : one ∈ s.list) (hid : one.id = id) :
    (s.without id one).Consistent where
  nodup := ids_takeBack.nodup h.nodup
  positive := by
    intro r hr
    rcases mem_takeBack h.nodup hr with ⟨hmem, -⟩ | ⟨old, hold, -, htaken⟩
    · exact h.positive r hmem
    · obtain ⟨-, -, hcount, hne⟩ := mem_takenBack htaken
      have := h.positive old hold
      omega
  nonempty := by
    intro k people hpeople
    by_cases hk : k = id
    · exact (find?_forgetMine (hk ▸ hpeople)).2.1
    · exact h.nonempty k people ((find?_forgetMine_ne hk).symm.trans hpeople)
  keys := by
    intro k people hpeople
    by_cases hk : k = id
    · obtain ⟨hleft, -, -, before, hbefore, -⟩ := find?_forgetMine (hk ▸ hpeople)
      exact mem_ids_takeBack h.nodup hone hid (hk ▸ h.keys id before hbefore)
        fun _ => of_decide_eq_false hleft
    · exact mem_ids_takeBack h.nodup hone hid
        (h.keys k people ((find?_forgetMine_ne hk).symm.trans hpeople)) fun heq => absurd heq hk

theorem Owned.without (h : s.Owned self) (hs : s.Consistent) (one : MessageReaction) :
    (s.without id one).Owned self where
  marked := by
    intro k people hpeople p hp hself
    by_cases hk : k = id
    · obtain ⟨-, -, -, before, hbefore, hsub⟩ := find?_forgetMine (hk ▸ hpeople)
      exact h.marked id before hbefore p (hsub p hp) hself
    · exact h.marked k people ((find?_forgetMine_ne hk).symm.trans hpeople) p hp hself
  owned := by
    intro r hr hmy people hpeople p hp hself
    rcases mem_takeBack hs.nodup hr with ⟨hmem, hne⟩ | ⟨old, -, hid, htaken⟩
    · exact h.owned r hmem hmy people ((find?_forgetMine_ne hne).symm.trans hpeople) p hp hself
    · have hrid : r.id = id := (mem_takenBack htaken).1.trans hid
      rw [hrid] at hpeople
      obtain ⟨-, -, hmine, before, hbefore, hsub⟩ := find?_forgetMine hpeople
      have hmarked := h.marked id before hbefore p (hsub p hp) hself
      rw [hmine p hp] at hmarked
      cases hmarked

/-! ## Changes from the server -/

theorem mem_modifyFirst (hnodup : (ids list).Nodup) {f : MessageReaction → MessageReaction}
    {r : MessageReaction} (h : r ∈ modifyFirst id f list) :
    r ∈ list ∧ r.id ≠ id ∨ ∃ one ∈ list, one.id = id ∧ r = f one := by
  induction list with
  | nil => cases h
  | cons one rest ih =>
    rw [ids, List.map_cons, List.nodup_cons] at hnodup
    rw [modifyFirst] at h
    split at h
    · next hid =>
      cases List.mem_cons.mp h with
      | inl heq => exact .inr ⟨one, List.mem_cons_self, hid, heq⟩
      | inr hrest =>
        refine .inl ⟨List.mem_cons_of_mem _ hrest, fun heq => hnodup.1 ?_⟩
        rw [hid, ← heq]
        exact List.mem_map_of_mem hrest
    · next hid =>
      cases List.mem_cons.mp h with
      | inl heq => exact .inl ⟨heq ▸ List.mem_cons_self, heq ▸ hid⟩
      | inr hrest =>
        rcases ih hnodup.2 hrest with ⟨hmem, hne⟩ | ⟨one', hone', hid', heq⟩
        · exact .inl ⟨List.mem_cons_of_mem _ hmem, hne⟩
        · exact .inr ⟨one', List.mem_cons_of_mem _ hone', hid', heq⟩

theorem ids_modifyFirst {f : MessageReaction → MessageReaction} (hf : ∀ one, (f one).id = one.id) :
    ids (modifyFirst id f list) = ids list := by
  induction list with
  | nil => rfl
  | cons one rest ih =>
    rw [modifyFirst]
    split
    · rw [ids, List.map_cons, hf]
      rfl
    · rw [ids, List.map_cons, ← ids, ih]
      rfl

/-- What holds after the counts `counted` are applied to the list `old`. -/
structure Counting (min : Bool) (old : List MessageReaction) (counted : List ReactionCount)
    (now : List MessageReaction) : Prop where
  nodup : (ids now).Nodup
  all : ∀ data ∈ counted, data.reaction ∈ ids now
  positive : ∀ one ∈ now, one.id ∈ counted.map (·.reaction) → 0 < one.count
  chosen : min = false → ∀ one ∈ now, ∀ data ∈ counted, data.reaction = one.id →
    one.my = data.chosenOrder.isSome
  kept : min = true → ∀ one ∈ now, ∀ before ∈ old, before.id = one.id → one.my = before.my

variable {min : Bool} {old now : List MessageReaction} {counted : List ReactionCount}
  {data : ReactionCount} {changed : Bool}

/-- One count more: its reaction is as it says, the others as they were. -/
theorem Counting.snoc (h : Counting min old counted now) {now' : List MessageReaction}
    (hnew : data.reaction ∉ counted.map (·.reaction)) (hpos : 0 < data.count)
    (hnodup : (ids now').Nodup) (hsub : ∀ k ∈ ids now, k ∈ ids now')
    (hmem : data.reaction ∈ ids now')
    (hcases : ∀ one ∈ now', one ∈ now ∧ one.id ≠ data.reaction ∨ one.id = data.reaction ∧
      one.count = data.count ∧ (min = false → one.my = data.chosenOrder.isSome) ∧
      (min = true → ∀ before ∈ old, before.id = one.id → one.my = before.my)) :
    Counting min old (counted ++ [data]) now' where
  nodup := hnodup
  all := by
    rw [List.forall_mem_append, List.forall_mem_singleton]
    exact ⟨fun d hd => hsub _ (h.all d hd), hmem⟩
  positive := by
    intro one hone hid
    rcases hcases one hone with ⟨hold, hne⟩ | ⟨-, hcount, -⟩
    · rw [List.map_append, List.map_singleton, List.mem_append, List.mem_singleton] at hid
      exact h.positive one hold (hid.resolve_right hne)
    · exact hcount ▸ hpos
  chosen := by
    intro hmin one hone
    rw [List.forall_mem_append, List.forall_mem_singleton]
    rcases hcases one hone with ⟨hold, hne⟩ | ⟨hid, -, hmy, -⟩
    · exact ⟨h.chosen hmin one hold, fun heq => absurd heq.symm hne⟩
    · refine ⟨fun d hd heq => absurd ?_ hnew, fun _ => hmy hmin⟩
      rw [← hid, ← heq]
      exact List.mem_map_of_mem hd
  kept := by
    intro hmin one hone
    rcases hcases one hone with ⟨hold, -⟩ | ⟨-, -, -, hmy⟩
    · exact h.kept hmin one hold
    · exact hmy hmin

theorem Counting.applyCount (h : Counting min old counted now)
    (hsub : ∀ one ∈ old, one.id ∈ ids now)
    (hnew : data.reaction ∉ counted.map (·.reaction)) (hpos : 0 < data.count) :
    Counting min old (counted ++ [data]) (applyCount min (now, changed) data).1 ∧
      ∀ k ∈ ids now, k ∈ ids (LocalReactions.applyCount min (now, changed) data).1 := by
  unfold LocalReactions.applyCount
  dsimp only
  split
  · next hnone =>
    -- a reaction that was not there
    have hnot := not_mem_find? hnone
    have hkeep : ∀ one : MessageReaction, ∀ k ∈ ids now, k ∈ ids (now ++ [one]) := by
      intro one k hk
      rw [ids, List.map_append]
      exact List.mem_append_left _ hk
    refine ⟨h.snoc hnew hpos ?_ (hkeep _) ?_ fun one hone => ?_, hkeep _⟩
    · rw [ids, List.map_append]
      refine h.nodup.append (List.nodup_singleton _) ?_
      rw [List.map_singleton, List.disjoint_singleton]
      exact hnot
    · rw [ids, List.map_append]
      exact List.mem_append_right _ (List.mem_singleton_self _)
    · cases List.mem_append.mp hone with
      | inl hold => exact .inl ⟨hold, fun hid => hnot (hid ▸ List.mem_map_of_mem hold)⟩
      | inr hone =>
        obtain rfl := List.mem_singleton.mp hone
        refine .inr ⟨rfl, rfl, fun hmin => ?_, fun _ before hbefore hid => ?_⟩
        · rw [hmin]
          rfl
        · have hmem := hsub before hbefore
          rw [hid] at hmem
          exact absurd hmem hnot
  next one hone =>
  obtain ⟨hmem, hid⟩ := mem_find? hone
  have hmy : (min = false → (if min then one.my else data.chosenOrder.isSome) =
      data.chosenOrder.isSome) ∧ (min = true → ∀ before ∈ old, before.id = one.id →
        (if min then one.my else data.chosenOrder.isSome) = before.my) := by
    constructor
    · intro hmin
      rw [hmin]
      rfl
    · intro hmin before hbefore heq
      rw [hmin]
      exact h.kept hmin one hmem before hbefore heq
  generalize (if min = true then one.my else data.chosenOrder.isSome) = nowMy at hmy ⊢
  split
  · have hids : ids (modifyFirst data.reaction (fun one' => { one' with
        count := data.count, my := nowMy }) now) = ids now := ids_modifyFirst fun _ => rfl
    refine ⟨h.snoc hnew hpos (hids ▸ h.nodup) (hids ▸ fun _ hk => hk)
      (hids ▸ hid ▸ List.mem_map_of_mem hmem) fun r hr => ?_, hids ▸ fun _ hk => hk⟩
    rcases mem_modifyFirst h.nodup hr with hold | ⟨one', hone', hid', rfl⟩
    · exact .inl hold
    · obtain rfl := eq_of_id h.nodup hone' hmem (hid'.trans hid.symm)
      exact .inr ⟨hid, rfl, hmy⟩
  · next hsame =>
    rw [not_or, not_not, not_not] at hsame
    refine ⟨h.snoc hnew hpos h.nodup (fun _ hk => hk) (hid ▸ List.mem_map_of_mem hmem)
      fun r hr => ?_, fun _ hk => hk⟩
    by_cases hrid : r.id = data.reaction
    · obtain rfl := eq_of_id h.nodup hr hmem (hrid.trans hid.symm)
      rw [← hsame.2] at hmy
      exact .inr ⟨hrid, hsame.1, hmy⟩
    · exact .inl ⟨hr, hrid⟩

theorem Counting.foldl {rest : List ReactionCount} (h : Counting min old counted now)
    (hsub : ∀ one ∈ old, one.id ∈ ids now)
    (hnodup : ((counted ++ rest).map (·.reaction)).Nodup) (hpos : ∀ data ∈ rest, 0 < data.count) :
    Counting min old (counted ++ rest)
      (rest.foldl (LocalReactions.applyCount min) (now, changed)).1 := by
  induction rest generalizing counted now changed with
  | nil => rwa [List.append_nil]
  | cons data rest ih =>
    obtain ⟨hdata, hrest⟩ := List.forall_mem_cons.mp hpos
    rw [List.append_cons] at hnodup ⊢
    have hnew : data.reaction ∉ counted.map (·.reaction) := by
      rw [List.map_append, List.map_append] at hnodup
      have hdisjoint := List.disjoint_of_nodup_append (List.Nodup.of_append_left hnodup)
      exact fun hmem => hdisjoint hmem (List.mem_singleton_self _)
    obtain ⟨hcounting, hkeep⟩ : Counting min old (counted ++ [data])
        (LocalReactions.applyCount min (now, changed) data).1 ∧ _ := h.applyCount hsub hnew hdata
    exact ih hcounting (fun one hone => hkeep _ (hsub one hone)) hnodup hrest

theorem counting_nil (hnodup : (ids old).Nodup) : Counting min old [] old where
  nodup := hnodup
  all := fun _ h => by cases h
  positive := fun _ _ h => by cases h
  chosen := fun _ _ _ _ h => by cases h
  kept := fun _ one hone before hbefore hid => by rw [eq_of_id hnodup hbefore hone hid]

/-- A list of the same reactions, or of those that were counted. -/
theorem Counting.subset (h : Counting min old counted now) {now' : List MessageReaction}
    (hnodup : (ids now').Nodup) (hsub : ∀ one ∈ now', one ∈ now)
    (hall : ∀ data ∈ counted, data.reaction ∈ ids now') : Counting min old counted now' where
  nodup := hnodup
  all := hall
  positive := fun one hone => h.positive one (hsub one hone)
  chosen := fun hmin one hone => h.chosen hmin one (hsub one hone)
  kept := fun hmin one hone => h.kept hmin one (hsub one hone)

theorem Counting.perm (h : Counting min old counted now) {now' : List MessageReaction}
    (hperm : now'.Perm now) : Counting min old counted now' :=
  h.subset ((hperm.map _).nodup_iff.mpr h.nodup) (fun _ hone => hperm.subset hone)
    fun data hdata => (hperm.map _).symm.subset (h.all data hdata)

/-- **What is left of the list** are the reactions that were counted. -/
theorem Counting.restrict (h : Counting min old counted now)
    (hcounted : (counted.map (·.reaction)).Nodup) {now' : List MessageReaction}
    (hnow : now' = if now.length ≠ (counted.map (·.reaction)).dedup.length then
      now.filter (·.id ∈ (counted.map (·.reaction)).dedup) else now) :
    Counting min old counted now' ∧ ∀ one ∈ now', one.id ∈ counted.map (·.reaction) := by
  rw [List.dedup_eq_self.mpr hcounted] at hnow
  split at hnow
  · have hmem : ∀ one, one ∈ now' ↔ one ∈ now ∧ one.id ∈ counted.map (·.reaction) := fun one => by
      rw [hnow, List.mem_filter, decide_eq_true_eq]
    refine ⟨h.subset ?_ (fun one hone => ((hmem one).mp hone).1) fun data hdata => ?_,
      fun one hone => ((hmem one).mp hone).2⟩
    · rw [hnow]
      exact (List.filter_sublist.map _).nodup h.nodup
    · obtain ⟨one, hone, hid⟩ := List.mem_map.mp (h.all data hdata)
      exact List.mem_map.mpr ⟨one, (hmem one).mpr ⟨hone, hid ▸ List.mem_map_of_mem hdata⟩, hid⟩
  · next hlength =>
    rw [not_not, ← List.length_map (f := (·.id))] at hlength
    have hsub : counted.map (·.reaction) ⊆ ids now := fun k hk => by
      obtain ⟨data, hdata, rfl⟩ := List.mem_map.mp hk
      exact h.all data hdata
    have hperm := (List.Nodup.subperm hcounted hsub).perm_of_length_le hlength.le
    rw [hnow]
    exact ⟨h, fun one hone => hperm.symm.subset (List.mem_map_of_mem hone)⟩

/-- **What `change` does.** -/
theorem change_cases (sorter : Sorter) (counts : List ReactionCount) (people : List PeerReaction) :
    (s.change self sorter item counts people min).1 = s ∨
    ∃ now, (s.change self sorter item counts people min).1 =
        { list := now, recent := people.foldl (applyRecent self now s.recent min) ∅ } ∧
      ∃ before, before.Perm (counts.foldl (LocalReactions.applyCount min) (s.list, false)).1 ∧
        now = if before.length ≠ (counts.map (·.reaction)).dedup.length then
          before.filter (·.id ∈ (counts.map (·.reaction)).dedup) else before := by
  unfold change
  split
  · exact .inl rfl
  refine .inr ?_
  dsimp only
  split
  · split
    · exact ⟨_, rfl, _, sorter.perm _ _, by rw [if_pos ‹_›]⟩
    · exact ⟨_, rfl, _, sorter.perm _ _, by rw [if_neg ‹_›]⟩
  · split
    · exact ⟨_, rfl, _, List.Perm.refl _, by rw [if_pos ‹_›]⟩
    · exact ⟨_, rfl, _, List.Perm.refl _, by rw [if_neg ‹_›]⟩

/-- What holds of the people that are read, all of them among `people`. -/
def Read (self : PeerId) (now : List MessageReaction) (people : List PeerReaction)
    (parsed : RecentReactions) : Prop :=
  ∀ k list, parsed.find? k = some list → list ≠ [] ∧ k ∈ ids now ∧
    ∀ one ∈ list, one.peer = self → one.my = true ∧
      ∃ data ∈ people, data.peer = self ∧ data.reaction = k

theorem read_applyRecent {people : List PeerReaction} {parsed : RecentReactions}
    (h : Read self now people parsed) (hpos : ∀ one ∈ now, 0 < one.count) {data : PeerReaction}
    (hdata : data ∈ people) :
    Read self now people (applyRecent self now recent min parsed data) := by
  unfold applyRecent
  split
  · exact h
  next one hone =>
  obtain ⟨hmem, hid⟩ := mem_find? hone
  have hk : data.reaction ∈ ids now := hid ▸ List.mem_map_of_mem hmem
  have hknown : ∀ p ∈ (parsed.find? data.reaction).getD [], p.peer = self →
      p.my = true ∧ ∃ d ∈ people, d.peer = self ∧ d.reaction = data.reaction := by
    cases hfind : parsed.find? data.reaction with
    | none => exact fun p hp => by cases hp
    | some list => exact (h data.reaction list hfind).2.2
  dsimp only
  split
  · next hfull =>
    intro k list hlist
    rw [FlatMap.find?_insert] at hlist
    split at hlist
    · next heq =>
      obtain rfl := Option.some.inj hlist
      refine ⟨fun hnil => ?_, heq ▸ hk, heq ▸ hknown⟩
      have := hpos one hmem
      rw [hnil] at hfull
      exact absurd hfull (not_le.mpr this)
    · exact h k list hlist
  · intro k list hlist
    rw [FlatMap.find?_insert] at hlist
    split at hlist
    · next heq =>
      obtain rfl := Option.some.inj hlist
      refine ⟨by simp, heq ▸ hk, List.forall_mem_append.mpr ⟨heq ▸ hknown, ?_⟩⟩
      rw [List.forall_mem_singleton]
      intro hself
      refine ⟨?_, data, hdata, hself, heq.symm⟩
      rw [isMyRecent, if_pos hself]
    · exact h k list hlist

theorem read_foldl {people rest : List PeerReaction} {parsed : RecentReactions}
    (h : Read self now people parsed) (hpos : ∀ one ∈ now, 0 < one.count)
    (hrest : ∀ data ∈ rest, data ∈ people) :
    Read self now people (rest.foldl (applyRecent self now recent min) parsed) := by
  induction rest generalizing parsed with
  | nil => exact h
  | cons data rest ih =>
    obtain ⟨hdata, hrest⟩ := List.forall_mem_cons.mp hrest
    exact ih (read_applyRecent h hpos hdata) hrest

/-- Counts of different reactions, all positive. -/
def ValidCounts (counts : List ReactionCount) : Prop :=
  (counts.map (·.reaction)).Nodup ∧ ∀ data ∈ counts, 0 < data.count

/-- The user is named among the people only of reactions that then are the user's. -/
def NamesOwn (self : PeerId) (s : LocalReactions) (counts : List ReactionCount)
    (people : List PeerReaction) (min : Bool) : Prop :=
  ∀ named ∈ people, named.peer = self → named.reaction ∈ counts.map (·.reaction) →
    if min then ∃ one ∈ s.list, one.id = named.reaction ∧ one.my = true
    else ∃ data ∈ counts, data.reaction = named.reaction ∧ data.chosenOrder.isSome = true

theorem change_spec (self : PeerId) (item : ItemContext) (min : Bool) (h : s.Consistent)
    (sorter : Sorter) {counts : List ReactionCount} (hcounts : ValidCounts counts)
    (people : List PeerReaction) :
    (s.change self sorter item counts people min).1 = s ∨
    ∃ now parsed,
      (s.change self sorter item counts people min).1 = { list := now, recent := parsed } ∧
      Counting min s.list counts now ∧ (∀ one ∈ now, one.id ∈ counts.map (·.reaction)) ∧
      Read self now people parsed := by
  rcases @change_cases item self s min sorter counts people with
    hsame | ⟨now, hnow, before, hperm, heq⟩
  · exact .inl hsame
  have hsub : ∀ one ∈ s.list, one.id ∈ ids s.list := fun one hone => List.mem_map_of_mem hone
  have hnil : Counting min s.list [] s.list := counting_nil h.nodup
  have hcounting : Counting min s.list counts
      (counts.foldl (LocalReactions.applyCount min) (s.list, false)).1 :=
    hnil.foldl hsub hcounts.1 hcounts.2
  obtain ⟨hnowCounting, hnowMem⟩ := (hcounting.perm hperm).restrict hcounts.1 heq
  refine .inr ⟨now, _, hnow, hnowCounting, hnowMem, ?_⟩
  refine read_foldl (fun k list hlist => ?_) (fun one hone =>
    hnowCounting.positive one hone (hnowMem one hone)) fun _ hdata => hdata
  cases hlist

theorem Consistent.change (h : s.Consistent) (sorter : Sorter) {counts : List ReactionCount}
    (hcounts : ValidCounts counts) (people : List PeerReaction) :
    (s.change self sorter item counts people min).1.Consistent := by
  rcases change_spec self item min h sorter hcounts people with
    hsame | ⟨now, parsed, heq, hcounting, hmem, hread⟩
  · rw [hsame]
    exact h
  · rw [heq]
    exact {
      nodup := hcounting.nodup
      positive := fun one hone => hcounting.positive one hone (hmem one hone)
      nonempty := fun k list hlist => (hread k list hlist).1
      keys := fun k list hlist => (hread k list hlist).2.1 }

theorem Owned.change (h : s.Owned self) (hs : s.Consistent) (sorter : Sorter)
    {counts : List ReactionCount} (hcounts : ValidCounts counts) {people : List PeerReaction}
    (hnames : NamesOwn self s counts people min) :
    (s.change self sorter item counts people min).1.Owned self := by
  rcases change_spec self item min hs sorter hcounts people with
    hsame | ⟨now, parsed, heq, hcounting, hmem, hread⟩
  · rw [hsame]
    exact h
  rw [heq]
  refine ⟨fun k list hlist one hone hself => ((hread k list hlist).2.2 one hone hself).1, ?_⟩
  intro one hone hmy list hlist p hp hself
  obtain ⟨-, named, hnamed, hnamedSelf, hreaction⟩ := (hread one.id list hlist).2.2 p hp hself
  have hown := hnames named hnamed hnamedSelf (hreaction ▸ hmem one hone)
  rw [hreaction] at hown
  split at hown
  · next hmin =>
    obtain ⟨before, hbefore, hid, hbeforeMy⟩ := hown
    rw [hcounting.kept hmin one hone before hbefore hid, hbeforeMy] at hmy
    cases hmy
  · next hmin =>
    obtain ⟨data, hdata, hid, hchosen⟩ := hown
    rw [hcounting.chosen (Bool.not_eq_true _ ▸ hmin) one hone data hdata hid, hchosen] at hmy
    cases hmy

/-! ## Runs -/

inductive Action where
  | add (item : ItemContext) (id : ReactionId) (addToRecent : Bool)
  | remove (item : ItemContext) (id : ReactionId)
  | change (item : ItemContext) (sorter : Sorter) (counts : List ReactionCount)
      (people : List PeerReaction) (min : Bool)

def Action.Allowed : Action → Prop
  | add _ id _ => id.empty = false ∧ id.paid = false
  | remove _ id => id.paid = false
  | change _ _ counts _ _ => ValidCounts counts

def Action.NamesOwn (self : PeerId) (s : LocalReactions) : Action → Prop
  | change _ _ counts people min => LocalReactions.NamesOwn self s counts people min
  | _ => True

def act (self : PeerId) (s : LocalReactions) : Action → Option LocalReactions
  | .add item id addToRecent => (s.add item id addToRecent).map Prod.fst
  | .remove item id => (s.remove self item id).map Prod.fst
  | .change item sorter counts people min => some (s.change self sorter item counts people min).1

/-- The reactions of a message of the account `self`. -/
def reactions (self : PeerId) : System LocalReactions Action where
  init s := s = {}
  step s a s' := s.act self a = some s'

variable {a : Action} {s' : LocalReactions}

theorem Consistent.act (h : s.Consistent) (ha : a.Allowed) (hact : s.act self a = some s') :
    s'.Consistent := by
  cases a with
  | add item id addToRecent =>
    obtain ⟨⟨s'', calls⟩, hadd, rfl⟩ := Option.map_eq_some_iff.mp hact
    rcases add_cases hadd with ⟨-, rfl⟩ | ⟨-, rfl⟩
    · exact h
    · exact h.evicted.pushed
  | remove item id =>
    obtain ⟨⟨s'', calls⟩, hremove, rfl⟩ := Option.map_eq_some_iff.mp hact
    rcases remove_cases self hremove with rfl | ⟨one, hone, hid, -, rfl⟩
    · exact h
    · exact h.without hone hid
  | change item sorter counts people min => exact Option.some.inj hact ▸ h.change sorter ha people

theorem Owned.act (h : s.Owned self) (hs : s.Consistent) (ha : a.Allowed)
    (hnames : a.NamesOwn self s) (hact : s.act self a = some s') : s'.Owned self := by
  cases a with
  | add item id addToRecent =>
    obtain ⟨⟨s'', calls⟩, hadd, rfl⟩ := Option.map_eq_some_iff.mp hact
    rcases add_cases hadd with ⟨-, rfl⟩ | ⟨-, rfl⟩
    · exact h
    · exact (h.evicted hs).pushed hs.evicted
  | remove item id =>
    obtain ⟨⟨s'', calls⟩, hremove, rfl⟩ := Option.map_eq_some_iff.mp hact
    rcases remove_cases self hremove with rfl | ⟨one, -, -, -, rfl⟩
    · exact h
    · exact h.without hs one
  | change item sorter counts people min =>
    exact Option.some.inj hact ▸ h.change hs sorter ha hnames

/-- An item that nothing is being sent for. -/
def plainItem : ItemContext := {
  sentReactionsLimit := 1
  reactionsAreTags := false
  canViewReactions := true
  peerIsUser := false
  resolveChosen := 0
  sending := false }

def mergeSorter : Sorter where
  sort proj list := list.mergeSort fun a b => proj a ≤ proj b
  perm _ _ := List.mergeSort_perm _ _
  sorted proj list := by
    have htrans : ∀ a b c : MessageReaction, decide (proj a ≤ proj b) = true →
        decide (proj b ≤ proj c) = true → decide (proj a ≤ proj c) = true := fun _ _ _ hab hbc =>
      decide_eq_true ((of_decide_eq_true hab).trans (of_decide_eq_true hbc))
    have htotal : ∀ a b : MessageReaction,
        (decide (proj a ≤ proj b) || decide (proj b ≤ proj a)) = true := fun a b => by
      simpa using le_total (proj a) (proj b)
    have hsorted := List.pairwise_mergeSort htrans htotal list
    exact List.pairwise_map.mpr (hsorted.imp fun hab => of_decide_eq_true hab)

/-- The server names the user for a reaction, in an update that does not say whose it is. -/
def named : Action := .change plainItem mergeSorter [⟨.document 1, none, 1⟩]
  [⟨.document 1, 0, false, false, true⟩] true

end LocalReactions

end Data

end MessengerClient
