import MessengerClient.Lib.Greedy
import MessengerClient.MosaicLayout

/-!
# MessengerClient.MosaicLayout.Incremental

A layout that is updated with one list after another has the rows that it would have with the
last list alone.

The rows are those that the items fill, where a row is closed once it is full or big.  What
an update keeps of them are rows that are filled still, with items that are the first ones of
the list, and the items that it adds go on from complete rows.
-/

namespace MessengerClient

namespace Mosaic

namespace AbstractMosaicLayout

variable {Item : Type} [DecidableEq Item] {m : Measures Item}

/-- The items of the rows. -/
def itemRows (rows : List (Row Item)) : List (List Item) := rows.map Row.items

/-- The width of items side by side. -/
def widthOf (m : Measures Item) (items : List Item) : Int :=
  (items.map m.maxWidth).sum + (items.length - 1 : Nat) * m.rightSkip

/-- A row of these items takes no more. -/
def closed (m : Measures Item) (items : List Item) : Bool :=
  items.length ≥ kInlineItemsMaxPerRow || widthOf m items ≥ m.bigWidth

/-- Each item knows its place. -/
def Placed (rows : List (List Item)) (position : Item → Int) : Prop :=
  ∀ i j row x, rows[i]? = some row → row[j]? = some x → position x = positionToIndex i j

variable {rows rows' : List (List Item)} {row items : List Item} {position position' : Item → Int}
  {x : Item}

omit [DecidableEq Item] in
theorem widthOf_concat :
    widthOf m (row ++ [x]) = widthOf m row + m.maxWidth x +
      if row ≠ [] then m.rightSkip else 0 := by
  cases row with
  | nil => simp [widthOf]
  | cons y row =>
      simp only [widthOf, List.map_append, List.map_singleton, List.sum_append, List.sum_singleton,
        List.length_append, List.length_cons, List.length_nil, Nat.zero_add, Nat.add_sub_cancel,
        ne_eq, reduceCtorEq, not_false_eq_true, if_true, Nat.cast_add, Nat.cast_one, add_mul,
        one_mul]
      omega

omit [DecidableEq Item] in
/-- A row that was not closed before its end is not longer than a full one. -/
theorem length_le_of_grown (h : Grown (closed m) row) : row.length ≤ kInlineItemsMaxPerRow := by
  by_contra hlong
  have hne : row.take kInlineItemsMaxPerRow ≠ [] := by
    rw [ne_eq, List.take_eq_nil_iff]
    rintro (hzero | rfl)
    · exact absurd hzero (by decide)
    · exact h.ne_nil rfl
  have hrest : row.drop kInlineItemsMaxPerRow ≠ [] := by
    rw [ne_eq, List.drop_eq_nil_iff]
    exact hlong
  have hopen := h.not_closed _ _ (List.take_append_drop _ row).symm hne hrest
  rw [closed, Bool.or_eq_false_iff] at hopen
  have hfull : kInlineItemsMaxPerRow ≤ (row.take kInlineItemsMaxPerRow).length := by
    rw [List.length_take]
    omega
  exact absurd hfull (of_decide_eq_false hopen.1)

/-! ## Positions -/

omit [DecidableEq Item] in
theorem Placed.congr (h : Placed rows position) (hsame : ∀ x ∈ rows.flatten, position' x = position x) :
    Placed rows position' := by
  intro i j row x hi hj
  have hx : x ∈ rows.flatten :=
    List.mem_flatten.mpr ⟨row, List.mem_of_getElem? hi, List.mem_of_getElem? hj⟩
  rw [hsame x hx]
  exact h i j row x hi hj

theorem getElem?_concat_iff {α : Type} {l : List α} {a y : α} {i : Nat} :
    (l ++ [a])[i]? = some y ↔ l[i]? = some y ∨ i = l.length ∧ y = a := by
  rcases Nat.lt_or_ge i l.length with hlt | hge
  · rw [List.getElem?_append_left hlt]
    exact ⟨.inl, fun h => h.resolve_right fun h => hlt.ne h.1⟩
  · rw [List.getElem?_append_right hge, List.getElem?_eq_none hge, List.getElem?_singleton]
    split
    · next hzero =>
        simp only [Option.some.injEq, reduceCtorEq, false_or]
        exact ⟨fun h => ⟨by omega, h.symm⟩, fun h => h.2.symm⟩
    · next hzero =>
        simp only [reduceCtorEq, false_or, false_iff]
        omega

omit [DecidableEq Item] in
theorem placed_concat : Placed (rows ++ [row]) position ↔
    Placed rows position ∧
      ∀ j x, row[j]? = some x → position x = positionToIndex rows.length j := by
  constructor
  · intro h
    exact ⟨fun i j r x hi => h i j r x (getElem?_concat_iff.mpr (.inl hi)),
      fun j x => h rows.length j row x (getElem?_concat_iff.mpr (.inr ⟨rfl, rfl⟩))⟩
  · rintro ⟨hrows, hrow⟩ i j r x hi
    cases getElem?_concat_iff.mp hi with
    | inl hi => exact hrows i j r x hi
    | inr hi =>
        obtain ⟨rfl, rfl⟩ := hi
        exact hrow j x

omit [DecidableEq Item] in
theorem Placed.left (h : Placed (rows ++ rows') position) : Placed rows position := by
  intro i j r x hi
  refine h i j r x ?_
  rw [List.getElem?_append_left (List.getElem?_eq_some_iff.mp hi).1, hi]

omit [DecidableEq Item] in
/-- The last row may lose items. -/
theorem Placed.shorten (h : Placed (rows ++ (row ++ items) :: rows') position) :
    Placed (rows ++ [row]) position := by
  have hlast : Placed (rows ++ [row ++ items]) position := by
    refine @Placed.left _ _ rows' _ ?_
    rwa [List.append_assoc, List.singleton_append]
  obtain ⟨hrows, hrow⟩ := placed_concat.mp hlast
  refine placed_concat.mpr ⟨hrows, fun j x hj => hrow j x ?_⟩
  rw [List.getElem?_append_left (List.getElem?_eq_some_iff.mp hj).1, hj]

/-- **An item at the end** of the last row gets its place. -/
theorem Placed.concat (h : Placed (rows ++ [row]) position) (hx : x ∉ (rows ++ [row]).flatten) :
    Placed (rows ++ [row ++ [x]])
      (Function.update position x (positionToIndex rows.length row.length)) := by
  have h : Placed (rows ++ [row])
      (Function.update position x (positionToIndex rows.length row.length)) :=
    h.congr fun y hy => Function.update_of_ne (ne_of_mem_of_not_mem hy hx) _ _
  obtain ⟨hrows, hrow⟩ := placed_concat.mp h
  refine placed_concat.mpr ⟨hrows, fun j y hj => ?_⟩
  cases getElem?_concat_iff.mp hj with
  | inl hj => exact hrow j y hj
  | inr hj =>
      obtain ⟨rfl, rfl⟩ := hj
      exact Function.update_self _ _ _

omit [DecidableEq Item] in
/-- An empty row has no place to tell. -/
theorem placed_concat_nil : Placed (rows ++ [[]]) position ↔ Placed rows position := by
  rw [placed_concat]
  exact and_iff_left fun j x hj => by simp at hj

/-! ## Adding -/

/-- The rows of a layout that is added to, with the row that is being filled. -/
def Adding.allRows (a : Adding Item) : List (List Item) :=
  itemRows a.layout.rows ++ [a.row.items]

/-- The row that is being filled takes more, or did before its last item. -/
structure Adding.Good (m : Measures Item) (a : Adding Item) : Prop where
  row : a.row.items = [] ∨ Grown (closed m) a.row.items
  sumWidth : a.sumWidth = widthOf m a.row.items

omit [DecidableEq Item] in
theorem layoutRow_items {r : Row Item} (h : r.items.length ≤ kInlineItemsMaxPerRow) (width : Int) :
    ∃ r', layoutRow m r width = some r' ∧ r'.items = r.items := by
  rw [layoutRow, if_pos h]
  exact ⟨_, rfl, rfl⟩

omit [DecidableEq Item] in
/-- A row is put to the others where it is closed, and the last one in any case. -/
theorem rowFinalize_spec {a : Adding Item} (h : a.Good m) (force : Bool) :
    ∃ a' finalized, rowFinalize m force a = some (a', finalized) ∧
      a'.layout.position = a.layout.position ∧
      (if a.row.items ≠ [] ∧ (closed m a.row.items = true ∨ force = true) then
        finalized = true ∧ a'.row.items = [] ∧ a'.sumWidth = 0 ∧
          itemRows a'.layout.rows = itemRows a.layout.rows ++ [a.row.items]
      else finalized = false ∧ a' = a) := by
  have hclosed : closed m a.row.items = true ↔
      a.row.items.length ≥ kInlineItemsMaxPerRow ∨ a.sumWidth ≥ m.bigWidth := by
    rw [closed, h.sumWidth, Bool.or_eq_true, decide_eq_true_eq, decide_eq_true_eq]
  unfold rowFinalize
  split
  · next hempty =>
      rw [List.isEmpty_iff] at hempty
      exact ⟨a, false, rfl, rfl, by simp [hempty]⟩
  · next hne =>
      rw [List.isEmpty_iff] at hne
      have hlength := length_le_of_grown (h.row.resolve_left hne)
      dsimp only
      split
      · next hput =>
          obtain ⟨row, hrow, hitems⟩ := layoutRow_items (m := m)
            (r := { a.row with maxWidth :=
              if a.row.items.length ≥ kInlineItemsMaxPerRow ∨ a.sumWidth ≥ m.bigWidth then
                a.sumWidth else 0 }) hlength m.width
          rw [hrow]
          refine ⟨_, true, rfl, rfl, ?_⟩
          rw [if_pos ⟨hne, by rwa [hclosed, or_assoc]⟩]
          exact ⟨rfl, rfl, rfl, by simp [itemRows, hitems]⟩
      · next hkeep =>
          refine ⟨a, false, rfl, rfl, ?_⟩
          rw [if_neg fun hput => hkeep (by rw [← or_assoc, ← hclosed]; exact hput.2)]
          exact ⟨rfl, rfl⟩

/-- The items are added after those that were, and each gets its place. -/
structure Adding.Adds (m : Measures Item) (items : List Item) (a a' : Adding Item) : Prop where
  good : a'.Good m
  rows : ∀ rest, itemRows a'.layout.rows ++ fillRows (closed m) a'.row.items rest =
    itemRows a.layout.rows ++ fillRows (closed m) a.row.items (items ++ rest)
  flatten : a'.allRows.flatten = a.allRows.flatten ++ items
  frame : ∀ y ∉ items, a'.layout.position y = a.layout.position y
  placed : (a.allRows.flatten ++ items).Nodup → Placed a.allRows a.layout.position →
    Placed a'.allRows a'.layout.position

/-- **One item** starts a row where the one before is closed, and else joins it. -/
theorem addItem_spec {a : Adding Item} (h : a.Good m) (x : Item) :
    ∃ a', addItem m a x = some a' ∧ a.Adds m [x] a' := by
  let first := positionToIndex a.layout.rows.length a.row.items.length
  have hgood : Adding.Good m { a with layout := a.layout.setPosition x first } := ⟨h.row, h.sumWidth⟩
  obtain ⟨b, finalized, hfinalize, hposition, hb⟩ := rowFinalize_spec hgood false
  have hposition : b.layout.position = Function.update a.layout.position x first := hposition
  rw [addItem, hfinalize]
  simp only [Option.bind_eq_bind, Option.bind_some, Option.pure_def]
  refine ⟨_, rfl, ?_⟩
  by_cases hput : a.row.items ≠ [] ∧ closed m a.row.items = true
  · rw [if_pos ⟨hput.1, .inl hput.2⟩] at hb
    obtain ⟨rfl, hrow, hsum, hrows⟩ := hb
    have hrows : itemRows b.layout.rows = a.allRows := hrows
    have hlength : b.layout.rows.length = a.allRows.length := by
      rw [← hrows, itemRows, List.length_map]
    refine ⟨⟨?_, ?_⟩, fun rest => ?_, ?_, fun y hy => ?_, fun hnodup hplaced => ?_⟩
    · simp only [hrow, List.nil_append]
      exact .inr (.singleton x)
    · simp [hrow, hsum, widthOf]
    · simp only [AbstractMosaicLayout.setPosition, if_true, hrow, hrows, List.nil_append]
      rw [List.singleton_append, fillRows, if_pos (by simp [hput.1, hput.2]), Adding.allRows,
        List.append_assoc, List.singleton_append]
    · simp [Adding.allRows, AbstractMosaicLayout.setPosition, hrow, hrows]
    · rw [List.mem_singleton] at hy
      simp [AbstractMosaicLayout.setPosition, hposition, hy]
    · have hx : x ∉ (a.allRows ++ [[]]).flatten := by
        simpa using (List.nodup_append.mp hnodup).2.2 x
      have hnew := (placed_concat_nil.mpr hplaced).concat hx
      simpa [Adding.allRows, AbstractMosaicLayout.setPosition, hrow, hrows, hposition,
        hlength] using hnew
  · rw [if_neg (by simpa using hput)] at hb
    obtain ⟨rfl, rfl⟩ := hb
    have hopen : a.row.items ≠ [] → closed m a.row.items = false := fun hne =>
      Bool.eq_false_of_not_eq_true fun hclosed => hput ⟨hne, hclosed⟩
    have hrow : ¬(!a.row.items.isEmpty && closed m a.row.items) = true := by simpa using hput
    refine ⟨⟨?_, ?_⟩, fun rest => ?_, ?_, fun y hy => ?_, fun hnodup hplaced => ?_⟩
    · exact .inr (.concat h.row hopen)
    · simp only [widthOf_concat, h.sumWidth]
      by_cases hempty : a.row.items = []
      · simp [hempty]
      · by_cases hskip : m.rightSkip = 0
        · simp [hempty, hskip]
        · simp [hempty, hskip]
    · simp only [AbstractMosaicLayout.setPosition, Bool.false_eq_true, if_false]
      rw [List.singleton_append, fillRows, if_neg hrow]
    · simp [Adding.allRows, AbstractMosaicLayout.setPosition]
    · rw [List.mem_singleton] at hy
      simp [AbstractMosaicLayout.setPosition, hy]
    · have hx : x ∉ a.allRows.flatten := by
        simpa using (List.nodup_append.mp hnodup).2.2 x
      have hnew := Placed.concat hplaced hx
      rw [itemRows, List.length_map] at hnew
      exact hnew

omit [DecidableEq Item] in
theorem Adding.Adds.refl {a : Adding Item} (h : a.Good m) : a.Adds m [] a :=
  ⟨h, fun _ => rfl, (List.append_nil _).symm, fun _ _ => rfl, fun _ => id⟩

omit [DecidableEq Item] in
theorem Adding.Adds.trans {a b c : Adding Item} {l l' : List Item} (h : a.Adds m l b)
    (h' : b.Adds m l' c) : a.Adds m (l ++ l') c where
  good := h'.good
  rows rest := by rw [h'.rows, h.rows, List.append_assoc]
  flatten := by rw [h'.flatten, h.flatten, List.append_assoc]
  frame y hy := by
    rw [List.mem_append, not_or] at hy
    rw [h'.frame y hy.2, h.frame y hy.1]
  placed hnodup hplaced := by
    rw [← List.append_assoc] at hnodup
    refine h'.placed (h.flatten ▸ hnodup) (h.placed ?_ hplaced)
    exact (List.nodup_append.mp hnodup).1

theorem foldlM_addItem_spec {a : Adding Item} (h : a.Good m) (items : List Item) :
    ∃ a', items.foldlM (addItem m) a = some a' ∧ a.Adds m items a' := by
  induction items generalizing a with
  | nil => exact ⟨a, rfl, .refl h⟩
  | cons x items ih =>
      obtain ⟨b, hadd, hone⟩ := addItem_spec h x
      obtain ⟨c, hrest, hmore⟩ := ih hone.good
      refine ⟨c, ?_, hone.trans hmore⟩
      rw [List.foldlM_cons, hadd]
      exact hrest

/-- **Added items** fill rows of their own after those that there are. -/
theorem addItems_spec (s : AbstractMosaicLayout Item) (items : List Item) :
    ∃ s', s.addItems m items = some s' ∧
      itemRows s'.rows = itemRows s.rows ++ fillRows (closed m) [] items ∧
      (∀ y ∉ items, s'.position y = s.position y) ∧
      (((itemRows s.rows).flatten ++ items).Nodup → Placed (itemRows s.rows) s.position →
        Placed (itemRows s'.rows) s'.position) := by
  have hgood : Adding.Good m { layout := s } := ⟨.inl rfl, by simp [widthOf]⟩
  obtain ⟨a, hfold, hadds⟩ := foldlM_addItem_spec hgood items
  obtain ⟨b, finalized, hfinalize, hposition, hb⟩ := rowFinalize_spec hadds.good true
  have hrows := hadds.rows []
  rw [List.append_nil] at hrows
  have hlast : itemRows b.layout.rows =
      itemRows a.layout.rows ++ fillRows (closed m) a.row.items [] := by
    rw [fillRows]
    by_cases hempty : a.row.items = []
    · rw [if_neg fun h => h.1 hempty] at hb
      rw [hb.2]
      simp [hempty]
    · rw [if_pos ⟨hempty, .inr rfl⟩] at hb
      rw [hb.2.2.2]
      simp [hempty]
  refine ⟨b.layout, ?_, hlast.trans hrows, fun y hy => ?_, fun hnodup hplaced => ?_⟩
  · rw [addItems, hfold]
    simp only [Option.bind_eq_bind, Option.bind_some, hfinalize]
    rfl
  · rw [hposition]
    exact hadds.frame y hy
  · have hall := hadds.placed (by simpa [Adding.allRows] using hnodup)
      (placed_concat_nil.mpr hplaced)
    rw [hlast, hposition, fillRows]
    split
    · rw [List.append_nil]
      exact hall.left
    · exact hall

/-! ## Keeping -/

/-- The items in front of a row and column. -/
def before (rows : List (List Item)) (i j : Nat) : List Item :=
  (rows.take i).flatten ++ (rows[i]?.getD []).take j

/-- There is an item, or nothing any more. -/
def Inside (rows : List (List Item)) (i j : Nat) : Prop :=
  (i = rows.length ∧ j = 0) ∨ ∃ row, rows[i]? = some row ∧ j < row.length

variable {s : AbstractMosaicLayout Item} {list : List Item}

/-- **The loop** goes on over items that are the first ones of the list. -/
theorem passed_spec (hne : ∀ row ∈ itemRows s.rows, row ≠ []) {n u i j : Nat}
    (hu : u + n = list.length) (hbefore : before (itemRows s.rows) i j = list.take u)
    (hin : Inside (itemRows s.rows) i j) :
    ∃ u' i' j', s.passed (fun item k => list[k]? ≠ some item) n u i j = some (u', i', j') ∧
      u' ≤ list.length ∧ before (itemRows s.rows) i' j' = list.take u' ∧
      Inside (itemRows s.rows) i' j' := by
  induction n generalizing u i j with
  | zero => exact ⟨u, i, j, rfl, hu.le, hbefore, hin⟩
  | succ n ih =>
      have hstop : u ≤ list.length := by omega
      rw [passed]
      split
      · exact ⟨u, i, j, rfl, hstop, hbefore, hin⟩
      · next hlt =>
          have hlt : i < s.rows.length := not_le.mp hlt
          have hrow : s.rows[i]? = some s.rows[i] := List.getElem?_eq_getElem hlt
          have hitems : (itemRows s.rows)[i]? = some s.rows[i].items := by
            rw [itemRows, List.getElem?_map, hrow]
            rfl
          have hj : j < s.rows[i].items.length := by
            cases hin with
            | inl hend =>
                rw [itemRows, List.length_map] at hend
                exact absurd hend.1 hlt.ne
            | inr hrow' =>
                obtain ⟨row, hrow', hj⟩ := hrow'
                rw [hitems, Option.some.injEq] at hrow'
                exact hrow' ▸ hj
          have hitem : s.rows[i].items[j]? = some s.rows[i].items[j] := List.getElem?_eq_getElem hj
          simp only [hrow, hitem, Option.bind_eq_bind, Option.bind_some]
          split
          · exact ⟨u, i, j, rfl, hstop, hbefore, hin⟩
          · next hsame =>
              have hsame : list[u]? = some s.rows[i].items[j] := by simpa using hsame
              -- the item is the next one of the list
              have hnext : before (itemRows s.rows) i (j + 1) = list.take (u + 1) := by
                rw [List.take_add_one, ← hbefore, hsame, before, before, hitems, Option.getD_some,
                  List.take_add_one, hitem, List.append_assoc]
              split
              · next hend =>
                  refine ih (by omega) ?_ ?_
                  · rw [← hnext, before, before, hitems, Option.getD_some, hend, List.take_length,
                      List.take_zero, List.append_nil, List.take_add_one, hitems]
                    simp
                  · by_cases hlast : i + 1 = (itemRows s.rows).length
                    · exact .inl ⟨hlast, rfl⟩
                    · have hi : i + 1 < (itemRows s.rows).length := by
                        rw [itemRows, List.length_map] at hlast ⊢
                        omega
                      refine .inr ⟨_, List.getElem?_eq_getElem hi, List.length_pos_iff.mpr ?_⟩
                      exact hne _ (List.getElem_mem hi)
              · next hmore =>
                  exact ih (by omega) hnext (.inr ⟨_, hitems, by omega⟩)

/-- What stays of the rows, with their places, and what leaves. -/
structure Keeps (s s' : AbstractMosaicLayout Item) (dropped : List Item) : Prop where
  flatten : (itemRows s.rows).flatten = (itemRows s'.rows).flatten ++ dropped
  position : ∀ x, s'.position x = if x ∈ dropped then -1 else s.position x
  placed : ∀ position, Placed (itemRows s.rows) position → Placed (itemRows s'.rows) position

theorem dropItems_position (items : List Item) (x : Item) :
    (s.dropItems items).position x = if x ∈ items then -1 else s.position x := by
  rw [dropItems]
  induction items generalizing s with
  | nil => rfl
  | cons y items ih =>
      rw [List.foldl_cons, ih]
      by_cases hx : x ∈ items
      · rw [if_pos hx, if_pos (List.mem_cons_of_mem y hx)]
      · by_cases hxy : x = y
        · subst hxy
          rw [if_neg hx, if_pos List.mem_cons_self]
          exact Function.update_self _ _ _
        · rw [if_neg hx, if_neg (by simp [hx, hxy])]
          exact Function.update_of_ne hxy _ _

theorem dropItems_rows (items : List Item) : (s.dropItems items).rows = s.rows := by
  rw [dropItems]
  induction items generalizing s with
  | nil => rfl
  | cons y items ih =>
      rw [List.foldl_cons, ih]
      rfl

theorem itemRows_keepRows (i : Nat) :
    itemRows (s.keepRows i).rows = (itemRows s.rows).take i := by
  rw [keepRows, itemRows, itemRows, List.map_take, dropItems_rows]

omit [DecidableEq Item] in
theorem flatMap_drop (i : Nat) :
    (s.rows.drop i).flatMap Row.items = ((itemRows s.rows).drop i).flatten := by
  rw [itemRows, ← List.map_drop, List.flatMap_def]

/-- The rows from one on leave. -/
theorem keeps_keepRows (i : Nat) :
    Keeps s (s.keepRows i) ((itemRows s.rows).drop i).flatten := by
  refine ⟨?_, fun x => ?_, fun position h => ?_⟩
  · rw [itemRows_keepRows, ← List.flatten_append, List.take_append_drop]
  · rw [keepRows, flatMap_drop]
    exact dropItems_position _ x
  · rw [itemRows_keepRows]
    rw [← List.take_append_drop i (itemRows s.rows)] at h
    exact h.left

omit [DecidableEq Item] in
theorem complete_take (h : Filled (closed m) rows) {i : Nat} (hi : i < rows.length) :
    ∀ row ∈ rows.take i, Grown (closed m) row ∧ closed m row = true := by
  rw [← List.take_append_drop i rows] at h
  exact h.complete (by simpa using hi)

/-- All items of the list are laid out, and those after them leave. -/
theorem keepItems_spec (hfilled : Filled (closed m) (itemRows s.rows)) {i j : Nat}
    (hbefore : before (itemRows s.rows) i j = list) (hin : Inside (itemRows s.rows) i j) :
    ∃ s' dropped, s.keepItems m i j = some s' ∧ Keeps s s' dropped ∧
      Filled (closed m) (itemRows s'.rows) ∧ (itemRows s'.rows).flatten = list := by
  have hrows : (itemRows s.rows).length = s.rows.length := List.length_map _
  unfold keepItems
  split
  · next hall =>
      refine ⟨s, [], rfl, ⟨by simp, by simp, fun _ h => h⟩, hfilled, ?_⟩
      rw [hall, ← hrows, before, List.take_length] at hbefore
      simpa using hbefore
  · next hsome =>
      have hi : i < (itemRows s.rows).length := by
        cases hin with
        | inl hend => exact absurd (hend.1.trans hrows) hsome
        | inr hrow =>
            obtain ⟨row, hrow, -⟩ := hrow
            exact (List.getElem?_eq_some_iff.mp hrow).1
      have hcomplete := complete_take hfilled hi
      split
      · next hzero =>
          subst hzero
          refine ⟨s.keepRows i, _, rfl, keeps_keepRows i, ?_, ?_⟩
          · rw [itemRows_keepRows]
            exact .of_complete hcomplete
          · rw [itemRows_keepRows]
            simpa [before] using hbefore
      · next hzero =>
          obtain ⟨row, hrow, hj⟩ := hin.resolve_left fun h => hzero h.2
          obtain ⟨r, hr, rfl⟩ : ∃ r, s.rows[i]? = some r ∧ r.items = row := by
            rw [itemRows, List.getElem?_map] at hrow
            exact Option.map_eq_some_iff.mp hrow
          -- the row that is made shorter, between the others
          have hsplit : itemRows s.rows = (itemRows s.rows).take i ++
              (r.items.take j ++ r.items.drop j) :: (itemRows s.rows).drop (i + 1) := by
            rw [List.take_append_drop]
            conv_lhs => rw [← List.take_append_drop i (itemRows s.rows)]
            rw [List.drop_eq_getElem_cons hi]
            congr 2
            rw [List.getElem?_eq_getElem hi, Option.some.injEq] at hrow
            exact hrow
          have hgrown : Grown (closed m) (r.items.take j) := by
            have hall := hfilled.grown r.items (List.mem_of_getElem? hrow)
            rw [← List.take_append_drop j r.items] at hall
            refine hall.left ?_
            rw [ne_eq, List.take_eq_nil_iff]
            rintro (h | h)
            · exact hzero h
            · rw [h] at hj
              exact absurd hj (Nat.not_lt_zero j)
          obtain ⟨r', hlayout, hitems⟩ := layoutRow_items (m := m)
            (r := { r with items := r.items.take j,
                           maxWidth := ((r.items.take j).map m.maxWidth).sum })
            (length_le_of_grown hgrown) m.width
          simp only [dropItems_rows, hr, Option.bind_eq_bind, Option.bind_some, hlayout]
          have hkept : itemRows (s.rows.take i ++ [r']) =
              (itemRows s.rows).take i ++ [r.items.take j] := by
            simp [itemRows, hitems, List.map_take]
          refine ⟨_, ((itemRows s.rows).drop i).flatten.drop j, rfl,
            ⟨?_, fun x => ?_, fun position h => ?_⟩, ?_, ?_⟩
          · have hrest : (itemRows s.rows).drop i =
                r.items :: (itemRows s.rows).drop (i + 1) := by
              conv_lhs => rw [hsplit]
              rw [List.take_append_drop, List.drop_left' (by simpa using hi.le)]
            rw [hkept, hrest, List.flatten_cons, List.drop_append_of_le_length hj.le]
            conv_lhs => rw [hsplit]
            simp only [List.flatten_append, List.flatten_cons, List.flatten_nil, List.append_assoc,
              List.append_nil]
          · rw [flatMap_drop]
            exact dropItems_position _ x
          · rw [hsplit] at h
            rw [hkept]
            exact h.shorten
          · rw [hkept]
            exact .concat hcomplete hgrown
          · rw [hkept, ← hbefore, before, hrow]
            simp

/-- What is in front of the last part of the first items of a list. -/
theorem eq_take_of_append {α : Type} {l l₁ l₂ : List α} {u : Nat} (h : l₁ ++ l₂ = l.take u)
    (hu : u ≤ l.length) : l₁ = l.take (u - l₂.length) := by
  have hlength := congrArg List.length h
  rw [List.length_append, List.length_take, Nat.min_eq_left hu] at hlength
  have htake := congrArg (List.take l₁.length) h
  rwa [List.take_left, List.take_take, show min l₁.length u = u - l₂.length by omega] at htake

/-- **What is kept**: rows of the first items of the list, which are complete unless they are
all of the list. -/
theorem validateExistingRows_spec (hfilled : Filled (closed m) (itemRows s.rows))
    (list : List Item) :
    ∃ s' u dropped, s.validateExistingRows m (fun item i => list[i]? ≠ some item) list.length =
        some (s', u) ∧ Keeps s s' dropped ∧ u ≤ list.length ∧
      (itemRows s'.rows).flatten = list.take u ∧
      (if u < list.length then
        ∀ row ∈ itemRows s'.rows, Grown (closed m) row ∧ closed m row = true
      else Filled (closed m) (itemRows s'.rows)) := by
  have hne : ∀ row ∈ itemRows s.rows, row ≠ [] := fun row hrow => (hfilled.grown row hrow).ne_nil
  have hrows : (itemRows s.rows).length = s.rows.length := List.length_map _
  have hstart : Inside (itemRows s.rows) 0 0 := by
    cases h : itemRows s.rows with
    | nil => exact .inl ⟨rfl, rfl⟩
    | cons row rest =>
        refine .inr ⟨row, rfl, List.length_pos_iff.mpr (hne row ?_)⟩
        rw [h]
        exact List.mem_cons_self
  obtain ⟨u, i, j, hpassed, hu, hbefore, hin⟩ :=
    @passed_spec _ _ s list hne _ _ _ _ (Nat.zero_add _) (by simp [before]) hstart
  simp only [validateExistingRows, hpassed, Option.bind_eq_bind, Option.bind_some]
  split
  · next hall =>
      rw [hall, List.take_length] at hbefore
      obtain ⟨s', dropped, hkeep, hkeeps, hfilled', hflatten⟩ :=
        keepItems_spec hfilled hbefore hin
      rw [hkeep]
      refine ⟨s', u, dropped, rfl, hkeeps, hu, ?_, ?_⟩
      · rw [hall, List.take_length, hflatten]
      · rw [if_neg (by omega)]
        exact hfilled'
  · next hsome =>
      split
      · next hborder =>
          obtain ⟨k, rfl⟩ : ∃ k, i = k + 1 := ⟨i - 1, by omega⟩
          have hk : k < (itemRows s.rows).length := by
            cases hin with
            | inl hend => omega
            | inr hrow =>
                obtain ⟨row, hrow, -⟩ := hrow
                have := (List.getElem?_eq_some_iff.mp hrow).1
                omega
          obtain ⟨r, hr⟩ : ∃ r, s.rows[k]? = some r := by
            rw [hrows] at hk
            exact ⟨_, List.getElem?_eq_getElem hk⟩
          have hrow : (itemRows s.rows)[k]? = some r.items := by
            rw [itemRows, List.getElem?_map, hr]
            rfl
          rw [Nat.add_sub_cancel, hr]
          simp only [Option.bind_some]
          -- the row before the border goes, with its items
          have htake : ((itemRows s.rows).take k).flatten ++ r.items = list.take u := by
            rw [← hbefore, before, hborder.2, List.take_zero, List.append_nil, List.take_add_one,
              hrow]
            simp
          refine ⟨_, _, _, rfl, keeps_keepRows k, by omega, ?_, ?_⟩
          · rw [itemRows_keepRows]
            exact eq_take_of_append htake hu
          · rw [if_pos (by omega), itemRows_keepRows]
            exact complete_take hfilled hk
      · next hinside =>
          refine ⟨_, _, _, rfl, keeps_keepRows i, by omega, ?_, ?_⟩
          · rw [itemRows_keepRows]
            have htake := eq_take_of_append hbefore hu
            rwa [List.length_take, Nat.min_eq_left ?_] at htake
            cases hin with
            | inl hend => omega
            | inr hrow =>
                obtain ⟨row, hrow, hj⟩ := hrow
                rw [hrow]
                exact hj.le
          · rw [if_pos (by omega), itemRows_keepRows]
            cases hin with
            | inl hend =>
                have hzero : i = 0 := by
                  by_contra hi
                  exact hinside ⟨hi, hend.2⟩
                rw [hzero, List.take_zero]
                exact List.forall_mem_nil _
            | inr hrow =>
                obtain ⟨row, hrow, -⟩ := hrow
                exact complete_take hfilled (List.getElem?_eq_some_iff.mp hrow).1

/-! ## Updates -/

/-- The layout of a list, where the items of `seen` were in it or in one before it. -/
structure Matches (m : Measures Item) (s : AbstractMosaicLayout Item) (list seen : List Item) :
    Prop where
  rows : itemRows s.rows = fillRows (closed m) [] list
  placed : Placed (itemRows s.rows) s.position
  gone : ∀ x ∈ seen, x ∉ list → s.position x = -1

/-- The rows of an update, and the places where no item is twice in a list. -/
theorem update_spec {old seen : List Item} (hrows : itemRows s.rows = fillRows (closed m) [] old)
    (list : List Item) :
    ∃ s', update m s list = some s' ∧ itemRows s'.rows = fillRows (closed m) [] list ∧
      (old.Nodup → list.Nodup → Matches m s old seen → Matches m s' list (seen ++ list)) := by
  have hfilled : Filled (closed m) (itemRows s.rows) := hrows ▸ filled_fillRows (.inl rfl)
  obtain ⟨s₁, u, dropped, hvalidate, hkeeps, hu, hflatten, hcomplete⟩ :=
    validateExistingRows_spec hfilled list
  have hold : (itemRows s₁.rows).flatten ++ dropped = old := by
    rw [← hkeeps.flatten, hrows, flatten_fillRows, List.nil_append]
  -- the items that stay have their places, and those that leave have none
  have hstay (hnodup : old.Nodup) (h : Matches m s old seen) :
      Placed (itemRows s₁.rows) s₁.position := by
    refine (hkeeps.placed _ h.placed).congr fun x hx => ?_
    rw [hkeeps.position, if_neg]
    exact fun hdropped => (List.nodup_append.mp (hold ▸ hnodup)).2.2 x hx x hdropped rfl
  have hgone (h : Matches m s old seen) (x : Item) (hx : x ∈ seen ++ list) (hnot : x ∉ list) :
      s₁.position x = -1 := by
    rw [hkeeps.position]
    split
    · rfl
    · next hkept =>
        refine h.gone x ((List.mem_append.mp hx).resolve_right hnot) fun hin => ?_
        rw [← hold, List.mem_append, hflatten] at hin
        exact hnot (List.mem_of_mem_take (hin.resolve_right hkept))
  rw [update, hvalidate]
  simp only [Option.bind_eq_bind, Option.bind_some]
  split
  · next hlt =>
      rw [if_pos hlt] at hcomplete
      obtain ⟨s', hadd, hrows', hframe, hplaced⟩ := addItems_spec (m := m) s₁ (list.drop u)
      rw [hflatten, List.take_append_drop] at hplaced
      refine ⟨s', hadd, ?_, fun hnodup hnodup' h => ⟨?_, hplaced hnodup' (hstay hnodup h), ?_⟩⟩
      · rw [hrows', ← fillRows_of_complete hcomplete, hflatten, List.take_append_drop]
      · rw [hrows', ← fillRows_of_complete hcomplete, hflatten, List.take_append_drop]
      · intro x hx hnot
        rw [hframe x fun hin => hnot (List.mem_of_mem_drop hin)]
        exact hgone h x hx hnot
  · next hle =>
      rw [if_neg hle] at hcomplete
      have hrows' : itemRows s₁.rows = fillRows (closed m) [] list := by
        rw [hcomplete.eq_fillRows, hflatten, List.take_of_length_le (not_lt.mp hle)]
      exact ⟨s₁, rfl, hrows', fun hnodup _ h => ⟨hrows', hstay hnodup h, hgone h⟩⟩

theorem foldlM_update_spec {old seen : List Item}
    (hrows : itemRows s.rows = fillRows (closed m) [] old) (lists : List (List Item)) :
    ∃ s', lists.foldlM (fun s list => update m s list) s = some s' ∧
      itemRows s'.rows = fillRows (closed m) [] (lists.getLastD old) ∧
      (old.Nodup → (∀ list ∈ lists, list.Nodup) → Matches m s old seen →
        Matches m s' (lists.getLastD old) (seen ++ lists.flatten)) := by
  induction lists generalizing s old seen with
  | nil =>
      refine ⟨s, rfl, hrows, fun _ _ h => ?_⟩
      rw [List.flatten_nil, List.append_nil]
      exact h
  | cons list lists ih =>
      obtain ⟨s₁, hupdate, hrows₁, hone⟩ := @update_spec _ _ _ _ _ seen hrows list
      obtain ⟨s', hrest, hrows', hmore⟩ := @ih s₁ list (seen ++ list) hrows₁
      rw [List.getLastD_cons]
      refine ⟨s', ?_, hrows', fun hnodup hall h => ?_⟩
      · rw [List.foldlM_cons, hupdate]
        exact hrest
      · obtain ⟨hlist, hlists⟩ := List.forall_mem_cons.mp hall
        rw [List.flatten_cons, ← List.append_assoc]
        exact hmore hlist hlists (hone hnodup hlist h)

/-- **Updating is laying out anew.** After any lists the rows are those of the last list alone,
in its order and none too long; and where no list has an item twice, the items of the rows
know their places, and those that are gone know that they are. -/
theorem run_matches (m : Measures Item) (lists : List (List Item)) :
    ∃ s, run m lists = some s ∧
      (∃ fresh, (s.clearRows false).addItems m (lists.getLastD []) = some fresh ∧
        itemRows s.rows = itemRows fresh.rows) ∧
      (itemRows s.rows).flatten = lists.getLastD [] ∧
      (∀ row ∈ s.rows, row.items.length ≤ kInlineItemsMaxPerRow) ∧
      ((∀ list ∈ lists, list.Nodup) → Placed (itemRows s.rows) s.position ∧
        ∀ list ∈ lists, ∀ x ∈ list, x ∉ lists.getLastD [] → s.position x = -1) := by
  have hstart : Matches m {} ([] : List Item) [] := by
    refine ⟨rfl, fun i j row x hi => ?_, fun x hx => ?_⟩
    · simp [itemRows] at hi
    · cases hx
  obtain ⟨s, hrun, hrows, hmatches⟩ := @foldlM_update_spec _ _ _ _ _ [] hstart.rows lists
  have hgrown : ∀ row ∈ itemRows s.rows, Grown (closed m) row := by
    rw [hrows]
    exact (filled_fillRows (.inl rfl)).grown
  obtain ⟨fresh, hfresh, hfreshRows, -⟩ :=
    addItems_spec (m := m) (s.clearRows false) (lists.getLastD [])
  refine ⟨s, hrun, ⟨fresh, hfresh, ?_⟩, ?_, fun row hrow => ?_, fun hnodup => ?_⟩
  · rw [hrows, hfreshRows]
    rfl
  · rw [hrows, flatten_fillRows, List.nil_append]
  · exact length_le_of_grown (hgrown _ (List.mem_map_of_mem hrow))
  · have hlast := hmatches List.nodup_nil hnodup hstart
    rw [List.nil_append] at hlast
    exact ⟨hlast.placed, fun list hlist x hx =>
      hlast.gone x (List.mem_flatten.mpr ⟨list, hlist, hx⟩)⟩

end AbstractMosaicLayout

end Mosaic

end MessengerClient
