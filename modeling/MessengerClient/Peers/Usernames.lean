import MessengerClient.Lib.Runs
import MessengerClient.Peers
import Mathlib

/-!
# MessengerClient.Peers.Usernames

The setters of `UsernamesInfo`, one after another.

An editable name that is not active leaves the index where it was, and a name that is set where
there are others but no editable one goes to the end, with the index at the front.  Without these
steps the editable name is the one that was set (`editable_set`).
-/

namespace MessengerClient

/-- `Data::Username`. -/
structure Username where
  username : QString
  active : Bool := false
  editable : Bool := false
deriving DecidableEq, Repr

namespace UsernamesInfo

/-- The index stays where it was when the editable name is not found. -/
def setUsernames (i : UsernamesInfo) (usernames : List Username) : UsernamesInfo :=
  let editableUsername : QString :=
    usernames.foldl (fun name username => if username.editable then username.username else name) {}
  let newUsernames := (usernames.filter (·.active)).map (·.username)
  { usernames := newUsernames
    indexEditableUsername :=
      if editableUsername.isEmpty then -1
      else match newUsernames.findIdx? (· = editableUsername) with
        | some index => index
        | none => i.indexEditableUsername }

def isEditable (i : UsernamesInfo) (username : QString) : Bool :=
  0 ≤ i.indexEditableUsername ∧ i.indexEditableUsername < i.usernames.length ∧
    i.usernames.getD i.indexEditableUsername.toNat {} = username

/-! ## What is expected -/

inductive Action where
  | setUsername (username : QString)
  | setUsernames (usernames : List Username)

def act (i : UsernamesInfo) : Action → UsernamesInfo
  | .setUsername username => i.setUsername username
  | .setUsernames usernames => i.setUsernames usernames

/-- Names are distinct, and at most one is editable. -/
def Action.Valid : Action → Prop
  | .setUsername _ => True
  | .setUsernames usernames => (usernames.map (·.username)).Nodup ∧
      (usernames.filter (·.editable)).length ≤ 1

def IndexValid (i : UsernamesInfo) : Prop :=
  i.indexEditableUsername = -1 ∨
    0 ≤ i.indexEditableUsername ∧ i.indexEditableUsername < i.usernames.length

/-- All names but the editable one. -/
def others (i : UsernamesInfo) : List QString :=
  if i.indexEditableUsername < 0 then i.usernames
  else i.usernames.eraseIdx i.indexEditableUsername.toNat

/-- The editable name of a list, if it is active. -/
def editableOf (usernames : List Username) : QString :=
  ((usernames.find? fun username => username.editable && username.active).map (·.username)).getD {}

/-- What is said of the state after a call. -/
def Holds (i : UsernamesInfo) (a : Action) : Prop :=
  (i.act a).IndexValid ∧
    match a with
    | .setUsername username =>
      (i.act a).editableUsername = username ∧ (i.act a).others = i.others
    | .setUsernames usernames => (i.act a).editableUsername = editableOf usernames

/-- A name is set where there is an editable one, or no name at all, and an editable name that is
not active is set where there was no index. -/
def Expected (i : UsernamesInfo) : Action → Prop
  | .setUsername username =>
    username.isEmpty ∨ i.usernames = [] ∨ 0 ≤ i.indexEditableUsername
  | .setUsernames usernames =>
    (∀ username ∈ usernames, username.editable → username.active ∨ username.username.isEmpty) ∨
      i.indexEditableUsername = -1

def system : System UsernamesInfo Action where
  init i := i = {}
  step i a i' := a.Valid ∧ i.act a = i'

variable {i : UsernamesInfo} {usernames : List Username} {u : Username} {username : QString}
  {a : Action}

theorem isEmpty_iff : username.isEmpty = true ↔ username = {} := by
  rw [QString.isEmpty, beq_iff_eq]
  exact ⟨fun h => by cases username; cases h; rfl, fun h => by rw [h]⟩

/-! ## The lists that are set -/

/-- The last editable name is what the filter leaves in `editableUsername`. -/
theorem foldl_editable (name : QString) :
    usernames.foldl (fun name username => if username.editable then username.username else name)
      name = ((usernames.filter (·.editable)).getLast?.map (·.username)).getD name := by
  induction usernames generalizing name with
  | nil => rfl
  | cons u usernames ih =>
    rw [List.foldl_cons, ih]
    cases hu : u.editable with
    | false => simp [hu]
    | true =>
      rw [List.filter_cons_of_pos hu, List.getLast?_cons]
      cases (usernames.filter (·.editable)).getLast? <;> simp

theorem editableOf_of_none (h : ∀ u ∈ usernames, u.editable = true → u.active = false) :
    editableOf usernames = {} := by
  have hnone : usernames.find? (fun u => u.editable && u.active) = none := by
    simpa [List.find?_eq_none] using h
  rw [editableOf, hnone]
  rfl

/-- The only editable name is the one that is found. -/
theorem editableOf_of_only (honly : usernames.filter (·.editable) = [u]) (hu : u.active = true) :
    editableOf usernames = u.username := by
  have hmem : u ∈ usernames.filter (·.editable) := by simp [honly]
  obtain ⟨hmem, heditable⟩ := List.mem_filter.mp hmem
  cases hfind : usernames.find? (fun u => u.editable && u.active) with
  | none => simpa [hu, heditable] using List.find?_eq_none.mp hfind u hmem
  | some v =>
    have hv := List.find?_some hfind
    rw [Bool.and_eq_true_iff] at hv
    have hmem : v ∈ usernames.filter (·.editable) :=
      List.mem_filter.mpr ⟨List.mem_of_find?_eq_some hfind, hv.1⟩
    rw [honly, List.mem_singleton] at hmem
    rw [editableOf, hfind, hmem]
    rfl

theorem setUsernames_of_empty
    (h : ((usernames.filter (·.editable)).getLast?.map (·.username)).getD {} = {}) :
    (i.setUsernames usernames).indexEditableUsername = -1 := by
  simp only [setUsernames, foldl_editable, h]
  rfl

theorem neg_one_neg : (-1 : Int) < 0 := by decide

theorem editableUsername_of_neg (h : i.indexEditableUsername < 0) : i.editableUsername = {} :=
  if_pos h

theorem editableUsername_of_index {index : Nat} (h : i.indexEditableUsername = index) :
    i.editableUsername = i.usernames.getD index {} := by
  rw [editableUsername, h, if_neg (by omega), Int.toNat_natCast]

theorem others_of_neg (h : i.indexEditableUsername < 0) : i.others = i.usernames := if_pos h

theorem others_of_index {index : Nat} (h : i.indexEditableUsername = index) :
    i.others = i.usernames.eraseIdx index := by
  rw [others, h, if_neg (by omega), Int.toNat_natCast]

/-- **A list is set.** -/
theorem holds_setUsernames (hvalid : (Action.setUsernames usernames).Valid)
    (h : i.Expected (.setUsernames usernames)) : i.Holds (.setUsernames usernames) := by
  obtain ⟨hnodup, hone⟩ := hvalid
  have hempty : ((usernames.filter (·.editable)).getLast?.map (·.username)).getD {} = {} →
      editableOf usernames = {} → i.Holds (.setUsernames usernames) := by
    intro hname heq
    have hindex := @setUsernames_of_empty i usernames hname
    exact ⟨Or.inl hindex, (editableUsername_of_neg (by simp [act, hindex])).trans heq.symm⟩
  cases honly : usernames.filter (·.editable) with
  | nil =>
    refine hempty (by simp [honly]) (editableOf_of_none fun u hu heditable => ?_)
    have hmem := List.mem_filter.mpr ⟨hu, heditable⟩
    simp [honly] at hmem
  | cons u rest =>
    obtain rfl : rest = [] := by
      rw [honly] at hone
      simpa using hone
    have hmem : u ∈ usernames.filter (·.editable) := by simp [honly]
    obtain ⟨hmem, heditable⟩ := List.mem_filter.mp hmem
    have hother : ∀ v ∈ usernames, v.editable = true → v = u := fun v hv hve => by
      simpa [honly] using List.mem_filter.mpr ⟨hv, hve⟩
    by_cases hname : u.username = {}
    · refine hempty (by simp [honly, hname]) ?_
      cases hu : u.active with
      | true => rw [editableOf_of_only honly hu, hname]
      | false => exact editableOf_of_none fun v hv hve => by rw [hother v hv hve, hu]
    · have hnonempty : u.username.isEmpty = false :=
        Bool.eq_false_iff.mpr (isEmpty_iff.not.mpr hname)
      have hset : i.setUsernames usernames =
          { usernames := (usernames.filter (·.active)).map (·.username)
            indexEditableUsername :=
              match ((usernames.filter (·.active)).map (·.username)).findIdx?
                  (· = u.username) with
              | some index => index
              | none => i.indexEditableUsername } := by
        simp [setUsernames, foldl_editable, honly, hnonempty]
      simp only [Holds, act]
      cases hu : u.active with
      | true =>
        -- the name is one of those that are left
        obtain ⟨index, hindex⟩ : ∃ index, ((usernames.filter (·.active)).map
            (·.username)).findIdx? (· = u.username) = some index := by
          rw [← Option.isSome_iff_exists, List.findIdx?_isSome, List.any_eq_true]
          exact ⟨u.username, List.mem_map_of_mem (List.mem_filter.mpr ⟨hmem, hu⟩), by simp⟩
        obtain ⟨hlt, hat, -⟩ := List.findIdx?_eq_some_iff_getElem.mp hindex
        rw [hindex] at hset
        refine ⟨Or.inr ?_, ?_⟩
        · simp only [hset]
          omega
        · rw [editableOf_of_only honly hu, ← of_decide_eq_true hat, hset,
            editableUsername_of_index rfl, List.getD_eq_getElem _ _ hlt]
      | false =>
        -- no other one has the name
        have hnone : ((usernames.filter (·.active)).map (·.username)).findIdx?
            (· = u.username) = none := by
          rw [List.findIdx?_eq_none_iff]
          intro name hname
          obtain ⟨v, hv, rfl⟩ := List.mem_map.mp hname
          obtain ⟨hv, hactive⟩ := List.mem_filter.mp hv
          refine decide_eq_false fun heq => ?_
          obtain rfl := List.inj_on_of_nodup_map hnodup hv hmem heq
          rw [hu] at hactive
          cases hactive
        have hindex : i.indexEditableUsername = -1 := by
          refine h.resolve_left fun hall => ?_
          simpa [hu, hnonempty] using hall u hmem heditable
        rw [hnone, hindex] at hset
        rw [editableOf_of_none fun v hv hve => by rw [hother v hv hve, hu], hset]
        exact ⟨Or.inl rfl, editableUsername_of_neg neg_one_neg⟩

/-! ## One name -/

/-- **A name is set.** -/
theorem holds_setUsername (hindex : i.IndexValid) (h : i.Expected (.setUsername username)) :
    i.Holds (.setUsername username) := by
  simp only [Holds, act]
  obtain hnone | ⟨hpos, hlt⟩ := hindex
  · have hset : i.setUsername username = if username.isEmpty then
        { i with indexEditableUsername := -1 }
        else { usernames := i.usernames ++ [username], indexEditableUsername := 0 } :=
      if_pos (by simp [hnone])
    have hothers : i.others = i.usernames := others_of_neg (by omega)
    rw [hset, hothers]
    cases hempty : username.isEmpty with
    | true =>
      rw [if_pos rfl, isEmpty_iff.mp hempty]
      exact ⟨Or.inl rfl, editableUsername_of_neg neg_one_neg, others_of_neg neg_one_neg⟩
    | false =>
      have hnil : i.usernames = [] := by simpa [Expected, hempty, hnone] using h
      rw [if_neg (by simp), hnil]
      exact ⟨Or.inr (by simp), by simp [editableUsername], by simp [others]⟩
  · obtain ⟨index, heq⟩ := Int.eq_ofNat_of_zero_le hpos
    have hinside : index < i.usernames.length := by omega
    have hfar : ¬ (i.usernames = [] || i.indexEditableUsername < 0
        || i.usernames.length ≤ i.indexEditableUsername) := by
      have hne : i.usernames ≠ [] := List.ne_nil_of_length_pos (by omega)
      simp [hne, heq, hinside]
    rw [setUsername, if_neg hfar, heq, Int.toNat_natCast, others_of_index heq]
    by_cases hsame : i.usernames.getD index {} = username
    · rw [if_neg (not_not.mpr hsame), editableUsername_of_index heq, others_of_index heq]
      exact ⟨Or.inr ⟨hpos, hlt⟩, hsame, rfl⟩
    · rw [if_pos hsame]
      cases hempty : username.isEmpty with
      | true =>
        rw [if_pos rfl, isEmpty_iff.mp hempty]
        exact ⟨Or.inl rfl, editableUsername_of_neg neg_one_neg, others_of_neg neg_one_neg⟩
      | false =>
        rw [if_neg (by simp)]
        refine ⟨Or.inr ?_, ?_, ?_⟩
        · simpa using hinside
        · rw [editableUsername_of_index rfl]
          simp [hinside]
        · rw [others_of_index rfl, List.eraseIdx_set_eq]

theorem isEditable_iff (hindex : i.IndexValid) : i.isEditable username = true ↔
    0 ≤ i.indexEditableUsername ∧ i.editableUsername = username := by
  rw [isEditable, decide_eq_true_iff, editableUsername]
  constructor
  · rintro ⟨hpos, -, heq⟩
    exact ⟨hpos, by rw [if_neg (by omega), heq]⟩
  · rintro ⟨hpos, heq⟩
    rw [if_neg (by omega)] at heq
    exact ⟨hpos, (hindex.resolve_left (by omega)).2, heq⟩

/-- **The editable name is the one that was set**, in every run of expected calls. -/
theorem editable_set (h : system.Reached Expected i) :
    i.IndexValid ∧ ∀ a : Action, a.Valid → i.Expected a → i.Holds a := by
  have hstep : ∀ i : UsernamesInfo, i.IndexValid →
      ∀ a : Action, a.Valid → i.Expected a → i.Holds a := by
    intro i hindex a hvalid hexpected
    cases a with
    | setUsername username => exact holds_setUsername hindex hexpected
    | setUsernames usernames => exact holds_setUsernames hvalid hexpected
  have hindex : i.IndexValid := by
    refine h.invariant (fun i hi => Or.inl (by rw [hi])) ?_
    rintro i a i' hindex hexpected ⟨hvalid, rfl⟩
    exact (hstep i hindex a hvalid hexpected).1
  exact ⟨hindex, hstep i hindex⟩

def one : QString := { text := "one" }

def two : QString := { text := "two" }

theorem editable_set_two :
    ∃ i : UsernamesInfo, i.usernames = [two] ∧ i.Holds (.setUsername one) := by
  have hreached : system.Reached Expected ⟨[two], 0⟩ :=
    .step (a := .setUsername two) (.init rfl) (by simp [Expected]) ⟨trivial, by decide⟩
  exact ⟨_, rfl, (editable_set hreached).2 (.setUsername one) trivial (by simp [Expected])⟩

/-- A name that is set behind another one is not the editable one, and the index of a name that is
not active any more is past the end. -/
theorem not_editable_set :
    (∃ i, system.Reachable i ∧ (i.act (.setUsername two)).editableUsername ≠ two) ∧
      ∃ i, system.Reachable i ∧ ¬ i.IndexValid := by
  constructor
  · refine ⟨⟨[one], -1⟩, ?_, by decide⟩
    exact .step (a := .setUsernames [⟨one, true, false⟩]) (.init rfl) trivial
      ⟨by simp [Action.Valid], by decide⟩
  · have hset : system.Reachable ⟨[two], 0⟩ :=
      .step (a := .setUsername two) (.init rfl) trivial ⟨trivial, by decide⟩
    refine ⟨⟨[], 0⟩, ?_, by simp [IndexValid]⟩
    exact .step (a := .setUsernames [⟨one, false, true⟩]) hset trivial
      ⟨by simp [Action.Valid], by decide⟩

end UsernamesInfo

end MessengerClient
