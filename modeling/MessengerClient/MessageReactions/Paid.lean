import MessengerClient.MessageReactions
import Mathlib.Algebra.BigOperators.Group.List.Basic
import Mathlib.Algebra.Order.BigOperators.Group.List
import Mathlib.Data.List.Induction

/-!
# MessengerClient.MessageReactions.Paid

Stars locked for paid reactions.  A message holds what it has scheduled and what
it is sending; every function changes what it holds by what its calls lock,
unlock or withdraw, so the account's locked balance is always the sum over the
messages (`paid_stars_accounted`).
-/

namespace MessengerClient

namespace Data

/-! ## The account -/

namespace CreditsCall

/-- What a call adds to the locked balance, in stars. -/
def net : CreditsCall → Int
  | .lock count => count
  | .unlock count | .withdrawLocked count => -count

/-- A call that gives something back. -/
def Releases : CreditsCall → Prop
  | .lock _ => False
  | .unlock count | .withdrawLocked count => 0 ≤ count

end CreditsCall

/-- What calls add to the locked balance, in stars. -/
def net (calls : List CreditsCall) : Int := (calls.map CreditsCall.net).sum

@[simp] theorem net_nil : net [] = 0 := rfl

@[simp] theorem net_cons (call : CreditsCall) (calls : List CreditsCall) :
    net (call :: calls) = call.net + net calls := by simp [net]

@[simp] theorem net_append (calls more : List CreditsCall) :
    net (calls ++ more) = net calls + net more := by simp [net]

namespace Credits

variable {c : Credits}

/-- Both amounts are stars. -/
structure Stars (c : Credits) : Prop where
  balance : c.balance.ton = false
  locked : c.locked.ton = false

theorem nonneg_iff {count : CreditsAmount} (h : count.ton = false) :
    .ofWhole 0 ≤ count ↔ 0 ≤ count.nanos := by
  rw [CreditsAmount.le_iff_nanos_le rfl h, CreditsAmount.nanos_ofWhole, Int.zero_mul]

theorem lock_eq (h : c.Stars) {count : CreditsAmount} (hloaded : c.loaded = true)
    (hle : .ofWhole 0 ≤ count) (hroom : c.locked + count ≤ c.balance) :
    ∃ c', c.lock count = some c' ∧ c'.Stars ∧ c'.locked.nanos = c.locked.nanos + count.nanos := by
  refine ⟨{ c with locked := c.locked + count }.updateNonLockedValue, ?_, ⟨h.balance, h.locked⟩,
    CreditsAmount.nanos_add ..⟩
  rw [lock, hloaded, if_neg (by decide), if_neg (not_not.mpr hle), if_neg (not_not.mpr hroom)]

theorem unlock_eq (h : c.Stars) {count : CreditsAmount} (hcount : count.ton = false)
    (hle : 0 ≤ count.nanos) (hroom : count.nanos ≤ c.locked.nanos) :
    ∃ c', c.unlock count = some c' ∧ c'.Stars ∧ c'.locked.nanos = c.locked.nanos - count.nanos := by
  refine ⟨{ c with locked := c.locked - count }.updateNonLockedValue, ?_, ⟨h.balance, h.locked⟩,
    CreditsAmount.nanos_sub ..⟩
  rw [unlock, if_neg (not_not.mpr ((nonneg_iff hcount).mpr hle)),
    if_neg (not_not.mpr ((CreditsAmount.le_iff_nanos_le hcount h.locked).mpr hroom))]

theorem apply_eq (h : c.Stars) (balance : CreditsAmount) :
    (c.apply balance).Stars ∧ (c.apply balance).locked = c.locked := by
  unfold apply
  split
  · exact ⟨⟨h.balance, h.locked⟩, rfl⟩
  · next hton => exact ⟨⟨Bool.eq_false_iff.mpr hton, h.locked⟩, rfl⟩

theorem withdrawLocked_eq (h : c.Stars) {count : CreditsAmount} (hcount : count.ton = false)
    (hle : 0 ≤ count.nanos) (hroom : count.nanos ≤ c.locked.nanos) :
    ∃ c', c.withdrawLocked count = some c' ∧ c'.Stars ∧
      c'.locked.nanos = c.locked.nanos - count.nanos := by
  have hstars : { c with locked := c.locked - count }.Stars := ⟨h.balance, h.locked⟩
  obtain ⟨hstars', hlocked⟩ :=
    apply_eq hstars (if count ≤ c.balance then c.balance - count else .ofWhole 0)
  refine ⟨_, ?_, hstars', ?_⟩
  · rw [withdrawLocked, if_neg (not_not.mpr ((nonneg_iff hcount).mpr hle)),
      if_neg (not_not.mpr ((CreditsAmount.le_iff_nanos_le hcount h.locked).mpr hroom))]
  · rw [hlocked]
    exact CreditsAmount.nanos_sub ..

/-- One call that gives back at most what is locked. -/
theorem call_releases (h : c.Stars) {call : CreditsCall} (hcall : call.Releases)
    (hroom : 0 ≤ c.locked.nanos + call.net * kOneStarInNano) :
    ∃ c', c.call call = some c' ∧ c'.Stars ∧
      c'.locked.nanos = c.locked.nanos + call.net * kOneStarInNano := by
  have hscale : ∀ count : Int, (CreditsAmount.ofWhole count).nanos = count * 1000000000 :=
    CreditsAmount.nanos_ofWhole
  unfold kOneStarInNano at hroom ⊢
  cases call with
  | lock count => exact absurd hcall not_false
  | unlock count =>
      have hpos : 0 ≤ count := hcall
      dsimp only [CreditsCall.net] at hroom ⊢
      obtain ⟨c', heq, hstars, hlocked⟩ := unlock_eq h (CreditsAmount.ton_ofWhole count)
        (by rw [hscale]; omega) (by rw [hscale]; omega)
      exact ⟨c', heq, hstars, by rw [hlocked, hscale]; omega⟩
  | withdrawLocked count =>
      have hpos : 0 ≤ count := hcall
      dsimp only [CreditsCall.net] at hroom ⊢
      obtain ⟨c', heq, hstars, hlocked⟩ := withdrawLocked_eq h (CreditsAmount.ton_ofWhole count)
        (by rw [hscale]; omega) (by rw [hscale]; omega)
      exact ⟨c', heq, hstars, by rw [hlocked, hscale]; omega⟩

/-- Calls that together give back at most what is locked. -/
theorem calls_release {calls : List CreditsCall} (h : c.Stars)
    (hcalls : ∀ call ∈ calls, call.Releases)
    (hroom : 0 ≤ c.locked.nanos + net calls * kOneStarInNano) :
    ∃ c', calls.foldlM call c = some c' ∧ c'.Stars ∧
      c'.locked.nanos = c.locked.nanos + net calls * kOneStarInNano := by
  induction calls generalizing c with
  | nil => exact ⟨c, rfl, h, by simp⟩
  | cons call calls ih =>
      obtain ⟨hcall, hrest⟩ := List.forall_mem_cons.mp hcalls
      have hneg : net calls ≤ 0 := by
        clear ih hroom hcalls
        induction calls with
        | nil => exact le_refl 0
        | cons other calls ih =>
            obtain ⟨hother, hrest⟩ := List.forall_mem_cons.mp hrest
            have htail := ih hrest
            rw [net_cons]
            cases other <;> simp only [CreditsCall.Releases, CreditsCall.net] at * <;> omega
      rw [net_cons, Int.add_mul, ← Int.add_assoc] at hroom ⊢
      have hfirst : 0 ≤ c.locked.nanos + call.net * kOneStarInNano := by
        unfold kOneStarInNano at hroom ⊢
        omega
      obtain ⟨c₁, heq₁, hstars₁, hlocked₁⟩ := call_releases h hcall hfirst
      obtain ⟨c₂, heq₂, hstars₂, hlocked₂⟩ := ih hstars₁ hrest (by rw [hlocked₁]; exact hroom)
      refine ⟨c₂, ?_, hstars₂, by rw [hlocked₂, hlocked₁]⟩
      rw [List.foldlM_cons, heq₁]
      exact heq₂

end Credits

/-! ## One message -/

/-- The flags tell whether a counter may be positive. -/
structure Paid.Ok (paid : Paid) : Prop where
  scheduled : paid.scheduledFlag = false → paid.scheduled = 0
  sending : paid.sendingFlag = false → paid.sending = 0

namespace MessageReactions

def Ok (r : MessageReactions) : Prop := ∀ paid, r.paid = some paid → paid.Ok

/-- What is being sent, as `startPaidSending` returned it. -/
def sendingPart (r : MessageReactions) : Option PaidReactionSend :=
  match r.paid with
  | none => none
  | some paid =>
    if paid.sendingFlag then
      some {
        count := paid.sending
        valid := true
        shownPeer := MaybeShownPeer paid.sendingPrivacySet paid.sendingShownPeer }
    else
      none

/-- The function leaves what is being sent alone, and what the message holds
changes by what its calls lock or give back. -/
structure Settles (r r' : MessageReactions) (calls : List CreditsCall) : Prop where
  ok : r'.Ok
  held : r'.localPaidCount = r.localPaidCount + net calls
  sending : r'.sendingPart = r.sendingPart

variable {r : MessageReactions}

theorem ok_some {paid : Paid} (h : paid.Ok) : (⟨some paid⟩ : MessageReactions).Ok := by
  intro paid' heq
  cases heq
  exact h

theorem localPaidCount_nonneg (r : MessageReactions) : 0 ≤ r.localPaidCount := by
  unfold localPaidCount
  split <;> omega

/-- Without a sending part only the scheduled stars are held. -/
theorem localPaidCount_eq (h : r.Ok) (hsend : r.sendingPart = none) :
    r.localPaidCount = r.scheduledPaid := by
  obtain ⟨_ | paid⟩ := r
  · rfl
  · unfold sendingPart at hsend
    dsimp only at hsend
    split at hsend
    · cases hsend
    · next hflag =>
      have hzero := (h paid rfl).sending (Bool.eq_false_iff.mpr hflag)
      simp [localPaidCount, scheduledPaid, hzero]

/-- A new top list. -/
theorem Settles.top {paid : Paid} (h : paid.Ok) (top : List TopPaid) :
    Settles ⟨some paid⟩ ⟨some { paid with top := top }⟩ [] where
  ok := ok_some ⟨h.scheduled, h.sending⟩
  held := (Int.add_zero _).symm
  sending := rfl

/-- Nothing is lost when nothing is scheduled or sent. -/
theorem Settles.clear {paid : Paid} (h : paid.Ok)
    (hlocal : (⟨some paid⟩ : MessageReactions).localPaidData = false) :
    Settles ⟨some paid⟩ ⟨none⟩ [] := by
  obtain ⟨hscheduled, hsending⟩ := Bool.or_eq_false_iff.mp
    (show (paid.scheduledFlag || paid.sendingFlag) = false from hlocal)
  refine ⟨nofun, ?_, ?_⟩
  · simp [localPaidCount, h.scheduled hscheduled, h.sending hsending]
  · simp [sendingPart, hsending]

theorem scheduleSendPaid_settles (h : r.Ok) {count : Int} (hcount : 0 ≤ count)
    (hroom : r.localPaidCount + count < 2 ^ 30) (shownPeer : Option PeerId) :
    ∃ r', r.scheduleSendPaid count shownPeer =
        some (r', if count > 0 then [.lock count] else []) ∧
      r'.Ok ∧ r'.localPaidCount = r.localPaidCount + count ∧ r'.sendingPart = r.sendingPart := by
  have hok : (r.paid.getD {}).Ok := by
    cases hp : r.paid with
    | none => exact ⟨fun _ => rfl, fun _ => rfl⟩
    | some paid => exact h paid hp
  have hheld : r.localPaidCount = (r.paid.getD {}).scheduled + (r.paid.getD {}).sending := by
    unfold localPaidCount
    split <;> next hp => simp [hp]
  have hsend : r.sendingPart = (⟨some (r.paid.getD {})⟩ : MessageReactions).sendingPart := by
    unfold sendingPart
    split <;> next hp => simp [hp]
  unfold scheduleSendPaid
  rw [if_neg (not_lt.mpr hcount), hsend, hheld]
  rw [hheld] at hroom
  generalize r.paid.getD {} = paid at *
  have hmod : (paid.scheduled + count.toNat) % 2 ^ 30 = paid.scheduled + count.toNat :=
    Nat.mod_eq_of_lt (by omega)
  dsimp only
  rw [hmod]
  cases shownPeer with
  | none =>
      refine ⟨_, rfl, ok_some ⟨nofun, hok.sending⟩, ?_, rfl⟩
      simp only [localPaidCount]
      omega
  | some peer =>
      refine ⟨_, rfl, ok_some ⟨nofun, hok.sending⟩, ?_, rfl⟩
      simp only [localPaidCount]
      omega

theorem cancelScheduledPaid_settles (h : r.Ok) :
    Settles r r.cancelScheduledPaid.1 r.cancelScheduledPaid.2 ∧
      (∀ call ∈ r.cancelScheduledPaid.2, call.Releases) ∧
      r.cancelScheduledPaid.1.scheduledPaid = 0 := by
  obtain ⟨_ | paid⟩ := r
  · exact ⟨⟨h, rfl, rfl⟩, by simp [cancelScheduledPaid], rfl⟩
  · obtain ⟨hscheduled, hsending⟩ := h paid rfl
    unfold cancelScheduledPaid
    dsimp only
    cases hflag : paid.scheduledFlag with
    | false =>
        have h0 := hscheduled hflag
        simp only [Bool.false_and, Bool.false_eq_true, if_false]
        split
        · next hempty =>
          have hnot : paid.sendingFlag = false := by simp at hempty; exact hempty.1
          refine ⟨Settles.clear ⟨hscheduled, hsending⟩ ?_, by simp, rfl⟩
          simp [localPaidData, hflag, hnot]
        · exact ⟨Settles.top ⟨hscheduled, hsending⟩ _, by simp, by simp [scheduledPaid, h0]⟩
    | true =>
        have hnet : net (if (true && paid.scheduled != 0) = true then
            [CreditsCall.unlock paid.scheduled] else []) = -paid.scheduled := by
          by_cases h0 : paid.scheduled = 0
          · simp [h0]
          · simp [h0, CreditsCall.net]
        have hreleases : ∀ call ∈ (if (true && paid.scheduled != 0) = true then
            [CreditsCall.unlock paid.scheduled] else []), call.Releases := by
          intro call hcall
          split at hcall
          · rw [List.mem_singleton.mp hcall]
            exact Int.natCast_nonneg _
          · cases hcall
        rw [if_pos rfl]
        dsimp only
        split
        · next hempty =>
          have hnot : paid.sendingFlag = false := by simp at hempty; exact hempty.1
          refine ⟨⟨nofun, ?_, by simp [sendingPart, hnot]⟩, hreleases, rfl⟩
          rw [hnet]
          simp [localPaidCount, hsending hnot]
        · refine ⟨⟨ok_some ⟨fun _ => rfl, hsending⟩, ?_, rfl⟩, hreleases, rfl⟩
          rw [hnet]
          simp only [localPaidCount]
          omega

theorem startPaidSending_cases (h : r.Ok) :
    (r.startPaidSending.1 = r ∧ r.startPaidSending.2.valid = false) ∨
    (r.sendingPart = none ∧ r.startPaidSending.1.Ok ∧
      r.startPaidSending.1.localPaidCount = r.localPaidCount ∧
      r.startPaidSending.2.valid = true ∧
      r.startPaidSending.1.sendingPart = some r.startPaidSending.2) := by
  obtain ⟨_ | paid⟩ := r
  · exact .inl ⟨rfl, rfl⟩
  · obtain ⟨hscheduled, hsending⟩ := h paid rfl
    unfold startPaidSending
    dsimp only
    split
    · exact .inl ⟨rfl, rfl⟩
    · next hstart =>
      simp only [Bool.or_eq_true, Bool.not_eq_true', not_or, Bool.not_eq_false,
        Bool.not_eq_true] at hstart
      obtain ⟨hflag, hnot⟩ := hstart
      refine .inr ⟨by simp [sendingPart, hnot], ok_some ⟨fun _ => rfl, fun hfalse => ?_⟩, ?_, rfl, ?_⟩
      · exact absurd (hflag.symm.trans hfalse) (by decide)
      · simp [localPaidCount, hsending hnot]
      · simp [sendingPart, hflag]

/-- **What was started can be finished**: the checks of `finishPaidSending` hold. -/
theorem finishPaidSending_settles (h : r.Ok) {send : PaidReactionSend}
    (hsend : r.sendingPart = some send) (success : Bool) :
    ∃ r' calls, r.finishPaidSending send success = some (r', calls) ∧ r'.Ok ∧
      r'.localPaidCount = r.localPaidCount + net calls ∧ (∀ call ∈ calls, call.Releases) ∧
      r'.sendingPart = none ∧ r'.scheduledPaid = r.scheduledPaid := by
  obtain ⟨_ | paid⟩ := r
  · cases hsend
  · obtain ⟨hscheduled, hsending⟩ := h paid rfl
    unfold sendingPart at hsend
    dsimp only at hsend
    split at hsend
    · next hflag =>
      obtain rfl := (Option.some.inj hsend).symm
      unfold finishPaidSending
      dsimp only
      rw [if_neg (not_not.mpr rfl), if_neg (not_not.mpr hflag.symm), if_neg (not_not.mpr rfl)]
      have hnet : net (if (paid.sending : Int) = 0 then [] else if success = true then
          [CreditsCall.withdrawLocked paid.sending] else [.unlock paid.sending]) =
            -paid.sending := by
        split
        · next h0 => rw [h0]; rfl
        · split <;> simp [CreditsCall.net]
      have hreleases : ∀ call ∈ (if (paid.sending : Int) = 0 then [] else if success = true then
          [CreditsCall.withdrawLocked paid.sending] else [.unlock paid.sending]),
            call.Releases := by
        intro call hcall
        split at hcall
        · cases hcall
        · split at hcall
          all_goals
            rw [List.mem_singleton.mp hcall]
            exact Int.natCast_nonneg _
      refine ⟨_, _, rfl, ?_, ?_, hreleases, ?_, ?_⟩
      · split
        · exact nofun
        · split <;> exact ok_some ⟨hscheduled, fun _ => rfl⟩
      · rw [hnet]
        split
        · next hempty =>
          have hnone : paid.scheduledFlag = false := by simp at hempty; exact hempty.1
          simp [localPaidCount, hscheduled hnone]
        · split <;> simp only [localPaidCount] <;> omega
      · split
        · rfl
        · split <;> rfl
      · split
        · next hempty =>
          have hnone : paid.scheduledFlag = false := by simp at hempty; exact hempty.1
          simp [scheduledPaid, hscheduled hnone]
        · split <;> rfl
    · cases hsend

/-- **A destroyed message gives everything back.** -/
theorem destroy_releases (h : r.Ok) :
    ∃ calls, r.destroy = some calls ∧ (∀ call ∈ calls, call.Releases) ∧
      net calls = -r.localPaidCount := by
  obtain ⟨⟨hok, hheld, -⟩, hreleases, hnone⟩ := cancelScheduledPaid_settles h
  unfold destroy
  dsimp only
  generalize r.cancelScheduledPaid = cancelled at *
  obtain ⟨r₁, calls⟩ := cancelled
  dsimp only at *
  obtain ⟨_ | paid⟩ := r₁
  · refine ⟨calls, rfl, hreleases, ?_⟩
    have hzero : (0 : Int) = r.localPaidCount + net calls := hheld
    omega
  · have hscheduled : (paid.scheduled : Int) = 0 := hnone
    dsimp only
    split
    · next hpos =>
      have hflag : paid.sendingFlag = true := by
        cases hf : paid.sendingFlag with
        | true => rfl
        | false => rw [(hok paid rfl).sending hf] at hpos; cases hpos
      have hsend : (⟨some paid⟩ : MessageReactions).sendingPart = some {
          count := paid.sending
          valid := true
          shownPeer := MaybeShownPeer paid.sendingPrivacySet paid.sendingShownPeer } := by
        simp [sendingPart, hflag]
      obtain ⟨r₂, more, heq, hok₂, hheld₂, hmore, hsend₂, hnone₂⟩ :=
        finishPaidSending_settles hok hsend false
      refine ⟨calls ++ more, by rw [heq]; rfl, fun call hcall => ?_, ?_⟩
      · exact (List.mem_append.mp hcall).elim (hreleases call) (hmore call)
      · have hzero : r₂.localPaidCount = 0 :=
          (localPaidCount_eq hok₂ hsend₂).trans (hnone₂.trans hnone)
        rw [net_append]
        omega
    · next hzero =>
      refine ⟨calls, rfl, hreleases, ?_⟩
      have hsum : (paid.scheduled + paid.sending : Int) = r.localPaidCount + net calls := hheld
      omega

/-! ## Changes from the server -/

theorem change_settles (h : r.Ok) (self : PeerId) (sending : Bool) (top : List MessageReactor)
    (min : Bool) : Settles r (r.change self sending top min) [] := by
  have hsame : Settles r r [] := ⟨h, (Int.add_zero _).symm, rfl⟩
  obtain ⟨_ | paid⟩ := r
  · unfold change
    dsimp only
    repeat' split
    all_goals first
      | exact hsame
      | exact ⟨ok_some ⟨fun _ => rfl, fun _ => rfl⟩, rfl, rfl⟩
  · have hok := h paid rfl
    unfold change
    dsimp only
    split
    · exact hsame
    · split
      · split
        · exact hsame
        · split
          · exact Settles.top hok _
          · next hlocal => exact Settles.clear hok (Bool.eq_false_iff.mpr hlocal)
      · exact Settles.top hok _

theorem removeFromParticipant_settles (h : r.Ok) (participant : PeerId) :
    Settles r (r.removeFromParticipant participant) [] := by
  have hsame : Settles r r [] := ⟨h, (Int.add_zero _).symm, rfl⟩
  obtain ⟨_ | paid⟩ := r
  · exact hsame
  · unfold removeFromParticipant
    dsimp only
    split
    · exact hsame
    · split
      · next hempty =>
        refine Settles.clear (h paid rfl) ?_
        simpa using (Bool.and_eq_true_iff.mp hempty).2
      · exact Settles.top (h paid rfl) _

theorem clearCloudData_settles (h : r.Ok) : Settles r r.clearCloudData [] := by
  obtain ⟨_ | paid⟩ := r
  · exact ⟨h, rfl, rfl⟩
  · unfold clearCloudData
    dsimp only
    split
    · exact Settles.top (h paid rfl) _
    · next hlocal => exact Settles.clear (h paid rfl) (Bool.eq_false_iff.mpr hlocal)

end MessageReactions

/-! ## Many messages -/

namespace CreditsCall

def locked : CreditsCall → Int
  | .lock count => count
  | _ => 0

def unlocked : CreditsCall → Int
  | .unlock count => count
  | _ => 0

def withdrawn : CreditsCall → Int
  | .withdrawLocked count => count
  | _ => 0

end CreditsCall

/-- A sum over the calls for one message. -/
def sumFor (message : Nat) (f : CreditsCall → Int) (calls : List (Nat × CreditsCall)) : Int :=
  ((calls.filter (·.1 = message)).map fun call => f call.2).sum

theorem sumFor_append (message : Nat) (f : CreditsCall → Int)
    (calls more : List (Nat × CreditsCall)) :
    sumFor message f (calls ++ more) = sumFor message f calls + sumFor message f more := by
  simp [sumFor]

theorem sumFor_same (message : Nat) (f : CreditsCall → Int) (calls : List CreditsCall) :
    sumFor message f (calls.map (message, ·)) = (calls.map f).sum := by
  simp [sumFor, List.filter_map, Function.comp_def]

theorem sumFor_other {message other : Nat} (hne : other ≠ message) (f : CreditsCall → Int)
    (calls : List CreditsCall) : sumFor message f (calls.map (other, ·)) = 0 := by
  simp [sumFor, List.filter_map, Function.comp_def, hne]

/-- What a message was asked to lock is what was given back and what is left. -/
theorem sumFor_net (message : Nat) (calls : List (Nat × CreditsCall)) :
    sumFor message CreditsCall.locked calls =
      sumFor message CreditsCall.unlocked calls + sumFor message CreditsCall.withdrawn calls +
        sumFor message CreditsCall.net calls := by
  induction calls with
  | nil => rfl
  | cons call calls ih =>
      rw [← List.singleton_append]
      simp only [sumFor_append]
      have hone : sumFor message CreditsCall.locked [call] = sumFor message CreditsCall.unlocked [call] +
          sumFor message CreditsCall.withdrawn [call] + sumFor message CreditsCall.net [call] := by
        obtain ⟨other, call⟩ := call
        by_cases heq : other = message
        · cases call <;> simp [sumFor, heq, CreditsCall.locked, CreditsCall.unlocked,
            CreditsCall.withdrawn, CreditsCall.net]
        · simp [sumFor, heq]
      omega

/-- What a message holds, nothing when it is destroyed. -/
def held : Option Live → Int
  | some live => live.reactions.localPaidCount
  | none => 0

theorem held_nonneg (live : Option Live) : 0 ≤ held live := by
  cases live with
  | none => exact le_refl 0
  | some live => exact live.reactions.localPaidCount_nonneg

/-- The request in flight is what the message is sending. -/
structure Live.Ok (live : Live) : Prop where
  reactions : live.reactions.Ok
  request : live.request = live.reactions.sendingPart

namespace Session

/-- What all messages hold. -/
def heldByAll (s : Session) : Int := (s.messages.map held).sum

/-- **Every star is accounted for**. -/
structure Accounted (s : Session) : Prop where
  stars : s.credits.Stars
  live : ∀ message live, s.live message = some live → live.Ok
  elsewhere : 0 ≤ s.elsewhere
  locked : s.credits.locked.nanos = s.elsewhere + s.heldByAll * kOneStarInNano
  calls : ∀ message, sumFor message CreditsCall.net s.calls = held (s.live message)

variable {s : Session} {message : Nat} {live : Live}

theorem getElem?_of_live (h : s.live message = some live) :
    s.messages[message]? = some (some live) := Option.join_eq_some_iff.mp h

theorem live_settled (h : s.live message = some live) (new : Option Live) (other : Nat) :
    (s.messages.set message new)[other]?.join = if other = message then new else s.live other := by
  have hlt := (List.getElem?_eq_some_iff.mp (getElem?_of_live h)).1
  rw [List.getElem?_set]
  by_cases heq : message = other
  · rw [if_pos heq, if_pos (heq ▸ hlt), if_pos heq.symm]
    rfl
  · rw [if_neg heq, if_neg (Ne.symm heq)]
    rfl

theorem heldByAll_set (h : s.live message = some live) (new : Option Live) :
    ((s.messages.set message new).map held).sum =
      s.heldByAll + (held new - held (some live)) := by
  obtain ⟨hlt, hget⟩ := List.getElem?_eq_some_iff.mp (getElem?_of_live h)
  rw [List.map_set, List.sum_set', dif_pos (by rwa [List.length_map]), List.getElem_map, hget]
  rw [heldByAll]
  omega

theorem held_le (h : s.live message = some live) : held (some live) ≤ s.heldByAll := by
  refine List.single_le_sum (fun x hx => ?_) _ ?_
  · obtain ⟨other, -, rfl⟩ := List.mem_map.mp hx
    exact held_nonneg other
  · exact List.mem_map_of_mem (List.mem_of_getElem? (getElem?_of_live h))

/-- Calls of the account that add `net calls`, together with the message. -/
theorem Accounted.settle (h : s.Accounted) (hlive : s.live message = some live)
    {new : Option Live} (hnew : ∀ live, new = some live → live.Ok) {calls : List CreditsCall}
    (hheld : held new = held (some live) + net calls) {credits : Credits}
    (hcalls : calls.foldlM Credits.call s.credits = some credits) (hstars : credits.Stars)
    (hlocked : credits.locked.nanos = s.credits.locked.nanos + net calls * kOneStarInNano) :
    ∃ s', s.settle message new calls = some s' ∧ s'.Accounted := by
  refine ⟨_, by rw [Session.settle, hcalls]; rfl, ?_⟩
  exact
    { stars := hstars
      live := fun other live' hother => by
        rw [Session.live, live_settled hlive] at hother
        split at hother
        · exact hnew live' hother
        · exact h.live other live' hother
      elsewhere := h.elsewhere
      locked := by
        show credits.locked.nanos =
          s.elsewhere + ((s.messages.set message new).map held).sum * kOneStarInNano
        rw [hlocked, h.locked, heldByAll_set hlive, hheld]
        unfold kOneStarInNano
        omega
      calls := fun other => by
        rw [Session.live, live_settled hlive, sumFor_append, h.calls other]
        split
        · next heq =>
          rw [heq, sumFor_same, hlive, hheld]
          rfl
        · next hne => rw [sumFor_other (Ne.symm hne), Int.add_zero] }

theorem heldByAll_nonneg (s : Session) : 0 ≤ s.heldByAll := by
  refine List.sum_nonneg fun x hx => ?_
  obtain ⟨live, -, rfl⟩ := List.mem_map.mp hx
  exact held_nonneg live

theorem Accounted.elsewhere_le (h : s.Accounted) : s.elsewhere ≤ s.credits.locked.nanos := by
  have hnonneg := heldByAll_nonneg s
  rw [h.locked]
  unfold kOneStarInNano
  omega

/-- Calls that only give back what the message held. -/
theorem Accounted.settle_released (h : s.Accounted) (hlive : s.live message = some live)
    {new : Option Live} (hnew : ∀ live, new = some live → live.Ok) {calls : List CreditsCall}
    (hheld : held new = held (some live) + net calls)
    (hcalls : ∀ call ∈ calls, call.Releases) :
    ∃ s', s.settle message new calls = some s' ∧ s'.Accounted := by
  have hroom : 0 ≤ s.credits.locked.nanos + net calls * kOneStarInNano := by
    have hle := held_le hlive
    have hnonneg := held_nonneg new
    have helse := h.elsewhere
    rw [h.locked]
    unfold kOneStarInNano
    omega
  obtain ⟨credits, heq, hstars, hlocked⟩ := Credits.calls_release h.stars hcalls hroom
  exact h.settle hlive hnew hheld heq hstars hlocked

/-- A function without calls. -/
theorem Accounted.settle_silent (h : s.Accounted) (hlive : s.live message = some live)
    {reactions : MessageReactions} (hr : MessageReactions.Settles live.reactions reactions []) :
    ∃ s', s.settle message (some { live with reactions := reactions }) [] = some s' ∧
      s'.Accounted := by
  refine h.settle_released hlive (fun live' heq => ?_) hr.held (by simp)
  cases heq
  exact ⟨hr.ok, (h.live message live hlive).request.trans hr.sending.symm⟩

/-! ## One action -/

/-- The action may happen: its message is there, a request is answered only when
it is in flight, and the account takes the amount. -/
def Allowed (s : Session) : Action → Prop
  | .create | .apply _ => True
  | .scheduleSendPaid message count _ => ∃ live, s.live message = some live ∧ 0 ≤ count ∧
      live.reactions.localPaidCount + count < 2 ^ 30 ∧
      (0 < count → s.credits.loaded = true ∧
        s.credits.locked + .ofWhole count ≤ s.credits.balance)
  | .finishPaidSending message _ => ∃ live, s.live message = some live ∧ live.request.isSome = true
  | .cancelScheduledPaid message | .startPaidSending message | .change message _ _ _ _
  | .removeFromParticipant message _ | .clearCloudData message | .destroy message =>
    ∃ live, s.live message = some live
  | .lock count => count.ton = false ∧ .ofWhole 0 ≤ count ∧ s.credits.loaded = true ∧
      s.credits.locked + count ≤ s.credits.balance
  | .unlock count | .withdrawLocked count =>
    count.ton = false ∧ .ofWhole 0 ≤ count ∧ count.nanos ≤ s.elsewhere

theorem Accounted.create (h : s.Accounted) :
    { s with messages := s.messages ++ [some ({} : Live)] }.Accounted := by
  have hnew : ∀ message, ({ s with messages := s.messages ++ [some {}] } : Session).live
      message = if message = s.messages.length then some ({} : Live) else s.live message := by
    intro message
    show (s.messages ++ [some ({} : Live)])[message]?.join = _
    rw [List.getElem?_append, Session.live]
    split
    · next hlt => rw [if_neg hlt.ne]
    · next hge =>
      split
      · next heq => rw [heq, Nat.sub_self]; rfl
      · next hne =>
        rw [List.getElem?_eq_none (by simp; omega), List.getElem?_eq_none (by omega)]
  exact
    { stars := h.stars
      live := fun message live hlive => by
        rw [hnew] at hlive
        split at hlive
        · cases hlive
          exact ⟨nofun, rfl⟩
        · exact h.live message live hlive
      elsewhere := h.elsewhere
      locked := by
        rw [heldByAll, List.map_append, List.sum_append]
        exact h.locked.trans (by simp [heldByAll, held, MessageReactions.localPaidCount])
      calls := fun message => by
        rw [hnew, h.calls]
        split
        · next heq =>
          rw [heq, Session.live, List.getElem?_eq_none (Nat.le_refl _)]
          rfl
        · rfl }

theorem Accounted.elsewhere_changed (h : s.Accounted) {credits : Credits} {delta : Int}
    (hstars : credits.Stars) (hlocked : credits.locked.nanos = s.credits.locked.nanos + delta)
    (hnonneg : 0 ≤ s.elsewhere + delta) :
    { s with credits := credits, elsewhere := s.elsewhere + delta }.Accounted where
  stars := hstars
  live := h.live
  elsewhere := hnonneg
  locked := by
    show credits.locked.nanos = s.elsewhere + delta + s.heldByAll * kOneStarInNano
    rw [hlocked, h.locked]
    omega
  calls := h.calls

theorem Accounted.scheduleSendPaid (h : s.Accounted) {count : Int}
    {shownPeer : Option MessageReactions.PeerId}
    (ha : s.Allowed (.scheduleSendPaid message count shownPeer)) :
    ∃ s', s.step (.scheduleSendPaid message count shownPeer) = some s' ∧ s'.Accounted := by
  obtain ⟨live, hlive, hcount, hroom, hlock⟩ := ha
  have hok := h.live message live hlive
  obtain ⟨r', heq, hok', hheld, hsend⟩ :=
    MessageReactions.scheduleSendPaid_settles hok.reactions hcount hroom shownPeer
  have hnew : ∀ live', some { live with reactions := r' } = some live' → live'.Ok := by
    intro live' heq'
    cases heq'
    exact ⟨hok', hok.request.trans hsend.symm⟩
  simp only [step, hlive, heq, Option.bind_eq_bind, Option.bind_some]
  by_cases hpos : count > 0
  · obtain ⟨hloaded, hle⟩ := hlock hpos
    have hcount' : CreditsAmount.ofWhole 0 ≤ .ofWhole count := by
      rw [Credits.nonneg_iff rfl, CreditsAmount.nanos_ofWhole]
      exact Int.mul_nonneg hcount (by decide)
    obtain ⟨credits, hlocks, hstars, hlocked⟩ :=
      Credits.lock_eq h.stars hloaded hcount' hle
    rw [if_pos hpos]
    refine h.settle hlive hnew (hheld.trans ?_) ?_ hstars ?_
    · simp [CreditsCall.net, held]
    · rw [List.foldlM_cons]
      exact congrArg (Option.bind · _) hlocks
    · rw [hlocked, CreditsAmount.nanos_ofWhole]
      simp [CreditsCall.net]
  · obtain rfl : count = 0 := by omega
    rw [if_neg hpos]
    exact h.settle_released hlive hnew hheld (by simp)

/-- **Every allowed action** passes the checks and keeps the account. -/
theorem Accounted.step (h : s.Accounted) {a : Action} (ha : s.Allowed a) :
    ∃ s', s.step a = some s' ∧ s'.Accounted := by
  cases a with
  | create => exact ⟨_, rfl, h.create⟩
  | scheduleSendPaid message count shownPeer => exact h.scheduleSendPaid ha
  | cancelScheduledPaid message =>
      obtain ⟨live, hlive⟩ := ha
      have hok := h.live message live hlive
      obtain ⟨hr, hreleases, -⟩ := MessageReactions.cancelScheduledPaid_settles hok.reactions
      simp only [Session.step, hlive, Option.bind_eq_bind, Option.bind_some]
      refine h.settle_released hlive (fun live' heq => ?_) hr.held hreleases
      cases heq
      exact ⟨hr.ok, hok.request.trans hr.sending.symm⟩
  | startPaidSending message =>
      obtain ⟨live, hlive⟩ := ha
      have hok := h.live message live hlive
      simp only [Session.step, hlive, Option.bind_eq_bind, Option.bind_some]
      obtain ⟨hsame, hvalid⟩ | ⟨-, hok', hheld, hvalid, hsend⟩ :=
        MessageReactions.startPaidSending_cases hok.reactions
      · rw [hvalid, hsame]
        exact h.settle_silent hlive ⟨hok.reactions, (Int.add_zero _).symm, rfl⟩
      · refine h.settle_released hlive (fun live' heq => ?_) (hheld.trans (Int.add_zero _).symm)
          (by simp)
        cases heq
        rw [hvalid, if_pos rfl]
        exact ⟨hok', hsend.symm⟩
  | finishPaidSending message success =>
      obtain ⟨live, hlive, hsome⟩ := ha
      have hok := h.live message live hlive
      obtain ⟨send, hsend⟩ := Option.isSome_iff_exists.mp hsome
      obtain ⟨r', calls, heq, hok', hheld, hreleases, hnone, -⟩ :=
        MessageReactions.finishPaidSending_settles hok.reactions (hok.request.symm.trans hsend)
          success
      simp only [Session.step, hlive, hsend, heq, Option.bind_eq_bind, Option.bind_some]
      refine h.settle_released hlive (fun live' heq => ?_) hheld hreleases
      cases heq
      exact ⟨hok', hnone.symm⟩
  | change message self sending top min =>
      obtain ⟨live, hlive⟩ := ha
      simp only [Session.step, hlive, Option.bind_eq_bind, Option.bind_some]
      exact h.settle_silent hlive (MessageReactions.change_settles
        (h.live message live hlive).reactions self sending top min)
  | removeFromParticipant message participant =>
      obtain ⟨live, hlive⟩ := ha
      simp only [Session.step, hlive, Option.bind_eq_bind, Option.bind_some]
      exact h.settle_silent hlive (MessageReactions.removeFromParticipant_settles
        (h.live message live hlive).reactions participant)
  | clearCloudData message =>
      obtain ⟨live, hlive⟩ := ha
      simp only [Session.step, hlive, Option.bind_eq_bind, Option.bind_some]
      exact h.settle_silent hlive (MessageReactions.clearCloudData_settles
        (h.live message live hlive).reactions)
  | destroy message =>
      obtain ⟨live, hlive⟩ := ha
      obtain ⟨calls, heq, hreleases, hnet⟩ :=
        MessageReactions.destroy_releases (h.live message live hlive).reactions
      simp only [Session.step, hlive, heq, Option.bind_eq_bind, Option.bind_some]
      refine h.settle_released hlive (by simp) ?_ hreleases
      rw [hnet, held, held, Int.add_right_neg]
  | lock count =>
      obtain ⟨hton, hle, hloaded, hroom⟩ := ha
      obtain ⟨credits, heq, hstars, hlocked⟩ := Credits.lock_eq h.stars hloaded hle hroom
      simp only [Session.step, heq, Option.bind_eq_bind, Option.bind_some]
      have hnonneg := (Credits.nonneg_iff hton).mp hle
      have helse := h.elsewhere
      exact ⟨_, rfl, h.elsewhere_changed hstars hlocked (by omega)⟩
  | unlock count =>
      obtain ⟨hton, hle, hroom⟩ := ha
      have hnonneg := (Credits.nonneg_iff hton).mp hle
      obtain ⟨credits, heq, hstars, hlocked⟩ :=
        Credits.unlock_eq h.stars hton hnonneg (h.elsewhere_le.trans' hroom)
      simp only [Session.step, heq, Option.bind_eq_bind, Option.bind_some]
      exact ⟨_, rfl, h.elsewhere_changed hstars hlocked (by omega)⟩
  | withdrawLocked count =>
      obtain ⟨hton, hle, hroom⟩ := ha
      have hnonneg := (Credits.nonneg_iff hton).mp hle
      obtain ⟨credits, heq, hstars, hlocked⟩ :=
        Credits.withdrawLocked_eq h.stars hton hnonneg (h.elsewhere_le.trans' hroom)
      simp only [Session.step, heq, Option.bind_eq_bind, Option.bind_some]
      exact ⟨_, rfl, h.elsewhere_changed hstars hlocked (by omega)⟩
  | apply balance =>
      obtain ⟨hstars, hlocked⟩ := Credits.apply_eq h.stars balance
      exact ⟨_, rfl, hstars, h.live, h.elsewhere, by
        show (s.credits.apply balance).locked.nanos = _
        rw [hlocked]
        exact h.locked, h.calls⟩

/-! ## Whole runs -/

/-- Every action of the run is allowed when its turn comes. -/
def AllowedRun (s : Session) (actions : List Action) : Prop :=
  ∀ pre a s', pre ++ [a] <+: actions → s.run pre = some s' → s'.Allowed a

theorem run_append_singleton (pre : List Action) (a : Action) :
    s.run (pre ++ [a]) = (s.run pre).bind (·.step a) := by
  simp [run, List.foldlM_append]

/-- **Stars reserved for paid reactions are never lost or freed twice.**  In every
state of a run no check has failed, what is locked is what the messages have
scheduled and are sending (with what is locked elsewhere), and of every message
what was locked is what was unlocked, withdrawn and is still held. -/
theorem paid_stars_accounted {actions : List Action} (h : AllowedRun {} actions) :
    ∀ pre, pre <+: actions → ∃ s, run {} pre = some s ∧
      s.credits.locked.nanos = s.elsewhere + s.heldByAll * kOneStarInNano ∧
      ∀ message, sumFor message CreditsCall.locked s.calls =
        sumFor message CreditsCall.unlocked s.calls +
          sumFor message CreditsCall.withdrawn s.calls + held (s.live message) := by
  have hall : ∀ pre, pre <+: actions → ∃ s, run {} pre = some s ∧ s.Accounted := by
    intro pre hpre
    induction pre using List.reverseRecOn with
    | nil => exact ⟨{}, rfl, ⟨rfl, rfl⟩, by simp [live], le_refl 0, by decide, by simp [live, sumFor, held]⟩
    | append_singleton pre a ih =>
        obtain ⟨s, hs, hacc⟩ := ih ((List.prefix_append pre [a]).trans hpre)
        rw [run_append_singleton, hs]
        exact hacc.step (h pre a s hpre hs)
  intro pre hpre
  obtain ⟨s, hs, hacc⟩ := hall pre hpre
  refine ⟨s, hs, hacc.locked, fun message => ?_⟩
  rw [sumFor_net, hacc.calls]

/-- Three of ten stars are scheduled for a message. -/
theorem paid_stars_accounted_three :
    ∃ s, run {} [.apply (.ofWhole 10), .create, .scheduleSendPaid 0 3 none] = some s ∧
      s.credits.locked.nanos = s.elsewhere + s.heldByAll * kOneStarInNano := by
  have hrun : AllowedRun {} [.apply (.ofWhole 10), .create, .scheduleSendPaid 0 3 none] := by
    intro pre a s hpre hs
    match pre, hpre with
    | [], hpre =>
        obtain rfl : a = _ := by simpa using hpre
        trivial
    | [b], hpre =>
        obtain ⟨rfl, rfl⟩ : b = _ ∧ a = _ := by simpa using hpre
        trivial
    | [b, c], hpre =>
        obtain ⟨rfl, rfl, rfl⟩ : b = _ ∧ c = _ ∧ a = _ := by simpa using hpre
        obtain rfl := Option.some.inj hs
        exact ⟨{}, rfl, by decide, by decide, fun _ => ⟨rfl, by decide⟩⟩
    | _ :: _ :: _ :: _, hpre => simp at hpre
  obtain ⟨s, hs, hlocked, -⟩ := paid_stars_accounted hrun _ List.prefix_rfl
  exact ⟨s, hs, hlocked⟩

end Session

end Data

end MessengerClient
