import Mathlib.Algebra.Order.Ring.Int

/-!
# MessengerClient.MsgId

The ids of messages, of `data/data_msg_id.h`.
-/

namespace MessengerClient

abbrev MsgId : Type := Int

/-- `IsServerMsgId`, with `ServerMaxMsgId` of 2^56. -/
def isServerMsgId (id : MsgId) : Bool := 0 < id && id < 2 ^ 56

theorem pos_of_isServerMsgId {id : MsgId} (h : isServerMsgId id) : 0 < id := by
  rw [isServerMsgId, Bool.and_eq_true_iff] at h
  exact of_decide_eq_true h.1

end MessengerClient
