import Ps3Netsrv.Session.Frame

/-!
# The replies of commands that succeed

A handler returns {lit}`SUCCEEDED` only when every {lit}`send` took all of its bytes.  So
whatever the network does, a command that succeeds has sent its reply to the last byte.

Main results:

- Theorems {lit}`Session.reply_succeeded` and {lit}`Session.replyWith_succeeded`: what has
  been sent when a result was sent with success.
-/

namespace Ps3Netsrv

open Lib

variable {σ : Type} {s s' : Session σ}

/-! ## Sending with success -/

/-- A session that has sent some more bytes and is the same otherwise. -/
structure Session.Sent (s s' : Session σ) (bytes : Bytes) : Prop where
  sent : s'.client.s.sent = s.client.s.sent ++ bytes
  same : s' = { s with client := { s.client with s := s'.client.s } }

namespace Session

/-- A send that takes everything. -/
theorem send_succeeded {bytes : Bytes} (h : (s.send bytes).1 = true) :
    s.Sent (s.send bytes).2 bytes := by
  have hfull : (s.client.s.send bytes).1 = bytes.length := by simpa [send] using h
  exact ⟨Socket.send_full (by rfl) hfull, rfl⟩

/-- Two sends one after the other. -/
theorem Sent.trans {s'' : Session σ} {first second : Bytes} (h : s.Sent s' first)
    (h' : s'.Sent s'' second) : s.Sent s'' (first ++ second) := by
  refine ⟨by rw [h'.sent, h.sent, List.append_assoc], ?_⟩
  have hsame := h'.same
  rw [h.same] at hsame
  exact hsame

/-- A result that is sent with success was to be sent with success. -/
theorem reply_succeeded {result : Bytes} {ret : Status}
    (h : s.reply result ret = (.succeeded, s')) : ret = .succeeded ∧ s.Sent s' result := by
  unfold reply at h
  simp only [Prod.mk.injEq] at h
  rcases h with ⟨hret, rfl⟩
  split at hret
  · rename_i hsent
    exact ⟨hret, send_succeeded hsent⟩
  · cases hret

/-- A failure is not a success. -/
theorem reply_failed {result : Bytes} (h : s.reply result .failed = (.succeeded, s')) : False :=
  Status.noConfusion (reply_succeeded h).1

/-- A result and data that are sent with success. -/
theorem replyWith_succeeded {result data : Bytes}
    (h : s.replyWith result data = (.succeeded, s')) : s.Sent s' (result ++ data) := by
  unfold replyWith at h
  simp only at h
  split at h
  · cases h
  · rename_i hsent
    have hfirst : s.Sent (s.send result).2 result := send_succeeded (by simpa using hsent)
    split at h
    · rename_i hdata
      cases h
      simpa [hdata] using hfirst
    · exact hfirst.trans (reply_succeeded h).2

end Session

end Ps3Netsrv
