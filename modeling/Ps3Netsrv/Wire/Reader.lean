import Ps3Netsrv.Wire.Conversation

/-!
# What a console knows of the server

A console sees none of the objects, buffers and positions of a session.  What it can tell
from its own commands and the replies is a smaller machine, in which a command moves from one
view of the server to the next and the reply says something about the two.  A session that is
seen as a view after every command makes every reply of a connection one of the smaller
machine.

Main results:

- Structure {lit}`Reader`: such a machine with the view of a session.
- Theorem {lit}`Conversation.follows`: the replies of a conversation are those of a reader.
- Theorem {lit}`connection_follows`: so are those of a connection.
-/

namespace Ps3Netsrv.Wire

open Lib

variable {σ : Type}

/-- A machine that answers the commands of a console: what is seen of a session that
satisfies an invariant, what a command does to that, and what the reply to it says. -/
structure Reader (σ : Type) where
  View : Type
  view : Session σ → View
  Inv : Session σ → Prop
  after : View → NetisoCmd → Answers σ → View
  Replies : View → Answers σ → (cmd : NetisoCmd) → ReplyOf cmd → Prop

namespace Reader

variable (R : Reader σ)

/-- The replies to commands that are served from a view on. -/
def Follows : R.View → List (NetisoCmd × Answers σ) → List Exchange → Prop
  | _, [], exchanges => exchanges = []
  | view, (cmd, a) :: commands, exchanges =>
      ∃ reply rest, exchanges = ⟨cmd, reply⟩ :: rest ∧ R.Replies view a cmd reply ∧
        Follows (R.after view cmd a) commands rest

/-- The server answers as the reader does. -/
structure Describes (srv : Server σ) : Prop where
  initial : ∀ socket, R.Inv (.initial socket)
  step : ∀ {s s' : Session σ} {cmd : NetisoCmd} {a : Answers σ}, R.Inv s →
    EntriesInMemory cmd a → serveCmd srv a s cmd = .ok (.succeeded, s') →
      R.Inv s' ∧ R.view s' = R.after (R.view s) cmd a
  replied : ∀ {s s' : Session σ} {cmd : NetisoCmd} {a : Answers σ} {reply : ReplyOf cmd}, R.Inv s →
    EntriesInMemory cmd a → serveCmd srv a s cmd = .ok (.succeeded, s') →
      s'.client.s.sent = s.client.s.sent ++ (replyCodec cmd).encode reply →
        R.Replies (R.view s) a cmd reply

end Reader

variable {R : Reader σ} {srv : Server σ}

/-- The replies of a conversation. -/
theorem Conversation.follows (hR : R.Describes srv) {s s' : Session σ}
    {commands : List (NetisoCmd × Answers σ)} {exchanges : List Exchange}
    (h : Conversation srv s commands exchanges s')
    (hmemory : ∀ p ∈ commands, EntriesInMemory p.1 p.2) (hinv : R.Inv s) :
    R.Follows (R.view s) commands exchanges := by
  induction h with
  | nil => rfl
  | cons reply hserve hsent hrest ih =>
      have hfirst := hmemory _ List.mem_cons_self
      rcases hR.step hinv hfirst hserve with ⟨hinv', hview⟩
      refine ⟨reply, _, rfl, hR.replied hinv hfirst hserve hsent, ?_⟩
      rw [← hview]
      exact ih (fun p hp => hmemory p (List.mem_cons_of_mem _ hp)) hinv'

/-- However many turns a thread takes, the console that reads its stream finds the replies of
the reader to the first of its requests; behind them there is something only if the thread has
left its loop after one more of them. -/
theorem connection_follows (hR : R.Describes srv) (hF : ReadsWithin srv.F)
    {script : List (Option Nat)} {rs : List Request} {turns : List (Turn σ)}
    {c' : Connection σ} (hchecked : ∀ p ∈ rs.zip turns, p.2.Checked p.1)
    (hhost : ∀ p ∈ rs.zip turns, p.2.Hosted p.1)
    (hrun : run (Connection.serve srv) (.start { sent := [], script } rs) turns = some c') :
    ∃ served exchanges tail, served ≤ rs.length ∧
      decodeSeq replyCodec ((rs.take served).map Request.cmd) c'.thread.session.client.s.sent =
        some (exchanges, tail) ∧
      R.Follows (R.view (.initial { sent := [], script })) (executions (rs.take served) turns)
        exchanges ∧
      (c'.thread.phase = .serving → turns.length = served ∧ tail = []) ∧
      (tail ≠ [] → turns.length = served + 1 ∧ served < rs.length) := by
  rcases connection_conversation hF hchecked hhost hrun with
    ⟨served, exchanges, m, tail, hle, hconversation, hdecode, hgoes, hextra⟩
  refine ⟨served, exchanges, tail, hle, hdecode, ?_, hgoes, hextra⟩
  refine hconversation.follows hR (fun p hp => ?_) (hR.initial _)
  rcases mem_executions hp with ⟨r, t, hmem, rfl⟩
  exact (hhost (r, t) hmem).2

/-- A reader follows commands one after the other. -/
theorem Reader.Follows.append {view : R.View} {commands commands' : List (NetisoCmd × Answers σ)}
    {exchanges : List Exchange} (h : R.Follows view (commands ++ commands') exchanges) :
    R.Follows view commands (exchanges.take commands.length) ∧
      R.Follows (commands.foldl (fun view p => R.after view p.1 p.2) view) commands'
        (exchanges.drop commands.length) := by
  induction commands generalizing view exchanges with
  | nil => exact ⟨rfl, h⟩
  | cons p commands ih =>
      rcases h with ⟨reply, rest, rfl, hreply, hrest⟩
      rcases ih hrest with ⟨hfirst, hlast⟩
      exact ⟨⟨reply, _, rfl, hreply, hfirst⟩, hlast⟩

end Ps3Netsrv.Wire
