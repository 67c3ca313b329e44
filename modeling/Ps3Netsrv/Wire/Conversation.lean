import Ps3Netsrv.Session.Moves
import Ps3Netsrv.Wire.Connection
import Ps3Netsrv.Wire.Reply

/-!
# What a console reads

The replies of a session are one stream as well, and the console takes it apart with the
commands that it sent.  Every command that was served has one reply there, in the order of
the requests, and behind the last of them there is nothing but what a command that failed
has sent.

Main results:

- Definition {lit}`Conversation`: commands that succeed one after the other, and their
  replies.
- Theorem {lit}`conversation_of_run`: any run of commands is one.
- Theorem {lit}`connection_replies`: what the console reads after any number of turns.
-/

namespace Ps3Netsrv.Wire

open Lib

variable {σ : Type}

/-! ## Conversations -/

/-- A command and the reply to it. -/
abbrev Exchange := (cmd : NetisoCmd) × ReplyOf cmd

/-- Commands that succeed one after the other, each with the reply that was sent. -/
inductive Conversation (srv : Server σ) : Session σ → List (NetisoCmd × Answers σ) →
    List Exchange → Session σ → Prop where
  | nil (s : Session σ) : Conversation srv s [] [] s
  | cons {s m s' : Session σ} {cmd : NetisoCmd} {a : Answers σ}
      {commands : List (NetisoCmd × Answers σ)} {exchanges : List Exchange}
      (reply : ReplyOf cmd) (hserve : serveCmd srv a s cmd = .ok (.succeeded, m))
      (hsent : m.client.s.sent = s.client.s.sent ++ (replyCodec cmd).encode reply)
      (hrest : Conversation srv m commands exchanges s') :
      Conversation srv s ((cmd, a) :: commands) (⟨cmd, reply⟩ :: exchanges) s'

namespace Conversation

variable {srv : Server σ} {s s' : Session σ} {commands : List (NetisoCmd × Answers σ)}
  {exchanges : List Exchange}

/-- Every command has its reply. -/
theorem commands_eq (h : Conversation srv s commands exchanges s') :
    exchanges.map Sigma.fst = commands.map Prod.fst := by
  induction h with
  | nil => rfl
  | cons reply hserve hsent hrest ih => rw [List.map_cons, List.map_cons, ih]

/-- The replies are all that is sent. -/
theorem sent_eq (h : Conversation srv s commands exchanges s') :
    s'.client.s.sent = s.client.s.sent ++ encodeSeq replyCodec exchanges := by
  induction h with
  | nil => simp [encodeSeq]
  | cons reply hserve hsent hrest ih =>
      rw [ih, hsent, List.append_assoc]
      rfl

end Conversation

/-- The commands of a thread. -/
def commandAction (p : NetisoCmd × Answers σ) : ThreadAction σ := .command p.1 p.2

/-- READ_DIR_ENTRY has memory for the path of an entry. -/
def EntriesInMemory (cmd : NetisoCmd) (a : Answers σ) : Prop :=
  cmd = .readDirEntry ∨ cmd = .readDirEntryV2 → a.pathBuffer = true

/-- A run of commands after which the thread is still in its loop is a conversation. -/
theorem conversation_of_run {srv : Server σ} (hF : ReadsWithin srv.F) {t t' : ClientThread σ}
    {commands : List (NetisoCmd × Answers σ)}
    (hhost : ∀ p ∈ commands, SizesFit p.2 ∧ EntriesInMemory p.1 p.2)
    (hrun : run (ClientThread.step srv) t (commands.map commandAction) = some t')
    (hserving : t'.phase = .serving) :
    ∃ exchanges, Conversation srv t.session commands exchanges t'.session := by
  induction commands generalizing t with
  | nil =>
      cases hrun
      exact ⟨[], .nil _⟩
  | cons p commands ih =>
      rcases p with ⟨cmd, a⟩
      rcases Option.bind_eq_some_iff.mp hrun with ⟨m, hstep, hrest⟩
      rcases ih (fun q hq => hhost q (by simp [hq])) hrest with ⟨exchanges, hconversation⟩
      rcases ClientThread.step_command hstep with ⟨-, status, hserve, hphase⟩
      -- a thread that goes on is still in its loop
      have hgoes : m.phase = .serving := by
        cases commands with
        | nil =>
            cases hrest
            exact hserving
        | cons q commands =>
            rcases Option.bind_eq_some_iff.mp hrest with ⟨m', hstep', -⟩
            exact (ClientThread.step_command hstep').1
      obtain rfl := hphase.mp hgoes
      have hmemory : cmd = .readDirEntry ∨ cmd = .readDirEntryV2 → EntryInMemory a t.session :=
        fun hcmd _ _ _ _ => (hhost (cmd, a) (by simp)).2 hcmd
      rcases serveCmd_reply hF (hhost (cmd, a) (by simp)).1 hmemory hserve with ⟨reply, hsent⟩
      exact ⟨⟨cmd, reply⟩ :: exchanges, .cons reply hserve hsent hconversation⟩

/-! ## Connections -/

/-- The commands that a thread executes for these requests in these turns. -/
def executions (rs : List Request) (turns : List (Turn σ)) : List (NetisoCmd × Answers σ) :=
  List.zipWith (fun r t => (r.cmd, { t.answers with received := .bytes r.payload })) rs turns

/-- They are what the thread does with the requests. -/
theorem executions_map (rs : List Request) (turns : List (Turn σ)) :
    (executions rs turns).map commandAction =
      List.zipWith (fun r t => Turn.action r t) rs turns := by
  rw [executions, List.map_zipWith]
  rfl

/-- There is one for each request that has a turn. -/
theorem executions_cmds {rs : List Request} {turns : List (Turn σ)}
    (h : rs.length ≤ turns.length) : (executions rs turns).map Prod.fst = rs.map Request.cmd := by
  induction rs generalizing turns with
  | nil => simp [executions]
  | cons r rs ih =>
      cases turns with
      | nil => simp at h
      | cons t turns =>
          have hrest : (executions rs turns).map Prod.fst = rs.map Request.cmd :=
            ih (by simpa using h)
          simpa [executions] using hrest

/-- A request that is executed has a turn. -/
theorem mem_executions {rs : List Request} {turns : List (Turn σ)} {n : Nat}
    {p : NetisoCmd × Answers σ} (h : p ∈ executions (rs.take n) turns) :
    ∃ r t, (r, t) ∈ rs.zip turns ∧
      p = (r.cmd, { t.answers with received := .bytes r.payload }) := by
  induction rs generalizing turns n with
  | nil => simp [executions] at h
  | cons r rs ih =>
      rcases n with _ | n
      · simp [executions] at h
      · rcases turns with _ | ⟨t, turns⟩
        · simp [executions] at h
        · rcases List.mem_cons.mp h with rfl | hrest
          · exact ⟨r, t, by simp, rfl⟩
          · rcases ih hrest with ⟨r', t', hmem, heq⟩
            exact ⟨r', t', List.mem_cons_of_mem _ hmem, heq⟩

/-- The host of a turn reports sizes that fit, and has memory for the path of an entry. -/
def Turn.Hosted (r : Request) (t : Turn σ) : Prop :=
  SizesFit t.answers ∧ EntriesInMemory r.cmd t.answers

/-- What a console sends for these requests, however many turns a thread takes: the first of
them are a conversation, which the console can read, and behind the last reply there is
something only if the thread has left its loop after one more of them. -/
theorem connection_conversation {srv : Server σ} (hF : ReadsWithin srv.F)
    {script : List (Option Nat)} {rs : List Request} {turns : List (Turn σ)}
    {c' : Connection σ} (hchecked : ∀ p ∈ rs.zip turns, p.2.Checked p.1)
    (hhost : ∀ p ∈ rs.zip turns, p.2.Hosted p.1)
    (hrun : run (Connection.serve srv) (.start { sent := [], script } rs) turns = some c') :
    ∃ served exchanges m tail, served ≤ rs.length ∧
      Conversation srv (.initial { sent := [], script }) (executions (rs.take served) turns)
        exchanges m ∧
      decodeSeq replyCodec ((rs.take served).map Request.cmd) c'.thread.session.client.s.sent =
        some (exchanges, tail) ∧
      (c'.thread.phase = .serving → turns.length = served ∧ tail = []) ∧
      (tail ≠ [] → turns.length = served + 1 ∧ served < rs.length) := by
  rcases Connection.run_requests hchecked hrun with ⟨served, last, hle, hdone, hend⟩
  have hturns : (rs.take served).length ≤ turns.length := by
    rw [List.length_take]
    rcases hend with ⟨-, hlen, -⟩ | ⟨hlen, -⟩ <;> omega
  rw [run_append, ← executions_map] at hdone
  rcases Option.bind_eq_some_iff.mp hdone with ⟨m, hrun', hlast⟩
  -- where the thread is in front of its last turn
  have hm : m.phase = .serving ∧ ∃ tail,
      c'.thread.session.client.s.sent = m.session.client.s.sent ++ tail ∧
        (c'.thread.phase = .serving → turns.length = served ∧ tail = []) ∧
        (tail ≠ [] → turns.length = served + 1 ∧ served < rs.length) := by
    rcases hend with ⟨rfl, hlen, hserving, -⟩ | ⟨hlen, hleft, rfl | ⟨r, a, hr, rfl⟩⟩
    · cases hlast
      exact ⟨hserving, [], by simp, fun _ => ⟨hlen, rfl⟩, by simp⟩
    · rcases Option.bind_eq_some_iff.mp hlast with ⟨c, hstep, hc⟩
      cases hc
      have hserving := (hangUp_closing hstep).1
      rw [ClientThread.step, if_pos hserving] at hstep
      refine ⟨hserving, [], ?_, by simp [hleft], by simp⟩
      rw [← Option.some.inj hstep, List.append_nil]
    · rcases Option.bind_eq_some_iff.mp hlast with ⟨c, hstep, hc⟩
      cases hc
      rcases ClientThread.step_command hstep with ⟨hserving, status, hserve, -⟩
      rcases serveCmd_sent hserve with ⟨tail, htail⟩
      refine ⟨hserving, tail, htail.symm, by simp [hleft], fun _ => ⟨hlen, ?_⟩⟩
      exact (List.getElem?_eq_some_iff.mp hr).1
  rcases hm with ⟨hserving, tail, htail, hgoes, hextra⟩
  have hhosted : ∀ p ∈ executions (rs.take served) turns,
      SizesFit p.2 ∧ EntriesInMemory p.1 p.2 := by
    intro p hp
    rcases mem_executions hp with ⟨r, t, hmem, rfl⟩
    exact hhost (r, t) hmem
  rcases conversation_of_run hF hhosted hrun' hserving with ⟨exchanges, hconversation⟩
  have hkinds := hconversation.commands_eq
  rw [executions_cmds hturns] at hkinds
  refine ⟨served, exchanges, m.session, tail, hle, hconversation, ?_, hgoes, hextra⟩
  rw [htail, hconversation.sent_eq, ← hkinds]
  exact decodeSeq_encodeSeq replyCodec exchanges tail

/-- However many turns a thread takes, the console that reads its stream finds one reply for
each of the first requests; behind them there is something only if the thread has left its
loop after one more of them. -/
theorem connection_replies {srv : Server σ} (hF : ReadsWithin srv.F) {script : List (Option Nat)}
    {rs : List Request} {turns : List (Turn σ)} {c' : Connection σ}
    (hchecked : ∀ p ∈ rs.zip turns, p.2.Checked p.1)
    (hhost : ∀ p ∈ rs.zip turns, p.2.Hosted p.1)
    (hrun : run (Connection.serve srv) (.start { sent := [], script } rs) turns = some c') :
    ∃ served exchanges tail, served ≤ rs.length ∧
      decodeSeq replyCodec ((rs.take served).map Request.cmd) c'.thread.session.client.s.sent =
        some (exchanges, tail) ∧
      (c'.thread.phase = .serving → turns.length = served ∧ tail = []) ∧
      (tail ≠ [] → turns.length = served + 1 ∧ served < rs.length) := by
  rcases connection_conversation hF hchecked hhost hrun with
    ⟨served, exchanges, m, tail, hle, -, hdecode, hgoes, hextra⟩
  exact ⟨served, exchanges, tail, hle, hdecode, hgoes, hextra⟩

/-- A console that makes a directory, opens it and asks for an entry. -/
def listingSession : List Request :=
  [{ cmd := .mkdir 2, known := trivial, payload := ascii ['/', 'x']
     length_payload := length_slash_x },
    { cmd := .openDir 2, known := trivial, payload := ascii ['/', 'x']
      length_payload := length_slash_x },
    { cmd := .readDirEntry, known := trivial, payload := [], length_payload := List.length_nil }]

/-- What it reads on a host of empty files. -/
theorem connection_replies_listing :
    ∃ (c' : Connection File) (exchanges : List Exchange),
      run (Connection.serve plainServer) (.start { sent := [], script := [] } listingSession)
        (List.replicate 3 ⟨.full, .full, answersWith .error⟩) = some c' ∧
      decodeSeq replyCodec (listingSession.map Request.cmd) c'.thread.session.client.s.sent =
        some (exchanges, []) := by
  obtain ⟨c', hrun, hserving⟩ : ∃ c' : Connection File,
      run (Connection.serve plainServer) (.start { sent := [], script := [] } listingSession)
        (List.replicate 3 ⟨.full, .full, answersWith .error⟩) = some c' ∧
      c'.thread.phase = .serving := ⟨_, rfl, rfl⟩
  have hturns : ∀ p ∈ listingSession.zip
      (List.replicate 3 (⟨.full, .full, answersWith .error⟩ : Turn File)),
        p.2 = ⟨.full, .full, answersWith .error⟩ := by
    rintro ⟨r, t⟩ hmem
    exact List.eq_of_mem_replicate (List.of_mem_zip hmem).2
  have hchecked : ∀ p ∈ listingSession.zip
      (List.replicate 3 (⟨.full, .full, answersWith .error⟩ : Turn File)), p.2.Checked p.1 := by
    intro p hp
    rw [hturns p hp]
    exact fun h => ReadOutcome.noConfusion h.2
  have hhost : ∀ p ∈ listingSession.zip
      (List.replicate 3 (⟨.full, .full, answersWith .error⟩ : Turn File)), p.2.Hosted p.1 := by
    intro p hp
    rw [hturns p hp]
    refine ⟨fun path st hst => ?_, fun _ => rfl⟩
    cases hst
    decide
  have hreads : ReadsWithin plainServer.F := file_readsWithin
  rcases connection_replies hreads hchecked hhost hrun with
    ⟨served, exchanges, tail, hle, hdecode, hgoes, -⟩
  rcases hgoes hserving with ⟨hserved, rfl⟩
  obtain rfl : 3 = served := hserved
  exact ⟨c', exchanges, hrun, hdecode⟩

end Ps3Netsrv.Wire
