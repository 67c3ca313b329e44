import Ps3Netsrv.Session.Invariant
import Ps3Netsrv.Session.Replies
import Ps3Netsrv.Wire.Command

/-!
# A connection as a stream

The server has no way to find the start of a command again once it has lost it: the bytes of
a console are one stream, and a handler that received too little or too much would make the
next command of the middle of something else.  This module runs the client thread on a
stream and shows that it executes what the console asked for, request by request.

Main results:

- Definition {lit}`Connection.serve`: one turn of {lit}`client_thread` on a stream.
- Theorem {lit}`serveCmd_receives`: a handler that succeeds has received the whole payload.
- Theorem {lit}`Connection.serve_request`: one turn takes one request off the stream.
- Theorem {lit}`Connection.run_requests`: any number of turns.
- Theorem {lit}`connection_sound`: what is served at the end of any number of turns.
-/

namespace Ps3Netsrv.Wire

open Lib

variable {σ : Type}

/-! ## Receiving from a stream -/

/-- {lit}`recv` with {lit}`MSG_WAITALL`, when {lit}`incoming` is all that the console will
send: the bytes asked for as far as they come, fewer after an interruption, or an error. -/
def recv (outcome : ReadOutcome) (incoming : Bytes) (size : Nat) : Received × Bytes :=
  match outcome with
  | .full => (.bytes (incoming.take size), incoming.drop size)
  | .short count => (.bytes (incoming.take (min count size)), incoming.drop (min count size))
  | .error => (.error, incoming)

/-- How many bytes the handler of a command receives, if it gets that far. -/
def payloadAsked (a : Answers σ) (s : Session σ) : NetisoCmd → Option Nat
  | .openFile len =>
      if s.client.buf = false ∨ len = 0 ∨ a.pathBuffer = false then none else some len.toNat
  | .createFile len | .deleteFile len | .statFile len | .openDir len | .getDirSize len
  | .mkdir len | .rmdir len => if a.pathBuffer = false then none else some len.toNat
  | .writeFile numBytes =>
      if s.woFile.isNone ∨ s.client.buf = false ∨ numBytes.toNat > bufferSize then none
      else if 0 < numBytes.toNat then some numBytes.toNat else none
  | _ => none

/-- How much is received does not depend on what comes. -/
@[simp]
theorem payloadAsked_received (a : Answers σ) (received : Received) (s : Session σ)
    (cmd : NetisoCmd) : payloadAsked { a with received } s cmd = payloadAsked a s cmd := by
  cases cmd <;> rfl

/-- The receipt of a handler. -/
def receive (outcome : ReadOutcome) (incoming : Bytes) : Option Nat → Received × Bytes
  | none => (.bytes [], incoming)
  | some size => recv outcome incoming size

/-! ## Turns -/

/-- A client thread and the bytes of its console that it has not received. -/
structure Connection (σ : Type) where
  thread : ClientThread σ
  incoming : Bytes

/-- What the system calls of one turn do: the receipt of the command, that of its handler,
and the others. -/
structure Turn (σ : Type) where
  header : ReadOutcome
  payload : ReadOutcome
  answers : Answers σ

/-- One turn of {lit}`client_thread`. -/
def Connection.serve (srv : Server σ) (c : Connection σ) (t : Turn σ) : Option (Connection σ) :=
  let got := recv t.header c.incoming 16
  match got.1 with
  | .error => (c.thread.step srv .hangUp).map fun thread => { thread, incoming := got.2 }
  | .bytes data =>
      if data.length ≠ 16 then
        (c.thread.step srv .hangUp).map fun thread => { thread, incoming := got.2 }
      else
        let cmd := decodeCmd data
        let received :=
          receive t.payload got.2 (payloadAsked t.answers c.thread.session cmd)
        (c.thread.step srv (.command cmd { t.answers with received := received.1 })).map
          fun thread => { thread, incoming := received.2 }

/-- A connection with a console that sends these requests and then no more. -/
def Connection.start (socket : Socket) (rs : List Request) : Connection σ where
  thread := .start socket
  incoming := encodeRequests rs

/-! ## What a handler has received -/

/-- A path that is received in full. -/
theorem bytes_of_recvAll {received : Received} {size : Nat} {buf : Bytes}
    (h : (recvAll received size buf).1 = size) :
    ∃ data, received = .bytes data ∧ size ≤ data.length := by
  cases received with
  | error =>
      simp only [recvAll] at h
      omega
  | bytes data =>
      refine ⟨data, rfl, ?_⟩
      simp only [recvAll, List.length_take] at h
      omega

/-- A command on a path that succeeds has received its path. -/
theorem withPath_receives {srv : Server σ} {a : Answers σ} {s s' : Session σ} {len : UInt16}
    {act : Bytes → Except Fault (Status × Session σ)}
    (h : withPath srv a s len act = .ok (.succeeded, s')) :
    a.pathBuffer ≠ false ∧ ∃ data, a.received = .bytes data ∧ len.toNat ≤ data.length := by
  unfold withPath at h
  simp only at h
  split at h
  · cases h
  · rename_i hpassed
    push Not at hpassed
    exact ⟨hpassed.1, bytes_of_recvAll hpassed.2⟩

/-- A handler that succeeds has received everything that belongs to its command. -/
theorem serveCmd_receives {srv : Server σ} {a : Answers σ} {s s' : Session σ} {cmd : NetisoCmd}
    (hchecked : ¬ (cmd = .openFile 65535 ∧ a.received = .error))
    (h : serveCmd srv a s cmd = .ok (.succeeded, s')) :
    (payloadAsked a s cmd = none ∧ payloadLength cmd = 0) ∨
      (payloadAsked a s cmd = some (payloadLength cmd) ∧
        ∃ data, a.received = .bytes data ∧ payloadLength cmd ≤ data.length) := by
  cases cmd with
  | readFileCritical | readFile | readCd2048Critical | readDirEntry | readDirEntryV2 | readDir =>
      exact Or.inl ⟨rfl, rfl⟩
  | unknown op => cases h
  | statFile len | deleteFile len | mkdir len | rmdir len | getDirSize len =>
      simp only [serveCmd, processStatCmd, processDeleteFileCmd, processMkdirCmd,
        processRmdirCmd, processGetDirSizeCmd] at h
      rcases withPath_receives h with ⟨hmem, hdata⟩
      exact Or.inr ⟨if_neg hmem, hdata⟩
  | createFile len =>
      rw [serveCmd, processCreateCmd] at h
      split at h
      · cases h
      · rename_i hmem
        refine Or.inr ⟨if_neg hmem, ?_⟩
        split at h
        · exact (Session.reply_failed (Except.ok.inj h)).elim
        · rename_i hgot
          exact bytes_of_recvAll (not_not.mp hgot)
  | openDir len =>
      rw [serveCmd, processOpenDirCmd] at h
      simp only at h
      split at h
      · cases h
      · rename_i hpassed
        push Not at hpassed
        exact Or.inr ⟨if_neg hpassed.1, bytes_of_recvAll hpassed.2⟩
  | writeFile numBytes =>
      rw [serveCmd] at h
      have hserved := Except.ok.inj h
      unfold processWriteFileCmd at hserved
      split at hserved
      · exact (Session.reply_failed hserved).elim
      · rename_i hpassed
        split at hserved
        · exact (Session.reply_failed hserved).elim
        · rename_i hgot
          push Not at hgot
          by_cases hzero : 0 < numBytes.toNat
          · refine Or.inr ⟨?_, bytes_of_recvAll (hgot hzero)⟩
            rw [payloadAsked, if_neg hpassed, if_pos hzero]
            rfl
          · refine Or.inl ⟨?_, by simpa [payloadLength] using hzero⟩
            rw [payloadAsked, if_neg hpassed, if_neg hzero]
  | openFile len =>
      rw [serveCmd, processOpenCmd] at h
      simp only at h
      split at h
      · exact (Session.reply_failed (Except.ok.inj h)).elim
      · rename_i hpassed
        push Not at hpassed
        have hlong : ¬ (len.toNat = 65535 ∧ a.received = .error) := by
          rintro ⟨hlen, herror⟩
          refine hchecked ⟨?_, herror⟩
          rw [show len = 65535 from UInt16.toNat_inj.mp hlen]
        refine Or.inr ⟨?_, bytes_of_recvAll ((rlen_eq_iff _ hlong).mp hpassed.2.2.2)⟩
        rw [payloadAsked, if_neg (by simp [hpassed.1, hpassed.2.1, hpassed.2.2.1])]
        rfl

/-! ## One turn -/

/-- A receipt of everything that was asked for takes exactly that off the stream. -/
theorem recv_append {outcome : ReadOutcome} {front rest data : Bytes}
    (h : (recv outcome (front ++ rest) front.length).1 = .bytes data)
    (hlen : front.length ≤ data.length) :
    data = front ∧ (recv outcome (front ++ rest) front.length).2 = rest := by
  cases outcome with
  | full =>
      simp only [recv, List.take_left', List.drop_left', Received.bytes.injEq] at h ⊢
      exact ⟨h.symm, trivial⟩
  | short count =>
      simp only [recv, Received.bytes.injEq] at h
      have hcount : front.length ≤ min count front.length := by
        rw [← h, List.length_take] at hlen
        omega
      have hmin : min count front.length = front.length := by omega
      rw [hmin, List.take_left'] at h
      · exact ⟨h.symm, by simp [recv, hmin]⟩
      · rfl
  | error => cases h

/-- The receipt of a handler fails when its {lit}`recv` does. -/
theorem receive_error {outcome : ReadOutcome} {incoming : Bytes} {asked : Option Nat}
    (h : (receive outcome incoming asked).1 = .error) : outcome = .error := by
  cases asked with
  | none => cases h
  | some size =>
      cases outcome with
      | full => cases h
      | short count => cases h
      | error => rfl

/-- A thread that hangs up has left its loop. -/
theorem hangUp_closing {srv : Server σ} {t t' : ClientThread σ}
    (h : t.step srv .hangUp = some t') : t.phase = .serving ∧ t'.phase = .closing := by
  simp only [ClientThread.step] at h
  split at h
  · rename_i hphase
    cases h
    exact ⟨hphase, rfl⟩
  · cases h

/-- A thread that tried a command is in its loop or has left it. -/
theorem command_phase {srv : Server σ} {t t' : ClientThread σ} {cmd : NetisoCmd} {a : Answers σ}
    (h : t.step srv (.command cmd a) = some t') : t'.phase = .serving ∨ t'.phase = .closing := by
  simp only [ClientThread.step] at h
  split at h
  · cases h
    exact Or.inl rfl
  · cases h
    exact Or.inr rfl
  · cases h

/-- What the thread does with a request whose payload it receives. -/
def Turn.action (r : Request) (t : Turn σ) : ThreadAction σ :=
  .command r.cmd { t.answers with received := .bytes r.payload }

/-- The receipt of a path of 65535 bytes does not fail. -/
def Turn.Checked (r : Request) (t : Turn σ) : Prop :=
  ¬ (r.cmd = .openFile 65535 ∧ t.payload = .error)

/-- A turn on a stream that starts with a request: the request is served and taken off the
stream, or the thread leaves its loop, and then it has hung up or tried that request. -/
theorem Connection.serve_request {srv : Server σ} {c c' : Connection σ} {t : Turn σ}
    {r : Request} {rest : Bytes} (hchecked : t.Checked r)
    (hincoming : c.incoming = r.encode ++ rest) (h : c.serve srv t = some c') :
    (c'.thread.phase = .serving ∧ c'.incoming = rest ∧
        c.thread.step srv (t.action r) = some c'.thread) ∨
      (c'.thread.phase = .closing ∧
        (c.thread.step srv .hangUp = some c'.thread ∨
          ∃ a, c.thread.step srv (.command r.cmd a) = some c'.thread)) := by
  unfold Connection.serve at h
  have hheader : c.incoming = encodeCmd r.cmd ++ (r.payload ++ rest) := by
    rw [hincoming, Request.encode, List.append_assoc]
  have hhang : ∀ {rest : Bytes}, ((c.thread.step srv .hangUp).map fun thread =>
      ({ thread, incoming := rest } : Connection σ)) = some c' →
        c'.thread.phase = .closing ∧ c.thread.step srv .hangUp = some c'.thread := by
    intro rest hmap
    rcases Option.map_eq_some_iff.mp hmap with ⟨thread, hstep, rfl⟩
    exact ⟨(hangUp_closing hstep).2, hstep⟩
  simp only at h
  split at h
  · exact Or.inr ⟨(hhang h).1, Or.inl (hhang h).2⟩
  · rename_i data hdata
    split at h
    · exact Or.inr ⟨(hhang h).1, Or.inl (hhang h).2⟩
    · rename_i hlen
      push Not at hlen
      rw [hheader, ← length_encodeCmd r.cmd] at hdata
      rcases recv_append hdata (by simp [hlen]) with ⟨rfl, hrest⟩
      rw [length_encodeCmd, ← hheader] at hrest
      rcases Option.map_eq_some_iff.mp h with ⟨thread, hstep, rfl⟩
      rw [decodeCmd_encodeCmd r.known] at hstep ⊢
      rcases ClientThread.step_command hstep with ⟨-, status, hserve, hphase⟩
      cases status with
      | failed =>
          have hleft : thread.phase = .closing :=
            (command_phase hstep).resolve_left fun hgo => Status.noConfusion (hphase.mp hgo)
          exact Or.inr ⟨hleft, Or.inr ⟨_, hstep⟩⟩
      | succeeded =>
          refine Or.inl ⟨hphase.mpr rfl, ?_⟩
          have herror : ¬ (r.cmd = .openFile 65535 ∧
              (receive t.payload (recv t.header c.incoming 16).2
                (payloadAsked t.answers c.thread.session r.cmd)).1 = .error) := by
            rintro ⟨hcmd, hreceived⟩
            exact hchecked ⟨hcmd, receive_error hreceived⟩
          have htaken : receive t.payload (recv t.header c.incoming 16).2
              (payloadAsked t.answers c.thread.session r.cmd) = (.bytes r.payload, rest) := by
            rw [hrest]
            rcases serveCmd_receives herror hserve with ⟨hnone, hzero⟩ | ⟨hsome, data, hdata, hle⟩
            · rw [payloadAsked_received] at hnone
              have hempty : r.payload = [] := by
                rw [← List.length_eq_zero_iff, r.length_payload, hzero]
              rw [hnone, hempty]
              rfl
            · rw [payloadAsked_received] at hsome
              rw [hrest, hsome, ← r.length_payload] at hdata
              rw [hsome, ← r.length_payload]
              rw [← r.length_payload] at hle
              rcases recv_append hdata hle with ⟨rfl, htail⟩
              exact Prod.ext hdata htail
          rw [htaken] at hstep ⊢
          exact ⟨rfl, hstep⟩

/-! ## Any number of turns -/

/-- A turn is taken in the loop. -/
theorem Connection.serve_serving {srv : Server σ} {c c' : Connection σ} {t : Turn σ}
    (h : c.serve srv t = some c') : c.thread.phase = .serving := by
  unfold Connection.serve at h
  simp only at h
  split at h
  · rcases Option.map_eq_some_iff.mp h with ⟨thread, hstep, -⟩
    exact (hangUp_closing hstep).1
  · split at h
    · rcases Option.map_eq_some_iff.mp h with ⟨thread, hstep, -⟩
      exact (hangUp_closing hstep).1
    · rcases Option.map_eq_some_iff.mp h with ⟨thread, hstep, -⟩
      exact (ClientThread.step_command hstep).1

/-- At the end of the stream the thread hangs up. -/
theorem Connection.serve_end {srv : Server σ} {c c' : Connection σ} {t : Turn σ}
    (hincoming : c.incoming = []) (h : c.serve srv t = some c') :
    c'.thread.phase = .closing ∧ c.thread.step srv .hangUp = some c'.thread := by
  unfold Connection.serve at h
  rw [hincoming] at h
  have hempty : ∀ data, (recv t.header [] 16).1 = .bytes data → data.length ≠ 16 := by
    intro data hdata
    cases hout : t.header <;> simp only [hout, recv, Received.bytes.injEq] at hdata
    · simp [← hdata]
    · simp [← hdata]
    · cases hdata
  simp only at h
  split at h
  · rcases Option.map_eq_some_iff.mp h with ⟨thread, hstep, rfl⟩
    exact ⟨(hangUp_closing hstep).2, hstep⟩
  · rename_i data hdata
    rw [if_pos (hempty data hdata)] at h
    rcases Option.map_eq_some_iff.mp h with ⟨thread, hstep, rfl⟩
    exact ⟨(hangUp_closing hstep).2, hstep⟩

/-- What a thread has done after some turns with a console that sends these requests: it has
executed the first of them, each with its own payload, and is still in its loop in front of
the others; or it has left the loop in one more turn, in which it hung up or tried the next
request. -/
def Executed (srv : Server σ) (start : ClientThread σ) (rs : List Request)
    (turns : List (Turn σ)) (c' : Connection σ) : Prop :=
  ∃ served last, served ≤ rs.length ∧
    run (ClientThread.step srv) start
      (List.zipWith (fun r t => t.action r) (rs.take served) turns ++ last) = some c'.thread ∧
    ((last = [] ∧ turns.length = served ∧ c'.thread.phase = .serving ∧
        c'.incoming = encodeRequests (rs.drop served)) ∨
      (turns.length = served + 1 ∧ c'.thread.phase = .closing ∧
        (last = [.hangUp] ∨ ∃ r a, rs[served]? = some r ∧ last = [.command r.cmd a])))

/-- A thread that leaves its loop takes no further turn. -/
theorem Executed.of_left {srv : Server σ} {c m c' : Connection σ} {rs : List Request}
    {t : Turn σ} {turns : List (Turn σ)} {last : ThreadAction σ}
    (hstep : c.thread.step srv last = some m.thread) (hleft : m.thread.phase = .closing)
    (hlast : last = .hangUp ∨ ∃ r a, rs[0]? = some r ∧ last = .command r.cmd a)
    (hrest : run (Connection.serve srv) m turns = some c') :
    Executed srv c.thread rs (t :: turns) c' := by
  cases turns with
  | cons t' turns =>
      rcases Option.bind_eq_some_iff.mp hrest with ⟨m', hserve, -⟩
      have hphase := Connection.serve_serving hserve
      rw [hleft] at hphase
      cases hphase
  | nil =>
      cases hrest
      refine ⟨0, [last], Nat.zero_le _, by simp [hstep], Or.inr ⟨rfl, hleft, ?_⟩⟩
      simpa using hlast

/-- However many turns a thread takes on the stream of a console, it executes the requests of
the console, in their order and each with its own payload. -/
theorem Connection.run_executed {srv : Server σ} {c c' : Connection σ} {rs : List Request}
    {turns : List (Turn σ)} (hserving : c.thread.phase = .serving)
    (hincoming : c.incoming = encodeRequests rs)
    (hchecked : ∀ p ∈ rs.zip turns, p.2.Checked p.1)
    (hrun : run (Connection.serve srv) c turns = some c') :
    Executed srv c.thread rs turns c' := by
  induction turns generalizing c rs with
  | nil =>
      cases hrun
      exact ⟨0, [], Nat.zero_le _, by simp, Or.inl ⟨rfl, rfl, hserving, hincoming⟩⟩
  | cons t turns ih =>
      rcases Option.bind_eq_some_iff.mp hrun with ⟨m, hserve, hrest⟩
      cases rs with
      | nil =>
          rcases Connection.serve_end hincoming hserve with ⟨hleft, hstep⟩
          exact .of_left hstep hleft (Or.inl rfl) hrest
      | cons r rs =>
          have hhead : t.Checked r := hchecked (r, t) (by simp)
          rcases Connection.serve_request hhead hincoming hserve with
            ⟨hgo, htail, hstep⟩ | ⟨hleft, hstep | ⟨a, hstep⟩⟩
          · have hothers : ∀ p ∈ rs.zip turns, p.2.Checked p.1 :=
              fun p hp => hchecked p (by simp [hp])
            rcases ih hgo htail hothers hrest with ⟨served, last, hle, hdone, hend⟩
            refine ⟨served + 1, last, Nat.succ_le_succ hle, ?_, ?_⟩
            · simpa [hstep] using hdone
            · simpa using hend
          · exact .of_left hstep hleft (Or.inl rfl) hrest
          · exact .of_left hstep hleft (Or.inr ⟨r, a, rfl, rfl⟩) hrest

/-- The same from the start of a connection. -/
theorem Connection.run_requests {srv : Server σ} {socket : Socket} {rs : List Request}
    {turns : List (Turn σ)} {c' : Connection σ}
    (hchecked : ∀ p ∈ rs.zip turns, p.2.Checked p.1)
    (hrun : run (Connection.serve srv) (.start socket rs) turns = some c') :
    Executed srv (.start socket) rs turns c' :=
  Connection.run_executed rfl rfl hchecked hrun

/-- A request with its own payload is no mistaken receipt. -/
theorem Turn.action_checked (r : Request) (t : Turn σ) : (t.action r).Checked := by
  rcases r with ⟨cmd, known, payload, hlen⟩
  cases cmd with
  | openFile len => exact fun h => Received.noConfusion h.2
  | _ => trivial

/-- A thread that is still in its loop after some turns has executed that many requests of
its console, serves what they ask for, and stands in front of the next one. -/
theorem connection_sound {srv : Server σ} {socket : Socket} {rs : List Request}
    {turns : List (Turn σ)} {c' : Connection σ}
    (hchecked : ∀ p ∈ rs.zip turns, p.2.Checked p.1)
    (hrun : run (Connection.serve srv) (.start socket rs) turns = some c')
    (hserving : c'.thread.phase = .serving) :
    turns.length ≤ rs.length ∧ c'.incoming = encodeRequests (rs.drop turns.length) ∧
      SessionInv srv socket (List.zipWith (fun r t => t.action r) rs turns) c'.thread := by
  rcases Connection.run_requests hchecked hrun with
    ⟨served, last, hle, hdone, ⟨rfl, hlen, -, hincoming⟩ | ⟨-, hleft, -⟩⟩
  · have hall : List.zipWith (fun r t => t.action r) (rs.take served) turns =
        List.zipWith (fun r t => t.action r) rs turns := by
      have htake : (List.zipWith (fun r t => Turn.action r t) rs turns).take served =
          List.zipWith (fun r t => Turn.action r t) (rs.take served) (turns.take served) :=
        List.take_zipWith
      rw [← hlen, List.take_length, List.take_of_length_le (by simp)] at htake
      rw [← hlen, htake]
    rw [List.append_nil, hall] at hdone
    refine ⟨hlen ▸ hle, hlen ▸ hincoming, SessionInv.run ?_ hdone⟩
    intro action hmem
    rw [← List.map_uncurry_zip_eq_zipWith] at hmem
    rcases List.mem_map.mp hmem with ⟨⟨r, t⟩, -, rfl⟩
    exact t.action_checked r
  · rw [hleft] at hserving
    cases hserving

theorem length_slash_x : (ascii ['/', 'x']).length = 2 := rfl

/-- A console that opens {lit}`/x`. -/
def openingRequest : Request where
  cmd := .openFile 2
  known := trivial
  payload := ascii ['/', 'x']
  length_payload := length_slash_x

/-- A console that opens {lit}`/x`, asks for its attributes, makes the directory {lit}`/x`,
and asks for a directory. -/
def mixedSession : List Request :=
  [openingRequest,
    { cmd := .statFile 2, known := trivial, payload := ascii ['/', 'x']
      length_payload := length_slash_x },
    { cmd := .mkdir 2, known := trivial, payload := ascii ['/', 'x']
      length_payload := length_slash_x },
    { cmd := .openDir 2, known := trivial, payload := ascii ['/', 'x']
      length_payload := length_slash_x }]

/-- After three turns the thread has executed three of its requests, and the last one is still
on the stream. -/
theorem connection_sound_mixed :
    ∃ c' : Connection File, run (Connection.serve plainServer)
        (.start { sent := [], script := [] } mixedSession)
        (List.replicate 3 ⟨.full, .full, answersWith .error⟩) = some c' ∧
      c'.incoming = encodeRequests (mixedSession.drop 3) ∧
      SessionInv plainServer { sent := [], script := [] }
        [.command (.openFile 2) (answersWith (.bytes (ascii ['/', 'x']))),
          .command (.statFile 2) (answersWith (.bytes (ascii ['/', 'x']))),
          .command (.mkdir 2) (answersWith (.bytes (ascii ['/', 'x'])))] c'.thread := by
  obtain ⟨c', hrun, hserving⟩ : ∃ c' : Connection File, run (Connection.serve plainServer)
      (.start { sent := [], script := [] } mixedSession)
      (List.replicate 3 ⟨.full, .full, answersWith .error⟩) = some c' ∧
      c'.thread.phase = .serving := ⟨_, rfl, rfl⟩
  have hchecked : ∀ p ∈ mixedSession.zip
      (List.replicate 3 (⟨.full, .full, answersWith .error⟩ : Turn File)), p.2.Checked p.1 := by
    rintro ⟨r, t⟩ hmem
    rw [List.eq_of_mem_replicate (List.of_mem_zip hmem).2]
    exact fun h => ReadOutcome.noConfusion h.2
  rcases connection_sound hchecked hrun hserving with ⟨-, hincoming, hinv⟩
  exact ⟨c', hrun, hincoming, hinv⟩

end Ps3Netsrv.Wire
