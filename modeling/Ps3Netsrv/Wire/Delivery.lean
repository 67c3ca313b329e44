import Ps3Netsrv.Session.Classes
import Ps3Netsrv.Wire.Reader

/-!
# What a console receives of an image

To a console the whole server is a reader with one image at a time.  This module describes
that reader, which knows of no objects, positions or buffers, and shows that the replies of a
connection are its replies: the bytes that READ_FILE and the critical reads deliver are
those of the file that the last OPEN_FILE showed, at the place that was asked for.

Main results:

- Definition {lit}`Shows`: what a reply says about the view.
- Definition {lit}`imageReader`: the reader.
- Theorem {lit}`connection_delivers`: the replies of a connection are its replies.
-/

namespace Ps3Netsrv.Wire

open Lib

variable {σ : Type} {C : ImageClass σ}

/-! ## The reader -/

/-- What the reply to a command says about what is shown before and after it: OPEN_FILE
tells the size of what it shows; READ_FILE sends a piece of the image, or that there is none;
the critical reads send exactly what was asked for, with zeros behind the end. -/
def Shows (view after : Option View) : (cmd : NetisoCmd) → ReplyOf cmd → Prop
  | .openFile _, reply =>
      reply.1 = UInt64.ofNat ((after.map fun v => v.image.length).getD none64)
  | .readFile offset numBytes, ⟨n, data⟩ =>
      (n = UInt32.ofNat none32 ∧ data.1 = []) ∨
        ∃ v, view = some v ∧ data.1 <+: v.image.drop offset.toNat ∧
          data.1.length ≤ numBytes.toNat ∧ n.toNat = data.1.length
  | .readFileCritical offset numBytes, data =>
      ∃ v, view = some v ∧ data.1 = padded 0 v.image offset.toNat numBytes.toNat
  | .readCd2048Critical start count, data =>
      ∃ v, view = some v ∧
        data.1 = sectorBlocks v.image v.sectorSize.toNat start.toNat count.toNat
  | _, _ => True

/-- The reader of images of a class. -/
def imageReader (C : ImageClass σ) (rootDirectory : Bytes) : Reader σ where
  View := Option View
  view s := s.client.view C
  Inv s := s.client.Fits C
  after := viewAfter C rootDirectory
  Replies view a cmd reply := Shows view (viewAfter C rootDirectory view cmd a) cmd reply

/-! ## One command -/

/-- The reply to a command that succeeds. -/
theorem serveCmd_shows {rootDirectory : Bytes} {keys : DiscKeys} {a : Answers σ}
    {s s' : Session σ} {cmd : NetisoCmd} {reply : ReplyOf cmd} (hfits : s.client.Fits C)
    (h : serveCmd (C.server rootDirectory keys) a s cmd = .ok (.succeeded, s'))
    (hsent : s'.client.s.sent = s.client.s.sent ++ (replyCodec cmd).encode reply) :
    Shows (s.client.view C) (viewAfter C rootDirectory (s.client.view C) cmd a) cmd reply := by
  cases cmd with
  | openFile len =>
      rcases processOpenCmd_view h with ⟨-, -, mtime, hopened⟩
      rw [hsent, openResult, ← encode_u64_ofNat, ← encode_u64_ofNat] at hopened
      exact (Codec.encode_append_inj _ (List.append_cancel_left hopened)).1
  | readFile offset numBytes =>
      rcases reply with ⟨n, data⟩
      rcases processReadFileCmd_shows (Except.ok.inj h) with
        hnone | ⟨o, bytes, hro, hpre, hlen, hsmall, hbytes⟩
      · rw [hsent, intResult, ← encode_u32_ofNat, ← List.append_nil (Codec.u32.encode _)] at hnone
        exact Or.inl (Codec.encode_append_inj Codec.u32 (List.append_cancel_left hnone))
      · rw [hsent, intResult, ← encode_u32_ofNat] at hbytes
        rcases Codec.encode_append_inj Codec.u32 (List.append_cancel_left hbytes) with
          ⟨hn, hdata⟩
        have hn' : n = UInt32.ofNat bytes.length := hn
        have hdata' : data.1 = bytes := hdata
        refine Or.inr ⟨_, by rw [Client.view, hro]; rfl, ?_⟩
        rw [hdata']
        refine ⟨hpre, hlen, ?_⟩
        rw [hn', UInt32.toNat_ofNat', Nat.mod_eq_of_lt]
        exact lt_of_le_of_lt hsmall (by decide)
  | readFileCritical offset numBytes =>
      rcases Prod.mk.inj (Except.ok.inj h) with ⟨hstatus, rfl⟩
      rcases processReadFileCritical_shows hfits (Prod.ext hstatus rfl) with ⟨o, hro, hbytes⟩
      refine ⟨_, by rw [Client.view, hro]; rfl, ?_⟩
      exact List.append_cancel_left (hsent.symm.trans hbytes)
  | readCd2048Critical start count =>
      rcases Prod.mk.inj (Except.ok.inj h) with ⟨hstatus, rfl⟩
      rcases processReadCd2048CriticalCmd_shows hfits (Prod.ext hstatus rfl) with
        ⟨o, hro, hbytes⟩
      refine ⟨_, by rw [Client.view, hro]; rfl, ?_⟩
      exact List.append_cancel_left (hsent.symm.trans hbytes)
  | _ => trivial

/-- The server is this reader. -/
theorem imageReader_describes (C : ImageClass σ) (rootDirectory : Bytes) (keys : DiscKeys) :
    (imageReader C rootDirectory).Describes (C.server rootDirectory keys) where
  initial _ _ ho := by cases ho
  step hfits _ hserve := (serveCmd_view hfits hserve).symm
  replied hfits _ hserve hsent := serveCmd_shows hfits hserve hsent

/-! ## Connections -/

/-- The reads of a class store no more than they are asked for. -/
theorem readsWithin_class (C : ImageClass σ) : ReadsWithin C.toAbstractFile := by
  intro o n d hd
  have hread : C.read o n = (some d, (C.read o n).2) := Prod.ext hd rfl
  exact (C.read_prefix hread).2.1

/-- However many turns a thread takes, the console that reads its stream finds the replies of
the reader to the first of its requests. -/
theorem connection_delivers {rootDirectory : Bytes} {keys : DiscKeys}
    {script : List (Option Nat)} {rs : List Request} {turns : List (Turn σ)}
    {c' : Connection σ} (hchecked : ∀ p ∈ rs.zip turns, p.2.Checked p.1)
    (hhost : ∀ p ∈ rs.zip turns, p.2.Hosted p.1)
    (hrun : run (Connection.serve (C.server rootDirectory keys))
      (.start { sent := [], script } rs) turns = some c') :
    ∃ served exchanges tail, served ≤ rs.length ∧
      decodeSeq replyCodec ((rs.take served).map Request.cmd) c'.thread.session.client.s.sent =
        some (exchanges, tail) ∧
      (imageReader C rootDirectory).Follows none (executions (rs.take served) turns) exchanges ∧
      (c'.thread.phase = .serving → turns.length = served ∧ tail = []) ∧
      (tail ≠ [] → turns.length = served + 1 ∧ served < rs.length) :=
  connection_follows (imageReader_describes C rootDirectory keys) (readsWithin_class C) hchecked
    hhost hrun

/-! ## A short session -/

/-- A host on which every path is a file of three bytes. -/
def threeBytesTurn : Turn ((image : Bytes) × PlainFile image) where
  header := .full
  payload := .full
  answers :=
    { disk := emptyFilesDisk
      received := .error
      pathBuffer := true
      memory := []
      transferBuffer := []
      openImage := fun _ _ => some ⟨[1, 2, 3], PlainFile.opened [1, 2, 3] .identity⟩
      written := none
      unlinks := fun _ => false
      makesDir := fun _ => false
      removesDir := fun _ => false
      granted := fun _ => true
      scratch := true
      stale := 0
      stackDepth := 1
      staleStat := zeroStat
      staleResult := zeroStat }

/-- Open {lit}`/x`, read it from its second byte on, and read on behind its end. -/
def shortSession : List Request :=
  [openingRequest,
    { cmd := .readFile 1 9, known := trivial, payload := [], length_payload := List.length_nil },
    { cmd := .readFile 5 9, known := trivial, payload := [], length_payload := List.length_nil }]

/-- What is delivered in that session. -/
theorem connection_delivers_short :
    ∃ c' exchanges, run (Connection.serve (plainClass.server (ascii ['/', 's']) noKeys))
        (.start { sent := [], script := [] } shortSession)
        (List.replicate 3 threeBytesTurn) = some c' ∧
      decodeSeq replyCodec (shortSession.map Request.cmd) c'.thread.session.client.s.sent =
        some (exchanges, []) ∧
      (imageReader plainClass (ascii ['/', 's'])).Follows none
        (executions shortSession (List.replicate 3 threeBytesTurn)) exchanges := by
  obtain ⟨c', hrun, hserving⟩ : ∃ c',
      run (Connection.serve (plainClass.server (ascii ['/', 's']) noKeys))
        (.start { sent := [], script := [] } shortSession)
        (List.replicate 3 threeBytesTurn) = some c' ∧ c'.thread.phase = .serving := ⟨_, rfl, rfl⟩
  have hturns : ∀ p ∈ shortSession.zip (List.replicate 3 threeBytesTurn), p.2 = threeBytesTurn := by
    rintro ⟨r, t⟩ hmem
    exact List.eq_of_mem_replicate (List.of_mem_zip hmem).2
  have hchecked : ∀ p ∈ shortSession.zip (List.replicate 3 threeBytesTurn),
      p.2.Checked p.1 := by
    intro p hp
    rw [hturns p hp]
    exact fun h => ReadOutcome.noConfusion h.2
  have hhost : ∀ p ∈ shortSession.zip (List.replicate 3 threeBytesTurn), p.2.Hosted p.1 := by
    intro p hp
    rw [hturns p hp]
    refine ⟨fun path st hst => ?_, fun _ => rfl⟩
    cases hst
    decide
  rcases connection_delivers hchecked hhost hrun with
    ⟨served, exchanges, tail, hle, hdecode, hdelivered, hgoes, -⟩
  rcases hgoes hserving with ⟨hserved, rfl⟩
  obtain rfl : 3 = served := hserved
  exact ⟨c', exchanges, hrun, hdecode, hdelivered⟩

end Ps3Netsrv.Wire
