import Ps3Netsrv.Session.Images
import Ps3Netsrv.Session.Invariant

/-!
# What a console sees

A session shows its console the bytes of one image, in sectors of one size, or nothing.
OPEN_FILE chooses what is shown, and no other command changes it.

Main results:

- Structure {lit}`View`: what is shown.
- Theorem {lit}`processReadFileCmd_shows`: what READ_FILE sends of it.
- Theorem {lit}`serveCmd_view`: a command that succeeds changes the view as
  {lit}`viewAfter` says.
-/

namespace Ps3Netsrv

open Lib

variable {σ : Type} {C : ImageClass σ}

/-! ## Views -/

/-- An image, and the size of its raw sectors. -/
structure View where
  image : Bytes
  sectorSize : UInt16
deriving DecidableEq

/-- What a client record shows. -/
def Client.view (C : ImageClass σ) (client : Client (Object σ)) : Option View :=
  client.roFile.map fun o => { image := C.image o.file, sectorSize := client.cdSectorSize }

/-- A server whose objects are of this class. -/
def ImageClass.server (C : ImageClass σ) (rootDirectory : Bytes) (keys : DiscKeys) : Server σ where
  F := C.toAbstractFile
  rootDirectory := rootDirectory
  keys := keys

/-- What an OPEN_FILE shows: nothing when its path closes the image or is refused, and else
the file that the host opens. -/
def openedView (C : ImageClass σ) (rootDirectory : Bytes) (a : Answers σ) (len : UInt16) :
    Option View :=
  if len = 10 ∧ receivedPath a len = closeFilePath then none
  else
    match translatePath a.disk.toFileSystem rootDirectory (receivedPath a len) true with
    | .ok (some (p, viso)) =>
        (a.openImage p.path viso).map fun image =>
          { image := C.image image
            sectorSize :=
              (detectSectorSize C.toAbstractFile image (C.image image).length a.transferBuffer).1 }
    | _ => none

/-- What is shown after a command that succeeds. -/
def viewAfter (C : ImageClass σ) (rootDirectory : Bytes) (view : Option View) (cmd : NetisoCmd)
    (a : Answers σ) : Option View :=
  match cmd with
  | .openFile len => openedView C rootDirectory a len
  | _ => view

/-! ## READ_FILE -/

/-- {lit}`process_read_file_cmd` sends a piece of the open image, or that there is none. -/
theorem processReadFileCmd_shows {rootDirectory : Bytes} {keys : DiscKeys} {s s' : Session σ}
    {offset : UInt64} {numBytes : UInt32}
    (h : processReadFileCmd (C.server rootDirectory keys) s offset numBytes = (.succeeded, s')) :
    s'.client.s.sent = s.client.s.sent ++ intResult none32 ∨
      ∃ o data, s.client.roFile = some o ∧ data <+: (C.image o.file).drop offset.toNat ∧
        data.length ≤ numBytes.toNat ∧ data.length ≤ bufferSize ∧
        s'.client.s.sent = s.client.s.sent ++ (intResult data.length ++ data) := by
  have hnone : ∀ {m : Session σ}, m.client.s = s.client.s →
      m.replyWith (intResult none32) [] = (.succeeded, s') →
        s'.client.s.sent = s.client.s.sent ++ intResult none32 := by
    intro m hm hreply
    rw [(Session.replyWith_succeeded hreply).sent, hm, List.append_nil]
  unfold processReadFileCmd at h
  split at h
  · rename_i o hro hbuf
    simp only at h
    split at h
    · exact Or.inl (hnone rfl h)
    · rename_i hsize
      split at h
      · exact Or.inl (hnone (by rfl) h)
      · rename_i hsought
        split at h
        · exact Or.inl (hnone (by rfl) h)
        · rename_i data hdata
          have hoff := (C.seek_ok o.file _).mp (not_lt.mp hsought)
          have hread : C.read (C.seek o.file (i64 offset.toNat)).2 numBytes.toNat =
              (some data, (C.read (C.seek o.file (i64 offset.toNat)).2 numBytes.toNat).2) :=
            Prod.ext hdata rfl
          rcases C.read_prefix hread with ⟨hpre, hlen, -⟩
          rw [C.seek_image, C.seek_position _ _ hoff, i64_of_lt (i64_nonneg hoff),
            Int.toNat_natCast] at hpre
          refine Or.inr ⟨o, data, hro, hpre, hlen, hlen.trans (not_lt.mp hsize), ?_⟩
          rw [(Session.replyWith_succeeded h).sent]
  · exact Or.inl (hnone rfl h)

/-! ## The view after a command -/

/-- Moves keep what is shown. -/
theorem Client.Moves.view {client client' : Client (Object σ)}
    (h : Client.Moves C.onObjects client client') :
    client'.view C = client.view C ∧ client'.roFileSize = client.roFileSize := by
  refine h.keep (P := fun m => m.view C = client.view C ∧ m.roFileSize = client.roFileSize)
    (fun m m' hm hmove => ?_) ⟨rfl, rfl⟩
  rcases hm with ⟨hview, hsize⟩
  cases hmove with
  | send bytes => exact ⟨hview, hsize⟩
  | log => exact ⟨hview, hsize⟩
  | read hro n =>
      refine ⟨?_, hsize⟩
      rw [← hview, Client.view, Client.view, hro]
      exact congrArg (fun image => some (View.mk image m.cdSectorSize)) (C.read_image _ n)
  | seek hro offset =>
      refine ⟨?_, hsize⟩
      rw [← hview, Client.view, Client.view, hro]
      exact congrArg (fun image => some (View.mk image m.cdSectorSize)) (C.seek_image _ offset)

/-- The size that fits is that of the view. -/
theorem Client.fits_iff {client : Client (Object σ)} :
    client.Fits C ↔ ∀ v, client.view C = some v → client.roFileSize = v.image.length := by
  constructor
  · rintro h v hv
    rcases Option.map_eq_some_iff.mp hv with ⟨o, hro, rfl⟩
    exact h o hro
  · intro h o hro
    exact h _ (by rw [Client.view, hro]; rfl)

/-- The probe for the sector size does not change the image. -/
theorem ImageClass.probeSectorSizes_image (sizes : List UInt16) (o : σ) (buffer : Bytes) :
    C.image (probeSectorSizes C.toAbstractFile sizes o buffer).2 = C.image o := by
  induction sizes generalizing o buffer with
  | nil => rfl
  | cons size sizes ih =>
      have hchoice : ∀ (found : Prop) [Decidable found] (x y : Bool × Bytes × σ),
          C.image x.2.2 = C.image o → C.image y.2.2 = C.image o →
            C.image (if found then x else y).2.2 = C.image o := by
        intro found _ x y hx hy
        split
        · exact hx
        · exact hy
      have hprobe : C.image (probeSectorSize C.toAbstractFile o buffer size).2.2 = C.image o := by
        refine hchoice _ _ _ ?_ ?_
        · exact (C.read_image _ _).trans (C.seek_image _ _)
        · exact (C.read_image _ _).trans ((C.read_image _ _).trans (C.seek_image _ _))
      rw [probeSectorSizes]
      split
      · exact hprobe
      · rw [ih, hprobe]

/-- Nor does the detection. -/
theorem ImageClass.detectSectorSize_image (o : σ) (fileSize : Nat) (buffer : Bytes) :
    C.image (detectSectorSize C.toAbstractFile o fileSize buffer).2 = C.image o := by
  unfold detectSectorSize
  split
  · exact C.probeSectorSizes_image _ _ _
  · rfl

/-- An OPEN_FILE that succeeds shows what its path leads to, and says how long that is. -/
theorem processOpenCmd_view {rootDirectory : Bytes} {keys : DiscKeys} {a : Answers σ}
    {s s' : Session σ} {len : UInt16}
    (h : processOpenCmd (C.server rootDirectory keys) a s len = .ok (.succeeded, s')) :
    s'.client.view C = openedView C rootDirectory a len ∧ s'.client.Fits C ∧
      ∃ mtime, s'.client.s.sent = s.client.s.sent ++
        openResult (((openedView C rootDirectory a len).map fun v => v.image.length).getD none64)
          mtime := by
  unfold processOpenCmd at h
  simp only at h
  split at h
  · exact (Session.reply_failed (Except.ok.inj h)).elim
  · split at h
    · rename_i hclose
      have hreply := (Session.reply_succeeded (Except.ok.inj h)).2
      have hview : openedView C rootDirectory a len = none := if_pos hclose
      rw [hview]
      refine ⟨?_, ?_, 0, hreply.sent⟩
      · rw [hreply.same]
        rfl
      · rw [hreply.same]
        intro o ho
        cases ho
    · rename_i hclose
      rcases map_eq_ok.mp h with ⟨translated, htranslated, hrest⟩
      rcases translated with _ | ⟨p, viso⟩
      · exact (Session.reply_failed hrest).elim
      · simp only at hrest
        unfold openTranslated at hrest
        simp only at hrest
        split at hrest
        · exact (Session.reply_failed hrest).elim
        · rename_i image hopen
          split at hrest
          · exact (Session.reply_failed hrest).elim
          · rename_i st hst
            have hreply := (Session.reply_succeeded hrest).2
            have hsize : st.fileSize = (C.image image).length := C.fstat_size hst
            have hview : openedView C rootDirectory a len =
                some { image := C.image image
                       sectorSize := (detectSectorSize C.toAbstractFile image
                        (C.image image).length a.transferBuffer).1 } := by
              have htranslated' : translatePath a.disk.toFileSystem rootDirectory
                  (receivedPath a len) true = .ok (some (p, viso)) := htranslated
              refine (if_neg hclose).trans ?_
              rw [htranslated']
              simp only [hopen, Option.map_some]
            rw [hview]
            refine ⟨?_, ?_, st.mtime, ?_⟩
            · rw [hreply.same, ← hsize]
              exact congrArg (fun bytes => some (View.mk bytes _))
                (C.detectSectorSize_image image st.fileSize a.transferBuffer)
            · rw [hreply.same]
              rintro o ho
              cases ho
              exact hsize.trans (congrArg List.length
                (C.detectSectorSize_image image st.fileSize a.transferBuffer).symm)
            · rw [hreply.sent, hsize]
              rfl

/-- A command that succeeds changes the view as it should, and the recorded size with it. -/
theorem serveCmd_view {rootDirectory : Bytes} {keys : DiscKeys} {a : Answers σ}
    {s s' : Session σ} {cmd : NetisoCmd} (hfits : s.client.Fits C)
    (h : serveCmd (C.server rootDirectory keys) a s cmd = .ok (.succeeded, s')) :
    s'.client.view C = viewAfter C rootDirectory (s.client.view C) cmd a ∧ s'.client.Fits C := by
  by_cases hopen : ∃ len, cmd = .openFile len
  · rcases hopen with ⟨len, rfl⟩
    rcases processOpenCmd_view h with ⟨hview, hfits', -⟩
    exact ⟨hview, hfits'⟩
  · have hmoves := serveCmd_moves (fun len heq => hopen ⟨len, heq⟩) h
    rcases Client.Moves.view (C := C) hmoves with ⟨hview, hsize⟩
    refine ⟨?_, ?_⟩
    · rw [hview]
      cases cmd with
      | openFile len => exact absurd ⟨len, rfl⟩ hopen
      | _ => rfl
    · rw [Client.fits_iff, hview, hsize]
      exact Client.fits_iff.mp hfits

end Ps3Netsrv
