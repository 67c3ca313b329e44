import Ps3Netsrv.VIsoFile.Stages

/-!
# The exits of a failed open

An open that returns {lit}`FAILED` has gone through some of the stages of {lit}`build` and
leaves the object as the last of them had it.  The loops over the files and over the
contents of the directories have counted sectors by then; the exit of the path tables is the
only one that clears the counters.

Main results:

- Theorem {lit}`buildContents_eq_error`: the directories in front of the one that fails are
  built.
- Theorem {lit}`build_eq_failed`: where a failing {lit}`build` has stopped.
- Theorem {lit}`openImage_eq_failed`: where a failing {lit}`open` has.
-/

namespace Ps3Netsrv.VIso

open Lib

/-! ## Failing steps -/

@[simp]
theorem orKeep_eq_error {α : Type*} {v left : VIsoFile} {r : Except Err α} {e : Err} :
    orKeep v r = .error (e, left) ↔ r = .error e ∧ left = v := by
  cases r <;> simp [orKeep, Except.mapError, eq_comm]

@[simp]
theorem pure_ne_error {ε α : Type*} (a : α) (e : ε) : (pure a : Except ε α) ≠ .error e := nofun

theorem deref_ne_failed {α : Type*} (p : Option α) : deref p ≠ .error .failed := by
  cases p <;> simp [deref]

theorem orFault_ne_failed {α : Type*} (r : Except Fault α) : orFault r ≠ .error .failed := by
  cases r <;> simp [orFault, Except.mapError]

/-- No counter has counted a sector. -/
def VIsoFile.NothingCounted (v : VIsoFile) : Prop :=
  v.filesSizeSectors = 0 ∧ v.dirsSizeSectors = 0 ∧ v.dirsSizeSectorsJoliet = 0

/-! ## The stages of build -/

/-- Linking fails at a pointer, or because the parent has no record of the directory. -/
theorem linkAndStore_eq_error {v : VIsoFile} {i : Nat} {joliet : Bool} {content : Bytes}
    {e : Err} :
    linkAndStore v i joliet content = .error e ↔
      deref v.rootList[i]? = .error e ∨ ∃ d, v.rootList[i]? = some d ∧ d.parent ≠ i ∧
        (deref v.rootList[d.parent]? = .error e ∨ ∃ parent, v.rootList[d.parent]? = some parent ∧
          (deref (parent.contentIn joliet) = .error e ∨ ∃ parentContent,
            parent.contentIn joliet = some parentContent ∧
              linkContent joliet d.fileName parentContent (extentOf content) = .error e)) := by
  simp only [linkAndStore, bind_eq_error, deref_eq_ok]
  refine or_congr_right (exists_congr fun d => and_congr_right fun _ => ?_)
  by_cases hroot : d.parent = i
  · simp [hroot]
  · rw [if_neg hroot, and_iff_right hroot]
    simp only [bind_eq_error, deref_eq_ok, pure_ne_error, and_false, exists_false, or_false]

/-- The directories in front of the one that fails are built. -/
theorem buildContents_eq_error {h : Calls} {joliet : Bool} {count i : Nat} {v left : VIsoFile}
    {e : Err} (hfails : buildContents h joliet count i v = .error (e, left)) :
    ∃ k < count, buildContents h joliet k i v = .ok left ∧
      buildContent (h.sub (i + k)) left (i + k) joliet = .error e := by
  induction count generalizing i v with
  | zero => cases hfails
  | succ count ih =>
      simp only [buildContents, bind_eq_error, orKeep_eq_error, orKeep_eq_ok] at hfails
      rcases hfails with ⟨hone, rfl⟩ | ⟨v₁, hone, hrest⟩
      · exact ⟨0, Nat.succ_pos _, rfl, hone⟩
      · rcases ih hrest with ⟨k, hk, hbuilt, hlast⟩
        refine ⟨k + 1, Nat.succ_lt_succ hk, ?_, ?_⟩
        · simp only [buildContents, bind_eq_ok, orKeep_eq_ok]
          exact ⟨v₁, hone, hbuilt⟩
        · rw [show i + (k + 1) = i + 1 + k by omega]
          exact hlast

/-- When all are built, so is each of them behind those in front of it. -/
theorem buildContents_reaches {h : Calls} {joliet : Bool} {count i k : Nat} {v v' : VIsoFile}
    (hk : k < count) (hbuild : buildContents h joliet count i v = .ok v') :
    ∃ v₁ v₂, buildContents h joliet k i v = .ok v₁ ∧
      buildContent (h.sub (i + k)) v₁ (i + k) joliet = .ok v₂ := by
  induction count generalizing i v k with
  | zero => omega
  | succ count ih =>
      simp only [buildContents, bind_eq_ok, orKeep_eq_ok] at hbuild
      rcases hbuild with ⟨v₁, hone, hrest⟩
      rcases k with _ | k
      · exact ⟨v, v₁, rfl, hone⟩
      · rcases ih (Nat.lt_of_succ_lt_succ hk) hrest with ⟨w, w', hbuilt, hnext⟩
        refine ⟨w, w', ?_, ?_⟩
        · simp only [buildContents, bind_eq_ok, orKeep_eq_ok]
          exact ⟨v₁, hone, hbuilt⟩
        · rw [show i + (k + 1) = i + 1 + k by omega]
          exact hnext

/-- A path table that cannot be built clears the object. -/
theorem buildPathTables_eq_error {v left : VIsoFile} {e : Err}
    (h : buildPathTables v = .error (e, left)) : left = v.reset := by
  have htable : ∀ msb joliet,
      (buildPathTable v.rootList msb joliet).mapError (fun e => (e, v.reset)) = .error (e, left) →
        left = v.reset := by
    intro msb joliet he
    cases ht : buildPathTable v.rootList msb joliet with
    | error e' =>
        rw [ht] at he
        cases he
        rfl
    | ok t =>
        rw [ht] at he
        cases he
  simp only [buildPathTables, bind_eq_error, pure_ne_error, and_false, exists_false,
    or_false] at h
  rcases h with h | ⟨-, -, h | ⟨-, -, h | ⟨-, -, h⟩⟩⟩
  · exact htable _ _ h
  · exact htable _ _ h
  · exact htable _ _ h
  · exact htable _ _ h

/-- The relocation has no exit of its own. -/
theorem fixLba_ne_failed (v : VIsoFile) (isoLba jolietLba filesLba : Nat) :
    fixLba v isoLba jolietLba filesLba ≠ .error .failed := by
  have hcontents : ∀ dirs, fixContents isoLba jolietLba filesLba dirs ≠ .error .failed := by
    intro dirs
    induction dirs with
    | nil => exact nofun
    | cons d dirs ih =>
        simp only [fixContents, ne_eq, bind_eq_error, deref_ne_failed, orFault_ne_failed, ih,
          pure_ne_error, and_false, exists_false, or_false, not_false_eq_true]
  simp only [fixLba, ne_eq, bind_eq_error, hcontents, deref_ne_failed, orFault_ne_failed,
    pure_ne_error, and_false, exists_false, or_false, not_false_eq_true]

/-- A tree that cannot be listed: the loop over its directories has not counted anything, that
over their files has. -/
theorem listTree_eq_error {h : Calls} {fuel : Nat} {v left : VIsoFile} {inDir : Bytes} {e : Err}
    (hfails : listTree h fuel v inDir = .error (e, left)) :
    (∃ dirs, left = { v with rootList := dirs }) ∨
      ∃ root dirs sectors, dupString inDir (u16 inDir.length) = .ok root ∧
        listDirectories (h.sub 0) fuel 0 [rootNode root] = .ok dirs ∧
        listAllFiles (h.sub 1) 0 dirs v.filesSizeSectors = .error (e, sectors) ∧
        left = { v with rootList := dirs, filesSizeSectors := sectors } := by
  simp only [listTree, bind_eq_error, orKeep_eq_error, orKeep_eq_ok] at hfails
  rcases hfails with ⟨-, rfl⟩ | ⟨root, hroot, ⟨-, rfl⟩ | ⟨dirs, hdirs, hfiles⟩⟩
  · exact Or.inl ⟨left.rootList, rfl⟩
  · exact Or.inl ⟨_, rfl⟩
  · cases hall : listAllFiles (h.sub 1) 0 dirs v.filesSizeSectors with
    | ok r =>
        rw [hall] at hfiles
        cases hfiles
    | error r =>
        rw [hall] at hfiles
        cases hfiles
        exact Or.inr ⟨root, dirs, r.2, hroot, hdirs, hall, rfl⟩

/-- Where a failing {lit}`build` has stopped. -/
theorem build_eq_failed {h : Calls} {fuel : Nat} {v left : VIsoFile} {inDir : Bytes}
    (hfails : build h fuel v inDir = .error (.failed, left)) :
    left = v ∨ 1 ≤ u16 inDir.length ∧
      (listTree h fuel v inDir = .error (.failed, left) ∨
      ∃ listed, listTree h fuel v inDir = .ok listed ∧
        (buildContents (h.sub 2) false listed.rootList.length 0 listed = .error (.failed, left) ∨
        ∃ withIso,
          buildContents (h.sub 2) false listed.rootList.length 0 listed = .ok withIso ∧
          (buildContents (h.sub 3) true withIso.rootList.length 0 withIso =
              .error (.failed, left) ∨
            left.NothingCounted))) := by
  unfold build at hfails
  by_cases hlen : u16 inDir.length < 1
  · rw [if_pos hlen] at hfails
    cases hfails
    exact Or.inl rfl
  · rw [if_neg hlen] at hfails
    refine Or.inr ⟨not_lt.mp hlen, ?_⟩
    simp only [bind_eq_error, orKeep_eq_error] at hfails
    rcases hfails with hlist | ⟨listed, hlist, hfails⟩
    · exact Or.inl hlist
    · refine Or.inr ⟨listed, hlist, ?_⟩
      rcases hfails with hiso | ⟨withIso, hiso, hfails⟩
      · exact Or.inl hiso
      · refine Or.inr ⟨withIso, hiso, ?_⟩
        rcases hfails with hjoliet | ⟨withJoliet, -, htables | ⟨withTables, -, hfix, -⟩⟩
        · exact Or.inl hjoliet
        · rw [buildPathTables_eq_error htables]
          exact Or.inr ⟨rfl, rfl, rfl⟩
        · exact absurd hfix (fixLba_ne_failed _ _ _ _)

/-- Where a failing {lit}`open` has stopped: it has found the object as it is, it has closed it
only, {lit}`build` has failed, or the image was not written. -/
theorem openImage_eq_failed {h : Calls} {fuel : Nat} {v left : VIsoFile} {path : Bytes}
    {flags : Nat} (hfails : openImage h fuel v path flags = .error (.failed, left)) :
    left = v ∨ (∃ st, left = { v.close.2 with st := st }) ∨ left.fsBuf ≠ none ∨
      flags = oRdonly ∧ ∃ st names st', (h [0]).statFile path = some st ∧
        st.mode / S_IFDIR % 2 ≠ 0 ∧
        namesOf (h [1]) { v.close.2 with st := some st } path = .ok names ∧
        (h [2, 0]).statFile path = some st' ∧
        build ((h.sub 2).sub 1) fuel { v.close.2 with st := some st' } path =
          .error (.failed, left) := by
  unfold openImage at hfails
  by_cases hflags : flags = oRdonly
  · rw [if_neg (not_not.mpr hflags)] at hfails
    simp only [bind_eq_error, orKeep_eq_error, orKeep_eq_ok, orFail_eq_ok] at hfails
    rcases hfails with ⟨-, rfl⟩ | ⟨st, hstat, hfails⟩
    · exact Or.inr (Or.inl ⟨v.close.2.st, rfl⟩)
    · by_cases hdir : st.mode / S_IFDIR % 2 = 0
      · rw [if_pos hdir] at hfails
        cases hfails
        exact Or.inr (Or.inl ⟨_, rfl⟩)
      · rw [if_neg hdir] at hfails
        simp only [bind_eq_error, orKeep_eq_error, orKeep_eq_ok] at hfails
        rcases hfails with ⟨-, rfl⟩ | ⟨names, hnames, hgenerate⟩
        · exact Or.inr (Or.inl ⟨_, rfl⟩)
        · rw [generate] at hgenerate
          cases hstat' : (h [2, 0]).statFile path with
          | none =>
              rw [show ((h.sub 2) [0]).statFile path = none from hstat'] at hgenerate
              cases hgenerate
          | some st' =>
              rw [show ((h.sub 2) [0]).statFile path = some st' from hstat'] at hgenerate
              simp only [bind_eq_error, orKeep_eq_error] at hgenerate
              rcases hgenerate with hbuild | ⟨built, -, -, rfl⟩
              · exact Or.inr (Or.inr (Or.inr ⟨hflags, st, names, st', hstat, hdir, hnames, rfl,
                  hbuild⟩))
              · exact Or.inr (Or.inr (Or.inl (Option.some_ne_none _)))
  · rw [if_pos hflags] at hfails
    cases hfails
    exact Or.inl rfl

end Ps3Netsrv.VIso
