import Ps3Netsrv.VIsoFile.Layout

/-!
# Finding a subdirectory under its name

{lit}`buildContent` writes the record of a subdirectory into its parent's content, and finds
it again under the directory's name when the directory itself is built.  The record is made
with a name cut at 254 bytes and the search with one cut at 204, and the length of the record
is computed in eight bits.

Main results:

- Definition {lit}`NameFits`: the names for which the two agree.
- Theorem {lit}`subdirectoriesFound_iff`: every subdirectory is found under its name exactly
  when the names of all of them fit.
- Theorem {lit}`longName_not_found`: a directory with a name of 205 bytes cannot be built.
-/

namespace Ps3Netsrv.VIso

open Lib

/-! ## Names -/

/-- A name that a host allows in a directory. -/
structure HostName (name : Bytes) : Prop where
  nonempty : 0 < name.length
  short : name.length ≤ 255
  noNul : 0 ∉ name
  noSlash : slash ∉ name

/-- A name whose record is found again.  In the ISO hierarchy it is short enough for the
search and is not the identifier of {lit}`..`; in the Joliet one its conversion stays within
it and leaves room for the record's length in eight bits. -/
def NameFits (joliet : Bool) (name : Bytes) : Prop :=
  if joliet then ∃ m, characters (maxIsoDir / 2) name = some m ∧ m ≤ 107
  else name.length ≤ maxIsoName - 3 ∧ name ≠ [1]

/-- An identifier has at most {lit}`MAX_ISODIR` bytes. -/
theorem length_dirIdentifier {joliet : Bool} {name fi : Bytes}
    (h : dirIdentifier joliet name = .ok fi) : fi.length ≤ 254 := by
  cases joliet with
  | false =>
      cases h
      rw [length_strncpyUpper]
      exact Nat.min_le_left _ _
  | true => exact (length_utf8ToUcs2 h).2

/-- Upper case keeps the bytes that are not letters. -/
theorem toUpper_eq_iff {c k : UInt8} (hk : k < 65) : toUpper c = k ↔ c = k := by
  unfold toUpper
  split
  · rename_i hletter
    have hlow : 97 ≤ c.toNat := UInt8.le_iff_toNat_le.mp hletter.1
    have hhigh : k.toNat < 65 := UInt8.lt_iff_toNat_lt.mp hk
    have hsub : (c - 32).toNat = c.toNat - 32 :=
      UInt8.toNat_sub_of_le c 32 (UInt8.le_iff_toNat_le.mpr (le_trans (by decide) hlow))
    rw [← UInt8.toNat_inj, ← UInt8.toNat_inj, hsub]
    omega
  · exact Iff.rfl

/-- A name that fits is searched for under its identifier, which leaves room for its length and
is not that of the directory itself or of its parent. -/
theorem NameFits.identifier {joliet : Bool} {name : Bytes} (h : NameFits joliet name)
    (hname : HostName name) :
    ∃ fi, dirIdentifier joliet name = .ok fi ∧ lookupKey joliet name = .ok fi ∧
      LengthFits fi.length ∧ fi ≠ [0] ∧ fi ≠ [1] := by
  cases joliet with
  | false =>
      have hlimit : maxIsoName - 3 = 204 := rfl
      rcases h with ⟨hlength, hparent⟩
      have hwhole : ∀ n, 204 ≤ n → strncpyUpper name n = name.map toUpper := by
        intro n hn
        rw [strncpyUpper_eq, List.take_of_length_le (by omega)]
      have hspecial : ∀ k : UInt8, k < 65 → name.map toUpper = [k] → name = [k] := by
        intro k hk heq
        rcases List.map_eq_singleton_iff.mp heq with ⟨c, rfl, hc⟩
        rw [(toUpper_eq_iff hk).mp hc]
      refine ⟨name.map toUpper, congrArg Except.ok (hwhole 254 (by decide)),
        congrArg Except.ok (hwhole 204 le_rfl), ?_, ?_, ?_⟩
      · rw [List.length_map]
        unfold LengthFits
        omega
      · intro heq
        apply hname.noNul
        rw [hspecial 0 (by decide) heq]
        exact List.mem_singleton_self _
      · intro heq
        exact hparent (hspecial 1 (by decide) heq)
  | true =>
      rcases h with ⟨m, hcount, hm⟩
      rcases (characters_eq_some_iff hname.noNul).mp hcount with ⟨fi, hfi, hlength⟩
      refine ⟨fi, hfi, hfi, ?_, ?_, ?_⟩
      · unfold LengthFits
        omega
      · rintro rfl
        simp only [List.length_singleton] at hlength
        omega
      · rintro rfl
        simp only [List.length_singleton] at hlength
        omega

/-! ## The parent -/

/-- Node {lit}`i`, into whose content the records of its subdirectories go: the host answers
and the content has room; its own parent's content has been built; and its subdirectories have
names of the host, of which no two have the same identifier, and none that of a file. -/
structure Builds (h : Calls) (v : VIsoFile) (i : Nat) (joliet : Bool) (d : DirList)
    (children : List DirList) : Prop where
  node : v.rootList[i]? = some d
  children_eq : siblings v.rootList v.rootList.length d.firstChild = .ok children
  recorded : ∃ made, recordsOf h v i joliet = .ok made
  filed : ∃ files : List Bytes, fileRecords (h.sub 2) joliet d.fileList = files.map .ok
  answered : contentOf h v i joliet ≠ .error .failed
  parentBuilt : ∀ parent parentContent, d.parent ≠ i → v.rootList[d.parent]? = some parent →
    parent.contentIn joliet = some parentContent → 33 ≤ parentContent.length
  named : ∀ c ∈ children, HostName c.fileName
  distinct : children.Pairwise fun a b => ∀ fi, dirIdentifier joliet a.fileName = .ok fi →
    dirIdentifier joliet b.fileName ≠ .ok fi
  unfiled : ∀ f ∈ d.fileList, ∀ c ∈ children, ∀ fi,
    fileIdentifier joliet f.fileName f.fileLen = .ok fi → dirIdentifier joliet c.fileName ≠ .ok fi

/-- The record at an offset of a content is found under a name: its lengths hold, and now and
after other subdirectories have been linked the search for the name returns it and the link
overwrites its extent. -/
structure FoundAt (joliet : Bool) (name content : Bytes) (o : Nat) : Prop where
  lengths : ∃ fi, dirIdentifier joliet name = .ok fi ∧ 33 + fi.length ≤ recordLength fi.length ∧
    recordLength fi.length % 2 = 0 ∧ recordLength fi.length ≤ 255
  found : ∀ linked, Relation.ReflTransGen (LinkStep joliet) content linked →
    ∃ key, lookupKey joliet name = .ok key ∧ findDirRecord linked key = .ok (some o)
  links : ∀ linked, Relation.ReflTransGen (LinkStep joliet) content linked →
    ∀ extent, linkContent joliet name linked extent = .ok (patchExtent linked o extent)

/-- The subdirectories are emitted behind the two special records and the files, and each is
found under its name. -/
def SubdirectoriesFound (h : Calls) (v : VIsoFile) (i : Nat) (joliet : Bool) (d : DirList)
    (children : List DirList) : Prop :=
  ∃ (files subdirectories : List Bytes) (content : Bytes),
    fileRecords (h.sub 2) joliet d.fileList = files.map .ok ∧
    childRecords (h.sub 3) joliet children = subdirectories.map .ok ∧
    contentOf h v i joliet = .ok content ∧
    ∀ k c, children[k]? = some c →
      ∃ p, (placed sectorSize 0x50 (files ++ subdirectories))[files.length + k]? = some p ∧
        FoundAt joliet c.fileName content p.1

section Parent

variable {h : Calls} {v : VIsoFile} {i : Nat} {joliet : Bool} {d : DirList}
  {children : List DirList}

/-- The content of a directory whose subdirectories have records of one byte's length. -/
theorem Builds.layout (hbuilds : Builds h v i joliet d children)
    (hfits : ChildrenFit joliet children) {content : Bytes} {files subdirectories : List Bytes}
    (hcontent : contentOf h v i joliet = .ok content)
    (hfiles : fileRecords (h.sub 2) joliet d.fileList = files.map .ok)
    (hsubs : childRecords (h.sub 3) joliet children = subdirectories.map .ok) :
    ∃ dot dotdot, identifierOf dot = [0] ∧ identifierOf dotdot = [1] ∧
      (∀ r ∈ dot :: dotdot :: (files ++ subdirectories), IsRecord r) ∧
      content = inSectors (dot :: dotdot :: (files ++ subdirectories)) ∧
      atOffsets (dot :: dotdot :: (files ++ subdirectories)) =
        (0, dot) :: (0x28, dotdot) :: placed sectorSize 0x50 (files ++ subdirectories) := by
  have hnode := hbuilds.node
  have hchildren := hbuilds.children_eq
  have hfitsAll : ∀ d' children', v.rootList[i]? = some d' →
      siblings v.rootList v.rootList.length d'.firstChild = .ok children' →
        ChildrenFit joliet children' := by
    intro d' children' hd' hchildren'
    rw [hnode, Option.some.injEq] at hd'
    subst hd'
    rw [hchildren, Except.ok.injEq] at hchildren'
    exact hchildren' ▸ hfits
  have hparent : ∀ d' parent parentContent, v.rootList[i]? = some d' → d'.parent ≠ i →
      v.rootList[d'.parent]? = some parent → parent.contentIn joliet = some parentContent →
        33 ≤ parentContent.length := by
    intro d' parent parentContent hd'
    rw [hnode, Option.some.injEq] at hd'
    subst hd'
    exact hbuilds.parentBuilt parent parentContent
  rcases contentOf_inSectors hcontent hfitsAll hparent with ⟨records, hemitted, hrecords, rfl, -⟩
  rcases hemitted with ⟨d', children', dot, dotdot, files', subs', hd', hchildren', hdot, hdotdot,
    hdotName, -, hdotdotName, hfiles', hsubs', rfl⟩
  rw [hnode, Option.some.injEq] at hd'
  subst hd'
  rw [hchildren, Except.ok.injEq] at hchildren'
  subst hchildren'
  rw [map_ok_inj (hfiles'.symm.trans hfiles), map_ok_inj (hsubs'.symm.trans hsubs)] at hrecords ⊢
  refine ⟨dot, dotdot, hdotName, hdotdotName, hrecords, rfl, ?_⟩
  rw [atOffsets, placed, placed, hdot, hdotdot]
  rfl

/-- The record of the subdirectory at a place. -/
theorem exists_childRecord {subdirectories : List Bytes} {calls : Calls} {k : Nat} {c : DirList}
    (hsubs : childRecords calls joliet children = subdirectories.map .ok)
    (hc : children[k]? = some c) :
    ∃ r, subdirectories[k]? = some r ∧ childRecord (calls [k]) joliet c = .ok r := by
  have hmade : (childRecords calls joliet children)[k]? =
      some (childRecord (calls [k]) joliet c) := by
    rw [childRecords, List.getElem?_map, List.getElem?_zipIdx, hc]
    simp
  rw [hsubs, List.getElem?_map, Option.map_eq_some_iff] at hmade
  rcases hmade with ⟨r, hr, hrecord⟩
  exact ⟨r, hr, hrecord.symm⟩

/-- It has the identifier of the subdirectory. -/
theorem identifierOf_childRecord {os : Platform} {c : DirList} {r fi : Bytes}
    (hrecord : childRecord os joliet c = .ok r) (hfi : dirIdentifier joliet c.fileName = .ok fi)
    (hfits : LengthFits fi.length) : identifierOf r = fi := by
  rcases childRecord_eq_ok.mp hrecord with ⟨st, fi', -, hfi', rfl⟩
  rw [hfi, Except.ok.injEq] at hfi'
  subst hfi'
  have hlen := hfits.recordLength_eq
  unfold LengthFits at hfits
  exact identifierOf_directoryRecord (Extent.length_bytes _) (length_genIso9660Time _ _) (by omega)
    (by omega)

/-- A record of a file has the identifier of a file. -/
theorem identifierOf_fileRecords {calls : Calls} {files : List FileList} {records : List Bytes}
    (hmade : fileRecords calls joliet files = records.map .ok) :
    ∀ r ∈ records, ∃ f ∈ files,
      fileIdentifier joliet f.fileName f.fileLen = .ok (identifierOf r) := by
  intro r hr
  have hmem : Except.ok r ∈ fileRecords calls joliet files := hmade ▸ List.mem_map_of_mem hr
  rcases List.mem_flatMap.mp hmem with ⟨fj, hfj, hmem⟩
  rcases List.mem_map.mp hmem with ⟨ei, -, hrecord⟩
  rcases fileRecord_eq_ok.mp hrecord with ⟨st, fi, -, hfi, rfl⟩
  have hlen := length_fileIdentifier hfi
  have hfits : LengthFits fi.length := by
    unfold LengthFits
    omega
  have hrecordLength := hfits.recordLength_eq
  refine ⟨fj.1, List.fst_mem_of_mem_zipIdx hfj, ?_⟩
  rw [identifierOf_directoryRecord (Extent.length_bytes _) (length_genIso9660Time _ _) (by omega)
    (by omega)]
  exact hfi

end Parent

/-! ## What is found fits -/

/-- A length that leaves room for the identifier has not wrapped around. -/
theorem lengthFits_of_le {n : Nat} (hn : n ≤ 254) (h : 33 + n ≤ recordLength n) : LengthFits n := by
  unfold recordLength at h
  unfold LengthFits
  simp only at h
  split at h
  · omega
  · omega

section Found

variable {h : Calls} {v : VIsoFile} {i : Nat} {joliet : Bool} {d : DirList}
  {children : List DirList}

/-- The record of a subdirectory has a place. -/
theorem exists_placed {files subdirectories : List Bytes} {k : Nat} {r : Bytes}
    (hr : subdirectories[k]? = some r) :
    ∃ o, (placed sectorSize 0x50 (files ++ subdirectories))[files.length + k]? = some (o, r) := by
  have hsnd := @getElem?_placed _ sectorSize 0x50 (files ++ subdirectories)
    (files.length + k)
  rw [List.getElem?_append_right (Nat.le_add_right _ _), Nat.add_sub_cancel_left, hr,
    Option.map_eq_some_iff] at hsnd
  rcases hsnd with ⟨⟨o, r'⟩, hplaced, rfl⟩
  exact ⟨o, hplaced⟩

/-- When every subdirectory is found under its name, the names fit. -/
theorem nameFits_of_found (hbuilds : Builds h v i joliet d children)
    (hfound : SubdirectoriesFound h v i joliet d children) :
    ∀ c ∈ children, NameFits joliet c.fileName := by
  rcases hfound with ⟨files, subdirectories, content, hfiles, hsubs, hcontent, hall⟩
  have hfits : ChildrenFit joliet children := by
    intro c hc fi hfi
    rcases List.getElem?_of_mem hc with ⟨k, hk⟩
    rcases hall k c hk with ⟨p, -, hat⟩
    rcases hat.lengths with ⟨fi', hfi', hroom, -⟩
    rw [hfi, Except.ok.injEq] at hfi'
    subst hfi'
    exact lengthFits_of_le (length_dirIdentifier hfi) hroom
  rcases hbuilds.layout hfits hcontent hfiles hsubs with ⟨dot, dotdot, hdot, hdotdot, hrecords,
    rfl, hoffsets⟩
  intro c hc
  rcases List.getElem?_of_mem hc with ⟨k, hk⟩
  rcases hall k c hk with ⟨p, hp, hat⟩
  rcases hat.lengths with ⟨fi, hfi, -⟩
  rcases hat.found _ Relation.ReflTransGen.refl with ⟨key, hkey, hsearch⟩
  have hpMem := List.mem_of_getElem? hp
  have hbehind : 0x50 ≤ p.1 := le_of_mem_placed sectorSize_pos hpMem
  rw [findDirRecord_inSectors hrecords, Except.ok.injEq, Option.map_eq_some_iff] at hsearch
  rcases hsearch with ⟨q, hq, hsame⟩
  -- the search returns this record, so it has the identifier that was searched for
  have hpAll : p ∈ atOffsets (dot :: dotdot :: (files ++ subdirectories)) := by
    rw [hoffsets]
    exact List.mem_cons_of_mem _ (List.mem_cons_of_mem _ hpMem)
  have hqp : q = p :=
    placed_unique sectorSize_pos (fun r hr => (hrecords r hr).tells.1)
      (List.mem_of_find?_eq_some hq) hpAll hsame
  have hidentifier : identifierOf p.2 = fi := by
    rcases exists_childRecord hsubs hk with ⟨r, hr, hrecord⟩
    rcases @exists_placed files _ _ _ hr with ⟨o, ho⟩
    rw [hp, Option.some.injEq] at ho
    rw [ho]
    exact identifierOf_childRecord hrecord hfi (hfits c hc fi hfi)
  have hkeyEq : key = fi := by
    have hmatches := List.find?_some hq
    rw [hqp, hidentifier] at hmatches
    exact (eq_of_beq hmatches).symm
  subst hkeyEq
  cases joliet with
  | false =>
      have hlengths : (strncpyUpper c.fileName 204).length = (strncpyUpper c.fileName 254).length :=
        congrArg List.length (Except.ok.inj (hkey.trans hfi.symm))
      rw [length_strncpyUpper, length_strncpyUpper] at hlengths
      refine ⟨show c.fileName.length ≤ 204 by omega, ?_⟩
      intro hname
      -- the search stops at the record of the parent
      have hone : key = [1] := by
        rw [hname] at hkey
        exact (Except.ok.inj hkey).symm
      rw [hoffsets, List.find?_cons, List.find?_cons, hone] at hq
      simp only [hdot, hdotdot] at hq
      have hsecond : q.1 = 0x28 := (congrArg Prod.fst (Option.some.inj hq)).symm
      omega
  | true =>
      have heven := (length_utf8ToUcs2 hfi).1
      have hlength := hfits c hc key hfi
      unfold LengthFits at hlength
      refine ⟨key.length / 2, (characters_eq_some_iff (hbuilds.named c hc).noNul).mpr
        ⟨key, hfi, by omega⟩, by omega⟩

/-! ## What fits is found -/

/-- Emitting records of which some cannot be made for want of an answer. -/
theorem emitAll_answered {used : Bytes} {made : List (Except Err Bytes)}
    (hmade : ∀ m ∈ made, (∃ r, m = .ok r) ∨ m = .error .failed) :
    (∃ out, emitAll used made = .ok out) ∨ emitAll used made = .error .failed := by
  induction made generalizing used with
  | nil => exact Or.inl ⟨used, rfl⟩
  | cons m ms ih =>
      rw [List.forall_mem_cons] at hmade
      rcases hmade with ⟨⟨r, rfl⟩ | rfl, hms⟩
      · have hemit : (∃ out, emit used r = .ok out) ∨ emit used r = .error .failed := by
          rw [emit]
          split
          · exact Or.inr rfl
          · exact Or.inl ⟨_, rfl⟩
        simp only [emitAll, bind, Except.bind]
        rcases hemit with ⟨out, hout⟩ | hfailed
        · simp only [hout]
          exact ih hms
        · simp only [hfailed, or_true]
      · exact Or.inr rfl

/-- A directory whose subdirectories have identifiers is emitted. -/
theorem Builds.succeeds (hbuilds : Builds h v i joliet d children)
    (hidentifiers : ∀ c ∈ children, ∃ fi, dirIdentifier joliet c.fileName = .ok fi) :
    ∃ content, contentOf h v i joliet = .ok content := by
  rcases hbuilds.recorded with ⟨made, hmade⟩
  have hanswers : ∀ m ∈ made, (∃ r, m = .ok r) ∨ m = .error .failed := by
    rcases recordsOf_eq_ok.mp hmade with ⟨d', parent, st, parentExtent, parentSt, children', hd',
      -, -, -, -, hchildren', rfl⟩
    rw [hbuilds.node, Option.some.injEq] at hd'
    subst hd'
    rw [hbuilds.children_eq, Except.ok.injEq] at hchildren'
    subst hchildren'
    rcases hbuilds.filed with ⟨files, hfiles⟩
    intro m hm
    rcases List.mem_append.mp hm with hm | hm
    · rcases List.mem_append.mp hm with hm | hm
      · rcases List.mem_map.mp hm with ⟨r, -, rfl⟩
        exact Or.inl ⟨r, rfl⟩
      · rw [hfiles] at hm
        rcases List.mem_map.mp hm with ⟨r, -, rfl⟩
        exact Or.inl ⟨r, rfl⟩
    · rcases List.mem_map.mp hm with ⟨dj, hdj, rfl⟩
      rcases hidentifiers dj.1 (List.fst_mem_of_mem_zipIdx hdj) with ⟨fi, hfi⟩
      rw [childRecord, hfi]
      cases (h.sub 3 [dj.2]).statFile dj.1.path with
      | none => exact Or.inr rfl
      | some st => exact Or.inl ⟨_, rfl⟩
  have hanswered := hbuilds.answered
  simp only [contentOf, hbuilds.node, hmade, deref, bind, Except.bind] at hanswered ⊢
  rcases @emitAll_answered [] made hanswers with ⟨used, hused⟩ | hfailed
  · simp only [hused] at hanswered ⊢
    split at hanswered
    · exact absurd rfl hanswered
    · rename_i hroom
      rw [if_neg hroom]
      exact ⟨_, rfl⟩
  · rw [hfailed] at hanswered
    exact absurd rfl hanswered

/-- What a content is made of. -/
theorem Builds.subdirectories (hbuilds : Builds h v i joliet d children) {content : Bytes}
    (hcontent : contentOf h v i joliet = .ok content) :
    ∃ files subdirectories : List Bytes,
      fileRecords (h.sub 2) joliet d.fileList = files.map .ok ∧
        childRecords (h.sub 3) joliet children = subdirectories.map .ok := by
  rcases contentOf_eq_ok.mp hcontent with ⟨-, made, used, -, hmade, hused, -, -⟩
  rcases recordsOf_eq_ok.mp hmade with ⟨d', parent, st, parentExtent, parentSt, children', hd',
    -, -, -, -, hchildren', rfl⟩
  rw [hbuilds.node, Option.some.injEq] at hd'
  subst hd'
  rw [hbuilds.children_eq, Except.ok.injEq] at hchildren'
  subst hchildren'
  rcases emitAll_eq_ok.mp hused with ⟨records, hrecords, -, -⟩
  rcases List.map_eq_append_iff.mp hrecords.symm with ⟨front, subs, -, hfront, hsubs⟩
  rcases List.map_eq_append_iff.mp hfront with ⟨dots, files, -, -, hfiles⟩
  exact ⟨files, subs, hfiles.symm, hsubs.symm⟩

/-- No record in front of that of a subdirectory has its identifier, the special ones apart. -/
theorem Builds.earlier_differ (hbuilds : Builds h v i joliet d children)
    (hfits : ChildrenFit joliet children)
    (hidentifiers : ∀ c ∈ children, ∃ fi, dirIdentifier joliet c.fileName = .ok fi)
    {files subdirectories : List Bytes}
    (hfiles : fileRecords (h.sub 2) joliet d.fileList = files.map .ok)
    (hsubs : childRecords (h.sub 3) joliet children = subdirectories.map .ok) {k : Nat}
    {c : DirList} {fi : Bytes} (hk : children[k]? = some c)
    (hfi : dirIdentifier joliet c.fileName = .ok fi) {j : Nat} {r : Bytes}
    (hj : j < files.length + k) (hr : (files ++ subdirectories)[j]? = some r) :
    identifierOf r ≠ fi := by
  intro hsame
  by_cases hfile : j < files.length
  · rw [List.getElem?_append_left hfile] at hr
    rcases identifierOf_fileRecords hfiles r (List.mem_of_getElem? hr) with ⟨f, hf, hidentifier⟩
    rw [hsame] at hidentifier
    exact hbuilds.unfiled f hf c (List.mem_of_getElem? hk) fi hidentifier hfi
  · rw [List.getElem?_append_right (not_lt.mp hfile)] at hr
    rcases List.getElem?_eq_some_iff.mp hk with ⟨hlast, hkElem⟩
    have hearlier : j - files.length < k := by omega
    have hother : children[j - files.length]? = some children[j - files.length] :=
      List.getElem?_eq_getElem (by omega)
    rcases exists_childRecord hsubs hother with ⟨r', hr', hrecord⟩
    rw [hr, Option.some.injEq] at hr'
    subst hr'
    have hmem := List.mem_of_getElem? hother
    rcases hidentifiers _ hmem with ⟨fi', hfi'⟩
    have hidentifier := identifierOf_childRecord hrecord hfi' (hfits _ hmem _ hfi')
    rw [hsame] at hidentifier
    subst hidentifier
    have hdistinct := List.pairwise_iff_getElem.mp hbuilds.distinct (j - files.length) k (by omega)
      hlast hearlier fi hfi'
    rw [hkElem] at hdistinct
    exact hdistinct hfi

/-- When the names of all subdirectories fit, each is found under its name. -/
theorem found_of_nameFits (hbuilds : Builds h v i joliet d children)
    (hnames : ∀ c ∈ children, NameFits joliet c.fileName) :
    SubdirectoriesFound h v i joliet d children := by
  have hidentifier : ∀ c ∈ children, ∃ fi, dirIdentifier joliet c.fileName = .ok fi ∧
      lookupKey joliet c.fileName = .ok fi ∧ LengthFits fi.length ∧ fi ≠ [0] ∧ fi ≠ [1] :=
    fun c hc => (hnames c hc).identifier (hbuilds.named c hc)
  have hfits : ChildrenFit joliet children := by
    intro c hc fi hfi
    rcases hidentifier c hc with ⟨fi', hfi', -, hlength, -⟩
    rw [hfi, Except.ok.injEq] at hfi'
    exact hfi' ▸ hlength
  rcases hbuilds.succeeds (fun c hc => (hidentifier c hc).imp fun _ hfi => hfi.1) with
    ⟨content, hcontent⟩
  rcases hbuilds.subdirectories hcontent with ⟨files, subdirectories, hfiles, hsubs⟩
  refine ⟨files, subdirectories, content, hfiles, hsubs, hcontent, ?_⟩
  rcases hbuilds.layout hfits hcontent hfiles hsubs with ⟨dot, dotdot, hdot, hdotdot, hrecords,
    rfl, hoffsets⟩
  intro k c hk
  have hc := List.mem_of_getElem? hk
  rcases hidentifier c hc with ⟨fi, hfi, hkey, hlength, hself, hparent⟩
  rcases exists_childRecord hsubs hk with ⟨r, hr, hrecord⟩
  rcases @exists_placed files _ _ _ hr with ⟨o, hplaced⟩
  have hsearch : findDirRecord (inSectors (dot :: dotdot :: (files ++ subdirectories))) fi =
      .ok (some o) := by
    have hdotOther : (identifierOf dot == fi) = false := by
      rw [hdot]
      exact beq_false_of_ne hself.symm
    have hdotdotOther : (identifierOf dotdot == fi) = false := by
      rw [hdotdot]
      exact beq_false_of_ne hparent.symm
    have hfirst : (placed sectorSize 0x50 (files ++ subdirectories)).find?
        (fun p => identifierOf p.2 == fi) = some (o, r) := by
      rw [List.find?_eq_some_iff_getElem]
      rcases List.getElem?_eq_some_iff.mp hplaced with ⟨hlt, hat⟩
      refine ⟨?_, files.length + k, hlt, hat, ?_⟩
      · rw [identifierOf_childRecord hrecord hfi hlength, beq_self_eq_true]
      · intro j hj
        have hrecordAt := @getElem?_placed _ sectorSize 0x50 (files ++ subdirectories) j
        rw [List.getElem?_eq_getElem (hj.trans hlt), Option.map_some] at hrecordAt
        have hdiffers := hbuilds.earlier_differ hfits
          (fun c hc => (hidentifier c hc).imp fun _ hfi => hfi.1) hfiles hsubs hk hfi hj
          hrecordAt.symm
        rw [beq_false_of_ne hdiffers]
        rfl
    rw [findDirRecord_inSectors hrecords, hoffsets, List.find?_cons, List.find?_cons]
    simp only [hdotOther, hdotdotOther, hfirst]
    rfl
  have hlater : ∀ linked, Relation.ReflTransGen (LinkStep joliet)
      (inSectors (dot :: dotdot :: (files ++ subdirectories))) linked →
        findDirRecord linked fi = .ok (some o) := by
    intro linked hlinked
    rcases linked_inSectors hrecords hlinked with ⟨records', hsame, rfl⟩
    rw [findDirRecord_congr hsame hrecords, hsearch]
  refine ⟨(o, r), hplaced, ⟨fi, hfi, ?_⟩,
    fun linked hlinked => ⟨fi, hkey, hlater linked hlinked⟩, ?_⟩
  · have hrecordLength := hlength.recordLength_eq
    unfold LengthFits at hlength
    omega
  · intro linked hlinked extent
    rw [linkContent, hkey]
    simp only [orFault, Except.mapError, bind, Except.bind, hlater linked hlinked]
    rfl

/-- The subdirectories of a directory are found under their names exactly when the names of all
of them fit. -/
theorem subdirectoriesFound_iff (hbuilds : Builds h v i joliet d children) :
    SubdirectoriesFound h v i joliet d children ↔ ∀ c ∈ children, NameFits joliet c.fileName :=
  ⟨nameFits_of_found hbuilds, found_of_nameFits hbuilds⟩

end Found

/-! ## A directory with one subdirectory -/

/-- {lit}`/g` with a subdirectory. -/
def oneChildRoot : DirList := { rootNode [47, 103] with firstChild := some 1 }

/-- The subdirectory of a name. -/
def oneChild (name : Bytes) : DirList :=
  { rootNode (47 :: 103 :: 47 :: name) with pathLen := 2, fullLen := name.length + 3, idx := 1 }

/-- Their tree. -/
def oneChildTree (name : Bytes) : VIsoFile :=
  { VIsoFile.fresh false with rootList := [oneChildRoot, oneChild name] }

theorem oneChildTree_builds {name content : Bytes} (hname : HostName name) {joliet : Bool}
    (hcontent : contentOf examinedHost (oneChildTree name) 0 joliet = .ok content) :
    Builds examinedHost (oneChildTree name) 0 joliet oneChildRoot [oneChild name] where
  node := rfl
  children_eq := rfl
  recorded := ⟨_, rfl⟩
  filed := ⟨[], rfl⟩
  answered := by
    rw [hcontent]
    exact nofun
  parentBuilt := fun _ _ hroot => absurd rfl hroot
  named := by
    intro c hc
    rw [List.mem_singleton.mp hc]
    exact hname
  distinct := List.pairwise_singleton _ _
  unfiled := nofun

/-- A name of equal letters is one of the host. -/
theorem hostName_replicate {n : Nat} (hpos : 0 < n) (hshort : n ≤ 255) :
    HostName (List.replicate n 97) := by
  refine ⟨?_, ?_, ?_, ?_⟩
  · rwa [List.length_replicate]
  · rwa [List.length_replicate]
  · intro hmem
    exact absurd (List.eq_of_mem_replicate hmem) (by decide)
  · intro hmem
    exact absurd (List.eq_of_mem_replicate hmem) (by decide)

/-- A name of 107 bytes is found in both hierarchies. -/
theorem subdirectories_found_107 :
    SubdirectoriesFound examinedHost (oneChildTree (List.replicate 107 97)) 0 false oneChildRoot
        [oneChild (List.replicate 107 97)] ∧
      SubdirectoriesFound examinedHost (oneChildTree (List.replicate 107 97)) 0 true oneChildRoot
        [oneChild (List.replicate 107 97)] := by
  have hname : HostName (List.replicate 107 97) := hostName_replicate (by omega) (by omega)
  have hbuilt : ∀ joliet, (contentOf examinedHost (oneChildTree (List.replicate 107 97)) 0
      joliet).toOption.isSome = true := by
    decide +kernel
  constructor
  · rcases exists_of_isSome (hbuilt false) with ⟨content, hcontent⟩
    apply (subdirectoriesFound_iff (oneChildTree_builds hname hcontent)).mpr
    intro c hc
    rw [List.mem_singleton.mp hc]
    exact ⟨by decide, by decide⟩
  · rcases exists_of_isSome (hbuilt true) with ⟨content, hcontent⟩
    apply (subdirectoriesFound_iff (oneChildTree_builds hname hcontent)).mpr
    intro c hc
    rw [List.mem_singleton.mp hc]
    exact ⟨107, by decide +kernel, le_rfl⟩

/-- A name of 205 bytes is not: the directory is emitted in its parent and cannot be built. -/
theorem longName_not_found :
    (∃ v', buildContent examinedHost (oneChildTree (List.replicate 205 97)) 0 false = .ok v' ∧
      buildContent examinedHost v' 1 false = .error .failed) ∧
    ¬ SubdirectoriesFound examinedHost (oneChildTree (List.replicate 205 97)) 0 false oneChildRoot
        [oneChild (List.replicate 205 97)] := by
  constructor
  · have hruns : (match buildContent examinedHost (oneChildTree (List.replicate 205 97)) 0
          false with
        | .error _ => false
        | .ok v' =>
            match buildContent examinedHost v' 1 false with
            | .error .failed => true
            | _ => false) = true := by
      decide +kernel
    rcases hroot : buildContent examinedHost (oneChildTree (List.replicate 205 97)) 0 false with
      e | v'
    · rw [hroot] at hruns
      cases hruns
    · simp only [hroot] at hruns
      refine ⟨v', rfl, ?_⟩
      split at hruns
      · assumption
      · cases hruns
  · intro hfound
    have hbuilt : (contentOf examinedHost (oneChildTree (List.replicate 205 97)) 0
        false).toOption.isSome = true := by
      decide +kernel
    rcases exists_of_isSome hbuilt with ⟨content, hcontent⟩
    have hname : HostName (List.replicate 205 97) := hostName_replicate (by omega) (by omega)
    have hfits := nameFits_of_found (oneChildTree_builds hname hcontent) hfound _
      (List.mem_singleton_self _)
    have hlength : (List.replicate 205 (97 : UInt8)).length ≤ 204 := hfits.1
    rw [List.length_replicate] at hlength
    omega

end Ps3Netsrv.VIso
