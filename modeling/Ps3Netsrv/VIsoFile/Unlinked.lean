import Ps3Netsrv.VIsoFile.Recorded

/-!
# Records behind another of their name

A link changes the first record of a name.  Whatever the names are, as long as they fit, a
record that stands behind another record of its name, and the record that each content starts
with, are in the end what was made of them, but for their relocation.

Main results:

- Structure {lit}`Held`: entries of which those have been left as they were made.
- Theorem {lit}`linkContent_held`: a link leaves them.
- Theorem {lit}`build_unlinked`: so they stand in all contents that have been built.
-/

namespace Ps3Netsrv.VIso

open Lib Lib.Iso9660

/-! ## Records behind another of their name -/

/-- Entries with the names of those that were made, of which the first and every one that
stands behind another of its name are still what was made. -/
structure Held (made es : List Entry) : Prop where
  names : es.map Entry.name = made.map Entry.name
  first : es[0]? = made[0]?
  behind : ∀ p q : Nat, q < p → (made.map Entry.name)[q]? = (made.map Entry.name)[p]? →
    es[p]? = made[p]?

/-- Changing the place of the first entry of a name, which is not the first of all. -/
theorem Held.link {made front back : List Entry} {e : Entry} (h : Held made (front ++ e :: back))
    (hfront : front ≠ []) (hother : ∀ e' ∈ front, e'.name ≠ e.name) (start size : Nat) :
    Held made (front ++ e.placedAt start size :: back) := by
  have hsame : ∀ p, p ≠ front.length →
      (front ++ e.placedAt start size :: back)[p]? = (front ++ e :: back)[p]? := by
    intro p hp
    rcases Nat.lt_or_gt_of_ne hp with hlt | hgt
    · rw [List.getElem?_append_left hlt, List.getElem?_append_left hlt]
    · rw [List.getElem?_append_right hgt.le, List.getElem?_append_right hgt.le]
      rcases Nat.exists_eq_add_of_lt hgt with ⟨n, rfl⟩
      rw [show front.length + n + 1 - front.length = n + 1 by omega, List.getElem?_cons_succ,
        List.getElem?_cons_succ]
  have hpos : 0 < front.length := List.length_pos_iff.mpr hfront
  refine ⟨?_, (hsame 0 hpos.ne).trans h.first, ?_⟩
  · rw [← h.names, List.map_append, List.map_append, List.map_cons, List.map_cons]
    rfl
  · intro p q hq hname
    refine (hsame p ?_).trans (h.behind p q hq hname)
    rintro rfl
    rw [← h.names, List.getElem?_map, List.getElem?_map, List.getElem?_append_left hq,
      List.getElem?_append_right le_rfl, Nat.sub_self, List.getElem?_cons_zero,
      List.getElem?_eq_getElem hq, Option.map_some, Option.map_some, Option.some.injEq] at hname
    exact hother _ (List.getElem_mem hq) hname

/-- Linking succeeds on the record of a name only. -/
theorem linkContent_finds {joliet : Bool} {records : List Bytes} {name key extent linked : Bytes}
    (hrecords : ∀ r ∈ records, IsRecord r) (hkey : lookupKey joliet name = .ok key)
    (hlink : linkContent joliet name (inSectors records) extent = .ok linked) :
    ∃ r ∈ records, identifierOf r = key := by
  simp only [linkContent, bind_eq_ok, orFault_eq_ok, orFail_eq_ok] at hlink
  rcases hlink with ⟨key', hkey', found, hfound, o, rfl, -⟩
  rw [hkey, Except.ok.injEq] at hkey'
  subst hkey'
  rw [findDirRecord_inSectors hrecords, Except.ok.injEq] at hfound
  rcases Option.map_eq_some_iff.mp hfound with ⟨⟨o', r⟩, hr, -⟩
  have hmem := List.mem_map_of_mem (f := Prod.snd) (List.mem_of_find?_eq_some hr)
  rw [atOffsets, map_snd_placed] at hmem
  have hname := List.find?_some hr
  exact ⟨r, hmem, beq_iff_eq.mp hname⟩

/-- The first member of a list with a property. -/
theorem exists_first {α : Type*} {p : α → Prop} {l : List α} (h : ∃ a ∈ l, p a) :
    ∃ front a back, l = front ++ a :: back ∧ p a ∧ ∀ b ∈ front, ¬p b := by
  classical
  rcases h with ⟨a, ha, hp⟩
  have hfind : (l.find? fun a => decide (p a)) ≠ none := by
    rw [Ne, List.find?_eq_none]
    exact fun hnone => hnone a ha (decide_eq_true hp)
  rcases Option.ne_none_iff_exists'.mp hfind with ⟨b, hb⟩
  rcases List.find?_eq_some_iff_append.mp hb with ⟨hpb, front, back, rfl, hfront⟩
  refine ⟨front, b, back, rfl, of_decide_eq_true hpb, fun c hc hpc => ?_⟩
  have hnot := hfront c hc
  rw [decide_eq_true hpc] at hnot
  cases hnot

/-- The contents of the first {lit}`i` directories have entries of which those behind another
of their name have not been linked. -/
def Unlinked (joliet : Bool) (listed : List DirList) (i : Nat) (dirs : List DirList) : Prop :=
  ∀ k d, k < i → listed[k]? = some d → ∃ place records es,
    contentAt joliet dirs k = some (inSectors records) ∧
      (place k).dataLength = (inSectors records).length ∧
      (inSectors records).length ≤ tempBufSize ∧ List.Forall₂ Shows records es ∧
      Held (directoryEntries joliet listed place (k + 1) k d) es

section Loop

variable {joliet : Bool} {listed : List DirList}

/-- A link leaves the records behind another of their name. -/
theorem linkContent_held {made es : List Entry} {records : List Bytes} {name key : Bytes}
    {x : Extent} {linked : Bytes} {e₀ : Entry} (hrecords : List.Forall₂ Shows records es)
    (hheld : Held made es) (hzero : made[0]? = some e₀) (hfirst : e₀.name ≠ key)
    (hkey : lookupKey joliet name = .ok key)
    (hlink : linkContent joliet name (inSectors records) x.bytes = .ok linked) :
    linked.length = (inSectors records).length ∧ ∃ records' es', linked = inSectors records' ∧
      List.Forall₂ Shows records' es' ∧ Held made es' := by
  have hall := isRecord_of_shows hrecords
  rcases linkContent_finds hall hkey hlink with ⟨found, hfound, hname⟩
  have hentry : ∃ e ∈ es, e.name = key := by
    rcases exists_entry hrecords found hfound with ⟨e, he, hshows⟩
    exact ⟨e, he, hshows.name.symm.trans hname⟩
  rcases exists_first hentry with ⟨front, e, back, rfl, he, hother⟩
  rcases exists_shows_split hrecords with ⟨before, r, behind, rfl, hbefore, hr, hbehind⟩
  have hdiffer : ∀ r' ∈ before, identifierOf r' ≠ key := by
    intro r' hr'
    rcases exists_entry hbefore r' hr' with ⟨e', he', hshows⟩
    rw [hshows.name]
    exact hother e' he'
  have hpatched := linkContent_split hall x.length_bytes hkey (hr.name.trans he) hdiffer hlink
  have hroom := hr.isRecord.room
  have hfront : front ≠ [] := by
    rintro rfl
    have hhead := hheld.first.trans hzero
    rw [List.nil_append, List.getElem?_cons_zero, Option.some.injEq] at hhead
    exact hfirst (hhead ▸ he)
  refine ⟨?_, _, _, hpatched, List.rel_append hbefore (List.Forall₂.cons (hr.setExtent x) hbehind),
    hheld.link hfront (fun e' he' => he ▸ hother e' he') _ _⟩
  rw [hpatched]
  exact length_inSectors_setExtent x.length_bytes (by omega)

/-- One turn of the loop. -/
theorem buildContent_unlinked {h : Calls} {v v' : VIsoFile} {i : Nat}
    (hbuild : buildContent h v i joliet = .ok v') (hcounted : Counted joliet i v)
    (hunlinked : Unlinked joliet listed i v.rootList) (hbare : v.rootList.map DirList.bare = listed)
    (hlisted : WellListed listed) (hchained : Chained listed) (hnames : Fitting joliet listed) :
    Unlinked joliet listed (i + 1) v'.rootList := by
  rcases buildContent_contentAt hbuild with ⟨content, node, hcontent, hnode, -, hstored, hothers⟩
  have hc : listed[i]? = some node.bare := by
    rw [← hbare, List.getElem?_map, hnode]
    rfl
  intro k d hk hd
  rcases Nat.lt_succ_iff_lt_or_eq.mp hk with hk | rfl
  · have hi : 0 < i := (Nat.zero_le k).trans_lt hk
    rcases hunlinked k d hk hd with ⟨place, records, es, hrecorded, hplace, hcopied, hrecords, hheld⟩
    rcases hothers with ⟨hroot, hothers⟩ |
      ⟨-, parentContent, patched, hparentContent, hlink, hothers⟩
    · exact ⟨place, records, es, (hothers k hk.ne).trans hrecorded, hplace, hcopied, hrecords, hheld⟩
    · have hhere := hothers k hk.ne
      by_cases hkp : k = node.parent
      · subst hkp
        rw [hrecorded, Option.some.injEq] at hparentContent
        subst hparentContent
        rw [(contentOf_own hcontent).extentOf_eq] at hlink
        rcases hnames.identifier hi hc with ⟨-, hkey, -, hself, -⟩
        rcases linkContent_held hrecords hheld rfl (Ne.symm hself) hkey hlink with
          ⟨hlength, records', es', rfl, hrecords', hheld'⟩
        rw [if_pos rfl] at hhere
        exact ⟨place, records', es', hhere, hplace.trans hlength.symm, hlength.trans_le hcopied,
          hrecords', hheld'⟩
      · rw [if_neg hkp] at hhere
        exact ⟨place, records, es, hhere.trans hrecorded, hplace, hcopied, hrecords, hheld⟩
  · rw [hc, Option.some.injEq] at hd
    subst hd
    -- the place of the content, and what its parent's record says
    let place : Nat → Extent := fun j =>
      if j = k then ⟨v.dirsSectors joliet, content.length⟩
      else ⟨u32 (sectorsBefore joliet v.rootList j),
        ((contentAt joliet v.rootList j).getD []).length⟩
    have hown : Extent.bytes ⟨v.dirsSectors joliet, content.length⟩ = (place k).bytes := by
      rw [show place k = _ from if_pos rfl]
    have hparent : node.bare.parent ≠ k → ∀ parent parentContent,
        v.rootList[node.bare.parent]? = some parent →
        parent.contentIn joliet = some parentContent →
          extentOf parentContent = (place node.bare.parent).bytes := by
      intro hroot parent parentContent hnode' hparentContent
      have hpos : 0 < k := by
        rcases Nat.eq_zero_or_pos k with rfl | hpos
        · exact absurd (hlisted.root _ hc) hroot
        · exact hpos
      have hlt := hlisted.parent k _ hpos hc
      rcases hcounted.started _ _ hlt hnode' with ⟨content', hcontent', hstarted⟩
      rw [hparentContent, Option.some.injEq] at hcontent'
      subst hcontent'
      rw [hstarted.extentOf_eq, show place node.bare.parent = _ from if_neg hroot, contentAt, hnode',
        Option.bind_some, hparentContent, Option.getD_some]
    rcases contentOf_shows hcontent hbare hc (hchained k _ hc) (hnames.childrenFit hlisted k)
      (childrenOf_later hlisted k) hown hparent with ⟨hcopied, records, rfl, hrecords⟩
    refine ⟨place, records, _, hstored, ?_, hcopied, hrecords, ⟨rfl, rfl, fun _ _ _ _ => rfl⟩⟩
    rw [show place k = _ from if_pos rfl]

/-- The whole loop. -/
theorem buildContents_unlinked {h : Calls} {count i : Nat} {v v' : VIsoFile}
    (hbuild : buildContents h joliet count i v = .ok v') (hcounted : Counted joliet i v)
    (hunlinked : Unlinked joliet listed i v.rootList) (hbare : v.rootList.map DirList.bare = listed)
    (hlisted : WellListed listed) (hchained : Chained listed) (hnames : Fitting joliet listed) :
    Unlinked joliet listed (i + count) v'.rootList := by
  induction count generalizing i v with
  | zero =>
      cases hbuild
      exact hunlinked
  | succ count ih =>
      simp only [buildContents, bind_eq_ok, orKeep_eq_ok] at hbuild
      rcases hbuild with ⟨v₁, hone, hrest⟩
      have hsame := (buildContent_sameTree hone).bare.trans hbare
      have hlast := ih hrest (hnames.counted hlisted hone hcounted hbare)
        (buildContent_unlinked hone hcounted hunlinked hbare hlisted hchained hnames) hsame
      rwa [Nat.add_right_comm] at hlast

/-- What is not linked in one hierarchy does not depend on the other. -/
theorem Unlinked.congr {i : Nat} {v v' : VIsoFile} (h : Unlinked joliet listed i v.rootList)
    (hsame : SameHierarchy joliet v v') : Unlinked joliet listed i v'.rootList := by
  intro k d hk hd
  rw [hsame.contentAt_eq]
  exact h k d hk hd

/-- After both loops. -/
theorem contents_unlinked {hIso hJoliet : Calls} {tree withIso built : VIsoFile}
    (hzero : tree.dirsSectors joliet = 0) (hbare : tree.rootList.map DirList.bare = listed)
    (hlisted : WellListed listed) (hchained : Chained listed) (hnames : Fitting joliet listed)
    (hiso : buildContents hIso false tree.rootList.length 0 tree = .ok withIso)
    (hjoliet : buildContents hJoliet true withIso.rootList.length 0 withIso = .ok built) :
    Unlinked joliet listed listed.length built.rootList := by
  have hsameIso := buildContents_sameTree hiso
  have hnone : ∀ dirs, Unlinked joliet listed 0 dirs :=
    fun dirs k d hk => absurd hk (Nat.not_lt_zero k)
  have hlength : tree.rootList.length = listed.length := by
    rw [← hbare, List.length_map]
  cases joliet with
  | false =>
      have hall := buildContents_unlinked hiso (counted_zero hzero) (hnone _) hbare hlisted hchained
        hnames
      rw [Nat.zero_add, hlength] at hall
      exact hall.congr (buildContents_sameHierarchy hjoliet)
  | true =>
      have hsectors : withIso.dirsSectors true = 0 :=
        (buildContents_sameHierarchy hiso).sectors.trans hzero
      have hall := buildContents_unlinked hjoliet (counted_zero hsectors) (hnone _)
        (hsameIso.bare.trans hbare) hlisted hchained hnames
      rw [Nat.zero_add, hsameIso.length, hlength] at hall
      exact hall

end Loop

/-- The relocated contents of all directories, of which the entries behind another of their name
have not been linked. -/
def LeftAsMade (joliet : Bool) (listed : List DirList) (dirLba filesLba : Nat)
    (dirs : List DirList) : Prop :=
  ∀ k d, listed[k]? = some d → ∃ place records es,
    contentAt joliet dirs k = some (inSectors records) ∧
      0 < (place k).dataLength ∧ (place k).dataLength ≤ tempBufSize ∧
      List.Forall₂ Shows records (es.map (Entry.moved dirLba filesLba)) ∧
      Held (directoryEntries joliet listed place (k + 1) k d) es

/-- So they stand after a tree has been built. -/
theorem build_unlinked {h : Calls} {fuel : Nat} {v built : VIsoFile} {inDir : Bytes} {joliet : Bool}
    (hbuild : build h fuel v inDir = .ok built) (hzero : v.dirsSectors joliet = 0)
    (hchained : Chained (built.rootList.map DirList.bare))
    (hnames : Fitting joliet (built.rootList.map DirList.bare)) :
    LeftAsMade joliet (built.rootList.map DirList.bare)
      (areaOf built.isoLba built.jolietLba joliet) built.filesLba built.rootList := by
  rcases build_eq_ok.mp hbuild with ⟨-, tree, withIso, withJoliet, withTables, hlist, hiso, hjoliet,
    htables, hfix⟩
  rcases buildPathTables_eq_ok.mp htables with ⟨_, _, _, _, -, -, -, -, rfl⟩
  rcases fixLba_eq_ok.mp hfix with ⟨dirs, _, _, _, _, _, _, _, _, hdirs, -, -, -, -, -, -, -, -,
    rfl⟩
  have hbare : dirs.map DirList.bare = withJoliet.rootList.map DirList.bare := fixContents_bare hdirs
  have hsame := (buildContents_sameTree hiso).trans (buildContents_sameTree hjoliet)
  have htree : tree.rootList.map DirList.bare = dirs.map DirList.bare := by
    rw [hbare, hsame.bare]
  have hlisted : WellListed (dirs.map DirList.bare) := by
    apply (listTree_wellListed hlist).congr
    rw [← htree, List.map_map]
    rfl
  have htreeZero : tree.dirsSectors joliet = 0 := by
    rcases listTree_eq_ok.mp hlist with ⟨_, _, _, -, -, -, rfl⟩
    cases joliet <;> exact hzero
  have hunlinked := contents_unlinked htreeZero htree hlisted hchained hnames hiso hjoliet
  intro k d hd
  rcases hunlinked k d (List.getElem?_eq_some_iff.mp hd).1 hd with
    ⟨place, records, es, hrecorded, hplace, hcopied, hrecords, hheld⟩
  rcases fixContents_contentAt hdirs joliet k hrecorded with ⟨fixed, hfixed, hstored⟩
  rw [fixDirLba_inSectors (isRecord_of_shows hrecords), Except.ok.injEq] at hfixed
  subst hfixed
  have hpos : 0 < (inSectors records).length := by
    rcases records with _ | ⟨r, records⟩
    · cases hrecords
      exact absurd hheld.first (by rw [directoryEntries]; exact Option.some_ne_none _ ∘ Eq.symm)
    · have hr := isRecord_of_shows hrecords r (List.mem_cons_self ..)
      rcases inSectors_cons hr.length_lt records with ⟨tail, htail⟩
      have hroom := hr.room
      rw [htail, List.length_append]
      omega
  exact ⟨place, _, es, hstored, hplace ▸ hpos, hplace ▸ hcopied, shows_fixRecords _ _ hrecords,
    hheld⟩

end Ps3Netsrv.VIso
