import Ps3Netsrv.Path.Translate

/-!
# Paths that leave the share

{lit}`translate_path` refuses a path whose first {lit}`"/.."` ends a component, and
looks at no other one.  Later it strips trailing slashes and carriage returns,
which can turn {lit}`"/..\r"` into {lit}`"/.."`.

Main results:

- Theorem {lit}`not_isComponent_of_append`: a part of a checked path, with what was
  stripped behind it, has no component {lit}`".."`.
- Theorem {lit}`clientPart_linePath`: what a redirection makes of a tail.
- Theorem {lit}`translatePath_safe_iff`: which client paths never leave the share.
-/

namespace Ps3Netsrv

open Lib

/-! ## The condition -/

/-- What stands behind {lit}`"/.."` makes a component of it, at once or when trailing
carriage returns and slashes are stripped. -/
def EndsParent (rest : Bytes) : Prop :=
  rest.head? = some slash ∨
    ∃ j k, rest = List.replicate j carriageReturn ++ List.replicate k slash

/-- The normalised path is refused, or no {lit}`"/.."` in it makes a component. -/
def PathSafe (path : Bytes) : Prop :=
  let path := normalizePath path false
  path.head? ≠ some slash ∨ isUnsecure path = true ∨
    ∀ before rest, path = before ++ (slash :: dotDot) ++ rest → ¬ EndsParent rest

/-- The part of a checked path in front of what is stripped has no component
{lit}`".."`. -/
theorem not_isComponent_of_append {path before part tail : Bytes}
    (hsafe : ∀ before rest, path = before ++ (slash :: dotDot) ++ rest → ¬ EndsParent rest)
    (hpath : path = before ++ part ++ tail) (hpart : part = [] ∨ part.head? = some slash)
    (htail : EndsParent tail) : ¬ IsComponent slash dotDot part := by
  rw [isComponent_iff_exists_append (by decide) (by decide) hpart]
  rintro ⟨front, rest, rfl, hrest⟩
  refine hsafe (before ++ front) (rest ++ tail) (by rw [hpath]; simp) ?_
  rcases rest with _ | ⟨c, rest⟩
  · simpa using htail
  · left
    rcases hrest with h | h
    · cases h
    · exact h

theorem not_isComponent_nil : ¬ IsComponent slash dotDot [] := by
  rintro ⟨-, before, after, h, -, -⟩
  have hlen := congrArg List.length h
  simp [dotDot] at hlen

/-! ## What comes from the client -/

/-- Cutting out a prefix leaves the end of the path, from a slash on. -/
theorem cutVisoPrefix_suffix {path : Bytes} (h : path.head? = some slash) :
    ∃ before, path = before ++ (cutVisoPrefix path).1 ∧
      (cutVisoPrefix path).1.head? = some slash := by
  have hdrop : ∀ known : Bytes, known.length = 11 → known.getLast? = some slash →
      known <+: path → path = path.take 10 ++ path.drop 10 ∧
        (path.drop 10).head? = some slash := by
    rintro known hlen hlast ⟨rest, rfl⟩
    rcases List.getLast?_eq_some_iff.mp hlast with ⟨front, rfl⟩
    have hfront : front.length = 10 := by simpa using hlen
    refine ⟨(List.take_append_drop 10 _).symm, ?_⟩
    rw [List.append_assoc, ← hfront, List.drop_left]
    rfl
  unfold cutVisoPrefix
  split
  · rename_i hprefix
    exact ⟨_, hdrop ps3Prefix rfl rfl (List.isPrefixOf_iff_prefix.mp hprefix)⟩
  · split
    · rename_i hprefix
      exact ⟨_, hdrop dvdPrefix rfl rfl (List.isPrefixOf_iff_prefix.mp hprefix)⟩
    · exact ⟨[], rfl, h⟩

/-- A redirection cuts slashes and carriage returns off the tail of the path. -/
theorem clientPart_linePath (line : Bytes) {filename : Bytes} (h : backslash ∉ filename) :
    ∃ k j, filename = (linePath line filename).clientPart ++
      (List.replicate k slash ++ List.replicate j carriageReturn) := by
  have hle : (normalizePath line true).length ≤ line.length := length_normalizePath_le line true
  by_cases hlong : line.length ≤ (normalizePath line true ++ filename).length
  · obtain ⟨s, hs⟩ : ∃ s, line.length = (normalizePath line true).length + s :=
      ⟨line.length - (normalizePath line true).length, by omega⟩
    have hclient : (linePath line filename).clientPart =
        filename.take s ++ normalizePath (filename.drop s) true := by
      have htake : (normalizePath line true ++ filename).take
          ((normalizePath line true).length + s) =
            normalizePath line true ++ filename.take s := by
        rw [List.take_append, List.take_of_length_le (Nat.le_add_right _ s),
          Nat.add_sub_cancel_left]
      have hdrop : (normalizePath line true ++ filename).drop
          ((normalizePath line true).length + s) = filename.drop s := by
        rw [← List.drop_drop, List.drop_left]
      rw [HostPath.clientPart, linePath]
      simp only [if_pos hlong]
      rw [hs, htake, hdrop, List.append_assoc, List.drop_left]
    have hclean : backslash ∉ filename.drop s := fun hmem => h (List.mem_of_mem_drop hmem)
    rcases exists_append_normalizePath_true hclean with ⟨k, j, htail⟩
    refine ⟨k, j, ?_⟩
    rw [hclient, List.append_assoc, ← htail, List.take_append_drop]
  · refine ⟨0, 0, ?_⟩
    rw [HostPath.clientPart, linePath]
    simp only [if_neg hlong]
    simp

section Checked

variable (rootDirectory : Bytes) {checked cut before : Bytes}

/-- The host path is the root directory and the cut path without its trailing
slashes. -/
theorem exists_append_hostPath (hclean : backslash ∉ checked)
    (hlast : checked.getLast? ≠ some carriageReturn) (hcut : checked = before ++ cut)
    (hne : cut ≠ []) :
    ∃ k, slashesOf rootDirectory ++ cut =
      normalizePath (rootDirectory ++ cut) true ++ List.replicate k slash := by
  have hcutClean : backslash ∉ cut := fun h => hclean (by rw [hcut]; simp [h])
  have hslashes : slashesOf (rootDirectory ++ cut) = slashesOf rootDirectory ++ cut := by
    rw [slashesOf_append, slashesOf_of_clean hcutClean]
  rcases exists_append_normalizePath_true
    (backslash_not_mem_slashesOf (rootDirectory ++ cut)) with ⟨k, j, hpath⟩
  rw [normalizePath_slashesOf, hslashes] at hpath
  cases j with
  | zero => exact ⟨k, by simpa using hpath⟩
  | succ j =>
      -- the cut path would end in a carriage return
      have hend : (slashesOf rootDirectory ++ cut).getLast? = some carriageReturn := by
        rw [hpath, List.replicate_succ', ← List.append_assoc, ← List.append_assoc,
          List.getLast?_concat]
      rw [List.getLast?_append_of_ne_nil _ hne] at hend
      refine absurd ?_ hlast
      rw [hcut, List.getLast?_append_of_ne_nil _ hne]
      exact hend

/-- A path that is not redirected: what follows the root directory is the cut path
without what is stripped, or nothing. -/
theorem clientPart_direct (hclean : backslash ∉ checked)
    (hlast : checked.getLast? ≠ some carriageReturn) (hcut : checked = before ++ cut)
    (hne : cut ≠ []) :
    let p := normalizePath (rootDirectory ++ cut) true
    let client := (normalizePath p false).drop rootDirectory.length
    client = [] ∨ ∃ j k, cut = client ++
      (List.replicate j carriageReturn ++ List.replicate k slash) := by
  intro p client
  rcases exists_append_hostPath rootDirectory hclean hlast hcut hne with
    ⟨k, hhost⟩
  rcases exists_append_normalizePath_false
    (backslash_not_mem_normalizePath (rootDirectory ++ cut) true) with ⟨j, hreturns⟩
  have hwhole : slashesOf rootDirectory ++ cut = normalizePath p false ++
      (List.replicate j carriageReturn ++ List.replicate k slash) := by
    rw [hhost, ← List.append_assoc, ← hreturns]
  rcases Nat.lt_or_ge rootDirectory.length (normalizePath p false).length with hlt | hge
  · right
    refine ⟨j, k, ?_⟩
    have hdrop := congrArg (List.drop rootDirectory.length) hwhole
    rw [List.drop_left' (length_slashesOf _), List.drop_append_of_le_length hlt.le] at hdrop
    exact hdrop
  · exact Or.inl (List.drop_eq_nil_of_le hge)

/-- A checked path that is not redirected stays in the share. -/
theorem direct_safe (hclean : backslash ∉ checked)
    (hlast : checked.getLast? ≠ some carriageReturn) (hcut : checked = before ++ cut)
    (hhead : cut.head? = some slash)
    (hsafe : ∀ before rest, checked = before ++ (slash :: dotDot) ++ rest → ¬ EndsParent rest) :
    ¬ IsComponent slash dotDot
      ((normalizePath (normalizePath (rootDirectory ++ cut) true) false).drop
        rootDirectory.length) := by
  have hne : cut ≠ [] := by
    rintro rfl
    cases hhead
  rcases clientPart_direct rootDirectory hclean hlast hcut hne with
    hnil | ⟨j, k, hclient⟩
  · rw [hnil]
    exact not_isComponent_nil
  · have hchecked : checked = before ++
        (normalizePath (normalizePath (rootDirectory ++ cut) true) false).drop
          rootDirectory.length ++
            (List.replicate j carriageReturn ++ List.replicate k slash) := by
      rw [List.append_assoc, ← hclient]
      exact hcut
    refine not_isComponent_of_append hsafe hchecked ?_ (Or.inr ⟨j, k, rfl⟩)
    · rcases hpart : (normalizePath (normalizePath (rootDirectory ++ cut) true) false).drop
          rootDirectory.length with _ | ⟨c, rest⟩
      · exact Or.inl rfl
      · rw [hclient, hpart] at hhead
        exact Or.inr hhead

/-- A checked path that is redirected stays in the directory of the line. -/
theorem redirected_safe (hclean : backslash ∉ checked)
    (hlast : checked.getLast? ≠ some carriageReturn) (hcut : checked = before ++ cut)
    (hhead : cut.head? = some slash)
    (hsafe : ∀ before rest, checked = before ++ (slash :: dotDot) ++ rest → ¬ EndsParent rest)
    {line : Bytes} {j : Nat} (hj : rootDirectory.length ≤ j)
    (hend : (normalizePath (rootDirectory ++ cut) true).getD j 0 = slash ∨
      j = rootDirectory.length + cut.length) :
    ¬ IsComponent slash dotDot
      (linePath line ((normalizePath (rootDirectory ++ cut) true).drop j)).clientPart := by
  have hne : cut ≠ [] := by
    rintro rfl
    cases hhead
  obtain ⟨p, hp⟩ : ∃ p, p = normalizePath (rootDirectory ++ cut) true := ⟨_, rfl⟩
  rcases exists_append_hostPath rootDirectory hclean hlast hcut hne with
    ⟨k, hhost⟩
  have hpClean : backslash ∉ p := hp ▸ backslash_not_mem_normalizePath _ true
  rw [← hp] at hhost hend ⊢
  have hdropClean : backslash ∉ p.drop j := fun h => hpClean (List.mem_of_mem_drop h)
  rcases clientPart_linePath line hdropClean with ⟨k', j', hclient⟩
  rcases Nat.lt_or_ge j p.length with hlt | hge
  · -- the tail starts with a slash
    have hslash : (p.drop j).head? = some slash := by
      rw [List.head?_drop, List.getElem?_eq_getElem hlt]
      rcases hend with h | h
      · rw [List.getD_eq_getElem?_getD, List.getElem?_eq_getElem hlt] at h
        exact congrArg some h
      · have hle := congrArg List.length hhost
        simp only [List.length_append, length_slashesOf] at hle
        omega
    have hchecked : checked = (before ++ cut.take (j - rootDirectory.length)) ++
        (linePath line (p.drop j)).clientPart ++
          (List.replicate k' slash ++ List.replicate j' carriageReturn ++
            List.replicate k slash) := by
      have hdrop := congrArg (List.drop j) hhost
      rw [List.drop_append_of_le_length hlt.le, List.drop_append, length_slashesOf,
        List.drop_of_length_le (by rw [length_slashesOf]; exact hj), List.nil_append] at hdrop
      rw [hcut]
      conv_lhs => rw [← List.take_append_drop (j - rootDirectory.length) cut, hdrop, hclient]
      simp [List.append_assoc]
    refine not_isComponent_of_append hsafe hchecked ?_ ?_
    · rcases hpart : (linePath line (p.drop j)).clientPart with _ | ⟨c, rest⟩
      · exact Or.inl rfl
      · rw [hclient, hpart] at hslash
        exact Or.inr hslash
    · cases k' with
      | zero => exact Or.inr ⟨j', k, by simp⟩
      | succ k' => exact Or.inl rfl
  · rw [List.drop_eq_nil_of_le hge] at hclient ⊢
    rw [(List.append_eq_nil_iff.mp hclient.symm).1]
    exact not_isComponent_nil

end Checked

/-! ## Both directions -/

/-- Every path that is returned for a safe client path stays in its directory. -/
theorem translatePath_safe {fs : FileSystem} {rootDirectory path : Bytes} {viso : Bool}
    {p : HostPath} {v : Viso} (hsafe : PathSafe path)
    (h : translatePath fs rootDirectory path viso = .ok (some (p, v))) :
    ¬ IsComponent slash dotDot p.clientPart := by
  have hclean := backslash_not_mem_normalizePath path false
  have hlast := getLast?_normalizePath_false path
  obtain ⟨checked, hchecked⟩ : ∃ checked, checked = normalizePath path false := ⟨_, rfl⟩
  rw [PathSafe, ← hchecked] at hsafe
  rw [← hchecked] at hclean hlast
  simp only [translatePath, ← hchecked] at h
  by_cases hhead : checked.head? = some slash
  · rw [if_neg (not_not.mpr hhead)] at h
    by_cases hunsecure : isUnsecure checked = true
    · simp only [hunsecure] at h
      cases h
    · have hrest := (hsafe.resolve_left (not_not.mpr hhead)).resolve_left hunsecure
      rw [if_neg hunsecure] at h
      -- with or without a prefix cut out, the path goes on from a slash
      obtain ⟨before, cut, hcut, hcutHead, hcutEq⟩ : ∃ before cut, checked = before ++ cut.1 ∧
          cut.1.head? = some slash ∧
            (if viso then cutVisoPrefix checked else (checked, Viso.none)) = cut := by
        cases viso with
        | true =>
            rcases cutVisoPrefix_suffix hhead with ⟨before, hbefore, hcutHead⟩
            exact ⟨before, _, hbefore, hcutHead, rfl⟩
        | false => exact ⟨[], _, rfl, hhead, rfl⟩
      rw [hcutEq] at h
      rcases hstat : fs.statFile (normalizePath (rootDirectory ++ cut.1) true) with _ | st
      · simp only [hstat, Option.isSome_none] at h
        rcases hmerge : mergeDirs fs (normalizePath (rootDirectory ++ cut.1) true)
            (rootDirectory.length + cut.1.length) rootDirectory.length with e | _ | found
        · simp only [hmerge] at h
          cases h
        · simp only [hmerge] at h
          cases h
          exact direct_safe rootDirectory hclean hlast hcut hcutHead hrest
        · simp only [hmerge] at h
          cases h
          rcases mergeDirs_suffix (Nat.le_add_right _ _) hmerge with ⟨line, j, hj, rfl, hend⟩
          exact redirected_safe rootDirectory hclean hlast hcut hcutHead hrest hj hend
      · simp only [hstat, Option.isSome_some] at h
        cases h
        exact direct_safe rootDirectory hclean hlast hcut hcutHead hrest
  · rw [if_pos hhead] at h
    cases h

/-- A host with a file at every path. -/
def everywhere : FileSystem where
  statFile _ := some { fileSize := 0, mtime := 0, ctime := 0, atime := 0, mode := S_IFREG }
  scandir _ := none
  content _ := none

/-- A path the host has is only normalised. -/
theorem translatePath_everywhere (rootDirectory : Bytes) {path : Bytes}
    (hhead : (normalizePath path false).head? = some slash)
    (hsecure : isUnsecure (normalizePath path false) = false) :
    translatePath everywhere rootDirectory path false = .ok (some
      ({ path :=
          normalizePath (normalizePath (rootDirectory ++ normalizePath path false) true) false
         base := rootDirectory.length }, .none)) := by
  simp only [translatePath, if_neg (not_not.mpr hhead), hsecure]
  rfl

/-- Stripping what can end a parent component leaves nothing or a slash behind it. -/
theorem EndsParent.strip {rest : Bytes} (h : EndsParent rest) :
    let stripped := ((rest.rdropWhile fun c => c = carriageReturn).rdropWhile
      fun c => c = slash).rdropWhile fun c => c = carriageReturn
    stripped = [] ∨ stripped.head? = some slash := by
  intro stripped
  have hprefix : stripped <+: rest := (List.rdropWhile_prefix _ _).trans
    ((List.rdropWhile_prefix _ _).trans (List.rdropWhile_prefix _ _))
  rcases h with h | ⟨j, k, rfl⟩
  · rcases hstripped : stripped with _ | ⟨c, tail⟩
    · exact Or.inl rfl
    · rw [hstripped] at hprefix
      rcases hprefix with ⟨rest', rfl⟩
      exact Or.inr h
  · left
    have hall : ∀ n : Nat, ∀ c ∈ List.replicate n slash, decide (c = slash) = true :=
      fun n c hc => decide_eq_true (List.eq_of_mem_replicate hc)
    have hreturns : ∀ l : Bytes, l <+: List.replicate j carriageReturn →
        (l.rdropWhile fun c => decide (c = carriageReturn)) = [] := by
      intro l hl
      rw [List.rdropWhile_eq_nil_iff]
      intro c hc
      exact decide_eq_true (List.eq_of_mem_replicate (hl.subset hc))
    cases k with
    | zero =>
        have hnil := hreturns _ (List.prefix_rfl)
        simp only [stripped, List.replicate_zero, List.append_nil, hnil, List.rdropWhile_nil]
    | succ k =>
        have hkeep : (List.replicate j carriageReturn ++ List.replicate (k + 1) slash).rdropWhile
            (fun c => decide (c = carriageReturn)) =
              List.replicate j carriageReturn ++ List.replicate (k + 1) slash := by
          rw [List.replicate_succ', ← List.append_assoc,
            List.rdropWhile_concat_neg _ _ _ (by decide)]
        simp only [stripped, hkeep, rdropWhile_append_of_all (hall (k + 1))]
        exact hreturns _ (List.rdropWhile_prefix _ _)

/-- A client path that is not safe leaves the share wherever the host has the path. -/
theorem translatePath_climbs {rootDirectory path : Bytes} (h : ¬ PathSafe path) :
    ∃ p v, translatePath everywhere rootDirectory path false = .ok (some (p, v)) ∧
      IsComponent slash dotDot p.clientPart := by
  obtain ⟨checked, hchecked⟩ : ∃ checked, checked = normalizePath path false := ⟨_, rfl⟩
  have hclean := backslash_not_mem_normalizePath path false
  rw [PathSafe, ← hchecked, not_or, not_or, not_not] at h
  rw [← hchecked] at hclean
  rcases h with ⟨hhead, hsecure, hclimbs⟩
  obtain ⟨before, rest, hpath, hrest⟩ : ∃ before rest,
      checked = before ++ (slash :: dotDot) ++ rest ∧ EndsParent rest := by
    by_contra hnone
    exact hclimbs fun before rest hpath hrest => hnone ⟨before, rest, hpath, hrest⟩
  have htranslated := translatePath_everywhere rootDirectory
    (by rw [← hchecked]; exact hhead) (by rw [← hchecked]; simpa using hsecure)
  rw [← hchecked] at htranslated
  refine ⟨_, _, htranslated, ?_⟩
  -- nothing in front of the last dot is stripped
  have hsplit : slashesOf (rootDirectory ++ checked) =
      slashesOf rootDirectory ++ before ++ [slash, 0x2E] ++ [0x2E] ++ rest := by
    rw [slashesOf_append, slashesOf_of_clean hclean, hpath]
    simp [dotDot]
  have hhost : normalizePath (normalizePath (rootDirectory ++ checked) true) false =
      slashesOf rootDirectory ++ before ++ [slash, 0x2E] ++ [0x2E] ++
        ((rest.rdropWhile fun c => c = carriageReturn).rdropWhile
          fun c => c = slash).rdropWhile fun c => c = carriageReturn := by
    have hclean' := backslash_not_mem_normalizePath (rootDirectory ++ checked) true
    rw [normalizePath, slashesOf_of_clean hclean', normalizePath, hsplit]
    simp only [if_true]
    rw [rdropWhile_append_of_keep (by decide), rdropWhile_append_of_keep (by decide),
      if_neg (by decide), rdropWhile_append_of_keep (by decide)]
  have hclient : (HostPath.mk (normalizePath (normalizePath (rootDirectory ++ checked) true)
      false) rootDirectory.length).clientPart =
        before ++ (slash :: dotDot) ++ ((rest.rdropWhile fun c => c = carriageReturn).rdropWhile
          fun c => c = slash).rdropWhile fun c => c = carriageReturn := by
    rw [HostPath.clientPart]
    simp only [hhost, List.append_assoc]
    rw [List.drop_left' (length_slashesOf _)]
    rfl
  rw [hclient]
  refine ⟨by decide, before ++ [slash], _, by simp, Or.inr (by simp), hrest.strip⟩

/-- The returned path has no component {lit}`".."` from the client, whatever the host
looks like, exactly when the normalised client path is refused or none of its
{lit}`"/.."` is followed by a slash, or by carriage returns and slashes up to its
end. -/
theorem translatePath_safe_iff (rootDirectory path : Bytes) :
    (∀ (fs : FileSystem) (viso : Bool) (p : HostPath) (v : Viso),
      translatePath fs rootDirectory path viso = .ok (some (p, v)) →
        ¬ IsComponent slash dotDot p.clientPart) ↔ PathSafe path := by
  constructor
  · intro hall
    by_contra hnot
    rcases translatePath_climbs hnot with ⟨p, v, h, hcomponent⟩
    exact hall everywhere false p v h hcomponent
  · intro hsafe fs viso p v h
    exact translatePath_safe hsafe h

/-- {lit}`"/..a/../x"` on a server that shares {lit}`"/srv"`: the first
{lit}`"/.."` is no component, and the second is not looked at. -/
theorem translatePath_second_parent :
    ∃ p v, translatePath everywhere (ascii ['/', 's', 'r', 'v'])
        (ascii ['/', '.', '.', 'a', '/', '.', '.', '/', 'x']) false = .ok (some (p, v)) ∧
      IsComponent slash dotDot p.clientPart :=
  ⟨{ path := ascii ['/', 's', 'r', 'v', '/', '.', '.', 'a', '/', '.', '.', '/', 'x'], base := 4 },
    .none, rfl, by decide, ascii ['/', '.', '.', 'a', '/'], ascii ['/', 'x'], rfl,
    Or.inr rfl, Or.inr rfl⟩

end Ps3Netsrv
