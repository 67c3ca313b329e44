import Ps3Netsrv.File.MultiPart

/-!
# Parts that cannot be read

{lit}`File::read` of a multi-part image adds up what its two {lit}`read_file` calls
return.  The value {lit}`-1` of a call that fails goes through the same arithmetic as a
short count: it is less than what was asked for, it moves the second destination in
front of the buffer, and it is one byte less in the sum.

Main results:

- Theorem {lit}`readCalls_eq`: the calls of a read by the outcome of the first.
- Theorem {lit}`reportsErrors_iff`: when a read reports that a part could not be read.
-/

namespace Ps3Netsrv

open Lib

/-! ## The calls by their outcome -/

/-- The read goes on in the next part. -/
def File.GoesOn (f : File) (nbyte : Nat) (ret : Int) : Prop :=
  ret < i64 nbyte ∧ f.index + 1 < f.isMultipart

/-- The {lit}`read_file` call for the rest of the bytes, in the next part. -/
def File.nextCall (f : File) (nbyte : Nat) (ret : Int) : PartRead :=
  let asked := u64 ((nbyte : Int) - ret).toNat
  { dest := ret
    asked := asked
    got := (readFile { f.part (f.index + 1) with pos := 0 } asked).1 }

/-- The calls of a read. -/
theorem readCalls_eq (f : File) (nbyte : Nat) :
    let got := (readFile (f.part f.index) nbyte).1
    let call : PartRead := { dest := 0, asked := nbyte, got := got }
    (f.GoesOn nbyte call.ret → (f.readCalls nbyte).1 = [call, f.nextCall nbyte call.ret]) ∧
      (¬ f.GoesOn nbyte call.ret → (f.readCalls nbyte).1 = [call]) := by
  intro got call
  obtain ⟨fd, hread⟩ : ∃ fd, readFile (f.part f.index) nbyte = (got, fd) := ⟨_, rfl⟩
  constructor
  · intro hon
    rw [File.readCalls_two hread hon rfl]
    rfl
  · intro hstay
    rw [File.readCalls_one hread hstay]

/-! ## The property -/

/-- A part could not be read. -/
def File.PartFails (f : File) (nbyte : Nat) : Prop :=
  ∃ call ∈ (f.readCalls nbyte).1, call.got = none

/-- A read reports that a part could not be read: it returns a negative value, it stores
within the buffer, it counts no byte of a part that failed, and when the first part
fails no other one delivers data for it. -/
structure ReportsErrors (f : File) (nbyte : Nat) : Prop where
  negative : f.PartFails nbyte → (f.readMultipart nbyte).1 = none
  inside : f.PartFails nbyte → ∀ call ∈ (f.readCalls nbyte).1,
    0 ≤ call.dest ∧ call.dest + call.asked ≤ nbyte
  uncounted : ∀ data, (f.readMultipart nbyte).1 = some data →
    ∀ call ∈ (f.readCalls nbyte).1, call.got = none → (data.length : Int) ≤ call.dest
  not_replaced : (readFile (f.part f.index) nbyte).1 = none →
    ∀ call ∈ (f.readCalls nbyte).1, call.got = none

/-- A failure keeps clear of the arithmetic: a first part that fails is the last one, and
a second part fails only when the first has delivered nothing.  A size that is
negative as an {lit}`ssize_t` never goes on to the next part. -/
def FailsApart (f : File) (nbyte : Nat) : Prop :=
  match (readFile (f.part f.index) nbyte).1 with
  | none => f.isMultipart ≤ f.index + 1 ∨ i64 nbyte < 0
  | some d => d = [] ∨ f.isMultipart ≤ f.index + 1 ∨ i64 nbyte ≤ d.length ∨
      (f.nextCall nbyte d.length).got ≠ none

/-! ## When it holds -/

/-- What a read returns is decided by the sum of the calls. -/
theorem readMultipart_eq_none_iff {f : File} {nbyte : Nat} {calls : List PartRead}
    (hcalls : (f.readCalls nbyte).1 = calls) :
    (f.readMultipart nbyte).1 = none ↔ (calls.map PartRead.ret).sum < 0 := by
  rw [File.readMultipart, hcalls]
  simp only
  split
  · rename_i hneg
    exact iff_of_true rfl hneg
  · rename_i hpos
    exact iff_of_false (Option.some_ne_none _) hpos

/-- A read without failing calls has nothing to report. -/
theorem reportsErrors_of_all {f : File} {nbyte : Nat}
    (h : ∀ call ∈ (f.readCalls nbyte).1, call.got ≠ none)
    (hfirst : (readFile (f.part f.index) nbyte).1 ≠ none) : ReportsErrors f nbyte where
  negative := fun ⟨call, hcall, hnone⟩ => absurd hnone (h call hcall)
  inside := fun ⟨call, hcall, hnone⟩ => absurd hnone (h call hcall)
  uncounted := fun _ _ call hcall hnone => absurd hnone (h call hcall)
  not_replaced := fun hnone => absurd hnone hfirst

/-- The return value of a call that fails. -/
theorem PartRead.ret_of_failed {call : PartRead} (h : call.got = none) : call.ret = -1 := by
  rw [PartRead.ret, h]

/-- A first part that fails is reported when the read does not go on. -/
theorem reportsErrors_first_iff {f : File} {nbyte : Nat}
    (hgot : (readFile (f.part f.index) nbyte).1 = none) :
    ReportsErrors f nbyte ↔ ¬ f.GoesOn nbyte (-1) := by
  have hcalls := readCalls_eq f nbyte
  simp only [hgot, PartRead.ret] at hcalls
  rcases hcalls with ⟨hon, hstay⟩
  constructor
  · intro hreports hgoes
    -- the second call would store in front of the buffer
    have hboth := hon hgoes
    have hfails : f.PartFails nbyte := ⟨_, by rw [hboth]; exact List.mem_cons_self, rfl⟩
    have hinside := hreports.inside hfails (f.nextCall nbyte (-1))
      (by rw [hboth]; exact List.mem_cons_of_mem _ List.mem_cons_self)
    have hdest : (f.nextCall nbyte (-1)).dest = -1 := rfl
    omega
  · intro hlast
    have hone := hstay hlast
    have hnegative : (f.readMultipart nbyte).1 = none := by
      rw [readMultipart_eq_none_iff hone, List.map_singleton, PartRead.ret_of_failed rfl]
      decide
    refine ⟨fun _ => hnegative, fun _ call hcall => ?_, fun data hdata => ?_,
      fun _ call hcall => ?_⟩
    · rw [hone, List.mem_singleton] at hcall
      subst hcall
      simp
    · rw [hnegative] at hdata
      cases hdata
    · rw [hone, List.mem_singleton] at hcall
      rw [hcall]

/-- A second part that fails is reported when the first has delivered nothing. -/
theorem reportsErrors_second_iff {f : File} {nbyte : Nat} {d : Bytes}
    (hgot : (readFile (f.part f.index) nbyte).1 = some d) (hgoes : f.GoesOn nbyte d.length)
    (hsecond : (f.nextCall nbyte d.length).got = none) :
    ReportsErrors f nbyte ↔ d = [] := by
  have hcalls := readCalls_eq f nbyte
  simp only [hgot] at hcalls
  have hboth := hcalls.1 hgoes
  have hnegative := readMultipart_eq_none_iff hboth
  have hfirst : (PartRead.mk 0 nbyte (some d)).ret = d.length := rfl
  rw [hfirst] at hboth
  rw [List.map_cons, List.map_singleton, hfirst, PartRead.ret_of_failed hsecond, List.sum_cons,
    List.sum_singleton] at hnegative
  constructor
  · -- a first part that delivered something makes up for the error
    intro hreports
    have hfails : f.PartFails nbyte := ⟨f.nextCall nbyte d.length,
      by rw [hboth]; exact List.mem_cons_of_mem _ List.mem_cons_self, hsecond⟩
    have hlen := hnegative.mp (hreports.negative hfails)
    exact List.eq_nil_of_length_eq_zero (by omega)
  · rintro rfl
    have hnone := hnegative.mpr (by decide)
    refine ⟨fun _ => hnone, fun _ call hcall => ?_, fun data hdata => ?_, fun hfailed => ?_⟩
    · rw [hboth] at hcall
      rcases List.mem_cons.mp hcall with rfl | hcall
      · simp
      · rw [List.mem_singleton] at hcall
        subst hcall
        have hasked : u64 ((nbyte : Int) - ([] : Bytes).length).toNat ≤ nbyte := by
          rw [List.length_nil, Nat.cast_zero, sub_zero, Int.toNat_natCast]
          exact Nat.mod_le _ _
        simp only [File.nextCall, List.length_nil, Nat.cast_zero] at hasked ⊢
        omega
    · rw [hnone] at hdata
      cases hdata
    · rw [hgot] at hfailed
      cases hfailed

/-- A read of a multi-part image reports the parts that cannot be read exactly when a
failure keeps clear of the arithmetic. -/
theorem reportsErrors_iff (f : File) (nbyte : Nat) :
    ReportsErrors f nbyte ↔ FailsApart f nbyte := by
  unfold FailsApart
  cases hgot : (readFile (f.part f.index) nbyte).1 with
  | none =>
      rw [reportsErrors_first_iff hgot]
      simp only [File.GoesOn]
      omega
  | some d =>
      have hcalls := readCalls_eq f nbyte
      simp only [hgot] at hcalls
      by_cases hgoes : f.GoesOn nbyte d.length
      · by_cases hsecond : (f.nextCall nbyte d.length).got = none
        · rw [reportsErrors_second_iff hgot hgoes hsecond]
          rcases hgoes with ⟨hlt, hnext⟩
          constructor
          · exact Or.inl
          · rintro (hnil | hlast | hfull | hread)
            · exact hnil
            · omega
            · omega
            · exact absurd hsecond hread
        · have hboth := hcalls.1 hgoes
          refine iff_of_true (reportsErrors_of_all (fun call hcall => ?_) (by rw [hgot]; nofun))
            (Or.inr (Or.inr (Or.inr hsecond)))
          rw [hboth] at hcall
          rcases List.mem_cons.mp hcall with rfl | hcall
          · nofun
          · rw [List.mem_singleton] at hcall
            rw [hcall]
            exact hsecond
      · have hone := hcalls.2 hgoes
        refine iff_of_true (reportsErrors_of_all (fun call hcall => ?_) (by rw [hgot]; nofun)) ?_
        · rw [hone, List.mem_singleton] at hcall
          rw [hcall]
          nofun
        · simp only [File.GoesOn, not_and_or] at hgoes
          omega

/-! ## A first part that cannot be read -/

/-- Two parts, of which the first fails at the next read. -/
def brokenPair : File where
  fp := [{ HostFile.opened [1, 2] with script := [.error] }, HostFile.opened [3, 4]]
  isMultipart := 2
  partSize := 2
  index := 0
  encType := .kDiscTypeNone
  regionInfo := []
  aesDec := .identity

/-- The rest of the second part is stored from one byte in front of the buffer on, and
what reaches the buffer counts as read. -/
theorem brokenPair_read :
    ¬ ReportsErrors brokenPair 2 ∧
      (brokenPair.readCalls 2).1 = [⟨0, 2, none⟩, ⟨-1, 3, some [3, 4]⟩] ∧
      (brokenPair.readMultipart 2).1 = some [4] := by
  have hcalls : (brokenPair.readCalls 2).1 = [⟨0, 2, none⟩, ⟨-1, 3, some [3, 4]⟩] := by decide
  have hread : (brokenPair.readMultipart 2).1 = some [4] := by decide
  refine ⟨fun hreports => ?_, hcalls, hread⟩
  have hnone := hreports.negative ⟨⟨0, 2, none⟩, by rw [hcalls]; exact List.mem_cons_self, rfl⟩
  rw [hread] at hnone
  cases hnone

end Ps3Netsrv
