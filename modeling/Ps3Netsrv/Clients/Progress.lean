import Ps3Netsrv.Clients.Safety
import Ps3Netsrv.Lib.Fairness

/-!
# The accept loop always comes back

The accept loop of {lit}`main` waits in one place only besides {lit}`accept`: it joins the
thread whose slot it reclaims, and that thread may be waiting in {lit}`recv` for a console
that never sends again.  The join ends because the loop has closed the thread's socket by
then.  So the server serves new consoles for ever, whatever the old ones do.

Main results:

- Definition {lit}`JoinWakes`: the invariant of the joins.
- Theorem {lit}`State.mustLeave_of_join`: a thread that is joined has to leave its loop.
- Theorem {lit}`connections_settled`: the accept loop always comes back to {lit}`accept`, and
  every connection has got a thread or has been closed.
- Theorem {lit}`closed_connection_ends`: a thread whose socket was closed returns.
-/

namespace Ps3Netsrv.Clients

open Lib

/-! ## Measures -/

/-- How many steps a thread has before it until it has returned. -/
def ThreadPc.distance : ThreadPc → Nat
  | .serving => 5
  | .took _ => 4
  | .closed => 3
  | .freed => 2
  | .released => 1
  | .exited => 0

/-- A thread has no steps before it when it has returned. -/
theorem ThreadPc.distance_eq_zero_iff {pc : ThreadPc} : pc.distance = 0 ↔ pc = .exited := by
  cases pc <;> simp [distance]

theorem ThreadPc.distance_le (pc : ThreadPc) : pc.distance ≤ 5 := by
  cases pc <;> simp [distance]

/-- How far the thread of a connection has to go. -/
def State.distance (σ : State) (c : ConnId) : Nat :=
  (σ.threads c).elim 0 fun t => t.pc.distance

theorem State.distance_le (σ : State) (c : ConnId) : σ.distance c ≤ 5 := by
  unfold State.distance
  cases σ.threads c with
  | none => exact Nat.zero_le 5
  | some t => exact t.pc.distance_le

/-- How far the accept loop has to go until it is back in {lit}`accept`, with the steps of the
thread that it joins. -/
def State.rank (σ : State) : Nat :=
  match σ.accept with
  | .waiting => 0
  | .started _ _ | .freedBack _ | .closing _ => 1
  | .failedInit _ _ | .closedBack _ => 2
  | .tookBack _ _ => 3
  | .failedStart _ _ => 4
  | .published _ _ _ => 5
  | .initialized _ _ _ => 6
  | .joined _ _ _ => 7
  | .reclaimed _ _ _ joinOld old => 8 + if joinOld then σ.distance old else 0
  | .reserved _ _ _ _ _ _ => 14
  | .accepted _ _ => 15

/-! ## The steps of a thread -/

/-- What a step of a thread does to the others and to the accept loop. -/
structure State.ThreadMoves (σ σ' : State) (c : ConnId) : Prop where
  accept : σ'.accept = σ.accept
  next : σ'.next = σ.next
  others : ∀ d, d ≠ c → σ'.threads d = σ.threads d
  socket : ∀ i, (σ.slots i).s = none → (σ'.slots i).s = none
  closes : ∀ d, σ.closes d ≤ σ'.closes d
  moved : ∃ t t', σ.threads c = some t ∧ σ'.threads c = some t' ∧
    t'.pc.distance + 1 = t.pc.distance

/-- A slot that is rewritten without a socket has none. -/
theorem State.setSlot_socket {σ : State} {j : SlotId} {slot : Slot}
    (h : (σ.slots j).s = none → slot.s = none) (i : SlotId) (hi : (σ.slots i).s = none) :
    ((σ.setSlot j slot).slots i).s = none := by
  by_cases hij : i = j
  · subst hij
    simpa [State.setSlot] using h hi
  · simpa [State.setSlot, hij] using hi

/-- Closing a socket counts up. -/
theorem State.closes_le_closeSocket (σ : State) (s : Option ConnId) (c : ConnId) :
    σ.closes c ≤ (σ.closeSocket s).closes c := by
  unfold State.closeSocket
  dsimp only
  split
  · exact Nat.le_succ _
  · exact le_rfl

/-- Every step of a thread brings it closer to its end. -/
theorem State.threadStep_moves {σ σ' : State} {c : ConnId} (h : σ.threadStep c = some σ') :
    σ.ThreadMoves σ' c := by
  unfold State.threadStep at h
  cases ht : σ.threads c with
  | none =>
      rw [ht] at h
      cases h
  | some t =>
      rw [ht] at h
      have hothers : ∀ (u : Thread) (d : ConnId), d ≠ c →
          (σ.setThread c u).threads d = σ.threads d := by
        intro u d hd
        simp [State.setThread, hd]
      have hmoved : ∀ u : Thread, (σ.setThread c u).threads c = some u := by
        intro u
        simp [State.setThread]
      cases hpc : t.pc with
      | serving =>
          simp only [hpc, Option.some.injEq] at h
          subst h
          exact ⟨rfl, rfl, hothers _, State.setSlot_socket fun _ => rfl, fun _ => le_rfl,
            t, _, ht, hmoved _, by rw [hpc]; rfl⟩
      | took s =>
          simp only [hpc, Option.some.injEq] at h
          subst h
          exact ⟨rfl, rfl, hothers _, fun _ hi => hi, σ.closes_le_closeSocket s,
            t, _, ht, hmoved _, by rw [hpc]; rfl⟩
      | closed =>
          simp only [hpc, Option.some.injEq] at h
          subst h
          exact ⟨rfl, rfl, hothers _, State.setSlot_socket id, fun _ => le_rfl,
            t, _, ht, hmoved _, by rw [hpc]; rfl⟩
      | freed =>
          simp only [hpc, Option.some.injEq] at h
          subst h
          exact ⟨rfl, rfl, hothers _, State.setSlot_socket id, fun _ => le_rfl,
            t, _, ht, hmoved _, by rw [hpc]; rfl⟩
      | released =>
          simp only [hpc, Option.some.injEq] at h
          subst h
          exact ⟨rfl, rfl, hothers _, fun _ hi => hi, fun _ => le_rfl,
            t, _, ht, hmoved _, by rw [hpc]; rfl⟩
      | exited =>
          simp only [hpc] at h
          cases h

/-- No thread gets further from its end. -/
theorem State.ThreadMoves.distance_le {σ σ' : State} {c : ConnId} (h : σ.ThreadMoves σ' c)
    (d : ConnId) : σ'.distance d ≤ σ.distance d := by
  rcases h.moved with ⟨t, t', ht, ht', hless⟩
  unfold State.distance
  by_cases hd : d = c
  · rw [hd, ht, ht']
    simp only [Option.elim_some]
    omega
  · rw [h.others d hd]

/-- The thread itself gets closer. -/
theorem State.ThreadMoves.distance_lt {σ σ' : State} {c : ConnId} (h : σ.ThreadMoves σ' c) :
    σ'.distance c < σ.distance c := by
  rcases h.moved with ⟨t, t', ht, ht', hless⟩
  unfold State.distance
  rw [ht, ht']
  simp only [Option.elim_some]
  omega

/-! ## The invariant of the joins -/

/-- The slot that the accept loop reclaims and the thread that it joins for it. -/
def AcceptLoop.joins : AcceptLoop → Option (SlotId × ConnId)
  | .reserved _ _ i _ true old | .reclaimed _ _ i true old => some (i, old)
  | _ => none

/-- A thread that is joined and still in its loop has no socket in its slot. -/
def JoinWakes (σ : State) : Prop :=
  ∀ i old, σ.accept.joins = some (i, old) → ∀ t, σ.threads old = some t → t.pc = .serving →
    (σ.slots i).s = none

theorem joinWakes_init : JoinWakes State.init := by
  intro i old h
  cases h

/-- The reservation of a slot takes its socket, or nobody is in its loop there. -/
theorem JoinWakes.select {σ : State} (ho : Ownership σ) {w : Whitelist} {cs : ConnId}
    {ip : UInt32} (haccept : σ.accept = .accepted cs ip) : JoinWakes (σ.select w cs ip) := by
  unfold State.select
  split
  · rename_i i hfound
    intro j old hjoins t ht hserving
    have hj : j = i := by
      simp only [State.reserve, State.goto] at hjoins
      cases hthread : (σ.slots i).hasThread <;> rw [hthread] at hjoins <;> cases hjoins
      rfl
    subst hj
    simp [State.reserve, State.goto, State.setSlot]
  · split
    · split
      · rename_i i hfound
        intro j old hjoins t ht hserving
        have hfree : (σ.slots i).connected = false := by
          simpa using State.findSlot_eq_some hfound
        have hidle : σ.accept.handled ≠ some i := by rw [haccept]; simp [AcceptLoop.handled]
        have hnone : ¬ σ.LiveOwner i := by
          rw [← ho.connected i hidle, hfree]
          simp
        simp only [State.reserve, State.goto] at hjoins
        cases hthread : (σ.slots i).hasThread <;> rw [hthread] at hjoins <;> cases hjoins
        -- the thread recorded in a free slot has released it
        have howner : σ.owner i = some (σ.slots i).thread := by
          rw [State.owner, if_pos hthread]
        exact absurd ⟨_, t, howner, ht, by rw [hserving]; rfl⟩ hnone
      · intro j old hjoins
        cases hjoins
    · intro j old hjoins
      cases hjoins

/-- Every step keeps the invariant. -/
theorem JoinWakes.step {σ σ' : State} (h : JoinWakes σ) (ho : Ownership σ) {w : Whitelist}
    {a : Action} (hstep : σ.step w a = some σ') : JoinWakes σ' := by
  cases a with
  | arrive ip =>
      simp only [State.step] at hstep
      split at hstep
      · cases hstep
        intro i old hjoins
        cases hjoins
      · cases hstep
  | serve c =>
      simp only [State.step, State.serveStep] at hstep
      split at hstep
      · split at hstep
        · cases hstep
          exact h
        · cases hstep
      · cases hstep
  | finish c =>
      have hmoves := State.threadStep_moves hstep
      intro i old hjoins t ht hserving
      rw [hmoves.accept] at hjoins
      by_cases hold : old = c
      · rcases hmoves.moved with ⟨u, u', hu, hu', hless⟩
        subst hold
        cases hu'.symm.trans ht
        have hle := u.pc.distance_le
        have hfive : ThreadPc.serving.distance = 5 := rfl
        rw [hserving] at hless
        omega
      · rw [hmoves.others old hold] at ht
        exact hmoves.socket i (h i old hjoins t ht hserving)
  | accept ok =>
      simp only [State.step, State.acceptStep] at hstep
      split at hstep
      case h_1 => cases hstep
      case h_2 cs ip haccept =>
        cases hstep
        exact JoinWakes.select ho haccept
      case h_3 cs ip i oldS joinOld old haccept =>
        cases hstep
        intro j old' hjoins t ht hserving
        refine h j old' ?_ t ht hserving
        rw [haccept]
        simp only [State.closeSocket, State.goto] at hjoins
        cases joinOld <;> exact hjoins
      case h_4 cs ip i joinOld old haccept =>
        have hnone : σ'.accept.joins = none := by
          split at hstep
          · rcases Option.map_eq_some_iff.mp hstep with ⟨m, -, rfl⟩
            rfl
          · cases hstep
            rfl
        intro j old' hjoins
        rw [hnone] at hjoins
        cases hjoins
      case h_5 cs ip i haccept =>
        cases hstep
        intro j old' hjoins
        cases ok <;> cases hjoins
      case h_7 cs ip i haccept =>
        cases ok <;>
        · cases hstep
          intro j old' hjoins
          cases hjoins
      all_goals
        cases hstep
        intro j old' hjoins
        cases hjoins

/-- What holds in every reachable state. -/
structure Coherent (σ : State) : Prop where
  ownership : Ownership σ
  sockets : Sockets σ
  wakes : JoinWakes σ

theorem coherent_init : Coherent State.init := ⟨ownership_init, sockets_init, joinWakes_init⟩

/-- Every step keeps it. -/
theorem Coherent.step {σ σ' : State} (h : Coherent σ) {w : Whitelist} {a : Action}
    (hstep : σ.step w a = some σ') : Coherent σ' :=
  ⟨h.ownership.step hstep, h.sockets.step h.ownership hstep, h.wakes.step h.ownership hstep⟩

/-- A thread that cannot stay where it is: it has begun to leave, or its socket is closed, so
that {lit}`recv` returns. -/
def State.MustLeave (σ : State) (c : ConnId) : Prop :=
  ∃ t, σ.threads c = some t ∧ t.pc ≠ .exited ∧ (t.pc = .serving → σ.closes c = 1)

/-- The thread that the accept loop joins is there. -/
theorem Coherent.joined_thread {σ : State} (h : Coherent σ) {cs : ConnId} {ip : UInt32}
    {i : SlotId} {old : ConnId} (haccept : σ.accept = .reclaimed cs ip i true old) :
    ∃ t, σ.threads old = some t ∧ t.slot = i := by
  have hfree := h.ownership.handled i (by rw [haccept]; rfl)
  have howner : σ.owner i = some old := by
    rw [State.owner, hfree, haccept]
    simp [AcceptLoop.keeps]
  rcases h.ownership.owned i old howner with ⟨t, ht, hslot, -⟩
  exact ⟨t, ht, hslot⟩

/-- A thread that the accept loop waits for has to leave. -/
theorem State.mustLeave_of_join {σ : State} (h : Coherent σ) {cs : ConnId} {ip : UInt32}
    {i : SlotId} {old : ConnId} {t : Thread} (haccept : σ.accept = .reclaimed cs ip i true old)
    (ht : σ.threads old = some t) (hpc : t.pc ≠ .exited) : σ.MustLeave old := by
  refine ⟨t, ht, hpc, fun hserving => ?_⟩
  rcases h.joined_thread haccept with ⟨t', ht', hslot⟩
  cases ht.symm.trans ht'
  have hsocket := h.wakes i old (by rw [haccept]; rfl) t ht hserving
  refine h.sockets.ledger.dropped old (h.ownership.known old t ht) ?_
  rintro (hloop | ⟨j, hj⟩ | ⟨u, hu, htook⟩)
  · -- the loop holds its new connection only, which has no thread
    rw [haccept] at hloop
    have hfresh := (h.ownership.fresh old (by rw [haccept, hloop]; rfl)).1
    rw [ht] at hfresh
    cases hfresh
  · rcases h.sockets.serving j old hj (h.ownership.known old t ht).1 with
      ⟨u, hu, hj', -⟩ | hpub
    · cases ht.symm.trans hu
      rw [← hj', hslot, hsocket] at hj
      cases hj
    · rw [haccept] at hpub
      cases hpub
  · cases ht.symm.trans hu
    rw [hserving] at htook
    cases htook

/-! ## The accept loop -/

/-- The accept loop waits for a thread. -/
def State.Waits (σ : State) : Prop :=
  ∃ cs ip i old t, σ.accept = .reclaimed cs ip i true old ∧ σ.threads old = some t ∧
    t.pc ≠ .exited

/-- The accept loop is in {lit}`accept`, waits for a thread or can take a step. -/
theorem Coherent.acceptStep_isSome {σ : State} (h : Coherent σ) (w : Whitelist) (ok : Bool)
    (hbusy : σ.accept ≠ .waiting) (hfree : ¬ σ.Waits) : (σ.acceptStep w ok).isSome = true := by
  unfold State.acceptStep
  split
  case h_1 haccept => exact absurd haccept hbusy
  case h_4 cs ip i joinOld old haccept =>
    cases joinOld with
    | false => rfl
    | true =>
        rcases h.joined_thread haccept with ⟨t, ht, -⟩
        have hpc : t.pc = .exited := by
          by_contra hpc
          exact hfree ⟨cs, ip, i, old, t, haccept, ht, hpc⟩
        simp [State.joinThread, ht, hpc]
  case h_7 => split <;> rfl
  all_goals rfl

/-- A step of the accept loop brings it closer to {lit}`accept`. -/
theorem State.acceptStep_rank {σ σ' : State} {w : Whitelist} {ok : Bool}
    (h : σ.acceptStep w ok = some σ') : σ'.rank < σ.rank := by
  have hreclaimed : ∀ {m : State} {cs ip i joinOld old},
      m.accept = .reclaimed cs ip i joinOld old → m.rank ≤ 13 ∧ 8 ≤ m.rank := by
    intro m cs ip i joinOld old haccept
    have hle := m.distance_le old
    rw [State.rank, haccept]
    simp only
    split <;> omega
  unfold State.acceptStep at h
  split at h
  case h_1 => cases h
  case h_2 cs ip haccept =>
    cases h
    have hrank : σ.rank = 15 := by rw [State.rank, haccept]
    rw [hrank]
    unfold State.select
    split
    · exact Nat.lt_succ_self 14
    · split
      · split
        · exact Nat.lt_succ_self 14
        · exact Nat.lt_of_sub_eq_succ rfl
      · exact Nat.lt_of_sub_eq_succ rfl
  case h_3 haccept =>
    cases h
    have hrank : σ.rank = 14 := by rw [State.rank, haccept]
    rw [hrank]
    exact Nat.lt_succ_of_le (hreclaimed rfl).1
  case h_4 haccept =>
    have hrank := (hreclaimed haccept).2
    split at h
    · rcases Option.map_eq_some_iff.mp h with ⟨m, -, rfl⟩
      exact hrank
    · cases h
      exact hrank
  case h_5 haccept =>
    cases h
    rw [State.rank, State.rank, haccept]
    cases ok with
    | false => exact show 2 < 7 by decide
    | true => exact show 6 < 7 by decide
  case h_7 haccept =>
    rw [State.rank, State.rank, haccept]
    cases ok with
    | false =>
        cases h
        exact show 4 < 5 by decide
    | true =>
        cases h
        exact show 1 < 5 by decide
  all_goals
    rename_i haccept
    cases h
    rw [State.rank, State.rank, haccept]
    exact Nat.lt_of_sub_eq_succ rfl

/-! ## Fair executions -/

variable {w : Whitelist}

/-- An execution of the server in which the accept loop and the threads that have to leave are
not held up for ever.  A thread in its loop whose socket is open may stay there. -/
structure Fair (e : Execution (State.step w)) : Prop where
  start : e.state 0 = State.init
  accept : e.WeaklyFair (fun σ => ∃ ok, (σ.acceptStep w ok).isSome = true)
    (fun a => ∃ ok, a = .accept ok)
  threads : ∀ c, e.WeaklyFair (fun σ => σ.MustLeave c) (fun a => a = .finish c)

/-- Every state of a fair execution is coherent. -/
theorem Fair.coherent {e : Execution (State.step w)} (h : Fair e) (n : Nat) :
    Coherent (e.state n) :=
  e.invariant (fun _ _ _ hσ hstep => hσ.step hstep) (by rw [h.start]; exact coherent_init) n

/-- The accept loop is busy. -/
def State.Busy (σ : State) : Prop := Coherent σ ∧ σ.accept ≠ .waiting

/-- What is to come: {lit}`accept` again, or a smaller rank. -/
def State.Nearer (k : Nat) (σ : State) : Prop :=
  σ.accept = .waiting ∨ (σ.Busy ∧ σ.rank < k)

/-- A state that is coherent and of a smaller rank is nearer. -/
theorem Coherent.nearer {σ : State} (h : Coherent σ) {k : Nat} (hrank : σ.rank < k) :
    σ.Nearer k := by
  by_cases hwaiting : σ.accept = .waiting
  · exact Or.inl hwaiting
  · exact Or.inr ⟨⟨h, hwaiting⟩, hrank⟩

/-- A step of a process other than the accept loop, while that is busy. -/
theorem State.step_other {σ σ' : State} {a : Action} (hbusy : σ.accept ≠ .waiting)
    (hother : ∀ ok, a ≠ .accept ok) (h : σ.step w a = some σ') :
    σ' = σ ∨ ∃ c, a = .finish c ∧ σ.ThreadMoves σ' c := by
  cases a with
  | arrive ip =>
      cases haccept : σ.accept with
      | waiting => exact absurd haccept hbusy
      | _ =>
          simp only [State.step, haccept] at h
          cases h
  | accept ok => exact absurd rfl (hother ok)
  | serve c =>
      simp only [State.step, State.serveStep] at h
      split at h
      · split at h
        · cases h
          exact Or.inl rfl
        · cases h
      · cases h
  | finish c => exact Or.inr ⟨c, rfl, State.threadStep_moves h⟩

/-- The rank does not grow when a thread takes a step. -/
theorem State.ThreadMoves.rank_le {σ σ' : State} {c : ConnId} (h : σ.ThreadMoves σ' c) :
    σ'.rank ≤ σ.rank := by
  rw [State.rank, State.rank, h.accept]
  cases haccept : σ.accept with
  | reclaimed cs ip i joinOld old =>
      cases joinOld with
      | false => exact le_rfl
      | true => exact Nat.add_le_add_left (h.distance_le old) 8
  | _ => exact le_rfl

/-- A thread that has returned stays so. -/
theorem State.ThreadMoves.waits {σ σ' : State} {c : ConnId} (h : σ.ThreadMoves σ' c)
    (hwaits : σ'.Waits) : σ.Waits := by
  rcases hwaits with ⟨cs, ip, i, old, t, haccept, ht, hpc⟩
  rw [h.accept] at haccept
  by_cases hold : old = c
  · rcases h.moved with ⟨u, u', hu, -, hless⟩
    refine ⟨cs, ip, i, old, u, haccept, hold ▸ hu, fun hexited => ?_⟩
    rw [ThreadPc.distance_eq_zero_iff.mpr hexited] at hless
    cases hless
  · rw [h.others old hold] at ht
    exact ⟨cs, ip, i, old, t, haccept, ht, hpc⟩

/-- A busy accept loop that does not wait for a thread gets nearer. -/
theorem Fair.leadsTo_of_free {e : Execution (State.step w)} (h : Fair e) (k : Nat) :
    e.LeadsTo (fun σ => (σ.Busy ∧ σ.rank = k) ∧ ¬ σ.Waits) (State.Nearer k) := by
  refine Execution.leadsTo_of_fair h.accept ?_ ?_ ?_
  · rintro σ ⟨⟨hbusy, -⟩, hfree⟩
    exact ⟨true, hbusy.1.acceptStep_isSome w true hbusy.2 hfree⟩
  · rintro σ a σ' ⟨⟨hbusy, hrank⟩, hfree⟩ hstep
    have hcoherent := hbusy.1.step hstep
    by_cases haccept : ∃ ok, a = .accept ok
    · rcases haccept with ⟨ok, rfl⟩
      exact Or.inr (hcoherent.nearer (hrank ▸ State.acceptStep_rank hstep))
    · rcases State.step_other hbusy.2 (fun ok hok => haccept ⟨ok, hok⟩) hstep with
        rfl | ⟨c, rfl, hmoves⟩
      · exact Or.inl ⟨⟨hbusy, hrank⟩, hfree⟩
      · rcases Nat.lt_or_eq_of_le hmoves.rank_le with hless | hsame
        · exact Or.inr (hcoherent.nearer (hrank ▸ hless))
        · refine Or.inl ⟨⟨⟨hcoherent, ?_⟩, hsame.trans hrank⟩, fun hwaits => hfree (hmoves.waits hwaits)⟩
          rw [hmoves.accept]
          exact hbusy.2
  · rintro σ a σ' ⟨⟨hbusy, hrank⟩, -⟩ ⟨ok, rfl⟩ hstep
    exact (hbusy.1.step hstep).nearer (hrank ▸ State.acceptStep_rank hstep)

/-- So does one that waits, because the thread has to leave. -/
theorem Fair.leadsTo_of_waits {e : Execution (State.step w)} (h : Fair e) (k : Nat)
    (old : ConnId) :
    e.LeadsTo (fun σ => (σ.Busy ∧ σ.rank = k) ∧ ∃ cs ip i t,
      σ.accept = .reclaimed cs ip i true old ∧ σ.threads old = some t ∧ t.pc ≠ .exited)
      (State.Nearer k) := by
  have hfinish : ∀ {σ σ' : State} {cs ip i}, (σ.Busy ∧ σ.rank = k) →
      σ.accept = .reclaimed cs ip i true old → σ.ThreadMoves σ' old → Coherent σ' →
        σ'.Nearer k := by
    intro σ σ' cs ip i hbusy haccept hmoves hcoherent
    refine hcoherent.nearer ?_
    rw [← hbusy.2, State.rank, State.rank, hmoves.accept, haccept]
    exact Nat.add_lt_add_left hmoves.distance_lt 8
  refine Execution.leadsTo_of_fair (h.threads old) ?_ ?_ ?_
  · rintro σ ⟨⟨hbusy, -⟩, cs, ip, i, t, haccept, ht, hpc⟩
    exact State.mustLeave_of_join hbusy.1 haccept ht hpc
  · rintro σ a σ' ⟨hbusy, cs, ip, i, t, haccept, ht, hpc⟩ hstep
    have hcoherent := hbusy.1.1.step hstep
    by_cases hown : ∃ ok, a = .accept ok
    · -- the join does not return
      rcases hown with ⟨ok, rfl⟩
      simp only [State.step, State.acceptStep, haccept, if_true, State.joinThread, ht,
        if_neg hpc] at hstep
      cases hstep
    · rcases State.step_other hbusy.1.2 (fun ok hok => hown ⟨ok, hok⟩) hstep with
        rfl | ⟨c, rfl, hmoves⟩
      · exact Or.inl ⟨hbusy, cs, ip, i, t, haccept, ht, hpc⟩
      · by_cases hc : c = old
        · subst hc
          exact Or.inr (hfinish hbusy haccept hmoves hcoherent)
        · have hthread := hmoves.others old (fun heq => hc heq.symm)
          rcases Nat.lt_or_eq_of_le hmoves.rank_le with hless | hsame
          · exact Or.inr (hcoherent.nearer (hbusy.2 ▸ hless))
          · refine Or.inl ⟨⟨⟨hcoherent, ?_⟩, hsame.trans hbusy.2⟩, cs, ip, i, t, ?_, ?_, hpc⟩
            · rw [hmoves.accept]
              exact hbusy.1.2
            · rw [hmoves.accept, haccept]
            · rw [hthread, ht]
  · rintro σ a σ' ⟨hbusy, cs, ip, i, t, haccept, ht, hpc⟩ rfl hstep
    exact hfinish hbusy haccept (State.threadStep_moves hstep) (hbusy.1.1.step hstep)

/-- In every fair execution the accept loop comes back to {lit}`accept`, although it joins
threads of consoles that may never send again. -/
theorem Fair.returns {e : Execution (State.step w)} (h : Fair e) (n : Nat) :
    ∃ m, n ≤ m ∧ (e.state m).accept = .waiting := by
  have hbusy : e.LeadsTo State.Busy fun σ => σ.accept = .waiting := by
    refine Execution.leadsTo_of_rank State.rank fun k m hm => ?_
    by_cases hwaits : (e.state m).Waits
    · rcases hwaits with ⟨cs, ip, i, old, t, haccept, ht, hpc⟩
      exact h.leadsTo_of_waits k old m ⟨hm, cs, ip, i, t, haccept, ht, hpc⟩
    · exact h.leadsTo_of_free k m ⟨hm, hwaits⟩
  by_cases hwaiting : (e.state n).accept = .waiting
  · exact ⟨n, le_rfl, hwaiting⟩
  · exact hbusy n ⟨h.coherent n, hwaiting⟩

/-- While the accept loop is in {lit}`accept` it holds no socket. -/
theorem Sockets.exists_thread {σ : State} (hs : Sockets σ) (haccept : σ.accept = .waiting)
    {c : ConnId} (hpos : 0 < c) (hholds : σ.Holds c) : ∃ t, σ.threads c = some t := by
  rcases hholds with hloop | ⟨i, hi⟩ | ⟨t, ht, -⟩
  · rw [haccept] at hloop
    exact hloop.elim
  · rcases hs.serving i c hi hpos with ⟨t, ht, -⟩ | hpub
    · exact ⟨t, ht⟩
    · rw [haccept] at hpub
      cases hpub
  · exact ⟨t, ht⟩

/-- The server never stops taking connections, and it leaves none hanging: whatever the
consoles that are served do, the accept loop comes back to {lit}`accept` again and again, and
then every connection taken so far has got its thread or has been closed, once. -/
theorem connections_settled {e : Execution (State.step w)} (h : Fair e) (n : Nat) :
    ∃ m, n ≤ m ∧ (e.state m).accept = .waiting ∧ ∀ c, (e.state m).Accepted c →
      (∃ t, (e.state m).threads c = some t) ∨ (e.state m).closes c = 1 := by
  rcases h.returns n with ⟨m, hm, hwaiting⟩
  refine ⟨m, hm, hwaiting, fun c hc => ?_⟩
  have hs := (h.coherent m).sockets
  by_cases hholds : (e.state m).Holds c
  · exact Or.inl (hs.exists_thread hwaiting hc.1 hholds)
  · exact Or.inr (hs.ledger.dropped c hc hholds)

/-- The reconnection of a console as an execution: nobody has anything left to do after it. -/
theorem exists_fair_reconnection : ∃ e : Execution (State.step ⟨0, 0⟩), Fair e ∧
    (∀ n, e.action n = reconnection[n]?) ∧
      ∀ n, Lib.run (State.step ⟨0, 0⟩) State.init (reconnection.take n) = some (e.state n) := by
  obtain ⟨σ, hrun⟩ : ∃ σ, Lib.run (State.step ⟨0, 0⟩) State.init reconnection = some σ := ⟨_, rfl⟩
  rcases Execution.exists_of_run hrun with ⟨e, haction, hstate, hend⟩
  have hstart : e.state 0 = State.init := (Option.some.inj (hstate 0)).symm
  have hwaiting : σ.accept = .waiting := by
    cases hrun
    rfl
  have hgone : ∀ c t, σ.threads c = some t → t.pc = .exited := by
    intro c t ht
    have hknown := (invariants_run hrun).1.known c t ht
    cases hrun
    have htwo : ∀ k : Nat, 0 < k → k < 3 → k = 1 ∨ k = 2 := by omega
    rcases htwo c hknown.1 hknown.2 with rfl | rfl
    · cases ht
      rfl
    · cases ht
  refine ⟨e, ⟨hstart, ?_, ?_⟩, haction, hstate⟩
  · intro n hdue
    rcases hdue (max n 25) (le_max_left n 25) with ⟨ok, hok⟩
    rw [hend _ (le_max_right n 25), State.acceptStep, hwaiting] at hok
    cases hok
  · intro c n hdue
    rcases hdue (max n 25) (le_max_left n 25) with ⟨t, ht, hpc, -⟩
    rw [hend _ (le_max_right n 25)] at ht
    exact absurd (hgone c t ht) hpc

/-- The console connects again while its first thread sits in its loop, and the accept loop
comes back. -/
theorem connections_settled_reconnection : ∃ e : Execution (State.step ⟨0, 0⟩), Fair e ∧
    (∀ n, e.action n = reconnection[n]?) ∧ ∃ m, 10 ≤ m ∧ (e.state m).accept = .waiting ∧
      ∀ c, (e.state m).Accepted c →
        (∃ t, (e.state m).threads c = some t) ∨ (e.state m).closes c = 1 := by
  rcases exists_fair_reconnection with ⟨e, hfair, haction, -⟩
  exact ⟨e, hfair, haction, connections_settled hfair 10⟩

/-! ## Threads whose socket was closed -/

/-- The critical section closes nothing and leaves the threads alone. -/
theorem State.select_frame (w : Whitelist) (σ : State) (cs : ConnId) (ip : UInt32) :
    (σ.select w cs ip).threads = σ.threads ∧ (σ.select w cs ip).closes = σ.closes := by
  unfold State.select
  split
  · exact ⟨rfl, rfl⟩
  · split
    · split
      · exact ⟨rfl, rfl⟩
      · exact ⟨rfl, rfl⟩
    · exact ⟨rfl, rfl⟩

/-- A join that returns has found the thread gone. -/
theorem State.joinThread_eq_some {σ m : State} {c : ConnId} (h : σ.joinThread c = some m) :
    ∃ t, σ.threads c = some t ∧ t.pc = .exited ∧ m = σ.setThread c { t with joined := true } := by
  unfold State.joinThread at h
  split at h
  · rename_i t ht
    split at h
    · rename_i hexited
      exact ⟨t, ht, hexited, (Option.some.inj h).symm⟩
    · cases h
  · cases h

/-- A step never takes back that a socket was closed. -/
theorem State.closes_mono {σ σ' : State} {a : Action} (h : σ.step w a = some σ') (c : ConnId) :
    σ.closes c ≤ σ'.closes c := by
  cases a with
  | arrive ip =>
      simp only [State.step] at h
      split at h
      · cases h
        exact le_rfl
      · cases h
  | accept ok =>
      simp only [State.step, State.acceptStep] at h
      split at h
      case h_1 => cases h
      case h_2 cs ip haccept =>
        cases h
        rw [(σ.select_frame w cs ip).2]
      case h_4 =>
        split at h
        · rcases Option.map_eq_some_iff.mp h with ⟨m, hjoin, rfl⟩
          rcases State.joinThread_eq_some hjoin with ⟨t, -, -, rfl⟩
          exact le_rfl
        · cases h
          exact le_rfl
      case h_7 =>
        split at h
        · cases h
          exact le_rfl
        · cases h
          exact le_rfl
      all_goals
        cases h
        first
          | exact le_rfl
          | exact σ.closes_le_closeSocket _ c
  | serve d =>
      simp only [State.step, State.serveStep] at h
      split at h
      · split at h
        · cases h
          exact le_rfl
        · cases h
      · cases h
  | finish d => exact (State.threadStep_moves h).closes c

/-- The accept loop leaves a thread alone that has not returned. -/
theorem Ownership.acceptStep_thread {σ σ' : State} (ho : Ownership σ) {ok : Bool}
    (h : σ.acceptStep w ok = some σ') {c : ConnId} {t : Thread} (ht : σ.threads c = some t)
    (hpc : t.pc ≠ .exited) : σ'.threads c = some t := by
  unfold State.acceptStep at h
  split at h
  case h_1 => cases h
  case h_2 cs ip haccept =>
    cases h
    rw [(σ.select_frame w cs ip).1]
    exact ht
  case h_4 cs ip i joinOld old haccept =>
    split at h
    · rcases Option.map_eq_some_iff.mp h with ⟨m, hjoin, rfl⟩
      rcases State.joinThread_eq_some hjoin with ⟨u, hu, hexited, rfl⟩
      have hne : c ≠ old := by
        rintro rfl
        cases ht.symm.trans hu
        exact hpc hexited
      simpa [State.goto, State.setThread, hne] using ht
    · cases h
      exact ht
  case h_7 cs ip i haccept =>
    have hne : c ≠ cs := ho.fresh_ne (by rw [haccept]; rfl) ht
    cases ok with
    | false =>
        cases h
        exact ht
    | true =>
        cases h
        simpa [State.goto, State.setThread, State.setSlot, hne] using ht
  all_goals
    cases h
    exact ht

/-- A thread that has to leave has to leave until it does. -/
theorem Coherent.mustLeave_step {σ σ' : State} (h : Coherent σ) {a : Action}
    (hstep : σ.step w a = some σ') {c : ConnId} (hleave : σ.MustLeave c) :
    (a ≠ .finish c ∧ σ'.threads c = σ.threads c ∧ σ'.MustLeave c) ∨
      (a = .finish c ∧ σ.ThreadMoves σ' c) := by
  rcases hleave with ⟨t, ht, hpc, hclosed⟩
  have hkeep : σ'.threads c = some t → σ'.threads c = σ.threads c ∧ σ'.MustLeave c := by
    intro ht'
    refine ⟨ht'.trans ht.symm, t, ht', hpc, fun hserving => ?_⟩
    have hone := (h.step hstep).sockets.ledger.releases_le_one c
    have hcloses := State.closes_mono hstep c
    rw [hclosed hserving] at hcloses
    exact Nat.le_antisymm hone hcloses
  cases a with
  | arrive ip =>
      have hsame : σ'.threads = σ.threads := by
        simp only [State.step] at hstep
        split at hstep
        · cases hstep
          rfl
        · cases hstep
      exact Or.inl ⟨fun ha => absurd ha (by simp), hkeep (by rw [hsame, ht])⟩
  | accept ok =>
      have hsame := h.ownership.acceptStep_thread hstep ht hpc
      exact Or.inl ⟨fun ha => absurd ha (by simp), hkeep hsame⟩
  | serve d =>
      simp only [State.step, State.serveStep] at hstep
      split at hstep
      · split at hstep
        · cases hstep
          exact Or.inl ⟨fun ha => absurd ha (by simp), hkeep ht⟩
        · cases hstep
      · cases hstep
  | finish d =>
      by_cases hd : d = c
      · subst hd
        exact Or.inr ⟨rfl, State.threadStep_moves hstep⟩
      · have hmoves := State.threadStep_moves hstep
        refine Or.inl ⟨fun ha => hd (Action.finish.inj ha), hkeep ?_⟩
        rw [hmoves.others c (fun heq => hd heq.symm), ht]

/-- A thread that has to leave returns. -/
theorem Fair.leadsTo_exited {e : Execution (State.step w)} (h : Fair e) (c : ConnId) :
    e.LeadsTo (fun σ => Coherent σ ∧ σ.MustLeave c)
      fun σ => ∃ t, σ.threads c = some t ∧ t.pc = .exited := by
  refine Execution.leadsTo_of_rank (fun σ => σ.distance c) fun k => ?_
  have htaken : ∀ σ σ' : State, Coherent σ → σ.distance c = k → Coherent σ' →
      σ.ThreadMoves σ' c → (∃ t, σ'.threads c = some t ∧ t.pc = .exited) ∨
        ((Coherent σ' ∧ σ'.MustLeave c) ∧ σ'.distance c < k) := by
    intro σ σ' hσ hk hσ' hmoves
    rcases hmoves.moved with ⟨t, t', ht, ht', hless⟩
    by_cases hexited : t'.pc = .exited
    · exact Or.inl ⟨t', ht', hexited⟩
    · refine Or.inr ⟨⟨hσ', t', ht', hexited, fun hserving => ?_⟩, hk ▸ hmoves.distance_lt⟩
      -- a thread that has moved is no longer in its loop
      have hle := t.pc.distance_le
      rw [hserving] at hless
      have hfive : ThreadPc.serving.distance = 5 := rfl
      omega
  refine Execution.leadsTo_of_fair (h.threads c) ?_ ?_ ?_
  · intro σ hσ
    exact hσ.1.2
  · intro σ a σ' hσ hstep
    have hcoherent := hσ.1.1.step hstep
    rcases hσ.1.1.mustLeave_step hstep hσ.1.2 with ⟨-, hsame, hleave⟩ | ⟨-, hmoves⟩
    · refine Or.inl ⟨⟨hcoherent, hleave⟩, ?_⟩
      rw [← hσ.2, State.distance, State.distance, hsame]
    · exact Or.inr (htaken σ σ' hσ.1.1 hσ.2 hcoherent hmoves)
  · intro σ a σ' hσ ha hstep
    subst ha
    exact htaken σ σ' hσ.1.1 hσ.2 (hσ.1.1.step hstep) (State.threadStep_moves hstep)

/-- The accept loop's new connection has an open socket. -/
theorem Ownership.holds_of_fresh {σ : State} (ho : Ownership σ) {c : ConnId}
    (h : σ.accept.fresh = some c) : σ.Holds c := by
  have hprepared := ho.prepared
  unfold State.Prepared at hprepared
  cases haccept : σ.accept with
  | published cs ip i =>
      rw [haccept] at h hprepared
      cases h
      exact Or.inr (Or.inl ⟨i, hprepared.2.1⟩)
  | failedStart cs i =>
      rw [haccept] at h hprepared
      cases h
      exact Or.inr (Or.inl ⟨i, hprepared⟩)
  | reserved cs ip i oldS joinOld old =>
      rw [haccept] at h
      cases h
      exact Or.inl (by rw [haccept]; exact Or.inl rfl)
  | _ =>
      rw [haccept] at h
      cases h
      try exact Or.inl (by rw [haccept]; rfl)

/-- A connection whose socket was closed has ended when its thread has returned. -/
theorem Coherent.ended {σ : State} (h : Coherent σ) {c : ConnId} (hclosed : σ.closes c = 1)
    (hexited : ∀ t, σ.threads c = some t → t.pc = .exited) : σ.Ended c := by
  have haccepted : σ.Accepted c := by
    by_contra hnot
    rw [h.sockets.ledger.unissued c hnot] at hclosed
    cases hclosed
  have hfree : ¬ σ.Holds c := by
    intro hholds
    rw [h.sockets.ledger.held c haccepted hholds] at hclosed
    cases hclosed
  refine ⟨haccepted, hexited, fun hfresh => hfree (h.ownership.holds_of_fresh hfresh), ?_⟩
  intro cs ip i joinOld old haccept
  exact hfree (Or.inl (by rw [haccept]; exact Or.inr rfl))

/-- A closed socket stays closed. -/
theorem Fair.closed_later {e : Execution (State.step w)} (h : Fair e) {c : ConnId} {n m : Nat}
    (hnm : n ≤ m) (hclosed : (e.state n).closes c = 1) : (e.state m).closes c = 1 := by
  induction m, hnm using Nat.le_induction with
  | base => exact hclosed
  | succ m _ ih =>
      rcases e.next_cases m with hsame | ⟨a, -, hstep⟩
      · rw [hsame]
        exact ih
      · have hcloses := State.closes_mono hstep c
        have hone := (h.coherent (m + 1)).sockets.ledger.releases_le_one c
        rw [ih] at hcloses
        exact Nat.le_antisymm hone hcloses

/-- A connection ends once its socket is closed: its thread returns whatever its console
does, also when the accept loop has closed the socket because the console connected again. -/
theorem closed_connection_ends {e : Execution (State.step w)} (h : Fair e) {n : Nat}
    {c : ConnId} (hclosed : (e.state n).closes c = 1) : ∃ m, n ≤ m ∧ (e.state m).Ended c := by
  by_cases hexited : ∀ t, (e.state n).threads c = some t → t.pc = .exited
  · exact ⟨n, le_rfl, (h.coherent n).ended hclosed hexited⟩
  · push Not at hexited
    rcases hexited with ⟨t, ht, hpc⟩
    have hleave : (e.state n).MustLeave c := ⟨t, ht, hpc, fun _ => hclosed⟩
    rcases h.leadsTo_exited c n ⟨h.coherent n, hleave⟩ with ⟨m, hm, u, hu, hdone⟩
    refine ⟨m, hm, (h.coherent m).ended (h.closed_later hm hclosed) fun t' ht' => ?_⟩
    cases hu.symm.trans ht'
    exact hdone

/-- In that reconnection the socket of the first connection is closed, and it ends. -/
theorem closed_connection_ends_reconnection : ∃ e : Execution (State.step ⟨0, 0⟩), Fair e ∧
    (e.state 14).closes 1 = 1 ∧ ∃ m, 14 ≤ m ∧ (e.state m).Ended 1 := by
  rcases exists_fair_reconnection with ⟨e, hfair, -, hstate⟩
  have hclosed : (e.state 14).closes 1 = 1 := by
    have hrun : (Lib.run (State.step ⟨0, 0⟩) State.init (reconnection.take 14)).map
        (fun σ => σ.closes 1) = some 1 := rfl
    rw [hstate 14] at hrun
    exact Option.some.inj hrun
  exact ⟨e, hfair, hclosed, closed_connection_ends hfair hclosed⟩

end Ps3Netsrv.Clients
