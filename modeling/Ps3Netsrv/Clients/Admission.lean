import Ps3Netsrv.Clients.Progress

/-!
# Who gets a slot

The critical section of the accept loop decides by the records of the slots: a slot of the
same address is taken over, without another look at the whitelist, and only then a free one is
searched for.  What consoles see is the addresses they connect from.  This module ties the two
together over whole runs: the address in the slot of a thread is that of its connection, and
no thread is ever started for an address that the whitelist does not let through.

Main results:

- Definition {lit}`addressOf`: the address a connection came from.
- Definition {lit}`Admitted`: the invariant that ties the slots to the addresses.
- Theorem {lit}`admission`: who takes a slot over, who gets a free one and who is turned away.
- Theorem {lit}`threads_allowed`: whose connections get a thread.
-/

namespace Ps3Netsrv.Clients

/-! ## Addresses -/

/-- The address of a connection that arrives. -/
def Action.address : Action → Option UInt32
  | .arrive ip => some ip
  | _ => none

/-- The address a connection came from: connections are numbered from 1 in the order in which
they arrive. -/
def addressOf (acts : List Action) (c : ConnId) : Option UInt32 :=
  if c = 0 then none else (acts.filterMap Action.address)[c - 1]?

/-- The connection the accept loop works on, with the address it has for it. -/
def AcceptLoop.newcomer : AcceptLoop → Option (ConnId × UInt32)
  | .accepted cs ip | .reserved cs ip _ _ _ _ | .reclaimed cs ip _ _ _ | .joined cs ip _
  | .initialized cs ip _ | .published cs ip _ => some (cs, ip)
  | _ => none

/-- The slots and the accept loop have the addresses of their connections, past the critical
section there are only addresses that the whitelist lets through, and a slot is only taken
from a connection of the same address. -/
structure Admitted (w : Whitelist) (address : ConnId → Option UInt32) (σ : State) : Prop where
  newcomer : ∀ c ip, σ.accept.newcomer = some (c, ip) → address c = some ip
  chosen : ∀ i ip, σ.accept.claim = some (i, ip) → w.allows ip = true
  owned : ∀ i c, σ.owner i = some c → address c = some (σ.slots i).ip_addr
  threads : ∀ c t, σ.threads c = some t → ∃ ip, address c = some ip ∧ w.allows ip = true
  takes : ∀ i ip c t, σ.accept.claim = some (i, ip) → σ.owner i = some c →
    σ.threads c = some t → t.pc.live = true → (σ.slots i).ip_addr = ip

namespace Admitted

variable {w : Whitelist} {address : ConnId → Option UInt32} {σ σ' : State}

/-- A step that starts no thread and hands no slot over keeps the invariant. -/
theorem keep (h : Admitted w address σ)
    (hnewcomer : ∀ c ip, σ'.accept.newcomer = some (c, ip) → σ.accept.newcomer = some (c, ip))
    (hchosen : ∀ i ip, σ'.accept.claim = some (i, ip) → σ.accept.claim = some (i, ip))
    (howned : ∀ i c, σ'.owner i = some c →
      σ.owner i = some c ∧ (σ'.slots i).ip_addr = (σ.slots i).ip_addr)
    (hthreads : ∀ c t, σ'.threads c = some t →
      ∃ u, σ.threads c = some u ∧ (t.pc.live = true → u.pc.live = true)) :
    Admitted w address σ' where
  newcomer c ip hc := h.newcomer c ip (hnewcomer c ip hc)
  chosen i ip hi := h.chosen i ip (hchosen i ip hi)
  owned i c hi := by
    rcases howned i c hi with ⟨hold, hsame⟩
    rw [hsame]
    exact h.owned i c hold
  threads c t ht := by
    rcases hthreads c t ht with ⟨u, hu, -⟩
    exact h.threads c u hu
  takes i ip c t hi hc ht hlive := by
    rcases hthreads c t ht with ⟨u, hu, hlived⟩
    rcases howned i c hc with ⟨hold, hsame⟩
    rw [hsame]
    exact h.takes i ip c u (hchosen i ip hi) hold hu (hlived hlive)

/-- Moving the accept loop on, with the slots and the threads as they are. -/
theorem keep_goto (h : Admitted w address σ) (hslots : σ'.slots = σ.slots)
    (hthreads : σ'.threads = σ.threads)
    (hkeeps : ∀ i c, σ'.accept.keeps i = some c → σ.accept.keeps i = some c)
    (hnewcomer : ∀ c ip, σ'.accept.newcomer = some (c, ip) → σ.accept.newcomer = some (c, ip))
    (hchosen : ∀ i ip, σ'.accept.claim = some (i, ip) → σ.accept.claim = some (i, ip)) :
    Admitted w address σ' := by
  refine h.keep hnewcomer hchosen (fun i c hi => ?_) fun c t ht => ⟨t, hthreads ▸ ht, id⟩
  rw [State.owner, hslots] at hi
  rw [hslots]
  refine ⟨?_, rfl⟩
  rw [State.owner]
  split
  · rwa [if_pos ‹_›] at hi
  · rw [if_neg ‹_›] at hi
    exact hkeeps i c hi

/-- Writing the slot the accept loop works on, which nobody is recorded in. -/
theorem keep_setSlot (h : Admitted w address σ) {i : SlotId} {slot : Slot} {a : AcceptLoop}
    (hrecord : slot.hasThread = false) (hkeeps : a.keeps = fun _ => none)
    (hnewcomer : ∀ c ip, a.newcomer = some (c, ip) → σ.accept.newcomer = some (c, ip))
    (hchosen : ∀ j ip, a.claim = some (j, ip) → σ.accept.claim = some (j, ip)) :
    Admitted w address ((σ.setSlot i slot).goto a) := by
  refine h.keep hnewcomer hchosen (fun j c hj => ?_) fun c t ht => ⟨t, ht, id⟩
  have hji : j ≠ i := by
    intro hji
    subst hji
    simp [State.owner, State.goto, State.setSlot, hrecord, hkeeps] at hj
  have hslot : ((σ.setSlot i slot).goto a).slots j = σ.slots j := Function.update_of_ne hji ..
  rw [State.owner, hslot] at hj
  rw [hslot]
  refine ⟨?_, rfl⟩
  rw [State.owner]
  split
  · rwa [if_pos ‹_›] at hj
  · rw [if_neg ‹_›] at hj
    simp [State.goto, hkeeps] at hj

/-- Rewriting a slot and keeping its record. -/
theorem owner_setSlot {i : SlotId} {slot : Slot} (σ : State)
    (hrecord : slot.hasThread = (σ.slots i).hasThread) (hthread : slot.thread = (σ.slots i).thread)
    (j : SlotId) : (σ.setSlot i slot).owner j = σ.owner j := by
  rw [State.owner, State.owner]
  by_cases hji : j = i
  · subst hji
    simp [State.setSlot, hrecord, hthread]
  · simp [State.setSlot, hji]

/-- The reservation of a slot keeps everybody's record. -/
theorem owner_reserve {cs : ConnId} {ip : UInt32} (haccept : σ.accept = .accepted cs ip)
    (i : SlotId) (oldS s : Option ConnId) (j : SlotId) :
    (σ.reserve cs ip i oldS s).owner j = σ.owner j ∧
      ((σ.reserve cs ip i oldS s).slots j).ip_addr = (σ.slots j).ip_addr := by
  unfold State.reserve State.owner
  rw [haccept]
  by_cases hji : j = i
  · subst hji
    simp [State.goto, State.setSlot, AcceptLoop.keeps]
  · simp [State.goto, State.setSlot, AcceptLoop.keeps, hji]

/-- The reservation of a slot for an address that passes keeps the invariant, if nobody from
another address is served in the slot. -/
theorem reserve (h : Admitted w address σ) {cs : ConnId} {ip : UInt32}
    (haccept : σ.accept = .accepted cs ip) (hallows : w.allows ip = true) (i : SlotId)
    (htakes : σ.LiveOwner i → (σ.slots i).ip_addr = ip) (oldS s : Option ConnId) :
    Admitted w address (σ.reserve cs ip i oldS s) where
  newcomer c ip' hc := h.newcomer c ip' (by rw [haccept]; exact hc)
  chosen j ip' hj := by
    cases hj
    exact hallows
  owned j c hj := by
    rw [(owner_reserve haccept i oldS s j).1] at hj
    rw [(owner_reserve haccept i oldS s j).2]
    exact h.owned j c hj
  threads := h.threads
  takes j ip' c t hj hc ht hlive := by
    cases hj
    rw [(owner_reserve haccept i oldS s i).1] at hc
    rw [(owner_reserve haccept i oldS s i).2]
    exact htakes ⟨c, t, hc, ht, hlive⟩

/-- A connected slot belongs to a connection from the address it records. -/
theorem of_connected (h : Admitted w address σ) (ho : Ownership σ) {i : SlotId}
    (hidle : σ.accept.handled ≠ some i) (hconnected : (σ.slots i).connected = true) :
    ∃ c t, σ.owner i = some c ∧ σ.threads c = some t ∧ t.pc.live = true ∧ t.slot = i ∧
      address c = some (σ.slots i).ip_addr := by
  rcases (ho.connected i hidle).mp hconnected with ⟨c, t, hc, ht, hlive⟩
  rcases ho.owned i c hc with ⟨u, hu, hslot, -⟩
  cases ht.symm.trans hu
  exact ⟨c, t, hc, ht, hlive, hslot, h.owned i c hc⟩

/-- The critical section keeps the invariant: an address that is served already has passed
the whitelist before. -/
theorem select (h : Admitted w address σ) (ho : Ownership σ) {cs : ConnId} {ip : UInt32}
    (haccept : σ.accept = .accepted cs ip) : Admitted w address (σ.select w cs ip) := by
  have hclosing : Admitted w address (σ.goto (.closing cs)) :=
    h.keep_goto rfl rfl (fun _ _ hk => by cases hk) (fun _ _ hn => by cases hn)
      fun _ _ hc => by cases hc
  unfold State.select
  split
  case h_1 i hfound =>
    have hi := State.findSlot_eq_some hfound
    rw [Bool.and_eq_true, beq_iff_eq] at hi
    rcases h.of_connected ho (by rw [haccept]; simp [AcceptLoop.handled]) hi.1 with
      ⟨c, t, -, ht, -, -, haddress⟩
    rcases h.threads c t ht with ⟨ip', hip', hallows⟩
    rw [haddress, hi.2] at hip'
    cases hip'
    exact h.reserve haccept hallows i (fun _ => hi.2) _ _
  case h_2 =>
    split
    case isTrue hallows =>
      split
      case h_1 i hfound =>
        refine h.reserve haccept hallows i (fun hlive => ?_) _ _
        have hfree := State.findSlot_eq_some hfound
        rw [(ho.connected i (by rw [haccept]; simp [AcceptLoop.handled])).mpr hlive] at hfree
        cases hfree
      case h_2 => exact hclosing
    case isFalse => exact hclosing

/-- Starting the thread of the connection whose address is in the slot. -/
theorem start (h : Admitted w address σ) (ho : Ownership σ) {cs : ConnId} {ip : UInt32}
    {i : SlotId} (haccept : σ.accept = .published cs ip i) :
    Admitted w address (((σ.setThread cs ⟨i, .serving, false⟩).setSlot i
      { σ.slots i with thread := cs }).goto (.started cs i)) where
  newcomer _ _ hc := by cases hc
  chosen _ _ hc := by cases hc
  owned j c hj := by
    have haddress := h.newcomer cs ip (by rw [haccept]; rfl)
    by_cases hji : j = i
    · subst hji
      have hprepared := ho.prepared
      rw [State.Prepared, haccept] at hprepared
      have hhas := ho.handled j (by rw [haccept]; rfl)
      simp [State.owner, State.goto, State.setSlot, AcceptLoop.keeps, hhas] at hj
      subst hj
      simpa [State.goto, State.setSlot, hprepared.2.2] using haddress
    · have howner : σ.owner j = some c := by
        simpa [State.owner, State.goto, State.setSlot, State.setThread, AcceptLoop.keeps, hji,
          haccept] using hj
      simpa [State.goto, State.setSlot, State.setThread, hji] using h.owned j c howner
  threads c t ht := by
    by_cases hc : c = cs
    · subst hc
      exact ⟨ip, h.newcomer c ip (by rw [haccept]; rfl), h.chosen i ip (by rw [haccept]; rfl)⟩
    · refine h.threads c t ?_
      simpa [State.goto, State.setSlot, State.setThread, hc] using ht
  takes _ _ _ _ hc := by cases hc

/-- Every step of the accept loop keeps the invariant. -/
theorem acceptStep (h : Admitted w address σ) (ho : Ownership σ) {ok : Bool}
    (hstep : σ.acceptStep w ok = some σ') : Admitted w address σ' := by
  unfold State.acceptStep at hstep
  split at hstep
  case h_1 => cases hstep
  case h_2 cs ip haccept =>
    cases hstep
    exact h.select ho haccept
  case h_3 cs ip i oldS joinOld old haccept =>
    cases hstep
    refine h.keep_goto rfl rfl ?_ ?_ ?_
    · rw [haccept]
      exact fun _ _ hk => hk
    · rw [haccept]
      exact fun _ _ hn => hn
    · rw [haccept]
      exact fun _ _ hc => hc
  case h_4 cs ip i joinOld old haccept =>
    have hgoto : ∀ {m : State}, Admitted w address m → m.accept = σ.accept →
        Admitted w address (m.goto (.joined cs ip i)) := by
      intro m hm hsame
      refine hm.keep_goto rfl rfl (fun _ _ hk => by cases hk) ?_ ?_
      · rw [hsame, haccept]
        exact fun _ _ hn => hn
      · rw [hsame, haccept]
        exact fun _ _ hc => hc
    split at hstep
    · rcases Option.map_eq_some_iff.mp hstep with ⟨m, hjoin, rfl⟩
      rcases State.joinThread_eq_some hjoin with ⟨t, ht, -, rfl⟩
      refine hgoto (h.keep (fun _ _ hn => hn) (fun _ _ hc => hc)
        (fun _ _ hc => ⟨hc, rfl⟩) fun c u hu => ?_) rfl
      by_cases hc : c = old
      · subst hc
        have hu' : u = { t with joined := true } := by simpa [State.setThread] using hu.symm
        exact ⟨t, ht, by rw [hu']; exact id⟩
      · exact ⟨u, by simpa [State.setThread, hc] using hu, id⟩
    · cases hstep
      exact hgoto h rfl
  case h_5 cs ip i haccept =>
    cases hstep
    cases ok with
    | false =>
        exact h.keep_setSlot rfl rfl (fun _ _ hn => by cases hn) fun _ _ hc => by cases hc
    | true =>
        refine h.keep_setSlot rfl rfl ?_ ?_
        · rw [haccept]
          exact fun _ _ hn => hn
        · rw [haccept]
          exact fun _ _ hc => hc
  case h_6 cs ip i haccept =>
    cases hstep
    refine h.keep_setSlot (ho.handled i (by rw [haccept]; rfl)) rfl ?_ ?_
    · rw [haccept]
      exact fun _ _ hn => hn
    · rw [haccept]
      exact fun _ _ hc => hc
  case h_7 cs ip i haccept =>
    cases ok with
    | false =>
        cases hstep
        exact h.keep_goto rfl rfl (fun _ _ hk => by cases hk) (fun _ _ hn => by cases hn)
          fun _ _ hc => by cases hc
    | true =>
        cases hstep
        exact h.start ho haccept
  case h_8 cs i haccept =>
    cases hstep
    refine h.keep (fun _ _ hn => by cases hn) (fun _ _ hc => by cases hc) (fun j c hj => ?_)
      fun c t ht => ⟨t, ht, id⟩
    have hstarted := ho.started cs i haccept
    rw [State.owner] at hj ⊢
    by_cases hji : j = i
    · subst hji
      simp [State.goto, State.setSlot] at hj
      simp [State.goto, State.setSlot, hstarted.2, haccept, AcceptLoop.keeps, ← hj, hstarted.1]
    · simpa [State.goto, State.setSlot, hji, haccept, AcceptLoop.keeps] using hj
  case h_11 i s haccept =>
    cases hstep
    exact h.keep_goto rfl rfl (fun _ _ hk => by cases hk) (fun _ _ hn => by cases hn)
      fun _ _ hc => by cases hc
  case h_14 cs haccept =>
    cases hstep
    exact h.keep_goto rfl rfl (fun _ _ hk => by cases hk) (fun _ _ hn => by cases hn)
      fun _ _ hc => by cases hc
  all_goals
    rename_i i haccept
    cases hstep
    exact h.keep_setSlot (ho.handled i (by rw [haccept]; rfl)) rfl (fun _ _ hn => by cases hn)
      fun _ _ hc => by cases hc

/-- So does every step of a thread. -/
theorem threadStep (h : Admitted w address σ) {c : ConnId}
    (hstep : σ.threadStep c = some σ') : Admitted w address σ' := by
  unfold State.threadStep at hstep
  split at hstep
  case h_1 => cases hstep
  case h_2 t ht =>
    have hmine : ∀ u : Thread, (u.pc.live = true → t.pc.live = true) →
        ∀ (d : ConnId) (v : Thread), (σ.setThread c u).threads d = some v →
          ∃ u', σ.threads d = some u' ∧ (v.pc.live = true → u'.pc.live = true) := by
      intro u hlive d v hv
      by_cases hd : d = c
      · subst hd
        have hv' : v = u := by simpa [State.setThread] using hv.symm
        exact ⟨t, ht, by rw [hv']; exact hlive⟩
      · exact ⟨v, by simpa [State.setThread, hd] using hv, id⟩
    have hwrite : ∀ (u : Thread) (slot : Slot), (u.pc.live = true → t.pc.live = true) →
        slot.hasThread = (σ.slots t.slot).hasThread →
        slot.thread = (σ.slots t.slot).thread → slot.ip_addr = (σ.slots t.slot).ip_addr →
          Admitted w address ((σ.setThread c u).setSlot t.slot slot) := by
      intro u slot hlive hrecord hthread hip
      refine h.keep (fun _ _ hn => hn) (fun _ _ hc => hc) (fun j d hj => ?_) (hmine u hlive)
      have howner := owner_setSlot (σ.setThread c u) hrecord hthread j
      refine ⟨howner.symm.trans hj, ?_⟩
      by_cases hji : j = t.slot
      · subst hji
        simpa [State.setSlot] using hip
      · simp [State.setSlot, hji, State.setThread]
    dsimp only at hstep
    split at hstep
    case h_6 => cases hstep
    case h_2 s hpc =>
      cases hstep
      exact h.keep (fun _ _ hn => hn) (fun _ _ hc => hc) (fun _ _ hc => ⟨hc, rfl⟩)
        (hmine _ fun _ => by rw [hpc]; rfl)
    case h_5 =>
      cases hstep
      exact h.keep (fun _ _ hn => hn) (fun _ _ hc => hc) (fun _ _ hc => ⟨hc, rfl⟩)
        (hmine _ fun hlive => by cases hlive)
    all_goals
      rename_i hpc
      cases hstep
      exact hwrite _ _ (fun _ => by rw [hpc]; rfl) rfl rfl rfl

/-- A connection that arrives gets its address. -/
theorem arrive (h : Admitted w address σ) (ho : Ownership σ) {ip : UInt32}
    {address' : ConnId → Option UInt32} (hnew : address' σ.next = some ip)
    (hold : ∀ c, 0 < c → c < σ.next → address' c = address c)
    (hstep : σ.step w (.arrive ip) = some σ') : Admitted w address' σ' := by
  simp only [State.step] at hstep
  split at hstep
  case h_2 => cases hstep
  case h_1 hwaiting =>
    cases hstep
    constructor
    case newcomer =>
      intro c ip' hc
      cases hc
      exact hnew
    case chosen =>
      intro i ip' hi
      cases hi
    case owned =>
      intro i c hi
      have howner : σ.owner i = some c := by
        simpa [State.owner, hwaiting, AcceptLoop.keeps] using hi
      rcases ho.owned i c howner with ⟨t, ht, -, -⟩
      rw [hold c (ho.known c t ht).1 (ho.known c t ht).2]
      exact h.owned i c howner
    case threads =>
      intro c t ht
      rw [hold c (ho.known c t ht).1 (ho.known c t ht).2]
      exact h.threads c t ht
    case takes =>
      intro i ip' c t hi
      cases hi

end Admitted

/-! ## Runs -/

/-- A connection that is not the last one keeps its address when another one arrives. -/
theorem addressOf_append (acts : List Action) (a : Action) (c : ConnId)
    (hc : c ≤ (acts.filterMap Action.address).length) :
    addressOf (acts ++ [a]) c = addressOf acts c := by
  unfold addressOf
  by_cases hzero : c = 0
  · rw [if_pos hzero, if_pos hzero]
  · rw [if_neg hzero, if_neg hzero, List.filterMap_append, List.getElem?_append_left]
    have hpos := Nat.pos_of_ne_zero hzero
    exact Nat.lt_of_lt_of_le (Nat.sub_lt hpos Nat.one_pos) hc

/-- The accept loop counts no connections. -/
theorem State.acceptStep_next {w : Whitelist} {σ σ' : State} {ok : Bool}
    (h : σ.acceptStep w ok = some σ') : σ'.next = σ.next := by
  unfold State.acceptStep at h
  split at h
  case h_1 => cases h
  case h_2 =>
    cases h
    unfold State.select
    split
    · rfl
    · split
      · split
        · rfl
        · rfl
      · rfl
  case h_4 =>
    split at h
    · rcases Option.map_eq_some_iff.mp h with ⟨m, hjoin, rfl⟩
      rcases State.joinThread_eq_some hjoin with ⟨t, -, -, rfl⟩
      rfl
    · cases h
      rfl
  case h_7 =>
    split at h
    · cases h
      rfl
    · cases h
      rfl
  all_goals
    cases h
    rfl

/-- The invariant holds in every state the server reaches, with the addresses of the
connections that have arrived. -/
theorem admitted_run {w : Whitelist} {acts : List Action} {σ : State}
    (h : Lib.run (State.step w) State.init acts = some σ) :
    Admitted w (addressOf acts) σ ∧ σ.next = (acts.filterMap Action.address).length + 1 := by
  induction acts using List.reverseRecOn generalizing σ with
  | nil =>
      cases h
      refine ⟨⟨?_, ?_, ?_, ?_, ?_⟩, rfl⟩
      · intro c ip hc
        cases hc
      · intro i ip hi
        cases hi
      · intro i c hi
        cases hi
      · intro c t ht
        cases ht
      · intro i ip c t hi
        cases hi
  | append_singleton acts a ih =>
      rw [Lib.run_append] at h
      rcases Option.bind_eq_some_iff.mp h with ⟨m, hm, hlast⟩
      rw [Lib.run_cons] at hlast
      rcases Option.bind_eq_some_iff.mp hlast with ⟨m', hstep, hnil⟩
      cases hnil
      rcases ih hm with ⟨hadmitted, hnext⟩
      have ho := (invariants_run hm).1
      have hkeep : a.address = none → Admitted w (addressOf acts) σ → σ.next = m.next →
          Admitted w (addressOf (acts ++ [a])) σ ∧
            σ.next = ((acts ++ [a]).filterMap Action.address).length + 1 := by
        intro hsilent hσ hsame
        have harrivals : (acts ++ [a]).filterMap Action.address = acts.filterMap Action.address := by
          simp [List.filterMap_append, hsilent]
        have haddress : addressOf (acts ++ [a]) = addressOf acts := by
          unfold addressOf
          rw [harrivals]
        rw [harrivals, haddress, hsame]
        exact ⟨hσ, hnext⟩
      cases a with
      | arrive ip =>
          have hlength : ((acts ++ [Action.arrive ip]).filterMap Action.address).length = m.next := by
            simp [List.filterMap_append, Action.address, hnext]
          refine ⟨hadmitted.arrive ho ?_ ?_ hstep, ?_⟩
          · unfold addressOf
            rw [if_neg (Nat.pos_iff_ne_zero.mp ho.started_next), List.filterMap_append, hnext,
              Nat.add_sub_cancel]
            simp [Action.address]
          · intro c hpos hlt
            rw [hnext] at hlt
            exact addressOf_append acts _ c (Nat.le_of_lt_succ hlt)
          · rw [hlength]
            simp only [State.step] at hstep
            split at hstep
            · cases hstep
              rfl
            · cases hstep
      | accept ok =>
          exact hkeep rfl (hadmitted.acceptStep ho hstep) (State.acceptStep_next hstep)
      | serve c =>
          simp only [State.step, State.serveStep] at hstep
          split at hstep
          · split at hstep
            · cases hstep
              exact hkeep rfl hadmitted rfl
            · cases hstep
          · cases hstep
      | finish c =>
          exact hkeep rfl (hadmitted.threadStep hstep) (State.threadStep_moves hstep).next

/-- A connection that is served: its thread may still touch the slot. -/
def State.ServedIn (σ : State) (c : ConnId) (i : SlotId) : Prop :=
  ∃ t, σ.threads c = some t ∧ t.slot = i ∧ t.pc.live = true

/-- The owner of a slot in which a connection is served is that connection. -/
theorem Ownership.owner_of_servedIn {σ : State} (ho : Ownership σ) {c : ConnId} {i : SlotId}
    (h : σ.ServedIn c i) : σ.owner i = some c := by
  rcases h with ⟨t, ht, hslot, hlive⟩
  have hpc : t.pc ≠ .exited := by
    intro hexited
    rw [hexited] at hlive
    cases hlive
  rw [← hslot]
  exact ho.unjoined c t ht (ho.unjoined_of_pc ht hpc)

/-- A slot that the accept loop does not work on is connected when a connection is served in
it. -/
theorem Ownership.connected_iff {σ : State} (ho : Ownership σ) {i : SlotId}
    (hidle : σ.accept.handled ≠ some i) :
    (σ.slots i).connected = true ↔ ∃ c, σ.ServedIn c i := by
  rw [ho.connected i hidle]
  constructor
  · rintro ⟨c, t, hc, ht, hlive⟩
    rcases ho.owned i c hc with ⟨u, hu, hslot, -⟩
    cases ht.symm.trans hu
    exact ⟨c, t, ht, hslot, hlive⟩
  · rintro ⟨c, hserved⟩
    have howner := ho.owner_of_servedIn hserved
    rcases hserved with ⟨t, ht, -, hlive⟩
    exact ⟨c, t, howner, ht, hlive⟩

/-- In the critical section the record of a slot is in the slot. -/
theorem State.record_of_owner {σ : State} {cs : ConnId} {ip : UInt32}
    (haccept : σ.accept = .accepted cs ip) {c : ConnId} {i : SlotId} (h : σ.owner i = some c) :
    (σ.slots i).hasThread = true ∧ (σ.slots i).thread = c := by
  rw [State.owner, haccept] at h
  split at h
  · exact ⟨‹_›, Option.some.inj h⟩
  · cases h

/-- What the accept loop may do with the connection {lit}`cs` from the address {lit}`ip`, by
the connections that are served and the addresses they came from.  The slots other than the
one that is reserved stay as they are. -/
inductive Decision (w : Whitelist) (address : ConnId → Option UInt32) (σ : State) (cs : ConnId)
    (ip : UInt32) (σ' : State) : Prop where
  /-- A connection from the same address is served: its slot is taken over, its socket is
  closed next and its thread joined, and nobody asks the whitelist. -/
  | takesOver (c : ConnId) (i : SlotId) (hserved : σ.ServedIn c i)
      (haddress : address c = some ip)
      (haccept : σ'.accept = .reserved cs ip i (σ.slots i).s true c)
      (hsocket : (σ'.slots i).s = none) (hothers : ∀ j, j ≠ i → σ'.slots j = σ.slots j)
  /-- The whitelist lets the address through, and nobody is served in the slot. -/
  | getsFree (hstranger : ∀ c i, σ.ServedIn c i → address c ≠ some ip)
      (hallows : w.allows ip = true) (i : SlotId) (joinOld : Bool) (old : ConnId)
      (hfree : ∀ c, ¬ σ.ServedIn c i)
      (haccept : σ'.accept = .reserved cs ip i none joinOld old)
      (hothers : ∀ j, j ≠ i → σ'.slots j = σ.slots j)
  /-- The whitelist rejects the address, or somebody is served in every slot. -/
  | turnedAway (hstranger : ∀ c i, σ.ServedIn c i → address c ≠ some ip)
      (hrefused : w.allows ip = false ∨ ∀ i, ∃ c, σ.ServedIn c i)
      (haccept : σ'.accept = .closing cs) (hslots : σ'.slots = σ.slots)

/-- In every reachable state the accept loop decides about a connection by who is served and
from which addresses, although it only looks at the records of the slots. -/
theorem admission {w : Whitelist} {acts : List Action} {σ σ' : State} {cs : ConnId}
    {ip : UInt32} {ok : Bool} (hrun : Lib.run (State.step w) State.init acts = some σ)
    (haccept : σ.accept = .accepted cs ip) (hstep : σ.step w (.accept ok) = some σ') :
    Decision w (addressOf acts) σ cs ip σ' := by
  have ho := (invariants_run hrun).1
  have hadmitted := (admitted_run hrun).1
  have hidle : ∀ i, σ.accept.handled ≠ some i := by
    intro i
    rw [haccept]
    simp [AcceptLoop.handled]
  have hselect : σ' = σ.select w cs ip := by
    simp only [State.step, State.acceptStep, haccept] at hstep
    exact (Option.some.inj hstep).symm
  have hothers : ∀ {oldS s : Option ConnId} {i j : SlotId}, j ≠ i →
      (σ.reserve cs ip i oldS s).slots j = σ.slots j := fun hj => Function.update_of_ne hj ..
  subst hselect
  unfold State.select
  split
  case h_1 i hfound =>
    have hi := State.findSlot_eq_some hfound
    rw [Bool.and_eq_true, beq_iff_eq] at hi
    rcases (ho.connected_iff (hidle i)).mp hi.1 with ⟨c, hserved⟩
    have howner := ho.owner_of_servedIn hserved
    rcases State.record_of_owner haccept howner with ⟨hhas, hthread⟩
    refine .takesOver c i hserved ?_ ?_ ?_ fun j hj => hothers hj
    · rw [hadmitted.owned i c howner, hi.2]
    · simp [State.reserve, State.goto, hhas, hthread]
    · simp [State.reserve, State.goto, State.setSlot]
  case h_2 hnone =>
    have hstranger : ∀ c i, σ.ServedIn c i → addressOf acts c ≠ some ip := by
      intro c i hserved haddress
      have hconnected := (ho.connected_iff (hidle i)).mpr ⟨c, hserved⟩
      rw [hadmitted.owned i c (ho.owner_of_servedIn hserved)] at haddress
      have hmiss := State.findSlot_eq_none hnone i
      rw [hconnected, Option.some.inj haddress] at hmiss
      simp at hmiss
    split
    case isTrue hallows =>
      split
      case h_1 i hfound =>
        refine .getsFree hstranger hallows i _ _ (fun c hserved => ?_) rfl fun j hj => hothers hj
        have hfree := State.findSlot_eq_some hfound
        rw [(ho.connected_iff (hidle i)).mpr ⟨c, hserved⟩] at hfree
        cases hfree
      case h_2 hfull =>
        refine .turnedAway hstranger (Or.inr fun i => ?_) rfl rfl
        have hbusy := State.findSlot_eq_none hfull i
        rw [Bool.not_eq_false'] at hbusy
        exact (ho.connected_iff (hidle i)).mp hbusy
    case isFalse hrejects =>
      exact .turnedAway hstranger (Or.inl (Bool.eq_false_iff.mpr hrejects)) rfl rfl

/-- The console that connects again meets its own connection. -/
theorem admission_reconnection : ∃ σ σ', Lib.run (State.step ⟨0, 0⟩) State.init
    (reconnection.take 10) = some σ ∧ σ.accept = .accepted 2 7 ∧
      Decision ⟨0, 0⟩ (addressOf (reconnection.take 10)) σ 2 7 σ' :=
  ⟨_, _, rfl, rfl, admission rfl rfl (show State.step ⟨0, 0⟩ _ (.accept true) = some _ from rfl)⟩

/-- A slot that the accept loop works on and that has an owner is about to be taken over. -/
theorem Ownership.claim_of_owner {σ : State} (ho : Ownership σ) {c : ConnId} {i : SlotId}
    (hhandled : σ.accept.handled = some i) (hc : σ.owner i = some c) :
    ∃ ip, σ.accept.claim = some (i, ip) := by
  rw [State.owner, ho.handled i hhandled] at hc
  cases haccept : σ.accept with
  | reserved cs ip j oldS joinOld old =>
      rw [haccept] at hhandled
      cases hhandled
      exact ⟨ip, rfl⟩
  | reclaimed cs ip j joinOld old =>
      rw [haccept] at hhandled
      cases hhandled
      exact ⟨ip, rfl⟩
  | _ =>
      rw [haccept] at hc hhandled
      first
        | cases hc
        | cases hhandled

/-- Two connections that are served in two slots came from different addresses. -/
theorem Admitted.address_ne {w : Whitelist} {address : ConnId → Option UInt32} {σ : State}
    (h : Admitted w address σ) (ho : Ownership σ) {c d : ConnId} {i j : SlotId}
    (hhandled : σ.accept.handled ≠ some j) (hc : σ.ServedIn c i) (hd : σ.ServedIn d j)
    (hij : i ≠ j) : address c ≠ address d := by
  have hci := ho.owner_of_servedIn hc
  rw [h.owned i c hci, h.owned j d (ho.owner_of_servedIn hd)]
  intro hsame
  have hconnected := (ho.connected_iff hhandled).mpr ⟨d, hd⟩
  by_cases hi : σ.accept.handled = some i
  · rcases ho.claim_of_owner hi hci with ⟨ip, hclaim⟩
    rcases hc with ⟨t, ht, -, hlive⟩
    rw [h.takes i ip c t hclaim hci ht hlive] at hsame
    exact ho.claim i ip hclaim j hij.symm hconnected (Option.some.inj hsame).symm
  · have hconnected' := (ho.connected_iff hi).mpr ⟨c, hc⟩
    exact ho.distinct i j hij hi hhandled hconnected' hconnected (Option.some.inj hsame)

/-- No connection gets a thread, in any interleaving, unless it came from an address that the
whitelist lets through, and no two connections from one address are ever served at a time. -/
theorem threads_allowed {w : Whitelist} {acts : List Action} {σ : State}
    (hrun : Lib.run (State.step w) State.init acts = some σ) :
    (∀ c t, σ.threads c = some t → ∃ ip, addressOf acts c = some ip ∧ w.allows ip = true) ∧
      ∀ c d i j, σ.ServedIn c i → σ.ServedIn d j → addressOf acts c = addressOf acts d →
        c = d := by
  have ho := (invariants_run hrun).1
  have hadmitted := (admitted_run hrun).1
  refine ⟨hadmitted.threads, fun c d i j hc hd hsame => ?_⟩
  by_cases hij : i = j
  · subst hij
    have hci := ho.owner_of_servedIn hc
    rw [ho.owner_of_servedIn hd] at hci
    exact (Option.some.inj hci).symm
  · exfalso
    by_cases hj : σ.accept.handled = some j
    · refine hadmitted.address_ne ho (fun hi => hij ?_) hd hc (Ne.symm hij) hsame.symm
      rw [hj] at hi
      exact (Option.some.inj hi).symm
    · exact hadmitted.address_ne ho hj hc hd hij hsame

/-- While the console that connects again takes its slot over. -/
theorem threads_allowed_reconnection : ∃ σ, Lib.run (State.step ⟨0, 0⟩) State.init
    (reconnection.take 12) = some σ ∧
      (∀ c t, σ.threads c = some t →
        ∃ ip, addressOf (reconnection.take 12) c = some ip ∧ Whitelist.allows ⟨0, 0⟩ ip = true) ∧
      ∀ c d i j, σ.ServedIn c i → σ.ServedIn d j →
        addressOf (reconnection.take 12) c = addressOf (reconnection.take 12) d → c = d :=
  ⟨_, rfl, threads_allowed rfl⟩

end Ps3Netsrv.Clients
