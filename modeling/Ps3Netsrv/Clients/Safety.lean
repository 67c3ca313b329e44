import Ps3Netsrv.Clients.Sockets

/-!
# What holds in every run of the server

The two invariants hold at the start and survive every step, whichever process
takes it, so they hold after every run.  This module reads the safety of the
server off them.

Main results:

- Theorem {lit}`invariants_run`: both invariants hold in every state the server
  reaches.
- Theorem {lit}`run_safe`: sockets are closed once, a slot is prepared only after
  its last thread has been joined, and the slots the accept loop searches have
  live owners with distinct addresses.
-/

namespace Ps3Netsrv.Clients

/-! ## The invariants over a run -/

/-- Both invariants hold together in every state the server reaches. -/
theorem invariants_run {w : Whitelist} {acts : List Action} {σ : State}
    (h : Lib.run (State.step w) State.init acts = some σ) : Ownership σ ∧ Sockets σ := by
  have hstep : ∀ τ a τ', Ownership τ ∧ Sockets τ → State.step w τ a = some τ' →
      Ownership τ' ∧ Sockets τ' :=
    fun _ _ _ hτ ha => ⟨hτ.1.step ha, hτ.2.step hτ.1 ha⟩
  exact Lib.run_invariant hstep ⟨ownership_init, sockets_init⟩ h

/-! ## Safety -/

/-- The slot that is the accept loop's alone: it has joined the slot's thread
and started no new one. -/
def AcceptLoop.prepares : AcceptLoop → Option SlotId
  | .joined _ _ i | .initialized _ _ i | .published _ _ i | .failedInit _ i
  | .failedStart _ i | .tookBack i _ | .closedBack i | .freedBack i => some i
  | _ => none

/-- A connection has ended when its thread, if it got one, has returned, and the
accept loop neither serves the connection itself nor is about to close the
socket it reclaimed from it. -/
structure State.Ended (σ : State) (c : ConnId) : Prop where
  accepted : σ.Accepted c
  exited : ∀ t, σ.threads c = some t → t.pc = .exited
  notFresh : σ.accept.fresh ≠ some c
  notReclaimed : ∀ cs ip i joinOld old,
    σ.accept ≠ .reserved cs ip i (some c) joinOld old

/-- What the bookkeeping of the slots is for. -/
structure State.Safe (σ : State) : Prop where
  /-- No socket is closed twice. -/
  closes_le_one : ∀ c, σ.closes c ≤ 1
  /-- A descriptor that was not accepted is never closed. -/
  closes_unaccepted : ∀ c, ¬σ.Accepted c → σ.closes c = 0
  /-- The socket of a connection that has ended has been closed. -/
  closes_ended : ∀ c, σ.Ended c → σ.closes c = 1
  /-- While the accept loop prepares a slot, no thread can touch it. -/
  prepares_joined : ∀ i, σ.accept.prepares = some i →
    ∀ c t, σ.threads c = some t → t.slot = i → t.joined = true ∧ t.pc = .exited
  /-- A slot has at most one thread that has not returned. -/
  one_owner : ∀ c d t u, σ.threads c = some t → σ.threads d = some u → t.slot = u.slot →
    t.pc ≠ .exited → u.pc ≠ .exited → c = d
  /-- At slot selection, connected slots have distinct addresses. -/
  distinct : ∀ cs ip, σ.accept = .accepted cs ip → ∀ i j, i ≠ j →
    (σ.slots i).connected = true → (σ.slots j).connected = true →
    (σ.slots i).ip_addr ≠ (σ.slots j).ip_addr
  /-- At slot selection, the connected slots are those whose thread is live. -/
  live_owner : ∀ cs ip, σ.accept = .accepted cs ip → ∀ i,
    (σ.slots i).connected = true ↔
      ∃ t, (σ.slots i).hasThread = true ∧ σ.threads (σ.slots i).thread = some t ∧
        t.slot = i ∧ t.pc.live = true

variable {σ : State}

/-- Nobody holds the socket of a connection that has ended. -/
theorem Sockets.not_holds_of_ended (hs : Sockets σ) {c : ConnId}
    (hended : σ.Ended c) : ¬σ.Holds c := by
  rintro (hloop | ⟨i, hi⟩ | ⟨t, ht, hpc⟩)
  · unfold AcceptLoop.Holds at hloop
    split at hloop
    case h_7 haccept =>
      rcases hloop with rfl | rfl
      · exact hended.notFresh (by rw [haccept]; rfl)
      · exact hended.notReclaimed _ _ _ _ _ haccept
    all_goals first
      | exact hloop.elim
      | (rename_i haccept; exact hended.notFresh (by rw [haccept, hloop]; rfl))
  · rcases hs.serving i c hi hended.accepted.1 with ⟨t, ht, _, hserving⟩ | hpub
    · simp [hended.exited t ht] at hserving
    · exact hended.notFresh (fresh_of_publishes hpub)
  · simp [hended.exited t ht] at hpc

/-- The slot the accept loop prepares has no owner. -/
theorem Ownership.owner_of_prepares (ho : Ownership σ) {i : SlotId}
    (h : σ.accept.prepares = some i) : σ.owner i = none := by
  unfold AcceptLoop.prepares at h
  split at h
  case h_9 => cases h
  all_goals
    rename_i haccept
    cases h
    simp [State.owner, ho.handled i (by simp [haccept, AcceptLoop.handled]), haccept,
      AcceptLoop.keeps]

/-- For every whitelist, every sequence of incoming connections and every
interleaving of the accept loop, with its allocation and thread-creation
failures, and the client threads, the bookkeeping of the slots is safe. -/
theorem run_safe (w : Whitelist) (acts : List Action) (σ : State)
    (h : Lib.run (State.step w) State.init acts = some σ) : σ.Safe := by
  rcases invariants_run h with ⟨ho, hs⟩
  constructor
  case closes_le_one => exact hs.ledger.releases_le_one
  case closes_unaccepted => exact hs.ledger.unissued
  case closes_ended =>
    intro c hended
    exact hs.ledger.dropped c hended.accepted (hs.not_holds_of_ended hended)
  case prepares_joined =>
    intro i hi c t ht hslot
    have hj := ho.joined_of_owner (ho.owner_of_prepares hi) ht hslot
    exact ⟨hj, ho.joined c t ht hj⟩
  case one_owner =>
    intro c d t u ht hu hslot htpc hupc
    exact ho.unique ht hu (ho.unjoined_of_pc ht htpc) (ho.unjoined_of_pc hu hupc) hslot
  case distinct =>
    intro cs ip haccept i j hij hi hj
    have hidle : σ.accept.handled = none := by rw [haccept]; rfl
    exact ho.distinct i j hij (by simp [hidle]) (by simp [hidle]) hi hj
  case live_owner =>
    intro cs ip haccept i
    have hidle : σ.accept.handled = none := by rw [haccept]; rfl
    rw [ho.connected i (by simp [hidle])]
    have howner : ∀ c, σ.owner i = some c ↔
        (σ.slots i).hasThread = true ∧ (σ.slots i).thread = c := by
      intro c
      simp [State.owner, haccept, AcceptLoop.keeps]
    constructor
    · rintro ⟨c, t, hc, ht, hlive⟩
      rcases ho.owned i c hc with ⟨u, hu, hslot, _⟩
      cases ht.symm.trans hu
      rcases (howner c).mp hc with ⟨hhas, rfl⟩
      exact ⟨t, hhas, ht, hslot, hlive⟩
    · rintro ⟨t, hhas, ht, _, hlive⟩
      exact ⟨_, t, (howner _).mpr ⟨hhas, rfl⟩, ht, hlive⟩

/-- A client connects and is served; it connects again while its first thread
has already taken the socket, and its slot is reclaimed for a thread that cannot
be created. -/
def reconnection : List Action :=
  [.arrive 7, .accept true, .accept true, .accept true, .accept true, .accept true,
    .accept true, .accept true, .serve 1, .arrive 7, .finish 1, .accept true, .accept true,
    .finish 1, .finish 1, .finish 1, .finish 1, .accept true, .accept true, .accept true,
    .accept false, .accept true, .accept true, .accept true, .accept true]

/-- The safety of that run. -/
theorem run_safe_reconnection :
    ∃ σ, Lib.run (State.step ⟨0, 0⟩) State.init reconnection = some σ ∧
      σ.accept = .waiting ∧ σ.closes 1 = 1 ∧ σ.closes 2 = 1 ∧ σ.Safe :=
  ⟨_, rfl, rfl, rfl, rfl, run_safe ⟨0, 0⟩ reconnection _ rfl⟩

end Ps3Netsrv.Clients
