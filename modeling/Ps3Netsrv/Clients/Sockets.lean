import Ps3Netsrv.Clients.Ownership
import Ps3Netsrv.Lib.Ledger

/-!
# Who closes a socket

An accepted socket is held by the accept loop, by a slot or by the thread that
took it out of its slot, and it passes between them until one of them closes it.
{lit}`finalize_client` and the accept loop both take it out of the slot under the
mutex, so that there is never a second holder.

Main results:

- Definition {lit}`State.Holds`: somebody still has the socket of a connection.
- Definition {lit}`Sockets`: the invariant about the holders, with the ledger of
  the sockets that were closed.
- Theorem {lit}`Sockets.step`: every step of every process keeps it.
-/

namespace Ps3Netsrv.Clients

/-! ## Holders -/

/-- The sockets in the locals of the accept loop. -/
def AcceptLoop.Holds (a : AcceptLoop) (c : ConnId) : Prop :=
  match a with
  | .accepted cs _ | .reclaimed cs _ _ _ _ | .joined cs _ _ | .initialized cs _ _
  | .failedInit cs _ | .closing cs => c = cs
  | .reserved cs _ _ oldS _ _ => c = cs ∨ oldS = some c
  | .tookBack _ s => s = some c
  | .waiting | .published _ _ _ | .started _ _ | .failedStart _ _ | .closedBack _
  | .freedBack _ => False

/-- The connection whose socket is in its slot before its thread exists. -/
def AcceptLoop.publishes : AcceptLoop → Option (ConnId × SlotId)
  | .published cs _ i | .failedStart cs i => some (cs, i)
  | _ => none

/-- The connection that is published has no thread yet. -/
theorem fresh_of_publishes {a : AcceptLoop} {c : ConnId} {i : SlotId}
    (h : a.publishes = some (c, i)) : a.fresh = some c := by
  unfold AcceptLoop.publishes at h
  split at h
  case h_3 => cases h
  all_goals
    cases h
    rfl

/-- Somebody still has the socket of the connection. -/
def State.Holds (σ : State) (c : ConnId) : Prop :=
  σ.accept.Holds c ∨ (∃ i, (σ.slots i).s = some c) ∨
    ∃ t, σ.threads c = some t ∧ t.pc = .took (some c)

/-- The connections that were accepted so far. -/
def State.Accepted (σ : State) (c : ConnId) : Prop :=
  0 < c ∧ c < σ.next

/-- A socket in a slot is that of the thread serving there or of the connection
the accept loop has just put there; a thread takes only its own socket; a
reclaimed socket is in no other hands; and the ledger of the closed sockets is in
order. -/
structure Sockets (σ : State) : Prop where
  serving : ∀ i c, (σ.slots i).s = some c → 0 < c →
    (∃ t, σ.threads c = some t ∧ t.slot = i ∧ t.pc = .serving) ∨
      σ.accept.publishes = some (c, i)
  unused : ∀ i, (σ.slots i).s = some 0 →
    ∀ c t, σ.threads c = some t → t.slot = i → t.joined = true
  took : ∀ c t d, σ.threads c = some t → t.pc = .took (some d) → d = c
  reclaimed : ∀ cs ip i d joinOld old, σ.accept = .reserved cs ip i (some d) joinOld old →
    (σ.slots i).s = none ∧
      ∃ t, σ.threads d = some t ∧ t.slot = i ∧ t.pc ≠ .took (some d)
  ledger : Lib.Ledger σ.Accepted σ.Holds σ.closes

/-- No connection has been accepted at first. -/
theorem sockets_init : Sockets State.init := by
  constructor
  case ledger =>
    constructor
    case unissued => simp [State.init]
    all_goals
      intro c hc
      exact absurd (Nat.lt_of_lt_of_le hc.2 hc.1) (Nat.lt_irrefl c)
  all_goals simp +contextual [State.init, Slot.zeroed]

/-! ## Facts from the ownership of the slots -/

namespace Ownership

variable {σ : State}

/-- A slot has at most one thread that has not been joined. -/
theorem unique (ho : Ownership σ) {c d : ConnId} {t u : Thread} (ht : σ.threads c = some t)
    (hu : σ.threads d = some u) (htj : t.joined = false) (huj : u.joined = false)
    (hslot : t.slot = u.slot) : c = d := by
  have hc := ho.unjoined c t ht htj
  have hd := ho.unjoined d u hu huj
  rw [hslot, hd] at hc
  exact (Option.some.inj hc).symm

/-- The accept loop's new connection has no thread yet. -/
theorem fresh_ne (ho : Ownership σ) {c d : ConnId} {t : Thread}
    (hc : σ.accept.fresh = some c) (ht : σ.threads d = some t) : d ≠ c := by
  rintro rfl
  simp [(ho.fresh d hc).1] at ht

/-- A slot in which the accept loop has just put a new socket has no owner. -/
theorem owner_of_publishes (ho : Ownership σ) {c : ConnId} {i : SlotId}
    (h : σ.accept.publishes = some (c, i)) : σ.owner i = none := by
  unfold AcceptLoop.publishes at h
  split at h
  case h_3 => cases h
  all_goals
    rename_i haccept
    cases h
    simp [State.owner, ho.handled i (by simp [haccept, AcceptLoop.handled]), haccept,
      AcceptLoop.keeps]

/-- While the accept loop works on a slot whose thread it has joined, every
thread of the slot has been joined. -/
theorem joined_of_owner (ho : Ownership σ) {i : SlotId} (howner : σ.owner i = none)
    {c : ConnId} {t : Thread} (ht : σ.threads c = some t) (hslot : t.slot = i) :
    t.joined = true := by
  cases hj : t.joined with
  | true => rfl
  | false =>
      have hrec := ho.unjoined c t ht hj
      simp [hslot, howner] at hrec

end Ownership

namespace Sockets

variable {σ σ' : State}

/-- A slot with an unjoined thread and a socket holds that thread's socket, and
the thread is still serving. -/
theorem eq_of_socket (hs : Sockets σ) (ho : Ownership σ) {c d : ConnId} {t : Thread}
    (ht : σ.threads c = some t) (hj : t.joined = false)
    (hsocket : (σ.slots t.slot).s = some d) : d = c ∧ t.pc = .serving := by
  have hpos : 0 < d := by
    rcases Nat.eq_zero_or_pos d with rfl | hpos
    · simp [hs.unused t.slot hsocket c t ht rfl] at hj
    · exact hpos
  rcases hs.serving t.slot d hsocket hpos with ⟨u, hu, hslot, hpc⟩ | hpub
  · have huj := ho.unjoined_of_pc hu (by simp [hpc])
    cases ho.unique hu ht huj hj hslot
    cases ht.symm.trans hu
    exact ⟨rfl, hpc⟩
  · simp [ho.joined_of_owner (ho.owner_of_publishes hpub) ht rfl] at hj

/-! ## Steps of the accept loop -/

/-- Rewriting a slot with its own socket changes no slot's socket. -/
theorem update_s (σ : State) (i : SlotId) {slot : Slot} (j : SlotId)
    (h : slot.s = (σ.slots i).s := by rfl) :
    (Function.update σ.slots i slot j).s = (σ.slots j).s := by
  by_cases hj : j = i
  · subst hj
    simp [h]
  · simp [hj]

/-- A statement of the accept loop that moves no socket keeps the invariant. -/
theorem keep (hs : Sockets σ) (hthreads : σ'.threads = σ.threads) (hnext : σ'.next = σ.next)
    (hcloses : σ'.closes = σ.closes) (hslots : ∀ j, (σ'.slots j).s = (σ.slots j).s)
    (hpublishes : σ'.accept.publishes = σ.accept.publishes)
    (hreclaimed : ∀ cs ip i d joinOld old,
      σ'.accept ≠ .reserved cs ip i (some d) joinOld old)
    (hholds : ∀ c, σ'.accept.Holds c ↔ σ.accept.Holds c) : Sockets σ' where
  serving := by simpa only [hslots, hthreads, hpublishes] using hs.serving
  unused := by simpa only [hslots, hthreads] using hs.unused
  took := by simpa only [hthreads] using hs.took
  reclaimed cs ip i d joinOld old h := absurd h (hreclaimed cs ip i d joinOld old)
  ledger := by
    unfold State.Accepted
    rw [hnext, hcloses]
    refine hs.ledger.pass fun c _ => ?_
    simp only [State.Holds, hslots, hthreads, hholds]

/-- The accept loop may close a socket that it holds alone. -/
theorem close (hs : Sockets σ) (s : Option ConnId) (hthreads : σ'.threads = σ.threads)
    (hnext : σ'.next = σ.next) (hcloses : σ'.closes = (σ.closeSocket s).closes)
    (hslots : σ'.slots = σ.slots) (hpublishes : σ'.accept.publishes = σ.accept.publishes)
    (hreclaimed : ∀ cs ip i d joinOld old,
      σ'.accept ≠ .reserved cs ip i (some d) joinOld old)
    (hown : ∀ c, s = some c → σ.Accepted c ∧ σ.accept.Holds c)
    (hslot : ∀ c, s = some c → ∀ j, (σ.slots j).s ≠ some c)
    (hthread : ∀ c, s = some c → ∀ t, σ.threads c = some t → t.pc ≠ .took (some c))
    (hholds : ∀ c, σ'.accept.Holds c ↔ σ.accept.Holds c ∧ s ≠ some c) : Sockets σ' where
  serving := by simpa only [hslots, hthreads, hpublishes] using hs.serving
  unused := by simpa only [hslots, hthreads] using hs.unused
  took := by simpa only [hthreads] using hs.took
  reclaimed cs ip i d joinOld old h := absurd h (hreclaimed cs ip i d joinOld old)
  ledger := by
    unfold State.Accepted
    rw [hnext]
    refine hs.ledger.release s ?_ ?_ ?_ ?_
    · intro c hc
      exact ⟨(hown c hc).1, Or.inl (hown c hc).2⟩
    · intro c _
      unfold State.Holds
      rw [hholds, hslots, hthreads]
      constructor
      · rintro (h | ⟨j, hj⟩ | ⟨t, ht, hpc⟩)
        · exact ⟨Or.inl h.1, h.2⟩
        · exact ⟨Or.inr (Or.inl ⟨j, hj⟩), fun hc => hslot c hc j hj⟩
        · exact ⟨Or.inr (Or.inr ⟨t, ht, hpc⟩), fun hc => hthread c hc t ht hpc⟩
      · rintro ⟨h | h | h, hne⟩
        · exact Or.inl ⟨h, hne⟩
        · exact Or.inr (Or.inl h)
        · exact Or.inr (Or.inr h)
    · intro c hc
      simp [hcloses, State.closeSocket, hc]
    · intro c hc
      simp [hcloses, State.closeSocket, hc]

/-- The socket of a connection without a thread is only in a slot while the
accept loop publishes it there. -/
theorem slot_ne_of_fresh (hs : Sockets σ) (ho : Ownership σ) {c : ConnId}
    (hfresh : σ.accept.fresh = some c) (hpublishes : ∀ i, σ.accept.publishes ≠ some (c, i))
    (j : SlotId) : (σ.slots j).s ≠ some c := by
  intro h
  rcases hs.serving j c h (ho.fresh c hfresh).2.1 with ⟨t, ht, _⟩ | hpub
  · exact ho.fresh_ne hfresh ht rfl
  · exact hpublishes j hpub

/-- Moving a socket between a slot and the accept loop keeps the invariant. -/
theorem move (hs : Sockets σ) (i : SlotId) (hthreads : σ'.threads = σ.threads)
    (hnext : σ'.next = σ.next) (hcloses : σ'.closes = σ.closes)
    (hothers : ∀ j, j ≠ i → (σ'.slots j).s = (σ.slots j).s)
    (hpublishes : ∀ c j, j ≠ i → σ.accept.publishes = some (c, j) →
      σ'.accept.publishes = some (c, j))
    (hslot : ∀ c, (σ'.slots i).s = some c → 0 < c ∧ σ'.accept.publishes = some (c, i))
    (hreclaimed : ∀ cs ip j d joinOld old, σ'.accept = .reserved cs ip j (some d) joinOld old →
      (σ'.slots j).s = none ∧ ∃ t, σ.threads d = some t ∧ t.slot = j ∧ t.pc ≠ .took (some d))
    (hholds : ∀ c, 0 < c → ((σ'.accept.Holds c ∨ (σ'.slots i).s = some c) ↔
      (σ.accept.Holds c ∨ (σ.slots i).s = some c))) : Sockets σ' where
  serving j c hj hpos := by
    by_cases hji : j = i
    · subst hji
      exact Or.inr (hslot c hj).2
    · rw [hothers j hji] at hj
      rw [hthreads]
      exact (hs.serving j c hj hpos).imp_right (hpublishes c j hji)
  unused j hj := by
    by_cases hji : j = i
    · subst hji
      exact absurd (hslot 0 hj).1 (Nat.lt_irrefl 0)
    · rw [hothers j hji] at hj
      simpa only [hthreads] using hs.unused j hj
  took := by simpa only [hthreads] using hs.took
  reclaimed := by simpa only [hthreads] using hreclaimed
  ledger := by
    have hsplit : ∀ τ : State, ∀ c, τ.Holds c ↔ (τ.accept.Holds c ∨ (τ.slots i).s = some c) ∨
        (∃ j, j ≠ i ∧ (τ.slots j).s = some c) ∨
        ∃ t, τ.threads c = some t ∧ t.pc = .took (some c) := by
      intro τ c
      unfold State.Holds
      constructor
      · rintro (h | ⟨j, hj⟩ | h)
        · exact Or.inl (Or.inl h)
        · by_cases hji : j = i
          · exact Or.inl (Or.inr (hji ▸ hj))
          · exact Or.inr (Or.inl ⟨j, hji, hj⟩)
        · exact Or.inr (Or.inr h)
      · rintro ((h | h) | ⟨j, _, hj⟩ | h)
        · exact Or.inl h
        · exact Or.inr (Or.inl ⟨i, h⟩)
        · exact Or.inr (Or.inl ⟨j, hj⟩)
        · exact Or.inr (Or.inr h)
    unfold State.Accepted
    rw [hnext, hcloses]
    refine hs.ledger.pass fun c hc => ?_
    have hrest : (∃ j, j ≠ i ∧ (σ'.slots j).s = some c) ↔
        ∃ j, j ≠ i ∧ (σ.slots j).s = some c :=
      exists_congr fun j => and_congr_right fun hj => by rw [hothers j hj]
    rw [hsplit, hsplit, hholds c hc.1, hthreads, hrest]

/-- Reserving a slot takes its socket out of it when the slot is that of a
reconnecting client. -/
theorem reserve (hs : Sockets σ) (ho : Ownership σ) {cs : ConnId} {ip : UInt32} (i : SlotId)
    (haccept : σ.accept = .accepted cs ip) {oldS s : Option ConnId}
    (h : (oldS = (σ.slots i).s ∧ s = none ∧ (σ.slots i).connected = true) ∨
      (oldS = none ∧ s = (σ.slots i).s)) : Sockets (σ.reserve cs ip i oldS s) := by
  unfold State.reserve
  rcases h with ⟨rfl, rfl, hconn⟩ | ⟨rfl, rfl⟩
  · -- the slot is connected, so its owner is a thread that has not been joined
    rcases (ho.connected i (by simp [haccept, AcceptLoop.handled])).mp hconn with
      ⟨c, t, howner, ht, _⟩
    rcases ho.owned i c howner with ⟨u, hu, rfl, huj⟩
    cases ht.symm.trans hu
    refine hs.move t.slot rfl rfl rfl ?_ ?_ ?_ ?_ ?_
    · intro j hj
      simp [State.goto, State.setSlot, hj]
    · simp [haccept, AcceptLoop.publishes]
    · simp [State.goto, State.setSlot]
    · intro cs' ip' j d joinOld old hreserved
      simp only [State.goto, AcceptLoop.reserved.injEq] at hreserved
      rcases hreserved with ⟨-, -, rfl, hd, -, -⟩
      rcases hs.eq_of_socket ho ht huj hd with ⟨rfl, hpc⟩
      exact ⟨by simp [State.goto, State.setSlot], t, ht, rfl, by simp [hpc]⟩
    · simp [State.goto, State.setSlot, haccept, AcceptLoop.Holds]
  · refine hs.keep rfl rfl rfl ?_ (by rw [haccept]; rfl) (by simp [State.goto]) ?_
    · intro j
      exact update_s σ i j
    · simp [State.goto, haccept, AcceptLoop.Holds]

/-- The critical section of the accept loop keeps the invariant. -/
theorem select (hs : Sockets σ) (ho : Ownership σ) (w : Whitelist) {cs : ConnId} {ip : UInt32}
    (haccept : σ.accept = .accepted cs ip) : Sockets (σ.select w cs ip) := by
  have hclosing : Sockets (σ.goto (.closing cs)) :=
    hs.keep rfl rfl rfl (fun _ => rfl) (by rw [haccept]; rfl) (by simp [State.goto])
      (by simp [State.goto, haccept, AcceptLoop.Holds])
  unfold State.select
  split
  case h_1 i hfound =>
    have hfirst := State.findSlot_eq_some hfound
    rw [Bool.and_eq_true] at hfirst
    exact hs.reserve ho i haccept (Or.inl ⟨rfl, rfl, hfirst.1⟩)
  case h_2 =>
    split
    case isTrue =>
      split
      case h_1 i _ => exact hs.reserve ho i haccept (Or.inr ⟨rfl, rfl⟩)
      case h_2 => exact hclosing
    case isFalse => exact hclosing

/-- Joining a thread moves no socket. -/
theorem join (hs : Sockets σ) {cs : ConnId} {ip : UInt32} {i : SlotId} {c : ConnId}
    {t : Thread} (haccept : σ.accept = .reclaimed cs ip i true c) (ht : σ.threads c = some t) :
    Sockets ((σ.setThread c { t with joined := true }).goto (.joined cs ip i)) := by
  generalize hσ' : (σ.setThread c { t with joined := true }).goto (.joined cs ip i) = σ'
  have hslots : σ'.slots = σ.slots := by rw [← hσ']; rfl
  have hloop : σ'.accept = .joined cs ip i := by rw [← hσ']; rfl
  have hthreads : σ'.threads = Function.update σ.threads c (some { t with joined := true }) := by
    rw [← hσ']; rfl
  have hcloses : σ'.closes = σ.closes := by rw [← hσ']; rfl
  have hnext : σ'.next = σ.next := by rw [← hσ']; rfl
  -- the thread is as it was but for its flag
  have hback : ∀ d u', σ'.threads d = some u' → ∃ u, σ.threads d = some u ∧ u'.slot = u.slot ∧
      u'.pc = u.pc ∧ (u.joined = true → u'.joined = true) := by
    intro d u' hu'
    rcases update_eq_some_iff.mp (hthreads ▸ hu') with ⟨rfl, rfl⟩ | ⟨_, hold⟩
    · exact ⟨t, ht, rfl, rfl, fun _ => rfl⟩
    · exact ⟨u', hold, rfl, rfl, id⟩
  have hforth : ∀ d u, σ.threads d = some u → ∃ u', σ'.threads d = some u' ∧ u'.slot = u.slot ∧
      u'.pc = u.pc := by
    intro d u hu
    rw [hthreads]
    by_cases hd : d = c
    · subst hd
      cases ht.symm.trans hu
      exact ⟨_, Function.update_self .., rfl, rfl⟩
    · exact ⟨u, by rw [Function.update_of_ne hd]; exact hu, rfl, rfl⟩
  constructor
  case serving =>
    intro j d hj hpos
    rw [hslots] at hj
    rcases hs.serving j d hj hpos with ⟨u, hu, hslot, hpc⟩ | hpub
    · rcases hforth d u hu with ⟨u', hu', hslot', hpc'⟩
      exact Or.inl ⟨u', hu', hslot'.trans hslot, hpc'.trans hpc⟩
    · simp [haccept, AcceptLoop.publishes] at hpub
  case unused =>
    intro j hj d u' hu' hslot'
    rcases hback d u' hu' with ⟨u, hu, hslot, _, hjoined⟩
    exact hjoined (hs.unused j (hslots ▸ hj) d u hu (hslot.symm.trans hslot'))
  case took =>
    intro d u' e hu' hpc'
    rcases hback d u' hu' with ⟨u, hu, _, hpc, _⟩
    exact hs.took d u e hu (hpc.symm.trans hpc')
  case reclaimed => simp [hloop]
  case ledger =>
    unfold State.Accepted
    rw [hnext, hcloses]
    refine hs.ledger.pass fun d _ => ?_
    unfold State.Holds
    rw [hslots, hloop, haccept]
    refine or_congr_right (or_congr_right ⟨?_, ?_⟩)
    · rintro ⟨u', hu', hpc'⟩
      rcases hback d u' hu' with ⟨u, hu, _, hpc, _⟩
      exact ⟨u, hu, hpc.symm.trans hpc'⟩
    · rintro ⟨u, hu, hpc⟩
      rcases hforth d u hu with ⟨u', hu', _, hpc'⟩
      exact ⟨u', hu', hpc'.trans hpc⟩

/-- A new thread serves the socket that is in its slot. -/
theorem start (hs : Sockets σ) (ho : Ownership σ) {cs : ConnId} {ip : UInt32} {i : SlotId}
    (haccept : σ.accept = .published cs ip i) :
    Sockets (((σ.setThread cs ⟨i, .serving, false⟩).setSlot i
      { σ.slots i with thread := cs }).goto (.started cs i)) := by
  have hfresh := ho.fresh cs (by simp [haccept, AcceptLoop.fresh])
  have hprepared := ho.prepared
  simp only [State.Prepared, haccept] at hprepared
  generalize hσ' : ((σ.setThread cs ⟨i, .serving, false⟩).setSlot i
    { σ.slots i with thread := cs }).goto (.started cs i) = σ'
  have hslots : ∀ j, (σ'.slots j).s = (σ.slots j).s := by
    intro j
    rw [← hσ']
    exact update_s σ i j
  have hloop : σ'.accept = .started cs i := by rw [← hσ']; rfl
  have hthreads : σ'.threads = Function.update σ.threads cs (some ⟨i, .serving, false⟩) := by
    rw [← hσ']; rfl
  have hcloses : σ'.closes = σ.closes := by rw [← hσ']; rfl
  have hnext : σ'.next = σ.next := by rw [← hσ']; rfl
  constructor
  case serving =>
    intro j d hj hpos
    rw [hslots] at hj
    left
    rcases hs.serving j d hj hpos with ⟨u, hu, hslot, hpc⟩ | hpub
    · have hd : d ≠ cs := by
        rintro rfl
        simp [hfresh] at hu
      exact ⟨u, by rw [hthreads, Function.update_of_ne hd]; exact hu, hslot, hpc⟩
    · simp only [haccept, AcceptLoop.publishes, Option.some.injEq, Prod.mk.injEq] at hpub
      rcases hpub with ⟨rfl, rfl⟩
      exact ⟨_, by rw [hthreads, Function.update_self], rfl, rfl⟩
  case unused =>
    intro j hj d u hu hslot
    rw [hslots] at hj
    rcases update_eq_some_iff.mp (hthreads ▸ hu) with ⟨rfl, rfl⟩ | ⟨_, hold⟩
    · subst hslot
      rw [hprepared.2.1, Option.some.injEq] at hj
      exact absurd hfresh.2.1 (hj ▸ Nat.lt_irrefl 0)
    · exact hs.unused j hj d u hold hslot
  case took =>
    intro d u e hu hpc
    rcases update_eq_some_iff.mp (hthreads ▸ hu) with ⟨rfl, rfl⟩ | ⟨_, hold⟩
    · cases hpc
    · exact hs.took d u e hold hpc
  case reclaimed => simp [hloop]
  case ledger =>
    unfold State.Accepted
    rw [hnext, hcloses]
    refine hs.ledger.pass fun d _ => ?_
    unfold State.Holds
    simp only [hslots, hloop, haccept, AcceptLoop.Holds, hthreads]
    refine or_congr_right (or_congr_right (exists_congr fun u => and_congr_left fun hpc => ?_))
    rw [update_eq_some_iff]
    constructor
    · rintro (⟨rfl, rfl⟩ | ⟨_, hold⟩)
      · cases hpc
      · exact hold
    · intro hold
      exact Or.inr ⟨ho.fresh_ne (by simp [haccept, AcceptLoop.fresh]) hold, hold⟩

attribute [local simp] State.goto State.setSlot State.setThread State.closeSocket
  AcceptLoop.handled AcceptLoop.fresh AcceptLoop.Holds AcceptLoop.publishes

/-- Every step of the accept loop keeps the invariant. -/
theorem acceptStep (hs : Sockets σ) (ho : Ownership σ) {w : Whitelist} {ok : Bool}
    (h : σ.acceptStep w ok = some σ') : Sockets σ' := by
  unfold State.acceptStep at h
  split at h
  case h_1 => cases h
  case h_2 cs ip haccept =>
    cases h
    exact hs.select ho w haccept
  case h_3 cs ip i oldS joinOld old haccept =>
    cases h
    have hreclaimed : ∀ c, oldS = some c → (σ.slots i).s = none ∧
        ∃ t, σ.threads c = some t ∧ t.slot = i ∧ t.pc ≠ .took (some c) :=
      fun c hc => hs.reclaimed cs ip i c joinOld old (hc ▸ haccept)
    refine hs.close oldS rfl rfl rfl rfl (by simp [haccept]) (by simp) ?_ ?_ ?_ ?_
    · intro c hc
      rcases hreclaimed c hc with ⟨_, t, ht, _⟩
      exact ⟨ho.known c t ht, by simp [haccept, hc]⟩
    · intro c hc j hj
      rcases hreclaimed c hc with ⟨hnone, t, ht, hslot, _⟩
      rcases hs.serving j c hj (ho.known c t ht).1 with ⟨u, hu, huslot, _⟩ | hpub
      · cases ht.symm.trans hu
        rw [← huslot, hslot, hnone] at hj
        cases hj
      · simp [haccept] at hpub
    · intro c hc t ht
      rcases hreclaimed c hc with ⟨_, u, hu, _, hpc⟩
      cases ht.symm.trans hu
      exact hpc
    · intro c
      simp only [State.goto, haccept, AcceptLoop.Holds]
      constructor
      · rintro rfl
        refine ⟨Or.inl rfl, fun hc => ?_⟩
        rcases hreclaimed c hc with ⟨_, t, ht, _⟩
        exact ho.fresh_ne (by simp [haccept]) ht rfl
      · rintro ⟨rfl | hc, hne⟩
        · rfl
        · exact absurd hc hne
  case h_4 cs ip i joinOld c haccept =>
    cases hj : joinOld with
    | false =>
        rw [hj] at h haccept
        cases h
        exact hs.keep rfl rfl rfl (by simp) (by simp [haccept]) (by simp) (by simp [haccept])
    | true =>
        rw [hj] at h haccept
        simp only [↓reduceIte, State.joinThread] at h
        split at h
        case h_1 t ht =>
          split at h
          case isTrue hpc =>
            cases h
            exact hs.join haccept ht
          case isFalse => cases h
        case h_2 => cases h
  case h_5 cs ip i haccept =>
    cases h
    -- all threads of the slot have been joined, so it holds no connection's socket
    have howner : σ.owner i = none := by
      simp [State.owner, ho.handled i (by simp [haccept]), haccept, AcceptLoop.keeps]
    have hempty : ∀ c, 0 < c → (σ.slots i).s ≠ some c := by
      intro c hpos hc
      rcases hs.serving i c hc hpos with ⟨t, ht, hslot, hpc⟩ | hpub
      · have hj := ho.unjoined_of_pc ht (by simp [hpc])
        simp [ho.joined_of_owner howner ht hslot] at hj
      · simp [haccept] at hpub
    unfold State.initializeClient
    refine hs.move i rfl rfl rfl (by simp +contextual) (by simp [haccept]) (by simp) ?_ ?_
    · cases ok <;> simp
    · intro c hpos
      cases ok <;> simp [haccept, hempty c hpos]
  case h_6 cs ip i haccept =>
    cases h
    have hprepared := ho.prepared
    simp only [State.Prepared, haccept] at hprepared
    have hfresh := ho.fresh cs (by simp [haccept])
    refine hs.move i rfl rfl rfl (by simp +contextual) (by simp [haccept]) ?_ (by simp) ?_
    · simp [hfresh]
    · simp [haccept, hprepared, eq_comm]
  case h_7 cs ip i haccept =>
    split at h
    case isTrue =>
      cases h
      exact hs.start ho haccept
    case isFalse =>
      cases h
      exact hs.keep rfl rfl rfl (by simp) (by simp [haccept]) (by simp) (by simp [haccept])
  case h_8 cs i haccept =>
    cases h
    exact hs.keep rfl rfl rfl (update_s σ i) (by simp [haccept]) (by simp) (by simp [haccept])
  case h_9 cs i haccept =>
    cases h
    exact hs.keep rfl rfl rfl (update_s σ i) (by simp [haccept]) (by simp) (by simp [haccept])
  case h_10 cs i haccept =>
    cases h
    have hprepared := ho.prepared
    simp only [State.Prepared, haccept] at hprepared
    refine hs.move i rfl rfl rfl (by simp +contextual) ?_ (by simp) (by simp) (by simp [haccept])
    intro c j hji hpub
    simp only [haccept, AcceptLoop.publishes, Option.some.injEq, Prod.mk.injEq] at hpub
    exact absurd hpub.2.symm hji
  case h_11 i s haccept =>
    cases h
    refine hs.close s rfl rfl rfl rfl (by simp [haccept]) (by simp) ?_ ?_ ?_ (by simp [haccept])
    · intro c hc
      exact ⟨(ho.fresh c (by simp [haccept, hc])).2, by simp [haccept, hc]⟩
    · intro c hc
      exact hs.slot_ne_of_fresh ho (by simp [haccept, hc]) (by simp [haccept])
    · intro c hc t ht
      exact absurd rfl (ho.fresh_ne (by simp [haccept, hc]) ht)
  case h_12 i haccept =>
    cases h
    exact hs.keep rfl rfl rfl (update_s σ i) (by simp [haccept]) (by simp) (by simp [haccept])
  case h_13 i haccept =>
    cases h
    exact hs.keep rfl rfl rfl (update_s σ i) (by simp [haccept]) (by simp) (by simp [haccept])
  case h_14 cs haccept =>
    cases h
    refine hs.close (some cs) rfl rfl rfl rfl (by simp [haccept]) (by simp) ?_ ?_ ?_ ?_
    · rintro c ⟨⟩
      exact ⟨(ho.fresh cs (by simp [haccept])).2, by simp [haccept]⟩
    · rintro c ⟨⟩
      exact hs.slot_ne_of_fresh ho (by simp [haccept]) (by simp [haccept])
    · rintro c ⟨⟩ t ht
      exact absurd rfl (ho.fresh_ne (by simp [haccept]) ht)
    · simp [haccept, eq_comm]

/-! ## Steps of the threads -/

/-- A socket the accept loop holds is in no slot's thread: it belongs to a
connection without a thread, or it was reclaimed before the thread took it. -/
theorem not_took_of_holds (hs : Sockets σ) (ho : Ownership σ) {c : ConnId} {t : Thread}
    (hholds : σ.accept.Holds c) (ht : σ.threads c = some t) : t.pc ≠ .took (some c) := by
  have hne : ∀ d, σ.accept.fresh = some d → c ≠ d := fun d hd => ho.fresh_ne hd ht
  unfold AcceptLoop.Holds at hholds
  split at hholds
  case h_7 cs ip i oldS joinOld old haccept =>
    rcases hholds with rfl | rfl
    · exact absurd rfl (hne c (by simp [haccept]))
    · rcases hs.reclaimed cs ip i c joinOld old haccept with ⟨_, u, hu, _, hpc⟩
      cases ht.symm.trans hu
      exact hpc
  case h_8 haccept => exact absurd rfl (hne c (by simp [haccept, hholds]))
  all_goals first
    | exact hholds.elim
    | (rename_i haccept; exact absurd hholds (hne _ (by simp [haccept])))

/-- A thread past the command loop that leaves the sockets of the slots alone
keeps the invariant when the ledger stays in order. -/
theorem advance (hs : Sockets σ) {c : ConnId} {t : Thread} {p : ThreadPc}
    (ht : σ.threads c = some t) (hpc : t.pc ≠ .serving) (hp : ∀ d, p ≠ .took (some d))
    (hthreads : σ'.threads = Function.update σ.threads c (some { t with pc := p }))
    (haccept : σ'.accept = σ.accept) (hslots : ∀ j, (σ'.slots j).s = (σ.slots j).s)
    (hledger : Lib.Ledger σ'.Accepted σ'.Holds σ'.closes) : Sockets σ' where
  serving j d hj hpos := by
    rw [haccept]
    rw [hslots] at hj
    refine (hs.serving j d hj hpos).imp_left ?_
    rintro ⟨u, hu, hslot, hserving⟩
    have hd : d ≠ c := by
      rintro rfl
      cases ht.symm.trans hu
      exact hpc hserving
    exact ⟨u, by rw [hthreads, Function.update_of_ne hd]; exact hu, hslot, hserving⟩
  unused j hj d u hu hslot := by
    rw [hslots] at hj
    rcases update_eq_some_iff.mp (hthreads ▸ hu) with ⟨rfl, rfl⟩ | ⟨_, hold⟩
    · exact hs.unused j hj d t ht hslot
    · exact hs.unused j hj d u hold hslot
  took d u e hu hpc' := by
    rcases update_eq_some_iff.mp (hthreads ▸ hu) with ⟨rfl, rfl⟩ | ⟨_, hold⟩
    · exact absurd hpc' (hp e)
    · exact hs.took d u e hold hpc'
  reclaimed cs ip i d joinOld old h := by
    rcases hs.reclaimed cs ip i d joinOld old (haccept ▸ h) with ⟨hnone, u, hu, hslot, hpc'⟩
    refine ⟨(hslots i).trans hnone, ?_⟩
    rw [hthreads]
    by_cases hd : d = c
    · subst hd
      cases ht.symm.trans hu
      exact ⟨_, Function.update_self .., hslot, hp d⟩
    · exact ⟨u, by rw [Function.update_of_ne hd]; exact hu, hslot, hpc'⟩
  ledger := hledger

/-- Past the close of its socket a thread holds none. -/
theorem advance_quiet (hs : Sockets σ) {c : ConnId} {t : Thread} {p : ThreadPc}
    (ht : σ.threads c = some t) (hpc : t.pc ≠ .serving) (htook : ∀ d, t.pc ≠ .took (some d))
    (hp : ∀ d, p ≠ .took (some d))
    (hthreads : σ'.threads = Function.update σ.threads c (some { t with pc := p }))
    (haccept : σ'.accept = σ.accept) (hslots : ∀ j, (σ'.slots j).s = (σ.slots j).s)
    (hcloses : σ'.closes = σ.closes) (hnext : σ'.next = σ.next) : Sockets σ' := by
  refine hs.advance ht hpc hp hthreads haccept hslots ?_
  unfold State.Accepted
  rw [hnext, hcloses]
  refine hs.ledger.pass fun d _ => ?_
  simp only [State.Holds, haccept, hslots, hthreads]
  refine or_congr_right (or_congr_right (exists_congr fun u => and_congr_left fun hpc' => ?_))
  rw [update_eq_some_iff]
  constructor
  · rintro (⟨rfl, rfl⟩ | ⟨_, hold⟩)
    · exact absurd hpc' (hp d)
    · exact hold
  · intro hold
    refine Or.inr ⟨?_, hold⟩
    rintro rfl
    cases ht.symm.trans hold
    exact htook d hpc'

/-- Leaving the command loop, a thread takes its own socket out of its slot, if
it is still there. -/
theorem handOff (hs : Sockets σ) (ho : Ownership σ) {c : ConnId} {t : Thread}
    (ht : σ.threads c = some t) (hpc : t.pc = .serving) :
    Sockets ((σ.setThread c { t with pc := .took (σ.slots t.slot).s }).setSlot t.slot
      { σ.slots t.slot with s := none }) := by
  have hj := ho.unjoined_of_pc ht (by simp [hpc])
  have hown : ∀ d, (σ.slots t.slot).s = some d → d = c := fun d hd =>
    (hs.eq_of_socket ho ht hj hd).1
  generalize hσ' : (σ.setThread c { t with pc := .took (σ.slots t.slot).s }).setSlot t.slot
    { σ.slots t.slot with s := none } = σ'
  have hself : (σ'.slots t.slot).s = none := by rw [← hσ']; simp
  have hothers : ∀ j, j ≠ t.slot → (σ'.slots j).s = (σ.slots j).s := by
    intro j hjs
    rw [← hσ']
    simp [hjs]
  have haccept : σ'.accept = σ.accept := by rw [← hσ']; rfl
  have hthreads : σ'.threads = Function.update σ.threads c
      (some { t with pc := .took (σ.slots t.slot).s }) := by
    rw [← hσ']; rfl
  have hcloses : σ'.closes = σ.closes := by rw [← hσ']; rfl
  have hnext : σ'.next = σ.next := by rw [← hσ']; rfl
  have hslots : ∀ j d, (σ'.slots j).s = some d ↔ j ≠ t.slot ∧ (σ.slots j).s = some d := by
    intro j d
    by_cases hjs : j = t.slot
    · simp [hjs, hself]
    · simp [hjs, hothers j hjs]
  constructor
  case serving =>
    intro j d hjd hpos
    rw [haccept]
    rcases (hslots j d).mp hjd with ⟨hjs, hold⟩
    refine (hs.serving j d hold hpos).imp_left ?_
    rintro ⟨u, hu, hslot, hserving⟩
    have hd : d ≠ c := by
      rintro rfl
      cases ht.symm.trans hu
      exact hjs hslot.symm
    exact ⟨u, by rw [hthreads, Function.update_of_ne hd]; exact hu, hslot, hserving⟩
  case unused =>
    intro j hj0 d u hu hslot
    rcases (hslots j 0).mp hj0 with ⟨hjs, hold⟩
    rcases update_eq_some_iff.mp (hthreads ▸ hu) with ⟨rfl, rfl⟩ | ⟨_, hu'⟩
    · exact absurd hslot.symm hjs
    · exact hs.unused j hold d u hu' hslot
  case took =>
    intro d u e hu hpc'
    rcases update_eq_some_iff.mp (hthreads ▸ hu) with ⟨rfl, rfl⟩ | ⟨_, hold⟩
    · exact hown e (ThreadPc.took.inj hpc')
    · exact hs.took d u e hold hpc'
  case reclaimed =>
    intro cs ip i d joinOld old h
    rcases hs.reclaimed cs ip i d joinOld old (haccept ▸ h) with ⟨hnone, u, hu, hslot, hpc'⟩
    constructor
    · by_cases hi : i = t.slot
      · rw [hi, hself]
      · rw [hothers i hi, hnone]
    · rw [hthreads]
      by_cases hd : d = c
      · subst hd
        cases ht.symm.trans hu
        refine ⟨_, Function.update_self .., hslot, ?_⟩
        simp [hslot, hnone]
      · exact ⟨u, by rw [Function.update_of_ne hd]; exact hu, hslot, hpc'⟩
  case ledger =>
    unfold State.Accepted
    rw [hnext, hcloses]
    refine hs.ledger.pass fun d _ => ?_
    unfold State.Holds
    simp only [haccept, hslots, hthreads, update_eq_some_iff]
    refine or_congr_right ⟨?_, ?_⟩
    · rintro (⟨j, _, hjd⟩ | ⟨u, ⟨rfl, rfl⟩ | ⟨_, hu⟩, hpc'⟩)
      · exact Or.inl ⟨j, hjd⟩
      · exact Or.inl ⟨t.slot, ThreadPc.took.inj hpc'⟩
      · exact Or.inr ⟨u, hu, hpc'⟩
    · rintro (⟨j, hjd⟩ | ⟨u, hu, hpc'⟩)
      · by_cases hjs : j = t.slot
        · subst hjs
          have hd := hown d hjd
          exact Or.inr ⟨_, Or.inl ⟨hd, rfl⟩, by rw [hjd]⟩
        · exact Or.inl ⟨j, hjs, hjd⟩
      · refine Or.inr ⟨u, Or.inr ⟨?_, hu⟩, hpc'⟩
        rintro rfl
        cases ht.symm.trans hu
        simp [hpc] at hpc'

/-- A thread closes the socket it took, which nobody else holds. -/
theorem closeTaken (hs : Sockets σ) (ho : Ownership σ) {c : ConnId} {t : Thread}
    {s : Option ConnId} (ht : σ.threads c = some t) (hpc : t.pc = .took s) :
    Sockets ((σ.closeSocket s).setThread c { t with pc := .closed }) := by
  refine hs.advance ht (by simp [hpc]) (by simp) rfl rfl (fun _ => rfl) ?_
  have hown : ∀ d, s = some d → d = c := fun d hd => hs.took c t d ht (hd ▸ hpc)
  have hknown := ho.known c t ht
  have hslot : s = some c → ∀ j, (σ.slots j).s ≠ some c := by
    intro hc j hj
    rcases hs.serving j c hj hknown.1 with ⟨u, hu, _, hserving⟩ | hpub
    · cases ht.symm.trans hu
      simp [hpc] at hserving
    · exact absurd rfl (ho.fresh_ne (fresh_of_publishes hpub) ht)
  refine hs.ledger.release s ?_ ?_ ?_ ?_
  · intro d hd
    cases hown d hd
    exact ⟨hknown, Or.inr (Or.inr ⟨t, ht, hd ▸ hpc⟩)⟩
  · intro d _
    simp only [State.Holds, State.setThread, State.closeSocket, update_eq_some_iff]
    constructor
    · rintro (h | ⟨j, hj⟩ | ⟨u, ⟨_, rfl⟩ | ⟨hd, hu⟩, hpc'⟩)
      · refine ⟨Or.inl h, fun hd => ?_⟩
        cases hown d hd
        exact hs.not_took_of_holds ho h ht (hd ▸ hpc)
      · refine ⟨Or.inr (Or.inl ⟨j, hj⟩), fun hd => ?_⟩
        cases hown d hd
        exact hslot hd j hj
      · cases hpc'
      · exact ⟨Or.inr (Or.inr ⟨u, hu, hpc'⟩), fun hs' => hd (hown d hs')⟩
    · rintro ⟨h | h | ⟨u, hu, hpc'⟩, hne⟩
      · exact Or.inl h
      · exact Or.inr (Or.inl h)
      · refine Or.inr (Or.inr ⟨u, Or.inr ⟨?_, hu⟩, hpc'⟩)
        rintro rfl
        cases ht.symm.trans hu
        exact hne (ThreadPc.took.inj (hpc.symm.trans hpc'))
  · intro d hd
    simp [hd]
  · intro d hd
    simp [hd]

/-- Every step of a client thread keeps the invariant. -/
theorem threadStep (hs : Sockets σ) (ho : Ownership σ) {c : ConnId}
    (h : σ.threadStep c = some σ') : Sockets σ' := by
  unfold State.threadStep at h
  split at h
  case h_1 => cases h
  case h_2 t ht =>
    simp only at h
    split at h
    case h_1 hpc =>
      cases h
      exact hs.handOff ho ht hpc
    case h_2 s hpc =>
      cases h
      exact hs.closeTaken ho ht hpc
    case h_3 hpc =>
      cases h
      exact hs.advance_quiet ht (by simp [hpc]) (by simp [hpc]) (by simp) rfl rfl
        (update_s σ t.slot) rfl rfl
    case h_4 hpc =>
      cases h
      exact hs.advance_quiet ht (by simp [hpc]) (by simp [hpc]) (by simp) rfl rfl
        (update_s σ t.slot) rfl rfl
    case h_5 hpc =>
      cases h
      exact hs.advance_quiet ht (by simp [hpc]) (by simp [hpc]) (by simp) rfl rfl
        (fun _ => rfl) rfl rfl
    case h_6 => cases h

/-- Every step of the server keeps the invariant. -/
theorem step (hs : Sockets σ) (ho : Ownership σ) {w : Whitelist} {a : Action}
    (h : σ.step w a = some σ') : Sockets σ' := by
  cases a with
  | arrive ip =>
      simp only [State.step] at h
      split at h
      case h_1 haccept =>
        cases h
        refine { hs with serving := ?_, reclaimed := by simp, ledger := ?_ }
        · simpa [haccept] using hs.serving
        · refine hs.ledger.issue σ.next ?_ ?_ ?_ ?_
          · exact fun hnew => absurd hnew.2 (Nat.lt_irrefl _)
          · intro d
            simp only [State.Accepted, Nat.lt_succ_iff_lt_or_eq]
            constructor
            · rintro ⟨hpos, hlt | rfl⟩
              · exact Or.inl ⟨hpos, hlt⟩
              · exact Or.inr rfl
            · rintro (⟨hpos, hlt⟩ | rfl)
              · exact ⟨hpos, Or.inl hlt⟩
              · exact ⟨ho.started_next, Or.inr rfl⟩
          · intro d hd
            simp [State.Holds, haccept, ne_of_lt hd.2]
          · exact Or.inl rfl
      case h_2 => cases h
  | accept ok => exact hs.acceptStep ho h
  | serve c =>
      simp only [State.step, State.serveStep] at h
      split at h
      case h_1 =>
        split at h
        case isTrue =>
          cases h
          exact hs
        case isFalse => cases h
      case h_2 => cases h
  | finish c => exact hs.threadStep ho h

end Sockets
end Ps3Netsrv.Clients
