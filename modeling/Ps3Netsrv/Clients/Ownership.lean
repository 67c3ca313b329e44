import Ps3Netsrv.Clients.Model

/-!
# Who owns a slot

A slot belongs to the thread that is recorded in it until the accept loop has
joined that thread.  The record is {lit}`thread` while {lit}`has_thread` is set;
between the reservation and the join it is the accept loop's {lit}`old_thread`,
and between the creation of a thread and the setting of {lit}`has_thread` it is
the loop's new connection.

Main results:

- Definition {lit}`State.owner`: the thread a slot is recorded for.
- Definition {lit}`Ownership`: the invariant that ties the slots, the threads and
  the accept loop together.
- Theorem {lit}`Ownership.step`: every step of every process keeps it.
-/

namespace Ps3Netsrv.Clients

/-! ## What the accept loop holds on to -/

/-- The slot the accept loop is working on, from its reservation until it is
handed to a thread or released. -/
def AcceptLoop.handled : AcceptLoop → Option SlotId
  | .reserved _ _ i _ _ _ | .reclaimed _ _ i _ _ | .joined _ _ i | .initialized _ _ i
  | .published _ _ i | .failedInit _ i | .failedStart _ i | .tookBack i _
  | .closedBack i | .freedBack i => some i
  | .waiting | .accepted _ _ | .started _ _ | .closing _ => none

/-- The connection that has no thread yet and whose socket is open. -/
def AcceptLoop.fresh : AcceptLoop → Option ConnId
  | .accepted cs _ | .reserved cs _ _ _ _ _ | .reclaimed cs _ _ _ _ | .joined cs _ _
  | .initialized cs _ _ | .published cs _ _ | .failedInit cs _ | .failedStart cs _
  | .closing cs => some cs
  | .tookBack _ s => s
  | .waiting | .started _ _ | .closedBack _ | .freedBack _ => none

/-- The slot and the address the accept loop has chosen. -/
def AcceptLoop.claim : AcceptLoop → Option (SlotId × UInt32)
  | .reserved _ ip i _ _ _ | .reclaimed _ ip i _ _ | .joined _ ip i | .initialized _ ip i
  | .published _ ip i => some (i, ip)
  | _ => none

/-- The thread the accept loop remembers for a slot in which it is not
recorded. -/
def AcceptLoop.keeps : AcceptLoop → SlotId → Option ConnId
  | .reserved _ _ i _ joinOld t, j | .reclaimed _ _ i joinOld t, j =>
      if joinOld = true ∧ j = i then some t else none
  | .started t i, j => if j = i then some t else none
  | _, _ => none

/-- The thread a slot is recorded for. -/
def State.owner (σ : State) (i : SlotId) : Option ConnId :=
  if (σ.slots i).hasThread then some (σ.slots i).thread else σ.accept.keeps i

/-- A slot has a live owner when its thread may still touch it. -/
def State.LiveOwner (σ : State) (i : SlotId) : Prop :=
  ∃ c t, σ.owner i = some c ∧ σ.threads c = some t ∧ t.pc.live = true

/-- The owner of a slot is live when its thread is. -/
theorem State.liveOwner_iff {σ : State} {i : SlotId} {c : ConnId} {t : Thread}
    (howner : σ.owner i = some c) (ht : σ.threads c = some t) :
    σ.LiveOwner i ↔ t.pc.live = true := by
  constructor
  · rintro ⟨d, u, hd, hu, hlive⟩
    cases howner.symm.trans hd
    cases ht.symm.trans hu
    exact hlive
  · intro hlive
    exact ⟨c, t, howner, ht, hlive⟩

/-- A step that keeps a slot's owner and that owner's thread keeps it live. -/
theorem State.liveOwner_congr {σ σ' : State} {i : SlotId} (howner : σ'.owner i = σ.owner i)
    (hthreads : ∀ c, σ.owner i = some c → σ'.threads c = σ.threads c) :
    σ'.LiveOwner i ↔ σ.LiveOwner i := by
  unfold State.LiveOwner
  rw [howner]
  constructor
  · rintro ⟨c, t, hc, ht, hlive⟩
    exact ⟨c, t, hc, hthreads c hc ▸ ht, hlive⟩
  · rintro ⟨c, t, hc, ht, hlive⟩
    exact ⟨c, t, hc, (hthreads c hc).trans ht, hlive⟩

/-- A thread found after one entry was rewritten is that entry or an old one. -/
theorem update_eq_some_iff {threads : ConnId → Option Thread} {c d : ConnId} {t u : Thread} :
    Function.update threads c (some t) d = some u ↔
      (d = c ∧ u = t) ∨ (d ≠ c ∧ threads d = some u) := by
  by_cases h : d = c
  · simp [h, eq_comm]
  · simp [h]

/-- What the accept loop has written into the slot it is preparing. -/
def State.Prepared (σ : State) : Prop :=
  match σ.accept with
  | .initialized _ _ i => (σ.slots i).connected = true ∧ (σ.slots i).s = none
  | .published cs ip i =>
      (σ.slots i).connected = true ∧ (σ.slots i).s = some cs ∧ (σ.slots i).ip_addr = ip
  | .failedStart cs i => (σ.slots i).s = some cs
  | _ => True

/-! ## The invariant -/

/-- The records of the slots and the threads agree, the accept loop works on a
slot nobody else is recorded in, and outside that slot a connected slot has a
live owner and an address of its own. -/
structure Ownership (σ : State) : Prop where
  owned : ∀ i c, σ.owner i = some c →
    ∃ t, σ.threads c = some t ∧ t.slot = i ∧ t.joined = false
  unjoined : ∀ c t, σ.threads c = some t → t.joined = false → σ.owner t.slot = some c
  joined : ∀ c t, σ.threads c = some t → t.joined = true → t.pc = .exited
  known : ∀ c t, σ.threads c = some t → 0 < c ∧ c < σ.next
  handled : ∀ i, σ.accept.handled = some i → (σ.slots i).hasThread = false
  started : ∀ c i, σ.accept = .started c i →
    (σ.slots i).thread = c ∧ (σ.slots i).hasThread = false
  fresh : ∀ c, σ.accept.fresh = some c → σ.threads c = none ∧ 0 < c ∧ c < σ.next
  prepared : σ.Prepared
  connected : ∀ i, σ.accept.handled ≠ some i →
    ((σ.slots i).connected = true ↔ σ.LiveOwner i)
  distinct : ∀ i j, i ≠ j → σ.accept.handled ≠ some i → σ.accept.handled ≠ some j →
    (σ.slots i).connected = true → (σ.slots j).connected = true →
    (σ.slots i).ip_addr ≠ (σ.slots j).ip_addr
  claim : ∀ i ip, σ.accept.claim = some (i, ip) →
    ∀ j, j ≠ i → (σ.slots j).connected = true → (σ.slots j).ip_addr ≠ ip
  started_next : 0 < σ.next

/-- Nobody owns a slot before the first client. -/
theorem ownership_init : Ownership State.init := by
  constructor <;> simp [State.init, State.owner, State.LiveOwner, Slot.zeroed,
    AcceptLoop.keeps, AcceptLoop.handled, AcceptLoop.fresh, AcceptLoop.claim, State.Prepared]

namespace Ownership

variable {σ σ' : State}

/-! ## Steps that start and join no thread -/

/-- A step that changes neither the threads nor their records keeps the
invariant when a slot it hands back is either as it was or free. -/
theorem keep (hi : Ownership σ) (hthreads : σ'.threads = σ.threads) (hnext : σ.next ≤ σ'.next)
    (howner : ∀ j, σ'.owner j = σ.owner j)
    (hslots : ∀ j, σ'.accept.handled ≠ some j →
      (σ.accept.handled ≠ some j ∧ (σ'.slots j).connected = (σ.slots j).connected ∧
        (σ'.slots j).ip_addr = (σ.slots j).ip_addr) ∨
      ((σ'.slots j).connected = false ∧ σ.owner j = none))
    (hhandled : ∀ i, σ'.accept.handled = some i → (σ'.slots i).hasThread = false)
    (hstarted : ∀ c i, σ'.accept ≠ .started c i)
    (hfresh : ∀ c, σ'.accept.fresh = some c → σ.threads c = none ∧ 0 < c ∧ c < σ'.next)
    (hprepared : σ'.Prepared)
    (hclaim : ∀ i ip, σ'.accept.claim = some (i, ip) →
      ∀ j, j ≠ i → (σ'.slots j).connected = true → (σ'.slots j).ip_addr ≠ ip) :
    Ownership σ' := by
  have hlive : ∀ j, σ'.LiveOwner j ↔ σ.LiveOwner j := fun j =>
    State.liveOwner_congr (howner j) fun _ _ => by rw [hthreads]
  constructor
  case owned => simpa only [howner, hthreads] using hi.owned
  case unjoined => simpa only [howner, hthreads] using hi.unjoined
  case joined => simpa only [hthreads] using hi.joined
  case known =>
    intro c t ht
    rw [hthreads] at ht
    exact ⟨(hi.known c t ht).1, Nat.lt_of_lt_of_le (hi.known c t ht).2 hnext⟩
  case handled => exact hhandled
  case started =>
    intro c i h
    exact absurd h (hstarted c i)
  case fresh => simpa only [hthreads] using hfresh
  case prepared => exact hprepared
  case connected =>
    intro j hj
    rw [hlive j]
    rcases hslots j hj with ⟨hold, hconn, _⟩ | ⟨hconn, hnone⟩
    · rw [hconn]
      exact hi.connected j hold
    · simp [hconn, State.LiveOwner, hnone]
  case distinct =>
    intro i j hij hnoti hnotj hci hcj
    rcases hslots i hnoti with ⟨holdi, hconni, hipi⟩ | ⟨hconni, _⟩
    · rcases hslots j hnotj with ⟨holdj, hconnj, hipj⟩ | ⟨hconnj, _⟩
      · rw [hipi, hipj]
        exact hi.distinct i j hij holdi holdj (hconni ▸ hci) (hconnj ▸ hcj)
      · simp [hconnj] at hcj
    · simp [hconni] at hci
  case claim => exact hclaim
  case started_next => exact Nat.lt_of_lt_of_le hi.started_next hnext

/-- While the accept loop works on a slot, its next statement may change that
slot alone. -/
theorem keep_handled (hi : Ownership σ) {i : SlotId} (hslot : σ.accept.handled = some i)
    (hthreads : σ'.threads = σ.threads) (hnext : σ'.next = σ.next)
    (hothers : ∀ j, j ≠ i → σ'.slots j = σ.slots j)
    (hrecord : (σ'.slots i).hasThread = false)
    (hkeeps : σ'.accept.keeps = σ.accept.keeps)
    (hhandled : σ'.accept.handled = some i ∨
      (σ'.accept.handled = none ∧ (σ'.slots i).connected = false ∧ σ.accept.keeps i = none))
    (hstarted : ∀ c i, σ'.accept ≠ .started c i)
    (hfresh : ∀ c, σ'.accept.fresh = some c → σ.accept.fresh = some c)
    (hprepared : σ'.Prepared)
    (hclaim : ∀ j ip, σ'.accept.claim = some (j, ip) → j = i ∧ σ.accept.claim = some (j, ip)) :
    Ownership σ' := by
  have hhas := hi.handled i hslot
  refine hi.keep hthreads (le_of_eq hnext.symm) ?howner ?hslots ?hhandled hstarted ?hfresh
    hprepared ?hclaim
  case howner =>
    intro j
    unfold State.owner
    by_cases hj : j = i
    · simp [hj, hrecord, hhas, hkeeps]
    · rw [hothers j hj, hkeeps]
  case hslots =>
    intro j hj
    by_cases hji : j = i
    · rcases hhandled with h | ⟨_, hconn, hnone⟩
      · exact absurd (hji ▸ h) hj
      · right
        subst hji
        exact ⟨hconn, by simp [State.owner, hhas, hnone]⟩
    · left
      rw [hothers j hji]
      exact ⟨by simpa [hslot] using Ne.symm hji, rfl, rfl⟩
  case hhandled =>
    intro j hj
    rcases hhandled with h | ⟨h, _⟩
    · cases h.symm.trans hj
      exact hrecord
    · simp [h] at hj
  case hfresh =>
    intro c hc
    rw [hnext]
    exact hi.fresh c (hfresh c hc)
  case hclaim =>
    intro j ip hj k hk hconn
    rcases hclaim j ip hj with ⟨rfl, hold⟩
    rw [hothers k hk] at hconn ⊢
    exact hi.claim j ip hold k hk hconn

/-- Writing the slot the accept loop works on is such a statement. -/
theorem keep_setSlot (hi : Ownership σ) {i : SlotId} {slot : Slot} {a : AcceptLoop}
    (hslot : σ.accept.handled = some i) (hrecord : slot.hasThread = false)
    (hkeeps : a.keeps = σ.accept.keeps)
    (hhandled : a.handled = some i ∨
      (a.handled = none ∧ slot.connected = false ∧ σ.accept.keeps i = none))
    (hstarted : ∀ c i, a ≠ .started c i)
    (hfresh : ∀ c, a.fresh = some c → σ.accept.fresh = some c)
    (hprepared : ((σ.setSlot i slot).goto a).Prepared)
    (hclaim : ∀ j ip, a.claim = some (j, ip) → j = i ∧ σ.accept.claim = some (j, ip)) :
    Ownership ((σ.setSlot i slot).goto a) := by
  have hself : ((σ.setSlot i slot).goto a).slots i = slot := Function.update_self ..
  refine hi.keep_handled hslot rfl rfl (fun j hj => Function.update_of_ne hj ..) ?_ hkeeps ?_
    hstarted hfresh hprepared hclaim
  · rw [hself]
    exact hrecord
  · rw [hself]
    exact hhandled

/-- Away from any slot the accept loop only drops or closes what it holds. -/
theorem keep_idle (hi : Ownership σ) (hslot : σ.accept.handled = none)
    (hthreads : σ'.threads = σ.threads) (hnext : σ.next ≤ σ'.next) (hslots : σ'.slots = σ.slots)
    (hkeeps : σ'.accept.keeps = σ.accept.keeps) (hhandled : σ'.accept.handled = none)
    (hstarted : ∀ c i, σ'.accept ≠ .started c i)
    (hfresh : ∀ c, σ'.accept.fresh = some c → σ.threads c = none ∧ 0 < c ∧ c < σ'.next)
    (hclaim : σ'.accept.claim = none) : Ownership σ' := by
  refine hi.keep hthreads hnext ?howner ?hslots (by simp [hhandled]) hstarted hfresh
    ?hprepared (by simp [hclaim])
  case howner =>
    intro j
    unfold State.owner
    rw [hslots, hkeeps]
  case hslots =>
    intro j _
    exact Or.inl ⟨by simp [hslot], by rw [hslots], by rw [hslots]⟩
  case hprepared =>
    unfold State.Prepared
    split
    case h_1 h => simp [h, AcceptLoop.claim] at hclaim
    case h_2 h => simp [h, AcceptLoop.claim] at hclaim
    case h_3 h => simp [h, AcceptLoop.handled] at hhandled
    case h_4 => trivial

/-! ## Steps of the threads -/

/-- A thread that has not exited has not been joined. -/
theorem unjoined_of_pc (hi : Ownership σ) {c : ConnId} {t : Thread} (ht : σ.threads c = some t)
    (hpc : t.pc ≠ .exited) : t.joined = false := by
  cases hj : t.joined with
  | false => rfl
  | true => exact absurd (hi.joined c t ht hj) hpc

/-- The thread that another slot is recorded for is another one. -/
theorem owner_ne (hi : Ownership σ) {c d : ConnId} {t : Thread} {j : SlotId}
    (ht : σ.threads c = some t) (hj : j ≠ t.slot) (hd : σ.owner j = some d) : d ≠ c := by
  rintro rfl
  rcases hi.owned j d hd with ⟨u, hu, huslot, _⟩
  cases ht.symm.trans hu
  exact hj huslot.symm

/-- Rewriting the thread of a connection that was accepted leaves all threads known. -/
theorem known_update (hi : Ownership σ) {c : ConnId} {t : Thread}
    (hthreads : σ'.threads = Function.update σ.threads c (some t)) (hnext : σ'.next = σ.next)
    (hc : 0 < c ∧ c < σ.next) {d : ConnId} {u : Thread} (hu : σ'.threads d = some u) :
    0 < d ∧ d < σ'.next := by
  rw [hnext]
  rcases update_eq_some_iff.mp (hthreads ▸ hu) with ⟨rfl, _⟩ | ⟨_, hold⟩
  · exact hc
  · exact hi.known d u hold

/-- Rewriting a thread, which has exited if it is joined, leaves all joined threads exited. -/
theorem joined_update (hi : Ownership σ) {c : ConnId} {t : Thread}
    (hthreads : σ'.threads = Function.update σ.threads c (some t))
    (ht : t.joined = true → t.pc = .exited) {d : ConnId} {u : Thread}
    (hu : σ'.threads d = some u) (huj : u.joined = true) : u.pc = .exited := by
  rcases update_eq_some_iff.mp (hthreads ▸ hu) with ⟨rfl, rfl⟩ | ⟨_, hold⟩
  · exact ht huj
  · exact hi.joined d u hold huj

/-- A thread that moves on keeps the invariant when it leaves its slot's record
alone, and lets go of the slot exactly when it stops being live. -/
theorem advance (hi : Ownership σ) {c : ConnId} {t : Thread} {p : ThreadPc}
    (ht : σ.threads c = some t) (hpc : t.pc ≠ .exited)
    (hthreads : σ'.threads = Function.update σ.threads c (some { t with pc := p }))
    (haccept : σ'.accept = σ.accept) (hnext : σ'.next = σ.next)
    (hrecord : ∀ j, (σ'.slots j).hasThread = (σ.slots j).hasThread ∧
      (σ'.slots j).thread = (σ.slots j).thread ∧ (σ'.slots j).ip_addr = (σ.slots j).ip_addr)
    (hothers : ∀ j, j ≠ t.slot → σ'.slots j = σ.slots j)
    (hslot : ((σ'.slots t.slot).connected = (σ.slots t.slot).connected ∧ p.live = t.pc.live) ∨
      ((σ'.slots t.slot).connected = false ∧ p.live = false)) : Ownership σ' := by
  have howner : ∀ j, σ'.owner j = σ.owner j := by
    intro j
    unfold State.owner
    rw [(hrecord j).1, (hrecord j).2.1, haccept]
  have hunjoined : t.joined = false := hi.unjoined_of_pc ht hpc
  have hmine : σ.owner t.slot = some c := hi.unjoined c t ht hunjoined
  have hdrop : ∀ j, (σ'.slots j).connected = true → (σ.slots j).connected = true := by
    intro j hj
    by_cases hjs : j = t.slot
    · subst hjs
      rcases hslot with ⟨hconn, _⟩ | ⟨hconn, _⟩
      · exact hconn ▸ hj
      · simp [hconn] at hj
    · rw [← hothers j hjs]
      exact hj
  -- the slot the accept loop has prepared is not this thread's
  have hprepared : σ'.Prepared := by
    have hold := hi.prepared
    unfold State.Prepared at hold ⊢
    rw [haccept]
    split at hold
    case h_4 => trivial
    all_goals
      rename_i h
      rw [hothers]
      · exact hold
      · rintro rfl
        have hhas := hi.handled t.slot (by rw [h]; rfl)
        simp [State.owner, hhas, h, AcceptLoop.keeps] at hmine
  constructor
  case owned =>
    intro i d hd
    rcases hi.owned i d (howner i ▸ hd) with ⟨u, hu, huslot, hujoined⟩
    by_cases hdc : d = c
    · subst hdc
      cases ht.symm.trans hu
      exact ⟨{ t with pc := p }, by simp [hthreads], huslot, hujoined⟩
    · exact ⟨u, by simp [hthreads, hdc, hu], huslot, hujoined⟩
  case unjoined =>
    intro d u hu huj
    rw [howner]
    rcases update_eq_some_iff.mp (hthreads ▸ hu) with ⟨rfl, rfl⟩ | ⟨_, hold⟩
    · exact hmine
    · exact hi.unjoined d u hold huj
  case joined =>
    intro d u
    exact hi.joined_update hthreads (by simp [hunjoined])
  case known =>
    intro d u
    exact hi.known_update hthreads hnext (hi.known c t ht)
  case handled =>
    intro i h
    rw [(hrecord i).1]
    exact hi.handled i (haccept ▸ h)
  case started =>
    intro d i h
    rw [(hrecord i).1, (hrecord i).2.1]
    exact hi.started d i (haccept ▸ h)
  case fresh =>
    intro d h
    have hd := hi.fresh d (haccept ▸ h)
    have hdc : d ≠ c := by
      rintro rfl
      simp [ht] at hd
    rw [hthreads, Function.update_of_ne hdc, hnext]
    exact hd
  case prepared => exact hprepared
  case connected =>
    intro j hj
    have hold := hi.connected j (haccept ▸ hj)
    by_cases hjs : j = t.slot
    · subst hjs
      rw [State.liveOwner_iff hmine ht] at hold
      rw [State.liveOwner_iff (howner t.slot ▸ hmine) (by rw [hthreads, Function.update_self])]
      rcases hslot with ⟨hconn, hlive⟩ | ⟨hconn, hlive⟩
      · rw [hconn, hold, ← hlive]
      · simp [hconn, hlive]
    · rw [hothers j hjs, hold]
      refine (State.liveOwner_congr (howner j) fun d hd => ?_).symm
      rw [hthreads, Function.update_of_ne (hi.owner_ne ht hjs hd)]
  case distinct =>
    intro i j hij hnoti hnotj hci hcj
    rw [haccept] at hnoti hnotj
    rw [(hrecord i).2.2, (hrecord j).2.2]
    exact hi.distinct i j hij hnoti hnotj (hdrop i hci) (hdrop j hcj)
  case claim =>
    intro i ip h j hji hcj
    rw [(hrecord j).2.2]
    exact hi.claim i ip (haccept ▸ h) j hji (hdrop j hcj)
  case started_next => exact hnext ▸ hi.started_next

/-- Joining the thread the accept loop remembers leaves the slot without an
owner. -/
theorem join (hi : Ownership σ) {cs : ConnId} {ip : UInt32} {i : SlotId} {c : ConnId}
    {t : Thread} (haccept : σ.accept = .reclaimed cs ip i true c) (ht : σ.threads c = some t)
    (hpc : t.pc = .exited) :
    Ownership ((σ.setThread c { t with joined := true }).goto (.joined cs ip i)) := by
  have hhas := hi.handled i (by simp [haccept, AcceptLoop.handled])
  have hfresh := hi.fresh cs (by simp [haccept, AcceptLoop.fresh])
  have hne : cs ≠ c := by
    rintro rfl
    simp [ht] at hfresh
  have hmine : σ.owner i = some c := by simp [State.owner, hhas, haccept, AcceptLoop.keeps]
  have hslot : t.slot = i := by
    rcases hi.owned i c hmine with ⟨u, hu, huslot, _⟩
    cases ht.symm.trans hu
    exact huslot
  generalize hσ' : (σ.setThread c { t with joined := true }).goto (.joined cs ip i) = σ'
  have hslots : σ'.slots = σ.slots := by rw [← hσ']; rfl
  have hloop : σ'.accept = .joined cs ip i := by rw [← hσ']; rfl
  have hthreads : σ'.threads = Function.update σ.threads c (some { t with joined := true }) := by
    rw [← hσ']; rfl
  have hnext : σ'.next = σ.next := by rw [← hσ']; rfl
  have howner : ∀ j, σ'.owner j = if j = i then none else σ.owner j := by
    intro j
    unfold State.owner
    rw [hslots, hloop, haccept]
    by_cases hj : j = i
    · simp [hj, hhas, AcceptLoop.keeps]
    · simp [hj, AcceptLoop.keeps]
  have hother : ∀ j d, j ≠ i → σ.owner j = some d → d ≠ c := by
    intro j d hj
    exact hi.owner_ne ht (hslot ▸ hj)
  constructor
  case owned =>
    intro j d hd
    rw [howner] at hd
    split at hd
    case isTrue => cases hd
    case isFalse hj =>
      rw [hthreads, Function.update_of_ne (hother j d hj hd)]
      exact hi.owned j d hd
  case unjoined =>
    intro d u hu huj
    rcases update_eq_some_iff.mp (hthreads ▸ hu) with ⟨rfl, rfl⟩ | ⟨hdc, hold⟩
    · cases huj
    · have hrec := hi.unjoined d u hold huj
      have hj : u.slot ≠ i := by
        intro hj
        rw [hj, hmine] at hrec
        exact hdc (Option.some.inj hrec).symm
      rw [howner, if_neg hj]
      exact hrec
  case joined =>
    intro d u
    exact hi.joined_update hthreads fun _ => hpc
  case known =>
    intro d u
    exact hi.known_update hthreads hnext (hi.known c t ht)
  case handled =>
    intro j hj
    cases (congrArg AcceptLoop.handled hloop).symm.trans hj
    rw [hslots]
    exact hhas
  case started => simp [hloop]
  case fresh =>
    intro d hd
    cases (congrArg AcceptLoop.fresh hloop).symm.trans hd
    rw [hthreads, Function.update_of_ne hne, hnext]
    exact hfresh
  case prepared => simp [State.Prepared, hloop]
  case connected =>
    intro j hj
    have hji : j ≠ i := by
      rintro rfl
      exact hj (by simp [hloop, AcceptLoop.handled])
    rw [hslots, hi.connected j (by simp [haccept, AcceptLoop.handled, Ne.symm hji])]
    refine (State.liveOwner_congr (by rw [howner, if_neg hji]) fun d hd => ?_).symm
    rw [hthreads, Function.update_of_ne (hother j d hji hd)]
  case distinct =>
    intro j k hjk hj hk
    rw [hslots]
    refine hi.distinct j k hjk ?_ ?_
    · simpa [hloop, haccept, AcceptLoop.handled] using hj
    · simpa [hloop, haccept, AcceptLoop.handled] using hk
  case claim =>
    intro j ip' hj
    rw [hslots]
    refine hi.claim j ip' ?_
    simpa [hloop, haccept, AcceptLoop.claim] using hj
  case started_next => exact hnext ▸ hi.started_next

/-- Starting a thread makes it the owner of the slot it was started for. -/
theorem start (hi : Ownership σ) {cs : ConnId} {ip : UInt32} {i : SlotId}
    (haccept : σ.accept = .published cs ip i) :
    Ownership (((σ.setThread cs ⟨i, .serving, false⟩).setSlot i
      { σ.slots i with thread := cs }).goto (.started cs i)) := by
  have hhas := hi.handled i (by simp [haccept, AcceptLoop.handled])
  have hfresh := hi.fresh cs (by simp [haccept, AcceptLoop.fresh])
  have hclaim := hi.claim i ip (by simp [haccept, AcceptLoop.claim])
  have hprepared := hi.prepared
  simp only [State.Prepared, haccept] at hprepared
  have hnone : σ.owner i = none := by simp [State.owner, hhas, haccept, AcceptLoop.keeps]
  generalize hσ' : ((σ.setThread cs ⟨i, .serving, false⟩).setSlot i
    { σ.slots i with thread := cs }).goto (.started cs i) = σ'
  have hslots : σ'.slots = Function.update σ.slots i { σ.slots i with thread := cs } := by
    rw [← hσ']; rfl
  have hloop : σ'.accept = .started cs i := by rw [← hσ']; rfl
  have hthreads : σ'.threads = Function.update σ.threads cs (some ⟨i, .serving, false⟩) := by
    rw [← hσ']; rfl
  have hnext : σ'.next = σ.next := by rw [← hσ']; rfl
  have hsame : ∀ j, (σ'.slots j).hasThread = (σ.slots j).hasThread ∧
      (σ'.slots j).connected = (σ.slots j).connected ∧
      (σ'.slots j).ip_addr = (σ.slots j).ip_addr := by
    intro j
    rw [hslots]
    by_cases hj : j = i
    · subst hj
      simp
    · simp [hj]
  have howner : ∀ j, σ'.owner j = if j = i then some cs else σ.owner j := by
    intro j
    unfold State.owner
    by_cases hj : j = i
    · subst hj
      simp [hsame, hhas, hloop, AcceptLoop.keeps]
    · simp [hslots, hj, hloop, haccept, AcceptLoop.keeps]
  have hother : ∀ j d, σ.owner j = some d → d ≠ cs := by
    rintro j d hd rfl
    rcases hi.owned j d hd with ⟨u, hu, _⟩
    simp [hfresh] at hu
  constructor
  case owned =>
    intro j d hd
    rw [howner] at hd
    split at hd
    case isTrue hj =>
      cases hd
      exact ⟨_, by rw [hthreads, Function.update_self], hj.symm, rfl⟩
    case isFalse =>
      rw [hthreads, Function.update_of_ne (hother j d hd)]
      exact hi.owned j d hd
  case unjoined =>
    intro d u hu huj
    rcases update_eq_some_iff.mp (hthreads ▸ hu) with ⟨rfl, rfl⟩ | ⟨_, hold⟩
    · rw [howner, if_pos rfl]
    · have hrec := hi.unjoined d u hold huj
      have hj : u.slot ≠ i := by
        intro hj
        simp [hj, hnone] at hrec
      rw [howner, if_neg hj]
      exact hrec
  case joined =>
    intro d u
    exact hi.joined_update hthreads (by simp)
  case known =>
    intro d u
    exact hi.known_update hthreads hnext hfresh.2
  case handled => simp [hloop, AcceptLoop.handled]
  case started =>
    intro d j h
    cases hloop.symm.trans h
    rw [hslots, Function.update_self]
    exact ⟨rfl, hhas⟩
  case fresh => simp [hloop, AcceptLoop.fresh]
  case prepared => simp [State.Prepared, hloop]
  case connected =>
    intro j _
    rw [(hsame j).2.1]
    by_cases hj : j = i
    · subst hj
      rw [State.liveOwner_iff ((howner j).trans (if_pos rfl))
        (by rw [hthreads, Function.update_self]), hprepared.1]
      simp [ThreadPc.live]
    · rw [hi.connected j (by simp [haccept, AcceptLoop.handled, Ne.symm hj])]
      refine (State.liveOwner_congr (by rw [howner, if_neg hj]) fun d hd => ?_).symm
      rw [hthreads, Function.update_of_ne (hother j d hd)]
  case distinct =>
    intro j k hjk _ _ hj hk
    rw [(hsame j).2.1] at hj
    rw [(hsame k).2.1] at hk
    rw [(hsame j).2.2, (hsame k).2.2]
    by_cases hji : j = i
    · subst hji
      rw [hprepared.2.2]
      exact (hclaim k (Ne.symm hjk) hk).symm
    · by_cases hki : k = i
      · subst hki
        rw [hprepared.2.2]
        exact hclaim j hji hj
      · refine hi.distinct j k hjk ?_ ?_ hj hk
        · simp [haccept, AcceptLoop.handled, Ne.symm hji]
        · simp [haccept, AcceptLoop.handled, Ne.symm hki]
  case claim => simp [hloop, AcceptLoop.claim]
  case started_next => exact hnext ▸ hi.started_next

/-! ## Every step -/

attribute [local simp] State.goto State.setSlot State.setThread State.closeSocket State.Prepared
  AcceptLoop.handled AcceptLoop.fresh AcceptLoop.claim AcceptLoop.keeps

/-- Reserving a slot moves the record of its thread to the accept loop. -/
theorem reserve (hi : Ownership σ) {cs : ConnId} {ip : UInt32} (i : SlotId)
    (oldS s : Option ConnId) (haccept : σ.accept = .accepted cs ip)
    (hclaim : ∀ j, j ≠ i → (σ.slots j).connected = true → (σ.slots j).ip_addr ≠ ip) :
    Ownership (σ.reserve cs ip i oldS s) := by
  have hfresh := hi.fresh cs (by simp [haccept])
  unfold State.reserve
  refine hi.keep rfl le_rfl ?howner ?hslots ?hhandled ?hstarted ?hfresh ?hprepared ?hclaim
  case howner =>
    intro j
    unfold State.owner
    by_cases hj : j = i
    · subst hj
      simp [haccept]
    · simp [hj, haccept]
  case hslots =>
    intro j hj
    have hji : j ≠ i := by
      rintro rfl
      simp at hj
    left
    simp [haccept, hji]
  case hhandled => simp
  case hstarted => simp
  case hfresh => simpa using hfresh
  case hprepared => simp
  case hclaim =>
    intro j ip' hj k hk
    simp only [State.goto, AcceptLoop.claim, Option.some.injEq, Prod.mk.injEq] at hj
    rcases hj with ⟨rfl, rfl⟩
    simpa [hk] using hclaim k hk

/-- The critical section keeps the invariant: the address it goes on with is
that of no other connected slot. -/
theorem select (hi : Ownership σ) (w : Whitelist) {cs : ConnId} {ip : UInt32}
    (haccept : σ.accept = .accepted cs ip) : Ownership (σ.select w cs ip) := by
  have hfresh := hi.fresh cs (by simp [haccept])
  have hclosing : Ownership (σ.goto (.closing cs)) := by
    refine hi.keep_idle (by simp [haccept]) rfl le_rfl rfl ?_ rfl (by simp) ?_ rfl
    · rw [haccept]
      rfl
    · simpa using hfresh
  unfold State.select
  split
  case h_1 i hfound =>
    have hi' := State.findSlot_eq_some hfound
    simp only [Bool.and_eq_true, beq_iff_eq] at hi'
    refine hi.reserve i _ _ haccept fun j hj hconn => ?_
    rw [← hi'.2]
    exact hi.distinct j i hj (by simp [haccept]) (by simp [haccept]) hconn hi'.1
  case h_2 hnone =>
    have hother : ∀ j, (σ.slots j).connected = true → (σ.slots j).ip_addr ≠ ip := by
      intro j hconn
      have hj := State.findSlot_eq_none hnone j
      simpa [hconn] using hj
    split
    case isTrue =>
      split
      case h_1 i _ => exact hi.reserve i _ _ haccept fun j _ => hother j
      case h_2 => exact hclosing
    case isFalse => exact hclosing

/-- Every step of the accept loop keeps the invariant. -/
theorem acceptStep (hi : Ownership σ) {w : Whitelist} {ok : Bool}
    (h : σ.acceptStep w ok = some σ') : Ownership σ' := by
  unfold State.acceptStep at h
  split at h
  case h_1 => cases h
  case h_2 cs ip haccept =>
    cases h
    exact hi.select w haccept
  case h_3 cs ip i oldS joinOld c haccept =>
    cases h
    exact hi.keep_handled (by simp [haccept]) rfl rfl (by simp)
      (hi.handled i (by simp [haccept])) (by funext; simp [haccept]) (by simp) (by simp)
      (by simp [haccept]) (by simp) (by simp [haccept])
  case h_4 cs ip i joinOld c haccept =>
    cases hj : joinOld with
    | false =>
        rw [hj] at h haccept
        cases h
        exact hi.keep_handled (by simp [haccept]) rfl rfl (by simp)
          (hi.handled i (by simp [haccept])) (by funext; simp [haccept]) (by simp) (by simp)
          (by simp [haccept]) (by simp) (by simp [haccept])
    | true =>
        rw [hj] at h haccept
        simp only [↓reduceIte, State.joinThread] at h
        split at h
        case h_1 t ht =>
          split at h
          case isTrue hpc =>
            cases h
            exact hi.join haccept ht hpc
          case isFalse => cases h
        case h_2 => cases h
  case h_5 cs ip i haccept =>
    cases h
    unfold State.initializeClient
    refine hi.keep_setSlot (by simp [haccept]) rfl ?_ ?_ ?_ ?_ ?_ ?_
    · funext j
      cases ok <;> simp [haccept]
    all_goals cases ok <;> simp [haccept]
  case h_6 cs ip i haccept =>
    cases h
    have hprepared := hi.prepared
    simp only [State.Prepared, haccept] at hprepared
    exact hi.keep_setSlot (by simp [haccept]) (hi.handled i (by simp [haccept]))
      (by funext; simp [haccept]) (by simp) (by simp) (by simp [haccept])
      (by simp [hprepared]) (by simp [haccept])
  case h_7 cs ip i haccept =>
    split at h
    case isTrue =>
      cases h
      exact hi.start haccept
    case isFalse =>
      cases h
      have hprepared := hi.prepared
      simp only [State.Prepared, haccept] at hprepared
      exact hi.keep_handled (by simp [haccept]) rfl rfl (by simp)
        (hi.handled i (by simp [haccept])) (by funext; simp [haccept]) (by simp) (by simp)
        (by simp [haccept]) (by simp [hprepared]) (by simp)
  case h_8 cs i haccept =>
    cases h
    have hstarted := hi.started cs i haccept
    refine hi.keep rfl le_rfl ?_ ?_ (by simp) (by simp) (by simp) (by simp) (by simp)
    · intro j
      unfold State.owner
      by_cases hj : j = i
      · subst hj
        simp [haccept, hstarted]
      · simp [hj, haccept]
    · intro j _
      left
      by_cases hj : j = i
      · subst hj
        simp [haccept]
      · simp [hj, haccept]
  case h_9 cs i haccept =>
    cases h
    exact hi.keep_setSlot (by simp [haccept]) (hi.handled i (by simp [haccept]))
      (by funext; simp [haccept]) (by simp [haccept]) (by simp) (by simp [haccept])
      (by simp) (by simp)
  case h_10 cs i haccept =>
    cases h
    have hprepared := hi.prepared
    simp only [State.Prepared, haccept] at hprepared
    exact hi.keep_setSlot (by simp [haccept]) (hi.handled i (by simp [haccept]))
      (by funext; simp [haccept]) (by simp) (by simp) (by simp [haccept, hprepared])
      (by simp) (by simp)
  case h_11 i s haccept =>
    cases h
    exact hi.keep_handled (by simp [haccept]) rfl rfl (by simp)
      (hi.handled i (by simp [haccept])) (by funext; simp [haccept]) (by simp) (by simp)
      (by simp) (by simp) (by simp)
  case h_12 i haccept =>
    cases h
    exact hi.keep_setSlot (by simp [haccept]) (hi.handled i (by simp [haccept]))
      (by funext; simp [haccept]) (by simp) (by simp) (by simp) (by simp) (by simp)
  case h_13 i haccept =>
    cases h
    exact hi.keep_setSlot (by simp [haccept]) (hi.handled i (by simp [haccept]))
      (by funext; simp [haccept]) (by simp [haccept]) (by simp) (by simp) (by simp) (by simp)
  case h_14 cs haccept =>
    cases h
    refine hi.keep_idle (by simp [haccept]) rfl le_rfl rfl ?_ rfl (by simp) (by simp) rfl
    rw [haccept]
    rfl

/-- Every step of a client thread keeps the invariant. -/
theorem threadStep (hi : Ownership σ) {c : ConnId} (h : σ.threadStep c = some σ') :
    Ownership σ' := by
  unfold State.threadStep at h
  split at h
  case h_1 => cases h
  case h_2 t ht =>
    have hrecord : ∀ (slot : Slot), slot.hasThread = (σ.slots t.slot).hasThread →
        slot.thread = (σ.slots t.slot).thread → slot.ip_addr = (σ.slots t.slot).ip_addr →
        ∀ j, (Function.update σ.slots t.slot slot j).hasThread = (σ.slots j).hasThread ∧
          (Function.update σ.slots t.slot slot j).thread = (σ.slots j).thread ∧
          (Function.update σ.slots t.slot slot j).ip_addr = (σ.slots j).ip_addr := by
      intro slot hhas hthread hip j
      by_cases hj : j = t.slot
      · subst hj
        simp [hhas, hthread, hip]
      · simp [hj]
    simp only at h
    split at h
    case h_1 hpc =>
      cases h
      exact hi.advance ht (by simp [hpc]) rfl rfl rfl (hrecord _ rfl rfl rfl)
        (by simp +contextual) (Or.inl (by simp [hpc, ThreadPc.live]))
    case h_2 s hpc =>
      cases h
      exact hi.advance ht (by simp [hpc]) rfl rfl rfl (by simp) (by simp)
        (Or.inl (by simp [hpc, ThreadPc.live]))
    case h_3 hpc =>
      cases h
      exact hi.advance ht (by simp [hpc]) rfl rfl rfl (hrecord _ rfl rfl rfl)
        (by simp +contextual) (Or.inl (by simp [hpc, ThreadPc.live]))
    case h_4 hpc =>
      cases h
      exact hi.advance ht (by simp [hpc]) rfl rfl rfl (hrecord _ rfl rfl rfl)
        (by simp +contextual) (Or.inr (by simp [ThreadPc.live]))
    case h_5 hpc =>
      cases h
      exact hi.advance ht (by simp [hpc]) rfl rfl rfl (by simp) (by simp)
        (Or.inl (by simp [hpc, ThreadPc.live]))
    case h_6 => cases h

/-- Every step of the server keeps the invariant. -/
theorem step (hi : Ownership σ) {w : Whitelist} {a : Action} (h : σ.step w a = some σ') :
    Ownership σ' := by
  cases a with
  | arrive ip =>
      simp only [State.step] at h
      split at h
      case h_1 haccept =>
        cases h
        have hnew : σ.threads σ.next = none := by
          cases ht : σ.threads σ.next with
          | none => rfl
          | some t => exact absurd (hi.known _ t ht).2 (Nat.lt_irrefl _)
        refine hi.keep_idle (by simp [haccept]) rfl (Nat.le_succ _) rfl ?_ rfl (by simp) ?_ rfl
        · rw [haccept]
          rfl
        · simpa [hnew] using hi.started_next
      case h_2 => cases h
  | accept ok => exact hi.acceptStep h
  | serve c =>
      simp only [State.step, State.serveStep] at h
      split at h
      case h_1 =>
        split at h
        case isTrue =>
          cases h
          exact hi
        case isFalse => cases h
      case h_2 => cases h
  | finish c => exact hi.threadStep h

end Ownership
end Ps3Netsrv.Clients
