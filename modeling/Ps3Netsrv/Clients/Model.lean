import Ps3Netsrv.Lib.Transition
import Mathlib.Data.UInt
import Mathlib.Logic.Function.Basic
import Mathlib.Data.List.FinRange

/-!
# The accept loop and the client threads

The server keeps a fixed array of client slots.  One accept loop hands a slot to
every connection it takes, and one thread per connection serves it and then
tears it down.  The two sides share the slots: {lit}`connected` and {lit}`s` are
written by both under a mutex, {lit}`thread` and {lit}`has_thread` by the accept
loop alone, and everything else by whoever owns the slot.

The model is the interleaving of those two kinds of process.  A step is one
critical section, or one statement whose order against the other side matters:
the accept loop of {lit}`main` is the type {lit}`AcceptLoop`, a client thread
inside {lit}`client_thread` and {lit}`finalize_client` the type
{lit}`ThreadPc`.  Every connection is named by its own number, which also names
its thread, so that a descriptor the host hands out a second time is never
mistaken for the first one.

Main results:

- Definition {lit}`State.step`: one step of one of the processes.
- Theorem {lit}`State.findSlot_eq_some` and {lit}`State.findSlot_eq_none`: what
  the two searches through the slots find.
-/

namespace Ps3Netsrv.Clients

/-! ## Slots and threads -/

/-- {lit}`MAX_CLIENTS`. -/
def maxClients : Nat := 5

/-- The index of a slot in {lit}`clients`. -/
abbrev SlotId := Fin maxClients

/-- The name of an accepted connection, of its socket and of its thread.  The
number 0 names no connection: it is the descriptor that {lit}`memset` leaves in
a slot that has never been used. -/
abbrev ConnId := Nat

/-- The fields of {lit}`client_t` that decide who owns a slot.  A missing
{lit}`s` is {lit}`NO_SOCKET`. -/
structure Slot where
  s : Option ConnId
  buf : Bool
  connected : Bool
  ip_addr : UInt32
  thread : ConnId
  hasThread : Bool
deriving Repr, DecidableEq

/-- What {lit}`memset(client, 0, sizeof(client_t))` leaves: descriptor 0 and
everything else empty. -/
def Slot.zeroed : Slot where
  s := some 0
  buf := false
  connected := false
  ip_addr := 0
  thread := 0
  hasThread := false

/-- Where a client thread stands. -/
inductive ThreadPc where
  /-- In the command loop of {lit}`client_thread`. -/
  | serving
  /-- In {lit}`finalize_client`, with the socket taken from the slot. -/
  | took (s : Option ConnId)
  /-- After {lit}`closesocket`. -/
  | closed
  /-- After the buffers and files are freed. -/
  | freed
  /-- After the slot's {lit}`connected` is cleared. -/
  | released
  /-- Returned from {lit}`client_thread`. -/
  | exited
deriving Repr, DecidableEq

/-- A thread is live as long as it may still touch its slot. -/
def ThreadPc.live : ThreadPc → Bool
  | .released | .exited => false
  | _ => true

/-- A started client thread: the slot it was handed, where it stands and
whether the accept loop has joined it. -/
structure Thread where
  slot : SlotId
  pc : ThreadPc
  joined : Bool
deriving Repr, DecidableEq

/-! ## The accept loop -/

/-- Where the accept loop of {lit}`main` stands, with the locals that are still
in use there: the new socket {lit}`cs`, its address, the chosen slot
{lit}`i`, the reclaimed socket {lit}`oldS` and the thread to join. -/
inductive AcceptLoop where
  /-- In {lit}`accept`. -/
  | waiting
  /-- A connection has been accepted; the mutex is taken next. -/
  | accepted (cs : ConnId) (ip : UInt32)
  /-- A slot has been picked and reserved under the mutex. -/
  | reserved (cs : ConnId) (ip : UInt32) (i : SlotId) (oldS : Option ConnId)
      (joinOld : Bool) (oldThread : ConnId)
  /-- The reclaimed socket has been closed. -/
  | reclaimed (cs : ConnId) (ip : UInt32) (i : SlotId) (joinOld : Bool)
      (oldThread : ConnId)
  /-- The previous owner's thread has been joined. -/
  | joined (cs : ConnId) (ip : UInt32) (i : SlotId)
  /-- {lit}`initialize_client` has succeeded. -/
  | initialized (cs : ConnId) (ip : UInt32) (i : SlotId)
  /-- The socket and the address are in the slot. -/
  | published (cs : ConnId) (ip : UInt32) (i : SlotId)
  /-- The thread runs; {lit}`has_thread` is set next. -/
  | started (cs : ConnId) (i : SlotId)
  /-- {lit}`initialize_client` has failed. -/
  | failedInit (cs : ConnId) (i : SlotId)
  /-- The thread could not be created; {lit}`finalize_client` runs here. -/
  | failedStart (cs : ConnId) (i : SlotId)
  /-- In that {lit}`finalize_client`, with the socket taken from the slot. -/
  | tookBack (i : SlotId) (s : Option ConnId)
  /-- In that {lit}`finalize_client`, after {lit}`closesocket`. -/
  | closedBack (i : SlotId)
  /-- After that {lit}`finalize_client`; the slot is released next. -/
  | freedBack (i : SlotId)
  /-- The new socket is closed next, and the loop goes on. -/
  | closing (cs : ConnId)
deriving Repr, DecidableEq

/-- The whole server: the slots, the threads that were ever started, the accept
loop, the number of times each socket was closed and the next connection. -/
structure State where
  slots : SlotId → Slot
  threads : ConnId → Option Thread
  accept : AcceptLoop
  closes : ConnId → Nat
  next : ConnId

/-- The server when it starts to wait for clients. -/
def State.init : State where
  slots := fun _ => Slot.zeroed
  threads := fun _ => none
  accept := .waiting
  closes := fun _ => 0
  next := 1

/-! ## The pieces of a step -/

/-- {lit}`BE32` on a little-endian host. -/
def be32 (x : UInt32) : UInt32 :=
  (x <<< 24) ||| ((x <<< 8) &&& (0x00ff0000 : UInt32)) |||
    ((x >>> 8) &&& (0x0000ff00 : UInt32)) ||| (x >>> 24)

/-- The whitelist of the command line; it is off when it starts at 0. -/
structure Whitelist where
  whitelist_start : UInt32
  whitelist_end : UInt32

/-- Whether a new connection passes the whitelist. -/
def Whitelist.allows (w : Whitelist) (ip : UInt32) : Bool :=
  w.whitelist_start == 0 ||
    !(decide (be32 ip < w.whitelist_start) || decide (w.whitelist_end < be32 ip))

namespace State

/-- Rewrite one slot. -/
def setSlot (σ : State) (i : SlotId) (slot : Slot) : State :=
  { σ with slots := Function.update σ.slots i slot }

/-- Rewrite one thread. -/
def setThread (σ : State) (c : ConnId) (t : Thread) : State :=
  { σ with threads := Function.update σ.threads c (some t) }

/-- Move the accept loop. -/
def goto (σ : State) (a : AcceptLoop) : State :=
  { σ with accept := a }

/-- {lit}`shutdown` and {lit}`closesocket`, when {lit}`SOCKET_OK`. -/
def closeSocket (σ : State) (s : Option ConnId) : State :=
  { σ with closes := fun c => if s = some c then σ.closes c + 1 else σ.closes c }

/-- The first slot with a property, as the two loops of the critical section
search for it. -/
def findSlot (σ : State) (p : Slot → Bool) : Option SlotId :=
  (List.finRange maxClients).find? fun i => p (σ.slots i)

/-- Reserve a slot: it is marked connected, and the thread that is recorded in
it becomes the accept loop's to join.  The socket it is left with is
{lit}`s`. -/
def reserve (σ : State) (cs : ConnId) (ip : UInt32) (i : SlotId)
    (oldS s : Option ConnId) : State :=
  let slot := σ.slots i
  (σ.setSlot i { slot with s := s, connected := true, hasThread := false }).goto
    (.reserved cs ip i oldS slot.hasThread slot.thread)

/-- The critical section of the accept loop: the slot of the same address, else
a free one, else the connection is turned away. -/
def select (w : Whitelist) (σ : State) (cs : ConnId) (ip : UInt32) : State :=
  match σ.findSlot fun slot => slot.connected && slot.ip_addr == ip with
  | some i => σ.reserve cs ip i (σ.slots i).s none
  | none =>
      if w.allows ip then
        match σ.findSlot fun slot => !slot.connected with
        | some i => σ.reserve cs ip i none (σ.slots i).s
        | none => σ.goto (.closing cs)
      else σ.goto (.closing cs)

/-- {lit}`initialize_client`, whose allocation succeeds when {lit}`ok`. -/
def initializeClient (σ : State) (i : SlotId) (ok : Bool) : State :=
  σ.setSlot i { Slot.zeroed with s := none, buf := ok, connected := ok }

/-- {lit}`join_thread`: it returns once the thread has exited. -/
def joinThread (σ : State) (c : ConnId) : Option State :=
  match σ.threads c with
  | some t => if t.pc = .exited then some (σ.setThread c { t with joined := true }) else none
  | none => none

/-! ## Steps -/

/-- One step of the accept loop after {lit}`accept`.  The flag says whether the
call of this step that can fail (the allocation of {lit}`initialize_client`, the
creation of the thread) succeeds. -/
def acceptStep (w : Whitelist) (σ : State) (ok : Bool) : Option State :=
  match σ.accept with
  | .waiting => none
  | .accepted cs ip => some (σ.select w cs ip)
  | .reserved cs ip i oldS joinOld oldThread =>
      some ((σ.closeSocket oldS).goto (.reclaimed cs ip i joinOld oldThread))
  | .reclaimed cs ip i joinOld oldThread =>
      if joinOld then (σ.joinThread oldThread).map (·.goto (.joined cs ip i))
      else some (σ.goto (.joined cs ip i))
  | .joined cs ip i =>
      some ((σ.initializeClient i ok).goto
        (if ok then .initialized cs ip i else .failedInit cs i))
  | .initialized cs ip i =>
      some ((σ.setSlot i { σ.slots i with s := some cs, ip_addr := ip }).goto
        (.published cs ip i))
  | .published cs _ i =>
      if ok then
        some (((σ.setThread cs ⟨i, .serving, false⟩).setSlot i
          { σ.slots i with thread := cs }).goto (.started cs i))
      else some (σ.goto (.failedStart cs i))
  | .started _ i =>
      some ((σ.setSlot i { σ.slots i with hasThread := true }).goto .waiting)
  | .failedInit cs i =>
      some ((σ.setSlot i { σ.slots i with connected := false }).goto (.closing cs))
  | .failedStart _ i =>
      some ((σ.setSlot i { σ.slots i with s := none }).goto (.tookBack i (σ.slots i).s))
  | .tookBack i s => some ((σ.closeSocket s).goto (.closedBack i))
  | .closedBack i =>
      some ((σ.setSlot i { σ.slots i with buf := false }).goto (.freedBack i))
  | .freedBack i =>
      some ((σ.setSlot i { σ.slots i with connected := false }).goto .waiting)
  | .closing cs => some ((σ.closeSocket (some cs)).goto .waiting)

/-- One step of the teardown of a client thread: out of the command loop, then
through {lit}`finalize_client` and the release of the slot. -/
def threadStep (σ : State) (c : ConnId) : Option State :=
  match σ.threads c with
  | none => none
  | some t =>
      let slot := σ.slots t.slot
      match t.pc with
      | .serving =>
          some ((σ.setThread c { t with pc := .took slot.s }).setSlot t.slot
            { slot with s := none })
      | .took s => some ((σ.closeSocket s).setThread c { t with pc := .closed })
      | .closed =>
          some ((σ.setThread c { t with pc := .freed }).setSlot t.slot
            { slot with buf := false })
      | .freed =>
          some ((σ.setThread c { t with pc := .released }).setSlot t.slot
            { slot with connected := false })
      | .released => some (σ.setThread c { t with pc := .exited })
      | .exited => none

/-- A client thread stays in its command loop; the slot's ownership fields are
only read there. -/
def serveStep (σ : State) (c : ConnId) : Option State :=
  match σ.threads c with
  | some t => if t.pc = .serving then some σ else none
  | none => none

end State

/-- What can happen next: a connection arrives, the accept loop takes a step, or
a client thread serves a command or takes a step of its teardown. -/
inductive Action where
  | arrive (ip : UInt32)
  | accept (ok : Bool)
  | serve (c : ConnId)
  | finish (c : ConnId)
deriving Repr, DecidableEq

/-- One step of the server.  An arriving connection is only taken when the loop
is in {lit}`accept`. -/
def State.step (w : Whitelist) (σ : State) : Action → Option State
  | .arrive ip =>
      match σ.accept with
      | .waiting => some { σ with accept := .accepted σ.next ip, next := σ.next + 1 }
      | _ => none
  | .accept ok => σ.acceptStep w ok
  | .serve c => σ.serveStep c
  | .finish c => σ.threadStep c

/-! ## The searches of the critical section -/

/-- The slot a search returns has the property. -/
theorem State.findSlot_eq_some {σ : State} {p : Slot → Bool} {i : SlotId}
    (h : σ.findSlot p = some i) : p (σ.slots i) = true := by
  unfold findSlot at h
  exact @List.find?_some _ (fun i => p (σ.slots i)) _ _ h

/-- A search that returns nothing has seen every slot. -/
theorem State.findSlot_eq_none {σ : State} {p : Slot → Bool}
    (h : σ.findSlot p = none) (i : SlotId) : p (σ.slots i) = false := by
  have hnone := List.find?_eq_none.mp h i (List.mem_finRange i)
  simpa using hnone

end Ps3Netsrv.Clients
