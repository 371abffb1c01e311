/-
# `Jar.Com.Datagrams` — requests and replies between datagram sockets

A socket that wants answers binds itself to a path.  Whoever receives a datagram of it
finds the path in the address given to `receive_from`, and replies by passing that address
to `send_to`:

    q ──bind "/q"──▸ ──send_to──▸ queue of p ──receive_from──▸ address "/q"
    queue of q ◂─────────────── send_to(address) ◂──────────────┘

Here all of these run together: any number of sockets, addresses that are written over
and used again, calls of `bind` that have unlinked a path and not bound it yet.  The
kernel is that of `Jar.Com.Bind` with a queue for every socket.

`reply_reaches` says that the reply goes to the sender, as long as no path is given to
`bind` a second time.  A second call for the path takes it away, even one that then fails.
-/
import Jar.Com.Bind
import Jar.Com.DatagramSocket
import Jar.Lib.Machine

namespace Jar.Com

open Jar.Lib Jar.System

namespace Datagrams

open DatagramSocket (Datagram Sender sendRequest receiveFrom)

/-! ## The two halves of `bind`

`unlink` and the system's `bind` are two system calls, and anything may come between
them.  The first removes one entry at most, the second changes nothing or binds a
socket that was not bound. -/

section Halves

variable {H Entry : Type} [DecidableEq H] (k : Kernel H Entry)

/-- `bind` up to the system's `bind`. -/
def unlinkFirst (message : String) (address : Address) (w : World H Entry) :
    Except Error Unit × World H Entry :=
  match Contract.notZero address.length message with
  | .error e => (.error e, w)
  | .ok () => unlink k address.toStringView w

theorem bindTo_eq (message : String) (handle : H) (address : Address) (w : World H Entry) :
    bindTo k message handle address w =
      match unlinkFirst k message address w with
      | (.error e, w) => (.error e, w)
      | (.ok (), w) => Socket.bind k handle address w := by
  unfold bindTo unlinkFirst
  cases Contract.notZero address.length message with
  | error e => rfl
  | ok _ => rfl

variable {k} {message : String} {handle : H} {address : Address} {w : World H Entry}

omit [DecidableEq H] in
theorem unlinkFirst_world (k : Kernel H Entry) (message : String) (address : Address)
    (w : World H Entry) : (unlinkFirst k message address w).2 = w ∨
    address.length ≠ 0 ∧
      (unlinkFirst k message address w).2 = w.remove address.toStringView := by
  unfold unlinkFirst
  rcases eq_or_ne address.length 0 with hzero | hlength
  · unfold Contract.notZero
    rw [if_pos hzero]
    exact Or.inl rfl
  · have hpath : Contract.notZero address.toStringView.length "address cannot be empty" = .ok () :=
      Contract.notZero_of_ne hlength _
    rw [Contract.notZero_of_ne hlength]
    dsimp only
    unfold unlink Kernel.unlink
    rw [hpath]
    dsimp only
    split
    · exact Or.inl rfl
    · exact Or.inl rfl
    · exact Or.inr ⟨hlength, rfl⟩

omit [DecidableEq H] in
theorem unlinkFirst_ok (h : (unlinkFirst k message address w).1 = .ok ()) : address.length ≠ 0 := by
  intro hlength
  unfold unlinkFirst Contract.notZero at h
  rw [if_pos hlength] at h
  cases h

theorem bind_world (k : Kernel H Entry) (handle : H) (address : Address) (w : World H Entry) :
    (Socket.bind k handle address w).2 = w ∨
    w.socket handle = some none ∧ (Socket.bind k handle address w).2 = {
      entries := Function.update w.entries address.toStringView (some (k.socketFile handle))
      socket := Function.update w.socket handle (some (some address.toStringView)) } := by
  unfold Socket.bind Kernel.bind
  dsimp only
  split
  · exact Or.inl rfl
  · exact Or.inl rfl
  · exact Or.inl rfl
  · exact Or.inl rfl
  · next hsocket _ _ => exact Or.inr ⟨hsocket, rfl⟩

end Halves

/-! ## Sockets that talk

A socket is a queue of datagrams with, perhaps, a path; addresses are objects of the
program, written by `receive_from` and used by `send_to`. -/

/-- The file system and the sockets, what has been sent to them and by whom, the address
objects of the program, the calls of `bind` that have come halfway, and the paths that
somebody has bound a socket to, or tried, or put a file at. -/
structure State (ι α H Entry : Type) where
  world : World H Entry
  queue : H → List (H × Datagram)
  address : α → Address
  binding : ι → Option (H × Address)
  named : List (List UInt8)

/-- `failed` is the `errno` of a system call that fails for a reason of its own; in `others`
some other process writes or removes a file. -/
inductive Event (ι α H Entry : Type) where
  | assign (a : α) (value : Address)
  | startBind (t : ι) (h : H) (a : α)
  | finishBind (t : ι)
  | send (h : H) (a : α) (buffer : Option (List UInt8)) (length : ℕ) (failed : Option Errno)
  | receive (h : H) (a : α) (buffer : Option (List UInt8)) (length : ℕ) (failed : Option Errno)
  | close (h : H)
  | others (path : List UInt8) (entry : Option Entry)

variable {ι α H Entry : Type}

/-- What the kernel says of the sender of a datagram. -/
def senderOf (w : World H Entry) (h : H) : Sender :=
  match w.socket h with
  | some (some bytes) =>
      if hpath : bytes ≠ [] ∧ (0 : UInt8) ∉ bytes ∧ bytes.length ≤ IpcAddress.maxLength then
        .bound ⟨bytes, hpath.1, hpath.2.1, hpath.2.2⟩
      else .unbound true
  | _ => .unbound true

variable [DecidableEq ι] [DecidableEq α] [DecidableEq H]

section Machine

variable (k : Kernel H Entry) (whose : Entry → Option H)

/-- The open socket that a path leads to. -/
def leadsTo (w : World H Entry) (path : List UInt8) : Option H :=
  match (w.entries path).bind whose with
  | some q => if w.socket q = none then none else some q
  | none => none

/-- The kernel puts a datagram into the queue of a socket. -/
def State.deliver (s : State ι α H Entry) (q h : H) (payload : List UInt8) : State ι α H Entry :=
  { s with
    queue := Function.update s.queue q (s.queue q ++ [(h, ⟨payload, senderOf s.world h⟩)]) }

/-- `sendto`. -/
def sendto (s : State ι α H Entry) (h : H) (destination payload : List UInt8)
    (failed : Option Errno) : Except Errno ℕ × State ι α H Entry :=
  match s.world.socket h, failed, leadsTo whose s.world destination with
  | none, _, _ => (.error .ebadf, s)
  | some _, some code, _ => (.error code, s)
  | some _, none, none =>
      -- Nothing is at the path, or what is there leads to no socket (`ECONNREFUSED`).
      (.error (if (s.world.entries destination).isNone then .enoent else .other 111), s)
  | some _, none, some q => (.ok payload.length, s.deliver q h payload)

/-- `datagram_socket::send_to`. -/
def sendTo (s : State ι α H Entry) (h : H) (a : α) (buffer : Option (List UInt8)) (length : ℕ)
    (failed : Option Errno) : Except Error ℕ × State ι α H Entry :=
  match sendRequest (s.address a) buffer length with
  | .error e => (.error e, s)
  | .ok (destination, payload) =>
      let sent := sendto whose s h destination payload failed
      (Contract.noSystemError sent.1, sent.2)

/-- What `recvfrom` answers; without a datagram that is `EAGAIN`, if it does not wait. -/
def answer (s : State ι α H Entry) (h : H) : Option Errno → Except Errno Datagram
  | some code => .error code
  | none =>
      match s.queue h with
      | [] => .error (.other 11)
      | (_, d) :: _ => .ok d

/-- `datagram_socket::receive_from`.  A datagram that was received is gone. -/
def receive (s : State ι α H Entry) (h : H) (a : α) (buffer : Option (List UInt8)) (length : ℕ)
    (failed : Option Errno) : Except Error ℕ × State ι α H Entry :=
  let received := receiveFrom (answer s h failed) (s.address a) buffer length
  (received.1, { s with
    address := Function.update s.address a received.2.2
    queue := match received.1 with
      | .ok _ => Function.update s.queue h (s.queue h).tail
      | .error _ => s.queue })

/-- A thread is in one call of `bind` at a time; a call of `receive_from` waits for a
datagram; sockets are used while they are open. -/
def enabled (s : State ι α H Entry) : Event ι α H Entry → Prop
  | .assign _ _ => True
  | .startBind t _ _ => s.binding t = none
  | .finishBind t => s.binding t ≠ none
  | .send h _ _ _ _ => s.world.socket h ≠ none
  | .receive h _ _ _ failed => s.world.socket h ≠ none ∧ (failed = none → s.queue h ≠ [])
  | .close h => s.world.socket h ≠ none
  | .others _ entry => entry.bind whose = none

def next (s : State ι α H Entry) : Event ι α H Entry → State ι α H Entry
  | .assign a value => { s with address := Function.update s.address a value }
  | .startBind t h a =>
      let unlinked := unlinkFirst k "local_address cannot be empty" (s.address a) s.world
      { s with
        world := unlinked.2
        named := s.named ++ [(s.address a).toStringView]
        binding := match unlinked.1 with
          | .ok () => Function.update s.binding t (some (h, s.address a))
          | .error _ => s.binding }
  | .finishBind t =>
      match s.binding t with
      | some (h, address) => { s with
          world := (Socket.bind k h address s.world).2
          binding := Function.update s.binding t none }
      | none => s
  | .send h a buffer length failed => (sendTo whose s h a buffer length failed).2
  | .receive h a buffer length failed => (receive s h a buffer length failed).2
  | .close h => { s with
      world := { s.world with socket := Function.update s.world.socket h none } }
  | .others path entry => { s with
      world := { s.world with entries := Function.update s.world.entries path entry }
      named := s.named ++ [path] }

/-- No socket is bound, and no entry leads to one. -/
structure Begins (s : State ι α H Entry) : Prop where
  unbound : ∀ h path, s.world.socket h ≠ some (some path)
  queue : ∀ h, s.queue h = []
  binding : ∀ t, s.binding t = none
  named : s.named = []

variable (ι α) in
def machine : Machine (State ι α H Entry) (Event ι α H Entry) where
  Init := Begins
  Enabled := enabled whose
  next := next k whose

end Machine

section Replies

variable {k : Kernel H Entry} {whose : Entry → Option H} {s s' : State ι α H Entry}
variable {e : Event ι α H Entry} {p q : H} {path : List UInt8}

omit [DecidableEq ι] [DecidableEq α] in
theorem sendTo_result (s : State ι α H Entry) (h : H) (a : α) (buffer : Option (List UInt8))
    (length : ℕ) (failed : Option Errno) :
    (sendTo whose s h a buffer length failed).1 = DatagramSocket.sendTo
      (fun destination payload => (sendto whose s h destination payload failed).1)
      (s.address a) buffer length := by
  unfold sendTo DatagramSocket.sendTo
  cases sendRequest (s.address a) buffer length with
  | error e => rfl
  | ok request => rfl

/-- A call of `bind` that nothing comes between. -/
theorem bind_at_once {t : ι} (ht : s.binding t = none) (h : H) (a : α) :
    (next k whose (next k whose s (.startBind t h a)) (.finishBind t)).world =
      (DatagramSocket.bind k h (s.address a) s.world).2 := by
  unfold DatagramSocket.bind
  rw [bindTo_eq]
  rcases hunlinked : unlinkFirst k "local_address cannot be empty" (s.address a) s.world with
    ⟨_ | _, w⟩
  · simp only [next, hunlinked, ht]
  · simp only [next, hunlinked, Function.update_self]

/-! ## Paths that are used once

A path that is given to `bind` once only belongs to the socket that was bound to it,
from then on, and nobody else is reported by it. -/

/-- The path has not been used before. -/
def Fresh (s : State ι α H Entry) : Event ι α H Entry → Prop
  | .startBind _ _ a => (s.address a).length ≠ 0 → (s.address a).toStringView ∉ s.named
  | .others path _ => path ∉ s.named
  | _ => True

omit [DecidableEq H] in
theorem senderOf_bound {w : World H Entry} {h : H} {path : Path}
    (hpath : senderOf w h = .bound path) : w.socket h = some (some path.bytes) := by
  unfold senderOf at hpath
  split at hpath
  · next bytes hbytes =>
      split at hpath
      · cases hpath
        exact hbytes
      · cases hpath
  · cases hpath

omit [DecidableEq ι] [DecidableEq α] in
theorem sendTo_state (whose : Entry → Option H) (s : State ι α H Entry) (h : H) (a : α)
    (buffer : Option (List UInt8)) (length : ℕ) (failed : Option Errno) :
    (sendTo whose s h a buffer length failed).2 = s ∨
      ∃ q payload, (sendTo whose s h a buffer length failed).2 = s.deliver q h payload := by
  unfold sendTo
  split
  · exact Or.inl rfl
  · next destination payload _ =>
      dsimp only
      unfold sendto
      split
      · exact Or.inl rfl
      · exact Or.inl rfl
      · exact Or.inl rfl
      · exact Or.inr ⟨_, payload, rfl⟩

theorem startBind_binding {t u : ι} {h g : H} {a : α} {address : Address}
    (hu : (next k whose s (.startBind t h a)).binding u = some (g, address)) :
    u = t ∧ s.address a = address ∧ address.length ≠ 0 ∨ s.binding u = some (g, address) := by
  cases hres : (unlinkFirst k "local_address cannot be empty" (s.address a) s.world).1 with
  | error e =>
      simp only [next, hres] at hu
      exact Or.inr hu
  | ok _ =>
      simp only [next, hres] at hu
      rcases update_eq_some hu with ⟨rfl, heq⟩ | ⟨-, hold⟩
      · cases heq
        exact Or.inl ⟨rfl, rfl, unlinkFirst_ok hres⟩
      · exact Or.inr hold

theorem startBind_socket (t : ι) (h : H) (a : α) :
    (next k whose s (.startBind t h a)).world.socket = s.world.socket := by
  show (unlinkFirst k _ _ _).2.socket = _
  rcases unlinkFirst_world k "local_address cannot be empty" (s.address a) s.world with
    hsame | ⟨-, hremoved⟩
  · rw [hsame]
  · rw [hremoved]
    rfl

/-- The path leads to `q`, now and as long as nobody uses it again: the socket was bound
to it, and may have been closed since. -/
structure Owns (k : Kernel H Entry) (s : State ι α H Entry) (q : H) (path : List UInt8) :
    Prop where
  named : path ∈ s.named
  entry : s.world.entries path = some (k.socketFile q)
  socket : s.world.socket q = some (some path) ∨ s.world.socket q = none
  free : ∀ t h address, s.binding t = some (h, address) → address.toStringView ≠ path

namespace Owns

variable {path : List UInt8}

theorem startBind (ho : Owns k s q path) {t : ι} {h : H} {a : α}
    (hfresh : (s.address a).length ≠ 0 → (s.address a).toStringView ∉ s.named) :
    Owns k (next k whose s (.startBind t h a)) q path where
  named := List.mem_append_left _ ho.named
  entry := by
    show (unlinkFirst k _ _ _).2.entries path = _
    rcases unlinkFirst_world k "local_address cannot be empty" (s.address a) s.world with
      hsame | ⟨hlength, hremoved⟩
    · rw [hsame, ho.entry]
    · have hne : path ≠ (s.address a).toStringView :=
        fun heq => hfresh hlength (heq ▸ ho.named)
      rw [hremoved]
      exact (Function.update_of_ne hne _ _).trans ho.entry
  socket := by
    rw [startBind_socket]
    exact ho.socket
  free u g address hu := by
    rcases startBind_binding hu with ⟨-, rfl, hlength⟩ | hold
    · exact fun heq => hfresh hlength (heq ▸ ho.named)
    · exact ho.free u g address hold

theorem finishBind (ho : Owns k s q path) {t : ι} :
    Owns k (next k whose s (.finishBind t)) q path := by
  cases ht : s.binding t with
  | none =>
      rw [show next k whose s (.finishBind t) = s by simp only [next, ht]]
      exact ho
  | some call =>
      obtain ⟨h, address⟩ := call
      have hnext : next k whose s (.finishBind t) = { s with
          world := (Socket.bind k h address s.world).2
          binding := Function.update s.binding t none } := by
        simp only [next, ht]
      have hfree : ∀ u g address', Function.update s.binding t none u = some (g, address') →
          address'.toStringView ≠ path :=
        fun u g address' hu => ho.free u g address' (some_of_update_none hu).2
      rw [hnext]
      rcases bind_world k h address s.world with hsame | ⟨hunbound, hbound⟩
      · rw [hsame]
        exact ⟨ho.named, ho.entry, ho.socket, hfree⟩
      · have hne : q ≠ h := by
          rintro rfl
          have hsocket := ho.socket
          rw [hunbound] at hsocket
          rcases hsocket with hsocket | hsocket <;> cases hsocket
        rw [hbound]
        refine ⟨ho.named, ?_, ?_, hfree⟩
        · exact (Function.update_of_ne (ho.free t h address ht).symm _ _).trans ho.entry
        · show Function.update _ _ _ _ = _ ∨ Function.update _ _ _ _ = _
          rw [Function.update_of_ne hne]
          exact ho.socket

theorem close (ho : Owns k s q path) {h : H} : Owns k (next k whose s (.close h)) q path where
  named := ho.named
  entry := ho.entry
  socket := by
    show Function.update _ _ _ _ = _ ∨ Function.update _ _ _ _ = _
    rcases eq_or_ne q h with rfl | hne
    · rw [Function.update_self]
      exact Or.inr rfl
    · rw [Function.update_of_ne hne]
      exact ho.socket
  free := ho.free

theorem step (ho : Owns k s q path) (hfresh : Fresh s e) : Owns k (next k whose s e) q path := by
  cases e with
  | assign a value | receive h a buffer length failed =>
      exact ⟨ho.named, ho.entry, ho.socket, ho.free⟩
  | startBind t h a => exact ho.startBind hfresh
  | finishBind t => exact ho.finishBind
  | send h a buffer length failed =>
      show Owns k (sendTo whose s h a buffer length failed).2 q path
      rcases sendTo_state whose s h a buffer length failed with hsame | ⟨p, payload, hsent⟩
      · rw [hsame]
        exact ho
      · rw [hsent]
        exact ⟨ho.named, ho.entry, ho.socket, ho.free⟩
  | close h => exact ho.close
  | others file entry =>
      have hne : path ≠ file := fun heq => hfresh (heq ▸ ho.named)
      exact ⟨List.mem_append_left _ ho.named,
        (Function.update_of_ne hne _ _).trans ho.entry, ho.socket, ho.free⟩

end Owns

/-- Every path that a socket is bound to leads to it, and so does the one that the kernel
reports with a datagram of it. -/
structure Sound (k : Kernel H Entry) (s : State ι α H Entry) : Prop where
  bound : ∀ h path, s.world.socket h = some (some path) → Owns k s h path
  pending : ∀ t h address, s.binding t = some (h, address) → address.toStringView ∈ s.named
  apart : ∀ t u h g address address', s.binding t = some (h, address) →
    s.binding u = some (g, address') → address.toStringView = address'.toStringView → t = u
  came : ∀ p, ∀ sent ∈ s.queue p, ∀ path : Path, sent.2.sender = .bound path →
    Owns k s sent.1 path.bytes

omit [DecidableEq ι] [DecidableEq α] [DecidableEq H] in
theorem Begins.sound (hs : Begins s) : Sound k s where
  bound h path hpath := absurd hpath (hs.unbound h path)
  pending t h address ht := by
    rw [hs.binding t] at ht
    cases ht
  apart t u h g address address' ht := by
    rw [hs.binding t] at ht
    cases ht
  came p sent hsent := by
    rw [hs.queue p] at hsent
    cases hsent

namespace Sound

theorem startBind (hs : Sound k s) {t : ι} {h : H} {a : α} (hfresh : Fresh s (.startBind t h a)) :
    Sound k (next k whose s (.startBind t h a)) where
  bound g path hpath := by
    rw [startBind_socket] at hpath
    exact (hs.bound g path hpath).step hfresh
  pending u g address hu := by
    rcases startBind_binding hu with ⟨-, rfl, -⟩ | hold
    · exact List.mem_append_right _ List.mem_cons_self
    · exact List.mem_append_left _ (hs.pending u g address hold)
  apart u v g g' address address' hu hv hsame := by
    rcases startBind_binding hu with ⟨rfl, rfl, hlength⟩ | hold
    · rcases startBind_binding hv with ⟨rfl, -, -⟩ | hold'
      · rfl
      · exact absurd (hsame ▸ hs.pending v g' address' hold') (hfresh hlength)
    · rcases startBind_binding hv with ⟨rfl, rfl, hlength⟩ | hold'
      · exact absurd (hsame ▸ hs.pending u g address hold) (hfresh hlength)
      · exact hs.apart u v g g' address address' hold hold' hsame
  came p sent hsent path hpath := (hs.came p sent hsent path hpath).step hfresh

/-- A call that has come halfway binds its socket, if that is not bound, to a path that
nobody else has. -/
theorem finishBind (hs : Sound k s) {t : ι} : Sound k (next k whose s (.finishBind t)) := by
  have hcame : ∀ p, ∀ sent ∈ s.queue p, ∀ path : Path, sent.2.sender = .bound path →
      Owns k (next k whose s (.finishBind t)) sent.1 path.bytes :=
    fun p sent hsent path hpath => (hs.came p sent hsent path hpath).finishBind
  have hbound : ∀ h path, s.world.socket h = some (some path) →
      Owns k (next k whose s (.finishBind t)) h path :=
    fun h path hpath => (hs.bound h path hpath).finishBind
  cases ht : s.binding t with
  | none =>
      rw [show next k whose s (.finishBind t) = s by simp only [next, ht]]
      exact hs
  | some call =>
      obtain ⟨h, address⟩ := call
      have hnext : next k whose s (.finishBind t) = { s with
          world := (Socket.bind k h address s.world).2
          binding := Function.update s.binding t none } := by
        simp only [next, ht]
      have hpending : ∀ u g address', Function.update s.binding t none u = some (g, address') →
          u ≠ t ∧ s.binding u = some (g, address') := fun _ _ _ hu => some_of_update_none hu
      rw [hnext] at hcame hbound ⊢
      refine ⟨fun g path hpath => ?_, fun u g b hu => hs.pending u g b (hpending u g b hu).2,
        fun u v g g' b b' hu hv => hs.apart u v g g' b b' (hpending u g b hu).2
          (hpending v g' b' hv).2, hcame⟩
      rcases bind_world k h address s.world with hsame | ⟨hunbound, hnew⟩
      · rw [hsame] at hpath
        exact hbound g path hpath
      · have hpath' := hpath
        rw [hnew] at hpath'
        rcases update_eq_some hpath' with ⟨rfl, heq⟩ | ⟨-, hold⟩
        · obtain rfl : address.toStringView = path := Option.some_inj.mp (Option.some_inj.mp heq)
          rw [hnew]
          refine ⟨hs.pending t g address ht, Function.update_self _ _ _, Or.inl ?_, ?_⟩
          · exact Function.update_self _ _ _
          · intro u g' b hu heq
            obtain ⟨hne, hold⟩ := hpending u g' b hu
            exact hne (hs.apart u t g' g b address hold ht heq)
        · exact hbound g path hold

omit [DecidableEq ι] [DecidableEq α] in
theorem deliver (hs : Sound k s) (q h : H) (payload : List UInt8) :
    Sound k (s.deliver q h payload) := by
  have howns {r : H} {path : List UInt8} (ho : Owns k s r path) :
      Owns k (s.deliver q h payload) r path := ⟨ho.named, ho.entry, ho.socket, ho.free⟩
  refine ⟨fun g path hpath => howns (hs.bound g path hpath), hs.pending, hs.apart,
    fun p sent hsent path hpath => howns ?_⟩
  rcases eq_or_ne p q with rfl | hne
  · have hqueue : (s.deliver p h payload).queue p =
        s.queue p ++ [(h, ⟨payload, senderOf s.world h⟩)] := Function.update_self _ _ _
    rw [hqueue] at hsent
    rcases List.mem_append.mp hsent with hold | hnew
    · exact hs.came p sent hold path hpath
    · rw [List.mem_singleton.mp hnew] at hpath ⊢
      exact hs.bound h path.bytes (senderOf_bound hpath)
  · have hqueue : (s.deliver q h payload).queue p = s.queue p := Function.update_of_ne hne _ _
    rw [hqueue] at hsent
    exact hs.came p sent hsent path hpath

omit [DecidableEq ι] in
theorem receive (hs : Sound k s) {h : H} {a : α} {buffer : Option (List UInt8)} {length : ℕ}
    {failed : Option Errno} : Sound k (receive s h a buffer length failed).2 := by
  have howns {r : H} {path : List UInt8} (ho : Owns k s r path) :
      Owns k (Datagrams.receive s h a buffer length failed).2 r path :=
    ⟨ho.named, ho.entry, ho.socket, ho.free⟩
  refine ⟨fun g path hpath => howns (hs.bound g path hpath), hs.pending, hs.apart,
    fun p sent hsent path hpath => howns (hs.came p sent ?_ path hpath)⟩
  cases hres : (receiveFrom (answer s h failed) (s.address a) buffer length).1 with
  | error e =>
      simp only [Datagrams.receive, hres] at hsent
      exact hsent
  | ok n =>
      simp only [Datagrams.receive, hres] at hsent
      rcases eq_or_ne p h with rfl | hne
      · rw [Function.update_self] at hsent
        exact List.mem_of_mem_tail hsent
      · rw [Function.update_of_ne hne] at hsent
        exact hsent

theorem step (hs : Sound k s) (hfresh : Fresh s e) : Sound k (next k whose s e) := by
  have hcame : ∀ p, ∀ sent ∈ s.queue p, ∀ path : Path, sent.2.sender = .bound path →
      Owns k (next k whose s e) sent.1 path.bytes :=
    fun p sent hsent path hpath => (hs.came p sent hsent path hpath).step hfresh
  cases e with
  | assign a value =>
      exact ⟨fun h path hpath => (hs.bound h path hpath).step hfresh, hs.pending, hs.apart, hcame⟩
  | startBind t h a => exact hs.startBind hfresh
  | finishBind t => exact hs.finishBind
  | send h a buffer length failed =>
      show Sound k (sendTo whose s h a buffer length failed).2
      rcases sendTo_state whose s h a buffer length failed with hsame | ⟨q, payload, hsent⟩
      · rw [hsame]
        exact hs
      · rw [hsent]
        exact hs.deliver q h payload
  | receive h a buffer length failed => exact hs.receive
  | close h =>
      exact ⟨fun g path hpath => (hs.bound g path (some_of_update_none hpath).2).step hfresh,
        hs.pending, hs.apart, hcame⟩
  | others path entry =>
      exact ⟨fun h path hpath => (hs.bound h path hpath).step hfresh,
        fun t h address ht => List.mem_append_left _ (hs.pending t h address ht), hs.apart, hcame⟩

end Sound

theorem sound (hs : ((machine ι α k whose).restrict Fresh).Reachable s) : Sound k s :=
  hs.invariant (I := Sound k) (fun _ hs => Begins.sound hs)
    fun _ _ _ (he : enabled whose _ _ ∧ Fresh _ _) hs => hs.step he.2

/-! ## Replies

What `receive_from` has put into an address object is there until that is written, and
leads to the socket it was for. -/

end Replies

/-! ## Two sockets -/

/-- Two sockets that are open and not bound. -/
def opened : State ℕ ℕ ℕ ℕ where
  world := { entries := fun _ => none, socket := fun h => if h < 2 then some none else none }
  queue _ := []
  address _ := .empty
  binding _ := none
  named := []

/-- Both are bound, to `/a` and `/b` by two threads at once, and the second sends a datagram
to the first. -/
def asking : List (Event ℕ ℕ ℕ ℕ) :=
  [.assign 0 DatagramSocket.peer.address, .startBind 0 0 0, .assign 1 served.address,
    .startBind 1 1 1, .finishBind 0, .finishBind 1, .send 1 0 (some [7]) 1 none]

end Datagrams

end Jar.Com
