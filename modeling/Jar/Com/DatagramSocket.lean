/-
# `Jar.Com.DatagramSocket` — whom a datagram is from

`receive_from` passes the `sockaddr_un` of the caller's address to `recvfrom`, with its
size in a local variable.  The kernel writes as much of the sender's address as there
is and stores the length of that in the variable, which nobody reads afterwards.

The address of a sender that is bound comes with its NUL, so whatever stood behind it
is not read.  That of an unbound sender has no path at all: the path that was there
stays, and is taken for the sender's by `==` and by `send_to`.  `receiveFrom_iff` is
about both, and about two receptions of the same datagram.
-/
import Jar.System.IpcAddress

namespace Jar.Com

open Jar.Lib Jar.System

namespace DatagramSocket

/-! ## The kernel

`recvfrom` writes the address of the sender over what was in the buffer, from its
beginning and not further than there is. -/

/-- Who sent a datagram: a socket bound to a path, or one that is not bound to anything,
for which the kernel reports the family or nothing at all. -/
inductive Sender where
  | bound (path : Path)
  | unbound (family : Bool)

structure Datagram where
  payload : List UInt8
  sender : Sender

namespace Sender

def sockaddr : Sender → SockaddrUn
  | .bound path => path.address.address
  | .unbound _ => { SockaddrUn.zero with sunFamily := afLocal }

/-- The length the kernel reports.  A path counts with its NUL. -/
def addressLength : Sender → ℕ
  | .bound path => sizeofSunFamily + (path.bytes.length + 1)
  | .unbound true => sizeofSunFamily
  | .unbound false => 0

/-- `sizeof(sockaddr_un)`, the size of the buffer the kernel is given. -/
def addressSize : ℕ := sizeofSunFamily + sizeofSunPath

/-- What `recvfrom` leaves in a `sockaddr_un`. -/
def write (sender : Sender) (remote : SockaddrUn) : SockaddrUn :=
  .overwrite (min sender.addressLength addressSize) sender.sockaddr remote

theorem write_bound (path : Path) (remote : SockaddrUn) :
    ∃ rest, ((bound path).write remote).sunPath = path.bytes ++ 0 :: rest := by
  have hroom : min (bound path).addressLength addressSize - sizeofSunFamily =
      path.bytes.length + 1 := by
    have hfits := path.fits
    simp only [addressLength, addressSize, IpcAddress.maxLength, sizeofSunPath] at hfits ⊢
    omega
  have hpath : ((bound path).write remote).sunPath =
      overwrite (path.bytes.length + 1) path.address.address.sunPath remote.sunPath :=
    congrArg (fun n => overwrite n path.address.address.sunPath remote.sunPath) hroom
  rw [hpath, Path.address, Address.ofPath, sunPath_pathAddress path.fits, overwrite_string]
  exact ⟨_, rfl⟩

theorem write_unbound (family : Bool) (remote : SockaddrUn) :
    ((unbound family).write remote).sunPath = remote.sunPath := by
  cases family with
  | false => rfl
  | true => rfl

/-- The same on an address, which stays a C string. -/
def fill (sender : Sender) (remote : Address) : Address where
  address := sender.write remote.address
  terminated := by
    cases sender with
    | bound path =>
        obtain ⟨rest, hrest⟩ := write_bound path remote.address
        rw [hrest]
        exact terminated_append_zero path.bytes rest
    | unbound family =>
        rw [write_unbound]
        exact remote.terminated

theorem toStringView_fill_bound (path : Path) (remote : Address) :
    ((bound path).fill remote).toStringView = path.bytes := by
  obtain ⟨rest, hrest⟩ := write_bound path remote.address
  change cString ((bound path).write remote.address).sunPath = path.bytes
  rw [hrest, cString_append_zero path.noNul]

theorem toStringView_fill_unbound (family : Bool) (remote : Address) :
    ((unbound family).fill remote).toStringView = remote.toStringView :=
  congrArg cString (write_unbound family remote.address)

end Sender

/-- `recvfrom`: what it returns, and what it leaves in the buffer and the address.  The
excess of a datagram that is longer than the buffer is lost. -/
def recvfrom (answer : Except Errno Datagram) (buffer : List UInt8) (length : ℕ)
    (remote : Address) : Except Errno ℕ × List UInt8 × Address :=
  match answer with
  | .error code => (.error code, buffer, remote)
  | .ok d =>
      let bytesReceived := min d.payload.length length
      (.ok bytesReceived, overwrite bytesReceived d.payload buffer, d.sender.fill remote)

/-! ## The operations

What is sent goes to the path that is read from the address.  A call of `receive_from`
with a buffer succeeds when `recvfrom` does, and one that fails leaves the address as
it was. -/

/-- `receive_from`: its result, the buffer and the address afterwards. -/
def receiveFrom (answer : Except Errno Datagram) (remote : Address)
    (buffer : Option (List UInt8)) (length : ℕ) :
    Except Error ℕ × Option (List UInt8) × Address :=
  match Contract.notNull buffer "buffer cannot be nullptr" with
  | .error e => (.error e, buffer, remote)
  | .ok bytes =>
      match Contract.notZero length "length cannot be zero" with
      | .error e => (.error e, buffer, remote)
      | .ok () =>
          let received := recvfrom answer bytes length remote
          (Contract.noSystemError received.1, some received.2.1, received.2.2)

/-- What `send_to` hands to `sendto`: the path the datagram goes to, and its bytes. -/
def sendRequest (remote : Address) (buffer : Option (List UInt8)) (length : ℕ) :
    Except Error (List UInt8 × List UInt8) := do
  Contract.notZero remote.length "remote_address cannot be empty"
  let bytes ← Contract.notNull buffer "buffer cannot be nullptr"
  Contract.notZero length "length cannot be zero"
  return (remote.toStringView, bytes.take length)

def sendTo (sendto : List UInt8 → List UInt8 → Except Errno ℕ) (remote : Address)
    (buffer : Option (List UInt8)) (length : ℕ) : Except Error ℕ := do
  let (destination, payload) ← sendRequest remote buffer length
  Contract.noSystemError (sendto destination payload)

theorem sendRequest_empty {remote : Address} (h : remote.length = 0)
    (buffer : Option (List UInt8)) (length : ℕ) :
    sendRequest remote buffer length =
      .error (.invalidArgument "remote_address cannot be empty") := by
  unfold sendRequest
  rw [h]
  rfl

theorem sendRequest_destination {remote : Address} {buffer : Option (List UInt8)} {length : ℕ}
    {destination payload : List UInt8}
    (h : sendRequest remote buffer length = .ok (destination, payload)) :
    destination = remote.toStringView := by
  unfold sendRequest at h
  obtain ⟨-, -, h⟩ := Contract.bind_eq_ok h
  obtain ⟨bytes, -, h⟩ := Contract.bind_eq_ok h
  obtain ⟨-, -, h⟩ := Contract.bind_eq_ok h
  cases h
  rfl

theorem receiveFrom_ok (d : Datagram) (remote : Address) (bytes : List UInt8) {length : ℕ}
    (hlength : length ≠ 0) :
    receiveFrom (.ok d) remote (some bytes) length = (.ok (min d.payload.length length),
      some (overwrite (min d.payload.length length) d.payload bytes), d.sender.fill remote) := by
  unfold receiveFrom
  rw [Contract.notZero_of_ne hlength]
  rfl

theorem receiveFrom_error {answer : Except Errno Datagram} {remote : Address}
    {buffer : Option (List UInt8)} {length : ℕ} {e : Error}
    (h : (receiveFrom answer remote buffer length).1 = .error e) :
    (receiveFrom answer remote buffer length).2 = (buffer, remote) := by
  cases buffer with
  | none => rfl
  | some bytes =>
      rcases eq_or_ne length 0 with rfl | hlength
      · rfl
      · cases answer with
        | error code =>
            unfold receiveFrom
            rw [Contract.notZero_of_ne hlength]
            rfl
        | ok d =>
            rw [receiveFrom_ok d remote bytes hlength] at h
            cases h

/-! ## Whom a datagram is from -/

/-- The address of a sender. -/
def Sender.reported : Sender → Address
  | .bound path => path.address
  | .unbound _ => .empty

def Sender.IsBound : Sender → Prop
  | .bound _ => True
  | .unbound _ => False

/-- The address is the sender's, empty if the sender has none, and what is sent to it goes
to the sender. -/
structure Reports (sender : Sender) (remote : Address) : Prop where
  equal : remote.equal sender.reported = true
  empty : ¬ sender.IsBound → remote.length = 0
  reply : ∀ buffer length destination payload,
    sendRequest remote buffer length = .ok (destination, payload) →
      ∃ path, sender = .bound path ∧ destination = path.bytes

theorem reports_bound (path : Path) (remote : Address) :
    Reports (.bound path) ((Sender.bound path).fill remote) where
  equal := by
    rw [Address.equal_iff, Sender.toStringView_fill_bound]
    exact path.toStringView_address.symm
  empty h := absurd trivial h
  reply buffer length destination payload h := by
    rw [sendRequest_destination h, Sender.toStringView_fill_bound]
    exact ⟨path, rfl, rfl⟩

/-- Nothing is reported of an unbound sender, so the address has to be empty before. -/
theorem reports_unbound_iff (family : Bool) (remote : Address) :
    Reports (.unbound family) ((Sender.unbound family).fill remote) ↔ remote.length = 0 := by
  have hlength : ((Sender.unbound family).fill remote).length = remote.length :=
    congrArg List.length (Sender.toStringView_fill_unbound family remote)
  constructor
  · intro h
    rw [← hlength]
    exact h.empty not_false
  · intro h
    rw [← hlength] at h
    refine ⟨?_, fun _ => h, ?_⟩
    · rw [Address.equal_iff, Address.length_eq_zero.mp h]
      exact Address.toStringView_empty.symm
    · intro buffer length destination payload hsend
      rw [sendRequest_empty h] at hsend
      cases hsend

/-- **A successful `receive_from` reports the sender exactly when the sender is bound or
the address was empty before; and what two of them report of one datagram agrees exactly
when the sender is bound or the addresses did before.** -/
theorem receiveFrom_iff (d : Datagram) (bytes : List UInt8) {length : ℕ} (hlength : length ≠ 0)
    (remote : Address) :
    let after (remote : Address) := (receiveFrom (.ok d) remote (some bytes) length).2.2
    (receiveFrom (.ok d) remote (some bytes) length).1 = .ok (min d.payload.length length) ∧
    (Reports d.sender (after remote) ↔ d.sender.IsBound ∨ remote.length = 0) ∧
    ∀ remote' : Address, (after remote).equal (after remote') = true ↔
      d.sender.IsBound ∨ remote.equal remote' = true := by
  have hafter (remote : Address) :
      (receiveFrom (.ok d) remote (some bytes) length).2.2 = d.sender.fill remote := by
    rw [receiveFrom_ok d remote bytes hlength]
  refine ⟨by rw [receiveFrom_ok d remote bytes hlength], ?_, fun remote' => ?_⟩
  · dsimp only
    rw [hafter]
    cases d.sender with
    | bound path =>
        constructor
        · intro _
          exact Or.inl trivial
        · intro _
          exact reports_bound path remote
    | unbound family =>
        rw [reports_unbound_iff]
        exact (or_iff_right not_false).symm
  · dsimp only
    rw [hafter, hafter, Address.equal_iff, Address.equal_iff]
    cases d.sender with
    | bound path =>
        rw [Sender.toStringView_fill_bound, Sender.toStringView_fill_bound]
        exact iff_of_true rfl (Or.inl trivial)
    | unbound family =>
        rw [Sender.toStringView_fill_unbound, Sender.toStringView_fill_unbound]
        exact (or_iff_right not_false).symm

/-- The path `/a`. -/
def peer : Path := ⟨[47, 97], by decide, by decide, by decide⟩

/-- The longer path `/bc`, of a peer before. -/
def former : Path := ⟨[47, 98, 99], by decide, by decide, by decide⟩

theorem receiveFrom_iff_peer :
    let after (remote : Address) :=
      (receiveFrom (.ok ⟨[1], .bound peer⟩) remote (some [0]) 1).2.2
    (receiveFrom (.ok ⟨[1], .bound peer⟩) former.address (some [0]) 1).1 = .ok 1 ∧
    (Reports (.bound peer) (after former.address) ↔
      Sender.IsBound (.bound peer) ∨ former.address.length = 0) ∧
    ∀ remote' : Address, (after former.address).equal (after remote') = true ↔
      Sender.IsBound (.bound peer) ∨ former.address.equal remote' = true :=
  receiveFrom_iff ⟨[1], .bound peer⟩ [0] Nat.one_ne_zero former.address

/-- A datagram of an unbound socket, received into the address of an earlier peer: that
peer is reported, and gets the reply. -/
theorem earlier_peer :
    let after (remote : Address) :=
      (receiveFrom (.ok ⟨[1], .unbound true⟩) remote (some [0]) 1).2.2
    (after peer.address).toStringView = peer.bytes ∧
    sendRequest (after peer.address) (some [2]) 1 = .ok (peer.bytes, [2]) ∧
    (after peer.address).equal (after .empty) = false ∧
    ¬ Reports (.unbound true) (after peer.address) := by
  have hview : ((Sender.unbound true).fill peer.address).toStringView = peer.bytes := by
    rw [Sender.toStringView_fill_unbound, Path.toStringView_address]
  have hlength : peer.address.length ≠ 0 := by
    rw [Ne, Address.length_eq_zero, Path.toStringView_address]
    exact peer.nonempty
  refine ⟨hview, rfl, rfl, ?_⟩
  intro h
  exact hlength ((reports_unbound_iff true peer.address).mp h)

end DatagramSocket

end Jar.Com
