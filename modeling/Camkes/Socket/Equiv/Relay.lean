import Camkes.Socket.Relay

/-!
# The relay delivers the string

What a socket is like depends on how far its writer has come (`SocketInv`): its lock is initialised,
its data is the whole string, it is marked as full.  A reader that has got past an event or a full
flag knows how far the writer has come at least, and the writer only goes on from there (`Inv`).
-/

namespace Camkes.Socket

open CArray Machine

/-! ### Copying strings -/

variable {str : List UInt8}

theorem read_terminated (h : 0 ∉ str) (rest : List UInt8) :
    CString.read (str ++ [0] ++ rest) = some str := by
  rw [List.append_assoc, List.singleton_append, CString.read_append h, CString.read_cons_zero,
    Option.map_some, List.append_nil]

/-- **`strcpy`** of a string that fits makes the array denote that string. -/
theorem strcpy_spec (h : 0 ∉ str) (hlen : str.length < 100) (dst : Vector UInt8 100)
    {src : List UInt8} (hsrc : CString.read src = some str) :
    ∃ data, strcpy dst src = some data ∧ CString.read data.toList = some str := by
  have hfits : (str ++ [0]).length ≤ 100 := by
    rw [List.length_append, List.length_singleton]
    omega
  obtain ⟨data, hdata, hlist⟩ := memcpy_eq_some dst hfits
  refine ⟨data, ?_, ?_⟩
  · rw [strcpy, hsrc]
    exact hdata
  · rw [hlist]
    exact read_terminated h _

/-! ### How far the threads have come -/

def SenderPc.hasInit : SenderPc → Bool
  | .initLock => false
  | _ => true

def SenderPc.hasCopied : SenderPc → Bool
  | .setFull | .unlock | .done => true
  | _ => false

def SenderPc.hasSet : SenderPc → Bool
  | .unlock | .done => true
  | _ => false

def TransportPc.started : TransportPc → Bool
  | .wait => false
  | _ => true

def TransportPc.hasInit : TransportPc → Bool
  | .wait | .initLock => false
  | _ => true

/-- It has found `incoming` full. -/
def TransportPc.sawFull : TransportPc → Bool
  | .lockOutgoing | .strcpy | .setFull | .unlockOutgoing | .unlock true | .done => true
  | _ => false

def TransportPc.hasCopied : TransportPc → Bool
  | .setFull | .unlockOutgoing | .unlock true | .done => true
  | _ => false

def TransportPc.hasSet : TransportPc → Bool
  | .unlockOutgoing | .unlock true | .done => true
  | _ => false

def ReceiverPc.started : ReceiverPc → Bool
  | .wait => false
  | _ => true

/-- It has found `outgoing` full. -/
def ReceiverPc.sawFull : ReceiverPc → Bool
  | .print | .unlock true | .done => true
  | _ => false

def ReceiverPc.hasPrinted : ReceiverPc → Bool
  | .unlock true | .done => true
  | _ => false

theorem SenderPc.hasCopied_of_hasSet {pc : SenderPc} (h : pc.hasSet = true) :
    pc.hasCopied = true := by
  cases pc with
  | unlock => rfl
  | done => rfl
  | _ => cases h

theorem TransportPc.hasCopied_of_hasSet {pc : TransportPc} (h : pc.hasSet = true) :
    pc.hasCopied = true := by
  cases pc with
  | unlockOutgoing => rfl
  | unlock received => cases received <;> exact h
  | done => rfl
  | _ => cases h

/-! ### Sockets -/

/-- A socket whose writer has or has not initialised the lock, copied the string, and set `full`. -/
structure SocketInv (str : List UInt8) (hasInit hasCopied hasSet : Bool) (sock : SocketT) :
    Prop where
  initialised : sock.lock.initialised = hasInit
  used : sock.lock.used = true → hasInit = true
  full : sock.full = hasSet
  data : hasCopied = true → CString.read sock.data.toList = some str

variable {hasInit hasCopied hasSet : Bool} {sock : SocketT}

theorem SocketInv.init (h : SocketInv str false hasCopied hasSet sock) :
    ∃ sock', syncSpinlockInit sock = some sock' ∧
      SocketInv str true hasCopied hasSet sock' := by
  have hunused : ¬ sock.lock.used = true := fun hused => Bool.false_ne_true (h.used hused)
  exact ⟨_, if_neg hunused, rfl, fun _ => rfl, h.full, h.data⟩

theorem SocketInv.lock (h : SocketInv str true hasCopied hasSet sock) :
    ∃ sock', syncSpinlockLock sock = some sock' ∧ SocketInv str true hasCopied hasSet sock' ∧
      sock'.data = sock.data :=
  ⟨_, if_pos h.initialised, ⟨h.initialised, fun _ => rfl, h.full, h.data⟩, rfl⟩

theorem SocketInv.unlock (h : SocketInv str hasInit hasCopied hasSet sock) :
    SocketInv str hasInit hasCopied hasSet (syncSpinlockUnlock sock) :=
  ⟨h.initialised, h.used, h.full, h.data⟩

theorem SocketInv.copy (h : SocketInv str hasInit hasCopied hasSet sock)
    {data : Vector UInt8 100} (hdata : CString.read data.toList = some str) :
    SocketInv str hasInit true hasSet { sock with data } :=
  ⟨h.initialised, h.used, h.full, fun _ => hdata⟩

theorem SocketInv.setFull (h : SocketInv str hasInit hasCopied hasSet sock) :
    SocketInv str hasInit hasCopied true { sock with full := true } :=
  ⟨h.initialised, h.used, rfl, h.data⟩

/-! ### The invariant -/

/-- Both sockets are as far as the components that use them, and what a component has seen of the
one before it has happened. -/
structure Inv (str : List UInt8) (s : System) : Prop where
  incoming : SocketInv str s.sender.hasInit s.sender.hasCopied s.sender.hasSet s.incoming
  outgoing : SocketInv str s.transport.hasInit s.transport.hasCopied s.transport.hasSet s.outgoing
  setup : s.setup = true ∨ s.transport.started = true → s.sender.hasInit = true
  setupReceiver : s.setupReceiver = true ∨ s.receiver.started = true → s.transport.hasInit = true
  sawIncoming : s.transport.sawFull = true → s.sender.hasSet = true
  sawOutgoing : s.receiver.sawFull = true → s.transport.hasSet = true
  printed : s.receiver.hasPrinted = true → s.printed = some str

theorem inv_init (str : List UInt8) : Inv str .init where
  incoming := ⟨rfl, nofun, rfl, nofun⟩
  outgoing := ⟨rfl, nofun, rfl, nofun⟩
  setup := by
    rintro (h | h) <;> cases h
  setupReceiver := by
    rintro (h | h) <;> cases h
  sawIncoming := nofun
  sawOutgoing := nofun
  printed := nofun

variable {s : System}

/-- A step of the Sender does not fail and keeps the invariant. -/
theorem Inv.stepSender (h : Inv str s) (hnul : 0 ∉ str) (hlen : str.length < 100)
    (hok : s.enabled .sender) : ∃ s', stepSender str s = some s' ∧ Inv str s' := by
  obtain ⟨hin, hout, hsetup, hsetupR, hsawIn, hsawOut, hprinted⟩ := h
  obtain ⟨sender, transport, receiver, incoming, outgoing, setup, setupReceiver, printed⟩ := s
  cases sender with
  | initLock =>
    obtain ⟨incoming', hinit, hin'⟩ := hin.init
    refine ⟨_, Option.bind_eq_some_iff.mpr ⟨_, hinit, rfl⟩, hin', hout, fun _ => rfl, hsetupR, ?_,
      hsawOut, hprinted⟩
    exact fun hsaw => Bool.noConfusion (hsawIn hsaw)
  | emit => exact ⟨_, rfl, hin, hout, fun _ => rfl, hsetupR, hsawIn, hsawOut, hprinted⟩
  | lock =>
    obtain ⟨incoming', hlock, hin', -⟩ := hin.lock
    exact ⟨_, Option.bind_eq_some_iff.mpr ⟨_, hlock, rfl⟩, hin', hout, hsetup, hsetupR, hsawIn,
      hsawOut, hprinted⟩
  | strcpy =>
    have hsrc : CString.read (str ++ [0]) = some str := by
      have hread := read_terminated hnul []
      rwa [List.append_nil] at hread
    obtain ⟨data, hcopy, hdata⟩ := strcpy_spec hnul hlen incoming.data hsrc
    exact ⟨_, Option.bind_eq_some_iff.mpr ⟨_, hcopy, rfl⟩, hin.copy hdata, hout, hsetup, hsetupR,
      hsawIn, hsawOut, hprinted⟩
  | setFull =>
    exact ⟨_, rfl, hin.setFull, hout, hsetup, hsetupR, fun _ => rfl, hsawOut, hprinted⟩
  | unlock => exact ⟨_, rfl, hin.unlock, hout, hsetup, hsetupR, hsawIn, hsawOut, hprinted⟩
  | done => cases hok

/-- Transport copies the string only after it has found `incoming` full, when it is all there. -/
theorem Inv.stepTransport (h : Inv str s) (hnul : 0 ∉ str) (hlen : str.length < 100)
    (hok : s.enabled .transport) : ∃ s', stepTransport s = some s' ∧ Inv str s' := by
  obtain ⟨hin, hout, hsetup, hsetupR, hsawIn, hsawOut, hprinted⟩ := h
  obtain ⟨sender, transport, receiver, incoming, outgoing, setup, setupReceiver, printed⟩ := s
  cases transport with
  | wait =>
    have hinit : sender.hasInit = true := hsetup (Or.inl hok)
    refine ⟨_, rfl, hin, hout, fun _ => hinit, ?_, nofun, ?_, hprinted⟩
    · exact fun hset => Bool.noConfusion (hsetupR hset)
    · exact fun hsaw => Bool.noConfusion (hsawOut hsaw)
  | initLock =>
    obtain ⟨outgoing', hinit, hout'⟩ := hout.init
    refine ⟨_, Option.bind_eq_some_iff.mpr ⟨_, hinit, rfl⟩, hin, hout', hsetup, fun _ => rfl,
      nofun, ?_, hprinted⟩
    exact fun hsaw => Bool.noConfusion (hsawOut hsaw)
  | emit => exact ⟨_, rfl, hin, hout, hsetup, fun _ => rfl, hsawIn, hsawOut, hprinted⟩
  | lock =>
    have hinit : sender.hasInit = true := hsetup (Or.inr rfl)
    obtain ⟨incoming', hlock, hin', -⟩ := (hinit ▸ hin).lock
    exact ⟨_, Option.bind_eq_some_iff.mpr ⟨_, hlock, rfl⟩, hinit ▸ hin', hout, hsetup, hsetupR,
      hsawIn, hsawOut, hprinted⟩
  | test =>
    cases hfull : incoming.full with
    | false =>
      refine ⟨_, rfl, hin, ?_, ?_, ?_, ?_, ?_, hprinted⟩ <;> simp only [hfull, Bool.false_eq_true,
        if_false]
      · exact hout
      · exact hsetup
      · exact hsetupR
      · exact hsawIn
      · exact hsawOut
    | true =>
      have hset : sender.hasSet = true := hin.full.symm.trans hfull
      refine ⟨_, rfl, hin, ?_, ?_, ?_, ?_, ?_, hprinted⟩ <;> simp only [hfull, if_true]
      · exact hout
      · exact hsetup
      · exact hsetupR
      · exact fun _ => hset
      · exact hsawOut
  | lockOutgoing =>
    obtain ⟨outgoing', hlock, hout', -⟩ := hout.lock
    exact ⟨_, Option.bind_eq_some_iff.mpr ⟨_, hlock, rfl⟩, hin, hout', hsetup, hsetupR, hsawIn,
      hsawOut, hprinted⟩
  | strcpy =>
    have hsrc : CString.read incoming.data.toList = some str :=
      hin.data (SenderPc.hasCopied_of_hasSet (hsawIn rfl))
    obtain ⟨data, hcopy, hdata⟩ := strcpy_spec hnul hlen outgoing.data hsrc
    exact ⟨_, Option.bind_eq_some_iff.mpr ⟨_, hcopy, rfl⟩, hin, hout.copy hdata, hsetup, hsetupR,
      hsawIn, hsawOut, hprinted⟩
  | setFull =>
    exact ⟨_, rfl, hin, hout.setFull, hsetup, hsetupR, hsawIn, fun _ => rfl, hprinted⟩
  | unlockOutgoing =>
    exact ⟨_, rfl, hin, hout.unlock, hsetup, hsetupR, hsawIn, hsawOut, hprinted⟩
  | unlock received =>
    cases received with
    | false => exact ⟨_, rfl, hin.unlock, hout, hsetup, hsetupR, hsawIn, hsawOut, hprinted⟩
    | true => exact ⟨_, rfl, hin.unlock, hout, hsetup, hsetupR, hsawIn, hsawOut, hprinted⟩
  | done => cases hok

/-- A step of the Receiver does not fail and keeps the invariant. -/
theorem Inv.stepReceiver (h : Inv str s) (hok : s.enabled .receiver) :
    ∃ s', stepReceiver s = some s' ∧ Inv str s' := by
  obtain ⟨hin, hout, hsetup, hsetupR, hsawIn, hsawOut, hprinted⟩ := h
  obtain ⟨sender, transport, receiver, incoming, outgoing, setup, setupReceiver, printed⟩ := s
  cases receiver with
  | wait =>
    have hinit : transport.hasInit = true := hsetupR (Or.inl hok)
    exact ⟨_, rfl, hin, hout, hsetup, fun _ => hinit, hsawIn, nofun, nofun⟩
  | lock =>
    have hinit : transport.hasInit = true := hsetupR (Or.inr rfl)
    obtain ⟨outgoing', hlock, hout', -⟩ := (hinit ▸ hout).lock
    exact ⟨_, Option.bind_eq_some_iff.mpr ⟨_, hlock, rfl⟩, hin, hinit ▸ hout', hsetup, hsetupR,
      hsawIn, hsawOut, hprinted⟩
  | test =>
    cases hfull : outgoing.full with
    | false =>
      refine ⟨_, rfl, hin, hout, hsetup, ?_, hsawIn, ?_, ?_⟩ <;> simp only [hfull,
        Bool.false_eq_true, if_false]
      · exact hsetupR
      · exact nofun
      · exact nofun
    | true =>
      have hset : transport.hasSet = true := hout.full.symm.trans hfull
      refine ⟨_, rfl, hin, hout, hsetup, ?_, hsawIn, ?_, ?_⟩ <;> simp only [hfull, if_true]
      · exact hsetupR
      · exact fun _ => hset
      · exact nofun
  | print =>
    have hread : CString.read outgoing.data.toList = some str :=
      hout.data (TransportPc.hasCopied_of_hasSet (hsawOut rfl))
    exact ⟨_, Option.bind_eq_some_iff.mpr ⟨_, hread, rfl⟩, hin, hout, hsetup, hsetupR, hsawIn,
      hsawOut, fun _ => rfl⟩
  | unlock received =>
    cases received with
    | false => exact ⟨_, rfl, hin, hout.unlock, hsetup, hsetupR, hsawIn, hsawOut, hprinted⟩
    | true => exact ⟨_, rfl, hin, hout.unlock, hsetup, hsetupR, hsawIn, hsawOut, hprinted⟩
  | done => cases hok

/-! ### Runs -/

/-- Every step keeps the invariant. -/
theorem preserves_inv (hnul : 0 ∉ str) (hlen : str.length < 100) :
    (machine str).Preserves (Inv str) := by
  intro s e h hok
  cases e with
  | sender => exact h.stepSender hnul hlen hok
  | transport => exact h.stepTransport hnul hlen hok
  | receiver => exact h.stepReceiver hok

/-- **The relay**: in every interleaving, no spinlock is locked before it is initialised or
initialised after it has been locked, no copy leaves its array, and when Receiver has left its loop
it has read the string that Sender writes. -/
theorem relay_correct (hnul : 0 ∉ str) (hlen : str.length < 100)
    {ts : List (Transition System Event)} {s : System} (hrun : (machine str).Run .init ts s) :
    (∀ e, (machine str).ok s e → ((machine str).step s e).isSome) ∧
      (s.receiver = .unlock true ∨ s.receiver = .done → s.printed = some str) := by
  have hpreserves := preserves_inv hnul hlen
  have h := hpreserves.run (inv_init str) hrun
  refine ⟨fun e he => hpreserves.safe (inv_init str) ts s e hrun he, ?_⟩
  rintro (hpc | hpc)
  · exact h.printed (by rw [hpc]; rfl)
  · exact h.printed (by rw [hpc]; rfl)

/-- `hello world`. -/
def helloWorld : List UInt8 := [104, 101, 108, 108, 111, 32, 119, 111, 114, 108, 100]

/-- Transport and Receiver look before Sender has written. -/
def pollFirst : List Event :=
  List.replicate 2 Event.sender ++ List.replicate 6 Event.transport ++
    List.replicate 4 Event.receiver ++ List.replicate 4 Event.sender ++
    List.replicate 7 Event.transport ++ List.replicate 4 Event.receiver

theorem relay_correct_pollFirst : 0 ∉ helloWorld ∧ ∃ ts s, (machine helloWorld).Run .init ts s ∧
    events ts = pollFirst ∧ s.printed = some helloWorld := by
  obtain ⟨ts, s, hrun, hevents, hp⟩ := exists_run_of_exec (machine helloWorld) .init pollFirst
    (fun r => r.2.receiver = .done) (by decide +kernel)
  refine ⟨by decide, ts, s, hrun, hevents, ?_⟩
  exact (relay_correct (by decide) (by decide) hrun).2 (Or.inr (of_decide_eq_true hp))

end Camkes.Socket
