import Camkes.Data.Loops
import Camkes.EthdriverUboot.Equiv.ClientRx

/-!
# For which clients a frame is meant

`MeantFor` says for which clients a frame is meant, in terms of Ethernet and IPv4: for the client
that has its destination MAC address, and when there is none, for all clients if it is a broadcast
frame or an IPv4 frame to a multicast address.  The receive loop offers a frame to exactly the
clients it is routed to (`copyRx_eq`).  These are the clients that the frame is meant for unless
`is_multicast`, which does not look at the EtherType, takes other contents of the frame for a
multicast address (`offered_iff_meantFor`).
-/

namespace Camkes.EthdriverUboot

/-! ### Ethernet and IPv4 -/

/-- The frame has the MAC address of the client as its destination. -/
def Client.HasDest (client : Client) (packet : Packet) : Prop :=
  client.mac.toList = packet.take 6

instance (client : Client) (packet : Packet) : Decidable (client.HasDest packet) :=
  inferInstanceAs (Decidable (_ = _))

/-- The destination is `ff:ff:ff:ff:ff:ff`. -/
def ToAll (packet : Packet) : Prop := packet.take 6 = List.replicate 6 0xff

/-- The EtherType is `0x0800`. -/
def IsIpv4 (packet : Packet) : Prop := packet[12]? = some 0x08 ∧ packet[13]? = some 0x00

instance (packet : Packet) : Decidable (ToAll packet) := inferInstanceAs (Decidable (_ = _))

instance (packet : Packet) : Decidable (IsIpv4 packet) := inferInstanceAs (Decidable (_ ∧ _))

/-- The four bytes where an IPv4 frame has its destination address, in network byte order. -/
def ipv4Dest (packet : Packet) : Option ℕ := do
  let a ← packet[30]?
  let b ← packet[31]?
  let c ← packet[32]?
  let d ← packet[33]?
  some (((a.toNat * 256 + b.toNat) * 256 + c.toNat) * 256 + d.toNat)

/-- These bytes are there, and are an address in `224.0.0.0/4`. -/
def HasMulticastDest (packet : Packet) : Prop :=
  ∃ addr ∈ ipv4Dest packet, 0xe0000000 ≤ addr ∧ addr < 0xf0000000

/-- For which clients a frame is meant. -/
def MeantFor (clients : List Client) (packet : Packet) (i : ℕ) : Prop :=
  (∃ client ∈ clients[i]?, client.HasDest packet) ∨
    (∀ client ∈ clients, ¬ client.HasDest packet) ∧
      (ToAll packet ∨ IsIpv4 packet ∧ HasMulticastDest packet)

/-- A frame for another host that is no IPv4 frame has bytes of a multicast address where an IPv4
frame has its destination. -/
def TakenForMulticast (clients : List Client) (packet : Packet) : Prop :=
  clients ≠ [] ∧ (∀ client ∈ clients, ¬ client.HasDest packet) ∧ ¬ ToAll packet ∧
    ¬ IsIpv4 packet ∧ HasMulticastDest packet

variable {clients : List Client} {packet : Packet} {i : ℕ}

/-! ### The tests of the component -/

theorem Client.HasDest.length_le {client : Client} (h : client.HasDest packet) :
    6 ≤ packet.length := by
  have hlen := congrArg List.length h
  rw [Vector.length_toList, List.length_take] at hlen
  omega

/-- `detect_client` finds no client when none has the destination address. -/
theorem detectClient_eq_none :
    detectClient clients packet = none ↔ ∀ client ∈ clients, ¬ client.HasDest packet := by
  unfold detectClient
  split_ifs with hlen
  · refine iff_of_true rfl fun client _ h => ?_
    have hle := h.length_le
    omega
  · rw [List.findIdx?_eq_none_iff]
    simp only [decide_eq_false_iff_not]
    rfl

/-- When the MAC addresses are distinct it finds the client that has the destination address. -/
theorem detectClient_eq_some (hmacs : (clients.map Client.mac).Nodup) :
    detectClient clients packet = some i ↔ ∃ client ∈ clients[i]?, client.HasDest packet := by
  constructor
  · intro h
    unfold detectClient at h
    split_ifs at h
    obtain ⟨hlt, hdest, -⟩ := List.findIdx?_eq_some_iff_getElem.mp h
    exact ⟨clients[i], List.getElem?_eq_getElem hlt, of_decide_eq_true hdest⟩
  · rintro ⟨client, hget, hdest⟩
    obtain ⟨hlt, rfl⟩ := List.getElem?_eq_some_iff.mp hget
    have hlen : ¬ packet.length < 6 := Nat.not_lt.mpr hdest.length_le
    rw [detectClient, if_neg hlen, List.findIdx?_eq_some_iff_getElem]
    refine ⟨hlt, decide_eq_true hdest, fun j hji hj => ?_⟩
    -- a client before it with that address would have the same MAC address
    have hjlt : j < clients.length := by omega
    have hmac : clients[j].mac = clients[i].mac :=
      Vector.toList_inj.mp ((of_decide_eq_true hj).trans hdest.symm)
    have hij := (getElem_inj_of_nodup_map hmacs hjlt hlt).mp hmac
    omega

theorem isBroadcast_iff : isBroadcast packet = true ↔ ToAll packet := by
  unfold isBroadcast ToAll
  split_ifs with hlen
  · refine iff_of_false not_false fun h => ?_
    have hlen' := congrArg List.length h
    rw [List.length_take, List.length_replicate] at hlen'
    omega
  · exact decide_eq_true_iff

/-- The mask looks at the first byte of the address alone. -/
theorem shiftLeft_and (x : UInt32) : (x <<< 8) &&& 0xf0 = 0 := by
  apply UInt32.toBitVec_inj.mp
  have hshift : (x <<< 8).toBitVec = x.toBitVec <<< 8 := rfl
  rw [UInt32.toBitVec_and, hshift]
  apply BitVec.eq_of_getLsbD_eq
  intro i hi
  show ((x.toBitVec <<< 8) &&& 0xf0#32).getLsbD i = (0#32).getLsbD i
  rw [BitVec.getLsbD_and, BitVec.getLsbD_shiftLeft, BitVec.getLsbD_zero]
  by_cases h : i < 8
  · rw [decide_eq_true h, Bool.not_true, Bool.and_false, Bool.false_and, Bool.false_and]
  · have hlt : 0xf0 < 2 ^ i :=
      Nat.lt_of_lt_of_le (by decide) (Nat.pow_le_pow_right (by decide) (Nat.le_of_not_lt h))
    have hhigh : (0xf0#32).getLsbD i = false := by
      rw [BitVec.getLsbD_ofNat, Nat.testBit_lt_two_pow hlt, Bool.and_false]
    rw [hhigh, Bool.and_false]

theorem uint32OfBytes_and (a : UInt8) (bytes : List UInt8) :
    uint32OfBytes (a :: bytes) &&& 0xf0 = a.toUInt32 &&& 0xf0 := by
  apply UInt32.toBitVec_inj.mp
  show ((uint32OfBytes bytes <<< 8 ||| a.toUInt32) &&& 0xf0).toBitVec = _
  have hzero : (uint32OfBytes bytes <<< 8).toBitVec &&& (0xf0 : UInt32).toBitVec = 0 := by
    rw [← UInt32.toBitVec_and, shiftLeft_and]
    rfl
  rw [UInt32.toBitVec_and, UInt32.toBitVec_or, BitVec.and_or_distrib_right, hzero,
    UInt32.toBitVec_and]
  exact BitVec.zero_or

/-- Multicast addresses start with the bits 1110. -/
theorem and_eq_iff (a : UInt8) :
    a.toUInt32 &&& 0xf0 = 0xe0 ↔ 224 ≤ a.toNat ∧ a.toNat < 240 := by
  have hall : ∀ n : Fin 256, (UInt8.ofNat n.val).toUInt32 &&& 0xf0 = 0xe0 ↔
      224 ≤ n.val ∧ n.val < 240 := by
    decide +kernel
  simpa using hall ⟨a.toNat, a.toNat_lt⟩

theorem isMulticast_iff : isMulticast packet = true ↔ HasMulticastDest packet := by
  unfold isMulticast HasMulticastDest ipv4Dest
  simp only
  split_ifs with hlen
  · have hnone : packet[33]? = none := List.getElem?_eq_none (by omega)
    refine iff_of_false not_false ?_
    rintro ⟨addr, haddr, -⟩
    simp only [hnone, Option.bind_eq_bind, Option.bind_none, Option.mem_def,
      Option.bind_fun_none, reduceCtorEq] at haddr
  · have h₀ : 30 < packet.length := by omega
    have h₁ : 31 < packet.length := by omega
    have h₂ : 32 < packet.length := by omega
    have h₃ : 33 < packet.length := by omega
    have hdrop : packet.drop (14 + 16) = packet[30] :: packet.drop 31 :=
      List.drop_eq_getElem_cons h₀
    rw [hdrop, List.take_succ_cons, decide_eq_true_iff, uint32OfBytes_and, and_eq_iff]
    simp only [List.getElem?_eq_getElem h₀, List.getElem?_eq_getElem h₁,
      List.getElem?_eq_getElem h₂, List.getElem?_eq_getElem h₃, Option.bind_eq_bind,
      Option.bind_some, Option.mem_def, Option.some.injEq, exists_eq_left']
    have hb := packet[31].toNat_lt
    have hc := packet[32].toNat_lt
    have hd := packet[33].toNat_lt
    omega

/-! ### The clients that are offered a frame -/

theorem routedTo_iff (hmacs : (clients.map Client.mac).Nodup) :
    routedTo clients packet i = true ↔ (∃ client ∈ clients[i]?, client.HasDest packet) ∨
      (∀ client ∈ clients, ¬ client.HasDest packet) ∧
        (ToAll packet ∨ HasMulticastDest packet) := by
  rw [← detectClient_eq_some hmacs, ← detectClient_eq_none, ← isBroadcast_iff, ← isMulticast_iff,
    ← Bool.or_eq_true]
  unfold routedTo
  cases detectClient clients packet with
  | none => simp only [reduceCtorEq, false_or, true_and]
  | some j =>
    simp only [Option.some.injEq, reduceCtorEq, false_and, or_false]
    rw [beq_iff_eq, eq_comm]

/-- **What the receive loop does with a frame**: it offers it to the clients it is routed to. -/
theorem copyRx_eq {clients' : List Client} (h : copyRx clients packet = some clients') (i : ℕ) :
    clients'[i]? = (clients[i]?).bind fun client =>
      if routedTo clients packet i then pendRx packet client else some client := by
  unfold copyRx at h
  unfold routedTo
  cases hdetect : detectClient clients packet with
  | none =>
    simp only [hdetect] at h ⊢
    by_cases hall : (isBroadcast packet || isMulticast packet) = true
    · simp only [hall, if_true] at h ⊢
      exact getElem?_of_mapM h i
    · simp only [hall, Bool.false_eq_true, if_false, Option.bind_fun_some] at h ⊢
      rw [Option.some.inj h]
  | some j =>
    simp only [hdetect] at h ⊢
    obtain ⟨client, hget, hrest⟩ := Option.bind_eq_some_iff.mp h
    obtain ⟨client', hpend, hset⟩ := Option.bind_eq_some_iff.mp hrest
    have hlt := (List.getElem?_eq_some_iff.mp hget).1
    rw [← Option.some.inj hset, List.getElem?_set]
    by_cases hji : j = i
    · subst hji
      simp only [if_true, hlt, hget, Option.bind_some, beq_self_eq_true, hpend]
    · have hij : (i == j) = false := beq_eq_false_iff_ne.mpr (Ne.symm hji)
      simp only [hji, hij, Bool.false_eq_true, if_false, Option.bind_fun_some]

/-- **Classification**: the receive loop offers a frame to exactly the clients that it is meant for,
unless the frame is taken for a multicast frame. -/
theorem offered_iff_meantFor (hmacs : (clients.map Client.mac).Nodup) (packet : Packet) :
    (∀ clients', copyRx clients packet = some clients' → ∀ i,
      clients'[i]? = (clients[i]?).bind fun client =>
        if routedTo clients packet i then pendRx packet client else some client) ∧
    ((∀ i < clients.length, (routedTo clients packet i = true ↔ MeantFor clients packet i)) ↔
      ¬ TakenForMulticast clients packet) := by
  refine ⟨fun clients' h => copyRx_eq h, ?_⟩
  simp only [routedTo_iff hmacs]
  constructor
  · rintro h ⟨hne, hdest, hall, hip, hmulti⟩
    have hpos : 0 < clients.length := List.length_pos_of_ne_nil hne
    rcases (h 0 hpos).mp (Or.inr ⟨hdest, Or.inr hmulti⟩) with ⟨client, hget, hmac⟩ | ⟨-, hmeant⟩
    · exact hdest client (List.mem_of_getElem? hget) hmac
    · rcases hmeant with hto | ⟨hip', -⟩
      · exact hall hto
      · exact hip hip'
  · intro h i hi
    apply or_congr_right
    apply and_congr_right
    intro hdest
    have hne : clients ≠ [] := List.ne_nil_of_length_pos (Nat.zero_lt_of_lt hi)
    -- a frame that is not meant for all has an address only by accident
    constructor
    · rintro (hto | hmulti)
      · exact Or.inl hto
      · by_cases hto : ToAll packet
        · exact Or.inl hto
        · have hip : IsIpv4 packet := by
            by_contra hip
            exact h ⟨hne, hdest, hto, hip, hmulti⟩
          exact Or.inr ⟨hip, hmulti⟩
    · rintro (hto | ⟨-, hmulti⟩)
      · exact Or.inl hto
      · exact Or.inr hmulti

/-- A client whose MAC address ends in `id`. -/
def clientWithMac (id : UInt64) : Client :=
  { Client.fresh id with mac := #v[2, 0, 0, 0, 0, id.toUInt8] }

/-- A frame of some EtherType for the MAC address that ends in `id`, with four bytes where an IPv4
frame has its destination address. -/
def frameTo (id : UInt8) (etherType : List UInt8) (dest : List UInt8) : Packet :=
  [2, 0, 0, 0, 0, id] ++ List.replicate 6 0 ++ etherType ++ List.replicate 16 0 ++ dest

/-- An IPv4 frame to 224.0.0.1 is offered to both clients. -/
theorem offered_iff_meantFor_ipv4 :
    ¬ TakenForMulticast [clientWithMac 1, clientWithMac 2]
      (frameTo 9 [0x08, 0x00] [224, 0, 0, 1]) ∧
    ∀ i < 2, (routedTo [clientWithMac 1, clientWithMac 2]
      (frameTo 9 [0x08, 0x00] [224, 0, 0, 1]) i = true ↔
        MeantFor [clientWithMac 1, clientWithMac 2]
          (frameTo 9 [0x08, 0x00] [224, 0, 0, 1]) i) := by
  have hmacs : ([clientWithMac 1, clientWithMac 2].map Client.mac).Nodup := by decide +kernel
  have hnot : ¬ TakenForMulticast [clientWithMac 1, clientWithMac 2]
      (frameTo 9 [0x08, 0x00] [224, 0, 0, 1]) := by
    rintro ⟨-, -, -, hip, -⟩
    exact hip ⟨rfl, rfl⟩
  exact ⟨hnot, (offered_iff_meantFor hmacs _).2.mpr hnot⟩

/-- An ARP frame for another host is offered to both clients. -/
theorem not_meantFor_arp :
    (copyRx [clientWithMac 1, clientWithMac 2] (frameTo 9 [0x08, 0x06] [224, 0, 0, 1])).any
      (fun clients => clients.map Client.pendingRxHead = [1, 1]) = true ∧
    ¬ ∀ i < 2, (routedTo [clientWithMac 1, clientWithMac 2]
      (frameTo 9 [0x08, 0x06] [224, 0, 0, 1]) i = true ↔
        MeantFor [clientWithMac 1, clientWithMac 2]
          (frameTo 9 [0x08, 0x06] [224, 0, 0, 1]) i) := by
  refine ⟨by decide +kernel, fun h => ?_⟩
  have hrouted : routedTo [clientWithMac 1, clientWithMac 2]
      (frameTo 9 [0x08, 0x06] [224, 0, 0, 1]) 0 = true := by
    decide +kernel
  have hdest : ∀ client ∈ [clientWithMac 1, clientWithMac 2],
      ¬ client.HasDest (frameTo 9 [0x08, 0x06] [224, 0, 0, 1]) := by
    decide +kernel
  have hall : ¬ ToAll (frameTo 9 [0x08, 0x06] [224, 0, 0, 1]) := by decide +kernel
  have harp : ¬ IsIpv4 (frameTo 9 [0x08, 0x06] [224, 0, 0, 1]) := by decide +kernel
  rcases (h 0 (by decide)).mp hrouted with ⟨client, hget, hmac⟩ | ⟨-, hto | ⟨hip, -⟩⟩
  · exact hdest client (List.mem_of_getElem? hget) hmac
  · exact hall hto
  · exact harp hip

end Camkes.EthdriverUboot
