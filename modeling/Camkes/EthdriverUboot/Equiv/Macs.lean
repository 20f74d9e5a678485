import Camkes.EthdriverUboot.Equiv.Classify
import Mathlib.Data.List.Perm.Basic

/-!
# The MAC addresses that `server_init` assigns

A client gets its configured MAC address, or the address of the hardware when it has none.
`server_init` reports equal addresses when it assigns that of the hardware a second time
(`report_mem_serverInit`); addresses that are configured it does not compare.  So a start without
the report leaves distinct addresses exactly when the configured ones are distinct, and differ from
that of the hardware where a client has it (`addressesUnique_iff`).
-/

namespace Camkes.EthdriverUboot

/-- The fatal report of `server_init` about equal addresses. -/
def sameMacReport : Effect := .zfLogf "Should not have 2 clients with the same MAC address"

/-- The configured addresses, client by client. -/
def configuredMacs (t : Template) : List Mac :=
  (t.badges.filter fun b => t.clientHasMac b.toUInt32).map fun b => t.clientGetMac b.toUInt32

/-- The number of clients without a configured address. -/
def numDefaults (t : Template) : ℕ := t.badges.countP fun b => !t.clientHasMac b.toUInt32

/-- If `server_init` completes without the report, then the addresses of the clients are pairwise
distinct, and a frame to the address of a client selects that client. -/
def AddressesUnique (t : Template) : Prop :=
  sameMacReport ∉ (serverInit t).2 →
    ((serverInit t).1.clients.map Client.mac).Nodup ∧
    ∀ i, ∀ client ∈ (serverInit t).1.clients[i]?, ∀ frame, client.HasDest frame →
      detectClient (serverInit t).1.clients frame = some i

/-! ### The second loop of `server_init` -/

variable {t : Template}

/-- The address for a client. -/
def macFor (t : Template) (badge : UInt64) : Mac :=
  if t.clientHasMac badge.toUInt32 then t.clientGetMac badge.toUInt32 else t.ubootEthGetEthaddr

theorem assignMacs_macs (t : Template) (clients : List Client) (n : ℕ) :
    (assignMacs t clients n).1.map Client.mac = clients.map fun c => macFor t c.clientId := by
  induction clients generalizing n with
  | nil => rfl
  | cons client clients ih =>
    rw [assignMacs, List.map_cons, macFor]
    split_ifs
    · exact congrArg (_ :: ·) (ih n)
    · exact congrArg (_ :: ·) (ih (n + 1))
    · exact congrArg (_ :: ·) (ih (n + 1))

/-- The report is made for each client without a configured address but the first. -/
theorem report_mem_assignMacs (t : Template) (clients : List Client) (n : ℕ) :
    sameMacReport ∈ (assignMacs t clients n).2 ↔
      0 < clients.countP (fun c => !t.clientHasMac c.clientId.toUInt32) ∧
        1 < n + clients.countP fun c => !t.clientHasMac c.clientId.toUInt32 := by
  induction clients generalizing n with
  | nil => exact iff_of_false List.not_mem_nil fun h => Nat.lt_irrefl 0 h.1
  | cons client clients ih =>
    rw [assignMacs]
    by_cases hmac : t.clientHasMac client.clientId.toUInt32 = true
    · have hcount : (client :: clients).countP (fun c => !t.clientHasMac c.clientId.toUInt32) =
          clients.countP fun c => !t.clientHasMac c.clientId.toUInt32 :=
        List.countP_cons_of_neg (by simp [hmac])
      rw [hcount]
      simp only [hmac, if_true]
      exact ih n
    · have hcount : (client :: clients).countP (fun c => !t.clientHasMac c.clientId.toUInt32) =
          clients.countP (fun c => !t.clientHasMac c.clientId.toUInt32) + 1 :=
        List.countP_cons_of_pos (by simp [hmac])
      rw [hcount]
      simp only [hmac, Bool.false_eq_true, if_false]
      by_cases hn : n + 1 > 1
      · rw [if_pos hn]
        refine iff_of_true List.mem_cons_self ?_
        omega
      · rw [if_neg hn, ih]
        omega

/-! ### `server_init` -/

theorem serverInit_macs (t : Template) :
    (serverInit t).1.clients.map Client.mac = t.badges.map (macFor t) := by
  apply (assignMacs_macs t _ 0).trans
  rw [List.map_map]
  rfl

/-- The report is made when there are two clients without a configured address. -/
theorem report_mem_serverInit : sameMacReport ∈ (serverInit t).2 ↔ 1 < numDefaults t := by
  have hcount : (t.badges.map Client.fresh).countP
      (fun c => !t.clientHasMac c.clientId.toUInt32) = numDefaults t := by
    rw [List.countP_map]
    rfl
  have hassign := report_mem_assignMacs t (t.badges.map Client.fresh) 0
  rw [hcount] at hassign
  have hother : sameMacReport ∈ (serverInit t).2 ↔
      sameMacReport ∈ (assignMacs t (t.badges.map Client.fresh) 0).2 := by
    simp only [serverInit, List.mem_append, List.mem_map, sameMacReport, reduceCtorEq, and_false,
      exists_false, or_false]
    refine or_iff_right ?_
    split_ifs <;> simp
  rw [hother, hassign]
  omega

/-- A list of which some entries are replaced by `c`, sorted by whether they are. -/
theorem map_ite_perm {α β : Type*} (p : α → Bool) (f : α → β) (c : β) (l : List α) :
    (l.map fun a => if p a then f a else c).Perm
      ((l.filter p).map f ++ List.replicate (l.countP fun a => !p a) c) := by
  have hperm := ((List.filter_append_perm p l).map fun a => if p a then f a else c).symm
  have hpos : (l.filter p).map (fun a => if p a then f a else c) = (l.filter p).map f :=
    List.map_congr_left fun a ha => if_pos (List.mem_filter.mp ha).2
  have hneg : (l.filter fun a => !p a).map (fun a => if p a then f a else c) =
      List.replicate (l.countP fun a => !p a) c := by
    rw [List.countP_eq_length_filter, ← List.map_const]
    apply List.map_congr_left
    intro a ha
    have hp := (List.mem_filter.mp ha).2
    exact if_neg (by simpa using hp)
  rwa [List.map_append, hpos, hneg] at hperm

/-- When the addresses of the clients are distinct. -/
theorem nodup_macs_iff : ((serverInit t).1.clients.map Client.mac).Nodup ↔
    (configuredMacs t).Nodup ∧ numDefaults t ≤ 1 ∧
      (0 < numDefaults t → t.ubootEthGetEthaddr ∉ configuredMacs t) := by
  have hperm := map_ite_perm (fun b => t.clientHasMac b.toUInt32)
    (fun b => t.clientGetMac b.toUInt32) t.ubootEthGetEthaddr t.badges
  rw [serverInit_macs]
  refine (List.Perm.nodup_iff hperm).trans ?_
  rw [List.nodup_append, List.nodup_replicate]
  apply and_congr_right
  intro _
  apply and_congr_right
  intro _
  constructor
  · intro h hpos hmem
    exact h _ hmem _ (List.mem_replicate.mpr ⟨Nat.pos_iff_ne_zero.mp hpos, rfl⟩) rfl
  · rintro h a ha b hb rfl
    obtain ⟨hne, rfl⟩ := List.mem_replicate.mp hb
    exact h (Nat.pos_of_ne_zero hne) ha

/-- **Address uniqueness**: a start without the report leaves distinct addresses exactly when the
report is made, or the configured addresses are distinct and none of them is that of the hardware if
a client has that one. -/
theorem addressesUnique_iff (t : Template) :
    AddressesUnique t ↔ 1 < numDefaults t ∨
      (configuredMacs t).Nodup ∧ (0 < numDefaults t → t.ubootEthGetEthaddr ∉ configuredMacs t) := by
  unfold AddressesUnique
  rw [report_mem_serverInit]
  by_cases hreport : 1 < numDefaults t
  · exact iff_of_true (fun hno => absurd hreport hno) (Or.inl hreport)
  · have hle : numDefaults t ≤ 1 := by omega
    constructor
    · intro h
      obtain ⟨hnodup, -, hhw⟩ := nodup_macs_iff.mp (h hreport).1
      exact Or.inr ⟨hnodup, hhw⟩
    · rintro (h | ⟨hnodup, hhw⟩) _
      · exact absurd h hreport
      · have hmacs := nodup_macs_iff.mpr ⟨hnodup, hle, hhw⟩
        exact ⟨hmacs, fun i client hget frame hdest =>
          (detectClient_eq_some hmacs).mpr ⟨client, hget, hdest⟩⟩

/-- Two clients that are configured with one address. -/
def withOneMac : Template where
  badges := [1, 2]
  clientHasMac _ := true
  clientGetMac _ := #v[2, 0, 0, 0, 0, 1]
  initialiseUbootDrivers := 0
  ubootEthInit := 0
  ubootEthGetEthaddr := Vector.replicate 6 0

/-- `server_init` makes no report, and no frame selects the second client. -/
theorem not_addressesUnique_withOneMac :
    sameMacReport ∉ (serverInit withOneMac).2 ∧
    ((serverInit withOneMac).1.clients.map Client.mac) =
      [#v[2, 0, 0, 0, 0, 1], #v[2, 0, 0, 0, 0, 1]] ∧
    detectClient (serverInit withOneMac).1.clients [2, 0, 0, 0, 0, 1] = some 0 ∧
    ¬ AddressesUnique withOneMac := by
  have hreport : sameMacReport ∉ (serverInit withOneMac).2 := by decide +kernel
  have hmacs : ¬ ((serverInit withOneMac).1.clients.map Client.mac).Nodup := by decide +kernel
  exact ⟨hreport, by decide +kernel, by decide +kernel, fun h => hmacs (h hreport).1⟩

end Camkes.EthdriverUboot
