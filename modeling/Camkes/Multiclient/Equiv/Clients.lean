import Camkes.Machine.Locking
import Camkes.Machine.Progress
import Camkes.Multiclient.Equiv.Steps
import Mathlib.Algebra.BigOperators.Fin
import Mathlib.Algebra.Order.BigOperators.Group.Finset

/-!
# What the clients of `multiclient` print

The string that the server copies is always the same.  So once it has been copied, the dataport
contains it for ever, also while the server copies it again (`Inv.data`).
-/

namespace Camkes.Multiclient

variable {n : ℕ} {s s' : State n} {c d : Fin n} {e : Event n} {data : Vector UInt8 bufSize}
  {ts : List (Transition (State n) (Event n))}

/-! ### Numbered replies -/

/-- The numbers are below `k` and different. -/
structure Numbered (number : Fin n → Option ℕ) (k : ℕ) : Prop where
  lt : ∀ c j, number c = some j → j < k
  inj : ∀ c d j, number c = some j → number d = some j → c = d

/-- The next number goes to one more client. -/
theorem Numbered.update {number : Fin n → Option ℕ} {k : ℕ} (h : Numbered number k) (c : Fin n) :
    Numbered (Function.update number c (some k)) (k + 1) where
  lt d j hd := by
    rw [Function.update_apply] at hd
    split_ifs at hd
    · rw [← Option.some.inj hd]
      exact Nat.lt_succ_self k
    · exact Nat.lt_succ_of_lt (h.lt d j hd)
  inj d d' j hd hd' := by
    rw [Function.update_apply] at hd hd'
    split_ifs at hd hd' with hc hc' hc'
    · rw [hc, hc']
    · obtain rfl := Option.some.inj hd
      exact absurd (h.lt d' _ hd') (lt_irrefl _)
    · obtain rfl := Option.some.inj hd'
      exact absurd (h.lt d _ hd) (lt_irrefl _)
    · exact h.inj d d' j hd hd'

/-! ### The invariant -/

/-- The client that is served. -/
def ServerAt.current : ServerAt n → Option (Fin n)
  | idle => none
  | copy c _ | emit c | ret c => some c

/-- What the server has copied. -/
def ServerAt.copied : ServerAt n → List UInt8
  | idle => []
  | copy _ i => strz.take i
  | emit _ | ret _ => strz

/-- The server is within the string. -/
def ServerAt.inBounds : ServerAt n → Prop
  | copy _ i => i ≤ str.length
  | _ => True

def ClientAt.isServed : ClientAt → Bool
  | served => true
  | _ => false

/-- The reply of the server. -/
def ClientAt.reply : ClientAt → Option ℕ
  | printInt j | print j _ | done j _ => some j
  | _ => none

/-- The client is not before the service. -/
def ClientAt.begun : ClientAt → ℕ
  | register | call | called => 0
  | _ => 1

/-- What a client has read is the beginning of the string. -/
def ClientAt.readsStr : ClientAt → Prop
  | print _ out => out <+: str
  | done _ text => text = str
  | _ => True

/-- What the server has copied is in the dataport, where the whole string stays after the first
call; one client is served at a time, and the replies are numbered by the calls. -/
structure Inv (s : State n) : Prop where
  copied : s.server.copied <+: s.data.toList
  data : 0 < s.count → strz <+: s.data.toList
  inBounds : s.server.inBounds
  guards : Locking.Guards s.server.current fun c => (s.client c).isServed
  reads : ∀ c, (s.client c).readsStr
  numbered : Numbered (fun c => (s.client c).reply) s.count
  begun : ∑ c, (s.client c).begun = s.count + s.server.current.toList.length

theorem inv_init (n : ℕ) (data : Vector UInt8 bufSize) : Inv (.init n data) where
  copied := List.nil_prefix
  data h := absurd h (lt_irrefl _)
  inBounds := trivial
  guards _ := iff_of_false (fun h => by cases h) Bool.false_ne_true
  reads _ := trivial
  numbered := ⟨fun _ _ h => (by cases h), fun _ _ _ h => (by cases h)⟩
  begun := by
    show ∑ _ : Fin n, 0 = 0
    exact Finset.sum_const_zero

namespace Inv

variable (h : Inv s)
include h

/-- The server has answered each client at most once. -/
theorem count_le : s.count ≤ n := by
  have hsum : ∑ c, (s.client c).begun ≤ ∑ _ : Fin n, 1 := by
    refine Finset.sum_le_sum fun c _ => ?_
    cases s.client c <;> simp [ClientAt.begun]
  have hbegun := h.begun
  rw [Finset.sum_const, Finset.card_univ, Fintype.card_fin, smul_eq_mul, mul_one] at hsum
  omega

/-- A client that has its reply finds the string. -/
theorem data_of_reply {j : ℕ} (hc : (s.client c).reply = some j) : strz <+: s.data.toList :=
  h.data (Nat.zero_lt_of_lt (h.numbered.lt c j hc))

/-- A client goes on by itself. -/
theorem goto {p : ClientAt} (hserved : p.isServed = (s.client c).isServed)
    (hreply : p.reply = (s.client c).reply) (hbegun : p.begun = (s.client c).begun)
    (hreads : p.readsStr) : Inv (s.goto c p) where
  copied := h.copied
  data := h.data
  inBounds := h.inBounds
  guards := by
    have heq : (fun d => ((s.goto c p).client d).isServed) = fun d => (s.client d).isServed := by
      ext d
      rw [goto_client]
      split_ifs with hd
      · rw [hd, hserved]
      · rfl
    rw [heq]
    exact h.guards
  reads d := by
    rw [goto_client]
    split_ifs
    · exact hreads
    · exact h.reads d
  numbered := by
    have heq : (fun d => ((s.goto c p).client d).reply) = fun d => (s.client d).reply := by
      ext1 d
      rw [goto_client]
      split_ifs with hd
      · rw [hd, hreply]
      · rfl
    rw [heq]
    exact h.numbered
  begun := by
    have hsum := Machine.sum_update ClientAt.begun s.client c p
    have hbegun' := h.begun
    show ∑ d, (Function.update s.client c p d).begun = s.count + s.server.current.toList.length
    omega

/-- Receiving the call of a client keeps the invariant. -/
theorem serve (hs : s.server = .idle) (hc : s.client c = .called) :
    Inv { s.goto c .served with server := .copy c 0 } where
  copied := List.nil_prefix
  data := h.data
  inBounds := Nat.zero_le _
  guards := by
    refine h.guards.move (t := c) (fun d hd => ?_) (.lock ?_ rfl ?_)
    · simp [hd]
    · rw [hs]
      rfl
    · simp [ClientAt.isServed]
  reads d := by
    rw [goto_client]
    split_ifs
    · trivial
    · exact h.reads d
  numbered := by
    have heq : (fun d => ((s.goto c .served).client d).reply) = fun d => (s.client d).reply := by
      ext1 d
      rw [goto_client]
      split_ifs with hd
      · rw [hd, hc]
        rfl
      · rfl
    show Numbered (fun d => ((s.goto c .served).client d).reply) s.count
    rw [heq]
    exact h.numbered
  begun := by
    have hsum : ∑ d, (Function.update s.client c .served d).begun + (s.client c).begun =
        ∑ d, (s.client d).begun + 1 := Machine.sum_update ClientAt.begun s.client c .served
    have hbegun := h.begun
    have hnone : s.server.current.toList.length = 0 := by
      rw [hs]
      rfl
    have hzero : (s.client c).begun = 0 := by
      rw [hc]
      rfl
    show ∑ d, (Function.update s.client c .served d).begun = s.count + 1
    omega

/-- The server copies a byte. -/
theorem copied_set {i : ℕ} {b : UInt8} (hs : s.server = .copy c i) (hb : strz[i]? = some b)
    (hi : i < bufSize) :
    strz.take (i + 1) <+: (s.data.set i b hi).toList ∧
      (0 < s.count → strz <+: (s.data.set i b hi).toList) := by
  have hlt : i < strz.length := (List.getElem?_eq_some_iff.mp hb).1
  have hcopied : strz.take i <+: s.data.toList := by
    have hcopied := h.copied
    rwa [hs] at hcopied
  have hlen : (strz.take i).length = i := List.length_take_of_le hlt.le
  constructor
  · have hset := CArray.append_prefix_set hcopied (by rwa [hlen]) b
    rw [List.take_add_one, hb]
    simp only [hlen] at hset
    exact hset
  · intro hcount
    rw [CArray.set_eq_self (h.data hcount) hb]
    exact h.data hcount

/-- Returning to the client gives it a number that nobody has. -/
theorem ret (hs : s.server = .ret c) :
    Inv { s.goto c (.printInt s.count) with count := s.count + 1, server := .idle } where
  copied := List.nil_prefix
  data _ := by
    have hcopied := h.copied
    rwa [hs] at hcopied
  inBounds := trivial
  guards := by
    refine h.guards.move (t := c) (fun d hd => ?_) (.unlock ?_ rfl ?_)
    · simp [hd]
    · rw [← h.guards c, hs]
      rfl
    · simp [ClientAt.isServed]
  reads d := by
    rw [goto_client]
    split_ifs
    · trivial
    · exact h.reads d
  numbered := by
    have heq : (fun d => ((s.goto c (.printInt s.count)).client d).reply) =
        Function.update (fun d => (s.client d).reply) c (some s.count) := by
      ext1 d
      rw [goto_client, Function.update_apply]
      split_ifs
      · rfl
      · rfl
    show Numbered (fun d => ((s.goto c (.printInt s.count)).client d).reply) (s.count + 1)
    rw [heq]
    exact h.numbered.update c
  begun := by
    have hserved : (s.client c).isServed = true := by
      rw [← h.guards c, hs]
      rfl
    have hsum : ∑ d, (Function.update s.client c (.printInt s.count) d).begun +
        (s.client c).begun = ∑ d, (s.client d).begun + 1 :=
      Machine.sum_update ClientAt.begun s.client c (.printInt s.count)
    have hbegun := h.begun
    have hsome : s.server.current.toList.length = 1 := by
      rw [hs]
      rfl
    have hone : (s.client c).begun = 1 := by
      cases hc : s.client c <;> simp_all [ClientAt.isServed, ClientAt.begun]
    show ∑ d, (Function.update s.client c (.printInt s.count) d).begun = s.count + 1
    omega

/-- A client that reads is within the string. -/
theorem prefix_of_print {j : ℕ} {out : List UInt8} (hc : s.client c = .print j out) :
    out <+: str := by
  have hreads := h.reads c
  rwa [hc] at hreads

/-- The byte that a client reads is the next one of the string. -/
theorem exists_strz {j : ℕ} {out : List UInt8} (hc : s.client c = .print j out) :
    ∃ b, strz[out.length]? = some b ∧ s.data[out.length]? = some b := by
  have hle := (h.prefix_of_print hc).length_le
  obtain ⟨r, hr⟩ := h.data_of_reply (c := c) (by rw [hc]; rfl)
  have hlt : out.length < strz.length := by
    rw [length_strz]
    omega
  refine ⟨_, List.getElem?_eq_getElem hlt, ?_⟩
  rw [← Vector.getElem?_toList, ← hr, List.getElem?_append_left hlt, List.getElem?_eq_getElem hlt]

theorem strz_of_data {j : ℕ} {out : List UInt8} {b : UInt8} (hc : s.client c = .print j out)
    (hb : s.data[out.length]? = some b) : strz[out.length]? = some b := by
  obtain ⟨b', hstr, hb'⟩ := h.exists_strz hc
  rw [hb] at hb'
  obtain rfl := Option.some.inj hb'
  exact hstr

/-- Every step keeps the invariant. -/
theorem step (hs : Step s e s') : Inv s' := by
  cases hs with
  | @register c hc =>
    exact h.goto (p := .call) (by rw [hc]; rfl) (by rw [hc]; rfl) (by rw [hc]; rfl) trivial
  | @call c hc =>
    exact h.goto (p := .called) (by rw [hc]; rfl) (by rw [hc]; rfl) (by rw [hc]; rfl) trivial
  | @printInt c j hc =>
    exact h.goto (p := .print j []) (by rw [hc]; rfl) (by rw [hc]; rfl) (by rw [hc]; rfl)
      List.nil_prefix
  | @print c j out b hc hb hne =>
    exact h.goto (p := .print j (out ++ [b])) (by rw [hc]; rfl) (by rw [hc]; rfl)
      (by rw [hc]; rfl) (append_prefix_str (h.prefix_of_print hc) (h.strz_of_data hc hb) hne)
  | @finish c j out hc hb =>
    exact h.goto (p := .done j out) (by rw [hc]; rfl) (by rw [hc]; rfl) (by rw [hc]; rfl)
      (eq_str (h.prefix_of_print hc) (h.strz_of_data hc hb))
  | callback => exact ⟨h.copied, h.data, h.inBounds, h.guards, h.reads, h.numbered, h.begun⟩
  | serve hs hc => exact h.serve hs hc
  | @copy c i b hs hb hi hne =>
    obtain ⟨hcopied, hdata⟩ := h.copied_set hs hb hi
    have hguards := h.guards
    have hbegun := h.begun
    rw [hs] at hguards hbegun
    exact ⟨hcopied, hdata, lt_length_str hb hne, hguards, h.reads, h.numbered, hbegun⟩
  | @terminate c i hs hb hi =>
    obtain ⟨hcopied, hdata⟩ := h.copied_set hs hb hi
    have hguards := h.guards
    have hbegun := h.begun
    rw [hs] at hguards hbegun
    have htake : strz.take (i + 1) = strz := by
      rw [strz_getElem?_eq_zero_iff.mp hb, ← length_strz, List.take_length]
    rw [htake] at hcopied
    exact ⟨hcopied, hdata, trivial, hguards, h.reads, h.numbered, hbegun⟩
  | emit hs =>
    have hcopied := h.copied
    have hguards := h.guards
    have hbegun := h.begun
    rw [hs] at hcopied hguards hbegun
    exact ⟨hcopied, h.data, trivial, hguards, h.reads, h.numbered, hbegun⟩
  | ret hs => exact h.ret hs

end Inv

/-- The invariant holds in every reachable state. -/
theorem inv_of_run (hrun : (machine n).Run (.init n data) ts s) : Inv s :=
  hrun.invariant (inv_init n data) fun _ _ _ h hok hstep => h.step (step_of_machine hok hstep)

/-- No access is out of bounds. -/
theorem Inv.isSome_step (h : Inv s) (e : Event n) : (s.step e).isSome := by
  cases e with
  | client c =>
    show (s.clientStep c).isSome
    rw [State.clientStep]
    cases hc : s.client c with
    | print j out =>
      obtain ⟨b, -, hb⟩ := h.exists_strz hc
      simp [hb]
    | _ => rfl
  | server =>
    show s.serverStep.isSome
    rw [State.serverStep]
    cases hs : s.server with
    | copy c i =>
      have hle : i ≤ str.length := by
        have hbounds := h.inBounds
        rwa [hs] at hbounds
      have hlt : i < strz.length := by
        rw [length_strz]
        omega
      have hbuf : str.length < bufSize := by decide
      simp [List.getElem?_eq_getElem hlt, CArray.store_of_lt _ (hle.trans_lt hbuf)]
    | _ => rfl
  | _ => rfl

end Camkes.Multiclient
