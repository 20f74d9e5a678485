import Camkes.Multiclient.Basic

/-!
# The steps of `multiclient`
-/

namespace Camkes.Multiclient

variable {n : ℕ} {s s' : State n} {c d : Fin n} {e : Event n}

theorem zero_notMem_str : (0 : UInt8) ∉ str := by decide

/-- The NUL is behind the string, and nowhere else. -/
theorem strz_getElem?_eq_zero_iff {i : ℕ} : strz[i]? = some 0 ↔ i = str.length := by
  rw [strz, List.getElem?_append]
  split_ifs with hi
  · refine iff_of_false (fun h => ?_) (Nat.ne_of_lt hi)
    exact zero_notMem_str (List.mem_of_getElem? h)
  · rw [List.getElem?_singleton]
    split_ifs with h
    · exact iff_of_true rfl (by omega)
    · exact iff_of_false (fun h => by cases h) (by omega)

theorem length_strz : strz.length = str.length + 1 := List.length_append

theorem lt_length_str {i : ℕ} {b : UInt8} (hb : strz[i]? = some b) (hne : b ≠ 0) :
    i < str.length := by
  have hlt := (List.getElem?_eq_some_iff.mp hb).1
  rw [length_strz] at hlt
  refine Nat.lt_of_le_of_ne (Nat.le_of_lt_succ hlt) fun heq => hne ?_
  rw [strz_getElem?_eq_zero_iff.mpr heq] at hb
  exact (Option.some.inj hb).symm

/-- The byte behind a part of the string. -/
theorem append_prefix_str {out : List UInt8} {b : UInt8} (hout : out <+: str)
    (hb : strz[out.length]? = some b) (hne : b ≠ 0) : out ++ [b] <+: str := by
  have hlt := lt_length_str hb hne
  rw [strz, List.getElem?_append_left hlt] at hb
  obtain ⟨r, hr⟩ := hout
  rw [← hr, List.getElem?_append_right (Nat.le_refl _), Nat.sub_self] at hb
  cases r with
  | nil => cases hb
  | cons x r =>
    obtain rfl : x = b := Option.some.inj hb
    exact ⟨r, by rw [← hr, List.append_assoc, List.singleton_append]⟩

theorem eq_str {out : List UInt8} (hout : out <+: str) (hb : strz[out.length]? = some 0) :
    out = str :=
  hout.eq_of_length (strz_getElem?_eq_zero_iff.mp hb)

/-! ### Steps -/

@[simp] theorem goto_client (s : State n) (c d : Fin n) (p : ClientAt) :
    (s.goto c p).client d = if d = c then p else s.client d :=
  Function.update_apply ..

/-- What a component does. -/
inductive Step (s : State n) : Event n → State n → Prop
  | register {c : Fin n} (hc : s.client c = .register) : Step s (.client c) (s.goto c .call)
  | call {c : Fin n} (hc : s.client c = .call) : Step s (.client c) (s.goto c .called)
  | printInt {c : Fin n} {j : ℕ} (hc : s.client c = .printInt j) :
      Step s (.client c) (s.goto c (.print j []))
  | print {c : Fin n} {j : ℕ} {out : List UInt8} {b : UInt8} (hc : s.client c = .print j out)
      (hb : s.data[out.length]? = some b) (hne : b ≠ 0) :
      Step s (.client c) (s.goto c (.print j (out ++ [b])))
  | finish {c : Fin n} {j : ℕ} {out : List UInt8} (hc : s.client c = .print j out)
      (hb : s.data[out.length]? = some 0) : Step s (.client c) (s.goto c (.done j out))
  | callback {c : Fin n} (hc : s.client c ≠ .register) (hpending : s.pending c = true) :
      Step s (.callback c) { s with
        pending := Function.update s.pending c false
        received := Function.update s.received c (s.received c + 1) }
  | serve {c : Fin n} (hs : s.server = .idle) (hc : s.client c = .called) :
      Step s (.serve c) { s.goto c .served with server := .copy c 0 }
  | copy {c : Fin n} {i : ℕ} {b : UInt8} (hs : s.server = .copy c i) (hb : strz[i]? = some b)
      (hi : i < bufSize) (hne : b ≠ 0) :
      Step s .server { s with data := s.data.set i b hi, server := .copy c (i + 1) }
  | terminate {c : Fin n} {i : ℕ} (hs : s.server = .copy c i) (hb : strz[i]? = some 0)
      (hi : i < bufSize) :
      Step s .server { s with data := s.data.set i 0 hi, server := .emit c }
  | emit {c : Fin n} (hs : s.server = .emit c) :
      Step s .server { s with pending := fun _ => true, server := .ret c }
  | ret {c : Fin n} (hs : s.server = .ret c) :
      Step s .server
        { s.goto c (.printInt s.count) with count := s.count + 1, server := .idle }

/-- What a step of a client can do. -/
theorem step_of_clientStep (hok : s.ok (.client c)) (h : s.clientStep c = some s') :
    Step s (.client c) s' := by
  rw [State.clientStep] at h
  rw [State.ok] at hok
  cases hc : s.client c with
  | register =>
    simp only [hc] at h
    rw [← Option.some.inj h]
    exact .register hc
  | call =>
    simp only [hc] at h
    rw [← Option.some.inj h]
    exact .call hc
  | printInt j =>
    simp only [hc] at h
    rw [← Option.some.inj h]
    exact .printInt hc
  | print j out =>
    simp only [hc] at h
    obtain ⟨b, hb, hs'⟩ := Option.bind_eq_some_iff.mp h
    rw [← Option.some.inj hs']
    by_cases hzero : b = 0
    · rw [if_pos hzero]
      exact .finish hc (hzero ▸ hb)
    · rw [if_neg hzero]
      exact .print hc hb hzero
  | _ => simp only [hc] at hok

/-- What a step of the server can do. -/
theorem step_of_serverStep (hok : s.server ≠ .idle) (h : s.serverStep = some s') :
    Step s .server s' := by
  rw [State.serverStep] at h
  cases hs : s.server with
  | idle => exact absurd hs hok
  | copy c i =>
    simp only [hs] at h
    obtain ⟨b, hb, hrest⟩ := Option.bind_eq_some_iff.mp h
    obtain ⟨data, hdata, hs'⟩ := Option.bind_eq_some_iff.mp hrest
    rw [← Option.some.inj hs']
    rw [CArray.store] at hdata
    split_ifs at hdata with hi
    rw [← Option.some.inj hdata]
    by_cases hzero : b = 0
    · rw [if_pos hzero, hzero]
      exact .terminate hs (hzero ▸ hb) hi
    · rw [if_neg hzero]
      exact .copy hs hb hi hzero
  | emit c =>
    simp only [hs] at h
    rw [← Option.some.inj h]
    exact .emit hs
  | ret c =>
    simp only [hs] at h
    rw [← Option.some.inj h]
    exact .ret hs

/-- What a step of the machine can do. -/
theorem step_of_machine (hok : (machine n).ok s e) (h : (machine n).step s e = some s') :
    Step s e s' := by
  cases e with
  | client c => exact step_of_clientStep hok h
  | callback c =>
    rw [← Option.some.inj h]
    exact .callback hok.1 hok.2
  | serve c =>
    rw [← Option.some.inj h]
    exact .serve hok.1 hok.2
  | server => exact step_of_serverStep hok h

end Camkes.Multiclient
