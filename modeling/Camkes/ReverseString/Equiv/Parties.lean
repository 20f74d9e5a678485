import Camkes.Machine.Threads
import Camkes.ReverseString.Basic

/-!
# One party goes on while the other waits
-/

namespace Camkes.ReverseString

open Threads

variable {ι β ο α : Type} {c s : Prog ι β ο α}

@[simp] theorem update_client (c c' s : Prog ι β ο α) :
    Function.update (both c s) .client c' = both c' s := by
  ext p
  cases p with
  | client => rw [Function.update_self, both]
  | server => rw [Function.update_of_ne (by decide), both, both]

@[simp] theorem update_server (c s s' : Prog ι β ο α) :
    Function.update (both c s) .server s' = both c s' := by
  ext p
  cases p with
  | client => rw [Function.update_of_ne (by decide), both, both]
  | server => rw [Function.update_self, both]

/-- A state of the two. -/
abbrev stateOf (m : ι → β) (c s : Prog ι β ο α) (log : List (Party × Access ι β ο)) :
    State Party ι β ο α where
  mem := m
  rest := both c s
  log := log

/-- A program that waits for a cell. -/
theorem forall_waitsFor {p : Prog ι β ο α} {effs : List (Access ι β ο)} {cell : ι}
    (hp : p.waitsFor = some cell) (h : ∀ a ∈ effs, a.written ≠ some cell) :
    ∀ i ∈ p.waitsFor, ∀ a ∈ effs, a.written ≠ some i := by
  intro i hi
  rw [hp] at hi
  obtain rfl := Option.some.inj hi
  exact h

section Paths

variable [DecidableEq ι] {loop : Party → Option (Prog ι β ο α)} {γ : Type} {p : Prog ι β ο γ}
  {f : γ → Prog ι β ο α} {a : γ} {k : Prog ι β ο α} {m m' : ι → β} {i : ι} {v : β}
  {effs : List (Access ι β ο)}

/-- What holds of the server holds of all but the client. -/
theorem forall_ne_client {P : Party → Prop} (h : P .server) : ∀ p ≠ Party.client, P p := by
  intro p hp
  cases p with
  | client => exact absurd rfl hp
  | server => exact h

theorem forall_ne_server {P : Party → Prop} (h : P .client) : ∀ p ≠ Party.server, P p := by
  intro p hp
  cases p with
  | client => exact h
  | server => exact absurd rfl hp

/-- The client runs a program while the server waits. -/
theorem path_client (hstart : c = resume (loop .client) (p >>= f)) (hexec : Executes p m a m' effs)
    (hpark : s.next m = none) (hcells : ∀ i ∈ s.waitsFor, ∀ e ∈ effs, e.written ≠ some i)
    (log : List (Party × Access ι β ο)) :
    ∃ more, effects more = effs ∧ Path loop (stateOf m c s log)
      (stateOf m' (resume (loop .client) (f a)) s (log ++ more.map (.client, ·))) := by
  obtain ⟨more, hmore, hpath⟩ := path_executes (s := stateOf m c s log) (t := Party.client) hstart
    hexec (forall_ne_client hpark) (forall_ne_client hcells)
  rw [update_client] at hpath
  exact ⟨more, hmore, hpath⟩

/-- The server runs a program while the client waits. -/
theorem path_server (hstart : s = resume (loop .server) (p >>= f)) (hexec : Executes p m a m' effs)
    (hpark : c.next m = none) (hcells : ∀ i ∈ c.waitsFor, ∀ e ∈ effs, e.written ≠ some i)
    (log : List (Party × Access ι β ο)) :
    ∃ more, effects more = effs ∧ Path loop (stateOf m c s log)
      (stateOf m' c (resume (loop .server) (f a)) (log ++ more.map (.server, ·))) := by
  obtain ⟨more, hmore, hpath⟩ := path_executes (s := stateOf m c s log) (t := Party.server) hstart
    hexec (forall_ne_server hpark) (forall_ne_server hcells)
  rw [update_server] at hpath
  exact ⟨more, hmore, hpath⟩

/-- A write of the client, which may wake up the server. -/
theorem path_client_write (loop : Party → Option (Prog ι β ο α)) (hpark : s.next m = none)
    (log : List (Party × Access ι β ο)) :
    Path loop (stateOf m (.write i v k) s log)
      (stateOf (Function.update m i v) (resume (loop .client) k) s
        (log ++ [(.client, .write i v)])) := by
  have hpath := path_write loop (s := stateOf m (.write i v k) s log) (t := Party.client) rfl
    (forall_ne_client hpark)
  rwa [State.advance, update_client] at hpath

/-- A write of the server, which may wake up the client. -/
theorem path_server_write (loop : Party → Option (Prog ι β ο α)) (hpark : c.next m = none)
    (log : List (Party × Access ι β ο)) :
    Path loop (stateOf m c (.write i v k) log)
      (stateOf (Function.update m i v) c (resume (loop .server) k)
        (log ++ [(.server, .write i v)])) := by
  have hpath := path_write loop (s := stateOf m c (.write i v k) log) (t := Party.server) rfl
    (forall_ne_server hpark)
  rwa [State.advance, update_server] at hpath

end Paths

end Camkes.ReverseString
