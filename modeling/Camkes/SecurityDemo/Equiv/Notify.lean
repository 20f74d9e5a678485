import Camkes.SecurityDemo.Equiv.Dataport
import Camkes.SecurityDemo.Notify

/-!
# No character is left in the dataport unattended

A section of Crypto is followed by an emit, which leaves the notification set until a poll clears
it, and after that poll the Transmitter empties the buffer.  So a buffer that is not empty is
attended by one of the three.
-/

namespace Camkes.SecurityDemo

open Machine

/-- There is a character in the buffer exactly if its indices differ. -/
theorem contents_ne_nil_iff (buf : DataportBuffer) : buf.contents ≠ [] ↔ buf.head ≠ buf.tail := by
  have hiff := Ring.contents_eq_nil_iff buf.data buf.head.toNat_lt buf.tail.toNat_lt
  rw [UInt8.toNat_inj] at hiff
  exact hiff.not

/-- A critical section of the Transmitter empties the buffer. -/
theorem head_eq_tail_receiveLoop (t : Transmitter) (buf : DataportBuffer) :
    (receiveLoop t buf).2.1.head = (receiveLoop t buf).2.1.tail := by
  induction t, buf using receiveLoop.induct with
  | case1 t buf hempty =>
    rw [receiveLoop, if_pos hempty]
    exact hempty
  | case2 t buf hempty c =>
    rename_i ih
    rw [receiveLoop, if_neg hempty]
    exact ih

/-- A buffer that is not empty is attended. -/
def NotifyInv (s : NotifySystem) : Prop := s.buf.head ≠ s.buf.tail → s.Attended

/-- No step leaves a character unattended. -/
theorem NotifyInv.of_step {s s' : NotifySystem} {e : NotifyEvent} (h : NotifyInv s)
    (hstep : notifyMachine.step s e = some s') : NotifyInv s' := by
  cases e with
  | submit c =>
    obtain rfl := Option.some.inj hstep
    exact fun _ => Or.inr (Or.inl rfl)
  | emit =>
    obtain rfl := Option.some.inj hstep
    exact fun _ => Or.inl rfl
  | poll =>
    -- a poll that finds nothing leaves the buffer to Crypto
    change (if s.notify then some { s with notify := false, transmitterAt := .beforeReceive }
      else some s) = some s' at hstep
    split_ifs at hstep with hnotify
    · obtain rfl := Option.some.inj hstep
      exact fun _ => Or.inr (Or.inr rfl)
    · obtain rfl := Option.some.inj hstep
      exact h
  | receive =>
    obtain rfl := Option.some.inj hstep
    intro hne
    exact absurd (head_eq_tail_receiveLoop s.transmitter s.buf) hne

/-- **No character is stranded**: in every reachable state, if the buffer is not empty then the
notification is set, or Crypto is about to emit it, or the Transmitter is about to empty the
buffer. -/
theorem never_stranded {ts : List (Transition NotifySystem NotifyEvent)} {s : NotifySystem}
    (hrun : notifyMachine.Run .init ts s) (hne : s.buf.contents ≠ []) : s.Attended := by
  have hinit : NotifyInv .init := fun h => absurd rfl h
  have h : NotifyInv s := hrun.invariant hinit fun _ _ _ h _ hstep => h.of_step hstep
  exact h ((contents_ne_nil_iff s.buf).mp hne)

/-- The emit for one character comes while the Transmitter is draining, and covers the next one. -/
theorem never_stranded_merged : ∃ ts s, notifyMachine.Run .init ts s ∧
    events ts = [.submit 97, .emit, .poll, .submit 98, .receive, .emit, .submit 99] ∧
    s.buf.contents ≠ [] ∧ s.Attended := by
  obtain ⟨ts, s, hrun, hevents, hp⟩ := exists_run_of_exec notifyMachine .init
    [.submit 97, .emit, .poll, .submit 98, .receive, .emit, .submit 99]
    (fun r => r.2.buf.contents ≠ []) (by decide +kernel)
  have hne := of_decide_eq_true hp
  exact ⟨ts, s, hrun, hevents, hne, never_stranded hrun hne⟩

end Camkes.SecurityDemo
