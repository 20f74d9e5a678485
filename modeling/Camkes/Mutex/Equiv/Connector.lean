import Camkes.Mutex.Connector

/-!
# Mutual exclusion through the connector

`Link` relates where the thread on the `from` side and the connector thread are, and says whether
the `from` side owns the mutex there.  The mutex is locked exactly when one of the two sides owns
it, and never do both (`Inv`).
-/

namespace Camkes.Mutex

open Machine

/-! ### Who owns the mutex -/

/-- The `to` side has locked the mutex and not yet unlocked it. -/
def ToPc.owns : ToPc → Bool
  | .running holds => holds
  | .locking => false
  | .unlocking => true

/-- Where the two threads at the endpoint can be, and whether they have locked the mutex. -/
inductive Link : FromPc → ConnPc → Bool → Prop
  | running (holds : Bool) : Link (.running holds) .receiving holds
  | sending {m : Message} (hlen : m.length = 1) : Link (.sending m) .receiving (m.mr0 ≠ 0)
  | received {m : Message} (hlen : m.length = 1) : Link (.waiting m) (.received m) (m.mr0 ≠ 0)
  | locking {m : Message} (hlock : m.mr0 = 0) : Link (.waiting m) (.locking m) false
  | unlocking {m : Message} (hunlock : m.mr0 ≠ 0) : Link (.waiting m) (.unlocking m) true
  | replying (m : Message) : Link (.waiting m) (.replying m) (m.mr0 = 0)

/-- The invariant, where `owns` says whether the `from` side owns the mutex. -/
structure Inv (owns : Bool) (s : System) : Prop where
  link : Link s.fromPc s.connPc owns
  held : s.held = (owns || s.toPc.owns)
  exclusive : (owns && s.toPc.owns) = false
  answers : RepliesAnswer s.trace
  outstanding : ∀ m, s.fromPc = .waiting m → s.trace.getLast? = some (.requested m)

variable {owns : Bool} {s : System}

theorem inv_init : Inv false .init where
  link := .running false
  held := rfl
  exclusive := rfl
  answers := along_nil
  outstanding := nofun

theorem repliesAnswer_requested {trace : List Obs} (h : RepliesAnswer trace) (m : Message) :
    RepliesAnswer (trace ++ [.requested m]) :=
  along_concat.mpr ⟨h, nofun⟩

theorem repliesAnswer_replied {trace : List Obs} (h : RepliesAnswer trace) {m : Message}
    (hlast : trace.getLast? = some (.requested m)) : RepliesAnswer (trace ++ [.replied m]) := by
  refine along_concat.mpr ⟨h, ?_⟩
  intro m' hm'
  obtain rfl := Obs.replied.inj hm'
  exact hlast

/-- A free mutex has no owner. -/
theorem Inv.not_owns (h : Inv owns s) (hheld : s.held = false) :
    owns = false ∧ s.toPc.owns = false := by
  rw [h.held, Bool.or_eq_false_iff] at hheld
  exact hheld

/-! ### Steps of the `from` side and the connector thread -/

/-- A call on the `from` side keeps the invariant. -/
theorem Inv.fromCall (h : Inv owns s) (hok : s.enabled .fromCall) :
    ∃ s' owns', s.step .fromCall = some s' ∧ Inv owns' s' := by
  obtain ⟨hlink, hheld, hexclusive, hanswers, -⟩ := h
  obtain ⟨fromPc, connPc, toPc, held, requests, trace⟩ := s
  cases hlink with
  | running =>
    refine ⟨_, owns, rfl, ?_, hheld, hexclusive, hanswers, nofun⟩
    have howns : decide ((if owns then 1 else 0) ≠ 0) = owns := by
      cases owns <;> rfl
    have hlink : Link (.sending ⟨1, if owns then 1 else 0, requests⟩) .receiving _ :=
      .sending rfl
    rwa [howns] at hlink
  | _ => cases hok

/-- The rendezvous of a request keeps the invariant. -/
theorem Inv.request (h : Inv owns s) (hok : s.enabled .request) :
    ∃ s' owns', s.step .request = some s' ∧ Inv owns' s' := by
  obtain ⟨hlink, hheld, hexclusive, hanswers, -⟩ := h
  obtain ⟨fromPc, connPc, toPc, held, requests, trace⟩ := s
  cases hlink with
  | @sending m hlen =>
    refine ⟨_, _, rfl, .received hlen, hheld, hexclusive, repliesAnswer_requested hanswers m, ?_⟩
    intro m' hm'
    obtain rfl := FromPc.waiting.inj hm'
    exact List.getLast?_concat
  | _ => cases hok

/-- The length of every request is one. -/
theorem Inv.dispatch (h : Inv owns s) (hok : s.enabled .dispatch) :
    ∃ s' owns', s.step .dispatch = some s' ∧ Inv owns' s' := by
  obtain ⟨hlink, hheld, hexclusive, hanswers, houtstanding⟩ := h
  obtain ⟨fromPc, connPc, toPc, held, requests, trace⟩ := s
  cases hlink with
  | @received m hlen =>
    refine ⟨_, _, if_pos hlen, ?_, hheld, hexclusive, hanswers, houtstanding⟩
    show Link _ (if m.mr0 = 0 then _ else _) _
    split_ifs with hlock
    · rw [decide_eq_false (not_not.mpr hlock)]
      exact .locking hlock
    · rw [decide_eq_true hlock]
      exact .unlocking hlock
  | _ => cases hok

/-- The connector thread locks a free mutex, or unlocks the one that the `from` side owns. -/
theorem Inv.connMutex (h : Inv owns s) (hok : s.enabled .connMutex) :
    ∃ s' owns', s.step .connMutex = some s' ∧ Inv owns' s' := by
  have hfree := h.not_owns
  obtain ⟨hlink, hheld, hexclusive, hanswers, houtstanding⟩ := h
  obtain ⟨fromPc, connPc, toPc, held, requests, trace⟩ := s
  cases hlink with
  | @locking m hlock =>
    cases held with
    | true => cases hok
    | false =>
      obtain ⟨-, hto⟩ := hfree rfl
      have hlink := Link.replying m
      rw [decide_eq_true hlock] at hlink
      exact ⟨_, true, rfl, hlink, rfl, hto, hanswers, houtstanding⟩
  | @unlocking m hunlock =>
    have hlink := Link.replying m
    rw [decide_eq_false hunlock] at hlink
    exact ⟨_, false, rfl, hlink, hexclusive.symm, rfl, hanswers, houtstanding⟩
  | _ => cases hok

/-- The rendezvous of a reply keeps the invariant. -/
theorem Inv.reply (h : Inv owns s) (hok : s.enabled .reply) :
    ∃ s' owns', s.step .reply = some s' ∧ Inv owns' s' := by
  obtain ⟨hlink, hheld, hexclusive, hanswers, houtstanding⟩ := h
  obtain ⟨fromPc, connPc, toPc, held, requests, trace⟩ := s
  cases hlink with
  | replying m =>
    exact ⟨_, _, rfl, .running _, hheld, hexclusive,
      repliesAnswer_replied hanswers (houtstanding m rfl), nofun⟩
  | _ => cases hok

/-! ### Steps of the `to` side -/

/-- A call on the `to` side keeps the invariant. -/
theorem Inv.toCall (h : Inv owns s) (hok : s.enabled .toCall) :
    ∃ s' owns', s.step .toCall = some s' ∧ Inv owns' s' := by
  obtain ⟨hlink, hheld, hexclusive, hanswers, houtstanding⟩ := h
  obtain ⟨fromPc, connPc, toPc, held, requests, trace⟩ := s
  cases toPc with
  | running holds =>
    refine ⟨_, owns, rfl, hlink, ?_, ?_, hanswers, houtstanding⟩
    · cases holds <;> exact hheld
    · cases holds <;> exact hexclusive
  | _ => cases hok

/-- The mutex, called on the `to` side, keeps the invariant. -/
theorem Inv.toMutex (h : Inv owns s) (hok : s.enabled .toMutex) :
    ∃ s' owns', s.step .toMutex = some s' ∧ Inv owns' s' := by
  have hfree := h.not_owns
  obtain ⟨hlink, hheld, hexclusive, hanswers, houtstanding⟩ := h
  obtain ⟨fromPc, connPc, toPc, held, requests, trace⟩ := s
  cases toPc with
  | running holds => cases hok
  | locking =>
    cases held with
    | true => cases hok
    | false =>
      obtain ⟨rfl, -⟩ := hfree rfl
      exact ⟨_, false, rfl, hlink, rfl, rfl, hanswers, houtstanding⟩
  | unlocking =>
    have howns : owns = false := by
      rw [← hexclusive]
      exact (Bool.and_true owns).symm
    subst howns
    exact ⟨_, false, rfl, hlink, rfl, rfl, hanswers, houtstanding⟩

/-! ### Runs -/

/-- Every step keeps the invariant. -/
theorem preserves_inv : machine.Preserves fun s => ∃ owns, Inv owns s := by
  rintro s e ⟨owns, h⟩ hok
  have hstep : ∃ s' owns', s.step e = some s' ∧ Inv owns' s' := by
    cases e with
    | fromCall => exact h.fromCall hok
    | request => exact h.request hok
    | dispatch => exact h.dispatch hok
    | connMutex => exact h.connMutex hok
    | reply => exact h.reply hok
    | toCall => exact h.toCall hok
    | toMutex => exact h.toMutex hok
  obtain ⟨s', owns', hs', h'⟩ := hstep
  exact ⟨s', hs', owns', h'⟩

/-- The two sides never hold the mutex at the same time. -/
theorem Inv.not_bothHold (h : Inv owns s) : s.bothHold = false := by
  obtain ⟨hlink, -, hexclusive, -, -⟩ := h
  obtain ⟨fromPc, connPc, toPc, held, requests, trace⟩ := s
  cases hlink with
  | running =>
    cases owns with
    | false => rfl
    | true =>
      cases toPc with
      | running holds =>
        obtain rfl : holds = false := hexclusive
        rfl
      | _ => rfl
  | _ => rfl

/-- **Mutual exclusion**: in every interleaving of the two programs, the connector thread and the
calls of the `to` side, the programs are never both between a returned lock and the start of its
unlock, every reply of the connector thread answers the one outstanding request, and no assertion of
the connector thread fails. -/
theorem connector_safe {ts : List (Transition System Event)} {s : System}
    (hrun : machine.Run .init ts s) :
    s.bothHold = false ∧ RepliesAnswer s.trace ∧
      (∀ m, s.connPc = .replying m → s.fromPc = .waiting m) ∧
      ∀ e, machine.ok s e → (machine.step s e).isSome := by
  have h₀ : ∃ owns, Inv owns System.init := ⟨false, inv_init⟩
  obtain ⟨owns, h⟩ := preserves_inv.run h₀ hrun
  refine ⟨h.not_bothHold, h.answers, ?_, fun e he => preserves_inv.safe h₀ ts s e hrun he⟩
  intro m hm
  have hlink := h.link
  rw [hm] at hlink
  generalize hfrom : s.fromPc = fromPc at hlink
  cases hlink
  rfl

/-- Both sides want the mutex; the connector thread gets it while the `to` side waits. -/
def contend : List Event :=
  [.fromCall, .toCall, .request, .dispatch, .connMutex, .reply, .fromCall, .request, .dispatch,
    .connMutex, .toMutex, .reply]

theorem connector_safe_contend : ∃ ts s, machine.Run .init ts s ∧ events ts = contend ∧
    s.trace.length = 4 ∧ s.bothHold = false := by
  obtain ⟨ts, s, hrun, hevents, hp⟩ := exists_run_of_exec machine .init contend
    (fun r => r.2.trace.length = 4) (by decide +kernel)
  exact ⟨ts, s, hrun, hevents, of_decide_eq_true hp, (connector_safe hrun).1⟩

end Camkes.Mutex
