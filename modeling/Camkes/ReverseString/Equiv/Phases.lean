import Camkes.ReverseString.Equiv.Parties
import Camkes.ReverseString.Equiv.Reverse
import Camkes.ReverseString.Handshake

/-!
# The phases of the handshake

The two parties take turns: the client writes the string and sets the flag while the server waits
(`path_send`), the server reverses it and clears the flag while the client waits (`path_serve`), and
the client reads it when the server has returned (`path_receive`).
-/

namespace Camkes.ReverseString

open Threads

/-! ### The buffer -/

theorem length_buffer : buffer.length = bufSize := List.length_finRange

theorem nodup_buffer : buffer.Nodup := List.nodup_finRange _

theorem getElem?_buffer {i : ℕ} (hi : i < bufSize) : buffer[i]? = some ⟨i, hi⟩ := by
  rw [buffer, List.getElem?_eq_getElem (by rwa [List.length_finRange]), List.getElem_finRange]
  rfl

theorem flag_notMem_take {n : ℕ} (hn : n ≤ endIdx) : flag ∉ buffer.take n := by
  intro h
  obtain ⟨i, hi, hflag⟩ := List.mem_take_iff_getElem.mp h
  have hi' : i < bufSize := by
    rw [← length_buffer]
    omega
  have hcell := getElem?_buffer hi'
  rw [List.getElem?_eq_getElem (by omega), hflag, Option.some_inj, flag, Fin.mk.injEq] at hcell
  omega

theorem getElem?_contents (m : Cell → UInt8) : (buffer.map m)[endIdx]? = some (m flag) := by
  rw [List.getElem?_map, getElem?_buffer (show endIdx < bufSize by decide)]
  rfl

/-! ### What each party does alone -/

variable {s : List UInt8} {mem : Cell → UInt8}

/-- The contents of the buffer when the client has written the string. -/
def written (s : List UInt8) (mem : Cell → UInt8) : List UInt8 :=
  s ++ 0 :: (buffer.map mem).drop (s.length + 1)

/-- The writes of the client's `snprintf`. -/
def copied (s : List UInt8) : List (Access Cell UInt8 (List UInt8)) :=
  (buffer.zip (s ++ [0])).map fun x => .write x.1 x.2

theorem rewrites_snprintf (hlen : s.length < maxLen) (mem : Cell → UInt8) :
    ∃ m', Rewrites buffer (snprintf buffer maxLen s) mem () (written s mem) m' (copied s) := by
  have hmax : maxLen < bufSize := by decide
  have hbuf : s.length < buffer.length := (hlen.trans hmax).trans_eq length_buffer.symm
  exact exists_rewrites_snprintf nodup_buffer hlen hbuf

theorem writesTo_copied (s : List UInt8) : WritesTo (buffer.take (s.length + 1)) (copied s) := by
  have hwrites := writesTo_zip (ο := List UInt8) buffer (s ++ [0])
  rwa [List.length_append] at hwrites

/-- A store behind the string. -/
theorem set_append_cons {t r : List UInt8} {i : ℕ} (hi : t.length < i) (c v : UInt8) :
    (t ++ c :: r).set i v = t ++ c :: r.set (i - t.length - 1) v := by
  obtain ⟨k, hk⟩ : ∃ k, i - t.length = k + 1 := ⟨i - t.length - 1, by omega⟩
  rw [List.set_append_right _ _ hi.le, hk]
  rfl

/-- The flag is zero behind the string. -/
theorem set_drop_flag (hlen : s.length < maxLen) (hflag : mem flag = 0) :
    ((buffer.map mem).drop (s.length + 1)).set (endIdx - s.length - 1) 0 =
      (buffer.map mem).drop (s.length + 1) := by
  have hlt : s.length + 1 < endIdx := Nat.add_lt_of_lt_sub hlen
  have hzero : ((buffer.map mem).drop (s.length + 1))[endIdx - s.length - 1]? = some 0 := by
    have hidx : s.length + 1 + (endIdx - s.length - 1) = endIdx := by omega
    rw [List.getElem?_drop, hidx, getElem?_contents, hflag]
  obtain ⟨hi, hval⟩ := List.getElem?_eq_some_iff.mp hzero
  rw [← hval, List.set_getElem_self]

/-! ### The phases -/

/-- What the client does once the server has cleared the flag. -/
def receive : Thread := do
  poll (· == 0)
  printString buffer

/-- The client, cut where it sets the flag. -/
theorem client_eq (s : List UInt8) :
    client s = (snprintf buffer maxLen s >>= fun _ => printString buffer) >>= fun _ =>
      .write flag 1 receive := by
  have hstore : (Prog.store buffer endIdx 1 : Thread) = .write flag 1 (.done ()) :=
    Prog.store_eq (getElem?_buffer _) 1
  rw [client, Prog.bind_assoc, hstore]
  rfl

theorem server_eq :
    server = (poll (· != 0) >>= fun _ => serve buffer) >>= fun _ => .write flag 0 (.done ()) := by
  have hstore : (Prog.store buffer endIdx 0 : Thread) = .write flag 0 (.done ()) :=
    Prog.store_eq (getElem?_buffer _) 0
  rw [server, Prog.bind_assoc, hstore]

theorem server_next {m : Cell → UInt8} (h : m flag = 0) : server.next m = none := by
  refine if_neg ?_
  rw [h]
  decide

theorem receive_next {m : Cell → UInt8} (h : m flag = 1) : receive.next m = none := by
  refine if_neg ?_
  rw [h]
  decide

/-- Neither starts again. -/
abbrev noLoop (_ : Party) : Option Thread := none

theorem copied_written_ne (hlen : s.length < maxLen) :
    ∀ a ∈ copied s, a.written ≠ some flag := by
  have hroom : s.length + 1 ≤ endIdx := Nat.add_le_of_le_sub (by decide) hlen.le
  exact fun a ha => (writesTo_copied s).written_ne (flag_notMem_take hroom) ha

/-- **The client sends**: it writes the string and sets the flag while the server waits. -/
theorem path_send (hs : 0 ∉ s) (hlen : s.length < maxLen) (hflag : mem flag = 0) :
    ∃ log m, effects log = copied s ++ [.output s] ∧
      buffer.map m = (written s mem).set endIdx 1 ∧ m flag = 1 ∧
      Path noLoop (start s mem)
        (stateOf m receive server (log.map (.client, ·) ++ [(.client, .write flag 1)])) := by
  obtain ⟨m₁, hwrite⟩ := rewrites_snprintf hlen mem
  have hexec : Executes (snprintf buffer maxLen s >>= fun _ => printString buffer) mem () m₁
      (copied s ++ [.output s]) :=
    hwrite.executes.bind (executes_printString hs hwrite.contents)
  have hcells : ∀ a ∈ copied s ++ [.output s], a.written ≠ some flag := by
    intro a ha
    rcases List.mem_append.mp ha with ha | ha
    · exact copied_written_ne hlen a ha
    · obtain rfl := List.mem_singleton.mp ha
      simp [Access.written]
  have hflag₁ : m₁ flag = 0 := by
    rw [hexec.frame hcells, hflag]
  have hstart : client s = resume (noLoop .client)
      ((snprintf buffer maxLen s >>= fun _ => printString buffer) >>= fun _ =>
        .write flag 1 receive) := by
    rw [resume_none, client_eq]
  obtain ⟨log, hlog, hpath⟩ := path_client hstart hexec (server_next hflag)
    (forall_waitsFor rfl hcells) []
  rw [resume_none, List.nil_append] at hpath
  have hset := path_client_write (k := receive) (i := flag) (v := 1) noLoop (server_next hflag₁)
    (log.map (.client, ·))
  rw [resume_none] at hset
  refine ⟨log, _, hlog, ?_, Function.update_self .., hpath.trans hset⟩
  rw [← hwrite.contents]
  exact map_update nodup_buffer (getElem?_buffer _) 1

theorem executes_poll {p : UInt8 → Bool} {m : Cell → UInt8} (h : p (m flag) = true) :
    Executes (poll p) m () m [.pass flag none] :=
  .await h (.done _ _)

/-- **The server reverses** the string and clears the flag while the client waits. -/
theorem path_serve (hs : 0 ∉ s) (hlen : s.length < maxLen) {m : Cell → UInt8} {rest : List UInt8}
    (hbuf : buffer.map m = s ++ 0 :: rest) (hflag : m flag = 1)
    (before : List (Party × Access Cell UInt8 (List UInt8))) :
    ∃ log effs m', effects log = .pass flag none :: .output s :: effs ∧
      effs.length = 2 * (s.length / 2) ∧ WritesTo (buffer.take s.length) effs ∧
      buffer.map m' = (s.reverse ++ 0 :: rest).set endIdx 0 ∧ m' flag = 0 ∧
      Path noLoop (stateOf m receive server before)
        (stateOf m' receive (.done ())
          (before ++ log.map (.server, ·) ++ [(.server, .write flag 0)])) := by
  obtain ⟨m₁, effs, hserve, hcount, hwrites⟩ := rewrites_serve nodup_buffer hs hbuf
  rw [List.take_of_length_le hlen.le, List.drop_of_length_le hlen.le, List.nil_append] at hserve
  rw [Nat.min_eq_right hlen.le] at hcount hwrites
  have hroom : s.length ≤ endIdx := hlen.le.trans (Nat.sub_le endIdx 1)
  have hexec : Executes (poll (· != 0) >>= fun _ => serve buffer) m () m₁
      ([.pass flag none] ++ .output s :: effs) :=
    (executes_poll (by rw [hflag]; decide)).bind hserve.executes
  have hcells : ∀ a ∈ [.pass flag none] ++ .output s :: effs, a.written ≠ some flag := by
    intro a ha
    simp only [List.singleton_append, List.mem_cons] at ha
    rcases ha with rfl | rfl | ha
    · simp [Access.written]
    · simp [Access.written]
    · exact hwrites.written_ne (flag_notMem_take hroom) ha
  have hflag₁ : m₁ flag = 1 := by
    rw [hexec.frame hcells, hflag]
  have hstart : server = resume (noLoop .server)
      ((poll (· != 0) >>= fun _ => serve buffer) >>= fun _ => .write flag 0 (.done ())) := by
    rw [resume_none, server_eq]
  obtain ⟨log, hlog, hpath⟩ := path_server hstart hexec (receive_next hflag)
    (forall_waitsFor rfl hcells) before
  rw [resume_none] at hpath
  have hset := path_server_write (k := .done ()) (i := flag) (v := 0) noLoop (receive_next hflag₁)
    (before ++ log.map (.server, ·))
  refine ⟨log, effs, _, hlog, hcount, hwrites, ?_, Function.update_self .., hpath.trans hset⟩
  rw [← hserve.contents]
  exact map_update nodup_buffer (getElem?_buffer _) 0

/-- **The client receives** the string when the server is done. -/
theorem path_receive {t rest : List UInt8} (ht : 0 ∉ t) {m : Cell → UInt8}
    (hbuf : buffer.map m = t ++ 0 :: rest) (hflag : m flag = 0)
    (before : List (Party × Access Cell UInt8 (List UInt8))) :
    ∃ log, effects log = [.pass flag none, .output t] ∧
      Path noLoop (stateOf m receive (.done ()) before)
        (stateOf m (.done ()) (.done ()) (before ++ log.map (.client, ·))) := by
  have hexec : Executes receive m () m ([.pass flag none] ++ [.output t]) :=
    (executes_poll (by rw [hflag]; decide)).bind (executes_printString ht hbuf)
  have hstart : receive = resume (noLoop .client) (receive >>= .done) := by
    rw [resume_none, Prog.bind_done]
  exact path_client hstart hexec rfl (fun i hi => by cases hi) before

end Camkes.ReverseString
