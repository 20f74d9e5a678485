import Camkes.ReverseString.Equiv.Parties
import Camkes.ReverseString.Equiv.TcpServer

/-!
# A round with the reverse_string server

`path_exchange`: the TCP server stores the formatted string and emits `ev`, the `reverse_string`
server reverses it and emits `ev1`, and the TCP server sends what is in the buffer then.
-/

namespace Camkes.ReverseString.TcpServer

open Threads

/-- Neither event has been emitted. -/
structure Idle (m : Cell → UInt8) : Prop where
  ev : m .ev = 0
  ev1 : m .ev1 = 0

/-- What the TCP server does in a round after its `emit`. -/
def reply (read : ℕ) : Thread := do
  wait .ev1
  let reply ← Prog.readBytes bufferStr read
  .output reply (.done ())

variable {m : Cell → UInt8} {s : List UInt8} {read : ℕ}

theorem serverRound_next (h : m .ev = 0) : serverRound.next m = none := by
  refine if_neg ?_
  rw [h]
  decide

theorem reply_next (read : ℕ) (h : m .ev1 = 0) (k : Thread) :
    (reply read >>= fun _ => k).next m = none := by
  refine if_neg ?_
  rw [h]
  decide

@[simp] theorem resume_client (p : Thread) : resume (loop .client) p = p := resume_none p

theorem sent_append (log log' : Log) : sent (log ++ log') = sent log ++ sent log' :=
  List.filterMap_append

theorem sent_client (log : List (Access Cell UInt8 (List UInt8))) :
    sent (log.map (.client, ·)) = (effects log).filterMap Access.output? := by
  rw [filterMap_output?_effects, sent, List.filterMap_map]
  rfl

theorem sent_server (log : List (Access Cell UInt8 (List UInt8))) :
    sent (log.map (.server, ·)) = [] := by
  simp [sent, List.filterMap_map]

theorem sent_write (p : Party) (cell : Cell) (v : UInt8) : sent [(p, .write cell v)] = [] := by
  cases p with
  | client => rfl
  | server => rfl

/-- Writes to the buffer send nothing. -/
theorem filterMap_output?_of_writesTo {cells : List Cell}
    {effs : List (Access Cell UInt8 (List UInt8))} (h : WritesTo cells effs) :
    effs.filterMap Access.output? = [] := by
  refine List.filterMap_eq_nil_iff.mpr fun a ha => ?_
  obtain ⟨i, -, v, rfl⟩ := h a ha
  rfl

/-- An event is not in the buffer. -/
theorem map_update_of_notMem {cell : Cell} (h : cell ∉ bufferStr) (m : Cell → UInt8) (v : UInt8) :
    bufferStr.map (Function.update m cell v) = bufferStr.map m := by
  refine List.map_congr_left fun i hi => Function.update_of_ne (fun heq => h ?_) _ _
  rwa [← heq]

theorem executes_wait {event : Cell} (h : m event = 1) :
    Executes (wait event) m () (Function.update m event 0) [.pass event (some 0)] :=
  .await (by rw [h]; decide) (.done _ _)

/-! ### The phases -/

/-- **The string is stored** and `ev` is emitted while the server waits. -/
theorem path_store (hle : s.length ≤ read) (hread : read < bufSize) (hidle : Idle m) (k : Thread)
    (before : Log) :
    ∃ m' log, bufferStr.map m' = s ++ 0 :: (bufferStr.map m).drop (s.length + 1) ∧
      m' .ev = 1 ∧ m' .ev1 = 0 ∧ sent log = [] ∧
      Path loop (stateOf m (exchange read s >>= fun _ => k) serverRound before)
        (stateOf m' (reply read >>= fun _ => k) serverRound (before ++ log)) := by
  have hbuf : s.length < bufferStr.length := by
    rw [length_bufferStr]
    omega
  obtain ⟨m₁, hstore⟩ := exists_rewrites_snprintf (ο := List UInt8) (m := m) nodup_bufferStr
    (Nat.lt_succ_of_le hle) hbuf
  have hwrites := writesTo_zip (ο := List UInt8) bufferStr (s ++ [0])
  have hcells : ∀ a ∈ (bufferStr.zip (s ++ [0])).map fun x => .write x.1 x.2,
      Access.written a ≠ some .ev :=
    fun a ha => hwrites.written_ne (fun h => ev_notMem (List.mem_of_mem_take h)) ha
  have hev₁ : m₁ .ev = 0 := (hstore.frame _ ev_notMem).trans hidle.ev
  have hstart : exchange read s >>= (fun _ => k) = resume (loop .client)
      (snprintf bufferStr (read + 1) s >>= fun _ => .write .ev 1 (reply read >>= fun _ => k)) := by
    rw [resume_client, exchange, Prog.bind_assoc]
    rfl
  obtain ⟨log, hlog, hpath⟩ := path_client hstart hstore.executes (serverRound_next hidle.ev)
    (forall_waitsFor rfl hcells) before
  have hset := path_client_write (k := reply read >>= fun _ => k) (i := .ev) (v := 1) loop
    (serverRound_next hev₁) (before ++ log.map (.client, ·))
  rw [resume_client] at hpath hset
  rw [List.append_assoc] at hset
  refine ⟨_, _, ?_, Function.update_self .., ?_, ?_, hpath.trans hset⟩
  · rw [map_update_of_notMem ev_notMem, hstore.contents]
  · rw [Function.update_of_ne (by decide), hstore.frame _ ev1_notMem, hidle.ev1]
  · rw [sent_append, sent_write, sent_client, hlog, filterMap_output?_of_writesTo hwrites]
    rfl

/-- **The server reverses** the string and emits `ev1` while the TCP server waits. -/
theorem path_serve (read : ℕ) {rest : List UInt8} (hs : 0 ∉ s)
    (hbuf : bufferStr.map m = s ++ 0 :: rest) (hev : m .ev = 1) (hev1 : m .ev1 = 0) (k : Thread)
    (before : Log) :
    ∃ m' log, bufferStr.map m' = (s.take maxLen).reverse ++ (s.drop maxLen ++ 0 :: rest) ∧
      m' .ev = 0 ∧ m' .ev1 = 1 ∧ sent log = [] ∧
      Path loop (stateOf m (reply read >>= fun _ => k) serverRound before)
        (stateOf m' (reply read >>= fun _ => k) serverRound (before ++ log)) := by
  -- the server takes the event
  have hbuf₁ : bufferStr.map (Function.update m .ev 0) = s ++ 0 :: rest := by
    rw [map_update_of_notMem ev_notMem, hbuf]
  obtain ⟨m₁, effs, hserve, -, hwrites⟩ := rewrites_serve nodup_bufferStr hs hbuf₁
  have hexec : Executes (wait .ev >>= fun _ => serve bufferStr) m () m₁
      ([.pass .ev (some 0)] ++ .output s :: effs) :=
    (executes_wait hev).bind hserve.executes
  have hcells : ∀ a ∈ [.pass .ev (some 0)] ++ .output s :: effs, Access.written a ≠ some .ev1 := by
    intro a ha
    simp only [List.singleton_append, List.mem_cons] at ha
    rcases ha with rfl | rfl | ha
    · simp [Access.written]
    · simp [Access.written]
    · exact hwrites.written_ne (fun h => ev1_notMem (List.mem_of_mem_take h)) ha
  have hev1₁ : m₁ .ev1 = 0 := by
    rw [hexec.frame hcells, hev1]
  have hstart : serverRound = resume (loop .server)
      ((wait .ev >>= fun _ => serve bufferStr) >>= fun _ => .write .ev1 1 (.done ())) := by
    rw [Prog.bind_assoc]
    rfl
  obtain ⟨log, hlog, hpath⟩ := path_server hstart hexec (reply_next read hev1 k)
    (forall_waitsFor rfl hcells) before
  have hset := path_server_write (k := .done ()) (i := .ev1) (v := 1) loop
    (reply_next read hev1₁ k) (before ++ log.map (.server, ·))
  rw [List.append_assoc] at hset
  refine ⟨_, _, ?_, ?_, Function.update_self .., ?_, hpath.trans hset⟩
  · rw [map_update_of_notMem ev1_notMem, hserve.contents]
  · rw [Function.update_of_ne (by decide), hserve.frame _ ev_notMem, Function.update_self]
  · rw [sent_append, sent_write, sent_server]
    rfl

/-- **The TCP server sends** what is in the buffer while the server waits. -/
theorem path_reply (hread : read < bufSize) (hev : m .ev = 0) (hev1 : m .ev1 = 1) (k : Thread)
    (before : Log) :
    ∃ m' log, bufferStr.map m' = bufferStr.map m ∧ Idle m' ∧
      sent log = [(bufferStr.map m).take read] ∧
      Path loop (stateOf m (reply read >>= fun _ => k) serverRound before)
        (stateOf m' k serverRound (before ++ log)) := by
  have hbuf := map_update_of_notMem ev1_notMem m 0
  have hbytes : Executes (ο := List UInt8) (Prog.readBytes bufferStr read)
      (Function.update m .ev1 0) ((bufferStr.map m).take read) (Function.update m .ev1 0) [] := by
    have hle : read ≤ bufferStr.length := by
      rw [length_bufferStr]
      exact hread.le
    have hexec := Executes.readBytes (ο := List UInt8) (m := Function.update m .ev1 0) hle
    rwa [hbuf] at hexec
  have hexec : Executes (reply read) m () (Function.update m .ev1 0)
      ([.pass .ev1 (some 0)] ++ [.output ((bufferStr.map m).take read)]) :=
    (executes_wait hev1).bind (.bind_of_nil hbytes (.output (.done _ _)))
  have hcells : ∀ a ∈ ([.pass .ev1 (some 0)] : List (Access Cell UInt8 (List UInt8))) ++
      [.output ((bufferStr.map m).take read)], a.written ≠ some .ev := by
    intro a ha
    simp only [List.singleton_append, List.mem_cons, List.not_mem_nil, or_false] at ha
    rcases ha with rfl | rfl
    · simp [Access.written]
    · simp [Access.written]
  obtain ⟨log, hlog, hpath⟩ := path_client (resume_client (reply read >>= fun _ => k)).symm hexec
    (serverRound_next hev) (forall_waitsFor rfl hcells) before
  rw [resume_client] at hpath
  refine ⟨_, _, hbuf, ⟨?_, Function.update_self ..⟩, ?_, hpath⟩
  · rw [Function.update_of_ne (by decide), hev]
  · rw [sent_client, hlog]
    rfl

/-- **A round**: the reply is what is at the beginning of the buffer when the server has reversed
the string. -/
theorem path_exchange (hs : 0 ∉ s) (hle : s.length ≤ read) (hread : read < bufSize)
    (hidle : Idle m) (k : Thread) (before : Log) :
    ∃ m' log rest, Idle m' ∧
      sent log = [((s.take maxLen).reverse ++ (s.drop maxLen ++ 0 :: rest)).take read] ∧
      Path loop (stateOf m (exchange read s >>= fun _ => k) serverRound before)
        (stateOf m' k serverRound (before ++ log)) := by
  obtain ⟨m₁, log₁, hbuf₁, hev₁, hev1₁, hsent₁, hpath₁⟩ := path_store hle hread hidle k before
  obtain ⟨m₂, log₂, hbuf₂, hev₂, hev1₂, hsent₂, hpath₂⟩ :=
    path_serve read hs hbuf₁ hev₁ hev1₁ k (before ++ log₁)
  obtain ⟨m₃, log₃, -, hidle₃, hsent₃, hpath₃⟩ :=
    path_reply hread hev₂ hev1₂ k (before ++ log₁ ++ log₂)
  refine ⟨m₃, log₁ ++ (log₂ ++ log₃), (bufferStr.map m).drop (s.length + 1), hidle₃, ?_, ?_⟩
  · rw [sent_append, sent_append, hsent₁, hsent₂, hsent₃, hbuf₂]
    rfl
  · rw [← List.append_assoc, ← List.append_assoc]
    exact (hpath₁.trans hpath₂).trans hpath₃

end Camkes.ReverseString.TcpServer
