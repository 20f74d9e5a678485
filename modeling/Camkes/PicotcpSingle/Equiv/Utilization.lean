import Camkes.PicotcpSingle.Utilization

/-!
# Splitting what a client of the utilisation servers sends

Both servers are `Reader`s that answer a read when the buffer starts with one of five commands.
Their first letters are `H`, `L` and `S`, and their second letters are others, so a stream may be
split in any way only when it has at most one byte or none of these three letters.
-/

namespace Camkes.PicotcpTcpEcho

variable {buf rest : List UInt8}

/-! ### Commands -/

/-- The messages that a server does something about. -/
def answeredMessages : List String :=
  ["HELLO\n", "LOAD cpu_target_lukem\n", "SETUP args::\"\"\n", "START\n", "STOP\n"]

/-- The buffer starts with a message that the server does something about. -/
def Answered (buf : List UInt8) : Prop := ∃ msg ∈ answeredMessages, msgMatch buf msg

/-- `H`, `L` and `S`. -/
def IsFirst (b : UInt8) : Prop := b = 72 ∨ b = 76 ∨ b = 83

/-- The messages that are answered, one by one. -/
theorem answered_iff : Answered buf ↔ msgMatch buf "HELLO\n" = true ∨
    msgMatch buf "LOAD cpu_target_lukem\n" = true ∨ msgMatch buf "SETUP args::\"\"\n" = true ∨
      msgMatch buf "START\n" = true ∨ msgMatch buf "STOP\n" = true := by
  simp [Answered, answeredMessages]

/-- `msg_match` compares with the beginning of the buffer. -/
theorem msgMatch_iff (msg : String) : msgMatch buf msg = true ↔ bytesOf msg <+: buf :=
  List.isPrefixOf_iff_prefix

theorem bytesOf_hello : bytesOf "HELLO\n" = [72, 69, 76, 76, 79, 10] := by decide

theorem bytesOf_load : bytesOf "LOAD cpu_target_lukem\n" = [76, 79, 65, 68, 32, 99, 112, 117, 95,
    116, 97, 114, 103, 101, 116, 95, 108, 117, 107, 101, 109, 10] := by decide

theorem bytesOf_setup : bytesOf "SETUP args::\"\"\n" = [83, 69, 84, 85, 80, 32, 97, 114, 103, 115,
    58, 58, 34, 34, 10] := by decide

theorem bytesOf_start : bytesOf "START\n" = [83, 84, 65, 82, 84, 10] := by decide

theorem bytesOf_stop : bytesOf "STOP\n" = [83, 84, 79, 80, 10] := by decide

/-- The five commands, letter by letter. -/
theorem answered_iff_letters : Answered buf ↔
    [72, 69, 76, 76, 79, 10] <+: buf ∨
    [76, 79, 65, 68, 32, 99, 112, 117, 95, 116, 97, 114, 103, 101, 116, 95, 108, 117, 107, 101, 109,
      10] <+: buf ∨
    [83, 69, 84, 85, 80, 32, 97, 114, 103, 115, 58, 58, 34, 34, 10] <+: buf ∨
    [83, 84, 65, 82, 84, 10] <+: buf ∨ [83, 84, 79, 80, 10] <+: buf := by
  rw [answered_iff, msgMatch_iff, msgMatch_iff, msgMatch_iff, msgMatch_iff, msgMatch_iff,
    bytesOf_hello, bytesOf_load, bytesOf_setup, bytesOf_start, bytesOf_stop]

/-- The second letters are `E`, `O` and `T`. -/
theorem not_isFirst_second : ¬ IsFirst 69 ∧ ¬ IsFirst 79 ∧ ¬ IsFirst 84 := by
  unfold IsFirst
  decide

/-- The messages are commands of a reader: different first letters, and no longer than its buffer.
-/
theorem commands_answered : Reader.Commands Answered IsFirst 0x1000 where
  head := by
    intro buf h
    rw [answered_iff_letters] at h
    rcases buf with - | ⟨b, rest⟩
    · simp at h
    · refine ⟨b, rest, rfl, ?_⟩
      simp only [List.cons_prefix_cons] at h
      unfold IsFirst
      tauto
  second := by
    intro c b rest h
    obtain ⟨hE, hO, hT⟩ := not_isFirst_second
    rw [answered_iff_letters] at h
    simp only [List.cons_prefix_cons] at h
    rcases h with ⟨-, rfl, -⟩ | ⟨-, rfl, -⟩ | ⟨-, rfl, -⟩ | ⟨-, rfl, -⟩ | ⟨-, rfl, -⟩
    · exact hE
    · exact hO
    · exact hE
    · exact hT
    · exact hT
  command := by
    rintro b (rfl | rfl | rfl)
    · refine ⟨69, [76, 76, 79, 10], by decide, fun rest => ⟨?_, fun c hc h => ?_⟩⟩
      · rw [answered_iff_letters]
        exact Or.inl (List.prefix_append _ _)
      · simp [answered_iff_letters, Ne.symm hc] at h
    · refine ⟨79, [65, 68, 32, 99, 112, 117, 95, 116, 97, 114, 103, 101, 116, 95, 108, 117, 107,
        101, 109, 10], by decide, fun rest => ⟨?_, fun c hc h => ?_⟩⟩
      · rw [answered_iff_letters]
        exact Or.inr (Or.inl (List.prefix_append _ _))
      · simp [answered_iff_letters, Ne.symm hc] at h
    · refine ⟨84, [79, 80, 10], by decide, fun rest => ⟨?_, fun c hc h => ?_⟩⟩
      · rw [answered_iff_letters]
        exact Or.inr (Or.inr (Or.inr (Or.inr (List.prefix_append _ _))))
      · simp [answered_iff_letters, Ne.symm hc] at h

/-! ### What a server does about the commands -/

/-- What a server does about each of the commands. -/
structure Answers (γ : Type) where
  hello : List γ
  load : List γ
  setup : List γ
  start : List γ
  stop : List γ

namespace Answers

variable {γ : Type} {a : Answers γ}

/-- What it does about the contents of its buffer. -/
def act (a : Answers γ) (buf : List UInt8) : List γ :=
  if msgMatch buf "HELLO\n" then a.hello
  else if msgMatch buf "LOAD cpu_target_lukem\n" then a.load
  else if msgMatch buf "SETUP args::\"\"\n" then a.setup
  else if msgMatch buf "START\n" then a.start
  else if msgMatch buf "STOP\n" then a.stop
  else []

/-- As far as `p` holds. -/
def filter (p : γ → Bool) (a : Answers γ) : Answers γ where
  hello := a.hello.filter p
  load := a.load.filter p
  setup := a.setup.filter p
  start := a.start.filter p
  stop := a.stop.filter p

/-- The server does something about every command. -/
def Nonempty (a : Answers γ) : Prop := [] ∉ [a.hello, a.load, a.setup, a.start, a.stop]

/-- There is an answer exactly to the messages that are answered. -/
theorem act_eq_nil_iff (h : a.Nonempty) : a.act buf = [] ↔ ¬ Answered buf := by
  simp only [Nonempty, List.mem_cons, List.not_mem_nil, or_false, not_or, eq_comm] at h
  rw [answered_iff]
  unfold act
  split_ifs <;> simp_all

theorem filter_act (p : γ → Bool) (a : Answers γ) (buf : List UInt8) :
    (a.act buf).filter p = (a.filter p).act buf := by
  unfold act
  split_ifs <;> rfl

/-- What a READ event makes a server do, without the receive call. -/
theorem filter_read {p : γ → Bool} {recv : γ} (hrecv : p recv = false) (a : Answers γ)
    (buf : List UInt8) : ([] ++ recv :: a.act buf ++ []).filter p = (a.filter p).act buf := by
  rw [List.nil_append, List.append_nil, List.filter_cons_of_neg (by simp [hrecv]), filter_act]

/-- What a read leads to besides the receive call is nothing exactly if no message is matched. -/
theorem filter_read_eq_nil_iff {p : γ → Bool} {recv : γ} (hrecv : p recv = false)
    (h : (a.filter p).Nonempty) :
    ([] ++ recv :: a.act buf ++ []).filter p = [] ↔ ¬ Answered buf := by
  rw [filter_read hrecv]
  exact act_eq_nil_iff h

end Answers

/-- The delivered bytes come to the beginning of a buffer. -/
theorem take_append_drop_of_le {bytes : List UInt8} (h : bytes.length ≤ 0x1000)
    (buf : List UInt8) :
    bytes.take 0x1000 ++ buf.drop (bytes.take 0x1000).length = bytes ++ buf.drop bytes.length := by
  rw [List.take_of_length_le h]

/-! ### The server on PicoServer -/

/-- What the server of `picotcp_tcp_echo` does. -/
def utilizAnswers (socket : ℤ) (r : Replies) : Answers Call where
  hello := [.echoSendSend socket "200 OK (Ready to go)\n"]
  load := [.echoSendSend socket "200 OK\n"]
  setup := [.echoSendSend socket "200 OK\n"]
  start := [.idleStart]
  stop := [.idleStop, .echoSendSend socket (response r.idle r.total), .echoControlShutdown socket]

theorem utilizCommand_eq (buf : List UInt8) (socket : ℤ) (r : Replies) :
    utilizCommand buf socket r = (utilizAnswers socket r).act buf := rfl

theorem nonempty_utilizAnswers (socket : ℤ) (r : Replies) : (utilizAnswers socket r).Nonempty := by
  simp [Answers.Nonempty, utilizAnswers]

theorem nonempty_filter_utilizAnswers (socket : ℤ) (r : Replies) :
    ((utilizAnswers socket r).filter Call.isUtilizOutcome).Nonempty := by
  simp [Answers.Nonempty, Answers.filter, utilizAnswers, Call.isUtilizOutcome]

/-- The server of `picotcp_tcp_echo` as a reader. -/
def utilizReader (socket : ℤ) (measured : ℕ → UInt64 × UInt64) :
    Reader UInt8 (State × ℕ) Call Answered where
  size := 0x1000
  buf p := p.1.echoRecvBuf
  read := readUtilizStream socket measured
  buf_read p _ h := take_append_drop_of_le h p.1.echoRecvBuf
  read_eq_nil p bytes := by
    show List.filter _ ([] ++ (.echoRecvRecv socket :: utilizCommand _ socket _) ++ []) = [] ↔ _
    rw [utilizCommand_eq]
    exact Answers.filter_read_eq_nil_iff rfl (nonempty_filter_utilizAnswers socket _)

end Camkes.PicotcpTcpEcho

namespace Camkes.PicotcpSingle.Utilization

open PicotcpTcpEcho (Answered Answers IsFirst take_append_drop_of_le commands_answered utilizReader
  utilizInit response)

/-! ### The server on the stack -/

/-- What the server of the picotcp single component does. -/
def answers (s : ℕ) (r : Replies) : Answers Call where
  hello := [.picoSocketSend s "200 OK (Ready to go)\n"]
  load := [.picoSocketSend s "200 OK\n"]
  setup := [.picoSocketSend s "200 OK\n"]
  start := [.idleStart]
  stop := [.idleStop, .picoSocketSend s (response r.idle r.total), .picoSocketShutdown s]

theorem utilizCommand_eq (buf : List UInt8) (s : ℕ) (r : Replies) :
    utilizCommand buf s r = (answers s r).act buf := rfl

theorem nonempty_answers (s : ℕ) (r : Replies) : (answers s r).Nonempty := by
  simp [Answers.Nonempty, answers]

theorem nonempty_filter_answers (s : ℕ) (r : Replies) :
    ((answers s r).filter Call.isOutcome).Nonempty := by
  simp [Answers.Nonempty, Answers.filter, answers, Call.isOutcome]

/-- The server of the picotcp single component as a reader. -/
def reader (socket : ℕ) (measured : ℕ → UInt64 × UInt64) :
    Reader UInt8 (List UInt8 × ℕ) Call Answered where
  size := 0x1000
  buf p := p.1
  read := readStream socket measured
  buf_read p _ h := take_append_drop_of_le h p.1
  read_eq_nil p bytes := by
    show List.filter _ ([] ++ (.picoSocketRecv socket :: utilizCommand _ socket _) ++ []) = [] ↔ _
    rw [utilizCommand_eq]
    exact Answers.filter_read_eq_nil_iff rfl (nonempty_filter_answers socket _)

/-- **Independence of segmentation**: after any earlier reads, either server does the same about all
splittings of a stream exactly when the stream has at most one byte or none of its bytes is `H`, `L`
or `S`. -/
theorem splitFree_utilization (socket : ℕ) (socketFd : ℤ) (measured : ℕ → UInt64 × UInt64)
    (s : PicotcpTcpEcho.State) (stream : List UInt8) :
    ((reader socket measured).SplitFree init stream ↔
      stream.length ≤ 1 ∨ ∀ b ∈ stream, ¬ IsFirst b) ∧
    ((utilizReader socketFd measured).SplitFree (utilizInit s) stream ↔
      stream.length ≤ 1 ∨ ∀ b ∈ stream, ¬ IsFirst b) := by
  have hbuf : (List.replicate 0x1000 (0 : UInt8)).length ≤ 0x1000 :=
    Nat.le_of_eq List.length_replicate
  exact ⟨Reader.splitFree_iff commands_answered hbuf, Reader.splitFree_iff commands_answered hbuf⟩

/-- `HELLO`, and the variables of the server of `picotcp_tcp_echo` before anything happens. -/
def hello : List UInt8 := [72, 69, 76, 76, 79, 10]

def helloState : PicotcpTcpEcho.State where
  utilizSocket := 1
  peerSocket := 4
  socketIn := 2
  tcpEchoClient := 0
  rxBufPool := []
  echoRecvBuf := []

/-- A message in one read, and the same message in two. -/
theorem splits_hello {σ β : Type} (R : Reader UInt8 σ β Answered) (hsize : 6 ≤ R.size) :
    R.Splits hello [hello] ∧ R.Splits hello [[72, 69, 76], [76, 79, 10]] := by
  have hfits : ∀ bytes : List UInt8, bytes ≠ [] ∧ bytes.length ≤ 6 →
      bytes ≠ [] ∧ bytes.length ≤ R.size := fun _ h => ⟨h.1, Nat.le_trans h.2 hsize⟩
  refine ⟨⟨rfl, fun bytes hbytes => hfits bytes ?_⟩, rfl, fun bytes hbytes => hfits bytes ?_⟩
  · obtain rfl := List.mem_singleton.mp hbytes
    decide
  · rcases List.mem_cons.mp hbytes with rfl | hbytes
    · decide
    · obtain rfl := List.mem_singleton.mp hbytes
      decide

/-- Read at once, `HELLO` is answered; read in two parts it is not. -/
theorem not_splitFree_hello :
    ((reader 4 fun _ => (0, 0)).run init [hello]).2 =
      [.picoSocketSend (some 4) "200 OK (Ready to go)\n"] ∧
    ((reader 4 fun _ => (0, 0)).run init [[72, 69, 76], [76, 79, 10]]).2 = [] ∧
    ¬ (reader 4 fun _ => (0, 0)).SplitFree init hello ∧
    ((utilizReader 4 fun _ => (0, 0)).run (utilizInit helloState) [hello]).2 =
      [.echoSendSend 4 "200 OK (Ready to go)\n"] ∧
    ((utilizReader 4 fun _ => (0, 0)).run (utilizInit helloState)
      [[72, 69, 76], [76, 79, 10]]).2 = [] ∧
    ¬ (utilizReader 4 fun _ => (0, 0)).SplitFree (utilizInit helloState) hello := by
  have hsize : 6 ≤ 0x1000 := by decide
  have hone : ((reader 4 fun _ => (0, 0)).run init [hello]).2 =
      [.picoSocketSend (some 4) "200 OK (Ready to go)\n"] := by decide +kernel
  have htwo : ((reader 4 fun _ => (0, 0)).run init [[72, 69, 76], [76, 79, 10]]).2 = [] := by
    decide +kernel
  have hone' : ((utilizReader 4 fun _ => (0, 0)).run (utilizInit helloState) [hello]).2 =
      [.echoSendSend 4 "200 OK (Ready to go)\n"] := by decide +kernel
  have htwo' : ((utilizReader 4 fun _ => (0, 0)).run (utilizInit helloState)
      [[72, 69, 76], [76, 79, 10]]).2 = [] := by decide +kernel
  refine ⟨hone, htwo, ?_, hone', htwo', ?_⟩
  · intro hfree
    obtain ⟨h₁, h₂⟩ := splits_hello (reader 4 fun _ => (0, 0)) hsize
    have hsame := hfree [] _ _ nofun h₁ h₂
    exact List.cons_ne_nil _ _ (hone.symm.trans (hsame.trans htwo))
  · intro hfree
    obtain ⟨h₁, h₂⟩ := splits_hello (utilizReader 4 fun _ => (0, 0)) hsize
    have hsame := hfree [] _ _ nofun h₁ h₂
    exact List.cons_ne_nil _ _ (hone'.symm.trans (hsame.trans htwo'))

end Camkes.PicotcpSingle.Utilization
