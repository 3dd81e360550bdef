import WeNode.Lib.FileStream

/-!
# Messages on a connection

libraries/net/message_oriented_connection.cpp: a message is sent as its header and its data, padded
with zeros to whole blocks of 16 bytes, and the read loop takes the stream apart again, with 32-bit
arithmetic for the padding.  The socket delivers the bytes in order and throws at their end; the
loop ends only by an exception, of the socket, of its own or of the delegate.
-/

namespace WeNode.Net.Framing

open WeNode.Lib

def maxMessageSize : UInt32 := 1024 * 1024 * 2

/-- `BUFFER_SIZE`, `sizeof( message_header )` and what a buffer holds behind a header -/
def bufferSize : Nat := 16
def headerSize : Nat := 8
def leftover : UInt32 := 8

/-- `message` -/
structure Message where
  size : UInt32 := 0
  msgType : UInt32 := 0
  data : List UInt8 := []
deriving DecidableEq

/- The exceptions the read loop tells apart. -/
inductive Thrown where
  | canceled
  | eof
  | other
deriving DecidableEq

/-! ### Sending -/

/-- The bytes of a `message_header` -/
def Message.header (m : Message) : List UInt8 :=
  encodeLE 4 m.size.toNat ++ encodeLE 4 m.msgType.toNat

def sizeWithPadding (sizeOfMessageAndHeader : Nat) : Nat :=
  16 * ((sizeOfMessageAndHeader + 15) / 16)

/-- `send_message`: the bytes written to the socket -/
def sendMessage (m : Message) : List UInt8 :=
  let sizeOfMessageAndHeader := headerSize + m.size.toNat
  m.header ++ m.data.take m.size.toNat ++
    List.replicate (sizeWithPadding sizeOfMessageAndHeader - sizeOfMessageAndHeader) 0

/-! ### Receiving -/

structure Socket where
  /-- the bytes not yet read -/
  input : List UInt8
  bytesReceived : UInt64 := 0

/-- `_sock.read`, with the count of the bytes -/
def sockRead (n : Nat) : ExceptT Thrown (StateM Socket) (List UInt8) := fun s =>
  if n ≤ s.input.length then
    (.ok (s.input.take n), ⟨s.input.drop n, s.bytesReceived + UInt64.ofNat n⟩)
  else (.error .eof, { s with input := [] })

def remainingBytesWithPadding (size : UInt32) : UInt32 := 16 * ((size - leftover + 15) / 16)

/-- `m.data.resize` -/
def resize (n : Nat) (data : List UInt8) : List UInt8 :=
  data.take n ++ List.replicate (n - data.length) 0

def checkSize (size : UInt32) : ExceptT Thrown (StateM Socket) Unit :=
  if size ≤ maxMessageSize then pure () else throw .other

def readPadded (remaining : UInt32) : ExceptT Thrown (StateM Socket) (List UInt8) :=
  if remaining ≠ 0 then sockRead remaining.toNat else pure []

/- One message, up to the call of the delegate. -/
def readMessage : ExceptT Thrown (StateM Socket) Message := do
  let buffer ← sockRead bufferSize
  let size := UInt32.ofNat (decodeLE (buffer.take 4))
  let msgType := UInt32.ofNat (decodeLE ((buffer.drop 4).take 4))
  checkSize size
  let padded ← readPadded (remainingBytesWithPadding size)
  return ⟨size, msgType, resize size.toNat (buffer.drop headerSize ++ padded)⟩

section

variable {α β : Type} {x : ExceptT Thrown (StateM Socket) α}
  {f : α → ExceptT Thrown (StateM Socket) β} {s s' s₁ : Socket} {a : α} {b : β}

theorem bind_eq (f : α → ExceptT Thrown (StateM Socket) β) (h : x s = (.ok a, s₁)) :
    (x >>= f) s = f a s₁ := by
  simp only [bind, ExceptT.bind, StateT.bind, ExceptT.mk, h, ExceptT.bindCont]

theorem bind_ok (h : (x >>= f) s = (.ok b, s')) :
    ∃ a s₁, x s = (.ok a, s₁) ∧ f a s₁ = (.ok b, s') := by
  cases hx : x s with
  | mk result s₁ =>
    cases result with
    | ok a =>
      rw [bind_eq f hx] at h
      exact ⟨a, s₁, rfl, h⟩
    | error e =>
      simp only [bind, ExceptT.bind, StateT.bind, ExceptT.mk, hx, ExceptT.bindCont] at h
      cases h

theorem sockRead_ok {n : Nat} (h : n ≤ s.input.length) :
    sockRead n s = (.ok (s.input.take n), ⟨s.input.drop n, s.bytesReceived + UInt64.ofNat n⟩) :=
  if_pos h

theorem sockRead_length {n : Nat} {bytes : List UInt8} (h : sockRead n s = (.ok bytes, s')) :
    s'.input.length + n = s.input.length := by
  unfold sockRead at h
  split at h
  · next hle =>
    cases h
    rw [List.length_drop]
    omega
  · cases h

theorem checkSize_length {size : UInt32} {u : Unit} (h : checkSize size s = (.ok u, s')) :
    s' = s := by
  unfold checkSize at h
  split at h
  · exact (congrArg Prod.snd h).symm
  · cases h

theorem readPadded_length {remaining : UInt32} {bytes : List UInt8}
    (h : readPadded remaining s = (.ok bytes, s')) : s'.input.length ≤ s.input.length := by
  unfold readPadded at h
  split at h
  · have := sockRead_length h
    omega
  · have hs : s = s' := congrArg Prod.snd h
    rw [hs]

theorem readMessage_shorter {m : Message} (h : readMessage s = (.ok m, s')) :
    s'.input.length < s.input.length := by
  obtain ⟨buffer, s₁, hbuffer, h⟩ := bind_ok h
  obtain ⟨_, s₂, hcheck, h⟩ := bind_ok h
  obtain ⟨padded, s₃, hpadded, h⟩ := bind_ok h
  have hs : s₃ = s' := congrArg Prod.snd h
  have h16 : s₁.input.length + 16 = s.input.length := sockRead_length hbuffer
  have hle := readPadded_length hpadded
  rw [checkSize_length hcheck, hs] at hle
  omega

end

/-! ### The loop -/

/- What is left when the loop has ended. -/
structure Outcome (σ : Type) where
  /-- the messages the delegate was called with -/
  delivered : List Message
  delegate : σ
  thrown : Thrown
  socket : Socket

/-- The `catch` clauses: `_delegate->on_connection_closed` -/
def Outcome.callOnConnectionClosed {σ : Type} (o : Outcome σ) : Bool :=
  decide (o.thrown ≠ .canceled)

/-- `throw`, `exception_to_rethrow` -/
def Outcome.rethrows {σ : Type} (o : Outcome σ) : Bool := decide (o.thrown ≠ .eof)

def Outcome.after {σ : Type} (m : Message) (o : Outcome σ) : Outcome σ :=
  { o with delivered := m :: o.delivered }

section

variable {σ : Type} (onMessage : σ → Message → Except Thrown σ)

/-- `read_loop` with `_delegate->on_message` -/
def readLoop (delegate : σ) (s : Socket) : Outcome σ :=
  match _h : readMessage s with
  | (.error e, s') => ⟨[], delegate, e, s'⟩
  | (.ok m, s') =>
    match onMessage delegate m with
    | .error e => ⟨[m], delegate, e, s'⟩
    | .ok delegate => (readLoop delegate s').after m
termination_by s.input.length
decreasing_by exact readMessage_shorter ‹_›

end

/-! ### One message there and back -/

/- What a sender promises: the size field is that of the data, and not too large. -/
structure Framed (m : Message) : Prop where
  size_eq : m.size.toNat = m.data.length
  size_le : m.size ≤ maxMessageSize

theorem header_length (m : Message) : m.header.length = 8 := by
  simp [Message.header]

/- Both formulas give whole blocks, and the same number of them; below 8 the subtraction of the
receiver's wraps and the addition wraps back. -/
theorem remaining_add {size : UInt32} (h : size ≤ maxMessageSize) :
    (remainingBytesWithPadding size).toNat + bufferSize
      = sizeWithPadding (headerSize + size.toNat) := by
  have hmax : size.toNat ≤ 1024 * 1024 * 2 := UInt32.le_iff_toNat_le.1 h
  have hsum : (size - leftover + 15).toNat = size.toNat + 7 := by
    rw [UInt32.toNat_add, UInt32.toNat_sub]
    change ((2 ^ 32 - 8 + size.toNat) % 2 ^ 32 + 15) % 2 ^ 32 = _
    omega
  have hblocks : (remainingBytesWithPadding size).toNat = 16 * ((size.toNat + 7) / 16) := by
    unfold remainingBytesWithPadding
    rw [UInt32.toNat_mul, UInt32.toNat_div, hsum]
    change 16 * ((size.toNat + 7) / 16) % 2 ^ 32 = _
    omega
  rw [hblocks]
  unfold sizeWithPadding headerSize bufferSize
  omega

/- The data and the padding. -/
def body (m : Message) : List UInt8 :=
  m.data ++ List.replicate
    (sizeWithPadding (headerSize + m.size.toNat) - (headerSize + m.size.toNat)) 0

theorem sendMessage_eq {m : Message} (h : Framed m) : sendMessage m = m.header ++ body m := by
  have htake : m.data.take m.size.toNat = m.data := by
    rw [h.size_eq, List.take_length]
  simp only [sendMessage, body, htake, List.append_assoc]

theorem sizeWithPadding_le (n : Nat) : n ≤ sizeWithPadding n := by
  unfold sizeWithPadding
  omega

theorem body_length {m : Message} (h : Framed m) :
    (body m).length = 8 + (remainingBytesWithPadding m.size).toNat := by
  have hpadding := remaining_add h.size_le
  have hle := sizeWithPadding_le (headerSize + m.size.toNat)
  have hsize := h.size_eq
  simp only [bufferSize, headerSize] at hpadding hle
  simp only [body, headerSize, List.length_append, List.length_replicate]
  omega

theorem sendMessage_length {m : Message} (h : Framed m) :
    (sendMessage m).length = bufferSize + (remainingBytesWithPadding m.size).toNat := by
  rw [sendMessage_eq h, List.length_append, header_length, body_length h]
  unfold bufferSize
  omega

theorem resize_body {m : Message} (h : Framed m) : resize m.size.toNat (body m) = m.data := by
  have hlen : m.size.toNat - (body m).length = 0 := by
    rw [h.size_eq]
    simp only [body, List.length_append]
    omega
  unfold resize
  rw [hlen, List.replicate_zero, List.append_nil]
  exact List.take_left' h.size_eq.symm

theorem checkSize_ok {m : Message} (h : Framed m) (s : Socket) :
    checkSize m.size s = (.ok (), s) := by
  unfold checkSize
  rw [if_pos h.size_le]
  rfl

theorem readPadded_ok {remaining : UInt32} {s : Socket} (h : remaining.toNat ≤ s.input.length) :
    readPadded remaining s = (.ok (s.input.take remaining.toNat),
      ⟨s.input.drop remaining.toNat, s.bytesReceived + UInt64.ofNat remaining.toNat⟩) := by
  unfold readPadded
  by_cases hzero : remaining ≠ 0
  · rw [if_pos hzero, sockRead_ok h]
  · have h0 : remaining = 0 := Decidable.not_not.1 hzero
    rw [if_neg hzero, h0]
    simp
    rfl

/-- A message that was sent is read, and the bytes after it are left. -/
theorem readMessage_send {m : Message} (h : Framed m) (rest : List UInt8) (n : UInt64) :
    readMessage ⟨sendMessage m ++ rest, n⟩
      = (.ok m, ⟨rest, n + UInt64.ofNat (sendMessage m).length⟩) := by
  have hbody := body_length h
  have hheader := header_length m
  have h8 : 8 ≤ (body m).length := by omega
  have hframe : sendMessage m ++ rest = m.header ++ (body m ++ rest) := by
    rw [sendMessage_eq h, List.append_assoc]
  have hbuffer : (sendMessage m ++ rest).take bufferSize = m.header ++ (body m).take 8 := by
    rw [hframe, show bufferSize = m.header.length + 8 by rw [hheader]; rfl,
      List.take_length_add_append, List.take_append_of_le_length h8]
  have hleft : (sendMessage m ++ rest).drop bufferSize = (body m).drop 8 ++ rest := by
    rw [hframe, show bufferSize = m.header.length + 8 by rw [hheader]; rfl,
      List.drop_length_add_append, List.drop_append_of_le_length h8]
  have hsize : UInt32.ofNat (decodeLE ((m.header ++ (body m).take 8).take 4)) = m.size := by
    have hword : (m.header ++ (body m).take 8).take 4 = encodeLE 4 m.size.toNat := by
      rw [Message.header, List.append_assoc, List.take_left' (encodeLE_length _ _)]
    rw [hword, decodeLE_encodeLE m.size.toNat_lt, UInt32.ofNat_toNat]
  have htype : UInt32.ofNat (decodeLE (((m.header ++ (body m).take 8).drop 4).take 4))
      = m.msgType := by
    have hword : ((m.header ++ (body m).take 8).drop 4).take 4 = encodeLE 4 m.msgType.toNat := by
      rw [Message.header, List.append_assoc, List.drop_left' (encodeLE_length _ _),
        List.take_left' (encodeLE_length _ _)]
    rw [hword, decodeLE_encodeLE m.msgType.toNat_lt, UInt32.ofNat_toNat]
  have hlen : bufferSize ≤ (sendMessage m ++ rest).length := by
    rw [List.length_append, sendMessage_length h]
    omega
  have hpadded : (remainingBytesWithPadding m.size).toNat = ((body m).drop 8).length := by
    rw [List.length_drop]
    omega
  unfold readMessage
  rw [bind_eq _ (sockRead_ok hlen)]
  simp only [hbuffer, hsize, htype, hleft]
  rw [bind_eq _ (checkSize_ok h _), bind_eq _ (readPadded_ok _)]
  · have hdata : (m.header ++ (body m).take 8).drop headerSize ++ (body m).drop 8 = body m := by
      rw [List.drop_left' (show m.header.length = headerSize from hheader), List.take_append_drop]
    have hcount : n + UInt64.ofNat bufferSize
          + UInt64.ofNat (remainingBytesWithPadding m.size).toNat
        = n + UInt64.ofNat (sendMessage m).length := by
      rw [sendMessage_length h, UInt64.ofNat_add, UInt64.add_assoc]
    simp only [List.take_left' hpadded.symm, List.drop_left' hpadded.symm, hdata, resize_body h,
      hcount]
    rfl
  · rw [List.length_append, hpadded]
    exact Nat.le_add_right _ _

/-! ### All of them -/

/- What is on the wire after `send_message` of each. -/
def written (messages : List Message) : List UInt8 := messages.flatMap sendMessage

theorem written_cons (m : Message) (messages : List Message) :
    written (m :: messages) = sendMessage m ++ written messages := rfl

section

variable {σ : Type} {onMessage : σ → Message → Except Thrown σ} {d d' : σ} {s s' : Socket}
  {m : Message} {e : Thrown}

theorem readLoop_throws (h : readMessage s = (.error e, s')) :
    readLoop onMessage d s = ⟨[], d, e, s'⟩ := by
  rw [readLoop]
  split
  · next h' =>
    rw [h] at h'
    cases h'
    rfl
  · next h' =>
    rw [h] at h'
    cases h'

theorem readLoop_refused (h : readMessage s = (.ok m, s')) (hd : onMessage d m = .error e) :
    readLoop onMessage d s = ⟨[m], d, e, s'⟩ := by
  rw [readLoop]
  split
  · next h' =>
    rw [h] at h'
    cases h'
  · next h' =>
    rw [h] at h'
    cases h'
    rw [hd]

theorem readLoop_next (h : readMessage s = (.ok m, s')) (hd : onMessage d m = .ok d') :
    readLoop onMessage d s = (readLoop onMessage d' s').after m := by
  rw [readLoop]
  split
  · next h' =>
    rw [h] at h'
    cases h'
  · next h' =>
    rw [h] at h'
    cases h'
    rw [hd]

variable (onMessage)

/- The loop stops between two frames, at the end of the stream or behind a message whose call
threw. -/
theorem readLoop_written (messages : List Message) (hframed : ∀ m ∈ messages, Framed m) (d : σ)
    (n : UInt64) :
    ∃ later, (readLoop onMessage d ⟨written messages, n⟩).delivered ++ later = messages ∧
      (readLoop onMessage d ⟨written messages, n⟩).socket
        = ⟨written later, n + UInt64.ofNat
            (written (readLoop onMessage d ⟨written messages, n⟩).delivered).length⟩ ∧
      ∀ d', (readLoop onMessage d ⟨written messages, n⟩).delivered.foldlM onMessage d = .ok d' →
        later = [] ∧ (readLoop onMessage d ⟨written messages, n⟩).delegate = d' ∧
          (readLoop onMessage d ⟨written messages, n⟩).thrown = .eof := by
  induction messages generalizing d n with
  | nil =>
    have hend : readMessage ⟨written [], n⟩ = (.error .eof, ⟨[], n⟩) := rfl
    rw [readLoop_throws hend]
    refine ⟨[], rfl, ?_, ?_⟩
    · simp [written]
    · intro d' hd'
      cases hd'
      exact ⟨rfl, rfl, rfl⟩
  | cons m messages ih =>
    have hread := readMessage_send (hframed m List.mem_cons_self) (written messages) n
    rw [written_cons]
    cases hd : onMessage d m with
    | error e =>
      rw [readLoop_refused hread hd]
      refine ⟨messages, rfl, ?_, ?_⟩
      · simp [written]
      · intro d' hd'
        simp [hd] at hd'
    | ok d₁ =>
      obtain ⟨later, hdelivered, hsocket, hend⟩ := ih (fun m' hm' => hframed m'
        (List.mem_cons_of_mem _ hm')) d₁ (n + UInt64.ofNat (sendMessage m).length)
      rw [readLoop_next hread hd]
      refine ⟨later, congrArg (m :: ·) hdelivered, ?_, ?_⟩
      · simp only [Outcome.after, hsocket, written_cons, List.length_append, UInt64.ofNat_add,
          UInt64.add_assoc]
      · intro d' hd'
        simp only [Outcome.after, List.foldlM_cons, hd] at hd'
        exact hend d' hd'

/-- The read loop delivers the messages that were sent, in order and each as it was, and leaves
nothing of the stream, unless a call of the delegate throws; then it stops behind that message.  At
the end of the stream the connection is closed without an exception. -/
theorem readLoop_delivers (messages : List Message) (hframed : ∀ m ∈ messages, Framed m) (d : σ)
    (n : UInt64) :
    (∀ d', messages.foldlM onMessage d = .ok d' →
      readLoop onMessage d ⟨written messages, n⟩
        = ⟨messages, d', .eof, ⟨[], n + UInt64.ofNat (written messages).length⟩⟩ ∧
      (readLoop onMessage d ⟨written messages, n⟩).callOnConnectionClosed = true ∧
      (readLoop onMessage d ⟨written messages, n⟩).rethrows = false) ∧
    (∃ later, (readLoop onMessage d ⟨written messages, n⟩).delivered ++ later = messages ∧
      (readLoop onMessage d ⟨written messages, n⟩).socket.input = written later ∧
      ∀ d', (readLoop onMessage d ⟨written messages, n⟩).delivered.foldlM onMessage d = .ok d' →
        later = []) := by
  obtain ⟨later, hdelivered, hsocket, hend⟩ := readLoop_written onMessage messages hframed d n
  constructor
  · intro d' hd'
    have hprefix : ∃ d₁, (readLoop onMessage d ⟨written messages, n⟩).delivered.foldlM onMessage d
        = .ok d₁ := by
      cases hfold : (readLoop onMessage d ⟨written messages, n⟩).delivered.foldlM onMessage d with
      | ok d₁ => exact ⟨d₁, rfl⟩
      | error e =>
        rw [← hdelivered, List.foldlM_append, hfold] at hd'
        cases hd'
    obtain ⟨d₁, hd₁⟩ := hprefix
    obtain ⟨hlater, hdelegate, hthrown⟩ := hend d₁ hd₁
    rw [hlater, List.append_nil] at hdelivered
    rw [hdelivered, hd'] at hd₁
    cases hd₁
    rw [hlater, hdelivered] at hsocket
    refine ⟨?_, by simp [Outcome.callOnConnectionClosed, hthrown],
      by simp [Outcome.rethrows, hthrown]⟩
    change (⟨(readLoop onMessage d ⟨written messages, n⟩).delivered,
      (readLoop onMessage d ⟨written messages, n⟩).delegate,
      (readLoop onMessage d ⟨written messages, n⟩).thrown,
      (readLoop onMessage d ⟨written messages, n⟩).socket⟩ : Outcome σ) = _
    rw [hdelivered, hdelegate, hthrown, hsocket]
    rfl
  · exact ⟨later, hdelivered, congrArg Socket.input hsocket, fun d' hd' => (hend d' hd').1⟩

/- Two messages, one without data and one that does not fill its last block, and a delegate that
keeps a log. -/
theorem readLoop_delivers_two :
    readLoop (fun log m => .ok (log ++ [m])) []
        ⟨written [⟨0, 5, []⟩, ⟨9, 7, List.replicate 9 255⟩], 0⟩
      = ⟨[⟨0, 5, []⟩, ⟨9, 7, List.replicate 9 255⟩], [⟨0, 5, []⟩, ⟨9, 7, List.replicate 9 255⟩],
        .eof, ⟨[], 48⟩⟩ :=
  (readLoop_delivers (fun log m => .ok (log ++ [m])) [⟨0, 5, []⟩, ⟨9, 7, List.replicate 9 255⟩]
    (by
      intro m hm
      rcases List.mem_cons.1 hm with rfl | hm
      · exact ⟨rfl, by decide⟩
      · rw [List.mem_singleton.1 hm]
        exact ⟨rfl, by decide⟩) [] 0).1 _ rfl |>.1

end

end WeNode.Net.Framing
