import Ducq.Tcp.Capacity

/-!
# Many frames on one connection

A `Frame` is what a peer that follows the protocol puts on the wire: some digits, a
newline, and as many bytes of payload as the digits say.  Everything here is about
streams that are nothing but frames, one after another, and about a receiver that
calls `ducq_tcp_recv` again and again.

One call has one of three outcomes.  If the first frame arrives cleanly it is
delivered, and the stream that is left begins with the next frame
(`ducqTcpRecv_frame`); if nothing arrives and the stream has ended the call says so
(`ducqTcpRecv_closed`); if nothing arrives before a failure the call fails and has
used up nothing but the failure (`ducqTcpRecv_failure`).  The two results are
inductions over the calls.

* With no failure but interruptions the receiver gets what the sender sent, message
  by message, for every way the bytes are cut (`sendAll_recvCalls`).
* With read timeouts the messages stay in step with the frames as long as every
  timeout strikes between two frames (`staysInSync_of_boundaries`).  A timeout inside
  a frame loses what the call had already read, because the next call starts with a
  header again.
-/

namespace Ducq

open CMemory CNumber ByteStream

/-! ## Frames -/

/-- A well-formed frame, for a receiver with `size` bytes of room. -/
structure Frame (size : ℕ) where
  digits : List Byte
  payload : List Byte
  isDigit_of_mem : ∀ d ∈ digits, isDigit d = true
  value_digits : value digits = payload.length
  length_digits : digits.length + 2 ≤ size
  payload_ne_nil : payload ≠ []
  length_payload : payload.length < size

namespace Frame

variable {size : ℕ}

/-- The frame as it stands on the wire. -/
def bytes (f : Frame size) : List Byte := f.digits ++ newline :: f.payload

/-- A stream of frames. -/
def stream (fs : List (Frame size)) : List Byte := (fs.map bytes).flatten

/-- Where the frames of a stream begin and end. -/
def boundaries : List (Frame size) → List ℕ
  | [] => [0]
  | f :: fs => 0 :: (boundaries fs).map (· + f.bytes.length)

theorem bytes_eq (f : Frame size) : f.bytes = (f.digits ++ [newline]) ++ f.payload := by
  rw [bytes, List.append_assoc, List.singleton_append]

theorem length_bytes (f : Frame size) :
    f.bytes.length = f.digits.length + 1 + f.payload.length := by
  rw [bytes_eq, List.length_append, List.length_append, List.length_singleton]

theorem length_bytes_pos (f : Frame size) : 0 < f.bytes.length := by
  have := f.length_bytes
  omega

@[simp] theorem stream_nil : stream ([] : List (Frame size)) = [] := rfl

@[simp] theorem stream_cons (f : Frame size) (fs : List (Frame size)) :
    stream (f :: fs) = f.bytes ++ stream fs := by
  rw [stream, List.map_cons, List.flatten_cons, stream]

/-- No frame ends inside the first one. -/
theorem eq_zero_of_mem_boundaries {f : Frame size} {fs : List (Frame size)} {k : ℕ}
    (h : k ∈ boundaries (f :: fs)) (hk : k < f.bytes.length) : k = 0 := by
  rw [boundaries, List.mem_cons] at h
  rcases h with h | h
  · exact h
  · obtain ⟨j, -, rfl⟩ := List.mem_map.mp h
    omega

/-- The boundaries past the first frame are those of the others. -/
theorem mem_boundaries_of_add {f : Frame size} {fs : List (Frame size)} {k : ℕ}
    (h : k + f.bytes.length ∈ boundaries (f :: fs)) : k ∈ boundaries fs := by
  have := f.length_bytes_pos
  rw [boundaries, List.mem_cons] at h
  rcases h with h | h
  · omega
  · obtain ⟨j, hj, hjk⟩ := List.mem_map.mp h
    have hkj : k = j := by omega
    rwa [hkj]

/-- The header the sender writes announces the payload behind it. -/
def ofMessage (m : List Byte) (hm : m ≠ [] ∧ m.length < ducqMsgsz) : Frame ducqMsgsz where
  digits := decimal m.length
  payload := m
  isDigit_of_mem _ hd := isDigit_of_mem_decimal hd
  value_digits := value_decimal m.length
  length_digits := by
    have h3 : (decimal m.length).length ≤ 3 :=
      length_decimal_le (by omega) (lt_trans hm.2 (by norm_num))
    show _ ≤ 256
    omega
  payload_ne_nil := hm.1
  length_payload := hm.2

end Frame

/-! ## One call -/

/-- **A frame that arrives is delivered**, and the next one is first in line. -/
theorem ducqTcpRecv_frame {size : ℕ} (hsize : size < 2 ^ 31) (f : Frame size) {s : Socket}
    {b : Buffer} {c : List Byte} (hc : clean s.rx = f.bytes ++ c) :
    ∃ s' b', ducqTcpRecv size s b = ((f.payload.length : ℤ), s', b') ∧
      s'.rx = advance s.rx f.bytes.length ∧
      b'.slice 0 (f.payload.length + 1) = f.payload ++ [0] := by
  have hlt := f.length_payload
  have hpos : 0 < f.payload.length := List.length_pos_iff.mpr f.payload_ne_nil
  have hlen : (clean s.rx).length = f.digits.length + 1 + f.payload.length + c.length := by
    rw [hc, List.length_append, f.length_bytes]
  have hheader : HeaderArrives size s.rx f.digits := by
    refine ⟨⟨f.payload ++ c, ?_⟩, f.isDigit_of_mem, f.length_digits⟩
    rw [hc, Frame.bytes, List.append_assoc, List.cons_append]
  obtain ⟨s₁, h1, h2, -⟩ := @tcpRecvLength_of_header size s b f.digits hheader
  rw [f.value_digits, checkedLength_of_lt (by omega), if_neg (by omega),
    wrap32_saturate_of_lt (by omega)] at h1
  -- the payload is what arrives next
  have hc₁ : clean s₁.rx = f.payload ++ c := by
    have hsplit : clean s.rx = (f.digits ++ [newline]) ++ (f.payload ++ c) := by
      rw [hc, f.bytes_eq, List.append_assoc]
    rw [h2, clean_advance (by omega), hsplit]
    exact List.drop_left' (by simp)
  obtain ⟨s₂, h3, h4, -⟩ := @readn_of_le f.payload.length 0 s₁ (headerBuffer b f.digits)
    (by rw [hc₁, List.length_append]; omega)
  rw [hc₁, List.take_left] at h3
  refine ⟨s₂, ((headerBuffer b f.digits).store 0 f.payload).put f.payload.length 0, ?_, ?_, ?_⟩
  · rw [ducqTcpRecv, h1]
    simp only [toSizeT_of_lt (show f.payload.length < 2 ^ 64 by omega), h3]
    rw [if_neg (by omega), if_neg (by omega), if_neg (by simp),
      wrap32_of_lt (by omega), Int.toNat_natCast]
  · rw [h4, h2, advance_advance hpos, f.length_bytes]
  · have hslice := Buffer.slice_store_put (headerBuffer b f.digits) 0 f.payload 0
    rwa [Nat.zero_add] at hslice

/-- The stream has ended. -/
theorem ducqTcpRecv_closed {size : ℕ} {s : Socket} {b : Buffer} (hc : clean s.rx = [])
    (hf : hardFailure s.rx = none) :
    ∃ s', ducqTcpRecv size s b = (negated .econnclosed, s', b) ∧ s'.rx = [] := by
  obtain ⟨s', h1, h2, -⟩ := @headerLoop_eof (size - 2) 0 s b (by simp [hc]) (by simp [hc]) hf
  refine ⟨s', ?_, h2⟩
  rw [ducqTcpRecv, tcpRecvLength, h1, hc]
  rfl

/-- Nothing arrives before a failure: the call fails, and only the failure is gone. -/
theorem ducqTcpRecv_failure {size : ℕ} {s : Socket} {b : Buffer} {e : Errno}
    (hc : clean s.rx = []) (hf : hardFailure s.rx = some e) :
    ∃ s', ducqTcpRecv size s b = (negated .eread, s', b) ∧ s'.rx = afterFailure s.rx ∧
      s'.errno = some e := by
  obtain ⟨s', h1, h2, h3, -⟩ :=
    @headerLoop_failure (size - 2) 0 s b e (by simp [hc]) (by simp [hc]) hf
  refine ⟨s', ?_, h3 hc, h2⟩
  rw [ducqTcpRecv, tcpRecvLength, h1, hc]
  rfl

/-! ## A whole conversation -/

/-- The messages sent one after another with `ducq_tcp_send`. -/
def sendAll : List (List Byte) → Socket → List ℤ × Socket
  | [], s => ([], s)
  | m :: ms, s =>
    let (rc, s) := ducqTcpSend m s
    let (rcs, s) := sendAll ms s
    (rc :: rcs, s)

/-- `ducq_tcp_recv` called again and again, each time on the next of the caller's
buffers: what it returns, and the buffer. -/
def recvCalls (size : ℕ) : List (ℕ → Byte) → Socket → List (ℤ × Buffer)
  | [], _ => []
  | cells :: bufs, s =>
    let (rc, s, b) := ducqTcpRecv size s (Buffer.fresh cells)
    (rc, b) :: recvCalls size bufs s

/-- What the caller finds after a call: the value, and if it is a length, the bytes up
to and including the one at that length. -/
def received : ℤ × Buffer → ℤ × Option (List Byte)
  | (rc, b) => (rc, if rc ≥ 0 then some (b.slice 0 (rc.toNat + 1)) else none)

/-- One message is written as one frame. -/
theorem ducqTcpSend_of_writable {m : List Byte} (hm : m ≠ [] ∧ m.length < ducqMsgsz)
    {s : Socket} (hw : Writable s.wx) :
    ∃ s', ducqTcpSend m s = ((m.length : ℤ), s') ∧
      s'.tx = s.tx ++ (Frame.ofMessage m hm).bytes ∧ Writable s'.wx := by
  have h3 : (decimal m.length).length ≤ 3 :=
    length_decimal_le (by omega) (lt_trans hm.2 (by norm_num))
  obtain ⟨s₁, h1, h2, h4, -⟩ := writen_of_writable (tcpHeader m.length) hw
  obtain ⟨s₂, h5, h6, h7, -⟩ := writen_of_writable m h4
  have hheader : (tcpHeader m.length).length = (decimal m.length).length + 1 := by
    rw [tcpHeader, List.length_append, List.length_singleton]
  refine ⟨s₂, ?_, ?_, h7⟩
  · have hlt : m.length < 2 ^ 31 := lt_trans hm.2 (by norm_num)
    rw [ducqTcpSend]
    simp only [h1, h5, ne_eq, not_true_eq_false, if_false, wrap32_of_lt hlt]
    rw [if_neg (by omega)]
  · rw [h6, h2, Frame.bytes_eq, List.append_assoc]
    rfl

/-- **The sender writes a stream of frames.** -/
theorem sendAll_of_writable {ms : List (List Byte)}
    (hms : ∀ m ∈ ms, m ≠ [] ∧ m.length < ducqMsgsz) {s : Socket} (hw : Writable s.wx) :
    ∃ fs : List (Frame ducqMsgsz), fs.map Frame.payload = ms ∧
      (sendAll ms s).1 = ms.map (fun m => (m.length : ℤ)) ∧
      (sendAll ms s).2.tx = s.tx ++ Frame.stream fs := by
  induction ms generalizing s with
  | nil => exact ⟨[], rfl, rfl, (List.append_nil _).symm⟩
  | cons m ms ih =>
    have hm := hms m List.mem_cons_self
    obtain ⟨s₁, h1, h2, h3⟩ := ducqTcpSend_of_writable hm hw
    obtain ⟨fs, h4, h5, h6⟩ := ih (fun m h => hms m (List.mem_cons_of_mem _ h)) h3
    refine ⟨Frame.ofMessage m hm :: fs, ?_, ?_, ?_⟩
    · rw [List.map_cons, h4]
      rfl
    · rw [sendAll, h1]
      simp only [h5, List.map_cons]
    · rw [sendAll, h1]
      simp only [h6, h2, Frame.stream_cons, List.append_assoc]

/-- **The receiver gets the payloads**, then the end of the stream. -/
theorem recvCalls_of_stream {size : ℕ} (hsize : size < 2 ^ 31) (fs : List (Frame size))
    {s : Socket} (hbytes : bytes s.rx = Frame.stream fs) (hf : hardFailure s.rx = none)
    (bufs : List (ℕ → Byte)) (hbufs : bufs.length = fs.length + 1) :
    (recvCalls size bufs s).map received =
      fs.map (fun f => ((f.payload.length : ℤ), some (f.payload ++ [0]))) ++
        [(negated .econnclosed, none)] := by
  induction fs generalizing s bufs with
  | nil =>
    obtain ⟨cells, rfl⟩ := List.length_eq_one_iff.mp hbufs
    have hc : clean s.rx = [] := by rw [clean_eq_bytes hf, hbytes, Frame.stream_nil]
    obtain ⟨s', h1, -⟩ := @ducqTcpRecv_closed size s (Buffer.fresh cells) hc hf
    simp only [recvCalls, h1]
    rfl
  | cons f fs ih =>
    obtain ⟨cells, bufs, rfl⟩ := List.exists_cons_of_length_pos (l := bufs) (by omega)
    have hc : clean s.rx = f.bytes ++ Frame.stream fs := by
      rw [clean_eq_bytes hf, hbytes, Frame.stream_cons]
    have hle : f.bytes.length ≤ (clean s.rx).length := by
      rw [hc, List.length_append]
      omega
    obtain ⟨s', b', h1, h2, h3⟩ := @ducqTcpRecv_frame size hsize f s (Buffer.fresh cells) _ hc
    have hf' : hardFailure s'.rx = none := by rw [h2, hardFailure_advance hle, hf]
    have hbytes' : bytes s'.rx = Frame.stream fs := by
      rw [← clean_eq_bytes hf', h2, clean_advance hle, hc, List.drop_left]
    have hrest := ih hbytes' hf' bufs (by simpa using hbufs)
    simp only [recvCalls, h1, List.map_cons, hrest, List.cons_append]
    simp [received, h3]

/-- **What one end sends the other end receives**, message by message, each with its
terminator, and then the end of the stream.  `wx` is how the sender's writes are cut
and interrupted, `rx` how the same bytes reach the receiver, and the receiver's
buffers may hold anything beforehand. -/
theorem sendAll_recvCalls {ms : List (List Byte)}
    (hms : ∀ m ∈ ms, m ≠ [] ∧ m.length < ducqMsgsz) {sender receiver : Socket}
    (hwx : Writable sender.wx) (htx : sender.tx = [])
    (hrx : bytes receiver.rx = (sendAll ms sender).2.tx)
    (hf : hardFailure receiver.rx = none)
    (bufs : List (ℕ → Byte)) (hbufs : bufs.length = ms.length + 1) :
    (recvCalls ducqMsgsz bufs receiver).map received =
      ms.map (fun m => ((m.length : ℤ), some (m ++ [0]))) ++ [(negated .econnclosed, none)] := by
  obtain ⟨fs, hfs, -, htx'⟩ := sendAll_of_writable hms hwx
  rw [htx', htx, List.nil_append] at hrx
  rw [recvCalls_of_stream (by norm_num) fs hrx hf bufs (by
    rw [hbufs, ← hfs, List.length_map]), ← hfs, List.map_map]
  rfl

/-- Two messages, written in pieces with an interruption, read back cut elsewhere. -/
theorem sendAll_recvCalls_two :
    (recvCalls ducqMsgsz [fun _ => 0, fun _ => 7, fun _ => 0]
        (Socket.receiving [.chunk 50 (newline :: ascii "h"), .fail .eintr,
          .chunk 105 (ascii "1" ++ [newline]), .chunk 33 []])).map received =
      [ascii "hi", ascii "!"].map (fun m => ((m.length : ℤ), some (m ++ [0]))) ++
        [(negated .econnclosed, none)] := by
  refine @sendAll_recvCalls [ascii "hi", ascii "!"] (by decide)
    ⟨[], [], [.accept 1, .fail .eintr, .accept 2], none, []⟩ _ ?_ rfl (by decide) rfl
    [fun _ => 0, fun _ => 7, fun _ => 0] rfl
  intro a ha
  simp only [List.mem_cons, List.not_mem_nil, or_false] at ha
  rcases ha with rfl | rfl | rfl
  · exact Or.inr ⟨0, rfl⟩
  · exact Or.inl rfl
  · exact Or.inr ⟨1, rfl⟩

/-! ## Read timeouts -/

/-- `_recv` of the TCP table called again and again, whatever it returns, each time on
the next of the caller's buffers: the messages it returned with `DUCQ_OK`. -/
def okMessages : List (ℕ → Byte) → Socket → List (List Byte)
  | [], _ => []
  | cells :: bufs, s =>
    match tcpRecv ducqMsgsz s (Buffer.fresh cells) with
    | (.ok, count, s, b) => b.slice 0 count :: okMessages bufs s
    | (_, _, s, _) => okMessages bufs s

/-- The messages are in step with the frames, for as many calls as one likes. -/
def StaysInSync (fs : List (Frame ducqMsgsz)) (rx : List Arrival) : Prop :=
  ∀ bufs, okMessages bufs (Socket.receiving rx) <+: fs.map Frame.payload

/-- A call that fails returns no message. -/
theorem okMessages_of_failed {cells : ℕ → Byte} {bufs : List (ℕ → Byte)} {s s' : Socket}
    {b' : Buffer} {st : DucqState} (hst : st ≠ .ok)
    (h : ducqTcpRecv ducqMsgsz s (Buffer.fresh cells) = (negated st, s', b')) :
    okMessages (cells :: bufs) s = okMessages bufs s' := by
  have hpos := DucqState.code_pos hst
  have hst' : DucqState.ofCode (-negated st).toNat = st := by
    rw [negated, neg_neg, Int.toNat_natCast, DucqState.ofCode_code]
  rw [okMessages.eq_def]
  simp only [tcpRecv, h, hst', if_neg (show ¬ negated st ≥ 0 by rw [negated]; omega)]
  split_ifs
  · rfl
  · cases st <;> first | rfl | exact absurd rfl hst

/-- A call that receives a frame returns its payload. -/
theorem okMessages_of_frame {f : Frame ducqMsgsz} {cells : ℕ → Byte} {bufs : List (ℕ → Byte)}
    {s s' : Socket} {b' : Buffer}
    (h : ducqTcpRecv ducqMsgsz s (Buffer.fresh cells) = ((f.payload.length : ℤ), s', b'))
    (hslice : b'.slice 0 (f.payload.length + 1) = f.payload ++ [0]) :
    okMessages (cells :: bufs) s = f.payload :: okMessages bufs s' := by
  have hlt : f.payload.length < 2 ^ 64 := lt_trans f.length_payload (by norm_num)
  rw [okMessages.eq_def]
  simp only [tcpRecv, h, if_pos (show (f.payload.length : ℤ) ≥ 0 by omega), toSizeT_of_lt hlt]
  have hpayload := congrArg (List.take f.payload.length) hslice
  rw [List.take_left, Buffer.take_slice _ _ (Nat.le_succ _)] at hpayload
  rw [hpayload]

/-- **Failures between the frames only**: what arrives before the first of them, if
anything does, begins with a whole frame. -/
theorem clean_of_frame {f : Frame ducqMsgsz} {fs : List (Frame ducqMsgsz)} {s : Socket}
    (hbytes : bytes s.rx = Frame.stream (f :: fs))
    (hat : ∀ k ∈ failureOffsets s.rx, k ∈ Frame.boundaries (f :: fs)) (hc : clean s.rx ≠ []) :
    ∃ c, clean s.rx = f.bytes ++ c := by
  have hle : f.bytes.length ≤ (clean s.rx).length := by
    by_contra hlt
    cases hf : hardFailure s.rx with
    | none =>
      rw [clean_eq_bytes hf, hbytes, Frame.stream_cons, List.length_append] at hlt
      omega
    | some e =>
      -- a failure inside the first frame would not be at a boundary
      have hfailed : (clean s.rx).length ∈ failureOffsets s.rx := by
        rw [failureOffsets_of_hardFailure hf]
        exact List.mem_cons_self
      have h0 := Frame.eq_zero_of_mem_boundaries (hat _ hfailed) (by omega)
      exact hc (List.length_eq_zero_iff.mp h0)
  have hpre : f.bytes <+: bytes s.rx := by
    rw [hbytes, Frame.stream_cons]
    exact List.prefix_append _ _
  obtain ⟨c, hcc⟩ := List.prefix_of_prefix_length_le hpre (clean_prefix_bytes s.rx) hle
  exact ⟨c, hcc.symm⟩

/-- **One call on a stream of frames**: the next frame, or nothing. -/
theorem okMessages_step {fs : List (Frame ducqMsgsz)} {s : Socket}
    (hbytes : bytes s.rx = Frame.stream fs)
    (hat : ∀ k ∈ failureOffsets s.rx, k ∈ Frame.boundaries fs) (cells : ℕ → Byte)
    (bufs : List (ℕ → Byte)) :
    ∃ (fs' : List (Frame ducqMsgsz)) (s' : Socket), bytes s'.rx = Frame.stream fs' ∧
      (∀ k ∈ failureOffsets s'.rx, k ∈ Frame.boundaries fs') ∧
      ((fs' = fs ∧ okMessages (cells :: bufs) s = okMessages bufs s') ∨
        ∃ f, fs = f :: fs' ∧ okMessages (cells :: bufs) s = f.payload :: okMessages bufs s') := by
  by_cases hc : clean s.rx = []
  · -- nothing arrives before the end of the stream, or before a failure
    cases hf : hardFailure s.rx with
    | none =>
      obtain ⟨s', h1, h2⟩ := @ducqTcpRecv_closed ducqMsgsz s (Buffer.fresh cells) hc hf
      have hnil : Frame.stream fs = [] := by rw [← hbytes, ← clean_eq_bytes hf, hc]
      refine ⟨fs, s', by rw [h2, hnil]; rfl, by simp [h2, failureOffsets], Or.inl ⟨rfl, ?_⟩⟩
      exact okMessages_of_failed (by decide) h1
    | some e =>
      obtain ⟨s', h1, h2, -⟩ := @ducqTcpRecv_failure ducqMsgsz s (Buffer.fresh cells) e hc hf
      refine ⟨fs, s', ?_, ?_, Or.inl ⟨rfl, okMessages_of_failed (by decide) h1⟩⟩
      · rw [h2, ← hbytes, bytes_eq_clean_append s.rx, hc, List.nil_append]
      · intro k hk
        refine hat k ?_
        rw [failureOffsets_of_hardFailure hf, hc]
        rw [h2] at hk
        simpa using Or.inr hk
  · cases fs with
    | nil =>
      rw [Frame.stream_nil] at hbytes
      have := clean_prefix_bytes s.rx
      rw [hbytes, List.prefix_nil] at this
      exact absurd this hc
    | cons f fs =>
      obtain ⟨c, hclean⟩ := clean_of_frame hbytes hat hc
      obtain ⟨s', b', h1, h2, h3⟩ :=
        @ducqTcpRecv_frame ducqMsgsz (by norm_num) f s (Buffer.fresh cells) c hclean
      have hle : f.bytes.length ≤ (clean s.rx).length := by
        rw [hclean, List.length_append]
        omega
      have hle' : f.bytes.length ≤ (bytes s.rx).length := by
        rw [hbytes, Frame.stream_cons, List.length_append]
        omega
      refine ⟨fs, s', ?_, ?_, Or.inr ⟨f, rfl, ?_⟩⟩
      · rw [h2, bytes_advance hle', hbytes, Frame.stream_cons, List.drop_left]
      · intro k hk
        refine Frame.mem_boundaries_of_add (hat (k + f.bytes.length) ?_)
        rw [failureOffsets_advance hle, ← h2]
        exact List.mem_map_of_mem hk
      · exact okMessages_of_frame h1 h3

/-- The calls of a whole run. -/
theorem okMessages_prefix (bufs : List (ℕ → Byte)) {fs : List (Frame ducqMsgsz)} {s : Socket}
    (hbytes : bytes s.rx = Frame.stream fs)
    (hat : ∀ k ∈ failureOffsets s.rx, k ∈ Frame.boundaries fs) :
    okMessages bufs s <+: fs.map Frame.payload := by
  induction bufs generalizing fs s with
  | nil => exact List.nil_prefix
  | cons cells bufs ih =>
    obtain ⟨fs', s', h1, h2, ⟨rfl, h3⟩ | ⟨f, rfl, h3⟩⟩ := okMessages_step hbytes hat cells bufs
    · rw [h3]
      exact ih h1 h2
    · rw [h3, List.map_cons]
      exact (List.prefix_cons_inj _).mpr (ih h1 h2)

/-- **Timeouts between frames do no harm.** -/
theorem staysInSync_of_boundaries {fs : List (Frame ducqMsgsz)} {rx : List Arrival}
    (hbytes : bytes rx = Frame.stream fs)
    (hat : ∀ k ∈ failureOffsets rx, k ∈ Frame.boundaries fs) : StaysInSync fs rx :=
  fun bufs => okMessages_prefix bufs hbytes hat

/-- A timeout before the first frame and one between two frames. -/
theorem staysInSync_two :
    StaysInSync [Frame.ofMessage (ascii "hi") (by decide), Frame.ofMessage (ascii "!") (by decide)]
      [.fail .ewouldblock, .chunk 50 (newline :: ascii "hi"), .fail .ewouldblock,
        .chunk 49 (newline :: ascii "!")] :=
  staysInSync_of_boundaries (by decide) (by decide)

/-- **A timeout inside a header loses it.**  The first digit of `12` is gone when the
call times out; the next call reads a header that says `2` and returns two of the
twelve bytes as a message. -/
theorem not_staysInSync_twelve :
    bytes [.chunk 49 [], .fail .ewouldblock, .chunk 50 (newline :: ascii "abcdefghijkl")] =
        Frame.stream [Frame.ofMessage (ascii "abcdefghijkl") (by decide)] ∧
      ¬ StaysInSync [Frame.ofMessage (ascii "abcdefghijkl") (by decide)]
        [.chunk 49 [], .fail .ewouldblock, .chunk 50 (newline :: ascii "abcdefghijkl")] := by
  refine ⟨by decide, fun h => ?_⟩
  have hprefix := h [fun _ => 0, fun _ => 0]
  exact absurd hprefix (by decide)

end Ducq
