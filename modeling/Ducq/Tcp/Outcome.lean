import Ducq.Inet.Reads
import Ducq.Lib.Fifo
import Ducq.Tcp.Capacity

/-!
# What a receive says and what happened

`ducq_tcp_recv` says that the connection is closed when `readn` returns zero, and that is
what `readn` returns at the end of the stream; it is also what it returns when it is asked
for nothing, and a header of value zero asks for nothing (`closedByPeer_iff`).

The table's `recv` says that a receive timed out when the receive failed to read and
`errno` is `EWOULDBLOCK`.  A frame that is cut short by the end of the stream is a failure
to read as well, and leaves `errno` as it was, and so a timeout that is over is reported
again (`timeouts_iff`).
-/

namespace Ducq

open CMemory CNumber ByteStream Fifo

/-! ## The header -/

/-- The reads of the header loop that started at an index, by what it ends with. -/
def HeaderReads (rx : List Arrival) (ptr : ℕ) (rs : List ReadResult) (s' : Socket) :
    Option (ℤ × ℕ) → Prop
  | none => True
  | some (n, ptr') => n < 0 ∧ EndsInFailure rs ∨ n = 0 ∧ .data [] ∈ rs ∨
      0 < n ∧ .data [] ∉ rs ∧ ∃ k, ptr' = ptr + k ∧ ReadsWithin rx (k + 1) rs ∧
        s'.rx = advance rx (k + 1)

/-- A digit was read before. -/
theorem HeaderReads.digit {rx rx' : List Arrival} {ptr : ℕ} {rs rs' : List ReadResult}
    {s' : Socket} {o : Option (ℤ × ℕ)} (hdata : .data [] ∉ rs) (hwithin : ReadsWithin rx 1 rs)
    (hrx : rx' = advance rx 1) (h : HeaderReads rx' (ptr + 1) rs' s' o) :
    HeaderReads rx ptr (rs ++ rs') s' o := by
  rcases o with _ | ⟨n, ptr'⟩
  · exact trivial
  · rcases h with ⟨hn, hfail⟩ | ⟨hn, hmem⟩ | ⟨hn, hmem, k, hk, hwithin', hrx'⟩
    · exact .inl ⟨hn, hfail.append rs⟩
    · exact .inr (.inl ⟨hn, List.mem_append_right _ hmem⟩)
    · rw [hrx] at hwithin'
      have hall := hwithin.append hwithin'
      rw [Nat.add_comm] at hall
      refine .inr (.inr ⟨hn, ?_, k + 1, by omega, hall, ?_⟩)
      · rw [List.mem_append, not_or]
        exact ⟨hdata, hmem⟩
      · rw [hrx', hrx, advance_advance (Nat.succ_pos k)]
        congr 1
        omega

/-- The loop ends on what was read last. -/
theorem ReadnReads.headerReads {rx : List Arrival} {ptr : ℕ} {rs : List ReadResult} {s' : Socket}
    {n : ℤ} (h : ReadnReads rx 1 rs s' n) : HeaderReads rx ptr rs s' (some (n, ptr)) := by
  rcases h with ⟨hn, hfail⟩ | ⟨h0, h1, hwithin, hdata, hrx⟩
  · exact .inl ⟨by omega, hfail⟩
  · rcases Int.lt_or_le 0 n with hpos | hle
    · exact .inr (.inr ⟨hpos, mt hdata.mp (by omega), 0, rfl, hwithin, hrx (by omega)⟩)
    · exact .inr (.inl ⟨by omega, hdata.mpr (by omega)⟩)

/-- **The header loop**, by what it reads. -/
theorem headerLoop_reads (left ptr : ℕ) (s : Socket) (b : Buffer) :
    ∃ rs, ReadsBy s rs (headerLoop left ptr s b).2.1 ∧
      HeaderReads s.rx ptr rs (headerLoop left ptr s b).2.1 (headerLoop left ptr s b).1 := by
  fun_induction headerLoop left ptr s b with
  | case1 ptr s b n s' b' hr hdigit =>
    obtain ⟨rs, hreads, -⟩ := readn_reads 1 ptr s b
    rw [hr] at hreads
    exact ⟨rs, hreads, trivial⟩
  | case2 ptr s b n s' b' hr hdigit left ih =>
    obtain ⟨rs, hreads, hend⟩ := readn_reads 1 ptr s b
    obtain ⟨rs', hreads', hend'⟩ := ih
    rw [hr] at hreads hend
    rcases hend with ⟨hn, -⟩ | ⟨h0, h1, hwithin, hdata, hrx⟩
    · exact absurd hdigit.1 (by omega)
    · exact ⟨rs ++ rs', hreads.trans hreads',
        hend'.digit (mt hdata.mp (by omega)) hwithin (hrx (by omega))⟩
  | case3 left ptr s b n s' b' hr hdigit =>
    obtain ⟨rs, hreads, hend⟩ := readn_reads 1 ptr s b
    rw [hr] at hreads hend
    exact ⟨rs, hreads, hend.headerReads⟩

/-- The values of a call that failed. -/
def IsTcpError (rc : ℤ) : Prop :=
  rc = negated .eread ∨ rc = negated .econnclosed ∨ rc = negated .emsginv ∨ rc = negated .emsgsize

/-- What is behind them. -/
structure ErrorReads (rs : List ReadResult) (rc : ℤ) : Prop where
  isTcpError : IsTcpError rc
  failed : rc = negated .eread → EndsInFailure rs
  ended : rc = negated .econnclosed → .data [] ∈ rs

/-- A message that is refused says nothing of the reads. -/
theorem ErrorReads.refused {rs : List ReadResult} {rc : ℤ}
    (h : rc = negated .emsginv ∨ rc = negated .emsgsize) : ErrorReads rs rc := by
  refine ⟨.inr (.inr h), fun hc => ?_, fun hc => ?_⟩
  · rcases h with rfl | rfl <;> exact absurd hc (by decide)
  · rcases h with rfl | rfl <;> exact absurd hc (by decide)

/-- **The call up to the payload**, by what it reads. -/
theorem tcpRecvLength_reads (size : ℕ) (s : Socket) (b : Buffer) :
    ∃ rs, ReadsBy s rs (tcpRecvLength size s b).2.1 ∧
      (∀ rc, (tcpRecvLength size s b).1 = .error rc → ErrorReads rs rc) ∧
      ∀ ds, LengthRead size s.rx ds → .data [] ∉ rs ∧ ReadsWithin s.rx (ds.length + 1) rs := by
  obtain ⟨rs, hreads, hend⟩ := headerLoop_reads (size - 2) 0 s b
  have hread : ∀ ds, LengthRead size s.rx ds →
      .data [] ∉ rs ∧ ReadsWithin s.rx (ds.length + 1) rs := by
    rintro ds ⟨⟨c, hc⟩, hds, hlen⟩
    obtain ⟨s', h1, -⟩ := @headerLoop_stop (size - 2) 0 s b ds c newline hc hds (by decide) hlen
    rw [h1] at hend
    rcases hend with ⟨hn, -⟩ | ⟨hn, -⟩ | ⟨-, hdata, k, hk, hwithin, -⟩
    · exact absurd hn (by decide)
    · exact absurd hn (by decide)
    · obtain rfl : ds.length = k := by omega
      exact ⟨hdata, hwithin⟩
  suffices hsuff : ReadsBy s rs (tcpRecvLength size s b).2.1 ∧
      ∀ rc, (tcpRecvLength size s b).1 = .error rc → ErrorReads rs rc from
    ⟨rs, hsuff.1, hsuff.2, hread⟩
  rw [tcpRecvLength]
  rcases hl : headerLoop (size - 2) 0 s b with ⟨_ | ⟨n, ptr⟩, s', b'⟩
  · rw [hl] at hreads
    refine ⟨hreads, fun rc hrc => ?_⟩
    exact .refused (.inr (Except.error.inj hrc).symm)
  · rw [hl] at hreads hend
    dsimp only
    split_ifs with hneg hzero hnewline hbig
    · refine ⟨hreads, fun rc hrc => Except.error.inj hrc ▸ ⟨.inl rfl, fun _ => ?_, fun hc => ?_⟩⟩
      · rcases hend with ⟨-, hfail⟩ | ⟨hn, -⟩ | ⟨hn, -⟩
        · exact hfail
        · omega
        · omega
      · exact absurd hc (by decide)
    · refine ⟨hreads, fun rc hrc => Except.error.inj hrc ▸
        ⟨.inr (.inl rfl), fun hc => ?_, fun _ => ?_⟩⟩
      · exact absurd hc (by decide)
      · rcases hend with ⟨hn, -⟩ | ⟨-, hdata⟩ | ⟨hn, -⟩
        · omega
        · exact hdata
        · omega
    · exact ⟨hreads, fun rc hrc => .refused (.inl (Except.error.inj hrc).symm)⟩
    · exact ⟨hreads, fun rc hrc => .refused (.inr (Except.error.inj hrc).symm)⟩
    · exact ⟨hreads, fun rc hrc => by simp at hrc⟩

/-! ## The payload -/

/-- A call that ends before the payload. -/
theorem ducqTcpRecv_of_error {size : ℕ} {s s' : Socket} {b b' : Buffer} {rc : ℤ}
    (h : tcpRecvLength size s b = (.error rc, s', b')) : ducqTcpRecv size s b = (rc, s', b') := by
  rw [ducqTcpRecv, h]

/-- The value of a call that reads a payload, from what `readn` makes of it. -/
def payloadValue (len n : ℤ) : ℤ :=
  if n < 0 then negated .eread
  else if n = 0 then negated .econnclosed
  else if n ≠ len then negated .eread
  else wrap32 n

/-- A call that reads a payload. -/
theorem ducqTcpRecv_of_ok {size : ℕ} {s s' : Socket} {b b' : Buffer} {len : ℤ}
    (h : tcpRecvLength size s b = (.ok len, s', b')) :
    (ducqTcpRecv size s b).1 = payloadValue len (readn (toSizeT len) 0 s' b').1 ∧
      (ducqTcpRecv size s b).2.1 = (readn (toSizeT len) 0 s' b').2.1 := by
  rw [ducqTcpRecv, h, payloadValue]
  dsimp only
  split_ifs
  · exact ⟨rfl, rfl⟩
  · exact ⟨rfl, rfl⟩
  · exact ⟨rfl, rfl⟩
  · exact ⟨rfl, rfl⟩

/-- How many bytes of a payload come, if `readn` does not fail. -/
theorem readn_value {n ptr : ℕ} {s : Socket} {b : Buffer} (h0 : 0 ≤ (readn n ptr s b).1) :
    (readn n ptr s b).1 = (min n (clean s.rx).length : ℕ) := by
  rcases Nat.lt_or_ge (clean s.rx).length n with hlt | hge
  · cases hf : hardFailure s.rx with
    | none =>
      obtain ⟨s', h1, -⟩ := @readn_of_eof n ptr s b hlt hf
      rw [h1, Nat.min_eq_right hlt.le]
    | some e =>
      obtain ⟨s', h1, -⟩ := @readn_of_failure n ptr s b e hlt hf
      rw [h1] at h0
      exact absurd (show (0 : ℤ) ≤ -1 from h0) (by decide)
  · obtain ⟨s', h1, -⟩ := @readn_of_le n ptr s b hge
    rw [h1, Nat.min_eq_left hge]

/-- `readn` does not fail where there is no failure. -/
theorem readn_nonneg {n ptr : ℕ} {s : Socket} {b : Buffer} (h : failuresWithin s.rx n = []) :
    0 ≤ (readn n ptr s b).1 := by
  rcases Nat.lt_or_ge (clean s.rx).length n with hlt | hge
  · obtain ⟨s', h1, -⟩ := @readn_of_eof n ptr s b hlt (hardFailure_eq_none_of_failuresWithin h hlt)
    rw [h1]
    exact Int.natCast_nonneg _
  · obtain ⟨s', h1, -⟩ := @readn_of_le n ptr s b hge
    rw [h1]
    exact Int.natCast_nonneg _

theorem LengthRead.eq_takeWhile {size : ℕ} {rx : List Arrival} {ds : List Byte}
    (h : LengthRead size rx ds) : (clean rx).takeWhile isDigit = ds := by
  obtain ⟨⟨c, hc⟩, hds, -⟩ := h
  rw [hc, takeWhile_isDigit_append hds (by decide)]

/-- The reads of a call that comes to its payload: `rs` for the header with the digits `ds`, and
`rs'` for `readn`, which returned `n`. -/
structure PayloadReads (size : ℕ) (rx : List Arrival) (ds : List Byte)
    (rs rs' : List ReadResult) (s' : Socket) (n : ℤ) : Prop where
  header : LengthRead size rx ds
  accepted : checkedLength (value ds) ≤ size
  notMem : .data [] ∉ rs
  within : ReadsWithin rx (ds.length + 1) rs
  payload : ReadnReads (advance rx (ds.length + 1)) (toSizeT (wrap32 (saturate (value ds))))
    rs' s' n
  count : 0 ≤ n → n = (min (toSizeT (wrap32 (saturate (value ds))))
    (clean (advance rx (ds.length + 1))).length : ℕ)
  nonneg : failuresWithin (advance rx (ds.length + 1))
    (toSizeT (wrap32 (saturate (value ds)))) = [] → 0 ≤ n

/-- **The call**, by what it reads: it fails before the payload, with no header that is
accepted, or its value is what it makes of the payload. -/
theorem ducqTcpRecv_reads (size : ℕ) (s : Socket) (b : Buffer) :
    (∃ rs, ReadsBy s rs (ducqTcpRecv size s b).2.1 ∧ ErrorReads rs (ducqTcpRecv size s b).1 ∧
        ∀ ds, LengthRead size s.rx ds → size < checkedLength (value ds)) ∨
      ∃ ds rs rs' n, ReadsBy s (rs ++ rs') (ducqTcpRecv size s b).2.1 ∧
        PayloadReads size s.rx ds rs rs' (ducqTcpRecv size s b).2.1 n ∧
        (ducqTcpRecv size s b).1 = payloadValue (wrap32 (saturate (value ds))) n := by
  obtain ⟨rs, hreads, herror, hheader⟩ := tcpRecvLength_reads size s b
  by_cases hread : ∃ ds, LengthRead size s.rx ds
  · obtain ⟨ds, hds⟩ := hread
    obtain ⟨s₁, h1, hrx, -⟩ := @tcpRecvLength_of_read size s b ds hds
    obtain ⟨hdata, hwithin⟩ := hheader ds hds
    by_cases hbig : checkedLength (value ds) > size
    · -- the check refuses it
      rw [if_pos hbig] at h1
      rw [h1] at hreads herror
      rw [ducqTcpRecv_of_error h1]
      refine .inl ⟨rs, hreads, herror _ rfl, fun ds' hds' => ?_⟩
      rwa [← hds'.eq_takeWhile, hds.eq_takeWhile]
    · rw [if_neg hbig] at h1
      rw [h1] at hreads
      obtain ⟨hvalue, hsocket⟩ := ducqTcpRecv_of_ok h1
      obtain ⟨rs', hreads', hend⟩ := readn_reads (toSizeT (wrap32 (saturate (value ds)))) 0 s₁
        (headerBuffer b ds)
      rw [hrx, ← hsocket] at hend
      refine .inr ⟨ds, rs, rs', _, hsocket ▸ hreads.trans hreads',
        ⟨hds, not_lt.mp hbig, hdata, hwithin, hend, ?_, ?_⟩, hvalue⟩
      · rw [← hrx]
        exact readn_value
      · rw [← hrx]
        exact readn_nonneg
  · obtain ⟨rc, s', b', h1, -⟩ := @tcpRecvLength_of_no_read size s b hread
    rw [h1] at hreads herror
    rw [ducqTcpRecv_of_error h1]
    exact .inl ⟨rs, hreads, herror rc rfl, fun ds hds => absurd ⟨ds, hds⟩ hread⟩

/-! ## The connection is closed -/

/-- The call tells that the connection is closed only if a `read` has returned zero. -/
def ClosedByPeer (size : ℕ) (s : Socket) (b : Buffer) : Prop :=
  (ducqTcpRecv size s b).1 = negated .econnclosed →
    .data [] ∈ readsDuring s (ducqTcpRecv size s b).2.1

theorem toSizeT_wrap32_saturate_eq_zero_iff (v : ℕ) :
    toSizeT (wrap32 (saturate v)) = 0 ↔ wrap32 (saturate v) = 0 := by
  unfold toSizeT wrap32
  omega

/-- An `int` that a message's length is, is returned as it is. -/
theorem wrap32_wrap32 (z : ℤ) : wrap32 (wrap32 z) = wrap32 z := by
  unfold wrap32
  omega

/-- Only a payload of which nothing came is taken for the end. -/
theorem payloadValue_closed {z n : ℤ} (h : payloadValue (wrap32 z) n = negated .econnclosed) :
    n = 0 := by
  unfold payloadValue at h
  split_ifs at h with hneg hzero hlen
  · exact absurd h (by decide)
  · exact hzero
  · exact absurd h (by decide)
  · rw [not_not.mp hlen, wrap32_wrap32, ← not_not.mp hlen] at h
    have hclosed : negated .econnclosed < 0 := by decide
    omega

/-- The length zero passes the check of any buffer there is. -/
theorem checkedLength_of_eq_zero {v : ℕ} (h : wrap32 (saturate v) = 0) : checkedLength v = 1 := by
  rw [← toSizeT_wrap32_succ, h]
  rfl

/-- **`closed` means the end of the stream**, exactly if no header is read that spells
zero. -/
theorem closedByPeer_iff (size : ℕ) (s : Socket) (b : Buffer) :
    ClosedByPeer size s b ↔
      ¬ ∃ ds, LengthRead size s.rx ds ∧ wrap32 (saturate (value ds)) = 0 ∧ 0 < size := by
  unfold ClosedByPeer
  rcases ducqTcpRecv_reads size s b with
    ⟨rs, hreads, herror, hno⟩ | ⟨ds, rs, rs', n, hreads, hpayload, hvalue⟩
  · rw [hreads.readsDuring_eq]
    refine iff_of_true herror.ended ?_
    rintro ⟨ds, hds, hzero, hsize⟩
    have hbig := hno ds hds
    rw [checkedLength_of_eq_zero hzero] at hbig
    omega
  · have honly : (∃ ds, LengthRead size s.rx ds ∧ wrap32 (saturate (value ds)) = 0 ∧ 0 < size) ↔
        wrap32 (saturate (value ds)) = 0 ∧ 0 < size := by
      constructor
      · rintro ⟨ds', hds', hzero⟩
        rwa [← hpayload.header.eq_takeWhile, hds'.eq_takeWhile]
      · exact fun h => ⟨ds, hpayload.header, h⟩
    rw [honly, hvalue, hreads.readsDuring_eq, List.mem_append, or_iff_right hpayload.notMem]
    by_cases hzero : wrap32 (saturate (value ds)) = 0
    · -- nothing is asked for, and nothing comes
      have hnothing := (toSizeT_wrap32_saturate_eq_zero_iff (value ds)).mpr hzero
      have hsize := hpayload.accepted
      rw [checkedLength_of_eq_zero hzero] at hsize
      have h0 := hpayload.nonneg (by rw [hnothing, failuresWithin_zero])
      have hn := hpayload.count h0
      rw [hnothing, Nat.zero_min, Nat.cast_zero] at hn
      rw [hn, hzero]
      refine iff_of_false (fun h => ?_) fun h => h ⟨rfl, by omega⟩
      rcases hpayload.payload with ⟨hfail, -⟩ | ⟨-, -, -, hdata, -⟩
      · omega
      · have hlt := hdata.mp (h rfl)
        omega
    · have hsome := mt (toSizeT_wrap32_saturate_eq_zero_iff (value ds)).mp hzero
      refine iff_of_true (fun h => ?_) fun h => hzero h.1
      have hn := payloadValue_closed h
      rcases hpayload.payload with ⟨hfail, -⟩ | ⟨-, -, -, hdata, -⟩
      · omega
      · exact hdata.mpr (by omega)

/-- **An empty message** as it is sent, with another one behind it: the receiver takes the
connection for closed. -/
theorem not_closedByPeer_empty :
    (ducqTcpSend (ascii "hi") (ducqTcpSend [] (Socket.receiving [])).2).2.tx =
        ascii "0\n2\nhi" ∧
      (ducqTcpRecv ducqMsgsz (Socket.receiving [.chunk 48 (ascii "\n2\nhi")])
        (Buffer.fresh fun _ => 0)).1 = negated .econnclosed ∧
      ¬ ClosedByPeer ducqMsgsz (Socket.receiving [.chunk 48 (ascii "\n2\nhi")])
        (Buffer.fresh fun _ => 0) := by
  have hclosed : (ducqTcpRecv ducqMsgsz (Socket.receiving [.chunk 48 (ascii "\n2\nhi")])
      (Buffer.fresh fun _ => 0)).1 = negated .econnclosed := by decide
  have hreads : ReadResult.data [] ∉ readsDuring (Socket.receiving [.chunk 48 (ascii "\n2\nhi")])
      (ducqTcpRecv ducqMsgsz (Socket.receiving [.chunk 48 (ascii "\n2\nhi")])
        (Buffer.fresh fun _ => 0)).2.1 := by decide
  exact ⟨by decide, hclosed, fun h => hreads (h hclosed)⟩

/-! ## The receive timed out -/

/-- A frame whose payload is begun and then cut short by the end of the stream, without a
failure on the way; or one whose length is negative. -/
structure CutShort (size : ℕ) (rx : List Arrival) (ds c : List Byte) : Prop where
  clean_eq : clean rx = ds ++ newline :: c
  isDigit_of_mem : ∀ d ∈ ds, isDigit d = true
  length_digits : ds.length ≤ size - 2
  accepted : checkedLength (value ds) ≤ size
  begun : c ≠ [] ∧ wrap32 (saturate (value ds)) ≠ 0
  short : ¬ (0 ≤ wrap32 (saturate (value ds)) ∧ wrap32 (saturate (value ds)) ≤ c.length)
  unfailed : failuresWithin rx (ds.length + 1 + toSizeT (wrap32 (saturate (value ds)))) = []

/-- An earlier call timed out, `errno` still says so, and a frame is cut short. -/
def StaleTimeout (size : ℕ) (s : Socket) : Prop :=
  s.errno = some .ewouldblock ∧ ∃ ds c, CutShort size s.rx ds c

/-- The call says that it timed out only if one of its reads did. -/
def TimedOutHonestly (size : ℕ) (s : Socket) (b : Buffer) : Prop :=
  (tcpRecv size s b).1 = .etimeout →
    .fail .ewouldblock ∈ readsDuring s (tcpRecv size s b).2.2.1

/-- A call returns a length, or fails in one of four ways. -/
theorem ducqTcpRecv_value (size : ℕ) (s : Socket) (b : Buffer) :
    0 ≤ (ducqTcpRecv size s b).1 ∨ IsTcpError (ducqTcpRecv size s b).1 := by
  rcases ducqTcpRecv_reads size s b with
    ⟨rs, -, herror, -⟩ | ⟨ds, rs, rs', n, -, -, hvalue⟩
  · exact .inr herror.isTcpError
  · rw [hvalue, payloadValue]
    split_ifs with hneg hzero hlen
    · exact .inr (.inl rfl)
    · exact .inr (.inr (.inl rfl))
    · exact .inr (.inl rfl)
    · rw [not_not.mp hlen, wrap32_wrap32, ← not_not.mp hlen]
      exact .inl (not_lt.mp hneg)

/-- When `recv` says that it timed out. -/
theorem tcpRecv_etimeout_iff (size : ℕ) (s : Socket) (b : Buffer) :
    (tcpRecv size s b).1 = .etimeout ↔
      (ducqTcpRecv size s b).1 = negated .eread ∧
        (ducqTcpRecv size s b).2.1.errno = some .ewouldblock := by
  have hvalue := ducqTcpRecv_value size s b
  rw [tcpRecv]
  rcases hr : ducqTcpRecv size s b with ⟨rc, s', b'⟩
  rw [hr] at hvalue
  dsimp only at hvalue ⊢
  split_ifs with hrc herrno
  · refine iff_of_false not_false fun h => absurd hrc (not_le.mpr ?_)
    exact h.1 ▸ negated_neg DucqState.noConfusion
  · exact iff_of_true rfl ⟨by rw [negated]; omega, herrno.2⟩
  · refine iff_of_false (fun h => ?_) fun h => herrno ⟨by rw [h.1, negated, neg_neg], h.2⟩
    have hcode : DucqState.ofCode (-rc).toNat = .etimeout := h
    rcases hvalue with hpos | rfl | rfl | rfl | rfl
    · exact hrc hpos
    · exact absurd hcode (by decide)
    · exact absurd hcode (by decide)
    · exact absurd hcode (by decide)
    · exact absurd hcode (by decide)

/-- Both leave the same descriptor. -/
theorem socket_tcpRecv (size : ℕ) (s : Socket) (b : Buffer) :
    (tcpRecv size s b).2.2.1 = (ducqTcpRecv size s b).2.1 := by
  rw [tcpRecv]
  dsimp only
  split_ifs
  · rfl
  · rfl
  · rfl

/-- A call that failed says why. -/
theorem ReadsBy.mem_of_endsInFailure {s s' : Socket} {rs : List ReadResult} (h : ReadsBy s rs s')
    (hfail : EndsInFailure rs) {e : Errno} (he : s'.errno = some e) : .fail e ∈ rs := by
  obtain ⟨e', -, hlast⟩ := hfail
  obtain ⟨herrno, hmem⟩ := h.errno_of_getLast? hlast
  obtain rfl := Option.some.inj (herrno.symm.trans he)
  exact hmem

/-- An `int` as a `size_t`. -/
theorem toSizeT_wrap32 (z : ℤ) :
    (toSizeT (wrap32 z) : ℤ) = if 0 ≤ wrap32 z then wrap32 z else 2 ^ 64 + wrap32 z := by
  unfold toSizeT wrap32
  split_ifs <;> omega

/-- When a payload that did not fail is not whole. -/
theorem payloadValue_eread_iff {z : ℤ} {k : ℕ} :
    payloadValue (wrap32 z) (min (toSizeT (wrap32 z)) k : ℕ) = negated .eread ↔
      (k ≠ 0 ∧ wrap32 z ≠ 0) ∧ ¬ (0 ≤ wrap32 z ∧ wrap32 z ≤ k) := by
  have hsize := toSizeT_wrap32 z
  have hrange : -2 ^ 31 ≤ wrap32 z := by
    unfold wrap32
    split_ifs <;> omega
  unfold payloadValue
  rw [if_neg (not_lt.mpr (Int.natCast_nonneg _))]
  by_cases hpos : 0 ≤ wrap32 z
  · rw [if_pos hpos] at hsize
    split_ifs with hzero hlen
    · exact iff_of_false (by decide) fun h => by omega
    · exact iff_of_true rfl (by omega)
    · refine iff_of_false (fun h => ?_) fun h => by omega
      rw [not_not.mp hlen, wrap32_wrap32] at h
      exact absurd (h ▸ hpos) (not_le.mpr (negated_neg DucqState.noConfusion))
  · rw [if_neg hpos] at hsize
    split_ifs with hzero hlen
    · exact iff_of_false (by decide) fun h => by omega
    · exact iff_of_true rfl (by omega)
    · exact absurd (not_not.mp hlen) (by omega)

theorem CutShort.lengthRead {size : ℕ} {rx : List Arrival} {ds c : List Byte}
    (h : CutShort size rx ds c) : LengthRead size rx ds :=
  ⟨⟨c, h.clean_eq⟩, h.isDigit_of_mem, h.length_digits⟩

/-- What is left behind a header that has been read. -/
theorem length_clean_advance_header {rx : List Arrival} {ds c : List Byte}
    (hc : clean rx = ds ++ newline :: c) :
    (clean (advance rx (ds.length + 1))).length = c.length := by
  have hle : ds.length + 1 ≤ (clean rx).length := by
    rw [hc, List.length_append, List.length_cons]
    omega
  have hlen := congrArg List.length hc
  rw [List.length_append, List.length_cons] at hlen
  rw [clean_advance hle, List.length_drop]
  omega

/-- A header is read in one way only. -/
theorem exists_cutShort_iff {size : ℕ} {rx : List Arrival} {ds c : List Byte}
    (hds : LengthRead size rx ds) (hc : clean rx = ds ++ newline :: c) :
    (∃ ds c, CutShort size rx ds c) ↔ CutShort size rx ds c := by
  constructor
  · rintro ⟨ds', c', h⟩
    obtain rfl : ds' = ds := h.lengthRead.eq_takeWhile.symm.trans hds.eq_takeWhile
    have heq := List.append_cancel_left (h.clean_eq.symm.trans hc)
    rwa [← (List.cons.inj heq).2]
  · exact fun h => ⟨ds, c, h⟩

/-- **One call.**  It tells a timeout for a timeout, exactly if no earlier one can be taken
for its own. -/
theorem timedOutHonestly_iff (size : ℕ) (s : Socket) (b : Buffer) :
    TimedOutHonestly size s b ↔ ¬ StaleTimeout size s := by
  unfold TimedOutHonestly StaleTimeout
  rw [tcpRecv_etimeout_iff, socket_tcpRecv]
  rcases ducqTcpRecv_reads size s b with
    ⟨rs, hreads, herror, hno⟩ | ⟨ds, rs, rs', n, hreads, hpayload, hvalue⟩
  · rw [hreads.readsDuring_eq]
    refine iff_of_true (fun h => hreads.mem_of_endsInFailure (herror.failed h.1) h.2) ?_
    rintro ⟨-, ds, c, h⟩
    exact absurd h.accepted (not_le.mpr (hno ds h.lengthRead))
  · obtain ⟨c, hc⟩ := hpayload.header.1
    have hsplit := failuresWithin_add s.rx (ds.length + 1) (toSizeT (wrap32 (saturate (value ds))))
    rw [exists_cutShort_iff hpayload.header hc, hvalue, hreads.readsDuring_eq]
    rcases hpayload.payload with ⟨hn, hfail⟩ | ⟨h0, -, hwithin, -, -⟩
    · -- the payload failed, and that is no lie
      refine iff_of_true (fun h => hreads.mem_of_endsInFailure (hfail.append rs) h.2) fun h => ?_
      have hunfailed := h.2.unfailed
      rw [hsplit, List.append_eq_nil_iff] at hunfailed
      have hnonneg := hpayload.nonneg hunfailed.2
      omega
    · have hall := hpayload.within.append hwithin
      rw [hpayload.count h0, length_clean_advance_header hc, payloadValue_eread_iff,
        List.length_eq_zero_iff.ne]
      constructor
      · -- nothing failed, and `errno` is what it was
        rintro h ⟨herrno, hcut⟩
        have hnil := hall.failed_eq.trans hcut.unfailed
        have hmem := h ⟨⟨hcut.begun, hcut.short⟩, by
          rw [hreads.errno, hnil, List.getLast?_nil, Option.none_or, herrno]⟩
        rw [← mem_failed_iff, hnil] at hmem
        exact List.not_mem_nil hmem
      · rintro h ⟨⟨hbegun, hshort⟩, herrno⟩
        obtain ⟨hnil, hbefore⟩ := hreads.failed_eq_nil hall.eintr_of_mem (by decide) herrno
        obtain ⟨-, hds, hlen⟩ := hpayload.header
        exact absurd ⟨hbefore, hc, hds, hlen, hpayload.accepted, hbegun, hshort,
          hall.failed_eq.symm.trans hnil⟩ h

/-- A call of `recv` in a sequence of them: what it was given, what it returned, and what the
`read` calls it made returned. -/
structure TcpCall where
  count : ℕ
  buf : Buffer
  before : Socket
  state : DucqState
  reads : List ReadResult

/-- The call of `recv` with a buffer and its size. -/
def TcpCall.of (count : ℕ) (buf : Buffer) (s : Socket) : TcpCall :=
  ⟨count, buf, s, (tcpRecv count s buf).1, readsDuring s (tcpRecv count s buf).2.2.1⟩

/-- `recv` is called on a connection, with any buffer. -/
def TcpRecvs (s : Socket) (call : TcpCall) (s' : Socket) : Prop :=
  call = .of call.count call.buf s ∧ s' = (tcpRecv call.count s call.buf).2.2.1

/-- **A timeout is reported only for a timeout**, in every call of a sequence, exactly if no
call of it meets a frame that is cut short while `errno` still tells of a timeout. -/
theorem timeouts_iff {s s' : Socket} {calls : List TcpCall} (hrun : Run TcpRecvs s calls s') :
    (∀ call ∈ calls, call.state = .etimeout → .fail .ewouldblock ∈ call.reads) ↔
      ∀ call ∈ calls, ¬ StaleTimeout call.count call.before := by
  have hcall : ∀ call ∈ calls, ((call.state = .etimeout → .fail .ewouldblock ∈ call.reads) ↔
      ¬ StaleTimeout call.count call.before) := by
    refine (Run.forall_mem (I := fun _ => True) (fun s call s' _ hstep => ?_) hrun trivial).2
    refine ⟨trivial, ?_⟩
    rw [hstep.1]
    exact timedOutHonestly_iff call.count s call.buf
  exact forall₂_congr hcall

/-- A connection that times out once and then brings some bytes and ends. -/
def timedOutOnce (bs : List Byte) : Socket := .receiving (.fail .ewouldblock :: push bs [])

/-- Two calls on it. -/
def callTwice (s : Socket) : List TcpCall :=
  [.of ducqMsgsz (Buffer.fresh fun _ => 0) s,
    .of ducqMsgsz (Buffer.fresh fun _ => 0)
      (tcpRecv ducqMsgsz s (Buffer.fresh fun _ => 0)).2.2.1]

theorem run_callTwice (s : Socket) : ∃ s', Run TcpRecvs s (callTwice s) s' :=
  ⟨_, .cons ⟨rfl, rfl⟩ (.cons ⟨rfl, rfl⟩ (.nil _))⟩

theorem timeouts_iff_hello :
    (∀ call ∈ callTwice (timedOutOnce (ascii "5\nhello")),
        call.state = .etimeout → .fail .ewouldblock ∈ call.reads) ↔
      ∀ call ∈ callTwice (timedOutOnce (ascii "5\nhello")),
        ¬ StaleTimeout call.count call.before := by
  obtain ⟨s', hrun⟩ := run_callTwice (timedOutOnce (ascii "5\nhello"))
  exact timeouts_iff hrun

/-- **A frame cut short after a timeout** is reported as another timeout. -/
theorem not_timeouts_cutShort :
    (callTwice (timedOutOnce (ascii "5\nhe"))).map TcpCall.state = [.etimeout, .etimeout] ∧
      (callTwice (timedOutOnce (ascii "5\nhe"))).map TcpCall.reads =
        [[.fail .ewouldblock],
          [.data (ascii "5"), .data (ascii "\n"), .data (ascii "he"), .data []]] ∧
      ¬ ∀ s s' calls, Run TcpRecvs s calls s' →
        ∀ call ∈ calls, call.state = .etimeout → .fail .ewouldblock ∈ call.reads := by
  refine ⟨by decide, by decide, fun h => ?_⟩
  obtain ⟨s', hrun⟩ := run_callTwice (timedOutOnce (ascii "5\nhe"))
  have hlast := h _ _ _ hrun _ (List.mem_cons_of_mem _ List.mem_cons_self)
  exact absurd (hlast (by decide)) (by decide)

end Ducq
