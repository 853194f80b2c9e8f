import Ducq.Tcp.Frame

/-!
# Does `ducq_tcp_recv` stay inside the caller's buffer?

The header is a number a peer chooses, and it goes through `strtol`, an `int`, an
`int` addition and a comparison with a `size_t` before it becomes the number of bytes
`readn` is asked for.  `RecvStaysInside` is what that check is there for: the number
asked for is the number the header spells, it leaves room for the terminator, and
nothing is written past the capacity.

The header arrives, or the call ends before the check (`tcpRecvLength_of_header`,
`tcpRecvLength_of_no_header`).  When it arrives, everything depends on the number `v`
it spells.  Below `2 ^ 31` the conversions do nothing and the check does its work.
From `2 ^ 31` on, what is compared with the capacity is `checkedLength v`, the low 32
bits of `v + 1` with their sign, and every `v` that gets past it breaks the property.
`4294967295` always does: its `int` is `-1`, the sum is `0`, and `readn` is asked for
`2 ^ 64 - 1` bytes.
-/

namespace Ducq

open CMemory CNumber ByteStream

/-! ## The header -/

/-- The digits `ds` and a newline arrive cleanly, with room to spare for both. -/
def HeaderArrives (size : ℕ) (rx : List Arrival) (ds : List Byte) : Prop :=
  (∃ c, clean rx = ds ++ newline :: c) ∧ (∀ d ∈ ds, isDigit d = true) ∧ ds.length + 2 ≤ size

theorem takeWhile_isDigit_append {ds c : List Byte} {x : Byte}
    (hds : ∀ d ∈ ds, isDigit d = true) (hx : isDigit x = false) :
    (ds ++ x :: c).takeWhile isDigit = ds := by
  rw [List.takeWhile_append_of_pos hds, List.takeWhile_cons_of_neg (by simp [hx]),
    List.append_nil]

theorem HeaderArrives.eq_takeWhile {size : ℕ} {rx : List Arrival} {ds : List Byte}
    (h : HeaderArrives size rx ds) : (clean rx).takeWhile isDigit = ds := by
  obtain ⟨⟨c, hc⟩, hds, -⟩ := h
  rw [hc, takeWhile_isDigit_append hds (by decide)]

/-- The digits before the first newline of the stream are those of the header. -/
theorem HeaderArrives.eq_takeWhile_bytes {size : ℕ} {rx : List Arrival} {ds : List Byte}
    (h : HeaderArrives size rx ds) : (bytes rx).takeWhile isDigit = ds := by
  obtain ⟨⟨c, hc⟩, hds, -⟩ := h
  obtain ⟨t, ht⟩ := clean_prefix_bytes rx
  rw [← ht, hc, List.append_assoc, List.cons_append,
    takeWhile_isDigit_append hds (by decide)]

/-- What the capacity is compared with when the header spells `v`: the low 32 bits of
`v + 1`, with `v` saturated as a `long`, extended to 64 bits with their sign. -/
def checkedLength (v : ℕ) : ℕ :=
  let low := (min v (2 ^ 63 - 1) + 1) % 2 ^ 32
  if low < 2 ^ 31 then low else 2 ^ 64 - 2 ^ 32 + low

theorem toSizeT_wrap32_succ (v : ℕ) :
    toSizeT (wrap32 (wrap32 (saturate v) + 1)) = checkedLength v := by
  unfold toSizeT wrap32 saturate checkedLength
  dsimp only
  split_ifs <;> omega

theorem checkedLength_of_lt {v : ℕ} (h : v + 1 < 2 ^ 31) : checkedLength v = v + 1 := by
  unfold checkedLength
  dsimp only
  split_ifs <;> omega

/-- The buffer once the header has been read and its newline overwritten. -/
def headerBuffer (b : Buffer) (ds : List Byte) : Buffer :=
  (b.store 0 (ds ++ [newline])).put ds.length 0

theorem slice_headerBuffer (b : Buffer) (ds : List Byte) :
    (headerBuffer b ds).slice 0 (ds.length + 1) = ds ++ [0] := by
  rw [← Buffer.slice_store_put b 0 ds 0]
  refine Buffer.slice_congr fun j _ _ => ?_
  rw [headerBuffer, Buffer.store_append_singleton, Nat.zero_add]
  by_cases hj : j = ds.length <;> simp [Buffer.put, hj]

theorem within_headerBuffer {b : Buffer} {ds : List Byte} {size : ℕ} (hb : b.Within size)
    (hlen : ds.length + 2 ≤ size) : (headerBuffer b ds).Within size := by
  refine Buffer.within_put.mpr ⟨by omega, Buffer.within_store hb ?_⟩
  rw [List.length_append, List.length_singleton]
  omega

/-- The digits `ds` and a newline arrive cleanly, and the header loop comes to the newline,
whether or not there is room for a terminator. -/
def LengthRead (size : ℕ) (rx : List Arrival) (ds : List Byte) : Prop :=
  (∃ c, clean rx = ds ++ newline :: c) ∧ (∀ d ∈ ds, isDigit d = true) ∧ ds.length ≤ size - 2

theorem HeaderArrives.read {size : ℕ} {rx : List Arrival} {ds : List Byte}
    (h : HeaderArrives size rx ds) : LengthRead size rx ds := by
  obtain ⟨hc, hds, hlen⟩ := h
  exact ⟨hc, hds, by omega⟩

/-- **When the header is read**, the call is about to ask `readn` for the number it
spells, as an `int`, unless the check refuses it. -/
theorem tcpRecvLength_of_read {size : ℕ} {s : Socket} {b : Buffer} {ds : List Byte}
    (h : LengthRead size s.rx ds) :
    ∃ s', tcpRecvLength size s b =
        (if checkedLength (value ds) > size then .error (negated .emsgsize)
          else .ok (wrap32 (saturate (value ds))), s', headerBuffer b ds) ∧
      s'.rx = advance s.rx (ds.length + 1) ∧ SameWrites s s' := by
  obtain ⟨⟨c, hc⟩, hds, hlen⟩ := h
  obtain ⟨s', h1, h2, h3⟩ := @headerLoop_stop (size - 2) 0 s b ds c newline hc hds
    (by decide) hlen
  refine ⟨s', ?_, h2, h3⟩
  have hcell : (b.store 0 (ds ++ [newline])).cells (0 + ds.length) = newline := by
    rw [Buffer.store_append, cells_store_singleton]
  have hatoi : atoi ((headerBuffer b ds).slice 0 (0 + ds.length + 1)) =
      wrap32 (saturate (value ds)) := by
    rw [Nat.zero_add, slice_headerBuffer, atoi_of_digits hds]
  rw [tcpRecvLength, h1]
  simp only [hcell, ne_eq, not_true_eq_false, if_false, if_neg (by decide : ¬ (1 : ℤ) < 0),
    if_neg (by decide : ¬ (1 : ℤ) = 0)]
  rw [show ((b.store 0 (ds ++ [newline])).put (0 + ds.length) 0) = headerBuffer b ds by
    rw [Nat.zero_add]; rfl, hatoi, toSizeT_wrap32_succ]
  split_ifs <;> rfl

/-- A header that arrives is read. -/
theorem tcpRecvLength_of_header {size : ℕ} {s : Socket} {b : Buffer} {ds : List Byte}
    (h : HeaderArrives size s.rx ds) :
    ∃ s', tcpRecvLength size s b =
        (if checkedLength (value ds) > size then .error (negated .emsgsize)
          else .ok (wrap32 (saturate (value ds))), s', headerBuffer b ds) ∧
      s'.rx = advance s.rx (ds.length + 1) ∧ SameWrites s s' :=
  tcpRecvLength_of_read h.read

/-- **When it is not read**, the call returns before the check, and has written inside
the buffer only, if there is one. -/
theorem tcpRecvLength_of_no_read {size : ℕ} {s : Socket} {b : Buffer}
    (h : ¬ ∃ ds, LengthRead size s.rx ds) :
    ∃ rc s' b', tcpRecvLength size s b = (.error rc, s', b') ∧
      (2 ≤ size → b.Within size → b'.Within size) := by
  set ds := (clean s.rx).takeWhile isDigit with hdsdef
  have hsplit : clean s.rx = ds ++ (clean s.rx).dropWhile isDigit :=
    List.takeWhile_append_dropWhile.symm
  have hds : ∀ d ∈ ds, isDigit d = true := fun d hd => List.mem_takeWhile_imp hd
  by_cases hlen : ds.length ≤ size - 2
  · cases hrest : (clean s.rx).dropWhile isDigit with
    | nil =>
      -- nothing but digits arrives
      rw [hrest, List.append_nil] at hsplit
      have hstore : 2 ≤ size → b.Within size → (b.store 0 (clean s.rx)).Within size :=
        fun hsize hb => Buffer.within_store hb (by rw [hsplit]; omega)
      cases hf : hardFailure s.rx with
      | none =>
        obtain ⟨s', h1, -, -⟩ := @headerLoop_eof (size - 2) 0 s b (hsplit ▸ hds)
          (hsplit ▸ hlen) hf
        refine ⟨negated .econnclosed, s', b.store 0 (clean s.rx), ?_, hstore⟩
        rw [tcpRecvLength, h1]
        rfl
      | some e =>
        obtain ⟨s', h1, -, -, -⟩ := @headerLoop_failure (size - 2) 0 s b e (hsplit ▸ hds)
          (hsplit ▸ hlen) hf
        refine ⟨negated .eread, s', b.store 0 (clean s.rx), ?_, hstore⟩
        rw [tcpRecvLength, h1]
        rfl
    | cons x c =>
      have hx : isDigit x = false := by
        have := List.head?_dropWhile_not isDigit (clean s.rx)
        rw [hrest] at this
        simpa using this
      rw [hrest] at hsplit
      have hne : x ≠ newline := by
        rintro rfl
        exact h ⟨ds, ⟨c, hsplit⟩, hds, hlen⟩
      obtain ⟨s', h1, -, -⟩ := @headerLoop_stop (size - 2) 0 s b ds c x hsplit hds hx hlen
      refine ⟨negated .emsginv, s', b.store 0 (ds ++ [x]), ?_, fun hsize hb =>
        Buffer.within_store hb (by rw [List.length_append, List.length_singleton]; omega)⟩
      have hcell : (b.store 0 (ds ++ [x])).cells (0 + ds.length) = x := by
        rw [Buffer.store_append, cells_store_singleton]
      rw [tcpRecvLength, h1]
      simp only [hcell, ne_eq, hne, not_false_eq_true, if_true,
        if_neg (by decide : ¬ (1 : ℤ) < 0), if_neg (by decide : ¬ (1 : ℤ) = 0)]
  · -- the digits reach the end of the buffer
    have htake : ((clean s.rx).take (size - 2 + 1)).length = size - 2 + 1 := by
      rw [hsplit, List.length_take, List.length_append]
      omega
    have hdig : ∀ d ∈ (clean s.rx).take (size - 2 + 1), isDigit d = true := by
      intro d hd
      rw [hsplit, List.take_append_of_le_length (by omega)] at hd
      exact hds d (List.mem_of_mem_take hd)
    obtain ⟨s', h1, -⟩ := @headerLoop_full (size - 2) 0 s b ((clean s.rx).take (size - 2 + 1))
      ((clean s.rx).drop (size - 2 + 1)) (List.take_append_drop _ _).symm hdig htake
    refine ⟨negated .emsgsize, s', b.store 0 ((clean s.rx).take (size - 2 + 1)), ?_,
      fun hsize hb => Buffer.within_store hb (by omega)⟩
    rw [tcpRecvLength, h1]

/-- A header that does not arrive is not read. -/
theorem tcpRecvLength_of_no_header {size : ℕ} (hsize : 2 ≤ size) {s : Socket} {b : Buffer}
    (h : ¬ ∃ ds, HeaderArrives size s.rx ds) :
    ∃ rc s' b', tcpRecvLength size s b = (.error rc, s', b') ∧
      (b.Within size → b'.Within size) := by
  have hread : ¬ ∃ ds, LengthRead size s.rx ds := by
    rintro ⟨ds, hc, hds, hlen⟩
    exact h ⟨ds, hc, hds, by omega⟩
  obtain ⟨rc, s', b', h1, h2⟩ := @tcpRecvLength_of_no_read size s b hread
  exact ⟨rc, s', b', h1, h2 hsize⟩

/-! ## The property -/

/-- What the size check is there for.  If the call gets as far as asking `readn` for
the payload, the number of bytes it asks for is the number spelled by the digits
before the newline and leaves room for the terminator; and no byte is written at or
past the capacity. -/
def RecvStaysInside (size : ℕ) (s : Socket) (b : Buffer) : Prop :=
  (∀ len, (tcpRecvLength size s b).1 = .ok len →
    toSizeT len = value ((bytes s.rx).takeWhile isDigit) ∧ toSizeT len ≤ size - 1) ∧
  (ducqTcpRecv size s b).2.2.Within size

/-- What `ducq_tcp_recv` returns is an error of its first part, or it goes on to read
the payload over the header. -/
theorem within_ducqTcpRecv {size : ℕ} {s : Socket} {b : Buffer}
    (hb : (tcpRecvLength size s b).2.2.Within size)
    (h : ∀ len, (tcpRecvLength size s b).1 = .ok len → 0 ≤ len ∧ len.toNat < size ∧
      toSizeT len = len.toNat) :
    (ducqTcpRecv size s b).2.2.Within size := by
  rw [ducqTcpRecv]
  rcases hr : tcpRecvLength size s b with ⟨_ | len, s', b'⟩
  · rw [hr] at hb
    exact hb
  · rw [hr] at hb h
    obtain ⟨h0, hlt, hlen⟩ := h len rfl
    have hread := @within_readn (toSizeT len) 0 size s' b' hb (by omega)
    dsimp only
    split_ifs
    · exact hread
    · exact hread
    · exact hread
    · exact Buffer.within_put.mpr ⟨hlt, hread⟩

/-- A number that gets past the check from `2 ^ 31` on is not what `readn` is asked
for, or does not fit. -/
theorem not_faithful_of_le {v size : ℕ} (hv : 2 ^ 31 ≤ v) (hsize : size < 2 ^ 64) :
    ¬ (toSizeT (wrap32 (saturate v)) = v ∧ toSizeT (wrap32 (saturate v)) ≤ size - 1) := by
  unfold toSizeT wrap32 saturate
  split_ifs <;> omega

/-- Below `2 ^ 31` the check leaves room for the terminator. -/
theorem lt_of_checkedLength_le {v size : ℕ} (hv : v < 2 ^ 31) (h : checkedLength v ≤ size) :
    v < size := by
  unfold checkedLength at h
  dsimp only at h
  split_ifs at h <;> omega

/-- A header that arrives decides: its number is small, or the check refuses it. -/
theorem small_or_refused {size : ℕ} (hsize : size < 2 ^ 64) {s : Socket} {b : Buffer}
    {ds : List Byte} (h : RecvStaysInside size s b) (hds : HeaderArrives size s.rx ds) :
    value ds < 2 ^ 31 ∨ size < checkedLength (value ds) := by
  by_contra hcon
  rw [not_or, not_lt, not_lt] at hcon
  obtain ⟨s', h1, -, -⟩ := @tcpRecvLength_of_header size s b ds hds
  have hok := h.1 (wrap32 (saturate (value ds))) (by rw [h1, if_neg (not_lt.mpr hcon.2)])
  rw [hds.eq_takeWhile_bytes] at hok
  exact not_faithful_of_le hcon.1 hsize hok

/-- **The buffer is safe exactly when the header spells a number below `2 ^ 31` or one
that the check refuses.**  The check refuses `v` when the low 32 bits of `v + 1`, with
their sign, exceed the capacity. -/
theorem recvStaysInside_iff {size : ℕ} (h3 : 3 ≤ size) (hsize : size < 2 ^ 64) (s : Socket)
    (cells : ℕ → Byte) :
    RecvStaysInside size s (Buffer.fresh cells) ↔
      ∀ ds, HeaderArrives size s.rx ds → value ds < 2 ^ 31 ∨ size < checkedLength (value ds) := by
  have hfresh : (Buffer.fresh cells).Within size := Buffer.within_fresh _ _
  constructor
  · intro h ds hds
    exact small_or_refused hsize h hds
  · intro h
    by_cases hex : ∃ ds, HeaderArrives size s.rx ds
    · obtain ⟨ds, hds⟩ := hex
      obtain ⟨s', h1, -, -⟩ := @tcpRecvLength_of_header size s (Buffer.fresh cells) ds hds
      -- an accepted number is below `2 ^ 31`, so it is its own `int`
      have hok : ∀ len, (tcpRecvLength size s (Buffer.fresh cells)).1 = .ok len →
          len = value ds ∧ value ds < size ∧ value ds < 2 ^ 31 := by
        intro len hlen
        rw [h1] at hlen
        dsimp only at hlen
        split_ifs at hlen with hc
        have hv := (h ds hds).resolve_right hc
        injection hlen with hlen
        rw [wrap32_saturate_of_lt hv] at hlen
        exact ⟨hlen.symm, lt_of_checkedLength_le hv (not_lt.mp hc), hv⟩
      refine ⟨fun len hlen => ?_, within_ducqTcpRecv ?_ fun len hlen => ?_⟩
      · obtain ⟨rfl, hlt, hv⟩ := hok len hlen
        rw [hds.eq_takeWhile_bytes, toSizeT_of_lt (by omega)]
        exact ⟨rfl, by omega⟩
      · rw [h1]
        exact within_headerBuffer hfresh hds.2.2
      · obtain ⟨rfl, hlt, hv⟩ := hok len hlen
        rw [toSizeT_of_lt (by omega)]
        omega
    · obtain ⟨rc, s', b', h1, h2⟩ :=
        @tcpRecvLength_of_no_header size (by omega) s (Buffer.fresh cells) hex
      refine ⟨fun len hlen => ?_, within_ducqTcpRecv ?_ fun len hlen => ?_⟩
      · rw [h1] at hlen
        exact absurd hlen (by simp)
      · rw [h1]
        exact h2 hfresh
      · rw [h1] at hlen
        exact absurd hlen (by simp)

/-- A frame of five bytes, cut in the middle of its payload. -/
theorem recvStaysInside_hello :
    RecvStaysInside 256 (Socket.receiving
        [.chunk 53 (newline :: ascii "he"), .chunk 108 (ascii "lo")])
      (Buffer.fresh fun _ => 0) := by
  refine (recvStaysInside_iff (by decide) (by decide) _ _).mpr fun ds hds => Or.inl ?_
  rw [← hds.eq_takeWhile]
  decide

/-- **`4294967295` passes the check of any buffer**: 256 bytes of room, and `readn` is
asked for `2 ^ 64 - 1`. -/
theorem not_recvStaysInside_minus_one :
    ¬ RecvStaysInside 256 (Socket.receiving [.chunk 52 (ascii "294967295" ++ [newline])])
      (Buffer.fresh fun _ => 0) := by
  intro h
  have harrives : HeaderArrives 256 [.chunk 52 (ascii "294967295" ++ [newline])]
      (ascii "4294967295") :=
    ⟨⟨[], by decide⟩, List.all_eq_true.mp (by decide), by decide⟩
  exact absurd (small_or_refused (by decide) h harrives) (by decide)

end Ducq
