import Ducq.Core.State
import Ducq.Inet.Socket

/-!
# `ducq_tcp.c`: one frame on the wire

A frame is the decimal length of the payload, a newline, and the payload.  The sender
writes the two parts; the receiver reads the length one byte at a time *into the
caller's buffer*, reads the number off that buffer, and then reads the payload over
it.

`tcpRecvLength` is `ducq_tcp_recv` up to its last `readn`: what it returns is either
the value `ducq_tcp_recv` returns early, or the `int` that is about to be passed to
`readn` as a number of bytes.  Three lemmas say what the header loop does with the
bytes that arrive cleanly: too many digits (`headerLoop_full`), digits and something
else (`headerLoop_stop`), nothing but digits (`headerLoop_eof`, `headerLoop_failure`).
-/

namespace Ducq

open CMemory CNumber ByteStream

/-- A state as the transports return it. -/
def negated (s : DucqState) : ℤ := -s.code

theorem negated_neg {state : DucqState} (h : state ≠ .ok) : negated state < 0 := by
  have hpos := DucqState.code_pos h
  rw [negated]
  omega

/-! ## Receiving -/

/-- The header loop of `ducq_tcp_recv`: the last value of `n` and the index `ptr`, or
`none` for the return inside the loop.  `left` is the number of indices between the
one being read and `end`. -/
def headerLoop (left ptr : ℕ) (s : Socket) (b : Buffer) :
    Option (ℤ × ℕ) × Socket × Buffer :=
  match readn 1 ptr s b with
  | (n, s, b) =>
    if n > 0 ∧ isDigit (b.cells ptr) then
      match left with
      | 0 => (none, s, b)
      | left + 1 => headerLoop left (ptr + 1) s b
    else (some (n, ptr), s, b)

/-- `ducq_tcp_recv` up to the `readn` of the payload.  The sum `len + 1` is an `int`
and is compared with `size` as a `size_t`. -/
def tcpRecvLength (size : ℕ) (s : Socket) (b : Buffer) : Except ℤ ℤ × Socket × Buffer :=
  match headerLoop (size - 2) 0 s b with
  | (none, s, b) => (.error (negated .emsgsize), s, b)
  | (some (n, ptr), s, b) =>
    if n < 0 then (.error (negated .eread), s, b)
    else if n = 0 then (.error (negated .econnclosed), s, b)
    else if b.cells ptr ≠ newline then (.error (negated .emsginv), s, b)
    else
      let b := b.put ptr 0
      let len := atoi (b.slice 0 (ptr + 1))
      if toSizeT (wrap32 (len + 1)) > size then (.error (negated .emsgsize), s, b)
      else (.ok len, s, b)

/-- `ducq_tcp_recv(fd, ptr, size)`. -/
def ducqTcpRecv (size : ℕ) (s : Socket) (b : Buffer) : ℤ × Socket × Buffer :=
  match tcpRecvLength size s b with
  | (.error rc, s, b) => (rc, s, b)
  | (.ok len, s, b) =>
    match readn (toSizeT len) 0 s b with
    | (n, s, b) =>
      if n < 0 then (negated .eread, s, b)
      else if n = 0 then (negated .econnclosed, s, b)
      else if n ≠ len then (negated .eread, s, b)
      else (wrap32 n, s, b.put len.toNat 0)

/-- `_recv` of the TCP table: the state, `*count`, and what is left. -/
def tcpRecv (count : ℕ) (s : Socket) (b : Buffer) : DucqState × ℕ × Socket × Buffer :=
  match ducqTcpRecv count s b with
  | (rc, s, b) =>
    if rc ≥ 0 then (.ok, toSizeT rc, s, b)
    else if -rc = DucqState.eread.code ∧ s.errno = some .ewouldblock then
      (.etimeout, count, s, b)
    else (DucqState.ofCode (-rc).toNat, count, s, b)

/-! ## Sending -/

/-- The header of a payload of `count` bytes. -/
def tcpHeader (count : ℕ) : List Byte := decimal count ++ [newline]

/-- `ducq_tcp_send(fd, buf, count)`, for `buf` the `count` bytes at `buf`. -/
def ducqTcpSend (buf : List Byte) (s : Socket) : ℤ × Socket :=
  let header := tcpHeader buf.length
  if header.length ≥ 25 then (negated .estdc, s)
  else match writen header s with
    | (n, s) =>
      if n ≠ header.length then (negated .ewrite, s)
      else match writen buf s with
        | (n, s) => if n ≠ buf.length then (negated .ewrite, s) else (wrap32 buf.length, s)

/-! ## The header loop -/

theorem cells_store_singleton (b : Buffer) (ptr : ℕ) (x : Byte) :
    (b.store ptr [x]).cells ptr = x := by
  simp [Buffer.store, Buffer.put]

/-- One digit is read and the loop goes on. -/
theorem headerLoop_digit {left ptr : ℕ} {s : Socket} {b : Buffer} {d : Byte} {c : List Byte}
    (hc : clean s.rx = d :: c) (hd : isDigit d = true) :
    ∃ s' : Socket, s'.rx = advance s.rx 1 ∧ SameWrites s s' ∧
      headerLoop left ptr s b = match left with
        | 0 => (none, s', b.store ptr [d])
        | left + 1 => headerLoop left (ptr + 1) s' (b.store ptr [d]) := by
  obtain ⟨s', h1, h2, h3⟩ := @readn_of_le 1 ptr s b (by rw [hc, List.length_cons]; omega)
  rw [hc, List.take_succ_cons, List.take_zero] at h1
  refine ⟨s', h2, h3, ?_⟩
  rw [headerLoop.eq_def, h1]
  simp [cells_store_singleton, hd]

/-- **The loop goes past digits** that there is room for. -/
theorem headerLoop_digits {left ptr : ℕ} {s : Socket} {b : Buffer} {ds c : List Byte}
    (hc : clean s.rx = ds ++ c) (hds : ∀ d ∈ ds, isDigit d = true) :
    ∃ s', s'.rx = advance s.rx ds.length ∧ clean s'.rx = c ∧ SameWrites s s' ∧
      headerLoop (ds.length + left) ptr s b =
        headerLoop left (ptr + ds.length) s' (b.store ptr ds) := by
  induction ds generalizing ptr s b with
  | nil =>
    refine ⟨s, (advance_zero s.rx).symm, hc, SameWrites.refl s, ?_⟩
    rw [List.length_nil, Nat.zero_add]
    rfl
  | cons d ds ih =>
    obtain ⟨s₁, h1, h2, h3⟩ :=
      @headerLoop_digit (ds.length + left + 1) ptr s b d (ds ++ c) hc (hds d List.mem_cons_self)
    have hc₁ : clean s₁.rx = ds ++ c := by
      rw [h1, clean_advance (by rw [hc]; simp), hc]
      rfl
    obtain ⟨s', h4, h5, h6, h7⟩ := @ih (ptr + 1) s₁ (b.store ptr [d]) hc₁
      fun d hd => hds d (List.mem_cons_of_mem _ hd)
    refine ⟨s', ?_, h5, h2.trans h6, ?_⟩
    · rw [h4, h1]
      rcases Nat.eq_zero_or_pos ds.length with h0 | hpos
      · rw [h0, advance_zero, List.length_cons, h0]
      · rw [advance_advance hpos, List.length_cons, Nat.add_comm]
    · rw [List.length_cons, Nat.add_right_comm, h3]
      dsimp only
      rw [h7, Nat.add_assoc, Nat.add_comm 1]
      rfl

/-- **As many digits as the buffer has room for**: the loop returns. -/
theorem headerLoop_full {left ptr : ℕ} {s : Socket} {b : Buffer} {ds c : List Byte}
    (hc : clean s.rx = ds ++ c) (hds : ∀ d ∈ ds, isDigit d = true)
    (hlen : ds.length = left + 1) :
    ∃ s', headerLoop left ptr s b = (none, s', b.store ptr ds) ∧ SameWrites s s' := by
  obtain ⟨ds, d, rfl⟩ := (List.eq_nil_or_concat' ds).resolve_left (by
    rintro rfl
    exact absurd hlen (Nat.succ_ne_zero left).symm)
  rw [List.append_assoc] at hc
  obtain ⟨hds, hd⟩ := List.forall_mem_append.mp hds
  obtain ⟨s₁, -, h1, h2, h3⟩ := @headerLoop_digits 0 ptr s b ds _ hc hds
  obtain ⟨s', -, h4, h5⟩ := @headerLoop_digit 0 (ptr + ds.length) s₁ (b.store ptr ds) d c h1
    (hd d List.mem_cons_self)
  rw [List.length_append, List.length_singleton] at hlen
  obtain rfl : ds.length + 0 = left := Nat.succ.inj hlen
  exact ⟨s', by rw [h3, h5, Buffer.store_append], h2.trans h4⟩

/-- **Digits and something else**: the loop ends on it. -/
theorem headerLoop_stop {left ptr : ℕ} {s : Socket} {b : Buffer} {ds c : List Byte} {x : Byte}
    (hc : clean s.rx = ds ++ x :: c) (hds : ∀ d ∈ ds, isDigit d = true)
    (hx : isDigit x = false) (hlen : ds.length ≤ left) :
    ∃ s', headerLoop left ptr s b =
        (some (1, ptr + ds.length), s', b.store ptr (ds ++ [x])) ∧
      s'.rx = advance s.rx (ds.length + 1) ∧ SameWrites s s' := by
  obtain ⟨left, rfl⟩ := Nat.exists_eq_add_of_le hlen
  obtain ⟨s₁, h1, h2, h3, h4⟩ := @headerLoop_digits left ptr s b ds _ hc hds
  obtain ⟨s', h5, h6, h7⟩ := @readn_of_le 1 (ptr + ds.length) s₁ (b.store ptr ds)
    (by rw [h2, List.length_cons]; omega)
  rw [h2, List.take_succ_cons, List.take_zero] at h5
  refine ⟨s', ?_, ?_, h3.trans h7⟩
  · rw [h4, headerLoop.eq_def, h5, Buffer.store_append]
    simp [cells_store_singleton, hx]
  · rw [h6, h1, advance_advance Nat.one_pos]

/-- **Nothing but digits, and the stream ends.** -/
theorem headerLoop_eof {left ptr : ℕ} {s : Socket} {b : Buffer}
    (hds : ∀ d ∈ clean s.rx, isDigit d = true) (hlen : (clean s.rx).length ≤ left)
    (hf : hardFailure s.rx = none) :
    ∃ s', headerLoop left ptr s b =
        (some (0, ptr + (clean s.rx).length), s', b.store ptr (clean s.rx)) ∧
      s'.rx = [] ∧ SameWrites s s' := by
  obtain ⟨left, rfl⟩ := Nat.exists_eq_add_of_le hlen
  obtain ⟨s₁, h1, h2, h3, h4⟩ :=
    @headerLoop_digits left ptr s b (clean s.rx) [] (List.append_nil _).symm hds
  obtain ⟨s', h5, h6, h7⟩ := @readn_of_eof 1 (ptr + (clean s.rx).length) s₁
    (b.store ptr (clean s.rx)) (by rw [h2]; exact Nat.one_pos)
    (by rw [h1, hardFailure_advance le_rfl, hf])
  rw [h2] at h5
  refine ⟨s', ?_, h6, h3.trans h7⟩
  rw [h4, headerLoop.eq_def, h5]
  simp

/-- **Nothing but digits, and a failure strikes.** -/
theorem headerLoop_failure {left ptr : ℕ} {s : Socket} {b : Buffer} {e : Errno}
    (hds : ∀ d ∈ clean s.rx, isDigit d = true) (hlen : (clean s.rx).length ≤ left)
    (hf : hardFailure s.rx = some e) :
    ∃ s', headerLoop left ptr s b =
        (some (-1, ptr + (clean s.rx).length), s', b.store ptr (clean s.rx)) ∧
      s'.errno = some e ∧ (clean s.rx = [] → s'.rx = afterFailure s.rx) ∧
      SameWrites s s' := by
  obtain ⟨left, rfl⟩ := Nat.exists_eq_add_of_le hlen
  obtain ⟨s₁, h1, h2, h3, h4⟩ :=
    @headerLoop_digits left ptr s b (clean s.rx) [] (List.append_nil _).symm hds
  obtain ⟨s', h5, h6, h7, h8⟩ := @readn_of_failure 1 (ptr + (clean s.rx).length) s₁
    (b.store ptr (clean s.rx)) e (by rw [h2]; exact Nat.one_pos)
    (by rw [h1, hardFailure_advance le_rfl, hf])
  rw [h2] at h5
  refine ⟨s', ?_, h7, fun hnil => ?_, h3.trans h8⟩
  · rw [h4, headerLoop.eq_def, h5]
    simp
  · rw [h6, h1, hnil, List.length_nil, advance_zero]

end Ducq
