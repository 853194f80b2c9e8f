import Ducq.Inet.Socket

/-!
# `readn` and `writen` are exact

However the kernel cuts what is read and written, and wherever it interrupts, `readn` gets
the first bytes of the stream and `writen` puts its bytes on the wire in order, each one
once, as far as they go.

`writen` is modelled over the bytes it is to write.  The source has two cursors for these,
a pointer that goes up and a count that goes down, and `writenAt` is the loop with both,
over the buffer; it also notes the room each `write` is shown.  Forgetting the notes it is
`writen` (`writenAt_eq`), and the two cursors never point behind the end.
-/

namespace Ducq

open CMemory ByteStream

/-! ## `writen` with its cursors -/

/-- The loop of `writen`, for `ptr` an index into the buffer: how it ends, and the index and
the number of bytes each `write` was given. -/
def writenCursors (b : Buffer) : ℕ → ℕ → ℕ → Socket → Bool × Socket × List (ℕ × ℕ)
  | 0, _, _, s => (false, s, [])
  | fuel + 1, ptr, nleft, s =>
    if nleft = 0 then (true, s, [])
    else match s.write (b.slice ptr nleft) with
      | (.fail e, s) =>
        if e = .eintr then
          let (ok, s, shown) := writenCursors b fuel ptr nleft s
          (ok, s, (ptr, nleft) :: shown)
        else (false, s, [(ptr, nleft)])
      | (.wrote k, s) =>
        if k = 0 then (false, s, [(ptr, nleft)])
        else
          let (ok, s, shown) := writenCursors b fuel (ptr + k) (nleft - k) s
          (ok, s, (ptr, nleft) :: shown)

/-- `writen(fd, vptr, n)`, with what each `write` was shown of the buffer. -/
def writenAt (n : ℕ) (b : Buffer) (s : Socket) : ℤ × Socket × List (ℕ × ℕ) :=
  match writenCursors b (s.wx.length + 2) 0 n s with
  | (true, s, shown) => (n, s, shown)
  | (false, s, shown) => (-1, s, shown)

theorem drop_slice (b : Buffer) (i n k : ℕ) :
    (b.slice i n).drop k = b.slice (i + k) (n - k) := by
  rw [Buffer.slice, ← List.map_drop, List.drop_range', Nat.mul_one, Buffer.slice]

/-- A `write` takes no more than it is shown. -/
theorem write_wrote_le {s s' : Socket} {bs : List Byte} {k : ℕ}
    (h : s.write bs = (.wrote k, s')) : k ≤ bs.length := by
  obtain ⟨rx, tx, wx, errno, reads⟩ := s
  rcases wx with _ | ⟨_ | _, wx⟩
  · have hk := WriteResult.wrote.inj (Prod.mk.inj h).1
    omega
  · have hk := WriteResult.wrote.inj (Prod.mk.inj h).1
    omega
  · exact absurd (Prod.mk.inj h).1 WriteResult.noConfusion

/-- **The cursors keep in step**: the loop is the one over the bytes that are left, and what
it shows of the buffer ends where these end. -/
theorem writenCursors_eq (b : Buffer) (fuel ptr nleft : ℕ) (s : Socket) :
    ((writenCursors b fuel ptr nleft s).1, (writenCursors b fuel ptr nleft s).2.1) =
        writenLoop fuel (b.slice ptr nleft) s ∧
      ∀ r ∈ (writenCursors b fuel ptr nleft s).2.2, r.1 + r.2 = ptr + nleft := by
  induction fuel generalizing ptr nleft s with
  | zero => exact ⟨rfl, fun r hr => absurd hr List.not_mem_nil⟩
  | succ fuel ih =>
    rw [writenCursors, writenLoop]
    by_cases hn : nleft = 0
    · subst hn
      rw [if_pos rfl, if_pos (show b.slice ptr 0 = [] from rfl)]
      exact ⟨rfl, fun r hr => absurd hr List.not_mem_nil⟩
    have hne : b.slice ptr nleft ≠ [] := by
      rw [← List.length_pos_iff, Buffer.length_slice]
      exact Nat.pos_of_ne_zero hn
    rw [if_neg hn, if_neg hne]
    rcases hw : s.write (b.slice ptr nleft) with ⟨k | e, t⟩
    · have hk := write_wrote_le hw
      rw [Buffer.length_slice] at hk
      by_cases hk0 : k = 0
      · simp only [hk0, if_true]
        exact ⟨trivial, List.forall_mem_singleton.mpr rfl⟩
      · obtain ⟨hrest, hshown⟩ := ih (ptr + k) (nleft - k) t
        simp only [if_neg hk0, drop_slice]
        refine ⟨hrest, List.forall_mem_cons.mpr ⟨rfl, fun r hr => ?_⟩⟩
        rw [hshown r hr]
        omega
    · by_cases he : e = .eintr
      · obtain ⟨hrest, hshown⟩ := ih ptr nleft t
        simp only [if_pos he]
        exact ⟨hrest, List.forall_mem_cons.mpr ⟨rfl, hshown⟩⟩
      · simp only [if_neg he]
        exact ⟨trivial, List.forall_mem_singleton.mpr rfl⟩

/-- **Without the notes** it is `writen`. -/
theorem writenAt_eq (n : ℕ) (b : Buffer) (s : Socket) :
    ((writenAt n b s).1, (writenAt n b s).2.1) = writen (b.slice 0 n) s ∧
      ∀ r ∈ (writenAt n b s).2.2, r.1 + r.2 = n := by
  obtain ⟨hloop, hshown⟩ := writenCursors_eq b (s.wx.length + 2) 0 n s
  rw [Nat.zero_add] at hshown
  rw [writenAt, writen, ← hloop]
  rcases hw : writenCursors b (s.wx.length + 2) 0 n s with ⟨_ | _, t, shown⟩
  · rw [hw] at hshown
    exact ⟨rfl, hshown⟩
  · rw [hw] at hshown
    refine ⟨?_, hshown⟩
    show ((n : ℤ), t) = (((b.slice 0 n).length : ℤ), t)
    rw [Buffer.length_slice]

/-! ## What is written -/

/-- **`writen` writes the beginning of its bytes**: all of them exactly if it returns their
number, and otherwise it returns `-1`. -/
theorem writen_accepts (bs : List Byte) (s : Socket) :
    ∃ w, (writen bs s).2.tx = s.tx ++ w ∧ w <+: bs ∧
      (w = bs ∧ (writen bs s).1 = bs.length ∨ w ≠ bs ∧ (writen bs s).1 = -1) := by
  obtain ⟨w, htx, hw, hiff⟩ := @writenLoop_accepts _ bs s (Nat.lt_succ_self _)
  refine ⟨w, ?_, hw, ?_⟩
  all_goals
    rw [writen]
    rcases hloop : writenLoop (s.wx.length + 2) bs s with ⟨_ | _, t⟩
  · rw [hloop] at htx
    exact htx
  · rw [hloop] at htx
    exact htx
  · rw [hloop] at hiff
    exact Or.inr ⟨fun h => Bool.false_ne_true (hiff.mpr h), rfl⟩
  · rw [hloop] at hiff
    exact Or.inl ⟨hiff.mp rfl, rfl⟩

/-! ## What is read -/

/-- A failure that is no interruption strikes before `n` bytes have come, and before the end
of the stream. -/
def FailsBefore (rx : List Arrival) (n : ℕ) : Prop :=
  hardFailure rx ≠ none ∧ (clean rx).length < n

/-- What `readn` is to do with `n` bytes of a stream. -/
def ReadsExactly (rx : List Arrival) (n : ℕ) (b : Buffer) (rc : ℤ) (b' : Buffer) : Prop :=
  FailsBefore rx n ∧ rc = -1 ∧ b' = b.store 0 (clean rx) ∨
    ¬ FailsBefore rx n ∧ rc = (min n (bytes rx).length : ℕ) ∧
      b' = b.store 0 ((bytes rx).take n)

/-- What `writen` is to do with `n` bytes of a buffer. -/
def WritesExactly (n : ℕ) (b : Buffer) (s s' : Socket) (rc : ℤ) : Prop :=
  ∃ w, s'.tx = s.tx ++ w ∧ w <+: b.slice 0 n ∧
    (w = b.slice 0 n ∧ rc = n ∨ w ≠ b.slice 0 n ∧ rc = -1)

theorem readn_readsExactly (n : ℕ) (s : Socket) (b : Buffer) :
    ReadsExactly s.rx n b (readn n 0 s b).1 (readn n 0 s b).2.2 := by
  rcases Nat.lt_or_ge (clean s.rx).length n with hlt | hge
  · cases hf : hardFailure s.rx with
    | none =>
      obtain ⟨s', h1, -⟩ := @readn_of_eof n 0 s b hlt hf
      rw [h1]
      rw [clean_eq_bytes hf] at hlt ⊢
      refine Or.inr ⟨fun h => h.1 hf, ?_, ?_⟩
      · rw [Nat.min_eq_right hlt.le]
      · rw [List.take_of_length_le hlt.le]
    | some e =>
      obtain ⟨s', h1, -⟩ := @readn_of_failure n 0 s b e hlt hf
      rw [h1]
      exact Or.inl ⟨⟨by rw [hf]; exact Option.some_ne_none e, hlt⟩, rfl, rfl⟩
  · obtain ⟨s', h1, -⟩ := @readn_of_le n 0 s b hge
    rw [h1]
    have hle := (clean_prefix_bytes s.rx).length_le
    refine Or.inr ⟨fun h => absurd h.2 (not_lt.mpr hge), ?_, ?_⟩
    · rw [Nat.min_eq_left (hge.trans hle)]
    · obtain ⟨rest, hrest⟩ := clean_prefix_bytes s.rx
      rw [← hrest, List.take_append_of_le_length hge]

theorem writenAt_writesExactly (n : ℕ) (b : Buffer) (s : Socket) :
    WritesExactly n b s (writenAt n b s).2.1 (writenAt n b s).1 := by
  obtain ⟨heq, -⟩ := writenAt_eq n b s
  obtain ⟨w, htx, hw, hrc⟩ := writen_accepts (b.slice 0 n) s
  rw [← heq, Buffer.length_slice] at hrc
  rw [← heq] at htx
  exact ⟨w, htx, hw, hrc⟩

/-- **`readn` and `writen` are exact**, for every count, every stream and every way the kernel
cuts, interrupts and fails them, and neither touches the buffer behind the count. -/
theorem readn_writen_exact (n : ℕ) (s : Socket) (b : Buffer) :
    (ReadsExactly s.rx n b (readn n 0 s b).1 (readn n 0 s b).2.2 ∧
        ∀ i ∈ (readn n 0 s b).2.2.writes, i < n ∨ i ∈ b.writes) ∧
      WritesExactly n b s (writenAt n b s).2.1 (writenAt n b s).1 ∧
        ∀ r ∈ (writenAt n b s).2.2, r.1 + r.2 ≤ n := by
  have hread := readn_readsExactly n s b
  refine ⟨⟨hread, fun i hi => ?_⟩, writenAt_writesExactly n b s,
    fun r hr => ((writenAt_eq n b s).2 r hr).le⟩
  rcases hread with ⟨hf, -, hb⟩ | ⟨-, -, hb⟩
  · rw [hb] at hi
    rcases Buffer.mem_writes_store.mp hi with hnew | hold
    · have hlt := hf.2
      exact Or.inl (by omega)
    · exact Or.inr hold
  · rw [hb] at hi
    rcases Buffer.mem_writes_store.mp hi with hnew | hold
    · rw [List.length_take] at hnew
      exact Or.inl (by omega)
    · exact Or.inr hold

end Ducq
