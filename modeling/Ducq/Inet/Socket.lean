import Ducq.Lib.ByteStream

/-!
# `inet_socket.c`: `readn` and `writen`

The two retry loops every transport is built on.  A call of either is a finite run of
`read` or `write` calls; each turn of the loop uses up one arrival or acceptance
unless it is the last turn, so the number of those is the fuel.

Each loop has one specification, by induction on what the kernel has in store, and
callers use nothing else.  `readn` has three outcomes, told apart by how the `n`
bytes asked for compare with the bytes that arrive cleanly: it gets them
(`readn_of_le`), the stream ends first (`readn_of_eof`), or a failure other than an
interruption strikes first (`readn_of_failure`).
-/

namespace Ducq

open CMemory ByteStream

/-! ## `readn` -/

/-- The loop of `readn`: how many bytes were still wanted when it ended, or `none`
when it returned `-1`. -/
def readnLoop : ℕ → ℕ → ℕ → Socket → Buffer → Option ℕ × Socket × Buffer
  | 0, _, nleft, s, b => (some nleft, s, b)
  | fuel + 1, ptr, nleft, s, b =>
    if nleft = 0 then (some 0, s, b)
    else match s.read nleft with
      | (.fail e, s) => if e = .eintr then readnLoop fuel ptr nleft s b else (none, s, b)
      | (.data [], s) => (some nleft, s, b)
      | (.data (x :: xs), s) =>
        readnLoop fuel (ptr + (x :: xs).length) (nleft - (x :: xs).length) s
          (b.store ptr (x :: xs))

/-- `readn(fd, ptr, n)`, for `ptr` an index into the buffer. -/
def readn (n ptr : ℕ) (s : Socket) (b : Buffer) : ℤ × Socket × Buffer :=
  match readnLoop (s.rx.length + 1) ptr n s b with
  | (some nleft, s, b) => ((n : ℤ) - nleft, s, b)
  | (none, s, b) => (-1, s, b)

/-- Nothing but reading happened between two states of a descriptor: what there was
to write is unchanged, and `errno` moved only if a `read` failed. -/
structure SameWrites (s s' : Socket) : Prop where
  tx : s'.tx = s.tx
  wx : s'.wx = s.wx

theorem SameWrites.refl (s : Socket) : SameWrites s s := ⟨rfl, rfl⟩

theorem SameWrites.trans {s s' s'' : Socket} (h : SameWrites s s') (h' : SameWrites s' s'') :
    SameWrites s s'' := ⟨h'.tx.trans h.tx, h'.wx.trans h.wx⟩

/-- A turn at an interruption. -/
theorem readnLoop_eintr {fuel ptr n : ℕ} (hn : n ≠ 0) (rx : List Arrival) (tx : List Byte)
    (wx : List Acceptance) (errno : Option Errno) (reads : List ReadResult) (b : Buffer) :
    readnLoop (fuel + 1) ptr n ⟨.fail .eintr :: rx, tx, wx, errno, reads⟩ b =
      readnLoop fuel ptr n ⟨rx, tx, wx, some .eintr, reads ++ [.fail .eintr]⟩ b := by
  rw [readnLoop, if_neg hn]
  simp [Socket.read]

/-- A turn at a chunk that is taken whole. -/
theorem readnLoop_chunk {fuel ptr n : ℕ} {c : Byte} {cs : List Byte} (hlen : cs.length < n)
    (rx : List Arrival) (tx : List Byte) (wx : List Acceptance) (errno : Option Errno)
    (reads : List ReadResult) (b : Buffer) :
    readnLoop (fuel + 1) ptr n ⟨.chunk c cs :: rx, tx, wx, errno, reads⟩ b =
      readnLoop fuel (ptr + (cs.length + 1)) (n - (cs.length + 1))
        ⟨rx, tx, wx, errno, reads ++ [.data (c :: cs)]⟩ (b.store ptr (c :: cs)) := by
  have htake : (c :: cs).take n = c :: cs :=
    List.take_of_length_le (by rw [List.length_cons]; omega)
  have hdrop : (c :: cs).drop n = [] :=
    List.drop_of_length_le (by rw [List.length_cons]; omega)
  rw [readnLoop, if_neg (by omega)]
  simp only [Socket.read, htake, hdrop, push, List.length_cons]

/-- A turn at a chunk that holds all that is still wanted: the loop ends. -/
theorem readnLoop_rest {fuel ptr n : ℕ} {c : Byte} {cs : List Byte} (hn : n ≠ 0)
    (hlen : ¬ cs.length < n) (rx : List Arrival) (tx : List Byte) (wx : List Acceptance)
    (errno : Option Errno) (reads : List ReadResult) (b : Buffer) :
    readnLoop (fuel + 1) ptr n ⟨.chunk c cs :: rx, tx, wx, errno, reads⟩ b =
      (some 0, ⟨push ((c :: cs).drop n) rx, tx, wx, errno, reads ++ [.data ((c :: cs).take n)]⟩,
        b.store ptr ((c :: cs).take n)) := by
  have htake : ((c :: cs).take n).length = n := by
    rw [List.length_take, List.length_cons]
    omega
  obtain ⟨x, xs, hx⟩ : ∃ x xs, (c :: cs).take n = x :: xs :=
    List.exists_cons_of_length_pos (by omega)
  rw [readnLoop, if_neg hn]
  simp only [Socket.read, hx]
  rw [show (x :: xs).length = n by rw [← hx, htake], Nat.sub_self]
  cases fuel <;> simp [readnLoop]

/-- **All the bytes asked for arrive.** -/
theorem readnLoop_of_le {fuel ptr n : ℕ} {s : Socket} {b : Buffer}
    (hfuel : s.rx.length < fuel) (h : n ≤ (clean s.rx).length) :
    ∃ s', readnLoop fuel ptr n s b = (some 0, s', b.store ptr ((clean s.rx).take n)) ∧
      s'.rx = advance s.rx n ∧ SameWrites s s' := by
  obtain ⟨rx, tx, wx, errno, reads⟩ := s
  induction rx generalizing fuel ptr n b errno reads with
  | nil =>
    obtain ⟨fuel, rfl⟩ := Nat.exists_eq_succ_of_ne_zero (by omega : fuel ≠ 0)
    have hn : n = 0 := by simpa [clean] using h
    subst hn
    exact ⟨_, rfl, by simp, SameWrites.refl _⟩
  | cons a rx ih =>
    obtain ⟨fuel, rfl⟩ := Nat.exists_eq_succ_of_ne_zero (by omega : fuel ≠ 0)
    rw [List.length_cons] at hfuel
    by_cases hn : n = 0
    · subst hn
      exact ⟨_, rfl, by simp, SameWrites.refl _⟩
    cases a with
    | fail e =>
      by_cases he : e = .eintr
      · subst he
        obtain ⟨s', h1, h2, h3⟩ := @ih fuel ptr n b (some .eintr)
          (reads ++ [.fail .eintr]) (by dsimp only; omega)
          (by simpa [clean] using h)
        refine ⟨s', ?_, ?_, ⟨h3.tx, h3.wx⟩⟩
        · rw [readnLoop_eintr hn, h1]
          simp [clean]
        · rw [h2, advance, if_neg hn]
      · simp [clean, he] at h
        omega
    | chunk c cs =>
      rw [clean, List.length_append, List.length_cons] at h
      by_cases hlen : cs.length < n
      · -- the whole chunk is taken
        obtain ⟨s', h1, h2, h3⟩ := @ih fuel (ptr + (cs.length + 1)) (n - (cs.length + 1))
          (b.store ptr (c :: cs)) errno (reads ++ [.data (c :: cs)])
          (by dsimp only; omega) (by dsimp only; omega)
        have htake : (c :: cs).take n = c :: cs :=
          List.take_of_length_le (by rw [List.length_cons]; omega)
        refine ⟨s', ?_, ?_, ⟨h3.tx, h3.wx⟩⟩
        · rw [readnLoop_chunk hlen, h1, clean, List.take_append, htake, Buffer.store_append,
            List.length_cons]
        · rw [h2, advance, if_pos hlen]
      · -- the chunk holds more than is wanted
        refine ⟨⟨push ((c :: cs).drop n) rx, tx, wx, errno, reads ++ [.data ((c :: cs).take n)]⟩,
          ?_, ?_, ⟨rfl, rfl⟩⟩
        · rw [readnLoop_rest hn hlen, clean,
            List.take_append_of_le_length (by rw [List.length_cons]; omega)]
        · rw [advance, if_neg hlen]

/-- **The stream ends before the bytes asked for.** -/
theorem readnLoop_of_eof {fuel ptr n : ℕ} {s : Socket} {b : Buffer}
    (hfuel : s.rx.length < fuel) (h : (clean s.rx).length < n) (hf : hardFailure s.rx = none) :
    ∃ s', readnLoop fuel ptr n s b =
        (some (n - (clean s.rx).length), s', b.store ptr (clean s.rx)) ∧
      s'.rx = [] ∧ SameWrites s s' := by
  obtain ⟨rx, tx, wx, errno, reads⟩ := s
  induction rx generalizing fuel ptr n b errno reads with
  | nil =>
    obtain ⟨fuel, rfl⟩ := Nat.exists_eq_succ_of_ne_zero (by omega : fuel ≠ 0)
    refine ⟨⟨[], tx, wx, errno, reads ++ [.data []]⟩, ?_, rfl, ⟨rfl, rfl⟩⟩
    rw [readnLoop, if_neg (by omega)]
    simp [Socket.read, clean]
  | cons a rx ih =>
    obtain ⟨fuel, rfl⟩ := Nat.exists_eq_succ_of_ne_zero (by omega : fuel ≠ 0)
    rw [List.length_cons] at hfuel
    cases a with
    | fail e =>
      rw [hardFailure] at hf
      split_ifs at hf with he
      subst he
      obtain ⟨s', h1, h2, h3⟩ := @ih fuel ptr n b (some .eintr)
        (reads ++ [.fail .eintr]) (by dsimp only; omega)
        (by simpa [clean] using h) hf
      refine ⟨s', ?_, h2, ⟨h3.tx, h3.wx⟩⟩
      rw [readnLoop_eintr (by omega), h1]
      simp [clean]
    | chunk c cs =>
      rw [clean, List.length_append, List.length_cons] at h
      obtain ⟨s', h1, h2, h3⟩ := @ih fuel (ptr + (cs.length + 1)) (n - (cs.length + 1))
        (b.store ptr (c :: cs)) errno (reads ++ [.data (c :: cs)])
        (by dsimp only; omega) (by dsimp only; omega) hf
      refine ⟨s', ?_, h2, ⟨h3.tx, h3.wx⟩⟩
      rw [readnLoop_chunk (by omega), h1, clean, Buffer.store_append, List.length_append,
        List.length_cons]
      congr 2
      dsimp only
      omega

/-- **A failure strikes before the bytes asked for.** -/
theorem readnLoop_of_failure {fuel ptr n : ℕ} {s : Socket} {b : Buffer} {e : Errno}
    (hfuel : s.rx.length < fuel) (h : (clean s.rx).length < n) (hf : hardFailure s.rx = some e) :
    ∃ s', readnLoop fuel ptr n s b = (none, s', b.store ptr (clean s.rx)) ∧
      s'.rx = afterFailure s.rx ∧ s'.errno = some e ∧ SameWrites s s' := by
  obtain ⟨rx, tx, wx, errno, reads⟩ := s
  induction rx generalizing fuel ptr n b errno reads with
  | nil => simp [hardFailure] at hf
  | cons a rx ih =>
    obtain ⟨fuel, rfl⟩ := Nat.exists_eq_succ_of_ne_zero (by omega : fuel ≠ 0)
    rw [List.length_cons] at hfuel
    cases a with
    | fail e' =>
      rw [hardFailure] at hf
      split_ifs at hf with he
      · subst he
        obtain ⟨s', h1, h2, h3, h4⟩ := @ih fuel ptr n b (some .eintr)
          (reads ++ [.fail .eintr]) (by dsimp only; omega)
          (by simpa [clean] using h) hf
        refine ⟨s', ?_, by simpa [afterFailure] using h2, h3, ⟨h4.tx, h4.wx⟩⟩
        rw [readnLoop_eintr (by omega), h1]
        simp [clean]
      · refine ⟨⟨rx, tx, wx, some e', reads ++ [.fail e']⟩, ?_, ?_, hf, ⟨rfl, rfl⟩⟩
        · rw [readnLoop, if_neg (by omega)]
          simp [Socket.read, clean, he]
        · simp [afterFailure, he]
    | chunk c cs =>
      rw [clean, List.length_append, List.length_cons] at h
      obtain ⟨s', h1, h2, h3, h4⟩ := @ih fuel (ptr + (cs.length + 1)) (n - (cs.length + 1))
        (b.store ptr (c :: cs)) errno (reads ++ [.data (c :: cs)])
        (by dsimp only; omega) (by dsimp only; omega) hf
      refine ⟨s', ?_, h2, h3, ⟨h4.tx, h4.wx⟩⟩
      rw [readnLoop_chunk (by omega), h1, clean, Buffer.store_append, List.length_cons]

theorem readn_of_le {n ptr : ℕ} {s : Socket} (b : Buffer) (h : n ≤ (clean s.rx).length) :
    ∃ s', readn n ptr s b = ((n : ℤ), s', b.store ptr ((clean s.rx).take n)) ∧
      s'.rx = advance s.rx n ∧ SameWrites s s' := by
  obtain ⟨s', h1, h2, h3⟩ := @readnLoop_of_le _ ptr _ _ b (Nat.lt_succ_self _) h
  exact ⟨s', by rw [readn, h1]; simp, h2, h3⟩

theorem readn_of_eof {n ptr : ℕ} {s : Socket} (b : Buffer) (h : (clean s.rx).length < n)
    (hf : hardFailure s.rx = none) :
    ∃ s', readn n ptr s b = (((clean s.rx).length : ℤ), s', b.store ptr (clean s.rx)) ∧
      s'.rx = [] ∧ SameWrites s s' := by
  obtain ⟨s', h1, h2, h3⟩ := @readnLoop_of_eof _ ptr _ _ b (Nat.lt_succ_self _) h hf
  refine ⟨s', ?_, h2, h3⟩
  rw [readn, h1]
  simp only [Prod.mk.injEq, and_true]
  omega

theorem readn_of_failure {n ptr : ℕ} {s : Socket} (b : Buffer) {e : Errno}
    (h : (clean s.rx).length < n) (hf : hardFailure s.rx = some e) :
    ∃ s', readn n ptr s b = (-1, s', b.store ptr (clean s.rx)) ∧
      s'.rx = afterFailure s.rx ∧ s'.errno = some e ∧ SameWrites s s' := by
  obtain ⟨s', h1, h2, h3, h4⟩ :=
    @readnLoop_of_failure _ ptr _ _ b _ (Nat.lt_succ_self _) h hf
  exact ⟨s', by rw [readn, h1], h2, h3, h4⟩

/-- Fewer bytes arrive than were asked for: the value says so. -/
theorem readn_of_lt {n ptr : ℕ} {s : Socket} (b : Buffer) (h : (clean s.rx).length < n) :
    ∃ rc s', readn n ptr s b = (rc, s', b.store ptr (clean s.rx)) ∧ -1 ≤ rc ∧ rc < n := by
  cases hf : hardFailure s.rx with
  | none =>
    obtain ⟨s', h1, -⟩ := @readn_of_eof n ptr s b h hf
    exact ⟨_, s', h1, by omega, by omega⟩
  | some e =>
    obtain ⟨s', h1, -⟩ := @readn_of_failure n ptr s b e h hf
    exact ⟨_, s', h1, by omega, by omega⟩

/-- `readn` writes no further than it was asked to. -/
theorem within_readn {n ptr size : ℕ} {s : Socket} {b : Buffer} (hb : b.Within size)
    (hn : ptr + n ≤ size) : (readn n ptr s b).2.2.Within size := by
  rcases Nat.lt_or_ge (clean s.rx).length n with h | h
  · obtain ⟨rc, s', h1, -⟩ := @readn_of_lt n ptr s b h
    rw [h1]
    exact Buffer.within_store hb (by omega)
  · obtain ⟨s', h1, -⟩ := @readn_of_le n ptr s b h
    rw [h1]
    exact Buffer.within_store hb (by rw [List.length_take]; omega)

/-! ## `writen` -/

/-- The loop of `writen`, over the bytes still to write. -/
def writenLoop : ℕ → List Byte → Socket → Bool × Socket
  | 0, _, s => (false, s)
  | fuel + 1, bs, s =>
    if bs = [] then (true, s)
    else match s.write bs with
      | (.fail e, s) => if e = .eintr then writenLoop fuel bs s else (false, s)
      | (.wrote k, s) => if k = 0 then (false, s) else writenLoop fuel (bs.drop k) s

/-- `writen(fd, ptr, n)`, for `bs` the `n` bytes at `ptr`. -/
def writen (bs : List Byte) (s : Socket) : ℤ × Socket :=
  match writenLoop (s.wx.length + 2) bs s with
  | (true, s) => (bs.length, s)
  | (false, s) => (-1, s)

/-- The acceptances to come make progress or are interruptions. -/
def Writable (wx : List Acceptance) : Prop :=
  ∀ a ∈ wx, a = .fail .eintr ∨ ∃ k, a = .accept (k + 1)

/-- What was taken, and what is still to write. -/
theorem take_append_drop_min (bs : List Byte) (k : ℕ) :
    bs.take k ++ bs.drop (min k bs.length) = bs := by
  rcases Nat.le_total k bs.length with hle | hle
  · rw [Nat.min_eq_left hle, List.take_append_drop]
  · rw [Nat.min_eq_right hle, List.drop_length, List.append_nil, List.take_of_length_le hle]

/-- **The loop writes the beginning of its bytes**, and all of them exactly if it says so. -/
theorem writenLoop_accepts {fuel : ℕ} {bs : List Byte} {s : Socket}
    (hfuel : s.wx.length + 1 < fuel) :
    ∃ w, (writenLoop fuel bs s).2.tx = s.tx ++ w ∧ w <+: bs ∧
      ((writenLoop fuel bs s).1 = true ↔ w = bs) := by
  obtain ⟨rx, tx, wx, errno, reads⟩ := s
  induction wx generalizing fuel bs tx errno with
  | nil =>
    obtain ⟨fuel, rfl⟩ := Nat.exists_eq_succ_of_ne_zero (by omega : fuel ≠ 0)
    obtain ⟨fuel, rfl⟩ :=
      Nat.exists_eq_succ_of_ne_zero (by simp only [List.length_nil] at hfuel; omega : fuel ≠ 0)
    refine ⟨bs, ?_, List.prefix_rfl, ?_⟩
    all_goals
      rw [writenLoop]
      by_cases hbs : bs = []
      · simp [hbs]
      · simp [Socket.write, hbs, writenLoop]
  | cons a wx ih =>
    obtain ⟨fuel, rfl⟩ := Nat.exists_eq_succ_of_ne_zero (by omega : fuel ≠ 0)
    rw [List.length_cons] at hfuel
    rw [writenLoop]
    by_cases hbs : bs = []
    · subst hbs
      exact ⟨[], (List.append_nil tx).symm, List.prefix_rfl, iff_of_true rfl rfl⟩
    rw [if_neg hbs]
    have hnothing : ∃ w, tx = tx ++ w ∧ w <+: bs ∧ (false = true ↔ w = bs) :=
      ⟨[], (List.append_nil tx).symm, List.nil_prefix,
        iff_of_false Bool.false_ne_true (Ne.symm hbs)⟩
    cases a with
    | fail e =>
      by_cases he : e = .eintr
      · subst he
        simp only [Socket.write, if_true]
        exact @ih fuel bs tx (some .eintr) (by dsimp only; omega)
      · simp only [Socket.write, if_neg he]
        exact hnothing
    | accept k =>
      have hlen : 0 < bs.length := List.length_pos_iff.mpr hbs
      cases k with
      | zero =>
        simp only [Socket.write, Nat.zero_min, if_true, List.take_zero, List.append_nil]
        exact hnothing
      | succ k =>
        have hpos : min (k + 1) bs.length ≠ 0 := by omega
        obtain ⟨w, htx, hw, hiff⟩ := @ih fuel (bs.drop (min (k + 1) bs.length))
          (tx ++ bs.take (k + 1)) errno (by dsimp only; omega)
        have hsplit := take_append_drop_min bs (k + 1)
        simp only [Socket.write, if_neg hpos]
        refine ⟨bs.take (k + 1) ++ w, ?_, ?_, hiff.trans ⟨fun h => ?_, fun h => ?_⟩⟩
        · rw [htx, List.append_assoc]
        · have happend := (List.prefix_append_right_inj (bs.take (k + 1))).mpr hw
          rwa [hsplit] at happend
        · rw [h, hsplit]
        · exact List.append_cancel_left (h.trans hsplit.symm)

/-- What is to come is only used up, and nothing is read. -/
theorem write_keeps (bs : List Byte) (s : Socket) :
    (s.write bs).2.wx <:+ s.wx ∧ (s.write bs).2.rx = s.rx := by
  obtain ⟨rx, tx, wx, errno, reads⟩ := s
  rcases wx with _ | ⟨a, wx⟩
  · exact ⟨List.suffix_rfl, rfl⟩
  · cases a <;> exact ⟨List.suffix_cons _ _, rfl⟩

theorem writenLoop_keeps (fuel : ℕ) (bs : List Byte) (s : Socket) :
    (writenLoop fuel bs s).2.wx <:+ s.wx ∧ (writenLoop fuel bs s).2.rx = s.rx := by
  induction fuel generalizing bs s with
  | zero => exact ⟨List.suffix_rfl, rfl⟩
  | succ fuel ih =>
    rw [writenLoop]
    by_cases hbs : bs = []
    · rw [if_pos hbs]
      exact ⟨List.suffix_rfl, rfl⟩
    rw [if_neg hbs]
    obtain ⟨hwx, hrx⟩ := write_keeps bs s
    rcases hw : s.write bs with ⟨k | e, t⟩
    all_goals
      rw [hw] at hwx hrx
      dsimp only
      split_ifs
    · exact ⟨hwx, hrx⟩
    · exact ⟨(ih _ t).1.trans hwx, (ih _ t).2.trans hrx⟩
    · exact ⟨(ih _ t).1.trans hwx, (ih _ t).2.trans hrx⟩
    · exact ⟨hwx, hrx⟩

/-- The acceptances to come take `n` bytes before one fails or takes none. -/
def TakesAll : List Acceptance → ℕ → Prop
  | [], _ => True
  | .accept k :: wx, n => n = 0 ∨ k ≠ 0 ∧ TakesAll wx (n - k)
  | .fail e :: wx, n => n = 0 ∨ e = .eintr ∧ TakesAll wx n

/-- **The loop ends well exactly if the kernel takes every byte.** -/
theorem writenLoop_takesAll {fuel : ℕ} {bs : List Byte} {s : Socket}
    (hfuel : s.wx.length + 1 < fuel) :
    (writenLoop fuel bs s).1 = true ↔ TakesAll s.wx bs.length := by
  obtain ⟨rx, tx, wx, errno, reads⟩ := s
  induction wx generalizing fuel bs tx errno with
  | nil =>
    obtain ⟨fuel, rfl⟩ := Nat.exists_eq_succ_of_ne_zero (by omega : fuel ≠ 0)
    obtain ⟨fuel, rfl⟩ :=
      Nat.exists_eq_succ_of_ne_zero (by simp only [List.length_nil] at hfuel; omega : fuel ≠ 0)
    rw [writenLoop]
    by_cases hbs : bs = []
    · simp [hbs, TakesAll]
    · simp [Socket.write, hbs, writenLoop, TakesAll]
  | cons a wx ih =>
    obtain ⟨fuel, rfl⟩ := Nat.exists_eq_succ_of_ne_zero (by omega : fuel ≠ 0)
    rw [List.length_cons] at hfuel
    rw [writenLoop]
    by_cases hbs : bs = []
    · subst hbs
      refine iff_of_true rfl ?_
      cases a <;> exact Or.inl rfl
    have hlen : bs.length ≠ 0 := fun h => hbs (List.length_eq_zero_iff.mp h)
    rw [if_neg hbs]
    cases a with
    | fail e =>
      rw [TakesAll, or_iff_right hlen]
      by_cases he : e = .eintr
      · subst he
        rw [and_iff_right rfl]
        exact @ih fuel bs tx (some .eintr) (by dsimp only; omega)
      · simp [Socket.write, he]
    | accept k =>
      rw [TakesAll, or_iff_right hlen]
      cases k with
      | zero => simp [Socket.write]
      | succ k =>
        have hpos : min (k + 1) bs.length ≠ 0 := by omega
        have hiff := @ih fuel (bs.drop (min (k + 1) bs.length))
          (tx ++ bs.take (k + 1)) errno (by dsimp only; omega)
        have hdrop : (bs.drop (min (k + 1) bs.length)).length = bs.length - (k + 1) := by
          rw [List.length_drop]
          omega
        rw [hdrop] at hiff
        simp only [Socket.write, if_neg hpos]
        exact hiff.trans (and_iff_right (Nat.succ_ne_zero k)).symm

/-- A kernel that makes progress takes any number of bytes. -/
theorem Writable.takesAll {wx : List Acceptance} (h : Writable wx) (n : ℕ) : TakesAll wx n := by
  induction wx generalizing n with
  | nil => exact trivial
  | cons a wx ih =>
    have ih := ih fun a ha => h a (List.mem_cons_of_mem _ ha)
    rcases h a List.mem_cons_self with rfl | ⟨k, rfl⟩
    · exact Or.inr ⟨rfl, ih n⟩
    · exact Or.inr ⟨Nat.succ_ne_zero k, ih _⟩

theorem writenLoop_of_writable {fuel : ℕ} {bs : List Byte} {s : Socket}
    (hfuel : s.wx.length + 1 < fuel) (hw : Writable s.wx) :
    ∃ s', writenLoop fuel bs s = (true, s') ∧ s'.tx = s.tx ++ bs ∧ Writable s'.wx ∧
      s'.rx = s.rx := by
  have hdone := (@writenLoop_takesAll fuel bs s hfuel).mpr (hw.takesAll bs.length)
  obtain ⟨w, htx, -, hiff⟩ := @writenLoop_accepts fuel bs s hfuel
  obtain ⟨hwx, hrx⟩ := writenLoop_keeps fuel bs s
  rw [hiff.mp hdone] at htx
  exact ⟨_, Prod.ext hdone rfl, htx, fun a ha => hw a (hwx.subset ha), hrx⟩

/-- **With short writes and interruptions only, everything is written.** -/
theorem writen_of_writable {s : Socket} (bs : List Byte) (hw : Writable s.wx) :
    ∃ s', writen bs s = ((bs.length : ℤ), s') ∧ s'.tx = s.tx ++ bs ∧ Writable s'.wx ∧
      s'.rx = s.rx := by
  obtain ⟨s', h1, h2⟩ := @writenLoop_of_writable _ bs _ (Nat.lt_succ_self _) hw
  exact ⟨s', by rw [writen, h1], h2⟩

/-- **`writen` returns the number of bytes exactly if the kernel takes every one of them**,
and otherwise `-1`. -/
theorem writen_takesAll (bs : List Byte) (s : Socket) :
    (TakesAll s.wx bs.length ∧ (writen bs s).1 = bs.length ∧
        (writen bs s).2.tx = s.tx ++ bs) ∨
      (¬ TakesAll s.wx bs.length ∧ (writen bs s).1 = -1) := by
  have hiff := @writenLoop_takesAll _ bs s (Nat.lt_succ_self _)
  obtain ⟨w, htx, -, hall⟩ := @writenLoop_accepts _ bs s (Nat.lt_succ_self _)
  rw [writen]
  rcases hloop : writenLoop (s.wx.length + 2) bs s with ⟨_ | _, t⟩
  · rw [hloop] at hiff
    exact Or.inr ⟨fun h => absurd (hiff.mpr h) Bool.false_ne_true, rfl⟩
  · rw [hloop] at hiff htx hall
    rw [hall.mp rfl] at htx
    exact Or.inl ⟨hiff.mp rfl, rfl, htx⟩

/-- How a `write` ends depends on the kernel alone. -/
theorem write_congr {s s' : Socket} (h : s.wx = s'.wx) (bs : List Byte) :
    (s.write bs).1 = (s'.write bs).1 ∧ (s.write bs).2.wx = (s'.write bs).2.wx := by
  obtain ⟨rx, tx, wx, errno, reads⟩ := s
  obtain ⟨rx', tx', wx', errno', reads'⟩ := s'
  obtain rfl : wx = wx' := h
  cases wx with
  | nil => exact ⟨rfl, rfl⟩
  | cons a wx => cases a <;> exact ⟨rfl, rfl⟩

theorem writenLoop_congr {fuel : ℕ} {bs : List Byte} {s s' : Socket} (h : s.wx = s'.wx) :
    (writenLoop fuel bs s).1 = (writenLoop fuel bs s').1 ∧
      (writenLoop fuel bs s).2.wx = (writenLoop fuel bs s').2.wx := by
  induction fuel generalizing bs s s' with
  | zero => exact ⟨rfl, h⟩
  | succ fuel ih =>
    rw [writenLoop, writenLoop]
    by_cases hbs : bs = []
    · rw [if_pos hbs, if_pos hbs]
      exact ⟨rfl, h⟩
    · rw [if_neg hbs, if_neg hbs]
      obtain ⟨hres, hwx⟩ := write_congr h bs
      rcases hw : s.write bs with ⟨res, t⟩
      rcases hw' : s'.write bs with ⟨res', t'⟩
      rw [hw, hw'] at hres hwx
      obtain rfl : res = res' := hres
      cases res with
      | fail e =>
        by_cases he : e = .eintr
        · simp only [he, if_true]
          exact ih hwx
        · simp only [he, if_false]
          exact ⟨trivial, hwx⟩
      | wrote k =>
        by_cases hk : k = 0
        · simp only [hk, if_true]
          exact ⟨trivial, hwx⟩
        · simp only [hk, if_false]
          exact ih hwx

/-- **How `writen` ends depends on what it writes and on the kernel alone.** -/
theorem writen_congr {bs : List Byte} {s s' : Socket} (h : s.wx = s'.wx) :
    (writen bs s).1 = (writen bs s').1 ∧ (writen bs s).2.wx = (writen bs s').2.wx := by
  obtain ⟨hres, hwx⟩ := @writenLoop_congr (s.wx.length + 2) bs s s' h
  rw [writen, writen, ← h]
  rcases hl : writenLoop (s.wx.length + 2) bs s with ⟨res, t⟩
  rcases hl' : writenLoop (s.wx.length + 2) bs s' with ⟨res', t'⟩
  rw [hl, hl'] at hres hwx
  obtain rfl : res = res' := hres
  cases res <;> exact ⟨rfl, hwx⟩

end Ducq
