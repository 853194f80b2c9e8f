import Ducq.Inet.Socket

/-!
# What a receive reads

How `readn` ends can be told from its value; why it ended so can only be told from the
`read` calls it made.  `ReadsBy s rs s'` is that `rs` are the results of the `read` calls
between two states of a descriptor, and that `errno` is what the last failure among them
left, or what it was before if none failed.

`readn` ends with a failure that is no interruption, or it has met exactly the failures
that lie within the bytes asked for, all of them interruptions; and then a `read` has
returned zero exactly if fewer bytes came (`readn_reads`).
-/

namespace Ducq

open CMemory ByteStream

/-- The failures among some results. -/
def failed (rs : List ReadResult) : List Errno :=
  rs.filterMap fun
    | .fail e => some e
    | .data _ => none

@[simp] theorem failed_nil : failed [] = [] := rfl

@[simp] theorem failed_append (rs rs' : List ReadResult) :
    failed (rs ++ rs') = failed rs ++ failed rs' := List.filterMap_append

@[simp] theorem failed_fail_cons (e : Errno) (rs : List ReadResult) :
    failed (.fail e :: rs) = e :: failed rs := rfl

@[simp] theorem failed_data_cons (bs : List Byte) (rs : List ReadResult) :
    failed (.data bs :: rs) = failed rs := rfl

theorem mem_failed_iff {rs : List ReadResult} {e : Errno} : e ∈ failed rs ↔ .fail e ∈ rs := by
  rw [failed, List.mem_filterMap]
  constructor
  · rintro ⟨_ | _, hmem, heq⟩
    · exact absurd heq (by simp)
    · obtain rfl := Option.some.inj heq
      exact hmem
  · exact fun h => ⟨_, h, rfl⟩

/-- The `read` calls between two states of a descriptor. -/
structure ReadsBy (s : Socket) (rs : List ReadResult) (s' : Socket) : Prop where
  reads : s'.reads = s.reads ++ rs
  errno : s'.errno = (failed rs).getLast?.or s.errno

/-- What the `read` calls between two states returned. -/
def readsDuring (s s' : Socket) : List ReadResult := s'.reads.drop s.reads.length

namespace ReadsBy

variable {s s' s'' : Socket} {rs rs' : List ReadResult}

theorem readsDuring_eq (h : ReadsBy s rs s') : readsDuring s s' = rs := by
  rw [readsDuring, h.reads, List.drop_left]

theorem refl (s : Socket) : ReadsBy s [] s := ⟨(List.append_nil _).symm, rfl⟩

theorem trans (h : ReadsBy s rs s') (h' : ReadsBy s' rs' s'') : ReadsBy s (rs ++ rs') s'' where
  reads := by rw [h'.reads, h.reads, List.append_assoc]
  errno := by rw [h'.errno, h.errno, failed_append, List.getLast?_append, Option.or_assoc]

/-- A failure that came last is what `errno` tells. -/
theorem errno_of_getLast? (h : ReadsBy s rs s') {e : Errno}
    (he : (failed rs).getLast? = some e) : s'.errno = some e ∧ .fail e ∈ rs := by
  refine ⟨by rw [h.errno, he, Option.some_or], ?_⟩
  exact mem_failed_iff.mp (List.mem_of_getLast? he)

/-- Where there were no failures but interruptions, `errno` tells one of them, or what it
told before. -/
theorem failed_eq_nil (h : ReadsBy s rs s') (hintr : ∀ e ∈ failed rs, e = .eintr)
    {e : Errno} (he : e ≠ .eintr) (herrno : s'.errno = some e) :
    failed rs = [] ∧ s.errno = some e := by
  rw [h.errno] at herrno
  rcases hlast : (failed rs).getLast? with _ | e'
  · rw [hlast, Option.none_or] at herrno
    exact ⟨List.getLast?_eq_none_iff.mp hlast, herrno⟩
  · rw [hlast, Option.some_or] at herrno
    obtain rfl := Option.some.inj herrno
    exact absurd (hintr _ (List.mem_of_getLast? hlast)) he

end ReadsBy

/-- How the reads of a call end that did not succeed: with a failure that is not retried. -/
def EndsInFailure (rs : List ReadResult) : Prop :=
  ∃ e, e ≠ .eintr ∧ (failed rs).getLast? = some e

theorem EndsInFailure.append {rs' : List ReadResult} (h : EndsInFailure rs')
    (rs : List ReadResult) : EndsInFailure (rs ++ rs') := by
  obtain ⟨e, he, hlast⟩ := h
  exact ⟨e, he, by rw [failed_append, List.getLast?_append, hlast, Option.some_or]⟩

/-- The reads of a call that asked for `n` bytes and was not refused: only interruptions
failed, those that lie within. -/
structure ReadsWithin (rx : List Arrival) (n : ℕ) (rs : List ReadResult) : Prop where
  failed_eq : failed rs = failuresWithin rx n
  eintr_of_mem : ∀ e ∈ failed rs, e = .eintr

/-- The reads of two calls, one after the other. -/
theorem ReadsWithin.append {rx : List Arrival} {m n : ℕ} {rs rs' : List ReadResult}
    (h : ReadsWithin rx m rs) (h' : ReadsWithin (advance rx m) n rs') :
    ReadsWithin rx (m + n) (rs ++ rs') where
  failed_eq := by rw [failed_append, h.failed_eq, h'.failed_eq, failuresWithin_add]
  eintr_of_mem := by
    rw [failed_append]
    exact List.forall_mem_append.mpr ⟨h.eintr_of_mem, h'.eintr_of_mem⟩

/-- The reads of the loop of `readn`, by what it ends with. -/
def LoopReads (rx : List Arrival) (n : ℕ) (rs : List ReadResult) (s' : Socket) :
    Option ℕ → Prop
  | none => EndsInFailure rs
  | some k => ReadsWithin rx n rs ∧ (.data [] ∈ rs ↔ 0 < k) ∧ (k = 0 → s'.rx = advance rx n)

namespace LoopReads

variable {rx : List Arrival} {n : ℕ} {rs : List ReadResult} {s' : Socket} {o : Option ℕ}

/-- Nothing is wanted and nothing read. -/
theorem nil (h : s'.rx = rx) : LoopReads rx 0 [] s' (some 0) :=
  ⟨⟨by simp, by simp⟩, by simp, fun _ => by rw [h, advance_zero]⟩

/-- After an interruption. -/
theorem eintr (h : LoopReads rx n rs s' o) (hn : n ≠ 0) :
    LoopReads (.fail .eintr :: rx) n (.fail .eintr :: rs) s' o := by
  cases o with
  | none => exact EndsInFailure.append h [.fail .eintr]
  | some k =>
    obtain ⟨hwithin, hdata, hrx⟩ := h
    refine ⟨⟨?_, ?_⟩, ?_, ?_⟩
    · rw [failed_fail_cons, failuresWithin, if_neg hn, hwithin.failed_eq]
    · rw [failed_fail_cons]
      exact List.forall_mem_cons.mpr ⟨rfl, hwithin.eintr_of_mem⟩
    · rw [← hdata, List.mem_cons, or_iff_right ReadResult.noConfusion]
    · intro hk
      rw [hrx hk, advance, if_neg hn]

/-- After a chunk that was taken whole. -/
theorem chunk {c : Byte} {cs : List Byte} (h : LoopReads rx (n - (cs.length + 1)) rs s' o)
    (hlen : cs.length < n) :
    LoopReads (.chunk c cs :: rx) n (.data (c :: cs) :: rs) s' o := by
  cases o with
  | none => exact EndsInFailure.append h [.data (c :: cs)]
  | some k =>
    obtain ⟨hwithin, hdata, hrx⟩ := h
    refine ⟨⟨?_, ?_⟩, ?_, ?_⟩
    · rw [failed_data_cons, failuresWithin, if_pos hlen, hwithin.failed_eq]
    · rw [failed_data_cons]
      exact hwithin.eintr_of_mem
    · rw [← hdata, List.mem_cons, or_iff_right (by simp)]
    · intro hk
      rw [hrx hk, advance, if_pos hlen]

end LoopReads

/-- **The loop of `readn`**, by what it reads. -/
theorem readnLoop_reads {fuel ptr n : ℕ} {s : Socket} {b : Buffer} (hfuel : s.rx.length < fuel) :
    ∃ rs, ReadsBy s rs (readnLoop fuel ptr n s b).2.1 ∧
      LoopReads s.rx n rs (readnLoop fuel ptr n s b).2.1 (readnLoop fuel ptr n s b).1 := by
  obtain ⟨rx, tx, wx, errno, reads⟩ := s
  induction rx generalizing fuel ptr n b errno reads with
  | nil =>
    obtain ⟨fuel, rfl⟩ := Nat.exists_eq_succ_of_ne_zero (by omega : fuel ≠ 0)
    rw [readnLoop]
    by_cases hn : n = 0
    · subst hn
      exact ⟨[], ReadsBy.refl _, LoopReads.nil rfl⟩
    · rw [if_neg hn]
      refine ⟨[.data []], ⟨rfl, rfl⟩, ⟨rfl, by simp⟩, ?_, fun h0 => absurd h0 hn⟩
      exact iff_of_true (List.mem_singleton.mpr rfl) (Nat.pos_of_ne_zero hn)
  | cons a rx ih =>
    obtain ⟨fuel, rfl⟩ := Nat.exists_eq_succ_of_ne_zero (by omega : fuel ≠ 0)
    rw [List.length_cons] at hfuel
    by_cases hn : n = 0
    · subst hn
      rw [readnLoop, if_pos rfl]
      exact ⟨[], ReadsBy.refl _, LoopReads.nil rfl⟩
    cases a with
    | fail e =>
      by_cases he : e = .eintr
      · subst he
        obtain ⟨rs, hreads, hend⟩ := @ih fuel ptr n b (some .eintr) (reads ++ [.fail .eintr])
          (by dsimp only; omega)
        rw [readnLoop_eintr hn]
        have hfirst : ReadsBy ⟨.fail .eintr :: rx, tx, wx, errno, reads⟩ [.fail .eintr]
            ⟨rx, tx, wx, some .eintr, reads ++ [.fail .eintr]⟩ := ⟨rfl, rfl⟩
        exact ⟨.fail .eintr :: rs, hfirst.trans hreads, hend.eintr hn⟩
      · have hres : readnLoop (fuel + 1) ptr n ⟨.fail e :: rx, tx, wx, errno, reads⟩ b =
            (none, ⟨rx, tx, wx, some e, reads ++ [.fail e]⟩, b) := by
          rw [readnLoop, if_neg hn]
          simp only [Socket.read, if_neg he]
        rw [hres]
        exact ⟨[.fail e], ⟨rfl, rfl⟩, e, he, rfl⟩
    | chunk c cs =>
      by_cases hlen : cs.length < n
      · obtain ⟨rs, hreads, hend⟩ := @ih fuel (ptr + (cs.length + 1)) (n - (cs.length + 1))
          (b.store ptr (c :: cs)) errno (reads ++ [.data (c :: cs)]) (by dsimp only; omega)
        rw [readnLoop_chunk hlen]
        have hfirst : ReadsBy ⟨.chunk c cs :: rx, tx, wx, errno, reads⟩ [.data (c :: cs)]
            ⟨rx, tx, wx, errno, reads ++ [.data (c :: cs)]⟩ := ⟨rfl, rfl⟩
        exact ⟨.data (c :: cs) :: rs, hfirst.trans hreads, hend.chunk hlen⟩
      · -- the chunk holds all that is wanted
        rw [readnLoop_rest hn hlen]
        have hne : ¬ [] = (c :: cs).take n := by
          intro h
          have hlength := congrArg List.length h
          rw [List.length_take, List.length_cons, List.length_nil] at hlength
          omega
        refine ⟨[.data ((c :: cs).take n)], ⟨rfl, rfl⟩, ⟨?_, by simp⟩, ?_, fun _ => ?_⟩
        · rw [failuresWithin, if_neg hlen]
          rfl
        · rw [List.mem_singleton, ReadResult.data.injEq]
          exact iff_of_false hne (lt_irrefl 0)
        · rw [advance, if_neg hlen]

/-- The reads of `readn`, by its value: it failed, or it did not and came to the end of the
stream exactly if the value is short. -/
def ReadnReads (rx : List Arrival) (n : ℕ) (rs : List ReadResult) (s' : Socket) (rc : ℤ) : Prop :=
  rc = -1 ∧ EndsInFailure rs ∨
    0 ≤ rc ∧ rc ≤ n ∧ ReadsWithin rx n rs ∧ (.data [] ∈ rs ↔ rc < n) ∧
      (rc = n → s'.rx = advance rx n)

/-- **`readn`, by what it reads.** -/
theorem readn_reads (n ptr : ℕ) (s : Socket) (b : Buffer) :
    ∃ rs, ReadsBy s rs (readn n ptr s b).2.1 ∧
      ReadnReads s.rx n rs (readn n ptr s b).2.1 (readn n ptr s b).1 := by
  obtain ⟨rs, hreads, hend⟩ := @readnLoop_reads _ ptr n s b (Nat.lt_succ_self _)
  have hle : ∀ k, (readnLoop (s.rx.length + 1) ptr n s b).1 = some k → k ≤ n := by
    intro k hk
    rcases Nat.lt_or_ge (clean s.rx).length n with hlt | hge
    · cases hf : hardFailure s.rx with
      | none =>
        obtain ⟨s', h1, -⟩ := @readnLoop_of_eof _ ptr n s b (Nat.lt_succ_self _) hlt hf
        rw [h1] at hk
        obtain rfl := Option.some.inj hk
        omega
      | some e =>
        obtain ⟨s', h1, -⟩ := @readnLoop_of_failure _ ptr n s b e (Nat.lt_succ_self _) hlt hf
        rw [h1] at hk
        exact absurd hk (by simp)
    · obtain ⟨s', h1, -⟩ := @readnLoop_of_le _ ptr n s b (Nat.lt_succ_self _) hge
      rw [h1] at hk
      obtain rfl := Option.some.inj hk
      exact Nat.zero_le _
  rw [readn]
  rcases hl : readnLoop (s.rx.length + 1) ptr n s b with ⟨_ | k, s', b'⟩
  · rw [hl] at hreads hend
    exact ⟨rs, hreads, .inl ⟨rfl, hend⟩⟩
  · rw [hl] at hreads hend
    have hk := hle k (by rw [hl])
    obtain ⟨hwithin, hdata, hrx⟩ := hend
    refine ⟨rs, hreads, .inr ⟨by dsimp only; omega, by dsimp only; omega, hwithin, ?_, ?_⟩⟩
    · rw [hdata]
      dsimp only
      omega
    · intro heq
      exact hrx (by dsimp only at heq; omega)

end Ducq
