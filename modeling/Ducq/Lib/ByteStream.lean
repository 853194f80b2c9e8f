import Ducq.Lib.Memory

/-!
# A byte stream behind `read` and `write`

What a peer sends is one sequence of bytes; what a reader sees of it is cut by the
kernel.  A stream is therefore a list of arrivals: nonempty chunks of bytes, and
failures of `read` that strike between them.  One `read` takes at most the chunk at
the front, so the chunks are the fragmentation, and every fragmentation and every
placement of failures is some list of arrivals.  The end of the list is the end of
the stream, where `read` returns zero from then on.

The other direction is a list of acceptances, one for each `write` to come: how many
bytes it takes, or how it fails.  When the list is used up a `write` takes everything.

## What a reader that retries interruptions can get

A reader that calls `read` again after `EINTR` and stops at any other failure sees
`clean rx` and then either the end of the stream or `hardFailure rx`.  `advance rx n` is
what is left once `n` bytes have been taken, the failures among them used up; the
lemmas say that it agrees with dropping `n` bytes from both readings of the stream,
as long as the failure has not been met.
-/

namespace ByteStream

open CMemory

/-- The values of `errno` that callers tell apart. -/
inductive Errno where
  | eintr
  | ewouldblock
  | other (code : ℕ)
  deriving DecidableEq

/-- One thing the kernel has for the reader: some bytes, or a failure. -/
inductive Arrival where
  | chunk (b : Byte) (bs : List Byte)
  | fail (e : Errno)
  deriving DecidableEq

/-- How one `write` ends: it takes up to `k` bytes, or fails. -/
inductive Acceptance where
  | accept (k : ℕ)
  | fail (e : Errno)
  deriving DecidableEq

/-! ## Readings of a stream -/

/-- Every byte of the stream. -/
def bytes : List Arrival → List Byte
  | [] => []
  | .chunk b bs :: rx => b :: bs ++ bytes rx
  | .fail _ :: rx => bytes rx

/-- The bytes that arrive before the first failure other than an interruption. -/
def clean : List Arrival → List Byte
  | [] => []
  | .chunk b bs :: rx => b :: bs ++ clean rx
  | .fail e :: rx => if e = .eintr then clean rx else []

/-- The first failure other than an interruption. -/
def hardFailure : List Arrival → Option Errno
  | [] => none
  | .chunk _ _ :: rx => hardFailure rx
  | .fail e :: rx => if e = .eintr then hardFailure rx else some e

/-- What arrives after that failure. -/
def afterFailure : List Arrival → List Arrival
  | [] => []
  | .chunk _ _ :: rx => afterFailure rx
  | .fail e :: rx => if e = .eintr then afterFailure rx else rx

/-- How many bytes come before each failure other than an interruption. -/
def failureOffsets : List Arrival → List ℕ
  | [] => []
  | .chunk _ bs :: rx => (failureOffsets rx).map (· + (bs.length + 1))
  | .fail e :: rx => if e = .eintr then failureOffsets rx else 0 :: failureOffsets rx

/-- Bytes put in front of a stream, as one chunk. -/
def push : List Byte → List Arrival → List Arrival
  | [], rx => rx
  | b :: bs, rx => .chunk b bs :: rx

/-- The stream once `n` bytes of it have been taken. -/
def advance : List Arrival → ℕ → List Arrival
  | [], _ => []
  | .fail e :: rx, n => if n = 0 then .fail e :: rx else advance rx n
  | .chunk b bs :: rx, n =>
    if bs.length < n then advance rx (n - (bs.length + 1)) else push ((b :: bs).drop n) rx

@[simp] theorem advance_zero (rx : List Arrival) : advance rx 0 = rx := by
  cases rx with
  | nil => rfl
  | cons a rx => cases a <;> rfl

@[simp] theorem clean_push (bs : List Byte) (rx : List Arrival) :
    clean (push bs rx) = bs ++ clean rx := by
  cases bs <;> rfl

@[simp] theorem bytes_push (bs : List Byte) (rx : List Arrival) :
    bytes (push bs rx) = bs ++ bytes rx := by
  cases bs <;> rfl

@[simp] theorem hardFailure_push (bs : List Byte) (rx : List Arrival) :
    hardFailure (push bs rx) = hardFailure rx := by
  cases bs <;> rfl

@[simp] theorem afterFailure_push (bs : List Byte) (rx : List Arrival) :
    afterFailure (push bs rx) = afterFailure rx := by
  cases bs <;> rfl

theorem clean_prefix_bytes (rx : List Arrival) : clean rx <+: bytes rx := by
  induction rx with
  | nil => exact List.prefix_refl _
  | cons a rx ih =>
    cases a with
    | chunk b bs => exact List.prefix_append_right_inj _ |>.mpr ih
    | fail e =>
      by_cases he : e = .eintr
      · simpa [clean, bytes, he] using ih
      · simp [clean, he]

/-- **With no failure to meet, everything arrives.** -/
theorem clean_eq_bytes {rx : List Arrival} (h : hardFailure rx = none) : clean rx = bytes rx := by
  induction rx with
  | nil => rfl
  | cons a rx ih =>
    cases a with
    | chunk b bs => rw [clean, bytes, ih h]
    | fail e =>
      rw [hardFailure] at h
      split_ifs at h with he
      rw [clean, if_pos he, bytes, ih h]

/-- A chunk is a chunk wherever it is cut. -/
theorem drop_cons_append {b : Byte} {bs rest : List Byte} {n : ℕ} (h : n ≤ bs.length) :
    (b :: bs).drop n ++ rest = (b :: bs ++ rest).drop n := by
  rw [List.drop_append_of_le_length (by rw [List.length_cons]; omega)]

theorem drop_append_of_lt {b : Byte} {bs rest : List Byte} {n : ℕ} (h : bs.length < n) :
    (b :: bs ++ rest).drop n = rest.drop (n - (bs.length + 1)) := by
  rw [List.drop_append, List.drop_of_length_le (by rw [List.length_cons]; omega),
    List.nil_append, List.length_cons]

/-- A chunk cut inside has a rest. -/
theorem exists_drop_eq_cons {b : Byte} {bs : List Byte} {n : ℕ} (h : ¬ bs.length < n) :
    ∃ c cs, (b :: bs).drop n = c :: cs ∧ cs.length + 1 + n = bs.length + 1 := by
  obtain ⟨c, cs, hc⟩ : ∃ c cs, (b :: bs).drop n = c :: cs :=
    List.exists_cons_of_length_pos (by rw [List.length_drop, List.length_cons]; omega)
  refine ⟨c, cs, hc, ?_⟩
  have := congrArg List.length hc
  rw [List.length_drop, List.length_cons, List.length_cons] at this
  omega

/-- **Taking `n` bytes drops `n` bytes**, as long as they arrive cleanly. -/
theorem clean_advance {rx : List Arrival} {n : ℕ} (h : n ≤ (clean rx).length) :
    clean (advance rx n) = (clean rx).drop n := by
  induction rx generalizing n with
  | nil => simp [advance, clean]
  | cons a rx ih =>
    cases a with
    | chunk b bs =>
      rw [clean] at h ⊢
      rw [advance]
      split_ifs with hn
      · rw [ih (by rw [List.length_append, List.length_cons] at h; omega),
          drop_append_of_lt hn]
      · rw [clean_push, drop_cons_append (by omega)]
    | fail e =>
      rw [advance]
      split_ifs with hn
      · rw [hn, List.drop_zero]
      · by_cases he : e = .eintr
        · rw [clean, if_pos he] at h ⊢
          exact ih h
        · rw [clean, if_neg he, List.length_nil] at h
          omega

theorem bytes_advance {rx : List Arrival} {n : ℕ} (h : n ≤ (bytes rx).length) :
    bytes (advance rx n) = (bytes rx).drop n := by
  induction rx generalizing n with
  | nil => simp [advance, bytes]
  | cons a rx ih =>
    cases a with
    | chunk b bs =>
      rw [bytes] at h ⊢
      rw [advance]
      split_ifs with hn
      · rw [ih (by rw [List.length_append, List.length_cons] at h; omega),
          drop_append_of_lt hn]
      · rw [bytes_push, drop_cons_append (by omega)]
    | fail e =>
      rw [advance]
      split_ifs with hn
      · rw [hn, List.drop_zero]
      · exact ih h

/-- A failure that has not been met is still there. -/
theorem hardFailure_advance {rx : List Arrival} {n : ℕ} (h : n ≤ (clean rx).length) :
    hardFailure (advance rx n) = hardFailure rx := by
  induction rx generalizing n with
  | nil => rfl
  | cons a rx ih =>
    cases a with
    | chunk b bs =>
      rw [clean, List.length_append, List.length_cons] at h
      rw [advance]
      split_ifs with hn
      · exact ih (by omega)
      · exact hardFailure_push _ _
    | fail e =>
      rw [advance]
      split_ifs with hn
      · rfl
      · by_cases he : e = .eintr
        · rw [clean, if_pos he] at h
          rw [hardFailure, if_pos he]
          exact ih h
        · rw [clean, if_neg he, List.length_nil] at h
          omega

/-- Taking bytes one lot after another is taking them at once. -/
theorem advance_advance {rx : List Arrival} {m n : ℕ} (hm : 0 < n) :
    advance (advance rx m) n = advance rx (m + n) := by
  induction rx generalizing m with
  | nil => rfl
  | cons a rx ih =>
    cases a with
    | fail e =>
      rw [advance]
      split_ifs with h0
      · rw [h0, Nat.zero_add]
      · rw [ih, advance, if_neg (by omega)]
    | chunk b bs =>
      rw [advance]
      split_ifs with h1
      · rw [ih, advance, if_pos (by omega)]
        congr 1
        omega
      · obtain ⟨c, cs, hc, hlen⟩ := exists_drop_eq_cons h1
        rw [hc, push, advance, advance]
        split_ifs with h2 h3 h3
        · congr 1
          omega
        · omega
        · omega
        · rw [← hc, List.drop_drop]

/-- What arrives is what arrives before the failure and what arrives after it. -/
theorem bytes_eq_clean_append (rx : List Arrival) :
    bytes rx = clean rx ++ bytes (afterFailure rx) := by
  induction rx with
  | nil => rfl
  | cons a rx ih =>
    cases a with
    | chunk b bs => rw [bytes, clean, afterFailure, List.append_assoc, ← ih]
    | fail e =>
      rw [bytes, clean, afterFailure]
      split_ifs with he
      · exact ih
      · rfl

/-- The first failure strikes after the bytes that arrive cleanly. -/
theorem failureOffsets_of_hardFailure {rx : List Arrival} {e : Errno}
    (h : hardFailure rx = some e) :
    failureOffsets rx =
      (clean rx).length :: (failureOffsets (afterFailure rx)).map (· + (clean rx).length) := by
  induction rx with
  | nil => simp [hardFailure] at h
  | cons a rx ih =>
    cases a with
    | chunk b bs =>
      have hlen : (clean (.chunk b bs :: rx)).length = (clean rx).length + (bs.length + 1) := by
        rw [clean, List.length_append, List.length_cons, Nat.add_comm]
      rw [failureOffsets, ih h, List.map_cons, List.map_map, hlen, afterFailure]
      congr 2
      funext k
      exact Nat.add_assoc _ _ _
    | fail e' =>
      rw [hardFailure] at h
      by_cases he : e' = .eintr
      · rw [if_pos he] at h
        rw [failureOffsets, if_pos he, clean, if_pos he, afterFailure, if_pos he, ih h]
      · rw [failureOffsets, if_neg he, clean, if_neg he, afterFailure, if_neg he]
        simp

/-- Taking bytes brings the failures closer. -/
theorem failureOffsets_advance {rx : List Arrival} {n : ℕ} (h : n ≤ (clean rx).length) :
    failureOffsets rx = (failureOffsets (advance rx n)).map (· + n) := by
  induction rx generalizing n with
  | nil => rfl
  | cons a rx ih =>
    cases a with
    | chunk b bs =>
      rw [clean, List.length_append, List.length_cons] at h
      rw [advance]
      split_ifs with hn
      · rw [failureOffsets, @ih (n - (bs.length + 1)) (by omega), List.map_map]
        congr 1
        funext k
        show k + (n - (bs.length + 1)) + (bs.length + 1) = k + n
        omega
      · obtain ⟨c, cs, hd, hlen⟩ := exists_drop_eq_cons hn
        rw [hd, push, failureOffsets, failureOffsets, List.map_map]
        congr 1
        funext k
        show k + (bs.length + 1) = k + (cs.length + 1) + n
        omega
    | fail e =>
      rw [advance]
      split_ifs with hn
      · rw [hn]
        simp
      · by_cases he : e = .eintr
        · rw [clean, if_pos he] at h
          rw [failureOffsets, if_pos he]
          exact ih h
        · rw [clean, if_neg he, List.length_nil] at h
          omega

/-! ## Failures on the way -/

/-- The failures a reader meets that takes `n` bytes, or all there are if these are
fewer. -/
def failuresWithin : List Arrival → ℕ → List Errno
  | [], _ => []
  | .fail e :: rx, n => if n = 0 then [] else e :: failuresWithin rx n
  | .chunk _ bs :: rx, n => if bs.length < n then failuresWithin rx (n - (bs.length + 1)) else []

@[simp] theorem failuresWithin_zero (rx : List Arrival) : failuresWithin rx 0 = [] := by
  cases rx with
  | nil => rfl
  | cons a rx => cases a <;> simp [failuresWithin]

/-- **Bytes taken one lot after another** meet the failures one lot after another. -/
theorem failuresWithin_add (rx : List Arrival) (m n : ℕ) :
    failuresWithin rx (m + n) = failuresWithin rx m ++ failuresWithin (advance rx m) n := by
  induction rx generalizing m with
  | nil => rfl
  | cons a rx ih =>
    rcases Nat.eq_zero_or_pos m with rfl | hm
    · simp
    cases a with
    | fail e =>
      rw [failuresWithin, failuresWithin, advance, if_neg (by omega), if_neg (by omega),
        if_neg (by omega), ih, List.cons_append]
    | chunk b bs =>
      rw [failuresWithin, failuresWithin, advance]
      by_cases hlen : bs.length < m
      · rw [if_pos (by omega), if_pos hlen, if_pos hlen, ← ih]
        congr 1
        omega
      · obtain ⟨c, cs, hc, hcs⟩ := exists_drop_eq_cons hlen
        rw [if_neg hlen, if_neg hlen, hc, push, failuresWithin, List.nil_append]
        by_cases hn : cs.length < n
        · rw [if_pos (by omega), if_pos hn]
          congr 1
          omega
        · rw [if_neg (by omega), if_neg hn]

/-- Who meets no failure and still does not get enough has come to the end. -/
theorem hardFailure_eq_none_of_failuresWithin {rx : List Arrival} {n : ℕ}
    (h : failuresWithin rx n = []) (hlt : (clean rx).length < n) : hardFailure rx = none := by
  induction rx generalizing n with
  | nil => rfl
  | cons a rx ih =>
    cases a with
    | fail e =>
      rw [failuresWithin, if_neg (by omega)] at h
      exact absurd h (List.cons_ne_nil _ _)
    | chunk b bs =>
      rw [clean, List.length_append, List.length_cons] at hlt
      rw [failuresWithin, if_pos (by omega)] at h
      exact ih h (by omega)

/-! ## The two ends of a connection -/

/-- What one `read` returned; `data []` is the end of the stream. -/
inductive ReadResult where
  | data (bs : List Byte)
  | fail (e : Errno)
  deriving DecidableEq

/-- What one `write` returned. -/
inductive WriteResult where
  | wrote (k : ℕ)
  | fail (e : Errno)
  deriving DecidableEq

/-- A connected descriptor: what is still to arrive, what has been written, how the
writes to come end, `errno`, and what every `read` so far returned. -/
structure Socket where
  rx : List Arrival
  tx : List Byte
  wx : List Acceptance
  errno : Option Errno
  reads : List ReadResult
  deriving DecidableEq

namespace Socket

/-- A descriptor with `rx` to read and no call made on it. -/
def receiving (rx : List Arrival) : Socket := ⟨rx, [], [], none, []⟩

/-- `read(fd, ptr, n)`. -/
def read (s : Socket) (n : ℕ) : ReadResult × Socket :=
  match s.rx with
  | [] => (.data [], { s with reads := s.reads ++ [.data []] })
  | .fail e :: rx =>
    (.fail e, { s with rx := rx, errno := some e, reads := s.reads ++ [.fail e] })
  | .chunk b bs :: rx =>
    (.data ((b :: bs).take n),
      { s with rx := push ((b :: bs).drop n) rx, reads := s.reads ++ [.data ((b :: bs).take n)] })

/-- `write(fd, ptr, n)`, where `bs` are the `n` bytes at `ptr`. -/
def write (s : Socket) (bs : List Byte) : WriteResult × Socket :=
  match s.wx with
  | [] => (.wrote bs.length, { s with tx := s.tx ++ bs })
  | .accept k :: wx =>
    (.wrote (min k bs.length), { s with tx := s.tx ++ bs.take k, wx := wx })
  | .fail e :: wx => (.fail e, { s with wx := wx, errno := some e })

end Socket

end ByteStream
