import Ducq.Inet.Http
import Ducq.Inet.Socket

/-!
# `inet_http.c`: reading an HTTP header

`inet_get_http_header` reads what arrives into the caller's buffer and looks for the end of
the header after every piece, with `strstr` from the start of the buffer.  Nothing puts a
terminator behind what was read, so the search goes on into whatever the buffer held
before, and behind it.

How a run ends is in `HeaderRead`, together with every look it took: how far the search
went, and how many bytes had been received by then.  A look stays among the bytes received
exactly if they decide the search (`strstrReach_le_iff`), and once one look is decided
every later one is, and the end of the header is that of the stream
(`inetGetHttpHeader_of_decides`).  So the first piece settles it
(`sameHeader_iff`).
-/

namespace Ducq

open CMemory ByteStream Occurrence

/-! ## The reader -/

/-- `"\\r\\n\\r\\n"`. -/
def headerEnd : List Byte := [13, 10, 13, 10]

theorem headerEnd_ne_nil : headerEnd ≠ [] := List.cons_ne_nil _ _

theorem zero_notMem_headerEnd : (0 : Byte) ∉ headerEnd := by decide

/-- What `inet_get_http_header` comes to: what it returns and `*end`, an index into the
buffer; the bytes received, the descriptor, and the looks. -/
structure HeaderRead where
  returned : ℤ
  end_ : Option ℕ
  received : List Byte
  fd : Socket
  looks : List (ℕ × ℕ)

/-- The loop of `inet_get_http_header`; `mem` is the memory from the start of the buffer on,
as it was before the call. -/
def httpHeaderLoop (size : ℕ) (mem : List Byte) :
    ℕ → List Byte → List (ℕ × ℕ) → Socket → HeaderRead
  | 0, received, looks, fd => ⟨received.length, none, received, fd, looks⟩
  | fuel + 1, received, looks, fd =>
    if received.length ≥ size then ⟨received.length, none, received, fd, looks⟩
    else match fd.read (size - received.length) with
      | (.data [], fd) => ⟨received.length, none, received, fd, looks⟩
      | (.fail e, fd) =>
        if e = .ewouldblock then ⟨received.length, none, received, fd, looks⟩
        else if e = .eintr then httpHeaderLoop size mem fuel received looks fd
        else ⟨-1, none, received, fd, looks⟩
      | (.data (x :: xs), fd) =>
        let received := received ++ x :: xs
        let memory := received ++ mem.drop received.length
        let looks := looks ++ [(strstrReach headerEnd memory, received.length)]
        match strstrIndex headerEnd memory with
        | some i => ⟨received.length, some (i + 2), received, fd, looks⟩
        | none => httpHeaderLoop size mem fuel received looks fd

/-- `inet_get_http_header(fd, buffer, size, &end)`. -/
def inetGetHttpHeader (size : ℕ) (mem : List Byte) (fd : Socket) : HeaderRead :=
  httpHeaderLoop size mem (fd.rx.length + 1) [] [] fd

/-- What the buffer holds after the call. -/
def HeaderRead.memory (r : HeaderRead) (mem : List Byte) : List Byte :=
  r.received ++ mem.drop r.received.length

/-! ## Runs -/

/-- What the first `read` that is not interrupted has to give. -/
def firstChunk : List Arrival → List Byte
  | [] => []
  | .chunk b bs :: _ => b :: bs
  | .fail e :: rx => if e = .eintr then firstChunk rx else []

theorem firstChunk_prefix_clean (rx : List Arrival) : firstChunk rx <+: clean rx := by
  induction rx with
  | nil => exact List.prefix_refl _
  | cons a rx ih =>
    cases a with
    | chunk b bs => exact List.prefix_append _ _
    | fail e =>
      rw [firstChunk, clean]
      split_ifs
      · exact ih
      · exact List.prefix_refl _

/-- Nothing arrives at all, unless something arrives first. -/
theorem firstChunk_eq_nil_iff (rx : List Arrival) : firstChunk rx = [] ↔ clean rx = [] := by
  induction rx with
  | nil => exact Iff.rfl
  | cons a rx ih =>
    cases a with
    | chunk b bs => simp [firstChunk, clean]
    | fail e =>
      rw [firstChunk, clean]
      split_ifs
      · exact ih
      · exact Iff.rfl

variable {size : ℕ} {mem : List Byte}

/-- **A search that is decided and finds nothing** finds nothing in the rest of the run
either, and goes no further than what has been received. -/
theorem httpHeaderLoop_of_decides {fuel : ℕ} {received : List Byte} {looks : List (ℕ × ℕ)}
    {fd : Socket} (h : Decides headerEnd received) (hnone : strstrIndex headerEnd received = none)
    (hlooks : ∀ l ∈ looks, l.1 ≤ l.2) :
    (httpHeaderLoop size mem fuel received looks fd).end_ = none ∧
      ∀ l ∈ (httpHeaderLoop size mem fuel received looks fd).looks, l.1 ≤ l.2 := by
  fun_induction httpHeaderLoop size mem fuel received looks fd with
  | case1 => exact ⟨rfl, hlooks⟩
  | case2 => exact ⟨rfl, hlooks⟩
  | case3 => exact ⟨rfl, hlooks⟩
  | case4 => exact ⟨rfl, hlooks⟩
  | case5 _ _ _ _ _ _ _ _ ih => exact ih h hnone hlooks
  | case6 => exact ⟨rfl, hlooks⟩
  | case7 fuel received looks fd hroom x xs fd' hread received' memory' looks' i hindex =>
    have hagain : strstrIndex headerEnd memory' = none := by
      show strstrIndex headerEnd ((received ++ x :: xs) ++ mem.drop _) = none
      rw [List.append_assoc, strstrIndex_append headerEnd_ne_nil zero_notMem_headerEnd h, hnone]
    exact absurd (hindex.symm.trans hagain) (Option.some_ne_none i)
  | case8 fuel received looks fd hroom x xs fd' hread received' memory' looks' _ ih =>
    have hmore := h.append (x :: xs)
    refine ih hmore ?_ fun l hl => ?_
    · rw [strstrIndex_append headerEnd_ne_nil zero_notMem_headerEnd h, hnone]
    · rcases List.mem_append.mp hl with hl | hl
      · exact hlooks l hl
      · obtain rfl := List.mem_singleton.mp hl
        exact (strstrReach_le_iff headerEnd_ne_nil zero_notMem_headerEnd _ _).mpr hmore

/-- **The loop only adds**: no byte is taken back, and no look is forgotten. -/
theorem httpHeaderLoop_grows (fuel : ℕ) (received : List Byte) (looks : List (ℕ × ℕ))
    (fd : Socket) :
    received <+: (httpHeaderLoop size mem fuel received looks fd).received ∧
      looks <+: (httpHeaderLoop size mem fuel received looks fd).looks := by
  fun_induction httpHeaderLoop size mem fuel received looks fd with
  | case1 => exact ⟨List.prefix_rfl, List.prefix_rfl⟩
  | case2 => exact ⟨List.prefix_rfl, List.prefix_rfl⟩
  | case3 => exact ⟨List.prefix_rfl, List.prefix_rfl⟩
  | case4 => exact ⟨List.prefix_rfl, List.prefix_rfl⟩
  | case5 _ _ _ _ _ _ _ _ ih => exact ih
  | case6 => exact ⟨List.prefix_rfl, List.prefix_rfl⟩
  | case7 => exact ⟨List.prefix_append _ _, List.prefix_append _ _⟩
  | case8 _ _ _ _ _ _ _ _ _ _ _ _ _ ih =>
    exact ⟨(List.prefix_append _ _).trans ih.1, (List.prefix_append _ _).trans ih.2⟩

/-- A `read` writes nothing. -/
theorem sameWrites_read {fd fd' : Socket} {n : ℕ} {res : ReadResult}
    (h : fd.read n = (res, fd')) : SameWrites fd fd' := by
  obtain ⟨rx, tx, wx, errno, reads⟩ := fd
  cases rx with
  | nil =>
    obtain ⟨-, rfl⟩ := Prod.mk.inj h
    exact ⟨rfl, rfl⟩
  | cons a rx =>
    cases a with
    | chunk b bs =>
      obtain ⟨-, rfl⟩ := Prod.mk.inj h
      exact ⟨rfl, rfl⟩
    | fail e =>
      obtain ⟨-, rfl⟩ := Prod.mk.inj h
      exact ⟨rfl, rfl⟩

/-- Reading the header writes nothing. -/
theorem sameWrites_httpHeaderLoop (fuel : ℕ) (received : List Byte) (looks : List (ℕ × ℕ))
    (fd : Socket) : SameWrites fd (httpHeaderLoop size mem fuel received looks fd).fd := by
  fun_induction httpHeaderLoop size mem fuel received looks fd with
  | case1 => exact SameWrites.refl _
  | case2 => exact SameWrites.refl _
  | case3 fuel received looks fd hroom fd' hread => exact sameWrites_read hread
  | case4 fuel received looks fd hroom fd' hread => exact sameWrites_read hread
  | case5 fuel received looks fd hroom fd' hread _ ih => exact (sameWrites_read hread).trans ih
  | case6 fuel received looks fd hroom e fd' hread => exact sameWrites_read hread
  | case7 fuel received looks fd hroom x xs fd' hread => exact sameWrites_read hread
  | case8 fuel received looks fd hroom x xs fd' hread _ _ _ _ ih =>
    exact (sameWrites_read hread).trans ih

/-- **What is found is in the memory the call leaves**: the end of the first line before an
empty one. -/
theorem memory_of_end {fuel : ℕ} {received : List Byte} {looks : List (ℕ × ℕ)} {fd : Socket}
    {end_ : ℕ} (h : (httpHeaderLoop size mem fuel received looks fd).end_ = some end_) :
    ∃ i, strstrIndex headerEnd ((httpHeaderLoop size mem fuel received looks fd).memory mem) =
      some i ∧ end_ = i + 2 := by
  fun_induction httpHeaderLoop size mem fuel received looks fd with
  | case1 => exact absurd h (Option.some_ne_none _).symm
  | case2 => exact absurd h (Option.some_ne_none _).symm
  | case3 => exact absurd h (Option.some_ne_none _).symm
  | case4 => exact absurd h (Option.some_ne_none _).symm
  | case5 _ _ _ _ _ _ _ _ ih => exact ih h
  | case6 => exact absurd h (Option.some_ne_none _).symm
  | case7 fuel received looks fd hroom x xs fd' hread received' memory' looks' i hindex =>
    exact ⟨i, hindex, (Option.some.inj h).symm⟩
  | case8 _ _ _ _ _ _ _ _ _ _ _ _ _ ih => exact ih h

/-- The first piece a `read` of the buffer's size gives. -/
def firstPiece (size : ℕ) (rx : List Arrival) : List Byte := (firstChunk rx).take size

/-- The look after the first piece. -/
def firstLook (size : ℕ) (mem : List Byte) (rx : List Arrival) : ℕ × ℕ :=
  (strstrReach headerEnd (firstPiece size rx ++ mem.drop (firstPiece size rx).length),
    (firstPiece size rx).length)

/-- **How a run begins**: nothing arrives and nothing is looked at, or the first piece is
looked at.  The induction is on the interruptions before it. -/
theorem httpHeaderLoop_first {fuel : ℕ} {fd : Socket} (hfuel : fd.rx.length < fuel) :
    (firstPiece size fd.rx = [] → ∃ returned fd',
      httpHeaderLoop size mem fuel [] [] fd = ⟨returned, none, [], fd', []⟩) ∧
    (firstPiece size fd.rx ≠ [] → ∃ fuel' fd', httpHeaderLoop size mem fuel [] [] fd =
      match strstrIndex headerEnd
          (firstPiece size fd.rx ++ mem.drop (firstPiece size fd.rx).length) with
      | some i => ⟨(firstPiece size fd.rx).length, some (i + 2), firstPiece size fd.rx, fd',
          [firstLook size mem fd.rx]⟩
      | none => httpHeaderLoop size mem fuel' (firstPiece size fd.rx) [firstLook size mem fd.rx]
          fd') := by
  obtain ⟨rx, tx, wx, errno, reads⟩ := fd
  rcases Nat.eq_zero_or_pos size with rfl | hsize
  · have hnil : firstPiece 0 rx = [] := List.take_zero
    refine ⟨fun _ => ?_, fun h => absurd hnil h⟩
    obtain ⟨fuel, rfl⟩ := Nat.exists_eq_succ_of_ne_zero (by omega : fuel ≠ 0)
    exact ⟨_, _, by rw [httpHeaderLoop, if_pos (Nat.zero_le _)]⟩
  have hroom : ¬ ([] : List Byte).length ≥ size := Nat.not_le.mpr hsize
  induction rx generalizing fuel errno reads with
  | nil =>
    obtain ⟨fuel, rfl⟩ := Nat.exists_eq_succ_of_ne_zero (by omega : fuel ≠ 0)
    refine ⟨fun _ => ⟨0, ⟨[], tx, wx, errno, reads ++ [.data []]⟩, ?_⟩,
      fun h => absurd List.take_nil h⟩
    rw [httpHeaderLoop, if_neg hroom]
    rfl
  | cons a rx ih =>
    obtain ⟨fuel, rfl⟩ := Nat.exists_eq_succ_of_ne_zero (by omega : fuel ≠ 0)
    rw [List.length_cons] at hfuel
    rw [httpHeaderLoop, if_neg hroom]
    cases a with
    | fail e =>
      by_cases he : e = .eintr
      · subst he
        exact @ih fuel (some .eintr) (reads ++ [.fail .eintr]) (Nat.lt_of_succ_lt_succ hfuel)
      · have hnil : firstPiece size (.fail e :: rx) = [] := by
          rw [firstPiece, firstChunk, if_neg he, List.take_nil]
        refine ⟨fun _ => ?_, fun h => absurd hnil h⟩
        dsimp only [Socket.read]
        split_ifs
        · exact ⟨_, _, rfl⟩
        · exact ⟨_, _, rfl⟩
    | chunk b bs =>
      obtain ⟨k, rfl⟩ := Nat.exists_eq_succ_of_ne_zero hsize.ne'
      exact ⟨fun h => absurd h (List.cons_ne_nil _ _), fun _ => ⟨_, _, rfl⟩⟩

/-- The bytes received begin with the first piece. -/
theorem firstPiece_prefix_received {fd : Socket} :
    firstPiece size fd.rx <+: (inetGetHttpHeader size mem fd).received := by
  by_cases hnil : firstPiece size fd.rx = []
  · rw [hnil]
    exact List.nil_prefix
  · obtain ⟨fuel', fd', hrun⟩ := (httpHeaderLoop_first (Nat.lt_succ_self _)).2 hnil
    rw [inetGetHttpHeader, hrun]
    split
    · exact List.prefix_refl _
    · exact (httpHeaderLoop_grows _ _ _ _).1

/-- **Where the end is**, of a run whose first piece decides the search: at the end of the
header in the stream. -/
theorem inetGetHttpHeader_of_decides {fd : Socket} (h : Decides headerEnd (firstPiece size fd.rx)) :
    (inetGetHttpHeader size mem fd).end_ =
        (strstrIndex headerEnd (clean fd.rx)).map (· + 2) ∧
      ∀ l ∈ (inetGetHttpHeader size mem fd).looks, l.1 ≤ l.2 := by
  have hne : firstPiece size fd.rx ≠ [] := fun hnil => by
    rw [hnil] at h
    exact absurd h (by decide)
  have hlook : (firstLook size mem fd.rx).1 ≤ (firstLook size mem fd.rx).2 :=
    (strstrReach_le_iff headerEnd_ne_nil zero_notMem_headerEnd _ _).mpr h
  have hlooks : ∀ l ∈ [firstLook size mem fd.rx], l.1 ≤ l.2 := List.forall_mem_singleton.mpr hlook
  have hclean : strstrIndex headerEnd (clean fd.rx) =
      strstrIndex headerEnd (firstPiece size fd.rx) := by
    obtain ⟨t, ht⟩ := (List.take_prefix size _).trans (firstChunk_prefix_clean fd.rx)
    rw [← ht]
    exact strstrIndex_append headerEnd_ne_nil zero_notMem_headerEnd h t
  obtain ⟨fuel', fd', hrun⟩ := (httpHeaderLoop_first (Nat.lt_succ_self _)).2 hne
  rw [inetGetHttpHeader, hrun, strstrIndex_append headerEnd_ne_nil zero_notMem_headerEnd h, hclean]
  cases hindex : strstrIndex headerEnd (firstPiece size fd.rx) with
  | some i => exact ⟨rfl, hlooks⟩
  | none => exact httpHeaderLoop_of_decides h hindex hlooks

/-! ## Two runs -/

/-- `*end` is NULL, or behind the first line end of the first empty line of the stream. -/
def EndsHeader (stream : List Byte) (end_ : Option ℕ) : Prop :=
  end_ = none ∨ ∃ pre q, stream = pre ++ q ∧ First headerEnd pre q ∧ end_ = some (pre.length + 2)

/-- Two runs on one stream, in whatever pieces it arrives and whatever the buffers held
before, find the same end, and neither looks beyond what it has received. -/
structure SameHeader (size : ℕ) (mem mem' : List Byte) (fd fd' : Socket) : Prop where
  end_eq : (inetGetHttpHeader size mem fd).end_ = (inetGetHttpHeader size mem' fd').end_
  ends : EndsHeader (clean fd.rx) (inetGetHttpHeader size mem fd).end_
  looks : ∀ l ∈ (inetGetHttpHeader size mem fd).looks, l.1 ≤ l.2
  looks' : ∀ l ∈ (inetGetHttpHeader size mem' fd').looks, l.1 ≤ l.2

/-- Nothing arrives, or the first piece decides where the header ends. -/
def FirstPieceDecides (size : ℕ) (rx : List Arrival) : Prop :=
  firstPiece size rx = [] ∨ Decides headerEnd (firstPiece size rx)

/-- A run that never looks too far decides with its first piece. -/
theorem firstPieceDecides_of_looks {fd : Socket}
    (h : ∀ l ∈ (inetGetHttpHeader size mem fd).looks, l.1 ≤ l.2) :
    FirstPieceDecides size fd.rx := by
  by_cases hnil : firstPiece size fd.rx = []
  · exact Or.inl hnil
  · obtain ⟨fuel', fd', hrun⟩ := (httpHeaderLoop_first (Nat.lt_succ_self _)).2 hnil
    have hmem : firstLook size mem fd.rx ∈ (inetGetHttpHeader size mem fd).looks := by
      rw [inetGetHttpHeader, hrun]
      split
      · exact List.mem_singleton_self _
      · exact (httpHeaderLoop_grows _ _ _ _).2.subset (List.mem_singleton_self _)
    exact Or.inr ((strstrReach_le_iff headerEnd_ne_nil zero_notMem_headerEnd _ _).mp (h _ hmem))

/-- What `*end` is when the first piece decides. -/
theorem end_of_firstPieceDecides {fd : Socket} (h : FirstPieceDecides size fd.rx) :
    (inetGetHttpHeader size mem fd).end_ =
        (if firstPiece size fd.rx = [] then none
        else (strstrIndex headerEnd (clean fd.rx)).map (· + 2)) ∧
      ∀ l ∈ (inetGetHttpHeader size mem fd).looks, l.1 ≤ l.2 := by
  by_cases hnil : firstPiece size fd.rx = []
  · obtain ⟨returned, fd', hrun⟩ :=
      (@httpHeaderLoop_first size mem _ fd (Nat.lt_succ_self _)).1 hnil
    rw [inetGetHttpHeader, hrun, if_pos hnil]
    exact ⟨rfl, fun l hl => absurd hl List.not_mem_nil⟩
  · rw [if_neg hnil]
    exact inetGetHttpHeader_of_decides (h.resolve_left hnil)

/-- Whether anything arrives does not depend on the pieces. -/
theorem firstPiece_eq_nil_iff (size : ℕ) (rx : List Arrival) :
    firstPiece size rx = [] ↔ size = 0 ∨ clean rx = [] := by
  rw [firstPiece, List.take_eq_nil_iff, firstChunk_eq_nil_iff]

/-- **The reader depends on the received bytes only** exactly if in both runs the first
piece already decides where the header ends. -/
theorem sameHeader_iff (size : ℕ) (mem mem' : List Byte) {fd fd' : Socket}
    (hstream : clean fd.rx = clean fd'.rx) :
    SameHeader size mem mem' fd fd' ↔
      FirstPieceDecides size fd.rx ∧ FirstPieceDecides size fd'.rx := by
  constructor
  · intro h
    exact ⟨firstPieceDecides_of_looks h.looks, firstPieceDecides_of_looks h.looks'⟩
  · rintro ⟨h, h'⟩
    obtain ⟨hend, hlooks⟩ := @end_of_firstPieceDecides size mem fd h
    obtain ⟨hend', hlooks'⟩ := @end_of_firstPieceDecides size mem' fd' h'
    have hnil : firstPiece size fd.rx = [] ↔ firstPiece size fd'.rx = [] := by
      rw [firstPiece_eq_nil_iff, firstPiece_eq_nil_iff, hstream]
    refine ⟨?_, ?_, hlooks, hlooks'⟩
    · rw [hend, hend', hstream]
      exact if_congr hnil rfl rfl
    · rw [hend]
      split_ifs
      · exact Or.inl rfl
      · cases hindex : strstrIndex headerEnd (clean fd.rx) with
        | none => exact Or.inl rfl
        | some i =>
          obtain ⟨pre, q, hsplit, hfirst, -, rfl⟩ :=
            (strstrIndex_eq_some_iff headerEnd_ne_nil).mp hindex
          exact Or.inr ⟨pre, q, hsplit, hfirst, rfl⟩

/-- A header that arrives at once is found whatever the buffers hold. -/
theorem sameHeader_onePiece :
    SameHeader 8 (List.replicate 8 0) (List.replicate 8 13)
      (Socket.receiving [.chunk 97 headerEnd])
      (Socket.receiving [.fail .eintr, .chunk 97 headerEnd]) :=
  (@sameHeader_iff 8 _ _ (Socket.receiving [.chunk 97 headerEnd])
    (Socket.receiving [.fail .eintr, .chunk 97 headerEnd]) rfl).mpr
    ⟨Or.inr (Or.inl ⟨[97], [], rfl⟩), Or.inr (Or.inl ⟨[97], [], rfl⟩)⟩

/-- **Two bytes arrive, and the buffer holds the other three** of an end of a header: the
run finds it, and on a buffer of zeros it does not. -/
theorem not_sameHeader_leftover :
    ¬ SameHeader 8 (List.replicate 8 0) [0, 0, 10, 13, 10, 0, 0, 0]
      (Socket.receiving [.chunk 97 [13]]) (Socket.receiving [.chunk 97 [13]]) := fun h =>
  absurd h.end_eq (by decide)

end Ducq
