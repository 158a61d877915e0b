import CollabMarkdown.CString.Lines
import Mathlib.Data.List.TakeDrop

/-!
# Streams read to their end

Successive calls of `fgets` with one buffer cut a stream into chunks.  Which lists of
chunks arise so is told by the chunks alone, and reading such a list again gives it back.
-/

namespace CollabMarkdown.CString

/-- What successive reads return, up to the end of the stream. -/
def chunks (size : Nat) (stream : Text) : List Text :=
  match _read : fgets size true stream with
  | some (some chunk, rest) => chunk :: chunks size rest
  | none | some (none, _) => []
termination_by stream.length
decreasing_by exact fgets_shorter _read

theorem chunks_of_read {size : Nat} {stream chunk rest : Text}
    (read : fgets size true stream = some (some chunk, rest)) :
    chunks size stream = chunk :: chunks size rest := by
  rw [chunks, read]

@[simp]
theorem chunks_nil (size : Nat) : chunks size [] = [] := by
  have read : fgets size true [] = some (none, []) := by simp [fgets, fgetsTake]
  rw [chunks, read]

/-- What one read can return. -/
structure IsChunk (size : Nat) (chunk : Text) : Prop where
  nonempty : chunk ≠ []
  inner : newline ∉ chunk.dropLast
  fits : chunk.length < size

/-- A chunk that the end of the stream has not cut short. -/
def Complete (size : Nat) (chunk : Text) : Prop :=
  newline ∈ chunk ∨ size - 1 ≤ chunk.length

theorem eq_concat_newline {chunk : Text} (inner : newline ∉ chunk.dropLast)
    (member : newline ∈ chunk) : chunk = chunk.dropLast ++ [newline] := by
  have nonempty : chunk ≠ [] := List.ne_nil_of_mem member
  have split := List.dropLast_concat_getLast nonempty
  rw [← split, List.mem_append, List.mem_singleton] at member
  rcases member with before | last
  · exact absurd before inner
  · rw [← last] at split
    exact split.symm

/-- The beginning of a chunk can be read too. -/
theorem IsChunk.beginning {size : Nat} {chunk piece : Text} (isChunk : IsChunk size chunk)
    (nonempty : piece ≠ []) (isPrefix : piece <+: chunk) : IsChunk size piece where
  nonempty := nonempty
  inner member := by
    obtain ⟨more, rfl⟩ := isPrefix
    apply isChunk.inner
    rw [List.dropLast_append]
    split
    · exact member
    · exact List.mem_append_left _ (List.dropLast_subset _ member)
  fits := Nat.lt_of_le_of_lt isPrefix.length_le isChunk.fits

/-- But only at the end of a stream. -/
theorem IsChunk.not_complete {size : Nat} {chunk piece : Text} (isChunk : IsChunk size chunk)
    (isPrefix : piece <+: chunk) (proper : piece ≠ chunk) : ¬Complete size piece := by
  obtain ⟨more, rfl⟩ := isPrefix
  have left : more ≠ [] := by
    rintro rfl
    exact proper (List.append_nil piece).symm
  rintro (ends | full)
  · apply isChunk.inner
    rw [List.dropLast_append_of_ne_nil left]
    exact List.mem_append_left _ ends
  · have fits := isChunk.fits
    have positive := List.length_pos_of_ne_nil left
    rw [List.length_append] at fits
    omega

/-- A chunk is read back, with what follows it left. -/
theorem fgets_chunk {size : Nat} {chunk rest : Text} (isChunk : IsChunk size chunk)
    (last : Complete size chunk ∨ rest = []) :
    fgets size true (chunk ++ rest) = some (some chunk, rest) := by
  obtain ⟨nonempty, inner, fits⟩ := isChunk
  by_cases ends : newline ∈ chunk
  · have split := eq_concat_newline inner ends
    have short : chunk.dropLast.length < size - 1 := by
      have length := congrArg List.length split
      rw [List.length_append, List.length_singleton] at length
      omega
    have read := fgets_of_fits true rest inner short
    rw [← List.singleton_append, ← List.append_assoc, ← split] at read
    exact read
  · by_cases full : size - 1 ≤ chunk.length
    · have positive := List.length_pos_of_ne_nil nonempty
      have read := fgets_of_overlong true rest ends (by omega) full
      have all : chunk.length ≤ size - 1 := by omega
      rwa [List.take_of_length_le all, List.drop_of_length_le all, List.nil_append] at read
    · rcases last with complete | rfl
      · exact absurd complete (not_or.mpr ⟨ends, full⟩)
      · rw [List.append_nil]
        exact fgets_of_last ends nonempty (by omega)

/-- A read that meets neither a newline nor the end of the buffer takes all there is. -/
theorem fgetsTake_all {size : Nat} {stream : Text} (absent : newline ∉ fgetsTake size stream)
    (short : (fgetsTake size stream).length < size - 1) : fgetsTake size stream = stream := by
  let window := stream.take (size - 1)
  have split := List.takeWhile_append_dropWhile (p := (· != newline)) (l := window)
  have whole : fgetsTake size stream = window := by
    cases behind : window.dropWhile (· != newline) with
    | nil =>
        rw [behind, List.append_nil] at split
        rw [fgetsTake, split]
        exact List.take_of_length_le (Nat.le_succ _)
    | cons c rest =>
        have stops := List.head?_dropWhile_not (· != newline) window
        rw [behind] at stops split
        have taken : fgetsTake size stream = window.takeWhile (· != newline) ++ [c] := by
          have next : (window.takeWhile (· != newline) ++ c :: rest).take
              ((window.takeWhile (· != newline)).length + 1) =
                window.takeWhile (· != newline) ++ [c] := by
            rw [List.take_length_add_append]
            rfl
          rwa [split] at next
        rw [taken] at absent
        simp at stops
        simp [stops] at absent
  rw [whole] at short ⊢
  rw [List.length_take] at short
  exact List.take_of_length_le (by omega)

/-- What one read returns is a chunk, and complete unless it is the last one. -/
theorem isChunk_of_fgets {size : Nat} (room : 1 < size) {stream chunk rest : Text}
    (read : fgets size true stream = some (some chunk, rest)) :
    IsChunk size chunk ∧ (Complete size chunk ∨ rest = []) := by
  obtain ⟨nonempty, split⟩ := fgets_consumes read
  obtain ⟨-, taken, -, -⟩ := fgets_eq_some_iff.mp read
  refine ⟨⟨nonempty, newline_notMem_dropLast read List.prefix_rfl,
    length_fgets_lt (Nat.lt_of_succ_lt room) read⟩, ?_⟩
  by_cases complete : Complete size chunk
  · exact .inl complete
  · obtain ⟨absent, short⟩ := not_or.mp complete
    rw [← taken] at absent short
    have all := fgetsTake_all absent (Nat.lt_of_not_le short)
    rw [taken, split] at all
    exact .inr (List.self_eq_append_right.mp all)

/-! ## Lists of chunks -/

/-- Chunks of which only the last may be cut short. -/
structure Cut (size : Nat) (pieces : List Text) : Prop where
  isChunk : ∀ piece ∈ pieces, IsChunk size piece
  complete : ∀ piece ∈ pieces.dropLast, Complete size piece

theorem Cut.take {size : Nat} {pieces : List Text} (cut : Cut size pieces) (n : Nat) :
    Cut size (pieces.take n) where
  isChunk piece member := cut.isChunk piece (List.mem_of_mem_take member)
  complete piece member := by
    rw [List.dropLast_take_eq_take_dropLast] at member
    exact cut.complete piece (List.mem_of_mem_take member)

/-- What stands behind some pieces can be cut off, and another last one put there. -/
theorem Cut.concat {size : Nat} {front behind : List Text} {last : Text}
    (cut : Cut size (front ++ behind)) (left : behind ≠ []) (isChunk : IsChunk size last) :
    Cut size (front ++ [last]) where
  isChunk piece member := by
    rcases List.mem_append.mp member with before | here
    · exact cut.isChunk piece (List.mem_append_left _ before)
    · rwa [List.mem_singleton.mp here]
  complete piece member := by
    rw [List.dropLast_concat] at member
    apply cut.complete
    rw [List.dropLast_append_of_ne_nil left]
    exact List.mem_append_left _ member

theorem cut_cons {size : Nat} {piece : Text} {rest : List Text} :
    Cut size (piece :: rest) ↔
      IsChunk size piece ∧ (Complete size piece ∨ rest = []) ∧ Cut size rest := by
  cases rest with
  | nil => exact ⟨fun cut => ⟨cut.isChunk piece (by simp), .inr rfl, by simp, by simp⟩,
      fun ⟨isChunk, _, _⟩ => ⟨by simpa using isChunk, by simp⟩⟩
  | cons next rest =>
      constructor
      · rintro ⟨isChunk, complete⟩
        rw [List.dropLast_cons_of_ne_nil (by simp)] at complete
        exact ⟨isChunk piece List.mem_cons_self, .inl (complete piece List.mem_cons_self),
          fun other member => isChunk other (List.mem_cons_of_mem _ member),
          fun other member => complete other (List.mem_cons_of_mem _ member)⟩
      · rintro ⟨isChunk, complete | nothing, cut⟩
        · refine ⟨List.forall_mem_cons.mpr ⟨isChunk, cut.isChunk⟩, ?_⟩
          rw [List.dropLast_cons_of_ne_nil (by simp)]
          exact List.forall_mem_cons.mpr ⟨complete, cut.complete⟩
        · contradiction

theorem cut_chunks {size : Nat} (room : 1 < size) (stream : Text) :
    Cut size (chunks size stream) := by
  induction stream using chunks.induct size with
  | case1 stream chunk rest read ih =>
      obtain ⟨isChunk, last⟩ := isChunk_of_fgets room read
      rw [chunks_of_read read, cut_cons]
      refine ⟨isChunk, last.imp_right ?_, ih⟩
      rintro rfl
      exact chunks_nil size
  | case2 stream blocked =>
      rw [chunks, blocked]
      exact ⟨by simp, by simp⟩
  | case3 stream rest ended =>
      rw [chunks, ended]
      exact ⟨by simp, by simp⟩

/-- The chunks are the stream, cut up. -/
theorem flatten_chunks {size : Nat} (room : 1 < size) (stream : Text) :
    (chunks size stream).flatten = stream := by
  induction stream using chunks.induct size with
  | case1 stream chunk rest read ih =>
      rw [chunks_of_read read, List.flatten_cons, ih]
      exact (fgets_consumes read).2.symm
  | case2 stream blocked => simp [fgets] at blocked
  | case3 stream rest ended =>
      rw [(fgets_ended room ended).2, chunks_nil]
      rfl

/-- Reading the chunks again gives them back. -/
theorem chunks_flatten {size : Nat} {pieces : List Text} (cut : Cut size pieces) :
    chunks size pieces.flatten = pieces := by
  induction pieces with
  | nil => exact chunks_nil size
  | cons piece rest ih =>
      obtain ⟨isChunk, last, cut⟩ := cut_cons.mp cut
      have behind : Complete size piece ∨ rest.flatten = [] :=
        last.imp_right fun nothing => by rw [nothing, List.flatten_nil]
      rw [List.flatten_cons, chunks_of_read (fgets_chunk isChunk behind), ih cut]

/-- Cutting pieces short shows, unless it is the last that is cut. -/
theorem cut_map_iff {size : Nat} {pieces : List Text} (cut : Cut size pieces) {short : Text → Text}
    (isPrefix : ∀ piece, short piece <+: piece) :
    Cut size (pieces.map short) ↔
      (∀ piece ∈ pieces.dropLast, short piece = piece) ∧ ∀ piece ∈ pieces, short piece ≠ [] := by
  constructor
  · rintro ⟨isChunk, complete⟩
    rw [List.forall_mem_map] at isChunk
    rw [← List.map_dropLast, List.forall_mem_map] at complete
    refine ⟨fun piece member => ?_, fun piece member => (isChunk piece member).nonempty⟩
    by_contra cutShort
    exact (cut.isChunk piece (List.dropLast_subset _ member)).not_complete (isPrefix piece)
      cutShort (complete piece member)
  · rintro ⟨whole, nonempty⟩
    refine ⟨List.forall_mem_map.mpr fun piece member => ?_, ?_⟩
    · exact (cut.isChunk piece member).beginning (nonempty piece member) (isPrefix piece)
    · rw [← List.map_dropLast, List.forall_mem_map]
      intro piece member
      rw [whole piece member]
      exact cut.complete piece member

end CollabMarkdown.CString
