import IbverbsRs.Framework.Framing

namespace IbverbsRs.Framework

/-- What one read of a stream delivers at most; only the end of a stream delivers nothing. -/
abbrev Chunk := {bytes : List UInt8 // bytes ≠ []}

namespace ChunkedStream

/-- Everything that a stream still delivers. -/
def bytes (chunks : List Chunk) : List UInt8 := chunks.flatMap Subtype.val

/-- Reads chunk by chunk until the buffer of `n` bytes is full. -/
def read_exact : Nat → List Chunk → Except String (List UInt8) × List Chunk
  | 0, chunks => (.ok [], chunks)
  | _ + 1, [] => (.error "early eof", [])
  | n + 1, chunk :: chunks =>
    if h : n + 1 < chunk.val.length then
      (.ok (chunk.val.take (n + 1)), ⟨chunk.val.drop (n + 1), by simpa using h⟩ :: chunks)
    else
      let (rest, chunks) := read_exact (n + 1 - chunk.val.length) chunks
      (rest.map (chunk.val ++ ·), chunks)
termination_by structural _ chunks => chunks

theorem bytes_cons (chunk : Chunk) (chunks : List Chunk) :
    bytes (chunk :: chunks) = chunk.val ++ bytes chunks := rfl

/-- However the stream is cut, its next `n` bytes are read, or its end is met. -/
theorem read_exact_spec (n : Nat) (chunks : List Chunk) :
    (Framework.read_exact n (bytes chunks) = none ∧
      read_exact n chunks = (.error "early eof", [])) ∨
    ∃ buf rest, Framework.read_exact n (bytes chunks) = some (buf, bytes rest) ∧
      read_exact n chunks = (.ok buf, rest) := by
  induction chunks generalizing n with
  | nil =>
    cases n with
    | zero => exact Or.inr ⟨[], [], rfl, rfl⟩
    | succ n => exact Or.inl ⟨rfl, rfl⟩
  | cons chunk chunks ih =>
    cases n with
    | zero => exact Or.inr ⟨[], chunk :: chunks, rfl, rfl⟩
    | succ n =>
      by_cases h : n + 1 < chunk.val.length
      · refine Or.inr ⟨_, _, ?_, by rw [read_exact, dif_pos h]⟩
        have hlen : ¬ (chunk.val ++ bytes chunks).length < n + 1 := by
          rw [List.length_append]
          omega
        rw [bytes_cons, bytes_cons, Framework.read_exact, if_neg hlen,
          List.take_append_of_le_length (Nat.le_of_lt h),
          List.drop_append_of_le_length (Nat.le_of_lt h)]
      · -- the chunk is used up, and the loop goes on with the bytes that are still missing
        have htake : (chunk.val ++ bytes chunks).take (n + 1) =
            chunk.val ++ (bytes chunks).take (n + 1 - chunk.val.length) := by
          rw [List.take_append, List.take_of_length_le (Nat.le_of_not_lt h)]
        have hdrop : (chunk.val ++ bytes chunks).drop (n + 1) =
            (bytes chunks).drop (n + 1 - chunk.val.length) := by
          rw [List.drop_append, List.drop_of_length_le (Nat.le_of_not_lt h), List.nil_append]
        rw [read_exact, dif_neg h, bytes_cons, Framework.read_exact, List.length_append, htake, hdrop]
        rcases ih (n + 1 - chunk.val.length) with ⟨hbytes, hread⟩ | ⟨buf, rest, hbytes, hread⟩
        · left
          rw [Framework.read_exact] at hbytes
          split_ifs at hbytes with hshort
          rw [if_pos (by omega), hread]
          exact ⟨rfl, rfl⟩
        · right
          rw [Framework.read_exact] at hbytes
          split_ifs at hbytes with hshort
          obtain ⟨rfl, hrest⟩ := Prod.mk.inj (Option.some.inj hbytes)
          rw [if_neg (by omega), hread, hrest]
          exact ⟨_, rest, rfl, rfl⟩

end ChunkedStream

end IbverbsRs.Framework
