import IbverbsRs.Framework.Framing
import Mathlib.Data.List.AList

namespace IbverbsRs.Network

open Framework

inductive ExchangeError
  | InvalidRank (rank : Nat)
  | SerdeError (error : String)
  | IoError (error : String)
  | MessageTooLarge (size : Nat)
  | Timeout
  deriving DecidableEq, Repr

structure ExchangeMessage (T : Type) where
  rank : Nat
  data : T

/-- The serializer of messages. -/
structure Serde (T : Type) where
  to_vec : ExchangeMessage T → Except String (List UInt8)
  from_slice : List UInt8 → Except String (ExchangeMessage T)

/-- Decoding inverts encoding. -/
def Serde.Inverts {T : Type} (serde : Serde T) : Prop :=
  ∀ msg, ∃ encoded, serde.to_vec msg = .ok encoded ∧ serde.from_slice encoded = .ok msg

/-- The map from ranks to the data received from them. -/
abbrev Received (T : Type) := AList (fun _ : Nat => T)

namespace Exchanger

variable {T : Type}

def write_stream (serde : Serde T) (rank : Nat) (data : T) : Except ExchangeError (List UInt8) :=
  match serde.to_vec ⟨rank, data⟩ with
  | .error e => .error (.SerdeError e)
  | .ok encoded =>
    if encoded.length ≤ 4294967295 then .ok (frame 4 encoded)
    else .error (.MessageTooLarge encoded.length)

/-- What the bytes that have arrived so far give: a message or an error and the bytes behind
it, or `none` while the reader still waits. -/
def read_stream (serde : Serde T) (buf : List UInt8) :
    Option (Except ExchangeError (ExchangeMessage T) × List UInt8) :=
  (readFrame 4 buf).map (fun (msg_buf, buf) =>
    match serde.from_slice msg_buf with
    | .error e => (.error (.SerdeError e), buf)
    | .ok msg => (.ok msg, buf))

def insert_if_valid (incoming_data : ExchangeMessage T) (received : Received T)
    (start stop : Nat) : Bool × Received T :=
  if start ≤ incoming_data.rank ∧ incoming_data.rank < stop then
    (true, received.insert incoming_data.rank incoming_data.data)
  else (false, received)

/-- `remote_ranks.map(|rank| received.remove(&rank).expect(..)).collect()`, `none` when the
`expect` panics. -/
def collect : List Nat → Received T → Option (List T)
  | [], _ => some []
  | rank :: ranks, received =>
    match received.extract rank with
    | (none, _) => none
    | (some data, received) => (collect ranks received).map (fun rest => data :: rest)

theorem collect_eq_some_iff {ranks : List Nat} (hnodup : ranks.Nodup) {received : Received T}
    {vs : List T} :
    collect ranks received = some vs ↔ vs.map some = ranks.map received.lookup := by
  induction ranks generalizing received vs with
  | nil =>
    rw [collect, Option.some_inj, List.map_nil, List.map_eq_nil_iff]
    exact eq_comm
  | cons rank ranks ih =>
    obtain ⟨hrank, hnodup⟩ := List.nodup_cons.mp hnodup
    have hlookup : ranks.map (received.erase rank).lookup = ranks.map received.lookup := by
      apply List.map_congr_left
      intro other hother
      exact AList.lookup_erase_ne (fun heq => hrank (heq ▸ hother))
    rw [collect, AList.extract_eq_lookup_erase]
    cases hdata : received.lookup rank with
    | none =>
      constructor
      · intro h
        cases h
      · intro h
        cases vs with
        | nil => cases h
        | cons v vs =>
          rw [List.map_cons, List.map_cons, hdata] at h
          cases (List.cons.inj h).1
    | some data =>
      simp only [Option.map_eq_some_iff, ih hnodup, hlookup, List.map_cons, hdata]
      constructor
      · intro h
        obtain ⟨rest, hrest, rfl⟩ := h
        rw [List.map_cons, hrest]
      · intro h
        cases vs with
        | nil => cases h
        | cons v vs =>
          obtain ⟨hv, hvs⟩ := List.cons.inj h
          exact ⟨vs, hvs, by rw [Option.some.inj hv]⟩

theorem collect_eq {ranks : List Nat} (hnodup : ranks.Nodup) {received : Received T}
    {data : Nat → T} (h : ∀ rank ∈ ranks, received.lookup rank = some (data rank)) :
    collect ranks received = some (ranks.map data) := by
  rw [collect_eq_some_iff hnodup, List.map_map]
  apply List.map_congr_left
  intro rank hrank
  exact (h rank hrank).symm

/-- The message fits a frame and decoding inverts its encoding. -/
def Transmissible (serde : Serde T) (msg : ExchangeMessage T) : Prop :=
  ∃ encoded, serde.to_vec msg = .ok encoded ∧ serde.from_slice encoded = .ok msg ∧
    encoded.length ≤ 4294967295

/-- Such a message is read back when its last byte has arrived, and not before. -/
theorem Transmissible.write_stream {serde : Serde T} {rank : Nat} {data : T}
    (h : Transmissible serde ⟨rank, data⟩) :
    ∃ bytes, write_stream serde rank data = .ok bytes ∧
      read_stream serde bytes = some (.ok ⟨rank, data⟩, []) ∧
      ∀ arrived missing, arrived ++ missing = bytes → missing ≠ [] →
        read_stream serde arrived = none := by
  obtain ⟨encoded, henc, hdec, hfits⟩ := h
  have hsize : encoded.length < 256 ^ 4 := Nat.lt_succ_of_le hfits
  refine ⟨frame 4 encoded, ?_, ?_, ?_⟩
  · simp only [Exchanger.write_stream, henc, hfits, if_true]
  · have hread := readFrame_frame hsize []
    rw [List.append_nil] at hread
    simp only [read_stream, hread, Option.map_some, hdec]
  · intro arrived missing hpart hmissing
    rw [read_stream, readFrame_part hsize hpart hmissing]
    rfl

/-- A message of at most `u32::MAX` bytes is read back when its last byte has arrived, and not
before. -/
theorem write_stream_spec {serde : Serde T} (hinverts : serde.Inverts) {rank : Nat} {data : T}
    (hfits : ∀ encoded, serde.to_vec ⟨rank, data⟩ = .ok encoded → encoded.length ≤ 4294967295) :
    ∃ bytes, write_stream serde rank data = .ok bytes ∧
      read_stream serde bytes = some (.ok ⟨rank, data⟩, []) ∧
      ∀ arrived missing, arrived ++ missing = bytes → missing ≠ [] →
        read_stream serde arrived = none := by
  obtain ⟨encoded, henc, hdec⟩ := hinverts ⟨rank, data⟩
  exact Transmissible.write_stream ⟨encoded, henc, hdec, hfits encoded henc⟩

end Exchanger

end IbverbsRs.Network
