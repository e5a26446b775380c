import IbverbsRs.Framework.ChunkedStream
import IbverbsRs.Network.TcpExchanger.Json

namespace IbverbsRs.Network

open Framework ChunkedStream

/-- A stream to write to, of which only this is known: `write_all` appends the bytes it is given, or
fails. -/
structure AsyncWrite (σ : Type) where
  write_all : σ → List UInt8 → Except String Unit × σ
  written : σ → List UInt8
  appends : ∀ s bytes, (write_all s bytes).1 = .ok () →
    written (write_all s bytes).2 = written s ++ bytes

/-- Decoding inverts encoding where there is an encoding. -/
def Serde.Recovers {T : Type} (serde : Serde T) : Prop :=
  ∀ msg encoded, serde.to_vec msg = .ok encoded → serde.from_slice encoded = .ok msg

theorem Serde.Inverts.recovers {T : Type} {serde : Serde T} (h : serde.Inverts) :
    serde.Recovers := by
  intro msg encoded henc
  obtain ⟨encoded', henc', hdec⟩ := h msg
  obtain rfl := Except.ok.inj (henc.symm.trans henc')
  exact hdec

namespace ChunkedExchange

variable {T σ : Type}

def write_stream (serde : Serde T) (stream : AsyncWrite σ) (rank : Nat) (data : T) (s : σ) :
    Except ExchangeError Unit × σ :=
  match serde.to_vec ⟨rank, data⟩ with
  | .error e => (.error (.SerdeError e), s)
  | .ok encoded =>
    if encoded.length ≤ 4294967295 then
      match stream.write_all s (BigEndian.toBytes 4 encoded.length) with
      | (.error e, s) => (.error (.IoError e), s)
      | (.ok _, s) =>
        match stream.write_all s encoded with
        | (.error e, s) => (.error (.IoError e), s)
        | (.ok _, s) => (.ok (), s)
    else (.error (.MessageTooLarge encoded.length), s)

def read_stream (serde : Serde T) (chunks : List Chunk) :
    Except ExchangeError (ExchangeMessage T) × List Chunk :=
  match read_exact 4 chunks with
  | (.error e, chunks) => (.error (.IoError e), chunks)
  | (.ok size_buf, chunks) =>
    match read_exact (BigEndian.ofBytes size_buf) chunks with
    | (.error e, chunks) => (.error (.IoError e), chunks)
    | (.ok msg_buf, chunks) =>
      match serde.from_slice msg_buf with
      | .error e => (.error (.SerdeError e), chunks)
      | .ok msg => (.ok msg, chunks)

/-- One `read_stream` after the other. -/
def read_streams (serde : Serde T) : Nat → List Chunk →
    List (Except ExchangeError (ExchangeMessage T)) × List Chunk
  | 0, chunks => ([], chunks)
  | n + 1, chunks =>
    let (msg, chunks) := read_stream serde chunks
    let (msgs, chunks) := read_streams serde n chunks
    (msg :: msgs, chunks)

/-- What is written is what the message is on the wire. -/
theorem write_stream_ok {serde : Serde T} {stream : AsyncWrite σ} {rank : Nat} {data : T} {s : σ}
    (h : (write_stream serde stream rank data s).1 = .ok ()) :
    ∃ message, Exchanger.write_stream serde rank data = .ok message ∧
      stream.written (write_stream serde stream rank data s).2 = stream.written s ++ message := by
  unfold write_stream Exchanger.write_stream at *
  cases henc : serde.to_vec ⟨rank, data⟩ with
  | error e =>
    rw [henc] at h
    cases h
  | ok encoded =>
    simp only [henc] at h ⊢
    split_ifs at h ⊢ with hfits
    refine ⟨_, rfl, ?_⟩
    have hsize := stream.appends s (BigEndian.toBytes 4 encoded.length)
    rcases hfirst : stream.write_all s (BigEndian.toBytes 4 encoded.length) with ⟨_ | _, s₁⟩
    · rw [hfirst] at h
      cases h
    have hpayload := stream.appends s₁ encoded
    simp only [hfirst] at h hsize ⊢
    rcases hsecond : stream.write_all s₁ encoded with ⟨_ | _, s₂⟩
    · rw [hsecond] at h
      cases h
    simp only [hsecond] at hpayload ⊢
    rw [hpayload trivial, hsize trivial, List.append_assoc]
    rfl

/-- Only the stream makes the writer fail on a message that is short enough. -/
theorem write_stream_succeeds {serde : Serde T} {stream : AsyncWrite σ} {rank : Nat} {data : T}
    {encoded : List UInt8} (henc : serde.to_vec ⟨rank, data⟩ = .ok encoded)
    (hfits : encoded.length ≤ 4294967295)
    (hstream : ∀ s bytes, (stream.write_all s bytes).1 = .ok ()) (s : σ) :
    (write_stream serde stream rank data s).1 = .ok () := by
  simp only [write_stream, henc, if_pos hfits]
  have hsize := hstream s (BigEndian.toBytes 4 encoded.length)
  rcases hfirst : stream.write_all s (BigEndian.toBytes 4 encoded.length) with ⟨_ | _, s₁⟩
  · rw [hfirst] at hsize
    cases hsize
  have hpayload := hstream s₁ encoded
  dsimp only
  rcases hsecond : stream.write_all s₁ encoded with ⟨_ | _, s₂⟩
  · rw [hsecond] at hpayload
    cases hpayload
  rfl

theorem write_stream_too_large {serde : Serde T} (stream : AsyncWrite σ) {rank : Nat} {data : T}
    {encoded : List UInt8} (henc : serde.to_vec ⟨rank, data⟩ = .ok encoded)
    (hlarge : 4294967295 < encoded.length) (s : σ) :
    write_stream serde stream rank data s = (.error (.MessageTooLarge encoded.length), s) := by
  simp only [write_stream, henc, if_neg (Nat.not_le.mpr hlarge)]

/-- Reading a stream in chunks is reading its bytes. -/
theorem read_stream_spec (serde : Serde T) (chunks : List Chunk) :
    (Exchanger.read_stream serde (bytes chunks) = none ∧
      read_stream serde chunks = (.error (.IoError "early eof"), [])) ∨
    ∃ msg rest, Exchanger.read_stream serde (bytes chunks) = some (msg, bytes rest) ∧
      read_stream serde chunks = (msg, rest) := by
  unfold Exchanger.read_stream readFrame
  rcases read_exact_spec 4 chunks with ⟨hbytes, hread⟩ | ⟨size_buf, chunks₁, hbytes, hread⟩
  · left
    simp only [hbytes, read_stream, hread, Option.bind_none, Option.map_none, true_and]
  rcases read_exact_spec (BigEndian.ofBytes size_buf) chunks₁ with
    ⟨hbytes₁, hread₁⟩ | ⟨msg_buf, chunks₂, hbytes₁, hread₁⟩
  · left
    simp only [hbytes, hbytes₁, read_stream, hread, hread₁, Option.bind_some, Option.map_none,
      true_and]
  · right
    simp only [hbytes, hbytes₁, read_stream, hread, hread₁, Option.bind_some, Option.map_some]
    cases serde.from_slice msg_buf with
    | error e => exact ⟨_, chunks₂, rfl, rfl⟩
    | ok msg => exact ⟨_, chunks₂, rfl, rfl⟩

section RoundTrip

variable {serde : Serde T} {rank : Nat} {data : T} {message : List UInt8}

/-- A message on the wire is the frame of its encoding. -/
theorem frame_of_write_stream (h : Exchanger.write_stream serde rank data = .ok message) :
    ∃ encoded, serde.to_vec ⟨rank, data⟩ = .ok encoded ∧ encoded.length < 256 ^ 4 ∧
      message = frame 4 encoded := by
  unfold Exchanger.write_stream at h
  cases henc : serde.to_vec ⟨rank, data⟩ with
  | error e =>
    rw [henc] at h
    cases h
  | ok encoded =>
    simp only [henc] at h
    split_ifs at h with hfits
    exact ⟨encoded, rfl, Nat.lt_succ_of_le hfits, (Except.ok.inj h).symm⟩

theorem read_stream_message (hserde : serde.Recovers)
    (h : Exchanger.write_stream serde rank data = .ok message) {following : List UInt8}
    {chunks : List Chunk} (hchunks : bytes chunks = message ++ following) :
    ∃ rest, read_stream serde chunks = (.ok ⟨rank, data⟩, rest) ∧ bytes rest = following := by
  obtain ⟨encoded, henc, hsize, rfl⟩ := frame_of_write_stream h
  have hread : Exchanger.read_stream serde (bytes chunks) = some (.ok ⟨rank, data⟩, following) := by
    rw [hchunks, Exchanger.read_stream, readFrame_frame hsize, Option.map_some]
    simp only [hserde _ _ henc]
  rcases read_stream_spec serde chunks with ⟨hnone, _⟩ | ⟨msg, rest, hsome, hchunked⟩
  · cases hnone.symm.trans hread
  · obtain ⟨rfl, hrest⟩ := Prod.mk.inj (Option.some.inj (hsome.symm.trans hread))
    exact ⟨rest, hchunked, hrest⟩

theorem read_stream_part (h : Exchanger.write_stream serde rank data = .ok message)
    {chunks : List Chunk} (hpart : bytes chunks <+: message) (hstrict : bytes chunks ≠ message) :
    read_stream serde chunks = (.error (.IoError "early eof"), []) := by
  obtain ⟨encoded, _, hsize, rfl⟩ := frame_of_write_stream h
  obtain ⟨missing, hmissing⟩ := hpart
  have hne : missing ≠ [] := by
    rintro rfl
    exact hstrict (by simpa using hmissing)
  have hwaits : Exchanger.read_stream serde (bytes chunks) = none := by
    rw [Exchanger.read_stream, readFrame_part hsize hmissing hne]
    rfl
  rcases read_stream_spec serde chunks with ⟨_, hchunked⟩ | ⟨msg, rest, hsome, _⟩
  · exact hchunked
  · cases hsome.symm.trans hwaits

end RoundTrip

/-- Messages written one after the other are read back in order. -/
theorem read_streams_messages {serde : Serde T} (hserde : serde.Recovers)
    (messages : List (ExchangeMessage T × List UInt8))
    (hwritten : ∀ m ∈ messages, Exchanger.write_stream serde m.1.rank m.1.data = .ok m.2)
    {following : List UInt8} {chunks : List Chunk}
    (hchunks : bytes chunks = messages.flatMap Prod.snd ++ following) :
    ∃ rest, read_streams serde messages.length chunks =
      (messages.map (fun m => .ok m.1), rest) ∧ bytes rest = following := by
  induction messages generalizing chunks with
  | nil => exact ⟨chunks, rfl, hchunks⟩
  | cons m messages ih =>
    rw [List.flatMap_cons, List.append_assoc] at hchunks
    obtain ⟨chunks₁, hread, hchunks₁⟩ :=
      read_stream_message hserde (hwritten m List.mem_cons_self) hchunks
    obtain ⟨rest, hreads, hrest⟩ :=
      ih (fun m' hm' => hwritten m' (List.mem_cons_of_mem m hm')) hchunks₁
    refine ⟨rest, ?_, hrest⟩
    rw [List.length_cons, read_streams, hread]
    dsimp only
    rw [hreads]
    rfl

/-- A message of at most `u32::MAX` bytes is read back from any stream that goes on behind it, and
from none that ends within it; a longer one is not written at all. -/
theorem stream_round_trip {serde : Serde T} (hserde : serde.Recovers) (stream : AsyncWrite σ)
    (rank : Nat) (data : T) :
    (∀ encoded, serde.to_vec ⟨rank, data⟩ = .ok encoded → encoded.length ≤ 4294967295 →
      ∃ message, Exchanger.write_stream serde rank data = .ok message ∧
        ((∀ s bytes, (stream.write_all s bytes).1 = .ok ()) →
          ∀ s, (write_stream serde stream rank data s).1 = .ok ()) ∧
        (∀ s, (write_stream serde stream rank data s).1 = .ok () →
          stream.written (write_stream serde stream rank data s).2 =
            stream.written s ++ message) ∧
        (∀ following chunks, bytes chunks = message ++ following →
          ∃ rest, read_stream serde chunks = (.ok ⟨rank, data⟩, rest) ∧ bytes rest = following) ∧
        ∀ chunks, bytes chunks <+: message → bytes chunks ≠ message →
          ∃ e rest, read_stream serde chunks = (.error e, rest)) ∧
    (∀ encoded, serde.to_vec ⟨rank, data⟩ = .ok encoded → 4294967295 < encoded.length → ∀ s,
      write_stream serde stream rank data s = (.error (.MessageTooLarge encoded.length), s)) ∧
    ∀ (messages : List (ExchangeMessage T × List UInt8)) (following : List UInt8)
      (chunks : List Chunk),
      (∀ m ∈ messages, Exchanger.write_stream serde m.1.rank m.1.data = .ok m.2) →
      bytes chunks = messages.flatMap Prod.snd ++ following →
      ∃ rest, read_streams serde messages.length chunks =
        (messages.map (fun m => .ok m.1), rest) ∧ bytes rest = following := by
  refine ⟨?_, fun encoded henc hlarge => write_stream_too_large stream henc hlarge,
    fun messages _ _ hwritten hchunks => read_streams_messages hserde messages hwritten hchunks⟩
  intro encoded henc hfits
  have hmessage : Exchanger.write_stream serde rank data = .ok (frame 4 encoded) := by
    simp only [Exchanger.write_stream, henc, if_pos hfits]
  refine ⟨_, hmessage, write_stream_succeeds henc hfits, ?_,
    fun _ _ => read_stream_message hserde hmessage, ?_⟩
  · intro s hs
    obtain ⟨message, hmessage', hwritten⟩ := write_stream_ok hs
    rw [hwritten, Except.ok.inj (hmessage'.symm.trans hmessage)]
  · intro chunks hpart hstrict
    exact ⟨_, _, read_stream_part hmessage hpart hstrict⟩

/-- A vector to write to. -/
def growing : AsyncWrite (List UInt8) := ⟨fun s bytes => (.ok (), s ++ bytes), id, fun _ _ _ => rfl⟩

theorem stream_round_trip_flag : ∃ message, Exchanger.write_stream boolSerde 3 true = .ok message ∧
    ∀ following chunks, bytes chunks = message ++ following →
      ∃ rest, read_stream boolSerde chunks = (.ok ⟨3, true⟩, rest) ∧ bytes rest = following := by
  obtain ⟨message, hmessage, _, _, hread, _⟩ :=
    (stream_round_trip boolSerde_inverts.recovers growing 3 true).1 _ rfl (by decide)
  exact ⟨message, hmessage, hread⟩

end ChunkedExchange

end IbverbsRs.Network
