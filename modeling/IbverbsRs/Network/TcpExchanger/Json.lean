import IbverbsRs.Network.TcpExchanger.Stream

namespace IbverbsRs.Network

namespace Json

/-- The decimal digits of a number, with more fuel than the number is large. -/
def number : Nat → Nat → List UInt8
  | 0, _ => []
  | fuel + 1, n => (if n < 10 then [] else number fuel (n / 10)) ++ [UInt8.ofNat (48 + n % 10)]

def value (digits : List UInt8) : Nat := digits.foldl (fun n b => n * 10 + (b.toNat - 48)) 0

def isDigit (b : UInt8) : Bool := decide (48 ≤ b.toNat ∧ b.toNat ≤ 57)

theorem isDigit_number (fuel n : Nat) : ∀ b ∈ number fuel n, isDigit b = true := by
  induction fuel generalizing n with
  | zero =>
    intro b hb
    cases hb
  | succ fuel ih =>
    intro b hb
    rcases List.mem_append.mp hb with hb | hb
    · split_ifs at hb
      · cases hb
      · exact ih _ b hb
    · rw [List.mem_singleton.mp hb, isDigit, decide_eq_true_eq, UInt8.toNat_ofNat']
      omega

theorem value_number {fuel n : Nat} (h : n < fuel) : value (number fuel n) = n := by
  induction fuel generalizing n with
  | zero => omega
  | succ fuel ih =>
    have hdigit : ((UInt8.ofNat (48 + n % 10)).toNat - 48) = n % 10 := by
      rw [UInt8.toNat_ofNat']
      omega
    rw [number, value, List.foldl_append, List.foldl_cons, List.foldl_nil, hdigit]
    split_ifs with hn
    · simp only [List.foldl_nil]
      omega
    · have hrest : value (number fuel (n / 10)) = n / 10 := ih (by omega)
      rw [value] at hrest
      rw [hrest]
      omega

/-- `{"rank":` and `,"data":` -/
def head : List UInt8 := [123, 34, 114, 97, 110, 107, 34, 58]
def middle : List UInt8 := [44, 34, 100, 97, 116, 97, 34, 58]

end Json

open Json

/-- The JSON of messages whose data is written by `encode` and read by `decode`. -/
def jsonSerde {T : Type} (encode : T → List UInt8) (decode : List UInt8 → Option T) : Serde T where
  to_vec msg := .ok (head ++ (number (msg.rank + 1) msg.rank ++ (middle ++ (encode msg.data ++ [125]))))
  from_slice bytes :=
    let rest := bytes.drop head.length
    match decode ((rest.dropWhile isDigit).drop middle.length).dropLast with
    | none => .error "expected value"
    | some data => .ok ⟨value (rest.takeWhile isDigit), data⟩

/-- A message is decoded from its encoding if its data is. -/
theorem jsonSerde_decodes {T : Type} {encode : T → List UInt8} {decode : List UInt8 → Option T}
    (msg : ExchangeMessage T) (h : decode (encode msg.data) = some msg.data) :
    ∃ encoded, (jsonSerde encode decode).to_vec msg = .ok encoded ∧
      (jsonSerde encode decode).from_slice encoded = .ok msg := by
  refine ⟨_, rfl, ?_⟩
  have hdigits := isDigit_number (msg.rank + 1) msg.rank
  have htake : (number (msg.rank + 1) msg.rank ++ (middle ++ (encode msg.data ++ [125]))).takeWhile
      isDigit = number (msg.rank + 1) msg.rank := by
    rw [List.takeWhile_append_of_pos hdigits]
    exact List.append_nil _
  have hdrop : (number (msg.rank + 1) msg.rank ++ (middle ++ (encode msg.data ++ [125]))).dropWhile
      isDigit = middle ++ (encode msg.data ++ [125]) := by
    rw [List.dropWhile_append_of_pos hdigits]
    rfl
  simp only [jsonSerde, List.drop_left, htake, hdrop, List.dropLast_concat, h,
    value_number (Nat.lt_succ_self msg.rank)]

theorem jsonSerde_inverts {T : Type} {encode : T → List UInt8} {decode : List UInt8 → Option T}
    (h : ∀ data, decode (encode data) = some data) : (jsonSerde encode decode).Inverts :=
  fun msg => jsonSerde_decodes msg (h msg.data)

/-- A flag in JSON. -/
def boolSerde : Serde Bool :=
  jsonSerde (fun data => if data then [116, 114, 117, 101] else [102, 97, 108, 115, 101])
    (fun bytes => if bytes = [116, 114, 117, 101] then some true
      else if bytes = [102, 97, 108, 115, 101] then some false else none)

theorem boolSerde_inverts : boolSerde.Inverts := by
  apply jsonSerde_inverts
  intro data
  cases data <;> rfl

end IbverbsRs.Network
