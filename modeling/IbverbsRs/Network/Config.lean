import Mathlib.Data.List.Sort

namespace IbverbsRs.Network

structure NodeConfig where
  hostname : String
  port : UInt16
  ibdev : String
  rankid : Nat
  comment : String
  deriving DecidableEq, Repr

inductive NetworkConfigError
  | EmptyNetwork
  | FirstRankNotZero
  | NonSequentialRanks (gap_rank : Nat)
  | DuplicatedRank (dup_rank : Nat)
  deriving DecidableEq, Repr

/-- The nodes of a validated network: there is one, and each stands at its rank. -/
structure NetworkConfig where
  hosts : List NodeConfig
  nonempty : hosts ≠ []
  ranked : ∀ (i : Nat) (n : NodeConfig), hosts[i]? = some n → n.rankid = i

structure RawNetworkConfig where
  hosts : List NodeConfig

namespace RawNetworkConfig

/-- The loop of `build` from index `i` on, behind a node of rank `previous`. -/
def checkRanks : Nat → Nat → List NodeConfig → Option NetworkConfigError
  | _, _, [] => none
  | i, previous, node_config :: rest =>
    if node_config.rankid = previous then some (.DuplicatedRank node_config.rankid)
    else if node_config.rankid ≠ i then some (.NonSequentialRanks i)
    else checkRanks (i + 1) node_config.rankid rest

/-- The checks of `build` on the sorted nodes. -/
def validate : List NodeConfig → Option NetworkConfigError
  | [] => some .EmptyNetwork
  | first :: rest =>
    if first.rankid ≠ 0 then some .FirstRankNotZero else checkRanks 1 first.rankid rest

theorem checkRanks_none {i previous : Nat} {hosts : List NodeConfig}
    (h : checkRanks i previous hosts = none) (k : Nat) (n : NodeConfig)
    (hn : hosts[k]? = some n) : n.rankid = i + k := by
  induction hosts generalizing i previous k with
  | nil => simp at hn
  | cons node_config rest ih =>
    simp only [checkRanks] at h
    split_ifs at h with hdup hseq
    cases k with
    | zero =>
      obtain rfl := Option.some.inj hn
      exact not_not.mp hseq
    | succ k =>
      have hrest := ih h k hn
      omega

theorem validate_none {hosts : List NodeConfig} (h : validate hosts = none) :
    hosts ≠ [] ∧ ∀ (i : Nat) (n : NodeConfig), hosts[i]? = some n → n.rankid = i := by
  cases hosts with
  | nil => cases h
  | cons first rest =>
    simp only [validate] at h
    split_ifs at h with hfirst
    refine ⟨List.cons_ne_nil _ _, ?_⟩
    intro i n hn
    cases i with
    | zero =>
      obtain rfl := Option.some.inj hn
      exact not_not.mp hfirst
    | succ i =>
      have hrest := checkRanks_none h i n hn
      omega

def build (self : RawNetworkConfig) : Except NetworkConfigError NetworkConfig :=
  let hosts := self.hosts.insertionSort (fun a b => a.rankid ≤ b.rankid)
  match h : validate hosts with
  | some error => .error error
  | none => .ok ⟨hosts, (validate_none h).1, (validate_none h).2⟩

end RawNetworkConfig

namespace NetworkConfig

def get (self : NetworkConfig) (rank : Nat) : Option NodeConfig := self.hosts[rank]?

def world_size (self : NetworkConfig) : Nat := self.hosts.length

theorem get_of_lt (self : NetworkConfig) {rank : Nat} (h : rank < self.world_size) :
    ∃ n, self.get rank = some n ∧ n.rankid = rank :=
  ⟨self.hosts[rank], List.getElem?_eq_getElem h, self.ranked rank _ (List.getElem?_eq_getElem h)⟩

end NetworkConfig

end IbverbsRs.Network
