import IbverbsRs.Network.Config
import Mathlib.Data.List.Count
import Mathlib.Data.List.Range
import Mathlib.Order.Bounds.Basic

namespace IbverbsRs.Network

namespace RawNetworkConfig

def ranks (self : RawNetworkConfig) : List Nat := self.hosts.map NodeConfig.rankid

/-- A number that is missing below a rank, or a rank that occurs more than once. -/
def Irregular (ranks : List Nat) (m : Nat) : Prop :=
  (m ∉ ranks ∧ ∃ r ∈ ranks, m < r) ∨ 1 < ranks.count m

/-- What each error says about the ranks, in whatever order they are given. -/
def Describes (ranks : List Nat) : NetworkConfigError → Prop
  | .EmptyNetwork => ranks = []
  | .FirstRankNotZero => ranks ≠ [] ∧ 0 ∉ ranks
  | .DuplicatedRank m => 0 ∈ ranks ∧ IsLeast {k | Irregular ranks k} m ∧ 1 < ranks.count m
  | .NonSequentialRanks m => 0 ∈ ranks ∧ IsLeast {k | Irregular ranks k} m ∧ m ∉ ranks

section Ranks

variable {ranks ranks' : List Nat} {e e' : NetworkConfigError}

theorem irregular_perm (h : ranks.Perm ranks') (m : Nat) :
    Irregular ranks m ↔ Irregular ranks' m := by
  simp only [Irregular, h.mem_iff, h.count_eq]

theorem describes_perm (h : ranks.Perm ranks') : Describes ranks e ↔ Describes ranks' e := by
  have hnil : ranks = [] ↔ ranks' = [] := by
    rw [← List.length_eq_zero_iff, ← List.length_eq_zero_iff, h.length_eq]
  cases e <;> simp only [Describes, hnil, ne_eq, h.mem_iff, h.count_eq, irregular_perm h]

theorem not_both {m m' : Nat} (h : Describes ranks (.DuplicatedRank m))
    (h' : Describes ranks (.NonSequentialRanks m')) : False := by
  obtain rfl := h.2.1.unique h'.2.1
  exact h'.2.2 (List.count_pos_iff.mp (Nat.zero_lt_of_lt h.2.2))

/-- Different errors describe different lists. -/
theorem describes_unique (h : Describes ranks e) (h' : Describes ranks e') : e = e' := by
  cases e with
  | EmptyNetwork =>
    obtain rfl : ranks = [] := h
    cases e' with
    | EmptyNetwork => rfl
    | FirstRankNotZero => exact absurd rfl h'.1
    | DuplicatedRank m' | NonSequentialRanks m' => cases h'.1
  | FirstRankNotZero =>
    cases e' with
    | EmptyNetwork => exact absurd h' h.1
    | FirstRankNotZero => rfl
    | DuplicatedRank m' | NonSequentialRanks m' => exact absurd h'.1 h.2
  | DuplicatedRank m =>
    cases e' with
    | EmptyNetwork => exact absurd h' (List.ne_nil_of_mem h.1)
    | FirstRankNotZero => exact absurd h.1 h'.2
    | DuplicatedRank m' => rw [h.2.1.unique h'.2.1]
    | NonSequentialRanks m' => exact (not_both h h').elim
  | NonSequentialRanks m =>
    cases e' with
    | EmptyNetwork => exact absurd h' (List.ne_nil_of_mem h.1)
    | FirstRankNotZero => exact absurd h.1 h'.2
    | DuplicatedRank m' => exact (not_both h' h).elim
    | NonSequentialRanks m' => rw [h.2.1.unique h'.2.1]

/-- No error describes the ranks from 0 on, each once. -/
theorem not_describes_range {n : Nat} (hn : n ≠ 0) : ¬ Describes (List.range n) e := by
  have hregular (m : Nat) : ¬ Irregular (List.range n) m := by
    rintro (⟨hmissing, r, hr, hm⟩ | hmany)
    · rw [List.mem_range] at hmissing hr
      omega
    · have honce := List.nodup_iff_count_le_one.mp (List.nodup_range (n := n)) m
      omega
  intro h
  cases e with
  | EmptyNetwork => exact hn (List.range_eq_nil.mp h)
  | FirstRankNotZero => exact h.2 (List.mem_range.mpr (Nat.pos_of_ne_zero hn))
  | DuplicatedRank m | NonSequentialRanks m => exact hregular m h.2.1.1

/-- Behind the ranks below `i`, each once, nothing irregular lies below the next rank. -/
theorem irregular_ge {i k m : Nat} {rest : List Nat} (hrest : ∀ r ∈ rest, k ≤ r) (hk : k ≤ i)
    (h : Irregular (List.range i ++ rest) m) : k ≤ m := by
  by_contra hlt
  have hmem : m ∈ List.range i := List.mem_range.mpr (by omega)
  rcases h with ⟨hmissing, _⟩ | hmany
  · exact hmissing (List.mem_append_left rest hmem)
  · have hrange := List.nodup_iff_count_le_one.mp (List.nodup_range (n := i)) m
    have hnone : rest.count m = 0 := List.count_eq_zero.mpr (fun hm => hlt (hrest m hm))
    rw [List.count_append] at hmany
    omega

end Ranks

/-- The loop of `build` behind the ranks from 0 to `i`: the induction is on the rest of the sorted
nodes. -/
theorem checkRanks_describes {i : Nat} {rest : List NodeConfig} {e : NetworkConfigError}
    (hsorted : (rest.map NodeConfig.rankid).Pairwise (· ≤ ·))
    (hlow : ∀ r ∈ rest.map NodeConfig.rankid, i ≤ r) (h : checkRanks (i + 1) i rest = some e) :
    Describes (List.range (i + 1) ++ rest.map NodeConfig.rankid) e := by
  induction rest generalizing i with
  | nil => cases h
  | cons node_config rest ih =>
    rw [List.map_cons] at hsorted hlow ⊢
    obtain ⟨hmin, hsorted'⟩ := List.pairwise_cons.mp hsorted
    have hzero : 0 ∈ List.range (i + 1) ++ node_config.rankid :: rest.map NodeConfig.rankid :=
      List.mem_append_left _ (List.mem_range.mpr (Nat.succ_pos i))
    have hnode := hlow _ List.mem_cons_self
    simp only [checkRanks] at h
    split_ifs at h with hdup hgap
    · obtain rfl := Option.some.inj h
      have hmany : 1 < (List.range (i + 1) ++
          node_config.rankid :: rest.map NodeConfig.rankid).count node_config.rankid := by
        have hone : 0 < (List.range (i + 1)).count node_config.rankid :=
          List.count_pos_iff.mpr (List.mem_range.mpr (by omega))
        rw [List.count_append, List.count_cons_self]
        omega
      refine ⟨hzero, ⟨Or.inr hmany, ?_⟩, hmany⟩
      intro m hm
      exact hdup ▸ irregular_ge hlow (Nat.le_succ i) hm
    · obtain rfl := Option.some.inj h
      have hnext : ∀ r ∈ node_config.rankid :: rest.map NodeConfig.rankid, i + 1 < r := by
        intro r hr
        rcases List.mem_cons.mp hr with rfl | hr
        · omega
        · have := hmin r hr
          omega
      have hmissing : i + 1 ∉ List.range (i + 1) ++
          node_config.rankid :: rest.map NodeConfig.rankid := by
        intro hmem
        rcases List.mem_append.mp hmem with hmem | hmem
        · exact Nat.lt_irrefl _ (List.mem_range.mp hmem)
        · exact Nat.lt_irrefl _ (hnext _ hmem)
      refine ⟨hzero, ⟨Or.inl ⟨hmissing, node_config.rankid, ?_, ?_⟩, ?_⟩, hmissing⟩
      · exact List.mem_append_right _ List.mem_cons_self
      · exact hnext _ List.mem_cons_self
      · intro m hm
        exact irregular_ge (fun r hr => (hnext r hr).le) (le_refl _) hm
    · have heq : node_config.rankid = i + 1 := not_not.mp hgap
      rw [heq] at h hmin ⊢
      have hall := ih hsorted' hmin h
      rwa [List.range_succ (n := i + 1), List.append_assoc] at hall

theorem validate_describes {hosts : List NodeConfig} {e : NetworkConfigError}
    (hsorted : (hosts.map NodeConfig.rankid).Pairwise (· ≤ ·)) (h : validate hosts = some e) :
    Describes (hosts.map NodeConfig.rankid) e := by
  cases hosts with
  | nil =>
    obtain rfl := Option.some.inj h
    rfl
  | cons first rest =>
    rw [List.map_cons] at hsorted ⊢
    obtain ⟨hmin, hsorted'⟩ := List.pairwise_cons.mp hsorted
    simp only [validate] at h
    split_ifs at h with hfirst
    · obtain rfl := Option.some.inj h
      refine ⟨List.cons_ne_nil _ _, ?_⟩
      intro hmem
      rcases List.mem_cons.mp hmem with h0 | h0
      · exact hfirst h0.symm
      · exact hfirst (Nat.le_zero.mp (hmin 0 h0))
    · have heq : first.rankid = 0 := not_not.mp hfirst
      rw [heq] at h hmin ⊢
      exact checkRanks_describes hsorted' hmin h

def sorted (self : RawNetworkConfig) : List NodeConfig :=
  self.hosts.insertionSort (fun a b => a.rankid ≤ b.rankid)

theorem sorted_perm (self : RawNetworkConfig) : self.sorted.Perm self.hosts :=
  List.perm_insertionSort _ _

theorem sorted_ranks_perm (self : RawNetworkConfig) :
    (self.sorted.map NodeConfig.rankid).Perm self.ranks := self.sorted_perm.map _

theorem sorted_ascending (self : RawNetworkConfig) :
    (self.sorted.map NodeConfig.rankid).Pairwise (· ≤ ·) := by
  rw [sorted, List.map_insertionSort _ (· ≤ ·) _ _ (fun _ _ _ _ => Iff.rfl)]
  exact List.pairwise_insertionSort _ _

/-- `build` answers with the error that describes the ranks, or with the sorted nodes. -/
theorem build_cases (self : RawNetworkConfig) :
    (∃ e, self.build = .error e ∧ Describes self.ranks e) ∨
      ∃ config, self.build = .ok config ∧ config.hosts = self.sorted := by
  unfold build
  dsimp only
  split
  · rename_i e h
    exact Or.inl ⟨e, rfl, (describes_perm self.sorted_ranks_perm).mp
      (validate_describes self.sorted_ascending h)⟩
  · exact Or.inr ⟨_, rfl, rfl⟩

end RawNetworkConfig

namespace NetworkConfig

theorem ranks_eq (self : NetworkConfig) :
    self.hosts.map NodeConfig.rankid = List.range self.hosts.length := by
  apply List.ext_getElem
  · simp
  · intro i h₁ h₂
    rw [List.getElem_map, List.getElem_range]
    have hi : i < self.hosts.length := by simpa using h₁
    exact self.ranked i _ (List.getElem?_eq_getElem hi)

theorem getElem?_eq_some_iff (self : NetworkConfig) (r : Nat) (node : NodeConfig) :
    self.hosts[r]? = some node ↔ node ∈ self.hosts ∧ node.rankid = r := by
  constructor
  · intro h
    exact ⟨List.mem_of_getElem? h, self.ranked r node h⟩
  · intro h
    obtain ⟨hmem, hrank⟩ := h
    obtain ⟨i, hi⟩ := List.mem_iff_getElem?.mp hmem
    rwa [← hrank, self.ranked i node hi]

end NetworkConfig

namespace RawNetworkConfig

theorem build_ok {self : RawNetworkConfig} {config : NetworkConfig} (h : self.build = .ok config) :
    config.hosts.Perm self.hosts ∧ self.ranks.Perm (List.range self.hosts.length) := by
  rcases self.build_cases with ⟨e, he, _⟩ | ⟨config', hok, hsorted⟩
  · cases he.symm.trans h
  · obtain rfl := Except.ok.inj (hok.symm.trans h)
    have hperm : config'.hosts.Perm self.hosts := hsorted ▸ self.sorted_perm
    have hranks := config'.ranks_eq
    refine ⟨hperm, ?_⟩
    rw [← hperm.length_eq, ← hranks]
    exact (hperm.map _).symm

theorem build_error {self : RawNetworkConfig} {e : NetworkConfigError} (h : self.build = .error e) :
    Describes self.ranks e := by
  rcases self.build_cases with ⟨e', he, hdescribes⟩ | ⟨config, hok, _⟩
  · obtain rfl := Except.error.inj (he.symm.trans h)
    exact hdescribes
  · cases hok.symm.trans h

theorem build_error_iff (self : RawNetworkConfig) (e : NetworkConfigError) :
    self.build = .error e ↔ Describes self.ranks e := by
  constructor
  · exact build_error
  · intro h
    cases hbuild : self.build with
    | error e' => rw [describes_unique (build_error hbuild) h]
    | ok config =>
      obtain ⟨hperm, hranks⟩ := build_ok hbuild
      have hlength : self.hosts.length ≠ 0 := by
        rw [← hperm.length_eq]
        exact fun h0 => config.nonempty (List.length_eq_zero_iff.mp h0)
      exact absurd ((describes_perm hranks).mp h) (not_describes_range hlength)

/-- The answer does not depend on the order of the nodes. -/
theorem build_perm {self other : RawNetworkConfig} (h : other.hosts.Perm self.hosts) :
    other.build = self.build := by
  have hranks : other.ranks.Perm self.ranks := h.map _
  cases hbuild : self.build with
  | error e => exact (build_error_iff other e).mpr ((describes_perm hranks).mpr (build_error hbuild))
  | ok config =>
    cases hother : other.build with
    | error e =>
      have herror := (build_error_iff self e).mpr ((describes_perm hranks).mp (build_error hother))
      cases herror.symm.trans hbuild
    | ok config' =>
      have hmem := ((build_ok hother).1.trans h).trans (build_ok hbuild).1.symm
      have hhosts : config'.hosts = config.hosts := by
        apply List.ext_getElem?
        intro r
        apply Option.ext
        intro node
        rw [NetworkConfig.getElem?_eq_some_iff, NetworkConfig.getElem?_eq_some_iff, hmem.mem_iff]
      obtain ⟨hosts, _, _⟩ := config
      obtain ⟨hosts', _, _⟩ := config'
      obtain rfl : hosts' = hosts := hhosts
      rfl

/-- `build` accepts the ranks from 0 on, each once, in any order, and what it answers to others is
the error that describes them. -/
theorem build_exact (self : RawNetworkConfig) :
    ((∃ config, self.build = .ok config) ↔
      self.hosts ≠ [] ∧ self.ranks.Perm (List.range self.hosts.length)) ∧
    (∀ config, self.build = .ok config → config.hosts.Perm self.hosts ∧
      ∀ r node, config.hosts[r]? = some node ↔ node ∈ self.hosts ∧ node.rankid = r) ∧
    (∀ other : RawNetworkConfig, other.hosts.Perm self.hosts → other.build = self.build) ∧
    ∀ e, self.build = .error e ↔ Describes self.ranks e := by
  refine ⟨⟨?_, ?_⟩, ?_, fun other => build_perm, self.build_error_iff⟩
  · rintro ⟨config, hok⟩
    obtain ⟨hperm, hranks⟩ := build_ok hok
    refine ⟨?_, hranks⟩
    intro hnil
    rw [hnil] at hperm
    exact config.nonempty hperm.eq_nil
  · rintro ⟨hne, hranks⟩
    cases hbuild : self.build with
    | ok config => exact ⟨config, rfl⟩
    | error e =>
      have hdescribes := (describes_perm hranks).mp (build_error hbuild)
      exact absurd hdescribes (not_describes_range (fun h0 => hne (List.length_eq_zero_iff.mp h0)))
  · intro config hok
    have hperm := (build_ok hok).1
    refine ⟨hperm, ?_⟩
    intro r node
    rw [config.getElem?_eq_some_iff, hperm.mem_iff]

end RawNetworkConfig

end IbverbsRs.Network
