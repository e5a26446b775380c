import IbverbsRs.Channel.Tracking

namespace IbverbsRs

open Ibverbs Framework

/-- What a scope knows of a request: the scope it was posted through, whether the user has
polled it to completion and whether the scope still holds its clone. -/
structure Mark where
  scope : Option Nat
  user_polled_to_completion : Bool
  scopeRef : Bool

/-- What of a thread decides which requests a scope still has to wait for. -/
structure Registry where
  marks : List Mark
  scopes : List PollingScope
  opened : Nat
  remaining : Option (List Nat)
  dropping : Option Nat
  answered : Nat → Bool

namespace Registry

/-- The scopes whose closure is still running. -/
def running (r : Registry) : List PollingScope :=
  if r.remaining.isSome then r.scopes.tail else r.scopes

def polled (y : Mark) : Mark :=
  { y with user_polled_to_completion := y.user_polled_to_completion || y.scope.isSome }

def released (y : Mark) : Mark := { y with scopeRef := false }

def answer (answered : Nat → Bool) (h : Nat) : Nat → Bool := fun k => answered k || h == k

/-- One step of a thread, as far as its scopes are concerned. -/
inductive Step (r : Registry) : Registry → Prop
  | unchanged : Step r r
  | posted {scope : Option Nat} (idle : r.remaining = none) (calm : r.dropping = none)
      (isOpen : ∀ id, scope = some id → ∃ s ∈ r.scopes, s.id = id) :
      Step r { r with
        marks := r.marks ++ [⟨scope, false, scope.isSome⟩]
        scopes := Machine.pushWork r.scopes scope r.marks.length }
  | polled {h : Nat} (known : h < r.marks.length) (calm : r.dropping = none) : Step r { r with
      marks := r.marks.modify h polled
      answered := answer r.answered h }
  | dropped {h : Nat} {y : Mark} (found : r.marks[h]? = some y) (last : y.scopeRef = false) :
      Step r { r with dropping := some h }
  | drained {h : Nat} (dropping : r.dropping = some h) : Step r { r with
      dropping := none
      answered := answer r.answered h }
  | released {h : Nat} {rest : List Nat} {answered : Nat → Bool} {dropping : Option Nat}
      (known : h < r.marks.length) (ending : r.remaining = some (h :: rest))
      (answers : answered = r.answered ∨ answered = answer r.answered h)
      (drops : dropping = none ∨ dropping = some h) : Step r { r with
        marks := r.marks.modify h released
        remaining := some rest
        dropping := dropping
        answered := answered }
  | opened {manual : Bool} (idle : r.remaining = none) : Step r { r with
      scopes := ⟨r.opened, manual, []⟩ :: r.scopes
      opened := r.opened + 1 }
  | closed {s : PollingScope} {scopes : List PollingScope} (idle : r.remaining = none)
      (top : r.scopes = s :: scopes) :
      Step r { r with remaining := some s.wrs, dropping := none }
  | returned {s : PollingScope} {scopes : List PollingScope} (ending : r.remaining.isSome)
      (top : r.scopes = s :: scopes) :
      Step r { r with scopes := scopes, remaining := none, dropping := none }

/-- A scope holds exactly the requests posted through it, in posting order, and a clone of each
until it has waited for it; while it has the clone, only a poll of the user is answered. -/
structure Kept (r : Registry) : Prop where
  nodup : (r.scopes.map PollingScope.id).Nodup
  opened : ∀ s ∈ r.scopes, s.id < r.opened
  known : ∀ id, some id ∈ r.marks.map Mark.scope → id < r.opened
  ascending : ∀ s ∈ r.scopes, s.wrs.Pairwise (· < ·)
  members : ∀ s ∈ r.scopes, ∀ h, h ∈ s.wrs ↔ (r.marks.map Mark.scope)[h]? = some (some s.id)
  ending : ∀ wrs, r.remaining = some wrs → ∃ s scopes, r.scopes = s :: scopes ∧ wrs <:+ s.wrs
  referenced : ∀ s ∈ r.running, ∀ h ∈ s.wrs, ∀ y, r.marks[h]? = some y → y.scopeRef = true
  dropping : ∀ h, r.dropping = some h → ∃ y, r.marks[h]? = some y ∧ y.scopeRef = false
  answers : ∀ h, r.answered h = true → h < r.marks.length
  agree : ∀ h y, r.marks[h]? = some y → y.scopeRef = true →
    y.scope.isSome ∧ y.user_polled_to_completion = r.answered h

theorem kept_new (answered : Nat → Bool) (h : ∀ k, answered k = false) :
    Kept ⟨[], [], 0, none, none, answered⟩ := by
  constructor
  all_goals simp [running, h]

theorem running_of_idle {r : Registry} (idle : r.remaining = none) : r.running = r.scopes := by
  rw [running, idle]
  rfl

theorem pushWork_cases {scopes : List PollingScope} {scope : Option Nat} {h : Nat}
    {s' : PollingScope} (hs' : s' ∈ Machine.pushWork scopes scope h) :
    ∃ s ∈ scopes, s'.id = s.id ∧ (scope = some s.id ∧ s'.wrs = s.wrs ++ [h] ∨
      scope ≠ some s.id ∧ s'.wrs = s.wrs) := by
  obtain ⟨s, hs, rfl⟩ := List.mem_map.mp hs'
  refine ⟨s, hs, ?_⟩
  split
  · rename_i hid
    exact ⟨rfl, Or.inl ⟨hid.symm, rfl⟩⟩
  · rename_i hid
    exact ⟨rfl, Or.inr ⟨fun h => hid h.symm, rfl⟩⟩

theorem Kept.lt_length {r : Registry} (hr : r.Kept) {s : PollingScope} (hs : s ∈ r.scopes) {h : Nat}
    (hmem : h ∈ s.wrs) : h < r.marks.length := by
  have hmark := (hr.members s hs h).mp hmem
  have hlt := (List.getElem?_eq_some_iff.mp hmark).1
  rwa [List.length_map] at hlt

theorem answer_of_ne {answered : Nat → Bool} {h k : Nat} (hne : h ≠ k) :
    answer answered h k = answered k := by
  simp [answer, hne]

/-- A further answer is one for a known request, too. -/
theorem Kept.lt_of_answer {r : Registry} (hr : r.Kept) {h : Nat} (known : h < r.marks.length)
    {k : Nat} (hk : answer r.answered h k = true) : k < r.marks.length := by
  rcases Bool.or_eq_true_iff.mp hk with hold | hnew
  · exact hr.answers k hold
  · rwa [← eq_of_beq hnew]

/-- An answer to one request changes nothing for the others. -/
theorem Kept.agree_answer {r : Registry} (hr : r.Kept) {h k : Nat} (hne : h ≠ k) {y : Mark}
    (hy : r.marks[k]? = some y) (href : y.scopeRef = true) :
    y.scope.isSome ∧ y.user_polled_to_completion = answer r.answered h k := by
  rw [answer_of_ne hne]
  exact hr.agree k y hy href

theorem kept_posted {r : Registry} {scope : Option Nat} (hr : r.Kept) (idle : r.remaining = none)
    (calm : r.dropping = none) (isOpen : ∀ id, scope = some id → ∃ s ∈ r.scopes, s.id = id) :
    Kept { r with
      marks := r.marks ++ [⟨scope, false, scope.isSome⟩]
      scopes := Machine.pushWork r.scopes scope r.marks.length } where
  nodup := by
    rw [Machine.pushWork_id]
    exact hr.nodup
  opened s' hs' := by
    obtain ⟨s, hs, hid, _⟩ := pushWork_cases hs'
    rw [hid]
    exact hr.opened s hs
  known id hid := by
    rw [List.map_append, List.mem_append] at hid
    rcases hid with hold | hnew
    · exact hr.known id hold
    · obtain ⟨s, hs, rfl⟩ := isOpen id (List.mem_singleton.mp hnew).symm
      exact hr.opened s hs
  ascending s' hs' := by
    obtain ⟨s, hs, _, ⟨_, hwrs⟩ | ⟨_, hwrs⟩⟩ := pushWork_cases hs'
    · rw [hwrs, List.pairwise_append]
      refine ⟨hr.ascending s hs, List.pairwise_singleton _ _, ?_⟩
      intro k hk n hn
      rw [List.mem_singleton.mp hn]
      exact hr.lt_length hs hk
    · rw [hwrs]
      exact hr.ascending s hs
  members s' hs' k := by
    obtain ⟨s, hs, hid, hcase⟩ := pushWork_cases hs'
    have hold := hr.members s hs k
    have hbound : k ∈ s.wrs → k < r.marks.length := hr.lt_length hs
    rw [hid, List.map_append]
    by_cases hk : k < r.marks.length
    · rw [List.getElem?_append_left (by simpa using hk), ← hold]
      rcases hcase with ⟨_, hwrs⟩ | ⟨_, hwrs⟩
      · rw [hwrs, List.mem_append, List.mem_singleton]
        exact or_iff_left (Nat.ne_of_lt hk)
      · rw [hwrs]
    · have hfresh : k ∉ s.wrs := fun hmem => hk (hbound hmem)
      rw [List.getElem?_append_right (by simpa using hk), List.length_map]
      rcases hcase with ⟨hscope, hwrs⟩ | ⟨hscope, hwrs⟩
      · rw [hwrs, List.mem_append, List.mem_singleton, or_iff_right hfresh]
        constructor
        · rintro rfl
          simp [hscope]
        · intro hmark
          have hlt := (List.getElem?_eq_some_iff.mp hmark).1
          simp at hlt
          omega
      · rw [hwrs]
        refine iff_of_false hfresh ?_
        intro hmark
        obtain ⟨hlt, heq⟩ := List.getElem?_eq_some_iff.mp hmark
        simp only [List.map_cons, List.map_nil, List.length_singleton] at hlt heq
        exact hscope (by simpa using heq)
  ending wrs hwrs := by
    change r.remaining = some wrs at hwrs
    rw [idle] at hwrs
    cases hwrs
  referenced s' hs' k hk y hy := by
    have hrunning := running_of_idle (r := { r with
      marks := r.marks ++ [⟨scope, false, scope.isSome⟩]
      scopes := Machine.pushWork r.scopes scope r.marks.length }) idle
    rw [hrunning] at hs'
    obtain ⟨s, hs, _, hcase⟩ := pushWork_cases hs'
    rcases getElem?_snoc_cases hy with hold | ⟨rfl, rfl⟩
    · apply hr.referenced s (by rwa [running_of_idle idle]) k ?_ y hold
      have hlt := (List.getElem?_eq_some_iff.mp hold).1
      rcases hcase with ⟨_, hwrs⟩ | ⟨_, hwrs⟩
      · rw [hwrs, List.mem_append, List.mem_singleton] at hk
        exact hk.resolve_right (Nat.ne_of_lt hlt)
      · rwa [hwrs] at hk
    · rcases hcase with ⟨rfl, _⟩ | ⟨_, hwrs⟩
      · rfl
      · rw [hwrs] at hk
        exact absurd (hr.lt_length hs hk) (Nat.lt_irrefl _)
  dropping k hk := by
    change r.dropping = some k at hk
    rw [calm] at hk
    cases hk
  answers k hk := by
    rw [List.length_append]
    exact Nat.lt_add_right _ (hr.answers k hk)
  agree k y hy href := by
    rcases getElem?_snoc_cases hy with hold | ⟨rfl, rfl⟩
    · exact hr.agree k y hold href
    · refine ⟨href, ?_⟩
      by_contra hne
      exact Nat.lt_irrefl _ (hr.answers _ (by simpa using Ne.symm hne))

theorem kept_polled {r : Registry} {h : Nat} (hr : r.Kept) (known : h < r.marks.length)
    (calm : r.dropping = none) : Kept { r with
      marks := r.marks.modify h polled
      answered := answer r.answered h } := by
  have hscopes : (r.marks.modify h polled).map Mark.scope = r.marks.map Mark.scope :=
    map_modify_eq (f := Mark.scope) (g := polled) (fun y => rfl) r.marks h
  constructor
  case nodup => exact hr.nodup
  case opened => exact hr.opened
  case known => simpa only [hscopes] using hr.known
  case ascending => exact hr.ascending
  case members => simpa only [hscopes] using hr.members
  case ending => exact hr.ending
  case referenced =>
    intro s hs k hk y hy
    rcases getElem?_modify_cases hy with ⟨_, y₀, hy₀, rfl⟩ | ⟨_, hold⟩
    · exact hr.referenced s hs k hk y₀ hy₀
    · exact hr.referenced s hs k hk y hold
  case dropping =>
    intro k hk
    change r.dropping = some k at hk
    rw [calm] at hk
    cases hk
  case answers =>
    intro k hk
    rw [List.length_modify]
    exact hr.lt_of_answer known hk
  case agree =>
    intro k y hy href
    rcases getElem?_modify_cases hy with ⟨rfl, y₀, hy₀, rfl⟩ | ⟨hne, hold⟩
    · obtain ⟨hscope, hagree⟩ := hr.agree h y₀ hy₀ href
      refine ⟨hscope, ?_⟩
      simp [polled, answer, hscope]
    · exact hr.agree_answer hne hold href

/-- The request whose clone goes belongs to the scope that is ending. -/
theorem kept_released {r : Registry} {h : Nat} {rest : List Nat} {answered : Nat → Bool}
    {dropping : Option Nat} (hr : r.Kept) (known : h < r.marks.length)
    (ending : r.remaining = some (h :: rest))
    (answers : answered = r.answered ∨ answered = answer r.answered h)
    (drops : dropping = none ∨ dropping = some h) : Kept { r with
      marks := r.marks.modify h released
      remaining := some rest
      dropping := dropping
      answered := answered } := by
  have hscopes : (r.marks.modify h released).map Mark.scope = r.marks.map Mark.scope :=
    map_modify_eq (f := Mark.scope) (g := released) (fun y => rfl) r.marks h
  obtain ⟨top, scopes, htop, hsuffix⟩ := hr.ending _ ending
  have hmem : h ∈ top.wrs := hsuffix.subset List.mem_cons_self
  have hrunning : r.running = scopes := by
    rw [running, ending, htop]
    rfl
  constructor
  case nodup => exact hr.nodup
  case opened => exact hr.opened
  case known => simpa only [hscopes] using hr.known
  case ascending => exact hr.ascending
  case members => simpa only [hscopes] using hr.members
  case ending =>
    intro wrs hwrs
    obtain rfl := Option.some.inj hwrs
    exact ⟨top, scopes, htop, (List.suffix_cons h rest).trans hsuffix⟩
  case referenced =>
    intro s hs k hk y hy
    change s ∈ r.scopes.tail at hs
    rw [htop, List.tail_cons] at hs
    rcases getElem?_modify_cases hy with ⟨rfl, _⟩ | ⟨_, hold⟩
    · -- no other scope has a request of the ending one
      have hin : s ∈ r.scopes := by
        rw [htop]
        exact List.mem_cons_of_mem _ hs
      have hmark := (hr.members s hin h).mp hk
      rw [(hr.members top (by rw [htop]; exact List.mem_cons_self) h).mp hmem] at hmark
      have hid : top.id = s.id := by simpa using hmark
      have hnodup := hr.nodup
      rw [htop, List.map_cons, List.nodup_cons, hid] at hnodup
      exact absurd (List.mem_map_of_mem hs) hnodup.1
    · exact hr.referenced s (by rwa [hrunning]) k hk y hold
  case dropping =>
    intro k hk
    change dropping = some k at hk
    rcases drops with rfl | rfl
    · cases hk
    · obtain rfl := Option.some.inj hk
      refine ⟨released r.marks[h], ?_, rfl⟩
      rw [List.getElem?_modify_eq, List.getElem?_eq_getElem known]
      rfl
  case answers =>
    intro k hk
    rw [List.length_modify]
    change answered k = true at hk
    rcases answers with rfl | rfl
    · exact hr.answers k hk
    · exact hr.lt_of_answer known hk
  case agree =>
    intro k y hy href
    rcases getElem?_modify_cases hy with ⟨rfl, y₀, hy₀, rfl⟩ | ⟨hne, hold⟩
    · cases href
    · rcases answers with rfl | rfl
      · exact hr.agree k y hold href
      · exact hr.agree_answer hne hold href

theorem Step.kept {r r' : Registry} (h : Step r r') (hr : r.Kept) : r'.Kept := by
  cases h with
  | unchanged => exact hr
  | posted idle calm isOpen => exact kept_posted hr idle calm isOpen
  | polled known calm => exact kept_polled hr known calm
  | released known ending answers drops =>
    exact kept_released hr known ending answers drops
  | dropped found last =>
    refine { hr with dropping := ?_ }
    intro k hk
    obtain rfl := Option.some.inj hk
    exact ⟨_, found, last⟩
  | @drained h dropping =>
    obtain ⟨y, hy, hlast⟩ := hr.dropping h dropping
    refine { hr with dropping := ?_, answers := ?_, agree := ?_ }
    · intro k hk
      cases hk
    · exact fun k hk => hr.lt_of_answer (List.getElem?_eq_some_iff.mp hy).1 hk
    · intro k y' hy' href
      have hne : h ≠ k := by
        rintro rfl
        obtain rfl := Option.some.inj (hy.symm.trans hy')
        rw [hlast] at href
        cases href
      exact hr.agree_answer hne hy' href
  | @opened manual idle =>
    have hnew : r.opened ∉ r.scopes.map PollingScope.id := by
      intro hmem
      obtain ⟨s, hs, hid⟩ := List.mem_map.mp hmem
      exact Nat.ne_of_lt (hr.opened s hs) hid
    refine { hr with nodup := ?_, opened := ?_, known := ?_, ascending := ?_, members := ?_,
                     ending := ?_, referenced := ?_ }
    · exact List.nodup_cons.mpr ⟨hnew, hr.nodup⟩
    · rintro s (_ | ⟨_, hs⟩)
      · exact Nat.lt_succ_self _
      · exact Nat.lt_succ_of_lt (hr.opened s hs)
    · intro id hid
      exact Nat.lt_succ_of_lt (hr.known id hid)
    · rintro s (_ | ⟨_, hs⟩)
      · exact List.Pairwise.nil
      · exact hr.ascending s hs
    · rintro s (_ | ⟨_, hs⟩) k
      · refine iff_of_false List.not_mem_nil ?_
        intro hmark
        exact Nat.lt_irrefl _ (hr.known _ (List.mem_of_getElem? hmark))
      · exact hr.members s hs k
    · intro wrs hwrs
      change r.remaining = some wrs at hwrs
      rw [idle] at hwrs
      cases hwrs
    · have hrunning := running_of_idle (r := { r with
        scopes := ⟨r.opened, manual, []⟩ :: r.scopes
        opened := r.opened + 1 }) idle
      rw [hrunning]
      rintro s (_ | ⟨_, hs⟩) k hk
      · cases hk
      · exact hr.referenced s (by rwa [running_of_idle idle]) k hk
  | @closed s scopes idle top =>
    refine { hr with ending := ?_, referenced := ?_, dropping := ?_ }
    · intro wrs hwrs
      obtain rfl := Option.some.inj hwrs
      exact ⟨s, scopes, top, List.suffix_rfl⟩
    · intro s' hs'
      apply hr.referenced s'
      rw [running_of_idle idle]
      exact List.mem_of_mem_tail hs'
    · intro k hk
      cases hk
  | @returned s scopes ending top =>
    have hsub : scopes ⊆ r.scopes := by
      rw [top]
      exact List.subset_cons_self _ _
    have hrunning : r.running = scopes := by
      rw [running, if_pos ending, top]
      rfl
    have hnodup := hr.nodup
    rw [top, List.map_cons, List.nodup_cons] at hnodup
    refine { hr with nodup := hnodup.2, opened := ?_, ascending := ?_, members := ?_, ending := ?_,
                     referenced := ?_, dropping := ?_ }
    · exact fun s' hs' => hr.opened s' (hsub hs')
    · exact fun s' hs' => hr.ascending s' (hsub hs')
    · exact fun s' hs' => hr.members s' (hsub hs')
    · intro wrs hwrs
      cases hwrs
    · rw [← hrunning]
      exact hr.referenced
    · intro k hk
      cases hk

end Registry

/-- The handle `Drop` is waiting for. -/
def Control.dropping : Control → Option Nat
  | .userDrop h | .autoDrop h _ => some h
  | .user | .userSpin _ | .auto _ | .autoSpin _ _ => none

def Handle.mark (x : Handle) : Mark := ⟨x.scope, x.user_polled_to_completion, x.scopeRef⟩

namespace Machine

/-- Some poll of the request has had an answer. -/
def answered (m : Machine) (h : Nat) : Bool := m.polls.any (fun p => p.1 == h && p.2.isSome)

def registry (m : Machine) : Registry :=
  ⟨m.handles.map Handle.mark, m.scopes, m.opened, m.control.remaining, m.control.dropping,
    m.answered⟩

theorem answered_snoc {m m' : Machine} {h : Nat} {r : Option TransportResult}
    (hpolls : m'.polls = m.polls ++ [(h, r)]) :
    m'.answered = if r.isSome then Registry.answer m.answered h else m.answered := by
  funext k
  unfold answered
  rw [hpolls, List.any_append]
  cases r with
  | none => simp
  | some r => simp [Registry.answer]

theorem marks_modify (m : Machine) (h : Nat) (f : Handle → Handle) (g : Mark → Mark)
    (hfg : ∀ x, (f x).mark = g x.mark) :
    (m.modify h f).handles.map Handle.mark = (m.handles.map Handle.mark).modify h g := by
  apply List.ext_getElem?
  intro k
  simp only [modify, List.getElem?_map, List.getElem?_modify]
  cases m.handles[k]? with
  | none => rfl
  | some x =>
    by_cases hk : h = k
    · simp [hk, hfg]
    · simp [hk]

/-- Marks, scopes and counters after a poll of one request. -/
theorem registry_pollWork {m m' : Machine} {h : Nat} {num_polled : Int}
    {r : Option TransportResult} (hpoll : m.pollWork h num_polled = some (r, m')) :
    h < (m.handles.map Handle.mark).length ∧
      m'.registry = { m.registry with
        answered := if r.isSome then Registry.answer m.answered h else m.answered } := by
  have hanswered := answered_snoc (pollWork_polls hpoll)
  obtain ⟨x, ch, w', cq', hx, hch, hp, rfl⟩ := pollWork_spec hpoll
  constructor
  · rw [List.length_map]
    exact (List.getElem?_eq_some_iff.mp hx).1
  · rw [← hanswered]
    unfold registry
    dsimp only
    rw [map_set_eq hx (f := Handle.mark) (b := { x with work := w' }) rfl]

theorem registry_release (m : Machine) (h : Nat) (a : AutoPoll) :
    ∃ dropping, (dropping = none ∨ dropping = some h) ∧ (m.release h a).registry = { m.registry with
      marks := m.registry.marks.modify h Registry.released
      remaining := some a.rest
      dropping := dropping } := by
  have hmarks := marks_modify m h (fun x => { x with scopeRef := false, released := true })
    Registry.released (fun x => rfl)
  unfold release
  dsimp only
  split
  · refine ⟨none, Or.inl rfl, ?_⟩
    unfold registry
    dsimp only [Control.remaining, Control.dropping]
    rw [← hmarks]
    rfl
  · refine ⟨some h, Or.inr rfl, ?_⟩
    unfold registry
    dsimp only [Control.remaining, Control.dropping]
    rw [← hmarks]
    rfl

theorem registry_modify {m : Machine} {h : Nat} {f : Handle → Handle}
    (keeps : ∀ x, (f x).mark = x.mark) : (m.modify h f).registry = m.registry := by
  have hmarks : (m.modify h f).handles.map Handle.mark = m.handles.map Handle.mark :=
    map_modify_eq keeps m.handles h
  unfold registry
  rw [hmarks]
  rfl

theorem registry_userPolled (m : Machine) (h : Nat) : (m.modify h userPolled).registry =
    { m.registry with marks := m.registry.marks.modify h Registry.polled } := by
  have hmarks := marks_modify m h userPolled Registry.polled (fun x => rfl)
  unfold registry
  rw [hmarks]
  rfl

/-- Changing what the thread does matters only through what is left to wait for. -/
theorem registry_control {m : Machine} {c : Control}
    (hremaining : c.remaining = m.control.remaining) (hdropping : c.dropping = m.control.dropping) :
    { m with control := c }.registry = m.registry := by
  unfold registry
  dsimp only
  rw [hremaining, hdropping]
  rfl

/-- The channels and the work behind the handles do not matter for who waits for what. -/
theorem step_registry {m m' : Machine} {ev : Event} (h : m.step ev = some m') :
    Registry.Step m.registry m'.registry := by
  have remaining {c : Control} (hc : m.control = c) : m.registry.remaining = c.remaining :=
    congrArg Control.remaining hc
  have dropping {c : Control} (hc : m.control = c) : m.registry.dropping = c.dropping :=
    congrArg Control.dropping hc
  cases step_spec h with
  | completed _ _ => exact .unchanged
  | @posted kind c scope errno hc isOpen =>
    rcases m.post_spec kind c scope errno with ⟨_, hpost⟩ | ⟨ch, hch, hpost | hpost⟩
    · rw [hpost]
      exact .unchanged
    · rw [hpost]
      exact .unchanged
    · have hlen : m.registry.marks.length = m.handles.length := List.length_map _
      have hstep := Registry.Step.posted (remaining hc) (dropping hc) isOpen
      rw [hlen] at hstep
      rw [hpost]
      unfold registry
      dsimp only
      rw [List.map_append]
      exact hstep
  | pollPending _ polled =>
    rw [(registry_pollWork polled).2]
    exact .unchanged
  | spinPending _ polled =>
    rw [(registry_pollWork polled).2]
    exact .unchanged
  | @pollReady k _ _ m₁ hc polled =>
    obtain ⟨hknown, hreg⟩ := registry_pollWork polled
    rw [registry_userPolled, hreg]
    exact .polled hknown (dropping hc)
  | @userSpinReady k _ _ m₁ hc polled =>
    obtain ⟨hknown, hreg⟩ := registry_pollWork polled
    have hcontrol : m₁.control = .userSpin k := (pollWork_frame polled).1.trans hc
    have huser := registry_control (m := m₁.modify k userPolled) (c := .user)
      (by change _ = m₁.control.remaining; rw [hcontrol]; rfl)
      (by change _ = m₁.control.dropping; rw [hcontrol]; rfl)
    rw [huser, registry_userPolled, hreg]
    exact .polled hknown (dropping hc)
  | @userDropReady k _ _ m₁ hc polled =>
    obtain ⟨_, hreg⟩ := registry_pollWork polled
    have hdrop := registry_modify (m := m₁) (h := k) (f := fun x => { x with released := true })
      (fun x => rfl)
    have hidle : m.registry.remaining = none := remaining hc
    change Registry.Step m.registry
      { (m₁.modify k _).registry with remaining := none, dropping := none }
    rw [hdrop, hreg, ← hidle]
    exact .drained (dropping hc)
  | @autoDropReady k a _ _ m₁ hc polled =>
    obtain ⟨_, hreg⟩ := registry_pollWork polled
    have hending : m.registry.remaining = some a.rest := remaining hc
    change Registry.Step m.registry { m₁.registry with remaining := some a.rest, dropping := none }
    rw [hreg, ← hending]
    exact .drained (dropping hc)
  | @autoSpinReady k a _ r m₁ hc polled =>
    obtain ⟨hknown, hreg⟩ := registry_pollWork polled
    obtain ⟨dropping, hdrops, hrelease⟩ := registry_release m₁ k (a.note r)
    rw [hrelease, hreg, note_rest]
    exact .released hknown (remaining hc) (Or.inr rfl) hdrops
  | @skipped k rest a x hc more found _ =>
    obtain ⟨dropping, hdrops, hrelease⟩ := registry_release m k { a with rest := rest }
    rw [hrelease]
    refine .released ?_ ?_ (Or.inl rfl) hdrops
    · have hlt := (List.getElem?_eq_some_iff.mp found).1
      simpa [registry] using hlt
    · rw [remaining hc, ← more]
      rfl
  | @spun k hc =>
    have hspin := registry_control (m := m) (c := .userSpin k) (by rw [hc]; rfl) (by rw [hc]; rfl)
    rw [hspin]
    exact .unchanged
  | @waiting k rest a hc more =>
    have hwait := registry_control (m := m)
      (c := .autoSpin k { a with rest := rest, auto_polled := true })
      (by rw [hc]; simp only [Control.remaining, more]) (by rw [hc]; rfl)
    rw [hwait]
    exact .unchanged
  | opened hc => exact .opened (remaining hc)
  | counted _ keeps =>
    rw [registry_modify (fun x => by rw [keeps x]; rfl)]
    exact .unchanged
  | @dropped k x hc found last =>
    have hmark : m.registry.marks[k]? = some x.mark := by
      change (m.handles.map Handle.mark)[k]? = _
      rw [List.getElem?_map, found]
      rfl
    have hdrop := registry_modify (m := m) (h := k)
      (f := fun x => { x with held := x.held - 1 }) (fun x => rfl)
    change Registry.Step m.registry
      { (m.modify k _).registry with remaining := none, dropping := some k }
    have hidle : m.registry.remaining = none := remaining hc
    rw [hdrop, ← hidle]
    exact .dropped hmark last
  | closed hc top => exact .closed (remaining hc) top
  | returned hc done top =>
    refine .returned ?_ top
    rw [remaining hc]
    rfl

theorem kept {channels : List Channel} {es : List Event} {m : Machine}
    (hrun : (system channels).run es = some m) : m.registry.Kept := by
  refine (system channels).invariant (I := fun m => m.registry.Kept) ?_ ?_ hrun
  · exact Registry.kept_new _ (fun k => rfl)
  · intro m ev m' hm hstep
    exact (step_registry hstep).kept hm

end Machine

end IbverbsRs
