import Mathlib.Data.List.Nodup
import Mathlib.Data.List.Basic
import Mathlib.Data.Finset.Dedup
import Mathlib.Data.Finset.Card
import Mathlib.Data.Finset.Filter
import Mathlib.Logic.Relation

/-!
# Depth-first post-order

`postOrder` walks the nodes of a list and what can be reached from them through kept nodes, and
lists a node after the nodes its walk has gone through. Every kept root is listed (`mem_postOrder`),
no node is listed twice (`nodup_postOrder`), and where a rank grows along the edges, or the edges
have no cycle, a node is listed after all of its successors (`closed_postOrder`,
`closed_postOrder_of_acyclic`).
-/

namespace Neemata

/-- The state of a walk: the nodes it has come to and the nodes it has listed. -/
structure Walk (α : Type*) where
  visited : List α := []
  result : List α := []

namespace Walk

variable {α : Type*} [DecidableEq α] (next : α → List α) (keep : α → Bool)

def visit : Nat → Walk α → α → Walk α
  | 0, walk, _ => walk
  | fuel + 1, walk, x =>
    if x ∈ walk.visited then walk
    else
      let walk := ((next x).filter keep).foldl (visit fuel)
        { walk with visited := x :: walk.visited }
      if keep x then { walk with result := walk.result ++ [x] } else walk

/-- The walk that starts at each of the roots in turn; no path through kept roots is longer than
the list of the roots. -/
def postOrder (roots : List α) : List α :=
  (roots.foldl (visit next keep roots.length) {}).result

variable {next keep}

/-! ## What a walk keeps -/

/-- A node that has been come to and not been listed: the walk is below it. -/
def IsOpen (walk : Walk α) (x : α) : Prop := x ∈ walk.visited ∧ x ∉ walk.result

/-- A later walk has come to more nodes, has listed more, and is below the same kept nodes. -/
structure Extends (keep : α → Bool) (before after : Walk α) : Prop where
  visited : before.visited ⊆ after.visited
  result : before.result ⊆ after.result
  isOpen : ∀ x, keep x → (after.IsOpen x ↔ before.IsOpen x)

omit [DecidableEq α] in
theorem Extends.refl (walk : Walk α) : Extends keep walk walk :=
  ⟨List.Subset.refl _, List.Subset.refl _, fun _ _ => Iff.rfl⟩

omit [DecidableEq α] in
theorem Extends.trans {a b c : Walk α} (hab : Extends keep a b) (hbc : Extends keep b c) :
    Extends keep a c where
  visited := List.Subset.trans hab.visited hbc.visited
  result := List.Subset.trans hab.result hbc.result
  isOpen x hkeep := (hbc.isOpen x hkeep).trans (hab.isOpen x hkeep)

/-- The walk that has come to `x` and goes on below it. -/
def enter (walk : Walk α) (x : α) : Walk α := { walk with visited := x :: walk.visited }

/-- The walk that has come back to `x`. -/
def leave (keep : α → Bool) (walk : Walk α) (x : α) : Walk α :=
  if keep x then { walk with result := walk.result ++ [x] } else walk

theorem visit_succ (fuel : Nat) (walk : Walk α) (x : α) :
    visit next keep (fuel + 1) walk x =
      if x ∈ walk.visited then walk
      else leave keep (((next x).filter keep).foldl (visit next keep fuel) (walk.enter x)) x := rfl

omit [DecidableEq α] in
theorem extends_leave {walk below : Walk α} {x : α} (hnew : x ∉ walk.visited)
    (hresult : x ∉ walk.result) (h : Extends keep (walk.enter x) below) :
    Extends keep walk (leave keep below x) := by
  have hvisited : walk.visited ⊆ below.visited :=
    fun y hy => h.visited (List.mem_cons_of_mem x hy)
  have hother : ∀ y, keep y → y ≠ x → (below.IsOpen y ↔ walk.IsOpen y) := by
    intro y hkeep hne
    rw [h.isOpen y hkeep]
    simp [IsOpen, enter, hne]
  unfold leave
  split
  · refine ⟨hvisited, fun y hy => List.mem_append_left _ (h.result hy), fun y hkeep => ?_⟩
    by_cases hy : y = x
    · subst hy
      simp [IsOpen, hnew]
    · rw [← hother y hkeep hy]
      simp [IsOpen, hy]
  · next hdrop =>
    refine ⟨hvisited, h.result, fun y hkeep => hother y hkeep ?_⟩
    rintro rfl
    exact hdrop hkeep

/-- The listed nodes are distinct kept nodes the walk has come to. -/
structure Lists (keep : α → Bool) (walk : Walk α) : Prop where
  nodup : walk.result.Nodup
  visited : walk.result ⊆ walk.visited
  keep : ∀ x ∈ walk.result, keep x

omit [DecidableEq α] in
theorem foldl_spec {f : Walk α → α → Walk α}
    (hf : ∀ walk x, Lists keep walk → Extends keep walk (f walk x) ∧ Lists keep (f walk x))
    (l : List α) {walk : Walk α} (h : Lists keep walk) :
    Extends keep walk (l.foldl f walk) ∧ Lists keep (l.foldl f walk) := by
  induction l generalizing walk with
  | nil => exact ⟨.refl walk, h⟩
  | cons x l ih =>
    obtain ⟨hextends, hlists⟩ := hf walk x h
    exact ⟨hextends.trans (ih hlists).1, (ih hlists).2⟩

variable (next) in
theorem visit_spec (fuel : Nat) {walk : Walk α} (x : α) (h : Lists keep walk) :
    Extends keep walk (visit next keep fuel walk x) ∧ Lists keep (visit next keep fuel walk x) := by
  induction fuel generalizing walk x with
  | zero => exact ⟨.refl walk, h⟩
  | succ fuel ih =>
    rw [visit_succ]
    split
    · exact ⟨.refl walk, h⟩
    · next hnew =>
      have hresult : x ∉ walk.result := fun hx => hnew (h.visited hx)
      have hentered : Lists keep (walk.enter x) :=
        ⟨h.nodup, fun y hy => List.mem_cons_of_mem x (h.visited hy), h.keep⟩
      obtain ⟨hextends, hlists⟩ := foldl_spec (fun _ y => ih y) ((next x).filter keep) hentered
      refine ⟨extends_leave hnew hresult hextends, ?_⟩
      unfold leave
      split
      · next hkeep =>
        have hopen : (walk.enter x).IsOpen x := ⟨List.mem_cons_self, hresult⟩
        have hx := ((hextends.isOpen x hkeep).mpr hopen).2
        refine ⟨?_, fun y hy => ?_, fun y hy => ?_⟩
        · rw [List.nodup_append]
          refine ⟨hlists.nodup, List.nodup_singleton x, ?_⟩
          rintro y hy _ hz rfl
          exact hx (List.mem_singleton.mp hz ▸ hy)
        · obtain hy | hy := List.mem_append.mp hy
          · exact hlists.visited hy
          · rw [List.mem_singleton.mp hy]
            exact hextends.visited List.mem_cons_self
        · obtain hy | hy := List.mem_append.mp hy
          · exact hlists.keep y hy
          · rw [List.mem_singleton.mp hy]
            exact hkeep
      · exact hlists

theorem foldl_visit_spec (fuel : Nat) (l : List α) {walk : Walk α} (h : Lists keep walk) :
    Extends keep walk (l.foldl (visit next keep fuel) walk) ∧
      Lists keep (l.foldl (visit next keep fuel) walk) :=
  foldl_spec (fun _ x => visit_spec next fuel x) l h

omit [DecidableEq α] in
theorem lists_empty : Lists keep ({} : Walk α) :=
  ⟨List.nodup_nil, List.Subset.refl _, fun _ h => absurd h List.not_mem_nil⟩

/-- No node is listed twice. -/
theorem nodup_postOrder (roots : List α) : (postOrder next keep roots).Nodup :=
  (foldl_visit_spec roots.length roots lists_empty).2.nodup

theorem mem_visit {fuel : Nat} {walk : Walk α} {x : α} (hfuel : fuel ≠ 0) (hkeep : keep x)
    (hopen : ¬ walk.IsOpen x) : x ∈ (visit next keep fuel walk x).result := by
  obtain ⟨fuel, rfl⟩ := Nat.exists_eq_succ_of_ne_zero hfuel
  rw [visit_succ]
  split
  · next hvisited => exact Decidable.not_not.mp fun hresult => hopen ⟨hvisited, hresult⟩
  · rw [leave, if_pos hkeep]
    exact List.mem_append_right _ List.mem_cons_self

/-- Every kept root is listed. -/
theorem mem_postOrder {roots : List α} {x : α} (hx : x ∈ roots) (hkeep : keep x) :
    x ∈ postOrder next keep roots := by
  have hfuel : roots.length ≠ 0 := Nat.pos_iff_ne_zero.mp (List.length_pos_of_mem hx)
  have hwalk : ∀ (l : List α) {walk : Walk α}, Lists keep walk → ¬ walk.IsOpen x → x ∈ l →
      x ∈ (l.foldl (visit next keep roots.length) walk).result := by
    intro l
    induction l with
    | nil => exact fun _ _ h => absurd h List.not_mem_nil
    | cons y l ih =>
      intro walk hlists hclosed hmem
      obtain ⟨hextends, hstep⟩ := visit_spec next roots.length y hlists
      rw [List.foldl_cons]
      obtain rfl | hmem := List.mem_cons.mp hmem
      · exact (foldl_visit_spec roots.length l hstep).1.result (mem_visit hfuel hkeep hclosed)
      · exact ih hstep (fun hopen => hclosed ((hextends.isOpen x hkeep).mp hopen)) hmem
  exact hwalk roots lists_empty (fun h => List.not_mem_nil h.1) hx

/-! ## Successors come first -/

/-- Every node of the list stands after its kept successors. -/
def Closed (next : α → List α) (keep : α → Bool) (l : List α) : Prop :=
  ∀ before x after, l = before ++ x :: after → ∀ y ∈ next x, keep y → y ∈ before

omit [DecidableEq α] in
theorem Closed.append {l : List α} {x : α} (h : Closed next keep l)
    (hx : ∀ y ∈ next x, keep y → y ∈ l) : Closed next keep (l ++ [x]) := by
  intro before z after heq y hy hkeep
  obtain rfl | ⟨rest, w, rfl⟩ := List.eq_nil_or_concat' after
  · obtain ⟨rfl, hz⟩ := List.append_inj' heq rfl
    cases hz
    exact hx y hy hkeep
  · rw [← List.cons_append, ← List.append_assoc] at heq
    exact h before z rest (List.append_inj' heq rfl).1 y hy hkeep

/-- How many nodes of the list the walk has not come to. -/
def unvisited (nodes : List α) (walk : Walk α) : Nat :=
  nodes.countP fun y => y ∉ walk.visited

theorem unvisited_mono {keep : α → Bool} (nodes : List α) {a b : Walk α}
    (h : Extends keep a b) : b.unvisited nodes ≤ a.unvisited nodes := by
  refine List.countP_mono_left fun y _ hy => ?_
  simp only [decide_eq_true_eq] at hy ⊢
  exact fun hmem => hy (h.visited hmem)

theorem unvisited_enter {nodes : List α} {walk : Walk α} {x : α} (hx : x ∈ nodes)
    (hnew : x ∉ walk.visited) : (walk.enter x).unvisited nodes < walk.unvisited nodes := by
  have hless : ∀ l : List α, (walk.enter x).unvisited l ≤ walk.unvisited l := by
    refine fun l => List.countP_mono_left fun y _ hy => ?_
    simp only [enter, List.mem_cons, not_or, decide_eq_true_eq] at hy ⊢
    exact hy.2
  obtain ⟨l, r, rfl⟩ := List.append_of_mem hx
  have hl := hless l
  have hr := hless r
  have hx : (walk.enter x).unvisited [x] = 0 := by simp [unvisited, enter]
  have hx' : walk.unvisited [x] = 1 := by simp [unvisited, hnew]
  have hsplit : ∀ w : Walk α,
      w.unvisited (l ++ x :: r) = w.unvisited l + (w.unvisited [x] + w.unvisited r) := by
    intro w
    rw [unvisited, List.countP_append, ← List.singleton_append, List.countP_append]
    rfl
  rw [hsplit, hsplit]
  omega

section Rank

variable {rank : α → Nat} {nodes : List α}

theorem visit_closed (hrank : ∀ x y, keep x → keep y → y ∈ next x → rank x < rank y)
    (hnodes : ∀ x, keep x → x ∈ nodes) (fuel : Nat) {walk : Walk α} {x : α}
    (hkeep : keep x) (hlists : Lists keep walk) (hclosed : Closed next keep walk.result)
    (hopen : ∀ z, keep z → walk.IsOpen z → rank z < rank x)
    (hfuel : walk.unvisited nodes ≤ fuel) :
    Closed next keep (visit next keep fuel walk x).result ∧
      x ∈ (visit next keep fuel walk x).result := by
  have hlisted : x ∈ walk.visited → x ∈ walk.result := fun hvisited =>
    Decidable.not_not.mp fun hresult =>
      Nat.lt_irrefl _ (hopen x hkeep ⟨hvisited, hresult⟩)
  induction fuel generalizing walk x with
  | zero =>
    have hvisited : x ∈ walk.visited := by
      have hnone := List.countP_eq_zero.mp (Nat.le_zero.mp hfuel) x (hnodes x hkeep)
      simpa using hnone
    exact ⟨hclosed, hlisted hvisited⟩
  | succ fuel ih =>
    rw [visit_succ]
    split
    · next hvisited => exact ⟨hclosed, hlisted hvisited⟩
    · next hnew =>
      have hresult : x ∉ walk.result := fun hx => hnew (hlists.visited hx)
      have hlower := unvisited_enter (hnodes x hkeep) hnew
      have hfold : ∀ (l : List α) {walk : Walk α}, (∀ y ∈ l, keep y ∧ rank x < rank y) →
          Lists keep walk → Closed next keep walk.result →
          (∀ z, keep z → walk.IsOpen z → rank z ≤ rank x) → walk.unvisited nodes ≤ fuel →
          Closed next keep (l.foldl (visit next keep fuel) walk).result ∧
            ∀ y ∈ l, y ∈ (l.foldl (visit next keep fuel) walk).result := by
        intro l
        induction l with
        | nil => exact fun _ _ hclosed _ _ => ⟨hclosed, fun _ h => absurd h List.not_mem_nil⟩
        | cons y l ihl =>
          intro walk hl hlists hclosed hopen hfuel
          obtain ⟨hkeepy, hranky⟩ := hl y List.mem_cons_self
          obtain ⟨hextends, hstep⟩ := visit_spec next fuel y hlists
          have hopeny : ∀ z, keep z → walk.IsOpen z → rank z < rank y :=
            fun z hz h => Nat.lt_of_le_of_lt (hopen z hz h) hranky
          obtain ⟨hclosedy, hy⟩ := ih hkeepy hlists hclosed hopeny hfuel
            fun hvisited => Decidable.not_not.mp fun hresult =>
              Nat.lt_irrefl _ (hopeny y hkeepy ⟨hvisited, hresult⟩)
          obtain ⟨hclosedl, hmem⟩ := ihl (fun z hz => hl z (List.mem_cons_of_mem y hz)) hstep
            hclosedy (fun z hz h => hopen z hz ((hextends.isOpen z hz).mp h))
            (Nat.le_trans (unvisited_mono nodes hextends) hfuel)
          refine ⟨hclosedl, fun z hz => ?_⟩
          obtain rfl | hz := List.mem_cons.mp hz
          · exact (foldl_visit_spec fuel l hstep).1.result hy
          · exact hmem z hz
      have hentered : Lists keep (walk.enter x) :=
        ⟨hlists.nodup, fun y hy => List.mem_cons_of_mem x (hlists.visited hy), hlists.keep⟩
      obtain ⟨hbelow, hmem⟩ := hfold ((next x).filter keep)
        (fun y hy => by
          obtain ⟨hnext, hkeepy⟩ := List.mem_filter.mp hy
          exact ⟨hkeepy, hrank x y hkeep hkeepy hnext⟩)
        hentered hclosed
        (fun z hz h => by
          obtain rfl | hz' := List.mem_cons.mp h.1
          · exact Nat.le_refl _
          · exact Nat.le_of_lt (hopen z hz ⟨hz', h.2⟩))
        (by omega)
      rw [leave, if_pos hkeep]
      exact ⟨hbelow.append fun y hy hkeepy => hmem y (List.mem_filter.mpr ⟨hy, hkeepy⟩),
        List.mem_append_right _ List.mem_cons_self⟩

/-- Where a rank grows along the edges between kept nodes, the walk from all of them lists every
node after its successors. -/
theorem closed_postOrder (hrank : ∀ x y, keep x → keep y → y ∈ next x → rank x < rank y)
    {roots : List α} (hroots : ∀ x, keep x ↔ x ∈ roots) :
    Closed next keep (postOrder next keep roots) := by
  have hwalk : ∀ (l : List α) {walk : Walk α}, (∀ x ∈ l, keep x) → Lists keep walk →
      Closed next keep walk.result → (∀ z, keep z → ¬ walk.IsOpen z) →
      Closed next keep (l.foldl (visit next keep roots.length) walk).result := by
    intro l
    induction l with
    | nil => exact fun _ _ hclosed _ => hclosed
    | cons y l ih =>
      intro walk hl hlists hclosed hopen
      obtain ⟨hextends, hstep⟩ := visit_spec next roots.length y hlists
      have hy := visit_closed hrank (fun x => (hroots x).mp) roots.length
        (hl y List.mem_cons_self) hlists hclosed (fun z hz h => absurd h (hopen z hz))
        List.countP_le_length
      exact ih (fun z hz => hl z (List.mem_cons_of_mem y hz)) hstep hy.1
        fun z hz h => hopen z hz ((hextends.isOpen z hz).mp h)
  refine hwalk roots (fun x => (hroots x).mpr) lists_empty ?_ fun _ _ h => List.not_mem_nil h.1
  intro before x after heq
  exact absurd heq (by simp)

end Rank

/-- Where no kept node is reached from itself, the walk from all of them lists every node after its
successors. -/
theorem closed_postOrder_of_acyclic
    (hacyclic : ∀ x, ¬ Relation.TransGen (fun x y => keep x ∧ keep y ∧ y ∈ next x) x x)
    {roots : List α} (hroots : ∀ x, keep x ↔ x ∈ roots) :
    Closed next keep (postOrder next keep roots) := by
  classical
  let edge : α → α → Prop := fun x y => keep x ∧ keep y ∧ y ∈ next x
  let below : α → Finset α := fun x => roots.toFinset.filter fun z => Relation.TransGen edge z x
  have hrank : ∀ x y, keep x → keep y → y ∈ next x → (below x).card < (below y).card := by
    intro x y hx hy hnext
    have hedge : edge x y := ⟨hx, hy, hnext⟩
    refine Finset.card_lt_card (Finset.ssubset_iff_of_subset ?_ |>.mpr ⟨x, ?_, ?_⟩)
    · intro z hz
      obtain ⟨hroot, hpath⟩ := Finset.mem_filter.mp hz
      exact Finset.mem_filter.mpr ⟨hroot, hpath.tail hedge⟩
    · exact Finset.mem_filter.mpr ⟨List.mem_toFinset.mpr ((hroots x).mp hx), .single hedge⟩
    · exact fun hmem => hacyclic x (Finset.mem_filter.mp hmem).2
  exact closed_postOrder hrank hroots

end Walk

end Neemata
