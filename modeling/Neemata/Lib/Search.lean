import Neemata.Lib.Trace
import Mathlib.Data.Finset.Card
import Mathlib.Data.Finset.Dedup
import Mathlib.Data.Finset.Filter
import Mathlib.Logic.Relation

/-!
# Searching a graph

`explore` goes depth-first through a graph in which a node has a list of items: labels, which it
collects, and other nodes, which it explores. On a graph that may have cycles it comes to an end,
and collects exactly the labels of the nodes that can be reached (`explore_exact`).
-/

namespace Neemata

/-- The state of a search: the nodes it has come to and the labels it has found. -/
structure Search (α β : Type*) where
  visited : List α := []
  found : List β := []

namespace Search

variable {α β : Type*} [DecidableEq α] [DecidableEq β] (items : α → List (β ⊕ α))

def add (s : Search α β) (b : β) : Search α β :=
  if b ∈ s.found then s else { s with found := s.found ++ [b] }

/-- What is done with an item; `visit` explores a node. -/
def take (visit : Search α β → α → Option (Search α β)) (s : Search α β) :
    β ⊕ α → Option (Search α β)
  | .inl b => some (s.add b)
  | .inr x => visit s x

/-- `none` stands for a search that has run out of fuel. -/
def explore : Nat → Search α β → α → Option (Search α β)
  | 0, _, _ => none
  | fuel + 1, s, x =>
    if x ∈ s.visited then some s
    else (items x).foldlM (take (explore fuel)) { s with visited := x :: s.visited }

def Edge (x y : α) : Prop := .inr y ∈ items x

def Reach : α → α → Prop := Relation.ReflTransGen (Edge items)

variable {items} {s t u : Search α β} {x y : α}

theorem explore_succ {fuel : Nat} (h : explore items fuel s x = some t) :
    explore items (fuel + 1) s x = some t := by
  induction fuel generalizing s x t with
  | zero => cases h
  | succ fuel ih =>
    rw [explore] at h ⊢
    split
    · next hold => rwa [if_pos hold] at h
    · next hnew =>
      rw [if_neg hnew] at h
      refine Trace.foldlM_option_mono (fun s i t hi => ?_) h
      cases i with
      | inl b => exact hi
      | inr y => exact ih hi

/-- More fuel finds the same. -/
theorem explore_mono {fuel fuel' : Nat} (hle : fuel ≤ fuel') (h : explore items fuel s x = some t) :
    explore items fuel' s x = some t := by
  induction hle with
  | refl => exact h
  | step _ ih => exact explore_succ ih

/-! ## What a search keeps -/

/-- The item has been taken. -/
def Met (s : Search α β) : β ⊕ α → Prop
  | .inl b => b ∈ s.found
  | .inr x => x ∈ s.visited

/-- A later search of what can be reached from `x`; the nodes it has come to are done with. -/
structure Grows (items : α → List (β ⊕ α)) (x : α) (s t : Search α β) : Prop where
  visited : s.visited ⊆ t.visited
  found : s.found ⊆ t.found
  nodup : s.found.Nodup → t.found.Nodup
  done : ∀ y ∈ t.visited, y ∈ s.visited ∨ (Reach items x y ∧ ∀ i ∈ items y, t.Met i)
  sound : ∀ b ∈ t.found, b ∈ s.found ∨ ∃ y, Reach items x y ∧ .inl b ∈ items y

omit [DecidableEq α] [DecidableEq β] in
theorem Met.mono {i : β ⊕ α} (h : s.Met i) (hvisited : s.visited ⊆ t.visited)
    (hfound : s.found ⊆ t.found) : t.Met i := by
  cases i with
  | inl b => exact hfound h
  | inr x => exact hvisited h

namespace Grows

omit [DecidableEq α] [DecidableEq β] in
theorem refl (x : α) (s : Search α β) : Grows items x s s where
  visited := List.Subset.refl _
  found := List.Subset.refl _
  nodup h := h
  done _ h := .inl h
  sound _ h := .inl h

omit [DecidableEq α] [DecidableEq β] in
theorem trans (hst : Grows items x s t) (htu : Grows items x t u) : Grows items x s u where
  visited := List.Subset.trans hst.visited htu.visited
  found := List.Subset.trans hst.found htu.found
  nodup h := htu.nodup (hst.nodup h)
  done y hy := by
    rcases htu.done y hy with hy | hy
    · refine (hst.done y hy).imp_right fun ⟨hreach, hmet⟩ => ⟨hreach, fun i hi => ?_⟩
      exact (hmet i hi).mono htu.visited htu.found
    · exact .inr hy
  sound b hb := by
    rcases htu.sound b hb with hb | hb
    · exact hst.sound b hb
    · exact .inr hb

omit [DecidableEq α] [DecidableEq β] in
/-- What was reached from a successor. -/
theorem of_edge (h : Grows items y s t) (hedge : Edge items x y) : Grows items x s t := { h with
  done z hz := (h.done z hz).imp_right fun ⟨hreach, hmet⟩ => ⟨.head hedge hreach, hmet⟩
  sound b hb := (h.sound b hb).imp_right fun ⟨z, hreach, hmem⟩ => ⟨z, .head hedge hreach, hmem⟩ }

omit [DecidableEq α] in
theorem add {b : β} (hb : .inl b ∈ items x) (s : Search α β) :
    Grows items x s (s.add b) ∧ b ∈ (s.add b).found := by
  unfold Search.add
  split
  · next hmem => exact ⟨refl x s, hmem⟩
  · next hnew =>
    refine ⟨⟨List.Subset.refl _, List.subset_append_left _ _, fun h => ?_, fun _ h => .inl h,
      fun c hc => ?_⟩, List.mem_append_right _ List.mem_cons_self⟩
    · exact List.Nodup.append h (List.nodup_singleton b) (by simpa using hnew)
    · rcases List.mem_append.mp hc with hc | hc
      · exact .inl hc
      · exact .inr ⟨x, .refl, List.mem_singleton.mp hc ▸ hb⟩

end Grows

/-- The nodes that are left to come to. -/
def left (nodes : List α) (s : Search α β) : Nat :=
  (nodes.toFinset.filter (· ∉ s.visited)).card

omit [DecidableEq β] in
theorem left_mono {nodes : List α} (h : s.visited ⊆ t.visited) : left nodes t ≤ left nodes s := by
  refine Finset.card_le_card fun x hx => ?_
  obtain ⟨hmem, hnew⟩ := Finset.mem_filter.mp hx
  exact Finset.mem_filter.mpr ⟨hmem, fun hold => hnew (h hold)⟩

omit [DecidableEq β] in
theorem left_visit {nodes : List α} (hx : x ∈ nodes) (hnew : x ∉ s.visited) :
    left nodes { s with visited := x :: s.visited } < left nodes s := by
  have hsubset : nodes.toFinset.filter (· ∉ x :: s.visited) ⊆
      nodes.toFinset.filter (· ∉ s.visited) := by
    intro y hy
    obtain ⟨hmem, hy⟩ := Finset.mem_filter.mp hy
    exact Finset.mem_filter.mpr ⟨hmem, fun hold => hy (List.mem_cons_of_mem x hold)⟩
  refine Finset.card_lt_card ((Finset.ssubset_iff_of_subset hsubset).mpr ⟨x, ?_, fun h => ?_⟩)
  · exact Finset.mem_filter.mpr ⟨List.mem_toFinset.mpr hx, hnew⟩
  · exact (Finset.mem_filter.mp h).2 List.mem_cons_self

/-! ## The items of a node, and the node -/

theorem foldlM_take {nodes : List α} {bound : Nat}
    {visit : Search α β → α → Option (Search α β)}
    (hvisit : ∀ s y, y ∈ nodes → left nodes s < bound →
      ∃ t, visit s y = some t ∧ Grows items y s t ∧ y ∈ t.visited)
    {l : List (β ⊕ α)} (hl : ∀ i ∈ l, i ∈ items x) (hnodes : ∀ y, .inr y ∈ l → y ∈ nodes)
    (hbound : left nodes s < bound) :
    ∃ t, l.foldlM (take visit) s = some t ∧ Grows items x s t ∧ ∀ i ∈ l, t.Met i := by
  induction l generalizing s with
  | nil => exact ⟨s, rfl, .refl x s, fun _ h => by cases h⟩
  | cons i l ih =>
    have hitem : ∃ t, take visit s i = some t ∧ Grows items x s t ∧ t.Met i := by
      cases i with
      | inl b => exact ⟨_, rfl, Grows.add (hl _ List.mem_cons_self) s⟩
      | inr y =>
        obtain ⟨t, ht, hgrows, hmem⟩ := hvisit s y (hnodes y List.mem_cons_self) hbound
        exact ⟨t, ht, hgrows.of_edge (hl _ List.mem_cons_self), hmem⟩
    obtain ⟨t, ht, hgrows, hmet⟩ := hitem
    obtain ⟨u, hu, hrest, hmets⟩ := ih (fun j hj => hl j (List.mem_cons_of_mem i hj))
      (fun y hy => hnodes y (List.mem_cons_of_mem i hy))
      (Nat.lt_of_le_of_lt (left_mono hgrows.visited) hbound)
    refine ⟨u, ?_, hgrows.trans hrest, List.forall_mem_cons.mpr ⟨?_, hmets⟩⟩
    · rw [List.foldlM_cons, ht]
      exact hu
    · exact hmet.mono hrest.visited hrest.found

/-- With more fuel than there are nodes left, the node is explored. -/
theorem explore_grows {nodes : List α} (hnodes : ∀ x ∈ nodes, ∀ y, Edge items x y → y ∈ nodes)
    (fuel : Nat) (s : Search α β) (x : α) (hx : x ∈ nodes) (hfuel : left nodes s < fuel) :
    ∃ t, explore items fuel s x = some t ∧ Grows items x s t ∧ x ∈ t.visited := by
  induction fuel generalizing s x with
  | zero => cases hfuel
  | succ fuel ih =>
    rw [explore]
    split
    · next hold => exact ⟨s, rfl, .refl x s, hold⟩
    · next hnew =>
      have hleft := left_visit hx hnew
      obtain ⟨t, ht, hgrows, hmet⟩ := foldlM_take (x := x)
        (s := { s with visited := x :: s.visited }) ih (fun i (h : i ∈ items x) => h) (hnodes x hx)
        (by omega)
      refine ⟨t, ht, ⟨?_, hgrows.found, hgrows.nodup, fun y hy => ?_, hgrows.sound⟩,
        hgrows.visited List.mem_cons_self⟩
      · exact List.Subset.trans (List.subset_cons_self x _) hgrows.visited
      · rcases hgrows.done y hy with hold | hdone
        · rcases List.mem_cons.mp hold with rfl | hold
          · exact .inr ⟨.refl, hmet⟩
          · exact .inl hold
        · exact .inr hdone

/-- A search from the start collects exactly the labels of the nodes that can be reached. -/
theorem explore_exact {nodes : List α} (hnodes : ∀ x ∈ nodes, ∀ y, Edge items x y → y ∈ nodes)
    (hx : x ∈ nodes) {fuel : Nat} (hfuel : nodes.length < fuel) :
    ∃ t : Search α β, explore items fuel {} x = some t ∧ t.found.Nodup ∧
      ∀ b, b ∈ t.found ↔ ∃ y, Reach items x y ∧ .inl b ∈ items y := by
  have hleft : left nodes ({} : Search α β) ≤ nodes.length :=
    (Finset.card_filter_le _ _).trans nodes.toFinset_card_le
  obtain ⟨t, ht, hgrows, hmem⟩ := explore_grows hnodes fuel {} x hx (by omega)
  have hdone : ∀ y ∈ t.visited, ∀ i ∈ items y, t.Met i := by
    intro y hy
    rcases hgrows.done y hy with hy | hy
    · cases hy
    · exact hy.2
  have hreached : ∀ y, Reach items x y → y ∈ t.visited := by
    intro y hreach
    induction hreach with
    | refl => exact hmem
    | tail _ hedge ih => exact hdone _ ih _ hedge
  refine ⟨t, ht, hgrows.nodup List.nodup_nil, fun b => ⟨fun hb => ?_, ?_⟩⟩
  · rcases hgrows.sound b hb with hb | hb
    · cases hb
    · exact hb
  · rintro ⟨y, hreach, hb⟩
    exact hdone y (hreached y hreach) _ hb

end Search

end Neemata
