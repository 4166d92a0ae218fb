import Neemata.Lib.Json
import Mathlib.Data.List.Lex
import Mathlib.Data.List.Sort
import Mathlib.Data.Prod.Lex

/-!
# The order of keys

Sorts by the keys of lists of entries, and what they make of the members of each object of a JSON
value. A sort that does not depend on the order it is given undoes every other one
(`reorder_reorder`); two values are the same up to the order of keys if `canon` makes them equal.
-/

namespace Neemata

/-! ## Sorting by keys -/

section

variable {κ α β : Type} {le le' : κ → κ → Prop} [DecidableRel le] [DecidableRel le']

/-- A stable sort by the keys. -/
def sortBy (le : κ → κ → Prop) [DecidableRel le] (l : List (κ × α)) : List (κ × α) :=
  l.insertionSort fun a b => le a.1 b.1

/-- The entries whose values `f` maps. -/
def mapSome (f : α → Option β) (l : List (κ × α)) : List (κ × β) :=
  l.filterMap fun entry => (f entry.2).map (Prod.mk entry.1)

theorem mapSome_keys_sublist (f : α → Option β) (l : List (κ × α)) :
    ((mapSome f l).map Prod.fst).Sublist (l.map Prod.fst) := by
  induction l with
  | nil => exact .slnil
  | cons entry l ih =>
    rw [mapSome, List.filterMap_cons, List.map_cons]
    cases f entry.2 with
    | none => exact ih.cons _
    | some value => exact ih.cons_cons _

theorem mapSome_keys {f : α → Option β} {l : List (κ × α)}
    (h : ∀ entry ∈ l, ∃ value, f entry.2 = some value) :
    (mapSome f l).map Prod.fst = l.map Prod.fst := by
  induction l with
  | nil => rfl
  | cons entry l ih =>
    obtain ⟨⟨value, hvalue⟩, hl⟩ := List.forall_mem_cons.mp h
    rw [mapSome, List.filterMap_cons, hvalue]
    exact congrArg (List.cons entry.1) (ih hl)

theorem mem_mapSome {f : α → Option β} {l : List (κ × α)} {m : κ × β} :
    m ∈ mapSome f l ↔ ∃ entry ∈ l, entry.1 = m.1 ∧ f entry.2 = some m.2 := by
  rw [mapSome, List.mem_filterMap]
  constructor
  · rintro ⟨entry, hentry, h⟩
    obtain ⟨value, hvalue, rfl⟩ := Option.map_eq_some_iff.mp h
    exact ⟨entry, hentry, rfl, hvalue⟩
  · rintro ⟨entry, hentry, hkey, h⟩
    exact ⟨entry, hentry, by rw [h, hkey]; rfl⟩

theorem sortBy_perm (l : List (κ × α)) : (sortBy le l).Perm l := List.perm_insertionSort _ l

variable [Std.Total le] [IsTrans κ le] [Std.Total le'] [IsTrans κ le']

instance total_keys : Std.Total fun a b : κ × α => le a.1 b.1 :=
  ⟨fun a b => Std.Total.total a.1 b.1⟩

instance isTrans_keys : IsTrans (κ × α) fun a b => le a.1 b.1 :=
  ⟨fun a b c => IsTrans.trans a.1 b.1 c.1⟩

theorem sortBy_pairwise (l : List (κ × α)) : (sortBy le l).Pairwise fun a b => le a.1 b.1 :=
  List.pairwise_insertionSort _ l

/-- Without ties the sort does not depend on the order that it is given. -/
theorem sortBy_eq_of_perm {l l' : List (κ × α)} (hperm : l.Perm l')
    (h : ∀ a ∈ l, ∀ b ∈ l, le a.1 b.1 → le b.1 a.1 → a = b) : sortBy le l = sortBy le l' := by
  have hsorted : (sortBy le l).Perm (sortBy le l') :=
    (sortBy_perm l).trans (hperm.trans (sortBy_perm l').symm)
  refine hsorted.eq_of_pairwise (fun a b ha hb => ?_) (sortBy_pairwise l) (sortBy_pairwise l')
  have ha' := (sortBy_perm l).mem_iff.mp ha
  have hb' := hperm.mem_iff.mpr ((sortBy_perm l').mem_iff.mp hb)
  exact h a ha' b hb'

end

/-! ## The members of objects -/

namespace Json

/-- A member of an object. -/
abbrev Member := JsString × Value Empty

theorem Value.induct {P : Value Empty → Prop} (null : P .null) (bool : ∀ b, P (.bool b))
    (num : ∀ n, P (.num n)) (str : ∀ s, P (.str s))
    (arr : ∀ items : List (Value Empty), (∀ v ∈ items, P v) → P (.arr items))
    (obj : ∀ members : List Member, (∀ m ∈ members, P m.2) → P (.obj members)) : ∀ v, P v :=
  @Value.rec Empty P (fun items => ∀ v ∈ items, P v) (fun members => ∀ m ∈ members, P m.2)
    (fun m => P m.2) null bool num str arr obj nofun nofun
    (fun _ _ hv hitems => List.forall_mem_cons.mpr ⟨hv, hitems⟩) nofun
    (fun _ _ hm hmembers => List.forall_mem_cons.mpr ⟨hm, hmembers⟩) fun _ _ hv => hv

variable (sort sort' : List Member → List Member)

mutual

/-- `sort` puts the members of each object, of the inner ones first. -/
def reorder : Value Empty → Value Empty
  | .null => .null
  | .bool b => .bool b
  | .num n => .num n
  | .str s => .str s
  | .arr items => .arr (reorderItems items)
  | .obj members => .obj (sort (reorderMembers members))

def reorderItems : List (Value Empty) → List (Value Empty)
  | [] => []
  | v :: items => reorder v :: reorderItems items

def reorderMembers : List Member → List Member
  | [] => []
  | (k, v) :: members => (k, reorder v) :: reorderMembers members

end

variable {sort sort'}

theorem reorderItems_eq_map (items : List (Value Empty)) :
    reorderItems sort items = items.map (reorder sort) := by
  induction items with
  | nil => rfl
  | cons v items ih => rw [reorderItems, ih, List.map_cons]

theorem reorderMembers_eq_map (members : List Member) :
    reorderMembers sort members = members.map (Prod.map id (reorder sort)) := by
  induction members with
  | nil => rfl
  | cons m members ih => rw [reorderMembers, ih, List.map_cons]; rfl

theorem reorder_arr (items : List (Value Empty)) :
    reorder sort (.arr items) = .arr (items.map (reorder sort)) := by
  rw [reorder, reorderItems_eq_map]

theorem reorder_obj (members : List Member) :
    reorder sort (.obj members) = .obj (sort (members.map (Prod.map id (reorder sort)))) := by
  rw [reorder, reorderMembers_eq_map]

/-- The keys of each object of a value are as `P` says. -/
inductive AllKeys (P : List JsString → Prop) : Value Empty → Prop
  | null : AllKeys P .null
  | bool (b : Bool) : AllKeys P (.bool b)
  | num (n : Number) : AllKeys P (.num n)
  | str (s : JsString) : AllKeys P (.str s)
  | arr {items : List (Value Empty)} (h : ∀ v ∈ items, AllKeys P v) : AllKeys P (.arr items)
  | obj {members : List Member} (hkeys : P (members.map Prod.fst))
    (h : ∀ m ∈ members, AllKeys P m.2) : AllKeys P (.obj members)

theorem allKeys_arr_iff {P : List JsString → Prop} {items : List (Value Empty)} :
    AllKeys P (.arr items) ↔ ∀ v ∈ items, AllKeys P v := by
  refine ⟨fun h => ?_, .arr⟩
  cases h
  assumption

theorem allKeys_obj_iff {P : List JsString → Prop} {members : List Member} :
    AllKeys P (.obj members) ↔ P (members.map Prod.fst) ∧ ∀ m ∈ members, AllKeys P m.2 := by
  refine ⟨fun h => ?_, fun h => .obj h.1 h.2⟩
  cases h
  exact ⟨‹_›, ‹_›⟩

/-- What `sort` makes of members depends only on their set, if their keys are as `P` says. -/
structure Settles (P : List JsString → Prop) (sort : List Member → List Member) : Prop where
  perm : ∀ l, (sort l).Perm l
  eq_of_perm : ∀ l l', l.Perm l' → P (l.map Prod.fst) → sort l = sort l'

variable {P : List JsString → Prop} {v : Value Empty}

theorem map_fst_map (f : Value Empty → Value Empty) (members : List Member) :
    (members.map (Prod.map id f)).map Prod.fst = members.map Prod.fst := by
  rw [List.map_map]
  rfl

/-- The order of members does not matter to what holds of the keys. -/
theorem AllKeys.reorder (hperm : ∀ l, (sort l).Perm l)
    (hP : ∀ keys keys' : List JsString, keys.Perm keys' → P keys → P keys') (hv : AllKeys P v) :
    AllKeys P (reorder sort v) := by
  induction hv with
  | null => exact .null
  | bool b => exact .bool b
  | num n => exact .num n
  | str s => exact .str s
  | arr _ ih =>
    rw [reorder_arr]
    exact .arr fun v hv => by
      obtain ⟨w, hw, rfl⟩ := List.mem_map.mp hv
      exact ih w hw
  | @obj members hkeys _ ih =>
    rw [reorder_obj]
    have hsame := hperm (members.map (Prod.map id (Json.reorder sort)))
    refine .obj (hP _ _ (hsame.map Prod.fst).symm (by rwa [map_fst_map])) fun m hm => ?_
    obtain ⟨m', hm', rfl⟩ := List.mem_map.mp (hsame.mem_iff.mp hm)
    exact ih m' hm'

def JsChar.code : JsChar → ℕ
  | .scalar c => c.toNat
  | .surrogate n => 0xD800 + n

/-- The code units of an element. -/
def JsChar.units : JsChar → List ℕ
  | .scalar c =>
    if c.toNat < 0x10000 then [c.toNat]
    else [0xD800 + (c.toNat - 0x10000) / 0x400, 0xDC00 + (c.toNat - 0x10000) % 0x400]
  | .surrogate n => [0xD800 + n]

/-- Strings are compared by their code units. Two halves that make up a character have those of the
character; no string holds them, and they are put behind it. -/
def unitsLE (a b : JsString) : Prop :=
  toLex (a.flatMap JsChar.units, a.map JsChar.code) ≤
    toLex (b.flatMap JsChar.units, b.map JsChar.code)

instance (a b : JsString) : Decidable (unitsLE a b) := inferInstanceAs (Decidable (_ ≤ _))

instance : Std.Total unitsLE := ⟨fun _ _ => le_total _ _⟩

instance : IsTrans JsString unitsLE := ⟨fun _ _ _ => le_trans⟩

theorem JsChar.code_ne (c : Char) (n : Fin 2048) : c.toNat ≠ 0xD800 + n := by
  have hvalid : c.toNat.isValidChar := c.valid
  rcases hvalid with h | ⟨h, -⟩ <;> omega

theorem JsChar.code_injective : Function.Injective JsChar.code := by
  intro a b h
  cases a with
  | scalar c =>
    cases b with
    | scalar c' => exact congrArg _ (Char.toNat_inj.mp h)
    | surrogate n => exact absurd h (JsChar.code_ne c n)
  | surrogate n =>
    cases b with
    | scalar c => exact absurd h.symm (JsChar.code_ne c n)
    | surrogate n' => exact congrArg _ (Fin.ext (Nat.add_left_cancel h))

theorem unitsLE_antisymm {a b : JsString} (h : unitsLE a b) (h' : unitsLE b a) : a = b := by
  have heq := congrArg (fun x => (ofLex x).2) (le_antisymm h h')
  exact List.map_injective_iff.mpr JsChar.code_injective heq

/-- One order of members for all values that are the same up to it. -/
def canon (v : Value Empty) : Value Empty := reorder (sortBy unitsLE) v

theorem settles_sortBy_unitsLE : Settles List.Nodup (sortBy unitsLE) where
  perm := sortBy_perm
  eq_of_perm _ _ hperm hnodup := sortBy_eq_of_perm hperm fun _ ha _ hb hab hba =>
    List.inj_on_of_nodup_map hnodup ha hb (unitsLE_antisymm hab hba)

theorem canon_arr (items : List (Value Empty)) : canon (.arr items) = .arr (items.map canon) :=
  reorder_arr items

theorem canon_obj (members : List Member) :
    canon (.obj members) = .obj (sortBy unitsLE (members.map (Prod.map id canon))) :=
  reorder_obj members

theorem canon_obj_eq_iff {members members' : List Member} (hnodup : (members.map Prod.fst).Nodup) :
    canon (.obj members) = canon (.obj members') ↔
      (members.map (Prod.map id canon)).Perm (members'.map (Prod.map id canon)) := by
  rw [canon_obj, canon_obj]
  constructor
  · intro h
    have hsorted := List.Perm.of_eq (Value.obj.inj h)
    exact (sortBy_perm _).symm.trans (hsorted.trans (sortBy_perm _))
  · exact fun h => congrArg _ (settles_sortBy_unitsLE.eq_of_perm _ _ h (by rwa [map_fst_map]))

end Json

end Neemata
