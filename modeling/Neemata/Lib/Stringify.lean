import Neemata.Lib.JsValue
import Neemata.Lib.KeyOrder
import Mathlib.Order.WithBot

/-!
# JavaScript values and JSON

What `JSON.stringify` makes of a value and what `JSON.parse` makes of a text, both as the JSON value
that the text is of.
-/

namespace Neemata

open Json (JsString JsChar Number Value Member AllKeys)

/-! ## The order of own keys -/

/-- The number that an element stands for among the digits of a key. -/
def Json.JsChar.digit : JsChar → ℕ
  | .scalar c => c.toNat - '0'.toNat
  | .surrogate n => n

/-- The array index that a key is. -/
def arrayIndex? (key : JsString) : Option ℕ :=
  let n := key.foldl (fun value c => 10 * value + c.digit) 0
  if key = Json.ofString (toString n) ∧ n < 4294967295 then some n else none

/-- The array indices of an object come first, in ascending order, and its other keys follow in the
order of their creation. -/
def ownLE (a b : JsString) : Prop :=
  (arrayIndex? a).elim ⊤ WithTop.some ≤ ((arrayIndex? b).elim ⊤ WithTop.some : WithTop ℕ)

instance (a b : JsString) : Decidable (ownLE a b) := inferInstanceAs (Decidable (_ ≤ _))

instance : Std.Total ownLE := ⟨fun _ _ => le_total _ _⟩

instance : IsTrans JsString ownLE := ⟨fun _ _ _ => le_trans⟩

/-- `Object.fromEntries`, for entries of different keys. -/
def fromEntries {α : Type} (entries : List (JsString × α)) : List (JsString × α) :=
  sortBy ownLE entries

namespace JsValue

def zero : Number where
  text := ['0']
  ne_nil := nofun
  numeral := rfl

def minusZero : Number where
  text := ['-', '0']
  ne_nil := nofun
  numeral := rfl

/-! ## Writing -/

mutual

/-- The value that `JSON.stringify` writes; `none` is `undefined`. -/
def image : JsValue → Option (Value Empty)
  | .undefined | .func _ | .hole => none
  | .null | .num .nan | .num (.infinity _) => some .null
  | .bool b => some (.bool b)
  | .num (.finite n) => some (.num (if n = minusZero then zero else n))
  | .str s => some (.str s)
  | .arr items => some (.arr (imageItems items))
  | .obj entries => some (.obj (imageEntries entries))
  | .exotic _ json => json

def imageItems : List JsValue → List (Value Empty)
  | [] => []
  | v :: items => (image v).getD .null :: imageItems items

def imageEntries : List (JsString × JsValue) → List Member
  | [] => []
  | (k, v) :: entries =>
    match image v with
    | some j => (k, j) :: imageEntries entries
    | none => imageEntries entries

end

/-! ## Reading -/

mutual

/-- What `JSON.parse` gives for the text of a value. -/
def ofJson : Value Empty → JsValue
  | .null => .null
  | .bool b => .bool b
  | .num n => .num (.finite n)
  | .str s => .str s
  | .arr items => .arr (ofJsonItems items)
  | .obj members => .obj (fromEntries (ofJsonMembers members))

def ofJsonItems : List (Value Empty) → List JsValue
  | [] => []
  | v :: items => ofJson v :: ofJsonItems items

def ofJsonMembers : List Member → List (JsString × JsValue)
  | [] => []
  | (k, v) :: members => (k, ofJson v) :: ofJsonMembers members

end

theorem induct {P : JsValue → Prop} (undefined : P .undefined) (null : P .null)
    (bool : ∀ b, P (.bool b)) (num : ∀ n, P (.num n)) (str : ∀ s, P (.str s))
    (func : ∀ id, P (.func id)) (hole : P .hole)
    (arr : ∀ items : List JsValue, (∀ v ∈ items, P v) → P (.arr items))
    (obj : ∀ entries : List (JsString × JsValue), (∀ entry ∈ entries, P entry.2) →
      P (.obj entries))
    (exotic : ∀ (entries : List (JsString × JsValue)) json, (∀ entry ∈ entries, P entry.2) →
      P (.exotic entries json)) : ∀ v, P v :=
  @JsValue.rec P (fun items => ∀ v ∈ items, P v) (fun entries => ∀ entry ∈ entries, P entry.2)
    (fun entry => P entry.2) undefined null bool num str func hole arr obj
    (fun entries json h => exotic entries json h) nofun
    (fun _ _ hv hitems => List.forall_mem_cons.mpr ⟨hv, hitems⟩) nofun
    (fun _ _ hentry hentries => List.forall_mem_cons.mpr ⟨hentry, hentries⟩) fun _ _ hv => hv

theorem imageItems_eq_map (items : List JsValue) :
    imageItems items = items.map fun v => (image v).getD .null := by
  induction items with
  | nil => rfl
  | cons v items ih => rw [imageItems, ih, List.map_cons]

theorem imageEntries_eq_mapSome (entries : List (JsString × JsValue)) :
    imageEntries entries = mapSome image entries := by
  induction entries with
  | nil => rfl
  | cons entry entries ih =>
    rw [imageEntries, ih, mapSome, mapSome, List.filterMap_cons]
    cases image entry.2 <;> rfl

theorem image_arr (items : List JsValue) :
    image (.arr items) = some (.arr (items.map fun v => (image v).getD .null)) := by
  rw [image, imageItems_eq_map]

theorem image_obj (entries : List (JsString × JsValue)) :
    image (.obj entries) = some (.obj (mapSome image entries)) := by
  rw [image, imageEntries_eq_mapSome]

theorem ofJsonItems_eq_map (items : List (Value Empty)) :
    ofJsonItems items = items.map ofJson := by
  induction items with
  | nil => rfl
  | cons v items ih => rw [ofJsonItems, ih, List.map_cons]

theorem ofJsonMembers_eq_map (members : List Member) :
    ofJsonMembers members = members.map (Prod.map id ofJson) := by
  induction members with
  | nil => rfl
  | cons m members ih => rw [ofJsonMembers, ih, List.map_cons]; rfl

theorem ofJson_arr (items : List (Value Empty)) :
    ofJson (.arr items) = .arr (items.map ofJson) := by
  rw [ofJson, ofJsonItems_eq_map]

theorem ofJson_obj (members : List Member) :
    ofJson (.obj members) = .obj (fromEntries (members.map (Prod.map id ofJson))) := by
  rw [ofJson, ofJsonMembers_eq_map]

/-! ## Values of the language -/

/-- The keys of an object are different. -/
inductive WellFormed : JsValue → Prop
  | undefined : WellFormed .undefined
  | null : WellFormed .null
  | bool (b : Bool) : WellFormed (.bool b)
  | num (n : JsNumber) : WellFormed (.num n)
  | str (s : JsString) : WellFormed (.str s)
  | func (id : Nat) : WellFormed (.func id)
  | hole : WellFormed .hole
  | arr {items : List JsValue} (h : ∀ v ∈ items, WellFormed v) : WellFormed (.arr items)
  | obj {entries : List (JsString × JsValue)} (hkeys : (entries.map Prod.fst).Nodup)
    (h : ∀ entry ∈ entries, WellFormed entry.2) : WellFormed (.obj entries)
  | exotic {entries : List (JsString × JsValue)} {json : Option (Value Empty)}
    (hkeys : (entries.map Prod.fst).Nodup) (h : ∀ entry ∈ entries, WellFormed entry.2)
    (hjson : ∀ j ∈ json, AllKeys List.Nodup j) : WellFormed (.exotic entries json)

variable {v : JsValue}

theorem wellFormed_arr_iff {items : List JsValue} :
    WellFormed (.arr items) ↔ ∀ v ∈ items, WellFormed v := by
  refine ⟨fun h => ?_, .arr⟩
  cases h
  assumption

theorem wellFormed_obj_iff {entries : List (JsString × JsValue)} : WellFormed (.obj entries) ↔
    (entries.map Prod.fst).Nodup ∧ ∀ entry ∈ entries, WellFormed entry.2 := by
  refine ⟨fun h => ?_, fun h => .obj h.1 h.2⟩
  cases h
  exact ⟨‹_›, ‹_›⟩

theorem allKeys_items {P : List JsString → Prop} {f : JsValue → Option (Value Empty)}
    {items : List JsValue} (h : ∀ v ∈ items, ∀ j ∈ f v, AllKeys P j) :
    AllKeys P (.arr (items.map fun v => (f v).getD .null)) := by
  refine .arr fun j hj => ?_
  obtain ⟨v, hv, rfl⟩ := List.mem_map.mp hj
  cases hf : f v with
  | none => exact .null
  | some j => exact h v hv j hf

theorem nodup_entries {f : JsValue → Option (Value Empty)} {entries : List (JsString × JsValue)}
    (hkeys : (entries.map Prod.fst).Nodup)
    (h : ∀ entry ∈ entries, ∀ j ∈ f entry.2, AllKeys List.Nodup j) :
    AllKeys List.Nodup (.obj (mapSome f entries)) := by
  refine .obj (hkeys.sublist (mapSome_keys_sublist _ _)) fun m hm => ?_
  obtain ⟨entry, hentry, -, hm⟩ := mem_mapSome.mp hm
  exact h entry hentry m.2 hm

/-- So are those of what is written. -/
theorem WellFormed.image (hv : WellFormed v) : ∀ j ∈ v.image, AllKeys List.Nodup j := by
  induction hv with
  | undefined | func _ | hole => nofun
  | null =>
    rintro _ ⟨⟩
    exact .null
  | bool b =>
    rintro _ ⟨⟩
    exact .bool b
  | num n =>
    cases n with
    | nan | infinity _ =>
      rintro _ ⟨⟩
      exact .null
    | finite n =>
      rintro _ ⟨⟩
      exact .num _
  | str s =>
    rintro _ ⟨⟩
    exact .str s
  | arr _ ih =>
    rw [image_arr]
    rintro _ ⟨⟩
    exact allKeys_items ih
  | obj hkeys _ ih =>
    rw [image_obj]
    rintro _ ⟨⟩
    exact nodup_entries hkeys ih
  | exotic _ _ hjson => exact hjson

/-! ## What is read of a text -/

/-- A value that is written: a text has no `-0`. -/
inductive Written : Value Empty → Prop
  | null : Written .null
  | bool (b : Bool) : Written (.bool b)
  | num {n : Number} (h : n ≠ minusZero) : Written (.num n)
  | str (s : JsString) : Written (.str s)
  | arr {items : List (Value Empty)} (h : ∀ v ∈ items, Written v) : Written (.arr items)
  | obj {members : List Member} (h : ∀ m ∈ members, Written m.2) : Written (.obj members)

theorem Written.reorder {sort : List Member → List Member} (hperm : ∀ l, (sort l).Perm l)
    {j : Value Empty} (hj : Written j) : Written (Json.reorder sort j) := by
  induction hj with
  | null => exact .null
  | bool b => exact .bool b
  | num h => exact .num h
  | str s => exact .str s
  | arr _ ih =>
    rw [Json.reorder_arr]
    refine .arr fun v hv => ?_
    obtain ⟨w, hw, rfl⟩ := List.mem_map.mp hv
    exact ih w hw
  | obj _ ih =>
    rw [Json.reorder_obj]
    refine .obj fun m hm => ?_
    obtain ⟨m', hm', rfl⟩ := List.mem_map.mp ((hperm _).mem_iff.mp hm)
    exact ih m' hm'

end JsValue

end Neemata
