import Neemata.Lib.Stringify

/-!
# Comparing with a stored value

`sameValue` of `adapters/postgres/sql.ts` compares a value that went through JSON and `jsonb` with
one that did not. It finds the second to be what the first says exactly if its own entries make up
that JSON value (`sameValue_iff`).
-/

namespace Neemata.Workflows.Postgres

open Json (JsString Value Member AllKeys canon)
open JsValue (image ofJson WellFormed)

/-! ## The source -/

/-- `right[index]` where there is an empty slot. -/
def element : JsValue → JsValue
  | .hole => .undefined
  | v => v

/-- `Object.keys(value).sort()` -/
def sortedKeys (entries : List (JsString × JsValue)) : List JsString :=
  (entries.map Prod.fst).insertionSort Json.unitsLE

mutual

/-- `sameValue`, of a value that shares no object with the other. -/
def sameValue : JsValue → JsValue → Bool
  | .arr items, right =>
    match right with
    | .arr items' => items.length = items'.length && sameItems items items'
    | _ => false
  | .obj entries, right | .exotic entries _, right =>
    match right.entries? with
    | some entries' => sortedKeys entries = sortedKeys entries' && sameEntries entries entries'
    | none => false
  | left, right => JsValue.sameLeaf left right

/-- `left.every((item, index) => sameValue(item, right[index]))` -/
def sameItems : List JsValue → List JsValue → Bool
  | [], _ => true
  | .hole :: items, items' => sameItems items items'.tail
  | item :: items, items' =>
    sameValue item (element (items'.headD .undefined)) && sameItems items items'.tail

/-- Whether the values of all keys are the same. -/
def sameEntries : List (JsString × JsValue) → List (JsString × JsValue) → Bool
  | [], _ => true
  | (key, item) :: entries, entries' =>
    sameValue item (JsValue.property entries' key) && sameEntries entries entries'

end

/-! ## What a value is made of -/

mutual

/-- The JSON value that the own entries of a value make up. -/
def reading : JsValue → Option (Value Empty)
  | .null => some .null
  | .bool b => some (.bool b)
  | .num (.finite n) => some (.num n)
  | .str s => some (.str s)
  | .arr items => (readingItems items).map .arr
  | .obj entries | .exotic entries _ => (readingEntries entries).map .obj
  | .undefined | .num .nan | .num (.infinity _) | .func _ | .hole => none

def readingItems : List JsValue → Option (List (Value Empty))
  | [] => some []
  | v :: items =>
    match reading v, readingItems items with
    | some j, some js => some (j :: js)
    | _, _ => none

def readingEntries : List (JsString × JsValue) → Option (List Json.Member)
  | [] => some []
  | (k, v) :: entries =>
    match reading v, readingEntries entries with
    | some j, some members => some ((k, j) :: members)
    | _, _ => none

end

theorem readingItems_eq_some_iff {items : List JsValue} {js : List (Value Empty)} :
    readingItems items = some js ↔ List.Forall₂ (fun v j => reading v = some j) items js := by
  induction items generalizing js with
  | nil =>
    rw [List.forall₂_nil_left_iff, readingItems, Option.some.injEq, eq_comm]
  | cons v items ih =>
    rw [readingItems, List.forall₂_cons_left_iff]
    constructor
    · intro h
      split at h
      · next j js' hj hjs =>
        cases h
        exact ⟨j, js', hj, ih.mp hjs, rfl⟩
      · cases h
    · rintro ⟨j, js', hj, hjs, rfl⟩
      rw [hj, ih.mpr hjs]

theorem exists_readingEntries {entries : List (JsString × JsValue)}
    (h : ∀ entry ∈ entries, ∃ j, reading entry.2 = some j) :
    ∃ members, readingEntries entries = some members := by
  induction entries with
  | nil => exact ⟨[], rfl⟩
  | cons entry entries ih =>
    obtain ⟨⟨j, hj⟩, hentries⟩ := List.forall_mem_cons.mp h
    obtain ⟨members, hmembers⟩ := ih hentries
    exact ⟨(entry.1, j) :: members, by rw [readingEntries, hj, hmembers]⟩

/-- The members that are read are those of the entries. -/
theorem mem_of_readingEntries {entries : List (JsString × JsValue)} {members : List Json.Member}
    (h : readingEntries entries = some members) :
    members.map Prod.fst = entries.map Prod.fst ∧
      ∀ m, m ∈ members ↔ ∃ entry ∈ entries, entry.1 = m.1 ∧ reading entry.2 = some m.2 := by
  induction entries generalizing members with
  | nil =>
    cases h
    exact ⟨rfl, fun m => ⟨nofun, nofun⟩⟩
  | cons entry entries ih =>
    rw [readingEntries] at h
    split at h
    · next j members' hj hmembers =>
      cases h
      obtain ⟨hkeys, hmem⟩ := ih hmembers
      refine ⟨congrArg (List.cons _) hkeys, fun m => ?_⟩
      rw [List.mem_cons, hmem, List.exists_mem_cons_iff]
      refine or_congr ⟨?_, ?_⟩ Iff.rfl
      · rintro rfl
        exact ⟨rfl, hj⟩
      · rintro ⟨hkey, hread⟩
        exact Prod.ext hkey.symm (Option.some.inj (hread.symm.trans hj))
    · cases h

theorem reading_element (v : JsValue) : reading (element v) = reading v := by
  cases v <;> rfl

theorem wellFormed_element {v : JsValue} (hv : WellFormed v) : WellFormed (element v) := by
  cases hv with
  | hole => exact .undefined
  | undefined => exact .undefined
  | null => exact .null
  | bool b => exact .bool b
  | num n => exact .num n
  | str s => exact .str s
  | func id => exact .func id
  | arr h => exact .arr h
  | obj hkeys h => exact .obj hkeys h
  | exotic hkeys h hjson => exact .exotic hkeys h hjson

/-! ## What is found to be the same -/

theorem sortedKeys_eq_iff {entries entries' : List (JsString × JsValue)} :
    sortedKeys entries = sortedKeys entries' ↔
      (entries.map Prod.fst).Perm (entries'.map Prod.fst) := by
  have hperm : ∀ entries, (sortedKeys entries).Perm (entries.map Prod.fst) := fun entries =>
    List.perm_insertionSort _ _
  constructor
  · exact fun h => (hperm entries).symm.trans ((List.Perm.of_eq h).trans (hperm entries'))
  · intro h
    have hsame := (hperm entries).trans (h.trans (hperm entries').symm)
    exact hsame.eq_of_pairwise (fun _ _ _ _ => Json.unitsLE_antisymm)
      (List.pairwise_insertionSort _ _) (List.pairwise_insertionSort _ _)

theorem property_of_mem {entries : List (JsString × JsValue)} {entry : JsString × JsValue}
    (hnodup : (entries.map Prod.fst).Nodup) (h : entry ∈ entries) :
    JsValue.property entries entry.1 = entry.2 := by
  unfold JsValue.property
  induction entries with
  | nil => cases h
  | cons first entries ih =>
    obtain ⟨hfirst, hnodup⟩ := List.nodup_cons.mp hnodup
    rcases List.mem_cons.mp h with rfl | h
    · rw [List.find?_cons_of_pos (by simp)]
      rfl
    · have hne : first.1 ≠ entry.1 := fun heq => hfirst (heq ▸ List.mem_map_of_mem h)
      rw [List.find?_cons_of_neg (by simpa using hne)]
      exact ih hnodup h

theorem sameEntries_iff {entries entries' : List (JsString × JsValue)} :
    sameEntries entries entries' = true ↔
      ∀ entry ∈ entries, sameValue entry.2 (JsValue.property entries' entry.1) = true := by
  induction entries with
  | nil => exact ⟨fun _ => nofun, fun _ => rfl⟩
  | cons entry entries ih => rw [sameEntries, Bool.and_eq_true, ih, List.forall_mem_cons]

theorem sameItems_ofJson (j : Value Empty) (items : List JsValue) (v : JsValue)
    (items' : List JsValue) : sameItems (ofJson j :: items) (v :: items') =
      (sameValue (ofJson j) (element v) && sameItems items items') := by
  cases j with
  | null | bool _ | num _ | str _ | arr _ | obj _ => rfl
  | ref b => cases b

theorem sameItems_iff {same : Value Empty → JsValue → Prop} {js : List (Value Empty)}
    {items : List JsValue}
    (h : ∀ j ∈ js, ∀ v ∈ items, sameValue (ofJson j) (element v) = true ↔ same j v) :
    (js.length = items.length ∧ sameItems (js.map ofJson) items = true) ↔
      List.Forall₂ same js items := by
  induction js generalizing items with
  | nil =>
    rw [List.forall₂_nil_left_iff, List.length_nil, eq_comm, List.length_eq_zero_iff]
    exact ⟨And.left, fun h => ⟨h, rfl⟩⟩
  | cons j js ih =>
    cases items with
    | nil => exact ⟨fun h => absurd h.1 (Nat.succ_ne_zero _), nofun⟩
    | cons v items =>
      have hv := h j List.mem_cons_self v List.mem_cons_self
      have ih := ih fun j hj v hv => h j (List.mem_cons_of_mem _ hj) v (List.mem_cons_of_mem _ hv)
      rw [List.map_cons, sameItems_ofJson, Bool.and_eq_true, hv, List.length_cons,
        List.length_cons, Nat.add_right_cancel_iff, and_left_comm, ih, List.forall₂_cons]

theorem sameAs_items {js : List (Value Empty)} {items : List JsValue} :
    List.Forall₂ (fun j v => ∃ j', reading v = some j' ∧ canon j = canon j') js items ↔
      ∃ js', readingItems items = some js' ∧ js.map canon = js'.map canon := by
  induction js generalizing items with
  | nil =>
    rw [List.forall₂_nil_left_iff]
    constructor
    · rintro rfl
      exact ⟨[], rfl, rfl⟩
    · rintro ⟨js', hread, hmap⟩
      rw [List.map_eq_nil_iff.mp hmap.symm] at hread
      exact List.forall₂_nil_right_iff.mp (readingItems_eq_some_iff.mp hread)
  | cons j js ih =>
    rw [List.forall₂_cons_left_iff]
    constructor
    · rintro ⟨v, items, ⟨j', hread, hj⟩, hitems, rfl⟩
      obtain ⟨js', hreads, hmap⟩ := ih.mp hitems
      refine ⟨j' :: js', ?_, ?_⟩
      · rw [readingItems, hread, hreads]
      · rw [List.map_cons, List.map_cons, hj, hmap]
    · rintro ⟨js', hreads, hmap⟩
      obtain ⟨j', js', rfl, hj, hjs⟩ := List.map_eq_cons_iff.mp hmap.symm
      have hforall := readingItems_eq_some_iff.mp hreads
      obtain ⟨v, items, hread, hitems, rfl⟩ := List.forall₂_cons_right_iff.mp hforall
      exact ⟨v, items, ⟨j', hread, hj.symm⟩,
        ih.mpr ⟨js', readingItems_eq_some_iff.mpr hitems, hjs.symm⟩, rfl⟩

theorem reading_arr_iff {js : List (Value Empty)} {items : List JsValue} :
    (∃ j', reading (.arr items) = some j' ∧ canon (.arr js) = canon j') ↔
      List.Forall₂ (fun j v => ∃ j', reading v = some j' ∧ canon j = canon j') js items := by
  rw [sameAs_items, reading, Json.canon_arr]
  constructor
  · rintro ⟨j', hread, hcanon⟩
    obtain ⟨js', hreads, rfl⟩ := Option.map_eq_some_iff.mp hread
    rw [Json.canon_arr] at hcanon
    exact ⟨js', hreads, Value.arr.inj hcanon⟩
  · rintro ⟨js', hreads, hmap⟩
    exact ⟨.arr js', by rw [hreads]; rfl, by rw [Json.canon_arr, hmap]⟩

theorem sameAs_entries {members : List Json.Member} {entries : List (JsString × JsValue)}
    (hmembers : (members.map Prod.fst).Nodup) (hentries : (entries.map Prod.fst).Nodup) :
    ((members.map Prod.fst).Perm (entries.map Prod.fst) ∧
      ∀ m ∈ members, ∃ j, reading (JsValue.property entries m.1) = some j ∧ canon m.2 = canon j) ↔
    ∃ members', readingEntries entries = some members' ∧
      canon (.obj members) = canon (.obj members') := by
  constructor
  · rintro ⟨hkeys, hsame⟩
    have hread : ∀ entry ∈ entries, ∃ x, (entry.1, x) ∈ members ∧
        ∃ j, reading entry.2 = some j ∧ canon x = canon j := by
      intro entry hentry
      obtain ⟨m, hm, heq⟩ := List.mem_map.mp (hkeys.mem_iff.mpr (List.mem_map_of_mem hentry))
      obtain ⟨j, hj, hcanon⟩ := hsame m hm
      rw [heq, property_of_mem hentries hentry] at hj
      exact ⟨m.2, heq ▸ hm, j, hj, hcanon⟩
    obtain ⟨members', hmembers'⟩ := exists_readingEntries fun entry hentry => by
      obtain ⟨-, -, j, hj, -⟩ := hread entry hentry
      exact ⟨j, hj⟩
    obtain ⟨hkeys', hmem⟩ := mem_of_readingEntries hmembers'
    refine ⟨members', hmembers', (Json.canon_obj_eq_iff hmembers).mpr ?_⟩
    have hnodup : (members.map (Prod.map id canon)).Nodup :=
      List.Nodup.of_map Prod.fst (by rwa [Json.map_fst_map])
    refine (List.subperm_of_subset hnodup fun m' hm' => ?_).perm_of_length_le ?_
    · obtain ⟨m, hm, rfl⟩ := List.mem_map.mp hm'
      have hkey : m.1 ∈ entries.map Prod.fst := hkeys.mem_iff.mp (List.mem_map_of_mem hm)
      obtain ⟨entry, hentry, heq⟩ := List.mem_map.mp hkey
      obtain ⟨x, hx, j, hj, hcanon⟩ := hread entry hentry
      have hx' : m = (entry.1, x) := List.inj_on_of_nodup_map hmembers hm hx heq.symm
      refine List.mem_map.mpr ⟨(entry.1, j), (hmem _).mpr ⟨entry, hentry, rfl, hj⟩, ?_⟩
      rw [hx']
      exact congrArg (Prod.mk entry.1) hcanon.symm
    · have hlength := hkeys.length_eq
      rw [← hkeys', List.length_map, List.length_map] at hlength
      rw [List.length_map, List.length_map, hlength]
  · rintro ⟨members', hmembers', hcanon⟩
    obtain ⟨hkeys', hmem⟩ := mem_of_readingEntries hmembers'
    have hperm := (Json.canon_obj_eq_iff hmembers).mp hcanon
    have hkeys := hperm.map Prod.fst
    rw [Json.map_fst_map, Json.map_fst_map, hkeys'] at hkeys
    refine ⟨hkeys, fun m hm => ?_⟩
    obtain ⟨m', hm', heq⟩ := List.mem_map.mp (hperm.mem_iff.mp (List.mem_map_of_mem hm))
    obtain ⟨entry, hentry, hkey, hread⟩ := (hmem m').mp hm'
    have hfst : m'.1 = m.1 := (Prod.ext_iff.mp heq).1
    have hsnd : canon m'.2 = canon m.2 := (Prod.ext_iff.mp heq).2
    rw [← hfst, ← hkey, property_of_mem hentries hentry]
    exact ⟨m'.2, hread, hsnd.symm⟩

/-- A leaf is read from nothing else. -/
theorem exists_canon_eq_iff {j : Value Empty} (h : ∀ j', canon j' = j ↔ j' = j)
    (read : Option (Value Empty)) :
    (∃ j', read = some j' ∧ canon j = canon j') ↔ read = some j := by
  have hj : canon j = j := (h j).mpr rfl
  constructor
  · rintro ⟨j', rfl, hcanon⟩
    exact congrArg some ((h j').mp (hcanon.symm.trans hj))
  · exact fun hread => ⟨j, hread, rfl⟩

theorem canon_eq_leaf {j : Value Empty} (harr : ∀ js, j ≠ .arr js)
    (hobj : ∀ members, j ≠ .obj members) (j' : Value Empty) : canon j' = j ↔ j' = j := by
  cases j' with
  | ref b => cases b
  | null | bool _ | num _ | str _ => exact Iff.rfl
  | arr js =>
    rw [Json.canon_arr]
    exact ⟨fun h => absurd h.symm (harr _), fun h => absurd h.symm (harr _)⟩
  | obj members =>
    rw [Json.canon_obj]
    exact ⟨fun h => absurd h.symm (hobj _), fun h => absurd h.symm (hobj _)⟩

/-- Whether a value is no array and no object. -/
def isLeaf : Value Empty → Bool
  | .arr _ | .obj _ => false
  | _ => true

theorem sameLeaf_iff {j : Value Empty} (h : isLeaf j = true) (v : JsValue) :
    JsValue.sameLeaf (ofJson j) v = true ↔ reading v = some j := by
  cases j with
  | arr _ | obj _ => cases h
  | ref b => cases b
  | null | bool _ | num _ | str _ =>
    cases v with
    | undefined | null | bool _ | str _ | func _ | hole | arr _ | obj _ | exotic _ _ =>
      simp [ofJson, JsValue.sameLeaf, reading, eq_comm]
    | num n =>
      cases n <;> simp [ofJson, JsValue.sameLeaf, reading, eq_comm]

theorem canon_eq_arr {j : Value Empty} {js : List (Value Empty)} (h : canon j = .arr js) :
    ∃ js', j = .arr js' := by
  cases j with
  | ref b => cases b
  | null | bool _ | num _ | str _ => cases h
  | arr js' => exact ⟨js', rfl⟩
  | obj members =>
    rw [Json.canon_obj] at h
    cases h

theorem canon_eq_obj {j : Value Empty} {members : List Json.Member} (h : canon j = .obj members) :
    ∃ members', j = .obj members' := by
  cases j with
  | ref b => cases b
  | null | bool _ | num _ | str _ => cases h
  | arr js =>
    rw [Json.canon_arr] at h
    cases h
  | obj members' => exact ⟨members', rfl⟩

theorem reading_eq_arr {v : JsValue} {js : List (Value Empty)} (h : reading v = some (.arr js)) :
    ∃ items, v = .arr items := by
  cases v with
  | arr items => exact ⟨items, rfl⟩
  | num n => cases n <;> cases h
  | undefined | null | bool _ | str _ | func _ | hole => cases h
  | obj _ | exotic _ _ =>
    rw [reading] at h
    obtain ⟨members, -, hmembers⟩ := Option.map_eq_some_iff.mp h
    cases hmembers

theorem reading_eq_obj {v : JsValue} {members : List Json.Member}
    (h : reading v = some (.obj members)) : ∃ entries, v.entries? = some entries := by
  cases v with
  | obj entries | exotic entries _ => exact ⟨entries, rfl⟩
  | num n => cases n <;> cases h
  | undefined | null | bool _ | str _ | func _ | hole => cases h
  | arr items =>
    rw [reading] at h
    obtain ⟨js, -, hjs⟩ := Option.map_eq_some_iff.mp h
    cases hjs

theorem reading_of_entries? {v : JsValue} {entries : List (JsString × JsValue)}
    (h : v.entries? = some entries) : reading v = (readingEntries entries).map .obj := by
  cases v <;> cases h <;> rw [reading]

theorem reading_entries_iff {v : JsValue} {entries : List (JsString × JsValue)}
    (h : v.entries? = some entries) {j : Value Empty} :
    (∃ j', reading v = some j' ∧ canon j = canon j') ↔
      ∃ members, readingEntries entries = some members ∧ canon j = canon (.obj members) := by
  rw [reading_of_entries? h]
  constructor
  · rintro ⟨j', hread, hcanon⟩
    obtain ⟨members, hmembers, rfl⟩ := Option.map_eq_some_iff.mp hread
    exact ⟨members, hmembers, hcanon⟩
  · rintro ⟨members, hmembers, hcanon⟩
    exact ⟨.obj members, by rw [hmembers]; rfl, hcanon⟩

theorem wellFormed_of_entries? {v : JsValue} {entries : List (JsString × JsValue)}
    (h : v.entries? = some entries) (hv : WellFormed v) :
    (entries.map Prod.fst).Nodup ∧ ∀ entry ∈ entries, WellFormed entry.2 := by
  cases hv with
  | obj hkeys hentries | exotic hkeys hentries _ =>
    cases h
    exact ⟨hkeys, hentries⟩
  | undefined | null | bool _ | num _ | str _ | func _ | hole | arr _ => cases h

theorem wellFormed_property {entries : List (JsString × JsValue)}
    (h : ∀ entry ∈ entries, WellFormed entry.2) (key : JsString) :
    WellFormed (JsValue.property entries key) := by
  unfold JsValue.property
  cases hfind : entries.find? fun entry => entry.1 = key with
  | none => exact .undefined
  | some entry => exact h entry (List.mem_of_find?_eq_some hfind)

/-- A value is found to be the same as a stored one exactly if its own entries make up that one, up
to the order of keys. -/
theorem sameValue_iff {j : Value Empty} (hj : AllKeys List.Nodup j) {v : JsValue}
    (hv : WellFormed v) : sameValue (ofJson j) v = true ↔
      ∃ j', reading v = some j' ∧ canon j = canon j' := by
  induction j using Value.induct generalizing v with
  | null =>
    rw [exists_canon_eq_iff (canon_eq_leaf (j := .null) nofun nofun)]
    exact sameLeaf_iff rfl v
  | bool b =>
    rw [exists_canon_eq_iff (canon_eq_leaf (j := .bool b) nofun nofun)]
    exact sameLeaf_iff rfl v
  | num n =>
    rw [exists_canon_eq_iff (canon_eq_leaf (j := .num n) nofun nofun)]
    exact sameLeaf_iff rfl v
  | str s =>
    rw [exists_canon_eq_iff (canon_eq_leaf (j := .str s) nofun nofun)]
    exact sameLeaf_iff rfl v
  | arr js ih =>
    have hjs := Json.allKeys_arr_iff.mp hj
    cases v with
    | arr items =>
      have hitems := JsValue.wellFormed_arr_iff.mp hv
      have hsame : (js.length = items.length ∧ sameItems (js.map ofJson) items = true) ↔
          List.Forall₂ (fun j v => ∃ j', reading v = some j' ∧ canon j = canon j') js items := by
        refine sameItems_iff fun j hj v hv => ?_
        rw [← reading_element]
        exact ih j hj (hjs j hj) (wellFormed_element (hitems v hv))
      rw [JsValue.ofJson_arr, sameValue, Bool.and_eq_true, decide_eq_true_iff, List.length_map,
        reading_arr_iff]
      exact hsame
    | undefined | null | bool _ | num _ | str _ | func _ | hole | obj _ | exotic _ _ =>
      rw [JsValue.ofJson_arr, sameValue]
      · refine ⟨nofun, ?_⟩
        rintro ⟨j', hread, hcanon⟩
        rw [Json.canon_arr] at hcanon
        obtain ⟨js', rfl⟩ := canon_eq_arr hcanon.symm
        obtain ⟨items, hitems⟩ := reading_eq_arr hread
        cases hitems
      · nofun
  | obj members ih =>
    obtain ⟨hkeys, hmembers⟩ := Json.allKeys_obj_iff.mp hj
    rw [JsValue.ofJson_obj, sameValue]
    cases hentries : v.entries? with
    | none =>
      refine ⟨nofun, ?_⟩
      rintro ⟨j', hread, hcanon⟩
      rw [Json.canon_obj] at hcanon
      obtain ⟨members', rfl⟩ := canon_eq_obj hcanon.symm
      obtain ⟨entries, hsome⟩ := reading_eq_obj hread
      cases hentries.symm.trans hsome
    | some entries =>
      obtain ⟨hnodup, hwf⟩ := wellFormed_of_entries? hentries hv
      have hown : (fromEntries (members.map (Prod.map id ofJson))).Perm
          (members.map (Prod.map id ofJson)) := sortBy_perm _
      have hfst : (members.map (Prod.map id ofJson)).map Prod.fst = members.map Prod.fst := by
        rw [List.map_map]
        rfl
      have hperm := hown.map Prod.fst
      rw [hfst] at hperm
      have hvalues : sameEntries (fromEntries (members.map (Prod.map id ofJson))) entries = true ↔
          ∀ m ∈ members, ∃ j, reading (JsValue.property entries m.1) = some j ∧
            canon m.2 = canon j := by
        rw [sameEntries_iff]
        constructor
        · intro h m hm
          have hmem := hown.mem_iff.mpr (List.mem_map_of_mem (f := Prod.map id ofJson) hm)
          exact (ih m hm (hmembers m hm) (wellFormed_property hwf m.1)).mp (h _ hmem)
        · intro h entry hentry
          obtain ⟨m, hm, rfl⟩ := List.mem_map.mp (hown.mem_iff.mp hentry)
          exact (ih m hm (hmembers m hm) (wellFormed_property hwf m.1)).mpr (h m hm)
      have hkeys' : sortedKeys (fromEntries (members.map (Prod.map id ofJson))) =
          sortedKeys entries ↔ (members.map Prod.fst).Perm (entries.map Prod.fst) :=
        sortedKeys_eq_iff.trans ⟨hperm.symm.trans, hperm.trans⟩
      rw [reading_entries_iff hentries, ← sameAs_entries hkeys hnodup]
      dsimp only
      rw [Bool.and_eq_true, decide_eq_true_iff, hkeys', hvalues]

/-! ## What is stored -/

/-- A value that stays what it is when it is stored: none of its leaves is `undefined`, a function, a
symbol, `NaN`, an infinity, `-0` or an empty slot, and the own entries of an object with a `toJSON`
make up the value that this returns. -/
inductive Plain : JsValue → Prop
  | null : Plain .null
  | bool (b : Bool) : Plain (.bool b)
  | num {n : Json.Number} (h : n ≠ JsValue.minusZero) : Plain (.num (.finite n))
  | str (s : JsString) : Plain (.str s)
  | arr {items : List JsValue} (h : ∀ v ∈ items, Plain v) : Plain (.arr items)
  | obj {entries : List (JsString × JsValue)} (h : ∀ entry ∈ entries, Plain entry.2) :
    Plain (.obj entries)
  | exotic {entries : List (JsString × JsValue)} {members : List Json.Member} {j : Value Empty}
    (hread : readingEntries entries = some members) (h : canon j = canon (.obj members)) :
    Plain (.exotic entries (some j))

theorem Plain.image {v : JsValue} (hv : Plain v) : ∃ j, v.image = some j := by
  cases hv with
  | null | bool _ | num _ | str _ | exotic _ _ => exact ⟨_, rfl⟩
  | arr _ => exact ⟨_, JsValue.image_arr _⟩
  | obj _ => exact ⟨_, JsValue.image_obj _⟩

/-- Where nothing is written, an array has `null`, which is not what is read there. -/
theorem reading_of_image_none {v : JsValue} (h : v.image = none) :
    ¬ ∃ j', reading v = some j' ∧ canon .null = canon j' := by
  rintro ⟨j', hread, hcanon⟩
  cases v with
  | undefined | func _ | hole => cases hread
  | null | bool _ | str _ => cases h
  | num n => cases n <;> cases h
  | arr items =>
    rw [JsValue.image_arr] at h
    cases h
  | obj entries =>
    rw [JsValue.image_obj] at h
    cases h
  | exotic entries json =>
    rw [reading] at hread
    obtain ⟨members, -, rfl⟩ := Option.map_eq_some_iff.mp hread
    rw [Json.canon_obj] at hcanon
    cases hcanon

/-- What is written of a value is what its own entries make up exactly if it is plain. -/
theorem reading_image_iff {v : JsValue} (hv : WellFormed v) {j : Value Empty}
    (hj : image v = some j) : (∃ j', reading v = some j' ∧ canon j = canon j') ↔ Plain v := by
  induction v using JsValue.induct generalizing j with
  | undefined | func _ | hole => cases hj
  | null =>
    cases hj
    exact ⟨fun _ => .null, fun _ => ⟨.null, rfl, rfl⟩⟩
  | bool b =>
    cases hj
    exact ⟨fun _ => .bool b, fun _ => ⟨.bool b, rfl, rfl⟩⟩
  | str s =>
    cases hj
    exact ⟨fun _ => .str s, fun _ => ⟨.str s, rfl, rfl⟩⟩
  | num n =>
    cases n with
    | nan | infinity _ =>
      refine ⟨?_, nofun⟩
      rintro ⟨j', hread, -⟩
      cases hread
    | finite n =>
      cases hj
      constructor
      · rintro ⟨j', hread, hcanon⟩
        cases hread
        refine .num fun h => ?_
        rw [if_pos h, h] at hcanon
        cases hcanon
      · intro h
        cases h with
        | num h => exact ⟨.num n, rfl, by rw [if_neg h]⟩
  | arr items ih =>
    have hitems := JsValue.wellFormed_arr_iff.mp hv
    rw [JsValue.image_arr] at hj
    cases hj
    rw [reading_arr_iff, List.forall₂_map_left_iff, List.forall₂_same]
    have hiff : ∀ v ∈ items, (∃ j', reading v = some j' ∧
        canon ((image v).getD .null) = canon j') ↔ Plain v := by
      intro v hv
      cases h : image v with
      | some j => exact ih v hv (hitems v hv) h
      | none =>
        refine ⟨fun hread => absurd hread (reading_of_image_none h), fun hplain => ?_⟩
        obtain ⟨j, hj⟩ := hplain.image
        cases h.symm.trans hj
    constructor
    · exact fun h => .arr fun v hv => (hiff v hv).mp (h v hv)
    · intro h v hv
      cases h with
      | arr h => exact (hiff v hv).mpr (h v hv)
  | obj entries ih =>
    obtain ⟨hnodup, hentries⟩ := JsValue.wellFormed_obj_iff.mp hv
    rw [JsValue.image_obj] at hj
    cases hj
    have hsame := sameAs_entries (hnodup.sublist (mapSome_keys_sublist image entries)) hnodup
    rw [reading_entries_iff rfl, ← hsame]
    constructor
    · rintro ⟨hkeys, hread⟩
      refine .obj fun entry hentry => ?_
      have hkey : entry.1 ∈ (mapSome image entries).map Prod.fst :=
        hkeys.mem_iff.mpr (List.mem_map_of_mem hentry)
      obtain ⟨m, hm, heq⟩ := List.mem_map.mp hkey
      obtain ⟨entry', hentry', hfst, himage⟩ := mem_mapSome.mp hm
      obtain rfl := List.inj_on_of_nodup_map hnodup hentry' hentry (hfst.trans heq)
      have hm := hread m hm
      rw [heq, property_of_mem hnodup hentry] at hm
      exact (ih _ hentry (hentries _ hentry) himage).mp hm
    · intro h
      cases h with
      | obj h =>
        have hkeys := mapSome_keys fun entry hentry => (h entry hentry).image
        refine ⟨.of_eq hkeys, fun m hm => ?_⟩
        obtain ⟨entry, hentry, hfst, himage⟩ := mem_mapSome.mp hm
        rw [← hfst, property_of_mem hnodup hentry]
        exact (ih entry hentry (hentries entry hentry) himage).mpr (h entry hentry)
  | exotic entries json ih =>
    cases hj
    rw [reading_entries_iff rfl]
    constructor
    · rintro ⟨members, hmembers, hcanon⟩
      exact .exotic hmembers hcanon
    · intro h
      cases h with
      | exotic hread h => exact ⟨_, hread, h⟩

/-- What is read back of a stored value is found to be the same exactly if the value is plain. -/
theorem sameValue_stored_iff {v : JsValue} (hv : WellFormed v) {j j' : Value Empty}
    (hj : image v = some j) (hcanon : canon j' = canon j) (hj' : AllKeys List.Nodup j') :
    sameValue (ofJson j') v = true ↔ Plain v := by
  rw [sameValue_iff hj' hv, hcanon]
  exact reading_image_iff hv hj

end Neemata.Workflows.Postgres
