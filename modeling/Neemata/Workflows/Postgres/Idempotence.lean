import Neemata.Workflows.Postgres.Creation

/-!
# Creating the same again

Where an operation has stored what it was given, a later call or one at the same time finds it again
exactly if it is plain (`same_again_iff`).
-/

namespace Neemata.Workflows.Postgres

open Json (JsString Value canon)
open JsValue (image ofJson WellFormed)

/-! ## Creating a run again -/

variable {db : Jsonb} {rows raced rows' : List Row} {input : CreateRunInput JsValue}
  {runId : String} {date : Nat} {row run : Row} {recoverUniqueViolation : Bool}

theorem sameColumn_self (j : JsonValue) : sameColumn (some j) (some j) = true := decide_eq_true rfl

/-- A column that is written holds what the text says. -/
theorem Jsonb.param_eq_some {value : JsValue} {j : JsonValue} (h : db.param value = some (some j)) :
    ∃ j', image value = some j' ∧ db.store j' = some j := by
  unfold Jsonb.param at h
  split at h
  · cases h
  · next j' hj' =>
    obtain ⟨j'', hstore, heq⟩ := Option.map_eq_some_iff.mp h
    cases heq
    exact ⟨j', hj', hstore⟩

theorem Jsonb.param_arr_ne (items : List JsValue) : db.param (.arr items) ≠ some none := by
  unfold Jsonb.param
  rw [JsValue.image_arr]
  intro h
  obtain ⟨_, _, heq⟩ := Option.map_eq_some_iff.mp h
  cases heq

/-- What a column holds is found to be the same as the value exactly if the value is plain. -/
theorem sameValue_param_iff {value : JsValue} (hv : WellFormed value) {j : JsonValue}
    (h : db.param value = some (some j)) : sameValue (ofJson j) value = true ↔ Plain value := by
  obtain ⟨j', hj', hstore⟩ := db.param_eq_some h
  exact sameValue_stored_iff hv hj' (db.canon_eq j' j hstore)
    (db.nodup j' j hstore (hv.image j' hj'))

/-- The row of a run has the columns of its input and of its keys. -/
theorem newRow_eq_some (h : newRow db input runId date = some row) :
    db.param input.input = some (some row.input) ∧
      db.optionalParam input.idempotencyKey = some row.idempotencyKey := by
  unfold newRow at h
  split at h
  · next hvalue hkey _ =>
    cases h
    exact ⟨hvalue, hkey⟩
  · cases h

theorem matchesInput_newRow (hv : WellFormed input.input)
    (h : newRow db input runId date = some row) :
    matchesInput (mapRun row) input = true ↔ Plain input.input := by
  rw [← sameValue_param_iff hv (newRow_eq_some h).1]
  unfold newRow at h
  split at h
  · cases h
    simp [matchesInput, mapRun]
  · cases h

theorem resolveUniqueConflict_ne_created : resolveUniqueConflict input run ≠ .ok (run', true) := by
  unfold resolveUniqueConflict
  split
  · nofun
  · split <;> nofun

theorem recoverInsert_ne_created :
    recoverInsert db rows input recoverUniqueViolation ≠ .ok (run', true) := by
  unfold recoverInsert
  split
  · nofun
  · nofun
  · split
    · nofun
    · exact resolveUniqueConflict_ne_created
    · nofun

/-- A run is created where nothing was found and nothing conflicts. -/
theorem create_eq_created (h : createStoredRunWithState db rows input raced runId date
    recoverUniqueViolation = (.ok (run, true), rows')) :
    loadIdempotentRun db rows input = .ok none ∧ loadUniqueRun db rows input = .ok none ∧
      ∃ row, newRow db input runId date = some row ∧
        insertConflicts (rows ++ raced) row = false ∧ run = mapRun row ∧
        rows' = rows ++ raced ++ [row] := by
  unfold createStoredRunWithState at h
  split at h
  · cases h
  · cases h
  · next hidempotent =>
    split at h
    · cases h
    · exact absurd (Prod.ext_iff.mp h).1 resolveUniqueConflict_ne_created
    · next hunique =>
      split at h
      · cases h
      · next row hrow =>
        split at h
        · exact absurd (Prod.ext_iff.mp h).1 recoverInsert_ne_created
        · next hconflict =>
          cases h
          exact ⟨hidempotent, hunique, row, hrow, Bool.eq_false_iff.mpr hconflict, rfl, rfl⟩

theorem not_sameColumn_of_not_insertConflicts (h : insertConflicts rows row = false) :
    ∀ other ∈ rows, sameColumn other.idempotencyKey row.idempotencyKey = false := by
  intro other hother
  have hnone := Bool.not_eq_true _ ▸ List.any_eq_false.mp h other hother
  exact (Bool.or_eq_false_iff.mp hnone).1

theorem sameColumn_newRow {items : List JsValue} (hkey : input.idempotencyKey = some (.arr items))
    (hrow : newRow db input runId date = some row) :
    db.param (.arr items) = some row.idempotencyKey ∧
      sameColumn row.idempotencyKey row.idempotencyKey = true := by
  have hparam := (newRow_eq_some hrow).2
  rw [hkey] at hparam
  refine ⟨hparam, ?_⟩
  cases hcolumn : row.idempotencyKey with
  | none => exact absurd (hparam.trans (congrArg some hcolumn)) (db.param_arr_ne items)
  | some j => exact sameColumn_self j

/-- The row that was inserted is the one that is found with the key. -/
theorem loadIdempotentRun_inserted {items : List JsValue}
    (hkey : input.idempotencyKey = some (.arr items))
    (hrow : newRow db input runId date = some row) (hconflict : insertConflicts rows row = false) :
    loadIdempotentRun db (rows ++ [row]) input =
      if matchesInput (mapRun row) input then .ok (some (mapRun row))
      else .error (conflictingIdempotentRun input) := by
  obtain ⟨hparam, hself⟩ := sameColumn_newRow hkey hrow
  have hbefore : rows.find? (fun other => sameColumn other.idempotencyKey row.idempotencyKey) =
      none := List.find?_eq_none.mpr fun other hother => by
    rw [not_sameColumn_of_not_insertConflicts hconflict other hother]
    exact Bool.false_ne_true
  have hfind : (rows ++ [row]).find? (fun other =>
      sameColumn other.idempotencyKey row.idempotencyKey) = some row := by
    rw [List.find?_append, hbefore, Option.none_or]
    exact List.find?_cons_of_pos hself
  unfold loadIdempotentRun
  rw [hkey]
  dsimp only
  rw [hparam]
  dsimp only
  rw [hfind]

/-- A run is found again exactly if its input is plain, after it was created as well as where two
calls create it at the same time. -/
theorem createStoredRun_again (hv : WellFormed input.input) {items : List JsValue}
    (hkey : input.idempotencyKey = some (.arr items))
    (hfirst : createStoredRunWithState db rows input raced runId date recoverUniqueViolation =
      (.ok (run, true), rows')) (raced' : List Row) (runId' : String) (date' : Nat) :
    (∀ recoverUniqueViolation,
      (createStoredRunWithState db rows' input raced' runId' date' recoverUniqueViolation).1 =
        .ok (run, false) ↔ Plain input.input) ∧
    (rows ++ raced' = rows' →
      ((createStoredRunWithState db rows input raced' runId' date' true).1 = .ok (run, false) ↔
        Plain input.input)) := by
  obtain ⟨hidempotent, hunique, row, hrow, hconflict, rfl, rfl⟩ := create_eq_created hfirst
  have hload := loadIdempotentRun_inserted hkey hrow hconflict
  have hmatches := matchesInput_newRow hv hrow
  constructor
  · intro recoverUniqueViolation
    unfold createStoredRunWithState
    rw [hload, ← hmatches]
    cases hsame : matchesInput (mapRun row) input with
    | true => exact ⟨fun _ => rfl, fun _ => rfl⟩
    | false => exact ⟨nofun, nofun⟩
  · intro hrows
    obtain ⟨row', hrow'⟩ : ∃ row', newRow db input runId' date' = some row' := by
      unfold newRow at hrow ⊢
      split at hrow
      · exact ⟨_, rfl⟩
      · cases hrow
    have hconflict' : insertConflicts (rows ++ raced ++ [row]) row' = true := by
      have hsame : row'.idempotencyKey = row.idempotencyKey :=
        Option.some.inj ((newRow_eq_some hrow').2.symm.trans (newRow_eq_some hrow).2)
      refine List.any_eq_true.mpr ⟨row, List.mem_append_right _ (List.mem_singleton_self row), ?_⟩
      rw [hsame, (sameColumn_newRow hkey hrow).2, Bool.true_or]
    unfold createStoredRunWithState
    rw [hidempotent, hunique, hrow']
    dsimp only
    rw [hrows, if_pos hconflict', recoverInsert, if_pos rfl, hload, ← hmatches]
    cases hsame : matchesInput (mapRun row) input with
    | true => exact ⟨fun _ => rfl, fun _ => rfl⟩
    | false => exact ⟨nofun, nofun⟩

/-! ## Node children again -/

/-- An item that is found again under its key: a map item that is not `undefined`, or another item
that is not `null`. -/
def Kept (childKey : String) : JsValue → Prop
  | .undefined => childKey.startsWith "item:" = false
  | .null => childKey.startsWith "item:" = true
  | item => Plain item

theorem sameOptionalValue_of_ne {left right : JsValue} (hleft : left ≠ .undefined)
    (hright : right ≠ .undefined) : sameOptionalValue left right = sameValue left right := by
  unfold sameOptionalValue
  split
  · exact absurd rfl hleft
  · exact absurd rfl hleft
  · exact absurd rfl hright
  · rfl

theorem ofJson_ne_undefined (j : JsonValue) : ofJson j ≠ .undefined := by
  cases j with
  | null | bool _ | num _ | str _ | arr _ | obj _ => nofun
  | ref b => cases b

theorem eq_null_of_canon {j : JsonValue} (h : canon j = .null) : j = .null :=
  (canon_eq_leaf (j := .null) nofun nofun j).mp h

theorem sameValue_null_iff {v : JsValue} : sameValue .null v = true ↔ v = .null := by
  cases v <;> simp [sameValue, JsValue.sameLeaf]

theorem kept_of_ne {childKey : String} {item : JsValue} (hundefined : item ≠ .undefined)
    (hnull : item ≠ .null) : Kept childKey item ↔ Plain item := by
  cases item with
  | undefined => exact absurd rfl hundefined
  | null => exact absurd rfl hnull
  | bool _ | num _ | str _ | func _ | hole | arr _ | obj _ | exotic _ _ => exact Iff.rfl

theorem sameOptionalValue_undefined {v : JsValue} :
    sameOptionalValue .undefined v = true ↔ v = .undefined := by
  cases v <;> simp [sameOptionalValue]

theorem Jsonb.param_eq_none {value : JsValue} (h : db.param value = some none) :
    image value = none := by
  unfold Jsonb.param at h
  split at h
  · assumption
  · obtain ⟨_, _, heq⟩ := Option.map_eq_some_iff.mp h
    cases heq

/-- The column of an item, as `mapNodeChild` reads it. -/
def itemColumn (childKey : String) (column : Option JsonValue) : Option JsonValue :=
  if childKey.startsWith "item:" then some (jsonColumn column) else payload column

/-- An item is found to be the same exactly if it is kept. -/
theorem sameItem_iff {childKey : String} {item : JsValue} (hv : WellFormed item)
    {column : Option JsonValue} (h : db.param item = some column) :
    sameOptionalValue (fieldValue (itemColumn childKey column)) item = true ↔
      Kept childKey item := by
  unfold itemColumn
  by_cases hundefined : item = .undefined
  · subst hundefined
    cases h
    split
    · next hitem => exact ⟨nofun, fun h => absurd hitem (Bool.eq_false_iff.mp h)⟩
    · next hitem => exact ⟨fun _ => Bool.eq_false_iff.mpr hitem, fun _ => rfl⟩
  by_cases hnull : item = .null
  · subst hnull
    obtain ⟨j, hstore, rfl⟩ := Option.map_eq_some_iff.mp h
    obtain rfl := eq_null_of_canon (db.canon_eq _ j hstore)
    split
    · next hitem => exact ⟨fun _ => hitem, fun _ => rfl⟩
    · next hitem => exact ⟨nofun, fun h => absurd h hitem⟩
  rw [kept_of_ne hundefined hnull]
  cases column with
  | none =>
    have hplain : ¬ Plain item := fun hplain => by
      obtain ⟨j, hj⟩ := hplain.image
      cases (db.param_eq_none h).symm.trans hj
    split
    · have hsame : sameOptionalValue .null item = sameValue .null item :=
        sameOptionalValue_of_ne nofun hundefined
      exact ⟨fun h => absurd (sameValue_null_iff.mp (hsame.symm.trans h)) hnull,
        fun h => absurd h hplain⟩
    · exact ⟨fun h => absurd (sameOptionalValue_undefined.mp h) hundefined,
        fun h => absurd h hplain⟩
  | some j =>
    have hsame := sameValue_param_iff hv h
    split
    · rw [← hsame]
      exact iff_of_eq (congrArg (· = true)
        (sameOptionalValue_of_ne (ofJson_ne_undefined j) hundefined))
    · by_cases hj : j = .null
      · subst hj
        have hplain : ¬ Plain item := fun h => hnull (sameValue_null_iff.mp (hsame.mpr h))
        exact ⟨fun h => absurd (sameOptionalValue_undefined.mp h) hundefined,
          fun h => absurd h hplain⟩
      · rw [payload_some hj, ← hsame]
        exact iff_of_eq (congrArg (· = true)
          (sameOptionalValue_of_ne (ofJson_ne_undefined j) hundefined))

section

variable {nodeName : String} {children : List (EnsureNodeChildInput JsValue)}
  {found found' raced₁ : List NodeChildRecord} {existing : List NodeChildRecord}

theorem loadExistingChildren_eq_none
    (h : loadExistingChildren runId nodeName children found = .ok none) : found = [] := by
  cases found with
  | nil => rfl
  | cons row found =>
    unfold loadExistingChildren at h
    dsimp only at h
    split at h <;> cases h

/-- Children are created where there were none. -/
theorem ensure_eq_created (h : ensureNodeChildren db runId nodeName date children found raced₁ =
      (.ok (existing, true), found')) :
    (children.map (·.childKey)).Nodup ∧ (∀ child ∈ children, (db.param (itemOf child)).isSome) ∧
      existing = (children.map (newChild db runId nodeName date)).map mapNodeChild ∧
      found' = children.map (newChild db runId nodeName date) := by
  unfold ensureNodeChildren at h
  split at h
  · cases h
  · cases h
  · split at h
    · cases h
    · cases h
    · next hnone =>
      have hempty := loadExistingChildren_eq_none hnone
      split at h
      · next hinsert =>
        cases h
        rw [hempty]
        exact ⟨hinsert.1, hinsert.2, rfl, rfl⟩
      · cases h

/-- The child of a request is found under its key. -/
theorem find?_newChild (hnodup : (children.map (·.childKey)).Nodup)
    {child : EnsureNodeChildInput JsValue} (hchild : child ∈ children) :
    ((children.map (newChild db runId nodeName date)).map mapNodeChild).find?
        (·.childKey = child.childKey) =
      some (mapNodeChild (newChild db runId nodeName date child)) := by
  induction children with
  | nil => cases hchild
  | cons first children ih =>
    obtain ⟨hfirst, hnodup⟩ := List.nodup_cons.mp hnodup
    rw [List.map_cons, List.map_cons]
    rcases List.mem_cons.mp hchild with rfl | hchild
    · exact List.find?_cons_of_pos (decide_eq_true rfl)
    · have hne : first.childKey ≠ child.childKey := fun heq =>
        hfirst (List.mem_map.mpr ⟨child, hchild, heq.symm⟩)
      refine (List.find?_cons_of_neg ?_).trans (ih hnodup hchild)
      exact fun h => hne (of_decide_eq_true h)

theorem matchesRequest_newChild {child : EnsureNodeChildInput JsValue}
    (hv : WellFormed (itemOf child)) (hparam : (db.param (itemOf child)).isSome) :
    matchesRequest child (mapNodeChild (newChild db runId nodeName date child)) = true ↔
      Kept child.childKey (itemOf child) := by
  obtain ⟨column, hcolumn⟩ := Option.isSome_iff_exists.mp hparam
  rw [← sameItem_iff hv hcolumn]
  simp [matchesRequest, mapNodeChild, newChild, itemColumn, hcolumn]

/-- Whether the children that were created are what is asked for again. -/
def matchedAgain (db : Jsonb) (runId nodeName : String) (date : Nat)
    (children : List (EnsureNodeChildInput JsValue)) : Bool :=
  children.all fun requested =>
    (((children.map (newChild db runId nodeName date)).map mapNodeChild).find?
      (·.childKey = requested.childKey)).any (matchesRequest requested)

theorem matchedAgain_iff (hv : ∀ child ∈ children, WellFormed (itemOf child))
    (hnodup : (children.map (·.childKey)).Nodup)
    (hparam : ∀ child ∈ children, (db.param (itemOf child)).isSome) :
    matchedAgain db runId nodeName date children = true ↔
      ∀ child ∈ children, Kept child.childKey (itemOf child) := by
  unfold matchedAgain
  rw [List.all_eq_true]
  refine forall₂_congr fun child hchild => ?_
  rw [find?_newChild hnodup hchild, Option.any_some]
  exact matchesRequest_newChild (hv child hchild) (hparam child hchild)

theorem loadExistingChildren_again (hne : children ≠ []) :
    loadExistingChildren runId nodeName children
      (children.map (newChild db runId nodeName date)) =
      if matchedAgain db runId nodeName date children then
        .ok (some ((children.map (newChild db runId nodeName date)).map mapNodeChild))
      else .error (.message s!"Conflicting node children [{runId}.{nodeName}]") := by
  have hlength : ((children.map (newChild db runId nodeName date)).map mapNodeChild).length =
      children.length := by rw [List.length_map, List.length_map]
  cases hrows : children.map (newChild db runId nodeName date) with
  | nil => exact absurd (List.map_eq_nil_iff.mp hrows) hne
  | cons row rows =>
    unfold loadExistingChildren matchedAgain
    rw [hrows] at hlength ⊢
    dsimp only
    rw [hlength]
    simp only [true_and]

/-- Children are found again exactly if their items are kept, after they were created as well as
where two calls create them at the same time. -/
theorem ensureNodeChildren_again (hv : ∀ child ∈ children, WellFormed (itemOf child))
    (hne : children ≠ [])
    (hfirst : ensureNodeChildren db runId nodeName date children found raced₁ =
      (.ok (existing, true), found')) (raced₂ : List NodeChildRecord) (date' : Nat) :
    ((ensureNodeChildren db runId nodeName date' children found' raced₂).1 = .ok (existing, false) ↔
      ∀ child ∈ children, Kept child.childKey (itemOf child)) ∧
    ((ensureNodeChildren db runId nodeName date' children [] found').1 = .ok (existing, false) ↔
      ∀ child ∈ children, Kept child.childKey (itemOf child)) := by
  obtain ⟨hnodup, hparam, rfl, rfl⟩ := ensure_eq_created hfirst
  have hmatched : matchedAgain db runId nodeName date children = true ↔
      ∀ child ∈ children, Kept child.childKey (itemOf child) := matchedAgain_iff hv hnodup hparam
  have hload : loadExistingChildren runId nodeName children
      (children.map (newChild db runId nodeName date)) = _ := loadExistingChildren_again hne
  rw [← hmatched]
  unfold ensureNodeChildren
  constructor
  · rw [hload]
    cases matchedAgain db runId nodeName date children with
    | true => exact ⟨fun _ => rfl, fun _ => rfl⟩
    | false => exact ⟨nofun, nofun⟩
  · have hempty : loadExistingChildren runId nodeName children [] = .ok none := rfl
    rw [hempty, List.nil_append, hload]
    cases matchedAgain db runId nodeName date children with
    | true => exact ⟨fun _ => rfl, fun _ => rfl⟩
    | false => exact ⟨nofun, nofun⟩

end

/-! ## Child runs again -/

theorem loadIdempotentRun_mem (h : loadIdempotentRun db rows input = .ok (some run)) :
    ∃ row ∈ rows, run = mapRun row := by
  unfold loadIdempotentRun at h
  split at h
  · cases h
  · split at h
    · cases h
    · split at h
      · cases h
      · next row hfind =>
        split at h
        · cases h
          exact ⟨row, List.mem_of_find?_eq_some hfind, rfl⟩
        · cases h

theorem loadUniqueRun_mem (h : loadUniqueRun db rows input = .ok (some run)) :
    ∃ row ∈ rows, run = mapRun row := by
  unfold loadUniqueRun at h
  split at h
  · cases h
  · split at h
    · cases h
    · obtain ⟨row, hfind, rfl⟩ := Option.map_eq_some_iff.mp (Except.ok.inj h)
      exact ⟨row, List.mem_of_find?_eq_some hfind, rfl⟩

theorem resolveUniqueConflict_eq {found : Row}
    (h : resolveUniqueConflict input found = .ok (run, false)) : run = found := by
  unfold resolveUniqueConflict at h
  split at h
  · cases h
    rfl
  · split at h <;> cases h
    rfl

theorem recoverInsert_mem
    (h : recoverInsert db rows input recoverUniqueViolation = .ok (run, false)) :
    ∃ row ∈ rows, run = mapRun row := by
  unfold recoverInsert at h
  split at h
  · cases h
  · next found hfound =>
    cases h
    split at hfound
    · exact loadIdempotentRun_mem hfound
    · cases hfound
  · split at h
    · cases h
    · next found hfound => exact resolveUniqueConflict_eq h ▸ loadUniqueRun_mem hfound
    · cases h

/-- A run that was not created is one of the rows. -/
theorem create_eq_existing (h : createStoredRunWithState db rows input raced runId date
    recoverUniqueViolation = (.ok (run, false), rows')) :
    ∃ row ∈ rows ++ raced, run = mapRun row := by
  have hleft : (∃ row ∈ rows, run = mapRun row) → ∃ row ∈ rows ++ raced, run = mapRun row :=
    fun ⟨row, hrow, heq⟩ => ⟨row, List.mem_append_left _ hrow, heq⟩
  unfold createStoredRunWithState at h
  split at h
  · cases h
  · next hfound =>
    cases h
    exact hleft (loadIdempotentRun_mem hfound)
  · split at h
    · cases h
    · next hfound =>
      obtain ⟨hresolve, -⟩ := Prod.ext_iff.mp h
      exact hleft (resolveUniqueConflict_eq hresolve ▸ loadUniqueRun_mem hfound)
    · split at h
      · cases h
      · split at h
        · exact recoverInsert_mem (Prod.ext_iff.mp h).1
        · cases h

section

variable {child child' : StoredNodeChild JsonValue} {params : EnsureChildRunParams JsValue}

/-- Whether the run that was created is what is asked for again. -/
theorem matchesParams_newRow (hv : WellFormed params.input)
    (hkeys : ∀ key ∈ params.idempotencyKey, WellFormed key ∧ ∃ items, key = .arr items)
    (hrow : newRow db (childRunInput params) runId date = some row) :
    matchesParams params (mapRun row) = true ↔
      Plain params.input ∧ ∀ key ∈ params.idempotencyKey, Plain key := by
  obtain ⟨hinput, hkey⟩ := newRow_eq_some hrow
  have hkind : row.kind = params.childKind ∧ row.name = params.childName := by
    unfold newRow at hrow
    split at hrow
    · cases hrow
      exact ⟨rfl, rfl⟩
    · cases hrow
  have hsame : sameOptionalValue (fieldValue (payload row.idempotencyKey))
      (params.idempotencyKey.getD .undefined) = true ↔
        ∀ key ∈ params.idempotencyKey, Plain key := by
    have hoptional : db.optionalParam params.idempotencyKey = some row.idempotencyKey := hkey
    cases hparams : params.idempotencyKey with
    | none =>
      rw [hparams] at hoptional
      have hnone : row.idempotencyKey = none := (Option.some.inj hoptional).symm
      rw [hnone]
      exact ⟨fun _ => nofun, fun _ => rfl⟩
    | some key =>
      obtain ⟨hkey, items, rfl⟩ := hkeys key hparams
      rw [hparams] at hoptional
      have hparam : db.param (.arr items) = some row.idempotencyKey := hoptional
      cases hcolumn : row.idempotencyKey with
      | none => exact absurd (hparam.trans (congrArg some hcolumn)) (db.param_arr_ne items)
      | some j =>
        rw [hcolumn] at hparam
        have hiff := sameValue_param_iff hkey hparam
        have hne : j ≠ .null := by
          rintro rfl
          obtain ⟨j', himage, hstore⟩ := db.param_eq_some hparam
          rw [JsValue.image_arr] at himage
          cases himage
          have hcanon := db.canon_eq _ _ hstore
          rw [Json.canon_arr] at hcanon
          cases hcanon
        rw [payload_some hne]
        have hvalue : sameOptionalValue (ofJson j) (.arr items) =
            sameValue (ofJson j) (.arr items) :=
          sameOptionalValue_of_ne (ofJson_ne_undefined j) nofun
        constructor
        · rintro h _ ⟨⟩
          exact hiff.mp (hvalue.symm.trans h)
        · exact fun h => hvalue.trans (hiff.mpr (h _ rfl))
  have hinput := sameValue_param_iff hv hinput
  unfold matchesParams
  rw [Bool.and_eq_true, Bool.and_eq_true, Bool.and_eq_true, decide_eq_true_iff,
    decide_eq_true_iff]
  constructor
  · rintro ⟨⟨-, hvalue⟩, hkey⟩
    exact ⟨hinput.mp hvalue, hsame.mp hkey⟩
  · rintro ⟨hvalue, hkey⟩
    exact ⟨⟨hkind, hinput.mpr hvalue⟩, hsame.mpr hkey⟩

theorem find?_id_inserted (row : Row) (hfresh : ∀ other ∈ rows, other.id ≠ row.id) :
    (rows ++ [row]).find? (·.id = row.id) = some row := by
  have hbefore : rows.find? (·.id = row.id) = none :=
    List.find?_eq_none.mpr fun other hother => by simpa using hfresh other hother
  rw [List.find?_append, hbefore, Option.none_or]
  exact List.find?_cons_of_pos (decide_eq_true rfl)

/-- A child is linked with the run of the row that was inserted. -/
theorem ensureChildRun_eq_created (h : ensureChildRun db child rows params raced runId date =
      (.ok (run, true), child', rows'))
    (hfresh : ∀ other ∈ rows ++ raced, other.id ≠ runId) (hown : run.id = runId) :
    ∃ row, newRow db (childRunInput params) runId date = some row ∧ run = mapRun row ∧
      rows' = rows ++ raced ++ [row] ∧ child'.childRunId = some row.id := by
  unfold ensureChildRun at h
  dsimp only at h
  split at h
  · cases h
  · cases h
  · split at h
    · cases h
    · cases h
    · next childRun created rows'' hcreate =>
      split at h
      · cases h
        cases created with
        | true =>
          obtain ⟨-, -, row, hrow, -, rfl, rfl⟩ := create_eq_created hcreate
          exact ⟨row, hrow, rfl, rfl, rfl⟩
        | false =>
          obtain ⟨other, hother, rfl⟩ := create_eq_existing hcreate
          exact absurd hown (hfresh other hother)
      · cases h

/-- A child run is found again exactly if its input and its key are plain. -/
theorem ensureChildRun_again (hv : WellFormed params.input)
    (hkeys : ∀ key ∈ params.idempotencyKey, WellFormed key ∧ ∃ items, key = .arr items)
    (hfirst : ensureChildRun db child rows params raced runId date =
      (.ok (run, true), child', rows'))
    (hfresh : ∀ other ∈ rows ++ raced, other.id ≠ runId) (hown : run.id = runId)
    (raced' : List Row) (runId' : String) (date' : Nat) :
    (ensureChildRun db child' rows' params raced' runId' date').1 = .ok (run, false) ↔
      Plain params.input ∧ ∀ key ∈ params.idempotencyKey, Plain key := by
  obtain ⟨row, hrow, rfl, rfl, hlink⟩ := ensureChildRun_eq_created hfirst hfresh hown
  have hid : row.id = runId := hown
  have hfind := find?_id_inserted row fun other hother => hid ▸ hfresh other hother
  rw [← matchesParams_newRow hv hkeys hrow]
  unfold ensureChildRun loadExistingChildRun
  rw [hlink]
  dsimp only
  rw [hfind]
  dsimp only
  cases matchesParams params (mapRun row) with
  | true => exact ⟨fun _ => rfl, fun _ => rfl⟩
  | false => exact ⟨nofun, nofun⟩

end

/-! ## The same again -/

/-- What the adapter has stored is what it is given again exactly if that is plain: a value, the
input of a run, the items of the children of a node, and the input and the key of a child run. -/
theorem same_again_iff (db : Jsonb) :
    (∀ v j j', WellFormed v → image v = some j → db.store j = some j' →
      (sameValue (ofJson j') v = true ↔ Plain v)) ∧
    (∀ input items rows raced rows' runId date recoverUniqueViolation run,
      WellFormed input.input → input.idempotencyKey = some (.arr items) →
      createStoredRunWithState db rows input raced runId date recoverUniqueViolation =
        (.ok (run, true), rows') → ∀ raced' runId' date',
      ((createStoredRunWithState db rows' input raced' runId' date' true).1 = .ok (run, false) ↔
        Plain input.input) ∧
      (rows ++ raced' = rows' →
        ((createStoredRunWithState db rows input raced' runId' date' true).1 = .ok (run, false) ↔
          Plain input.input))) ∧
    (∀ runId nodeName children rows raced existing rows' date,
      (∀ child ∈ children, WellFormed (itemOf child)) → children ≠ [] →
      ensureNodeChildren db runId nodeName date children rows raced =
        (.ok (existing, true), rows') → ∀ raced' date',
      ((ensureNodeChildren db runId nodeName date' children rows' raced').1 =
        .ok (existing, false) ↔ ∀ child ∈ children, Kept child.childKey (itemOf child)) ∧
      ((ensureNodeChildren db runId nodeName date' children [] rows').1 = .ok (existing, false) ↔
        ∀ child ∈ children, Kept child.childKey (itemOf child))) ∧
    ∀ params child child' rows raced rows' runId date run, WellFormed params.input →
      (∀ key ∈ params.idempotencyKey, WellFormed key ∧ ∃ items, key = .arr items) →
      ensureChildRun db child rows params raced runId date = (.ok (run, true), child', rows') →
      (∀ other ∈ rows ++ raced, other.id ≠ runId) → run.id = runId → ∀ raced' runId' date',
      ((ensureChildRun db child' rows' params raced' runId' date').1 = .ok (run, false) ↔
        Plain params.input ∧ ∀ key ∈ params.idempotencyKey, Plain key) := by
  refine ⟨?_, ?_, ?_, ?_⟩
  · intro v j j' hv hj hstore
    have hnodup := db.nodup j j' hstore (hv.image j hj)
    exact sameValue_stored_iff hv hj (db.canon_eq j j' hstore) hnodup
  · intro input items rows raced rows' runId date recoverUniqueViolation run hv hkey hfirst raced'
      runId' date'
    have hagain := createStoredRun_again hv hkey hfirst raced' runId' date'
    exact ⟨hagain.1 true, hagain.2⟩
  · intro runId nodeName children rows raced existing rows' date hv hne hfirst raced' date'
    exact ensureNodeChildren_again hv hne hfirst raced' date'
  · intro params child child' rows raced rows' runId date run hv hkeys hfirst hfresh hown raced'
      runId' date'
    exact ensureChildRun_again hv hkeys hfirst hfresh hown raced' runId' date'

/-- A database that keeps each value as it is given. -/
def keepingJsonb : Jsonb where
  store := some
  canon_eq := by
    rintro j _ ⟨⟩
    rfl
  nodup := by
    rintro j _ ⟨⟩ h
    exact h

/-- A run with an object as its input. -/
def keyedRun (entries : List (JsString × JsValue)) : CreateRunInput JsValue where
  workflowName := "report"
  input := .obj entries
  idempotencyKey := some (.arr [.str (Json.ofString "daily")])

/-- The results of two calls with the same run, on no rows. -/
def createTwice (input : CreateRunInput JsValue) :
    Except StoreError (Row × Bool) × Except StoreError (Row × Bool) :=
  let (result, rows) := createStoredRunWithState keepingJsonb [] input [] "1" 0 true
  (result, (createStoredRunWithState keepingJsonb rows input [] "2" 1 true).1)

/-- An array and an object in an object. -/
def nestedEntries : List (JsString × JsValue) :=
  [(Json.ofString "days", .arr [.bool true, .str (Json.ofString "mon")]),
    (Json.ofString "range", .obj [(Json.ofString "from", .null)])]

theorem plain_nested : Plain (.obj nestedEntries) := by
  refine .obj (List.forall_mem_cons.mpr ⟨.arr ?_, List.forall_mem_cons.mpr ⟨.obj ?_, nofun⟩⟩)
  · exact List.forall_mem_cons.mpr ⟨.bool _, List.forall_mem_cons.mpr ⟨.str _, nofun⟩⟩
  · exact List.forall_mem_cons.mpr ⟨.null, nofun⟩

theorem wellFormed_nested : WellFormed (.obj nestedEntries) := by
  refine .obj (by decide)
    (List.forall_mem_cons.mpr ⟨.arr ?_, List.forall_mem_cons.mpr ⟨.obj (by decide) ?_, nofun⟩⟩)
  · exact List.forall_mem_cons.mpr ⟨.bool _, List.forall_mem_cons.mpr ⟨.str _, nofun⟩⟩
  · exact List.forall_mem_cons.mpr ⟨.null, nofun⟩

def nestedItems : List (EnsureNodeChildInput JsValue) :=
  [{ childKey := "item:0", kind := .activity, item := some (.obj nestedEntries) }]

def nestedParams : EnsureChildRunParams JsValue where
  runId := "1"
  nodeName := "n"
  childKey := "$self"
  childKind := .workflow
  childName := "child"
  input := .obj nestedEntries
  rootRunId := "1"

def startingChild : StoredNodeChild JsonValue :=
  (newChild keepingJsonb "1" "n" 0 { childKey := "$self", kind := .workflow }).toStoredNodeChild

/-- A nested input is found again, as a value, by a run, by a map item and by a child run. -/
theorem nested_input_again :
    (∃ j, image (.obj nestedEntries) = some j ∧ sameValue (ofJson j) (.obj nestedEntries) = true) ∧
    (createStoredRunWithState keepingJsonb
      (createStoredRunWithState keepingJsonb [] (keyedRun nestedEntries) [] "1" 0 true).2
      (keyedRun nestedEntries) [] "2" 1 true).1.map Prod.snd = .ok false ∧
    (ensureNodeChildren keepingJsonb "1" "n" 1 nestedItems
      (ensureNodeChildren keepingJsonb "1" "n" 0 nestedItems [] []).2 []).1.map Prod.snd =
        .ok false ∧
    let first := ensureChildRun keepingJsonb startingChild [] nestedParams [] "2" 0
    (ensureChildRun keepingJsonb first.2.1 first.2.2 nestedParams [] "3" 1).1.map Prod.snd =
      .ok false := by
  obtain ⟨hvalue, hcreate, hchildren, hrun⟩ := same_again_iff keepingJsonb
  refine ⟨⟨_, rfl, (hvalue _ _ _ wellFormed_nested rfl rfl).mpr plain_nested⟩, ?_, ?_, ?_⟩
  · obtain ⟨run, rows, hfirst⟩ : ∃ run rows, createStoredRunWithState keepingJsonb []
        (keyedRun nestedEntries) [] "1" 0 true = (.ok (run, true), rows) := ⟨_, _, rfl⟩
    have hagain := hcreate _ _ [] [] _ "1" 0 true _ wellFormed_nested rfl hfirst [] "2" 1
    rw [hfirst]
    exact congrArg (Except.map Prod.snd) (hagain.1.mpr plain_nested)
  · have hagain := hchildren "1" "n" nestedItems [] [] _ _ 0
      (List.forall_mem_singleton.mpr wellFormed_nested) (by simp [nestedItems]) rfl [] 1
    exact congrArg (Except.map Prod.snd)
      (hagain.1.mpr (List.forall_mem_singleton.mpr plain_nested))
  · obtain ⟨run, child, rows, hfirst, hid⟩ : ∃ run child rows, ensureChildRun keepingJsonb
        startingChild [] nestedParams [] "2" 0 = (.ok (run, true), child, rows) ∧ run.id = "2" :=
      ⟨_, _, _, rfl, rfl⟩
    have hkey {key : JsValue} : key ∉ nestedParams.idempotencyKey := Option.not_mem_none key
    have hagain := hrun nestedParams startingChild child [] [] rows "2" 0 run wellFormed_nested
      (fun _ h => absurd h hkey) hfirst (fun _ h => absurd h List.not_mem_nil) hid [] "3" 1
    dsimp only
    rw [hfirst]
    exact congrArg (Except.map Prod.snd) (hagain.mpr ⟨plain_nested, fun _ h => absurd h hkey⟩)

/-- A key of the input that is `undefined` or a date is a conflict with the run that was created with
it. -/
theorem same_input_conflicts :
    ((createTwice (keyedRun [(Json.ofString "at", .undefined)])).1.isOk = true ∧
      (createTwice (keyedRun [(Json.ofString "at", .undefined)])).2 =
        .error (.message "Conflicting idempotent run [report]")) ∧
    (createTwice (keyedRun [(Json.ofString "at",
      .exotic [] (some (.str (Json.ofString "2026-01-01T00:00:00.000Z"))))])).2 =
        .error (.message "Conflicting idempotent run [report]") := by
  refine ⟨⟨?_, rfl⟩, rfl⟩
  decide +kernel

end Neemata.Workflows.Postgres
