import Neemata.Lib.Binary64
import Neemata.Lib.JsValue
import Neemata.Lib.Pages
import Neemata.Protocol.JsonRoundTrip
import Neemata.Workflows.InMemory.Mem

/-!
# Listing runs

`listRuns` of `runtime/in-memory.ts`, with its filter, and a reader that follows `nextCursor`. The
end of a page is a sum of doubles: it goes on by one run at least and by the limit, rounded up, at
most. So the pages are the matching runs in order (`pages_partition`); a limit that is not whole can
be exceeded (`page_exceeds_limit`).
-/

namespace Neemata.Workflows.Listing

open Json (JsString)
open Binary64 (Double)
open Protocol.JsonCodec (isWhiteSpace sign digits numeral)

structure ListRunsFilter where
  kind : Option RunKind := none
  name : Option String := none
  /-- A status that is no array is the list of it. -/
  status : Option (List RuntimeRunStatus) := none
  createdBefore : Option Nat := none
  /-- `some none` is `null`. -/
  parentRunId : Option (Option String) := none
  rootRunId : Option String := none
  tags : Option (List (String × String)) := none
  input : JsValue := .undefined
  limit : Option Double := none
  cursor : Option JsString := none

/-- `Invalid run list cursor [cursor]` -/
structure InvalidCursor where
  cursor : Option JsString

structure ListRunsResult where
  runs : List (StoredRun JsValue)
  nextCursor : Option JsString

/-! ## The filter -/

mutual

/-- `jsonContains`, by the expected value. -/
def jsonContains (expected target : JsValue) : Bool :=
  match expected with
  | .undefined => true
  | .arr items =>
    match target with
    | .arr targets => containsItems items targets
    | _ => false
  | .obj entries | .exotic entries _ =>
    match target.entries? with
    | some record => containsEntries entries record
    | none => false
  | expected => target.sameLeaf expected

/-- `every` and `some` pass over empty slots. -/
def containsItems : List JsValue → List JsValue → Bool
  | [], _ => true
  | .hole :: items, targets => containsItems items targets
  | item :: items, targets =>
    (targets.any fun target => match target with
      | .hole => false
      | target => jsonContains item target) && containsItems items targets

def containsEntries : List (JsString × JsValue) → List (JsString × JsValue) → Bool
  | [], _ => true
  | (key, value) :: entries, record =>
    jsonContains value (JsValue.property record key) && containsEntries entries record

end

def runMatchesFilter (run : StoredRun JsValue) (filter : ListRunsFilter) : Bool :=
  filter.kind.all (run.kind = ·) && filter.name.all (run.name = ·) &&
  filter.status.all (run.status ∈ ·) && filter.createdBefore.all (run.createdAt < ·) &&
  filter.parentRunId.all (run.parentRunId = ·) && filter.rootRunId.all (run.rootRunId = ·) &&
  filter.tags.all (·.all fun (key, value) => run.tags.lookup key = some value) &&
  jsonContains filter.input run.input

/-! ## Pages -/

/-- `Number.parseInt(cursor, 10)` -/
def parseInt10 (s : JsString) : Double :=
  let (negative, s) := sign (s.dropWhile isWhiteSpace)
  match digits 10 s with
  | [] => .nan
  | ds =>
    let n : Nat := ds.foldl (fun n d => 10 * n + d) 0
    .round (if negative then -(n : ℚ) else n)

/-- `Number.isInteger(offset) && offset >= 0`, with the number. -/
def integerOffset : Double → Option Nat
  | .finite offset => if offset.den = 1 ∧ 0 ≤ offset then some offset.num.toNat else none
  | .infinite _ | .nan => none

/-- The end of a slice, from the second argument. -/
def relativeEnd (length : Nat) : Double → Nat
  | .finite stop =>
    let stop : Int := if 0 ≤ stop then ⌊stop⌋ else ⌈stop⌉
    if stop < 0 then (length + stop).toNat else min stop.toNat length
  | .infinite negative => if negative then 0 else length
  | .nan => 0

/-- `Number.isFinite(limit) && limit >= 1` -/
def acceptsLimit : Double → Bool
  | .finite limit => 1 ≤ limit
  | .infinite _ | .nan => false

variable (localeCompare : String → String → Ordering)

/-- Not positive, as the comparator of a sort. -/
def compareRunsNewest (left right : StoredRun JsValue) : Prop :=
  right.createdAt < left.createdAt ∨
    (right.createdAt = left.createdAt ∧ localeCompare right.id left.id ≠ .gt)

instance (left right : StoredRun JsValue) :
    Decidable (compareRunsNewest localeCompare left right) :=
  inferInstanceAs (Decidable (_ ∨ _))

variable (m : Mem JsValue)

/-- The runs that a filter matches, in the order of the listing. -/
def matching (filter : ListRunsFilter) : List (StoredRun JsValue) :=
  (m.runs.values.filter fun run => runMatchesFilter run filter).insertionSort
    (compareRunsNewest localeCompare)

/-- An empty cursor is none. -/
def ListRunsFilter.offset (filter : ListRunsFilter) : Double :=
  match filter.cursor with
  | none | some [] => .finite 0
  | some cursor => parseInt10 cursor

def listRuns (filter : ListRunsFilter) : Except InvalidCursor ListRunsResult :=
  let limit := filter.limit.getD (.infinite false)
  if filter.limit.any (!acceptsLimit ·) then .ok ⟨[], none⟩
  else
    match integerOffset filter.offset with
    | none => .error ⟨filter.cursor⟩
    | some start =>
      let filtered := matching localeCompare m filter
      let page := Pages.slice filtered start
        (relativeEnd filtered.length (filter.offset.add limit))
      let nextOffset := start + page.length
      .ok ⟨page, if nextOffset < filtered.length then some (numeral nextOffset) else none⟩

/-- A reader that follows `nextCursor`; `none` stands for one that has given up or met an error. -/
def follow (filter : ListRunsFilter) : Nat → Option (List (List (StoredRun JsValue)))
  | 0 => none
  | fuel + 1 =>
    match listRuns localeCompare m filter with
    | .error _ => none
    | .ok result =>
      match result.nextCursor with
      | none => some [result.runs]
      | some cursor => (follow { filter with cursor := some cursor } fuel).map (result.runs :: ·)

/-! ## The end of a page -/

theorem relativeEnd_finite {length : Nat} {stop : ℚ} (h : 0 ≤ stop) :
    relativeEnd length (.finite stop) = min ⌊stop⌋.toNat length := by
  have hfloor : ¬ ⌊stop⌋ < 0 := not_lt.mpr (Int.floor_nonneg.mpr h)
  rw [relativeEnd, if_pos h, if_neg hfloor]

/-- A page that begins before the end goes on, by the limit rounded up at most. -/
theorem relativeEnd_add {length n : Nat} {limit : ℚ} (hlength : length < 2 ^ 32) (hn : n < length)
    (hlimit : 1 ≤ limit) :
    n < relativeEnd length ((Double.finite n).add (.finite limit)) ∧
      relativeEnd length ((Double.finite n).add (.finite limit)) ≤ n + ⌈limit⌉.toNat := by
  have hpos : (0 : ℚ) ≤ n + limit := by positivity
  have hceil : limit ≤ ⌈limit⌉ := Int.le_ceil limit
  have hnonneg : 0 ≤ ⌈limit⌉ := Int.ceil_nonneg (by linarith)
  have hlow : ((n + 1 : ℤ) : ℚ) ≤ Binary64.nearest (n + limit) := by
    refine Binary64.intCast_le_nearest (by omega) hpos ?_
    push_cast
    linarith
  have hup : n + ⌈limit⌉ < 2 ^ 53 → Double.round (n + limit) = .finite (Binary64.nearest (n + limit)) ∧
      Binary64.nearest (n + limit) ≤ ((n + ⌈limit⌉ : ℤ) : ℚ) := by
    intro h
    have hle : (n + limit : ℚ) ≤ ((n + ⌈limit⌉ : ℤ) : ℚ) := by
      push_cast
      linarith
    have habs : |(n + limit : ℚ)| ≤ ((n + ⌈limit⌉ : ℤ) : ℚ) := by rwa [abs_of_nonneg hpos]
    refine ⟨Double.round_of_abs_le h habs, Binary64.nearest_le_intCast ?_ hle⟩
    exact habs.trans_lt (by exact_mod_cast h)
  have hfloor : (n : ℤ) + 1 ≤ ⌊Binary64.nearest (n + limit)⌋ := Int.le_floor.mpr hlow
  have hnearest : 0 ≤ Binary64.nearest (n + limit) := by
    refine le_trans ?_ hlow
    push_cast
    positivity
  have hsum : (Double.finite n).add (.finite limit) = Double.round (n + limit) := rfl
  rw [hsum]
  by_cases hsmall : n + ⌈limit⌉ < 2 ^ 53
  · obtain ⟨hround, hnearest_le⟩ := hup hsmall
    have hfloor_le : ⌊Binary64.nearest (n + limit)⌋ ≤ n + ⌈limit⌉ := by
      exact_mod_cast (Int.floor_le _).trans hnearest_le
    rw [hround, relativeEnd_finite hnearest]
    omega
  · unfold Double.round
    split
    · rw [decide_eq_false (not_lt.mpr hpos), relativeEnd, if_neg nofun]
      omega
    · rw [relativeEnd_finite hnearest]
      omega

/-! ## The reader -/

theorem parseInt10_numeral {n : Nat} (h : n < 2 ^ 53) : parseInt10 (numeral n) = .finite n := by
  obtain ⟨hsign, _, hne, hvalue⟩ := Protocol.JsonCodec.digits_numeral n
  have hround : Double.round n = .finite n := by
    exact_mod_cast Double.round_intCast (m := n) (by rw [Nat.abs_cast]; exact_mod_cast h)
  unfold parseInt10
  rw [hsign]
  dsimp only
  split
  · next hnil => exact absurd hnil hne
  · rw [hvalue]
    exact hround

theorem integerOffset_natCast (n : Nat) : integerOffset (.finite n) = some n := by
  have hnonneg : (0 : ℚ) ≤ n := n.cast_nonneg
  rw [integerOffset, if_pos ⟨Rat.den_natCast n, hnonneg⟩, Rat.num_natCast]
  rfl

theorem offset_numeral {filter : ListRunsFilter} {n : Nat} (h : n < 2 ^ 53) :
    ListRunsFilter.offset { filter with cursor := some (numeral n) } = .finite n := by
  have hne : numeral n ≠ [] := fun h => Nat.toDigits_ne_nil (List.map_eq_nil_iff.mp h)
  unfold ListRunsFilter.offset
  split
  · next h => cases h
  · next heq => exact absurd (Option.some.inj heq) hne
  · next heq =>
    cases heq
    exact parseInt10_numeral h

/-- Where the page from an offset ends. -/
def ListRunsFilter.stop (filter : ListRunsFilter) (length n : Nat) : Nat :=
  relativeEnd length ((Double.finite n).add (filter.limit.getD (.infinite false)))

variable {localeCompare m} {filter : ListRunsFilter}

theorem listRuns_eq {n : Nat} (hlimit : filter.limit.all acceptsLimit = true)
    (hoffset : filter.offset = .finite n) :
    listRuns localeCompare m filter =
      let filtered := matching localeCompare m filter
      let page := Pages.slice filtered n (filter.stop filtered.length n)
      .ok ⟨page, if n + page.length < filtered.length then some (numeral (n + page.length))
        else none⟩ := by
  have haccepts : ¬ filter.limit.any (!acceptsLimit ·) = true := by
    cases hcase : filter.limit with
    | none => nofun
    | some limit =>
      rw [hcase] at hlimit
      rw [Option.any_some, show acceptsLimit limit = true from hlimit]
      nofun
  unfold listRuns
  dsimp only
  rw [if_neg haccepts, hoffset, integerOffset_natCast]
  rfl

/-- The reader cuts the matching runs into pages. -/
theorem follow_eq (hlimit : filter.limit.all acceptsLimit = true)
    (hlength : (matching localeCompare m filter).length < 2 ^ 32) (fuel : Nat) {n : Nat}
    {cursor : Option JsString} (hoffset : ListRunsFilter.offset { filter with cursor } = .finite n) :
    follow localeCompare m { filter with cursor } fuel =
      Pages.cut (filter.stop (matching localeCompare m filter).length)
        (matching localeCompare m filter) fuel n := by
  induction fuel generalizing n cursor with
  | zero => rfl
  | succ fuel ih =>
    have hmatching : matching localeCompare m { filter with cursor } =
        matching localeCompare m filter := rfl
    have hstop : ListRunsFilter.stop { filter with cursor } = filter.stop := rfl
    have hresult := @listRuns_eq localeCompare m { filter with cursor } n hlimit hoffset
    rw [follow, hresult, hmatching, hstop, Pages.cut]
    dsimp only
    by_cases hnext : n + (Pages.slice (matching localeCompare m filter) n
        (filter.stop (matching localeCompare m filter).length n)).length <
      (matching localeCompare m filter).length
    · rw [if_pos hnext, if_pos hnext]
      dsimp only
      rw [ih (offset_numeral (Nat.lt_trans hnext (by omega)))]
    · rw [if_neg hnext, if_neg hnext]

/-- The pages go on, by the limit rounded up at most. -/
theorem stop_bounds (hlimit : filter.limit.all acceptsLimit = true) {length : Nat}
    (hlength : length < 2 ^ 32) :
    ∃ bound : Nat, (∀ n < length, n < filter.stop length n) ∧
      (∀ n < length, filter.stop length n ≤ n + bound) ∧
      ∀ limit, filter.limit = some (.finite limit) → (bound : ℤ) = ⌈limit⌉ := by
  unfold ListRunsFilter.stop
  cases hcase : filter.limit with
  | none =>
    have hend : ∀ n : Nat, relativeEnd length ((Double.finite n).add (.infinite false)) = length :=
      fun _ => rfl
    refine ⟨length, fun n hn => ?_, fun n _ => ?_, nofun⟩
    · exact hn.trans_eq (hend n).symm
    · exact (hend n).trans_le (Nat.le_add_left length n)
  | some limit =>
    rw [hcase] at hlimit
    cases limit with
    | finite limit =>
      have hone : 1 ≤ limit := of_decide_eq_true hlimit
      refine ⟨⌈limit⌉.toNat, fun n hn => (relativeEnd_add hlength hn hone).1,
        fun n hn => (relativeEnd_add hlength hn hone).2, fun limit' h => ?_⟩
      cases h
      exact Int.toNat_of_nonneg (Int.ceil_nonneg (by linarith))
    | infinite _ | nan => cases hlimit

/-- What a sort by `r` keeps of a coarser order `R`. `List.pairwise_insertionSort` asks `r` itself to
be total and transitive, which a comparison that leaves ties to any `localeCompare` is not. -/
theorem pairwise_insertionSort_of_imp {α : Type} {r R : α → α → Prop} [DecidableRel r]
    (htrans : ∀ a b c, R a b → R b c → R a c) (hr : ∀ a b, r a b → R a b)
    (hnr : ∀ a b, ¬ r a b → R b a) (l : List α) : (l.insertionSort r).Pairwise R := by
  have hinsert : ∀ (a : α) (l : List α), l.Pairwise R → (l.orderedInsert r a).Pairwise R := by
    intro a l h
    induction l with
    | nil => exact List.pairwise_singleton R a
    | cons b l ih =>
      obtain ⟨hb, hl⟩ := List.pairwise_cons.mp h
      rw [List.orderedInsert_cons]
      split
      · next hab =>
        refine List.pairwise_cons.mpr ⟨fun c hc => ?_, h⟩
        rcases List.mem_cons.mp hc with rfl | hc
        · exact hr a c hab
        · exact htrans a b c (hr a b hab) (hb c hc)
      · next hab =>
        refine List.pairwise_cons.mpr ⟨fun c hc => ?_, ih hl⟩
        rcases (List.mem_orderedInsert r).mp hc with rfl | hc
        · exact hnr c b hab
        · exact hb c hc
  induction l with
  | nil => exact .nil
  | cons a l ih => exact hinsert a _ ih

/-- Every limit that is accepted gives pages that are, one after the other, the runs that match,
newest first; each but the last has a run, and none has more than the limit, rounded up. -/
theorem pages_partition (localeCompare : String → String → Ordering) (m : Mem JsValue)
    (filter : ListRunsFilter) (hruns : m.runs.values.length < 2 ^ 32)
    (hlimit : filter.limit.all acceptsLimit = true) (hcursor : filter.cursor = none) :
    ∃ pages : List (List (StoredRun JsValue)),
      (∀ fuel, m.runs.values.length < fuel →
        follow localeCompare m filter fuel = some pages) ∧
      pages.flatten.Perm (m.runs.values.filter fun run => runMatchesFilter run filter) ∧
      pages.flatten.Pairwise (fun earlier later => later.createdAt ≤ earlier.createdAt) ∧
      (∀ page ∈ pages.dropLast, page ≠ []) ∧
      ∀ limit, filter.limit = some (.finite limit) → ∀ page ∈ pages,
        (page.length : ℤ) ≤ ⌈limit⌉ := by
  have hperm : (matching localeCompare m filter).Perm
      (m.runs.values.filter fun run => runMatchesFilter run filter) := List.perm_insertionSort _ _
  have hle : (matching localeCompare m filter).length ≤ m.runs.values.length :=
    hperm.length_eq.trans_le (List.length_filter_le _ _)
  have hlength : (matching localeCompare m filter).length < 2 ^ 32 := by omega
  obtain ⟨bound, hgoes, hbound, hlimit_eq⟩ := stop_bounds hlimit hlength
  obtain ⟨pages, hcut, hflatten, hfull, hshort⟩ := Pages.cut_eq hgoes hbound (Nat.zero_le _)
  rw [List.drop_zero] at hflatten
  have hfirst : ListRunsFilter.offset { filter with cursor := none } = .finite (0 : Nat) := rfl
  have hsame : { filter with cursor := none } = filter := by rw [← hcursor]
  refine ⟨pages, fun fuel hfuel => ?_, ?_, ?_, hfull, fun limit h page hpage => ?_⟩
  · have heq := follow_eq hlimit hlength fuel hfirst
    rw [hsame, hcut fuel (by omega)] at heq
    exact heq
  · rwa [hflatten]
  · rw [hflatten]
    refine pairwise_insertionSort_of_imp (fun a b c hab hbc => hbc.trans hab) (fun a b h => ?_)
      (fun a b h => ?_) _
    · rcases h with h | h
      · exact h.le
      · exact h.1.le
    · exact not_lt.mp fun hlt => h (.inl hlt)
  · have hcount := hshort page hpage
    rw [← hlimit_eq limit h]
    exact_mod_cast hcount

/-- A run of the sample store. -/
def sampleRun (id : String) (createdAt : Nat) : StoredRun JsValue where
  id := id
  kind := .workflow
  name := "orders"
  workflowName := "orders"
  taskName := none
  status := .completed
  input := .null
  output := none
  error := none
  parentRunId := none
  parentNodeName := none
  rootRunId := id
  tags := []
  idempotencyKey := none
  unique := none
  version := 1
  createdAt := createdAt
  updatedAt := createdAt

def sampleStore : Mem JsValue :=
  { runs := ["a", "b", "c", "d"].zipIdx.foldl
      (fun runs (id, createdAt) => runs.set id (sampleRun id createdAt)) .empty }

/-- The greatest double below two. -/
def belowTwo : ℚ := (2 ^ 53 - 1) / 2 ^ 52

theorem pages_partition_two : ∃ pages : List (List (StoredRun JsValue)),
    (∀ fuel, sampleStore.runs.values.length < fuel →
      follow compare sampleStore { limit := some (.finite 2) } fuel = some pages) ∧
    pages.flatten.Perm (sampleStore.runs.values.filter fun run =>
      runMatchesFilter run { limit := some (.finite 2) }) ∧
    pages.flatten.Pairwise (fun earlier later => later.createdAt ≤ earlier.createdAt) ∧
    (∀ page ∈ pages.dropLast, page ≠ []) ∧
    ∀ limit, ({ limit := some (.finite 2) } : ListRunsFilter).limit = some (.finite limit) →
      ∀ page ∈ pages, (page.length : ℤ) ≤ ⌈limit⌉ :=
  pages_partition compare sampleStore { limit := some (.finite 2) } (by decide) (by decide +kernel) rfl

/-- The sum of an offset and of a limit that is not whole is rounded up to the next integer. -/
theorem page_exceeds_limit :
    acceptsLimit (.finite belowTwo) = true ∧
      ∃ pages, follow compare sampleStore { limit := some (.finite belowTwo) } 5 = some pages ∧
        ∃ page ∈ pages.dropLast, belowTwo < page.length := by
  have hlengths : (follow compare sampleStore { limit := some (.finite belowTwo) } 5).map
      (·.map List.length) = some [1, 2, 1] := by decide +kernel
  obtain ⟨pages, hpages, hlengths⟩ := Option.map_eq_some_iff.mp hlengths
  refine ⟨by decide +kernel, pages, hpages, ?_⟩
  obtain ⟨first, rest, rfl, -, hrest⟩ := List.map_eq_cons_iff.mp hlengths
  obtain ⟨second, rest, rfl, hsecond, hrest⟩ := List.map_eq_cons_iff.mp hrest
  obtain ⟨third, rest, rfl, -, -⟩ := List.map_eq_cons_iff.mp hrest
  refine ⟨second, List.mem_cons_of_mem _ List.mem_cons_self, ?_⟩
  rw [hsecond]
  decide +kernel

end Neemata.Workflows.Listing
