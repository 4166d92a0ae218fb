import Neemata.Host.Proxy
import Mathlib.Algebra.GroupWithZero.Nat

/-!
# The upstreams of the proxy converge

In a run whose `setUpstreams` calls fit the state they meet (`Fits`), the outstanding native calls
are those of the last call, and they lead from what is applied to what is desired (`Converging`).
-/

namespace Neemata.Host

variable {ε : Type}

/-! ## Maps of upstreams -/

def Keyed (upstreams : OrdMap String UpstreamSnapshot) : Prop :=
  upstreams.All fun key upstream => upstreamKey upstream = key

/-- The native proxy tells the same upstreams apart as the keys do. -/
def Distinct (upstreams : List UpstreamSnapshot) : Prop :=
  ∀ a ∈ upstreams, ∀ b ∈ upstreams, upstreamKey a = upstreamKey b ↔ a.native = b.native

instance (upstreams : List UpstreamSnapshot) : Decidable (Distinct upstreams) :=
  inferInstanceAs (Decidable (∀ a ∈ upstreams, ∀ b ∈ upstreams, _))

theorem keyed_addDesired {c : ProxyConfig} {runtimeName : String}
    {desired desired' : OrdMap String UpstreamSnapshot} {upstream : RuntimeUpstream}
    (H : Keyed desired) (h : addDesired c runtimeName desired upstream = some desired') :
    Keyed desired' := by
  unfold addDesired at h
  obtain ⟨normalized, -, h⟩ := Option.bind_eq_some_iff.mp h
  obtain ⟨proxyUpstream, -, h⟩ := Option.bind_eq_some_iff.mp h
  dsimp only at h
  split at h
  · next current hcurrent =>
    obtain rfl := Option.some.inj h
    have hkey : upstreamKey current = _ := H _ current hcurrent
    exact H.set hkey
  · obtain rfl := Option.some.inj h
    exact H.set rfl

theorem keyed_createDesired {c : ProxyConfig} {upstreams : List RuntimeUpstreams}
    {desired : OrdMap String UpstreamSnapshot}
    (h : createDesiredUpstreams c upstreams = some desired) : Keyed desired := by
  refine Trace.foldlM_option_inv (I := Keyed) (fun desired runtime desired' H h => ?_) .empty h
  exact Trace.foldlM_option_inv (fun _ _ _ H h => keyed_addDesired H h) H h

namespace Keyed

variable {upstreams : OrdMap String UpstreamSnapshot} {upstream : UpstreamSnapshot}

theorem get?_of_mem (H : Keyed upstreams) (h : upstream ∈ upstreams.values) :
    upstreams.get? (upstreamKey upstream) = some upstream := by
  obtain ⟨key, hget⟩ := OrdMap.mem_values_iff.mp h
  rw [H key upstream hget]
  exact hget

theorem nodup (H : Keyed upstreams) : (upstreams.values.map upstreamKey).Nodup :=
  OrdMap.nodup_map_values fun {key upstream} hget => H key upstream hget

theorem filter (H : Keyed upstreams) (p : String → UpstreamSnapshot → Bool) :
    Keyed (upstreams.filter p) := OrdMap.All.filter H p

end Keyed

theorem Distinct.subset {upstreams upstreams' : List UpstreamSnapshot} (H : Distinct upstreams)
    (h : ∀ upstream ∈ upstreams', upstream ∈ upstreams) : Distinct upstreams' :=
  fun a ha b hb => H a (h a ha) b (h b hb)

theorem mem_values_erase {upstreams : OrdMap String UpstreamSnapshot} (H : Keyed upstreams)
    {key : String} {upstream : UpstreamSnapshot} :
    upstream ∈ (upstreams.erase key).values ↔
      upstream ∈ upstreams.values ∧ upstreamKey upstream ≠ key := by
  constructor
  · intro h
    obtain ⟨key', hget⟩ := OrdMap.mem_values_iff.mp h
    rw [OrdMap.get?_erase] at hget
    split at hget
    · cases hget
    · next hkey =>
      exact ⟨OrdMap.mem_values_of_get? hget, (H key' upstream hget).symm ▸ hkey⟩
  · rintro ⟨h, hkey⟩
    refine OrdMap.mem_values_of_get? (k := upstreamKey upstream) ?_
    rw [OrdMap.get?_erase, if_neg hkey]
    exact H.get?_of_mem h

theorem get?_applied {l : List UpstreamSnapshot} (hnodup : (l.map upstreamKey).Nodup)
    {applied : OrdMap String UpstreamSnapshot} {upstream : UpstreamSnapshot} (h : upstream ∈ l) :
    (addUpstreams l applied).get? (upstreamKey upstream) = some upstream := by
  unfold addUpstreams
  induction l generalizing applied with
  | nil => cases h
  | cons first l ih =>
    rw [List.map_cons, List.nodup_cons] at hnodup
    rw [List.foldl_cons]
    rcases List.mem_cons.mp h with rfl | h
    · rw [OrdMap.get?_foldl_set_of_ne]
      · exact OrdMap.get?_set_self _ _ _
      · intro other hother heq
        exact hnodup.1 (heq ▸ List.mem_map_of_mem hother)
    · exact ih hnodup.2 h

/-! ## Plans -/

/-- The native calls `rest` lead from the applied to the desired upstreams. -/
structure Planned (applied desired : OrdMap String UpstreamSnapshot)
    (rest : List (UpstreamOperation × UpstreamSnapshot)) : Prop where
  nodup : (rest.map fun e => upstreamKey e.2).Nodup
  remove : ∀ upstream, (.remove, upstream) ∈ rest →
    applied.get? (upstreamKey upstream) = some upstream
  add : ∀ upstream, (.add, upstream) ∈ rest → applied.get? (upstreamKey upstream) = none ∧
    desired.get? (upstreamKey upstream) = some upstream
  synced : ∀ key, (desired.get? key).isSome ↔
    (applied.get? key).isSome ∧
        (∀ upstream, (.remove, upstream) ∈ rest → upstreamKey upstream ≠ key) ∨
      ∃ upstream, (.add, upstream) ∈ rest ∧ upstreamKey upstream = key

namespace Planned

variable {applied desired : OrdMap String UpstreamSnapshot} {operation : UpstreamOperation}
  {upstream : UpstreamSnapshot} {rest : List (UpstreamOperation × UpstreamSnapshot)}

theorem fresh (H : Planned applied desired ((operation, upstream) :: rest)) :
    ∀ e ∈ rest, upstreamKey e.2 ≠ upstreamKey upstream := by
  intro e he heq
  refine (List.nodup_cons.mp H.nodup).1 (List.mem_map.mpr ⟨e, he, heq⟩)

theorem added (H : Planned applied desired ((.add, upstream) :: rest)) :
    Planned (applied.set (upstreamKey upstream) upstream) desired rest where
  nodup := (List.nodup_cons.mp H.nodup).2
  remove other hother := by
    rw [OrdMap.get?_set_of_ne (H.fresh (_, other) hother)]
    exact H.remove other (List.mem_cons_of_mem _ hother)
  add other hother := by
    rw [OrdMap.get?_set_of_ne (H.fresh (_, other) hother)]
    exact H.add other (List.mem_cons_of_mem _ hother)
  synced key := by
    rw [OrdMap.get?_set]
    by_cases hkey : key = upstreamKey upstream
    · rw [if_pos hkey, hkey, (H.add upstream List.mem_cons_self).2]
      exact iff_of_true rfl (.inl ⟨rfl, fun other hother => H.fresh (.remove, other) hother⟩)
    · rw [if_neg hkey, H.synced key]
      simp only [List.mem_cons, Prod.mk.injEq, reduceCtorEq, false_and, false_or, true_and]
      refine or_congr_right (exists_congr fun other => and_congr_left fun heq => ?_)
      refine or_iff_right ?_
      rintro rfl
      exact hkey heq.symm

theorem removed (H : Planned applied desired ((.remove, upstream) :: rest)) :
    Planned (applied.erase (upstreamKey upstream)) desired rest where
  nodup := (List.nodup_cons.mp H.nodup).2
  remove other hother := by
    rw [OrdMap.get?_erase, if_neg (H.fresh (_, other) hother)]
    exact H.remove other (List.mem_cons_of_mem _ hother)
  add other hother := by
    rw [OrdMap.get?_erase, if_neg (H.fresh (_, other) hother)]
    exact H.add other (List.mem_cons_of_mem _ hother)
  synced key := by
    rw [OrdMap.get?_erase, H.synced key]
    simp only [List.mem_cons, Prod.mk.injEq, true_and, reduceCtorEq, false_and, false_or]
    by_cases hkey : key = upstreamKey upstream
    · rw [if_pos hkey]
      refine iff_of_false ?_ ?_
      · rintro (⟨-, hkept⟩ | ⟨other, hother, heq⟩)
        · exact hkept upstream (.inl rfl) hkey.symm
        · exact H.fresh (_, other) hother (heq.trans hkey)
      · rintro (⟨hnone, -⟩ | ⟨other, hother, heq⟩)
        · cases hnone
        · exact H.fresh (_, other) hother (heq.trans hkey)
    · rw [if_neg hkey]
      refine or_congr_left (and_congr_right fun _ => forall_congr' fun other => ?_)
      constructor
      · exact fun h hother => h (.inr hother)
      · rintro h (rfl | hother)
        · exact fun heq => hkey heq.symm
        · exact h hother

/-- An upstream on one side only is one of those to be added or removed. -/
theorem touches (H : Planned applied desired rest) {key : String}
    (h : (desired.get? key).isSome ≠ (applied.get? key).isSome) :
    ∃ e ∈ rest, upstreamKey e.2 = key := by
  by_contra hnone
  refine h (Bool.eq_iff_iff.mpr ((H.synced key).trans ⟨?_, fun happlied => .inl ⟨happlied, ?_⟩⟩))
  · rintro (⟨happlied, -⟩ | ⟨upstream, hupstream, hkey⟩)
    · exact happlied
    · exact absurd ⟨(.add, upstream), hupstream, hkey⟩ hnone
  · exact fun upstream hupstream hkey => hnone ⟨(.remove, upstream), hupstream, hkey⟩

end Planned

/-- The difference that `reconcile` enqueues. -/
theorem planned_reconcile {p : ProxyController ε} (applied : Keyed p.applied)
    (desired : Keyed p.desired) :
    Planned p.applied p.desired
      (p.removals.map (.remove, ·) ++ p.additions.map (.add, ·)) := by
  have hremoval : ∀ upstream, upstream ∈ p.removals ↔
      p.applied.get? (upstreamKey upstream) = some upstream ∧
        p.desired.get? (upstreamKey upstream) = none := by
    intro upstream
    rw [ProxyController.removals, List.mem_filter, Option.isNone_iff_eq_none]
    exact and_congr_left fun _ => ⟨applied.get?_of_mem, OrdMap.mem_values_of_get?⟩
  have haddition : ∀ upstream, upstream ∈ p.additions ↔
      p.desired.get? (upstreamKey upstream) = some upstream ∧
        p.applied.get? (upstreamKey upstream) = none := by
    intro upstream
    rw [ProxyController.additions, List.mem_filter, Option.isNone_iff_eq_none]
    exact and_congr_left fun _ => ⟨desired.get?_of_mem, OrdMap.mem_values_of_get?⟩
  have hremove : ∀ upstream, (UpstreamOperation.remove, upstream) ∈
      p.removals.map (UpstreamOperation.remove, ·) ++ p.additions.map (UpstreamOperation.add, ·) ↔
        upstream ∈ p.removals := by
    intro upstream
    simp
  have hadd : ∀ upstream, (UpstreamOperation.add, upstream) ∈
      p.removals.map (UpstreamOperation.remove, ·) ++ p.additions.map (UpstreamOperation.add, ·) ↔
        upstream ∈ p.additions := by
    intro upstream
    simp
  refine ⟨?_, ?_, ?_, ?_⟩
  · rw [List.map_append, List.map_map, List.map_map]
    refine List.nodup_append.mpr ⟨?_, ?_, ?_⟩
    · exact applied.nodup.sublist (List.filter_sublist.map _)
    · exact desired.nodup.sublist (List.filter_sublist.map _)
    · intro key hkey key' hkey' heq
      obtain ⟨removed, hremoved, rfl⟩ := List.mem_map.mp hkey
      obtain ⟨added, hadded, rfl⟩ := List.mem_map.mp hkey'
      have hnone := ((hremoval removed).mp hremoved).2
      have hsome := ((haddition added).mp hadded).1
      have heq : upstreamKey removed = upstreamKey added := heq
      rw [← heq, hnone] at hsome
      cases hsome
  · intro upstream hupstream
    exact ((hremoval upstream).mp ((hremove upstream).mp hupstream)).1
  · intro upstream hupstream
    exact ((haddition upstream).mp ((hadd upstream).mp hupstream)).symm
  · intro key
    simp only [hremove, hadd, hremoval, haddition]
    cases hdesired : p.desired.get? key with
    | none =>
      refine iff_of_false Bool.false_ne_true ?_
      rintro (⟨happlied, hkept⟩ | ⟨upstream, ⟨hupstream, -⟩, rfl⟩)
      · obtain ⟨upstream, hupstream⟩ := Option.isSome_iff_exists.mp happlied
        have hkey := applied key upstream hupstream
        exact hkept upstream ⟨hkey ▸ hupstream, hkey ▸ hdesired⟩ hkey
      · rw [hdesired] at hupstream
        cases hupstream
    | some upstream =>
      refine iff_of_true rfl ?_
      have hkey := desired key upstream hdesired
      cases happlied : p.applied.get? key with
      | none => exact .inr ⟨upstream, ⟨hkey ▸ hdesired, hkey ▸ happlied⟩, hkey⟩
      | some _ =>
        refine .inl ⟨rfl, ?_⟩
        rintro removed ⟨-, hnone⟩ rfl
        rw [hdesired] at hnone
        cases hnone

/-- The native proxy holds the applied upstreams, each added once. -/
structure Held (applied : OrdMap String UpstreamSnapshot)
    (native : List (UpstreamOperation × String × ProxyUpstream)) : Prop where
  holds : ∀ upstream, nativeHolds upstream native ↔
    ∃ held ∈ applied.values, held.native = upstream
  once : addsOnce native

namespace Held

variable {applied : OrdMap String UpstreamSnapshot} {upstream : UpstreamSnapshot}
  {native : List (UpstreamOperation × String × ProxyUpstream)}

theorem added (H : Held applied native) (keyed : Keyed applied)
    (distinct : Distinct (upstream :: applied.values))
    (absent : applied.get? (upstreamKey upstream) = none) :
    Held (applied.set (upstreamKey upstream) upstream) ((.add, upstream.native) :: native) := by
  have hother : ∀ held ∈ applied.values, upstreamKey held ≠ upstreamKey upstream := by
    intro held hheld heq
    have hget := keyed.get?_of_mem hheld
    rw [heq, absent] at hget
    cases hget
  constructor
  · intro other
    simp only [nativeHolds, Bool.or_eq_true, decide_eq_true_eq, H.holds]
    constructor
    · rintro (rfl | ⟨held, hheld, rfl⟩)
      · exact ⟨upstream, OrdMap.mem_values_of_get? (OrdMap.get?_set_self _ _ _), rfl⟩
      · refine ⟨held, OrdMap.mem_values_of_get? (k := upstreamKey held) ?_, rfl⟩
        rw [OrdMap.get?_set_of_ne (hother held hheld)]
        exact keyed.get?_of_mem hheld
    · rintro ⟨held, hheld, rfl⟩
      rcases OrdMap.mem_values_set hheld with rfl | hheld
      · exact .inl rfl
      · exact .inr ⟨held, hheld, rfl⟩
  · simp only [addsOnce, Bool.and_eq_true, Bool.not_eq_true', H.once, and_true]
    refine Bool.eq_false_iff.mpr fun hholds => ?_
    obtain ⟨held, hheld, heq⟩ := (H.holds _).mp hholds
    exact hother held hheld ((distinct held (List.mem_cons_of_mem _ hheld) upstream
      List.mem_cons_self).mpr heq)

theorem removed (H : Held applied native) (keyed : Keyed applied)
    (distinct : Distinct applied.values) (present : upstream ∈ applied.values) :
    Held (applied.erase (upstreamKey upstream)) ((.remove, upstream.native) :: native) := by
  constructor
  · intro other
    simp only [nativeHolds, Bool.and_eq_true, decide_eq_true_eq, H.holds, mem_values_erase keyed]
    constructor
    · rintro ⟨hother, held, hheld, rfl⟩
      refine ⟨held, ⟨hheld, fun heq => hother ?_⟩, rfl⟩
      exact (distinct held hheld upstream present).mp heq
    · rintro ⟨held, ⟨hheld, hkey⟩, rfl⟩
      refine ⟨fun heq => hkey ?_, held, hheld, rfl⟩
      exact (distinct held hheld upstream present).mpr heq
  · exact H.once

end Held

namespace ProxyController

/-- A call fits a state without outstanding native calls. What has failed is on neither or on both
sides of the new difference no longer, and the native proxy tells the upstreams apart. -/
def Fits (c : ProxyConfig) (p : ProxyController ε) : ProxyEvent ε → Prop
  | .setUpstreams upstreams =>
    ∀ desired ∈ createDesiredUpstreams c (filterRuntimeUpstreams c upstreams),
      (∀ mutation ∈ p.mutations, mutation.rest = []) ∧
      (∀ key ∈ p.failures.keys, (desired.get? key).isSome ≠ (p.applied.get? key).isSome) ∧
      Distinct (p.applied.values ++ desired.values)
  | _ => True

instance (c : ProxyConfig) (p : ProxyController ε) :
    (event : ProxyEvent ε) → Decidable (Fits c p event)
  | .setUpstreams _ =>
    inferInstanceAs (Decidable (∀ desired ∈ createDesiredUpstreams c _, _))
  | .settled _ | .finished | .idle => isTrue trivial

/-- The native calls that are still to be made are those of the last `setUpstreams`, and they lead
to what it desires unless one of them has failed. -/
structure Converging (p : ProxyController ε) (idle : List (Mutation ε))
    (last : Option (Mutation ε)) : Prop where
  running : p.running
  mutations : p.mutations = idle ++ last.toList
  idle : ∀ mutation ∈ idle, mutation.rest = []
  call : ∀ mutation ∈ last, mutation.call = p.calls
  calls : ∀ call ∈ p.failed, call ≤ p.calls
  applied : Keyed p.applied
  desired : Keyed p.desired
  distinct : Distinct (p.applied.values ++ p.desired.values)
  failed : p.calls ∈ p.failed → ∀ mutation ∈ last, mutation.rest = []
  planned : p.calls ∉ p.failed → Planned p.applied p.desired (last.elim [] Mutation.rest)
  failures : p.calls ∉ p.failed → ∀ key ∈ p.failures.keys,
    ∃ e ∈ last.elim [] Mutation.rest, upstreamKey e.2 = key
  held : Held p.applied p.native

namespace Converging

variable {p : ProxyController ε} {idle : List (Mutation ε)}

theorem setUpstreams {c : ProxyConfig} {last : Option (Mutation ε)} (H : Converging p idle last)
    {upstreams : List RuntimeUpstreams} (hfits : Fits c p (.setUpstreams upstreams)) :
    ∃ idle last, Converging (p.setUpstreams c upstreams) idle last := by
  unfold ProxyController.setUpstreams
  cases hdesired : createDesiredUpstreams c (filterRuntimeUpstreams c upstreams) with
  | none => exact ⟨idle, last, H⟩
  | some desired =>
    obtain ⟨hidle, hfailures, hdistinct⟩ := hfits desired hdesired
    have hkeyed := keyed_createDesired hdesired
    have hplanned := planned_reconcile (p := { p with desired, calls := p.calls + 1 }) H.applied
      hkeyed
    have hnew : p.calls + 1 ∉ p.failed := fun h => by
      have := H.calls _ h
      omega
    refine ⟨p.mutations, some _, H.running, rfl, hidle, ?_, ?_, H.applied, hkeyed, hdistinct,
      fun h => absurd h hnew, fun _ => hplanned, ?_, H.held⟩
    · rintro mutation ⟨⟩
      rfl
    · intro call hcall
      exact Nat.le_succ_of_le (H.calls call hcall)
    · exact fun _ key hkey => hplanned.touches (hfailures key hkey)

/-- The native call at the head of the last mutation has returned. -/
theorem succeed {mutation : Mutation ε} (H : Converging p [] (some mutation))
    {operation : UpstreamOperation} {upstream : UpstreamSnapshot}
    {rest : List (UpstreamOperation × UpstreamSnapshot)}
    (hrest : mutation.rest = (operation, upstream) :: rest) :
    Converging { p.succeed operation upstream with mutations := [{ mutation with rest }] } []
      (some { mutation with rest }) := by
  have hlast : p.calls ∉ p.failed := fun h => by
    rw [H.failed h mutation rfl] at hrest
    cases hrest
  have hplanned : Planned p.applied p.desired ((operation, upstream) :: rest) := by
    rw [← hrest]
    exact H.planned hlast
  have hfailures : ∀ key ∈ (p.failures.erase (upstreamKey upstream)).keys,
      ∃ e ∈ rest, upstreamKey e.2 = key := by
    intro key hkey
    obtain ⟨entry, hentry, rfl⟩ := List.mem_map.mp hkey
    obtain ⟨hentry, hother⟩ := List.mem_filter.mp hentry
    obtain ⟨e, he, heq⟩ := H.failures hlast entry.1 (List.mem_map_of_mem hentry)
    rw [Option.elim_some, hrest] at he
    rcases List.mem_cons.mp he with rfl | he
    · exact absurd heq.symm (of_decide_eq_true hother)
    · exact ⟨e, he, heq⟩
  have hcall : ∀ mutation' ∈ some { mutation with rest }, mutation'.call = p.calls := by
    rintro mutation' ⟨⟩
    exact H.call mutation rfl
  cases operation with
  | add =>
    obtain ⟨habsent, hdesired⟩ := hplanned.add upstream List.mem_cons_self
    have hmem : upstream ∈ p.desired.values := OrdMap.mem_values_of_get? hdesired
    have hdistinct : Distinct (upstream :: p.applied.values) := H.distinct.subset fun other h =>
      (List.mem_cons.mp h).elim (fun h => List.mem_append_right _ (h ▸ hmem))
        (List.mem_append_left _)
    refine ⟨H.running, rfl, by simp, hcall, H.calls, H.applied.set rfl, H.desired, ?_,
      fun h => absurd h hlast, fun _ => hplanned.added, fun _ => hfailures,
      H.held.added H.applied hdistinct habsent⟩
    refine H.distinct.subset fun other h => ?_
    rcases List.mem_append.mp h with h | h
    · rcases OrdMap.mem_values_set h with rfl | h
      · exact List.mem_append_right _ hmem
      · exact List.mem_append_left _ h
    · exact List.mem_append_right _ h
  | remove =>
    have hmem := OrdMap.mem_values_of_get? (hplanned.remove upstream List.mem_cons_self)
    have hdistinct : Distinct p.applied.values :=
      H.distinct.subset fun other h => List.mem_append_left _ h
    refine ⟨H.running, rfl, by simp, hcall, H.calls, H.applied.filter _, H.desired, ?_,
      fun h => absurd h hlast, fun _ => hplanned.removed, fun _ => hfailures,
      H.held.removed H.applied hdistinct hmem⟩
    refine H.distinct.subset fun other h => ?_
    rcases List.mem_append.mp h with h | h
    · exact List.mem_append_left _ ((mem_values_erase H.applied).mp h).1
    · exact List.mem_append_right _ h

/-- The native call at the head of the last mutation has thrown. -/
theorem fail {mutation : Mutation ε} (H : Converging p [] (some mutation))
    (operation : UpstreamOperation) (upstream : UpstreamSnapshot) (error : ε) :
    Converging { p.fail operation upstream error with
      mutations := [{ mutation with rest := [], error := some error }]
      failed := mutation.call :: p.failed } []
      (some { mutation with rest := [], error := some error }) := by
  have hcall : mutation.call = p.calls := H.call mutation rfl
  have hlast : p.calls ∈ mutation.call :: p.failed := hcall ▸ List.mem_cons_self
  refine ⟨H.running, rfl, by simp, ?_, ?_, H.applied, H.desired, H.distinct, ?_,
    fun h => absurd hlast h, fun h => absurd hlast h, H.held⟩
  · rintro mutation' ⟨⟩
    exact hcall
  · exact List.forall_mem_cons.mpr ⟨Nat.le_of_eq hcall, H.calls⟩
  · rintro - mutation' ⟨⟩
    rfl

theorem settled {last : Option (Mutation ε)} (H : Converging p idle last) (error : Option ε) :
    ∃ idle last, Converging (p.settled error) idle last := by
  unfold ProxyController.settled
  split
  · exact ⟨idle, last, H⟩
  · next mutation mutations hmutations =>
    split
    · exact ⟨idle, last, H⟩
    all_goals
      -- the mutation with native calls left is the last one
      next hrest =>
      have hall := H.mutations
      rw [hmutations] at hall
      cases idle with
      | cons first idle =>
        obtain ⟨rfl, -⟩ := List.cons.inj hall
        rw [H.idle mutation List.mem_cons_self] at hrest
        cases hrest
      | nil =>
        obtain _ | last := last
        · cases hall
        · obtain ⟨rfl, rfl⟩ := List.cons.inj hall
          first
          | exact ⟨[], _, H.succeed hrest⟩
          | exact ⟨[], _, H.fail _ _ _⟩

theorem finished {last : Option (Mutation ε)} (H : Converging p idle last) :
    ∃ idle last, Converging p.finished idle last := by
  unfold ProxyController.finished
  split
  · exact ⟨idle, last, H⟩
  · next mutation mutations hmutations =>
    split
    · next hrest =>
      have hall := H.mutations
      rw [hmutations] at hall
      cases idle with
      | cons first idle =>
        obtain ⟨rfl, rfl⟩ := List.cons.inj hall
        exact ⟨idle, last, H.running, rfl, (List.forall_mem_cons.mp H.idle).2, H.call, H.calls,
          H.applied, H.desired, H.distinct, H.failed, H.planned, H.failures, H.held⟩
      | nil =>
        obtain _ | last := last
        · cases hall
        · obtain ⟨rfl, rfl⟩ := List.cons.inj hall
          have hplanned := H.planned
          have hfailures := H.failures
          rw [Option.elim_some, hrest] at hplanned hfailures
          exact ⟨[], none, H.running, rfl, by simp, by simp, H.calls, H.applied, H.desired,
            H.distinct, by simp, hplanned, hfailures, H.held⟩
    · exact ⟨idle, last, H⟩

theorem step {c : ProxyConfig} {last : Option (Mutation ε)} (H : Converging p idle last)
    {event : ProxyEvent ε} (hfits : Fits c p event) :
    ∃ idle last, Converging (p.step c event) idle last := by
  cases event with
  | setUpstreams upstreams => exact H.setUpstreams hfits
  | settled error => exact H.settled error
  | finished => exact H.finished
  | idle =>
    simp only [ProxyController.step]
    split
    · exact ⟨idle, last, H.running, H.mutations, H.idle, H.call, H.calls, H.applied, H.desired,
        H.distinct, H.failed, H.planned, H.failures, H.held⟩
    · exact ⟨idle, last, H⟩

/-- What the additions of `start` leave. -/
theorem held_start {l : List UpstreamSnapshot} {applied : OrdMap String UpstreamSnapshot}
    {calls : List (UpstreamOperation × String × ProxyUpstream)} (H : Held applied calls)
    (keyed : Keyed applied) (distinct : Distinct (applied.values ++ l))
    (nodup : (l.map upstreamKey).Nodup)
    (absent : ∀ upstream ∈ l, applied.get? (upstreamKey upstream) = none) :
    Held (addUpstreams l applied)
      ((l.map fun upstream => (UpstreamOperation.add, upstream.native)).reverse ++ calls) := by
  induction l generalizing applied calls with
  | nil => exact H
  | cons upstream l ih =>
    rw [List.map_cons, List.nodup_cons] at nodup
    have hheld := H.added keyed (distinct.subset fun other h => ?_)
      (absent upstream List.mem_cons_self)
    · rw [List.map_cons, List.reverse_cons, List.append_assoc]
      refine ih hheld (keyed.set rfl) (distinct.subset fun other h => ?_) nodup.2 ?_
      · rcases List.mem_append.mp h with h | h
        · rcases OrdMap.mem_values_set h with rfl | h
          · exact List.mem_append_right _ List.mem_cons_self
          · exact List.mem_append_left _ h
        · exact List.mem_append_right _ (List.mem_cons_of_mem _ h)
      · intro other hother
        rw [OrdMap.get?_set_of_ne]
        · exact absent other (List.mem_cons_of_mem _ hother)
        · exact fun heq => nodup.1 (List.mem_map.mpr ⟨other, hother, heq⟩)
    · rcases List.mem_cons.mp h with rfl | h
      · exact List.mem_append_right _ List.mem_cons_self
      · exact List.mem_append_left _ h

theorem start {c : ProxyConfig} {upstreams : List RuntimeUpstreams}
    (hstart : ProxyController.start c upstreams = some p) (distinct : Distinct p.desired.values) :
    Converging p [] none := by
  obtain ⟨desired, hdesired, hp⟩ := Option.bind_eq_some_iff.mp hstart
  obtain rfl := Option.some.inj hp
  have hkeyed := keyed_createDesired hdesired
  have hfrom : (addUpstreams desired.values .empty).All
      fun key upstream => desired.get? key = some upstream :=
    OrdMap.All.foldl_set .empty fun upstream h => hkeyed.get?_of_mem h
  have hto : ∀ upstream ∈ desired.values,
      (addUpstreams desired.values .empty).get? (upstreamKey upstream) = some upstream :=
    fun upstream h => get?_applied hkeyed.nodup h
  have hsame : ∀ key, (desired.get? key).isSome ↔
      ((addUpstreams desired.values .empty).get? key).isSome := by
    intro key
    constructor
    · intro h
      obtain ⟨upstream, hget⟩ := Option.isSome_iff_exists.mp h
      have hkey := hkeyed key upstream hget
      rw [← hkey, hto upstream (OrdMap.mem_values_of_get? hget)]
      rfl
    · intro h
      obtain ⟨upstream, hget⟩ := Option.isSome_iff_exists.mp h
      rw [hfrom key upstream hget]
      rfl
  have hempty : Held .empty [] := ⟨by simp [nativeHolds, OrdMap.values, OrdMap.empty], rfl⟩
  have hheld := held_start hempty .empty distinct hkeyed.nodup fun _ _ => rfl
  rw [List.append_nil] at hheld
  refine ⟨rfl, rfl, by simp, by simp, by simp, ?_, hkeyed, ?_, by simp, fun _ => ?_, ?_, hheld⟩
  · exact hfrom.mono fun key upstream hget => hkeyed key upstream hget
  · refine distinct.subset fun upstream h => ?_
    rcases List.mem_append.mp h with h | h
    · obtain ⟨key, hget⟩ := OrdMap.mem_values_iff.mp h
      exact OrdMap.mem_values_of_get? (hfrom key upstream hget)
    · exact h
  · refine ⟨List.nodup_nil, by simp, by simp, fun key => ?_⟩
    simpa using hsame key
  · intro _ key hkey
    cases hkey

/-- With no mutation left and no native call of the last `setUpstreams` failed, what is applied is
what is desired. -/
theorem converged {last : Option (Mutation ε)} (H : Converging p idle last)
    (hidle : p.mutations = []) (hlast : p.calls ∉ p.failed) :
    (∀ key, (p.applied.get? key).isSome ↔ (p.desired.get? key).isSome) ∧
      p.failures = .empty ∧ p.getHealth.ready := by
  have hnone : last = none := by
    have hall := H.mutations
    rw [hidle] at hall
    cases last with
    | none => rfl
    | some mutation => simp at hall
  have hplanned := H.planned hlast
  have hfailures := H.failures hlast
  rw [hnone] at hplanned hfailures
  have hsame : ∀ key, (p.applied.get? key).isSome ↔ (p.desired.get? key).isSome := by
    intro key
    simpa using (hplanned.synced key).symm
  have hempty : p.failures.entries = [] := by
    refine List.eq_nil_iff_forall_not_mem.mpr fun entry hentry => ?_
    obtain ⟨e, he, -⟩ := hfailures entry.1 (List.mem_map_of_mem hentry)
    cases he
  have hkeys : ∀ {upstreams : OrdMap String UpstreamSnapshot} {key : String},
      key ∈ upstreams.keys ↔ (upstreams.get? key).isSome := by
    intro upstreams key
    rw [← not_iff_not, ← OrdMap.get?_eq_none_iff, Option.not_isSome_iff_eq_none]
  have hlength : p.desired.values.length = p.applied.values.length := by
    have hperm := (List.perm_ext_iff_of_nodup p.desired.nodup p.applied.nodup).mpr fun key =>
      (hkeys.trans (hsame key).symm).trans hkeys.symm
    have := hperm.length_eq
    rw [List.length_map, List.length_map] at this
    rw [OrdMap.values, OrdMap.values, List.length_map, List.length_map]
    exact this
  refine ⟨hsame, OrdMap.ext hempty, ?_⟩
  have hsynced : p.desired.values.all
      fun upstream => (p.applied.get? (upstreamKey upstream)).isSome := by
    refine List.all_eq_true.mpr fun upstream h => (hsame _).mpr ?_
    rw [H.desired.get?_of_mem h]
    rfl
  simp [getHealth, H.running, hidle, OrdMap.values, hempty] at hsynced hlength ⊢
  exact ⟨hlength, hsynced⟩

end Converging

section Runs

open Trace

/-- What the last `setUpstreams` desires of those whose URLs parse. -/
def desires (c : ProxyConfig) (desired : OrdMap String UpstreamSnapshot) :
    ProxyEvent ε → OrdMap String UpstreamSnapshot
  | .setUpstreams upstreams =>
    (createDesiredUpstreams c (filterRuntimeUpstreams c upstreams)).getD desired
  | _ => desired

/-- Some native call has thrown since that `setUpstreams`. -/
def throws (c : ProxyConfig) (thrown : Bool) : ProxyEvent ε → Bool
  | .setUpstreams upstreams =>
    thrown && (createDesiredUpstreams c (filterRuntimeUpstreams c upstreams)).isNone
  | .settled error => thrown || error.isSome
  | .finished | .idle => thrown

/-- The answers that the mutations wait for. -/
def pending (p : ProxyController ε) : Nat :=
  (p.mutations.map fun mutation => mutation.rest.length + 1).sum

theorem desired_settled (p : ProxyController ε) (error : Option ε) :
    (p.settled error).desired = p.desired := by
  unfold settled
  split
  · rfl
  · split <;> rfl

theorem desired_finished (p : ProxyController ε) : p.finished.desired = p.desired := by
  unfold finished
  split
  · rfl
  · split <;> rfl

theorem desired_step (c : ProxyConfig) (p : ProxyController ε) (event : ProxyEvent ε) :
    (p.step c event).desired = desires c p.desired event := by
  cases event with
  | setUpstreams upstreams =>
    simp only [step, setUpstreams, desires]
    split
    · next hparse => rw [hparse, Option.getD_none]
    · next desired hparse => rw [hparse, Option.getD_some, reconcile]
  | settled error => exact desired_settled p error
  | finished => exact desired_finished p
  | idle =>
    simp only [step, desires]
    split <;> rfl

theorem desired_run (c : ProxyConfig) (p : ProxyController ε) (events : List (ProxyEvent ε)) :
    (run (step c) p events).desired = events.foldl (desires c) p.desired := by
  induction events generalizing p with
  | nil => rfl
  | cons event events ih => rw [run_cons, ih, desired_step, List.foldl_cons]

theorem throws_step {c : ProxyConfig} {p : ProxyController ε} {event : ProxyEvent ε} {thrown : Bool}
    (hcalls : ∀ call ∈ p.failed, call ≤ p.calls) (h : p.calls ∈ p.failed → thrown = true)
    (hfailed : (p.step c event).calls ∈ (p.step c event).failed) :
    throws c thrown event = true := by
  cases event with
  | setUpstreams upstreams =>
    simp only [step, setUpstreams] at hfailed
    split at hfailed
    · next hparse => simp [throws, hparse, h hfailed]
    · exact absurd (hcalls _ hfailed) (by simp [reconcile])
  | settled error =>
    simp only [step, settled] at hfailed
    simp only [throws, Bool.or_eq_true]
    split at hfailed
    · exact .inl (h hfailed)
    · split at hfailed
      · exact .inl (h hfailed)
      · exact .inl (h hfailed)
      · exact .inr rfl
  | finished =>
    simp only [step, finished] at hfailed
    split at hfailed
    · exact h hfailed
    · split at hfailed <;> exact h hfailed
  | idle =>
    simp only [step] at hfailed
    split at hfailed <;> exact h hfailed

theorem converging_run {c : ProxyConfig} {p : ProxyController ε} {idle : List (Mutation ε)}
    {last : Option (Mutation ε)} {events : List (ProxyEvent ε)} {thrown : Bool}
    (H : Converging p idle last) (hfits : Admits (step c) (Fits c) p events)
    (h : p.calls ∈ p.failed → thrown = true) :
    (∃ idle last, Converging (run (step c) p events) idle last) ∧
      ((run (step c) p events).calls ∈ (run (step c) p events).failed →
        events.foldl (throws c) thrown = true) := by
  induction events generalizing p thrown idle last with
  | nil => exact ⟨⟨idle, last, H⟩, h⟩
  | cons event events ih =>
    obtain ⟨idle', last', H'⟩ := H.step hfits.1
    exact ih H' hfits.2 (throws_step H.calls h)

/-- What the first mutation waits for brings it to its end. -/
theorem pending_answered {p : ProxyController ε} (h : p.mutations ≠ []) :
    (∀ error, (p.settled error).pending < p.pending) ∨ p.finished.pending < p.pending := by
  obtain ⟨mutation, mutations, hmutations⟩ := List.exists_cons_of_ne_nil h
  cases hrest : mutation.rest with
  | nil =>
    refine .inr ?_
    simp [pending, finished, hmutations, hrest]
  | cons first rest =>
    refine .inl fun error => ?_
    cases error <;> simp [pending, settled, hmutations, hrest, succeed, fail]

/-- In a run whose calls fit, the upstreams converge. -/
theorem converges (c : ProxyConfig) (upstreams : List RuntimeUpstreams) (p : ProxyController ε)
    (hstart : start c upstreams = some p) (hdistinct : Distinct p.desired.values)
    (events : List (ProxyEvent ε)) (hfits : Admits (step c) (Fits c) p events) :
    let q := run (step c) p events
    q.desired = events.foldl (desires c) p.desired ∧
      (events.foldl (throws c) false = false → q.calls ∉ q.failed) ∧
      (q.mutations = [] → q.calls ∉ q.failed →
        (∀ key, (q.applied.get? key).isSome ↔ (q.desired.get? key).isSome) ∧
          q.failures = .empty ∧ q.getHealth.ready) ∧
      (∀ upstream, nativeHolds upstream q.native ↔
        ∃ applied ∈ q.applied.values, applied.native = upstream) ∧
      addsOnce q.native ∧
      (q.mutations ≠ [] →
        (∀ error, (q.settled error).pending < q.pending) ∨ q.finished.pending < q.pending) := by
  have H := Converging.start hstart hdistinct
  obtain ⟨desired, -, hp⟩ := Option.bind_eq_some_iff.mp hstart
  have hfailed : p.calls ∈ p.failed → false = true := by
    obtain rfl := Option.some.inj hp
    exact fun h => absurd h List.not_mem_nil
  obtain ⟨⟨idle, last, H⟩, hthrown⟩ := converging_run H hfits hfailed
  refine ⟨desired_run c p events, fun h hfailed => ?_, H.converged, H.held.holds, H.held.once,
    pending_answered⟩
  rw [hthrown hfailed] at h
  cases h

/-- The configuration of one runtime, and of the one URL its worker listens on. -/
def localConfig : ProxyConfig where
  parseUrl text :=
    if text = "http://127.0.0.1:3000/" then
      some { protocol := "http:", hostname := "127.0.0.1", port := some 3000, rest := "/" }
    else none
  proxied := ["api"]

def localUpstreams : List RuntimeUpstreams := [⟨"api", [⟨.http, "http://127.0.0.1:3000/"⟩]⟩]

/-- The proxy of that configuration before its worker listens. -/
def localProxy : ProxyController Unit where
  running := true
  desired := .empty
  applied := .empty
  native := []

theorem converges_local :
    let p := run (step localConfig) localProxy
      [.setUpstreams localUpstreams, .settled none, .finished]
    p.applied.keys = ["api:http:http://127.0.0.1:3000/"] ∧ p.getHealth.ready := by
  have hconverges := converges localConfig [] localProxy (by decide) (by decide)
    [.setUpstreams localUpstreams, .settled none, .finished] (by decide)
  exact ⟨by decide, (hconverges.2.2.1 (by decide) (by decide)).2.2⟩

/-- The second call finds nothing applied yet and removes nothing. -/
theorem overlapping_calls :
    let p := run (step localConfig) localProxy [.setUpstreams localUpstreams, .setUpstreams [],
      .settled none, .finished, .finished]
    start localConfig [] = some localProxy ∧ p.mutations = [] ∧ p.calls ∉ p.failed ∧
      p.desired.keys = [] ∧ p.applied.keys = ["api:http:http://127.0.0.1:3000/"] := by decide

end Runs

end ProxyController

end Neemata.Host
