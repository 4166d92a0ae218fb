import Neemata.Application.Middleware
import Mathlib.Data.List.Basic

/-!
# Middlewares and guards are not skipped

As long as only the last middleware calls `next` more than once, the calls before the last middleware
are one chain: the call with the index of a middleware is the one that takes it, and all later calls
are made by the last middleware. A second `next` of an earlier middleware takes what the iterator has
left, which can be nothing.
-/

namespace Neemata.Application

/-- The call has gone through the middlewares. -/
def Stage.isBeyond {ι : Type} : Stage ι → Bool
  | .binding | .guarding _ _ | .handling => true
  | .entered | .middleware _ | .failed => false

/-- The call has not come to the guards. -/
def Stage.isUnguarded {ι : Type} : Stage ι → Bool
  | .entered | .middleware _ | .binding => true
  | .guarding _ _ | .handling | .failed => false

namespace Pipeline

variable {μ γ π ι : Type} {api : ProcedureApi μ γ π ι} {s : Pipeline γ π ι} {payload : π}

/-! ## The calls -/

/-- How the calls stand to `n` middlewares. -/
structure Ordered (n : Nat) (payload : π) (position : Nat) (calls : List (HandleCall π ι)) :
    Prop where
  le : position ≤ n
  reached : ∀ i c, calls[i]? = some c → min i n ≤ position
  first : ∀ c, calls[0]? = some c → c.parent = none ∧ c.payload = payload
  later : ∀ i c, calls[i + 1]? = some c → 0 < n ∧ ∃ argument p,
    c.parent = some (min (i + 1) n - 1, argument) ∧ calls[min (i + 1) n - 1]? = some p ∧
      c.payload = argument.getD p.payload
  entered : ∀ i c, calls[i]? = some c → c.stage = .entered → min i n = position
  middleware : ∀ i c, calls[i]? = some c → ∀ index, c.stage = .middleware index →
    index = i ∧ i < position
  taken : ∀ i < position, ∃ c, calls[i]? = some c ∧ c.stage = .middleware i
  beyond : ∀ i c, calls[i]? = some c → c.stage.isBeyond → n ≤ i

variable {n position : Nat} {calls : List (HandleCall π ι)}

/-- The calls after one of them has moved to another stage. -/
theorem getElem?_setStage {i j : Nat} {stage : Stage ι} {d : HandleCall π ι}
    (h : (calls.modify i fun c => { c with stage })[j]? = some d) :
    ∃ d', calls[j]? = some d' ∧ d.parent = d'.parent ∧ d.payload = d'.payload ∧
      (j = i ∧ d.stage = stage ∨ j ≠ i ∧ d = d') := by
  obtain ⟨d', rfl, hd', rfl⟩ | ⟨hne, hd'⟩ := getElem?_modify_cases h
  · exact ⟨d', hd', rfl, rfl, .inl ⟨rfl, rfl⟩⟩
  · exact ⟨d, hd', rfl, rfl, .inr ⟨hne, rfl⟩⟩

theorem getElem?_setStage_of_some (i : Nat) {j : Nat} (stage : Stage ι) {d : HandleCall π ι}
    (h : calls[j]? = some d) : ∃ d', (calls.modify i fun c => { c with stage })[j]? = some d' ∧
      d'.parent = d.parent ∧ d'.payload = d.payload := by
  rw [List.getElem?_modify, h]
  split
  · exact ⟨_, rfl, rfl, rfl⟩
  · exact ⟨d, rfl, rfl, rfl⟩

/-- A call moves to another stage, while the iterator stands still or moves on. -/
theorem Ordered.setStage (h : Ordered n payload position calls) {i position' : Nat}
    {stage : Stage ι} (hle : position ≤ position') (hn : position' ≤ n)
    (hentered : ∀ j d, calls[j]? = some d → j ≠ i → d.stage = .entered → min j n = position')
    (hnot : stage ≠ .entered)
    (hmiddleware : ∀ index, stage = .middleware index → index = i ∧ i < position')
    (htaken : ∀ j < position', ∃ d,
      (calls.modify i fun c => { c with stage })[j]? = some d ∧ d.stage = .middleware j)
    (hbeyond : stage.isBeyond → n ≤ i) :
    Ordered n payload position' (calls.modify i fun c => { c with stage }) := by
  refine ⟨hn, fun j d hj => ?_, fun d hd => ?_, fun j d hj => ?_, fun j d hj hstage => ?_,
    fun j d hj index hstage => ?_, htaken, fun j d hj hstage => ?_⟩
  · obtain ⟨d', hd', -⟩ := getElem?_setStage hj
    exact Nat.le_trans (h.reached j d' hd') hle
  · obtain ⟨d', hd', hparent, hpayload, -⟩ := getElem?_setStage hd
    rw [hparent, hpayload]
    exact h.first d' hd'
  · obtain ⟨d', hd', hparent, hpayload, -⟩ := getElem?_setStage hj
    obtain ⟨hpos, argument, p, hp, hget, heq⟩ := h.later j d' hd'
    obtain ⟨p', hp', -, hpayload'⟩ :=
      getElem?_setStage_of_some i stage hget
    exact ⟨hpos, argument, p', hparent.trans hp, hp', by rw [hpayload, heq, hpayload']⟩
  · obtain ⟨d', hd', -, -, ⟨-, hnew⟩ | ⟨hne, rfl⟩⟩ := getElem?_setStage hj
    · exact absurd (hnew.symm.trans hstage) hnot
    · exact hentered j d hd' hne hstage
  · obtain ⟨d', hd', -, -, ⟨rfl, hnew⟩ | ⟨hne, rfl⟩⟩ := getElem?_setStage hj
    · exact hmiddleware index (hnew.symm.trans hstage)
    · obtain ⟨rfl, hlt⟩ := h.middleware j d hd' index hstage
      exact ⟨rfl, Nat.lt_of_lt_of_le hlt hle⟩
  · obtain ⟨d', hd', -, -, ⟨rfl, hnew⟩ | ⟨hne, rfl⟩⟩ := getElem?_setStage hj
    · exact hbeyond (hnew ▸ hstage)
    · exact h.beyond j d hd' hstage

/-- A call that is not with a middleware moves on. -/
theorem Ordered.leave (h : Ordered n payload position calls) {i : Nat} {c : HandleCall π ι}
    (hi : calls[i]? = some c) (hold : ∀ index, c.stage ≠ .middleware index) {stage : Stage ι}
    (hentered : stage ≠ .entered) (hmiddleware : ∀ index, stage ≠ .middleware index)
    (hbeyond : stage.isBeyond → n ≤ i) :
    Ordered n payload position (calls.modify i fun c => { c with stage }) := by
  refine h.setStage (Nat.le_refl _) h.le (fun j d hj _ => h.entered j d hj) hentered
    (fun index heq => absurd heq (hmiddleware index)) (fun j hj => ?_) hbeyond
  obtain ⟨d, hd, hstage⟩ := h.taken j hj
  refine ⟨d, ?_, hstage⟩
  rw [getElem?_modify_of_ne]
  · exact hd
  · rintro rfl
    exact hold j (Option.some.inj (hi.symm.trans hd) ▸ hstage)

/-- The call takes the next middleware. -/
theorem Ordered.take (h : Ordered n payload position calls) {i : Nat} {c : HandleCall π ι}
    (hi : calls[i]? = some c) (hstage : c.stage = .entered) (hlt : position < n) :
    Ordered n payload (position + 1)
      (calls.modify i fun c => { c with stage := .middleware position }) := by
  have hmin := h.entered i c hi hstage
  have heq : i = position := by omega
  subst heq
  refine h.setStage (Nat.le_succ _) hlt (fun j d hj hne hentered => ?_) (fun heq => by cases heq)
    (fun index heq => ?_) (fun j hj => ?_) fun hbeyond => by cases hbeyond
  · have hj' := h.entered j d hj hentered
    omega
  · cases heq
    exact ⟨rfl, Nat.lt_succ_self _⟩
  · obtain rfl | hj := Nat.eq_or_lt_of_le (Nat.le_of_lt_succ hj)
    · exact ⟨_, getElem?_modify_self hi, rfl⟩
    · obtain ⟨d, hd, hstage⟩ := h.taken j hj
      exact ⟨d, by rw [getElem?_modify_of_ne (Nat.ne_of_lt hj)]; exact hd, hstage⟩

/-- The middleware of a call calls `next`. -/
theorem Ordered.next (h : Ordered n payload position calls) {i index : Nat} {c : HandleCall π ι}
    (hi : calls[i]? = some c) (hstage : c.stage = .middleware index) (argument : Option π)
    (hfits : index + 1 = n ∨ ∀ d ∈ calls, d.parent.map Prod.fst ≠ some i) :
    Ordered n payload position
      (calls ++ [{ parent := some (i, argument), payload := argument.getD c.payload }]) := by
  obtain ⟨rfl, hlt⟩ := h.middleware i c hi index hstage
  have hlength : position ≤ calls.length := by
    obtain ⟨d, hd, -⟩ := h.taken (position - 1) (by omega)
    have := (List.getElem?_eq_some_iff.mp hd).1
    omega
  have hle := h.le
  -- the new call is the first one of its middleware, or all middlewares have been taken
  have hnew : min calls.length n - 1 = index ∧ min calls.length n = position := by
    rcases hfits with hlast | hfresh
    · omega
    · by_cases hlast : index + 1 = n
      · omega
      · have hend : calls.length ≤ index + 1 := by
          by_contra hmore
          obtain ⟨d, hd⟩ : ∃ d, calls[index + 1]? = some d :=
            ⟨_, List.getElem?_eq_getElem (by omega)⟩
          obtain ⟨-, argument, -, hparent, -⟩ := h.later index d hd
          refine hfresh d (List.mem_of_getElem? hd) ?_
          rw [hparent, Option.map_some, Option.some.injEq]
          omega
        omega
  have hpos : calls.length ≠ 0 := by omega
  refine ⟨h.le, fun j d hj => ?_, fun d hd => ?_, fun j d hj => ?_, fun j d hj hentered => ?_,
    fun j d hj index' hmiddleware => ?_, fun j hj => ?_, fun j d hj hbeyond => ?_⟩
  · obtain hj | ⟨rfl, -⟩ := getElem?_concat_iff.mp hj
    · exact h.reached j d hj
    · exact Nat.le_of_eq hnew.2
  · obtain hd | ⟨hzero, -⟩ := getElem?_concat_iff.mp hd
    · exact h.first d hd
    · exact absurd hzero.symm hpos
  · obtain hj | ⟨hlast, rfl⟩ := getElem?_concat_iff.mp hj
    · obtain ⟨hn, argument', p, hparent, hp, hpayload⟩ := h.later j d hj
      exact ⟨hn, argument', p, hparent, getElem?_concat_iff.mpr (.inl hp), hpayload⟩
    · rw [hlast, hnew.1]
      exact ⟨by omega, argument, c, rfl, getElem?_concat_iff.mpr (.inl hi), rfl⟩
  · obtain hj | ⟨rfl, -⟩ := getElem?_concat_iff.mp hj
    · exact h.entered j d hj hentered
    · exact hnew.2
  · obtain hj | ⟨-, rfl⟩ := getElem?_concat_iff.mp hj
    · exact h.middleware j d hj index' hmiddleware
    · cases hmiddleware
  · obtain ⟨d, hd, htaken⟩ := h.taken j hj
    exact ⟨d, getElem?_concat_iff.mpr (.inl hd), htaken⟩
  · obtain hj | ⟨-, rfl⟩ := getElem?_concat_iff.mp hj
    · exact h.beyond j d hj hbeyond
    · cases hbeyond

/-- The chain that leads to a call. -/
theorem Ordered.chain (h : Ordered n payload s.position s.calls) (i : Nat)
    {c : HandleCall π ι} (hi : s.calls[i]? = some c) :
    Chain s payload (List.range (min i n)) c.payload i := by
  induction i using Nat.strongRecOn generalizing c with
  | ind i ih =>
    cases i with
    | zero =>
      obtain ⟨hfirst, hpayload⟩ := h.first c hi
      rw [hpayload, Nat.zero_min]
      exact .start hi hfirst
    | succ i =>
      obtain ⟨hpos, argument, p, hparent, hp, hpayload⟩ := h.later i c hi
      have hreached := h.reached (i + 1) c hi
      have hle := h.le
      have hlt : min (i + 1) n - 1 < i + 1 := by omega
      have hchain := ih _ hlt hp
      obtain ⟨d, hd, hstage⟩ := h.taken (min (i + 1) n - 1) (by omega)
      have hstep := Chain.next hchain hd hstage hi hparent
      have hmin : min (min (i + 1) n - 1) n = min (i + 1) n - 1 := by omega
      have hsucc : min (i + 1) n = (min (i + 1) n - 1) + 1 := by omega
      rw [hpayload, hsucc, List.range_succ]
      rw [hmin] at hstep
      exact hstep

/-! ## The guards -/

structure Sound (api : ProcedureApi μ γ π ι) (payload : π) (s : Pipeline γ π ι) : Prop where
  ordered : Ordered api.resolveMiddlewares.length payload s.position s.calls
  fresh : ∀ i, (∀ c, s.calls[i]? = some c → c.stage.isUnguarded) →
    s.history.filter (isGuardOf i) = []
  guarding : ∀ i c input passed, s.calls[i]? = some c → c.stage = .guarding input passed →
    api.handleInput c.payload = some input ∧
      s.history.filter (isGuardOf i) = (api.guards.take passed).map (.guard i · input .passes)
  handled : ∀ i input, .handler i input ∈ s.history → ∃ c, s.calls[i]? = some c ∧
    api.resolveMiddlewares.length ≤ i ∧ api.handleInput c.payload = some input
  guards : ∀ before after i input, s.history = before ++ .handler i input :: after →
    before.filter (isGuardOf i) = api.guards.map (.guard i · input .passes)

/-- The calls change, and no guard or handler is called. -/
theorem Sound.quiet (h : Sound api payload s) {position : Nat} {calls : List (HandleCall π ι)}
    (hordered : Ordered api.resolveMiddlewares.length payload position calls)
    (hcalls : ∀ (i : Nat) c, s.calls[i]? = some c → ∃ c', calls[i]? = some c' ∧
      c'.payload = c.payload ∧ (c' = c ∨ c'.stage = .failed ∨ c.stage.isUnguarded ∧
        (c'.stage.isUnguarded ∨ ∃ input, c'.stage = .guarding input 0 ∧
          api.handleInput c.payload = some input)))
    (hnew : ∀ (i : Nat) c', calls[i]? = some c' → s.calls[i]? = none → c'.stage.isUnguarded) :
    Sound api payload { s with position, calls } := by
  refine ⟨hordered, fun i hi => h.fresh i fun c hc => ?_, fun i c' input passed hc' hstage => ?_,
    fun i input hmem => ?_, h.guards⟩
  · obtain ⟨c', hc', -, rfl | hfailed | ⟨hunguarded, -⟩⟩ := hcalls i c hc
    · exact hi c' hc'
    · have hunguarded := hi c' hc'
      rw [hfailed] at hunguarded
      cases hunguarded
    · exact hunguarded
  · cases hc : s.calls[i]? with
    | none =>
      have hunguarded := hnew i c' hc' hc
      rw [hstage] at hunguarded
      cases hunguarded
    | some c =>
      obtain ⟨c'', hc'', hpayload, heq⟩ := hcalls i c hc
      obtain rfl : c' = c'' := Option.some.inj (hc'.symm.trans hc'')
      rcases heq with rfl | hfailed | ⟨hunguarded, hunguarded' | ⟨input', hguarding, hinput⟩⟩
      · exact h.guarding i c' input passed hc hstage
      · rw [hstage] at hfailed
        cases hfailed
      · rw [hstage] at hunguarded'
        cases hunguarded'
      · rw [hstage] at hguarding
        cases hguarding
        refine ⟨hpayload ▸ hinput, ?_⟩
        rw [List.take_zero, List.map_nil]
        exact h.fresh i fun d hd => Option.some.inj (hc.symm.trans hd) ▸ hunguarded
  · obtain ⟨c, hc, hle, hinput⟩ := h.handled i input hmem
    obtain ⟨c', hc', hpayload, -⟩ := hcalls i c hc
    exact ⟨c', hc', hle, hpayload ▸ hinput⟩

theorem Sound.setStage (h : Sound api payload s) {i position : Nat} {c : HandleCall π ι}
    {stage : Stage ι} (hi : s.calls[i]? = some c)
    (hordered : Ordered api.resolveMiddlewares.length payload position
      (s.calls.modify i fun c => { c with stage }))
    (hstage : stage = .failed ∨ c.stage.isUnguarded ∧ (stage.isUnguarded ∨
      ∃ input, stage = .guarding input 0 ∧ api.handleInput c.payload = some input)) :
    Sound api payload { s.setStage i stage with position } := by
  refine h.quiet hordered (fun j d hj => ?_) fun j d hj hnone => ?_
  · dsimp only [Pipeline.setStage]
    rw [List.getElem?_modify, hj]
    by_cases heq : i = j
    · subst heq
      obtain rfl : c = d := Option.some.inj (hi.symm.trans hj)
      refine ⟨{ c with stage }, by simp, rfl, .inr ?_⟩
      exact hstage
    · exact ⟨d, by simp [heq], rfl, .inl rfl⟩
  · dsimp only [Pipeline.setStage] at hj
    rw [List.getElem?_modify, hnone] at hj
    cases hj

theorem Sound.next (h : Sound api payload s) {i : Nat} {argument : Option π}
    (hfits : Fits api s (.next i argument)) : Sound api payload (s.next i argument) := by
  unfold Pipeline.next
  split
  · next parent current index hi =>
    dsimp only [Fits] at hfits
    rw [hi] at hfits
    refine h.quiet (h.ordered.next hi rfl argument hfits) (fun j d hj => ?_) fun j d hj hnone => ?_
    · exact ⟨d, getElem?_concat_iff.mpr (.inl hj), rfl, .inl rfl⟩
    · obtain hj | ⟨-, rfl⟩ := getElem?_concat_iff.mp hj
      · rw [hnone] at hj
        cases hj
      · rfl
  · exact h

theorem Sound.advance (h : Sound api payload s) (i : Nat) :
    Sound api payload (s.advance api i) := by
  unfold Pipeline.advance
  split
  · next parent current hi =>
    split
    · next hlt => exact h.setStage hi (h.ordered.take hi rfl hlt) (.inr ⟨rfl, .inl rfl⟩)
    · next hend =>
      have hmin := h.ordered.entered i _ hi rfl
      refine h.setStage hi (h.ordered.leave hi (fun _ heq => by cases heq)
        (fun heq => by cases heq) (fun _ heq => by cases heq) fun _ => ?_) (.inr ⟨rfl, .inl rfl⟩)
      omega
  · exact h

theorem Sound.decode (h : Sound api payload s) (i : Nat) :
    Sound api payload (s.decode api i) := by
  unfold Pipeline.decode
  split
  · next parent current hi =>
    have hbeyond := h.ordered.beyond i _ hi rfl
    split
    · next input hinput =>
      refine h.setStage hi (h.ordered.leave hi (fun _ heq => by cases heq)
        (fun heq => by cases heq) (fun _ heq => by cases heq) fun _ => hbeyond) (.inr ⟨rfl, .inr ?_⟩)
      exact ⟨input, rfl, hinput⟩
    · exact h.setStage hi (h.ordered.leave hi (fun _ heq => by cases heq)
        (fun heq => by cases heq) (fun _ heq => by cases heq) fun _ => hbeyond) (.inl rfl)
  · exact h

theorem Sound.fail (h : Sound api payload s) (i : Nat) : Sound api payload (s.fail i) := by
  have hfail : ∀ {c : HandleCall π ι}, s.calls[i]? = some c →
      (∀ index, c.stage ≠ .middleware index) → Sound api payload (s.setStage i .failed) :=
    fun hi hold => h.setStage hi (h.ordered.leave hi hold (fun heq => by cases heq)
      (fun _ heq => by cases heq) fun hbeyond => by cases hbeyond) (.inl rfl)
  unfold Pipeline.fail
  split
  · next hi => exact hfail hi fun _ heq => by cases heq
  · next hi => exact hfail hi fun _ heq => by cases heq
  · next hi => exact hfail hi fun _ heq => by cases heq
  · exact h

/-- The guards before each handler, when the history goes on. -/
theorem guards_concat {history : List (PipelineEntry γ ι)} {entry : PipelineEntry γ ι}
    (h : ∀ before after i input, history = before ++ .handler i input :: after →
      before.filter (isGuardOf i) = api.guards.map (.guard i · input .passes))
    (hentry : ∀ i input, entry = .handler i input →
      history.filter (isGuardOf i) = api.guards.map (.guard i · input .passes)) :
    ∀ before after i input, history ++ [entry] = before ++ .handler i input :: after →
      before.filter (isGuardOf i) = api.guards.map (.guard i · input .passes) := by
  intro before after i input heq
  obtain rfl | ⟨rest, last, rfl⟩ := List.eq_nil_or_concat' after
  · obtain ⟨rfl, hlast⟩ := List.append_inj' heq rfl
    cases hlast
    exact hentry i input rfl
  · rw [← List.cons_append, ← List.append_assoc] at heq
    exact h before rest i input (List.append_inj' heq rfl).1

/-- A call at the guards moves on, with an entry of its own in the history. -/
theorem Sound.enter (h : Sound api payload s) {i passed : Nat} {c : HandleCall π ι} {input : ι}
    (hi : s.calls[i]? = some c) (hc : c.stage = .guarding input passed) {stage : Stage ι}
    {entry : PipelineEntry γ ι} (hentered : stage ≠ .entered)
    (hmiddleware : ∀ index, stage ≠ .middleware index) (hunguarded : stage.isUnguarded = false)
    (hother : ∀ j ≠ i, isGuardOf j entry = false)
    (hguarding : ∀ input' passed', stage = .guarding input' passed' → input' = input ∧
      (s.history ++ [entry]).filter (isGuardOf i) =
        (api.guards.take passed').map (.guard i · input .passes))
    (hhandler : ∀ j input', entry = .handler j input' → j = i ∧ input' = input ∧
      passed = api.guards.length) :
    Sound api payload { s.setStage i stage with history := s.history ++ [entry] } := by
  have hbeyond := h.ordered.beyond i c hi (by rw [hc]; rfl)
  obtain ⟨hinput, hpassed⟩ := h.guarding i c input passed hi hc
  refine ⟨h.ordered.leave hi (fun index heq => ?_) hentered hmiddleware fun _ => hbeyond,
    fun j hj => ?_, fun j d input' passed' hj hstage => ?_, fun j input' hmem => ?_,
    guards_concat h.guards fun j input' heq => ?_⟩
  · rw [hc] at heq
    cases heq
  · by_cases heq : j = i
    · subst heq
      have hstage := hj _ (getElem?_modify_self hi)
      rw [hunguarded] at hstage
      cases hstage
    · rw [List.filter_append, h.fresh j fun d hd => hj d ((getElem?_modify_of_ne heq).trans hd)]
      simp [hother j heq]
  · obtain ⟨d', hd', -, hpayload, ⟨rfl, hnew⟩ | ⟨hne, rfl⟩⟩ := getElem?_setStage hj
    · obtain rfl : c = d' := Option.some.inj (hi.symm.trans hd')
      obtain ⟨rfl, hfilter⟩ := hguarding input' passed' (hnew.symm.trans hstage)
      exact ⟨hpayload ▸ hinput, hfilter⟩
    · obtain ⟨hinput', hfilter⟩ := h.guarding j d input' passed' hd' hstage
      refine ⟨hinput', ?_⟩
      rw [List.filter_append, hfilter]
      simp [hother j hne]
  · have hhandled : ∃ c, s.calls[j]? = some c ∧ api.resolveMiddlewares.length ≤ j ∧
        api.handleInput c.payload = some input' := by
      obtain hmem | hmem := List.mem_append.mp hmem
      · exact h.handled j input' hmem
      · obtain ⟨rfl, rfl, -⟩ := hhandler j input' (List.mem_singleton.mp hmem).symm
        exact ⟨c, hi, hbeyond, hinput⟩
    obtain ⟨d, hd, hle, hdecoded⟩ := hhandled
    obtain ⟨d', hd', -, hpayload⟩ := getElem?_setStage_of_some i stage hd
    exact ⟨d', hd', hle, hpayload ▸ hdecoded⟩
  · obtain ⟨rfl, rfl, hall⟩ := hhandler j input' heq
    rw [hpassed, hall, List.take_length]

theorem Sound.guard (h : Sound api payload s) (i : Nat) (verdict : Verdict) :
    Sound api payload (s.guard api i verdict) := by
  unfold Pipeline.guard
  split
  · next parent current input passed hi =>
    split
    · next g hg =>
      obtain ⟨-, hpassed⟩ := h.guarding i _ input passed hi rfl
      refine h.enter hi rfl ?_ ?_ ?_ (fun j hne => ?_) (fun input' passed' heq => ?_)
        fun _ _ heq => by cases heq
      · split <;> exact fun heq => by cases heq
      · split <;> exact fun _ heq => by cases heq
      · split <;> rfl
      · simp [isGuardOf, Ne.symm hne]
      · split at heq
        · next hverdict =>
          cases heq
          refine ⟨rfl, ?_⟩
          rw [List.filter_append, hpassed, List.take_add_one, hg, hverdict]
          simp [isGuardOf]
        · cases heq
    · exact h
  · exact h

theorem Sound.handle (h : Sound api payload s) (i : Nat) :
    Sound api payload (s.handle api i) := by
  unfold Pipeline.handle
  split
  · next parent current input passed hi =>
    split
    · next hall =>
      refine h.enter hi rfl (fun heq => by cases heq) (fun _ heq => by cases heq) rfl
        (fun _ _ => rfl) (fun _ _ heq => by cases heq) fun j input' heq => ?_
      cases heq
      exact ⟨rfl, rfl, hall⟩
    · exact h
  · exact h

theorem Sound.step (h : Sound api payload s) {event : PipelineEvent π}
    (hfits : Fits api s event) : Sound api payload (s.step api event) := by
  cases event with
  | next i argument => exact h.next hfits
  | advance i => exact h.advance i
  | decode i => exact h.decode i
  | guard i verdict => exact h.guard i verdict
  | handle i => exact h.handle i
  | fail i => exact h.fail i

theorem Sound.start (api : ProcedureApi μ γ π ι) (payload : π) :
    Sound api payload (Pipeline.start payload) := by
  have hget : ∀ {i : Nat} {c : HandleCall π ι},
      (Pipeline.start payload : Pipeline γ π ι).calls[i]? = some c → i = 0 ∧ c = { payload } := by
    intro i c hc
    cases i with
    | zero =>
      cases hc
      exact ⟨rfl, rfl⟩
    | succ i => cases hc
  refine ⟨⟨Nat.zero_le _, fun i c hc => ?_, fun c hc => ?_, fun i c hc => ?_, fun i c hc _ => ?_,
    fun i c hc index hstage => ?_, fun i hi => ?_, fun i c hc hbeyond => ?_⟩, fun _ _ => rfl,
    fun i c input passed hc hstage => ?_, fun i input hmem => ?_, fun before after i input heq => ?_⟩
  · obtain ⟨rfl, -⟩ := hget hc
    exact Nat.le_of_eq (Nat.zero_min _)
  · obtain ⟨-, rfl⟩ := hget hc
    exact ⟨rfl, rfl⟩
  · exact absurd (hget hc).1 (Nat.succ_ne_zero i)
  · obtain ⟨rfl, -⟩ := hget hc
    exact Nat.zero_min _
  · obtain ⟨-, rfl⟩ := hget hc
    cases hstage
  · exact absurd hi (Nat.not_lt_zero i)
  · obtain ⟨-, rfl⟩ := hget hc
    cases hbeyond
  · obtain ⟨-, rfl⟩ := hget hc
    cases hstage
  · cases hmem
  · exact absurd heq (by simp [Pipeline.start])

/-- In a run in which no middleware but the last one calls `next` a second time, the handler is
called only behind all middlewares and guards. -/
theorem enforced (api : ProcedureApi μ γ π ι) (payload : π) (l : List (PipelineEvent π))
    (hl : Trace.Admits (step api) (Fits api) (Pipeline.start payload) l) :
    Enforced api (Trace.run (step api) (Pipeline.start payload) l) payload := by
  have h : Sound api payload (Trace.run (Pipeline.step api) (Pipeline.start payload) l) :=
    Trace.run_inv_of_admits (Pipeline.step api) (fun _ _ hfits h => h.step hfits) hl (.start api payload)
  refine ⟨fun i input hmem => ?_, h.guards⟩
  obtain ⟨c, hc, hle, hinput⟩ := h.handled i input hmem
  have hchain := h.ordered.chain i hc
  rw [Nat.min_eq_right hle] at hchain
  exact ⟨c.payload, hchain, hinput⟩

/-- Two middlewares, one of the application and one of the procedure, and a guard of a router;
inputs are positive numbers. -/
def sampleApi : ProcedureApi String String Nat Nat where
  application := { middlewares := ["log"] }
  path := [{ guards := ["admin"] }]
  procedure := { middlewares := ["authenticate"] }
  handleInput payload := if payload = 0 then none else some payload

/-- The last middleware calls `next` twice, the second time with another payload. -/
theorem enforced_retry : Enforced sampleApi
    (Trace.run (step sampleApi) (start 7) [.advance 0, .next 0 none, .advance 1, .next 1 none,
      .next 1 (some 8), .advance 2, .advance 3, .decode 3, .decode 2, .guard 3 .passes, .handle 3,
      .guard 2 .denies]) 7 :=
  enforced sampleApi 7 _ ⟨trivial, .inr (by decide), trivial, .inl rfl, .inl rfl, trivial, trivial,
    trivial, trivial, trivial, trivial, trivial, trivial⟩

/-- The first middleware calls `next` twice: the second call finds the iterator at its end and comes
to the handler without the second middleware. -/
theorem skipped_middleware : ¬ Enforced sampleApi
    (Trace.run (step sampleApi) (start 7) [.advance 0, .next 0 none, .next 0 none, .advance 1,
      .advance 2, .decode 2, .guard 2 .passes, .handle 2]) 7 := by
  intro h
  obtain ⟨current, hchain, -⟩ := h.middlewares 2 7 (by decide)
  generalize hrange : List.range sampleApi.resolveMiddlewares.length = indices at hchain
  cases hchain with
  | start get first =>
    cases get
    cases first
  | @next before _ parent _ _ _ _ _ chain get stage get' next =>
    cases get'
    cases next
    cases chain with
    | start => exact absurd (congrArg List.length hrange) (by simp [sampleApi, ProcedureApi.resolveMiddlewares])
    | next _ _ _ get' next =>
      cases get'
      cases next

end Pipeline

end Neemata.Application
