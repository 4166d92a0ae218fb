import Neemata.PubSub.Redis

/-!
# What the listener counts keep

A generator holds its channel from its start to the end of its `finally`. The count of a channel is
the number of its holders, and only the last of them unsubscribes; the channel is subscribed as long
as one of them has not. A failed command breaks this, and so does a generator that starts while the
last one unsubscribes: it meets a count and a subscription that are about to go.
-/

namespace Neemata.PubSub

/-- The generator holds the channel and has not called `unsubscribe`. -/
def GeneratorPhase.isActive : GeneratorPhase → Bool
  | .waiting _ | .reading | .yielded => true
  | .unsubscribing _ | .finished => false

/-- The entry of a channel against its holders and its last command. -/
structure Balanced (entry : Option Nat) (active leaving : Nat) (last : Option CommandKind) :
    Prop where
  entry : entry = if active + leaving = 0 then none else some (active + leaving)
  alone : leaving = 0 ∨ active = 0 ∧ leaving = 1
  last : last = some .subscribe ↔ active ≠ 0

namespace RedisPubSub

variable {κ : Type} [DecidableEq κ] {s : RedisPubSub κ}

def active (s : RedisPubSub κ) (channel : κ) : Nat := s.count GeneratorPhase.isActive channel

def leaving (s : RedisPubSub κ) (channel : κ) : Nat := s.count GeneratorPhase.isLeaving channel

structure Sound (s : RedisPubSub κ) : Prop where
  balanced : ∀ channel, Balanced (s.listeners.get? channel) (s.active channel) (s.leaving channel)
    (s.lastCommand channel)
  replies : ∀ c ∈ s.commands, c.reply ≠ some false

/-! ## Counts -/

theorem held_eq (channel : κ) : s.held channel = s.active channel + s.leaving channel := by
  unfold held active leaving count
  induction s.generators with
  | nil => rfl
  | cons g l ih =>
    rw [List.countP_cons, List.countP_cons, List.countP_cons, ih]
    rcases g with ⟨c, phase⟩
    cases phase <;> simp [GeneratorPhase.isHeld, GeneratorPhase.isActive,
      GeneratorPhase.isLeaving] <;> omega

theorem count_setPhase {i : Nat} {c : κ} {phase : GeneratorPhase}
    (h : s.generators[i]? = some ⟨c, phase⟩) (p : GeneratorPhase → Bool) (phase' : GeneratorPhase)
    (channel : κ) :
    (s.setPhase i phase').count p channel + (if c = channel ∧ p phase then 1 else 0) =
      s.count p channel + if c = channel ∧ p phase' then 1 else 0 := by
  have hcount := countP_modify (f := fun g : Generator κ => { g with phase := phase' })
    (fun g => g.channel = channel && p g.phase) h
  simpa [count, setPhase] using hcount

theorem count_concat (p : GeneratorPhase → Bool) (g : Generator κ) (channel : κ) :
    ({ s with generators := s.generators ++ [g] } : RedisPubSub κ).count p channel =
      s.count p channel + if g.channel = channel ∧ p g.phase then 1 else 0 := by
  unfold count
  rw [List.countP_append, List.countP_singleton]
  simp

/-- A generator of the channel is counted. -/
theorem count_pos {i : Nat} {c : κ} {phase : GeneratorPhase} {p : GeneratorPhase → Bool}
    (h : s.generators[i]? = some ⟨c, phase⟩) (hp : p phase) : 0 < s.count p c :=
  List.countP_pos_iff.mpr ⟨_, List.mem_of_getElem? h, by simp [hp]⟩

theorem lastCommand_concat {s' : RedisPubSub κ} {kind : CommandKind} {c : κ}
    (hs : s'.commands = s.commands ++ [{ kind, channel := c }]) (channel : κ) :
    s'.lastCommand channel = if c = channel then some kind else s.lastCommand channel := by
  unfold lastCommand
  rw [hs, List.filterMap_append]
  by_cases heq : c = channel
  · simp [Command.kindFor, heq]
  · simp [Command.kindFor, heq]

/-! ## The steps -/

/-- A generator moves on and still holds its channel. -/
theorem Sound.move (h : Sound s) {i : Nat} {c : κ} {phase phase' : GeneratorPhase}
    (hi : s.generators[i]? = some ⟨c, phase⟩) (hactive : phase.isActive = true)
    (hactive' : phase'.isActive = true) : Sound (s.setPhase i phase') := by
  have hleaving : ∀ {phase : GeneratorPhase}, phase.isActive = true → phase.isLeaving = false := by
    intro phase hphase
    cases phase <;> first | rfl | cases hphase
  refine ⟨fun channel => ?_, h.replies⟩
  have hcount : (s.setPhase i phase').active channel = s.active channel := by
    have hset := count_setPhase hi GeneratorPhase.isActive phase' channel
    rw [hactive, hactive'] at hset
    exact Nat.add_right_cancel hset
  have hcount' : (s.setPhase i phase').leaving channel = s.leaving channel := by
    have hset := count_setPhase hi GeneratorPhase.isLeaving phase' channel
    rw [hleaving hactive, hleaving hactive'] at hset
    exact Nat.add_right_cancel hset
  rw [hcount, hcount']
  exact h.balanced channel

theorem Sound.subscribe (h : Sound s) {channel : κ} {aborted : Bool}
    (hfits : s.Fits (.subscribe channel aborted)) : Sound (s.subscribe channel aborted) := by
  unfold RedisPubSub.subscribe
  split
  · refine ⟨fun c => ?_, h.replies⟩
    have hactive := count_concat (s := s) GeneratorPhase.isActive ⟨channel, .finished⟩ c
    have hleaving := count_concat (s := s) GeneratorPhase.isLeaving ⟨channel, .finished⟩ c
    unfold active leaving
    rw [hactive, hleaving]
    simp only [GeneratorPhase.isActive, GeneratorPhase.isLeaving, Bool.false_eq_true, and_false,
      if_false, Nat.add_zero]
    exact h.balanced c
  · next haborted =>
    have hfree : s.leaving channel = 0 := by
      refine List.countP_eq_zero.mpr fun g hg hp => ?_
      rw [Bool.and_eq_true, decide_eq_true_eq] at hp
      have hnot := (hfits.resolve_left haborted) g hg hp.1
      exact absurd hp.2 (by simp [hnot])
    have hjoin : ∀ (c : κ) (subscription : Option Nat) (s' : RedisPubSub κ),
        s'.generators = s.generators ++ [⟨channel, .waiting subscription⟩] →
        s'.active c = s.active c + (if channel = c then 1 else 0) ∧ s'.leaving c = s.leaving c := by
      intro c subscription s' hs
      have hactive := count_concat (s := s) GeneratorPhase.isActive
        ⟨channel, .waiting subscription⟩ c
      have hleaving := count_concat (s := s) GeneratorPhase.isLeaving
        ⟨channel, .waiting subscription⟩ c
      unfold active leaving count
      rw [hs]
      unfold count at hactive hleaving
      rw [hactive, hleaving]
      simp [GeneratorPhase.isActive, GeneratorPhase.isLeaving]
    have hbalanced := h.balanced channel
    split
    · next hnone =>
      refine ⟨fun c => ?_, fun command hmem => ?_⟩
      · rw [(hjoin c (some s.commands.length) _ (by rfl)).1,
          (hjoin c (some s.commands.length) _ (by rfl)).2, lastCommand_concat (s := s) (by rfl)]
        dsimp only
        rw [OrdMap.get?_set]
        by_cases heq : channel = c
        · subst heq
          have hzero : s.active channel + s.leaving channel = 0 := by
            by_contra hne
            rw [hbalanced.entry, if_neg hne] at hnone
            cases hnone
          have hnew : Balanced (some 1) 1 0 (some .subscribe) := ⟨rfl, .inl rfl, by simp⟩
          have hactive : s.active channel = 0 := Nat.eq_zero_of_add_eq_zero_right hzero
          simpa [hfree, hactive] using hnew
        · simpa [heq, Ne.symm heq] using h.balanced c
      · obtain hmem | hmem := List.mem_append.mp hmem
        · exact h.replies command hmem
        · rw [List.mem_singleton.mp hmem]
          simp
    · next listeners hsome =>
      refine ⟨fun c => ?_, h.replies⟩
      rw [(hjoin c (s.subscribtions.get? channel) _ (by rfl)).1,
        (hjoin c (s.subscribtions.get? channel) _ (by rfl)).2]
      dsimp only
      rw [OrdMap.get?_set]
      by_cases heq : channel = c
      · subst heq
        have hentry := hbalanced.entry
        rw [hsome, hfree] at hentry
        split at hentry
        · cases hentry
        · next hne =>
          cases hentry
          have hlast := hbalanced.last.mpr hne
          rw [if_pos rfl, if_pos rfl, hfree]
          refine ⟨rfl, .inl rfl, ?_⟩
          exact iff_of_true hlast (Nat.succ_ne_zero _)
      · rw [if_neg (Ne.symm heq), if_neg heq]
        exact h.balanced c

theorem Sound.reply (h : Sound s) (i : Nat) : Sound (s.reply i true) := by
  unfold RedisPubSub.reply
  split
  · next kind channel hi =>
    refine ⟨fun c => ?_, fun command hmem => ?_⟩
    · have hlast : (s.commands.modify i fun c => { c with reply := some true }).filterMap
          (Command.kindFor c) = s.commands.filterMap (Command.kindFor c) :=
        filterMap_modify hi (by simp [Command.kindFor])
      have hbalanced := h.balanced c
      unfold lastCommand at hbalanced ⊢
      dsimp only
      rw [hlast]
      exact hbalanced
    · obtain hold | ⟨_, _, rfl⟩ := mem_modify hmem
      · exact h.replies command hold
      · simp
  · exact h

theorem Sound.reply? (h : Sound s) {command : Option Nat} : s.reply? command ≠ some false := by
  cases command with
  | none => simp [RedisPubSub.reply?]
  | some i =>
    intro hreply
    obtain ⟨c, hc, hfalse⟩ := Option.bind_eq_some_iff.mp hreply
    exact h.replies c (List.mem_of_getElem? hc) hfalse

/-- What a generator that leaves does to the counts. -/
theorem leave_counts {i : Nat} {c : κ} {phase : GeneratorPhase}
    (hi : s.generators[i]? = some ⟨c, phase⟩) (phase' : GeneratorPhase) (channel : κ) :
    (s.setPhase i phase').active channel + (if c = channel ∧ phase.isActive then 1 else 0) =
        s.active channel + (if c = channel ∧ phase'.isActive then 1 else 0) ∧
      (s.setPhase i phase').leaving channel + (if c = channel ∧ phase.isLeaving then 1 else 0) =
        s.leaving channel + (if c = channel ∧ phase'.isLeaving then 1 else 0) :=
  ⟨count_setPhase hi GeneratorPhase.isActive phase' channel,
    count_setPhase hi GeneratorPhase.isLeaving phase' channel⟩

theorem Sound.resume (h : Sound s) (i : Nat) : Sound (s.resume i) := by
  unfold RedisPubSub.resume
  split
  · next channel subscription hi =>
    split
    · exact h.move hi rfl rfl
    · next hfalse => exact absurd hfalse h.reply?
    · exact h
  · next channel command hi =>
    split
    · refine ⟨fun c => ?_, h.replies⟩
      have hcounts := leave_counts hi .finished c
      have hbalanced := h.balanced c
      change Balanced ((s.listeners.erase channel).get? c) ((s.setPhase i .finished).active c)
        ((s.setPhase i .finished).leaving c) (s.lastCommand c)
      rw [OrdMap.get?_erase]
      simp only [GeneratorPhase.isActive, GeneratorPhase.isLeaving, Bool.false_eq_true, and_false,
        if_false, Nat.add_zero, and_true] at hcounts
      by_cases heq : channel = c
      · subst heq
        have hpos : 0 < s.leaving channel := count_pos hi rfl
        obtain ⟨hactive, hleaving⟩ := hbalanced.alone.resolve_left (Nat.ne_of_gt hpos)
        have hlast := hbalanced.last
        rw [if_pos rfl] at hcounts ⊢
        rw [hcounts.1, Nat.succ.inj (hcounts.2.trans hleaving), hactive]
        rw [hactive] at hlast
        exact ⟨rfl, .inl rfl, hlast⟩
      · rw [if_neg heq, Nat.add_zero] at hcounts
        rw [if_neg (Ne.symm heq), hcounts.1, hcounts.2]
        exact hbalanced
    · next hfalse => exact absurd hfalse h.reply?
    · exact h
  · exact h

theorem Sound.detach (h : Sound s) {i : Nat} {channel : κ} {phase : GeneratorPhase}
    (hi : s.generators[i]? = some ⟨channel, phase⟩) (hlive : phase.isLive = true) :
    Sound (s.detach i channel) := by
  have hactive : phase.isActive = true := by cases phase <;> first | rfl | cases hlive
  have hleaving : phase.isLeaving = false := by cases phase <;> first | rfl | cases hlive
  have hpos : 0 < s.active channel := count_pos hi hactive
  have hbalanced := h.balanced channel
  have hfree : s.leaving channel = 0 :=
    hbalanced.alone.resolve_right fun hone => Nat.ne_of_gt hpos hone.1
  have hentry := hbalanced.entry
  rw [hfree, Nat.add_zero, if_neg (Nat.ne_of_gt hpos)] at hentry
  unfold RedisPubSub.detach
  rw [hentry]
  dsimp only
  split
  · next hmany =>
    refine ⟨fun c => ?_, h.replies⟩
    have hcounts := leave_counts hi .finished c
    change Balanced ((s.listeners.set channel (s.active channel - 1)).get? c)
      ((s.setPhase i .finished).active c) ((s.setPhase i .finished).leaving c) (s.lastCommand c)
    rw [OrdMap.get?_set]
    rw [hactive, hleaving] at hcounts
    simp only [GeneratorPhase.isActive, GeneratorPhase.isLeaving, Bool.false_eq_true, and_false,
      if_false, Nat.add_zero, and_true] at hcounts
    by_cases heq : channel = c
    · subst heq
      rw [if_pos rfl] at hcounts ⊢
      have hrest : (s.setPhase i .finished).active channel = s.active channel - 1 := by omega
      rw [hrest, hcounts.2, hfree]
      have hne : s.active channel - 1 ≠ 0 := by omega
      refine ⟨(if_neg hne).symm, .inl rfl, ?_⟩
      exact iff_of_true (hbalanced.last.mpr (Nat.ne_of_gt hpos)) hne
    · rw [if_neg heq, Nat.add_zero] at hcounts
      rw [if_neg (Ne.symm heq), hcounts.1, hcounts.2]
      exact h.balanced c
  · next hone =>
    refine ⟨fun c => ?_, fun command hmem => ?_⟩
    · have hcounts := leave_counts hi (.unsubscribing s.commands.length) c
      change Balanced (s.listeners.get? c)
        ((s.setPhase i (.unsubscribing s.commands.length)).active c)
        ((s.setPhase i (.unsubscribing s.commands.length)).leaving c) _
      rw [lastCommand_concat (s := s) (by rfl)]
      rw [hactive, hleaving] at hcounts
      simp only [GeneratorPhase.isActive, GeneratorPhase.isLeaving, Bool.false_eq_true, and_false,
        if_false, Nat.add_zero, and_true] at hcounts
      by_cases heq : channel = c
      · subst heq
        rw [if_pos rfl] at hcounts ⊢
        have hlast : (s.setPhase i (.unsubscribing s.commands.length)).active channel = 0 := by
          omega
        rw [hlast, hcounts.2, hfree, hentry]
        refine ⟨?_, .inr ⟨rfl, rfl⟩, by simp⟩
        have hsingle : s.active channel = 1 := by omega
        rw [hsingle]
        rfl
      · rw [if_neg heq, Nat.add_zero, Nat.add_zero] at hcounts
        rw [if_neg heq, hcounts.1, hcounts.2]
        exact h.balanced c
    · obtain hmem | hmem := List.mem_append.mp hmem
      · exact h.replies command hmem
      · rw [List.mem_singleton.mp hmem]
        simp

theorem Sound.step (h : Sound s) {event : RedisEvent κ} (hfits : s.Fits event) :
    Sound (s.step event) := by
  cases event with
  | subscribe channel aborted => exact h.subscribe hfits
  | reply i succeeds =>
    obtain rfl : succeeds = true := hfits
    exact h.reply i
  | resume i => exact h.resume i
  | message i =>
    dsimp only [RedisPubSub.step]
    unfold message
    split
    · next hi => exact h.move hi rfl rfl
    · exact h
  | next i =>
    dsimp only [RedisPubSub.step]
    unfold next
    split
    · next hi => exact h.move hi rfl rfl
    · exact h
  | stop i =>
    dsimp only [RedisPubSub.step]
    unfold stop
    split
    · next hi => exact h.detach hi rfl
    · next hi => exact h.detach hi rfl
    · exact h

theorem Sound.counted (h : Sound s) : Counted s where
  live g hg hlive := by
    obtain ⟨i, hi⟩ := List.mem_iff_getElem?.mp hg
    have hactive : g.phase.isActive = true := by
      cases hphase : g.phase <;> simp_all [GeneratorPhase.isLive, GeneratorPhase.isActive]
    have hpos : 0 < s.active g.channel := count_pos hi hactive
    exact (h.balanced g.channel).last.mpr (Nat.ne_of_gt hpos)
  listeners channel := by
    rw [held_eq]
    exact (h.balanced channel).entry
  unsubscribed channel hheld hlast := by
    rw [held_eq] at hheld
    exact (h.balanced channel).last.mp hlast (Nat.eq_zero_of_add_eq_zero_right hheld)
  renewed channel i c _ hc hfalse := absurd hfalse (h.replies c (List.mem_of_getElem? hc))

/-- In a run without failed commands in which no generator starts while the last one of its channel
unsubscribes, the counts, the commands and the generators agree in every state. -/
theorem channels_counted (l : List (RedisEvent κ))
    (hl : Trace.Admits step Fits ({} : RedisPubSub κ) l) : Counted (Trace.run step {} l) := by
  have hsound : Sound (Trace.run step ({} : RedisPubSub κ) l) := by
    refine Trace.run_inv_of_admits step (fun _ _ hfits h => h.step hfits) hl ⟨fun _ => ?_, ?_⟩
    · exact ⟨rfl, .inl rfl, by simp [lastCommand, active, count]⟩
    · simp
  exact hsound.counted

/-- Two generators of a channel: the first leaves while the second waits for a message, and a third
one starts after the second has unsubscribed. -/
theorem channels_counted_in_turn : Counted (Trace.run step ({} : RedisPubSub String)
    [.subscribe "room" false, .subscribe "room" false, .reply 0 true, .resume 0, .resume 1,
      .message 0, .message 1, .stop 0, .next 1, .stop 1, .subscribe "room" true, .reply 1 true,
      .resume 1, .subscribe "room" false, .reply 2 true, .resume 3]) :=
  channels_counted _ (by decide)

/-- After a SUBSCRIBE that fails the channel keeps its entry, and the next generator awaits the failed
subscription. A generator that starts while the last one unsubscribes is registered with a channel
that is not subscribed. After an UNSUBSCRIBE that fails the channel keeps its entry. -/
theorem miscounted :
    let run := Trace.run step ({} : RedisPubSub String)
    ¬ Counted (run [.subscribe "room" false, .reply 0 false, .resume 0]) ∧
    ¬ Counted (run [.subscribe "room" false, .reply 0 true, .resume 0, .stop 0,
      .subscribe "room" false, .reply 1 true, .resume 0, .resume 1]) ∧
    ¬ Counted (run [.subscribe "room" false, .reply 0 true, .resume 0, .stop 0, .reply 1 false,
      .resume 0]) := by
  refine ⟨fun h => ?_, fun h => ?_, fun h => ?_⟩
  · exact absurd (h.renewed "room" 0 _ rfl rfl rfl) (by decide)
  · exact absurd (h.live ⟨"room", .reading⟩ (by decide) rfl) (by decide)
  · exact absurd (h.listeners "room") (by decide)

end RedisPubSub

end Neemata.PubSub
