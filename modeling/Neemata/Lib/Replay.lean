import Neemata.Lib.Program
import Neemata.Lib.Trace

/-!
# Interrupted programs

A program that is run to its end performs a list of operations (`trail`). Cut off after some of them
it has performed a prefix, and what is left performs the rest (`trail_steps`). Operations that are
absorbed once they have been performed can be performed all over again (`run_replay`).
-/

namespace Neemata.Program

variable {Op : Type} {Ret : Op → Type} {α β σ ε : Type}
  {exec : σ → (op : Op) → Ret op × σ} {s : σ}

/-- The state an operation leaves behind. -/
def effect (exec : σ → (op : Op) → Ret op × σ) (s : σ) (op : Op) : σ := (exec s op).2

/-- The operations a program performs until it ends. -/
def trail (exec : σ → (op : Op) → Ret op × σ) (s : σ) : Program Ret α → List Op
  | pure _ | halt => []
  | perform op next => op :: (next (exec s op).1).trail exec (effect exec s op)

/-- Perform at most `count` operations. -/
def steps (exec : σ → (op : Op) → Ret op × σ) : Nat → σ → Program Ret α → Program Ret α × σ
  | 0, s, p => (p, s)
  | count + 1, s, p => let (p, s) := p.step exec s; p.steps exec count s

theorem eval_snd (p : Program Ret α) : (p.eval exec s).2 = Trace.run (effect exec) s (p.trail exec s) := by
  induction p generalizing s with
  | pure | halt => rfl
  | perform op next ih => exact ih _

/-- What is left after a cut performs what is left of the operations. -/
theorem trail_steps (p : Program Ret α) (count : Nat) :
    let cut := p.steps exec count s
    cut.1.trail exec cut.2 = (p.trail exec s).drop count ∧
      cut.2 = Trace.run (effect exec) s ((p.trail exec s).take count) := by
  induction count generalizing s p with
  | zero => exact ⟨rfl, rfl⟩
  | succ count ih =>
    cases p with
    | pure | halt => exact ⟨(ih _).1.trans (List.drop_nil.trans List.drop_nil.symm), (ih _).2.trans
        (by rw [trail, List.take_nil, List.take_nil])⟩
    | perform op next => exact ih _

theorem trail_eq_nil {p : Program Ret α} : p.trail exec s = [] ↔ p.isSettled := by
  cases p with
  | pure | halt => exact iff_of_true rfl rfl
  | perform op next => exact iff_of_false (List.cons_ne_nil _ _) Bool.false_ne_true

/-! ## Programs that end -/

/-- Run from `s` the program performs `ops` and returns. -/
structure Performs (exec : σ → (op : Op) → Ret op × σ) (s : σ) (p : Program Ret α) (ops : List Op)
    (result : α) : Prop where
  trail : p.trail exec s = ops
  result : (p.eval exec s).1 = some result

theorem performs_pure (result : α) : Performs exec s (pure result) [] result := ⟨rfl, rfl⟩

theorem performs_perform {op : Op} {next : Ret op → Program Ret α} {ops : List Op} {result : α}
    (h : Performs exec (effect exec s op) (next (exec s op).1) ops result) :
    Performs exec s (perform op next) (op :: ops) result :=
  ⟨congrArg (op :: ·) h.trail, h.result⟩

theorem Performs.eval {p : Program Ret α} {ops : List Op} {result : α}
    (h : Performs exec s p ops result) :
    p.eval exec s = (some result, Trace.run (effect exec) s ops) :=
  Prod.ext h.result (h.trail ▸ eval_snd p)

/-- A program cut off before the last of its operations. -/
theorem Performs.steps {p : Program Ret α} {ops : List Op} {last : Op} {result : α}
    (h : Performs exec s p (ops ++ [last]) result) {count : Nat}
    (hdue : (p.steps exec count s).1.isSettled = false) :
    (p.steps exec count s).1.trail exec (p.steps exec count s).2 = ops.drop count ++ [last] ∧
      (p.steps exec count s).2 = Trace.run (effect exec) s (ops.take count) := by
  obtain ⟨htrail, hleft⟩ := trail_steps p count
  rw [h.trail] at htrail hleft
  have hbound : count ≤ ops.length := by
    by_contra hlong
    refine Bool.false_ne_true (hdue.symm.trans (trail_eq_nil.mp (htrail.trans ?_)))
    refine List.drop_eq_nil_of_le ?_
    rw [List.length_append, List.length_singleton]
    omega
  rw [List.drop_append_of_le_length hbound] at htrail
  rw [List.take_append_of_le_length hbound] at hleft
  exact ⟨htrail, hleft⟩

theorem Performs.bind {p : Program Ret α} {f : α → Program Ret β} {ops ops' : List Op}
    {result : α} {result' : β} (h : Performs exec s p ops result)
    (hf : Performs exec (Trace.run (effect exec) s ops) (f result) ops' result') :
    Performs exec s (p >>= f) (ops ++ ops') result' := by
  induction p generalizing s ops with
  | pure =>
    obtain ⟨rfl, hresult⟩ := h
    obtain rfl := Option.some.inj hresult
    exact hf
  | halt => cases h.result
  | perform op next ih =>
    obtain ⟨rfl, hresult⟩ := h
    exact performs_perform (ih _ ⟨rfl, hresult⟩ hf)

/-- `Performs` for a program that returns. -/
theorem Performs.bind_ok {x : ExceptT ε (Program Ret) α} {f : α → ExceptT ε (Program Ret) β}
    {ops ops' : List Op} {result : α} {result' : Except ε β}
    (h : Performs exec s x.run ops (.ok result))
    (hf : Performs exec (Trace.run (effect exec) s ops) (f result).run ops' result') :
    Performs exec s (x >>= f).run (ops ++ ops') result' :=
  Performs.bind h hf

theorem Performs.tryCatch_ok {x : ExceptT ε (Program Ret) α}
    {handle : ε → ExceptT ε (Program Ret) α} {ops : List Op} {result : α}
    (h : Performs exec s x.run ops (.ok result)) :
    Performs exec s (tryCatch x handle).run ops (.ok result) := by
  have hreturn : Performs exec (Trace.run (effect exec) s ops)
      (Program.pure (Except.ok result) : Program Ret (Except ε α)) [] (.ok result) :=
    performs_pure _
  have hcatch : Performs exec s (tryCatch x handle).run (ops ++ []) (.ok result) :=
    Performs.bind h hreturn
  rwa [List.append_nil] at hcatch

end Neemata.Program

/-! ## Operations that are absorbed -/

namespace Neemata.Trace

variable {ω ι : Type*} {act : ω → ι → ω} {o : ω}

/-- Performed twice in a row an operation does what it does once, and no other operation undoes
it. -/
structure Absorbing (act : ω → ι → ω) : Prop where
  again : ∀ o i, act (act o i) i = act o i
  keeps : ∀ o i j, act o i = o → act (act o j) i = act o j

theorem run_of_absorbed {l : List ι} (h : ∀ i ∈ l, act o i = o) : run act o l = o := by
  induction l with
  | nil => rfl
  | cons i l ih =>
    rw [run_cons, h i List.mem_cons_self]
    exact ih fun j hj => h j (List.mem_cons_of_mem i hj)

theorem Absorbing.run_keeps (h : Absorbing act) {i : ι} (hi : act o i = o) (l : List ι) :
    act (run act o l) i = run act o l := by
  induction l generalizing o with
  | nil => exact hi
  | cons j l ih => exact ih (h.keeps o i j hi)

/-- What a run has performed is absorbed at its end. -/
theorem Absorbing.absorbed_of_mem (h : Absorbing act) {i : ι} {l : List ι} (hi : i ∈ l) :
    act (run act o l) i = run act o l := by
  induction l generalizing o with
  | nil => cases hi
  | cons j l ih =>
    rcases List.mem_cons.mp hi with rfl | hi
    · exact h.run_keeps (h.again o i) l
    · exact ih hi

/-- A run that changes nothing consists of operations that change nothing. -/
theorem Absorbing.run_eq_self_iff (h : Absorbing act) {l : List ι} :
    run act o l = o ↔ ∀ i ∈ l, act o i = o := by
  refine ⟨fun hrun i hi => ?_, run_of_absorbed⟩
  have habsorbed := h.absorbed_of_mem (o := o) hi
  rwa [hrun] at habsorbed

/-- Once a prefix of a run has been performed, the whole run does what is left of it. -/
theorem Absorbing.run_replay (h : Absorbing act) (o : ω) (l : List ι) (count : Nat) :
    run act (run act o (l.take count)) l = run act (run act o (l.take count)) (l.drop count) := by
  have hprefix : run act (run act o (l.take count)) (l.take count) = run act o (l.take count) :=
    run_of_absorbed fun i hi => h.absorbed_of_mem hi
  calc run act (run act o (l.take count)) l
      = run act (run act o (l.take count)) (l.take count ++ l.drop count) := by
        rw [List.take_append_drop]
    _ = run act (run act o (l.take count)) (l.drop count) := by
        rw [run_append, hprefix]

end Neemata.Trace
