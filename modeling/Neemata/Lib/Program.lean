import Mathlib.Tactic.Common

/-!
# Programs that perform operations

A program returns, stops for good, or performs an operation and goes on with its answer. The
operations have no meaning here: a handler gives them one (`step`, `eval`), and `Meets` says what
a program does for every answer that a handler may give.
-/

namespace Neemata

/-- A program over operations `Op` whose answers have the types `Ret`. `halt` is a recursion that
was cut off: nothing follows it. -/
inductive Program {Op : Type} (Ret : Op → Type) (α : Type) : Type
  | pure (result : α)
  | halt
  | perform (op : Op) (next : Ret op → Program Ret α)

namespace Program

variable {Op : Type} {Ret : Op → Type} {α β σ : Type}

def bind : Program Ret α → (α → Program Ret β) → Program Ret β
  | pure result, f => f result
  | halt, _ => halt
  | perform op next, f => perform op fun answer => (next answer).bind f

instance : Monad (Program Ret) where
  pure := pure
  bind := bind

theorem bind_pure' (p : Program Ret α) : p.bind pure = p := by
  induction p with
  | pure | halt => rfl
  | perform op next ih => exact congrArg (perform op) (funext ih)

theorem bind_assoc' {γ : Type} (p : Program Ret α) (f : α → Program Ret β)
    (g : β → Program Ret γ) : (p.bind f).bind g = p.bind fun result => (f result).bind g := by
  induction p with
  | pure | halt => rfl
  | perform op next ih => exact congrArg (perform op) (funext ih)

instance : LawfulMonad (Program Ret) :=
  .mk' (Program Ret) bind_pure' (fun _ _ => rfl) bind_assoc'

/-! ## Execution -/

/-- Perform the next operation with the handler `exec`; a finished program does nothing. -/
def step (exec : σ → (op : Op) → Ret op × σ) (s : σ) : Program Ret α → Program Ret α × σ
  | pure result => (pure result, s)
  | halt => (halt, s)
  | perform op next => let (answer, s) := exec s op; (next answer, s)

/-- Run a program to its end. -/
def eval (exec : σ → (op : Op) → Ret op × σ) (s : σ) : Program Ret α → Option α × σ
  | pure result => (some result, s)
  | halt => (none, s)
  | perform op next => let (answer, s) := exec s op; (next answer).eval exec s

def isSettled : Program Ret α → Bool
  | pure _ | halt => true
  | perform _ _ => false

/-! ## What a program does -/

/-- Every operation the program performs is `allowed`, and what it returns satisfies `post`, as
long as the answers to its operations are `honest`. -/
def Meets (allowed : Op → Prop) (honest : (op : Op) → Ret op → Prop) (post : α → Prop) :
    Program Ret α → Prop
  | pure result => post result
  | halt => True
  | perform op next => allowed op ∧ ∀ answer, honest op answer → (next answer).Meets allowed honest post

variable {allowed : Op → Prop} {honest : (op : Op) → Ret op → Prop}

/-- Programs in a row: the first establishes what the second needs. -/
theorem Meets.bind {p : Program Ret α} {f : α → Program Ret β} {mid : α → Prop} {post : β → Prop}
    (h : p.Meets allowed honest mid) (hf : ∀ result, mid result → (f result).Meets allowed honest post) :
    (p >>= f).Meets allowed honest post := by
  induction p with
  | pure result => exact hf result h
  | halt => trivial
  | perform op next ih => exact ⟨h.1, fun answer hanswer => ih answer (h.2 answer hanswer)⟩

/-! ## What a program does in a row -/

/-- A protocol: what may be performed in a phase, the phase an answer leads to, and where a program
may be cut off. -/
structure Protocol (Ret : Op → Type) (Q : Type) where
  allowed : Q → Op → Prop
  advance : Q → (op : Op) → Ret op → Q
  mayHalt : Q → Prop

section

variable {Q : Type} (P : Protocol Ret Q)

/-- From the phase `q` on the program keeps to the protocol, whatever the answers, and its result
satisfies `post` in the phase it ends in. -/
def Follows (post : Q → α → Prop) : Q → Program Ret α → Prop
  | q, pure result => post q result
  | q, halt => P.mayHalt q
  | q, perform op next =>
    P.allowed q op ∧ ∀ answer, (next answer).Follows post (P.advance q op answer)

variable {P} {q : Q}

theorem Follows.mono {p : Program Ret α} {post post' : Q → α → Prop} (h : p.Follows P post q)
    (hpost : ∀ q result, post q result → post' q result) : p.Follows P post' q := by
  induction p generalizing q with
  | pure result => exact hpost q result h
  | halt => exact h
  | perform op next ih => exact ⟨h.1, fun answer => ih answer (h.2 answer)⟩

theorem Follows.bind {p : Program Ret α} {f : α → Program Ret β} {mid : Q → α → Prop}
    {post : Q → β → Prop} (h : p.Follows P mid q)
    (hf : ∀ q result, mid q result → (f result).Follows P post q) :
    (p >>= f).Follows P post q := by
  induction p generalizing q with
  | pure result => exact hf q result h
  | halt => exact h
  | perform op next ih => exact ⟨h.1, fun answer => ih answer (h.2 answer)⟩

/-! ## Programs that throw -/

variable {ε : Type}

/-- `Follows` for a program that returns or throws. -/
def Obeys (P : Protocol Ret Q) (q : Q) (x : ExceptT ε (Program Ret) α)
    (post : Q → Except ε α → Prop) : Prop :=
  Follows P post q x.run

variable {post : Q → Except ε α → Prop}

theorem obeys_pure {result : α} (h : post q (.ok result)) :
    Obeys P q (Pure.pure result : ExceptT ε (Program Ret) α) post := h

theorem obeys_throw {error : ε} (h : post q (.error error)) :
    Obeys P q (throw error : ExceptT ε (Program Ret) α) post := h

theorem Obeys.mono {x : ExceptT ε (Program Ret) α} {post' : Q → Except ε α → Prop}
    (h : Obeys P q x post) (hpost : ∀ q result, post q result → post' q result) :
    Obeys P q x post' :=
  Follows.mono h hpost

theorem Obeys.bind {x : ExceptT ε (Program Ret) α} {f : α → ExceptT ε (Program Ret) β}
    {post' : Q → Except ε β → Prop} (h : Obeys P q x post)
    (hok : ∀ q result, post q (.ok result) → Obeys P q (f result) post')
    (herror : ∀ q error, post q (.error error) → post' q (.error error)) :
    Obeys P q (x >>= f) post' := by
  refine Follows.bind h fun q result hresult => ?_
  cases result with
  | ok result => exact hok q result hresult
  | error error => exact herror q error hresult

theorem Obeys.tryCatch {x : ExceptT ε (Program Ret) α} {handle : ε → ExceptT ε (Program Ret) α}
    {mid : Q → Except ε α → Prop} (h : Obeys P q x mid)
    (hok : ∀ q result, mid q (.ok result) → post q (.ok result))
    (herror : ∀ q error, mid q (.error error) → Obeys P q (handle error) post) :
    Obeys P q (tryCatch x handle) post := by
  refine Follows.bind h fun q result hresult => ?_
  cases result with
  | ok result => exact hok q result hresult
  | error error => exact herror q error hresult

/-- A program that keeps to a protocol keeps to one in which its phases are found again and which
allows more. -/
theorem Obeys.embed {Q' : Type} {P' : Protocol Ret Q'} {x : ExceptT ε (Program Ret) α} (f : Q → Q')
    (h : Obeys P q x post) (hallowed : ∀ q op, P.allowed q op → P'.allowed (f q) op)
    (hadvance : ∀ q op answer, P'.advance (f q) op answer = f (P.advance q op answer))
    (hhalt : ∀ q, P.mayHalt q → P'.mayHalt (f q)) {post' : Q' → Except ε α → Prop}
    (hpost : ∀ q result, post q result → post' (f q) result) : Obeys P' (f q) x post' := by
  have hfollows (p : Program Ret (Except ε α)) (q : Q) (h : p.Follows P post q) :
      p.Follows P' post' (f q) := by
    induction p generalizing q with
    | pure result => exact hpost q result h
    | halt => exact hhalt q h
    | perform op next ih =>
      refine ⟨hallowed q op h.1, fun answer => ?_⟩
      rw [hadvance]
      exact ih answer _ (h.2 answer)
  exact hfollows x.run q h

end

/-! ## Programs that only perform some operations -/

section

variable {Q : Type} {P : Protocol Ret Q} {q : Q} {ε : Type} {some : Op → Prop}

/-- The program performs no other operations than these. -/
def Only (some : Op → Prop) (x : ExceptT ε (Program Ret) α) : Prop :=
  Meets some (fun _ _ => True) (fun _ => True) x.run

theorem only_pure (result : α) : Only some (Pure.pure result : ExceptT ε (Program Ret) α) := trivial

theorem only_throw (error : ε) : Only some (throw error : ExceptT ε (Program Ret) α) := trivial

theorem Only.bind {x : ExceptT ε (Program Ret) α} {f : α → ExceptT ε (Program Ret) β}
    (h : Only some x) (hf : ∀ result, Only some (f result)) : Only some (x >>= f) := by
  refine Meets.bind h fun result _ => ?_
  cases result with
  | ok result => exact hf result
  | error error => trivial

theorem Only.tryCatch {x : ExceptT ε (Program Ret) α} {handle : ε → ExceptT ε (Program Ret) α}
    (h : Only some x) (hhandle : ∀ error, Only some (handle error)) :
    Only some (tryCatch x handle) := by
  refine Meets.bind h fun result _ => ?_
  cases result with
  | ok result => trivial
  | error error => exact hhandle error

theorem Only.mono {x : ExceptT ε (Program Ret) α} {more : Op → Prop} (h : Only some x)
    (hmore : ∀ op, some op → more op) : Only more x := by
  have hmeets : ∀ {β : Type} (p : Program Ret β), p.Meets some (fun _ _ => True) (fun _ => True) →
      p.Meets more (fun _ _ => True) (fun _ => True) := by
    intro β p
    induction p with
    | pure | halt => exact fun _ => trivial
    | perform op next ih =>
      exact fun h => ⟨hmore op h.1, fun answer _ => ih answer (h.2 answer trivial)⟩
  exact hmeets x.run h

theorem Only.map {f : α → β} {x : ExceptT ε (Program Ret) α} (h : Only some x) :
    Only some (f <$> x) := by
  rw [map_eq_pure_bind]
  exact h.bind fun result => only_pure (f result)

/-- Such a program keeps what these operations keep. -/
theorem Only.keeps {I : Q → Prop} {x : ExceptT ε (Program Ret) α} (h : Only some x)
    (hsome : ∀ q op, I q → some op → P.allowed q op ∧ ∀ answer, I (P.advance q op answer))
    (hhalt : ∀ q, I q → P.mayHalt q) (hq : I q) : Obeys P q x fun q' _ => I q' := by
  have hfollows : ∀ {β : Type} (p : Program Ret β) (q : Q), I q →
      p.Meets some (fun _ _ => True) (fun _ => True) → p.Follows P (fun q' _ => I q') q := by
    intro β p
    induction p with
    | pure result => exact fun _ hq _ => hq
    | halt => exact fun q hq _ => hhalt q hq
    | perform op next ih =>
      refine fun q hq h => ⟨(hsome q op hq h.1).1, fun answer => ?_⟩
      exact ih answer _ ((hsome q op hq h.1).2 answer) (h.2 answer trivial)
  exact hfollows x.run q hq h

end

end Program

end Neemata
