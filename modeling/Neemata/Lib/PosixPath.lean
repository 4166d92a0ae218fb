import Neemata.Lib.CodeUnits

/-!
# POSIX paths

`resolve` of `node:path` on absolute paths as the lists of their segments: an absolute argument
begins anew, `.` and an empty segment stay, and `..` goes up, which at the root stays too.
-/

namespace Neemata.PosixPath

open CodeUnits

/-- The segments of an absolute path that is normal. -/
abbrev Path := List Text

def slash : UInt16 := unit '/'

def dot : Text := units "."

def dotDot : Text := units ".."

def step (path : Path) (segment : Text) : Path :=
  if segment = [] ∨ segment = dot then path
  else if segment = dotDot then path.dropLast
  else path ++ [segment]

/-- `resolve(base, ...paths)` -/
def resolve (base : Path) (paths : List Text) : Path :=
  paths.foldl (fun path argument =>
    (argument.splitOn slash).foldl step (if argument.head? = some slash then [] else path)) base

/-- One path does not contain the other. -/
def Apart (p q : Path) : Prop := ¬ p <+: q ∧ ¬ q <+: p

/-- An argument that is a segment of a path as it stands. -/
structure Plain (segment : Text) : Prop where
  ne_nil : segment ≠ []
  ne_dot : segment ≠ dot
  ne_dotDot : segment ≠ dotDot
  no_slash : slash ∉ segment

instance decidablePlain (segment : Text) : Decidable (Plain segment) :=
  decidable_of_iff (segment ≠ [] ∧ segment ≠ dot ∧ segment ≠ dotDot ∧ slash ∉ segment)
    ⟨fun h => ⟨h.1, h.2.1, h.2.2.1, h.2.2.2⟩,
      fun h => ⟨h.ne_nil, h.ne_dot, h.ne_dotDot, h.no_slash⟩⟩

variable {base p q : Path} {segment : Text}

theorem resolve_cons (base : Path) (a : Text) (b : List Text) :
    resolve base (a :: b) = resolve (resolve base [a]) b := rfl

/-- A relative argument of one segment. -/
theorem resolve_segment (hslash : slash ∉ segment) :
    resolve base [segment] = step base segment := by
  have hhead : segment.head? ≠ some slash := fun h => hslash (List.mem_of_mem_head? h)
  have hsplit : segment.splitOn slash = [segment] := by
    refine List.splitOnP_eq_singleton fun u hu => ?_
    simpa using fun h : u = slash => hslash (h ▸ hu)
  show (segment.splitOn slash).foldl step (if segment.head? = some slash then [] else base) = _
  rw [if_neg hhead, hsplit]
  rfl

theorem Plain.resolve (h : Plain segment) : resolve base [segment] = base ++ [segment] := by
  rw [resolve_segment h.no_slash, step, if_neg (not_or.mpr ⟨h.ne_nil, h.ne_dot⟩),
    if_neg h.ne_dotDot]

variable (base) in
theorem resolve_plains {segments : List Text} (h : ∀ s ∈ segments, Plain s) :
    resolve base segments = base ++ segments := by
  induction segments generalizing base with
  | nil => exact (List.append_nil base).symm
  | cons s segments ih =>
    obtain ⟨hs, hrest⟩ := List.forall_mem_cons.mp h
    rw [resolve_cons, hs.resolve, ih _ hrest, List.append_assoc]
    rfl

theorem Apart.symm (h : Apart p q) : Apart q p := And.symm h

theorem apart_append_iff : Apart (base ++ p) (base ++ q) ↔ Apart p q := by
  rw [Apart, Apart, List.prefix_append_right_inj, List.prefix_append_right_inj]

/-- Paths that part at the first segment. -/
theorem apart_cons {a b : Text} (h : a ≠ b) : Apart (a :: p) (b :: q) :=
  ⟨fun hprefix => h (List.cons_prefix_cons.mp hprefix).1,
    fun hprefix => h (List.cons_prefix_cons.mp hprefix).1.symm⟩

theorem apart_cons_iff {a b : Text} : Apart (a :: p) (b :: q) ↔ a ≠ b ∨ Apart p q := by
  by_cases h : a = b
  · subst h
    simp only [ne_eq, not_true_eq_false, false_or]
    show Apart ([a] ++ p) ([a] ++ q) ↔ Apart p q
    exact apart_append_iff
  · exact iff_of_true (apart_cons h) (.inl h)

end Neemata.PosixPath
