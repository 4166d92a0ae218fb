import Mathlib.Data.List.Chain
import Mathlib.Data.List.DropRight

/-!
# Words

A text is cut into words at the characters that are no part of one. `squeeze` leaves one separator
between two words and none at the ends, so that a text of words and separators becomes its words,
joined (`squeeze_eq`).
-/

namespace Neemata.Words

variable {α : Type*}

/-- A word that is over, unless it is empty. -/
def push : List α → List (List α) → List (List α)
  | [], ws => ws
  | u :: w, ws => (u :: w) :: ws

/-- The word that a text begins with, which may be empty, and the words after it. -/
def cut (isWord : α → Bool) : List α → List α × List (List α)
  | [] => ([], [])
  | u :: l =>
    if isWord u then (u :: (cut isWord l).1, (cut isWord l).2)
    else ([], push (cut isWord l).1 (cut isWord l).2)

def words (isWord : α → Bool) (l : List α) : List (List α) :=
  push (cut isWord l).1 (cut isWord l).2

def join (sep : α) : List (List α) → List α
  | [] => []
  | w :: ws => w ++ ws.flatMap fun w => sep :: w

variable [DecidableEq α]

/-- Of separators in a row, one is left. -/
def collapse (sep : α) : List α → List α
  | [] => []
  | u :: l =>
    if u = sep ∧ (collapse sep l).head? = some sep then collapse sep l else u :: collapse sep l

/-- A separator at either end goes. -/
def strip (sep : α) (l : List α) : List α :=
  let l := if l.head? = some sep then l.tail else l
  if l.getLast? = some sep then l.dropLast else l

def squeeze (sep : α) (l : List α) : List α := strip sep (collapse sep l)

/-! ## What leaves the words as they are -/

variable {isWord : α → Bool} {sep u : α} {l : List α}

omit [DecidableEq α] in
theorem cut_cons_word (hu : isWord u = true) :
    cut isWord (u :: l) = (u :: (cut isWord l).1, (cut isWord l).2) := if_pos hu

omit [DecidableEq α] in
theorem cut_cons_sep (hu : isWord u = false) :
    cut isWord (u :: l) = ([], words isWord l) := if_neg (by simp [hu])

omit [DecidableEq α] in
theorem words_cons_sep (hu : isWord u = false) : words isWord (u :: l) = words isWord l := by
  rw [words, cut_cons_sep hu]
  rfl

omit [DecidableEq α] in
theorem cut_append_sep (hu : isWord u = false) : cut isWord (l ++ [u]) = cut isWord l := by
  induction l with
  | nil => exact cut_cons_sep hu
  | cons v l ih => rw [List.cons_append, cut, cut, ih]

omit [DecidableEq α] in
theorem cut_map {f : α → α} (hword : ∀ u, isWord u = true → f u = u)
    (hsep : ∀ u, isWord u = false → isWord (f u) = false) (l : List α) :
    cut isWord (l.map f) = cut isWord l := by
  induction l with
  | nil => rfl
  | cons u l ih =>
    rw [List.map_cons]
    cases hu : isWord u with
    | true => rw [hword u hu, cut_cons_word hu, cut_cons_word hu, ih]
    | false => rw [cut_cons_sep (hsep u hu), cut_cons_sep hu, words, words, ih]

omit [DecidableEq α] in
theorem words_dropWhile {p : α → Bool} (hp : ∀ u, p u = true → isWord u = false) (l : List α) :
    words isWord (l.dropWhile p) = words isWord l := by
  induction l with
  | nil => rfl
  | cons u l ih =>
    cases hu : p u with
    | true => rw [List.dropWhile_cons_of_pos hu, ih, words_cons_sep (hp u hu)]
    | false => rw [List.dropWhile_cons_of_neg (by simp [hu])]

omit [DecidableEq α] in
theorem words_rdropWhile {p : α → Bool} (hp : ∀ u, p u = true → isWord u = false) (l : List α) :
    words isWord (l.rdropWhile p) = words isWord l := by
  induction l using List.reverseRecOn with
  | nil => rfl
  | append_singleton l u ih =>
    cases hu : p u with
    | true => rw [List.rdropWhile_concat_pos _ _ _ hu, ih, words, words, cut_append_sep (hp u hu)]
    | false => rw [List.rdropWhile_concat_neg _ _ _ (by simp [hu])]

theorem cut_collapse (hsep : isWord sep = false) (l : List α) :
    cut isWord (collapse sep l) = cut isWord l := by
  induction l with
  | nil => rfl
  | cons u l ih =>
    rw [collapse]
    split
    · next h =>
      obtain ⟨rfl, hhead⟩ := h
      obtain ⟨rest, hrest⟩ : ∃ rest, collapse u l = u :: rest :=
        List.head?_eq_some_iff.mp hhead
      rw [cut_cons_sep hsep, words, ← ih, hrest, cut_cons_sep hsep]
      rfl
    · rw [cut, cut, ih]

theorem words_strip (hsep : isWord sep = false) (l : List α) :
    words isWord (strip sep l) = words isWord l := by
  have hhead : words isWord (if l.head? = some sep then l.tail else l) = words isWord l := by
    split
    · next h =>
      obtain ⟨rest, rfl⟩ := List.head?_eq_some_iff.mp h
      exact (words_cons_sep hsep).symm
    · rfl
  rw [strip, ← hhead]
  generalize (if l.head? = some sep then l.tail else l) = l
  split
  · next h =>
    obtain ⟨init, rfl⟩ := List.getLast?_eq_some_iff.mp h
    rw [List.dropLast_concat, words, words, cut_append_sep hsep]
  · rfl

theorem words_squeeze (hsep : isWord sep = false) (l : List α) :
    words isWord (squeeze sep l) = words isWord l := by
  rw [squeeze, words_strip hsep, words, words, cut_collapse hsep]

/-! ## The text of the words -/

/-- No two separators stand in a row. -/
def Single (sep : α) (l : List α) : Prop := l.IsChain fun a b => ¬ (a = sep ∧ b = sep)

theorem single_collapse (sep : α) (l : List α) : Single sep (collapse sep l) := by
  induction l with
  | nil => exact .nil
  | cons u l ih =>
    rw [collapse]
    split
    · exact ih
    · next h =>
      refine List.isChain_cons.mpr ⟨fun b hb hboth => h ⟨hboth.1, ?_⟩, ih⟩
      obtain ⟨-, rfl⟩ := hboth
      exact hb

omit [DecidableEq α] in
/-- A text without idle separators is its first word and the others after their separators. -/
theorem cut_spec (hsep : isWord sep = false) (hsingle : Single sep l)
    (hlast : l.getLast? ≠ some sep) (hchars : ∀ u ∈ l, isWord u = true ∨ u = sep) :
    (cut isWord l).1 ++ (cut isWord l).2.flatMap (fun w => sep :: w) = l := by
  induction l with
  | nil => rfl
  | cons u l ih =>
    obtain ⟨hu, hl⟩ := List.forall_mem_cons.mp hchars
    obtain ⟨hnext, hsingle⟩ := List.isChain_cons.mp hsingle
    have hlast' : l.getLast? ≠ some sep := by
      intro h
      obtain ⟨init, rfl⟩ := List.getLast?_eq_some_iff.mp h
      exact hlast (by rw [← List.cons_append, List.getLast?_concat])
    have hrest := ih hsingle hlast' hl
    rcases hu with hu | rfl
    · rw [cut_cons_word hu, List.cons_append, hrest]
    · cases l with
      | nil => exact absurd rfl hlast
      | cons v l =>
        have hv : isWord v = true :=
          (hl v List.mem_cons_self).resolve_right fun hv => hnext v rfl ⟨rfl, hv⟩
        rw [cut_cons_sep hsep, words]
        rw [cut_cons_word hv] at hrest ⊢
        rw [List.nil_append, push, List.flatMap_cons, List.cons_append, hrest]

omit [DecidableEq α] in
theorem join_words (hsep : isWord sep = false) (hsingle : Single sep l)
    (hhead : l.head? ≠ some sep) (hlast : l.getLast? ≠ some sep)
    (hchars : ∀ u ∈ l, isWord u = true ∨ u = sep) : join sep (words isWord l) = l := by
  have hspec := cut_spec hsep hsingle hlast hchars
  cases l with
  | nil => rfl
  | cons u l =>
    have hu : isWord u = true :=
      (hchars u List.mem_cons_self).resolve_right fun hu => hhead (congrArg some hu)
    rw [words]
    rw [cut_cons_word hu] at hspec ⊢
    rw [push, join, hspec]

theorem strip_eq (hsingle : Single sep l) :
    Single sep (strip sep l) ∧ (strip sep l).head? ≠ some sep ∧
      (strip sep l).getLast? ≠ some sep ∧ strip sep l <:+: l := by
  have hhead : ∃ l', (if l.head? = some sep then l.tail else l) = l' ∧ Single sep l' ∧
      l'.head? ≠ some sep ∧ l' <:+: l := by
    refine ⟨_, rfl, ?_⟩
    split
    · next h =>
      obtain ⟨rest, rfl⟩ := List.head?_eq_some_iff.mp h
      obtain ⟨hnext, hrest⟩ := List.isChain_cons.mp hsingle
      exact ⟨hrest, fun hhead => hnext sep hhead ⟨rfl, rfl⟩, (List.suffix_cons _ _).isInfix⟩
    · next h => exact ⟨hsingle, h, List.infix_rfl⟩
  obtain ⟨l', hl', hsingle', hhead', hinfix⟩ := hhead
  rw [strip, hl']
  split
  · next h =>
    obtain ⟨init, rfl⟩ := List.getLast?_eq_some_iff.mp h
    obtain ⟨hinit, -, hlast⟩ := List.isChain_append.mp hsingle'
    rw [List.dropLast_concat]
    refine ⟨hinit, fun hsome => hhead' ?_, fun hsome => hlast sep hsome sep rfl ⟨rfl, rfl⟩,
      (List.prefix_append _ _).isInfix.trans hinfix⟩
    rw [List.head?_append, hsome]
    rfl
  · next h => exact ⟨hsingle', hhead', h, hinfix⟩

theorem mem_of_mem_collapse (h : u ∈ collapse sep l) : u ∈ l := by
  induction l with
  | nil => exact h
  | cons v l ih =>
    rw [collapse] at h
    split at h
    · exact List.mem_cons_of_mem _ (ih h)
    · exact List.mem_cons.mpr ((List.mem_cons.mp h).imp id ih)

theorem mem_of_mem_squeeze (h : u ∈ squeeze sep l) : u ∈ l :=
  mem_of_mem_collapse ((strip_eq (single_collapse sep l)).2.2.2.subset h)

theorem squeeze_eq (hsep : isWord sep = false) (hchars : ∀ u ∈ l, isWord u = true ∨ u = sep) :
    squeeze sep l = join sep (words isWord l) := by
  obtain ⟨hsingle, hhead, hlast, -⟩ := strip_eq (single_collapse sep l)
  rw [← words_squeeze hsep l]
  exact (join_words hsep hsingle hhead hlast fun u hu => hchars u (mem_of_mem_squeeze hu)).symm

end Neemata.Words
