import Mathlib.Tactic.Common
import Mathlib.Algebra.GroupWithZero.Nat

/-!
# JSON texts

`stringify` writes a JSON value without white space and `parse` reads such texts: what was written is
read back (`parse_stringify`). A string is a sequence of characters and of lone surrogates, a number
is the text it is written as. A value may have references among its leaves; only values without
references have a text, and a `walk` replaces the strings and the references of a value.
-/

namespace Neemata.Json

/-- An element of a string of the language: a character, or half of one. -/
inductive JsChar where
  | scalar (c : Char)
  | surrogate (n : Fin 2048)
deriving DecidableEq

abbrev JsString := List JsChar

def ofText (text : List Char) : JsString := text.map .scalar

def ofString (text : String) : JsString := ofText text.toList

/-- Characters of the texts of numbers. -/
def isNumeral (c : Char) : Bool := c.isDigit || c = '-' || c = '+' || c = '.' || c = 'e'

/-- A finite number, as the text `Number.prototype.toString` has for it. -/
structure Number where
  text : List Char
  ne_nil : text ≠ []
  numeral : text.all isNumeral = true
deriving DecidableEq

/-- A JSON value with references to `β` among its leaves. -/
inductive Value (β : Type) where
  | null
  | bool (b : Bool)
  | num (n : Number)
  | str (s : JsString)
  | arr (items : List (Value β))
  | obj (members : List (JsString × Value β))
  | ref (b : β)

/-! ## Writing -/

def escapeCode (n : Nat) : List Char :=
  ['\\', 'u', Nat.digitChar (n / 4096 % 16), Nat.digitChar (n / 256 % 16),
    Nat.digitChar (n / 16 % 16), Nat.digitChar (n % 16)]

/-- `QuoteJSONString` on one element. -/
def quoteChar : JsChar → List Char
  | .surrogate n => escapeCode (0xD800 + n)
  | .scalar c =>
    if c = '\x08' then ['\\', 'b']
    else if c = '\t' then ['\\', 't']
    else if c = '\n' then ['\\', 'n']
    else if c = '\x0c' then ['\\', 'f']
    else if c = '\r' then ['\\', 'r']
    else if c = '"' then ['\\', '"']
    else if c = '\\' then ['\\', '\\']
    else if c.toNat < 0x20 then escapeCode c.toNat
    else [c]

def quoteTail (s : JsString) : List Char := s.flatMap quoteChar ++ ['"']

mutual

def stringify : Value Empty → List Char
  | .null => ['n', 'u', 'l', 'l']
  | .bool true => ['t', 'r', 'u', 'e']
  | .bool false => ['f', 'a', 'l', 's', 'e']
  | .num n => n.text
  | .str s => '"' :: quoteTail s
  | .arr [] => ['[', ']']
  | .arr (v :: items) => '[' :: (stringify v ++ stringifyItems items)
  | .obj [] => ['\x7b', '\x7d']
  | .obj ((k, v) :: members) =>
    '\x7b' :: '"' :: (quoteTail k ++ ':' :: (stringify v ++ stringifyMembers members))

def stringifyItems : List (Value Empty) → List Char
  | [] => [']']
  | v :: items => ',' :: (stringify v ++ stringifyItems items)

def stringifyMembers : List (JsString × Value Empty) → List Char
  | [] => ['\x7d']
  | (k, v) :: members =>
    ',' :: '"' :: (quoteTail k ++ ':' :: (stringify v ++ stringifyMembers members))

end

/-! ## Reading -/

def hexValue (c : Char) : Option Nat :=
  if '0' ≤ c ∧ c ≤ '9' then some (c.toNat - '0'.toNat)
  else if 'a' ≤ c ∧ c ≤ 'f' then some (c.toNat - 'a'.toNat + 10)
  else if 'A' ≤ c ∧ c ≤ 'F' then some (c.toNat - 'A'.toNat + 10)
  else none

def ofCode (n : Nat) : JsChar :=
  if h : 0xD800 ≤ n ∧ n < 0xE000 then .surrogate ⟨n - 0xD800, by omega⟩ else .scalar (Char.ofNat n)

def unescape (c : Char) : Option Char :=
  if c = 'b' then some '\x08'
  else if c = 't' then some '\t'
  else if c = 'n' then some '\n'
  else if c = 'f' then some '\x0c'
  else if c = 'r' then some '\r'
  else if c = '"' ∨ c = '\\' ∨ c = '/' then some c
  else none

/-- The rest of a string, after its opening quote or some of its elements. -/
def parseString : List Char → Option (JsString × List Char)
  | [] => none
  | '"' :: rest => some ([], rest)
  | '\\' :: 'u' :: c₃ :: c₂ :: c₁ :: c₀ :: rest => do
    let n := (← hexValue c₃) * 4096 + (← hexValue c₂) * 256 + (← hexValue c₁) * 16 + (← hexValue c₀)
    let (s, rest) ← parseString rest
    return (ofCode n :: s, rest)
  | '\\' :: c :: rest => do
    let c ← unescape c
    let (s, rest) ← parseString rest
    return (.scalar c :: s, rest)
  | c :: rest =>
    if c = '\\' ∨ c.toNat < 0x20 then none
    else do
      let (s, rest) ← parseString rest
      return (.scalar c :: s, rest)

def parseNumber (text : List Char) : Option (Value Empty × List Char) :=
  if h : text.takeWhile isNumeral ≠ [] then
    some (.num ⟨text.takeWhile isNumeral, h, List.all_takeWhile⟩, text.dropWhile isNumeral)
  else none

mutual

/-- `fuel` bounds the number of characters. -/
def parseValue : Nat → List Char → Option (Value Empty × List Char)
  | 0, _ => none
  | fuel + 1, text =>
    match text with
    | 'n' :: 'u' :: 'l' :: 'l' :: rest => some (.null, rest)
    | 't' :: 'r' :: 'u' :: 'e' :: rest => some (.bool true, rest)
    | 'f' :: 'a' :: 'l' :: 's' :: 'e' :: rest => some (.bool false, rest)
    | '"' :: rest => do
      let (s, rest) ← parseString rest
      return (.str s, rest)
    | '[' :: rest =>
      if rest.head? = some ']' then some (.arr [], rest.tail)
      else do
        let (v, rest) ← parseValue fuel rest
        let (items, rest) ← parseItems fuel rest
        return (.arr (v :: items), rest)
    | '\x7b' :: rest =>
      if rest.head? = some '\x7d' then some (.obj [], rest.tail)
      else do
        let (m, rest) ← parseMember fuel rest
        let (members, rest) ← parseMembers fuel rest
        return (.obj (m :: members), rest)
    | text => parseNumber text

def parseItems : Nat → List Char → Option (List (Value Empty) × List Char)
  | 0, _ => none
  | fuel + 1, text =>
    match text with
    | ']' :: rest => some ([], rest)
    | ',' :: rest => do
      let (v, rest) ← parseValue fuel rest
      let (items, rest) ← parseItems fuel rest
      return (v :: items, rest)
    | _ => none

def parseMember : Nat → List Char → Option ((JsString × Value Empty) × List Char)
  | 0, _ => none
  | fuel + 1, text =>
    match text with
    | '"' :: rest => do
      let (k, rest) ← parseString rest
      match rest with
      | ':' :: rest =>
        let (v, rest) ← parseValue fuel rest
        return ((k, v), rest)
      | _ => none
    | _ => none

def parseMembers : Nat → List Char → Option (List (JsString × Value Empty) × List Char)
  | 0, _ => none
  | fuel + 1, text =>
    match text with
    | '\x7d' :: rest => some ([], rest)
    | ',' :: rest => do
      let (m, rest) ← parseMember fuel rest
      let (members, rest) ← parseMembers fuel rest
      return (m :: members, rest)
    | _ => none

end

def parse (text : List Char) : Option (Value Empty) :=
  match parseValue text.length text with
  | some (v, []) => some v
  | _ => none

/-! ## What was written is read back -/

theorem hexValue_digitChar (d : Nat) : hexValue (Nat.digitChar (d % 16)) = some (d % 16) := by
  have h : ∀ d : Fin 16, hexValue (Nat.digitChar d) = some d.val := by decide
  exact h ⟨d % 16, Nat.mod_lt d (by decide)⟩

theorem parseString_escapeCode {n : Nat} (hn : n < 65536) (rest : List Char) :
    parseString (escapeCode n ++ rest) =
      (parseString rest).map fun (s, rest) => (ofCode n :: s, rest) := by
  have hsum : n / 4096 % 16 * 4096 + n / 256 % 16 * 256 + n / 16 % 16 * 16 + n % 16 = n := by omega
  simp only [escapeCode, List.cons_append, List.nil_append, parseString, hexValue_digitChar,
    Option.bind_eq_bind, Option.bind_some, hsum]
  cases parseString rest <;> rfl

theorem parseString_escape {c e : Char} (h : unescape e = some c) (he : e ≠ 'u')
    (rest : List Char) : parseString ('\\' :: e :: rest) =
      (parseString rest).map fun (s, rest) => (.scalar c :: s, rest) := by
  rw [parseString]
  · rw [h]
    cases parseString rest <;> rfl
  · exact fun _ _ _ _ _ hu => absurd hu he

theorem parseString_quoteChar (c : JsChar) (rest : List Char) :
    parseString (quoteChar c ++ rest) =
      (parseString rest).map fun (s, rest) => (c :: s, rest) := by
  cases c with
  | surrogate n =>
    rw [quoteChar, parseString_escapeCode (by omega)]
    have hcode : ofCode (0xD800 + n) = .surrogate n := by
      unfold ofCode
      rw [dif_pos (by omega)]
      simp
    rw [hcode]
  | scalar c =>
    unfold quoteChar
    dsimp only
    split
    · next h => subst h; exact parseString_escape rfl (by decide) rest
    split
    · next h => subst h; exact parseString_escape rfl (by decide) rest
    split
    · next h => subst h; exact parseString_escape rfl (by decide) rest
    split
    · next h => subst h; exact parseString_escape rfl (by decide) rest
    split
    · next h => subst h; exact parseString_escape rfl (by decide) rest
    split
    · next h => subst h; exact parseString_escape rfl (by decide) rest
    split
    · next h => subst h; exact parseString_escape rfl (by decide) rest
    split
    · next h =>
      rw [parseString_escapeCode (by omega)]
      have hcode : ofCode c.toNat = .scalar c := by
        unfold ofCode
        rw [dif_neg (by omega), Char.ofNat_toNat]
      rw [hcode]
    · next hquote hslash hcontrol =>
      rw [List.singleton_append, parseString]
      · rw [if_neg (by simp [hslash, hcontrol])]
        cases parseString rest <;> rfl
      · exact hquote
      · exact fun _ _ _ _ _ h => absurd h hslash
      · exact fun _ _ h => absurd h hslash

theorem parseString_quoteTail (s : JsString) (rest : List Char) :
    parseString (quoteTail s ++ rest) = some (s, rest) := by
  induction s with
  | nil => rfl
  | cons c s ih =>
    have hcons : quoteTail (c :: s) ++ rest = quoteChar c ++ (quoteTail s ++ rest) := by
      simp [quoteTail]
    rw [hcons, parseString_quoteChar, ih]
    rfl

/-- The text after a value does not go on with a number. -/
def Ends (rest : List Char) : Prop := ∀ c ∈ rest.head?, isNumeral c = false

theorem parseNumber_text (n : Number) {rest : List Char} (hrest : Ends rest) :
    parseNumber (n.text ++ rest) = some (.num n, rest) := by
  have hall : ∀ c ∈ n.text, isNumeral c = true := List.all_eq_true.mp n.numeral
  have htake : (n.text ++ rest).takeWhile isNumeral = n.text := by
    rw [List.takeWhile_append_of_pos hall]
    cases rest with
    | nil => simp
    | cons c rest => simp [hrest c rfl]
  have hdrop : (n.text ++ rest).dropWhile isNumeral = rest := by
    rw [List.dropWhile_append_of_pos hall]
    cases rest with
    | nil => simp
    | cons c rest => simp [hrest c rfl]
  unfold parseNumber
  simp only [htake, hdrop, n.ne_nil, ne_eq, not_false_iff, dite_true]

theorem parseValue_number (n : Number) (fuel : Nat) {rest : List Char} (hrest : Ends rest) :
    parseValue (fuel + 1) (n.text ++ rest) = some (.num n, rest) := by
  have hhead : ∀ c ∈ (n.text ++ rest).head?, isNumeral c = true := by
    obtain ⟨text, hne, hnumeral⟩ := n
    intro c hc
    cases text with
    | nil => exact absurd rfl hne
    | cons c' text =>
      cases hc
      exact List.all_eq_true.mp hnumeral c List.mem_cons_self
  rw [← parseNumber_text n hrest, parseValue]
  all_goals
    intro _ htext
    rw [htext] at hhead
    exact absurd (hhead _ rfl) (by decide)

/-- The first character of a text: it does not close an array, and it is no byte order mark. -/
theorem head_stringify (v : Value Empty) (rest : List Char) :
    ∃ c, (stringify v ++ rest).head? = some c ∧ c ≠ ']' ∧ c ≠ '\uFEFF' := by
  cases v with
  | null => exact ⟨'n', rfl, by decide⟩
  | bool b => cases b <;> exact ⟨_, rfl, by decide⟩
  | num n =>
    obtain ⟨text, hne, hnumeral⟩ := n
    cases text with
    | nil => exact absurd rfl hne
    | cons c text =>
      have hc : isNumeral c = true := List.all_eq_true.mp hnumeral c List.mem_cons_self
      refine ⟨c, by simp [stringify], ?_, ?_⟩
      · rintro rfl
        cases hc
      · rintro rfl
        cases hc
  | str s => exact ⟨'"', by simp [stringify], by decide⟩
  | arr items => cases items <;> exact ⟨'[', by simp [stringify], by decide⟩
  | obj members => cases members <;> exact ⟨'\x7b', by simp [stringify], by decide⟩
  | ref b => cases b

theorem ends_items (items : List (Value Empty)) (rest : List Char) :
    Ends (stringifyItems items ++ rest) := by
  cases items <;> rintro c hc <;> cases hc <;> rfl

theorem ends_members (members : List (JsString × Value Empty)) (rest : List Char) :
    Ends (stringifyMembers members ++ rest) := by
  rintro c hc
  cases members with
  | nil => cases hc; rfl
  | cons m members => cases hc; rfl

theorem parseMember_of_value {fuel : Nat} {v : Value Empty} {text rest : List Char} (k : JsString)
    (hv : parseValue fuel text = some (v, rest)) :
    parseMember (fuel + 1) ('"' :: (quoteTail k ++ ':' :: text)) = some ((k, v), rest) := by
  rw [parseMember, parseString_quoteTail]
  simp only [Option.bind_eq_bind, Option.bind_some, hv]
  rfl

theorem length_quoteTail_pos (s : JsString) : 0 < (quoteTail s).length := by
  unfold quoteTail
  rw [List.length_append]
  exact Nat.lt_add_left _ Nat.one_pos

mutual

theorem parseValue_stringify (v : Value Empty) (fuel : Nat) (rest : List Char)
    (hfuel : (stringify v).length ≤ fuel) (hrest : Ends rest) :
    parseValue fuel (stringify v ++ rest) = some (v, rest) := by
  match v, fuel with
  | .null, fuel + 1 => rfl
  | .bool true, fuel + 1 => rfl
  | .bool false, fuel + 1 => rfl
  | .num n, 0 => exact absurd (List.eq_nil_of_length_eq_zero (Nat.le_zero.mp hfuel)) n.ne_nil
  | .num n, fuel + 1 => exact parseValue_number n fuel hrest
  | .str s, fuel + 1 =>
    rw [stringify, List.cons_append, parseValue, parseString_quoteTail]
    rfl
  | .arr [], fuel + 1 => rfl
  | .arr (v :: items), fuel + 1 =>
    simp only [stringify, List.length_cons, List.length_append] at hfuel
    have hv := parseValue_stringify v fuel (stringifyItems items ++ rest) (by omega)
      (ends_items items rest)
    have hitems := parseItems_stringify items fuel rest (by omega)
    obtain ⟨c, hhead, hc, -⟩ := head_stringify v (stringifyItems items ++ rest)
    rw [stringify, List.cons_append, List.append_assoc, parseValue, if_neg, hv]
    · simp only [Option.bind_eq_bind, Option.bind_some, hitems]
      rfl
    · rw [hhead]
      exact fun h => hc (Option.some.inj h)
  | .obj [], fuel + 1 => rfl
  | .obj ((k, v) :: members), fuel + 2 =>
    have hk := length_quoteTail_pos k
    simp only [stringify, List.length_cons, List.length_append] at hfuel
    have hv := parseValue_stringify v fuel (stringifyMembers members ++ rest) (by omega)
      (ends_members members rest)
    have hmembers := parseMembers_stringify members (fuel + 1) rest (by omega)
    have hm := parseMember_of_value k hv
    simp only [stringify, List.cons_append, List.append_assoc]
    rw [parseValue, if_neg (by simp), hm]
    simp only [Option.bind_eq_bind, Option.bind_some, hmembers]
    rfl

theorem parseItems_stringify (items : List (Value Empty)) (fuel : Nat) (rest : List Char)
    (hfuel : (stringifyItems items).length ≤ fuel) :
    parseItems fuel (stringifyItems items ++ rest) = some (items, rest) := by
  match items, fuel with
  | [], fuel + 1 => rfl
  | v :: items, fuel + 1 =>
    simp only [stringifyItems, List.length_cons, List.length_append] at hfuel
    have hv := parseValue_stringify v fuel (stringifyItems items ++ rest) (by omega)
      (ends_items items rest)
    have hitems := parseItems_stringify items fuel rest (by omega)
    rw [stringifyItems, List.cons_append, List.append_assoc, parseItems, hv]
    simp only [Option.bind_eq_bind, Option.bind_some, hitems]
    rfl

theorem parseMembers_stringify (members : List (JsString × Value Empty)) (fuel : Nat)
    (rest : List Char) (hfuel : (stringifyMembers members).length ≤ fuel) :
    parseMembers fuel (stringifyMembers members ++ rest) = some (members, rest) := by
  match members, fuel with
  | [], fuel + 1 => rfl
  | (k, v) :: members, fuel + 2 =>
    have hk := length_quoteTail_pos k
    simp only [stringifyMembers, List.length_cons, List.length_append] at hfuel
    have hv := parseValue_stringify v fuel (stringifyMembers members ++ rest) (by omega)
      (ends_members members rest)
    have hmembers := parseMembers_stringify members (fuel + 1) rest (by omega)
    have hm := parseMember_of_value k hv
    simp only [stringifyMembers, List.cons_append, List.append_assoc]
    rw [parseMembers, hm]
    simp only [Option.bind_eq_bind, Option.bind_some, hmembers]
    rfl

end

theorem parse_stringify (v : Value Empty) : parse (stringify v) = some v := by
  have h := parseValue_stringify v _ [] (Nat.le_refl _) (by rintro c hc; cases hc)
  rw [List.append_nil] at h
  rw [parse, h]

/-! ## Walks over the leaves -/

section Walk

variable {α β γ δ σ τ : Type}

mutual

/-- The value with each string and each reference replaced, a state passed along from left to
right. -/
def walk (onString : σ → JsString → Value γ × σ) (onRef : σ → β → Value γ × σ) (s : σ) :
    Value β → Value γ × σ
  | .null => (.null, s)
  | .bool b => (.bool b, s)
  | .num n => (.num n, s)
  | .str x => onString s x
  | .arr items => (.arr (walkItems onString onRef s items).1, (walkItems onString onRef s items).2)
  | .obj members =>
    (.obj (walkMembers onString onRef s members).1, (walkMembers onString onRef s members).2)
  | .ref b => onRef s b

def walkItems (onString : σ → JsString → Value γ × σ) (onRef : σ → β → Value γ × σ) (s : σ) :
    List (Value β) → List (Value γ) × σ
  | [] => ([], s)
  | v :: items =>
    let head := walk onString onRef s v
    let tail := walkItems onString onRef head.2 items
    (head.1 :: tail.1, tail.2)

def walkMembers (onString : σ → JsString → Value γ × σ) (onRef : σ → β → Value γ × σ) (s : σ) :
    List (JsString × Value β) → List (JsString × Value γ) × σ
  | [] => ([], s)
  | (k, v) :: members =>
    let head := walk onString onRef s v
    let tail := walkMembers onString onRef head.2 members
    ((k, head.1) :: tail.1, tail.2)

end

mutual

/-- The strings among the leaves; keys are not. -/
def strings : Value β → List JsString
  | .str x => [x]
  | .arr items => stringsItems items
  | .obj members => stringsMembers members
  | .null | .bool _ | .num _ | .ref _ => []

def stringsItems : List (Value β) → List JsString
  | [] => []
  | v :: items => strings v ++ stringsItems items

def stringsMembers : List (JsString × Value β) → List JsString
  | [] => []
  | (_, v) :: members => strings v ++ stringsMembers members

end

mutual

def refs : Value β → List β
  | .ref b => [b]
  | .arr items => refsItems items
  | .obj members => refsMembers members
  | .null | .bool _ | .num _ | .str _ => []

def refsItems : List (Value β) → List β
  | [] => []
  | v :: items => refs v ++ refsItems items

def refsMembers : List (JsString × Value β) → List β
  | [] => []
  | (_, v) :: members => refs v ++ refsMembers members

end

/-- A string is kept. -/
def keep (s : σ) (x : JsString) : Value γ × σ := (.str x, s)

section Comp

variable {f : σ → JsString → Value γ × σ} {g : σ → β → Value γ × σ} {f' : τ → JsString → Value δ × τ}
  {g' : τ → γ → Value δ × τ}

/-- One walk after another. -/
def after (f' : τ → JsString → Value δ × τ) (g' : τ → γ → Value δ × τ) (h : σ → α → Value γ × σ)
    (s : σ × τ) (a : α) : Value δ × (σ × τ) :=
  let first := h s.1 a
  let second := walk f' g' s.2 first.1
  (second.1, (first.2, second.2))

mutual

theorem walk_walk (v : Value β) (s : σ) (t : τ) :
    walk (after f' g' f) (after f' g' g) (s, t) v =
      ((walk f' g' t (walk f g s v).1).1, ((walk f g s v).2, (walk f' g' t (walk f g s v).1).2)) := by
  match v with
  | .null => rfl
  | .bool b => rfl
  | .num n => rfl
  | .str x => rfl
  | .ref b => rfl
  | .arr items =>
    have h := walkItems_walkItems items s t
    simp only [walk, h]
  | .obj members =>
    have h := walkMembers_walkMembers members s t
    simp only [walk, h]

theorem walkItems_walkItems (items : List (Value β)) (s : σ) (t : τ) :
    walkItems (after f' g' f) (after f' g' g) (s, t) items =
      ((walkItems f' g' t (walkItems f g s items).1).1,
        ((walkItems f g s items).2, (walkItems f' g' t (walkItems f g s items).1).2)) := by
  match items with
  | [] => rfl
  | v :: items => simp only [walkItems, walk_walk v, walkItems_walkItems items]

theorem walkMembers_walkMembers (members : List (JsString × Value β)) (s : σ) (t : τ) :
    walkMembers (after f' g' f) (after f' g' g) (s, t) members =
      ((walkMembers f' g' t (walkMembers f g s members).1).1,
        ((walkMembers f g s members).2, (walkMembers f' g' t (walkMembers f g s members).1).2)) := by
  match members with
  | [] => rfl
  | (k, v) :: members => simp only [walkMembers, walk_walk v, walkMembers_walkMembers members]

end

end Comp

section Mono

variable {f : σ → JsString → Value γ × σ} {g : σ → β → Value γ × σ} {R : σ → σ → Prop}

mutual

/-- What each leaf does to the state, the walk does. -/
theorem walk_rel (hrefl : ∀ s, R s s) (htrans : ∀ s₁ s₂ s₃, R s₁ s₂ → R s₂ s₃ → R s₁ s₃)
    (hf : ∀ s x, R s (f s x).2) (hg : ∀ s b, R s (g s b).2) (v : Value β) (s : σ) :
    R s (walk f g s v).2 := by
  match v with
  | .null => exact hrefl s
  | .bool b => exact hrefl s
  | .num n => exact hrefl s
  | .str x => exact hf s x
  | .ref b => exact hg s b
  | .arr items => exact walkItems_rel hrefl htrans hf hg items s
  | .obj members => exact walkMembers_rel hrefl htrans hf hg members s

theorem walkItems_rel (hrefl : ∀ s, R s s) (htrans : ∀ s₁ s₂ s₃, R s₁ s₂ → R s₂ s₃ → R s₁ s₃)
    (hf : ∀ s x, R s (f s x).2) (hg : ∀ s b, R s (g s b).2) (items : List (Value β)) (s : σ) :
    R s (walkItems f g s items).2 := by
  match items with
  | [] => exact hrefl s
  | v :: items =>
    exact htrans _ _ _ (walk_rel hrefl htrans hf hg v s) (walkItems_rel hrefl htrans hf hg items _)

theorem walkMembers_rel (hrefl : ∀ s, R s s) (htrans : ∀ s₁ s₂ s₃, R s₁ s₂ → R s₂ s₃ → R s₁ s₃)
    (hf : ∀ s x, R s (f s x).2) (hg : ∀ s b, R s (g s b).2) (members : List (JsString × Value β))
    (s : σ) : R s (walkMembers f g s members).2 := by
  match members with
  | [] => exact hrefl s
  | (k, v) :: members =>
    exact htrans _ _ _ (walk_rel hrefl htrans hf hg v s)
      (walkMembers_rel hrefl htrans hf hg members _)

end

end Mono

section Sim

variable {f : σ → JsString → Value γ × σ} {g : σ → β → Value γ × σ} {f' : τ → JsString → Value γ × τ}
  {g' : τ → β → Value γ × τ} {R : σ → τ → Prop} {P : JsString → Prop} {Good : τ → Prop}

/-- Two walks that do the same at each leaf do the same, as long as the second one stays good; a
state is good when a later one is. -/
structure Simulates (f : σ → JsString → Value γ × σ) (g : σ → β → Value γ × σ)
    (f' : τ → JsString → Value γ × τ) (g' : τ → β → Value γ × τ) (R : σ → τ → Prop)
    (P : JsString → Prop) (Good : τ → Prop) : Prop where
  string_good : ∀ t x, Good (f' t x).2 → Good t
  ref_good : ∀ t b, Good (g' t b).2 → Good t
  string : ∀ s t x, P x → R s t → Good (f' t x).2 →
    (f s x).1 = (f' t x).1 ∧ R (f s x).2 (f' t x).2
  ref : ∀ s t b, R s t → Good (g' t b).2 → (g s b).1 = (g' t b).1 ∧ R (g s b).2 (g' t b).2

theorem Simulates.items_good (H : Simulates f g f' g' R P Good) (items : List (Value β)) (t : τ)
    (h : Good (walkItems f' g' t items).2) : Good t :=
  walkItems_rel (R := fun t t' => Good t' → Good t) (fun _ => id) (fun _ _ _ h h' => h ∘ h')
    H.string_good H.ref_good items t h

theorem Simulates.members_good (H : Simulates f g f' g' R P Good)
    (members : List (JsString × Value β)) (t : τ) (h : Good (walkMembers f' g' t members).2) :
    Good t :=
  walkMembers_rel (R := fun t t' => Good t' → Good t) (fun _ => id) (fun _ _ _ h h' => h ∘ h')
    H.string_good H.ref_good members t h

mutual

theorem Simulates.walk (H : Simulates f g f' g' R P Good) (v : Value β)
    (hP : ∀ x ∈ strings v, P x) {s : σ} {t : τ} (hR : R s t) (h : Good (walk f' g' t v).2) :
    (walk f g s v).1 = (walk f' g' t v).1 ∧ R (walk f g s v).2 (walk f' g' t v).2 := by
  match v with
  | .null => exact ⟨rfl, hR⟩
  | .bool b => exact ⟨rfl, hR⟩
  | .num n => exact ⟨rfl, hR⟩
  | .str x => exact H.string s t x (hP x List.mem_cons_self) hR h
  | .ref b => exact H.ref s t b hR h
  | .arr items =>
    obtain ⟨heq, hR'⟩ := H.walkItems items hP hR h
    exact ⟨congrArg Value.arr heq, hR'⟩
  | .obj members =>
    obtain ⟨heq, hR'⟩ := H.walkMembers members hP hR h
    exact ⟨congrArg Value.obj heq, hR'⟩

theorem Simulates.walkItems (H : Simulates f g f' g' R P Good) (items : List (Value β))
    (hP : ∀ x ∈ stringsItems items, P x) {s : σ} {t : τ} (hR : R s t)
    (h : Good (walkItems f' g' t items).2) :
    (walkItems f g s items).1 = (walkItems f' g' t items).1 ∧
      R (walkItems f g s items).2 (walkItems f' g' t items).2 := by
  match items with
  | [] => exact ⟨rfl, hR⟩
  | v :: items =>
    obtain ⟨hv, hR'⟩ := H.walk v (fun x hx => hP x (List.mem_append_left _ hx)) hR
      (H.items_good items _ h)
    obtain ⟨hitems, hR''⟩ := H.walkItems items (fun x hx => hP x (List.mem_append_right _ hx)) hR' h
    exact ⟨congrArg₂ List.cons hv hitems, hR''⟩

theorem Simulates.walkMembers (H : Simulates f g f' g' R P Good)
    (members : List (JsString × Value β)) (hP : ∀ x ∈ stringsMembers members, P x) {s : σ} {t : τ}
    (hR : R s t) (h : Good (walkMembers f' g' t members).2) :
    (walkMembers f g s members).1 = (walkMembers f' g' t members).1 ∧
      R (walkMembers f g s members).2 (walkMembers f' g' t members).2 := by
  match members with
  | [] => exact ⟨rfl, hR⟩
  | (k, v) :: members =>
    obtain ⟨hv, hR'⟩ := H.walk v (fun x hx => hP x (List.mem_append_left _ hx)) hR
      (H.members_good members _ h)
    obtain ⟨hmembers, hR''⟩ :=
      H.walkMembers members (fun x hx => hP x (List.mem_append_right _ hx)) hR' h
    exact ⟨congrArg₂ List.cons (congrArg (Prod.mk k) hv) hmembers, hR''⟩

end

end Sim

section Count

variable {f : σ → JsString → Value γ × σ} {g : σ → β → Value γ × σ}

mutual

/-- The references that a walk leaves, when every reference becomes one. -/
theorem length_refs_walk (count : JsString → Nat)
    (hf : ∀ s x, (refs (f s x).1).length = count x)
    (hg : ∀ s b, (refs (g s b).1).length = 1) (v : Value β) (s : σ) :
    (refs (walk f g s v).1).length = ((strings v).map count).sum + (refs v).length := by
  match v with
  | .null => rfl
  | .bool b => rfl
  | .num n => rfl
  | .str x => simp [walk, strings, refs, hf]
  | .ref b => simp [walk, strings, refs, hg]
  | .arr items => exact length_refs_walkItems count hf hg items s
  | .obj members => exact length_refs_walkMembers count hf hg members s

theorem length_refs_walkItems (count : JsString → Nat)
    (hf : ∀ s x, (refs (f s x).1).length = count x)
    (hg : ∀ s b, (refs (g s b).1).length = 1) (items : List (Value β)) (s : σ) :
    (refsItems (walkItems f g s items).1).length =
      ((stringsItems items).map count).sum + (refsItems items).length := by
  match items with
  | [] => rfl
  | v :: items =>
    simp only [walkItems, refsItems, stringsItems, List.length_append, List.map_append,
      List.sum_append, length_refs_walk count hf hg v, length_refs_walkItems count hf hg items]
    omega

theorem length_refs_walkMembers (count : JsString → Nat)
    (hf : ∀ s x, (refs (f s x).1).length = count x)
    (hg : ∀ s b, (refs (g s b).1).length = 1) (members : List (JsString × Value β)) (s : σ) :
    (refsMembers (walkMembers f g s members).1).length =
      ((stringsMembers members).map count).sum + (refsMembers members).length := by
  match members with
  | [] => rfl
  | (k, v) :: members =>
    simp only [walkMembers, refsMembers, stringsMembers, List.length_append, List.map_append,
      List.sum_append, length_refs_walk count hf hg v, length_refs_walkMembers count hf hg members]
    omega

end

end Count

section Collect

variable {ε : Type} {f : σ → JsString → Value γ × σ} {g : σ → β → Value γ × σ}

mutual

/-- A walk that logs the references. -/
theorem collect_walk (log : σ → List ε) (h : β → ε) (hf : ∀ s x, log (f s x).2 = log s)
    (hg : ∀ s b, log (g s b).2 = log s ++ [h b]) (v : Value β) (s : σ) :
    log (walk f g s v).2 = log s ++ (refs v).map h := by
  match v with
  | .null => exact (List.append_nil _).symm
  | .bool b => exact (List.append_nil _).symm
  | .num n => exact (List.append_nil _).symm
  | .str x => exact (hf s x).trans (List.append_nil _).symm
  | .ref b => exact hg s b
  | .arr items => exact collect_walkItems log h hf hg items s
  | .obj members => exact collect_walkMembers log h hf hg members s

theorem collect_walkItems (log : σ → List ε) (h : β → ε) (hf : ∀ s x, log (f s x).2 = log s)
    (hg : ∀ s b, log (g s b).2 = log s ++ [h b]) (items : List (Value β)) (s : σ) :
    log (walkItems f g s items).2 = log s ++ (refsItems items).map h := by
  match items with
  | [] => exact (List.append_nil _).symm
  | v :: items =>
    simp only [walkItems, refsItems, List.map_append, collect_walkItems log h hf hg items,
      collect_walk log h hf hg v, List.append_assoc]

theorem collect_walkMembers (log : σ → List ε) (h : β → ε) (hf : ∀ s x, log (f s x).2 = log s)
    (hg : ∀ s b, log (g s b).2 = log s ++ [h b]) (members : List (JsString × Value β)) (s : σ) :
    log (walkMembers f g s members).2 = log s ++ (refsMembers members).map h := by
  match members with
  | [] => exact (List.append_nil _).symm
  | (k, v) :: members =>
    simp only [walkMembers, refsMembers, List.map_append, collect_walkMembers log h hf hg members,
      collect_walk log h hf hg v, List.append_assoc]

end

end Collect

end Walk

end Neemata.Json
