import Neemata.Lib.CodeUnits

/-!
# Response headers

The `Headers` of the fetch API: names in lower case, and values without white space at the ends and
without what no header carries. It lists its entries by their names, so that only the values of a
name and their order are kept here.
-/

namespace Neemata.Http

open CodeUnits

/-! ## Values -/

def isHttpSpace (u : UInt16) : Bool := u == 9 || u == 10 || u == 13 || u == 32

def normalize (text : Text) : Text := (text.dropWhile isHttpSpace).rdropWhile isHttpSpace

/-- No code unit above a byte, and none of NUL, LF and CR. -/
def validValue (text : Text) : Bool := text.all fun u => u ≤ 0xFF && u != 0 && u != 10 && u != 13

theorem normalize_normalize (text : Text) : normalize (normalize text) = normalize text := by
  have hhead : (normalize text).dropWhile isHttpSpace = normalize text := by
    refine List.dropWhile_eq_self_iff.mpr fun hlength hspace => ?_
    have hinit : normalize text <+: text.dropWhile isHttpSpace := List.rdropWhile_prefix _ _
    have hself : (text.dropWhile isHttpSpace).dropWhile isHttpSpace = text.dropWhile isHttpSpace :=
      List.dropWhile_idempotent _ _
    rw [hinit.getElem hlength] at hspace
    exact List.dropWhile_eq_self_iff.mp hself (hlength.trans_le hinit.length_le) hspace
  rw [normalize, hhead]
  exact List.rdropWhile_idempotent _ _

/-- A value as `Headers` keeps it. -/
structure HeaderValue where
  text : Text
  normalized : normalize text = text
  valid : validValue text = true
deriving DecidableEq

/-- `none` where `Headers` throws. -/
def HeaderValue.ofText? (text : Text) : Option HeaderValue :=
  if h : validValue (normalize text) = true then
    some ⟨normalize text, normalize_normalize text, h⟩
  else none

/-! ## Headers -/

structure Headers where
  entries : List (Text × HeaderValue)
deriving DecidableEq

namespace Headers

/-- The values of a name, in order. -/
def values (headers : Headers) (name : Text) : List HeaderValue :=
  (headers.entries.filter fun entry => entry.1 == name).map Prod.snd

def append (headers : Headers) (name : Text) (value : HeaderValue) : Headers :=
  ⟨headers.entries ++ [(name, value)]⟩

def delete (headers : Headers) (name : Text) : Headers :=
  ⟨headers.entries.filter fun entry => entry.1 != name⟩

def set (headers : Headers) (name : Text) (value : HeaderValue) : Headers :=
  (headers.delete name).append name value

variable {headers : Headers} {name other : Text} {value : HeaderValue}

@[simp] theorem values_append_self :
    (headers.append name value).values name = headers.values name ++ [value] := by
  simp [values, append]

theorem values_append_of_ne (h : name ≠ other) :
    (headers.append name value).values other = headers.values other := by
  simp [values, append, h]

@[simp] theorem values_delete_self : (headers.delete name).values name = [] := by
  simp [values, delete]

theorem values_delete_of_ne (h : name ≠ other) :
    (headers.delete name).values other = headers.values other := by
  rw [values, delete, List.filter_filter, values]
  congr 1
  refine List.filter_congr fun entry _ => ?_
  by_cases hname : entry.1 = other
  · simp [hname, h.symm]
  · simp [hname]

@[simp] theorem values_set_self : (headers.set name value).values name = [value] := by
  rw [set, values_append_self, values_delete_self, List.nil_append]

theorem values_set_of_ne (h : name ≠ other) :
    (headers.set name value).values other = headers.values other := by
  rw [set, values_append_of_ne h, values_delete_of_ne h]

end Headers

end Neemata.Http
