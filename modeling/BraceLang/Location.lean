/-!
# Places in a source text

A place is a line and a column, both counted from one, in characters. A newline moves to the
first column of the next line; every other character, a tab included, moves one column on.
-/

namespace BraceLang

structure Location where
  line : Nat
  column : Nat
deriving DecidableEq, Repr

namespace Location

def origin : Location := ⟨1, 1⟩

instance : Inhabited Location := ⟨origin⟩

/-- The place just past a character that stands at the given place. -/
def next (p : Location) (c : Char) : Location :=
  if c = '\n' then ⟨p.line + 1, 1⟩ else ⟨p.line, p.column + 1⟩

def after (p : Location) (text : List Char) : Location :=
  text.foldl next p

@[simp] theorem after_nil (p : Location) : p.after [] = p := rfl

@[simp] theorem after_cons (p : Location) (c : Char) (text : List Char) :
    p.after (c :: text) = (p.next c).after text := rfl

theorem after_append (p : Location) (s t : List Char) :
    p.after (s ++ t) = (p.after s).after t :=
  List.foldl_append

/-- A run without a newline stays on its line. -/
theorem after_of_notMem (p : Location) {text : List Char} (h : '\n' ∉ text) :
    p.after text = ⟨p.line, p.column + text.length⟩ := by
  induction text generalizing p with
  | nil => rfl
  | cons c text ih =>
    have hc : c ≠ '\n' := fun e => h (e ▸ List.mem_cons_self)
    rw [after_cons, ih _ fun e => h (List.mem_cons_of_mem c e)]
    simp only [next, if_neg hc, List.length_cons, Nat.add_assoc, Nat.add_comm 1]

def text (p : Location) : String := s!"{p.line}:{p.column}"

theorem isDigit_of_mem_toString {n : Nat} {c : Char} (h : c ∈ (toString n).toList) :
    c.isDigit := by
  rw [Nat.toString_eq_repr, Nat.toList_repr] at h
  exact Nat.isDigit_of_mem_toDigits (by decide) (by decide) h

end Location

end BraceLang
