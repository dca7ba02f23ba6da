import DesignTokens.Text.Basic

/-!
# Tables

A table holds values under names, in the order in which the names came in. A
value that comes in under a known name takes the place of the old one.
-/

namespace DesignTokens

/-- Values under names, in the order in which the names came in. -/
abbrev Table (α : Type) := List (Text × α)

namespace Table

variable {α : Type}

def names (t : Table α) : List Text :=
  t.map (·.1)

def get? (name : Text) : Table α → Option α
  | [] => none
  | (n, a) :: t => if n = name then some a else get? name t

/--
A table with the value under a name changed; under a new name `fresh` is changed and
put at the end.
-/
def change (name : Text) (fresh : α) (f : α → α) : Table α → Table α
  | [] => [(name, f fresh)]
  | (n, a) :: t => if n = name then (n, f a) :: t else (n, a) :: change name fresh f t

def put (name : Text) (a : α) (t : Table α) : Table α :=
  t.change name a fun _ => a

theorem get?_change (name other : Text) (fresh : α) (f : α → α) (t : Table α) :
    get? other (t.change name fresh f) =
      if other = name then some (f ((get? name t).getD fresh)) else get? other t := by
  induction t with
  | nil =>
      by_cases h : other = name
      · simp [change, get?, h]
      · simp [change, get?, h, Ne.symm h]
  | cons entry t ih =>
      obtain ⟨n, a⟩ := entry
      by_cases hn : n = name
      · subst hn
        by_cases h : other = n
        · simp [change, get?, h]
        · simp [change, get?, h, Ne.symm h]
      · by_cases h : n = other
        · subst h
          simp [change, get?, hn]
        · simp [change, get?, hn, h, ih]

theorem names_change (name : Text) (fresh : α) (f : α → α) (t : Table α) :
    (t.change name fresh f).names = if name ∈ t.names then t.names else t.names ++ [name] := by
  induction t with
  | nil => simp [change, names]
  | cons entry t ih =>
      obtain ⟨n, a⟩ := entry
      simp only [names] at ih
      by_cases hn : n = name
      · simp [change, names, hn]
      · by_cases h : name ∈ t.map (·.1)
        · simp [change, names, hn, h, ih]
        · simp [change, names, hn, Ne.symm hn, h, ih]

end Table
end DesignTokens
