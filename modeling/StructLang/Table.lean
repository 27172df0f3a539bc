namespace StructLang

abbrev Table (α : Type) := List (String × α)

namespace Table

variable {α : Type}

def get? : Table α → String → Option α
  | [], _ => none
  | (n, a) :: t, name => if n = name then some a else get? t name

def put : Table α → String → α → Table α
  | [], name, a => [(name, a)]
  | (n, b) :: t, name, a => if n = name then (n, a) :: t else (n, b) :: put t name a

def names (t : Table α) : List String := t.map Prod.fst

def has (t : Table α) (name : String) : Bool := t.names.contains name

def ofList (entries : List (String × α)) : Table α :=
  entries.foldl (fun t e => t.put e.1 e.2) []

@[simp] theorem get?_put_self (t : Table α) (name : String) (a : α) :
    (t.put name a).get? name = some a := by
  induction t with
  | nil => simp [put, get?]
  | cons e t ih => by_cases h : e.1 = name <;> simp_all [put, get?]

theorem get?_put_of_ne (t : Table α) {name other : String} (a : α) (h : other ≠ name) :
    (t.put name a).get? other = t.get? other := by
  induction t with
  | nil => simp [put, get?, h.symm]
  | cons e t ih => by_cases hn : e.1 = name <;> simp_all [put, get?, eq_comm]

end Table

end StructLang
