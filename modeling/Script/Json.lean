/-!
# JSON

The data format in which trees are kept. An object is the list of its members; of two members with
one name the first counts.
-/

namespace Script

inductive Json where
  | null
  | bool (b : Bool)
  /-- The number with these digits, the last `places` of them behind the point. -/
  | number (digits : Int) (places : Nat)
  | string (s : String)
  | array (items : List Json)
  | object (members : List (String × Json))
deriving Inhabited

namespace Json

def ofNat (n : Nat) : Json := .number n 0

def nat? : Json → Option Nat
  | .number (.ofNat n) 0 => some n
  | _ => none

def string? : Json → Option String
  | .string s => some s
  | _ => none

def bool? : Json → Option Bool
  | .bool b => some b
  | _ => none

theorem nat?_eq_some_iff {j : Json} {n : Nat} : j.nat? = some n ↔ j = ofNat n := by
  constructor
  · intro h
    unfold nat? at h
    split at h
    · obtain rfl := Option.some.inj h
      rfl
    · simp at h
  · rintro rfl
    rfl

theorem string?_eq_some_iff {j : Json} {s : String} : j.string? = some s ↔ j = .string s := by
  cases j <;> simp [string?]

theorem bool?_eq_some_iff {j : Json} {b : Bool} : j.bool? = some b ↔ j = .bool b := by
  cases j <;> simp [bool?]

end Json

abbrev Members := List (String × Json)

namespace Members

def get? (name : String) : Members → Option Json
  | [] => none
  | (key, value) :: members => if key = name then some value else get? name members

/-- The size of what the members hold. Their names do not count, since an array has none. -/
noncomputable def extent : Members → Nat
  | [] => 0
  | (_, value) :: members => sizeOf value + extent members + 1

theorem sizeOf_lt_of_get? {name : String} {members : Members} {value : Json}
    (h : members.get? name = some value) : sizeOf value < members.extent := by
  induction members with
  | nil => simp [get?] at h
  | cons m members ih =>
    obtain ⟨key, v⟩ := m
    simp only [get?] at h
    rw [extent]
    split at h
    · obtain rfl := Option.some.inj h
      omega
    · have := ih h
      omega

theorem extent_lt_sizeOf_object (members : Members) :
    members.extent < sizeOf (Json.object members) := by
  have hlist : members.extent ≤ sizeOf members := by
    induction members with
    | nil => exact Nat.zero_le _
    | cons m members ih =>
      obtain ⟨key, v⟩ := m
      rw [extent, List.cons.sizeOf_spec, Prod.mk.sizeOf_spec]
      omega
  rw [Json.object.sizeOf_spec]
  omega

theorem extent_zip_lt_sizeOf_array (names : List String) (items : List Json) :
    extent (names.zip items) < sizeOf (Json.array items) := by
  have hlist : extent (names.zip items) ≤ sizeOf items := by
    induction items generalizing names with
    | nil => simp [extent]
    | cons item items ih =>
      cases names with
      | nil => exact Nat.zero_le _
      | cons name names =>
        have := ih names
        rw [List.zip_cons_cons, extent, List.cons.sizeOf_spec]
        omega
  rw [Json.array.sizeOf_spec]
  omega

end Members

end Script
